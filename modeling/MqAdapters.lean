import MqAdapters.Theory.Lists
import MqAdapters.Theory.Machine
import MqAdapters.Theory.Program
import MqAdapters.Theory.Loop
import MqAdapters.Theory.Attempts
import MqAdapters.Theory.Crew
import MqAdapters.Theory.Consumer
import MqAdapters.Theory.Batching
import MqAdapters.Theory.Semaphore
import MqAdapters.Theory.Cache
import MqAdapters.Theory.Hosting
import MqAdapters.Theory.Broker
import MqAdapters.Theory.Polite
import MqAdapters.Theory.Served
import MqAdapters.Theory.Window
import MqAdapters.Theory.Monitor
import MqAdapters.Theory.Ranking
import MqAdapters.Python.Value
import MqAdapters.DeadLettering
import MqAdapters.Delivery.Operations
import MqAdapters.Delivery.Sync
import MqAdapters.Delivery.Async
import MqAdapters.Delivery.Paths
import MqAdapters.Delivery.Lawful
import MqAdapters.Delivery.AckSafety
import MqAdapters.Delivery.Settlement
import MqAdapters.Delivery.Redelivery
import MqAdapters.Delivery.Wrappers
import MqAdapters.Delivery.Counters
import MqAdapters.Delivery.Isolation
import MqAdapters.Delivery.Wire
import MqAdapters.Delivery.Served
import MqAdapters.AttemptCount
import MqAdapters.RetryPolicy
import MqAdapters.Retry
import MqAdapters.Stats
import MqAdapters.Pika
import MqAdapters.PublishBackend.Model
import MqAdapters.PublishBackend.Drain
import MqAdapters.PublishBackend.Stop
import MqAdapters.PublishBackend.Restart
import MqAdapters.PublishBackend.Order
import MqAdapters.PublishBackend.Pool
import MqAdapters.PublishBackend.Waiting
import MqAdapters.PublishBackend.Ending
import MqAdapters.PublishBackend.Counters
import MqAdapters.PublishBackend.Attempts
import MqAdapters.PublishBackend.Heartbeat
import MqAdapters.Listener.Loop
import MqAdapters.Listener.Stop
import MqAdapters.Listener.Setup
import MqAdapters.Listener.SetupOrder
import MqAdapters.Listener.Pump
import MqAdapters.Listener.Direct
import MqAdapters.Listener.Lifecycle
import MqAdapters.Listener.Attempts
import MqAdapters.Listener.Ending
import MqAdapters.Listener.Recovery
import MqAdapters.Offload.Model
import MqAdapters.Offload.Permits
import MqAdapters.Offload.Ownership
import MqAdapters.Offload.Exit
import MqAdapters.Offload.Ending
import MqAdapters.Offload.Hosting
import MqAdapters.Offload.Served
import MqAdapters.Offload.Window
import MqAdapters.Pipeline.Sync
import MqAdapters.Pipeline.Async
import MqAdapters.SharedStats
import MqAdapters.Outage
import MqAdapters.MaxAttempts
import MqAdapters.MaxDelay
import MqAdapters.AsyncSender.Model
import MqAdapters.AsyncSender.Steps
import MqAdapters.AsyncSender.Confirms
import MqAdapters.AsyncSender.Links
import MqAdapters.AsyncSender.Ready
import MqAdapters.AsyncSender.Republish
import MqAdapters.AsyncSender.Flush
import MqAdapters.AsyncSender.Batches
import MqAdapters.AsyncSender.Attempts
import MqAdapters.AsyncSender.Direct
import MqAdapters.AsyncListener.Model
import MqAdapters.AsyncListener.Start
import MqAdapters.AsyncListener.Concurrency
import MqAdapters.AsyncListener.Settle
import MqAdapters.AsyncListener.Moves
import MqAdapters.AsyncListener.Ending
import MqAdapters.AsyncListener.Awaits
import MqAdapters.AsyncListener.Served
import MqAdapters.Topology
import MqAdapters.QueueArguments
import MqAdapters.Client.Model
import MqAdapters.Client.Close
import MqAdapters.Client.Cache
