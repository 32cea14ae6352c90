/-!
# The in-process counters

`StatsSnapshot` of `stats.py`.  `Stats.inc` adds under a lock, so a counter is
incremented in one step; `inc` of one of the nine names never raises.
-/

namespace MqAdapters

/-- `StatsSnapshot`. -/
structure Stats where
  published : Nat
  publishFailed : Nat
  received : Nat
  handlerExceptions : Nat
  acked : Nat
  nacked : Nat
  reconnectAttempts : Nat
  connectionsOpened : Nat
  connectionsClosed : Nat
  deriving DecidableEq

def Stats.zero : Stats := ⟨0, 0, 0, 0, 0, 0, 0, 0, 0⟩

namespace Stats

def incPublished (s : Stats) : Stats := { s with published := s.published + 1 }

def incPublishFailed (s : Stats) : Stats := { s with publishFailed := s.publishFailed + 1 }

def incReconnectAttempts (s : Stats) : Stats :=
  { s with reconnectAttempts := s.reconnectAttempts + 1 }

def incConnectionsOpened (s : Stats) : Stats :=
  { s with connectionsOpened := s.connectionsOpened + 1 }

def incConnectionsClosed (s : Stats) : Stats :=
  { s with connectionsClosed := s.connectionsClosed + 1 }

end Stats

end MqAdapters
