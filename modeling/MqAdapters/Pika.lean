import MqAdapters.Theory.Lists

/-!
# Connections, as a factory hands them out

`Connections` lists every connection that a factory has returned, in order, and
says of each whether it is open.  A connection object is its position in the
list.  `close` leaves a connection closed; so does losing it.
-/

namespace MqAdapters

/-- For each connection ever returned by the factory, whether it is open. -/
abbrev Connections := List Bool

namespace Connections

/-- The position of the next connection. -/
def fresh (cs : Connections) : Nat := cs.length

/-- The factory returns one more connection. -/
def connect (cs : Connections) : Connections := cs ++ [true]

def isOpen (cs : Connections) (c : Nat) : Bool := cs.getD c false

def close (cs : Connections) (c : Nat) : Connections := cs.set c false

/-- `conn is not None and conn.is_open`. -/
def usable (cs : Connections) (conn : Option Nat) : Bool := conn.any cs.isOpen

/-- Every connection that is open is `conn`. -/
def OnlyOpen (cs : Connections) (conn : Option Nat) : Prop :=
  ∀ c, cs.isOpen c = true → conn = some c

def AllClosed (cs : Connections) : Prop := ∀ c, cs.isOpen c = false

variable {cs : Connections} {c d : Nat} {conn : Option Nat}

theorem isOpen_close : (cs.close c).isOpen d = true ↔ cs.isOpen d = true ∧ d ≠ c := by
  unfold isOpen close
  rw [List.getD_eq_getElem?_getD, List.getD_eq_getElem?_getD, List.getElem?_set]
  split
  · next h => subst h; split <;> simp
  · next h => simp [Ne.symm h]

theorem isOpen_connect : cs.connect.isOpen d = true ↔ cs.isOpen d = true ∨ d = cs.fresh := by
  unfold isOpen connect fresh
  rw [List.getD_eq_getElem?_getD, List.getD_eq_getElem?_getD]
  rw [Theory.getElem?_concat]
  split
  · next h => simp [h]
  · next h => simp [h]

/-- A connection that was not returned yet is not open. -/
theorem isOpen_of_fresh_le (h : cs.fresh ≤ c) : cs.isOpen c = false := by
  unfold isOpen
  rw [List.getD_eq_getElem?_getD, List.getElem?_eq_none h, Option.getD_none]

theorem isOpen_of_close (h : (cs.close c).isOpen d = true) : cs.isOpen d = true :=
  (isOpen_close.mp h).1

theorem AllClosed.onlyOpen (h : cs.AllClosed) : cs.OnlyOpen conn := fun c hc =>
  absurd hc (by simp [h c])

/-- The only connection that can be open is not. -/
theorem OnlyOpen.allClosed (h : cs.OnlyOpen conn) (hu : cs.usable conn = false) :
    cs.AllClosed := by
  intro c
  by_contra hc
  obtain rfl := h c (by simpa using hc)
  exact hc (by simpa [usable] using hu)

theorem AllClosed.usable (h : cs.AllClosed) : cs.usable conn = false := by
  cases conn with
  | none => rfl
  | some c => exact h c

/-- The factory returns the first open connection. -/
theorem AllClosed.connect (h : cs.AllClosed) : cs.connect.OnlyOpen (some cs.fresh) := by
  intro c hc
  rcases isOpen_connect.mp hc with hc | rfl
  · exact absurd hc (by simp [h c])
  · rfl

/-- Closing it leaves none open. -/
theorem OnlyOpen.close (h : cs.OnlyOpen (some c)) : (cs.close c).AllClosed := by
  intro d
  by_contra hd
  obtain ⟨hd, hne⟩ := isOpen_close.mp (by simpa using hd)
  exact hne (Option.some.inj (h d hd)).symm

theorem usable_iff : cs.usable conn = true ↔ ∃ c, conn = some c ∧ cs.isOpen c = true := by
  cases conn <;> simp [usable]

theorem OnlyOpen.lose (h : cs.OnlyOpen conn) : (cs.close c).OnlyOpen conn :=
  fun d hd => h d (isOpen_of_close hd)

/-- Forgetting the only connection that can be open leaks none if it is not. -/
theorem OnlyOpen.forget_iff (h : cs.OnlyOpen conn) :
    cs.OnlyOpen none ↔ cs.usable conn = false := by
  constructor
  · intro hn
    by_contra hu
    obtain ⟨c, -, hc⟩ := usable_iff.mp (by simpa using hu)
    exact absurd (hn c hc) (by simp)
  · exact fun hu => (h.allClosed hu).onlyOpen

/-- A new connection in its place leaks none if it is not open. -/
theorem OnlyOpen.connect_iff (h : cs.OnlyOpen conn) :
    cs.connect.OnlyOpen (some cs.fresh) ↔ cs.usable conn = false := by
  constructor
  · intro hn
    by_contra hu
    obtain ⟨c, -, hc⟩ := usable_iff.mp (by simpa using hu)
    have hfresh : cs.fresh = c := Option.some.inj (hn c (isOpen_connect.mpr (.inl hc)))
    rw [← hfresh] at hc
    exact absurd hc (by simp [isOpen, fresh])
  · exact fun hu => (h.allClosed hu).connect

/-- Forgetting it after closing `c` leaks none if it is `c`, or not open. -/
theorem OnlyOpen.close_iff (h : cs.OnlyOpen conn) :
    (cs.close c).OnlyOpen none ↔ conn = some c ∨ cs.usable conn = false := by
  constructor
  · intro hn
    by_contra hu
    obtain ⟨hne, hu⟩ := not_or.mp hu
    obtain ⟨d, rfl, hd⟩ := usable_iff.mp (by simpa using hu)
    have hdc : d ≠ c := fun hdc => hne (congrArg some hdc)
    exact absurd (hn d (isOpen_close.mpr ⟨hd, hdc⟩)) (by simp)
  · rintro (rfl | hu)
    · exact h.close.onlyOpen
    · exact fun d hd => absurd (isOpen_of_close hd) (by simp [h.allClosed hu d])

end Connections

end MqAdapters
