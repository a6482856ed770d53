import Mathlib.Data.List.Basic

set_option autoImplicit false

/-! # Readers of one broadcast stream

Events are appended to a stream that any number of readers follow, each from a position of its
own. A reader that takes the first event it can make sense of (`f` of the event is some value)
ends with `firstFrom f` of the position it started at: appending extends it where it was none,
and reading on past an event without a value leaves it.

A stream of bounded capacity forgets its oldest events. A reader that falls behind is told that it
lagged instead, so what it was owed reaches it one way or the other (`recv_of_owed`).
-/

namespace MostroApp.Broadcast

variable {α β : Type} {f : α → Option β} {events : List α} {pos : Nat} {e : α}

/-! ## The first value from a position on -/

/-- The first value `f` finds in the events from `pos` on. -/
def firstFrom (f : α → Option β) (pos : Nat) (events : List α) : Option β :=
  (events.drop pos).findSome? f

theorem firstFrom_length (f : α → Option β) (events : List α) :
    firstFrom f events.length events = none := by
  simp [firstFrom]

theorem firstFrom_append (h : pos ≤ events.length) :
    firstFrom f pos (events ++ [e]) = (firstFrom f pos events).or (f e) := by
  unfold firstFrom
  rw [List.drop_append_of_le_length h, List.findSome?_append]
  simp

theorem firstFrom_get (h : events[pos]? = some e) :
    firstFrom f pos events = (f e).or (firstFrom f (pos + 1) events) := by
  obtain ⟨hlt, rfl⟩ := List.getElem?_eq_some_iff.mp h
  unfold firstFrom
  rw [List.drop_eq_getElem_cons hlt, List.findSome?_cons]
  cases f events[pos] <;> rfl

/-! ## Events without a value -/

/-- None of the events from `start` up to `stop` has a value. -/
def Silent (f : α → Option β) (start stop : Nat) (events : List α) : Prop :=
  ∀ k, start ≤ k → k < stop → (events[k]?).bind f = none

theorem silent_self (f : α → Option β) (start : Nat) (events : List α) :
    Silent f start start events := by
  intro k hk hlt
  omega

theorem Silent.append {start stop : Nat} (h : Silent f start stop events)
    (hstop : stop ≤ events.length) : Silent f start stop (events ++ [e]) := by
  intro k hk hlt
  have hlen : k < events.length := by omega
  rw [List.getElem?_append_left hlen]
  exact h k hk hlt

theorem Silent.succ {start : Nat} (h : Silent f start pos events) (he : events[pos]? = some e)
    (hnone : f e = none) : Silent f start (pos + 1) events := by
  intro k hk hlt
  by_cases hpos : k = pos
  · rw [hpos, he]
    exact hnone
  · exact h k hk (by omega)

/-! ## Readers that fall behind -/

/-- What a reader of a bounded stream is handed: an event, or that it has missed some. -/
inductive Received (α : Type) where
  | value (a : α)
  | lagged
  deriving DecidableEq, Repr

/-- The next thing a reader at `pos` is handed and where it stands then; `none` while it waits. Only
the last `capacity` events are kept, and one that lagged goes on with the oldest of them. -/
def recv (capacity : Nat) (events : List α) (pos : Nat) : Option (Received α × Nat) :=
  if pos + capacity < events.length then some (.lagged, events.length - capacity)
  else (events[pos]?).map fun a => (.value a, pos + 1)

/-- It may concern a reader that looks for `P`. -/
def Received.Concerns (P : α → Prop) : Received α → Prop
  | .value a => P a
  | .lagged => True

/-- An event from `pos` on satisfies `P`. -/
def Owed (P : α → Prop) (pos : Nat) (events : List α) : Prop :=
  ∃ k, pos ≤ k ∧ ∃ a, events[k]? = some a ∧ P a

variable {P : α → Prop} {capacity pos' : Nat} {r : Received α}

theorem Owed.append (h : Owed P pos events) (e : α) : Owed P pos (events ++ [e]) := by
  obtain ⟨k, hk, a, ha, hP⟩ := h
  have hlen : k < events.length := (List.getElem?_eq_some_iff.mp ha).1
  exact ⟨k, hk, a, (List.getElem?_append_left hlen).trans ha, hP⟩

theorem owed_of_append (h : pos ≤ events.length) (he : P e) : Owed P pos (events ++ [e]) :=
  ⟨events.length, h, e, by simp, he⟩

theorem not_owed_of_length_le (h : events.length ≤ pos) : ¬ Owed P pos events := by
  rintro ⟨k, hk, a, ha, -⟩
  have hlen : k < events.length := (List.getElem?_eq_some_iff.mp ha).1
  omega

theorem recv_eq_none_iff : recv capacity events pos = none ↔ events.length ≤ pos := by
  unfold recv
  split
  · next h => simp only [reduceCtorEq, false_iff]; omega
  · simp

/-- A reader moves on, and not past the end. -/
theorem recv_bounds (h : recv capacity events pos = some (r, pos')) (hcap : 0 < capacity) :
    pos < pos' ∧ pos' ≤ events.length := by
  unfold recv at h
  split at h
  · next hlag =>
    obtain ⟨-, rfl⟩ := Prod.mk.inj (Option.some.inj h)
    omega
  · obtain ⟨a, ha, heq⟩ := Option.map_eq_some_iff.mp h
    obtain ⟨-, rfl⟩ := Prod.mk.inj heq
    have hlen : pos < events.length := (List.getElem?_eq_some_iff.mp ha).1
    omega

/-- **Nothing is lost.** What a reader is owed is what it is handed, or it lagged, or it is owed it
still. -/
theorem recv_of_owed (h : Owed P pos events) (hr : recv capacity events pos = some (r, pos')) :
    r.Concerns P ∨ Owed P pos' events := by
  obtain ⟨k, hk, a, ha, hP⟩ := h
  unfold recv at hr
  split at hr
  · obtain ⟨rfl, -⟩ := Prod.mk.inj (Option.some.inj hr)
    exact Or.inl trivial
  · obtain ⟨b, hb, heq⟩ := Option.map_eq_some_iff.mp hr
    obtain ⟨rfl, rfl⟩ := Prod.mk.inj heq
    by_cases hpos : k = pos
    · subst hpos
      obtain rfl : a = b := Option.some.inj (ha.symm.trans hb)
      exact Or.inl hP
    · exact Or.inr ⟨k, by omega, a, ha, hP⟩

end MostroApp.Broadcast
