import Mathlib.Logic.Basic

set_option autoImplicit false

/-! # Reads that look more than once

A reader puts its answer together from several looks at a state that others write meanwhile: at
memory, which always answers, or at a store, which may not. Against a state that stands still it has
one answer (`value`), and every look it takes leaves that answer what it was.
-/

namespace MostroApp

/-- What is left of a read. -/
inductive Reading (σ β : Type) where
  | done (v : β)
  | fails
  | look (next : σ → Reading σ β)
  | ask (next : Option σ → Reading σ β)

namespace Reading

variable {σ β : Type}

/-- The answer in a state that stands still and answers. -/
def value (s : σ) : Reading σ β → Option β
  | done v => some v
  | fails => none
  | look next => (next s).value s
  | ask next => (next (some s)).value s

/-- The looks a read takes in a state that stands still and answers. -/
def looks (s : σ) : Reading σ β → Nat
  | done _ | fails => 0
  | look next => (next s).looks s + 1
  | ask next => (next (some s)).looks s + 1

/-- As long as its looks are answered the read comes to an answer. -/
def Sure : Reading σ β → Prop
  | done _ => True
  | fails => False
  | look next => ∀ s, (next s).Sure
  | ask next => ∀ s, (next (some s)).Sure

/-- One look; whether it is answered. -/
def step (answers : Bool) (s : σ) : Reading σ β → Option (Reading σ β)
  | look next => if answers then some (next s) else none
  | ask next => some (next (if answers then some s else none))
  | _ => none

variable {r r' : Reading σ β} {s : σ} {answers : Bool}

theorem value_step (h : r.step answers s = some r') :
    answers = false ∨ r'.value s = r.value s := by
  cases answers with
  | false => exact Or.inl rfl
  | true =>
      refine Or.inr ?_
      cases r with
      | done | fails => cases h
      | look next | ask next =>
          obtain rfl := Option.some.inj h
          rfl

theorem Sure.step (hr : r.Sure) (h : r.step true s = some r') : r'.Sure := by
  cases r with
  | done | fails => cases h
  | look next | ask next =>
      obtain rfl := Option.some.inj h
      exact hr s

/-- While it has looks to take it can take one that is answered. -/
theorem step_of_looks {n : Nat} (h : r.looks s = n + 1) :
    ∃ r', r.step true s = some r' ∧ r'.looks s = n := by
  cases r with
  | done | fails => cases h
  | look next | ask next => exact ⟨_, rfl, Nat.succ.inj h⟩

end Reading

end MostroApp
