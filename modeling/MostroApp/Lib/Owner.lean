import MostroApp.Lib.Interleaving

set_option autoImplicit false

/-! # A part of the state that one thread works on at a time

A part of the shared state belongs to nobody or to one thread, which takes it while nobody has it
(`TakesFree`). Between two owners the part meets `J`, and an owner at `p` finds it meeting `A p`;
threads that do not own it leave both as they are (`OwnerOutline`). Nothing in the state says who
the owner is. What is so of every program counter that a thread can reach is `W`.
-/

namespace MostroApp.Interleaving

open Transition

variable {σ π ω α : Type} {P : Prog σ π ω α} {owns : π → Bool}

/-- The label makes a thread the owner. -/
def Label.takes (P : Prog σ π ω α) (owns : π → Bool) (c : Pool σ π) : Label π ω α → Bool
  | .spawn _ p => owns p
  | .step i w =>
      (c.threads i).any fun p => !owns p &&
        ((P.tstep w p c.shared).bind (·.2)).any owns
  | .env _ => false

/-- A label that makes a thread the owner finds `o` not to be it. -/
def TakesFrom (P : Prog σ π ω α) (owns : π → Bool) (c : Pool σ π) (l : Label π ω α)
    (o : Option π) : Prop :=
  l.takes P owns c = true → o.any owns = false

instance (c : Pool σ π) (l : Label π ω α) (o : Option π) : Decidable (TakesFrom P owns c l o) :=
  inferInstanceAs (Decidable (_ → _))

/-- A label makes a thread the owner only while there is none. -/
def TakesFree (P : Prog σ π ω α) (owns : π → Bool) (c : Pool σ π) (l : Label π ω α) : Prop :=
  ∀ j, TakesFrom P owns c l (c.threads j)

/-- Every thread stands at a `W`. There is one owner at most, the part meets `J` when there is
none, and `A p` while its owner is at `p`. -/
structure Owned (W : π → Prop) (owns : π → Bool) (J : σ → Prop) (A : π → σ → Prop)
    (c : Pool σ π) : Prop where
  stands : ∀ i p, c.threads i = some p → W p
  one : ∀ i j p q, c.threads i = some p → c.threads j = some q → owns p = true →
    owns q = true → i = j
  free : (∀ i p, c.threads i = some p → owns p = false) → J c.shared
  held : ∀ i p, c.threads i = some p → owns p = true → A p c.shared

/-- What each step does to the part. -/
structure OwnerOutline (P : Prog σ π ω α) (W : π → Prop) (owns : π → Bool) (J : σ → Prop)
    (A : π → σ → Prop) : Prop where
  start : ∀ p, P.enter p = true → W p
  go : ∀ w p s t q, P.tstep w p s = some (t, some q) → W p → W q
  spawn : ∀ p s, P.enter p = true → owns p = true → J s → A p s
  take : ∀ w p s t q, P.tstep w p s = some (t, some q) → W p → owns p = false → owns q = true →
    J s → A q t
  stay : ∀ w p s t q, P.tstep w p s = some (t, some q) → owns p = true → owns q = true →
    A p s → A q t
  leave : ∀ w p s t q, P.tstep w p s = some (t, q) → owns p = true → q.any owns = false →
    A p s → J t
  spare : ∀ w p s t q, P.tstep w p s = some (t, q) → owns p = false →
    (J s → J t) ∧ ∀ r, owns r = true → A r s → A r t
  env : ∀ a s t, P.act a s = some t → (J s → J t) ∧ ∀ r, owns r = true → A r s → A r t

variable {W : π → Prop} {J : σ → Prop} {A : π → σ → Prop}

theorem owned_idle {s : σ} (h : J s) : Owned W owns J A (Pool.idle s) :=
  ⟨fun _ _ hp => (nomatch hp), fun _ _ _ _ hp => (nomatch hp), fun _ => h,
    fun _ _ hp => (nomatch hp)⟩

/-- Beside the owner no thread owns the part. -/
theorem Owned.others {c : Pool σ π} (h : Owned W owns J A c) {i j : Nat} {p r : π}
    (hi : c.threads i = some p) (hp : owns p = true) (hj : c.threads j = some r) (hne : j ≠ i) :
    owns r = false := by
  cases hr : owns r with
  | true => exact absurd (h.one j i r p hj hi hr hp) hne
  | false => rfl

theorem OwnerOutline.next (O : OwnerOutline P W owns J A) (c : Pool σ π) (l : Label π ω α)
    (c' : Pool σ π) (h : Owned W owns J A c) (hC : TakesFree P owns c l)
    (hn : P.next c l = some c') : Owned W owns J A c' := by
  cases l with
  | spawn i p =>
      obtain ⟨henter, hi, rfl⟩ := Prog.next_spawn.mp hn
      -- A thread that starts as the owner finds none.
      have nobody : owns p = true → ∀ j r, c.threads j = some r → owns r = false := by
        intro hp j r hj
        have hno : (c.threads j).any owns = false := hC j hp
        rwa [hj] at hno
      refine ⟨fun j r hr => ?_, fun j k r r' hr hr' ho ho' => ?_, fun hfree => ?_,
        fun j r hr ho => ?_⟩
      · rcases threads_update hr with ⟨-, hnew⟩ | ⟨-, hold⟩
        · obtain rfl := Option.some.inj hnew
          exact O.start p henter
        · exact h.stands j r hold
      -- Two owners are one thread: where one of them is new, there is no other.
      · rcases threads_update hr with ⟨rfl, hnew⟩ | ⟨-, hold⟩ <;>
          rcases threads_update hr' with ⟨rfl, hnew'⟩ | ⟨-, hold'⟩
        · rfl
        · obtain rfl := Option.some.inj hnew
          exact absurd ((nobody ho k r' hold').symm.trans ho') nofun
        · obtain rfl := Option.some.inj hnew'
          exact absurd ((nobody ho' j r hold).symm.trans ho) nofun
        · exact h.one j k r r' hold hold' ho ho'
      · refine h.free fun j r hr => hfree j r ?_
        have hj : j ≠ i := by
          rintro rfl
          exact absurd (hr.symm.trans hi) nofun
        exact (Function.update_of_ne hj ..).trans hr
      · rcases threads_update hr with ⟨-, hnew⟩ | ⟨-, hold⟩
        · obtain rfl := Option.some.inj hnew
          exact O.spawn p c.shared henter ho (h.free (nobody ho))
        · exact h.held j r hold ho
  | step i w =>
      obtain ⟨p, t, q, hi, hs, rfl⟩ := Prog.next_step.mp hn
      -- A step that takes the part finds no owner.
      have nobody : ∀ r, q = some r → owns p = false → owns r = true →
          ∀ j r', c.threads j = some r' → owns r' = false := by
        rintro r rfl hp hr j r' hj
        have htakes : (Label.step (π := π) (α := α) i w).takes P owns c = true := by
          simp [Label.takes, hi, hs, hp, hr]
        have hno : (c.threads j).any owns = false := hC j htakes
        rwa [hj] at hno
      have spared := O.spare w p c.shared t q hs
      refine ⟨fun j r hr => ?_, fun j k r r' hr hr' ho ho' => ?_, fun hfree => ?_,
        fun j r hr ho => ?_⟩
      · rcases threads_update hr with ⟨-, rfl⟩ | ⟨-, hold⟩
        · exact O.go w p c.shared t r hs (h.stands i p hi)
        · exact h.stands j r hold
      · rcases threads_update hr with ⟨rfl, hq⟩ | ⟨hj, hold⟩ <;>
          rcases threads_update hr' with ⟨rfl, hq'⟩ | ⟨hk, hold'⟩
        · rfl
        · cases hp : owns p with
          -- Whether the step kept the part or took it, the other one cannot have it.
          | true => exact h.one j k p r' hi hold' hp ho'
          | false => exact absurd ((nobody r hq hp ho k r' hold').symm.trans ho') nofun
        · cases hp : owns p with
          | true => exact h.one j k r p hold hi ho hp
          | false => exact absurd ((nobody r' hq' hp ho' j r hold).symm.trans ho) nofun
        · exact h.one j k r r' hold hold' ho ho'
      · have hq : q.any owns = false := by
          cases q with
          | none => rfl
          | some r => exact hfree i r (Function.update_self ..)
        cases hp : owns p with
        -- The part is free afterwards: its owner has just left it, or nobody had it before either.
        | true => exact O.leave w p c.shared t q hs hp hq (h.held i p hi hp)
        | false =>
            refine (spared hp).1 (h.free fun j r hr => ?_)
            by_cases hj : j = i
            · subst hj
              obtain rfl := Option.some.inj (hi.symm.trans hr)
              exact hp
            · exact hfree j r ((Function.update_of_ne hj ..).trans hr)
      · rcases threads_update hr with ⟨rfl, rfl⟩ | ⟨hj, hold⟩
        · cases hp : owns p with
          | true => exact O.stay w p c.shared t r hs hp ho (h.held j p hi hp)
          | false =>
            have hfree := h.free (nobody r rfl hp ho)
            exact O.take w p c.shared t r hs (h.stands j p hi) hp ho hfree
        · have hp : owns p = false := h.others hold ho hi hj.symm
          exact (spared hp).2 r ho (h.held j r hold ho)
  | env a =>
      obtain ⟨t, hs, rfl⟩ := Prog.next_env.mp hn
      have hspared := O.env a c.shared t hs
      exact ⟨h.stands, h.one, fun hfree => hspared.1 (h.free hfree),
        fun i p hi hp => hspared.2 p hp (h.held i p hi hp)⟩

/-- **The owner's rule.** In a run whose labels take the part only while it is free, it meets `J`
whenever nobody owns it. -/
theorem OwnerOutline.run_inv (O : OwnerOutline P W owns J A) {c c' : Pool σ π}
    {ls : List (Label π ω α)} (h : Owned W owns J A c) (hC : Along P.next (TakesFree P owns) c ls)
    (hr : run P.next c ls = some c') : Owned W owns J A c' :=
  Transition.run_inv O.next h hC hr

end MostroApp.Interleaving
