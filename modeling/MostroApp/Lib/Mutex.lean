import MostroApp.Lib.Interleaving

set_option autoImplicit false

/-! # A lock that threads take and release

The shared state says whether the lock is taken, and a program counter whether its thread has it.
When a thread takes the lock only while it is free, and it is freed only by a thread that has it,
no two threads have it at once and it is not free while one does (`Mutex.run`).
-/

namespace MostroApp.Interleaving

open Transition

variable {σ π ω α : Type}

/-- How a program goes about a lock. -/
structure Mutex (P : Prog σ π ω α) (locked : σ → Bool) (holds : π → Bool) : Prop where
  enter : ∀ p, P.enter p = true → holds p = false
  take : ∀ w p s t q, P.tstep w p s = some (t, some q) → holds p = false → holds q = true →
    locked s = false ∧ locked t = true
  stay : ∀ w p s t q, P.tstep w p s = some (t, some q) → holds p = true → holds q = true →
    locked t = locked s
  keep : ∀ w p s t q, P.tstep w p s = some (t, q) → holds p = false →
    (∀ r, q = some r → holds r = false) → locked t = locked s
  env : ∀ a s t, P.act a s = some t → locked t = locked s

/-- At most one thread has the lock, and it is taken while one has it. -/
structure Pool.Alone (locked : σ → Bool) (holds : π → Bool) (c : Pool σ π) : Prop where
  locked : ∀ i p, c.threads i = some p → holds p = true → locked c.shared = true
  one : ∀ i j p q, c.threads i = some p → c.threads j = some q → holds p = true →
    holds q = true → i = j

variable {P : Prog σ π ω α} {locked : σ → Bool} {holds : π → Bool}

theorem alone_idle (s : σ) : (Pool.idle s : Pool σ π).Alone locked holds :=
  ⟨fun _ _ hp => (nomatch hp), fun _ _ _ _ hp => (nomatch hp)⟩

/-- While a thread has the lock, no other has it. -/
theorem Pool.Alone.not_holds {c : Pool σ π} (h : c.Alone locked holds) {i j : Nat} {p q : π}
    (hi : c.threads i = some p) (hp : holds p = true) (hj : c.threads j = some q) (hne : j ≠ i) :
    holds q = false := by
  cases hq : holds q with
  | true => exact absurd (h.one j i q p hj hi hq hp) hne
  | false => rfl

/-- While the lock is free, no thread has it. -/
theorem Pool.Alone.free {c : Pool σ π} (h : c.Alone locked holds) (hfree : locked c.shared = false)
    {j : Nat} {q : π} (hj : c.threads j = some q) : holds q = false := by
  cases hq : holds q with
  | true => exact absurd (hfree.symm.trans (h.locked j q hj hq)) nofun
  | false => rfl

/-- A step leaves the lock with one thread. -/
theorem Mutex.next (M : Mutex P locked holds) {c c' : Pool σ π} {l : Label π ω α}
    (h : c.Alone locked holds) (hn : P.next c l = some c') : c'.Alone locked holds := by
  cases l with
  | spawn i p =>
      obtain ⟨hp, hi, rfl⟩ := Prog.next_spawn.mp hn
      have old : ∀ {j r}, Function.update c.threads i (some p) j = some r → holds r = true →
          c.threads j = some r := by
        intro j r hr hholds
        rcases threads_update hr with ⟨-, hnew⟩ | ⟨-, hold⟩
        · obtain rfl := Option.some.inj hnew
          exact absurd ((M.enter p hp).symm.trans hholds) nofun
        · exact hold
      exact ⟨fun j r hr hh => h.locked j r (old hr hh) hh,
        fun j k r r' hr hr' hh hh' => h.one j k r r' (old hr hh) (old hr' hh') hh hh'⟩
  | step i w =>
      obtain ⟨p, s, q, hp, hs, rfl⟩ := Prog.next_step.mp hn
      -- Who has the lock after the step had it before, unless the step took it.
      have taker : ∀ r, q = some r → holds r = true → holds p = false →
          ∀ j r', c.threads j = some r' → holds r' = false := by
        rintro r rfl hr hp' j r' hj
        exact h.free (M.take w p c.shared s r hs hp' hr).1 hj
      constructor
      · intro j r hr hh
        rcases threads_update hr with ⟨rfl, rfl⟩ | ⟨hne, hold⟩
        · cases hph : holds p with
          | true => exact (M.stay w p c.shared s r hs hph hh).trans (h.locked j p hp hph)
          | false => exact (M.take w p c.shared s r hs hph hh).2
        · have hph : holds p = false := h.not_holds hold hh hp hne.symm
          refine (M.keep w p c.shared s q hs hph fun r' hq => ?_).trans (h.locked j r hold hh)
          cases hr' : holds r' with
          | true => exact absurd ((taker r' hq hr' hph j r hold).symm.trans hh) nofun
          | false => rfl
      · intro j k r r' hr hr' hh hh'
        rcases threads_update hr with ⟨rfl, hq⟩ | ⟨hj, hold⟩ <;>
          rcases threads_update hr' with ⟨rfl, hq'⟩ | ⟨hk, hold'⟩
        · rfl
        · cases hph : holds p with
          | true => exact h.one j k p r' hp hold' hph hh'
          | false => exact absurd ((taker r hq hh hph k r' hold').symm.trans hh') nofun
        · cases hph : holds p with
          | true => exact h.one j k r p hold hp hh hph
          | false => exact absurd ((taker r' hq' hh' hph j r hold).symm.trans hh) nofun
        · exact h.one j k r r' hold hold' hh hh'
  | env a =>
      obtain ⟨s, hs, rfl⟩ := Prog.next_env.mp hn
      exact ⟨fun j r hr hh => (M.env a c.shared s hs).trans (h.locked j r hr hh), h.one⟩

/-- **Mutual exclusion** along every run. -/
theorem Mutex.run (M : Mutex P locked holds) {c c' : Pool σ π} {ls : List (Label π ω α)}
    (h : c.Alone locked holds) (hr : run P.next c ls = some c') : c'.Alone locked holds :=
  run_inv (C := fun _ _ => True) (fun _ _ _ h _ hn => M.next h hn) h (along_true c ls) hr

/-- A condition along a run holds along it together with mutual exclusion. -/
theorem Mutex.along (M : Mutex P locked holds) {C : Pool σ π → Label π ω α → Prop}
    {c : Pool σ π} {ls : List (Label π ω α)} (h : c.Alone locked holds)
    (hC : Along P.next C c ls) :
    Along P.next (fun c l => c.Alone locked holds ∧ C c l) c ls :=
  along_of_inv (fun _ _ _ h _ hn => M.next h hn) (fun _ _ h hC => ⟨h, hC⟩) h hC

/-! ## A lock that is taken has its thread -/

/-- Some thread has the lock while it is taken. -/
def Pool.Held (locked : σ → Bool) (holds : π → Bool) (c : Pool σ π) : Prop :=
  locked c.shared = true → c.Any (holds · = true)

theorem held_idle {s : σ} (h : locked s = false) : (Pool.idle s : Pool σ π).Held locked holds :=
  fun hl => absurd (h.symm.trans hl) nofun

/-- Where a thread that goes on without the lock has freed it, a lock that is taken has its
thread. -/
theorem Mutex.held_next (M : Mutex P locked holds)
    (frees : ∀ w p s t q, P.tstep w p s = some (t, q) → holds p = true →
      (∀ r, q = some r → holds r = false) → locked t = false)
    {c c' : Pool σ π} {l : Label π ω α} (h : c.Held locked holds) (hn : P.next c l = some c') :
    c'.Held locked holds := by
  intro hl
  cases l with
  | spawn i p =>
      obtain ⟨-, hi, rfl⟩ := Prog.next_spawn.mp hn
      exact (h hl).spawn hi
  | step i w =>
      obtain ⟨p, s, q, hp, hs, rfl⟩ := Prog.next_step.mp hn
      by_cases hq : ∃ r, q = some r ∧ holds r = true
      · obtain ⟨r, rfl, hr⟩ := hq
        exact Pool.any_self i s hr
      · have hq : ∀ r, q = some r → holds r = false := fun r hr => by
          by_contra hholds
          exact hq ⟨r, hr, by simpa using hholds⟩
        cases hph : holds p with
        | true => exact absurd ((frees w p c.shared s q hs hph hq).symm.trans hl) nofun
        | false =>
            have hbefore := (M.keep w p c.shared s q hs hph hq).symm.trans hl
            refine (((h hbefore).split hp).resolve_left fun hp' => ?_).any s q
            exact absurd (hph.symm.trans hp') nofun
  | env a =>
      obtain ⟨s, hs, rfl⟩ := Prog.next_env.mp hn
      exact h ((M.env a c.shared s hs).symm.trans hl)

end MostroApp.Interleaving
