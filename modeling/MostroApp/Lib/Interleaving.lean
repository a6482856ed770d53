import MostroApp.Lib.Transition
import Mathlib.Logic.Function.Basic

set_option autoImplicit false

/-! # Interleavings of threads over a shared state

A program has a shared state `σ`, any number of threads and atomic actions of an
environment. A thread is a program counter `π` (with whatever the thread has read so far);
its step reads and writes the shared state and ends in a new program counter, or in none
when the thread is done. What a step cannot know from the state (the answer of a relay, a
clock) is the oracle `ω` of that step. A run over a list of labels (`Transition.run`) is one
interleaving; quantifying over the list quantifies over all of them.

The proof rule is the one of Owicki and Gries: a shared invariant `I`, an assertion `A p`
for a thread standing at `p`, and the proof that every label keeps all of them (`Outline`).
-/

namespace MostroApp.Interleaving

open Transition

variable {σ π ω α : Type}

/-! ## Programs and their steps -/

/-- The shared state and where each live thread stands. -/
structure Pool (σ π : Type) where
  shared : σ
  threads : Nat → Option π

/-- One move: a thread starts, a thread takes its next step, or the environment acts. -/
inductive Label (π ω α : Type) where
  | spawn (i : Nat) (p : π)
  | step (i : Nat) (w : ω)
  | env (a : α)

/-- The threads' program and the environment's actions. -/
structure Prog (σ π ω α : Type) where
  /-- The program counters a thread may start at. -/
  enter : π → Bool
  tstep : ω → π → σ → Option (σ × Option π)
  act : α → σ → Option σ

/-- A pool with no thread running. -/
def Pool.idle (s : σ) : Pool σ π := ⟨s, fun _ => none⟩

/-- A pool with thread `0` standing at `p`, and no other. -/
def Pool.one (s : σ) (p : π) : Pool σ π := ⟨s, Function.update (fun _ => none) 0 (some p)⟩

/-- The actions of a list of labels, in order. -/
def actions (ls : List (Label π ω α)) : List α :=
  ls.filterMap fun
    | .env a => some a
    | _ => none

/-- The pool after one label. -/
def Prog.next (P : Prog σ π ω α) (c : Pool σ π) : Label π ω α → Option (Pool σ π)
  | .spawn i p =>
      if P.enter p = true ∧ c.threads i = none then
        some { c with threads := Function.update c.threads i (some p) }
      else none
  | .step i w =>
      (c.threads i).bind fun p => (P.tstep w p c.shared).map fun r =>
        ⟨r.1, Function.update c.threads i r.2⟩
  | .env a => (P.act a c.shared).map fun s => { c with shared := s }

theorem Prog.next_spawn {P : Prog σ π ω α} {c c' : Pool σ π} {i : Nat} {p : π} :
    P.next c (.spawn i p) = some c' ↔
      P.enter p = true ∧ c.threads i = none ∧
        c' = { c with threads := Function.update c.threads i (some p) } := by
  simp only [Prog.next]
  by_cases h : P.enter p = true ∧ c.threads i = none
  · rw [if_pos h, Option.some.injEq]
    exact ⟨fun e => ⟨h.1, h.2, e.symm⟩, fun e => e.2.2.symm⟩
  · rw [if_neg h]
    exact ⟨fun e => absurd e (by simp), fun e => absurd ⟨e.1, e.2.1⟩ h⟩

theorem Prog.next_step {P : Prog σ π ω α} {c c' : Pool σ π} {i : Nat} {w : ω} :
    P.next c (.step i w) = some c' ↔
      ∃ p s q, c.threads i = some p ∧ P.tstep w p c.shared = some (s, q) ∧
        c' = ⟨s, Function.update c.threads i q⟩ := by
  simp only [Prog.next, Option.bind_eq_some_iff, Option.map_eq_some_iff, Prod.exists]
  constructor
  · rintro ⟨p, hp, s, q, hs, rfl⟩
    exact ⟨p, s, q, hp, hs, rfl⟩
  · rintro ⟨p, s, q, hp, hs, rfl⟩
    exact ⟨p, hp, s, q, hs, rfl⟩

theorem Prog.next_env {P : Prog σ π ω α} {c c' : Pool σ π} {a : α} :
    P.next c (.env a) = some c' ↔ ∃ s, P.act a c.shared = some s ∧ c' = { c with shared := s } := by
  simp only [Prog.next, Option.map_eq_some_iff]
  exact exists_congr fun s => and_congr_right fun _ => eq_comm

/-- A thread live after one of them has moved is that one, or stands where it stood. -/
theorem threads_update {t : Nat → Option π} {i j : Nat} {q : Option π} {p : π}
    (h : Function.update t i q j = some p) : j = i ∧ q = some p ∨ j ≠ i ∧ t j = some p := by
  by_cases hj : j = i
  · subst hj
    exact Or.inl ⟨rfl, by simpa using h⟩
  · exact Or.inr ⟨hj, by simpa [Function.update_of_ne hj] using h⟩

theorem threads_one {s : σ} {p q : π} {i : Nat} (h : (Pool.one s p).threads i = some q) :
    i = 0 ∧ q = p := by
  have h : Function.update (fun _ => none) 0 (some p) i = some q := h
  rcases threads_update h with ⟨rfl, hp⟩ | ⟨-, h⟩
  · exact ⟨rfl, (Option.some.inj hp).symm⟩
  · cases h

/-! ## The proof rule -/

/-- The invariant of a pool: `I` of the shared state, and `A p` for every thread at `p`. -/
structure PoolInv (I : σ → Prop) (A : π → σ → Prop) (c : Pool σ π) : Prop where
  shared : I c.shared
  threads : ∀ i p, c.threads i = some p → A p c.shared

/-- **A proof outline.** Under the condition `C` on labels, every label keeps `I` and every
thread's assertion: a thread's step establishes its own next assertion and does not
interfere with the others', and the environment interferes with none. -/
structure Outline (P : Prog σ π ω α) (C : Pool σ π → Label π ω α → Prop) (I : σ → Prop)
    (A : π → σ → Prop) : Prop where
  spawn : ∀ c i p, PoolInv I A c → C c (.spawn i p) → P.enter p = true →
    c.threads i = none → A p c.shared
  step_shared : ∀ c i w p s q, PoolInv I A c → C c (.step i w) → c.threads i = some p →
    P.tstep w p c.shared = some (s, q) → I s
  step_self : ∀ c i w p s p', PoolInv I A c → C c (.step i w) → c.threads i = some p →
    P.tstep w p c.shared = some (s, some p') → A p' s
  step_other : ∀ c i w p s q j r, PoolInv I A c → C c (.step i w) → c.threads i = some p →
    P.tstep w p c.shared = some (s, q) → j ≠ i → c.threads j = some r → A r s
  env_shared : ∀ c a s, PoolInv I A c → C c (.env a) → P.act a c.shared = some s → I s
  env_threads : ∀ c a s i p, PoolInv I A c → C c (.env a) → P.act a c.shared = some s →
    c.threads i = some p → A p s

variable {P : Prog σ π ω α} {C : Pool σ π → Label π ω α → Prop} {I : σ → Prop}
  {A : π → σ → Prop}

theorem poolInv_idle {s : σ} (h : I s) : PoolInv I A (Pool.idle s) :=
  ⟨h, fun i p hp => by cases hp⟩

/-- Every label admitted by `C` keeps the invariant of an outline. -/
theorem Outline.keep (O : Outline P C I A) (c : Pool σ π) (l : Label π ω α) (c' : Pool σ π)
    (hc : PoolInv I A c) (hC : C c l) (hn : P.next c l = some c') : PoolInv I A c' := by
  cases l with
  | spawn i p =>
      obtain ⟨hp, hi, rfl⟩ := Prog.next_spawn.mp hn
      refine ⟨hc.shared, fun j r hr => ?_⟩
      rcases threads_update hr with ⟨-, hnew⟩ | ⟨-, hold⟩
      · obtain rfl := Option.some.inj hnew
        exact O.spawn c i p hc hC hp hi
      · exact hc.threads j r hold
  | step i w =>
      obtain ⟨p, s, q, hp, hs, rfl⟩ := Prog.next_step.mp hn
      refine ⟨O.step_shared c i w p s q hc hC hp hs, fun j r hr => ?_⟩
      rcases threads_update hr with ⟨-, hnew⟩ | ⟨hj, hold⟩
      · exact O.step_self c i w p s r hc hC hp (hnew ▸ hs)
      · exact O.step_other c i w p s q j r hc hC hp hs hj hold
  | env a =>
      obtain ⟨s, hs, rfl⟩ := Prog.next_env.mp hn
      exact ⟨O.env_shared c a s hc hC hs, fun i p hp => O.env_threads c a s i p hc hC hs hp⟩

/-- **Every reachable pool meets the outline.** -/
theorem Outline.run_inv (O : Outline P C I A) {c c' : Pool σ π} {ls : List (Label π ω α)}
    (hc : PoolInv I A c) (hC : Along P.next C c ls) (hr : run P.next c ls = some c') :
    PoolInv I A c' :=
  Transition.run_inv O.keep hc hC hr

/-- A label condition that follows from `C` under the outline's invariant holds of every
label of every run along which `C` does. -/
theorem Outline.along (O : Outline P C I A) {D : Pool σ π → Label π ω α → Prop}
    (imp : ∀ c l, PoolInv I A c → C c l → D c l) {c : Pool σ π} {ls : List (Label π ω α)}
    (hc : PoolInv I A c) (hC : Along P.next C c ls) : Along P.next D c ls :=
  along_of_inv O.keep imp hc hC

/-! ## A thread on its own -/

/-- No thread but `i` is running. -/
def Solo (i : Nat) (c : Pool σ π) : Prop := ∀ j, j ≠ i → c.threads j = none

theorem solo_idle (i : Nat) (s : σ) : Solo i (Pool.idle s : Pool σ π) := fun _ _ => rfl

theorem Solo.update {i : Nat} {c : Pool σ π} (h : Solo i c) (s : σ) (p : Option π) :
    Solo i ⟨s, Function.update c.threads i p⟩ := fun j hj => by
  simpa [Function.update_of_ne hj] using h j hj

/-! ## Finitely many threads -/

/-- The label starts no thread from `n` on. -/
def Label.below (n : Nat) : Label π ω α → Bool
  | .spawn i _ => i < n
  | _ => true

/-- No thread from `n` on is running. -/
def Below (n : Nat) (c : Pool σ π) : Prop := ∀ j, n ≤ j → c.threads j = none

theorem below_idle (n : Nat) (s : σ) : Below n (Pool.idle s : Pool σ π) := fun _ _ => rfl

theorem below_one (s : σ) (p : π) {n : Nat} (hn : 0 < n) : Below n (Pool.one s p) := by
  intro j hj
  have hne : j ≠ 0 := by omega
  show Function.update (fun _ => none) 0 (some p) j = none
  rw [Function.update_of_ne hne]

theorem Below.next {n : Nat} {c c' : Pool σ π} {l : Label π ω α} (h : Below n c)
    (hl : l.below n = true) (hn : P.next c l = some c') : Below n c' := by
  intro j hj
  cases l with
  | spawn i p =>
      obtain ⟨-, -, rfl⟩ := Prog.next_spawn.mp hn
      have hi : i < n := by simpa [Label.below] using hl
      have hne : j ≠ i := by omega
      simpa [Function.update_of_ne hne] using h j hj
  | step i w =>
      obtain ⟨p, s, q, hp, -, rfl⟩ := Prog.next_step.mp hn
      have hne : j ≠ i := by
        rintro rfl
        exact absurd (hp.symm.trans (h j hj)) nofun
      simpa [Function.update_of_ne hne] using h j hj
  | env a =>
      obtain ⟨s, -, rfl⟩ := Prog.next_env.mp hn
      exact h j hj

theorem Below.run {n : Nat} {c c' : Pool σ π} {ls : List (Label π ω α)} (h : Below n c)
    (hls : ls.all (Label.below n) = true) (hr : run P.next c ls = some c') : Below n c' := by
  induction ls generalizing c with
  | nil => exact Option.some.inj hr ▸ h
  | cons l ls ih =>
      obtain ⟨hl, hrest⟩ := Bool.and_eq_true_iff.mp (List.all_cons.symm.trans hls)
      obtain ⟨c₁, h₁, hr⟩ := run_cons_eq_some.mp hr
      exact ih (h.next hl h₁) hrest hr

/-- None of the first `n` threads is running. -/
def Pool.finished (n : Nat) (c : Pool σ π) : Bool :=
  (List.range n).all fun j => (c.threads j).isNone

theorem Below.all_done {n : Nat} {c : Pool σ π} (h : Below n c) (hf : c.finished n = true)
    (j : Nat) : c.threads j = none := by
  by_cases hj : j < n
  · exact Option.isNone_iff_eq_none.mp (List.all_eq_true.mp hf j (List.mem_range.mpr hj))
  · exact h j (Nat.le_of_not_lt hj)

/-- A condition on every thread needs checking for the first `n` only, along a run that starts
no other. -/
theorem along_of_below_at {K : Pool σ π → Label π ω α → Nat → Option π → Prop} (n : Nat)
    (none_ok : ∀ c l j, (∀ j < n, K c l j (c.threads j)) → K c l j none) {c : Pool σ π}
    {ls : List (Label π ω α)} (hc : Below n c)
    (hls : ls.all (Label.below n) = true)
    (h : Along P.next (fun c l => ∀ j < n, K c l j (c.threads j)) c ls) :
    Along P.next (fun c l => ∀ j, K c l j (c.threads j)) c ls := by
  induction ls generalizing c with
  | nil => trivial
  | cons l ls ih =>
      obtain ⟨hl, hrest⟩ := Bool.and_eq_true_iff.mp (List.all_cons.symm.trans hls)
      refine ⟨fun j => ?_, fun c' hn => ih (hc.next hl hn) hrest (h.2 c' hn)⟩
      by_cases hj : j < n
      · exact h.1 j hj
      · rw [hc j (Nat.le_of_not_lt hj)]
        exact none_ok c l j h.1

/-- The same, where it does not matter which thread it is. -/
theorem along_of_below {K : Pool σ π → Label π ω α → Option π → Prop} (n : Nat)
    (none_ok : ∀ c l, (∀ j < n, K c l (c.threads j)) → K c l none) {c : Pool σ π}
    {ls : List (Label π ω α)} (hc : Below n c)
    (hls : ls.all (Label.below n) = true)
    (h : Along P.next (fun c l => ∀ j < n, K c l (c.threads j)) c ls) :
    Along P.next (fun c l => ∀ j, K c l (c.threads j)) c ls :=
  along_of_below_at (K := fun c l _ o => K c l o) n (fun c l _ => none_ok c l) hc hls h

/-! ## Some thread -/

/-- Some live thread stands at a program counter with `Q`. -/
def Pool.Any (c : Pool σ π) (Q : π → Prop) : Prop := ∃ i p, c.threads i = some p ∧ Q p

/-- A live thread with `Q` other than the `i`-th. -/
def Pool.AnyBut (c : Pool σ π) (i : Nat) (Q : π → Prop) : Prop :=
  ∃ j p, j ≠ i ∧ c.threads j = some p ∧ Q p

theorem Pool.any_self {c : Pool σ π} {Q : π → Prop} (i : Nat) (s : σ) {p : π} (h : Q p) :
    Pool.Any ⟨s, Function.update c.threads i (some p)⟩ Q :=
  ⟨i, p, Function.update_self .., h⟩

theorem Pool.AnyBut.any {c : Pool σ π} {Q : π → Prop} {i : Nat} (h : c.AnyBut i Q) (s : σ)
    (q : Option π) : Pool.Any ⟨s, Function.update c.threads i q⟩ Q := by
  obtain ⟨j, p, hj, hp, hQ⟩ := h
  exact ⟨j, p, (Function.update_of_ne hj ..).trans hp, hQ⟩

/-- The thread about to step has `Q`, or another one has. -/
theorem Pool.Any.split {c : Pool σ π} {Q : π → Prop} {i : Nat} {p : π} (h : c.Any Q)
    (hp : c.threads i = some p) : Q p ∨ c.AnyBut i Q := by
  obtain ⟨j, r, hr, hQ⟩ := h
  by_cases hj : j = i
  · subst hj
    exact Or.inl (Option.some.inj (hp.symm.trans hr) ▸ hQ)
  · exact Or.inr ⟨j, r, hj, hr, hQ⟩

theorem Pool.not_any_idle {Q : π → Prop} {c : Pool σ π} (h : ∀ i, c.threads i = none) :
    ¬ c.Any Q := by
  rintro ⟨i, p, hp, -⟩
  exact absurd (hp.symm.trans (h i)) nofun

theorem Pool.Any.spawn {c : Pool σ π} {Q : π → Prop} {i : Nat} {p : π} (h : c.Any Q)
    (hi : c.threads i = none) : Pool.Any ⟨c.shared, Function.update c.threads i (some p)⟩ Q := by
  obtain ⟨j, r, hr, hQ⟩ := h
  have hj : j ≠ i := by
    rintro rfl
    exact absurd (hr.symm.trans hi) nofun
  exact ⟨j, r, (Function.update_of_ne hj ..).trans hr, hQ⟩

/-! ## Threads that hold a key alone -/

section Apart

variable {κ : Type} {holds : π → Option κ}

/-- No two threads hold one key. -/
def Pool.Apart (holds : π → Option κ) (c : Pool σ π) : Prop :=
  ∀ i j p q k, i ≠ j → c.threads i = some p → c.threads j = some q →
    holds p = some k → holds q ≠ some k

theorem apart_idle (s : σ) : (Pool.idle s : Pool σ π).Apart holds := by
  intro i j p q k _ hp
  cases hp

/-- A thread's move keeps the keys apart if it takes none but what it held, or what no other
thread holds. -/
theorem Pool.Apart.update {c : Pool σ π} (h : c.Apart holds) (i : Nat) (s : σ) {q : Option π}
    (hq : ∀ r k, q = some r → holds r = some k →
      (∃ p, c.threads i = some p ∧ holds p = some k) ∨
        ∀ j p, j ≠ i → c.threads j = some p → holds p ≠ some k) :
    Pool.Apart holds ⟨s, Function.update c.threads i q⟩ := by
  intro a b p r k hab hp hr hholds hsame
  rcases threads_update hp with ⟨rfl, hnew⟩ | ⟨ha, hold⟩
  · rcases threads_update hr with ⟨hb, -⟩ | ⟨hb, hother⟩
    · exact hab hb.symm
    · rcases hq p k hnew hholds with ⟨o, ho, hok⟩ | hno
      · exact h a b o r k hab ho hother hok hsame
      · exact hno b r hb hother hsame
  · rcases threads_update hr with ⟨rfl, hnew⟩ | ⟨-, hother⟩
    · rcases hq r k hnew hsame with ⟨o, ho, hok⟩ | hno
      · exact h a b p o k hab hold ho hholds hok
      · exact hno a p ha hold hholds
    · exact h a b p r k hab hold hother hholds hsame

end Apart

end MostroApp.Interleaving
