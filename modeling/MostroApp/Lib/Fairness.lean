import MostroApp.Lib.Mutex
import Mathlib.Data.Nat.Init

set_option autoImplicit false

/-! # Executions in which every thread goes on

An execution is an endless run: at each time a label, or a moment in which nothing moves. It is
*fair* when no thread that could always go on is left standing for ever. Every finite run that
leaves no thread is the start of a fair execution (`Exec.play`).

A thread that is never blocked goes on (`Exec.Fair.steps`). A thread that waits for a lock need not
get it, but somebody does, provided that whoever has it gives it back (`Exec.Fair.lock_taken`).
-/

namespace MostroApp.Interleaving

open Transition

variable {σ π ω α : Type}

structure Exec (P : Prog σ π ω α) where
  pool : Nat → Pool σ π
  label : Nat → Option (Label π ω α)
  next : ∀ n, match label n with
    | none => pool (n + 1) = pool n
    | some l => P.next (pool n) l = some (pool (n + 1))

namespace Exec

variable {P : Prog σ π ω α} {e : Exec P} {i n : Nat} {p : π}

/-- The thread takes a step at time `n`, from `p`. -/
def Steps (e : Exec P) (i : Nat) (p : π) (n : Nat) : Prop :=
  (e.pool n).threads i = some p ∧ ∃ w, e.label n = some (.step i w)

/-- A thread that can go on at all times from `n` on does. -/
def Fair (e : Exec P) : Prop :=
  ∀ i n, (∀ m ≥ n, ∃ p w r, (e.pool m).threads i = some p ∧
    P.tstep w p (e.pool m).shared = some r) → ∃ m ≥ n, ∃ p, e.Steps i p m

/-! ## One moment -/

theorem next_some (e : Exec P) {l : Label π ω α} (h : e.label n = some l) :
    P.next (e.pool n) l = some (e.pool (n + 1)) := by
  have hn := e.next n
  rwa [h] at hn

theorem next_none (e : Exec P) (h : e.label n = none) : e.pool (n + 1) = e.pool n := by
  have hn := e.next n
  rwa [h] at hn

/-- What a step leads to. -/
theorem Steps.next (h : e.Steps i p n) : ∃ w s q, P.tstep w p (e.pool n).shared = some (s, q) ∧
    e.pool (n + 1) = ⟨s, Function.update (e.pool n).threads i q⟩ := by
  obtain ⟨hp, w, hl⟩ := h
  obtain ⟨p', s, q, hp', hs, heq⟩ := Prog.next_step.mp (e.next_some hl)
  obtain rfl := Option.some.inj (hp'.symm.trans hp)
  exact ⟨w, s, q, hs, heq⟩

/-- A thread that takes no step stands where it stood. -/
theorem stands (hp : (e.pool n).threads i = some p) (hno : ¬ e.Steps i p n) :
    (e.pool (n + 1)).threads i = some p := by
  cases hl : e.label n with
  | none => rw [e.next_none hl, hp]
  | some l =>
      cases l with
      | spawn j q =>
          obtain ⟨-, hfree, heq⟩ := Prog.next_spawn.mp (e.next_some hl)
          have hne : i ≠ j := by
            rintro rfl
            exact absurd (hp.symm.trans hfree) nofun
          rw [heq]
          exact (Function.update_of_ne hne ..).trans hp
      | step j w =>
          obtain ⟨q, s, r, hq, -, heq⟩ := Prog.next_step.mp (e.next_some hl)
          have hne : i ≠ j := by
            rintro rfl
            exact hno ⟨hp, w, hl⟩
          rw [heq]
          exact (Function.update_of_ne hne ..).trans hp
      | env a =>
          obtain ⟨s, -, heq⟩ := Prog.next_env.mp (e.next_some hl)
          rw [heq]
          exact hp

theorem stands_on (hp : (e.pool n).threads i = some p) (hno : ∀ m ≥ n, ¬ e.Steps i p m) (m : Nat)
    (hm : n ≤ m) : (e.pool m).threads i = some p := by
  induction m, hm using Nat.le_induction with
  | base => exact hp
  | succ m hm ih => exact stands ih (hno m hm)

/-- What every label keeps holds at all times. -/
theorem always {Inv : Pool σ π → Prop} (h0 : Inv (e.pool 0))
    (keep : ∀ c l c', Inv c → P.next c l = some c' → Inv c') (n : Nat) : Inv (e.pool n) := by
  induction n with
  | zero => exact h0
  | succ n ih =>
      cases hl : e.label n with
      | none => rwa [e.next_none hl]
      | some l => exact keep _ l _ ih (e.next_some hl)

/-! ## Going on -/

/-- **A thread that is not blocked where it stands goes on.** -/
theorem Fair.steps (hfair : e.Fair) (hp : (e.pool n).threads i = some p)
    (ready : ∀ m ≥ n, ∃ w r, P.tstep w p (e.pool m).shared = some r) :
    ∃ m ≥ n, e.Steps i p m := by
  by_contra hno
  have hno : ∀ m ≥ n, ¬ e.Steps i p m := fun m hm h => hno ⟨m, hm, h⟩
  have stands := stands_on hp hno
  obtain ⟨m, hm, q, hq⟩ := hfair i n fun m hm => by
    obtain ⟨w, r, hr⟩ := ready m hm
    exact ⟨p, w, r, stands m hm, hr⟩
  obtain rfl := Option.some.inj (hq.1.symm.trans (stands m hm))
  exact hno m hm hq

/-- A thread that is never blocked at `p`, and goes on to `p'` only, comes to `p'`. -/
theorem Fair.moves {p' : π} (hfair : e.Fair) (hp : (e.pool n).threads i = some p)
    (ready : ∀ s, ∃ w r, P.tstep w p s = some r)
    (goes : ∀ w s t q, P.tstep w p s = some (t, q) → q = some p') :
    ∃ m > n, (e.pool m).threads i = some p' := by
  obtain ⟨m, hm, hstep⟩ := hfair.steps hp fun m _ => ready _
  obtain ⟨w, s, q, hs, heq⟩ := hstep.next
  refine ⟨m + 1, by omega, ?_⟩
  rw [heq, goes _ _ _ _ hs]
  exact Function.update_self ..

/-- It meets whatever comes of `p'`. -/
theorem Fair.leads {Q : Nat → Prop} (hfair : e.Fair) (hp : (e.pool n).threads i = some p)
    (p' : π) (ready : ∀ s, ∃ w r, P.tstep w p s = some r)
    (goes : ∀ w s t q, P.tstep w p s = some (t, q) → q = some p')
    (rest : ∀ m, (e.pool m).threads i = some p' → ∃ k ≥ m, Q k) : ∃ k ≥ n, Q k := by
  obtain ⟨m, hm, hat⟩ := hfair.moves hp ready goes
  obtain ⟨k, hk, hq⟩ := rest m hat
  exact ⟨k, by omega, hq⟩

/-! ## Flags and locks -/

variable {locked : σ → Bool} {holds : π → Bool}

/-- A thread that looks at a flag finds it up, hence somebody who holds it up, or holds it up
itself. -/
theorem Fair.flagged (hfair : e.Fair) (hheld : ∀ n, (e.pool n).Held locked holds)
    (hp : (e.pool n).threads i = some p) (ready : ∀ s, ∃ w r, P.tstep w p s = some r)
    (look : ∀ w s t q, P.tstep w p s = some (t, q) →
      locked s = true ∨ ∃ r, q = some r ∧ holds r = true) :
    ∃ m ≥ n, (e.pool m).Any (holds · = true) := by
  obtain ⟨m, hm, hstep⟩ := hfair.steps hp fun m _ => ready _
  obtain ⟨w, s, q, hs, heq⟩ := hstep.next
  rcases look _ _ _ _ hs with hup | ⟨r, rfl, hr⟩
  · exact ⟨m, hm, hheld m hup⟩
  · refine ⟨m + 1, by omega, ?_⟩
    rw [heq]
    exact Pool.any_self i s hr

/-- While nobody takes the lock, a free lock stays free. -/
theorem free_next (M : Mutex P locked holds) (halone : (e.pool n).Alone locked holds)
    (hfree : locked (e.pool n).shared = false)
    (hno : ∀ j q, e.Steps j q n → ∀ r, (e.pool (n + 1)).threads j = some r → holds r = false) :
    locked (e.pool (n + 1)).shared = false := by
  cases hl : e.label n with
  | none => rwa [e.next_none hl]
  | some l =>
      have hnext := e.next_some hl
      cases l with
      | spawn j q =>
          obtain ⟨-, -, heq⟩ := Prog.next_spawn.mp hnext
          rwa [heq]
      | step j w =>
          obtain ⟨q, s, o, hq, hs, heq⟩ := Prog.next_step.mp hnext
          rw [heq]
          refine (M.keep w q _ s o hs (halone.free hfree hq) fun r hr => ?_).trans hfree
          refine hno j q ⟨hq, w, hl⟩ r ?_
          rw [heq, ← hr]
          exact Function.update_self ..
      | env a =>
          obtain ⟨s, hs, heq⟩ := Prog.next_env.mp hnext
          rw [heq]
          exact (M.env a _ s hs).trans hfree

/-- **Where a thread waits for a lock that is given back, somebody takes the lock.** -/
theorem Fair.lock_taken (hfair : e.Fair) (M : Mutex P locked holds)
    (halone : ∀ n, (e.pool n).Alone locked holds) (hp : (e.pool n).threads i = some p)
    (hout : holds p = false)
    (ready : ∀ s, locked s = false → ∃ w r, P.tstep w p s = some r)
    (takes : ∀ w s t q, P.tstep w p s = some (t, q) → ∃ r, q = some r ∧ holds r = true)
    (returned : ∃ m ≥ n, locked (e.pool m).shared = false) :
    ∃ m ≥ n, ∃ j q r, e.Steps j q m ∧ holds q = false ∧
      (e.pool (m + 1)).threads j = some r ∧ holds r = true := by
  by_contra hno
  obtain ⟨k, hk, hfree⟩ := returned
  -- never taken, it stays free from `k` on, and the waiting thread can take it at all times
  have free : ∀ m ≥ k, locked (e.pool m).shared = false := by
    intro m hm
    induction m, hm using Nat.le_induction with
    | base => exact hfree
    | succ m hm ih =>
        refine free_next M (halone m) ih fun j q hq r hr => ?_
        by_contra hholds
        exact hno ⟨m, by omega, j, q, r, hq, (halone m).free ih hq.1, hr, by simpa using hholds⟩
  have waits : ∀ m ≥ n, ¬ e.Steps i p m := by
    intro m hm hstep
    obtain ⟨w, s, q, hs, heq⟩ := hstep.next
    obtain ⟨r, rfl, hr⟩ := takes _ _ _ _ hs
    exact hno ⟨m, hm, i, p, r, hstep, hout, heq ▸ Function.update_self .., hr⟩
  obtain ⟨m, hm, hstep⟩ := hfair.steps (stands_on hp waits k hk) fun m hm => ready _ (free m hm)
  exact waits m (by omega) hstep

/-! ## Windows

A request at `asks` arms a window or finds one armed, and rides along with it; the task of the
armed window disarms it and reads the input of its run next. The flag is a lock that the task of the
armed window has. -/

/-- How a program goes about a window. -/
structure Window (P : Prog σ π ω α) (flag : σ → Bool) (asks armed reads : π → Bool) : Prop where
  lock : Mutex P flag armed
  disarm : ∀ w p s t q, P.tstep w p s = some (t, q) → armed p = true →
    flag t = false ∧ ∃ r, q = some r ∧ reads r = true
  look : ∀ w p s t q, P.tstep w p s = some (t, q) → asks p = true →
    flag s = true ∨ ∃ r, q = some r ∧ armed r = true
  ready : ∀ p s, asks p = true ∨ armed p = true ∨ reads p = true → ∃ w r, P.tstep w p s = some r

/-- What a window is to do. -/
structure Windowed (asks armed reads : π → Bool) (e : Exec P) : Prop where
  /-- At most one window is armed. -/
  one : ∀ n i j p q, (e.pool n).threads i = some p → (e.pool n).threads j = some q →
    armed p = true → armed q = true → i = j
  /-- A request that has been made by `n` is followed by a window's run that reads after `n`. -/
  followed : e.Fair → ∀ n i p, (e.pool n).threads i = some p → asks p = true →
    ∃ j a r m₁ m₂, n ≤ m₁ ∧ m₁ < m₂ ∧ e.Steps j a m₁ ∧ armed a = true ∧
      e.Steps j r m₂ ∧ reads r = true

/-- **A window loses no request.** -/
theorem Window.windowed {flag : σ → Bool} {asks armed reads : π → Bool}
    (W : Window P flag asks armed reads) (e : Exec P) {s : σ} (h0 : e.pool 0 = Pool.idle s)
    (hs : flag s = false) : Windowed asks armed reads e := by
  have halone : ∀ n, (e.pool n).Alone flag armed :=
    always (h0 ▸ alone_idle s) fun _ _ _ h hn => W.lock.next h hn
  have hheld : ∀ n, (e.pool n).Held flag armed :=
    always (h0 ▸ held_idle hs) fun _ _ _ h hn =>
      W.lock.held_next (fun w p s t q hq harmed _ => (W.disarm w p s t q hq harmed).1) h hn
  refine ⟨fun n i j p q hp hq => (halone n).one i j p q hp hq, ?_⟩
  intro hfair n i p hp hasks
  have hready := fun s => W.ready p s (.inl hasks)
  obtain ⟨m, hm, j, a, ha, harmed⟩ :=
    hfair.flagged hheld hp hready fun w s t q h => W.look w p s t q h hasks
  -- the task of that window disarms it, and reads next
  obtain ⟨m₁, hm₁, hsleeps⟩ := hfair.steps ha fun _ _ => W.ready a _ (.inr (.inl harmed))
  obtain ⟨w, t, q, ht, heq⟩ := hsleeps.next
  obtain ⟨-, r, rfl, hr⟩ := W.disarm w a _ t q ht harmed
  have hat : (e.pool (m₁ + 1)).threads j = some r := by
    rw [heq]
    exact Function.update_self ..
  obtain ⟨m₂, hm₂, hreads⟩ := hfair.steps hat fun _ _ => W.ready r _ (.inr (.inr hr))
  exact ⟨j, a, r, m₁, m₂, by omega, by omega, hsleeps, harmed, hreads, hr⟩

/-! ## Finite runs -/

/-- The pools of a run, and then the last one. -/
def pools (P : Prog σ π ω α) : Pool σ π → List (Label π ω α) → Nat → Pool σ π
  | c, _, 0 => c
  | c, [], _ + 1 => c
  | c, l :: ls, n + 1 => pools P ((P.next c l).getD c) ls n

theorem pools_next {c c' : Pool σ π} {ls : List (Label π ω α)} (h : run P.next c ls = some c')
    (n : Nat) : match ls[n]? with
    | none => pools P c ls (n + 1) = pools P c ls n
    | some l => P.next (pools P c ls n) l = some (pools P c ls (n + 1)) := by
  induction ls generalizing c n with
  | nil => cases n <;> rfl
  | cons l ls ih =>
      obtain ⟨c₁, h₁, hr⟩ := run_cons_eq_some.mp h
      cases n with
      | zero => simp [pools, h₁]
      | succ n =>
          simp only [pools, h₁, Option.getD_some, List.getElem?_cons_succ]
          exact ih hr n

theorem pools_end {c c' : Pool σ π} {ls : List (Label π ω α)} (h : run P.next c ls = some c')
    {n : Nat} (hn : ls.length ≤ n) : pools P c ls n = c' := by
  induction ls generalizing c n with
  | nil =>
      have heq : c = c' := by simpa using h
      cases n <;> exact heq
  | cons l ls ih =>
      obtain ⟨c₁, h₁, hr⟩ := run_cons_eq_some.mp h
      cases n with
      | zero => simp at hn
      | succ n =>
          simp only [pools, h₁, Option.getD_some]
          exact ih hr (by simpa using hn)

/-- A finite run as an execution. -/
def play {c c' : Pool σ π} {ls : List (Label π ω α)} (h : run P.next c ls = some c') : Exec P where
  pool := pools P c ls
  label n := ls[n]?
  next := pools_next h

theorem play_zero {c c' : Pool σ π} {ls : List (Label π ω α)} (h : run P.next c ls = some c') :
    (play h).pool 0 = c := by
  cases ls <;> rfl

/-- A run that leaves no thread is fair. -/
theorem play_fair {c c' : Pool σ π} {ls : List (Label π ω α)} (h : run P.next c ls = some c')
    (hrest : ∀ i, c'.threads i = none) : (play h).Fair := by
  intro i n hcan
  obtain ⟨p, w, r, hp, -⟩ := hcan (max n ls.length) (Nat.le_max_left ..)
  have hend : (play h).pool (max n ls.length) = c' := pools_end h (Nat.le_max_right ..)
  exact absurd ((hend ▸ hp).symm.trans (hrest i)) nofun

/-- A run from an idle pool that leaves no thread is the start of a fair execution. -/
theorem exists_fair {s : σ} (ls : List (Label π ω α)) (n : Nat)
    (hbelow : ls.all (Label.below n) = true)
    (hfin : (run P.next (Pool.idle s) ls).map (Pool.finished n) = some true) :
    ∃ e : Exec P, e.pool 0 = Pool.idle s ∧ e.Fair ∧ ∀ k, e.label k = ls[k]? := by
  obtain ⟨c, hr, hc⟩ := Option.map_eq_some_iff.mp hfin
  have hrest := ((below_idle n s).run hbelow hr).all_done hc
  exact ⟨play hr, play_zero hr, play_fair hr hrest, fun k => rfl⟩

/-- The thread that has just started stands where it started. -/
theorem spawned (h : e.label n = some (.spawn i p)) : (e.pool (n + 1)).threads i = some p := by
  obtain ⟨-, -, heq⟩ := Prog.next_spawn.mp (e.next_some h)
  rw [heq]
  exact Function.update_self ..

end Exec

end MostroApp.Interleaving
