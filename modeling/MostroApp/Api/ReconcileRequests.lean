import MostroApp.Lib.Fairness

set_option autoImplicit false

/-! # Reconcile requests (`api/push.rs`)

Whoever changes what the push server should hold asks for a reconcile: it raises `DIRTY` and arms
a window unless one is armed (`SCHEDULED`). The window's task disarms it and calls `reconcile_push`,
as others do directly. `reconcile_push` takes the lock and makes passes: it lowers `DIRTY`, makes a
pass, and makes another one if `DIRTY` is up again.

A request outlives the flag: the window it has armed, or has found armed, calls `reconcile_push`
after it. A call waits for the lock, and whoever gets the lock reads then.
-/

namespace MostroApp.Reconcile

open Interleaving

structure Flags where
  dirty : Bool
  scheduled : Bool
  locked : Bool

def Flags.new : Flags := ⟨false, false, false⟩

/-- Where a request stands, then the task of the window it has armed, which goes on as a call of
`reconcile_push`. From `clears` on it has the lock; `reads` is about to start a pass. -/
inductive ReconcileTask where
  | requests
  | schedules
  | sleeps
  | waits
  | clears
  | reads
  | passes
  | looks
  | leaves

/-- `request_reconcile` inside a runtime, and `reconcile_push`, one access to the flags or the lock
per step. -/
def ReconcileTask.step : ReconcileTask → Flags → Option (Flags × Option ReconcileTask)
  | .requests, s => some ({ s with dirty := true }, some .schedules)
  | .schedules, s =>
      if s.scheduled then some (s, none) else some ({ s with scheduled := true }, some .sleeps)
  | .sleeps, s => some ({ s with scheduled := false }, some .waits)
  | .waits, s => if s.locked then none else some ({ s with locked := true }, some .clears)
  | .clears, s => some ({ s with dirty := false }, some .reads)
  | .reads, s => some (s, some .passes)
  | .passes, s => some (s, some .looks)
  | .looks, s => some (s, some (if s.dirty then .clears else .leaves))
  | .leaves, s => some ({ s with locked := false }, none)

/-- Any number of requests and of direct calls. -/
def reconcileProg : Prog Flags ReconcileTask Unit Empty where
  enter
    | .requests | .waits => true
    | _ => false
  tstep _ := ReconcileTask.step
  act := nofun

/-- A request arms a window unless one is armed. -/
theorem ReconcileTask.step_schedules {s t : Flags} {q : Option ReconcileTask}
    (h : ReconcileTask.schedules.step s = some (t, q)) :
    s.scheduled = true ∧ t = s ∧ q = none ∨
      s.scheduled = false ∧ t = { s with scheduled := true } ∧ q = some .sleeps := by
  simp only [ReconcileTask.step] at h
  split at h
  · next hup =>
    cases h
    exact .inl ⟨hup, rfl, rfl⟩
  · next hdown =>
    cases h
    exact .inr ⟨by simpa using hdown, rfl, rfl⟩

/-- A call waits while the lock is taken. -/
theorem ReconcileTask.step_waits {s t : Flags} {q : Option ReconcileTask}
    (h : ReconcileTask.waits.step s = some (t, q)) :
    s.locked = false ∧ t = { s with locked := true } ∧ q = some .clears := by
  simp only [ReconcileTask.step, Option.ite_none_left_eq_some] at h
  obtain ⟨hfree, heq⟩ := h
  cases heq
  exact ⟨by simpa using hfree, rfl, rfl⟩

/-- After a pass another one is made if the flag is up again, else the lock is given back. -/
theorem ReconcileTask.step_looks {s t : Flags} {q : Option ReconcileTask}
    (h : ReconcileTask.looks.step s = some (t, q)) :
    t = s ∧ (s.dirty = true ∧ q = some .clears ∨ s.dirty = false ∧ q = some .leaves) := by
  simp only [ReconcileTask.step] at h
  split at h
  · next hup =>
    cases h
    exact ⟨rfl, .inl ⟨hup, rfl⟩⟩
  · next hdown =>
    cases h
    exact ⟨rfl, .inr ⟨by simpa using hdown, rfl⟩⟩

/-! ## The window and the lock -/

def ReconcileTask.armed : ReconcileTask → Bool
  | .sleeps => true
  | _ => false

def ReconcileTask.holds : ReconcileTask → Bool
  | .clears | .reads | .passes | .looks | .leaves => true
  | _ => false

/-- The task is in a pass. -/
def ReconcileTask.inPass : ReconcileTask → Bool
  | .reads | .passes => true
  | _ => false

/-- The window is armed exactly while its task sleeps. -/
theorem windowLock : Mutex reconcileProg Flags.scheduled ReconcileTask.armed where
  enter p hp := by
    cases p with
    | requests | waits => rfl
    | _ => nomatch hp
  take w p s t q h hp hq := by
    cases p with
    | schedules =>
        rcases ReconcileTask.step_schedules h with ⟨-, -, hnone⟩ | ⟨hdown, rfl, -⟩
        · cases hnone
        · exact ⟨hdown, rfl⟩
    | sleeps => cases hp
    | waits =>
        obtain ⟨-, -, heq⟩ := ReconcileTask.step_waits h
        obtain rfl := Option.some.inj heq
        cases hq
    | looks =>
        obtain ⟨-, ⟨-, heq⟩ | ⟨-, heq⟩⟩ := ReconcileTask.step_looks h <;>
          obtain rfl := Option.some.inj heq <;> cases hq
    | leaves => nomatch h
    | _ =>
        cases h
        nomatch hq
  stay w p s t q h hp hq := by
    cases p with
    | sleeps =>
        cases h
        nomatch hq
    | _ => nomatch hp
  keep w p s t q h hp hq := by
    cases p with
    | schedules =>
        rcases ReconcileTask.step_schedules h with ⟨-, rfl, -⟩ | ⟨-, -, rfl⟩
        · rfl
        · cases hq _ rfl
    | sleeps => cases hp
    | waits =>
        obtain ⟨-, rfl, -⟩ := ReconcileTask.step_waits h
        rfl
    | _ =>
        cases h
        rfl
  env a := nomatch a

/-- `RECONCILE_LOCK`. -/
theorem passLock : Mutex reconcileProg Flags.locked ReconcileTask.holds where
  enter p hp := by
    cases p with
    | requests | waits => rfl
    | _ => nomatch hp
  take w p s t q h hp hq := by
    cases p with
    | requests | sleeps =>
        cases h
        nomatch hq
    | schedules =>
        rcases ReconcileTask.step_schedules h with ⟨-, -, heq⟩ | ⟨-, -, heq⟩
        · cases heq
        · obtain rfl := Option.some.inj heq
          cases hq
    | waits =>
        obtain ⟨hfree, rfl, -⟩ := ReconcileTask.step_waits h
        exact ⟨hfree, rfl⟩
    | _ => nomatch hp
  stay w p s t q h hp hq := by
    cases p with
    | requests | schedules | sleeps | waits => nomatch hp
    | leaves => nomatch h
    | _ =>
        cases h
        rfl
  keep w p s t q h hp hq := by
    cases p with
    | requests | sleeps =>
        cases h
        rfl
    | schedules =>
        rcases ReconcileTask.step_schedules h with ⟨-, rfl, -⟩ | ⟨-, rfl, -⟩ <;> rfl
    | waits =>
        obtain ⟨-, -, rfl⟩ := ReconcileTask.step_waits h
        cases hq _ rfl
    | _ => nomatch hp
  env a := nomatch a

/-! ## A pass is made -/

variable {e : Exec reconcileProg} {i n : Nat}

/-- A pass starts to read at `m`. -/
def ReadsAt (e : Exec reconcileProg) (m : Nat) : Prop := ∃ j, e.Steps j .reads m

/-- Every task but one that waits for the lock can go on. -/
theorem ready_of_ne_waits {p : ReconcileTask} (hp : p ≠ .waits) (s : Flags) :
    ∃ w r, reconcileProg.tstep w p s = some r := by
  cases p with
  | waits => exact absurd rfl hp
  | schedules =>
      by_cases hup : s.scheduled = true
      · exact ⟨(), _, if_pos hup⟩
      · exact ⟨(), _, if_neg hup⟩
  | _ => exact ⟨(), _, rfl⟩

theorem goes_on (hfair : e.Fair) {p : ReconcileTask} (hp : (e.pool n).threads i = some p)
    (hne : p ≠ .waits) : ∃ m ≥ n, e.Steps i p m :=
  hfair.steps hp fun _ _ => ready_of_ne_waits hne _

/-- A task that has cleared the flag reads. -/
theorem reads_of_clears (hfair : e.Fair) (hp : (e.pool n).threads i = some .clears) :
    ∃ m ≥ n, ReadsAt e m := by
  refine hfair.leads hp .reads (ready_of_ne_waits nofun) (fun w s t q h => ?_) fun m hat => ?_
  · cases h
    rfl
  · obtain ⟨k, hk, hstep⟩ := goes_on hfair hat nofun
    exact ⟨k, hk, i, hstep⟩

/-- Whoever has the lock makes another pass or gives the lock back. -/
theorem reads_or_frees (hfair : e.Fair) {p : ReconcileTask}
    (hp : (e.pool n).threads i = some p) (hholds : p.holds = true) :
    ∃ m ≥ n, ReadsAt e m ∨ (e.pool m).shared.locked = false := by
  have clears : ∀ {n}, (e.pool n).threads i = some .clears →
      ∃ m ≥ n, ReadsAt e m ∨ (e.pool m).shared.locked = false := by
    intro n hp
    obtain ⟨m, hm, hreads⟩ := reads_of_clears hfair hp
    exact ⟨m, hm, .inl hreads⟩
  have leaves : ∀ {n}, (e.pool n).threads i = some .leaves →
      ∃ m ≥ n, ReadsAt e m ∨ (e.pool m).shared.locked = false := by
    intro n hp
    obtain ⟨m, hm, hstep⟩ := goes_on hfair hp nofun
    obtain ⟨w, s, q, hs, heq⟩ := hstep.next
    cases hs
    exact ⟨m + 1, by omega, .inr (heq ▸ rfl)⟩
  -- a request made during the pass calls for another one
  have looks : ∀ n, (e.pool n).threads i = some .looks →
      ∃ m ≥ n, ReadsAt e m ∨ (e.pool m).shared.locked = false := by
    intro n hp
    obtain ⟨m, hm, hstep⟩ := goes_on hfair hp nofun
    obtain ⟨w, s, q, hs, heq⟩ := hstep.next
    have hat : (e.pool (m + 1)).threads i = q := by
      rw [heq]
      exact Function.update_self ..
    obtain ⟨k, hk, hq⟩ : ∃ k ≥ m + 1, ReadsAt e k ∨ (e.pool k).shared.locked = false := by
      obtain ⟨-, ⟨-, rfl⟩ | ⟨-, rfl⟩⟩ := ReconcileTask.step_looks hs
      · exact clears hat
      · exact leaves hat
    exact ⟨k, by omega, hq⟩
  cases p with
  | clears => exact clears hp
  | reads =>
      obtain ⟨m, hm, hstep⟩ := goes_on hfair hp nofun
      exact ⟨m, hm, .inl ⟨i, hstep⟩⟩
  | passes =>
      refine hfair.leads hp .looks (ready_of_ne_waits nofun) (fun w s t q h => ?_) looks
      cases h
      rfl
  | looks => exact looks n hp
  | leaves => exact leaves hp
  | _ => nomatch hholds

/-- Whoever takes the lock is about to clear the flag. -/
theorem clears_of_takes {p r : ReconcileTask} {s t : Flags}
    (h : p.step s = some (t, some r)) (hp : p.holds = false) (hr : r.holds = true) :
    r = .clears := by
  cases p with
  | requests | sleeps =>
      cases h
      nomatch hr
  | schedules =>
      rcases ReconcileTask.step_schedules h with ⟨-, -, heq⟩ | ⟨-, -, heq⟩
      · cases heq
      · obtain rfl := Option.some.inj heq
        cases hr
  | waits =>
      obtain ⟨-, -, heq⟩ := ReconcileTask.step_waits h
      exact Option.some.inj heq
  | _ => nomatch hp

/-- What is so of the two locks at all times. -/
structure Locks (e : Exec reconcileProg) : Prop where
  window : ∀ n, (e.pool n).Alone Flags.scheduled ReconcileTask.armed
  windowHeld : ∀ n, (e.pool n).Held Flags.scheduled ReconcileTask.armed
  pass : ∀ n, (e.pool n).Alone Flags.locked ReconcileTask.holds
  passHeld : ∀ n, (e.pool n).Held Flags.locked ReconcileTask.holds

theorem locks (h0 : e.pool 0 = Pool.idle .new) : Locks e where
  window := Exec.always (h0 ▸ alone_idle _) fun _ _ _ h hn => windowLock.next h hn
  windowHeld := by
    refine Exec.always (h0 ▸ held_idle rfl) fun _ _ _ h hn => windowLock.held_next ?_ h hn
    intro w p s t q h harmed _
    cases p with
    | sleeps =>
        cases h
        rfl
    | _ => nomatch harmed
  pass := Exec.always (h0 ▸ alone_idle _) fun _ _ _ h hn => passLock.next h hn
  passHeld := by
    refine Exec.always (h0 ▸ held_idle rfl) fun _ _ _ h hn => passLock.held_next ?_ h hn
    intro w p s t q h hholds hleft
    cases p with
    | leaves =>
        cases h
        rfl
    | looks =>
        obtain ⟨-, ⟨-, rfl⟩ | ⟨-, rfl⟩⟩ := ReconcileTask.step_looks h <;> cases hleft _ rfl
    | requests | schedules | sleeps | waits => nomatch hholds
    | _ =>
        cases h
        nomatch hleft _ rfl

/-- **A call that waits for the lock is followed by a pass**, its own or that of another. -/
theorem reads_of_waits (hfair : e.Fair) (hlocks : Locks e)
    (hp : (e.pool n).threads i = some .waits) : ∃ m ≥ n, ReadsAt e m := by
  by_contra hno
  -- without another pass, whoever has the lock gives it back
  have returned : ∃ m ≥ n, (e.pool m).shared.locked = false := by
    by_cases hlocked : (e.pool n).shared.locked = true
    · obtain ⟨j, p, hj, hholds⟩ := hlocks.passHeld n hlocked
      obtain ⟨m, hm, hor⟩ := reads_or_frees hfair hj hholds
      exact ⟨m, hm, hor.resolve_left fun hreads => hno ⟨m, hm, hreads⟩⟩
    · exact ⟨n, Nat.le_refl n, by simpa using hlocked⟩
  obtain ⟨m, hm, j, q, r, hstep, hout, hr, hholds⟩ :=
    hfair.lock_taken passLock hlocks.pass hp rfl
      (fun s hfree => ⟨(), _, by simp [reconcileProg, ReconcileTask.step, hfree]; rfl⟩)
      (fun w s t q h => by
        obtain ⟨-, -, rfl⟩ := ReconcileTask.step_waits h
        exact ⟨_, rfl, rfl⟩)
      returned
  obtain ⟨w, s, o, hs, heq⟩ := hstep.next
  have ho : o = some r := by
    rw [heq] at hr
    simpa using hr
  obtain rfl := clears_of_takes (ho ▸ hs) hout hholds
  obtain ⟨k, hk, hreads⟩ := reads_of_clears hfair hr
  exact hno ⟨k, by omega, hreads⟩

/-- A window's task comes to wait for the lock. -/
theorem reads_of_sleeps (hfair : e.Fair) (hlocks : Locks e)
    (hp : (e.pool n).threads i = some .sleeps) : ∃ m ≥ n, ReadsAt e m := by
  refine hfair.leads hp .waits (ready_of_ne_waits nofun) (fun w s t q h => ?_) fun m =>
    reads_of_waits hfair hlocks
  cases h
  rfl

/-- A request arms a window or finds one armed. -/
theorem reads_of_schedules (hfair : e.Fair) (hlocks : Locks e)
    (hp : (e.pool n).threads i = some .schedules) : ∃ m ≥ n, ReadsAt e m := by
  obtain ⟨m, hm, j, p, hj, harmed⟩ :=
    hfair.flagged hlocks.windowHeld hp (ready_of_ne_waits nofun) fun w s t q h => by
      rcases ReconcileTask.step_schedules h with ⟨hup, -, -⟩ | ⟨-, -, rfl⟩
      · exact .inl hup
      · exact .inr ⟨_, rfl, rfl⟩
  -- the request rides along with whoever sleeps for the window
  cases p with
  | sleeps =>
      obtain ⟨k, hk, hreads⟩ := reads_of_sleeps hfair hlocks hj
      exact ⟨k, by omega, hreads⟩
  | _ => nomatch harmed

/-! ## Requests -/

/-- A request, or a direct call that waits for the lock. -/
def ReconcileTask.asks : ReconcileTask → Bool
  | .requests | .schedules | .waits => true
  | _ => false

/-- What the reconcile requests are to do. -/
structure Reconciled (e : Exec reconcileProg) : Prop where
  /-- At most one window is armed. -/
  window : ∀ n i j p q, (e.pool n).threads i = some p → (e.pool n).threads j = some q →
    p.armed = true → q.armed = true → i = j
  /-- At most one pass is in progress. -/
  pass : ∀ n i j p q, (e.pool n).threads i = some p → (e.pool n).threads j = some q →
    p.inPass = true → q.inPass = true → i = j
  /-- A request that has been made by `n` is followed by a pass that reads from then on. -/
  followed : e.Fair → ∀ n i p, (e.pool n).threads i = some p → p.asks = true →
    ∃ m ≥ n, ReadsAt e m

theorem reconciled (h0 : e.pool 0 = Pool.idle .new) : Reconciled e := by
  have hlocks := locks h0
  have holds : ∀ {p : ReconcileTask}, p.inPass = true → p.holds = true := by
    intro p hp
    cases p with
    | reads | passes => rfl
    | _ => nomatch hp
  refine ⟨fun n i j p q hp hq => (hlocks.window n).one i j p q hp hq, ?_, ?_⟩
  · intro n i j p q hp hq hpass hpass'
    exact (hlocks.pass n).one i j p q hp hq (holds hpass) (holds hpass')
  · intro hfair n i p hp hasks
    cases p with
    | requests =>
        refine hfair.leads hp .schedules (ready_of_ne_waits nofun) (fun w s t q h => ?_) fun m =>
          reads_of_schedules hfair hlocks
        cases h
        rfl
    | schedules => exact reads_of_schedules hfair hlocks hp
    | waits => exact reads_of_waits hfair hlocks hp
    | _ => nomatch hasks

end MostroApp.Reconcile
