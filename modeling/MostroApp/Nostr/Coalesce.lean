import MostroApp.Lib.Fairness

set_option autoImplicit false

/-! # Coalesced refreshes (`nostr/coalesce.rs`)

A request for a refresh arms a window unless one is armed, and then rides along with it. The
window's task sleeps, disarms, and starts the run. Disarming first is what a request that comes
during the run relies on: it arms the next window, for the run may have read its input already.
-/

namespace MostroApp.Coalesce

open Interleaving

structure Coalesced where
  armed : Bool

def Coalesced.new : Coalesced := ⟨false⟩

/-- Where a request stands, and then the task of the window it has armed: `starts` is about to read
the input of its run. -/
inductive CoalesceTask where
  | requests
  | sleeps
  | starts
  | runs

/-- `request` and the task it spawns, one access to the flag or await per step. -/
def CoalesceTask.step : CoalesceTask → Coalesced → Coalesced × Option CoalesceTask
  | .requests, s => if s.armed then (s, none) else ({ s with armed := true }, some .sleeps)
  | .sleeps, s => ({ s with armed := false }, some .starts)
  | .starts, s => (s, some .runs)
  | .runs, s => (s, none)

/-- Any number of requests. -/
def coalesceProg : Prog Coalesced CoalesceTask Unit Empty where
  enter
    | .requests => true
    | _ => false
  tstep _ p s := some (p.step s)
  act := nofun

def CoalesceTask.asks : CoalesceTask → Bool
  | .requests => true
  | _ => false

def CoalesceTask.armed : CoalesceTask → Bool
  | .sleeps => true
  | _ => false

def CoalesceTask.reads : CoalesceTask → Bool
  | .starts => true
  | _ => false

/-- The flag is up exactly while a task sleeps. -/
theorem coalesceLock : Mutex coalesceProg Coalesced.armed CoalesceTask.armed where
  enter p hp := by
    cases p with
    | requests => rfl
    | _ => nomatch hp
  take w p s t q h _ hq := by
    cases p with
    | requests =>
        simp only [coalesceProg, CoalesceTask.step] at h
        split at h
        · nomatch h
        · next hdown =>
          cases h
          exact ⟨by simpa using hdown, rfl⟩
    | sleeps | starts =>
        cases h
        nomatch hq
    | runs => nomatch h
  stay w p s t q h hp hq := by
    cases p with
    | sleeps =>
        cases h
        nomatch hq
    | _ => nomatch hp
  keep w p s t q h hp hq := by
    cases p with
    | requests =>
        simp only [coalesceProg, CoalesceTask.step] at h
        split at h <;> cases h
        · rfl
        · nomatch hq _ rfl
    | sleeps => nomatch hp
    | starts | runs =>
        cases h
        rfl
  env a := nomatch a

theorem coalesceWindow : Exec.Window coalesceProg Coalesced.armed CoalesceTask.asks
    CoalesceTask.armed CoalesceTask.reads where
  lock := coalesceLock
  disarm := by
    rintro w p s t q h harmed
    cases p with
    | sleeps =>
        cases h
        exact ⟨rfl, _, rfl, rfl⟩
    | _ => nomatch harmed
  look := by
    rintro w p s t q h hasks
    cases p with
    | requests =>
        simp only [coalesceProg, CoalesceTask.step] at h
        split at h
        · next hup => exact .inl hup
        · cases h
          exact .inr ⟨_, rfl, rfl⟩
    | _ => nomatch hasks
  ready p s _ := ⟨(), _, rfl⟩

end MostroApp.Coalesce
