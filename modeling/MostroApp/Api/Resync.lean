import MostroApp.Lib.Mutex

set_option autoImplicit false

/-! # Resync (`api/nostr.rs`)

Coming back from a suspension brings the core back in step with the relays in one pass. Calls that
come together share a pass: a call reads a counter, waits for the lock, and takes the last outcome
if the counter has moved meanwhile; otherwise it runs a pass, stores its outcome and moves the
counter. A call that comes while a pass is under way takes the outcome of that pass.

The clock, the passes counted and the calls returned are bookkeeping: the code keeps the counter and
the last outcome.
-/

namespace MostroApp.Resync

open Interleaving Transition

structure ResyncOutcome where
  online : Bool
  flushed : Nat
  coalesced : Bool
deriving DecidableEq

/-- A pass over: when it began, when the counter moved for it, and its outcome. -/
structure Pass where
  began : Nat
  counted : Nat
  outcome : ResyncOutcome

/-- A call over: when it was made, and what it returned. -/
structure Returned where
  made : Nat
  outcome : ResyncOutcome

structure ResyncState where
  locked : Bool
  generation : Nat
  last : Option ResyncOutcome
  clock : Nat
  passes : List Pass
  returned : List Returned

def ResyncState.new : ResyncState := ⟨false, 0, none, 0, [], []⟩

def ResyncState.tick (s : ResyncState) : ResyncState := { s with clock := s.clock + 1 }

/-- Where a call stands. From `compares` on it has the lock. -/
inductive ResyncTask where
  | called
  | loads (made : Nat)
  | waits (made seen : Nat)
  | compares (made seen : Nat)
  | runs (made began : Nat)
  | stores (made began : Nat) (outcome : ResyncOutcome)
  | counts (made began : Nat) (outcome : ResyncOutcome)
  | leaves (made : Nat) (outcome : ResyncOutcome)

/-- `resync_with`, one access to the shared state per step. The oracle is the outcome of a pass. -/
def ResyncTask.step (outcome : ResyncOutcome) :
    ResyncTask → ResyncState → Option (ResyncState × Option ResyncTask)
  | .called, s => some (s.tick, some (.loads s.clock))
  | .loads made, s => some (s.tick, some (.waits made s.generation))
  | .waits made seen, s =>
      if s.locked = true then none
      else some ({ s.tick with locked := true }, some (.compares made seen))
  | .compares made seen, s =>
      -- the outcome of a pass that has moved the counter since
      match if s.generation ≠ seen then s.last else none with
      | some last => some (s.tick, some (.leaves made { last with coalesced := true }))
      | none => some (s.tick, some (.runs made s.clock))
  | .runs made began, s => some (s.tick, some (.stores made began outcome))
  | .stores made began outcome, s =>
      some ({ s.tick with last := some outcome }, some (.counts made began outcome))
  | .counts made began outcome, s =>
      some ({ s.tick with
        generation := s.generation + 1
        passes := s.passes ++ [⟨began, s.clock, outcome⟩] }, some (.leaves made outcome))
  | .leaves made outcome, s =>
      some ({ s.tick with locked := false, returned := s.returned ++ [⟨made, outcome⟩] }, none)

/-- Any number of calls. -/
def resyncProg : Prog ResyncState ResyncTask ResyncOutcome Empty where
  enter
    | .called => true
    | _ => false
  tstep := ResyncTask.step
  act a := nomatch a

/-! ## The lock -/

/-- The call has the lock. -/
def ResyncTask.holds : ResyncTask → Bool
  | .called | .loads _ | .waits .. => false
  | _ => true

theorem resyncMutex : Mutex resyncProg ResyncState.locked ResyncTask.holds where
  enter p hp := by cases p <;> first | rfl | nomatch hp
  take w p s t q h hp hq := by
    cases p with
    | waits made seen =>
        simp only [resyncProg, ResyncTask.step, Option.ite_none_left_eq_some] at h
        obtain ⟨hfree, heq⟩ := h
        cases heq
        exact ⟨Bool.eq_false_iff.mpr hfree, rfl⟩
    | called | loads made =>
        cases h
        nomatch hq
    | _ => nomatch hp
  stay w p s t q h hp hq := by
    cases p with
    | called | loads made | waits made seen => nomatch hp
    | compares made seen =>
        simp only [resyncProg, ResyncTask.step] at h
        split at h <;> cases h <;> rfl
    | _ => cases h <;> rfl
  keep w p s t q h hp hq := by
    cases p with
    | called | loads made =>
        cases h
        rfl
    | waits made seen =>
        simp only [resyncProg, ResyncTask.step, Option.ite_none_left_eq_some] at h
        cases h.2
        nomatch hq _ rfl
    | _ => nomatch hp
  env a := nomatch a

/-! ## What a call may return -/

/-- The outcome of the pass, as its own call or a follower returns it. -/
def Returned.Of (r : Returned) (p : Pass) : Prop :=
  r.outcome = p.outcome ∨ r.outcome = { p.outcome with coalesced := true }

/-- The pass began at or after the call. -/
def Returned.Fresh (r : Returned) (p : Pass) : Prop := r.made ≤ p.began

/-- The pass was under way when the call was made: it had begun and did not count yet. -/
def Returned.During (r : Returned) (p : Pass) : Prop := p.began < r.made ∧ r.made ≤ p.counted

/-- Each call returned the outcome of a pass with `Q`. -/
def ResyncState.EachOf (Q : Returned → Pass → Prop) (s : ResyncState) : Prop :=
  ∀ r ∈ s.returned, ∃ p ∈ s.passes, r.Of p ∧ Q r p

/-- What the code guarantees of a call and its pass. -/
def Returned.Served (r : Returned) (p : Pass) : Prop := r.Fresh p ∨ r.During p

theorem served_of_counted {r : Returned} {p : Pass} (h : r.made ≤ p.counted) : r.Served p := by
  by_cases hfresh : r.made ≤ p.began
  · exact .inl hfresh
  · exact .inr ⟨Nat.lt_of_not_le hfresh, h⟩

/-! ## The invariant -/

/-- The last outcome is the one of the last pass. -/
def ResyncState.Settled (s : ResyncState) : Prop :=
  s.last = s.passes.getLast?.map (·.outcome)

structure ResyncState.Inv (s : ResyncState) : Prop where
  generation : s.generation = s.passes.length
  settled : s.locked = false → s.Settled
  returned : s.EachOf Returned.Served

/-- The passes from `seen` on count since the call. -/
structure Since (made seen : Nat) (s : ResyncState) : Prop where
  before : made < s.clock
  bound : seen ≤ s.passes.length
  counted : ∀ p ∈ s.passes.drop seen, made ≤ p.counted

/-- What is so of a call where it stands. -/
def ResyncTask.Assert : ResyncTask → ResyncState → Prop
  | .called, _ => True
  | .loads made, s => made < s.clock
  | .waits made seen, s => Since made seen s
  | .compares made seen, s => Since made seen s ∧ s.Settled
  | .runs made began, s | .stores made began _, s => made ≤ began ∧ made < s.clock
  | .counts made began outcome, s => made ≤ began ∧ made < s.clock ∧ s.last = some outcome
  | .leaves made outcome, s =>
      s.Settled ∧
        ∃ p ∈ s.passes, Returned.Of ⟨made, outcome⟩ p ∧ Returned.Served ⟨made, outcome⟩ p

variable {p : ResyncTask} {s t : ResyncState} {q : Option ResyncTask} {outcome : ResyncOutcome}

/-! ## What one step does -/

/-- A step ticks, and appends at most a pass that counts now. -/
structure Grows (s t : ResyncState) : Prop where
  clock : t.clock = s.clock + 1
  passes : t.passes = s.passes ∨
    ∃ pass : Pass, pass.counted = s.clock ∧ t.passes = s.passes ++ [pass]

theorem ResyncTask.step_grows (h : p.step outcome s = some (t, q)) : Grows s t := by
  cases p with
  | waits made seen =>
      simp only [ResyncTask.step, Option.ite_none_left_eq_some] at h
      cases h.2
      exact ⟨rfl, .inl rfl⟩
  | compares made seen =>
      simp only [ResyncTask.step] at h
      split at h <;> cases h <;> exact ⟨rfl, .inl rfl⟩
  | counts made began outcome =>
      cases h
      exact ⟨rfl, .inr ⟨⟨began, s.clock, outcome⟩, rfl, rfl⟩⟩
  | _ =>
      cases h
      exact ⟨rfl, .inl rfl⟩

/-- A call outside the lock only ticks while the lock is taken. -/
theorem ResyncTask.step_outside (hp : p.holds = false) (hlocked : s.locked = true)
    (h : p.step outcome s = some (t, q)) : t = s.tick := by
  cases p with
  | called | loads made =>
      cases h
      rfl
  | waits made seen =>
      simp only [ResyncTask.step, Option.ite_none_left_eq_some] at h
      exact absurd hlocked h.1
  | _ => nomatch hp

theorem Since.grows {made seen : Nat} (h : Since made seen s) (hg : Grows s t) :
    Since made seen t := by
  have hseen := h.bound
  refine ⟨hg.clock ▸ Nat.lt_succ_of_lt h.before, ?_, fun p hp => ?_⟩ <;>
    rcases hg.passes with heq | ⟨pass, hcounted, heq⟩
  · exact heq ▸ hseen
  · rw [heq, List.length_append]
    omega
  · exact h.counted p (heq ▸ hp)
  · rw [heq, List.drop_append] at hp
    rcases List.mem_append.mp hp with hold | hnew
    · exact h.counted p hold
    · obtain rfl : p = pass := by simpa using List.mem_of_mem_drop hnew
      exact hcounted ▸ Nat.le_of_lt h.before

/-- A call outside the lock is not disturbed. -/
theorem ResyncTask.Assert.grows (h : p.Assert s) (hp : p.holds = false) (hg : Grows s t) :
    p.Assert t := by
  cases p with
  | called => trivial
  | loads made =>
      have hmade : made < s.clock := h
      have hclock := hg.clock
      show made < t.clock
      omega
  | waits made seen => exact Since.grows h hg
  | _ => nomatch hp

/-- A call with the lock is not disturbed by the clock. -/
theorem ResyncTask.Assert.tick (h : p.Assert s) : p.Assert s.tick := by
  cases p with
  | called => trivial
  | loads made => exact Nat.lt_succ_of_lt h
  | waits made seen => exact ⟨Nat.lt_succ_of_lt h.before, h.bound, h.counted⟩
  | compares made seen =>
      exact ⟨⟨Nat.lt_succ_of_lt h.1.before, h.1.bound, h.1.counted⟩, h.2⟩
  | runs made began | stores made began outcome => exact ⟨h.1, Nat.lt_succ_of_lt h.2⟩
  | counts made began outcome => exact ⟨h.1, Nat.lt_succ_of_lt h.2.1, h.2.2⟩
  | leaves made outcome => exact h

/-! ## Every run -/

theorem ResyncState.EachOf.append {Q : Returned → Pass → Prop} (h : s.EachOf Q) {r : Returned}
    (hr : ∃ p ∈ s.passes, r.Of p ∧ Q r p) (hpasses : t.passes = s.passes)
    (hreturned : t.returned = s.returned ++ [r]) : t.EachOf Q := by
  intro r' hr'
  rw [hreturned] at hr'
  rw [hpasses]
  rcases List.mem_append.mp hr' with hold | hnew
  · exact h r' hold
  · obtain rfl := List.mem_singleton.mp hnew
    exact hr

/-- **A step keeps the invariant.** -/
theorem ResyncState.Inv.step (hs : s.Inv) (hp : p.Assert s)
    (hlocked : p.holds = true → s.locked = true) (h : p.step outcome s = some (t, q)) : t.Inv := by
  cases p with
  | called | loads made | stores made began o | runs made began =>
      cases h
      refine ⟨hs.generation, fun hfree => ?_, hs.returned⟩
      -- an outcome is stored under the lock, before its pass counts
      first
      | exact hs.settled hfree
      | exact absurd (hlocked rfl) (Bool.eq_false_iff.mp hfree)
  | waits made seen =>
      simp only [ResyncTask.step, Option.ite_none_left_eq_some] at h
      cases h.2
      exact ⟨hs.generation, fun hfree => (nomatch hfree), hs.returned⟩
  | compares made seen =>
      simp only [ResyncTask.step] at h
      split at h <;> cases h <;> exact ⟨hs.generation, hs.settled, hs.returned⟩
  | counts made began o =>
      cases h
      refine ⟨?_, fun hfree => absurd (hlocked rfl) (Bool.eq_false_iff.mp hfree), ?_⟩
      · simp [hs.generation]
      · intro r hr
        obtain ⟨pass, hpass, hof⟩ := hs.returned r hr
        exact ⟨pass, List.mem_append_left _ hpass, hof⟩
  | leaves made o =>
      cases h
      exact ⟨hs.generation, fun _ => hp.1, hs.returned.append hp.2 rfl rfl⟩

/-- **A step ends where its next assertion holds.** -/
theorem ResyncTask.Assert.step {p' : ResyncTask} (hs : s.Inv) (hp : p.Assert s)
    (h : p.step outcome s = some (t, some p')) : p'.Assert t := by
  cases p with
  | called =>
      cases h
      exact Nat.lt_succ_self _
  | loads made =>
      cases h
      -- no pass counts since the reading of the counter
      refine ⟨Nat.lt_succ_of_lt hp, Nat.le_of_eq hs.generation, fun pass hpass => ?_⟩
      have hnone : s.passes.drop s.generation = [] := by simp [hs.generation]
      exact absurd (hnone ▸ hpass) List.not_mem_nil
  | waits made seen =>
      simp only [ResyncTask.step, Option.ite_none_left_eq_some, Bool.not_eq_true] at h
      cases h.2
      exact ⟨Since.grows hp ⟨rfl, .inl rfl⟩, hs.settled h.1⟩
  | compares made seen =>
      obtain ⟨hsince, hsettled⟩ := hp
      simp only [ResyncTask.step] at h
      split at h
      next last hlast =>
        cases h
        obtain ⟨hne, hlast⟩ := Option.ite_none_right_eq_some.mp hlast
        obtain ⟨pass, hpass, rfl⟩ := Option.map_eq_some_iff.mp (hsettled.symm.trans hlast)
        -- the counter has moved: the last pass is one of those that count since
        have hlt : seen < s.passes.length := by
          have hle := hsince.bound
          have heq := hs.generation
          omega
        have hdrop : (s.passes.drop seen).getLast? = some pass := by
          rw [List.getLast?_drop, if_neg (Nat.not_le_of_lt hlt), hpass]
        have hcounted := hsince.counted pass (List.mem_of_getLast? hdrop)
        exact ⟨hsettled, pass, List.mem_of_getLast? hpass, .inr rfl, served_of_counted hcounted⟩
      next =>
        -- the call runs a pass of its own, which begins now
        cases h
        exact ⟨Nat.le_of_lt hsince.before, Nat.lt_succ_of_lt hsince.before⟩
  | runs made began =>
      cases h
      exact ⟨hp.1, Nat.lt_succ_of_lt hp.2⟩
  | stores made began o =>
      cases h
      exact ⟨hp.1, Nat.lt_succ_of_lt hp.2, rfl⟩
  | counts made began o =>
      cases h
      obtain ⟨hmade, -, hlast⟩ := hp
      refine ⟨?_, ⟨began, s.clock, o⟩, by simp, .inl rfl, .inl hmade⟩
      simp [ResyncState.Settled, ResyncState.tick, hlast]
  | leaves made o => nomatch h

/-- The outline: a call without the lock is not disturbed by a pass that comes to count, and one
with the lock sees only the clock move. -/
theorem resyncOutline :
    Outline resyncProg (fun c _ => c.Alone ResyncState.locked ResyncTask.holds)
      ResyncState.Inv ResyncTask.Assert where
  spawn c i p _ _ hp _ := by
    cases p with
    | called => trivial
    | _ => nomatch hp
  step_shared c i w p s q hc halone hp h :=
    hc.shared.step (hc.threads i p hp) (halone.locked i p hp) h
  step_self c i w p s q hc _ hp h := (hc.threads i p hp).step hc.shared h
  step_other c i w p s q j r hc halone hp h hj hr := by
    have hassert := hc.threads j r hr
    cases hholds : r.holds with
    | false => exact hassert.grows hholds (ResyncTask.step_grows h)
    | true =>
        have houtside := halone.not_holds hr hholds hp hj.symm
        rw [ResyncTask.step_outside houtside (halone.locked j r hr hholds) h]
        exact hassert.tick
  env_shared _ a := nomatch a
  env_threads _ a := nomatch a

/-- The call runs a pass. -/
def ResyncTask.InPass : ResyncTask → Prop
  | .runs .. => True
  | _ => False

/-- At most one pass is in progress. -/
def SingleFlight (c : Pool ResyncState ResyncTask) : Prop :=
  ∀ i j p q, c.threads i = some p → c.threads j = some q → p.InPass → q.InPass → i = j

variable {c : Pool ResyncState ResyncTask} {ls : List (Label ResyncTask ResyncOutcome Empty)}

/-- **One pass at a time, and each call returns the outcome of a pass that began at or after it was
made, or was under way then.** -/
theorem resync_served (hr : run resyncProg.next (Pool.idle .new) ls = some c) :
    SingleFlight c ∧ c.shared.EachOf Returned.Served := by
  constructor
  · have halone := resyncMutex.run (alone_idle _) hr
    have holds : ∀ {p : ResyncTask}, p.InPass → p.holds = true := by
      intro p hp
      cases p <;> first | rfl | exact hp.elim
    intro i j p q hp hq hpass hpass'
    exact halone.one i j p q hp hq (holds hpass) (holds hpass')
  · have hfresh : ResyncState.new.Inv := ⟨rfl, fun _ => rfl, fun _ hr => (nomatch hr)⟩
    have halong := resyncMutex.along (alone_idle .new) (along_true (Pool.idle ResyncState.new) ls)
    have hC := halong.mono fun _ _ h => h.1
    exact (resyncOutline.run_inv (poolInv_idle hfresh) hC hr).shared.returned

/-- A pass that flushed three messages. -/
def flushedThree : ResyncOutcome := ⟨true, 3, false⟩

/-- A call that comes while another's pass is under way, and takes its outcome. -/
def followed : List (Label ResyncTask ResyncOutcome Empty) :=
  [.spawn 0 .called, .step 0 flushedThree, .step 0 flushedThree, .step 0 flushedThree,
    .step 0 flushedThree, .spawn 1 .called, .step 1 flushedThree, .step 1 flushedThree,
    .step 0 flushedThree, .step 0 flushedThree, .step 0 flushedThree, .step 0 flushedThree,
    .step 1 flushedThree, .step 1 flushedThree, .step 1 flushedThree]

theorem follower_served :
    ∃ c, run resyncProg.next (Pool.idle .new) followed = some c ∧
      SingleFlight c ∧ c.shared.EachOf Returned.Served := by
  have hr : run resyncProg.next (Pool.idle .new) followed = some _ := rfl
  exact ⟨_, hr, resync_served hr⟩

/-- **The follower's pass began before the follower was made.** -/
theorem follower_not_fresh :
    ∃ c, run resyncProg.next (Pool.idle .new) followed = some c ∧
      ¬ c.shared.EachOf Returned.Fresh := by
  have hrun : ∃ c, run resyncProg.next (Pool.idle .new) followed = some c ∧
      c.shared.passes = [⟨3, 8, flushedThree⟩] ∧
      c.shared.returned =
        [⟨0, flushedThree⟩, ⟨4, { flushedThree with coalesced := true }⟩] :=
    ⟨_, rfl, rfl, rfl⟩
  obtain ⟨c, hc, hpasses, hreturned⟩ := hrun
  refine ⟨c, hc, fun h => ?_⟩
  obtain ⟨p, hp, -, hfresh⟩ :=
    h ⟨4, { flushedThree with coalesced := true }⟩ (by simp [hreturned])
  rw [hpasses] at hp
  obtain rfl := List.mem_singleton.mp hp
  exact absurd hfresh (by decide : ¬ 4 ≤ 3)

end MostroApp.Resync
