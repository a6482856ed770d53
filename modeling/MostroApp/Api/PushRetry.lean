import MostroApp.Api.PushOutcomes
import MostroApp.Lib.Mutex

set_option autoImplicit false

/-! # Retry requests beside a reconcile (`set_push_enabled`, `clear_node_refusal`)

A reconcile loads the refusals, talks to the server and saves them back, all under
`RECONCILE_LOCK`. `clear_node_refusal` takes that lock; `set_push_enabled(true)` deletes the stored
refusals without it, and then waits for a reconcile of its own. Every storage access, call to the
server and move of the lock is a step.

The ghost clock counts the retry requests started, and a refusal is stamped with it when it is
recorded: it was recorded after a request started when its stamp is past the request's start.
-/

namespace MostroApp.Push

open Rows PushRegistration Interleaving Transition

/-! ## A reconcile, one call at a time -/

/-- A piece of a reconcile's work: an action of the plan, or a key to let go of. -/
inductive Work where
  | act (token : String) (platform : PushPlatform) (a : Action)
  | drop (k : String)

/-- The work of a reconcile, in order. -/
def workOf (hash : String → String) (state : PushState) (wanted : Wanted) (now : Int64) :
    List Work :=
  match state.token, state.platform, state.enabled with
  | some token, some platform, true =>
      (plan wanted state.registrations (hash token) state.refusals now).map (.act token platform)
  | _, _, _ => (state.registrations.keys.insertionSort fun a b => a ≤ b).map .drop

def Work.apply (hash : String → String) (server : Server) (now : Int64) (c : Core) : Work → Core
  | .act token platform a => c.apply server token (hash token) platform now a
  | .drop k => c.drop server now k

/-- The end of a reconcile: one that went by the plan drops the old refusals. -/
def Core.settle (now : Int64) (c : Core) : Core :=
  if c.state.active then
    { c with
      state := { c.state with
        refusals := retain (fun refusedAt => now - refusedAt < 2 * NODE_REFUSAL_SECS)
          c.state.refusals } }
  else c

/-! ## Copies of the refusals -/

/-- A retry request: for one node's refusal or for all, with the ghost clock at its start. -/
structure Request where
  node : Option String
  start : Nat
deriving DecidableEq

/-- Refusals, stored or in memory, with the stamp of each. -/
structure Copy where
  refusals : Refusals
  stamps : String → Nat

/-- The request is about the node. -/
def Request.Covers (r : Request) (n : String) : Prop := r.node = none ∨ r.node = some n

instance (r : Request) (n : String) : Decidable (r.Covers n) :=
  inferInstanceAs (Decidable (_ ∨ _))

/-- No refusal the request is about was recorded before it started. -/
def Request.Clean (r : Request) (q : Copy) : Prop :=
  ∀ n ∈ q.refusals.keys, r.Covers n → r.start < q.stamps n

instance (r : Request) (q : Copy) : Decidable (r.Clean q) :=
  inferInstanceAs (Decidable (∀ n ∈ q.refusals.keys, r.Covers n → r.start < q.stamps n))

/-- A refusal of the node suppresses its registrations. -/
def Suppressed (refusals : Refusals) (now : Int64) (node : String) : Prop :=
  (refusals.lookup node).any (fun refusedAt => refusalActive refusedAt now) = true

/-- The stamps after a piece of work. -/
def Work.stamp (outcome : ServerOutcome) (clock : Nat) (stamps : String → Nat) :
    Work → String → Nat
  | .act _ _ (.register _ node) =>
      if outcome = .refused then Function.update stamps node clock else stamps
  | _ => stamps

/-! ## The tasks -/

/-- The settings store, the lock, and as ghosts the stamps of the stored refusals, the clock, the
requests that have cleared what they are about and those that have completed. -/
structure PushStore where
  enabled : Bool := true
  token : Option String := none
  platform : Option PushPlatform := none
  registrations : Registrations := ∅
  refusals : Refusals := ∅
  locked : Bool := false
  stamps : String → Nat := fun _ => 0
  clock : Nat := 0
  cleared : List Request := []
  done : List Request := []

def PushStore.copy (s : PushStore) : Copy := ⟨s.refusals, s.stamps⟩

/-- Whose reconcile it is: a trigger's, that of a `set_push_enabled(true)`, or
`unregister_all`. -/
inductive Errand where
  | trigger
  | enabled (start : Nat)
  | wipe
deriving DecidableEq

/-- The request that completes with the errand. -/
def Errand.request : Errand → Option Request
  | .enabled start => some ⟨none, start⟩
  | _ => none

/-- What a task does next. -/
inductive PushTask where
  | disables
  | enables
  | deletes (start : Nat)
  | waits (e : Errand)
  | loads (e : Errand)
  | loadsRefusals (e : Errand) (state : PushState) (now : Int64)
  | plans (e : Errand) (state : PushState) (stamps : String → Nat) (now : Int64)
  | calls (e : Errand) (work : List Work) (c : Core) (stamps : String → Nat) (now : Int64)
  | saves (e : Errand) (c : Core) (stamps : String → Nat)
  | savesRefusals (e : Errand) (c : Core) (stamps : String → Nat)
  | ends (e : Errand)
  | clears (node : String)
  | clearsWaits (start : Nat) (node : String)
  | clearsReads (start : Nat) (node : String)
  | clearsWrites (start : Nat) (node : String) (refusals : Refusals) (stamps : String → Nat)
  | clearsEnds (start : Nat) (node : String)

/-- What a step learns from outside: whether its storage access succeeds (for the load of the
other settings, which of them do), the clock, the wanted set, the server's answer, and whether
another reconcile was asked for meanwhile. -/
structure PushOracle where
  ok : Bool := true
  okEnabled : Bool := true
  okToken : Bool := true
  okPlatform : Bool := true
  okRegistrations : Bool := true
  now : Int64 := 0
  wanted : Wanted := ∅
  outcome : ServerOutcome := .accepted
  again : Bool := false

/-- `load_state`, all but the refusals. A setting that cannot be read has its default. -/
def PushStore.load (w : PushOracle) (s : PushStore) : PushState where
  enabled := if w.okEnabled then s.enabled else true
  token := if w.okToken then s.token.filter fun t => t != "" else none
  platform := if w.okPlatform then s.platform else none
  registrations := if w.okRegistrations then s.registrations else ∅
  refusals := ∅

/-- `unregister_all` reconciles as if push were disabled, -/
def Errand.before (e : Errand) (state : PushState) : PushState :=
  if e = .wipe then { state with enabled := false } else state

/-- and saves empty maps. -/
def Errand.after (e : Errand) (c : Core) : Core :=
  if e = .wipe then { c with state := { c.state with registrations := ∅, refusals := ∅ } } else c

variable (hash : String → String)

/-- One step of a task. The node of `clear_node_refusal` is in lower case. -/
def PushTask.step (w : PushOracle) : PushTask → PushStore → Option (PushStore × Option PushTask)
  | .disables, s =>
      if w.ok then some ({ s with enabled := false }, some (.waits .trigger)) else some (s, none)
  | .enables, s =>
      let t := { s with clock := s.clock + 1 }
      if w.ok then some ({ t with enabled := true }, some (.deletes s.clock)) else some (t, none)
  | .deletes start, s =>
      if w.ok then
        some ({ s with refusals := ∅, cleared := ⟨none, start⟩ :: s.cleared },
          some (.waits (.enabled start)))
      else some (s, none)
  | .waits e, s =>
      if s.locked then none else some ({ s with locked := true }, some (.loads e))
  | .loads e, s => some (s, some (.loadsRefusals e (s.load w) w.now))
  | .loadsRefusals e state now, s =>
      let refusals := if w.ok then s.refusals else ∅
      some (s, some (.plans e (e.before { state with refusals := refusals }) s.stamps now))
  | .plans e state stamps now, s =>
      let wanted := if state.enabled && state.token.isSome then w.wanted else ∅
      some (s, some (.calls e (workOf hash state wanted now) ⟨state, {}, []⟩ stamps now))
  | .calls e (x :: work) c stamps now, s =>
      some (s, some (.calls e work (x.apply hash (fun _ => w.outcome) now c)
        (x.stamp w.outcome s.clock stamps) now))
  | .calls e [] c stamps now, s => some (s, some (.saves e (e.after (c.settle now)) stamps))
  | .saves e c stamps, s =>
      let registrations := if w.ok then c.state.registrations else s.registrations
      some ({ s with registrations := registrations }, some (.savesRefusals e c stamps))
  | .savesRefusals e c stamps, s =>
      let t := if w.ok then { s with refusals := c.state.refusals, stamps := stamps } else s
      some (t, some (.ends e))
  | .ends e, s =>
      if w.again && e != .wipe then some (s, some (.loads e))
      else some ({ s with locked := false, done := e.request.toList ++ s.done }, none)
  | .clears node, s => some ({ s with clock := s.clock + 1 }, some (.clearsWaits s.clock node))
  | .clearsWaits start node, s =>
      if s.locked then none else some ({ s with locked := true }, some (.clearsReads start node))
  | .clearsReads start node, s =>
      let refusals := if w.ok then s.refusals else ∅
      if (refusals.lookup node).isSome then
        some (s, some (.clearsWrites start node (refusals.erase node) s.stamps))
      else
        some ({ s with cleared := ⟨some node, start⟩ :: s.cleared }, some (.clearsEnds start node))
  | .clearsWrites start node refusals stamps, s =>
      let t := if w.ok then { s with refusals := refusals, stamps := stamps } else s
      some ({ t with cleared := ⟨some node, start⟩ :: s.cleared }, some (.clearsEnds start node))
  | .clearsEnds start node, s =>
      some ({ s with locked := false, done := ⟨some node, start⟩ :: s.done }, none)

/-- Where the calls begin. -/
def PushTask.starts : PushTask → Bool
  | .disables | .enables | .waits .trigger | .waits .wipe | .clears _ => true
  | _ => false

/-- A new device token, or none any more. -/
inductive PushAction where
  | token (token : Option String) (platform : Option PushPlatform)

/-- Any number of reconciles and requests. -/
def pushProg : Prog PushStore PushTask PushOracle PushAction where
  enter := PushTask.starts
  tstep w p s := p.step hash w s
  act
    | .token token platform, s => some { s with token := token, platform := platform }

/-! ## Retry requests in their turn -/

/-- The copy of the refusals a task has and may write back. -/
def PushTask.copy : PushTask → Option Copy
  | .plans _ state stamps _ => some ⟨state.refusals, stamps⟩
  | .calls _ _ c stamps _ => some ⟨c.state.refusals, stamps⟩
  | .saves _ c stamps => some ⟨c.state.refusals, stamps⟩
  | .savesRefusals _ c stamps => some ⟨c.state.refusals, stamps⟩
  | .clearsWrites _ _ refusals stamps => some ⟨refusals, stamps⟩
  | _ => none

/-- The stored refusals are deleted while no task has a copy with a refusal recorded before the
request; and an access of `clear_node_refusal` to the refusals fails only when there is none to
clear. -/
structure InTurn (c : Pool PushStore PushTask) (l : Label PushTask PushOracle PushAction) :
    Prop where
  deletes : ∀ i w start, l = .step i w → c.threads i = some (.deletes start) → w.ok = true →
    ∀ j p q, c.threads j = some p → p.copy = some q → Request.Clean ⟨none, start⟩ q
  reads : ∀ i w start node, l = .step i w → c.threads i = some (.clearsReads start node) →
    w.ok = false → Request.Clean ⟨some node, start⟩ c.shared.copy
  writes : ∀ i w start node refusals stamps, l = .step i w →
    c.threads i = some (.clearsWrites start node refusals stamps) → w.ok = false →
    Request.Clean ⟨some node, start⟩ c.shared.copy

/-! ## The steps make up a reconcile -/

variable {hash} {server : Server} {now : Int64} {state : PushState} {wanted : Wanted} {k : String}

namespace Core

variable {token tokenHash : String} {platform : PushPlatform}

theorem active_noteFailure (c : Core) (k : String) (outcome : ServerOutcome) :
    (c.noteFailure k outcome now).state.active = c.state.active := by
  unfold noteFailure
  cases outcome.failure <;> rfl

theorem active_unregister (c : Core) (k : String) :
    (c.unregister server now k).state.active = c.state.active := by
  unfold unregister
  cases server (.unregister k) with
  | accepted => rfl
  | refused | rateLimited | badRequest | failed => exact active_noteFailure ..

theorem active_apply (c : Core) (a : Action) :
    (c.apply server token tokenHash platform now a).state.active = c.state.active := by
  cases a with
  | register k node =>
      unfold apply
      dsimp only
      cases server (.register k token platform node) with
      | accepted | refused => rfl
      | rateLimited | badRequest | failed =>
          -- The row is written without a word on what is active.
          dsimp only
          rw [active_noteFailure]
          rfl
  | unregister k => exact active_unregister c k
  | noteUnwanted k | noteWanted k | forget k => rfl

end Core

theorem Work.active_apply (x : Work) (c : Core) :
    (x.apply hash server now c).state.active = c.state.active := by
  cases x with
  | act token platform a => exact c.active_apply a
  | drop k =>
      show (Core.drop server now c k).state.active = _
      unfold Core.drop
      split
      · exact c.active_unregister k
      · rfl

/-- **A reconcile taken step by step**, against a server that answers each call as it did then,
is the reconcile. -/
theorem reconcileCore_eq_settle : reconcileCore hash server state wanted now =
    ((workOf hash state wanted now).foldl (Work.apply hash server now)
      ⟨state, {}, []⟩).settle now := by
  have hactive : ((workOf hash state wanted now).foldl (Work.apply hash server now)
      ⟨state, {}, []⟩).state.active = state.active :=
    List.foldlRecOn (motive := fun c : Core => c.state.active = state.active) _ _ rfl
      fun c hc x _ => (x.active_apply c).trans hc
  unfold Core.settle
  rw [hactive]
  cases hact : state.active with
  | true =>
      obtain ⟨token, platform, ht, hp, he⟩ := PushState.active_iff.mp hact
      unfold reconcileCore workOf
      rw [ht, hp, he]
      simp only [List.foldl_map]
      rfl
  | false =>
      have hwork : workOf hash state wanted now =
          (state.registrations.keys.insertionSort fun a b => a ≤ b).map .drop := by
        unfold workOf
        split
        · rename_i ht hp he
          exact absurd (PushState.active_iff.mpr ⟨_, _, ht, hp, he⟩) (by simp [hact])
        · rfl
      rw [reconcileCore_off hact, hwork, List.foldl_map]
      rfl

/-- A suppressed node's keys are not registered. -/
theorem Suppressed.not_register {registrations : Registrations} {tokenHash node : String}
    {refusals : Refusals} (h : Suppressed refusals now node) (hkeyed : Keyed registrations) :
    .register k node ∉ plan wanted registrations tokenHash refusals now := by
  intro hmem
  have hfor : .register k node ∈ planFor wanted registrations tokenHash refusals now k :=
    mem_planFor hkeyed hmem
  have hwanted := wanted_of_register hkeyed hmem
  unfold planFor at hfor
  cases hw : wanted.lookup k with
  | none => exact hwanted hw
  | some node' =>
      simp only [hw] at hfor
      rcases mem_planWanted hfor with hf | hf
      · cases hf
      · obtain rfl := (Action.register.inj hf).2
        have hnone : registers (registrations.lookup k) tokenHash refusals now node = false := by
          have h : ((refusals.lookup node).any fun refusedAt => refusalActive refusedAt now) =
            true := h
          unfold registers
          rw [h]
          rfl
        rw [planWanted_eq, hnone, if_neg Bool.false_ne_true, List.append_nil] at hfor
        split at hfor
        · cases List.mem_singleton.mp hfor
        · cases hfor

/-! ## Copies stay clean -/

variable {r : Request} {q q' : Copy} {outcome : ServerOutcome} {clock : Nat}

/-- A copy whose refusals are another's, or were recorded after the request started. -/
theorem Request.Clean.of_lookup (h : r.Clean q)
    (hq : ∀ n, q'.refusals.lookup n ≠ none →
      (q.refusals.lookup n ≠ none ∧ q'.stamps n = q.stamps n) ∨ r.start < q'.stamps n) :
    r.Clean q' := by
  intro n hn hcovers
  have hsome : q'.refusals.lookup n ≠ none := fun hnone =>
    AList.lookup_eq_none.mp hnone (AList.mem_keys.mpr hn)
  rcases hq n hsome with ⟨hold, hstamp⟩ | hlater
  · have hmem : n ∈ q.refusals.keys := by
      by_contra hno
      exact hold (AList.lookup_eq_none.mpr fun h => hno (AList.mem_keys.mp h))
    exact hstamp ▸ h n hmem hcovers
  · exact hlater

theorem clean_empty (r : Request) (stamps : String → Nat) : r.Clean ⟨∅, stamps⟩ :=
  fun _ hn => nomatch hn

/-- The refusals after a piece of work: one more when a registration was refused. -/
theorem Work.refusals_apply (x : Work) (c : Core) (stamps : String → Nat) :
    (x.apply hash (fun _ => outcome) now c).state.refusals = c.state.refusals ∧
        x.stamp outcome clock stamps = stamps ∨
      ∃ node, (x.apply hash (fun _ => outcome) now c).state.refusals =
          c.state.refusals.insert node now ∧
        x.stamp outcome clock stamps = Function.update stamps node clock := by
  cases x with
  | drop k =>
      refine Or.inl ⟨?_, rfl⟩
      show (Core.drop _ now c k).state.refusals = _
      unfold Core.drop
      split
      · exact c.refusals_unregister k
      · rfl
  | act token platform a =>
      cases a with
      | unregister k => exact Or.inl ⟨c.refusals_unregister k, rfl⟩
      | noteUnwanted k | noteWanted k | forget k => exact Or.inl ⟨rfl, rfl⟩
      | register k node =>
          cases outcome with
          | refused => exact Or.inr ⟨node, rfl, rfl⟩
          | accepted => exact Or.inl ⟨rfl, rfl⟩
          | rateLimited | badRequest | failed =>
              exact Or.inl ⟨Core.refusals_noteFailure .., rfl⟩

theorem Request.Clean.work {c : Core} {stamps : String → Nat}
    (h : r.Clean ⟨c.state.refusals, stamps⟩) (hclock : r.start < clock) (x : Work) :
    r.Clean ⟨(x.apply hash (fun _ => outcome) now c).state.refusals,
      x.stamp outcome clock stamps⟩ := by
  have hwork : (x.apply hash (fun _ => outcome) now c).state.refusals = _ ∧
      x.stamp outcome clock stamps = _ ∨ _ := x.refusals_apply c stamps
  rcases hwork with ⟨he, hs⟩ | ⟨node, he, hs⟩ <;> rw [he, hs]
  · exact h
  · refine h.of_lookup fun n hn => ?_
    by_cases hnode : n = node
    · subst hnode
      exact Or.inr (by simpa using hclock)
    · rw [AList.lookup_insert_ne hnode] at hn
      exact Or.inl ⟨hn, Function.update_of_ne hnode ..⟩

theorem Request.Clean.settle {c : Core} {stamps : String → Nat}
    (h : r.Clean ⟨c.state.refusals, stamps⟩) :
    r.Clean ⟨(c.settle now).state.refusals, stamps⟩ := by
  unfold Core.settle
  split
  · refine h.of_lookup fun n hn => Or.inl ⟨fun hnone => hn ?_, rfl⟩
    rw [lookup_retain, hnone]
    rfl
  · exact h

theorem Request.Clean.after {c : Core} {stamps : String → Nat}
    (h : r.Clean ⟨c.state.refusals, stamps⟩) (e : Errand) :
    r.Clean ⟨(e.after c).state.refusals, stamps⟩ := by
  unfold Errand.after
  split
  · exact clean_empty r stamps
  · exact h

/-- Without the refusal of its node, nothing is left that the request is about. -/
theorem clean_of_lookup_eq_none {start : Nat} {node : String}
    (h : q.refusals.lookup node = none) : Request.Clean ⟨some node, start⟩ q := by
  intro n hn hcovers
  have hnode : node = n := Option.some.inj (hcovers.resolve_left nofun)
  exact absurd (AList.mem_keys.mpr hn) (AList.lookup_eq_none.mp (hnode ▸ h))

/-! ## The lock -/

/-- The task has `RECONCILE_LOCK`. -/
def PushTask.holds : PushTask → Bool
  | .disables | .enables | .deletes _ | .waits _ | .clears _ | .clearsWaits .. => false
  | _ => true

variable {w : PushOracle} {p : PushTask} {s t : PushStore} {o : Option PushTask}

theorem PushTask.holds_of_copy (h : p.copy = some q) : p.holds = true := by
  cases p <;> first | rfl | cases h

/-- What a step does, by where the task stands and whether the storage answers. -/
inductive PushTask.Steps (hash : String → String) (w : PushOracle) (s : PushStore) :
    PushTask → PushStore → Option PushTask → Prop
  | disables (hok : w.ok = true) :
      Steps hash w s .disables { s with enabled := false } (some (.waits .trigger))
  | disablesFails (hok : w.ok = false) : Steps hash w s .disables s none
  | enables (hok : w.ok = true) :
      Steps hash w s .enables { s with clock := s.clock + 1, enabled := true }
        (some (.deletes s.clock))
  | enablesFails (hok : w.ok = false) :
      Steps hash w s .enables { s with clock := s.clock + 1 } none
  | deletes (start : Nat) (hok : w.ok = true) :
      Steps hash w s (.deletes start)
        { s with refusals := ∅, cleared := ⟨none, start⟩ :: s.cleared }
        (some (.waits (.enabled start)))
  | deletesFails (start : Nat) (hok : w.ok = false) : Steps hash w s (.deletes start) s none
  | waits (e : Errand) (hfree : s.locked = false) :
      Steps hash w s (.waits e) { s with locked := true } (some (.loads e))
  | loads (e : Errand) : Steps hash w s (.loads e) s (some (.loadsRefusals e (s.load w) w.now))
  | loadsRefusals (e : Errand) (state : PushState) (now : Int64) :
      Steps hash w s (.loadsRefusals e state now) s (some (.plans e
        (e.before { state with refusals := if w.ok then s.refusals else ∅ }) s.stamps now))
  | plans (e : Errand) (state : PushState) (stamps : String → Nat) (now : Int64)
      (work : List Work) :
      Steps hash w s (.plans e state stamps now) s (some (.calls e work ⟨state, {}, []⟩ stamps now))
  | calls (e : Errand) (x : Work) (work : List Work) (c : Core) (stamps : String → Nat)
      (now : Int64) :
      Steps hash w s (.calls e (x :: work) c stamps now) s
        (some (.calls e work (x.apply hash (fun _ => w.outcome) now c)
          (x.stamp w.outcome s.clock stamps) now))
  | called (e : Errand) (c : Core) (stamps : String → Nat) (now : Int64) :
      Steps hash w s (.calls e [] c stamps now) s (some (.saves e (e.after (c.settle now)) stamps))
  | saves (e : Errand) (c : Core) (stamps : String → Nat) :
      Steps hash w s (.saves e c stamps)
        { s with registrations := if w.ok then c.state.registrations else s.registrations }
        (some (.savesRefusals e c stamps))
  | savesRefusals (e : Errand) (c : Core) (stamps : String → Nat) (hok : w.ok = true) :
      Steps hash w s (.savesRefusals e c stamps)
        { s with refusals := c.state.refusals, stamps := stamps } (some (.ends e))
  | savesRefusalsFails (e : Errand) (c : Core) (stamps : String → Nat) (hok : w.ok = false) :
      Steps hash w s (.savesRefusals e c stamps) s (some (.ends e))
  | again (e : Errand) : Steps hash w s (.ends e) s (some (.loads e))
  | ends (e : Errand) :
      Steps hash w s (.ends e)
        { s with locked := false, done := e.request.toList ++ s.done } none
  | clears (node : String) :
      Steps hash w s (.clears node) { s with clock := s.clock + 1 }
        (some (.clearsWaits s.clock node))
  | clearsWaits (start : Nat) (node : String) (hfree : s.locked = false) :
      Steps hash w s (.clearsWaits start node) { s with locked := true }
        (some (.clearsReads start node))
  | finds (start : Nat) (node : String) (refusals : Refusals)
      (href : refusals = if w.ok then s.refusals else ∅)
      (hsome : (refusals.lookup node).isSome = true) :
      Steps hash w s (.clearsReads start node) s
        (some (.clearsWrites start node (refusals.erase node) s.stamps))
  | findsNone (start : Nat) (node : String) (refusals : Refusals)
      (href : refusals = if w.ok then s.refusals else ∅) (hnone : refusals.lookup node = none) :
      Steps hash w s (.clearsReads start node)
        { s with cleared := ⟨some node, start⟩ :: s.cleared } (some (.clearsEnds start node))
  | clearsWrites (start : Nat) (node : String) (refusals : Refusals) (stamps : String → Nat)
      (hok : w.ok = true) :
      Steps hash w s (.clearsWrites start node refusals stamps)
        { s with
          refusals := refusals, stamps := stamps, cleared := ⟨some node, start⟩ :: s.cleared }
        (some (.clearsEnds start node))
  | clearsWritesFails (start : Nat) (node : String) (refusals : Refusals) (stamps : String → Nat)
      (hok : w.ok = false) :
      Steps hash w s (.clearsWrites start node refusals stamps)
        { s with cleared := ⟨some node, start⟩ :: s.cleared } (some (.clearsEnds start node))
  | clearsEnds (start : Nat) (node : String) :
      Steps hash w s (.clearsEnds start node)
        { s with locked := false, done := ⟨some node, start⟩ :: s.done } none

/-- **The steps of a task are these.** -/
theorem PushTask.step_cases (h : p.step hash w s = some (t, o)) : p.Steps hash w s t o := by
  cases p with
  | disables =>
      simp only [PushTask.step] at h
      split at h <;> cases h
      · next hok => exact .disables hok
      · next hok => exact .disablesFails (Bool.not_eq_true _ ▸ hok)
  | enables =>
      simp only [PushTask.step] at h
      split at h <;> cases h
      · next hok => exact .enables hok
      · next hok => exact .enablesFails (Bool.not_eq_true _ ▸ hok)
  | deletes start =>
      simp only [PushTask.step] at h
      split at h <;> cases h
      · next hok => exact .deletes start hok
      · next hok => exact .deletesFails start (Bool.not_eq_true _ ▸ hok)
  | waits e =>
      simp only [PushTask.step] at h
      split at h <;> cases h
      next hfree => exact .waits e (Bool.not_eq_true _ ▸ hfree)
  | loads e =>
      cases h
      exact .loads e
  | loadsRefusals e state now =>
      cases h
      exact .loadsRefusals e state now
  | plans e state stamps now =>
      cases h
      exact .plans e state stamps now _
  | calls e work c stamps now =>
      cases work with
      | cons x work =>
          cases h
          exact .calls e x work c stamps now
      | nil =>
          cases h
          exact .called e c stamps now
  | saves e c stamps =>
      cases h
      exact .saves e c stamps
  | savesRefusals e c stamps =>
      cases h
      cases hok : w.ok with
      | true => exact .savesRefusals e c stamps hok
      | false => exact .savesRefusalsFails e c stamps hok
  | ends e =>
      simp only [PushTask.step] at h
      split at h <;> cases h
      · exact .again e
      · exact .ends e
  | clears node =>
      cases h
      exact .clears node
  | clearsWaits start node =>
      simp only [PushTask.step] at h
      split at h <;> cases h
      next hfree => exact .clearsWaits start node (Bool.not_eq_true _ ▸ hfree)
  | clearsReads start node =>
      simp only [PushTask.step] at h
      generalize href : (if w.ok = true then s.refusals else ∅) = refusals at h
      split at h <;> cases h
      · next hsome => exact .finds start node refusals href.symm hsome
      · next hnone =>
        exact .findsNone start node refusals href.symm (Option.not_isSome_iff_eq_none.mp hnone)
  | clearsWrites start node refusals stamps =>
      cases h
      cases hok : w.ok with
      | true => exact .clearsWrites start node refusals stamps hok
      | false => exact .clearsWritesFails start node refusals stamps hok
  | clearsEnds start node =>
      cases h
      exact .clearsEnds start node

/-- A step of a task that has the lock keeps it or gives it back; another leaves the lock alone or
takes it while it is free. -/
theorem PushTask.step_lock (h : p.step hash w s = some (t, o)) :
    (p.holds = true ∧ t.locked = s.locked ∧ ∃ p', o = some p' ∧ p'.holds = true) ∨
      (p.holds = true ∧ o = none) ∨
      (p.holds = false ∧ t.locked = s.locked ∧ ∀ p', o = some p' → p'.holds = false) ∨
      p.holds = false ∧ s.locked = false ∧ t.locked = true ∧
        ∃ p', o = some p' ∧ p'.holds = true := by
  cases PushTask.step_cases h with
  | disables | enables | deletes | clears =>
      exact Or.inr (Or.inr (Or.inl ⟨rfl, rfl, fun p' hp => Option.some.inj hp ▸ rfl⟩))
  | disablesFails | enablesFails | deletesFails =>
      refine Or.inr (Or.inr (Or.inl ⟨rfl, rfl, fun p' hp => ?_⟩))
      cases hp
  | waits e hfree => exact Or.inr (Or.inr (Or.inr ⟨rfl, hfree, rfl, _, rfl, rfl⟩))
  | clearsWaits start node hfree =>
      exact Or.inr (Or.inr (Or.inr ⟨rfl, hfree, rfl, _, rfl, rfl⟩))
  | loads | loadsRefusals | plans | calls | called | saves | savesRefusals | savesRefusalsFails
  | again | finds | findsNone | clearsWrites | clearsWritesFails =>
      exact Or.inl ⟨rfl, rfl, _, rfl, rfl⟩
  | ends | clearsEnds => exact Or.inr (Or.inl ⟨rfl, rfl⟩)

theorem pushMutex (hash : String → String) :
    Mutex (pushProg hash) PushStore.locked PushTask.holds := by
  constructor
  · intro p hp
    cases p with
    | disables | enables | waits e | clears node => rfl
    | deletes | loads | loadsRefusals | plans | calls | saves | savesRefusals | ends
    | clearsWaits | clearsReads | clearsWrites | clearsEnds => cases hp
  · intro w p s t q h hp hq
    rcases PushTask.step_lock h with ⟨hp', -⟩ | ⟨hp', -⟩ | ⟨-, -, hno⟩ | ⟨-, hfree, htaken, -⟩
    · exact absurd (hp.symm.trans hp') nofun
    · exact absurd (hp.symm.trans hp') nofun
    · exact absurd ((hno q rfl).symm.trans hq) nofun
    · exact ⟨hfree, htaken⟩
  · intro w p s t q h hp hq
    rcases PushTask.step_lock h with ⟨-, hsame, -⟩ | ⟨-, hnone⟩ | ⟨hp', -⟩ | ⟨hp', -⟩
    · exact hsame
    · cases hnone
    · exact absurd (hp.symm.trans hp') nofun
    · exact absurd (hp.symm.trans hp') nofun
  · intro w p s t q h hp hq
    rcases PushTask.step_lock h with
      ⟨hp', -⟩ | ⟨hp', -⟩ | ⟨-, hsame, -⟩ | ⟨-, -, -, p', ho, hp'⟩
    · exact absurd (hp.symm.trans hp') nofun
    · exact absurd (hp.symm.trans hp') nofun
    · exact hsame
    · exact absurd ((hq p' ho).symm.trans hp') nofun
  · intro a s t h
    cases a with
    | token token platform => exact Option.some.inj h ▸ rfl

/-! ## No copy brings a refusal back -/

/-- The request a task is carrying out. -/
def PushTask.asked : PushTask → Option Request
  | .deletes start => some ⟨none, start⟩
  | .clearsWaits start node => some ⟨some node, start⟩
  | .clearsReads start node => some ⟨some node, start⟩
  | .clearsWrites start node _ _ => some ⟨some node, start⟩
  | _ => none

/-- The request that completes when the task ends. -/
def PushTask.completes : PushTask → Option Request
  | .waits e | .loads e | .ends e => e.request
  | .loadsRefusals e _ _ => e.request
  | .plans e _ _ _ => e.request
  | .calls e _ _ _ _ => e.request
  | .saves e _ _ | .savesRefusals e _ _ => e.request
  | .clearsEnds start node => some ⟨some node, start⟩
  | _ => none

/-- What is stored is clean of what was cleared. -/
structure PushStore.Inv (s : PushStore) : Prop where
  clean : ∀ r ∈ s.cleared, r.Clean s.copy
  started : ∀ r ∈ s.cleared, r.start < s.clock
  done : ∀ r ∈ s.done, r ∈ s.cleared

/-- So is a task's copy. -/
structure PushTask.Inv (p : PushTask) (s : PushStore) : Prop where
  clean : ∀ q, p.copy = some q → ∀ r ∈ s.cleared, r.Clean q
  started : ∀ r, p.asked = some r → r.start < s.clock
  completes : ∀ r, p.completes = some r → r ∈ s.cleared
  erased : ∀ start node refusals stamps, p = .clearsWrites start node refusals stamps →
    refusals.lookup node = none

/-- A task without a copy or a request has nothing to keep clean. -/
theorem PushTask.Inv.plain (hcopy : p.copy = none) (hasked : p.asked = none)
    (hcompletes : ∀ r, p.completes = some r → r ∈ s.cleared) : p.Inv s := by
  refine ⟨fun q hq => ?_, fun r hr => ?_, hcompletes, ?_⟩
  · exact absurd (hcopy.symm.trans hq) nofun
  · exact absurd (hasked.symm.trans hr) nofun
  · rintro start node refusals stamps rfl
    cases hcopy

/-- Which request a step clears. -/
def PushTask.clearing (w : PushOracle) (s : PushStore) : PushTask → Option Request
  | .deletes start => if w.ok then some ⟨none, start⟩ else none
  | .clearsReads start node =>
      if ((if w.ok then s.refusals else ∅).lookup node).isSome then none
      else some ⟨some node, start⟩
  | .clearsWrites start node _ _ => some ⟨some node, start⟩
  | _ => none

/-- The ghosts after a step: the clock does not go back, and a request is cleared when it was
asked for and completes when it was cleared. -/
theorem PushTask.step_ghosts (h : p.step hash w s = some (t, o)) :
    s.clock ≤ t.clock ∧ t.cleared = (p.clearing w s).toList ++ s.cleared ∧
      (t.done = s.done ∨ t.done = p.completes.toList ++ s.done) := by
  cases PushTask.step_cases h with
  | disables | disablesFails | waits | loads | loadsRefusals | plans | calls | called | saves
  | savesRefusals | savesRefusalsFails | again | clearsWaits | clearsWrites | clearsWritesFails =>
      exact ⟨le_rfl, rfl, Or.inl rfl⟩
  | enables | enablesFails | clears => exact ⟨Nat.le_succ _, rfl, Or.inl rfl⟩
  | deletes start hok => exact ⟨le_rfl, by simp [PushTask.clearing, hok], Or.inl rfl⟩
  | deletesFails start hok => exact ⟨le_rfl, by simp [PushTask.clearing, hok], Or.inl rfl⟩
  | ends | clearsEnds => exact ⟨le_rfl, rfl, Or.inr rfl⟩
  | finds start node refusals href hsome =>
      subst href
      exact ⟨le_rfl, by simp [PushTask.clearing, hsome], Or.inl rfl⟩
  | findsNone start node refusals href hnone =>
      subst href
      exact ⟨le_rfl, by simp [PushTask.clearing, hnone], Or.inl rfl⟩

/-- The stored copy after a step: as it was, empty, or the task's. -/
theorem PushTask.step_copy (h : p.step hash w s = some (t, o)) :
    t.copy = s.copy ∨ (∃ start, p = .deletes start) ∧ t.refusals = ∅ ∨
      w.ok = true ∧ p.copy = some t.copy := by
  cases PushTask.step_cases h with
  | deletes start => exact Or.inr (Or.inl ⟨⟨start, rfl⟩, rfl⟩)
  | savesRefusals e c stamps hok => exact Or.inr (Or.inr ⟨hok, rfl⟩)
  | clearsWrites start node refusals stamps hok => exact Or.inr (Or.inr ⟨hok, rfl⟩)
  | _ => exact Or.inl rfl

/-- What a step clears is asked for, and no longer stored. -/
theorem PushTask.step_clears (h : p.step hash w s = some (t, o)) (hp : p.Inv s)
    (hr : p.clearing w s = some r)
    (hreads : ∀ start node, p = .clearsReads start node → w.ok = false → r.Clean s.copy)
    (hwrites : ∀ start node refusals stamps, p = .clearsWrites start node refusals stamps →
      w.ok = false → r.Clean s.copy) : p.asked = some r ∧ r.Clean t.copy := by
  cases p with
  | deletes start =>
      simp only [PushTask.step, PushTask.clearing] at h hr
      split at h
      · next hok =>
        obtain ⟨rfl, rfl⟩ := Prod.mk.inj (Option.some.inj h)
        rw [if_pos hok] at hr
        exact ⟨hr, clean_empty r s.stamps⟩
      · next hok =>
        rw [if_neg hok] at hr
        cases hr
  | clearsReads start node =>
      simp only [PushTask.clearing] at hr
      have hcopy : t.copy = s.copy := by
        rcases PushTask.step_copy h with hc | ⟨⟨_, hd⟩, -⟩ | ⟨-, hc⟩
        · exact hc
        · cases hd
        · cases hc
      rw [hcopy]
      cases hok : w.ok with
      | false =>
          have hr : some ⟨some node, start⟩ = some r := by simpa [hok] using hr
          exact ⟨hr, hreads start node rfl hok⟩
      | true =>
          rw [hok, if_pos rfl] at hr
          cases hlookup : s.refusals.lookup node with
          | some refusedAt => simp [hlookup] at hr
          | none =>
              have hr : some ⟨some node, start⟩ = some r := by simpa [hlookup] using hr
              exact ⟨hr, Option.some.inj hr ▸ clean_of_lookup_eq_none hlookup⟩
  | clearsWrites start node refusals stamps =>
      obtain rfl := Option.some.inj hr
      refine ⟨rfl, ?_⟩
      obtain ⟨rfl, rfl⟩ := Prod.mk.inj (Option.some.inj h)
      cases hok : w.ok with
      | true => exact clean_of_lookup_eq_none (hp.erased start node refusals stamps rfl)
      | false => exact hwrites start node refusals stamps rfl hok
  | disables | enables | waits | loads | loadsRefusals | plans | calls | saves | savesRefusals
  | ends | clears | clearsWaits | clearsEnds => cases hr

/-- A task with a copy and without a request of its own. -/
theorem PushTask.Inv.copied (hcopy : p.copy = some q) (hq : ∀ r ∈ s.cleared, r.Clean q)
    (hasked : p.asked = none) (hcompletes : ∀ r, p.completes = some r → r ∈ s.cleared) :
    p.Inv s := by
  refine ⟨fun q' hq' => ?_, fun r hr => ?_, hcompletes, ?_⟩
  · exact Option.some.inj (hcopy.symm.trans hq') ▸ hq
  · exact absurd (hasked.symm.trans hr) nofun
  · rintro start node refusals stamps rfl
    cases hasked

/-- What is loaded is as clean as the store; a failed load finds no refusals. -/
theorem PushStore.Inv.loaded (hs : s.Inv) (ok : Bool) :
    ∀ r ∈ s.cleared, r.Clean ⟨if ok then s.refusals else ∅, s.stamps⟩ := by
  intro r hr
  cases ok with
  | true => exact hs.clean r hr
  | false => exact clean_empty r s.stamps

/-- A task keeps its own copy clean: what it loads is, and what it records is of later. -/
theorem PushTask.step_self {p' : PushTask} (h : p.step hash w s = some (t, some p'))
    (hp : p.Inv s) (hs : s.Inv) : p'.Inv t := by
  cases PushTask.step_cases h with
  | disables => exact .plain rfl rfl nofun
  | enables => exact ⟨nofun, fun r hr => Option.some.inj hr ▸ Nat.lt_succ_self _, nofun, nofun⟩
  | deletes start => exact .plain rfl rfl fun r hr => Option.some.inj hr ▸ List.mem_cons_self
  | waits | loads | savesRefusals | savesRefusalsFails | again =>
      exact .plain rfl rfl hp.completes
  | loadsRefusals e state now =>
      refine .copied ?_ (hs.loaded w.ok) rfl hp.completes
      cases e <;> rfl
  | plans | saves => exact .copied rfl (hp.clean _ rfl) rfl hp.completes
  | calls e x work c stamps now =>
      refine .copied rfl (fun r hr => ?_) rfl hp.completes
      exact (hp.clean _ rfl r hr).work (hs.started r hr) x
  | called e c stamps now =>
      refine .copied rfl (fun r hr => ?_) rfl hp.completes
      exact (hp.clean _ rfl r hr).settle.after e
  | clears node =>
      exact ⟨nofun, fun r hr => Option.some.inj hr ▸ Nat.lt_succ_self _, nofun, nofun⟩
  | clearsWaits start node => exact ⟨nofun, hp.started, nofun, nofun⟩
  | finds start node refusals href hsome =>
      have hread := hs.loaded w.ok
      rw [← href] at hread
      refine ⟨fun q hq r hr => ?_, hp.started, nofun, ?_⟩
      · obtain rfl := Option.some.inj hq
        refine (hread r hr).of_lookup fun n hn => Or.inl ⟨fun hnone => hn ?_, rfl⟩
        by_cases hnode : n = node
        · exact hnode ▸ AList.lookup_erase node refusals
        · exact (AList.lookup_erase_ne hnode).trans hnone
      · rintro start' node' refusals' stamps' he
        obtain ⟨rfl, rfl, rfl, rfl⟩ := PushTask.clearsWrites.inj he
        exact AList.lookup_erase node refusals
  | findsNone | clearsWrites | clearsWritesFails =>
      exact .plain rfl rfl fun r hr => Option.some.inj hr ▸ List.mem_cons_self

/-- **The outline**: in their turn, no task's step leaves a refusal behind, in the store or in a
copy, that was recorded before a request that has cleared it. -/
theorem retryOutline (hash : String → String) :
    Outline (pushProg hash)
      (fun c l => c.Alone PushStore.locked PushTask.holds ∧ InTurn c l) PushStore.Inv
      PushTask.Inv := by
  have clears : ∀ {c : Pool PushStore PushTask} {i w p s o r},
      PoolInv PushStore.Inv PushTask.Inv c → InTurn c (.step i w) → c.threads i = some p →
      p.step hash w c.shared = some (s, o) → p.clearing w c.shared = some r →
      p.asked = some r ∧ r.Clean s.copy := by
    intro c i w p s o r hc hturn hp hs hr
    refine PushTask.step_clears hs (hc.threads i p hp) hr ?_ ?_
    · rintro start node rfl hok
      have hread := hturn.reads i w start node rfl hp hok
      simp only [PushTask.clearing, hok] at hr
      have hr : some ⟨some node, start⟩ = some r := by simpa using hr
      exact Option.some.inj hr ▸ hread
    · rintro start node refusals stamps rfl hok
      exact Option.some.inj hr ▸ hturn.writes i w start node refusals stamps rfl hp hok
  constructor
  · intro c i p _ _ hp _
    cases p with
    | disables | enables | clears node => exact .plain rfl rfl nofun
    | waits e =>
        cases e with
        | trigger | wipe => exact .plain rfl rfl nofun
        | enabled start => cases hp
    | deletes | loads | loadsRefusals | plans | calls | saves | savesRefusals | ends
    | clearsWaits | clearsReads | clearsWrites | clearsEnds => cases hp
  · intro c i w p s o hc hC hp hs
    obtain ⟨hclock, hcleared, hdone⟩ := PushTask.step_ghosts hs
    have hmem : ∀ r, r ∈ s.cleared → p.clearing w c.shared = some r ∨ r ∈ c.shared.cleared := by
      intro r hr
      rw [hcleared, List.mem_append, Option.mem_toList] at hr
      exact hr
    refine ⟨fun r hr => ?_, fun r hr => ?_, fun r hr => ?_⟩
    · rcases hmem r hr with hnew | hold
      · exact (clears hc hC.2 hp hs hnew).2
      · rcases PushTask.step_copy hs with he | ⟨-, he⟩ | ⟨-, he⟩
        · exact he ▸ hc.shared.clean r hold
        · show r.Clean ⟨s.refusals, s.stamps⟩
          rw [he]
          exact clean_empty r s.stamps
        · exact (hc.threads i p hp).clean _ he r hold
    · rcases hmem r hr with hnew | hold
      · exact lt_of_lt_of_le ((hc.threads i p hp).started r (clears hc hC.2 hp hs hnew).1) hclock
      · exact lt_of_lt_of_le (hc.shared.started r hold) hclock
    · rw [hcleared]
      rcases hdone with he | he <;> rw [he] at hr
      · exact List.mem_append_right _ (hc.shared.done r hr)
      · rcases List.mem_append.mp hr with hr | hr
        · exact List.mem_append_right _
            ((hc.threads i p hp).completes r (Option.mem_toList.mp hr))
        · exact List.mem_append_right _ (hc.shared.done r hr)
  · exact fun c i w p s p' hc _ hp hs => PushTask.step_self hs (hc.threads i p hp) hc.shared
  · intro c i w p s o j p' hc hC hp hs hj hp'
    obtain ⟨hclock, hcleared, -⟩ := PushTask.step_ghosts hs
    have hInv := hc.threads j p' hp'
    refine ⟨fun q hq r hr => ?_, fun r hr => lt_of_lt_of_le (hInv.started r hr) hclock,
      fun r hr => ?_, hInv.erased⟩
    · rw [hcleared, List.mem_append, Option.mem_toList] at hr
      rcases hr with hnew | hold
      · -- A deletion finds the copy clean; under the lock there is no other copy.
        have hnew' := (clears hc hC.2 hp hs hnew).1
        cases p with
        | deletes start =>
            obtain rfl := Option.some.inj hnew'
            cases hok : w.ok with
            | true => exact hC.2.deletes i w start rfl hp hok j p' q hp' hq
            | false => simp [PushTask.clearing, hok] at hnew
        | clearsReads | clearsWrites =>
            have hfree := hC.1.not_holds hp rfl hp' hj
            exact absurd (hfree.symm.trans (PushTask.holds_of_copy hq)) nofun
        | disables | enables | waits | loads | loadsRefusals | plans | calls | saves
        | savesRefusals | ends | clears | clearsWaits | clearsEnds => cases hnew
      · exact hInv.clean q hq r hold
    · rw [hcleared]
      exact List.mem_append_right _ (hInv.completes r hr)
  · intro c a s hc _ h
    cases a with
    | token token platform =>
        obtain rfl := Option.some.inj h
        exact ⟨hc.shared.clean, hc.shared.started, hc.shared.done⟩
  · intro c a s i p hc _ h hp
    cases a with
    | token token platform =>
        obtain rfl := Option.some.inj h
        have hInv := hc.threads i p hp
        exact ⟨hInv.clean, hInv.started, hInv.completes, hInv.erased⟩

/-! ## A completed request -/

/-- A store before any request: every refusal in it is older than every request. -/
structure PushStore.Fresh (s : PushStore) : Prop where
  clock : s.clock = 0
  stamps : ∀ n, s.stamps n = 0
  cleared : s.cleared = []
  done : s.done = []

/-- **A retry request is not lost.** In a run whose retry requests come in their turn, whatever
refusal suppresses a node in the plan of a reconcile was recorded after every completed request
about that node had started. -/
theorem completed_request_not_suppressed (hash : String → String) {s : PushStore}
    {ls : List (Label PushTask PushOracle PushAction)} {c : Pool PushStore PushTask}
    (hs : s.Fresh) (hr : run (pushProg hash).next (Pool.idle s) ls = some c)
    (hC : Along (pushProg hash).next InTurn (Pool.idle s) ls) :
    ∀ r ∈ c.shared.done, ∀ i e state stamps now,
      c.threads i = some (.plans e state stamps now) →
      ∀ node, r.Covers node → Suppressed state.refusals now node → r.start < stamps node := by
  have hstart : PoolInv PushStore.Inv PushTask.Inv (Pool.idle s) := by
    refine poolInv_idle ⟨fun r hr => ?_, fun r hr => ?_, fun r hr => ?_⟩
    · exact absurd (hs.cleared ▸ hr) List.not_mem_nil
    · exact absurd (hs.cleared ▸ hr) List.not_mem_nil
    · exact absurd (hs.done ▸ hr) List.not_mem_nil
  have hinv := (retryOutline hash).run_inv hstart ((pushMutex hash).along (alone_idle s) hC) hr
  intro r hdone i e state stamps now hi node hcovers hsup
  have hclean := (hinv.threads i _ hi).clean _ rfl r (hinv.shared.done r hdone)
  refine hclean node ?_ hcovers
  by_contra hno
  have hnone : state.refusals.lookup node = none :=
    AList.lookup_eq_none.mpr fun h => hno (AList.mem_keys.mp h)
  exact absurd hsup (by simp [Suppressed, hnone])

/-- The request whose deletion of the stored refusals the task is at. -/
def PushTask.deletion : PushTask → Option Request
  | .deletes start => some ⟨none, start⟩
  | _ => none

/-- What `InTurn` asks of one thread's copy, where no storage access fails. -/
def InTurnAt (c : Pool PushStore PushTask) (l : Label PushTask PushOracle PushAction)
    (t : Option PushTask) : Prop :=
  match l with
  | .step i w =>
      w.ok = true ∧
        ∀ r ∈ (c.threads i).bind PushTask.deletion, ∀ q ∈ t.bind PushTask.copy, r.Clean q
  | _ => True

instance (c : Pool PushStore PushTask) (l : Label PushTask PushOracle PushAction)
    (t : Option PushTask) : Decidable (InTurnAt c l t) := by
  unfold InTurnAt
  split <;> infer_instance

theorem inTurnAt_none {c : Pool PushStore PushTask} {l : Label PushTask PushOracle PushAction}
    {t : Option PushTask} (h : InTurnAt c l t) : InTurnAt c l none := by
  cases l with
  | step i w => exact ⟨h.1, fun _ _ q hq => by cases hq⟩
  | spawn | env => trivial

theorem inTurn_of_at {c : Pool PushStore PushTask} {l : Label PushTask PushOracle PushAction}
    (h : ∀ j, InTurnAt c l (c.threads j)) : InTurn c l := by
  constructor
  · rintro i w start rfl hi - j p q hj hq
    refine (h j).2 ⟨none, start⟩ ?_ q (Option.bind_eq_some_iff.mpr ⟨p, hj, hq⟩)
    exact Option.bind_eq_some_iff.mpr ⟨_, hi, rfl⟩
  · rintro i w start node rfl - hfails
    exact absurd ((h i).1.symm.trans hfails) Bool.noConfusion
  · rintro i w start node refusals stamps rfl - hfails
    exact absurd ((h i).1.symm.trans hfails) Bool.noConfusion

/-- A node's key is wanted, and the operator has refused the node. -/
def refusedStore : PushStore where
  token := some "device-token"
  platform := some .android
  refusals := AList.singleton "node" 1000

def wantedKey : Wanted := AList.singleton "key" "node"

/-- A reconcile has loaded the refusal when `clear_node_refusal` is called, which waits for the lock
and clears what the reconcile saves. A second reconcile has the lock, and has not loaded the
refusals yet, when `set_push_enabled(true)` deletes them; it registers the key and is refused anew.
The call's own reconcile and the plan of another come after it. -/
def retriedBesideReconciles : List (Label PushTask PushOracle PushAction) :=
  [.spawn 0 (.waits .trigger), .step 0 {}, .step 0 { now := 2000 }, .step 0 {},
    .spawn 1 (.clears "node"), .step 1 {},
    .step 0 { wanted := wantedKey }, .step 0 {}, .step 0 {}, .step 0 {}, .step 0 {},
    .step 1 {}, .step 1 {}, .step 1 {}, .step 1 {},
    .spawn 0 (.waits .trigger), .step 0 {}, .spawn 1 .enables, .step 1 {}, .step 0 { now := 3000 },
    .step 1 {}, .step 0 {}, .step 0 { wanted := wantedKey }, .step 0 { outcome := .refused },
    .step 0 {}, .step 0 {}, .step 0 {}, .step 0 {},
    .step 1 {}, .step 1 { now := 4000 }, .step 1 {}, .step 1 { wanted := wantedKey }, .step 1 {},
    .step 1 {}, .step 1 {}, .step 1 {},
    .spawn 0 (.waits .trigger), .step 0 {}, .step 0 { now := 5000 }, .step 0 {}]

def digest (_ : String) : String :=
  "73fff793651a92729a8553521d5f1c55c9cb417046f1dc0f82b22fc4930b82b3"

/-- The completed requests, and of the plan a task is about to make: whether the node's refusal
suppresses it, the refusal's stamp, and the plan. -/
def planned (i : Nat) (ls : List (Label PushTask PushOracle PushAction)) :
    Option (List Request × Option (Bool × Nat × List Action)) :=
  (run (pushProg digest).next (Pool.idle refusedStore) ls).map fun c =>
    (c.shared.done, (c.threads i).bind fun
      | .plans _ state stamps now =>
          some ((state.refusals.lookup "node").any fun refusedAt => refusalActive refusedAt now,
            stamps "node",
            plan wantedKey state.registrations (digest "device-token") state.refusals now)
      | _ => none)

theorem planned_eq {i n : Nat} {ls : List (Label PushTask PushOracle PushAction)}
    {done : List Request} {acts : List Action}
    (h : planned i ls = some (done, some (true, n, acts))) :
    ∃ c, run (pushProg digest).next (Pool.idle refusedStore) ls = some c ∧ c.shared.done = done ∧
      ∃ e state stamps now, c.threads i = some (.plans e state stamps now) ∧
        Suppressed state.refusals now "node" ∧ stamps "node" = n ∧
        plan wantedKey state.registrations (digest "device-token") state.refusals now = acts := by
  obtain ⟨c, hc, hpair⟩ := Option.map_eq_some_iff.mp h
  obtain ⟨hdone, hplan⟩ := Prod.mk.inj hpair
  obtain ⟨p, hp, hp'⟩ := Option.bind_eq_some_iff.mp hplan
  cases p with
  | plans e state stamps now =>
      obtain ⟨hsup, hrest⟩ := Prod.mk.inj (Option.some.inj hp')
      obtain ⟨hstamp, hacts⟩ := Prod.mk.inj hrest
      exact ⟨c, hc, hdone, e, state, stamps, now, hp, hsup, hstamp, hacts⟩
  | disables | enables | deletes | waits | loads | loadsRefusals | calls | saves | savesRefusals
  | ends | clears | clearsWaits | clearsReads | clearsWrites | clearsEnds => cases hp'

/-- Both requests come in their turn, and the refusal in the last plan was recorded after them. -/
theorem refused_anew_beside_reconciles :
    ∃ c, run (pushProg digest).next (Pool.idle refusedStore) retriedBesideReconciles = some c ∧
      c.shared.done = [⟨none, 1⟩, ⟨some "node", 0⟩] ∧
      ∃ e state stamps now, c.threads 0 = some (.plans e state stamps now) ∧
        Suppressed state.refusals now "node" ∧ ∀ r ∈ c.shared.done, r.start < stamps "node" := by
  have hplanned : planned 0 retriedBesideReconciles =
      some ([⟨none, 1⟩, ⟨some "node", 0⟩], some (true, 2, [])) := by decide
  obtain ⟨c, hc, hdone, e, state, stamps, now, hp, hsup, -, -⟩ := planned_eq hplanned
  have hfresh : refusedStore.Fresh := ⟨rfl, fun _ => rfl, rfl, rfl⟩
  have hat : Along (pushProg digest).next (fun c l => ∀ j, InTurnAt c l (c.threads j))
      (Pool.idle refusedStore) retriedBesideReconciles :=
    along_of_below 2 (fun c l h => inTurnAt_none (h 0 (by decide))) (below_idle 2 _) rfl (by decide)
  refine ⟨c, hc, hdone, e, state, stamps, now, hp, hsup, fun r hr => ?_⟩
  refine completed_request_not_suppressed digest hfresh hc (hat.mono fun _ _ => inTurn_of_at) r hr
    0 e state stamps now hp "node" ?_ hsup
  rw [hdone] at hr
  rcases List.mem_pair.mp hr with rfl | rfl
  · exact Or.inl rfl
  · exact Or.inr rfl

/-- A reconcile has loaded the refusals; `set_push_enabled(true)` deletes the stored ones and waits
for the lock; the reconcile saves what it loaded. The call's own reconcile then runs to its end,
and another comes to its plan. -/
def deletedBeforeSave : List (Label PushTask PushOracle PushAction) :=
  [.spawn 0 (.waits .trigger), .step 0 {}, .step 0 { now := 2000 }, .step 0 {},
    .spawn 1 .enables, .step 1 {}, .step 1 {},
    .step 0 { wanted := wantedKey }, .step 0 {}, .step 0 {}, .step 0 {}, .step 0 {},
    .step 1 {}, .step 1 { now := 3000 }, .step 1 {}, .step 1 { wanted := wantedKey }, .step 1 {},
    .step 1 {}, .step 1 {}, .step 1 {},
    .spawn 2 (.waits .trigger), .step 2 {}, .step 2 { now := 4000 }, .step 2 {}]

/-- **The reconcile in flight brings the refusal back**: the call is over, and the refusal from
before it still keeps the wanted key from being registered. -/
theorem reconcile_in_flight_undoes_retry :
    ∃ c, run (pushProg digest).next (Pool.idle refusedStore) deletedBeforeSave = some c ∧
      ⟨none, 0⟩ ∈ c.shared.done ∧
      ∃ e state stamps now, c.threads 2 = some (.plans e state stamps now) ∧
        Suppressed state.refusals now "node" ∧ ¬ 0 < stamps "node" ∧
        plan wantedKey state.registrations (digest "device-token") state.refusals now = [] := by
  have hplanned : planned 2 deletedBeforeSave = some ([⟨none, 0⟩], some (true, 0, [])) := by decide
  obtain ⟨c, hc, hdone, e, state, stamps, now, hp, hsup, hstamp, hplan⟩ := planned_eq hplanned
  exact ⟨c, hc, hdone ▸ List.mem_singleton_self _, e, state, stamps, now, hp, hsup, by omega,
    hplan⟩

end MostroApp.Push
