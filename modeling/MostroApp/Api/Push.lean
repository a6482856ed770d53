import MostroApp.Mostro.Push

set_option autoImplicit false

/-! # Reconciling the push server

`reconcileCore` carries out the plan against the server and rewrites the rows by the outcomes;
disabled, or without a device token, it lets go of every row. Each action and each outcome
touches the row of its own key only, so a reconcile is followed key by key (`seen_reconcile`).
The log of the calls is a ghost: with it, a key is *held* when its last accepted call was a
registration.
-/

namespace MostroApp.Push

open Rows PushRegistration

/-! ## The server -/

inductive PushPlatform where
  | android | ios | web
deriving DecidableEq

inductive ServerOutcome where
  | accepted
  | refused
  | rateLimited (retryAfter : Option Int64)
  | badRequest (message : String)
  | failed (message : String)
deriving DecidableEq

/-- What `note_failure` makes of an outcome: the wait the server asked for and the marker. -/
def ServerOutcome.failure : ServerOutcome → Option (Option Int64 × String)
  | .rateLimited retryAfter => some (retryAfter, "PushRateLimited")
  | .badRequest _ => some (none, "PushBadRequest")
  | .failed _ => some (none, "PushServerUnreachable")
  | .accepted | .refused => none

inductive Call where
  | register (tradePubkey token : String) (platform : PushPlatform) (mostroPubkey : String)
  | unregister (tradePubkey : String)
deriving DecidableEq

def Call.key : Call → String
  | .register k _ _ _ => k
  | .unregister k => k

/-- The server during one reconcile. A reconcile makes no call twice. -/
abbrev Server := Call → ServerOutcome

/-! ## One reconcile -/

structure PushState where
  enabled : Bool
  token : Option String
  platform : Option PushPlatform
  registrations : Registrations
  refusals : Refusals

structure ReconcileReport where
  registered : Nat := 0
  unregistered : Nat := 0
  failed : Nat := 0
  refused : Nat := 0
  lastError : Option String := none
deriving DecidableEq

/-- A reconcile on its way: the state, the report and the calls made so far. -/
structure Core where
  state : PushState
  report : ReconcileReport
  calls : List (Call × ServerOutcome)

namespace Core

/-- The core after a call to the server. -/
def called (c : Core) (server : Server) (call : Call) : Core :=
  { c with calls := c.calls ++ [(call, server call)] }

def alter (c : Core) (k : String) (f : Option PushRegistration → Option PushRegistration) :
    Core :=
  { c with state := { c.state with registrations := Rows.alter k f c.state.registrations } }

end Core

/-- A failed attempt's mark on the row, if there is one. -/
def failRow (outcome : ServerOutcome) (now : Int64) (row : Option PushRegistration) :
    Option PushRegistration :=
  match outcome.failure with
  | none => row
  | some (retryAfter, _) => row.map fun r => r.noteFailed now retryAfter

namespace Core

def noteFailure (c : Core) (k : String) (outcome : ServerOutcome) (now : Int64) : Core :=
  match outcome.failure with
  | none => c
  | some (_, marker) =>
      { c.alter k (failRow outcome now) with
        report := { c.report with
          failed := c.report.failed + 1
          lastError := some marker } }

/-- `unregister`, and what its outcome leaves. -/
def unregister (server : Server) (now : Int64) (c : Core) (k : String) : Core :=
  let c := c.called server (.unregister k)
  match server (.unregister k) with
  | .accepted =>
      { c.alter k fun _ => none with
        report := { c.report with unregistered := c.report.unregistered + 1 } }
  | outcome => c.noteFailure k outcome now

/-- One key of the pass that lets go of everything. -/
def drop (server : Server) (now : Int64) (c : Core) (k : String) : Core :=
  if (c.state.registrations.lookup k).any isRegistered then c.unregister server now k
  else c.alter k fun _ => none

/-- One action of the plan. -/
def apply (server : Server) (token tokenHash : String) (platform : PushPlatform) (now : Int64)
    (c : Core) : Action → Core
  | .register k node =>
      let c := c.called server (.register k token platform node)
      match server (.register k token platform node) with
      | .accepted =>
          { c.alter k fun row =>
              some ((row.getD (pending k node)).noteAccepted node tokenHash now) with
            report := { c.report with registered := c.report.registered + 1 } }
      | .refused =>
          { c with
            state := { c.state with refusals := c.state.refusals.insert node now }
            report := { c.report with
              refused := c.report.refused + 1
              lastError := some "PushNodeRefused" } }
      | outcome =>
          (c.alter k fun row => some (row.getD (pending k node))).noteFailure k outcome now
  | .unregister k => c.unregister server now k
  | .noteUnwanted k => c.alter k (Option.map fun r => { r with unwantedSince := some now })
  | .noteWanted k => c.alter k (Option.map fun r => { r with unwantedSince := none })
  | .forget k => c.alter k fun _ => none

end Core

/-- `reconcile_core`: the state to be saved, with the report and the calls. -/
def reconcileCore (hash : String → String) (server : Server) (state : PushState)
    (wanted : Wanted) (now : Int64) : Core :=
  match state.token, state.platform, state.enabled with
  | some token, some platform, true =>
      let c := (plan wanted state.registrations (hash token) state.refusals now).foldl
        (Core.apply server token (hash token) platform now) ⟨state, {}, []⟩
      { c with
        state := { c.state with
          refusals := retain (fun refusedAt => now - refusedAt < 2 * NODE_REFUSAL_SECS)
            c.state.refusals } }
  -- Disabled, or no device token: the server should hold nothing.
  | _, _, _ =>
      (state.registrations.keys.insertionSort fun a b => a ≤ b).foldl (Core.drop server now)
        ⟨state, {}, []⟩

/-! ## What a reconcile makes of one key -/

/-- A key's row, and whether the server holds the key: whether its last accepted call was a
registration. -/
abbrev Seen := Option PushRegistration × Bool

def holdStep (k : String) (held : Bool) : Call × ServerOutcome → Bool
  | (.register k' _ _ _, .accepted) => held || k' = k
  | (.unregister k', .accepted) => held && k' ≠ k
  | _ => held

/-- Whether the key is held after the calls. -/
def heldAfter (k : String) (held : Bool) (calls : List (Call × ServerOutcome)) : Bool :=
  calls.foldl (holdStep k) held

theorem holdStep_ne {k : String} {call : Call} (h : k ≠ call.key) (held : Bool)
    (outcome : ServerOutcome) : holdStep k held (call, outcome) = held := by
  cases call with
  | register k' token platform node =>
      have hne : ¬k' = k := fun e => h e.symm
      cases outcome <;> simp [holdStep, hne]
  | unregister k' =>
      have hne : ¬k' = k := fun e => h e.symm
      cases outcome <;> simp [holdStep, hne]

/-- An unregistration's effect on its key. -/
def unregisterSeen (server : Server) (now : Int64) (k : String) (s : Seen) : Seen :=
  match server (.unregister k) with
  | .accepted => (none, false)
  | outcome => (failRow outcome now s.1, s.2)

/-- A registration's effect on its key. -/
def registerSeen (server : Server) (token tokenHash : String) (platform : PushPlatform)
    (now : Int64) (k node : String) (s : Seen) : Seen :=
  match server (.register k token platform node) with
  | .accepted => (some ((s.1.getD (pending k node)).noteAccepted node tokenHash now), true)
  | .refused => s
  | outcome => (failRow outcome now (some (s.1.getD (pending k node))), s.2)

/-- An action's effect on its key. -/
def applySeen (server : Server) (token tokenHash : String) (platform : PushPlatform)
    (now : Int64) (s : Seen) : Action → Seen
  | .register k node => registerSeen server token tokenHash platform now k node s
  | .unregister k => unregisterSeen server now k s
  | .noteUnwanted _ => (s.1.map fun r => { r with unwantedSince := some now }, s.2)
  | .noteWanted _ => (s.1.map fun r => { r with unwantedSince := none }, s.2)
  | .forget _ => (none, s.2)

/-- The effect on a key of the pass that lets go of everything. -/
def dropSeen (server : Server) (now : Int64) (k : String) (s : Seen) : Seen :=
  if s.1.any isRegistered then unregisterSeen server now k s else (none, s.2)

namespace Core

/-- What a core shows of a key, given which keys were held before it. -/
def seen (held : String → Bool) (c : Core) (k : String) : Seen :=
  (c.state.registrations.lookup k, heldAfter k (held k) c.calls)

variable {held : String → Bool} {server : Server} {token tokenHash : String}
  {platform : PushPlatform} {now : Int64}

theorem seen_alter (c : Core) (k : String)
    (f : Option PushRegistration → Option PushRegistration) :
    (c.alter k f).seen held k = (f (c.seen held k).1, (c.seen held k).2) :=
  Prod.ext (lookup_alter k f _) rfl

theorem seen_alter_ne (c : Core) {k k' : String} (h : k' ≠ k)
    (f : Option PushRegistration → Option PushRegistration) :
    (c.alter k f).seen held k' = c.seen held k' :=
  Prod.ext (lookup_alter_ne h f _) rfl

theorem seen_called (c : Core) (call : Call) (k : String) :
    (c.called server call).seen held k =
      ((c.seen held k).1, holdStep k (c.seen held k).2 (call, server call)) :=
  Prod.ext rfl (List.foldl_append ..)

theorem seen_called_ne (c : Core) {call : Call} {k : String} (h : k ≠ call.key) :
    (c.called server call).seen held k = c.seen held k := by
  rw [seen_called, holdStep_ne h]

theorem seen_noteFailure (c : Core) (k : String) (outcome : ServerOutcome) :
    (c.noteFailure k outcome now).seen held k =
      (failRow outcome now (c.seen held k).1, (c.seen held k).2) := by
  unfold noteFailure
  cases hf : outcome.failure with
  | none =>
      unfold failRow
      rw [hf]
  | some m => exact seen_alter c k (failRow outcome now)

theorem seen_noteFailure_ne (c : Core) {k k' : String} (h : k' ≠ k) (outcome : ServerOutcome) :
    (c.noteFailure k outcome now).seen held k' = c.seen held k' := by
  unfold noteFailure
  cases outcome.failure with
  | none => rfl
  | some m => exact seen_alter_ne c h (failRow outcome now)

theorem seen_unregister (c : Core) (k : String) :
    (c.unregister server now k).seen held k = unregisterSeen server now k (c.seen held k) := by
  have hcalled : (c.called server (.unregister k)).seen held k = _ := seen_called ..
  unfold unregister unregisterSeen
  cases houtcome : server (.unregister k) with
  | accepted =>
      refine (seen_alter _ k _).trans ?_
      rw [hcalled, houtcome]
      simp [holdStep]
  | refused | rateLimited | badRequest | failed =>
      refine (seen_noteFailure _ k _).trans ?_
      rw [hcalled, houtcome]
      rfl

theorem seen_unregister_ne (c : Core) {k k' : String} (h : k' ≠ k) :
    (c.unregister server now k).seen held k' = c.seen held k' := by
  have hcalled : (c.called server (.unregister k)).seen held k' = _ := seen_called_ne c h
  unfold unregister
  cases server (.unregister k) with
  | accepted => exact (seen_alter_ne _ h _).trans hcalled
  | refused | rateLimited | badRequest | failed =>
      exact (seen_noteFailure_ne _ h _).trans hcalled

theorem seen_register (c : Core) (k node : String) :
    (c.apply server token tokenHash platform now (.register k node)).seen held k =
      registerSeen server token tokenHash platform now k node (c.seen held k) := by
  have hcalled : (c.called server (.register k token platform node)).seen held k = _ :=
    seen_called ..
  show Core.seen held (match server (.register k token platform node) with
    | .accepted => _ | .refused => _ | outcome => _) k = _
  unfold registerSeen
  cases houtcome : server (.register k token platform node) with
  | accepted =>
      refine (seen_alter _ k _).trans ?_
      rw [hcalled, houtcome]
      simp [holdStep]
  | refused =>
      refine hcalled.trans ?_
      rw [houtcome]
      rfl
  | rateLimited | badRequest | failed =>
      refine (seen_noteFailure _ k _).trans ?_
      rw [seen_alter, hcalled, houtcome]
      rfl

theorem seen_register_ne (c : Core) {k k' : String} (h : k' ≠ k) (node : String) :
    (c.apply server token tokenHash platform now (.register k node)).seen held k' =
      c.seen held k' := by
  have hcalled : (c.called server (.register k token platform node)).seen held k' = _ :=
    seen_called_ne c h
  show Core.seen held (match server (.register k token platform node) with
    | .accepted => _ | .refused => _ | outcome => _) k' = _
  cases server (.register k token platform node) with
  | accepted => exact (seen_alter_ne _ h _).trans hcalled
  | refused => exact hcalled
  | rateLimited | badRequest | failed =>
      exact (seen_noteFailure_ne _ h _).trans ((seen_alter_ne _ h _).trans hcalled)

/-- Each action of the plan touches its own key. -/
theorem local_apply : Local (apply server token tokenHash platform now) (seen held) Action.key
    fun a s => applySeen server token tokenHash platform now s a := by
  constructor
  · intro c a
    cases a with
    | register k node => exact seen_register c k node
    | unregister k => exact seen_unregister c k
    | noteUnwanted k => exact seen_alter c k _
    | noteWanted k => exact seen_alter c k _
    | forget k => exact seen_alter c k _
  · intro c a k h
    cases a with
    | register k' node => exact seen_register_ne c h node
    | unregister k' => exact seen_unregister_ne c h
    | noteUnwanted k' => exact seen_alter_ne c h _
    | noteWanted k' => exact seen_alter_ne c h _
    | forget k' => exact seen_alter_ne c h _

/-- Letting go of a key touches that key. -/
theorem local_drop : Local (drop server now) (seen held) id (dropSeen server now) := by
  constructor
  · intro c k
    unfold drop dropSeen
    by_cases hreg : (c.state.registrations.lookup k).any isRegistered = true
    · rw [if_pos hreg]
      exact (seen_unregister c k).trans (if_pos hreg).symm
    · rw [if_neg hreg]
      exact (seen_alter c k _).trans (if_neg hreg).symm
  · intro c k k' h
    unfold drop
    split
    · exact seen_unregister_ne c h
    · exact seen_alter_ne c h _

end Core

variable {hash : String → String} {server : Server} {state : PushState} {wanted : Wanted}
  {now : Int64} {k : String}

/-- Whether a reconcile goes by the plan. -/
def PushState.active (state : PushState) : Bool :=
  state.enabled && state.token.isSome && state.platform.isSome

theorem PushState.active_iff : state.active = true ↔
    ∃ token platform, state.token = some token ∧ state.platform = some platform ∧
      state.enabled = true := by
  unfold PushState.active
  simp only [Bool.and_eq_true, Option.isSome_iff_exists]
  constructor
  · rintro ⟨⟨he, token, ht⟩, platform, hp⟩
    exact ⟨token, platform, ht, hp, he⟩
  · rintro ⟨token, platform, ht, hp, he⟩
    exact ⟨⟨he, token, ht⟩, platform, hp⟩

/-- A key after a reconcile by the plan. -/
theorem seen_reconcile {token : String} {platform : PushPlatform}
    (ht : state.token = some token) (hp : state.platform = some platform)
    (he : state.enabled = true) (hkeyed : Keyed state.registrations) (held : String → Bool)
    (k : String) :
    (reconcileCore hash server state wanted now).seen held k =
      (planFor wanted state.registrations (hash token) state.refusals now k).foldl
        (applySeen server token (hash token) platform now)
        (state.registrations.lookup k, held k) := by
  rw [← filter_plan hkeyed]
  unfold reconcileCore
  rw [ht, hp, he]
  exact Core.local_apply.foldl _ _ k

theorem reconcileCore_off (hoff : state.active = false) :
    reconcileCore hash server state wanted now =
      (state.registrations.keys.insertionSort fun a b => a ≤ b).foldl (Core.drop server now)
        ⟨state, {}, []⟩ := by
  unfold reconcileCore
  split
  · rename_i token platform ht hp he
    exact absurd (PushState.active_iff.mpr ⟨token, platform, ht, hp, he⟩) (by simp [hoff])
  · rfl

/-- A key after a reconcile that lets go of everything. -/
theorem seen_drop (hoff : state.active = false) (held : String → Bool) (k : String) :
    (reconcileCore hash server state wanted now).seen held k =
      match state.registrations.lookup k with
      | some r => dropSeen server now k (some r, held k)
      | none => (none, held k) := by
  have hperm := List.perm_insertionSort (fun a b : String => a ≤ b) state.registrations.keys
  have hnodup := hperm.nodup_iff.mpr state.registrations.keys_nodup
  rw [reconcileCore_off hoff, Core.local_drop.foldl]
  simp only [id_eq]
  rw [List.filter_eq]
  cases hk : state.registrations.lookup k with
  | some r =>
      have hmem : k ∈ state.registrations.keys :=
        AList.mem_keys.mp (AList.lookup_isSome.mp (by simp [hk]))
      rw [List.count_eq_one_of_mem hnodup (hperm.mem_iff.mpr hmem)]
      show dropSeen server now k (state.registrations.lookup k, held k) = _
      rw [hk]
  | none =>
      have hmem : k ∉ state.registrations.keys := fun h =>
        AList.lookup_eq_none.mp hk (AList.mem_keys.mpr h)
      rw [List.count_eq_zero_of_not_mem fun h => hmem (hperm.mem_iff.mp h)]
      show (state.registrations.lookup k, held k) = _
      rw [hk]

/-! ## The calls of a reconcile -/

/-- The call an action makes. -/
def Action.call (token : String) (platform : PushPlatform) : Action → Option Call
  | .register k node => some (.register k token platform node)
  | .unregister k => some (.unregister k)
  | _ => none

namespace Core

variable {token tokenHash : String} {platform : PushPlatform}

theorem calls_noteFailure (c : Core) (k : String) (outcome : ServerOutcome) :
    (c.noteFailure k outcome now).calls = c.calls := by
  unfold noteFailure
  cases outcome.failure <;> rfl

theorem refusals_noteFailure (c : Core) (k : String) (outcome : ServerOutcome) :
    (c.noteFailure k outcome now).state.refusals = c.state.refusals := by
  unfold noteFailure
  cases outcome.failure <;> rfl

theorem calls_unregister (c : Core) (k : String) :
    (c.unregister server now k).calls =
      c.calls ++ [(.unregister k, server (.unregister k))] := by
  show _ = (c.called server (.unregister k)).calls
  unfold unregister
  cases server (.unregister k) with
  | accepted => rfl
  | refused | rateLimited | badRequest | failed => exact calls_noteFailure ..

theorem refusals_unregister (c : Core) (k : String) :
    (c.unregister server now k).state.refusals = c.state.refusals := by
  unfold unregister
  cases server (.unregister k) with
  | accepted => rfl
  | refused | rateLimited | badRequest | failed => exact refusals_noteFailure ..

theorem calls_apply (c : Core) (a : Action) :
    (c.apply server token tokenHash platform now a).calls =
      c.calls ++ ((a.call token platform).map fun call => (call, server call)).toList := by
  cases a with
  | register k node =>
      show Core.calls (match server (.register k token platform node) with
        | .accepted => _ | .refused => _ | outcome => _) =
          (c.called server (.register k token platform node)).calls
      cases server (.register k token platform node) with
      | accepted | refused => rfl
      | rateLimited | badRequest | failed => exact calls_noteFailure ..
  | unregister k => exact calls_unregister c k
  | noteUnwanted k | noteWanted k | forget k => exact (List.append_nil _).symm

theorem refusals_apply (c : Core) (a : Action)
    (h : ∀ call, a.call token platform = some call → server call = .accepted) :
    (c.apply server token tokenHash platform now a).state.refusals = c.state.refusals := by
  cases a with
  | register k node =>
      show (Core.state (match server (.register k token platform node) with
        | .accepted => _ | .refused => _ | outcome => _)).refusals = _
      rw [h _ rfl]
      rfl
  | unregister k => exact refusals_unregister c k
  | noteUnwanted k | noteWanted k | forget k => rfl

/-- The calls are those of the actions, each with the server's answer. -/
theorem calls_foldl (c : Core) (acts : List Action) :
    (acts.foldl (apply server token tokenHash platform now) c).calls =
      c.calls ++ (acts.filterMap (Action.call token platform)).map
        fun call => (call, server call) := by
  induction acts generalizing c with
  | nil => exact (List.append_nil _).symm
  | cons a acts ih =>
      rw [List.foldl_cons, ih, calls_apply, List.append_assoc, List.filterMap_cons]
      cases a.call token platform <;> rfl

theorem refusals_foldl (c : Core) (acts : List Action)
    (h : ∀ a ∈ acts, ∀ call, a.call token platform = some call → server call = .accepted) :
    (acts.foldl (apply server token tokenHash platform now) c).state.refusals =
      c.state.refusals := by
  induction acts generalizing c with
  | nil => rfl
  | cons a acts ih =>
      rw [List.foldl_cons, ih _ fun b hb => h b (List.mem_cons_of_mem a hb),
        refusals_apply c a (h a List.mem_cons_self)]

end Core

section ByPlan

variable {token : String} {platform : PushPlatform} (ht : state.token = some token)
  (hp : state.platform = some platform) (he : state.enabled = true)
include ht hp he

theorem calls_reconcile : (reconcileCore hash server state wanted now).calls =
    ((plan wanted state.registrations (hash token) state.refusals now).filterMap
      (Action.call token platform)).map fun call => (call, server call) := by
  unfold reconcileCore
  rw [ht, hp, he]
  exact Core.calls_foldl ..

theorem mem_calls {a : Action} {call : Call} (ha : a.call token platform = some call)
    (hmem : a ∈ plan wanted state.registrations (hash token) state.refusals now) :
    (call, server call) ∈ (reconcileCore hash server state wanted now).calls := by
  rw [calls_reconcile ht hp he]
  exact List.mem_map.mpr ⟨call, List.mem_filterMap.mpr ⟨a, hmem, ha⟩, rfl⟩

/-- A reconcile whose calls are accepted records no refusal and drops the old ones. -/
theorem refusals_reconcile
    (hall : ∀ e ∈ (reconcileCore hash server state wanted now).calls, e.2 = .accepted) :
    (reconcileCore hash server state wanted now).state.refusals =
      retain (fun refusedAt => now - refusedAt < 2 * NODE_REFUSAL_SECS) state.refusals := by
  have hkeep : (Core.state ((plan wanted state.registrations (hash token) state.refusals
      now).foldl (Core.apply server token (hash token) platform now)
        ⟨state, {}, []⟩)).refusals = state.refusals :=
    Core.refusals_foldl _ _ fun a ha call hcall => hall _ (mem_calls ht hp he hcall ha)
  unfold reconcileCore
  rw [ht, hp, he]
  exact congrArg (retain fun refusedAt => now - refusedAt < 2 * NODE_REFUSAL_SECS) hkeep

end ByPlan

end MostroApp.Push
