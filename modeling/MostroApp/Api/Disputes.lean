import MostroApp.Types
import MostroApp.Lib.Interleaving
import Mathlib.Data.Option.Basic

set_option autoImplicit false

/-! # Disputes of one trade (`api/disputes.rs`)

The dispute record of a trade has four writers: our own accepted opening, its late acceptance,
the `admin-took-dispute` message and the pass that rehydrates records from storage. The solver's
pubkey and the origin marker are persisted beside it, and the chat with the solver is a task of
its own that owns the order's slot. The file has the record, the store's operations and the four
writers as tasks, one program counter for each place between two awaits.
-/

namespace MostroApp.Disputes

open Interleaving

/-! ## Records -/

inductive DisputeStatus where
  | opened
  | inReview
  | resolved
  deriving DecidableEq, Repr

/-- The status as an error prints it. -/
def DisputeStatus.debug : DisputeStatus → String
  | .opened => "Open"
  | .inReview => "InReview"
  | .resolved => "Resolved"

inductive DisputeResolution where
  | fundsToBuyer
  | fundsToSeller
  | cooperativeCancel
  deriving DecidableEq, Repr

structure Dispute where
  id : String
  tradeId : String
  status : DisputeStatus
  initiatedByMe : Bool
  reason : Option String := none
  adminPubkey : Option String := none
  resolution : Option DisputeResolution := none
  openedAt : Int
  resolvedAt : Option Int := none
  isRead : Bool
  deriving DecidableEq, Repr

/-- The record an `admin-took-dispute` writes when it is the first thing this side hears about
the dispute. Both paths that learn the dispute is ours test for this shape. -/
def Dispute.isPeerPlaceholder (dispute : Dispute) : Bool :=
  dispute.status = .inReview && !dispute.initiatedByMe && dispute.reason.isNone &&
    dispute.adminPubkey.isSome

/-- What an `admin-took-dispute` makes of an existing record: a new solver replaces the old one,
an opened dispute goes into review, a resolved one refuses. -/
def Dispute.takeAdmin (admin : String) (dispute : Dispute) : Except String Dispute :=
  if dispute.status = .inReview then
    if dispute.adminPubkey ≠ some admin then
      .ok { dispute with adminPubkey := some admin, isRead := false }
    else .ok dispute
  else if dispute.status ≠ .opened then
    .error ("InvalidState: dispute is not open (current: " ++ dispute.status.debug ++ ")")
  else .ok { dispute with status := .inReview, adminPubkey := some admin, isRead := false }

/-- What a late acceptance makes of an existing record: it claims a placeholder only. -/
def Dispute.claimLate (id : String) (dispute : Dispute) : Dispute :=
  if dispute.isPeerPlaceholder then { dispute with id := id, initiatedByMe := true } else dispute

/-- The trade is in a state in which no dispute can still be live. -/
def isOrderFinished : OrderStatus → Bool
  | .settledByAdmin | .canceledByAdmin | .completedByAdmin | .success | .canceled
  | .cooperativelyCanceled | .expired => true
  | .pending | .waitingBuyerInvoice | .waitingPayment | .active | .fiatSent
  | .settledHoldInvoice | .dispute | .inProgress | .waitingTakerBond | .waitingMakerBond => false

/-! ## The store -/

/-- `try_insert_if_absent_or_resolved` on the trade's entry; `held` says that an open of this
trade is in flight. -/
def tryInsertIfAbsentOrResolved (held : Bool) (dispute : Dispute) :
    Option Dispute → Except String Dispute
  | some existing =>
      if existing.isPeerPlaceholder && held then
        .ok { existing with id := dispute.id, initiatedByMe := true, reason := dispute.reason }
      else if existing.status ≠ .resolved then
        .error ("DisputeAlreadyOpen: dispute already exists for trade " ++ dispute.tradeId)
      else .ok dispute
  | none => .ok dispute

/-- `upsert_or_update` on the trade's entry: one lock scope for the create and the update. -/
def upsertOrUpdate (make : Dispute) (update : Dispute → Except String Dispute) :
    Option Dispute → Except String Dispute
  | some dispute => update dispute
  | none => .ok make

/-- Everything the process and its storage hold about the dispute of one trade. The stores are
keyed by the trade, so each field is the trade's entry. -/
structure DisputeState where
  tradeId : String := ""
  record : Option Dispute := none
  /-- The records broadcast so far. -/
  updates : List Dispute := []
  /-- The trade is in `PENDING_OPENS`. -/
  pendingOpen : Bool := false
  /-- The persisted solver pubkey. -/
  storedAdmin : Option String := none
  /-- The persisted origin marker. -/
  storedMine : Bool := false
  /-- The dispute channel's entry in `ACTIVE_CHATS`, and the chat key of the task that owns it. -/
  chat : Option (Nat × String) := none
  /-- The last generation drawn. -/
  generation : Nat := 0
  /-- The solvers of the messages handled so far, whatever became of them, the last one first. A
  message that comes over a finished trade is skipped. -/
  took : List String := []
  /-- The solver and the origin that a pass has restored the record with. -/
  restored : Option (String × Bool) := none
  deriving DecidableEq, Repr

/-- The entry after a write, which is broadcast. -/
def DisputeState.put (s : DisputeState) (dispute : Dispute) : DisputeState :=
  { s with record := some dispute, updates := s.updates ++ [dispute] }

/-! ## Tasks -/

/-- What a step cannot know from the state: the persisted trade row, whether the storage obeys, a
fresh id and the time, whether the trade keys are there, the generations other chats drew since,
and whether a listener's stream ends. -/
structure DisputeOracle where
  row : Option OrderStatus := none
  stored : Bool := true
  read : Bool := true
  minted : String := ""
  now : Int := 0
  reached : Bool := true
  others : Nat := 0
  exits : Bool := false

/-- Where a task stands. -/
inductive DisputeTask where
  /-- `handle_admin_took_dispute`. -/
  | checksTrade (admin : String)
  | upsertsAdmin (admin : String)
  | persistsAdmin (admin : String)
  /-- `derive_admin_shared_key`. -/
  | derives (admin : String)
  /-- `subscribe_incoming_chat` on the dispute channel. -/
  | claimsChat (key : String)
  | listens (generation : Nat)
  | releasesChat (generation : Nat)
  /-- `clear_dispute_keys`; `pass` is set in a rehydration. -/
  | clearsAdmin (pass : Bool)
  | clearsMine (pass : Bool)
  /-- `open_dispute` with the daemon's acceptance in hand. -/
  | inserts (id : String) (reason : Option String)
  /-- `record_late_acceptance`. -/
  | recordsLate (disputeId : Option String)
  /-- `persist_dispute_origin`; `held` is set where the caller holds the marker. -/
  | persistsOrigin (held : Bool)
  | dropsMarker
  /-- `rehydrate_disputes_from_storage`. -/
  | lists
  | looks (status : OrderStatus)
  | readsAdmin
  | readsMine (admin : String)
  | restores (admin : String) (mine : Bool)
  /-- The loop of `resubscribe_active_dispute_chats`. -/
  | arms
  deriving DecidableEq, Repr

/-- The chat key a solver's pubkey gives with the trade key, `none` for an invalid pubkey. -/
abbrev ChatKeys := String → Option String

variable (derive : ChatKeys)

/-- A task's next step. -/
def DisputeTask.step (w : DisputeOracle) :
    DisputeTask → DisputeState → DisputeState × Option DisputeTask
  | .checksTrade admin, s =>
      -- over a finished trade a delivery only clears what is stored
      if w.row.any isOrderFinished then (s, some (.clearsAdmin false))
      else (s, some (.upsertsAdmin admin))
  | .upsertsAdmin admin, s =>
      let handled := { s with took := admin :: s.took }
      match upsertOrUpdate
          { id := w.minted, tradeId := s.tradeId, status := .inReview, initiatedByMe := false
            adminPubkey := some admin, openedAt := w.now, isRead := false }
          (Dispute.takeAdmin admin) s.record with
      | .ok dispute => (handled.put dispute, some (.persistsAdmin admin))
      | .error _ => (handled, none)
  | .persistsAdmin admin, s =>
      (if w.stored then { s with storedAdmin := some admin } else s, some (.derives admin))
  | .derives admin, s => (s, if w.reached then (derive admin).map .claimsChat else none)
  | .claimsChat key, s =>
      -- whoever owns the slot keeps it, whatever key it listens with
      match s.chat with
      | some _ => (s, none)
      | none =>
          let generation := s.generation + w.others + 1
          ({ s with chat := some (generation, key), generation := generation },
            some (.listens generation))
  | .listens generation, s =>
      if s.chat.map Prod.fst = some generation ∧ w.exits = false then
        (s, some (.listens generation))
      else (s, some (.releasesChat generation))
  | .releasesChat generation, s =>
      (if s.chat.map Prod.fst = some generation then { s with chat := none } else s, none)
  | .clearsAdmin pass, s =>
      (if w.stored then { s with storedAdmin := none } else s, some (.clearsMine pass))
  | .clearsMine pass, s =>
      (if w.stored then { s with storedMine := false } else s, if pass then some .arms else none)
  | .inserts id reason, s =>
      match tryInsertIfAbsentOrResolved s.pendingOpen
          { id := id, tradeId := s.tradeId, status := .opened, initiatedByMe := true
            reason := reason, openedAt := w.now, isRead := true } s.record with
      -- the marker goes on both paths
      | .ok dispute => (s.put dispute, some (.persistsOrigin true))
      | .error _ => (s, some .dropsMarker)
  | .recordsLate none, s => (s, none)
  | .recordsLate (some id), s =>
      match upsertOrUpdate
          { id := id, tradeId := s.tradeId, status := .opened, initiatedByMe := true
            openedAt := w.now, isRead := false }
          (fun existing => .ok (existing.claimLate id)) s.record with
      | .ok dispute => (s.put dispute, some (.persistsOrigin false))
      | .error _ => (s, none)
  | .persistsOrigin held, s =>
      (if w.stored then { s with storedMine := true } else s,
        if held then some .dropsMarker else none)
  | .dropsMarker, s => ({ s with pendingOpen := false }, none)
  | .lists, s => (s, some (w.row.elim .arms .looks))
  | .looks status, s =>
      -- a record in memory is at least as fresh as storage
      if s.record.isSome then (s, some .arms)
      else if isOrderFinished status then
        (s, some (if s.storedAdmin.isSome || s.storedMine || !w.read then .clearsAdmin true
          else .arms))
      else (s, some .readsAdmin)
  | .readsAdmin, s =>
      if w.read then (s, some (s.storedAdmin.elim .arms .readsMine)) else (s, some .arms)
  | .readsMine admin, s => (s, some (.restores admin (w.read && s.storedMine)))
  | .restores admin mine, s =>
      match upsertOrUpdate
          { id := w.minted, tradeId := s.tradeId, status := .inReview, initiatedByMe := mine
            adminPubkey := some admin, openedAt := w.now, isRead := false } .ok s.record with
      | .ok dispute =>
          ({ s.put dispute with
              restored := if s.record.isNone then some (admin, mine) else s.restored }, some .arms)
      | .error _ => (s, some .arms)
  | .arms, s =>
      -- only a dispute in review has a solver to talk to
      match s.record with
      | some dispute =>
          (s, if dispute.status = .inReview then dispute.adminPubkey.map .derives else none)
      | none => (s, none)

/-- What the rest of the process does to the dispute channel: `stop_chat_subscriptions` at the end
of the trade. -/
inductive DisputeAct where
  | stopsChats
  deriving DecidableEq, Repr

def DisputeAct.act (s : DisputeState) : DisputeAct → DisputeState
  | .stopsChats => { s with chat := none }

/-- The deliveries and the passes may start at any time. -/
def DisputeTask.enter : DisputeTask → Bool
  | .checksTrade _ | .lists => true
  | _ => false

/-- Deliveries of `admin-took-dispute` and rehydration passes over one trade's dispute, beside
whatever already runs. -/
def disputeProg : Prog DisputeState DisputeTask DisputeOracle DisputeAct where
  enter := DisputeTask.enter
  tstep := fun w p s => some (p.step derive w s)
  act := fun a s => some (a.act s)

/-! ## What a step leaves -/

variable {derive}

/-- The task is part of an opening of ours. -/
def DisputeTask.opens : DisputeTask → Bool
  | .inserts .. | .recordsLate _ | .persistsOrigin _ | .dropsMarker => true
  | _ => false

/-- The task is about to write an opening of ours. -/
def DisputeTask.writesOpening : DisputeTask → Bool
  | .inserts .. | .recordsLate _ => true
  | _ => false

/-- **What a task goes on as.** A solver is carried on once it is in the record of the state `t` the
step leaves, or where storage had it before the step. -/
inductive DisputeTask.Next (s t : DisputeState) : DisputeTask → DisputeTask → Prop where
  | finished (admin : String) : Next s t (.checksTrade admin) (.clearsAdmin false)
  | active (admin : String) : Next s t (.checksTrade admin) (.upsertsAdmin admin)
  | recorded (admin : String) (h : t.record.isSome = true) :
      Next s t (.upsertsAdmin admin) (.persistsAdmin admin)
  | persisted (admin : String) : Next s t (.persistsAdmin admin) (.derives admin)
  | derived (admin key : String) : Next s t (.derives admin) (.claimsChat key)
  | claimed (key : String) (generation : Nat) : Next s t (.claimsChat key) (.listens generation)
  | hears (generation : Nat) : Next s t (.listens generation) (.listens generation)
  | stops (generation : Nat) : Next s t (.listens generation) (.releasesChat generation)
  | cleared (pass : Bool) : Next s t (.clearsAdmin pass) (.clearsMine pass)
  | goesOn : Next s t (.clearsMine true) .arms
  | opened (id : String) (reason : Option String) (h : t.record.isSome = true) :
      Next s t (.inserts id reason) (.persistsOrigin true)
  | refused (id : String) (reason : Option String) : Next s t (.inserts id reason) .dropsMarker
  | openedLate (id : String) (h : t.record.isSome = true) :
      Next s t (.recordsLate (some id)) (.persistsOrigin false)
  | stored : Next s t (.persistsOrigin true) .dropsMarker
  | listed (status : OrderStatus) : Next s t .lists (.looks status)
  | unlisted : Next s t .lists .arms
  | ended (status : OrderStatus) : Next s t (.looks status) (.clearsAdmin true)
  | settled (status : OrderStatus) : Next s t (.looks status) .arms
  | lacking (status : OrderStatus) : Next s t (.looks status) .readsAdmin
  | read (admin : String) (h : s.storedAdmin = some admin) :
      Next s t .readsAdmin (.readsMine admin)
  | unread : Next s t .readsAdmin .arms
  | readMine (admin : String) (mine : Bool) (h : mine = true → s.storedMine = true) :
      Next s t (.readsMine admin) (.restores admin mine)
  | restored (admin : String) (mine : Bool) : Next s t (.restores admin mine) .arms
  | armed (admin : String) : Next s t .arms (.derives admin)

theorem DisputeTask.step_next {w : DisputeOracle} {p q : DisputeTask} {s : DisputeState}
    (hq : (p.step derive w s).2 = some q) : DisputeTask.Next s (p.step derive w s).1 p q := by
  cases p with
  | checksTrade admin =>
      simp only [DisputeTask.step] at hq
      split at hq <;> obtain rfl := Option.some.inj hq
      · exact .finished admin
      · exact .active admin
  | upsertsAdmin admin =>
      simp only [DisputeTask.step] at hq ⊢
      split at hq <;> cases hq
      exact .recorded admin rfl
  | persistsAdmin admin =>
      obtain rfl := Option.some.inj hq
      exact .persisted admin
  | derives admin =>
      simp only [DisputeTask.step] at hq
      split at hq
      · obtain ⟨key, -, rfl⟩ := Option.map_eq_some_iff.mp hq
        exact .derived admin key
      · cases hq
  | claimsChat key =>
      simp only [DisputeTask.step] at hq
      split at hq <;> cases hq
      exact .claimed key _
  | listens generation =>
      simp only [DisputeTask.step] at hq
      split at hq <;> obtain rfl := Option.some.inj hq
      · exact .hears generation
      · exact .stops generation
  | releasesChat | dropsMarker => cases hq
  | clearsAdmin pass =>
      obtain rfl := Option.some.inj hq
      exact .cleared pass
  | clearsMine pass =>
      cases pass <;> cases hq
      exact .goesOn
  | inserts id reason =>
      simp only [DisputeTask.step] at hq ⊢
      split at hq <;> obtain rfl := Option.some.inj hq
      · exact .opened id reason rfl
      · exact .refused id reason
  | recordsLate id =>
      cases id with
      | none => cases hq
      | some id =>
          simp only [DisputeTask.step] at hq ⊢
          split at hq <;> cases hq
          exact .openedLate id rfl
  | persistsOrigin held =>
      cases held <;> cases hq
      exact .stored
  | lists =>
      obtain rfl := Option.some.inj hq
      cases w.row with
      | none => exact .unlisted
      | some status => exact .listed status
  | looks status =>
      simp only [DisputeTask.step] at hq
      repeat' split at hq
      all_goals obtain rfl := Option.some.inj hq
      · exact .settled status
      · exact .ended status
      · exact .settled status
      · exact .lacking status
  | readsAdmin =>
      simp only [DisputeTask.step] at hq
      split at hq <;> obtain rfl := Option.some.inj hq
      · cases hstored : s.storedAdmin with
        | none => exact .unread
        | some admin => exact .read admin hstored
      · exact .unread
  | readsMine admin =>
      obtain rfl := Option.some.inj hq
      exact .readMine admin _ fun hmine => (Bool.and_eq_true_iff.mp hmine).2
  | restores admin mine =>
      simp only [DisputeTask.step] at hq
      split at hq <;> obtain rfl := Option.some.inj hq <;> exact .restored admin mine
  | arms =>
      simp only [DisputeTask.step] at hq
      split at hq
      · split at hq
        · obtain ⟨admin, -, rfl⟩ := Option.map_eq_some_iff.mp hq
          exact .armed admin
        · cases hq
      · cases hq

/-- Only an opening goes on as one, and it writes once. -/
theorem DisputeTask.step_opens {w : DisputeOracle} {p q : DisputeTask} {s : DisputeState}
    (hq : (p.step derive w s).2 = some q) :
    (q.opens = true → p.opens = true) ∧ q.writesOpening = false := by
  cases DisputeTask.step_next hq with
  | opened | refused | openedLate | stored => exact ⟨fun _ => rfl, rfl⟩
  | _ =>
      refine ⟨fun hopens => ?_, rfl⟩
      cases hopens

/-- **A record never goes.** -/
theorem DisputeTask.step_record_isSome (derive : ChatKeys) (w : DisputeOracle) (p : DisputeTask)
    {s : DisputeState} (h : s.record.isSome = true) :
    (p.step derive w s).1.record.isSome = true := by
  cases p with
  | recordsLate id =>
      cases id with
      | none => exact h
      | some id => simp only [DisputeTask.step]; split <;> first | rfl | exact h
  | persistsAdmin | clearsAdmin | clearsMine | persistsOrigin | releasesChat =>
      simp only [DisputeTask.step]
      split <;> exact h
  | upsertsAdmin | inserts | restores =>
      simp only [DisputeTask.step]
      split <;> first | rfl | exact h
  | checksTrade | claimsChat | listens | looks | readsAdmin | arms =>
      simp only [DisputeTask.step]
      repeat' split
      all_goals exact h
  | _ => exact h

/-- What a delivery of `admin` makes of the record: a placeholder where there was none, else what
`takeAdmin` makes of it, if it does not refuse. -/
def Dispute.Takes (admin : String) (before after : Option Dispute) : Prop :=
  (∃ dispute, before = none ∧ after = some dispute ∧ dispute.isPeerPlaceholder = true ∧
      dispute.adminPubkey = some admin) ∨
    ∃ existing, before = some existing ∧
      ((∃ dispute, existing.takeAdmin admin = .ok dispute ∧ after = some dispute) ∨
        (∃ e, existing.takeAdmin admin = .error e) ∧ after = some existing)

/-- What a pass restores from `admin` and the origin: in review, and a placeholder where the
dispute is not ours. -/
structure Dispute.Restored (admin : String) (mine : Bool) (dispute : Dispute) : Prop where
  status : dispute.status = .inReview
  mine : dispute.initiatedByMe = mine
  reason : dispute.reason = none
  admin : dispute.adminPubkey = some admin

/-- **The three ways a delivery or a pass may leave the record**: as it is, with the solver of a
delivery, or restored where there was none. -/
inductive DisputeState.Moves (s t : DisputeState) (p : DisputeTask) : Prop where
  | same (hrecord : t.record = s.record) (htook : t.took = s.took)
      (hrestored : t.restored = s.restored)
  | takes (admin : String) (hp : p = .upsertsAdmin admin)
      (hrecord : Dispute.Takes admin s.record t.record) (htook : t.took = admin :: s.took)
      (hrestored : t.restored = s.restored)
  | restores (admin : String) (mine : Bool) (hp : p = .restores admin mine)
      (hnone : s.record = none) (htook : t.took = s.took)
      (hrecord : ∃ dispute, t.record = some dispute ∧ dispute.Restored admin mine)
      (hrestored : t.restored = some (admin, mine))

theorem DisputeTask.step_record (derive : ChatKeys) (w : DisputeOracle) {p : DisputeTask}
    (s : DisputeState) (hp : p.opens = false) :
    (p.step derive w s).1.pendingOpen = s.pendingOpen ∧ s.Moves (p.step derive w s).1 p := by
  cases p with
  | upsertsAdmin admin =>
      simp only [DisputeTask.step]
      cases hs : s.record with
      | none => exact ⟨rfl, .takes admin rfl (.inl ⟨_, hs, rfl, rfl, rfl⟩) rfl rfl⟩
      | some existing =>
          simp only [upsertOrUpdate]
          cases ht : existing.takeAdmin admin with
          | error e =>
              exact ⟨rfl, .takes admin rfl (.inr ⟨existing, hs, .inr ⟨⟨e, ht⟩, rfl⟩⟩) rfl rfl⟩
          | ok dispute =>
              exact ⟨rfl, .takes admin rfl (.inr ⟨existing, hs, .inl ⟨dispute, ht, rfl⟩⟩) rfl
                rfl⟩
  | restores admin mine =>
      cases hs : s.record with
      | none =>
          simp only [DisputeTask.step, hs, upsertOrUpdate]
          exact ⟨rfl, .restores admin mine rfl hs rfl ⟨_, rfl, ⟨rfl, rfl, rfl, rfl⟩⟩ rfl⟩
      | some existing =>
          simp only [DisputeTask.step, hs, upsertOrUpdate]
          exact ⟨rfl, .same hs.symm rfl rfl⟩
  | inserts | recordsLate | persistsOrigin | dropsMarker => cases hp
  | persistsAdmin | clearsAdmin | clearsMine | releasesChat =>
      simp only [DisputeTask.step]
      split <;> exact ⟨rfl, .same rfl rfl rfl⟩
  | checksTrade | claimsChat | listens | looks | readsAdmin | arms =>
      simp only [DisputeTask.step]
      repeat' split
      all_goals exact ⟨rfl, .same rfl rfl rfl⟩
  | _ => exact ⟨rfl, .same rfl rfl rfl⟩

end MostroApp.Disputes
