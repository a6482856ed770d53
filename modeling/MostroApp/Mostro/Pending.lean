import MostroApp.Mostro.Status
import Mathlib.Logic.Function.Basic

set_option autoImplicit false

/-! # The correlation registry (`mostro/pending.rs`)

Every outgoing request leaves a record under the trade key of its attempt, and only a reply
that echoes the record's nonce may consume it. The registry is the map of the source; a
waiter (the sending half of a oneshot channel) is its identity, a fresh number for every
channel ever created. Every operation edits the entry of one key (`Registry.alter`).
-/

namespace MostroApp.Pending

open Wire (Action Payload RestoreSessionInfo)
open Status

/-! ## Records -/

/-- The bond bolt11 a `pay-bond-invoice` carries. -/
structure BondRequest where
  amountSats : Nat
  invoice : String
  deriving DecidableEq, Repr

/-- What a waiting caller is handed. -/
inductive DaemonReply where
  | confirmed (daemonId : String)
  | bondRequested (daemonId : String) (bond : BondRequest)
  | takeAccepted (action : Action) (status : Option OrderStatus) (amountSats : Option Nat)
      (holdInvoice : Option String) (bond : Option BondRequest)
  | acknowledged
  | disputeAccepted (disputeId : Option String)
  | rejected (reason message : String)
  | restored (info : RestoreSessionInfo)
  deriving DecidableEq, Repr

/-- The value that travels over the channel: the reply, and whether the dispatcher's
per-order guard rides with it. -/
structure Wake where
  reply : DaemonReply
  orderGuard : Bool
  deriving DecidableEq, Repr

/-- `Wake::from`: a reply that carries no guard. -/
def Wake.from (reply : DaemonReply) : Wake := ⟨reply, false⟩

/-- The identity of a oneshot channel. -/
abbrev Waiter := Nat

/-- What kind of outgoing request a record tracks. -/
inductive PendingRequestKind where
  | create (localUuid : String) (bondRequested : Bool)
  | take
  | addInvoice
  | bondClaimSubmit
  | restore (sentAt : Int)
  | dispute (superseded : List Nat)
  deriving DecidableEq, Repr

structure PendingRequest where
  requestId : Nat
  tradeIndex : Nat
  kind : PendingRequestKind
  /-- `some` while the caller is blocked waiting. -/
  tx : Option Waiter
  deriving DecidableEq, Repr

/-- `trade_pubkey_hex` to the pending request of that key. -/
abbrev Registry := String → Option PendingRequest

/-- Edit the entry of one key and report a result. -/
def Registry.alter {β : Type} (r : Registry) (key : String)
    (f : Option PendingRequest → Option PendingRequest × β) : Registry × β :=
  (Function.update r key (f (r key)).1, (f (r key)).2)

section Alter

variable {β : Type} (r : Registry) (key : String)
  (f : Option PendingRequest → Option PendingRequest × β)

@[simp] theorem alter_self : (r.alter key f).1 key = (f (r key)).1 := by
  simp [Registry.alter]

@[simp] theorem alter_snd : (r.alter key f).2 = (f (r key)).2 := rfl

theorem alter_of_ne {k : String} (hk : k ≠ key) : (r.alter key f).1 k = r k := by
  simp [Registry.alter, Function.update_of_ne hk]

end Alter

/-! ## Registering -/

/-- `map.insert`, the registration of a create, a take, a claim submission or a restore. -/
def register (key : String) (p : PendingRequest) (r : Registry) : Registry :=
  Function.update r key (some p)

/-- Register a buyer's add-invoice, unless an earlier one on this key still has a live
waiter. `closed` says whether the receiver behind the stored waiter is gone. -/
def registerAddInvoiceRequest (key : String) (requestId tradeIndex : Nat) (tx : Waiter)
    (closed : Bool) (r : Registry) : Registry × Bool :=
  r.alter key fun
    | some p =>
        if p.kind = .addInvoice ∧ p.tx.isSome = true ∧ closed = false then (some p, false)
        else (some ⟨requestId, tradeIndex, .addInvoice, some tx⟩, true)
    | none => (some ⟨requestId, tradeIndex, .addInvoice, some tx⟩, true)

/-- The nonces a dispute that replaces this record inherits: the record's own and whatever
it had already inherited. -/
def inheritedNonces : Option PendingRequest → List Nat
  | some ⟨replaced, _, .dispute superseded, _⟩ => superseded ++ [replaced]
  | _ => []

/-- Register an open-dispute; a retry inherits the nonces of the attempts it replaces. -/
def registerDisputeRequest (key : String) (requestId tradeIndex : Nat) (tx : Waiter)
    (r : Registry) : Registry :=
  (r.alter key fun e =>
    (some ⟨requestId, tradeIndex, .dispute (inheritedNonces e), some tx⟩, ())).1

/-! ## Timeouts, rollbacks, clean-up -/

/-- Detach the caller's waiter after its timeout, leaving the record. -/
def detachRequestWaiter (key : String) (requestId : Nat) (r : Registry) : Registry :=
  (r.alter key fun
    | some p => (some (if p.requestId = requestId then { p with tx := none } else p), ())
    | none => (none, ())).1

/-- Drop the caller's own record after a failed publish. -/
def removePendingRequest (key : String) (requestId : Nat) (r : Registry) : Registry :=
  (r.alter key fun
    | some p => (if p.requestId = requestId then none else some p, ())
    | none => (none, ())).1

/-- Drop a detached record when the per-trade subscription ends. -/
def purgeDetachedPendingRequest (key : String) (r : Registry) : Registry :=
  (r.alter key fun
    | some p => (if p.tx = none then none else some p, ())
    | none => (none, ())).1

/-- Undo an open-dispute registration whose publish failed: the newest superseded nonce
becomes the record's own again, waiterless. -/
def rollBackEntry (requestId : Nat) : Option PendingRequest → Option PendingRequest
  | none => none
  | some p =>
      if p.requestId ≠ requestId then some p
      else match p.kind with
        | .dispute superseded =>
            superseded.getLast?.map fun previous =>
              { p with requestId := previous, kind := .dispute superseded.dropLast, tx := none }
        | _ => none

def rollBackDisputeRequest (key : String) (requestId : Nat) (r : Registry) : Registry :=
  (r.alter key fun e => (rollBackEntry requestId e, ())).1

/-- Local UUID of the pending create of a key, if any. -/
def pendingLocalUuidFor (key : String) (r : Registry) : Option String :=
  (r key).bind fun p => match p.kind with
    | .create localUuid _ => some localUuid
    | _ => none

/-! ## Inbound replies -/

/-- A reply must echo the exact nonce; a missing one never matches. -/
def requestIdMatches (expected : Nat) (got : Option Nat) : Bool := got = some expected

/-- How far behind the request a restore reply's timestamp may be. -/
def restoreReplySkewSecs : Int := 30

/-- Remove and return the pending restore, correlated by its age. -/
def takeMatchingRestore (key : String) (replyTs : Int) (r : Registry) :
    Registry × Option PendingRequest :=
  r.alter key fun e => match e with
    | some ⟨_, _, .restore sentAt, _⟩ =>
        if replyTs + restoreReplySkewSecs ≥ sentAt then (none, e) else (e, none)
    | _ => (e, none)

/-- Remove and return the pending request of any kind that `got` echoes. -/
def takeMatchingRequest (key : String) (got : Option Nat) (r : Registry) :
    Registry × Option PendingRequest :=
  r.alter key fun e => match e with
    | some p => if requestIdMatches p.requestId got then (none, e) else (e, none)
    | none => (none, none)

/-- Remove and return the pending request of one kind that `got` echoes. -/
def takeMatchingKind (kind : PendingRequestKind) (key : String) (got : Option Nat)
    (r : Registry) : Registry × Option PendingRequest :=
  r.alter key fun e => match e with
    | some p =>
        if requestIdMatches p.requestId got = true ∧ p.kind = kind then (none, e) else (e, none)
    | none => (none, none)

def takeMatchingTake := takeMatchingKind .take

def takeMatchingAddInvoice := takeMatchingKind .addInvoice

def takeMatchingClaimSubmit := takeMatchingKind .bondClaimSubmit

/-- What `claimCreateBond` hands the `pay-bond-invoice` arm. -/
structure CreateBondClaim where
  tx : Option Waiter
  tradeIndex : Nat
  localUuid : String
  deriving DecidableEq, Repr

/-- Claim the `pay-bond-invoice` reply to a pending create: the record is kept and marked,
only its waiter is taken. -/
def claimCreateBond (key : String) (got : Option Nat) (r : Registry) :
    Registry × Option CreateBondClaim :=
  r.alter key fun e => match e with
    | some p =>
        if requestIdMatches p.requestId got then
          match p.kind with
          | .create localUuid _ =>
              (some { p with kind := .create localUuid true, tx := none },
                some ⟨p.tx, p.tradeIndex, localUuid⟩)
          | _ => (e, none)
        else (e, none)
    | none => (none, none)

/-- What a `DisputeInitiatedByYou` turned out to be for a trade key. -/
inductive DisputeMatch where
  | waiting (tx : Waiter)
  | late
  deriving DecidableEq, Repr

/-- Consume the acceptance of the live attempt or of one it superseded. -/
def takeMatchingDispute (key : String) (got : Option Nat) (r : Registry) :
    Registry × Option DisputeMatch :=
  r.alter key fun e => match e with
    | some p => match p.kind with
        | .dispute superseded =>
            match got.filter fun id => superseded.contains id with
            | some answered =>
                (some { p with kind := .dispute (superseded.erase answered) }, some .late)
            | none =>
                if requestIdMatches p.requestId got then
                  (none, some (match p.tx with | some tx => .waiting tx | none => .late))
                else (e, none)
        | _ => (e, none)
    | none => (none, none)

/-! ## The first reply to a take -/

/-- Classify the daemon's first reply to a take by the shape of its payload. A
`pay-bond-invoice` parks the take on its bond, and its amount is the bond's. -/
def classifyTakeReply (action : Action) (payload : Option Payload) : DaemonReply :=
  if action = .payBondInvoice then
    match payload with
    | some (.paymentRequest so invoice amount) =>
        let bondSats := ((amount.bind tryU64).orElse fun _ =>
          so.bind fun o => tryU64 o.amount).getD 0
        .takeAccepted action (some .waitingTakerBond) none none (some ⟨bondSats, invoice⟩)
    | _ => .rejected "InvalidBondInvoice" "InvalidBondInvoice"
  else
    match payload with
    | some (.paymentRequest so invoice amount) =>
        let amountSats := (amount.bind tryU64).orElse fun _ =>
          so.bind fun o => positiveSats o.amount
        .takeAccepted action
          ((so.bind fun o => o.status.bind mapCoreStatus).orElse fun _ => statusForAction action)
          amountSats (some invoice) none
    | some (.order so) =>
        .takeAccepted action
          ((so.status.bind mapCoreStatus).orElse fun _ => statusForAction action)
          (positiveSats so.amount) none none
    | _ => .takeAccepted action (statusForAction action) none none none

/-- Whether the id stored for a trade may be rebound to `incomingId`: only the local UUID of
this key's own pending create is ever ours to rebind. -/
def mayReconcileStoredId (storedId incomingId : String) (pendingLocalUuid : Option String) :
    Bool :=
  storedId ≠ incomingId ∧ pendingLocalUuid = some storedId

theorem requestIdMatches_iff {expected : Nat} {got : Option Nat} :
    requestIdMatches expected got = true ↔ got = some expected := by
  simp [requestIdMatches]

@[simp] theorem requestIdMatches_none (expected : Nat) :
    requestIdMatches expected none = false := by
  simp [requestIdMatches]

end MostroApp.Pending
