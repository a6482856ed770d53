import MostroApp.Mostro.Pending
import Mathlib.Tactic.Simps.Basic

set_option autoImplicit false

/-! # One order across the stores (`api/orders.rs`, `db/sqlite.rs`)

Everything the client keeps about one order id, as one record: the trade rows of that id, the
settings keyed by it, the trade-key binding, the book entry and the note of its public view,
the session, and the logs of what was pushed to the screens and to waiting callers. The
operations below are the source's storage calls and their one-line wrappers; each leaves the
fields it does not name, and `simps` states that for every field.

The rows are a list because a lookup by order id is `LIMIT 1` while a write by order id
reaches every row of it. Store calls succeed unless an operation says otherwise.
-/

namespace MostroApp

/-! ## Edits of one row -/

namespace TradeInfo

/-- `update_trade_fields` on one row: only the provided fields change. -/
def setFields (status : Option OrderStatus) (holdInvoice : Option String)
    (amountSats : Option Nat) (t : TradeInfo) : TradeInfo :=
  { t with
    order := { t.order with
      status := status.getD t.order.status
      amountSats := amountSats.orElse fun _ => t.order.amountSats }
    holdInvoice := holdInvoice.orElse fun _ => t.holdInvoice }

def setBond (bond : BondInfo) (t : TradeInfo) : TradeInfo := { t with bond := some bond }

def setCounterparty (pubkey : String) (t : TradeInfo) : TradeInfo :=
  { t with counterpartyPubkey := pubkey }

def setPeerReputation (rating : Rat) (reviews days : Nat) (t : TradeInfo) : TradeInfo :=
  { t with peerRating := some rating, peerReviews := some reviews, peerDays := some days }

def setCooperativeCancelState (state : CooperativeCancelState) (t : TradeInfo) : TradeInfo :=
  { t with cooperativeCancelState := some state }

/-- `INSERT OR REPLACE` by row id. -/
def save (t : TradeInfo) (rows : List TradeInfo) : List TradeInfo :=
  rows.filter (·.id ≠ t.id) ++ [t]

end TradeInfo

namespace Orders

open Pending Status
open Wire (Action)

/-! ## The record -/

/-- The wipe tombstone of an order, `<wiped_at>:<trade_index>`; the index is `none` when it
does not parse. -/
structure Tombstone where
  wipedAt : Int
  wipedIndex : Option Nat
  deriving DecidableEq, Repr

structure OrderState where
  orderId : String
  /-- The `trades` rows of this order id, the one a lookup returns first. -/
  trades : List TradeInfo := []
  statusCursor : Option Int := none
  tradeWiped : Option Tombstone := none
  invoiceStepStart : Option (OrderStatus × Int) := none
  /-- The trade-key index bound to the order id. -/
  tradeKey : Option Nat := none
  bookEntry : Option OrderInfo := none
  /-- The daemon's latest public view, where one was noted. -/
  wireNote : Option OrderInfo := none
  session : Option Session := none
  /-- A cancel this client sent itself and has not seen confirmed. -/
  userCancel : Bool := false
  pending : Registry := fun _ => none
  updates : List TradeUpdate := []
  wakes : List (Waiter × Wake) := []

namespace OrderState

/-- `get_trade_by_order_id`. -/
def trade (s : OrderState) : Option TradeInfo := s.trades.head?

/-- The status of the order's row, if it has one. -/
def rowStatus (s : OrderState) : Option OrderStatus := s.trade.map (·.order.status)

/-- `local_trade_status`: the row's status, else the book's. -/
def localTradeStatus (s : OrderState) : Option OrderStatus :=
  s.rowStatus.orElse fun _ => s.bookEntry.map (·.status)

/-- `current_local_status` reads the same two places in the same order. -/
def currentLocalStatus (s : OrderState) : Option OrderStatus := s.localTradeStatus

/-! ## The trade row -/

@[simps] def updateTradeFields (status : Option OrderStatus) (holdInvoice : Option String)
    (amountSats : Option Nat) (s : OrderState) : OrderState :=
  { s with trades := s.trades.map (TradeInfo.setFields status holdInvoice amountSats) }

@[simps] def updateTradeBond (bond : BondInfo) (s : OrderState) : OrderState :=
  { s with trades := s.trades.map (TradeInfo.setBond bond) }

/-- An empty counterparty is refused. -/
@[simps] def updateTradeCounterparty (pubkey : String) (s : OrderState) : OrderState :=
  { s with trades :=
      if pubkey = "" then s.trades else s.trades.map (TradeInfo.setCounterparty pubkey) }

@[simps] def updateTradePeerReputation (rating : Rat) (reviews days : Nat) (s : OrderState) :
    OrderState :=
  { s with trades := s.trades.map (TradeInfo.setPeerReputation rating reviews days) }

@[simps] def setCooperativeCancelState (state : CooperativeCancelState) (s : OrderState) :
    OrderState :=
  { s with trades := s.trades.map (TradeInfo.setCooperativeCancelState state) }

@[simps] def deleteTradeByOrderId (s : OrderState) : OrderState := { s with trades := [] }

/-- Delete the row on purpose, leaving the tombstone. -/
@[simps] def wipeTradeRow (wipedAt : Int) (wipedIndex : Nat) (s : OrderState) : OrderState :=
  { s with trades := [], tradeWiped := some ⟨wipedAt, some wipedIndex⟩ }

/-- The one way to create a row: it lifts the tombstone first. The row is always saved here. -/
@[simps] def persistTradeRow (t : TradeInfo) (s : OrderState) : OrderState :=
  { s with tradeWiped := none, trades := t.save s.trades }

/-- Persist a confirmed take as its order's only row. -/
def persistConfirmedTake (t : TradeInfo) (s : OrderState) : OrderState :=
  s.deleteTradeByOrderId.persistTradeRow t

/-- Whether a provided field differs from what the row holds. -/
def fieldsDiffer (t : TradeInfo) (status : Option OrderStatus) (holdInvoice : Option String)
    (amountSats : Option Nat) : Bool :=
  !((status.all (· = t.order.status)) && (holdInvoice.all (t.holdInvoice = some ·)) &&
    (amountSats.all (t.order.amountSats = some ·)))

/-- Write the provided fields unless `current`, the row the caller holds, has them all; whether
it wrote. A missing row counts as a write. -/
def syncTradeFieldsIfChanged (current : Option TradeInfo) (status : Option OrderStatus)
    (holdInvoice : Option String) (amountSats : Option Nat) (s : OrderState) :
    OrderState × Bool :=
  if current.all (fieldsDiffer · status holdInvoice amountSats) then
    (s.updateTradeFields status holdInvoice amountSats, true)
  else (s, false)

/-! ## Settings and bindings -/

@[simps] def storeTradeKeyIndex (index : Nat) (s : OrderState) : OrderState :=
  { s with tradeKey := some index }

end OrderState

/-- `MAX_CLOCK_SKEW_SECS`. -/
def maxClockSkewSecs : Int := 60

/-- The high-water mark after an accepted message dated `eventTs`: an event dated too far
ahead of the local clock does not move it, and it never moves back. -/
def nextCursor (cursor : Option Int) (eventTs now : Int) : Option Int :=
  if eventTs > now + maxClockSkewSecs then cursor
  else if cursor.any (· ≥ eventTs) then cursor
  else some eventTs

/-- The invoice step's start: the earliest time of the status it is in. -/
def nextStepStart (existing : Option (OrderStatus × Int)) (status : OrderStatus)
    (eventTs now : Int) : Option (OrderStatus × Int) :=
  if eventTs > now + maxClockSkewSecs then existing
  else match existing with
    | some (storedStatus, storedTs) =>
        if storedStatus = status ∧ storedTs ≤ eventTs then existing else some (status, eventTs)
    | none => some (status, eventTs)

/-- Whether a tombstone covers a message decrypted with `tradeIndex`'s key; one whose index
does not parse covers every generation. -/
def Tombstone.covers (t : Tombstone) (tradeIndex : Nat) : Bool :=
  tradeIndex ≤ t.wipedIndex.getD u32Max

namespace OrderState

@[simps] def recordStatusEvent (eventTs now : Int) (s : OrderState) : OrderState :=
  { s with statusCursor := nextCursor s.statusCursor eventTs now }

@[simps] def recordInvoiceStepStart (status : OrderStatus) (eventTs now : Int)
    (s : OrderState) : OrderState :=
  { s with invoiceStepStart := nextStepStart s.invoiceStepStart status eventTs now }

/-! ## The daemon-message guard -/

/-- A trade in a hard-terminal status takes no status from a message, except the verdict
that refines it. -/
def statusSyncBlockedByTerminal (action : Action) (s : OrderState) : Bool :=
  match s.currentLocalStatus with
  | none => false
  | some loc => if adminVerdictRefines loc action then false else isHardTerminal loc

/-- Whether a daemon message may not write the status: the trade is over, or the message is
strictly older than one already accepted. -/
def statusWriteBlocked (action : Action) (eventTs : Int) (s : OrderState) : Bool :=
  s.statusSyncBlockedByTerminal action || s.statusCursor.any (eventTs < ·)

end OrderState

/-- Why a message's order has, or does not have, a row. `unknown` is a store that failed to
answer. -/
inductive RowState where
  | existing (t : TradeInfo)
  | wiped
  | neverWritten
  | unknown
  deriving DecidableEq

def RowState.trade : RowState → Option TradeInfo
  | .existing t => some t
  | _ => none

namespace OrderState

/-- Classify the order's row for a message on `tradeIndex`; `fails` when the store does not
answer. -/
def tradeRowState (fails : Bool) (tradeIndex : Nat) (s : OrderState) : RowState :=
  if fails then .unknown
  else match s.trade with
    | some t => .existing t
    | none => match s.tradeWiped with
        | some tombstone => if tombstone.covers tradeIndex then .wiped else .neverWritten
        | none => .neverWritten

/-! ## The order book -/

/-- No-op when the order is not in the book. -/
@[simps] def updateOrderStatus (status : OrderStatus) (s : OrderState) : OrderState :=
  { s with bookEntry := s.bookEntry.map fun o => { o with status := status } }

@[simps] def upsertOrder (o : OrderInfo) (s : OrderState) : OrderState :=
  { s with bookEntry := some o }

@[simps] def removeOrder (s : OrderState) : OrderState := { s with bookEntry := none }

/-- Apply an order parsed from a public event: a finished one that is not ours is dropped. -/
def applyIngestedOrder (o : OrderInfo) (ours : Bool) (s : OrderState) : OrderState :=
  if !ours && isHardTerminal o.status then s.removeOrder else s.upsertOrder o

@[simps] def noteWireOrder (o : OrderInfo) (s : OrderState) : OrderState :=
  { s with wireNote := some o }

/-- Keep an existing note current. -/
@[simps] def refreshWireOrder (o : OrderInfo) (s : OrderState) : OrderState :=
  { s with wireNote := s.wireNote.map fun _ => o }

@[simps] def forgetWireOrder (s : OrderState) : OrderState := { s with wireNote := none }

/-- What becomes of the book entry of a lost take. -/
inductive Settlement where
  | restore (o : OrderInfo)
  | keep
  | drop
  deriving DecidableEq

/-- A noted `pending` view becomes the entry; without a view a `pending` entry stays, and no
entry is nothing to settle; anything else is dropped. -/
def settlement (noted : Option OrderInfo) (publicStatus : Option OrderStatus) : Settlement :=
  match noted, publicStatus with
  | some order, some .pending => .restore order
  | none, some .pending => .keep
  | none, none => .keep
  | _, _ => .drop

/-- The status `settlement` decides on: the note's, else the entry's. -/
def publicStatus (noted : Option OrderInfo) (s : OrderState) : Option OrderStatus :=
  match noted with
  | some order => some order.status
  | none => s.bookEntry.map OrderInfo.status

def settleEntry (d : Settlement) (s : OrderState) : OrderState :=
  match d with
  | .restore order => s.upsertOrder order
  | .keep => s
  | .drop => s.removeOrder

/-- Hand the order back to the public book once the take behind its entry was wiped. -/
def settleAfterLostTake (s : OrderState) : OrderState :=
  -- the note is consumed before the entry is looked at
  let noted := s.wireNote
  let s := s.forgetWireOrder
  s.settleEntry (settlement noted (s.publicStatus noted))

/-! ## Session, updates, waiters -/

@[simps] def setSession (session : Session) (s : OrderState) : OrderState :=
  { s with session := some session }

@[simps] def removeSession (s : OrderState) : OrderState := { s with session := none }

/-- Create or replace the session of a confirmed take; one of the same key index stays. -/
@[simps] def installSession (role : TradeRole) (tradeKeyIndex : Nat) (order : OrderInfo)
    (now : Int) (s : OrderState) : OrderState :=
  { s with session :=
      if s.session.any (·.tradeKeyIndex = tradeKeyIndex) then s.session
      else some ⟨s.orderId, role, tradeKeyIndex, none, none, none, order, now⟩ }

/-- `emit_trade_update_at`. -/
@[simps] def emitTradeUpdateAt (status : OrderStatus) (reason : Option TradeUpdateReason)
    (occurredAt : Int) (s : OrderState) : OrderState :=
  { s with updates := s.updates ++ [⟨s.orderId, status, reason, occurredAt⟩] }

@[simps] def setPending (pending : Registry) (s : OrderState) : OrderState :=
  { s with pending := pending }

/-- Send over the channel of a caller, if one is waiting. -/
@[simps] def send (tx : Option Waiter) (wake : Wake) (s : OrderState) : OrderState :=
  { s with wakes := s.wakes ++ (tx.toList.map fun w => (w, wake)) }

@[simps] def setUserCancel (noted : Bool) (s : OrderState) : OrderState :=
  { s with userCancel := noted }

/-! ## The wipe -/

/-- Wipe a trade that never went active: row and tombstone, session, then the book entry of a
take or the note of a maker's order. -/
def wipeNeverActiveTrade (wasTake : Bool) (wipedAt : Int) (wipedIndex : Nat) (s : OrderState) :
    OrderState :=
  let s := (s.wipeTradeRow wipedAt wipedIndex).removeSession
  if wasTake then s.settleAfterLostTake else s.forgetWireOrder

end OrderState

end Orders

end MostroApp
