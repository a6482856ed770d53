import MostroApp.Api.Bond

set_option autoImplicit false

/-! # The dispatcher (`dispatch_mostro_message`, `api/orders.rs`)

One daemon message, from the generation gate to the arm of its action. The dispatcher holds
the order's lock throughout, so against everything else that takes the lock it is one step: a
function of the order's state. The stages stand in the source's order.

What a message does outside the order's own state is left out: logging, the refresh nudges,
the incoming-chat subscription, the dispute and payout-claim stores, the slash event, and the
payout check spawned after a settlement.
-/

namespace MostroApp.Orders

open Pending Status
open Wire (Action Payload Message)

/-! ## Before the row is read -/

/-- Actions that belong to an attempt and not to the order's current generation. -/
def generationExempt : Action → Bool
  | .bondSlashed | .addBondInvoice | .bondInvoiceAccepted | .bondPayoutCompleted => true
  | _ => false

/-- The generation gate: the message is addressed to a trade key older than the bound one. -/
def supersededKey (d : Delivery) (s : OrderState) : Bool :=
  !generationExempt d.msg.action && s.tradeKey.any (d.tradeIndex < ·)

/-- Rebind the local UUID of this key's own pending create to the daemon's id. No row and no
book entry is ever kept under a local UUID, so only the binding is left to move. -/
def reconcileStoredId (d : Delivery) (s : OrderState) : OrderState :=
  if s.bookEntry.isNone && d.storedId.any fun localId =>
      mayReconcileStoredId localId s.orderId (pendingLocalUuidFor d.tradePubkey s.pending) then
    s.storeTradeKeyIndex d.tradeIndex
  else s

/-! ## The peer capture -/

/-- The two trade pubkeys a payload names; both or none, and an empty one is none. -/
def peerRevealPubkeys (msg : Message) : Option (String × String) :=
  (carriedOrder msg).bind fun o => match o.buyerTradePubkey, o.sellerTradePubkey with
    | some buyer, some seller => if buyer ≠ "" ∧ seller ≠ "" then some (buyer, seller) else none
    | _, _ => none

/-- Which of the two named keys is the counterparty, and our own side. -/
def resolvePeerSide (mine buyer seller : String) : Option (String × TradeRole) :=
  if mine = buyer then some (seller, .buyer)
  else if mine = seller then some (buyer, .seller)
  else none

/-- Put the peer and the shared key into the session, created from the row's order or the
book's when there is none. -/
def applyPeerReveal (env : Env) (d : Delivery) (peer : String) (role : TradeRole)
    (s : OrderState) : OrderState :=
  match env.sharedKey d.tradeIndex peer with
  | none => s
  | some key =>
      let order := (s.trade.map (·.order)).orElse fun _ => s.bookEntry
      let session := s.session.orElse fun _ => (order.filter (·.id = s.orderId)).map fun o =>
        ⟨s.orderId, role, d.tradeIndex, none, none, none, o, d.now⟩
      match session with
      | some x => s.setSession { x with peerPubkey := some peer, sharedKey := some key }
      | none => s

/-- The session already holds this reveal. -/
def captureComplete (buyer seller : String) (s : OrderState) : Bool :=
  s.session.any fun x =>
    x.sharedKey.isSome && x.peerPubkey.any fun p => p = buyer || p = seller

/-- Capture the counterparty from any payload that names both trade pubkeys. -/
def maybeCapturePeerReveal (env : Env) (d : Delivery) (s : OrderState) : OrderState :=
  match peerRevealPubkeys d.msg with
  | none => s
  | some (buyer, seller) =>
      if captureComplete buyer seller s then s
      else match env.parsePubkey buyer, env.parsePubkey seller with
        | some buyerPk, some sellerPk =>
            if s.statusSyncBlockedByTerminal d.msg.action then s
            else match (env.tradePubkey d.tradeIndex).bind (resolvePeerSide · buyerPk sellerPk) with
              | some (peer, role) =>
                  applyPeerReveal env d peer role (s.updateTradeCounterparty peer)
              | none => s
        | _, _ => s

/-- The capture's place in the dispatch: not for a slash notice, not for a wiped row. -/
def capturePeer (env : Env) (d : Delivery) (row : RowState) (s : OrderState) : OrderState :=
  if d.msg.action = .bondSlashed ∨ row = .wiped then s else maybeCapturePeerReveal env d s

/-! ## Waiting callers -/

/-- Resolve a waiting take: any message but a refusal that echoes its nonce. The order's guard
rides along when the message names the order. -/
def interceptTake (d : Delivery) (s : OrderState) : Option OrderState :=
  if d.msg.action = .cantDo then none
  else
    let r := takeMatchingTake d.tradePubkey d.msg.requestId s.pending
    r.2.map fun p =>
      (s.setPending r.1).send p.tx
        ⟨classifyTakeReply d.msg.action d.msg.payload, d.namesOrder⟩

/-- A claim's acknowledgement unblocks its submission. -/
def answerClaimSubmit (d : Delivery) (s : OrderState) : OrderState :=
  if d.msg.action = .bondInvoiceAccepted ∨ d.msg.action = .bondPayoutCompleted then
    let r := takeMatchingClaimSubmit d.tradePubkey d.msg.requestId s.pending
    (s.setPending r.1).send (r.2.bind (·.tx)) (Wake.from .acknowledged)
  else s

/-- Any reply acknowledges a waiting add-invoice and goes on to its arm. -/
def answerAddInvoice (d : Delivery) (s : OrderState) : OrderState :=
  let r := takeMatchingAddInvoice d.tradePubkey d.msg.requestId s.pending
  (s.setPending r.1).send (r.2.bind (·.tx)) (Wake.from .acknowledged)

def disputeIdFromPayload : Option Payload → Option String
  | some (.dispute id) => some id
  | _ => none

/-- A dispute is accepted by the one action that says so. -/
def answerDispute (d : Delivery) (s : OrderState) : OrderState :=
  if d.msg.action = .disputeInitiatedByYou then
    let r := takeMatchingDispute d.tradePubkey d.msg.requestId s.pending
    match r.2 with
    | some (.waiting tx) =>
        (s.setPending r.1).send (some tx)
          (Wake.from (.disputeAccepted (disputeIdFromPayload d.msg.payload)))
    | _ => s.setPending r.1
  else s

def answerWaiters (d : Delivery) (s : OrderState) : OrderState :=
  if d.msg.action = .cantDo then s
  else answerDispute d (answerAddInvoice d (answerClaimSubmit d s))

/-- Rebuild a row that was never written, under the cursor the arms consult. -/
def rebuildIfNeverWritten (d : Delivery) (row : RowState) (s : OrderState) :
    OrderState × RowState :=
  match row with
  | .neverWritten =>
      if s.statusWriteBlocked d.msg.action d.msg.createdAt then (s, row)
      else match rebuildTradeFromDm d s with
        | (s, some t) => (s, .existing t)
        | (s, none) => (s, row)
  | _ => (s, row)

/-! ## What the arms share -/

/-- Sync the row the dispatch holds, and tell the screens when it changed. -/
def syncAndEmit (row : RowState) (status : OrderStatus) (holdInvoice : Option String)
    (amountSats : Option Nat) (occurredAt : Int) (s : OrderState) : OrderState :=
  let r := s.syncTradeFieldsIfChanged row.trade (some status) holdInvoice amountSats
  if r.2 then r.1.emitTradeUpdateAt status none occurredAt else r.1

/-- `status_arm_gate`: no row is coming back for a deliberately wiped trade. -/
def statusArmGate (row : RowState) : Bool := row = .wiped

/-- The counterparty's reputation, stored and shown under the status the book has. -/
def persistPeerReputation (d : Delivery) (s : OrderState) : OrderState :=
  match peerReputation d.msg.payload with
  | none => s
  | some (rating, reviews, days) =>
      let s := s.updateTradePeerReputation rating reviews days
      match s.bookEntry with
      | some info => s.emitTradeUpdateAt info.status none d.msg.createdAt
      | none => s

/-! ## The arms -/

/-- A `new-order` that matches no pending create. -/
def uncorrelatedNewOrder (d : Delivery) (row : RowState) (s : OrderState) : OrderState :=
  let confirmed := confirmMakerBond d row s
  if confirmed.2 then confirmed.1
  else
    let adopted := adoptRangeRemainder d confirmed.1
    if adopted.2 ∨ row = .wiped then adopted.1
    else (resyncRepublishedMakerOrder d adopted.1).1

/-- `new-order`. A confirmation wakes its create without the order's guard. -/
def newOrderArm (d : Delivery) (row : RowState) (s : OrderState) : OrderState :=
  let r := takeMatchingRequest d.tradePubkey d.msg.requestId s.pending
  let s := s.setPending r.1
  match r.2 with
  | none => uncorrelatedNewOrder d row s
  | some p =>
      let s := s.storeTradeKeyIndex p.tradeIndex
      match p.kind with
      | .create _ true => (confirmMakerBond d row s).1
      | .create _ false => match p.tx with
          | some tx => s.send (some tx) (Wake.from (.confirmed s.orderId))
          | none => persistLateCreateConfirmation d p.tradeIndex s
      | _ => s

def restoreSessionArm (d : Delivery) (s : OrderState) : OrderState :=
  match d.msg.payload with
  | some (.restoreData info) =>
      let r := takeMatchingRestore d.tradePubkey d.msg.createdAt s.pending
      (s.setPending r.1).send (r.2.bind (·.tx)) (Wake.from (.restored info))
  | _ => s

/-- `canceled` over a row that never went active: the reason of the bond window is read before
the row goes. -/
def cancelNeverActive (d : Delivery) (t : TradeInfo) (s : OrderState) : OrderState :=
  let r := if t.order.status = .waitingTakerBond then bondCancelReason s else (s, none)
  (r.1.wipeNeverActiveTrade (!t.order.isMine) d.msg.createdAt t.tradeKeyIndex).emitTradeUpdateAt
    .canceled r.2 d.msg.createdAt

/-- `canceled` over any other trade, or over a store that did not answer: history is kept. -/
def cancelKeepingHistory (d : Delivery) (row : RowState) (s : OrderState) : OrderState :=
  syncAndEmit row .canceled none none d.msg.createdAt (noteBondReleased row s.forgetWireOrder)

def canceledArm (d : Delivery) (row : RowState) (s : OrderState) : OrderState :=
  if statusArmGate row || s.statusWriteBlocked d.msg.action d.msg.createdAt then s
  else
    let s := s.recordStatusEvent d.msg.createdAt d.now
    match row with
    | .existing t =>
        if cancellationWipesHistory t.order.status then cancelNeverActive d t s
        else cancelKeepingHistory d row s
    -- no row to end, but a screen may show the order
    | .neverWritten => s.emitTradeUpdateAt .canceled none d.msg.createdAt
    | _ => cancelKeepingHistory d row s

/-- `buyer-took-order` and `hold-invoice-payment-accepted`. A payload that is not an order ends
the arm after the cursor moved. -/
def escrowLockedArm (d : Delivery) (row : RowState) (s : OrderState) : OrderState :=
  if statusArmGate row || s.statusWriteBlocked d.msg.action d.msg.createdAt then s
  else
    let s := noteBondLocked row d.now (s.recordStatusEvent d.msg.createdAt d.now)
    match payloadOrder d.msg with
    | none => s
    | some so =>
        match (so.status.bind mapCoreStatus).orElse fun _ => statusForAction d.msg.action with
        | some status =>
            syncAndEmit row status none none d.msg.createdAt (s.updateOrderStatus status)
        | none => s

/-- The book's copy of an invoice request: the status and, when given, the sats. -/
def syncBookEntry (status : OrderStatus) (amountSats : Option Nat) (s : OrderState) :
    OrderState :=
  match s.bookEntry with
  | some info => s.upsertOrder { info with
      status := status
      amountSats := amountSats.orElse fun _ => info.amountSats }
  | none => s

def addInvoiceArm (d : Delivery) (row : RowState) (s : OrderState) : OrderState :=
  if statusArmGate row then s
  else
    let s := noteBondLocked row d.now s
    match addInvoiceSync d.msg.payload with
    | none => persistPeerReputation d s
    | some (status, amount) =>
        if s.statusWriteBlocked d.msg.action d.msg.createdAt then s
        else
          let s := (s.recordStatusEvent d.msg.createdAt d.now).recordInvoiceStepStart status
            d.msg.createdAt d.now
          syncAndEmit row status none amount d.msg.createdAt (syncBookEntry status amount s)

def payInvoiceArm (d : Delivery) (row : RowState) (s : OrderState) : OrderState :=
  if statusArmGate row then s
  else
    let s := noteBondLocked row d.now s
    match d.msg.payload with
    | some (.paymentRequest so invoice amount) =>
        let amount := (amount.bind tryU64).orElse fun _ =>
          so.bind fun o => positiveSats o.amount
        if s.statusWriteBlocked d.msg.action d.msg.createdAt then s
        else
          let s := (s.recordStatusEvent d.msg.createdAt d.now).recordInvoiceStepStart
            .waitingPayment d.msg.createdAt d.now
          syncAndEmit row .waitingPayment (some invoice) amount d.msg.createdAt
            (s.updateOrderStatus .waitingPayment)
    | _ => persistPeerReputation d s

/-- The remaining status updates; an action without a status changes nothing. -/
def statusArm (d : Delivery) (row : RowState) (s : OrderState) : OrderState :=
  if statusArmGate row then s
  else match statusForAction d.msg.action with
    | none => s
    | some status =>
        if s.statusWriteBlocked d.msg.action d.msg.createdAt then s
        else
          let s := s.recordStatusEvent d.msg.createdAt d.now
          let s := if isHardTerminal status || status = .settledHoldInvoice then
              noteBondReleased row s
            else noteBondLocked row d.now s
          let s := syncAndEmit row status none none d.msg.createdAt (s.updateOrderStatus status)
          if isHardTerminal status then s.forgetWireOrder else s

/-- A cooperative-cancel request: who asked is remembered, the trade's own status is shown. -/
def cooperativeCancelArm (state : CooperativeCancelState) (reason : TradeUpdateReason)
    (d : Delivery) (row : RowState) (s : OrderState) : OrderState :=
  if statusArmGate row || s.statusWriteBlocked d.msg.action d.msg.createdAt then s
  else
    let s := (s.recordStatusEvent d.msg.createdAt d.now).setCooperativeCancelState state
    s.emitTradeUpdateAt (s.currentLocalStatus.getD .active) (some reason) d.msg.createdAt

/-- The reason a refusal names. -/
def cantDoReason : Option Payload → String
  | some (.cantDo (some reason)) => reason
  | _ => "unknown"

/-- The text a refused caller gets. -/
def cantDoMessage (reason : String) : String :=
  match reason with
  | "OutOfRangeSatsAmount" => "Order rejected: sats amount is out of the allowed range."
  | "OutOfRangeFiatAmount" => "Order rejected: fiat amount is out of the allowed range."
  | "InvalidAmount" => "Order rejected: invalid amount."
  | "InvalidInvoice" => "Order rejected: invalid Lightning invoice."
  | "IsNotYourOrder" => "Order rejected: this order does not belong to you."
  | "NotAllowedByStatus" => "Action rejected: not allowed in the current order status."
  | "OrderAlreadyCanceled" => "Order is already canceled."
  | "MaintenanceMode" => "MaintenanceMode"
  | "InvalidTradeIndex" => "InvalidTradeIndex"
  | other => "Order rejected by Mostro: " ++ other

/-- A refusal consumes the pending restore of the key, else the request it echoes. -/
def cantDoArm (d : Delivery) (s : OrderState) : OrderState :=
  let reason := cantDoReason d.msg.payload
  let restore := takeMatchingRestore d.tradePubkey d.msg.createdAt s.pending
  let r := match restore.2 with
    | some _ => restore
    | none => takeMatchingRequest d.tradePubkey d.msg.requestId restore.1
  (s.setPending r.1).send (r.2.bind (·.tx)) (Wake.from (.rejected reason (cantDoMessage reason)))

/-- `pay-bond-invoice` with no take waiting: the answer to a create, or a refresh. -/
def payBondInvoiceArm (env : Env) (d : Delivery) (row : RowState) (s : OrderState) : OrderState :=
  let r := claimCreateBond d.tradePubkey d.msg.requestId s.pending
  let s := s.setPending r.1
  match r.2 with
  | some claim => handleCreateBondReply env d claim s
  | none => refreshTakerBond env d row s

/-- The arm of each action. -/
def arm (env : Env) (d : Delivery) (row : RowState) (s : OrderState) : OrderState :=
  match d.msg.action with
  | .newOrder => newOrderArm d row s
  | .restoreSession => restoreSessionArm d s
  | .canceled => canceledArm d row s
  | .buyerTookOrder | .holdInvoicePaymentAccepted => escrowLockedArm d row s
  | .addInvoice => addInvoiceArm d row s
  | .payInvoice => payInvoiceArm d row s
  | .waitingSellerToPay | .waitingBuyerInvoice | .buyerInvoiceAccepted | .fiatSentOk
  | .holdInvoicePaymentSettled | .holdInvoicePaymentCanceled | .released | .purchaseCompleted
  | .cooperativeCancelAccepted | .disputeInitiatedByYou | .disputeInitiatedByPeer | .adminSettled
  | .adminCanceled | .invoiceUpdated | .rate | .rateUser | .rateReceived | .paymentFailed =>
      statusArm d row s
  | .cooperativeCancelInitiatedByYou =>
      cooperativeCancelArm .requestedByMe .cooperativeCancelRequestedByMe d row s
  | .cooperativeCancelInitiatedByPeer =>
      cooperativeCancelArm .requestedByPeer .cooperativeCancelRequestedByPeer d row s
  | .cantDo => cantDoArm d s
  | .bondSlashed => slashBond d s
  | .payBondInvoice => payBondInvoiceArm env d row s
  | .adminTookDispute | .addBondInvoice | .bondInvoiceAccepted | .bondPayoutCompleted
  | .other _ => s

/-! ## The dispatcher -/

/-- A message that names the order, past the generation gate. -/
def dispatchCurrent (env : Env) (d : Delivery) (s : OrderState) : OrderState :=
  let s := reconcileStoredId d s
  let row := s.tradeRowState d.rowLookupFails d.tradeIndex
  let s := capturePeer env d row s
  -- a take that waits for this message consumes it, and no arm runs
  match interceptTake d s with
  | some s => s
  | none =>
      let r := rebuildIfNeverWritten d row (answerWaiters d s)
      arm env d r.2 r.1

/-- A message that names no order owns no order state; it still answers who is waiting. -/
def dispatchUnaddressed (d : Delivery) (s : OrderState) : OrderState :=
  match interceptTake d s with
  | some s => s
  | none =>
      let s := answerWaiters d s
      match d.msg.action with
      | .restoreSession => restoreSessionArm d s
      | .cantDo => cantDoArm d s
      | _ => s

/-- `dispatch_mostro_message`, for the messages of one order. -/
def dispatchMostroMessage (env : Env) (d : Delivery) (s : OrderState) : OrderState :=
  if d.namesOrder = false then dispatchUnaddressed d s
  else if supersededKey d s then s
  else dispatchCurrent env d s

end MostroApp.Orders
