import MostroApp.Api.TradeRows

set_option autoImplicit false

/-! # The anti-abuse bond (`api/orders.rs`)

A daemon may park a take, or a fresh order, until a bond bolt11 is paid. It names neither the
lock nor the release: the client infers the first from the first trade-flow message and the
second from a terminal outcome, and ends an unpaid window on its own clock. Each function here
runs under the order's lock.
-/

namespace MostroApp.Orders

open Pending Status
open Wire (Message)

/-! ## The bond record -/

/-- A freshly requested bond: the bolt11 as sent, its expiry decoded from the invoice. -/
def bondRequested (env : Env) (role : BondRole) (request : BondRequest) (requestedAt : Int) :
    BondInfo :=
  { role := role
    amountSats := request.amountSats
    invoice := some request.invoice
    state := .requested
    requestedAt := requestedAt
    expiresAt := env.decodeBolt11 request.invoice
    lockedAt := none }

/-- Whether a bond bolt11 dated `eventTs` is older than the one the row holds. -/
def bondRefreshIsStale (existing : BondInfo) (eventTs : Int) : Bool :=
  eventTs + maxClockSkewSecs < existing.requestedAt

/-- When an unpaid bond window ends locally, if it does: a taker's with the bolt11, a maker's
with the earlier of the bolt11 and the order. -/
def bondDeadline (t : TradeInfo) : Option Int :=
  if t.bond.any (·.state ≠ .requested) then none
  else
    let invoiceExpiry := t.bond.bind (·.expiresAt)
    match t.order.status with
    | .waitingTakerBond => invoiceExpiry
    | .waitingMakerBond => match invoiceExpiry, t.order.expiresAt with
        | some a, some b => some (min a b)
        | a, b => a.orElse fun _ => b
    | _ => none

def bondExpired (t : TradeInfo) (now : Int) : Bool := (bondDeadline t).any (· < now)

/-- An expired window belongs to a trade that never went active. -/
theorem cancellationWipesHistory_of_bondExpired {t : TradeInfo} {now : Int}
    (h : bondExpired t now = true) : cancellationWipesHistory t.order.status = true := by
  unfold bondExpired bondDeadline at h
  split at h
  · cases h
  · revert h
    cases t.order.status <;> simp [cancellationWipesHistory]

/-! ## Inferring the lock and the release -/

/-- The first trade-flow message after `pay-bond-invoice` records the lock. -/
def noteBondLocked (row : RowState) (now : Int) (s : OrderState) : OrderState :=
  match row.trade with
  | none => s
  | some t =>
      if t.order.status ≠ .waitingTakerBond then s
      else match t.bond with
        | some b => if b.state = BondState.requested then s.updateTradeBond (lockBond now b) else s
        | none => s

/-- A trade that ended without a slash notice released its bond. -/
def noteBondReleased (row : RowState) (s : OrderState) : OrderState :=
  match row.trade.bind (·.bond) with
  | none => s
  | some b =>
      if b.state = BondState.requested ∨ b.state = BondState.locked then
        s.updateTradeBond { b with state := .released }
      else s

/-- Why a `canceled` arrived during the taker's bond window; reading it consumes the note of
the user's own cancel. -/
def bondCancelReason (s : OrderState) : OrderState × Option TradeUpdateReason :=
  if s.userCancel then (s.setUserCancel false, some .userCanceled)
  else
    (s, match s.bookEntry.map OrderInfo.status with
      | some .canceled | some .canceledByAdmin | some .expired => some .makerCanceled
      | some .pending | some .inProgress => some .bondLostRace
      | _ => none)

/-! ## Requests for a bond -/

/-- The bond amount of a `pay-bond-invoice` payload: its own, else its order's. -/
def bondAmount (order : Option Wire.SmallOrder) (amount : Option Int) : Option Nat :=
  (amount.bind tryU64).orElse fun _ => order.bind fun o => tryU64 o.amount

/-- The row a late maker bond is persisted as. -/
def lateBondRow (env : Env) (d : Delivery) (orderId : String) (tradeIndex : Nat)
    (order : Wire.SmallOrder) (request : BondRequest) : Option TradeInfo := do
  let kind ← order.kind
  let t ← tradeRowFromSmallOrder orderId order (makerRole kind) true tradeIndex "" d.tradePubkey
    .waitingMakerBond d.now
  -- the payload's amount is the bond, not the order's sats
  return { t with
    order := { t.order with amountSats := none }
    bond := some (bondRequested env .maker request d.msg.createdAt) }

/-- The `pay-bond-invoice` that answers a pending create: hand it to the waiting caller with
the order's guard, or write the row here when the caller is gone. -/
def handleCreateBondReply (env : Env) (d : Delivery) (claim : CreateBondClaim) (s : OrderState) :
    OrderState :=
  match d.msg.payload with
  | some (.paymentRequest so invoice amount) =>
      let s := s.storeTradeKeyIndex claim.tradeIndex
      let request : BondRequest := ⟨(bondAmount so amount).getD 0, invoice⟩
      match claim.tx with
      | some tx => s.send (some tx) ⟨.bondRequested s.orderId request, true⟩
      | none =>
          match so.bind fun o => lateBondRow env d s.orderId claim.tradeIndex o request with
          | some t => (s.persistTradeRow t).emitTradeUpdateAt .waitingMakerBond none d.now
          | none => s
  | _ => s

/-- A `pay-bond-invoice` nothing is waiting for refreshes the bolt11 of a row still in the
taker's bond window. -/
def refreshTakerBond (env : Env) (d : Delivery) (row : RowState) (s : OrderState) : OrderState :=
  match row.trade, d.msg.payload with
  | some t, some (.paymentRequest so invoice amount) =>
      if t.order.status ≠ .waitingTakerBond then s
      else
        let amountSats :=
          ((bondAmount so amount).orElse fun _ => t.bond.map (·.amountSats)).getD 0
        let bond := bondRequested env .taker ⟨amountSats, invoice⟩ d.msg.createdAt
        if t.bond.any fun b => b.invoice = some invoice ∨ bondRefreshIsStale b d.msg.createdAt then
          s
        else (s.updateTradeBond bond).emitTradeUpdateAt .waitingTakerBond none d.msg.createdAt
  | _, _ => s

/-- A slash notice: the durable bond becomes `Slashed`, nothing else of the order moves. -/
def slashBond (d : Delivery) (s : OrderState) : OrderState :=
  match payloadOrder d.msg with
  | some so =>
      if so.amount < 0 then s
      else match s.trade.bind (·.bond) with
        | some b =>
            if b.state = BondState.slashed then s
            else s.updateTradeBond { b with state := .slashed }
        | none => s
  | none => s

/-! ## The end of an unpaid window -/

/-- The public book carries a maker's order: the daemon published it, so the bond locked. -/
def makerOrderIsPublished (s : OrderState) : Bool :=
  match s.bookEntry.map OrderInfo.status with
  | some .pending | some .inProgress => true
  | _ => false

/-- Close a bond-window row whose deposit went unpaid, on the row as it is under the lock.
`listed` is the row the sweep listed. -/
def closeExpiredBondTrade (listed : TradeInfo) (now : Int) (s : OrderState) :
    OrderState × Bool :=
  match s.trade with
  | none => (s, false)
  | some t =>
      if bondExpired listed now = false ∨ bondExpired t now = false then (s, false)
      else if t.order.status = .waitingMakerBond ∧ makerOrderIsPublished s = true then
        let r := lockMakerBond t t.tradeKeyIndex now s
        (r.1, !r.2)
      else
        ((s.emitTradeUpdateAt .expired (some .bondExpired) now).wipeNeverActiveTrade
          (!t.order.isMine) now t.tradeKeyIndex, true)

/-! ## Restoring a parked order -/

/-- The row a fresh-device restore rebuilds for an order parked on a bond: a taker's from the
public order, a maker's as a placeholder created by `node`. -/
def restoredBondRow (orderId : String) (tradeIndex : Nat) (status : OrderStatus)
    (book : Option OrderInfo) (node : String) (now : Int) : TradeInfo :=
  let maker := status = .waitingMakerBond
  let role := if maker then TradeRole.seller else match book.map OrderInfo.kind with
    | some .sell => .buyer
    | some .buy => .seller
    | none => .buyer
  let order := book.getD
    { id := orderId, kind := .sell, status := status, creatorPubkey := node, createdAt := now }
  { id := orderId
    order := { order with status := status, isMine := maker }
    role := role
    tradeKeyIndex := tradeIndex
    startedAt := now
    bond := some ⟨if maker then .maker else .taker, 0, none, .requested, now, none, none⟩ }

/-- Persist a restored row unless the order has one, under the order's guard. -/
def persistRestoredBondRow (tradeIndex : Nat) (status : OrderStatus) (book : Option OrderInfo)
    (node : String) (now : Int) (s : OrderState) : OrderState :=
  if s.trade.isSome then s
  else
    ((s.storeTradeKeyIndex tradeIndex).persistTradeRow
      (restoredBondRow s.orderId tradeIndex status book node now)).emitTradeUpdateAt status none now

end MostroApp.Orders
