import MostroApp.Api.OrderState

set_option autoImplicit false

/-! # Rows built from daemon messages (`api/orders.rs`)

The paths that create a trade row from a message instead of from a local action: the
remainder of a range order, a late create confirmation, the rebuild of a trade nobody wrote
down; and the ones that move a maker's row when its order is republished or its bond locks.
A `Bool` result says whether the path acted.
-/

namespace MostroApp.Orders

open Pending Status
open Wire (Action Payload SmallOrder Message)

/-! ## What the order's stores cannot know -/

/-- Keys and invoices, as the client's crypto reads them. -/
structure Env where
  /-- The public key of a trade-key index, when it can be derived. -/
  tradePubkey : Nat → Option String
  /-- `PublicKey::from_hex`, then `to_hex`. -/
  parsePubkey : String → Option String
  /-- The shared key of a trade-key index and a peer. -/
  sharedKey : Nat → String → Option String
  /-- The expiry of a bolt11. -/
  decodeBolt11 : String → Option Int

/-- A daemon message as it reaches the dispatcher: whether it names the order, the key it
decrypted with, the local clock, the order id the store names for that key index, and which of
the two row lookups of the dispatch the store fails to answer. -/
structure Delivery where
  msg : Message
  namesOrder : Bool := true
  tradeIndex : Nat
  tradePubkey : String
  now : Int
  storedId : Option String := none
  rowLookupFails : Bool := false
  adoptLookupFails : Bool := false

/-! ## The row a `SmallOrder` proves -/

def orderKindOf : Wire.Kind → OrderKind
  | .sell => .sell
  | .buy => .buy

/-- The maker's side of an order kind. -/
def makerRole : Wire.Kind → TradeRole
  | .sell => .seller
  | .buy => .buyer

/-- The trade row a daemon message proves this client owns; `none` when the payload names no
order kind. -/
def tradeRowFromSmallOrder (orderId : String) (order : SmallOrder) (role : TradeRole)
    (isMine : Bool) (tradeIndex : Nat) (counterpartyPubkey creatorPubkey : String)
    (status : OrderStatus) (now : Int) : Option TradeInfo :=
  order.kind.map fun kind =>
    let isRange := order.minAmount.isSome && order.maxAmount.isSome
    { id := orderId
      order :=
        { id := orderId
          kind := orderKindOf kind
          status := status
          amountSats := positiveSats order.amount
          fiatAmount := if isRange then none else some order.fiatAmount
          fiatAmountMin := order.minAmount.map fun v => (v : Rat)
          fiatAmountMax := order.maxAmount.map fun v => (v : Rat)
          fiatCode := order.fiatCode
          paymentMethod := order.paymentMethod
          premium := order.premium
          creatorPubkey := creatorPubkey
          createdAt := order.createdAt.getD now
          expiresAt := order.expiresAt
          isMine := isMine }
      role := role
      counterpartyPubkey := counterpartyPubkey
      tradeKeyIndex := tradeIndex
      startedAt := (order.createdAt.filter (0 < ·)).getD now }

/-- The payload's order, when the payload is one. -/
def payloadOrder (msg : Message) : Option SmallOrder :=
  match msg.payload with
  | some (.order o) => some o
  | _ => none

/-- The order a payload carries, as itself or inside a payment request. -/
def carriedOrder (msg : Message) : Option SmallOrder :=
  match msg.payload with
  | some (.order o) | some (.paymentRequest (some o) _ _) => some o
  | _ => none

/-! ## Creating rows -/

/-- The row `adopt_range_remainder` would create for this message: a `Pending` order whose
trade index is the key's own. -/
def remainderRow (d : Delivery) (orderId : String) : Option TradeInfo := do
  let order ← payloadOrder d.msg
  if order.status = some .pending ∧ d.msg.tradeIndex = some (d.tradeIndex : Int) then
    let kind ← order.kind
    tradeRowFromSmallOrder orderId order (makerRole kind) true d.tradeIndex "" d.tradePubkey
      .pending d.now
  else none

/-- Adopt the remainder of a range order this client made, or the replayed acknowledgement of
a create whose confirmation timed out. Not over a row, a covering tombstone or a newer event;
a store that fails to answer the first two lookups does not stop it. -/
def adoptRangeRemainder (d : Delivery) (s : OrderState) : OrderState × Bool :=
  match remainderRow d s.orderId with
  | none => (s, false)
  | some trade =>
      if !d.adoptLookupFails && s.trade.isSome then (s, false)
      else if !d.adoptLookupFails && s.tradeWiped.any (·.covers d.tradeIndex) then (s, false)
      else if s.statusWriteBlocked d.msg.action d.msg.createdAt then (s, false)
      else
        (((s.storeTradeKeyIndex d.tradeIndex).persistTradeRow trade).emitTradeUpdateAt .pending
          none d.msg.createdAt, true)

/-- Actions that never describe a live trade to recover. -/
def rebuildExcludes : Action → Bool
  | .newOrder | .canceled | .cantDo | .bondSlashed | .payBondInvoice | .restoreSession
  | .adminTookDispute => true
  | _ => false

/-- `str::eq_ignore_ascii_case`. -/
def eqIgnoreAsciiCase (a b : String) : Bool := a.toLower = b.toLower

/-- The role a message proves for the key it decrypted with: the payload's trade pubkeys, or,
when it names none, the two actions that only ever address one side. -/
def provenRole (msg : Message) (order : SmallOrder) (tradePubkey : String) : Option TradeRole :=
  if order.buyerTradePubkey.any (eqIgnoreAsciiCase · tradePubkey) then some .buyer
  else if order.sellerTradePubkey.any (eqIgnoreAsciiCase · tradePubkey) then some .seller
  else if order.buyerTradePubkey.isNone && order.sellerTradePubkey.isNone then
    match msg.action with
    | .addInvoice => some .buyer
    | .payInvoice => some .seller
    | _ => none
  else none

/-- The row `rebuild_trade_from_dm` would create for this message. -/
def rebuiltRow (d : Delivery) (orderId : String) : Option TradeInfo := do
  if rebuildExcludes d.msg.action then none
  else
    let order ← carriedOrder d.msg
    let role ← provenRole d.msg order d.tradePubkey
    let counterparty := match role with
      | .buyer => order.sellerTradePubkey.getD ""
      | .seller => order.buyerTradePubkey.getD ""
    let status ← (order.status.bind mapCoreStatus).orElse fun _ => statusForAction d.msg.action
    let isMine := order.kind.map makerRole = some role
    tradeRowFromSmallOrder orderId order role isMine d.tradeIndex counterparty "" status d.now

/-- Rebuild the row a message describes when none exists and none was wiped. -/
def rebuildTradeFromDm (d : Delivery) (s : OrderState) : OrderState × Option TradeInfo :=
  match rebuiltRow d s.orderId with
  | none => (s, none)
  | some trade =>
      (((s.storeTradeKeyIndex d.tradeIndex).persistTradeRow trade).emitTradeUpdateAt
        trade.order.status none d.msg.createdAt, some trade)

/-- The maker row of a create whose confirmation outran its waiter. -/
def persistLateCreateConfirmation (d : Delivery) (tradeIndex : Nat) (s : OrderState) :
    OrderState :=
  match (do
    let order ← payloadOrder d.msg
    let kind ← order.kind
    let status := (order.status.bind mapCoreStatus).getD .pending
    tradeRowFromSmallOrder s.orderId order (makerRole kind) true tradeIndex "" d.tradePubkey
      status d.now) with
  | none => s
  | some trade =>
      (s.persistTradeRow trade).emitTradeUpdateAt trade.order.status none d.msg.createdAt

/-! ## Moving a maker's row -/

/-- The waiting states a republished order brings back to `Pending`. -/
def republishResets : OrderStatus → Bool
  | .waitingPayment | .waitingBuyerInvoice | .inProgress => true
  | _ => false

/-- The daemon put a taken order of ours back on the book. -/
def resyncRepublishedMakerOrder (d : Delivery) (s : OrderState) : OrderState × Bool :=
  if (payloadOrder d.msg).any (·.status = some .pending) = false then (s, false)
  else if s.currentLocalStatus.any republishResets = false then (s, false)
  else if s.statusWriteBlocked d.msg.action d.msg.createdAt then (s, false)
  else
    ((((s.recordStatusEvent d.msg.createdAt d.now).updateOrderStatus .pending).updateTradeFields
      (some .pending) none none).emitTradeUpdateAt .pending none d.msg.createdAt, true)

/-- Whether a maker row is the placeholder a fresh-device restore leaves. -/
def isRestoredMakerPlaceholder (t : TradeInfo) : Bool :=
  t.order.status = .waitingMakerBond && t.order.isMine && t.order.fiatCode = "" &&
    t.bond.any (·.invoice = none)

/-- Complete a restored placeholder from the order the daemon published. -/
def fillRestoredMakerRow (t : TradeInfo) (published : SmallOrder) (creatorPubkey : String)
    (now : Int) : Option TradeInfo := do
  let kind ← published.kind
  let filled ← tradeRowFromSmallOrder t.order.id published (makerRole kind) true t.tradeKeyIndex
    "" creatorPubkey t.order.status now
  return { filled with id := t.id, bond := t.bond, startedAt := t.startedAt }

/-- The bond of a row the lock is inferred for. -/
def lockBond (now : Int) (b : BondInfo) : BondInfo :=
  { b with state := .locked, lockedAt := some now }

/-- The maker's bond locked: this key's own `WaitingMakerBond` row moves to `Pending`. -/
def lockMakerBond (t : TradeInfo) (tradeIndex : Nat) (now : Int) (s : OrderState) :
    OrderState × Bool :=
  if t.order.status ≠ .waitingMakerBond ∨ t.order.isMine = false ∨ t.tradeKeyIndex ≠ tradeIndex
  then (s, false)
  else
    let s := match t.bond with
      | some b => if b.state = BondState.requested then s.updateTradeBond (lockBond now b) else s
      | none => s
    ((s.updateTradeFields (some .pending) none none).emitTradeUpdateAt .pending none now, true)

/-- `confirm_maker_bond`: a restored placeholder is completed first. -/
def confirmMakerBond (d : Delivery) (row : RowState) (s : OrderState) : OrderState × Bool :=
  match row.trade with
  | none => (s, false)
  | some t =>
      let filled := if isRestoredMakerPlaceholder t then
          (payloadOrder d.msg).bind fun so => fillRestoredMakerRow t so d.tradePubkey d.now
        else none
      match filled with
      | some filled => lockMakerBond filled d.tradeIndex d.now (s.persistTradeRow filled)
      | none => lockMakerBond t d.tradeIndex d.now s

end MostroApp.Orders
