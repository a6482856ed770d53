import MostroApp.Api.Bond

set_option autoImplicit false

/-! # What a confirmed create or take writes (`api/orders.rs`)

`create_order_once` and `take_order_once` wait for the daemon's verdict and, once woken, build
the row and persist it. A take does so under the order's lock, handed over by the dispatcher or
taken here; a create takes no lock, and is handed one only with a bond.
-/

namespace MostroApp.Orders

open Pending Status

/-! ## Takes -/

/-- What a take holds while it waits: the public order it takes, and the row id and trade key
derived for this attempt. -/
structure TakeAttempt where
  rowId : String
  order : OrderInfo
  role : TradeRole
  tradeIndex : Nat
  fiatAmount : Option Rat := none
  deriving DecidableEq, Repr

/-- The part of an acceptance a take applies. -/
structure TakeVerdict where
  status : Option OrderStatus
  amountSats : Option Nat
  holdInvoice : Option String
  bond : Option BondRequest
  deriving DecidableEq, Repr

/-- The replies a take proceeds on; a create-style confirmation is an acceptance without data. -/
def takeVerdict : DaemonReply → Option TakeVerdict
  | .takeAccepted _ status amountSats holdInvoice bond =>
      some ⟨status, amountSats, holdInvoice, bond⟩
  | .confirmed _ => some ⟨none, none, none, none⟩
  | _ => none

/-- The row of a confirmed take. -/
def TakeAttempt.row (a : TakeAttempt) (env : Env) (v : TakeVerdict) (now : Int) : TradeInfo :=
  { id := a.rowId
    order := { a.order with
      status := v.status.getD a.order.status
      amountSats := v.amountSats.orElse fun _ => a.order.amountSats
      fiatAmount := a.fiatAmount.orElse fun _ => a.order.fiatAmount }
    role := a.role
    holdInvoice := v.holdInvoice
    tradeKeyIndex := a.tradeIndex
    timeoutAt := if v.bond.isSome then none else some (now + 900)
    startedAt := now
    bond := v.bond.map fun b => bondRequested env .taker b now }

/-- The book entry follows the verdict, unless the take is parked on a bond: the order is then
still public. -/
def syncTakenEntry (v : TakeVerdict) (s : OrderState) : OrderState :=
  if v.bond.isNone ∧ (v.status.isSome ∨ v.amountSats.isSome) then
    match s.bookEntry with
    | some info => s.upsertOrder { info with
        status := v.status.getD info.status
        amountSats := v.amountSats.orElse fun _ => info.amountSats }
    | none => s
  else s

/-- A peer revealed before the row existed is written to it. -/
def replayCounterparty (s : OrderState) : OrderState :=
  match (s.session.bind (·.peerPubkey)).filter (· ≠ "") with
  | some peer => s.updateTradeCounterparty peer
  | none => s

/-- Everything a take does once it holds the lock. -/
def confirmTake (env : Env) (a : TakeAttempt) (v : TakeVerdict) (now : Int) (s : OrderState) :
    OrderState :=
  let row := a.row env v now
  replayCounterparty (((syncTakenEntry v (s.storeTradeKeyIndex a.tradeIndex)).persistConfirmedTake
    row).installSession a.role a.tradeIndex row.order now)

/-! ## Creates -/

/-- What a create holds while it waits: its order under the local UUID, and when it started. -/
structure CreateAttempt where
  order : OrderInfo
  tradeIndex : Nat
  startedAt : Int
  deriving DecidableEq, Repr

/-- The replies a create proceeds on: the daemon's id, and the bond it was parked for. -/
def createVerdict : DaemonReply → Option (String × Option BondRequest)
  | .confirmed daemonId => some (daemonId, none)
  | .bondRequested daemonId bond => some (daemonId, some bond)
  | _ => none

def ownRole : OrderKind → TradeRole
  | .sell => .seller
  | .buy => .buyer

/-- The row of a confirmed create, under the daemon's id. -/
def CreateAttempt.row (a : CreateAttempt) (env : Env) (daemonId : String)
    (bond : Option BondRequest) : TradeInfo :=
  { id := daemonId
    order := { a.order with
      id := daemonId
      status := if bond.isSome then .waitingMakerBond else a.order.status }
    role := ownRole a.order.kind
    tradeKeyIndex := a.tradeIndex
    startedAt := a.startedAt
    bond := bond.map fun b => bondRequested env .maker b a.startedAt }

end MostroApp.Orders
