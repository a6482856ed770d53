import Mathlib.Data.Rat.Defs
import Mathlib.Data.Option.Basic

set_option autoImplicit false

/-! # The records of the client and of the wire

The first half are the client's own types (`api/types.rs`, `mostro/session.rs`), the second
half the part of `mostro_core` a daemon message is made of. Unsigned integers are `Nat`,
signed ones `Int`; `f64` fields are rationals, nothing computes with them here. Times are
Unix seconds. A record leaves out the fields that no function of the development reads.
-/

namespace MostroApp

/-! ## Orders and trades -/

inductive OrderKind where
  | buy
  | sell
  deriving DecidableEq, Repr

/-- The client's order statuses. `cooperativelyCanceled` is a client-side state only, and
the two bond states precede the trade flow. -/
inductive OrderStatus where
  | pending
  | waitingBuyerInvoice
  | waitingPayment
  | active
  | fiatSent
  | settledHoldInvoice
  | success
  | canceled
  | expired
  | cooperativelyCanceled
  | canceledByAdmin
  | settledByAdmin
  | completedByAdmin
  | dispute
  | inProgress
  | waitingTakerBond
  | waitingMakerBond
  deriving DecidableEq, Repr

inductive TradeRole where
  | buyer
  | seller
  deriving DecidableEq, Repr

inductive CooperativeCancelState where
  | requestedByMe
  | requestedByPeer
  | accepted
  deriving DecidableEq, Repr

/-- An order as the book shows it and as a trade row embeds it. -/
structure OrderInfo where
  id : String
  kind : OrderKind
  status : OrderStatus
  amountSats : Option Nat := none
  fiatAmount : Option Rat := none
  fiatAmountMin : Option Rat := none
  fiatAmountMax : Option Rat := none
  fiatCode : String := ""
  paymentMethod : String := ""
  premium : Rat := 0
  creatorPubkey : String := ""
  createdAt : Int := 0
  expiresAt : Option Int := none
  isMine : Bool := false
  rating : Rat := 0
  totalReviews : Nat := 0
  daysActive : Nat := 0
  deriving DecidableEq, Repr

inductive BondRole where
  | maker
  | taker
  deriving DecidableEq, Repr

inductive BondState where
  | requested
  | locked
  | released
  | slashed
  deriving DecidableEq, Repr

/-- The bond the daemon asked this user to lock for one trade. -/
structure BondInfo where
  role : BondRole
  amountSats : Nat
  invoice : Option String
  state : BondState
  requestedAt : Int
  expiresAt : Option Int
  lockedAt : Option Int
  deriving DecidableEq, Repr

/-- A trade row. `id` is the order's own id for a row built from a daemon message or a
create, and a fresh one for a confirmed take. -/
structure TradeInfo where
  id : String
  order : OrderInfo
  role : TradeRole
  counterpartyPubkey : String := ""
  holdInvoice : Option String := none
  tradeKeyIndex : Nat
  cooperativeCancelState : Option CooperativeCancelState := none
  timeoutAt : Option Int := none
  startedAt : Int := 0
  peerRating : Option Rat := none
  peerReviews : Option Nat := none
  peerDays : Option Nat := none
  bond : Option BondInfo := none
  deriving DecidableEq, Repr

/-- The cause behind a `TradeUpdate` whose wire action carries none. -/
inductive TradeUpdateReason where
  | userCanceled
  | makerCanceled
  | bondLostRace
  | bondExpired
  | cooperativeCancelRequestedByMe
  | cooperativeCancelRequestedByPeer
  deriving DecidableEq, Repr

/-- A trade lifecycle change pushed to the screens. -/
structure TradeUpdate where
  orderId : String
  status : OrderStatus
  reason : Option TradeUpdateReason
  occurredAt : Int
  deriving DecidableEq, Repr

/-- The in-memory session of a trade: the chat keys of one generation of an order. -/
structure Session where
  orderId : String
  role : TradeRole
  tradeKeyIndex : Nat
  sharedKey : Option String
  adminSharedKey : Option String
  peerPubkey : Option String
  order : OrderInfo
  createdAt : Int
  deriving DecidableEq, Repr

/-! ## Daemon messages -/

namespace Wire

/-- `mostro_core::order::Kind`. -/
inductive Kind where
  | buy
  | sell
  deriving DecidableEq, Repr

/-- `mostro_core::order::Status`. -/
inductive Status where
  | pending
  | waitingBuyerInvoice
  | waitingPayment
  | active
  | inProgress
  | fiatSent
  | settledHoldInvoice
  | success
  | canceled
  | cooperativelyCanceled
  | expired
  | canceledByAdmin
  | settledByAdmin
  | completedByAdmin
  | dispute
  | waitingTakerBond
  | waitingMakerBond
  deriving DecidableEq, Repr

/-- `mostro_core::message::Action`: the actions the client's dispatcher names, and every
other one of the protocol under `other`. -/
inductive Action where
  | newOrder
  | restoreSession
  | canceled
  | buyerTookOrder
  | holdInvoicePaymentAccepted
  | addInvoice
  | payInvoice
  | waitingSellerToPay
  | waitingBuyerInvoice
  | buyerInvoiceAccepted
  | fiatSentOk
  | holdInvoicePaymentSettled
  | holdInvoicePaymentCanceled
  | released
  | purchaseCompleted
  | cooperativeCancelAccepted
  | cooperativeCancelInitiatedByYou
  | cooperativeCancelInitiatedByPeer
  | disputeInitiatedByYou
  | disputeInitiatedByPeer
  | adminSettled
  | adminCanceled
  | adminTookDispute
  | invoiceUpdated
  | rate
  | rateUser
  | rateReceived
  | paymentFailed
  | cantDo
  | addBondInvoice
  | bondInvoiceAccepted
  | bondPayoutCompleted
  | bondSlashed
  | payBondInvoice
  | other (name : String)
  deriving DecidableEq, Repr

/-- The order a daemon payload carries. -/
structure SmallOrder where
  kind : Option Kind := none
  status : Option Status := none
  amount : Int := 0
  fiatCode : String := ""
  minAmount : Option Int := none
  maxAmount : Option Int := none
  fiatAmount : Int := 0
  paymentMethod : String := ""
  premium : Int := 0
  buyerTradePubkey : Option String := none
  sellerTradePubkey : Option String := none
  createdAt : Option Int := none
  expiresAt : Option Int := none
  deriving DecidableEq, Repr

/-- The reputation snapshot of a `Peer` payload. -/
structure UserInfo where
  rating : Rat
  reviews : Int
  operatingDays : Nat
  deriving DecidableEq, Repr

structure Peer where
  pubkey : String
  reputation : Option UserInfo
  deriving DecidableEq, Repr

/-- One order of a restore reply. -/
structure RestoredOrder where
  orderId : String
  tradeIndex : Int
  status : String
  deriving DecidableEq, Repr

structure RestoreSessionInfo where
  restoreOrders : List RestoredOrder
  restoreDisputes : List RestoredOrder
  deriving DecidableEq, Repr

inductive Payload where
  | order (o : SmallOrder)
  | paymentRequest (o : Option SmallOrder) (invoice : String) (amount : Option Int)
  | peer (p : Peer)
  | dispute (id : String)
  | cantDo (reason : Option String)
  | restoreData (info : RestoreSessionInfo)
  | other (name : String)
  deriving DecidableEq, Repr

/-- The inner message a daemon event carries (`MessageKind`), with the timestamp of the
event itself. -/
structure Message where
  action : Action
  requestId : Option Nat := none
  tradeIndex : Option Int := none
  payload : Option Payload := none
  createdAt : Int
  deriving DecidableEq, Repr

end Wire

end MostroApp
