import MostroApp.Db.Value

set_option autoImplicit false

/-! # Published orders (`nostr/order_events.rs`)

An order is read from the tags of its event. Its fiat amount is one number, or two for a range;
what is left out, or cannot be read, leaves the order without an amount.
-/

namespace MostroApp.OrderEvents

open Db

/-- `KIND_ORDER`. -/
def kindOrder : Nat := 38383

structure Event where
  kind : Nat := kindOrder
  pubkey : String := ""
  /-- In seconds. -/
  createdAt : UInt64 := 0
  tags : List (List String) := []
deriving DecidableEq

/-- An order as it goes over the bridge, its floats as they are. -/
structure OrderInfo where
  id : String
  kind : OrderKind
  status : OrderStatus
  amountSats : Option Nat
  fiatAmount : Option F64
  fiatAmountMin : Option F64
  fiatAmountMax : Option F64
  fiatCode : String
  paymentMethod : String
  premium : F64
  creatorPubkey : String
  createdAt : Int
  expiresAt : Option Int
  isMine : Bool
  rating : F64
  totalReviews : Nat
  daysActive : Nat
deriving DecidableEq

/-! ## The rating -/

/-- The fields of an object, also of one behind the text `rating`. -/
def ratingFields : Value → Option (List (String × Value))
  | .obj fields => some fields
  | .arr (.str "rating" :: .obj fields :: _) => some fields
  | _ => none

/-- A count that fits a `u32`. -/
def countOf (fields : List (String × Value)) (name : String) : Nat :=
  (((fields.lookup name).bind Value.asU64).filter (· < 2 ^ 32)).getD 0

/-- `parse_rating_tag`: the rating, the number of reviews, and of days. -/
def parseRatingTag (fromJson : String → Option Value) (value : Option String) : F64 × Nat × Nat :=
  match value.filter (· ≠ "none") |>.bind fromJson |>.bind ratingFields with
  | none => (.finite 0, 0, 0)
  | some fields =>
      let inRange := fun x : F64 => F64.le (.finite 0) x && F64.le x (.finite 5)
      ((((fields.lookup "total_rating").bind Value.asF64).filter inRange).getD (.finite 0),
        countOf fields "total_reviews", countOf fields "days")

/-! ## Statuses and amounts -/

def parseStatus : String → Option OrderStatus
  | "pending" => some .pending
  | "waiting-buyer-invoice" => some .waitingBuyerInvoice
  | "waiting-payment" => some .waitingPayment
  | "active" => some .active
  | "fiat-sent" => some .fiatSent
  | "settled-hold-invoice" => some .settledHoldInvoice
  | "success" => some .success
  | "canceled" => some .canceled
  | "cooperatively-canceled" => some .canceled
  | "expired" => some .expired
  | "canceled-by-admin" => some .canceledByAdmin
  | "settled-by-admin" => some .settledByAdmin
  | "completed-by-admin" => some .completedByAdmin
  | "dispute" => some .dispute
  | "in-progress" => some .inProgress
  | _ => none

def parseKind : String → Option OrderKind
  | "buy" => some .buy
  | "sell" => some .sell
  | _ => none

/-- A fiat amount: the fixed one, the least and the most. -/
abbrev FiatAmounts := Option F64 × Option F64 × Option F64

def parseRange (min max : List Char) : FiatAmounts :=
  match F64.fromStr min, F64.fromStr max with
  | some min, some max => (none, some min, some max)
  | _, _ => (none, none, none)

def parseFiatAmounts : List String → FiatAmounts
  | [] => (none, none, none)
  | [single] =>
      match Text.splitOnce [':'] single.toList with
      | some (min, max) => parseRange min max
      | none => (F64.fromStr single.toList, none, none)
  | min :: max :: _ => parseRange min.toList max.toList

/-! ## The order -/

namespace Event

/-- The values of the first tag of a name. -/
def values (event : Event) (name : String) : Option (List String) :=
  (event.tags.find? (·.head? = some name)).map List.tail

/-- The first value of the first tag of a name. -/
def get (event : Event) (name : String) : Option String :=
  (event.values name).bind List.head?

def expiration (event : Event) : Option Int :=
  (event.get "expiration").bind fun v => Numeral.parseSigned (2 ^ 63) v.toList

def fiatValues (event : Event) : List String := (event.values "fa").getD []

end Event

/-- `parse_order_event`. A tag `z` that does not say `order` is put up with. -/
def parseOrderEvent (fromJson : String → Option Value) (event : Event) : Option OrderInfo :=
  if event.kind ≠ kindOrder then none
  else do
    let id ← event.get "d"
    let kind ← (event.get "k").bind parseKind
    let status ← (event.get "s").bind parseStatus
    let fiatCode ← event.get "f"
    let amounts := parseFiatAmounts event.fiatValues
    let rating := parseRatingTag fromJson (event.get "rating")
    pure
      { id := id
        kind := kind
        status := status
        amountSats := (event.get "amt").bind fun v => Numeral.parseUnsigned (2 ^ 64) v.toList
        fiatAmount := amounts.1
        fiatAmountMin := amounts.2.1
        fiatAmountMax := amounts.2.2
        fiatCode := fiatCode
        paymentMethod := ", ".intercalate ((event.values "pm").getD [])
        premium :=
          ((event.get "premium").bind fun v => F64.fromStr v.toList).getD (.finite 0)
        creatorPubkey := event.pubkey
        createdAt := u64AsI64 event.createdAt
        expiresAt := event.expiration
        -- the author is the node, not the maker
        isMine := false
        rating := rating.1
        totalReviews := rating.2.1
        daysActive := rating.2.2 }

/-- What an order that is read takes from its event. -/
theorem parseOrderEvent_eq_some {fromJson : String → Option Value} {event : Event}
    {info : OrderInfo} (h : parseOrderEvent fromJson event = some info) :
    (info.fiatAmount, info.fiatAmountMin, info.fiatAmountMax) =
        parseFiatAmounts event.fiatValues ∧
      info.createdAt = u64AsI64 event.createdAt ∧ info.expiresAt = event.expiration := by
  unfold parseOrderEvent at h
  split at h
  · cases h
  · simp only [Option.bind_eq_bind, Option.bind_eq_some_iff, Option.pure_def,
      Option.some.injEq] at h
    obtain ⟨id, -, kind, -, status, -, fiatCode, -, rfl⟩ := h
    have hpair : ∀ amounts : FiatAmounts, (amounts.1, amounts.2.1, amounts.2.2) = amounts :=
      fun _ => rfl
    refine ⟨hpair _, ?_⟩
    dsimp only
    exact ⟨rfl, rfl⟩

/-! ## Amounts of one shape -/

/-- The text is a number. -/
def Number (s : List Char) : Prop := (F64.fromStr s).isSome = true

/-- The values of a fiat amount: one that is a number, or two with a colon between them, or two or
more the first two of which are. -/
def AmountRight : List String → Prop
  | [] => False
  | [single] =>
      match Text.splitOnce [':'] single.toList with
      | some (min, max) => Number min ∧ Number max
      | none => Number single.toList
  | min :: max :: _ => Number min.toList ∧ Number max.toList

/-- One number, or two for a range. -/
def OneShape (amounts : FiatAmounts) : Bool :=
  (amounts.1.isSome && amounts.2.1.isNone && amounts.2.2.isNone) ||
    (amounts.1.isNone && amounts.2.1.isSome && amounts.2.2.isSome)

theorem oneShape_parseRange (min max : List Char) :
    OneShape (parseRange min max) = true ↔ Number min ∧ Number max := by
  unfold parseRange Number
  cases F64.fromStr min with
  | none => simp [OneShape]
  | some x => cases F64.fromStr max <;> simp [OneShape]

/-- **The amount has one shape** exactly when its values are right. -/
theorem oneShape_parseFiatAmounts (values : List String) :
    OneShape (parseFiatAmounts values) = true ↔ AmountRight values := by
  match values with
  | [] => exact ⟨nofun, False.elim⟩
  | [single] =>
      simp only [parseFiatAmounts, AmountRight]
      cases Text.splitOnce [':'] single.toList with
      | some parts => exact oneShape_parseRange parts.1 parts.2
      | none =>
          show OneShape (F64.fromStr single.toList, none, none) = true ↔ Number single.toList
          unfold Number
          cases F64.fromStr single.toList <;> simp [OneShape]
  | min :: max :: rest => exact oneShape_parseRange min.toList max.toList

end MostroApp.OrderEvents
