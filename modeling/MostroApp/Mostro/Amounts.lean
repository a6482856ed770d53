import MostroApp.Db.Float64
import MostroApp.Lib.Text

set_option autoImplicit false

/-! # The amounts an order is created and taken with (`api/orders.rs`, `mostro/actions.rs`)

The caller gives amounts as floats, and a check admits them; the message to the daemon carries
whole units. Where the whole parts are still amounts of the kind that was admitted, the daemon is
asked for exactly those (`admitted_amounts_sent_whole`).
-/

namespace MostroApp.Amounts

open Db Wire

/-! ## Creating -/

structure NewOrderParams where
  kind : OrderKind
  fiatAmount : Option F64 := none
  fiatAmountMin : Option F64 := none
  fiatAmountMax : Option F64 := none
  fiatCode : String := ""
  paymentMethod : String := ""
  premium : F64 := .finite 0
  amountSats : Option UInt64 := none

namespace NewOrderParams

def shapeError : String :=
  "Must provide either fiat_amount or both fiat_amount_min and fiat_amount_max"

/-- What the check of a fixed amount says. -/
def fixedError (amount : F64) : Option String :=
  if amount.le (.finite 0) || !amount.isFinite then some "fiat_amount must be > 0" else none

/-- What the check of a range says. -/
def rangeError (min max : F64) : Option String :=
  if !min.isFinite || !max.isFinite then
    some "fiat_amount_min and fiat_amount_max must be finite"
  else if min.le (.finite 0) || max.le min then
    some "fiat_amount_min must be > 0 and < fiat_amount_max"
  else none

/-- What the checks of the texts say. -/
def textError (p : NewOrderParams) : Option String :=
  if Text.trim p.fiatCode = "" then some "fiat_code must not be empty"
  else if Text.trim p.paymentMethod = "" then some "payment_method must not be empty"
  else none

/-- The validation at the start of `create_order_once`. -/
def validate (p : NewOrderParams) : Option String :=
  match p.fiatAmount, p.fiatAmountMin, p.fiatAmountMax with
  | some _, some _, some _ => some shapeError
  | some amount, _, _ => (fixedError amount).or p.textError
  | none, some min, some max => (rangeError min max).or p.textError
  | none, _, _ => some shapeError

/-- The order of `new_order_message`. -/
def newOrder (p : NewOrderParams) (expiresAt : Option Int) : SmallOrder where
  kind := some (match p.kind with
    | .buy => .buy
    | .sell => .sell)
  status := some .pending
  amount := u64AsI64 (p.amountSats.getD 0)
  fiatCode := p.fiatCode
  minAmount := p.fiatAmountMin.map F64.asI64
  maxAmount := p.fiatAmountMax.map F64.asI64
  fiatAmount := (p.fiatAmount.getD (.finite 0)).asI64
  paymentMethod := p.paymentMethod
  premium := p.premium.asI64
  expiresAt := expiresAt

end NewOrderParams

/-! ## Taking -/

/-- The check of the amount against the order's range in `take_order_once`. -/
def takeError (min max amount : Option F64) : Option String :=
  match min, max with
  | some min, some max =>
      match amount with
      | none => some "FiatAmountRequired"
      | some amount =>
          if !amount.isFinite || amount.le (.finite 0) then
            some "fiat_amount must be positive and finite"
          else if amount.lt min || max.lt amount then some "OutOfRange"
          else none
  | _, _ => none

/-- The payload of a take. -/
inductive TakePayload where
  | paymentRequest (invoice : String) (amount : Option Int)
  | amount (amount : Int)

/-- The payload `take_order_impl` builds. -/
def takePayload (amount : Option F64) (lnAddress : Option String) : Option TakePayload :=
  match amount, lnAddress with
  | amount, some addr => some (.paymentRequest addr (amount.map F64.asI64))
  | some amount, none => some (.amount amount.asI64)
  | none, none => none

def TakePayload.amount? : TakePayload → Option Int
  | .paymentRequest _ n => n
  | .amount n => some n

/-! ## What the daemon is asked for -/

/-- The order has one of a positive fixed amount and a positive range, and its numbers are those
of the params. -/
structure SameAmounts (o : SmallOrder) (p : NewOrderParams) : Prop where
  shape : 0 < o.fiatAmount ∧ o.minAmount = none ∧ o.maxAmount = none ∨
    o.fiatAmount = 0 ∧ ∃ min max, o.minAmount = some min ∧ o.maxAmount = some max ∧
      0 < min ∧ min < max
  fiat : p.fiatAmount.getD (.finite 0) = .finite o.fiatAmount
  min : p.fiatAmountMin = o.minAmount.map fun n => .finite n
  max : p.fiatAmountMax = o.maxAmount.map fun n => .finite n
  premium : p.premium = .finite o.premium
  sats : ((p.amountSats.getD 0).toNat : Int) = o.amount

/-- The message has the amount, where one is given, and it lies in the range, where the order has
one. -/
structure SameTake (min max amount : Option F64) (payload : Option TakePayload) : Prop where
  carried : amount = (payload.bind TakePayload.amount?).map fun n => .finite n
  inRange : ∀ lo ∈ min, ∀ hi ∈ max, ∃ x ∈ amount, lo.le x = true ∧ x.le hi = true

/-- The params without the fractions of their amounts. -/
def NewOrderParams.inWholeUnits (p : NewOrderParams) : NewOrderParams :=
  { p with
    fiatAmount := p.fiatAmount.map F64.whole
    fiatAmountMin := p.fiatAmountMin.map F64.whole
    fiatAmountMax := p.fiatAmountMax.map F64.whole
    premium := p.premium.whole }

/-- The whole parts are amounts of the same kind, and the wire can carry them. -/
structure Sendable (p : NewOrderParams) : Prop where
  fixed : ∀ x ∈ p.fiatAmount, x.Fits ∧ 0 < x.asI64 ∧ p.fiatAmountMin = none ∧
    p.fiatAmountMax = none
  range : ∀ min ∈ p.fiatAmountMin, ∀ max ∈ p.fiatAmountMax, min.Fits ∧ max.Fits ∧
    0 < min.asI64 ∧ min.asI64 < max.asI64
  premium : p.premium.Fits
  sats : (p.amountSats.getD 0).toNat < 2 ^ 63

/-- The wire can carry the amount, and its whole part does not fall below the order's range, whose
upper bound is a number. -/
structure TakeSendable (min max amount : Option F64) : Prop where
  fits : ∀ x ∈ amount, x.Fits
  above : ∀ lo ∈ min, ∀ hi ∈ max, ∀ x ∈ amount, lo.le x.whole = true
  bounded : ∀ lo ∈ min, ∀ hi ∈ max, hi ≠ .nan

variable {p : NewOrderParams} {min max amount : Option F64} {lnAddress : Option String}

/-- What is admitted is one of a fixed amount, beside one bound at most, and a range. -/
theorem validate_none (h : p.validate = none) :
    (∃ x, p.fiatAmount = some x) ∨
      p.fiatAmount = none ∧ ∃ lo hi, p.fiatAmountMin = some lo ∧ p.fiatAmountMax = some hi := by
  unfold NewOrderParams.validate at h
  split at h
  · cases h
  · next hx _ => exact Or.inl ⟨_, hx⟩
  · next lo hi hfixed hlo hhi => exact Or.inr ⟨hfixed, lo, hi, hlo, hhi⟩
  · cases h

/-- **The order carries the params in whole units.** -/
theorem newOrder_whole (h : p.validate = none) (hs : Sendable p) (expiresAt : Option Int) :
    SameAmounts (p.newOrder expiresAt) p.inWholeUnits := by
  have hpremium : p.premium.whole = .finite (p.newOrder expiresAt).premium := hs.premium.asI64
  have hsats : ((p.amountSats.getD 0).toNat : Int) = (p.newOrder expiresAt).amount := by
    unfold NewOrderParams.newOrder
    dsimp only
    rw [u64AsI64_of_lt hs.sats]
  rcases validate_none h with ⟨x, hx⟩ | ⟨hfixed, lo, hi, hlo, hhi⟩
  · obtain ⟨hfits, hpos, hmin, hmax⟩ := hs.fixed x hx
    refine ⟨Or.inl ?_, ?_, ?_, ?_, hpremium, hsats⟩
    · simpa [NewOrderParams.newOrder, hx, hmin, hmax] using hpos
    · simpa [NewOrderParams.newOrder, NewOrderParams.inWholeUnits, hx] using hfits.asI64
    · simp [NewOrderParams.newOrder, NewOrderParams.inWholeUnits, hmin]
    · simp [NewOrderParams.newOrder, NewOrderParams.inWholeUnits, hmax]
  · obtain ⟨hlofits, hhifits, hpos, hlt⟩ := hs.range lo hlo hi hhi
    refine ⟨Or.inr ⟨?_, lo.asI64, hi.asI64, ?_, ?_, hpos, hlt⟩, ?_, ?_, ?_, hpremium, hsats⟩
    · simp [NewOrderParams.newOrder, hfixed, F64.asI64, F64.truncated]
    · simp [NewOrderParams.newOrder, hlo]
    · simp [NewOrderParams.newOrder, hhi]
    · simp [NewOrderParams.newOrder, NewOrderParams.inWholeUnits, hfixed, F64.asI64,
        F64.truncated]
    · simpa [NewOrderParams.newOrder, NewOrderParams.inWholeUnits, hlo] using hlofits.asI64
    · simpa [NewOrderParams.newOrder, NewOrderParams.inWholeUnits, hhi] using hhifits.asI64

/-- What is admitted for a range is a positive amount that is not above it. -/
theorem takeError_none {lo hi : F64} (h : takeError (some lo) (some hi) amount = none) :
    ∃ q, amount = some (.finite q) ∧ 0 < q ∧ hi.lt (.finite q) = false := by
  cases amount with
  | none => cases h
  | some x =>
      simp only [takeError] at h
      split at h
      · cases h
      · next hx =>
        split at h
        · cases h
        · next hrange =>
          rw [Bool.or_eq_true, not_or, Bool.not_eq_true', Bool.not_eq_false] at hx
          rw [Bool.or_eq_true, not_or, Bool.not_eq_true, Bool.not_eq_true] at hrange
          obtain ⟨q, rfl⟩ := F64.isFinite_iff.mp hx.1
          refine ⟨q, rfl, ?_, hrange.2⟩
          simpa [F64.le] using hx.2

/-- **The message carries the amount in whole units.** -/
theorem take_whole (h : takeError min max amount = none) (hs : TakeSendable min max amount)
    (lnAddress : Option String) :
    SameTake min max (amount.map F64.whole) (takePayload amount lnAddress) := by
  constructor
  · cases amount with
    | none => cases lnAddress <;> rfl
    | some x =>
        have hx : some x.whole = some (.finite x.asI64) := congrArg some (hs.fits x rfl).asI64
        cases lnAddress with
        | none => exact hx
        | some addr => exact hx
  · intro lo hlo hi hhi
    obtain rfl := hlo
    obtain rfl := hhi
    obtain ⟨q, rfl, hq, hhi⟩ := takeError_none h
    refine ⟨_, rfl, hs.above lo rfl hi rfl _ rfl, ?_⟩
    have hle : (F64.truncated q : ℚ) ≤ q := by
      rw [F64.truncated_of_nonneg hq.le]
      exact Int.floor_le q
    show F64.le (.finite (F64.truncated q)) hi = true
    cases hi with
    | finite b =>
        have hqb : q ≤ b := by simpa [F64.lt] using hhi
        simpa [F64.le] using hle.trans hqb
    | infinite negative =>
        cases negative with
        | true => simp [F64.lt] at hhi
        | false => rfl
    | nan => exact absurd rfl (hs.bounded lo rfl _ rfl)

/-- **The daemon is asked for what was admitted, in whole units**: the order carries the whole
parts of the admitted params where these are still a positive amount or a range and the wire can
carry them, and so does the message of a take. -/
theorem admitted_amounts_sent_whole :
    (∀ p : NewOrderParams, p.validate = none → Sendable p → ∀ expiresAt,
      SameAmounts (p.newOrder expiresAt) p.inWholeUnits) ∧
    ∀ min max amount, takeError min max amount = none → TakeSendable min max amount →
      ∀ lnAddress, SameTake min max (amount.map F64.whole) (takePayload amount lnAddress) :=
  ⟨fun _ h hs expiresAt => newOrder_whole h hs expiresAt,
    fun _ _ _ h hs lnAddress => take_whole h hs lnAddress⟩

/-- An order over 100.5, for 0.5 % above the market. -/
def decimalParams : NewOrderParams where
  kind := .sell
  fiatAmount := some (.finite (201 / 2))
  fiatCode := "USD"
  paymentMethod := "cash"
  premium := .finite (1 / 2)

/-- It is sent over 100 at the market's price. -/
theorem decimalParams_sent_whole :
    SameAmounts (decimalParams.newOrder none) decimalParams.inWholeUnits := by
  refine admitted_amounts_sent_whole.1 decimalParams (by decide +kernel) ?_ none
  refine ⟨fun x hx => ?_, nofun, ⟨_, rfl, by decide +kernel⟩, by decide⟩
  obtain rfl := Option.some.inj hx
  exact ⟨⟨_, rfl, by decide +kernel⟩, by decide +kernel, rfl, rfl⟩

/-- **Fractions are not sent**: an admitted order is not asked for as it was given. -/
theorem admitted_amounts_not_sent :
    ¬∀ p : NewOrderParams, p.validate = none → SameAmounts (p.newOrder none) p := by
  intro h
  have hsame := (h decimalParams (by decide +kernel)).fiat
  revert hsame
  decide +kernel

end MostroApp.Amounts
