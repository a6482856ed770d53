import MostroApp.Types

set_option autoImplicit false

/-! # Order-status mapping and reconciliation rules (`mostro/status.rs`)

Pure functions between the daemon's vocabulary and the client's `OrderStatus`, and the two
guards that decide when an inbound status may overwrite what is stored: the daemon-message
side reads `isHardTerminal` and `adminVerdictRefines`, the public side `wireStatusApplies`.
-/

namespace MostroApp.Status

open Wire (Action Payload)

/-! ## The wire's vocabulary -/

/-- The status an action implies when its message carries none. -/
def statusForAction : Action → Option OrderStatus
  | .addInvoice => some .waitingBuyerInvoice
  | .payBondInvoice => some .waitingTakerBond
  | .waitingSellerToPay => some .waitingPayment
  | .waitingBuyerInvoice => some .waitingBuyerInvoice
  | .buyerTookOrder | .holdInvoicePaymentAccepted | .buyerInvoiceAccepted => some .active
  | .fiatSentOk => some .fiatSent
  | .holdInvoicePaymentSettled | .released => some .settledHoldInvoice
  | .invoiceUpdated => some .settledHoldInvoice
  | .purchaseCompleted => some .success
  | .holdInvoicePaymentCanceled => some .canceled
  | .cooperativeCancelAccepted => some .cooperativelyCanceled
  | .disputeInitiatedByYou | .disputeInitiatedByPeer => some .dispute
  | .adminSettled => some .settledByAdmin
  | .adminCanceled => some .canceledByAdmin
  | _ => none

/-- The client's name for a wire status; total on today's statuses. -/
def mapCoreStatus : Wire.Status → Option OrderStatus
  | .pending => some .pending
  | .waitingBuyerInvoice => some .waitingBuyerInvoice
  | .waitingPayment => some .waitingPayment
  | .active => some .active
  | .inProgress => some .inProgress
  | .fiatSent => some .fiatSent
  | .settledHoldInvoice => some .settledHoldInvoice
  | .success => some .success
  | .canceled => some .canceled
  | .cooperativelyCanceled => some .cooperativelyCanceled
  | .expired => some .expired
  | .canceledByAdmin => some .canceledByAdmin
  | .settledByAdmin => some .settledByAdmin
  | .completedByAdmin => some .completedByAdmin
  | .dispute => some .dispute
  | .waitingTakerBond => some .waitingTakerBond
  | .waitingMakerBond => some .waitingMakerBond

/-! ## The guards -/

/-- Whether `action` is the admin verdict behind a plain terminal the public book already
wrote: the message must still refine the row. -/
def adminVerdictRefines : OrderStatus → Action → Bool
  | .canceled, .adminCanceled => true
  | .success, .adminSettled => true
  | _, _ => false

/-- Statuses no daemon message may leave. -/
def isHardTerminal : OrderStatus → Bool
  | .canceled | .canceledByAdmin | .cooperativelyCanceled | .expired | .success
  | .settledByAdmin | .completedByAdmin => true
  | _ => false

def isTerminalStatus : OrderStatus → Bool
  | .success | .settledHoldInvoice | .settledByAdmin | .completedByAdmin | .canceled
  | .canceledByAdmin | .cooperativelyCanceled | .expired => true
  | _ => false

/-- Whether a status parsed from a public event may replace the one held for that trade. -/
def wireStatusApplies (loc : Option OrderStatus) (wire : OrderStatus) : Bool :=
  match loc with
  | none | some .pending => true
  | some _ => isTerminalStatus wire

/-- Whether a cancel wipes the trade row instead of keeping a Canceled history row: only
while the trade never reached Active. `inProgress` is ambiguous and not wiped. -/
def cancellationWipesHistory : OrderStatus → Bool
  | .pending | .waitingBuyerInvoice | .waitingPayment | .waitingTakerBond
  | .waitingMakerBond => true
  | _ => false

/-! ## Payload readers -/

/-- A positive wire amount, as sats. -/
def positiveSats (amount : Int) : Option Nat :=
  if 0 < amount then some amount.toNat else none

/-- `u64::try_from` on a signed amount. -/
def tryU64 (amount : Int) : Option Nat :=
  if 0 ≤ amount then some amount.toNat else none

/-- The status and sats to persist from an `add-invoice` payload. A settled status is a
request for a new payout invoice and reads as one. -/
def addInvoiceSync : Option Payload → Option (OrderStatus × Option Nat)
  | some (.order so) =>
      let status := match so.status.bind mapCoreStatus with
        | some .settledHoldInvoice | none => .waitingBuyerInvoice
        | some status => status
      some (status, positiveSats so.amount)
  | _ => none

/-- `u32::MAX`. -/
def u32Max : Nat := 4294967295

/-- The counterparty's reputation from a follow-up `Peer` payload: rating, reviews, days,
the counts saturated to `u32`. -/
def peerReputation : Option Payload → Option (Rat × Nat × Nat)
  | some (.peer p) => p.reputation.map fun u =>
      (u.rating, min u.reviews.toNat u32Max, min u.operatingDays u32Max)
  | _ => none

/-! ## Facts -/

@[simp] theorem wireStatusApplies_none (w : OrderStatus) : wireStatusApplies none w = true := rfl

@[simp] theorem wireStatusApplies_pending (w : OrderStatus) :
    wireStatusApplies (some .pending) w = true := rfl

theorem wireStatusApplies_some {s : OrderStatus} (hs : s ≠ .pending) (w : OrderStatus) :
    wireStatusApplies (some s) w = isTerminalStatus w := by
  cases s <;> first | rfl | exact absurd rfl hs

/-- The public guard only ever opens over a terminal status for another terminal one. -/
theorem wireStatusApplies_iff (s w : OrderStatus) :
    wireStatusApplies (some s) w = true ↔ s = .pending ∨ isTerminalStatus w = true := by
  by_cases hs : s = .pending
  · simp [hs]
  · rw [wireStatusApplies_some hs]
    exact ⟨Or.inr, fun h => h.resolve_left hs⟩

/-- A hard-terminal status is past the reach of a wiping cancel. -/
theorem not_cancellationWipesHistory_of_isHardTerminal {s : OrderStatus}
    (h : isHardTerminal s = true) : cancellationWipesHistory s = false := by
  cases s <;> first | rfl | exact absurd h (by decide)

/-- An admin verdict refines a hard-terminal status into the verdict's own, hard-terminal
one. -/
theorem adminVerdictRefines_status {s : OrderStatus} {a : Action}
    (h : adminVerdictRefines s a = true) :
    (s = .canceled ∧ a = .adminCanceled) ∨ (s = .success ∧ a = .adminSettled) := by
  unfold adminVerdictRefines at h
  split at h
  · exact Or.inl ⟨rfl, rfl⟩
  · exact Or.inr ⟨rfl, rfl⟩
  · exact absurd h (by decide)

end MostroApp.Status
