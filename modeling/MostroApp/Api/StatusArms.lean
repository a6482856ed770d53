import MostroApp.Api.Frames
import MostroApp.Lib.HighWater

set_option autoImplicit false

/-! # The status arms and the order of delivery

Relays replay a backlog newest-first, so the arms that move a trade's status share one cursor:
a message older than the newest accepted one writes nothing. Seen from the row the arms are a
register behind a high-water mark (`statusRegister`), and the dispatcher is shown to step that
register. The register's theorem then says for which backlogs the order of delivery does not
matter. It matters where the newest message moves the cursor without writing a status: a
cooperative-cancel request, or an escrow message whose payload is no order, silences the older
message that did carry one.
-/

namespace MostroApp.Orders

open Pending Status HighWater
open Wire (Action Payload Message)

/-! ## What a message does to the row -/

/-- The actions whose arm consults the gate and the cursor. -/
def isStatusArm : Action → Bool
  | .canceled | .buyerTookOrder | .holdInvoicePaymentAccepted | .addInvoice | .payInvoice
  | .waitingSellerToPay | .waitingBuyerInvoice | .buyerInvoiceAccepted | .fiatSentOk
  | .holdInvoicePaymentSettled | .holdInvoicePaymentCanceled | .released | .purchaseCompleted
  | .cooperativeCancelAccepted | .disputeInitiatedByYou | .disputeInitiatedByPeer | .adminSettled
  | .adminCanceled | .invoiceUpdated | .rate | .rateUser | .rateReceived | .paymentFailed
  | .cooperativeCancelInitiatedByYou | .cooperativeCancelInitiatedByPeer => true
  | _ => false

/-- What an accepted message does to the status of the row. -/
inductive RowEffect where
  | keep
  | write (status : OrderStatus)
  | cancel
  deriving DecidableEq, Repr

/-- The escrow is locked: the payload's status, else the action's. A payload that is no order
moves the cursor and nothing else. -/
def escrowEffect (msg : Message) : RowEffect :=
  match payloadOrder msg with
  | some so =>
      ((so.status.bind mapCoreStatus).orElse fun _ => statusForAction msg.action).elim .keep .write
  | none => .keep

/-- The effect of a message that moves the cursor, `none` for one that does not. -/
def rowEffect (msg : Message) : Option RowEffect :=
  match msg.action with
  | .canceled => some .cancel
  | .buyerTookOrder | .holdInvoicePaymentAccepted => some (escrowEffect msg)
  | .addInvoice => (addInvoiceSync msg.payload).map fun r => .write r.1
  | .payInvoice => match msg.payload with
      | some (.paymentRequest _ _ _) => some (.write .waitingPayment)
      | _ => none
  | .cooperativeCancelInitiatedByYou | .cooperativeCancelInitiatedByPeer => some .keep
  | action => if isStatusArm action then (statusForAction action).map .write else none

/-- The status after the effect, `none` for a wiped row. A dispatch that could not look the row
up keeps its history. -/
def RowEffect.apply (lookupFails : Bool) (v : Option OrderStatus) : RowEffect → Option OrderStatus
  | .keep => v
  | .write status => v.map fun _ => status
  | .cancel => v.bind fun status =>
      if lookupFails = false ∧ cancellationWipesHistory status = true then none
      else some .canceled

/-- The row's status as a register behind the status cursor. -/
def statusRegister : HighWater.Spec (Option OrderStatus) Delivery where
  ts d := d.msg.createdAt
  advances d := (rowEffect d.msg).isSome
  eff d v := ((rowEffect d.msg).map (RowEffect.apply d.rowLookupFails v)).getD v

/-- A message that ends the trade. -/
def impliesHardTerminal (msg : Message) : Bool :=
  match rowEffect msg with
  | some (.write status) => isHardTerminal status
  | some .cancel => true
  | _ => false

/-! ## One arm at a time -/

section Arms

variable {env : Env} {d : Delivery} {row : RowState} {s : OrderState}

/-- The arm of a status action, with the effect its message has. -/
theorem arm_cases {motive : OrderState → Prop} (ha : isStatusArm d.msg.action = true)
    (canceled : d.msg.action = .canceled → motive (canceledArm d row s))
    (escrow : rowEffect d.msg = some (escrowEffect d.msg) → motive (escrowLockedArm d row s))
    (addInvoice : d.msg.action = .addInvoice → motive (addInvoiceArm d row s))
    (payInvoice : d.msg.action = .payInvoice → motive (payInvoiceArm d row s))
    (status : rowEffect d.msg = (statusForAction d.msg.action).map .write →
      motive (statusArm d row s))
    (cooperative : rowEffect d.msg = some .keep →
      ∀ state reason, motive (cooperativeCancelArm state reason d row s)) :
    motive (arm env d row s) := by
  revert ha canceled escrow addInvoice payInvoice status cooperative
  unfold rowEffect arm
  cases d.msg.action <;> intro ha canceled escrow addInvoice payInvoice status cooperative <;>
    first
    | exact canceled rfl
    | exact escrow rfl
    | exact addInvoice rfl
    | exact payInvoice rfl
    | exact status rfl
    | exact cooperative rfl _ _
    | exact absurd ha Bool.false_ne_true

/-- A preorder on orders that every stage of a status arm respects. -/
structure ArmStages (R : OrderState → OrderState → Prop) : Prop where
  refl : ∀ s, R s s
  trans : ∀ {s s' s''}, R s s' → R s' s'' → R s s''
  recordStatusEvent : ∀ ts now s, R s (s.recordStatusEvent ts now)
  recordInvoiceStepStart : ∀ status ts now s, R s (s.recordInvoiceStepStart status ts now)
  noteBondLocked : ∀ row now s, R s (noteBondLocked row now s)
  noteBondReleased : ∀ row s, R s (noteBondReleased row s)
  persistPeerReputation : ∀ d s, R s (persistPeerReputation d s)
  updateOrderStatus : ∀ status s, R s (s.updateOrderStatus status)
  syncBookEntry : ∀ status sats s, R s (syncBookEntry status sats s)
  syncAndEmit : ∀ row status invoice amount ts s, R s (syncAndEmit row status invoice amount ts s)
  forgetWireOrder : ∀ s, R s s.forgetWireOrder
  setCooperativeCancelState : ∀ state s, R s (s.setCooperativeCancelState state)
  emitTradeUpdateAt : ∀ status reason ts s, R s (s.emitTradeUpdateAt status reason ts)

/-- A preorder on orders that the stages of a status arm respect but for the notes of the bond. -/
structure QuietStages (Q : OrderState → OrderState → Prop) : Prop where
  refl : ∀ s, Q s s
  trans : ∀ {s s' s''}, Q s s' → Q s' s'' → Q s s''
  recordStatusEvent : ∀ ts now s, Q s (s.recordStatusEvent ts now)
  recordInvoiceStepStart : ∀ status ts now s, Q s (s.recordInvoiceStepStart status ts now)
  persistPeerReputation : ∀ d s, Q s (persistPeerReputation d s)
  updateOrderStatus : ∀ status s, Q s (s.updateOrderStatus status)
  syncBookEntry : ∀ status sats s, Q s (syncBookEntry status sats s)
  syncAndEmit : ∀ row status invoice amount ts s, Q s (syncAndEmit row status invoice amount ts s)
  forgetWireOrder : ∀ s, Q s s.forgetWireOrder
  setCooperativeCancelState : ∀ state s, Q s (s.setCooperativeCancelState state)
  emitTradeUpdateAt : ∀ status reason ts s, Q s (s.emitTradeUpdateAt status reason ts)

theorem ArmStages.quiet {R : OrderState → OrderState → Prop} (h : ArmStages R) : QuietStages R :=
  { h with }

/-- What an arm writes of the bond between two orders: nothing, the lock or the release. -/
inductive Noted (row : RowState) (now : Int) (s : OrderState) : OrderState → Prop where
  | nothing : Noted row now s s
  | locked : Noted row now s (noteBondLocked row now s)
  | released : Noted row now s (noteBondReleased row s)

/-- Quiet stages, one note of the bond, quiet stages. -/
def NotedOnce (Q : OrderState → OrderState → Prop) (row : RowState) (now : Int)
    (s s' : OrderState) : Prop :=
  ∃ s₁ s₂, Q s s₁ ∧ Noted row now s₁ s₂ ∧ Q s₂ s'

theorem QuietStages.notedOnce {Q : OrderState → OrderState → Prop} (h : QuietStages Q)
    {now : Int} {s' : OrderState} (hq : Q s s') : NotedOnce Q row now s s' :=
  ⟨s, s, h.refl s, .nothing, hq⟩

theorem QuietStages.then {Q : OrderState → OrderState → Prop} (h : QuietStages Q) {now : Int}
    {s' s'' : OrderState} (hn : NotedOnce Q row now s s') (hq : Q s' s'') :
    NotedOnce Q row now s s'' := by
  obtain ⟨s₁, s₂, h₁, hnote, h₂⟩ := hn
  exact ⟨s₁, s₂, h₁, hnote, h.trans h₂ hq⟩

/-- The cursor moves, and the lock is noted. -/
theorem QuietStages.lockedAfterCursor {Q : OrderState → OrderState → Prop} (h : QuietStages Q)
    (row : RowState) (s : OrderState) :
    NotedOnce Q row d.now s
      (noteBondLocked row d.now (s.recordStatusEvent d.msg.createdAt d.now)) :=
  ⟨_, _, h.recordStatusEvent _ _ s, .locked, h.refl _⟩

theorem QuietStages.canceledArm {Q : OrderState → OrderState → Prop} (h : QuietStages Q)
    (row : RowState) (s : OrderState) :
    NotedOnce Q row d.now s (canceledArm d row s) ∨ ∃ t, row = .existing t ∧
      cancellationWipesHistory t.order.status = true ∧
        canceledArm d row s =
          cancelNeverActive d t (s.recordStatusEvent d.msg.createdAt d.now) := by
  have hcursor := h.recordStatusEvent d.msg.createdAt d.now s
  have hkeep : NotedOnce Q row d.now s
      (cancelKeepingHistory d row (s.recordStatusEvent d.msg.createdAt d.now)) :=
    ⟨_, _, h.trans hcursor (h.forgetWireOrder _), .released, h.syncAndEmit row _ _ _ _ _⟩
  unfold Orders.canceledArm
  split
  · exact .inl (h.notedOnce (h.refl s))
  · cases row with
    | existing t =>
        dsimp only
        split
        · next hw => exact .inr ⟨t, rfl, hw, rfl⟩
        · exact .inl hkeep
    | neverWritten => exact .inl (h.notedOnce (h.trans hcursor (h.emitTradeUpdateAt _ _ _ _)))
    | wiped => exact .inl hkeep
    | unknown => exact .inl hkeep

theorem QuietStages.escrowLockedArm {Q : OrderState → OrderState → Prop} (h : QuietStages Q)
    (row : RowState) (s : OrderState) : NotedOnce Q row d.now s (escrowLockedArm d row s) := by
  have hlocked := h.lockedAfterCursor (d := d) row s
  unfold Orders.escrowLockedArm
  split
  · exact h.notedOnce (h.refl s)
  · dsimp only
    split
    · exact hlocked
    · split
      · exact h.then hlocked
          (h.trans (h.updateOrderStatus _ _) (h.syncAndEmit row _ _ _ _ _))
      · exact hlocked

/-- The invoice arms note the lock first, whatever becomes of the message. -/
theorem QuietStages.addInvoiceArm {Q : OrderState → OrderState → Prop} (h : QuietStages Q)
    (row : RowState) (s : OrderState) : NotedOnce Q row d.now s (addInvoiceArm d row s) := by
  have hlocked : NotedOnce Q row d.now s (noteBondLocked row d.now s) :=
    ⟨s, _, h.refl s, .locked, h.refl _⟩
  unfold Orders.addInvoiceArm
  split
  · exact h.notedOnce (h.refl s)
  · dsimp only
    split
    · exact h.then hlocked (h.persistPeerReputation d _)
    · split
      · exact hlocked
      · exact h.then hlocked (h.trans (h.recordStatusEvent _ _ _)
          (h.trans (h.recordInvoiceStepStart _ _ _ _)
            (h.trans (h.syncBookEntry _ _ _) (h.syncAndEmit row _ _ _ _ _))))

theorem QuietStages.payInvoiceArm {Q : OrderState → OrderState → Prop} (h : QuietStages Q)
    (row : RowState) (s : OrderState) : NotedOnce Q row d.now s (payInvoiceArm d row s) := by
  have hlocked : NotedOnce Q row d.now s (noteBondLocked row d.now s) :=
    ⟨s, _, h.refl s, .locked, h.refl _⟩
  unfold Orders.payInvoiceArm
  split
  · exact h.notedOnce (h.refl s)
  · dsimp only
    split
    · split
      · exact hlocked
      · exact h.then hlocked (h.trans (h.recordStatusEvent _ _ _)
          (h.trans (h.recordInvoiceStepStart _ _ _ _)
            (h.trans (h.updateOrderStatus _ _) (h.syncAndEmit row _ _ _ _ _))))
    · exact h.then hlocked (h.persistPeerReputation d _)

theorem QuietStages.statusArm {Q : OrderState → OrderState → Prop} (h : QuietStages Q)
    (row : RowState) (s : OrderState) : NotedOnce Q row d.now s (statusArm d row s) := by
  unfold Orders.statusArm
  split
  · exact h.notedOnce (h.refl s)
  · split
    · exact h.notedOnce (h.refl s)
    · split
      · exact h.notedOnce (h.refl s)
      · next status _ _ =>
        have hnote : NotedOnce Q row d.now s
            (if (isHardTerminal status || decide (status = .settledHoldInvoice)) = true then
              Orders.noteBondReleased row (s.recordStatusEvent d.msg.createdAt d.now)
            else Orders.noteBondLocked row d.now
              (s.recordStatusEvent d.msg.createdAt d.now)) := by
          split
          · exact ⟨_, _, h.recordStatusEvent _ _ s, .released, h.refl _⟩
          · exact h.lockedAfterCursor row s
        have hsync := h.then hnote
          (h.trans (h.updateOrderStatus status _) (h.syncAndEmit row status none none
            d.msg.createdAt _))
        dsimp only
        split
        · exact h.then hsync (h.forgetWireOrder _)
        · exact hsync

theorem QuietStages.cooperativeCancelArm {Q : OrderState → OrderState → Prop}
    (h : QuietStages Q) (state : CooperativeCancelState) (reason : TradeUpdateReason)
    (row : RowState) (s : OrderState) :
    NotedOnce Q row d.now s (cooperativeCancelArm state reason d row s) := by
  unfold Orders.cooperativeCancelArm
  split
  · exact h.notedOnce (h.refl s)
  · exact h.notedOnce (h.trans (h.recordStatusEvent _ _ s)
      (h.trans (h.setCooperativeCancelState _ _) (h.emitTradeUpdateAt _ _ _ _)))

/-- **An arm notes the bond at most once**, between stages that leave it, unless it wipes the
row. -/
theorem QuietStages.arm {Q : OrderState → OrderState → Prop} (h : QuietStages Q) (env : Env)
    (row : RowState) (s : OrderState) (ha : isStatusArm d.msg.action = true) :
    NotedOnce Q row d.now s (arm env d row s) ∨
      d.msg.action = .canceled ∧ ∃ t, row = .existing t ∧
        cancellationWipesHistory t.order.status = true ∧
          arm env d row s = cancelNeverActive d t (s.recordStatusEvent d.msg.createdAt d.now) := by
  refine arm_cases (motive := fun s' => NotedOnce Q row d.now s s' ∨ d.msg.action = .canceled ∧
    ∃ t, row = .existing t ∧ cancellationWipesHistory t.order.status = true ∧
      s' = cancelNeverActive d t (s.recordStatusEvent d.msg.createdAt d.now)) ha ?_ ?_ ?_ ?_ ?_ ?_
  · intro hact
    rcases h.canceledArm (d := d) row s with hnoted | hwipe
    · exact .inl hnoted
    · exact .inr ⟨hact, hwipe⟩
  · intro _
    exact .inl (h.escrowLockedArm row s)
  · intro _
    exact .inl (h.addInvoiceArm row s)
  · intro _
    exact .inl (h.payInvoiceArm row s)
  · intro _
    exact .inl (h.statusArm row s)
  · intro _ state reason
    exact .inl (h.cooperativeCancelArm state reason row s)

/-- What the stages respect an arm does, unless it wipes the row. -/
theorem ArmStages.arm_or_wipe {R : OrderState → OrderState → Prop} (h : ArmStages R) (env : Env)
    (row : RowState) (s : OrderState) (ha : isStatusArm d.msg.action = true) :
    R s (arm env d row s) ∨ d.msg.action = .canceled ∧ ∃ t, row = .existing t ∧
      cancellationWipesHistory t.order.status = true ∧
        arm env d row s = cancelNeverActive d t (s.recordStatusEvent d.msg.createdAt d.now) := by
  rcases h.quiet.arm env row s ha with ⟨s₁, s₂, h₁, hnote, h₂⟩ | hwipe
  · have hbond : R s₁ s₂ := by
      cases hnote with
      | nothing => exact h.refl _
      | locked => exact h.noteBondLocked row _ _
      | released => exact h.noteBondReleased row _
    exact .inl (h.trans h₁ (h.trans hbond h₂))
  · exact .inr hwipe

/-- What the stages respect the arms do, wherever the wipe does. -/
theorem ArmStages.arm {R : OrderState → OrderState → Prop} (h : ArmStages R)
    (ha : isStatusArm d.msg.action = true)
    (wipe : d.msg.action = .canceled → ∀ t, row = .existing t →
      cancellationWipesHistory t.order.status = true →
        R s (cancelNeverActive d t (s.recordStatusEvent d.msg.createdAt d.now))) :
    R s (arm env d row s) := by
  rcases h.arm_or_wipe env row s ha with hkeep | ⟨hact, t, ht, hw, heq⟩
  · exact hkeep
  · rw [heq]
    exact wipe hact t ht hw

/-- A blocked message leaves the row. -/
theorem sameRows_arm_of_blocked (ha : isStatusArm d.msg.action = true)
    (hb : s.statusWriteBlocked d.msg.action d.msg.createdAt = true) :
    SameRows s (arm env d row s) := by
  refine arm_cases (motive := SameRows s) ha ?_ ?_ ?_ ?_ ?_ ?_
  · intro _
    unfold canceledArm
    simpa [hb] using SameRows.refl s
  · intro _
    unfold escrowLockedArm
    simpa [hb] using SameRows.refl s
  · intro _
    have hbond := sameRows_noteBondLocked row s d.now
    unfold addInvoiceArm
    split
    · exact .refl s
    · dsimp only
      split
      · exact hbond.trans (sameRows_persistPeerReputation d _)
      · rw [hbond.writeBlocked, hb]
        exact hbond
  · intro _
    have hbond := sameRows_noteBondLocked row s d.now
    unfold payInvoiceArm
    split
    · exact .refl s
    · dsimp only
      split
      · rw [hbond.writeBlocked, hb]
        exact hbond
      · exact hbond.trans (sameRows_persistPeerReputation d _)
  · intro _
    unfold statusArm
    split
    · exact .refl s
    · split
      · exact .refl s
      · simpa [hb] using SameRows.refl s
  · intro _ state reason
    unfold cooperativeCancelArm
    simpa [hb] using SameRows.refl s

/-- No status arm touches anything of a wiped row. -/
theorem arm_of_wiped (ha : isStatusArm d.msg.action = true) : arm env d .wiped s = s := by
  refine arm_cases (motive := (· = s)) ha ?_ ?_ ?_ ?_ ?_ ?_ <;> intros <;> rfl

/-- A message that does not move the cursor leaves the row. -/
theorem sameRows_arm_of_idle (ha : isStatusArm d.msg.action = true) (hi : rowEffect d.msg = none) :
    SameRows s (arm env d row s) := by
  refine arm_cases (motive := SameRows s) ha ?_ ?_ ?_ ?_ ?_ ?_
  · intro h
    simp [rowEffect, h] at hi
  · intro h
    rw [hi] at h
    cases h
  · intro h
    have hsync : addInvoiceSync d.msg.payload = none := by
      simpa [rowEffect, h] using hi
    unfold addInvoiceArm
    rw [hsync]
    split
    · exact .refl s
    · exact (sameRows_noteBondLocked row s d.now).trans (sameRows_persistPeerReputation d _)
  · intro h
    unfold payInvoiceArm
    split
    · exact .refl s
    · dsimp only
      split
      · next hp => simp [rowEffect, h, hp] at hi
      · exact (sameRows_noteBondLocked row s d.now).trans (sameRows_persistPeerReputation d _)
  · intro h
    have hnone : statusForAction d.msg.action = none := by
      rw [hi] at h
      exact (Option.map_eq_none_iff.mp h.symm)
    unfold statusArm
    rw [hnone]
    split <;> exact .refl s
  · intro h
    rw [hi] at h
    cases h

/-- The row, where the order has one, stands at key index `i`; a wiped one left its tombstone
there. -/
def RowAt (i : Nat) (s : OrderState) : Prop :=
  s.trade.map (·.tradeKeyIndex) = some i ∨
    s.trades = [] ∧ ∃ wipedAt, s.tradeWiped = some ⟨wipedAt, some i⟩

theorem RowAt.of_sameRows {i : Nat} {s' : OrderState} (h : RowAt i s) (hs : SameRows s s') :
    RowAt i s' := by
  rcases h with h | ⟨h, w, hw⟩
  · exact Or.inl (hs.rowIndex.trans h)
  · exact Or.inr ⟨hs.trades_nil.mpr h, w, hs.wiped.trans hw⟩

/-- The state after an accepted message with effect `e`. -/
structure Accepted (d : Delivery) (e : RowEffect) (i : Nat) (s s' : OrderState) : Prop where
  status : s'.rowStatus = e.apply d.rowLookupFails s.rowStatus
  cursor : s'.statusCursor = some d.msg.createdAt
  row : RowAt i s'

/-- An accepted message moves the cursor to its own timestamp. -/
theorem nextCursor_of_accepted {c : Option Int} {ts now : Int}
    (hnow : ts ≤ now + maxClockSkewSecs) (hc : c.any (ts < ·) = false) :
    nextCursor c ts now = some ts := by
  unfold nextCursor
  rw [if_neg (by omega)]
  cases c with
  | none => rfl
  | some c =>
      have hle : c ≤ ts := by simpa using hc
      by_cases heq : c = ts
      · simp [heq]
      · have : ¬ ts ≤ c := by omega
        simp [this]

/-- Within an accepted message, once the cursor has moved: the row is still the one `t` the
dispatch read. -/
structure Moved (d : Delivery) (row : RowState) (t : TradeInfo) (s s₁ : OrderState) : Prop where
  reads : RowMatches row s₁
  status : s₁.rowStatus = s.rowStatus
  index : s₁.trade.map (·.tradeKeyIndex) = some t.tradeKeyIndex
  cursor : s₁.statusCursor = some d.msg.createdAt

variable {t : TradeInfo} {e : RowEffect} {s₁ s₂ : OrderState}

theorem Moved.of_sameRows (h : Moved d row t s s₁) (hs : SameRows s₁ s₂) : Moved d row t s s₂ :=
  ⟨h.reads.of_sameRows hs, hs.rowStatus.trans h.status, hs.rowIndex.trans h.index,
    hs.cursor.trans h.cursor⟩

/-- Writes to the book and the settings stay out of it. -/
theorem Moved.congr (h : Moved d row t s s₁) (ht : s₂.trades = s₁.trades)
    (hc : s₂.statusCursor = s₁.statusCursor) : Moved d row t s s₂ := by
  have htrade : s₂.trade = s₁.trade := congrArg List.head? ht
  have hst : s₂.rowStatus = s₁.rowStatus := by
    unfold OrderState.rowStatus
    rw [htrade]
  refine ⟨fun t' ht' => hst.trans (h.reads t' ht'), hst.trans h.status, ?_, hc.trans h.cursor⟩
  rw [htrade, h.index]

theorem Moved.updateOrderStatus (h : Moved d row t s s₁) (status : OrderStatus) :
    Moved d row t s (s₁.updateOrderStatus status) :=
  h.congr rfl rfl

theorem Moved.recordInvoiceStepStart (h : Moved d row t s s₁) (status : OrderStatus)
    (ts now : Int) : Moved d row t s (s₁.recordInvoiceStepStart status ts now) :=
  h.congr rfl rfl

theorem Moved.syncBookEntry (h : Moved d row t s s₁) (status : OrderStatus) (sats : Option Nat) :
    Moved d row t s (syncBookEntry status sats s₁) := by
  unfold Orders.syncBookEntry
  split
  · exact h.congr rfl rfl
  · exact h

theorem Moved.forgetWireOrder (h : Moved d row t s s₁) : Moved d row t s s₁.forgetWireOrder :=
  h.congr rfl rfl

theorem Moved.emitTradeUpdateAt (h : Moved d row t s s₁) (status : OrderStatus)
    (reason : Option TradeUpdateReason) (ts : Int) :
    Moved d row t s (s₁.emitTradeUpdateAt status reason ts) :=
  h.congr rfl rfl

/-- Nothing more is written. -/
theorem Moved.accepted_keep (h : Moved d row t s s₁) :
    Accepted d .keep t.tradeKeyIndex s s₁ :=
  ⟨h.status, h.cursor, Or.inl h.index⟩

/-- The arm ends with its write. -/
theorem Moved.accepted_write (h : Moved d row t s s₁) (status : OrderStatus)
    (invoice : Option String) (amount : Option Nat) :
    Accepted d (.write status) t.tradeKeyIndex s
      (syncAndEmit row status invoice amount d.msg.createdAt s₁) := by
  refine ⟨?_, ?_, Or.inl ?_⟩
  · rw [syncAndEmit_rowStatus _ _ _ _ _ _ h.reads, h.status]
    rfl
  · rw [syncAndEmit_statusCursor, h.cursor]
  · rw [syncAndEmit_rowIndex, h.index]

theorem Accepted.forgetWireOrder {i : Nat} (h : Accepted d e i s s₁) :
    Accepted d e i s s₁.forgetWireOrder :=
  ⟨h.status, h.cursor, h.row⟩

/-- A cancel that keeps the history writes `Canceled`. -/
theorem accepted_cancelKeepingHistory (h : Moved d row t s s₁)
    (hkeep : ∀ status, s.rowStatus = some status →
      ¬(d.rowLookupFails = false ∧ cancellationWipesHistory status = true)) :
    Accepted d .cancel t.tradeKeyIndex s (cancelKeepingHistory d row s₁) := by
  have hw : Accepted d (.write .canceled) t.tradeKeyIndex s (cancelKeepingHistory d row s₁) :=
    (h.forgetWireOrder.of_sameRows (sameRows_noteBondReleased row _)).accepted_write .canceled
      none none
  refine ⟨hw.status.trans ?_, hw.cursor, hw.row⟩
  cases hst : s.rowStatus with
  | none => rfl
  | some status =>
      simp only [RowEffect.apply, Option.map_some, Option.bind_some]
      rw [if_neg (hkeep status hst)]

/-- A cancel over a row that never went active wipes it. -/
theorem accepted_cancelNeverActive (h : Moved d row t s s₁) (hf : d.rowLookupFails = false)
    (hst : s.rowStatus = some t.order.status)
    (hwipe : cancellationWipesHistory t.order.status = true) :
    Accepted d .cancel t.tradeKeyIndex s (cancelNeverActive d t s₁) := by
  have hcur : (bondCancelReason s₁).1.statusCursor = s₁.statusCursor := by
    unfold bondCancelReason
    split <;> rfl
  refine ⟨?_, ?_, Or.inr ⟨?_, d.msg.createdAt, ?_⟩⟩
  · have hnone : (cancelNeverActive d t s₁).rowStatus = none := by
      simp [cancelNeverActive, OrderState.rowStatus, OrderState.trade]
    simp [hnone, RowEffect.apply, hst, hf, hwipe]
  · unfold cancelNeverActive
    split <;> simp [hcur, h.cursor]
  · simp [cancelNeverActive]
  · simp [cancelNeverActive]

/-- The dispatch read the row `t`, and neither the gate nor the cursor stops the message. -/
structure Admitted (d : Delivery) (row : RowState) (t : TradeInfo) (s : OrderState) : Prop where
  gate : statusArmGate row = false
  unblocked : s.statusWriteBlocked d.msg.action d.msg.createdAt = false
  moved : Moved d row t s (s.recordStatusEvent d.msg.createdAt d.now)

/-- The invoice arms note the bond before they consult the cursor. -/
theorem Admitted.movedBond (h : Admitted d row t s) :
    Moved d row t s ((noteBondLocked row d.now s).recordStatusEvent d.msg.createdAt d.now) := by
  have hbond := sameRows_noteBondLocked row s d.now
  have hreads : RowMatches row s := h.moved.reads
  refine ⟨fun t' ht' => hreads.of_sameRows hbond t' ht', hbond.rowStatus,
    hbond.rowIndex.trans h.moved.index, ?_⟩
  rw [OrderState.recordStatusEvent_statusCursor, hbond.cursor]
  exact h.moved.cursor

theorem Admitted.writesUnblocked (h : Admitted d row t s) :
    (noteBondLocked row d.now s).statusWriteBlocked d.msg.action d.msg.createdAt = false :=
  ((sameRows_noteBondLocked row s d.now).writeBlocked _ _).trans h.unblocked

theorem Admitted.canceledArm (h : Admitted d row t s)
    (hrow : row = if d.rowLookupFails then .unknown else .existing t)
    (hst : s.rowStatus = some t.order.status) :
    Accepted d .cancel t.tradeKeyIndex s (canceledArm d row s) := by
  have hmoved := h.moved
  unfold Orders.canceledArm
  simp only [h.gate, h.unblocked, Bool.or_self, Bool.false_eq_true, if_false]
  cases hf : d.rowLookupFails with
  | true =>
      simp only [hrow, hf, if_true]
      refine accepted_cancelKeepingHistory ?_ (fun _ _ hc => by simp [hf] at hc)
      simpa [hrow, hf] using hmoved
  | false =>
      simp only [hrow, hf, Bool.false_eq_true, if_false]
      split
      · next hw => exact accepted_cancelNeverActive hmoved hf hst hw
      · next hw =>
          refine accepted_cancelKeepingHistory (by simpa [hrow, hf] using hmoved) ?_
          intro status hs hc
          rw [hst] at hs
          exact hw (Option.some.inj hs ▸ hc.2)

theorem Admitted.escrowLockedArm (h : Admitted d row t s) :
    Accepted d (escrowEffect d.msg) t.tradeKeyIndex s (escrowLockedArm d row s) := by
  have hnoted := h.moved.of_sameRows (sameRows_noteBondLocked row _ d.now)
  unfold Orders.escrowLockedArm escrowEffect
  simp only [h.gate, h.unblocked, Bool.or_self, Bool.false_eq_true, if_false]
  cases payloadOrder d.msg with
  | none => exact hnoted.accepted_keep
  | some so =>
      dsimp only
      cases (so.status.bind mapCoreStatus).orElse fun _ => statusForAction d.msg.action with
      | none => exact hnoted.accepted_keep
      | some status => exact (hnoted.updateOrderStatus status).accepted_write status none none

theorem Admitted.addInvoiceArm (h : Admitted d row t s) {status : OrderStatus}
    {amount : Option Nat} (hsync : addInvoiceSync d.msg.payload = some (status, amount)) :
    Accepted d (.write status) t.tradeKeyIndex s (addInvoiceArm d row s) := by
  unfold Orders.addInvoiceArm
  simp only [h.gate, hsync, h.writesUnblocked, Bool.false_eq_true, if_false]
  exact ((h.movedBond.recordInvoiceStepStart _ _ _).syncBookEntry _ _).accepted_write _ _ _

theorem Admitted.payInvoiceArm (h : Admitted d row t s) {so : Option Wire.SmallOrder}
    {invoice : String} {amount : Option Int}
    (hp : d.msg.payload = some (.paymentRequest so invoice amount)) :
    Accepted d (.write .waitingPayment) t.tradeKeyIndex s (payInvoiceArm d row s) := by
  unfold Orders.payInvoiceArm
  simp only [h.gate, hp, h.writesUnblocked, Bool.false_eq_true, if_false]
  exact ((h.movedBond.recordInvoiceStepStart _ _ _).updateOrderStatus _).accepted_write _ _ _

theorem Admitted.statusArm (h : Admitted d row t s) {status : OrderStatus}
    (hs : statusForAction d.msg.action = some status) :
    Accepted d (.write status) t.tradeKeyIndex s (statusArm d row s) := by
  have hnoted : Moved d row t s
      (if (isHardTerminal status || decide (status = .settledHoldInvoice)) = true then
        noteBondReleased row (s.recordStatusEvent d.msg.createdAt d.now)
      else noteBondLocked row d.now (s.recordStatusEvent d.msg.createdAt d.now)) := by
    split
    · exact h.moved.of_sameRows (sameRows_noteBondReleased row _)
    · exact h.moved.of_sameRows (sameRows_noteBondLocked row _ d.now)
  have hw := (hnoted.updateOrderStatus status).accepted_write status none none
  unfold Orders.statusArm
  simp only [h.gate, hs, h.unblocked, Bool.false_eq_true, if_false]
  split
  · exact hw.forgetWireOrder
  · exact hw

theorem Admitted.cooperativeCancelArm (h : Admitted d row t s) (state : CooperativeCancelState)
    (reason : TradeUpdateReason) :
    Accepted d .keep t.tradeKeyIndex s (cooperativeCancelArm state reason d row s) := by
  unfold Orders.cooperativeCancelArm
  simp only [h.gate, h.unblocked, Bool.or_self, Bool.false_eq_true, if_false]
  have hcoop : SameRows (s.recordStatusEvent d.msg.createdAt d.now)
      ((s.recordStatusEvent d.msg.createdAt d.now).setCooperativeCancelState state) :=
    .of_map (f := TradeInfo.setCooperativeCancelState state) (fun _ => rfl) rfl rfl rfl rfl rfl
  exact ((h.moved.of_sameRows hcoop).emitTradeUpdateAt _ _ _).accepted_keep

/-- **The arms, on a message they accept.** `t` is the row the dispatch read, if the lookup did
not fail. -/
theorem accepted_arm (env : Env) (ha : isStatusArm d.msg.action = true)
    (he : rowEffect d.msg = some e)
    (hrow : row = if d.rowLookupFails then .unknown else .existing t)
    (hst : s.rowStatus = some t.order.status)
    (hidx : s.trade.map (·.tradeKeyIndex) = some t.tradeKeyIndex)
    (hb : s.statusWriteBlocked d.msg.action d.msg.createdAt = false)
    (hnow : d.msg.createdAt ≤ d.now + maxClockSkewSecs) :
    Accepted d e t.tradeKeyIndex s (arm env d row s) := by
  have hgate : statusArmGate row = false := by
    rw [hrow]
    cases d.rowLookupFails <;> rfl
  have hreads : RowMatches row s := by
    intro t' ht'
    rw [hrow] at ht'
    cases hf : d.rowLookupFails <;> simp [hf, RowState.trade] at ht'
    rw [hst, ht']
  have hmoved : Moved d row t s (s.recordStatusEvent d.msg.createdAt d.now) := by
    refine ⟨hreads, rfl, hidx, nextCursor_of_accepted hnow ?_⟩
    unfold OrderState.statusWriteBlocked at hb
    exact (Bool.or_eq_false_iff.mp hb).2
  have hadmitted : Admitted d row t s := ⟨hgate, hb, hmoved⟩
  -- The effect names the branch of its arm: the others do not move the cursor.
  refine arm_cases (motive := Accepted d e t.tradeKeyIndex s) ha ?_ ?_ ?_ ?_ ?_ ?_
  · intro h
    obtain rfl : RowEffect.cancel = e := by simpa [rowEffect, h] using he
    exact hadmitted.canceledArm hrow hst
  · intro h
    obtain rfl : e = escrowEffect d.msg := Option.some.inj (he.symm.trans h)
    exact hadmitted.escrowLockedArm
  · intro h
    cases hsync : addInvoiceSync d.msg.payload with
    | none => simp [rowEffect, h, hsync] at he
    | some r =>
        obtain rfl : RowEffect.write r.1 = e := by simpa [rowEffect, h, hsync] using he
        exact hadmitted.addInvoiceArm hsync
  · intro h
    unfold rowEffect at he
    rw [h] at he
    dsimp only at he
    split at he
    · next hp =>
      obtain rfl := Option.some.inj he
      exact hadmitted.payInvoiceArm hp
    · cases he
  · intro h
    rw [he] at h
    cases hs : statusForAction d.msg.action with
    | none => simp [hs] at h
    | some status =>
        obtain rfl : e = .write status := by simpa [hs] using h
        exact hadmitted.statusArm hs
  · intro h state reason
    obtain rfl : RowEffect.keep = e := Option.some.inj (h.symm.trans he)
    exact hadmitted.cooperativeCancelArm state reason

end Arms

end MostroApp.Orders
