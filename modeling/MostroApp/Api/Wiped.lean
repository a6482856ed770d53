import MostroApp.Api.Absorbing
import MostroApp.Api.Passes

set_option autoImplicit false

/-! # What becomes of a wiped trade

Deleting a row on purpose leaves a tombstone with the row's key index, and the tombstone is all
that keeps the order's replayed messages from bringing the row back. Five wipes write that one
setting. Those that hold no lock delete first and write it in a later step, with the index of
the row they once read; the guarantee is therefore about runs: where every tombstone written
over a wiped order names the row that was deleted, and none is outstanding when a message is
dispatched, the order stays wiped up to that index and open above it.
-/

namespace MostroApp.Orders

open Pending Status Interleaving Transition
open Wire (Action)

/-! ## Messages that leave no trace -/

/-- No row came or went, and nothing the status arms, the peer capture or the screens see of the
order changed. -/
structure Quiet (s s' : OrderState) : Prop extends SameRows s s' where
  peers : s'.trades.map (·.counterpartyPubkey) = s.trades.map (·.counterpartyPubkey)
  session : s'.session = s.session
  updates : s'.updates = s.updates

namespace Quiet

variable {s s' s'' : OrderState}

theorem refl (s : OrderState) : Quiet s s := ⟨.refl s, rfl, rfl, rfl⟩

theorem trans (h : Quiet s s') (h' : Quiet s' s'') : Quiet s s'' :=
  ⟨h.toSameRows.trans h'.toSameRows, h'.peers.trans h.peers, h'.session.trans h.session,
    h'.updates.trans h.updates⟩

end Quiet

section Stages

variable (d : Delivery) (s : OrderState)

theorem quiet_reconcileStoredId : Quiet s (reconcileStoredId d s) := by
  refine ⟨sameRows_reconcileStoredId d s, ?_, ?_, ?_⟩ <;>
    (unfold reconcileStoredId; split <;> rfl)

theorem quiet_answerClaimSubmit : Quiet s (answerClaimSubmit d s) := by
  refine ⟨sameRows_answerClaimSubmit d s, ?_, ?_, ?_⟩ <;>
    (unfold answerClaimSubmit; split <;> rfl)

theorem quiet_answerDispute : Quiet s (answerDispute d s) := by
  refine ⟨sameRows_answerDispute d s, ?_, ?_, ?_⟩ <;>
    (unfold answerDispute; split <;> [(dsimp only; split <;> rfl); rfl])

theorem quiet_answerWaiters : Quiet s (answerWaiters d s) := by
  have hadd : ∀ s, Quiet s (answerAddInvoice d s) := fun s =>
    ⟨sameRows_answerAddInvoice d s, rfl, rfl, rfl⟩
  unfold answerWaiters
  split
  · exact .refl s
  · exact (quiet_answerClaimSubmit d s).trans ((hadd _).trans (quiet_answerDispute d _))

theorem quiet_interceptTake {s' : OrderState} (h : interceptTake d s = some s') : Quiet s s' := by
  refine ⟨sameRows_interceptTake d s h, ?_, ?_, ?_⟩ <;>
    (unfold interceptTake at h
     split at h
     · cases h
     · obtain ⟨p, -, rfl⟩ := Option.map_eq_some_iff.mp h
       rfl)

theorem quiet_restoreSessionArm : Quiet s (restoreSessionArm d s) := by
  refine ⟨sameRows_restoreSessionArm d s, ?_, ?_, ?_⟩ <;>
    (unfold restoreSessionArm; split <;> rfl)

theorem quiet_cantDoArm : Quiet s (cantDoArm d s) := ⟨sameRows_cantDoArm d s, rfl, rfl, rfl⟩

theorem quiet_slashBond : Quiet s (slashBond d s) := by
  have hbond : ∀ b : BondInfo, (s.updateTradeBond b).trades.map (·.counterpartyPubkey) =
      s.trades.map (·.counterpartyPubkey) := fun b => by
    rw [OrderState.updateTradeBond_trades, List.map_map]
    rfl
  refine ⟨sameRows_slashBond d s, ?_, ?_, ?_⟩ <;>
    (unfold slashBond
     repeat' split
     all_goals first | rfl | exact hbond _)

/-- A message that names no order leaves no trace in it. -/
theorem quiet_dispatchUnaddressed : Quiet s (dispatchUnaddressed d s) := by
  have hwait := quiet_answerWaiters d s
  unfold dispatchUnaddressed
  split
  · next h => exact quiet_interceptTake d s h
  · dsimp only
    split
    · exact hwait.trans (quiet_restoreSessionArm d _)
    · exact hwait.trans (quiet_cantDoArm d _)
    · exact hwait

end Stages

/-! ## Messages over a wiped order -/

/-- The row of key index `i` was wiped: there is none, and the tombstone names it. -/
def Gone (i : Nat) (s : OrderState) : Prop :=
  s.trades = [] ∧ ∃ wipedAt, s.tradeWiped = some ⟨wipedAt, some i⟩

/-- A newer trade of the order was recovered from its messages, and its key is bound. -/
def Renewed (i : Nat) (s : OrderState) : Prop :=
  s.trades ≠ [] ∧ ∃ k, s.tradeKey = some k ∧ i < k

section Dispatch

variable {env : Env} {d : Delivery} {row : RowState} {s s' : OrderState} {i : Nat}

theorem Gone.of_sameRows (h : Gone i s) (hs : SameRows s s') : Gone i s' := by
  obtain ⟨hnil, w, hw⟩ := h
  exact ⟨hs.trades_nil.mpr hnil, w, hs.wiped.trans hw⟩

/-- A covered message adopts no remainder. -/
theorem adoptRangeRemainder_of_gone (h : Gone i s) (hi : d.tradeIndex ≤ i)
    (hf : d.adoptLookupFails = false) : adoptRangeRemainder d s = (s, false) := by
  obtain ⟨hnil, w, hw⟩ := h
  unfold adoptRangeRemainder
  split
  · rfl
  · simp [hf, OrderState.trade, hnil, hw, Tombstone.covers, hi]

/-- `new-order` over a wiped order, addressed to a covered key. -/
theorem quiet_newOrderArm_of_gone (h : Gone i s) (hi : d.tradeIndex ≤ i)
    (hf : d.adoptLookupFails = false)
    (hc : ∀ p u b, s.pending d.tradePubkey = some p →
      requestIdMatches p.requestId d.msg.requestId = true → p.kind ≠ .create u b) :
    Quiet s (newOrderArm d .wiped s) := by
  unfold newOrderArm
  dsimp only
  split
  · have hset : Quiet s (s.setPending (takeMatchingRequest d.tradePubkey d.msg.requestId
      s.pending).1) := ⟨⟨rfl, rfl, rfl, rfl, rfl⟩, rfl, rfl, rfl⟩
    have hadopt := adoptRangeRemainder_of_gone (h.of_sameRows hset.toSameRows) hi hf
    unfold uncorrelatedNewOrder
    rw [confirmMakerBond_of_status d (fun t ht => by cases ht)]
    simp only [hadopt, Bool.false_eq_true, if_false, or_true, if_true]
    exact hset
  · next p hp =>
    obtain ⟨hentry, hm⟩ := takeMatchingRequest_some hp
    split
    · next u hk => exact absurd hk (hc p u true hentry hm)
    · next u hk => exact absurd hk (hc p u false hentry hm)
    · exact ⟨⟨rfl, rfl, rfl, rfl, rfl⟩, rfl, rfl, rfl⟩

/-- `pay-bond-invoice` over an order without a row, when no create is waiting for it. -/
theorem quiet_payBondInvoiceArm (hrow : row.trade = none)
    (hc : ∀ p u b, s.pending d.tradePubkey = some p →
      requestIdMatches p.requestId d.msg.requestId = true → p.kind ≠ .create u b) :
    Quiet s (payBondInvoiceArm env d row s) := by
  have hrefresh : ∀ s, refreshTakerBond env d row s = s := fun s => by
    unfold refreshTakerBond
    rw [hrow]
  rw [payBondInvoiceArm_of_noCreate hc, hrefresh]
  exact ⟨⟨rfl, rfl, rfl, rfl, rfl⟩, rfl, rfl, rfl⟩

/-- **A covered message leaves no trace** in a wiped order, unless it confirms a create: every
arm drops it, and neither the rebuild nor the adoption brings the row back. -/
theorem quiet_dispatch_of_gone (h : Gone i s) (hi : d.tradeIndex ≤ i)
    (hf : d.rowLookupFails = false) (ha : d.adoptLookupFails = false)
    (hc : confirmsCreate d s = false) : Quiet s (dispatchMostroMessage env d s) := by
  have hrec := quiet_reconcileStoredId d s
  have hrow : (reconcileStoredId d s).tradeRowState d.rowLookupFails d.tradeIndex = .wiped := by
    obtain ⟨hnil, w, hw⟩ := h.of_sameRows hrec.toSameRows
    rw [tradeRowState_wiped _ hnil hw (by simpa [Tombstone.covers] using hi), hf]
    rfl
  have hcap : capturePeer env d .wiped (reconcileStoredId d s) = reconcileStoredId d s :=
    if_pos (Or.inr rfl)
  have hcreate := no_create_waiting env .wiped hc
  rw [hcap] at hcreate
  refine dispatch_cases (motive := Quiet s) env hrow (fun _ => quiet_dispatchUnaddressed d s)
    (fun _ => .refl s) ?_ ?_
  · rw [hcap]
    exact fun _ s' hs' => hrec.trans (quiet_interceptTake d _ hs')
  · rw [hcap]
    rintro _ _ _ _ rfl
    have hpro := hrec.trans (quiet_answerWaiters d (reconcileStoredId d s))
    have hgone := h.of_sameRows hpro.toSameRows
    show Quiet s (arm env d .wiped (answerWaiters d (reconcileStoredId d s)))
    generalize answerWaiters d (reconcileStoredId d s) = s₁ at *
    refine hpro.trans ?_
    by_cases harm : isStatusArm d.msg.action = true
    · rw [arm_of_wiped harm]
      exact .refl s₁
    · unfold arm
      cases hact : d.msg.action <;> rw [hact] at harm hcreate <;>
        first
        | exact absurd rfl harm
        | exact .refl _
        | exact quiet_newOrderArm_of_gone hgone hi ha (hcreate (Or.inl rfl))
        | exact quiet_payBondInvoiceArm rfl (hcreate (Or.inr rfl))
        | exact quiet_restoreSessionArm d _
        | exact quiet_cantDoArm d _
        | exact quiet_slashBond d _

/-! ## Whether the order has a row -/

/-- What a row is told apart by. -/
def rowId (t : TradeInfo) : String × Nat := (t.id, t.tradeKeyIndex)

/-- The order's rows are the ones it had, and so is its tombstone. -/
structure RowsStand (s s' : OrderState) : Prop where
  ids : s'.trades.map rowId = s.trades.map rowId
  wiped : s'.tradeWiped = s.tradeWiped
  orderId : s'.orderId = s.orderId

namespace RowsStand

variable {s s' s'' : OrderState}

theorem refl (s : OrderState) : RowsStand s s := ⟨rfl, rfl, rfl⟩

theorem trans (h : RowsStand s s') (h' : RowsStand s' s'') : RowsStand s s'' :=
  ⟨h'.ids.trans h.ids, h'.wiped.trans h.wiped, h'.orderId.trans h.orderId⟩

theorem nil (h : RowsStand s s') : s'.trades = [] ↔ s.trades = [] := by
  rw [← List.map_eq_nil_iff (f := rowId), h.ids, List.map_eq_nil_iff]

/-- An edit of every row that keeps its id and key. -/
theorem of_map {f : TradeInfo → TradeInfo} (hf : ∀ t, rowId (f t) = rowId t)
    (hrows : s'.trades = s.trades.map f) (hwiped : s'.tradeWiped = s.tradeWiped)
    (horder : s'.orderId = s.orderId) : RowsStand s s' := by
  refine ⟨?_, hwiped, horder⟩
  rw [hrows, List.map_map]
  exact List.map_congr_left fun t _ => hf t

end RowsStand

theorem SameRows.rowsStand (h : SameRows s s') : RowsStand s s' := by
  refine ⟨?_, h.wiped, h.orderId⟩
  have hids := congrArg (List.map fun k => (k.1, k.2.2)) h.keys
  rwa [List.map_map, List.map_map] at hids

theorem rowsStand_updateTradeFields (status : Option OrderStatus) (invoice : Option String)
    (amount : Option Nat) (s : OrderState) :
    RowsStand s (s.updateTradeFields status invoice amount) :=
  .of_map (f := TradeInfo.setFields status invoice amount) (fun _ => rfl) rfl rfl rfl

theorem Gone.of_rowsStand (h : Gone i s) (hs : RowsStand s s') : Gone i s' := by
  obtain ⟨hnil, w, hw⟩ := h
  exact ⟨hs.nil.mpr hnil, w, hs.wiped.trans hw⟩

theorem taskStages_rowsStand : TaskStages RowsStand where
  refl := RowsStand.refl
  trans := RowsStand.trans
  updateTradeFields := rowsStand_updateTradeFields
  updateTradeBond b s := (sameRows_updateTradeBond s b).rowsStand
  updateOrderStatus _ _ := ⟨rfl, rfl, rfl⟩
  upsertOrder _ _ := ⟨rfl, rfl, rfl⟩
  removeOrder _ := ⟨rfl, rfl, rfl⟩
  noteWireOrder _ _ := ⟨rfl, rfl, rfl⟩
  refreshWireOrder _ _ := ⟨rfl, rfl, rfl⟩
  forgetWireOrder _ := ⟨rfl, rfl, rfl⟩
  emitTradeUpdateAt _ _ _ _ := ⟨rfl, rfl, rfl⟩

theorem armStages_rowsStand : ArmStages RowsStand where
  refl := RowsStand.refl
  trans := RowsStand.trans
  recordStatusEvent _ _ _ := ⟨rfl, rfl, rfl⟩
  recordInvoiceStepStart _ _ _ _ := ⟨rfl, rfl, rfl⟩
  noteBondLocked row now s := (sameRows_noteBondLocked row s now).rowsStand
  noteBondReleased row s := (sameRows_noteBondReleased row s).rowsStand
  persistPeerReputation d s := (sameRows_persistPeerReputation d s).rowsStand
  updateOrderStatus _ _ := ⟨rfl, rfl, rfl⟩
  syncBookEntry status sats s := by
    unfold syncBookEntry
    split <;> exact ⟨rfl, rfl, rfl⟩
  syncAndEmit row status invoice amount ts s := by
    unfold syncAndEmit OrderState.syncTradeFieldsIfChanged
    by_cases h : row.trade.all (OrderState.fieldsDiffer · (some status) invoice amount) = true
    · simp only [h, if_true]
      have hfields := rowsStand_updateTradeFields (some status) invoice amount s
      exact ⟨hfields.ids, rfl, rfl⟩
    · simp only [h, Bool.false_eq_true, if_false]
      exact .refl s
  forgetWireOrder _ := ⟨rfl, rfl, rfl⟩
  setCooperativeCancelState state s :=
    .of_map (f := TradeInfo.setCooperativeCancelState state) (fun _ => rfl) rfl rfl rfl
  emitTradeUpdateAt _ _ _ _ := ⟨rfl, rfl, rfl⟩

/-- Only a message of a live trade is rebuilt from. -/
theorem rebuildExcludes_of_rebuiltRow {orderId : String} {t : TradeInfo}
    (h : rebuiltRow d orderId = some t) : rebuildExcludes d.msg.action = false := by
  unfold rebuiltRow at h
  split at h
  · cases h
  · next hex => exact Bool.eq_false_iff.mpr hex

/-- The actions without an arm of their own leave the order. -/
theorem arm_of_excluded (harm : isStatusArm d.msg.action ≠ true)
    (hex : rebuildExcludes d.msg.action = false) : arm env d row s = s := by
  unfold arm
  cases hact : d.msg.action <;> rw [hact] at harm hex <;>
    first | rfl | exact absurd rfl harm | cases hex

/-- A message over an order it has just rebuilt keeps the row and its key. -/
theorem renewed_arm_of_rebuilt (hex : rebuildExcludes d.msg.action = false) (h : Renewed i s) :
    Renewed i (arm env d row s) := by
  obtain ⟨hrows, k, hk, hlt⟩ := h
  by_cases harm : isStatusArm d.msg.action = true
  · have hstand : RowsStand s (arm env d row s) := armStages_rowsStand.arm harm fun hact => by
      rw [hact] at hex
      cases hex
    exact ⟨fun hnil => hrows (hstand.nil.mp hnil), k,
      (sameKeys_arm env d row s harm).tradeKey.trans hk,
      hlt⟩
  · rw [arm_of_excluded harm hex]
    exact ⟨hrows, k, hk, hlt⟩

/-- The adoption creates a row under the message's key, or does nothing. -/
theorem adoptRangeRemainder_cases (d : Delivery) (s : OrderState) :
    adoptRangeRemainder d s = (s, false) ∨
      (adoptRangeRemainder d s).2 = true ∧ (adoptRangeRemainder d s).1.trades ≠ [] ∧
        (adoptRangeRemainder d s).1.tradeKey = some d.tradeIndex := by
  unfold adoptRangeRemainder
  repeat' split
  all_goals first
    | exact Or.inl rfl
    | exact Or.inr ⟨rfl, by simp [TradeInfo.save], rfl⟩

theorem rowsStand_resyncRepublishedMakerOrder (d : Delivery) (s : OrderState) :
    RowsStand s (resyncRepublishedMakerOrder d s).1 := by
  have hfields := rowsStand_updateTradeFields (some .pending) none none s
  unfold resyncRepublishedMakerOrder
  repeat' split
  all_goals first | exact .refl s | exact ⟨hfields.ids, rfl, rfl⟩

theorem resyncRepublishedMakerOrder_tradeKey (d : Delivery) (s : OrderState) :
    (resyncRepublishedMakerOrder d s).1.tradeKey = s.tradeKey := by
  unfold resyncRepublishedMakerOrder
  repeat' split
  all_goals rfl

/-- A `new-order` that confirms nothing adopts a row under its key, or brings none. -/
theorem uncorrelatedNewOrder_cases (hb : confirmMakerBond d row s = (s, false)) :
    RowsStand s (uncorrelatedNewOrder d row s) ∧
        (uncorrelatedNewOrder d row s).tradeKey = s.tradeKey ∨
      (uncorrelatedNewOrder d row s).trades ≠ [] ∧
        (uncorrelatedNewOrder d row s).tradeKey = some d.tradeIndex := by
  unfold uncorrelatedNewOrder
  simp only [hb, Bool.false_eq_true, if_false]
  rcases adoptRangeRemainder_cases d s with h | ⟨hacted, hrows, hkey⟩
  · rw [h]
    left
    split
    · exact ⟨.refl s, rfl⟩
    · exact ⟨rowsStand_resyncRepublishedMakerOrder d s, resyncRepublishedMakerOrder_tradeKey d s⟩
  · rw [hacted]
    simp only [true_or, if_true]
    exact Or.inr ⟨hrows, hkey⟩

/-- `new-order` over an order without a row. -/
theorem gone_or_renewed_newOrderArm (hrow : row.trade = none) (h : Gone i s)
    (hi : i < d.tradeIndex)
    (hc : ∀ p u b, s.pending d.tradePubkey = some p →
      requestIdMatches p.requestId d.msg.requestId = true → p.kind ≠ .create u b) :
    Gone i (newOrderArm d row s) ∨ Renewed i (newOrderArm d row s) := by
  unfold newOrderArm
  dsimp only
  split
  · have hgone : Gone i (s.setPending (takeMatchingRequest d.tradePubkey d.msg.requestId
      s.pending).1) := h
    have hnone : ∀ t, row.trade = some t → t.order.status ≠ .waitingMakerBond := by
      intro t ht
      rw [hrow] at ht
      cases ht
    have hbond := confirmMakerBond_of_status d hnone
      (s := s.setPending (takeMatchingRequest d.tradePubkey d.msg.requestId s.pending).1)
    rcases uncorrelatedNewOrder_cases hbond with ⟨hstand, -⟩ | ⟨hrows, hkey⟩
    · exact Or.inl (hgone.of_rowsStand hstand)
    · exact Or.inr ⟨hrows, d.tradeIndex, hkey, hi⟩
  · next p hp =>
    obtain ⟨hentry, hm⟩ := takeMatchingRequest_some hp
    split
    · next u hk => exact absurd hk (hc p u true hentry hm)
    · next u hk => exact absurd hk (hc p u false hentry hm)
    · exact Or.inl h

/-- The arms of an order without a row, on a message above the wiped index. -/
theorem gone_or_renewed_arm (env : Env) (row : RowState) (hrow : row.trade = none) (h : Gone i s)
    (hi : i < d.tradeIndex)
    (hc : (d.msg.action = .newOrder ∨ d.msg.action = .payBondInvoice) → ∀ p u b,
      s.pending d.tradePubkey = some p → requestIdMatches p.requestId d.msg.requestId = true →
        p.kind ≠ .create u b) :
    Gone i (arm env d row s) ∨ Renewed i (arm env d row s) := by
  by_cases harm : isStatusArm d.msg.action = true
  · have hstand : RowsStand s (arm env d row s) := armStages_rowsStand.arm harm fun _ t ht _ => by
      rw [ht] at hrow
      cases hrow
    exact Or.inl (h.of_rowsStand hstand)
  · have hsame : ∀ {s'}, SameRows s s' → Gone i s' ∨ Renewed i s' := fun hs =>
      Or.inl (h.of_sameRows hs)
    unfold arm
    cases hact : d.msg.action <;> rw [hact] at harm hc <;>
      first
      | exact absurd rfl harm
      | exact hsame (.refl s)
      | exact gone_or_renewed_newOrderArm hrow h hi (hc (Or.inl rfl))
      | exact hsame (sameRows_payBondInvoiceArm (hc (Or.inr rfl)))
      | exact hsame (sameRows_restoreSessionArm d _)
      | exact hsame (sameRows_cantDoArm d _)
      | exact hsame (sameRows_slashBond d _)

/-- **A message above the wiped index** finds the order as it was wiped, or recovers a newer
trade under its own key. -/
theorem gone_or_renewed_dispatch (env : Env) (h : Gone i s) (hi : i < d.tradeIndex)
    (hf : d.rowLookupFails = false) (hc : confirmsCreate d s = false) :
    Gone i (dispatchMostroMessage env d s) ∨ Renewed i (dispatchMostroMessage env d s) := by
  have hsame : ∀ {s'}, SameRows s s' → Gone i s' ∨ Renewed i s' := fun hs =>
    Or.inl (h.of_sameRows hs)
  have hrow : (reconcileStoredId d s).tradeRowState d.rowLookupFails d.tradeIndex =
      .neverWritten := by
    obtain ⟨hnil, w, hw⟩ := h.of_sameRows (sameRows_reconcileStoredId d s)
    have hcov : Tombstone.covers ⟨w, some i⟩ d.tradeIndex = false := by
      simp [Tombstone.covers, hi]
    simp [OrderState.tradeRowState, OrderState.trade, hf, hnil, hw, hcov]
  have hcreate := no_create_waiting env .neverWritten hc
  refine dispatch_cases (motive := fun s' => Gone i s' ∨ Renewed i s') env hrow
    (fun _ => hsame (sameRows_dispatchUnaddressed d s)) (fun _ => Or.inl h) ?_ ?_
  · exact fun _ s' hs' => hsame ((sameRows_reconcileStoredId d s).trans
      ((sameRows_capturePeer env d _ _).trans (sameRows_interceptTake d _ hs')))
  · rintro _ _ _ _ rfl
    have hpro := sameRows_prologue env d .neverWritten s
    have hgone := h.of_sameRows hpro
    generalize answerWaiters d (capturePeer env d .neverWritten (reconcileStoredId d s)) = s₁ at *
    have harm := gone_or_renewed_arm env .neverWritten rfl hgone hi hcreate
    unfold rebuildIfNeverWritten
    dsimp only
    split
    · exact harm
    · unfold rebuildTradeFromDm
      split
      · next hsome =>
        split at hsome
        · cases hsome
        · next t ht =>
          obtain ⟨rfl, rfl⟩ := hsome
          have hex := rebuildExcludes_of_rebuiltRow ht
          exact Or.inr (renewed_arm_of_rebuilt hex
            ⟨by simp [TradeInfo.save], d.tradeIndex, rfl, hi⟩)
      · next hnone =>
        split at hnone
        · cases hnone
          exact harm
        · cases hnone

/-! ## Messages over a row -/

/-- What a message leaves of an order with a row: a row and its key binding, or the tombstone of
the row it wiped. -/
inductive RowEnds (d : Delivery) (s s' : OrderState) : Prop where
  | stays (rows : s'.trades ≠ []) (key : s'.tradeKey = s.tradeKey ∨
      supersededKey d s = false ∧ (s'.tradeKey = (reconcileStoredId d s).tradeKey ∨
        d.msg.action = .newOrder ∧ (s'.tradeKey = some d.tradeIndex ∨
          ∃ p, s.pending d.tradePubkey = some p ∧ s'.tradeKey = some p.tradeIndex)))
  | wiped (t : TradeInfo) (head : s.trade = some t) (rows : s'.trades = []) (wipedAt : Int)
      (tombstone : s'.tradeWiped = some ⟨wipedAt, some t.tradeKeyIndex⟩)

theorem taskStages_sameKeys : TaskStages SameKeys where
  refl := SameKeys.refl
  trans := SameKeys.trans
  updateTradeFields _ _ _ _ := ⟨rfl, rfl⟩
  updateTradeBond _ _ := ⟨rfl, rfl⟩
  updateOrderStatus _ _ := ⟨rfl, rfl⟩
  upsertOrder _ _ := ⟨rfl, rfl⟩
  removeOrder _ := ⟨rfl, rfl⟩
  noteWireOrder _ _ := ⟨rfl, rfl⟩
  refreshWireOrder _ _ := ⟨rfl, rfl⟩
  forgetWireOrder _ := ⟨rfl, rfl⟩
  emitTradeUpdateAt _ _ _ _ := ⟨rfl, rfl⟩

/-- Locking a maker's bond binds no key and deletes no row. -/
theorem confirmMakerBond_keeps (d : Delivery) (row : RowState) (h : s.trades ≠ []) :
    (confirmMakerBond d row s).1.trades ≠ [] ∧
      (confirmMakerBond d row s).1.tradeKey = s.tradeKey := by
  have hlock : ∀ (t : TradeInfo) (s : OrderState), s.trades ≠ [] →
      (lockMakerBond t d.tradeIndex d.now s).1.trades ≠ [] ∧
        (lockMakerBond t d.tradeIndex d.now s).1.tradeKey = s.tradeKey := by
    intro t s h
    refine ⟨fun hnil => ?_, ?_⟩
    · have hlen := taskStages_length.lockMakerBond (s := s) t d.tradeIndex d.now
      rw [hnil] at hlen
      exact h (List.length_eq_zero_iff.mp hlen.symm)
    · exact (taskStages_sameKeys.lockMakerBond t d.tradeIndex d.now).tradeKey
  unfold confirmMakerBond
  split
  · exact ⟨h, rfl⟩
  · dsimp only
    split
    · next filled _ =>
      exact hlock filled (s.persistTradeRow filled) (by simp [TradeInfo.save])
    · exact hlock _ s h

/-- `new-order` over a row. -/
theorem newOrderArm_of_row (row : RowState) (h : s.trades ≠ [])
    (hc : ∀ p u b, s.pending d.tradePubkey = some p →
      requestIdMatches p.requestId d.msg.requestId = true → p.kind ≠ .create u b) :
    (newOrderArm d row s).trades ≠ [] ∧
      ((newOrderArm d row s).tradeKey = s.tradeKey ∨
        (newOrderArm d row s).tradeKey = some d.tradeIndex ∨
        ∃ p, s.pending d.tradePubkey = some p ∧
          (newOrderArm d row s).tradeKey = some p.tradeIndex) := by
  unfold newOrderArm
  dsimp only
  split
  · have hset : (s.setPending (takeMatchingRequest d.tradePubkey d.msg.requestId
      s.pending).1).trades ≠ [] := h
    have hkey : (s.setPending (takeMatchingRequest d.tradePubkey d.msg.requestId
      s.pending).1).tradeKey = s.tradeKey := rfl
    generalize s.setPending (takeMatchingRequest d.tradePubkey d.msg.requestId
      s.pending).1 = s₁ at *
    obtain ⟨hrows, hbound⟩ := confirmMakerBond_keeps d row hset
    unfold uncorrelatedNewOrder
    dsimp only
    split
    · exact ⟨hrows, Or.inl (hbound.trans hkey)⟩
    · rcases adoptRangeRemainder_cases d (confirmMakerBond d row s₁).1 with
        had | ⟨had, hrows', hkey'⟩
      · rw [had]
        split
        · exact ⟨hrows, Or.inl (hbound.trans hkey)⟩
        · have hstand := rowsStand_resyncRepublishedMakerOrder d (confirmMakerBond d row s₁).1
          refine ⟨fun hnil => hrows (hstand.nil.mp hnil), Or.inl ?_⟩
          exact (resyncRepublishedMakerOrder_tradeKey d _).trans (hbound.trans hkey)
      · rw [if_pos (Or.inl had)]
        exact ⟨hrows', Or.inr (Or.inl hkey')⟩
  · next p hp =>
    obtain ⟨hentry, hm⟩ := takeMatchingRequest_some hp
    split
    · next u hk => exact absurd hk (hc p u true hentry hm)
    · next u hk => exact absurd hk (hc p u false hentry hm)
    · exact ⟨h, Or.inr (Or.inr ⟨p, hentry, rfl⟩)⟩

theorem interceptTake_tradeKey (h : interceptTake d s = some s') : s'.tradeKey = s.tradeKey := by
  unfold interceptTake at h
  split at h
  · cases h
  · obtain ⟨p, -, rfl⟩ := Option.map_eq_some_iff.mp h
    rfl

/-- But for `new-order`, no arm binds a key unless it confirms a create. -/
theorem arm_tradeKey (hact : d.msg.action ≠ .newOrder)
    (hc : d.msg.action = .payBondInvoice → ∀ p u b, s.pending d.tradePubkey = some p →
      requestIdMatches p.requestId d.msg.requestId = true → p.kind ≠ .create u b) :
    (arm env d row s).tradeKey = s.tradeKey := by
  have hrefresh : ∀ s, (refreshTakerBond env d row s).tradeKey = s.tradeKey := fun s => by
    unfold refreshTakerBond
    repeat' first | split | dsimp only
    all_goals rfl
  have hslash : (slashBond d s).tradeKey = s.tradeKey := by
    unfold slashBond
    repeat' split
    all_goals rfl
  have hrestore : (restoreSessionArm d s).tradeKey = s.tradeKey := by
    unfold restoreSessionArm
    split <;> rfl
  by_cases harm : isStatusArm d.msg.action = true
  · exact (sameKeys_arm env d row s harm).tradeKey
  · unfold arm
    cases hd : d.msg.action <;> rw [hd] at harm hact hc <;>
      first
      | exact absurd rfl harm
      | exact absurd rfl hact
      | rfl
      | exact hslash
      | exact hrestore
      | exact (congrArg OrderState.tradeKey (payBondInvoiceArm_of_noCreate (hc rfl))).trans
          (hrefresh _)

/-- Every action but `new-order` keeps the rows, or is a `canceled` that wipes the row it read. -/
theorem arm_stands_or_wipes (env : Env) (row : RowState) (hact : d.msg.action ≠ .newOrder)
    (hc : d.msg.action = .payBondInvoice → ∀ p u b, s.pending d.tradePubkey = some p →
      requestIdMatches p.requestId d.msg.requestId = true → p.kind ≠ .create u b) :
    RowsStand s (arm env d row s) ∨ ∃ t, d.msg.action = .canceled ∧ row = .existing t ∧
      cancellationWipesHistory t.order.status = true ∧
        arm env d row s = cancelNeverActive d t (s.recordStatusEvent d.msg.createdAt d.now) := by
  by_cases harm : isStatusArm d.msg.action = true
  · rcases armStages_rowsStand.arm_or_wipe env row s harm with hstand | ⟨hcancel, t, ht, hw⟩
    · exact Or.inl hstand
    · exact Or.inr ⟨t, hcancel, ht, hw⟩
  · left
    unfold arm
    cases hd : d.msg.action <;> rw [hd] at harm hact hc <;>
      first
      | exact absurd rfl harm
      | exact absurd rfl hact
      | exact .refl s
      | exact (sameRows_payBondInvoiceArm (hc rfl)).rowsStand
      | exact (sameRows_restoreSessionArm d _).rowsStand
      | exact (sameRows_cantDoArm d _).rowsStand
      | exact (sameRows_slashBond d _).rowsStand

/-- What it wiped it leaves under the tombstone of the row it read. -/
theorem arm_rows (env : Env) (row : RowState) (hact : d.msg.action ≠ .newOrder)
    (hc : d.msg.action = .payBondInvoice → ∀ p u b, s.pending d.tradePubkey = some p →
      requestIdMatches p.requestId d.msg.requestId = true → p.kind ≠ .create u b) :
    RowsStand s (arm env d row s) ∨ ∃ t, row = .existing t ∧ (arm env d row s).trades = [] ∧
      (arm env d row s).tradeWiped = some ⟨d.msg.createdAt, some t.tradeKeyIndex⟩ := by
  rcases arm_stands_or_wipes env row hact hc with hstand | ⟨t, -, rfl, -, harm⟩
  · exact Or.inl hstand
  · refine Or.inr ⟨t, rfl, ?_⟩
    rw [harm]
    simp [cancelNeverActive]

theorem dispatchUnaddressed_tradeKey : (dispatchUnaddressed d s).tradeKey = s.tradeKey := by
  have hrestore : ∀ s, (restoreSessionArm d s).tradeKey = s.tradeKey := fun s => by
    unfold restoreSessionArm
    split <;> rfl
  unfold dispatchUnaddressed
  split
  · next h => exact interceptTake_tradeKey h
  · dsimp only
    split
    · exact (hrestore _).trans answerWaiters_tradeKey
    · exact answerWaiters_tradeKey
    · exact answerWaiters_tradeKey

/-- Answering callers leaves the entry that was there, when it is no dispute's turn. -/
theorem answerWaiters_entry (hact : d.msg.action ≠ .disputeInitiatedByYou) {p : PendingRequest}
    (hp : (answerWaiters d s).pending d.tradePubkey = some p) :
    s.pending d.tradePubkey = some p := by
  unfold answerWaiters at hp
  split at hp
  · exact hp
  · rw [show answerDispute d (answerAddInvoice d (answerClaimSubmit d s)) =
      answerAddInvoice d (answerClaimSubmit d s) from if_neg hact] at hp
    exact answerClaimSubmit_entry (takeMatchingKind_entry hp)

theorem exists_trade_of_rows (h : s.trades ≠ []) : ∃ t, s.trade = some t := by
  cases hs : s.trades with
  | nil => exact absurd hs h
  | cons t ts => exact ⟨t, by simp [OrderState.trade, hs]⟩

/-- **A message over a row** keeps a row, or wipes the one it read and leaves its tombstone. -/
theorem rowEnds_dispatch (env : Env) (h : s.trades ≠ []) (hc : confirmsCreate d s = false) :
    RowEnds d s (dispatchMostroMessage env d s) := by
  obtain ⟨t, ht⟩ := exists_trade_of_rows h
  have hcap := sameKeys_capturePeer env d (rowRead d t) (reconcileStoredId d s)
  refine dispatch_over_row (motive := RowEnds d s) env ht ?_ ?_ ?_ ?_
  · intro _
    have hnil := (sameRows_dispatchUnaddressed d s).trades_nil
    exact .stays (fun e => h (hnil.mp e)) (Or.inl dispatchUnaddressed_tradeKey)
  · exact fun _ => .stays h (Or.inl rfl)
  · intro hcurrent s' hs'
    have hsame := (sameRows_reconcileStoredId d s).trans
      ((sameRows_capturePeer env d (rowRead d t) _).trans (sameRows_interceptTake d _ hs'))
    refine .stays (fun e => h (hsame.trades_nil.mp e)) (Or.inr ⟨hcurrent, Or.inl ?_⟩)
    exact (interceptTake_tradeKey hs').trans hcap.tradeKey
  · intro _ hcurrent _
    have hpro := sameRows_prologue env d (rowRead d t) s
    have hcreate := no_create_waiting env (rowRead d t) hc
    have hentry : d.msg.action = .newOrder → ∀ p,
        (answerWaiters d (capturePeer env d (rowRead d t) (reconcileStoredId d s))).pending
          d.tradePubkey = some p → s.pending d.tradePubkey = some p := by
      intro hact p hp
      have := answerWaiters_entry (by rw [hact]; exact nofun) hp
      rwa [hcap.pending, reconcileStoredId_pending] at this
    have hkey : (answerWaiters d (capturePeer env d (rowRead d t)
        (reconcileStoredId d s))).tradeKey = (reconcileStoredId d s).tradeKey :=
      answerWaiters_tradeKey.trans hcap.tradeKey
    generalize answerWaiters d (capturePeer env d (rowRead d t) (reconcileStoredId d s)) = s₁ at *
    have hrows₁ : s₁.trades ≠ [] := fun e => h (hpro.trades_nil.mp e)
    -- `new-order` alone may bind a key; every other arm keeps it
    by_cases hact : d.msg.action = .newOrder
    · have harm : arm env d (rowRead d t) s₁ = newOrderArm d (rowRead d t) s₁ := by
        unfold arm
        rw [hact]
      rw [harm]
      obtain ⟨hrows', hbound⟩ := newOrderArm_of_row (rowRead d t) hrows₁ (hcreate (Or.inl hact))
      refine .stays hrows' (Or.inr ⟨hcurrent, ?_⟩)
      rcases hbound with hb | hb | ⟨p, hp, hb⟩
      · exact Or.inl (hb.trans hkey)
      · exact Or.inr ⟨hact, Or.inl hb⟩
      · exact Or.inr ⟨hact, Or.inr ⟨p, hentry hact p hp, hb⟩⟩
    · have hpay := fun e => hcreate (Or.inr e)
      rcases arm_rows env (rowRead d t) hact hpay with hstand | ⟨t', hrow, hnil, hw⟩
      · refine .stays (fun e => hrows₁ (hstand.nil.mp e)) (Or.inr ⟨hcurrent, Or.inl ?_⟩)
        exact (arm_tradeKey hact hpay).trans hkey
      · exact .wiped t ht hnil _ (rowRead_eq_existing hrow ▸ hw)

/-- A key without a pending create rebinds nothing. -/
theorem reconcileStoredId_of_noCreate (h : pendingLocalUuidFor d.tradePubkey s.pending = none) :
    reconcileStoredId d s = s := by
  unfold reconcileStoredId
  rw [h]
  simp [mayReconcileStoredId]

/-- **An exempt message of an older generation** leaves no trace in the newer one's row but the
state of its bond, unless it names a peer or its key has a create pending. -/
theorem quiet_dispatch_of_exempt (h : s.trades ≠ []) (hex : generationExempt d.msg.action = true)
    (hpeer : peerRevealPubkeys d.msg = none)
    (hcreate : pendingLocalUuidFor d.tradePubkey s.pending = none) :
    Quiet s (dispatchMostroMessage env d s) ∧
      (dispatchMostroMessage env d s).tradeKey = s.tradeKey := by
  obtain ⟨t, ht⟩ := exists_trade_of_rows h
  have hcap : capturePeer env d (rowRead d t) (reconcileStoredId d s) = s := by
    rw [reconcileStoredId_of_noCreate hcreate]
    unfold capturePeer maybeCapturePeerReveal
    rw [hpeer]
    simp
  refine dispatch_over_row (motive := fun s' => Quiet s s' ∧ s'.tradeKey = s.tradeKey) env ht
    (fun _ => ⟨quiet_dispatchUnaddressed d s, dispatchUnaddressed_tradeKey⟩)
    (fun _ => ⟨.refl s, rfl⟩) ?_ ?_
  · rw [hcap]
    exact fun _ s' hs' => ⟨quiet_interceptTake d s hs', interceptTake_tradeKey hs'⟩
  · rw [hcap]
    intro _ _ _
    have hwait := quiet_answerWaiters d s
    have hkey := answerWaiters_tradeKey (d := d) (s := s)
    generalize answerWaiters d s = s₁ at *
    have hslash : (slashBond d s₁).tradeKey = s₁.tradeKey := by
      unfold slashBond
      repeat' split
      all_goals rfl
    unfold arm
    cases hact : d.msg.action <;> rw [hact] at hex <;>
      first
      | exact absurd hex Bool.false_ne_true
      | exact ⟨hwait, hkey⟩
      | exact ⟨hwait.trans (quiet_slashBond d s₁), hslash.trans hkey⟩

end Dispatch

end MostroApp.Orders
