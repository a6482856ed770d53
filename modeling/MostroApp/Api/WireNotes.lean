import MostroApp.Api.Wiped

set_option autoImplicit false

/-! # The note of a public view, across a dispatch

Only the public handlers write the note of an order's public view. A message forgets it at most,
and the one message that wipes a take, the `canceled` of a trade that never went active, settles
the book entry in the same step: from the note and the entry as they stood when it arrived.
-/

namespace MostroApp.Orders

open Pending Status
open Wire (Action)

/-- A note that stands after the step stood before it. -/
def NoteKept (s s' : OrderState) : Prop := ∀ o, s'.wireNote = some o → s.wireNote = some o

namespace NoteKept

variable {s s' s'' : OrderState}

theorem of_eq (h : s'.wireNote = s.wireNote) : NoteKept s s' := fun _ ho => h.symm.trans ho

theorem of_none (h : s'.wireNote = none) : NoteKept s s' := fun o ho => by
  rw [h] at ho
  cases ho

theorem refl (s : OrderState) : NoteKept s s := of_eq rfl

theorem trans (h : NoteKept s s') (h' : NoteKept s' s'') : NoteKept s s'' :=
  fun o ho => h o (h' o ho)

end NoteKept

/-! ## The stages of a dispatch -/

section Stages

variable (env : Env) (d : Delivery) (row : RowState) (s : OrderState)

theorem reconcileStoredId_wireNote : (reconcileStoredId d s).wireNote = s.wireNote := by
  unfold reconcileStoredId
  split <;> rfl

theorem applyPeerReveal_wireNote (peer : String) (role : TradeRole) :
    (applyPeerReveal env d peer role s).wireNote = s.wireNote := by
  unfold applyPeerReveal
  repeat' first | split | (dsimp only; split)
  all_goals rfl

theorem capturePeer_wireNote : (capturePeer env d row s).wireNote = s.wireNote := by
  unfold capturePeer maybeCapturePeerReveal
  repeat' split
  all_goals first | rfl | exact applyPeerReveal_wireNote ..

theorem answerWaiters_wireNote : (answerWaiters d s).wireNote = s.wireNote := by
  have hclaim : ∀ s, (answerClaimSubmit d s).wireNote = s.wireNote := fun s => by
    unfold answerClaimSubmit
    split <;> rfl
  have hdispute : ∀ s, (answerDispute d s).wireNote = s.wireNote := fun s => by
    unfold answerDispute
    repeat' first | split | (dsimp only; split)
    all_goals rfl
  unfold answerWaiters
  split
  · rfl
  · exact (hdispute _).trans (hclaim s)

theorem interceptTake_wireNote {s' : OrderState} (h : interceptTake d s = some s') :
    s'.wireNote = s.wireNote := by
  unfold interceptTake at h
  split at h
  · cases h
  · obtain ⟨p, -, rfl⟩ := Option.map_eq_some_iff.mp h
    rfl

theorem restoreSessionArm_wireNote : (restoreSessionArm d s).wireNote = s.wireNote := by
  unfold restoreSessionArm
  split <;> rfl

theorem rebuildIfNeverWritten_wireNote : (rebuildIfNeverWritten d row s).1.wireNote =
    s.wireNote := by
  have hrebuilt : ∀ s, (rebuildTradeFromDm d s).1.wireNote = s.wireNote := fun s => by
    unfold rebuildTradeFromDm
    split <;> rfl
  unfold rebuildIfNeverWritten
  split
  · split
    · rfl
    · split
      · next h => exact (congrArg (·.1.wireNote) h).symm.trans (hrebuilt s)
      · next h => exact (congrArg (·.1.wireNote) h).symm.trans (hrebuilt s)
  · rfl

theorem lockMakerBond_wireNote (t : TradeInfo) (tradeIndex : Nat) (now : Int) :
    (lockMakerBond t tradeIndex now s).1.wireNote = s.wireNote := by
  unfold lockMakerBond
  split
  · rfl
  · dsimp only
    repeat' split
    all_goals rfl

theorem confirmMakerBond_wireNote : (confirmMakerBond d row s).1.wireNote = s.wireNote := by
  unfold confirmMakerBond
  split
  · rfl
  · dsimp only
    split
    · exact lockMakerBond_wireNote _ _ _ _
    · exact lockMakerBond_wireNote _ _ _ _

theorem uncorrelatedNewOrder_wireNote :
    (uncorrelatedNewOrder d row s).wireNote = s.wireNote := by
  have hadopt : ∀ s, (adoptRangeRemainder d s).1.wireNote = s.wireNote := fun s => by
    unfold adoptRangeRemainder
    repeat' split
    all_goals rfl
  have hresync : ∀ s, (resyncRepublishedMakerOrder d s).1.wireNote = s.wireNote := fun s => by
    unfold resyncRepublishedMakerOrder
    repeat' split
    all_goals rfl
  have hconfirm := confirmMakerBond_wireNote d row s
  unfold uncorrelatedNewOrder
  dsimp only
  split
  · exact hconfirm
  · split
    · exact (hadopt _).trans hconfirm
    · exact (hresync _).trans ((hadopt _).trans hconfirm)

theorem newOrderArm_wireNote : (newOrderArm d row s).wireNote = s.wireNote := by
  have hlate : ∀ i s, (persistLateCreateConfirmation d i s).wireNote = s.wireNote := fun i s => by
    unfold persistLateCreateConfirmation
    split <;> rfl
  unfold newOrderArm
  dsimp only
  split
  · exact uncorrelatedNewOrder_wireNote d row _
  · split
    · exact confirmMakerBond_wireNote d row _
    · split
      · rfl
      · exact hlate _ _
    · rfl

theorem payBondInvoiceArm_wireNote : (payBondInvoiceArm env d row s).wireNote = s.wireNote := by
  have hrefresh : ∀ s, (refreshTakerBond env d row s).wireNote = s.wireNote := fun s => by
    unfold refreshTakerBond
    repeat' first | split | dsimp only
    all_goals rfl
  have hreply : ∀ claim s, (handleCreateBondReply env d claim s).wireNote = s.wireNote :=
    fun claim s => by
      unfold handleCreateBondReply
      repeat' first | split | dsimp only
      all_goals rfl
  unfold payBondInvoiceArm
  dsimp only
  split
  · exact hreply _ _
  · exact hrefresh _

theorem slashBond_wireNote : (slashBond d s).wireNote = s.wireNote := by
  unfold slashBond
  repeat' split
  all_goals rfl

theorem cancelNeverActive_wireNote (t : TradeInfo) : (cancelNeverActive d t s).wireNote = none := by
  have hwipe : ∀ (s : OrderState) wasTake wipedAt wipedIndex,
      (s.wipeNeverActiveTrade wasTake wipedAt wipedIndex).wireNote = none := by
    intro s wasTake wipedAt wipedIndex
    cases wasTake
    · rfl
    · show (OrderState.settleEntry _ _).wireNote = none
      unfold OrderState.settleEntry
      split <;> rfl
  exact hwipe _ _ _ _

end Stages

/-! ## The whole dispatch -/

section Dispatch

variable (env : Env) (d : Delivery) (row : RowState) (s : OrderState)

theorem armStages_noteKept : ArmStages NoteKept where
  refl := NoteKept.refl
  trans := NoteKept.trans
  recordStatusEvent _ _ s := .refl s
  recordInvoiceStepStart _ _ _ s := .refl s
  noteBondLocked row now s := .of_eq (by unfold noteBondLocked; repeat' split
                                         all_goals rfl)
  noteBondReleased row s := .of_eq (by unfold noteBondReleased; repeat' split
                                       all_goals rfl)
  persistPeerReputation d s := .of_eq (by
    unfold persistPeerReputation
    repeat' first | split | (dsimp only; split)
    all_goals rfl)
  updateOrderStatus _ s := .refl s
  syncBookEntry _ _ s := .of_eq (by unfold syncBookEntry; split <;> rfl)
  syncAndEmit _ _ _ _ _ s := .of_eq (by
    unfold syncAndEmit OrderState.syncTradeFieldsIfChanged
    split <;> simp)
  forgetWireOrder _ := .of_none rfl
  setCooperativeCancelState _ s := .refl s
  emitTradeUpdateAt _ _ _ s := .refl s

theorem noteKept_arm : NoteKept s (arm env d row s) := by
  by_cases harm : isStatusArm d.msg.action = true
  · exact armStages_noteKept.arm harm fun _ t _ _ => .of_none (cancelNeverActive_wireNote d _ t)
  · unfold arm
    cases hact : d.msg.action <;> rw [hact] at harm <;>
      first
      | exact absurd rfl harm
      | exact .refl s
      | exact .of_eq (newOrderArm_wireNote d row s)
      | exact .of_eq (payBondInvoiceArm_wireNote env d row s)
      | exact .of_eq (restoreSessionArm_wireNote d s)
      | exact .of_eq (slashBond_wireNote d s)

theorem dispatchUnaddressed_wireNote : (dispatchUnaddressed d s).wireNote = s.wireNote := by
  unfold dispatchUnaddressed
  split
  · next h => exact interceptTake_wireNote d s h
  · dsimp only
    split
    · exact (restoreSessionArm_wireNote d _).trans (answerWaiters_wireNote d s)
    · exact answerWaiters_wireNote d s
    · exact answerWaiters_wireNote d s

theorem prologue_wireNote :
    (answerWaiters d (capturePeer env d row (reconcileStoredId d s))).wireNote = s.wireNote :=
  (answerWaiters_wireNote d _).trans
    ((capturePeer_wireNote env d row _).trans (reconcileStoredId_wireNote d s))

/-- **A message writes no note.** -/
theorem noteKept_dispatch : NoteKept s (dispatchMostroMessage env d s) := by
  generalize hrow : (reconcileStoredId d s).tradeRowState d.rowLookupFails d.tradeIndex = row
  refine dispatch_cases (motive := NoteKept s) env hrow
    (fun _ => .of_eq (dispatchUnaddressed_wireNote d s)) (fun _ => .refl s) ?_ ?_
  · intro _ s' hs'
    have hpro := (capturePeer_wireNote env d row _).trans (reconcileStoredId_wireNote d s)
    exact .of_eq ((interceptTake_wireNote d _ hs').trans hpro)
  · rintro _ _ _ _ rfl
    have hpro := prologue_wireNote env d row s
    have hrebuild := rebuildIfNeverWritten_wireNote d row
      (answerWaiters d (capturePeer env d row (reconcileStoredId d s)))
    exact (NoteKept.of_eq (hrebuild.trans hpro)).trans (noteKept_arm env d _ _)

/-! ## The message that wipes -/

/-- The rest of the wipe of `t` found the note and the entry of `s`. -/
structure SettlesFrom (t : TradeInfo) (s s' : OrderState) : Prop where
  wire : s'.wireNote = none
  entry : ∃ (s₁ : OrderState) (wipedAt : Int), s₁.wireNote = s.wireNote ∧
    s₁.bookEntry = s.bookEntry ∧ s'.bookEntry =
      (s₁.wipeNeverActiveTrade (!t.order.isMine) wipedAt t.tradeKeyIndex).bookEntry

theorem settlesFrom_cancelNeverActive (t : TradeInfo) {s₀ : OrderState}
    (hnote : s.wireNote = s₀.wireNote) (hbook : s.bookEntry = s₀.bookEntry) :
    SettlesFrom t s₀ (cancelNeverActive d t s) := by
  have hreason : ∀ s, (bondCancelReason s).1.wireNote = s.wireNote ∧
      (bondCancelReason s).1.bookEntry = s.bookEntry := fun s => by
    unfold bondCancelReason
    split <;> exact ⟨rfl, rfl⟩
  refine ⟨cancelNeverActive_wireNote d s t,
    (if t.order.status = .waitingTakerBond then bondCancelReason s else (s, none)).1,
    d.msg.createdAt, ?_, ?_, rfl⟩
  · split
    · exact (hreason s).1.trans hnote
    · exact hnote
  · split
    · exact (hreason s).2.trans hbook
    · exact hbook

variable {env d s}

/-- **A message that leaves no row wiped the take**: it is the `canceled` of a trade that never
went active, and it settled the entry from what it found. -/
theorem dispatch_lost (h : s.trades ≠ []) (hc : confirmsCreate d s = false)
    (hnil : (dispatchMostroMessage env d s).trades = []) :
    d.msg.action = .canceled ∧ ∃ t, s.trade = some t ∧
      cancellationWipesHistory t.order.status = true ∧
        SettlesFrom t s (dispatchMostroMessage env d s) := by
  obtain ⟨t, ht⟩ := exists_trade_of_rows h
  revert hnil
  refine dispatch_over_row (motive := fun s' => s'.trades = [] → d.msg.action = .canceled ∧
    ∃ t, s.trade = some t ∧ cancellationWipesHistory t.order.status = true ∧
      SettlesFrom t s s') env ht ?_ ?_ ?_ ?_
  · exact fun _ hnil => absurd ((sameRows_dispatchUnaddressed d s).trades_nil.mp hnil) h
  · exact fun _ hnil => absurd hnil h
  · intro _ s' hs' hnil
    have hsame := (sameRows_reconcileStoredId d s).trans
      ((sameRows_capturePeer env d (rowRead d t) _).trans (sameRows_interceptTake d _ hs'))
    exact absurd (hsame.trades_nil.mp hnil) h
  · intro _ _ _ hnil
    have hpro := sameRows_prologue env d (rowRead d t) s
    have hnote := prologue_wireNote env d (rowRead d t) s
    have hcreate := no_create_waiting env (rowRead d t) hc
    generalize answerWaiters d (capturePeer env d (rowRead d t) (reconcileStoredId d s)) = s₁ at *
    have hrows₁ : s₁.trades ≠ [] := fun e => h (hpro.trades_nil.mp e)
    by_cases hact : d.msg.action = .newOrder
    · have harm : arm env d (rowRead d t) s₁ = newOrderArm d (rowRead d t) s₁ := by
        unfold arm
        rw [hact]
      rw [harm] at hnil
      exact absurd hnil (newOrderArm_of_row (rowRead d t) hrows₁ (hcreate (Or.inl hact))).1
    · rcases arm_stands_or_wipes env (rowRead d t) hact fun e => hcreate (Or.inr e) with
        hstand | ⟨t', hcancel, hrow, hw, harm⟩
      · exact absurd (hstand.nil.mp hnil) hrows₁
      · rw [harm, rowRead_eq_existing hrow]
        rw [rowRead_eq_existing hrow] at hw
        exact ⟨hcancel, t, ht, hw, settlesFrom_cancelNeverActive d _ t hnote hpro.book⟩

end Dispatch

end MostroApp.Orders
