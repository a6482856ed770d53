import MostroApp.Api.StatusArms

set_option autoImplicit false

/-! # A backlog in any order

The dispatcher, given messages of one order on the key of its row, steps `statusRegister`. A
backlog is such a set of messages with the row it meets; the main theorem says exactly when
its order of delivery leaves the row's final status alone.
-/

namespace MostroApp.Orders

open Pending Status HighWater
open Wire (Action Message)

/-! ## Key bindings and waiting requests -/

/-- The trade-key binding and the registry stand. -/
structure SameKeys (s s' : OrderState) : Prop where
  tradeKey : s'.tradeKey = s.tradeKey
  pending : s'.pending = s.pending

namespace SameKeys

variable {s s' s'' : OrderState}

theorem refl (s : OrderState) : SameKeys s s := ⟨rfl, rfl⟩

theorem trans (h : SameKeys s s') (h' : SameKeys s' s'') : SameKeys s s'' :=
  ⟨h'.tradeKey.trans h.tradeKey, h'.pending.trans h.pending⟩

end SameKeys

section Keys

variable (env : Env) (d : Delivery) (row : RowState) (s : OrderState)

theorem sameKeys_capturePeer : SameKeys s (capturePeer env d row s) := by
  unfold capturePeer maybeCapturePeerReveal applyPeerReveal
  repeat' first | split | (dsimp only; split)
  all_goals exact ⟨rfl, rfl⟩

theorem sameKeys_noteBondLocked (now : Int) : SameKeys s (noteBondLocked row now s) := by
  unfold noteBondLocked
  repeat' split
  all_goals exact ⟨rfl, rfl⟩

theorem sameKeys_noteBondReleased : SameKeys s (noteBondReleased row s) := by
  unfold noteBondReleased
  repeat' split
  all_goals exact ⟨rfl, rfl⟩

theorem sameKeys_persistPeerReputation : SameKeys s (persistPeerReputation d s) := by
  unfold persistPeerReputation
  repeat' first | split | (dsimp only; split)
  all_goals exact ⟨rfl, rfl⟩

theorem sameKeys_syncBookEntry (status : OrderStatus) (sats : Option Nat) :
    SameKeys s (syncBookEntry status sats s) := by
  unfold syncBookEntry
  split
  all_goals exact ⟨rfl, rfl⟩

theorem sameKeys_syncAndEmit (status : OrderStatus) (invoice : Option String)
    (amount : Option Nat) (ts : Int) : SameKeys s (syncAndEmit row status invoice amount ts s) :=
  ⟨syncAndEmit_tradeKey .., syncAndEmit_pending ..⟩

theorem sameKeys_bondCancelReason : SameKeys s (bondCancelReason s).1 := by
  unfold bondCancelReason
  split
  all_goals exact ⟨rfl, rfl⟩

theorem sameKeys_wipeNeverActiveTrade (wasTake : Bool) (wipedAt : Int) (wipedIndex : Nat) :
    SameKeys s (s.wipeNeverActiveTrade wasTake wipedAt wipedIndex) :=
  ⟨wipeNeverActiveTrade_tradeKey .., wipeNeverActiveTrade_pending ..⟩

theorem sameKeys_cancelNeverActive (t : TradeInfo) : SameKeys s (cancelNeverActive d t s) := by
  have hreason : SameKeys s
      (if t.order.status = .waitingTakerBond then bondCancelReason s else (s, none)).1 := by
    split
    · exact sameKeys_bondCancelReason s
    · exact .refl s
  have hwipe := hreason.trans
    (sameKeys_wipeNeverActiveTrade _ (!t.order.isMine) d.msg.createdAt t.tradeKeyIndex)
  exact ⟨hwipe.tradeKey, hwipe.pending⟩

theorem armStages_sameKeys : ArmStages SameKeys where
  refl := SameKeys.refl
  trans := SameKeys.trans
  recordStatusEvent _ _ _ := ⟨rfl, rfl⟩
  recordInvoiceStepStart _ _ _ _ := ⟨rfl, rfl⟩
  noteBondLocked row now s := sameKeys_noteBondLocked row s now
  noteBondReleased row s := sameKeys_noteBondReleased row s
  persistPeerReputation d s := sameKeys_persistPeerReputation d s
  updateOrderStatus _ _ := ⟨rfl, rfl⟩
  syncBookEntry status sats s := sameKeys_syncBookEntry s status sats
  syncAndEmit row _ _ _ _ s := sameKeys_syncAndEmit row s _ _ _ _
  forgetWireOrder _ := ⟨rfl, rfl⟩
  setCooperativeCancelState _ _ := ⟨rfl, rfl⟩
  emitTradeUpdateAt _ _ _ _ := ⟨rfl, rfl⟩

/-- No status arm binds a key or answers a caller. -/
theorem sameKeys_arm (ha : isStatusArm d.msg.action = true) : SameKeys s (arm env d row s) := by
  refine armStages_sameKeys.arm ha fun _ t _ _ => ?_
  have h := sameKeys_cancelNeverActive d (s.recordStatusEvent d.msg.createdAt d.now) t
  exact ⟨h.tradeKey, h.pending⟩

end Keys

/-! ## The dispatch of a status message -/

/-- The order stands at key index `i`, whose public key is `key`: its row, or the tombstone of
its wipe, is of that generation, no later key is bound, and no take is waiting on the key. -/
structure AtKey (i : Nat) (key : String) (s : OrderState) : Prop where
  row : RowAt i s
  bound : ∀ b, s.tradeKey = some b → b ≤ i
  noTake : ∀ p, s.pending key = some p → p.kind ≠ .take

/-- A message of a status arm, addressed to that key and not dated ahead of the clock. -/
structure Addressed (i : Nat) (key : String) (d : Delivery) : Prop where
  namesOrder : d.namesOrder = true
  index : d.tradeIndex = i
  pubkey : d.tradePubkey = key
  arm : isStatusArm d.msg.action = true
  notAhead : d.msg.createdAt ≤ d.now + maxClockSkewSecs

section Dispatch

variable {env : Env} {d : Delivery} {s : OrderState} {i : Nat} {key : String}

/-- Removing a request leaves at most the entry that was there. -/
theorem takeMatchingKind_entry {kind : PendingRequestKind} {got : Option Nat} {r : Registry}
    {p : PendingRequest} (h : (takeMatchingKind kind key got r).1 key = some p) :
    r key = some p := by
  unfold takeMatchingKind at h
  rw [alter_self] at h
  generalize r key = e at h ⊢
  cases e with
  | none => cases h
  | some q =>
      dsimp only at h
      split at h
      · cases h
      · exact h

/-- A dispute's acceptance leaves a dispute or what was there. -/
theorem takeMatchingDispute_kind {got : Option Nat} {r : Registry} {p : PendingRequest}
    (h : (takeMatchingDispute key got r).1 key = some p) :
    r key = some p ∨ ∃ superseded, p.kind = .dispute superseded := by
  unfold takeMatchingDispute at h
  rw [alter_self] at h
  generalize r key = e at h ⊢
  cases e with
  | none => cases h
  | some q =>
      dsimp only at h
      split at h
      · split at h
        · obtain rfl := Option.some.inj h
          exact Or.inr ⟨_, rfl⟩
        · split at h
          · cases h
          · exact Or.inl h
      · exact Or.inl h

/-- Answering callers brings no take back. -/
theorem answerWaiters_noTake (hkey : d.tradePubkey = key)
    (h : ∀ p, s.pending key = some p → p.kind ≠ .take) :
    ∀ p, (answerWaiters d s).pending key = some p → p.kind ≠ .take := by
  subst hkey
  have hclaim : ∀ p, (answerClaimSubmit d s).pending d.tradePubkey = some p → p.kind ≠ .take := by
    unfold answerClaimSubmit
    split
    · exact fun p hp => h p (takeMatchingKind_entry hp)
    · exact h
  have hadd : ∀ p, (answerAddInvoice d (answerClaimSubmit d s)).pending d.tradePubkey = some p →
      p.kind ≠ .take := fun p hp => hclaim p (takeMatchingKind_entry hp)
  unfold answerWaiters answerDispute
  split
  · exact h
  · split
    · have hdis : ∀ p, (takeMatchingDispute d.tradePubkey d.msg.requestId
          (answerAddInvoice d (answerClaimSubmit d s)).pending).1 d.tradePubkey = some p →
          p.kind ≠ .take := by
        intro p hp
        rcases takeMatchingDispute_kind hp with hp | ⟨l, hl⟩
        · exact hadd p hp
        · rw [hl]
          exact nofun
      dsimp only
      split
      · exact hdis
      · exact hdis
    · exact hadd

theorem answerClaimSubmit_tradeKey : (answerClaimSubmit d s).tradeKey = s.tradeKey := by
  unfold answerClaimSubmit
  split <;> rfl

theorem answerDispute_tradeKey : (answerDispute d s).tradeKey = s.tradeKey := by
  unfold answerDispute
  split
  · dsimp only
    split <;> rfl
  · rfl

theorem answerWaiters_tradeKey : (answerWaiters d s).tradeKey = s.tradeKey := by
  unfold answerWaiters
  split
  · rfl
  · rw [answerDispute_tradeKey]
    exact answerClaimSubmit_tradeKey

theorem reconcileStoredId_tradeKey :
    (reconcileStoredId d s).tradeKey = s.tradeKey ∨
      (reconcileStoredId d s).tradeKey = some d.tradeIndex := by
  unfold reconcileStoredId
  split
  · exact Or.inr rfl
  · exact Or.inl rfl

theorem reconcileStoredId_pending : (reconcileStoredId d s).pending = s.pending := by
  unfold reconcileStoredId
  split <;> rfl

/-- The order stays at its key up to the arm. -/
theorem AtKey.prologue (env : Env) (h : AtKey i key s) (hd : Addressed i key d) (row : RowState) :
    AtKey i key (answerWaiters d (capturePeer env d row (reconcileStoredId d s))) := by
  have hcap := sameKeys_capturePeer env d row (reconcileStoredId d s)
  refine ⟨h.row.of_sameRows (sameRows_prologue env d row s), fun b hb => ?_, ?_⟩
  · rw [answerWaiters_tradeKey, hcap.tradeKey] at hb
    rcases reconcileStoredId_tradeKey (d := d) (s := s) with he | he
    · exact h.bound b (he ▸ hb)
    · rw [he, Option.some.injEq] at hb
      exact (hb.symm.trans hd.index).le
  · refine answerWaiters_noTake hd.pubkey ?_
    rw [hcap.pending, reconcileStoredId_pending]
    exact h.noTake

/-- With a row or a covering tombstone there is nothing to rebuild. -/
theorem rebuildIfNeverWritten_of_rowAt (h : RowAt i s) (hi : d.tradeIndex = i) (s' : OrderState) :
    rebuildIfNeverWritten d (s.tradeRowState d.rowLookupFails d.tradeIndex) s' =
      (s', s.tradeRowState d.rowLookupFails d.tradeIndex) := by
  rcases h with h | ⟨h, w, hw⟩
  · obtain ⟨t, ht, -⟩ := Option.map_eq_some_iff.mp h
    rw [tradeRowState_of_trade _ ht]
    split <;> rfl
  · have hcov : Tombstone.covers ⟨w, some i⟩ d.tradeIndex = true := by
      simp [Tombstone.covers, hi]
    rw [tradeRowState_wiped _ h hw hcov]
    split <;> rfl

theorem interceptTake_none (hkey : d.tradePubkey = key)
    (h : ∀ p, s.pending key = some p → p.kind ≠ .take) : interceptTake d s = none := by
  subst hkey
  unfold interceptTake
  split
  · rfl
  · rw [Option.map_eq_none_iff]
    unfold takeMatchingTake takeMatchingKind
    rw [alter_snd]
    cases hp : s.pending d.tradePubkey with
    | none => rfl
    | some p => simp [h p hp]

/-- **A status message reaches its arm**, on the row the store holds for it. -/
theorem dispatch_eq_arm (h : AtKey i key s) (hd : Addressed i key d) :
    dispatchMostroMessage env d s =
      arm env d ((reconcileStoredId d s).tradeRowState d.rowLookupFails d.tradeIndex)
        (answerWaiters d (capturePeer env d
          ((reconcileStoredId d s).tradeRowState d.rowLookupFails d.tradeIndex)
          (reconcileStoredId d s))) := by
  have hgate : supersededKey d s = false := by
    unfold supersededKey
    cases hk : s.tradeKey with
    | none => simp
    | some b =>
        have := h.bound b hk
        have hi := hd.index
        simp only [Option.any_some, Bool.and_eq_false_iff, decide_eq_false_iff_not]
        right
        omega
  have hrow : RowAt i (reconcileStoredId d s) := h.row.of_sameRows (sameRows_reconcileStoredId d s)
  have htake : ∀ row, interceptTake d (capturePeer env d row (reconcileStoredId d s)) = none := by
    intro row
    refine interceptTake_none hd.pubkey ?_
    rw [(sameKeys_capturePeer env d row _).pending, reconcileStoredId_pending]
    exact h.noTake
  unfold dispatchMostroMessage dispatchCurrent
  simp only [hd.namesOrder, hgate, htake, rebuildIfNeverWritten_of_rowAt hrow hd.index,
    Bool.true_eq_false, Bool.false_eq_true, if_false]

/-- The order as the register sees it. -/
def registerOf (s : OrderState) : Reg (Option OrderStatus) := ⟨s.rowStatus, s.statusCursor⟩

theorem SameRows.registerOf {s s' : OrderState} (h : SameRows s s') :
    registerOf s' = registerOf s := by
  unfold Orders.registerOf
  rw [h.rowStatus, h.cursor]

/-- **The dispatcher steps the register**, as long as the trade is not over, or the message is
one the cursor stops. -/
theorem dispatch_step (env : Env) (h : AtKey i key s) (hd : Addressed i key d)
    (hopen : (∃ status, s.rowStatus = some status ∧ isHardTerminal status = false) ∨
      ((rowEffect d.msg).isSome = true → s.statusCursor.any (d.msg.createdAt < ·) = true)) :
    AtKey i key (dispatchMostroMessage env d s) ∧
      registerOf (dispatchMostroMessage env d s) = statusRegister.step (registerOf s) d := by
  rw [dispatch_eq_arm h hd]
  generalize hrow : (reconcileStoredId d s).tradeRowState d.rowLookupFails d.tradeIndex = row
  have hpro := sameRows_prologue env d row s
  have hat := h.prologue env hd row
  generalize answerWaiters d (capturePeer env d row (reconcileStoredId d s)) = s₁ at hpro hat ⊢
  have hkeys := sameKeys_arm env d row s₁ hd.arm
  -- the binding and the registry are the prologue's business alone
  have at_of_row : RowAt i (arm env d row s₁) → AtKey i key (arm env d row s₁) := fun hr =>
    ⟨hr, by rw [hkeys.tradeKey]; exact hat.bound, by rw [hkeys.pending]; exact hat.noTake⟩
  cases he : rowEffect d.msg with
  | none =>
      have hs : SameRows s₁ (arm env d row s₁) := sameRows_arm_of_idle hd.arm he
      refine ⟨at_of_row (hat.row.of_sameRows hs), (hpro.trans hs).registerOf.trans ?_⟩
      exact (HighWater.Spec.step_idle (by simp [statusRegister, he])).symm
  | some e =>
      by_cases hstale : s.statusCursor.any (d.msg.createdAt < ·) = true
      · have hb : s₁.statusWriteBlocked d.msg.action d.msg.createdAt = true := by
          rw [hpro.writeBlocked]
          unfold OrderState.statusWriteBlocked
          rw [hstale, Bool.or_true]
        have hs : SameRows s₁ (arm env d row s₁) := sameRows_arm_of_blocked hd.arm hb
        refine ⟨at_of_row (hat.row.of_sameRows hs), (hpro.trans hs).registerOf.trans ?_⟩
        exact (HighWater.Spec.step_idle fun _ => hstale).symm
      · obtain ⟨status, hst, hopen⟩ := hopen.resolve_right fun hc => hstale (hc (by simp [he]))
        have hcur : s.statusCursor.any (d.msg.createdAt < ·) = false := by simpa using hstale
        have hb : s.statusWriteBlocked d.msg.action d.msg.createdAt = false := by
          have hlocal : s.currentLocalStatus = some status := by
            simp [OrderState.currentLocalStatus, OrderState.localTradeStatus, hst]
          unfold OrderState.statusWriteBlocked OrderState.statusSyncBlockedByTerminal
          rw [hlocal, hcur]
          simp [hopen]
        -- the row the dispatch reads
        obtain ⟨t, ht⟩ : ∃ t, s.trade = some t := by
          cases htr : s.trade with
          | none => simp [OrderState.rowStatus, htr] at hst
          | some t => exact ⟨t, rfl⟩
        rw [tradeRowState_of_row d ht] at hrow
        have hti : t.tradeKeyIndex = i := by
          rcases h.row with hi | ⟨hi, -⟩
          · simpa [ht] using hi
          · simp [OrderState.trade, hi] at ht
        have hst₁ : s₁.rowStatus = some t.order.status := by
          rw [hpro.rowStatus]
          simp [OrderState.rowStatus, ht]
        have hacc := accepted_arm env (s := s₁) hd.arm he hrow.symm hst₁
          (by rw [hpro.rowIndex, ht]; rfl) (by rw [hpro.writeBlocked]; exact hb) hd.notAhead
        refine ⟨at_of_row (hti ▸ hacc.row), ?_⟩
        have hstep : statusRegister.step (registerOf s) d =
            ⟨e.apply d.rowLookupFails s.rowStatus, some d.msg.createdAt⟩ := by
          rw [HighWater.Spec.step_accept (by simp [statusRegister, he]) hcur]
          simp [statusRegister, registerOf, he]
        rw [hstep]
        unfold registerOf
        rw [hacc.status, hacc.cursor, hpro.rowStatus]

end Dispatch

/-! ## Backlogs -/

/-- The messages of a list, dispatched in its order. -/
def dispatchAll (env : Env) (s : OrderState) (ds : List Delivery) : OrderState :=
  ds.foldl (fun s d => dispatchMostroMessage env d s) s

/-- The row's status once the messages are through, `none` for a wiped row. -/
def finalStatus (env : Env) (s : OrderState) (ds : List Delivery) : Option OrderStatus :=
  (dispatchAll env s ds).rowStatus

/-- A row whose trade is under way and a set of messages for it. -/
structure Backlog where
  s : OrderState
  t : TradeInfo
  key : String
  ds : List Delivery
  row : s.trade = some t
  notOver : isHardTerminal t.order.status = false
  wasActive : cancellationWipesHistory t.order.status = false
  noCursor : s.statusCursor = none
  bound : ∀ b, s.tradeKey = some b → b ≤ t.tradeKeyIndex
  noTake : ∀ p, s.pending key = some p → p.kind ≠ .take
  addressed : ∀ d ∈ ds, Addressed t.tradeKeyIndex key d
  distinct : (ds.map fun d => d.msg.createdAt).Nodup
  /-- At most the newest message implies a hard-terminal status. -/
  newestEnds : ∀ d ∈ ds, impliesHardTerminal d.msg = true →
    ∀ m ∈ ds, m.msg.createdAt ≤ d.msg.createdAt

/-- **A backlog through the dispatcher is a run of the register.** The induction is on the
messages; the trade stays open until the newest message is accepted, and from then on the
cursor stops every message left. -/
theorem dispatchAll_register (env : Env) {i : Nat} {key : String} {ds : List Delivery}
    {s : OrderState} (h : AtKey i key s) (hd : ∀ d ∈ ds, Addressed i key d)
    (hnd : (ds.map fun d => d.msg.createdAt).Nodup)
    (hends : ∀ d ∈ ds, impliesHardTerminal d.msg = true →
      ∀ m ∈ ds, m.msg.createdAt ≤ d.msg.createdAt)
    (hopen : (∃ status, s.rowStatus = some status ∧ isHardTerminal status = false) ∨
      ∀ d ∈ ds, (rowEffect d.msg).isSome = true →
        s.statusCursor.any (d.msg.createdAt < ·) = true) :
    registerOf (dispatchAll env s ds) = statusRegister.run (registerOf s) ds := by
  induction ds generalizing s with
  | nil => rfl
  | cons d ds ih =>
      have hstep := dispatch_step env h (hd d List.mem_cons_self)
        (hopen.imp_right fun hc => hc d List.mem_cons_self)
      have htail : ∀ m ∈ ds, m ∈ d :: ds := fun m hm => List.mem_cons_of_mem _ hm
      show registerOf (dispatchAll env (dispatchMostroMessage env d s) ds) = _
      rw [HighWater.Spec.run_cons, ← hstep.2]
      rw [List.map_cons, List.nodup_cons] at hnd
      refine ih hstep.1 (fun m hm => hd m (htail m hm)) hnd.2
        (fun m hm hm' a ha => hends m (htail m hm) hm' a (htail a ha)) ?_
      have hreg := hstep.2
      generalize dispatchMostroMessage env d s = s' at hreg ⊢
      by_cases hacc : (rowEffect d.msg).isSome = true ∧
          s.statusCursor.any (d.msg.createdAt < ·) = false
      · rw [HighWater.Spec.step_accept hacc.1 hacc.2] at hreg
        have hst' : s'.rowStatus = statusRegister.eff d s.rowStatus := congrArg Reg.value hreg
        have hcur' : s'.statusCursor = some d.msg.createdAt := congrArg Reg.mark hreg
        by_cases hend : impliesHardTerminal d.msg = true
        · right
          intro m hm _
          have hle := hends d List.mem_cons_self hend m (htail m hm)
          have hne : m.msg.createdAt ≠ d.msg.createdAt := fun e =>
            hnd.1 (List.mem_map.mpr ⟨m, hm, e⟩)
          rw [hcur']
          simp only [Option.any_some, decide_eq_true_eq]
          omega
        · left
          obtain ⟨status, hst, hopen⟩ := hopen.resolve_right fun hc => by
            have := hc d List.mem_cons_self hacc.1
            rw [hacc.2] at this
            cases this
          obtain ⟨e, he⟩ := Option.isSome_iff_exists.mp hacc.1
          rw [hst', hst]
          unfold impliesHardTerminal at hend
          simp only [statusRegister, he, Option.map_some, Option.getD_some] at hend ⊢
          cases e with
          | keep => exact ⟨status, rfl, hopen⟩
          | write w => exact ⟨w, rfl, by simpa using hend⟩
          | cancel => simp at hend
      · have hidle : statusRegister.step (registerOf s) d = registerOf s :=
          HighWater.Spec.step_idle fun ha => by
            by_contra hc
            exact hacc ⟨ha, Bool.eq_false_iff.mpr hc⟩
        rw [hidle] at hreg
        have hst' : s'.rowStatus = s.rowStatus := congrArg Reg.value hreg
        have hcur' : s'.statusCursor = s.statusCursor := congrArg Reg.mark hreg
        rw [hst', hcur']
        exact hopen.imp_right fun hc m hm => hc m (htail m hm)

namespace Backlog

variable (b : Backlog)

/-- The same messages in another order. -/
def reorder {ds : List Delivery} (h : ds.Perm b.ds) : Backlog where
  s := b.s
  t := b.t
  key := b.key
  ds := ds
  row := b.row
  notOver := b.notOver
  wasActive := b.wasActive
  noCursor := b.noCursor
  bound := b.bound
  noTake := b.noTake
  addressed := fun d hd => b.addressed d (h.mem_iff.mp hd)
  distinct := (h.map _).nodup_iff.mpr b.distinct
  newestEnds := fun d hd he m hm => b.newestEnds d (h.mem_iff.mp hd) he m (h.mem_iff.mp hm)

theorem rowStatus : b.s.rowStatus = some b.t.order.status := by
  simp [OrderState.rowStatus, b.row]

/-- The final status is the register's. -/
theorem finalStatus_eq (env : Env) :
    finalStatus env b.s b.ds = (statusRegister.run ⟨some b.t.order.status, none⟩ b.ds).value := by
  have hat : AtKey b.t.tradeKeyIndex b.key b.s :=
    ⟨Or.inl (by rw [b.row]; rfl), b.bound, b.noTake⟩
  have h := dispatchAll_register env hat b.addressed b.distinct b.newestEnds
    (Or.inl ⟨_, b.rowStatus, b.notOver⟩)
  have hreg : registerOf b.s = ⟨some b.t.order.status, none⟩ := by
    unfold registerOf
    rw [b.rowStatus, b.noCursor]
  rw [← hreg, ← h]
  rfl

/-- A cancel can only be the newest message. -/
theorem eq_newest_of_cancel {M d : Delivery} (hM : statusRegister.Newest M b.ds) (hd : d ∈ b.ds)
    (he : rowEffect d.msg = some .cancel) : d = M := by
  have hadv : statusRegister.advances d = true := by simp [statusRegister, he]
  have hnewest : statusRegister.Newest d b.ds :=
    ⟨hd, hadv, fun m hm _ => b.newestEnds d hd (by simp [impliesHardTerminal, he]) m hm⟩
  exact hM.eq hnewest b.distinct

/-- Every message but the newest keeps or overwrites the status. -/
theorem overwrites {M : Delivery} (hM : statusRegister.Newest M b.ds) :
    HighWater.Spec.Overwrites statusRegister M b.ds (some b.t.order.status) := by
  intro d hd hadv hne v
  obtain ⟨e, he⟩ := Option.isSome_iff_exists.mp hadv
  simp only [statusRegister, he, Option.map_some, Option.getD_some]
  cases e with
  | keep => exact Or.inl rfl
  | write w => cases v <;> simp [RowEffect.apply]
  | cancel => exact absurd (b.eq_newest_of_cancel hM hd he) hne

end Backlog

/-! ## A cancel request over an older status -/

/-- An identity whose keys derive nothing: no message reveals a peer. -/
def bareEnv : Env := ⟨fun _ => none, fun _ => none, fun _ _ => none, fun _ => none⟩

/-- An active trade of key index 1. -/
def activeTrade : TradeInfo :=
  { id := "t", order := { id := "order", kind := .sell, status := .active }, role := .buyer
    tradeKeyIndex := 1 }

/-- A message without payload on key index 1. -/
def bareMessage (action : Action) (createdAt : Int) : Delivery :=
  { msg := { action := action, createdAt := createdAt }, tradeIndex := 1, tradePubkey := "key"
    now := createdAt }

/-- The buyer's fiat-sent is acknowledged, then the peer asks to cancel. -/
def cancelRequestBacklog : Backlog where
  s := { orderId := "order", trades := [activeTrade] }
  t := activeTrade
  key := "key"
  ds := [bareMessage .fiatSentOk 10, bareMessage .cooperativeCancelInitiatedByPeer 20]
  row := rfl
  notOver := rfl
  wasActive := rfl
  noCursor := rfl
  bound := nofun
  noTake := nofun
  addressed := by
    intro d hd
    simp only [List.mem_cons, List.not_mem_nil, or_false] at hd
    rcases hd with rfl | rfl <;> exact ⟨rfl, rfl, rfl, rfl, by decide⟩
  distinct := by decide
  newestEnds := by decide

/-- Oldest-first the trade ends `FiatSent`; newest-first, as relays replay it, it stays
`Active`: the cancel request moved the cursor and wrote no status. -/
theorem cancel_request_silences_fiat_sent :
    finalStatus bareEnv cancelRequestBacklog.s cancelRequestBacklog.ds = some .fiatSent ∧
      finalStatus bareEnv cancelRequestBacklog.s cancelRequestBacklog.ds.reverse =
        some .active := by
  decide

/-! ## When the order of delivery is irrelevant -/

/-- The newest message that moves the cursor does not depend on an older one having been
applied: where it keeps the status, every status the others write is the row's own already;
where it is a `canceled`, none of them takes the row back before the trade was active. -/
def OrderFree (status : OrderStatus) (ds : List Delivery) : Prop :=
  ∀ M, statusRegister.Newest M ds →
    (rowEffect M.msg = some .keep →
      ∀ d ∈ ds, ∀ w, rowEffect d.msg = some (.write w) → w = status) ∧
    (rowEffect M.msg = some .cancel → M.rowLookupFails = false →
      ∀ d ∈ ds, ∀ w, rowEffect d.msg = some (.write w) → cancellationWipesHistory w = false)

/-- What the newest message makes of the status another one wrote, against the row's own. -/
theorem Backlog.orderFree_newest_iff (b : Backlog) {M : Delivery}
    (hM : statusRegister.Newest M b.ds) :
    (∀ m ∈ b.ds, statusRegister.advances m = true → m ≠ M →
        statusRegister.eff M (statusRegister.eff m (some b.t.order.status)) =
          statusRegister.eff M (some b.t.order.status)) ↔
      (rowEffect M.msg = some .keep →
        ∀ d ∈ b.ds, ∀ w, rowEffect d.msg = some (.write w) → w = b.t.order.status) ∧
      (rowEffect M.msg = some .cancel → M.rowLookupFails = false →
        ∀ d ∈ b.ds, ∀ w, rowEffect d.msg = some (.write w) →
          cancellationWipesHistory w = false) := by
  obtain ⟨e, he⟩ := Option.isSome_iff_exists.mp hM.advances
  have effM : ∀ v, statusRegister.eff M v = e.apply M.rowLookupFails v := fun v => by
    simp [statusRegister, he]
  have effW : ∀ d w, rowEffect d.msg = some (.write w) →
      statusRegister.eff d (some b.t.order.status) = some w := fun d w hw => by
    simp [statusRegister, hw, RowEffect.apply]
  constructor
  · intro h
    -- a write is not the newest message when that one keeps or cancels
    have other : ∀ d ∈ b.ds, ∀ w, rowEffect d.msg = some (.write w) → e ≠ .write w →
        e.apply M.rowLookupFails (some w) = e.apply M.rowLookupFails (some b.t.order.status) := by
      intro d hd w hw hne
      have hdM : d ≠ M := fun hdM => by
        rw [hdM, he] at hw
        exact hne (Option.some.inj hw)
      have := h d hd (by simp [statusRegister, hw]) hdM
      rwa [effM, effM, effW d w hw] at this
    refine ⟨fun hk d hd w hw => ?_, fun hc hf d hd w hw => ?_⟩
    · obtain rfl : e = .keep := Option.some.inj (he.symm.trans hk)
      exact Option.some.inj (other d hd w hw RowEffect.noConfusion)
    · obtain rfl : e = .cancel := Option.some.inj (he.symm.trans hc)
      have := other d hd w hw RowEffect.noConfusion
      simpa [RowEffect.apply, hf, b.wasActive] using this
  · rintro ⟨hkeep, hcancel⟩ m hm hadv hne
    obtain ⟨e', he'⟩ := Option.isSome_iff_exists.mp hadv
    have effm : statusRegister.eff m (some b.t.order.status) =
        e'.apply m.rowLookupFails (some b.t.order.status) := by
      simp [statusRegister, he']
    rw [effM, effM, effm]
    cases e' with
    | keep => rfl
    | cancel => exact absurd (b.eq_newest_of_cancel hM hm he') hne
    | write w =>
        cases e with
        | keep => exact congrArg some (hkeep he m hm w he')
        | write w' => rfl
        | cancel =>
            cases hf : M.rowLookupFails with
            | true => simp [RowEffect.apply]
            | false => simp [RowEffect.apply, b.wasActive, hcancel he hf m hm w he']

/-- **A backlog in any order.** Every order of delivery leaves the row with the same final
status exactly when the backlog is order-free. -/
theorem delivery_order_irrelevant_iff (env : Env) (b : Backlog) :
    (∀ ds, ds.Perm b.ds → finalStatus env b.s ds = finalStatus env b.s b.ds) ↔
      OrderFree b.t.order.status b.ds := by
  have hfinal : ∀ ds, ds.Perm b.ds → finalStatus env b.s ds =
      (statusRegister.run ⟨some b.t.order.status, none⟩ ds).value := fun ds h =>
    (b.reorder h).finalStatus_eq env
  have hrun : (∀ ds, ds.Perm b.ds → finalStatus env b.s ds = finalStatus env b.s b.ds) ↔
      ∀ ds, ds.Perm b.ds → (statusRegister.run ⟨some b.t.order.status, none⟩ ds).value =
        (statusRegister.run ⟨some b.t.order.status, none⟩ b.ds).value := by
    refine forall_congr' fun ds => imp_congr_right fun h => ?_
    rw [hfinal ds h, b.finalStatus_eq env]
  rw [hrun]
  by_cases hadv : ∃ m ∈ b.ds, statusRegister.advances m = true
  · obtain ⟨M, hM⟩ := HighWater.Spec.exists_newest hadv
    rw [HighWater.Spec.run_perm_iff hM b.distinct (b.overwrites hM), b.orderFree_newest_iff hM]
    refine ⟨fun h M' hM' => hM.eq hM' b.distinct ▸ h, fun h => h M hM⟩
  · -- nothing moves the cursor, and nothing the status
    have hidle : ∀ ds, ds.Perm b.ds → statusRegister.run ⟨some b.t.order.status, none⟩ ds =
        ⟨some b.t.order.status, none⟩ := fun ds h =>
      HighWater.Spec.run_idle fun m hm ha => absurd ⟨m, h.mem_iff.mp hm, ha⟩ hadv
    refine iff_of_true (fun ds h => ?_) fun M hM => absurd ⟨M, hM.mem, hM.advances⟩ hadv
    rw [hidle ds h, hidle b.ds (List.Perm.refl _)]

end MostroApp.Orders
