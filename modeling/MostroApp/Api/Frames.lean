import MostroApp.Api.Dispatch

set_option autoImplicit false

/-! # What the stages of a dispatch leave alone

Most stages of a dispatch write a field of the row or the session that no guard reads: the
counterparty, the bond, who asked to cancel. `SameRows` says so once, of every stage: the rows
keep their ids, statuses and key indices, and the tombstone, the cursor and the book stand.
Everything a guard computes is then the same before and after.
-/

namespace MostroApp.Orders

open Pending Status
open Wire (Action Message)

/-! ## The frame -/

/-- What the guards read of a row. -/
def rowKey (t : TradeInfo) : String × OrderStatus × Nat := (t.id, t.order.status, t.tradeKeyIndex)

/-- The rows are the same to every guard, and so is what the guards read beside them. -/
structure SameRows (s s' : OrderState) : Prop where
  keys : s'.trades.map rowKey = s.trades.map rowKey
  wiped : s'.tradeWiped = s.tradeWiped
  cursor : s'.statusCursor = s.statusCursor
  book : s'.bookEntry = s.bookEntry
  orderId : s'.orderId = s.orderId

namespace SameRows

variable {s s' s'' : OrderState}

theorem refl (s : OrderState) : SameRows s s := ⟨rfl, rfl, rfl, rfl, rfl⟩

theorem trans (h : SameRows s s') (h' : SameRows s' s'') : SameRows s s'' :=
  ⟨h'.keys.trans h.keys, h'.wiped.trans h.wiped, h'.cursor.trans h.cursor, h'.book.trans h.book,
    h'.orderId.trans h.orderId⟩

theorem symm (h : SameRows s s') : SameRows s' s :=
  ⟨h.keys.symm, h.wiped.symm, h.cursor.symm, h.book.symm, h.orderId.symm⟩

/-- An edit of every row that keeps what the guards read. -/
theorem of_map {f : TradeInfo → TradeInfo} (hf : ∀ t, rowKey (f t) = rowKey t)
    (hrows : s'.trades = s.trades.map f) (hwiped : s'.tradeWiped = s.tradeWiped)
    (hcursor : s'.statusCursor = s.statusCursor) (hbook : s'.bookEntry = s.bookEntry)
    (horder : s'.orderId = s.orderId) : SameRows s s' := by
  refine ⟨?_, hwiped, hcursor, hbook, horder⟩
  rw [hrows, List.map_map]
  exact List.map_congr_left fun t _ => hf t

theorem head (h : SameRows s s') : s'.trade.map rowKey = s.trade.map rowKey := by
  unfold OrderState.trade
  rw [← List.head?_map, ← List.head?_map, h.keys]

theorem rowStatus (h : SameRows s s') : s'.rowStatus = s.rowStatus := by
  have := congrArg (Option.map fun k => k.2.1) h.head
  simpa [Option.map_map, OrderState.rowStatus, rowKey, Function.comp_def] using this

theorem rowIndex (h : SameRows s s') :
    s'.trade.map (·.tradeKeyIndex) = s.trade.map (·.tradeKeyIndex) := by
  have := congrArg (Option.map fun k => k.2.2) h.head
  simpa [Option.map_map, rowKey, Function.comp_def] using this

theorem trades_nil (h : SameRows s s') : s'.trades = [] ↔ s.trades = [] := by
  rw [← List.map_eq_nil_iff (f := rowKey), h.keys, List.map_eq_nil_iff]

theorem currentLocalStatus (h : SameRows s s') :
    s'.currentLocalStatus = s.currentLocalStatus := by
  unfold OrderState.currentLocalStatus OrderState.localTradeStatus
  rw [h.rowStatus, h.book]

theorem blockedByTerminal (h : SameRows s s') (a : Action) :
    s'.statusSyncBlockedByTerminal a = s.statusSyncBlockedByTerminal a := by
  unfold OrderState.statusSyncBlockedByTerminal
  rw [h.currentLocalStatus]

theorem writeBlocked (h : SameRows s s') (a : Action) (ts : Int) :
    s'.statusWriteBlocked a ts = s.statusWriteBlocked a ts := by
  unfold OrderState.statusWriteBlocked
  rw [h.blockedByTerminal, h.cursor]

end SameRows

/-! ## The stages -/

section Stages

variable (env : Env) (d : Delivery) (row : RowState) (s : OrderState)

theorem sameRows_updateTradeBond (b : BondInfo) : SameRows s (s.updateTradeBond b) :=
  .of_map (f := TradeInfo.setBond b) (fun _ => rfl) rfl rfl rfl rfl rfl

theorem sameRows_updateTradeCounterparty (peer : String) :
    SameRows s (s.updateTradeCounterparty peer) := by
  by_cases hp : peer = ""
  · exact ⟨by simp [hp], rfl, rfl, rfl, rfl⟩
  · exact .of_map (f := TradeInfo.setCounterparty peer) (fun _ => rfl) (by simp [hp])
      rfl rfl rfl rfl

theorem sameRows_reconcileStoredId : SameRows s (reconcileStoredId d s) := by
  unfold reconcileStoredId
  split
  · exact ⟨rfl, rfl, rfl, rfl, rfl⟩
  · exact .refl s

theorem sameRows_applyPeerReveal (peer : String) (role : TradeRole) :
    SameRows s (applyPeerReveal env d peer role s) := by
  unfold applyPeerReveal
  split
  · exact .refl s
  · dsimp only
    split
    · exact ⟨rfl, rfl, rfl, rfl, rfl⟩
    · exact .refl s

theorem sameRows_maybeCapturePeerReveal : SameRows s (maybeCapturePeerReveal env d s) := by
  unfold maybeCapturePeerReveal
  split
  · exact .refl s
  · split
    · exact .refl s
    · split
      · split
        · exact .refl s
        · split
          · exact (sameRows_updateTradeCounterparty s _).trans (sameRows_applyPeerReveal _ _ _ _ _)
          · exact .refl s
      · exact .refl s

theorem sameRows_capturePeer : SameRows s (capturePeer env d row s) := by
  unfold capturePeer
  split
  · exact .refl s
  · exact sameRows_maybeCapturePeerReveal env d s

theorem sameRows_answerClaimSubmit : SameRows s (answerClaimSubmit d s) := by
  unfold answerClaimSubmit
  split
  · exact ⟨rfl, rfl, rfl, rfl, rfl⟩
  · exact .refl s

theorem sameRows_answerAddInvoice : SameRows s (answerAddInvoice d s) := ⟨rfl, rfl, rfl, rfl, rfl⟩

theorem sameRows_answerDispute : SameRows s (answerDispute d s) := by
  unfold answerDispute
  split
  · dsimp only
    split
    · exact ⟨rfl, rfl, rfl, rfl, rfl⟩
    · exact ⟨rfl, rfl, rfl, rfl, rfl⟩
  · exact .refl s

theorem sameRows_answerWaiters : SameRows s (answerWaiters d s) := by
  unfold answerWaiters
  split
  · exact .refl s
  · exact (sameRows_answerClaimSubmit d s).trans
      ((sameRows_answerAddInvoice d _).trans (sameRows_answerDispute d _))

theorem sameRows_interceptTake {s' : OrderState} (h : interceptTake d s = some s') :
    SameRows s s' := by
  unfold interceptTake at h
  split at h
  · cases h
  · obtain ⟨p, -, rfl⟩ := Option.map_eq_some_iff.mp h
    exact ⟨rfl, rfl, rfl, rfl, rfl⟩

theorem sameRows_noteBondLocked (now : Int) : SameRows s (noteBondLocked row now s) := by
  unfold noteBondLocked
  split
  · exact .refl s
  · split
    · exact .refl s
    · split
      · split
        · exact sameRows_updateTradeBond s _
        · exact .refl s
      · exact .refl s

theorem sameRows_noteBondReleased : SameRows s (noteBondReleased row s) := by
  unfold noteBondReleased
  split
  · exact .refl s
  · split
    · exact sameRows_updateTradeBond s _
    · exact .refl s

theorem sameRows_persistPeerReputation : SameRows s (persistPeerReputation d s) := by
  unfold persistPeerReputation
  split
  · exact .refl s
  · dsimp only
    split
    · exact .of_map (f := TradeInfo.setPeerReputation _ _ _) (fun _ => rfl) rfl rfl rfl rfl rfl
    · exact .of_map (f := TradeInfo.setPeerReputation _ _ _) (fun _ => rfl) rfl rfl rfl rfl rfl

theorem sameRows_slashBond : SameRows s (slashBond d s) := by
  unfold slashBond
  split
  · split
    · exact .refl s
    · split
      · split
        · exact .refl s
        · exact sameRows_updateTradeBond s _
      · exact .refl s
  · exact .refl s

theorem sameRows_restoreSessionArm : SameRows s (restoreSessionArm d s) := by
  unfold restoreSessionArm
  split
  · exact ⟨rfl, rfl, rfl, rfl, rfl⟩
  · exact .refl s

theorem sameRows_cantDoArm : SameRows s (cantDoArm d s) := ⟨rfl, rfl, rfl, rfl, rfl⟩

theorem sameRows_refreshTakerBond : SameRows s (refreshTakerBond env d row s) := by
  unfold refreshTakerBond
  split
  · split
    · exact .refl s
    · dsimp only
      split
      · exact .refl s
      · exact (sameRows_updateTradeBond s _).trans ⟨rfl, rfl, rfl, rfl, rfl⟩
  · exact .refl s

/-- A message that names no order leaves every row. -/
theorem sameRows_dispatchUnaddressed : SameRows s (dispatchUnaddressed d s) := by
  unfold dispatchUnaddressed
  split
  · next h => exact sameRows_interceptTake d s h
  · dsimp only
    split
    · exact (sameRows_answerWaiters d s).trans (sameRows_restoreSessionArm d _)
    · exact (sameRows_answerWaiters d s).trans (sameRows_cantDoArm d _)
    · exact sameRows_answerWaiters d s

/-- Everything before the rebuild. -/
theorem sameRows_prologue :
    SameRows s (answerWaiters d (capturePeer env d row (reconcileStoredId d s))) :=
  (sameRows_reconcileStoredId d s).trans
    ((sameRows_capturePeer env d row _).trans (sameRows_answerWaiters d _))

end Stages

/-! ## The write every status arm ends with -/

section Sync

variable (row : RowState) (status : OrderStatus) (invoice : Option String) (amount : Option Nat)
  (ts : Int) (s : OrderState)

@[simp] theorem syncAndEmit_tradeWiped :
    (syncAndEmit row status invoice amount ts s).tradeWiped = s.tradeWiped := by
  unfold syncAndEmit OrderState.syncTradeFieldsIfChanged
  split <;> simp

@[simp] theorem syncAndEmit_statusCursor :
    (syncAndEmit row status invoice amount ts s).statusCursor = s.statusCursor := by
  unfold syncAndEmit OrderState.syncTradeFieldsIfChanged
  split <;> simp

@[simp] theorem syncAndEmit_bookEntry :
    (syncAndEmit row status invoice amount ts s).bookEntry = s.bookEntry := by
  unfold syncAndEmit OrderState.syncTradeFieldsIfChanged
  split <;> simp

@[simp] theorem syncAndEmit_tradeKey :
    (syncAndEmit row status invoice amount ts s).tradeKey = s.tradeKey := by
  unfold syncAndEmit OrderState.syncTradeFieldsIfChanged
  split <;> simp

@[simp] theorem syncAndEmit_pending :
    (syncAndEmit row status invoice amount ts s).pending = s.pending := by
  unfold syncAndEmit OrderState.syncTradeFieldsIfChanged
  split <;> rfl

/-- Either every row takes the status, or the row the caller holds had it already. -/
theorem syncAndEmit_trades :
    (syncAndEmit row status invoice amount ts s).trades =
        s.trades.map (TradeInfo.setFields (some status) invoice amount) ∨
      (syncAndEmit row status invoice amount ts s).trades = s.trades ∧
        ∃ t, row.trade = some t ∧ t.order.status = status := by
  unfold syncAndEmit OrderState.syncTradeFieldsIfChanged
  by_cases h : row.trade.all (OrderState.fieldsDiffer · (some status) invoice amount)
  · simp [h]
  · refine Or.inr ⟨by simp [h], ?_⟩
    cases ht : row.trade with
    | none => simp [ht] at h
    | some t =>
        refine ⟨t, rfl, ?_⟩
        have hd : OrderState.fieldsDiffer t (some status) invoice amount = false := by
          simpa [ht] using h
        simp only [OrderState.fieldsDiffer, Bool.not_eq_false', Bool.and_eq_true,
          Option.all_some, decide_eq_true_eq] at hd
        exact hd.1.1.symm

/-- The row a dispatch holds, where it holds one, has the status of the order's row. -/
def RowMatches (row : RowState) (s : OrderState) : Prop :=
  ∀ t, row.trade = some t → s.rowStatus = some t.order.status

/-- The row ends in the written status. -/
theorem syncAndEmit_rowStatus (hrow : RowMatches row s) :
    (syncAndEmit row status invoice amount ts s).rowStatus = s.rowStatus.map fun _ => status := by
  rcases syncAndEmit_trades row status invoice amount ts s with h | ⟨h, t, ht, hst⟩
  · unfold OrderState.rowStatus OrderState.trade
    rw [h]
    cases s.trades <;> simp [TradeInfo.setFields]
  · have hs : s.rowStatus = some status := hst ▸ hrow t ht
    have : (syncAndEmit row status invoice amount ts s).rowStatus = s.rowStatus := by
      unfold OrderState.rowStatus OrderState.trade
      rw [h]
    rw [this, hs]
    rfl

/-- The rows keep their key indices. -/
theorem syncAndEmit_rowIndex :
    (syncAndEmit row status invoice amount ts s).trade.map (·.tradeKeyIndex) =
      s.trade.map (·.tradeKeyIndex) := by
  unfold OrderState.trade
  rcases syncAndEmit_trades row status invoice amount ts s with h | ⟨h, -⟩
  · rw [h]
    cases s.trades <;> simp [TradeInfo.setFields]
  · rw [h]

end Sync

/-! ## The wipe -/

section Wipe

variable (s : OrderState)

@[simp] theorem settleEntry_tradeKey (x : OrderState.Settlement) :
    (s.settleEntry x).tradeKey = s.tradeKey := by
  cases x <;> rfl

@[simp] theorem settleEntry_pending (x : OrderState.Settlement) :
    (s.settleEntry x).pending = s.pending := by
  cases x <;> rfl

@[simp] theorem settleEntry_trades (x : OrderState.Settlement) :
    (s.settleEntry x).trades = s.trades := by
  cases x <;> rfl

@[simp] theorem settleEntry_tradeWiped (x : OrderState.Settlement) :
    (s.settleEntry x).tradeWiped = s.tradeWiped := by
  cases x <;> rfl

@[simp] theorem settleEntry_statusCursor (x : OrderState.Settlement) :
    (s.settleEntry x).statusCursor = s.statusCursor := by
  cases x <;> rfl

variable (wasTake : Bool) (wipedAt : Int) (wipedIndex : Nat)

@[simp] theorem wipeNeverActiveTrade_trades :
    (s.wipeNeverActiveTrade wasTake wipedAt wipedIndex).trades = [] := by
  cases wasTake <;> simp [OrderState.wipeNeverActiveTrade, OrderState.settleAfterLostTake]

@[simp] theorem wipeNeverActiveTrade_tradeWiped :
    (s.wipeNeverActiveTrade wasTake wipedAt wipedIndex).tradeWiped =
      some ⟨wipedAt, some wipedIndex⟩ := by
  cases wasTake <;> simp [OrderState.wipeNeverActiveTrade, OrderState.settleAfterLostTake]

@[simp] theorem wipeNeverActiveTrade_statusCursor :
    (s.wipeNeverActiveTrade wasTake wipedAt wipedIndex).statusCursor = s.statusCursor := by
  cases wasTake <;> simp [OrderState.wipeNeverActiveTrade, OrderState.settleAfterLostTake]

@[simp] theorem wipeNeverActiveTrade_tradeKey :
    (s.wipeNeverActiveTrade wasTake wipedAt wipedIndex).tradeKey = s.tradeKey := by
  cases wasTake <;> simp [OrderState.wipeNeverActiveTrade, OrderState.settleAfterLostTake]

@[simp] theorem wipeNeverActiveTrade_pending :
    (s.wipeNeverActiveTrade wasTake wipedAt wipedIndex).pending = s.pending := by
  cases wasTake
  · rfl
  · exact settleEntry_pending _ _

end Wipe

/-! ## The row a dispatch reads -/

theorem RowMatches.of_sameRows {row : RowState} {s s' : OrderState} (h : RowMatches row s)
    (hs : SameRows s s') : RowMatches row s' := by
  intro t ht
  rw [hs.rowStatus]
  exact h t ht

theorem tradeRowState_of_trade {i : Nat} {s : OrderState} {t : TradeInfo} (fails : Bool)
    (h : s.trade = some t) :
    s.tradeRowState fails i = if fails then .unknown else .existing t := by
  unfold OrderState.tradeRowState
  rw [h]

/-- A store that answers finds the row of a wiped order wiped, for every index its tombstone
covers. -/
theorem tradeRowState_wiped {i : Nat} {s : OrderState} {w : Tombstone} (fails : Bool)
    (h : s.trades = []) (hw : s.tradeWiped = some w) (hc : w.covers i = true) :
    s.tradeRowState fails i = if fails then .unknown else .wiped := by
  unfold OrderState.tradeRowState OrderState.trade
  simp [h, hw, hc]

/-! ## Where a dispatch ends -/

section Cases

variable {motive : OrderState → Prop} {env : Env} {d : Delivery} {row : RowState}
  {s s' : OrderState} {t : TradeInfo}

/-- **A message** names no order, or comes on an older key, or wakes a take, or reaches its arm. -/
theorem dispatch_cases (env : Env)
    (hrow : (reconcileStoredId d s).tradeRowState d.rowLookupFails d.tradeIndex = row)
    (unaddressed : d.namesOrder = false → motive (dispatchUnaddressed d s))
    (superseded : supersededKey d s = true → motive s)
    (woken : supersededKey d s = false → ∀ s',
      interceptTake d (capturePeer env d row (reconcileStoredId d s)) = some s' → motive s')
    (reached : d.namesOrder = true → supersededKey d s = false →
      interceptTake d (capturePeer env d row (reconcileStoredId d s)) = none →
        ∀ r, rebuildIfNeverWritten d row (answerWaiters d (capturePeer env d row
          (reconcileStoredId d s))) = r → motive (arm env d r.2 r.1)) :
    motive (dispatchMostroMessage env d s) := by
  unfold dispatchMostroMessage
  split
  · next hnames => exact unaddressed hnames
  next hnames =>
  split
  · next hsup => exact superseded hsup
  next hcur =>
  have hcurrent : supersededKey d s = false := Bool.eq_false_iff.mpr hcur
  unfold dispatchCurrent
  dsimp only
  rw [hrow]
  split
  · next s' hs' => exact woken hcurrent s' hs'
  · next htake => exact reached (by simpa using hnames) hcurrent htake _ rfl

/-- The row of an order that has one, as a dispatch reads it. -/
def rowRead (d : Delivery) (t : TradeInfo) : RowState :=
  if d.rowLookupFails then .unknown else .existing t

theorem rowRead_trade {t' : TradeInfo} (h : (rowRead d t).trade = some t') :
    t' = t ∧ d.rowLookupFails = false := by
  unfold rowRead at h
  cases hf : d.rowLookupFails <;> simp [hf, RowState.trade] at h
  exact ⟨h.symm, rfl⟩

theorem rowRead_eq_existing {t' : TradeInfo} (h : rowRead d t = .existing t') : t' = t :=
  (rowRead_trade (congrArg RowState.trade h)).1

/-- A row is there to be found: nothing is rebuilt. -/
theorem rebuildIfNeverWritten_rowRead (d : Delivery) (t : TradeInfo) (s : OrderState) :
    rebuildIfNeverWritten d (rowRead d t) s = (s, rowRead d t) := by
  unfold rowRead
  cases d.rowLookupFails <;> rfl

theorem rowMatches_rowRead (ht : s.trade = some t) (hs : SameRows s s') :
    RowMatches (rowRead d t) s' := by
  intro t' ht'
  rw [hs.rowStatus, (rowRead_trade ht').1]
  simp [OrderState.rowStatus, ht]

theorem tradeRowState_of_row (d : Delivery) (ht : s.trade = some t) :
    (reconcileStoredId d s).tradeRowState d.rowLookupFails d.tradeIndex = rowRead d t := by
  have hsame : (reconcileStoredId d s).trades = s.trades := by
    unfold reconcileStoredId
    split <;> rfl
  have htrade : (reconcileStoredId d s).trade = some t := by
    rw [OrderState.trade, hsame]
    exact ht
  exact tradeRowState_of_trade _ htrade

/-- **A message over a row** reaches its arm with the row. -/
theorem dispatch_over_row (env : Env) (ht : s.trade = some t)
    (unaddressed : d.namesOrder = false → motive (dispatchUnaddressed d s))
    (superseded : supersededKey d s = true → motive s)
    (woken : supersededKey d s = false → ∀ s', interceptTake d (capturePeer env d (rowRead d t)
      (reconcileStoredId d s)) = some s' → motive s')
    (reached : d.namesOrder = true → supersededKey d s = false →
      interceptTake d (capturePeer env d (rowRead d t) (reconcileStoredId d s)) = none →
        motive (arm env d (rowRead d t) (answerWaiters d (capturePeer env d (rowRead d t)
          (reconcileStoredId d s))))) :
    motive (dispatchMostroMessage env d s) := by
  refine dispatch_cases env (tradeRowState_of_row d ht) unaddressed superseded woken ?_
  intro hnames hcur htake r hr
  rw [rebuildIfNeverWritten_rowRead] at hr
  rw [← hr]
  exact reached hnames hcur htake

end Cases

end MostroApp.Orders
