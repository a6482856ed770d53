import MostroApp.Api.Wiped
import MostroApp.Lib.Transition

set_option autoImplicit false

/-! # The bond of a take

The first trade-flow message locks a take's bond, the end of the trade releases it, a slash
notice slashes it: each of these writers reads the state the row has and moves it forward. The
fourth does not. A `pay-bond-invoice` nothing waits for replaces the bond of a row that still
stands in the bond window by a freshly requested one, whatever became of the bond it finds.
-/

namespace MostroApp.Orders

open Pending Status Transition
open Wire (Action Payload)

/-! ## The order of bond states -/

/-- `Requested < Locked < Released < Slashed`. -/
def bondRank : BondState → Nat
  | .requested => 0
  | .locked => 1
  | .released => 2
  | .slashed => 3

/-- Nothing is further than `Slashed`. -/
theorem bondRank_le_slashed (state : BondState) : bondRank state ≤ bondRank .slashed := by
  cases state <;> decide

/-- Nothing is behind `Requested`. -/
theorem eq_requested_of_bondRank_le {state : BondState}
    (h : bondRank state ≤ bondRank .requested) : state = .requested := by
  cases state with
  | requested => rfl
  | locked | released | slashed => exact absurd h (by decide)

/-- A bond stays on the row, and its state does not fall back. -/
def BondForward (b b' : Option BondInfo) : Prop :=
  ∀ x, b = some x → ∃ x', b' = some x' ∧ bondRank x.state ≤ bondRank x'.state

namespace BondForward

variable {b b' b'' : Option BondInfo}

theorem refl (b : Option BondInfo) : BondForward b b := fun x h => ⟨x, h, le_rfl⟩

theorem trans (h : BondForward b b') (h' : BondForward b' b'') : BondForward b b'' := by
  intro x hx
  obtain ⟨x', hx', hle⟩ := h x hx
  obtain ⟨x'', hx'', hle'⟩ := h' x' hx'
  exact ⟨x'', hx'', hle.trans hle'⟩

theorem of_le {x x' : BondInfo} (h : bondRank x.state ≤ bondRank x'.state) :
    BondForward (some x) (some x') := by
  intro y hy
  obtain rfl := Option.some.inj hy
  exact ⟨x', rfl, h⟩

end BondForward

/-! ## The row of a take -/

/-- Whose order a row is of, and its bond. -/
def bondKey (t : TradeInfo) : Bool × Option BondInfo := (t.order.isMine, t.bond)

/-- The order's row is a take's with bond `b`; a further row of the id is of an order we made. -/
def TakeRow (b : Option BondInfo) (s : OrderState) : Prop :=
  ∃ t rest, s.trades = t :: rest ∧ bondKey t = (false, b) ∧ ∀ t' ∈ rest, t'.order.isMine = true

/-- The row a lookup returns is a take's. -/
def takeStands (s : OrderState) : Bool := s.trade.any (!·.order.isMine)

/-- The bond of the order's row. -/
def bondOf (s : OrderState) : Option BondInfo := s.trade.bind (·.bond)

/-- The rows hold the bonds they held. -/
def SameBonds (s s' : OrderState) : Prop := s'.trades.map bondKey = s.trades.map bondKey

theorem SameBonds.refl (s : OrderState) : SameBonds s s := rfl

theorem SameBonds.trans {s s' s'' : OrderState} (h : SameBonds s s') (h' : SameBonds s' s'') :
    SameBonds s s'' :=
  Eq.trans h' h

/-- An edit of every row that leaves its bond. -/
theorem SameBonds.of_map {s s' : OrderState} {f : TradeInfo → TradeInfo}
    (hf : ∀ t, bondKey (f t) = bondKey t) (h : s'.trades = s.trades.map f) : SameBonds s s' := by
  unfold SameBonds
  rw [h, List.map_map]
  exact List.map_congr_left fun t _ => hf t

namespace TakeRow

variable {b : Option BondInfo} {s s' : OrderState}

theorem trade (h : TakeRow b s) :
    ∃ t, s.trade = some t ∧ t.order.isMine = false ∧ t.bond = b := by
  obtain ⟨t, rest, hs, hkey, -⟩ := h
  exact ⟨t, by simp [OrderState.trade, hs], congrArg Prod.fst hkey, congrArg Prod.snd hkey⟩

theorem stands (h : TakeRow b s) : takeStands s = true := by
  obtain ⟨t, ht, hmine, -⟩ := h.trade
  simp [takeStands, ht, hmine]

theorem bond_eq (h : TakeRow b s) : bondOf s = b := by
  obtain ⟨t, ht, -, hbond⟩ := h.trade
  simp [bondOf, ht, hbond]

theorem of_sameBonds (h : TakeRow b s) (hs : SameBonds s s') : TakeRow b s' := by
  obtain ⟨t, rest, htrades, hkey, hmine⟩ := h
  unfold SameBonds at hs
  rw [htrades, List.map_cons, List.map_eq_cons_iff] at hs
  obtain ⟨t', rest', htrades', hkey', hrest⟩ := hs
  refine ⟨t', rest', htrades', hkey'.trans hkey, fun u hu => ?_⟩
  have hmem : bondKey u ∈ rest.map bondKey := hrest ▸ List.mem_map_of_mem hu
  obtain ⟨v, hv, heq⟩ := List.mem_map.mp hmem
  rw [← hmine v hv]
  exact (congrArg Prod.fst heq).symm

/-- A bond write reaches the row. -/
theorem updateTradeBond (h : TakeRow b s) (x : BondInfo) :
    TakeRow (some x) (s.updateTradeBond x) := by
  obtain ⟨t, rest, htrades, hkey, hmine⟩ := h
  have ht : t.order.isMine = false := congrArg Prod.fst hkey
  refine ⟨t.setBond x, rest.map (TradeInfo.setBond x), by simp [htrades], ?_, fun u hu => ?_⟩
  · exact Prod.ext ht rfl
  · obtain ⟨v, hv, rfl⟩ := List.mem_map.mp hu
    exact hmine v hv

/-- A row of our own order is saved behind a take's, or in its place. -/
theorem persistTradeRow (h : TakeRow b s) {t : TradeInfo} (ht : t.order.isMine = true)
    (hstands : takeStands (s.persistTradeRow t) = true) : TakeRow b (s.persistTradeRow t) := by
  obtain ⟨t₀, rest, htrades, hkey, hmine⟩ := h
  have hmine' : ∀ u ∈ TradeInfo.save t rest, u.order.isMine = true := by
    intro u hu
    rcases List.mem_append.mp hu with hu | hu
    · exact hmine u (List.mem_of_mem_filter hu)
    · obtain rfl := List.mem_singleton.mp hu
      exact ht
  by_cases hid : t₀.id = t.id
  · -- the take's row made room: every row left is of our own order
    have hrows : (s.persistTradeRow t).trades = TradeInfo.save t rest := by
      simp [TradeInfo.save, htrades, hid]
    unfold takeStands OrderState.trade at hstands
    rw [hrows, Option.any_eq_true] at hstands
    obtain ⟨u, hu, hnot⟩ := hstands
    rw [hmine' u (List.mem_of_mem_head? hu)] at hnot
    cases hnot
  · exact ⟨t₀, TradeInfo.save t rest, by simp [TradeInfo.save, htrades, hid], hkey, hmine'⟩

end TakeRow

/-! ## The writers of the bond -/

/-- A take's row, its bond where it was or further. -/
def BondMoves (b : Option BondInfo) (s : OrderState) : Prop :=
  ∃ b', TakeRow b' s ∧ BondForward b b'

section Writers

variable {b : Option BondInfo} {d : Delivery} {row : RowState} {s s' : OrderState}

theorem TakeRow.moves (h : TakeRow b s) : BondMoves b s := ⟨b, h, .refl b⟩

theorem BondMoves.of_sameBonds (h : BondMoves b s) (hs : SameBonds s s') : BondMoves b s' := by
  obtain ⟨b', htake, hforward⟩ := h
  exact ⟨b', htake.of_sameBonds hs, hforward⟩

/-- A write of a bond that is as far as the row's. -/
theorem TakeRow.moves_updateTradeBond {x x' : BondInfo} (h : TakeRow (some x) s)
    (hle : bondRank x.state ≤ bondRank x'.state) : BondMoves (some x) (s.updateTradeBond x') :=
  ⟨some x', h.updateTradeBond x', .of_le hle⟩

/-- The lock and the release read the state of the bond they write over. -/
theorem TakeRow.moves_noted {now : Int} (h : TakeRow b s)
    (hread : ∀ t, row.trade = some t → t.bond = b) (hn : Noted row now s s') : BondMoves b s' := by
  cases hn with
  | nothing => exact h.moves
  | locked =>
      unfold noteBondLocked
      split
      · exact h.moves
      · next t ht =>
        have hb := hread t ht
        split
        · exact h.moves
        · split
          · next x hx =>
            obtain rfl : b = some x := hb.symm.trans hx
            split
            · next hreq => exact h.moves_updateTradeBond (by simp [hreq, bondRank])
            · exact h.moves
          · exact h.moves
  | released =>
      unfold noteBondReleased
      split
      · exact h.moves
      · next x hx =>
        obtain ⟨t, ht, htx⟩ := Option.bind_eq_some_iff.mp hx
        obtain rfl : b = some x := (hread t ht).symm.trans htx
        split
        · next hopen =>
          refine h.moves_updateTradeBond ?_
          rcases hopen with hreq | hlock
          · simp [hreq, bondRank]
          · simp [hlock, bondRank]
        · exact h.moves

/-- The slash notice writes the furthest state. -/
theorem TakeRow.moves_slashBond (h : TakeRow b s) : BondMoves b (slashBond d s) := by
  obtain ⟨t, ht, -, hb⟩ := h.trade
  unfold slashBond
  split
  · split
    · exact h.moves
    · split
      · next x hx =>
        obtain rfl : b = some x := by
          rw [ht] at hx
          exact hb.symm.trans hx
        split
        · exact h.moves
        · exact h.moves_updateTradeBond (bondRank_le_slashed x.state)
      · exact h.moves
  · exact h.moves

end Writers

/-! ## What leaves the bonds -/

section Stages

variable (env : Env) (d : Delivery) (row : RowState) (s : OrderState)

theorem quietStages_sameBonds : QuietStages SameBonds where
  refl := SameBonds.refl
  trans := SameBonds.trans
  recordStatusEvent _ _ _ := rfl
  recordInvoiceStepStart _ _ _ _ := rfl
  persistPeerReputation d s := by
    unfold persistPeerReputation
    split
    · exact .refl s
    · next rating reviews days _ =>
      have hrows : SameBonds s (s.updateTradePeerReputation rating reviews days) :=
        .of_map (f := TradeInfo.setPeerReputation rating reviews days) (fun _ => rfl) rfl
      dsimp only
      split
      · exact hrows
      · exact hrows
  updateOrderStatus _ _ := rfl
  syncBookEntry status sats s := by
    unfold syncBookEntry
    split
    · exact .refl s
    · exact .refl s
  syncAndEmit row status invoice amount ts s := by
    rcases syncAndEmit_trades row status invoice amount ts s with h | ⟨h, -⟩
    · exact .of_map (f := TradeInfo.setFields (some status) invoice amount) (fun _ => rfl) h
    · exact congrArg (List.map bondKey) h
  forgetWireOrder _ := rfl
  setCooperativeCancelState state s :=
    .of_map (f := TradeInfo.setCooperativeCancelState state) (fun _ => rfl) rfl
  emitTradeUpdateAt _ _ _ _ := rfl

theorem sameBonds_reconcileStoredId : SameBonds s (reconcileStoredId d s) := by
  unfold reconcileStoredId
  split <;> exact .refl s

theorem sameBonds_capturePeer : SameBonds s (capturePeer env d row s) := by
  have hpeer : ∀ peer, SameBonds s (s.updateTradeCounterparty peer) := by
    intro peer
    by_cases hp : peer = ""
    · simp [SameBonds, hp]
    · exact .of_map (f := TradeInfo.setCounterparty peer) (fun _ => rfl) (by simp [hp])
  have hreveal : ∀ peer role, SameBonds s
      (applyPeerReveal env d peer role (s.updateTradeCounterparty peer)) := by
    intro peer role
    unfold applyPeerReveal
    split
    · exact hpeer peer
    · dsimp only
      split
      · exact hpeer peer
      · exact hpeer peer
  unfold capturePeer maybeCapturePeerReveal
  repeat' split
  all_goals first
    | exact .refl s
    | exact hreveal _ _

theorem sameBonds_answerWaiters : SameBonds s (answerWaiters d s) := by
  have hclaim : SameBonds s (answerClaimSubmit d s) := by
    unfold answerClaimSubmit
    split <;> exact .refl s
  have hdispute : ∀ s, SameBonds s (answerDispute d s) := by
    intro s
    unfold answerDispute
    split
    · dsimp only
      split <;> exact .refl s
    · exact .refl s
  unfold answerWaiters
  split
  · exact .refl s
  · exact hclaim.trans (hdispute (answerAddInvoice d (answerClaimSubmit d s)))

theorem sameBonds_interceptTake {s' : OrderState} (h : interceptTake d s = some s') :
    SameBonds s s' := by
  unfold interceptTake at h
  split at h
  · cases h
  · obtain ⟨p, -, rfl⟩ := Option.map_eq_some_iff.mp h
    exact .refl s

theorem sameBonds_restoreSessionArm : SameBonds s (restoreSessionArm d s) := by
  unfold restoreSessionArm
  split <;> exact .refl s

theorem sameBonds_dispatchUnaddressed : SameBonds s (dispatchUnaddressed d s) := by
  have hwait := sameBonds_answerWaiters d s
  unfold dispatchUnaddressed
  split
  · next h => exact sameBonds_interceptTake d s h
  · dsimp only
    split
    · exact hwait.trans (sameBonds_restoreSessionArm d _)
    · exact hwait
    · exact hwait

end Stages

/-! ## One message -/

/-- A caller waits for the bond invoice: a take, or the create it answers. -/
def bondReplyAwaited (d : Delivery) (s : OrderState) : Bool :=
  (s.pending d.tradePubkey).any fun p => requestIdMatches p.requestId d.msg.requestId &&
    match p.kind with
    | .take | .create _ _ => true
    | _ => false

/-- A `pay-bond-invoice` nothing waits for asks anew for a bond that is past `Requested`: the row
stands in the bond window still, and the bolt11 is another one, not older than the row's. -/
def asksAnew (d : Delivery) (s : OrderState) : Bool :=
  d.msg.action = .payBondInvoice && d.namesOrder && !supersededKey d s &&
    !bondReplyAwaited d s && !d.rowLookupFails &&
    match s.trade, d.msg.payload with
    | some t, some (.paymentRequest _ invoice _) =>
        t.order.status = .waitingTakerBond && t.bond.any fun x =>
          x.state ≠ BondState.requested && x.invoice ≠ some invoice &&
            !bondRefreshIsStale x d.msg.createdAt
    | _, _ => false

/-- A message over a take's row. The run ends with the row: where a message wipes it, or puts
one of our own orders in its place. -/
def takeStep (env : Env) (s : OrderState) (d : Delivery) : Option OrderState :=
  let s' := dispatchMostroMessage env d s
  if takeStands s' then some s' else none

/-- The take's row is gone, or its bond is where it was or further. -/
def BondOnward (b : Option BondInfo) (s : OrderState) : Prop := takeStands s = true → BondMoves b s

section Arms

variable {env : Env} {b : Option BondInfo} {d : Delivery} {row : RowState} {s s' : OrderState}

theorem BondMoves.onward (h : BondMoves b s) : BondOnward b s := fun _ => h

theorem TakeRow.onward (h : TakeRow b s) : BondOnward b s := h.moves.onward

/-- A further row of our own. -/
theorem TakeRow.onward_persist (h : TakeRow b s) {t : TradeInfo} (ht : t.order.isMine = true) :
    BondOnward b (s.persistTradeRow t) := fun hstands =>
  (h.persistTradeRow ht hstands).moves

theorem BondOnward.of_sameBonds (h : BondOnward b s) (hs : SameBonds s s')
    (hstands : takeStands s' = true → takeStands s = true) : BondOnward b s' := fun hs' =>
  (h (hstands hs')).of_sameBonds hs

/-- The status arms note the bond, or wipe the row. -/
theorem TakeRow.onward_statusArm (env : Env) (h : TakeRow b s)
    (hread : ∀ t, row.trade = some t → t.bond = b) (ha : isStatusArm d.msg.action = true) :
    BondOnward b (arm env d row s) := by
  rcases quietStages_sameBonds.arm env row s ha with
    ⟨s₁, s₂, h₁, hnote, h₂⟩ | ⟨-, t, -, -, heq⟩
  · exact (((h.of_sameBonds h₁).moves_noted hread hnote).of_sameBonds h₂).onward
  · -- the wipe leaves no row
    intro hstands
    rw [heq] at hstands
    simp [takeStands, OrderState.trade, cancelNeverActive] at hstands

/-- A row built from a daemon message is of our own order as it was told to be. -/
theorem tradeRowFromSmallOrder_isMine {orderId counterparty creator : String}
    {order : Wire.SmallOrder} {role : TradeRole} {isMine : Bool} {tradeIndex : Nat}
    {status : OrderStatus} {now : Int} {t : TradeInfo}
    (h : tradeRowFromSmallOrder orderId order role isMine tradeIndex counterparty creator status
      now = some t) : t.order.isMine = isMine := by
  obtain ⟨kind, -, rfl⟩ := Option.map_eq_some_iff.mp h
  rfl

/-- A remainder is of our own order. -/
theorem remainderRow_isMine {orderId : String} {t : TradeInfo}
    (h : remainderRow d orderId = some t) : t.order.isMine = true := by
  unfold remainderRow at h
  obtain ⟨order, -, h⟩ := Option.bind_eq_some_iff.mp h
  split at h
  · obtain ⟨kind, -, h⟩ := Option.bind_eq_some_iff.mp h
    exact tradeRowFromSmallOrder_isMine h
  · cases h

/-- So is a maker's bond. -/
theorem lateBondRow_isMine {orderId : String} {tradeIndex : Nat} {order : Wire.SmallOrder}
    {request : BondRequest} {t : TradeInfo}
    (h : lateBondRow env d orderId tradeIndex order request = some t) : t.order.isMine = true := by
  unfold lateBondRow at h
  obtain ⟨kind, -, h⟩ := Option.bind_eq_some_iff.mp h
  obtain ⟨t₀, ht₀, h⟩ := Option.bind_eq_some_iff.mp h
  have hmine : t₀.order.isMine = true := tradeRowFromSmallOrder_isMine ht₀
  obtain rfl := Option.some.inj h
  exact hmine

theorem TakeRow.onward_adoptRangeRemainder (h : TakeRow b s) :
    BondOnward b (adoptRangeRemainder d s).1 := by
  unfold adoptRangeRemainder
  split
  · exact h.onward
  · next t ht =>
    have hsaved : BondOnward b ((s.storeTradeKeyIndex d.tradeIndex).persistTradeRow t) :=
      TakeRow.onward_persist (h.of_sameBonds rfl) (remainderRow_isMine ht)
    split
    · exact h.onward
    · split
      · exact h.onward
      · split
        · exact h.onward
        · exact hsaved.of_sameBonds rfl id

/-- Nor does a republished order touch the bond. -/
theorem sameBonds_resyncRepublishedMakerOrder (d : Delivery) (s : OrderState) :
    SameBonds s (resyncRepublishedMakerOrder d s).1 := by
  unfold resyncRepublishedMakerOrder
  repeat' split
  all_goals first
    | exact .refl s
    | exact .of_map (f := TradeInfo.setFields (some .pending) none none) (fun _ => rfl) rfl

/-- The row of a take has no maker's bond to confirm. -/
theorem confirmMakerBond_of_take (d : Delivery)
    (hread : ∀ t, row.trade = some t → t.order.isMine = false) :
    confirmMakerBond d row s = (s, false) := by
  unfold confirmMakerBond
  cases ht : row.trade with
  | none => rfl
  | some t =>
      have hmine := hread t ht
      have hnot : isRestoredMakerPlaceholder t = false := by
        simp [isRestoredMakerPlaceholder, hmine]
      simp [hnot, lockMakerBond, hmine]

/-- `new-order` over a take's row. -/
theorem TakeRow.onward_newOrderArm (h : TakeRow b s)
    (hread : ∀ t, row.trade = some t → t.order.isMine = false) :
    BondOnward b (newOrderArm d row s) := by
  have hlate : ∀ i s, TakeRow b s → BondOnward b (persistLateCreateConfirmation d i s) := by
    intro i s h
    unfold persistLateCreateConfirmation
    split
    · exact h.onward
    · next t ht =>
      obtain ⟨order, -, ht⟩ := Option.bind_eq_some_iff.mp ht
      obtain ⟨kind, -, ht⟩ := Option.bind_eq_some_iff.mp ht
      exact (h.onward_persist (tradeRowFromSmallOrder_isMine ht)).of_sameBonds rfl id
  unfold newOrderArm
  dsimp only
  split
  · -- nothing pending: a remainder is adopted, or the order is republished
    generalize hs₁ : s.setPending _ = s₁
    have h₁ : TakeRow b s₁ := h.of_sameBonds (hs₁ ▸ rfl)
    unfold uncorrelatedNewOrder
    rw [confirmMakerBond_of_take d hread]
    dsimp only
    rw [if_neg Bool.false_ne_true]
    rcases adoptRangeRemainder_cases d s₁ with had | ⟨had, -⟩
    · rw [had]
      split
      · exact h₁.onward
      · exact (h₁.of_sameBonds (sameBonds_resyncRepublishedMakerOrder d s₁)).onward
    · rw [if_pos (Or.inl had)]
      exact h₁.onward_adoptRangeRemainder
  · next p _ =>
    generalize hs₁ : (s.setPending _).storeTradeKeyIndex p.tradeIndex = s₁
    have h₁ : TakeRow b s₁ := h.of_sameBonds (hs₁ ▸ rfl)
    split
    · rw [confirmMakerBond_of_take d hread]
      exact h₁.onward
    · split
      · exact (h₁.of_sameBonds rfl).onward
      · exact hlate p.tradeIndex s₁ h₁
    · exact h₁.onward

/-- The answer to a create writes a row of our own, or wakes its caller. -/
theorem TakeRow.onward_handleCreateBondReply (h : TakeRow b s) (claim : CreateBondClaim) :
    BondOnward b (handleCreateBondReply env d claim s) := by
  unfold handleCreateBondReply
  split
  · dsimp only
    split
    · exact (h.of_sameBonds rfl).onward
    · split
      · next t ht =>
        obtain ⟨order, -, ht⟩ := Option.bind_eq_some_iff.mp ht
        have hsaved := TakeRow.onward_persist (s := s.storeTradeKeyIndex claim.tradeIndex)
          (h.of_sameBonds rfl) (lateBondRow_isMine ht)
        exact hsaved.of_sameBonds rfl id
      · exact (h.of_sameBonds rfl).onward
  · exact h.onward

/-- The refresh asks for a new bond whatever it finds, unless the bolt11 is the row's or stale. -/
theorem TakeRow.moves_refreshTakerBond (h : TakeRow b s)
    (hread : ∀ t, row.trade = some t → t.bond = b)
    (hanew : ∀ t so invoice amount x, row.trade = some t →
      d.msg.payload = some (.paymentRequest so invoice amount) →
      t.order.status = .waitingTakerBond → b = some x → x.state ≠ .requested →
        x.invoice = some invoice ∨ bondRefreshIsStale x d.msg.createdAt = true) :
    BondMoves b (refreshTakerBond env d row s) := by
  unfold refreshTakerBond
  split
  · next t so invoice amount ht hp =>
    split
    · exact h.moves
    · next hstatus =>
      dsimp only
      split
      · exact h.moves
      · next hany =>
        refine BondMoves.of_sameBonds (s := s.updateTradeBond _)
          ⟨_, h.updateTradeBond _, fun x hx => ⟨_, rfl, ?_⟩⟩ rfl
        have hreq : x.state = .requested := by
          by_contra hne
          have hkept := hanew t so invoice amount x ht hp (not_not.mp hstatus) hx hne
          rw [hread t ht, hx] at hany
          exact hany (by simpa using hkept)
        simp [hreq, bondRank]
  · exact h.moves

/-- `pay-bond-invoice` answers a create, or refreshes the row's bond. -/
theorem TakeRow.onward_payBondInvoiceArm (h : TakeRow b s)
    (hread : ∀ t, row.trade = some t → t.bond = b)
    (hanew : (claimCreateBond d.tradePubkey d.msg.requestId s.pending).2 = none →
      ∀ t so invoice amount x, row.trade = some t →
        d.msg.payload = some (.paymentRequest so invoice amount) →
        t.order.status = .waitingTakerBond → b = some x → x.state ≠ .requested →
          x.invoice = some invoice ∨ bondRefreshIsStale x d.msg.createdAt = true) :
    BondOnward b (payBondInvoiceArm env d row s) := by
  have hclaimed : TakeRow b
      (s.setPending (claimCreateBond d.tradePubkey d.msg.requestId s.pending).1) :=
    h.of_sameBonds rfl
  unfold payBondInvoiceArm
  dsimp only
  split
  · next claim _ => exact hclaimed.onward_handleCreateBondReply claim
  · next hclaim => exact (hclaimed.moves_refreshTakerBond hread (hanew hclaim)).onward

end Arms

/-! ## The dispatch of a message over a take -/

section Dispatch

variable {env : Env} {b : Option BondInfo} {d : Delivery} {s : OrderState}

/-- The refresh writes over whatever state it finds. -/
theorem TakeRow.fallsBack_refreshTakerBond {x : BondInfo} (h : TakeRow (some x) s) (env : Env)
    {t : TradeInfo} {so : Option Wire.SmallOrder} {invoice : String} {amount : Option Int}
    (hp : d.msg.payload = some (.paymentRequest so invoice amount))
    (hstatus : t.order.status = .waitingTakerBond) (hx : t.bond = some x)
    (hpast : x.state ≠ .requested) (hother : x.invoice ≠ some invoice)
    (hfresh : bondRefreshIsStale x d.msg.createdAt = false) :
    takeStands (refreshTakerBond env d (.existing t) s) = true ∧
      ¬BondForward (some x) (bondOf (refreshTakerBond env d (.existing t) s)) := by
  obtain ⟨x', hreq, hwrite⟩ : ∃ x', x'.state = .requested ∧
      refreshTakerBond env d (.existing t) s =
        (s.updateTradeBond x').emitTradeUpdateAt .waitingTakerBond none d.msg.createdAt := by
    unfold refreshTakerBond
    rw [hp]
    dsimp only [RowState.trade]
    rw [if_neg (not_not.mpr hstatus), if_neg (by simp [hx, hother, hfresh])]
    exact ⟨_, rfl, rfl⟩
  have hwritten : TakeRow (some x') (refreshTakerBond env d (.existing t) s) := by
    rw [hwrite]
    exact (h.updateTradeBond x').of_sameBonds rfl
  refine ⟨hwritten.stands, fun hforward => ?_⟩
  rw [hwritten.bond_eq] at hforward
  obtain ⟨y, hy, hle⟩ := hforward x rfl
  obtain rfl := Option.some.inj hy
  rw [hreq] at hle
  exact hpast (eq_requested_of_bondRank_le hle)

theorem bondReplyAwaited_congr (d : Delivery) {s' : OrderState} (h : s'.pending = s.pending) :
    bondReplyAwaited d s' = bondReplyAwaited d s := by
  unfold bondReplyAwaited
  rw [h]

theorem confirmsCreate_of_unawaited (h : bondReplyAwaited d s = false) :
    confirmsCreate d s = false := by
  rw [← Bool.not_eq_true] at h ⊢
  intro hconfirms
  apply h
  unfold confirmsCreate at hconfirms
  rw [Bool.and_eq_true, Option.any_eq_true] at hconfirms
  obtain ⟨-, p, hp, hcreate⟩ := hconfirms
  unfold bondReplyAwaited
  rw [Option.any_eq_true]
  refine ⟨p, hp, ?_⟩
  rw [Bool.and_eq_true] at hcreate ⊢
  refine ⟨hcreate.1, ?_⟩
  cases hk : p.kind <;> simp [hk] at hcreate ⊢

theorem interceptTake_of_unawaited (hact : d.msg.action = .payBondInvoice)
    (h : bondReplyAwaited d s = false) : interceptTake d s = none := by
  unfold bondReplyAwaited at h
  unfold interceptTake takeMatchingTake takeMatchingKind
  rw [if_neg (by rw [hact]; exact nofun)]
  dsimp only
  rw [alter_snd, Option.map_eq_none_iff]
  cases he : s.pending d.tradePubkey with
  | none => rfl
  | some p =>
      rw [he] at h
      dsimp only
      split
      · next hm => simp [hm.1, hm.2] at h
      · rfl

/-- A bond invoice that neither wakes a take nor answers a create was awaited by neither. -/
theorem bondReplyAwaited_of_unclaimed (hact : d.msg.action = .payBondInvoice)
    (htake : interceptTake d s = none)
    (hclaim : (claimCreateBond d.tradePubkey d.msg.requestId (answerWaiters d s).pending).2 =
      none) : bondReplyAwaited d s = false := by
  unfold bondReplyAwaited
  cases he : s.pending d.tradePubkey with
  | none => rfl
  | some p =>
      by_contra hawaited
      simp only [Option.any_some, Bool.and_eq_true, Bool.not_eq_false] at hawaited
      obtain ⟨hm, hkind⟩ := hawaited
      cases hk : p.kind with
      | take => simp [interceptTake, hact, takeMatchingTake, takeMatchingKind, he, hm, hk] at htake
      | create _ _ =>
          -- answering an add-invoice leaves a create where it is
          simp [answerWaiters, answerClaimSubmit, answerDispute, answerAddInvoice, hact,
            takeMatchingAddInvoice, takeMatchingKind, claimCreateBond, he, hm, hk] at hclaim
      | addInvoice | bondClaimSubmit | restore _ | dispute _ => simp [hk] at hkind

/-- **One message moves a take's bond forward**, unless it asks anew. -/
theorem TakeRow.onward_dispatch (env : Env) (h : TakeRow b s) (hanew : asksAnew d s = false) :
    BondOnward b (dispatchMostroMessage env d s) := by
  obtain ⟨t, ht, hmine, hbond⟩ := h.trade
  have hpending : (capturePeer env d (rowRead d t) (reconcileStoredId d s)).pending = s.pending :=
    (sameKeys_capturePeer env d _ _).pending.trans reconcileStoredId_pending
  have hcap := (sameBonds_reconcileStoredId d s).trans
    (sameBonds_capturePeer env d (rowRead d t) (reconcileStoredId d s))
  refine dispatch_over_row (motive := BondOnward b) env ht ?_ ?_ ?_ ?_
  · exact fun _ => (h.of_sameBonds (sameBonds_dispatchUnaddressed d s)).onward
  · exact fun _ => h.onward
  · exact fun _ s' hs' => (h.of_sameBonds (hcap.trans (sameBonds_interceptTake d _ hs'))).onward
  · intro hnames hcur htake
    generalize capturePeer env d (rowRead d t) (reconcileStoredId d s) = s₀ at *
    have h₁ := h.of_sameBonds (hcap.trans (sameBonds_answerWaiters d s₀))
    have hread : ∀ t', (rowRead d t).trade = some t' → t'.bond = b := fun t' ht' => by
      rw [(rowRead_trade ht').1, hbond]
    by_cases harm : isStatusArm d.msg.action = true
    · exact h₁.onward_statusArm env hread harm
    · unfold arm
      cases hact : d.msg.action <;> rw [hact] at harm <;>
        first
        | exact absurd rfl harm
        | exact h₁.onward
        | exact h₁.onward_newOrderArm fun t' ht' => (rowRead_trade ht').1 ▸ hmine
        | exact (h₁.of_sameBonds (sameBonds_restoreSessionArm d _)).onward
        | exact (h₁.of_sameBonds rfl).onward
        | exact h₁.moves_slashBond.onward
        | skip
      -- a bond invoice: what keeps it from asking anew keeps the refresh from writing
      refine h₁.onward_payBondInvoiceArm hread ?_
      intro hclaim t' so invoice amount x ht' hp hstatus hx hne
      obtain ⟨rfl, hfails⟩ := rowRead_trade ht'
      have hawaited : bondReplyAwaited d s = false := by
        rw [← bondReplyAwaited_congr d hpending]
        exact bondReplyAwaited_of_unclaimed hact htake hclaim
      by_contra hother
      rw [not_or] at hother
      simp [asksAnew, hact, hnames, hcur, hawaited, hfails, ht, hp, hstatus, hbond, hx, hne,
        hother] at hanew

/-- **A message that asks anew takes the bond back**: the row stays, and its bond is requested. -/
theorem TakeRow.fallsBack_of_asksAnew (env : Env) (h : TakeRow b s)
    (hanew : asksAnew d s = true) :
    takeStands (dispatchMostroMessage env d s) = true ∧
      ¬BondForward b (bondOf (dispatchMostroMessage env d s)) := by
  unfold asksAnew at hanew
  simp only [Bool.and_eq_true, decide_eq_true_eq, Bool.not_eq_true'] at hanew
  obtain ⟨⟨⟨⟨⟨hact, hnames⟩, hcur⟩, hawaited⟩, hfails⟩, hasks⟩ := hanew
  obtain ⟨t, ht, -, hbond⟩ := h.trade
  have hpending : (capturePeer env d (rowRead d t) (reconcileStoredId d s)).pending = s.pending :=
    (sameKeys_capturePeer env d _ _).pending.trans reconcileStoredId_pending
  have hcap := (sameBonds_reconcileStoredId d s).trans
    (sameBonds_capturePeer env d (rowRead d t) (reconcileStoredId d s))
  have hcreate := no_create_waiting env (rowRead d t) (confirmsCreate_of_unawaited hawaited)
    (Or.inr hact)
  have htake : interceptTake d (capturePeer env d (rowRead d t) (reconcileStoredId d s)) = none :=
    interceptTake_of_unawaited hact ((bondReplyAwaited_congr d hpending).trans hawaited)
  refine dispatch_over_row (motive := fun s' => takeStands s' = true ∧
    ¬BondForward b (bondOf s')) env ht ?_ ?_ ?_ ?_
  · exact fun h => absurd (h.symm.trans hnames) Bool.false_ne_true
  · exact fun h => absurd (hcur.symm.trans h) Bool.false_ne_true
  · exact fun _ s' h => nomatch htake.symm.trans h
  · -- no caller waits, so the message reaches the refresh
    intro _ _ _
    have harm : ∀ s, arm env d (rowRead d t) s = payBondInvoiceArm env d (rowRead d t) s := by
      intro s
      unfold arm
      rw [hact]
    rw [harm, payBondInvoiceArm_of_noCreate hcreate]
    generalize capturePeer env d (rowRead d t) (reconcileStoredId d s) = s₀ at hcap ⊢
    have h₁ : TakeRow b ((answerWaiters d s₀).setPending
        (claimCreateBond d.tradePubkey d.msg.requestId (answerWaiters d s₀).pending).1) :=
      h.of_sameBonds (hcap.trans (sameBonds_answerWaiters d s₀))
    rw [ht] at hasks
    split at hasks
    · next t' so invoice amount ht' hp =>
      obtain rfl := Option.some.inj ht'
      rw [Bool.and_eq_true, decide_eq_true_eq, Option.any_eq_true] at hasks
      obtain ⟨hstatus, x, hx, hold⟩ := hasks
      simp only [Bool.and_eq_true, decide_eq_true_eq, Bool.not_eq_true'] at hold
      obtain ⟨⟨hpast, hother⟩, hfresh⟩ := hold
      obtain rfl : b = some x := hbond.symm.trans hx
      rw [show rowRead d t = .existing t from if_neg (by simp [hfails])]
      exact h₁.fallsBack_refreshTakerBond env hp hstatus hx hpast hother hfresh
    · cases hasks

end Dispatch

/-! ## Runs over one take -/

/-- Of any two states of the run, the bond of the later one is as far as that of the earlier. -/
def BondNeverFallsBack (env : Env) (s : OrderState) (ds : List Delivery) : Prop :=
  ∀ pre mid post s₁ s₂, ds = pre ++ mid ++ post → run (takeStep env) s pre = some s₁ →
    run (takeStep env) s₁ mid = some s₂ → BondForward (bondOf s₁) (bondOf s₂)

section Runs

variable {env : Env} {b : Option BondInfo} {s s' : OrderState} {ds : List Delivery}

theorem takeStep_eq_some {d : Delivery} : takeStep env s d = some s' ↔
    takeStands s' = true ∧ dispatchMostroMessage env d s = s' := by
  unfold takeStep
  dsimp only
  split
  · next hstands =>
    constructor
    · intro h
      obtain rfl := Option.some.inj h
      exact ⟨hstands, rfl⟩
    · exact fun h => congrArg some h.2
  · next hstands =>
    constructor
    · exact nofun
    · rintro ⟨h, rfl⟩
      exact absurd h hstands

/-- A step that does not ask anew leaves a take's row, its bond no less far. -/
theorem BondMoves.step {d : Delivery} (h : BondMoves b s) (hanew : asksAnew d s = false)
    (hs : takeStep env s d = some s') : BondMoves b s' := by
  obtain ⟨b₁, h₁, hforward⟩ := h
  obtain ⟨hstands, rfl⟩ := takeStep_eq_some.mp hs
  obtain ⟨b₂, h₂, hforward'⟩ := h₁.onward_dispatch env hanew hstands
  exact ⟨b₂, h₂, hforward.trans hforward'⟩

theorem TakeRow.run (h : TakeRow b s)
    (hanew : Along (takeStep env) (fun s d => asksAnew d s = false) s ds)
    (hrun : Transition.run (takeStep env) s ds = some s') : BondMoves b s' :=
  run_inv (fun _ _ _ hmoves => hmoves.step) h.moves hanew hrun

/-- **A take's bond moves forward only** in exactly the runs in which no message asks anew for a
bond that is past `Requested`. -/
theorem bond_never_falls_back_iff (env : Env) (h : TakeRow b s) (ds : List Delivery) :
    BondNeverFallsBack env s ds ↔
      Along (takeStep env) (fun s d => asksAnew d s = false) s ds := by
  constructor
  · intro hforward
    induction ds generalizing s b with
    | nil => trivial
    | cons d ds ih =>
        have hstep : ∀ s', takeStep env s d = some s' → BondForward b (bondOf s') := by
          intro s' hs
          have := hforward [] [d] ds s s' rfl rfl (by rw [run_cons, hs]; rfl)
          rwa [h.bond_eq] at this
        -- a first step that asks anew falls back by itself
        have hanew : asksAnew d s = false := by
          rw [← Bool.not_eq_true]
          intro hanew
          obtain ⟨hstands, hback⟩ := h.fallsBack_of_asksAnew env hanew
          exact hback (hstep _ (takeStep_eq_some.mpr ⟨hstands, rfl⟩))
        refine ⟨hanew, fun s' hs => ?_⟩
        obtain ⟨b', hb', -⟩ := h.moves.step hanew hs
        refine ih hb' fun pre mid post s₁ s₂ hds hpre hmid => ?_
        refine hforward (d :: pre) mid post s₁ s₂ (by rw [hds]; rfl) ?_ hmid
        rw [run_cons, hs]
        exact hpre
  · rintro hanew pre mid post s₁ s₂ rfl hpre hmid
    obtain ⟨hfirst, -⟩ := hanew.of_append
    obtain ⟨hbefore, hthen⟩ := hfirst.of_append
    obtain ⟨b₁, h₁, -⟩ := h.run hbefore hpre
    obtain ⟨b₂, h₂, hforward⟩ := h₁.run (hthen s₁ hpre) hmid
    rw [h₁.bond_eq, h₂.bond_eq]
    exact hforward

end Runs

/-! ## A bond asked for again -/

/-- A take's row in its bond window, at key index 3. -/
def bondedRow : TradeInfo :=
  { id := "row", order := { id := "order", kind := .sell, status := .waitingTakerBond }
    role := .buyer, tradeKeyIndex := 3
    bond := some ⟨.taker, 500, some "lnbc1", .requested, 1000, none, none⟩ }

def bondedTake : OrderState := { orderId := "order", trades := [bondedRow] }

theorem bondedTake_row : TakeRow bondedRow.bond bondedTake := by
  refine ⟨bondedRow, [], rfl, rfl, fun t ht => ?_⟩
  cases ht

/-- A message on the take's key. -/
def onTake (action : Action) (payload : Payload) (createdAt : Int) : Delivery :=
  { bareMessage action createdAt with
    tradeIndex := 3
    msg := { action := action, payload := some payload, createdAt := createdAt } }

/-- Another bolt11 than the row's, dated before it but not stale. -/
def anotherInvoice : Delivery := onTake .payBondInvoice (.paymentRequest none "lnbc2" none) 990

/-- The trade flow goes on: the peer of an invoice to come. -/
def peerOfInvoice : Delivery := onTake .addInvoice (.peer ⟨"maker", none⟩) 1100

/-- The bond is slashed. -/
def slashNotice : Delivery := onTake .bondSlashed (.order { amount := 500 }) 1200

/-- Asked for twice, then locked, then slashed: the bond goes forward only. -/
theorem locked_then_slashed_forward :
    BondNeverFallsBack bareEnv bondedTake [anotherInvoice, peerOfInvoice, slashNotice] ∧
      (run (takeStep bareEnv) bondedTake [anotherInvoice, peerOfInvoice, slashNotice]).map
        (fun s => (bondOf s).map (·.state)) = some (some .slashed) := by
  refine ⟨(bond_never_falls_back_iff bareEnv bondedTake_row _).mpr ?_, by decide⟩
  decide

/-- **A bond past `Requested` is requested again** by another bolt11, whether the trade flow
locked it or the daemon slashed it: the row is in the bond window still. -/
theorem settled_bond_asked_anew :
    ¬BondNeverFallsBack bareEnv bondedTake [peerOfInvoice, anotherInvoice] ∧
      ¬BondNeverFallsBack bareEnv bondedTake [slashNotice, anotherInvoice] := by
  constructor
  · intro hforward
    obtain ⟨x, hx, hle⟩ := hforward [peerOfInvoice] [anotherInvoice] [] _ _ rfl rfl rfl _ rfl
    cases hx
    exact absurd hle (by decide)
  · intro hforward
    obtain ⟨x, hx, hle⟩ := hforward [slashNotice] [anotherInvoice] [] _ _ rfl rfl rfl _ rfl
    cases hx
    exact absurd hle (by decide)

end MostroApp.Orders
