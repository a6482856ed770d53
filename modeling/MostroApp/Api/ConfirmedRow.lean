import MostroApp.Api.Wiped

set_option autoImplicit false

/-! # The one row of a confirmed trade

Once a create or a take is confirmed the order has one row, on the key of the attempt. The file
shows that later messages on that key leave it at one row, or wipe it: none of the paths that
create rows reaches a second one while the store answers and the attempt's own request is no
longer waiting for its confirmation.
-/

namespace MostroApp.Orders

open Pending Status
open Wire (Action)

/-! ## Requests that are waiting -/

/-- The entry of a key stems from the one that was there: it is that one, an edited dispute, or
the create marked as parked on its bond. -/
def EntryStems (key : String) (r r' : Registry) : Prop :=
  ∀ p', r' key = some p' → ∃ p, r key = some p ∧ p'.tradeIndex = p.tradeIndex ∧
    ∀ u b', p'.kind = .create u b' → ∃ b, p.kind = .create u b ∧ (b = true → b' = true)

namespace EntryStems

variable {key : String} {r r' r'' : Registry}

theorem of_entry (h : ∀ p, r' key = some p → r key = some p) : EntryStems key r r' :=
  fun p hp => ⟨p, h p hp, rfl, fun _ b hk => ⟨b, hk, id⟩⟩

theorem refl (r : Registry) : EntryStems key r r := of_entry fun _ h => h

theorem trans (h : EntryStems key r r') (h' : EntryStems key r' r'') : EntryStems key r r'' := by
  intro p'' hp''
  obtain ⟨p', hp', hi', hk'⟩ := h' p'' hp''
  obtain ⟨p, hp, hi, hk⟩ := h p' hp'
  refine ⟨p, hp, hi'.trans hi, fun u b'' he => ?_⟩
  obtain ⟨b', he', hb'⟩ := hk' u b'' he
  obtain ⟨b, hb, hbb⟩ := hk u b' he'
  exact ⟨b, hb, fun hbt => hb' (hbb hbt)⟩

end EntryStems

section Waiting

variable (key : String) (got : Option Nat) (r : Registry)

theorem entryStems_takeMatchingKind (kind : PendingRequestKind) :
    EntryStems key r (takeMatchingKind kind key got r).1 :=
  .of_entry fun _ => takeMatchingKind_entry

theorem entryStems_takeMatchingRequest : EntryStems key r (takeMatchingRequest key got r).1 := by
  refine .of_entry fun p hp => ?_
  unfold takeMatchingRequest at hp
  rw [alter_self] at hp
  cases he : r key with
  | none => simp [he] at hp
  | some q =>
      rw [he] at hp
      dsimp only at hp
      split at hp
      · cases hp
      · exact hp

theorem entryStems_takeMatchingRestore (replyTs : Int) :
    EntryStems key r (takeMatchingRestore key replyTs r).1 := by
  refine .of_entry fun p hp => ?_
  unfold takeMatchingRestore at hp
  rw [alter_self] at hp
  split at hp
  · split at hp
    · cases hp
    · exact hp
  · exact hp

/-- An entry left as it was stems from itself. -/
theorem stems_self {p p' : PendingRequest} (h : some p = some p') :
    ∃ p₀, some p = some p₀ ∧ p'.tradeIndex = p₀.tradeIndex ∧
      ∀ u b', p'.kind = .create u b' → ∃ b, p₀.kind = .create u b ∧ (b = true → b' = true) := by
  obtain rfl := Option.some.inj h
  exact ⟨p, rfl, rfl, fun u b hk => ⟨b, hk, id⟩⟩

theorem entryStems_takeMatchingDispute : EntryStems key r (takeMatchingDispute key got r).1 := by
  intro p' hp'
  unfold takeMatchingDispute at hp'
  rw [alter_self] at hp'
  cases he : r key with
  | none => simp [he] at hp'
  | some p =>
      rw [he] at hp'
      dsimp only at hp'
      split at hp'
      · split at hp'
        · obtain rfl := Option.some.inj hp'
          exact ⟨p, rfl, rfl, fun u b hk => by cases hk⟩
        · split at hp'
          · cases hp'
          · exact stems_self hp'
      · exact stems_self hp'

theorem entryStems_claimCreateBond : EntryStems key r (claimCreateBond key got r).1 := by
  intro p' hp'
  unfold claimCreateBond at hp'
  rw [alter_self] at hp'
  cases he : r key with
  | none => simp [he] at hp'
  | some p =>
      rw [he] at hp'
      dsimp only at hp'
      split at hp'
      · split at hp'
        · next u b hk =>
          obtain rfl := Option.some.inj hp'
          refine ⟨p, rfl, rfl, fun u' b' hk' => ?_⟩
          obtain ⟨rfl, rfl⟩ : u = u' ∧ true = b' := by simpa using hk'
          exact ⟨b, hk, fun _ => rfl⟩
        · exact stems_self hp'
      · exact stems_self hp'

end Waiting

/-! ## The stages and the arms -/

section Stages

variable {env : Env} (d : Delivery) (s : OrderState)

theorem entryStems_answerWaiters :
    EntryStems d.tradePubkey s.pending (answerWaiters d s).pending := by
  have hclaim : EntryStems d.tradePubkey s.pending (answerClaimSubmit d s).pending := by
    unfold answerClaimSubmit
    split
    · exact entryStems_takeMatchingKind _ _ _ _
    · exact .refl _
  have hadd : EntryStems d.tradePubkey s.pending
      (answerAddInvoice d (answerClaimSubmit d s)).pending :=
    hclaim.trans (entryStems_takeMatchingKind _ _ _ _)
  unfold answerWaiters
  split
  · exact .refl _
  · unfold answerDispute
    split
    · have hdis := hadd.trans (entryStems_takeMatchingDispute d.tradePubkey d.msg.requestId
        (answerAddInvoice d (answerClaimSubmit d s)).pending)
      dsimp only
      split <;> exact hdis
    · exact hadd

theorem entryStems_interceptTake {s' : OrderState} (h : interceptTake d s = some s') :
    EntryStems d.tradePubkey s.pending s'.pending := by
  unfold interceptTake at h
  split at h
  · cases h
  · obtain ⟨p, -, rfl⟩ := Option.map_eq_some_iff.mp h
    exact entryStems_takeMatchingKind _ _ _ _

theorem entryStems_cantDoArm : EntryStems d.tradePubkey s.pending (cantDoArm d s).pending := by
  have hrestore := entryStems_takeMatchingRestore d.tradePubkey s.pending d.msg.createdAt
  unfold cantDoArm
  dsimp only
  cases (takeMatchingRestore d.tradePubkey d.msg.createdAt s.pending).2 with
  | none => exact hrestore.trans (entryStems_takeMatchingRequest _ _ _)
  | some p => exact hrestore

theorem entryStems_restoreSessionArm :
    EntryStems d.tradePubkey s.pending (restoreSessionArm d s).pending := by
  unfold restoreSessionArm
  split
  · exact entryStems_takeMatchingRestore _ _ _
  · exact .refl _

theorem entryStems_dispatchUnaddressed :
    EntryStems d.tradePubkey s.pending (dispatchUnaddressed d s).pending := by
  have hwait := entryStems_answerWaiters d s
  unfold dispatchUnaddressed
  split
  · next h => exact entryStems_interceptTake d s h
  · dsimp only
    split
    · exact hwait.trans (entryStems_restoreSessionArm d _)
    · exact hwait.trans (entryStems_cantDoArm d _)
    · exact hwait

end Stages

/-! ## The order once its trade is confirmed -/

/-- The order after a confirmation on key index `i`: its one row is of that key, or was wiped;
what waits on the key is of that index, and no create among it is still to be confirmed. A row
beside a create parked on its bond goes by the order's own id. -/
structure Settled (i : Nat) (key : String) (s : OrderState) : Prop where
  row : (∃ t, s.trades = [t] ∧ t.tradeKeyIndex = i ∧
    (t.id = s.orderId ∨ ∀ p u b, s.pending key = some p → p.kind ≠ .create u b)) ∨ Gone i s
  waiting : ∀ p, s.pending key = some p → p.tradeIndex = i ∧ ∀ u, p.kind ≠ .create u false

/-- A message on that key, of a store that answers. -/
structure Later (i : Nat) (key : String) (d : Delivery) : Prop where
  index : d.tradeIndex = i
  pubkey : d.tradePubkey = key
  rowAnswered : d.rowLookupFails = false
  adoptAnswered : d.adoptLookupFails = false

/-- The row a dispatch holds, where it holds one, is the order's one row. -/
def HoldsRow (row : RowState) (s : OrderState) : Prop :=
  ∀ t, row.trade = some t → s.trades.map rowId = [rowId t]

section Pendings

variable (env : Env) (d : Delivery) (row : RowState) (s : OrderState)

theorem resyncRepublishedMakerOrder_pending :
    (resyncRepublishedMakerOrder d s).1.pending = s.pending := by
  unfold resyncRepublishedMakerOrder
  repeat' split
  all_goals rfl

theorem refreshTakerBond_pending : (refreshTakerBond env d row s).pending = s.pending := by
  unfold refreshTakerBond
  repeat' first | split | dsimp only
  all_goals rfl

theorem slashBond_pending : (slashBond d s).pending = s.pending := by
  unfold slashBond
  repeat' split
  all_goals rfl

end Pendings

section Settling

variable {env : Env} {d : Delivery} {row : RowState} {s s' : OrderState} {i : Nat} {key : String}

theorem Settled.of_stands (h : Settled i key s) (hs : RowsStand s s')
    (hp : EntryStems key s.pending s'.pending) : Settled i key s' := by
  refine ⟨?_, fun p' hp' => ?_⟩
  · rcases h.row with ⟨t, ht, hi, hid⟩ | hgone
    · have hids := hs.ids
      rw [ht] at hids
      obtain ⟨t', ht', he⟩ := List.map_eq_singleton_iff.mp hids
      have hkey : t'.id = t.id ∧ t'.tradeKeyIndex = t.tradeKeyIndex := Prod.mk.inj he
      refine Or.inl ⟨t', ht', hkey.2.trans hi, ?_⟩
      rcases hid with hid | hno
      · exact Or.inl (hkey.1.trans (hid.trans hs.orderId.symm))
      · refine Or.inr fun p' u b hp' hk => ?_
        obtain ⟨p, hp₀, -, hcreate⟩ := hp p' hp'
        obtain ⟨b₀, hb, -⟩ := hcreate u b hk
        exact hno p u b₀ hp₀ hb
    · exact Or.inr (hgone.of_rowsStand hs)
  · obtain ⟨p, hp₀, hi, hcreate⟩ := hp p' hp'
    obtain ⟨hpi, hpk⟩ := h.waiting p hp₀
    refine ⟨hi.trans hpi, fun u hk => ?_⟩
    obtain ⟨b, hb, hbonded⟩ := hcreate u false hk
    cases b with
    | false => exact hpk u hb
    | true => exact absurd (hbonded rfl) nofun

theorem HoldsRow.of_rowsStand (h : HoldsRow row s) (hs : RowsStand s s') : HoldsRow row s' :=
  fun t ht => hs.ids.trans (h t ht)

/-- A completed placeholder keeps its id and key. -/
theorem fillRestoredMakerRow_rowId {t filled : TradeInfo} {so : Wire.SmallOrder}
    {creator : String} {now : Int} (h : fillRestoredMakerRow t so creator now = some filled) :
    rowId filled = rowId t := by
  unfold fillRestoredMakerRow tradeRowFromSmallOrder at h
  cases hk : so.kind with
  | none => simp [hk] at h
  | some kind =>
      simp [hk] at h
      subst h
      rfl

theorem settled_lockMakerBond (h : Settled i key s) (t : TradeInfo) (tradeIndex : Nat)
    (now : Int) : Settled i key (lockMakerBond t tradeIndex now s).1 := by
  refine h.of_stands (taskStages_rowsStand.lockMakerBond t tradeIndex now) ?_
  rw [(taskStages_sameKeys.lockMakerBond t tradeIndex now).pending]
  exact .refl _

/-- Locking the maker's bond completes the one row in place. -/
theorem settled_confirmMakerBond (h : Settled i key s) (hrow : HoldsRow row s) :
    Settled i key (confirmMakerBond d row s).1 := by
  unfold confirmMakerBond
  split
  · exact h
  · next t ht =>
    have hids := hrow t ht
    dsimp only
    split
    · next filled hfilled =>
      have hid : rowId filled = rowId t := by
        split at hfilled
        · obtain ⟨so, -, hso⟩ := Option.bind_eq_some_iff.mp hfilled
          exact fillRestoredMakerRow_rowId hso
        · cases hfilled
      obtain ⟨t', ht', he⟩ := List.map_eq_singleton_iff.mp hids
      have hsame : rowId t' = rowId filled := he.trans hid.symm
      refine settled_lockMakerBond ?_ filled _ _
      have hsave : (s.persistTradeRow filled).trades = [filled] := by
        have hne : t'.id = filled.id := (Prod.mk.inj hsame).1
        simp [TradeInfo.save, ht', hne]
      refine ⟨Or.inl ⟨filled, hsave, ?_, ?_⟩, h.waiting⟩
      · rcases h.row with ⟨t₀, ht₀, hi, -⟩ | ⟨hnil, -⟩
        · obtain rfl : t' = t₀ := List.singleton_injective (ht'.symm.trans ht₀)
          exact (Prod.mk.inj hsame).2.symm.trans hi
        · rw [ht'] at hnil
          cases hnil
      · rcases h.row with ⟨t₀, ht₀, -, hid₀⟩ | ⟨hnil, -⟩
        · obtain rfl : t' = t₀ := List.singleton_injective (ht'.symm.trans ht₀)
          exact hid₀.imp_left fun e => (Prod.mk.inj hsame).1.symm.trans e
        · rw [ht'] at hnil
          cases hnil
    · exact settled_lockMakerBond h t _ _

/-- Nothing is adopted beside the row, or over its tombstone. -/
theorem adoptRangeRemainder_of_settled (h : Settled i key s) (hd : Later i key d) :
    adoptRangeRemainder d s = (s, false) := by
  rcases h.row with ⟨t, ht, -, -⟩ | hgone
  · unfold adoptRangeRemainder
    split
    · rfl
    · simp [hd.adoptAnswered, OrderState.trade, ht]
  · exact adoptRangeRemainder_of_gone hgone hd.index.le hd.adoptAnswered

/-- `new-order` after the confirmation. -/
theorem settled_newOrderArm (h : Settled i key s) (hd : Later i key d) (hrow : HoldsRow row s) :
    Settled i key (newOrderArm d row s) := by
  have hstems := entryStems_takeMatchingRequest d.tradePubkey d.msg.requestId s.pending
  rw [hd.pubkey] at hstems
  unfold newOrderArm
  rw [hd.pubkey]
  dsimp only
  split
  · have hset : Settled i key
        (s.setPending (takeMatchingRequest key d.msg.requestId s.pending).1) :=
      h.of_stands ⟨rfl, rfl, rfl⟩ hstems
    have hhold : HoldsRow row
        (s.setPending (takeMatchingRequest key d.msg.requestId s.pending).1) :=
      hrow
    generalize s.setPending (takeMatchingRequest key d.msg.requestId s.pending).1 = s₁ at *
    have hbond := settled_confirmMakerBond (d := d) hset hhold
    unfold uncorrelatedNewOrder
    dsimp only
    split
    · exact hbond
    · rw [adoptRangeRemainder_of_settled hbond hd]
      split
      · exact hbond
      · refine hbond.of_stands (rowsStand_resyncRepublishedMakerOrder d _) ?_
        rw [resyncRepublishedMakerOrder_pending]
        exact .refl _
  · next p hp =>
    have hset : Settled i key ((s.setPending (takeMatchingRequest key d.msg.requestId
      s.pending).1).storeTradeKeyIndex p.tradeIndex) := h.of_stands ⟨rfl, rfl, rfl⟩ hstems
    split
    · exact settled_confirmMakerBond hset hrow
    · next u hk => exact absurd hk ((h.waiting p (takeMatchingRequest_some hp).1).2 u)
    · exact hset

/-- What a claimed bond reply was waiting as. -/
theorem claimCreateBond_some {got : Option Nat} {r : Registry} {claim : CreateBondClaim}
    (h : (claimCreateBond key got r).2 = some claim) :
    ∃ p u b, r key = some p ∧ p.kind = .create u b ∧ claim.tradeIndex = p.tradeIndex := by
  unfold claimCreateBond at h
  rw [alter_snd] at h
  cases he : r key with
  | none => simp [he] at h
  | some p =>
      rw [he] at h
      dsimp only at h
      split at h
      · split at h
        · next u b hk =>
          obtain rfl := Option.some.inj h
          exact ⟨p, u, b, rfl, hk, rfl⟩
        · cases h
      · cases h

/-- The row of a late bond goes by the order's own id and the claimed key. -/
theorem lateBondRow_rowId {orderId : String} {tradeIndex : Nat} {so : Wire.SmallOrder}
    {request : BondRequest} {t : TradeInfo}
    (h : lateBondRow env d orderId tradeIndex so request = some t) :
    rowId t = (orderId, tradeIndex) := by
  unfold lateBondRow tradeRowFromSmallOrder at h
  cases hk : so.kind with
  | none => simp [hk] at h
  | some kind =>
      simp [hk] at h
      subst h
      rfl

/-- `pay-bond-invoice` after the confirmation: a bond asked for again takes the place of the row
that waits for it. -/
theorem settled_payBondInvoiceArm (h : Settled i key s) (hd : Later i key d) :
    Settled i key (payBondInvoiceArm env d row s) := by
  have hstems := entryStems_claimCreateBond d.tradePubkey d.msg.requestId s.pending
  rw [hd.pubkey] at hstems
  have hset : Settled i key (s.setPending (claimCreateBond key d.msg.requestId s.pending).1) :=
    h.of_stands ⟨rfl, rfl, rfl⟩ hstems
  unfold payBondInvoiceArm
  rw [hd.pubkey]
  dsimp only
  split
  · next claim hclaim =>
    obtain ⟨p, u, b, hp, hk, hindex⟩ := claimCreateBond_some hclaim
    have hi : claim.tradeIndex = i := hindex.trans (h.waiting p hp).1
    unfold handleCreateBondReply
    split
    · dsimp only
      split
      · exact ⟨hset.row, hset.waiting⟩
      · split
        · next t ht =>
          obtain ⟨so, -, ht⟩ := Option.bind_eq_some_iff.mp ht
          have hid := Prod.mk.inj (lateBondRow_rowId ht)
          refine ⟨Or.inl ⟨t, ?_, hid.2.trans hi, Or.inl hid.1⟩, hset.waiting⟩
          rcases h.row with ⟨t₀, ht₀, -, hid₀⟩ | ⟨hnil, -⟩
          · have hown : t₀.id = s.orderId := hid₀.resolve_right fun hno => hno p u b hp hk
            have hsame : t₀.id = t.id := hown.trans hid.1.symm
            simp [TradeInfo.save, ht₀, hsame]
          · simp [TradeInfo.save, hnil]
        · exact ⟨hset.row, hset.waiting⟩
    · exact hset
  · refine hset.of_stands (sameRows_refreshTakerBond env d row _).rowsStand ?_
    rw [refreshTakerBond_pending]
    exact .refl _

/-- The status arms after the confirmation. -/
theorem settled_statusArms (h : Settled i key s) (hrow : HoldsRow row s)
    (ha : isStatusArm d.msg.action = true) : Settled i key (arm env d row s) := by
  have hpending := (sameKeys_arm env d row s ha).pending
  have hother : d.msg.action ≠ .newOrder ∧ d.msg.action ≠ .payBondInvoice := by
    constructor <;> (intro e; rw [e] at ha; cases ha)
  rcases arm_rows env row (s := s) hother.1 (fun e => absurd e hother.2)
    with hstand | ⟨t, ht, hnil, hw⟩
  · refine h.of_stands hstand ?_
    rw [hpending]
    exact .refl _
  · refine ⟨Or.inr ⟨hnil, d.msg.createdAt, ?_⟩, fun p hp => h.waiting p (hpending ▸ hp)⟩
    obtain ⟨t', ht', he⟩ := List.map_eq_singleton_iff.mp (hrow t (by rw [ht]; rfl))
    rcases h.row with ⟨t₀, ht₀, hi, -⟩ | ⟨hempty, -⟩
    · obtain rfl : t' = t₀ := List.singleton_injective (ht'.symm.trans ht₀)
      rw [hw, ← (Prod.mk.inj he).2, hi]
    · rw [ht'] at hempty
      cases hempty

/-- Every arm after the confirmation. -/
theorem settled_arm (h : Settled i key s) (hd : Later i key d) (hrow : HoldsRow row s) :
    Settled i key (arm env d row s) := by
  have hsame : ∀ {s'}, SameRows s s' → EntryStems d.tradePubkey s.pending s'.pending →
      Settled i key s' := by
    intro s' hs hp
    rw [hd.pubkey] at hp
    exact h.of_stands hs.rowsStand hp
  by_cases harm : isStatusArm d.msg.action = true
  · exact settled_statusArms h hrow harm
  · unfold arm
    cases hact : d.msg.action <;> rw [hact] at harm <;>
      first
      | exact absurd rfl harm
      | exact h
      | exact settled_newOrderArm h hd hrow
      | exact settled_payBondInvoiceArm h hd
      | exact hsame (sameRows_restoreSessionArm d s) (entryStems_restoreSessionArm d s)
      | exact hsame (sameRows_cantDoArm d s) (entryStems_cantDoArm d s)
      | exact hsame (sameRows_slashBond d s) (by rw [slashBond_pending]; exact .refl _)

/-- What the store answers about a settled order's row: the one row, or its wipe. -/
theorem tradeRowState_of_settled (h : Settled i key s) (hd : Later i key d) :
    (∃ t, s.trades = [t] ∧ s.tradeRowState d.rowLookupFails d.tradeIndex = .existing t) ∨
      s.tradeRowState d.rowLookupFails d.tradeIndex = .wiped := by
  rw [hd.rowAnswered, hd.index]
  rcases h.row with ⟨t, ht, -, -⟩ | ⟨hnil, w, hw⟩
  · have htrade : s.trade = some t := by simp [OrderState.trade, ht]
    exact Or.inl ⟨t, ht, tradeRowState_of_trade false htrade⟩
  · refine Or.inr (tradeRowState_wiped false hnil hw ?_)
    simp [Tombstone.covers]

/-- **A later message on the key** leaves the order settled. -/
theorem settled_dispatch (h : Settled i key s) (hd : Later i key d) :
    Settled i key (dispatchMostroMessage env d s) := by
  have hstep : ∀ {s₁ s₂}, Settled i key s₁ → SameRows s₁ s₂ →
      EntryStems d.tradePubkey s₁.pending s₂.pending → Settled i key s₂ := by
    intro s₁ s₂ h₁ hs hp
    rw [hd.pubkey] at hp
    exact h₁.of_stands hs.rowsStand hp
  have hrec : Settled i key (reconcileStoredId d s) :=
    hstep h (sameRows_reconcileStoredId d s) (by rw [reconcileStoredId_pending]; exact .refl _)
  have hstate := tradeRowState_of_settled hrec hd
  generalize hrow : (reconcileStoredId d s).tradeRowState d.rowLookupFails d.tradeIndex = row
    at hstate
  have hhold : HoldsRow row (reconcileStoredId d s) := by
    intro t ht
    rcases hstate with ⟨t', ht', rfl⟩ | rfl
    · obtain rfl : t' = t := Option.some.inj ht
      rw [ht']
      rfl
    · cases ht
  have hcap := sameRows_capturePeer env d row (reconcileStoredId d s)
  have hcapPending : EntryStems d.tradePubkey (reconcileStoredId d s).pending
      (capturePeer env d row (reconcileStoredId d s)).pending := by
    rw [(sameKeys_capturePeer env d row (reconcileStoredId d s)).pending]
    exact .refl _
  have hcaptured := hstep hrec hcap hcapPending
  refine dispatch_cases (motive := Settled i key) env hrow
    (fun _ => hstep h (sameRows_dispatchUnaddressed d s) (entryStems_dispatchUnaddressed d s))
    (fun _ => h) ?_ ?_
  · exact fun _ s' hs' =>
      hstep hcaptured (sameRows_interceptTake d _ hs') (entryStems_interceptTake d _ hs')
  · intro _ _ _ r hr
    have hwait := sameRows_answerWaiters d (capturePeer env d row (reconcileStoredId d s))
    have hwaited := hstep hcaptured hwait (entryStems_answerWaiters d _)
    have hrebuild : ∀ s', rebuildIfNeverWritten d row s' = (s', row) := by
      intro s'
      rcases hstate with ⟨t', -, rfl⟩ | rfl <;> rfl
    rw [hrebuild] at hr
    rw [← hr]
    exact settled_arm hwaited hd (hhold.of_rowsStand (hcap.trans hwait).rowsStand)

/-- Any number of later messages. -/
theorem settled_dispatchAll (env : Env) {ds : List Delivery} (h : Settled i key s)
    (hds : ∀ d ∈ ds, Later i key d) : Settled i key (dispatchAll env s ds) := by
  induction ds generalizing s with
  | nil => exact h
  | cons d ds ih =>
      have hd := hds d (List.mem_cons_self ..)
      exact ih (settled_dispatch h hd) fun d' hd' => hds d' (List.mem_cons_of_mem d hd')

end Settling

end MostroApp.Orders
