import MostroApp.Api.PublicEvents

set_option autoImplicit false

/-! # What becomes of a finished trade

A row in a hard-terminal status has two independent writers left: the dispatcher, which lets an
admin verdict refine the plain terminal the public book wrote and nothing else, and the public
handlers, for which a terminal event may replace any status. The first is proved absorbing over
every message; the second makes the exact condition of the run: every public write repeats the
status the row has.
-/

namespace MostroApp.Orders

open Pending Status Interleaving Transition
open Wire (Action)

/-! ## Messages over a finished trade -/

/-- The message answers a pending create of its key: the order is (re)created by it. -/
def confirmsCreate (d : Delivery) (s : OrderState) : Bool :=
  (d.msg.action = .newOrder ∨ d.msg.action = .payBondInvoice) &&
    (s.pending d.tradePubkey).any fun p => requestIdMatches p.requestId d.msg.requestId &&
      match p.kind with
      | .create _ _ => true
      | _ => false

section Dispatch

variable {env : Env} {d : Delivery} {row : RowState} {s : OrderState}

/-- Answering the caller of a claim leaves the entry that was there. -/
theorem answerClaimSubmit_entry {p : PendingRequest}
    (hp : (answerClaimSubmit d s).pending d.tradePubkey = some p) :
    s.pending d.tradePubkey = some p := by
  unfold answerClaimSubmit at hp
  split at hp
  · exact takeMatchingKind_entry hp
  · exact hp

/-- A request that is a create after the callers were answered was the pending one before. -/
theorem answerWaiters_create {p : PendingRequest} {localUuid : String} {bonded : Bool}
    (hp : (answerWaiters d s).pending d.tradePubkey = some p)
    (hk : p.kind = .create localUuid bonded) : s.pending d.tradePubkey = some p := by
  have hadd : ∀ p, (answerAddInvoice d (answerClaimSubmit d s)).pending d.tradePubkey = some p →
      s.pending d.tradePubkey = some p :=
    fun p hp => answerClaimSubmit_entry (takeMatchingKind_entry hp)
  have hdis : ∀ p, (takeMatchingDispute d.tradePubkey d.msg.requestId
      (answerAddInvoice d (answerClaimSubmit d s)).pending).1 d.tradePubkey = some p →
      p.kind = .create localUuid bonded → s.pending d.tradePubkey = some p := by
    intro p hp hk
    rcases takeMatchingDispute_kind hp with hp | ⟨l, hl⟩
    · exact hadd p hp
    · rw [hl] at hk
      cases hk
  unfold answerWaiters answerDispute at hp
  split at hp
  · exact hp
  · split at hp
    · dsimp only at hp
      split at hp
      · exact hdis p hp hk
      · exact hdis p hp hk
    · exact hadd p hp

/-- No create is left waiting when the arm asks. -/
theorem no_create_waiting (env : Env) (row : RowState) (hc : confirmsCreate d s = false)
    (hact : d.msg.action = .newOrder ∨ d.msg.action = .payBondInvoice) (p : PendingRequest)
    (u : String) (b : Bool)
    (hp : (answerWaiters d (capturePeer env d row (reconcileStoredId d s))).pending d.tradePubkey =
      some p) (hm : requestIdMatches p.requestId d.msg.requestId = true) :
    p.kind ≠ .create u b := by
  intro hk
  have hp₀ := answerWaiters_create hp hk
  rw [(sameKeys_capturePeer env d row _).pending, reconcileStoredId_pending] at hp₀
  simp [confirmsCreate, hact, hp₀, hm, hk] at hc

/-- What a `new-order` takes off the registry is the request it echoes. -/
theorem takeMatchingRequest_some {key : String} {got : Option Nat} {r : Registry}
    {p : PendingRequest} (h : (takeMatchingRequest key got r).2 = some p) :
    r key = some p ∧ requestIdMatches p.requestId got = true := by
  unfold takeMatchingRequest at h
  rw [alter_snd] at h
  cases he : r key with
  | none =>
      rw [he] at h
      cases h
  | some q =>
      rw [he] at h
      dsimp only at h
      split at h
      · next hm =>
          obtain rfl := Option.some.inj h
          exact ⟨rfl, hm⟩
      · cases h

/-- No maker bond is left to lock. -/
theorem confirmMakerBond_of_status (d : Delivery) {row : RowState}
    (h : ∀ t, row.trade = some t → t.order.status ≠ .waitingMakerBond) :
    confirmMakerBond d row s = (s, false) := by
  unfold confirmMakerBond
  cases ht : row.trade with
  | none => rfl
  | some t =>
      have hst := h t ht
      have hnot : isRestoredMakerPlaceholder t = false := by
        simp [isRestoredMakerPlaceholder, hst]
      simp [hnot, lockMakerBond, hst]

/-- A blocked message adopts no remainder. -/
theorem adoptRangeRemainder_of_blocked
    (h : s.statusWriteBlocked d.msg.action d.msg.createdAt = true) :
    adoptRangeRemainder d s = (s, false) := by
  unfold adoptRangeRemainder
  split
  · rfl
  · simp [h]

/-- A blocked message republishes nothing. -/
theorem resyncRepublishedMakerOrder_of_blocked
    (h : s.statusWriteBlocked d.msg.action d.msg.createdAt = true) :
    resyncRepublishedMakerOrder d s = (s, false) := by
  unfold resyncRepublishedMakerOrder
  simp [h]

/-- The order's row has the hard-terminal status `status`. -/
structure Finished (status : OrderStatus) (s : OrderState) : Prop where
  row : s.rowStatus = some status
  ended : isHardTerminal status = true

variable {status : OrderStatus}

theorem Finished.of_sameRows {s' : OrderState} (h : Finished status s) (hs : SameRows s s') :
    Finished status s' :=
  ⟨hs.rowStatus.trans h.row, h.ended⟩

/-- Every message is blocked but the verdict that refines the status. -/
theorem Finished.blocked (h : Finished status s) {a : Action}
    (ha : adminVerdictRefines status a = false)
    (ts : Int) : s.statusWriteBlocked a ts = true := by
  have hlocal : s.currentLocalStatus = some status := by
    simp [OrderState.currentLocalStatus, OrderState.localTradeStatus, h.row]
  simp [OrderState.statusWriteBlocked, OrderState.statusSyncBlockedByTerminal, hlocal, ha, h.ended]

/-- `new-order` over a finished trade. -/
theorem sameRows_newOrderArm_of_finished (h : Finished status s) (hrow : RowMatches row s)
    (ha : d.msg.action = .newOrder)
    (hc : ∀ p u b, s.pending d.tradePubkey = some p → requestIdMatches p.requestId d.msg.requestId →
      p.kind ≠ .create u b) :
    SameRows s (newOrderArm d row s) := by
  have hstatus : ∀ t, row.trade = some t → t.order.status ≠ .waitingMakerBond := by
    intro t ht e
    have := hrow t ht
    rw [h.row, e, Option.some.injEq] at this
    rw [this] at h
    exact absurd h.ended (by decide)
  have hrefine : adminVerdictRefines status d.msg.action = false := by
    rw [ha]
    cases status <;> rfl
  unfold newOrderArm
  dsimp only
  split
  · -- nothing pending: no bond to lock, and the message is blocked
    next hnone =>
    have hs : SameRows s (s.setPending (takeMatchingRequest d.tradePubkey d.msg.requestId
      s.pending).1) := ⟨rfl, rfl, rfl, rfl, rfl⟩
    have hb := (h.of_sameRows hs).blocked hrefine d.msg.createdAt
    unfold uncorrelatedNewOrder
    simp only [confirmMakerBond_of_status d hstatus, adoptRangeRemainder_of_blocked hb,
      resyncRepublishedMakerOrder_of_blocked hb, Bool.false_eq_true, false_or, ite_self]
    exact hs
  · next p hp =>
    obtain ⟨hentry, hm⟩ := takeMatchingRequest_some hp
    split
    · next u hk => exact absurd hk (hc p u true hentry hm)
    · next u hk => exact absurd hk (hc p u false hentry hm)
    · exact ⟨rfl, rfl, rfl, rfl, rfl⟩

/-- `pay-bond-invoice`, when no create is waiting for it, at most refreshes the bolt11. -/
theorem payBondInvoiceArm_of_noCreate
    (hc : ∀ p u b, s.pending d.tradePubkey = some p → requestIdMatches p.requestId d.msg.requestId →
      p.kind ≠ .create u b) :
    payBondInvoiceArm env d row s = refreshTakerBond env d row
      (s.setPending (claimCreateBond d.tradePubkey d.msg.requestId s.pending).1) := by
  have hnone : (claimCreateBond d.tradePubkey d.msg.requestId s.pending).2 = none := by
    unfold claimCreateBond
    rw [alter_snd]
    cases he : s.pending d.tradePubkey with
    | none => rfl
    | some p =>
        dsimp only
        split
        · next hm =>
          split
          · next u b hk => exact absurd hk (hc p u b he hm)
          · rfl
        · rfl
  unfold payBondInvoiceArm
  simp only [hnone]

theorem sameRows_payBondInvoiceArm
    (hc : ∀ p u b, s.pending d.tradePubkey = some p → requestIdMatches p.requestId d.msg.requestId →
      p.kind ≠ .create u b) :
    SameRows s (payBondInvoiceArm env d row s) := by
  rw [payBondInvoiceArm_of_noCreate hc]
  have hset : SameRows s (s.setPending (claimCreateBond d.tradePubkey d.msg.requestId
    s.pending).1) := ⟨rfl, rfl, rfl, rfl, rfl⟩
  exact hset.trans (sameRows_refreshTakerBond env d row _)

/-- The verdict that refines a finished trade writes its own status. -/
theorem rowStatus_statusArm_of_refines {verdict : OrderStatus} (h : Finished status s)
    (hrow : RowMatches row s) (hto : statusForAction d.msg.action = some verdict)
    (hgate : statusArmGate row = false)
    (hb : s.statusWriteBlocked d.msg.action d.msg.createdAt = false) :
    (statusArm d row s).rowStatus = some verdict := by
  unfold statusArm
  simp only [hgate, hto, hb, Bool.false_eq_true, if_false]
  have hnote : SameRows (s.recordStatusEvent d.msg.createdAt d.now)
      (if (isHardTerminal verdict || decide (verdict = .settledHoldInvoice)) = true then
        noteBondReleased row (s.recordStatusEvent d.msg.createdAt d.now)
      else noteBondLocked row d.now (s.recordStatusEvent d.msg.createdAt d.now)) := by
    split
    · exact sameRows_noteBondReleased row _
    · exact sameRows_noteBondLocked row _ d.now
  have hrow' : RowMatches row (s.recordStatusEvent d.msg.createdAt d.now) := hrow
  have hread := hrow'.of_sameRows hnote
  have hst := hnote.rowStatus
  generalize (if (isHardTerminal verdict || decide (verdict = .settledHoldInvoice)) = true then
      noteBondReleased row (s.recordStatusEvent d.msg.createdAt d.now)
    else noteBondLocked row d.now (s.recordStatusEvent d.msg.createdAt d.now)) = s₁ at hread hst ⊢
  have hsync : (syncAndEmit row verdict none none d.msg.createdAt
      (s₁.updateOrderStatus verdict)).rowStatus =
      some verdict := by
    have hread' : RowMatches row (s₁.updateOrderStatus verdict) := hread
    rw [syncAndEmit_rowStatus _ _ _ _ _ _ hread']
    show s₁.rowStatus.map _ = _
    rw [hst]
    show s.rowStatus.map _ = _
    rw [h.row]
    rfl
  split
  · exact hsync
  · exact hsync

/-- **A message over a finished trade** keeps its status, or is the admin verdict that refines
it. -/
theorem dispatch_of_finished (env : Env) (h : Finished status s) (hc : confirmsCreate d s = false) :
    (dispatchMostroMessage env d s).rowStatus = some status ∨
      adminVerdictRefines status d.msg.action = true ∧
        (dispatchMostroMessage env d s).rowStatus = statusForAction d.msg.action := by
  have keeps : ∀ {s'}, SameRows s s' → s'.rowStatus = some status := fun hs =>
    hs.rowStatus.trans h.row
  obtain ⟨t, ht, -⟩ := Option.map_eq_some_iff.mp h.row
  have hcap := (sameRows_reconcileStoredId d s).trans
    (sameRows_capturePeer env d (rowRead d t) (reconcileStoredId d s))
  refine dispatch_over_row (motive := fun s' => s'.rowStatus = some status ∨
    adminVerdictRefines status d.msg.action = true ∧
      s'.rowStatus = statusForAction d.msg.action) env ht ?_ ?_ ?_ ?_
  · exact fun _ => .inl (keeps (sameRows_dispatchUnaddressed d s))
  · exact fun _ => .inl h.row
  · exact fun _ s' hs' => .inl (keeps (hcap.trans (sameRows_interceptTake d _ hs')))
  · intro _ _ _
    have hpro := sameRows_prologue env d (rowRead d t) s
    have hreads := rowMatches_rowRead (d := d) ht hpro
    have hcreate := no_create_waiting env (rowRead d t) hc
    generalize answerWaiters d (capturePeer env d (rowRead d t) (reconcileStoredId d s)) = s₁ at *
    have hfin := h.of_sameRows hpro
    by_cases harm : isStatusArm d.msg.action = true
    · cases hb : s₁.statusWriteBlocked d.msg.action d.msg.createdAt with
      | true => exact Or.inl (keeps (hpro.trans (sameRows_arm_of_blocked harm hb)))
      | false =>
          have href : adminVerdictRefines status d.msg.action = true := by
            by_contra hn
            rw [hfin.blocked (Bool.eq_false_iff.mpr hn)] at hb
            cases hb
          have hgate : statusArmGate (rowRead d t) = false := by
            unfold rowRead
            cases d.rowLookupFails <;> rfl
          obtain ⟨verdict, hv, harm'⟩ : ∃ verdict, statusForAction d.msg.action = some verdict ∧
              arm env d (rowRead d t) s₁ = statusArm d (rowRead d t) s₁ := by
            rcases adminVerdictRefines_status href with ⟨-, ha⟩ | ⟨-, ha⟩
            · exact ⟨_, by rw [ha]; rfl, by unfold arm; rw [ha]⟩
            · exact ⟨_, by rw [ha]; rfl, by unfold arm; rw [ha]⟩
          refine Or.inr ⟨href, ?_⟩
          rw [harm', hv]
          exact rowStatus_statusArm_of_refines hfin hreads hv hgate hb
    · left
      refine keeps (hpro.trans ?_)
      unfold arm
      cases ha : d.msg.action <;> rw [ha] at harm hcreate <;>
        first
        | exact absurd rfl harm
        | exact .refl _
        | exact sameRows_newOrderArm_of_finished hfin hreads ha (hcreate (Or.inl rfl))
        | exact sameRows_payBondInvoiceArm (hcreate (Or.inr rfl))
        | exact sameRows_restoreSessionArm d _
        | exact sameRows_cantDoArm d _
        | exact sameRows_slashBond d _

end Dispatch

/-! ## Public events over a finished trade -/

/-- Where the handler of a public event can stand while the trade is finished: past its read of
the row only with a terminal status, and never in a wipe. -/
def Task.overFinished : Task → Bool
  | .readRow _ o | .writeRow _ o _ => isTerminalStatus o.status
  | .received _ _ | .refresh _ | .publicCancel _ _ | .forgetFinal _ | .readRowStatus _ _
  | .bookForget _ _ | .bookOurs _ _ | .enter _ _ _ _ => true
  | _ => false

section Handlers

variable {w : Oracle} {p : Task} {s : OrderState} {status : OrderStatus}

theorem afterPublicCancel_overFinished (f : Feed) (o : OrderInfo) :
    (afterPublicCancel f o).overFinished = true := by
  unfold afterPublicCancel
  cases f
  · dsimp only
    split <;> rfl
  · rfl

/-- Over a finished trade only a terminal status is decided on. -/
theorem afterLocalStatus_overFinished (h : isHardTerminal status = true) (f : Feed)
    (o : OrderInfo) :
    (afterLocalStatus f o (some status)).overFinished = true := by
  have hne : status ≠ .pending := fun e => by
    rw [e] at h
    cases h
  unfold afterLocalStatus
  dsimp only
  split
  · next hc =>
      have := hc.1
      rwa [wireStatusApplies_some hne] at this
  · cases f <;> rfl

/-- A handler stays where it can stand. -/
theorem step_overFinished (h : Finished status s) (hp : p.overFinished = true) {q : Task}
    (hq : (p.step w s).2 = some q) : q.overFinished = true := by
  cases p with
  | received f o => cases f <;> (cases hq; rfl)
  | refresh o =>
      obtain rfl := Option.some.inj hq
      split <;> rfl
  | publicCancel f o =>
      simp only [Task.step] at hq
      split at hq
      · next t ht =>
          have hst : t.order.status = status := by
            have := h.row
            simpa [OrderState.rowStatus, ht] using this
          have hkeep := not_cancellationWipesHistory_of_isHardTerminal h.ended
          rw [if_neg (by simp [hst, hkeep])] at hq
          obtain rfl := Option.some.inj hq
          exact afterPublicCancel_overFinished f o
      · obtain rfl := Option.some.inj hq
        exact afterPublicCancel_overFinished f o
  | forgetFinal o => cases hq; rfl
  | readRowStatus f o =>
      simp only [Task.step, h.row] at hq
      obtain rfl := Option.some.inj hq
      exact afterLocalStatus_overFinished h.ended f o
  | readRow f o => cases hq; exact hp
  | writeRow f o row => cases f <;> (cases hq; rfl)
  | bookForget view o => cases hq; rfl
  | bookOurs view o => cases hq; rfl
  | enter f view o ours => cases hq
  | _ => cases hp

/-- What a public handler's row write leaves. -/
theorem rowStatus_sync (row : Option TradeInfo) (o : OrderInfo) :
    ((s.syncTradeFieldsIfChanged row (some o.status) none o.amountSats).1).rowStatus =
      if row.all (OrderState.fieldsDiffer · (some o.status) none o.amountSats) = true then
        s.rowStatus.map fun _ => o.status
      else s.rowStatus := by
  unfold OrderState.syncTradeFieldsIfChanged
  split
  · unfold OrderState.rowStatus OrderState.trade
    cases hs : s.trades with
    | nil => simp [OrderState.updateTradeFields, hs]
    | cons t ts => simp [OrderState.updateTradeFields, hs, TradeInfo.setFields]
  · rfl

/-- Every other step leaves the rows. -/
theorem step_trades (hp : p.overFinished = true) (hw : ∀ f o row, p ≠ .writeRow f o row)
    (h : Finished status s) : (p.step w s).1.rowStatus = some status := by
  rw [← h.row]
  cases p with
  | received f o => cases f <;> rfl
  | publicCancel f o =>
      simp only [Task.step]
      split
      · split <;> rfl
      · rfl
  | bookForget view o =>
      simp only [Task.step]
      split <;> rfl
  | enter f view o ours =>
      simp only [Task.step, OrderState.applyIngestedOrder]
      split <;> rfl
  | writeRow f o row => exact absurd rfl (hw f o row)
  | refresh o => rfl
  | forgetFinal o => rfl
  | readRowStatus f o => rfl
  | readRow f o => rfl
  | bookOurs view o => rfl
  | _ => cases hp

end Handlers

/-! ## Runs over a finished trade -/

/-- Messages and public events of an order, while none of the messages confirms a create. -/
def afterEnd (env : Env) : Prog OrderState Task Oracle Delivery where
  enter := Task.isReceived
  tstep w p s := some (p.step w s)
  act d s := if confirmsCreate d s then none else some (dispatchMostroMessage env d s)

/-- An order whose row is in a hard-terminal status. -/
structure FinishedTrade where
  s : OrderState
  status : OrderStatus
  finished : Finished status s

/-- The step keeps the row's status, or is a message that refines it. -/
def KeepsOutcome (env : Env) (c : Pool OrderState Task) (l : Label Task Oracle Delivery) : Prop :=
  ∀ c', (afterEnd env).next c l = some c' → c'.shared.rowStatus = c.shared.rowStatus ∨
    ∃ d status, l = .env d ∧ c.shared.rowStatus = some status ∧
      adminVerdictRefines status d.msg.action = true ∧
        c'.shared.rowStatus = statusForAction d.msg.action

/-- A handler that stands before its row write, over a row it read with other fields than the
event's, carries the status the trade ended in. -/
def CarriesOutcome (c : Pool OrderState Task) (l : Label Task Oracle Delivery) : Prop :=
  ∀ i w f o row, l = .step i w → c.threads i = some (.writeRow f o row) →
    row.all (OrderState.fieldsDiffer · (some o.status) none o.amountSats) = true →
      c.shared.rowStatus = some o.status

/-- The trade is finished and every handler stands where it can. -/
structure OverFinished (c : Pool OrderState Task) : Prop where
  finished : ∃ status, Finished status c.shared
  threads : ∀ i p, c.threads i = some p → p.overFinished = true

/-- Under that invariant the two step conditions are one. -/
theorem keepsOutcome_iff (env : Env) {c : Pool OrderState Task} (hc : OverFinished c)
    (l : Label Task Oracle Delivery) : KeepsOutcome env c l ↔ CarriesOutcome c l := by
  obtain ⟨status, hfin⟩ := hc.finished
  cases l with
  | spawn i p =>
      refine iff_of_true (fun c' hn => ?_) (fun j w f o row hl => by cases hl)
      obtain ⟨-, -, rfl⟩ := Prog.next_spawn.mp hn
      exact Or.inl rfl
  | env d =>
      refine iff_of_true (fun c' hn => ?_) (fun j w f o row hl => by cases hl)
      obtain ⟨s, hs, rfl⟩ := Prog.next_env.mp hn
      simp only [afterEnd] at hs
      split at hs
      · cases hs
      · next hcr =>
          obtain rfl := Option.some.inj hs
          rcases dispatch_of_finished env hfin (Bool.eq_false_iff.mpr hcr) with h | ⟨h, h'⟩
          · exact Or.inl (h.trans hfin.row.symm)
          · exact Or.inr ⟨d, status, rfl, hfin.row, h, h'⟩
  | step i w =>
      constructor
      · intro h j w' f o row hl hp hsync
        obtain ⟨rfl, rfl⟩ : i = j ∧ w = w' := by
          cases hl
          exact ⟨rfl, rfl⟩
        have hw := rowStatus_sync (s := c.shared) row o
        rw [if_pos hsync, hfin.row] at hw
        have hstep : (afterEnd env).tstep w (.writeRow f o row) c.shared =
            some ((Task.writeRow f o row).step w c.shared) := rfl
        rcases h _ (Prog.next_step.mpr ⟨_, _, _, hp, hstep, rfl⟩) with h | ⟨d, -, hl, -⟩
        · rw [← h]
          exact hw
        · cases hl
      · intro h c' hn
        obtain ⟨p, s, q, hp, hs, rfl⟩ := Prog.next_step.mp hn
        have hstep : p.step w c.shared = (s, q) := Option.some.inj hs
        left
        obtain rfl : (p.step w c.shared).1 = s := congrArg Prod.fst hstep
        by_cases hw : ∃ f o row, p = .writeRow f o row
        · obtain ⟨f, o, row, rfl⟩ := hw
          show (c.shared.syncTradeFieldsIfChanged row _ _ _).1.rowStatus = _
          rw [rowStatus_sync]
          split
          · next hsync =>
              have hrow := h i w f o row rfl hp hsync
              rw [hrow]
              rfl
          · rfl
        · rw [step_trades (hc.threads i p hp) (fun f o row e => hw ⟨f, o, row, e⟩) hfin, hfin.row]

/-- A step that keeps the outcome keeps the invariant. -/
theorem overFinished_step (env : Env) (c : Pool OrderState Task) (l : Label Task Oracle Delivery)
    (c' : Pool OrderState Task) (hc : OverFinished c) (hk : KeepsOutcome env c l)
    (hn : (afterEnd env).next c l = some c') : OverFinished c' := by
  obtain ⟨status, hfin⟩ := hc.finished
  have hfin' : ∃ status, Finished status c'.shared := by
    rcases hk c' hn with h | ⟨d, status', -, hs, href, h⟩
    · exact ⟨status, h.trans hfin.row, hfin.ended⟩
    · rcases adminVerdictRefines_status href with ⟨-, ha⟩ | ⟨-, ha⟩
      · exact ⟨.canceledByAdmin, by rw [h, ha]; rfl, rfl⟩
      · exact ⟨.settledByAdmin, by rw [h, ha]; rfl, rfl⟩
  refine ⟨hfin', fun j r hr => ?_⟩
  cases l with
  | spawn i p =>
      obtain ⟨hp, -, rfl⟩ := Prog.next_spawn.mp hn
      rcases threads_update hr with ⟨-, hq⟩ | ⟨-, hold⟩
      · obtain rfl := Option.some.inj hq
        cases p <;> first | rfl | cases hp
      · exact hc.threads j r hold
  | step i w =>
      obtain ⟨p, s, q, hp, hs, rfl⟩ := Prog.next_step.mp hn
      have hstep : p.step w c.shared = (s, q) := Option.some.inj hs
      rcases threads_update hr with ⟨-, hq⟩ | ⟨-, hold⟩
      · exact step_overFinished hfin (hc.threads i p hp) ((congrArg Prod.snd hstep).trans hq)
      · exact hc.threads j r hold
  | env d =>
      obtain ⟨s, -, rfl⟩ := Prog.next_env.mp hn
      exact hc.threads j r hr

/-- **Hard-terminal statuses are absorbing** in exactly the runs in which no public handler
carries another status to a row it is about to write. -/
theorem outcome_kept_iff (env : Env) (x : FinishedTrade) (ls : List (Label Task Oracle Delivery)) :
    Along (afterEnd env).next (KeepsOutcome env) (.idle x.s) ls ↔
      Along (afterEnd env).next CarriesOutcome (.idle x.s) ls := by
  have h0 : OverFinished (.idle x.s) := ⟨⟨x.status, x.finished⟩, fun i p hp => by cases hp⟩
  exact along_iff (overFinished_step env) (fun _ l hc => keepsOutcome_iff env hc l) h0

/-! ## A finer outcome, coarsened -/

/-- An order whose two parties agreed to cancel. -/
def agreedCancel : OrderState :=
  { orderId := "order"
    trades := [{ id := "order", order := { id := "order", kind := .buy
                                           status := .cooperativelyCanceled }
                 role := .seller, tradeKeyIndex := 1 }] }

/-- The public event the daemon publishes of it. -/
def canceledEvent : OrderInfo := { id := "order", kind := .buy, status := .canceled }

/-- The event's handler up to its write of the row, nothing else going on. -/
def publicCanceled : List (Label Task Oracle Delivery) :=
  .spawn 0 (.received .dTag canceledEvent) :: List.replicate 5 (.step 0 {})

/-- **A public `canceled` replaces a cooperative cancel**: every public view of an order that is
over is terminal, so the guard admits it over the finer status. -/
theorem public_canceled_coarsens :
    isHardTerminal .cooperativelyCanceled = true ∧
      agreedCancel.rowStatus = some .cooperativelyCanceled ∧
      ¬Along (afterEnd bareEnv).next (KeepsOutcome bareEnv) (.idle agreedCancel)
        (publicCanceled ++ [.step 0 {}]) ∧
      (run (afterEnd bareEnv).next (.idle agreedCancel) (publicCanceled ++ [.step 0 {}])).map
        (·.shared.rowStatus) = some (some .canceled) := by
  refine ⟨rfl, rfl, fun h => ?_, by decide⟩
  obtain ⟨c, hc⟩ : ∃ c, run (afterEnd bareEnv).next (.idle agreedCancel) publicCanceled = some c :=
    ⟨_, rfl⟩
  have hkeeps := h.last hc
  obtain rfl := Option.some.inj hc
  rcases hkeeps _ rfl with hsame | ⟨d, status, hl, -⟩
  · exact absurd hsame (by decide)
  · cases hl

end MostroApp.Orders
