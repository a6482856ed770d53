import MostroApp.Api.PublicEvents

set_option autoImplicit false

/-! # Background passes over live trades

The stale sweep and the history pass list an order's rows, ask for its public status, which may
take a relay round trip, and delete by order id what they listed. Between the listing and the
deletion they hold no lock and read no row again; the end of an unpaid bond, which the sweep
shares, is the one branch that does.

A pass therefore deletes what it examined where nothing that happens in that window takes the
rows away from it: gives the order a row of another trade key, or moves a row the sweep is
about to wipe past the never-active statuses.
-/

namespace MostroApp.Orders

open Pending Status Interleaving Transition
open Wire (Action)

/-! ## The system -/

/-- A pass starts by listing the rows. -/
def Task.isPass : Task → Bool
  | .sweepList | .historyList _ => true
  | _ => false

/-- The background passes over an order, beside what happens under its lock. -/
def passes (env : Env) : Prog OrderState Task Oracle Locked where
  enter := Task.isPass
  tstep w p s := some (p.step w s)
  act a s := some (a.act env s)

/-! ## What a pass examined -/

/-- The rows of the order are the one examined: of its trade key and, for the sweep, of a trade
that never went active. -/
def StillExamined (sweep : Bool) (t : TradeInfo) (s : OrderState) : Prop :=
  ∀ r ∈ s.trades, r.tradeKeyIndex = t.tradeKeyIndex ∧
    (sweep = true → cancellationWipesHistory r.order.status = true)

/-- The row a pass may still delete, with whether the pass is the sweep. A settled row awaits
its payout and is not wiped. -/
def Task.examining : Task → Option (Bool × TradeInfo)
  | .sweepBook t | .sweepFetch t | .sweepAct t _ =>
      if t.order.status = .settledHoldInvoice then none else some (true, t)
  | .sweepWipe t _ .deleteRow => some (true, t)
  | .historyFetch t | .historyAct t _ | .historyWipe t _ .deleteRow => some (false, t)
  | _ => none

/-- A pass stands where it reads the rows it goes on with. -/
def Task.readsRows : Task → Bool
  | .sweepList | .sweepBond _ | .historyList _ => true
  | _ => false

/-- The rows of an order agree on their trade key and on whether the trade went active, as one
row does. -/
def RowsAgree (s : OrderState) : Prop :=
  ∀ r ∈ s.trades, ∀ t ∈ s.trades, r.tradeKeyIndex = t.tradeKeyIndex ∧
    cancellationWipesHistory r.order.status = cancellationWipesHistory t.order.status

/-- The pass reads rows that agree, and the step takes no row away from another pass that has
examined it and not deleted it yet. -/
structure Uncontested (env : Env) (c : Pool OrderState Task) (l : Label Task Oracle Locked) :
    Prop where
  agree : ∀ i w p, l = .step i w → c.threads i = some p → p.readsRows = true → RowsAgree c.shared
  kept : ∀ c', (passes env).next c l = some c' → ∀ j p sweep t, Label.actor l ≠ some j →
    c.threads j = some p → p.examining = some (sweep, t) → StillExamined sweep t c.shared →
      StillExamined sweep t c'.shared

/-- A pass that deletes the order's rows deletes what it examined: the row it listed, or, where
a bond went unpaid, the one it read under the lock. -/
structure DeletesExamined (c : Pool OrderState Task) (l : Label Task Oracle Locked) : Prop where
  sweep : ∀ i w t job, l = .step i w → c.threads i = some (.sweepWipe t job .deleteRow) →
    StillExamined true t c.shared
  history : ∀ i w t job, l = .step i w → c.threads i = some (.historyWipe t job .deleteRow) →
    StillExamined false t c.shared
  bond : ∀ i w listed t, l = .step i w → c.threads i = some (.sweepBond listed) →
    c.shared.trade = some t → (closeExpiredBondTrade listed w.now c.shared).1.trades = [] →
      StillExamined true t c.shared

/-! ## The proof -/

/-- What a pass counts on between its listing and its deletion. -/
def Task.spared (p : Task) (s : OrderState) : Prop :=
  ∀ sweep t, p.examining = some (sweep, t) → StillExamined sweep t s

/-- A row the sweep examines has not gone active, or awaits its payout. -/
theorem wipes_of_sweepExamines {t : TradeInfo} {now : Int} (h : sweepExamines t now = true)
    (hs : t.order.status ≠ .settledHoldInvoice) :
    cancellationWipesHistory t.order.status = true := by
  unfold sweepExamines at h
  split at h
  · next he => exact absurd he hs
  · next he => rw [he]; rfl
  · next he => rw [he]; rfl
  · cases h

/-- What a pass reads off rows that agree is what it examined. -/
theorem RowsAgree.stillExamined {s : OrderState} (h : RowsAgree s) {t : TradeInfo}
    (ht : t ∈ s.trades) {sweep : Bool}
    (hw : sweep = true → cancellationWipesHistory t.order.status = true) :
    StillExamined sweep t s := by
  intro r hr
  obtain ⟨hk, hc⟩ := h r hr t ht
  exact ⟨hk, fun hsweep => hc.trans (hw hsweep)⟩

/-- The sweep wipes no row that awaits its payout. -/
theorem sweepAction_wipe {isMine : Bool} {status : OrderStatus} {book : Option OrderStatus}
    (h : sweepAction isMine status book = .wipe) : status ≠ .settledHoldInvoice := by
  rintro rfl
  unfold sweepAction at h
  split at h <;> cases h

theorem afterPublicCancel_examining (f : Feed) (o : OrderInfo) :
    (afterPublicCancel f o).examining = none := by
  unfold afterPublicCancel
  cases f
  · dsimp only
    split <;> rfl
  · rfl

theorem afterLocalStatus_examining (f : Feed) (o : OrderInfo) (loc : Option OrderStatus) :
    (afterLocalStatus f o loc).examining = none := by
  unfold afterLocalStatus
  dsimp only
  split
  · rfl
  · cases f <;> rfl

/-- A pass comes to a row by reading it off the order or carries it on, and leaves the order as
it is. -/
theorem step_examining {w : Oracle} {p q : Task} {s : OrderState} {sweep : Bool} {t : TradeInfo}
    (h : (p.step w s).2 = some q) (hq : q.examining = some (sweep, t)) :
    (p.step w s).1 = s ∧ (p.examining = some (sweep, t) ∨
      (p.readsRows = true ∧ t ∈ s.trades ∧
        (sweep = true → cancellationWipesHistory t.order.status = true))) := by
  cases p
  case sweepList =>
    simp only [Task.step] at h ⊢
    split at h
    · next x hx =>
        split at h
        · cases h
          cases hq
        · next hbond =>
            rw [if_neg hbond]
            refine ⟨rfl, Or.inr ⟨rfl, ?_⟩⟩
            split at h
            · next hex =>
                cases h
                simp only [Task.examining] at hq
                split at hq
                · cases hq
                · next hs =>
                    cases hq
                    exact ⟨List.mem_of_getElem? hx, fun _ => wipes_of_sweepExamines hex hs⟩
            · cases h
    · cases h
  case sweepBook x =>
    refine ⟨rfl, Or.inl ?_⟩
    simp only [Task.step] at h
    split at h <;> (cases h; exact hq)
  case sweepFetch x =>
    refine ⟨rfl, Or.inl ?_⟩
    cases h
    exact hq
  case sweepAct x book =>
    simp only [Task.step] at h ⊢
    split at h
    · cases h
    · next hact =>
        cases h
        cases hq
        exact ⟨rfl, Or.inl (if_neg (sweepAction_wipe hact))⟩
    · cases h
    · cases h
  case historyList snapshot =>
    simp only [Task.step] at h ⊢
    split at h
    · next x hx =>
        refine ⟨rfl, Or.inr ⟨rfl, ?_⟩⟩
        split at h
        · cases h
          cases hq
          exact ⟨List.mem_of_getElem? hx, fun e => by cases e⟩
        · cases h
    · cases h
  case historyFetch x =>
    refine ⟨rfl, Or.inl ?_⟩
    cases h
    exact hq
  case historyAct x status =>
    simp only [Task.step] at h ⊢
    split at h
    · cases h
    · next hact =>
        cases h
        exact ⟨rfl, Or.inl hq⟩
    · cases h
  case publicCancel f o =>
    exfalso
    simp only [Task.step] at h
    repeat' split at h
    all_goals
      cases h
      first | cases hq | (rw [afterPublicCancel_examining] at hq; cases hq)
  case readRowStatus f o =>
    exfalso
    simp only [Task.step] at h
    repeat' split at h
    all_goals
      cases h
      first | cases hq | (rw [afterLocalStatus_examining] at hq; cases hq)
  case readEntryStatus f o =>
    cases h
    rw [afterLocalStatus_examining] at hq
    cases hq
  all_goals
    exfalso
    simp only [Task.step] at h
    repeat' split at h
    all_goals first
      | (cases h; cases hq)
      | cases h
      | (rcases wiping_snd h with ⟨x, hx, rfl⟩ | hd
         · cases x <;> first | exact hx rfl | cases hq
         · cases hd <;> cases hq)

/-- A step of a pass establishes what its next window counts on. -/
theorem step_spared {w : Oracle} {p q : Task} {s : OrderState}
    (hread : p.readsRows = true → RowsAgree s) (hp : p.spared s)
    (h : (p.step w s).2 = some q) : q.spared (p.step w s).1 := by
  intro sweep t hq
  obtain ⟨hs, hcarried | ⟨hr, ht, hw⟩⟩ := step_examining h hq
  · rw [hs]
    exact hp sweep t hcarried
  · rw [hs]
    exact (hread hr).stillExamined ht hw

theorem taskStages_length : TaskStages fun s s' => s'.trades.length = s.trades.length where
  refl _ := rfl
  trans h h' := h'.trans h
  updateTradeFields _ _ _ _ := by simp
  updateTradeBond _ _ := by simp
  updateOrderStatus _ _ := rfl
  upsertOrder _ _ := rfl
  removeOrder _ := rfl
  noteWireOrder _ _ := rfl
  refreshWireOrder _ _ := rfl
  forgetWireOrder _ := rfl
  emitTradeUpdateAt _ _ _ _ := rfl

/-- The end of an unpaid bond deletes a row whose bond, read under the lock, expired. -/
theorem wipes_of_closeExpiredBondTrade {listed t : TradeInfo} {now : Int} {s : OrderState}
    (ht : s.trade = some t) (h : (closeExpiredBondTrade listed now s).1.trades = []) :
    cancellationWipesHistory t.order.status = true := by
  have hrows : s.trades ≠ [] := fun e => by
    simp [OrderState.trade, e] at ht
  unfold closeExpiredBondTrade at h
  rw [ht] at h
  dsimp only at h
  split at h
  · exact absurd h hrows
  · next hexp =>
      split at h
      · have hlen := taskStages_length.lockMakerBond (s := s) t t.tradeKeyIndex now
        rw [List.length_eq_zero_iff.mpr h] at hlen
        exact absurd (List.length_eq_zero_iff.mp hlen.symm) hrows
      · have hnow : bondExpired t now = true := by
          simpa using (not_or.mp hexp).2
        exact cancellationWipesHistory_of_bondExpired hnow

/-- The outline: a pass counts on the rows still being the ones it examined. -/
theorem passes_outline (env : Env) :
    Outline (passes env) (Uncontested env) (fun _ => True) Task.spared := by
  refine ⟨?_, fun _ _ _ _ _ _ _ _ _ _ => trivial, ?_, ?_, fun _ _ _ _ _ _ => trivial, ?_⟩
  · intro c i p _ _ hp _ sweep t ht
    cases p <;> first | (cases ht; cases hp) | cases ht | cases hp
  · intro c i w p s p' hc hC hp hs
    have hstep : p.step w c.shared = (s, some p') := Option.some.inj hs
    have := step_spared (hC.agree i w p rfl hp) (hc.threads i p hp) (congrArg Prod.snd hstep)
    rwa [congrArg Prod.fst hstep] at this
  · intro c i w p s q j r hc hC hp hs hj hr sweep t ht
    have hn : (passes env).next c (.step i w) = some ⟨s, Function.update c.threads i q⟩ :=
      Prog.next_step.mpr ⟨p, s, q, hp, hs, rfl⟩
    have hother : Label.actor (.step i w : Label Task Oracle Locked) ≠ some j :=
      fun e => hj (Option.some.inj e).symm
    exact hC.kept _ hn j r sweep t hother hr ht (hc.threads j r hr sweep t ht)
  · intro c a s i p hc hC hs hp sweep t ht
    have hn : (passes env).next c (.env a) = some { c with shared := s } :=
      Prog.next_env.mpr ⟨s, hs, rfl⟩
    exact hC.kept _ hn i p sweep t (fun e => by cases e) hp ht (hc.threads i p hp sweep t ht)

/-- **A pass deletes what it examined**, in any run in which the rows it reads agree and nothing
takes them away from it before its deletion. -/
theorem passes_delete_examined (env : Env) (s : OrderState)
    (ls : List (Label Task Oracle Locked))
    (h : Along (passes env).next (Uncontested env) (.idle s) ls) :
    Along (passes env).next DeletesExamined (.idle s) ls := by
  refine (passes_outline env).along (fun c l hc hC => ⟨?_, ?_, ?_⟩) (poolInv_idle trivial) h
  · intro i w t job _ hi
    exact hc.threads i _ hi true t rfl
  · intro i w t job _ hi
    exact hc.threads i _ hi false t rfl
  · intro i w listed t hl hi ht hdel
    have hagree := hC.agree i w _ hl hi rfl
    exact hagree.stillExamined (List.mem_of_head? ht)
      fun _ => wipes_of_closeExpiredBondTrade ht hdel

/-! ## Passes beside a message, and overtaken by it -/

instance (s : OrderState) : Decidable (RowsAgree s) := by
  unfold RowsAgree
  infer_instance

instance (sweep : Bool) (t : TradeInfo) (s : OrderState) : Decidable (StillExamined sweep t s) := by
  unfold StillExamined
  infer_instance

/-- What `Uncontested` asks of one thread. -/
def UncontestedAt (env : Env) (c : Pool OrderState Task) (l : Label Task Oracle Locked) (j : Nat)
    (o : Option Task) : Prop :=
  (Label.actor l = some j → ∀ p ∈ o, p.readsRows = true → RowsAgree c.shared) ∧
    (Label.actor l ≠ some j → ∀ c' ∈ (passes env).next c l, ∀ x ∈ o.bind Task.examining,
      StillExamined x.1 x.2 c.shared → StillExamined x.1 x.2 c'.shared)

instance (env : Env) (c : Pool OrderState Task) (l : Label Task Oracle Locked) (j : Nat)
    (o : Option Task) : Decidable (UncontestedAt env c l j o) := by
  unfold UncontestedAt
  infer_instance

theorem uncontested_of_at {env : Env} {c : Pool OrderState Task} {l : Label Task Oracle Locked}
    (h : ∀ j, UncontestedAt env c l j (c.threads j)) : Uncontested env c l where
  agree i _ p hl hp hreads := (h i).1 (hl ▸ rfl) p hp hreads
  kept c' hn j p sweep t hactor hp ht :=
    (h j).2 hactor c' hn (sweep, t) (Option.bind_eq_some_iff.mpr ⟨p, hp, ht⟩)

/-- A take of ours the maker has not paid for in time. -/
def stalledTake : OrderState :=
  { orderId := "order"
    trades := [{ id := "row", order := { id := "order", kind := .sell, status := .waitingPayment }
                 role := .buyer, tradeKeyIndex := 3 }] }

/-- The sweep's accesses to it: the listing, the book, and a relay that answers `pending`. -/
def sweptUpToWipe : List Oracle :=
  [{ now := 1000 }, {}, { publicStatus := some .pending }, { now := 1000 }]

/-- A take of the order is confirmed, on key index 3. -/
def confirmedTake : Locked :=
  .take ⟨"row", { id := "order", kind := .sell, status := .pending }, .buyer, 3, none⟩
    ⟨some .waitingBuyerInvoice, none, none, none⟩ 50

/-- The daemon's word that it is the seller's turn. -/
def sellersTurn : Delivery :=
  { bareMessage .waitingSellerToPay 990 with tradeIndex := 3 }

/-- The take goes stale. Both passes list its row, a message moves it within the waiting statuses,
and the sweep deletes it before the history pass comes to. -/
def passesBeside : List (Label Task Oracle Locked) :=
  [.env confirmedTake, .spawn 0 .sweepList, .step 0 { now := 1000 }, .step 0 {},
    .spawn 1 (.historyList ⟨5, []⟩), .step 1 {}, .env (.dispatch sellersTurn),
    .step 0 { publicStatus := some .pending }, .step 0 { now := 1000 },
    .step 1 { publicStatus := some .canceled }, .step 0 {}, .step 1 { now := 1000 }, .step 1 {}]

/-- Each deletes what it examined. -/
theorem passes_beside_delete_examined :
    Along (passes bareEnv).next DeletesExamined (.idle { orderId := "order" }) passesBeside ∧
      (run (passes bareEnv).next (.idle { orderId := "order" }) (passesBeside.take 7)).map
          (·.shared.rowStatus) = some (some .waitingPayment) ∧
      (run (passes bareEnv).next (.idle { orderId := "order" }) passesBeside).map
          (·.shared.rowStatus) = some none := by
  have hat : Along (passes bareEnv).next
      (fun c l => ∀ j, UncontestedAt bareEnv c l j (c.threads j)) (.idle { orderId := "order" })
      passesBeside :=
    along_of_below_at 2
      (fun _ _ _ _ => ⟨fun _ _ hp => (nomatch hp), fun _ _ _ _ hx => (nomatch hx)⟩)
      (below_idle 2 _) rfl (by decide)
  exact ⟨passes_delete_examined bareEnv _ _ (hat.mono fun _ _ => uncontested_of_at), by decide,
    by decide⟩

/-- The daemon's word that the seller locked the sats, on the take's key. -/
def escrowLocked : Delivery :=
  { bareMessage .holdInvoicePaymentAccepted 1000 with
    tradeIndex := 3
    msg := { action := .holdInvoicePaymentAccepted, createdAt := 1000
             payload := some (.order { kind := some .sell, status := some .active }) } }

/-- The message is dispatched between the sweep's decision and its deletion. -/
def sweepOvertaken : List (Label Task Oracle Locked) :=
  .spawn 0 .sweepList :: sweptUpToWipe.map (Label.step 0) ++ [.env (.dispatch escrowLocked)]

/-- **The sweep deletes an active trade**: it examined a row in `WaitingPayment` and wipes one
that reads `Active`. -/
theorem sweep_deletes_active_trade :
    ¬Along (passes bareEnv).next DeletesExamined (.idle stalledTake)
        (sweepOvertaken ++ [.step 0 {}]) ∧
      (run (passes bareEnv).next (.idle stalledTake) sweepOvertaken).map
          (·.shared.rowStatus) = some (some .active) ∧
      (run (passes bareEnv).next (.idle stalledTake) (sweepOvertaken ++ [.step 0 {}])).map
          (·.shared.rowStatus) = some none := by
  refine ⟨fun h => ?_, by decide, by decide⟩
  obtain ⟨c, hc⟩ : ∃ c, run (passes bareEnv).next (.idle stalledTake) sweepOvertaken = some c :=
    ⟨_, rfl⟩
  have hbad := (h.last hc).sweep 0 {}
  obtain rfl := Option.some.inj hc
  exact absurd ((hbad _ _ rfl rfl _ (List.mem_singleton.mpr rfl)).2 rfl) (by decide)

end MostroApp.Orders
