import MostroApp.Api.Wiped

set_option autoImplicit false

/-! # A wiped trade stays wiped

The wipes of an order beside its messages, takes, creates and restores. A wipe made under the
order's lock is one step; the public handlers and the passes delete the row in one step and
write its tombstone in the next. While nobody takes, creates or restores the order again, the
index of the last row deleted is what the tombstone should name.
-/

namespace MostroApp.Orders

open Pending Status Interleaving Transition
open Wire (Action)

/-! ## What a task does to the rows -/

/-- What a step of a task leaves: the rows as they were, or one of the two halves of a wipe, or
the whole of one. -/
inductive TaskEnds (p : Task) (s s' : OrderState) (q : Option Task) : Prop where
  | stands (rows : RowsStand s s') (other : ∀ job, p.wipe ≠ some (job, .writeTombstone))
  | deleted (job : WipeJob) (stood : p.wipe = some (job, .deleteRow)) (rows : s'.trades = [])
      (next : ∃ q', q = some q' ∧ q'.wipe = some (job, .writeTombstone))
  | marked (job : WipeJob) (stood : p.wipe = some (job, .writeTombstone))
      (rows : s'.trades = s.trades)
      (tombstone : s'.tradeWiped = some ⟨job.wipedAt, some job.wipedIndex⟩)
  | closed (listed t : TradeInfo) (stood : p = .sweepBond listed) (head : s.trade = some t)
      (rows : s'.trades = []) (wipedAt : Int)
      (tombstone : s'.tradeWiped = some ⟨wipedAt, some t.tradeKeyIndex⟩)

section Tasks

variable {w : Oracle} {p : Task} {s : OrderState}

/-- No task binds a key. -/
theorem step_tradeKey (w : Oracle) (p : Task) (s : OrderState) :
    (p.step w s).1.tradeKey = s.tradeKey := by
  have hwipe : ∀ (job : WipeJob) (pc : WipePc), SameKeys s (pc.step job s).1 := by
    intro job pc
    cases pc
    case settle d => exact ⟨settleEntry_tradeKey s d, settleEntry_pending s d⟩
    all_goals exact ⟨rfl, rfl⟩
  refine (taskStages_sameKeys.step (fun job pc _ => hwipe job pc) fun _ t _ _ _ => ?_).tradeKey
  exact (taskStages_sameKeys.emitTradeUpdateAt _ _ _ s).trans
    (sameKeys_wipeNeverActiveTrade _ _ _ _)

/-- The end of an unpaid bond wipes the row it read, or leaves one. -/
theorem closeExpiredBondTrade_ends (listed : TradeInfo) (now : Int) (s : OrderState) :
    RowsStand s (closeExpiredBondTrade listed now s).1 ∨ ∃ t, s.trade = some t ∧
      (closeExpiredBondTrade listed now s).1.trades = [] ∧
        (closeExpiredBondTrade listed now s).1.tradeWiped = some ⟨now, some t.tradeKeyIndex⟩ := by
  unfold closeExpiredBondTrade
  split
  · exact Or.inl (.refl s)
  · next t ht =>
    split
    · exact Or.inl (.refl s)
    · split
      · exact Or.inl (taskStages_rowsStand.lockMakerBond t _ now)
      · exact Or.inr ⟨t, ht, by simp, by simp⟩

/-- **What a step of a task does to the rows.** -/
theorem step_ends (w : Oracle) (p : Task) (s : OrderState) :
    TaskEnds p s (p.step w s).1 (p.step w s).2 := by
  by_cases hbond : ∃ listed, p = .sweepBond listed
  · obtain ⟨listed, rfl⟩ := hbond
    rcases closeExpiredBondTrade_ends listed w.now s with h | ⟨t, ht, hnil, hw⟩
    · exact .stands h fun job hj => by cases hj
    · exact .closed listed t rfl ht hnil w.now hw
  · by_cases hwipe : ∃ job pc, p.wipe = some (job, pc) ∧ (pc = .deleteRow ∨ pc = .writeTombstone)
    · obtain ⟨job, pc, hp, rfl | rfl⟩ := hwipe
      · cases p <;> first | (cases hp; exact .deleted _ rfl rfl ⟨_, rfl, rfl⟩) | cases hp
      · cases p <;> first | (cases hp; exact .marked _ rfl rfl rfl) | cases hp
    · refine .stands (taskStages_rowsStand.step (fun job pc hp => ?_) fun listed _ hp => ?_)
        fun job hp => hwipe ⟨job, _, hp, Or.inr rfl⟩
      · cases hpc : pc with
        | deleteRow => exact absurd ⟨job, pc, hp, Or.inl hpc⟩ hwipe
        | writeTombstone => exact absurd ⟨job, pc, hp, Or.inr hpc⟩ hwipe
        | settle d => cases d <;> exact ⟨rfl, rfl, rfl⟩
        | removeSession => exact ⟨rfl, rfl, rfl⟩
        | takeNote => exact ⟨rfl, rfl, rfl⟩
        | readEntry noted => exact ⟨rfl, rfl, rfl⟩
      · exact absurd ⟨listed, hp⟩ hbond

end Tasks

/-! ## The system -/

/-- An order, with the key index its last row was deleted at. There is none at the start, and
none again once a take, a create or a restore of the order is confirmed. -/
structure WipedOrder where
  s : OrderState
  wiped : Option Nat := none

/-- The greatest key index among the order's rows, which is that of its row where it has one. -/
def OrderState.topIndex (s : OrderState) : Option Nat := (s.trades.map (·.tradeKeyIndex)).max?

/-- What the index becomes in a step from `s` to `s'`: a step that deletes the rows sets it. -/
def noteWipe (s s' : OrderState) (wiped : Option Nat) : Option Nat :=
  if s'.trades.isEmpty then s.topIndex.orElse fun _ => wiped else wiped

/-- What happens to an order beside its public events and the passes. -/
inductive Happening where
  | dispatch (d : Delivery)
  | take (a : TakeAttempt) (v : TakeVerdict) (now : Int)
  | create (t : TradeInfo)
  | restore (tradeIndex : Nat) (status : OrderStatus) (book : Option OrderInfo) (node : String)
      (now : Int)

def Happening.act (env : Env) : Happening → WipedOrder → WipedOrder
  | .dispatch d, x =>
      let s := dispatchMostroMessage env d x.s
      ⟨s, if confirmsCreate d x.s then none else noteWipe x.s s x.wiped⟩
  | .take a v now, x => ⟨confirmTake env a v now x.s, none⟩
  | .create t, x => ⟨x.s.persistTradeRow t, none⟩
  | .restore tradeIndex status book node now, x =>
      ⟨persistRestoredBondRow tradeIndex status book node now x.s,
        if x.s.trade.isSome then x.wiped else none⟩

/-- The wipes of an order, beside everything else. -/
def wipes (env : Env) : Prog WipedOrder Task Oracle Happening where
  enter p := p.isReceived || p.isPass
  tstep w p x :=
    some (⟨(p.step w x.s).1, noteWipe x.s (p.step w x.s).1 x.wiped⟩, (p.step w x.s).2)
  act a x := some (a.act env x)

/-- **The property.** After a row of key index `i` was wiped, and until the order is taken,
created or restored again, a message addressed to a key up to `i` leaves no trace, and one
above it is not classified as wiped. -/
def StaysWiped (env : Env) (c : Pool WipedOrder Task) (l : Label Task Oracle Happening) : Prop :=
  ∀ d i, l = .env (.dispatch d) → c.shared.wiped = some i → confirmsCreate d c.shared.s = false →
    (d.tradeIndex ≤ i → Quiet c.shared.s (dispatchMostroMessage env d c.shared.s)) ∧
    (i < d.tradeIndex → c.shared.s.tradeRowState d.rowLookupFails d.tradeIndex ≠ .wiped)

/-! ## When the tombstone names the wiped row -/

/-- The rows of the order are of one key, as one row is. -/
def OneKey (s : OrderState) : Prop :=
  ∀ r ∈ s.trades, ∀ t ∈ s.trades, r.tradeKeyIndex = t.tradeKeyIndex

/-- A message meets the order in a state the tombstone describes. -/
structure Dispatchable (c : Pool WipedOrder Task) (d : Delivery) : Prop where
  /-- No wipe stands between its deletion and its tombstone, unless the tombstone names the wiped
  row already. -/
  marked : ∀ i j p job, c.shared.wiped = some i → c.shared.s.trades = [] →
    c.threads j = some p → p.wipe = some (job, .writeTombstone) → Gone i c.shared.s
  /-- The store answers the lookups of a wiped order's row. -/
  answered : c.shared.wiped.isSome = true → c.shared.s.trades = [] →
    d.rowLookupFails = false ∧ d.adoptLookupFails = false
  oneKey : OneKey c.shared.s
  /-- A request waits under the key of its own index. -/
  owner : ∀ p, c.shared.s.pending d.tradePubkey = some p → p.tradeIndex = d.tradeIndex
  /-- Over a recovered newer trade, an exempt message of the wiped generation names no peer, and
  no create is pending on its key. -/
  older : ∀ i, c.shared.wiped = some i → c.shared.s.trades ≠ [] → d.tradeIndex ≤ i →
    generationExempt d.msg.action = true →
      peerRevealPubkeys d.msg = none ∧ pendingLocalUuidFor d.tradePubkey c.shared.s.pending = none

/-- The condition of one step: the tombstone written over a wiped order names the row that was
deleted, a bond is closed over rows of one key, and a message meets a described order. -/
structure WipesRecorded (c : Pool WipedOrder Task) (l : Label Task Oracle Happening) : Prop where
  tombstone : ∀ j w p job i, l = .step j w → c.threads j = some p →
    p.wipe = some (job, .writeTombstone) → c.shared.wiped = some i → c.shared.s.trades = [] →
      job.wipedIndex = i
  bond : ∀ j w listed, l = .step j w → c.threads j = some (.sweepBond listed) → OneKey c.shared.s
  message : ∀ d, l = .env (.dispatch d) → Dispatchable c d

/-! ## The proof -/

/-- The tombstone names the wiped row, or a newer trade was recovered, or the wipe that deleted
the row has yet to write its tombstone. -/
def Tracked (c : Pool WipedOrder Task) : Prop :=
  ∀ i, c.shared.wiped = some i → Gone i c.shared.s ∨ Renewed i c.shared.s ∨
    c.shared.s.trades = [] ∧ ∃ j p job, c.threads j = some p ∧ p.wipe = some (job, .writeTombstone)

theorem topIndex_of_oneKey {s : OrderState} (h : OneKey s) {t : TradeInfo}
    (ht : s.trade = some t) : s.topIndex = some t.tradeKeyIndex := by
  have hmem : t ∈ s.trades := List.mem_of_head? ht
  unfold OrderState.topIndex
  rw [List.max?_eq_some_iff]
  refine ⟨List.mem_map_of_mem hmem, fun b hb => ?_⟩
  obtain ⟨r, hr, rfl⟩ := List.mem_map.mp hb
  exact (h r hr t hmem).le

theorem topIndex_nil {s : OrderState} (h : s.trades = []) : s.topIndex = none := by
  simp [OrderState.topIndex, h]

/-- A step that keeps the rows, or finds none, wipes nothing. -/
theorem noteWipe_of_rows {s s' : OrderState} {wiped : Option Nat}
    (h : s'.trades ≠ [] ∨ s.trades = []) : noteWipe s s' wiped = wiped := by
  unfold noteWipe
  split
  · next hnil =>
    rcases h with h | h
    · exact absurd (List.isEmpty_iff.mp hnil) h
    · rw [topIndex_nil h]
      rfl
  · rfl

/-- A whole wipe, under rows of one key. -/
theorem gone_of_wipe {s s' : OrderState} {wiped : Option Nat} {t : TradeInfo} {wipedAt : Int}
    {i : Nat} (hkey : OneKey s) (ht : s.trade = some t) (hnil : s'.trades = [])
    (hw : s'.tradeWiped = some ⟨wipedAt, some t.tradeKeyIndex⟩)
    (hi : noteWipe s s' wiped = some i) : Gone i s' := by
  unfold noteWipe at hi
  rw [if_pos (List.isEmpty_iff.mpr hnil), topIndex_of_oneKey hkey ht] at hi
  obtain rfl : t.tradeKeyIndex = i := Option.some.inj hi
  exact ⟨hnil, wipedAt, hw⟩

theorem Renewed.of_rowsStand {s s' : OrderState} {i : Nat} (h : Renewed i s)
    (hs : RowsStand s s') (hkey : s'.tradeKey = s.tradeKey) : Renewed i s' := by
  obtain ⟨hrows, k, hk, hlt⟩ := h
  exact ⟨fun hnil => hrows (hs.nil.mp hnil), k, hkey.trans hk, hlt⟩

/-- A message above a recovered trade's wiped generation, or an exempt one below it, leaves the
newer key bound. -/
theorem renewed_of_rowEnds {env : Env} {c : Pool WipedOrder Task} {d : Delivery} {i : Nat}
    (hd : Dispatchable c d) (hi : c.shared.wiped = some i) (h : Renewed i c.shared.s)
    (hrows : (dispatchMostroMessage env d c.shared.s).trades ≠ [])
    (hkey : (dispatchMostroMessage env d c.shared.s).tradeKey = c.shared.s.tradeKey ∨
      supersededKey d c.shared.s = false ∧
        ((dispatchMostroMessage env d c.shared.s).tradeKey =
            (reconcileStoredId d c.shared.s).tradeKey ∨
          d.msg.action = .newOrder ∧
            ((dispatchMostroMessage env d c.shared.s).tradeKey = some d.tradeIndex ∨
              ∃ p, c.shared.s.pending d.tradePubkey = some p ∧
                (dispatchMostroMessage env d c.shared.s).tradeKey = some p.tradeIndex))) :
    Renewed i (dispatchMostroMessage env d c.shared.s) := by
  obtain ⟨hold, k, hk, hlt⟩ := h
  have hsame : ∀ {s'}, s'.trades ≠ [] → s'.tradeKey = c.shared.s.tradeKey → Renewed i s' :=
    fun hr he => ⟨hr, k, he.trans hk, hlt⟩
  rcases hkey with hkey | ⟨hcur, hkey⟩
  · exact hsame hrows hkey
  · by_cases hexempt : generationExempt d.msg.action = true ∧ d.tradeIndex ≤ i
    · obtain ⟨hpeer, hcreate⟩ := hd.older i hi hold hexempt.2 hexempt.1
      exact hsame hrows (quiet_dispatch_of_exempt hold hexempt.1 hpeer hcreate).2
    · have hnew : i < d.tradeIndex := by
        by_contra hle
        have hex : generationExempt d.msg.action = false :=
          Bool.eq_false_iff.mpr fun hex => hexempt ⟨hex, not_lt.mp hle⟩
        have : ¬d.tradeIndex < k := by
          simpa [supersededKey, hex, hk] using hcur
        omega
      rcases hkey with hkey | ⟨-, hkey | ⟨p, hp, hkey⟩⟩
      · rcases reconcileStoredId_tradeKey (d := d) (s := c.shared.s) with hr | hr
        · exact hsame hrows (hkey.trans hr)
        · exact ⟨hrows, d.tradeIndex, hkey.trans hr, hnew⟩
      · exact ⟨hrows, d.tradeIndex, hkey, hnew⟩
      · exact ⟨hrows, p.tradeIndex, hkey, (hd.owner p hp).symm ▸ hnew⟩

/-- A message keeps the order tracked. -/
theorem tracked_dispatch {env : Env} {c : Pool WipedOrder Task} {d : Delivery} (hc : Tracked c)
    (hd : Dispatchable c d) :
    Tracked { c with shared := Happening.act env (.dispatch d) c.shared } := by
  intro i hi
  simp only [Happening.act] at hi ⊢
  split at hi
  · cases hi
  next hcreate =>
  have hcreate : confirmsCreate d c.shared.s = false := Bool.eq_false_iff.mpr hcreate
  -- over no row the tombstone decides, over one the row the message finds
  by_cases hrows : c.shared.s.trades = []
  · rw [noteWipe_of_rows (Or.inr hrows)] at hi
    have hsome : c.shared.wiped.isSome = true := by rw [hi]; rfl
    have hgone : Gone i c.shared.s := by
      rcases hc i hi with hgone | ⟨hr, -⟩ | ⟨-, j, p, job, hj, hp⟩
      · exact hgone
      · exact absurd hrows hr
      · exact hd.marked i j p job hi hrows hj hp
    obtain ⟨hf, ha⟩ := hd.answered hsome hrows
    rcases le_or_gt d.tradeIndex i with hle | hlt
    · exact Or.inl (hgone.of_sameRows (quiet_dispatch_of_gone hgone hle hf ha hcreate).toSameRows)
    · rcases gone_or_renewed_dispatch env hgone hlt hf hcreate with h | h
      · exact Or.inl h
      · exact Or.inr (Or.inl h)
  · cases rowEnds_dispatch env hrows hcreate with
    | stays rows key =>
        rw [noteWipe_of_rows (Or.inl rows)] at hi
        rcases hc i hi with ⟨hnil, -⟩ | hren | ⟨hnil, -⟩
        · exact absurd hnil hrows
        · exact Or.inr (Or.inl (renewed_of_rowEnds hd hi hren rows key))
        · exact absurd hnil hrows
    | wiped t head rows wipedAt tombstone =>
        exact Or.inl (gone_of_wipe hd.oneKey head rows tombstone hi)

/-- A step of a task keeps the order tracked. -/
theorem tracked_task {c : Pool WipedOrder Task} {j : Nat} {w : Oracle} {p : Task}
    (hc : Tracked c) (hC : WipesRecorded c (.step j w)) (hp : c.threads j = some p) :
    Tracked ⟨⟨(p.step w c.shared.s).1, noteWipe c.shared.s (p.step w c.shared.s).1 c.shared.wiped⟩,
      Function.update c.threads j (p.step w c.shared.s).2⟩ := by
  intro i hi
  have hkey := step_tradeKey w p c.shared.s
  cases step_ends w p c.shared.s with
  | stands rows other =>
      have hcase : (p.step w c.shared.s).1.trades ≠ [] ∨ c.shared.s.trades = [] := by
        by_cases hnil : c.shared.s.trades = []
        · exact Or.inr hnil
        · exact Or.inl fun e => hnil (rows.nil.mp e)
      rw [noteWipe_of_rows hcase] at hi
      rcases hc i hi with hgone | hren | ⟨hnil, k, r, job, hk, hr⟩
      · exact Or.inl (hgone.of_rowsStand rows)
      · exact Or.inr (Or.inl (hren.of_rowsStand rows hkey))
      · have hkj : k ≠ j := by
          rintro rfl
          obtain rfl : p = r := Option.some.inj (hp.symm.trans hk)
          exact other job hr
        refine Or.inr (Or.inr ⟨rows.nil.mpr hnil, k, r, job, ?_, hr⟩)
        simpa [Function.update_of_ne hkj] using hk
  | deleted job stood rows next =>
      obtain ⟨q, hq, hqw⟩ := next
      exact Or.inr (Or.inr ⟨rows, j, q, job, by simp [hq], hqw⟩)
  | marked job stood rows tombstone =>
      have hcase : (p.step w c.shared.s).1.trades ≠ [] ∨ c.shared.s.trades = [] := by
        rw [rows]
        exact (em _).symm
      rw [noteWipe_of_rows hcase] at hi
      by_cases hnil : c.shared.s.trades = []
      · have hjob := hC.tombstone j w p job i rfl hp stood hi hnil
        exact Or.inl ⟨rows.trans hnil, job.wipedAt, hjob ▸ tombstone⟩
      · rcases hc i hi with ⟨hnil', -⟩ | ⟨hr, k, hk, hlt⟩ | ⟨hnil', -⟩
        · exact absurd hnil' hnil
        · exact Or.inr (Or.inl ⟨fun e => hnil (rows.symm.trans e), k, hkey.trans hk, hlt⟩)
        · exact absurd hnil' hnil
  | closed listed t stood head rows wipedAt tombstone =>
      subst stood
      exact Or.inl (gone_of_wipe (hC.bond j w listed rfl hp) head rows tombstone hi)

/-- Every step that meets the condition keeps the order tracked. -/
theorem tracked_step (env : Env) (c : Pool WipedOrder Task) (l : Label Task Oracle Happening)
    (c' : Pool WipedOrder Task) (hc : Tracked c) (hC : WipesRecorded c l)
    (hn : (wipes env).next c l = some c') : Tracked c' := by
  cases l with
  | spawn j p =>
      obtain ⟨-, hfree, rfl⟩ := Prog.next_spawn.mp hn
      intro i hi
      rcases hc i hi with h | h | ⟨hnil, k, r, job, hk, hr⟩
      · exact Or.inl h
      · exact Or.inr (Or.inl h)
      · have hkj : k ≠ j := by
          rintro rfl
          rw [hfree] at hk
          cases hk
        refine Or.inr (Or.inr ⟨hnil, k, r, job, ?_, hr⟩)
        simpa [Function.update_of_ne hkj] using hk
  | step j w =>
      obtain ⟨p, x, q, hp, hs, rfl⟩ := Prog.next_step.mp hn
      obtain ⟨rfl, rfl⟩ := Prod.mk.inj (Option.some.inj hs)
      exact tracked_task hc hC hp
  | env a =>
      obtain ⟨x, hx, rfl⟩ := Prog.next_env.mp hn
      obtain rfl := Option.some.inj hx
      cases a with
      | dispatch d => exact tracked_dispatch hc (hC.message d rfl)
      | take a v now => exact fun i hi => by cases hi
      | create t => exact fun i hi => by cases hi
      | restore tradeIndex status book node now =>
          intro i hi
          simp only [Happening.act] at hi ⊢
          split at hi
          · next hsome =>
            have hsame : persistRestoredBondRow tradeIndex status book node now c.shared.s =
                c.shared.s := if_pos hsome
            rw [hsame]
            exact hc i hi
          · cases hi

/-- What a tracked order does with a message. -/
theorem staysWiped_of_tracked {env : Env} {c : Pool WipedOrder Task} {d : Delivery} {i : Nat}
    (hc : Tracked c) (hd : Dispatchable c d) (hi : c.shared.wiped = some i)
    (hcreate : confirmsCreate d c.shared.s = false) :
    (d.tradeIndex ≤ i → Quiet c.shared.s (dispatchMostroMessage env d c.shared.s)) ∧
      (i < d.tradeIndex → c.shared.s.tradeRowState d.rowLookupFails d.tradeIndex ≠ .wiped) := by
  have hsome : c.shared.wiped.isSome = true := by rw [hi]; rfl
  have htracked : Gone i c.shared.s ∨ Renewed i c.shared.s := by
    rcases hc i hi with h | h | ⟨hnil, j, p, job, hj, hp⟩
    · exact Or.inl h
    · exact Or.inr h
    · exact Or.inl (hd.marked i j p job hi hnil hj hp)
  rcases htracked with hgone | ⟨hrows, k, hk, hlt⟩
  · obtain ⟨hf, ha⟩ := hd.answered hsome hgone.1
    refine ⟨fun hle => quiet_dispatch_of_gone hgone hle hf ha hcreate, fun hnew => ?_⟩
    obtain ⟨hnil, w, hw⟩ := hgone
    have hcov : Tombstone.covers ⟨w, some i⟩ d.tradeIndex = false := by
      simp [Tombstone.covers, hnew]
    simp [OrderState.tradeRowState, OrderState.trade, hf, hnil, hw, hcov]
  · refine ⟨fun hle => ?_, fun _ => ?_⟩
    · by_cases hex : generationExempt d.msg.action = true
      · obtain ⟨hpeer, hlocal⟩ := hd.older i hi hrows hle hex
        exact (quiet_dispatch_of_exempt hrows hex hpeer hlocal).1
      · have hsup : supersededKey d c.shared.s = true := by
          have : d.tradeIndex < k := by omega
          simp [supersededKey, hex, hk, this]
        unfold dispatchMostroMessage
        split
        · exact quiet_dispatchUnaddressed d _
        · simpa only [hsup, if_true] using Quiet.refl c.shared.s
    · cases hs : c.shared.s.trades with
      | nil => exact absurd hs hrows
      | cons t ts =>
          have ht : c.shared.s.trade = some t := by simp [OrderState.trade, hs]
          rw [tradeRowState_of_trade _ ht]
          cases d.rowLookupFails <;> simp

/-- **A wiped trade stays wiped**, in any run in which every tombstone written over a wiped
order names the row that was deleted and every message meets an order its tombstone
describes. -/
theorem wiped_trade_stays_wiped (env : Env) (s : OrderState)
    (ls : List (Label Task Oracle Happening))
    (h : Along (wipes env).next WipesRecorded (.idle ⟨s, none⟩) ls) :
    Along (wipes env).next (StaysWiped env) (.idle ⟨s, none⟩) ls := by
  have h0 : Tracked (.idle ⟨s, none⟩) := fun i hi => by cases hi
  refine along_of_inv (tracked_step env) (fun c l hc hC => ?_) h0 h
  intro d i hl hi hcreate
  exact staysWiped_of_tracked hc (hC.message d hl) hi hcreate

/-! ## A wipe, and a wipe with a stale index -/

/-- A request for an invoice, on a trade key. -/
def invoiceAt (tradeIndex : Nat) (createdAt : Int) : Delivery :=
  { bareMessage .addInvoice createdAt with
    tradeIndex := tradeIndex
    msg := { action := .addInvoice, createdAt := createdAt
             payload := some (.order { kind := some .sell }) } }

/-- The cancel of a take at key index 3, a replayed request of it, and one of a take at index 5
whose confirmation was lost. -/
def canceledThenReplayed : List Delivery :=
  [{ bareMessage .canceled 20 with tradeIndex := 3 }, invoiceAt 3 30, invoiceAt 5 40]

theorem wipesRecorded_dispatch {c : Pool WipedOrder Task} {d : Delivery} (h : Dispatchable c d) :
    WipesRecorded c (.env (.dispatch d)) :=
  ⟨fun _ _ _ _ _ hl => by (cases hl), fun _ _ _ hl => by (cases hl), fun d' hl => by
    cases hl
    exact h⟩

/-- The replay leaves no trace, the newer take comes back. -/
theorem replay_stays_wiped :
    Along (wipes bareEnv).next (StaysWiped bareEnv) (.idle ⟨stalledTake, none⟩)
        (canceledThenReplayed.map fun d => .env (.dispatch d)) ∧
      (run (wipes bareEnv).next (.idle ⟨stalledTake, none⟩)
        ((canceledThenReplayed.take 2).map fun d => .env (.dispatch d))).map
          (·.shared.s.rowStatus) = some none ∧
      (run (wipes bareEnv).next (.idle ⟨stalledTake, none⟩)
        (canceledThenReplayed.map fun d => .env (.dispatch d))).map
          (·.shared.s.rowStatus) = some (some .waitingBuyerInvoice) := by
  refine ⟨wiped_trade_stays_wiped bareEnv stalledTake _ ?_, by decide, by decide⟩
  have quiet : ∀ (x : WipedOrder) (d : Delivery), generationExempt d.msg.action = false →
      d.rowLookupFails = false → d.adoptLookupFails = false → OneKey x.s →
      x.s.pending d.tradePubkey = none → WipesRecorded (.idle x) (.env (.dispatch d)) := by
    intro x d hex hf ha hkey hp
    refine wipesRecorded_dispatch ⟨fun _ _ _ _ _ _ hj => by (cases hj), fun _ _ => ⟨hf, ha⟩, hkey,
      fun p hp' => ?_, fun _ _ _ _ he => ?_⟩
    · exact absurd (hp.symm.trans hp') nofun
    · exact absurd (hex.symm.trans he) nofun
  refine ⟨quiet _ _ rfl rfl rfl (by unfold OneKey; decide) rfl, fun c hc => ?_⟩
  obtain rfl := Option.some.inj hc
  refine ⟨quiet _ _ rfl rfl rfl (by unfold OneKey; decide) rfl, fun c hc => ?_⟩
  obtain rfl := Option.some.inj hc
  exact ⟨quiet _ _ rfl rfl rfl (by unfold OneKey; decide) rfl, fun _ _ => trivial⟩

/-- The take of the same order on key index 5. -/
def retake : TakeAttempt :=
  { rowId := "retaken", order := { id := "order", kind := .sell, status := .pending }
    role := .buyer, tradeIndex := 5 }

/-- The sweep lists the row of index 3 and asks the relay; meanwhile the order is taken again on
index 5; the sweep deletes that row and leaves the tombstone of the one it listed. -/
def staleTombstone : List (Label Task Oracle Happening) :=
  .spawn 0 .sweepList :: sweptUpToWipe.map (Label.step 0) ++
    [.env (.take retake ⟨some .waitingBuyerInvoice, none, none, none⟩ 1000), .step 0 {}, .step 0 {}]

/-- **The tombstone names the row the sweep listed, not the one it deleted**: an invoice request
of the take on index 5, whose row was wiped, brings the row back. -/
theorem stale_tombstone_rebuilds :
    ¬Along (wipes bareEnv).next (StaysWiped bareEnv) (.idle ⟨stalledTake, none⟩)
        (staleTombstone ++ [.env (.dispatch (invoiceAt 5 40))]) ∧
      (run (wipes bareEnv).next (.idle ⟨stalledTake, none⟩) staleTombstone).map
          (fun c => (c.shared.wiped, c.shared.s.rowStatus, c.shared.s.tradeWiped)) =
        some (some 5, none, some ⟨1000, some 3⟩) ∧
      (run (wipes bareEnv).next (.idle ⟨stalledTake, none⟩)
        (staleTombstone ++ [.env (.dispatch (invoiceAt 5 40))])).map
          (·.shared.s.rowStatus) = some (some .waitingBuyerInvoice) := by
  refine ⟨fun h => ?_, by decide, by decide⟩
  obtain ⟨c, hc⟩ : ∃ c, run (wipes bareEnv).next (.idle ⟨stalledTake, none⟩) staleTombstone =
      some c := ⟨_, rfl⟩
  have hstays := h.last hc _ 5 rfl
  obtain rfl := Option.some.inj hc
  have hquiet := (hstays rfl rfl).1 (Nat.le_refl 5)
  exact absurd hquiet.keys (by decide)

end MostroApp.Orders
