import MostroApp.Api.WireNotes

set_option autoImplicit false

/-! # A lost take hands the order back

While we hold a take, the order's book entry carries the trade's own status wherever the public
one is refused. The wipe of the take is to undo that: it consumes the note of the public view and
settles the entry from it. The handlers of both feeds run beside it without the order's lock. One
that has read the row before it was deleted still carries the trade's status, and where it writes
last, the entry keeps that status and the order is gone from the public book.

The file runs the handlers, the wipes, daemon messages and takes, and says which steps a wipe's
settlement relies on.
-/

namespace MostroApp.Orders

open Pending Status Interleaving Transition
open Wire (Action)

/-! ## The system -/

/-- An order we took, with the last public view a handler took up and whether it did so after the
take. -/
structure TakenOrder where
  s : OrderState
  view : Option OrderStatus := none
  since : Bool := false

/-- The view a task takes up in its next step: to note it, or to refresh the note, is the first
thing a handler does with one. -/
def Task.takesUp : Task → Option OrderStatus
  | .received .dTag o | .refresh o => some o.status
  | _ => none

/-- The order after a step that leaves its stores at `s`. -/
def TakenOrder.next (x : TakenOrder) (s : OrderState) : Option OrderStatus → TakenOrder
  | some v => ⟨s, some v, true⟩
  | none => { x with s := s }

/-- A handler starts with an event. The wipe of a take starts with the daemon's `canceled`, or
wherever else the take is found to be over. -/
def Task.opensHandBack : Task → Bool
  | .received _ _ | .lockedCancel _ => true
  | .lockedWipe job .deleteRow => job.wasTake
  | _ => false

def Locked.onTaken (env : Env) : Locked → TakenOrder → TakenOrder
  | .dispatch d, x => { x with s := dispatchMostroMessage env d x.s }
  | .take a v now, x => ⟨confirmTake env a v now x.s, x.view, false⟩

/-- The handlers of an order's public events and the wipes of its takes, beside what happens
under its lock. -/
def handBack (env : Env) : Prog TakenOrder Task Oracle Locked where
  enter := Task.opensHandBack
  tstep w p x := some (x.next (p.step w x.s).1 p.takesUp, (p.step w x.s).2)
  act a x := some (a.onTaken env x)

/-- The book shows the last view, and has the order if that is a `pending` taken up after the
take. -/
structure TakenOrder.Shows (x : TakenOrder) : Prop where
  last : ∀ e, x.s.bookEntry = some e → x.view = some e.status
  listed : x.view = some .pending → x.since = true → x.s.bookEntry.isSome = true

/-- **The property.** Once the wipe and the handlers have finished, the book shows the last view
of a lost take. -/
def HandedBack (c : Pool TakenOrder Task) : Prop :=
  (∀ i, c.threads i = none) → c.shared.s.trades = [] → c.shared.Shows

/-! ## What a settlement relies on -/

/-- The book shows `pending` where that is the last view, and where a `pending` was taken up
after the take. -/
structure TakenOrder.PendingShown (x : TakenOrder) : Prop where
  last : x.s.bookEntry.map (·.status) = some .pending → x.view = some .pending
  listed : x.view = some .pending → x.since = true →
    x.s.bookEntry.map (·.status) = some .pending

/-- A wipe can tell the last view: from the note, or from the entry. -/
def TakenOrder.Settleable (x : TakenOrder) : Prop := x.s.wireNote.isSome = true ∨ x.PendingShown

/-- The status of the view a handler has taken up and is to enter into the book. -/
def Task.carries : Task → Option OrderStatus
  | .publicCancel _ o | .publicWipe .book o _ _ | .publicWiped .book o | .forgetFinal o
  | .readRowStatus _ o | .readEntryStatus _ o | .readRow _ o | .writeRow _ o _ => some o.status
  | .bookForget view _ | .bookOurs view _ | .enter _ view _ _ => some view
  | _ => none

/-- Carried is the last view. -/
def CarriesLast (carried : Option OrderStatus) (x : TakenOrder) : Prop :=
  carried.isSome = true ∧ carried = x.view

/-- A wipe has yet to replace the entry, or to decide that it stays. -/
def WipePc.toWrite : WipePc → Bool
  | .settle .keep => false
  | _ => true

/-- A wipe has taken the note and has yet to settle the entry. -/
def WipePc.settling : WipePc → Bool
  | .readEntry _ | .settle _ => true
  | _ => false

/-- A wipe that found no note decides on the entry, or has left it. -/
def WipePc.relies : WipePc → Bool
  | .readEntry none | .settle .keep => true
  | _ => false

/-- The task stands in a wipe, at a step with `b`. -/
def Task.InWipe (b : WipePc → Bool) (p : Task) : Prop :=
  ∃ job pc, p.wipe = some (job, pc) ∧ b pc = true

/-- A message that cannot touch an order without a row: it names no order, its key is superseded,
or the tombstone covers it and the store says so. -/
def Spared (d : Delivery) (s : OrderState) : Prop :=
  d.namesOrder = false ∨ supersededKey d s = true ∨
    ∃ i, Gone i s ∧ d.tradeIndex ≤ i ∧ d.rowLookupFails = false ∧ d.adoptLookupFails = false

/-- A message meets a take of ours. -/
structure Answerable (env : Env) (c : Pool TakenOrder Task) (d : Delivery) : Prop where
  /-- It confirms no order of our own making. -/
  noCreate : confirmsCreate d c.shared.s = false
  /-- A `canceled` that wipes the take can tell the last view. -/
  wipes : d.msg.action = .canceled → ∀ status, c.shared.s.rowStatus = some status →
    cancellationWipesHistory status = true → c.shared.Settleable
  /-- Without a row it changes nothing, or recovers a trade while no wipe is under way. -/
  rowless : c.shared.s.trades = [] → Spared d c.shared.s ∨
    ¬c.Any (Task.InWipe fun _ => true) ∧ (dispatchMostroMessage env d c.shared.s).trades ≠ []

/-- **The condition of one step.** -/
structure HandsBack (env : Env) (c : Pool TakenOrder Task) (l : Label Task Oracle Locked) :
    Prop where
  /-- The order is one we took. -/
  taken : ∀ t ∈ c.shared.s.trades, t.order.isMine = false
  /-- A handler enters the last view's status, unless the row still stands or a wipe has yet to
  write; and then no wipe relies on the entry. -/
  enters : ∀ i w f view o ours, l = .step i w → c.threads i = some (.enter f view o ours) →
    c.shared.view = some o.status ∨
      (c.shared.s.trades ≠ [] ∨ c.Any (Task.InWipe WipePc.toWrite)) ∧
        ¬c.Any (Task.InWipe WipePc.relies)
  /-- While a wipe settles the entry, no handler takes up another view. -/
  takesUp : ∀ i w p v, l = .step i w → c.threads i = some p → p.takesUp = some v →
    c.Any (Task.InWipe WipePc.settling) → c.shared.view = some v ∧ c.shared.since = true
  /-- A wipe can tell the last view, or its own handler is to enter it. -/
  finds : ∀ i w p job, l = .step i w → c.threads i = some p → p.wipe = some (job, .takeNote) →
    CarriesLast p.carries c.shared ∨ c.shared.Settleable
  message : ∀ d, l = .env (.dispatch d) → Answerable env c d
  /-- No take is confirmed while a wipe is under way. -/
  take : ∀ a v now, l = .env (.take a v now) → ¬c.Any (Task.InWipe fun _ => true)

/-! ## The settlement -/

/-- What a decision on the entry counts on until it is carried out. -/
def OrderState.Settlement.Fits (carried : Option OrderStatus) (x : TakenOrder) :
    OrderState.Settlement → Prop
  | .restore o => o.status = .pending ∧ x.view = some .pending
  | .keep => CarriesLast carried x ∨ x.Shows
  | .drop => ¬(x.view = some .pending ∧ x.since = true)

section Settlement

variable {x : TakenOrder} {carried : Option OrderStatus}

/-- **The decision fits** where the note is the last view, or without one the entry tells it. -/
theorem settlement_fits {noted : Option OrderInfo}
    (hnote : ∀ n, noted = some n → x.view = some n.status)
    (hnone : noted = none → CarriesLast carried x ∨ x.PendingShown)
    (hcarried : ∀ v, carried = some v → v ≠ .pending) :
    (OrderState.settlement noted (x.s.publicStatus noted)).Fits carried x := by
  have hview : CarriesLast carried x → x.view ≠ some .pending := by
    rintro ⟨-, he⟩ hv
    exact hcarried .pending (he.trans hv) rfl
  cases noted with
  | some n =>
      have hn := hnote n rfl
      show (OrderState.settlement (some n) (some n.status)).Fits carried x
      by_cases hp : n.status = .pending
      · rw [hp] at hn ⊢
        exact ⟨hp, hn⟩
      · have hdrop : OrderState.settlement (some n) (some n.status) = .drop := by
          unfold OrderState.settlement
          split <;> simp_all
        rw [hdrop]
        rintro ⟨hv, -⟩
        exact hp (Option.some.inj (hn.symm.trans hv))
  | none =>
      show (OrderState.settlement none (x.s.bookEntry.map OrderInfo.status)).Fits carried x
      cases he : x.s.bookEntry with
      | none =>
          refine (hnone rfl).imp_right fun h => ⟨fun e h' => ?_, fun hv hs => ?_⟩
          · rw [he] at h'
            cases h'
          · have := h.listed hv hs
            rw [he] at this
            cases this
      | some e =>
          by_cases hp : e.status = .pending
          · have hkeep : OrderState.settlement none ((some e).map OrderInfo.status) = .keep := by
              simp [OrderState.settlement, hp]
            rw [hkeep]
            refine (hnone rfl).imp_right fun h => ⟨fun e' h' => ?_, fun _ _ => by simp [he]⟩
            obtain rfl : e = e' := Option.some.inj (he.symm.trans h')
            rw [hp]
            exact h.last (by simp [he, hp])
          · have hdrop : OrderState.settlement none ((some e).map OrderInfo.status) = .drop := by
              unfold OrderState.settlement
              split <;> simp_all
            rw [hdrop]
            rintro ⟨hv, hs⟩
            rcases hnone rfl with h | h
            · exact hview h hv
            · have := h.listed hv hs
              rw [he] at this
              exact hp (Option.some.inj this)

/-- A decision that fits, once carried out, leaves the book showing the last view, unless the
handler that made it is to enter it. -/
theorem OrderState.Settlement.Fits.shows {d : OrderState.Settlement} (h : d.Fits carried x)
    {s : OrderState} (hs : s.bookEntry = (x.s.settleEntry d).bookEntry) :
    d = .keep ∧ CarriesLast carried x ∨ TakenOrder.Shows { x with s := s } := by
  cases d with
  | restore o =>
      obtain ⟨hp, hv⟩ := h
      refine Or.inr ⟨fun e he => ?_, fun _ _ => by simp [hs, OrderState.settleEntry]⟩
      have : o = e := Option.some.inj (hs.symm.trans he)
      rw [← this, hp]
      exact hv
  | keep =>
      refine h.imp (fun hc => ⟨rfl, hc⟩) fun hx =>
        ⟨fun e he => hx.last e (hs.symm.trans he), fun hv ht => ?_⟩
      exact (congrArg Option.isSome hs).trans (hx.listed hv ht)
  | drop =>
      refine Or.inr ⟨fun e he => ?_, fun hv ht => absurd ⟨hv, ht⟩ h⟩
      cases hs.symm.trans he

/-- A whole wipe of a take that can tell the last view. -/
theorem SettlesFrom.shows {t : TradeInfo} {s' : OrderState} (h : SettlesFrom t x.s s')
    (ht : t.order.isMine = false) (hnote : ∀ n, x.s.wireNote = some n → x.view = some n.status)
    (hx : x.Settleable) : TakenOrder.Shows { x with s := s' } := by
  obtain ⟨s₁, wipedAt, hwire, hbook, hentry⟩ := h.entry
  have hpub : s₁.publicStatus s₁.wireNote = x.s.publicStatus x.s.wireNote := by
    rw [hwire]
    unfold OrderState.publicStatus
    rw [hbook]
  have hsettled : s'.bookEntry = (x.s.settleEntry (OrderState.settlement x.s.wireNote
      (x.s.publicStatus x.s.wireNote))).bookEntry := by
    rw [hentry, ht]
    show (OrderState.settleEntry (OrderState.settlement s₁.wireNote
      (s₁.publicStatus s₁.wireNote)) _).bookEntry = _
    rw [hpub, hwire]
    unfold OrderState.settleEntry
    split
    · rfl
    · exact hbook
    · rfl
  have hfits : (OrderState.settlement x.s.wireNote (x.s.publicStatus x.s.wireNote)).Fits none x :=
    settlement_fits hnote (fun hnone => Or.inr (hx.resolve_left (by simp [hnone]))) nofun
  rcases hfits.shows hsettled with ⟨-, hc, -⟩ | hshows
  · cases hc
  · exact hshows

end Settlement

/-! ## What the wipes count on -/

/-- What a wipe at a step counts on. -/
def WipePc.Counts (carried : Option OrderStatus) (x : TakenOrder) : WipePc → Prop
  | .deleteRow => True
  | .writeTombstone | .removeSession | .takeNote => x.s.trades = []
  | .readEntry (some n) => x.s.trades = [] ∧ x.view = some n.status
  | .readEntry none => x.s.trades = [] ∧ (CarriesLast carried x ∨ x.PendingShown)
  | .settle d => x.s.trades = [] ∧ d.Fits carried x

/-- The tasks the system runs. -/
def Task.handsBack : Task → Bool
  | .sweepList | .sweepBond _ | .sweepBook _ | .sweepFetch _ | .sweepAct _ _ | .sweepWipe _ _ _
  | .sweepWiped | .historyList _ | .historyFetch _ | .historyAct _ _ | .historyWipe _ _ _ => false
  | _ => true

/-- What a task counts on: its wipe, if it stands in one, is of a take, and its handler's view
is not `pending`. -/
structure Task.CountsOn (p : Task) (x : TakenOrder) : Prop where
  own : p.handsBack = true
  wipe : ∀ job pc, p.wipe = some (job, pc) → job.wasTake = true ∧
    (∀ v, p.carries = some v → v ≠ .pending) ∧ pc.Counts p.carries x

theorem Task.CountsOn.of_noWipe {p : Task} {x : TakenOrder} (hown : p.handsBack = true)
    (h : p.wipe = none) : p.CountsOn x :=
  ⟨hown, fun _ _ hp => absurd (h.symm.trans hp) nofun⟩

theorem CarriesLast.of_view {carried : Option OrderStatus} {x x' : TakenOrder}
    (h : CarriesLast carried x) (hv : x'.view = x.view) : CarriesLast carried x' :=
  ⟨h.1, h.2.trans hv.symm⟩

/-- An entry the step left, or one that shows the last view. -/
theorem TakenOrder.PendingShown.of_entry {x x' : TakenOrder} (h : x.PendingShown)
    (hview : x'.view = x.view ∧ x'.since = x.since)
    (he : x'.s.bookEntry = x.s.bookEntry ∨ x'.Shows) : x'.PendingShown := by
  rcases he with he | hx
  · refine ⟨fun hp => ?_, fun hv hs => ?_⟩
    · rw [hview.1]
      exact h.last (he ▸ hp)
    · rw [he]
      exact h.listed (hview.1 ▸ hv) (hview.2 ▸ hs)
  · refine ⟨fun hp => ?_, fun hv hs => ?_⟩
    · obtain ⟨e, hent, hst⟩ := Option.map_eq_some_iff.mp hp
      exact hst ▸ hx.last e hent
    · obtain ⟨e, hent⟩ := Option.isSome_iff_exists.mp (hx.listed hv hs)
      rw [hent, Option.map_some, ← hx.last e hent]
      exact hv

theorem TakenOrder.Shows.of_entry {x x' : TakenOrder} (h : x.Shows)
    (hview : x'.view = x.view ∧ x'.since = x.since)
    (he : x'.s.bookEntry = x.s.bookEntry ∨ x'.Shows) : x'.Shows := by
  rcases he with he | hx
  · refine ⟨fun e hent => hview.1.trans (h.last e (he ▸ hent)), fun hv hs => ?_⟩
    rw [he]
    exact h.listed (hview.1 ▸ hv) (hview.2 ▸ hs)
  · exact hx

/-- **What a task counts on survives a step of another**, which brings no row back to a wipe past
its deletion, changes the view of none that settles, and leaves the entry of one that relies on it
alone or showing the last view. -/
theorem Task.CountsOn.of_step {p : Task} {x x' : TakenOrder} (h : p.CountsOn x)
    (rows : x.s.trades = [] → x'.s.trades = [])
    (view : p.InWipe WipePc.settling → x'.view = x.view ∧ x'.since = x.since)
    (entry : p.InWipe WipePc.relies → x'.s.bookEntry = x.s.bookEntry ∨ x'.Shows) :
    p.CountsOn x' := by
  refine ⟨h.own, fun job pc hp => ?_⟩
  obtain ⟨htake, hcarried, hpc⟩ := h.wipe job pc hp
  refine ⟨htake, hcarried, ?_⟩
  have hview := fun hb : pc.settling = true => view ⟨job, pc, hp, hb⟩
  have hentry := fun hb : pc.relies = true => entry ⟨job, pc, hp, hb⟩
  cases pc with
  | deleteRow => trivial
  | writeTombstone | removeSession | takeNote => exact rows hpc
  | readEntry noted =>
      cases noted with
      | some n => exact ⟨rows hpc.1, (hview rfl).1.trans hpc.2⟩
      | none =>
          refine ⟨rows hpc.1, hpc.2.imp (·.of_view (hview rfl).1) fun hs => ?_⟩
          exact hs.of_entry (hview rfl) (hentry rfl)
  | settle d =>
      refine ⟨rows hpc.1, ?_⟩
      cases d with
      | restore o => exact ⟨hpc.2.1, (hview rfl).1.trans hpc.2.2⟩
      | keep =>
          refine hpc.2.imp (·.of_view (hview rfl).1) fun hs => ?_
          exact hs.of_entry (hview rfl) (hentry rfl)
      | drop =>
          rintro ⟨hv, hs⟩
          exact hpc.2 ⟨(hview rfl).1 ▸ hv, (hview rfl).2 ▸ hs⟩

/-! ## What a step of a task does -/

/-- A handler goes on with its view, or into a wipe. -/
def Task.CarriesOn (v : OrderStatus) (q : Option Task) : Prop :=
  ∃ q', q = some q' ∧ (q'.carries = some v ∨ q'.InWipe WipePc.toWrite)

/-- What a step leaves: a view taken up, stores that were read or a row that was written, the
entry of a handler, or a step of a wipe. -/
inductive HandMove (p : Task) (s s' : OrderState) (q : Option Task) : Prop where
  | takesUp (v : OrderStatus) (took : p.takesUp = some v) (rows : s'.trades = s.trades)
      (book : s'.bookEntry = s.bookEntry) (note : ∀ n, s'.wireNote = some n → n.status = v)
      (next : ∃ q', q = some q' ∧ q'.handsBack = true ∧ q'.wipe = none ∧ q'.carries = some v)
  | reads (took : p.takesUp = none) (outside : p.wipe = none)
      (rows : s'.trades = [] ↔ s.trades = []) (book : s'.bookEntry = s.bookEntry)
      (note : NoteKept s s') (carry : ∀ v, p.carries = some v → Task.CarriesOn v q)
      (next : ∀ q', q = some q' → q'.handsBack = true ∧ (q'.wipe = none ∨ ∃ t now,
        s.trade = some t ∧ q'.wipe = some (.of t now, .deleteRow) ∧
          ∀ v, q'.carries = some v → v ≠ .pending))
  | enters (f : Feed) (view : OrderStatus) (o : OrderInfo) (ours : Bool)
      (stood : p = .enter f view o ours) (enters : s' = s.applyIngestedOrder o ours)
      (done : q = none)
  | wipes (job : WipeJob) (pc : WipePc) (stood : p.wipe = some (job, pc)) (took : p.takesUp = none)
      (step : s' = (pc.step job s).1)
      (next : ∀ pc', (pc.step job s).2 = some pc' → ∃ q', q = some q' ∧ q'.handsBack = true ∧
        q'.wipe = some (job, pc') ∧ q'.carries = p.carries)
      (done : (pc.step job s).2 = none → ∀ q', q = some q' → q'.handsBack = true ∧ q'.wipe = none)
      (last : (pc.step job s).2 = none → ∀ v, p.carries = some v → Task.CarriesOn v q)

theorem endsOrder_ne_pending {status : OrderStatus} (h : endsOrder status = true) :
    status ≠ .pending := by
  rintro rfl
  cases h

theorem afterPublicCancel_carries (f : Feed) (o : OrderInfo) :
    (afterPublicCancel f o).handsBack = true ∧ (afterPublicCancel f o).wipe = none ∧
      (afterPublicCancel f o).carries = some o.status := by
  unfold afterPublicCancel
  cases f
  · dsimp only
    split <;> exact ⟨rfl, rfl, rfl⟩
  · exact ⟨rfl, rfl, rfl⟩

theorem afterLocalStatus_carries (f : Feed) (o : OrderInfo) (loc : Option OrderStatus) :
    (afterLocalStatus f o loc).handsBack = true ∧ (afterLocalStatus f o loc).wipe = none ∧
      (afterLocalStatus f o loc).carries = some o.status := by
  unfold afterLocalStatus
  dsimp only
  split
  · exact ⟨rfl, rfl, rfl⟩
  · cases f <;> exact ⟨rfl, rfl, rfl⟩

/-- A step that only reads, and goes on with the view. -/
theorem HandMove.of_read {p q : Task} {s : OrderState} {v : OrderStatus}
    (took : p.takesUp = none) (outside : p.wipe = none) (hp : p.carries = some v)
    (hq : q.handsBack = true ∧ q.wipe = none ∧ q.carries = some v) :
    HandMove p s s (some q) := by
  refine .reads took outside Iff.rfl rfl (.refl s) (fun v' hv => ?_) fun q' he => ?_
  · obtain rfl : v = v' := Option.some.inj (hp.symm.trans hv)
    exact ⟨q, rfl, Or.inl hq.2.2⟩
  · obtain rfl := Option.some.inj he
    exact ⟨hq.1, Or.inl hq.2.1⟩

/-- A step inside a wipe. -/
theorem HandMove.of_wiping {p : Task} {job : WipeJob} {pc : WipePc} {s : OrderState}
    {k : WipePc → Task} {done : Option Task} (stood : p.wipe = some (job, pc))
    (took : p.takesUp = none)
    (hk : ∀ pc', (k pc').handsBack = true ∧ (k pc').wipe = some (job, pc') ∧
      (k pc').carries = p.carries)
    (hdone : ∀ q, done = some q → q.handsBack = true ∧ q.wipe = none)
    (hlast : ∀ v, p.carries = some v → Task.CarriesOn v done) :
    HandMove p s (Task.wiping job pc s k done).1 (Task.wiping job pc s k done).2 := by
  have hsnd : (Task.wiping job pc s k done).2 =
      match (pc.step job s).2 with
      | some pc' => some (k pc')
      | none => done := by
    unfold Task.wiping
    rcases pc.step job s with ⟨s', _ | pc'⟩ <;> rfl
  refine .wipes job pc stood took (wiping_fst job pc s k done) (fun pc' h => ?_) (fun h => ?_)
    fun h => ?_
  · rw [hsnd, h]
    exact ⟨k pc', rfl, hk pc'⟩
  · rw [hsnd, h]
    exact hdone
  · rw [hsnd, h]
    exact hlast

theorem rows_syncTradeFields (row : Option TradeInfo) (status : OrderStatus) (amount : Option Nat)
    (s : OrderState) :
    let s' := (s.syncTradeFieldsIfChanged row (some status) none amount).1
    (s'.trades = [] ↔ s.trades = []) ∧ s'.bookEntry = s.bookEntry ∧ s'.wireNote = s.wireNote := by
  unfold OrderState.syncTradeFieldsIfChanged
  dsimp only
  split
  · exact ⟨(rowsStand_updateTradeFields _ _ _ s).nil, rfl, rfl⟩
  · exact ⟨Iff.rfl, rfl, rfl⟩

/-- An event comes in: the d-tag handler takes the view up at once, the book handler reads on. -/
theorem handMove_received (f : Feed) (o : OrderInfo) (w : Oracle) (s : OrderState) :
    HandMove (.received f o) s (Task.step w (.received f o) s).1
      (Task.step w (.received f o) s).2 := by
  cases f with
  | dTag =>
      refine .takesUp o.status rfl rfl rfl (fun n hn => ?_) ⟨_, rfl, rfl, rfl, rfl⟩
      exact (Option.some.inj hn).symm ▸ rfl
  | book =>
      refine .reads rfl rfl Iff.rfl rfl (.refl s) (fun v hv => by cases hv) fun q' he => ?_
      obtain rfl := Option.some.inj he
      exact ⟨rfl, Or.inl rfl⟩

/-- A public cancel of a trade that ends with it goes into a wipe. -/
theorem handMove_publicCancel (f : Feed) (o : OrderInfo) (w : Oracle) (s : OrderState) :
    HandMove (.publicCancel f o) s (Task.step w (.publicCancel f o) s).1
      (Task.step w (.publicCancel f o) s).2 := by
  have hgo := HandMove.of_read (s := s) (p := .publicCancel f o) rfl rfl rfl
    (afterPublicCancel_carries f o)
  simp only [Task.step]
  split
  · next t ht =>
    split
    · next hends =>
      refine .reads rfl rfl Iff.rfl rfl (.refl s)
        (fun v _ => ⟨_, rfl, Or.inr ⟨.of t w.now, .deleteRow, rfl, rfl⟩⟩) fun q' he => ?_
      obtain rfl := Option.some.inj he
      refine ⟨rfl, Or.inr ⟨t, w.now, ht, rfl, fun v hv => ?_⟩⟩
      cases f with
      | dTag => cases hv
      | book =>
          obtain rfl : o.status = v := Option.some.inj hv
          exact endsOrder_ne_pending hends.1
    · exact hgo
  · exact hgo

/-- After the wipe of a public cancel the book handler goes on with its view. -/
theorem handMove_publicWiped (f : Feed) (o : OrderInfo) (w : Oracle) (s : OrderState) :
    HandMove (.publicWiped f o) s (Task.step w (.publicWiped f o) s).1
      (Task.step w (.publicWiped f o) s).2 := by
  refine .reads rfl rfl Iff.rfl rfl (.of_eq rfl) (fun v hv => ?_) fun q' he => ?_
  · cases f with
    | dTag => cases hv
    | book => exact ⟨_, rfl, Or.inl hv⟩
  · cases f with
    | dTag => cases he
    | book =>
        obtain rfl := Option.some.inj he
        exact ⟨rfl, Or.inl rfl⟩

theorem handMove_writeRow (f : Feed) (o : OrderInfo) (row : Option TradeInfo) (w : Oracle)
    (s : OrderState) :
    HandMove (.writeRow f o row) s (Task.step w (.writeRow f o row) s).1
      (Task.step w (.writeRow f o row) s).2 := by
  obtain ⟨hrows, hbook, hnote⟩ := rows_syncTradeFields row o.status o.amountSats s
  refine .reads rfl rfl hrows hbook (.of_eq hnote) (fun v hv => ?_) fun q' he => ?_
  · cases f <;> exact ⟨_, rfl, Or.inl hv⟩
  · obtain rfl := Option.some.inj he
    cases f <;> exact ⟨rfl, Or.inl rfl⟩

/-- The book handler forgets the note of an order whose view is final. -/
theorem handMove_bookForget (view : OrderStatus) (o : OrderInfo) (w : Oracle) (s : OrderState) :
    HandMove (.bookForget view o) s (Task.step w (.bookForget view o) s).1
      (Task.step w (.bookForget view o) s).2 := by
  have hforget : NoteKept s (if isHardTerminal view then s.forgetWireOrder else s) := by
    split
    · exact .of_none rfl
    · exact .refl s
  refine .reads rfl rfl ?_ ?_ hforget (fun v hv => ⟨_, rfl, Or.inl hv⟩) fun q' he => ?_
  · simp only [Task.step]
    split <;> exact Iff.rfl
  · simp only [Task.step]
    split <;> rfl
  · obtain rfl := Option.some.inj he
    exact ⟨rfl, Or.inl rfl⟩

/-- The daemon's cancel goes into a wipe where it ends a trade, and does nothing otherwise. -/
theorem handMove_lockedCancel (wipedAt : Int) (w : Oracle) (s : OrderState) :
    HandMove (.lockedCancel wipedAt) s (Task.step w (.lockedCancel wipedAt) s).1
      (Task.step w (.lockedCancel wipedAt) s).2 := by
  have hnone : HandMove (.lockedCancel wipedAt) s s none :=
    .reads rfl rfl Iff.rfl rfl (.refl s) (fun v hv => by cases hv) fun q' he => by cases he
  simp only [Task.step]
  split
  · next t ht =>
    split
    · refine .reads rfl rfl Iff.rfl rfl (.refl s) (fun v hv => by cases hv) fun q' he => ?_
      obtain rfl := Option.some.inj he
      exact ⟨rfl, Or.inr ⟨t, wipedAt, ht, rfl, fun v hv => by cases hv⟩⟩
    · exact hnone
  · exact hnone

/-- **What a step of a task does.** -/
theorem handMove_step {p : Task} (hp : p.handsBack = true) (w : Oracle) (s : OrderState) :
    HandMove p s (p.step w s).1 (p.step w s).2 := by
  cases p
  case received f o => exact handMove_received f o w s
  case refresh o =>
    refine .takesUp o.status rfl rfl rfl (fun n hn => ?_) ?_
    · obtain ⟨n', -, rfl⟩ := Option.map_eq_some_iff.mp hn
      rfl
    · refine ⟨_, rfl, ?_⟩
      split <;> exact ⟨rfl, rfl, rfl⟩
  case publicCancel f o => exact handMove_publicCancel f o w s
  case publicWipe f o job pc =>
    refine .of_wiping rfl rfl (fun pc' => ?_) (fun q he => ?_) fun v hv => ?_
    · cases f <;> exact ⟨rfl, rfl, rfl⟩
    · obtain rfl := Option.some.inj he
      exact ⟨rfl, rfl⟩
    · cases f with
      | dTag => cases hv
      | book => exact ⟨_, rfl, Or.inl hv⟩
  case publicWiped f o => exact handMove_publicWiped f o w s
  case forgetFinal o =>
    refine .reads rfl rfl Iff.rfl rfl (.of_none rfl) (fun v hv => ⟨_, rfl, Or.inl hv⟩)
      fun q' he => ?_
    obtain rfl := Option.some.inj he
    exact ⟨rfl, Or.inl rfl⟩
  case readRowStatus f o =>
    refine .of_read rfl rfl rfl ?_
    split
    · exact afterLocalStatus_carries f o _
    · exact ⟨rfl, rfl, rfl⟩
  case readEntryStatus f o => exact .of_read rfl rfl rfl (afterLocalStatus_carries f o _)
  case readRow f o => exact .of_read rfl rfl rfl ⟨rfl, rfl, rfl⟩
  case writeRow f o row => exact handMove_writeRow f o row w s
  case bookForget view o => exact handMove_bookForget view o w s
  case bookOurs view o => exact .of_read rfl rfl rfl ⟨rfl, rfl, rfl⟩
  case enter f view o ours => exact .enters f view o ours rfl rfl rfl
  case lockedCancel wipedAt => exact handMove_lockedCancel wipedAt w s
  case lockedWipe job pc =>
    refine .of_wiping rfl rfl (fun _ => ⟨rfl, rfl, rfl⟩) (fun q he => ?_) fun v hv => ?_
    · cases he
    · cases hv
  all_goals cases hp

/-! ## The invariant -/

/-- The task is still to write the entry: in a wipe, or with the last view. -/
def Task.Owes (view : Option OrderStatus) (p : Task) : Prop :=
  p.InWipe WipePc.toWrite ∨ ∃ v, p.carries = some v ∧ view = some v

/-- The note is the last view, every task finds what it counts on, and without a row the book
shows the last view or a task is still to write it. -/
structure Tracks (c : Pool TakenOrder Task) : Prop where
  note : ∀ n, c.shared.s.wireNote = some n → c.shared.view = some n.status
  tasks : ∀ i p, c.threads i = some p → p.CountsOn c.shared
  shows : c.shared.s.trades ≠ [] ∨ c.shared.Shows ∨ c.Any (Task.Owes c.shared.view)

theorem Task.CarriesOn.owes {q : Option Task} {v : OrderStatus} (h : Task.CarriesOn v q) :
    ∃ q', q = some q' ∧ q'.Owes (some v) := by
  obtain ⟨q', rfl, hq⟩ := h
  exact ⟨q', rfl, hq.elim (fun hc => Or.inr ⟨v, hc, rfl⟩) Or.inl⟩

theorem CarriesLast.exists {carried : Option OrderStatus} {x : TakenOrder}
    (h : CarriesLast carried x) : ∃ v, carried = some v ∧ x.view = some v := by
  obtain ⟨v, hv⟩ := Option.isSome_iff_exists.mp h.1
  exact ⟨v, hv, h.2.symm.trans hv⟩

/-- A task outside a wipe, or at the start of the wipe of a take, counts on nothing. -/
theorem Task.countsOn_next {q : Task} {x : TakenOrder} {s : OrderState}
    (htaken : ∀ t ∈ s.trades, t.order.isMine = false)
    (h : q.handsBack = true ∧ (q.wipe = none ∨ ∃ t now, s.trade = some t ∧
      q.wipe = some (.of t now, .deleteRow) ∧ ∀ v, q.carries = some v → v ≠ .pending)) :
    q.CountsOn x := by
  refine ⟨h.1, fun job pc hq => ?_⟩
  rcases h.2 with hnone | ⟨t, now, ht, hof, hcarried⟩
  · rw [hnone] at hq
    cases hq
  · obtain ⟨rfl, rfl⟩ := Prod.mk.inj (Option.some.inj (hof.symm.trans hq))
    refine ⟨?_, hcarried, trivial⟩
    show (!t.order.isMine) = true
    rw [htaken t (List.mem_of_head? ht)]
    rfl

/-- A wipe that relies on the entry has deleted the row. -/
theorem Task.CountsOn.rowless {p : Task} {x : TakenOrder} (h : p.CountsOn x)
    (hp : p.InWipe WipePc.relies) : x.s.trades = [] := by
  obtain ⟨job, pc, hw, hrel⟩ := hp
  have hpc := (h.wipe job pc hw).2.2
  cases pc with
  | readEntry noted =>
      cases noted with
      | none => exact hpc.1
      | some n => cases hrel
  | settle d => exact hpc.1
  | deleteRow | writeTombstone | removeSession | takeNote => cases hrel

theorem Tracks.countsOn_of_noWipe {c : Pool TakenOrder Task} (hc : Tracks c)
    (hnone : ¬c.Any (Task.InWipe fun _ => true)) {x : TakenOrder} (j : Nat) (r : Task)
    (hr : c.threads j = some r) : r.CountsOn x :=
  ⟨(hc.tasks j r hr).own, fun job pc hw => absurd ⟨j, r, hr, job, pc, hw, rfl⟩ hnone⟩

section Steps

variable {env : Env} {c : Pool TakenOrder Task} {i : Nat} {w : Oracle} {p : Task}

/-- What every other task counts on is left to it, where the step keeps the view. -/
theorem Tracks.others (hc : Tracks c) {x' : TakenOrder} {q : Option Task}
    (hrows : c.shared.s.trades = [] → x'.s.trades = [])
    (hview : x'.view = c.shared.view ∧ x'.since = c.shared.since)
    (hentry : x'.s.bookEntry = c.shared.s.bookEntry ∨ x'.Shows)
    (hself : ∀ q', q = some q' → q'.CountsOn x') :
    ∀ j r, Function.update c.threads i q j = some r → r.CountsOn x' := by
  intro j r hr
  rcases threads_update hr with ⟨-, hq⟩ | ⟨-, hold⟩
  · exact hself r hq
  · exact (hc.tasks j r hold).of_step hrows (fun _ => hview) fun _ => hentry

/-- A step of a wipe keeps the order on track. -/
theorem Tracks.wipes (hc : Tracks c) (hC : HandsBack env c (.step i w))
    (hp : c.threads i = some p) {job : WipeJob} {pc : WipePc} (stood : p.wipe = some (job, pc))
    {s' : OrderState} {q : Option Task} (step : s' = (pc.step job c.shared.s).1)
    (next : ∀ pc', (pc.step job c.shared.s).2 = some pc' → ∃ q', q = some q' ∧
      q'.handsBack = true ∧ q'.wipe = some (job, pc') ∧ q'.carries = p.carries)
    (done : (pc.step job c.shared.s).2 = none →
      ∀ q', q = some q' → q'.handsBack = true ∧ q'.wipe = none)
    (last : (pc.step job c.shared.s).2 = none → ∀ v, p.carries = some v → Task.CarriesOn v q) :
    Tracks ⟨{ c.shared with s := s' }, Function.update c.threads i q⟩ := by
  obtain ⟨htake, hcarried, hpc⟩ := (hc.tasks i p hp).wipe job pc stood
  -- the wipe goes on to a step that has yet to write
  have goOn : ∀ pc', (pc.step job c.shared.s).2 = some pc' →
      (c.shared.s.trades = [] → s'.trades = []) → s'.bookEntry = c.shared.s.bookEntry →
      NoteKept c.shared.s s' → pc'.Counts p.carries { c.shared with s := s' } →
      (pc'.toWrite = false → CarriesLast p.carries c.shared ∨ c.shared.Shows) →
      Tracks ⟨{ c.shared with s := s' }, Function.update c.threads i q⟩ := by
    intro pc' hpc' hrows hbook hnote hcounts hkeep
    obtain ⟨q', rfl, hown, hq, hcar⟩ := next pc' hpc'
    refine ⟨fun n hn => hc.note n (hnote n hn),
      hc.others hrows ⟨rfl, rfl⟩ (Or.inl hbook) fun r hr => ?_, Or.inr ?_⟩
    · obtain rfl := Option.some.inj hr
      refine ⟨hown, fun job' pc₂ he => ?_⟩
      obtain ⟨rfl, rfl⟩ := Prod.mk.inj (Option.some.inj (hq.symm.trans he))
      exact ⟨htake, hcar ▸ hcarried, hcar ▸ hcounts⟩
    · by_cases hw : pc'.toWrite = true
      · exact Or.inr (Pool.any_self i _ (Or.inl ⟨job, pc', hq, hw⟩))
      · rcases hkeep (Bool.eq_false_iff.mpr hw) with hlast | hshows
        · obtain ⟨v, hv, hview⟩ := hlast.exists
          exact Or.inr (Pool.any_self i _ (Or.inr ⟨v, hcar.trans hv, hview⟩))
        · exact Or.inl (hshows.of_entry ⟨rfl, rfl⟩ (Or.inl hbook))
  cases pc with
  | deleteRow =>
      subst step
      exact goOn _ rfl (fun _ => rfl) rfl (.of_eq rfl) rfl fun h => by cases h
  | writeTombstone =>
      subst step
      exact goOn _ rfl id rfl (.of_eq rfl) hpc fun h => by cases h
  | removeSession =>
      subst step
      exact goOn _ rfl id rfl (.of_eq rfl) hpc fun h => by cases h
  | takeNote =>
      subst step
      have hstep : (WipePc.takeNote.step job c.shared.s).2 =
          some (.readEntry c.shared.s.wireNote) := if_pos htake
      refine goOn _ hstep id rfl (.of_none rfl) ?_ fun h => by cases h
      cases hn : c.shared.s.wireNote with
      | some n => exact ⟨hpc, hc.note n hn⟩
      | none =>
          refine ⟨hpc, ?_⟩
          rcases hC.finds i w p job rfl hp stood with hlast | hsome | hshown
          · exact Or.inl hlast
          · rw [hn] at hsome
            cases hsome
          · exact Or.inr ⟨hshown.last, hshown.listed⟩
  | readEntry noted =>
      subst step
      have hrows : c.shared.s.trades = [] := by
        cases noted with
        | some n => exact hpc.1
        | none => exact hpc.1
      have hfits : (OrderState.settlement noted (c.shared.s.publicStatus noted)).Fits p.carries
          c.shared := by
        refine settlement_fits (fun n hn => ?_) (fun hn => ?_) hcarried
        · subst hn
          exact hpc.2
        · subst hn
          exact hpc.2
      refine goOn _ rfl id rfl (.refl _) ⟨hrows, hfits⟩ fun hkeep => ?_
      generalize OrderState.settlement noted (c.shared.s.publicStatus noted) = d at hfits hkeep
      cases d with
      | keep => exact hfits
      | restore o => cases hkeep
      | drop => cases hkeep
  | settle d =>
      subst step
      obtain ⟨hrows, hfits⟩ := hpc
      have hrows' : (c.shared.s.settleEntry d).trades = [] :=
        (settleEntry_trades c.shared.s d).trans hrows
      have hnote : NoteKept c.shared.s (c.shared.s.settleEntry d) := by
        cases d <;> exact .of_eq rfl
      have hshows := hfits.shows (s := c.shared.s.settleEntry d) rfl
      have hentry : (c.shared.s.settleEntry d).bookEntry = c.shared.s.bookEntry ∨
          TakenOrder.Shows { c.shared with s := c.shared.s.settleEntry d } := by
        refine hshows.imp_left ?_
        rintro ⟨rfl, -⟩
        rfl
      refine ⟨fun n hn => hc.note n (hnote n hn),
        hc.others (fun _ => hrows') ⟨rfl, rfl⟩ hentry fun r hr => ?_, Or.inr ?_⟩
      · obtain ⟨hown, hout⟩ := done rfl r hr
        exact .of_noWipe hown hout
      · rcases hshows with ⟨-, hlast⟩ | hshows
        · obtain ⟨v, hv, hview⟩ := hlast.exists
          obtain ⟨q', rfl, hq⟩ := (last rfl v hv).owes
          exact Or.inr (Pool.any_self i _ (hview ▸ hq))
        · exact Or.inl hshows

/-- A handler's entry keeps the order on track. -/
theorem Tracks.enters (hc : Tracks c) (hC : HandsBack env c (.step i w)) {f : Feed}
    {view : OrderStatus} {o : OrderInfo} {ours : Bool}
    (hp : c.threads i = some (.enter f view o ours)) :
    Tracks ⟨{ c.shared with s := c.shared.s.applyIngestedOrder o ours },
      Function.update c.threads i none⟩ := by
  have hrows : (c.shared.s.applyIngestedOrder o ours).trades = c.shared.s.trades := by
    unfold OrderState.applyIngestedOrder
    split <;> rfl
  have hnote : (c.shared.s.applyIngestedOrder o ours).wireNote = c.shared.s.wireNote := by
    unfold OrderState.applyIngestedOrder
    split <;> rfl
  have htasks : ∀ j r, Function.update c.threads i none j = some r → c.threads j = some r := by
    intro j r hr
    rcases threads_update hr with ⟨-, hq⟩ | ⟨-, hold⟩
    · cases hq
    · exact hold
  rcases hC.enters i w f view o ours rfl hp with hview | ⟨hcover, hnone⟩
  · -- the last view's status: whatever the entry was, the book shows the view now
    have hshows : TakenOrder.Shows
        { c.shared with s := c.shared.s.applyIngestedOrder o ours } := by
      unfold OrderState.applyIngestedOrder
      split
      · next hdrop =>
        refine ⟨fun e he => by (cases he), fun hv _ => ?_⟩
        have ho : o.status = .pending := Option.some.inj (hview.symm.trans hv)
        simp [ho, isHardTerminal] at hdrop
      · refine ⟨fun e he => ?_, fun _ _ => rfl⟩
        obtain rfl := Option.some.inj he
        exact hview
    refine ⟨fun n hn => hc.note n (hnote ▸ hn), ?_, Or.inr (Or.inl hshows)⟩
    exact hc.others (fun h => hrows.trans h) ⟨rfl, rfl⟩ (Or.inr hshows) fun q hq => by cases hq
  · refine ⟨fun n hn => hc.note n (hnote ▸ hn), fun j r hr => ?_, ?_⟩
    · refine (hc.tasks j r (htasks j r hr)).of_step (fun h => hrows.trans h) (fun _ => ⟨rfl, rfl⟩)
        fun hrel => ?_
      exact absurd ⟨j, r, htasks j r hr, hrel⟩ hnone
    · rcases hcover with hstands | hany
      · exact Or.inl fun h => hstands (hrows.symm.trans h)
      · rcases hany.split hp with ⟨job, pc, hw, -⟩ | hother
        · cases hw
        · obtain ⟨j, r, hr, hw⟩ := hother.any _ none
          exact Or.inr (Or.inr ⟨j, r, hr, Or.inl hw⟩)

/-- A step of a task keeps the order on track. -/
theorem Tracks.task (hc : Tracks c) (hC : HandsBack env c (.step i w))
    (hp : c.threads i = some p) :
    Tracks ⟨c.shared.next (p.step w c.shared.s).1 p.takesUp,
      Function.update c.threads i (p.step w c.shared.s).2⟩ := by
  have hmove := handMove_step (hc.tasks i p hp).own w c.shared.s
  generalize (p.step w c.shared.s).1 = s' at *
  generalize (p.step w c.shared.s).2 = q at *
  cases hmove with
  | takesUp v took rows book note next =>
      obtain ⟨q', rfl, hown, hout, hcar⟩ := next
      rw [took]
      -- the view is the last one now, and this handler is on its way with it
      refine ⟨fun n hn => congrArg some (note n hn).symm, fun j r hr => ?_,
        Or.inr (Or.inr (Pool.any_self i _ (Or.inr ⟨v, hcar, rfl⟩)))⟩
      rcases threads_update hr with ⟨-, hq⟩ | ⟨-, hold⟩
      · obtain rfl := Option.some.inj hq
        exact .of_noWipe hown hout
      · refine (hc.tasks j r hold).of_step (fun h => rows.trans h) (fun hset => ?_)
          fun _ => Or.inl book
        obtain ⟨hv, hs⟩ := hC.takesUp i w p v rfl hp took ⟨j, r, hold, hset⟩
        exact ⟨hv.symm, hs.symm⟩
  -- nothing is written that the settlement looks at; a wipe may begin here
  | reads took outside rows book note carry next =>
      rw [took]
      refine ⟨fun n hn => hc.note n (note n hn),
        hc.others rows.mpr ⟨rfl, rfl⟩ (Or.inl book) fun q' hq =>
          Task.countsOn_next hC.taken (next q' hq), ?_⟩
      rcases hc.shows with hstands | hshows | hany
      · exact Or.inl fun h => hstands (rows.mp h)
      · exact Or.inr (Or.inl (hshows.of_entry ⟨rfl, rfl⟩ (Or.inl book)))
      · refine Or.inr (Or.inr ?_)
        rcases hany.split hp with (⟨job, pc, hw, -⟩ | ⟨v, hv, hview⟩) | hother
        · rw [outside] at hw
          cases hw
        · obtain ⟨q', rfl, hq⟩ := (carry v hv).owes
          exact Pool.any_self i _ (hview.symm ▸ hq)
        · exact hother.any _ q
  | enters f view o ours stood enters done =>
      subst stood enters done
      exact hc.enters hC hp
  | wipes job pc stood took step next done last =>
      rw [took]
      exact hc.wipes hC hp stood step next done last

/-- A message keeps the order on track. -/
theorem Tracks.dispatch (hc : Tracks c) {d : Delivery} (hC : HandsBack env c (.env (.dispatch d))) :
    Tracks { c with shared := Locked.onTaken env (.dispatch d) c.shared } := by
  have hm := hC.message d rfl
  have hnote := noteKept_dispatch env d c.shared.s
  have hkeep : ∀ n, (dispatchMostroMessage env d c.shared.s).wireNote = some n →
      c.shared.view = some n.status := fun n hn => hc.note n (hnote n hn)
  by_cases hrows : c.shared.s.trades = []
  · rcases hm.rowless hrows with hspared | ⟨hnone, hback⟩
    · have hsame : SameRows c.shared.s (dispatchMostroMessage env d c.shared.s) := by
        rcases hspared with haddr | hsup | ⟨i, hgone, hle, hf, ha⟩
        · rw [dispatchMostroMessage, if_pos haddr]
          exact sameRows_dispatchUnaddressed d _
        · unfold dispatchMostroMessage
          split
          · exact sameRows_dispatchUnaddressed d _
          · exact .refl _
        · exact (quiet_dispatch_of_gone hgone hle hf ha hm.noCreate).toSameRows
      refine ⟨hkeep, fun j r hr => (hc.tasks j r hr).of_step hsame.trades_nil.mpr
        (fun _ => ⟨rfl, rfl⟩) fun _ => Or.inl hsame.book, ?_⟩
      rcases hc.shows with hstands | hshows | hany
      · exact absurd hrows hstands
      · exact Or.inr (Or.inl (hshows.of_entry ⟨rfl, rfl⟩ (Or.inl hsame.book)))
      · exact Or.inr (Or.inr hany)
    · exact ⟨hkeep, hc.countsOn_of_noWipe hnone, Or.inl hback⟩
  · -- a wipe past its deletion would have found no row
    have hstart : ∀ j r, c.threads j = some r → r.CountsOn
        { c.shared with s := dispatchMostroMessage env d c.shared.s } := fun j r hr =>
      (hc.tasks j r hr).of_step (fun h => absurd h hrows) (fun _ => ⟨rfl, rfl⟩) fun hrel =>
        absurd ((hc.tasks j r hr).rowless hrel) hrows
    by_cases hnil : (dispatchMostroMessage env d c.shared.s).trades = []
    · obtain ⟨hact, t, ht, hw, hsettles⟩ := dispatch_lost hrows hm.noCreate hnil
      have hstatus : c.shared.s.rowStatus = some t.order.status := by
        unfold OrderState.rowStatus
        rw [ht]
        rfl
      refine ⟨hkeep, hstart, Or.inr (Or.inl ?_)⟩
      exact hsettles.shows (hC.taken t (List.mem_of_head? ht)) hc.note
        (hm.wipes hact _ hstatus hw)
    · exact ⟨hkeep, hstart, Or.inl hnil⟩

theorem confirmTake_stores (env : Env) (a : TakeAttempt) (v : TakeVerdict) (now : Int)
    (s : OrderState) : (confirmTake env a v now s).wireNote = s.wireNote ∧
      (confirmTake env a v now s).trades ≠ [] := by
  have hentry : (syncTakenEntry v (s.storeTradeKeyIndex a.tradeIndex)).wireNote = s.wireNote := by
    unfold syncTakenEntry
    repeat' split
    all_goals rfl
  unfold confirmTake replayCounterparty
  dsimp only
  split
  · next peer hpeer =>
    have hne : peer ≠ "" := by
      rintro rfl
      obtain ⟨-, he⟩ := Option.filter_eq_some_iff.mp hpeer
      simp at he
    refine ⟨hentry, ?_⟩
    simp [hne, OrderState.persistConfirmedTake, TradeInfo.save]
  · exact ⟨hentry, by simp [OrderState.persistConfirmedTake, TradeInfo.save]⟩

/-- **Every step that meets the condition** keeps the order on track. -/
theorem tracks_step (env : Env) (c : Pool TakenOrder Task) (l : Label Task Oracle Locked)
    (c' : Pool TakenOrder Task) (hc : Tracks c) (hC : HandsBack env c l)
    (hn : (handBack env).next c l = some c') : Tracks c' := by
  cases l with
  | spawn i p =>
      obtain ⟨hopens, hfree, rfl⟩ := Prog.next_spawn.mp hn
      refine ⟨hc.note, fun j r hr => ?_,
        hc.shows.imp_right (·.imp_right fun h => h.spawn hfree)⟩
      rcases threads_update hr with ⟨-, hq⟩ | ⟨-, hold⟩
      · obtain rfl := Option.some.inj hq
        cases p
        case received f o => exact .of_noWipe rfl rfl
        case lockedCancel wipedAt => exact .of_noWipe rfl rfl
        case lockedWipe job pc =>
          cases pc <;> first | cases hopens | skip
          refine ⟨rfl, fun job' pc' hw => ?_⟩
          obtain ⟨rfl, rfl⟩ := Prod.mk.inj (Option.some.inj hw)
          exact ⟨hopens, fun v hv => by (cases hv), trivial⟩
        all_goals cases hopens
      · exact hc.tasks j r hold
  | step i w =>
      obtain ⟨p, x, q, hp, hs, rfl⟩ := Prog.next_step.mp hn
      obtain ⟨rfl, rfl⟩ := Prod.mk.inj (Option.some.inj hs)
      exact hc.task hC hp
  | env a =>
      obtain ⟨x, hx, rfl⟩ := Prog.next_env.mp hn
      obtain rfl := Option.some.inj hx
      cases a with
      | dispatch d => exact hc.dispatch hC
      | take a v now =>
          obtain ⟨hnote, hrows⟩ := confirmTake_stores env a v now c.shared.s
          refine ⟨fun n hn => hc.note n (hnote ▸ hn), ?_, Or.inl hrows⟩
          exact hc.countsOn_of_noWipe (hC.take a v now rfl)

end Steps

/-- Where a run may start: the note, if there is one, is the last view, and without a row the
book shows it. Nothing noted and nothing in the book, as when the client starts, will do. -/
structure TakenOrder.Current (x : TakenOrder) : Prop where
  note : ∀ n, x.s.wireNote = some n → x.view = some n.status
  shows : x.s.trades ≠ [] ∨ x.Shows

/-- **A lost take hands the order back**, in every run in which a handler enters no status but
the last view's once the wipe is past the entry, and a wipe can tell the last view until it has
settled the entry. -/
theorem lost_take_handed_back (env : Env) (x : TakenOrder) (hx : x.Current)
    (ls : List (Label Task Oracle Locked))
    (h : Along (handBack env).next (HandsBack env) (.idle x) ls) (c : Pool TakenOrder Task)
    (hr : run (handBack env).next (.idle x) ls = some c) : HandedBack c := by
  have h0 : Tracks (.idle x) :=
    ⟨hx.note, fun i p hp => by (cases hp), hx.shows.imp_right Or.inl⟩
  have hc := run_inv (tracks_step env) h0 h hr
  intro hdone hrows
  rcases hc.shows with hstands | hshows | hany
  · exact absurd hrows hstands
  · exact hshows
  · exact absurd hany (Pool.not_any_idle hdone)

/-! ## A handler that is done before the wipe, and one that is not -/

/-- A take that waits for our invoice, as the client starts. -/
def heldTake : TakenOrder :=
  { s := { orderId := "order"
           trades := [{ id := "row", order := { id := "order", kind := .sell
                                                status := .waitingBuyerInvoice }
                        role := .buyer, tradeKeyIndex := 3 }] } }

/-- The daemon's republish of the order. -/
def republished : OrderInfo := { id := "order", kind := .sell, status := .pending }

/-- Its handler, up to where it holds the entry masked with the trade's status. -/
def republishRead : List (Label Task Oracle Locked) :=
  .spawn 0 (.received .dTag republished) :: List.replicate 3 (.step 0 {})

/-- The wipe on the daemon's `canceled`, as the handler sees it. -/
def cancelWipes : List (Label Task Oracle Locked) :=
  .spawn 1 (.lockedCancel 20) :: List.replicate 7 (.step 1 {})

theorem handsBack_spawn {env : Env} {c : Pool TakenOrder Task} {i : Nat} {p : Task}
    (htaken : ∀ t ∈ c.shared.s.trades, t.order.isMine = false) :
    HandsBack env c (.spawn i p) :=
  ⟨htaken, fun _ _ _ _ _ _ hl => by (cases hl), fun _ _ _ _ hl => by (cases hl),
    fun _ _ _ _ hl => by (cases hl), fun _ hl => by (cases hl), fun _ _ _ hl => by (cases hl)⟩

/-- While the row stands, the step of a lone handler outside a wipe meets the condition. -/
theorem handsBack_of_solo {env : Env} {c : Pool TakenOrder Task} {i : Nat} {w : Oracle} {p : Task}
    (htaken : ∀ t ∈ c.shared.s.trades, t.order.isMine = false) (hstands : c.shared.s.trades ≠ [])
    (hc : Solo i c) (hi : c.threads i = some p) (hp : p.wipe = none) :
    HandsBack env c (.step i w) := by
  have hout : ∀ j q, c.threads j = some q → q.wipe = none := by
    intro j q hj
    by_cases hji : j = i
    · subst hji
      exact Option.some.inj (hi.symm.trans hj) ▸ hp
    · rw [hc j hji] at hj
      cases hj
  have hnone : ∀ b, ¬c.Any (Task.InWipe b) := by
    rintro b ⟨j, q, hj, job, pc, hw, -⟩
    rw [hout j q hj] at hw
    cases hw
  refine ⟨htaken, fun _ _ _ _ _ _ _ _ => Or.inr ⟨Or.inl hstands, hnone _⟩,
    fun _ _ _ _ _ _ _ hset => absurd hset (hnone _), fun j _ q job _ hj hw => ?_,
    fun _ hl => by (cases hl), fun _ _ _ hl => by (cases hl)⟩
  rw [hout j q hj] at hw
  cases hw

/-- The handler enters the view before the daemon's `canceled` arrives. -/
def republishFirst : List (Label Task Oracle Locked) :=
  republishRead ++ [.step 0 {}, .env (.dispatch { bareMessage .canceled 20 with tradeIndex := 3 })]

/-- The order is in the book again, as `pending`. -/
theorem republished_take_handed_back :
    ∃ c, run (handBack bareEnv).next (.idle heldTake) republishFirst = some c ∧ HandedBack c ∧
      c.shared.s.rowStatus = none ∧ c.shared.s.bookEntry = some republished := by
  refine ⟨_, rfl, lost_take_handed_back bareEnv heldTake ?_ republishFirst ?_ _ rfl, rfl, rfl⟩
  · exact ⟨fun n hn => by (cases hn), Or.inl (by decide)⟩
  have hmine : ∀ t ∈ heldTake.s.trades, t.order.isMine = false := by decide
  have hstands : heldTake.s.trades ≠ [] := by decide
  have hsolo : ∀ {x : TakenOrder} {c : Pool TakenOrder Task} (p : Option Task), Solo 0 c →
      Solo 0 (⟨x, Function.update c.threads 0 p⟩ : Pool TakenOrder Task) :=
    fun p hc => hc.update _ p
  have h0 := hsolo (x := heldTake) (some (Task.received .dTag republished)) (solo_idle 0 heldTake)
  refine ⟨handsBack_spawn hmine, fun c hc => ?_⟩
  obtain rfl := Option.some.inj hc
  refine ⟨handsBack_of_solo hmine hstands h0 rfl rfl, fun c hc => ?_⟩
  obtain rfl := Option.some.inj hc
  refine ⟨handsBack_of_solo hmine hstands (hsolo _ h0) rfl rfl, fun c hc => ?_⟩
  obtain rfl := Option.some.inj hc
  refine ⟨handsBack_of_solo hmine hstands (hsolo _ (hsolo _ h0)) rfl rfl, fun c hc => ?_⟩
  obtain rfl := Option.some.inj hc
  refine ⟨handsBack_of_solo hmine hstands (hsolo _ (hsolo _ (hsolo _ h0))) rfl rfl,
    fun c hc => ?_⟩
  obtain rfl := Option.some.inj hc
  refine ⟨⟨hmine, fun _ _ _ _ _ _ hl => by (cases hl), fun _ _ _ _ hl => by (cases hl),
    fun _ _ _ _ hl => by (cases hl), fun d hl => ?_, fun _ _ _ hl => by (cases hl)⟩,
    fun _ _ => trivial⟩
  cases hl
  exact ⟨rfl, fun _ _ _ _ => Or.inl rfl, fun hnil => absurd hnil hstands⟩

/-- The wipe runs between the handler's read and its write. -/
def wipeBetween : List (Label Task Oracle Locked) :=
  republishRead ++ cancelWipes ++ [.step 0 {}]

/-- **A masked entry outlives the wipe**: the handler has read the row, the wipe restores the
note, and the handler writes the trade's status over it. -/
theorem masked_entry_outlives_wipe :
    ∃ c, run (handBack bareEnv).next (.idle heldTake) wipeBetween = some c ∧ ¬HandedBack c ∧
      c.shared.view = some .pending ∧
      c.shared.s.bookEntry.map (·.status) = some .waitingBuyerInvoice := by
  refine ⟨_, rfl, fun h => ?_, rfl, rfl⟩
  have hbelow : wipeBetween.all (Label.below 2) = true := by decide
  have hdone := (below_idle 2 heldTake).run (P := handBack bareEnv) hbelow rfl
  have hshows := h (hdone.all_done (by decide)) rfl
  exact absurd (hshows.last _ rfl) (by decide)

end MostroApp.Orders
