import MostroApp.Api.Frames
import MostroApp.Lib.Interleaving

set_option autoImplicit false

/-! # The tasks that share an order (`api/orders.rs`)

What runs beside the dispatcher without the order's lock: the two handlers of public Kind 38383
events, the stale sweep and the history pass, and the wipe each of them may perform. A task is
its program counter with what it has read so far, and one step is one access to a store: between
any two of them the source awaits, or runs on another thread of the runtime.

A wipe made under the lock (the daemon's `canceled`, an unpaid bond, an abandoned one) is here
too, since the tasks that take no lock see it half done.
-/

namespace MostroApp.Orders

open Pending Status

/-! ## The wipe, one store at a time -/

/-- What a wipe was started with: the row it read. -/
structure WipeJob where
  wasTake : Bool
  wipedAt : Int
  wipedIndex : Nat
  deriving DecidableEq, Repr

/-- `wipe_never_active_trade` down to the stores: the row and its tombstone, the session, the
note, and the book entry of a take. -/
inductive WipePc where
  | deleteRow
  | writeTombstone
  | removeSession
  | takeNote
  | readEntry (noted : Option OrderInfo)
  | settle (d : OrderState.Settlement)
  deriving DecidableEq

/-- Write the wipe's tombstone. -/
@[simps] def OrderState.setTombstone (wipedAt : Int) (wipedIndex : Nat) (s : OrderState) :
    OrderState :=
  { s with tradeWiped := some ⟨wipedAt, some wipedIndex⟩ }

def WipePc.step (job : WipeJob) : WipePc → OrderState → OrderState × Option WipePc
  | .deleteRow, s => (s.deleteTradeByOrderId, some .writeTombstone)
  | .writeTombstone, s => (s.setTombstone job.wipedAt job.wipedIndex, some .removeSession)
  | .removeSession, s => (s.removeSession, some .takeNote)
  | .takeNote, s =>
      (s.forgetWireOrder, if job.wasTake then some (.readEntry s.wireNote) else none)
  | .readEntry noted, s => (s, some (.settle (OrderState.settlement noted (s.publicStatus noted))))
  | .settle d, s => (s.settleEntry d, none)

/-- A wipe deletes once, first. -/
theorem WipePc.step_ne_deleteRow {job : WipeJob} {p q : WipePc} {s : OrderState}
    (h : (p.step job s).2 = some q) : q ≠ .deleteRow := by
  rintro rfl
  cases p
  case takeNote =>
    simp only [WipePc.step] at h
    split at h <;> cases h
  all_goals cases h

/-- The job of a wipe of row `t`. -/
def WipeJob.of (t : TradeInfo) (wipedAt : Int) : WipeJob :=
  ⟨!t.order.isMine, wipedAt, t.tradeKeyIndex⟩

/-- Undisturbed steps, at most `fuel` of them. -/
def WipePc.finish (job : WipeJob) : Nat → Option WipePc → OrderState → OrderState
  | _, none, s => s
  | 0, _, s => s
  | fuel + 1, some p, s => finish job fuel (p.step job s).2 (p.step job s).1

/-- **Undisturbed, the six steps are the wipe.** -/
theorem WipePc.finish_eq (job : WipeJob) (s : OrderState) :
    WipePc.finish job 6 (some .deleteRow) s =
      s.wipeNeverActiveTrade job.wasTake job.wipedAt job.wipedIndex := by
  cases job with
  | mk wasTake wipedAt wipedIndex => cases wasTake <;> rfl

/-! ## The passes' decisions -/

/-- `SWEEP_MIN_AGE_SECS`. -/
def sweepMinAgeSecs : Int := 900

inductive SweepAction where
  | wipe
  | syncPending
  | syncSuccess
  | keep
  deriving DecidableEq, Repr

/-- What the sweep does with a stale trade, given its public status. -/
def sweepAction (isMine : Bool) (localStatus : OrderStatus) (bookStatus : Option OrderStatus) :
    SweepAction :=
  match localStatus, bookStatus with
  | .settledHoldInvoice, some .success => .syncSuccess
  | .settledHoldInvoice, _ => .keep
  | _, some .pending => if isMine then .syncPending else .wipe
  | _, some .canceled | _, some .expired | _, some .canceledByAdmin => .wipe
  | _, _ => .keep

/-- Whether the sweep examines a row: a settled one awaiting its payout, or one in a waiting
state past its deadline. -/
def sweepExamines (t : TradeInfo) (now : Int) : Bool :=
  match t.order.status with
  | .settledHoldInvoice => true
  | .waitingBuyerInvoice | .waitingPayment =>
      (t.timeoutAt.getD (t.startedAt + sweepMinAgeSecs)) < now
  | _ => false

/-- What the last restore found in progress. -/
structure RestoreSnapshot where
  floor : Nat
  live : List String
  deriving DecidableEq, Repr

def RestoreSnapshot.isHistory (x : RestoreSnapshot) (orderId : String) (tradeIndex : Nat) : Bool :=
  tradeIndex ≤ x.floor && !x.live.contains orderId

inductive HistoryAction where
  | markSuccess
  | wipe
  | retry
  deriving DecidableEq, Repr

/-- The fate of a history row. -/
def historyAction : Option OrderStatus → HistoryAction
  | some .success => .markSuccess
  | some _ => .wipe
  | none => .retry

/-- A row that still reads as in progress. -/
def readsInProgress : OrderStatus → Bool
  | .success | .canceled | .expired | .cooperativelyCanceled | .canceledByAdmin
  | .settledByAdmin | .completedByAdmin => false
  | _ => true

/-- The payout completion the public book reported, re-checked under the order's lock. -/
def applyPayoutCompleted (now : Int) (s : OrderState) : OrderState :=
  if s.localTradeStatus = some .settledHoldInvoice then
    ((s.updateOrderStatus .success).updateTradeFields (some .success) none none).emitTradeUpdateAt
      .success none now
  else s

/-- A history row the public book shows as completed, under the order's lock. -/
def markHistorySuccess (s : OrderState) : OrderState :=
  (s.updateTradeFields (some .success) none none).updateOrderStatus .success

/-! ## Program counters -/

/-- The two subscriptions that carry public events: the one of a single order, and the whole
book's. -/
inductive Feed where
  | dTag
  | book
  deriving DecidableEq, Repr

/-- Where a task stands. `o` is the order a handler carries (its status masked with the local one
once the public one was refused), `view` the status the event came with, `t` the row a pass
examines. -/
inductive Task where
  -- the public handlers
  | received (f : Feed) (o : OrderInfo)
  | refresh (o : OrderInfo)
  | publicCancel (f : Feed) (o : OrderInfo)
  | publicWipe (f : Feed) (o : OrderInfo) (job : WipeJob) (p : WipePc)
  | publicWiped (f : Feed) (o : OrderInfo)
  | forgetFinal (o : OrderInfo)
  | readRowStatus (f : Feed) (o : OrderInfo)
  | readEntryStatus (f : Feed) (o : OrderInfo)
  | readRow (f : Feed) (o : OrderInfo)
  | writeRow (f : Feed) (o : OrderInfo) (row : Option TradeInfo)
  | bookForget (view : OrderStatus) (o : OrderInfo)
  | bookOurs (view : OrderStatus) (o : OrderInfo)
  | enter (f : Feed) (view : OrderStatus) (o : OrderInfo) (ours : Bool)
  -- the stale sweep
  | sweepList
  | sweepBond (t : TradeInfo)
  | sweepBook (t : TradeInfo)
  | sweepFetch (t : TradeInfo)
  | sweepAct (t : TradeInfo) (bookStatus : Option OrderStatus)
  | sweepWipe (t : TradeInfo) (job : WipeJob) (p : WipePc)
  | sweepWiped
  -- the history pass
  | historyList (snapshot : RestoreSnapshot)
  | historyFetch (t : TradeInfo)
  | historyAct (t : TradeInfo) (publicStatus : Option OrderStatus)
  | historyWipe (t : TradeInfo) (job : WipeJob) (p : WipePc)
  -- a wipe under the order's lock
  | lockedCancel (wipedAt : Int)
  | lockedWipe (job : WipeJob) (p : WipePc)
  deriving DecidableEq

/-- What a step cannot know from the order: the clock, the relays' answer, and which row of a
listing the pass has come to. -/
structure Oracle where
  now : Int := 0
  publicStatus : Option OrderStatus := none
  listed : Nat := 0

/-! ## One step of a task -/

/-- A handler's decision on the local status it read: write the row first, or go on with the
order, masked where the public status was refused. The book's handler writes rows of ours only. -/
def afterLocalStatus (f : Feed) (o : OrderInfo) (loc : Option OrderStatus) : Task :=
  let applies := wireStatusApplies loc o.status
  if applies ∧ (f = .dTag ∨ o.isMine = true) then .readRow f o
  else
    let masked := if applies then o else { o with status := loc.getD o.status }
    match f with
    | .dTag => .enter .dTag o.status masked true
    | .book => .bookForget o.status masked

/-- A public event that ends an order. -/
def endsOrder : OrderStatus → Bool
  | .canceled | .expired | .canceledByAdmin => true
  | _ => false

/-- After the wipe decision of a handler, when nothing was wiped. -/
def afterPublicCancel (f : Feed) (o : OrderInfo) : Task :=
  match f with
  | .dTag => if isHardTerminal o.status then .forgetFinal o else .readRowStatus .dTag o
  | .book => .readRowStatus .book o

/-- The wipe inside a task: its own next step, or what follows it. -/
def Task.wiping (job : WipeJob) (p : WipePc) (s : OrderState) (k : WipePc → Task)
    (done : Option Task) : OrderState × Option Task :=
  match p.step job s with
  | (s, some p) => (s, some (k p))
  | (s, none) => (s, done)

/-- After a step of its wipe a task is at a later step of the wipe, or past it. -/
theorem wiping_snd {job : WipeJob} {pc : WipePc} {s : OrderState} {k : WipePc → Task}
    {done : Option Task} {q : Task} (h : (Task.wiping job pc s k done).2 = some q) :
    (∃ x, x ≠ .deleteRow ∧ q = k x) ∨ done = some q := by
  unfold Task.wiping at h
  split at h
  · next s' x hx =>
      have hx' : (pc.step job s).2 = some x := congrArg Prod.snd hx
      exact Or.inl ⟨x, WipePc.step_ne_deleteRow hx', (Option.some.inj h).symm⟩
  · exact Or.inr h

/-- One step: the order after it, and where the task stands then. -/
def Task.step (w : Oracle) : Task → OrderState → OrderState × Option Task
  | .received f o, s =>
      match f with
      | .dTag => (s.noteWireOrder o, some (.publicCancel .dTag o))
      | .book =>
          -- `is_mine` is restored from the row of a bound order
          let mine :=
            if s.tradeKey.isSome ∧ o.isMine = false then s.trade.map (·.order.isMine) else none
          (s, some (.refresh { o with isMine := mine.getD o.isMine }))
  | .refresh o, s =>
      (s.refreshWireOrder o,
        some (if o.status = .pending then .bookForget o.status o else .publicCancel .book o))
  | .publicCancel f o, s =>
      match s.trade with
      | some t =>
          if endsOrder o.status ∧ cancellationWipesHistory t.order.status then
            (s, some (.publicWipe f o (.of t w.now) .deleteRow))
          else (s, some (afterPublicCancel f o))
      | none => (s, some (afterPublicCancel f o))
  | .publicWipe f o job p, s =>
      Task.wiping job p s (.publicWipe f o job) (some (.publicWiped f o))
  | .publicWiped f o, s =>
      (s.emitTradeUpdateAt .canceled none w.now, match f with
        | .dTag => none
        | .book => some (.bookForget o.status o))
  | .forgetFinal o, s => (s.forgetWireOrder, some (.readRowStatus .dTag o))
  -- `local_trade_status`: the row, else the book
  | .readRowStatus f o, s =>
      (s, some (match s.rowStatus with
        | some loc => afterLocalStatus f o (some loc)
        | none => .readEntryStatus f o))
  | .readEntryStatus f o, s => (s, some (afterLocalStatus f o (s.bookEntry.map OrderInfo.status)))
  | .readRow f o, s => (s, some (.writeRow f o s.trade))
  | .writeRow f o row, s =>
      ((s.syncTradeFieldsIfChanged row (some o.status) none o.amountSats).1,
        some (match f with
          | .dTag => .enter .dTag o.status o true
          | .book => .bookForget o.status o))
  | .bookForget view o, s =>
      (if isHardTerminal view then s.forgetWireOrder else s, some (.bookOurs view o))
  | .bookOurs view o, s =>
      (s, some (.enter .book view o (o.isMine || (isHardTerminal o.status && s.tradeKey.isSome))))
  -- what was read several accesses ago is what is written
  | .enter _ _ o ours, s => (s.applyIngestedOrder o ours, none)
  | .sweepList, s =>
      match s.trades[w.listed]? with
      | some t =>
          if t.order.status = .waitingTakerBond ∨ t.order.status = .waitingMakerBond then
            (s, some (.sweepBond t))
          else (s, if sweepExamines t w.now then some (.sweepBook t) else none)
      | none => (s, none)
  | .sweepBond t, s => ((closeExpiredBondTrade t w.now s).1, none)
  | .sweepBook t, s =>
      (s, some (match s.bookEntry with
        | some o => .sweepAct t (some o.status)
        | none => .sweepFetch t))
  | .sweepFetch t, s => (s, some (.sweepAct t w.publicStatus))
  | .sweepAct t bookStatus, s =>
      match sweepAction t.order.isMine t.order.status bookStatus with
      | .syncSuccess => (applyPayoutCompleted w.now s, none)
      | .wipe => (s, some (.sweepWipe t (.of t w.now) .deleteRow))
      | .syncPending =>
          ((s.updateTradeFields (some .pending) none none).emitTradeUpdateAt .pending none w.now,
            none)
      | .keep => (s, none)
  | .sweepWipe t job p, s => Task.wiping job p s (.sweepWipe t job) (some .sweepWiped)
  | .sweepWiped, s => (s.emitTradeUpdateAt .canceled none w.now, none)
  | .historyList snapshot, s =>
      match s.trades[w.listed]? with
      | some t =>
          (s, if readsInProgress t.order.status && snapshot.isHistory s.orderId t.tradeKeyIndex then
            some (.historyFetch t) else none)
      | none => (s, none)
  | .historyFetch t, s => (s, some (.historyAct t w.publicStatus))
  | .historyAct t publicStatus, s =>
      match historyAction publicStatus with
      | .markSuccess => (markHistorySuccess s, none)
      -- never a take handed back to the book: the order is over
      | .wipe => (s, some (.historyWipe t ⟨false, w.now, t.tradeKeyIndex⟩ .deleteRow))
      | .retry => (s, none)
  | .historyWipe t job p, s => Task.wiping job p s (.historyWipe t job) none
  | .lockedCancel wipedAt, s =>
      match s.trade with
      | some t =>
          (s, if cancellationWipesHistory t.order.status then
            some (.lockedWipe (.of t wipedAt) .deleteRow) else none)
      | none => (s, none)
  | .lockedWipe job p, s => Task.wiping job p s (.lockedWipe job) none

/-! ## What a step writes -/

/-- Where the task stands in a wipe, if it does. -/
def Task.wipe : Task → Option (WipeJob × WipePc)
  | .publicWipe _ _ job p | .sweepWipe _ job p | .historyWipe _ job p | .lockedWipe job p =>
      some (job, p)
  | _ => none

theorem wiping_fst (job : WipeJob) (pc : WipePc) (s : OrderState) (k : WipePc → Task)
    (done : Option Task) : (Task.wiping job pc s k done).1 = (pc.step job s).1 := by
  unfold Task.wiping
  split <;> next h => rw [h]

/-- A preorder on orders that every write of a task respects, the wipes apart. -/
structure TaskStages (R : OrderState → OrderState → Prop) : Prop where
  refl : ∀ s, R s s
  trans : ∀ {s s' s''}, R s s' → R s' s'' → R s s''
  updateTradeFields : ∀ status invoice amount s, R s (s.updateTradeFields status invoice amount)
  updateTradeBond : ∀ b s, R s (s.updateTradeBond b)
  updateOrderStatus : ∀ status s, R s (s.updateOrderStatus status)
  upsertOrder : ∀ o s, R s (s.upsertOrder o)
  removeOrder : ∀ s, R s s.removeOrder
  noteWireOrder : ∀ o s, R s (s.noteWireOrder o)
  refreshWireOrder : ∀ o s, R s (s.refreshWireOrder o)
  forgetWireOrder : ∀ s, R s s.forgetWireOrder
  emitTradeUpdateAt : ∀ status reason ts s, R s (s.emitTradeUpdateAt status reason ts)

section Stages

variable {R : OrderState → OrderState → Prop} {s : OrderState}

/-- A preorder that follows from one the writes respect. -/
theorem TaskStages.mono {Q : OrderState → OrderState → Prop} (h : TaskStages R)
    (hQ : ∀ {s s'}, R s s' → Q s s') (trans : ∀ {s s' s''}, Q s s' → Q s' s'' → Q s s'') :
    TaskStages Q where
  refl s := hQ (h.refl s)
  trans := trans
  updateTradeFields status invoice amount s := hQ (h.updateTradeFields status invoice amount s)
  updateTradeBond b s := hQ (h.updateTradeBond b s)
  updateOrderStatus status s := hQ (h.updateOrderStatus status s)
  upsertOrder o s := hQ (h.upsertOrder o s)
  removeOrder s := hQ (h.removeOrder s)
  noteWireOrder o s := hQ (h.noteWireOrder o s)
  refreshWireOrder o s := hQ (h.refreshWireOrder o s)
  forgetWireOrder s := hQ (h.forgetWireOrder s)
  emitTradeUpdateAt status reason ts s := hQ (h.emitTradeUpdateAt status reason ts s)

theorem TaskStages.lockMakerBond (h : TaskStages R) (t : TradeInfo) (tradeIndex : Nat) (now : Int) :
    R s (lockMakerBond t tradeIndex now s).1 := by
  have hend : ∀ s, R s ((s.updateTradeFields (some .pending) none none).emitTradeUpdateAt
      .pending none now) := fun s =>
    h.trans (h.updateTradeFields _ _ _ s) (h.emitTradeUpdateAt _ _ _ _)
  unfold Orders.lockMakerBond
  split
  · exact h.refl s
  · dsimp only
    split
    · split
      · exact h.trans (h.updateTradeBond _ s) (hend _)
      · exact hend s
    · exact hend s

/-- The end of an unpaid bond locks a maker's published one, or wipes the row read under the
lock. -/
theorem TaskStages.closeExpiredBondTrade (h : TaskStages R) {listed : TradeInfo} {now : Int}
    (wipe : ∀ t, s.trade = some t → bondExpired t now = true →
      R s ((s.emitTradeUpdateAt .expired (some .bondExpired) now).wipeNeverActiveTrade
        (!t.order.isMine) now t.tradeKeyIndex)) :
    R s (closeExpiredBondTrade listed now s).1 := by
  unfold Orders.closeExpiredBondTrade
  split
  · exact h.refl s
  · next t ht =>
    split
    · exact h.refl s
    · next hexp =>
      split
      · exact h.lockMakerBond t _ now
      · have hnow : bondExpired t now = true := by
          simpa using (not_or.mp hexp).2
        exact wipe t ht hnow

/-- **What the writes respect the steps do**, wherever the wipes do. -/
theorem TaskStages.step (h : TaskStages R) {w : Oracle} {p : Task}
    (wipe : ∀ job pc, p.wipe = some (job, pc) → R s (pc.step job s).1)
    (bond : ∀ listed t, p = .sweepBond listed → s.trade = some t → bondExpired t w.now = true →
      R s ((s.emitTradeUpdateAt .expired (some .bondExpired) w.now).wipeNeverActiveTrade
        (!t.order.isMine) w.now t.tradeKeyIndex)) :
    R s (p.step w s).1 := by
  have hwipe : ∀ {job : WipeJob} {pc : WipePc} (k : WipePc → Task) (done : Option Task),
      p.wipe = some (job, pc) → R s (Task.wiping job pc s k done).1 := by
    intro job pc k done hp
    rw [wiping_fst]
    exact wipe job pc hp
  cases p
  case publicWipe f o job pc => exact hwipe _ _ rfl
  case sweepWipe t job pc => exact hwipe _ _ rfl
  case historyWipe t job pc => exact hwipe _ _ rfl
  case lockedWipe job pc => exact hwipe _ _ rfl
  case sweepBond listed => exact h.closeExpiredBondTrade fun t => bond listed t rfl
  case received f o => cases f <;> first | exact h.noteWireOrder o s | exact h.refl s
  case refresh o => exact h.refreshWireOrder o s
  case publicCancel f o =>
    simp only [Task.step]
    split
    · split <;> exact h.refl s
    · exact h.refl s
  case forgetFinal o => exact h.forgetWireOrder s
  case writeRow f o row =>
    show R s (s.syncTradeFieldsIfChanged row (some o.status) none o.amountSats).1
    unfold OrderState.syncTradeFieldsIfChanged
    split
    · exact h.updateTradeFields _ _ _ s
    · exact h.refl s
  case bookForget view o =>
    simp only [Task.step]
    split
    · exact h.forgetWireOrder s
    · exact h.refl s
  case enter f view o ours =>
    show R s (s.applyIngestedOrder o ours)
    unfold OrderState.applyIngestedOrder
    split
    · exact h.removeOrder s
    · exact h.upsertOrder o s
  case publicWiped f o => exact h.emitTradeUpdateAt _ _ _ s
  case sweepWiped => exact h.emitTradeUpdateAt _ _ _ s
  case sweepAct t book =>
    simp only [Task.step]
    split
    · unfold applyPayoutCompleted
      split
      · exact h.trans (h.updateOrderStatus _ s)
          (h.trans (h.updateTradeFields _ _ _ _) (h.emitTradeUpdateAt _ _ _ _))
      · exact h.refl s
    · exact h.refl s
    · exact h.trans (h.updateTradeFields _ _ _ s) (h.emitTradeUpdateAt _ _ _ _)
    · exact h.refl s
  case historyAct t status =>
    simp only [Task.step]
    split
    · exact h.trans (h.updateTradeFields _ _ _ s) (h.updateOrderStatus _ _)
    · exact h.refl s
    · exact h.refl s
  all_goals
    simp only [Task.step]
    repeat' split
    all_goals exact h.refl s

end Stages

end MostroApp.Orders
