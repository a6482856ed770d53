import MostroApp.Api.Tasks
import MostroApp.Api.Confirm
import MostroApp.Api.DeliveryOrder

set_option autoImplicit false

/-! # Public events against private statuses

The handlers of Kind 38383 events decide on a status of the trade they read several accesses
before they write the row, and take no lock. The file runs any number of them, of both feeds,
beside dispatches and confirmed takes, each of which is one step under the order's lock.

A handler that has decided to write a status that is not terminal counts on the row still being
`Pending`, or absent, at its write. Where no step moves the row off `Pending` in that window,
every write is one `wireStatusApplies` admits; one message in it is enough for an `in-progress`
bucket to replace the status the message set.
-/

namespace MostroApp.Orders

open Pending Status Interleaving Transition
open Wire (Action)

/-! ## The system -/

/-- What happens to an order under its lock, one step each. -/
inductive Locked where
  | dispatch (d : Delivery)
  | take (a : TakeAttempt) (v : TakeVerdict) (now : Int)

def Locked.act (env : Env) : Locked → OrderState → OrderState
  | .dispatch d, s => dispatchMostroMessage env d s
  | .take a v now, s => confirmTake env a v now s

/-- A handler starts with an event of the order. -/
def Task.isReceived : Task → Bool
  | .received _ _ => true
  | _ => false

/-- The public handlers of an order, beside what happens under its lock. -/
def publicFeed (env : Env) : Prog OrderState Task Oracle Locked where
  enter := Task.isReceived
  tstep w p s := some (p.step w s)
  act a s := some (a.act env s)

/-! ## The window between the read and the write -/

/-- The public status a handler is about to write, from its read of the row to its write. -/
def Task.deciding : Task → Option OrderStatus
  | .readEntryStatus _ o | .readRow _ o | .writeRow _ o _ => some o.status
  | _ => none

/-- The order's row, if there is one, is `Pending`. -/
def AtMostPending (s : OrderState) : Prop := ∀ status, s.rowStatus = some status → status = .pending

/-- The row takes public status `w`: it is terminal, or the row is at most `Pending`. -/
def Admits (w : OrderStatus) (s : OrderState) : Prop := isTerminalStatus w = true ∨ AtMostPending s

theorem Admits.applies {w : OrderStatus} {s : OrderState} (h : Admits w s) {status : OrderStatus}
    (hs : s.rowStatus = some status) : wireStatusApplies (some status) w = true :=
  (wireStatusApplies_iff status w).mpr (h.symm.imp_left fun hp => hp status hs)

/-- The thread a label moves, if it moves one. -/
def Label.actor {π ω α : Type} : Label π ω α → Option Nat
  | .spawn i _ | .step i _ => some i
  | .env _ => none

/-- The step does not move the row off `Pending` while another handler stands in its window with
a status that is not terminal. -/
def Undisturbed (env : Env) (c : Pool OrderState Task) (l : Label Task Oracle Locked) : Prop :=
  ∀ c', (publicFeed env).next c l = some c' → AtMostPending c.shared → ¬AtMostPending c'.shared →
    ∀ j p w, Label.actor l ≠ some j → c.threads j = some p → p.deciding = some w →
      isTerminalStatus w = true

/-- A write a public handler makes is one the row's status at that moment admits. -/
def WritesAdmitted (c : Pool OrderState Task) (l : Label Task Oracle Locked) : Prop :=
  ∀ i w f o row, l = .step i w → c.threads i = some (.writeRow f o row) →
    (c.shared.syncTradeFieldsIfChanged row (some o.status) none o.amountSats).2 = true →
      ∀ status, c.shared.rowStatus = some status → wireStatusApplies (some status) o.status = true

/-! ## The proof -/

/-- What a handler in its window counts on. -/
def Task.counts (p : Task) (s : OrderState) : Prop := ∀ w, p.deciding = some w → Admits w s

/-- The decision leads into the window only where the row takes the status. -/
theorem afterLocalStatus_counts {f : Feed} {o : OrderInfo} {loc : Option OrderStatus}
    {s : OrderState} (h : wireStatusApplies loc o.status = true → Admits o.status s) :
    (afterLocalStatus f o loc).counts s := by
  intro w hw
  unfold afterLocalStatus at hw
  dsimp only at hw
  split at hw
  · next hc =>
      obtain rfl : o.status = w := by simpa [Task.deciding] using hw
      exact h hc.1
  · cases f <;> cases hw

/-- Only the handlers' reads lead into the window. -/
theorem step_deciding {w : Oracle} {p q : Task} {s : OrderState} {v : OrderStatus}
    (h : (p.step w s).2 = some q) (hq : q.deciding = some v) :
    (∃ f o, p = .readRowStatus f o) ∨ (∃ f o, p = .readEntryStatus f o) ∨
      ∃ f o, p = .readRow f o := by
  have hcancel : ∀ f o, (afterPublicCancel f o).deciding = none := by
    intro f o
    unfold afterPublicCancel
    cases f
    · dsimp only
      split <;> rfl
    · rfl
  cases p
  case readRowStatus f o => exact Or.inl ⟨f, o, rfl⟩
  case readEntryStatus f o => exact Or.inr (Or.inl ⟨f, o, rfl⟩)
  case readRow f o => exact Or.inr (Or.inr ⟨f, o, rfl⟩)
  case publicCancel f o =>
    simp only [Task.step] at h
    repeat' split at h
    all_goals
      cases h
      first | cases hq | (rw [hcancel] at hq; cases hq)
  all_goals
    exfalso
    simp only [Task.step] at h
    repeat' split at h
    all_goals first
      | (cases h; cases hq)
      | cases h
      | (rcases wiping_snd h with ⟨x, -, rfl⟩ | hd
         · cases hq
         · cases hd <;> cases hq)

/-- A step of a handler establishes what its next window counts on. -/
theorem step_counts {w : Oracle} {p q : Task} {s : OrderState} (hp : p.counts s)
    (h : (p.step w s).2 = some q) : q.counts (p.step w s).1 := by
  intro v hv
  rcases step_deciding h hv with ⟨f, o, rfl⟩ | ⟨f, o, rfl⟩ | ⟨f, o, rfl⟩
  · show Admits v s
    cases hr : s.rowStatus with
    | none =>
        refine Or.inr fun status hs => ?_
        rw [hr] at hs
        cases hs
    | some loc =>
        have hq : afterLocalStatus f o (some loc) = q := by
          simpa [Task.step, hr] using h
        refine afterLocalStatus_counts (fun ha => ?_) v (hq ▸ hv)
        refine ((wireStatusApplies_iff loc o.status).mp ha).symm.imp_right fun hl status hs => ?_
        rw [hr, Option.some.injEq] at hs
        exact hs ▸ hl
  · have hq : afterLocalStatus f o (s.bookEntry.map OrderInfo.status) = q := by
      simpa [Task.step] using h
    exact afterLocalStatus_counts (fun _ => hp o.status rfl) v (hq ▸ hv)
  · obtain rfl : Task.writeRow f o s.trade = q := by simpa [Task.step] using h
    exact hp v hv

/-- The outline: a handler in its window counts on the row taking its status. -/
theorem publicFeed_outline (env : Env) :
    Outline (publicFeed env) (Undisturbed env) (fun _ => True) Task.counts := by
  -- a step that does not move the row off `Pending`, or meets no window with a status at stake
  have others : ∀ c c' (l : Label Task Oracle Locked) j r, Undisturbed env c l →
      (publicFeed env).next c l = some c' → Label.actor l ≠ some j → c.threads j = some r →
      r.counts c.shared → r.counts c'.shared := by
    intro c c' l j r hC hn hj hr hcounts v hv
    rcases hcounts v hv with hterm | hrow
    · exact Or.inl hterm
    · by_cases hoff : AtMostPending c'.shared
      · exact Or.inr hoff
      · exact Or.inl (hC c' hn hrow hoff j r v hj hr hv)
  refine ⟨?_, fun _ _ _ _ _ _ _ _ _ _ => trivial, ?_, ?_, fun _ _ _ _ _ _ => trivial, ?_⟩
  · intro c i p _ _ hp _ v hv
    cases p <;> first | (cases hv; cases hp) | cases hv
  · intro c i w p s p' hc _ hp hs
    have hstep : p.step w c.shared = (s, some p') := Option.some.inj hs
    have := step_counts (w := w) (hc.threads i p hp) (congrArg Prod.snd hstep)
    rwa [congrArg Prod.fst hstep] at this
  · intro c i w p s q j r hc hC hp hs hj hr
    have hn : (publicFeed env).next c (.step i w) = some ⟨s, Function.update c.threads i q⟩ :=
      Prog.next_step.mpr ⟨p, s, q, hp, hs, rfl⟩
    refine others c _ _ j r hC hn ?_ hr (hc.threads j r hr)
    exact fun e => hj (Option.some.inj e).symm
  · intro c a s i p hc hC hs hp
    have hn : (publicFeed env).next c (.env a) = some { c with shared := s } :=
      Prog.next_env.mpr ⟨s, hs, rfl⟩
    exact others c _ _ i p hC hn nofun hp (hc.threads i p hp)

/-- **Public events never undo a private status**, in any run none of whose steps moves the row
off `Pending` while a handler stands between its read and the write of a bucket. -/
theorem public_writes_admitted (env : Env) (s : OrderState) (ls : List (Label Task Oracle Locked))
    (h : Along (publicFeed env).next (Undisturbed env) (.idle s) ls) :
    Along (publicFeed env).next WritesAdmitted (.idle s) ls := by
  refine (publicFeed_outline env).along (fun c l hc _ => ?_) (poolInv_idle trivial) h
  intro i w f o row _ hi _ status hs
  exact (hc.threads i _ hi o.status rfl).applies hs

/-! ## Events beside a message, and overtaken by it -/

instance (s : OrderState) : Decidable (AtMostPending s) :=
  decidable_of_iff (∀ status ∈ s.rowStatus, status = .pending) Iff.rfl

/-- What `Undisturbed` asks of one thread. -/
def UndisturbedAt (env : Env) (c : Pool OrderState Task) (l : Label Task Oracle Locked) (j : Nat)
    (t : Option Task) : Prop :=
  ∀ c' ∈ (publicFeed env).next c l, AtMostPending c.shared → ¬AtMostPending c'.shared →
    Label.actor l ≠ some j → ∀ w ∈ t.bind Task.deciding, isTerminalStatus w = true

instance (env : Env) (c : Pool OrderState Task) (l : Label Task Oracle Locked) (j : Nat)
    (t : Option Task) : Decidable (UndisturbedAt env c l j t) := by
  unfold UndisturbedAt
  infer_instance

theorem undisturbed_of_at {env : Env} {c : Pool OrderState Task} {l : Label Task Oracle Locked}
    (h : ∀ j, UndisturbedAt env c l j (c.threads j)) : Undisturbed env c l :=
  fun c' hn hbefore hafter j _ w hactor hp hw =>
    h j c' hn hbefore hafter hactor w (Option.bind_eq_some_iff.mpr ⟨_, hp, hw⟩)

/-- A published order of ours, with its row `Pending`. -/
def publishedOrder : OrderState :=
  { orderId := "order"
    trades := [{ id := "order", order := { id := "order", kind := .buy, status := .pending
                                           isMine := true }
                 role := .buyer, tradeKeyIndex := 1 }] }

/-- Its public event once it was taken. -/
def takenEvent : OrderInfo := { id := "order", kind := .buy, status := .inProgress }

/-- The daemon's message about the same step of the trade: the buyer is to send an invoice. -/
def invoiceRequest : Delivery :=
  { bareMessage .addInvoice 10 with
    msg := { action := .addInvoice, createdAt := 10
             payload := some (.order { status := some .waitingBuyerInvoice, amount := 5000 }) } }

/-- It was paid out meanwhile, says another event. -/
def paidEvent : OrderInfo := { id := "order", kind := .buy, status := .success }

/-- The handler of the later event has read the pending row when the message is dispatched; that of
the earlier one comes after the message. -/
def beside : List (Label Task Oracle Locked) :=
  .spawn 0 (.received .dTag paidEvent) :: (List.replicate 4 ({} : Oracle)).map (.step 0) ++
    .env (.dispatch invoiceRequest) :: .spawn 1 (.received .dTag takenEvent) ::
    (List.replicate 4 ({} : Oracle)).map (.step 1) ++ (List.replicate 3 ({} : Oracle)).map (.step 0)

/-- The bucket leaves the message's status alone; the terminal event may replace it. -/
theorem beside_message_admitted :
    Along (publicFeed bareEnv).next WritesAdmitted (.idle publishedOrder) beside ∧
      (run (publicFeed bareEnv).next (.idle publishedOrder) (beside.take 10)).map
          (fun c => (c.shared.rowStatus, c.threads 0)) =
        some (some .waitingBuyerInvoice, some (.readRow .dTag paidEvent)) ∧
      (run (publicFeed bareEnv).next (.idle publishedOrder) beside).map (·.shared.rowStatus) =
        some (some .success) := by
  have hat : Along (publicFeed bareEnv).next
      (fun c l => ∀ j, UndisturbedAt bareEnv c l j (c.threads j)) (.idle publishedOrder) beside :=
    along_of_below_at 2 (fun _ _ _ _ _ _ _ _ _ _ hw => nomatch hw) (below_idle 2 _) rfl (by decide)
  exact ⟨public_writes_admitted bareEnv publishedOrder _ (hat.mono fun _ _ => undisturbed_of_at),
    by decide, by decide⟩

/-- The handler has read the pending row when the message is dispatched. -/
def overtaken : List (Label Task Oracle Locked) :=
  [.spawn 0 (.received .dTag takenEvent), .step 0 {}, .step 0 {}, .step 0 {},
    .env (.dispatch invoiceRequest), .step 0 {}]

/-- **The bucket replaces the message's status**: the handler stands before its write of
`in-progress`, the row reads `WaitingBuyerInvoice`, and the write goes through. -/
theorem in_progress_replaces_daemon_status :
    ¬Along (publicFeed bareEnv).next WritesAdmitted (.idle publishedOrder)
        (overtaken ++ [.step 0 {}]) ∧
      (run (publicFeed bareEnv).next (.idle publishedOrder) overtaken).map
          (·.shared.rowStatus) = some (some .waitingBuyerInvoice) ∧
      (run (publicFeed bareEnv).next (.idle publishedOrder) (overtaken ++ [.step 0 {}])).map
          (·.shared.rowStatus) = some (some .inProgress) := by
  refine ⟨fun h => ?_, by decide, by decide⟩
  obtain ⟨c, hc⟩ : ∃ c, run (publicFeed bareEnv).next (.idle publishedOrder) overtaken = some c :=
    ⟨_, rfl⟩
  have hbad := h.last hc 0 {} .dTag takenEvent c.shared.trade rfl
  obtain rfl := Option.some.inj hc
  exact absurd (hbad rfl rfl .waitingBuyerInvoice rfl) (by decide)

end MostroApp.Orders
