import MostroApp.Api.OrderState
import MostroApp.Lib.Broadcast
import MostroApp.Lib.Reading
import MostroApp.Lib.Transition

set_option autoImplicit false

/-! # The trade doorbell (`api/trade_touch.rs`, `trade_state_provider.dart`)

A write to a trade's book entry or row is followed by a touch of its order, which says nothing but
"read it again". The touches go over a bounded channel to one stream of the app, which tells the
screens; a screen follows one order: it reads, shows what it has read and waits to be rung, by a
touch of its order, by a stream that fell behind, or by a timer. It listens for the next ring before
it reads. The status screen is not shown a status that is not there.
-/

namespace MostroApp.TradeTouch

open Orders Broadcast Transition

/-! ## What a screen reads -/

/-- The status of a row in a bond window, if the row can be read. -/
def waitingBondStatus (s : Option OrderState) : Option OrderStatus :=
  ((s.bind (·.trade)).map (·.order.status)).filter fun status =>
    status = .waitingTakerBond || status = .waitingMakerBond

/-- The book's view of an order of ours: only a `pending` bucket is corrected. -/
def withBondWindow (order : OrderInfo) (loc : Option OrderStatus) : OrderInfo :=
  if order.status = .pending then { order with status := loc.getD order.status } else order

/-- The row of the order that `list_trades` puts first: the one started last. -/
def listedTrade (s : OrderState) : Option TradeInfo :=
  (s.trades.mergeSort fun a b => decide (b.startedAt ≤ a.startedAt)).head?

variable {β : Type}

/-- `get_order`, then `k` of what it returns. -/
def getOrder (k : Option OrderInfo → Reading OrderState β) : Reading OrderState β :=
  .look fun s => match s.bookEntry with
    | none => k none
    | some order => .ask fun s => k (some (withBondWindow order (waitingBondStatus s)))

/-- `list_trades`, as far as the order goes, then `k` of its row. A store that does not answer is
an error. -/
def listTrades (k : Option TradeInfo → Reading OrderState β) : Reading OrderState β :=
  .ask fun s => match s with
    | some s => k (listedTrade s)
    | none => .fails

theorem sure_getOrder {k : Option OrderInfo → Reading OrderState β} (h : ∀ order, (k order).Sure) :
    (getOrder k).Sure := by
  intro s
  show (match s.bookEntry with
    | none => k none
    | some order => Reading.ask fun s =>
        k (some (withBondWindow order (waitingBondStatus s)))).Sure
  split
  · exact h none
  · exact fun s => h _

theorem sure_listTrades {k : Option TradeInfo → Reading OrderState β}
    (h : ∀ trade, (k trade).Sure) : (listTrades k).Sure := fun s => h (listedTrade s)

/-- A provider: what it reads, which value is the last, whether it survives a failed read, and which
values the screen is shown. Only a store that does not answer makes a read fail. -/
structure Followed (β : Type) where
  reading : Reading OrderState β
  isFinal : β → Bool
  keepGoingOnError : Bool := false
  shows : β → Bool := fun _ => true
  sure : reading.Sure
  shows_final : ∀ v, isFinal v = true → shows v = true := by intro _ _; rfl

/-- Escrow settlement still awaits payout. -/
def isTerminal : OrderStatus → Bool
  | .success | .settledByAdmin | .completedByAdmin | .canceled | .expired
  | .cooperativelyCanceled | .canceledByAdmin => true
  | _ => false

def tradeAmountProvider : Followed (Option Nat) where
  reading := getOrder fun order => .done (order.bind (·.amountSats))
  isFinal := Option.isSome
  sure := sure_getOrder fun _ => trivial

/-- The entry's status, else the row's; `null` is left out. -/
def tradeStatusProvider : Followed (Option OrderStatus) where
  reading := getOrder fun order => match order with
    | some info => .done (some info.status)
    | none => listTrades fun trade => .done (trade.map (·.order.status))
  isFinal status := status.any isTerminal
  shows := Option.isSome
  sure := sure_getOrder fun order => match order with
    | some _ => trivial
    | none => sure_listTrades fun _ => trivial
  shows_final status h := by
    obtain ⟨s, rfl, -⟩ := (Option.any_eq_true _ _).mp h
    rfl

/-- `_followTradeRow`, behind the hold invoice and the row of the payment screen. -/
def tradeInfoProvider : Followed (Option TradeInfo) where
  reading := listTrades fun trade => .done trade
  isFinal trade := trade.any (·.holdInvoice.isSome)
  keepGoingOnError := true
  sure := sure_listTrades fun _ => trivial

/-! ## The doorbell -/

def capacity : Nat := 256

/-- Where `_followTrade` stands. -/
inductive Stage (β : Type) where
  | starts
  | reads (r : Reading OrderState β)
  | waits
  /-- At a final value. -/
  | ended
  /-- A read has failed, and the error is rethrown. -/
  | failed
  | disposed

/-- The stores, order by order, and one screen. `untouched` are the orders written since they were
touched last. The stream of touches is at `next`, or not subscribed, and `held` is a touch on its
way to its listeners, without an order id after a lag. Of the values yielded, `yielded` is the last
and `shown` the last that the screen is shown. `behind` is no part of the program: the stream broke,
a touch of the order reached nobody, or a look went unanswered, since the screen last began to
read. -/
structure Doorbell (β : Type) where
  orders : String → OrderState
  untouched : List String := []
  touches : List String := []
  next : Option Nat := none
  held : Option (Option String) := none
  stage : Stage β := .starts
  wake : Bool := false
  yielded : Option β := none
  shown : Option β := none
  behind : Bool := false

/-- What can happen. A touch may follow a write or stand for itself. -/
inductive Event where
  | writes (orderId : String) (s : OrderState)
  | touches (orderId : String)
  | subscribes
  | breaks
  | receives
  | delivers
  | begins
  | looks (answers : Bool)
  | yields
  | polls
  | disposes

variable (f : Followed β) (orderId : String)

/-- The touch of a received notification. -/
def touchOf : Received String → Option String
  | .value id => some id
  | .lagged => none

/-- Whether a touch rings the screen. -/
def ringsFor (orderId : String) (touch : Option String) : Bool := touch.all (· = orderId)

/-- One event; `none` where it is not possible. -/
def step (w : Doorbell β) : Event → Option (Doorbell β)
  | .writes id s => some { w with
      orders := Function.update w.orders id s
      untouched := id :: w.untouched }
  | .touches id => some { w with
      untouched := w.untouched.filter (· ≠ id)
      touches := w.touches ++ [id]
      behind := w.behind || decide (id = orderId ∧ w.next = none) }
  | .subscribes =>
      if w.next = none then some { w with next := some w.touches.length } else none
  -- the stream ends in an error, and with it what it had in hand
  | .breaks => some { w with next := none, held := none, behind := true }
  | .receives => match w.held, w.next with
      | none, some pos => (recv capacity w.touches pos).map fun r =>
          { w with held := some (touchOf r.1), next := some r.2 }
      | _, _ => none
  | .delivers => w.held.map fun touch =>
      { w with held := none, wake := w.wake || ringsFor orderId touch }
  | .begins => match w.stage, w.wake with
      | .starts, _ | .waits, true =>
          -- armed before the read
          some { w with stage := .reads f.reading, wake := false, behind := false }
      | _, _ => none
  | .looks answers => match w.stage with
      | .reads r => (r.step answers (w.orders orderId)).map fun r =>
          { w with stage := .reads r, behind := w.behind || !answers }
      | _ => none
  | .yields => match w.stage with
      | .reads (.done v) => some { w with
          yielded := some v
          shown := if f.shows v then some v else w.shown
          stage := if f.isFinal v then .ended else .waits }
      | .reads .fails => some { w with stage := if f.keepGoingOnError then .waits else .failed }
      | _ => none
  | .polls => match w.stage with
      | .waits => some { w with wake := true }
      | _ => none
  | .disposes => some { w with stage := .disposed }

/-! ## What is still to reach the screen -/

variable {f : Followed β} {orderId : String} {w w' : Doorbell β} {e : Event}

/-- Another read is sure to follow: the screen has been rung, or a touch of its order is in hand, on
the channel or still to come; or there is nothing to be sure of. -/
inductive Pending (orderId : String) (w : Doorbell β) : Prop where
  | rung (h : w.wake = true)
  | held (touch : Option String) (h : w.held = some touch) (rings : ringsFor orderId touch = true)
  | sent (pos : Nat) (h : w.next = some pos) (owed : Owed (· = orderId) pos w.touches)
  | untouched (h : orderId ∈ w.untouched)
  | behind (h : w.behind = true)

/-- What was yielded last, or what the read will come to, is what there is. -/
def Current (f : Followed β) (orderId : String) (w : Doorbell β) : Prop :=
  match w.stage with
  | .reads r => r.value (w.orders orderId) = f.reading.value (w.orders orderId)
  | .waits => ∀ v, f.reading.value (w.orders orderId) = some v → w.yielded = some v
  | _ => True

structure Inv (f : Followed β) (orderId : String) (w : Doorbell β) : Prop where
  inside : ∀ pos, w.next = some pos → pos ≤ w.touches.length
  shown : ∀ v, w.yielded = some v → f.shows v = true → w.shown = some v
  final : w.stage = .ended → ∃ v, w.yielded = some v ∧ f.isFinal v = true
  current : Pending orderId w ∨ Current f orderId w

/-- Where the doorbell is as it was, what was to come still is. -/
theorem Pending.frame (hp : Pending orderId w) (wake : w.wake = true → w'.wake = true)
    (held : w'.held = w.held) (next : w'.next = w.next)
    (touches : ∀ pos, Owed (· = orderId) pos w.touches → Owed (· = orderId) pos w'.touches)
    (untouched : orderId ∈ w.untouched → orderId ∈ w'.untouched)
    (behind : w.behind = true → w'.behind = true) : Pending orderId w' := by
  cases hp with
  | rung h => exact .rung (wake h)
  | held touch h rings => exact .held touch (held.trans h) rings
  | sent pos h owed => exact .sent pos (next.trans h) (touches pos owed)
  | untouched h => exact .untouched (untouched h)
  | behind h => exact .behind (behind h)

theorem ringsFor_touchOf {r : Received String} :
    ringsFor orderId (touchOf r) = true ↔ r.Concerns (· = orderId) := by
  cases r with
  | value id => simp [ringsFor, touchOf, Received.Concerns]
  | lagged => simp [ringsFor, touchOf, Received.Concerns]

/-! ## One event -/

theorem Inv.writes {id : String} {s : OrderState} (hw : Inv f orderId w)
    (h : step f orderId w (.writes id s) = some w') : Inv f orderId w' := by
  obtain rfl := Option.some.inj h
  refine ⟨hw.inside, hw.shown, hw.final, ?_⟩
  by_cases hid : id = orderId
  · exact Or.inl (.untouched (List.mem_cons.mpr (Or.inl hid.symm)))
  · refine hw.current.imp (fun hp => ?_) fun hc => ?_
    · exact hp.frame (fun h => h) rfl rfl (fun _ h => h) (List.mem_cons_of_mem _) fun h => h
    · have hsame : Function.update w.orders id s orderId = w.orders orderId :=
        Function.update_of_ne (Ne.symm hid) _ _
      unfold Current at hc ⊢
      dsimp only
      rw [hsame]
      exact hc

theorem Inv.touches {id : String} (hw : Inv f orderId w)
    (h : step f orderId w (.touches id) = some w') : Inv f orderId w' := by
  obtain rfl := Option.some.inj h
  refine ⟨fun pos hpos => ?_, hw.shown, hw.final, ?_⟩
  · have hle := hw.inside pos hpos
    simp only [List.length_append]
    omega
  · by_cases hid : id = orderId
    · refine Or.inl ?_
      by_cases hnext : w.next = none
      · exact .behind (by simp [hid, hnext])
      · obtain ⟨pos, hpos⟩ := Option.ne_none_iff_exists'.mp hnext
        exact .sent pos hpos (owed_of_append (hw.inside pos hpos) hid)
    · refine hw.current.imp (fun hp => ?_) fun hc => hc
      exact hp.frame (fun h => h) rfl rfl (fun _ h => h.append id)
        (fun h => List.mem_filter.mpr ⟨h, by simpa using Ne.symm hid⟩) fun h => by simp [h]

theorem Inv.receives (hw : Inv f orderId w) (h : step f orderId w .receives = some w') :
    Inv f orderId w' := by
  simp only [step] at h
  split at h
  · next pos hheld hnext =>
    obtain ⟨⟨r, pos'⟩, hr, rfl⟩ := Option.map_eq_some_iff.mp h
    refine ⟨fun p hp => ?_, hw.shown, hw.final, ?_⟩
    · obtain rfl := Option.some.inj hp
      exact (recv_bounds hr (by decide)).2
    · refine hw.current.imp (fun hp => ?_) fun hc => hc
      cases hp with
      | rung h => exact .rung h
      | held touch h => exact absurd (hheld.symm.trans h) nofun
      | sent p h owed =>
          obtain rfl := Option.some.inj (hnext.symm.trans h)
          rcases recv_of_owed owed hr with hc | howed
          · exact .held _ rfl (ringsFor_touchOf.mpr hc)
          · exact .sent pos' rfl howed
      | untouched h => exact .untouched h
      | behind h => exact .behind h
  · cases h

theorem Inv.delivers (hw : Inv f orderId w) (h : step f orderId w .delivers = some w') :
    Inv f orderId w' := by
  obtain ⟨touch, hheld, rfl⟩ := Option.map_eq_some_iff.mp h
  refine ⟨hw.inside, hw.shown, hw.final, hw.current.imp (fun hp => ?_) fun hc => hc⟩
  cases hp with
  | rung h => exact .rung (by simp [h])
  | held touch' h rings =>
      obtain rfl := Option.some.inj (hheld.symm.trans h)
      exact .rung (by simp [rings])
  | sent pos h owed => exact .sent pos h owed
  | untouched h => exact .untouched h
  | behind h => exact .behind h

theorem Inv.begins (hw : Inv f orderId w) (h : step f orderId w .begins = some w') :
    Inv f orderId w' := by
  simp only [step] at h
  split at h
  · obtain rfl := Option.some.inj h
    exact ⟨hw.inside, hw.shown, nofun, Or.inr rfl⟩
  · obtain rfl := Option.some.inj h
    exact ⟨hw.inside, hw.shown, nofun, Or.inr rfl⟩
  · cases h

theorem Inv.looks {answers : Bool} (hw : Inv f orderId w)
    (h : step f orderId w (.looks answers) = some w') : Inv f orderId w' := by
  simp only [step] at h
  split at h
  · next r hstage =>
    obtain ⟨r', hr, rfl⟩ := Option.map_eq_some_iff.mp h
    refine ⟨hw.inside, hw.shown, nofun, ?_⟩
    rcases hw.current with hp | hc
    · exact Or.inl (hp.frame (fun h => h) rfl rfl (fun _ h => h) (fun h => h) fun h => by simp [h])
    · rcases Reading.value_step hr with hno | hvalue
      · exact Or.inl (.behind (by simp [hno]))
      · refine Or.inr ?_
        simp only [Current, hstage] at hc
        exact hvalue.trans hc
  · cases h

theorem Inv.yields (hw : Inv f orderId w) (h : step f orderId w .yields = some w') :
    Inv f orderId w' := by
  have hpending : ∀ (stage : Stage β) (yielded shown : Option β), Pending orderId w →
      Pending orderId { w with stage := stage, yielded := yielded, shown := shown } :=
    fun _ _ _ hp => hp.frame (fun h => h) rfl rfl (fun _ h => h) (fun h => h) fun h => h
  simp only [step] at h
  split at h
  · next v hstage =>
    obtain rfl := Option.some.inj h
    refine ⟨hw.inside, fun v' hv' hshows => ?_, fun hended => ⟨v, rfl, ?_⟩,
      hw.current.imp (hpending _ _ _) fun hc => ?_⟩
    · obtain rfl := Option.some.inj hv'
      exact if_pos hshows
    · cases hfinal : f.isFinal v with
      | true => rfl
      | false =>
          rw [hfinal] at hended
          cases hended
    · simp only [Current, hstage] at hc
      unfold Current
      cases f.isFinal v with
      | true => trivial
      | false => exact fun v' hv' => hc.trans hv'
  · next hstage =>
    obtain rfl := Option.some.inj h
    refine ⟨hw.inside, hw.shown, fun hended => ?_, hw.current.imp (hpending _ _ _) fun hc => ?_⟩
    · cases hkeep : f.keepGoingOnError <;> rw [hkeep] at hended <;> cases hended
    · simp only [Current, hstage] at hc
      unfold Current
      cases f.keepGoingOnError with
      | true => exact fun v' hv' => absurd (hc.trans hv') nofun
      | false => trivial
  · cases h

/-- **What every event keeps.** -/
theorem Inv.step (hw : Inv f orderId w) (h : step f orderId w e = some w') : Inv f orderId w' := by
  cases e with
  | writes => exact hw.writes h
  | touches => exact hw.touches h
  | subscribes =>
      simp only [TradeTouch.step] at h
      split at h
      · next hnone =>
        obtain rfl := Option.some.inj h
        refine ⟨fun pos hpos => Nat.le_of_eq (Option.some.inj hpos).symm, hw.shown, hw.final,
          hw.current.imp (fun hp => ?_) fun hc => hc⟩
        cases hp with
        | rung h => exact .rung h
        | held touch h rings => exact .held touch h rings
        | sent pos h => exact absurd (hnone.symm.trans h) nofun
        | untouched h => exact .untouched h
        | behind h => exact .behind h
      · cases h
  | breaks =>
      obtain rfl := Option.some.inj h
      exact ⟨nofun, hw.shown, hw.final, Or.inl (.behind rfl)⟩
  | receives => exact hw.receives h
  | delivers => exact hw.delivers h
  | begins => exact hw.begins h
  | looks => exact hw.looks h
  | yields => exact hw.yields h
  | polls =>
      simp only [TradeTouch.step] at h
      split at h
      · obtain rfl := Option.some.inj h
        exact ⟨hw.inside, hw.shown, hw.final, Or.inl (.rung rfl)⟩
      · cases h
  | disposes =>
      obtain rfl := Option.some.inj h
      exact ⟨hw.inside, hw.shown, nofun, Or.inr trivial⟩

/-! ## At rest -/

/-- A screen that has just been opened; the stream of touches may be there already. -/
structure Opened (w : Doorbell β) : Prop where
  starts : w.stage = .starts
  fresh : w.yielded = none
  inside : ∀ pos, w.next = some pos → pos ≤ w.touches.length

/-- The screen waits, every touch has been dealt with, its order has been touched since it was last
written, and since it began to read the stream held and the touches and looks were not in vain. -/
structure Rests (orderId : String) (w : Doorbell β) : Prop where
  waits : w.stage = .waits
  unrung : w.wake = false
  free : w.held = none
  drained : ∀ pos, w.next = some pos → w.touches.length ≤ pos
  touched : orderId ∉ w.untouched
  answered : w.behind = false

theorem Opened.inv {w₀ : Doorbell β} (h : Opened w₀) : Inv f orderId w₀ := by
  refine ⟨h.inside, fun v hv => ?_, fun hended => ?_, Or.inr ?_⟩
  · rw [h.fresh] at hv
    cases hv
  · rw [h.starts] at hended
    cases hended
  · unfold Current
    rw [h.starts]
    trivial

theorem inv_run {w₀ : Doorbell β} {es : List Event} (h : Opened w₀)
    (hr : run (step f orderId) w₀ es = some w) : Inv f orderId w :=
  run_inv (C := fun _ _ => True) (fun _ _ _ hw _ hs => hw.step hs) h.inv (along_true _ _) hr

theorem Rests.not_pending (h : Rests orderId w) : ¬ Pending orderId w := by
  intro hp
  cases hp with
  | rung hrung => exact absurd (h.unrung.symm.trans hrung) nofun
  | held touch hheld => exact absurd (h.free.symm.trans hheld) nofun
  | sent pos hnext owed => exact not_owed_of_length_le (h.drained pos hnext) owed
  | untouched hmem => exact h.touched hmem
  | behind hbehind => exact absurd (h.answered.symm.trans hbehind) nofun

theorem Inv.rests_current (hw : Inv f orderId w) (h : Rests orderId w) {v : β}
    (hv : f.reading.value (w.orders orderId) = some v) :
    w.yielded = some v ∧ (f.shows v = true → w.shown = some v) := by
  have hc : Current f orderId w := hw.current.resolve_left h.not_pending
  unfold Current at hc
  rw [h.waits] at hc
  exact ⟨hc v hv, hw.shown v (hc v hv)⟩

/-- **No touch is lost.** Whatever is written and touched while a screen reads, however far the
stream of touches falls behind and whenever it was subscribed: a screen at rest has been given what
there is to read, and shows it unless it is left out. -/
theorem shown_is_current {w₀ : Doorbell β} {es : List Event} (h : Opened w₀)
    (hr : run (step f orderId) w₀ es = some w) (hrest : Rests orderId w) {v : β}
    (hv : f.reading.value (w.orders orderId) = some v) :
    w.yielded = some v ∧ (f.shows v = true → w.shown = some v) :=
  (inv_run h hr).rests_current hrest hv

/-- A take parked on its bond, which the book shows as `pending`. -/
def parked : OrderState where
  orderId := "o"
  bookEntry := some { id := "o", kind := .sell, status := .pending }
  trades := [⟨"o", { id := "o", kind := .sell, status := .waitingTakerBond }, .buyer, "", none, 7,
    none, none, 0, none, none, none, none⟩]

/-- The take goes on. -/
def goesOn : OrderState :=
  (parked.updateOrderStatus .waitingPayment).updateTradeFields (some .waitingPayment) none none

/-- Its status screen is opened. -/
def parkedScreen : Doorbell (Option OrderStatus) where
  orders _ := parked

theorem opened_parkedScreen : Opened parkedScreen := ⟨rfl, rfl, nofun⟩

/-- The write falls between the two looks of a read. -/
def overlapped : List Event :=
  [.begins, .subscribes, .looks true, .writes "o" goesOn, .touches "o", .looks true, .yields]

/-- The read that was overlapped comes to what never was; the touch corrects it. -/
theorem shown_is_current_overlapped :
    ∃ w w', run (step tradeStatusProvider "o") parkedScreen overlapped = some w ∧
      w.shown = some (some .pending) ∧
      run (step tradeStatusProvider "o") parkedScreen
        (overlapped ++ [.receives, .delivers, .begins, .looks true, .looks true, .yields]) =
        some w' ∧ w'.shown = some (some .waitingPayment) := by
  have h : run (step tradeStatusProvider "o") parkedScreen
      (overlapped ++ [.receives, .delivers, .begins, .looks true, .looks true, .yields]) = some _ :=
    rfl
  have hrest := shown_is_current opened_parkedScreen h
    ⟨rfl, rfl, rfl, fun _ hp => Nat.le_of_eq (Option.some.inj hp), List.not_mem_nil, rfl⟩ rfl
  exact ⟨_, _, rfl, rfl, h, hrest.2 rfl⟩

/-! ## Coming to rest -/

/-- What the stream, the screen and its timer do by themselves, as long as the store answers. -/
def Event.isOwn : Event → Bool
  | .receives | .delivers | .begins | .looks true | .yields | .polls => true
  | _ => false

def Event.isPoll : Event → Bool
  | .polls => true
  | _ => false

/-- Events of their own lead from `w` to `w'`, with so many polls at most. -/
def Leads (f : Followed β) (orderId : String) (polls : Nat) (w w' : Doorbell β) : Prop :=
  ∃ es, (∀ e ∈ es, Event.isOwn e = true) ∧ es.countP Event.isPoll ≤ polls ∧
    run (step f orderId) w es = some w'

theorem Leads.refl (w : Doorbell β) : Leads f orderId 0 w w :=
  ⟨[], fun _ h => (List.not_mem_nil h).elim, Nat.le_refl _, rfl⟩

theorem Leads.trans {m n : Nat} {w'' : Doorbell β} (h : Leads f orderId m w w')
    (h' : Leads f orderId n w' w'') : Leads f orderId (m + n) w w'' := by
  obtain ⟨es, hown, hpolls, hr⟩ := h
  obtain ⟨es', hown', hpolls', hr'⟩ := h'
  refine ⟨es ++ es', fun e he => ?_, ?_, (run_append hr es').trans hr'⟩
  · exact (List.mem_append.mp he).elim (hown e) (hown' e)
  · rw [List.countP_append]
    omega

theorem leads_step (hown : e.isOwn = true) (hpoll : e.isPoll = false)
    (h : step f orderId w e = some w') : Leads f orderId 0 w w' := by
  refine ⟨[e], fun e' he' => ?_, ?_, run_cons_eq_some.mpr ⟨w', h, rfl⟩⟩
  · obtain rfl := List.mem_singleton.mp he'
    exact hown
  · simp [hpoll]

theorem leads_polls (h : w.stage = .waits) : Leads f orderId 1 w { w with wake := true } := by
  refine ⟨[.polls], fun e' he' => ?_, Nat.le_refl _, run_cons_eq_some.mpr ⟨_, ?_, rfl⟩⟩
  · obtain rfl := List.mem_singleton.mp he'
    rfl
  · simp [step, h]

/-- The screen is not gone: it was not disposed and, where a failed read ends it, none has
failed. -/
def Alive (f : Followed β) (w : Doorbell β) : Prop :=
  match w.stage with
  | .failed | .disposed => False
  | .reads r => f.keepGoingOnError = true ∨ r.Sure
  | _ => True

/-- A read comes to its end. -/
theorem leads_read (orderId : String) {r : Reading OrderState β} (h : w.stage = .reads r)
    (hsure : f.keepGoingOnError = true ∨ r.Sure) :
    ∃ stage yielded shown,
      Leads f orderId 0 w { w with stage := stage, yielded := yielded, shown := shown } ∧
      (stage = .waits ∨ stage = .ended) := by
  induction hn : r.looks (w.orders orderId) generalizing w r with
  | zero =>
      cases r with
      | look | ask => cases hn
      | done v =>
          refine ⟨if f.isFinal v then .ended else .waits, some v,
            if f.shows v then some v else w.shown,
            leads_step (e := .yields) rfl rfl (by simp only [step, h]), ?_⟩
          cases f.isFinal v with
          | true => exact Or.inr rfl
          | false => exact Or.inl rfl
      | fails =>
          have hkeep : f.keepGoingOnError = true := hsure.resolve_right fun h => h
          exact ⟨.waits, w.yielded, w.shown,
            leads_step (e := .yields) rfl rfl (by simp [step, h, hkeep]), Or.inl rfl⟩
  | succ n ih =>
      obtain ⟨r', hstep, hlooks⟩ := Reading.step_of_looks hn
      have hlook : step f orderId w (.looks true) = some { w with stage := .reads r' } := by
        simp [step, h, hstep]
      obtain ⟨stage, yielded, shown, hleads, hend⟩ := ih (w := { w with stage := .reads r' }) rfl
        (hsure.imp_right fun hr => hr.step hstep) hlooks
      exact ⟨stage, yielded, shown, (leads_step rfl rfl hlook).trans hleads, hend⟩

/-- A screen that does not read, or has read to the end. -/
theorem leads_idle (orderId : String) {w : Doorbell β} (halive : Alive f w) :
    ∃ stage yielded shown,
      Leads f orderId 0 w { w with stage := stage, yielded := yielded, shown := shown } ∧
      (stage = .starts ∨ stage = .waits ∨ stage = .ended) := by
  have stay : ∀ stage, w.stage = stage → Leads f orderId 0 w { w with stage := stage } := by
    rintro stage rfl
    exact Leads.refl w
  unfold Alive at halive
  cases h : w.stage with
  | reads r =>
      rw [h] at halive
      obtain ⟨stage, yielded, shown, hleads, hend⟩ := leads_read orderId h halive
      exact ⟨stage, yielded, shown, hleads, Or.inr hend⟩
  | starts => exact ⟨_, w.yielded, w.shown, stay _ h, Or.inl rfl⟩
  | waits => exact ⟨_, w.yielded, w.shown, stay _ h, Or.inr (Or.inl rfl)⟩
  | ended => exact ⟨_, w.yielded, w.shown, stay _ h, Or.inr (Or.inr rfl)⟩
  | failed | disposed =>
      rw [h] at halive
      exact halive.elim

/-- What is in hand is delivered. -/
theorem leads_delivered (orderId : String) (w : Doorbell β) :
    ∃ wake, Leads f orderId 0 w { w with held := none, wake := wake } := by
  cases hheld : w.held with
  | none =>
      refine ⟨w.wake, ?_⟩
      have hsame : ({ w with held := none, wake := w.wake } : Doorbell β) = w := by
        rw [← hheld]
      rw [hsame]
      exact Leads.refl w
  | some touch => exact ⟨_, leads_step (e := .delivers) rfl rfl (by simp [step, hheld]; rfl)⟩

/-- A stream that is subscribed catches up. -/
theorem leads_drained (orderId : String) {pos : Nat} (h : w.next = some pos)
    (hle : pos ≤ w.touches.length) : ∃ wake, Leads f orderId 0 w
      { w with held := none, next := some w.touches.length, wake := wake } := by
  induction hn : w.touches.length - pos using Nat.strong_induction_on generalizing w pos with
  | _ n ih =>
      -- what is in hand first
      obtain ⟨wake, hhand⟩ := leads_delivered (f := f) orderId w
      cases hr : recv capacity w.touches pos with
      | none =>
          have hpos : pos = w.touches.length :=
            Nat.le_antisymm hle (recv_eq_none_iff.mp hr)
          refine ⟨wake, ?_⟩
          rw [← hpos, ← h]
          exact hhand
      | some r =>
          obtain ⟨r, pos'⟩ := r
          obtain ⟨hlt, hle'⟩ := recv_bounds hr (by decide)
          have hrecv : step f orderId { w with held := none, wake := wake } .receives =
              some { w with held := some (touchOf r), next := some pos', wake := wake } := by
            simp [step, h, hr]
          obtain ⟨wake', hrest⟩ := ih (w.touches.length - pos') (by omega)
            (w := { w with held := some (touchOf r), next := some pos', wake := wake }) rfl hle' rfl
          exact ⟨wake', (hhand.trans (leads_step rfl rfl hrecv)).trans hrest⟩

/-- The stream catches up, if there is one. -/
theorem leads_caught_up (orderId : String)
    (hle : ∀ pos, w.next = some pos → pos ≤ w.touches.length) : ∃ next wake,
      Leads f orderId 0 w { w with held := none, next := next, wake := wake } ∧
      ∀ pos, next = some pos → w.touches.length ≤ pos := by
  cases hnext : w.next with
  | none =>
      obtain ⟨wake, hhand⟩ := leads_delivered (f := f) orderId w
      refine ⟨none, wake, ?_, nofun⟩
      rw [← hnext]
      exact hhand
  | some pos =>
      obtain ⟨wake, hdrained⟩ := leads_drained (f := f) orderId hnext (hle pos hnext)
      exact ⟨_, wake, hdrained, fun p hp => Nat.le_of_eq (Option.some.inj hp)⟩

/-- From a stream that has caught up, a screen that is rung or behind reads once more. -/
theorem leads_rest (orderId : String)
    (hnext : ∀ pos, w.next = some pos → w.touches.length ≤ pos)
    (hheld : w.held = none) (huntouched : orderId ∉ w.untouched)
    (hstage : w.stage = .starts ∨ w.stage = .waits ∨ w.stage = .ended) :
    ∃ w', Leads f orderId (if w.behind then 1 else 0) w w' ∧ w'.orders = w.orders ∧
      (w'.stage = .ended ∨ Rests orderId w') := by
  -- a read that begins now ends at rest
  have hbegins : ∀ w₁ : Doorbell β, (∀ pos, w₁.next = some pos → w₁.touches.length ≤ pos) →
      w₁.held = none → orderId ∉ w₁.untouched → step f orderId w₁ .begins =
        some { w₁ with stage := .reads f.reading, wake := false, behind := false } →
      ∃ w', Leads f orderId 0 w₁ w' ∧ w'.orders = w₁.orders ∧
        (w'.stage = .ended ∨ Rests orderId w') := by
    intro w₁ hnext hheld huntouched hstep
    obtain ⟨stage, yielded, shown, hread, hend⟩ := leads_read (f := f) orderId
      (w := { w₁ with stage := .reads f.reading, wake := false, behind := false }) rfl
      (Or.inr f.sure)
    refine ⟨_, (leads_step rfl rfl hstep).trans hread, rfl, ?_⟩
    exact hend.symm.imp (fun h => h) fun h => ⟨h, rfl, hheld, hnext, huntouched, rfl⟩
  have hzero : ∀ w', Leads f orderId 0 w w' → Leads f orderId (if w.behind then 1 else 0) w w' := by
    rintro w' ⟨es, hown, hpolls, hr⟩
    exact ⟨es, hown, Nat.le_trans hpolls (Nat.zero_le _), hr⟩
  rcases hstage with hs | hs | hs
  · obtain ⟨w', hleads, hsame, hend⟩ := hbegins w hnext hheld huntouched (by simp [step, hs])
    exact ⟨w', hzero w' hleads, hsame, hend⟩
  · cases hwake : w.wake with
    | true =>
        obtain ⟨w', hleads, hsame, hend⟩ := hbegins w hnext hheld huntouched
          (by simp [step, hs, hwake])
        exact ⟨w', hzero w' hleads, hsame, hend⟩
    | false =>
        cases hbehind : w.behind with
        | false =>
            exact ⟨w, Leads.refl w, rfl, Or.inr ⟨hs, hwake, hheld, hnext, huntouched, hbehind⟩⟩
        | true =>
            obtain ⟨w', hleads, hsame, hend⟩ := hbegins { w with wake := true } hnext hheld
              huntouched (by simp [step, hs])
            exact ⟨w', (leads_polls hs).trans hleads, hsame, hend⟩
  · exact ⟨w, hzero w (Leads.refl w), rfl, Or.inl hs⟩

/-- **A screen comes to rest.** Once its order has been touched since its last write, and unless the
screen is gone, the stream, the screen and the store by themselves bring it to a final value or to
rest on what there is to read; the timer is needed once at most, and only if the stream broke or a
touch or a look was in vain. -/
theorem screen_settles {w₀ : Doorbell β} {es : List Event} (h : Opened w₀)
    (hr : run (step f orderId) w₀ es = some w) (huntouched : orderId ∉ w.untouched)
    (halive : Alive f w) :
    ∃ fs, (∀ e ∈ fs, Event.isOwn e = true) ∧
      fs.countP Event.isPoll ≤ (if w.behind then 1 else 0) ∧
      ∃ w', run (step f orderId) w fs = some w' ∧ w'.orders = w.orders ∧
        ((∃ v, w'.stage = .ended ∧ w'.shown = some v ∧ f.isFinal v = true) ∨
          Rests orderId w' ∧ ∀ v, f.reading.value (w.orders orderId) = some v →
            w'.yielded = some v ∧ (f.shows v = true → w'.shown = some v)) := by
  have hinv : Inv f orderId w := inv_run h hr
  -- a read that is under way ends, the stream catches up, and one more read may follow
  obtain ⟨stage, yielded, shown, hread, hstage⟩ := leads_idle orderId halive
  obtain ⟨next, wake, hdrained, hnext⟩ := leads_caught_up (f := f) orderId
    (w := { w with stage := stage, yielded := yielded, shown := shown }) hinv.inside
  obtain ⟨w', hrest, hsame, hend⟩ := leads_rest (f := f) orderId
    (w := { w with
      next := next, stage := stage, yielded := yielded, shown := shown, held := none
      wake := wake })
    hnext rfl huntouched hstage
  obtain ⟨fs, hown, hpolls, hrun⟩ := (hread.trans hdrained).trans hrest
  have hinv' : Inv f orderId w' :=
    run_inv (C := fun _ _ => True) (fun _ _ _ hw _ hs => hw.step hs) hinv (along_true _ _) hrun
  refine ⟨fs, hown, by simpa using hpolls, w', hrun, hsame, ?_⟩
  rcases hend with hended | hrests
  · obtain ⟨v, hv, hfinal⟩ := hinv'.final hended
    exact Or.inl ⟨v, hended, hinv'.shown v hv (f.shows_final v hfinal), hfinal⟩
  · exact Or.inr ⟨hrests, fun v hv => hinv'.rests_current hrests (hsame ▸ hv)⟩

theorem screen_settles_overlapped :
    ∃ w fs w', run (step tradeStatusProvider "o") parkedScreen overlapped = some w ∧
      fs.countP Event.isPoll ≤ 0 ∧
      run (step tradeStatusProvider "o") w fs = some w' ∧
      ((∃ v, w'.stage = .ended ∧ w'.shown = some v ∧ tradeStatusProvider.isFinal v = true) ∨
        Rests "o" w' ∧ w'.shown = some (some .waitingPayment)) := by
  have h : run (step tradeStatusProvider "o") parkedScreen overlapped = some _ := rfl
  obtain ⟨fs, -, hpolls, w', hr, -, hend⟩ :=
    screen_settles opened_parkedScreen h List.not_mem_nil trivial
  refine ⟨_, fs, w', h, hpolls, hr, hend.imp (fun h => h) fun hrest => ⟨hrest.1, ?_⟩⟩
  exact (hrest.2 _ rfl).2 rfl

end MostroApp.TradeTouch
