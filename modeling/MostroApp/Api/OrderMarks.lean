import MostroApp.Api.FailedWrites
import MostroApp.Api.OrderState
import MostroApp.Lib.Text

set_option autoImplicit false

/-! # The marks of an order as texts (`api/orders.rs`, `api/invoice.rs`, `db/mod.rs`)

The status cursor, the wipe tombstone and the start of the invoice step are settings: texts under
keys built of their name and the order id, in the one table for all orders. `OrderState` has them as
values. What is read from the texts is what those values are, whatever is written for which order
and whichever writes fail (`settings_back_orders`).
-/

namespace MostroApp.OrderMarks

open Orders RowWrites Numeral Text

/-! ## Keys and texts -/

/-- The settings table. -/
abbrev Settings := String → Option String

def statusCursor (orderId : String) : String := "status_cursor:" ++ orderId

def invoiceStepStart (orderId : String) : String := "invoice_step_start:" ++ orderId

/-- The three keys of an order. -/
inductive Mark where
  | statusCursor
  | tradeWiped
  | invoiceStepStart
  deriving DecidableEq, Repr

def Mark.key : Mark → String → String
  | .statusCursor => OrderMarks.statusCursor
  | .tradeWiped => RowWrites.tradeWiped
  | .invoiceStepStart => OrderMarks.invoiceStepStart

/-- `format!("{status:?}")`. -/
def debugText : OrderStatus → List Char
  | .pending => "Pending".toList
  | .waitingBuyerInvoice => "WaitingBuyerInvoice".toList
  | .waitingPayment => "WaitingPayment".toList
  | .active => "Active".toList
  | .fiatSent => "FiatSent".toList
  | .settledHoldInvoice => "SettledHoldInvoice".toList
  | .success => "Success".toList
  | .canceled => "Canceled".toList
  | .expired => "Expired".toList
  | .cooperativelyCanceled => "CooperativelyCanceled".toList
  | .canceledByAdmin => "CanceledByAdmin".toList
  | .settledByAdmin => "SettledByAdmin".toList
  | .completedByAdmin => "CompletedByAdmin".toList
  | .dispute => "Dispute".toList
  | .inProgress => "InProgress".toList
  | .waitingTakerBond => "WaitingTakerBond".toList
  | .waitingMakerBond => "WaitingMakerBond".toList

/-- `WaitingPayment:1757712000`. -/
def parseStepStart (value : List Char) : Option (List Char × Int) :=
  (rsplitOnce ':' value).bind fun r => (parseSigned (2 ^ 63) r.2).map fun ts => (r.1, ts)

/-- The value to store for a step start, `none` when the stored one covers it. -/
def nextStepStart (existing : Option String) (status : List Char) (eventTs : Int) :
    Option String :=
  let opened := some (String.ofList (status ++ ':' :: written eventTs))
  match existing.bind fun value => parseStepStart value.toList with
  | some (storedStatus, storedTs) =>
      if storedStatus = status ∧ storedTs ≤ eventTs then none else opened
  | none => opened

/-! ## Reads -/

def loadStatusCursor (settings : Settings) (orderId : String) : Option Int :=
  (settings (statusCursor orderId)).bind fun value => parseSigned (2 ^ 63) value.toList

/-- Whether there is a tombstone that covers messages to the key of `tradeIndex`. -/
def wiped (settings : Settings) (orderId : String) (tradeIndex : UInt32) : Bool :=
  (settings (RowWrites.tradeWiped orderId)).any fun value =>
    tombstoneCovers value.toList tradeIndex

def tradeStepStartedAt (settings : Settings) (orderId : String) : Option Int :=
  ((settings (invoiceStepStart orderId)).bind fun value => parseStepStart value.toList).map (·.2)

/-! ## Writes -/

/-- The newest time a message is trusted to have, `i64::saturating_add`. -/
def horizon (now : Int) : Int := min (now + maxClockSkewSecs) (2 ^ 63 - 1)

/-- What is recorded for an order. A write of the settings that fails leaves them as they are, and
what else the call does stands. -/
inductive Write where
  | recordStatusEvent (eventTs : Int64) (now : Int)
  | recordInvoiceStepStart (status : OrderStatus) (eventTs : Int64) (now : Int)
  | wipeTradeRow (wipedAt : Int64) (wipedIndex : UInt32)
  | persistTradeRow (trade : TradeInfo)

structure Op where
  orderId : String
  write : Write
  saves : Bool := true

/-- The setting a write leaves, as the key and the text or none. -/
def Op.setting (op : Op) (settings : Settings) : Option (String × Option String) :=
  match op.write with
  | .recordStatusEvent eventTs now =>
      if eventTs.toInt > horizon now then none
      else if (loadStatusCursor settings op.orderId).any (· ≥ eventTs.toInt) then none
      else some (statusCursor op.orderId, some (String.ofList (written eventTs.toInt)))
  | .recordInvoiceStepStart status eventTs now =>
      if eventTs.toInt > horizon now then none
      else (nextStepStart (settings (invoiceStepStart op.orderId)) (debugText status)
        eventTs.toInt).map fun value => (invoiceStepStart op.orderId, some value)
  | .wipeTradeRow wipedAt wipedIndex =>
      some (RowWrites.tradeWiped op.orderId,
        some (String.ofList (written wipedAt.toInt ++ ':' :: Nat.toDigits 10 wipedIndex.toNat)))
  | .persistTradeRow _ => some (RowWrites.tradeWiped op.orderId, none)

def Op.run (settings : Settings) (op : Op) : Settings :=
  match op.setting settings with
  | some (key, value) => if op.saves then Function.update settings key value else settings
  | none => settings

/-- The same call on the order's record. -/
def Op.apply (op : Op) (s : OrderState) : OrderState :=
  match op.write with
  | .recordStatusEvent eventTs now =>
      if op.saves then s.recordStatusEvent eventTs.toInt now else s
  | .recordInvoiceStepStart status eventTs now =>
      if op.saves then s.recordInvoiceStepStart status eventTs.toInt now else s
  | .wipeTradeRow wipedAt wipedIndex =>
      if op.saves then s.wipeTradeRow wipedAt.toInt wipedIndex.toNat else s.deleteTradeByOrderId
  | .persistTradeRow trade =>
      if op.saves then s.persistTradeRow trade
      else { s.persistTradeRow trade with tradeWiped := s.tradeWiped }

def Op.applyTo (orders : String → OrderState) (op : Op) : String → OrderState :=
  Function.update orders op.orderId (op.apply (orders op.orderId))

/-! ## Keys apart -/

/-- The name a key begins with. -/
def Mark.name : Mark → List Char
  | .statusCursor => "status_cursor:".toList
  | .tradeWiped => "trade_wiped:".toList
  | .invoiceStepStart => "invoice_step_start:".toList

theorem Mark.toList_key (k : Mark) (i : String) : (k.key i).toList = k.name ++ i.toList := by
  cases k <;> exact String.toList_append ..

/-- The names begin with different letters. -/
theorem Mark.name_inj {k k' : Mark} {s t : List Char} (h : k.name ++ s = k'.name ++ t) :
    k = k' := by
  have hhead := congrArg List.head? h
  cases k <;> cases k' <;> first | rfl | exact absurd (Option.some.inj hhead) (by decide)

theorem Mark.key_inj {k k' : Mark} {i j : String} (h : k.key i = k'.key j) : k = k' ∧ i = j := by
  have htexts := congrArg String.toList h
  rw [Mark.toList_key, Mark.toList_key] at htexts
  obtain rfl := Mark.name_inj htexts
  exact ⟨rfl, String.toList_inj.mp (List.append_cancel_left htexts)⟩

theorem update_key (settings : Settings) (k k' : Mark) (i : String) (v : Option String) :
    Function.update settings (k.key i) v (k'.key i) =
      if k' = k then v else settings (k'.key i) := by
  by_cases hk : k' = k
  · subst hk
    rw [Function.update_self, if_pos rfl]
  · rw [Function.update_of_ne fun h => hk (Mark.key_inj h).1, if_neg hk]

/-- A call writes a setting of its own order. -/
theorem Op.setting_key {op : Op} {settings : Settings} {key : String} {value : Option String}
    (h : op.setting settings = some (key, value)) : ∃ k : Mark, key = k.key op.orderId := by
  unfold Op.setting at h
  split at h
  · split at h
    · cases h
    · split at h
      · cases h
      · exact ⟨.statusCursor, (Prod.mk.inj (Option.some.inj h)).1.symm⟩
  · split at h
    · cases h
    · obtain ⟨v, -, hv⟩ := Option.map_eq_some_iff.mp h
      exact ⟨.invoiceStepStart, (Prod.mk.inj hv).1.symm⟩
  · exact ⟨.tradeWiped, (Prod.mk.inj (Option.some.inj h)).1.symm⟩
  · exact ⟨.tradeWiped, (Prod.mk.inj (Option.some.inj h)).1.symm⟩

/-! ## Texts read back -/

/-- The statuses an arm names a step by, and any other. -/
def statuses : List OrderStatus :=
  [.pending, .waitingBuyerInvoice, .waitingPayment, .active, .fiatSent, .settledHoldInvoice,
    .success, .canceled, .expired, .cooperativelyCanceled, .canceledByAdmin, .settledByAdmin,
    .completedByAdmin, .dispute, .inProgress, .waitingTakerBond, .waitingMakerBond]

theorem find_debugText (a : OrderStatus) : statuses.find? (debugText · = debugText a) = some a := by
  cases a <;> rfl

theorem debugText_inj {a b : OrderStatus} : debugText a = debugText b ↔ a = b := by
  refine ⟨fun h => ?_, congrArg debugText⟩
  have ha := find_debugText a
  rw [h, find_debugText b] at ha
  exact (Option.some.inj ha).symm

theorem parseSigned_int64 (i : Int64) : parseSigned (2 ^ 63) (written i.toInt) = some i.toInt := by
  have hlow := i.le_toInt
  have hhigh := i.toInt_lt
  exact parseSigned_written (by push_cast; omega) (by push_cast; omega)

theorem parseStepStart_opened (status : List Char) (i : Int64) :
    parseStepStart (status ++ ':' :: written i.toInt) = some (status, i.toInt) := by
  unfold parseStepStart
  rw [rsplitOnce_append (notMem_written (by decide) (by decide) _), Option.bind_some,
    parseSigned_int64]
  rfl

/-- The index of a tombstone is read back: it covers its generation and the older ones. -/
theorem tombstoneCovers_written (wipedAt : Int) (wipedIndex i : UInt32) :
    tombstoneCovers (written wipedAt ++ ':' :: Nat.toDigits 10 wipedIndex.toNat) i =
      decide (i.toNat ≤ wipedIndex.toNat) := by
  have hdigits : ':' ∉ Nat.toDigits 10 wipedIndex.toNat := by
    intro h
    exact absurd (isDigit_of_mem_toDigits h) (by decide)
  have hparts : (written wipedAt ++ ':' :: Nat.toDigits 10 wipedIndex.toNat).splitOn ':' =
      [written wipedAt, Nat.toDigits 10 wipedIndex.toNat] := by
    rw [List.splitOn_append_cons_self_of_not_mem (notMem_written (by decide) (by decide) _),
      List.splitOn_eq_singleton hdigits]
  have hindex : parseUnsigned (2 ^ 32) (Nat.toDigits 10 wipedIndex.toNat) =
      some wipedIndex.toNat := parseUnsigned_toDigits wipedIndex.toNat_lt
  unfold tombstoneCovers
  simp only [hparts, List.getElem?_cons_succ, List.getElem?_cons_zero, Option.bind_some, hindex,
    Option.getD_some]

theorem horizon_lt_iff {eventTs : Int64} {now : Int} :
    eventTs.toInt > horizon now ↔ eventTs.toInt > now + maxClockSkewSecs := by
  have hhigh := eventTs.toInt_lt
  unfold horizon
  omega

/-! ## The texts back the record -/

/-- What is read from the settings of an order is what its record holds. -/
structure Backs (settings : Settings) (orderId : String) (s : OrderState) : Prop where
  cursor : loadStatusCursor settings orderId = s.statusCursor
  wiped : ∀ i : UInt32, wiped settings orderId i = s.tradeWiped.any (·.covers i.toNat)
  step : ((settings (invoiceStepStart orderId)).bind fun value => parseStepStart value.toList) =
    s.invoiceStepStart.map fun r => (debugText r.1, r.2)

variable {settings settings' : Settings} {orderId : String} {s : OrderState}

/-- It is read from the order's three settings. -/
theorem Backs.of_same (h : Backs settings orderId s)
    (hsame : ∀ k : Mark, settings' (k.key orderId) = settings (k.key orderId)) :
    Backs settings' orderId s where
  cursor := by
    have hcursor := h.cursor
    unfold loadStatusCursor at hcursor ⊢
    rwa [show settings' (statusCursor orderId) = _ from hsame .statusCursor]
  wiped i := by
    have hwiped := h.wiped i
    unfold OrderMarks.wiped at hwiped ⊢
    rwa [show settings' (RowWrites.tradeWiped orderId) = _ from hsame .tradeWiped]
  step := by
    have hstep := h.step
    rwa [show settings' (invoiceStepStart orderId) = _ from hsame .invoiceStepStart]

/-! A text under one key leaves what is read under the others. -/

theorem loadStatusCursor_update {k : Mark} (hk : .statusCursor ≠ k) (v : Option String) :
    loadStatusCursor (Function.update settings (k.key orderId) v) orderId =
      loadStatusCursor settings orderId := by
  unfold loadStatusCursor
  rw [show statusCursor orderId = Mark.statusCursor.key orderId from rfl, update_key, if_neg hk]

theorem wiped_update {k : Mark} (hk : .tradeWiped ≠ k) (v : Option String) (i : UInt32) :
    wiped (Function.update settings (k.key orderId) v) orderId i = wiped settings orderId i := by
  unfold wiped
  rw [show RowWrites.tradeWiped orderId = Mark.tradeWiped.key orderId from rfl, update_key,
    if_neg hk]

theorem invoiceStepStart_update {k : Mark} (hk : .invoiceStepStart ≠ k) (v : Option String) :
    Function.update settings (k.key orderId) v (invoiceStepStart orderId) =
      settings (invoiceStepStart orderId) := by
  rw [show invoiceStepStart orderId = Mark.invoiceStepStart.key orderId from rfl, update_key,
    if_neg hk]

/-- A new text under the cursor's key. -/
theorem Backs.set_cursor (h : Backs settings orderId s) (eventTs : Int64) :
    Backs (Function.update settings (Mark.statusCursor.key orderId)
        (some (String.ofList (written eventTs.toInt)))) orderId
      { s with statusCursor := some eventTs.toInt } where
  cursor := by
    unfold loadStatusCursor
    rw [show statusCursor orderId = Mark.statusCursor.key orderId from rfl, Function.update_self,
      Option.bind_some, String.toList_ofList, parseSigned_int64]
  wiped i := (wiped_update (by decide) _ i).trans (h.wiped i)
  step := by
    rw [invoiceStepStart_update (by decide)]
    exact h.step

/-- A new text under the step's key. -/
theorem Backs.set_step (h : Backs settings orderId s) (status : OrderStatus) (eventTs : Int64) :
    Backs (Function.update settings (Mark.invoiceStepStart.key orderId)
        (some (String.ofList (debugText status ++ ':' :: written eventTs.toInt)))) orderId
      { s with invoiceStepStart := some (status, eventTs.toInt) } where
  cursor := (loadStatusCursor_update (by decide) _).trans h.cursor
  wiped i := (wiped_update (by decide) _ i).trans (h.wiped i)
  step := by
    rw [show invoiceStepStart orderId = Mark.invoiceStepStart.key orderId from rfl,
      Function.update_self, Option.bind_some, String.toList_ofList, parseStepStart_opened]
    rfl

/-- A tombstone, or its end. -/
theorem Backs.set_wiped (h : Backs settings orderId s) (trades : List TradeInfo)
    {value : Option String} {tombstone : Option Tombstone}
    (hvalue : ∀ i : UInt32, (value.any fun value => tombstoneCovers value.toList i) =
      tombstone.any (·.covers i.toNat)) :
    Backs (Function.update settings (Mark.tradeWiped.key orderId) value) orderId
      { s with trades := trades, tradeWiped := tombstone } where
  cursor := (loadStatusCursor_update (by decide) _).trans h.cursor
  wiped i := by
    unfold OrderMarks.wiped
    rw [show RowWrites.tradeWiped orderId = Mark.tradeWiped.key orderId from rfl,
      Function.update_self]
    exact hvalue i
  step := by
    rw [invoiceStepStart_update (by decide)]
    exact h.step

/-- Its other stores are not marks. -/
theorem Backs.of_rows (h : Backs settings orderId s) (trades : List TradeInfo) :
    Backs settings orderId { s with trades := trades } :=
  ⟨h.cursor, h.wiped, h.step⟩

/-! ## One call -/

/-- Whether a stored step covers a message. -/
def covered (step : Option (OrderStatus × Int)) (status : OrderStatus) (eventTs : Int) : Bool :=
  step.any fun r => r.1 = status && r.2 ≤ eventTs

theorem nextStepStart_text (h : Backs settings orderId s) (status : OrderStatus) (eventTs : Int) :
    nextStepStart (settings (invoiceStepStart orderId)) (debugText status) eventTs =
      if covered s.invoiceStepStart status eventTs then none
      else some (String.ofList (debugText status ++ ':' :: written eventTs)) := by
  have hstep := h.step
  unfold nextStepStart covered
  dsimp only
  cases hs : s.invoiceStepStart with
  | none =>
      rw [hs] at hstep
      rw [hstep]
      rfl
  | some r =>
      rw [hs] at hstep
      rw [hstep]
      simp [debugText_inj]

theorem nextStepStart_record {step : Option (OrderStatus × Int)} {status : OrderStatus}
    {eventTs now : Int} (h : ¬ eventTs > now + maxClockSkewSecs) :
    Orders.nextStepStart step status eventTs now =
      if covered step status eventTs then step else some (status, eventTs) := by
  unfold Orders.nextStepStart covered
  rw [if_neg h]
  cases step with
  | none => rfl
  | some r => simp

/-- A call keeps the texts of its own order behind its record. -/
theorem Backs.run (op : Op) (h : Backs settings op.orderId s) :
    Backs (op.run settings) op.orderId (op.apply s) := by
  obtain ⟨orderId, write, saves⟩ := op
  cases write with
  | recordStatusEvent eventTs now =>
      -- Too far ahead of the clock, or not newer than the cursor: neither writes.
      by_cases hlate : eventTs.toInt > now + maxClockSkewSecs
      · simpa [Op.run, Op.setting, Op.apply, horizon_lt_iff.mpr hlate, hlate,
          OrderState.recordStatusEvent, nextCursor] using h
      · have hhorizon := mt horizon_lt_iff.mp hlate
        by_cases hold : s.statusCursor.any (· ≥ eventTs.toInt) = true
        · simpa [Op.run, Op.setting, Op.apply, hhorizon, hlate, h.cursor, hold,
            OrderState.recordStatusEvent, nextCursor] using h
        · cases saves with
          | false => simpa [Op.run, Op.setting, Op.apply, hhorizon, h.cursor, hold] using h
          | true =>
              have hset := h.set_cursor eventTs
              simpa [Op.run, Op.setting, Op.apply, hhorizon, hlate, h.cursor, hold,
                OrderState.recordStatusEvent, nextCursor, Mark.key] using hset
  | recordInvoiceStepStart status eventTs now =>
      by_cases hlate : eventTs.toInt > now + maxClockSkewSecs
      · simpa [Op.run, Op.setting, Op.apply, horizon_lt_iff.mpr hlate, hlate,
          OrderState.recordInvoiceStepStart, Orders.nextStepStart] using h
      · have hhorizon := mt horizon_lt_iff.mp hlate
        -- Text and record decide alike whether the step has a start that stays.
        have htext := nextStepStart_text h status eventTs.toInt
        have hrecord : Orders.nextStepStart s.invoiceStepStart status eventTs.toInt now = _ :=
          nextStepStart_record hlate
        by_cases hold : covered s.invoiceStepStart status eventTs.toInt = true
        · simpa [Op.run, Op.setting, Op.apply, hhorizon, htext, hrecord, hold,
            OrderState.recordInvoiceStepStart] using h
        · cases saves with
          | false => simpa [Op.run, Op.setting, Op.apply, hhorizon, htext, hold] using h
          | true =>
              have hset := h.set_step status eventTs
              simpa [Op.run, Op.setting, Op.apply, hhorizon, htext, hrecord, hold,
                OrderState.recordInvoiceStepStart, Mark.key] using hset
  | wipeTradeRow wipedAt wipedIndex =>
      cases saves with
      | false => exact h.of_rows []
      | true =>
          refine h.set_wiped [] fun i => ?_
          rw [Option.any_some, String.toList_ofList, tombstoneCovers_written]
          rfl
  | persistTradeRow trade =>
      cases saves with
      | false => exact h.of_rows (trade.save s.trades)
      | true => exact h.set_wiped (trade.save s.trades) fun i => rfl

/-- A call leaves the texts of the other orders alone. -/
theorem Backs.run_other {op : Op} (h : Backs settings orderId s) (hne : op.orderId ≠ orderId) :
    Backs (op.run settings) orderId s := by
  refine h.of_same fun k => ?_
  unfold Op.run
  cases hset : op.setting settings with
  | none => rfl
  | some r =>
      obtain ⟨k', hkey⟩ := Op.setting_key hset
      dsimp only
      split
      · rw [hkey]
        exact Function.update_of_ne (fun heq => hne (Mark.key_inj heq).2.symm) ..
      · rfl

/-! ## Every run -/

variable {orders : String → OrderState}

theorem backs_run {op : Op} (h : ∀ orderId, Backs settings orderId (orders orderId)) :
    ∀ orderId, Backs (op.run settings) orderId (op.applyTo orders orderId) := by
  intro orderId
  unfold Op.applyTo
  by_cases hid : orderId = op.orderId
  · subst hid
    rw [Function.update_self]
    exact (h op.orderId).run
  · rw [Function.update_of_ne hid]
    exact (h orderId).run_other (Ne.symm hid)

/-- **The settings back the records**: whatever is recorded for whichever orders, and whichever
writes fail, the texts read as what the records hold. -/
theorem settings_back_orders (h : ∀ orderId, Backs settings orderId (orders orderId))
    (ops : List Op) (orderId : String) :
    Backs (ops.foldl Op.run settings) orderId (ops.foldl Op.applyTo orders orderId) := by
  induction ops generalizing settings orders with
  | nil => exact h orderId
  | cons op ops ih => exact ih (backs_run h)

/-- A start of the app with nothing recorded. -/
theorem backs_empty (orderId : String) : Backs (fun _ => none) orderId { orderId := orderId } :=
  ⟨rfl, fun _ => rfl, rfl⟩

/-- Two orders, a step whose later message comes first, a write that fails, and a wipe. -/
def recorded : List Op :=
  [⟨"a", .recordInvoiceStepStart .waitingPayment 1500 1500, true⟩,
    ⟨"a", .recordStatusEvent 1500 1500, true⟩,
    ⟨"b", .recordStatusEvent 1700 1700, true⟩,
    ⟨"a", .recordInvoiceStepStart .waitingPayment (-900) 1501, true⟩,
    ⟨"a", .recordStatusEvent 1600 1600, false⟩,
    ⟨"a", .wipeTradeRow 1600 3, true⟩]

theorem recorded_back_orders :
    loadStatusCursor (recorded.foldl Op.run fun _ => none) "a" = some 1500 ∧
      tradeStepStartedAt (recorded.foldl Op.run fun _ => none) "a" = some (-900) ∧
      wiped (recorded.foldl Op.run fun _ => none) "a" 3 = true ∧
      wiped (recorded.foldl Op.run fun _ => none) "a" 4 = false := by
  have h := settings_back_orders backs_empty recorded "a"
  have hstep := congrArg (Option.map fun r : List Char × Int => r.2) h.step
  exact ⟨h.cursor.trans (by decide), hstep.trans (by decide), (h.wiped 3).trans (by decide),
    (h.wiped 4).trans (by decide)⟩

/-! ## The start of a step -/

/-- `status_write_blocked` on the texts; `terminal` is the answer of
`status_sync_blocked_by_terminal`. -/
def statusWriteBlocked (settings : Settings) (orderId : String) (terminal : Bool)
    (eventTs : Int) : Bool :=
  terminal || (loadStatusCursor settings orderId).any (eventTs < ·)

/-- It says what the dispatcher's does. -/
theorem Backs.statusWriteBlocked (h : Backs settings orderId s) (action : Wire.Action)
    (eventTs : Int) :
    OrderMarks.statusWriteBlocked settings orderId (s.statusSyncBlockedByTerminal action) eventTs =
      s.statusWriteBlocked action eventTs := by
  unfold OrderMarks.statusWriteBlocked OrderState.statusWriteBlocked
  rw [h.cursor]

/-- A message of the daemon for a step: what the arm finds out before, and which of its two writes
succeed. -/
structure StepMessage where
  eventTs : Int64
  now : Int
  /-- The arm drops it before: its row was wiped, or it has no payload for the step. -/
  dropped : Bool := false
  terminal : Bool := false
  cursorSaves : Bool := true
  saves : Bool := true

/-- What comes: a message for the step, or any other call that records something. -/
inductive Arrival where
  | step (m : StepMessage)
  | other (op : Op)

section Arrivals

variable (orderId : String) (status : OrderStatus)

/-- Whether the message gets past the checks of its arm. -/
def StepMessage.passes (settings : Settings) (m : StepMessage) : Bool :=
  !m.dropped && !OrderMarks.statusWriteBlocked settings orderId m.terminal m.eventTs.toInt

/-- What the `AddInvoice` and `PayInvoice` arms record of it. -/
def StepMessage.run (settings : Settings) (m : StepMessage) : Settings :=
  if m.passes orderId settings then
    let settings := Op.run settings ⟨orderId, .recordStatusEvent m.eventTs m.now, m.cursorSaves⟩
    Op.run settings ⟨orderId, .recordInvoiceStepStart status m.eventTs m.now, m.saves⟩
  else settings

def Arrival.run (settings : Settings) : Arrival → Settings
  | .step m => m.run orderId status settings
  | .other op => op.run settings

/-- The message passes, is not dated beyond the tolerated skew, and its write succeeds. -/
def StepMessage.counts (settings : Settings) (m : StepMessage) : Bool :=
  m.passes orderId settings && m.saves && m.eventTs.toInt ≤ m.now + maxClockSkewSecs

def Arrival.times (settings : Settings) : Arrival → List Int
  | .step m => if m.counts orderId settings then [m.eventTs.toInt] else []
  | .other _ => []

/-- The times of the messages that count, as they come. -/
def startTimes : Settings → List Arrival → List Int
  | _, [] => []
  | settings, a :: arrivals =>
      a.times orderId settings ++ startTimes (a.run orderId status settings) arrivals

/-- A call that is not about the order's step. -/
def Op.SparesStep (op : Op) : Prop :=
  op.orderId = orderId → ∀ status eventTs now, op.write ≠ .recordInvoiceStepStart status eventTs now

end Arrivals

/-- What an arrival makes of the record behind the texts. -/
structure Arrives (status : OrderStatus) (times : List Int) (s s' : OrderState) : Prop where
  step : s'.invoiceStepStart = match times with
    | [] => s.invoiceStepStart
    | t :: _ => if covered s.invoiceStepStart status t then s.invoiceStepStart else some (status, t)
  cursor : ∀ c, s.statusCursor = some c → ∃ c', s'.statusCursor = some c' ∧ c ≤ c'

theorem nextCursor_le {cursor : Option Int} (eventTs now : Int) {c : Int} (h : cursor = some c) :
    ∃ c', nextCursor cursor eventTs now = some c' ∧ c ≤ c' := by
  subst h
  unfold nextCursor
  by_cases hlate : eventTs > now + maxClockSkewSecs
  · exact ⟨c, by simp [hlate], le_rfl⟩
  · by_cases hold : eventTs ≤ c
    · exact ⟨c, by simp [hlate, hold], le_rfl⟩
    · exact ⟨eventTs, by simp [hlate, hold], by omega⟩

/-- Of the calls, one records a step and one moves the cursor, which never moves back. -/
theorem Op.apply_arrives {op : Op} (status : OrderStatus)
    (h : ∀ status eventTs now, op.write ≠ .recordInvoiceStepStart status eventTs now) :
    Arrives status [] s (op.apply s) := by
  obtain ⟨orderId, write, saves⟩ := op
  cases write with
  | recordInvoiceStepStart status eventTs now => exact absurd rfl (h status eventTs now)
  | recordStatusEvent eventTs now =>
      cases saves with
      | false => exact ⟨rfl, fun c hc => ⟨c, hc, le_rfl⟩⟩
      | true => exact ⟨rfl, fun c hc => nextCursor_le _ _ hc⟩
  | wipeTradeRow | persistTradeRow =>
      cases saves with
      | false => exact ⟨rfl, fun c hc => ⟨c, hc, le_rfl⟩⟩
      | true => exact ⟨rfl, fun c hc => ⟨c, hc, le_rfl⟩⟩

/-- A message that passes is not older than the cursor. -/
theorem StepMessage.passes_le {m : StepMessage} (h : Backs settings orderId s)
    (hpasses : m.passes orderId settings = true) {c : Int} (hc : s.statusCursor = some c) :
    c ≤ m.eventTs.toInt := by
  have hgate : OrderMarks.statusWriteBlocked settings orderId m.terminal m.eventTs.toInt =
      false := by
    simpa using (Bool.and_eq_true_iff.mp hpasses).2
  have hcursor := (Bool.or_eq_false_iff.mp hgate).2
  rw [h.cursor, hc] at hcursor
  simpa using hcursor

/-- What a message that passes makes of the start. -/
theorem step_apply (orderId : String) (status : OrderStatus) (m : StepMessage) (s : OrderState) :
    (Op.apply ⟨orderId, .recordInvoiceStepStart status m.eventTs m.now, m.saves⟩
      s).invoiceStepStart =
      if (m.saves && m.eventTs.toInt ≤ m.now + maxClockSkewSecs) = true ∧
          covered s.invoiceStepStart status m.eventTs.toInt = false then
        some (status, m.eventTs.toInt)
      else s.invoiceStepStart := by
  cases hsaves : m.saves with
  | false => simp [Op.apply]
  | true =>
      by_cases hlate : m.eventTs.toInt > m.now + maxClockSkewSecs
      · have hnot : ¬ m.eventTs.toInt ≤ m.now + maxClockSkewSecs := Int.not_le.mpr hlate
        simp [Op.apply, Orders.nextStepStart, hlate, hnot]
      · have htrusted : m.eventTs.toInt ≤ m.now + maxClockSkewSecs := Int.not_lt.mp hlate
        have hrecord : Orders.nextStepStart s.invoiceStepStart status m.eventTs.toInt m.now = _ :=
          nextStepStart_record hlate
        cases hcovered : covered s.invoiceStepStart status m.eventTs.toInt <;>
          simp [Op.apply, htrusted, hrecord, hcovered]

/-- One message. -/
theorem StepMessage.run_arrives (h : Backs settings orderId s) (status : OrderStatus)
    (m : StepMessage) : ∃ s', Backs (m.run orderId status settings) orderId s' ∧
      Arrives status ((Arrival.step m).times orderId settings) s s' ∧
      (m.cursorSaves = true → m.counts orderId settings = true →
        s'.statusCursor = some m.eventTs.toInt) := by
  unfold StepMessage.run
  cases hpasses : m.passes orderId settings with
  | false =>
      have htimes : (Arrival.step m).times orderId settings = [] := by
        simp [Arrival.times, StepMessage.counts, hpasses]
      rw [htimes]
      refine ⟨s, h, ⟨rfl, fun c hc => ⟨c, hc, le_rfl⟩⟩, fun _ hcounts => ?_⟩
      simp [StepMessage.counts, hpasses] at hcounts
  | true =>
      -- The cursor first, then the start of the step.
      let op₁ : Op := ⟨orderId, .recordStatusEvent m.eventTs m.now, m.cursorSaves⟩
      let op₂ : Op := ⟨orderId, .recordInvoiceStepStart status m.eventTs m.now, m.saves⟩
      have h₁ : Backs (op₁.run settings) orderId (op₁.apply s) := Backs.run op₁ h
      have h₂ : Backs (op₂.run (op₁.run settings)) orderId (op₂.apply (op₁.apply s)) :=
        Backs.run op₂ h₁
      have hspares : Arrives status [] s (op₁.apply s) := Op.apply_arrives status nofun
      have hcursor : (op₂.apply (op₁.apply s)).statusCursor = (op₁.apply s).statusCursor := by
        show (if m.saves then _ else _ : OrderState).statusCursor = _
        cases m.saves <;> rfl
      have hstep := step_apply orderId status m (op₁.apply s)
      rw [hspares.step] at hstep
      refine ⟨_, h₂, ⟨?_, fun c hc => ?_⟩, fun hsaves hcounts => ?_⟩
      · rw [hstep]
        cases hsaved : m.saves && decide (m.eventTs.toInt ≤ m.now + maxClockSkewSecs) with
        | false => simp [Arrival.times, StepMessage.counts, hpasses, hsaved]
        | true =>
            cases hcovered : covered s.invoiceStepStart status m.eventTs.toInt <;>
              simp [Arrival.times, StepMessage.counts, hpasses, hsaved, hcovered]
      · rw [hcursor]
        exact hspares.cursor c hc
      · rw [hcursor]
        have htrusted : ¬ m.eventTs.toInt > m.now + maxClockSkewSecs := by
          have := (Bool.and_eq_true_iff.mp hcounts).2
          exact Int.not_lt.mpr (by simpa using this)
        show (if m.cursorSaves then _ else _ : OrderState).statusCursor = _
        rw [hsaves]
        show nextCursor s.statusCursor m.eventTs.toInt m.now = _
        unfold nextCursor
        rw [if_neg htrusted]
        cases hs : s.statusCursor with
        | none => rfl
        | some c =>
            have hle := StepMessage.passes_le h hpasses hs
            by_cases heq : c = m.eventTs.toInt
            · simp [heq]
            · have hlt : ¬ m.eventTs.toInt ≤ c := by omega
              simp [hlt]

/-- One arrival. -/
theorem Arrival.run_arrives (h : Backs settings orderId s) (status : OrderStatus) {a : Arrival}
    (hspares : ∀ op, a = .other op → op.SparesStep orderId) :
    ∃ s', Backs (a.run orderId status settings) orderId s' ∧
      Arrives status (a.times orderId settings) s s' := by
  cases a with
  | step m =>
      obtain ⟨s', hs', harrives, -⟩ := StepMessage.run_arrives h status m
      exact ⟨s', hs', harrives⟩
  | other op =>
      by_cases hid : op.orderId = orderId
      · subst hid
        exact ⟨op.apply s, h.run, Op.apply_arrives status (hspares op rfl rfl)⟩
      · exact ⟨s, h.run_other hid, ⟨rfl, fun c hc => ⟨c, hc, le_rfl⟩⟩⟩

theorem Arrival.times_cases (orderId : String) (settings : Settings) (a : Arrival) :
    a.times orderId settings = [] ∨ ∃ t, a.times orderId settings = [t] := by
  unfold Arrival.times
  split
  · split
    · exact Or.inr ⟨_, rfl⟩
    · exact Or.inl rfl
  · exact Or.inl rfl

/-- A step that is open keeps the earliest time. -/
theorem arrivals_opened (h : Backs settings orderId s) {status : OrderStatus} {t : Int}
    (arrivals : List Arrival) (hspares : ∀ op, .other op ∈ arrivals → op.SparesStep orderId)
    (hopen : s.invoiceStepStart = some (status, t)) :
    ∃ s', Backs (arrivals.foldl (Arrival.run orderId status) settings) orderId s' ∧
      s'.invoiceStepStart =
        some (status, (startTimes orderId status settings arrivals).foldl min t) := by
  induction arrivals generalizing settings s t with
  | nil => exact ⟨s, h, hopen⟩
  | cons a arrivals ih =>
      obtain ⟨s', hs', harrives⟩ := Arrival.run_arrives h status (a := a) fun op hop =>
        hspares op (hop ▸ List.mem_cons_self)
      have hopen' : s'.invoiceStepStart =
          some (status, (a.times orderId settings).foldl min t) := by
        rw [harrives.step, hopen]
        rcases a.times_cases orderId settings with htimes | ⟨t', htimes⟩
        · rw [htimes]
          rfl
        · rw [htimes]
          by_cases hle : t ≤ t'
          · simp [covered, hle]
          · simp [covered, hle, min_eq_right (Int.le_of_lt (Int.not_le.mp hle))]
      obtain ⟨s'', hs'', hend⟩ := ih hs'
        (fun op hop => hspares op (List.mem_cons_of_mem _ hop)) hopen'
      refine ⟨s'', hs'', ?_⟩
      rw [hend, startTimes, List.foldl_append]

/-- A step that is not open is opened by the first message that counts. -/
theorem arrivals_new (h : Backs settings orderId s) {status : OrderStatus}
    (arrivals : List Arrival) (hspares : ∀ op, .other op ∈ arrivals → op.SparesStep orderId)
    (hnew : ∀ t, s.invoiceStepStart ≠ some (status, t)) :
    ∃ s', Backs (arrivals.foldl (Arrival.run orderId status) settings) orderId s' ∧
      s'.invoiceStepStart = match (startTimes orderId status settings arrivals).min? with
        | some t => some (status, t)
        | none => s.invoiceStepStart := by
  induction arrivals generalizing settings s with
  | nil => exact ⟨s, h, rfl⟩
  | cons a arrivals ih =>
      obtain ⟨s', hs', harrives⟩ := Arrival.run_arrives h status (a := a) fun op hop =>
        hspares op (hop ▸ List.mem_cons_self)
      have hrest : ∀ op, .other op ∈ arrivals → op.SparesStep orderId :=
        fun op hop => hspares op (List.mem_cons_of_mem _ hop)
      have hstep := harrives.step
      rcases a.times_cases orderId settings with htimes | ⟨t, htimes⟩
      · rw [htimes] at hstep
        obtain ⟨s'', hs'', hend⟩ := ih hs' hrest fun t => by
          rw [hstep]
          exact hnew t
        refine ⟨s'', hs'', ?_⟩
        rw [hend, startTimes, htimes, List.nil_append, hstep]
      · -- It opens the step; from there on the least time stays.
        have hnot : covered s.invoiceStepStart status t = false := by
          unfold covered
          cases hs : s.invoiceStepStart with
          | none => rfl
          | some r =>
              have hne : r.1 ≠ status := fun heq => hnew r.2 (by rw [hs, ← heq])
              simp [hne]
        rw [htimes] at hstep
        have hopen : s'.invoiceStepStart = some (status, t) := by
          rw [hstep]
          exact if_neg (Bool.eq_false_iff.mp hnot)
        obtain ⟨s'', hs'', hend⟩ := arrivals_opened hs' arrivals hrest hopen
        refine ⟨s'', hs'', ?_⟩
        rw [hend, startTimes, htimes, List.singleton_append, List.min?_cons']

/-- Where every write of the cursor succeeds, no message that counts is older than one before. -/
theorem startTimes_sorted (status : OrderStatus) (h : Backs settings orderId s)
    (arrivals : List Arrival) (hspares : ∀ op, .other op ∈ arrivals → op.SparesStep orderId)
    (hsaves : ∀ m, .step m ∈ arrivals → m.cursorSaves = true) :
    (∀ c, s.statusCursor = some c → ∀ t ∈ startTimes orderId status settings arrivals, c ≤ t) ∧
      (startTimes orderId status settings arrivals).Pairwise (· ≤ ·) := by
  induction arrivals generalizing settings s with
  | nil => exact ⟨fun c _ t ht => (nomatch ht), List.Pairwise.nil⟩
  | cons a arrivals ih =>
      have hrest : ∀ op, .other op ∈ arrivals → op.SparesStep orderId :=
        fun op hop => hspares op (List.mem_cons_of_mem _ hop)
      have hrestSaves : ∀ m, .step m ∈ arrivals → m.cursorSaves = true :=
        fun m hm => hsaves m (List.mem_cons_of_mem _ hm)
      rw [startTimes]
      cases htimes : a.times orderId settings with
      | nil =>
          obtain ⟨s', hs', harrives⟩ := Arrival.run_arrives h status (a := a) fun op hop =>
            hspares op (hop ▸ List.mem_cons_self)
          obtain ⟨hle, hsorted⟩ := ih hs' hrest hrestSaves
          refine ⟨fun c hc t ht => ?_, hsorted⟩
          obtain ⟨c', hc', hcc'⟩ := harrives.cursor c hc
          exact Int.le_trans hcc' (hle c' hc' t ht)
      | cons t rest =>
          cases a with
          | other op => cases htimes
          | step m =>
              have hcounts : m.counts orderId settings = true := by
                by_contra hno
                simp [Arrival.times, hno] at htimes
              have htime : [m.eventTs.toInt] = t :: rest := (if_pos hcounts).symm.trans htimes
              obtain ⟨rfl, rfl⟩ := List.cons_eq_cons.mp htime
              -- The cursor is at this message now, and lets no older one pass.
              obtain ⟨s', hs', -, hcursor⟩ := StepMessage.run_arrives h status m
              have hat := hcursor (hsaves m List.mem_cons_self) hcounts
              obtain ⟨hle, hsorted⟩ := ih hs' hrest hrestSaves
              have hpasses : m.passes orderId settings = true :=
                (Bool.and_eq_true_iff.mp (Bool.and_eq_true_iff.mp hcounts).1).1
              have hlater := hle _ hat
              refine ⟨fun c hc t ht => ?_, List.pairwise_cons.mpr ⟨hlater, hsorted⟩⟩
              have hc := StepMessage.passes_le h hpasses hc
              rcases List.mem_cons.mp ht with rfl | ht
              · exact hc
              · exact Int.le_trans hc (hlater t ht)

theorem Backs.tradeStepStartedAt (h : Backs settings orderId s) :
    tradeStepStartedAt settings orderId = s.invoiceStepStart.map (·.2) := by
  unfold OrderMarks.tradeStepStartedAt
  rw [h.step, Option.map_map]
  rfl

/-- **The countdown starts with the earliest message of its step** that gets past the dispatcher's
checks, in whatever order and however often the messages come and whatever but another step of the
order is recorded meanwhile; it is the first of them as long as the status cursor is written. -/
theorem step_start_is_earliest (h : Backs settings orderId s) {status : OrderStatus}
    (hnew : ∀ t, s.invoiceStepStart ≠ some (status, t)) (arrivals : List Arrival)
    (hspares : ∀ op, .other op ∈ arrivals → op.SparesStep orderId) :
    let times := startTimes orderId status settings arrivals
    OrderMarks.tradeStepStartedAt (arrivals.foldl (Arrival.run orderId status) settings) orderId =
        times.min?.or (OrderMarks.tradeStepStartedAt settings orderId) ∧
      ((∀ m, .step m ∈ arrivals → m.cursorSaves = true) → times.min? = times.head?) := by
  refine ⟨?_, fun hsaves => ?_⟩
  · obtain ⟨s', hs', hend⟩ := arrivals_new h arrivals hspares hnew
    rw [hs'.tradeStepStartedAt, hend, h.tradeStepStartedAt]
    cases (startTimes orderId status settings arrivals).min? <;> rfl
  · have hsorted := (startTimes_sorted status h arrivals hspares hsaves).2
    cases htimes : startTimes orderId status settings arrivals with
    | nil => rfl
    | cons t rest =>
        rw [htimes, List.pairwise_cons] at hsorted
        rw [List.head?_cons]
        refine List.min?_eq_some_iff.mpr ⟨List.mem_cons_self, fun t' ht' => ?_⟩
        rcases List.mem_cons.mp ht' with rfl | ht'
        · exact le_rfl
        · exact hsorted.1 t' ht'

/-- The cursor of the first message is not written, so an older one gets past it; the next one does
not, and the one after is dated too far ahead. Another status is recorded in between. -/
def resent : List Arrival :=
  [.step { eventTs := 1500, now := 1500, cursorSaves := false },
    .step { eventTs := 900, now := 1501 }, .step { eventTs := 800, now := 1502 },
    .step { eventTs := 9000, now := 1503 },
    .other ⟨"a", .recordStatusEvent 1200 1503, true⟩,
    .step { eventTs := 1500, now := 1504 }]

theorem step_start_is_earliest_resent :
    startTimes "a" .waitingPayment (fun _ => none) resent = [1500, 900, 1500] ∧
      tradeStepStartedAt (resent.foldl (Arrival.run "a" .waitingPayment) fun _ => none) "a" =
        some 900 := by
  have htimes : startTimes "a" .waitingPayment (fun _ => none) resent = [1500, 900, 1500] := by
    decide
  have hspares : ∀ op, Arrival.other op ∈ resent → op.SparesStep "a" := by
    intro op hop
    simp only [resent, List.mem_cons, List.not_mem_nil, Arrival.other.injEq, reduceCtorEq,
      false_or, or_false] at hop
    subst hop
    intro _ status eventTs now
    nofun
  have hnew : ∀ t, ({ orderId := "a" } : OrderState).invoiceStepStart ≠ some (.waitingPayment, t) :=
    fun t h => nomatch h
  have h := step_start_is_earliest (backs_empty "a") hnew resent hspares
  rw [htimes] at h
  exact ⟨htimes, h.1⟩

end MostroApp.OrderMarks
