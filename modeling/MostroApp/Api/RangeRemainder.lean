import MostroApp.Api.Absorbing
import MostroApp.Api.DeliveryOrder
import MostroApp.Api.Identity
import MostroApp.Lib.Interleaving

set_option autoImplicit false

/-! # What is left of a range order (`api/orders.rs`, `mostro/actions.rs`)

A range order is taken for a part of its range. What is left becomes a new order, which the daemon
hands to the trade key its maker names in the last step of the maker's own part: the release of a
seller, the fiat-sent of a buyer. A step without the key settles the trade and loses what is left.
The key is derived for this step and covered by the decryption before the step goes out, and the
daemon's `new-order` to it is adopted as an order of ours.

The Kind 14 subscription of the key, opened and awaited before the step goes out, is left out, and
so is the content of the message the row does not decide.
-/

namespace MostroApp.RangeRemainder

open Orders Identity Interleaving Transition

/-! ## The closing step -/

/-- The steps that may name a key. -/
inductive Closing where
  | fiatSent
  | release
  deriving DecidableEq, Repr

/-- The side that takes the step. -/
def Closing.makerRole : Closing → TradeRole
  | .fiatSent => .buyer
  | .release => .seller

/-- Whether the row says that the step leaves a remainder to its sender: a range, made by this
client, which acts on the step's side of it. -/
def leavesRemainder (step : Closing) (trade : TradeInfo) : Bool :=
  trade.order.fiatAmountMin.isSome && trade.order.fiatAmountMax.isSome && trade.order.isMine &&
    trade.role = step.makerRole

/-- `action_message`: the order, the index of the key that signs, and the key named next. -/
structure StepMessage where
  orderId : String
  tradeIndex : Nat
  action : Closing
  nextTrade : Option (String × Nat)
  deriving DecidableEq, Repr

/-- A step handed to the relays, with the row its call has read. -/
structure Sent where
  message : StepMessage
  row : TradeInfo

/-- The index of the key it names. -/
def Sent.names (m : Sent) : Option Nat := m.message.nextTrade.map (·.2)

/-! ## Calls -/

/-- The app: the identity's counter, the stores of every order, and the indices the decryption
covers. `issued` is every index handed out, newest first, with the order it is to carry on where
that is what it is for; `sent` is every step, newest first. -/
structure App where
  device : Device
  orders : String → OrderState
  covered : List Nat := []
  issued : List (Nat × Option String) := []
  sent : List Sent := []

/-- What a step cannot know: whether the store answers, whether a write succeeds, whether the keys
load, and whether the order id is one. -/
structure Turn where
  answers : Bool := true
  saves : Bool := true
  loads : Bool := true
  parses : Bool := true

/-- Where a call stands: `send_fiat_sent` or `release_order` with
`next_trade_for_range_remainder`, or any other call that derives a key. -/
inductive Call where
  | looksUp (step : Closing) (orderId : String)
  | reads (step : Closing) (orderId : String) (tradeIndex : Nat)
  | derives (step : Closing) (orderId : String) (tradeIndex : Nat) (row : TradeInfo)
  | covers (step : Closing) (orderId : String) (tradeIndex : Nat) (row : TradeInfo) (next : Nat)
  | publishes (step : Closing) (orderId : String) (tradeIndex : Nat) (row : TradeInfo)
      (next : Option Nat)
  | requests
  | coversRequest (next : Nat)

variable (keyOf : Nat → String)

/-- `derive_trade_key`, with what it returned among the issued indices. -/
def App.derive (carriesOn : Option String) (saves : Bool) (s : App) : App × Option Nat :=
  match deriveTradeKey saves s.device with
  | (device, .ok next) =>
      ({ s with device := device, issued := (next, carriesOn) :: s.issued }, some next)
  | (device, .error _) => ({ s with device := device }, none)

/-- `ensure_global_dm_coverage`. -/
def App.cover (next : Nat) (s : App) : App :=
  { s with covered := if next ∈ s.covered then s.covered else s.covered ++ [next] }

/-- A call's next step. A call that fails ends, and nothing goes out. -/
def Call.step (w : Turn) : Call → App → App × Option Call
  | .looksUp step id, s =>
      -- no persisted key, or its keys do not load
      (s, if w.answers && w.loads then (s.orders id).tradeKey.map (.reads step id ·) else none)
  | .reads step id index, s =>
      (s, if w.answers then (s.orders id).trade.map fun row =>
          if leavesRemainder step row then .derives step id index row
          else .publishes step id index row none
        else none)
  | .derives step id index row, s =>
      ((s.derive (some id) w.saves).1,
        (s.derive (some id) w.saves).2.map (.covers step id index row ·))
  | .covers step id index row next, s =>
      if w.loads then (s.cover next, some (.publishes step id index row (some next))) else (s, none)
  | .publishes step id index row next, s =>
      if w.parses then
        let message := ⟨id, index, step, next.map fun n => (keyOf n, n)⟩
        ({ s with sent := ⟨message, row⟩ :: s.sent }, none)
      else (s, none)
  | .requests, s => ((s.derive none w.saves).1, (s.derive none w.saves).2.map .coversRequest)
  | .coversRequest next, s => (s.cover next, none)

/-- Whatever else happens to an order's stores, and a raise of the counter. -/
inductive Act where
  | writes (orderId : String) (s : OrderState)
  | ensures (floor : Nat) (saves : Bool)

def Act.act (s : App) : Act → App
  | .writes id order => { s with orders := Function.update s.orders id order }
  | .ensures floor saves => { s with device := (ensureTradeKeyIndexAtLeast floor saves s.device).1 }

/-- Any number of steps of any orders, beside whatever else there is. -/
def closingProg : Prog App Call Turn Act where
  enter
    | .looksUp .. | .requests => true
    | _ => false
  tstep w p s := some (p.step keyOf w s)
  act a s := some (a.act s)

/-! ## The counter -/

/-- The counter in memory is at least `n`. -/
def AtLeast (n : Nat) (d : Device) : Prop := ∃ info, d.memory = some info ∧ n ≤ info.tradeKeyIndex

/-- A derivation hands out an index above the counter and raises it, or fails. -/
theorem App.derive_cases (carriesOn : Option String) (saves : Bool) (s : App) :
    (∃ device next, s.derive carriesOn saves =
        ({ s with device := device, issued := (next, carriesOn) :: s.issued }, some next) ∧
      AtLeast next device ∧ ∀ n, AtLeast n s.device → n < next) ∨
    ∃ device, s.derive carriesOn saves = ({ s with device := device }, none) ∧
      ∀ n, AtLeast n s.device → AtLeast n device := by
  unfold App.derive
  cases hr : (deriveTradeKey saves s.device).2 with
  | ok next =>
      obtain ⟨info, hm, rfl, hdev⟩ := deriveTradeKey_ok hr
      rw [show deriveTradeKey saves s.device = (_, .ok (info.tradeKeyIndex + 1)) from
        Prod.ext hdev hr]
      refine Or.inl ⟨_, _, rfl, ⟨_, rfl, Nat.le_refl _⟩, ?_⟩
      rintro n ⟨info', hm', hn⟩
      obtain rfl := Option.some.inj (hm.symm.trans hm')
      omega
  | error e =>
      rw [show deriveTradeKey saves s.device = ((deriveTradeKey saves s.device).1, .error e) from
        Prod.ext rfl hr]
      refine Or.inr ⟨_, rfl, ?_⟩
      rintro n ⟨info, hm, hn⟩
      rcases deriveTradeKey_error hr with hsame | ⟨info', hm', hdev⟩
      · rw [hsame]
        exact ⟨info, hm, hn⟩
      · obtain rfl := Option.some.inj (hm.symm.trans hm')
        rw [hdev]
        exact ⟨_, rfl, Nat.le_succ_of_le hn⟩

theorem ensure_atLeast (floor : Nat) (saves : Bool) {d : Device} {n : Nat} (h : AtLeast n d) :
    AtLeast n (ensureTradeKeyIndexAtLeast floor saves d).1 := by
  rcases ensureTradeKeyIndexAtLeast_cases floor saves d with
    ⟨e, he⟩ | ⟨info, hm, hle, he⟩ | ⟨info, hm, hlt, he⟩
  · rw [he]
    exact h
  · rw [he]
    exact h
  · obtain ⟨info', hm', hn⟩ := h
    obtain rfl := Option.some.inj (hm.symm.trans hm')
    rw [he]
    exact ⟨_, rfl, by show n ≤ floor; omega⟩

/-! ## Keys that are one step's alone -/

/-- The key a call has derived and not yet named. -/
def Call.holds : Call → Option Nat
  | .covers _ _ _ _ next => some next
  | .publishes _ _ _ _ next => next
  | _ => none

/-- The indices the steps have named. -/
def App.named (s : App) : List Nat := s.sent.filterMap Sent.names

/-- What a step that is out says: it names a key exactly where its row says so, and the key was
issued to carry on this order and is covered. -/
structure SaysWhatIsLeft (s : App) (m : Sent) : Prop where
  asked : m.message.nextTrade.isSome = leavesRemainder m.message.action m.row
  key : ∀ pk next, m.message.nextTrade = some (pk, next) → pk = keyOf next ∧
    (next, some m.message.orderId) ∈ s.issued ∧ next ∈ s.covered

/-- An index is issued once, none is above the counter, and a key is named once. -/
structure Counted (s : App) : Prop where
  bounded : ∀ e ∈ s.issued, AtLeast e.1 s.device
  once : (s.issued.map (·.1)).Nodup
  namedOnce : s.named.Nodup
  told : ∀ m ∈ s.sent, SaysWhatIsLeft keyOf s m

/-- What a call knows: what its row says, and of a key it holds that it is this order's, covered by
the time it is named, and named by no step yet. -/
def Call.Knows (s : App) : Call → Prop
  | .derives step _ _ row => leavesRemainder step row = true
  | .covers step id _ row next => leavesRemainder step row = true ∧
      (next, some id) ∈ s.issued ∧ next ∉ s.named
  | .publishes step id _ row next => next.isSome = leavesRemainder step row ∧
      ∀ n, next = some n → (n, some id) ∈ s.issued ∧ n ∈ s.covered ∧ n ∉ s.named
  | _ => True

structure Inv (c : Pool App Call) : Prop where
  counted : Counted keyOf c.shared
  knows : ∀ i p, c.threads i = some p → p.Knows c.shared
  apart : c.Apart Call.holds

variable {keyOf} {s t : App} {p : Call} {w : Turn}

/-- What grows: the issued indices and the coverage. -/
structure Grows (s t : App) : Prop where
  issued : ∀ e ∈ s.issued, e ∈ t.issued
  covered : ∀ n ∈ s.covered, n ∈ t.covered

theorem SaysWhatIsLeft.grows {m : Sent} (h : SaysWhatIsLeft keyOf s m) (hg : Grows s t) :
    SaysWhatIsLeft keyOf t m :=
  ⟨h.asked, fun pk next hn =>
    ⟨(h.key pk next hn).1, hg.issued _ (h.key pk next hn).2.1, hg.covered _ (h.key pk next hn).2.2⟩⟩

/-- A call that is elsewhere keeps what it knows, unless its key is named. -/
theorem Call.Knows.grows (h : p.Knows s) (hg : Grows s t)
    (hnamed : ∀ n, p.holds = some n → n ∉ s.named → n ∉ t.named) : p.Knows t := by
  cases p with
  | covers step id index row next =>
      exact ⟨h.1, hg.issued _ h.2.1, hnamed next rfl h.2.2⟩
  | publishes step id index row next =>
      refine ⟨h.1, fun n hn => ?_⟩
      obtain ⟨hissued, hcovered, hfree⟩ := h.2 n hn
      exact ⟨hg.issued _ hissued, hg.covered _ hcovered, hnamed n hn hfree⟩
  | derives => exact h
  | looksUp | reads | requests | coversRequest => trivial

/-- A key that is held was issued. -/
theorem Call.Knows.issued (h : p.Knows s) {n : Nat} (hn : p.holds = some n) :
    ∃ carriesOn, (n, carriesOn) ∈ s.issued := by
  cases p with
  | covers step id index row next =>
      obtain rfl := Option.some.inj hn
      exact ⟨_, h.2.1⟩
  | publishes step id index row next => exact ⟨_, (h.2 n hn).1⟩
  | looksUp | reads | derives | requests | coversRequest => cases hn

theorem grows_cover (next : Nat) (s : App) : Grows s (s.cover next) := by
  refine ⟨fun _ h => h, fun n hn => ?_⟩
  unfold App.cover
  dsimp only
  split
  · exact hn
  · exact List.mem_append_left _ hn

theorem mem_cover (next : Nat) (s : App) : next ∈ (s.cover next).covered := by
  unfold App.cover
  dsimp only
  split
  · assumption
  · exact List.mem_append_right _ (List.mem_singleton_self _)

/-- Coverage changes nothing that is counted. -/
theorem Counted.cover (h : Counted keyOf s) (next : Nat) : Counted keyOf (s.cover next) :=
  ⟨h.bounded, h.once, h.namedOnce, fun m hm => (h.told m hm).grows (grows_cover next s)⟩

/-- An index above the counter is issued. -/
theorem Counted.issue (h : Counted keyOf s) {device : Device} {next : Nat}
    {carriesOn : Option String} (hreached : AtLeast next device)
    (habove : ∀ n, AtLeast n s.device → n < next) :
    Counted keyOf { s with device := device, issued := (next, carriesOn) :: s.issued } where
  bounded e he := by
    rcases List.mem_cons.mp he with rfl | hold
    · exact hreached
    · obtain ⟨info, hm, hn⟩ := hreached
      exact ⟨info, hm, Nat.le_trans (Nat.le_of_lt (habove e.1 (h.bounded e hold))) hn⟩
  once := by
    refine List.nodup_cons.mpr ⟨fun hmem => ?_, h.once⟩
    obtain ⟨e, he, heq⟩ := List.mem_map.mp hmem
    exact absurd heq (Nat.ne_of_lt (habove e.1 (h.bounded e he)))
  namedOnce := h.namedOnce
  told m hm := (h.told m hm).grows ⟨fun _ h => List.mem_cons_of_mem _ h, fun _ h => h⟩

/-- The counter moves up without an index. -/
theorem Counted.raise (h : Counted keyOf s) {device : Device}
    (hraise : ∀ n, AtLeast n s.device → AtLeast n device) :
    Counted keyOf { s with device := device } :=
  ⟨fun e he => hraise e.1 (h.bounded e he), h.once, h.namedOnce,
    fun m hm => (h.told m hm).grows ⟨fun _ h => h, fun _ h => h⟩⟩

/-! ## One step -/

/-- What a step leaves: everything counted and known, a key that its call held or that is new, and
no key named but the one it held. -/
structure Effect (keyOf : Nat → String) (p : Call) (s t : App) (q : Option Call) : Prop where
  counted : Counted keyOf t
  grows : Grows s t
  knows : ∀ q', q = some q' → q'.Knows t
  holds : ∀ q' n, q = some q' → q'.holds = some n →
    p.holds = some n ∨ ∀ carriesOn, (n, carriesOn) ∉ s.issued
  named : ∀ n ∈ t.named, n ∈ s.named ∨ p.holds = some n

/-- A call ends, or goes on without a key. -/
theorem effect_plain {q : Option Call} (h : Counted keyOf s) (hq : ∀ q', q = some q' → q'.Knows s)
    (hholds : ∀ q', q = some q' → q'.holds = none) : Effect keyOf p s s q where
  counted := h
  grows := ⟨fun _ h => h, fun _ h => h⟩
  knows := hq
  holds q' _ hq' hn := absurd ((hholds q' hq').symm.trans hn) nofun
  named _ hn := Or.inl hn

/-- A call derives a key and goes on with it. -/
theorem effect_derive {carriesOn : Option String} {k : Nat → Call} (h : Counted keyOf s)
    (saves : Bool)
    (hknows : ∀ t next, t.sent = s.sent → (next, carriesOn) ∈ t.issued → next ∉ t.named →
      (k next).Knows t)
    (hholds : ∀ next n, (k next).holds = some n → n = next) :
    Effect keyOf p s (s.derive carriesOn saves).1 ((s.derive carriesOn saves).2.map k) := by
  rcases s.derive_cases carriesOn saves with
    ⟨device, next, he, hreached, habove⟩ | ⟨device, he, hraise⟩
  · -- the index is above every one issued, so no step can have named it
    have hnew : ∀ carriesOn, (next, carriesOn) ∉ s.issued := by
      intro carriesOn' hmem
      exact absurd (habove next (h.bounded _ hmem)) (Nat.lt_irrefl _)
    have hfree : next ∉ s.named := by
      intro hmem
      obtain ⟨m, hm, hn⟩ := List.mem_filterMap.mp hmem
      obtain ⟨⟨pk, n⟩, hnext, rfl⟩ := Option.map_eq_some_iff.mp hn
      exact hnew _ ((h.told m hm).key pk n hnext).2.1
    rw [he]
    refine ⟨h.issue hreached habove, ⟨fun _ h => List.mem_cons_of_mem _ h, fun _ h => h⟩, ?_, ?_,
      fun n hn => Or.inl hn⟩
    · intro q hq
      obtain rfl := Option.some.inj hq
      exact hknows _ next rfl (List.mem_cons_self ..) hfree
    · intro q n hq hn
      obtain rfl := Option.some.inj hq
      obtain rfl := hholds next n hn
      exact Or.inr hnew
  · rw [he]
    exact ⟨h.raise hraise, ⟨fun _ h => h, fun _ h => h⟩, fun q hq => (by cases hq),
      fun q n hq => (by cases hq), fun n hn => Or.inl hn⟩

/-- A step goes out. -/
theorem effect_publish {step : Closing} {id : String} {index : Nat} {row : TradeInfo}
    {next : Option Nat} (h : Counted keyOf s)
    (hp : (Call.publishes step id index row next).Knows s) :
    Effect keyOf (.publishes step id index row next) s
      { s with
        sent := ⟨⟨id, index, step, next.map fun n => (keyOf n, n)⟩, row⟩ :: s.sent } none := by
  have hnames : Sent.names ⟨⟨id, index, step, next.map fun n => (keyOf n, n)⟩, row⟩ = next := by
    cases next <;> rfl
  have hnamed : ∀ n, n ∈ ({ s with
      sent := ⟨⟨id, index, step, next.map fun n => (keyOf n, n)⟩, row⟩ :: s.sent } : App).named ↔
      next = some n ∨ n ∈ s.named := by
    intro n
    unfold App.named
    simp only [List.mem_filterMap, List.mem_cons, exists_eq_or_imp, hnames]
  refine ⟨⟨h.bounded, h.once, ?_, fun m hm => ?_⟩, ⟨fun _ h => h, fun _ h => h⟩,
    fun q hq => (by cases hq), fun q n hq => (by cases hq),
    fun n hn => ((hnamed n).mp hn).symm⟩
  · show (List.filterMap Sent.names (_ :: s.sent)).Nodup
    rw [List.filterMap_cons, hnames]
    cases next with
    | none => exact h.namedOnce
    | some n => exact List.nodup_cons.mpr ⟨(hp.2 n rfl).2.2, h.namedOnce⟩
  · rcases List.mem_cons.mp hm with rfl | hold
    · refine ⟨by simpa using hp.1, fun pk n hn => ?_⟩
      obtain ⟨n', hn', heq⟩ := Option.map_eq_some_iff.mp hn
      obtain ⟨rfl, rfl⟩ := Prod.mk.inj heq
      exact ⟨rfl, (hp.2 n' hn').1, (hp.2 n' hn').2.1⟩
    · exact (h.told m hold).grows ⟨fun _ h => h, fun _ h => h⟩

theorem Call.step_effect (h : Counted keyOf s) (hp : p.Knows s) :
    Effect keyOf p s (p.step keyOf w s).1 (p.step keyOf w s).2 := by
  cases p with
  | looksUp step id =>
      refine effect_plain h (fun q hq => ?_) fun q hq => ?_
      all_goals
        dsimp only [Call.step] at hq
        split at hq
        · obtain ⟨index, -, rfl⟩ := Option.map_eq_some_iff.mp hq
          trivial
        · cases hq
  | reads step id index =>
      refine effect_plain h (fun q hq => ?_) fun q hq => ?_
      all_goals
        dsimp only [Call.step] at hq
        split at hq
        · obtain ⟨row, -, rfl⟩ := Option.map_eq_some_iff.mp hq
          split
          · next hleaves => first | exact hleaves | rfl
          · next hleaves => first | exact ⟨by simpa using hleaves, nofun⟩ | rfl
        · cases hq
  | derives step id index row =>
      exact effect_derive h w.saves (fun t next _ hmem hfree => ⟨hp, hmem, hfree⟩)
        fun next n hn => (Option.some.inj hn).symm
  -- A key is covered before it is named, so the step that goes out names a covered one.
  | covers step id index row next =>
      dsimp only [Call.step]
      split
      · refine ⟨h.cover next, grows_cover next s, fun q hq => ?_, fun q n hq hn => ?_,
          fun n hn => Or.inl hn⟩
        · obtain rfl := Option.some.inj hq
          refine ⟨hp.1.symm, fun n hn => ?_⟩
          obtain rfl := Option.some.inj hn
          exact ⟨hp.2.1, mem_cover next s, hp.2.2⟩
        · obtain rfl := Option.some.inj hq
          exact Or.inl hn
      · exact effect_plain h (fun q hq => (by cases hq)) fun q hq => (by cases hq)
  -- A step that is not sent names nothing.
  | publishes step id index row next =>
      dsimp only [Call.step]
      split
      · exact effect_publish h hp
      · exact effect_plain h (fun q hq => (by cases hq)) fun q hq => (by cases hq)
  | requests => exact effect_derive h w.saves (fun _ _ _ _ _ => trivial) nofun
  | coversRequest next =>
      exact ⟨h.cover next, grows_cover next s, fun q hq => (by cases hq),
        fun q n hq => (by cases hq), fun n hn => Or.inl hn⟩

/-! ## Every run -/

theorem Inv.next {c c' : Pool App Call} {l : Label Call Turn Act} (h : Inv keyOf c)
    (hn : (closingProg keyOf).next c l = some c') : Inv keyOf c' := by
  cases l with
  | spawn i p =>
      obtain ⟨henter, hi, rfl⟩ := Prog.next_spawn.mp hn
      have hfresh : p.holds = none ∧ p.Knows c.shared := by
        cases p with
        | looksUp | requests => exact ⟨rfl, trivial⟩
        | reads | derives | covers | publishes | coversRequest => cases henter
      refine ⟨h.counted, fun j q hq => ?_, h.apart.update i _ fun r k hr hk => ?_⟩
      · rcases threads_update hq with ⟨-, hnew⟩ | ⟨-, hold⟩
        · obtain rfl := Option.some.inj hnew
          exact hfresh.2
        · exact h.knows j q hold
      · obtain rfl := Option.some.inj hr
        exact absurd (hfresh.1.symm.trans hk) nofun
  | step i w =>
      obtain ⟨p, t, q, hi, hs, rfl⟩ := Prog.next_step.mp hn
      have hstep : p.step keyOf w c.shared = (t, q) := Option.some.inj hs
      have heffect : Effect keyOf p c.shared t q := by
        have he := Call.step_effect (w := w) h.counted (h.knows i p hi)
        rwa [hstep] at he
      refine ⟨heffect.counted, fun j r hr => ?_, h.apart.update i _ fun r k hr hk => ?_⟩
      · rcases threads_update hr with ⟨-, hnew⟩ | ⟨hj, hold⟩
        · exact heffect.knows r hnew
        · refine (h.knows j r hold).grows heffect.grows fun n hholds hfree hmem => ?_
          -- the key this step names is its own, and no other call holds it
          rcases heffect.named n hmem with hbefore | hown
          · exact hfree hbefore
          · exact h.apart i j p r n hj.symm hi hold hown hholds
      · rcases heffect.holds r k hr hk with hown | hnew
        · exact Or.inl ⟨p, hi, hown⟩
        · refine Or.inr fun j r' _ hold hholds => ?_
          obtain ⟨carriesOn, hmem⟩ := (h.knows j r' hold).issued hholds
          exact hnew carriesOn hmem
  | env a =>
      obtain ⟨t, hs, rfl⟩ := Prog.next_env.mp hn
      obtain rfl := Option.some.inj hs
      cases a with
      | writes id order =>
          refine ⟨⟨h.counted.bounded, h.counted.once, h.counted.namedOnce, fun m hm => ?_⟩,
            fun i p hi => ?_, h.apart⟩
          · exact (h.counted.told m hm).grows ⟨fun _ h => h, fun _ h => h⟩
          · exact (h.knows i p hi).grows ⟨fun _ h => h, fun _ h => h⟩ fun _ _ hfree => hfree
      | ensures floor saves =>
          refine ⟨h.counted.raise fun n hn => ensure_atLeast floor saves hn, fun i p hi => ?_,
            h.apart⟩
          exact (h.knows i p hi).grows ⟨fun _ h => h, fun _ h => h⟩ fun _ _ hfree => hfree

/-- An app that has issued no index and sent no step since it was started. -/
structure Started (s : App) : Prop where
  issued : s.issued = []
  sent : s.sent = []

theorem inv_idle (h : Started s) : Inv keyOf (Pool.idle s) := by
  refine ⟨⟨fun e he => ?_, ?_, ?_, fun m hm => ?_⟩, fun i p hi => (by cases hi), apart_idle s⟩
  · rw [show (Pool.idle s : Pool App Call).shared.issued = [] from h.issued] at he
    cases he
  · rw [show (Pool.idle s : Pool App Call).shared.issued = [] from h.issued]
    exact List.nodup_nil
  · unfold App.named
    rw [show (Pool.idle s : Pool App Call).shared.sent = [] from h.sent]
    exact List.nodup_nil
  · rw [show (Pool.idle s : Pool App Call).shared.sent = [] from h.sent] at hm
    cases hm

theorem inv_run {c : Pool App Call} {ls : List (Label Call Turn Act)} (h : Started s)
    (hr : run (closingProg keyOf).next (Pool.idle s) ls = some c) : Inv keyOf c :=
  run_inv (C := fun _ _ => True) (fun _ _ _ hc _ hn => hc.next hn) (inv_idle h) (along_true _ _) hr

/-! ## What is left comes home -/

/-- The daemon's `new-order` for what is left, as it reaches the dispatcher: a pending order, under
the key of an index it echoes. -/
structure HandsOver (next : Nat) (pk : String) (o : Wire.SmallOrder) (kind : Wire.Kind)
    (d : Delivery) : Prop where
  action : d.msg.action = .newOrder
  payload : d.msg.payload = some (.order o)
  pending : o.status = some .pending
  kind : o.kind = some kind
  echo : d.msg.tradeIndex = some (next : Int)
  index : d.tradeIndex = next
  pubkey : d.tradePubkey = pk
  names : d.namesOrder = true

/-- The order is new to the client: no row, no tombstone for this key, nothing newer heard of it, no
newer key, and no request of ours waits under the key. -/
structure NewTo (d : Delivery) (s : OrderState) : Prop where
  row : s.trades = []
  unwiped : ∀ w, s.tradeWiped = some w → w.covers d.tradeIndex = false
  unblocked : s.statusWriteBlocked .newOrder d.msg.createdAt = false
  bound : ∀ i, s.tradeKey = some i → i ≤ d.tradeIndex
  unasked : s.pending d.tradePubkey = none

/-- The row of what is left is ours, under the key that was named, with the limits it came with. -/
structure IsRemainder (next : Nat) (o : Wire.SmallOrder) (kind : Wire.Kind) (orderId : String)
    (t : TradeInfo) : Prop where
  id : t.order.id = orderId
  mine : t.order.isMine = true
  role : t.role = makerRole kind
  index : t.tradeKeyIndex = next
  status : t.order.status = .pending
  limits : t.order.fiatAmountMin.isSome = o.minAmount.isSome ∧
    t.order.fiatAmountMax.isSome = o.maxAmount.isSome

variable {env : Env} {d : Delivery} {o : Wire.SmallOrder} {kind : Wire.Kind} {next : Nat}
  {pk orderId : String} {s' : OrderState} {row : RowState}

/-- The row the payload proves. -/
theorem HandsOver.remainder (h : HandsOver next pk o kind d) (orderId : String) :
    ∃ t, remainderRow d orderId = some t ∧ IsRemainder next o kind orderId t := by
  have horder : payloadOrder d.msg = some o := by simp [payloadOrder, h.payload]
  have hrow : ∃ t, tradeRowFromSmallOrder orderId o (makerRole kind) true next "" d.tradePubkey
      .pending d.now = some t ∧ IsRemainder next o kind orderId t := by
    refine ⟨_, by rw [tradeRowFromSmallOrder, h.kind]; rfl, rfl, rfl, rfl, rfl, rfl, ?_, ?_⟩
    · cases o.minAmount <;> rfl
    · cases o.maxAmount <;> rfl
  obtain ⟨t, ht, his⟩ := hrow
  exact ⟨t, by simp [remainderRow, horder, h.pending, h.echo, h.index, h.kind, ht], his⟩

/-- Nobody waits for it, and no reply of this kind is answered before its arm. -/
theorem answerWaiters_unasked (ha : d.msg.action = .newOrder)
    (hp : s'.pending d.tradePubkey = none) : (answerWaiters d s').pending d.tradePubkey = none := by
  have hcant : d.msg.action ≠ .cantDo := by rw [ha]; nofun
  have hclaim : answerClaimSubmit d s' = s' := by simp [answerClaimSubmit, ha]
  have hdispute : ∀ x, answerDispute d x = x := fun x => by simp [answerDispute, ha]
  unfold answerWaiters
  rw [if_neg hcant, hclaim, hdispute]
  simp [answerAddInvoice, Pending.takeMatchingAddInvoice, Pending.takeMatchingKind, hp]

/-- A `new-order` rebuilds no row. -/
theorem rebuild_newOrder (ha : d.msg.action = .newOrder) (hrow : row.trade = none) :
    rebuildIfNeverWritten d row s' = (s', row) := by
  have hnone : rebuiltRow d s'.orderId = none := by simp [rebuiltRow, ha, rebuildExcludes]
  unfold rebuildIfNeverWritten
  split
  · split
    · rfl
    · unfold rebuildTradeFromDm
      rw [hnone]
  · rfl

/-- The arm adopts it. -/
theorem newOrderArm_adopts (h : HandsOver next pk o kind d) (hs : NewTo d s')
    (hrow : row.trade = none) :
    ∃ t, (newOrderArm d row s').trades = [t] ∧ (newOrderArm d row s').tradeKey = some next ∧
      IsRemainder next o kind s'.orderId t := by
  obtain ⟨t, ht, his⟩ := h.remainder s'.orderId
  have htake : (Pending.takeMatchingRequest d.tradePubkey d.msg.requestId s'.pending).2 = none := by
    simp [Pending.takeMatchingRequest, hs.unasked]
  have hconfirm : ∀ x, confirmMakerBond d row x = (x, false) := fun x =>
    confirmMakerBond_of_status d fun t ht => absurd (hrow.symm.trans ht) nofun
  have hadopt : ∀ r, adoptRangeRemainder d (s'.setPending r) =
      ((((s'.setPending r).storeTradeKeyIndex d.tradeIndex).persistTradeRow t).emitTradeUpdateAt
        .pending none d.msg.createdAt, true) := by
    intro r
    have hnone : (s'.setPending r).trade = none := by simp [OrderState.trade, hs.row]
    have hcovered : s'.tradeWiped.any (·.covers d.tradeIndex) = false := by
      cases hw : s'.tradeWiped with
      | none => rfl
      | some w => exact hs.unwiped w hw
    have hblocked : (s'.setPending r).statusWriteBlocked d.msg.action d.msg.createdAt = false := by
      rw [h.action]
      exact hs.unblocked
    unfold adoptRangeRemainder
    simp [ht, hnone, hcovered, hblocked]
  refine ⟨t, ?_, ?_, his⟩
  all_goals
    unfold newOrderArm
    simp only [htake]
    unfold uncorrelatedNewOrder
    simp [hconfirm, hadopt, hs.row, TradeInfo.save, h.index]

/-- **What is left is adopted**: the dispatcher makes the daemon's `new-order` under the named key
an order of ours. -/
theorem dispatch_adopts (h : HandsOver next pk o kind d) (hs : NewTo d s') :
    ∃ t, (dispatchMostroMessage env d s').trades = [t] ∧
      (dispatchMostroMessage env d s').tradeKey = some next ∧
      IsRemainder next o kind s'.orderId t := by
  have hgate : supersededKey d s' = false := by
    unfold supersededKey
    cases hk : s'.tradeKey with
    | none => simp
    | some b =>
        have hle := hs.bound b hk
        simp [Nat.not_lt.mpr hle]
  have hstored : reconcileStoredId d s' = s' := by
    simp [reconcileStoredId, Pending.mayReconcileStoredId, Pending.pendingLocalUuidFor, hs.unasked]
  have hrow : (s'.tradeRowState d.rowLookupFails d.tradeIndex).trade = none := by
    unfold OrderState.tradeRowState
    split
    · rfl
    · simp only [OrderState.trade, hs.row, List.head?_nil]
      cases hw : s'.tradeWiped with
      | none => rfl
      | some w => simp [hs.unwiped w hw, RowState.trade]
  generalize hr : s'.tradeRowState d.rowLookupFails d.tradeIndex = row at hrow
  have hcap := sameKeys_capturePeer env d row s'
  have hfree : (capturePeer env d row s').pending d.tradePubkey = none := by
    rw [hcap.pending]
    exact hs.unasked
  have htake : interceptTake d (capturePeer env d row s') = none :=
    interceptTake_none rfl fun p hp => by
      rw [hfree] at hp
      cases hp
  -- the stages before the arm leave the order as new as it was
  have hsame : SameRows s' (answerWaiters d (capturePeer env d row s')) :=
    (sameRows_capturePeer env d row s').trans (sameRows_answerWaiters d _)
  have hkey : (answerWaiters d (capturePeer env d row s')).tradeKey = s'.tradeKey := by
    rw [answerWaiters_tradeKey, hcap.tradeKey]
  have hnew : NewTo d (answerWaiters d (capturePeer env d row s')) :=
    ⟨hsame.trades_nil.mpr hs.row, fun w hw => hs.unwiped w (hsame.wiped.symm.trans hw),
      (hsame.writeBlocked _ _).trans hs.unblocked, fun i hi => hs.bound i (hkey.symm.trans hi),
      answerWaiters_unasked h.action hfree⟩
  have hdispatch : dispatchMostroMessage env d s' =
      newOrderArm d row (answerWaiters d (capturePeer env d row s')) := by
    unfold dispatchMostroMessage dispatchCurrent
    simp only [h.names, hgate, hstored, hr, htake, rebuild_newOrder h.action hrow,
      Bool.true_eq_false, Bool.false_eq_true, if_false]
    simp [arm, h.action]
  rw [hdispatch, ← hsame.orderId]
  exact newOrderArm_adopts h hnew hrow

/-- The maker's own step on what is left leaves a remainder again where it is still a range. -/
theorem IsRemainder.leaves {t : TradeInfo} (h : IsRemainder next o kind orderId t) {step : Closing}
    (hstep : step.makerRole = makerRole kind) :
    leavesRemainder step t = (o.minAmount.isSome && o.maxAmount.isSome) := by
  simp [leavesRemainder, h.limits.1, h.limits.2, h.mine, h.role, hstep]

/-- **What is left comes home.** However the calls of any orders interleave, a step that is out
names a key exactly where its row leaves a remainder. The key is covered, was issued for this order
alone and is named by no other step; and the order the daemon hands to it is adopted, a range again
where both limits came with it. -/
theorem remainder_comes_home {s : App} {c : Pool App Call} {ls : List (Label Call Turn Act)}
    (h : Started s) (hr : run (closingProg keyOf).next (Pool.idle s) ls = some c) {m : Sent}
    (hm : m ∈ c.shared.sent) :
    m.message.nextTrade.isSome = leavesRemainder m.message.action m.row ∧
      ∀ pk next, m.message.nextTrade = some (pk, next) →
        (pk = keyOf next ∧ next ∈ c.shared.covered ∧ c.shared.named.count next = 1 ∧
          ∀ carriesOn, (next, carriesOn) ∈ c.shared.issued → carriesOn = some m.message.orderId) ∧
        ∀ env d o kind s', HandsOver next pk o kind d → NewTo d s' →
          ∃ t, (dispatchMostroMessage env d s').trades = [t] ∧
            (dispatchMostroMessage env d s').tradeKey = some next ∧
            IsRemainder next o kind s'.orderId t ∧
            ∀ step, step.makerRole = makerRole kind →
              leavesRemainder step t = (o.minAmount.isSome && o.maxAmount.isSome) := by
  have hinv := inv_run h hr
  have htold := hinv.counted.told m hm
  refine ⟨htold.asked, fun pk next hnext => ?_⟩
  obtain ⟨hpk, hissued, hcovered⟩ := htold.key pk next hnext
  have hnamed : next ∈ c.shared.named :=
    List.mem_filterMap.mpr ⟨m, hm, by simp [Sent.names, hnext]⟩
  refine ⟨⟨hpk, hcovered, List.count_eq_one_of_mem hinv.counted.namedOnce hnamed,
    fun carriesOn hmem => ?_⟩, fun env d o kind s' hover hnew => ?_⟩
  · -- an index is issued once, so it is issued for one purpose
    exact congrArg Prod.snd (List.inj_on_of_nodup_map hinv.counted.once hmem hissued rfl)
  · obtain ⟨t, htrades, hkey, his⟩ := dispatch_adopts hover hnew
    exact ⟨t, htrades, hkey, his, fun step hstep => his.leaves hstep⟩

/-- A sell range of ours, one part of it taken. -/
def rangeParent : TradeInfo where
  id := "t"
  order := { id := "parent", kind := .sell, status := .fiatSent, fiatAmountMin := some 10
             fiatAmountMax := some 100, isMine := true }
  role := .seller
  tradeKeyIndex := 4

/-- Its maker releases it, and the release is tapped twice while another order is created. -/
def releasing : App where
  device := { memory := some ⟨"identity", 4⟩, stored := some ⟨"identity", 4⟩ }
  orders id := { orderId := id, trades := [rangeParent], tradeKey := some 4 }

def tappedTwice : List (Label Call Turn Act) :=
  [.spawn 0 (.looksUp .release "parent"), .spawn 1 (.looksUp .release "parent"), .spawn 2 .requests,
    .step 0 {}, .step 1 {}, .step 1 {}, .step 0 {}, .step 0 {}, .step 2 {}, .step 1 {}, .step 1 {},
    .step 0 {}, .step 1 {}, .step 0 {}]

/-- What the daemon publishes for the second release that arrives: key 5, a range still. -/
def childOrder : Wire.SmallOrder where
  kind := some .sell
  status := some .pending
  minAmount := some 10
  maxAmount := some 60

def childMessage : Delivery where
  msg := { action := .newOrder, tradeIndex := some 5, payload := some (.order childOrder)
           createdAt := 900 }
  tradeIndex := 5
  tradePubkey := "5"
  now := 901

theorem tapped_twice_comes_home :
    ∃ c, run (closingProg toString).next (Pool.idle releasing) tappedTwice = some c ∧
      c.shared.named = [5, 7] ∧
      ∃ t, (dispatchMostroMessage bareEnv childMessage { orderId := "child" }).trades = [t] ∧
        leavesRemainder .release t = true := by
  have hrun : run (closingProg toString).next (Pool.idle releasing) tappedTwice = some _ := rfl
  refine ⟨_, hrun, rfl, ?_⟩
  have h := remainder_comes_home ⟨rfl, rfl⟩ hrun (List.mem_cons_self ..)
  obtain ⟨t, ht, -, -, hleaves⟩ := (h.2 "5" 5 (by decide)).2 bareEnv childMessage childOrder .sell
    { orderId := "child" } ⟨rfl, rfl, rfl, rfl, rfl, rfl, rfl, rfl⟩
    ⟨rfl, by simp, by decide, by simp, rfl⟩
  exact ⟨t, ht, by rw [hleaves .release rfl]; rfl⟩

end MostroApp.RangeRemainder
