import MostroApp.Api.Invoice
import MostroApp.Lib.Interleaving

set_option autoImplicit false

/-! # The add-invoice screen (`add_lightning_invoice_screen.dart`, `invoice_rules.dart`)

The buyer's input is judged by the core (`api/invoice.rs`), and a verdict is kept with the question
it answers: the input, the trade's amount and the node's facts. Several questions are under way at
once and are answered in any order, while the field, the amount, the node and the clock go on. What
is sent has been judged as it is, and what was found valid still is.

The field may be edited between the tap and the verdict on it, which `edited_while_judged` shows:
then the verdict is on what the field says and not on what is sent.
-/

namespace MostroApp.AddInvoice

open Invoice Text Interleaving Transition

/-! ## The field and the node -/

/-- `\s` of a regular expression. -/
def isRegExpSpace (c : Char) : Bool := (isWhiteSpace c && c.toNat ≠ 0x85) || c.toNat = 0xFEFF

/-- `normalizeInvoiceInput`; `toLowerCase` is the platform's. -/
def normalizeInvoiceInput (toLowerCase : List Char → List Char) (raw : List Char) : List Char :=
  let compact := raw.filter (¬ isRegExpSpace ·)
  if uriScheme.isPrefixOf (toLowerCase compact) then compact.drop uriScheme.length else compact

/-- `String.trim` of Dart: the byte order mark is white space to it. -/
def dartTrimmed (s : List Char) : List Char :=
  let space c := isWhiteSpace c || c.toNat = 0xFEFF
  (s.dropWhile space).rdropWhile space

/-- What the node's kind 38385 says of invoices. -/
structure MostroNode where
  lndNetworks : Option (List Char) := none
  invoiceExpirationWindow : Option Nat := none
  deriving DecidableEq, Repr

structure NodeContext where
  networks : List (List Char)
  minRemainingSecs : Option Nat
  key : List Char
  deriving DecidableEq, Repr

/-- A number or `null` in a text. -/
def interpolated : Option Nat → List Char
  | none => "null".toList
  | some n => Nat.toDigits 10 n

def nodeContext (node : Option MostroNode) : NodeContext :=
  let networks := match node.bind (·.lndNetworks) with
    | some names => ((names.splitOn ',').map dartTrimmed).filter (· ≠ [])
    | none => []
  let window := node.bind (·.invoiceExpirationWindow)
  { networks := networks
    minRemainingSecs := window
    key := [','].intercalate networks ++ '|' :: interpolated window }

/-! ## Verdicts on the screen -/

inductive InvoiceCheck where
  | none
  | unverified
  | pending
  | address
  | valid (sats expiresAt : Nat)
  | error (r : Rejection)
  deriving DecidableEq, Repr

def invoiceCheckFromVerdict : InvoiceVerdict → InvoiceCheck
  | .empty => .none
  | .unverified => .unverified
  | .address => .address
  | .valid sats expiresAt => .valid sats expiresAt
  | .rejected r => .error r

def invoiceCheckAllowsSubmit : InvoiceCheck → Bool
  | .none | .pending | .error _ => false
  | .unverified | .address | .valid .. => true

/-- A question to the core: `InvoiceCheckRequest`. -/
structure Request where
  input : List Char
  expectedSats : Option Nat
  nodeNetworks : List (List Char)
  minRemainingSecs : Option Nat
  now : Int
  deriving DecidableEq, Repr

/-- `_verdict` with `_verdictInput`, `_verdictSats` and `_verdictNodeKey`. -/
structure Verdict where
  input : List Char
  sats : Option Nat
  nodeKey : List Char
  check : InvoiceCheck
  deriving DecidableEq, Repr

/-- `_staleAt`. -/
def staleAt (check : InvoiceCheck) (node : NodeContext) : Option Int :=
  match check with
  | .valid _ expiresAt => some ((expiresAt : Int) - (node.minRemainingSecs.getD 0 : Nat))
  | _ => Option.none

/-- What the screen saw when it looked at the verdict. -/
structure Look where
  input : List Char
  node : Option MostroNode
  now : Int
  deriving DecidableEq, Repr

/-- A submission: what goes to `send_invoice`, the amount it was judged with, and the look. -/
structure Sent where
  input : List Char
  sats : Option Nat
  check : InvoiceCheck
  seen : Look
  deriving DecidableEq, Repr

/-- The amount handed to `send_invoice`: an invoice carries its own. -/
def Sent.amountSats (m : Sent) : Nat := m.sats.getD 1

structure Screen where
  input : List Char := []
  sats : Option Nat := none
  node : Option MostroNode := none
  now : Int := 0
  verdict : Option Verdict := none
  checkerAvailable : Bool := true
  mounted : Bool := true
  submitting : Bool := false
  canceling : Bool := false
  sent : List Sent := []
  deriving DecidableEq, Repr

/-- `_check`. The judgement it orders where the verdict is on another question is a timer's. -/
def Screen.check (sats : Option Nat) (s : Screen) : InvoiceCheck :=
  if s.input = [] then .none
  else if s.checkerAvailable = false then .unverified
  else
    match s.verdict with
    | none => .pending
    | some v =>
        let node := nodeContext s.node
        if v.input ≠ s.input then .pending
        else if v.sats ≠ sats ∨ v.nodeKey ≠ node.key ∨ (staleAt v.check node).any (· ≤ s.now) then
          .pending
        else v.check

def Screen.look (s : Screen) : Look := ⟨s.input, s.node, s.now⟩

/-! ## What is under way -/

/-- A timer that fires, a tap on the button, and where they are: the core has been asked, the
answer is in, the screen has looked, the submission is under way. -/
inductive Task where
  | fires (input : List Char) (sats : Option Nat)
  | taps
  | asks (request : Request) (nodeKey : List Char) (submits : Bool)
  | looks (input : List Char) (sats : Option Nat)
  | decides (input : List Char) (sats : Option Nat) (check : InvoiceCheck) (seen : Look)
  | sends
  deriving DecidableEq, Repr

variable (fromStr : List Char → Option Bolt11Invoice)

/-- `check_buyer_invoice` over the bridge. -/
def Request.judge (r : Request) : InvoiceCheck :=
  invoiceCheckFromVerdict
    (checkBuyerInvoice fromStr r.input r.expectedSats r.nodeNetworks r.minRemainingSecs r.now)

/-- The first half of `_evaluate`. -/
def Screen.ask (input : List Char) (sats : Option Nat) (submits : Bool) (s : Screen) : Task :=
  let node := nodeContext s.node
  .asks ⟨input, sats, node.networks, node.minRemainingSecs, s.now⟩ node.key submits

/-- The second half: an answer is kept if it is on what the field says, a failure counts if it is
on what the screen would ask. -/
def Screen.answer (answers : Bool) (r : Request) (nodeKey : List Char) (s : Screen) : Screen :=
  if answers then
    if s.mounted ∧ r.input = s.input then
      { s with
        checkerAvailable := true
        verdict := some ⟨r.input, r.expectedSats, nodeKey, r.judge fromStr⟩ }
    else s
  else if s.mounted ∧ r.input = s.input ∧ r.expectedSats = s.sats then
    { s with checkerAvailable := false }
  else s

/-- A task's next step; `answers` is whether the core answers. -/
def Task.step (answers : Bool) : Task → Screen → Screen × Option Task
  | .fires input sats, s => (s, if s.mounted then some (s.ask input sats false) else none)
  | .taps, s =>
      (s, if s.mounted = false ∨ s.submitting ∨ s.canceling then none
        else some (s.ask s.input s.sats true))
  | .asks r nodeKey submits, s =>
      (s.answer fromStr answers r nodeKey,
        if submits then some (.looks r.input r.expectedSats) else none)
  | .looks input sats, s =>
      (s, if s.mounted then some (.decides input sats (s.check sats) s.look) else none)
  | .decides input sats check seen, s =>
      if s.mounted = false ∨ (check = .address ∧ sats = none) ∨
          invoiceCheckAllowsSubmit check = false then (s, none)
      else
        ({ s with submitting := true, sent := ⟨input, sats, check, seen⟩ :: s.sent }, some .sends)
  | .sends, s => ({ s with submitting := false }, none)

/-- Whatever else happens to the screen. -/
inductive Act where
  | edits (raw : List Char)
  | learnsAmount (sats : Option Nat)
  | learnsNode (node : Option MostroNode)
  | clock (now : Int)
  | cancels (canceling : Bool)
  | leaves

def Act.act (toLowerCase : List Char → List Char) (s : Screen) : Act → Screen
  | .edits raw => { s with input := normalizeInvoiceInput toLowerCase raw }
  | .learnsAmount sats => { s with sats := sats }
  | .learnsNode node => { s with node := node }
  | .clock now => { s with now := now }
  | .cancels canceling => { s with canceling := canceling }
  | .leaves => { s with mounted := false }

/-- Any number of judgements and submissions, answered in any order. A timer holds the input and
the amount it was armed with. -/
def screenProg (toLowerCase : List Char → List Char) : Prog Screen Task Bool Act where
  enter
    | .fires .. | .taps => true
    | _ => false
  tstep answers p s := some (p.step fromStr answers s)
  act a s := some (a.act toLowerCase s)

/-! ## The node's key -/

theorem interpolated_inj {a b : Option Nat} (h : interpolated a = interpolated b) : a = b := by
  have hnull : ∀ n, "null".toList ≠ Nat.toDigits 10 n := by
    intro n heq
    have hn : 'n' ∈ Nat.toDigits 10 n := heq ▸ by decide
    exact absurd (Nat.isDigit_of_mem_toDigits (by omega) (by omega) hn) (by decide)
  cases a with
  | none =>
      cases b with
      | none => rfl
      | some n => exact absurd h (hnull n)
  | some m =>
      cases b with
      | none => exact absurd h.symm (hnull m)
      | some n =>
          have hdigits : Nat.toDigits 10 m = Nat.toDigits 10 n := h
          have hvalue := congrArg (Nat.ofDigitChars 10 · 0) hdigits
          simpa using hvalue

theorem bar_notMem_interpolated (a : Option Nat) : '|' ∉ interpolated a := by
  cases a with
  | none => decide
  | some n =>
      intro hmem
      exact absurd (Nat.isDigit_of_mem_toDigits (by omega) (by omega) hmem) (by decide)

theorem mem_of_mem_dartTrimmed {s : List Char} {c : Char} (h : c ∈ dartTrimmed s) : c ∈ s :=
  (List.dropWhile_suffix _).subset ((List.rdropWhile_prefix _ _).subset h)

/-- The names of the networks are not empty and have no comma. -/
theorem networks_named (node : Option MostroNode) :
    ∀ name ∈ (nodeContext node).networks, ',' ∉ name ∧ name ≠ [] := by
  intro name hname
  unfold nodeContext at hname
  dsimp only at hname
  split at hname
  · obtain ⟨hmem, hne⟩ := List.mem_filter.mp hname
    obtain ⟨part, hpart, rfl⟩ := List.mem_map.mp hmem
    refine ⟨fun hcomma => ?_, by simpa using hne⟩
    exact notMem_of_mem_splitOn hpart (mem_of_mem_dartTrimmed hcomma)
  · cases hname

/-- The key tells the node's facts apart. -/
theorem nodeContext_of_key {a b : Option MostroNode}
    (h : (nodeContext a).key = (nodeContext b).key) : nodeContext a = nodeContext b := by
  obtain ⟨hjoined, hwindow⟩ :=
    append_sep_inj (bar_notMem_interpolated _) (bar_notMem_interpolated _)
      (show [','].intercalate (nodeContext a).networks ++ '|' :: interpolated
          (nodeContext a).minRemainingSecs =
        [','].intercalate (nodeContext b).networks ++ '|' :: interpolated
          (nodeContext b).minRemainingSecs from h)
  have hnetworks := intercalate_inj (networks_named a) (networks_named b) hjoined
  have hsecs := interpolated_inj hwindow
  calc nodeContext a
      = ⟨(nodeContext a).networks, (nodeContext a).minRemainingSecs, (nodeContext a).key⟩ := rfl
    _ = ⟨(nodeContext b).networks, (nodeContext b).minRemainingSecs, (nodeContext b).key⟩ := by
        rw [hnetworks, hsecs, h]
    _ = nodeContext b := rfl

/-! ## Verdicts that answer the screen's question -/

/-- The question of a look at a time. -/
def Look.request (seen : Look) (sats : Option Nat) (now : Int) : Request :=
  ⟨seen.input, sats, (nodeContext seen.node).networks, (nodeContext seen.node).minRemainingSecs,
    now⟩

/-- The core has given the verdict on what was seen, and would still find valid what it found
valid. -/
structure Judged (sats : Option Nat) (check : InvoiceCheck) (seen : Look) : Prop where
  given : ∃ now, check = (seen.request sats now).judge fromStr
  current : ∀ n expiresAt, check = .valid n expiresAt →
    (seen.request sats seen.now).judge fromStr = .valid n expiresAt

/-- A verdict is the core's on the question it is kept with. -/
def Verdict.Right (v : Verdict) : Prop :=
  ∃ node now, v.nodeKey = (nodeContext node).key ∧
    v.check = (Look.request ⟨v.input, node, now⟩ v.sats now).judge fromStr

/-- What was sent had been let through on a verdict on what was seen. -/
structure Sent.Right (m : Sent) : Prop where
  judged : Judged fromStr m.sats m.check m.seen
  allowed : invoiceCheckAllowsSubmit m.check = true
  amount : m.check = .address → m.sats.isSome = true

structure Screen.Right (s : Screen) : Prop where
  available : s.checkerAvailable = true
  verdict : ∀ v, s.verdict = some v → v.Right fromStr
  sent : ∀ m ∈ s.sent, m.Right fromStr

/-- A task asks about a node's facts under their key, and decides on what it has seen. -/
def Task.Right : Task → Prop
  | .asks r nodeKey _ => ∃ node, nodeKey = (nodeContext node).key ∧
      r = Look.request ⟨r.input, node, r.now⟩ r.expectedSats r.now
  | .decides _ sats check seen =>
      invoiceCheckAllowsSubmit check = true → Judged fromStr sats check seen
  | _ => True

variable {fromStr} {toLowerCase : List Char → List Char} {s : Screen} {sats : Option Nat}

theorem judge_eq_valid {r : Request} {n expiresAt : Nat} :
    r.judge fromStr = .valid n expiresAt ↔
      checkBuyerInvoice fromStr r.input r.expectedSats r.nodeNetworks r.minRemainingSecs r.now =
        .valid n expiresAt := by
  unfold Request.judge
  cases checkBuyerInvoice fromStr r.input r.expectedSats r.nodeNetworks r.minRemainingSecs r.now <;>
    simp [invoiceCheckFromVerdict]

/-- **The screen's look**: a check that lets the buyer submit is the core's on what is seen. -/
theorem Screen.check_judged (h : s.Right fromStr)
    (hallows : invoiceCheckAllowsSubmit (s.check sats) = true) :
    Judged fromStr sats (s.check sats) s.look := by
  unfold Screen.check at hallows ⊢
  split at hallows
  · cases hallows
  · next hne =>
    have havailable : ¬ s.checkerAvailable = false := by
      rw [h.available]
      exact Bool.noConfusion
    rw [if_neg havailable] at hallows
    rw [if_neg hne, if_neg havailable]
    cases hv : s.verdict with
    | none =>
        rw [hv] at hallows
        cases hallows
    | some v =>
        rw [hv] at hallows
        dsimp only at hallows ⊢
        split at hallows
        · cases hallows
        · next hinput =>
          split at hallows
          · cases hallows
          · next hquestion =>
            rw [if_neg hinput, if_neg hquestion]
            rw [not_or, not_or, ne_eq, ne_eq, not_not, not_not] at hquestion
            obtain ⟨hsats, hkey, hfresh⟩ := hquestion
            obtain ⟨node, now, hnode, hcheck⟩ := h.verdict v hv
            -- the verdict's question is the screen's, but for the time
            have hcontext := nodeContext_of_key (hnode.symm.trans hkey)
            have hrequest : ∀ at', Look.request ⟨v.input, node, now⟩ v.sats at' =
                s.look.request sats at' := by
              intro at'
              unfold Look.request Screen.look
              rw [hcontext, hsats, not_not.mp hinput]
            rw [hrequest] at hcheck
            refine ⟨⟨now, hcheck⟩, fun n expiresAt hvalid => ?_⟩
            have hbefore := judge_eq_valid.mp (hcheck.symm.trans hvalid)
            refine judge_eq_valid.mpr (valid_until hbefore ?_)
            rw [hvalid] at hfresh
            have hlater : ¬ (expiresAt : Int) -
                ((nodeContext s.node).minRemainingSecs.getD 0 : Nat) ≤ s.now := by
              simpa only [staleAt, Option.any_some, decide_eq_true_eq] using hfresh
            exact Int.not_le.mp hlater

/-! ## Every run -/

/-- The core answers the request of this step. -/
def answered : Label Task Bool Act → Bool
  | .step _ answers => answers
  | _ => true

theorem Screen.Right.answer {r : Request} {nodeKey : List Char} {submits : Bool}
    (h : s.Right fromStr) (hr : (Task.asks r nodeKey submits).Right fromStr) :
    (s.answer fromStr true r nodeKey).Right fromStr := by
  unfold Screen.answer
  rw [if_pos rfl]
  split
  · obtain ⟨node, hkey, hrequest⟩ := hr
    refine ⟨rfl, fun v hv => ?_, h.sent⟩
    obtain rfl := Option.some.inj hv
    exact ⟨node, r.now, hkey, congrArg (Request.judge fromStr) hrequest⟩
  · exact h

/-- A step keeps the screen right, and what its task goes on with. -/
theorem Task.step_right {p : Task} (h : s.Right fromStr) (hp : p.Right fromStr) :
    (p.step fromStr true s).1.Right fromStr ∧
      ∀ q, (p.step fromStr true s).2 = some q → q.Right fromStr := by
  cases p with
  -- A question is asked under the node's facts of the moment.
  | fires input sats =>
      refine ⟨h, fun q hq => ?_⟩
      dsimp only [Task.step] at hq
      split at hq
      · obtain rfl := Option.some.inj hq
        exact ⟨s.node, rfl, rfl⟩
      · cases hq
  | taps =>
      refine ⟨h, fun q hq => ?_⟩
      dsimp only [Task.step] at hq
      split at hq
      · cases hq
      · obtain rfl := Option.some.inj hq
        exact ⟨s.node, rfl, rfl⟩
  | asks r nodeKey submits =>
      refine ⟨h.answer hp, fun q hq => ?_⟩
      dsimp only [Task.step] at hq
      split at hq
      · obtain rfl := Option.some.inj hq
        trivial
      · cases hq
  | looks input sats =>
      refine ⟨h, fun q hq => ?_⟩
      dsimp only [Task.step] at hq
      split at hq
      · obtain rfl := Option.some.inj hq
        exact fun hallows => s.check_judged h hallows
      · cases hq
  -- Sent only as the check allows it, an address with its amount.
  | decides input sats check seen =>
      dsimp only [Task.step]
      split
      · exact ⟨h, fun q hq => (by cases hq)⟩
      · next hsend =>
        rw [not_or, not_or] at hsend
        obtain ⟨-, hamount, hallows⟩ := hsend
        rw [Bool.not_eq_false] at hallows
        refine ⟨⟨h.available, h.verdict, fun m hm => ?_⟩, fun q hq => ?_⟩
        · rcases List.mem_cons.mp hm with rfl | hold
          · refine ⟨hp hallows, hallows, fun haddress => ?_⟩
            exact Option.isSome_iff_ne_none.mpr fun hnone => hamount ⟨haddress, hnone⟩
          · exact h.sent m hold
        · obtain rfl := Option.some.inj hq
          trivial
  | sends => exact ⟨⟨h.available, h.verdict, h.sent⟩, fun q hq => (by cases hq)⟩

theorem Act.act_right (a : Act) (h : s.Right fromStr) :
    (a.act toLowerCase s).Right fromStr := by
  cases a <;> exact ⟨h.available, h.verdict, h.sent⟩

/-- While the core answers, the screen keeps right. -/
theorem screen_outline :
    Outline (screenProg fromStr toLowerCase) (fun _ l => answered l = true)
      (fun s => s.Right fromStr) (fun p _ => p.Right fromStr) where
  spawn c i p _ _ hp _ := by
    cases p with
    | fires | taps => trivial
    | asks | looks | decides | sends => cases hp
  step_shared c i w p s q hc hC hp hs := by
    obtain rfl : w = true := hC
    obtain rfl := congrArg Prod.fst (Option.some.inj hs)
    exact (Task.step_right hc.shared (hc.threads i p hp)).1
  step_self c i w p s q hc hC hp hs := by
    obtain rfl : w = true := hC
    exact (Task.step_right hc.shared (hc.threads i p hp)).2 q
      (congrArg Prod.snd (Option.some.inj hs))
  step_other c i w p s q j r hc _ _ _ _ hj := hc.threads j r hj
  env_shared c a s hc _ hs := by
    obtain rfl := Option.some.inj hs
    exact a.act_right hc.shared
  env_threads c a s i p hc _ _ hp := hc.threads i p hp

/-! ## What is sent -/

/-- A screen that has just been opened. -/
structure Opened (s : Screen) : Prop where
  available : s.checkerAvailable = true
  verdict : s.verdict = none
  sent : s.sent = []

theorem Opened.right (h : Opened s) : s.Right fromStr := by
  refine ⟨h.available, fun v hv => ?_, fun m hm => ?_⟩
  · rw [h.verdict] at hv
    cases hv
  · rw [h.sent] at hm
    cases hm

theorem allowsSubmit_fromVerdict (v : InvoiceVerdict) :
    invoiceCheckAllowsSubmit (invoiceCheckFromVerdict v) = v.allowsSubmit := by
  cases v <;> rfl

/-- `send_invoice` takes what the screen lets through. -/
theorem Judged.resolves {check : InvoiceCheck} {seen : Look} (h : Judged fromStr sats check seen)
    (hallows : invoiceCheckAllowsSubmit check = true) (amountSats : Nat) :
    ∃ dest amt, resolveAddInvoiceDestination fromStr seen.input amountSats = some (dest, amt) := by
  obtain ⟨now, rfl⟩ := h.given
  cases hr : resolveAddInvoiceDestination fromStr seen.input amountSats with
  | some r => exact ⟨r.1, r.2, rfl⟩
  | none =>
      have hnever := resolve_none_iff.mp hr sats (nodeContext seen.node).networks
        (nodeContext seen.node).minRemainingSecs now
      rw [← allowsSubmit_fromVerdict] at hnever
      exact absurd hallows (by rw [Bool.not_eq_true]; exact hnever)

/-- **What is sent was judged.** Whatever else is asked and answered, and however the field, the
amount, the node and the clock go on: what is sent, unless the field was edited while it was judged,
has a verdict of the core on it for the amount it goes with and the node there is; valid, it still
is; an address goes with an amount; and `send_invoice` takes it and publishes what was judged. -/
theorem sent_as_judged {c : Pool Screen Task} {ls : List (Label Task Bool Act)} (h : Opened s)
    (hanswered : Along (screenProg fromStr toLowerCase).next (fun _ l => answered l = true)
      (Pool.idle s) ls)
    (hr : run (screenProg fromStr toLowerCase).next (Pool.idle s) ls = some c) {m : Sent}
    (hm : m ∈ c.shared.sent) (hkept : m.seen.input = m.input) :
    (∃ now, m.check = (m.seen.request m.sats now).judge fromStr) ∧
      (∀ n expiresAt, m.check = .valid n expiresAt →
        (m.seen.request m.sats m.seen.now).judge fromStr = .valid n expiresAt) ∧
      (m.check = .address → m.sats.isSome = true) ∧
      ∃ dest amt,
        resolveAddInvoiceDestination fromStr m.input m.amountSats = some (dest, amt) ∧
          normalize dest = dest ∧ classify fromStr dest = classify fromStr m.seen.input := by
  have hright := (screen_outline.run_inv (poolInv_idle h.right) hanswered hr).shared.sent m hm
  obtain ⟨dest, amt, hdest⟩ := hright.judged.resolves hright.allowed m.amountSats
  rw [hkept] at hdest
  obtain ⟨hnormal, hsame, -⟩ := published_reads_as_judged hdest
  exact ⟨hright.judged.given, hright.judged.current, hright.amount, dest, amt, hdest, hnormal,
    hkept.symm ▸ hsame⟩

/-- The amount and the node come late, and a judgement of an earlier input answers last. -/
def lateAnswers : List (Label Task Bool Act) :=
  [.env (.edits "lnbc2500".toList), .spawn 0 (.fires "lnbc2500".toList none), .step 0 true,
    .env (.edits "lightning:lnbc2500u1pvjluez".toList), .env (.clock 1496314600),
    .spawn 1 (.fires "lnbc2500u1pvjluez".toList none), .step 1 true, .step 1 true,
    .env (.learnsAmount (some 250000)),
    .env (.learnsNode (some { lndNetworks := some "mainnet".toList
                              invoiceExpirationWindow := some 30 })),
    .spawn 2 .taps, .step 2 true, .step 2 true, .step 0 true, .env (.clock 1496314687),
    .step 2 true, .step 2 true]

theorem sent_as_judged_late :
    ∃ c, run (screenProg scannedDecoder asciiLowered).next (Pool.idle {}) lateAnswers = some c ∧
      ∃ m ∈ c.shared.sent, m.check = .valid 250000 1496314718 ∧
        (m.seen.request m.sats m.seen.now).judge scannedDecoder = .valid 250000 1496314718 := by
  have hrun : run (screenProg scannedDecoder asciiLowered).next (Pool.idle {}) lateAnswers =
      some _ := rfl
  have hanswered : Along (screenProg scannedDecoder asciiLowered).next
      (fun _ l => answered l = true) (Pool.idle {}) lateAnswers := by decide
  refine ⟨_, hrun, _, List.mem_cons_self .., rfl, ?_⟩
  have hsent := sent_as_judged ⟨rfl, rfl, rfl⟩ hanswered hrun (List.mem_cons_self ..) rfl
  exact hsent.2.1 _ _ rfl

/-- The field is edited while its input is judged, and a verdict on the new one is in first: the
input of the tap is sent, which `send_invoice` refuses. -/
theorem edited_while_judged :
    (run (screenProg scannedDecoder asciiLowered).next (Pool.idle { sats := some 5 })
        [.env (.edits "x".toList), .spawn 0 .taps, .step 0 true, .env (.edits "al@ln.org".toList),
          .spawn 1 (.fires "al@ln.org".toList (some 5)), .step 1 true, .step 1 true, .step 0 true,
          .step 0 true, .step 0 true]).map
          (fun c => c.shared.sent.map fun m => (m.input, m.check)) =
        some [("x".toList, .address)] ∧
      resolveAddInvoiceDestination scannedDecoder "x".toList 5 = none := by
  decide

end MostroApp.AddInvoice
