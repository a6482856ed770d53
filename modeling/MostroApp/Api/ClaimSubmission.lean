import MostroApp.Lib.Interleaving
import MostroApp.Mostro.BondClaims
import MostroApp.Mostro.Pending

set_option autoImplicit false

/-! # A payout submission beside the daemon's messages (`api/bond.rs`, `api/orders.rs`)

A submission reads the claim of its order once, publishes the invoice, writes the claim back as
`Submitted`, waits for the daemon's reply and, when that is a rejection, looks a claim up again
by the order alone. The daemon's messages rewrite the same rows, each under its order's lock,
which a submission does not take.

A submission leaves the daemon's verdicts alone as long as none is written for its claim while
it holds a copy to write back, and a rejection finds the claim it submitted.
-/

namespace MostroApp.BondClaims

open Interleaving Transition
open Pending (DaemonReply)

/-! ## Messages -/

/-- The daemon's claim traffic, with the node that sent it. -/
inductive ClaimMessage where
  | addBondInvoice (request : PayoutRequest)
  | bondInvoiceAccepted (nodePubkey orderId : String)
  | bondPayoutCompleted (nodePubkey orderId : String)
  deriving DecidableEq, Repr

/-- The node and order whose claim the message is about. -/
def ClaimMessage.key : ClaimMessage → String × String
  | .addBondInvoice request => (request.nodePubkey, request.orderId)
  | .bondInvoiceAccepted node order | .bondPayoutCompleted node order => (node, order)

/-- The claim to persist after a message, from the claim as it was read. -/
def ClaimMessage.decide (stored : Option BondClaim) (windowDays : Option Nat) (now : Int) :
    ClaimMessage → Option BondClaim
  | .addBondInvoice request => (upsertClaim stored request windowDays now).1
  | .bondInvoiceAccepted _ _ => stored.bind (·.advance .acknowledged now)
  | .bondPayoutCompleted _ _ => stored.bind (·.advance .completed now)

theorem decide_storageId {m : ClaimMessage} {stored : Option BondClaim} {windowDays : Option Nat}
    {now : Int} {claim : BondClaim} (hs : ∀ c ∈ stored, c.storageId = m.key)
    (h : m.decide stored windowDays now = some claim) : claim.storageId = m.key := by
  cases m with
  | addBondInvoice request => exact upsertClaim_storageId hs h
  | bondInvoiceAccepted node order =>
      obtain ⟨c, hc, ha⟩ := Option.bind_eq_some_iff.mp h
      exact (advance_storageId ha).trans (hs c hc)
  | bondPayoutCompleted node order =>
      obtain ⟨c, hc, ha⟩ := Option.bind_eq_some_iff.mp h
      exact (advance_storageId ha).trans (hs c hc)

/-! ## Submissions and handlers, step by step -/

/-- The claim store, the orders whose lock is held, the messages handled, how the submissions
ended, and the time of the last step. -/
structure ClaimBook where
  store : ClaimStore := {}
  held : List String := []
  processed : List ClaimMessage := []
  results : List (String × Except String Unit) := []
  clock : Int := 0

/-- What a step learns: the time, the error its store or relay call fails with, the node's
advertised window, and the reply a submission was woken with (`none` when it timed out). -/
structure ClaimOracle where
  now : Int
  failure : Option String := none
  windowDays : Option Nat := none
  reply : Option DaemonReply := none

/-- What a submission or a handler does next. `bolt11` is the invoice as trimmed, `amountMsat`
the amount it decodes to; a submission past `chooses` carries the claim it read there. -/
inductive ClaimTask where
  | checksShare (order bolt11 : String) (amountMsat : Option Nat)
  | chooses (order bolt11 : String)
  | expires (chosen : BondClaim) (now : Int)
  | publishes (chosen : BondClaim) (bolt11 : String) (now : Int)
  | marks (chosen : BondClaim) (bolt11 : String) (now : Int)
  | awaits (submitted : BondClaim)
  | rereads (submitted : BondClaim)
  | settles (submitted next : BondClaim) (marker : String)
  | locks (m : ClaimMessage)
  | reads (m : ClaimMessage)
  | decides (m : ClaimMessage) (stored : Option BondClaim)
  | writes (m : ClaimMessage) (claim : BondClaim)
  deriving DecidableEq, Repr

/-- The submission returns. -/
def ClaimBook.finish (order : String) (result : Except String Unit) (s : ClaimBook) : ClaimBook :=
  { s with results := (order, result) :: s.results }

def ClaimBook.save (claim : BondClaim) (s : ClaimBook) : ClaimBook :=
  { s with store := s.store.save claim }

/-- The handler returns, and the order's guard is dropped. -/
def ClaimBook.release (m : ClaimMessage) (s : ClaimBook) : ClaimBook :=
  { s with held := s.held.erase m.key.2, processed := m :: s.processed }

/-- The claim as the submission marks it before the wait. -/
def BondClaim.submitted (claim : BondClaim) (bolt11 : String) (now : Int) : BondClaim :=
  { claim with phase := .submitted, submittedInvoice := some bolt11, updatedAt := now }

/-- The claim once its window is over. -/
def BondClaim.withPhase (claim : BondClaim) (phase : BondClaimPhase) (now : Int) : BondClaim :=
  { claim with phase := phase, updatedAt := now }

/-- The claim after a rejection it cannot explain. -/
def BondClaim.rearmed (claim : BondClaim) (now : Int) : BondClaim :=
  { claim with phase := .pending, submittedInvoice := none, updatedAt := now }

/-- One step; a handler that waits for its order's lock has none. -/
def ClaimTask.step (w : ClaimOracle) : ClaimTask → ClaimBook → Option (ClaimBook × Option ClaimTask)
  | .checksShare order bolt11 amountMsat, s =>
      if bolt11 = "" then some (s.finish order (.error "InvalidInvoice"), none)
      else match amountMsat.filter (· ≠ 0), w.failure, s.store.claimForOrder order with
        | some _, some e, _ => some (s.finish order (.error e), none)
        | some msat, none, some claim =>
            if msat ≠ min (claim.amountSats * 1000) (2 ^ 64 - 1) then
              some (s.finish order (.error "InvoiceAmountMismatch"), none)
            else some (s, some (.chooses order bolt11))
        -- an invoice without an amount passes, and so does one with no claim to compare
        | _, _, _ => some (s, some (.chooses order bolt11))
  | .chooses order bolt11, s =>
      match w.failure, s.store.claimForOrder order with
      | some e, _ => some (s.finish order (.error e), none)
      | none, none => some (s.finish order (.error "ClaimNotFound"), none)
      | none, some claim =>
          if claim.phase ≠ .pending ∧ claim.phase ≠ .submitted then
            some (s.finish order (.error "ClaimNotClaimable"), none)
          else if w.now > claim.deadlineAt then some (s, some (.expires claim w.now))
          else some (s, some (.publishes claim bolt11 w.now))
  | .expires chosen now, s =>
      match w.failure with
      | some e => some (s.finish chosen.orderId (.error e), none)
      | none => some ((s.save (chosen.withPhase .expired now)).finish chosen.orderId
          (.error "BondClaimExpired"), none)
  | .publishes chosen bolt11 now, s =>
      match w.failure with
      | some e => some (s.finish chosen.orderId (.error e), none)
      | none => some (s, some (.marks chosen bolt11 now))
  | .marks chosen bolt11 now, s =>
      match w.failure with
      | some e => some (s.finish chosen.orderId (.error e), none)
      | none => some (s.save (chosen.submitted bolt11 now),
          some (.awaits (chosen.submitted bolt11 now)))
  | .awaits submitted, s =>
      match w.reply with
      | some (.rejected _ _) => some (s, some (.rereads submitted))
      -- any other answer is the acknowledgement
      | some _ => some (s.finish submitted.orderId (.ok ()), none)
      | none => some (s.finish submitted.orderId (.error "NoDaemonResponse"), none)
  | .rereads submitted, s =>
      match w.failure with
      | some e => some (s.finish submitted.orderId (.error e), none)
      | none =>
          -- the claim may have moved on during the wait; a lost one is the copy
          let current := (s.store.claimForOrder submitted.orderId).getD submitted
          match resolveSubmissionRejection current w.now with
          | .ok phase =>
              if phase = current.phase then
                some (s.finish submitted.orderId (.error "ClaimNotClaimable"), none)
              else some (s, some
                (.settles submitted (current.withPhase phase w.now) "BondClaimExpired"))
          | .error marker => some (s, some (.settles submitted (current.rearmed w.now) marker))
  | .settles submitted next marker, s =>
      match w.failure with
      | some e => some (s.finish submitted.orderId (.error e), none)
      | none => some ((s.save next).finish submitted.orderId (.error marker), none)
  | .locks m, s =>
      if m.key.2 ∈ s.held then none
      else some ({ s with held := m.key.2 :: s.held }, some (.reads m))
  | .reads m, s =>
      -- a failed read counts as no claim
      some (s, some (.decides m
        (if w.failure = none then s.store.get m.key.1 m.key.2 else none)))
  | .decides m stored, s =>
      match m.decide stored w.windowDays w.now with
      | some claim => some (s, some (.writes m claim))
      | none => some (s.release m, none)
  | .writes m claim, s =>
      match w.failure with
      -- a write that fails drops the message
      | some _ => some (s.release m, none)
      | none => some ((s.save claim).release m, none)

/-- A submission starts at its checks, a handler at its order's lock. -/
def ClaimTask.starts : ClaimTask → Bool
  | .checksShare .. | .locks _ => true
  | _ => false

/-- Any number of submissions and handlers. -/
def claimProg : Prog ClaimBook ClaimTask ClaimOracle Unit where
  enter := ClaimTask.starts
  tstep w p s := p.step w { s with clock := w.now }
  act _ s := some s

/-! ## What a submission writes -/

/-- The key of the claim the submission chose, and what its next step writes. -/
def ClaimTask.submits : ClaimTask → Option ((String × String) × BondClaim)
  | .expires chosen now => some (chosen.storageId, chosen.withPhase .expired now)
  | .marks chosen bolt11 now => some (chosen.storageId, chosen.submitted bolt11 now)
  | .settles submitted next _ => some (submitted.storageId, next)
  | _ => none

/-- No claim with a verdict of the daemon is stored under the key. -/
def NoVerdict (key : String × String) (s : ClaimStore) : Prop :=
  ∀ stored, s.get key.1 key.2 = some stored → stored.phase.isVerdict = false

/-- A submission writes the claim it chose, and over no verdict. -/
def KeepsVerdicts (c : Pool ClaimBook ClaimTask) (l : Label ClaimTask ClaimOracle Unit) : Prop :=
  ∀ i w p key claim, l = .step i w → c.threads i = some p → p.submits = some (key, claim) →
    claim.storageId = key ∧ NoVerdict key c.shared.store

/-- The claim a submission holds a copy of, to write it back. -/
def ClaimTask.copies : ClaimTask → Option (String × String)
  | .expires chosen _ | .publishes chosen _ _ | .marks chosen _ _ => some chosen.storageId
  | .settles _ next _ => some next.storageId
  | _ => none

/-- A verdict is not written for a claim the other task holds a copy of; a rejection finds the
claim it submitted, or one it leaves alone. -/
def VerdictsApart (c : Pool ClaimBook ClaimTask) (l : Label ClaimTask ClaimOracle Unit)
    (other : Option ClaimTask) : Prop :=
  match l with
  | .step i _ =>
      match c.threads i with
      | some (.writes _ claim) =>
          claim.phase.isVerdict = true → ∀ key ∈ other.bind ClaimTask.copies, key ≠ claim.storageId
      | some (.rereads submitted) =>
          ∀ current ∈ c.shared.store.claimForOrder submitted.orderId,
            current.phase.isVerdict = false → current.storageId = submitted.storageId
      | _ => True
  | _ => True

instance (c : Pool ClaimBook ClaimTask) (l : Label ClaimTask ClaimOracle Unit)
    (q : Option ClaimTask) : Decidable (VerdictsApart c l q) := by
  unfold VerdictsApart
  split
  · split <;> infer_instance
  · infer_instance

/-! ## The proof outline -/

/-- A copy is of a claim without a verdict, the one chosen. -/
def ClaimTask.fair : ClaimTask → ClaimStore → Prop
  | .expires chosen _, s | .publishes chosen _ _, s | .marks chosen _ _, s =>
      NoVerdict chosen.storageId s
  | .settles submitted next _, s =>
      next.storageId = submitted.storageId ∧ next.phase.isVerdict = false ∧
        NoVerdict next.storageId s
  | _, _ => True

theorem NoVerdict.save {key : String × String} {s : ClaimStore} {claim : BondClaim}
    (h : NoVerdict key s) (hc : claim.phase.isVerdict = true → key ≠ claim.storageId) :
    NoVerdict key (s.save claim) := by
  intro stored hget
  by_cases hkey : claim.storageId = key
  · have hself : (s.save claim).get key.1 key.2 = some claim := by
      rw [← hkey]
      exact get_save_self
    obtain rfl := Option.some.inj (hself.symm.trans hget)
    by_contra hv
    exact hc (by simpa using hv) hkey.symm
  · rw [get_save_of_ne hkey] at hget
    exact h stored hget

/-- The claim a step writes, if its store call succeeds. -/
def ClaimTask.written : ClaimTask → Option BondClaim
  | .writes _ claim => some claim
  | p => p.submits.map Prod.snd

/-- The message a handler is about to have handled. -/
def ClaimTask.handles : ClaimTask → Option ClaimMessage
  | .decides m _ | .writes m _ => some m
  | _ => none

/-- What a step may do to the shared state: write the one claim it has, and log its message. -/
structure ClaimTask.Effect (p : ClaimTask) (s s' : ClaimBook) : Prop where
  clock : s'.clock = s.clock
  store : s'.store = s.store ∨ ∃ claim, p.written = some claim ∧ s'.store = s.store.save claim
  processed : s'.processed = s.processed ∨
    ∃ m, p.handles = some m ∧ s'.processed = m :: s.processed

/-- What a step does, by where the task stands. -/
inductive ClaimTask.Steps (w : ClaimOracle) (s : ClaimBook) :
    ClaimTask → ClaimBook → Option ClaimTask → Prop
  -- a submission returns without a write
  | returns (p : ClaimTask) (order : String) (result : Except String Unit) :
      Steps w s p (s.finish order result) none
  | checks (order bolt11 : String) (amountMsat : Option Nat) :
      Steps w s (.checksShare order bolt11 amountMsat) s (some (.chooses order bolt11))
  | chooses (order bolt11 : String) (claim : BondClaim) (q : ClaimTask)
      (hclaim : s.store.claimForOrder order = some claim) (hv : claim.phase.isVerdict = false)
      (hq : (w.now > claim.deadlineAt ∧ q = .expires claim w.now) ∨
        q = .publishes claim bolt11 w.now) :
      Steps w s (.chooses order bolt11) s (some q)
  | expires (chosen : BondClaim) (now : Int) :
      Steps w s (.expires chosen now)
        ((s.save (chosen.withPhase .expired now)).finish chosen.orderId
          (.error "BondClaimExpired")) none
  | publishes (chosen : BondClaim) (bolt11 : String) (now : Int) :
      Steps w s (.publishes chosen bolt11 now) s (some (.marks chosen bolt11 now))
  | marks (chosen : BondClaim) (bolt11 : String) (now : Int) :
      Steps w s (.marks chosen bolt11 now) (s.save (chosen.submitted bolt11 now))
        (some (.awaits (chosen.submitted bolt11 now)))
  | awaits (submitted : BondClaim) : Steps w s (.awaits submitted) s (some (.rereads submitted))
  -- a rejection that changes a claim changes the one found for the order, or else the copy
  | rereads (submitted current next : BondClaim) (marker : String)
      (hcur : current = (s.store.claimForOrder submitted.orderId).getD submitted)
      (hv : current.phase.isVerdict = false)
      (hnext : (next = current.withPhase .expired w.now ∧ w.now > current.deadlineAt) ∨
        next = current.rearmed w.now) :
      Steps w s (.rereads submitted) s (some (.settles submitted next marker))
  | settles (submitted next : BondClaim) (marker : String) :
      Steps w s (.settles submitted next marker)
        ((s.save next).finish submitted.orderId (.error marker)) none
  | locks (m : ClaimMessage) :
      Steps w s (.locks m) { s with held := m.key.2 :: s.held } (some (.reads m))
  | reads (m : ClaimMessage) :
      Steps w s (.reads m) s (some (.decides m
        (if w.failure = none then s.store.get m.key.1 m.key.2 else none)))
  | decides (m : ClaimMessage) (stored : Option BondClaim) (claim : BondClaim)
      (hdec : m.decide stored w.windowDays w.now = some claim) :
      Steps w s (.decides m stored) s (some (.writes m claim))
  | passes (m : ClaimMessage) (stored : Option BondClaim)
      (hdec : m.decide stored w.windowDays w.now = none) :
      Steps w s (.decides m stored) (s.release m) none
  | drops (m : ClaimMessage) (claim : BondClaim) (hf : w.failure ≠ none) :
      Steps w s (.writes m claim) (s.release m) none
  | writes (m : ClaimMessage) (claim : BondClaim) :
      Steps w s (.writes m claim) ((s.save claim).release m) none

theorem ClaimTask.steps_chooses {w : ClaimOracle} {order bolt11 : String} {s s' : ClaimBook}
    {q : Option ClaimTask} (h : (ClaimTask.chooses order bolt11).step w s = some (s', q)) :
    ClaimTask.Steps w s (.chooses order bolt11) s' q := by
  simp only [ClaimTask.step] at h
  split at h
  · cases h
    exact .returns _ _ _
  · cases h
    exact .returns _ _ _
  next claim _ hclaim =>
    split at h
    · cases h
      exact .returns _ _ _
    next hopen =>
      have hv : claim.phase.isVerdict = false := by
        revert hopen
        cases claim.phase <;> simp [BondClaimPhase.isVerdict]
      split at h
      · next hlate =>
        cases h
        exact .chooses order bolt11 claim _ hclaim hv (Or.inl ⟨hlate, rfl⟩)
      · cases h
        exact .chooses order bolt11 claim _ hclaim hv (Or.inr rfl)

theorem ClaimTask.steps_rereads {w : ClaimOracle} {submitted : BondClaim} {s s' : ClaimBook}
    {q : Option ClaimTask} (h : (ClaimTask.rereads submitted).step w s = some (s', q)) :
    ClaimTask.Steps w s (.rereads submitted) s' q := by
  simp only [ClaimTask.step] at h
  split at h
  · cases h
    exact .returns _ _ _
  generalize hcur : (s.store.claimForOrder submitted.orderId).getD submitted = current at h
  unfold resolveSubmissionRejection at h
  by_cases hv : current.phase.isVerdict = true
  · simp only [hv, if_true] at h
    cases h
    exact .returns _ _ _
  have hv : current.phase.isVerdict = false := by simpa using hv
  by_cases hlate : w.now > current.deadlineAt
  · simp only [hv, Bool.false_eq_true, if_false, if_pos hlate] at h
    split at h
    · cases h
      exact .returns _ _ _
    · cases h
      exact .rereads submitted current _ _ hcur.symm hv (Or.inl ⟨rfl, hlate⟩)
  · simp only [hv, Bool.false_eq_true, if_false, if_neg hlate] at h
    cases h
    exact .rereads submitted current _ _ hcur.symm hv (Or.inr rfl)

/-- **The steps of a task are these.** -/
theorem ClaimTask.step_cases {w : ClaimOracle} {p : ClaimTask} {s s' : ClaimBook}
    {q : Option ClaimTask} (h : p.step w s = some (s', q)) : p.Steps w s s' q := by
  cases p with
  | chooses order bolt11 => exact ClaimTask.steps_chooses h
  | rereads submitted => exact ClaimTask.steps_rereads h
  | checksShare order bolt11 amountMsat =>
      simp only [ClaimTask.step] at h
      repeat' split at h
      all_goals cases h
      all_goals
        first
        | exact .returns _ _ _
        | exact .checks order bolt11 amountMsat
  | expires chosen now =>
      simp only [ClaimTask.step] at h
      split at h <;> cases h
      · exact .returns _ _ _
      · exact .expires chosen now
  | publishes chosen bolt11 now =>
      simp only [ClaimTask.step] at h
      split at h <;> cases h
      · exact .returns _ _ _
      · exact .publishes chosen bolt11 now
  | marks chosen bolt11 now =>
      simp only [ClaimTask.step] at h
      split at h <;> cases h
      · exact .returns _ _ _
      · exact .marks chosen bolt11 now
  | awaits submitted =>
      simp only [ClaimTask.step] at h
      split at h <;> cases h
      · exact .awaits submitted
      · exact .returns _ _ _
      · exact .returns _ _ _
  | settles submitted next marker =>
      simp only [ClaimTask.step] at h
      split at h <;> cases h
      · exact .returns _ _ _
      · exact .settles submitted next marker
  | locks m =>
      simp only [ClaimTask.step] at h
      split at h <;> cases h
      exact .locks m
  | reads m =>
      cases h
      exact .reads m
  | decides m stored =>
      simp only [ClaimTask.step] at h
      split at h
      · next claim hdec =>
        cases h
        exact .decides m stored claim hdec
      · next hdec =>
        cases h
        exact .passes m stored hdec
  | writes m claim =>
      simp only [ClaimTask.step] at h
      split at h
      · next hf =>
        cases h
        exact .drops m claim (by simp [hf])
      · cases h
        exact .writes m claim

theorem ClaimTask.step_effect {w : ClaimOracle} {p : ClaimTask} {s s' : ClaimBook}
    {q : Option ClaimTask} (h : p.step w s = some (s', q)) : p.Effect s s' := by
  cases ClaimTask.step_cases h with
  | returns | checks | chooses | publishes | awaits | rereads | locks | reads | decides =>
      exact ⟨rfl, Or.inl rfl, Or.inl rfl⟩
  | expires | marks | settles => exact ⟨rfl, Or.inr ⟨_, rfl, rfl⟩, Or.inl rfl⟩
  | passes m | drops m => exact ⟨rfl, Or.inl rfl, Or.inr ⟨m, rfl, rfl⟩⟩
  | writes m claim => exact ⟨rfl, Or.inr ⟨_, rfl, rfl⟩, Or.inr ⟨m, rfl, rfl⟩⟩

/-- The claim an order is found to have, without a verdict. -/
theorem noVerdict_of_claimForOrder {s : ClaimStore} {order : String} {claim : BondClaim}
    (h : s.claimForOrder order = some claim) (hv : claim.phase.isVerdict = false) :
    NoVerdict claim.storageId s := by
  intro stored hget
  have horder : claim.orderId = order := (claimForOrder_mem h).2
  have hclaim := claimForOrder_get h
  rw [← horder] at hclaim
  exact Option.some.inj (hclaim.symm.trans hget) ▸ hv

/-- What a task's own step leaves it. -/
theorem ClaimTask.step_fair {w : ClaimOracle} {p q : ClaimTask} {s s' : ClaimBook}
    (hp : p.fair s.store)
    (hfound : ∀ submitted, p = .rereads submitted →
      ∀ current ∈ s.store.claimForOrder submitted.orderId, current.phase.isVerdict = false →
        current.storageId = submitted.storageId)
    (h : p.step w s = some (s', some q)) : q.fair s'.store := by
  cases ClaimTask.step_cases h with
  | chooses order bolt11 claim q hclaim hv hq =>
      have hno : NoVerdict claim.storageId s.store := noVerdict_of_claimForOrder hclaim hv
      rcases hq with ⟨-, rfl⟩ | rfl <;> exact hno
  | publishes chosen bolt11 now => exact hp
  | rereads submitted current next marker hcur hv hnext =>
      have hid : next.storageId = current.storageId := by
        rcases hnext with ⟨rfl, -⟩ | rfl <;> rfl
      have hphase : next.phase.isVerdict = false := by
        rcases hnext with ⟨rfl, -⟩ | rfl <;> rfl
      have hkey : current.storageId = submitted.storageId ∧
          NoVerdict current.storageId s.store := by
        cases hfor : s.store.claimForOrder submitted.orderId with
        | some found =>
            rw [hfor] at hcur
            obtain rfl : current = found := hcur
            exact ⟨hfound submitted rfl current hfor hv, noVerdict_of_claimForOrder hfor hv⟩
        | none =>
            -- no claim of the order is stored
            rw [hfor] at hcur
            obtain rfl : current = submitted := hcur
            refine ⟨rfl, fun stored hget => ?_⟩
            obtain ⟨hmem, hsid⟩ := get_eq_some.mp hget
            exact absurd hfor (claimForOrder_ne_none hmem (congrArg Prod.snd hsid))
      exact ⟨hid.trans hkey.1, hphase, hid ▸ hkey.2⟩
  | checks | marks | awaits | locks | reads | decides => trivial

/-- Another task's write leaves a copy fair where it is no verdict on that claim. -/
theorem ClaimTask.fair_save {p : ClaimTask} {s : ClaimStore} {claim : BondClaim} (hp : p.fair s)
    (hc : claim.phase.isVerdict = true → ∀ key ∈ p.copies, key ≠ claim.storageId) :
    p.fair (s.save claim) := by
  have keep : ∀ {key : String × String}, key ∈ p.copies → NoVerdict key s →
      NoVerdict key (s.save claim) :=
    fun hkey hno => hno.save fun hv => hc hv _ hkey
  cases p with
  | expires chosen now => exact keep rfl hp
  | publishes chosen bolt11 now => exact keep rfl hp
  | marks chosen bolt11 now => exact keep rfl hp
  | settles submitted next marker => exact ⟨hp.1, hp.2.1, keep rfl hp.2.2⟩
  | checksShare order bolt11 amountMsat => trivial
  | chooses order bolt11 => trivial
  | awaits submitted => trivial
  | rereads submitted => trivial
  | locks m => trivial
  | reads m => trivial
  | decides m stored => trivial
  | writes m claim => trivial

/-- What a submission writes is no verdict. -/
theorem ClaimTask.submits_phase {p : ClaimTask} {s : ClaimStore} (hp : p.fair s)
    {key : String × String} {claim : BondClaim} (h : p.submits = some (key, claim)) :
    claim.phase.isVerdict = false := by
  cases p with
  | expires chosen now =>
      obtain ⟨-, rfl⟩ := Prod.mk.inj (Option.some.inj h)
      rfl
  | marks chosen bolt11 now =>
      obtain ⟨-, rfl⟩ := Prod.mk.inj (Option.some.inj h)
      rfl
  | settles submitted next marker =>
      obtain ⟨-, rfl⟩ := Prod.mk.inj (Option.some.inj h)
      exact hp.2.1
  | _ => cases h

/-- A claim is written by a handler or by a submission. -/
theorem ClaimTask.written_cases {p : ClaimTask} {claim : BondClaim} (h : p.written = some claim) :
    (∃ m, p = .writes m claim) ∨ ∃ key, p.submits = some (key, claim) := by
  have of_submits : p.submits.map Prod.snd = some claim → ∃ key, p.submits = some (key, claim) := by
    intro hmap
    obtain ⟨⟨key, claim'⟩, hsub, rfl⟩ := Option.map_eq_some_iff.mp hmap
    exact ⟨key, hsub⟩
  cases p with
  | writes m claim' => exact Or.inl ⟨m, congrArg _ (Option.some.inj h)⟩
  | _ => exact Or.inr (of_submits h)

theorem claimOutline : Outline claimProg (fun c l => ∀ j, VerdictsApart c l (c.threads j))
    (fun _ => True) (fun p s => p.fair s.store) := by
  constructor
  · intro c i p _ _ henter _
    cases p <;> trivial
  · exact fun _ _ _ _ _ _ _ _ _ _ => trivial
  · intro c i w p s p' hc hC hp hs
    have hstep : p.step w { c.shared with clock := w.now } = some (s, some p') := hs
    have hfair : p.fair c.shared.store := hc.threads i p hp
    refine ClaimTask.step_fair (s := { c.shared with clock := w.now }) hfair ?_ hstep
    rintro submitted rfl current hcur hv
    have hi := hC i
    simp only [VerdictsApart, hp] at hi
    exact hi current hcur hv
  · intro c i w p s q j r hc hC hp hs _ hr
    have hstep : p.step w { c.shared with clock := w.now } = some (s, q) := hs
    have hfair : r.fair c.shared.store := hc.threads j r hr
    rcases (ClaimTask.step_effect hstep).store with hsame | ⟨claim, hw, hstore⟩
    · rw [hsame]
      exact hfair
    · rw [hstore]
      refine ClaimTask.fair_save hfair fun hv => ?_
      rcases ClaimTask.written_cases hw with ⟨m, rfl⟩ | ⟨key, hsub⟩
      · have hj := hC j
        simp only [VerdictsApart, hp, hr] at hj
        exact hj hv
      · have hno := ClaimTask.submits_phase (hc.threads i p hp) hsub
        exact absurd (hv.symm.trans hno) nofun
  · exact fun _ _ _ _ _ _ => trivial
  · intro c a s i p hc _ hs hp
    exact Option.some.inj hs ▸ hc.threads i p hp

/-! ## Every interleaving -/

/-- **A submission writes its own claim and over no verdict**, in any run in which verdicts stay
apart from the copies submissions hold. -/
theorem submission_keeps_verdicts {s : ClaimBook} {ls : List (Label ClaimTask ClaimOracle Unit)}
    (hC : Along claimProg.next (fun c l => ∀ j, VerdictsApart c l (c.threads j)) (Pool.idle s) ls) :
    Along claimProg.next KeepsVerdicts (Pool.idle s) ls := by
  refine claimOutline.along (fun c l hc _ => ?_) (poolInv_idle trivial) hC
  rintro i w p key claim rfl hp hsub
  have hfair : p.fair c.shared.store := hc.threads i p hp
  cases p with
  | expires chosen now =>
      obtain ⟨rfl, rfl⟩ := Prod.mk.inj (Option.some.inj hsub)
      exact ⟨rfl, hfair⟩
  | marks chosen bolt11 now =>
      obtain ⟨rfl, rfl⟩ := Prod.mk.inj (Option.some.inj hsub)
      exact ⟨rfl, hfair⟩
  | settles submitted next marker =>
      obtain ⟨rfl, rfl⟩ := Prod.mk.inj (Option.some.inj hsub)
      exact ⟨hfair.1, hfair.1 ▸ hfair.2.2⟩
  | _ => cases hsub

/-! ## Verdicts after and before the mark -/

/-- A claim of `node` for one order as it is first stored. -/
def claimFrom (node : String) (updatedAt : Int) : BondClaim :=
  { orderId := "order", nodePubkey := node, amountSats := 100, slashedAt := 0,
    deadlineAt := 1296000, phase := .pending, updatedAt := updatedAt }

/-- What a step learns at `now` where everything succeeds. -/
def calmAt (now : Int) (reply : Option DaemonReply) : ClaimOracle := { now := now, reply := reply }

/-- Thread `i` takes `n` steps at `now`. -/
def stepsAt (i n : Nat) (now : Int) : List (Label ClaimTask ClaimOracle Unit) :=
  List.replicate n (.step i (calmAt now none))

/-- An invoice is sent and rejected, another is sent, and the node accepts it. -/
def sentAndAccepted : List (Label ClaimTask ClaimOracle Unit) :=
  .spawn 0 (.checksShare "order" "lnbc1" (some 100000)) :: stepsAt 0 4 10 ++
    [.step 0 (calmAt 11 (some (.rejected "invalid" "")))] ++ stepsAt 0 2 11 ++
    .spawn 0 (.checksShare "order" "lnbc2" none) :: stepsAt 0 4 12 ++
    .spawn 1 (.locks (.bondInvoiceAccepted "alice" "order")) :: stepsAt 1 4 13 ++
    [.step 0 (calmAt 13 (some .acknowledged))]

theorem verdictsApart_none {c : Pool ClaimBook ClaimTask} {l : Label ClaimTask ClaimOracle Unit}
    {q : Option ClaimTask} (h : VerdictsApart c l q) : VerdictsApart c l none := by
  unfold VerdictsApart at h ⊢
  split
  · split
    · exact fun _ => nofun
    · next hp => simpa only [hp] using h
    · trivial
  · trivial

/-- A store with one pending claim. -/
def oneClaim : ClaimBook := { store := ({} : ClaimStore).save (claimFrom "alice" 0) }

theorem sent_and_accepted_keeps_verdicts :
    Along claimProg.next KeepsVerdicts (Pool.idle oneClaim) sentAndAccepted ∧
      (run claimProg.next (Pool.idle oneClaim) sentAndAccepted).map
        (fun c => c.shared.store.rows.map fun r => (r.phase, r.submittedInvoice)) =
          some [(.acknowledged, some "lnbc2")] := by
  have hapart : Along claimProg.next (fun c l => ∀ j < 2, VerdictsApart c l (c.threads j))
      (Pool.idle oneClaim) sentAndAccepted := by decide
  refine ⟨submission_keeps_verdicts ?_, by decide⟩
  exact along_of_below 2 (fun c l h => verdictsApart_none (h 0 (by decide))) (below_idle 2 _) rfl
    hapart

/-- The node accepts the published invoice before the submission has marked its claim. -/
def acceptedBeforeMark : List (Label ClaimTask ClaimOracle Unit) :=
  .spawn 0 (.checksShare "order" "lnbc1" none) :: stepsAt 0 3 10 ++
    .spawn 1 (.locks (.bondInvoiceAccepted "alice" "order")) :: stepsAt 1 4 11 ++ stepsAt 0 1 12

/-- A second node asks for an invoice of its own before the rejection is resolved. -/
def rejectedBesideAnother : List (Label ClaimTask ClaimOracle Unit) :=
  .spawn 0 (.checksShare "order" "lnbc1" none) :: stepsAt 0 4 10 ++
    .spawn 1 (.locks (.addBondInvoice
      { orderId := "order", nodePubkey := "bob", amountSats := 70, slashedAt := 0 })) ::
    stepsAt 1 4 11 ++
    [.step 0 (calmAt 12 (some (.rejected "invalid" "")))] ++ stepsAt 0 2 13

/-- **An acknowledged claim goes back to `Submitted`**, and a rejection of the invoice sent to
one node re-arms the claim of another, whose own stays `Submitted`. -/
theorem submission_overwrites_verdict :
    (run claimProg.next (Pool.idle oneClaim) (acceptedBeforeMark.take 9)).map
        (fun c => c.shared.store.rows.map (·.phase)) = some [.acknowledged] ∧
      (run claimProg.next (Pool.idle oneClaim) acceptedBeforeMark).map
        (fun c => c.shared.store.rows.map (·.phase)) = some [.submitted] ∧
      (run claimProg.next (Pool.idle oneClaim) rejectedBesideAnother).map
        (fun c => c.shared.store.rows.map fun r => (r.nodePubkey, r.phase, r.updatedAt)) =
          some [("alice", .submitted, 10), ("bob", .pending, 13)] := by
  decide

end MostroApp.BondClaims
