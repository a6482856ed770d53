import MostroApp.Api.ClaimSubmission

set_option autoImplicit false

/-! # Replayed claim messages

Relays replay a node's messages on every subscription, each handled under its order's lock like
the first time. What a replay changes depends on the claim it finds: a request re-arms a claim
the daemon had acknowledged, a request of another slash replaces the claim, a verdict moves a
claim that has moved back. The file takes any history of messages and submissions and says for
which claims every replay of what was already handled leaves the claim as it is.
-/

namespace MostroApp.BondClaims

open Interleaving Transition

/-! ## Histories and replays -/

/-- The clock does not go back, and every store call succeeds; a submission's publish may
fail. -/
def Steady (c : Pool ClaimBook ClaimTask) : Label ClaimTask ClaimOracle Unit → Prop
  | .step i w =>
      c.shared.clock ≤ w.now ∧
        match c.threads i with
        | some (.publishes ..) => True
        | _ => w.failure = none
  | _ => True

/-- The task's next step is the one that may fail. -/
def ClaimTask.publishing : Option ClaimTask → Bool
  | some (.publishes ..) => true
  | _ => false

theorem steady_step_iff (c : Pool ClaimBook ClaimTask) (i : Nat) (w : ClaimOracle) :
    (c.shared.clock ≤ w.now ∧
      (ClaimTask.publishing (c.threads i) = true ∨ w.failure = none)) ↔ Steady c (.step i w) := by
  unfold Steady ClaimTask.publishing
  dsimp only
  generalize c.threads i = p
  cases p with
  | none => simp
  | some p => cases p <;> simp

instance (c : Pool ClaimBook ClaimTask) : ∀ l, Decidable (Steady c l)
  | .step i w => decidable_of_iff _ (steady_step_iff c i w)
  | .spawn .. | .env _ => inferInstanceAs (Decidable True)

/-- A message as it is delivered again, with the time and the node's window then. -/
structure Delivery where
  message : ClaimMessage
  now : Int
  windowDays : Option Nat := none
  deriving DecidableEq, Repr

/-- One delivery, handled under the order's lock. -/
def Delivery.apply (s : ClaimStore) (d : Delivery) : ClaimStore :=
  match d.message.decide (s.get d.message.key.1 d.message.key.2) d.windowDays d.now with
  | none => s
  | some claim => s.save claim

def replay (ds : List Delivery) (s : ClaimStore) : ClaimStore := ds.foldl Delivery.apply s

/-- The deliveries repeat handled messages, later and in the clock's order. -/
structure Repeats (s : ClaimBook) (ds : List Delivery) : Prop where
  handled : ∀ d ∈ ds, d.message ∈ s.processed
  later : ∀ d ∈ ds, s.clock ≤ d.now
  sorted : ds.Pairwise fun d e => d.now ≤ e.now

/-- What a replay should leave alone. -/
structure ClaimTerms where
  phase : BondClaimPhase
  submittedInvoice : Option String
  slashedAt : Int
  deadlineAt : Int
  deriving DecidableEq, Repr

def BondClaim.terms (c : BondClaim) : ClaimTerms :=
  ⟨c.phase, c.submittedInvoice, c.slashedAt, c.deadlineAt⟩

/-- Every replay of handled messages leaves the terms of the claim under the key alone. -/
def ReplayProof (key : String × String) (s : ClaimBook) : Prop :=
  ∀ ds, Repeats s ds → ((replay ds s.store).get key.1 key.2).map BondClaim.terms =
    (s.store.get key.1 key.2).map BondClaim.terms

/-- The requests handled for the claim are of its own slash, and it is paid, or its daemon has
acknowledged nothing, so far as was handled. -/
structure AtRest (processed : List ClaimMessage) (claim : BondClaim) : Prop where
  slash : ∀ request, .addBondInvoice request ∈ processed →
    (request.nodePubkey, request.orderId) = claim.storageId → request.slashedAt = claim.slashedAt
  phase : claim.phase = .completed ∨ (claim.phase ≠ .acknowledged ∧
    ∀ m ∈ processed, m.key = claim.storageId → ∃ request, m = .addBondInvoice request)

/-! ## What a history leaves -/

/-- A request for the key was handled. -/
def Asked (key : String × String) (s : ClaimBook) : Prop :=
  ∃ request, .addBondInvoice request ∈ s.processed ∧ (request.nodePubkey, request.orderId) = key

/-- A claim is stored under the key. -/
def HasClaim (key : String × String) (s : ClaimBook) : Prop :=
  ∃ claim ∈ s.store.rows, claim.storageId = key

/-- A claim that expired did so in the past. -/
def BondClaim.Elapsed (claim : BondClaim) (s : ClaimBook) : Prop :=
  claim.phase = .expired → claim.deadlineAt < s.clock

/-- The stored claims are those asked for. -/
structure Recorded (s : ClaimBook) : Prop where
  asked : ∀ claim ∈ s.store.rows, Asked claim.storageId s
  elapsed : ∀ claim ∈ s.store.rows, claim.Elapsed s
  stored : ∀ key, Asked key s → HasClaim key s

/-- A later state: more messages handled, the clock further, no claim gone. -/
structure Later (s t : ClaimBook) : Prop where
  clock : s.clock ≤ t.clock
  processed : ∀ m ∈ s.processed, m ∈ t.processed
  stored : ∀ key, HasClaim key s → HasClaim key t

/-- What a task carries is a claim that was asked for, or is being. -/
def ClaimTask.carries : ClaimTask → ClaimBook → Prop
  | .expires chosen now, s =>
      Asked chosen.storageId s ∧ chosen.deadlineAt < now ∧ now ≤ s.clock
  | .publishes chosen _ _, s | .marks chosen _ _, s => Asked chosen.storageId s
  | .awaits submitted, s | .rereads submitted, s =>
      Asked submitted.storageId s ∧ submitted.phase = .submitted
  | .settles _ next _, s => Asked next.storageId s ∧ next.Elapsed s
  | .decides m stored, s => ∀ claim ∈ stored,
      claim.storageId = m.key ∧ claim.Elapsed s ∧ Asked m.key s
  | .writes m claim, s => claim.storageId = m.key ∧ claim.Elapsed s ∧
      (Asked m.key s ∨ ∃ request, m = .addBondInvoice request)
  | _, _ => True

variable {s t : ClaimBook} {key : String × String} {claim : BondClaim}

theorem Asked.later (h : Asked key s) (hst : Later s t) : Asked key t := by
  obtain ⟨request, hmem, hkey⟩ := h
  exact ⟨request, hst.processed _ hmem, hkey⟩

theorem BondClaim.Elapsed.later (h : claim.Elapsed s) (hst : Later s t) : claim.Elapsed t :=
  fun hp => lt_of_lt_of_le (h hp) hst.clock

theorem ClaimTask.carries.later {p : ClaimTask} (h : p.carries s) (hst : Later s t) :
    p.carries t := by
  cases p with
  | expires chosen now => exact ⟨h.1.later hst, h.2.1, le_trans h.2.2 hst.clock⟩
  | publishes chosen bolt11 now => exact Asked.later h hst
  | marks chosen bolt11 now => exact Asked.later h hst
  | awaits submitted => exact ⟨h.1.later hst, h.2⟩
  | rereads submitted => exact ⟨h.1.later hst, h.2⟩
  | settles submitted next marker => exact ⟨h.1.later hst, h.2.later hst⟩
  | decides m stored =>
      intro claim hclaim
      obtain ⟨hid, helapsed, hasked⟩ := h claim hclaim
      exact ⟨hid, helapsed.later hst, hasked.later hst⟩
  | writes m claim => exact ⟨h.1, h.2.1.later hst, h.2.2.imp_left fun ha => ha.later hst⟩
  | checksShare order bolt11 amountMsat => trivial
  | chooses order bolt11 => trivial
  | locks m => trivial
  | reads m => trivial

theorem hasClaim_of_save {t : ClaimBook} (ht : t.store = s.store.save claim) (h : HasClaim key s) :
    HasClaim key t := by
  obtain ⟨c, hc, hid⟩ := h
  unfold HasClaim
  rw [ht]
  by_cases heq : c.storageId = claim.storageId
  · exact ⟨claim, mem_save.mpr (Or.inr rfl), heq.symm.trans hid⟩
  · exact ⟨c, mem_save.mpr (Or.inl ⟨hc, heq⟩), hid⟩

/-- Every step leads to a later state. -/
theorem ClaimTask.Effect.later {p : ClaimTask} (h : p.Effect s t) : Later s t := by
  refine ⟨le_of_eq h.clock.symm, fun m hm => ?_, fun key hk => ?_⟩
  · rcases h.processed with hsame | ⟨m', -, hcons⟩
    · exact hsame ▸ hm
    · exact hcons ▸ List.mem_cons_of_mem _ hm
  · rcases h.store with hsame | ⟨claim, -, hsave⟩
    · unfold HasClaim
      rwa [hsame]
    · exact hasClaim_of_save hsave hk

/-! ## Every step keeps the record -/

theorem fresh_elapsed {request : PayoutRequest} {deadlineAt now : Int}
    (h : (request.fresh deadlineAt now).phase = .expired) : deadlineAt < now := by
  by_contra hle
  have hp : (request.fresh deadlineAt now).phase = .pending := if_neg hle
  exact absurd (h.symm.trans hp) nofun

/-- A message leaves no claim expired before its deadline. -/
theorem decide_elapsed {m : ClaimMessage} {stored : Option BondClaim} {windowDays : Option Nat}
    {now : Int} (h : m.decide stored windowDays now = some claim) (hp : claim.phase = .expired) :
    claim.deadlineAt < now := by
  have verdict : ∀ phase : BondClaimPhase, phase ≠ .expired →
      stored.bind (·.advance phase now) = some claim → claim.deadlineAt < now := by
    intro phase hne hb
    obtain ⟨c, -, ha⟩ := Option.bind_eq_some_iff.mp hb
    unfold BondClaim.advance at ha
    split at ha
    · cases ha
    · obtain rfl := Option.some.inj ha
      exact absurd hp hne
  cases m with
  | bondInvoiceAccepted node order => exact verdict .acknowledged nofun h
  | bondPayoutCompleted node order => exact verdict .completed nofun h
  | addBondInvoice request =>
      simp only [ClaimMessage.decide, upsertClaim] at h
      split at h
      · obtain rfl := Option.some.inj h
        exact fresh_elapsed hp
      · split at h
        · obtain rfl := Option.some.inj h
          exact fresh_elapsed hp
        · split at h
          · cases h
          · cases h
          · cases h
          · obtain rfl := Option.some.inj h
            cases hp
          · split at h
            · cases h
            · obtain rfl := Option.some.inj h
              cases hp

/-- A task's own step, at the time of the state's clock. -/
theorem ClaimTask.step_carries {w : ClaimOracle} {p q : ClaimTask} {s' : ClaimBook}
    (hs : Recorded s) (hp : p.carries s) (hnow : s.clock = w.now)
    (h : p.step w s = some (s', some q)) : q.carries s' := by
  have hlater : Later s s' := (ClaimTask.step_effect h).later
  cases ClaimTask.step_cases h with
  | chooses order bolt11 claim q hclaim hv hq =>
      have hasked : Asked claim.storageId s := hs.asked claim (claimForOrder_mem hclaim).1
      rcases hq with ⟨hlate, rfl⟩ | rfl
      · exact ⟨hasked, hlate, le_of_eq hnow.symm⟩
      · exact hasked
  | publishes chosen bolt11 now => exact hp
  | marks chosen bolt11 now => exact ⟨Asked.later hp hlater, rfl⟩
  | awaits submitted => exact hp
  | rereads submitted current next marker hcur hv hnext =>
      have hasked : Asked current.storageId s := by
        cases hfor : s.store.claimForOrder submitted.orderId with
        | some found =>
            rw [hfor] at hcur
            obtain rfl : current = found := hcur
            exact hs.asked current (claimForOrder_mem hfor).1
        | none =>
            rw [hfor] at hcur
            obtain rfl : current = submitted := hcur
            exact hp.1
      rcases hnext with ⟨rfl, hlate⟩ | rfl
      · exact ⟨hasked, fun _ => lt_of_lt_of_eq hlate hnow.symm⟩
      · exact ⟨hasked, nofun⟩
  | reads m =>
      intro claim hclaim
      split at hclaim
      · obtain ⟨hmem, hkey⟩ := get_eq_some.mp hclaim
        have hid : claim.storageId = m.key := hkey
        exact ⟨hid, hs.elapsed claim hmem, hid ▸ hs.asked claim hmem⟩
      · cases hclaim
  | decides m stored claim hdec =>
      refine ⟨decide_storageId (fun c hc => (hp c hc).1) hdec,
        fun hexp => lt_of_lt_of_eq (decide_elapsed hdec hexp) hnow.symm, ?_⟩
      cases m with
      | addBondInvoice request => exact Or.inr ⟨request, rfl⟩
      | bondInvoiceAccepted node order =>
          obtain ⟨c, hc, -⟩ := Option.bind_eq_some_iff.mp hdec
          exact Or.inl (hp c hc).2.2
      | bondPayoutCompleted node order =>
          obtain ⟨c, hc, -⟩ := Option.bind_eq_some_iff.mp hdec
          exact Or.inl (hp c hc).2.2
  | checks | locks => trivial

/-- What a step that writes one sound claim, or none, leaves recorded. -/
theorem Recorded.step_of (hs : Recorded s) (hl : Later s t)
    (hstore : t.store = s.store ∨ ∃ claim, t.store = s.store.save claim ∧
      Asked claim.storageId t ∧ claim.Elapsed t)
    (hasked : ∀ key, Asked key t → Asked key s ∨ HasClaim key t) : Recorded t := by
  have hold : ∀ c ∈ s.store.rows, Asked c.storageId t ∧ c.Elapsed t :=
    fun c hc => ⟨(hs.asked c hc).later hl, (hs.elapsed c hc).later hl⟩
  have hrow : ∀ c ∈ t.store.rows, Asked c.storageId t ∧ c.Elapsed t := by
    intro c hc
    rcases hstore with hsame | ⟨claim, hsave, hnew⟩
    · rw [hsame] at hc
      exact hold c hc
    · rw [hsave, mem_save] at hc
      rcases hc with ⟨hc, -⟩ | rfl
      · exact hold c hc
      · exact hnew
  refine ⟨fun c hc => (hrow c hc).1, fun c hc => (hrow c hc).2, fun key hk => ?_⟩
  rcases hasked key hk with h | h
  · exact hl.stored key (hs.stored key h)
  · exact h

/-- What a task writes is sound. -/
theorem ClaimTask.written_sound {p : ClaimTask} {key : String × String} (hp : p.carries s)
    (h : p.submits = some (key, claim)) : Asked claim.storageId s ∧ claim.Elapsed s := by
  cases p with
  | expires chosen now =>
      obtain ⟨-, rfl⟩ := Prod.mk.inj (Option.some.inj h)
      exact ⟨hp.1, fun _ => lt_of_lt_of_le hp.2.1 hp.2.2⟩
  | marks chosen bolt11 now =>
      obtain ⟨-, rfl⟩ := Prod.mk.inj (Option.some.inj h)
      exact ⟨hp, nofun⟩
  | settles submitted next marker =>
      obtain ⟨-, rfl⟩ := Prod.mk.inj (Option.some.inj h)
      exact hp
  | _ => cases h

/-- A request changes nothing only where a claim is stored. -/
theorem stored_of_decide_none {request : PayoutRequest} {stored : Option BondClaim}
    {windowDays : Option Nat} {now : Int}
    (h : (ClaimMessage.addBondInvoice request).decide stored windowDays now = none) :
    ∃ c, stored = some c := by
  cases stored with
  | none => cases h
  | some c => exact ⟨c, rfl⟩

/-- One step keeps the record. -/
theorem Recorded.step {w : ClaimOracle} {p : ClaimTask} {s' : ClaimBook} {q : Option ClaimTask}
    (hs : Recorded s) (hp : p.carries s)
    (hstores : ∀ m claim, p = .writes m claim → w.failure = none)
    (h : p.step w s = some (s', q)) : Recorded s' := by
  have heff := ClaimTask.step_effect h
  have hlater := heff.later
  have quiet : s'.processed = s.processed →
      ∀ key, Asked key s' → Asked key s ∨ HasClaim key s' := by
    rintro hsame key ⟨request, hmem, hkey⟩
    exact Or.inl ⟨request, hsame ▸ hmem, hkey⟩
  -- the new message is the only one that may be asking for the first time
  have logged : ∀ {m}, s'.processed = m :: s.processed →
      (∀ request, m = .addBondInvoice request → Asked m.key s ∨ HasClaim m.key s') →
      ∀ key, Asked key s' → Asked key s ∨ HasClaim key s' := by
    rintro m hcons hm key ⟨request, hmem, rfl⟩
    rw [hcons] at hmem
    rcases List.mem_cons.mp hmem with rfl | hmem
    · exact hm request rfl
    · exact Or.inl ⟨request, hmem, rfl⟩
  cases p with
  | writes m claim =>
      have hstep : s' = (s.save claim).release m := by
        simp only [ClaimTask.step, hstores m claim rfl, Option.some.injEq, Prod.mk.injEq] at h
        exact h.1.symm
      obtain ⟨hid, helapsed, hasked⟩ := hp
      have hhas : HasClaim m.key s' := by
        refine ⟨claim, ?_, hid⟩
        rw [hstep]
        exact mem_save.mpr (Or.inr rfl)
      refine hs.step_of hlater (Or.inr ⟨claim, by rw [hstep]; rfl, ?_, helapsed.later hlater⟩)
        (logged (by rw [hstep]; rfl) fun _ _ => Or.inr hhas)
      rw [hid]
      rcases hasked with h | ⟨request, rfl⟩
      · exact h.later hlater
      · refine ⟨request, ?_, rfl⟩
        rw [hstep]
        exact List.mem_cons_self
  | decides m stored =>
      have hstore : s'.store = s.store := by
        rcases heff.store with hsame | ⟨claim, hw, -⟩
        · exact hsame
        · cases hw
      refine hs.step_of hlater (Or.inl hstore) ?_
      simp only [ClaimTask.step] at h
      split at h
      · obtain rfl := congrArg Prod.fst (Option.some.inj h)
        exact quiet rfl
      · next hdec =>
        obtain rfl := congrArg Prod.fst (Option.some.inj h)
        refine logged (m := m) rfl ?_
        rintro request rfl
        obtain ⟨c, rfl⟩ := stored_of_decide_none hdec
        exact Or.inl (hp c rfl).2.2
  | _ =>
      have hsame : s'.processed = s.processed := by
        rcases heff.processed with hsame | ⟨m, hm, -⟩
        · exact hsame
        · cases hm
      refine hs.step_of hlater ?_ (quiet hsame)
      rcases heff.store with hstore | ⟨claim, hw, hstore⟩
      · exact Or.inl hstore
      · rcases ClaimTask.written_cases hw with ⟨m, heq⟩ | ⟨key, hsub⟩
        · cases heq
        · obtain ⟨hasked, helapsed⟩ := ClaimTask.written_sound hp hsub
          exact Or.inr ⟨claim, hstore, hasked.later hlater, helapsed.later hlater⟩

theorem Later.trans {u : ClaimBook} (h₁ : Later s t) (h₂ : Later t u) : Later s u :=
  ⟨le_trans h₁.clock h₂.clock, fun m hm => h₂.processed m (h₁.processed m hm),
    fun key hk => h₂.stored key (h₁.stored key hk)⟩

/-- Time passes. -/
theorem later_tick {now : Int} (h : s.clock ≤ now) : Later s { s with clock := now } :=
  ⟨h, fun _ => id, fun _ => id⟩

theorem replayOutline : Outline claimProg Steady Recorded ClaimTask.carries := by
  have ticked : ∀ (c : Pool ClaimBook ClaimTask) i w, PoolInv Recorded ClaimTask.carries c →
      Steady c (.step i w) → Later c.shared { c.shared with clock := w.now } ∧
        Recorded { c.shared with clock := w.now } := by
    intro c i w hc hC
    have hl := later_tick hC.1
    exact ⟨hl, hc.shared.step_of hl (Or.inl rfl) fun key hk => Or.inl hk⟩
  constructor
  · intro c i p _ _ henter _
    cases p <;> trivial
  · intro c i w p s q hc hC hp hs
    obtain ⟨hl, hrec⟩ := ticked c i w hc hC
    refine hrec.step ((hc.threads i p hp).later hl) ?_ hs
    rintro m claim rfl
    simpa only [hp] using hC.2
  · intro c i w p s p' hc hC hp hs
    obtain ⟨hl, hrec⟩ := ticked c i w hc hC
    exact ClaimTask.step_carries hrec ((hc.threads i p hp).later hl) rfl hs
  · intro c i w p s q j r hc hC hp hs _ hr
    obtain ⟨hl, -⟩ := ticked c i w hc hC
    have heff : p.Effect { c.shared with clock := w.now } s := ClaimTask.step_effect hs
    exact (hc.threads j r hr).later (hl.trans heff.later)
  · intro c a s hc _ hs
    exact Option.some.inj hs ▸ hc.shared
  · intro c a s i p hc _ hs hp
    exact Option.some.inj hs ▸ hc.threads i p hp

/-! ## What one delivery does -/

/-- A delivery for another key does not reach the claim. -/
theorem apply_get_of_ne {st : ClaimStore} {d : Delivery} (h : d.message.key ≠ key) :
    (d.apply st).get key.1 key.2 = st.get key.1 key.2 := by
  unfold Delivery.apply
  split
  · rfl
  · next claim hdec =>
    have hid : claim.storageId = d.message.key :=
      decide_storageId (fun c hc => get_storageId hc) hdec
    exact get_save_of_ne fun heq => h (hid.symm.trans heq)

/-- A delivery that decides on a claim leaves that claim under its key. -/
theorem apply_get_of_decide {st : ClaimStore} {d : Delivery} {claim : BondClaim}
    (hdec : d.message.decide (st.get d.message.key.1 d.message.key.2) d.windowDays d.now =
      some claim) : (d.apply st).get d.message.key.1 d.message.key.2 = some claim := by
  have hid : claim.storageId = d.message.key :=
    decide_storageId (fun c hc => get_storageId hc) hdec
  unfold Delivery.apply
  rw [hdec, ← hid]
  exact get_save_self

/-- A claim at rest ignores every message of its key that was handled. -/
theorem AtRest.decide_none {processed : List ClaimMessage} {m : ClaimMessage}
    {windowDays : Option Nat} {now : Int} (h : AtRest processed claim) (hm : m ∈ processed)
    (hkey : m.key = claim.storageId) (hexp : claim.phase = .expired → claim.deadlineAt < now) :
    m.decide (some claim) windowDays now = none := by
  cases m with
  | addBondInvoice request =>
      have hslash := h.slash request hm hkey
      simp only [ClaimMessage.decide, upsertClaim]
      rw [if_neg (fun hne => hne hslash.symm)]
      cases hphase : claim.phase with
      | acknowledged =>
          rcases h.phase with hc | ⟨hna, -⟩
          · exact absurd (hphase.symm.trans hc) nofun
          · exact absurd hphase hna
      | expired => simp [hexp hphase]
      | _ => rfl
  | bondInvoiceAccepted node order =>
      rcases h.phase with hc | ⟨-, hno⟩
      · simp [ClaimMessage.decide, BondClaim.advance, hc]
      · obtain ⟨request, heq⟩ := hno _ hm hkey
        cases heq
  | bondPayoutCompleted node order =>
      rcases h.phase with hc | ⟨-, hno⟩
      · simp [ClaimMessage.decide, BondClaim.advance, hc]
      · obtain ⟨request, heq⟩ := hno _ hm hkey
        cases heq

/-- A verdict reaches a claim that is neither acknowledged nor completed. -/
theorem advance_some {phase : BondClaimPhase} {now : Int} (hphase : phase.isVerdict = true)
    (h : claim.phase.isVerdict = false) :
    claim.advance phase now = some (claim.withPhase phase now) := by
  unfold BondClaim.advance
  rw [if_neg]
  · rfl
  · cases hc : claim.phase <;> cases phase <;>
      simp_all [BondClaimPhase.isVerdict, BondClaimPhase.rank]

/-! ## Every history -/

/-- Replays of handled messages find nothing to change in a claim at rest, and no claim where
there is none. -/
theorem replay_get (hs : Recorded s)
    (hrest : ∀ claim, s.store.get key.1 key.2 = some claim → AtRest s.processed claim)
    {ds : List Delivery} (hds : ∀ d ∈ ds, d.message ∈ s.processed ∧ s.clock ≤ d.now)
    {st : ClaimStore} (hst : st.get key.1 key.2 = s.store.get key.1 key.2) :
    (replay ds st).get key.1 key.2 = s.store.get key.1 key.2 := by
  induction ds generalizing st with
  | nil => exact hst
  | cons d ds ih =>
      refine ih (fun e he => hds e (List.mem_cons_of_mem d he)) ?_
      obtain ⟨hhandled, hlater⟩ := hds d List.mem_cons_self
      by_cases hkey : d.message.key = key
      · have hnone : d.message.decide (st.get key.1 key.2) d.windowDays d.now = none := by
          rw [hst]
          cases hget : s.store.get key.1 key.2 with
          | some claim =>
              obtain ⟨hmem, hid⟩ := get_eq_some.mp hget
              exact (hrest claim hget).decide_none hhandled (hkey.trans hid.symm)
                fun hexp => lt_of_lt_of_le (hs.elapsed claim hmem hexp) hlater
          | none =>
              cases hm : d.message with
              | addBondInvoice request =>
                  -- a request that was handled has left a claim
                  have hasked : Asked key s := ⟨request, hm ▸ hhandled, by rw [← hkey, hm]; rfl⟩
                  obtain ⟨claim, hmem, hid⟩ := hs.stored key hasked
                  exact absurd hid (get_eq_none.mp hget claim hmem)
              | bondInvoiceAccepted node order => rfl
              | bondPayoutCompleted node order => rfl
        have happly : d.apply st = st := by
          unfold Delivery.apply
          rw [hkey, hnone]
        rw [happly]
        exact hst
      · rw [apply_get_of_ne hkey]
        exact hst

/-- One message delivered again right away. -/
theorem ReplayProof.once (h : ReplayProof key s) {m : ClaimMessage} (hm : m ∈ s.processed)
    (hkey : m.key = key) {claim next : BondClaim} (hget : s.store.get key.1 key.2 = some claim)
    (hdec : m.decide (some claim) none s.clock = some next) : next.terms = claim.terms := by
  have hrep : Repeats s [⟨m, s.clock, none⟩] := by
    refine ⟨fun d hd => ?_, fun d hd => ?_, List.pairwise_singleton _ _⟩
    · exact List.mem_singleton.mp hd ▸ hm
    · exact List.mem_singleton.mp hd ▸ le_refl s.clock
  have hafter : (replay [⟨m, s.clock, none⟩] s.store).get key.1 key.2 = some next := by
    have hd : m.decide (s.store.get m.key.1 m.key.2) none s.clock = some next := by
      rw [hkey, hget]
      exact hdec
    have := apply_get_of_decide (d := ⟨m, s.clock, none⟩) hd
    rwa [hkey] at this
  have heq := h _ hrep
  rw [hafter, hget] at heq
  exact Option.some.inj heq

/-- A claim that no replay moves is at rest. -/
theorem ReplayProof.atRest (hs : Recorded s) (h : ReplayProof key s) {claim : BondClaim}
    (hget : s.store.get key.1 key.2 = some claim) : AtRest s.processed claim := by
  obtain ⟨hmem, hid⟩ := get_eq_some.mp hget
  have hid : claim.storageId = key := hid
  have hslash : ∀ request, .addBondInvoice request ∈ s.processed →
      (request.nodePubkey, request.orderId) = claim.storageId →
      request.slashedAt = claim.slashedAt := by
    intro request hreq hkey
    by_contra hne
    have hdec : (ClaimMessage.addBondInvoice request).decide (some claim) none s.clock =
        some (request.fresh (claimDeadline request.slashedAt none) s.clock) := by
      simp only [ClaimMessage.decide, upsertClaim]
      rw [if_pos (Ne.symm hne)]
    have hterms := h.once hreq (hkey.trans hid) hget hdec
    exact hne (congrArg ClaimTerms.slashedAt hterms)
  refine ⟨hslash, ?_⟩
  by_cases hc : claim.phase = .completed
  · exact Or.inl hc
  have hna : claim.phase ≠ .acknowledged := by
    intro hack
    obtain ⟨request, hreq, hkey⟩ := hs.asked claim hmem
    have hdec : ∃ next, (ClaimMessage.addBondInvoice request).decide (some claim) none s.clock =
        some next ∧ next.phase = .pending := by
      simp only [ClaimMessage.decide, upsertClaim]
      rw [if_neg (fun hne => hne (hslash request hreq hkey).symm), hack]
      exact ⟨_, rfl, rfl⟩
    obtain ⟨next, hnext, hphase⟩ := hdec
    have hterms := h.once hreq (hkey.trans hid) hget hnext
    have : next.phase = claim.phase := congrArg ClaimTerms.phase hterms
    exact absurd (hphase.symm.trans (this.trans hack)) nofun
  have hv : claim.phase.isVerdict = false := by
    cases hp : claim.phase <;> simp_all [BondClaimPhase.isVerdict]
  -- a verdict that was handled would move the claim
  have hmoved : ∀ m ∈ s.processed, m.key = claim.storageId → ∀ phase : BondClaimPhase,
      phase.isVerdict = true →
      m.decide (some claim) none s.clock = claim.advance phase s.clock → False := by
    intro m hm hkey phase hphase hdec
    rw [advance_some hphase hv] at hdec
    have hterms := h.once hm (hkey.trans hid) hget hdec
    have heq : phase = claim.phase := congrArg ClaimTerms.phase hterms
    rw [heq, hv] at hphase
    cases hphase
  refine Or.inr ⟨hna, fun m hm hkey => ?_⟩
  cases m with
  | addBondInvoice request => exact ⟨request, rfl⟩
  | bondInvoiceAccepted node order => exact (hmoved _ hm hkey .acknowledged rfl rfl).elim
  | bondPayoutCompleted node order => exact (hmoved _ hm hkey .completed rfl rfl).elim

/-- **Replays change nothing exactly where the claim is at rest.** After any history of messages
and submissions, from no claim at all, every replay of messages already handled leaves a claim's
phase, invoice, slash and deadline as they are if and only if every request handled for it was
of its own slash, and it is completed, or not acknowledged with no verdict of its daemon among
the messages handled. -/
theorem replay_changes_nothing_iff {now : Int} {c : Pool ClaimBook ClaimTask}
    {ls : List (Label ClaimTask ClaimOracle Unit)}
    (hC : Along claimProg.next Steady (Pool.idle { clock := now }) ls)
    (hr : run claimProg.next (Pool.idle { clock := now }) ls = some c) (key : String × String) :
    ReplayProof key c.shared ↔
      ∀ claim, c.shared.store.get key.1 key.2 = some claim → AtRest c.shared.processed claim := by
  have hstart : Recorded { clock := now } := by
    refine ⟨?_, ?_, ?_⟩
    · intro claim h
      cases h
    · intro claim h
      cases h
    · rintro key ⟨request, hreq, -⟩
      cases hreq
  have hs : Recorded c.shared := (replayOutline.run_inv (poolInv_idle hstart) hC hr).shared
  constructor
  · exact fun h claim hget => h.atRest hs hget
  · intro hrest ds hds
    rw [replay_get hs hrest (fun d hd => ⟨hds.handled d hd, hds.later d hd⟩) rfl]

/-! ## A handler's steps are one delivery -/

/-- The pool after a step of the thread at `p`. -/
theorem next_of_step {c : Pool ClaimBook ClaimTask} {i : Nat} {p : ClaimTask} {w : ClaimOracle}
    {t : ClaimBook} {q : Option ClaimTask} (hi : c.threads i = some p)
    (h : p.step w { c.shared with clock := w.now } = some (t, q)) :
    claimProg.next c (.step i w) = some ⟨t, Function.update c.threads i q⟩ :=
  Prog.next_step.mpr ⟨p, t, q, hi, h, rfl⟩

/-- Left alone at `p` over the store `st`, thread `i` ends and leaves the store `st'`. -/
def Finishes (w : ClaimOracle) (i : Nat) (p : ClaimTask) (st st' : ClaimStore) : Prop :=
  ∀ c : Pool ClaimBook ClaimTask, c.threads i = some p → c.shared.store = st →
    ∃ n c', run claimProg.next c (List.replicate n (.step i w)) = some c' ∧
      c'.threads i = none ∧ c'.shared.store = st'

section Handler

variable {w : ClaimOracle} {i : Nat} {m : ClaimMessage} {st : ClaimStore}

/-- A step that goes on. -/
theorem Finishes.step {p q : ClaimTask} {st' : ClaimStore} (h : Finishes w i q st st')
    (hstep : ∀ s : ClaimBook, s.store = st → ∃ t, p.step w s = some (t, some q) ∧ t.store = st) :
    Finishes w i p st st' := by
  intro c hi hc
  obtain ⟨t, ht, hst⟩ := hstep { c.shared with clock := w.now } hc
  obtain ⟨n, c', hrun, hend, hstore⟩ := h ⟨t, Function.update c.threads i (some q)⟩
    (Function.update_self ..) hst
  refine ⟨n + 1, c', ?_, hend, hstore⟩
  rw [List.replicate_succ, run_cons, next_of_step hi ht]
  exact hrun

/-- A step that is the last. -/
theorem finishes_last {p : ClaimTask} {st' : ClaimStore}
    (hstep : ∀ s : ClaimBook, s.store = st → ∃ t, p.step w s = some (t, none) ∧ t.store = st') :
    Finishes w i p st st' := by
  intro c hi hc
  obtain ⟨t, ht, hst⟩ := hstep { c.shared with clock := w.now } hc
  refine ⟨1, ⟨t, Function.update c.threads i none⟩, ?_, Function.update_self .., hst⟩
  show (claimProg.next c (.step i w)).bind _ = _
  rw [next_of_step hi ht]
  rfl

theorem finishes_decides (hw : w.failure = none) (stored : Option BondClaim) :
    Finishes w i (.decides m stored) st
      (match m.decide stored w.windowDays w.now with
        | none => st
        | some claim => st.save claim) := by
  cases hdec : m.decide stored w.windowDays w.now with
  | none =>
      refine finishes_last fun s hs => ⟨s.release m, ?_, hs⟩
      simp only [ClaimTask.step, hdec]
  | some claim =>
      refine Finishes.step (q := .writes m claim) (finishes_last fun s hs => ?_) fun s hs => ?_
      · refine ⟨(s.save claim).release m, ?_, by rw [← hs]; rfl⟩
        simp only [ClaimTask.step, hw]
      · refine ⟨s, ?_, hs⟩
        simp only [ClaimTask.step, hdec]

theorem finishes_reads (hw : w.failure = none) :
    Finishes w i (.reads m) st (Delivery.apply st ⟨m, w.now, w.windowDays⟩) := by
  refine (finishes_decides hw (st.get m.key.1 m.key.2)).step fun s hs => ⟨s, ?_, hs⟩
  simp only [ClaimTask.step, if_pos hw, hs]

/-- **What a handler does between taking the lock and dropping it**, with nothing in between, is
what the delivery of its message does. -/
theorem handler_applies {c : Pool ClaimBook ClaimTask} (hi : c.threads i = some (.locks m))
    (hfree : m.key.2 ∉ c.shared.held) (hw : w.failure = none) :
    ∃ n c', run claimProg.next c (List.replicate n (.step i w)) = some c' ∧
      c'.threads i = none ∧
      c'.shared.store = Delivery.apply c.shared.store ⟨m, w.now, w.windowDays⟩ := by
  have hlock : (ClaimTask.locks m).step w { c.shared with clock := w.now } =
      some ({ c.shared with held := m.key.2 :: c.shared.held, clock := w.now },
        some (.reads m)) := by
    simp only [ClaimTask.step, if_neg hfree]
  obtain ⟨n, c', hrun, hend, hstore⟩ := finishes_reads (i := i) (m := m) hw
    ⟨{ c.shared with held := m.key.2 :: c.shared.held, clock := w.now },
      Function.update c.threads i (some (.reads m))⟩ (Function.update_self ..) rfl
  refine ⟨n + 1, c', ?_, hend, hstore⟩
  rw [List.replicate_succ, run_cons, next_of_step hi hlock]
  exact hrun

end Handler

/-! ## A claim at rest, and replays that move a claim -/

/-- A request of `alice` for a share slashed at `slashedAt`. -/
def requestAt (slashedAt : Int) : ClaimMessage :=
  .addBondInvoice { orderId := "order", nodePubkey := "alice", amountSats := 100,
                    slashedAt := slashedAt }

/-- Thread `i` handles a message at `now`, in `n` steps. -/
def handledBy (i n : Nat) (m : ClaimMessage) (now : Int) :
    List (Label ClaimTask ClaimOracle Unit) :=
  .spawn i (.locks m) :: stepsAt i n now

/-- A share is asked for, the invoice is sent, and the node accepts it and pays. -/
def paidHistory : List (Label ClaimTask ClaimOracle Unit) :=
  handledBy 0 4 (requestAt 0) 10 ++
    .spawn 1 (.checksShare "order" "lnbc1" none) :: stepsAt 1 4 11 ++
    handledBy 0 4 (.bondInvoiceAccepted "alice" "order") 12 ++
    [.step 1 (calmAt 12 (some .acknowledged))] ++
    handledBy 0 4 (.bondPayoutCompleted "alice" "order") 13

theorem paid_claim_replays :
    ∃ c, run claimProg.next (Pool.idle { clock := 0 }) paidHistory = some c ∧
      ReplayProof ("alice", "order") c.shared := by
  have hC : Along claimProg.next Steady (Pool.idle { clock := 0 }) paidHistory := by decide
  have hend : (run claimProg.next (Pool.idle { clock := 0 }) paidHistory).map
      (fun c => (c.shared.store.get "alice" "order", c.shared.processed)) =
      some (some ((((claimFrom "alice" 10).submitted "lnbc1" 11).withPhase .completed 13)),
        [.bondPayoutCompleted "alice" "order", .bondInvoiceAccepted "alice" "order",
          requestAt 0]) := by decide
  obtain ⟨c, hr, heq⟩ := Option.map_eq_some_iff.mp hend
  obtain ⟨hget, hproc⟩ := Prod.mk.inj heq
  refine ⟨c, hr, (replay_changes_nothing_iff hC hr ("alice", "order")).mpr fun claim hclaim => ?_⟩
  obtain rfl := Option.some.inj (hget.symm.trans hclaim)
  refine ⟨fun request hreq _ => ?_, Or.inl rfl⟩
  rw [hproc] at hreq
  simp only [List.mem_cons, List.not_mem_nil, or_false, reduceCtorEq, false_or, requestAt,
    ClaimMessage.addBondInvoice.injEq] at hreq
  rw [hreq]
  rfl

/-- The same without the payout. -/
def acknowledgedHistory : List (Label ClaimTask ClaimOracle Unit) := paidHistory.take 17

/-- A share is asked for again after a later slash, and paid. -/
def twiceSlashed : List (Label ClaimTask ClaimOracle Unit) :=
  handledBy 0 4 (requestAt 0) 10 ++ handledBy 0 4 (requestAt 5) 11 ++
    handledBy 0 4 (.bondPayoutCompleted "alice" "order") 12

/-- The claim's terms after a history, and after `m` was delivered once more, if it had been
handled. -/
def afterReplay (ls : List (Label ClaimTask ClaimOracle Unit)) (m : ClaimMessage) :
    Option (Option ClaimTerms × Option ClaimTerms) := do
  let c ← run claimProg.next (Pool.idle { clock := 0 }) ls
  if m ∈ c.shared.processed ∧ c.shared.clock ≤ 20 then
    some ((c.shared.store.get "alice" "order").map BondClaim.terms,
      ((replay [⟨m, 20, none⟩] c.shared.store).get "alice" "order").map BondClaim.terms)
  else none

/-- **A replayed request re-arms a claim its daemon has acknowledged**, and the request of an
earlier slash replaces the paid claim of a later one. -/
theorem replayed_request_moves_claim :
    afterReplay acknowledgedHistory (requestAt 0) =
        some (some ⟨.acknowledged, some "lnbc1", 0, 1296000⟩, some ⟨.pending, none, 0, 1296000⟩) ∧
      afterReplay twiceSlashed (requestAt 0) =
        some (some ⟨.completed, none, 5, 1296005⟩, some ⟨.pending, none, 0, 1296000⟩) := by
  decide

end MostroApp.BondClaims
