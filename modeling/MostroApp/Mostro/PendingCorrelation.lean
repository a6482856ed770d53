import MostroApp.Mostro.Pending
import Mathlib.Data.List.Nodup

set_option autoImplicit false

/-! # Replies consume only what they echo

The seven operations an inbound reply is tried through, under one type (`Reply`), and what
each can do to the entry of its key, said once (`Outcome`). From it: a record that is not a
restore is consumed only by its own nonce and by an operation that admits its kind, and over
any run of the registry every waiter is handed to at most one reply.
-/

namespace MostroApp.Pending

/-! ## Inbound-reply operations -/

/-- An inbound reply, as the operation it is tried through. -/
inductive Reply where
  | request (got : Option Nat)
  | take (got : Option Nat)
  | addInvoice (got : Option Nat)
  | claimSubmit (got : Option Nat)
  | dispute (got : Option Nat)
  | createBond (got : Option Nat)
  | restore (replyTs : Int)
  deriving DecidableEq, Repr

/-- The nonce the reply echoes; a restore reply carries none. -/
def Reply.got : Reply → Option Nat
  | .request got | .take got | .addInvoice got | .claimSubmit got | .dispute got
  | .createBond got => got
  | .restore _ => none

/-- The kinds of record an operation consumes. -/
def Reply.admits : Reply → PendingRequestKind → Bool
  | .request _, _ => true
  | .take _, .take => true
  | .addInvoice _, .addInvoice => true
  | .claimSubmit _, .bondClaimSubmit => true
  | .dispute _, .dispute _ => true
  | .createBond _, .create _ _ => true
  | .restore _, .restore _ => true
  | _, _ => false

def PendingRequestKind.isRestore : PendingRequestKind → Bool
  | .restore _ => true
  | _ => false

/-- The waiter a dispute match hands over. -/
def DisputeMatch.waiter : DisputeMatch → Option Waiter
  | .waiting tx => some tx
  | .late => none

/-- The registry after the reply, and the waiter handed to it. -/
def Reply.apply (o : Reply) (key : String) (r : Registry) : Registry × Option Waiter :=
  match o with
  | .request got =>
      let m := takeMatchingRequest key got r
      (m.1, m.2.bind PendingRequest.tx)
  | .take got =>
      let m := takeMatchingTake key got r
      (m.1, m.2.bind PendingRequest.tx)
  | .addInvoice got =>
      let m := takeMatchingAddInvoice key got r
      (m.1, m.2.bind PendingRequest.tx)
  | .claimSubmit got =>
      let m := takeMatchingClaimSubmit key got r
      (m.1, m.2.bind PendingRequest.tx)
  | .dispute got =>
      let m := takeMatchingDispute key got r
      (m.1, m.2.bind DisputeMatch.waiter)
  | .createBond got =>
      let m := claimCreateBond key got r
      (m.1, m.2.bind CreateBondClaim.tx)
  | .restore replyTs =>
      let m := takeMatchingRestore key replyTs r
      (m.1, m.2.bind PendingRequest.tx)

/-- **What a reply can do to the entry of its key**, with the waiter it is handed. -/
inductive Outcome (o : Reply) :
    Option PendingRequest → Option PendingRequest × Option Waiter → Prop where
  | untouched (e : Option PendingRequest) : Outcome o e (e, none)
  | consumed (p : PendingRequest) (echo : o.got = some p.requestId)
      (kind : o.admits p.kind = true) : Outcome o (some p) (none, p.tx)
  | restored (p : PendingRequest) (replyTs sentAt : Int) (op : o = .restore replyTs)
      (kind : p.kind = .restore sentAt) (age : replyTs + restoreReplySkewSecs ≥ sentAt) :
      Outcome o (some p) (none, p.tx)
  | claimed (p : PendingRequest) (localUuid : String) (bondRequested : Bool)
      (op : o = .createBond (some p.requestId)) (kind : p.kind = .create localUuid bondRequested) :
      Outcome o (some p) (some { p with kind := .create localUuid true, tx := none }, p.tx)
  | answered (p : PendingRequest) (superseded : List Nat) (n : Nat) (op : o = .dispute (some n))
      (kind : p.kind = .dispute superseded) (mem : n ∈ superseded) :
      Outcome o (some p) (some { p with kind := .dispute (superseded.erase n) }, none)

theorem takeMatchingKind_outcome {o : Reply} {kind : PendingRequestKind} {key : String}
    {got : Option Nat} (r : Registry) (ho : o.got = got) (hk : o.admits kind = true) :
    Outcome o (r key) ((takeMatchingKind kind key got r).1 key,
      (takeMatchingKind kind key got r).2.bind PendingRequest.tx) := by
  simp only [takeMatchingKind, alter_self, alter_snd]
  rcases r key with _ | p
  · exact .untouched none
  · by_cases h : requestIdMatches p.requestId got = true ∧ p.kind = kind
    · simp only [if_pos h, Option.bind_some]
      exact .consumed p (ho.trans (requestIdMatches_iff.mp h.1)) (h.2 ▸ hk)
    · simp only [if_neg h]
      exact .untouched (some p)

theorem takeMatchingRequest_outcome (key : String) (got : Option Nat) (r : Registry) :
    Outcome (.request got) (r key) ((takeMatchingRequest key got r).1 key,
      (takeMatchingRequest key got r).2.bind PendingRequest.tx) := by
  simp only [takeMatchingRequest, alter_self, alter_snd]
  rcases r key with _ | p
  · exact .untouched none
  · by_cases h : requestIdMatches p.requestId got = true
    · simp only [if_pos h, Option.bind_some]
      exact .consumed p (requestIdMatches_iff.mp h) rfl
    · simp only [if_neg h]
      exact .untouched (some p)

theorem takeMatchingRestore_outcome (key : String) (replyTs : Int) (r : Registry) :
    Outcome (.restore replyTs) (r key) ((takeMatchingRestore key replyTs r).1 key,
      (takeMatchingRestore key replyTs r).2.bind PendingRequest.tx) := by
  simp only [takeMatchingRestore, alter_self, alter_snd]
  rcases r key with _ | ⟨requestId, tradeIndex, kind, tx⟩
  · exact .untouched none
  · cases kind with
    | restore sentAt =>
        by_cases h : replyTs + restoreReplySkewSecs ≥ sentAt
        · simp only [if_pos h, Option.bind_some]
          exact .restored ⟨requestId, tradeIndex, .restore sentAt, tx⟩ replyTs sentAt rfl rfl h
        · simp only [if_neg h]
          exact .untouched _
    | _ => exact .untouched _

theorem claimCreateBond_outcome (key : String) (got : Option Nat) (r : Registry) :
    Outcome (.createBond got) (r key) ((claimCreateBond key got r).1 key,
      (claimCreateBond key got r).2.bind CreateBondClaim.tx) := by
  simp only [claimCreateBond, alter_self, alter_snd]
  rcases r key with _ | ⟨requestId, tradeIndex, kind, tx⟩
  · exact .untouched none
  · by_cases h : requestIdMatches requestId got = true
    · simp only [if_pos h]
      have hg := requestIdMatches_iff.mp h
      cases kind with
      | create localUuid b =>
          exact .claimed ⟨requestId, tradeIndex, .create localUuid b, tx⟩ localUuid b
            (congrArg Reply.createBond hg) rfl
      | _ => exact .untouched _
    · simp only [if_neg h]
      exact .untouched _

theorem takeMatchingDispute_outcome (key : String) (got : Option Nat) (r : Registry) :
    Outcome (.dispute got) (r key) ((takeMatchingDispute key got r).1 key,
      (takeMatchingDispute key got r).2.bind DisputeMatch.waiter) := by
  simp only [takeMatchingDispute, alter_self, alter_snd]
  rcases r key with _ | ⟨requestId, tradeIndex, kind, tx⟩
  · exact .untouched none
  · cases kind with
    | dispute superseded =>
        cases hf : got.filter fun id => superseded.contains id with
        | some answered =>
            obtain ⟨hg, hmem⟩ := Option.filter_eq_some_iff.mp hf
            simp only [hf]
            exact .answered ⟨requestId, tradeIndex, .dispute superseded, tx⟩ superseded answered
              (congrArg Reply.dispute hg) rfl (by simpa using hmem)
        | none =>
            by_cases h : requestIdMatches requestId got = true
            · simp only [hf, if_pos h]
              have := Outcome.consumed (o := .dispute got)
                ⟨requestId, tradeIndex, .dispute superseded, tx⟩ (requestIdMatches_iff.mp h) rfl
              cases tx <;> exact this
            · simp only [hf, if_neg h]
              exact .untouched _
    | _ => exact .untouched _

/-- Every inbound-reply operation has one of the outcomes. -/
theorem reply_outcome (o : Reply) (key : String) (r : Registry) :
    Outcome o (r key) ((o.apply key r).1 key, (o.apply key r).2) := by
  cases o with
  | request got => exact takeMatchingRequest_outcome key got r
  | take got => exact takeMatchingKind_outcome r rfl rfl
  | addInvoice got => exact takeMatchingKind_outcome r rfl rfl
  | claimSubmit got => exact takeMatchingKind_outcome r rfl rfl
  | dispute got => exact takeMatchingDispute_outcome key got r
  | createBond got => exact claimCreateBond_outcome key got r
  | restore replyTs => exact takeMatchingRestore_outcome key replyTs r

/-- A reply on one key leaves the records of all others. -/
theorem reply_of_ne (o : Reply) {key k : String} (hk : k ≠ key) (r : Registry) :
    (o.apply key r).1 k = r k := by
  cases o <;>
    simp only [Reply.apply, takeMatchingRequest, takeMatchingTake, takeMatchingAddInvoice,
      takeMatchingClaimSubmit, takeMatchingKind, takeMatchingDispute, claimCreateBond,
      takeMatchingRestore] <;>
    exact alter_of_ne _ _ _ hk

/-! ## Runs of the registry

The registering and cleaning operations next to the replies, each registration with a fresh
channel. `handed` logs the waiters that were handed to a reply, newest first. -/

/-- The kinds of record a plain insert registers. -/
inductive Opening where
  | create (localUuid : String)
  | take
  | bondClaimSubmit
  | restore (sentAt : Int)
  deriving DecidableEq, Repr

def Opening.kind : Opening → PendingRequestKind
  | .create localUuid => .create localUuid false
  | .take => .take
  | .bondClaimSubmit => .bondClaimSubmit
  | .restore sentAt => .restore sentAt

/-- An operation of the registry. -/
inductive Op where
  | open (key : String) (requestId tradeIndex : Nat) (o : Opening)
  | openAddInvoice (key : String) (requestId tradeIndex : Nat) (closed : Bool)
  | openDispute (key : String) (requestId tradeIndex : Nat)
  | detach (key : String) (requestId : Nat)
  | remove (key : String) (requestId : Nat)
  | rollBack (key : String) (requestId : Nat)
  | purge (key : String)
  | reply (key : String) (o : Reply)

structure RegistryState where
  map : Registry
  /-- The next fresh channel. -/
  next : Waiter
  handed : List Waiter

def RegistryState.empty : RegistryState := ⟨fun _ => none, 0, []⟩

def RegistryState.apply (s : RegistryState) : Op → RegistryState
  | .open key requestId tradeIndex o =>
      { s with map := register key ⟨requestId, tradeIndex, o.kind, some s.next⟩ s.map
               next := s.next + 1 }
  | .openAddInvoice key requestId tradeIndex closed =>
      { s with map := (registerAddInvoiceRequest key requestId tradeIndex s.next closed s.map).1
               next := s.next + 1 }
  | .openDispute key requestId tradeIndex =>
      { s with map := registerDisputeRequest key requestId tradeIndex s.next s.map
               next := s.next + 1 }
  | .detach key requestId => { s with map := detachRequestWaiter key requestId s.map }
  | .remove key requestId => { s with map := removePendingRequest key requestId s.map }
  | .rollBack key requestId => { s with map := rollBackDisputeRequest key requestId s.map }
  | .purge key => { s with map := purgeDetachedPendingRequest key s.map }
  | .reply key o =>
      { s with map := (o.apply key s.map).1
               handed := (o.apply key s.map).2.toList ++ s.handed }

/-- The registry after a run. -/
def runOps (ops : List Op) : RegistryState := ops.foldl RegistryState.apply .empty

/-- The waiter stored under a key. -/
def waiterAt (r : Registry) (key : String) : Option Waiter := (r key).bind PendingRequest.tx

/-- What any operation can do to the waiters: the entries of other keys stay, a stored
waiter is an old one of the same key or the fresh one, and a handed waiter leaves the map. -/
inductive WaiterStep (s t : RegistryState) : Prop where
  | kept (key : String) (frame : ∀ k, k ≠ key → waiterAt t.map k = waiterAt s.map k)
      (handed : t.handed = s.handed) (next : s.next ≤ t.next)
      (at_key : ∀ w, waiterAt t.map key = some w →
        waiterAt s.map key = some w ∨ (w = s.next ∧ s.next < t.next))
  | gave (key : String) (w : Waiter) (frame : ∀ k, k ≠ key → waiterAt t.map k = waiterAt s.map k)
      (stored : waiterAt s.map key = some w) (handed : t.handed = w :: s.handed)
      (next : t.next = s.next) (at_key : waiterAt t.map key = none)

theorem waiterAt_alter_of_ne {β : Type} (r : Registry) {key k : String}
    (f : Option PendingRequest → Option PendingRequest × β) (hk : k ≠ key) :
    waiterAt (r.alter key f).1 k = waiterAt r k := by
  rw [waiterAt, waiterAt, alter_of_ne r key f hk]

/-- An edit of one entry that hands nothing over, and stores no waiter but the entry's own
or the fresh one. -/
theorem waiterStep_alter {β : Type} (s : RegistryState) (key : String)
    (f : Option PendingRequest → Option PendingRequest × β) (next : Waiter)
    (hn : s.next ≤ next)
    (hf : ∀ e w, (f e).1.bind PendingRequest.tx = some w →
      e.bind PendingRequest.tx = some w ∨ (w = s.next ∧ s.next < next)) :
    WaiterStep s { s with map := (s.map.alter key f).1, next := next } := by
  refine .kept key (fun k hk => waiterAt_alter_of_ne s.map f hk) rfl hn fun w hw =>
    hf (s.map key) w ?_
  simpa [waiterAt] using hw

theorem waiterStep_reply (s : RegistryState) (key : String) (o : Reply) :
    WaiterStep s (s.apply (.reply key o)) := by
  have frame : ∀ k, k ≠ key →
      waiterAt (s.apply (.reply key o)).map k = waiterAt s.map k := fun k hk => by
    simp [RegistryState.apply, waiterAt, reply_of_ne o hk]
  have hout := reply_outcome o key s.map
  have hmap : waiterAt (s.apply (.reply key o)).map key =
      ((o.apply key s.map).1 key).bind PendingRequest.tx := rfl
  have hhanded : (s.apply (.reply key o)).handed = (o.apply key s.map).2.toList ++ s.handed := rfl
  have hold : waiterAt s.map key = (s.map key).bind PendingRequest.tx := rfl
  generalize (o.apply key s.map).1 key = e' at hout hmap
  generalize (o.apply key s.map).2 = w' at hout hhanded
  generalize s.map key = e at hout hold
  -- A record that is consumed or claimed hands over whatever waiter it stored.
  have given : ∀ p : PendingRequest, w' = p.tx → e = some p →
      e'.bind PendingRequest.tx = none → WaiterStep s (s.apply (.reply key o)) := by
    rintro p rfl rfl hnone
    rcases hp : p.tx with _ | w
    · refine .kept key frame (by simpa [hp] using hhanded) (Nat.le_refl _) fun w hw => ?_
      rw [hmap, hnone] at hw
      exact absurd hw (by simp)
    · exact .gave key w frame (by simpa [hp] using hold) (by simpa [hp] using hhanded) rfl
        (hmap.trans hnone)
  cases hout with
  | untouched =>
      exact .kept key frame hhanded (Nat.le_refl _) fun w hw => Or.inl (hold ▸ hmap ▸ hw)
  | consumed p => exact given p rfl rfl rfl
  | restored p => exact given p rfl rfl rfl
  | claimed p => exact given p rfl rfl rfl
  | answered p =>
      exact .kept key frame hhanded (Nat.le_refl _) fun w hw => Or.inl (hold ▸ hmap ▸ hw)

/-- Every operation is a `WaiterStep`. -/
theorem waiterStep_apply (s : RegistryState) (op : Op) : WaiterStep s (s.apply op) := by
  cases op with
  | «open» key requestId tradeIndex o =>
      refine .kept key (fun k hk => ?_) rfl (Nat.le_succ _)
        fun w hw => Or.inr ⟨?_, Nat.lt_succ_self _⟩
      · simp [RegistryState.apply, register, waiterAt, Function.update_of_ne hk]
      · simpa [RegistryState.apply, register, waiterAt, eq_comm] using hw
  | openAddInvoice key requestId tradeIndex closed =>
      refine waiterStep_alter s key _ (s.next + 1) (Nat.le_succ _) ?_
      rintro (_ | p) w hw
      · exact Or.inr ⟨(Option.some.inj hw).symm, Nat.lt_succ_self _⟩
      · by_cases h : p.kind = .addInvoice ∧ p.tx.isSome = true ∧ closed = false
        · simp only [if_pos h] at hw
          exact Or.inl hw
        · simp only [if_neg h] at hw
          exact Or.inr ⟨(Option.some.inj hw).symm, Nat.lt_succ_self _⟩
  | openDispute key requestId tradeIndex =>
      refine waiterStep_alter s key _ (s.next + 1) (Nat.le_succ _) fun e w hw => ?_
      exact Or.inr ⟨(Option.some.inj hw).symm, Nat.lt_succ_self _⟩
  | detach key requestId | remove key requestId =>
      refine waiterStep_alter s key _ s.next (Nat.le_refl _) ?_
      rintro (_ | p) w hw
      · exact absurd hw (by simp)
      · by_cases h : p.requestId = requestId
        · exact absurd hw (by simp [h])
        · simp only [if_neg h] at hw
          exact Or.inl hw
  | rollBack key requestId =>
      refine waiterStep_alter s key _ s.next (Nat.le_refl _) ?_
      rintro (_ | p) w hw
      · exact absurd hw (by simp [rollBackEntry])
      · by_cases h : p.requestId = requestId
        · cases hk : p.kind with
          | dispute superseded =>
              cases hl : superseded.getLast? <;>
                exact absurd hw (by simp [rollBackEntry, h, hk, hl])
          | _ => exact absurd hw (by simp [rollBackEntry, h, hk])
        · simp only [rollBackEntry, if_pos (show p.requestId ≠ requestId from h)] at hw
          exact Or.inl hw
  | purge key =>
      refine waiterStep_alter s key _ s.next (Nat.le_refl _) ?_
      rintro (_ | p) w hw
      · exact absurd hw (by simp)
      · by_cases h : p.tx = none
        · exact absurd hw (by simp [h])
        · simp only [if_neg h] at hw
          exact Or.inl hw
  | reply key o => exact waiterStep_reply s key o

/-- **The waiter invariant.** Stored waiters are old, handed to nobody yet, and stored under
one key each; handed ones are old and handed once. -/
structure WaiterInv (s : RegistryState) : Prop where
  stored_lt : ∀ k w, waiterAt s.map k = some w → w < s.next
  stored_fresh : ∀ k w, waiterAt s.map k = some w → w ∉ s.handed
  stored_inj : ∀ k k' w, waiterAt s.map k = some w → waiterAt s.map k' = some w → k = k'
  handed_lt : ∀ w ∈ s.handed, w < s.next
  handed_nodup : s.handed.Nodup

theorem waiterInv_empty : WaiterInv .empty :=
  ⟨fun _ _ h => absurd h (by simp [waiterAt, RegistryState.empty]),
    fun _ _ h => absurd h (by simp [waiterAt, RegistryState.empty]),
    fun _ _ _ h => absurd h (by simp [waiterAt, RegistryState.empty]),
    fun _ h => absurd h (by simp [RegistryState.empty]), List.nodup_nil⟩

theorem waiterInv_kept {s t : RegistryState} (hs : WaiterInv s) (key : String)
    (frame : ∀ k, k ≠ key → waiterAt t.map k = waiterAt s.map k)
    (handed : t.handed = s.handed) (next : s.next ≤ t.next)
    (at_key : ∀ w, waiterAt t.map key = some w →
      waiterAt s.map key = some w ∨ (w = s.next ∧ s.next < t.next)) : WaiterInv t := by
  -- A waiter stored after the step is the key's old one, another key's, or the fresh one.
  have old_or_fresh : ∀ k w, waiterAt t.map k = some w →
      waiterAt s.map k = some w ∨ (k = key ∧ w = s.next ∧ s.next < t.next) := by
    intro k w hw
    by_cases hk : k = key
    · subst hk
      exact (at_key w hw).imp id fun h => ⟨rfl, h⟩
    · exact Or.inl (frame k hk ▸ hw)
  have not_fresh : ∀ k, waiterAt s.map k ≠ some s.next := fun k h =>
    Nat.lt_irrefl _ (hs.stored_lt k _ h)
  refine ⟨?_, ?_, ?_, ?_, handed ▸ hs.handed_nodup⟩
  · intro k w hw
    rcases old_or_fresh k w hw with h | ⟨-, rfl, hlt⟩
    · exact Nat.lt_of_lt_of_le (hs.stored_lt k w h) next
    · exact hlt
  · intro k w hw
    rw [handed]
    rcases old_or_fresh k w hw with h | ⟨-, rfl, -⟩
    · exact hs.stored_fresh k w h
    · exact fun hmem => Nat.lt_irrefl _ (hs.handed_lt _ hmem)
  · intro k k' w hw hw'
    rcases old_or_fresh k w hw with h | ⟨hk, hw1, -⟩ <;>
      rcases old_or_fresh k' w hw' with h' | ⟨hk', hw2, -⟩
    · exact hs.stored_inj k k' w h h'
    · exact absurd (hw2 ▸ h) (not_fresh k)
    · exact absurd (hw1 ▸ h') (not_fresh k')
    · exact hk.trans hk'.symm
  · intro w hw
    exact Nat.lt_of_lt_of_le (hs.handed_lt w (handed ▸ hw)) next

theorem waiterInv_gave {s t : RegistryState} (hs : WaiterInv s) (key : String) (w : Waiter)
    (frame : ∀ k, k ≠ key → waiterAt t.map k = waiterAt s.map k)
    (stored : waiterAt s.map key = some w) (handed : t.handed = w :: s.handed)
    (next : t.next = s.next) (at_key : waiterAt t.map key = none) : WaiterInv t := by
  have of_after : ∀ k v, waiterAt t.map k = some v → k ≠ key ∧ waiterAt s.map k = some v := by
    intro k v hv
    have hk : k ≠ key := by
      rintro rfl
      rw [at_key] at hv
      cases hv
    exact ⟨hk, frame k hk ▸ hv⟩
  refine ⟨?_, ?_, ?_, ?_, ?_⟩
  · intro k v hv
    exact next ▸ hs.stored_lt k v (of_after k v hv).2
  · intro k v hv
    obtain ⟨hk, hv'⟩ := of_after k v hv
    rw [handed, List.mem_cons, not_or]
    exact ⟨fun e => hk (hs.stored_inj k key v hv' (e ▸ stored)), hs.stored_fresh k v hv'⟩
  · intro k k' v hv hv'
    exact hs.stored_inj k k' v (of_after k v hv).2 (of_after k' v hv').2
  · intro v hv
    rw [handed, List.mem_cons] at hv
    rcases hv with rfl | hv
    · exact next ▸ hs.stored_lt key v stored
    · exact next ▸ hs.handed_lt v hv
  · rw [handed, List.nodup_cons]
    exact ⟨hs.stored_fresh key w stored, hs.handed_nodup⟩

theorem waiterInv_apply {s : RegistryState} (hs : WaiterInv s) (op : Op) :
    WaiterInv (s.apply op) := by
  cases waiterStep_apply s op with
  | kept key frame handed next at_key => exact waiterInv_kept hs key frame handed next at_key
  | gave key w frame stored handed next at_key =>
      exact waiterInv_gave hs key w frame stored handed next at_key

/-- Every run of the registry keeps the waiter invariant. -/
theorem waiterInv_runOps (ops : List Op) : WaiterInv (runOps ops) :=
  List.foldlRecOn ops _ waiterInv_empty fun _ hs op _ => waiterInv_apply hs op

/-! ## The guarantee -/

/-- What a reply may make of a record that is not a restore: nothing; its end or its claim,
on the record's own nonce and through an operation that admits its kind; or the loss of the
superseded nonce it answers. -/
def Correlated (o : Reply) (p : PendingRequest) (after : Option PendingRequest) : Prop :=
  after = some p ∨
  (o.got = some p.requestId ∧ o.admits p.kind = true ∧
    (after = none ∨ ∃ localUuid,
      after = some { p with kind := .create localUuid true, tx := none })) ∨
  (∃ superseded n, o = .dispute (some n) ∧ p.kind = .dispute superseded ∧ n ∈ superseded ∧
    after = some { p with kind := .dispute (superseded.erase n) })

theorem correlated_reply (o : Reply) (key : String) (r : Registry) (p : PendingRequest)
    (hp : r key = some p) (hk : p.kind.isRestore = false) :
    Correlated o p ((o.apply key r).1 key) := by
  have hout := reply_outcome o key r
  rw [hp] at hout
  generalize (o.apply key r).1 key = e' at hout ⊢
  generalize (o.apply key r).2 = w' at hout
  cases hout with
  | untouched => exact Or.inl rfl
  | consumed _ echo kind => exact Or.inr (Or.inl ⟨echo, kind, Or.inl rfl⟩)
  | restored _ replyTs sentAt op kind age =>
      rw [kind] at hk
      cases hk
  | claimed _ localUuid bondRequested op kind =>
      refine Or.inr (Or.inl ⟨by rw [op]; rfl, by rw [op, kind]; rfl, Or.inr ⟨localUuid, rfl⟩⟩)
  | answered _ superseded n op kind mem =>
      exact Or.inr (Or.inr ⟨superseded, n, op, kind, mem, rfl⟩)

/-- A restore that `takeMatchingRestore` removes is not older than the reply by more than
the skew. -/
theorem restore_removed_age (key : String) (replyTs sentAt : Int) (r : Registry)
    (p : PendingRequest) (hp : r key = some p) (hk : p.kind = .restore sentAt)
    (hgone : (takeMatchingRestore key replyTs r).1 key ≠ some p) :
    replyTs + restoreReplySkewSecs ≥ sentAt := by
  have hout := takeMatchingRestore_outcome key replyTs r
  rw [hp] at hout
  generalize (takeMatchingRestore key replyTs r).1 key = e' at hout hgone
  generalize (takeMatchingRestore key replyTs r).2.bind PendingRequest.tx = w' at hout
  cases hout with
  | untouched => exact absurd rfl hgone
  | consumed _ echo kind => cases echo
  | restored _ ts sent op kind age =>
      cases op
      rw [hk] at kind
      cases kind
      exact age
  | claimed _ localUuid bondRequested op kind => cases op
  | answered _ superseded n op kind mem => cases op

/-- A reply without a nonce leaves every record that is not a restore as it was. -/
theorem reply_none_untouched (o : Reply) (key : String) (r : Registry) (p : PendingRequest)
    (hp : r key = some p) (hk : p.kind.isRestore = false) (hgot : o.got = none) :
    (o.apply key r).1 key = some p := by
  rcases correlated_reply o key r p hp hk with h | ⟨echo, -, -⟩ | ⟨superseded, n, op, -, -, -⟩
  · exact h
  · rw [hgot] at echo
    cases echo
  · rw [op] at hgot
    cases hgot

/-- **Replies consume only what they echo.** In the registry any run leaves, a reply tried
on a key leaves every other key's record; a record that is not a restore is changed only as
`Correlated` says, and not at all by a reply without a nonce; a restore is removed by
`takeMatchingRestore` only within the skew; and over the run no waiter was handed out twice. -/
theorem replies_consume_only_what_they_echo (ops : List Op) :
    (∀ (o : Reply) (key : String),
      (∀ k, k ≠ key → (o.apply key (runOps ops).map).1 k = (runOps ops).map k) ∧
      (∀ p, (runOps ops).map key = some p → p.kind.isRestore = false →
        Correlated o p ((o.apply key (runOps ops).map).1 key) ∧
        (o.got = none → (o.apply key (runOps ops).map).1 key = some p)) ∧
      (∀ p sentAt replyTs, (runOps ops).map key = some p → p.kind = .restore sentAt →
        (takeMatchingRestore key replyTs (runOps ops).map).1 key ≠ some p →
        replyTs + restoreReplySkewSecs ≥ sentAt)) ∧
    (runOps ops).handed.Nodup := by
  refine ⟨fun o key => ⟨fun k hk => reply_of_ne o hk _, ?_, ?_⟩,
    (waiterInv_runOps ops).handed_nodup⟩
  · intro p hp hk
    exact ⟨correlated_reply o key _ p hp hk, reply_none_untouched o key _ p hp hk⟩
  · intro p sentAt replyTs hp hk hgone
    exact restore_removed_age key replyTs sentAt _ p hp hk hgone

end MostroApp.Pending
