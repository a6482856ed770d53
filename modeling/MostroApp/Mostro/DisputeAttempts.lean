import MostroApp.Lib.Transition
import MostroApp.Mostro.Pending
import Mathlib.Data.List.Nodup
import Mathlib.Data.List.Basic

set_option autoImplicit false

/-! # Open-dispute attempts on one trade key

An open-dispute that times out leaves its record; a retry takes the key over and inherits
the nonces of the attempts it replaces, so that each of them can still be answered. The file
follows the attempts on one key through every order of registrations, timeouts, failed
publishes, acceptances and rejections. The nonces a record answers to are its
`inheritedNonces`, the live one last.

An answer to the live attempt removes the whole record, the inherited nonces with it. The
attempts stay answerable exactly as long as no such answer arrives while another attempt is
outstanding (`attempts_stay_answerable_iff`).
-/

namespace MostroApp.Pending

open Transition

/-! ## The attempts of one key -/

/-- An operation on the dispute record of the key. `accept` is a `DisputeInitiatedByYou`,
`cantDo` a rejection, each with the nonce it carries. -/
inductive DisputeOp where
  | register (nonce tradeIndex : Nat)
  | detach (nonce : Nat)
  | rollBack (nonce : Nat)
  | accept (got : Option Nat)
  | cantDo (got : Option Nat)
  deriving DecidableEq, Repr

/-- The registry, the nonces registered so far, and the attempts still outstanding: registered,
not rolled back, not answered. -/
structure AttemptState where
  map : Registry
  next : Waiter
  used : List Nat
  outstanding : List Nat

def AttemptState.empty : AttemptState := ⟨fun _ => none, 0, [], []⟩

/-- The outstanding attempts once a reply carrying `got` has arrived. -/
def settle (outstanding : List Nat) : Option Nat → List Nat
  | none => outstanding
  | some n => outstanding.filter (· != n)

/-- One operation on `key`. Nonces are fresh: a used one cannot be registered again. -/
def attemptStep (key : String) (s : AttemptState) : DisputeOp → Option AttemptState
  | .register nonce tradeIndex =>
      if nonce ∈ s.used then none
      else some
        { map := registerDisputeRequest key nonce tradeIndex s.next s.map
          next := s.next + 1
          used := nonce :: s.used
          outstanding := nonce :: s.outstanding }
  | .detach nonce => some { s with map := detachRequestWaiter key nonce s.map }
  | .rollBack nonce =>
      some { s with map := rollBackDisputeRequest key nonce s.map
                    outstanding := settle s.outstanding (some nonce) }
  | .accept got =>
      some { s with map := (takeMatchingDispute key got s.map).1
                    outstanding := settle s.outstanding got }
  | .cantDo got =>
      some { s with map := (takeMatchingRequest key got s.map).1
                    outstanding := settle s.outstanding got }

/-! ## What the operations make of the nonces -/

/-- An entry that holds a dispute, or nothing. -/
def IsDispute (e : Option PendingRequest) : Prop :=
  ∀ p, e = some p → ∃ superseded, p.kind = .dispute superseded

/-- The nonces the record of a key answers to, the live one last. -/
def nonces (key : String) (r : Registry) : List Nat := inheritedNonces (r key)

section Entry

variable (requestId tradeIndex : Nat) (superseded : List Nat) (tx : Option Waiter)

@[simp] theorem inheritedNonces_dispute :
    inheritedNonces (some ⟨requestId, tradeIndex, .dispute superseded, tx⟩) =
      superseded ++ [requestId] := rfl

end Entry

/-- A key that holds disputes only: no record, or a dispute's. -/
theorem IsDispute.cases {e : Option PendingRequest} (h : IsDispute e) :
    e = none ∨ ∃ requestId tradeIndex superseded tx,
      e = some ⟨requestId, tradeIndex, .dispute superseded, tx⟩ := by
  rcases e with _ | ⟨requestId, tradeIndex, kind, tx⟩
  · exact Or.inl rfl
  · obtain ⟨superseded, hk⟩ := h _ rfl
    cases hk
    exact Or.inr ⟨requestId, tradeIndex, superseded, tx, rfl⟩

theorem isDispute_none : IsDispute none := fun _ h => by cases h

theorem isDispute_some (requestId tradeIndex : Nat) (superseded : List Nat)
    (tx : Option Waiter) :
    IsDispute (some ⟨requestId, tradeIndex, .dispute superseded, tx⟩) := by
  rintro _ ⟨⟩
  exact ⟨superseded, rfl⟩

theorem nonces_of_none {key : String} {r : Registry} (h : r key = none) :
    nonces key r = [] ∧ IsDispute (r key) := by
  rw [nonces, h]
  exact ⟨rfl, isDispute_none⟩

theorem nonces_congr {key : String} {r r' : Registry} (h : r key = r' key) :
    nonces key r = nonces key r' := by
  rw [nonces, nonces, h]

theorem nonces_register (key : String) (nonce tradeIndex : Nat) (tx : Waiter) (r : Registry) :
    nonces key (registerDisputeRequest key nonce tradeIndex tx r) = nonces key r ++ [nonce] := by
  simp [nonces, registerDisputeRequest]

theorem isDispute_register (key : String) (nonce tradeIndex : Nat) (tx : Waiter) (r : Registry) :
    IsDispute (registerDisputeRequest key nonce tradeIndex tx r key) := by
  simpa [registerDisputeRequest] using isDispute_some nonce tradeIndex _ (some tx)

theorem nonces_detach (key : String) (nonce : Nat) {r : Registry} (h : IsDispute (r key)) :
    nonces key (detachRequestWaiter key nonce r) = nonces key r ∧
      IsDispute (detachRequestWaiter key nonce r key) := by
  simp only [nonces, detachRequestWaiter, alter_self]
  generalize r key = e at h ⊢
  rcases h.cases with rfl | ⟨requestId, tradeIndex, superseded, tx, rfl⟩
  · exact ⟨rfl, isDispute_none⟩
  · by_cases hid : requestId = nonce
    · simp only [if_pos hid]
      exact ⟨rfl, isDispute_some _ _ _ _⟩
    · simp only [if_neg hid]
      exact ⟨trivial, isDispute_some _ _ _ _⟩

/-- Rolling back the live attempt drops its nonce; the attempt before it becomes the live
one again. -/
theorem rollBackEntry_live (requestId tradeIndex : Nat) (superseded : List Nat)
    (tx : Option Waiter) :
    let e' := rollBackEntry requestId (some ⟨requestId, tradeIndex, .dispute superseded, tx⟩)
    inheritedNonces e' = superseded ∧ IsDispute e' := by
  rcases List.eq_nil_or_concat superseded with rfl | ⟨init, last, rfl⟩
  · simp [rollBackEntry, inheritedNonces, isDispute_none]
  · simpa [rollBackEntry] using isDispute_some last tradeIndex init none

/-- A rollback of the live attempt drops its nonce and nothing else; one of any other
attempt changes nothing. -/
theorem nonces_rollBack (key : String) (nonce : Nat) {r : Registry} (h : IsDispute (r key)) :
    (nonces key (rollBackDisputeRequest key nonce r) = nonces key r ∨
      nonces key r = nonces key (rollBackDisputeRequest key nonce r) ++ [nonce]) ∧
      IsDispute (rollBackDisputeRequest key nonce r key) := by
  simp only [nonces, rollBackDisputeRequest, alter_self]
  generalize r key = e at h ⊢
  rcases h.cases with rfl | ⟨requestId, tradeIndex, superseded, tx, rfl⟩
  · exact ⟨Or.inl rfl, isDispute_none⟩
  · by_cases hid : requestId = nonce
    · subst hid
      obtain ⟨hn, hd⟩ := rollBackEntry_live requestId tradeIndex superseded tx
      exact ⟨Or.inr (by rw [hn]; rfl), hd⟩
    · simp only [rollBackEntry, if_pos (show requestId ≠ nonce from hid)]
      exact ⟨Or.inl trivial, isDispute_some _ _ _ _⟩

/-- The live attempt's nonce: the one the record carries as its own. -/
def liveNonce (key : String) (r : Registry) : Option Nat := (r key).map PendingRequest.requestId

/-- An answer to the live attempt removes its record. -/
theorem cantDo_live (key : String) {n : Nat} {r : Registry} (hl : liveNonce key r = some n) :
    (takeMatchingRequest key (some n) r).1 key = none := by
  simp only [liveNonce, takeMatchingRequest, alter_self] at hl ⊢
  generalize r key = e at hl ⊢
  obtain ⟨p, rfl, rfl⟩ := Option.map_eq_some_iff.mp hl
  simp [requestIdMatches]

/-- A rejection of any other attempt leaves the record. -/
theorem cantDo_other (key : String) {got : Option Nat} {r : Registry}
    (hl : ∀ n, got = some n → liveNonce key r ≠ some n) :
    (takeMatchingRequest key got r).1 key = r key := by
  simp only [liveNonce, takeMatchingRequest, alter_self] at hl ⊢
  generalize r key = e at hl ⊢
  rcases e with _ | p
  · rfl
  · have hne : requestIdMatches p.requestId got ≠ true := fun h =>
      hl p.requestId (requestIdMatches_iff.mp h) rfl
    simp only [if_neg hne]

/-- An acceptance of the live attempt removes its record. -/
theorem accept_live (key : String) {n : Nat} {r : Registry} (h : IsDispute (r key))
    (hnd : (nonces key r).Nodup) (hl : liveNonce key r = some n) :
    (takeMatchingDispute key (some n) r).1 key = none := by
  simp only [liveNonce, nonces, takeMatchingDispute, alter_self] at h hnd hl ⊢
  generalize r key = e at h hnd hl ⊢
  rcases h.cases with rfl | ⟨requestId, tradeIndex, superseded, tx, rfl⟩
  · cases hl
  · have hid : requestId = n := by simpa using hl
    subst hid
    have hmem : requestId ∉ superseded := by
      rw [inheritedNonces_dispute, List.nodup_append] at hnd
      exact fun hm => hnd.2.2 requestId hm requestId (by simp) rfl
    simp [Option.filter, hmem, requestIdMatches]

/-- An acceptance of any other attempt drops the nonce it echoes and nothing else. -/
theorem accept_other (key : String) {got : Option Nat} {r : Registry} (h : IsDispute (r key))
    (hnd : (nonces key r).Nodup) (hl : ∀ n, got = some n → liveNonce key r ≠ some n) :
    nonces key (takeMatchingDispute key got r).1 = settle (nonces key r) got ∧
      IsDispute ((takeMatchingDispute key got r).1 key) := by
  simp only [liveNonce, nonces, takeMatchingDispute, alter_self] at h hnd hl ⊢
  generalize r key = e at h hnd hl ⊢
  rcases h.cases with rfl | ⟨requestId, tradeIndex, superseded, tx, rfl⟩
  · refine ⟨?_, isDispute_none⟩
    cases got <;> rfl
  · rcases got with _ | n
    · simpa [settle, Option.filter] using isDispute_some requestId tradeIndex superseded tx
    · have hid : requestId ≠ n := fun e => hl n rfl (by simp [e])
      have hsettle : settle (superseded ++ [requestId]) (some n) =
          superseded.erase n ++ [requestId] := by
        rw [(List.nodup_append.mp hnd).1.erase_eq_filter, settle, List.filter_append]
        simp [hid]
      by_cases hmem : n ∈ superseded
      · simpa [Option.filter, hmem, hsettle] using
          isDispute_some requestId tradeIndex (superseded.erase n) tx
      · have hkept : superseded.erase n = superseded := List.erase_of_not_mem hmem
        simpa [Option.filter, hmem, hsettle, hkept, requestIdMatches, Ne.symm hid] using
          isDispute_some requestId tradeIndex superseded tx

theorem accept_of_none {key : String} {got : Option Nat} {r : Registry} (h : r key = none) :
    (takeMatchingDispute key got r).2 = none := by
  rw [takeMatchingDispute, alter_snd, h]

/-- An acceptance is answered exactly on the nonces the record answers to. -/
theorem accept_isSome_iff (key : String) (n : Nat) {r : Registry} (h : IsDispute (r key)) :
    (takeMatchingDispute key (some n) r).2.isSome = true ↔ n ∈ nonces key r := by
  simp only [nonces, takeMatchingDispute, alter_snd]
  generalize r key = e at h ⊢
  rcases h.cases with rfl | ⟨requestId, tradeIndex, superseded, tx, rfl⟩
  · simp [inheritedNonces]
  · by_cases hmem : n ∈ superseded
    · simp [Option.filter, hmem]
    · by_cases hid : requestId = n
      · subst hid
        simp [Option.filter, hmem, requestIdMatches]
      · simp [Option.filter, hmem, requestIdMatches, Ne.symm hid]

/-! ## Answerable attempts -/

/-- A `DisputeInitiatedByYou` echoing `n` is answered, and only once. -/
def Answerable (key : String) (r : Registry) (n : Nat) : Prop :=
  (takeMatchingDispute key (some n) r).2.isSome = true ∧
    (takeMatchingDispute key (some n) (takeMatchingDispute key (some n) r).1).2 = none

/-- Every outstanding attempt is answerable. -/
def AllAnswerable (key : String) (s : AttemptState) : Prop :=
  ∀ n ∈ s.outstanding, Answerable key s.map n

/-- The nonce of the reply an operation brings, if it brings one. -/
def DisputeOp.reply : DisputeOp → Option Nat
  | .accept got | .cantDo got => got
  | _ => none

/-- An answer to the live attempt arrives only while no other attempt is outstanding. -/
def LiveReplyAlone (key : String) (s : AttemptState) (op : DisputeOp) : Prop :=
  ∀ n, op.reply = some n → liveNonce key s.map = some n → ∀ m ∈ s.outstanding, m = n

/-- What holds whatever the replies: the key holds a dispute or nothing, and the nonces of
the record are distinct used ones. -/
structure AttemptInv (key : String) (s : AttemptState) : Prop where
  dispute : IsDispute (s.map key)
  nodup : (nonces key s.map).Nodup
  used : ∀ n ∈ nonces key s.map, n ∈ s.used

theorem attemptInv_empty (key : String) : AttemptInv key .empty :=
  ⟨isDispute_none, List.nodup_nil, fun _ h => by cases h⟩

/-- **What one operation does to the nonces and to the outstanding attempts.** -/
inductive AttemptStep (key : String) (s t : AttemptState) (op : DisputeOp) : Prop where
  | registered (n : Nat) (noReply : op.reply = none) (fresh : n ∉ s.used)
      (nonces : nonces key t.map = nonces key s.map ++ [n]) (used : t.used = n :: s.used)
      (outstanding : t.outstanding = n :: s.outstanding)
  | detached (noReply : op.reply = none) (nonces : nonces key t.map = nonces key s.map)
      (used : t.used = s.used) (outstanding : t.outstanding = s.outstanding)
  | rolledBack (n : Nat) (noReply : op.reply = none)
      (nonces : nonces key t.map = nonces key s.map ∨
        nonces key s.map = nonces key t.map ++ [n])
      (used : t.used = s.used) (outstanding : t.outstanding = settle s.outstanding (some n))
  | answeredLive (n : Nat) (reply : op.reply = some n) (live : liveNonce key s.map = some n)
      (nonces : nonces key t.map = []) (used : t.used = s.used)
      (outstanding : t.outstanding = settle s.outstanding (some n))
  | answeredOther (other : ∀ n, op.reply = some n → liveNonce key s.map ≠ some n)
      (nonces : nonces key t.map = nonces key s.map ∨
        nonces key t.map = settle (nonces key s.map) op.reply)
      (used : t.used = s.used) (outstanding : t.outstanding = settle s.outstanding op.reply)

theorem attemptStep_spec {key : String} {s t : AttemptState} {op : DisputeOp}
    (hs : AttemptInv key s) (ht : attemptStep key s op = some t) :
    AttemptStep key s t op ∧ IsDispute (t.map key) := by
  cases op with
  | register n tradeIndex =>
      by_cases hn : n ∈ s.used
      · simp [attemptStep, hn] at ht
      · simp only [attemptStep, if_neg hn, Option.some.injEq] at ht
        subst ht
        exact ⟨.registered n rfl hn (nonces_register key n tradeIndex s.next s.map) rfl rfl,
          isDispute_register key n tradeIndex s.next s.map⟩
  | detach n =>
      simp only [attemptStep, Option.some.injEq] at ht
      subst ht
      obtain ⟨hn, hd⟩ := nonces_detach key n hs.dispute
      exact ⟨.detached rfl hn rfl rfl, hd⟩
  | rollBack n =>
      simp only [attemptStep, Option.some.injEq] at ht
      subst ht
      obtain ⟨hn, hd⟩ := nonces_rollBack key n hs.dispute
      exact ⟨.rolledBack n rfl hn rfl rfl, hd⟩
  | accept got =>
      simp only [attemptStep, Option.some.injEq] at ht
      subst ht
      by_cases hl : ∃ n, got = some n ∧ liveNonce key s.map = some n
      · obtain ⟨n, rfl, hl⟩ := hl
        obtain ⟨hn, hd⟩ := nonces_of_none (accept_live key hs.dispute hs.nodup hl)
        exact ⟨.answeredLive n rfl hl hn rfl rfl, hd⟩
      · have hother : ∀ n, got = some n → liveNonce key s.map ≠ some n :=
          fun n hg hln => hl ⟨n, hg, hln⟩
        obtain ⟨hn, hd⟩ := accept_other key hs.dispute hs.nodup hother
        exact ⟨.answeredOther hother (Or.inr hn) rfl rfl, hd⟩
  | cantDo got =>
      simp only [attemptStep, Option.some.injEq] at ht
      subst ht
      by_cases hl : ∃ n, got = some n ∧ liveNonce key s.map = some n
      · obtain ⟨n, rfl, hl⟩ := hl
        obtain ⟨hn, hd⟩ := nonces_of_none (cantDo_live key hl)
        exact ⟨.answeredLive n rfl hl hn rfl rfl, hd⟩
      · have hother : ∀ n, got = some n → liveNonce key s.map ≠ some n :=
          fun n hg hln => hl ⟨n, hg, hln⟩
        have hkept := cantDo_other key hother
        have hd : IsDispute ((takeMatchingRequest key got s.map).1 key) := hkept ▸ hs.dispute
        exact ⟨.answeredOther hother (Or.inl (nonces_congr hkept)) rfl rfl, hd⟩

theorem mem_settle {l : List Nat} {got : Option Nat} {n : Nat} :
    n ∈ settle l got ↔ n ∈ l ∧ got ≠ some n := by
  cases got with
  | none => simp [settle]
  | some m =>
      rw [settle, List.mem_filter, bne_iff_ne, ne_eq, ne_eq, Option.some.injEq, eq_comm (a := m)]

/-- Every operation keeps the invariant. -/
theorem attemptInv_step {key : String} {s t : AttemptState} {op : DisputeOp}
    (hs : AttemptInv key s) (ht : attemptStep key s op = some t) : AttemptInv key t := by
  obtain ⟨hstep, hd⟩ := attemptStep_spec hs ht
  cases hstep with
  | registered n _ fresh hn hu _ =>
      refine ⟨hd, ?_, ?_⟩
      · rw [hn, List.nodup_append]
        refine ⟨hs.nodup, List.nodup_singleton n, fun a ha b hb => ?_⟩
        rw [List.mem_singleton] at hb
        exact fun hab => fresh (hb ▸ hab ▸ hs.used a ha)
      · intro m hm
        rw [hn, List.mem_append, List.mem_singleton] at hm
        rw [hu, List.mem_cons]
        exact hm.symm.imp id (hs.used m)
  | detached _ hn hu _ =>
      exact ⟨hd, hn ▸ hs.nodup, fun m hm => hu ▸ hs.used m (hn ▸ hm)⟩
  | rolledBack n _ hn hu _ =>
      have hsub : List.Sublist (nonces key t.map) (nonces key s.map) := by
        rcases hn with hn | hn
        · exact hn ▸ List.Sublist.refl _
        · exact hn ▸ List.sublist_append_left _ _
      exact ⟨hd, hs.nodup.sublist hsub, fun m hm => hu ▸ hs.used m (hsub.subset hm)⟩
  | answeredLive n _ _ hn hu _ =>
      exact ⟨hd, hn ▸ List.nodup_nil, fun m hm => by rw [hn] at hm; cases hm⟩
  | answeredOther _ hn hu _ =>
      have hsub : List.Sublist (nonces key t.map) (nonces key s.map) := by
        rcases hn with hn | hn
        · exact hn ▸ List.Sublist.refl _
        · rw [hn]
          cases op.reply with
          | none => exact List.Sublist.refl _
          | some n => exact List.filter_sublist
      exact ⟨hd, hs.nodup.sublist hsub, fun m hm => hu ▸ hs.used m (hsub.subset hm)⟩

/-- Under the invariant an attempt is answerable exactly when the record still answers to
its nonce. -/
theorem answerable_iff {key : String} {s : AttemptState} (hs : AttemptInv key s) (n : Nat) :
    Answerable key s.map n ↔ n ∈ nonces key s.map := by
  rw [Answerable, accept_isSome_iff key n hs.dispute, and_iff_left_iff_imp]
  intro hn
  by_cases hl : liveNonce key s.map = some n
  · exact accept_of_none (accept_live key hs.dispute hs.nodup hl)
  · have hother : ∀ m, some n = some m → liveNonce key s.map ≠ some m := by
      rintro m ⟨⟩
      exact hl
    obtain ⟨hn', hd'⟩ := accept_other key hs.dispute hs.nodup hother
    have hnot : n ∉ nonces key (takeMatchingDispute key (some n) s.map).1 := by
      rw [hn', mem_settle]
      exact fun h => h.2 rfl
    rw [← accept_isSome_iff key n hd'] at hnot
    exact Option.not_isSome_iff_eq_none.mp hnot

/-! ## When the attempts stay answerable -/

/-- The invariant of a run all of whose states answer their outstanding attempts. -/
structure Tracked (key : String) (s : AttemptState) : Prop where
  inv : AttemptInv key s
  tracked : ∀ n ∈ s.outstanding, n ∈ nonces key s.map

theorem tracked_iff {key : String} {s : AttemptState} (hs : AttemptInv key s) :
    (∀ n ∈ s.outstanding, n ∈ nonces key s.map) ↔ AllAnswerable key s :=
  forall₂_congr fun n _ => (answerable_iff hs n).symm

/-- An answer to the live attempt leaves no nonce behind. -/
theorem liveReplyAlone_of_answerable {key : String} {s : AttemptState} {op : DisputeOp}
    (hs : AttemptInv key s)
    (hafter : ∀ t, attemptStep key s op = some t → AllAnswerable key t) :
    LiveReplyAlone key s op := by
  intro n hreply hlive m hm
  by_contra hne
  obtain ⟨t, ht⟩ : ∃ t, attemptStep key s op = some t := by
    cases op with
    | accept got => exact ⟨_, rfl⟩
    | cantDo got => exact ⟨_, rfl⟩
    | _ => cases hreply
  have hanswered := (tracked_iff (attemptInv_step hs ht)).mpr (hafter t ht)
  cases (attemptStep_spec hs ht).1 with
  | answeredLive k reply _ hn _ ho =>
      have hk : k = n := by
        rw [reply] at hreply
        exact Option.some.inj hreply
      have hmem := hanswered m (by
        rw [ho, mem_settle, hk]
        exact ⟨hm, fun e => hne (by cases e; rfl)⟩)
      rw [hn] at hmem
      cases hmem
  | answeredOther other => exact other n hreply hlive
  | registered _ noReply => rw [noReply] at hreply; cases hreply
  | detached noReply => rw [noReply] at hreply; cases hreply
  | rolledBack _ noReply => rw [noReply] at hreply; cases hreply

/-- As long as the live attempt is answered alone, no outstanding nonce is lost. -/
theorem tracked_step {key : String} {s t : AttemptState} {op : DisputeOp}
    (hs : Tracked key s) (hop : LiveReplyAlone key s op) (ht : attemptStep key s op = some t) :
    Tracked key t := by
  refine ⟨attemptInv_step hs.inv ht, ?_⟩
  cases (attemptStep_spec hs.inv ht).1 with
  | registered n _ _ hn _ ho =>
      intro m hm
      rw [ho, List.mem_cons] at hm
      rw [hn, List.mem_append, List.mem_singleton]
      exact hm.symm.imp (hs.tracked m) id
  | detached _ hn _ ho =>
      intro m hm
      exact hn ▸ hs.tracked m (ho ▸ hm)
  | rolledBack n _ hn _ ho =>
      intro m hm
      rw [ho, mem_settle] at hm
      have hmem := hs.tracked m hm.1
      rcases hn with hn | hn
      · exact hn ▸ hmem
      · rw [hn, List.mem_append, List.mem_singleton] at hmem
        exact hmem.resolve_right fun e => hm.2 (by rw [e])
  | answeredLive n reply live hn _ ho =>
      intro m hm
      rw [ho, mem_settle] at hm
      exact absurd (by rw [hop n reply live m hm.1]) hm.2
  | answeredOther _ hn _ ho =>
      intro m hm
      rw [ho, mem_settle] at hm
      rcases hn with hn | hn
      · exact hn ▸ hs.tracked m hm.1
      · rw [hn, mem_settle]
        exact ⟨hs.tracked m hm.1, hm.2⟩

/-- **When every dispute attempt stays answerable.** Over every sequence of operations on a
key, each state answers every outstanding attempt, exactly once, if and only if no reply to
the live attempt ever arrives while another attempt is outstanding. -/
theorem attempts_stay_answerable_iff (key : String) (ops : List DisputeOp) :
    Along (attemptStep key) (fun s op => ∀ t, attemptStep key s op = some t → AllAnswerable key t)
        AttemptState.empty ops ↔
      Along (attemptStep key) (LiveReplyAlone key) AttemptState.empty ops := by
  have keep : ∀ s op t, Tracked key s → (∀ t, attemptStep key s op = some t → AllAnswerable key t) →
      attemptStep key s op = some t → Tracked key t := by
    intro s op t hs hafter ht
    exact ⟨attemptInv_step hs.inv ht,
      (tracked_iff (attemptInv_step hs.inv ht)).mpr (hafter t ht)⟩
  refine along_iff keep (fun s op hs => ?_) ⟨attemptInv_empty key, fun _ h => by cases h⟩
  refine ⟨liveReplyAlone_of_answerable hs.inv, fun hop t ht => ?_⟩
  exact (tracked_iff (attemptInv_step hs.inv ht)).mp (tracked_step hs hop ht).tracked

/-- Two attempts time out in turn and the second is accepted first: its record goes, and the
first, still outstanding, is answered by nothing. -/
theorem superseded_attempt_lost :
    ∃ s, run (attemptStep "key") AttemptState.empty
        [.register 1 4, .detach 1, .register 2 4, .accept (some 2)] = some s ∧
      1 ∈ s.outstanding ∧ (takeMatchingDispute "key" (some 1) s.map).2 = none := by
  refine ⟨_, rfl, ?_, ?_⟩ <;> decide

end MostroApp.Pending
