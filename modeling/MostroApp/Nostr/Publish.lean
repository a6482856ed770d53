import MostroApp.Lib.Transition
import Mathlib.Logic.Function.Basic

set_option autoImplicit false

/-! # Publishing on the first acceptance (`nostr/publish.rs`)

One detached task per relay sends the event, reports the outcome and puts it on a channel; the
caller reads the channel up to the first acceptance. What the caller hears does not depend on the
order in which the relays answer (`first_accepted_right`).
-/

namespace MostroApp.Publish

open Transition

abbrev SendOutcome := Except String Unit

def accepts : SendOutcome → Bool
  | .ok () => true
  | .error _ => false

/-- Where a relay's task stands. -/
inductive Stage where
  | sending
  /-- The outcome is reported; the channel has not got it. -/
  | reported (o : SendOutcome)
  | done (o : SendOutcome)

def Stage.isDone : Stage → Bool
  | .done _ => true
  | _ => false

/-- The tasks by the position of their relay, the channel, what `on_outcome` has heard, and what
`first_accepted` returned. -/
structure Wait where
  stage : Nat → Stage := fun _ => .sending
  queue : List Bool := []
  log : List (Nat × SendOutcome) := []
  result : Option SendOutcome := none

/-- A relay answers, a task puts its outcome on the channel, or the caller reads the channel. -/
inductive Event where
  | answers (k : Nat) (o : SendOutcome)
  | sends (k : Nat)
  | receives

variable (relays : List String)

def Wait.allDone (w : Wait) : Bool := (List.range relays.length).all fun k => (w.stage k).isDone

/-- One step. A task that sends after the caller has returned finds the channel closed; a read of an
empty channel ends once no task is left that could send. -/
def step (w : Wait) : Event → Option Wait
  | .answers k o =>
      match w.stage k with
      | .sending =>
          if k < relays.length then
            some { w with
              stage := Function.update w.stage k (.reported o)
              log := w.log ++ [(k, o)] }
          else none
      | _ => none
  | .sends k =>
      match w.stage k with
      | .reported o =>
          some { w with
            stage := Function.update w.stage k (.done o)
            queue := if w.result.isNone then w.queue ++ [accepts o] else w.queue }
      | _ => none
  | .receives =>
      match w.result, w.queue with
      | none, true :: rest => some { w with queue := rest, result := some (.ok ()) }
      | none, false :: rest => some { w with queue := rest }
      | none, [] =>
          if w.allDone relays then some { w with result := some (.error "NoRelayAccepted") }
          else none
      | some _, _ => none

/-! ## What a step does -/

inductive Effect (w : Wait) : Event → Wait → Prop where
  | answers (k : Nat) (o : SendOutcome) (h : w.stage k = .sending) (hk : k < relays.length) :
      Effect w (.answers k o)
        { w with stage := Function.update w.stage k (.reported o), log := w.log ++ [(k, o)] }
  | sends (k : Nat) (o : SendOutcome) (h : w.stage k = .reported o) :
      Effect w (.sends k)
        { w with
          stage := Function.update w.stage k (.done o)
          queue := if w.result.isNone then w.queue ++ [accepts o] else w.queue }
  | accepts (rest : List Bool) (h : w.result = none) (hq : w.queue = true :: rest) :
      Effect w .receives { w with queue := rest, result := some (.ok ()) }
  | passes (rest : List Bool) (h : w.result = none) (hq : w.queue = false :: rest) :
      Effect w .receives { w with queue := rest }
  | fails (h : w.result = none) (hq : w.queue = []) (hdone : w.allDone relays = true) :
      Effect w .receives { w with result := some (.error "NoRelayAccepted") }

variable {relays} {w w' : Wait} {e : Event}

theorem step_effect (h : step relays w e = some w') : Effect relays w e w' := by
  cases e with
  | answers k o =>
      simp only [step] at h
      split at h
      · next hstage =>
          split at h
          · next hk =>
              cases h
              exact .answers k o hstage hk
          · cases h
      · cases h
  | sends k =>
      simp only [step] at h
      split at h
      · next o hstage =>
          cases h
          exact .sends k o hstage
      · cases h
  | receives =>
      simp only [step] at h
      split at h
      · next rest hresult hqueue =>
          cases h
          exact .accepts rest hresult hqueue
      · next rest hresult hqueue =>
          cases h
          exact .passes rest hresult hqueue
      · next hresult hqueue =>
          split at h
          · next hdone =>
              cases h
              exact .fails hresult hqueue hdone
          · cases h
      · cases h

/-! ## What is so at any time -/

/-- The relay's task has sent an acceptance. -/
def Wait.Accepted (w : Wait) (k : Nat) : Prop := w.stage k = .done (.ok ())

def Wait.Refused (w : Wait) (k : Nat) : Prop := ∃ e, w.stage k = .done (.error e)

/-- What `on_outcome` has heard of a relay. -/
def Wait.heard (w : Wait) (k : Nat) : List SendOutcome :=
  (w.log.filter fun r => r.1 = k).map (·.2)

def Stage.outcome : Stage → List SendOutcome
  | .sending => []
  | .reported o | .done o => [o]

variable (relays) in
/-- While the caller waits the channel has an acceptance when there is one; it returned on an
acceptance, or failed after every refusal; and every outcome is heard once. -/
structure Inv (w : Wait) : Prop where
  waits : w.result = none → ((∃ k, w.Accepted k) ↔ true ∈ w.queue)
  accepted : w.result = some (.ok ()) → ∃ k, w.Accepted k
  refused : ∀ m, w.result = some (.error m) →
    m = "NoRelayAccepted" ∧ ∀ k < relays.length, w.Refused k
  heard : ∀ k, w.heard k = (w.stage k).outcome
  inside : ∀ k, w.stage k ≠ .sending → k < relays.length

theorem inv_start : Inv relays {} where
  waits _ := ⟨fun ⟨_, hk⟩ => (nomatch hk), fun h => (nomatch h)⟩
  accepted h := nomatch h
  refused _ h := nomatch h
  heard _ := rfl
  inside _ h := absurd rfl h

/-- A task that has no outcome yet, or has one, is not done. -/
theorem stage_of_done {k j : Nat} {x o : Stage} (hx : x.isDone = true) (h : w.stage j = x)
    (hk : (w.stage k).isDone = false) : Function.update w.stage k o j = x := by
  have hj : j ≠ k := by
    rintro rfl
    rw [h, hx] at hk
    cases hk
  rw [Function.update_of_ne hj]
  exact h

theorem Inv.answers {k : Nat} {o : SendOutcome} (h : Inv relays w) (hk : w.stage k = .sending)
    (hlen : k < relays.length) : Inv relays
      { w with stage := Function.update w.stage k (.reported o), log := w.log ++ [(k, o)] } := by
  have hdone : (w.stage k).isDone = false := by rw [hk]; rfl
  refine ⟨fun hr => ?_, fun hr => ?_, fun m hr => ?_, fun j => ?_, fun j hj => ?_⟩
  -- Reported is not done yet, so the channel owes nothing new.
  · rw [← h.waits hr]
    refine exists_congr fun j => ⟨fun hj => ?_, fun hj => stage_of_done rfl hj hdone⟩
    by_cases hjk : j = k
    · subst hjk
      have hj : Function.update w.stage j (.reported o) j = .done (.ok ()) := hj
      rw [Function.update_self] at hj
      cases hj
    · have hj : Function.update w.stage k (.reported o) j = .done (.ok ()) := hj
      rwa [Function.update_of_ne hjk] at hj
  · obtain ⟨j, hj⟩ := h.accepted hr
    exact ⟨j, stage_of_done rfl hj hdone⟩
  · refine ⟨(h.refused m hr).1, fun j hj => ?_⟩
    obtain ⟨e, he⟩ := (h.refused m hr).2 j hj
    exact ⟨e, stage_of_done rfl he hdone⟩
  · show ((w.log ++ [(k, o)]).filter fun r => r.1 = j).map (·.2) =
      (Function.update w.stage k (.reported o) j).outcome
    have hold : (w.log.filter fun r => r.1 = j).map (·.2) = (w.stage j).outcome := h.heard j
    rw [List.filter_append, List.map_append, hold]
    by_cases hjk : j = k
    · subst hjk
      simp [hk, Stage.outcome]
    · have hkj : k ≠ j := Ne.symm hjk
      simp [hjk, hkj]
  · by_cases hjk : j = k
    · exact hjk ▸ hlen
    · have hj : Function.update w.stage k (.reported o) j ≠ .sending := hj
      rw [Function.update_of_ne hjk] at hj
      exact h.inside j hj

theorem Inv.sends {k : Nat} {o : SendOutcome} (h : Inv relays w) (hk : w.stage k = .reported o) :
    Inv relays { w with
      stage := Function.update w.stage k (.done o)
      queue := if w.result.isNone then w.queue ++ [accepts o] else w.queue } := by
  have hdone : (w.stage k).isDone = false := by rw [hk]; rfl
  refine ⟨fun hr => ?_, fun hr => ?_, fun m hr => ?_, fun j => ?_, fun j hj => ?_⟩
  · have hr : w.result = none := hr
    show (∃ j, Function.update w.stage k (.done o) j = .done (.ok ())) ↔
      true ∈ if w.result.isNone then w.queue ++ [accepts o] else w.queue
    rw [hr, Option.isNone_none, if_pos rfl, List.mem_append, ← h.waits hr, List.mem_singleton]
    -- An acceptance on the channel is an old one or the one just sent.
    constructor
    · rintro ⟨j, hj⟩
      by_cases hjk : j = k
      · subst hjk
        rw [Function.update_self] at hj
        cases hj
        exact .inr rfl
      · rw [Function.update_of_ne hjk] at hj
        exact .inl ⟨j, hj⟩
    · rintro (⟨j, hj⟩ | hacc)
      · exact ⟨j, stage_of_done rfl hj hdone⟩
      · refine ⟨k, (Function.update_self ..).trans ?_⟩
        cases o with
        | ok u => rfl
        | error e => cases hacc
  -- What is done stays done, so a result that was returned stays right.
  · obtain ⟨j, hj⟩ := h.accepted hr
    exact ⟨j, stage_of_done rfl hj hdone⟩
  · refine ⟨(h.refused m hr).1, fun j hj => ?_⟩
    obtain ⟨e, he⟩ := (h.refused m hr).2 j hj
    exact ⟨e, stage_of_done rfl he hdone⟩
  · show w.heard j = (Function.update w.stage k (.done o) j).outcome
    rw [h.heard j]
    by_cases hjk : j = k
    · subst hjk
      rw [Function.update_self, hk]
      rfl
    · rw [Function.update_of_ne hjk]
  · by_cases hjk : j = k
    · exact hjk ▸ h.inside k (by rw [hk]; nofun)
    · have hj : Function.update w.stage k (.done o) j ≠ .sending := hj
      rw [Function.update_of_ne hjk] at hj
      exact h.inside j hj

/-- Once everything is done and nothing accepted, everything refused. -/
theorem Inv.refused_of_done (h : Inv relays w) (hr : w.result = none) (hq : true ∉ w.queue)
    (hdone : w.allDone relays = true) {k : Nat} (hk : k < relays.length) : w.Refused k := by
  have hstage := List.all_eq_true.mp hdone k (List.mem_range.mpr hk)
  cases hs : w.stage k with
  | done o =>
      cases o with
      | ok u => exact absurd ((h.waits hr).mp ⟨k, hs⟩) hq
      | error e => exact ⟨e, hs⟩
  | _ =>
      rw [hs] at hstage
      cases hstage

theorem Inv.step (h : Inv relays w) (he : Effect relays w e w') : Inv relays w' := by
  cases he with
  | answers k o hk hlen => exact h.answers hk hlen
  | sends k o hk => exact h.sends hk
  | accepts rest hr hq =>
      have hacc := (h.waits hr).mpr (by rw [hq]; exact List.mem_cons_self)
      exact ⟨fun hn => (nomatch hn), fun _ => hacc, fun m hm => (nomatch hm), h.heard,
        h.inside⟩
  | passes rest hr hq =>
      refine ⟨fun _ => ?_, fun hn => ?_, fun m hm => ?_, h.heard, h.inside⟩
      · refine (h.waits hr).trans ?_
        rw [hq]
        simp
      · exact absurd (hr.symm.trans hn) nofun
      · exact absurd (hr.symm.trans hm) nofun
  | fails hr hq hdone =>
      refine ⟨fun hn => (nomatch hn), fun hn => (nomatch hn), fun m hm => ?_, h.heard, h.inside⟩
      cases hm
      exact ⟨rfl, fun k hk => h.refused_of_done hr (by simp [hq]) hdone hk⟩

/-! ## The caller's reads -/

/-- While an acceptance is on the channel, reading on returns at the first one. -/
theorem reads_accept (hr : w.result = none) (hq : true ∈ w.queue) :
    ∃ n ≤ w.queue.length, ∃ w', run (step relays) w (List.replicate n .receives) = some w' ∧
      w'.result = some (.ok ()) := by
  induction hw : w.queue generalizing w with
  | nil =>
      rw [hw] at hq
      cases hq
  | cons b rest ih =>
      cases b with
      | true =>
          refine ⟨1, Nat.succ_le_succ (Nat.zero_le _),
            { w with queue := rest, result := some (.ok ()) }, ?_, rfl⟩
          show (step relays w .receives).bind _ = _
          simp [step, hr, hw]
      | false =>
          have hrest : true ∈ rest := by simpa [hw] using hq
          obtain ⟨n, hn, w', hrun, hw'⟩ := @ih { w with queue := rest } hr hrest rfl
          refine ⟨n + 1, Nat.succ_le_succ hn, w', ?_, hw'⟩
          rw [List.replicate_succ, run_cons_eq_some]
          exact ⟨_, by simp [step, hr, hw], hrun⟩

/-- Once every task is done, reading on fails after the last refusal. -/
theorem reads_fail (hr : w.result = none) (hq : true ∉ w.queue)
    (hdone : w.allDone relays = true) :
    ∃ n ≤ w.queue.length + 1, ∃ w',
      run (step relays) w (List.replicate n .receives) = some w' ∧
        w'.result = some (.error "NoRelayAccepted") := by
  induction hw : w.queue generalizing w with
  | nil =>
      refine ⟨1, Nat.le_refl 1, { w with result := some (.error "NoRelayAccepted") }, ?_, rfl⟩
      show (step relays w .receives).bind _ = _
      simp [step, hr, hw, hdone]
  | cons b rest ih =>
      have hb : b = false := by
        cases b with
        | true => exact absurd (hw ▸ List.mem_cons_self) hq
        | false => rfl
      subst hb
      have hrest : true ∉ rest := by simpa [hw] using hq
      obtain ⟨n, hn, w', hrun, hw'⟩ := @ih { w with queue := rest } hr hrest hdone rfl
      refine ⟨n + 1, Nat.succ_le_succ hn, w', ?_, hw'⟩
      rw [List.replicate_succ, run_cons_eq_some]
      exact ⟨_, by simp [step, hr, hw], hrun⟩

/-! ## Every order of answers -/

variable (relays) in
/-- What a caller and the delivery log can rely on. -/
structure Right (w : Wait) : Prop where
  accepted : w.result = some (.ok ()) → ∃ k < relays.length, w.Accepted k
  refused : ∀ m, w.result = some (.error m) →
    m = "NoRelayAccepted" ∧ ∀ k < relays.length, w.Refused k
  /-- Each outcome is heard once, also after the return. -/
  heard : ∀ k, w.heard k = (w.stage k).outcome
  /-- The caller waits for no other relay once one has accepted. -/
  returns : w.result = none → (∃ k, w.Accepted k) ∨ w.allDone relays = true →
    ∃ n ≤ w.queue.length + 1, ∃ w', run (step relays) w (List.replicate n .receives) = some w' ∧
      w'.result = if true ∈ w.queue then some (.ok ()) else some (.error "NoRelayAccepted")

/-- **The first acceptance is the answer.** Whatever order the relays answer in, the caller returns
`Ok` only when one accepted and fails only after all refused; it returns as soon as one acceptance
is on the channel or nothing is left to wait for; and every outcome is reported once. -/
theorem first_accepted_right {es : List Event} (hr : run (step relays) {} es = some w) :
    Right relays w := by
  have hinv := run_inv (C := fun _ _ => True)
    (fun _ _ _ hw _ hs => Inv.step hw (step_effect hs)) inv_start (along_true _ _) hr
  refine ⟨fun hok => ?_, hinv.refused, hinv.heard, fun hwait hend => ?_⟩
  · obtain ⟨k, hk⟩ := hinv.accepted hok
    exact ⟨k, hinv.inside k (by rw [hk]; nofun), hk⟩
  · by_cases hq : true ∈ w.queue
    · obtain ⟨n, hn, w', hrun, hw'⟩ := reads_accept hwait hq
      exact ⟨n, Nat.le_succ_of_le hn, w', hrun, by rw [if_pos hq, hw']⟩
    · have hdone : w.allDone relays = true :=
        hend.resolve_left fun hacc => hq ((hinv.waits hwait).mp hacc)
      obtain ⟨n, hn, w', hrun, hw'⟩ := reads_fail hwait hq hdone
      exact ⟨n, hn, w', hrun, by rw [if_neg hq, hw']⟩

/-- The first relay refuses, the second accepts and the caller returns; the third answers later. -/
theorem first_accepted_right_late :
    ∃ w, run (step ["a", "b", "c"]) {} [.answers 0 (.error "blocked"), .sends 0, .receives,
        .answers 1 (.ok ()), .sends 1, .receives, .answers 2 (.error "timeout"), .sends 2] =
        some w ∧
      w.result = some (.ok ()) ∧ w.heard 2 = [.error "timeout"] ∧
      Right ["a", "b", "c"] w := by
  have hr : run (step ["a", "b", "c"]) {} [.answers 0 (.error "blocked"), .sends 0, .receives,
      .answers 1 (.ok ()), .sends 1, .receives, .answers 2 (.error "timeout"), .sends 2] =
      some _ := rfl
  exact ⟨_, hr, rfl, rfl, first_accepted_right hr⟩

end MostroApp.Publish
