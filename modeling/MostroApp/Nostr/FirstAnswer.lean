import MostroApp.Lib.Newest
import MostroApp.Lib.Transition
import Mathlib.Data.List.Lex
import Mathlib.Data.Prod.Lex
import Mathlib.Order.Fin.Basic

set_option autoImplicit false

/-! # The newest of the relays' answers (`nostr/first_answer.rs`)

`newest_answer` waits for a first answer, then keeps the newest of those that arrive until its
timer fires or the stream ends. A run is a timed history of the stream and of that timer. NIP-01
orders two revisions of an event twice in the code, by a rank (`replaceable_rank`) and by an
explicit comparison (`generation_is_newer`).
-/

namespace MostroApp.FirstAnswer

open Newest Transition

/-! ## Revisions of an event -/

/-- The 32 bytes of an event id, ordered from the first on. -/
abbrev EventId : Type := { bytes : List (Fin 256) // bytes.length = 32 }

/-- An event as far as its revisions are compared, and what it says. -/
structure Event where
  createdAt : Nat
  id : EventId
  content : String
  deriving DecidableEq

/-- `(created_at, event id)`. -/
abbrev Generation : Type := Nat × EventId

def Event.generation (e : Event) : Generation := (e.createdAt, e.id)

/-- Newer first, and within one second the lowest id. -/
def replaceableRank (e : Event) : Nat ×ₗ EventIdᵒᵈ := toLex (e.createdAt, OrderDual.toDual e.id)

def generationIsNewer (candidate applied : Generation) : Bool :=
  match compare candidate.1 applied.1 with
  | .gt => true
  | .lt => false
  | .eq => decide (candidate.2 < applied.2)

theorem generationIsNewer_iff (g h : Generation) :
    generationIsNewer g h = true ↔ h.1 < g.1 ∨ g.1 = h.1 ∧ g.2 < h.2 := by
  unfold generationIsNewer
  cases hcmp : compare g.1 h.1 with
  | gt =>
      have hlt := compare_gt_iff_gt.mp hcmp
      exact ⟨fun _ => Or.inl hlt, fun _ => rfl⟩
  | lt =>
      have hlt := compare_lt_iff_lt.mp hcmp
      constructor
      · intro h
        cases h
      · rintro (h | ⟨h, -⟩)
        · omega
        · omega
  | eq =>
      have heq := compare_eq_iff_eq.mp hcmp
      show decide (g.2 < h.2) = true ↔ _
      rw [decide_eq_true_eq]
      exact ⟨fun h => Or.inr ⟨heq, h⟩, fun h => h.elim (fun h => absurd heq h.ne') And.right⟩

/-- The comparison is the order of the ranks. -/
theorem generationIsNewer_iff_rank (e f : Event) :
    generationIsNewer e.generation f.generation = true ↔
      replaceableRank f < replaceableRank e := by
  rw [generationIsNewer_iff, replaceableRank, replaceableRank, Prod.Lex.toLex_lt_toLex]
  show _ ↔ f.createdAt < e.createdAt ∨ f.createdAt = e.createdAt ∧ e.id < f.id
  exact or_congr Iff.rfl (and_congr_left fun _ => eq_comm)

/-! ## The reader -/

section Reader

variable {T K : Type} [LinearOrder K]

/-- The next answer arrives, the stream ends, or the timer of the grace fires. -/
inductive Happening (T : Type) where
  | arrives (t : Nat) (answer : T)
  | ends (t : Nat)
  | elapses (t : Nat)

/-- Where `newest_answer` stands: at the first `next`, in the loop under the timer, or done. -/
inductive Phase (T : Type) where
  | waits
  | gathers (newest : T) (deadline : Nat)
  | returned (newest : Option T)
  deriving DecidableEq

structure Reader (T : Type) where
  clock : Nat := 0
  closed : Bool := false
  phase : Phase T := .waits

/-- What an answer, or the stream's end, does at a time. A timer fires on time: past the deadline
nothing is read before it. -/
def Phase.hears (grace : Nat) (rank : T → K) (t : Nat) (answer : Option T) :
    Phase T → Option (Phase T)
  | .waits =>
      match answer with
      | some a => some (.gathers a (t + grace))
      | none => some (.returned none)
  | .gathers newest deadline =>
      if t ≤ deadline then
        match answer with
        | some a => some (.gathers (pick rank newest a) deadline)
        | none => some (.returned (some newest))
      else none
  | .returned newest => some (.returned newest)

def Phase.timesOut (t : Nat) : Phase T → Option (Phase T)
  | .gathers newest deadline => if deadline ≤ t then some (.returned (some newest)) else none
  | .waits | .returned _ => none

/-- One happening; times do not go back, and an ended stream stays so. -/
def newestAnswer (grace : Nat) (rank : T → K) (s : Reader T) : Happening T → Option (Reader T)
  | .arrives t a =>
      if s.clock ≤ t ∧ s.closed = false then
        (s.phase.hears grace rank t (some a)).map fun phase => { s with clock := t, phase := phase }
      else none
  | .ends t =>
      if s.clock ≤ t ∧ s.closed = false then
        (s.phase.hears grace rank t none).map fun phase =>
          { clock := t, closed := true, phase := phase }
      else none
  | .elapses t =>
      if s.clock ≤ t then
        (s.phase.timesOut t).map fun phase => { s with clock := t, phase := phase }
      else none

/-! ## Histories -/

def Happening.time : Happening T → Nat
  | .arrives t _ | .ends t | .elapses t => t

/-- The answers of a history, with the times they arrive at. -/
def arrivals (ls : List (Happening T)) : List (Nat × T) :=
  ls.filterMap fun
    | .arrives t a => some (t, a)
    | .ends _ | .elapses _ => none

/-- Those that arrive before the timer fires. -/
def heard : List (Happening T) → List (Nat × T)
  | [] => []
  | .arrives t a :: ls => (t, a) :: heard ls
  | .ends _ :: ls => heard ls
  | .elapses _ :: _ => []

/-- The stream has ended. -/
def Ended (ls : List (Happening T)) : Prop := ∃ t, .ends t ∈ ls

/-- The grace is over. -/
def Elapsed (ls : List (Happening T)) : Prop := ∃ t, .elapses t ∈ ls

/-! ## One happening -/

variable {grace : Nat} {rank : T → K} {s s' : Reader T} {l : Happening T}
  {ls : List (Happening T)} {n : T} {d : Nat}

theorem clock_next (h : newestAnswer grace rank s l = some s') :
    s.clock ≤ l.time ∧ s'.clock = l.time := by
  cases l with
  | arrives t a | ends t =>
      simp only [newestAnswer] at h
      split at h
      · next hc =>
        obtain ⟨phase, -, rfl⟩ := Option.map_eq_some_iff.mp h
        exact ⟨hc.1, rfl⟩
      · cases h
  | elapses t =>
      simp only [newestAnswer] at h
      split at h
      · next hc =>
        obtain ⟨phase, -, rfl⟩ := Option.map_eq_some_iff.mp h
        exact ⟨hc, rfl⟩
      · cases h

theorem arrives_next {t : Nat} {a : T} (h : newestAnswer grace rank s (.arrives t a) = some s') :
    s.closed = false ∧ s'.closed = false ∧
      s.phase.hears grace rank t (some a) = some s'.phase := by
  simp only [newestAnswer] at h
  split at h
  · next hc =>
    obtain ⟨phase, hphase, rfl⟩ := Option.map_eq_some_iff.mp h
    exact ⟨hc.2, hc.2, hphase⟩
  · cases h

theorem ends_next {t : Nat} (h : newestAnswer grace rank s (.ends t) = some s') :
    s'.closed = true ∧ s.phase.hears grace rank t none = some s'.phase := by
  simp only [newestAnswer] at h
  split at h
  · obtain ⟨phase, hphase, rfl⟩ := Option.map_eq_some_iff.mp h
    exact ⟨rfl, hphase⟩
  · cases h

theorem elapses_next {t : Nat} (h : newestAnswer grace rank s (.elapses t) = some s') :
    s'.closed = s.closed ∧ s.phase.timesOut t = some s'.phase := by
  simp only [newestAnswer] at h
  split at h
  · obtain ⟨phase, hphase, rfl⟩ := Option.map_eq_some_iff.mp h
    exact ⟨rfl, hphase⟩
  · cases h

/-! ## Whole histories -/

/-- Nothing arrives in the past. -/
theorem clock_le_arrivals (hr : run (newestAnswer grace rank) s ls = some s') :
    ∀ x ∈ arrivals ls, s.clock ≤ x.1 := by
  induction ls generalizing s with
  | nil => exact fun _ h => absurd h List.not_mem_nil
  | cons l ls ih =>
      obtain ⟨s₁, hstep, hr⟩ := run_cons_eq_some.mp hr
      obtain ⟨hle, heq⟩ := clock_next hstep
      have hrest : ∀ x ∈ arrivals ls, s.clock ≤ x.1 := fun x hx =>
        le_trans (heq ▸ hle) (ih hr x hx)
      cases l with
      | arrives t a =>
          intro x hx
          rcases List.mem_cons.mp hx with rfl | hx
          · exact hle
          · exact hrest x hx
      | ends t | elapses t => exact hrest

/-- Nothing arrives on a stream that has ended. -/
theorem arrivals_of_closed (hs : s.closed = true)
    (hr : run (newestAnswer grace rank) s ls = some s') : arrivals ls = [] := by
  induction ls generalizing s with
  | nil => rfl
  | cons l ls ih =>
      obtain ⟨s₁, hstep, hrest⟩ := run_cons_eq_some.mp hr
      cases l with
      | arrives t a => exact nomatch hs.symm.trans (arrives_next hstep).1
      | ends t => exact ih (ends_next hstep).1 hrest
      | elapses t => exact ih ((elapses_next hstep).1.trans hs) hrest

theorem heard_subset : ∀ ls : List (Happening T), ∀ x ∈ heard ls, x ∈ arrivals ls
  | .arrives t a :: ls, x, hx => by
      rcases List.mem_cons.mp hx with rfl | hx
      · exact List.mem_cons_self
      · exact List.mem_cons_of_mem _ (heard_subset ls x hx)
  | .ends _ :: ls, x, hx => heard_subset ls x hx

theorem heard_of_arrivals (h : arrivals ls = []) : heard ls = [] :=
  List.eq_nil_iff_forall_not_mem.mpr fun x hx => List.not_mem_nil (h ▸ heard_subset ls x hx)

/-- What has returned stays so. -/
theorem returned_run {r : Option T} (hs : s.phase = .returned r)
    (hr : run (newestAnswer grace rank) s ls = some s') : s'.phase = .returned r := by
  induction ls generalizing s with
  | nil => exact Option.some.inj hr ▸ hs
  | cons l ls ih =>
      obtain ⟨s₁, hstep, hrest⟩ := run_cons_eq_some.mp hr
      refine ih ?_ hrest
      cases l with
      | arrives t a =>
          have h := (arrives_next hstep).2.2
          rw [hs] at h
          exact (Option.some.inj h).symm
      | ends t =>
          have h := (ends_next hstep).2
          rw [hs] at h
          exact (Option.some.inj h).symm
      | elapses t =>
          have h := (elapses_next hstep).2
          rw [hs] at h
          cases h

/-- The stream has ended, or the grace is over. -/
def Over (ls : List (Happening T)) : Prop := Ended ls ∨ Elapsed ls

@[simp] theorem ended_cons : Ended (l :: ls) ↔ (∃ t, l = .ends t) ∨ Ended ls := by
  simp [Ended, exists_or, eq_comm]

@[simp] theorem elapsed_cons : Elapsed (l :: ls) ↔ (∃ t, l = .elapses t) ∨ Elapsed ls := by
  simp [Elapsed, exists_or, eq_comm]

theorem not_over_nil : ¬ Over ([] : List (Happening T)) := by simp [Over, Ended, Elapsed]

theorem over_arrives {t : Nat} {a : T} : Over (.arrives t a :: ls) ↔ Over ls := by simp [Over]

/-- What comes of a history from the first answer on. -/
structure Gathered (rank : T → K) (n : T) (d : Nat) (ls : List (Happening T)) (s' : Reader T) :
    Prop where
  phase : ∃ m, newest rank (some n) ((heard ls).map Prod.snd) = some m ∧
    (Over ls ∧ s'.phase = .returned (some m) ∨ ¬ Over ls ∧ s'.phase = .gathers m d)
  early : ∀ x ∈ heard ls, x.1 ≤ d
  /-- What arrives before the deadline is heard. -/
  inTime : ∀ x ∈ arrivals ls, x.1 < d → x ∈ heard ls

/-- By induction on the history: an answer is picked from, and the end of the stream and the timer
return what is held. -/
theorem gathers_run (hs : s.phase = .gathers n d)
    (hr : run (newestAnswer grace rank) s ls = some s') : Gathered rank n d ls s' := by
  induction ls generalizing s n with
  | nil =>
      obtain rfl := Option.some.inj hr
      exact ⟨⟨n, rfl, Or.inr ⟨not_over_nil, hs⟩⟩, (fun _ h => nomatch h), fun _ h => nomatch h⟩
  | cons l ls ih =>
      obtain ⟨s₁, hstep, hrest⟩ := run_cons_eq_some.mp hr
      cases l with
      | arrives t a =>
          have hphase := (arrives_next hstep).2.2
          rw [hs] at hphase
          simp only [Phase.hears] at hphase
          split at hphase
          · next hle =>
            have hgathered := ih (Option.some.inj hphase).symm hrest
            obtain ⟨m, hm, hend⟩ := hgathered.phase
            refine ⟨⟨m, hm, ?_⟩, fun x hx => ?_, fun x hx hlt => ?_⟩
            · rwa [over_arrives]
            · rcases List.mem_cons.mp hx with rfl | hx
              · exact hle
              · exact hgathered.early x hx
            · rcases List.mem_cons.mp hx with rfl | hx
              · exact List.mem_cons_self
              · exact List.mem_cons_of_mem _ (hgathered.inTime x hx hlt)
          · cases hphase
      | ends t =>
          have hphase := (ends_next hstep).2
          rw [hs] at hphase
          simp only [Phase.hears] at hphase
          split at hphase
          · have hnone : arrivals ls = [] := arrivals_of_closed (ends_next hstep).1 hrest
            have hheard : heard ls = [] := heard_of_arrivals hnone
            have hend := returned_run (Option.some.inj hphase).symm hrest
            refine ⟨⟨n, ?_, Or.inl ⟨by simp [Over], hend⟩⟩, ?_, ?_⟩
            · exact congrArg (fun h => newest rank (some n) (h.map Prod.snd)) hheard
            · exact fun x hx => absurd (hheard ▸ hx) List.not_mem_nil
            · exact fun x hx => absurd (hnone ▸ hx) List.not_mem_nil
          · cases hphase
      | elapses t =>
          have hphase := (elapses_next hstep).2
          rw [hs] at hphase
          simp only [Phase.timesOut] at hphase
          split at hphase
          · next hle =>
            have hend := returned_run (Option.some.inj hphase).symm hrest
            refine ⟨⟨n, rfl, Or.inl ⟨by simp [Over], hend⟩⟩, (fun _ h => nomatch h), ?_⟩
            -- After the timer's firing everything arrives past the deadline.
            intro x hx hlt
            have hclock := clock_le_arrivals hrest x hx
            rw [(clock_next hstep).2] at hclock
            exact absurd hlt (not_lt.mpr (le_trans hle hclock))
          · cases hphase

/-- What comes of a history from its start, by its first answer. -/
theorem waits_run (hs : s.phase = .waits) (hr : run (newestAnswer grace rank) s ls = some s') :
    (arrivals ls = [] ∧
        (Ended ls ∧ s'.phase = .returned none ∨ ¬ Ended ls ∧ s'.phase = .waits)) ∨
      ∃ t a ls', ls = .arrives t a :: ls' ∧ Gathered rank a (t + grace) ls' s' := by
  cases ls with
  | nil =>
      obtain rfl := Option.some.inj hr
      exact Or.inl ⟨rfl, Or.inr ⟨by simp [Ended], hs⟩⟩
  | cons l ls =>
      obtain ⟨s₁, hstep, hrest⟩ := run_cons_eq_some.mp hr
      cases l with
      | arrives t a =>
          have hphase := (arrives_next hstep).2.2
          rw [hs] at hphase
          exact Or.inr ⟨t, a, ls, rfl, gathers_run (Option.some.inj hphase).symm hrest⟩
      | ends t =>
          have hphase := (ends_next hstep).2
          rw [hs] at hphase
          have hnone : arrivals ls = [] := arrivals_of_closed (ends_next hstep).1 hrest
          have hend := returned_run (Option.some.inj hphase).symm hrest
          exact Or.inl ⟨hnone, Or.inl ⟨by simp, hend⟩⟩
      | elapses t =>
          have hphase := (elapses_next hstep).2
          rw [hs] at hphase
          cases hphase

end Reader

/-! ## The newest answer -/

/-- An order without ties. -/
structure StrictTotal (newer : Generation → Generation → Bool) : Prop where
  irrefl : ∀ g, newer g g = false
  trans : ∀ g h k, newer g h = true → newer h k = true → newer g k = true
  total : ∀ g h, g ≠ h → newer g h = true ∨ newer h g = true

theorem generationIsNewer_strictTotal : StrictTotal generationIsNewer where
  irrefl g := by
    refine Bool.eq_false_iff.mpr fun h => ?_
    rcases (generationIsNewer_iff g g).mp h with h | ⟨-, h⟩
    · exact absurd h (lt_irrefl _)
    · exact absurd h (lt_irrefl _)
  trans g h k hgh hhk := by
    rw [generationIsNewer_iff] at hgh hhk ⊢
    rcases hgh with h₁ | ⟨e₁, h₁⟩ <;> rcases hhk with h₂ | ⟨e₂, h₂⟩
    · exact Or.inl (lt_trans h₂ h₁)
    · exact Or.inl (e₂ ▸ h₁)
    · exact Or.inl (e₁.symm ▸ h₂)
    · exact Or.inr ⟨e₁.trans e₂, lt_trans h₁ h₂⟩
  total g h hne := by
    rw [generationIsNewer_iff, generationIsNewer_iff]
    rcases lt_trichotomy g.1 h.1 with hlt | heq | hgt
    · exact Or.inr (Or.inl hlt)
    · rcases lt_trichotomy g.2 h.2 with hid | hid | hid
      · exact Or.inl (Or.inr ⟨heq, hid⟩)
      · exact absurd (Prod.ext heq hid) hne
      · exact Or.inr (Or.inr ⟨heq.symm, hid⟩)
    · exact Or.inl (Or.inl hgt)

variable {grace : Nat} {ls : List (Happening Event)} {s : Reader Event}

/-- The events of the answers heard. -/
def events (ls : List (Happening Event)) : List Event := (heard ls).map Prod.snd

/-- What `newest_answer` returns for a history. -/
structure AnswerRight (grace : Nat) (ls : List (Happening Event)) (s : Reader Event) : Prop where
  ended : s.phase = .returned none ↔ Ended ls ∧ arrivals ls = []
  answered : (∃ e, s.phase = .returned (some e)) ↔ arrivals ls ≠ [] ∧ Over ls
  newest : ∀ e, s.phase = .returned (some e) →
    e ∈ events ls ∧ ∀ a ∈ events ls, generationIsNewer a.generation e.generation = false
  /-- What is heard is what arrives in the grace after the first answer. -/
  inGrace : ∀ t₀ a rest, arrivals ls = (t₀, a) :: rest →
    ∀ x ∈ arrivals ls, (x.1 < t₀ + grace → x ∈ heard ls) ∧ (x ∈ heard ls → x.1 ≤ t₀ + grace)

/-- Nothing has arrived. -/
theorem answerRight_of_silent (hnone : arrivals ls = [])
    (hend : Ended ls ∧ s.phase = .returned none ∨ ¬ Ended ls ∧ s.phase = .waits) :
    AnswerRight grace ls s := by
  have hphase : ∀ e, s.phase ≠ .returned (some e) := by
    intro e he
    rcases hend with ⟨-, h⟩ | ⟨-, h⟩ <;> rw [h] at he <;> cases he
  refine ⟨⟨fun h => ?_, fun h => ?_⟩, ⟨fun ⟨e, he⟩ => absurd he (hphase e), fun h => ?_⟩,
    fun e he => absurd he (hphase e), fun t₀ a rest h => nomatch hnone.symm.trans h⟩
  · rcases hend with ⟨hended, -⟩ | ⟨-, hwaits⟩
    · exact ⟨hended, hnone⟩
    · cases hwaits.symm.trans h
  · rcases hend with ⟨-, hreturned⟩ | ⟨hnot, -⟩
    · exact hreturned
    · exact absurd h.1 hnot
  · exact absurd hnone h.1

/-- A first answer has. -/
theorem Gathered.answerRight {t : Nat} {a : Event}
    (h : Gathered replaceableRank a (t + grace) ls s) :
    AnswerRight grace (.arrives t a :: ls) s := by
  obtain ⟨m, hm, hphase⟩ := h.phase
  have hall : events (.arrives t a :: ls) = a :: (heard ls).map Prod.snd := rfl
  have hleft : newest replaceableRank none (a :: (heard ls).map Prod.snd) = some m := hm
  refine ⟨⟨fun hend => ?_, fun hend => ?_⟩, ⟨?_, ?_⟩, fun e he => ?_, fun t₀ a' rest hfirst => ?_⟩
  · rcases hphase with ⟨-, h'⟩ | ⟨-, h'⟩ <;> cases h'.symm.trans hend
  · cases hend.2
  · rintro ⟨e, he⟩
    refine ⟨(fun h => nomatch h), over_arrives.mpr ?_⟩
    rcases hphase with ⟨hover, -⟩ | ⟨-, hgathers⟩
    · exact hover
    · cases hgathers.symm.trans he
  · rintro ⟨-, hover⟩
    rcases hphase with ⟨-, hreturned⟩ | ⟨hnot, -⟩
    · exact ⟨m, hreturned⟩
    · exact absurd (over_arrives.mp hover) hnot
  · obtain rfl : m = e := by
      rcases hphase with ⟨-, h'⟩ | ⟨-, h'⟩
      · exact Option.some.inj (Phase.returned.inj (h'.symm.trans he))
      · cases h'.symm.trans he
    rw [hall]
    have hbest := newest_left hleft
    refine ⟨?_, fun x hx => ?_⟩
    · rcases hbest.source with h' | ⟨hmem, -⟩
      · cases h'
      · exact hmem
    · refine Bool.eq_false_iff.mpr fun hnewer => ?_
      exact absurd ((generationIsNewer_iff_rank x m).mp hnewer) (not_lt.mpr (hbest.above x hx))
  · -- the grace runs from the first answer, which is `a`
    obtain ⟨heq, rfl⟩ := List.cons.inj hfirst
    obtain ⟨rfl, rfl⟩ := Prod.mk.inj heq
    intro x hx
    rcases List.mem_cons.mp hx with rfl | hx
    · exact ⟨fun _ => List.mem_cons_self, fun _ => Nat.le_add_right _ _⟩
    · refine ⟨fun hlt => List.mem_cons_of_mem _ (h.inTime x hx hlt), fun hmem => ?_⟩
      rcases List.mem_cons.mp hmem with rfl | hmem
      · exact Nat.le_add_right _ _
      · exact h.early x hmem

theorem answerRight (hr : run (newestAnswer grace replaceableRank) {} ls = some s) :
    AnswerRight grace ls s := by
  rcases waits_run rfl hr with ⟨hnone, hend⟩ | ⟨t, a, ls, rfl, hgathered⟩
  · exact answerRight_of_silent hnone hend
  · exact hgathered.answerRight

/-- **The newest revision wins whatever relay answers first**: over every history, and the same
revision over every history with the same answers in the grace. -/
theorem newest_answer_right (hr : run (newestAnswer grace replaceableRank) {} ls = some s) :
    AnswerRight grace ls s ∧
      (∀ ls' s' e e', run (newestAnswer grace replaceableRank) {} ls' = some s' →
        (events ls').Perm (events ls) → s.phase = .returned (some e) →
        s'.phase = .returned (some e') → e'.createdAt = e.createdAt ∧ e'.id = e.id) ∧
      (∀ e f, generationIsNewer e.generation f.generation = true ↔
        replaceableRank f < replaceableRank e) ∧
      StrictTotal generationIsNewer := by
  have hright := answerRight hr
  refine ⟨hright, fun ls' s' e e' hr' hperm he he' => ?_, generationIsNewer_iff_rank,
    generationIsNewer_strictTotal⟩
  obtain ⟨hmem, hmax⟩ := hright.newest e he
  obtain ⟨hmem', hmax'⟩ := (answerRight hr').newest e' he'
  -- Neither is newer than the other, and the order has no ties.
  have hgeneration : e'.generation = e.generation := by
    by_contra hne
    rcases generationIsNewer_strictTotal.total _ _ hne with h | h
    · exact nomatch h.symm.trans (hmax e' (hperm.mem_iff.mp hmem'))
    · exact nomatch h.symm.trans (hmax' e (hperm.mem_iff.mpr hmem))
  exact Prod.mk.inj hgeneration

/-- An id whose bytes are all the same. -/
def idOf (byte : Fin 256) : EventId := ⟨List.replicate 32 byte, List.length_replicate⟩

/-- A stale copy answers first, then two revisions of one second; a newer one is too late. -/
def staleFirst : List (Happening Event) :=
  [.arrives 10 ⟨100, idOf 1, "stale"⟩, .arrives 20 ⟨200, idOf 9, "high"⟩,
    .arrives 30 ⟨200, idOf 2, "low"⟩, .elapses 760, .arrives 800 ⟨300, idOf 0, "late"⟩]

theorem stale_first_low_wins :
    ((run (newestAnswer 750 replaceableRank) {} staleFirst).map fun s => s.phase) =
        some (.returned (some ⟨200, idOf 2, "low"⟩)) ∧
      ∃ s, run (newestAnswer 750 replaceableRank) {} staleFirst = some s ∧
        AnswerRight 750 staleFirst s := by
  have hsome : (run (newestAnswer 750 replaceableRank) {} staleFirst).isSome = true := by decide
  obtain ⟨s, hr⟩ := Option.isSome_iff_exists.mp hsome
  exact ⟨by decide, s, hr, (newest_answer_right hr).1⟩

end MostroApp.FirstAnswer
