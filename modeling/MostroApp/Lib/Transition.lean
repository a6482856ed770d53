import Mathlib.Data.Option.Basic
import Mathlib.Data.List.Basic

set_option autoImplicit false

/-! # Runs of a partial step function

A system is a step function `step : σ → ε → Option σ`: in state `s` the event `e` leads to
`s'` when `step s e = some s'`, and is not possible when it is `none`. The file defines the
run over a list of events, conditions that hold along a run (`Along`), and the induction
rules the rest of the development uses: an invariant that holds at the start and is kept by
every admitted step holds at the end (`run_inv`), and two step conditions that agree under
an invariant agree along every run (`along_iff`).
-/

namespace MostroApp.Transition

variable {σ ε : Type}

/-! ## Runs -/

/-- The state after the events `es`, `none` as soon as one of them is not possible. -/
def run (step : σ → ε → Option σ) : σ → List ε → Option σ
  | s, [] => some s
  | s, e :: es => (step s e).bind fun s' => run step s' es

@[simp] theorem run_nil (step : σ → ε → Option σ) (s : σ) : run step s [] = some s := rfl

theorem run_cons (step : σ → ε → Option σ) (s : σ) (e : ε) (es : List ε) :
    run step s (e :: es) = (step s e).bind fun s' => run step s' es := rfl

/-- A run of `e :: es` is a step and a run of the rest. -/
theorem run_cons_eq_some {step : σ → ε → Option σ} {s t : σ} {e : ε} {es : List ε} :
    run step s (e :: es) = some t ↔ ∃ s', step s e = some s' ∧ run step s' es = some t := by
  rw [run_cons, Option.bind_eq_some_iff]

/-- A run over two lists is a run over the second from where the first one led. -/
theorem run_append {step : σ → ε → Option σ} {s t : σ} {es : List ε} (h : run step s es = some t)
    (fs : List ε) : run step s (es ++ fs) = run step t fs := by
  induction es generalizing s with
  | nil =>
      obtain rfl := Option.some.inj h
      rfl
  | cons e es ih =>
      obtain ⟨s', hs, hrun⟩ := run_cons_eq_some.mp h
      rw [List.cons_append, run_cons, hs]
      exact ih hrun

/-! ## Conditions along a run -/

/-- `C` holds of every step the run over `es` takes from `s`. -/
def Along (step : σ → ε → Option σ) (C : σ → ε → Prop) : σ → List ε → Prop
  | _, [] => True
  | s, e :: es => C s e ∧ ∀ s', step s e = some s' → Along step C s' es

variable {step : σ → ε → Option σ} {C D : σ → ε → Prop}

@[simp] theorem along_nil (s : σ) : Along step C s [] := trivial

/-- A decidable condition is decided along a run by running it. -/
instance Along.decidable [∀ s e, Decidable (C s e)] :
    ∀ (s : σ) (es : List ε), Decidable (Along step C s es)
  | _, [] => isTrue trivial
  | s, e :: es =>
      match h : step s e with
      | none =>
          decidable_of_iff (C s e) ⟨fun hc => ⟨hc, fun _ hs => nomatch h.symm.trans hs⟩, And.left⟩
      | some s' =>
          have : Decidable (Along step C s' es) := Along.decidable s' es
          decidable_of_iff (C s e ∧ Along step C s' es)
            ⟨fun hc => ⟨hc.1, fun _ ht => Option.some.inj (h.symm.trans ht) ▸ hc.2⟩,
              fun hc => ⟨hc.1, hc.2 s' h⟩⟩

/-- A condition that always holds does along every run. -/
theorem along_true (s : σ) (es : List ε) : Along step (fun _ _ => True) s es := by
  induction es generalizing s with
  | nil => trivial
  | cons e es ih => exact ⟨trivial, fun s' _ => ih s'⟩

/-- A step condition that implies another holds along fewer runs. -/
theorem Along.mono {s : σ} {es : List ε} (imp : ∀ s e, C s e → D s e)
    (h : Along step C s es) : Along step D s es := by
  induction es generalizing s with
  | nil => trivial
  | cons e es ih => exact ⟨imp s e h.1, fun s' hs => ih (h.2 s' hs)⟩

/-- Two conditions along a run. -/
theorem Along.and {s : σ} {es : List ε} (hC : Along step C s es) (hD : Along step D s es) :
    Along step (fun s e => C s e ∧ D s e) s es := by
  induction es generalizing s with
  | nil => trivial
  | cons e es ih => exact ⟨⟨hC.1, hD.1⟩, fun s' hs => ih (hC.2 s' hs) (hD.2 s' hs)⟩

/-- A condition along both parts of a run. -/
theorem Along.append {s : σ} {es fs : List ε} (h : Along step C s es)
    (hf : ∀ t, run step s es = some t → Along step C t fs) : Along step C s (es ++ fs) := by
  induction es generalizing s with
  | nil => exact hf s rfl
  | cons e es ih =>
      refine ⟨h.1, fun s' hs => ih (h.2 s' hs) fun t ht => hf t ?_⟩
      rw [run_cons, hs]
      exact ht

/-- A condition along a run holds along its first part, and along the rest from where that one
leads. -/
theorem Along.of_append {s : σ} {es fs : List ε} (h : Along step C s (es ++ fs)) :
    Along step C s es ∧ ∀ t, run step s es = some t → Along step C t fs := by
  induction es generalizing s with
  | nil =>
      refine ⟨trivial, fun t ht => ?_⟩
      obtain rfl : s = t := by simpa using ht
      exact h
  | cons e es ih =>
      refine ⟨⟨h.1, fun s' hs => (ih (h.2 s' hs)).1⟩, fun t ht => ?_⟩
      obtain ⟨s', hs, hrun⟩ := run_cons_eq_some.mp ht
      exact (ih (h.2 s' hs)).2 t hrun

/-- A condition along a run holds of its last step, in the state the others lead to. -/
theorem Along.last {s t : σ} {es : List ε} {e : ε} (h : Along step C s (es ++ [e]))
    (ht : run step s es = some t) : C t e :=
  (h.of_append.2 t ht).1

/-! ## Invariants -/

/-- **The invariant rule.** What holds at the start and is kept by every step that meets `C`
holds at the end of every run all of whose steps meet `C`. -/
theorem run_inv {Inv : σ → Prop}
    (keep : ∀ s e s', Inv s → C s e → step s e = some s' → Inv s')
    {s t : σ} {es : List ε} (h0 : Inv s) (hC : Along step C s es)
    (ht : run step s es = some t) : Inv t := by
  induction es generalizing s with
  | nil =>
      have : s = t := by simpa using ht
      exact this ▸ h0
  | cons e es ih =>
      obtain ⟨s', hs, hrun⟩ := run_cons_eq_some.mp ht
      exact ih (keep s e s' h0 hC.1 hs) (hC.2 s' hs) hrun

/-- A step condition that follows from `C` under an invariant holds along every run along
which `C` does. -/
theorem along_of_inv {Inv : σ → Prop}
    (keep : ∀ s e s', Inv s → C s e → step s e = some s' → Inv s')
    (imp : ∀ s e, Inv s → C s e → D s e)
    {s : σ} {es : List ε} (h0 : Inv s) (hC : Along step C s es) : Along step D s es := by
  induction es generalizing s with
  | nil => trivial
  | cons e es ih =>
      exact ⟨imp s e h0 hC.1, fun s' hs => ih (keep s e s' h0 hC.1 hs) (hC.2 s' hs)⟩

/-- Two step conditions that agree wherever the invariant holds, and one of which keeps it,
hold along the same runs. -/
theorem along_iff {Inv : σ → Prop}
    (keep : ∀ s e s', Inv s → C s e → step s e = some s' → Inv s')
    (agree : ∀ s e, Inv s → (C s e ↔ D s e))
    {s : σ} {es : List ε} (h0 : Inv s) : Along step C s es ↔ Along step D s es := by
  constructor
  · exact along_of_inv keep (fun s e hi => (agree s e hi).mp) h0
  · refine along_of_inv (fun s e s' hi hD => keep s e s' hi ((agree s e hi).mpr hD))
      (fun s e hi => (agree s e hi).mpr) h0

end MostroApp.Transition
