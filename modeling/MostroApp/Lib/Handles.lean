import MostroApp.Lib.Interleaving
import Mathlib.Algebra.BigOperators.Group.Finset.Piecewise
import Mathlib.Algebra.Order.BigOperators.Group.Finset

set_option autoImplicit false

/-! # Handles that threads hold on counted things

The shared state keeps, for every key, a reference count and some handles of its own (`stored`);
the other handles are with the threads. Where every step moves handles without making or losing
one, the count is the number of all handles (`Pool.Counted`): a key whose count is that of the
stored handles has no user (`Pool.Counted.unused`).
-/

namespace MostroApp.Interleaving

variable {σ π κ : Type}

/-- The handles on `k` at a thread's place, which may be empty. -/
def handles (uses : π → κ → Nat) (k : κ) (p : Option π) : Nat := p.elim 0 fun p => uses p k

/-- Every count is that of the stored handles and of those of the finitely many users. -/
def Pool.Counted (count stored : σ → κ → Nat) (uses : π → κ → Nat) (c : Pool σ π) : Prop :=
  ∀ k, ∃ users : Finset Nat, (∀ i, i ∉ users → handles uses k (c.threads i) = 0) ∧
    count c.shared k = stored c.shared k + ∑ i ∈ users, handles uses k (c.threads i)

variable {count stored : σ → κ → Nat} {uses : π → κ → Nat} {c : Pool σ π}

theorem counted_idle {s : σ} (h : ∀ k, count s k = stored s k) :
    (Pool.idle s : Pool σ π).Counted count stored uses :=
  fun k => ⟨∅, fun _ _ => rfl, h k⟩

/-- **A step that moves handles** between a thread, the store and the count keeps the sum. -/
theorem Pool.Counted.move (h : c.Counted count stored uses) {i : Nat} {s : σ} {q : Option π}
    (balance : ∀ k, count s k + stored c.shared k + handles uses k (c.threads i) =
      count c.shared k + stored s k + handles uses k q) :
    Pool.Counted count stored uses ⟨s, Function.update c.threads i q⟩ := by
  intro k
  obtain ⟨users, hout, hsum⟩ := h k
  refine ⟨insert i users, fun j hj => ?_, ?_⟩
  · obtain ⟨hne, hj⟩ := not_or.mp (mt Finset.mem_insert.mpr hj)
    show handles uses k (Function.update c.threads i q j) = 0
    rw [Function.update_of_ne hne]
    exact hout j hj
  · have hgrown : ∑ j ∈ insert i users, handles uses k (c.threads j) =
        ∑ j ∈ users, handles uses k (c.threads j) :=
      Finset.sum_insert_of_eq_zero_if_notMem (hout i)
    have hplaces : ∀ j, handles uses k (Function.update c.threads i q j) =
        Function.update (fun j => handles uses k (c.threads j)) i (handles uses k q) j :=
      fun j => Function.apply_update (fun _ => handles uses k) c.threads i q j
    have hmem : i ∈ insert i users := Finset.mem_insert_self i users
    have hmoved : ∑ j ∈ insert i users, handles uses k (Function.update c.threads i q j) =
        handles uses k q + ∑ j ∈ insert i users \ {i}, handles uses k (c.threads j) := by
      rw [Finset.sum_congr rfl fun j _ => hplaces j, Finset.sum_update_of_mem hmem]
    have hrest := Finset.sum_eq_add_sum_sdiff_singleton i
      (fun j => handles uses k (c.threads j)) fun hi => absurd hmem hi
    have hbalance := balance k
    show count s k = stored s k +
      ∑ j ∈ insert i users, handles uses k (Function.update c.threads i q j)
    omega

/-- The count covers the stored handles and those of any one thread. -/
theorem Pool.Counted.le (h : c.Counted count stored uses) {i : Nat} {p : π}
    (hp : c.threads i = some p) (k : κ) : stored c.shared k + uses p k ≤ count c.shared k := by
  obtain ⟨users, hout, hsum⟩ := h k
  have hi : handles uses k (c.threads i) = uses p k := by rw [hp]; rfl
  by_cases hmem : i ∈ users
  · have hle : handles uses k (c.threads i) ≤ ∑ j ∈ users, handles uses k (c.threads j) :=
      Finset.single_le_sum_of_canonicallyOrdered
        (f := fun j => handles uses k (c.threads j)) hmem
    omega
  · have hnone := hout i hmem
    omega

/-- A key whose count is that of the stored handles is used by no thread. -/
theorem Pool.Counted.unused (h : c.Counted count stored uses) {k : κ}
    (hle : count c.shared k ≤ stored c.shared k) {i : Nat} {p : π}
    (hp : c.threads i = some p) : uses p k = 0 := by
  have hall := h.le hp k
  omega

end MostroApp.Interleaving
