import Mathlib.Data.List.Sort

set_option autoImplicit false

/-! # Stable sorting and filtering

Sorting by insertion keeps the elements that pass a test in the order in which sorting them alone
leaves them.
-/

namespace MostroApp.Sorting

variable {α : Type} (r : α → α → Prop) [DecidableRel r] [IsTrans α r]
  (p : α → Bool)

theorem filter_orderedInsert (a : α) {l : List α} (hl : l.Pairwise r) :
    (l.orderedInsert r a).filter p =
      if p a then (l.filter p).orderedInsert r a else l.filter p := by
  induction l with
  | nil => cases hp : p a <;> simp [hp]
  | cons b l ih =>
      have hb : ∀ c ∈ l, r b c := fun c hc => List.rel_of_pairwise_cons hl hc
      have ih := ih hl.of_cons
      by_cases hab : r a b
      · rw [List.orderedInsert_cons_of_le r l hab]
        cases hp : p a with
        | false => rw [List.filter_cons_of_neg (by simp [hp]), if_neg (by simp)]
        | true =>
            rw [List.filter_cons_of_pos hp, if_pos rfl]
            -- Every element that passes follows `a`.
            have hfirst : ∀ c ∈ (b :: l).filter p, r a c := by
              intro c hc
              rcases List.mem_cons.mp (List.mem_of_mem_filter hc) with rfl | hc
              · exact hab
              · exact IsTrans.trans a b c hab (hb c hc)
            cases hrest : (b :: l).filter p with
            | nil => rfl
            | cons c rest =>
                rw [List.orderedInsert_cons_of_le r rest (hfirst c (by simp [hrest]))]
      · rw [List.orderedInsert_of_not_le r l hab]
        cases hpb : p b with
        | false => rw [List.filter_cons_of_neg (by simp [hpb]), ih,
            List.filter_cons_of_neg (by simp [hpb])]
        | true =>
            rw [List.filter_cons_of_pos hpb, ih, List.filter_cons_of_pos hpb]
            cases hp : p a with
            | false => rw [if_neg (by simp), if_neg (by simp)]
            | true => rw [if_pos rfl, if_pos rfl, List.orderedInsert_of_not_le r _ hab]

theorem filter_insertionSort [Std.Total r] (l : List α) :
    (l.insertionSort r).filter p = (l.filter p).insertionSort r := by
  induction l with
  | nil => rfl
  | cons a l ih =>
      rw [List.insertionSort_cons, filter_orderedInsert r p a (List.pairwise_insertionSort r l), ih]
      cases hp : p a with
      | false => rw [if_neg (by simp), List.filter_cons_of_neg (by simp [hp])]
      | true => rw [if_pos rfl, List.filter_cons_of_pos hp, List.insertionSort_cons]

end MostroApp.Sorting
