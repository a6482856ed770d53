import Mathlib.Data.List.Basic
import Mathlib.Order.Defs.LinearOrder
import Mathlib.Order.Lattice

set_option autoImplicit false

/-! # The newest of the values seen

Values are seen one after the other and one of them is held; another takes its place when its rank
is higher (`join`). Which value a sequence leaves depends on the set of values alone where no two
of them share a rank (`newest_congr`), and on the ranks alone otherwise (`rank_newest_congr`).
-/

namespace MostroApp.Newest

variable {α K : Type} [LinearOrder K]

/-- The held value after another one is seen. -/
def pick (rank : α → K) (held x : α) : α := if rank held < rank x then x else held

/-- The same where nothing may be held yet. -/
def join (rank : α → K) : Option α → α → Option α
  | none, x => some x
  | some held, x => some (pick rank held x)

/-- What is held after a sequence. -/
def newest (rank : α → K) (held : Option α) (l : List α) : Option α := l.foldl (join rank) held

variable {rank : α → K} {held : Option α} {l l' : List α} {r x : α}

@[simp] theorem newest_nil : newest rank held [] = held := rfl

theorem newest_cons : newest rank held (x :: l) = newest rank (join rank held x) l := rfl

theorem newest_append : newest rank held (l ++ l') = newest rank (newest rank held l) l' :=
  List.foldl_append

theorem join_some_iff {y : α} : join rank held x = some y ↔
    held = some y ∧ rank x ≤ rank y ∨ y = x ∧ ∀ z, held = some z → rank z < rank x := by
  cases held with
  | none =>
      constructor
      · intro h
        exact Or.inr ⟨(Option.some.inj h).symm, fun _ h => nomatch h⟩
      · rintro (⟨h, -⟩ | ⟨rfl, -⟩)
        · cases h
        · rfl
  | some z =>
      show some (if rank z < rank x then x else z) = some y ↔ _
      by_cases hlt : rank z < rank x
      · rw [if_pos hlt, Option.some.injEq]
        constructor
        · rintro rfl
          exact Or.inr ⟨rfl, fun z' hz' => Option.some.inj hz' ▸ hlt⟩
        · rintro (⟨h, hle⟩ | ⟨rfl, -⟩)
          · exact absurd (Option.some.inj h ▸ hlt) (not_lt.mpr hle)
          · rfl
      · rw [if_neg hlt, Option.some.injEq]
        constructor
        · rintro rfl
          exact Or.inl ⟨rfl, not_lt.mp hlt⟩
        · rintro (⟨h, -⟩ | ⟨rfl, habove⟩)
          · exact h
          · exact absurd (habove z rfl) hlt

theorem newest_eq_none : newest rank held l = none ↔ held = none ∧ l = [] := by
  induction l generalizing held with
  | nil => simp
  | cons x l ih =>
      rw [newest_cons, ih]
      constructor
      · rintro ⟨h, -⟩
        cases held <;> cases h
      · rintro ⟨-, h⟩
        cases h

theorem pick_assoc (rank : α → K) (a b c : α) :
    pick rank (pick rank a b) c = pick rank a (pick rank b c) := by
  unfold pick
  by_cases hab : rank a < rank b <;> by_cases hbc : rank b < rank c
  · rw [if_pos hab, if_pos hbc, if_pos (lt_trans hab hbc)]
  · rw [if_pos hab, if_neg hbc, if_pos hab]
  · rw [if_neg hab, if_pos hbc]
  · have hac : ¬ rank a < rank c := fun h => hab (lt_of_lt_of_le h (not_lt.mp hbc))
    rw [if_neg hab, if_neg hbc, if_neg hac, if_neg hab]

/-- A sequence may be gone through on its own first, and only its newest value be joined in. -/
theorem newest_eq_join (held : Option α) (l : List α) :
    newest rank held l = (newest rank none l).elim held (join rank held) := by
  have some_held : ∀ (l : List α) (a b : α), newest rank (some (pick rank a b)) l =
      (newest rank (some b) l).map (pick rank a) := by
    intro l
    induction l with
    | nil => exact fun a b => rfl
    | cons x l ih =>
        intro a b
        show newest rank (some (pick rank (pick rank a b) x)) l = _
        rw [pick_assoc, ih]
        rfl
  cases l with
  | nil => rfl
  | cons x l =>
      cases held with
      | none =>
          cases h : newest rank none (x :: l) with
          | none => rfl
          | some r => rfl
      | some a =>
          show newest rank (some (pick rank a x)) l = _
          rw [some_held l a x]
          show _ = (newest rank (some x) l).elim (some a) (join rank (some a))
          cases h : newest rank (some x) l with
          | none => exact nomatch (newest_eq_none.mp h).1
          | some r => rfl

/-- What is left of a sequence: the value held before it, or one of the sequence that ranks above
that; and nothing ranks above it. -/
structure Left (rank : α → K) (held : Option α) (l : List α) (r : α) : Prop where
  source : held = some r ∨ r ∈ l ∧ ∀ y, held = some y → rank y < rank r
  above : ∀ x ∈ l, rank x ≤ rank r

/-- **What a sequence leaves** is among the highest. -/
theorem newest_left (h : newest rank held l = some r) : Left rank held l r := by
  induction l generalizing held with
  | nil => exact ⟨Or.inl h, fun _ h => absurd h List.not_mem_nil⟩
  | cons x l ih =>
      have hleft := ih h
      have hbase : ∀ y, join rank held x = some y → rank x ≤ rank y ∧
          ∀ z, held = some z → z = y ∨ rank z < rank y := by
        intro y hy
        rcases join_some_iff.mp hy with ⟨rfl, hle⟩ | ⟨rfl, hlt⟩
        · exact ⟨hle, fun z hz => Or.inl (Option.some.inj hz).symm⟩
        · exact ⟨le_rfl, fun z hz => Or.inr (hlt z hz)⟩
      -- The value held after `x` ranks no higher than the one left.
      obtain ⟨y, hy⟩ : ∃ y, join rank held x = some y := by cases held <;> exact ⟨_, rfl⟩
      have hyr : y = r ∨ rank y < rank r := by
        rcases hleft.source with h | ⟨-, hlt⟩
        · exact Or.inl (Option.some.inj (hy.symm.trans h))
        · exact Or.inr (hlt y hy)
      have hle : rank y ≤ rank r := hyr.elim (fun h => h ▸ le_rfl) le_of_lt
      refine ⟨?_, fun z hz => ?_⟩
      · rcases hleft.source with hheld | ⟨hmem, hlt⟩
        · rcases join_some_iff.mp hheld with ⟨h, -⟩ | ⟨rfl, hlt⟩
          · exact Or.inl h
          · exact Or.inr ⟨List.mem_cons_self, hlt⟩
        · refine Or.inr ⟨List.mem_cons_of_mem x hmem, fun z hz => ?_⟩
          rcases (hbase y hy).2 z hz with rfl | hz
          · exact hlt z hy
          · exact lt_of_lt_of_le hz hle
      · rcases List.mem_cons.mp hz with rfl | hz
        · exact le_trans (hbase y hy).1 hle
        · exact hleft.above z hz

theorem rank_le_newest (h : newest rank held l = some r) {y : α} (hy : held = some y) :
    rank y ≤ rank r := by
  rcases (newest_left h).source with heq | ⟨-, hlt⟩
  · exact (Option.some.inj (hy.symm.trans heq)) ▸ le_rfl
  · exact le_of_lt (hlt y hy)

/-- A value that nothing ranks above is held. -/
theorem newest_eq_held {a : α} (h : ∀ x ∈ l, rank x ≤ rank a) :
    newest rank (some a) l = some a := by
  cases hl : newest rank (some a) l with
  | none => exact nomatch (newest_eq_none.mp hl).1
  | some r =>
      rcases (newest_left hl).source with heq | ⟨hr, hlt⟩
      · exact heq.symm
      · exact absurd (hlt a rfl) (not_lt.mpr (h r hr))

/-- Sequences of the same values leave values of one rank. -/
theorem rank_newest_congr (hmem : ∀ x, x ∈ l ↔ x ∈ l') {r' : α}
    (h : newest rank held l = some r) (h' : newest rank held l' = some r') : rank r = rank r' := by
  have half : ∀ {l l' : List α} {r r' : α}, (∀ x, x ∈ l → x ∈ l') →
      newest rank held l = some r → newest rank held l' = some r' → rank r ≤ rank r' := by
    intro l l' r r' hsub h h'
    rcases (newest_left h).source with heq | ⟨hr, -⟩
    · exact rank_le_newest h' heq
    · exact (newest_left h').above r (hsub r hr)
  exact le_antisymm (half (fun x => (hmem x).mp) h h') (half (fun x => (hmem x).mpr) h' h)

/-- **Sequences of the same values leave the same one**, where a rank names a value. -/
theorem newest_congr (hmem : ∀ x, x ∈ l ↔ x ∈ l')
    (hrank : ∀ x ∈ l, ∀ y ∈ l, rank x = rank y → x = y) :
    newest rank held l = newest rank held l' := by
  cases h : newest rank held l with
  | none =>
      obtain ⟨hheld, hl⟩ := newest_eq_none.mp h
      have hl' : l' = [] := by
        refine List.eq_nil_iff_forall_not_mem.mpr fun x hx => ?_
        have := (hmem x).mpr hx
        rw [hl] at this
        cases this
      exact (newest_eq_none.mpr ⟨hheld, hl'⟩).symm
  | some r =>
      cases h' : newest rank held l' with
      | none =>
          obtain ⟨hheld, hl'⟩ := newest_eq_none.mp h'
          rcases (newest_left h).source with heq | ⟨hr, -⟩
          · exact nomatch hheld.symm.trans heq
          · have := (hmem r).mp hr
            rw [hl'] at this
            cases this
      | some r' =>
          have heq := rank_newest_congr hmem h h'
          -- A value of the sequence ranks above what was held before it, so both or none is it.
          rcases (newest_left h).source with hr | ⟨hr, hlt⟩ <;>
            rcases (newest_left h').source with hr' | ⟨hr', hlt'⟩
          · exact hr.symm.trans hr'
          · exact absurd heq (ne_of_lt (hlt' r hr))
          · exact absurd heq (ne_of_gt (hlt r' hr'))
          · exact congrArg some (hrank r hr r' ((hmem r').mpr hr') heq)

end MostroApp.Newest
