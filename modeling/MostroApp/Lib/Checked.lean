import Mathlib.Data.List.Basic

set_option autoImplicit false

/-! # Computations that fail or give a value

How a sequence of such computations ends: well when all of them do, and with the failure of the
first one that fails.
-/

namespace MostroApp.Checked

variable {ε δ α β : Type}

/-- A sequence ends well when both parts do. -/
theorem bind_eq_ok {x : Except ε α} {rest : α → Except ε β} {b : β} :
    (x >>= rest) = .ok b ↔ ∃ a, x = .ok a ∧ rest a = .ok b := by
  cases x <;> simp [bind, Except.bind]

/-- A sequence fails where its first part does, or where the rest does. -/
theorem bind_eq_error {x : Except ε α} {rest : α → Except ε β} {e : ε} :
    (x >>= rest) = .error e ↔ x = .error e ∨ ∃ a, x = .ok a ∧ rest a = .error e := by
  cases x <;> simp [bind, Except.bind]

theorem mapError_eq_ok {x : Except ε α} {f : ε → δ} {a : α} :
    x.mapError f = .ok a ↔ x = .ok a := by
  cases x <;> simp [Except.mapError]

theorem mapError_eq_error {x : Except ε α} {f : ε → δ} {e : δ} :
    x.mapError f = .error e ↔ ∃ e', x = .error e' ∧ f e' = e := by
  cases x <;> simp [Except.mapError]

/-! ## Conditions -/

/-- Fails unless a condition holds. -/
def require (condition : Prop) [Decidable condition] (error : ε) : Except ε Unit :=
  if condition then .ok () else .error error

theorem require_eq_ok {condition : Prop} [Decidable condition] {error : ε} {a : Unit} :
    require condition error = .ok a ↔ condition := by
  unfold require
  split <;> simp [*]

/-! ## Lists -/

theorem mapM_eq_ok {f : α → Except ε β} {l : List α} {bs : List β} (h : l.mapM f = .ok bs) :
    List.Forall₂ (fun a b => f a = .ok b) l bs := by
  induction l generalizing bs with
  | nil =>
      cases h
      exact .nil
  | cons a l ih =>
      rw [List.mapM_cons] at h
      obtain ⟨b, hb, h⟩ := bind_eq_ok.mp h
      obtain ⟨bs, hbs, h⟩ := bind_eq_ok.mp h
      cases h
      exact .cons hb (ih hbs)

theorem mapM_eq_error {f : α → Except ε β} {l : List α} {e : ε} (h : l.mapM f = .error e) :
    ∃ a ∈ l, f a = .error e := by
  induction l with
  | nil => cases h
  | cons a l ih =>
      rw [List.mapM_cons] at h
      rcases bind_eq_error.mp h with h | ⟨b, -, h⟩
      · exact ⟨a, List.mem_cons_self, h⟩
      · rcases bind_eq_error.mp h with h | ⟨bs, -, h⟩
        · obtain ⟨a', ha', h⟩ := ih h
          exact ⟨a', List.mem_cons_of_mem a ha', h⟩
        · cases h

/-- A fold ends well when each of its steps does, wherever it stands. -/
theorem foldlM_ok_iff {f : β → α → Except ε β} {good : α → Prop}
    (hf : ∀ b a, (∃ c, f b a = .ok c) ↔ good a) {b : β} {l : List α} :
    (∃ c, l.foldlM f b = .ok c) ↔ ∀ a ∈ l, good a := by
  induction l generalizing b with
  | nil => exact ⟨fun _ _ h => absurd h List.not_mem_nil, fun _ => ⟨b, rfl⟩⟩
  | cons a l ih =>
      simp only [List.foldlM_cons, bind_eq_ok, List.forall_mem_cons]
      constructor
      · rintro ⟨c, d, hd, hc⟩
        exact ⟨(hf b a).mp ⟨d, hd⟩, ih.mp ⟨c, hc⟩⟩
      · rintro ⟨hgood, hrest⟩
        obtain ⟨d, hd⟩ := (hf b a).mpr hgood
        obtain ⟨c, hc⟩ := (ih (b := d)).mpr hrest
        exact ⟨c, d, hd, hc⟩

end MostroApp.Checked
