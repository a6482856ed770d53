import Mathlib.Data.List.Nodup
import Mathlib.Data.List.Perm.Basic

set_option autoImplicit false

/-! # Records in a list, told apart by a key

A list of records whose keys differ is a map: a record is found by its key (`get`), takes the place
of the one of its key or goes to the end (`upsert`), and a list of records is laid over another
(`merge`). What is found under a key after these operations does not depend on the order.
-/

namespace MostroApp.Records

variable {α κ : Type} [DecidableEq κ] (key : α → κ)

def get (k : κ) (l : List α) : Option α := l.find? (key · = k)

def upsert (a : α) (l : List α) : List α :=
  if key a ∈ l.map key then l.map fun b => if key b = key a then a else b else l ++ [a]

/-- The records of `l`, with those of `l'` in their place or behind them. -/
def merge (l l' : List α) : List α := l'.foldl (fun l a => upsert key a l) l

variable {key} {k : κ} {a b : α} {l l' : List α}

/-! ## What is found -/

@[simp] theorem get_nil : get key k [] = none := rfl

theorem get_cons : get key k (a :: l) = if key a = k then some a else get key k l := by
  unfold get
  rw [List.find?_cons]
  by_cases h : key a = k <;> simp [h]

theorem key_of_get (h : get key k l = some a) : key a = k := by
  simpa using List.find?_some h

theorem mem_of_get (h : get key k l = some a) : a ∈ l := List.mem_of_find?_eq_some h

theorem get_eq_none : get key k l = none ↔ k ∉ l.map key := by
  unfold get
  rw [List.find?_eq_none]
  simp [List.mem_map]

theorem get_append : get key k (l ++ l') = (get key k l).or (get key k l') := List.find?_append

theorem get_eq_some (hn : (l.map key).Nodup) : get key k l = some a ↔ a ∈ l ∧ key a = k := by
  refine ⟨fun h => ⟨mem_of_get h, key_of_get h⟩, ?_⟩
  rintro ⟨ha, rfl⟩
  induction l with
  | nil => cases ha
  | cons b l ih =>
      obtain ⟨hb, hn⟩ := List.nodup_cons.mp hn
      rw [get_cons]
      rcases List.mem_cons.mp ha with rfl | ha
      · exact if_pos rfl
      · have hne : key b ≠ key a := fun heq => hb (heq ▸ List.mem_map_of_mem ha)
        rw [if_neg hne]
        exact ih hn ha

/-- What is found does not depend on the order. -/
theorem get_perm (hn : (l.map key).Nodup) (h : l.Perm l') : get key k l = get key k l' := by
  have hn' : (l'.map key).Nodup := (h.map key).nodup_iff.mp hn
  refine Option.ext fun a => ?_
  rw [get_eq_some hn, get_eq_some hn', h.mem_iff]

/-! ## Filters and maps -/

theorem get_filter (p : κ → Bool) :
    get key k (l.filter fun a => p (key a)) = if p k then get key k l else none := by
  induction l with
  | nil => simp
  | cons a l ih =>
      by_cases ha : key a = k
      · subst ha
        rw [List.filter_cons]
        cases hp : p (key a) with
        | true => simp only [if_true, get_cons]
        | false =>
            rw [hp] at ih
            simpa using ih
      · have hrest : get key k (a :: l) = get key k l := by rw [get_cons, if_neg ha]
        rw [hrest, ← ih, List.filter_cons]
        cases p (key a) with
        | true => rw [if_pos rfl, get_cons, if_neg ha]
        | false => rfl

omit [DecidableEq κ] in
theorem nodup_filter (p : α → Bool) (h : (l.map key).Nodup) : ((l.filter p).map key).Nodup :=
  h.sublist (List.filter_sublist.map key)

theorem get_map {f : α → α} (hf : ∀ a, key (f a) = key a) :
    get key k (l.map f) = (get key k l).map f := by
  induction l with
  | nil => rfl
  | cons a l ih =>
      rw [List.map_cons, get_cons, get_cons, hf]
      by_cases ha : key a = k
      · rw [if_pos ha, if_pos ha]
        rfl
      · rw [if_neg ha, if_neg ha, ih]

omit [DecidableEq κ] in
theorem map_key {f : α → α} (hf : ∀ a, key (f a) = key a) : (l.map f).map key = l.map key := by
  rw [List.map_map]
  exact List.map_congr_left fun a _ => hf a

/-! ## Records laid over others -/

theorem key_replace (a b : α) : key (if key b = key a then a else b) = key b := by
  by_cases h : key b = key a
  · rw [if_pos h, h]
  · rw [if_neg h]

theorem get_upsert (a : α) (l : List α) :
    get key k (upsert key a l) = if key a = k then some a else get key k l := by
  unfold upsert
  by_cases hmem : key a ∈ l.map key
  · rw [if_pos hmem, get_map (key_replace a)]
    by_cases ha : key a = k
    · subst ha
      rw [if_pos rfl]
      cases hget : get key (key a) l with
      | none => exact absurd hmem (get_eq_none.mp hget)
      | some b =>
          rw [Option.map_some, if_pos (key_of_get hget)]
    · rw [if_neg ha]
      cases hget : get key k l with
      | none => rfl
      | some b =>
          have hb : key b ≠ key a := fun heq => ha (heq.symm.trans (key_of_get hget))
          rw [Option.map_some, if_neg hb]
  · rw [if_neg hmem, get_append, get_cons]
    by_cases ha : key a = k
    · subst ha
      rw [get_eq_none.mpr hmem, if_pos rfl, if_pos rfl]
      rfl
    · rw [if_neg ha, if_neg ha]
      cases get key k l <;> rfl

theorem nodup_upsert (a : α) (h : (l.map key).Nodup) : ((upsert key a l).map key).Nodup := by
  unfold upsert
  by_cases hmem : key a ∈ l.map key
  · rwa [if_pos hmem, map_key (key_replace a)]
  · rw [if_neg hmem, List.map_append]
    refine h.append (List.nodup_singleton _) ?_
    intro x hx hx'
    rw [List.map_singleton, List.mem_singleton] at hx'
    exact hmem (hx' ▸ hx)

theorem nodup_merge (h : (l.map key).Nodup) (l' : List α) : ((merge key l l').map key).Nodup := by
  unfold merge
  induction l' generalizing l with
  | nil => exact h
  | cons a l' ih => exact ih (nodup_upsert a h)

theorem get_merge (h' : (l'.map key).Nodup) :
    get key k (merge key l l') = (get key k l').or (get key k l) := by
  unfold merge
  induction l' generalizing l with
  | nil => rfl
  | cons a l' ih =>
      obtain ⟨ha, hn⟩ := List.nodup_cons.mp h'
      rw [List.foldl_cons, ih hn, get_upsert, get_cons]
      by_cases hk : key a = k
      · subst hk
        rw [get_eq_none.mpr ha, if_pos rfl, if_pos rfl]
        rfl
      · rw [if_neg hk, if_neg hk]

end MostroApp.Records
