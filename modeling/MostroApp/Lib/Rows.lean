import Mathlib.Data.List.AList

set_option autoImplicit false

/-! # Maps changed a key at a time

A map is changed at one key by a function of what it has there (`alter`), at every key
(`mapValues`), or stripped of the values that fail a test (`retain`). A list of steps that each
concern one key can be followed key by key: what is seen of a key after all of them is what the
steps of that key alone make of it (`Local.foldl`). When the list was built from rows, one group
of steps a row, the steps of a key are the group of its row (`filter_flatMap_of_mem`).
-/

namespace MostroApp.Rows

variable {κ α β σ ρ : Type} [DecidableEq κ]

theorem mem_values {m : AList fun _ : κ => β} {b : β} :
    b ∈ m.entries.map (fun e => e.2) ↔ ∃ k, m.lookup k = some b := by
  rw [List.mem_map]
  constructor
  · rintro ⟨e, he, rfl⟩
    exact ⟨e.1, AList.mem_lookup_iff.mpr he⟩
  · rintro ⟨k, hk⟩
    exact ⟨⟨k, b⟩, AList.mem_lookup_iff.mp hk, rfl⟩

/-- The values of a map are what is found under its keys. -/
theorem values_eq_filterMap (m : AList fun _ : κ => β) :
    m.entries.map (fun e => e.2) = m.keys.filterMap m.lookup := by
  show _ = (m.entries.map Sigma.fst).filterMap m.lookup
  rw [List.filterMap_map, ← List.filterMap_eq_map]
  refine List.filterMap_congr fun e he => ?_
  exact (AList.mem_lookup_iff.mpr he).symm

/-! ## Changing a map -/

/-- The map with what is under `k` replaced by `f` of it, where `none` is no entry. -/
def alter (k : κ) (f : Option β → Option β) (m : AList fun _ : κ => β) : AList fun _ : κ => β :=
  match f (m.lookup k) with
  | some b => m.insert k b
  | none => m.erase k

theorem lookup_alter (k : κ) (f : Option β → Option β) (m : AList fun _ : κ => β) :
    (alter k f m).lookup k = f (m.lookup k) := by
  unfold alter
  cases f (m.lookup k) with
  | some b => exact AList.lookup_insert m
  | none => exact AList.lookup_erase k m

theorem lookup_alter_ne {k k' : κ} (h : k' ≠ k) (f : Option β → Option β)
    (m : AList fun _ : κ => β) : (alter k f m).lookup k' = m.lookup k' := by
  unfold alter
  cases f (m.lookup k) with
  | some b => exact AList.lookup_insert_ne h
  | none => exact AList.lookup_erase_ne h

/-- The entries whose value passes the test. -/
def retain (p : β → Bool) (m : AList fun _ : κ => β) : AList fun _ : κ => β :=
  ⟨m.entries.filter fun e => p e.2, m.nodupKeys.sublist List.filter_sublist⟩

theorem lookup_retain (p : β → Bool) (m : AList fun _ : κ => β) (k : κ) :
    (retain p m).lookup k = (m.lookup k).filter p := by
  refine Option.ext fun b => ?_
  have hentry : b ∈ (retain p m).lookup k ↔ b ∈ m.lookup k ∧ p b = true := by
    rw [AList.mem_lookup_iff, AList.mem_lookup_iff]
    exact List.mem_filter
  rw [← Option.mem_def, hentry, ← Option.mem_def, Option.mem_filter_iff]

/-- Every value replaced by `f` of it. -/
def mapValues (f : β → σ) (m : AList fun _ : κ => β) : AList fun _ : κ => σ where
  entries := m.entries.map fun e => ⟨e.1, f e.2⟩
  nodupKeys := by
    have hkeys : (m.entries.map fun e => (⟨e.1, f e.2⟩ : Sigma fun _ : κ => σ)).keys =
        m.entries.keys := by
      unfold List.keys
      rw [List.map_map]
      rfl
    unfold List.NodupKeys
    rw [hkeys]
    exact m.nodupKeys

theorem lookup_mapValues (f : β → σ) (m : AList fun _ : κ => β) (k : κ) :
    (mapValues f m).lookup k = (m.lookup k).map f := by
  refine Option.ext fun b => ?_
  rw [← Option.mem_def, AList.mem_lookup_iff, Option.map_eq_some_iff]
  constructor
  · intro h
    obtain ⟨e, he, heq⟩ := List.mem_map.mp h
    obtain ⟨rfl, hb⟩ := Sigma.mk.inj heq
    exact ⟨e.2, AList.mem_lookup_iff.mpr he, eq_of_heq hb⟩
  · rintro ⟨a, ha, rfl⟩
    exact List.mem_map.mpr ⟨⟨k, a⟩, AList.mem_lookup_iff.mp ha, rfl⟩

/-! ## Steps of one key each -/

variable {step : σ → α → σ} {view : σ → κ → ρ} {key : α → κ} {eff : α → ρ → ρ}

/-- A step changes what is seen of its own key only. -/
structure Local (step : σ → α → σ) (view : σ → κ → ρ) (key : α → κ) (eff : α → ρ → ρ) :
    Prop where
  self : ∀ s a, view (step s a) (key a) = eff a (view s (key a))
  other : ∀ s a k, k ≠ key a → view (step s a) k = view s k

/-- **A key after a list of steps** is what its own steps make of it. -/
theorem Local.foldl (L : Local step view key eff) (l : List α) (s : σ) (k : κ) :
    view (l.foldl step s) k =
      (l.filter fun a => key a = k).foldl (fun r a => eff a r) (view s k) := by
  induction l generalizing s with
  | nil => rfl
  | cons a l ih =>
      rw [List.foldl_cons, ih]
      by_cases hk : key a = k
      · subst hk
        rw [List.filter_cons_of_pos (by simp), List.foldl_cons, L.self]
      · rw [List.filter_cons_of_neg (by simpa using hk), L.other s a k (Ne.symm hk)]

/-! ## Groups of steps -/

variable {xs : List β} {g : β → List α} {row : β → κ}

theorem filter_flatMap_eq_nil (hg : ∀ x, ∀ a ∈ g x, key a = row x) {k : κ}
    (hk : k ∉ xs.map row) : ((xs.flatMap g).filter fun a => key a = k) = [] := by
  refine List.filter_eq_nil_iff.mpr fun a ha => ?_
  obtain ⟨x, hx, hax⟩ := List.mem_flatMap.mp ha
  have hkey : key a ≠ k := fun e => hk (List.mem_map.mpr ⟨x, hx, (hg x a hax).symm.trans e⟩)
  simpa using hkey

/-- The steps of a row's key are the row's group. -/
theorem filter_flatMap_of_mem (hg : ∀ x, ∀ a ∈ g x, key a = row x) (hn : (xs.map row).Nodup)
    {x : β} (hx : x ∈ xs) : ((xs.flatMap g).filter fun a => key a = row x) = g x := by
  induction xs with
  | nil => cases hx
  | cons y ys ih =>
      rw [List.map_cons, List.nodup_cons] at hn
      rw [List.flatMap_cons, List.filter_append]
      by_cases hy : row y = row x
      · -- The row is the first: no later one has its key.
        have hxy : x = y := by
          rcases List.mem_cons.mp hx with h | h
          · exact h
          · exact absurd (List.mem_map.mpr ⟨x, h, hy.symm⟩) hn.1
        have hall : ((g y).filter fun a => key a = row x) = g y :=
          List.filter_eq_self.mpr fun a ha => by simpa using (hg y a ha).trans hy
        rw [hall, filter_flatMap_eq_nil hg (hy ▸ hn.1), List.append_nil, hxy]
      · have hxy : x ∈ ys := by
          rcases List.mem_cons.mp hx with h | h
          · exact absurd (congrArg row h).symm hy
          · exact h
        have hnone : ((g y).filter fun a => key a = row x) = [] :=
          List.filter_eq_nil_iff.mpr fun a ha => by
            have hne : key a ≠ row x := fun e => hy ((hg y a ha).symm.trans e)
            simpa using hne
        rw [hnone, List.nil_append, ih hn.2 hxy]

end MostroApp.Rows
