import Mathlib.Data.List.AList

set_option autoImplicit false

/-! # Maps collected from keyed values

A list of values that carry their key is collected into a map by inserting them one after the
other, so the last of one key stays (`collect`). Collecting the values of a map in any order gives
the map back (`lookup_collect_values`).
-/

namespace MostroApp.Collect

variable {κ α β : Type} [DecidableEq κ] {key : α → κ} {f : α → β}

/-- The map of a list's values, each under its key. -/
def collect (key : α → κ) (f : α → β) (l : List α) : AList fun _ : κ => β :=
  l.foldl (fun m a => m.insert (key a) (f a)) ∅

theorem lookup_foldl_insert {l : List α} {k : κ} (h : k ∉ l.map key)
    (m : AList fun _ : κ => β) :
    (l.foldl (fun m a => m.insert (key a) (f a)) m).lookup k = m.lookup k := by
  induction l generalizing m with
  | nil => rfl
  | cons a l ih =>
      rw [List.map_cons, List.mem_cons, not_or] at h
      exact (ih h.2 _).trans (AList.lookup_insert_ne h.1)

theorem lookup_collect_eq_none {l : List α} {k : κ} (h : k ∉ l.map key) :
    (collect key f l).lookup k = none :=
  lookup_foldl_insert h ∅

theorem lookup_collect {l : List α} {a : α} (hn : (l.map key).Nodup) (ha : a ∈ l) :
    (collect key f l).lookup (key a) = some (f a) := by
  unfold collect
  generalize (∅ : AList fun _ : κ => β) = m
  induction l generalizing m with
  | nil => cases ha
  | cons b l ih =>
      rw [List.map_cons, List.nodup_cons] at hn
      rcases List.mem_cons.mp ha with rfl | ha
      · exact (lookup_foldl_insert hn.1 _).trans (AList.lookup_insert m)
      · exact ih hn.2 ha _

/-- What is collected under a key carries it. -/
theorem lookup_collect_key {l : List α} {k : κ} {a : α}
    (h : (collect key id l).lookup k = some a) : key a = k := by
  have keyed : ∀ (l : List α) (m : AList fun _ : κ => α),
      (∀ k a, m.lookup k = some a → key a = k) →
      ∀ k a, (l.foldl (fun m a => m.insert (key a) (id a)) m).lookup k = some a → key a = k := by
    intro l
    induction l with
    | nil => exact fun m hm => hm
    | cons b l ih =>
        refine fun m hm => ih _ fun k a hk => ?_
        by_cases hb : k = key b
        · subst hb
          rw [AList.lookup_insert] at hk
          exact (Option.some.inj hk) ▸ rfl
        · exact hm k a ((AList.lookup_insert_ne hb).symm.trans hk)
  exact keyed l ∅ nofun k a h

/-- The values of a map. -/
def values (m : AList fun _ : κ => α) : List α := m.entries.map (·.2)

/-- **The values of a map, collected again**, are what the map has. -/
theorem lookup_collect_values {m : AList fun _ : κ => α} {l : List α}
    (hkey : ∀ k a, m.lookup k = some a → key a = k) (hl : l.Perm (values m)) (k : κ) :
    (collect key f l).lookup k = (m.lookup k).map f := by
  have hvalues : (l.map key).Perm m.keys := by
    refine (hl.map key).trans (List.Perm.of_eq ?_)
    unfold values AList.keys List.keys
    rw [List.map_map]
    refine List.map_congr_left fun e he => hkey e.1 e.2 ?_
    exact AList.mem_lookup_iff.mpr he
  have hn : (l.map key).Nodup := hvalues.nodup_iff.mpr m.keys_nodup
  cases hk : m.lookup k with
  | none =>
      refine lookup_collect_eq_none fun hmem => ?_
      exact AList.lookup_eq_none.mp hk (AList.mem_keys.mpr (hvalues.mem_iff.mp hmem))
  | some a =>
      have ha : a ∈ l :=
        hl.mem_iff.mpr (List.mem_map.mpr ⟨⟨k, a⟩, AList.mem_lookup_iff.mp hk, rfl⟩)
      have := lookup_collect (f := f) hn ha
      rwa [hkey k a hk] at this

end MostroApp.Collect
