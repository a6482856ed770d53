import Mathlib.Data.List.Perm.Basic
import Mathlib.Data.List.Nodup

set_option autoImplicit false

/-! # A register behind a high-water mark

A register holds a value and the timestamp of the newest message it accepted. A message that
advances the mark is accepted unless it is older than the mark, and then acts on the value as
its own effect says; any other message does nothing. The file answers one question: when does
the order in which a set of messages arrives not matter for the final value?

In every order the newest advancing message `M` is accepted, and nothing after it is. What it
acts on is whatever the messages before it left. Where every other effect either keeps the
value or overwrites it, that is the initial value or one overwritten by a single message, so
the order is irrelevant exactly when `M` cannot tell them apart (`run_perm_iff`).
-/

namespace MostroApp.HighWater

variable {β μ : Type}

/-- What the register needs to know about its messages. -/
structure Spec (β μ : Type) where
  ts : μ → Int
  /-- Whether the message moves the mark when accepted. -/
  advances : μ → Bool
  eff : μ → β → β

structure Reg (β : Type) where
  value : β
  mark : Option Int

namespace Spec

variable (R : Spec β μ)

def step (x : Reg β) (m : μ) : Reg β :=
  if R.advances m = true ∧ x.mark.any (R.ts m < ·) = false then
    ⟨R.eff m x.value, some (R.ts m)⟩
  else x

/-- The messages of a list, in its order. -/
def run (x : Reg β) (l : List μ) : Reg β := l.foldl R.step x

/-- `M` is the newest of the advancing messages of `l`. -/
structure Newest (M : μ) (l : List μ) : Prop where
  mem : M ∈ l
  advances : R.advances M = true
  max : ∀ m ∈ l, R.advances m = true → R.ts m ≤ R.ts M

variable {R}

/-! ## Steps -/

@[simp] theorem run_nil (x : Reg β) : R.run x [] = x := rfl

@[simp] theorem run_cons (x : Reg β) (m : μ) (l : List μ) :
    R.run x (m :: l) = R.run (R.step x m) l := rfl

theorem step_accept {x : Reg β} {m : μ} (ha : R.advances m = true)
    (hm : x.mark.any (R.ts m < ·) = false) : R.step x m = ⟨R.eff m x.value, some (R.ts m)⟩ := by
  unfold step
  rw [if_pos ⟨ha, hm⟩]

theorem step_idle {x : Reg β} {m : μ} (h : R.advances m = true → x.mark.any (R.ts m < ·) = true) :
    R.step x m = x := by
  unfold step
  refine if_neg fun hc => ?_
  have := h hc.1
  simp [hc.2] at this

/-- A run of messages none of which is accepted changes nothing. -/
theorem run_idle {x : Reg β} {l : List μ}
    (h : ∀ m ∈ l, R.advances m = true → x.mark.any (R.ts m < ·) = true) : R.run x l = x := by
  induction l with
  | nil => rfl
  | cons m l ih =>
      rw [run_cons, step_idle (h m List.mem_cons_self)]
      exact ih fun m' hm' => h m' (List.mem_cons_of_mem _ hm')

/-! ## The newest message decides -/

/-- Where some message advances the mark, one of them is the newest. -/
theorem exists_newest {l : List μ} (h : ∃ m ∈ l, R.advances m = true) : ∃ M, Newest R M l := by
  induction l with
  | nil =>
      obtain ⟨m, hm, -⟩ := h
      cases hm
  | cons a l ih =>
      by_cases hl : ∃ m ∈ l, R.advances m = true
      · obtain ⟨M, hM⟩ := ih hl
        by_cases ha : R.advances a = true ∧ R.ts M < R.ts a
        · refine ⟨a, List.mem_cons_self, ha.1, fun m hm hadv => ?_⟩
          rcases List.mem_cons.mp hm with rfl | hm
          · exact Int.le_refl _
          · have := hM.max m hm hadv
            omega
        · refine ⟨M, List.mem_cons_of_mem _ hM.mem, hM.advances, fun m hm hadv => ?_⟩
          rcases List.mem_cons.mp hm with rfl | hm
          · exact Int.not_lt.mp fun hlt => ha ⟨hadv, hlt⟩
          · exact hM.max m hm hadv
      · obtain ⟨m, hm, hadv⟩ := h
        rcases List.mem_cons.mp hm with rfl | hm
        · refine ⟨m, List.mem_cons_self, hadv, fun m' hm' hadv' => ?_⟩
          rcases List.mem_cons.mp hm' with rfl | hm'
          · exact Int.le_refl _
          · exact absurd ⟨m', hm', hadv'⟩ hl
        · exact absurd ⟨m, hm, hadv⟩ hl

/-- Two newest messages of a list with distinct timestamps are one. -/
theorem Newest.eq {M m : μ} {l : List μ} (hM : Newest R M l) (hm : Newest R m l)
    (hnd : (l.map R.ts).Nodup) : m = M :=
  List.inj_on_of_nodup_map hnd hm.mem hM.mem
    (Int.le_antisymm (hM.max m hm.mem hm.advances) (hm.max M hM.mem hM.advances))

/-- The values the newest message `M` of `l` can find: the initial one, or the one another
message of `l` makes of it. -/
def Found (R : Spec β μ) (M : μ) (l : List μ) (v₀ v : β) : Prop :=
  v = v₀ ∨ ∃ m ∈ l, R.advances m = true ∧ m ≠ M ∧ v = R.eff m v₀

/-- Every message of `l` but `M` keeps the value or overwrites it. -/
def Overwrites (R : Spec β μ) (M : μ) (l : List μ) (v₀ : β) : Prop :=
  ∀ m ∈ l, R.advances m = true → m ≠ M → ∀ v, R.eff m v = v ∨ R.eff m v = R.eff m v₀

theorem Overwrites.found {M m : μ} {l : List μ} {v₀ v : β} (hw : Overwrites R M l v₀)
    (hm : m ∈ l) (ha : R.advances m = true) (hne : m ≠ M) (hv : Found R M l v₀ v) :
    Found R M l v₀ (R.eff m v) := by
  rcases hw m hm ha hne v with h | h
  · rw [h]
    exact hv
  · exact Or.inr ⟨m, hm, ha, hne, h⟩

/-- The run of a part `l` of `L` that still holds `M`. The induction is on `l`; the mark stays
below `M`'s timestamp until `M` itself is accepted. -/
theorem run_newest_aux {M : μ} {L : List μ} {v₀ : β} (hw : Overwrites R M L v₀)
    (haM : R.advances M = true) {l : List μ} {x : Reg β} (hsub : ∀ m ∈ l, m ∈ L)
    (hmax : ∀ m ∈ l, R.advances m = true → R.ts m ≤ R.ts M) (hnd : (l.map R.ts).Nodup)
    (hM : M ∈ l) (hx : Found R M L v₀ x.value) (hmark : ∀ c, x.mark = some c → c < R.ts M) :
    ∃ v, Found R M L v₀ v ∧ (R.run x l).value = R.eff M v := by
  induction l generalizing x with
  | nil => cases hM
  | cons m l ih =>
      rw [List.map_cons, List.nodup_cons] at hnd
      by_cases hm : m = M
      · subst hm
        have hacc : x.mark.any (R.ts m < ·) = false := by
          cases hk : x.mark with
          | none => rfl
          | some c =>
              have := hmark c hk
              simp only [Option.any_some, decide_eq_false_iff_not]
              omega
        refine ⟨x.value, hx, ?_⟩
        -- everything after `M` is older than the mark it left
        rw [run_cons, step_accept haM hacc, run_idle]
        intro m' hm' ha'
        have hle := hmax m' (List.mem_cons_of_mem _ hm') ha'
        have hne : R.ts m' ≠ R.ts m := fun e => hnd.1 (List.mem_map.mpr ⟨m', hm', e⟩)
        have : R.ts m' < R.ts m := by omega
        simpa using this
      · have hMl : M ∈ l := by
          rcases List.mem_cons.mp hM with h | h
          · exact absurd h.symm hm
          · exact h
        rw [run_cons]
        have hmL := hsub m List.mem_cons_self
        refine ih (fun a ha => hsub a (List.mem_cons_of_mem _ ha))
          (fun a ha => hmax a (List.mem_cons_of_mem _ ha)) hnd.2 hMl ?_ ?_
        · unfold step
          split
          · next h => exact hw.found hmL h.1 hm hx
          · exact hx
        · intro c hc
          unfold step at hc
          split at hc
          · next h =>
            have hle := hmax m List.mem_cons_self h.1
            have hne : R.ts m ≠ R.ts M := fun e => hnd.1 (List.mem_map.mpr ⟨M, hMl, e.symm⟩)
            have : R.ts m = c := by simpa using hc
            omega
          · exact hmark c hc

/-- The final value is what the newest message makes of a value it can find. -/
theorem run_newest {M : μ} {l : List μ} {v₀ : β} (hM : Newest R M l)
    (hnd : (l.map R.ts).Nodup) (hw : Overwrites R M l v₀) :
    ∃ v, Found R M l v₀ v ∧ (R.run ⟨v₀, none⟩ l).value = R.eff M v :=
  run_newest_aux hw hM.advances (fun _ h => h) hM.max hnd hM.mem (Or.inl rfl) (by simp)

/-- With the newest message first, it finds the initial value. -/
theorem run_newest_first {M : μ} {l : List μ} {v₀ : β}
    (hold : ∀ m ∈ l, R.advances m = true → R.ts m < R.ts M) (haM : R.advances M = true) :
    (R.run ⟨v₀, none⟩ (M :: l)).value = R.eff M v₀ := by
  rw [run_cons, step_accept haM rfl, run_idle]
  intro m hm ha
  simpa using hold m hm ha

/-- With one older message before it, it finds that message's value. -/
theorem run_newest_second {M m : μ} {l : List μ} {v₀ : β}
    (hold : ∀ a ∈ m :: l, R.advances a = true → R.ts a < R.ts M) (haM : R.advances M = true)
    (ha : R.advances m = true) :
    (R.run ⟨v₀, none⟩ (m :: M :: l)).value = R.eff M (R.eff m v₀) := by
  have hlt := hold m List.mem_cons_self ha
  have hacc : (some (R.ts m)).any (R.ts M < ·) = false := by
    simp only [Option.any_some, decide_eq_false_iff_not]
    omega
  rw [run_cons, step_accept ha rfl, run_cons, step_accept haM hacc, run_idle]
  intro a hal haa
  simpa using hold a (List.mem_cons_of_mem _ hal) haa

theorem Newest.perm {M : μ} {l l' : List μ} (hM : Newest R M l) (h : l'.Perm l) :
    Newest R M l' :=
  ⟨h.mem_iff.mpr hM.mem, hM.advances, fun m hm => hM.max m (h.mem_iff.mp hm)⟩

theorem Overwrites.perm {M : μ} {l l' : List μ} {v₀ : β} (hw : Overwrites R M l v₀)
    (h : l'.Perm l) : Overwrites R M l' v₀ :=
  fun m hm => hw m (h.mem_iff.mp hm)

/-- Two distinct members of a list can be brought to its front. -/
theorem exists_perm_cons_cons {M m : μ} {l : List μ} (hM : M ∈ l) (hm : m ∈ l) (hne : m ≠ M) :
    ∃ k, l.Perm (M :: m :: k) := by
  obtain ⟨s, t, rfl⟩ := List.append_of_mem hM
  have hst : m ∈ s ++ t := by
    rcases List.mem_append.mp hm with h | h
    · exact List.mem_append.mpr (Or.inl h)
    · rcases List.mem_cons.mp h with h | h
      · exact absurd h hne
      · exact List.mem_append.mpr (Or.inr h)
  obtain ⟨s', t', hs⟩ := List.append_of_mem hst
  refine ⟨s' ++ t', List.perm_middle.trans (List.Perm.cons M ?_)⟩
  rw [hs]
  exact List.perm_middle

/-- **When the order of arrival does not matter.** Over messages with distinct timestamps that
all but the newest keep or overwrite the value, every order ends in the same value exactly
when the newest one makes the same of the initial value and of every other message's. -/
theorem run_perm_iff {M : μ} {l : List μ} {v₀ : β} (hM : Newest R M l)
    (hnd : (l.map R.ts).Nodup) (hw : Overwrites R M l v₀) :
    (∀ l', l'.Perm l → (R.run ⟨v₀, none⟩ l').value = (R.run ⟨v₀, none⟩ l).value) ↔
      ∀ m ∈ l, R.advances m = true → m ≠ M → R.eff M (R.eff m v₀) = R.eff M v₀ := by
  constructor
  · intro h m hm ha hne
    obtain ⟨k, hk⟩ := exists_perm_cons_cons hM.mem hm hne
    have hnd' : ((M :: m :: k).map R.ts).Nodup := (hk.map R.ts).nodup_iff.mp hnd
    have hold : ∀ a ∈ m :: k, R.advances a = true → R.ts a < R.ts M := by
      intro a hak haa
      have hle := hM.max a (hk.mem_iff.mpr (List.mem_cons_of_mem _ hak)) haa
      have hne : R.ts a ≠ R.ts M := fun e =>
        (List.nodup_cons.mp hnd').1 (List.mem_map.mpr ⟨a, hak, e⟩)
      omega
    have h1 := h (M :: m :: k) hk.symm
    have h2 := h (m :: M :: k) ((List.Perm.swap M m k).trans hk.symm)
    rw [run_newest_first hold hM.advances] at h1
    rw [run_newest_second hold hM.advances ha] at h2
    rw [h1, h2]
  · intro h l' hl'
    have final : ∀ k, k.Perm l → (R.run ⟨v₀, none⟩ k).value = R.eff M v₀ := by
      intro k hk
      obtain ⟨v, hv, hrun⟩ := run_newest (hM.perm hk) ((hk.map R.ts).nodup_iff.mpr hnd)
        (hw.perm hk)
      rw [hrun]
      rcases hv with rfl | ⟨m, hm, ha, hne, rfl⟩
      · rfl
      · exact h m (hk.mem_iff.mp hm) ha hne
    rw [final l' hl', final l (List.Perm.refl l)]

end Spec

end MostroApp.HighWater
