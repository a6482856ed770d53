import Mathlib.Data.Finset.Insert
import Mathlib.Data.Finset.Erase
import Mathlib.Data.List.DropRight
import Mathlib.Data.List.Nodup

set_option autoImplicit false

/-! # A first-in first-out window of ids

A window remembers the last `cap` ids that were new to it when they came (`remember`). A reader
feeds ids to a component one by one and collects those it reports as new (`feed`); `feed_inv` is
the induction over such a sequence. A component that keeps a set for lookups beside the queue has
the two in step when `Kept` holds.
-/

namespace MostroApp.Window

variable {α σ : Type}

/-! ## Feeding ids -/

/-- The state after a sequence of ids, and those of them that were reported as new. -/
def feed (step : σ → α → σ × Bool) : σ → List α → σ × List α
  | s, [] => (s, [])
  | s, x :: xs =>
      let r := step s x
      let rest := feed step r.1 xs
      (rest.1, if r.2 = true then x :: rest.2 else rest.2)

/-- The ids reported as new once `x` is fed. -/
def newsAfter (r : σ × Bool) (news : List α) (x : α) : List α :=
  if r.2 = true then news ++ [x] else news

/-- **The invariant rule** over the state and the ids reported as new so far. -/
theorem feed_inv {step : σ → α → σ × Bool} (Inv : σ → List α → Prop)
    (keep : ∀ s news x, Inv s news → Inv (step s x).1 (newsAfter (step s x) news x))
    {s : σ} {news : List α} (h : Inv s news) (xs : List α) :
    Inv (feed step s xs).1 (news ++ (feed step s xs).2) := by
  induction xs generalizing s news with
  | nil => exact (List.append_nil news).symm ▸ h
  | cons x xs ih =>
      have hnext := ih (keep s news x h)
      unfold newsAfter at hnext
      unfold feed
      by_cases hnew : (step s x).2 = true
      · simpa [hnew] using hnext
      · simpa [hnew] using hnext

/-! ## The last ids of a sequence -/

variable {cap : Nat} {w : List α} {x : α}

theorem rtake_of_length_le (h : w.length ≤ cap) : w.rtake cap = w := by
  unfold List.rtake
  rw [Nat.sub_eq_zero_of_le h, List.drop_zero]

/-- A full window makes room for a new id by its oldest one. -/
theorem rtake_full {y : α} (h : (y :: w).length = cap) :
    ((y :: w) ++ [x]).rtake cap = w ++ [x] := by
  subst h
  rw [List.length_cons, List.rtake_concat_succ]
  unfold List.rtake
  rw [List.length_cons, Nat.add_sub_cancel_left, List.drop_one, List.tail_cons]

/-- What a window forgets, it would forget later too. -/
theorem rtake_rtake_concat (cap : Nat) (l : List α) (x : α) :
    (l.rtake cap ++ [x]).rtake cap = (l ++ [x]).rtake cap := by
  cases cap with
  | zero => rw [List.rtake_zero, List.rtake_zero]
  | succ n =>
      rw [List.rtake_concat_succ, List.rtake_concat_succ]
      congr 1
      rw [List.rtake_eq_reverse_take_reverse, List.rtake_eq_reverse_take_reverse,
        List.rtake_eq_reverse_take_reverse, List.reverse_reverse, List.take_take,
        Nat.min_eq_left (Nat.le_succ n)]

/-! ## The window -/

/-- The window after an id, and whether the id was new to it. -/
def remember [DecidableEq α] (cap : Nat) (w : List α) (x : α) : List α × Bool :=
  if x ∈ w then (w, false) else ((w ++ [x]).rtake cap, true)

variable [DecidableEq α]

/-- A window that holds the last new ids holds the last ones after another id. -/
theorem remember_recent {news : List α} (h : w = news.rtake cap) :
    (remember cap w x).1 = (newsAfter (remember cap w x) news x).rtake cap := by
  unfold newsAfter remember
  by_cases hx : x ∈ w
  · rw [if_pos hx]
    exact h
  · rw [if_neg hx, h]
    exact rtake_rtake_concat cap news x

theorem remember_new : (remember cap w x).2 = true ↔ x ∉ w := by
  unfold remember
  by_cases h : x ∈ w
  · simp [h]
  · simp [h]

/-- **A component that remembers as the window does** holds the last ids it reported as new. -/
theorem feed_window (step : σ → α → σ × Bool) (order : σ → List α) (Ok : σ → Prop)
    (keep : ∀ s x, Ok s →
      Ok (step s x).1 ∧ (order (step s x).1, (step s x).2) = remember cap (order s) x)
    {s : σ} (h : Ok s) (hs : order s = []) (xs : List α) :
    Ok (feed step s xs).1 ∧ order (feed step s xs).1 = (feed step s xs).2.rtake cap := by
  have hstep : ∀ s news x, Ok s ∧ order s = news.rtake cap → Ok (step s x).1 ∧
      order (step s x).1 = (newsAfter (step s x) news x).rtake cap := by
    rintro s news x ⟨hok, hs⟩
    obtain ⟨hnext, hwindow⟩ := keep s x hok
    have hrecent := remember_recent (x := x) hs
    rw [← hwindow] at hrecent
    exact ⟨hnext, hrecent⟩
  have hstart : order s = ([] : List α).rtake cap := by rw [hs, List.rtake_nil]
  have hinv := feed_inv (fun s news => Ok s ∧ order s = news.rtake cap) hstep ⟨h, hstart⟩ xs
  rwa [List.nil_append] at hinv

/-! ## A set beside the queue -/

/-- The set and the queue hold the same ids, each once and no more than `cap` of them. -/
structure Kept (cap : Nat) (set : Finset α) (order : List α) : Prop where
  same : ∀ x, x ∈ set ↔ x ∈ order
  nodup : order.Nodup
  bounded : order.length ≤ cap

variable {set : Finset α} {order : List α}

omit [DecidableEq α] in
theorem kept_empty (cap : Nat) : Kept cap (∅ : Finset α) [] where
  same x := ⟨fun h => absurd h (Finset.notMem_empty x), fun h => absurd h List.not_mem_nil⟩
  nodup := List.nodup_nil
  bounded := Nat.zero_le cap

omit [DecidableEq α] in
theorem Kept.of_length {n : Nat} (h : Kept n set order) (hlen : order.length ≤ cap) :
    Kept cap set order := ⟨h.same, h.nodup, hlen⟩

theorem Kept.push (h : Kept cap set order) (hx : x ∉ set) :
    Kept (cap + 1) (insert x set) (order ++ [x]) where
  same y := by
    rw [Finset.mem_insert, List.mem_append, List.mem_singleton, h.same y]
    exact or_comm
  nodup := by
    have hx : x ∉ order := fun hmem => hx ((h.same x).mpr hmem)
    exact List.nodup_append_comm.mp (List.nodup_cons.mpr ⟨hx, h.nodup⟩)
  bounded := by
    have hlen := h.bounded
    rw [List.length_append, List.length_singleton]
    omega

theorem Kept.pop {y : α} (h : Kept (cap + 1) set (y :: order)) :
    Kept cap (set.erase y) order where
  same x := by
    obtain ⟨hy, -⟩ := List.nodup_cons.mp h.nodup
    rw [Finset.mem_erase, h.same x, List.mem_cons]
    constructor
    · rintro ⟨hne, heq | hmem⟩
      · exact absurd heq hne
      · exact hmem
    · intro hmem
      refine ⟨?_, Or.inr hmem⟩
      rintro rfl
      exact hy hmem
  nodup := (List.nodup_cons.mp h.nodup).2
  bounded := Nat.le_of_succ_le_succ h.bounded

end MostroApp.Window
