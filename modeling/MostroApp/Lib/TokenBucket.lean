import Mathlib.Algebra.Order.Field.Basic
import Mathlib.Tactic.Linarith
import Mathlib.Tactic.Ring

set_option autoImplicit false

/-! # Token buckets

A bucket holds at most `capacity` tokens and gains `rate` of them in a unit of time; an arrival
takes one token or is turned away. The refill is lazy: it happens when the next arrival looks.
Over arrivals in order, the bucket lets no window have more than its capacity and what the window's
length earns (`taken_conforming`), and arrivals that keep to that bound all get their token
(`full_taken`).
-/

namespace MostroApp.Metering

variable {K : Type} [LinearOrder K]

/-! ## Counting in windows -/

/-- The number of instants in the closed window. -/
def within (a e : K) (ts : List K) : Nat := ts.countP fun t => a ≤ t ∧ t ≤ e

variable {a e now : K} {ts : List K}

theorem within_nil : within a e [] = 0 := rfl

theorem within_cons_of_mem (ha : a ≤ now) (he : now ≤ e) :
    within a e (now :: ts) = within a e ts + 1 :=
  List.countP_cons_of_pos (decide_eq_true ⟨ha, he⟩)

theorem within_cons_of_lt (h : now < a) : within a e (now :: ts) = within a e ts :=
  List.countP_cons_of_neg fun hmem => absurd (of_decide_eq_true hmem).1 (not_le.mpr h)

theorem within_sublist {us : List K} (h : us.Sublist ts) : within a e us ≤ within a e ts :=
  h.countP_le

/-- A window that ends before the first of the arrivals is empty. -/
theorem within_of_lt (h : ∀ t ∈ ts, e < t) : within a e ts = 0 :=
  List.countP_eq_zero.mpr fun t ht hmem =>
    absurd (of_decide_eq_true hmem).2 (not_le.mpr (h t ht))

/-- Where the window opens does not matter before the first arrival. -/
theorem within_congr {c : K} (ha : ∀ t ∈ ts, a ≤ t) (hc : ∀ t ∈ ts, c ≤ t) :
    within a e ts = within c e ts :=
  List.countP_congr fun t ht => by simp [ha t ht, hc t ht]

theorem first_le (hts : (now :: ts).Pairwise (· ≤ ·)) : ∀ t ∈ now :: ts, now ≤ t := by
  intro t ht
  rcases List.mem_cons.mp ht with rfl | ht
  · exact le_refl t
  · exact (List.pairwise_cons.mp hts).1 t ht

/-! ## The bucket -/

/-- The tokens as they stood at the instant `last`. -/
structure Bucket (K : Type) where
  tokens : K
  last : K
  deriving DecidableEq

variable [CommRing K]

/-- The bucket at the instant `now`. An instant before the last one earns nothing. -/
def Bucket.refill (capacity rate now : K) (b : Bucket K) : Bucket K :=
  ⟨min (b.tokens + max (now - b.last) 0 * rate) capacity, now⟩

/-- Take one token at `now`, if a whole one is there. -/
def Bucket.take (capacity rate now : K) (b : Bucket K) : Bucket K × Bool :=
  let b := b.refill capacity rate now
  if 1 ≤ b.tokens then ({ b with tokens := b.tokens - 1 }, true) else (b, false)

/-- The arrivals that get a token. -/
def Bucket.taken (capacity rate : K) : Bucket K → List K → List K
  | _, [] => []
  | b, now :: ts =>
      let r := b.take capacity rate now
      if r.2 then now :: r.1.taken capacity rate ts else r.1.taken capacity rate ts

/-- No window has more arrivals than a full bucket and its length earn. -/
def Conforming (capacity rate : K) (ts : List K) : Prop :=
  ∀ a T, 0 ≤ T → (within a (a + T) ts : K) ≤ capacity + T * rate

/-! ## One arrival -/

variable {capacity rate : K} {b : Bucket K}

/-- **What one arrival does.** A whole token is taken off the refilled bucket, or it stays. -/
theorem take_cases (capacity rate now : K) (b : Bucket K) :
    (1 ≤ (b.refill capacity rate now).tokens ∧ b.take capacity rate now =
      (⟨(b.refill capacity rate now).tokens - 1, now⟩, true)) ∨
    ((b.refill capacity rate now).tokens < 1 ∧ b.take capacity rate now =
      (⟨(b.refill capacity rate now).tokens, now⟩, false)) := by
  unfold Bucket.take
  by_cases h : 1 ≤ (b.refill capacity rate now).tokens
  · exact Or.inl ⟨h, if_pos h⟩
  · exact Or.inr ⟨not_le.mp h, if_neg h⟩

theorem refill_le_capacity (capacity rate now : K) (b : Bucket K) :
    (b.refill capacity rate now).tokens ≤ capacity := min_le_right _ _

theorem taken_sublist (b : Bucket K) (ts : List K) : (b.taken capacity rate ts).Sublist ts := by
  induction ts generalizing b with
  | nil => exact List.Sublist.refl _
  | cons now ts ih =>
      unfold Bucket.taken
      dsimp only
      split
      · exact (ih _).cons_cons now
      · exact (ih _).cons now

theorem taken_cons_of_pos {b' : Bucket K} (h : b.take capacity rate now = (b', true)) :
    b.taken capacity rate (now :: ts) = now :: b'.taken capacity rate ts := by
  rw [Bucket.taken, h]
  rfl

theorem taken_cons_of_neg {b' : Bucket K} (h : b.take capacity rate now = (b', false)) :
    b.taken capacity rate (now :: ts) = b'.taken capacity rate ts := by
  rw [Bucket.taken, h]
  rfl

/-- A second look at the same instant earns nothing. -/
theorem refill_refill :
    (b.refill capacity rate now).refill capacity rate now = b.refill capacity rate now := by
  have hfill : (b.refill capacity rate now).tokens ≤ capacity :=
    refill_le_capacity capacity rate now b
  have hstill : max (now - now) 0 = (0 : K) := by rw [sub_self, max_self]
  unfold Bucket.refill at hfill ⊢
  dsimp only at hfill ⊢
  rw [hstill, zero_mul, add_zero, min_eq_left hfill]

/-- The first arrival may as well find the bucket refilled. -/
theorem taken_refill :
    (b.refill capacity rate now).taken capacity rate (now :: ts) =
      b.taken capacity rate (now :: ts) := by
  have htake : (b.refill capacity rate now).take capacity rate now =
      b.take capacity rate now := by
    unfold Bucket.take
    rw [refill_refill]
  rw [Bucket.taken, Bucket.taken, htake]

variable [IsStrictOrderedRing K]

theorem Conforming.sublist {capacity rate : K} {us : List K} (h : Conforming capacity rate ts)
    (hsub : us.Sublist ts) : Conforming capacity rate us := by
  intro a T hT
  have hle : (within a (a + T) us : K) ≤ within a (a + T) ts :=
    Nat.cast_le.mpr (within_sublist hsub)
  exact hle.trans (h a T hT)

/-- What a refill earns is bounded by the time that went by. -/
theorem refill_le (capacity rate : K) (hnow : b.last ≤ now) :
    (b.refill capacity rate now).tokens ≤ b.tokens + (now - b.last) * rate := by
  have helapsed : max (now - b.last) 0 = now - b.last := max_eq_left (sub_nonneg.mpr hnow)
  exact (min_le_left _ _).trans_eq (by rw [helapsed])

theorem refill_nonneg (now : K) (hcap : 0 ≤ capacity) (hrate : 0 ≤ rate) (hb : 0 ≤ b.tokens) :
    0 ≤ (b.refill capacity rate now).tokens :=
  le_min (add_nonneg hb (mul_nonneg (le_max_right _ _) hrate)) hcap

/-! ## Every window -/

/-- Up to an instant, the arrivals that got a token are paid by what the bucket held and what the
time since earned. -/
theorem taken_until (hcap : 0 ≤ capacity) (hrate : 0 ≤ rate) (hb : 0 ≤ b.tokens)
    (hts : (b.last :: ts).Pairwise (· ≤ ·)) (he : b.last ≤ e) :
    (within b.last e (b.taken capacity rate ts) : K) ≤ b.tokens + (e - b.last) * rate := by
  induction ts generalizing b with
  | nil =>
      have hearned : 0 ≤ (e - b.last) * rate := mul_nonneg (sub_nonneg.mpr he) hrate
      rw [Bucket.taken, within_nil, Nat.cast_zero]
      exact add_nonneg hb hearned
  | cons now ts ih =>
      have hlast : ∀ t ∈ now :: ts, b.last ≤ t := (List.pairwise_cons.mp hts).1
      have htail : (now :: ts).Pairwise (· ≤ ·) := (List.pairwise_cons.mp hts).2
      have hafter : ∀ t ∈ ts, now ≤ t := (List.pairwise_cons.mp htail).1
      have hnow : b.last ≤ now := hlast now List.mem_cons_self
      rcases lt_or_ge e now with hlate | hin
      · have hall : ∀ t ∈ b.taken capacity rate (now :: ts), e < t :=
          fun t ht => hlate.trans_le (first_le htail t ((taken_sublist b _).subset ht))
        have hearned : 0 ≤ (e - b.last) * rate := mul_nonneg (sub_nonneg.mpr he) hrate
        rw [within_of_lt hall, Nat.cast_zero]
        exact add_nonneg hb hearned
      · -- The tokens after the refill pay for this arrival, if it gets one, and for the rest.
        have hfill := refill_le capacity rate hnow
        have hpos := refill_nonneg now hcap hrate hb
        have hsplit : (now - b.last) * rate + (e - now) * rate = (e - b.last) * rate := by ring
        have hopen : ∀ us : List K, us.Sublist ts → within b.last e us = within now e us :=
          fun us hus => within_congr (fun t ht => hnow.trans (hafter t (hus.subset ht)))
            fun t ht => hafter t (hus.subset ht)
        rcases take_cases capacity rate now b with ⟨hone, h⟩ | ⟨-, h⟩
        · have hrest := ih (b := ⟨(b.refill capacity rate now).tokens - 1, now⟩)
            (sub_nonneg.mpr hone) htail hin
          rw [taken_cons_of_pos h, within_cons_of_mem hnow hin, hopen _ (taken_sublist _ _),
            Nat.cast_add, Nat.cast_one]
          linarith
        · have hrest := ih (b := ⟨(b.refill capacity rate now).tokens, now⟩) hpos htail hin
          rw [taken_cons_of_neg h, hopen _ (taken_sublist _ _)]
          linarith

/-- **Every window.** The arrivals that get a token are never more than a full bucket and the
window's length earn. -/
theorem taken_conforming (hcap : 0 ≤ capacity) (hrate : 0 ≤ rate) (hb : 0 ≤ b.tokens)
    (hts : ts.Pairwise (· ≤ ·)) : Conforming capacity rate (b.taken capacity rate ts) := by
  intro a T hT
  have hempty : (0 : K) ≤ capacity + T * rate := add_nonneg hcap (mul_nonneg hT hrate)
  induction ts generalizing b with
  | nil =>
      rw [Bucket.taken, within_nil, Nat.cast_zero]
      exact hempty
  | cons now ts ih =>
      have htail : ts.Pairwise (· ≤ ·) := (List.pairwise_cons.mp hts).2
      have hpos := refill_nonneg now hcap hrate hb
      rcases lt_or_ge now a with hbefore | hin
      · -- The window opens later, and what this arrival leaves is again a bucket.
        rcases take_cases capacity rate now b with ⟨hone, h⟩ | ⟨-, h⟩
        · rw [taken_cons_of_pos h, within_cons_of_lt hbefore]
          exact ih (sub_nonneg.mpr hone) htail
        · rw [taken_cons_of_neg h]
          exact ih hpos htail
      · -- All arrivals are after its opening, and the first finds at most a full bucket.
        have hafter : ∀ t ∈ b.taken capacity rate (now :: ts), now ≤ t :=
          fun t ht => first_le hts t ((taken_sublist b _).subset ht)
        rw [within_congr (fun t ht => hin.trans (hafter t ht)) hafter]
        rcases lt_or_ge (a + T) now with hlate | hend
        · rw [within_of_lt fun t ht => hlate.trans_le (hafter t ht), Nat.cast_zero]
          exact hempty
        · have hfull : (b.refill capacity rate now).tokens ≤ capacity :=
          refill_le_capacity capacity rate now b
          have hearned : (a + T - now) * rate ≤ T * rate :=
            mul_le_mul_of_nonneg_right (by linarith) hrate
          have hpaid : (within now (a + T) ((b.refill capacity rate now).taken capacity rate
              (now :: ts)) : K) ≤ (b.refill capacity rate now).tokens + (a + T - now) * rate :=
            taken_until hcap hrate hpos (List.pairwise_cons.mpr ⟨first_le hts, hts⟩) hend
          rw [taken_refill] at hpaid
          calc (within now (a + T) (b.taken capacity rate (now :: ts)) : K)
              ≤ (b.refill capacity rate now).tokens + (a + T - now) * rate := hpaid
            _ ≤ capacity + T * rate := add_le_add hfull hearned

/-! ## Arrivals within the budget -/

/-- Arrivals that the bucket's tokens can pay from now on, and that conform, all get theirs. -/
theorem taken_of_affordable (hts : (b.last :: ts).Pairwise (· ≤ ·))
    (hpay : ∀ e, b.last ≤ e → (within b.last e ts : K) ≤ b.tokens + (e - b.last) * rate)
    (hconf : Conforming capacity rate ts) : b.taken capacity rate ts = ts := by
  induction ts generalizing b with
  | nil => rfl
  | cons now ts ih =>
      have hlast : ∀ t ∈ now :: ts, b.last ≤ t := (List.pairwise_cons.mp hts).1
      have htail : (now :: ts).Pairwise (· ≤ ·) := (List.pairwise_cons.mp hts).2
      have hafter : ∀ t ∈ ts, now ≤ t := (List.pairwise_cons.mp htail).1
      have hnow : b.last ≤ now := hlast now List.mem_cons_self
      have helapsed : max (now - b.last) 0 = now - b.last := max_eq_left (sub_nonneg.mpr hnow)
      -- From this instant on, both the tokens and the capacity pay for it and what follows.
      have hboth : ∀ e, now ≤ e →
          (within now e ts : K) + 1 ≤ (b.refill capacity rate now).tokens + (e - now) * rate := by
        intro e he
        have hsplit : (now - b.last) * rate + (e - now) * rate = (e - b.last) * rate := by ring
        have htokens := hpay e (hnow.trans he)
        have hfull := hconf now (e - now) (sub_nonneg.mpr he)
        rw [within_cons_of_mem hnow he, Nat.cast_add, Nat.cast_one,
          within_congr (fun t ht => hnow.trans (hafter t ht)) hafter] at htokens
        rw [add_sub_cancel, within_cons_of_mem (le_refl now) he, Nat.cast_add,
          Nat.cast_one] at hfull
        unfold Bucket.refill
        dsimp only
        rw [helapsed, min_add]
        exact le_min (by linarith) hfull
      have hone : 1 ≤ (b.refill capacity rate now).tokens := by
        have hnone : (0 : K) ≤ within now now ts := Nat.cast_nonneg _
        have hhere := hboth now (le_refl now)
        rw [sub_self, zero_mul, add_zero] at hhere
        linarith
      rcases take_cases capacity rate now b with ⟨-, h⟩ | ⟨hlt, -⟩
      · rw [taken_cons_of_pos h]
        have hrest := hconf.sublist (List.sublist_cons_self now ts)
        refine congrArg (now :: ·) (ih htail (fun e he => ?_) hrest)
        have hnext := hboth e he
        dsimp only
        linarith
      · exact absurd hone (not_le.mpr hlt)

/-! ## From a full bucket -/

/-- To the first arrival, a full bucket has no past. -/
theorem taken_full (hrate : 0 ≤ rate) (hfull : b.tokens = capacity) :
    b.taken capacity rate (now :: ts) =
      (Bucket.mk capacity now).taken capacity rate (now :: ts) := by
  have hrefill : ∀ c : Bucket K, c.tokens = capacity →
      c.refill capacity rate now = ⟨capacity, now⟩ := by
    intro c hc
    have hearned : 0 ≤ max (now - c.last) 0 * rate := mul_nonneg (le_max_right _ _) hrate
    unfold Bucket.refill
    rw [hc, min_eq_right (le_add_of_nonneg_right hearned)]
  rw [← taken_refill, hrefill b hfull]

/-- **Every arrival of a sender within the budget gets a token.** -/
theorem full_taken (hrate : 0 ≤ rate) (hfull : b.tokens = capacity) (hts : ts.Pairwise (· ≤ ·))
    (hconf : Conforming capacity rate ts) : b.taken capacity rate ts = ts := by
  cases ts with
  | nil => rfl
  | cons now ts =>
      rw [taken_full hrate hfull]
      refine taken_of_affordable (List.pairwise_cons.mpr ⟨first_le hts, hts⟩) (fun e he => ?_) hconf
      have hall := hconf now (e - now) (sub_nonneg.mpr he)
      rwa [add_sub_cancel] at hall

end MostroApp.Metering
