import Mathlib.Data.List.DropRight

set_option autoImplicit false

/-! # Text as Rust's `str` handles it

`str::trim` strips the characters of Unicode's `White_Space` property from both ends, which are
more than `Char.isWhitespace` knows; the ASCII functions leave every other character alone. What
trimming, lower-casing and splitting leave is stated over lists of characters.
-/

namespace MostroApp.Text

/-- The `White_Space` property. -/
def isWhiteSpace (c : Char) : Bool :=
  let n := c.toNat
  (0x9 ≤ n && n ≤ 0xD) || n == 0x20 || n == 0x85 || n == 0xA0 || n == 0x1680 ||
    (0x2000 ≤ n && n ≤ 0x200A) || n == 0x2028 || n == 0x2029 || n == 0x202F || n == 0x205F ||
    n == 0x3000

/-- The characters of a text without the white space around them. -/
def trimmed (s : List Char) : List Char :=
  ((s.dropWhile isWhiteSpace).reverse.dropWhile isWhiteSpace).reverse

def trim (s : String) : String := String.ofList (trimmed s.toList)

/-- `str::to_ascii_uppercase`. -/
def asciiUppercase (s : String) : String := String.ofList (s.toList.map Char.toUpper)

/-- `str::to_ascii_lowercase`. -/
def asciiLowered (s : List Char) : List Char := s.map Char.toLower

/-- `str::split_once`: the text before the first `sep`, and the text after it. -/
def splitOnce (sep : List Char) : List Char → Option (List Char × List Char)
  | [] => if sep = [] then some ([], []) else none
  | c :: s =>
      if sep.isPrefixOf (c :: s) then some ([], (c :: s).drop sep.length)
      else (splitOnce sep s).map fun r => (c :: r.1, r.2)

/-- `str::rsplit_once`: the text before the last `sep`, and the text after it. -/
def rsplitOnce (sep : Char) (s : List Char) : Option (List Char × List Char) :=
  if sep ∈ s then
    some ((s.reverse.dropWhile (· ≠ sep)).tail.reverse, (s.reverse.takeWhile (· ≠ sep)).reverse)
  else none

/-! ## Lower case -/

theorem toNat_toLower (c : Char) :
    c.toLower.toNat = if 65 ≤ c.toNat ∧ c.toNat ≤ 90 then c.toNat + 32 else c.toNat := by
  unfold Char.toLower
  split
  · next h =>
    have hrange : 65 ≤ c.toNat ∧ c.toNat ≤ 90 := h
    rw [if_pos hrange]
    show (c.val + 32).toNat = c.val.toNat + 32
    have hval : c.val.toNat = c.toNat := rfl
    rw [UInt32.toNat_add]
    have h32 : (32 : UInt32).toNat = 32 := rfl
    omega
  · next h => exact (if_neg h).symm

theorem toLower_cases (c : Char) :
    c.toLower = c ∨ 65 ≤ c.toNat ∧ c.toNat ≤ 90 ∧ c.toLower.toNat = c.toNat + 32 := by
  have hlower := toNat_toLower c
  by_cases h : 65 ≤ c.toNat ∧ c.toNat ≤ 90
  · rw [if_pos h] at hlower
    exact Or.inr ⟨h.1, h.2, hlower⟩
  · rw [if_neg h] at hlower
    exact Or.inl (Char.toNat_inj.mp hlower)

@[simp] theorem isWhiteSpace_toLower (c : Char) : isWhiteSpace c.toLower = isWhiteSpace c := by
  rcases toLower_cases c with h | ⟨hlow, hhigh, h⟩
  · rw [h]
  · have hc : isWhiteSpace c = false := by
      simp [isWhiteSpace]
      omega
    have hl : isWhiteSpace c.toLower = false := by
      simp [isWhiteSpace]
      omega
    rw [hc, hl]

@[simp] theorem toLower_toLower (c : Char) : c.toLower.toLower = c.toLower := by
  rcases toLower_cases c with h | ⟨hlow, hhigh, h⟩
  · rw [h, h]
  · rcases toLower_cases c.toLower with h' | ⟨-, hhigh', -⟩
    · exact h'
    · omega

/-- Characters before `A` are no one's lower case but their own. -/
theorem toLower_eq_iff {c d : Char} (hd : d.toNat < 65) : c.toLower = d ↔ c = d := by
  rcases toLower_cases c with h | ⟨hlow, hhigh, h⟩
  · rw [h]
  · constructor
    · rintro rfl
      omega
    · rintro rfl
      omega

theorem asciiLowered_idem (s : List Char) : asciiLowered (asciiLowered s) = asciiLowered s := by
  simp [asciiLowered]

/-! ## Ends -/

theorem trimmed_isInfix (s : List Char) : trimmed s <:+: s :=
  (List.rdropWhile_prefix isWhiteSpace _).isInfix.trans
    (List.dropWhile_suffix isWhiteSpace).isInfix

/-- A text that does not begin or end in white space. -/
def Bare (s : List Char) : Prop :=
  (∀ c ∈ s.head?, isWhiteSpace c = false) ∧ ∀ c ∈ s.getLast?, isWhiteSpace c = false

theorem trimmed_eq_self {s : List Char} (h : Bare s) : trimmed s = s := by
  have hleft : s.dropWhile isWhiteSpace = s := by
    cases s with
    | nil => rfl
    | cons c s =>
        have hc := h.1 c rfl
        rw [List.dropWhile_cons_of_neg (by simp [hc])]
  unfold trimmed
  rw [hleft]
  refine List.rdropWhile_eq_self_iff.mpr fun hne => ?_
  have hlast := h.2 _ (List.getLast?_eq_some_getLast hne)
  simp [hlast]

/-- Trimming leaves no white space at the end. -/
theorem trimmed_getLast {s : List Char} {c : Char} (h : c ∈ (trimmed s).getLast?) :
    isWhiteSpace c = false := by
  have hne : trimmed s ≠ [] := by
    intro hnil
    rw [hnil] at h
    cases h
  have hlast := List.rdropWhile_last_not isWhiteSpace (s.dropWhile isWhiteSpace) hne
  obtain rfl : (trimmed s).getLast hne = c := by
    rw [List.getLast?_eq_some_getLast hne] at h
    exact Option.some.inj h
  exact Bool.eq_false_iff.mpr hlast

/-- Trimming leaves no white space at either end. -/
theorem bare_trimmed (s : List Char) : Bare (trimmed s) := by
  refine ⟨fun c hc => ?_, fun c hc => trimmed_getLast hc⟩
  obtain ⟨rest, hrest⟩ := List.rdropWhile_prefix isWhiteSpace (s.dropWhile isWhiteSpace)
  have hhead : (s.dropWhile isWhiteSpace).head? = some c := by
    rw [← hrest, List.head?_append, show List.head? (List.rdropWhile _ _) = some c from hc]
    rfl
  have hnot := List.head?_dropWhile_not isWhiteSpace s
  rwa [hhead] at hnot

theorem bare_asciiLowered {s : List Char} (h : Bare s) : Bare (asciiLowered s) := by
  unfold Bare asciiLowered
  rw [List.head?_map, List.getLast?_map]
  constructor
  · intro c hc
    obtain ⟨d, hd, rfl⟩ := Option.map_eq_some_iff.mp hc
    rw [isWhiteSpace_toLower]
    exact h.1 d hd
  · intro c hc
    obtain ⟨d, hd, rfl⟩ := Option.map_eq_some_iff.mp hc
    rw [isWhiteSpace_toLower]
    exact h.2 d hd

/-- What is stripped from the end of the second part only is stripped from it. -/
theorem rdropWhile_append {p : Char → Bool} {s t : List Char} (h : t.rdropWhile p ≠ []) :
    (s ++ t).rdropWhile p = s ++ t.rdropWhile p := by
  unfold List.rdropWhile at h ⊢
  have hne : (t.reverse.dropWhile p).isEmpty = false := by
    cases hdrop : t.reverse.dropWhile p with
    | nil => exact absurd (by rw [hdrop]; rfl) h
    | cons => rfl
  rw [List.reverse_append, List.dropWhile_append, hne]
  simp

/-! ## Splitting -/

variable {sep s before after : List Char}

theorem splitOnce_eq_some (h : splitOnce sep s = some (before, after)) :
    s = before ++ sep ++ after := by
  induction s generalizing before with
  | nil =>
      unfold splitOnce at h
      split at h
      · next hsep =>
        obtain ⟨rfl, rfl⟩ := Prod.mk.inj (Option.some.inj h)
        rw [hsep]
        rfl
      · cases h
  | cons c s ih =>
      unfold splitOnce at h
      split at h
      · next hpre =>
        obtain ⟨rfl, rfl⟩ := Prod.mk.inj (Option.some.inj h)
        exact (List.prefix_iff_eq_append.mp (List.isPrefixOf_iff_prefix.mp hpre)).symm
      · obtain ⟨r, hr, heq⟩ := Option.map_eq_some_iff.mp h
        obtain ⟨rfl, rfl⟩ := Prod.mk.inj heq
        rw [ih hr]
        rfl

/-- The first character of the separator is not in what is before it: it splits there. -/
theorem splitOnce_of_notMem {d : Char} {sep : List Char} (h : d ∉ before) :
    splitOnce (d :: sep) (before ++ (d :: sep) ++ after) = some (before, after) := by
  induction before with
  | nil =>
      have hpre : (d :: sep).isPrefixOf (d :: sep ++ after) = true :=
        List.isPrefixOf_iff_prefix.mpr (List.prefix_append _ _)
      show (if (d :: sep).isPrefixOf (d :: sep ++ after) then _ else _) = _
      rw [if_pos hpre]
      simp
  | cons c before ih =>
      rw [List.mem_cons, not_or] at h
      have hpre : (d :: sep).isPrefixOf (c :: (before ++ (d :: sep) ++ after)) = false := by
        rw [List.isPrefixOf_cons_cons, beq_eq_false_iff_ne.mpr h.1]
        rfl
      rw [List.cons_append, List.cons_append, splitOnce, hpre, ih h.2]
      rfl

/-- A part of a split text does not contain what it was split at. -/
theorem notMem_of_mem_splitOn {c : Char} {part : List Char} (h : part ∈ s.splitOn c) :
    c ∉ part := by
  induction s generalizing part with
  | nil =>
      rw [List.splitOn_nil, List.mem_singleton] at h
      rw [h]
      exact List.not_mem_nil
  | cons d s ih =>
      rw [List.splitOn_cons_eq_if_modifyHead] at h
      split at h
      · rcases List.mem_cons.mp h with rfl | hmem
        · exact List.not_mem_nil
        · exact ih hmem
      · next hd =>
        -- the first part gains a character that is not the separator
        cases hparts : s.splitOn c with
        | nil => exact absurd hparts (List.splitOn_ne_nil c s)
        | cons first rest =>
            rw [hparts, List.modifyHead_cons] at h
            rcases List.mem_cons.mp h with rfl | hmem
            · have hfirst := ih (hparts ▸ List.mem_cons_self ..)
              simp only [List.mem_cons, not_or]
              exact ⟨fun hc => hd (by simp [hc]), hfirst⟩
            · exact ih (hparts ▸ List.mem_cons_of_mem _ hmem)

/-- Texts joined with a character that is in none of them, where none is empty, are told apart by
what they are joined to. -/
theorem intercalate_inj {c : Char} {l m : List (List Char)} (hl : ∀ part ∈ l, c ∉ part ∧ part ≠ [])
    (hm : ∀ part ∈ m, c ∉ part ∧ part ≠ [])
    (h : List.intercalate [c] l = List.intercalate [c] m) : l = m := by
  have empty : ∀ {k : List (List Char)}, (∀ part ∈ k, c ∉ part ∧ part ≠ []) →
      List.intercalate [c] k = [] → k = [] := by
    intro k hk hnil
    by_contra hne
    have hsplit := List.splitOn_intercalate c (fun part hp => (hk part hp).1) hne
    rw [hnil, List.splitOn_nil] at hsplit
    exact (hk [] (hsplit ▸ List.mem_singleton_self _)).2 rfl
  by_cases hlne : l = []
  · rw [hlne] at h ⊢
    exact (empty hm h.symm).symm
  · by_cases hmne : m = []
    · rw [hmne] at h ⊢
      exact empty hl h
    · rw [← List.splitOn_intercalate c (fun part hp => (hl part hp).1) hlne, h,
        List.splitOn_intercalate c (fun part hp => (hm part hp).1) hmne]

/-- The last occurrence of a character splits a text in one way. -/
theorem append_sep_inj {c : Char} {a b w v : List Char} (hw : c ∉ w) (hv : c ∉ v)
    (h : a ++ c :: w = b ++ c :: v) : a = b ∧ w = v := by
  rcases List.append_eq_append_iff.mp h with ⟨k, rfl, hk⟩ | ⟨k, rfl, hk⟩
  · cases k with
    | nil => simpa using hk
    | cons d k =>
        obtain ⟨-, rfl⟩ := List.cons.inj hk
        exact absurd (by simp) hw
  · cases k with
    | nil => simpa using hk.symm
    | cons d k =>
        obtain ⟨-, rfl⟩ := List.cons.inj hk
        exact absurd (by simp) hv

theorem rsplitOnce_append {c : Char} {a b : List Char} (h : c ∉ b) :
    rsplitOnce c (a ++ c :: b) = some (a, b) := by
  have hall : ∀ d ∈ b.reverse, (decide (d ≠ c)) = true := by
    intro d hd
    exact decide_eq_true fun hdc => h (hdc ▸ List.mem_reverse.mp hd)
  have hreverse : (a ++ c :: b).reverse = b.reverse ++ c :: a.reverse := by simp
  unfold rsplitOnce
  rw [if_pos (by simp), hreverse, List.dropWhile_append_of_pos hall,
    List.takeWhile_append_of_pos hall]
  simp

end MostroApp.Text
