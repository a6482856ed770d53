import MostroApp.Lib.Text
import Mathlib.Tactic.Common

set_option autoImplicit false

/-! # Text as Rust's `str` holds it: UTF-8

A text is a list of characters, and its bytes are theirs in UTF-8. Slicing goes by byte offsets and
fails off the boundaries of characters (`splitAt?`); a search over windows of bytes, which ignores
the case of ASCII letters, finds a text of ASCII characters at those boundaries only
(`search_cons`).
-/

namespace MostroApp.Utf8

open Text

variable {α : Type}

/-! ## Bytes and offsets -/

def bytes (s : List Char) : List UInt8 := s.flatMap String.utf8EncodeChar

/-- The text up to a byte offset and from it on. -/
def splitAt? : Nat → List Char → Option (List Char × List Char)
  | 0, s => some ([], s)
  | _ + 1, [] => none
  | n + 1, c :: s =>
      if c.utf8Size ≤ n + 1 then
        (splitAt? (n + 1 - c.utf8Size) s).map fun r => (c :: r.1, r.2)
      else none

/-- `&s[..n]`. -/
def sliceTo (n : Nat) (s : List Char) : Option (List Char) := (splitAt? n s).map Prod.fst

/-- `&s[n..]`. -/
def sliceFrom (n : Nat) (s : List Char) : Option (List Char) := (splitAt? n s).map Prod.snd

/-- `str::find` of a character: the byte offset of the first one with `p`. -/
def find (p : Char → Bool) : List Char → Option Nat
  | [] => none
  | c :: s => if p c then some 0 else (find p s).map (· + c.utf8Size)

variable {s t : List Char} {c : Char}

theorem bytes_cons : bytes (c :: s) = String.utf8EncodeChar c ++ bytes s := List.flatMap_cons

theorem bytes_append : bytes (s ++ t) = bytes s ++ bytes t := List.flatMap_append

theorem length_bytes_cons : (bytes (c :: s)).length = c.utf8Size + (bytes s).length := by
  rw [bytes_cons, List.length_append, String.length_utf8EncodeChar]

theorem splitAt?_cons (n : Nat) :
    splitAt? (c.utf8Size + n) (c :: s) = (splitAt? n s).map fun r => (c :: r.1, r.2) := by
  obtain ⟨k, hk⟩ := Nat.exists_eq_add_one.mpr (Nat.add_pos_left c.utf8Size_pos n)
  have hle : c.utf8Size ≤ k + 1 := by omega
  have hrest : k + 1 - c.utf8Size = n := by omega
  rw [hk, splitAt?, if_pos hle, hrest]

/-- The end of any character is an offset to slice at. -/
theorem splitAt?_append (s t : List Char) :
    splitAt? (bytes s).length (s ++ t) = some (s, t) := by
  induction s with
  | nil => rw [bytes, List.flatMap_nil, List.length_nil, List.nil_append, splitAt?]
  | cons c s ih => rw [length_bytes_cons, List.cons_append, splitAt?_cons, ih, Option.map_some]

theorem sliceTo_append : sliceTo (bytes s).length (s ++ t) = some s := by
  rw [sliceTo, splitAt?_append, Option.map_some]

theorem sliceFrom_append : sliceFrom (bytes s).length (s ++ t) = some t := by
  rw [sliceFrom, splitAt?_append, Option.map_some]

/-- What is found first ends the run of the characters without `p`. -/
theorem find_getD (p : Char → Bool) (s : List Char) :
    (find p s).getD (bytes s).length = (bytes (s.takeWhile fun c => !p c)).length := by
  induction s with
  | nil => rfl
  | cons c s ih =>
      cases hp : p c with
      | true => simp [find, hp, bytes]
      | false =>
          rw [List.takeWhile_cons_of_pos (by simp [hp]), length_bytes_cons, length_bytes_cons,
            ← ih, find, hp]
          cases hfind : find p s with
          | none => rfl
          | some n => exact Nat.add_comm n c.utf8Size

/-! ## ASCII and the other bytes -/

theorem utf8EncodeChar_ascii (h : c.toNat < 128) :
    String.utf8EncodeChar c = [UInt8.ofNat c.toNat] := by
  have hle : c.val.toNat ≤ 0x7f := Nat.le_of_lt_succ h
  unfold String.utf8EncodeChar
  rw [if_pos hle]
  rfl

theorem high_ofNat {n : Nat} (hlow : 128 ≤ n) (hhigh : n < 256) : 128 ≤ (UInt8.ofNat n).toNat := by
  rw [UInt8.toNat_ofNat_of_lt' hhigh]
  exact hlow

/-- Every byte of another character is beyond ASCII. -/
theorem utf8EncodeChar_high (h : 128 ≤ c.toNat) :
    ∀ b ∈ String.utf8EncodeChar c, 128 ≤ b.toNat := by
  have hval : 128 ≤ c.val.toNat := h
  unfold String.utf8EncodeChar
  dsimp only
  rw [if_neg (by omega)]
  intro b hb
  -- two, three or four bytes
  split at hb
  · simp only [List.mem_cons, List.not_mem_nil, or_false] at hb
    rcases hb with rfl | rfl <;> exact high_ofNat (by omega) (by omega)
  · split at hb
    · simp only [List.mem_cons, List.not_mem_nil, or_false] at hb
      rcases hb with rfl | rfl | rfl <;> exact high_ofNat (by omega) (by omega)
    · simp only [List.mem_cons, List.not_mem_nil, or_false] at hb
      rcases hb with rfl | rfl | rfl | rfl <;> exact high_ofNat (by omega) (by omega)

/-! ## Case -/

/-- `u8::to_ascii_lowercase`. -/
def toAsciiLowercase (b : UInt8) : UInt8 := if 65 ≤ b ∧ b ≤ 90 then b + 32 else b

/-- `<[u8]>::eq_ignore_ascii_case`. -/
def eqIgnoreAsciiCase (v w : List UInt8) : Bool :=
  v.map toAsciiLowercase = w.map toAsciiLowercase

theorem toNat_toAsciiLowercase (b : UInt8) : (toAsciiLowercase b).toNat =
    if 65 ≤ b.toNat ∧ b.toNat ≤ 90 then b.toNat + 32 else b.toNat := by
  unfold toAsciiLowercase
  by_cases h : 65 ≤ b.toNat ∧ b.toNat ≤ 90
  · have hb : 65 ≤ b ∧ b ≤ 90 := h
    rw [if_pos h, if_pos hb, UInt8.toNat_add]
    have h32 : (32 : UInt8).toNat = 32 := rfl
    omega
  · have hb : ¬ (65 ≤ b ∧ b ≤ 90) := h
    rw [if_neg h, if_neg hb]

/-- A byte beyond ASCII is its own lower case. -/
theorem toAsciiLowercase_high {b : UInt8} (h : 128 ≤ b.toNat) :
    128 ≤ (toAsciiLowercase b).toNat := by
  rw [toNat_toAsciiLowercase, if_neg (by omega)]
  exact h

/-- The lower case of an ASCII character's byte is the byte of its lower case. -/
theorem toAsciiLowercase_ascii (h : c.toNat < 128) :
    (toAsciiLowercase (UInt8.ofNat c.toNat)).toNat = c.toLower.toNat := by
  have hbyte : (UInt8.ofNat c.toNat).toNat = c.toNat :=
    UInt8.toNat_ofNat_of_lt' (h.trans (by decide))
  rw [toNat_toAsciiLowercase, hbyte, toNat_toLower]

/-! ## Windows of bytes -/

/-- `<[T]>::windows`, for a length that is not zero. -/
def windows (n : Nat) : List α → List (List α)
  | [] => []
  | a :: l => if n ≤ l.length + 1 then (a :: l).take n :: windows n l else []

/-- The offset of the first window that is `pattern`, in any case. -/
def position (pattern l : List UInt8) : Option Nat :=
  (windows pattern.length l).findIdx? fun w => eqIgnoreAsciiCase w pattern

/-- The text starts with `pattern`, in any case. -/
def startsWith (pattern s : List Char) : Bool :=
  (s.take pattern.length).map Char.toLower = pattern.map Char.toLower

/-- The byte offset at which `pattern` first occurs, in any case. -/
def search (pattern s : List Char) : Option Nat := position (bytes pattern) (bytes s)

theorem windows_short {n : Nat} {l : List α} (h : l.length < n) : windows n l = [] := by
  cases l with
  | nil => rfl
  | cons a l => exact if_neg (Nat.not_le.mpr h)

theorem length_of_eqIgnoreAsciiCase {v w : List UInt8} (h : eqIgnoreAsciiCase v w = true) :
    v.length = w.length := by
  have hlen := congrArg List.length (of_decide_eq_true h)
  rwa [List.length_map, List.length_map] at hlen

theorem position_cons (pattern l : List UInt8) (b : UInt8) :
    position pattern (b :: l) =
      if eqIgnoreAsciiCase ((b :: l).take pattern.length) pattern then some 0
      else (position pattern l).map (· + 1) := by
  unfold position
  rw [windows]
  by_cases hlen : pattern.length ≤ l.length + 1
  · rw [if_pos hlen, List.findIdx?_cons]
  · -- Too short for a window, here and further on.
    have hshort : (b :: l).length < pattern.length := Nat.not_le.mp hlen
    have hmiss : ¬ eqIgnoreAsciiCase ((b :: l).take pattern.length) pattern = true := by
      intro h
      have heq := length_of_eqIgnoreAsciiCase h
      rw [List.length_take] at heq
      omega
    rw [if_neg hlen, if_neg hmiss, windows_short (Nat.lt_of_succ_lt hshort)]
    rfl

/-- No window of a pattern that starts in ASCII opens at a byte beyond it. -/
theorem position_high {p : UInt8} {pattern l : List UInt8} (hp : (toAsciiLowercase p).toNat < 128)
    (bs : List UInt8) (hbs : ∀ b ∈ bs, 128 ≤ b.toNat) :
    position (p :: pattern) (bs ++ l) =
      (position (p :: pattern) l).map (· + bs.length) := by
  induction bs with
  | nil => simp
  | cons b bs ih =>
      have hb := toAsciiLowercase_high (hbs b List.mem_cons_self)
      have hmiss : ¬ eqIgnoreAsciiCase ((b :: (bs ++ l)).take (p :: pattern).length)
          (p :: pattern) = true := by
        intro h
        have heq := of_decide_eq_true h
        rw [List.length_cons, List.take_succ_cons, List.map_cons, List.map_cons] at heq
        rw [List.cons.inj heq |>.1] at hb
        omega
      rw [List.cons_append, position_cons, if_neg hmiss,
        ih fun b hb => hbs b (List.mem_cons_of_mem _ hb), Option.map_map, List.length_cons]
      rfl

/-! ## Searching for ASCII -/

theorem toLower_lt (h : c.toNat < 128) : c.toLower.toNat < 128 := by
  rw [toNat_toLower]
  split <;> omega

theorem toLower_high (h : 128 ≤ c.toNat) : 128 ≤ c.toLower.toNat := by
  rw [toNat_toLower]
  split <;> omega

/-- ASCII characters agree but for their case where their bytes do. -/
theorem toAsciiLowercase_inj {d : Char} (hc : c.toNat < 128) (hd : d.toNat < 128) :
    toAsciiLowercase (UInt8.ofNat c.toNat) = toAsciiLowercase (UInt8.ofNat d.toNat) ↔
      c.toLower = d.toLower := by
  rw [← UInt8.toNat_inj, toAsciiLowercase_ascii hc, toAsciiLowercase_ascii hd, Char.toNat_inj]

theorem startsWith_cons {d : Char} {pattern : List Char} :
    startsWith (d :: pattern) (c :: s) =
      (decide (c.toLower = d.toLower) && startsWith pattern s) := by
  simp [startsWith]

theorem startsWith_high {d : Char} {pattern : List Char} (hd : d.toNat < 128)
    (hc : 128 ≤ c.toNat) : startsWith (d :: pattern) (c :: s) = false := by
  have hlow := toLower_lt hd
  have hhigh := toLower_high hc
  have hne : c.toLower ≠ d.toLower := by
    intro h
    rw [h] at hhigh
    omega
  rw [startsWith_cons, decide_eq_false hne, Bool.false_and]

/-- At the start of a text, the window of bytes decides as the characters do. -/
theorem eqIgnoreAsciiCase_take {pattern : List Char} (hpattern : ∀ d ∈ pattern, d.toNat < 128)
    (s : List Char) :
    eqIgnoreAsciiCase ((bytes s).take (bytes pattern).length) (bytes pattern) =
      startsWith pattern s := by
  induction pattern generalizing s with
  | nil => simp [startsWith, eqIgnoreAsciiCase, bytes]
  | cons d pattern ih =>
      have hd : d.toNat < 128 := hpattern d List.mem_cons_self
      have htail := ih fun e he => hpattern e (List.mem_cons_of_mem d he)
      have hbyte : bytes (d :: pattern) = UInt8.ofNat d.toNat :: bytes pattern := by
        rw [bytes_cons, utf8EncodeChar_ascii hd, List.singleton_append]
      rw [hbyte, List.length_cons]
      cases s with
      | nil => rfl
      | cons c s =>
          rcases Nat.lt_or_ge c.toNat 128 with hc | hc
          · have hhead := toAsciiLowercase_inj hc hd
            rw [bytes_cons, utf8EncodeChar_ascii hc, List.singleton_append, List.take_succ_cons,
              startsWith_cons, ← htail s]
            unfold eqIgnoreAsciiCase
            rw [Bool.eq_iff_iff, Bool.and_eq_true, decide_eq_true_iff, decide_eq_true_iff,
              decide_eq_true_iff, List.map_cons, List.map_cons, List.cons.injEq, hhead]
          · -- The character's first byte is beyond ASCII.
            obtain ⟨b, bs, hbs⟩ := List.exists_cons_of_ne_nil
              (List.ne_nil_of_length_pos (String.length_utf8EncodeChar c ▸ c.utf8Size_pos))
            have hb := toAsciiLowercase_high
              (utf8EncodeChar_high hc b (hbs ▸ List.mem_cons_self))
            have hlow := toLower_lt hd
            rw [← toAsciiLowercase_ascii hd] at hlow
            rw [startsWith_high hd hc, bytes_cons, hbs, List.cons_append, List.take_succ_cons]
            refine decide_eq_false fun h => ?_
            rw [List.map_cons, List.map_cons] at h
            rw [List.cons.inj h |>.1] at hb
            omega

/-- **A search for ASCII text** goes from character to character. -/
theorem search_cons {d : Char} {pattern : List Char} (hpattern : ∀ e ∈ d :: pattern, e.toNat < 128)
    (c : Char) (s : List Char) :
    search (d :: pattern) (c :: s) =
      if startsWith (d :: pattern) (c :: s) then some 0
      else (search (d :: pattern) s).map (· + c.utf8Size) := by
  have hd : d.toNat < 128 := hpattern d List.mem_cons_self
  unfold search
  rcases Nat.lt_or_ge c.toNat 128 with hc | hc
  · have hsize : c.utf8Size = 1 := by
      rw [← String.length_utf8EncodeChar, utf8EncodeChar_ascii hc, List.length_singleton]
    rw [← eqIgnoreAsciiCase_take hpattern, hsize, bytes_cons (c := c) (s := s),
      utf8EncodeChar_ascii hc, List.singleton_append, position_cons]
  · have hlow := toLower_lt hd
    rw [← toAsciiLowercase_ascii hd] at hlow
    rw [startsWith_high hd hc, bytes_cons (c := c), bytes_cons (c := d), utf8EncodeChar_ascii hd,
      List.singleton_append, position_high hlow _ (utf8EncodeChar_high hc),
      String.length_utf8EncodeChar]
    rfl

theorem length_bytes_ascii (h : ∀ c ∈ s, c.toNat < 128) : (bytes s).length = s.length := by
  induction s with
  | nil => rfl
  | cons c s ih =>
      have hc := utf8EncodeChar_ascii (h c List.mem_cons_self)
      rw [bytes_cons, hc, List.singleton_append, List.length_cons, List.length_cons,
        ih fun d hd => h d (List.mem_cons_of_mem c hd)]

/-- What an ASCII pattern matches is as many bytes as characters. -/
theorem length_bytes_take {pattern : List Char} (hpattern : ∀ d ∈ pattern, d.toNat < 128)
    (h : startsWith pattern s = true) :
    (bytes (s.take pattern.length)).length = pattern.length := by
  have hmap : (s.take pattern.length).map Char.toLower = pattern.map Char.toLower :=
    of_decide_eq_true h
  have hlen := congrArg List.length hmap
  rw [List.length_map, List.length_map] at hlen
  rw [length_bytes_ascii, hlen]
  intro c hc
  obtain ⟨d, hd, hcd⟩ := List.mem_map.mp (hmap ▸ List.mem_map_of_mem hc)
  have hlow := toLower_lt (hpattern d hd)
  by_contra hhigh
  have hc := toLower_high (Nat.not_lt.mp hhigh)
  rw [← hcd] at hc
  omega

end MostroApp.Utf8
