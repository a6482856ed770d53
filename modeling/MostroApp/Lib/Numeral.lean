import Mathlib.Algebra.Order.Field.Rat
import Mathlib.Data.List.Basic

set_option autoImplicit false

/-! # Numbers read from text, as Rust's `from_str` reads them

An integer is a run of ASCII digits, one at least, with a plus sign before it or, for a signed
type, a minus sign; a value outside the type's range is refused. A decimal number has digits before
the point or behind it, and an exponent or none.
-/

namespace MostroApp.Numeral

def digitOf (c : Char) : Option Nat := if c.isDigit then some (c.toNat - 48) else none

/-- The number a list of ASCII digits stands for, `none` where another character is among them. -/
def digitsVal (s : List Char) : Option Nat :=
  s.foldl (fun n c => n.bind fun n => (digitOf c).map fun d => 10 * n + d) (some 0)

/-- The number of one digit or more. -/
def digits (s : List Char) : Option Nat := if s = [] then none else digitsVal s

/-- `from_str` of an unsigned type with the values below `bound`. -/
def parseUnsigned (bound : Nat) (s : List Char) : Option Nat :=
  (digits (if s.head? = some '+' then s.tail else s)).filter (· < bound)

/-- Whether a minus sign stands first, and the text without its sign. -/
def signed : List Char → Bool × List Char
  | '-' :: s => (true, s)
  | '+' :: s => (false, s)
  | s => (false, s)

/-- A whole number with or without a sign. -/
def integer (s : List Char) : Option Int :=
  (digits (signed s).2).map fun n => if (signed s).1 then -(n : Int) else n

/-- `from_str` of a signed type with the values from `-half` to `half - 1`. -/
def parseSigned (half : Nat) (s : List Char) : Option Int :=
  (integer s).filter fun i => -(half : Int) ≤ i && i < half

/-- A number in decimal notation, with a fraction and an exponent or without. -/
def decimal (s : List Char) : Option ℚ :=
  let mantissa := s.takeWhile fun c => c ≠ 'e' && c ≠ 'E'
  let whole := mantissa.takeWhile (· ≠ '.')
  let fraction := mantissa.drop (whole.length + 1)
  let exponent : Option Int :=
    if mantissa.length = s.length then some 0 else integer (s.drop (mantissa.length + 1))
  if whole = [] ∧ fraction = [] then none
  else (digitsVal (whole ++ fraction)).bind fun n =>
    exponent.map fun e => (n : ℚ) * 10 ^ (e - (fraction.length : Int))

/-! ## Written and read back -/

/-- A whole number in decimal notation. -/
def written (i : Int) : List Char :=
  if i < 0 then '-' :: Nat.toDigits 10 i.natAbs else Nat.toDigits 10 i.natAbs

theorem isDigit_of_mem_toDigits {n : Nat} {c : Char} (h : c ∈ Nat.toDigits 10 n) :
    c.isDigit = true :=
  Nat.isDigit_of_mem_toDigits (by omega) (by omega) h

/-- What is not a digit or a sign is not in a number. -/
theorem notMem_written {c : Char} (hdigit : c.isDigit = false) (hsign : c ≠ '-') (i : Int) :
    c ∉ written i := by
  have hdigits : c ∉ Nat.toDigits 10 i.natAbs := by
    intro h
    rw [isDigit_of_mem_toDigits h] at hdigit
    cases hdigit
  unfold written
  split
  · exact fun h => (List.mem_cons.mp h).elim hsign hdigits
  · exact hdigits

/-- The digits read so far stand for `n`. -/
theorem foldl_digitOf {s : List Char} (h : ∀ c ∈ s, c.isDigit = true) (n : Nat) :
    s.foldl (fun n c => n.bind fun n => (digitOf c).map fun d => 10 * n + d) (some n) =
      some (Nat.ofDigitChars 10 s n) := by
  induction s generalizing n with
  | nil => simp
  | cons c s ih =>
      have hc : digitOf c = some (c.toNat - 48) := if_pos (h c (List.mem_cons_self ..))
      rw [List.foldl_cons, hc, Nat.ofDigitChars_cons]
      exact ih (fun d hd => h d (List.mem_cons_of_mem _ hd)) _

theorem digits_toDigits (n : Nat) : digits (Nat.toDigits 10 n) = some n := by
  unfold digits digitsVal
  rw [if_neg Nat.toDigits_ne_nil, foldl_digitOf fun c hc => isDigit_of_mem_toDigits hc,
    Nat.ofDigitChars_ten_toDigits]

/-- A number without a sign does not begin with one. -/
theorem head_toDigits (n : Nat) :
    ∃ c s, Nat.toDigits 10 n = c :: s ∧ c ≠ '-' ∧ c ≠ '+' := by
  cases h : Nat.toDigits 10 n with
  | nil => exact absurd h Nat.toDigits_ne_nil
  | cons c s =>
      have hc : c.isDigit = true := isDigit_of_mem_toDigits (h ▸ List.mem_cons_self ..)
      refine ⟨c, s, rfl, ?_, ?_⟩
      · rintro rfl
        cases hc
      · rintro rfl
        cases hc

theorem signed_toDigits (n : Nat) : signed (Nat.toDigits 10 n) = (false, Nat.toDigits 10 n) := by
  obtain ⟨c, s, h, hminus, hplus⟩ := head_toDigits n
  rw [h]
  unfold signed
  split
  · next heq => exact absurd (List.cons.inj heq).1 hminus
  · next heq => exact absurd (List.cons.inj heq).1 hplus
  · rfl

/-- A number that fits its type is read back. -/
theorem parseSigned_written {half : Nat} {i : Int} (hlow : -(half : Int) ≤ i) (hhigh : i < half) :
    parseSigned half (written i) = some i := by
  have hread : integer (written i) = some i := by
    unfold integer written
    split
    · next hneg =>
      rw [show signed ('-' :: Nat.toDigits 10 i.natAbs) = (true, Nat.toDigits 10 i.natAbs) from rfl,
        digits_toDigits]
      have hvalue : -(i.natAbs : Int) = i := by omega
      exact congrArg some hvalue
    · next hpos =>
      rw [signed_toDigits, digits_toDigits]
      have hvalue : (i.natAbs : Int) = i := by omega
      exact congrArg some hvalue
  unfold parseSigned
  rw [hread]
  simp [Option.filter, hlow, hhigh]

theorem parseUnsigned_toDigits {bound n : Nat} (h : n < bound) :
    parseUnsigned bound (Nat.toDigits 10 n) = some n := by
  obtain ⟨c, s, hdigits, -, hplus⟩ := head_toDigits n
  have hhead : (Nat.toDigits 10 n).head? ≠ some '+' := by
    rw [hdigits]
    exact fun heq => hplus (Option.some.inj heq)
  unfold parseUnsigned
  rw [if_neg hhead, digits_toDigits]
  simp [Option.filter, h]

end MostroApp.Numeral
