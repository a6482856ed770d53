import MostroApp.Db.TradeJson
import MostroApp.Lib.Numeral
import MostroApp.Lib.Text
import Mathlib.Data.Int.Log
import Mathlib.Data.Rat.Floor

set_option autoImplicit false

/-! # Comparing, casting and reading `f64`

A comparison with a NaN is false. A cast to `i64` drops the fraction, toward zero, stops at the
ends of the type, and takes a NaN to zero; a cast of a `u64` keeps the bits. A number in text is
read as the value nearest to it.
-/

namespace MostroApp.Db.F64

/-! ## Comparisons -/

def lt : F64 → F64 → Bool
  | nan, _ | _, nan => false
  | finite a, finite b => a < b
  | finite _, infinite negative => !negative
  | infinite negative, finite _ => negative
  | infinite negative, infinite negative' => negative && !negative'

def le : F64 → F64 → Bool
  | nan, _ | _, nan => false
  | finite a, finite b => a ≤ b
  | finite _, infinite negative => !negative
  | infinite negative, finite _ => negative
  | infinite negative, infinite negative' => negative || !negative'

def isFinite : F64 → Bool
  | finite _ => true
  | _ => false

theorem isFinite_iff {x : F64} : x.isFinite = true ↔ ∃ q, x = finite q := by
  cases x <;> simp [isFinite]

/-! ## Casts -/

/-- A number without its fraction. -/
def truncated (q : ℚ) : Int := q.num.tdiv q.den

/-- `as i64`. -/
def asI64 : F64 → Int
  | finite q => max (-2 ^ 63) (min (truncated q) (2 ^ 63 - 1))
  | infinite negative => if negative then -2 ^ 63 else 2 ^ 63 - 1
  | nan => 0

/-- The value without its fraction. -/
def whole : F64 → F64
  | finite q => finite (truncated q)
  | x => x

/-- The whole part is an `i64`. -/
def Fits (x : F64) : Prop :=
  ∃ q, x = finite q ∧ -2 ^ 63 ≤ truncated q ∧ truncated q ≤ 2 ^ 63 - 1

theorem Fits.asI64 {x : F64} (h : x.Fits) : x.whole = finite x.asI64 := by
  obtain ⟨q, rfl, hlow, hhigh⟩ := h
  show finite (truncated q) = finite ((max (-2 ^ 63) (min (truncated q) (2 ^ 63 - 1)) : Int) : ℚ)
  rw [min_eq_left hhigh, max_eq_right hlow]

/-- A number that is not negative loses its fraction downwards. -/
theorem truncated_of_nonneg {q : ℚ} (hq : 0 ≤ q) : truncated q = ⌊q⌋ := by
  unfold truncated
  rw [Int.tdiv_eq_ediv_of_nonneg (Rat.num_nonneg.mpr hq), Rat.floor_def']

/-! ## Numbers from text -/

/-- The nearest integer, the even one of two. -/
def nearestEven (q : ℚ) : Int :=
  let rest := q - ⌊q⌋
  if rest < 1 / 2 ∨ rest = 1 / 2 ∧ ⌊q⌋ % 2 = 0 then ⌊q⌋ else ⌊q⌋ + 1

/-- The value nearest to a number: 53 bits from the first on, none below the smallest value, and an
infinity from the first power of two on that is out of range. -/
def rounded (q : ℚ) : F64 :=
  let ulp : Int := max (Int.log 2 |q| - 52) (-1074)
  let nearest : ℚ := nearestEven (q / 2 ^ ulp) * 2 ^ ulp
  if |nearest| < 2 ^ 1024 then finite nearest else infinite (q < 0)

/-- `from_str`. -/
def fromStr (s : List Char) : Option F64 :=
  let (negative, body) := Numeral.signed s
  let lowered := Text.asciiLowered body
  if lowered = "inf".toList ∨ lowered = "infinity".toList then some (infinite negative)
  else if lowered = "nan".toList then some nan
  else (Numeral.decimal body).map fun q => rounded (if negative then -q else q)

end MostroApp.Db.F64

namespace MostroApp

/-- `as i64` of a `u64`. -/
def u64AsI64 (n : UInt64) : Int := (n.toNat : Int).bmod (2 ^ 64)

theorem u64AsI64_of_lt {n : UInt64} (h : n.toNat < 2 ^ 63) : u64AsI64 n = n.toNat := by
  unfold u64AsI64
  refine Int.bmod_eq_of_le ?_ ?_
  · omega
  · omega

end MostroApp
