/-!
# Double-precision numbers

A finite number of the binary64 format as sign, significand and exponent, all in exact integers.

* `Binary64.ofRatio?`: the number nearest to a fraction, a half going to the even neighbour; none
  when the fraction is too large for the format.
* `Binary64.compare`: by value, so the two zeros are equal.
* `Binary64.mul?`, `Binary64.div?`: the exact result, rounded once.
-/

namespace PluginManager

/-- `significand * 2 ^ exponent`, negative or not. -/
structure Binary64 where
  negative : Bool
  significand : Nat
  exponent : Int
  deriving DecidableEq, Repr, Inhabited

namespace Binary64

def leastExponent : Int := -1074
def greatestExponent : Int := 971
def precision : Nat := 53

def zero (negative : Bool) : Binary64 := ⟨negative, 0, leastExponent⟩

def isZero (x : Binary64) : Bool := x.significand = 0

/-! ## Fractions -/

/-- The absolute value as a fraction. -/
def ratio (x : Binary64) : Nat × Nat :=
  (x.significand * Nat.pow 2 x.exponent.toNat, Nat.pow 2 (-x.exponent).toNat)

/-- The quotient to the nearest integer, a half going to the even one. -/
def roundDiv (num den : Nat) : Nat :=
  let q := num / den
  let r := num % den
  if 2 * r < den then q
  else if den < 2 * r then q + 1
  else q + q % 2

/-- `num / den` in units of `2 ^ exponent`, as a fraction. -/
def scaled (num den : Nat) (exponent : Int) : Nat × Nat :=
  (num * Nat.pow 2 (-exponent).toNat, den * Nat.pow 2 exponent.toNat)

/-- The exponent for which the whole part of the scaled fraction has `precision` bits, or the
least one. -/
def exponentFor (num den : Nat) : Int :=
  let e := max leastExponent ((Nat.log2 num : Int) - Nat.log2 den - precision)
  let (n, d) := scaled num den e
  if n / d < Nat.pow 2 precision then e else e + 1

def ofRatio? (negative : Bool) (num den : Nat) : Option Binary64 :=
  if num = 0 then some (zero negative)
  else
    let e := exponentFor num den
    let (n, d) := scaled num den e
    let m := roundDiv n d
    let (m, e) := if m < Nat.pow 2 precision then (m, e) else (m / 2, e + 1)
    if greatestExponent < e then none else some ⟨negative, m, e⟩

def ofNat? (n : Nat) : Option Binary64 := ofRatio? false n 1

def ofInt? (n : Int) : Option Binary64 := ofRatio? (decide (n < 0)) n.natAbs 1

/-! ## Operations -/

def neg (x : Binary64) : Binary64 := { x with negative := !x.negative }

def mul? (x y : Binary64) : Option Binary64 :=
  let (a, b) := x.ratio
  let (c, d) := y.ratio
  ofRatio? (x.negative != y.negative) (a * c) (b * d)

/-- None too when `y` is zero. -/
def div? (x y : Binary64) : Option Binary64 :=
  if y.isZero then none
  else
    let (a, b) := x.ratio
    let (c, d) := y.ratio
    ofRatio? (x.negative != y.negative) (a * d) (b * c)

/-! ## Order -/

/-- The value with its sign as a fraction. -/
def signedRatio (x : Binary64) : Int × Nat :=
  let (a, b) := x.ratio
  (if x.negative then -(a : Int) else a, b)

def compareRatio (x y : Int × Nat) : Ordering :=
  Ord.compare (x.1 * y.2) (y.1 * x.2)

def compare (x y : Binary64) : Ordering :=
  compareRatio x.signedRatio y.signedRatio

def isInteger (x : Binary64) : Bool :=
  let (a, b) := x.ratio
  a % b = 0

end Binary64

end PluginManager
