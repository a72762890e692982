import PluginManager.Binary64

/-!
# Shortest decimal text

The fewest decimal digits that read back as the same double-precision number, and of those the
nearest ones.

* `Binary64.Interval`: the fractions that round to a number; its ends belong to it when the
  significand is even.
* `Binary64.shortest`: digits and decimal exponent.
* `Binary64.render`: the text, with a point and a digit after it; positional where the `Layout`
  says so, else with an exponent.
-/

namespace PluginManager.Binary64

/-- `digits * 10 ^ exponent`. -/
structure Decimal where
  digits : Nat
  exponent : Int
  deriving DecidableEq, Repr

/-! ## The interval of a number -/

/-- Ends in units of `2 ^ exponent`. -/
structure Interval where
  low : Nat
  middle : Nat
  high : Nat
  exponent : Int
  closed : Bool

def interval (x : Binary64) : Interval :=
  let m := x.significand
  let below := if m = Nat.pow 2 (precision - 1) && leastExponent < x.exponent then 1 else 2
  ⟨4 * m - below, 4 * m, 4 * m + 2, x.exponent - 2, m % 2 = 0⟩

/-- A decimal and a multiple of a power of two over a common denominator. -/
def common (d : Decimal) (n : Nat) (exponent : Int) : Nat × Nat :=
  (d.digits * Nat.pow 10 d.exponent.toNat * Nat.pow 2 (-exponent).toNat,
    n * Nat.pow 2 exponent.toNat * Nat.pow 10 (-d.exponent).toNat)

def Interval.contains (i : Interval) (d : Decimal) : Bool :=
  let (a, low) := common d i.low i.exponent
  let (b, high) := common d i.high i.exponent
  if i.closed then low ≤ a && b ≤ high else low < a && b < high

/-! ## Digits -/

/-- The decimal just below the number in units of `10 ^ exponent`. -/
def below (i : Interval) (exponent : Int) : Decimal :=
  let num := i.middle * Nat.pow 2 i.exponent.toNat * Nat.pow 10 (-exponent).toNat
  let den := Nat.pow 2 (-i.exponent).toNat * Nat.pow 10 exponent.toNat
  ⟨num / den, exponent⟩

def nearer (i : Interval) (a b : Decimal) : Decimal :=
  let (x, m) := common a i.middle i.exponent
  let (y, n) := common b i.middle i.exponent
  if m - x < y - n then a
  else if y - n < m - x then b
  else if a.digits % 2 = 0 then a else b

/-- One of the two neighbours on the grid of step `10 ^ exponent`, if it reads back. -/
def onGrid? (i : Interval) (exponent : Int) : Option Decimal :=
  let a := below i exponent
  let b : Decimal := ⟨a.digits + 1, exponent⟩
  match i.contains a, i.contains b with
  | true, true => some (nearer i a b)
  | true, false => some a
  | false, true => some b
  | false, false => none

/-- Tries finer and finer grids. -/
def search (i : Interval) : Nat → Int → Decimal
  | 0, exponent => below i exponent
  | tries + 1, exponent =>
    match onGrid? i exponent with
    | some d => d
    | none => search i tries (exponent - 1)

/-- The decimal exponent of the first digit. -/
def leadingExponent (x : Binary64) : Int :=
  let (n, d) := x.ratio
  if d ≤ n then ((Nat.toDigits 10 (n / d)).length : Int) - 1
  else -((List.range 400).find? fun j => d ≤ n * Nat.pow 10 j).getD 400

def Decimal.trim (d : Decimal) : Decimal :=
  let zeros := ((Nat.toDigits 10 d.digits).reverse.takeWhile (· = '0')).length
  if d.digits = 0 then ⟨0, 0⟩ else ⟨d.digits / Nat.pow 10 zeros, d.exponent + zeros⟩

def shortest (x : Binary64) : Decimal :=
  if x.isZero then ⟨0, 0⟩ else (search x.interval 20 x.leadingExponent).trim

/-! ## Text -/

/-- A number `0.ddd * 10 ^ k` is positional when `least < k ≤ greatest`. -/
structure Layout where
  least : Int
  greatest : Int

/-- Exponents where they are shorter. -/
def Layout.compact : Layout := ⟨-5, 16⟩

def Layout.positional : Layout := ⟨-400, 400⟩

def zeros (n : Int) : List Char := List.replicate n.toNat '0'

/-- Signed, with at least two digits. -/
def renderExponent (n : Int) : List Char :=
  let ds := Nat.toDigits 10 n.natAbs
  ['e', if n < 0 then '-' else '+'] ++ (if ds.length = 1 then '0' :: ds else ds)

def renderDecimal (layout : Layout) (d : Decimal) : List Char :=
  let cs := Nat.toDigits 10 d.digits
  let point : Int := cs.length + d.exponent
  if d.digits = 0 then "0.0".toList
  else if layout.least < point && point ≤ layout.greatest then
    if 0 ≤ d.exponent then cs ++ zeros d.exponent ++ ".0".toList
    else if 0 < point then cs.take point.toNat ++ ['.'] ++ cs.drop point.toNat
    else "0.".toList ++ zeros (-point) ++ cs
  else
    let mantissa := if cs.length = 1 then cs else cs.take 1 ++ ['.'] ++ cs.drop 1
    mantissa ++ renderExponent (point - 1)

def render (layout : Layout) (x : Binary64) : String :=
  String.ofList ((if x.negative then ['-'] else []) ++ renderDecimal layout x.shortest)

/-- Positional, and without a point when the number is whole. -/
def renderPlain (x : Binary64) : String :=
  let text := x.render .positional
  if x.isInteger then String.ofList (text.toList.take (text.length - 2)) else text

end PluginManager.Binary64
