import TaggedWord.Number.Binary64

/-! # Decimals and floating-point numbers

* **`Binary64.ofDecimal`** — the number nearest to a decimal.
* **`Decimal.shortest`** — a decimal of the fewest digits among those that read back as a given
  magnitude, and of these the one nearest to it.
* **`NumberStyle`** — how such a decimal is laid out.
* **`Binary64.render`** — the text of a number in a style. -/

namespace TaggedWord

/-- **A decimal**, `digits * 10^exponent`. -/
structure Decimal where
  digits : Nat
  exponent : Int
  deriving DecidableEq, Repr

namespace Decimal

/-- Ten to the power `e`, or one if `e` is negative. -/
def tenTo (e : Int) : Nat := Nat.pow 10 e.toNat

/-- The numerator of a decimal counted in quanta. -/
def quantaNum (d : Decimal) : Nat := d.digits * tenTo d.exponent * Binary64.quantaPerUnit

/-- The denominator of a decimal counted in quanta. -/
def quantaDen (d : Decimal) : Nat := tenTo (-d.exponent)

/-- **The rank nearest to a decimal.** Decimals far beyond either end of the range are settled by
their exponent alone: `10^400` is above every finite number, and a decimal of less than an eighth of
a quantum rounds to zero. -/
def rank (d : Decimal) : Nat :=
  if d.digits = 0 then 0
  else if 400 < d.exponent then Binary64.infinityRank
  else if d.digits.log2 + 1077 < 3 * -d.exponent then 0
  else Binary64.nearestRank d.quantaNum d.quantaDen

end Decimal

/-- **The number nearest to a decimal** with a given sign. -/
def Binary64.ofDecimal (negative : Bool) (d : Decimal) : Binary64 := .ofRank negative d.rank

/-! ## The fewest digits -/

/-- **The choice between two decimals** of the same length that are equally near to a number. -/
inductive Tie where
  /-- The greater one. -/
  | up
  /-- The one whose last digit is even. -/
  | even

namespace Decimal

/-- The exponent of the decimal digit that a magnitude of `q > 0` quanta starts with. The least
magnitude starts at `10^-324`. -/
def leadingExponent (q : Nat) : Int :=
  (Nat.toDigits 10 (q * tenTo 324 / Binary64.quantaPerUnit)).length - 325

/-- **The decimal of a magnitude on one grid.** Of the two multiples of `10^exponent` next to `q`
quanta it is the nearer one that reads back as rank `r`, if any does. -/
def onGrid? (tie : Tie) (r q : Nat) (exponent : Int) : Option Decimal :=
  let num := q * tenTo (-exponent)
  let den := Binary64.quantaPerUnit * tenTo exponent
  let below : Decimal := ⟨num / den, exponent⟩
  let above : Decimal := ⟨num / den + 1, exponent⟩
  let upward := match Ord.compare (2 * (num % den)) den, tie with
    | .lt, _ => false
    | .gt, _ => true
    | .eq, .up => true
    | .eq, .even => below.digits % 2 == 1
  (if upward then [above, below] else [below, above]).find? fun d => d.rank == r

/-- **The shortest decimal of a rank** other than zero: the first of the grids of one, two, … up to
seventeen digits on which a neighbour of the magnitude reads back. The exact value stands behind
them as an answer that always reads back. -/
def shortest (tie : Tie) (r : Nat) : Decimal :=
  let q := Binary64.quantaOfRank r
  let grids := (List.range 17).map fun n : Nat => leadingExponent q - n
  (grids.findSome? (onGrid? tie r q)).getD ⟨q * Nat.pow 5 1074, -1074⟩

end Decimal

/-! ## Layout -/

/-- **How a number is laid out.** -/
structure NumberStyle where
  /-- Which exponents of the leading digit are written without an exponent. -/
  positional : Int → Bool
  /-- Whether a whole number ends in `.0`. -/
  pointZero : Bool
  /-- The choice between equally near decimals. -/
  tie : Tie

namespace NumberStyle

/-- Digits with the point after the one of exponent zero, where `e` is the exponent of the first. -/
def layOutPlain (style : NumberStyle) (ds : List Char) (e : Int) : List Char :=
  if e < 0 then '0' :: '.' :: (List.replicate (-e - 1).toNat '0' ++ ds)
  else
    let whole := ds.take (e + 1).toNat
    let padding := List.replicate ((e + 1).toNat - whole.length) '0'
    let fraction := ds.drop (e + 1).toNat
    let ending := match fraction with
      | [] => if style.pointZero then ['.', '0'] else []
      | _ => '.' :: fraction
    whole ++ padding ++ ending

/-- Digits with the point after the first, and the exponent of the first, which always has its
sign. -/
def layOutScientific (ds : List Char) (e : Int) : List Char :=
  let fraction := match ds.drop 1 with
    | [] => []
    | rest => '.' :: rest
  let sign := if e < 0 then '-' else '+'
  ds.take 1 ++ fraction ++ 'e' :: sign :: Nat.toDigits 10 e.natAbs

/-- **A decimal laid out in a style**, without the zeros at its end. -/
def layOut (style : NumberStyle) (d : Decimal) : List Char :=
  let all := Nat.toDigits 10 d.digits
  let ds := (all.reverse.dropWhile (· == '0')).reverse
  let e : Int := all.length + d.exponent - 1
  if style.positional e then style.layOutPlain ds e else layOutScientific ds e

end NumberStyle

/-- **The text of a number in a style.** -/
def Binary64.render (style : NumberStyle) (x : Binary64) : String :=
  if x.isNaN then "NaN"
  else
    let magnitude :=
      if x.isInfinite then "inf".toList
      else if x.rank = 0 then style.layOutPlain ['0'] 0
      else style.layOut (.shortest style.tie x.rank)
    String.ofList (if x.signBit then '-' :: magnitude else magnitude)

end TaggedWord
