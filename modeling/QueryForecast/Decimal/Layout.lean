import QueryForecast.Decimal.Shortest
import QueryForecast.Decimal.Rounded

/-!
# How numbers are written

The digits of a number are chosen in `Shortest` and `Rounded`; a `Layout` says how digits become
text. The program writes numbers in three ways, and each is one value of `Layout`: `message` in
error texts, `record` in logs and artifacts, `inspection` in the summary of an estimator's state.
-/

namespace QueryForecast.Decimal

open Numeric

/-- The decisions of a way to write numbers.

* `least` and `most`: the exponents of the leading digit that are written without an exponent;
  `none` means all of them.
* `point`: whether a whole number ends in `.0` when it is written without an exponent.
* `plus`: whether an exponent that is not negative has a sign.
* `tie`: which digits stand for a number halfway between two shortest decimals. -/
structure Layout where
  least : Option Int
  most : Option Int
  point : Bool
  plus : Bool
  tie : Tie
  deriving DecidableEq, Repr

/-- Error messages write out every digit, and whole numbers without a point. A tie goes away from
zero. -/
def Layout.message : Layout := ⟨none, none, false, false, .away⟩

/-- Logs and artifacts use an exponent below `10^-5` and from `10^16` on, always with a sign. A tie
goes to the even digit. -/
def Layout.record : Layout := ⟨some (-5), some 15, true, true, .toEven⟩

/-- Inspection uses an exponent below `10^-4` and from `10^16` on. A tie goes away from zero. -/
def Layout.inspection : Layout := ⟨some (-4), some 15, true, false, .away⟩

/-- Digits with `count` of them before the point. -/
def positional (layout : Layout) (digits : List Char) (count : Int) : List Char :=
  if count ≤ 0 then
    '0' :: '.' :: (List.replicate (-count).toNat '0' ++ digits)
  else if digits.length ≤ count.toNat then
    digits ++ List.replicate (count.toNat - digits.length) '0'
      ++ (if layout.point then ['.', '0'] else [])
  else
    digits.take count.toNat ++ '.' :: digits.drop count.toNat

/-- Digits with one of them before the point, and the exponent `k`. -/
def scientific (layout : Layout) (digits : List Char) (k : Int) : List Char :=
  let sign := if k < 0 then ['-'] else if layout.plus then ['+'] else []
  let head := match digits with
    | [] => []
    | [d] => [d]
    | d :: rest => d :: '.' :: rest
  head ++ 'e' :: sign ++ digitsOf k.natAbs

/-- The text of the magnitude of a decimal number. -/
def Layout.magnitude (layout : Layout) (x : Numeral) : List Char :=
  if x.digits = 0 then if layout.point then ['0', '.', '0'] else ['0']
  else
    let digits := digitsOf x.digits
    let k := digits.length + x.exponent - 1
    if layout.least.all (· ≤ k) ∧ layout.most.all (k ≤ ·) then positional layout digits (k + 1)
    else scientific layout digits k

/-- The text of a double. -/
def Layout.write (layout : Layout) (x : Float) : List Char :=
  if x.isNaN then ['N', 'a', 'N']
  else
    let size := if x.isInf then ['i', 'n', 'f'] else layout.magnitude (shortest layout.tie x)
    if signBit x then '-' :: size else size

/-- The text of a double as error messages have it. -/
def messageText (x : Float) : String :=
  String.ofList (Layout.message.write x)

/-- The text of a double with exactly `count` digits after the point, `count` at least one. -/
def fixedText (count : Nat) (x : Float) : String :=
  String.ofList <|
    if x.isNaN then ['N', 'a', 'N']
    else
      let size :=
        if x.isInf then ['i', 'n', 'f']
        else
          let units := places count x
          let tail := digitsOf (units % tenPow count)
          digitsOf (units / tenPow count)
            ++ '.' :: (List.replicate (count - tail.length) '0' ++ tail)
      if signBit x then '-' :: size else size

end QueryForecast.Decimal
