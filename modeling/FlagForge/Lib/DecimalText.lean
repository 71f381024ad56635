/-
Module: FlagForge.Lib.DecimalText
Layer: Lib
Purpose: Which texts spell a binary64 number, and which number they spell: an optional sign, then
  digits with at most one point among or beside them and an optional exponent, or one of the words
  for infinity and for not a number, in any case. The number is the nearest one.
Imports: none
Trusted boundary: none
Main exports: Binary64.parse
-/

namespace FlagForge.Binary64

open Float.Model (UnpackedFloat)

/-- The number spelled by decimal digits. -/
def digitsValue (digits : List Char) : Nat :=
  digits.foldl (fun acc d => 10 * acc + (d.toNat - '0'.toNat)) 0

/-- Whether a text begins with a minus, and what follows its sign if it has one. -/
def takeSign : List Char → Bool × List Char
  | '-' :: text => (true, text)
  | '+' :: text => (false, text)
  | text => (false, text)

/-- The power of ten that ends a number: nothing, or `e` and an integer. -/
def parseExponent : List Char → Option Int
  | [] => some 0
  | c :: text =>
      let (negative, digits) := takeSign text
      if c.toLower = 'e' ∧ digits ≠ [] ∧ digits.all Char.isDigit then
        some (if negative then -digitsValue digits else digitsValue digits)
      else none

/-- The digits after the point, if there is one, and the text behind them. -/
def takeFraction : List Char → List Char × List Char
  | '.' :: text => (text.takeWhile Char.isDigit, text.dropWhile Char.isDigit)
  | text => ([], text)

/-- A number without a sign, which has a digit on one side of its point. -/
def parseDecimal (text : List Char) : Option Float :=
  let whole := text.takeWhile Char.isDigit
  let (fraction, rest) := takeFraction (text.dropWhile Char.isDigit)
  if whole = [] ∧ fraction = [] then none
  else
    (parseExponent rest).map fun (power : Int) =>
      let exponent : Int := power - fraction.length
      Float.ofScientific (digitsValue (whole ++ fraction)) (decide (exponent < 0)) exponent.natAbs

/-- A number, or a word for one, without a sign. -/
def parseMagnitude (text : List Char) : Option Float :=
  let word := text.map Char.toLower
  if word = "inf".toList ∨ word = "infinity".toList then
    some (.ofModel (.pack (.infinity .positive)))
  else if word = "nan".toList then some (.ofModel (.pack .notANumber))
  else parseDecimal text

/-- The number that a text spells. -/
def parse (text : List Char) : Option Float :=
  let (negative, magnitude) := takeSign text
  (parseMagnitude magnitude).map fun x => if negative then -x else x

example : parse "-.5e1".toList = some (-5) := by decide +kernel

example : (parse "1.10".toList, parse "1.1.0".toList, parse ".".toList) = (some 1.1, none, none) := by
  decide +kernel

end FlagForge.Binary64
