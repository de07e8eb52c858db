/-!
# Data

The values that a configuration file can hold, and the reading of numbers and switches from them.
-/

namespace Vicinity

/-- A value of a data file. -/
inductive Datum where
  | null
  | bool (b : Bool)
  | int (n : Int)
  | float (x : Float)
  | text (s : String)
  /-- Bytes, given in the text as base 64. -/
  | bytes (b : ByteArray)
  /-- A calendar date. -/
  | date
  /-- A date with a time of day. -/
  | dateTime
  | list (items : List Datum)
  /-- A pair of an ordered mapping. -/
  | pair (key value : Datum)
  /-- A set of values. -/
  | set (items : List Datum)
  /-- A mapping, in the order in which its keys first appear. -/
  | record (entries : List (Datum × Datum))
  deriving Inhabited

namespace Datum

/-- The entry of a record under a text. -/
def field? (entries : List (Datum × Datum)) (key : String) : Option Datum :=
  match entries with
  | [] => none
  | (.text k, v) :: more => if k = key then some v else field? more key
  | _ :: more => field? more key

end Datum

/-- What a floating-point number is as far as whole numbers are concerned. -/
inductive WholePart where
  /-- Not a finite number. -/
  | notFinite
  /-- A number with a fraction. -/
  | fractional
  /-- A whole number. -/
  | whole (n : Int)
  deriving DecidableEq, Repr

/-- Classifies a floating-point number by its sign, its exponent and its significand. -/
def WholePart.ofFloat (x : Float) : WholePart :=
  let bits := x.toBits.toNat
  let negative := bits >>> 63 = 1
  let exponent := (bits >>> 52) % (1 <<< 11)
  let fraction := bits % (1 <<< 52)
  let signed (n : Nat) : WholePart := .whole (if negative then -n else n)
  if exponent = 2047 then .notFinite
  else if exponent = 0 then if fraction = 0 then .whole 0 else .fractional
  else
    let significand := (1 <<< 52) + fraction
    if 1075 ≤ exponent then signed (significand <<< (exponent - 1075))
    else
      let scale := 1 <<< (1075 - exponent)
      if significand % scale = 0 then signed (significand / scale) else .fractional

end Vicinity
