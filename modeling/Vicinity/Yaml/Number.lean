import Vicinity.Config.Fault
import Vicinity.Text.Decimal
import Vicinity.Text.Lines
import Vicinity.Text.Pattern

/-!
# Numbers in YAML

The forms in which whole numbers and floating-point numbers are written, and their values. Digits may be
set apart by underscores, and colons separate sixties.
-/

namespace Vicinity.Yaml

open Vicinity.Text

/-! ### Forms -/

open Pattern

/-- A sign or nothing. -/
def optionalSign : Pattern := opt (.one fun c => c == '+' || c == '-')

/-- A digit or an underscore. -/
def isDigitOrGap (c : Char) : Bool := c.isDigit || c == '_'

/-- Digits and underscores after a digit that is not zero. -/
def positiveDigits : Pattern := .one (fun c => '1' ≤ c && c ≤ '9') ++ .run 0 isDigitOrGap

/-- A colon and a number below sixty, once or more often. -/
def sixties : Pattern :=
  let part : Pattern :=
    Pattern.text ":" ++ opt (.one fun c => '0' ≤ c && c ≤ '5') ++ .one (·.isDigit)
  part ++ .many part

/-- The forms of a whole number: in base 2, 8, 10, 16 or in sixties. -/
def wholeForm : Pattern :=
  optionalSign ++
    (.either (Pattern.text "0b" ++ .run 1 fun c => c == '0' || c == '1' || c == '_') <|
      .either (Pattern.text "0" ++ .run 1 fun c => ('0' ≤ c && c ≤ '7') || c == '_') <|
      .either (Pattern.text "0") <|
      .either positiveDigits <|
      .either (Pattern.text "0x" ++ .run 1 fun c =>
        isDigitOrGap c || ('a' ≤ c && c ≤ 'f') || ('A' ≤ c && c ≤ 'F')) <|
      positiveDigits ++ sixties)

/-- An exponent, with its sign, or nothing. -/
def optionalExponent : Pattern :=
  opt (.one (fun c => c == 'e' || c == 'E') ++ .one (fun c => c == '+' || c == '-') ++
    .run 1 (·.isDigit))

/-- Digits and underscores after a digit. -/
def groupedDigits : Pattern := .one (·.isDigit) ++ .run 0 isDigitOrGap

/-- The forms of a floating-point number: with a point, in sixties with a point, infinite, or none. -/
def floatForm : Pattern :=
  .either (optionalSign ++ groupedDigits ++ Pattern.text "." ++ .run 0 isDigitOrGap ++
      optionalExponent) <|
    .either (Pattern.text "." ++ groupedDigits ++ optionalExponent) <|
    .either (optionalSign ++ groupedDigits ++ sixties ++ Pattern.text "." ++
      .run 0 isDigitOrGap) <|
    .either (optionalSign ++ anyOf [".inf", ".Inf", ".INF"]) <|
    anyOf [".nan", ".NaN", ".NAN"]

/-! ### Values -/

/-- The value of a digit in bases up to sixteen. -/
def digitValue (c : Char) : Nat :=
  if c.isDigit then c.toNat - '0'.toNat
  else if c.isAlpha then c.toLower.toNat - 'a'.toNat + 10
  else 36

/-- The whole number that a text writes in a base, with blanks around it. -/
def wholeIn (base : Nat) (text : List Char) : Except NumberFault Int :=
  let (negative, digits) := match asciiDigits (trim text) with
    | '-' :: digits => (true, digits)
    | '+' :: digits => (false, digits)
    | digits => (false, digits)
  if digits.isEmpty || digits.any fun c => base ≤ digitValue c then .error (.notWhole text base)
  else if base = 10 ∧ maxDigits < digits.length then .error (.tooLong digits.length)
  else
    let n : Nat := digits.foldl (fun n c => base * n + digitValue c) 0
    .ok (if negative then -n else n)

/-- Takes a sign off a text without underscores. -/
def splitSign (text : List Char) : Bool × List Char :=
  match text.filter (· != '_') with
  | '-' :: rest => (true, rest)
  | '+' :: rest => (false, rest)
  | rest => (false, rest)

/-- The parts of a number in sixties put together, the highest first. -/
def ofSixties {α : Type} (times60Plus : α → α → α) (zero : α) (parts : List α) : α :=
  parts.foldl times60Plus zero

/-- The whole number that a text writes. -/
def wholeNumber (text : List Char) : Except NumberFault Int := do
  let (negative, digits) := splitSign text
  let n ← match digits with
    | [] => .error .empty
    | '0' :: 'b' :: rest => wholeIn 2 rest
    | '0' :: 'x' :: rest => wholeIn 16 rest
    | ['0'] => .ok 0
    | '0' :: _ => wholeIn 8 digits
    | _ =>
      if digits.contains ':' then do
        let parts ← (Text.splitOn ':' digits).mapM (wholeIn 10)
        .ok (ofSixties (fun n part => 60 * n + part) 0 parts)
      else wholeIn 10 digits
  .ok (if negative then -n else n)

/-- The largest power of ten that matters to a floating-point number with so many digits. -/
def maxExponent (digits : Nat) : Nat := 400 + digits

/-- The value of decimal digits with a point before the last `places` and a power of ten. -/
def scaled (digits : List Char) (places : Nat) (exponent : Int) : Float :=
  let m := digits.foldl (fun n c => 10 * n + digitValue c) 0
  let e := exponent - places
  let n := min e.natAbs (maxExponent digits.length)
  Float.ofScientific m (e < 0) n

/-- The power of ten after a significand: none where it is malformed, zero where there is none. -/
def exponentOf : List Char → Option Int
  | [] => some 0
  | c :: rest =>
    if c == 'e' then
      let (negative, digits) := match rest with
        | '-' :: digits => (true, digits)
        | '+' :: digits => (false, digits)
        | digits => (false, digits)
      if digits.isEmpty || digits.any (fun c => !c.isDigit) then none
      else
        let n : Nat := digits.foldl (fun n c => 10 * n + digitValue c) 0
        some (if negative then -n else n)
    else none

/-- The floating-point number that a text in lower case writes in decimal, with blanks around it. -/
def floatIn (text : List Char) : Except NumberFault Float :=
  let (negative, rest) := match asciiDigits (trim text) with
    | '-' :: rest => (true, rest)
    | '+' :: rest => (false, rest)
    | rest => (false, rest)
  let signed (x : Float) := if negative then -x else x
  if rest = "inf".toList ∨ rest = "infinity".toList then .ok (signed (1 / 0))
  else if rest = "nan".toList then .ok (0 / 0)
  else
    let whole := rest.takeWhile (·.isDigit)
    let rest := rest.dropWhile (·.isDigit)
    let (fraction, rest) : List Char × List Char := match rest with
      | '.' :: rest => (List.takeWhile (·.isDigit) rest, List.dropWhile (·.isDigit) rest)
      | rest => ([], rest)
    match exponentOf rest with
    | some e =>
      if whole.isEmpty && fraction.isEmpty then .error (.notFloat text)
      else .ok (signed (scaled (whole ++ fraction) fraction.length e))
    | none => .error (.notFloat text)

/-- The floating-point number that a text writes. -/
def floatNumber (text : List Char) : Except NumberFault Float := do
  let (negative, digits) := splitSign (text.map Char.toLower)
  let x ←
    if (text.filter (· != '_')).isEmpty then .error .empty
    else if digits = ".inf".toList then .ok (1 / 0)
    else if digits = ".nan".toList then .ok (0 / 0)
    else if digits.contains ':' then do
      let parts ← (Text.splitOn ':' digits).mapM floatIn
      .ok (ofSixties (fun x part => 60 * x + part) 0 parts)
    else floatIn digits
  .ok (if negative then -x else x)

end Vicinity.Yaml
