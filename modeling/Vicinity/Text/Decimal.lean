import Vicinity.Text.Blank

/-!
# Whole numbers in decimal

The decimal digits of Unicode 14 (category Nd), of every script, and the whole numbers that they write.
-/

namespace Vicinity.Text

/-- The zeros outside ASCII; the nine code points after a zero are the other digits of its script. -/
def decimalZeros : List Nat := [
  0x660, 0x6f0, 0x7c0, 0x966, 0x9e6, 0xa66, 0xae6, 0xb66, 0xbe6, 0xc66, 0xce6, 0xd66, 0xde6,
  0xe50, 0xed0, 0xf20, 0x1040, 0x1090, 0x17e0, 0x1810, 0x1946, 0x19d0, 0x1a80, 0x1a90, 0x1b50,
  0x1bb0, 0x1c40, 0x1c50, 0xa620, 0xa8d0, 0xa900, 0xa9d0, 0xa9f0, 0xaa50, 0xabf0, 0xff10, 0x104a0,
  0x10d30, 0x11066, 0x110f0, 0x11136, 0x111d0, 0x112f0, 0x11450, 0x114d0, 0x11650, 0x116c0,
  0x11730, 0x118e0, 0x11950, 0x11c50, 0x11d50, 0x11da0, 0x16a60, 0x16ac0, 0x16b50, 0x1d7ce,
  0x1d7d8, 0x1d7e2, 0x1d7ec, 0x1d7f6, 0x1e140, 0x1e2f0, 0x1e950, 0x1fbf0]

/-- The value of a decimal digit of any script. -/
def decimalValue? (c : Char) : Option Nat :=
  let n := c.toNat
  if n < 0x80 then if c.isDigit then some (n - 0x30) else none
  else (decimalZeros.find? fun first => first ≤ n && n ≤ first + 9).map (n - ·)

/-- The text with every decimal digit in ASCII. -/
def asciiDigits (s : List Char) : List Char :=
  s.map fun c => match decimalValue? c with
    | some v => Char.ofNat (0x30 + v)
    | none => c

/-- The value of ASCII digits, among which single underscores may stand. -/
def digitsValue? (s : List Char) : Option Nat := go s false 0
where
  /-- Goes on with the value so far, knowing whether a digit came last. -/
  go : List Char → Bool → Nat → Option Nat
    | [], afterDigit, n => if afterDigit then some n else none
    | '_' :: rest, true, n => go rest false n
    | c :: rest, _, n => if c.isDigit then go rest true (n * 10 + (c.toNat - 0x30)) else none

/-- The whole number that ASCII digits and a sign write. -/
def signedValue? : List Char → Option Int
  | '-' :: digits => (digitsValue? digits).map fun n => -(n : Int)
  | '+' :: digits => (digitsValue? digits).map Int.ofNat
  | digits => (digitsValue? digits).map Int.ofNat

/-- The most digits of a number in decimal. -/
def maxDigits : Nat := 4300

/-- The whole number that a text writes with digits of any script, blanks around it. -/
def wholeNumber? (s : List Char) : Option Int :=
  let s := asciiDigits (trim s)
  if maxDigits < s.countP (·.isDigit) then none else signedValue? s

end Vicinity.Text
