import Vicinity.Source.Indented.Token

/-!
# Numbers

How far a number reaches at the beginning of a text. Digits may be grouped by single underscores; a
decimal integer has no leading zeros; and a number may only be followed by a letter where a word such
as `if` follows that can stand behind a number.
-/

namespace Vicinity.Indented

/-- A hexadecimal digit. -/
def isHexDigit (c : Char) : Bool :=
  c.isDigit || ('a' ≤ c && c ≤ 'f') || ('A' ≤ c && c ≤ 'F')

/-- An octal digit. -/
def isOctalDigit (c : Char) : Bool := '0' ≤ c && c ≤ '7'

/-- A binary digit. -/
def isBinaryDigit (c : Char) : Bool := c == '0' || c == '1'

namespace Numeral

/-- What follows the digits, in groups that an underscore joins, at the beginning of a text; none
where an underscore joins nothing. -/
def afterDigits (isDigit : Char → Bool) : List Char → Option (List Char)
  | '_' :: d :: rest => if isDigit d then afterDigits isDigit rest else none
  | ['_'] => none
  | c :: rest => if isDigit c then afterDigits isDigit rest else some (c :: rest)
  | [] => some []

/-- The words that may follow a number with nothing between. -/
def followers : List (List Char) :=
  ["and", "else", "for", "if", "in", "is", "not", "or"].map (·.toList)

/-- A character that could go on with a name. -/
def joins (c : Char) : Bool := c.isAlphanum || c == '_' || c.toNat ≥ 0x80

/-- A character that a number, or a word that follows it, can hold. -/
def mayBelong (c : Char) : Bool := joins c || c == '.' || c == '+' || c == '-'

/-- Whether a number may end before the text. -/
def mayEnd (rest : List Char) : Bool :=
  followers.any (·.isPrefixOf rest) || !rest.head?.any joins

/-- Ends a number of the kind before the text, if it may end there. -/
def ending (kind : TokenKind) (rest : List Char) : Option (TokenKind × List Char) :=
  if mayEnd rest then some (kind, rest) else none

/-- Goes on where an imaginary unit may stand. -/
def unit : List Char → Option (TokenKind × List Char)
  | 'j' :: rest => ending .imaginary rest
  | 'J' :: rest => ending .imaginary rest
  | rest => ending .number rest

/-- Goes on after the digits of an exponent's beginning. -/
def exponentDigits (rest : List Char) : Option (TokenKind × List Char) :=
  (afterDigits (·.isDigit) rest).bind unit

/-- Goes on where an exponent may stand: a letter, perhaps a sign, and digits. A letter without a sign
and digits belongs to what follows the number. -/
def exponent : List Char → Option (TokenKind × List Char)
  | c :: rest =>
    if c == 'e' || c == 'E' then match rest with
      | sign :: d :: more =>
        if sign == '+' || sign == '-' then
          if d.isDigit then exponentDigits (d :: more) else none
        else if sign.isDigit then exponentDigits (sign :: d :: more)
        else ending .number (c :: rest)
      | [d] => if d.isDigit then unit [] else if d == '+' || d == '-' then none
        else ending .number (c :: rest)
      | [] => ending .number (c :: rest)
    else unit (c :: rest)
  | [] => unit []

/-- Goes on after a decimal point. -/
def fraction : List Char → Option (TokenKind × List Char)
  | d :: rest =>
    if d.isDigit then (afterDigits (·.isDigit) (d :: rest)).bind exponent else exponent (d :: rest)
  | [] => exponent []

/-- The most digits of a decimal integer. -/
def maxIntegerDigits : Nat := 4300

/-- Whether the digits of a decimal integer are too many. Zeros alone never are. -/
def tooLong (digits : List Char) : Bool :=
  digits.head? != some '0' && (digits.filter (·.isDigit)).length > maxIntegerDigits

/-- Whether the digits of a decimal integer have zeros before another digit. -/
def hasLeadingZeros (digits : List Char) : Bool :=
  digits.head? == some '0' && digits.any (fun c => c.isDigit && c != '0')

/-- Ends a decimal integer, made of the characters `digits`, before the text. -/
def integerEnding (digits rest : List Char) : Option (TokenKind × List Char) :=
  if hasLeadingZeros digits || tooLong digits then none else ending .number rest

/-- A number that begins with a decimal digit and has no letter for its base. Directly before `else`,
where an exponent could begin, leading zeros are let through. -/
def decimal (text : List Char) : Option (TokenKind × List Char) := do
  let rest ← afterDigits (·.isDigit) text
  let digits := text.take (text.length - rest.length)
  match rest with
  | '.' :: rest => fraction rest
  | c :: more =>
    if c == 'j' || c == 'J' then unit (c :: more)
    else if c == 'e' || c == 'E' then
      let (kind, after) ← exponent (c :: more)
      if after.length == rest.length && tooLong digits then none else some (kind, after)
    else integerEnding digits rest
  | [] => integerEnding digits []

/-- A number in another base, after the letter for it. -/
def based (isDigit : Char → Bool) : List Char → Option (TokenKind × List Char)
  | d :: rest =>
    if isDigit d || d == '_' then (afterDigits isDigit (d :: rest)).bind (ending .number) else none
  | [] => none

/-- The kind of the number that a text begins with and what follows it; none if it is malformed. The
text begins with a digit, or with a point and a digit. -/
def read : List Char → Option (TokenKind × List Char)
  | '.' :: rest => fraction rest
  | '0' :: c :: rest =>
    if c == 'x' || c == 'X' then based isHexDigit rest
    else if c == 'o' || c == 'O' then based isOctalDigit rest
    else if c == 'b' || c == 'B' then based isBinaryDigit rest
    else decimal ('0' :: c :: rest)
  | text => decimal text

end Numeral

end Vicinity.Indented
