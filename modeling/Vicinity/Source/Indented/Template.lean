import Vicinity.Source.Indented.Rule
import Vicinity.Source.Indented.Tokens

/-!
# Literals and their holes

Whether the string literals among the tokens of a source are well formed: their escapes are complete,
literals that stand for bytes are in ASCII and are not next to others, and the holes of templates hold
expressions. A hole may give the way in which its value is shown, in a text that may have holes itself.
-/

namespace Vicinity.Indented

/-! ### The text of a template -/

/-- The literal text that a template goes on with, whether it goes on after a doubled brace, and what
follows. The outer text of a template doubles the braces that it does not open a hole with; an escape
that names a character keeps its braces. -/
def templatePiece (isRaw isOuter : Bool) :
    (inName : Bool) → List Char → (piece : List Char) → Option (List Char × Bool × List Char)
  | _, [], piece => some (piece.reverse, false, [])
  | true, c :: rest, piece => templatePiece isRaw isOuter (c != '\x7d') rest (c :: piece)
  | false, '\\' :: c :: rest, piece =>
    if isRaw then templatePiece isRaw isOuter false (c :: rest) ('\\' :: piece)
    else if c == 'N' && rest.head? == some '\x7b' then
      templatePiece isRaw isOuter true rest (c :: '\\' :: piece)
    else if isBrace c then atBrace c rest ('\\' :: piece)
    else templatePiece isRaw isOuter false rest (c :: '\\' :: piece)
  | false, c :: rest, piece =>
    if isBrace c then atBrace c rest piece
    else templatePiece isRaw isOuter false rest (c :: piece)
where
  /-- A brace. -/
  isBrace (c : Char) : Bool := c == '\x7b' || c == '\x7d'
  /-- Ends the text at a brace. -/
  atBrace (c : Char) (rest piece : List Char) : Option (List Char × Bool × List Char) :=
    if isOuter && rest.head? == some c then some ((c :: piece).reverse, true, rest.tail)
    else if isOuter && c == '\x7d' then none
    else some (piece.reverse, false, c :: rest)

/-- The quotes in which a part of a hole's expression stands. -/
inductive HoleQuote where
  | none
  | single (quote : Char)
  | triple (quote : Char)

/-- The expression of a hole, given what follows its brace, and what comes after the expression. A
backslash or a comment makes it none. -/
def holeExpression : List Char → (brackets : List Char) → HoleQuote → (done : List Char) →
    Option (List Char × List Char)
  | [], _, _, _ => none
  | '\\' :: _, _, _, _ => none
  | a :: b :: c :: rest, brackets, .triple q, done =>
    if a == q && b == q && c == q then holeExpression rest brackets .none (c :: b :: a :: done)
    else holeExpression (b :: c :: rest) brackets (.triple q) (a :: done)
  | _ :: _, _, .triple _, _ => none
  | c :: rest, brackets, .single q, done =>
    holeExpression rest brackets (if c == q then .none else .single q) (c :: done)
  | c :: rest, brackets, .none, done =>
    if isQuote c then match rest with
      | d :: e :: more =>
        if c == d && d == e then holeExpression more brackets (.triple c) (e :: d :: c :: done)
        else holeExpression (d :: e :: more) brackets (.single c) (c :: done)
      | _ => none
    else if c == '#' then none
    else match closing? c with
      | some close =>
        if brackets.length < maxBrackets then
          holeExpression rest (close :: brackets) .none (c :: done)
        else none
      | none =>
        if brackets.isEmpty && ['!', ':', '\x7d', '=', '<', '>'].contains c then match rest with
          | d :: more =>
            if d == '=' && ['!', '=', '<', '>'].contains c then
              holeExpression more brackets .none (d :: c :: done)
            else if c == '<' || c == '>' then holeExpression (d :: more) brackets .none (c :: done)
            else some (done.reverse, c :: rest)
          | [] => if c == '<' || c == '>' then none else some (done.reverse, [c])
        else if [')', ']', '\x7d'].contains c then
          if brackets.head? = some c then holeExpression rest brackets.tail .none (c :: done)
          else none
        else holeExpression rest brackets .none (c :: done)

/-- Past the sign that a hole shows its expression, and the blanks after it. -/
def skipShown : List Char → List Char
  | '=' :: rest => rest.dropWhile fun c => c == ' ' || ('\t' ≤ c && c ≤ '\r')
  | rest => rest

/-- Past the letter of a conversion; none if it is no such letter. -/
def skipConversion : List Char → Option (List Char)
  | '!' :: c :: rest => if ['s', 'r', 'a'].contains c then some rest else none
  | ['!'] => none
  | rest => some rest

/-- How deeply holes nest in the texts that say how values are shown. -/
def maxHoleDepth : Nat := 2

/-- Whether literals next to each other all stand for bytes or all for text. -/
def agree : List Token → Bool
  | a :: b :: rest =>
    (a.kind != .quoted || b.kind != .quoted ||
      (quotedContent a.text.toList).1.isBytes == (quotedContent b.text.toList).1.isBytes) &&
    agree (b :: rest)
  | _ => true

mutual

/-- Whether the literals among tokens are well formed, in at most `fuel` nested steps. -/
def goodLiterals : (fuel : Nat) → List Token → Bool
  | 0, _ => false
  | fuel + 1, tokens =>
    agree tokens && tokens.all fun t => t.kind != .quoted || goodLiteral fuel t.text.toList

/-- Whether a literal is well formed. -/
def goodLiteral : (fuel : Nat) → List Char → Bool
  | 0, _ => false
  | fuel + 1, literal =>
    let (form, content) := quotedContent literal
    if form.isTemplate then afterTemplate fuel form.isRaw 0 content == some []
    else (!form.isBytes || content.all fun c => c.toNat < 0x80) &&
      (form.isRaw || hasGoodEscapes form.isBytes content)

/-- What follows the text of a template: nothing, or a brace that closes the hole around it. -/
def afterTemplate : (fuel : Nat) → (isRaw : Bool) → (depth : Nat) → List Char → Option (List Char)
  | 0, _, _, _ => none
  | fuel + 1, isRaw, depth, text => do
    let (piece, goesOn, rest) ← templatePiece isRaw (depth == 0) false text []
    if isRaw || hasGoodEscapes false piece then
      match goesOn, rest with
      | true, _ => afterTemplate fuel isRaw depth rest
      | false, '\x7b' :: hole =>
        let rest ← afterHole fuel isRaw depth hole
        afterTemplate fuel isRaw depth rest
      | false, _ => some rest
    else none

/-- What follows a hole, given what follows its opening brace. -/
def afterHole : (fuel : Nat) → (isRaw : Bool) → (depth : Nat) → List Char → Option (List Char)
  | 0, _, _, _ => none
  | fuel + 1, isRaw, depth, hole => do
    let (expression, rest) ← holeExpression hole [] .none []
    let rest ← skipConversion (skipShown rest)
    let rest ← match rest with
      | ':' :: shape => afterTemplate fuel isRaw (depth + 1) shape
      | rest => some rest
    if depth < maxHoleDepth ∧ goodExpression fuel expression then
      match rest with
      | '\x7d' :: rest => some rest
      | _ => none
    else none

/-- Whether the text of a hole is an expression; it is read as if it were in parentheses. -/
def goodExpression : (fuel : Nat) → List Char → Bool
  | 0, _ => false
  | fuel + 1, text =>
    !(text.all fun c => isSeparator c || c == '\n') &&
      match tokens? ('(' :: text ++ [')']) with
      | some tokens => (Rule.starExpressions.phrase? tokens).isSome && goodLiterals fuel tokens
      | none => false

end

end Vicinity.Indented
