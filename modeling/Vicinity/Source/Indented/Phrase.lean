import Vicinity.Source.Indented.Token

/-!
# Phrases

Grammars with ordered choices, and finding the phrase of a rule in a row of tokens. A grammar gives
each rule its form. Of two alternatives the first that is found is taken, whatever follows, and a
repetition takes as much as it can. What a rule finds at a place does not depend on how the place was
come to, so it is looked for once and then remembered.
-/

namespace Vicinity.Indented

/-- The form of a rule; `ρ` are the rules that it can name. -/
inductive Form (ρ : Type) where
  /-- A token of a kind. -/
  | kind (k : TokenKind)
  /-- A reserved word or an operator. -/
  | word (text : String)
  /-- The name with the given text. -/
  | named (text : String)
  /-- A phrase of a rule. -/
  | rule (r : ρ)
  /-- One form after the other. -/
  | row (forms : List (Form ρ))
  /-- The first of the forms that is found. -/
  | choice (forms : List (Form ρ))
  /-- A form as often as it is found. -/
  | many (form : Form ρ)
  /-- Nothing, where a form is found. -/
  | ahead (form : Form ρ)
  /-- Nothing, where a form is not found. -/
  | absent (form : Form ρ)

namespace Form

variable {ρ : Type}

/-- A form or nothing. -/
def opt (form : Form ρ) : Form ρ := .choice [form, .row []]

/-- A form once or more often. -/
def repeated (form : Form ρ) : Form ρ := .row [form, .many form]

/-- A form once or more often, with a separator between each two. -/
def separated (separator : String) (form : Form ρ) : Form ρ :=
  .row [form, .many (.row [.word separator, form])]

end Form

/-- A phrase: a token, or what was found for a rule. -/
inductive Phrase (ρ : Type) where
  | token (t : Token)
  | node (rule : ρ) (parts : List (Phrase ρ))

namespace Phrase

variable {ρ : Type}

/-- The phrase of a rule with the given parts; a single part stands for itself. -/
def ofParts (rule : ρ) : List (Phrase ρ) → Phrase ρ
  | [part] => part
  | parts => .node rule parts

/-- Whether the phrase is the given reserved word or operator. -/
def isWord (text : String) : Phrase ρ → Bool
  | .token t => t.isWord text
  | .node _ _ => false

/-- The text of a name. -/
def name? : Phrase ρ → Option String
  | .token t => if t.kind = .name then some t.text else none
  | .node _ _ => none

mutual

/-- The tokens of a phrase. -/
def tokens : Phrase ρ → List Token
  | .token t => [t]
  | .node _ parts => tokensOf parts

/-- The tokens of phrases. -/
def tokensOf : List (Phrase ρ) → List Token
  | [] => []
  | part :: parts => part.tokens ++ tokensOf parts

end

/-- The span of a phrase, from its first token to the last that is not of layout. -/
def span (phrase : Phrase ρ) : Span :=
  let tokens := phrase.tokens.filter (!·.kind.isLayout)
  match tokens.head?, tokens.getLast? with
  | some first, some last => ⟨first.span.start, last.span.stop⟩
  | _, _ => default

end Phrase

/-- What is found somewhere: the phrases and the number of the token after them. -/
abbrev Found (ρ : Type) := Option (List (Phrase ρ) × Nat)

/-- What has been found for the rules at each token. -/
abbrev Memory (ρ : Type) := Array (List (ρ × Found ρ))

section

variable {ρ : Type} [BEq ρ] (forms : ρ → Form ρ) (tokens : Array Token)

/-- Takes the token at a place if it passes a test. -/
def takeToken (test : Token → Bool) (i : Nat) : Found ρ :=
  match tokens[i]? with
  | some t => if test t then some ([.token t], i + 1) else none
  | none => none

mutual

/-- Looks for a form at a token, in at most `fuel` nested steps. -/
def find : (fuel : Nat) → Form ρ → Nat → Memory ρ → Found ρ × Memory ρ
  | 0, _, _, memory => (none, memory)
  | _ + 1, .kind k, i, memory => (takeToken tokens (·.kind == k) i, memory)
  | _ + 1, .word text, i, memory => (takeToken tokens (·.isWord text) i, memory)
  | _ + 1, .named text, i, memory =>
    (takeToken tokens (fun t => t.kind == .name && t.text == text) i, memory)
  | fuel + 1, .rule r, i, memory =>
    match (memory.getD i []).lookup r with
    | some found => (found, memory)
    | none =>
      let (found, memory) := find fuel (forms r) i memory
      let found := found.map fun (parts, j) => ([Phrase.ofParts r parts], j)
      (found, memory.modify i ((r, found) :: ·))
  | fuel + 1, .row row, i, memory => findRow fuel row i [] memory
  | fuel + 1, .choice choices, i, memory => findFirst fuel choices i memory
  | fuel + 1, .many form, i, memory => findMany fuel form i [] memory
  | fuel + 1, .ahead form, i, memory =>
    let (found, memory) := find fuel form i memory
    (found.map fun _ => ([], i), memory)
  | fuel + 1, .absent form, i, memory =>
    let (found, memory) := find fuel form i memory
    (if found.isSome then none else some ([], i), memory)

/-- Looks for forms in a row; `done` are the phrases so far, the last first. -/
def findRow : (fuel : Nat) → List (Form ρ) → Nat → List (Phrase ρ) → Memory ρ →
    Found ρ × Memory ρ
  | 0, _, _, _, memory => (none, memory)
  | _ + 1, [], i, done, memory => (some (done.reverse, i), memory)
  | fuel + 1, form :: row, i, done, memory =>
    match find fuel form i memory with
    | (some (parts, j), memory) => findRow fuel row j (parts.reverseAux done) memory
    | (none, memory) => (none, memory)

/-- Looks for the first form that is found. -/
def findFirst : (fuel : Nat) → List (Form ρ) → Nat → Memory ρ → Found ρ × Memory ρ
  | 0, _, _, memory => (none, memory)
  | _ + 1, [], _, memory => (none, memory)
  | fuel + 1, form :: choices, i, memory =>
    match find fuel form i memory with
    | (some found, memory) => (some found, memory)
    | (none, memory) => findFirst fuel choices i memory

/-- Looks for a form as often as it is found and takes tokens. -/
def findMany : (fuel : Nat) → Form ρ → Nat → List (Phrase ρ) → Memory ρ → Found ρ × Memory ρ
  | 0, _, _, _, memory => (none, memory)
  | fuel + 1, form, i, done, memory =>
    match find fuel form i memory with
    | (some (parts, j), memory) =>
      if i < j then findMany fuel form j (parts.reverseAux done) memory
      else (some (done.reverse, i), memory)
    | (none, memory) => (some (done.reverse, i), memory)

end

/-- How deeply the forms of a grammar nest without taking a token, at most. -/
def maxFormDepth : Nat := 1000

/-- The phrase of a rule that the tokens begin with. -/
def phrase? (rule : ρ) : Option (Phrase ρ) :=
  let memory : Memory ρ := Array.replicate (tokens.size + 1) []
  match (find forms tokens ((tokens.size + 1) * maxFormDepth) (.rule rule) 0 memory).1 with
  | some ([phrase], _) => some phrase
  | _ => none

end

end Vicinity.Indented
