import Runspace.Hex
import Runspace.Json.Numeral

/-!
# Tokens — the words of a JSON text

A text is read one character at a time by a machine that stands between two tokens, inside a word
(a number or a literal) or inside a string. Since it only steps over characters, reading two texts
one after the other is reading their concatenation.

* `Token`, `Token.spell`: the words of a text and how each is written;
* `Lexer.step`, `tokenize?`: the machine, and the tokens of a whole text.
-/

namespace Runspace

/-! ## Tokens and their spelling -/

/-- A word of a JSON text. -/
inductive Token where
  | arrayOpen
  | arrayClose
  | objectOpen
  | objectClose
  | comma
  | colon
  | scalar (j : Json)
  | text (s : Option String)

/-- How a character is written inside a string: quote, backslash and control characters are
escaped, by a letter where there is one, and every other character stands for itself. -/
def escapeChar (c : Char) : List Char :=
  if c = '"' then ['\\', '"']
  else if c = '\\' then ['\\', '\\']
  else if c = '\x08' then ['\\', 'b']
  else if c = '\x0c' then ['\\', 'f']
  else if c = '\n' then ['\\', 'n']
  else if c = '\r' then ['\\', 'r']
  else if c = '\t' then ['\\', 't']
  else if c.toNat < 32 then ['\\', 'u', '0', '0'] ++ hexPair c.toNat
  else [c]

/-- The spelling of a string, in quotes. -/
def quote (s : String) : List Char := '"' :: s.toList.flatMap escapeChar ++ ['"']

/-- The spelling of a token; what has no value is written as null. -/
def Token.spell : Token → List Char
  | .arrayOpen => ['[']
  | .arrayClose => [']']
  | .objectOpen => ['\x7b']
  | .objectClose => ['\x7d']
  | .comma => [',']
  | .colon => [':']
  | .scalar (.bool true) => ['t', 'r', 'u', 'e']
  | .scalar (.bool false) => ['f', 'a', 'l', 's', 'e']
  | .scalar (.number n) => n.text
  | .scalar _ => ['n', 'u', 'l', 'l']
  | .text (some s) => quote s
  | .text none => quote ""

/-! ## Strings -/

/-- The part of a string that has been read. -/
structure TextSoFar where
  /-- Its characters, last one first. -/
  chars : List Char := []
  half : Option Nat := none
  /-- Whether there is a half without its other half, or a byte that belongs to no character. -/
  broken : Bool := false

namespace TextSoFar

/-- Takes a character. -/
def push (t : TextSoFar) (c : Char) : TextSoFar :=
  { chars := c :: t.chars, half := none, broken := t.broken || t.half.isSome }

/-- Takes a 16-bit unit: a character of its own, or half of a surrogate pair. -/
def pushUnit (t : TextSoFar) (u : Nat) : TextSoFar :=
  if 0xD800 ≤ u ∧ u < 0xDC00 then
    { t with half := some u, broken := t.broken || t.half.isSome }
  else if 0xDC00 ≤ u ∧ u < 0xE000 then
    match t.half with
    | some first =>
      { t with
        chars := Char.ofNat (0x10000 + (first - 0xD800) * 1024 + (u - 0xDC00)) :: t.chars
        half := none }
    | none => { t with broken := true }
  else t.push (Char.ofNat u)

/-- The string, at its closing quote. -/
def close (t : TextSoFar) : Option String :=
  if t.broken || t.half.isSome then none else some (String.ofList t.chars.reverse)

end TextSoFar

/-! ## The machine -/

/-- Where the machine stands. -/
inductive Mode where
  | between
  /-- Inside a number or a literal; its characters, last one first. -/
  | word (chars : List Char)
  | text (t : TextSoFar)
  | escape (t : TextSoFar)
  /-- Inside the four digits of a unit in a string: how many are missing, and the value so far. -/
  | unit (t : TextSoFar) (missing value : Nat)

/-- The machine: where it stands, and the tokens it has read, last one first. -/
structure Lexer where
  mode : Mode := .between
  tokens : List Token := []

/-- Whether a character may belong to a number or a literal. -/
def isWordChar (c : Char) : Bool := c.isAlphanum || c = '-' || c = '+' || c = '.'

/-- The token of a number or a literal. -/
def wordToken? (cs : List Char) : Option Token :=
  if cs = ['n', 'u', 'l', 'l'] then some (.scalar .null)
  else if cs = ['t', 'r', 'u', 'e'] then some (.scalar (.bool true))
  else if cs = ['f', 'a', 'l', 's', 'e'] then some (.scalar (.bool false))
  else (Numeral.read? cs).map fun n => .scalar n.value

/-- The character that a letter stands for after a backslash. -/
def escaped? (c : Char) : Option Char :=
  if c = '"' ∨ c = '\\' ∨ c = '/' then some c
  else if c = 'b' then some '\x08'
  else if c = 'f' then some '\x0c'
  else if c = 'n' then some '\n'
  else if c = 'r' then some '\r'
  else if c = 't' then some '\t'
  else none

namespace Lexer

/-- Takes a character between two tokens. -/
def start (ts : List Token) (c : Char) : Option Lexer :=
  if c = ' ' ∨ c = '\n' ∨ c = '\t' ∨ c = '\r' then some ⟨.between, ts⟩
  else if c = '[' then some ⟨.between, .arrayOpen :: ts⟩
  else if c = ']' then some ⟨.between, .arrayClose :: ts⟩
  else if c = '\x7b' then some ⟨.between, .objectOpen :: ts⟩
  else if c = '\x7d' then some ⟨.between, .objectClose :: ts⟩
  else if c = ',' then some ⟨.between, .comma :: ts⟩
  else if c = ':' then some ⟨.between, .colon :: ts⟩
  else if c = '"' then some ⟨.text {}, ts⟩
  else if isWordChar c then some ⟨.word [c], ts⟩
  else none

/-- Takes a character. A word ends at the first character that cannot belong to one; a string
holds no control characters. -/
def step (l : Lexer) (c : Char) : Option Lexer :=
  match l.mode with
  | .between => start l.tokens c
  | .word w =>
    if isWordChar c then some ⟨.word (c :: w), l.tokens⟩
    else (wordToken? w.reverse).bind fun t => start (t :: l.tokens) c
  | .text t =>
    if c = '"' then some ⟨.between, .text t.close :: l.tokens⟩
    else if c = '\\' then some ⟨.escape t, l.tokens⟩
    else if c.toNat < 32 then none
    else some ⟨.text (t.push c), l.tokens⟩
  | .escape t =>
    if c = 'u' then some ⟨.unit t 4 0, l.tokens⟩
    else (escaped? c).map fun e => ⟨.text (t.push e), l.tokens⟩
  | .unit t missing value =>
    (hexValue? c).map fun d =>
      if missing ≤ 1 then ⟨.text (t.pushUnit (value * 16 + d.val)), l.tokens⟩
      else ⟨.unit t (missing - 1) (value * 16 + d.val), l.tokens⟩

/-- The tokens at the end of a text. -/
def finish (l : Lexer) : Option (List Token) :=
  match l.mode with
  | .between => some l.tokens.reverse
  | .word w => (wordToken? w.reverse).map fun t => (t :: l.tokens).reverse
  | _ => none

end Lexer

/-- The tokens of a text, unless some part of it is none. -/
def tokenize? (cs : List Char) : Option (List Token) :=
  (cs.foldlM Lexer.step {}).bind Lexer.finish

end Runspace
