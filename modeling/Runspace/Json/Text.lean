import Runspace.Json.Token

/-!
# Text — reading and writing JSON

Tokens are gathered into a value by a machine with a stack of unfinished arrays and objects; a
value is written as the spelling of its tokens, without blanks. Arrays and objects nested more
than 127 deep are well-formed but unreadable.

* `Builder.step`, `Json.ofTokens?`: the machine, and what a list of tokens says;
* `Json.read?`: what a text says, unless it is no JSON text;
* `Json.tokens`, `Json.write`: the text of a value.
-/

namespace Runspace

/-! ## Reading -/

/-- The deepest nesting of arrays and objects that has a value. -/
def maxDepth : Nat := 127

/-- An array or object that is not finished. -/
inductive Frame where
  /-- An array with these elements, last one first. -/
  | array (elements : List Json)
  /-- An object with these members, last one first, and whether all its keys have a value. -/
  | object (members : List (String × Json)) (readable : Bool)
  | member (members : List (String × Json)) (readable : Bool) (key : Option String)

/-- What may come next. -/
inductive Expect where
  | value
  | element
  | firstKey
  | key
  | colon
  | more
  | done (j : Json)

/-- The machine: the unfinished arrays and objects, innermost first, and what may come next. -/
structure Builder where
  stack : List Frame := []
  expect : Expect := .value

namespace Builder

/-- Takes a whole value: as the next element or member of what is unfinished, or as all that the
text says. -/
def place (stack : List Frame) (j : Json) : Builder :=
  match stack with
  | .array js :: rest => ⟨.array (j :: js) :: rest, .more⟩
  | .member ms readable (some k) :: rest => ⟨.object ((k, j) :: ms) readable :: rest, .more⟩
  | .member ms _ none :: rest => ⟨.object ms false :: rest, .more⟩
  | .object ms readable :: rest => ⟨.object ms readable :: rest, .more⟩
  | [] => ⟨[], .done j⟩

/-- The value of a finished array or object that had `outer` unfinished ones around it. -/
def finished (outer : List Frame) (j : Json) : Json :=
  if maxDepth ≤ outer.length then .unreadable else j

/-- Takes the end of an array. -/
def closeArray : List Frame → Option Builder
  | .array js :: rest => some (place rest (finished rest (.array js.reverse)))
  | _ => none

/-- Takes the end of an object. -/
def closeObject : List Frame → Option Builder
  | .object ms readable :: rest =>
    some (place rest (finished rest (if readable then .object ms.reverse else .unreadable)))
  | _ => none

/-- Takes the start of a value. -/
def openValue (stack : List Frame) : Token → Option Builder
  | .scalar j => some (place stack j)
  | .text (some s) => some (place stack (.string s))
  | .text none => some (place stack .unreadable)
  | .arrayOpen => some ⟨.array [] :: stack, .element⟩
  | .objectOpen => some ⟨.object [] true :: stack, .firstKey⟩
  | _ => none

/-- Takes a key. -/
def openMember : List Frame → Token → Option Builder
  | .object ms readable :: rest, .text k => some ⟨.member ms readable k :: rest, .colon⟩
  | _, _ => none

/-- Takes a token. -/
def step (b : Builder) (t : Token) : Option Builder :=
  match b.expect, t with
  | .value, t => openValue b.stack t
  | .element, .arrayClose => closeArray b.stack
  | .element, t => openValue b.stack t
  | .firstKey, .objectClose => closeObject b.stack
  | .firstKey, t => openMember b.stack t
  | .key, t => openMember b.stack t
  | .colon, .colon => some ⟨b.stack, .value⟩
  | .more, .arrayClose => closeArray b.stack
  | .more, .objectClose => closeObject b.stack
  | .more, .comma =>
    match b.stack with
    | .array js :: rest => some ⟨.array js :: rest, .value⟩
    | .object ms readable :: rest => some ⟨.object ms readable :: rest, .key⟩
    | _ => none
  | _, _ => none

/-- What has been said, if nothing is unfinished. -/
def result? (b : Builder) : Option Json :=
  match b.expect with
  | .done j => some j
  | _ => none

end Builder

namespace Json

/-- What a list of tokens says. -/
def ofTokens? (ts : List Token) : Option Json := (ts.foldlM Builder.step {}).bind Builder.result?

/-- What a text says, unless it is no JSON text. -/
def read? (cs : List Char) : Option Json := (tokenize? cs).bind ofTokens?

/-! ## Writing -/

mutual

/-- The tokens of a value. -/
def tokens : Json → List Token
  | .null => [.scalar .null]
  | .bool b => [.scalar (.bool b)]
  | .number n => [.scalar (.number n)]
  | .string s => [.text (some s)]
  | .array [] => [.arrayOpen, .arrayClose]
  | .array (j :: js) => .arrayOpen :: (j.tokens ++ tokensAfterElement js ++ [.arrayClose])
  | .object [] => [.objectOpen, .objectClose]
  | .object ((k, j) :: ms) =>
    .objectOpen :: .text (some k) :: .colon ::
      (j.tokens ++ tokensAfterMember ms ++ [.objectClose])
  | .unreadable => [.scalar .unreadable]

/-- The tokens of the elements after the first. -/
def tokensAfterElement : List Json → List Token
  | [] => []
  | j :: js => .comma :: (j.tokens ++ tokensAfterElement js)

/-- The tokens of the members after the first. -/
def tokensAfterMember : List (String × Json) → List Token
  | [] => []
  | (k, j) :: ms => .comma :: .text (some k) :: .colon :: (j.tokens ++ tokensAfterMember ms)

end

/-- The text of a value. -/
def write (j : Json) : List Char := j.tokens.flatMap Token.spell

/-- The text of a value as a string. -/
def toText (j : Json) : String := String.ofList j.write

end Json

end Runspace
