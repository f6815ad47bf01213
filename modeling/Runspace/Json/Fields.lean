import Runspace.Json.Text

/-!
# Fields — records and choices in JSON

A record is written as an object with its fields in order. It is read from an object with its
fields in any order, whose other members are ignored, or from an array of its fields in order, of
which the last may be missing. A choice between words is read from the word, or from an object
with the word as its only key.

* `Json.fields?`: what a text says about each field of a record, if it says it at most once;
* `Json.choice?`: the word of a choice;
* `Json.member?`: a member that is written exactly once.
-/

namespace Runspace

namespace Json

/-- The values written for a key. -/
def valuesOf (k : String) (ms : List (String × Json)) : List Json :=
  (ms.filter (·.1 = k)).map (·.2)

/-- The value written for a key, of which there may be at most one. -/
def atMostOnce? (ms : List (String × Json)) (k : String) : Option (Option Json) :=
  match valuesOf k ms with
  | [] => some none
  | [j] => some (some j)
  | _ => none

/-- What a text says about each of the named fields of a record. -/
def fields? (names : List String) : Json → Option (List (Option Json))
  | .object ms => names.mapM (atMostOnce? ms)
  | .array js =>
    if js.length ≤ names.length then
      some (js.map some ++ List.replicate (names.length - js.length) none)
    else none
  | _ => none

/-- The value of a member that is written exactly once. -/
def member? (k : String) (ms : List (String × Json)) : Option Json :=
  match valuesOf k ms with
  | [j] => some j
  | _ => none

/-- The word of a choice that carries nothing: a string, or an object with that word as its only
key and null as its value. -/
def choice? : Json → Option String
  | .string s => some s
  | .object [(k, .null)] => some k
  | _ => none

/-- The word of a choice inside a message body, where an empty object may stand for null. -/
def bodyChoice? : Json → Option String
  | .object [(k, .object [])] => some k
  | j => j.choice?

/-- A text that may be left out or null. -/
def optionalText? : Option Json → Option (Option String)
  | none => some none
  | some .null => some none
  | some (.string s) => some (some s)
  | _ => none

end Json

/-- The value that a text says and `decode` understands. -/
def readText? {α : Type} (decode : Json → Option α) (s : String) : Option α :=
  (Json.read? s.toList).bind decode

end Runspace
