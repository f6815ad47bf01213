import Runspace.Json.Fields

/-!
# Commands — what a pipeline runs

A command is a name with arguments in order, each positional or named. Arguments are free-form
values; the library never looks into them.

* `Command.arg`, `Command.param`: build a command argument by argument;
* `Command.positional`, `Command.named?`: look arguments up, names without regard to ASCII case;
* `Command.toJson`, `Command.ofJson?`: the JSON form.
-/

namespace Runspace

/-- A command's argument, positional unless it has a name. -/
structure Argument where
  name : Option String
  value : Value

/-- A command of a pipeline. -/
structure Command where
  name : String
  /-- The arguments, in order. -/
  arguments : List Argument := []

/-! ## Arguments -/

/-- Whether an argument has no name. -/
def Argument.isPositional (a : Argument) : Bool := a.name.isNone

/-- A text in which the ASCII letters are lowercase. -/
def foldCase (s : String) : String := String.ofList (s.toList.map Char.toLower)

namespace Command

/-- A command without arguments. -/
def new (name : String) : Command := { name }

/-- A command with one more positional argument. -/
def arg (c : Command) (value : Value) : Command :=
  { c with arguments := c.arguments ++ [⟨none, value⟩] }

/-- A command with one more named argument. -/
def param (c : Command) (name : String) (value : Value) : Command :=
  { c with arguments := c.arguments ++ [⟨some name, value⟩] }

/-- The values of the positional arguments, in order. -/
def positional (c : Command) : List Value :=
  (c.arguments.filter Argument.isPositional).map Argument.value

/-- The value of the first argument with a name, without regard to ASCII case. -/
def named? (c : Command) (name : String) : Option Value :=
  (c.arguments.find? fun a => a.name.any fun n => foldCase n = foldCase name).map Argument.value

end Command

/-! ## JSON -/

/-- The JSON form of an argument, with its name only if it has one. -/
def Argument.toJson (a : Argument) : Json :=
  match a.name with
  | none => .object [("value", a.value.json)]
  | some n => .object [("name", .string n), ("value", a.value.json)]

/-- The argument that a text says; its value may be null but not missing. -/
def Argument.ofJson? (j : Json) : Option Argument := do
  match ← j.fields? ["name", "value"] with
  | [name, some value] => some ⟨← Json.optionalText? name, ← Value.ofJson? value⟩
  | _ => none

/-- The JSON form of a command, with its arguments only if it has some. -/
def Command.toJson (c : Command) : Json :=
  if c.arguments.isEmpty then .object [("name", .string c.name)]
  else
    .object [("name", .string c.name), ("arguments", .array (c.arguments.map Argument.toJson))]

/-- The command that a text says. -/
def Command.ofJson? (j : Json) : Option Command := do
  match ← j.fields? ["name", "arguments"] with
  | [some name, arguments] =>
    let arguments ← match arguments with
      | none => some []
      | some js => js.elements?.bind (·.mapM Argument.ofJson?)
    some ⟨← name.string?, arguments⟩
  | _ => none

/-- The commands that a text says. -/
def Command.listOfJson? (j : Json) : Option (List Command) :=
  j.elements?.bind (·.mapM Command.ofJson?)

/-- The JSON form of a list of commands. -/
def Command.listToJson (cs : List Command) : Json := .array (cs.map Command.toJson)

end Runspace
