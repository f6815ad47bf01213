import Runspace.Fault
import Runspace.Message
import Runspace.Wire.Split

/-!
# Options — the sizes of a pool, and which commands are relays

Options are read from JSON in which every field may be left out.

* `PoolOptions`, `PoolOptions.validate`: the sizes of one pool and whether they can be used;
* `wireCount`, `PoolOptions.wireBounds`: counts of runspaces on the wire;
* `RelayNames`: which command names are known relays;
* `Config`, `Config.read`: both together, read from a text or from the content of a file.
-/

namespace Runspace

/-! ## Pools -/

/-- The sizes of one pool. -/
structure PoolOptions where
  minRunspaces : Nat := 1
  maxRunspaces : Nat := 1
  maxFragmentSize : Nat := 32768
  maxMessageSize : Nat := 67108864
deriving DecidableEq

/-- The largest count that fits the wire. -/
def maxWireCount : Nat := 4294967295

/-- A count of runspaces as it stands on the wire, if it fits. -/
def wireCount (n : Nat) : Except Fault UInt32 :=
  if maxWireCount < n then .error (.invalidArgument (.runspaceCount n)) else .ok (UInt32.ofNat n)

/-- Options can be used if the runspace bounds are in order and fit the wire, the fragment size
is in range, and messages may hold something; these are looked at in this order. -/
def PoolOptions.validate (o : PoolOptions) : Except Fault Unit :=
  if o.minRunspaces < 1 ∨ o.maxRunspaces < o.minRunspaces then
    .error (.invalidArgument (.runspaceBounds o.minRunspaces o.maxRunspaces))
  else if maxWireCount < o.maxRunspaces then
    .error (.invalidArgument (.maxRunspacesTooWide o.maxRunspaces))
  else if ¬ validFragmentSize o.maxFragmentSize then
    .error (.invalidArgument (.fragmentSize o.maxFragmentSize))
  else if o.maxMessageSize = 0 then .error (.invalidArgument .noMessageSize)
  else .ok ()

/-- The runspace bounds as they stand on the wire, if both fit. -/
def PoolOptions.wireBounds (o : PoolOptions) : Except Fault (UInt32 × UInt32) := do
  let lo ← wireCount o.minRunspaces
  let hi ← wireCount o.maxRunspaces
  return (lo, hi)

/-- The JSON form of pool options. -/
def PoolOptions.toJson (o : PoolOptions) : Json :=
  .object [("minRunspaces", .ofNat o.minRunspaces), ("maxRunspaces", .ofNat o.maxRunspaces),
    ("maxFragmentSize", .ofNat o.maxFragmentSize), ("maxMessageSize", .ofNat o.maxMessageSize)]

/-- A size that may be left out. -/
def sizeOr? (default : Nat) : Option Json → Option Nat
  | none => some default
  | some j => j.natural? 18446744073709551615

/-- The pool options that a text says. -/
def PoolOptions.ofJson? (j : Json) : Option PoolOptions := do
  let d : PoolOptions := {}
  match ← j.fields? ["minRunspaces", "maxRunspaces", "maxFragmentSize", "maxMessageSize"] with
  | [lo, hi, fragment, message] =>
    some {
      minRunspaces := ← sizeOr? d.minRunspaces lo
      maxRunspaces := ← sizeOr? d.maxRunspaces hi
      maxFragmentSize := ← sizeOr? d.maxFragmentSize fragment
      maxMessageSize := ← sizeOr? d.maxMessageSize message }
  | _ => none

/-! ## Relays -/

/-- The names of the commands that are known relays. -/
structure RelayNames where
  streaming : List String := ["Where-Object", "ForEach-Object", "Select-Object"]
  materializing : List String := ["Sort-Object", "Group-Object", "Measure-Object"]
deriving DecidableEq

/-- The JSON form of a list of names. -/
def namesToJson (names : List String) : Json := .array (names.map .string)

/-- The JSON form of relay names. -/
def RelayNames.toJson (r : RelayNames) : Json :=
  .object [("streamingRelays", namesToJson r.streaming),
    ("materializingRelays", namesToJson r.materializing)]

/-- A list of names that may be left out. -/
def namesOr? (default : List String) : Option Json → Option (List String)
  | none => some default
  | some j => j.elements?.bind (·.mapM Json.string?)

/-- The relay names that a text says. -/
def RelayNames.ofJson? (j : Json) : Option RelayNames := do
  let d : RelayNames := {}
  match ← j.fields? ["streamingRelays", "materializingRelays"] with
  | [streaming, materializing] =>
    some {
      streaming := ← namesOr? d.streaming streaming
      materializing := ← namesOr? d.materializing materializing }
  | _ => none

/-! ## Both together -/

/-- The configuration of a client. -/
structure Config where
  pool : PoolOptions := {}
  batching : RelayNames := {}
deriving DecidableEq

namespace Config

/-- The JSON form of a configuration. -/
def toJson (c : Config) : Json :=
  .object [("pool", c.pool.toJson), ("batching", c.batching.toJson)]

/-- A section that may be left out. -/
def sectionOr? {α : Type} (default : α) (decode : Json → Option α) : Option Json → Option α
  | none => some default
  | some j => decode j

/-- The configuration that a text says. -/
def ofJson? (j : Json) : Option Config := do
  match ← j.fields? ["pool", "batching"] with
  | [pool, batching] =>
    some {
      pool := ← sectionOr? {} PoolOptions.ofJson? pool
      batching := ← sectionOr? {} RelayNames.ofJson? batching }
  | _ => none

/-- The configuration that a text says, if its pool options can be used. -/
def read (text : String) : Except Fault Config :=
  match readText? ofJson? text with
  | none => .error .json
  | some c =>
    match c.pool.validate with
    | .ok () => .ok c
    | .error e => .error e

/-- The configuration in a file with the given content, or in one that does not exist. -/
def load (content : Option Bytes) : Except Fault Config :=
  match content with
  | none => .error (.io "No such file or directory (os error 2)")
  | some bytes =>
    match String.fromUTF8? ⟨bytes.toArray⟩ with
    | none => .error (.io "stream did not contain valid UTF-8")
    | some text => read text

end Config

end Runspace
