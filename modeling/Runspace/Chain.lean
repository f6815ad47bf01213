import Runspace.Options

/-!
# Chains — fusing commands into one remote pipeline

A chain of commands that each run on a remote pool or relay records in between costs one round
trip per remote command, unless the whole chain can run as one pipeline on that pool. Whether it
can is decided from the class of each command alone:

    proxy | streaming relay | proxy        fused
    proxy | materializing relay            fused, since nothing remote follows
    proxy | materializing relay | proxy    not fused
    proxy | opaque                         not fused

* `CommandClass`, `Chain`: classified commands in the order in which they run;
* `Chain.analyze`: the fused chain, or the first reason against it;
* `NameClassifier`: classes by command name, without regard to ASCII case.
-/

namespace Runspace

/-! ## Classes -/

/-- How a relay takes its input. -/
inductive Relay where
  | streaming
  | materializing
deriving DecidableEq

/-- What a command of a chain can do. -/
inductive CommandClass where
  | remote (pool : PoolId)
  | relay (kind : Relay)
  | opaqueCommand
deriving DecidableEq

/-- The pool that a command runs on. -/
def CommandClass.pool? : CommandClass → Option PoolId
  | .remote pool => some pool
  | _ => none

/-- A command and its class. -/
structure Link where
  command : Command
  kind : CommandClass

/-- Classified commands in the order in which they run. -/
abbrev Chain := List Link

/-- A chain of commands under a classifier. -/
def Chain.classify (commands : List Command) (classifier : Command → CommandClass) : Chain :=
  commands.map fun c => ⟨c, classifier c⟩

/-- A chain with one more command at its end. -/
def Chain.push (c : Chain) (command : Command) (kind : CommandClass) : Chain :=
  c ++ [⟨command, kind⟩]

/-! ## Fusion -/

/-- A chain as one pipeline of one pool. -/
structure FusedChain where
  pool : PoolId
  commands : List Command

/-- Why a chain is not fused. -/
inductive Rejection where
  | tooShort (length : Nat)
  | opaqueCommand (index : Nat) (name : String)
  | noRemote
  | mixedTargets
  | materializing (index : Nat)
deriving DecidableEq

/-- The text of a rejection. -/
def Rejection.message : Rejection → String
  | .tooShort length => s!"chain has {length} command(s); fusion needs at least 2"
  | .opaqueCommand index name => s!"command {index} (" ++ name ++ ") is opaque"
  | .noRemote => "no command in the chain runs remotely"
  | .mixedTargets => "remote commands target different pools"
  | .materializing index =>
    s!"command {index} materializes its input before a later remote command"

namespace Chain

/-- The pools of the remote commands, in order. -/
def pools (c : Chain) : List PoolId := c.filterMap fun l => l.kind.pool?

/-- The part of a chain before its last remote command. -/
def beforeLastRemote (c : Chain) : Chain :=
  ((c.reverse.dropWhile fun l => l.kind.pool?.isNone).drop 1).reverse

/-- The index of the first relay that takes in all records before a later remote command. -/
def firstMaterializing? (c : Chain) : Option Nat :=
  (beforeLastRemote c).findIdx? fun l => l.kind = .relay .materializing

/-- The name of the command at a place in a chain. -/
def nameAt (links : Chain) (index : Nat) : String :=
  (links[index]?.map (·.command.name)).getD ""

/-- The fused chain, or the first reason against it: too few commands, an opaque one, remote
commands on different pools, no remote one, a relay that takes in all records too early. -/
def analyze (c : Chain) : Except Rejection FusedChain :=
  if c.length < 2 then .error (.tooShort c.length)
  else
    match c.findIdx? fun l => l.kind = .opaqueCommand with
    | some index => .error (.opaqueCommand index (c.nameAt index))
    | none =>
      match c.pools with
      | [] => .error .noRemote
      | pool :: rest =>
        if rest.any (· ≠ pool) then .error .mixedTargets
        else
          match c.firstMaterializing? with
          | some index => .error (.materializing index)
          | none => .ok ⟨pool, c.map Link.command⟩

/-- The fused chain, if the chain can be fused. -/
def fuse? (c : Chain) : Option FusedChain := c.analyze.toOption

end Chain

/-! ## Classification by name -/

/-- Classes by command name. -/
structure NameClassifier where
  /-- The names of remote commands and their pools, the latest registration first. -/
  remotes : List (String × PoolId) := []
  relays : RelayNames

namespace NameClassifier

/-- A classifier that knows the relays. -/
def ofRelays (relays : RelayNames) : NameClassifier := { relays }

/-- Registers a remote command; a later registration of a name takes the place of an earlier
one. -/
def withRemote (c : NameClassifier) (name : String) (pool : PoolId) : NameClassifier :=
  { c with remotes := (foldCase name, pool) :: c.remotes }

/-- Whether a name is in a list of names, without regard to ASCII case. -/
def lists (names : List String) (name : String) : Bool := (names.map foldCase).contains name

/-- The class of a command: remote if its name is registered, else a relay if its name is listed,
streaming before materializing, else opaque. -/
def classify (c : NameClassifier) (command : Command) : CommandClass :=
  let name := foldCase command.name
  match c.remotes.lookup name with
  | some pool => .remote pool
  | none =>
    if lists c.relays.streaming name then .relay .streaming
    else if lists c.relays.materializing name then .relay .materializing
    else .opaqueCommand

end NameClassifier

end Runspace
