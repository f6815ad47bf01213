import Runspace.Wire.Fragment

/-!
# Splitting — a message as fragments

A sender cuts each message body into pieces of a chosen size and numbers the messages it sends.

* `splitMessage`: the fragments of one body, the end marked on the last; an empty body makes one
  empty fragment;
* `Splitter`, `Splitter.push`: numbers the messages 0, 1, 2, …
-/

namespace Runspace

/-- The fragments of the given pieces, numbered from `index`, the last one marked as the end. -/
def numberPieces (objectId : UInt64) (target : Target) : Nat → List Bytes → List Fragment
  | _, [] => []
  | index, piece :: rest =>
    { objectId, fragmentId := UInt64.ofNat index, target, isEnd := rest.isEmpty, payload := piece }
      :: numberPieces objectId target (index + 1) rest

/-- The fragments of a message body, with payloads of at most `maxPayload` bytes (at least one). -/
def splitMessage (objectId : UInt64) (target : Target) (message : Bytes) (maxPayload : Nat) :
    List Fragment :=
  let pieces := if message.isEmpty then [[]] else chunks maxPayload message
  numberPieces objectId target 0 pieces

/-- A sender's splitter: its piece size, and the number of the next message. -/
structure Splitter where
  maxPayload : Nat
  nextObject : Nat := 0

/-- Whether a size may be chosen for the pieces of a sender. -/
def validFragmentSize (n : Nat) : Bool := minFragmentPayload ≤ n && n ≤ maxFragmentPayload

/-- A splitter that has sent nothing, if the piece size may be chosen. -/
def Splitter.new? (maxPayload : Nat) : Option Splitter :=
  if validFragmentSize maxPayload then some { maxPayload } else none

/-- The fragments of the next message, and the splitter for the ones after it. -/
def Splitter.push (s : Splitter) (target : Target) (message : Bytes) : List Fragment × Splitter :=
  (splitMessage (UInt64.ofNat s.nextObject) target message s.maxPayload,
    { s with nextObject := s.nextObject + 1 })

end Runspace
