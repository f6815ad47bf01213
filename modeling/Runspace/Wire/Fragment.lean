import Runspace.Ident
import Runspace.Wire.Bytes

/-!
# Fragments — the records of the wire

A message travels as one or more fragments. A fragment is written as one contiguous record: a
header of twenty-nine bytes (object id, fragment id and target in eight bytes each, one byte of
flags, the length of the payload in four bytes; all numbers least significant byte first) and then
the payload.

* `Fragment`, `Fragment.record`, `Fragment.encode`: only an oversized payload has no record;
* `WireFault`: why bytes or text of the wire are refused.
-/

namespace Runspace

/-! ## Limits -/

/-- The number of bytes of a record before its payload. -/
def headerLength : Nat := 29

/-- The smallest fragment payload that a sender may be set to. -/
def minFragmentPayload : Nat := 64

/-- The largest payload of one record, 16 MiB. -/
def maxFragmentPayload : Nat := 16777216

/-! ## Faults -/

/-- Why wire data cannot be written or read. -/
inductive WireFault where
  | payloadTooLarge (length limit : Nat)
  | reservedFlags (flags : UInt8)
  | body
deriving DecidableEq

/-- The text of a wire fault; the reason for refusing a body is left open. -/
def WireFault.message : WireFault → String
  | .payloadTooLarge length limit =>
    s!"fragment payload of {length} bytes exceeds the {limit}-byte limit"
  | .reservedFlags flags =>
    "reserved fragment flag bits set: 0x" ++ String.ofList (hexPair flags.toNat)
  | .body => "malformed message body: <json>"

/-! ## Records -/

/-- One bounded piece of a message. -/
structure Fragment where
  objectId : UInt64
  fragmentId : UInt64
  target : Target
  isEnd : Bool
  payload : Bytes
deriving DecidableEq

namespace Fragment

/-- The length of a fragment's record. -/
def encodedLength (f : Fragment) : Nat := headerLength + f.payload.length

/-- The header of a fragment's record. -/
def header (f : Fragment) : Bytes :=
  leBytes 8 f.objectId.toNat ++ (leBytes 8 f.fragmentId.toNat ++ (leBytes 8 f.target.raw.toNat ++
    (if f.isEnd then 1 else 0) :: leBytes 4 f.payload.length))

/-- The record of a fragment whose payload is not too large. -/
def record (f : Fragment) : Bytes := f.header ++ f.payload

/-- The record of a fragment, unless its payload is too large for one. -/
def encode (f : Fragment) : Except WireFault Bytes :=
  if f.payload.length ≤ maxFragmentPayload then .ok f.record
  else .error (.payloadTooLarge f.payload.length maxFragmentPayload)

@[simp] theorem length_header (f : Fragment) : f.header.length = headerLength := by
  simp [header, headerLength]

@[simp] theorem length_record (f : Fragment) : f.record.length = f.encodedLength := by
  simp [record, encodedLength]

end Fragment

end Runspace
