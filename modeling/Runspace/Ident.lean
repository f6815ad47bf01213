import Runspace.Hex

/-!
# Identifiers — pools, pipelines and addressees

Two kinds of names travel on the wire. A pipeline is a positive 64-bit number, since the number
zero addresses the pool as a whole; a pool is thirty-two hexadecimal digits, written in five
hyphenated groups.

* `PipelineId`, `Target`: the number zero is the pool, every other number is a pipeline
  (`Target.ofRaw_raw`, `Target.raw_ofRaw`);
* `PoolId`, `PoolId.text`, `PoolId.read?`: an id is written in one way and read in four;
* `PoolId.ofDraw`: an id from a random draw.
-/

namespace Runspace

/-! ## Pipelines and targets -/

/-- A pipeline's number within its pool. -/
structure PipelineId where
  raw : UInt64
  /-- Zero addresses the pool and is never a pipeline. -/
  raw_ne_zero : raw ≠ 0
deriving DecidableEq

/-- The pipeline with a given number, unless that number is zero. -/
def PipelineId.ofRaw? (n : UInt64) : Option PipelineId :=
  if h : n = 0 then none else some ⟨n, h⟩

/-- The decimal text of a pipeline's number. -/
def PipelineId.text (id : PipelineId) : String := toString id.raw.toNat

/-- Pipelines are ordered by their numbers. -/
def PipelineId.compare (a b : PipelineId) : Ordering := Ord.compare a.raw.toNat b.raw.toNat

/-- The addressee of a message. -/
inductive Target where
  | pool
  | pipeline (id : PipelineId)
deriving DecidableEq

/-- The number that addresses a target on the wire. -/
def Target.raw : Target → UInt64
  | .pool => 0
  | .pipeline id => id.raw

/-- The target that a number addresses on the wire. -/
def Target.ofRaw (n : UInt64) : Target :=
  if h : n = 0 then .pool else .pipeline ⟨n, h⟩

@[simp] theorem Target.ofRaw_raw (t : Target) : Target.ofRaw t.raw = t := by
  cases t with
  | pool => rfl
  | pipeline id => simp [Target.raw, Target.ofRaw, id.raw_ne_zero]

@[simp] theorem Target.raw_ofRaw (n : UInt64) : (Target.ofRaw n).raw = n := by
  unfold Target.ofRaw
  split
  · next h => simp [Target.raw, h]
  · rfl

/-- The name of a target in a diagnostic text. -/
def Target.describe : Target → String
  | .pool => "Pool"
  | .pipeline id => "Pipeline(PipelineId(" ++ id.text ++ "))"

/-! ## Pools -/

/-- A pool's identity: thirty-two hexadecimal digits. -/
structure PoolId where
  digits : List (Fin 16)
  length_digits : digits.length = 32
deriving DecidableEq

/-- The sizes of the groups of digits in the hyphenated text of a pool id. -/
def PoolId.groups : List Nat := [8, 4, 4, 4, 12]

/-- Digits in groups of the given sizes, with a hyphen between two groups. -/
def PoolId.hyphenated : List Nat → List (Fin 16) → List Char
  | [], _ => []
  | [n], ds => (ds.take n).map hexDigit
  | n :: m :: sizes, ds =>
    (ds.take n).map hexDigit ++ '-' :: hyphenated (m :: sizes) (ds.drop n)

/-- The digits of a hyphenated text with groups of the given sizes. -/
def PoolId.readHyphenated? : List Nat → List Char → Option (List (Fin 16))
  | [], cs => if cs.isEmpty then some [] else none
  | [n], cs => if cs.length = n then cs.mapM hexValue? else none
  | n :: m :: sizes, cs =>
    match (cs.take n).mapM hexValue?, cs.drop n with
    | some ds, '-' :: rest => (readHyphenated? (m :: sizes) rest).map (ds ++ ·)
    | _, _ => none

/-- A pool id is written in lowercase, in hyphenated groups of 8, 4, 4, 4 and 12 digits. -/
def PoolId.text (id : PoolId) : String := String.ofList (hyphenated groups id.digits)

/-- Thirty-two digits make a pool id. -/
def PoolId.ofDigits? (ds : List (Fin 16)) : Option PoolId :=
  if h : ds.length = 32 then some ⟨ds, h⟩ else none

/-- A pool id is read from its hyphenated text in digits of either case, from that text in braces
or after `urn:uuid:` in letters of either case, or from thirty-two digits without hyphens. -/
def PoolId.read? (s : String) : Option PoolId :=
  let cs := s.toList
  let digits? : Option (List (Fin 16)) :=
    if cs.length = 32 then cs.mapM hexValue?
    else if cs.length = 36 then readHyphenated? groups cs
    else if cs.length = 38 then
      if cs.head? = some '{' ∧ cs.getLast? = some '}' then
        readHyphenated? groups (cs.drop 1).dropLast
      else none
    else if cs.length = 45 then
      if (cs.take 9).map Char.toLower = "urn:uuid:".toList then
        readHyphenated? groups (cs.drop 9)
      else none
    else none
  digits?.bind ofDigits?

/-- The thirty-two lowest hexadecimal digits of a number, most significant first. -/
def PoolId.digitsOf (n : Nat) : List (Fin 16) :=
  (List.range 32).map fun i => ⟨n >>> (4 * (31 - i)) % 16, Nat.mod_lt _ (by decide)⟩

/-- The pool id of a random draw: thirteenth digit 4 and seventeenth digit 8 to b mark it as
drawn at random, and the other digits are those of the draw. -/
def PoolId.ofDraw (n : Nat) : PoolId where
  digits := ((digitsOf n).set 12 ⟨4, by decide⟩).modify 16 fun d => ⟨8 + d.val % 4, by omega⟩
  length_digits := by simp [digitsOf]

/-- The digit that says how an id was made; 4 marks a random draw. -/
def PoolId.version (id : PoolId) : Nat := (id.digits[12]?.map (·.val)).getD 0

end Runspace
