/-!
# JSON — texts and free-form values

`Json` is what a JSON text says: an object keeps its members as they are written, in their order
and with repeated keys. A free-form value forgets both: its objects list each key once, in the
order of the keys' bytes, and of several members with one key the last counts.

* `Number`: integers that fit 64 bits stay integers, all other numbers are doubles;
* `Json.isCanonical`, `Value`: the free-form values;
* `Value.ofJson?`: the free-form value of a text, by **`Json.isCanonical_normalize`**. A text has
  none only if some part of it is `unreadable`.
-/

namespace Runspace

/-! ## Numbers -/

/-- The value of a JSON number. -/
inductive Number where
  /-- An integer from 0 to 2^64 - 1. -/
  | natural (n : UInt64)
  /-- The integer `-1 - below`, from -2^63 to -1. -/
  | negative (below : Fin 9223372036854775808)
  | double (bits : UInt64)
deriving DecidableEq

/-! ## Texts -/

/-- What a JSON text says. -/
inductive Json where
  | null
  | bool (b : Bool)
  | number (n : Number)
  | string (s : String)
  | array (elements : List Json)
  | object (members : List (String × Json))
  /-- A well-formed part of a text that has no value: a number beyond the doubles, a string with
  half of a surrogate pair or a byte that belongs to no character, an object with such a key, or a
  part that is nested too deeply. -/
  | unreadable

namespace Json

/-- The text of a string. -/
def string? : Json → Option String
  | .string s => some s
  | _ => none

/-- The elements of an array. -/
def elements? : Json → Option (List Json)
  | .array js => some js
  | _ => none

/-- An integer that is not negative and at most `bound`. -/
def natural? (bound : Nat) : Json → Option Nat
  | .number (.natural n) => if n.toNat ≤ bound then some n.toNat else none
  | _ => none

/-- The JSON form of a natural number below 2^64. -/
def ofNat (n : Nat) : Json := .number (.natural (UInt64.ofNat n))

mutual

/-- Whether a text has a value in all its parts. -/
def isReadable : Json → Bool
  | .array js => allReadable js
  | .object ms => membersReadable ms
  | .unreadable => false
  | _ => true

/-- `isReadable` of all elements. -/
def allReadable : List Json → Bool
  | [] => true
  | j :: js => j.isReadable && allReadable js

/-- `isReadable` of all members. -/
def membersReadable : List (String × Json) → Bool
  | [] => true
  | (_, j) :: ms => j.isReadable && membersReadable ms

end

/-! ## Normal form -/

/-- Whether a key comes before those of a list of members. -/
def precedes (k : String) : List (String × Json) → Bool
  | [] => true
  | (k', _) :: _ => k < k'

mutual

/-- Whether a text is that of a free-form value: readable, and with ascending keys in every
object. -/
def isCanonical : Json → Bool
  | .array js => allCanonical js
  | .object ms => membersCanonical ms
  | .unreadable => false
  | _ => true

/-- `isCanonical` of all elements. -/
def allCanonical : List Json → Bool
  | [] => true
  | j :: js => j.isCanonical && allCanonical js

/-- `isCanonical` of all members, with ascending keys. -/
def membersCanonical : List (String × Json) → Bool
  | [] => true
  | (k, j) :: ms => j.isCanonical && precedes k ms && membersCanonical ms

end

/-- A member put at its place into members with ascending keys; one with the same key is there
to stay, since it is written later. -/
def insertMember (k : String) (j : Json) : List (String × Json) → List (String × Json)
  | [] => [(k, j)]
  | (k', j') :: ms =>
    if k < k' then (k, j) :: (k', j') :: ms
    else if k = k' then (k', j') :: ms
    else (k', j') :: insertMember k j ms

mutual

/-- The free-form value that a readable text says. -/
def normalize : Json → Json
  | .array js => .array (normalizeAll js)
  | .object ms => .object (normalizeMembers ms)
  | j => j

/-- `normalize` of all elements. -/
def normalizeAll : List Json → List Json
  | [] => []
  | j :: js => j.normalize :: normalizeAll js

/-- `normalize` of all members, in the order of their keys. -/
def normalizeMembers : List (String × Json) → List (String × Json)
  | [] => []
  | (k, j) :: ms => insertMember k j.normalize (normalizeMembers ms)

end

theorem precedes_insertMember {k k' : String} {j : Json} {ms : List (String × Json)}
    (hk : k' < k) (h : precedes k' ms = true) : precedes k' (insertMember k j ms) = true := by
  cases ms with
  | nil => simpa [insertMember, precedes] using hk
  | cons m ms =>
    obtain ⟨k₁, j₁⟩ := m
    simp only [insertMember]
    split
    · simpa [precedes] using hk
    · split <;> simpa [precedes] using h

theorem membersCanonical_insertMember {k : String} {j : Json} {ms : List (String × Json)}
    (hj : j.isCanonical = true) (h : membersCanonical ms = true) :
    membersCanonical (insertMember k j ms) = true := by
  induction ms with
  | nil => simp [insertMember, membersCanonical, precedes, hj]
  | cons m ms ih =>
    obtain ⟨k', j'⟩ := m
    simp only [membersCanonical, Bool.and_eq_true] at h
    obtain ⟨⟨hj', hp⟩, hms⟩ := h
    simp only [insertMember]
    split
    · next hlt =>
      have hk : precedes k ((k', j') :: ms) = true := by simpa [precedes] using hlt
      simp [membersCanonical, hk, hj, hj', hp, hms]
    · next hnlt =>
      split
      · simp [membersCanonical, hj', hp, hms]
      · next hne =>
        have hlt : k' < k := by
          rw [← String.not_le]
          exact fun hle => hne (String.le_antisymm hle (String.not_lt.1 hnlt))
        simp [membersCanonical, hj', precedes_insertMember hlt hp, ih hms]

mutual

/-- **A readable text has a free-form value.** -/
theorem isCanonical_normalize (j : Json) (h : j.isReadable = true) :
    j.normalize.isCanonical = true := by
  cases j with
  | array js =>
    simp only [isReadable] at h
    simpa [normalize, isCanonical] using allCanonical_normalizeAll js h
  | object ms =>
    simp only [isReadable] at h
    simpa [normalize, isCanonical] using membersCanonical_normalizeMembers ms h
  | unreadable => simp [isReadable] at h
  | null | bool | number | string => simp [normalize, isCanonical]

theorem allCanonical_normalizeAll (js : List Json) (h : allReadable js = true) :
    allCanonical (normalizeAll js) = true := by
  cases js with
  | nil => simp [normalizeAll, allCanonical]
  | cons j js =>
    simp only [allReadable, Bool.and_eq_true] at h
    simp [normalizeAll, allCanonical, isCanonical_normalize j h.1,
      allCanonical_normalizeAll js h.2]

theorem membersCanonical_normalizeMembers (ms : List (String × Json))
    (h : membersReadable ms = true) : membersCanonical (normalizeMembers ms) = true := by
  cases ms with
  | nil => simp [normalizeMembers, membersCanonical]
  | cons m ms =>
    obtain ⟨k, j⟩ := m
    simp only [membersReadable, Bool.and_eq_true] at h
    exact membersCanonical_insertMember (isCanonical_normalize j h.1)
      (membersCanonical_normalizeMembers ms h.2)

end

end Json

/-! ## Free-form values -/

/-- A free-form JSON value. -/
structure Value where
  json : Json
  canonical : json.isCanonical = true

/-- The free-form value that a text says, unless some part of it has none. -/
def Value.ofJson? (j : Json) : Option Value :=
  if h : j.isReadable = true then some ⟨j.normalize, j.isCanonical_normalize h⟩ else none

end Runspace
