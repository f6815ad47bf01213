import Mathlib.Data.String.Basic
import Runspace.Proofs.Json.Words
import Runspace.Proofs.Message.Payloads

/-!
# Sizes — how many bytes the bodies of messages take

A body takes the bytes of the text of its payload, and the text of an object those of its members
with what stands around them. All that a pool says other than to ask for a pipeline has a size that
depends on nothing but the number of digits of its counts.

* `Json.size`, `Json.memberSize`, **`Json.size_object_cons`**: the bytes of a text, by its parts;
* `Payload.countSize`, `PoolId.utf8Len_quote_text`: those of counts and pool ids;
* `Message.length_encode`, `Message.length_initPool`, `Message.length_connectPool`,
  `Message.length_setMaxRunspaces`, `Message.length_stopPipeline`, `Message.length_closePool`: those
  of the bodies of what a pool says;
* **`Message.length_le_of_isControl`**: the host can be asked for a pool in no fewer bytes than any
  control message takes.
-/

namespace Runspace

open String (utf8Len utf8Len_append utf8Len_cons utf8Len_nil)

/-! ## Texts -/

/-- Whether a character stands for itself inside a string, as one byte. -/
def isPlain (c : Char) : Bool := escapeChar c = [c] && c.utf8Size = 1

theorem utf8Len_eq_length {cs : List Char} (h : ∀ c ∈ cs, c.utf8Size = 1) :
    utf8Len cs = cs.length := by
  induction cs with
  | nil => rfl
  | cons c cs ih =>
    rw [utf8Len_cons, h c List.mem_cons_self, List.length_cons,
      ih fun c' hc' => h c' (List.mem_cons_of_mem _ hc')]

theorem utf8Len_quote {s : String} (h : s.toList.all isPlain = true) :
    utf8Len (quote s) = s.toList.length + 2 := by
  have hplain (c) (hc : c ∈ s.toList) : escapeChar c = [c] ∧ c.utf8Size = 1 := by
    simpa [isPlain] using List.all_eq_true.1 h c hc
  have hspell : s.toList.flatMap escapeChar = s.toList := by
    rw [List.flatMap_congr fun c hc => (hplain c hc).1, List.flatMap_singleton']
  rw [quote, hspell, utf8Len_append, utf8Len_cons,
    utf8Len_eq_length fun c hc => (hplain c hc).2]
  rfl

namespace Json

/-- How many bytes the text of a value takes. -/
def size (j : Json) : Nat := utf8Len j.write

/-- How many bytes a member of an object takes, with the colon inside and the comma or brace before
it. -/
def memberSize (m : String × Json) : Nat := utf8Len (quote m.1) + m.2.size + 2

@[simp] theorem memberSize_mk (k : String) (j : Json) :
    memberSize (k, j) = utf8Len (quote k) + j.size + 2 := rfl

theorem utf8Len_tokensAfterMember (ms : List (String × Json)) :
    utf8Len ((tokensAfterMember ms).flatMap Token.spell) = (ms.map memberSize).sum := by
  induction ms with
  | nil => rfl
  | cons m ms ih =>
    obtain ⟨k, j⟩ := m
    simp only [tokensAfterMember, List.flatMap_cons, List.flatMap_append, utf8Len_append, ih,
      List.map_cons, List.sum_cons, memberSize, size, write, Token.spell, utf8Len_cons,
      utf8Len_nil]
    have hcomma : Char.utf8Size ',' = 1 := rfl
    have hcolon : Char.utf8Size ':' = 1 := rfl
    omega

/-- **An object takes as many bytes as its members and the brace after them.** -/
@[simp] theorem size_object_cons (m : String × Json) (ms : List (String × Json)) :
    (object (m :: ms)).size = ((m :: ms).map memberSize).sum + 1 := by
  obtain ⟨k, j⟩ := m
  simp only [size, write, tokens, List.flatMap_cons, List.flatMap_append, utf8Len_append,
    utf8Len_tokensAfterMember, List.map_cons, List.sum_cons, memberSize, Token.spell,
    List.flatMap_nil, utf8Len_cons, utf8Len_nil]
  have hopen : Char.utf8Size '\x7b' = 1 := rfl
  have hclose : Char.utf8Size '\x7d' = 1 := rfl
  have hcolon : Char.utf8Size ':' = 1 := rfl
  omega

@[simp] theorem size_string (s : String) : (string s).size = utf8Len (quote s) := by
  simp [size, write, tokens, Token.spell]

end Json

/-! ## Counts and pool ids -/

namespace Payload

/-- How many digits a count takes. -/
def countSize (n : UInt32) : Nat := (Nat.toDigits 10 n.toNat).length

theorem countSize_le (n : UInt32) : countSize n ≤ 10 := by
  have hlt : n.toNat < 10 ^ 10 := Nat.lt_trans n.toNat_lt (by decide)
  exact (Nat.length_toDigits_le_iff (by decide) (by decide)).2 hlt

@[simp] theorem size_countJson (n : UInt32) : (countJson n).size = countSize n := by
  have hdigit {c : Char} (hc : c.isDigit = true) : c.utf8Size = 1 := by
    rw [Char.utf8Size_eq_one_iff]
    simp only [Char.isDigit, Bool.and_eq_true, decide_eq_true_eq] at hc
    exact UInt32.le_trans hc.2 (by decide)
  have hsize : (countJson n).size = utf8Len (Nat.toDigits 10 n.toNat) := by
    simp [countJson, Json.ofNat, Json.size, Json.write, Json.tokens, Token.spell, Number.text]
  rw [hsize]
  exact utf8Len_eq_length fun c hc => hdigit (allDigits_toDigits _ c hc)

end Payload

namespace PoolId

theorem isPlain_hexDigit (d : Fin 16) : isPlain (hexDigit d) = true := by
  revert d
  decide

theorem isPlain_of_mem_hyphenated {sizes : List Nat} {ds : List (Fin 16)} {c : Char}
    (hc : c ∈ hyphenated sizes ds) : isPlain c = true := by
  have hfront {n : Nat} {ds : List (Fin 16)} (hc : c ∈ (ds.take n).map hexDigit) :
      isPlain c = true := by
    obtain ⟨d, -, rfl⟩ := List.mem_map.1 hc
    exact isPlain_hexDigit d
  fun_induction hyphenated sizes ds with
  | case1 => cases hc
  | case2 => exact hfront hc
  | case3 n m sizes ds ih =>
    rcases List.mem_append.1 hc with hc | hc
    · exact hfront hc
    · rcases List.mem_cons.1 hc with rfl | hc
      · decide
      · exact ih hc

@[simp] theorem utf8Len_quote_text (id : PoolId) : utf8Len (quote id.text) = 38 := by
  have hchars : id.text.toList = hyphenated groups id.digits := String.toList_ofList
  have hlength : (hyphenated groups id.digits).length = 36 := length_hyphenated id.length_digits
  have hplain : id.text.toList.all isPlain = true :=
    List.all_eq_true.2 fun c hc => isPlain_of_mem_hyphenated (hchars ▸ hc)
  rw [utf8Len_quote hplain, hchars, hlength]

end PoolId

/-! ## Messages -/

/-- Whether a payload is one that a pool sends besides asking the host for itself or a pipeline. -/
def Payload.isControl : Payload → Bool
  | .connectPool _ | .setMaxRunspaces _ | .stopPipeline | .closePool => true
  | _ => false

namespace Message

theorem length_encode (m : Message) : m.encode.length = m.payload.toJson.size := by
  rw [encode, Array.length_toList, Json.size, ← String.utf8ByteSize_ofList]
  rfl

section Sizes

variable (t : Target) (pool : PoolId)

theorem length_initPool (lo hi : UInt32) : (encode ⟨t, .initPool pool lo hi⟩).length =
    100 + Payload.countSize lo + Payload.countSize hi := by
  rw [length_encode]
  simp (disch := decide) [Payload.toJson, utf8Len_quote]
  omega

theorem length_connectPool : (encode ⟨t, .connectPool pool⟩).length = 71 := by
  rw [length_encode]
  simp (disch := decide) [Payload.toJson, utf8Len_quote]

theorem length_setMaxRunspaces (n : UInt32) :
    (encode ⟨t, .setMaxRunspaces n⟩).length = 44 + Payload.countSize n := by
  rw [length_encode]
  simp (disch := decide) [Payload.toJson, utf8Len_quote]
  omega

theorem length_stopPipeline : (encode ⟨t, .stopPipeline⟩).length = 24 := by
  rw [length_encode]
  simp (disch := decide) [Payload.toJson, utf8Len_quote]

theorem length_closePool : (encode ⟨t, .closePool⟩).length = 21 := by
  rw [length_encode]
  simp (disch := decide) [Payload.toJson, utf8Len_quote]

end Sizes

/-- **No control message takes more bytes than asking for a pool does,** whatever the two say. -/
theorem length_le_of_isControl {m : Message} (h : m.payload.isControl = true) (t : Target)
    (pool : PoolId) (lo hi : UInt32) :
    m.encode.length ≤ (encode ⟨t, .initPool pool lo hi⟩).length := by
  rw [length_initPool]
  obtain ⟨t', payload⟩ := m
  cases payload with
  | connectPool pool' =>
    rw [length_connectPool]
    omega
  | setMaxRunspaces n =>
    have hn := Payload.countSize_le n
    rw [length_setMaxRunspaces]
    omega
  | stopPipeline =>
    rw [length_stopPipeline]
    omega
  | closePool =>
    rw [length_closePool]
    omega
  | _ => cases h

end Message

end Runspace
