import Runspace.Json.Fields
import Runspace.Wire.Bytes

/-!
# Encoded texts — JSON from bytes

A text that comes as bytes is read character by character. A byte that belongs to no character may
only stand inside a string, and such a string has no value: it does no harm as long as nobody asks
for it.

* `frontChar?`: the character that some bytes begin with;
* `Json.readBytes?`: what some bytes say, by **`Json.readBytes?_utf8`** the same as the text that
  they encode.
-/

namespace Runspace

/-! ## Characters -/

/-- The character that some bytes begin with. -/
def frontChar? (bs : Bytes) : Option Char := (bs.take 4).toByteArray.utf8DecodeChar? 0

@[simp] theorem frontChar?_utf8EncodeChar_append (c : Char) (bs : Bytes) :
    frontChar? (String.utf8EncodeChar c ++ bs) = some c := by
  have hlen : (String.utf8EncodeChar c).length ≤ 4 := by
    rw [String.length_utf8EncodeChar]
    exact c.utf8Size_le_four
  rw [frontChar?, List.take_append, List.take_of_length_le hlen, List.toByteArray_append]
  exact ByteArray.utf8DecodeChar?_utf8EncodeChar_append

/-! ## Texts -/

namespace Lexer

/-- Takes a byte that belongs to no character. -/
def stepInvalid (l : Lexer) : Option Lexer :=
  match l.mode with
  | .text t => some ⟨.text { t with broken := true }, l.tokens⟩
  | _ => none

/-- Takes some bytes. -/
def readBytes (l : Lexer) (bs : Bytes) : Option Lexer :=
  match bs with
  | [] => some l
  | b :: rest =>
    match frontChar? (b :: rest) with
    | some c =>
      match l.step c with
      | some l => l.readBytes (rest.drop (c.utf8Size - 1))
      | none => none
    | none =>
      match l.stepInvalid with
      | some l => l.readBytes rest
      | none => none
termination_by bs.length

theorem readBytes_utf8EncodeChar_append (l : Lexer) (c : Char) (bs : Bytes) :
    l.readBytes (String.utf8EncodeChar c ++ bs) = (l.step c).bind (·.readBytes bs) := by
  have hlen : (String.utf8EncodeChar c).length = c.utf8Size := String.length_utf8EncodeChar c
  have hpos := c.utf8Size_pos
  have hfront := frontChar?_utf8EncodeChar_append c bs
  cases hbytes : String.utf8EncodeChar c with
  | nil => simp [hbytes] at hlen; omega
  | cons b rest =>
    rw [hbytes, List.cons_append] at hfront
    have hrest : rest.length = c.utf8Size - 1 := by
      rw [hbytes, List.length_cons] at hlen
      omega
    rw [List.cons_append, readBytes, hfront]
    simp only [← hrest, List.drop_left]
    cases l.step c <;> rfl

theorem readBytes_utf8 (l : Lexer) (cs : List Char) :
    l.readBytes (cs.flatMap String.utf8EncodeChar) = cs.foldlM step l := by
  induction cs generalizing l with
  | nil => simp [readBytes]
  | cons c cs ih =>
    rw [List.flatMap_cons, readBytes_utf8EncodeChar_append, List.foldlM_cons]
    cases l.step c with
    | none => rfl
    | some l' => exact ih l'

end Lexer

namespace Json

/-- What some bytes say, unless they are no JSON text. -/
def readBytes? (bs : Bytes) : Option Json :=
  ((Lexer.readBytes {} bs).bind Lexer.finish).bind ofTokens?

/-- **The bytes of a text say what the text says.** -/
theorem readBytes?_utf8 (cs : List Char) :
    readBytes? (cs.flatMap String.utf8EncodeChar) = read? cs := by
  rw [readBytes?, Lexer.readBytes_utf8]
  rfl

end Json

/-- The value that some bytes say and `decode` understands. -/
def readEncoded? {α : Type} (decode : Json → Option α) (bs : Bytes) : Option α :=
  (Json.readBytes? bs).bind decode

end Runspace
