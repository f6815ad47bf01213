import Runspace.Proofs.Json.Nesting
import Runspace.Proofs.Json.RoundTrip
import Runspace.Proofs.Message.Depth
import Runspace.Proofs.Message.Payloads

/-!
# Bodies — messages are read back from their bodies

A body may be written in several ways, but a message is written in one. So a message that is
written and read is the same, and a body that is read and written is settled after the first time.

* `Message.said?`, `Message.decode_eq_ok_iff`: what a body says as JSON, and as a message;
* **`Message.decode_encode`**: a message is read back from its body;
* **`Message.round_trip`**.
-/

namespace Runspace

namespace Message

variable {m : Message} {target : Target} {body : Bytes}

/-- What a body says as JSON, if it is a JSON text. -/
def said? (body : Bytes) : Option Json :=
  (String.fromUTF8? ⟨body.toArray⟩).bind fun s => Json.read? s.toList

theorem said?_utf8 (s : String) : said? s.toUTF8.data.toList = Json.read? s.toList := by
  have hvalid : s.toUTF8.IsValidUTF8 := s.isValidUTF8
  rw [said?, Array.toArray_toList, String.fromUTF8?, dif_pos hvalid]
  rfl

theorem decode_eq_ok_iff : decode target body = .ok m ↔
    ∃ j, said? body = some j ∧ Payload.ofJson? j = some m.payload ∧ m.target = target := by
  have hread : (String.fromUTF8? ⟨body.toArray⟩).bind (readText? Payload.ofJson?) =
      (said? body).bind Payload.ofJson? := (Option.bind_assoc ..).symm
  unfold decode
  rw [hread]
  cases hsaid : said? body with
  | none => simp
  | some j =>
    rw [Option.bind_some]
    cases hp : Payload.ofJson? j with
    | none => simp [hp]
    | some p =>
      obtain ⟨target', p'⟩ := m
      simp [hp, eq_comm, and_comm]

/-- **A message is read back from its body.** -/
theorem decode_encode (m : Message) (h : m.payload.toJson.Within maxDepth) :
    decode m.target m.encode = .ok m := by
  refine decode_eq_ok_iff.2 ⟨m.payload.toJson, ?_, m.payload.ofJson?_toJson, rfl⟩
  rw [encode, said?_utf8, bodyText, Json.toText, String.toList_ofList]
  exact Json.read?_write _ h

/-- **Messages survive their bodies.** A message whose numbers are integers, and whose body is not
nested beyond the limit, is read back from its body. A body with integers only, however it is
written, says the same once it is read and written again, and from then on in the same bytes. The
numbers that are no integers are those that are written with a fraction or an exponent, that do not
fit 64 bits, or that are minus zero. -/
theorem round_trip :
    (∀ m : Message, m.payload.toJson.isIntegral → m.payload.toJson.depth ≤ maxDepth →
      decode m.target m.encode = .ok m) ∧
    (∀ (target : Target) (body : Bytes) (j : Json) (m : Message), said? body = some j →
      j.isIntegral → decode target body = .ok m →
        decode target m.encode = .ok m ∧
          ∀ again, decode target m.encode = .ok again → again.encode = m.encode) ∧
    ∀ n : Numeral, n.value.isIntegral ↔ n.IsInteger := by
  refine ⟨fun m hint hdepth => decode_encode m ⟨hint, hdepth⟩,
    fun target body j m hsaid hint hm => ?_, Numeral.isIntegral_value_iff⟩
  obtain ⟨j', hj', hp, rfl⟩ := decode_eq_ok_iff.1 hm
  obtain rfl : j = j' := Option.some.inj (hsaid.symm.trans hj')
  obtain ⟨s, -, hread⟩ := Option.bind_eq_some_iff.1 hsaid
  have hdepth := Json.depth_of_read? hread (Json.isReadable_of_isIntegral j hint)
  have hagain := decode_encode m (Payload.within_toJson ⟨hint, hdepth⟩ hp)
  refine ⟨hagain, fun again h => ?_⟩
  rw [Except.ok.inj (hagain.symm.trans h)]

/-- A report in an array, with a state in an object and no reason. -/
theorem round_trip_array :
    let body := (String.ofList ['[', '"', 'p', 'o', 'o', 'l', '_', 's', 't', 'a', 't', 'e', '"', ',',
      '\x7b', '"', 'b', 'r', 'o', 'k', 'e', 'n', '"', ':', 'n', 'u', 'l', 'l', '\x7d', ',',
      'n', 'u', 'l', 'l', ']']).toUTF8.data.toList
    let m : Message := ⟨.pool, .poolState .broken none⟩
    decode .pool body = .ok m ∧ decode .pool m.encode = .ok m := by
  intro body m
  have hsaid : said? body = some (.array [.string "pool_state",
      .object [("broken", .null)], .null]) := by
    rw [said?_utf8, String.toList_ofList]
    rfl
  have hm : decode .pool body = .ok m := decode_eq_ok_iff.2 ⟨_, hsaid, by rfl, rfl⟩
  exact ⟨hm, (round_trip.2.1 .pool body _ m hsaid rfl hm).1⟩

end Message

end Runspace
