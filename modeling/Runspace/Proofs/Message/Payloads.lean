import Mathlib.Algebra.GroupWithZero.Nat
import Runspace.Message
import Runspace.Proofs.Json.Trees

/-!
# Payloads — the JSON forms of ids, commands and payloads read back

What is written is read back: **`PoolId.read?_text`**, **`Command.ofJson?_toJson`**,
**`Payload.ofJson?_toJson`**.
-/

namespace Runspace

/-! ## Fields -/

namespace Json

variable {ms : List (String × Json)} {j : Json} {k name : String}

@[simp] theorem fields?_object (ms : List (String × Json)) (names : List String) :
    (object ms).fields? names = names.mapM (atMostOnce? ms) := rfl

@[simp] theorem atMostOnce?_nil (k : String) : atMostOnce? [] k = some none := rfl

@[simp] theorem atMostOnce?_cons_of_ne (h : name ≠ k) :
    atMostOnce? ((name, j) :: ms) k = atMostOnce? ms k := by
  unfold atMostOnce? valuesOf
  rw [List.filter_cons_of_neg (by simpa using h)]

theorem valuesOf_cons_self (h : ∀ m ∈ ms, m.1 ≠ k) : valuesOf k ((k, j) :: ms) = [j] := by
  have hnone : ms.filter (·.1 = k) = [] :=
    List.filter_eq_nil_iff.2 fun m hm => by simpa using h m hm
  simp [valuesOf, hnone]

@[simp] theorem atMostOnce?_cons_self (h : ∀ m ∈ ms, m.1 ≠ k) :
    atMostOnce? ((k, j) :: ms) k = some (some j) := by
  rw [atMostOnce?, valuesOf_cons_self h]

end Json

/-! ## Pool ids -/

theorem mapM_hexValue? (ds : List (Fin 16)) : (ds.map hexDigit).mapM hexValue? = some ds := by
  induction ds with
  | nil => rfl
  | cons d ds ih => simp [ih]

namespace PoolId

theorem readHyphenated?_hyphenated {sizes : List Nat} {ds : List (Fin 16)}
    (h : ds.length = sizes.sum) : readHyphenated? sizes (hyphenated sizes ds) = some ds := by
  induction sizes generalizing ds with
  | nil =>
    obtain rfl := List.length_eq_zero_iff.1 h
    rfl
  | cons n sizes ih =>
    cases sizes with
    | nil =>
      have hn : ds.length = n := by simpa using h
      rw [hyphenated, readHyphenated?, ← hn, List.take_length, if_pos (List.length_map ..),
        mapM_hexValue?]
    | cons m sizes =>
      have hrest : (ds.drop n).length = (m :: sizes).sum := by
        rw [List.length_drop, h, List.sum_cons]
        omega
      have htake : ((ds.take n).map hexDigit).length = n := by
        rw [List.length_map, List.length_take, h, List.sum_cons]
        omega
      rw [hyphenated, readHyphenated?, List.take_left' htake, List.drop_left' htake,
        mapM_hexValue?]
      simp only [ih hrest, Option.map_some, List.take_append_drop]

theorem length_hyphenated {n : Nat} {sizes : List Nat} {ds : List (Fin 16)}
    (h : ds.length = (n :: sizes).sum) :
    (hyphenated (n :: sizes) ds).length = (n :: sizes).sum + sizes.length := by
  induction sizes generalizing n ds with
  | nil =>
    have hn : ds.length = n := by simpa using h
    simp [hyphenated, hn]
  | cons m sizes ih =>
    have hrest : (ds.drop n).length = (m :: sizes).sum := by
      rw [List.length_drop, h, List.sum_cons]
      omega
    rw [hyphenated, List.length_append, List.length_cons, ih hrest, List.length_map,
      List.length_take, h]
    simp only [List.sum_cons, List.length_cons]
    omega

/-- **A pool id is read back from its text.** -/
theorem read?_text (id : PoolId) : read? id.text = some id := by
  have hlen := id.length_digits
  have hread : readHyphenated? groups (hyphenated groups id.digits) = some id.digits :=
    readHyphenated?_hyphenated hlen
  have htext : (hyphenated groups id.digits).length = 36 := length_hyphenated hlen
  unfold read? text
  simp only [String.toList_ofList, htext, hread]
  exact dif_pos hlen

end PoolId

/-! ## Written forms -/

theorem mapM_of_inverse {α β : Type} {f : α → β} {g : β → Option α} (h : ∀ a, g (f a) = some a)
    (as : List α) : as.mapM (g ∘ f) = some as := by
  induction as with
  | nil => rfl
  | cons a as ih => simp [h, ih]

theorem Payload.count?_countJson (n : UInt32) : count? (countJson n) = some n := by
  have hlt : n.toNat < 4294967296 := n.toNat_lt
  have hnat : (UInt64.ofNat n.toNat).toNat = n.toNat := by
    rw [UInt64.toNat_ofNat']
    exact Nat.mod_eq_of_lt (by omega)
  rw [count?, countJson, Json.ofNat, Json.natural?, hnat, if_pos (by omega), Option.map_some,
    UInt32.ofNat_toNat]

theorem Payload.poolId?_text (id : PoolId) : poolId? (.string id.text) = some id := id.read?_text

theorem Argument.ofJson?_toJson (a : Argument) : ofJson? a.toJson = some a := by
  obtain ⟨name, value⟩ := a
  cases name with
  | none => simp [ofJson?, toJson, Json.optionalText?, Value.ofJson?_json]
  | some n => simp [ofJson?, toJson, Json.optionalText?, Value.ofJson?_json]

theorem Command.ofJson?_toJson (c : Command) : ofJson? c.toJson = some c := by
  obtain ⟨name, arguments⟩ := c
  cases arguments with
  | nil => simp [ofJson?, toJson, Json.string?]
  | cons a as =>
    simp [ofJson?, toJson, Json.string?, Json.elements?, Argument.ofJson?_toJson,
      mapM_of_inverse Argument.ofJson?_toJson]

theorem Command.listOfJson?_listToJson (cs : List Command) :
    listOfJson? (listToJson cs) = some cs := by
  simp [listOfJson?, listToJson, Json.elements?, List.mapM_map, mapM_of_inverse ofJson?_toJson]

theorem Value.isReadable_json (v : Value) : v.json.isReadable :=
  (v.json.normalize_of_canonical v.canonical).1

theorem Argument.isReadable_toJson (a : Argument) : a.toJson.isReadable := by
  obtain ⟨name, value⟩ := a
  cases name <;> simp [toJson, value.isReadable_json]

theorem Command.isReadable_toJson (c : Command) : c.toJson.isReadable := by
  unfold toJson
  split <;> simp [Argument.isReadable_toJson]

namespace Payload

theorem isReadable_toJson (p : Payload) : p.toJson.isReadable := by
  cases p with
  | poolState state reason => cases reason <;> simp [toJson, reasonMember]
  | pipelineState state reason => cases reason <;> simp [toJson, reasonMember]
  | createPipeline commands => simp [toJson, Command.listToJson, Command.isReadable_toJson]
  | record stream data => simp [toJson, data.isReadable_json]
  | _ => simp [toJson, countJson]

/-- Where the kind comes first and no field is called as it is, the fields are those after it. -/
theorem ofJson?_object {kind : String} {fields : List (String × Json)}
    (hread : (Json.object (("type", .string kind) :: fields)).isReadable)
    (hfields : ∀ m ∈ fields, m.1 ≠ "type") :
    ofJson? (.object (("type", .string kind) :: fields)) = ofFields? kind (.object fields) := by
  have hkind : Json.member? "type" (("type", .string kind) :: fields) = some (.string kind) := by
    rw [Json.member?, Json.valuesOf_cons_self hfields]
  have hothers : (("type", Json.string kind) :: fields).filter (·.1 ≠ "type") = fields := by
    rw [List.filter_cons_of_neg (by simp)]
    exact List.filter_eq_self.2 fun m hm => decide_eq_true (hfields m hm)
  unfold ofJson?
  rw [if_pos hread]
  simp only [hkind, hothers, Json.string?, Option.bind_eq_bind, Option.bind_some]

/-- **A payload is read back from its JSON form.** -/
theorem ofJson?_toJson (p : Payload) : ofJson? p.toJson = some p := by
  have hread := p.isReadable_toJson
  cases p with
  | initPool pool lo hi =>
    refine (ofJson?_object hread (by simp)).trans ?_
    simp [ofFields?, poolId?_text, count?_countJson]
  | connectPool pool =>
    refine (ofJson?_object hread (by simp)).trans ?_
    simp [ofFields?, poolId?_text]
  | setMaxRunspaces hi =>
    refine (ofJson?_object hread (by simp)).trans ?_
    simp [ofFields?, count?_countJson]
  | createPipeline commands =>
    refine (ofJson?_object hread (by simp)).trans ?_
    simp [ofFields?, Command.listOfJson?_listToJson]
  | stopPipeline => exact ofJson?_object hread (by simp)
  | closePool => exact ofJson?_object hread (by simp)
  | poolState state reason =>
    refine (ofJson?_object hread (by cases reason <;> simp [reasonMember])).trans ?_
    cases reason <;>
      simp [ofFields?, reasonMember, Json.bodyChoice?, Json.choice?, Json.optionalText?]
  | record stream data =>
    refine (ofJson?_object hread (by simp)).trans ?_
    simp [ofFields?, Json.bodyChoice?, Json.choice?, data.ofJson?_json]
  | pipelineState state reason =>
    refine (ofJson?_object hread (by cases reason <;> simp [reasonMember])).trans ?_
    cases reason <;>
      simp [ofFields?, reasonMember, Json.bodyChoice?, Json.choice?, Json.optionalText?]

end Payload

end Runspace
