import Runspace.Message
import Runspace.Proofs.Json.Trees

/-!
# Depth — a payload that is read is not nested deeper than its text

There are several texts for one payload: fields in any order, records as arrays, members that
nobody asks for. None of them is nested less deeply than the form that is written.

* **`Json.Within.of_fields?`**: the fields of a record are nested less deeply than the record;
* **`Payload.within_toJson`**.
-/

namespace Runspace

variable {j : Json} {n : Nat}

/-! ## Fields -/

theorem mem_of_mapM {α β : Type} {f : α → Option β} {as : List α} {bs : List β}
    (h : as.mapM f = some bs) {b : β} (hb : b ∈ bs) : ∃ a ∈ as, f a = some b := by
  induction as generalizing bs with
  | nil =>
    cases h
    cases hb
  | cons a as ih =>
    simp only [List.mapM_cons, Option.bind_eq_bind, Option.bind_eq_some_iff] at h
    obtain ⟨c, hc, cs, hcs, hall⟩ := h
    cases hall
    rcases List.mem_cons.1 hb with rfl | hb
    · exact ⟨a, List.mem_cons_self .., hc⟩
    · obtain ⟨a', ha', hfa⟩ := ih hcs hb
      exact ⟨a', List.mem_cons_of_mem a ha', hfa⟩

namespace Json

theorem mem_of_atMostOnce? {ms : List (String × Json)} {k : String}
    (h : atMostOnce? ms k = some (some j)) : ∃ m ∈ ms, m.2 = j := by
  unfold atMostOnce? at h
  split at h
  · cases h
  · next j' hvalues =>
    cases h
    have hj : j ∈ valuesOf k ms := hvalues ▸ List.mem_singleton_self j
    obtain ⟨m, hm, rfl⟩ := List.mem_map.1 hj
    exact ⟨m, (List.mem_filter.1 hm).1, rfl⟩
  · cases h

/-- **The fields of a record are nested less deeply than the record.** -/
theorem Within.of_fields? {names : List String} {fs : List (Option Json)} (h : j.Within n)
    (hf : j.fields? names = some fs) : ∃ m, n = m + 1 ∧ ∀ x, some x ∈ fs → x.Within m := by
  unfold fields? at hf
  split at hf
  · next ms =>
    obtain ⟨m, rfl, hms⟩ := h.of_object
    refine ⟨m, rfl, fun x hx => ?_⟩
    obtain ⟨k, -, hk⟩ := mem_of_mapM hf hx
    obtain ⟨p, hp, rfl⟩ := mem_of_atMostOnce? hk
    exact hms p hp
  · next js =>
    obtain ⟨m, rfl, hjs⟩ := h.of_array
    refine ⟨m, rfl, fun x hx => ?_⟩
    split at hf
    · cases hf
      rcases List.mem_append.1 hx with hx | hx
      · obtain ⟨y, hy, hxy⟩ := List.mem_map.1 hx
        cases hxy
        exact hjs x hy
      · cases (List.mem_replicate.1 hx).2
    · cases hf
  · cases hf

theorem Within.of_fields?_bind {α : Type} {names : List String} {f : List (Option Json) → Option α}
    {a : α} (h : j.Within n) (ha : (j.fields? names).bind f = some a) :
    ∃ m fs, n = m + 1 ∧ (∀ x, some x ∈ fs → x.Within m) ∧ f fs = some a := by
  obtain ⟨fs, hfs, hf⟩ := Option.bind_eq_some_iff.1 ha
  obtain ⟨m, hm, hfields⟩ := h.of_fields? hfs
  exact ⟨m, fs, hm, hfields, hf⟩

theorem Within.of_elements? {js : List Json} (h : j.Within n) (hj : j.elements? = some js) :
    ∃ m, n = m + 1 ∧ ∀ x ∈ js, x.Within m := by
  unfold elements? at hj
  split at hj
  · cases hj
    exact h.of_array
  · cases hj

theorem Within.of_mapM {α : Type} {read : Json → Option α} {write : α → Json} {as : List α}
    (h : j.Within n) (has : j.elements?.bind (·.mapM read) = some as)
    (hread : ∀ {j n a}, j.Within n → read j = some a → (write a).Within n) :
    (array (as.map write)).Within n := by
  obtain ⟨js, hjs, hall⟩ := Option.bind_eq_some_iff.1 has
  obtain ⟨m, rfl, hwithin⟩ := h.of_elements? hjs
  rw [within_array]
  intro x hx
  obtain ⟨a, ha, rfl⟩ := List.mem_map.1 hx
  obtain ⟨y, hy, hya⟩ := mem_of_mapM hall ha
  exact hread (hwithin y hy) hya

end Json

/-! ## Commands -/

theorem Argument.within_toJson {a : Argument} (h : j.Within n) (ha : ofJson? j = some a) :
    a.toJson.Within n := by
  obtain ⟨m, fs, rfl, hfields, ha⟩ := h.of_fields?_bind ha
  split at ha
  · next name value =>
    simp only [Option.bind_eq_bind, Option.bind_eq_some_iff] at ha
    obtain ⟨name', -, v, hv, ha⟩ := ha
    cases ha
    have hvalue := Value.within_of_ofJson? hv (hfields value (by simp))
    cases name' <;> simp [toJson, hvalue]
  · cases ha

theorem Command.within_toJson {c : Command} (h : j.Within n) (hc : ofJson? j = some c) :
    c.toJson.Within n := by
  obtain ⟨m, fs, rfl, hfields, hc⟩ := h.of_fields?_bind hc
  split at hc
  · next name arguments =>
    cases arguments with
    | none =>
      obtain ⟨as, has, hc⟩ := Option.bind_eq_some_iff.1 hc
      obtain ⟨name', -, hc⟩ := Option.bind_eq_some_iff.1 hc
      cases has
      cases hc
      simp [toJson]
    | some js =>
      obtain ⟨as, has, hc⟩ := Option.bind_eq_some_iff.1 hc
      obtain ⟨name', -, hc⟩ := Option.bind_eq_some_iff.1 hc
      cases hc
      have hargs := (hfields js (by simp)).of_mapM has Argument.within_toJson
      unfold toJson
      split <;> simp [hargs]
  · cases hc

theorem Command.within_listToJson {cs : List Command} (h : j.Within n)
    (hcs : listOfJson? j = some cs) : (listToJson cs).Within n :=
  h.of_mapM hcs within_toJson

/-! ## Payloads -/

namespace Payload

theorem within_of_bare? {p q : Payload} (h : j.Within n) (hp : bare? q j = some p) :
    p = q ∧ ∃ m, n = m + 1 := by
  unfold bare? at hp
  split at hp
  · cases hp
    obtain ⟨m, hm, -⟩ := h.of_object
    exact ⟨rfl, m, hm⟩
  · cases hp
    obtain ⟨m, hm, -⟩ := h.of_array
    exact ⟨rfl, m, hm⟩
  · cases hp

theorem within_reasonMember (reason : Option String) :
    ∀ m ∈ reasonMember reason, m.2.Within n := by
  cases reason <;> simp [reasonMember]

theorem within_of_ofFields? {kind : String} {p : Payload} (h : j.Within n)
    (hp : ofFields? kind j = some p) : p.toJson.Within n := by
  unfold ofFields? at hp
  split at hp
  · obtain ⟨m, fs, rfl, hfields, hp⟩ := h.of_fields?_bind hp
    split at hp
    · simp only [Option.bind_eq_bind, Option.bind_eq_some_iff] at hp
      obtain ⟨pool, -, lo, -, hi, -, hp⟩ := hp
      cases hp
      simp [toJson, countJson]
    · cases hp
  split at hp
  · obtain ⟨m, fs, rfl, hfields, hp⟩ := h.of_fields?_bind hp
    split at hp
    · simp only [Option.bind_eq_bind, Option.bind_eq_some_iff] at hp
      obtain ⟨pool, -, hp⟩ := hp
      cases hp
      simp [toJson]
    · cases hp
  split at hp
  · obtain ⟨m, fs, rfl, hfields, hp⟩ := h.of_fields?_bind hp
    split at hp
    · simp only [Option.bind_eq_bind, Option.bind_eq_some_iff] at hp
      obtain ⟨hi, -, hp⟩ := hp
      cases hp
      simp [toJson, countJson]
    · cases hp
  split at hp
  · obtain ⟨m, fs, rfl, hfields, hp⟩ := h.of_fields?_bind hp
    split at hp
    · next commands =>
      simp only [Option.bind_eq_bind, Option.bind_eq_some_iff] at hp
      obtain ⟨cs, hcs, hp⟩ := hp
      cases hp
      have hcommands := Command.within_listToJson (hfields commands (by simp)) hcs
      simp [toJson, hcommands]
    · cases hp
  split at hp
  · obtain ⟨rfl, m, rfl⟩ := within_of_bare? h hp
    simp [toJson]
  split at hp
  · obtain ⟨rfl, m, rfl⟩ := within_of_bare? h hp
    simp [toJson]
  split at hp
  · obtain ⟨m, fs, rfl, hfields, hp⟩ := h.of_fields?_bind hp
    split at hp
    · simp only [Option.bind_eq_bind, Option.bind_eq_some_iff] at hp
      obtain ⟨state, -, reason, -, hp⟩ := hp
      cases hp
      simpa [toJson] using fun k x hx => within_reasonMember reason (k, x) hx
    · cases hp
  split at hp
  · obtain ⟨m, fs, rfl, hfields, hp⟩ := h.of_fields?_bind hp
    split at hp
    · next stream data =>
      simp only [Option.bind_eq_bind, Option.bind_eq_some_iff] at hp
      obtain ⟨state, -, v, hv, hp⟩ := hp
      cases hp
      have hdata := Value.within_of_ofJson? hv (hfields data (by simp))
      simp [toJson, hdata]
    · cases hp
  split at hp
  · obtain ⟨m, fs, rfl, hfields, hp⟩ := h.of_fields?_bind hp
    split at hp
    · simp only [Option.bind_eq_bind, Option.bind_eq_some_iff] at hp
      obtain ⟨state, -, reason, -, hp⟩ := hp
      cases hp
      simpa [toJson] using fun k x hx => within_reasonMember reason (k, x) hx
    · cases hp
  · cases hp

/-- **A payload that is read nests no deeper than the text that it is read from.** -/
theorem within_toJson {p : Payload} (h : j.Within n) (hp : ofJson? j = some p) :
    p.toJson.Within n := by
  unfold ofJson? at hp
  split at hp
  · split at hp
    · next ms =>
      simp only [Option.bind_eq_bind, Option.bind_eq_some_iff] at hp
      obtain ⟨kind, -, word, -, hfields⟩ := hp
      obtain ⟨m, rfl, hms⟩ := h.of_object
      refine within_of_ofFields? (Json.within_object.2 fun q hq => ?_) hfields
      exact hms q ((List.mem_filter.1 hq).1)
    · next js =>
      simp only [Option.bind_eq_bind, Option.bind_eq_some_iff] at hp
      obtain ⟨word, -, hfields⟩ := hp
      obtain ⟨m, rfl, hjs⟩ := h.of_array
      refine within_of_ofFields? (Json.within_array.2 fun x hx => ?_) hfields
      exact hjs x (List.mem_cons_of_mem _ hx)
    · cases hp
  · cases hp

end Payload

end Runspace
