import Runspace.Json.Text

/-!
# Trees — the parts of a JSON value

What is said of a value is said of the values that it holds. A value is *within* `n` if all its
numbers are integers and its arrays and objects are nested at most `n` deep.

* `Json.children`, `Json.children_induction`: the values that a value holds;
* `Json.depth`, `Json.isIntegral`, `Json.Within`;
* **`Json.normalize_of_canonical`**, **`Json.Within.normalize`**: normal forms.
-/

namespace Runspace

namespace Json

variable {j : Json} {js : List Json} {ms : List (String × Json)} {n : Nat}

/-! ## Children -/

/-- The values that an array or an object holds. -/
def children : Json → List Json
  | .array js => js
  | .object ms => ms.map (·.2)
  | _ => []

/-- What holds of a value if it holds of those in it holds of every value. -/
theorem children_induction {motive : Json → Prop}
    (step : ∀ j, (∀ c ∈ j.children, motive c) → motive j) (j : Json) : motive j := by
  refine step j fun c hc => ?_
  have hsize : sizeOf c < sizeOf j := by
    cases j with
    | array js =>
      have : sizeOf c < sizeOf js := List.sizeOf_lt_of_mem hc
      simp only [array.sizeOf_spec]
      omega
    | object ms =>
      obtain ⟨m, hm, rfl⟩ := List.mem_map.1 hc
      have := List.sizeOf_lt_of_mem hm
      obtain ⟨k, c⟩ := m
      simp only [object.sizeOf_spec, Prod.mk.sizeOf_spec] at this ⊢
      omega
    | null | bool | number | string | unreadable => cases hc
  exact children_induction step c
termination_by sizeOf j

@[simp] theorem isReadable_array : (array js).isReadable ↔ ∀ j ∈ js, j.isReadable := by
  rw [isReadable]
  induction js with
  | nil => simp [allReadable]
  | cons j js ih => simp [allReadable, ih]

@[simp] theorem isReadable_object : (object ms).isReadable ↔ ∀ m ∈ ms, m.2.isReadable := by
  rw [isReadable]
  induction ms with
  | nil => simp [membersReadable]
  | cons m ms ih => simp [membersReadable, ih]

@[simp] theorem isReadable_string (s : String) : (string s).isReadable := rfl

@[simp] theorem isReadable_ofNat (n : Nat) : (ofNat n).isReadable := rfl

@[simp] theorem isCanonical_array : (array js).isCanonical ↔ ∀ j ∈ js, j.isCanonical := by
  rw [isCanonical]
  induction js with
  | nil => simp [allCanonical]
  | cons j js ih => simp [allCanonical, ih]

/-! ## Nesting and numbers -/

mutual

/-- How deeply arrays and objects are nested. -/
def depth : Json → Nat
  | .array js => depthOfAll js + 1
  | .object ms => depthOfMembers ms + 1
  | _ => 0

/-- The largest `depth` of some elements. -/
def depthOfAll : List Json → Nat
  | [] => 0
  | j :: js => max j.depth (depthOfAll js)

/-- The largest `depth` of some members. -/
def depthOfMembers : List (String × Json) → Nat
  | [] => 0
  | (_, j) :: ms => max j.depth (depthOfMembers ms)

end

mutual

/-- Whether a text has a value in all its parts, and its numbers are integers that fit 64 bits. -/
def isIntegral : Json → Bool
  | .number (.double _) => false
  | .array js => allIntegral js
  | .object ms => membersIntegral ms
  | .unreadable => false
  | _ => true

/-- `isIntegral` of all elements. -/
def allIntegral : List Json → Bool
  | [] => true
  | j :: js => j.isIntegral && allIntegral js

/-- `isIntegral` of all members. -/
def membersIntegral : List (String × Json) → Bool
  | [] => true
  | (_, j) :: ms => j.isIntegral && membersIntegral ms

end

theorem depth_array_le : (array js).depth ≤ n + 1 ↔ ∀ j ∈ js, j.depth ≤ n := by
  rw [depth, Nat.succ_le_succ_iff]
  induction js with
  | nil => simp [depthOfAll]
  | cons j js ih => rw [depthOfAll, Nat.max_le, List.forall_mem_cons, ih]

theorem depth_object_le : (object ms).depth ≤ n + 1 ↔ ∀ m ∈ ms, m.2.depth ≤ n := by
  rw [depth, Nat.succ_le_succ_iff]
  induction ms with
  | nil => simp [depthOfMembers]
  | cons m ms ih => rw [depthOfMembers, Nat.max_le, List.forall_mem_cons, ih]

theorem isIntegral_array : (array js).isIntegral ↔ ∀ j ∈ js, j.isIntegral := by
  rw [isIntegral]
  induction js with
  | nil => simp [allIntegral]
  | cons j js ih => simp [allIntegral, ih]

theorem isIntegral_object : (object ms).isIntegral ↔ ∀ m ∈ ms, m.2.isIntegral := by
  rw [isIntegral]
  induction ms with
  | nil => simp [membersIntegral]
  | cons m ms ih => simp [membersIntegral, ih]

theorem isReadable_of_isIntegral (j : Json) (h : j.isIntegral) : j.isReadable := by
  induction j using children_induction with
  | step j ih =>
    cases j with
    | array js =>
      exact isReadable_array.2 fun c hc => ih c hc (isIntegral_array.1 h c hc)
    | object ms =>
      exact isReadable_object.2 fun m hm =>
        ih m.2 (List.mem_map_of_mem hm) (isIntegral_object.1 h m hm)
    | null | bool | number | string => rfl
    | unreadable => cases h

/-- All numbers are integers, and arrays and objects are nested at most `n` deep. -/
def Within (n : Nat) (j : Json) : Prop := j.isIntegral ∧ j.depth ≤ n

@[simp] theorem within_array : (array js).Within (n + 1) ↔ ∀ j ∈ js, j.Within n := by
  rw [Within, isIntegral_array, depth_array_le]
  exact ⟨fun h c hc => ⟨h.1 c hc, h.2 c hc⟩,
    fun h => ⟨fun c hc => (h c hc).1, fun c hc => (h c hc).2⟩⟩

@[simp] theorem within_object : (object ms).Within (n + 1) ↔ ∀ m ∈ ms, m.2.Within n := by
  rw [Within, isIntegral_object, depth_object_le]
  exact ⟨fun h m hm => ⟨h.1 m hm, h.2 m hm⟩,
    fun h => ⟨fun m hm => (h m hm).1, fun m hm => (h m hm).2⟩⟩

theorem Within.of_array (h : (array js).Within n) : ∃ m, n = m + 1 ∧ ∀ j ∈ js, j.Within m := by
  cases n with
  | zero => exact absurd h.2 (by rw [depth]; omega)
  | succ n => exact ⟨n, rfl, within_array.1 h⟩

theorem Within.of_object (h : (object ms).Within n) :
    ∃ m, n = m + 1 ∧ ∀ p ∈ ms, p.2.Within m := by
  cases n with
  | zero => exact absurd h.2 (by rw [depth]; omega)
  | succ n => exact ⟨n, rfl, within_object.1 h⟩

@[simp] theorem within_string (s : String) (n : Nat) : (string s).Within n := ⟨rfl, Nat.zero_le n⟩

@[simp] theorem within_ofNat (k n : Nat) : (ofNat k).Within n := ⟨rfl, Nat.zero_le n⟩

/-! ## Normal forms -/

theorem mem_insertMember {k : String} {m : String × Json} (h : m ∈ insertMember k j ms) :
    m = (k, j) ∨ m ∈ ms := by
  induction ms with
  | nil => exact .inl (List.mem_singleton.1 h)
  | cons m' ms ih =>
    obtain ⟨k', j'⟩ := m'
    rw [insertMember] at h
    split at h
    · exact List.mem_cons.1 h
    · split at h
      · exact .inr h
      · rcases List.mem_cons.1 h with rfl | h
        · exact .inr (List.mem_cons_self ..)
        · exact (ih h).imp_right (List.mem_cons_of_mem _)

theorem mem_normalizeMembers {m : String × Json} (h : m ∈ normalizeMembers ms) :
    ∃ m' ∈ ms, m = (m'.1, m'.2.normalize) := by
  induction ms with
  | nil => cases h
  | cons m' ms ih =>
    rcases mem_insertMember h with rfl | h
    · exact ⟨m', List.mem_cons_self .., rfl⟩
    · obtain ⟨m', hm', rfl⟩ := ih h
      exact ⟨m', List.mem_cons_of_mem _ hm', rfl⟩

theorem normalizeAll_eq (js : List Json) : normalizeAll js = js.map normalize := by
  induction js with
  | nil => rfl
  | cons j js ih => rw [normalizeAll, ih, List.map_cons]

/-- **A normal form nests no deeper, and its numbers are those of the text.** -/
theorem Within.normalize (h : j.Within n) : j.normalize.Within n := by
  induction j using children_induction generalizing n with
  | step j ih =>
    cases j with
    | array js =>
      obtain ⟨m, rfl, hjs⟩ := h.of_array
      rw [Json.normalize, normalizeAll_eq, within_array]
      intro c hc
      obtain ⟨d, hd, rfl⟩ := List.mem_map.1 hc
      exact ih d hd (hjs d hd)
    | object ms =>
      obtain ⟨m, rfl, hms⟩ := h.of_object
      rw [Json.normalize, within_object]
      intro p hp
      obtain ⟨q, hq, rfl⟩ := mem_normalizeMembers hp
      exact ih q.2 (List.mem_map_of_mem hq) (hms q hq)
    | null | bool | number | string | unreadable => exact h

theorem insertMember_of_precedes {k : String} (h : precedes k ms) :
    insertMember k j ms = (k, j) :: ms := by
  cases ms with
  | nil => rfl
  | cons m ms => rw [insertMember, if_pos (of_decide_eq_true h)]

theorem normalizeMembers_of_canonical (h : membersCanonical ms)
    (hms : ∀ m ∈ ms, m.2.normalize = m.2) : normalizeMembers ms = ms := by
  induction ms with
  | nil => rfl
  | cons m ms ih =>
    simp only [membersCanonical, Bool.and_eq_true] at h
    obtain ⟨⟨-, hprecedes⟩, hcanonical⟩ := h
    obtain ⟨hhead, htail⟩ := List.forall_mem_cons.1 hms
    rw [normalizeMembers, ih hcanonical htail, hhead, insertMember_of_precedes hprecedes]

theorem isCanonical_of_mem {m : String × Json} (h : membersCanonical ms) (hm : m ∈ ms) :
    m.2.isCanonical := by
  induction ms with
  | nil => cases hm
  | cons m' ms ih =>
    simp only [membersCanonical, Bool.and_eq_true] at h
    rcases List.mem_cons.1 hm with rfl | hm
    · exact h.1.1
    · exact ih h.2 hm

/-- **A canonical value is readable, and its own normal form.** -/
theorem normalize_of_canonical (j : Json) (h : j.isCanonical) :
    j.isReadable ∧ j.normalize = j := by
  induction j using children_induction with
  | step j ih =>
    cases j with
    | array js =>
      have hjs (c : Json) (hc : c ∈ js) := ih c hc (isCanonical_array.1 h c hc)
      refine ⟨isReadable_array.2 fun c hc => (hjs c hc).1, ?_⟩
      rw [normalize, normalizeAll_eq, List.map_congr_left fun c hc => (hjs c hc).2, List.map_id']
    | object ms =>
      have hms (m : String × Json) (hm : m ∈ ms) :=
        ih m.2 (List.mem_map_of_mem hm) (isCanonical_of_mem h hm)
      refine ⟨isReadable_object.2 fun m hm => (hms m hm).1, ?_⟩
      rw [normalize, normalizeMembers_of_canonical h fun m hm => (hms m hm).2]
    | null | bool | number | string => exact ⟨rfl, rfl⟩
    | unreadable => cases h

end Json

/-- A free-form value is what its text says. -/
theorem Value.ofJson?_json (v : Value) : ofJson? v.json = some v := by
  obtain ⟨hreadable, hnormal⟩ := v.json.normalize_of_canonical v.canonical
  obtain ⟨j, hj⟩ := v
  rw [ofJson?, dif_pos hreadable]
  simp only [hnormal]

theorem Value.within_of_ofJson? {j : Json} {v : Value} {n : Nat} (hv : ofJson? j = some v)
    (h : j.Within n) : v.json.Within n := by
  unfold ofJson? at hv
  split at hv
  · cases hv
    exact h.normalize
  · cases hv

end Runspace
