import Runspace.Proofs.Json.Words

/-!
# Round trip — values are read back from their text

* **`Builder.builds_of_within`**: the tokens of a value are put together to the value;
* **`Json.read?_write`**: a value within the limits is read back from its text.
-/

namespace Runspace

namespace Builder

open Json

variable {stack : List Frame} {js : List Json} {ms : List (String × Json)} {n : Nat}

/-- What comes next may be a value. -/
def MayStart (e : Expect) : Prop := e = .value ∨ e = .element

/-- The tokens of a value are put together to the value, with `n` more levels to go. -/
def Builds (j : Json) (n : Nat) : Prop :=
  ∀ stack e, stack.length + n ≤ maxDepth → MayStart e →
    j.tokens.foldlM step ⟨stack, e⟩ = some (place stack j)

theorem finished_of_lt {outer : List Frame} (h : outer.length < maxDepth) (j : Json) :
    finished outer j = j := if_neg (Nat.not_le.2 h)

theorem foldlM_tokensAfterElement (h : ∀ j ∈ js, Builds j n)
    (hdepth : stack.length + 1 + n ≤ maxDepth) (es : List Json) :
    (tokensAfterElement js).foldlM step ⟨.array es :: stack, .more⟩ =
      some ⟨.array (js.reverse ++ es) :: stack, .more⟩ := by
  induction js generalizing es with
  | nil => rfl
  | cons j js ih =>
    obtain ⟨hj, hjs⟩ := List.forall_mem_cons.1 h
    rw [tokensAfterElement, List.foldlM_cons]
    show (j.tokens ++ tokensAfterElement js).foldlM step ⟨.array es :: stack, .value⟩ = _
    rw [List.foldlM_append, hj (.array es :: stack) .value hdepth (.inl rfl)]
    exact (ih hjs (j :: es)).trans (by simp)

theorem foldlM_tokensAfterMember (h : ∀ m ∈ ms, Builds m.2 n)
    (hdepth : stack.length + 1 + n ≤ maxDepth) (es : List (String × Json)) :
    (tokensAfterMember ms).foldlM step ⟨.object es true :: stack, .more⟩ =
      some ⟨.object (ms.reverse ++ es) true :: stack, .more⟩ := by
  induction ms generalizing es with
  | nil => rfl
  | cons m ms ih =>
    obtain ⟨hm, hms⟩ := List.forall_mem_cons.1 h
    obtain ⟨k, j⟩ := m
    rw [tokensAfterMember, List.foldlM_cons]
    show (j.tokens ++ tokensAfterMember ms).foldlM step
      ⟨.member es true (some k) :: stack, .value⟩ = _
    rw [List.foldlM_append, hm (.member es true (some k) :: stack) .value hdepth (.inl rfl)]
    exact (ih hms ((k, j) :: es)).trans (by simp)

theorem builds_array (h : ∀ j ∈ js, Builds j n) : Builds (.array js) (n + 1) := by
  intro stack e hdepth he
  have hopen : step ⟨stack, e⟩ .arrayOpen = some ⟨.array [] :: stack, .element⟩ := by
    rcases he with rfl | rfl <;> rfl
  have hfinished := finished_of_lt (show stack.length < maxDepth by omega)
  cases js with
  | nil =>
    rw [tokens, List.foldlM_cons, hopen]
    show some (place stack (finished stack (.array []))) = _
    rw [hfinished]
  | cons j js =>
    obtain ⟨hj, hjs⟩ := List.forall_mem_cons.1 h
    have hlevel : stack.length + 1 + n ≤ maxDepth := by omega
    rw [tokens, List.foldlM_cons, hopen]
    show (j.tokens ++ tokensAfterElement js ++ [Token.arrayClose]).foldlM step
      ⟨.array [] :: stack, .element⟩ = _
    rw [List.foldlM_append, List.foldlM_append,
      hj (.array [] :: stack) .element hlevel (.inr rfl)]
    show ((tokensAfterElement js).foldlM step ⟨.array [j] :: stack, .more⟩).bind
      (List.foldlM step · [Token.arrayClose]) = _
    rw [foldlM_tokensAfterElement hjs hlevel]
    show some (place stack (finished stack (.array (js.reverse ++ [j]).reverse))) = _
    rw [hfinished, List.reverse_append, List.reverse_reverse, List.reverse_singleton,
      List.singleton_append]

theorem builds_object (h : ∀ m ∈ ms, Builds m.2 n) : Builds (.object ms) (n + 1) := by
  intro stack e hdepth he
  have hopen : step ⟨stack, e⟩ .objectOpen = some ⟨.object [] true :: stack, .firstKey⟩ := by
    rcases he with rfl | rfl <;> rfl
  have hfinished := finished_of_lt (show stack.length < maxDepth by omega)
  cases ms with
  | nil =>
    rw [tokens, List.foldlM_cons, hopen]
    show some (place stack (finished stack (.object []))) = _
    rw [hfinished]
  | cons m ms =>
    obtain ⟨hm, hms⟩ := List.forall_mem_cons.1 h
    obtain ⟨k, j⟩ := m
    have hlevel : stack.length + 1 + n ≤ maxDepth := by omega
    rw [tokens, List.foldlM_cons, hopen]
    show (j.tokens ++ tokensAfterMember ms ++ [Token.objectClose]).foldlM step
      ⟨.member [] true (some k) :: stack, .value⟩ = _
    rw [List.foldlM_append, List.foldlM_append,
      hm (.member [] true (some k) :: stack) .value hlevel (.inl rfl)]
    show ((tokensAfterMember ms).foldlM step ⟨.object [(k, j)] true :: stack, .more⟩).bind
      (List.foldlM step · [Token.objectClose]) = _
    rw [foldlM_tokensAfterMember hms hlevel]
    show some (place stack (finished stack (.object (ms.reverse ++ [(k, j)]).reverse))) = _
    rw [hfinished, List.reverse_append, List.reverse_reverse, List.reverse_singleton,
      List.singleton_append]

/-- **The tokens of a value are put together to the value.** -/
theorem builds_of_within (j : Json) (h : j.Within n) : Builds j n := by
  induction j using children_induction generalizing n with
  | step j ih =>
    cases j with
    | null | bool | number | string =>
      rintro stack e - (rfl | rfl) <;> rfl
    | array js =>
      obtain ⟨m, rfl, hjs⟩ := h.of_array
      exact builds_array fun c hc => ih c hc (hjs c hc)
    | object ms =>
      obtain ⟨m, rfl, hms⟩ := h.of_object
      exact builds_object fun p hp => ih p.2 (List.mem_map_of_mem hp) (hms p hp)
    | unreadable => cases h.1

end Builder

/-- **A value within the limits is read back from its text.** -/
theorem Json.read?_write (j : Json) (h : j.Within maxDepth) : read? j.write = some j := by
  have hbuild := Builder.builds_of_within j h [] .value (Nat.le_of_eq (Nat.zero_add _)) (.inl rfl)
  rw [read?, tokenize?_write j h.1, Option.bind_some, ofTokens?, hbuild]
  rfl

end Runspace
