import Runspace.Proofs.Json.Trees

/-!
# Nesting — what is read is not nested too deeply

A text may nest arrays and objects as deeply as it likes, but what is nested beyond the limit is
unreadable. So what is read and readable is within the limit.

* `Builder.Roomy`, **`Builder.shallow_step`**: what is unfinished leaves room for what is around it;
* **`Json.depth_of_read?`**.
-/

namespace Runspace

/-- What every step keeps holds at the end. -/
theorem foldlM_invariant {σ α : Type} {f : σ → α → Option σ} {P : σ → Prop} {as : List α}
    (hstep : ∀ s, ∀ a ∈ as, ∀ s', P s → f s a = some s' → P s') {s s' : σ} (hs : P s)
    (h : as.foldlM f s = some s') : P s' := by
  induction as generalizing s with
  | nil =>
    cases h
    exact hs
  | cons a as ih =>
    rw [List.foldlM_cons, Option.bind_eq_bind, Option.bind_eq_some_iff] at h
    obtain ⟨t, ht, hrest⟩ := h
    exact ih (fun s b hb => hstep s b (List.mem_cons_of_mem a hb))
      (hstep s a (List.mem_cons_self ..) t hs ht) hrest

/-- A token that holds no array or object. -/
def Token.IsFlat : Token → Prop
  | .scalar j => j.depth = 0
  | _ => True

theorem Numeral.depth_value (n : Numeral) : n.value.depth = 0 := by
  have hdouble : n.double.depth = 0 := by
    unfold double
    dsimp only
    split <;> rfl
  unfold value
  dsimp only
  repeat' split
  all_goals first | exact hdouble | rfl

theorem isFlat_of_wordToken? {w : List Char} {t : Token} (h : wordToken? w = some t) :
    t.IsFlat := by
  unfold wordToken? at h
  split at h
  · cases h
    rfl
  split at h
  · cases h
    rfl
  split at h
  · cases h
    rfl
  · obtain ⟨n, -, rfl⟩ := Option.map_eq_some_iff.1 h
    exact n.depth_value

theorem Lexer.isFlat_start {ts : List Token} {c : Char} {l : Lexer} (h : start ts c = some l)
    (hts : ∀ t ∈ ts, t.IsFlat) : ∀ t ∈ l.tokens, t.IsFlat := by
  unfold start at h
  repeat' split at h
  all_goals cases h
  all_goals first | exact hts | exact List.forall_mem_cons.2 ⟨trivial, hts⟩

theorem Lexer.isFlat_step {l l' : Lexer} {c : Char} (h : l.step c = some l')
    (hl : ∀ t ∈ l.tokens, t.IsFlat) : ∀ t ∈ l'.tokens, t.IsFlat := by
  unfold step at h
  split at h
  · exact isFlat_start h hl
  · split at h
    · cases h
      exact hl
    · obtain ⟨t, ht, hstart⟩ := Option.bind_eq_some_iff.1 h
      exact isFlat_start hstart (List.forall_mem_cons.2 ⟨isFlat_of_wordToken? ht, hl⟩)
  · repeat' split at h
    all_goals cases h
    all_goals first | exact hl | exact List.forall_mem_cons.2 ⟨trivial, hl⟩
  · split at h
    · cases h
      exact hl
    · obtain ⟨e, -, rfl⟩ := Option.map_eq_some_iff.1 h
      exact hl
  · obtain ⟨d, -, rfl⟩ := Option.map_eq_some_iff.1 h
    split <;> exact hl

theorem isFlat_of_tokenize? {cs : List Char} {ts : List Token} (h : tokenize? cs = some ts) :
    ∀ t ∈ ts, t.IsFlat := by
  obtain ⟨l, hl, hfinish⟩ := Option.bind_eq_some_iff.1 h
  have hflat : ∀ t ∈ l.tokens, t.IsFlat :=
    foldlM_invariant (fun _ _ _ _ hs hstep => Lexer.isFlat_step hstep hs) (fun _ ht => by cases ht) hl
  unfold Lexer.finish at hfinish
  split at hfinish
  · cases hfinish
    exact fun t ht => hflat t (List.mem_reverse.1 ht)
  · obtain ⟨t, ht, rfl⟩ := Option.map_eq_some_iff.1 hfinish
    intro t' ht'
    rcases List.mem_cons.1 (List.mem_reverse.1 ht') with rfl | ht'
    · exact isFlat_of_wordToken? ht
    · exact hflat t' ht'
  · cases hfinish

namespace Builder

open Json

/-- The values that an unfinished array or object holds. -/
def values : Frame → List Json
  | .array js => js
  | .object ms _ => ms.map (·.2)
  | .member ms _ _ => ms.map (·.2)

/-- The readable values in what is unfinished leave room for what is around them. -/
def Roomy : List Frame → Prop
  | [] => True
  | f :: rest => Roomy rest ∧ (rest.length < maxDepth →
      ∀ j ∈ values f, j.isReadable → j.depth + rest.length + 1 ≤ maxDepth)

/-- What has been said is not nested too deeply, and what is unfinished cannot become so. -/
structure Shallow (b : Builder) : Prop where
  roomy : Roomy b.stack
  done : ∀ j, b.expect = .done j → j.isReadable → j.depth ≤ maxDepth

variable {stack rest : List Frame} {b b' : Builder} {t : Token} {j : Json}

theorem Roomy.cons {f : Frame} (h : Roomy rest) (hf : ∀ j ∈ values f, j.isReadable →
    rest.length < maxDepth → j.depth + rest.length + 1 ≤ maxDepth) : Roomy (f :: rest) :=
  ⟨h, fun hlt j hj hr => hf j hj hr hlt⟩

theorem Roomy.of_values {f g : Frame} (h : Roomy (f :: rest)) (hg : values g = values f) :
    Roomy (g :: rest) := ⟨h.1, by rw [hg]; exact h.2⟩

theorem shallow_of_roomy {e : Expect} (h : Roomy stack) (he : ∀ j, e ≠ .done j) :
    Shallow ⟨stack, e⟩ := ⟨h, fun j hj => absurd hj (he j)⟩

theorem Roomy.push {f g : Frame} (h : Roomy (f :: rest)) (hg : values g = j :: values f)
    (hj : rest.length + 1 ≤ maxDepth → j.isReadable → j.depth + (rest.length + 1) ≤ maxDepth) :
    Roomy (g :: rest) := by
  refine ⟨h.1, fun hlt c hc hr => ?_⟩
  rw [hg] at hc
  rcases List.mem_cons.1 hc with rfl | hc
  · exact hj hlt hr
  · exact h.2 hlt c hc hr

theorem shallow_place (hstack : Roomy stack)
    (hj : stack.length ≤ maxDepth → j.isReadable → j.depth + stack.length ≤ maxDepth) :
    Shallow (place stack j) := by
  unfold place
  split
  · exact shallow_of_roomy (hstack.push rfl hj) (by simp)
  · exact shallow_of_roomy (hstack.push rfl hj) (by simp)
  · exact shallow_of_roomy (hstack.of_values rfl) (by simp)
  · exact shallow_of_roomy hstack (by simp)
  · refine ⟨hstack, fun j' hdone hr => ?_⟩
    cases hdone
    exact hj (Nat.zero_le _) hr

theorem depth_finished (h : rest.length < maxDepth → j.isReadable →
    j.depth + rest.length ≤ maxDepth) (hr : (finished rest j).isReadable) :
    (finished rest j).depth + rest.length ≤ maxDepth := by
  unfold finished at hr ⊢
  split at hr
  · cases hr
  · next hlt =>
    rw [if_neg hlt]
    exact h (Nat.lt_of_not_le hlt) hr

theorem shallow_closeArray (hstack : Roomy stack) (h : closeArray stack = some b) :
    b.Shallow := by
  unfold closeArray at h
  split at h
  · next js rest =>
    cases h
    refine shallow_place hstack.1 fun _ hr => depth_finished (fun hlt hread => ?_) hr
    obtain ⟨n, hn⟩ := Nat.exists_eq_add_of_lt hlt
    have hdepth : (array js.reverse).depth ≤ n + 1 := depth_array_le.2 fun c hc => by
      have := hstack.2 hlt c (List.mem_reverse.1 hc) (isReadable_array.1 hread c hc)
      omega
    omega
  · cases h

theorem shallow_closeObject (hstack : Roomy stack) (h : closeObject stack = some b) :
    b.Shallow := by
  unfold closeObject at h
  split at h
  · next ms readable rest =>
    cases h
    refine shallow_place hstack.1 fun _ hr => depth_finished (fun hlt hread => ?_) hr
    cases readable with
    | false => cases hread
    | true =>
      obtain ⟨n, hn⟩ := Nat.exists_eq_add_of_lt hlt
      have hdepth : (object ms.reverse).depth ≤ n + 1 := depth_object_le.2 fun m hm => by
        have := hstack.2 hlt m.2 (List.mem_map_of_mem (List.mem_reverse.1 hm))
          (isReadable_object.1 hread m hm)
        omega
      rw [if_pos rfl]
      omega
  · cases h

theorem shallow_openValue (hstack : Roomy stack) (ht : t.IsFlat) (h : openValue stack t = some b) :
    b.Shallow := by
  have hflat {j : Json} (hj : j.depth = 0) : Shallow (place stack j) :=
    shallow_place hstack fun hlen _ => by omega
  unfold openValue at h
  split at h
  · cases h
    exact hflat ht
  · cases h
    exact hflat rfl
  · cases h
    exact hflat rfl
  · cases h
    exact shallow_of_roomy (hstack.cons fun j hj => by cases hj) (by simp)
  · cases h
    exact shallow_of_roomy (hstack.cons fun j hj => by cases hj) (by simp)
  · cases h

theorem shallow_openMember (hstack : Roomy stack) (h : openMember stack t = some b) :
    b.Shallow := by
  unfold openMember at h
  split at h
  · cases h
    exact shallow_of_roomy (hstack.of_values rfl) (by simp)
  · cases h

theorem shallow_step (hb : b.Shallow) (ht : t.IsFlat) (h : step b t = some b') : b'.Shallow := by
  obtain ⟨hstack, -⟩ := hb
  unfold step at h
  split at h
  · exact shallow_openValue hstack ht h
  · exact shallow_closeArray hstack h
  · exact shallow_openValue hstack ht h
  · exact shallow_closeObject hstack h
  · exact shallow_openMember hstack h
  · exact shallow_openMember hstack h
  · cases h
    exact shallow_of_roomy hstack (by simp)
  · exact shallow_closeArray hstack h
  · exact shallow_closeObject hstack h
  · split at h
    · next hs =>
      cases h
      rw [hs] at hstack
      exact shallow_of_roomy hstack (by simp)
    · next hs =>
      cases h
      rw [hs] at hstack
      exact shallow_of_roomy hstack (by simp)
    · cases h
  · cases h

end Builder

/-- **What is read is within the limit of nesting, or unreadable.** -/
theorem Json.depth_of_read? {cs : List Char} {j : Json} (h : read? cs = some j)
    (hj : j.isReadable) : j.depth ≤ maxDepth := by
  obtain ⟨ts, hts, hof⟩ := Option.bind_eq_some_iff.1 h
  obtain ⟨b, hb, hresult⟩ := Option.bind_eq_some_iff.1 hof
  have hflat := isFlat_of_tokenize? hts
  have hshallow : b.Shallow :=
    foldlM_invariant (fun _ t ht _ hs hstep => Builder.shallow_step hs (hflat t ht) hstep)
      (Builder.shallow_of_roomy (show Builder.Roomy [] from trivial) (by simp)) hb
  refine hshallow.done j ?_ hj
  unfold Builder.result? at hresult
  split at hresult
  · next hdone =>
    cases hresult
    exact hdone
  · cases hresult

end Runspace
