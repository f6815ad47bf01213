import Mathlib.Data.List.TakeWhile
import Runspace.Proofs.Json.Trees

/-!
# Words — numbers, literals and strings read back

* `Numeral.IsInteger`, **`Numeral.isIntegral_value_iff`**: the numerals that are read as integers;
* **`wordToken?_text`**: an integer is read back from its text;
* **`Lexer.foldlM_quote`**: a string is read back from its spelling.
-/

namespace Runspace

/-! ## Numerals -/

/-- A numeral without fraction and exponent, of an integer that fits 64 bits and is not the zero
with a minus sign. -/
def Numeral.IsInteger (n : Numeral) : Prop :=
  n.fraction = none ∧ n.exponent = none ∧
    if n.negative then 0 < digitsValue n.whole ∧ digitsValue n.whole ≤ 9223372036854775808
    else digitsValue n.whole < integerBound

theorem Numeral.isIntegral_double (n : Numeral) : n.double.isIntegral = false := by
  unfold double
  dsimp only
  split <;> rfl

/-- **Such numerals, and no others, are read as integers.** -/
theorem Numeral.isIntegral_value_iff (n : Numeral) : n.value.isIntegral ↔ n.IsInteger := by
  have hdouble : ¬ n.double.isIntegral := by simp [n.isIntegral_double]
  unfold value IsInteger
  split
  · next hparts =>
    rw [Option.isNone_iff_eq_none, Option.isNone_iff_eq_none] at hparts
    dsimp only
    cases n.negative
    · simp only [Bool.false_eq_true, not_false_eq_true, if_true, if_false, hparts, true_and]
      split
      · next hsize => exact iff_of_true rfl hsize
      · next hsize => exact iff_of_false hdouble hsize
    · simp only [not_true_eq_false, if_true, if_false, hparts, true_and]
      split
      · next hsize => exact iff_of_true rfl hsize
      · next hsize => exact iff_of_false hdouble hsize
  · next hparts =>
    refine iff_of_false hdouble fun h => hparts ?_
    rw [h.1, h.2.1]
    exact ⟨rfl, rfl⟩

/-! ## Digits -/

section Digits

variable {ds : List Char} {n : Nat}

/-- A text of digits only. -/
def AllDigits (ds : List Char) : Prop := ∀ c ∈ ds, c.isDigit

theorem allDigits_toDigits (n : Nat) : AllDigits (Nat.toDigits 10 n) := fun _ hc =>
  Nat.isDigit_of_mem_toDigits (by decide) (by decide) hc

theorem digitsValue_toDigits (n : Nat) : digitsValue (Nat.toDigits 10 n) = n := by
  have hvalue (ds : List Char) : digitsValue ds = Nat.ofDigitChars 10 ds 0 := by
    rw [Nat.ofDigitChars_eq_foldl]
    simp only [digitsValue, digitValue, Nat.mul_comm]
    rfl
  rw [hvalue, Nat.ofDigitChars_ten_toDigits]

theorem head?_toDigits (hn : 0 < n) : (Nat.toDigits 10 n).head? ≠ some '0' := by
  induction n using Nat.strongRecOn with
  | ind n ih =>
    rw [Nat.toDigits_eq_if (by decide)]
    split
    · intro h
      have hzero : n = 0 := Nat.digitChar_eq_zero.1 (Option.some.inj h)
      omega
    · have hrest := ih (n / 10) (by omega) (by omega)
      cases hds : Nat.toDigits 10 (n / 10) with
      | nil => exact absurd hds Nat.toDigits_ne_nil
      | cons c ds => rwa [hds] at hrest

theorem length_toDigits_le (h : (Nat.toDigits 10 n).head? = some '0') :
    (Nat.toDigits 10 n).length ≤ 1 := by
  rcases Nat.eq_zero_or_pos n with rfl | hn
  · rw [Nat.toDigits_zero]
    rfl
  · exact absurd h (head?_toDigits hn)

theorem readDigits?_of_allDigits (h : AllDigits ds) (hne : ds ≠ []) :
    Numeral.readDigits? ds = some (ds, []) := by
  have hall : digitsOf ds = ds := List.takeWhile_eq_self_iff.2 h
  have hnone : afterDigits ds = [] := List.dropWhile_eq_nil_iff.2 h
  rw [Numeral.readDigits?, hall, hnone, if_neg (by simpa using hne)]

theorem read?_of_allDigits (h : AllDigits ds) (hne : ds ≠ [])
    (hzero : ds.head? = some '0' → ds.length ≤ 1) (negative : Bool) :
    Numeral.read? (if negative then '-' :: ds else ds) =
      some { negative, whole := ds, fraction := none, exponent := none } := by
  have hread := readDigits?_of_allDigits h hne
  have hlead : ¬ (1 < ds.length ∧ ds.head? = some '0') := fun hlong =>
    absurd (hzero hlong.2) (Nat.not_le.2 hlong.1)
  unfold Numeral.read?
  split
  next sign rest hsign =>
    have hrest : sign = negative ∧ rest = ds := by
      cases negative with
      | true =>
        cases hsign
        exact ⟨rfl, rfl⟩
      | false =>
        split at hsign
        · next hds =>
          have hminus : '-' ∈ ds := by
            rw [show ds = _ from hds]
            exact List.mem_cons_self ..
          exact absurd (h '-' hminus) (by decide)
        · cases hsign
          exact ⟨rfl, rfl⟩
    rw [hrest.1, hrest.2, hread]
    simp only [Option.bind_eq_bind, Option.bind_some, hlead, if_false]
    rfl

end Digits

/-! ## Words -/

theorem isDigit_of_mem_text {n : Number} (h : (Json.number n).isIntegral) {c : Char}
    (hc : c ∈ n.text) : c.isDigit ∨ c = '-' := by
  cases n with
  | natural n => exact .inl (allDigits_toDigits _ c hc)
  | negative b =>
    rcases List.mem_cons.1 hc with rfl | hc
    · exact .inr rfl
    · exact .inl (allDigits_toDigits _ c hc)
  | double bits => cases h

/-- **An integer is read back from its text.** -/
theorem read?_text {n : Number} (h : (Json.number n).isIntegral) :
    (Numeral.read? n.text).map Numeral.value = some (.number n) := by
  cases n with
  | natural n =>
    have hread := read?_of_allDigits (allDigits_toDigits n.toNat) Nat.toDigits_ne_nil
      length_toDigits_le false
    rw [if_neg (by decide)] at hread
    rw [Number.text, hread]
    have hlt : n.toNat < Numeral.integerBound := n.toNat_lt
    simp [Numeral.value, digitsValue_toDigits, hlt]
  | negative b =>
    have hread := read?_of_allDigits (allDigits_toDigits (b.val + 1)) Nat.toDigits_ne_nil
      length_toDigits_le true
    rw [if_pos rfl] at hread
    rw [Number.text, hread]
    have hle : b.val + 1 ≤ 9223372036854775808 := b.isLt
    simp [Numeral.value, digitsValue_toDigits, hle]
  | double bits => cases h

/-- **The word of an integer.** -/
theorem wordToken?_text {n : Number} (h : (Json.number n).isIntegral) :
    wordToken? n.text = some (.scalar (.number n)) := by
  have hword (w : List Char) (c : Char) (hc : c ∈ w) (hd : ¬ (c.isDigit ∨ c = '-')) :
      n.text ≠ w := fun hw => hd (isDigit_of_mem_text h (hw ▸ hc))
  rw [wordToken?, if_neg (hword _ 'n' (by decide) (by decide)),
    if_neg (hword _ 't' (by decide) (by decide)), if_neg (hword _ 'f' (by decide) (by decide))]
  obtain ⟨m, hm, hvalue⟩ := Option.map_eq_some_iff.1 (read?_text h)
  rw [hm, Option.map_some, hvalue]

namespace Lexer

theorem start_of_isWordChar {c : Char} (h : isWordChar c) (ts : List Token) :
    start ts c = some ⟨.word [c], ts⟩ := by
  have hne (d : Char) (hd : isWordChar d = false) : c ≠ d := fun hcd => by
    rw [hcd, hd] at h
    cases h
  unfold start
  simp only [hne ' ' rfl, hne '\n' rfl, hne '\t' rfl, hne '\r' rfl, hne '[' rfl, hne ']' rfl,
    hne '\x7b' rfl, hne '\x7d' rfl, hne ',' rfl, hne ':' rfl, hne '"' rfl, or_self, if_false, h,
    if_true]

theorem foldlM_word (w v : List Char) (hw : ∀ c ∈ w, isWordChar c) (ts : List Token) :
    w.foldlM step ⟨.word v, ts⟩ = some ⟨.word (w.reverse ++ v), ts⟩ := by
  induction w generalizing v with
  | nil => rfl
  | cons c w ih =>
    obtain ⟨hc, hw⟩ := List.forall_mem_cons.1 hw
    rw [List.foldlM_cons, step]
    simp only [hc, if_true]
    exact (ih (c :: v) hw).trans (by simp)

end Lexer

/-! ## Strings -/

theorem TextSoFar.pushUnit_of_lt (t : TextSoFar) {u : Nat} (h : u < 0xD800) :
    t.pushUnit u = t.push (Char.ofNat u) := by
  rw [pushUnit, if_neg (by omega), if_neg (by omega)]

namespace Lexer

theorem step_unit (t : TextSoFar) (missing value : Nat) (d : Fin 16) (ts : List Token) :
    step ⟨.unit t missing value, ts⟩ (hexDigit d) = some (if missing ≤ 1
      then ⟨.text (t.pushUnit (value * 16 + d.val)), ts⟩
      else ⟨.unit t (missing - 1) (value * 16 + d.val), ts⟩) := by
  rw [step, hexValue?_hexDigit]
  rfl

theorem foldlM_unit (t : TextSoFar) (a b c d : Fin 16) (ts : List Token) :
    [hexDigit a, hexDigit b, hexDigit c, hexDigit d].foldlM step ⟨.unit t 4 0, ts⟩ =
      some ⟨.text (t.pushUnit (((a.val * 16 + b.val) * 16 + c.val) * 16 + d.val)), ts⟩ := by
  simp [step_unit]

/-- **A character is read back from its spelling in a string.** -/
theorem foldlM_escapeChar (chars : List Char) (c : Char) (ts : List Token) :
    (escapeChar c).foldlM step ⟨.text ⟨chars, none, false⟩, ts⟩ =
      some ⟨.text ⟨c :: chars, none, false⟩, ts⟩ := by
  unfold escapeChar
  split
  · next hc => subst hc; rfl
  split
  · next hc => subst hc; rfl
  split
  · next hc => subst hc; rfl
  split
  · next hc => subst hc; rfl
  split
  · next hc => subst hc; rfl
  split
  · next hc => subst hc; rfl
  split
  · next hc => subst hc; rfl
  split
  · next hlt =>
    have hvalue : ((0 * 16 + 0) * 16 + c.toNat / 16 % 16) * 16 + c.toNat % 16 = c.toNat := by omega
    have hunit := foldlM_unit ⟨chars, none, false⟩ 0 0 (Fin.ofNat 16 (c.toNat / 16))
      (Fin.ofNat 16 c.toNat) ts
    refine hunit.trans ?_
    rw [Fin.val_ofNat, Fin.val_ofNat, Fin.val_zero, hvalue, TextSoFar.pushUnit_of_lt _ (by omega),
      Char.ofNat_toNat]
    rfl
  · next hquote hslash _ _ _ _ _ hlt =>
    rw [List.foldlM_cons, step]
    simp only [hquote, hslash, hlt, if_false]
    rfl

theorem foldlM_escape (chars cs : List Char) (ts : List Token) :
    (cs.flatMap escapeChar).foldlM step ⟨.text ⟨chars, none, false⟩, ts⟩ =
      some ⟨.text ⟨cs.reverse ++ chars, none, false⟩, ts⟩ := by
  induction cs generalizing chars with
  | nil => rfl
  | cons c cs ih =>
    rw [List.flatMap_cons, List.foldlM_append, foldlM_escapeChar]
    exact (ih (c :: chars)).trans (by simp)

/-- **A string is read back from its spelling.** -/
theorem foldlM_quote (s : String) (ts : List Token) :
    (quote s).foldlM step ⟨.between, ts⟩ = some ⟨.between, .text (some s) :: ts⟩ := by
  rw [quote, List.cons_append, List.foldlM_cons]
  show (s.toList.flatMap escapeChar ++ ['"']).foldlM step ⟨.text ⟨[], none, false⟩, ts⟩ = _
  rw [List.foldlM_append, foldlM_escape]
  simp [step, TextSoFar.close]

/-! ## Tokens -/

/-- Some tokens have been read, last one first; the last may be a word that has not ended. -/
def Has (l : Lexer) (ts : List Token) : Prop :=
  l = ⟨.between, ts⟩ ∨
    ∃ w t rest, l = ⟨.word w, rest⟩ ∧ wordToken? w.reverse = some t ∧ ts = t :: rest

/-- Between two tokens, the spelling of some tokens is read as those tokens. -/
def Reads (new : List Token) : Prop :=
  ∀ ts, ∃ l, (new.flatMap Token.spell).foldlM step ⟨.between, ts⟩ = some l ∧
    l.Has (new.reverse ++ ts)

/-- Wherever a word may end, the spelling of some tokens is read as those tokens. -/
def ReadsOn (new : List Token) : Prop :=
  ∀ l ts, l.Has ts → ∃ l', (new.flatMap Token.spell).foldlM step l = some l' ∧
    l'.Has (new.reverse ++ ts)

section Reads

variable {l : Lexer} {t : Token} {ts a b : List Token}

theorem Has.finish (h : l.Has ts) : l.finish = some ts.reverse := by
  rcases h with rfl | ⟨w, t, rest, rfl, hw, rfl⟩
  · rfl
  · rw [Lexer.finish]
    simp only [hw, Option.map_some]

theorem Has.step_eq (h : l.Has ts) {c : Char} (hc : isWordChar c = false) :
    l.step c = start ts c := by
  rcases h with rfl | ⟨w, t, rest, rfl, hw, rfl⟩
  · rfl
  · rw [step]
    simp only [hc, Bool.false_eq_true, if_false, hw, Option.bind_some]

theorem readsOn_nil : ReadsOn [] := fun l _ h => ⟨l, rfl, h⟩

theorem ReadsOn.reads (h : ReadsOn a) : Reads a := fun ts => h _ ts (.inl rfl)

theorem Reads.append (ha : Reads a) (hb : ReadsOn b) : Reads (a ++ b) := fun ts => by
  obtain ⟨l, hl, hhas⟩ := ha ts
  obtain ⟨l', hl', hhas'⟩ := hb l _ hhas
  refine ⟨l', ?_, by rwa [List.reverse_append, List.append_assoc]⟩
  rw [List.flatMap_append, List.foldlM_append, hl]
  exact hl'

/-- A token that is one character, which ends a word. -/
def IsMark (t : Token) : Prop :=
  ∃ c, t.spell = [c] ∧ isWordChar c = false ∧ ∀ ts, start ts c = some ⟨.between, t :: ts⟩

theorem IsMark.readsOn (ht : IsMark t) (h : Reads a) : ReadsOn (t :: a) := fun l ts hl => by
  obtain ⟨c, hspell, hc, hstart⟩ := ht
  obtain ⟨l', hl', hhas⟩ := h (t :: ts)
  refine ⟨l', ?_, by rwa [List.reverse_cons, List.append_assoc]⟩
  rw [List.flatMap_cons, hspell, List.singleton_append, List.foldlM_cons, hl.step_eq hc, hstart]
  exact hl'

theorem isMark_arrayOpen : IsMark .arrayOpen := ⟨'[', rfl, rfl, fun _ => rfl⟩

theorem isMark_arrayClose : IsMark .arrayClose := ⟨']', rfl, rfl, fun _ => rfl⟩

theorem isMark_objectOpen : IsMark .objectOpen := ⟨'\x7b', rfl, rfl, fun _ => rfl⟩

theorem isMark_objectClose : IsMark .objectClose := ⟨'\x7d', rfl, rfl, fun _ => rfl⟩

theorem isMark_comma : IsMark .comma := ⟨',', rfl, rfl, fun _ => rfl⟩

theorem isMark_colon : IsMark .colon := ⟨':', rfl, rfl, fun _ => rfl⟩

theorem reads_text (s : String) : Reads [.text (some s)] := fun ts =>
  ⟨⟨.between, .text (some s) :: ts⟩, by rw [List.flatMap_singleton, Token.spell, foldlM_quote],
    .inl rfl⟩

theorem reads_word (hne : t.spell ≠ []) (hw : ∀ c ∈ t.spell, isWordChar c)
    (ht : wordToken? t.spell = some t) : Reads [t] := fun ts => by
  rw [List.flatMap_singleton]
  cases hspell : t.spell with
  | nil => exact absurd hspell hne
  | cons c w =>
    rw [hspell] at hw ht
    obtain ⟨hc, hw⟩ := List.forall_mem_cons.1 hw
    refine ⟨⟨.word (w.reverse ++ [c]), ts⟩, ?_, .inr ⟨_, t, ts, rfl, ?_, rfl⟩⟩
    · rw [List.foldlM_cons]
      show (start ts c).bind (w.foldlM step) = _
      rw [start_of_isWordChar hc, Option.bind_some, foldlM_word w [c] hw]
    · simpa using ht

theorem reads_number {n : Number} (h : (Json.number n).isIntegral) :
    Reads [.scalar (.number n)] := by
  refine reads_word ?_ (fun c hc => ?_) (wordToken?_text h)
  · cases n with
    | natural n => exact Nat.toDigits_ne_nil
    | negative b => exact List.cons_ne_nil _ _
    | double bits => cases h
  · rcases isDigit_of_mem_text h hc with hd | rfl
    · simp [isWordChar, Char.isAlphanum, hd]
    · rfl

variable {js : List Json} {ms : List (String × Json)}

theorem readsOn_tokensAfterElement (h : ∀ j ∈ js, Reads j.tokens) :
    ReadsOn (Json.tokensAfterElement js) := by
  induction js with
  | nil => exact readsOn_nil
  | cons j js ih =>
    obtain ⟨hj, hjs⟩ := List.forall_mem_cons.1 h
    exact isMark_comma.readsOn (hj.append (ih hjs))

theorem reads_member (k : String) (ha : Reads a) (hb : ReadsOn b) :
    Reads (.text (some k) :: .colon :: (a ++ b)) :=
  (reads_text k).append (isMark_colon.readsOn (ha.append hb))

theorem readsOn_tokensAfterMember (h : ∀ m ∈ ms, Reads m.2.tokens) :
    ReadsOn (Json.tokensAfterMember ms) := by
  induction ms with
  | nil => exact readsOn_nil
  | cons m ms ih =>
    obtain ⟨hm, hms⟩ := List.forall_mem_cons.1 h
    exact isMark_comma.readsOn (reads_member m.1 hm (ih hms))

end Reads

/-- **The spelling of a value's tokens is read as those tokens.** -/
theorem reads_tokens (j : Json) (h : j.isIntegral) : Reads j.tokens := by
  induction j using Json.children_induction with
  | step j ih =>
    cases j with
    | null => exact reads_word (by decide) (List.all_eq_true.1 rfl) rfl
    | bool b => cases b <;> exact reads_word (by decide) (List.all_eq_true.1 rfl) rfl
    | number n => exact reads_number h
    | string s => exact reads_text s
    | array js =>
      have hread (c : Json) (hc : c ∈ js) := ih c hc (Json.isIntegral_array.1 h c hc)
      have hclose := isMark_arrayClose.readsOn readsOn_nil.reads
      cases js with
      | nil => exact (isMark_arrayOpen.readsOn hclose.reads).reads
      | cons j js =>
        obtain ⟨hj, hjs⟩ := List.forall_mem_cons.1 hread
        exact (isMark_arrayOpen.readsOn
          ((hj.append (readsOn_tokensAfterElement hjs)).append hclose)).reads
    | object ms =>
      have hread (m : String × Json) (hm : m ∈ ms) :=
        ih m.2 (List.mem_map_of_mem hm) (Json.isIntegral_object.1 h m hm)
      have hclose := isMark_objectClose.readsOn readsOn_nil.reads
      cases ms with
      | nil => exact (isMark_objectOpen.readsOn hclose.reads).reads
      | cons m ms =>
        obtain ⟨hm, hms⟩ := List.forall_mem_cons.1 hread
        exact (isMark_objectOpen.readsOn
          ((reads_member m.1 hm (readsOn_tokensAfterMember hms)).append hclose)).reads
    | unreadable => cases h

end Lexer

/-- **The text of a value is read as its tokens.** -/
theorem tokenize?_write (j : Json) (h : j.isIntegral) : tokenize? j.write = some j.tokens := by
  obtain ⟨l, hl, hhas⟩ := Lexer.reads_tokens j h []
  rw [tokenize?, Json.write, hl, Option.bind_some, hhas.finish, List.append_nil,
    List.reverse_reverse]

end Runspace
