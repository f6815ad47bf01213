/-!
# Bytes — little-endian numbers and chunks

Byte strings are lists of bytes. This module holds the two ways in which the wire uses them: a
number in a fixed count of bytes, least significant first, and a string cut into chunks.

* `leBytes`, `ofLE`: **`ofLE_leBytes`** and **`leBytes_ofLE`** say that either undoes the other;
* `chunks`: **`flatten_chunks`** says that cutting loses nothing.
-/

namespace Runspace

/-- A byte string. -/
abbrev Bytes := List UInt8

/-! ## Little-endian numbers -/

/-- The `k` lowest bytes of a number, least significant first. -/
def leBytes : Nat → Nat → Bytes
  | 0, _ => []
  | k + 1, n => UInt8.ofNat n :: leBytes k (n / 256)

/-- The number whose bytes these are, least significant first. -/
def ofLE : Bytes → Nat
  | [] => 0
  | b :: bs => b.toNat + 256 * ofLE bs

@[simp] theorem length_leBytes (k n : Nat) : (leBytes k n).length = k := by
  induction k generalizing n with
  | zero => rfl
  | succ k ih => simp [leBytes, ih]

/-- **Reading the bytes of a number gives the number,** if it fits. -/
theorem ofLE_leBytes {k n : Nat} (h : n < Nat.pow 256 k) : ofLE (leBytes k n) = n := by
  induction k generalizing n with
  | zero => simp at h; simp [leBytes, ofLE, h]
  | succ k ih =>
    have hq : n / 256 < Nat.pow 256 k := (Nat.div_lt_iff_lt_mul (by decide)).2 h
    simp only [leBytes, ofLE, ih hq, UInt8.toNat_ofNat']
    omega

theorem ofLE_lt (bs : Bytes) : ofLE bs < Nat.pow 256 bs.length := by
  induction bs with
  | nil => simp [ofLE]
  | cons b bs ih =>
    have hb := b.toNat_lt
    have hp : Nat.pow 256 (b :: bs).length = Nat.pow 256 bs.length * 256 := rfl
    rw [hp]
    simp only [ofLE]
    omega

/-- **The bytes of the number of a byte string are that string.** -/
theorem leBytes_ofLE (bs : Bytes) : leBytes bs.length (ofLE bs) = bs := by
  induction bs with
  | nil => rfl
  | cons b bs ih =>
    have hb := b.toNat_lt
    have hq : (b.toNat + 256 * ofLE bs) / 256 = ofLE bs := by omega
    simp only [ofLE, List.length_cons, leBytes, hq, ih, List.cons.injEq, and_true]
    apply UInt8.toNat_inj.1
    simp only [UInt8.toNat_ofNat']
    omega

/-! ## 64-bit numbers -/

theorem ofNat_ofLE_leBytes (x : UInt64) : UInt64.ofNat (ofLE (leBytes 8 x.toNat)) = x := by
  rw [ofLE_leBytes (by simpa using x.toNat_lt), UInt64.ofNat_toNat]

theorem leBytes_ofNat_ofLE {l : Bytes} (h : l.length = 8) :
    leBytes 8 (UInt64.ofNat (ofLE l)).toNat = l := by
  have hlt := ofLE_lt l
  rw [h] at hlt
  have hmod : (UInt64.ofNat (ofLE l)).toNat = ofLE l := by
    rw [UInt64.toNat_ofNat']
    exact Nat.mod_eq_of_lt hlt
  rw [hmod, ← h, leBytes_ofLE]

/-! ## Chunks -/

/-- A list cut into pieces of `k` elements, of which the last may be shorter; a size of zero
counts as one, and the empty list has no pieces. -/
def chunks {α : Type} (k : Nat) (l : List α) : List (List α) :=
  match l with
  | [] => []
  | a :: rest => (a :: rest.take (k - 1)) :: chunks k (rest.drop (k - 1))
termination_by l.length
decreasing_by
  rw [List.length_drop, List.length_cons]
  omega

/-- **The pieces of a list in order are the list.** -/
theorem flatten_chunks {α : Type} (k : Nat) (l : List α) : (chunks k l).flatten = l := by
  fun_induction chunks k l with
  | case1 => rfl
  | case2 a rest ih => simp [ih]

/-- No piece is empty, and none is longer than the size asked for. -/
theorem length_of_mem_chunks {α : Type} {k : Nat} {l p : List α} (h : p ∈ chunks k l) :
    0 < p.length ∧ p.length ≤ max 1 k := by
  fun_induction chunks k l with
  | case1 => simp at h
  | case2 a rest ih =>
    rcases List.mem_cons.1 h with rfl | h
    · rw [List.length_cons, List.length_take]
      omega
    · exact ih h

end Runspace
