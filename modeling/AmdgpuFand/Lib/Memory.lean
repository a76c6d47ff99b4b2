import Mathlib.Algebra.Group.Nat.Defs
import Mathlib.Data.List.Basic
import Mathlib.Data.Nat.Notation

/-!
# Bytes in memory

A pointer is modelled by the bytes of its object from the address on. `load` and `store` are the
two halves of `memcpy`; both are `none` where C leaves the behaviour undefined, that is outside
the object. `leBytes` and `leValue` are the little-endian representation of an unsigned number in
a given number of bytes, and the way back.
-/

namespace Memory

/-! ## Copying -/

/-- The `n` bytes at offset `pos` -/
def load (mem : List UInt8) (pos n : ℕ) : Option (List UInt8) :=
  if pos + n ≤ mem.length then some ((mem.drop pos).take n) else none

/-- Writes `bytes` at offset `pos` -/
def store (mem : List UInt8) (pos : ℕ) (bytes : List UInt8) : Option (List UInt8) :=
  if pos + bytes.length ≤ mem.length then
    some (mem.take pos ++ bytes ++ mem.drop (pos + bytes.length))
  else
    none

/-- Loading what stands between two other stretches of memory. -/
theorem load_append (front bytes rest : List UInt8) :
    load (front ++ bytes ++ rest) front.length bytes.length = some bytes := by
  rw [load, if_pos (by simp only [List.length_append]; omega), List.append_assoc, List.drop_left,
    List.take_left]

/-- Loading from the front of an object. -/
theorem load_zero (bytes rest : List UInt8) : load (bytes ++ rest) 0 bytes.length = some bytes :=
  load_append [] bytes rest

/-- Storing behind what has been written. -/
theorem store_append (front : List UInt8) {rest bytes : List UInt8}
    (h : bytes.length ≤ rest.length) :
    store (front ++ rest) front.length bytes =
      some (front ++ bytes ++ rest.drop bytes.length) := by
  rw [store, if_pos (by simp only [List.length_append]; omega), List.take_left, ← List.drop_drop,
    List.drop_left]

/-- Storing to the front of an object. -/
theorem store_zero {mem bytes : List UInt8} (h : bytes.length ≤ mem.length) :
    store mem 0 bytes = some (bytes ++ mem.drop bytes.length) := by
  have hstore := store_append [] h
  rwa [List.nil_append, List.nil_append, List.length_nil] at hstore

/-- A store touches nothing behind its bytes and keeps the size of the object. -/
theorem store_frame {mem mem' bytes : List UInt8} {pos k : ℕ}
    (h : store mem pos bytes = some mem') (hk : pos + bytes.length ≤ k) :
    mem'.length = mem.length ∧ mem'.drop k = mem.drop k := by
  unfold store at h
  split at h
  case isFalse => cases h
  case isTrue hle =>
    cases h
    have hlen : (mem.take pos ++ bytes).length = pos + bytes.length := by
      simp only [List.length_append, List.length_take]
      omega
    refine ⟨?_, ?_⟩
    · rw [List.length_append, hlen, List.length_drop]
      omega
    · rw [List.drop_append, List.drop_eq_nil_of_le (by omega), List.nil_append, List.drop_drop,
        hlen]
      congr 1
      omega

/-- A load that ends in front of `k` does not depend on the bytes from there on. -/
theorem load_take {mem : List UInt8} {pos n k : ℕ} (hk : pos + n ≤ k) (hle : k ≤ mem.length) :
    load (mem.take k) pos n = load mem pos n := by
  have hlen : (mem.take k).length = k := by rw [List.length_take, Nat.min_eq_left hle]
  rw [load, load, hlen, if_pos hk, if_pos (Nat.le_trans hk hle), List.drop_take, List.take_take,
    Nat.min_eq_left (by omega)]

/-! ## Numbers -/

/-- The low `n` bytes of a number, the lowest first -/
def leBytes : ℕ → ℕ → List UInt8
  | 0, _ => []
  | n + 1, v => UInt8.ofNat v :: leBytes n (v / 256)

/-- The number that bytes stand for -/
def leValue : List UInt8 → ℕ
  | [] => 0
  | b :: bytes => b.toNat + 256 * leValue bytes

@[simp] theorem leBytes_length (n v : ℕ) : (leBytes n v).length = n := by
  induction n generalizing v with
  | zero => rfl
  | succ n ih => rw [leBytes, List.length_cons, ih]

theorem leBytes_one (b : UInt8) : leBytes 1 b.toNat = [b] := by
  rw [leBytes, leBytes, UInt8.ofNat_toNat]

/-- Bytes are those of their number. -/
theorem leBytes_leValue (bytes : List UInt8) : leBytes bytes.length (leValue bytes) = bytes := by
  induction bytes with
  | nil => rfl
  | cons b bytes ih =>
    have hb := b.toNat_lt
    have hlow : UInt8.ofNat (b.toNat + 256 * leValue bytes) = b := by
      rw [← UInt8.toNat_inj, UInt8.toNat_ofNat']
      omega
    have hhigh : (b.toNat + 256 * leValue bytes) / 256 = leValue bytes := by omega
    rw [List.length_cons, leValue, leBytes, hlow, hhigh, ih]

theorem leValue_lt (bytes : List UInt8) : leValue bytes < 256 ^ bytes.length := by
  induction bytes with
  | nil => exact Nat.one_pos
  | cons b bytes ih =>
    have hb := b.toNat_lt
    rw [leValue, List.length_cons, Nat.pow_succ]
    omega

/-- Bytes keep a number up to their width. -/
theorem leValue_leBytes (n v : ℕ) : leValue (leBytes n v) = v % 256 ^ n := by
  induction n generalizing v with
  | zero => simp [leBytes, leValue, Nat.mod_one]
  | succ n ih =>
    rw [leBytes, leValue, ih, Nat.pow_succ, Nat.mul_comm (256 ^ n), Nat.mod_mul]
    simp

/-- The bytes of a number in two parts -/
theorem leBytes_add (m n v : ℕ) : leBytes (m + n) v = leBytes m v ++ leBytes n (v / 256 ^ m) := by
  induction m generalizing v with
  | zero => rw [Nat.zero_add, Nat.pow_zero, Nat.div_one]; rfl
  | succ m ih =>
    rw [Nat.add_right_comm, leBytes, leBytes, ih, List.cons_append, Nat.div_div_eq_div_mul,
      Nat.pow_succ']

/-- The low bytes do not see the high ones. -/
theorem leBytes_mod (n v : ℕ) : leBytes n (v % 256 ^ n) = leBytes n v := by
  have hbytes := leBytes_leValue (leBytes n v)
  rwa [leBytes_length, leValue_leBytes] at hbytes

end Memory
