import Mathlib.Tactic
import AmdgpuFand.Lib.Memory

/-!
# SHA-1

The hash function of FIPS 180-4, on messages that are made of bytes. A message is padded to a
whole number of blocks of 64 bytes. A block is read as 16 big-endian words, which are expanded to
a schedule of 80, and 80 rounds mix the schedule into a hash value of five words. `hashValue`
numbers the intermediate hash values as the standard does.
-/

namespace Fips180

/-! ## Words -/

/-- `ROTL` -/
def rotl (n x : UInt32) : UInt32 := (x <<< n) ||| (x >>> (32 - n))

/-- The word that bytes stand for, the highest first -/
def bigEndian (bytes : List UInt8) : UInt32 := UInt32.ofNat (Memory.leValue bytes.reverse)

/-- The low `n` bytes of a number, the highest first -/
def bigEndianBytes (n v : ℕ) : List UInt8 := (Memory.leBytes n v).reverse

/-! ## Compression -/

/-- The five words of a hash value, which are also the working variables of the rounds -/
@[ext]
structure HashValue where
  a : UInt32
  b : UInt32
  c : UInt32
  d : UInt32
  e : UInt32
  deriving DecidableEq, Repr

/-- The initial hash value -/
def initial : HashValue := ⟨0x67452301, 0xefcdab89, 0x98badcfe, 0x10325476, 0xc3d2e1f0⟩

/-- The functions `Ch`, `Parity`, `Maj` and `Parity` of the rounds -/
def f (t : ℕ) (x y z : UInt32) : UInt32 :=
  if t < 20 then (x &&& y) ^^^ (~~~x &&& z)
  else if t < 40 then x ^^^ y ^^^ z
  else if t < 60 then (x &&& y) ^^^ (x &&& z) ^^^ (y &&& z)
  else x ^^^ y ^^^ z

/-- The constants of the rounds -/
def k (t : ℕ) : UInt32 :=
  if t < 20 then 0x5a827999
  else if t < 40 then 0x6ed9eba1
  else if t < 60 then 0x8f1bbcdc
  else 0xca62c1d6

/-- The words of a block -/
def word (block : List UInt8) (t : ℕ) : UInt32 := bigEndian ((block.drop (4 * t)).take 4)

/-- The first `16 + n` words of the message schedule -/
def scheduleList (block : List UInt8) : ℕ → List UInt32
  | 0 => (List.range 16).map (word block)
  | n + 1 =>
    let w := scheduleList block n
    w ++ [rotl 1 (w.getD (n + 13) 0 ^^^ w.getD (n + 8) 0 ^^^ w.getD (n + 2) 0 ^^^ w.getD n 0)]

/-- The message schedule `W` -/
def schedule (block : List UInt8) (t : ℕ) : UInt32 := (scheduleList block 64).getD t 0

/-- One round -/
def round (w : ℕ → UInt32) (s : HashValue) (t : ℕ) : HashValue :=
  ⟨rotl 5 s.a + f t s.b s.c s.d + s.e + k t + w t, s.a, rotl 30 s.b, s.c, s.d⟩

/-- The rounds before round `n` -/
def rounds (w : ℕ → UInt32) (s : HashValue) (n : ℕ) : HashValue :=
  (List.range n).foldl (round w) s

/-- The hash value behind a block -/
def compress (s : HashValue) (block : List UInt8) : HashValue :=
  let t := rounds (schedule block) s 80
  ⟨t.a + s.a, t.b + s.b, t.c + s.c, t.d + s.d, t.e + s.e⟩

/-! ## Messages -/

/-- The number of zeros between the byte `0x80` and the length -/
def zeros (length : ℕ) : ℕ := (119 - length % 64) % 64

/-- The padded message -/
def pad (message : List UInt8) : List UInt8 :=
  message ++ [0x80] ++ List.replicate (zeros message.length) 0 ++
    bigEndianBytes 8 (8 * message.length)

/-- Block `i` of a message -/
def block (message : List UInt8) (i : ℕ) : List UInt8 := (message.drop (64 * i)).take 64

/-- The hash value behind the first `i` blocks -/
def hashValue (message : List UInt8) : ℕ → HashValue
  | 0 => initial
  | i + 1 => compress (hashValue message i) (block message i)

/-- The bytes of a hash value -/
def HashValue.bytes (s : HashValue) : List UInt8 :=
  [s.a, s.b, s.c, s.d, s.e].flatMap fun x => bigEndianBytes 4 x.toNat

/-- The digest of a message -/
def sha1 (message : List UInt8) : List UInt8 :=
  (hashValue (pad message) ((pad message).length / 64)).bytes

/-! ## The schedule -/

theorem scheduleList_length (block : List UInt8) (n : ℕ) :
    (scheduleList block n).length = 16 + n := by
  induction n with
  | zero => simp [scheduleList]
  | succ n ih => rw [scheduleList, List.length_append, ih, List.length_singleton]; rfl

/-- Later words do not change earlier ones. -/
theorem scheduleList_getD {block : List UInt8} {n m t : ℕ} (hnm : n ≤ m) (ht : t < 16 + n) :
    (scheduleList block m).getD t 0 = (scheduleList block n).getD t 0 := by
  induction m, hnm using Nat.le_induction with
  | base => rfl
  | succ m hle ih =>
    have hlt : t < (scheduleList block m).length := by rw [scheduleList_length]; omega
    rw [scheduleList, List.getD_eq_getElem?_getD, List.getElem?_append_left hlt,
      ← List.getD_eq_getElem?_getD, ih]

/-- The first words are those of the block. -/
theorem schedule_of_lt (block : List UInt8) {t : ℕ} (ht : t < 16) :
    schedule block t = word block t := by
  rw [schedule, scheduleList_getD (Nat.zero_le 64) (by omega), scheduleList,
    List.getD_eq_getElem?_getD, List.getElem?_map, List.getElem?_range ht]
  rfl

/-- The other words are made of earlier ones. -/
theorem schedule_add (block : List UInt8) {n : ℕ} (hn : n < 64) :
    schedule block (n + 16) = rotl 1 (schedule block (n + 13) ^^^ schedule block (n + 8) ^^^
      schedule block (n + 2) ^^^ schedule block n) := by
  have hlen := scheduleList_length block n
  have hw : ∀ t, t < n + 16 → schedule block t = (scheduleList block n).getD t 0 :=
    fun t ht => scheduleList_getD (by omega) (by omega)
  rw [hw (n + 13) (by omega), hw (n + 8) (by omega), hw (n + 2) (by omega), hw n (by omega),
    schedule, scheduleList_getD (show n + 1 ≤ 64 from hn) (by omega), scheduleList,
    List.getD_eq_getElem?_getD, List.getElem?_append_right (by omega), hlen,
    show n + 16 - (16 + n) = 0 by omega]
  rfl

theorem rounds_succ (w : ℕ → UInt32) (s : HashValue) (n : ℕ) :
    rounds w s (n + 1) = round w (rounds w s n) n := by
  rw [rounds, List.range_succ, List.foldl_append]
  rfl

/-! ## Blocks -/

/-- A block does not depend on what stands behind it. -/
theorem block_append {front : List UInt8} {i : ℕ} (rest : List UInt8)
    (h : 64 * (i + 1) ≤ front.length) : block (front ++ rest) i = block front i := by
  have hdrop : 64 ≤ (front.drop (64 * i)).length := by rw [List.length_drop]; omega
  rw [block, block, List.drop_append_of_le_length (by omega), List.take_append_of_le_length hdrop]

/-- A block behind the front of a message -/
theorem block_append_right {front : List UInt8} {i j : ℕ} (rest : List UInt8)
    (h : front.length + j = 64 * i) : block (front ++ rest) i = (rest.drop j).take 64 := by
  rw [block, ← h, ← List.drop_drop, List.drop_left]

theorem hashValue_append {front : List UInt8} {i : ℕ} (rest : List UInt8)
    (h : 64 * i ≤ front.length) : hashValue (front ++ rest) i = hashValue front i := by
  induction i with
  | zero => rfl
  | succ i ih => rw [hashValue, hashValue, ih (by omega), block_append rest h]

theorem bigEndianBytes_length (n v : ℕ) : (bigEndianBytes n v).length = n := by
  rw [bigEndianBytes, List.length_reverse, Memory.leBytes_length]

/-- A number of eight bytes in two words -/
theorem bigEndianBytes_eight (v : ℕ) :
    bigEndianBytes 8 v =
      bigEndianBytes 4 (v / 2 ^ 32 % 2 ^ 32) ++ bigEndianBytes 4 (v % 2 ^ 32) := by
  have hhigh := Memory.leBytes_mod 4 (v / 2 ^ 32)
  have hlow := Memory.leBytes_mod 4 v
  have hsplit := Memory.leBytes_add 4 4 v
  norm_num at hhigh hlow hsplit ⊢
  rw [bigEndianBytes, bigEndianBytes, bigEndianBytes, hsplit, hhigh, hlow, List.reverse_append]

theorem sha1_length (message : List UInt8) : (sha1 message).length = 20 := by
  simp only [sha1, HashValue.bytes, List.flatMap_cons, List.flatMap_nil, List.length_append,
    bigEndianBytes_length, List.length_nil]

end Fips180
