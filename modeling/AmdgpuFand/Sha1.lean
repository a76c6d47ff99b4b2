import AmdgpuFand.Lib.Sha1

/-!
# SHA-1

The model of `sha1.c`. The context holds the hash value, the length of the message in bits
over two words, and a buffer with the bytes that do not fill a block yet. `sha1_update` takes
more bytes in, and `sha1_final` pads by calling it once for each byte of the padding. The 80
rounds of `sha1_transform` are written out in the source; instead of moving the five variables
on, each call names them in another order, and the schedule lives in the 16 words of the block.

A loop takes fuel and is `none` when that runs out; so is what C leaves undefined.
`sha1_correct` says that with enough fuel the digest is the one of the standard, and
`sha1Update_append` that it does not matter in which chunks a message is taken in.
-/

namespace AmdgpuFand

/-- `SHA1_BLOCKSIZE` -/
def sha1Blocksize : ℕ := 64

/-- `SHA1_DIGESTSIZE` -/
def sha1Digestsize : ℕ := 20

/-- `sha1_ctx` -/
structure Sha1Ctx where
  h0 : UInt32
  h1 : UInt32
  h2 : UInt32
  h3 : UInt32
  h4 : UInt32
  /-- the low half of the length in bits -/
  n0 : UInt32
  /-- the high half -/
  n1 : UInt32
  buffer : List UInt8
  size : buffer.length = sha1Blocksize

/-! ## One block -/

/-- The byte order of the host -/
inductive ByteOrder where
  | little
  | big
  deriving DecidableEq, Repr

/-- A word in memory -/
def ByteOrder.load : ByteOrder → List UInt8 → UInt32
  | little, bytes => UInt32.ofNat (Memory.leValue bytes)
  | big, bytes => UInt32.ofNat (Memory.leValue bytes.reverse)

/-- `htonl` -/
def ByteOrder.htonl : ByteOrder → UInt32 → UInt32
  | little, x => UInt32.ofNat (Memory.leValue (Memory.leBytes 4 x.toNat).reverse)
  | big, x => x

/-- `union sha1_block`, as words -/
abbrev Sha1Block := Vector UInt32 16

/-- `rol` -/
def rol (value bits : UInt32) : UInt32 := (value >>> (32 - bits)) ||| (value <<< bits)

/-- `expand`: the word, and the block that it is stored in. The index `n & 0xf` is `n` as a
number modulo 16. -/
def expand (block : Sha1Block) (i : ℕ) : UInt32 × Sha1Block :=
  let at_ (n : ℕ) : UInt32 := block[Fin.ofNat 16 n]
  let x := rol (at_ (i + 0xd) ^^^ at_ (i + 0x8) ^^^ at_ (i + 0x2) ^^^ at_ (i + 0x0)) 1
  (x, block.set (Fin.ofNat 16 i) x)

/-- `block->as_dwords[i] = htonl(block->as_dwords[i])` -/
def convert (order : ByteOrder) (block : Sha1Block) (i : ℕ) : UInt32 × Sha1Block :=
  let x := order.htonl block[Fin.ofNat 16 i]
  (x, block.set (Fin.ofNat 16 i) x)

/-- What `r0` to `r4` have in common: the block, and what becomes of `*w` and `*z`. -/
def sha1Round (f k : UInt32) (fetched : UInt32 × Sha1Block) (v w z : UInt32) :
    Sha1Block × UInt32 × UInt32 :=
  (fetched.2, rol w 30, z + (f + fetched.1 + k + rol v 5))

section Rounds

variable (order : ByteOrder) (block : Sha1Block) (v w x y z : UInt32) (i : ℕ)

/-- `r0` -/
def r0 : Sha1Block × UInt32 × UInt32 :=
  sha1Round ((w &&& (x ^^^ y)) ^^^ y) 0x5a827999 (convert order block i) v w z

/-- `r1` -/
def r1 : Sha1Block × UInt32 × UInt32 :=
  sha1Round ((w &&& (x ^^^ y)) ^^^ y) 0x5a827999 (expand block i) v w z

/-- `r2` -/
def r2 : Sha1Block × UInt32 × UInt32 :=
  sha1Round (w ^^^ x ^^^ y) 0x6ed9eba1 (expand block i) v w z

/-- `r3` -/
def r3 : Sha1Block × UInt32 × UInt32 :=
  sha1Round (((w ||| x) &&& y) ||| (w &&& x)) 0x8f1bbcdc (expand block i) v w z

/-- `r4` -/
def r4 : Sha1Block × UInt32 × UInt32 :=
  sha1Round (w ^^^ x ^^^ y) 0xca62c1d6 (expand block i) v w z

end Rounds

/-- The names of the rounds -/
inductive RoundName where
  | r0
  | r1
  | r2
  | r3
  | r4
  deriving DecidableEq, Repr

/-- The function behind a name -/
def RoundName.call (order : ByteOrder) (block : Sha1Block) (v w x y z : UInt32) (i : ℕ) :
    RoundName → Sha1Block × UInt32 × UInt32
  | r0 => AmdgpuFand.r0 order block v w x y z i
  | r1 => AmdgpuFand.r1 block v w x y z i
  | r2 => AmdgpuFand.r2 block v w x y z i
  | r3 => AmdgpuFand.r3 block v w x y z i
  | r4 => AmdgpuFand.r4 block v w x y z i

/-- A call in `sha1_transform`: `r(&block, hv, &hw, hx, hy, &hz, i)` -/
structure RoundCall where
  r : RoundName
  v : Fin 5
  w : Fin 5
  x : Fin 5
  y : Fin 5
  z : Fin 5
  i : ℕ
  deriving DecidableEq, Repr

/-- The calls of `sha1_transform` -/
def sha1Calls : List RoundCall := [
    ⟨.r0, 0, 1, 2, 3, 4, 0⟩, ⟨.r0, 4, 0, 1, 2, 3, 1⟩, ⟨.r0, 3, 4, 0, 1, 2, 2⟩, ⟨.r0, 2, 3, 4, 0, 1, 3⟩,
    ⟨.r0, 1, 2, 3, 4, 0, 4⟩, ⟨.r0, 0, 1, 2, 3, 4, 5⟩, ⟨.r0, 4, 0, 1, 2, 3, 6⟩, ⟨.r0, 3, 4, 0, 1, 2, 7⟩,
    ⟨.r0, 2, 3, 4, 0, 1, 8⟩, ⟨.r0, 1, 2, 3, 4, 0, 9⟩, ⟨.r0, 0, 1, 2, 3, 4, 10⟩, ⟨.r0, 4, 0, 1, 2, 3, 11⟩,
    ⟨.r0, 3, 4, 0, 1, 2, 12⟩, ⟨.r0, 2, 3, 4, 0, 1, 13⟩, ⟨.r0, 1, 2, 3, 4, 0, 14⟩, ⟨.r0, 0, 1, 2, 3, 4, 15⟩,
    ⟨.r1, 4, 0, 1, 2, 3, 16⟩, ⟨.r1, 3, 4, 0, 1, 2, 17⟩, ⟨.r1, 2, 3, 4, 0, 1, 18⟩, ⟨.r1, 1, 2, 3, 4, 0, 19⟩,
    ⟨.r2, 0, 1, 2, 3, 4, 20⟩, ⟨.r2, 4, 0, 1, 2, 3, 21⟩, ⟨.r2, 3, 4, 0, 1, 2, 22⟩, ⟨.r2, 2, 3, 4, 0, 1, 23⟩,
    ⟨.r2, 1, 2, 3, 4, 0, 24⟩, ⟨.r2, 0, 1, 2, 3, 4, 25⟩, ⟨.r2, 4, 0, 1, 2, 3, 26⟩, ⟨.r2, 3, 4, 0, 1, 2, 27⟩,
    ⟨.r2, 2, 3, 4, 0, 1, 28⟩, ⟨.r2, 1, 2, 3, 4, 0, 29⟩, ⟨.r2, 0, 1, 2, 3, 4, 30⟩, ⟨.r2, 4, 0, 1, 2, 3, 31⟩,
    ⟨.r2, 3, 4, 0, 1, 2, 32⟩, ⟨.r2, 2, 3, 4, 0, 1, 33⟩, ⟨.r2, 1, 2, 3, 4, 0, 34⟩, ⟨.r2, 0, 1, 2, 3, 4, 35⟩,
    ⟨.r2, 4, 0, 1, 2, 3, 36⟩, ⟨.r2, 3, 4, 0, 1, 2, 37⟩, ⟨.r2, 2, 3, 4, 0, 1, 38⟩, ⟨.r2, 1, 2, 3, 4, 0, 39⟩,
    ⟨.r3, 0, 1, 2, 3, 4, 40⟩, ⟨.r3, 4, 0, 1, 2, 3, 41⟩, ⟨.r3, 3, 4, 0, 1, 2, 42⟩, ⟨.r3, 2, 3, 4, 0, 1, 43⟩,
    ⟨.r3, 1, 2, 3, 4, 0, 44⟩, ⟨.r3, 0, 1, 2, 3, 4, 45⟩, ⟨.r3, 4, 0, 1, 2, 3, 46⟩, ⟨.r3, 3, 4, 0, 1, 2, 47⟩,
    ⟨.r3, 2, 3, 4, 0, 1, 48⟩, ⟨.r3, 1, 2, 3, 4, 0, 49⟩, ⟨.r3, 0, 1, 2, 3, 4, 50⟩, ⟨.r3, 4, 0, 1, 2, 3, 51⟩,
    ⟨.r3, 3, 4, 0, 1, 2, 52⟩, ⟨.r3, 2, 3, 4, 0, 1, 53⟩, ⟨.r3, 1, 2, 3, 4, 0, 54⟩, ⟨.r3, 0, 1, 2, 3, 4, 55⟩,
    ⟨.r3, 4, 0, 1, 2, 3, 56⟩, ⟨.r3, 3, 4, 0, 1, 2, 57⟩, ⟨.r3, 2, 3, 4, 0, 1, 58⟩, ⟨.r3, 1, 2, 3, 4, 0, 59⟩,
    ⟨.r4, 0, 1, 2, 3, 4, 60⟩, ⟨.r4, 4, 0, 1, 2, 3, 61⟩, ⟨.r4, 3, 4, 0, 1, 2, 62⟩, ⟨.r4, 2, 3, 4, 0, 1, 63⟩,
    ⟨.r4, 1, 2, 3, 4, 0, 64⟩, ⟨.r4, 0, 1, 2, 3, 4, 65⟩, ⟨.r4, 4, 0, 1, 2, 3, 66⟩, ⟨.r4, 3, 4, 0, 1, 2, 67⟩,
    ⟨.r4, 2, 3, 4, 0, 1, 68⟩, ⟨.r4, 1, 2, 3, 4, 0, 69⟩, ⟨.r4, 0, 1, 2, 3, 4, 70⟩, ⟨.r4, 4, 0, 1, 2, 3, 71⟩,
    ⟨.r4, 3, 4, 0, 1, 2, 72⟩, ⟨.r4, 2, 3, 4, 0, 1, 73⟩, ⟨.r4, 1, 2, 3, 4, 0, 74⟩, ⟨.r4, 0, 1, 2, 3, 4, 75⟩,
    ⟨.r4, 4, 0, 1, 2, 3, 76⟩, ⟨.r4, 3, 4, 0, 1, 2, 77⟩, ⟨.r4, 2, 3, 4, 0, 1, 78⟩, ⟨.r4, 1, 2, 3, 4, 0, 79⟩]

/-- The local variables of `sha1_transform` -/
structure Sha1Locals where
  h : Vector UInt32 5
  block : Sha1Block

/-- A call in its place -/
def RoundCall.run (order : ByteOrder) (s : Sha1Locals) (c : RoundCall) : Sha1Locals :=
  let (block, hw, hz) :=
    RoundName.call order s.block s.h[c.v] s.h[c.w] s.h[c.x] s.h[c.y] s.h[c.z] c.i c.r
  ⟨(s.h.set c.w hw).set c.z hz, block⟩

/-- `memcpy(block.as_bytes, buffer, sizeof(block))` -/
def Sha1Block.ofBytes (order : ByteOrder) (buffer : List UInt8) : Sha1Block :=
  Vector.ofFn fun t => order.load ((buffer.drop (4 * t.val)).take 4)

/-- `sha1_transform`, on the 64 bytes at `buffer` -/
def sha1Transform (order : ByteOrder) (ctx : Sha1Ctx) (buffer : List UInt8) : Sha1Ctx :=
  let s := sha1Calls.foldl (RoundCall.run order)
    ⟨#v[ctx.h0, ctx.h1, ctx.h2, ctx.h3, ctx.h4], Sha1Block.ofBytes order buffer⟩
  { ctx with
    h0 := ctx.h0 + s.h[0]
    h1 := ctx.h1 + s.h[1]
    h2 := ctx.h2 + s.h[2]
    h3 := ctx.h3 + s.h[3]
    h4 := ctx.h4 + s.h[4] }

/-! ## The rounds -/

/-- `htonl` gives the big-endian reading of a word in memory. -/
theorem ByteOrder.htonl_load (order : ByteOrder) {bytes : List UInt8} (h : bytes.length = 4) :
    order.htonl (order.load bytes) = Fips180.bigEndian bytes := by
  cases order with
  | little =>
    have hlt := Memory.leValue_lt bytes
    rw [h] at hlt
    have hbytes : Memory.leBytes 4 (Memory.leValue bytes) = bytes := by
      rw [← h]
      exact Memory.leBytes_leValue bytes
    have hval : (UInt32.ofNat (Memory.leValue bytes)).toNat = Memory.leValue bytes :=
      UInt32.toNat_ofNat_of_lt' hlt
    rw [ByteOrder.load, ByteOrder.htonl, hval, hbytes]
    rfl
  | big => rfl

theorem rol_eq (x n : UInt32) : rol x n = Fips180.rotl n x := by
  rw [rol, Fips180.rotl, UInt32.or_comm]

/-- The sum of a round, in the order of the standard -/
theorem sha1Round_eq (f k word v w z : UInt32) (block : Sha1Block) :
    sha1Round f k (word, block) v w z =
      (block, Fips180.rotl 30 w, Fips180.rotl 5 v + f + z + k + word) := by
  have hsum : z + (f + word + k + Fips180.rotl 5 v) = Fips180.rotl 5 v + f + z + k + word := by
    ac_rfl
  rw [sha1Round, rol_eq, rol_eq, hsum]

/-- The choice between `x` and `y`, as the source and as the standard write it -/
theorem choice_eq (w x y : UInt32) :
    (w &&& (x ^^^ y)) ^^^ y = (w &&& x) ^^^ (~~~w &&& y) := by
  rw [← UInt32.toBitVec_inj]
  ext i hi
  simp only [UInt32.toBitVec_xor, UInt32.toBitVec_and, UInt32.toBitVec_not, BitVec.getElem_xor,
    BitVec.getElem_and, BitVec.getElem_not]
  cases w.toBitVec[i] <;> cases x.toBitVec[i] <;> cases y.toBitVec[i] <;> rfl

/-- The majority, as the source and as the standard write it -/
theorem majority_eq (w x y : UInt32) :
    ((w ||| x) &&& y) ||| (w &&& x) = (w &&& x) ^^^ (w &&& y) ^^^ (x &&& y) := by
  rw [← UInt32.toBitVec_inj]
  ext i hi
  simp only [UInt32.toBitVec_xor, UInt32.toBitVec_and, UInt32.toBitVec_or, BitVec.getElem_xor,
    BitVec.getElem_and, BitVec.getElem_or]
  cases w.toBitVec[i] <;> cases x.toBitVec[i] <;> cases y.toBitVec[i] <;> rfl

/-- The name that round `t` calls -/
def roundName (t : ℕ) : RoundName :=
  if t < 16 then .r0 else if t < 20 then .r1 else if t < 40 then .r2 else if t < 60 then .r3
  else .r4

/-- The variable that holds `a` in round `t` -/
def roundShift (t : ℕ) : Fin 5 := Fin.ofNat 5 (4 * t)

/-- The calls follow a pattern: each names the variables one place further on. -/
theorem sha1Calls_eq :
    sha1Calls = (List.range 80).map fun t =>
      ⟨roundName t, roundShift t, roundShift t + 1, roundShift t + 2, roundShift t + 3,
        roundShift t + 4, t⟩ := by
  decide

theorem roundShift_succ (t : ℕ) : roundShift (t + 1) = roundShift t + 4 := by
  apply Fin.ext
  simp only [roundShift, Fin.ofNat, Fin.val_add]
  omega

section Block

variable (order : ByteOrder) (buffer : List UInt8)

/-- The block in front of round `t`: the last 16 words of the schedule, and the words of the
buffer that have not been looked at. -/
structure BlockAt (t : ℕ) (block : Sha1Block) : Prop where
  schedule : ∀ i, i < t → t ≤ i + 16 → block[Fin.ofNat 16 i] = Fips180.schedule buffer i
  raw : ∀ i, i < 16 → t ≤ i →
    block[Fin.ofNat 16 i] = order.load ((buffer.drop (4 * i)).take 4)

theorem blockAt_zero : BlockAt order buffer 0 (Sha1Block.ofBytes order buffer) := by
  refine ⟨fun i hi _ => absurd hi (Nat.not_lt_zero i), fun i hi _ => ?_⟩
  simp [Sha1Block.ofBytes, Nat.mod_eq_of_lt hi]

variable {order buffer} {t : ℕ} {block : Sha1Block}

/-- The word of a round takes the place of the oldest one. -/
theorem BlockAt.set (h : BlockAt order buffer t block) :
    BlockAt order buffer (t + 1) (block.set (Fin.ofNat 16 t) (Fips180.schedule buffer t)) := by
  have hget : ∀ i, (block.set (Fin.ofNat 16 t) (Fips180.schedule buffer t))[Fin.ofNat 16 i] =
      if t % 16 = i % 16 then Fips180.schedule buffer t else block[Fin.ofNat 16 i] := by
    intro i
    simp only [Fin.getElem_fin, Fin.ofNat, Vector.getElem_set]
  refine ⟨fun i hi hle => ?_, fun i hi hle => ?_⟩
  · rw [hget]
    by_cases heq : i = t
    · rw [heq, if_pos rfl]
    · rw [if_neg (by omega), h.schedule i (by omega) (by omega)]
  · rw [hget, if_neg (by omega), h.raw i hi (by omega)]

/-- In the first 16 rounds the word comes from the buffer. -/
theorem BlockAt.convert (h : BlockAt order buffer t block) (hbuffer : buffer.length = 64)
    (ht : t < 16) :
    convert order block t = (Fips180.schedule buffer t,
      block.set (Fin.ofNat 16 t) (Fips180.schedule buffer t)) := by
  have hlen : ((buffer.drop (4 * t)).take 4).length = 4 := by
    rw [List.length_take, List.length_drop]
    omega
  have hword : order.htonl block[Fin.ofNat 16 t] = Fips180.schedule buffer t := by
    rw [h.raw t ht (Nat.le_refl t), order.htonl_load hlen, Fips180.schedule_of_lt buffer ht]
    rfl
  rw [AmdgpuFand.convert, hword]

/-- In the others it is made of four of the last 16 words. -/
theorem BlockAt.expand (h : BlockAt order buffer t block) (hle : 16 ≤ t) (ht : t < 80) :
    expand block t = (Fips180.schedule buffer t,
      block.set (Fin.ofNat 16 t) (Fips180.schedule buffer t)) := by
  obtain ⟨n, rfl⟩ := Nat.exists_eq_add_of_le' hle
  -- the indices go round, so that `t + 13` is where `t - 3` is
  have hat : ∀ d, d < 16 → block[Fin.ofNat 16 (n + 16 + d)] = Fips180.schedule buffer (n + d) := by
    intro d hd
    have hmod : Fin.ofNat 16 (n + 16 + d) = Fin.ofNat 16 (n + d) := by
      apply Fin.ext
      simp only [Fin.ofNat]
      omega
    exact (congrArg (fun k : Fin 16 => block[k]) hmod).trans
      (h.schedule (n + d) (by omega) (by omega))
  have hword : rol (block[Fin.ofNat 16 (n + 16 + 0xd)] ^^^ block[Fin.ofNat 16 (n + 16 + 0x8)] ^^^
      block[Fin.ofNat 16 (n + 16 + 0x2)] ^^^ block[Fin.ofNat 16 (n + 16 + 0x0)]) 1 =
      Fips180.schedule buffer (n + 16) := by
    rw [hat 0xd (by decide), hat 0x8 (by decide), hat 0x2 (by decide), hat 0x0 (by decide),
      rol_eq, Fips180.schedule_add buffer (by omega)]
    rfl
  simp only [AmdgpuFand.expand, hword]

/-- A call in round `t`: it mixes in a word of the schedule. -/
theorem BlockAt.call (h : BlockAt order buffer t block) (hbuffer : buffer.length = 64)
    (ht : t < 80) (v w x y z : UInt32) :
    RoundName.call order block v w x y z t (roundName t) =
      (block.set (Fin.ofNat 16 t) (Fips180.schedule buffer t), Fips180.rotl 30 w,
        Fips180.rotl 5 v + Fips180.f t w x y + z + Fips180.k t + Fips180.schedule buffer t) := by
  by_cases h16 : t < 16
  · simp only [roundName, if_pos h16, RoundName.call, r0, h.convert hbuffer h16, sha1Round_eq,
      choice_eq, Fips180.f, Fips180.k, if_pos (show t < 20 by omega)]
  · have hexpand := h.expand (Nat.le_of_not_lt h16) ht
    simp only [roundName, if_neg h16]
    by_cases h20 : t < 20
    · simp only [if_pos h20, RoundName.call, r1, hexpand, sha1Round_eq, choice_eq, Fips180.f,
        Fips180.k]
    · by_cases h40 : t < 40
      · simp only [if_neg h20, if_pos h40, RoundName.call, r2, hexpand, sha1Round_eq, Fips180.f,
          Fips180.k]
      · by_cases h60 : t < 60
        · simp only [if_neg h20, if_neg h40, if_pos h60, RoundName.call, r3, hexpand, sha1Round_eq,
            majority_eq, Fips180.f, Fips180.k]
        · simp only [if_neg h20, if_neg h40, if_neg h60, RoundName.call, r4, hexpand, sha1Round_eq,
            Fips180.f, Fips180.k]

end Block

/-- The variables hold the working variables of the standard, from `v` on. -/
structure VarsAt (v : Fin 5) (s : Fips180.HashValue) (h : Vector UInt32 5) : Prop where
  a : h[v] = s.a
  b : h[v + 1] = s.b
  c : h[v + 2] = s.c
  d : h[v + 3] = s.d
  e : h[v + 4] = s.e

/-- A round writes two variables; the new `a` is where `e` was. -/
theorem VarsAt.round {v : Fin 5} {s : Fips180.HashValue} {h : Vector UInt32 5}
    (hv : VarsAt v s h) (x y : UInt32) :
    VarsAt (v + 4) ⟨y, s.a, x, s.c, s.d⟩ ((h.set (v + 1 : Fin 5) x).set (v + 4 : Fin 5) y) := by
  obtain ⟨ha, hb, hc, hd, he⟩ := hv
  fin_cases v <;> refine ⟨?_, ?_, ?_, ?_, ?_⟩ <;> simp_all

/-- The calls before round `t` follow the rounds of the standard. -/
theorem sha1Calls_rounds (order : ByteOrder) {buffer : List UInt8} (hbuffer : buffer.length = 64)
    (s : Fips180.HashValue) {t : ℕ} (ht : t ≤ 80) :
    let l := (sha1Calls.take t).foldl (RoundCall.run order)
      ⟨#v[s.a, s.b, s.c, s.d, s.e], Sha1Block.ofBytes order buffer⟩
    VarsAt (roundShift t) (Fips180.rounds (Fips180.schedule buffer) s t) l.h ∧
      BlockAt order buffer t l.block := by
  induction t with
  | zero => exact ⟨⟨rfl, rfl, rfl, rfl, rfl⟩, blockAt_zero order buffer⟩
  | succ t ih =>
    obtain ⟨hvars, hblock⟩ := ih (by omega)
    have hlast : sha1Calls.take (t + 1) = sha1Calls.take t ++ [⟨roundName t, roundShift t,
        roundShift t + 1, roundShift t + 2, roundShift t + 3, roundShift t + 4, t⟩] := by
      rw [sha1Calls_eq, ← List.map_take, ← List.map_take, List.take_range, List.take_range,
        Nat.min_eq_left ht, Nat.min_eq_left (by omega), List.range_succ, List.map_append]
      rfl
    rw [hlast, List.foldl_append, roundShift_succ, Fips180.rounds_succ]
    generalize (sha1Calls.take t).foldl _ _ = l at hvars hblock
    have hcall := hblock.call hbuffer ht l.h[roundShift t] l.h[roundShift t + 1]
      l.h[roundShift t + 2] l.h[roundShift t + 3] l.h[roundShift t + 4]
    have hround := hvars.round (Fips180.rotl 30 l.h[roundShift t + 1])
      (Fips180.rotl 5 l.h[roundShift t] + Fips180.f t l.h[roundShift t + 1] l.h[roundShift t + 2]
        l.h[roundShift t + 3] + l.h[roundShift t + 4] + Fips180.k t + Fips180.schedule buffer t)
    simp only [List.foldl_cons, List.foldl_nil, RoundCall.run, hcall]
    refine ⟨?_, hblock.set⟩
    rw [hvars.a, hvars.b, hvars.c, hvars.d, hvars.e] at hround ⊢
    exact hround

/-- The hash value in a context -/
def Sha1Ctx.hash (ctx : Sha1Ctx) : Fips180.HashValue := ⟨ctx.h0, ctx.h1, ctx.h2, ctx.h3, ctx.h4⟩

/-- `sha1_transform` compresses one block. -/
theorem sha1Transform_hash (order : ByteOrder) (ctx : Sha1Ctx) {buffer : List UInt8}
    (h : buffer.length = 64) :
    (sha1Transform order ctx buffer).hash = Fips180.compress ctx.hash buffer := by
  have hvars := (sha1Calls_rounds order h ctx.hash (Nat.le_refl 80)).1
  rw [show sha1Calls.take 80 = sha1Calls from rfl] at hvars
  simp only [sha1Transform, Fips180.compress, Sha1Ctx.hash] at hvars ⊢
  generalize sha1Calls.foldl _ _ = l at hvars ⊢
  obtain ⟨ha, hb, hc, hd, he⟩ := hvars
  rw [← ha, ← hb, ← hc, ← hd, ← he]
  simp only [UInt32.add_comm]
  rfl

section Transform

variable (order : ByteOrder) (ctx : Sha1Ctx) (buffer : List UInt8)

@[simp]
theorem sha1Transform_n0 : (sha1Transform order ctx buffer).n0 = ctx.n0 := by
  rw [sha1Transform]

@[simp]
theorem sha1Transform_n1 : (sha1Transform order ctx buffer).n1 = ctx.n1 := by
  rw [sha1Transform]

/-- The context with another hash value -/
def Sha1Ctx.withHash (s : Fips180.HashValue) : Sha1Ctx :=
  { ctx with h0 := s.a, h1 := s.b, h2 := s.c, h3 := s.d, h4 := s.e }

/-- The local variables behind the first `t` calls -/
def sha1LocalsAt (t : ℕ) : Sha1Locals :=
  (sha1Calls.take t).foldl (RoundCall.run order)
    ⟨#v[ctx.h0, ctx.h1, ctx.h2, ctx.h3, ctx.h4], Sha1Block.ofBytes order buffer⟩

end Transform

/-- **`sha1_transform` refines the compression function.** In front of each round the five
variables, read from the place that the round begins at, are the working variables of the standard,
and the block holds the last 16 words of the schedule; behind the last round the hash value in the
context is the compressed one, and nothing else in the context has changed. -/
theorem sha1Transform_refines (order : ByteOrder) (ctx : Sha1Ctx) (block : Vector UInt8 64) :
    (∀ t ≤ 80,
      VarsAt (roundShift t) (Fips180.rounds (Fips180.schedule block.toList) ctx.hash t)
          (sha1LocalsAt order ctx block.toList t).h ∧
        BlockAt order block.toList t (sha1LocalsAt order ctx block.toList t).block) ∧
      sha1Transform order ctx block.toList =
        ctx.withHash (Fips180.compress ctx.hash block.toList) := by
  have hlen : block.toList.length = 64 := Vector.length_toList
  refine ⟨fun t ht => sha1Calls_rounds order hlen ctx.hash ht, ?_⟩
  calc sha1Transform order ctx block.toList
      = ctx.withHash (sha1Transform order ctx block.toList).hash := rfl
    _ = ctx.withHash (Fips180.compress ctx.hash block.toList) := by
        rw [sha1Transform_hash order ctx hlen]

/-! ## Messages -/

/-- `sha1_init` -/
def sha1Init (ctx : Sha1Ctx) : Sha1Ctx :=
  { ctx with
    h0 := 0x67452301
    h1 := 0xefcdab89
    h2 := 0x98badcfe
    h3 := 0x10325476
    h4 := 0xc3d2e1f0
    n0 := 0
    n1 := 0 }

/-- `memcpy(&ctx->buffer[i], bytes, sizeof(bytes))` -/
def Sha1Ctx.copy (ctx : Sha1Ctx) (i : ℕ) (bytes : List UInt8) : Option Sha1Ctx :=
  match h : Memory.store ctx.buffer i bytes with
  | none => none
  | some buffer => some { ctx with
      buffer := buffer
      size := (Memory.store_frame h (Nat.le_refl _)).1.trans ctx.size }

/-- The loop of `sha1_update`: the context, and `j` -/
def sha1UpdateLoop (order : ByteOrder) (data : List UInt8) (length : UInt32) :
    ℕ → Sha1Ctx → UInt32 → Option (Sha1Ctx × UInt32)
  | 0, _, _ => none
  | fuel + 1, ctx, j =>
    if j + 64 - 1 < length then do
      let block ← Memory.load data j.toNat sha1Blocksize
      sha1UpdateLoop order data length fuel (sha1Transform order ctx block) (j + 64)
    else some (ctx, j)

/-- The counters in `sha1_update` -/
def Sha1Ctx.count (ctx : Sha1Ctx) (length : UInt32) : Sha1Ctx :=
  let nbits := length <<< 3
  let n0 := ctx.n0 + nbits
  -- the addition wrapped
  let n1 := if n0 < ctx.n0 then ctx.n1 + 1 else ctx.n1
  { ctx with n0 := n0, n1 := n1 + (length >>> 29) }

/-- `sha1_update` -/
def sha1Update (order : ByteOrder) (fuel : ℕ) (ctx : Sha1Ctx) (data : List UInt8)
    (length : UInt32) : Option Sha1Ctx := do
  let i := (ctx.n0 >>> 3) &&& 0x3f
  let ctx := ctx.count length
  if i + length < 64 then
    ctx.copy i.toNat (← Memory.load data 0 length.toNat)
  else
    let j := 64 - i
    let ctx ← ctx.copy i.toNat (← Memory.load data 0 j.toNat)
    let ctx := sha1Transform order ctx ctx.buffer
    let (ctx, j) ← sha1UpdateLoop order data length fuel ctx j
    ctx.copy 0 (← Memory.load data j.toNat (length - j).toNat)

/-- `sha1_compute_final` -/
def sha1ComputeFinal (n i : UInt32) : UInt8 :=
  ((n >>> ((3 - (i &&& 3)) <<< 3)) &&& 0xff).toUInt8

/-- `sha1_compute_digest_byte` -/
def sha1ComputeDigestByte (ctx : Sha1Ctx) (i : UInt32) : UInt8 :=
  let table := [ctx.h0, ctx.h1, ctx.h2, ctx.h3, ctx.h4]
  ((table.getD (i >>> 2).toNat 0 >>> ((3 - (i &&& 3)) <<< 3)) &&& 0xff).toUInt8

/-- The loop of `sha1_final` that pads with zeros -/
def sha1PadLoop (order : ByteOrder) : ℕ → Sha1Ctx → Option Sha1Ctx
  | 0, _ => none
  | fuel + 1, ctx =>
    if ctx.n0 &&& 0x1f8 ≠ 0x1c0 then do
      sha1PadLoop order fuel (← sha1Update order (fuel + 1) ctx [0x0] 1)
    else some ctx

/-- `sha1_final`: the context and the digest -/
def sha1Final (order : ByteOrder) (fuel : ℕ) (ctx : Sha1Ctx) : Option (Sha1Ctx × List UInt8) := do
  let final := [0, 1, 2, 3].map (sha1ComputeFinal ctx.n1) ++
    [4, 5, 6, 7].map (sha1ComputeFinal ctx.n0)
  let ctx ← sha1Update order fuel ctx [0x80] 1
  let ctx ← sha1PadLoop order fuel ctx
  let ctx ← sha1Update order fuel ctx final 8
  some (ctx, (List.range sha1Digestsize).map fun i => sha1ComputeDigestByte ctx (UInt32.ofNat i))

/-- The digest of a message that is taken in at once, with the context that `sha1_init`
found. -/
def sha1Digest (order : ByteOrder) (fuel : ℕ) (ctx : Sha1Ctx) (message : List UInt8) :
    Option (List UInt8) := do
  let ctx ← sha1Update order fuel (sha1Init ctx) message (UInt32.ofNat message.length)
  let (_, digest) ← sha1Final order fuel ctx
  some digest

/-! ## Taking bytes in -/

/-- The context has taken in a message: all its whole blocks are in the hash value, the rest
is at the front of the buffer, and the two counters hold its length. -/
structure Absorbed (ctx : Sha1Ctx) (message : List UInt8) : Prop where
  hash : ctx.hash = Fips180.hashValue message (message.length / 64)
  rest : ctx.buffer.take (message.length % 64) = message.drop (64 * (message.length / 64))
  n0 : ctx.n0.toNat = 8 * message.length % 2 ^ 32
  n1 : ctx.n1.toNat = 8 * message.length / 2 ^ 32 % 2 ^ 32

theorem absorbed_init (ctx : Sha1Ctx) : Absorbed (sha1Init ctx) [] :=
  ⟨rfl, rfl, rfl, rfl⟩

/-- A copy that fits the buffer changes nothing else. -/
theorem Sha1Ctx.copy_eq (ctx : Sha1Ctx) (i : ℕ) (bytes : List UInt8) (h : i + bytes.length ≤ 64) :
    ∃ ctx', ctx.copy i bytes = some ctx' ∧ ctx'.hash = ctx.hash ∧ ctx'.n0 = ctx.n0 ∧
      ctx'.n1 = ctx.n1 ∧ ctx'.buffer =
        ctx.buffer.take i ++ bytes ++ ctx.buffer.drop (i + bytes.length) := by
  have hstore : Memory.store ctx.buffer i bytes =
      some (ctx.buffer.take i ++ bytes ++ ctx.buffer.drop (i + bytes.length)) := by
    rw [Memory.store, if_pos (by rw [ctx.size]; exact h)]
  unfold Sha1Ctx.copy
  split
  · next hnone =>
    rw [hnone] at hstore
    cases hstore
  · next buffer hsome =>
    rw [hsome] at hstore
    cases hstore
    exact ⟨_, rfl, rfl, rfl, rfl, rfl⟩

/-- The loop of `sha1_update` compresses the blocks that are left, and stops in front of the
first that is not whole. Here `done` is what has been taken in when the loop begins, and `j`
how much of the data that includes. -/
theorem sha1UpdateLoop_eq (order : ByteOrder) {message data : List UInt8} {fuel : ℕ}
    {ctx : Sha1Ctx} {j : UInt32} {n : ℕ} (hlen : data.length + 64 ≤ 2 ^ 32)
    (hn : message.length + j.toNat = 64 * n) (hj : j.toNat ≤ data.length)
    (hhash : ctx.hash = Fips180.hashValue (message ++ data) n)
    (hfuel : (data.length - j.toNat) / 64 < fuel) :
    ∃ ctx' j', sha1UpdateLoop order data (UInt32.ofNat data.length) fuel ctx j = some (ctx', j') ∧
      message.length + j'.toNat = 64 * ((message.length + data.length) / 64) ∧
      ctx'.hash = Fips180.hashValue (message ++ data) ((message.length + data.length) / 64) ∧
      ctx'.n0 = ctx.n0 ∧ ctx'.n1 = ctx.n1 := by
  induction fuel generalizing ctx j n with
  | zero => omega
  | succ fuel ih =>
    have hlt : (UInt32.ofNat data.length).toNat = data.length :=
      UInt32.toNat_ofNat_of_lt' (show data.length < 2 ^ 32 by omega)
    have htest : j + 64 - 1 < UInt32.ofNat data.length ↔ j.toNat + 63 < data.length := by
      -- at the largest length `j + 64` may wrap, and the subtraction takes it back
      have hsum : j + 64 - 1 = j + 63 := by
        rw [UInt32.sub_eq_add_neg, UInt32.add_assoc]
        rfl
      rw [hsum, UInt32.lt_iff_toNat_lt, hlt, UInt32.toNat_add]
      change (j.toNat + 63) % 2 ^ 32 < _ ↔ _
      omega
    rw [sha1UpdateLoop]
    by_cases hmore : j.toNat + 63 < data.length
    · rw [if_pos (htest.mpr hmore)]
      have hload : Memory.load data j.toNat sha1Blocksize =
          some (Fips180.block (message ++ data) n) := by
        rw [sha1Blocksize, Memory.load, if_pos (by omega), Fips180.block_append_right data hn]
      have hblock : (Fips180.block (message ++ data) n).length = 64 := by
        rw [Fips180.block_append_right data hn, List.length_take, List.length_drop]
        omega
      have hnext : (j + 64).toNat = j.toNat + 64 := by
        rw [UInt32.toNat_add]
        exact Nat.mod_eq_of_lt (show j.toNat + 64 < 2 ^ 32 by omega)
      obtain ⟨ctx', j', hloop, hj', hhash', hn0, hn1⟩ :=
        @ih (sha1Transform order ctx (Fips180.block (message ++ data) n)) (j + 64) (n + 1)
          (by rw [hnext]; omega) (by omega)
          (by rw [sha1Transform_hash order ctx hblock, hhash]; rfl) (by rw [hnext]; omega)
      rw [sha1Transform_n0] at hn0
      rw [sha1Transform_n1] at hn1
      refine ⟨ctx', j', ?_, hj', hhash', hn0, hn1⟩
      rw [hload]
      exact hloop
    · rw [if_neg (mt htest.mp hmore)]
      have hend : n = (message.length + data.length) / 64 := by omega
      exact ⟨ctx, j, rfl, by rw [hn, hend], by rw [hhash, hend], rfl, rfl⟩

theorem rest_length (message : List UInt8) :
    (message.drop (64 * (message.length / 64))).length = message.length % 64 := by
  rw [List.length_drop]
  omega

section Update

variable {ctx : Sha1Ctx} {message data : List UInt8} (h : Absorbed ctx message)

include h

/-- The position in the buffer -/
theorem Absorbed.position : ((ctx.n0 >>> 3) &&& 0x3f).toNat = message.length % 64 := by
  have hn0 := h.n0
  rw [UInt32.toNat_and, UInt32.toNat_shiftRight]
  change ctx.n0.toNat >>> 3 &&& (2 ^ 6 - 1) = message.length % 64
  rw [Nat.and_two_pow_sub_one_eq_mod, Nat.shiftRight_eq_div_pow]
  omega

/-- The low counter -/
theorem Absorbed.count_low (hlen : data.length < 2 ^ 32) :
    (ctx.count (UInt32.ofNat data.length)).n0.toNat = 8 * (message ++ data).length % 2 ^ 32 := by
  have hn0 := h.n0
  have hdata : (UInt32.ofNat data.length).toNat = data.length :=
    UInt32.toNat_ofNat_of_lt' hlen
  rw [Sha1Ctx.count, UInt32.toNat_add, UInt32.toNat_shiftLeft, hdata, Nat.shiftLeft_eq,
    List.length_append]
  change (ctx.n0.toNat + data.length * 8 % 2 ^ 32) % 2 ^ 32 = _
  omega

/-- The high counter, with the carry -/
theorem Absorbed.count_high (hlen : data.length < 2 ^ 32) :
    (ctx.count (UInt32.ofNat data.length)).n1.toNat =
      8 * (message ++ data).length / 2 ^ 32 % 2 ^ 32 := by
  have hn0 := h.n0
  have hn1 := h.n1
  have hlow := h.count_low hlen
  have hdata : (UInt32.ofNat data.length).toNat = data.length :=
    UInt32.toNat_ofNat_of_lt' hlen
  have hhigh : (UInt32.ofNat data.length >>> 29).toNat = data.length / 2 ^ 29 := by
    rw [UInt32.toNat_shiftRight, hdata]
    exact Nat.shiftRight_eq_div_pow ..
  rw [Sha1Ctx.count] at hlow ⊢
  rw [List.length_append] at hlow ⊢
  rw [UInt32.toNat_add, hhigh]
  split_ifs with hwrap
  · rw [UInt32.lt_iff_toNat_lt, hlow, hn0] at hwrap
    rw [UInt32.toNat_add, hn1]
    change ((8 * message.length / 2 ^ 32 % 2 ^ 32 + 1) % 2 ^ 32 + _) % 2 ^ 32 = _
    omega
  · rw [UInt32.lt_iff_toNat_lt, hlow, hn0] at hwrap
    rw [hn1]
    omega

/-- Counting leaves the buffer alone. -/
theorem Absorbed.count_rest (length : UInt32) :
    (ctx.count length).buffer.take (message.length % 64) =
      message.drop (64 * (message.length / 64)) :=
  h.rest

/-- Data that do not fill a block go behind the rest of the message. -/
theorem Absorbed.fits (hlen : data.length < 2 ^ 32)
    (hfit : message.length % 64 + data.length < 64) :
    ∃ ctx', (ctx.count (UInt32.ofNat data.length)).copy (message.length % 64) data = some ctx' ∧
      Absorbed ctx' (message ++ data) := by
  obtain ⟨ctx', hcopy, hhash, hn0, hn1, hbuffer⟩ :=
    (ctx.count (UInt32.ofNat data.length)).copy_eq (message.length % 64) data (by omega)
  have hblocks : (message ++ data).length / 64 = message.length / 64 := by
    rw [List.length_append]
    omega
  have hrest : (message ++ data).length % 64 = message.length % 64 + data.length := by
    rw [List.length_append]
    omega
  refine ⟨ctx', hcopy, ?_, ?_, ?_, ?_⟩
  · rw [hhash, hblocks, Fips180.hashValue_append data (by omega)]
    exact h.hash
  · rw [hbuffer, h.count_rest, hrest, hblocks, List.drop_append_of_le_length (by omega)]
    exact List.take_left' (by rw [List.length_append, rest_length])
  · rw [hn0, h.count_low hlen]
  · rw [hn1, h.count_high hlen]

/-- The first block that the data fill -/
theorem Absorbed.fills (hfill : 64 ≤ message.length % 64 + data.length) :
    ∃ ctx', (ctx.count (UInt32.ofNat data.length)).copy (message.length % 64)
        (data.take (64 - message.length % 64)) = some ctx' ∧
      ctx'.hash = ctx.hash ∧ ctx'.n0 = (ctx.count (UInt32.ofNat data.length)).n0 ∧
      ctx'.n1 = (ctx.count (UInt32.ofNat data.length)).n1 ∧
      ctx'.buffer = Fips180.block (message ++ data) (message.length / 64) := by
  have htake : (data.take (64 - message.length % 64)).length = 64 - message.length % 64 := by
    rw [List.length_take]
    omega
  obtain ⟨ctx', hcopy, hhash, hn0, hn1, hbuffer⟩ :=
    (ctx.count (UInt32.ofNat data.length)).copy_eq (message.length % 64)
      (data.take (64 - message.length % 64)) (by omega)
  refine ⟨ctx', hcopy, hhash, hn0, hn1, ?_⟩
  have hfull : (ctx.count (UInt32.ofNat data.length)).buffer.drop (message.length % 64 +
      (64 - message.length % 64)) = [] := by
    refine List.drop_eq_nil_of_le ?_
    rw [(ctx.count _).size, sha1Blocksize]
    omega
  have hfront : (message.drop (64 * (message.length / 64))).take 64 =
      message.drop (64 * (message.length / 64)) := by
    refine List.take_of_length_le ?_
    rw [rest_length]
    omega
  rw [hbuffer, h.count_rest, htake, hfull, List.append_nil, Fips180.block,
    List.drop_append_of_le_length (by omega), List.take_append, rest_length, hfront]

/-- `sha1_update` takes the data in. -/
theorem Absorbed.update (order : ByteOrder) {fuel : ℕ} (hlen : data.length + 64 ≤ 2 ^ 32)
    (hfuel : data.length / 64 < fuel) :
    ∃ ctx', sha1Update order fuel ctx data (UInt32.ofNat data.length) = some ctx' ∧
      Absorbed ctx' (message ++ data) := by
  have hi := h.position
  have hdata : (UInt32.ofNat data.length).toNat = data.length :=
    UInt32.toNat_ofNat_of_lt' (show data.length < 2 ^ 32 by omega)
  simp only [sha1Update]
  generalize (ctx.n0 >>> 3) &&& 0x3f = i at hi ⊢
  have htest : i + UInt32.ofNat data.length < 64 ↔ message.length % 64 + data.length < 64 := by
    rw [UInt32.lt_iff_toNat_lt, UInt32.toNat_add, hi, hdata]
    change (_ + _) % 2 ^ 32 < 64 ↔ _
    omega
  -- the data fits the pending block, or fills it and goes on block by block
  by_cases hfit : message.length % 64 + data.length < 64
  · rw [if_pos (htest.mpr hfit), hdata, hi, Memory.load, if_pos (by omega), List.drop_zero,
      List.take_length]
    exact h.fits (by omega) hfit
  · rw [if_neg (mt htest.mp hfit)]
    have hj : (64 - i).toNat = 64 - message.length % 64 := by
      rw [UInt32.toNat_sub_of_le _ _ (by rw [UInt32.le_iff_toNat_le, hi]; change _ ≤ 64; omega), hi]
      rfl
    have hload : Memory.load data 0 (64 - i).toNat =
        some (data.take (64 - message.length % 64)) := by
      rw [hj, Memory.load, if_pos (by omega), List.drop_zero]
    obtain ⟨ctx₁, hcopy, hhash, hn0, hn1, hbuffer⟩ := h.fills (Nat.le_of_not_lt hfit)
    obtain ⟨ctx₂, j, hloop, hend, hhash₂, hn0₂, hn1₂⟩ :=
      @sha1UpdateLoop_eq order message data fuel (sha1Transform order ctx₁ ctx₁.buffer) (64 - i)
        (message.length / 64 + 1) hlen (by omega) (by omega)
        (by rw [sha1Transform_hash order ctx₁ ctx₁.size, hhash, hbuffer, h.hash,
              ← Fips180.hashValue_append data (by omega)]; rfl)
        (by omega)
    have hrest : (UInt32.ofNat data.length - j).toNat = data.length - j.toNat := by
      rw [UInt32.toNat_sub_of_le _ _ (by rw [UInt32.le_iff_toNat_le, hdata]; omega), hdata]
    have hload₂ : Memory.load data j.toNat (UInt32.ofNat data.length - j).toNat =
        some (data.drop j.toNat) := by
      rw [hrest, Memory.load, if_pos (by omega), List.take_of_length_le (by rw [List.length_drop])]
    have hdrop : (data.drop j.toNat).length = data.length - j.toNat := List.length_drop
    obtain ⟨ctx₃, hcopy₃, hhash₃, hn0₃, hn1₃, hbuffer₃⟩ := ctx₂.copy_eq 0 (data.drop j.toNat)
      (by omega)
    refine ⟨ctx₃, ?_, ?_, ?_, ?_, ?_⟩
    · simp only [hload, hi, hcopy, hloop, hload₂, Option.bind_eq_bind, Option.bind_some]
      exact hcopy₃
    · rw [hhash₃, hhash₂, List.length_append]
    · have hback : (message ++ data).drop (message.length + j.toNat) = data.drop j.toNat := by
        rw [← List.drop_drop, List.drop_left]
      rw [hbuffer₃, List.take_zero, List.nil_append, List.length_append, ← hend, hback]
      exact List.take_left' (by omega)
    · rw [hn0₃, hn0₂, sha1Transform_n0, hn0, h.count_low (by omega)]
    · rw [hn1₃, hn1₂, sha1Transform_n1, hn1, h.count_high (by omega)]

end Update

/-! ## Padding -/

section Final

variable {ctx : Sha1Ctx} {message : List UInt8}

/-- `sha1_update` with one byte -/
theorem Absorbed.push (h : Absorbed ctx message) (order : ByteOrder) {fuel : ℕ} (hfuel : 0 < fuel)
    (b : UInt8) :
    ∃ ctx', sha1Update order fuel ctx [b] 1 = some ctx' ∧ Absorbed ctx' (message ++ [b]) :=
  h.update order (by simp) (by simpa using hfuel)

/-- The test of the padding loop -/
theorem Absorbed.padded_iff (h : Absorbed ctx message) :
    ctx.n0 &&& 0x1f8 = 0x1c0 ↔ message.length % 64 = 56 := by
  have hn0 := h.n0
  have hmask : (ctx.n0 &&& 0x1f8).toNat = 8 * (message.length % 64) := by
    have hshift : ctx.n0 &&& (0x1f8 : UInt32) = ((ctx.n0 >>> 3) &&& 0x3f) <<< 3 := by
      rw [← UInt32.toBitVec_inj]
      ext i hi
      simp
      interval_cases i <;> simp
    rw [hshift, UInt32.toNat_shiftLeft, h.position]
    change (message.length % 64) <<< 3 % 2 ^ 32 = _
    rw [Nat.shiftLeft_eq]
    omega
  rw [← UInt32.toNat_inj, hmask]
  change _ = 448 ↔ _
  omega

/-- The padding loop stops, and has put in the zeros of the standard. -/
theorem Absorbed.pad (h : Absorbed ctx message) (order : ByteOrder) {fuel : ℕ}
    (hfuel : (120 - message.length % 64) % 64 < fuel) :
    ∃ ctx', sha1PadLoop order fuel ctx = some ctx' ∧
      Absorbed ctx' (message ++ List.replicate ((120 - message.length % 64) % 64) 0) := by
  induction fuel generalizing ctx message with
  | zero => omega
  | succ fuel ih =>
    rw [sha1PadLoop]
    by_cases hpadded : message.length % 64 = 56
    · rw [if_neg (not_not.mpr (h.padded_iff.mpr hpadded)), hpadded]
      refine ⟨ctx, rfl, ?_⟩
      rw [show List.replicate ((120 - 56) % 64) (0 : UInt8) = [] from rfl, List.append_nil]
      exact h
    · rw [if_pos (mt h.padded_iff.mp hpadded)]
      obtain ⟨ctx₁, hpush, hctx₁⟩ := h.push order (Nat.succ_pos fuel) 0x0
      have hzeros : (120 - message.length % 64) % 64 =
          (120 - (message ++ [0x0]).length % 64) % 64 + 1 := by
        rw [List.length_append, List.length_singleton]
        omega
      obtain ⟨ctx', hloop, hctx'⟩ := ih hctx₁ (by omega)
      refine ⟨ctx', ?_, ?_⟩
      · rw [hpush]
        exact hloop
      · rw [hzeros, List.replicate_succ]
        rwa [List.append_assoc, List.singleton_append] at hctx'

/-- A byte of a word, by shifting -/
theorem toUInt8_shift (x s : UInt32) (hs : s.toNat < 32) :
    ((x >>> s) &&& 0xff).toUInt8 = UInt8.ofNat (x.toNat / 2 ^ s.toNat) := by
  rw [← UInt8.toNat_inj, UInt32.toNat_toUInt8, UInt32.toNat_and, UInt32.toNat_shiftRight,
    Nat.mod_eq_of_lt hs, Nat.shiftRight_eq_div_pow, UInt8.toNat_ofNat']
  change (_ &&& (2 ^ 8 - 1)) % 2 ^ 8 = _
  rw [Nat.and_two_pow_sub_one_eq_mod, Nat.mod_mod]

/-- The bytes of a word, the highest first -/
theorem bigEndianBytes_four (x : UInt32) :
    Fips180.bigEndianBytes 4 x.toNat =
      [((x >>> 24) &&& 0xff).toUInt8, ((x >>> 16) &&& 0xff).toUInt8, ((x >>> 8) &&& 0xff).toUInt8,
        ((x >>> 0) &&& 0xff).toUInt8] := by
  rw [toUInt8_shift x 24 (by decide), toUInt8_shift x 16 (by decide), toUInt8_shift x 8 (by decide),
    toUInt8_shift x 0 (by decide)]
  change [UInt8.ofNat (x.toNat / 256 / 256 / 256), UInt8.ofNat (x.toNat / 256 / 256),
    UInt8.ofNat (x.toNat / 256), UInt8.ofNat x.toNat] = _
  simp [Nat.div_div_eq_div_mul]

/-- The bytes that end the padding are the length. -/
theorem Absorbed.final (h : Absorbed ctx message) :
    [0, 1, 2, 3].map (sha1ComputeFinal ctx.n1) ++ [4, 5, 6, 7].map (sha1ComputeFinal ctx.n0) =
      Fips180.bigEndianBytes 8 (8 * message.length) := by
  rw [Fips180.bigEndianBytes_eight, ← h.n0, ← h.n1, bigEndianBytes_four, bigEndianBytes_four]
  rfl

/-- The digest is the hash value. -/
theorem sha1ComputeDigestByte_eq (ctx : Sha1Ctx) :
    ((List.range sha1Digestsize).map fun i => sha1ComputeDigestByte ctx (UInt32.ofNat i)) =
      ctx.hash.bytes := by
  simp only [Fips180.HashValue.bytes, List.flatMap_cons, List.flatMap_nil, bigEndianBytes_four]
  rfl

/-- `sha1_final` finishes, with the digest of what has been taken in. -/
theorem Absorbed.digest (h : Absorbed ctx message) (order : ByteOrder) {fuel : ℕ}
    (hfuel : 64 ≤ fuel) :
    ∃ ctx', sha1Final order fuel ctx = some (ctx', Fips180.sha1 message) := by
  have hfinal := h.final
  simp only [sha1Final]
  rw [hfinal]
  obtain ⟨ctx₁, hmark, hctx₁⟩ := h.push order (show 0 < fuel by omega) 0x80
  obtain ⟨ctx₂, hpad, hctx₂⟩ := hctx₁.pad order (show _ < fuel by omega)
  have hcount : (Fips180.bigEndianBytes 8 (8 * message.length)).length = 8 :=
    Fips180.bigEndianBytes_length 8 _
  obtain ⟨ctx₃, hlength, hctx₃⟩ :=
    @Absorbed.update _ _ (Fips180.bigEndianBytes 8 (8 * message.length)) hctx₂ order fuel
      (by omega) (by omega)
  -- what the three calls have taken in is the padded message
  have hpadded : message ++ [0x80] ++
      List.replicate ((120 - (message ++ [0x80]).length % 64) % 64) 0 ++
      Fips180.bigEndianBytes 8 (8 * message.length) = Fips180.pad message := by
    rw [Fips180.pad, Fips180.zeros, List.length_append, List.length_singleton]
    congr 3
    omega
  rw [hpadded] at hctx₃
  rw [hcount] at hlength
  refine ⟨ctx₃, ?_⟩
  rw [hmark, Option.bind_eq_bind, Option.bind_some, hpad, Option.bind_some]
  change (sha1Update order fuel ctx₂ _ (UInt32.ofNat 8)).bind _ = _
  rw [hlength, Option.bind_some, sha1ComputeDigestByte_eq, hctx₃.hash]
  rfl

end Final

/-- **SHA-1.** For every message of fewer than `2 ^ 32 - 64` bytes, whatever the context and its
buffer held before, and with enough fuel for the loops: `sha1_init`, one `sha1_update` and
`sha1_final` return and give the digest of the standard. -/
theorem sha1_correct (order : ByteOrder) (ctx : Sha1Ctx) (message : List UInt8) (fuel : ℕ)
    (hlen : message.length < 2 ^ 32 - 64) (hfuel : message.length / 64 + 64 ≤ fuel) :
    sha1Digest order fuel ctx message = some (Fips180.sha1 message) := by
  obtain ⟨ctx₁, hupdate, hctx₁⟩ := @Absorbed.update _ _ message (absorbed_init ctx) order fuel
    (by omega) (by omega)
  obtain ⟨ctx₂, hfinal⟩ := hctx₁.digest order (show 64 ≤ fuel by omega)
  rw [sha1Digest, hupdate, Option.bind_eq_bind, Option.bind_some, hfinal]
  rfl

/-- The digest of `abcdef` -/
theorem sha1_correct_abcdef :
    sha1Digest .little 64 ⟨0, 0, 0, 0, 0, 0, 0, List.replicate 64 0xff, rfl⟩
        [0x61, 0x62, 0x63, 0x64, 0x65, 0x66] =
      some [0x1f, 0x8a, 0xc1, 0x0f, 0x23, 0xc5, 0xb5, 0xbc, 0x11, 0x67, 0xbd, 0xa8, 0x4b, 0x83,
        0x3e, 0x5c, 0x05, 0x7a, 0x77, 0xd2] := by
  rw [sha1_correct _ _ _ _ (by decide) (by decide)]
  decide +kernel

/-! ## Chunks -/

namespace Sha1Ctx

/-- The bytes that wait for their block: `buffer[0 .. (n0 >> 3) mod 64)` -/
def pending (ctx : Sha1Ctx) : List UInt8 := ctx.buffer.take ((ctx.n0 >>> 3) &&& 0x3f).toNat

/-- The bit counter -/
def bits (ctx : Sha1Ctx) : ℕ := ctx.n1.toNat * 2 ^ 32 + ctx.n0.toNat

end Sha1Ctx

/-- One `sha1_update` for every chunk -/
def sha1Updates (order : ByteOrder) (fuel : ℕ) (ctx : Sha1Ctx) (chunks : List (List UInt8)) :
    Option Sha1Ctx :=
  chunks.foldlM (fun ctx chunk => sha1Update order fuel ctx chunk (UInt32.ofNat chunk.length)) ctx

section Chunks

variable {ctx ctx' : Sha1Ctx} {message : List UInt8}

theorem Absorbed.pending (h : Absorbed ctx message) :
    ctx.pending = message.drop (64 * (message.length / 64)) := by
  rw [Sha1Ctx.pending, h.position, h.rest]

theorem Absorbed.bits (h : Absorbed ctx message) : ctx.bits = 8 * message.length % 2 ^ 64 := by
  rw [Sha1Ctx.bits, h.n0, h.n1]
  omega

/-- The message taken in determines everything but the bytes behind the pending ones. -/
theorem Absorbed.unique (h : Absorbed ctx message) (h' : Absorbed ctx' message) :
    ctx.hash = ctx'.hash ∧ ctx.n0 = ctx'.n0 ∧ ctx.n1 = ctx'.n1 ∧ ctx.pending = ctx'.pending := by
  refine ⟨?_, ?_, ?_, ?_⟩
  · rw [h.hash, h'.hash]
  · rw [← UInt32.toNat_inj, h.n0, h'.n0]
  · rw [← UInt32.toNat_inj, h.n1, h'.n1]
  · rw [h.pending, h'.pending]

/-- Whatever the chunks, what has been taken in is the message they make up. -/
theorem Absorbed.updates (h : Absorbed ctx message) (order : ByteOrder) {fuel : ℕ}
    (hfuel : 2 ^ 26 ≤ fuel) {chunks : List (List UInt8)}
    (hchunks : ∀ chunk ∈ chunks, chunk.length ≤ 2 ^ 32 - 64) :
    ∃ ctx', sha1Updates order fuel ctx chunks = some ctx' ∧
      Absorbed ctx' (message ++ chunks.flatten) := by
  induction chunks generalizing ctx message with
  | nil => exact ⟨ctx, rfl, by rwa [List.flatten_nil, List.append_nil]⟩
  | cons chunk chunks ih =>
    have hchunk := hchunks chunk (List.mem_cons_self ..)
    obtain ⟨ctx₁, hupdate, hctx₁⟩ :=
      @Absorbed.update _ _ chunk h order fuel (by omega) (by omega)
    obtain ⟨ctx', hrest, hctx'⟩ := ih hctx₁ fun c hc => hchunks c (List.mem_cons_of_mem chunk hc)
    refine ⟨ctx', ?_, ?_⟩
    · rw [sha1Updates, List.foldlM_cons, hupdate]
      exact hrest
    · rwa [List.flatten_cons, ← List.append_assoc]

end Chunks

/-- **Chunks do not matter.** From every context that `sha1_init` and any number of calls of
`sha1_update` lead to, taking in `a` and then `b` returns, and gives the same hash value, the same
counters and the same pending bytes as taking in `a ++ b` at once; the counters hold the length of
everything that has been taken in. -/
theorem sha1Update_append (order : ByteOrder) (fuel : ℕ) (hfuel : 2 ^ 26 ≤ fuel) (ctx₀ : Sha1Ctx)
    (chunks : List (List UInt8)) (hchunks : ∀ chunk ∈ chunks, chunk.length ≤ 2 ^ 32 - 64)
    (a b : List UInt8) (hab : a.length + b.length ≤ 2 ^ 32 - 64) :
    ∃ ctx ctx₁ ctx₂ ctx', sha1Updates order fuel (sha1Init ctx₀) chunks = some ctx ∧
      sha1Update order fuel ctx a (UInt32.ofNat a.length) = some ctx₁ ∧
      sha1Update order fuel ctx₁ b (UInt32.ofNat b.length) = some ctx₂ ∧
      sha1Update order fuel ctx (a ++ b) (UInt32.ofNat (a ++ b).length) = some ctx' ∧
      (ctx₂.h0 = ctx'.h0 ∧ ctx₂.h1 = ctx'.h1 ∧ ctx₂.h2 = ctx'.h2 ∧ ctx₂.h3 = ctx'.h3 ∧
        ctx₂.h4 = ctx'.h4) ∧
      (ctx₂.n0 = ctx'.n0 ∧ ctx₂.n1 = ctx'.n1 ∧
        ctx'.bits = 8 * (chunks.flatten.length + a.length + b.length) % 2 ^ 64) ∧
      ctx₂.pending = ctx'.pending := by
  obtain ⟨ctx, hctx, habsorbed⟩ := (absorbed_init ctx₀).updates order hfuel hchunks
  rw [List.nil_append] at habsorbed
  obtain ⟨ctx₁, hctx₁, ha⟩ := @Absorbed.update _ _ a habsorbed order fuel (by omega) (by omega)
  obtain ⟨ctx₂, hctx₂, hb⟩ := @Absorbed.update _ _ b ha order fuel (by omega) (by omega)
  have hlength : (a ++ b).length = a.length + b.length := List.length_append
  obtain ⟨ctx', hctx', hwhole⟩ :=
    @Absorbed.update _ _ (a ++ b) habsorbed order fuel (by omega) (by omega)
  rw [← List.append_assoc] at hwhole
  obtain ⟨hhash, hn0, hn1, hpending⟩ := hb.unique hwhole
  obtain ⟨h0, h1, h2, h3, h4⟩ := Fips180.HashValue.mk.inj hhash
  refine ⟨ctx, ctx₁, ctx₂, ctx', hctx, hctx₁, hctx₂, hctx', ⟨h0, h1, h2, h3, h4⟩,
    ⟨hn0, hn1, ?_⟩, hpending⟩
  rw [hwhole.bits, List.length_append, List.length_append]

/-- Three bytes, then one and two more -/
theorem sha1Update_append_six :
    let ctx₀ : Sha1Ctx := ⟨0, 0, 0, 0, 0, 0, 0, List.replicate 64 0xff, rfl⟩
    ∃ ctx ctx₁ ctx₂ ctx', sha1Updates .little (2 ^ 26) (sha1Init ctx₀) [[0x61, 0x62, 0x63]] =
        some ctx ∧
      sha1Update .little (2 ^ 26) ctx [0x64] 1 = some ctx₁ ∧
      sha1Update .little (2 ^ 26) ctx₁ [0x65, 0x66] 2 = some ctx₂ ∧
      sha1Update .little (2 ^ 26) ctx [0x64, 0x65, 0x66] 3 = some ctx' ∧
      ctx'.bits = 48 ∧ ctx₂.pending = ctx'.pending := by
  intro ctx₀
  obtain ⟨ctx, ctx₁, ctx₂, ctx', hctx, hctx₁, hctx₂, hctx', -, ⟨-, -, hbits⟩, hpending⟩ :=
    sha1Update_append .little (2 ^ 26) (Nat.le_refl _) ctx₀ [[0x61, 0x62, 0x63]] (by decide)
      [0x64] [0x65, 0x66] (by decide)
  exact ⟨ctx, ctx₁, ctx₂, ctx', hctx, hctx₁, hctx₂, hctx', hbits, hpending⟩

end AmdgpuFand
