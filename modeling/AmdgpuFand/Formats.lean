import AmdgpuFand.Serialize

/-!
# Well-formed formats

A well-formed format is a list of conversions, each `%T`, or `%*T` with a count that is not zero.
`packf` is given a source for each of them and `unpackf` a target. A source of `%*T` is an array,
but the count alone decides whether `packf` follows the pointer: for a count of one it copies the
argument itself. The number of bytes is a product in 32 bits, `Conversion.copied`, which is the
size of the conversion only if that is smaller than `2 ^ 32`.

The lemmas here are about every count. `packfLoop_source` and `unpackfLoop_target` say what one
turn of either loop does, and the others follow a list of conversions to its end or to the first
that does not fit.
-/

namespace AmdgpuFand

open CLib

/-! ## Conversions -/

/-- `%T`, or `%*T` with its count -/
structure Conversion where
  t : FmtType
  count : Option ℕ
  count_pos : ∀ n ∈ count, 0 < n
  count_lt : ∀ n ∈ count, n < 2 ^ 32

namespace Conversion

/-- What stands behind the `%` -/
def spec (c : Conversion) : List Char :=
  match c.count with
  | none => c.t.text
  | some _ => '*' :: c.t.text

/-- The text in the format -/
def fmt (c : Conversion) : List Char := '%' :: c.spec

/-- `nrepeat` -/
def repeats (c : Conversion) : ℕ := c.count.getD 1

/-- The size of the elements together -/
def size (c : Conversion) : ℕ := c.repeats * dfaValsize c.t

/-- `nbytes` -/
def copied (c : Conversion) : ℕ := c.size % 2 ^ 32

/-- The count that goes with a `*` -/
def countArgs (c : Conversion) : List VaArg :=
  match c.count with
  | none => []
  | some n => [.integral (BitVec.ofNat 64 n)]

theorem repeats_ne_zero (c : Conversion) : c.repeats ≠ 0 := by
  obtain ⟨t, _ | n, hpos, hlt⟩ := c
  · exact one_ne_zero
  · exact (hpos n rfl).ne'

theorem copied_lt (c : Conversion) : c.copied < 2 ^ 32 := Nat.mod_lt _ (by decide)

theorem copied_le (c : Conversion) : c.copied ≤ c.size := Nat.mod_le _ _

theorem copied_eq_iff (c : Conversion) : c.copied = c.size ↔ c.size < 2 ^ 32 :=
  Nat.mod_eq_iff_lt (by decide)

theorem vaRepeat_spec (c : Conversion) (rest : List Char) (args : List VaArg) :
    vaRepeat (c.spec ++ rest) (c.countArgs ++ args) =
      some (c.repeats, c.t.text ++ rest, c.countArgs, args) := by
  obtain ⟨t, _ | n, hpos, hlt⟩ := c
  · exact vaRepeat_text t rest args
  · exact vaRepeat_star (t.text ++ rest) n (hlt n rfl) args

end Conversion

/-- The format string of a list of conversions -/
def formatOf (convs : List Conversion) : List Char := convs.flatMap Conversion.fmt

/-- The sum of their sizes -/
def totalSize (convs : List Conversion) : ℕ := (convs.map Conversion.size).sum

/-- The sum of the bytes copied for them -/
def totalCopied (convs : List Conversion) : ℕ := (convs.map Conversion.copied).sum

section Lists

variable (c : Conversion) (convs convs' : List Conversion)

theorem formatOf_cons (fmt : List Char) :
    formatOf (c :: convs) ++ fmt = c.fmt ++ (formatOf convs ++ fmt) := by
  rw [formatOf, List.flatMap_cons, List.append_assoc, ← formatOf]

theorem formatOf_append : formatOf (convs ++ convs') = formatOf convs ++ formatOf convs' :=
  List.flatMap_append

theorem totalCopied_cons : totalCopied (c :: convs) = c.copied + totalCopied convs := by
  rw [totalCopied, List.map_cons, List.sum_cons, totalCopied]

theorem totalCopied_append :
    totalCopied (convs ++ convs') = totalCopied convs + totalCopied convs' := by
  rw [totalCopied, List.map_append, List.sum_append, totalCopied, totalCopied]

theorem totalSize_cons : totalSize (c :: convs) = c.size + totalSize convs := by
  rw [totalSize, List.map_cons, List.sum_cons, totalSize]

theorem totalCopied_le : totalCopied convs ≤ totalSize convs := by
  induction convs with
  | nil => exact Nat.le_refl 0
  | cons c convs ih =>
    rw [totalCopied_cons, totalSize_cons]
    exact Nat.add_le_add c.copied_le ih

/-- The bytes copied make up the sizes if no product wraps. -/
theorem totalCopied_eq_iff :
    totalCopied convs = totalSize convs ↔ ∀ c ∈ convs, c.size < 2 ^ 32 := by
  induction convs with
  | nil => simp [totalCopied, totalSize]
  | cons c convs ih =>
    have hle := c.copied_le
    have hle' := totalCopied_le convs
    rw [totalCopied_cons, totalSize_cons, List.forall_mem_cons, ← ih, ← c.copied_eq_iff]
    omega

/-- Each conversion takes a turn of the loop, and there is fuel for all of them. -/
theorem length_le_formatOf : convs.length ≤ (formatOf convs).length := by
  induction convs with
  | nil => rfl
  | cons c convs ih =>
    have hcons := formatOf_cons c convs []
    rw [List.append_nil, List.append_nil] at hcons
    rw [hcons, List.length_append, List.length_cons, Conversion.fmt, List.length_cons]
    omega

end Lists

/-! ## Sources -/

/-- A conversion with its argument of `packf`: the bits in the slot of the argument, and, for an
array, the object that they are the address of -/
structure Source where
  conv : Conversion
  slot : BitVec 64
  mem : List UInt8
  room : conv.count ≠ none → conv.size ≤ mem.length

namespace Source

/-- The arguments of `packf` for this conversion -/
def args (source : Source) : List VaArg :=
  source.conv.countArgs ++
    [match source.conv.count with
      | none => .integral source.slot
      | some _ => .pointer source.slot source.mem]

/-- What is copied: for a count of one the argument, else the front of the array -/
def bytes (source : Source) : List UInt8 :=
  if source.conv.repeats = 1 then Memory.leBytes (dfaValsize source.conv.t) source.slot.toNat
  else source.mem.take source.conv.copied

theorem copied_le_mem (source : Source) (h : source.conv.repeats ≠ 1) :
    source.conv.copied ≤ source.mem.length := by
  refine source.conv.copied_le.trans (source.room fun hnone => h ?_)
  rw [Conversion.repeats, hnone]
  rfl

@[simp] theorem length_bytes (source : Source) : source.bytes.length = source.conv.copied := by
  rw [bytes]
  split_ifs with hone
  · have hle := dfaValsize_le source.conv.t
    rw [Memory.leBytes_length, Conversion.copied, Conversion.size, hone, one_mul,
      Nat.mod_eq_of_lt (by omega)]
  · rw [List.length_take_of_le (source.copied_le_mem hone)]

/-- The count decides where `packf` copies from. -/
theorem packSource_args (source : Source) (rest : List VaArg) :
    ∃ args src, source.args ++ rest = source.conv.countArgs ++ args ∧
      packSource source.conv.t source.conv.repeats args = some (src, rest) ∧
      Memory.load src 0 source.conv.copied = some source.bytes := by
  obtain ⟨conv, slot, mem, room⟩ := source
  by_cases hone : conv.repeats = 1
  · have hbytes := Source.length_bytes ⟨conv, slot, mem, room⟩
    simp only [bytes, if_pos hone] at hbytes ⊢
    have hload := Memory.load_zero (Memory.leBytes (dfaValsize conv.t) slot.toNat) []
    rw [List.append_nil, hbytes] at hload
    refine ⟨_, Memory.leBytes (dfaValsize conv.t) slot.toNat, List.append_assoc .., ?_, hload⟩
    rw [packSource, if_pos hone]
    cases conv.count <;> rfl
  · have hload := Memory.load_zero (mem.take conv.copied) (mem.drop conv.copied)
    rw [List.length_take_of_le (Source.copied_le_mem ⟨conv, slot, mem, room⟩ hone),
      List.take_append_drop] at hload
    refine ⟨_, mem, List.append_assoc .., ?_, by rwa [bytes, if_neg hone]⟩
    rw [packSource, if_neg hone]
    obtain ⟨t, _ | n, hpos, hlt⟩ := conv
    · exact absurd rfl hone
    · rfl

/-- `packf` copies the source at the front to the buffer, or gives up. -/
theorem packfLoop_source (source : Source) {bufsize fuel nwritten : ℕ} {buffer : List UInt8}
    {fmt : List Char} {rest : List VaArg} :
    packfLoop bufsize (fuel + 1) buffer (source.conv.fmt ++ fmt) (source.args ++ rest) nwritten =
      if bufsize < (nwritten + source.conv.copied) % 2 ^ 64 then some (-e2big, buffer)
      else
        (Memory.store buffer nwritten source.bytes).bind fun buffer =>
          packfLoop bufsize fuel buffer fmt rest (nwritten + source.conv.copied) := by
  obtain ⟨args, src, hargs, hsrc, hload⟩ := source.packSource_args rest
  have hrepeat := source.conv.vaRepeat_spec fmt args
  rw [hargs, Conversion.fmt, List.cons_append,
    packfLoop_conversion hrepeat source.conv.repeats_ne_zero hsrc]
  change (if bufsize < (nwritten + source.conv.copied) % 2 ^ 64 then _ else
    (Memory.load src 0 source.conv.copied).bind _) = _
  rw [hload]
  rfl

end Source

/-- The conversions of a list of sources -/
def sourceConvs (sources : List Source) : List Conversion := sources.map Source.conv

/-- The arguments of `packf` -/
def sourceArgs (sources : List Source) : List VaArg := sources.flatMap Source.args

/-- What is copied for them -/
def sourceBytes (sources : List Source) : List UInt8 := sources.flatMap Source.bytes

section Sources

variable (source : Source) (sources sources' : List Source)

theorem sourceConvs_cons :
    sourceConvs (source :: sources) = source.conv :: sourceConvs sources :=
  List.map_cons

theorem sourceConvs_append :
    sourceConvs (sources ++ sources') = sourceConvs sources ++ sourceConvs sources' :=
  List.map_append

theorem sourceArgs_cons (args : List VaArg) :
    sourceArgs (source :: sources) ++ args = source.args ++ (sourceArgs sources ++ args) := by
  rw [sourceArgs, List.flatMap_cons, List.append_assoc, ← sourceArgs]

theorem sourceArgs_append :
    sourceArgs (sources ++ sources') = sourceArgs sources ++ sourceArgs sources' :=
  List.flatMap_append

theorem sourceBytes_cons :
    sourceBytes (source :: sources) = source.bytes ++ sourceBytes sources :=
  List.flatMap_cons

theorem sourceBytes_append :
    sourceBytes (sources ++ sources') = sourceBytes sources ++ sourceBytes sources' :=
  List.flatMap_append

@[simp] theorem length_sourceBytes :
    (sourceBytes sources).length = totalCopied (sourceConvs sources) := by
  induction sources with
  | nil => rfl
  | cons source sources ih =>
    rw [sourceBytes_cons, List.length_append, source.length_bytes, ih, sourceConvs_cons,
      totalCopied_cons]

/-- Sources that fit are written one behind the other, and the loop goes on behind them. -/
theorem packfLoop_sources {bufsize fuel : ℕ} {fmt : List Char} {args : List VaArg}
    (written rest : List UInt8) (hsmall : bufsize < 2 ^ 63)
    (hfits : written.length + totalCopied (sourceConvs sources) ≤ bufsize)
    (hbuf : bufsize ≤ (written ++ rest).length) :
    packfLoop bufsize (fuel + sources.length) (written ++ rest)
        (formatOf (sourceConvs sources) ++ fmt) (sourceArgs sources ++ args) written.length =
      packfLoop bufsize fuel
        (written ++ sourceBytes sources ++ rest.drop (totalCopied (sourceConvs sources))) fmt args
        (written.length + totalCopied (sourceConvs sources)) := by
  induction sources generalizing written rest with
  | nil => simp [sourceConvs, formatOf, sourceArgs, sourceBytes, totalCopied]
  | cons source sources ih =>
    rw [sourceConvs_cons, totalCopied_cons] at hfits
    rw [List.length_append] at hbuf
    have hroom : source.bytes.length ≤ rest.length := by
      rw [source.length_bytes]
      omega
    have hlen : written.length + source.conv.copied = (written ++ source.bytes).length := by
      rw [List.length_append, source.length_bytes]
    have hrec := ih (written ++ source.bytes) (rest.drop source.conv.copied) (by omega) (by
      rw [List.length_append, List.length_drop]
      omega)
    rw [sourceConvs_cons, formatOf_cons, sourceArgs_cons, List.length_cons, ← add_assoc,
      source.packfLoop_source, if_neg (by omega), Memory.store_append written hroom,
      Option.bind_some, source.length_bytes, hlen, hrec, totalCopied_cons, ← hlen, add_assoc,
      List.drop_drop, sourceBytes_cons, List.append_assoc written]

/-- Sources that do not fit are given up; the bytes from `bufsize` on are not touched. -/
theorem packfLoop_sources_e2big {bufsize fuel : ℕ} {fmt : List Char} {args : List VaArg}
    (buffer : List UInt8) (nwritten : ℕ) (hsmall : bufsize < 2 ^ 63)
    (hfuel : sources.length < fuel) (hle : nwritten ≤ bufsize)
    (hbig : bufsize < nwritten + totalCopied (sourceConvs sources))
    (hbuf : bufsize ≤ buffer.length) :
    ∃ packed, packfLoop bufsize fuel buffer (formatOf (sourceConvs sources) ++ fmt)
        (sourceArgs sources ++ args) nwritten = some (-e2big, packed) ∧
      packed.length = buffer.length ∧ packed.drop bufsize = buffer.drop bufsize := by
  induction sources generalizing buffer nwritten fuel with
  | nil =>
    rw [sourceConvs, List.map_nil, totalCopied, List.map_nil, List.sum_nil] at hbig
    omega
  | cons source sources ih =>
    obtain ⟨fuel, rfl⟩ : ∃ n, fuel = n + 1 := Nat.exists_eq_succ_of_ne_zero (by omega)
    have hcopied := source.conv.copied_lt
    rw [sourceConvs_cons, totalCopied_cons] at hbig
    -- no wrap: `nwritten` is at most `bufsize` and the rest is below `2 ^ 32`
    rw [sourceConvs_cons, formatOf_cons, sourceArgs_cons, source.packfLoop_source,
      Nat.mod_eq_of_lt (by omega)]
    by_cases hsource : bufsize < nwritten + source.conv.copied
    · rw [if_pos hsource]
      exact ⟨buffer, rfl, rfl, rfl⟩
    · have hroom : nwritten + source.bytes.length ≤ bufsize := by
        rw [source.length_bytes]
        omega
      obtain ⟨stored, hstored⟩ :
          ∃ stored, Memory.store buffer nwritten source.bytes = some stored := by
        rw [Memory.store, if_pos (hroom.trans hbuf)]
        exact ⟨_, rfl⟩
      obtain ⟨hlen, hdrop⟩ := Memory.store_frame hstored hroom
      obtain ⟨packed, hpacked, hlen', hdrop'⟩ :=
        ih stored (nwritten + source.conv.copied) (Nat.lt_of_succ_lt_succ hfuel) (by omega)
          (by omega) (by omega)
      rw [if_neg hsource, hstored, Option.bind_some, hpacked]
      exact ⟨packed, rfl, hlen'.trans hlen, hdrop'.trans hdrop⟩

theorem length_sources_le : sources.length ≤ (formatOf (sourceConvs sources)).length := by
  have hle := length_le_formatOf (sourceConvs sources)
  rwa [sourceConvs, List.length_map, ← sourceConvs] at hle

/-- `packf` writes to the front of a buffer that has room. -/
theorem packf_sources {buffer : List UInt8} {bufsize : ℕ} (hsmall : bufsize < 2 ^ 63)
    (hbuf : bufsize ≤ buffer.length) (hfits : totalCopied (sourceConvs sources) ≤ bufsize) :
    packf buffer bufsize (formatOf (sourceConvs sources)) (sourceArgs sources) =
      some ((totalCopied (sourceConvs sources) : ℤ),
        sourceBytes sources ++ buffer.drop (totalCopied (sourceConvs sources))) := by
  obtain ⟨k, hk⟩ := Nat.exists_eq_add_of_le (length_sources_le sources)
  have hfuel : (formatOf (sourceConvs sources)).length + 1 = k + 1 + sources.length := by omega
  have hloop := @packfLoop_sources sources bufsize (k + 1) [] [] [] buffer hsmall
    (by simpa using hfits) hbuf
  rw [List.append_nil, List.append_nil, ← hfuel, List.nil_append, List.nil_append,
    List.length_nil, zero_add] at hloop
  rw [packf, hloop]
  rfl

/-- `packf` returns `-E2BIG` for one that has not. -/
theorem packf_sources_e2big {buffer : List UInt8} {bufsize : ℕ} (hsmall : bufsize < 2 ^ 63)
    (hbuf : bufsize ≤ buffer.length) (hbig : bufsize < totalCopied (sourceConvs sources)) :
    ∃ packed, packf buffer bufsize (formatOf (sourceConvs sources)) (sourceArgs sources) =
        some (-e2big, packed) ∧
      packed.length = buffer.length ∧ packed.drop bufsize = buffer.drop bufsize := by
  have hfuel := length_sources_le sources
  have hloop := @packfLoop_sources_e2big sources bufsize
    ((formatOf (sourceConvs sources)).length + 1) [] [] buffer 0 hsmall (by omega)
    (Nat.zero_le _) (by omega) hbuf
  rwa [List.append_nil, List.append_nil, ← packf] at hloop

end Sources

/-! ## Targets -/

/-- A conversion with the object it is unpacked to, which has room for it -/
structure Target where
  conv : Conversion
  addr : BitVec 64
  mem : List UInt8
  room : conv.size ≤ mem.length

namespace Target

/-- The arguments of `unpackf` for this conversion when the object holds `mem` -/
def args (target : Target) (mem : List UInt8) : List VaArg :=
  target.conv.countArgs ++ [.pointer target.addr mem]

theorem store_bytes (target : Target) {bytes : List UInt8}
    (h : bytes.length = target.conv.copied) :
    Memory.store target.mem 0 bytes = some (bytes ++ target.mem.drop target.conv.copied) := by
  rw [Memory.store_zero (h ▸ target.conv.copied_le.trans target.room), h]

/-- `unpackf` takes the bytes at its position to the target at the front, or gives up. -/
theorem unpackfLoop_target (target : Target) {bufsize fuel nread : ℕ} {buffer : List UInt8}
    {fmt : List Char} {rest : List VaArg} :
    unpackfLoop buffer bufsize (fuel + 1) (target.conv.fmt ++ fmt)
        (target.args target.mem ++ rest) nread =
      if bufsize < (nread + target.conv.copied) % 2 ^ 64 then
        some (-e2big, target.args target.mem ++ rest)
      else
        (Memory.load buffer nread target.conv.copied).bind fun bytes =>
          (Memory.store target.mem 0 bytes).bind fun mem =>
            (unpackfLoop buffer bufsize fuel fmt rest (nread + target.conv.copied)).bind
              fun (ret, rest) => some (ret, target.args mem ++ rest) := by
  have hrepeat := target.conv.vaRepeat_spec fmt (.pointer target.addr target.mem :: rest)
  have hargs : ∀ mem, target.args mem ++ rest =
      target.conv.countArgs ++ .pointer target.addr mem :: rest := by
    intro mem
    rw [args, List.append_assoc, List.singleton_append]
  rw [hargs, Conversion.fmt, List.cons_append,
    unpackfLoop_conversion hrepeat target.conv.repeats_ne_zero]
  simp only [args, List.append_assoc, List.singleton_append]
  rfl

end Target

/-- The conversions of a list of targets -/
def targetConvs (targets : List Target) : List Conversion := targets.map Target.conv

/-- The arguments of `unpackf` before the call -/
def targetArgs (targets : List Target) : List VaArg :=
  targets.flatMap fun target => target.args target.mem

section Targets

variable (target : Target) (targets : List Target)

theorem targetConvs_cons :
    targetConvs (target :: targets) = target.conv :: targetConvs targets :=
  List.map_cons

theorem targetArgs_cons (args : List VaArg) :
    targetArgs (target :: targets) ++ args =
      target.args target.mem ++ (targetArgs targets ++ args) := by
  rw [targetArgs, List.flatMap_cons, List.append_assoc, ← targetArgs]

/-- What `unpackf` returns, whatever the buffer holds -/
theorem unpackfLoop_targets {buffer : List UInt8} {bufsize fuel : ℕ} (nread : ℕ)
    (hsmall : bufsize < 2 ^ 63) (hfuel : targets.length < fuel) (hle : nread ≤ bufsize)
    (hbuf : bufsize ≤ buffer.length) :
    ∃ after, unpackfLoop buffer bufsize fuel (formatOf (targetConvs targets))
        (targetArgs targets) nread =
      some (if bufsize < nread + totalCopied (targetConvs targets) then -e2big
        else ((nread + totalCopied (targetConvs targets) : ℕ) : ℤ), after) := by
  induction targets generalizing nread fuel with
  | nil =>
    obtain ⟨fuel, rfl⟩ : ∃ n, fuel = n + 1 := Nat.exists_eq_succ_of_ne_zero (by omega)
    have hzero : totalCopied (targetConvs []) = 0 := rfl
    rw [hzero, add_zero, if_neg (not_lt.mpr hle)]
    exact ⟨[], rfl⟩
  | cons target targets ih =>
    obtain ⟨fuel, rfl⟩ : ∃ n, fuel = n + 1 := Nat.exists_eq_succ_of_ne_zero (by omega)
    have hcopied := target.conv.copied_lt
    have hturn := @Target.unpackfLoop_target target bufsize fuel nread buffer
      (formatOf (targetConvs targets)) (targetArgs targets)
    have hfmt := formatOf_cons target.conv (targetConvs targets) []
    have hargs := targetArgs_cons target targets []
    simp only [List.append_nil] at hfmt hargs
    rw [targetConvs_cons, totalCopied_cons, hfmt, hargs, hturn, Nat.mod_eq_of_lt (by omega)]
    by_cases htarget : bufsize < nread + target.conv.copied
    · rw [if_pos htarget, if_pos (by omega)]
      exact ⟨_, rfl⟩
    · obtain ⟨bytes, hbytes, hlen⟩ :
          ∃ bytes, Memory.load buffer nread target.conv.copied = some bytes ∧
            bytes.length = target.conv.copied := by
        rw [Memory.load, if_pos (by omega)]
        refine ⟨_, rfl, ?_⟩
        rw [List.length_take, List.length_drop, min_eq_left (by omega)]
      obtain ⟨after, hafter⟩ := ih (nread + target.conv.copied) (Nat.lt_of_succ_lt_succ hfuel)
        (by omega)
      rw [if_neg htarget, hbytes, Option.bind_some, target.store_bytes hlen, Option.bind_some,
        hafter, ← add_assoc]
      exact ⟨_, rfl⟩

/-- What `unpackf` returns -/
theorem unpackf_targets {buffer : List UInt8} {bufsize : ℕ} (hsmall : bufsize < 2 ^ 63)
    (hbuf : bufsize ≤ buffer.length) :
    ∃ after, unpackf buffer bufsize (formatOf (targetConvs targets)) (targetArgs targets) =
      some (if bufsize < totalCopied (targetConvs targets) then -e2big
        else (totalCopied (targetConvs targets) : ℤ), after) := by
  have hfuel := length_le_formatOf (targetConvs targets)
  rw [targetConvs, List.length_map, ← targetConvs] at hfuel
  have hloop := @unpackfLoop_targets targets buffer bufsize
    ((formatOf (targetConvs targets)).length + 1) 0 hsmall (by omega) (Nat.zero_le _) hbuf
  rwa [zero_add, ← unpackf] at hloop

end Targets

end AmdgpuFand
