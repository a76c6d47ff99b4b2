import AmdgpuFand.Conversions

/-!
# Repeat counts

What `packf` and `unpackf` do with the count of a `%*T`. Neither is right for every count. The
number of bytes is multiplied out in 32 bits, so that a large array is taken for a small one
(`sizes_exact`); and `packf` decides by the count whether its argument is a pointer, so that of an
array of one element it packs the address (`repeat_uniform`). The arguments stay in step for every
count.
-/

namespace AmdgpuFand

open CLib

/-! ## Sizes -/

/-- The return value accounts for conversions of this size: success means that they fit and returns
their size, and `-E2BIG` is the answer if they do not. -/
def Accounts (total bufsize : ℕ) (ret : ℤ) : Prop :=
  (0 ≤ ret → total ≤ bufsize ∧ ret = total) ∧ (bufsize < total → ret = -e2big)

/-- What comes of counting only the bytes copied -/
theorem accounts_iff {total copied bufsize : ℕ} (hle : copied ≤ total) :
    Accounts total bufsize (if bufsize < copied then -e2big else (copied : ℤ)) ↔
      copied = total ∨ bufsize < copied := by
  have he2big : ¬ (0 : ℤ) ≤ -e2big := by decide
  by_cases hbig : bufsize < copied
  · rw [if_pos hbig]
    exact iff_of_true ⟨fun h => absurd h he2big, fun _ => rfl⟩ (Or.inr hbig)
  · rw [if_neg hbig]
    refine ⟨?_, ?_⟩
    · intro h
      obtain ⟨-, heq⟩ := h.1 (Int.natCast_nonneg copied)
      exact Or.inl (Int.ofNat_inj.mp heq)
    · intro h
      obtain rfl := h.resolve_right hbig
      exact ⟨fun _ => ⟨not_lt.mp hbig, rfl⟩, fun h => absurd h hbig⟩

/-- **Exact sizes.** For every well-formed format, all counts that are not zero and every buffer,
`packf` and `unpackf` account for the exact size of the conversions if and only if no conversion
has `2 ^ 32` bytes or more, or what the products leave of them does not fit either. -/
theorem sizes_exact (convs : List Conversion) (buffer : Buffer) :
    (∀ sources, sourceConvs sources = convs →
      ∃ ret packed, packf buffer.bytes buffer.size (formatOf convs) (sourceArgs sources) =
          some (ret, packed) ∧
        (Accounts (totalSize convs) buffer.size ret ↔
          (∀ c ∈ convs, c.size < 2 ^ 32) ∨ buffer.size < totalCopied convs)) ∧
    ∀ targets, targetConvs targets = convs →
      ∃ ret after, unpackf buffer.bytes buffer.size (formatOf convs) (targetArgs targets) =
          some (ret, after) ∧
        (Accounts (totalSize convs) buffer.size ret ↔
          (∀ c ∈ convs, c.size < 2 ^ 32) ∨ buffer.size < totalCopied convs) := by
  have haccounts := @accounts_iff (totalSize convs) (totalCopied convs) buffer.size
    (totalCopied_le convs)
  rw [totalCopied_eq_iff] at haccounts
  refine ⟨?_, ?_⟩
  · rintro sources rfl
    by_cases hbig : buffer.size < totalCopied (sourceConvs sources)
    · rw [if_pos hbig] at haccounts
      obtain ⟨packed, hpacked, -⟩ := packf_sources_e2big sources buffer.size_lt buffer.size_le hbig
      exact ⟨_, packed, hpacked, haccounts⟩
    · rw [if_neg hbig] at haccounts
      exact ⟨_, _, packf_sources sources buffer.size_lt buffer.size_le (not_lt.mp hbig), haccounts⟩
  · rintro targets rfl
    obtain ⟨after, hafter⟩ := unpackf_targets targets buffer.size_lt buffer.size_le
    exact ⟨_, after, hafter, haccounts⟩

/-- Three bytes and an `int`, packed to seven bytes -/
theorem sizes_exact_seven :
    let bytes : Conversion := ⟨.hhu, some 3, by decide, by decide⟩
    let int := Item.scalar .d 30
    let buffer : Buffer := ⟨List.replicate 7 0, 7, by decide, by decide⟩
    let sources : List Source :=
      [⟨bytes, 0x1000, [1, 2, 3], fun _ => by decide⟩, int.source]
    ∃ ret packed, packf buffer.bytes buffer.size "%*hhu%d".toList (sourceArgs sources) =
        some (ret, packed) ∧ Accounts 7 buffer.size ret := by
  intro bytes int buffer sources
  obtain ⟨ret, packed, hpack, hiff⟩ := (sizes_exact [bytes, int.conv] buffer).1 sources rfl
  have hsizes : ∀ c ∈ [bytes, int.conv], c.size < 2 ^ 32 := by
    intro c hc
    rcases List.mem_pair.mp hc with rfl | rfl
    · decide
    · decide
  have htotal : totalSize [bytes, int.conv] = 7 := by decide
  rw [htotal] at hiff
  exact ⟨ret, packed, hpack, hiff.mpr (Or.inl hsizes)⟩

/-- A count whose four gigabytes are a product of zero -/
def wrappingCount : Conversion := ⟨.d, some (2 ^ 30), by simp, by simp⟩

theorem totalCopied_wrappingCount : totalCopied [wrappingCount] = 0 := by decide

theorem formatOf_wrappingCount : formatOf [wrappingCount] = "%*d".toList := by decide

section Wrap

variable {mem : List UInt8} (room : wrappingCount.size ≤ mem.length)

/-- `packf` takes four gigabytes to four bytes, -/
theorem packf_wrappingCount :
    ∃ packed, packf [0, 0, 0, 0] 4 "%*d".toList
      (sourceArgs [⟨wrappingCount, 0x1000, mem, fun _ => room⟩]) = some (0, packed) := by
  have hconvs : sourceConvs [⟨wrappingCount, 0x1000, mem, fun _ => room⟩] = [wrappingCount] := rfl
  have hpack := @packf_sources [⟨wrappingCount, 0x1000, mem, fun _ => room⟩] [0, 0, 0, 0] 4
    (by decide) (Nat.le_refl 4) (by rw [hconvs, totalCopied_wrappingCount]; exact Nat.zero_le 4)
  rw [hconvs, totalCopied_wrappingCount, formatOf_wrappingCount] at hpack
  exact ⟨_, hpack⟩

/-- and `unpackf` takes four bytes to four gigabytes. -/
theorem unpackf_wrappingCount :
    ∃ after, unpackf [0, 0, 0, 0] 4 "%*d".toList
      (targetArgs [⟨wrappingCount, 0x1000, mem, room⟩]) = some (0, after) := by
  have hconvs : targetConvs [⟨wrappingCount, 0x1000, mem, room⟩] = [wrappingCount] := rfl
  have hunpack := @unpackf_targets [⟨wrappingCount, 0x1000, mem, room⟩] [0, 0, 0, 0] 4
    (by decide) (Nat.le_refl 4)
  rw [hconvs, totalCopied_wrappingCount, formatOf_wrappingCount] at hunpack
  exact hunpack

end Wrap

theorem room_wrappingCount :
    wrappingCount.size ≤ (List.replicate (2 ^ 32) (0 : UInt8)).length := by
  rw [List.length_replicate]
  decide

/-- Four bytes are enough for an array of `2 ^ 30` zeros, in both directions. -/
theorem sizes_wrap :
    let mem : List UInt8 := List.replicate (2 ^ 32) 0
    (∃ packed, packf [0, 0, 0, 0] 4 "%*d".toList
        (sourceArgs [⟨wrappingCount, 0x1000, mem, fun _ => room_wrappingCount⟩]) =
          some (0, packed)) ∧
      (∃ after, unpackf [0, 0, 0, 0] 4 "%*d".toList
        (targetArgs [⟨wrappingCount, 0x1000, mem, room_wrappingCount⟩]) = some (0, after)) ∧
      4 < totalSize [wrappingCount] ∧ ¬ Accounts (totalSize [wrappingCount]) 4 0 := by
  intro mem
  have hsize : 4 < totalSize [wrappingCount] := by decide
  refine ⟨packf_wrappingCount room_wrappingCount, unpackf_wrappingCount room_wrappingCount, hsize,
    fun h => ?_⟩
  exact absurd (h.2 hsize) (by decide)

/-! ## Arrays and their elements -/

/-- An array of `t`: its elements as arguments of their own, its address and the memory behind
them. The count is passed as an `unsigned`. -/
structure Elements (t : FmtType) where
  values : List (BitVec 64)
  addr : BitVec 64
  behind : List UInt8
  pos : 0 < values.length
  lt : values.length < 2 ^ 32

namespace Elements

variable {t : FmtType} (array : Elements t)

/-- The elements in memory -/
def bytes : List UInt8 := array.values.flatMap fun x => Memory.leBytes (dfaValsize t) x.toNat

theorem length_bytes : array.bytes.length = array.values.length * dfaValsize t :=
  Item.length_flatMap_leBytes array.values

/-- `%*T` with the count and the pointer -/
def source : Source where
  conv := ⟨t, some array.values.length, by rintro n ⟨⟩; exact array.pos,
    by rintro n ⟨⟩; exact array.lt⟩
  slot := array.addr
  mem := array.bytes ++ array.behind
  room := fun _ => by
    rw [List.length_append, length_bytes]
    exact Nat.le_add_right _ _

/-- `%T` for every element -/
def scalars : List Source :=
  array.values.map fun x => (Item.scalar t x).source

theorem sourceBytes_scalars : sourceBytes array.scalars = array.bytes := by
  rw [sourceBytes, scalars, List.flatMap_map]
  rfl

theorem totalCopied_scalars :
    totalCopied (sourceConvs array.scalars) = array.values.length * dfaValsize t := by
  rw [← length_sourceBytes, sourceBytes_scalars, length_bytes]

theorem copied_source :
    array.source.conv.copied = array.values.length * dfaValsize t % 2 ^ 32 := rfl

theorem repeats_source : array.source.conv.repeats = array.values.length := rfl

/-- `packf` copies the elements if there are several and their size does not wrap, -/
theorem bytes_source (hwrap : array.values.length * dfaValsize t < 2 ^ 32)
    (hseveral : array.values.length ≠ 1) : array.source.bytes = array.bytes := by
  rw [Source.bytes, repeats_source, if_neg hseveral, copied_source, Nat.mod_eq_of_lt hwrap,
    ← length_bytes]
  exact List.take_left

/-- and the address of a single one. -/
theorem bytes_source_one {x : BitVec 64} (hone : array.values = [x]) :
    array.source.bytes = Memory.leBytes (dfaValsize t) array.addr.toNat ∧
      array.bytes = Memory.leBytes (dfaValsize t) x.toNat := by
  have hcount : array.source.conv.repeats = 1 := by
    rw [repeats_source, hone, List.length_singleton]
  refine ⟨?_, ?_⟩
  · rw [Source.bytes, if_pos hcount]
    rfl
  · rw [bytes, hone, List.flatMap_singleton]

/-- When `packf` copies the elements -/
theorem bytes_source_iff :
    array.source.bytes = array.bytes ↔
      array.values.length * dfaValsize t < 2 ^ 32 ∧
      ∀ x, array.values = [x] → Memory.leBytes (dfaValsize t) array.addr.toNat =
        Memory.leBytes (dfaValsize t) x.toNat := by
  refine ⟨?_, ?_⟩
  · intro h
    have hlength := congrArg List.length h
    rw [array.source.length_bytes, length_bytes, copied_source] at hlength
    refine ⟨(Nat.mod_eq_iff_lt (by decide)).mp hlength, fun x hone => ?_⟩
    obtain ⟨haddr, hvalue⟩ := array.bytes_source_one hone
    rw [← haddr, h, hvalue]
  · rintro ⟨hwrap, hsingle⟩
    by_cases hcount : array.values.length = 1
    · obtain ⟨x, hone⟩ := List.length_eq_one_iff.mp hcount
      obtain ⟨haddr, hvalue⟩ := array.bytes_source_one hone
      rw [haddr, hvalue, hsingle x hone]
    · exact array.bytes_source hwrap hcount

end Elements

/-- One turn of `packf` takes these arguments for the conversion at the front. -/
def PackfTakes (conversion : List Char) (taken : List VaArg) : Prop :=
  ∃ nbytes bytes, ∀ bufsize fuel buffer fmt rest nwritten,
    packfLoop bufsize (fuel + 1) buffer (conversion ++ fmt) (taken ++ rest) nwritten =
      if bufsize < (nwritten + nbytes) % 2 ^ 64 then some (-e2big, buffer)
      else
        (Memory.store buffer nwritten bytes).bind fun buffer =>
          packfLoop bufsize fuel buffer fmt rest (nwritten + nbytes)

/-- One turn of `unpackf` takes these arguments for the conversion at the front. -/
def UnpackfTakes (conversion : List Char) (taken : List VaArg) : Prop :=
  ∃ nbytes mem, ∃ filled : List UInt8 → List VaArg,
    ∀ bufsize fuel buffer fmt rest nread,
      unpackfLoop buffer bufsize (fuel + 1) (conversion ++ fmt) (taken ++ rest) nread =
        if bufsize < (nread + nbytes) % 2 ^ 64 then some (-e2big, taken ++ rest)
        else
          (Memory.load buffer nread nbytes).bind fun bytes =>
            (Memory.store mem 0 bytes).bind fun mem =>
              (unpackfLoop buffer bufsize fuel fmt rest (nread + nbytes)).bind
                fun (ret, rest) => some (ret, filled mem ++ rest)

theorem Source.packfTakes (source : Source) : PackfTakes source.conv.fmt source.args :=
  ⟨source.conv.copied, source.bytes, fun _ _ _ _ _ _ => source.packfLoop_source⟩

theorem Target.unpackfTakes (target : Target) :
    UnpackfTakes target.conv.fmt (target.args target.mem) :=
  ⟨target.conv.copied, target.mem, target.args, fun _ _ _ _ _ _ => target.unpackfLoop_target⟩

/-- What is packed with an array in the middle, and with its elements -/
theorem sourceBytes_middle (front middle back : List Source) :
    sourceBytes (front ++ (middle ++ back)) =
      sourceBytes front ++ (sourceBytes middle ++ sourceBytes back) := by
  rw [sourceBytes_append, sourceBytes_append]

theorem totalCopied_middle (front middle back : List Source) :
    totalCopied (sourceConvs (front ++ (middle ++ back))) =
      totalCopied (sourceConvs front) +
        (totalCopied (sourceConvs middle) + totalCopied (sourceConvs back)) := by
  rw [sourceConvs_append, sourceConvs_append, totalCopied_append, totalCopied_append]

/-- **Counts and elements.** For every type and every array, at every place of a format: `%*T` takes
a count and a pointer in `packf` as it does in `unpackf`; and in a buffer with room for the elements
it packs what as many `%T` pack, if and only if the size of the array is less than `2 ^ 32` and,
should there be one element only, the address happens to end in its bytes. -/
theorem repeat_uniform {t : FmtType} (array : Elements t) (front back : List Source)
    (buffer : Buffer)
    (hroom : totalCopied (sourceConvs (front ++ (array.scalars ++ back))) ≤ buffer.size) :
    PackfTakes ('%' :: '*' :: t.text) [.integral (BitVec.ofNat 64 array.values.length),
        .pointer array.addr (array.bytes ++ array.behind)] ∧
      UnpackfTakes ('%' :: '*' :: t.text) [.integral (BitVec.ofNat 64 array.values.length),
        .pointer array.addr (array.bytes ++ array.behind)] ∧
      (packf buffer.bytes buffer.size
          (formatOf (sourceConvs (front ++ ([array.source] ++ back))))
          (sourceArgs (front ++ ([array.source] ++ back))) =
        packf buffer.bytes buffer.size
          (formatOf (sourceConvs (front ++ (array.scalars ++ back))))
          (sourceArgs (front ++ (array.scalars ++ back))) ↔
        array.values.length * dfaValsize t < 2 ^ 32 ∧
          ∀ x, array.values = [x] → Memory.leBytes (dfaValsize t) array.addr.toNat =
            Memory.leBytes (dfaValsize t) x.toNat) := by
  refine ⟨array.source.packfTakes, ?_, ?_⟩
  · exact Target.unpackfTakes ⟨array.source.conv, array.addr, array.bytes ++ array.behind,
      array.source.room nofun⟩
  have hle : array.source.conv.copied ≤ array.values.length * dfaValsize t :=
    array.source.conv.copied_le
  have hsingle : totalCopied (sourceConvs [array.source]) = array.source.conv.copied :=
    Nat.add_zero _
  have hbytes : sourceBytes [array.source] = array.source.bytes := List.append_nil _
  have hroom' : totalCopied (sourceConvs (front ++ ([array.source] ++ back))) ≤ buffer.size := by
    rw [totalCopied_middle, array.totalCopied_scalars] at hroom
    rw [totalCopied_middle, hsingle]
    omega
  rw [packf_sources _ buffer.size_lt buffer.size_le hroom,
    packf_sources _ buffer.size_lt buffer.size_le hroom', ← array.bytes_source_iff]
  simp only [Option.some.injEq, Prod.mk.injEq, sourceBytes_middle, totalCopied_middle, hsingle,
    hbytes, array.totalCopied_scalars, array.sourceBytes_scalars]
  -- what is packed in front and behind is the same, so the bytes in the middle decide
  refine ⟨?_, ?_⟩
  · rintro ⟨hret, hpacked⟩
    have hlength : array.source.bytes.length = array.bytes.length := by
      rw [array.source.length_bytes, array.length_bytes]
      omega
    simp only [List.append_assoc] at hpacked
    exact (List.append_inj (List.append_cancel_left hpacked) hlength).1
  · intro h
    have hcopied : array.source.conv.copied = array.values.length * dfaValsize t := by
      rw [← array.source.length_bytes, h, array.length_bytes]
    rw [h, hcopied]
    exact ⟨rfl, rfl⟩

/-- Two elements between a byte and an `int` -/
theorem repeat_uniform_two :
    packf (List.replicate 7 0) 7 "%hhu%*hhu%d".toList
        [.integral 1, .integral 2, .pointer 0x1000 [7, 8], .integral 30] =
      packf (List.replicate 7 0) 7 "%hhu%hhu%hhu%d".toList
        [.integral 1, .integral 7, .integral 8, .integral 30] := by
  have huniform := repeat_uniform (⟨[7, 8], 0x1000, [], by decide, by decide⟩ : Elements .hhu)
    [(Item.scalar .hhu 1).source]
    [(Item.scalar .d 30).source]
    ⟨List.replicate 7 0, 7, by decide, by decide⟩ (by decide)
  exact huniform.2.2.mpr ⟨by decide, nofun⟩

/-- Of an array of one element, the address is packed. -/
theorem repeat_one_packs_address :
    packf [0, 0, 0, 0] 4 "%*d".toList [.integral 1, .pointer 0x1000 [7, 0, 0, 0]] =
        some (4, [0, 0x10, 0, 0]) ∧
      packf [0, 0, 0, 0] 4 "%d".toList [.integral 7] = some (4, [7, 0, 0, 0]) ∧
      packf [0, 0, 0, 0] 4 "%*d".toList [.integral 1, .pointer 0x1000 [7, 0, 0, 0]] ≠
        packf [0, 0, 0, 0] 4 "%d".toList [.integral 7] := by
  decide

end AmdgpuFand
