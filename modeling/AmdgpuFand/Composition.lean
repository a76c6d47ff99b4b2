import AmdgpuFand.Cache

/-!
# Formats in parts

`cache_pack` writes the cache in two calls of `packf`, the second with the checksum of what the
first has written, and `cache_unpack` reads it with one call of `unpackf` and the two formats in
one. That this is the same rests on a property of `packf` alone: what a format packs does not
depend on the call that it is part of. The scanner looks ahead into the next conversion and the
loop moves on by a length from a table, so this is a property of well-formed formats, and no longer
true where the cut goes through a conversion.
-/

namespace AmdgpuFand

/-! ## Two calls for one -/

section Append

variable (sources sources' : List Source) {buffer : Buffer}
  (hroom : totalCopied (sourceConvs (sources ++ sources')) ≤ buffer.size)

include hroom

/-- The first of two calls has room, -/
theorem packf_first :
    packf buffer.bytes buffer.size (formatOf (sourceConvs sources)) (sourceArgs sources) =
      some ((totalCopied (sourceConvs sources) : ℤ),
        sourceBytes sources ++ buffer.bytes.drop (totalCopied (sourceConvs sources))) := by
  rw [sourceConvs_append, totalCopied_append] at hroom
  exact packf_sources sources buffer.size_lt buffer.size_le (by omega)

/-- so has the second, at the offset that the first returns, -/
theorem packf_second :
    packf ((sourceBytes sources ++ buffer.bytes.drop (totalCopied (sourceConvs sources))).drop
          (totalCopied (sourceConvs sources)))
        (buffer.size - totalCopied (sourceConvs sources)) (formatOf (sourceConvs sources'))
        (sourceArgs sources') =
      some ((totalCopied (sourceConvs sources') : ℤ),
        sourceBytes sources' ++ buffer.bytes.drop
          (totalCopied (sourceConvs sources) + totalCopied (sourceConvs sources'))) := by
  have hsmall := buffer.size_lt
  have hsize := buffer.size_le
  rw [sourceConvs_append, totalCopied_append] at hroom
  have hleft : buffer.size - totalCopied (sourceConvs sources) < 2 ^ 63 := by omega
  have hbytes : buffer.size - totalCopied (sourceConvs sources) ≤
      (buffer.bytes.drop (totalCopied (sourceConvs sources))).length := by
    rw [List.length_drop]
    omega
  have hpack := packf_sources sources' hleft hbytes (by omega)
  rw [List.drop_drop] at hpack
  rw [List.drop_left' (length_sourceBytes sources), hpack]

/-- and one call does what the two do. -/
theorem packf_both :
    packf buffer.bytes buffer.size
        (formatOf (sourceConvs sources) ++ formatOf (sourceConvs sources'))
        (sourceArgs sources ++ sourceArgs sources') =
      some (((totalCopied (sourceConvs sources) + totalCopied (sourceConvs sources') : ℕ) : ℤ),
        sourceBytes sources ++ (sourceBytes sources' ++ buffer.bytes.drop
          (totalCopied (sourceConvs sources) + totalCopied (sourceConvs sources')))) := by
  have hpack := packf_sources (sources ++ sources') buffer.size_lt buffer.size_le hroom
  rwa [sourceConvs_append, formatOf_append, sourceArgs_append, totalCopied_append,
    sourceBytes_append, List.append_assoc] at hpack

end Append

/-! ## The cache -/

/-- The arguments of the two calls in `cache_pack`, one behind the other -/
def FandCache.packArgs (cache : FandCache) : List VaArg :=
  [.integral (BitVec.ofNat 64 hwmonPathSize), .ref cache.pwm,
    .integral (BitVec.ofNat 64 hwmonPathSize), .ref cache.pwmEnable,
    .integral (BitVec.ofNat 64 hwmonPathSize), .ref cache.tempInput,
    .int cache.cardIdx.toBitVec, .integral (BitVec.ofNat 64 sha1Digestsize), .ref cache.checksum]

/-- The record and its checksum, packed in one call -/
theorem packf_image (cache : FandCache) {buffer : List UInt8}
    (hbuffer : buffer.length = cacheSize) :
    packf buffer cacheSize "%*hhu%*hhu%*hhu%u%*hhu".toList cache.packArgs =
      some ((cacheSize : ℤ), cache.image) := by
  have hchecksum :
      itemsSize [Item.checksum cache.checksum cache.checksum_size] = sha1Digestsize := by
    simp only [itemsSize, List.map_cons, List.map_nil, List.sum_cons, List.sum_nil, Item.checksum,
      Item.size_uchars, cache.checksum_size]
    rfl
  have hbytes : itemsBytes [Item.checksum cache.checksum cache.checksum_size] = cache.checksum := by
    simp only [itemsBytes, List.flatMap_cons, List.flatMap_nil, List.append_nil, Item.checksum,
      Item.bytes_uchars]
  have hobject : buffer.length < 2 ^ 63 := hbuffer.trans_lt (by decide)
  have hdrop : buffer.drop (772 + sha1Digestsize) = [] := List.drop_eq_nil_of_le hbuffer.le
  have hpack := @packf_both (itemsSources cache.items)
    (itemsSources [.checksum cache.checksum cache.checksum_size])
    ⟨buffer, cacheSize, hbuffer.ge, hobject⟩ (by
      rw [sourceConvs_append, totalCopied_append, totalCopied_itemsSources,
        totalCopied_itemsSources, cache.items_size, hchecksum]
      exact Nat.le_refl cacheSize)
  rw [formatOf_itemsSources, formatOf_itemsSources, sourceArgs_itemsSources,
    sourceArgs_itemsSources, sourceBytes_itemsSources, sourceBytes_itemsSources,
    totalCopied_itemsSources, totalCopied_itemsSources, cache.items_size, cache.items_bytes,
    hchecksum, hbytes, hdrop, List.append_nil] at hpack
  simp only [itemsPackArgs, FandCache.items, List.flatMap_cons, List.flatMap_nil, Item.path,
    Item.checksum, Item.packArgs_uchars, cache.pwm_size, cache.pwmEnable_size,
    cache.tempInput_size, cache.checksum_size, List.append_nil, List.cons_append,
    List.nil_append] at hpack
  exact hpack

/-- **Packing in parts.** For all well-formed formats with their arguments and every buffer that is
large enough, one call of `packf` with both returns the sum of what two calls return, the second at
the offset that the first returns, and leaves the same bytes. So what `cache_pack` writes in two
calls is what one call writes, and what the call of `unpackf` in `cache_unpack` reads. -/
theorem packf_append :
    (∀ (sources sources' : List Source) (buffer : Buffer),
      totalCopied (sourceConvs (sources ++ sources')) ≤ buffer.size →
      ∃ (n n' : ℕ) (first rest : List UInt8),
        packf buffer.bytes buffer.size (formatOf (sourceConvs sources)) (sourceArgs sources) =
          some ((n : ℤ), first) ∧
        packf (first.drop n) (buffer.size - n) (formatOf (sourceConvs sources'))
          (sourceArgs sources') = some ((n' : ℤ), rest) ∧
        packf buffer.bytes buffer.size
          (formatOf (sourceConvs sources) ++ formatOf (sourceConvs sources'))
          (sourceArgs sources ++ sourceArgs sources') =
            some (((n + n' : ℕ) : ℤ), first.take n ++ rest)) ∧
    ∀ (env : CacheEnv) (cache other : FandCache) (buffer : Vector UInt8 cacheSize),
      ∃ (stored : FandCache) (packed : List UInt8),
        cachePack env cache buffer.toList cacheSize = some ((cacheSize : ℤ), packed) ∧
        packf buffer.toList cacheSize "%*hhu%*hhu%*hhu%u%*hhu".toList stored.packArgs =
          some ((cacheSize : ℤ), packed) ∧
        cacheUnpackf packed cacheSize other = some ((cacheSize : ℤ), stored) ∧
        stored.body = cache.body ∧ stored.checksum = Fips180.sha1 cache.body := by
  refine ⟨?_, ?_⟩
  · intro sources sources' buffer hroom
    refine ⟨_, _, _, _, packf_first sources sources' hroom, packf_second sources sources' hroom, ?_⟩
    rw [packf_both sources sources' hroom, List.take_left' (length_sourceBytes sources)]
  · intro env cache other buffer
    have hbuffer : buffer.toList.length = cacheSize := Vector.length_toList
    exact ⟨cache.stored, cache.stored.image, cachePack_eq env cache hbuffer,
      packf_image cache.stored hbuffer, cacheUnpackf_image cache.stored other, rfl, rfl⟩

/-- An array of two and an `int` -/
theorem packf_append_two :
    packf (List.replicate 7 0) 7 ("%*hhu".toList ++ "%d".toList)
        ([.integral 2, .pointer 0x1000 [7, 8]] ++ [.integral 30]) =
      some (6, [7, 8, 30, 0, 0, 0, 0]) ∧
    ∃ (n n' : ℕ) (first rest : List UInt8),
      packf (List.replicate 7 0) 7 "%*hhu".toList [.integral 2, .pointer 0x1000 [7, 8]] =
        some ((n : ℤ), first) ∧
      packf (first.drop n) (7 - n) "%d".toList [.integral 30] = some ((n' : ℤ), rest) ∧
      n + n' = 6 ∧ first.take n ++ rest = [7, 8, 30, 0, 0, 0, 0] := by
  have hwhole : packf (List.replicate 7 0) 7 ("%*hhu".toList ++ "%d".toList)
      ([.integral 2, .pointer 0x1000 [7, 8]] ++ [.integral 30]) =
        some (6, [7, 8, 30, 0, 0, 0, 0]) := by decide
  obtain ⟨n, n', first, rest, hfirst, hsecond, hboth⟩ := packf_append.1
    [⟨⟨.hhu, some 2, by simp, by simp⟩, 0x1000, [7, 8], fun _ => by decide⟩]
    [(Item.scalar .d 30).source]
    ⟨List.replicate 7 0, 7, by decide, by decide⟩ (by decide)
  have heq := hwhole.symm.trans hboth
  obtain ⟨hret, hbytes⟩ := Prod.mk.inj (Option.some.inj heq)
  exact ⟨hwhole, n, n', first, rest, hfirst, hsecond, by omega, hbytes.symm⟩

end AmdgpuFand
