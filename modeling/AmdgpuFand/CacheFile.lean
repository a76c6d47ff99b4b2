import AmdgpuFand.Cache

/-!
# Which cache files are accepted

`Cache.lean` says what `cache_load` makes of a file that `cache_write` has left. Here the file is
any bytes at all. The record is overwritten and its strings are terminated before anything is
checked, the checksum is computed over the buffer and compared with the one in the record, and the
length is checked three times; `cacheLoad_exact` says what all of this comes to.

`cacheUnpack_agrees` compares the two ways of reading: the copy that the daemon makes, and the call
of `unpackf` that the fuzz target makes instead.
-/

namespace AmdgpuFand

/-! ## The parts of a file -/

/-- Path field `k` of a file, cut at its first NUL or at byte 255 -/
def cachedPath (content : List UInt8) (k : ℕ) : List UInt8 :=
  pathOf ((content.drop (k * hwmonPathSize)).take (hwmonPathSize - 1))

/-- The index of the card in a file -/
def cachedCardIdx (content : List UInt8) : UInt32 :=
  UInt32.ofNat (Memory.leValue ((content.drop (3 * hwmonPathSize)).take 4))

/-- The part of a file that the checksum is about -/
def cachedBody (content : List UInt8) : List UInt8 :=
  content.take (cacheSize - sha1Digestsize)

/-- The checksum behind it -/
def cachedChecksum (content : List UInt8) : List UInt8 :=
  (content.drop (cacheSize - sha1Digestsize)).take sha1Digestsize

/-- The file is whole and its paths are those of regular files under `/sys/`. -/
structure CacheEnv.Intact (env : CacheEnv) (content : List UInt8) : Prop where
  size : cacheSize ≤ content.length
  checksum : Fips180.sha1 (cachedBody content) = cachedChecksum content
  regular : ∀ k, k < 3 → env.fileExists (cachedPath content k) = true
  stem : ∀ k, k < 3 → sysfsStem <+: cachedPath content k

/-- The paths and the index are in the part with the checksum. -/
theorem cachedPath_body (content : List UInt8) {k : ℕ} (hk : k < 3) :
    cachedPath (cachedBody content) k = cachedPath content k := by
  have hle : k * 256 + 255 ≤ 772 := by omega
  rw [cachedPath, cachedPath, cachedBody, List.drop_take, List.take_take]
  congr 2
  change min 255 (772 - k * 256) = 255
  omega

theorem cachedCardIdx_body (content : List UInt8) :
    cachedCardIdx (cachedBody content) = cachedCardIdx content := by
  rw [cachedCardIdx, cachedCardIdx, cachedBody, List.drop_take, List.take_take]
  rfl

/-! ## A record at the front of a file -/

theorem sha1_stored (cache : FandCache) :
    Fips180.sha1 cache.stored.body = cache.stored.checksum := rfl

section Image

variable (stored : FandCache) (rest : List UInt8)

theorem cachedBody_image : cachedBody (stored.image ++ rest) = stored.body := by
  have hbody : stored.body.length = cacheSize - sha1Digestsize := stored.body_length
  rw [cachedBody, FandCache.image, List.append_assoc, List.take_left' hbody]

theorem cachedChecksum_image : cachedChecksum (stored.image ++ rest) = stored.checksum := by
  have hbody : stored.body.length = cacheSize - sha1Digestsize := stored.body_length
  rw [cachedChecksum, FandCache.image, List.append_assoc, List.drop_left' hbody,
    List.take_left' stored.checksum_size]

/-- A field that stands behind `front` in a record -/
theorem cachedPath_between {content front cells back : List UInt8} {k : ℕ}
    (hcontent : content = front ++ cells ++ back) (hfront : front.length = k * hwmonPathSize)
    (hcells : cells.length = hwmonPathSize) :
    cachedPath content k = pathOf (cells.set (hwmonPathSize - 1) 0) := by
  rw [pathOf_terminated hcells, cachedPath, hcontent, List.append_assoc, List.drop_left' hfront,
    List.take_append_of_le_length (by rw [hcells]; decide)]

theorem cachedPath_image :
    cachedPath (stored.image ++ rest) 0 = pathOf stored.terminate.pwm ∧
      cachedPath (stored.image ++ rest) 1 = pathOf stored.terminate.pwmEnable ∧
      cachedPath (stored.image ++ rest) 2 = pathOf stored.terminate.tempInput := by
  refine ⟨?_, ?_, ?_⟩
  · refine @cachedPath_between _ [] stored.pwm (stored.pwmEnable ++ stored.tempInput ++
      stored.cardBytes ++ stored.checksum ++ rest) 0 ?_ rfl stored.pwm_size
    simp only [FandCache.image, FandCache.body, List.append_assoc, List.nil_append]
  · refine @cachedPath_between _ stored.pwm stored.pwmEnable (stored.tempInput ++
      stored.cardBytes ++ stored.checksum ++ rest) 1 ?_ stored.pwm_size stored.pwmEnable_size
    simp only [FandCache.image, FandCache.body, List.append_assoc]
  · refine @cachedPath_between _ (stored.pwm ++ stored.pwmEnable) stored.tempInput
      (stored.cardBytes ++ stored.checksum ++ rest) 2 ?_ ?_ stored.tempInput_size
    · simp only [FandCache.image, FandCache.body, List.append_assoc]
    · rw [List.length_append, stored.pwm_size, stored.pwmEnable_size]
      rfl

theorem cachedCardIdx_image : cachedCardIdx (stored.image ++ rest) = stored.cardIdx := by
  have hfront : (stored.pwm ++ stored.pwmEnable ++ stored.tempInput).length =
      3 * hwmonPathSize := by
    rw [List.length_append, List.length_append, stored.pwm_size, stored.pwmEnable_size,
      stored.tempInput_size]
    rfl
  rw [cachedCardIdx, FandCache.image, FandCache.body, List.append_assoc, List.append_assoc,
    List.drop_left' hfront, List.take_left' stored.cardBytes_length, stored.leValue_cardBytes]

/-- A record is accepted if its file is intact. -/
theorem accepts_iff_intact (env : CacheEnv) :
    env.Accepts stored ↔ env.Intact (stored.image ++ rest) := by
  obtain ⟨hpwm, hpwmEnable, htempInput⟩ := cachedPath_image stored rest
  have hcheck : ∀ path, cacheFileExistsInSysfs env path = true ↔
      env.fileExists path = true ∧ sysfsStem <+: path := by
    intro path
    rw [cacheFileExistsInSysfs, Bool.and_eq_true, beq_iff_eq, List.prefix_iff_eq_take,
      eq_comm (a := sysfsStem)]
  rw [CacheEnv.Accepts, hcheck, hcheck, hcheck, ← hpwm, ← hpwmEnable, ← htempInput]
  refine ⟨?_, ?_⟩
  · rintro ⟨hsum, ⟨hfile₀, hstem₀⟩, ⟨hfile₁, hstem₁⟩, hfile₂, hstem₂⟩
    refine ⟨?_, ?_, fun k hk => ?_, fun k hk => ?_⟩
    · rw [List.length_append, stored.image_length]
      exact Nat.le_add_right _ _
    · rw [cachedBody_image, cachedChecksum_image, hsum]
    · interval_cases k
      · exact hfile₀
      · exact hfile₁
      · exact hfile₂
    · interval_cases k
      · exact hstem₀
      · exact hstem₁
      · exact hstem₂
  · intro h
    have hsum := h.checksum
    rw [cachedBody_image, cachedChecksum_image] at hsum
    exact ⟨hsum, ⟨h.regular 0 (by decide), h.stem 0 (by decide)⟩,
      ⟨h.regular 1 (by decide), h.stem 1 (by decide)⟩, h.regular 2 (by decide),
      h.stem 2 (by decide)⟩

end Image

/-! ## Every file -/

/-- A file that is long enough begins with the bytes of a record. -/
theorem exists_image_append {content : List UInt8} (h : cacheSize ≤ content.length) :
    ∃ (stored : FandCache) (rest : List UInt8), content = stored.image ++ rest := by
  obtain ⟨stored, hstored⟩ := FandCache.exists_image (List.length_take_of_le h)
  exact ⟨stored, content.drop cacheSize, by rw [hstored, List.take_append_drop]⟩

section Load

variable {env : CacheEnv} (hreadable : env.readable = true) (content : List UInt8)
  (other : FandCache)

include hreadable

/-- `cache_load` returns, and returns 0 for the intact files. -/
theorem cacheLoad_status :
    ∃ status loaded, cacheLoad env (some content) other = some (status, loaded) ∧
      (status = 0 ↔ env.Intact content) := by
  by_cases hsize : cacheSize ≤ content.length
  · obtain ⟨stored, rest, rfl⟩ := exists_image_append hsize
    refine ⟨_, _, cacheLoad_image stored other rest hreadable, ?_⟩
    rw [← accepts_iff_intact]
    split_ifs with haccepts
    · exact iff_of_true rfl haccepts
    · exact iff_of_false (by decide) haccepts
  · have hshort : (content.take cacheSize).length ≠ cacheSize := by
      rw [List.length_take]
      omega
    refine ⟨-1, other, ?_, iff_of_false (by decide) fun h => hsize h.size⟩
    simp only [cacheLoad, hreadable, not_true_eq_false, if_false, if_pos hshort]

/-- What is live behind a successful `cache_load` -/
theorem cacheLoad_live {loaded : FandCache}
    (hload : cacheLoad env (some content) other = some (0, loaded)) :
    pathOf loaded.pwm = cachedPath content 0 ∧ pathOf loaded.pwmEnable = cachedPath content 1 ∧
      pathOf loaded.tempInput = cachedPath content 2 ∧
      loaded.cardIdx = cachedCardIdx content := by
  obtain ⟨status, loaded', hload', hstatus⟩ := cacheLoad_status hreadable content other
  rw [hload] at hload'
  cases hload'
  obtain ⟨stored, rest, rfl⟩ := exists_image_append (hstatus.mp rfl).size
  rw [cacheLoad_image stored other rest hreadable] at hload
  obtain ⟨-, rfl⟩ := Prod.mk.inj (Option.some.inj hload)
  obtain ⟨hpwm, hpwmEnable, htempInput⟩ := cachedPath_image stored rest
  exact ⟨hpwm.symm, hpwmEnable.symm, htempInput.symm, (cachedCardIdx_image stored rest).symm⟩

end Load

/-- **What the cache accepts.** For every content of the file, `cache_load` returns 0 if and only
if the file is long enough, the checksum is right and the three paths are those of regular files
under `/sys/`; then the paths and the index of the card are the ones of the file. Two files that
are accepted with the same checksum, but not with the same paths and index, are a collision. -/
theorem cacheLoad_exact (env : CacheEnv) (hreadable : env.readable = true) (content : List UInt8)
    (other : FandCache) :
    (∃ status loaded, cacheLoad env (some content) other = some (status, loaded) ∧
      (status = 0 ↔ env.Intact content)) ∧
    ∀ loaded, cacheLoad env (some content) other = some (0, loaded) →
      (pathOf loaded.pwm = cachedPath content 0 ∧ pathOf loaded.pwmEnable = cachedPath content 1 ∧
        pathOf loaded.tempInput = cachedPath content 2 ∧
        loaded.cardIdx = cachedCardIdx content) ∧
      ∀ (env' : CacheEnv) (content' : List UInt8) (other' loaded' : FandCache),
        env'.readable = true → cacheLoad env' (some content') other' = some (0, loaded') →
        cachedChecksum content = cachedChecksum content' →
        ¬ (pathOf loaded.pwm = pathOf loaded'.pwm ∧
          pathOf loaded.pwmEnable = pathOf loaded'.pwmEnable ∧
          pathOf loaded.tempInput = pathOf loaded'.tempInput ∧
          loaded.cardIdx = loaded'.cardIdx) →
        cachedBody content ≠ cachedBody content' ∧
          Fips180.sha1 (cachedBody content) = Fips180.sha1 (cachedBody content') := by
  refine ⟨cacheLoad_status hreadable content other, fun loaded hload => ?_⟩
  have hlive := cacheLoad_live hreadable content other hload
  refine ⟨hlive, fun env' content' other' loaded' hreadable' hload' hsum hdiffer => ?_⟩
  have hlive' := cacheLoad_live hreadable' content' other' hload'
  have hintact : ∀ {env : CacheEnv} {content : List UInt8} {other loaded : FandCache},
      env.readable = true → cacheLoad env (some content) other = some (0, loaded) →
      env.Intact content := by
    intro env content other loaded hreadable hload
    obtain ⟨status, loaded', hload', hstatus⟩ := cacheLoad_status hreadable content other
    rw [hload] at hload'
    cases hload'
    exact hstatus.mp rfl
  refine ⟨?_, ?_⟩
  · intro hbody
    -- equal bodies have equal paths and card indices
    have hpath : ∀ k, k < 3 → cachedPath content k = cachedPath content' k := by
      intro k hk
      rw [← cachedPath_body content hk, hbody, cachedPath_body content' hk]
    have hcard : cachedCardIdx content = cachedCardIdx content' := by
      rw [← cachedCardIdx_body content, hbody, cachedCardIdx_body content']
    refine hdiffer ⟨?_, ?_, ?_, ?_⟩
    · rw [hlive.1, hlive'.1, hpath 0 (by decide)]
    · rw [hlive.2.1, hlive'.2.1, hpath 1 (by decide)]
    · rw [hlive.2.2.1, hlive'.2.2.1, hpath 2 (by decide)]
    · rw [hlive.2.2.2, hlive'.2.2.2, hcard]
  · rw [(hintact hreadable hload).checksum, (hintact hreadable' hload').checksum, hsum]

/-- A record with the right checksum, and another file behind it -/
theorem cacheLoad_exact_stored :
    let env : CacheEnv :=
      { padded := true
        fileExists := fun file => file == pathOf shortPath
        dirExists := true
        mkdirOk := false
        writable := true
        written := cacheSize
        closeOk := true
        readable := true
        ctx := ⟨0, 0, 0, 0, 0, 0, 0, List.replicate 64 0xff, rfl⟩
        buffer := List.replicate cacheSize 0xff
        buffer_size := List.length_replicate
        written_le := le_rfl }
    let cache : FandCache := ⟨shortPath, shortPath, shortPath, 3, List.replicate 20 0,
      shortPath_size, shortPath_size, shortPath_size, rfl⟩
    ∃ loaded, cacheLoad env (some (cache.stored.image ++ [0xff])) cache = some (0, loaded) ∧
      loaded.cardIdx = 3 := by
  intro env cache
  have haccepts : env.Accepts cache.stored :=
    ⟨sha1_stored cache, by decide, by decide, by decide⟩
  have hexact := cacheLoad_exact env rfl (cache.stored.image ++ [0xff]) cache
  obtain ⟨⟨status, loaded, hload, hstatus⟩, hlive⟩ := hexact
  obtain rfl := hstatus.mpr ((accepts_iff_intact cache.stored [0xff] env).mp haccepts)
  refine ⟨loaded, hload, ?_⟩
  rw [(hlive loaded hload).1.2.2.2, cachedCardIdx_image]
  rfl

/-! ## Two ways of reading -/

/-- **Copying and unpacking agree.** On every buffer of `CACHE_SIZE` bytes, and whatever the record
held before, `cache_unpack` returns the same value and leaves the same record, whether
`struct fand_cache` counts as padded or not. -/
theorem cacheUnpack_agrees (env : CacheEnv) (buffer : Vector UInt8 cacheSize) (cache : FandCache) :
    ∃ nbytes loaded,
      cacheUnpack { env with padded := false } buffer.toList cacheSize cache =
        some (nbytes, loaded) ∧
      cacheUnpack { env with padded := true } buffer.toList cacheSize cache =
        some (nbytes, loaded) := by
  have hsize : buffer.toList.length = cacheSize := Vector.length_toList
  obtain ⟨stored, hstored⟩ := FandCache.exists_image hsize
  rw [← hstored]
  exact ⟨cacheSize, stored.terminate, cacheUnpack_image _ stored cache,
    cacheUnpack_image _ stored cache⟩

end AmdgpuFand
