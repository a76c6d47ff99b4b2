import AmdgpuFand.Hwmon
import AmdgpuFand.Lib.Process

/-!
# One start after another

The cache file outlives the daemon: what `hwmon_open` leaves in it is what the next start finds.
Between two starts everything else may change. A start may find the file unreadable, fail to write
it or write only the beginning of its record, run out of memory in `regcomp` or fail at the last
step, behind the cache; what its local buffers hold is arbitrary.

The cache is there to save a search through sysfs, and must not change what is found.
`restart_finds_same` says that it does not, for every sequence of starts on the same sysfs that
begins without a cache. `restart_from_cache` is about what is saved: as long as the three files are
there, no start looks at the directories again, and none writes the cache.
-/

namespace AmdgpuFand

open Process

/-! ## Starts -/

/-- A start of the daemon: its environment, up to the cache file, and what its record holds before
`hwmon_open` -/
structure Start where
  env : HwmonEnv
  record : FandCache

/-- The environment with the cache file that the start finds -/
def Start.finding (start : Start) (file : Option (List UInt8)) : HwmonEnv :=
  { start.env with file := file }

/-- `hwmon_open` in a start that finds this cache file -/
def Start.opened (start : Start) (file : Option (List UInt8)) :
    Option (ℤ × FandCache × Option (List UInt8)) :=
  hwmonOpen (start.finding file) start.record

/-- The cache file that a start leaves -/
def leaveCache (file : Option (List UInt8)) (start : Start) : Option (Option (List UInt8)) :=
  (start.opened file).map fun result => result.2.2

/-- What `hwmon_open` looks for is in the same places. -/
structure HwmonEnv.SameSysfs (env env' : HwmonEnv) : Prop where
  fileExists : env.cacheEnv.fileExists = env'.cacheEnv.fileExists
  listing : env.listing = env'.listing
  realpath : env.realpath = env'.realpath

/-- Two records with the same paths -/
def FandCache.SamePaths (cache cache' : FandCache) : Prop :=
  pathOf cache.pwm = pathOf cache'.pwm ∧ pathOf cache.pwmEnable = pathOf cache'.pwmEnable ∧
    pathOf cache.tempInput = pathOf cache'.tempInput

/-- The files of one directory are the same files. -/
theorem FandCache.InDir.samePaths {cache cache' : FandCache} {dir : List UInt8}
    (h : cache.InDir dir) (h' : cache'.InDir dir) : cache.SamePaths cache' :=
  ⟨h.1.trans h'.1.symm, h.2.1.trans h'.2.1.symm, h.2.2.trans h'.2.2.symm⟩

/-! ## The directory that is found

`hwmon_detect_iface_dir` takes the first entry that matches, so it cannot tell a directory from one
that holds nothing but this entry. There the directory of the sensors is unique.
-/

/-- The environment where every directory holds the first entry that matches, and nothing else -/
def HwmonEnv.first (env : HwmonEnv) : HwmonEnv :=
  { env with
    listing := fun dir =>
      (env.listing dir).map fun entries => (entries.find? hwmonMatch).toList
    names := by
      intro dir entries h name hname
      obtain ⟨entries', hlisting, rfl⟩ := Option.map_eq_some_iff.mp h
      exact env.names dir entries' hlisting name
        (List.mem_of_find?_eq_some (Option.mem_toList.mp hname)) }

/-- The card, and the directory of its sensors -/
def HwmonEnv.SensorDir (env : HwmonEnv) (idx : ℕ) (dir : List UInt8) : Prop :=
  env.IsCardIndex idx ∧ ∃ entries name, env.listing (hwmonDir idx) = some entries ∧
    entries.find? hwmonMatch = some name ∧ env.realpath (hwmonDir idx ++ name) = some dir

section First

variable {env : HwmonEnv}

/-- There is one card that is looked at, and one directory on it. -/
theorem HwmonEnv.SensorDir.unique {idx idx' : ℕ} {dir dir' : List UInt8}
    (h : env.SensorDir idx dir) (h' : env.SensorDir idx' dir') : idx = idx' ∧ dir = dir' := by
  obtain ⟨hidx, entries, name, hlisting, hfind, hreal⟩ := h
  obtain ⟨hidx', entries', name', hlisting', hfind', hreal'⟩ := h'
  obtain rfl := hidx.unique hidx'
  rw [hlisting'] at hlisting
  cases hlisting
  rw [hfind'] at hfind
  cases hfind
  rw [hreal'] at hreal
  cases hreal
  exact ⟨rfl, rfl⟩

theorem HwmonEnv.SensorDir.of_same {env' : HwmonEnv} (hsame : env'.SameSysfs env) {idx : ℕ}
    {dir : List UInt8} (h : env.SensorDir idx dir) : env'.SensorDir idx dir := by
  obtain ⟨⟨hlt, hexists, hlower⟩, entries, name, hlisting, hfind, hreal⟩ := h
  refine ⟨⟨hlt, ?_, fun j hj => ?_⟩, entries, name, ?_, hfind, ?_⟩
  · rw [hsame.fileExists, hexists]
  · rw [hsame.fileExists, hlower j hj]
  · rw [hsame.listing, hlisting]
  · rw [hsame.realpath, hreal]

/-- A card with such a directory has an entry for its sensors. -/
theorem HwmonEnv.SensorDir.hasEntry {idx : ℕ} {dir : List UInt8} (h : env.SensorDir idx dir) :
    ∀ idx', env.IsCardIndex idx' → ¬ env.NoEntry idx' := by
  obtain ⟨hidx, entries, name, hlisting, hfind, -⟩ := h
  rintro idx' hidx' ⟨entries', hlisting', hnone⟩
  obtain rfl := hidx.unique hidx'
  rw [hlisting] at hlisting'
  cases hlisting'
  exact hnone name (List.mem_of_find?_eq_some hfind)
    ((hwmonMatch_iff name).mp (List.find?_some hfind))

theorem find?_first (entries : List (List UInt8)) :
    (entries.find? hwmonMatch).toList.find? hwmonMatch = entries.find? hwmonMatch := by
  rcases hfind : entries.find? hwmonMatch with _ | name
  · rfl
  · exact List.find?_cons_of_pos (List.find?_some hfind)

/-- The entries behind the first that matches do not change the search. -/
theorem hwmonDetectIfaceDir_first (dst : List UInt8) (idx dstsize : ℕ) :
    hwmonDetectIfaceDir env.first dst idx dstsize = hwmonDetectIfaceDir env dst idx dstsize := by
  simp only [hwmonDetectIfaceDir, HwmonEnv.first]
  rcases hlisting : env.listing (hwmonDir idx) with _ | entries
  · rfl
  · simp only [Option.map_some, find?_first]
    rfl

/-- An entry of a directory with the first entry only -/
theorem HwmonEnv.IsIfaceDir.of_first {idx : ℕ} {dir : List UInt8}
    (hidx : env.IsCardIndex idx) (h : env.first.IsIfaceDir idx dir) : env.SensorDir idx dir := by
  obtain ⟨entries, name, hlisting, hmem, -, hreal⟩ := h
  obtain ⟨entries', hlisting', rfl⟩ := Option.map_eq_some_iff.mp hlisting
  exact ⟨hidx, entries', name, hlisting', Option.mem_toList.mp hmem, hreal⟩

theorem HwmonEnv.NoEntry.of_first {idx : ℕ} (h : env.first.NoEntry idx) : env.NoEntry idx := by
  obtain ⟨entries, hlisting, hnone⟩ := h
  obtain ⟨entries', hlisting', rfl⟩ := Option.map_eq_some_iff.mp hlisting
  refine ⟨entries', hlisting', fun name hname hmatch => ?_⟩
  rw [← hwmonMatch_iff] at hmatch
  obtain ⟨found, hfound⟩ := Option.isSome_iff_exists.mp
    (List.find?_isSome.mpr ⟨name, hname, hmatch⟩)
  refine hnone found (Option.mem_toList.mpr hfound) ?_
  exact (hwmonMatch_iff found).mp (List.find?_some hfound)

end First

/-! ## What is remembered -/

/-- A buffer that is longer than its string holds a NUL. -/
theorem zero_mem_of_pathOf_lt {cells : List UInt8} (h : (pathOf cells).length < cells.length) :
    0 ∈ cells := by
  by_contra hno
  have hall : pathOf cells = cells := by
    rw [pathOf, List.takeWhile_eq_self_iff]
    intro b hb
    rw [decide_eq_true_iff]
    rintro rfl
    exact hno hb
  rw [hall] at h
  exact lt_irrefl _ h

/-- Paths that fit are not cut by `cache_unpack`. -/
theorem FandCache.InDir.terminate {cache : FandCache} {dir : List UInt8} (h : cache.InDir dir)
    (hfits : FitsDir dir) : cache.terminate.InDir dir := by
  have hroom : dir.length + 12 < hwmonPathSize := hfits
  have hpath : ∀ {cells name : List UInt8}, cells.length = hwmonPathSize → name.length ≤ 12 →
      pathOf cells = dir ++ name → pathOf (cells.set (hwmonPathSize - 1) 0) = dir ++ name := by
    intro cells name hcells hname hcut
    rw [← hcut]
    refine pathOf_set_last (zero_mem_of_pathOf_lt ?_) hcells
    rw [hcut, List.length_append, hcells]
    omega
  exact ⟨hpath cache.pwm_size (by decide) h.1, hpath cache.pwmEnable_size (by decide) h.2.1,
    hpath cache.tempInput_size (by decide) h.2.2⟩

/-- The file begins with a record of the card and the files in the directory. Its checksum may be
wrong, and what stands behind the strings may be anything. -/
def HoldsCard (file : Option (List UInt8)) (idx : ℕ) (dir : List UInt8) : Prop :=
  ∃ (cache : FandCache) (rest : List UInt8), file = some (cache.image ++ rest) ∧
    cache.terminate.InDir dir ∧ cache.cardIdx = UInt32.ofNat idx

/-- Such a record with the right checksum -/
def HoldsIntact (file : Option (List UInt8)) (idx : ℕ) (dir : List UInt8) : Prop :=
  ∃ (cache : FandCache) (rest : List UInt8), file = some (cache.stored.image ++ rest) ∧
    cache.terminate.InDir dir ∧ cache.cardIdx = UInt32.ofNat idx

/-- An intact record is a record. -/
theorem HoldsIntact.holdsCard {file : Option (List UInt8)} {idx : ℕ} {dir : List UInt8}
    (h : HoldsIntact file idx dir) : HoldsCard file idx dir := by
  obtain ⟨cache, rest, hfile, hdir, hcard⟩ := h
  exact ⟨cache.stored, rest, hfile, hdir, hcard⟩

/-! ### A record over another

A `write` that does not take all the bytes leaves the beginning of the new record in front of the
end of the old one, and the checksum is that of neither. But if both are records of the same card
and the same files, so is what has become of them: up to their NULs the strings are the same. -/

section Overwrite

variable (n : ℕ)

/-- Two pieces that stand behind each other in both -/
theorem overwrite_append {bytes content : List UInt8} (h : bytes.length = content.length)
    (more rest : List UInt8) :
    overwrite n (bytes ++ more) (content ++ rest) =
      overwrite n bytes content ++ overwrite (n - bytes.length) more rest := by
  rw [overwrite, overwrite, overwrite, List.take_append, List.drop_append, ← h]
  rcases le_total n bytes.length with hle | hle
  · rw [Nat.sub_eq_zero_of_le hle, List.take_zero, List.append_nil, List.nil_append,
      List.append_assoc]
  · rw [List.drop_eq_nil_of_le (h ▸ hle), List.nil_append, List.append_nil, List.append_assoc]

theorem overwrite_self (bytes : List UInt8) : overwrite n bytes bytes = bytes :=
  List.take_append_drop n bytes

theorem length_overwrite {bytes content : List UInt8} (h : bytes.length = content.length) :
    (overwrite n bytes content).length = content.length := by
  rw [overwrite, List.length_append, List.length_take, List.length_drop]
  omega

/-- Buffers with the same string -/
theorem pathOf_overwrite {cells cells' : List UInt8} (hlength : cells.length = cells'.length)
    (h : pathOf cells = pathOf cells') : pathOf (overwrite n cells cells') = pathOf cells' := by
  induction n generalizing cells cells' with
  | zero => rfl
  | succ n ih =>
    rcases cells with _ | ⟨b, cells⟩ <;> rcases cells' with _ | ⟨b', cells'⟩
    · rfl
    · cases hlength
    · cases hlength
    · have hcons : overwrite (n + 1) (b :: cells) (b' :: cells') =
          b :: overwrite n cells cells' := rfl
      rw [hcons]
      by_cases hb : b = 0
      · by_cases hb' : b' = 0
        · subst hb hb'
          rfl
        · rw [pathOf, pathOf, List.takeWhile_cons_of_neg (by simp [hb]),
            List.takeWhile_cons_of_pos (by simp [hb'])] at h
          cases h
      · by_cases hb' : b' = 0
        · rw [pathOf, pathOf, List.takeWhile_cons_of_pos (by simp [hb]),
            List.takeWhile_cons_of_neg (by simp [hb'])] at h
          cases h
        · rw [pathOf, pathOf, List.takeWhile_cons_of_pos (by simp [hb]),
            List.takeWhile_cons_of_pos (by simp [hb'])] at h
          obtain ⟨rfl, hrest⟩ := List.cons.inj h
          rw [pathOf, pathOf, List.takeWhile_cons_of_pos (by simp [hb]),
            List.takeWhile_cons_of_pos (by simp [hb])]
          exact congrArg (b :: ·) (ih (Nat.succ.inj hlength) hrest)

/-- The same for the buffers that `cache_unpack` terminates -/
theorem pathOf_overwrite_terminated {cells cells' : List UInt8}
    (hcells : cells.length = hwmonPathSize) (hcells' : cells'.length = hwmonPathSize)
    (h : pathOf (cells.set (hwmonPathSize - 1) 0) = pathOf (cells'.set (hwmonPathSize - 1) 0)) :
    pathOf ((overwrite n cells cells').set (hwmonPathSize - 1) 0) =
      pathOf (cells'.set (hwmonPathSize - 1) 0) := by
  have hlength : (cells.take (hwmonPathSize - 1)).length =
      (cells'.take (hwmonPathSize - 1)).length := by
    rw [List.length_take, List.length_take, hcells, hcells']
  have hsplit := overwrite_append n hlength (cells.drop (hwmonPathSize - 1))
    (cells'.drop (hwmonPathSize - 1))
  rw [List.take_append_drop, List.take_append_drop] at hsplit
  have htake : (overwrite n cells cells').take (hwmonPathSize - 1) =
      overwrite n (cells.take (hwmonPathSize - 1)) (cells'.take (hwmonPathSize - 1)) := by
    rw [hsplit, List.take_left']
    rw [length_overwrite n hlength, List.length_take, hcells']
    rfl
  have hsize : (overwrite n cells cells').length = hwmonPathSize := by
    rw [length_overwrite n (hcells.trans hcells'.symm), hcells']
  rw [pathOf_terminated hcells, pathOf_terminated hcells'] at h
  rw [pathOf_terminated hsize, pathOf_terminated hcells', htake, pathOf_overwrite n hlength h]

/-- The fields of a record are overwritten one after the other. -/
theorem FandCache.exists_overwrite (cache kept : FandCache) (hcard : cache.cardIdx = kept.cardIdx) :
    ∃ mixed : FandCache, overwrite n cache.image kept.image = mixed.image ∧
      mixed.pwm = overwrite n cache.pwm kept.pwm ∧
      mixed.pwmEnable = overwrite (n - hwmonPathSize) cache.pwmEnable kept.pwmEnable ∧
      mixed.tempInput =
        overwrite (n - (hwmonPathSize + hwmonPathSize)) cache.tempInput kept.tempInput ∧
      mixed.cardIdx = kept.cardIdx := by
  have hpwm := cache.pwm_size.trans kept.pwm_size.symm
  have hpwmEnable := cache.pwmEnable_size.trans kept.pwmEnable_size.symm
  have htempInput := cache.tempInput_size.trans kept.tempInput_size.symm
  have hchecksum := cache.checksum_size.trans kept.checksum_size.symm
  have hbytes : cache.cardBytes = kept.cardBytes := by
    rw [FandCache.cardBytes, FandCache.cardBytes, hcard]
  -- a member keeps its bytes from where the write stopped, counted from its own start
  refine ⟨⟨overwrite n cache.pwm kept.pwm,
    overwrite (n - hwmonPathSize) cache.pwmEnable kept.pwmEnable,
    overwrite (n - (hwmonPathSize + hwmonPathSize)) cache.tempInput kept.tempInput, kept.cardIdx,
    overwrite (n - 772) cache.checksum kept.checksum, ?_, ?_, ?_, ?_⟩, ?_, rfl, rfl, rfl, rfl⟩
  · rw [length_overwrite _ hpwm, kept.pwm_size]
  · rw [length_overwrite _ hpwmEnable, kept.pwmEnable_size]
  · rw [length_overwrite _ htempInput, kept.tempInput_size]
  · rw [length_overwrite _ hchecksum, kept.checksum_size]
  · have hpaths : (cache.pwm ++ cache.pwmEnable).length = (kept.pwm ++ kept.pwmEnable).length := by
      rw [List.length_append, hpwm, hpwmEnable, ← List.length_append]
    have hall : (cache.pwm ++ cache.pwmEnable ++ cache.tempInput).length =
        (kept.pwm ++ kept.pwmEnable ++ kept.tempInput).length := by
      rw [List.length_append, hpaths, htempInput, ← List.length_append]
    have hbody : overwrite n cache.body kept.body =
        overwrite n cache.pwm kept.pwm ++
          overwrite (n - hwmonPathSize) cache.pwmEnable kept.pwmEnable ++
          overwrite (n - (hwmonPathSize + hwmonPathSize)) cache.tempInput kept.tempInput ++
          kept.cardBytes := by
      rw [FandCache.body, FandCache.body, overwrite_append n hall, overwrite_append n hpaths,
        overwrite_append n hpwm, hbytes, overwrite_self, List.length_append, cache.pwm_size,
        cache.pwmEnable_size]
    rw [FandCache.image, FandCache.image,
      overwrite_append n (cache.body_length.trans kept.body_length.symm), cache.body_length, hbody]
    rfl

end Overwrite

/-- What `cache_write` leaves, whether it reports an error or not -/
theorem cacheWrite_leaves {env : CacheEnv} {cache : FandCache} {file file' : Option (List UInt8)}
    {status : ℤ} (h : cacheWrite env file cache = some (status, file')) :
    file' = file ∨ file' = some (overwrite env.written cache.stored.image (file.getD [])) := by
  have hsize : ¬ ((cacheSize : ℤ) < 0) := by decide
  simp only [cacheWrite, cachePack_eq env cache env.buffer_size, Option.bind_eq_bind,
    Option.bind_some, if_neg hsize] at h
  split_ifs at h <;> cases h
  · exact Or.inl rfl
  · exact Or.inr rfl
  · exact Or.inr rfl
  · exact Or.inl rfl

/-- A record of the card over another one, whatever part of it is written -/
theorem HoldsCard.cacheWrite {env : CacheEnv} {cache : FandCache} {file file' : Option (List UInt8)}
    {idx : ℕ} {dir : List UInt8} {status : ℤ} (hfile : HoldsCard file idx dir)
    (hfits : FitsDir dir) (hdir : cache.InDir dir) (hcard : cache.cardIdx = UInt32.ofNat idx)
    (h : cacheWrite env file cache = some (status, file')) : HoldsCard file' idx dir := by
  rcases cacheWrite_leaves h with rfl | rfl
  · exact hfile
  obtain ⟨kept, rest, rfl, hkept, hcard'⟩ := hfile
  obtain ⟨mixed, himage, hpwm, hpwmEnable, htempInput, hcardIdx⟩ :=
    cache.stored.exists_overwrite env.written kept (hcard.trans hcard'.symm)
  obtain ⟨hpwm', hpwmEnable', htempInput'⟩ := hdir.terminate hfits
  refine ⟨mixed, rest, ?_, ⟨?_, ?_, ?_⟩, hcardIdx.trans hcard'⟩
  · have hle : env.written ≤ kept.image.length := kept.image_length ▸ env.written_le
    rw [Option.getD_some, ← himage, overwrite, overwrite, List.drop_append_of_le_length hle,
      List.append_assoc]
  · rw [← hkept.1, show mixed.terminate.pwm = mixed.pwm.set (hwmonPathSize - 1) 0 from rfl, hpwm]
    exact pathOf_overwrite_terminated _ cache.pwm_size kept.pwm_size (hpwm'.trans hkept.1.symm)
  · rw [← hkept.2.1,
      show mixed.terminate.pwmEnable = mixed.pwmEnable.set (hwmonPathSize - 1) 0 from rfl,
      hpwmEnable]
    exact pathOf_overwrite_terminated _ cache.pwmEnable_size kept.pwmEnable_size
      (hpwmEnable'.trans hkept.2.1.symm)
  · rw [← hkept.2.2,
      show mixed.terminate.tempInput = mixed.tempInput.set (hwmonPathSize - 1) 0 from rfl,
      htempInput]
    exact pathOf_overwrite_terminated _ cache.tempInput_size kept.tempInput_size
      (htempInput'.trans hkept.2.2.symm)

/-- After a `cache_write` that reports no error, the record is there as a whole. -/
theorem holdsIntact_cacheWrite {env : CacheEnv} {cache : FandCache}
    {file file' : Option (List UInt8)} {idx : ℕ} {dir : List UInt8} {status : ℤ}
    (hfits : FitsDir dir) (hdir : cache.InDir dir) (hcard : cache.cardIdx = UInt32.ofNat idx)
    (h : cacheWrite env file cache = some (status, file')) (hok : 0 ≤ status) :
    HoldsIntact file' idx dir := by
  obtain ⟨hexists, hwritable, hwhole, hclose⟩ := cacheWrite_calls h hok
  rw [cacheWrite_eq cache file hexists hwritable hwhole hclose] at h
  cases h
  exact ⟨cache, _, rfl, hdir.terminate hfits, hcard⟩

section Detect

variable {env : HwmonEnv} {cache cache' : FandCache}

/-- A call of `hwmon_set_sysfs_paths` that reports no error has gone through all its steps. -/
theorem hwmonSetSysfsPaths_steps {status : ℤ}
    (h : hwmonSetSysfsPaths env cache = some (status, cache')) (hok : 0 ≤ status) :
    ∃ idx detected iface, env.IsCardIndex idx ∧
      hwmonDetectIfaceDir env env.iface idx hwmonPathSize = some (detected, iface) ∧
      0 ≤ detected ∧ FitsDir (pathOf iface) ∧ cache'.InDir (pathOf iface) ∧
      cache'.cardIdx = UInt32.ofNat idx := by
  obtain ⟨idx, hidx, hcard⟩ | ⟨-, hcard⟩ := hwmonDetectCardIndex_cases env
  · simp only [hwmonSetSysfsPaths, hcard, Int.toNat_natCast,
      if_neg (show ¬ (idx : ℤ) < 0 by omega)] at h
    obtain ⟨⟨detected, iface⟩, hdetect, h⟩ := Option.bind_eq_some_iff.mp h
    dsimp only at h
    split_ifs at h with hneg hiface
    · cases h
      exact absurd hneg (not_lt.mpr hok)
    · have hfits : FitsDir (pathOf iface) := by
        by_contra hbig
        have hneg' := FandCache.initPaths_big { cache with cardIdx := UInt32.ofNat idx } hbig
        rw [Option.some.inj h] at hneg'
        exact absurd hneg' (not_lt.mpr hok)
      obtain ⟨cache₁, hinit, hcardIdx, hdir⟩ :=
        FandCache.initPaths_fits { cache with cardIdx := UInt32.ofNat idx }
          (pathOf_zero_not_mem iface) hfits
      rw [hinit] at h
      cases h
      exact ⟨idx, detected, iface, hidx, hdetect, not_lt.mp hneg, hfits, hdir, hcardIdx⟩
  · simp only [hwmonSetSysfsPaths, hcard, if_pos (show (-1 : ℤ) < 0 by decide)] at h
    cases h
    exact absurd hok (by decide)

/-- If the card has an entry for its sensors, the search ends in its directory. -/
theorem hwmonSetSysfsPaths_sensors
    (hentry : ∀ idx, env.IsCardIndex idx → ¬ env.NoEntry idx) {status : ℤ}
    (h : hwmonSetSysfsPaths env cache = some (status, cache')) (hok : 0 ≤ status) :
    ∃ idx dir, env.SensorDir idx dir ∧ FitsDir dir ∧ cache'.InDir dir ∧
      cache'.cardIdx = UInt32.ofNat idx := by
  obtain ⟨idx, detected, iface, hidx, hdetect, hdetected, hfits, hdir, hcard⟩ :=
    hwmonSetSysfsPaths_steps h hok
  rw [← hwmonDetectIfaceDir_first] at hdetect
  obtain ⟨-, ⟨hnone, -⟩ | hfound⟩ :=
    hwmonDetectIfaceDir_ok hidx.1 env.iface_size hdetect hdetected
  · exact absurd hnone.of_first (hentry idx hidx)
  · exact ⟨idx, pathOf iface, hfound.of_first hidx, hfits, hdir, hcard⟩

/-- The search fails and leaves the file alone, or its paths are written to the cache. -/
theorem hwmonDetect_steps {status : ℤ} {file' : Option (List UInt8)}
    (h : hwmonDetect env cache = some (status, cache', file')) :
    status < 0 ∧ file' = env.file ∨
      ∃ found, hwmonSetSysfsPaths env cache = some (found, cache') ∧ 0 ≤ found ∧
        cacheWrite env.cacheEnv env.file cache' = some (status, file') := by
  rw [hwmonDetect] at h
  obtain ⟨⟨found, cache₁⟩, hset, h⟩ := Option.bind_eq_some_iff.mp h
  dsimp only at h
  split_ifs at h with hneg
  · cases h
    exact Or.inl ⟨hneg, rfl⟩
  · obtain ⟨⟨written, file₁⟩, hwrite, h⟩ := Option.bind_eq_some_iff.mp h
    cases h
    exact Or.inr ⟨found, hset, not_lt.mp hneg, hwrite⟩

/-- The search finds the directory of the sensors, and `cache_write` gets a record of it. -/
theorem hwmonDetect_sensors (hentry : ∀ idx, env.IsCardIndex idx → ¬ env.NoEntry idx) {status : ℤ}
    {file' : Option (List UInt8)} (h : hwmonDetect env cache = some (status, cache', file')) :
    status < 0 ∧ file' = env.file ∨
      ∃ idx dir, env.SensorDir idx dir ∧ FitsDir dir ∧ cache'.InDir dir ∧
        cache'.cardIdx = UInt32.ofNat idx ∧
        cacheWrite env.cacheEnv env.file cache' = some (status, file') := by
  obtain hfail | ⟨found, hset, hok, hwrite⟩ := hwmonDetect_steps h
  · exact Or.inl hfail
  · obtain ⟨idx, dir, hsensors, hfits, hdir, hcard⟩ := hwmonSetSysfsPaths_sensors hentry hset hok
    exact Or.inr ⟨idx, dir, hsensors, hfits, hdir, hcard, hwrite⟩

end Detect

/-! ## One start -/

/-- The value that `hwmon_open` returns for a card -/
theorem toInt_cardIdx {idx : ℕ} (h : idx < maxDriDirIdx) :
    (UInt32.ofNat idx).toBitVec.toInt = idx := by
  have hsmall : idx < 2 ^ 31 := lt_trans h (by decide)
  have hval : (UInt32.ofNat idx).toBitVec.toNat = idx :=
    UInt32.toNat_ofNat_of_lt' (show idx < 2 ^ 32 by omega)
  rw [BitVec.toInt_eq_toNat_of_lt (by rw [hval]; omega), hval]

section Open

variable {env : HwmonEnv} {cache cache' : FandCache} {n : ℤ} {file' : Option (List UInt8)}

/-- The last step of `hwmon_open` changes neither the record nor the file. -/
theorem hwmonOpen_steps (h : hwmonOpen env cache = some (n, cache', file')) :
    ∃ loaded cache₁ status, cacheLoad env.cacheEnv env.file cache = some (loaded, cache₁) ∧
      (if loaded ≠ 0 then hwmonDetect env cache₁ else some (0, cache₁, env.file)) =
        some (status, cache', file') ∧
      (0 ≤ n → 0 ≤ status ∧ env.controllable (pathOf cache'.pwmEnable) = true ∧
        n = cache'.cardIdx.toBitVec.toInt) := by
  rw [hwmonOpen] at h
  obtain ⟨⟨loaded, cache₁⟩, hload, h⟩ := Option.bind_eq_some_iff.mp h
  obtain ⟨⟨status, cache₂, file₂⟩, hpaths, h⟩ := Option.bind_eq_some_iff.mp h
  dsimp only at h
  refine ⟨loaded, cache₁, status, hload, ?_⟩
  by_cases hstatus : status < 0
  · rw [if_pos hstatus] at h
    cases h
    exact ⟨hpaths, fun hn => absurd hstatus (not_lt.mpr hn)⟩
  rw [if_neg hstatus] at h
  by_cases hcontrol : env.controllable (pathOf cache₂.pwmEnable) = true
  · rw [hwmonSetPwmModeManual, if_pos hcontrol, if_neg (lt_irrefl 0)] at h
    cases h
    exact ⟨hpaths, fun _ => ⟨not_lt.mp hstatus, hcontrol, rfl⟩⟩
  · rw [hwmonSetPwmModeManual, if_neg hcontrol, if_pos (show (-1 : ℤ) < 0 by omega)] at h
    cases h
    exact ⟨hpaths, fun hn => absurd hn (show ¬ (0 : ℤ) ≤ -1 by omega)⟩

/-- A start without a cache finds the card, and the file holds what it has found. -/
theorem hwmonOpen_cold (hcold : ∀ stored, ¬ env.CachedAs stored)
    (hentry : ∀ idx, env.IsCardIndex idx → ¬ env.NoEntry idx)
    (h : hwmonOpen env cache = some (n, cache', file')) (hn : 0 ≤ n) :
    ∃ idx dir, env.SensorDir idx dir ∧ n = idx ∧ cache'.InDir dir ∧ HoldsIntact file' idx dir := by
  obtain ⟨loaded, cache₁, status, hload, hpaths, hlast⟩ := hwmonOpen_steps h
  obtain ⟨hstatus, -, hvalue⟩ := hlast hn
  obtain ⟨stored, hstored, -⟩ | ⟨-, cache₂, hload'⟩ := cacheLoad_cases env cache
  · exact absurd hstored (hcold stored)
  · rw [hload'] at hload
    cases hload
    rw [if_pos (by decide)] at hpaths
    obtain ⟨hneg, -⟩ | ⟨idx, dir, hsensors, hfits, hdir, hcard, hwrite⟩ :=
      hwmonDetect_sensors hentry hpaths
    · exact absurd hneg (not_lt.mpr hstatus)
    · rw [hcard, toInt_cardIdx hsensors.1.1] at hvalue
      exact ⟨idx, dir, hsensors, hvalue, hdir,
        holdsIntact_cacheWrite hfits hdir hcard hwrite hstatus⟩

/-- What `cache_load` makes of a file that holds a card -/
theorem HoldsCard.cacheLoad {idx : ℕ} {dir : List UInt8} (h : HoldsCard env.file idx dir)
    (cache : FandCache) :
    (∃ cache₁, cacheLoad env.cacheEnv env.file cache = some (0, cache₁) ∧ cache₁.InDir dir ∧
        cache₁.cardIdx = UInt32.ofNat idx) ∨
      ∃ cache₁, cacheLoad env.cacheEnv env.file cache = some (-1, cache₁) := by
  obtain ⟨kept, rest, hfile, hdir, hcard⟩ := h
  obtain ⟨stored, ⟨-, ⟨content, hcontent, himage⟩, -⟩, hload⟩ | ⟨-, cache₁, hload⟩ :=
    cacheLoad_cases env cache
  · rw [hfile] at hcontent
    cases hcontent
    rw [List.take_left' kept.image_length] at himage
    obtain rfl := FandCache.image_inj himage
    exact Or.inl ⟨_, hload, hdir, hcard⟩
  · exact Or.inr ⟨cache₁, hload⟩

/-- A start with such a file finds the same, and leaves such a file, also if it fails or writes only
a part of its record. -/
theorem HoldsCard.hwmonOpen {idx : ℕ} {dir : List UInt8} (hfile : HoldsCard env.file idx dir)
    (hsensors : env.SensorDir idx dir) (h : hwmonOpen env cache = some (n, cache', file')) :
    HoldsCard file' idx dir ∧ (0 ≤ n → n = idx ∧ cache'.InDir dir) := by
  obtain ⟨loaded, cache₁, status, hload, hpaths, hlast⟩ := hwmonOpen_steps h
  have hvalue : ∀ {cache'' : FandCache}, cache''.cardIdx = UInt32.ofNat idx →
      cache''.cardIdx.toBitVec.toInt = idx := by
    intro cache'' hcard
    rw [hcard, toInt_cardIdx hsensors.1.1]
  obtain ⟨cache₂, hload', hdir, hcard⟩ | ⟨cache₂, hload'⟩ := hfile.cacheLoad cache
  · rw [hload'] at hload
    cases hload
    rw [if_neg (by decide)] at hpaths
    cases hpaths
    exact ⟨hfile, fun hn => ⟨(hlast hn).2.2.trans (hvalue hcard), hdir⟩⟩
  · rw [hload'] at hload
    cases hload
    rw [if_pos (by decide)] at hpaths
    obtain ⟨hneg, rfl⟩ | ⟨idx', dir', hsensors', hfits, hdir, hcard, hwrite⟩ :=
      hwmonDetect_sensors hsensors.hasEntry hpaths
    · exact ⟨hfile, fun hn => absurd hneg (not_lt.mpr (hlast hn).1)⟩
    · obtain ⟨rfl, rfl⟩ := hsensors.unique hsensors'
      exact ⟨hfile.cacheWrite hfits hdir hcard hwrite,
        fun hn => ⟨(hlast hn).2.2.trans (hvalue hcard), hdir⟩⟩

end Open

/-! ## Which starts succeed -/

/-- Everything that a start without a cache needs: memory for `regcomp`, a card with an entry for
its sensors whose path fits into the buffer before it is resolved, a directory behind the entry that
leaves room for the names of the files, a cache that can be written as a whole, and control over the
fan -/
structure HwmonEnv.Ready (env : HwmonEnv) (idx : ℕ) (name dir : List UInt8) : Prop where
  regcomp : env.regcompOk = true
  card : env.IsCardIndex idx
  entry : ∃ entries, env.listing (hwmonDir idx) = some entries ∧
    entries.find? hwmonMatch = some name
  short : (hwmonDir idx).length + name.length < hwmonPathSize
  resolves : env.realpath (hwmonDir idx ++ name) = some dir
  fits : FitsDir dir
  cacheDir : env.cacheEnv.dirExists = true ∨ env.cacheEnv.mkdirOk = true
  writable : env.cacheEnv.writable = true
  whole : env.cacheEnv.written = cacheSize
  closes : env.cacheEnv.closeOk = true
  controlled : env.controllable (dir ++ ascii "/pwm1_enable") = true

section Ready

variable {env : HwmonEnv} {idx : ℕ} {name : List UInt8} {dst : List UInt8}

/-- `hwmon_detect_iface_dir` with an entry -/
theorem hwmonDetectIfaceDir_entry (hidx : idx < maxDriDirIdx) (hregcomp : env.regcompOk = true)
    (hentry : ∃ entries, env.listing (hwmonDir idx) = some entries ∧
      entries.find? hwmonMatch = some name) :
    hwmonDetectIfaceDir env dst idx hwmonPathSize =
      some (if hwmonPathSize ≤ (hwmonDir idx).length + name.length then (-1, dst)
        else fsysAbspath env.realpath dst (hwmonDir idx ++ name) hwmonPathSize) := by
  obtain ⟨entries, hlisting, hfind⟩ := hentry
  have hlen := hwmonDir_length hidx
  have hsize : hwmonPathSize = 256 := rfl
  have hnul := env.names _ _ hlisting name (List.mem_of_find?_eq_some hfind)
  have hscratch : hwmonPathSize - (hwmonDir idx).length ≤
      (env.scratch.drop (hwmonDir idx).length).length := by
    rw [List.length_drop, env.scratch_size]
  simp only [hwmonDetectIfaceDir, hregcomp, hlisting, hfind, not_true_eq_false, if_false,
    if_neg (show ¬ hwmonPathSize < (hwmonDir idx).length by omega)]
  by_cases hbig : hwmonPathSize - (hwmonDir idx).length ≤ name.length
  · rw [if_pos ((strscpyBytes_neg_iff hscratch).mpr hbig), if_pos (by omega)]
  · have hfits := strscpyBytes_fits hscratch (Nat.lt_of_not_le hbig)
    have hpos : ¬ ((name.length : ℤ) < 0) := by omega
    rw [hfits]
    dsimp only
    rw [if_neg hpos, if_neg (by omega), pathOf_append _ hnul]

/-- A start that needs no cache and finds everything it needs -/
theorem HwmonEnv.Ready.hwmonOpen {dir : List UInt8} (h : env.Ready idx name dir)
    (hcold : ∀ stored, ¬ env.CachedAs stored) (cache : FandCache) :
    ∃ cache' file', hwmonOpen env cache = some ((idx : ℤ), cache', file') ∧ cache'.InDir dir := by
  have hroom : dir.length + 12 < hwmonPathSize := h.fits
  -- the search finds the card, its directory and the paths, and writes them
  have hcard : hwmonDetectCardIndex env = idx := by
    obtain ⟨idx', hidx', heq⟩ | ⟨hno, -⟩ := hwmonDetectCardIndex_cases env
    · rw [heq, h.card.unique hidx']
    · exact absurd h.card (hno idx)
  obtain ⟨rest, habspath⟩ := fsysAbspath_fits h.resolves env.iface_size.ge
    (show dir.length < hwmonPathSize by omega)
  have hnul := env.resolved _ _ h.resolves
  have hdetect : hwmonDetectIfaceDir env env.iface idx hwmonPathSize =
      some ((dir.length : ℤ), dir ++ 0 :: rest) := by
    rw [hwmonDetectIfaceDir_entry h.card.1 h.regcomp h.entry, if_neg (Nat.not_le.mpr h.short),
      habspath]
  obtain ⟨stored, hstored, -⟩ | ⟨-, cache₁, hload⟩ := cacheLoad_cases env cache
  · exact absurd hstored (hcold stored)
  obtain ⟨cache₂, hinit, hcardIdx, hdir⟩ :=
    FandCache.initPaths_fits { cache₁ with cardIdx := UInt32.ofNat idx } hnul h.fits
  have hset : hwmonSetSysfsPaths env cache₁ = some (11, cache₂) := by
    have hmem : 0 ∈ dir ++ 0 :: rest := List.mem_append_right _ (List.mem_cons_self ..)
    simp only [hwmonSetSysfsPaths, hcard, Int.toNat_natCast, hdetect, Option.bind_eq_bind,
      Option.bind_some, pathOf_append rest hnul, hinit,
      if_neg (show ¬ (idx : ℤ) < 0 by omega), if_neg (show ¬ (dir.length : ℤ) < 0 by omega),
      if_neg (not_not.mpr hmem)]
  have hwrite := cacheWrite_eq cache₂ env.file h.cacheDir h.writable h.whole h.closes
  have hsearch : hwmonDetect env cache₁ =
      some (0, cache₂, some (cache₂.stored.image ++ (env.file.getD []).drop cacheSize)) := by
    rw [hwmonDetect, hset, Option.bind_eq_bind, Option.bind_some]
    dsimp only
    rw [if_neg (by decide), hwrite]
    rfl
  -- what it found can be controlled
  have hmanual : hwmonSetPwmModeManual env cache₂ = 0 := by
    rw [hwmonSetPwmModeManual, hdir.2.1, if_pos h.controlled]
  have hvalue : cache₂.cardIdx.toBitVec.toInt = idx := by
    rw [hcardIdx, toInt_cardIdx h.card.1]
  refine ⟨cache₂, some (cache₂.stored.image ++ (env.file.getD []).drop cacheSize), ?_, hdir⟩
  simp only [AmdgpuFand.hwmonOpen, hload, Option.bind_eq_bind, Option.bind_some]
  rw [if_pos (by decide), hsearch, Option.bind_some]
  dsimp only
  rw [hmanual, ← hvalue]
  rfl

/-- A start that succeeds without a cache has found everything it needs, or uses garbage. -/
theorem hwmonOpen_ready {cache cache' : FandCache} {n : ℤ} {file' : Option (List UInt8)}
    (hcold : ∀ stored, ¬ env.CachedAs stored)
    (h : hwmonOpen env cache = some (n, cache', file')) (hn : 0 ≤ n) :
    (∃ idx name dir, env.Ready idx name dir) ∨ env.UsesGarbage := by
  obtain ⟨stored, hstored, -⟩ | ⟨idx, -, hidx, ⟨entries, found, hlisting, hmem, hname, -⟩, -⟩ |
    hgarbage := hwmonOpen_ok h hn
  · exact absurd hstored (hcold stored)
  swap
  · exact Or.inr hgarbage
  -- the directory has an entry, and the first one is the one that is taken
  obtain ⟨name, hfind⟩ := Option.isSome_iff_exists.mp
    (List.find?_isSome.mpr ⟨found, hmem, (hwmonMatch_iff found).mpr hname⟩)
  obtain ⟨loaded, cache₁, status, hload, hpaths, hlast⟩ := hwmonOpen_steps h
  obtain ⟨hstatus, hcontrol, -⟩ := hlast hn
  obtain ⟨stored, hstored, -⟩ | ⟨-, cache₂, hload'⟩ := cacheLoad_cases env cache
  · exact absurd hstored (hcold stored)
  rw [hload'] at hload
  cases hload
  rw [if_pos (by decide)] at hpaths
  obtain ⟨hneg, -⟩ | ⟨found', hset, hok, hwrite⟩ := hwmonDetect_steps hpaths
  · exact absurd hneg (not_lt.mpr hstatus)
  obtain ⟨hdir, hwritable, hwhole, hclose⟩ := cacheWrite_calls hwrite hstatus
  obtain ⟨idx', detected, iface, hidx', hdetect, hdetected, hfits, hindir, -⟩ :=
    hwmonSetSysfsPaths_steps hset hok
  obtain rfl := hidx.unique hidx'
  have hregcomp := (hwmonDetectIfaceDir_ok hidx.1 env.iface_size hdetect hdetected).1
  rw [hwmonDetectIfaceDir_entry hidx.1 hregcomp ⟨entries, hlisting, hfind⟩] at hdetect
  by_cases hbig : hwmonPathSize ≤ (hwmonDir idx).length + name.length
  · rw [if_pos hbig] at hdetect
    cases hdetect
    exact absurd hdetected (show ¬ (0 : ℤ) ≤ -1 by omega)
  · rw [if_neg hbig] at hdetect
    have hresult := Option.some.inj hdetect
    obtain ⟨hreal, -⟩ := fsysAbspath_ok env.resolved env.iface_size.ge hresult hdetected
    rw [hindir.2.1] at hcontrol
    exact Or.inl ⟨idx, name, pathOf iface, hregcomp, hidx, ⟨entries, hlisting, hfind⟩,
      Nat.lt_of_not_le hbig, hreal, hfits, hdir, hwritable, hwhole, hclose, hcontrol⟩

end Ready

/-! ### A machine with one card -/

/-- The machine of `noSensors`, with sensors in `/sys/d` -/
def oneCard (readable : Bool) : HwmonEnv :=
  { noSensors with
    cacheEnv :=
      { noSensors.cacheEnv with
        fileExists := fun file => file == pmInfoPath 0 || file.take 7 == ascii "/sys/d/"
        readable := readable }
    listing := fun _ => some [ascii ".", ascii "..", ascii "hwmon3"]
    realpath := fun _ => some (ascii "/sys/d")
    names := by
      rintro dir entries ⟨⟩ name hname
      rw [List.mem_cons, List.mem_cons, List.mem_singleton] at hname
      rcases hname with rfl | rfl | rfl <;> decide
    resolved := by
      rintro path dir ⟨⟩
      decide }

/-- The machine without debugfs, where no directory can be read and nothing can be written -/
def bareOneCard : HwmonEnv :=
  { oneCard true with
    cacheEnv :=
      { (oneCard true).cacheEnv with
        fileExists := fun file => file.take 7 == ascii "/sys/d/"
        dirExists := false
        writable := false }
    regcompOk := false
    listing := fun _ => none
    names := by
      rintro dir entries ⟨⟩ }

/-- A record of zeros -/
def zeroRecord : FandCache :=
  ⟨List.replicate hwmonPathSize 0, List.replicate hwmonPathSize 0, List.replicate hwmonPathSize 0,
    0, List.replicate 20 0, List.length_replicate, List.length_replicate, List.length_replicate,
    rfl⟩

theorem oneCard_cold {readable : Bool} {record : FandCache} {file : Option (List UInt8)}
    (h : file = none ∨ readable = false) :
    ∀ stored, ¬ ((⟨oneCard readable, record⟩ : Start).finding file).CachedAs stored := by
  rintro stored ⟨hreadable, ⟨content, hcontent, -⟩, -⟩
  rcases h with rfl | rfl
  · cases hcontent
  · cases hreadable

theorem oneCard_hasEntry :
    ∀ idx, (oneCard true).IsCardIndex idx → ¬ (oneCard true).NoEntry idx := by
  rintro idx hidx ⟨entries, ⟨⟩, hnone⟩
  refine hnone (ascii "hwmon3") (by decide) ?_
  rw [← hwmonMatch_iff]
  decide

theorem oneCard_ready (readable : Bool) (record : FandCache) (file : Option (List UInt8)) :
    ((⟨oneCard readable, record⟩ : Start).finding file).Ready 0 (ascii "hwmon3")
      (ascii "/sys/d") where
  regcomp := rfl
  card := show (oneCard true).IsCardIndex 0 from
    ⟨by decide, by decide, fun j hj => absurd hj (Nat.not_lt_zero j)⟩
  entry := ⟨_, rfl, by decide⟩
  short := by decide
  resolves := rfl
  fits := by
    rw [FitsDir]
    decide
  cacheDir := Or.inl rfl
  writable := rfl
  whole := rfl
  closes := rfl
  controlled := rfl

/-- A start on this machine that does not read the cache -/
theorem oneCard_opened {readable : Bool} {file : Option (List UInt8)}
    (h : file = none ∨ readable = false) :
    ∃ cache' file', (⟨oneCard readable, zeroRecord⟩ : Start).opened file = some (0, cache', file') ∧
      cache'.InDir (ascii "/sys/d") :=
  (oneCard_ready readable zeroRecord file).hwmonOpen (oneCard_cold h) zeroRecord

/-- **Cold starts.** For every content of the directories, and every cache file that is not
accepted: `hwmon_open` reports no error if and only if `regcomp` succeeds, the first card has an
entry for its sensors whose path fits into the buffer and whose directory leaves room for the three
names, the cache can be written as a whole and the fan can be controlled, or the same is true of the
garbage that is used for a card without an entry. -/
theorem hwmonOpen_cold_iff (env : HwmonEnv) (cache : FandCache)
    (hcold : ∀ stored, ¬ env.CachedAs stored) :
    (∃ n cache' file', hwmonOpen env cache = some (n, cache', file') ∧ 0 ≤ n) ↔
      (∃ idx name dir, env.Ready idx name dir) ∨ env.UsesGarbage := by
  refine ⟨?_, ?_⟩
  · rintro ⟨n, cache', file', hopen, hn⟩
    exact hwmonOpen_ready hcold hopen hn
  · rintro (⟨idx, name, dir, hready⟩ | hgarbage)
    · obtain ⟨cache', file', hopen, -⟩ := hready.hwmonOpen hcold cache
      exact ⟨idx, cache', file', hopen, Int.natCast_nonneg idx⟩
    · obtain ⟨n, cache', file', hopen, hn, -⟩ := hgarbage.hwmonOpen cache
      exact ⟨n, cache', file', hopen, hn⟩

/-- On it the first start succeeds. -/
theorem hwmonOpen_cold_iff_one_card :
    ∃ n cache' file', hwmonOpen ((⟨oneCard true, zeroRecord⟩ : Start).finding none) zeroRecord =
      some (n, cache', file') ∧ 0 ≤ n :=
  (hwmonOpen_cold_iff _ zeroRecord (oneCard_cold (Or.inl rfl))).mpr
    (Or.inl ⟨_, _, _, oneCard_ready true zeroRecord none⟩)

/-! ## Many starts -/

/-- The cache can be read, and names three regular files under `/sys/`. -/
structure HwmonEnv.Keeps (env : HwmonEnv) (cache : FandCache) : Prop where
  readable : env.cacheEnv.readable = true
  pwm : cacheFileExistsInSysfs env.cacheEnv (pathOf cache.pwm) = true
  pwmEnable : cacheFileExistsInSysfs env.cacheEnv (pathOf cache.pwmEnable) = true
  tempInput : cacheFileExistsInSysfs env.cacheEnv (pathOf cache.tempInput) = true

/-- A cache of the directory whose files are still there is kept. -/
theorem FandCache.InDir.keeps {env : HwmonEnv} {cache : FandCache} {dir : List UInt8}
    (h : cache.InDir dir) (hreadable : env.cacheEnv.readable = true)
    (hpwm : cacheFileExistsInSysfs env.cacheEnv (dir ++ ascii "/pwm1") = true)
    (hpwmEnable : cacheFileExistsInSysfs env.cacheEnv (dir ++ ascii "/pwm1_enable") = true)
    (htempInput : cacheFileExistsInSysfs env.cacheEnv (dir ++ ascii "/temp1_input") = true) :
    env.Keeps cache where
  readable := hreadable
  pwm := by rw [h.1, hpwm]
  pwmEnable := by rw [h.2.1, hpwmEnable]
  tempInput := by rw [h.2.2, htempInput]

/-- A start that leaves a file has come to the end of `hwmon_open`. -/
theorem leaveCache_opened {file file' : Option (List UInt8)} {start : Start}
    (h : leaveCache file start = some file') :
    ∃ n cache', start.opened file = some (n, cache', file') := by
  obtain ⟨⟨n, cache', file₁⟩, hopened, rfl⟩ := Option.map_eq_some_iff.mp h
  exact ⟨n, cache', hopened⟩

section HoldsCard

variable {file file' : Option (List UInt8)} {idx : ℕ} {dir : List UInt8} {start : Start}

/-- A start on the sysfs that is remembered -/
theorem HoldsCard.opened (hfile : HoldsCard file idx dir) {env : HwmonEnv}
    (hsensors : env.SensorDir idx dir) (hsame : start.env.SameSysfs env) {n : ℤ}
    {cache' : FandCache} (h : start.opened file = some (n, cache', file')) :
    HoldsCard file' idx dir ∧ (0 ≤ n → n = idx ∧ cache'.InDir dir) := by
  have hsame' : (start.finding file).SameSysfs env :=
    ⟨hsame.fileExists, hsame.listing, hsame.realpath⟩
  exact @HoldsCard.hwmonOpen (start.finding file) _ _ _ _ _ _ hfile (hsensors.of_same hsame') h

/-- Every number of starts on it -/
theorem HoldsCard.run (hfile : HoldsCard file idx dir) {env : HwmonEnv}
    (hsensors : env.SensorDir idx dir) {starts : List Start}
    (hsame : ∀ start ∈ starts, start.env.SameSysfs env)
    (h : Process.run leaveCache file starts = some file') : HoldsCard file' idx dir := by
  have hstep : ∀ file₁ start file₂, HoldsCard file₁ idx dir → start.env.SameSysfs env →
      leaveCache file₁ start = some file₂ → HoldsCard file₂ idx dir := by
    intro file₁ start file₂ hfile₁ hstart hleave
    obtain ⟨n, cache', hopened⟩ := leaveCache_opened hleave
    exact (hfile₁.opened hsensors hstart hopened).1
  exact @run_keeps_of_meets _ _ _ _ (fun file => HoldsCard file idx dir) hstep _ _ hfile _
    (meets_of_mem (fun start hmem _ => hsame start hmem) file) h

/-- A start that can use what is remembered does so, whatever the directories hold. -/
theorem HoldsIntact.keeps (hfile : HoldsIntact file idx dir) (hidx : idx < maxDriDirIdx)
    {cache : FandCache} (hdir : cache.InDir dir) (hkeeps : start.env.Keeps cache) :
    ∃ cache', start.opened file =
        some (if start.env.controllable (pathOf cache.pwmEnable) = true then (idx : ℤ) else -1,
          cache', file) ∧
      cache'.InDir dir := by
  obtain ⟨kept, rest, rfl, hkept, hcard⟩ := hfile
  -- the checksum is intact and the files are those of the directory
  have haccepts : start.env.cacheEnv.Accepts kept.stored := by
    refine ⟨rfl, ?_, ?_, ?_⟩
    · rw [show pathOf kept.stored.terminate.pwm = _ from hkept.1, ← hdir.1, hkeeps.pwm]
    · rw [show pathOf kept.stored.terminate.pwmEnable = _ from hkept.2.1, ← hdir.2.1,
        hkeeps.pwmEnable]
    · rw [show pathOf kept.stored.terminate.tempInput = _ from hkept.2.2, ← hdir.2.2,
        hkeeps.tempInput]
  have hload := cacheLoad_image kept.stored start.record rest hkeeps.readable
  rw [if_pos haccepts] at hload
  have hmanual : hwmonSetPwmModeManual (start.finding (some (kept.stored.image ++ rest)))
      kept.stored.terminate =
        if start.env.controllable (pathOf cache.pwmEnable) = true then 0 else -1 := by
    rw [hwmonSetPwmModeManual, show pathOf kept.stored.terminate.pwmEnable = _ from hkept.2.1,
      ← hdir.2.1]
    rfl
  have hvalue : kept.stored.terminate.cardIdx.toBitVec.toInt = idx := by
    rw [show kept.stored.terminate.cardIdx = UInt32.ofNat idx from hcard, toInt_cardIdx hidx]
  refine ⟨kept.stored.terminate, ?_, hkept⟩
  have hload' : AmdgpuFand.cacheLoad (start.finding (some (kept.stored.image ++ rest))).cacheEnv
      (start.finding (some (kept.stored.image ++ rest))).file start.record =
        some (0, kept.stored.terminate) := hload
  rw [Start.opened, AmdgpuFand.hwmonOpen, hload', Option.bind_eq_bind, Option.bind_some]
  dsimp only
  rw [if_neg (by decide), Option.bind_eq_bind, Option.bind_some]
  dsimp only
  rw [if_neg (lt_irrefl 0), hmanual, hvalue]
  by_cases hcontrol : start.env.controllable (pathOf cache.pwmEnable) = true
  · rw [if_pos hcontrol, if_neg (lt_irrefl 0), if_pos hcontrol]
    rfl
  · rw [if_neg hcontrol, if_pos (show (-1 : ℤ) < 0 by omega), if_neg hcontrol]
    rfl

end HoldsCard

section Restart

variable {first : Start} {file file₁ : Option (List UInt8)} {n : ℤ} {cache₁ : FandCache}

/-- What a successful start without a cache leaves to the next ones -/
theorem opened_holdsIntact (hcold : ∀ stored, ¬ (first.finding file).CachedAs stored)
    (hentry : ∀ idx, first.env.IsCardIndex idx → ¬ first.env.NoEntry idx)
    (hfirst : first.opened file = some (n, cache₁, file₁)) (hn : 0 ≤ n) :
    ∃ idx dir, first.env.SensorDir idx dir ∧ n = idx ∧ cache₁.InDir dir ∧
      HoldsIntact file₁ idx dir :=
  @hwmonOpen_cold (first.finding file) _ _ _ _ hcold hentry hfirst hn

/-- **The cache changes nothing.** A start without an accepted cache has found a card that has an
entry for its sensors. After any number of further starts on the same sysfs, whatever they could
read of the cache, however much of it they could write, whatever else failed and whatever was in the
buffers, every start that succeeds returns the same card, with the same three paths. -/
theorem restart_finds_same (hcold : ∀ stored, ¬ (first.finding file).CachedAs stored)
    (hentry : ∀ idx, first.env.IsCardIndex idx → ¬ first.env.NoEntry idx)
    (hfirst : first.opened file = some (n, cache₁, file₁)) (hn : 0 ≤ n) (others : List Start)
    (hothers : ∀ start ∈ others, start.env.SameSysfs first.env)
    (file₂ : Option (List UInt8)) (hrun : Process.run leaveCache file₁ others = some file₂)
    (last : Start) (hlast : last.env.SameSysfs first.env) (m : ℤ) (cache₂ : FandCache)
    (file₃ : Option (List UInt8)) (hopened : last.opened file₂ = some (m, cache₂, file₃))
    (hm : 0 ≤ m) : m = n ∧ cache₂.SamePaths cache₁ := by
  obtain ⟨idx, dir, hsensors, rfl, hdir, hfile₁⟩ := opened_holdsIntact hcold hentry hfirst hn
  have hfile₂ := hfile₁.holdsCard.run hsensors hothers hrun
  obtain ⟨hvalue, hdir'⟩ := (hfile₂.opened hsensors hlast hopened).2 hm
  exact ⟨hvalue, hdir'.samePaths hdir⟩

/-- A start that cannot read the cache, behind one that can -/
theorem restart_finds_same_unreadable :
    ∃ cache₁ file₁ file₂ cache₂ file₃,
      (⟨oneCard true, zeroRecord⟩ : Start).opened none = some (0, cache₁, file₁) ∧
      Process.run leaveCache file₁ [⟨oneCard true, zeroRecord⟩] = some file₂ ∧
      (⟨oneCard false, zeroRecord⟩ : Start).opened file₂ = some (0, cache₂, file₃) ∧
      cache₂.SamePaths cache₁ := by
  obtain ⟨cache₁, file₁, hfirst, hdir⟩ := @oneCard_opened true none (Or.inl rfl)
  obtain ⟨idx, dir, hsensors, -, hdir₁, hfile₁⟩ :=
    opened_holdsIntact (oneCard_cold (Or.inl rfl)) oneCard_hasEntry hfirst le_rfl
  obtain ⟨cache, hsecond, -⟩ := @HoldsIntact.keeps file₁ idx dir ⟨oneCard true, zeroRecord⟩ hfile₁
    hsensors.1.1 _ hdir₁ (hdir.keeps rfl (by decide) (by decide) (by decide))
  have hrun : Process.run leaveCache file₁ [⟨oneCard true, zeroRecord⟩] = some file₁ := by
    rw [Process.run, leaveCache, hsecond]
    rfl
  obtain ⟨cache₂, file₃, hlast, -⟩ := @oneCard_opened false file₁ (Or.inr rfl)
  have hsame := restart_finds_same (oneCard_cold (Or.inl rfl)) oneCard_hasEntry hfirst le_rfl
    [⟨oneCard true, zeroRecord⟩]
    (fun start hmem => by
      rw [List.mem_singleton.mp hmem]
      exact ⟨rfl, rfl, rfl⟩)
    file₁ hrun ⟨oneCard false, zeroRecord⟩ ⟨rfl, rfl, rfl⟩ 0 cache₂ file₃ hlast le_rfl
  exact ⟨cache₁, file₁, file₁, cache₂, file₃, hfirst, hrun, hlast, hsame.2⟩

/-- **What the cache saves.** After the same start, and for any number of further starts that can
read the cache and find the three files, whatever else has become of sysfs: none of them changes the
cache, and each returns the card of the first start, with its three paths, if and only if the fan
can be controlled. -/
theorem restart_from_cache (hcold : ∀ stored, ¬ (first.finding file).CachedAs stored)
    (hentry : ∀ idx, first.env.IsCardIndex idx → ¬ first.env.NoEntry idx)
    (hfirst : first.opened file = some (n, cache₁, file₁)) (hn : 0 ≤ n) (others : List Start)
    (hothers : ∀ start ∈ others, start.env.Keeps cache₁) :
    Process.run leaveCache file₁ others = some file₁ ∧
      ∀ start ∈ others, ∃ cache₂,
        start.opened file₁ =
          some (if start.env.controllable (pathOf cache₁.pwmEnable) = true then n else -1,
            cache₂, file₁) ∧
        cache₂.SamePaths cache₁ := by
  obtain ⟨idx, dir, hsensors, rfl, hdir, hfile₁⟩ := opened_holdsIntact hcold hentry hfirst hn
  have hopened : ∀ start ∈ others, ∃ cache₂,
      start.opened file₁ =
        some (if start.env.controllable (pathOf cache₁.pwmEnable) = true then (idx : ℤ) else -1,
          cache₂, file₁) ∧
      cache₂.SamePaths cache₁ := by
    intro start hstart
    obtain ⟨cache₂, hopened, hdir₂⟩ := hfile₁.keeps hsensors.1.1 hdir (hothers start hstart)
    exact ⟨cache₂, hopened, hdir₂.samePaths hdir⟩
  refine ⟨?_, hopened⟩
  clear hothers
  induction others with
  | nil => rfl
  | cons start others ih =>
    obtain ⟨cache₂, hstart, -⟩ := hopened start (List.mem_cons_self ..)
    have hleave : leaveCache file₁ start = some file₁ := by
      rw [leaveCache, hstart]
      rfl
    rw [Process.run, hleave, Option.bind_some]
    exact ih fun start hmem => hopened start (List.mem_cons_of_mem _ hmem)

/-- Two starts where nothing else works -/
theorem restart_from_cache_bare :
    ∃ cache₁ file₁ cache₂,
      (⟨oneCard true, zeroRecord⟩ : Start).opened none = some (0, cache₁, file₁) ∧
      Process.run leaveCache file₁ [⟨bareOneCard, zeroRecord⟩, ⟨bareOneCard, zeroRecord⟩] =
        some file₁ ∧
      (⟨bareOneCard, zeroRecord⟩ : Start).opened file₁ = some (0, cache₂, file₁) := by
  obtain ⟨cache₁, file₁, hfirst, hdir⟩ := @oneCard_opened true none (Or.inl rfl)
  have hcache := restart_from_cache (oneCard_cold (Or.inl rfl)) oneCard_hasEntry hfirst le_rfl
    [⟨bareOneCard, zeroRecord⟩, ⟨bareOneCard, zeroRecord⟩]
    (fun start hmem => by
      rw [List.eq_of_mem_replicate (n := 2) hmem]
      exact hdir.keeps rfl (by decide) (by decide) (by decide))
  obtain ⟨cache₂, hopened, -⟩ := hcache.2 _ (List.mem_cons_self ..)
  exact ⟨cache₁, file₁, cache₂, hfirst, hcache.1, hopened⟩

end Restart

end AmdgpuFand
