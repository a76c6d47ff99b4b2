import AmdgpuFand.Cache
import AmdgpuFand.MatrixText

/-!
# Finding the files of the card

The model of `hwmon_open` in `hwmon.c`. The paths of the three files the daemon works with come
from the cache if it is accepted. If it is not, the card is the first one with a file
`amdgpu_pm_info` in debugfs, the directory of its sensors is the first entry of
`/sys/class/drm/card<idx>/device/hwmon/` that matches `hwmon[0-9]+`, with symbolic links resolved,
and the three paths are made of it in the buffers that the cache has been read to.

`hwmon_detect_iface_dir` reports no error if there is no such entry, and leaves the buffer for the
directory as it was. `hwmonOpen_exact` says for which inputs the paths have one of the two origins
nevertheless.
-/

namespace AmdgpuFand

open CLib Ere

/-! ## Characters and bytes -/

/-- A byte as a character of a string -/
def charOf (b : UInt8) : Char := Char.ofNat b.toNat

/-- A character in memory -/
def byteOf (c : Char) : UInt8 := UInt8.ofNat c.toNat

/-- The bytes of a string of the source -/
def ascii (s : String) : List UInt8 := s.toList.map byteOf

/-- A number in decimal, as `%d` and `%u` print it -/
def decimal (n : ℕ) : List UInt8 := (Nat.toDigits 10 n).map byteOf

/-- `strscpy`, on the bytes at and after `dst` -/
def strscpyBytes (dst src : List UInt8) (dstlen : ℕ) : ℤ × List UInt8 :=
  let (n, cells) := strscpy (dst.map charOf) (src.map charOf) dstlen
  (n, cells.map byteOf)

/-! ## The environment -/

/-- What `hwmon_open` depends on. Names in a directory and resolved paths are strings. -/
structure HwmonEnv where
  cacheEnv : CacheEnv
  /-- the cache file, if there is one -/
  file : Option (List UInt8)
  /-- `regcomp` succeeds -/
  regcompOk : Bool
  /-- the entries of a directory in the order of `readdir`, if it can be opened -/
  listing : List UInt8 → Option (List (List UInt8))
  /-- `realpath` -/
  realpath : List UInt8 → Option (List UInt8)
  /-- a file can be opened and written; it need not be possible to lock it -/
  controllable : List UInt8 → Bool
  /-- `hwmon_iface`, uninitialised -/
  iface : List UInt8
  /-- `buffer` of `hwmon_detect_iface_dir`, uninitialised -/
  scratch : List UInt8
  iface_size : iface.length = hwmonPathSize
  scratch_size : scratch.length = hwmonPathSize
  names : ∀ dir entries, listing dir = some entries → ∀ name ∈ entries, 0 ∉ name
  resolved : ∀ path dir, realpath path = some dir → 0 ∉ dir

/-! ## The directory -/

/-- `SYSFS_DRI_DEBUG/<i>/AMDGPU_PM_FILE` -/
def pmInfoPath (i : ℕ) : List UInt8 :=
  ascii "/sys/kernel/debug/dri" ++ ascii "/" ++ decimal i ++ ascii "/" ++ ascii "amdgpu_pm_info"

/-- `MAX_DRI_DIR_IDX` -/
def maxDriDirIdx : ℕ := 128

/-- The loop of `hwmon_detect_card_index` -/
def detectCardIndexLoop (env : HwmonEnv) : List ℕ → ℤ
  | [] => -1
  | i :: is =>
    if hwmonPathSize ≤ (pmInfoPath i).length then -1
    else if env.cacheEnv.fileExists (pmInfoPath i) then i
    else detectCardIndexLoop env is

/-- `hwmon_detect_card_index` -/
def hwmonDetectCardIndex (env : HwmonEnv) : ℤ :=
  detectCardIndexLoop env (List.range maxDriDirIdx)

/-- `SYSFS_HWMON_PATH_FMT` -/
def hwmonDir (cardIdx : ℕ) : List UInt8 :=
  ascii "/sys/class/drm/card" ++ decimal cardIdx ++ ascii "/device/hwmon/"

/-- `hwmon[0-9]+` -/
def hwmonRegex : Regex := [chr 'h' 0, chr 'w' 0, chr 'm' 0, chr 'o' 0, chr 'n' 0, digits 0]

/-- `regexec(&hwmon_regex, dp->d_name, 0, 0, 0)` finds a match. -/
def hwmonMatch (name : List UInt8) : Bool := (regexec hwmonRegex (name.map charOf)).isSome

/-- `fsys_abspath`: the status and the destination -/
def fsysAbspath (realpath : List UInt8 → Option (List UInt8)) (dst path : List UInt8)
    (dstsize : ℕ) : ℤ × List UInt8 :=
  match realpath path with
  | none => (-1, dst)
  | some buffer =>
    let (nbytes, dst) := strscpyBytes dst buffer dstsize
    if nbytes < 0 then (-1, dst) else (nbytes, dst)

/-- `hwmon_detect_iface_dir`: the status and the destination. `readdir` is called on whatever
`opendir` has returned, which is undefined for a directory that cannot be opened. -/
def hwmonDetectIfaceDir (env : HwmonEnv) (dst : List UInt8) (cardIdx dstsize : ℕ) :
    Option (ℤ × List UInt8) :=
  let dir := hwmonDir cardIdx
  let pos := dir.length
  if hwmonPathSize < pos then some (-1, dst)
  else if ¬ env.regcompOk then some (-1, dst)
  else match env.listing dir with
    | none => none
    | some entries =>
      match entries.find? hwmonMatch with
      | none => some (0, dst)
      | some name =>
        let (nbytes, cells) := strscpyBytes (env.scratch.drop pos) name (hwmonPathSize - pos)
        if nbytes < 0 then some (-1, dst)
        else some (fsysAbspath env.realpath dst (dir ++ pathOf cells) dstsize)

/-! ## The paths -/

/-- `hwmon_init_single_sysfs_path`: the status and the destination. The negative return value of
the second copy is added to the position like any other. -/
def hwmonInitSingleSysfsPath (dst dir filename : List UInt8) (dstsize : ℕ) : ℤ × List UInt8 :=
  let (pos, dst) := strscpyBytes dst dir dstsize
  if pos < 0 then (pos, dst)
  else
    let (n, cells) := strscpyBytes (dst.drop pos.toNat) (ascii "/") (dstsize - pos.toNat)
    let dst := dst.take pos.toNat ++ cells
    let pos := pos + n
    if pos < 0 then (pos, dst)
    else
      let (n, cells) := strscpyBytes (dst.drop pos.toNat) filename (dstsize - pos.toNat)
      (n, dst.take pos.toNat ++ cells)

theorem copyLoop_length (n : ℕ) (dst src : List Char) :
    (copyLoop n dst src).length = dst.length := by
  induction n generalizing dst src with
  | zero => rfl
  | succ n ih =>
    cases dst with
    | nil => rfl
    | cons d dst =>
      cases src with
      | nil => rfl
      | cons c src => rw [copyLoop, List.length_cons, List.length_cons, ih]

theorem strscpyBytes_length (dst src : List UInt8) (dstlen : ℕ) :
    (strscpyBytes dst src dstlen).2.length = dst.length := by
  rw [strscpyBytes, List.length_map, strscpy]
  split_ifs
  · rw [List.length_set, copyLoop_length, List.length_map]
  · rw [copyLoop_length, List.length_map]

theorem hwmonInitSingleSysfsPath_length (dst dir filename : List UInt8) (dstsize : ℕ) :
    (hwmonInitSingleSysfsPath dst dir filename dstsize).2.length = dst.length := by
  have hjoin : ∀ (cells cells' : List UInt8) (k : ℕ), cells'.length = (cells.drop k).length →
      (cells.take k ++ cells').length = cells.length := by
    intro cells cells' k h
    rw [List.length_append, h, ← List.length_append, List.take_append_drop]
  simp only [hwmonInitSingleSysfsPath]
  split_ifs
  · exact strscpyBytes_length ..
  · rw [hjoin _ _ _ (strscpyBytes_length ..), strscpyBytes_length]
  · rw [hjoin _ _ _ (strscpyBytes_length ..), hjoin _ _ _ (strscpyBytes_length ..),
      strscpyBytes_length]

section Init

variable (cache : FandCache) (dir : List UInt8)

/-- The call for `hwmon_temp_input`: the status and the record -/
def FandCache.initTempInput : ℤ × FandCache :=
  let init := hwmonInitSingleSysfsPath cache.tempInput dir (ascii "temp1_input") hwmonPathSize
  (init.1, { cache with
    tempInput := init.2
    tempInput_size := (hwmonInitSingleSysfsPath_length ..).trans cache.tempInput_size })

/-- The call for `hwmon_pwm` -/
def FandCache.initPwm : ℤ × FandCache :=
  let init := hwmonInitSingleSysfsPath cache.pwm dir (ascii "pwm1") hwmonPathSize
  (init.1, { cache with
    pwm := init.2
    pwm_size := (hwmonInitSingleSysfsPath_length ..).trans cache.pwm_size })

/-- The call for `hwmon_pwm_enable` -/
def FandCache.initPwmEnable : ℤ × FandCache :=
  let init := hwmonInitSingleSysfsPath cache.pwmEnable dir (ascii "pwm1_enable") hwmonPathSize
  (init.1, { cache with
    pwmEnable := init.2
    pwmEnable_size := (hwmonInitSingleSysfsPath_length ..).trans cache.pwmEnable_size })

/-- The three calls at the end of `hwmon_set_sysfs_paths` -/
def FandCache.initPaths : ℤ × FandCache :=
  let (status, cache) := cache.initTempInput dir
  if status < 0 then (status, cache)
  else
    let (status, cache) := cache.initPwm dir
    if status < 0 then (status, cache)
    else cache.initPwmEnable dir

end Init

/-- `hwmon_set_sysfs_paths`: the status and the record. A directory that is not terminated in its
buffer is read beyond it. -/
def hwmonSetSysfsPaths (env : HwmonEnv) (cache : FandCache) : Option (ℤ × FandCache) :=
  let cardIdx := hwmonDetectCardIndex env
  if cardIdx < 0 then some (cardIdx, cache)
  else do
    let cache := { cache with cardIdx := UInt32.ofNat cardIdx.toNat }
    let (status, iface) ← hwmonDetectIfaceDir env env.iface cardIdx.toNat hwmonPathSize
    if status < 0 then some (status, cache)
    else if 0 ∉ iface then none
    else some (cache.initPaths (pathOf iface))

/-- The branch of `hwmon_open` for a cache that is not accepted: the status, the record and the
cache file -/
def hwmonDetect (env : HwmonEnv) (cache : FandCache) :
    Option (ℤ × FandCache × Option (List UInt8)) := do
  let (status, cache) ← hwmonSetSysfsPaths env cache
  if status < 0 then some (status, cache, env.file)
  else do
    let (status, file) ← cacheWrite env.cacheEnv env.file cache
    some (status, cache, file)

/-- `hwmon_set_pwm_mode_manual` -/
def hwmonSetPwmModeManual (env : HwmonEnv) (cache : FandCache) : ℤ :=
  if env.controllable (pathOf cache.pwmEnable) then 0 else -1

/-- `hwmon_open`: the return value, the record and the cache file -/
def hwmonOpen (env : HwmonEnv) (cache : FandCache) :
    Option (ℤ × FandCache × Option (List UInt8)) := do
  let (loaded, cache) ← cacheLoad env.cacheEnv env.file cache
  let paths := if loaded ≠ 0 then hwmonDetect env cache else some (0, cache, env.file)
  let (status, cache, file) ← paths
  if status < 0 then some (status, cache, file)
  else if hwmonSetPwmModeManual env cache < 0 then
    some (hwmonSetPwmModeManual env cache, cache, file)
  else some (cache.cardIdx.toBitVec.toInt, cache, file)

/-! ## Where the paths come from -/

/-- The cache file begins with the bytes of a record, and they are accepted. -/
def HwmonEnv.CachedAs (env : HwmonEnv) (stored : FandCache) : Prop :=
  env.cacheEnv.readable = true ∧
    (∃ content, env.file = some content ∧ content.take cacheSize = stored.image) ∧
    env.cacheEnv.Accepts stored

/-- The paths are those of the cache file. -/
def HwmonEnv.FromCache (env : HwmonEnv) (cache : FandCache) : Prop :=
  ∃ stored, env.CachedAs stored ∧ pathOf cache.pwm = pathOf stored.terminate.pwm ∧
    pathOf cache.pwmEnable = pathOf stored.terminate.pwmEnable ∧
    pathOf cache.tempInput = pathOf stored.terminate.tempInput

/-- The lowest index of a card with a file `amdgpu_pm_info` -/
def HwmonEnv.IsCardIndex (env : HwmonEnv) (idx : ℕ) : Prop :=
  idx < maxDriDirIdx ∧ env.cacheEnv.fileExists (pmInfoPath idx) = true ∧
    ∀ j < idx, env.cacheEnv.fileExists (pmInfoPath j) = false

/-- A name with `hwmon` and a digit behind it -/
def HwmonName (name : List UInt8) : Prop :=
  ∃ front digit back, name = front ++ ascii "hwmon" ++ digit :: back ∧ 0x30 ≤ digit ∧ digit ≤ 0x39

/-- The resolved path of an entry for the sensors of the card -/
def HwmonEnv.IsIfaceDir (env : HwmonEnv) (idx : ℕ) (dir : List UInt8) : Prop :=
  ∃ entries name, env.listing (hwmonDir idx) = some entries ∧ name ∈ entries ∧ HwmonName name ∧
    env.realpath (hwmonDir idx ++ name) = some dir

/-- The paths are those of the files in a directory. -/
def FandCache.InDir (cache : FandCache) (dir : List UInt8) : Prop :=
  pathOf cache.pwm = dir ++ ascii "/pwm1" ∧
    pathOf cache.pwmEnable = dir ++ ascii "/pwm1_enable" ∧
    pathOf cache.tempInput = dir ++ ascii "/temp1_input"

/-- The paths are those of a directory that sysfs lists for the card. -/
def HwmonEnv.FromSysfs (env : HwmonEnv) (cache : FandCache) : Prop :=
  ∃ idx dir, env.IsCardIndex idx ∧ env.IsIfaceDir idx dir ∧ cache.InDir dir

/-- There is no entry for the sensors of the card. -/
def HwmonEnv.NoEntry (env : HwmonEnv) (idx : ℕ) : Prop :=
  ∃ entries, env.listing (hwmonDir idx) = some entries ∧ ∀ name ∈ entries, ¬ HwmonName name

/-! ## Copies -/

theorem toNat_charOf (b : UInt8) : (charOf b).toNat = b.toNat := by
  have hb := b.toNat_lt
  have hvalid : b.toNat.isValidChar := Or.inl (by omega)
  rw [charOf, Char.ofNat, dif_pos hvalid]
  rfl

@[simp]
theorem byteOf_charOf (b : UInt8) : byteOf (charOf b) = b := by
  rw [byteOf, toNat_charOf, UInt8.ofNat_toNat]

theorem map_byteOf_charOf (bytes : List UInt8) : (bytes.map charOf).map byteOf = bytes := by
  rw [List.map_map]
  exact List.map_id'' byteOf_charOf bytes

section Copy

variable {dst src : List UInt8} {dstlen : ℕ}

/-- A string that fits is copied, with its terminator. -/
theorem strscpyBytes_fits (hdst : dstlen ≤ dst.length) (h : src.length < dstlen) :
    strscpyBytes dst src dstlen = ((src.length : ℤ), src ++ 0 :: dst.drop (src.length + 1)) := by
  have hloop := @copyLoop_eq dstlen (dst.map charOf) (src.map charOf) (by rwa [List.length_map])
  rw [List.length_map, if_pos h] at hloop
  simp only [strscpyBytes, strscpy, List.length_map, if_neg (Nat.not_le.mpr h), hloop,
    List.map_append, List.map_cons, map_byteOf_charOf, List.map_drop]
  rfl

/-- A string that does not fit is an error. -/
theorem strscpyBytes_big (h : dstlen ≤ src.length) : (strscpyBytes dst src dstlen).1 = -e2big := by
  simp only [strscpyBytes, strscpy, List.length_map, if_pos h]

/-- A copy succeeds exactly if the string fits. -/
theorem strscpyBytes_neg_iff (hdst : dstlen ≤ dst.length) :
    (strscpyBytes dst src dstlen).1 < 0 ↔ dstlen ≤ src.length := by
  refine ⟨fun hneg => ?_, fun h => by rw [strscpyBytes_big h]; decide⟩
  by_contra hfits
  rw [strscpyBytes_fits hdst (Nat.lt_of_not_le hfits)] at hneg
  exact absurd hneg (by simp)

end Copy

section Path

variable {dst dir filename : List UInt8} {dstsize : ℕ}

/-- Copying behind the string that a buffer holds -/
theorem strscpyBytes_append {front rest src : List UInt8}
    (hsize : (front ++ 0 :: rest).length = dstsize) (h : front.length + src.length < dstsize) :
    ∃ rest', strscpyBytes ((front ++ 0 :: rest).drop front.length) src (dstsize - front.length) =
        ((src.length : ℤ), src ++ 0 :: rest') ∧
      (front ++ src ++ 0 :: rest').length = dstsize := by
  have hdrop : (front ++ 0 :: rest).drop front.length = 0 :: rest := List.drop_left
  have hrest : (0 :: rest).length = dstsize - front.length := by
    rw [← hsize, List.length_append]
    omega
  refine ⟨(0 :: rest).drop (src.length + 1), ?_, ?_⟩
  · rw [hdrop, strscpyBytes_fits hrest.ge (by omega)]
  · rw [List.length_append, List.length_append, List.length_cons, List.length_drop, hrest]
    omega

/-- Copying a slash and a name behind the string that a buffer holds -/
theorem strscpyBytes_slash {front rest name : List UInt8}
    (hsize : (front ++ 0 :: rest).length = dstsize) (h : front.length + 1 + name.length < dstsize) :
    ∃ rest₁ rest₂,
      strscpyBytes ((front ++ 0 :: rest).drop front.length) (ascii "/") (dstsize - front.length) =
        (1, ascii "/" ++ 0 :: rest₁) ∧
      (front ++ 0 :: rest).take front.length ++ (ascii "/" ++ 0 :: rest₁) =
        front ++ ascii "/" ++ 0 :: rest₁ ∧
      strscpyBytes ((front ++ ascii "/" ++ 0 :: rest₁).drop (front.length + 1)) name
        (dstsize - (front.length + 1)) = ((name.length : ℤ), name ++ 0 :: rest₂) ∧
      (front ++ ascii "/" ++ 0 :: rest₁).take (front.length + 1) ++ (name ++ 0 :: rest₂) =
        front ++ ascii "/" ++ name ++ 0 :: rest₂ := by
  have hslash : (ascii "/").length = 1 := rfl
  obtain ⟨rest₁, hfirst, hsize₁⟩ :=
    @strscpyBytes_append dstsize front rest (ascii "/") hsize (by omega)
  have hpos : (front ++ ascii "/").length = front.length + 1 := by rw [List.length_append, hslash]
  obtain ⟨rest₂, hsecond, -⟩ :=
    @strscpyBytes_append dstsize (front ++ ascii "/") rest₁ name hsize₁ (by omega)
  rw [hpos] at hsecond
  refine ⟨rest₁, rest₂, hfirst, ?_, hsecond, ?_⟩
  · rw [List.take_left, List.append_assoc]
  · rw [List.take_left' hpos, ← List.append_assoc]

/-- A path that fits is put together. -/
theorem hwmonInitSingleSysfsPath_fits (hdst : dst.length = dstsize)
    (h : dir.length + 1 + filename.length < dstsize) :
    ∃ rest, hwmonInitSingleSysfsPath dst dir filename dstsize =
      ((filename.length : ℤ), dir ++ ascii "/" ++ filename ++ 0 :: rest) := by
  have hfirst := @strscpyBytes_fits dst dir dstsize hdst.ge (by omega)
  have hsize : (dir ++ 0 :: dst.drop (dir.length + 1)).length = dstsize := by
    rw [List.length_append, List.length_cons, List.length_drop]
    omega
  obtain ⟨rest₁, rest₂, hsecond, hjoin, hthird, hjoin'⟩ :=
    @strscpyBytes_slash dstsize dir _ filename hsize h
  refine ⟨rest₂, ?_⟩
  have hpos' : ((dir.length : ℤ) + 1).toNat = dir.length + 1 := rfl
  simp only [hwmonInitSingleSysfsPath, hfirst, Int.toNat_natCast, hsecond, hjoin, hpos',
    hthird, hjoin', if_neg (show ¬ (dir.length : ℤ) < 0 by omega),
    if_neg (show ¬ (dir.length : ℤ) + 1 < 0 by omega)]

/-- A path that does not fit is an error, if the name of the file is not short. -/
theorem hwmonInitSingleSysfsPath_big (hdst : dst.length = dstsize)
    (hname : 8 ≤ filename.length) (h : dstsize ≤ dir.length + 1 + filename.length) :
    (hwmonInitSingleSysfsPath dst dir filename dstsize).1 < 0 := by
  have hslash : (ascii "/").length = 1 := rfl
  have he2big : -e2big = -7 := rfl
  by_cases hdir : dstsize ≤ dir.length
  · have hneg := (@strscpyBytes_neg_iff dst dir dstsize hdst.ge).mpr hdir
    simp only [hwmonInitSingleSysfsPath, if_pos hneg]
    exact hneg
  · have hfirst := @strscpyBytes_fits dst dir dstsize hdst.ge (by omega)
    simp only [hwmonInitSingleSysfsPath, hfirst, Int.toNat_natCast,
      if_neg (show ¬ (dir.length : ℤ) < 0 by omega)]
    by_cases hlast : dir.length + 1 = dstsize
    · -- no room for the slash: the position goes back by `E2BIG`
      rw [@strscpyBytes_big _ (ascii "/") (dstsize - dir.length) (by omega), he2big]
      split_ifs with hpos
      · exact hpos
      · rw [strscpyBytes_big (by omega)]
        decide
    · have hsecond := @strscpyBytes_append dstsize dir (dst.drop (dir.length + 1)) (ascii "/")
        (by rw [List.length_append, List.length_cons, List.length_drop]; omega) (by omega)
      obtain ⟨rest₁, hsecond, -⟩ := hsecond
      rw [hsecond, hslash]
      split_ifs with hpos
      · exact hpos
      · rw [strscpyBytes_big (by omega)]
        decide

end Path

/-! ## The directory -/

/-- The digits, as characters and as bytes -/
theorem isDigit_iff (c : Char) : c.isDigit = true ↔ 48 ≤ c.toNat ∧ c.toNat ≤ 57 := by
  rw [Char.isDigit, Bool.and_eq_true, decide_eq_true_eq, decide_eq_true_eq, ge_iff_le,
    UInt32.le_iff_toNat_le, UInt32.le_iff_toNat_le]
  rfl

/-- What the pattern for the directory matches -/
theorem matches_hwmonRegex {start : Bool} {s : List Char} :
    (∃ ps, Matches hwmonRegex start s ps) ↔
      ∃ w r, s = ['h', 'w', 'm', 'o', 'n'] ++ (w ++ r) ∧ IsNumeral w := by
  have hre : hwmonRegex = ['h', 'w', 'm', 'o', 'n'].map (chr · 0) ++ [digits 0] := rfl
  have hbol : ∀ n ∈ [digits 0], n.isBol = false := by simp [digits, Node.isBol]
  rw [hre]
  refine ⟨?_, ?_⟩
  · rintro ⟨ps, hm⟩
    obtain ⟨t, ps, rfl, rfl, htail⟩ := (matches_chrs hbol).mp hm
    obtain ⟨w, r, ps, hw, rfl, rfl, -⟩ := matches_digits.mp htail
    exact ⟨w, r, rfl, hw⟩
  · rintro ⟨w, r, rfl, hw⟩
    have htail : Matches [digits 0] false (w ++ r) [w] :=
      matches_digits.mpr ⟨w, r, [], hw, rfl, rfl, rfl⟩
    exact ⟨_, (matches_chrs hbol).mpr ⟨_, _, rfl, rfl, htail⟩⟩

/-- The expression finds `hwmon` with a digit behind it. -/
theorem hwmonMatch_iff (name : List UInt8) : hwmonMatch name = true ↔ HwmonName name := by
  rw [hwmonMatch, Option.isSome_iff_exists]
  refine ⟨?_, ?_⟩
  · rintro ⟨ps, hps⟩
    obtain ⟨pre, suf, hsplit, hm⟩ := regexec_matches hps
    obtain ⟨w, r, hm, ⟨hne, hdigits⟩⟩ := matches_hwmonRegex.mp ⟨ps, hm⟩
    obtain ⟨d, w, rfl⟩ := List.exists_cons_of_ne_nil hne
    have hd := hdigits d (List.mem_cons_self ..)
    have hname : name = pre.map byteOf ++ ascii "hwmon" ++ byteOf d :: (w ++ r).map byteOf := by
      rw [← map_byteOf_charOf name, hsplit, hm]
      simp [ascii]
    obtain ⟨hlow, hhigh⟩ := (isDigit_iff d).mp hd
    have hbyte : (byteOf d).toNat = d.toNat :=
      UInt8.toNat_ofNat_of_lt' (show d.toNat < 2 ^ 8 by omega)
    refine ⟨_, _, _, hname, ?_, ?_⟩
    · rw [UInt8.le_iff_toNat_le, hbyte]
      exact hlow
    · rw [UInt8.le_iff_toNat_le, hbyte]
      exact hhigh
  · rintro ⟨front, digit, back, rfl, hlow, hhigh⟩
    have hdigit : (charOf digit).isDigit = true := by
      rw [isDigit_iff, toNat_charOf]
      exact ⟨UInt8.le_iff_toNat_le.mp hlow, UInt8.le_iff_toNat_le.mp hhigh⟩
    have hm := (@matches_hwmonRegex ((front.map charOf).length == 0) _).mpr
      ⟨[charOf digit], back.map charOf, rfl, by simp, by simpa using hdigit⟩
    obtain ⟨ps, hm⟩ := hm
    obtain ⟨qs, hqs⟩ := regexec_isSome hm
    refine ⟨qs, ?_⟩
    rw [← hqs]
    congr 1
    simp
    rfl

theorem decimal_length {i : ℕ} (h : i < maxDriDirIdx) : (decimal i).length ≤ 3 := by
  have hlt : i < 128 := h
  rw [decimal, List.length_map]
  exact (Nat.length_toDigits_le_iff (by decide) (by decide)).mpr (by omega)

/-- The path of `amdgpu_pm_info` fits its buffer. -/
theorem pmInfoPath_length {i : ℕ} (h : i < maxDriDirIdx) :
    (pmInfoPath i).length < hwmonPathSize := by
  have hdecimal := decimal_length h
  have hfront : (ascii "/sys/kernel/debug/dri").length = 21 := rfl
  have hslash : (ascii "/").length = 1 := rfl
  have hback : (ascii "amdgpu_pm_info").length = 14 := rfl
  simp only [pmInfoPath, List.length_append, hfront, hslash, hback, hwmonPathSize]
  omega

theorem hwmonDir_length {idx : ℕ} (h : idx < maxDriDirIdx) : (hwmonDir idx).length ≤ 36 := by
  have hdecimal := decimal_length h
  have hfront : (ascii "/sys/class/drm/card").length = 19 := rfl
  have hback : (ascii "/device/hwmon/").length = 14 := rfl
  simp only [hwmonDir, List.length_append, hfront, hback]
  omega

section Detect

variable (env : HwmonEnv)

/-- The loop finds the first index that has the file. -/
theorem detectCardIndexLoop_eq {is : List ℕ} (h : ∀ i ∈ is, i < maxDriDirIdx) :
    detectCardIndexLoop env is =
      match is.find? fun i => env.cacheEnv.fileExists (pmInfoPath i) with
      | some i => (i : ℤ)
      | none => -1 := by
  induction is with
  | nil => rfl
  | cons i is ih =>
    have hfits := pmInfoPath_length (h i (List.mem_cons_self ..))
    rw [detectCardIndexLoop, if_neg (Nat.not_le.mpr hfits), List.find?_cons]
    by_cases hexists : env.cacheEnv.fileExists (pmInfoPath i) = true
    · rw [if_pos hexists, hexists]
    · rw [if_neg hexists, eq_false_of_ne_true hexists]
      exact ih fun j hj => h j (List.mem_cons_of_mem i hj)

/-- `hwmon_detect_card_index` finds the lowest index, or there is none. -/
theorem hwmonDetectCardIndex_cases :
    (∃ idx : ℕ, env.IsCardIndex idx ∧ hwmonDetectCardIndex env = idx) ∨
      (∀ idx, ¬ env.IsCardIndex idx) ∧ hwmonDetectCardIndex env = -1 := by
  rw [hwmonDetectCardIndex, detectCardIndexLoop_eq env fun i hi => List.mem_range.mp hi]
  rcases hfind : (List.range maxDriDirIdx).find? fun i => env.cacheEnv.fileExists (pmInfoPath i)
    with _ | idx
  · rw [List.find?_eq_none] at hfind
    refine Or.inr ⟨fun idx hidx => ?_, rfl⟩
    exact hfind idx (List.mem_range.mpr hidx.1) hidx.2.1
  · rw [List.find?_range_eq_some] at hfind
    obtain ⟨hexists, hlt, hlower⟩ := hfind
    refine Or.inl ⟨idx, ⟨List.mem_range.mp hlt, hexists, fun j hj => ?_⟩, rfl⟩
    simpa using hlower j hj

/-- There is one first index. -/
theorem HwmonEnv.IsCardIndex.unique {env : HwmonEnv} {i j : ℕ} (hi : env.IsCardIndex i)
    (hj : env.IsCardIndex j) : i = j := by
  rcases Nat.lt_trichotomy i j with h | h | h
  · have hfalse := hj.2.2 i h
    rw [hi.2.1] at hfalse
    cases hfalse
  · exact h
  · have hfalse := hi.2.2 j h
    rw [hj.2.1] at hfalse
    cases hfalse

variable {env}

/-- Without an entry, the destination stays as it was and there is no error. -/
theorem hwmonDetectIfaceDir_none {idx : ℕ} (hidx : idx < maxDriDirIdx)
    (hregcomp : env.regcompOk = true) (h : env.NoEntry idx) (dst : List UInt8) (dstsize : ℕ) :
    hwmonDetectIfaceDir env dst idx dstsize = some (0, dst) := by
  obtain ⟨entries, hlisting, hnone⟩ := h
  have hfits : ¬ hwmonPathSize < (hwmonDir idx).length := by
    have hlen := hwmonDir_length hidx
    simp only [hwmonPathSize]
    omega
  have hfind : entries.find? hwmonMatch = none := by
    rw [List.find?_eq_none]
    intro name hname hmatch
    exact hnone name hname ((hwmonMatch_iff name).mp hmatch)
  simp only [hwmonDetectIfaceDir, if_neg hfits, hregcomp, not_true_eq_false, if_false, hlisting,
    hfind]

/-- A resolved path that fits into the buffer is copied. -/
theorem fsysAbspath_fits {realpath : List UInt8 → Option (List UInt8)} {dst path dir : List UInt8}
    {dstsize : ℕ} (hreal : realpath path = some dir) (hdst : dstsize ≤ dst.length)
    (hfits : dir.length < dstsize) :
    ∃ rest, fsysAbspath realpath dst path dstsize = ((dir.length : ℤ), dir ++ 0 :: rest) := by
  have hpos : ¬ ((dir.length : ℤ) < 0) := by omega
  refine ⟨dst.drop (dir.length + 1), ?_⟩
  rw [fsysAbspath, hreal]
  dsimp only
  rw [strscpyBytes_fits hdst hfits]
  dsimp only
  rw [if_neg hpos]

/-- A path that cannot be resolved is an error of `fsys_abspath`, like one that does not fit. -/
theorem fsysAbspath_ok {realpath : List UInt8 → Option (List UInt8)}
    (hresolved : ∀ path dir, realpath path = some dir → 0 ∉ dir) {dst dst' path : List UInt8}
    {dstsize : ℕ} {status : ℤ} (hdst : dstsize ≤ dst.length)
    (h : fsysAbspath realpath dst path dstsize = (status, dst')) (hok : 0 ≤ status) :
    realpath path = some (pathOf dst') ∧ (pathOf dst').length < dstsize := by
  rcases hreal : realpath path with _ | dir
  · rw [fsysAbspath, hreal] at h
    cases h
    exact absurd hok (by decide)
  · by_cases hbig : dstsize ≤ dir.length
    · have hneg := (@strscpyBytes_neg_iff dst dir dstsize hdst).mpr hbig
      simp only [fsysAbspath, hreal, if_pos hneg] at h
      cases h
      exact absurd hok (by decide)
    · obtain ⟨rest, hfits⟩ := fsysAbspath_fits hreal hdst (Nat.lt_of_not_le hbig)
      rw [hfits] at h
      cases h
      rw [pathOf_append rest (hresolved path dir hreal)]
      exact ⟨rfl, Nat.lt_of_not_le hbig⟩

/-- If there is no error, the destination holds the directory, or there is no entry. -/
theorem hwmonDetectIfaceDir_ok {idx : ℕ} (hidx : idx < maxDriDirIdx) {dst dst' : List UInt8}
    (hdst : dst.length = hwmonPathSize) {status : ℤ}
    (h : hwmonDetectIfaceDir env dst idx hwmonPathSize = some (status, dst')) (hok : 0 ≤ status) :
    env.regcompOk = true ∧ (env.NoEntry idx ∧ dst' = dst ∨ env.IsIfaceDir idx (pathOf dst')) := by
  have hlen := hwmonDir_length hidx
  have hsize : hwmonPathSize = 256 := rfl
  simp only [hwmonDetectIfaceDir,
    if_neg (show ¬ hwmonPathSize < (hwmonDir idx).length by omega)] at h
  by_cases hregcomp : env.regcompOk = true
  · refine ⟨hregcomp, ?_⟩
    rw [if_neg (not_not.mpr hregcomp)] at h
    rcases hlisting : env.listing (hwmonDir idx) with _ | entries
    · rw [hlisting] at h
      cases h
    · rw [hlisting] at h
      dsimp only at h
      rcases hfind : entries.find? hwmonMatch with _ | name
      · rw [hfind] at h
        cases h
        -- no entry matches: the loop ends and the destination is what it was
        refine Or.inl ⟨⟨entries, hlisting, fun name hname hmatch => ?_⟩, rfl⟩
        exact List.find?_eq_none.mp hfind name hname ((hwmonMatch_iff name).mpr hmatch)
      · rw [hfind] at h
        have hmem : name ∈ entries := List.mem_of_find?_eq_some hfind
        have hnul := env.names _ _ hlisting name hmem
        have hscratch : hwmonPathSize - (hwmonDir idx).length ≤
            (env.scratch.drop (hwmonDir idx).length).length := by
          rw [List.length_drop, env.scratch_size]
        dsimp only at h
        split_ifs at h with hneg
        · cases h
          omega
        · rw [strscpyBytes_neg_iff hscratch, Nat.not_le] at hneg
          rw [strscpyBytes_fits hscratch hneg, pathOf_append _ hnul] at h
          obtain ⟨hreal, -⟩ := fsysAbspath_ok env.resolved hdst.ge (Option.some.inj h) hok
          have hname := (hwmonMatch_iff name).mp (List.find?_some hfind)
          exact Or.inr ⟨entries, name, hlisting, hmem, hname, hreal⟩
  · rw [if_pos hregcomp] at h
    cases h
    omega

end Detect

/-! ## Setting the paths -/

/-- There is room for the three paths of a directory. -/
def FitsDir (dir : List UInt8) : Prop := dir.length + 12 < hwmonPathSize

theorem pathOf_zero_not_mem (cells : List UInt8) : 0 ∉ pathOf cells := by
  intro h
  have hne := List.mem_takeWhile_imp h
  simp at hne

/-- The string that a call leaves in its buffer -/
theorem hwmonInitSingleSysfsPath_path {dst dir filename : List UInt8}
    (hdst : dst.length = hwmonPathSize) (hdir : 0 ∉ dir) (hname : 0 ∉ filename)
    (h : dir.length + 1 + filename.length < hwmonPathSize) :
    (hwmonInitSingleSysfsPath dst dir filename hwmonPathSize).1 = filename.length ∧
      pathOf (hwmonInitSingleSysfsPath dst dir filename hwmonPathSize).2 =
        dir ++ ascii "/" ++ filename := by
  obtain ⟨rest, heq⟩ := hwmonInitSingleSysfsPath_fits hdst h
  have hslash : 0 ∉ ascii "/" := by decide
  rw [heq]
  refine ⟨rfl, pathOf_append rest ?_⟩
  rw [List.mem_append, List.mem_append, not_or, not_or]
  exact ⟨⟨hdir, hslash⟩, hname⟩

section Paths

variable (cache : FandCache) {dir : List UInt8}

/-- The three calls succeed if there is room. -/
theorem FandCache.initPaths_fits (hdir : 0 ∉ dir) (hfits : FitsDir dir) :
    ∃ cache', cache.initPaths dir = (11, cache') ∧ cache'.cardIdx = cache.cardIdx ∧
      cache'.InDir dir := by
  have hroom : dir.length + 12 < hwmonPathSize := hfits
  have htemp := @hwmonInitSingleSysfsPath_path _ _ (ascii "temp1_input") cache.tempInput_size hdir
    (by decide) hroom
  have hpwm := @hwmonInitSingleSysfsPath_path _ _ (ascii "pwm1") cache.pwm_size hdir (by decide)
    (show dir.length + 1 + 4 < hwmonPathSize by omega)
  have henable := @hwmonInitSingleSysfsPath_path _ _ (ascii "pwm1_enable") cache.pwmEnable_size hdir
    (by decide) hroom
  have htemp' : (cache.initTempInput dir).1 = 11 := htemp.1
  have hpwm' : ((cache.initTempInput dir).2.initPwm dir).1 = 4 := hpwm.1
  have hall : cache.initPaths dir =
      ((cache.initTempInput dir).2.initPwm dir).2.initPwmEnable dir := by
    simp only [FandCache.initPaths]
    rw [htemp', if_neg (by decide), hpwm', if_neg (by decide)]
  refine ⟨(cache.initPaths dir).2, Prod.ext ?_ rfl, ?_, ?_⟩
  · rw [hall]
    exact henable.1
  · rw [hall]
    rfl
  · rw [hall]
    exact ⟨hpwm.2.trans (List.append_assoc ..), henable.2.trans (List.append_assoc ..),
      htemp.2.trans (List.append_assoc ..)⟩

/-- They fail if there is not: the longest name is the first. -/
theorem FandCache.initPaths_big (h : ¬ FitsDir dir) : (cache.initPaths dir).1 < 0 := by
  have hneg := @hwmonInitSingleSysfsPath_big _ dir (ascii "temp1_input") _ cache.tempInput_size
    (by decide) (Nat.le_of_not_lt h)
  have hneg' : (cache.initTempInput dir).1 < 0 := hneg
  simp only [FandCache.initPaths, if_pos hneg']
  exact hneg'

end Paths

section SetPaths

variable {env : HwmonEnv} {cache : FandCache}

/-- `hwmon_set_sysfs_paths` with a buffer that holds no directory -/
theorem hwmonSetSysfsPaths_none {idx : ℕ} (hidx : env.IsCardIndex idx)
    (hregcomp : env.regcompOk = true) (hnone : env.NoEntry idx) (hiface : 0 ∈ env.iface)
    (hfits : FitsDir (pathOf env.iface)) :
    ∃ cache', hwmonSetSysfsPaths env cache = some (11, cache') ∧
      cache'.cardIdx = UInt32.ofNat idx ∧ cache'.InDir (pathOf env.iface) := by
  have hcard : hwmonDetectCardIndex env = idx := by
    obtain ⟨idx', hidx', heq⟩ | ⟨hno, -⟩ := hwmonDetectCardIndex_cases env
    · rw [heq, hidx.unique hidx']
    · exact absurd hidx (hno idx)
  have hdetect := hwmonDetectIfaceDir_none hidx.1 hregcomp hnone env.iface hwmonPathSize
  obtain ⟨cache', hinit, hcardIdx, hdir⟩ :=
    { cache with cardIdx := UInt32.ofNat idx }.initPaths_fits (pathOf_zero_not_mem env.iface) hfits
  refine ⟨cache', ?_, hcardIdx, hdir⟩
  simp only [hwmonSetSysfsPaths, hcard, Int.toNat_natCast, hdetect, Option.bind_eq_bind,
    Option.bind_some, if_neg (show ¬ (idx : ℤ) < 0 by omega), if_neg (show ¬ (0 : ℤ) < 0 by decide),
    if_neg (not_not.mpr hiface), hinit]

/-- If `hwmon_set_sysfs_paths` reports no error, the paths are those of a directory of sysfs, or
of the string that was in the buffer. -/
theorem hwmonSetSysfsPaths_ok {cache' : FandCache} {status : ℤ}
    (h : hwmonSetSysfsPaths env cache = some (status, cache')) (hok : 0 ≤ status) :
    env.FromSysfs cache' ∨
      ∃ idx, env.IsCardIndex idx ∧ env.regcompOk = true ∧ env.NoEntry idx ∧ 0 ∈ env.iface ∧
        FitsDir (pathOf env.iface) ∧ cache'.InDir (pathOf env.iface) := by
  obtain ⟨idx, hidx, hcard⟩ | ⟨-, hcard⟩ := hwmonDetectCardIndex_cases env
  · simp only [hwmonSetSysfsPaths, hcard, Int.toNat_natCast,
      if_neg (show ¬ (idx : ℤ) < 0 by omega)] at h
    obtain ⟨⟨detected, iface⟩, hdetect, h⟩ := Option.bind_eq_some_iff.mp h
    dsimp only at h
    split_ifs at h with hneg hiface
    · cases h
      omega
    · obtain ⟨hregcomp, horigin⟩ := hwmonDetectIfaceDir_ok hidx.1 env.iface_size hdetect (by omega)
      have hfits : FitsDir (pathOf iface) := by
        by_contra hbig
        have hneg' := FandCache.initPaths_big { cache with cardIdx := UInt32.ofNat idx } hbig
        rw [Option.some.inj h] at hneg'
        omega
      obtain ⟨cache₁, hinit, -, hdir⟩ :=
        FandCache.initPaths_fits { cache with cardIdx := UInt32.ofNat idx }
          (pathOf_zero_not_mem iface) hfits
      rw [hinit] at h
      cases h
      rcases horigin with ⟨hnone, rfl⟩ | hsysfs
      · exact Or.inr ⟨idx, hidx, hregcomp, hnone, hiface, hfits, hdir⟩
      · exact Or.inl ⟨idx, pathOf iface, hidx, hsysfs, hdir⟩
  · simp only [hwmonSetSysfsPaths, hcard, if_pos (show (-1 : ℤ) < 0 by decide)] at h
    cases h
    omega

end SetPaths

/-! ## Opening -/

/-- A record is known by its image. -/
theorem FandCache.image_inj {a b : FandCache} (h : a.image = b.image) : a = b := by
  have ha := cacheCopy_image a
  rw [h, cacheCopy_image b] at ha
  cases ha
  rfl

section Open

variable {env : HwmonEnv}

/-- `cache_load` returns 0 for a cache that is accepted, and -1 for every other. -/
theorem cacheLoad_cases (env : HwmonEnv) (cache : FandCache) :
    (∃ stored, env.CachedAs stored ∧
        cacheLoad env.cacheEnv env.file cache = some (0, stored.terminate)) ∨
      (∀ stored, ¬ env.CachedAs stored) ∧
        ∃ cache', cacheLoad env.cacheEnv env.file cache = some (-1, cache') := by
  rcases hfile : env.file with _ | content
  · refine Or.inr ⟨?_, cache, rfl⟩
    rintro stored ⟨-, ⟨content, hcontent, -⟩, -⟩
    rw [hfile] at hcontent
    cases hcontent
  by_cases hreadable : env.cacheEnv.readable = true
  swap
  · exact Or.inr ⟨fun stored hstored => hreadable hstored.1, cache, by simp [cacheLoad, hreadable]⟩
  by_cases hsize : (content.take cacheSize).length = cacheSize
  · obtain ⟨stored, himage⟩ := FandCache.exists_image hsize
    have hload := cacheLoad_image stored cache (content.drop cacheSize) hreadable
    rw [himage, List.take_append_drop] at hload
    by_cases haccepts : env.cacheEnv.Accepts stored
    · rw [if_pos haccepts] at hload
      exact Or.inl ⟨stored, ⟨hreadable, ⟨content, hfile, himage.symm⟩, haccepts⟩, hload⟩
    · rw [if_neg haccepts] at hload
      refine Or.inr ⟨?_, _, hload⟩
      rintro stored' ⟨-, ⟨content', hcontent, himage'⟩, haccepts'⟩
      rw [hfile] at hcontent
      cases hcontent
      rw [FandCache.image_inj (himage.trans himage')] at haccepts
      exact haccepts haccepts'
  -- the file is too short to be a record
  · have hload : cacheLoad env.cacheEnv (some content) cache = some (-1, cache) := by
      simp only [cacheLoad]
      rw [if_neg (not_not.mpr hreadable), if_pos hsize]
    refine Or.inr ⟨?_, cache, hload⟩
    rintro stored ⟨-, ⟨content', hcontent, himage⟩, -⟩
    rw [hfile] at hcontent
    cases hcontent
    rw [himage] at hsize
    exact hsize stored.image_length

/-- The paths are made of whatever the buffer for the directory holds, and every step succeeds:
the cache is not accepted, there is a card, but no entry for its sensors, the buffer holds a string
that is short enough, the cache can be written as a whole, and the file `pwm1_enable` of that string
can be opened and written. -/
def HwmonEnv.UsesGarbage (env : HwmonEnv) : Prop :=
  (∀ stored, ¬ env.CachedAs stored) ∧ env.regcompOk = true ∧
    (∃ idx, env.IsCardIndex idx ∧ env.NoEntry idx) ∧ 0 ∈ env.iface ∧ FitsDir (pathOf env.iface) ∧
    (env.cacheEnv.dirExists = true ∨ env.cacheEnv.mkdirOk = true) ∧
    env.cacheEnv.writable = true ∧ env.cacheEnv.written = cacheSize ∧
    env.cacheEnv.closeOk = true ∧ env.controllable (pathOf env.iface ++ ascii "/pwm1_enable") = true

/-- Then `hwmon_open` reports no error, and its paths are those of the string. -/
theorem HwmonEnv.UsesGarbage.hwmonOpen (h : env.UsesGarbage) (cache : FandCache) :
    ∃ n cache' file', hwmonOpen env cache = some (n, cache', file') ∧ 0 ≤ n ∧
      cache'.InDir (pathOf env.iface) := by
  obtain ⟨hcache, hregcomp, ⟨idx, hidx, hnone⟩, hiface, hfits, hdir, hwritable, hwhole, hclose,
    hcontrol⟩ := h
  obtain ⟨stored, hstored, -⟩ | ⟨-, cache₁, hload⟩ := cacheLoad_cases env cache
  · exact absurd hstored (hcache stored)
  obtain ⟨cache₂, hset, hcard, hpaths⟩ :=
    @hwmonSetSysfsPaths_none env cache₁ idx hidx hregcomp hnone hiface hfits
  have hwrite := cacheWrite_eq cache₂ env.file hdir hwritable hwhole hclose
  have hmanual : hwmonSetPwmModeManual env cache₂ = 0 := by
    rw [hwmonSetPwmModeManual, hpaths.2.1, if_pos hcontrol]
  have hsmall : idx < 2 ^ 31 := lt_trans hidx.1 (by decide)
  have hpos : 0 ≤ cache₂.cardIdx.toBitVec.toInt := by
    have hval : cache₂.cardIdx.toBitVec.toNat = idx := by
      rw [hcard]
      exact UInt32.toNat_ofNat_of_lt' (show idx < 2 ^ 32 by omega)
    rw [BitVec.toInt_eq_toNat_of_lt (by rw [hval]; omega)]
    exact Int.natCast_nonneg _
  refine ⟨cache₂.cardIdx.toBitVec.toInt, cache₂,
    some (cache₂.stored.image ++ (env.file.getD []).drop cacheSize), ?_, hpos, hpaths⟩
  have hdetect : hwmonDetect env cache₁ =
      some (0, cache₂, some (cache₂.stored.image ++ (env.file.getD []).drop cacheSize)) := by
    rw [hwmonDetect, hset, Option.bind_eq_bind, Option.bind_some]
    dsimp only
    rw [if_neg (by decide), hwrite]
    rfl
  simp only [AmdgpuFand.hwmonOpen, hload, Option.bind_eq_bind, Option.bind_some]
  rw [if_pos (by decide), hdetect, Option.bind_some]
  dsimp only
  rw [hmanual]
  rfl

/-- What the paths are when `hwmon_open` reports no error -/
theorem hwmonOpen_ok {cache cache' : FandCache} {file' : Option (List UInt8)} {n : ℤ}
    (h : hwmonOpen env cache = some (n, cache', file')) (hn : 0 ≤ n) :
    env.FromCache cache' ∨ env.FromSysfs cache' ∨ env.UsesGarbage := by
  rw [hwmonOpen] at h
  obtain ⟨⟨loaded, cache₁⟩, hload, h⟩ := Option.bind_eq_some_iff.mp h
  obtain ⟨⟨status, cache₂, file₂⟩, hpaths, h⟩ := Option.bind_eq_some_iff.mp h
  -- the last step leaves the record alone, and there is no error in it
  have hlast : cache₂ = cache' ∧ 0 ≤ status ∧
      env.controllable (pathOf cache₂.pwmEnable) = true := by
    simp only [hwmonSetPwmModeManual] at h
    split_ifs at h with hstatus hcontrol hneg
    · cases h
      omega
    · exact absurd hneg (by decide)
    · cases h
      exact ⟨rfl, by omega, hcontrol⟩
    · cases h
      omega
    · exact absurd (show (-1 : ℤ) < 0 by decide) (by assumption)
  obtain ⟨rfl, hstatus, hcontrol⟩ := hlast
  obtain ⟨stored, hstored, hload'⟩ | ⟨hcache, cache₃, hload'⟩ := cacheLoad_cases env cache
  · rw [hload'] at hload
    cases hload
    rw [if_neg (by decide)] at hpaths
    cases hpaths
    exact Or.inl ⟨stored, hstored, rfl, rfl, rfl⟩
  · rw [hload'] at hload
    cases hload
    rw [if_pos (by decide), hwmonDetect] at hpaths
    obtain ⟨⟨set, cache₃⟩, hset, hpaths⟩ := Option.bind_eq_some_iff.mp hpaths
    dsimp only at hpaths
    split_ifs at hpaths with hneg
    · cases hpaths
      omega
    · obtain ⟨⟨written, file₃⟩, hwrite, hpaths⟩ := Option.bind_eq_some_iff.mp hpaths
      cases hpaths
      obtain ⟨hdir, hwritable, hwhole, hclose⟩ := cacheWrite_calls hwrite hstatus
      rcases hwmonSetSysfsPaths_ok hset (by omega) with hsysfs | hgarbage
      · exact Or.inr (Or.inl hsysfs)
      · obtain ⟨idx, hidx, hregcomp, hnone, hiface, hfits, hindir⟩ := hgarbage
        rw [hindir.2.1] at hcontrol
        exact Or.inr (Or.inr ⟨hcache, hregcomp, ⟨idx, hidx, hnone⟩, hiface, hfits, hdir, hwritable,
          hwhole, hclose, hcontrol⟩)

/-- The paths of a garbage directory have neither origin. -/
theorem HwmonEnv.UsesGarbage.not_origin (h : env.UsesGarbage) (cache : FandCache) :
    ¬ (env.FromCache cache ∨ env.FromSysfs cache) := by
  obtain ⟨hcache, -, ⟨idx, hidx, entries, hlisting, hnone⟩, -⟩ := h
  rintro (⟨stored, hstored, -⟩ | ⟨idx', dir, hidx', ⟨entries', name, hlisting', hmem, hname, -⟩, -⟩)
  · exact hcache stored hstored
  · rw [hidx'.unique hidx, hlisting] at hlisting'
    cases hlisting'
    exact hnone name hmem hname

end Open

/-- **Provenance.** For every cache file, every content of the directories and every content of the
buffers: if `hwmon_open` returns a non-negative value, the three paths are those of an accepted
cache, or those of a directory that sysfs lists for the card, exactly if no garbage is used. -/
theorem hwmonOpen_exact (env : HwmonEnv) (cache : FandCache) :
    (∀ n cache' file', hwmonOpen env cache = some (n, cache', file') → 0 ≤ n →
      env.FromCache cache' ∨ env.FromSysfs cache') ↔ ¬ env.UsesGarbage := by
  refine ⟨?_, ?_⟩
  · intro horigin hgarbage
    obtain ⟨n, cache', file', hopen, hn, -⟩ := hgarbage.hwmonOpen cache
    exact hgarbage.not_origin cache' (horigin n cache' file' hopen hn)
  · intro hno n cache' file' hopen hn
    rcases hwmonOpen_ok hopen hn with hcache | hsysfs | hgarbage
    · exact Or.inl hcache
    · exact Or.inr hsysfs
    · exact absurd hgarbage hno

/-- A machine without a cache whose first card has no entry for its sensors, and a buffer that
holds `/a` from an earlier call -/
def noSensors : HwmonEnv where
  cacheEnv :=
    { padded := false
      fileExists := fun file => file == pmInfoPath 0
      dirExists := true
      mkdirOk := false
      writable := true
      written := cacheSize
      closeOk := true
      readable := true
      ctx := ⟨0, 0, 0, 0, 0, 0, 0, List.replicate 64 0xff, rfl⟩
      buffer := List.replicate cacheSize 0xff
      buffer_size := List.length_replicate
      written_le := le_rfl }
  file := none
  regcompOk := true
  listing := fun _ => some [ascii ".", ascii ".."]
  realpath := fun _ => none
  controllable := fun _ => true
  iface := ascii "/a" ++ List.replicate 254 0
  scratch := List.replicate hwmonPathSize 0xff
  iface_size := by rw [List.length_append, List.length_replicate]; rfl
  scratch_size := List.length_replicate
  names := by
    rintro dir entries ⟨⟩ name hname
    rw [List.mem_cons, List.mem_singleton] at hname
    rcases hname with rfl | rfl <;> decide
  resolved := by
    rintro path dir ⟨⟩

/-- A directory without an entry for the sensors meets the condition. -/
theorem noSensors_usesGarbage : noSensors.UsesGarbage := by
  have hpath : pathOf noSensors.iface = ascii "/a" := by decide
  refine ⟨?_, rfl, ⟨0, ⟨by decide, by decide, fun j hj => absurd hj (Nat.not_lt_zero j)⟩, ?_⟩,
    by decide, ?_, Or.inl rfl, rfl, rfl, rfl, rfl⟩
  · rintro stored ⟨-, ⟨content, hcontent, -⟩, -⟩
    cases hcontent
  · refine ⟨[ascii ".", ascii ".."], rfl, fun name hname hmatch => ?_⟩
    rw [← hwmonMatch_iff] at hmatch
    rw [List.mem_cons, List.mem_singleton] at hname
    rcases hname with rfl | rfl <;> exact absurd hmatch (by decide)
  · rw [hpath, FitsDir]
    decide

/-- The fans of `/a` are controlled, and `/a` comes from nowhere. -/
theorem hwmonOpen_uninitialised_directory :
    ∃ cache : FandCache, ¬ ∀ n cache' file',
      hwmonOpen noSensors cache = some (n, cache', file') → 0 ≤ n →
        noSensors.FromCache cache' ∨ noSensors.FromSysfs cache' := by
  refine ⟨⟨List.replicate hwmonPathSize 0, List.replicate hwmonPathSize 0,
    List.replicate hwmonPathSize 0, 0, List.replicate 20 0, List.length_replicate,
    List.length_replicate, List.length_replicate, rfl⟩, fun horigin => ?_⟩
  obtain ⟨n, cache', file', hopen, hn, -⟩ := noSensors_usesGarbage.hwmonOpen _
  exact noSensors_usesGarbage.not_origin cache' (horigin n cache' file' hopen hn)

end AmdgpuFand
