import AmdgpuFand.Ipc
import AmdgpuFand.Sha1

/-!
# The cache

The model of `cache.c`. Finding the files of the card takes a search through sysfs, so the daemon
keeps their paths in a file: the three path buffers, the index of the card and a SHA-1 checksum of
both. `cache_write` packs them in two calls of `packf`, with the checksum of the first written by
the second, and puts as much of this as `write` takes in front of whatever the file held.
`cache_load` reads them back, in one copy if `struct fand_cache` has no padding and with `unpackf`
if it has, and accepts them if the checksum is right and the paths are those of files under `/sys/`.

`cache_round_trip` is about both ways of reading and every previous content of the file.
-/

namespace AmdgpuFand

/-! ## The record -/

/-- `HWMON_PATH_SIZE` -/
def hwmonPathSize : ℕ := 256

/-- `struct fand_cache`. The paths are the cells of their buffers. -/
@[ext]
structure FandCache where
  pwm : List UInt8
  pwmEnable : List UInt8
  tempInput : List UInt8
  cardIdx : UInt32
  checksum : List UInt8
  pwm_size : pwm.length = hwmonPathSize
  pwmEnable_size : pwmEnable.length = hwmonPathSize
  tempInput_size : tempInput.length = hwmonPathSize
  checksum_size : checksum.length = sha1Digestsize

/-- `CACHE_SIZE` -/
def cacheSize : ℕ := hwmonPathSize + hwmonPathSize + hwmonPathSize + 4 + sha1Digestsize

/-- The string in a buffer -/
def pathOf (cells : List UInt8) : List UInt8 := cells.takeWhile (· ≠ 0)

/-- The record with these members, if they have the right sizes -/
def FandCache.ofMembers (pwm pwmEnable tempInput cardIdx checksum : List UInt8) :
    Option FandCache :=
  if h : pwm.length = hwmonPathSize ∧ pwmEnable.length = hwmonPathSize ∧
      tempInput.length = hwmonPathSize ∧ checksum.length = sha1Digestsize then
    some ⟨pwm, pwmEnable, tempInput, UInt32.ofNat (Memory.leValue cardIdx), checksum,
      h.1, h.2.1, h.2.2.1, h.2.2.2⟩
  else none

/-- The bytes of `card_idx` -/
def FandCache.cardBytes (cache : FandCache) : List UInt8 := Memory.leBytes 4 cache.cardIdx.toNat

/-- What the cache depends on outside the program, and what its local variables hold before
they are written -/
structure CacheEnv where
  /-- `cache_struct_is_padded` -/
  padded : Bool
  /-- `fsys_file_exists` -/
  fileExists : List UInt8 → Bool
  /-- `fsys_dir_exists(FAND_CACHE_DIR)` -/
  dirExists : Bool
  /-- `mkdir` succeeds -/
  mkdirOk : Bool
  /-- `open` for writing succeeds, and then the file is there, whatever becomes of `write` -/
  writable : Bool
  /-- the number of bytes that `write` takes from the buffer, none if it fails -/
  written : ℕ
  /-- `close` behind `write` succeeds -/
  closeOk : Bool
  /-- `open` for reading and `read` succeed -/
  readable : Bool
  ctx : Sha1Ctx
  buffer : List UInt8
  buffer_size : buffer.length = cacheSize
  written_le : written ≤ cacheSize

/-! ## Checking -/

/-- `/sys/` -/
def sysfsStem : List UInt8 := [0x2f, 0x73, 0x79, 0x73, 0x2f]

/-- `cache_file_exists_in_sysfs` -/
def cacheFileExistsInSysfs (env : CacheEnv) (file : List UInt8) : Bool :=
  env.fileExists file && file.take sysfsStem.length == sysfsStem

/-- `sha1_init`, `sha1_update` and `sha1_final` on the first `n` bytes of a buffer, with fuel
enough for its size -/
def cacheDigest (env : CacheEnv) (buffer : List UInt8) (n : ℕ) : Option (List UInt8) := do
  let data ← Memory.load buffer 0 n
  sha1Digest .little (data.length / 64 + 64) env.ctx data

/-- `cache_validate` -/
def cacheValidate (env : CacheEnv) (cache : FandCache) (buffer : List UInt8) (nbytes : ℕ) :
    Option ℤ :=
  if nbytes ≠ cacheSize then some (-1)
  else do
    let digest ← cacheDigest env buffer (nbytes - sha1Digestsize)
    if digest ≠ cache.checksum then some (-1)
    else if ¬ cacheFileExistsInSysfs env (pathOf cache.pwm) then some (-1)
    else if ¬ cacheFileExistsInSysfs env (pathOf cache.pwmEnable) then some (-1)
    else if ¬ cacheFileExistsInSysfs env (pathOf cache.tempInput) then some (-1)
    else some 0

/-! ## Packing -/

/-- `cache_pack`: the return value and the buffer. The value of the first `packf` is passed on as
a length, so a negative one becomes a large one. -/
def cachePack (env : CacheEnv) (cache : FandCache) (buffer : List UInt8) (bufsize : ℕ) :
    Option (ℤ × List UInt8) :=
  if bufsize < cacheSize then some (-1, buffer)
  else do
    let size := VaArg.integral (BitVec.ofNat 64 hwmonPathSize)
    let (nbytes, buffer) ← packf buffer bufsize "%*hhu%*hhu%*hhu%u".toList
      [size, .ref cache.pwm, size, .ref cache.pwmEnable, size, .ref cache.tempInput,
        .int cache.cardIdx.toBitVec]
    let digest ← cacheDigest env buffer (nbytes % 2 ^ 32).toNat
    let (more, rest) ← packf (buffer.drop nbytes.toNat) (bufsize - nbytes.toNat) "%*hhu".toList
      [.integral (BitVec.ofNat 64 sha1Digestsize), .ref digest]
    some (nbytes + more, buffer.take nbytes.toNat ++ rest)

/-- `memcpy(&fand_cache, buffer, sizeof(fand_cache))` for a record without padding -/
def cacheCopy (buffer : List UInt8) : Option (ℤ × FandCache) := do
  let pwm ← Memory.load buffer 0 hwmonPathSize
  let pwmEnable ← Memory.load buffer hwmonPathSize hwmonPathSize
  let tempInput ← Memory.load buffer (2 * hwmonPathSize) hwmonPathSize
  let cardIdx ← Memory.load buffer (3 * hwmonPathSize) 4
  let checksum ← Memory.load buffer (3 * hwmonPathSize + 4) sha1Digestsize
  let cache ← FandCache.ofMembers pwm pwmEnable tempInput cardIdx checksum
  some (cacheSize, cache)

/-- The call of `unpackf` -/
def cacheUnpackf (buffer : List UInt8) (bufsize : ℕ) (cache : FandCache) :
    Option (ℤ × FandCache) := do
  let size := VaArg.integral (BitVec.ofNat 64 hwmonPathSize)
  let (nbytes, args) ← unpackf buffer bufsize "%*hhu%*hhu%*hhu%u%*hhu".toList
    [size, .ref cache.pwm, size, .ref cache.pwmEnable, size, .ref cache.tempInput,
      .ref cache.cardBytes, .integral (BitVec.ofNat 64 sha1Digestsize), .ref cache.checksum]
  match args with
  | [_, .pointer _ pwm, _, .pointer _ pwmEnable, _, .pointer _ tempInput, .pointer _ cardIdx,
      _, .pointer _ checksum] =>
    (FandCache.ofMembers pwm pwmEnable tempInput cardIdx checksum).map fun cache => (nbytes, cache)
  | _ => none

/-- A NUL in the last cell of each path -/
def FandCache.terminate (cache : FandCache) : FandCache :=
  { cache with
    pwm := cache.pwm.set (hwmonPathSize - 1) 0
    pwmEnable := cache.pwmEnable.set (hwmonPathSize - 1) 0
    tempInput := cache.tempInput.set (hwmonPathSize - 1) 0
    pwm_size := by rw [List.length_set]; exact cache.pwm_size
    pwmEnable_size := by rw [List.length_set]; exact cache.pwmEnable_size
    tempInput_size := by rw [List.length_set]; exact cache.tempInput_size }

/-- `cache_unpack`: the return value and the record -/
def cacheUnpack (env : CacheEnv) (buffer : List UInt8) (bufsize : ℕ) (cache : FandCache) :
    Option (ℤ × FandCache) :=
  if bufsize < cacheSize then some (-1, cache)
  else do
    let (nbytes, cache) ←
      if ¬ env.padded then cacheCopy buffer else cacheUnpackf buffer bufsize cache
    some (nbytes, cache.terminate)

/-! ## The file -/

/-- `cache_load`, with the file if there is one: the status and the record -/
def cacheLoad (env : CacheEnv) (file : Option (List UInt8)) (cache : FandCache) :
    Option (ℤ × FandCache) :=
  match file with
  | none => some (-1, cache)
  | some content =>
    if ¬ env.readable then some (-1, cache)
    else
      let read := content.take cacheSize
      if read.length ≠ cacheSize then some (-1, cache)
      else do
        let (nbytes, cache) ← cacheUnpack env read cacheSize cache
        if nbytes < 0 then some (-1, cache)
        else do
          let status ← cacheValidate env cache read nbytes.toNat
          some (status, cache)

/-- What is in a file after the first `n` of these bytes have been written to its beginning -/
def overwrite (n : ℕ) (bytes content : List UInt8) : List UInt8 :=
  bytes.take n ++ content.drop n

/-- `cache_write`: the status and the file. It is opened without truncation, so what stands behind
the bytes that are written remains. If not all of them are, this is reported, but they stay. -/
def cacheWrite (env : CacheEnv) (file : Option (List UInt8)) (cache : FandCache) :
    Option (ℤ × Option (List UInt8)) :=
  if ¬ env.dirExists ∧ ¬ env.mkdirOk then some (-1, file)
  else do
    let (nbytes, buffer) ← cachePack env cache env.buffer cacheSize
    if nbytes < 0 then some (-1, file)
    else if ¬ env.writable then some (-1, file)
    else
      some (if env.written = cacheSize ∧ env.closeOk then 0 else -1,
        some (overwrite env.written buffer (file.getD [])))

/-! ## What is written -/

namespace Item

/-- An `unsigned` -/
def uint (x : BitVec 32) : Item :=
  scalar .u (x.setWidth 64)

theorem bytes_uint (x : BitVec 32) : (uint x).bytes = Memory.leBytes 4 x.toNat :=
  bytes_int x

theorem size_uint (x : BitVec 32) : (uint x).size = 4 := rfl

/-- A path buffer of the cache -/
def path (cells : List UInt8) (size : cells.length = hwmonPathSize) : Item :=
  uchars cells [] (by rw [size]; decide) (by rw [size]; decide)

/-- A checksum -/
def checksum (cells : List UInt8) (size : cells.length = sha1Digestsize) : Item :=
  uchars cells [] (by rw [size]; decide) (by rw [size]; decide)

end Item

/-- The part of the file that the checksum is about -/
def FandCache.body (cache : FandCache) : List UInt8 :=
  cache.pwm ++ cache.pwmEnable ++ cache.tempInput ++ cache.cardBytes

/-- The bytes of a record, as they stand in the file -/
def FandCache.image (cache : FandCache) : List UInt8 :=
  cache.body ++ cache.checksum

/-- The record with the right checksum, which is the one that is written -/
def FandCache.stored (cache : FandCache) : FandCache :=
  { cache with
    checksum := Fips180.sha1 cache.body
    checksum_size := Fips180.sha1_length cache.body }

theorem FandCache.cardBytes_length (cache : FandCache) : cache.cardBytes.length = 4 :=
  Memory.leBytes_length 4 _

theorem FandCache.body_length (cache : FandCache) : cache.body.length = 772 := by
  simp only [FandCache.body, List.length_append, cache.pwm_size, cache.pwmEnable_size,
    cache.tempInput_size, cache.cardBytes_length]
  rfl

theorem FandCache.image_length (cache : FandCache) : cache.image.length = cacheSize := by
  rw [FandCache.image, List.length_append, cache.body_length, cache.checksum_size]
  rfl

/-- The checksum of the front of a buffer -/
theorem cacheDigest_eq (env : CacheEnv) {front : List UInt8} (rest : List UInt8)
    (h : front.length + 64 < 2 ^ 32) :
    cacheDigest env (front ++ rest) front.length = some (Fips180.sha1 front) := by
  obtain ⟨ctx₁, hupdate, hctx₁⟩ := @Absorbed.update _ _ front (absorbed_init env.ctx) .little
    (front.length / 64 + 64) h.le (by omega)
  obtain ⟨ctx₂, hfinal⟩ := hctx₁.digest .little (show 64 ≤ front.length / 64 + 64 by omega)
  rw [cacheDigest, Memory.load_zero, Option.bind_eq_bind, Option.bind_some, sha1Digest, hupdate,
    Option.bind_eq_bind, Option.bind_some, hfinal]
  rfl

/-- What goes into the first call of `packf` -/
def FandCache.items (cache : FandCache) : List Item :=
  [.path cache.pwm cache.pwm_size, .path cache.pwmEnable cache.pwmEnable_size,
    .path cache.tempInput cache.tempInput_size, .uint cache.cardIdx.toBitVec]

theorem FandCache.items_bytes (cache : FandCache) : itemsBytes cache.items = cache.body := by
  simp only [itemsBytes, FandCache.items, List.flatMap_cons, List.flatMap_nil, Item.path,
    Item.bytes_uchars, Item.bytes_uint, FandCache.body, List.append_assoc, List.append_nil]
  rfl

theorem FandCache.items_size (cache : FandCache) : itemsSize cache.items = 772 := by
  simp only [itemsSize, FandCache.items, List.map_cons, List.map_nil, List.sum_cons, List.sum_nil,
    Item.path, Item.size_uchars, Item.size_uint, cache.pwm_size, cache.pwmEnable_size,
    cache.tempInput_size]
  rfl

/-- The first call of `packf` -/
theorem FandCache.packf_body (cache : FandCache) {buffer : List UInt8}
    (hbuffer : buffer.length = cacheSize) :
    packf buffer cacheSize "%*hhu%*hhu%*hhu%u".toList
      [.integral (BitVec.ofNat 64 hwmonPathSize), .ref cache.pwm,
        .integral (BitVec.ofNat 64 hwmonPathSize), .ref cache.pwmEnable,
        .integral (BitVec.ofNat 64 hwmonPathSize), .ref cache.tempInput,
        .int cache.cardIdx.toBitVec] = some (772, cache.body ++ buffer.drop 772) := by
  have hpack := packf_items cache.items (show cacheSize < 2 ^ 63 by decide) hbuffer.ge
    (by rw [cache.items_size]; decide)
  rw [cache.items_size, cache.items_bytes] at hpack
  simp only [itemsPackArgs, FandCache.items, List.flatMap_cons, List.flatMap_nil, Item.path,
    Item.packArgs_uchars, cache.pwm_size, cache.pwmEnable_size, cache.tempInput_size,
    List.append_nil, List.cons_append, List.nil_append] at hpack
  exact hpack

/-- The second call -/
theorem packf_checksum {buffer digest : List UInt8} (hbuffer : buffer.length = sha1Digestsize)
    (hdigest : digest.length = sha1Digestsize) :
    packf buffer sha1Digestsize "%*hhu".toList
      [.integral (BitVec.ofNat 64 sha1Digestsize), .ref digest] = some (20, digest) := by
  have hsize : itemsSize [Item.checksum digest hdigest] = 20 := by
    simp only [itemsSize, List.map_cons, List.map_nil, List.sum_cons, List.sum_nil, Item.checksum,
      Item.size_uchars, hdigest]
    rfl
  have hpack := packf_items [.checksum digest hdigest] (show sha1Digestsize < 2 ^ 63 by decide)
    hbuffer.ge (by rw [hsize]; decide)
  rw [hsize, List.drop_eq_nil_of_le (show buffer.length ≤ 20 from hbuffer.le)] at hpack
  simp only [itemsPackArgs, itemsBytes, List.flatMap_cons, List.flatMap_nil, Item.checksum,
    Item.packArgs_uchars, Item.bytes_uchars, hdigest, List.append_nil] at hpack
  exact hpack

/-- `cache_pack` fills the buffer. -/
theorem cachePack_eq (env : CacheEnv) (cache : FandCache) {buffer : List UInt8}
    (hbuffer : buffer.length = cacheSize) :
    cachePack env cache buffer cacheSize = some ((cacheSize : ℤ), cache.stored.image) := by
  have hbody := cache.body_length
  have hdigest := cacheDigest_eq env (buffer.drop 772)
    (show cache.body.length + 64 < 2 ^ 32 by rw [hbody]; decide)
  have hdrop : (cache.body ++ buffer.drop 772).drop 772 = buffer.drop 772 := by
    rw [← hbody, List.drop_left]
  have htake : (cache.body ++ buffer.drop 772).take 772 = cache.body := by
    rw [← hbody, List.take_left]
  have hsecond := packf_checksum (show (buffer.drop 772).length = sha1Digestsize by
    rw [List.length_drop, hbuffer]; rfl) (Fips180.sha1_length cache.body)
  rw [hbody] at hdigest
  rw [cachePack, if_neg (Nat.lt_irrefl _)]
  simp only [cache.packf_body hbuffer, Option.bind_eq_bind, Option.bind_some]
  change ((cacheDigest env (cache.body ++ buffer.drop 772) 772).bind fun digest =>
    (packf ((cache.body ++ buffer.drop 772).drop 772) sha1Digestsize "%*hhu".toList
      [.integral (BitVec.ofNat 64 sha1Digestsize), .ref digest]).bind fun x =>
        some (772 + x.1, (cache.body ++ buffer.drop 772).take 772 ++ x.2)) = _
  rw [hdigest, Option.bind_some, hdrop, htake, hsecond]
  rfl

/-- A record that is written as a whole -/
theorem FandCache.overwrite_image (cache : FandCache) (content : List UInt8) :
    overwrite cacheSize cache.image content = cache.image ++ content.drop cacheSize := by
  rw [overwrite, List.take_of_length_le cache.image_length.le]

/-- `cache_write` if every call succeeds -/
theorem cacheWrite_eq {env : CacheEnv} (cache : FandCache) (file : Option (List UInt8))
    (hdir : env.dirExists = true ∨ env.mkdirOk = true) (hwritable : env.writable = true)
    (hwhole : env.written = cacheSize) (hclose : env.closeOk = true) :
    cacheWrite env file cache =
      some (0, some (cache.stored.image ++ (file.getD []).drop cacheSize)) := by
  have hdir' : ¬ (¬ env.dirExists = true ∧ ¬ env.mkdirOk = true) := by
    rwa [← not_or, not_not]
  have hsize : ¬ ((cacheSize : ℤ) < 0) := by decide
  simp only [cacheWrite, if_neg hdir', cachePack_eq env cache env.buffer_size, hsize, hwritable,
    hwhole, hclose, and_self, not_true_eq_false, if_false, if_true, Option.bind_eq_bind,
    Option.bind_some, FandCache.overwrite_image]

/-- A `cache_write` that reports no error has gone through all its calls, and has written all the
bytes. -/
theorem cacheWrite_calls {env : CacheEnv} {cache : FandCache} {file file' : Option (List UInt8)}
    {status : ℤ} (h : cacheWrite env file cache = some (status, file')) (hok : 0 ≤ status) :
    (env.dirExists = true ∨ env.mkdirOk = true) ∧ env.writable = true ∧
      env.written = cacheSize ∧ env.closeOk = true := by
  have hsize : ¬ ((cacheSize : ℤ) < 0) := by decide
  simp only [cacheWrite, cachePack_eq env cache env.buffer_size, Option.bind_eq_bind,
    Option.bind_some, if_neg hsize] at h
  split_ifs at h with hdir hwritable hcalls
  · cases h
    omega
  · rw [← not_or, not_not] at hdir
    exact ⟨hdir, hwritable, hcalls⟩
  · cases h
    omega
  · cases h
    omega

/-- After a successful `cache_write` the file begins with the record. -/
theorem cacheWrite_file {env : CacheEnv} {cache : FandCache} {file file' : Option (List UInt8)}
    (h : cacheWrite env file cache = some (0, file')) :
    ∃ rest, file' = some (cache.stored.image ++ rest) := by
  obtain ⟨hdir, hwritable, hwhole, hclose⟩ := cacheWrite_calls h le_rfl
  rw [cacheWrite_eq cache file hdir hwritable hwhole hclose] at h
  cases h
  exact ⟨_, rfl⟩

/-! ## What is read -/

/-- The card index is read back from its bytes. -/
theorem FandCache.leValue_cardBytes (cache : FandCache) :
    UInt32.ofNat (Memory.leValue cache.cardBytes) = cache.cardIdx := by
  have hlt : cache.cardIdx.toNat < 256 ^ 4 := cache.cardIdx.toNat_lt
  rw [FandCache.cardBytes, Memory.leValue_leBytes, Nat.mod_eq_of_lt hlt, UInt32.ofNat_toNat]

/-- A record is made of its members again. -/
theorem FandCache.ofMembers_eq (cache : FandCache) :
    FandCache.ofMembers cache.pwm cache.pwmEnable cache.tempInput cache.cardBytes cache.checksum =
      some cache := by
  rw [FandCache.ofMembers, dif_pos ⟨cache.pwm_size, cache.pwmEnable_size, cache.tempInput_size,
    cache.checksum_size⟩]
  simp only [cache.leValue_cardBytes]

/-- A stretch of memory, by what stands in front of it and behind it -/
theorem load_between {mem front bytes rest : List UInt8} {pos n : ℕ}
    (hmem : mem = front ++ bytes ++ rest) (hpos : front.length = pos) (hn : bytes.length = n) :
    Memory.load mem pos n = some bytes := by
  rw [hmem, ← hpos, ← hn, Memory.load_append]

/-- Reading by one copy -/
theorem cacheCopy_image (cache : FandCache) :
    cacheCopy cache.image = some ((cacheSize : ℤ), cache) := by
  have hpwm := cache.pwm_size
  have hpwmEnable := cache.pwmEnable_size
  have htempInput := cache.tempInput_size
  have hpwm' : Memory.load cache.image 0 hwmonPathSize = some cache.pwm :=
    @load_between _ [] cache.pwm (cache.pwmEnable ++ cache.tempInput ++ cache.cardBytes ++
        cache.checksum) _ _
      (by simp only [FandCache.image, FandCache.body, List.append_assoc, List.nil_append])
      rfl hpwm
  have hpwmEnable' : Memory.load cache.image hwmonPathSize hwmonPathSize =
      some cache.pwmEnable :=
    @load_between _ cache.pwm cache.pwmEnable (cache.tempInput ++ cache.cardBytes ++
        cache.checksum) _ _
      (by simp only [FandCache.image, FandCache.body, List.append_assoc]) hpwm hpwmEnable
  have htempInput' : Memory.load cache.image (2 * hwmonPathSize) hwmonPathSize =
      some cache.tempInput :=
    @load_between _ (cache.pwm ++ cache.pwmEnable) cache.tempInput (cache.cardBytes ++
        cache.checksum) _ _
      (by simp only [FandCache.image, FandCache.body, List.append_assoc])
      (by rw [List.length_append, hpwm, hpwmEnable]; rfl) htempInput
  have hcardIdx : Memory.load cache.image (3 * hwmonPathSize) 4 = some cache.cardBytes :=
    @load_between _ (cache.pwm ++ cache.pwmEnable ++ cache.tempInput) cache.cardBytes
      cache.checksum _ _
      (by simp only [FandCache.image, FandCache.body])
      (by rw [List.length_append, List.length_append, hpwm, hpwmEnable, htempInput]; rfl)
      cache.cardBytes_length
  have hchecksum : Memory.load cache.image (3 * hwmonPathSize + 4) sha1Digestsize =
      some cache.checksum :=
    @load_between _ cache.body cache.checksum [] _ _
      (by rw [FandCache.image, List.append_nil])
      (by rw [cache.body_length]; rfl) cache.checksum_size
  simp only [cacheCopy, hpwm', hpwmEnable', htempInput', hcardIdx, hchecksum, Option.bind_eq_bind,
    Option.bind_some, cache.ofMembers_eq]

/-- The destinations of `unpackf` in the record `other`, with what the file of `cache` holds for
them -/
def FandCache.fields (cache other : FandCache) : List Field :=
  [⟨.path cache.pwm cache.pwm_size, 0, other.pwm,
      by rw [Item.path, Item.size_uchars, cache.pwm_size, other.pwm_size]⟩,
    ⟨.path cache.pwmEnable cache.pwmEnable_size, 0, other.pwmEnable,
      by rw [Item.path, Item.size_uchars, cache.pwmEnable_size, other.pwmEnable_size]⟩,
    ⟨.path cache.tempInput cache.tempInput_size, 0, other.tempInput,
      by rw [Item.path, Item.size_uchars, cache.tempInput_size, other.tempInput_size]⟩,
    ⟨.uint cache.cardIdx.toBitVec, 0, other.cardBytes,
      by rw [Item.size_uint, other.cardBytes_length]⟩,
    ⟨.checksum cache.checksum cache.checksum_size, 0, other.checksum,
      by rw [Item.checksum, Item.size_uchars, cache.checksum_size, other.checksum_size]⟩]

section Fields

variable (cache other : FandCache)

theorem FandCache.fields_bytes : itemsBytes (fieldsItems (cache.fields other)) = cache.image := by
  simp only [itemsBytes, fieldsItems, FandCache.fields, List.map_cons, List.map_nil,
    List.flatMap_cons, List.flatMap_nil, Item.path, Item.checksum, Item.bytes_uchars,
    Item.bytes_uint, FandCache.image, FandCache.body, FandCache.cardBytes,
    List.append_assoc, List.append_nil]
  rfl

theorem FandCache.fields_size : itemsSize (fieldsItems (cache.fields other)) = cacheSize := by
  simp only [itemsSize, fieldsItems, FandCache.fields, List.map_cons, List.map_nil, List.sum_cons,
    List.sum_nil, Item.path, Item.checksum, Item.size_uchars, Item.size_uint, cache.pwm_size,
    cache.pwmEnable_size, cache.tempInput_size, cache.checksum_size]
  rfl

theorem FandCache.fields_args :
    fieldsArgs (cache.fields other) =
      [.integral (BitVec.ofNat 64 hwmonPathSize), .ref other.pwm,
        .integral (BitVec.ofNat 64 hwmonPathSize), .ref other.pwmEnable,
        .integral (BitVec.ofNat 64 hwmonPathSize), .ref other.tempInput, .ref other.cardBytes,
        .integral (BitVec.ofNat 64 sha1Digestsize), .ref other.checksum] := by
  simp only [fieldsArgs, FandCache.fields, List.flatMap_cons, List.flatMap_nil, Field.args,
    Item.path, Item.checksum, Item.count_uchars, cache.pwm_size, cache.pwmEnable_size,
    cache.tempInput_size, cache.checksum_size, List.append_nil, List.cons_append,
    List.nil_append]
  rfl

theorem FandCache.fields_filled :
    fieldsFilled (cache.fields other) =
      [.integral (BitVec.ofNat 64 hwmonPathSize), .ref cache.pwm,
        .integral (BitVec.ofNat 64 hwmonPathSize), .ref cache.pwmEnable,
        .integral (BitVec.ofNat 64 hwmonPathSize), .ref cache.tempInput, .ref cache.cardBytes,
        .integral (BitVec.ofNat 64 sha1Digestsize), .ref cache.checksum] := by
  have hpwm : other.pwm.drop hwmonPathSize = [] := List.drop_eq_nil_of_le other.pwm_size.le
  have hpwmEnable : other.pwmEnable.drop hwmonPathSize = [] :=
    List.drop_eq_nil_of_le other.pwmEnable_size.le
  have htempInput : other.tempInput.drop hwmonPathSize = [] :=
    List.drop_eq_nil_of_le other.tempInput_size.le
  have hcardIdx : other.cardBytes.drop 4 = [] :=
    List.drop_eq_nil_of_le other.cardBytes_length.le
  have hchecksum : other.checksum.drop sha1Digestsize = [] :=
    List.drop_eq_nil_of_le other.checksum_size.le
  simp only [fieldsFilled, FandCache.fields, List.flatMap_cons, List.flatMap_nil, Field.args,
    Field.filled, Item.path, Item.checksum, Item.count_uchars, Item.bytes_uchars,
    Item.size_uchars, Item.bytes_uint, Item.size_uint, hpwm, hpwmEnable, htempInput, hcardIdx,
    hchecksum, cache.pwm_size, cache.pwmEnable_size, cache.tempInput_size,
    cache.checksum_size, List.append_nil, List.cons_append, List.nil_append]
  rfl

/-- Reading with `unpackf` -/
theorem cacheUnpackf_image :
    cacheUnpackf cache.image cacheSize other = some ((cacheSize : ℤ), cache) := by
  have hunpack := unpackf_fields (cache.fields other) [] (show cacheSize < 2 ^ 63 by decide)
    (cache.fields_size other).le
  rw [cache.fields_bytes, cache.fields_size, cache.fields_args, cache.fields_filled,
    List.append_nil] at hunpack
  have hcall : unpackf cache.image cacheSize "%*hhu%*hhu%*hhu%u%*hhu".toList _ = _ := hunpack
  simp only [cacheUnpackf, hcall, Option.bind_eq_bind, Option.bind_some]
  simp only [VaArg.ref, cache.ofMembers_eq, Option.map_some]

end Fields

/-- Both ways of reading give the record. -/
theorem cacheUnpack_image (env : CacheEnv) (cache other : FandCache) :
    cacheUnpack env cache.image cacheSize other =
      some ((cacheSize : ℤ), cache.terminate) := by
  rw [cacheUnpack, if_neg (Nat.lt_irrefl _)]
  by_cases hpadded : env.padded = true
  · simp only [hpadded, not_true_eq_false, if_false, cacheUnpackf_image, Option.bind_eq_bind,
      Option.bind_some]
  · simp only [hpadded, cacheCopy_image, Option.bind_eq_bind, Option.bind_some]
    rfl

/-- Bytes of the right number are those of some record. -/
theorem FandCache.exists_image {bytes : List UInt8} (h : bytes.length = cacheSize) :
    ∃ cache : FandCache, cache.image = bytes := by
  have hsize : bytes.length = 792 := h
  have hcard : ((bytes.drop 768).take 4).length = 4 := by
    rw [List.length_take, List.length_drop]
    omega
  have hvalue := Memory.leValue_lt ((bytes.drop 768).take 4)
  rw [hcard] at hvalue
  have hcells : ∀ k, k + hwmonPathSize ≤ 768 →
      ((bytes.drop k).take hwmonPathSize).length = hwmonPathSize := by
    intro k hk
    rw [List.length_take, List.length_drop]
    omega
  refine ⟨⟨(bytes.drop 0).take hwmonPathSize, (bytes.drop 256).take hwmonPathSize,
    (bytes.drop 512).take hwmonPathSize,
    UInt32.ofNat (Memory.leValue ((bytes.drop 768).take 4)), bytes.drop 772,
    hcells 0 (by decide), hcells 256 (by decide), hcells 512 (by decide), ?_⟩, ?_⟩
  · rw [List.length_drop, hsize]
    rfl
  · have hbytes := Memory.leBytes_leValue ((bytes.drop 768).take 4)
    rw [hcard] at hbytes
    have hsplit : ∀ k n m, k + n = m → (bytes.drop k).take n ++ bytes.drop m = bytes.drop k := by
      rintro k n m rfl
      rw [← List.drop_drop, List.take_append_drop]
    simp only [FandCache.image, FandCache.body, FandCache.cardBytes,
      UInt32.toNat_ofNat_of_lt' hvalue, hbytes, List.append_assoc]
    rw [hsplit 768 4 772 rfl, hsplit 512 hwmonPathSize 768 rfl, hsplit 256 hwmonPathSize 512 rfl,
      hsplit 0 hwmonPathSize 256 rfl, List.drop_zero]

/-! ## The round trip -/

/-- A buffer holds the path of a file under `/sys/`. -/
structure NamesSysfsFile (env : CacheEnv) (cells : List UInt8) : Prop where
  terminated : 0 ∈ cells
  regular : env.fileExists (pathOf cells) = true
  stem : sysfsStem <+: pathOf cells

/-- A string followed by a NUL is read back, whatever stands behind it. -/
theorem pathOf_append {path : List UInt8} (rest : List UInt8) (h : 0 ∉ path) :
    pathOf (path ++ 0 :: rest) = path := by
  rw [pathOf, List.takeWhile_append_of_pos, List.takeWhile_cons_of_neg (by simp), List.append_nil]
  intro b hb
  rw [decide_eq_true_iff]
  rintro rfl
  exact h hb

/-- A NUL in the last cell does not change a string that ends in the buffer. -/
theorem pathOf_set_last {cells : List UInt8} (h : 0 ∈ cells) {n : ℕ} (hn : cells.length = n) :
    pathOf (cells.set (n - 1) 0) = pathOf cells := by
  obtain ⟨path, rest, rfl, hpath⟩ := List.eq_append_cons_of_mem h
  rw [List.length_append, List.length_cons] at hn
  rw [pathOf_append rest hpath, List.set_append_right _ _ (by omega)]
  rcases hlast : n - 1 - path.length with _ | k
  · exact pathOf_append rest hpath
  · exact pathOf_append (rest.set k 0) hpath

/-- Terminating a buffer cuts its string at the last cell. -/
theorem pathOf_terminated {cells : List UInt8} (h : cells.length = hwmonPathSize) :
    pathOf (cells.set (hwmonPathSize - 1) 0) = pathOf (cells.take (hwmonPathSize - 1)) := by
  have hset : cells.set (hwmonPathSize - 1) 0 = cells.take (hwmonPathSize - 1) ++ [0] := by
    rw [List.set_eq_take_append_cons_drop, if_pos (by rw [h]; decide),
      List.drop_eq_nil_of_le (by rw [h]; decide)]
  rw [hset, pathOf, pathOf, List.takeWhile_append]
  split_ifs with hall
  · rw [List.takeWhile_cons_of_neg (by simp), List.append_nil]
    exact ((List.takeWhile_prefix _).eq_of_length hall).symm
  · rfl

/-- What the file was written for passes the test when it is read. -/
theorem NamesSysfsFile.check {env : CacheEnv} {cells : List UInt8} (h : NamesSysfsFile env cells) :
    cacheFileExistsInSysfs env (pathOf cells) = true := by
  rw [cacheFileExistsInSysfs, h.regular, Bool.true_and, beq_iff_eq]
  exact (List.prefix_iff_eq_take.mp h.stem).symm

/-- The file of a record is accepted: the checksum is right, and the paths are those of files
under `/sys/`. -/
def CacheEnv.Accepts (env : CacheEnv) (stored : FandCache) : Prop :=
  Fips180.sha1 stored.body = stored.checksum ∧
    cacheFileExistsInSysfs env (pathOf stored.terminate.pwm) = true ∧
    cacheFileExistsInSysfs env (pathOf stored.terminate.pwmEnable) = true ∧
    cacheFileExistsInSysfs env (pathOf stored.terminate.tempInput) = true

instance (env : CacheEnv) (stored : FandCache) : Decidable (env.Accepts stored) :=
  inferInstanceAs (Decidable (_ ∧ _))

/-- What `cache_validate` says about the bytes of a record -/
theorem cacheValidate_image (env : CacheEnv) (stored : FandCache) :
    cacheValidate env stored.terminate stored.image cacheSize =
      some (if env.Accepts stored then 0 else -1) := by
  have hbody := stored.body_length
  have hdigest := cacheDigest_eq env stored.checksum
    (show stored.body.length + 64 < 2 ^ 32 by rw [hbody]; decide)
  rw [hbody] at hdigest
  have hdigest' : cacheDigest env stored.image (cacheSize - sha1Digestsize) =
      some (Fips180.sha1 stored.body) := hdigest
  simp only [cacheValidate, hdigest', ne_eq, not_true_eq_false, if_false, Option.bind_eq_bind,
    Option.bind_some, CacheEnv.Accepts]
  change (if ¬ Fips180.sha1 stored.body = stored.checksum then _ else _) = _
  by_cases hsum : Fips180.sha1 stored.body = stored.checksum
  · split_ifs <;> simp_all
  · simp [hsum]

/-- What `cache_load` makes of a file that begins with the bytes of a record -/
theorem cacheLoad_image {env : CacheEnv} (stored other : FandCache) (rest : List UInt8)
    (hreadable : env.readable = true) :
    cacheLoad env (some (stored.image ++ rest)) other =
      some (if env.Accepts stored then 0 else -1, stored.terminate) := by
  have hread : (stored.image ++ rest).take cacheSize = stored.image := by
    rw [← stored.image_length, List.take_left]
  have hsize : ¬ ((cacheSize : ℤ) < 0) := by decide
  simp only [cacheLoad, hreadable, hread, stored.image_length, cacheUnpack_image, hsize,
    cacheValidate_image, not_true_eq_false, ne_eq, if_false, Option.bind_eq_bind,
    Option.bind_some, Int.toNat_natCast]

/-- **The cache.** For every record whose paths end in their buffers and name files under `/sys/`,
every previous content of the file, and every record that `cache_load` finds: after a successful
`cache_write`, `cache_load` returns 0 and restores the three paths and the index of the card,
whether `struct fand_cache` has padding or not. -/
theorem cache_round_trip (writer reader : CacheEnv) (cache other : FandCache)
    (file file' : Option (List UInt8)) (hreadable : reader.readable = true)
    (hpwm : NamesSysfsFile reader cache.pwm) (hpwmEnable : NamesSysfsFile reader cache.pwmEnable)
    (htempInput : NamesSysfsFile reader cache.tempInput)
    (hwrite : cacheWrite writer file cache = some (0, file')) :
    ∃ loaded, cacheLoad reader file' other = some (0, loaded) ∧
      pathOf loaded.pwm = pathOf cache.pwm ∧
      pathOf loaded.pwmEnable = pathOf cache.pwmEnable ∧
      pathOf loaded.tempInput = pathOf cache.tempInput ∧ loaded.cardIdx = cache.cardIdx := by
  obtain ⟨rest, rfl⟩ := cacheWrite_file hwrite
  have hpwm' : pathOf cache.stored.terminate.pwm = pathOf cache.pwm :=
    pathOf_set_last hpwm.terminated cache.pwm_size
  have hpwmEnable' : pathOf cache.stored.terminate.pwmEnable = pathOf cache.pwmEnable :=
    pathOf_set_last hpwmEnable.terminated cache.pwmEnable_size
  have htempInput' : pathOf cache.stored.terminate.tempInput = pathOf cache.tempInput :=
    pathOf_set_last htempInput.terminated cache.tempInput_size
  have haccepts : reader.Accepts cache.stored := by
    refine ⟨rfl, ?_, ?_, ?_⟩
    · rw [hpwm', hpwm.check]
    · rw [hpwmEnable', hpwmEnable.check]
    · rw [htempInput', htempInput.check]
  refine ⟨cache.stored.terminate, ?_, hpwm', hpwmEnable', htempInput', rfl⟩
  rw [cacheLoad_image cache.stored other rest hreadable, if_pos haccepts]

/-- A buffer with a path of six characters -/
def shortPath : List UInt8 := sysfsStem ++ [0x61] ++ List.replicate 250 0

theorem shortPath_size : shortPath.length = hwmonPathSize := by
  rw [shortPath, List.length_append, List.length_replicate]
  rfl

/-- A longer file, and a record of other bytes -/
theorem cache_round_trip_longer_file :
    let env : CacheEnv :=
      { padded := false
        fileExists := fun file => file == pathOf shortPath
        dirExists := true
        mkdirOk := false
        writable := true
        written := cacheSize
        closeOk := true
        readable := true
        ctx := ⟨0, 0, 0, 0, 0, 0, 0, List.replicate 64 0xff, rfl⟩
        buffer := List.replicate cacheSize 0xff
        buffer_size := List.length_replicate
        written_le := le_rfl }
    let cache : FandCache := ⟨shortPath, shortPath, shortPath, 3, List.replicate 20 0,
      shortPath_size, shortPath_size, shortPath_size, rfl⟩
    let other : FandCache := ⟨List.replicate hwmonPathSize 0xff, List.replicate hwmonPathSize 0xff,
      List.replicate hwmonPathSize 0xff, 7, List.replicate 20 0xff, List.length_replicate,
      List.length_replicate, List.length_replicate, rfl⟩
    ∃ file' loaded, cacheWrite env (some (List.replicate 1000 0xff)) cache = some (0, file') ∧
      cacheLoad env file' other = some (0, loaded) ∧ loaded.cardIdx = 3 := by
  intro env cache other
  have hpath : NamesSysfsFile env shortPath := ⟨by decide, by decide, by decide⟩
  have hwrite := cacheWrite_eq cache (some (List.replicate 1000 0xff))
    (show env.dirExists = true ∨ env.mkdirOk = true from Or.inl rfl)
    (show env.writable = true from rfl) (show env.written = cacheSize from rfl)
    (show env.closeOk = true from rfl)
  obtain ⟨loaded, hload, -, -, -, hcard⟩ :=
    cache_round_trip env env cache other _ _ rfl hpath hpath hpath hwrite
  exact ⟨_, loaded, hwrite, hload, hcard⟩

end AmdgpuFand
