import AmdgpuFand.Starts

/-!
# The render node of the card

With `FAND_DRM_SUPPORT` the temperature is not read from sysfs but from a render node in
`/dev/dri/`. `hwmon_open` has found the card, and `drm_open` takes the first entry whose name is
`renderD` with the number of the card, counted from 128. The expression has no `$`, so that anything
may stand behind the number.

Fan and sensor have to belong to one card. They are found in different directories, and the card
that they have in common may come from a cache file written by another process, not always as a
whole. `fanctrlInit_same_card` says that they do, after any number of starts.

`drm_fd` is a static variable that is never reset. Where there is no such entry, `drm_open` returns
what it held before (`drmOpen_exact`).
-/

namespace AmdgpuFand

open CLib Ere Process

/-! ## The model -/

/-- `DRM_BUF_SIZE` -/
def drmBufSize : ℕ := 128

/-- What `drm_open` depends on -/
structure DrmEnv where
  /-- `regcomp` succeeds -/
  regcompOk : Bool
  /-- the entries of a directory in the order of `readdir`, if it can be opened -/
  listing : List UInt8 → Option (List (List UInt8))
  /-- `open`: the descriptor -/
  openFile : List UInt8 → Option ℕ
  /-- `buffer`, uninitialised -/
  buffer : List UInt8
  buffer_size : buffer.length = drmBufSize
  names : ∀ dir entries, listing dir = some entries → ∀ name ∈ entries, 0 ∉ name

/-- `^renderD([0-9]+)` -/
def drmRegex : Regex :=
  [.bol, chr 'r' 0, chr 'e' 0, chr 'n' 0, chr 'd' 0, chr 'e' 0, chr 'r' 0, chr 'D' 0, digits 1]

/-- `rm_so` of a group, for a match that begins with the string -/
def groupStart : Regex → ℕ → List (List Char) → ℕ
  | .chars _ _ g :: re, k, p :: ps => if g = k then 0 else p.length + groupStart re k ps
  | .bol :: re, k, ps => groupStart re k ps
  | .eol :: re, k, ps => groupStart re k ps
  | _, _, _ => 0

/-- `atoi`. What it returns for a number that is no `int` is undefined. -/
def atoi (s : List Char) : Option ℤ :=
  let body := s.dropWhile isSpace
  let digits := if body.head? = some '-' ∨ body.head? = some '+' then body.tail else body
  let magnitude : ℤ := Nat.ofDigitChars 10 (digits.takeWhile Char.isDigit) 0
  let value := if body.head? = some '-' then -magnitude else magnitude
  if -2 ^ 31 ≤ value ∧ value < 2 ^ 31 then some value else none

/-- The `while` loop of `drm_open`: the entry that it stops at -/
def drmFind (cardIdx : UInt32) : List (List UInt8) → Option (Option (List UInt8))
  | [] => some none
  | name :: names =>
    match regexec drmRegex (name.map charOf) with
    | none => drmFind cardIdx names
    | some pmatch =>
      match atoi ((name.map charOf).drop (groupStart drmRegex 1 pmatch)) with
      | none => none
      | some index =>
        -- `DRM_CARD_IDX_OFFSET`
        if UInt32.ofInt index = 128 + cardIdx then some (some name) else drmFind cardIdx names

/-- `drm_open`: the return value, and `drm_fd` behind it. `readdir` is called on whatever `opendir`
has returned, which is undefined for a directory that cannot be opened. -/
def drmOpen (env : DrmEnv) (drmFd : ℤ) (cardIdx : UInt32) : Option (ℤ × ℤ) :=
  let (pos, buffer) := strscpyBytes env.buffer (ascii "/dev/dri/") drmBufSize
  if pos < 0 then some (pos, drmFd)
  else if ¬ env.regcompOk then some (-1, drmFd)
  else match env.listing (pathOf buffer) with
    | none => none
    | some names =>
      match drmFind cardIdx names with
      | none => none
      | some none => some (drmFd, drmFd)
      | some (some name) =>
        let (n, cells) := strscpyBytes (buffer.drop pos.toNat) name (drmBufSize - pos.toNat)
        if n < 0 then some (drmFd, drmFd)
        else match env.openFile (pathOf (buffer.take pos.toNat ++ cells)) with
          | none => some (-1, -1)
          | some fd => some (fd, fd)

/-- `fanctrl_init` with `FAND_DRM_SUPPORT`: the return value, the record, the cache file and
`drm_fd` -/
def DrmEnv.fanctrlInit (drm : DrmEnv) (env : HwmonEnv) (cache : FandCache) (drmFd : ℤ) :
    Option (ℤ × FandCache × Option (List UInt8) × ℤ) := do
  let (cardIdx, cache, file) ← hwmonOpen env cache
  if cardIdx < 0 then some (cardIdx, cache, file, drmFd)
  else do
    let (status, drmFd) ← drmOpen drm drmFd (UInt32.ofInt cardIdx)
    some (status, cache, file, drmFd)

/-! ## Names of render nodes -/

/-- `renderD` with the number `n` behind it -/
def RenderNode (n : ℕ) (name : List UInt8) : Prop :=
  ∃ number rest, name.map charOf = "renderD".toList ++ (number ++ rest) ∧ IsNumeral number ∧
    (∀ c t, rest = c :: t → c.isDigit = false) ∧ Nat.ofDigitChars 10 number 0 = n

/-- The first render node of this number in a directory, or none -/
def FirstNode (n : ℕ) (names : List (List UInt8)) : Option (List UInt8) → Prop
  | none => ∀ name ∈ names, ¬ RenderNode n name
  | some name => RenderNode n name ∧
    ∃ front back, names = front ++ name :: back ∧ ∀ name' ∈ front, ¬ RenderNode n name'

theorem RenderNode.unique {n n' : ℕ} {name : List UInt8} (h : RenderNode n name)
    (h' : RenderNode n' name) : n = n' := by
  obtain ⟨number, rest, hname, hnumber, hrest, rfl⟩ := h
  obtain ⟨number', rest', hname', hnumber', hrest', rfl⟩ := h'
  rw [hname] at hname'
  obtain ⟨rfl, -⟩ := run_end_unique hnumber.2 hnumber'.2 hrest hrest'
    (List.append_cancel_left hname')
  rfl

/-- A name begins with `renderD` and a digit exactly if it is that of a render node. -/
theorem exists_renderNode_iff {name : List UInt8} :
    (∃ n, RenderNode n name) ↔
      ∃ w r, name.map charOf = "renderD".toList ++ (w ++ r) ∧ IsNumeral w := by
  refine ⟨?_, ?_⟩
  · rintro ⟨n, number, rest, hname, hnumber, -⟩
    exact ⟨number, rest, hname, hnumber⟩
  · rintro ⟨w, r, hname, hne, hdigits⟩
    refine ⟨_, w ++ r.takeWhile Char.isDigit, r.dropWhile Char.isDigit, ?_, ⟨by simp [hne], ?_⟩, ?_,
      rfl⟩
    · rw [hname, List.append_assoc w, List.takeWhile_append_dropWhile]
    · intro c hc
      rcases List.mem_append.mp hc with hc | hc
      · exact hdigits c hc
      · exact List.mem_takeWhile_imp hc
    · intro c t hct
      have := List.head?_dropWhile_not Char.isDigit r
      rw [hct] at this
      simpa using this

theorem matches_drmRegex {s : List Char} {ps : List (List Char)} :
    Matches drmRegex true s ps ↔
      ∃ w r, s = "renderD".toList ++ (w ++ r) ∧ IsNumeral w ∧
        ps = "renderD".toList.map ([·]) ++ [w] := by
  have hre : drmRegex = .bol :: ("renderD".toList.map (chr · 0) ++ [digits 1]) := rfl
  have hbol : ∀ n ∈ [digits 1], n.isBol = false := by simp [digits, Node.isBol]
  rw [hre, Matches]
  refine ⟨?_, ?_⟩
  · rintro ⟨-, hm⟩
    obtain ⟨t, ps, rfl, rfl, htail⟩ := (matches_chrs hbol).mp hm
    obtain ⟨w, r, ps, hw, rfl, rfl, rfl⟩ := matches_digits.mp htail
    exact ⟨w, r, rfl, hw, rfl⟩
  · rintro ⟨w, r, rfl, hw, rfl⟩
    exact ⟨rfl, (matches_chrs hbol).mpr
      ⟨_, _, rfl, rfl, matches_digits.mpr ⟨w, r, [], hw, rfl, rfl, rfl⟩⟩⟩

/-- A match stands at the beginning of the string. -/
theorem regexec_drmRegex {s : List Char} {ps : List (List Char)}
    (h : regexec drmRegex s = some ps) : Matches drmRegex true s ps := by
  obtain ⟨pre, suf, rfl, hm⟩ := regexec_matches h
  have hpre : pre = [] := by
    have hstart := hm.1
    simpa using hstart
  subst hpre
  exact hm

theorem atoi_digits {number rest : List Char} (hnumber : IsNumeral number)
    (hrest : ∀ c t, rest = c :: t → c.isDigit = false) :
    atoi (number ++ rest) =
      if Nat.ofDigitChars 10 number 0 < 2 ^ 31 then some (Nat.ofDigitChars 10 number 0 : ℤ)
      else none := by
  obtain ⟨hne, hdigits⟩ := hnumber
  obtain ⟨d, number, rfl⟩ := List.exists_cons_of_ne_nil hne
  have hd := hdigits d (List.mem_cons_self ..)
  have hspace : (d :: (number ++ rest)).dropWhile isSpace = d :: (number ++ rest) :=
    List.dropWhile_cons_of_neg (by simp [isSpace_of_isDigit hd])
  have hsign : d ≠ '-' ∧ d ≠ '+' := by
    refine ⟨?_, ?_⟩ <;> rintro rfl <;> cases hd
  have hrun : (d :: (number ++ rest)).takeWhile Char.isDigit = d :: number := by
    rw [← List.cons_append, List.takeWhile_append_of_pos hdigits]
    cases rest with
    | nil => simp
    | cons c t => rw [List.takeWhile_cons_of_neg (by simp [hrest c t rfl]), List.append_nil]
  simp only [atoi, List.cons_append, hspace, List.head?_cons, Option.some.injEq, hsign.1, hsign.2,
    or_self, if_false, hrun]
  by_cases hsmall : Nat.ofDigitChars 10 (d :: number) 0 < 2 ^ 31
  · rw [if_pos hsmall, if_pos ⟨by omega, by omega⟩]
  · rw [if_neg hsmall, if_neg (by omega)]

/-! ## The entry that is found -/

section Find

variable {cardIdx : UInt32} {name : List UInt8} {names : List (List UInt8)}

theorem ofInt_eq_iff (hcard : 128 + cardIdx.toNat < 2 ^ 32) {n : ℕ} (hn : n < 2 ^ 31) :
    UInt32.ofInt n = 128 + cardIdx ↔ n = 128 + cardIdx.toNat := by
  have hleft : (UInt32.ofInt n).toNat = n := by
    rw [UInt32.ofInt, UInt32.toNat_ofNat_of_lt' (by simp only [UInt32.size]; omega)]
    omega
  have hright : (128 + cardIdx).toNat = 128 + cardIdx.toNat := by
    rw [UInt32.toNat_add]
    exact Nat.mod_eq_of_lt hcard
  rw [← UInt32.toNat_inj, hleft, hright]

/-- An entry that is no render node is passed over. -/
theorem drmFind_other (h : ∀ n, ¬ RenderNode n name) :
    drmFind cardIdx (name :: names) = drmFind cardIdx names := by
  rw [drmFind]
  rcases hmatch : regexec drmRegex (name.map charOf) with _ | pmatch
  · rfl
  · obtain ⟨w, r, hname, hw, -⟩ := matches_drmRegex.mp (regexec_drmRegex hmatch)
    obtain ⟨n, hnode⟩ := exists_renderNode_iff.mpr ⟨w, r, hname, hw⟩
    exact absurd hnode (h n)

/-- A render node is compared by its number. -/
theorem drmFind_node (hcard : 128 + cardIdx.toNat < 2 ^ 32) {n : ℕ} (h : RenderNode n name) :
    drmFind cardIdx (name :: names) =
      if n < 2 ^ 31 then
        if n = 128 + cardIdx.toNat then some (some name) else drmFind cardIdx names
      else none := by
  obtain ⟨number, rest, hname, hnumber, hrest, rfl⟩ := h
  have hmatches : Matches drmRegex true (name.map charOf)
      ("renderD".toList.map ([·]) ++ [number]) :=
    matches_drmRegex.mpr ⟨number, rest, hname, hnumber, rfl⟩
  obtain ⟨pmatch, hmatch, hpmatch⟩ := search_here hmatches
  obtain ⟨w, r, -, -, rfl⟩ := matches_drmRegex.mp hpmatch
  have hdrop : (name.map charOf).drop (groupStart drmRegex 1
      ("renderD".toList.map ([·]) ++ [w])) = number ++ rest := by
    rw [hname]
    exact List.drop_left' rfl
  rw [drmFind, regexec, hmatch]
  dsimp only
  rw [hdrop, atoi_digits hnumber hrest]
  by_cases hsmall : Nat.ofDigitChars 10 number 0 < 2 ^ 31
  · rw [if_pos hsmall, if_pos hsmall]
    exact if_congr (ofInt_eq_iff hcard hsmall) rfl rfl
  · rw [if_neg hsmall, if_neg hsmall]

/-- The entry is the first render node of the card. -/
theorem drmFind_first (hcard : 128 + cardIdx.toNat < 2 ^ 32) {found : Option (List UInt8)}
    (h : drmFind cardIdx names = some found) : FirstNode (128 + cardIdx.toNat) names found := by
  have hcons : ∀ {name names}, ¬ RenderNode (128 + cardIdx.toNat) name →
      FirstNode (128 + cardIdx.toNat) names found →
      FirstNode (128 + cardIdx.toNat) (name :: names) found := by
    intro name names hother hfirst
    cases found with
    | none => exact List.forall_mem_cons.mpr ⟨hother, hfirst⟩
    | some node =>
      obtain ⟨hnode, front, back, rfl, hfront⟩ := hfirst
      exact ⟨hnode, name :: front, back, rfl, List.forall_mem_cons.mpr ⟨hother, hfront⟩⟩
  induction names with
  | nil =>
    cases h
    exact fun name hname => absurd hname List.not_mem_nil
  | cons name names ih =>
    by_cases hnode : ∃ n, RenderNode n name
    · obtain ⟨n, hnode⟩ := hnode
      rw [drmFind_node hcard hnode] at h
      split_ifs at h with hsmall heq
      · cases h
        rw [← heq]
        exact ⟨hnode, [], names, rfl, fun name' hname' => absurd hname' List.not_mem_nil⟩
      · exact hcons (fun hcardNode => heq (hnode.unique hcardNode)) (ih h)
    · rw [not_exists] at hnode
      rw [drmFind_other hnode] at h
      exact hcons (hnode _) (ih h)

/-- The search is defined where every number is an `int`. -/
theorem drmFind_total (hcard : 128 + cardIdx.toNat < 2 ^ 32)
    (hsmall : ∀ name ∈ names, ∀ n, RenderNode n name → n < 2 ^ 31) :
    ∃ found, drmFind cardIdx names = some found := by
  induction names with
  | nil => exact ⟨none, rfl⟩
  | cons name names ih =>
    obtain ⟨hname, hnames⟩ := List.forall_mem_cons.mp hsmall
    by_cases hnode : ∃ n, RenderNode n name
    · obtain ⟨n, hnode⟩ := hnode
      rw [drmFind_node hcard hnode, if_pos (hname n hnode)]
      split_ifs
      · exact ⟨some name, rfl⟩
      · exact ih hnames
    · rw [drmFind_other (not_exists.mp hnode)]
      exact ih hnames

end Find

/-! ## What is opened -/

section Open

variable {env : DrmEnv} {drmFd : ℤ} {cardIdx : UInt32}

/-- What `drm_open` makes of the entry that it stops at: a name that does not fit into the buffer is
given up, like an entry that is not there. -/
def DrmEnv.opened (env : DrmEnv) (drmFd : ℤ) : Option (List UInt8) → ℤ × ℤ
  | none => (drmFd, drmFd)
  | some name =>
    if drmBufSize ≤ (ascii "/dev/dri/").length + name.length then (drmFd, drmFd)
    else match env.openFile (ascii "/dev/dri/" ++ name) with
      | none => (-1, -1)
      | some fd => (fd, fd)

theorem FirstNode.mem {n : ℕ} {name : List UInt8} {names : List (List UInt8)}
    (h : FirstNode n names (some name)) : name ∈ names := by
  obtain ⟨-, front, back, rfl, -⟩ := h
  exact List.mem_append_right front (List.mem_cons_self ..)

/-- `drm_open` without its buffer -/
theorem drmOpen_eq (hcard : 128 + cardIdx.toNat < 2 ^ 32) :
    drmOpen env drmFd cardIdx =
      if ¬ env.regcompOk then some (-1, drmFd)
      else match env.listing (ascii "/dev/dri/") with
        | none => none
        | some names => (drmFind cardIdx names).map (env.opened drmFd) := by
  have hdir : (ascii "/dev/dri/").length = 9 := rfl
  have hsize : drmBufSize = 128 := rfl
  have hcopy := @strscpyBytes_fits env.buffer (ascii "/dev/dri/") drmBufSize env.buffer_size.ge
    (by omega)
  have hpos : ((ascii "/dev/dri/").length : ℤ).toNat = (ascii "/dev/dri/").length :=
    Int.toNat_natCast _
  have hnonneg : ¬ ((ascii "/dev/dri/").length : ℤ) < 0 := not_lt.mpr (Int.natCast_nonneg _)
  simp only [drmOpen, hcopy, hpos, if_neg hnonneg,
    pathOf_append _ (show 0 ∉ ascii "/dev/dri/" by decide), List.drop_left, List.take_left]
  refine if_congr Iff.rfl rfl ?_
  rcases hlisting : env.listing (ascii "/dev/dri/") with _ | names
  · rfl
  dsimp only
  rcases hfind : drmFind cardIdx names with _ | _ | name
  · rfl
  · rfl
  · have hnul := env.names _ _ hlisting name (drmFind_first hcard hfind).mem
    have hroom : drmBufSize - (ascii "/dev/dri/").length ≤
        (0 :: env.buffer.drop ((ascii "/dev/dri/").length + 1)).length := by
      rw [List.length_cons, List.length_drop, env.buffer_size]
      omega
    simp only [Option.map_some, DrmEnv.opened]
    -- the path has room or not
    by_cases hbig : drmBufSize - (ascii "/dev/dri/").length ≤ name.length
    · rw [if_pos ((strscpyBytes_neg_iff hroom).mpr hbig), if_pos (by omega)]
    · have hlen : ¬ ((name.length : ℤ) < 0) := not_lt.mpr (Int.natCast_nonneg _)
      have hpath : 0 ∉ ascii "/dev/dri/" ++ name := by
        rw [List.mem_append, not_or]
        exact ⟨by decide, hnul⟩
      rw [strscpyBytes_fits hroom (Nat.lt_of_not_le hbig)]
      dsimp only
      rw [if_neg hlen, if_neg (by omega), ← List.append_assoc, pathOf_append _ hpath]
      cases env.openFile (ascii "/dev/dri/" ++ name) <;> rfl

/-- `open` has succeeded for the first render node of the card, and `m` is the descriptor. -/
def DrmEnv.Opened (env : DrmEnv) (idx : ℕ) (m : ℤ) : Prop :=
  ∃ names name fd, env.listing (ascii "/dev/dri/") = some names ∧
    FirstNode (128 + idx) names (some name) ∧
    env.openFile (ascii "/dev/dri/" ++ name) = some fd ∧ m = fd

/-- In a new process, `drm_open` succeeds by opening a file. -/
theorem drmOpen_opened (hcard : 128 + cardIdx.toNat < 2 ^ 32) {m fd : ℤ}
    (h : drmOpen env (-1) cardIdx = some (m, fd)) (hm : 0 ≤ m) : env.Opened cardIdx.toNat m := by
  rw [drmOpen_eq hcard] at h
  by_cases hregcomp : ¬ env.regcompOk = true
  · rw [if_pos hregcomp] at h
    cases h
    omega
  rw [if_neg hregcomp] at h
  rcases hlisting : env.listing (ascii "/dev/dri/") with _ | names
  · rw [hlisting] at h
    cases h
  rw [hlisting] at h
  obtain ⟨found, hfind, hopened⟩ := Option.map_eq_some_iff.mp h
  have hfirst := drmFind_first hcard hfind
  cases found with
  | none =>
    cases hopened
    omega
  | some name =>
    rw [DrmEnv.opened] at hopened
    split_ifs at hopened
    · cases hopened
      omega
    · rcases hopen : env.openFile (ascii "/dev/dri/" ++ name) with _ | n
      · rw [hopen] at hopened
        cases hopened
        omega
      · rw [hopen] at hopened
        cases hopened
        exact ⟨names, name, n, hlisting, hfirst, hopen, rfl⟩

end Open

/-- **The render node of a card.** For every directory whose numbers are values of `int`, and every
card: `drm_open` opens the first entry that is the render node of the card. Where there is none, or
its name does not fit into the buffer, it returns what `drm_fd` held before the call, also if that
is the descriptor of a node that has been closed since. -/
theorem drmOpen_exact (env : DrmEnv) (hregcomp : env.regcompOk = true)
    (names : List (List UInt8)) (hlisting : env.listing (ascii "/dev/dri/") = some names)
    (hsmall : ∀ name ∈ names, ∀ n, RenderNode n name → n < 2 ^ 31) (drmFd : ℤ) (cardIdx : UInt32)
    (hcard : 128 + cardIdx.toNat < 2 ^ 32) :
    ∃ found, FirstNode (128 + cardIdx.toNat) names found ∧
      drmOpen env drmFd cardIdx = some (env.opened drmFd found) := by
  obtain ⟨found, hfind⟩ := drmFind_total hcard hsmall
  refine ⟨found, drmFind_first hcard hfind, ?_⟩
  rw [drmOpen_eq hcard, if_neg (by simpa using hregcomp), hlisting]
  dsimp only
  rw [hfind, Option.map_some]

/-- One card with its render node -/
def oneNode : DrmEnv where
  regcompOk := true
  listing := fun dir =>
    if dir = ascii "/dev/dri/" then some [ascii "card0", ascii "renderD128"] else none
  openFile := fun path => if path = ascii "/dev/dri/renderD128" then some 5 else none
  buffer := List.replicate drmBufSize 0
  buffer_size := List.length_replicate
  names := by
    intro dir entries h
    split_ifs at h
    cases h
    decide

theorem oneNode_listing :
    oneNode.listing (ascii "/dev/dri/") = some [ascii "card0", ascii "renderD128"] := by
  simp only [oneNode, if_true]

theorem renderNode_128 : RenderNode 128 (ascii "renderD128") := by
  refine ⟨"128".toList, [], by decide, ⟨by decide, ?_⟩, nofun, by decide⟩
  exact List.forall_mem_cons.mpr ⟨rfl, List.forall_mem_cons.mpr ⟨rfl,
    List.forall_mem_singleton.mpr rfl⟩⟩

theorem not_renderNode_card0 (n : ℕ) : ¬ RenderNode n (ascii "card0") := by
  rintro ⟨number, rest, hname, -⟩
  exact absurd (List.cons.inj hname).1 (by decide)

theorem drmOpen_exact_one_node :
    ∃ found, FirstNode 128 [ascii "card0", ascii "renderD128"] found ∧
      drmOpen oneNode (-1) 0 = some (oneNode.opened (-1) found) := by
  refine drmOpen_exact oneNode rfl _ oneNode_listing ?_ (-1) 0 (by decide)
  intro name hname n hnode
  rcases List.mem_pair.mp hname with rfl | rfl
  · exact absurd hnode (not_renderNode_card0 n)
  · rw [hnode.unique renderNode_128]
    decide

/-! ## Fan and sensor -/

section Init

variable {drm : DrmEnv} {env : HwmonEnv} {cache cache' : FandCache} {file' : Option (List UInt8)}
  {drmFd m fd : ℤ}

theorem fanctrlInit_steps (h : drm.fanctrlInit env cache drmFd = some (m, cache', file', fd))
    (hm : 0 ≤ m) :
    ∃ n, hwmonOpen env cache = some (n, cache', file') ∧ 0 ≤ n ∧
      drmOpen drm drmFd (UInt32.ofInt n) = some (m, fd) := by
  obtain ⟨⟨n, cache₁, file₁⟩, hopen, h⟩ := Option.bind_eq_some_iff.mp h
  dsimp only at h
  split_ifs at h with hn
  · cases h
    omega
  · obtain ⟨⟨status, fd₁⟩, hdrm, h⟩ := Option.bind_eq_some_iff.mp h
    cases h
    exact ⟨n, hopen, not_lt.mp hn, hdrm⟩

/-- The node belongs to the card that `hwmon_open` returns. -/
theorem fanctrlInit_opened {idx : ℕ} (hidx : idx < maxDriDirIdx)
    (hdrm : drmOpen drm (-1) (UInt32.ofInt idx) = some (m, fd)) (hm : 0 ≤ m) :
    drm.Opened idx m := by
  have hmax : maxDriDirIdx = 128 := rfl
  have hvalue : (UInt32.ofInt idx).toNat = idx := by
    rw [UInt32.ofInt, UInt32.toNat_ofNat_of_lt' (by simp only [UInt32.size]; omega)]
    omega
  have hopened := drmOpen_opened (by omega) hdrm hm
  rwa [hvalue] at hopened

/-- **One card.** A start without an accepted cache has found a card that has an entry for its
sensors. In this start, and in another one behind any number of starts on the same sysfs, whatever
these could read of the cache and write of it, a process whose initialisation succeeds controls the
fan of this card and reads the temperature from the render node of the same card. Nobody else writes
the cache. -/
theorem fanctrlInit_same_card {first : Start} {file file₁ : Option (List UInt8)}
    {cache₁ : FandCache} (hcold : ∀ stored, ¬ (first.finding file).CachedAs stored)
    (hentry : ∀ idx, first.env.IsCardIndex idx → ¬ first.env.NoEntry idx) (drm₁ : DrmEnv)
    (m₁ fd₁ : ℤ)
    (hfirst : drm₁.fanctrlInit (first.finding file) first.record (-1) =
      some (m₁, cache₁, file₁, fd₁))
    (hm₁ : 0 ≤ m₁) (others : List Start)
    (hothers : ∀ start ∈ others, start.env.SameSysfs first.env) (file₂ : Option (List UInt8))
    (hrun : Process.run leaveCache file₁ others = some file₂) (last : Start)
    (hlast : last.env.SameSysfs first.env) (drm : DrmEnv) (m fd : ℤ) (cache₂ : FandCache)
    (file₃ : Option (List UInt8))
    (hinit : drm.fanctrlInit (last.finding file₂) last.record (-1) =
      some (m, cache₂, file₃, fd)) (hm : 0 ≤ m) :
    ∃ idx dir, first.env.SensorDir idx dir ∧ (cache₁.InDir dir ∧ drm₁.Opened idx m₁) ∧
      cache₂.InDir dir ∧ drm.Opened idx m := by
  obtain ⟨n, hopen₁, hn, hdrm₁⟩ := fanctrlInit_steps hfirst hm₁
  obtain ⟨idx, dir, hsensors, rfl, hdir₁, hfile₁⟩ := opened_holdsIntact hcold hentry hopen₁ hn
  obtain ⟨k, hopen, hk, hdrm⟩ := fanctrlInit_steps hinit hm
  have hfile₂ := hfile₁.holdsCard.run hsensors hothers hrun
  obtain ⟨rfl, hdir⟩ := (hfile₂.opened hsensors hlast hopen).2 hk
  exact ⟨idx, dir, hsensors, ⟨hdir₁, fanctrlInit_opened hsensors.1.1 hdrm₁ hm₁⟩, hdir,
    fanctrlInit_opened hsensors.1.1 hdrm hm⟩

theorem oneNode_drmOpen : drmOpen oneNode (-1) (UInt32.ofInt 0) = some (5, 5) := by
  have hcard : 128 + (UInt32.ofInt 0).toNat < 2 ^ 32 := by decide
  have hregcomp : ¬ ¬ oneNode.regcompOk = true := not_not.mpr rfl
  rw [drmOpen_eq hcard, if_neg hregcomp, oneNode_listing]
  dsimp only
  rw [drmFind_other not_renderNode_card0, drmFind_node hcard renderNode_128, if_pos (by decide),
    if_pos (show 128 = 128 + (UInt32.ofInt 0).toNat by decide)]
  rfl

theorem oneNode_fanctrlInit {env : HwmonEnv} {cache cache' : FandCache}
    {file' : Option (List UInt8)} (h : hwmonOpen env cache = some (0, cache', file')) :
    oneNode.fanctrlInit env cache (-1) = some (5, cache', file', 5) := by
  rw [DrmEnv.fanctrlInit, h, Option.bind_eq_bind, Option.bind_some]
  dsimp only
  rw [if_neg (lt_irrefl 0), oneNode_drmOpen]
  rfl

/-- Two starts, where the second cannot read the cache -/
theorem fanctrlInit_same_card_one_node :
    ∃ cache₁ file₁ cache₂ file₂,
      oneNode.fanctrlInit ((⟨oneCard true, zeroRecord⟩ : Start).finding none) zeroRecord (-1) =
        some (5, cache₁, file₁, 5) ∧
      oneNode.fanctrlInit ((⟨oneCard false, zeroRecord⟩ : Start).finding file₁) zeroRecord (-1) =
        some (5, cache₂, file₂, 5) ∧
      ∃ idx dir, cache₁.InDir dir ∧ cache₂.InDir dir ∧ oneNode.Opened idx 5 := by
  obtain ⟨cache₁, file₁, hfirst, -⟩ := @oneCard_opened true none (Or.inl rfl)
  obtain ⟨cache₂, file₂, hlast, -⟩ := @oneCard_opened false file₁ (Or.inr rfl)
  have hinit₁ := oneNode_fanctrlInit hfirst
  have hinit₂ := oneNode_fanctrlInit hlast
  obtain ⟨idx, dir, -, ⟨hdir₁, -⟩, hdir₂, hopened⟩ := fanctrlInit_same_card
    (oneCard_cold (Or.inl rfl)) oneCard_hasEntry oneNode 5 5 hinit₁ (by decide) []
    (fun start hmem => absurd hmem List.not_mem_nil) file₁ rfl ⟨oneCard false, zeroRecord⟩
    ⟨rfl, rfl, rfl⟩ oneNode 5 5 cache₂ file₂ hinit₂ (by decide)
  exact ⟨cache₁, file₁, cache₂, file₂, hinit₁, hinit₂, idx, dir, hdir₁, hdir₂, hopened⟩

end Init

end AmdgpuFand
