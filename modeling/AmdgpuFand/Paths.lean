import AmdgpuFand.Hwmon

/-!
# Paths at the end of their buffer

Both functions that put a path together (`hwmon_init_single_sysfs_path` and `fsys_append`) keep the
position in a signed number and add to it what `strscpy` returns, which is `-E2BIG` if there is no
room. The sum is negative only for positions below seven. Elsewhere the next copy starts seven
characters in front of the place where the last one failed, and may well succeed.
-/

namespace AmdgpuFand

open CLib

/-! ## `fsys_append` -/

/-- `fsys_append`, on the cells of the buffer: the status and the cells -/
def fsysAppend (stem app : List UInt8) (bufsize : ℕ) : ℤ × List UInt8 :=
  let pos : ℤ := (pathOf stem).length
  let (n, cells) := strscpyBytes (stem.drop pos.toNat) (ascii "/") (bufsize - pos.toNat)
  let stem := stem.take pos.toNat ++ cells
  let pos := pos + n
  if pos < 0 then (pos, stem)
  else
    let (n, cells) := strscpyBytes (stem.drop pos.toNat) app (bufsize - pos.toNat)
    let stem := stem.take pos.toNat ++ cells
    let pos := pos + n
    if pos < 0 then (pos, stem) else (pos, stem)

/-! ## Statuses -/

/-- What `strscpy` returns depends on the lengths alone. -/
theorem strscpyBytes_fst (dst src : List UInt8) (dstlen : ℕ) :
    (strscpyBytes dst src dstlen).1 = if src.length < dstlen then (src.length : ℤ) else -e2big := by
  simp only [strscpyBytes, strscpy, List.length_map]
  by_cases hfits : src.length < dstlen
  · rw [if_neg (not_le.mpr hfits), if_pos hfits]
  · rw [if_pos (not_lt.mp hfits), if_neg hfits]

theorem strscpyBytes_slash_fst (dst : List UInt8) (dstlen : ℕ) :
    (strscpyBytes dst (ascii "/") dstlen).1 = if 1 < dstlen then (1 : ℤ) else -e2big :=
  strscpyBytes_fst ..

section Status

variable {dst dir filename stem app : List UInt8} {size : ℕ}

/-- When `hwmon_init_single_sysfs_path` reports success. -/
theorem hwmonInitSingleSysfsPath_nonneg (hsize : 1 ≤ size) :
    0 ≤ (hwmonInitSingleSysfsPath dst dir filename size).1 ↔
      dir.length + 1 + filename.length < size ∨
        (dir.length = size - 1 ∧ 8 ≤ size ∧ filename.length < 8) := by
  have he2big : -e2big = -7 := rfl
  rcases hfirst : strscpyBytes dst dir size with ⟨pos, cells⟩
  have hpos := strscpyBytes_fst dst dir size
  rw [hfirst] at hpos
  dsimp only at hpos
  simp only [hwmonInitSingleSysfsPath, hfirst]
  by_cases hdir : dir.length < size
  · rw [if_pos hdir] at hpos
    subst hpos
    rw [if_neg (by omega), Int.toNat_natCast]
    rcases hsecond : strscpyBytes (cells.drop dir.length) (ascii "/") (size - dir.length)
      with ⟨n, cells'⟩
    have hn := strscpyBytes_slash_fst (cells.drop dir.length) (size - dir.length)
    rw [hsecond] at hn
    dsimp only at hn ⊢
    subst hn
    -- a negative count from the second copy is added to the position of the first
    by_cases hneg : (dir.length : ℤ) + (if 1 < size - dir.length then (1 : ℤ) else -e2big) < 0
    · rw [if_pos hneg]
      refine iff_of_false (not_le.mpr hneg) ?_
      split_ifs at hneg <;> omega
    · rw [if_neg hneg]
      dsimp only
      rw [strscpyBytes_fst]
      split_ifs at hneg ⊢ <;> omega
  · rw [if_neg hdir] at hpos
    subst hpos
    -- the first copy fails
    have hneg : (-e2big : ℤ) < 0 := by decide
    rw [if_pos hneg]
    exact iff_of_false (not_le.mpr hneg) (by omega)

/-- When `fsys_append` reports success. -/
theorem fsysAppend_nonneg (hstem : (pathOf stem).length < size) :
    0 ≤ (fsysAppend stem app size).1 ↔
      (pathOf stem).length + 1 + app.length < size ∨
        ((pathOf stem).length = size - 1 ∧
          (8 ≤ size ∧ app.length < 8 ∨ 15 ≤ size)) ∨
        ((pathOf stem).length + 1 < size ∧ 6 ≤ (pathOf stem).length) := by
  have he2big : -e2big = -7 := rfl
  simp only [fsysAppend, Int.toNat_natCast]
  rcases hfirst : strscpyBytes (stem.drop (pathOf stem).length) (ascii "/")
    (size - (pathOf stem).length) with ⟨n, cells⟩
  have hn := strscpyBytes_slash_fst (stem.drop (pathOf stem).length) (size - (pathOf stem).length)
  rw [hfirst] at hn
  dsimp only at hn ⊢
  subst hn
  by_cases hneg : ((pathOf stem).length : ℤ) +
      (if 1 < size - (pathOf stem).length then (1 : ℤ) else -e2big) < 0
  · rw [if_pos hneg]
    refine iff_of_false (not_le.mpr hneg) ?_
    split_ifs at hneg <;> omega
  · rw [if_neg hneg, ite_self]
    dsimp only
    rw [strscpyBytes_fst]
    split_ifs at hneg ⊢ <;> omega

/-- A buffer holds its string and the terminator. -/
theorem pathOf_split {cells : List UInt8} (h : (pathOf cells).length < cells.length) :
    ∃ rest, cells = pathOf cells ++ 0 :: rest := by
  induction cells with
  | nil => exact absurd h (lt_irrefl _)
  | cons b cells ih =>
    by_cases hb : b = 0
    · subst hb
      exact ⟨cells, by simp [pathOf]⟩
    · have hcons : pathOf (b :: cells) = b :: pathOf cells := by simp [pathOf, hb]
      rw [hcons, List.length_cons, List.length_cons, Nat.add_lt_add_iff_right] at h
      obtain ⟨rest, hrest⟩ := ih h
      exact ⟨rest, by rw [hcons, List.cons_append, ← hrest]⟩

/-- A path that fits is appended. -/
theorem fsysAppend_fits (hdst : stem.length = size)
    (h : (pathOf stem).length + 1 + app.length < size) :
    ∃ rest, fsysAppend stem app size =
      ((pathOf stem).length + 1 + (app.length : ℤ),
        pathOf stem ++ ascii "/" ++ app ++ 0 :: rest) := by
  obtain ⟨rest, hrest⟩ := @pathOf_split stem (by omega)
  have hsize : (pathOf stem ++ 0 :: rest).length = size := hrest ▸ hdst
  obtain ⟨rest₁, rest₂, hfirst, hjoin, hsecond, hjoin'⟩ :=
    @strscpyBytes_slash size (pathOf stem) rest app hsize h
  rw [← hrest] at hfirst hjoin
  have hpos : (((pathOf stem).length : ℤ) + 1).toNat = (pathOf stem).length + 1 := rfl
  refine ⟨rest₂, ?_⟩
  simp only [fsysAppend, Int.toNat_natCast, hfirst, hjoin, hpos, hsecond, hjoin', ite_self,
    if_neg (show ¬ ((pathOf stem).length : ℤ) + 1 < 0 by omega)]

end Status

/-! ## Exactness -/

/-- The result is a success if and only if the path fits a buffer of this size, and then the buffer
holds it. -/
def BuildsPath (result : ℤ × List UInt8) (path : List UInt8) (size : ℕ) : Prop :=
  (0 ≤ result.1 ↔ path.length < size) ∧ (0 ≤ result.1 → pathOf result.2 = path)

/-- The path of an entry of a directory -/
def entryPath (dir name : List UInt8) : List UInt8 := dir ++ ascii "/" ++ name

theorem entryPath_length (dir name : List UInt8) :
    (entryPath dir name).length = dir.length + 1 + name.length := by
  have hslash : (ascii "/").length = 1 := rfl
  rw [entryPath, List.length_append, List.length_append, hslash]

theorem pathOf_entryPath {dir name : List UInt8} (rest : List UInt8) (hdir : 0 ∉ dir)
    (hname : 0 ∉ name) : pathOf (dir ++ ascii "/" ++ name ++ 0 :: rest) = entryPath dir name := by
  have hslash : 0 ∉ ascii "/" := by decide
  refine pathOf_append rest ?_
  rw [List.mem_append, List.mem_append, not_or, not_or]
  exact ⟨⟨hdir, hslash⟩, hname⟩

/-- A result that is a success where the path fits, and with the path, builds it exactly if it is no
success elsewhere. -/
theorem buildsPath_iff {result : ℤ × List UInt8} {path : List UInt8} {size : ℕ}
    (h : path.length < size → 0 ≤ result.1 ∧ pathOf result.2 = path) :
    BuildsPath result path size ↔ path.length < size ∨ ¬ 0 ≤ result.1 := by
  by_cases hfits : path.length < size
  · obtain ⟨hnonneg, hpath⟩ := h hfits
    exact iff_of_true ⟨iff_of_true hnonneg hfits, fun _ => hpath⟩ (Or.inl hfits)
  · refine ⟨fun hbuilds => Or.inr fun hnonneg => hfits (hbuilds.1.mp hnonneg), ?_⟩
    intro hor
    have hneg := hor.resolve_left hfits
    exact ⟨iff_of_false hneg hfits, fun hnonneg => absurd hnonneg hneg⟩

/-- **Paths.** For every buffer with room for at least the terminator,
`hwmon_init_single_sysfs_path` is exact for every directory and name except a directory that leaves
no room for the slash in a buffer of eight cells or more, with a name of less than eight characters;
and `fsys_append` is exact if the path fits, or if the position at which it stops fitting is one
from which `-E2BIG` leads below zero. -/
theorem paths_exact {dst : List UInt8} {size : ℕ} (hdst : dst.length = size) (hsize : 1 ≤ size) :
    (∀ dir filename, 0 ∉ dir → 0 ∉ filename →
      (BuildsPath (hwmonInitSingleSysfsPath dst dir filename size) (entryPath dir filename) size ↔
        ¬ (dir.length = size - 1 ∧ 8 ≤ size ∧ filename.length < 8))) ∧
    ∀ app, 0 ∉ app → (pathOf dst).length < size →
      (BuildsPath (fsysAppend dst app size) (entryPath (pathOf dst) app) size ↔
        (pathOf dst).length + 1 + app.length < size ∨
          (pathOf dst).length + 1 < size ∧ (pathOf dst).length < 6 ∨
          (pathOf dst).length = size - 1 ∧ (size < 8 ∨ size < 15 ∧ 8 ≤ app.length)) := by
  refine ⟨fun dir filename hdir hname => ?_, fun app happ hstem => ?_⟩
  · rw [buildsPath_iff, hwmonInitSingleSysfsPath_nonneg hsize, entryPath_length]
    · omega
    · intro hfits
      rw [entryPath_length] at hfits
      obtain ⟨rest, hresult⟩ := @hwmonInitSingleSysfsPath_fits dst dir filename size hdst hfits
      rw [hresult]
      exact ⟨Int.natCast_nonneg _, pathOf_entryPath rest hdir hname⟩
  · rw [buildsPath_iff, fsysAppend_nonneg hstem, entryPath_length]
    · omega
    · intro hfits
      rw [entryPath_length] at hfits
      obtain ⟨rest, hresult⟩ := @fsysAppend_fits dst app size hdst hfits
      rw [hresult]
      exact ⟨by omega, pathOf_entryPath rest (pathOf_zero_not_mem dst) happ⟩

theorem paths_exact_sixteen :
    BuildsPath (hwmonInitSingleSysfsPath (List.replicate 16 0) (ascii "/sys") (ascii "pwm1") 16)
        (entryPath (ascii "/sys") (ascii "pwm1")) 16 ∧
      BuildsPath (fsysAppend (List.replicate 16 0) (ascii "pwm1") 16)
        (entryPath (pathOf (List.replicate 16 0)) (ascii "pwm1")) 16 :=
  have h := @paths_exact (List.replicate 16 0) 16 (by decide) (by decide)
  ⟨(h.1 (ascii "/sys") (ascii "pwm1") (by decide) (by decide)).mpr (by decide),
    (h.2 (ascii "pwm1") (by decide) (by decide)).mpr (by decide)⟩

/-- A directory that takes all of the buffer: the name is written over its last eight cells. -/
def fullDir : List UInt8 := ascii "/sys" ++ List.replicate 251 47

theorem hwmonInitSingleSysfsPath_overwritten :
    (hwmonInitSingleSysfsPath (List.replicate hwmonPathSize 0) fullDir (ascii "pwm1")
        hwmonPathSize).1 = 4 ∧
      ¬ BuildsPath (hwmonInitSingleSysfsPath (List.replicate hwmonPathSize 0) fullDir
        (ascii "pwm1") hwmonPathSize) (entryPath fullDir (ascii "pwm1")) hwmonPathSize := by
  have hstatus : (hwmonInitSingleSysfsPath (List.replicate hwmonPathSize 0) fullDir
      (ascii "pwm1") hwmonPathSize).1 = 4 := by decide +kernel
  refine ⟨hstatus, fun h => ?_⟩
  have hfits := h.1.mp (by rw [hstatus]; decide)
  exact absurd hfits (by decide +kernel)

end AmdgpuFand
