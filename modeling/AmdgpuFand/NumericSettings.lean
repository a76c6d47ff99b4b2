import AmdgpuFand.Settings

/-!
# The range of a numeric setting

`strstoul_range` compares the number after `strtoul` has put it into an `unsigned long`. A numeral
that is too large saturates and is above every bound, but one with a minus sign is negated in the
unsigned type: what is `2 ^ 64` or less below zero comes back above it, and may land in the range.
-/

namespace AmdgpuFand

open CLib

/-- A number is read exactly in these bounds: what is accepted are the texts of numbers in them, and
what is stored is the number. -/
def ReadsNumber (s : List Char) (low high : ℕ) (accepted : Prop) (stored : ℕ) : Prop :=
  (accepted ↔ ∃ n : Numeral, n.text = s ∧ (low : ℤ) ≤ n.signedValue ∧ n.signedValue ≤ high) ∧
    ∀ n : Numeral, n.text = s → accepted → (stored : ℤ) = n.signedValue

/-- A setter reads a number exactly: what is in the bounds is stored, anything else is rejected, and
then the record is as it was. -/
def SetsNumber (s : List Char) (high : ℕ) (data : FandConfig) (set : ℤ × FandConfig)
    (stored : ℕ) : Prop :=
  ReadsNumber s 0 high (set.1 = 0) stored ∧ (set.1 ≠ 0 → set.2 = data)

/-- A negative number whose negation in 64 bits is in the bounds -/
def WrapsInto (s : List Char) (low high : ℕ) : Prop :=
  ∃ n : Numeral, n.text = s ∧ n.sign = .minus ∧ 0 < n.magnitude ∧ n.magnitude < 2 ^ 64 ∧
    low ≤ 2 ^ 64 - n.magnitude ∧ 2 ^ 64 - n.magnitude ≤ high

/-- What `strstoul_range` accepts -/
theorem strstoulRange_eq_zero_iff {s : List Char} {low high : UInt64} :
    (strstoulRange s low high).1 = 0 ↔
      ∃ n : Numeral, n.text = s ∧ low.toNat ≤ n.value.toNat ∧ n.value.toNat ≤ high.toNat := by
  refine ⟨fun h => ?_, ?_⟩
  · have hmem := strstoulRange_mem h
    rw [strstoulRange_snd, UInt64.le_iff_toNat_le, UInt64.le_iff_toNat_le] at hmem
    have hok : (strstoul s).1 = 0 := by
      by_contra hst
      rw [strstoulRange, if_pos hst] at h
      exact hst h
    have hst : strstoul s = (0, (strstoul s).2) := Prod.ext hok rfl
    obtain ⟨n, hn, hvalue⟩ := strstoul_eq_ok_iff.mp hst
    rw [← hvalue] at hmem
    exact ⟨n, hn, hmem⟩
  · rintro ⟨n, hn, hlow, hhigh⟩
    have hst : strstoul s = (0, n.value) := strstoul_eq_ok_iff.mpr ⟨n, hn, rfl⟩
    have hin : ¬ (n.value < low ∨ high < n.value) := by
      rw [UInt64.lt_iff_toNat_lt, UInt64.lt_iff_toNat_lt]
      omega
    rw [strstoulRange, hst, if_neg (not_not.mpr rfl), if_neg hin]
    rfl

/-- What it stores -/
theorem strstoulRange_stored {n : Numeral} (low high : UInt64) :
    (strstoulRange n.text low high).2 = n.value := by
  rw [strstoulRange_snd, strstoul_eq_ok_iff.mpr ⟨n, rfl, rfl⟩]

/-- Where the value of a numeral is -/
theorem value_mem_iff {n : Numeral} {low high : ℕ} (hhigh : high < 2 ^ 64 - 1) :
    low ≤ n.value.toNat ∧ n.value.toNat ≤ high ↔
      ((low : ℤ) ≤ n.signedValue ∧ n.signedValue ≤ high) ∨
        (n.sign = .minus ∧ 0 < n.magnitude ∧ n.magnitude < 2 ^ 64 ∧
          low ≤ 2 ^ 64 - n.magnitude ∧ 2 ^ 64 - n.magnitude ≤ high) := by
  rw [Numeral.signedValue]
  by_cases hlt : n.magnitude < 2 ^ 64
  · rw [Numeral.toNat_value_of_lt hlt]
    by_cases hsign : n.sign = .minus
    · simp only [hsign, if_true, true_and]
      omega
    · simp only [hsign, if_false, false_and, or_false]
      omega
  · rw [Numeral.toNat_value_of_ge (not_lt.mp hlt)]
    split_ifs <;> omega

/-- A number that is in the bounds is its value. -/
theorem toNat_value_eq {n : Numeral} {low high : ℕ} (hhigh : high < 2 ^ 64 - 1)
    (hlow : (low : ℤ) ≤ n.signedValue) (hle : n.signedValue ≤ high) :
    (n.value.toNat : ℤ) = n.signedValue := by
  rw [Numeral.signedValue] at hlow hle ⊢
  by_cases hsign : n.sign = .minus
  · rw [if_pos hsign] at hlow ⊢
    rw [Numeral.toNat_value_of_lt (by omega), if_pos hsign]
    omega
  · rw [if_neg hsign] at hle ⊢
    rw [Numeral.toNat_value_of_lt (by omega), if_neg hsign]

/-- Whoever accepts what `strstoul_range` accepts, and stores what it stores, reads the numbers
exactly if none wraps into the bounds. -/
theorem readsNumber_iff {s : List Char} {low high stored : ℕ} {accepted : Prop}
    (hhigh : high < 2 ^ 64 - 1)
    (haccepted : accepted ↔
      ∃ n : Numeral, n.text = s ∧ low ≤ n.value.toNat ∧ n.value.toNat ≤ high)
    (hstored : ∀ n : Numeral, n.text = s → accepted → stored = n.value.toNat) :
    ReadsNumber s low high accepted stored ↔ ¬ WrapsInto s low high := by
  refine ⟨?_, fun hwraps => ⟨?_, ?_⟩⟩
  · rintro ⟨hiff, -⟩ ⟨n, hn, hwraps⟩
    -- the number is accepted, and is below zero
    have hacc := haccepted.mpr ⟨n, hn, (value_mem_iff hhigh).mpr (Or.inr hwraps)⟩
    obtain ⟨m, hm, hlow, -⟩ := hiff.mp hacc
    rw [Numeral.signedValue_unique (hm.trans hn.symm), Numeral.signedValue, if_pos hwraps.1] at hlow
    have hpos := hwraps.2.1
    omega
  · rw [haccepted]
    refine exists_congr fun n => and_congr_right fun hn => ?_
    rw [value_mem_iff hhigh]
    exact or_iff_left fun h => hwraps ⟨n, hn, h⟩
  · intro n hn hacc
    obtain ⟨m, hm, hmem⟩ := haccepted.mp hacc
    have hin := ((value_mem_iff hhigh).mp hmem).resolve_right fun h => hwraps ⟨m, hm, h⟩
    rw [hstored m hm hacc, ← Numeral.signedValue_unique (hm.trans hn.symm)]
    exact toNat_value_eq hhigh hin.1 hin.2

/-! ## Settings -/

variable {data : FandConfig} {s : List Char}

theorem configSetInterval_fst : (configSetInterval data s).1 = (strstoulRange s 0 65535).1 := by
  simp only [configSetInterval]
  split_ifs with h
  · rfl
  · exact (not_not.mp h).symm

theorem configSetHysteresis_fst : (configSetHysteresis data s).1 = (strstoulRange s 0 255).1 := by
  simp only [configSetHysteresis]
  split_ifs with h
  · rfl
  · exact (not_not.mp h).symm

/-- What is accepted fits the field. -/
theorem configSetInterval_stored (h : (configSetInterval data s).1 = 0) :
    (configSetInterval data s).2.interval.toNat = (strstoulRange s 0 65535).2.toNat := by
  rw [configSetInterval_fst] at h
  have hle := UInt64.le_iff_toNat_le.mp (strstoulRange_mem h).2
  have hhigh : (65535 : UInt64).toNat = 65535 := rfl
  simp only [configSetInterval, h, ne_eq, not_true_eq_false, if_false]
  rw [UInt64.toNat_toUInt16]
  omega

theorem configSetHysteresis_stored (h : (configSetHysteresis data s).1 = 0) :
    (configSetHysteresis data s).2.hysteresis.toNat = (strstoulRange s 0 255).2.toNat := by
  rw [configSetHysteresis_fst] at h
  have hle := UInt64.le_iff_toNat_le.mp (strstoulRange_mem h).2
  have hhigh : (255 : UInt64).toNat = 255 := rfl
  simp only [configSetHysteresis, h, ne_eq, not_true_eq_false, if_false]
  rw [UInt64.toNat_toUInt8]
  omega

/-- A setter that rejects a number returns before it stores anything. -/
theorem configSetInterval_rejects (h : (configSetInterval data s).1 ≠ 0) :
    (configSetInterval data s).2 = data := by
  rw [configSetInterval_fst] at h
  simp only [configSetInterval, if_pos h]

/-- So does the other one. -/
theorem configSetHysteresis_rejects (h : (configSetHysteresis data s).1 ≠ 0) :
    (configSetHysteresis data s).2 = data := by
  rw [configSetHysteresis_fst] at h
  simp only [configSetHysteresis, if_pos h]

/-- **Numeric settings.** For every text and all bounds below the largest `unsigned long`, a number
is read exactly unless it is negative and wraps into the bounds; and so it is in the two settings
that are numbers, which leave the record alone when they reject one. -/
theorem numbers_exact (s : List Char) {low high : UInt64} (hhigh : high.toNat < 2 ^ 64 - 1)
    (data : FandConfig) :
    (ReadsNumber s low.toNat high.toNat ((strstoulRange s low high).1 = 0)
        (strstoulRange s low high).2.toNat ↔ ¬ WrapsInto s low.toNat high.toNat) ∧
      (SetsNumber s 65535 data (configSetInterval data s)
        (configSetInterval data s).2.interval.toNat ↔ ¬ WrapsInto s 0 65535) ∧
      (SetsNumber s 255 data (configSetHysteresis data s)
        (configSetHysteresis data s).2.hysteresis.toNat ↔ ¬ WrapsInto s 0 255) := by
  refine ⟨?_, ?_, ?_⟩
  · refine readsNumber_iff hhigh strstoulRange_eq_zero_iff ?_
    rintro n rfl -
    rw [strstoulRange_stored]
  · rw [SetsNumber, and_iff_left configSetInterval_rejects, configSetInterval_fst]
    refine readsNumber_iff (by decide) strstoulRange_eq_zero_iff ?_
    rintro n rfl haccepted
    rw [configSetInterval_stored (configSetInterval_fst.trans haccepted), strstoulRange_stored]
  · rw [SetsNumber, and_iff_left configSetHysteresis_rejects, configSetHysteresis_fst]
    refine readsNumber_iff (by decide) strstoulRange_eq_zero_iff ?_
    rintro n rfl haccepted
    rw [configSetHysteresis_stored (configSetHysteresis_fst.trans haccepted), strstoulRange_stored]

theorem numbers_exact_five :
    ReadsNumber ['5'] 1 9 ((strstoulRange ['5'] 1 9).1 = 0) (strstoulRange ['5'] 1 9).2.toNat := by
  refine (@numbers_exact ['5'] 1 9 (by decide) .zero).1.mpr ?_
  rintro ⟨n, hn, hsign, -⟩
  have hfive : Numeral.text ⟨[], .none, ['5'], Numeral.isSpace_nil, by decide,
      List.forall_mem_singleton.mpr rfl⟩ = n.text := hn.symm
  rw [← (Numeral.text_unique hfive).1] at hsign
  cases hsign

/-- What is one more than `-2 ^ 64` -/
def wrappingNumeral : Numeral :=
  ⟨[], .minus, "18446744073709551615".toList, Numeral.isSpace_nil, by decide,
    List.all_eq_true.mp (by decide)⟩

/-- A number far below zero is accepted as an interval of one second. -/
theorem configSetInterval_wraps :
    (configSetInterval .zero wrappingNumeral.text).1 = 0 ∧
      (configSetInterval .zero wrappingNumeral.text).2.interval = 1 ∧
      ¬ SetsNumber wrappingNumeral.text 65535 .zero (configSetInterval .zero wrappingNumeral.text)
        (configSetInterval .zero wrappingNumeral.text).2.interval.toNat := by
  have hstatus : (configSetInterval .zero wrappingNumeral.text).1 = 0 := by decide +kernel
  have hstored : (configSetInterval .zero wrappingNumeral.text).2.interval = 1 := by decide +kernel
  refine ⟨hstatus, hstored, fun h => ?_⟩
  have hvalue := h.1.2 wrappingNumeral rfl hstatus
  rw [hstored] at hvalue
  exact absurd hvalue (by decide +kernel)

end AmdgpuFand
