import AmdgpuFand.Hysteresis
import AmdgpuFand.Lib.Trigger

/-!
# How often the threshold changes

Hysteresis is there to keep the fans from speeding up and slowing down with every small change of
the temperature. What `fanctrl_adjust` remembers is one row, taken on by a reading above it and
given up by a reading that is the hysteresis below it: it is a trigger (`fanctrl_machine`). So the
row is lowered no more often than the temperature falls by more than the hysteresis from a peak, for
any matrix and in any `float` format.

A sensor that wavers by no more than the hysteresis therefore never lowers it. The row is then
raised at most once for each row of the matrix, and the fans keep at least the speed of every row
that was passed, whatever the number of readings.
-/

namespace AmdgpuFand

open Rounding Trigger

/-! ## The controller as a trigger -/

/-- What `fanctrl_get_temp` has read. A negative value is an error. -/
def reading (r : WriteOutcome × ℤ) : Option ℤ := if r.2 < 0 then none else some r.2

/-- The step of `fanctrlRun` -/
def fanctrlStep (F : FloatFormat) (s : Fanctrl) (r : WriteOutcome × ℤ) : Fanctrl :=
  (fanctrlAdjust F r.1 s r.2).2

namespace Fanctrl

/-- The temperature of the row that is remembered -/
def level (s : Fanctrl) : Option ℤ :=
  if s.currentThreshold < 0 then none else some (s.temp s.currentThreshold.toNat)

/-- The number of rows up to the one that is remembered, none for `-1` -/
def rank (s : Fanctrl) : ℕ := (s.currentThreshold + 1).toNat

end Fanctrl

/-- How many readings of a run lower the remembered row -/
def lowered (F : FloatFormat) (s : Fanctrl) (temps : List (WriteOutcome × ℤ)) : ℕ :=
  count (fanctrlStep F) (fun s s' => s'.rank < s.rank) s temps

/-- and how many raise it -/
def raised (F : FloatFormat) (s : Fanctrl) (temps : List (WriteOutcome × ℤ)) : ℕ :=
  count (fanctrlStep F) (fun s s' => s.rank < s'.rank) s temps

section Step

variable {F : FloatFormat} {c : FandConfig} {s : Fanctrl} {r : WriteOutcome × ℤ} {t : ℤ}

theorem reading_eq_some (h : reading r = some t) : r.2 = t ∧ 0 ≤ t := by
  rw [reading] at h
  split at h
  · cases h
  · cases h
    exact ⟨rfl, by omega⟩

/-- The row that a reading finds is below it. -/
theorem level_fanctrlTarget (F : FloatFormat) (hrows : s.rows ≠ 0) :
    ∀ l ∈ Fanctrl.level { s with currentThreshold := (fanctrlTarget F s t).1 }, l < t := by
  intro l hl
  simp only [Fanctrl.level] at hl
  obtain ⟨-, heq⟩ | ⟨i, hseg, heq⟩ | ⟨hhigh, heq⟩ := fanctrlTarget_cases F s t
  · rw [heq] at hl
    cases hl
  · rw [heq] at hl
    dsimp only at hl
    rw [if_neg (by omega), Int.toNat_natCast] at hl
    obtain rfl := Option.some.inj hl
    exact (fanctrlSegment_eq_some hseg).2.1
  · rw [heq] at hl
    dsimp only at hl
    rw [if_neg (by omega), show ((s.rows : ℤ) - 1).toNat = s.rows - 1 by omega] at hl
    obtain rfl := Option.some.inj hl
    exact hhigh

/-- A step keeps the row, or takes on that of the reading. Then the row remembered before is not
higher, or the reading is the hysteresis below it. -/
theorem fanctrlStep_cases (F : FloatFormat) (s : Fanctrl) (r : WriteOutcome × ℤ) :
    fanctrlStep F s r = s ∨
      (s.rows ≠ 0 ∧ reading r = some r.2 ∧
        fanctrlStep F s r = { s with currentThreshold := (fanctrlTarget F s r.2).1 } ∧
        (0 ≤ s.currentThreshold → (fanctrlTarget F s r.2).1 < s.currentThreshold →
          r.2 + s.hysteresis.toNat ≤ s.temp s.currentThreshold.toNat)) := by
  rcases fanctrlAdjust_next F r.1 s r.2 with ⟨-, hsame⟩ | ⟨v, hd⟩
  · exact Or.inl hsame
  obtain ⟨hrows, hnonneg, ⟨-, -, hsame⟩ | ⟨hfree, -, hnext⟩⟩ := fanctrlDecide_ok hd
  · exact Or.inl hsame
  · refine Or.inr ⟨hrows, if_neg (by omega), hnext, fun hge hlt => ?_⟩
    by_contra hheld
    exact hfree ⟨by omega, hlt, by omega⟩

/-- `fanctrl_adjust` is a trigger: a row is lowered by more than the hysteresis. -/
theorem fanctrl_machine (F : FloatFormat) (c : FandConfig) :
    Machine (fanctrlStep F) reading Fanctrl.level (fun s s' => s'.rank < s.rank) (Configured c)
      ((c.hysteresis.toNat : ℤ) + 1) where
  inv_step s r hs := hs.adjust r.1
  silent s r hr := by
    rcases fanctrlStep_cases F s r with hsame | ⟨-, hread, -⟩
    · rw [hsame]
      exact ⟨rfl, Nat.lt_irrefl _⟩
    · rw [hr] at hread
      cases hread
  below s r t _ hr := by
    obtain ⟨rfl, -⟩ := reading_eq_some hr
    rcases fanctrlStep_cases F s r with hsame | ⟨hrows, -, hnext, -⟩
    · exact Or.inl (congrArg Fanctrl.level hsame)
    · rw [hnext]
      exact Or.inr (level_fanctrlTarget F hrows)
  drops s r t hs hr hdrop := by
    obtain ⟨rfl, -⟩ := reading_eq_some hr
    rcases fanctrlStep_cases F s r with hsame | ⟨hrows, -, hnext, hfar⟩
    · rw [hsame] at hdrop
      exact absurd hdrop (Nat.lt_irrefl _)
    · rw [hnext] at hdrop ⊢
      have hge := (fanctrlTarget_threshold F s r.2).1
      simp only [Fanctrl.rank] at hdrop
      have hbelow := hfar (by omega) (by omega)
      rw [hs.hysteresis] at hbelow
      refine ⟨level_fanctrlTarget F hrows, s.temp s.currentThreshold.toNat, ?_, fun p hp => ?_⟩
      · exact if_neg (by omega)
      · omega

theorem Configured.rank_le (hs : Configured c s) : s.rank ≤ c.rows := by
  have := hs.threshold_lt
  rw [Fanctrl.rank]
  omega

/-- A reading above a row makes it remembered, or a higher one is. -/
theorem rank_of_passed (hc : c.Ordered) (hs : Configured c s) {k : ℕ} (hk : k < c.rows)
    (hr : reading r = some t) (hpassed : (c.temp k : ℤ) < t) :
    k + 1 ≤ (fanctrlStep F s r).rank := by
  obtain ⟨rfl, hnonneg⟩ := reading_eq_some hr
  have hfst := (fanctrlTarget_fst_lt (F := F) hc hs hk).not.mpr (not_le.mpr hpassed)
  rw [Fanctrl.rank, fanctrlStep]
  rcases fanctrlAdjust_next F r.1 s r.2 with ⟨hskip, -⟩ | ⟨v, hd⟩
  · rw [hs.rows] at hskip
    omega
  obtain ⟨-, -, ⟨⟨-, hbelow, -⟩, -, hnext⟩ | ⟨-, -, hnext⟩⟩ := fanctrlDecide_ok hd
  · rw [hnext]
    omega
  · rw [hnext]
    dsimp only
    omega

/-- A reading that lowers nothing is answered with at least the speed of every row up to the one
remembered. -/
theorem speed_le_of_kept (hc : c.Ordered) (hs : Configured c s)
    (hkept : s.rank ≤ (fanctrlStep F s r).rank) {v : UInt64} {s' : Fanctrl}
    (hd : fanctrlDecide F s r.2 = .ok (v, s')) {k : ℕ} (hk : k + 1 ≤ s.rank) :
    c.speed k ≤ v.toNat := by
  have hstep : fanctrlStep F s r = s' := by rw [fanctrlStep, fanctrlAdjust_ok hd]
  have hlt := hs.threshold_lt
  rw [hstep] at hkept
  simp only [Fanctrl.rank] at hk hkept
  obtain ⟨-, -, ⟨-, rfl, -⟩ | ⟨-, rfl, rfl⟩⟩ := fanctrlDecide_ok hd
  · -- the row is held
    have hnonneg := s.speed_nonneg s.currentThreshold.toNat
    have hsmall := s.speed_le s.currentThreshold.toNat
    have hnat := toNat_ofInt_of_nonneg hnonneg (by omega)
    have hspeed := hs.speed s.currentThreshold.toNat (by omega)
    have hmono := hc.speed_mono k s.currentThreshold.toNat (by omega) (by omega)
    omega
  · -- the reading is above row `k`
    dsimp only at hkept
    have hkrows : k < c.rows := by omega
    have hpassed : (c.temp k : ℤ) < r.2 :=
      not_le.mp fun hle => by
        have := (fanctrlTarget_fst_lt (F := F) hc hs hkrows).mpr hle
        omega
    have hspeed := speed_le_fanctrlTarget (F := F) hc hs hkrows hpassed
    have hsmall := fanctrlTarget_snd_lt F s r.2
    have hnat := toNat_ofInt_of_nonneg (x := (fanctrlTarget F s r.2).2) (by omega) (by omega)
    omega

end Step

/-! ## Runs -/

section Run

variable {F : FloatFormat} {c : FandConfig} {s : Fanctrl}

/-- A controller that has just been configured remembers no row. -/
theorem rank_fanctrlConfigure (c : FandConfig) (s₀ : Fanctrl) :
    (fanctrlConfigure c s₀).2.rank = 0 :=
  rfl

theorem nonneg_of_mem_readings {temps : List (WriteOutcome × ℤ)} :
    ∀ t ∈ temps.filterMap reading, 0 ≤ t := by
  intro t ht
  obtain ⟨r, -, hr⟩ := List.mem_filterMap.mp ht
  exact (reading_eq_some hr).2

/-- The rows are raised at most once each, and once more for each time they are lowered. -/
theorem raised_le (hs : Configured c s) (hrank : s.rank = 0) (temps : List (WriteOutcome × ℤ)) :
    raised F s temps ≤ c.rows * (lowered F s temps + 1) := by
  have hstep : ∀ s r, Configured c s → Configured c (fanctrlStep F s r) :=
    fun s r hs => hs.adjust r.1
  have hcount := count_lt_le hstep (fun s hs => hs.rank_le) hs temps
  rwa [hrank] at hcount

/-- While nothing is lowered, the rank only rises. -/
theorem rank_le_of_lowered (before : List (WriteOutcome × ℤ)) {after : List (WriteOutcome × ℤ)}
    (h : lowered F s (before ++ after) = 0) :
    s.rank ≤ (fanctrlRun F s before).rank ∧ lowered F (fanctrlRun F s before) after = 0 := by
  induction before generalizing s with
  | nil => exact ⟨Nat.le_refl _, h⟩
  | cons r before ih =>
    rw [lowered, List.cons_append, count, Nat.add_eq_zero_iff] at h
    obtain ⟨hkept, hrest⟩ := h
    obtain ⟨hle, hzero⟩ := ih hrest
    refine ⟨le_trans ?_ hle, hzero⟩
    by_contra hdrop
    rw [if_pos (not_le.mp hdrop)] at hkept
    cases hkept

/-- Where the readings lie close together nothing is lowered. -/
theorem lowered_eq_zero (hs : Configured c s) (hrank : s.rank = 0)
    {temps : List (WriteOutcome × ℤ)}
    (hsteady : ∀ t ∈ temps.filterMap reading, ∀ u ∈ temps.filterMap reading,
      t ≤ u + c.hysteresis.toNat) :
    lowered F s temps = 0 := by
  have hlevel : ∀ l ∈ s.level, l < 0 := by
    intro l hl
    rw [Fanctrl.rank] at hrank
    rw [Fanctrl.level, if_pos (by omega)] at hl
    cases hl
  have hfalls : falls ((c.hysteresis.toNat : ℤ) + 1) 0 (temps.filterMap reading) = 0 := by
    refine falls_eq_zero_iff.mpr (List.pairwise_cons.mpr ⟨fun u hu => ?_, ?_⟩)
    · have := nonneg_of_mem_readings u hu
      omega
    · refine List.Pairwise.imp_of_mem ?_ (List.pairwise_of_forall (R := fun _ _ => True) ?_)
      · intro t u ht hu _
        have := hsteady t ht u hu
        omega
      · exact fun _ _ => trivial
  have hcount := (fanctrl_machine F c).count_le_falls hs hlevel temps
  rw [hfalls] at hcount
  exact Nat.le_zero.mp hcount

end Run

/-- **No chatter.** Whatever the readings, the remembered row is lowered no more often than the
temperature falls by more than the hysteresis below its highest value since the last such fall. So
every time takes more degrees than the hysteresis out of the falls of the temperature, and between
two times the row is raised no more often than there are rows. -/
theorem lowered_le_falls (F : FloatFormat) (c : FandConfig) (hrows : c.rows ≤ maxTempThresholds)
    (s₀ : Fanctrl) (temps : List (WriteOutcome × ℤ)) :
    lowered F (fanctrlConfigure c s₀).2 temps ≤
        falls ((c.hysteresis.toNat : ℤ) + 1) 0 (temps.filterMap reading) ∧
      (lowered F (fanctrlConfigure c s₀).2 temps : ℤ) * (c.hysteresis.toNat + 1) ≤
        totalFall 0 (temps.filterMap reading) ∧
      raised F (fanctrlConfigure c s₀).2 temps ≤
        c.rows * (lowered F (fanctrlConfigure c s₀).2 temps + 1) := by
  have hs := (fanctrlConfigure_configured s₀ hrows).2
  have hlevel : ∀ l ∈ (fanctrlConfigure c s₀).2.level, l < 0 := by
    intro l hl
    cases hl
  have hfalls := (fanctrl_machine F c).count_le_falls hs hlevel temps
  refine ⟨hfalls, ?_, raised_le hs (rank_fanctrlConfigure c s₀) temps⟩
  have htotal := falls_nsmul_le ((c.hysteresis.toNat : ℤ) + 1) (le_refl 0)
    (temps.filterMap reading)
  rw [sub_zero, zero_add, nsmul_eq_mul] at htotal
  refine le_trans ?_ htotal
  exact mul_le_mul_of_nonneg_right (Int.ofNat_le.mpr hfalls) (by omega)

/-- One ascent to 81 degrees, and down to 76: the row of 80 degrees is lowered once. The last two
readings do not lower anything. -/
theorem lowered_le_falls_once :
    lowered binary32 (fanctrlConfigure testConfig Fanctrl.static).2
        ([70, 81, 76, 78, 75].map fun t => (⟨true, true⟩, t)) ≤ 1 ∧
      lowered binary32 (fanctrlConfigure testConfig Fanctrl.static).2
        ([70, 81, 76, 78, 75].map fun t => (⟨true, true⟩, t)) = 1 := by
  have hfalls : falls ((testConfig.hysteresis.toNat : ℤ) + 1) 0
      (([70, 81, 76, 78, 75].map fun t => ((⟨true, true⟩, t) : WriteOutcome × ℤ)).filterMap
        reading) = 1 := by decide
  refine ⟨?_, by decide +kernel⟩
  rw [← hfalls]
  exact (lowered_le_falls binary32 testConfig (by decide) Fanctrl.static _).1

/-- **Settling.** Where all readings lie within the hysteresis of each other, the remembered row is
never lowered, and raised at most once for each row, however long the run. Behind a reading above a
row, the fans keep at least the speed of that row. -/
theorem steady_readings_settle (F : FloatFormat) (c : FandConfig) (hc : c.Ordered) (s₀ : Fanctrl)
    (temps : List (WriteOutcome × ℤ))
    (hsteady : ∀ t ∈ temps.filterMap reading, ∀ u ∈ temps.filterMap reading,
      t ≤ u + c.hysteresis.toNat) :
    lowered F (fanctrlConfigure c s₀).2 temps = 0 ∧
      raised F (fanctrlConfigure c s₀).2 temps ≤ c.rows ∧
      ∀ before r after, temps = before ++ r :: after →
        ∀ v s', fanctrlDecide F (fanctrlRun F (fanctrlConfigure c s₀).2 before) r.2 = .ok (v, s') →
          ∀ k, k < c.rows → ∀ t ∈ before.filterMap reading, (c.temp k : ℤ) < t →
            c.speed k ≤ v.toNat := by
  have hs := (fanctrlConfigure_configured s₀ hc.rows_le).2
  have hrank := rank_fanctrlConfigure c s₀
  have hzero := lowered_eq_zero (F := F) hs hrank hsteady
  have hraised := raised_le (F := F) hs hrank temps
  rw [hzero] at hraised
  refine ⟨hzero, by omega, ?_⟩
  rintro before r after rfl v s' hd k hk t ht hpassed
  -- the reading that passed the row
  obtain ⟨r₀, hmem, hr₀⟩ := List.mem_filterMap.mp ht
  obtain ⟨front, back, rfl⟩ := List.append_of_mem hmem
  rw [List.append_assoc, List.cons_append] at hzero
  have hfront := hs.run (F := F) front
  obtain ⟨-, hzero⟩ := rank_le_of_lowered front hzero
  obtain ⟨-, hzero⟩ := rank_le_of_lowered [r₀] hzero
  obtain ⟨hback, hzero⟩ := rank_le_of_lowered back hzero
  obtain ⟨hkept, -⟩ := rank_le_of_lowered [r] hzero
  have hrun : fanctrlRun F (fanctrlConfigure c s₀).2 (front ++ r₀ :: back) =
      fanctrlRun F (fanctrlRun F (fanctrlRun F (fanctrlConfigure c s₀).2 front) [r₀]) back := by
    rw [fanctrlRun, List.foldl_append, List.foldl_cons]
    rfl
  have hpass := rank_of_passed (F := F) hc hfront hk hr₀ hpassed
  rw [hrun] at hd
  exact speed_le_of_kept hc ((hfront.run [r₀]).run back) hkept hd (hpass.trans hback)

/-- Between 68 and 71 degrees the row of 60 degrees is remembered from the first reading on, and the
fans keep its 50 percent. -/
theorem steady_readings_settle_seventy :
    lowered binary32 (fanctrlConfigure testConfig Fanctrl.static).2
        ([70, 68, 71, 69, 68].map fun t => (⟨true, true⟩, t)) = 0 ∧
      raised binary32 (fanctrlConfigure testConfig Fanctrl.static).2
        ([70, 68, 71, 69, 68].map fun t => (⟨true, true⟩, t)) ≤ testConfig.rows ∧
      ∀ v s', fanctrlDecide binary32 (fanctrlRun binary32 (fanctrlConfigure testConfig
          Fanctrl.static).2 ([70, 68, 71, 69].map fun t => (⟨true, true⟩, t))) 68 = .ok (v, s') →
        testConfig.speed 1 ≤ v.toNat := by
  obtain ⟨hlowered, hraised, hspeed⟩ := steady_readings_settle binary32 testConfig (by decide)
    Fanctrl.static ([70, 68, 71, 69, 68].map fun t => (⟨true, true⟩, t)) (by decide)
  refine ⟨hlowered, hraised, fun v s' hd => ?_⟩
  exact hspeed ([70, 68, 71, 69].map fun t => (⟨true, true⟩, t)) (⟨true, true⟩, 68) [] rfl v s' hd 1
    (by decide) 70 (by decide) (by decide)

end AmdgpuFand
