import AmdgpuFand.FanCurve

/-!
# What hysteresis promises, and what the controller remembers

The documented purpose of hysteresis: once a reading has reached a threshold, the
fans are not slowed below its speed until the temperature has fallen `hysteresis`
degrees below it. `Reached c k ts` says that after the readings `ts` threshold `k`
is under this promise. The promise is about every row at once, and the set of rows
under it is maintained reading by reading (`reached_append`).

The controller remembers a single row. It keeps the promise as long as no row under
the promise lies above the one it remembers (`Remembers`), and there are exactly two
ways to lose one, both excluded by `KeepsThreshold`:

* a reading that lands *on* a threshold reaches it, but the search puts it in the
  segment below, so the threshold is not remembered;
* a reading that releases the remembered row drops straight to its own segment,
  past lower rows it is still within the hysteresis of.

The results hold in every `float` format.
-/

namespace AmdgpuFand

open Rounding

/-! ## The promise -/

/-- Threshold `k` is under the promise after the readings `ts`: one of them reached
it, and none from that one on has fallen `hysteresis` degrees below it. -/
def Reached (c : FandConfig) (k : ℕ) (ts : List ℤ) : Prop :=
  ∃ before t after, ts = before ++ t :: after ∧ (c.temp k : ℤ) ≤ t ∧
    ∀ u ∈ t :: after, (c.temp k : ℤ) - c.hysteresis.toNat < u

theorem not_reached_nil (c : FandConfig) (k : ℕ) : ¬ Reached c k [] := by
  rintro ⟨before, t, after, heq, -⟩
  simp at heq

/-- One more reading: it reaches the threshold itself, or finds it reached; and it is
not `hysteresis` degrees below. -/
theorem reached_append {c : FandConfig} {k : ℕ} {ts : List ℤ} {t : ℤ}
    (h : Reached c k (ts ++ [t])) :
    (Reached c k ts ∨ (c.temp k : ℤ) ≤ t) ∧ (c.temp k : ℤ) - c.hysteresis.toNat < t := by
  obtain ⟨before, u, after, heq, hge, habove⟩ := h
  rcases List.eq_nil_or_concat after with rfl | ⟨after', w, rfl⟩
  · obtain ⟨-, rfl⟩ := List.append_inj' heq rfl |>.imp id List.singleton_inj.mp
    exact ⟨Or.inr hge, habove t (List.mem_singleton_self t)⟩
  · rw [List.concat_eq_append, ← List.cons_append, ← List.append_assoc] at heq
    obtain ⟨rfl, hw⟩ := List.append_inj' heq rfl
    obtain rfl := List.singleton_inj.mp hw
    rw [List.concat_eq_append] at habove
    refine ⟨Or.inl ⟨before, u, after', rfl, hge, fun v hv => habove v ?_⟩, habove t ?_⟩
    · exact List.mem_append_left [t] hv
    · simp

/-! ## What a step must not do -/

/-- The reading `t` does not lose a threshold in state `s`: whenever it lies at or
below a row, but within its hysteresis, and the row is remembered or `t` is exactly
on it, the controller is holding a row at least as high. -/
def KeepsThreshold (c : FandConfig) (s : Fanctrl) (t : ℤ) : Prop :=
  0 ≤ t → ∀ k, k < c.rows → (c.temp k : ℤ) - c.hysteresis.toNat < t → t ≤ c.temp k →
    ((k : ℤ) ≤ s.currentThreshold ∨ t = c.temp k) →
    (k : ℤ) ≤ s.currentThreshold ∧
      (c.temp s.currentThreshold.toNat : ℤ) < t + c.hysteresis.toNat

instance (c : FandConfig) (s : Fanctrl) (t : ℤ) : Decidable (KeepsThreshold c s t) :=
  inferInstanceAs (Decidable (0 ≤ t → ∀ k, k < c.rows → _ → _ → _ → _))

/-- No reading of a run loses a threshold. -/
def KeepsThresholds (F : FloatFormat) (c : FandConfig) (s : Fanctrl) :
    List (WriteOutcome × ℤ) → Prop
  | [] => True
  | r :: rest => KeepsThreshold c s r.2 ∧ KeepsThresholds F c (fanctrlAdjust F r.1 s r.2).2 rest

instance instDecidableKeepsThresholds (F : FloatFormat) (c : FandConfig) :
    ∀ (s : Fanctrl) (temps : List (WriteOutcome × ℤ)), Decidable (KeepsThresholds F c s temps)
  | _, [] => isTrue trivial
  | s, r :: rest =>
    have := instDecidableKeepsThresholds F c (fanctrlAdjust F r.1 s r.2).2 rest
    inferInstanceAs (Decidable (_ ∧ _))

/-- The invariant: no row under the promise lies above the remembered one. -/
def Remembers (c : FandConfig) (s : Fanctrl) (ts : List ℤ) : Prop :=
  ∀ k, k < c.rows → Reached c k ts → (k : ℤ) ≤ s.currentThreshold

section Step

variable {F : FloatFormat} {c : FandConfig} {s : Fanctrl} {t : ℤ} {ts : List ℤ}

/-- A passed row's speed is a lower bound of the speed found. -/
theorem speed_le_fanctrlTarget (hc : c.Ordered) (hs : Configured c s) {k : ℕ} (hk : k < c.rows)
    (ht : (c.temp k : ℤ) < t) : (c.speed k : ℤ) ≤ (fanctrlTarget F s t).2 := by
  have hfst := (fanctrlTarget_fst_lt (F := F) (t := t) hc hs hk).not.mpr (not_le.mpr ht)
  obtain ⟨-, heq⟩ | ⟨i, hseg, heq⟩ | ⟨-, heq⟩ := fanctrlTarget_cases F s t
  · rw [heq] at hfst
    dsimp only at hfst
    omega
  · obtain ⟨hi, hlo, hhi⟩ := fanctrlSegment_eq_some hseg
    rw [hs.rows] at hi
    rw [heq] at hfst ⊢
    dsimp only at hfst ⊢
    have hbound := (fanctrlInterpolate_bounds (F := F) hlo hhi (hs.speed_le_succ hc hi)).1
    rw [hs.speed i (by omega)] at hbound
    have := hc.speed_mono k i (by omega) (by omega)
    omega
  · rw [heq, hs.rows]
    dsimp only
    rw [hs.speed _ (by omega)]
    exact_mod_cast hc.speed_mono k (c.rows - 1) (by omega) (by omega)

/-- A row under the promise after a reading has been passed by it, or a row at least
as high is being held. -/
theorem passed_or_held (hc : c.Ordered) (hs : Configured c s) (hrem : Remembers c s ts)
    (hkeep : KeepsThreshold c s t) (ht : 0 ≤ t) {k : ℕ} (hk : k < c.rows)
    (hreached : Reached c k (ts ++ [t])) :
    (c.temp k : ℤ) < t ∨
      ((k : ℤ) ≤ s.currentThreshold ∧ fanctrlHolds s (fanctrlTarget F s t).1 t) := by
  obtain ⟨hwhen, hwithin⟩ := reached_append hreached
  rcases lt_or_ge (c.temp k : ℤ) t with hpassed | hbelow
  · exact Or.inl hpassed
  · right
    have hplay : (k : ℤ) ≤ s.currentThreshold ∨ t = c.temp k := by
      rcases hwhen with hold | hnow
      · exact Or.inl (hrem k hk hold)
      · exact Or.inr (le_antisymm hbelow hnow)
    obtain ⟨hle, hheld⟩ := hkeep ht k hk hwithin hbelow hplay
    have hlt := hs.threshold_lt
    have hfst := (fanctrlTarget_fst_lt (F := F) hc hs hk).mpr hbelow
    refine ⟨hle, by omega, by omega, ?_⟩
    rw [hs.temp _ (by omega), hs.hysteresis]
    exact hheld

/-- One step keeps every row under the promise remembered. -/
theorem Remembers.step (hc : c.Ordered) (hs : Configured c s) (hrem : Remembers c s ts)
    (hkeep : KeepsThreshold c s t) (o : WriteOutcome) :
    Remembers c (fanctrlAdjust F o s t).2 (ts ++ [t]) := by
  intro k hk hreached
  rcases fanctrlAdjust_next F o s t with ⟨hskip, heq⟩ | ⟨v, hd⟩
  · -- no reading: a negative value reaches nothing, and the state stays as it is
    rw [hs.rows] at hskip
    rw [heq]
    rcases (reached_append hreached).1 with hold | hnow
    · exact hrem k hk hold
    · omega
  · obtain ⟨-, hnonneg, hstep⟩ := fanctrlDecide_ok hd
    rcases passed_or_held (F := F) hc hs hrem hkeep hnonneg hk hreached with hpassed | ⟨hle, hheld⟩
    · have hfst := (fanctrlTarget_fst_lt (F := F) hc hs hk).not.mpr (not_le.mpr hpassed)
      obtain ⟨⟨-, hbelow, -⟩, -, hset⟩ | ⟨-, -, hset⟩ := hstep
      · rw [hset]
        omega
      · rw [hset]
        dsimp only
        omega
    · obtain ⟨-, -, hset⟩ | ⟨hnot, -⟩ := hstep
      · rw [hset]
        exact hle
      · exact absurd hheld hnot

/-- Holding a row at least as high as `k` keeps the speed of row `k`. -/
theorem speed_le_held (hc : c.Ordered) (hs : Configured c s) {k : ℕ}
    (hle : (k : ℤ) ≤ s.currentThreshold) :
    c.speed k ≤ (UInt64.ofInt (s.speed s.currentThreshold.toNat)).toNat := by
  have hlt := hs.threshold_lt
  have hmono := hc.speed_mono k s.currentThreshold.toNat (by omega) (by omega)
  have hle' := s.speed_le s.currentThreshold.toNat
  have hnat := toNat_ofInt_of_nonneg (s.speed_nonneg s.currentThreshold.toNat) (by omega)
  rw [hs.speed _ (by omega)] at hnat ⊢
  omega

/-- and the speed chosen is at least that of every row under the promise. -/
theorem speed_le_of_remembers (hc : c.Ordered) (hs : Configured c s) (hrem : Remembers c s ts)
    (hkeep : KeepsThreshold c s t) {v : UInt64} {s' : Fanctrl}
    (hd : fanctrlDecide F s t = .ok (v, s')) {k : ℕ} (hk : k < c.rows)
    (hreached : Reached c k (ts ++ [t])) : c.speed k ≤ v.toNat := by
  obtain ⟨-, hnonneg, hstep⟩ := fanctrlDecide_ok hd
  have hlt := hs.threshold_lt
  rcases passed_or_held (F := F) hc hs hrem hkeep hnonneg hk hreached with hpassed | ⟨hle, hheld⟩
  · have hfst := (fanctrlTarget_fst_lt (F := F) hc hs hk).not.mpr (not_le.mpr hpassed)
    obtain ⟨⟨-, hbelow, -⟩, rfl, -⟩ | ⟨-, rfl, -⟩ := hstep
    · exact speed_le_held hc hs (by omega)
    · have htarget := speed_le_fanctrlTarget (F := F) hc hs hk hpassed
      have hsmall := fanctrlTarget_snd_lt F s t
      have := toNat_ofInt_of_nonneg (x := (fanctrlTarget F s t).2) (by omega) (by omega)
      omega
  · obtain ⟨-, rfl, -⟩ | ⟨hnot, -⟩ := hstep
    · exact speed_le_held hc hs hle
    · exact absurd hheld hnot

end Step

/-! ## Runs -/

theorem keepsThresholds_append {F : FloatFormat} {c : FandConfig} {s : Fanctrl}
    {temps : List (WriteOutcome × ℤ)} {r : WriteOutcome × ℤ}
    (h : KeepsThresholds F c s (temps ++ [r])) :
    KeepsThresholds F c s temps ∧ KeepsThreshold c (fanctrlRun F s temps) r.2 := by
  induction temps generalizing s with
  | nil => exact ⟨trivial, h.1⟩
  | cons q rest ih =>
    obtain ⟨hq, hrest⟩ := h
    obtain ⟨hkeeps, hlast⟩ := ih hrest
    exact ⟨⟨hq, hkeeps⟩, hlast⟩

/-- A run that loses no threshold remembers every row under the promise. -/
theorem Remembers.run {F : FloatFormat} {c : FandConfig} (hc : c.Ordered) {s : Fanctrl}
    {ts : List ℤ} {temps : List (WriteOutcome × ℤ)} (hrem : Remembers c s ts)
    (hs : Configured c s) (hkeeps : KeepsThresholds F c s temps) :
    Remembers c (fanctrlRun F s temps) (ts ++ temps.map Prod.snd) := by
  induction temps generalizing s ts with
  | nil => rwa [List.map_nil, List.append_nil]
  | cons r rest ih =>
    obtain ⟨hr, hrest⟩ := hkeeps
    have := ih (hrem.step (F := F) hc hs hr r.1) (hs.adjust r.1) hrest
    rwa [List.append_assoc] at this

/-- **The documented hysteresis guarantee**, on every run that loses no threshold: a
reading above `temp k - hysteresis`, with threshold `k` reached and not undercut
since, is answered with at least the speed of row `k`. -/
theorem fanctrlAdjust_keeps_reached_speed (F : FloatFormat) (c : FandConfig) (hc : c.Ordered)
    (s₀ : Fanctrl) (temps : List (WriteOutcome × ℤ)) (o : WriteOutcome) (t : ℤ) (ht : 0 ≤ t)
    (hkeeps : KeepsThresholds F c (fanctrlConfigure c s₀).2 (temps ++ [(o, t)])) :
    ∃ v s', fanctrlDecide F (fanctrlRun F (fanctrlConfigure c s₀).2 temps) t = .ok (v, s') ∧
      ∀ k, k < c.rows → Reached c k (temps.map Prod.snd ++ [t]) → c.speed k ≤ v.toNat := by
  have hconf := (fanctrlConfigure_configured s₀ hc.rows_le).2
  have hs := hconf.run (F := F) temps
  have hpos := hc.rows_pos
  obtain ⟨hbefore, hlast⟩ := keepsThresholds_append hkeeps
  have hinit : Remembers c (fanctrlConfigure c s₀).2 [] :=
    fun k _ hreached => absurd hreached (not_reached_nil c k)
  have hrem := hinit.run hc hconf hbefore
  obtain ⟨v, s', hd⟩ := fanctrlDecide_total (F := F) (by rw [hs.rows]; omega) ht
  exact ⟨v, s', hd, fun k hk hreached => speed_le_of_remembers hc hs hrem hlast hd hk hreached⟩

/-- A descent that never touches a threshold and never skips one: the guarantee
applies to the 60-degree row at 58 degrees. -/
theorem fanctrlAdjust_keeps_reached_speed_test :
    ∃ v s', fanctrlDecide exactArith
        (fanctrlRun exactArith (fanctrlConfigure testConfig Fanctrl.static).2
          [(⟨true, true⟩, 70)]) 58 = .ok (v, s') ∧
      ∀ k, k < testConfig.rows → Reached testConfig k ([70] ++ [58]) →
        testConfig.speed k ≤ v.toNat :=
  fanctrlAdjust_keeps_reached_speed exactArith testConfig (by decide) Fanctrl.static
    [(⟨true, true⟩, 70)] ⟨true, true⟩ 58 (by decide) (by decide +kernel)

/-- A reading that lands on a threshold is not remembered: at 60 degrees the fans reach
the speed of that row, and two degrees below, well within the hysteresis of three, they
have slowed down. -/
theorem hysteresis_lost_on_threshold :
    testConfig.Ordered ∧
      (∀ j, j < testConfig.rows → ∀ i, i < j → testConfig.temp i < testConfig.temp j) ∧
      Reached testConfig 1 [60, 58] ∧
      ((fanctrlDecide exactArith
          (fanctrlRun exactArith (fanctrlConfigure testConfig Fanctrl.static).2
            [(⟨true, true⟩, 60)]) 58).toOption.map fun d => d.1.toNat) = some 44 ∧
      44 < testConfig.speed 1 :=
  ⟨by decide, by decide, ⟨[], 60, [58], rfl, by decide, by decide⟩, by decide +kernel, by decide⟩

end AmdgpuFand
