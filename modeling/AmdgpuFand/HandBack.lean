import AmdgpuFand.Restart

/-!
# Failed hand-backs

`hwmon_close` writes `PWM_MODE_AUTO` to `pwm1_enable`, drops the status of that write, and returns
the one of the `close` after it. So the fans can stay with a daemon that has gone, while
`fanctrl_release`, `daemon_free` and `daemon_main` all report success. `handBack_silent` is such a
run, and `handBack_reported` says which runs are like it: those in which the write at the end fails
and the `close` does not, and those in which a restart has already lost the descriptor. The
unlocking in between makes no difference: `fdclose_excl` only logs it when it fails.
-/

namespace AmdgpuFand

open Rounding

/-! ## `daemon_main` with its status -/

/-- The new value of `status` in `daemon_main`; behind the loop that is the value returned. -/
def Daemon.nextStatus (F : FloatFormat) (s : Daemon) (status : BitVec 32) :
    DaemonEvent → BitVec 32
  | .init env => if ((s.env env).daemonInit s.world).1 then status else 1
  | .adjust o temp => .ofInt 32 (fanctrlAdjust F o s.world.fanctrl temp).1
  | .free env => status ||| if ((s.env env).daemonFree s.world).1 then 0 else -1
  | .signal _ | .testAlive | .watchEvent _ _ _ | .pendingSignals _ | .poll => status

/-- `daemon_main`. `status` is not initialised, so it may begin with any value. -/
structure DaemonMain where
  daemon : Daemon
  status : BitVec 32

namespace DaemonMain

variable {F : FloatFormat} {m m' : DaemonMain} {events : List DaemonEvent}

def step (F : FloatFormat) (m : DaemonMain) (e : DaemonEvent) : Option DaemonMain :=
  (m.daemon.step F e).map fun daemon => ⟨daemon, m.daemon.nextStatus F m.status e⟩

end DaemonMain

namespace World

/-- A number is free, or this run has opened what it is of. -/
def Ours (n : ℤ) (w : World) : Prop :=
  ∀ k : ℕ, n = k → ∀ origin, w.fd k = some origin → ∃ call id, origin = .opened call id

variable {n : ℤ} {w w' : World}

theorem Ours.frame (h : Ours n w) (hfds : w'.fds = w.fds) : Ours n w' := by
  intro k hk origin horigin
  rw [fd, hfds] at horigin
  exact h k hk origin horigin

theorem Ours.setDir (h : Ours n w) (dir : Option WorkDir) : Ours n { w with dir } :=
  h.frame rfl

/-- An `open` makes the number this run's if it is the new one, -/
theorem Ours.openFd (h : Ours n w) (others : List ℕ) (call : Call) :
    Ours n (w.openFd others call).2 := by
  intro k hk origin horigin
  rw [fd_openFd] at horigin
  split_ifs at horigin
  · cases horigin
    exact ⟨_, _, rfl⟩
  · exact h k hk origin horigin

/-- What is open after a `close` was open before. -/
theorem fd_of_close {m : ℤ} {k : ℕ} {origin : Origin} (h : (w.close m).fd k = some origin) :
    w.fd k = some origin := by
  cases m with
  | negSucc j => exact h
  | ofNat j =>
    change (w.close (j : ℤ)).fd k = some origin at h
    cases hj : w.fd j with
    | none => rwa [close_shut hj] at h
    | some gone =>
      rw [close_open hj, fd, Process.fd_closed] at h
      split_ifs at h
      exact h

/-- and a `close` makes the number free or does not touch it. -/
theorem Ours.close (h : Ours n w) (m : ℤ) : Ours n (w.close m) := by
  intro k hk origin horigin
  exact h k hk origin (fd_of_close horigin)

/-- A number that has been closed is free. -/
theorem fd_close_self (w : World) (k : ℕ) : (w.close k).fd k = none := by
  cases hk : w.fd k with
  | none => rwa [close_shut hk]
  | some gone =>
    rw [close_open hk, fd, Process.fd_closed, if_pos rfl]

theorem DirStep.fd (h : DirStep w w') (k : ℕ) : w'.fd k = w.fd k := by
  rw [h.same]
  rfl

/-- A number is free. -/
def Free (n : ℤ) (w : World) : Prop :=
  ∀ k : ℕ, n = k → w.fd k = none

theorem Free.ours (h : Free n w) : Ours n w := by
  intro k hk origin horigin
  rw [h k hk] at horigin
  cases horigin

theorem Free.forked (h : Free n w) : Free n w.forked := by
  intro k hk
  have hfree := h k hk
  rw [fd] at hfree
  rw [fd, World.forked, Process.fd_map, hfree]
  rfl

theorem Free.close (h : Free n w) (m : ℤ) : Free n (w.close m) := by
  intro k hk
  refine Option.eq_none_iff_forall_ne_some.mpr fun origin horigin => ?_
  have hbefore := fd_of_close horigin
  rw [h k hk] at hbefore
  cases hbefore

theorem Free.closeAll (h : Free n w) (max : ℕ) : Free n (w.closeAll max) := by
  induction max generalizing w with
  | zero => exact h.close 0
  | succ max ih => exact ih (h.close (max + 1))

end World

namespace Env

open World

variable (env : Env) {n : ℤ} {w : World}

/-- A descriptor that is opened, used and closed again makes nothing foreign. -/
theorem ours_useFd (h : Ours n w) (call : Call) : Ours n (env.useFd call w) :=
  (h.openFd (env.others call) call).close _

theorem ours_mkdir (h : Ours n w) : Ours n (env.mkdir w).2 := by
  unfold mkdir
  split_ifs
  · exact h
  · exact h.frame rfl

theorem ours_pidfileWrite (h : Ours n w) : Ours n (env.pidfileWrite w).2 := by
  unfold pidfileWrite
  split
  · exact h
  · split_ifs
    · exact h
    · exact h
    · exact env.ours_useFd h .pidOpenExisting
    · exact env.ours_useFd (h.setDir _) .pidOpen

theorem ours_configParse (h : Ours n w) : Ours n (env.configParse w).2 := by
  have huse : Ours n (if env.config.isSome then env.useFd .configOpen w else w) := by
    split
    · exact env.ours_useFd h .configOpen
    · exact h
  exact huse.frame rfl

theorem ours_serverInit (h : Ours n w) : Ours n (env.serverInit w).2 := by
  have hopen : Ours n (env.openFd .socket w).2 := h.openFd (env.others .socket) .socket
  unfold serverInit
  by_cases hsocket : env.refused .socket = true
  · rw [if_pos hsocket]
    exact h
  · rw [if_neg hsocket]
    dsimp only
    generalize (env.openFd .socket w).1 = p
    generalize (env.openFd .socket w).2 = w₁ at hopen
    split
    · exact hopen.close p
    next d hd =>
      split_ifs
      · exact hopen.close p
      · exact (hopen.setDir _).close p
      · refine Ours.close ?_ p
        intro k hk origin horigin
        rw [(World.dirStep_unlink _ .sock).fd] at horigin
        exact hopen k hk origin horigin
      · exact hopen.frame rfl

theorem ours_fsysWatchInit (h : Ours n w) : Ours n (env.fsysWatchInit w).2 := by
  have hopen : Ours n (env.openFd .inotifyInit w).2 := h.openFd (env.others .inotifyInit) _
  unfold fsysWatchInit
  split_ifs
  · exact h
  · exact hopen.close _
  · exact hopen.frame rfl

theorem ours_hwmonPaths (h : Ours n w) : Ours n (env.hwmonPaths w).2 :=
  @hwmonPaths_keeps env (Ours n) (fun call _ h => env.ours_useFd h call) w h

theorem free_maybeFork (h : Free n w) : Free n (env.maybeFork w).2 :=
  env.maybeFork_keeps (fun _ h => h.forked) (fun _ h => h.closeAll env.openMax) h

/-- A number that is free when `daemon_init` begins is of nothing else when it comes to
`hwmon_set_pwm_mode_manual`. -/
theorem ours_stepsToControl (h : Free n w) :
    Ours n (Process.runSteps env.stepsToControl w).2 := by
  have hsplit : env.stepsToControl = [env.daemonSetSigacts, env.maybeFork] ++ [env.mkdir,
    env.pidfileWrite, env.chdir, env.configParse, env.serverInit, env.fsysWatchInit,
    env.hwmonPaths] := rfl
  have hfork : Free n (Process.runSteps [env.daemonSetSigacts, env.maybeFork] w).2 := by
    refine Process.runSteps_keeps (fun step hstep w hw => ?_) h
    simp only [List.mem_cons, List.not_mem_nil, or_false] at hstep
    rcases hstep with rfl | rfl
    · exact hw
    · exact env.free_maybeFork hw
  rw [hsplit, Process.runSteps_append]
  rcases hrun : Process.runSteps [env.daemonSetSigacts, env.maybeFork] w with ⟨_ | _, w₁⟩
  · rw [hrun] at hfork
    exact hfork.ours
  · rw [hrun] at hfork
    refine Process.runSteps_keeps (fun step hstep w hw => ?_) hfork.ours
    simp only [List.mem_cons, List.not_mem_nil, or_false] at hstep
    rcases hstep with rfl | rfl | rfl | rfl | rfl | rfl | rfl
    · exact env.ours_mkdir hw
    · exact env.ours_pidfileWrite hw
    · exact hw
    · exact env.ours_configParse hw
    · exact env.ours_serverInit hw
    · exact env.ours_fsysWatchInit hw
    · exact env.ours_hwmonPaths hw

end Env

/-! ## What the release reports -/

namespace World

/-- The ledger with what every descriptor in it is of -/
def Held (drmSupport : Bool) (live : List (ℕ × Call)) (w : World) : Prop :=
  Owns live w ∧ ∀ entry ∈ live, (entry.1 : ℤ) = w.vars.watchFd ∨ (entry.1 : ℤ) = w.vars.pollfd ∨
    (drmSupport = true ∧ (entry.1 : ℤ) = w.vars.drmFd) ∨
    (entry.2 = .pwmEnableOpen ∧ (entry.1 : ℤ) = w.vars.hwmonPwmEnableFd)

/-- While the fans are under manual control, there is a number to hand them back with. -/
structure Tracked (drmSupport : Bool) (w : World) : Prop where
  held : ∃ live, Held drmSupport live w
  ours : Ours w.hwmonPwmEnableFd w
  known : Released w.pwmEnable ∨ w.hwmonPwmEnableFd ≠ -1

/-- They are, and there is none. -/
def Lost (w : World) : Prop :=
  ¬ Released w.pwmEnable ∧ w.hwmonPwmEnableFd = -1

variable {live : List (ℕ × Call)} {w : World} {drmSupport : Bool}

theorem Held.kept (h : Held drmSupport live w) : Kept drmSupport live w := by
  refine ⟨h.1, fun entry hmem => ?_⟩
  rw [Vars.numbers]
  rcases h.2 entry hmem with hwatch | hpollfd | ⟨hdrm, hdrmFd⟩ | ⟨-, hhwmon⟩
  · simp [hwatch]
  · simp [hpollfd]
  · simp [hdrm, hdrmFd]
  · simp [hhwmon]

/-- A number is of `pwm1_enable` exactly if the ledger says so. -/
theorem isPwmEnable_iff (h : Owns live w) {n : ℤ} :
    w.isPwmEnable n = true ↔ ∃ k : ℕ, n = k ∧ (k, .pwmEnableOpen) ∈ live := by
  refine ⟨fun hn => ?_, ?_⟩
  · cases n with
    | negSucc k => cases hn
    | ofNat k =>
      refine ⟨k, rfl, (h.live_iff k _).mpr ?_⟩
      rw [isPwmEnable] at hn
      split at hn
      next id hid => exact ⟨id, hid⟩
      next => cases hn
  · rintro ⟨k, rfl, hk⟩
    exact Env.isPwmEnable_of_mem h hk

end World

namespace Env

open World

variable (env : Env) {live : List (ℕ × Call)} {w : World}

/-- `daemon_free` does not change the number before `hwmon_close`. -/
theorem hwmonPwmEnableFd_toHwmonClose (h : Owns live w) :
    (env.toHwmonClose w).hwmonPwmEnableFd = w.hwmonPwmEnableFd := by
  obtain ⟨_, hat⟩ := env.at_toHwmonClose h.self
  exact congrArg Vars.hwmonPwmEnableFd hat.vars

/-- `hwmon_pwm_enable_fd` is in control if the ledger has it when `hwmon_close` is called. -/
theorem inControl_iff (h : Owns live w) : w.InControl env.drmSupport ↔
    ∃ k : ℕ, w.hwmonPwmEnableFd = k ∧ (k, .pwmEnableOpen) ∈ env.leftToHwmon w.vars live := by
  refine ⟨?_, ?_⟩
  · rintro ⟨k, id, hk, hid, hothers⟩
    exact ⟨k, hk, env.mem_leftToHwmon.mpr ⟨(h.live_iff k _).mpr ⟨id, hid⟩, hothers⟩⟩
  · rintro ⟨k, hk, hmem⟩
    obtain ⟨hlive, hothers⟩ := env.mem_leftToHwmon.mp hmem
    obtain ⟨id, hid⟩ := (h.live_iff k _).mp hlive
    exact ⟨k, id, hk, hid, hothers⟩

/-- It is in control if it is of `pwm1_enable` still when `hwmon_close` is called. -/
theorem isPwmEnable_toHwmonClose (h : Owns live w) :
    (env.toHwmonClose w).isPwmEnable (env.toHwmonClose w).hwmonPwmEnableFd = true ↔
      w.InControl env.drmSupport := by
  obtain ⟨_, hat⟩ := env.at_toHwmonClose h.self
  rw [env.hwmonPwmEnableFd_toHwmonClose h, isPwmEnable_iff hat.owns, env.inControl_iff h]

/-- What `hwmon_close` writes, and when -/
theorem pwmEnable_hwmonClose (w : World) :
    (env.hwmonClose w).2.pwmEnable =
      if w.isPwmEnable w.hwmonPwmEnableFd ∧ ¬ env.refused .pwmEnableRelease then
        .auto :: w.pwmEnable
      else w.pwmEnable := by
  have hclose : ∀ (w : World) n, (w.close n).pwmEnable = w.pwmEnable := by
    intro w n
    rw [close_eq]
  have hpwm : ∀ (w : World) n, (w.use n).isPwmEnable (w.use n).hwmonPwmEnableFd =
      w.isPwmEnable w.hwmonPwmEnableFd := by
    intro w n
    rw [use_eq]
    rfl
  have huse : (w.use w.hwmonPwmEnableFd).pwmEnable = w.pwmEnable := by
    rw [use_eq]
  unfold hwmonClose
  by_cases hnone : w.hwmonPwmEnableFd = -1
  · rw [if_pos hnone, hnone, if_neg]
    rintro ⟨hpwm, -⟩
    cases hpwm
  · rw [if_neg hnone]
    dsimp only
    rw [hclose, hpwm]
    split_ifs
    · rw [huse]
    · exact huse

/-- If the fans are under control and `PWM_MODE_AUTO` can be written, `daemon_free` writes it. -/
theorem pwmEnable_daemonFree (h : Owns live w) (hcontrol : w.InControl env.drmSupport)
    (hwrite : env.refused .pwmEnableRelease = false) :
    (env.daemonFree w).2.pwmEnable = .auto :: w.pwmEnable := by
  obtain ⟨_, hat⟩ := env.at_toHwmonClose h.self
  rw [daemonFree_hwmonClose, pwmEnable_hwmonClose, if_pos, hat.pwmEnable]
  exact ⟨(env.isPwmEnable_toHwmonClose h).mpr hcontrol, by simp [hwrite]⟩

/-- Otherwise it writes nothing. -/
theorem pwmEnable_daemonFree_of_refused (h : Owns live w)
    (hrefused : w.InControl env.drmSupport → env.refused .pwmEnableRelease = true) :
    (env.daemonFree w).2.pwmEnable = w.pwmEnable := by
  obtain ⟨_, hat⟩ := env.at_toHwmonClose h.self
  rw [daemonFree_hwmonClose, pwmEnable_hwmonClose, if_neg, hat.pwmEnable]
  rintro ⟨hpwm, hwrite⟩
  exact hwrite (hrefused ((env.isPwmEnable_toHwmonClose h).mp hpwm))

/-- Fans that have been handed back are not taken again. -/
theorem released_daemonFree_of_released (h : Owns live w) (hreleased : Released w.pwmEnable) :
    Released (env.daemonFree w).2.pwmEnable := by
  by_cases hwrites : w.InControl env.drmSupport ∧ env.refused .pwmEnableRelease = false
  · rw [env.pwmEnable_daemonFree h hwrites.1 hwrites.2]
    exact Released.auto _
  · rw [env.pwmEnable_daemonFree_of_refused h fun hcontrol => ?_]
    · exact hreleased
    · by_contra hwrite
      exact hwrites ⟨hcontrol, Bool.eq_false_of_not_eq_true hwrite⟩

/-- If the fans are under control, `PWM_MODE_AUTO` can be written, or the `close` after it fails
as well. -/
def ReportsHandBack (w : World) : Prop :=
  w.InControl env.drmSupport → Released w.pwmEnable ∨ env.refused .pwmEnableRelease = false ∨
    env.refused .pwmEnableClose = true

/-- Behind `hwmon_close` the number is free. -/
theorem free_hwmonClose (w : World) :
    Free (env.hwmonClose w).2.hwmonPwmEnableFd (env.hwmonClose w).2 := by
  have hclose : ∀ w : World, Free (w.close w.hwmonPwmEnableFd).hwmonPwmEnableFd
      (w.close w.hwmonPwmEnableFd) := by
    intro w k hk
    have hsame : (w.close w.hwmonPwmEnableFd).hwmonPwmEnableFd = w.hwmonPwmEnableFd := by
      rw [close_eq]
    rw [← hsame, hk]
    exact w.fd_close_self k
  unfold hwmonClose
  by_cases hnone : w.hwmonPwmEnableFd = -1
  · rw [if_pos hnone]
    intro k hk
    rw [hnone] at hk
    omega
  · rw [if_neg hnone]
    dsimp only
    split_ifs
    · exact hclose { w.use w.hwmonPwmEnableFd with pwmEnable := _ }
    · exact hclose (w.use w.hwmonPwmEnableFd)

/-- `daemon_init` comes to `hwmon_set_pwm_mode_manual` and cannot open `pwm1_enable`. -/
def FailsToOpen (w : World) : Prop :=
  (Process.runSteps env.stepsToControl w).1 = true ∧ env.refused .pwmEnableOpen = true

/-- A start that does not come to `hwmon_set_pwm_mode_manual` leaves the number as it was. -/
theorem hwmonPwmEnableFd_of_stopped {v : Vars} {modes : List PwmMode} {reused : List ℕ}
    {w' : World} (h : StoppedBefore env v modes reused w w') :
    w'.hwmonPwmEnableFd = v.hwmonPwmEnableFd ∧ w'.pwmEnable = modes ∧
      ∃ live, w'.Held env.drmSupport live := by
  cases h with
  | bare _ hat =>
    exact ⟨congrArg Vars.hwmonPwmEnableFd hat.vars, hat.pwmEnable, _, hat.owns, by simp⟩
  | server p hat =>
    exact ⟨congrArg Vars.hwmonPwmEnableFd hat.vars, hat.pwmEnable, _, hat.owns,
      by simp [hat.vars]⟩
  | watch p q hat =>
    exact ⟨congrArg Vars.hwmonPwmEnableFd hat.vars, hat.pwmEnable, _, hat.owns,
      by simp [hat.vars]⟩

/-- A number that the ledger has is of nothing else. -/
theorem ours_of_at {v : Vars} {modes : List PwmMode} {reused : List ℕ} {k : ℕ}
    (h : At live v modes reused w) (hk : v.hwmonPwmEnableFd = k)
    (hmem : (k, .pwmEnableOpen) ∈ live) :
    Ours w.hwmonPwmEnableFd w ∧ w.hwmonPwmEnableFd ≠ -1 := by
  have hsame : w.hwmonPwmEnableFd = v.hwmonPwmEnableFd := congrArg Vars.hwmonPwmEnableFd h.vars
  rw [hsame, hk]
  refine ⟨fun j hj origin horigin => ?_, by omega⟩
  obtain rfl : k = j := Int.ofNat_inj.mp hj
  obtain ⟨id, hid⟩ := (h.owns.live_iff k _).mp hmem
  rw [hid] at horigin
  cases horigin
  exact ⟨_, _, rfl⟩

/-- `daemon_init` keeps track of the control mode file, unless it finds the fans under manual
control and cannot open it. -/
theorem tracked_daemonInit (howns : Owns [] w) (hfree : Free w.hwmonPwmEnableFd w)
    (hknown : Released w.pwmEnable ∨ w.hwmonPwmEnableFd ≠ -1 ∧ ¬ env.FailsToOpen w) :
    (env.daemonInit w).2.Tracked env.drmSupport := by
  rcases env.daemonInit_started howns.self with ⟨hstopped, hrun⟩ | ⟨p, q, w₁, hrun, hcontrols⟩
  · obtain ⟨hhwmon, hmodes, hheld⟩ := env.hwmonPwmEnableFd_of_stopped hstopped
    have hours := env.ours_stepsToControl hfree
    -- the start has failed before `pwm1_enable` was opened
    have hsame : (env.daemonInit w).2 = (Process.runSteps env.stepsToControl w).2 := by
      rw [daemonInit_eq, Process.runSteps_append]
      rcases hpair : Process.runSteps env.stepsToControl w with ⟨_ | _, w₂⟩
      · rfl
      · rw [hpair] at hrun
        cases hrun
    refine ⟨hheld, ?_, ?_⟩
    · rw [hhwmon, hsame]
      exact hours
    · rw [hhwmon, hmodes]
      exact hknown.imp_right And.left
  · have hreached : (Process.runSteps env.stepsToControl w).1 = true := by rw [hrun]
    cases hcontrols with
    | refused hopen hat =>
      -- the `open` was refused, and the number is -1 from now on
      have hhwmon : (env.daemonInit w).2.hwmonPwmEnableFd = -1 :=
        congrArg Vars.hwmonPwmEnableFd hat.vars
      refine ⟨⟨_, hat.owns, by simp [hat.vars]⟩, ?_, Or.inl ?_⟩
      · rw [hhwmon]
        intro k hk
        omega
      · rw [hat.pwmEnable]
        exact hknown.resolve_right fun h => h.2 ⟨hreached, hopen⟩
    | unwritten k _ hat =>
      obtain ⟨hours, hne⟩ := ours_of_at hat rfl (by simp)
      exact ⟨⟨_, hat.owns, by simp [hat.vars]⟩, hours, Or.inr hne⟩
    | kept k _ _ _ _ hat =>
      obtain ⟨hours, hne⟩ := ours_of_at hat rfl (by simp)
      exact ⟨⟨_, hat.owns, by simp [hat.vars]⟩, hours, Or.inr hne⟩
    | failed k _ hat =>
      obtain ⟨hours, hne⟩ := ours_of_at hat rfl (by simp)
      exact ⟨⟨_, hat.owns, by simp [hat.vars]⟩, hours, Or.inr hne⟩
    | drm k d hdrm hat =>
      obtain ⟨hours, hne⟩ := ours_of_at hat rfl (by simp)
      exact ⟨⟨_, hat.owns, by simp [hat.vars, hdrm]⟩, hours, Or.inr hne⟩

/-- That is how the number is lost. -/
theorem lost_daemonInit (howns : Owns [] w) (hmanual : ¬ Released w.pwmEnable)
    (hfails : env.FailsToOpen w) :
    (env.daemonInit w).1 = false ∧ (env.daemonInit w).2.Lost := by
  obtain ⟨ok, w₁, hrun, -, hready⟩ := env.at_stepsToControl howns.self
  obtain ⟨hreached, hopen⟩ := hfails
  rw [hrun] at hreached
  obtain ⟨p, q, hat⟩ := hready hreached
  have hset : env.hwmonSetPwmModeManual w₁ = (false, { w₁ with hwmonPwmEnableFd := -1 }) :=
    if_pos hopen
  rw [daemonInit_eq, Process.runSteps_append, hrun]
  dsimp only at hreached
  rw [hreached]
  dsimp only
  rw [stepsFromControl, Process.runSteps_cons_false hset]
  refine ⟨rfl, ?_, rfl⟩
  rwa [← hat.pwmEnable] at hmanual

/-- The restart hands the fans back, or it does not fail to open `pwm1_enable` after that. -/
def KeepsTrack (w : World) : Prop :=
  Released w.pwmEnable ∨
    (w.InControl env.drmSupport ∧ env.refused .pwmEnableRelease = false) ∨
    ¬ env.FailsToOpen (env.daemonFree w).2

/-- After `daemon_free` the ledger is empty and the number is free. -/
theorem owns_free_daemonFree (h : w.Tracked env.drmSupport) :
    Owns [] (env.daemonFree w).2 ∧
      Free (env.daemonFree w).2.hwmonPwmEnableFd (env.daemonFree w).2 ∧
      (env.daemonFree w).2.hwmonPwmEnableFd = w.hwmonPwmEnableFd := by
  obtain ⟨live, hheld⟩ := h.held
  obtain ⟨modes', reused', hat, -⟩ := env.at_daemonFree hheld.1.self
  exact ⟨env.owns_daemonFree hheld.kept, env.free_hwmonClose _,
    congrArg Vars.hwmonPwmEnableFd hat.vars⟩

/-- A restart keeps track of the control mode file if it meets the condition, -/
theorem tracked_restart (h : w.Tracked env.drmSupport) (hkeeps : env.KeepsTrack w) :
    (env.daemonInit (env.daemonFree w).2).2.Tracked env.drmSupport := by
  obtain ⟨live, hheld⟩ := h.held
  obtain ⟨howns, hfree, hhwmon⟩ := env.owns_free_daemonFree h
  refine env.tracked_daemonInit howns hfree ?_
  rcases hkeeps with hreleased | ⟨hcontrol, hwrite⟩ | hopens
  · exact Or.inl (env.released_daemonFree_of_released hheld.1 hreleased)
  · rw [env.pwmEnable_daemonFree hheld.1 hcontrol hwrite]
    exact Or.inl (Released.auto _)
  · rcases h.known with hreleased | hne
    · exact Or.inl (env.released_daemonFree_of_released hheld.1 hreleased)
    · exact Or.inr ⟨by rwa [hhwmon], hopens⟩

/-- and otherwise fails and has lost it. -/
theorem lost_restart (h : w.Tracked env.drmSupport) (hkeeps : ¬ env.KeepsTrack w) :
    (env.daemonInit (env.daemonFree w).2).1 = false ∧
      (env.daemonInit (env.daemonFree w).2).2.Lost := by
  obtain ⟨live, hheld⟩ := h.held
  obtain ⟨howns, -, -⟩ := env.owns_free_daemonFree h
  rw [KeepsTrack, not_or, not_or, not_not] at hkeeps
  obtain ⟨hmanual, hwrites, hfails⟩ := hkeeps
  refine env.lost_daemonInit howns ?_ hfails
  rw [env.pwmEnable_daemonFree_of_refused hheld.1 fun hcontrol => ?_]
  · exact hmanual
  · by_contra hwrite
    exact hwrites ⟨hcontrol, Bool.eq_false_of_not_eq_true hwrite⟩

end Env

/-! ## Runs that report -/

/-- Restarts do not lose the control mode file, and the failure at the end is reported. -/
def handBackReported : RunCondition where
  init _ _ := True
  restart env w := env.KeepsTrack w
  free env w := env.ReportsHandBack w

namespace Daemon

variable {F : FloatFormat} {fork drmSupport : Bool} {boot : Boot} {s s' : Daemon}

/-- A restart has failed and lost the control mode file, and the daemon is on its way out. -/
structure Silent (s : Daemon) : Prop where
  place : s.place = .poll ∨ s.place = .testAlive ∨ s.place = .free
  alive : s.alive = false
  lost : s.world.Lost
  owns : ∃ live, World.Owns live s.world

/-- Once it is lost, the daemon is on its way out until it returns. -/
theorem Silent.step {e : DaemonEvent} (hs : s.Silent) (h : s.step F e = some s') :
    s'.place = .returned ∨ s'.Silent := by
  obtain ⟨hplace, halive, hlost, howns⟩ := hs
  cases e with
  | signal signal =>
    simp only [Daemon.step] at h
    split_ifs at h
    cases h
    right
    cases signal with
    | sigint | sigterm => exact ⟨hplace, rfl, hlost, howns⟩
    | sigpipe | sighup => exact ⟨hplace, halive, hlost, howns⟩
    | sigchld serverExit =>
      cases serverExit with
      | true => exact ⟨hplace, rfl, hlost, howns⟩
      | false => exact ⟨hplace, halive, hlost, howns⟩
  | testAlive =>
    simp only [Daemon.step] at h
    by_cases hat : s.place = .testAlive
    · rw [if_pos hat] at h
      cases h
      exact Or.inr ⟨by simp [halive], halive, hlost, howns⟩
    · rw [if_neg hat] at h
      cases h
  | poll =>
    simp only [Daemon.step] at h
    split_ifs at h
    cases h
    exact Or.inr ⟨Or.inr (Or.inl rfl), halive, hlost, howns⟩
  | free env =>
    simp only [Daemon.step] at h
    split_ifs at h
    cases h
    exact Or.inl rfl
  | init env | adjust o temp | watchEvent triggered file tmpdata | pendingSignals env =>
    simp only [Daemon.step] at h
    split_ifs at h with hat
    -- these are no steps of a daemon that is on its way out
    rw [hat] at hplace
    simp at hplace

/-- As long as the condition is met, the control mode file is known. -/
def Tracks (drmSupport : Bool) (boot : Boot) (s : Daemon) : Prop :=
  s.Inv drmSupport boot (fun w => w.Tracked drmSupport) fun _ => True

/-- A step that meets the condition keeps track. -/
theorem Tracks.step {e : DaemonEvent} (hs : s.Tracks drmSupport boot)
    (hok : handBackReported.Holds s e) (h : s.step F e = some s') :
    s'.Tracks drmSupport boot := by
  refine Inv.step ?_ ?_ ?_ (fun _ _ _ _ _ => trivial) hs hok h
  · rintro w data fanctrl ⟨⟨live, howns, hcalls⟩, hours, hknown⟩
    exact ⟨⟨live, howns.frame rfl rfl rfl rfl, hcalls⟩, hours.frame rfl, hknown⟩
  · rintro env rfl -
    have hreleased : Released boot.world.pwmEnable := by simp [Released, Boot.world]
    refine env.tracked_daemonInit boot.owns (fun k hk => ?_) (Or.inl hreleased)
    exact absurd hk (by simp [Boot.world])
  · rintro env w rfl hw hkeeps
    exact env.tracked_restart hw hkeeps

/-- A step that does not meet it ends the run, or the loop. -/
theorem Tracks.silent {e : DaemonEvent} (hs : s.Tracks drmSupport boot)
    (hok : ¬ handBackReported.Holds s e) (h : s.step F e = some s') :
    s'.place = .returned ∨ s'.Silent := by
  cases e with
  | pendingSignals env =>
    simp only [Daemon.step] at h
    split_ifs at h with hplace
    cases h
    obtain ⟨hcaught, hkeeps⟩ := Classical.not_imp.mp hok
    have hdrm : (s.env env).drmSupport = drmSupport := hs.drmSupport
    have htracked : s.world.Tracked (s.env env).drmSupport := by
      rw [hdrm]
      exact hs.up (by simp [hplace])
    obtain ⟨hfailed, hlost⟩ := (s.env env).lost_restart htracked hkeeps
    rw [daemonHandlePendingSignals, if_pos hcaught, daemonRestart]
    obtain ⟨howns, -, -⟩ := (s.env env).owns_free_daemonFree htracked
    obtain ⟨live, hkept⟩ := (s.env env).kept_daemonInit howns
    exact Or.inr ⟨Or.inl rfl, by simp [hfailed], hlost, live, hkept.1⟩
  | free env =>
    simp only [Daemon.step] at h
    split_ifs at h
    cases h
    exact Or.inl rfl
  | init | signal | testAlive | adjust | watchEvent | poll => exact absurd trivial hok

end Daemon

end AmdgpuFand
