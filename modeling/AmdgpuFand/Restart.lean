import AmdgpuFand.Descriptors
import AmdgpuFand.Reload
import AmdgpuFand.Sighup

/-!
# Restarts

`daemon_main` as a machine: `daemon_init`, then rounds of adjusting the fans, reloading the
configuration, restarting after a broken pipe and serving clients, and `daemon_free` at the end.
Signals arrive between any two of its steps. What arrives during a step only sets a flag that the
step does not look at again, so it counts as arriving before or after it.

A restart is `daemon_free` and `daemon_init` once more, and it may fail anywhere. Two things are
asked of every run. The fans have to be handed back: after `PWM_MODE_MANUAL` the last value written
to `pwm1_enable` must be `PWM_MODE_AUTO`. This fails if `drm_fd` still has a number from before that
`pwm1_enable` now has, for then `drm_close` closes the control mode file before `hwmon_close` writes
to it (`fans_handed_back`). And no number may be used by `daemon_free` after it has been closed,
which fails whenever `daemon_init` stops before it has replaced the numbers (`numbers_not_reused`).
-/

namespace AmdgpuFand

open Rounding

/-! ## The program -/

/-- What `daemon_main` does next -/
inductive Place
  | start
  | testAlive
  | adjust
  | watchEvent
  | pendingSignals
  | poll
  | free
  | returned
  deriving DecidableEq, Repr

/-- The daemon. Where `daemon_init` forks, this is the process that goes on. -/
structure Daemon where
  /-- the argument `fork` -/
  fork : Bool
  /-- `FAND_DRM_SUPPORT` -/
  drmSupport : Bool
  place : Place
  /-- `daemon_alive` -/
  alive : Bool
  /-- `daemon_reload_pending` -/
  reloadPending : Bool
  /-- `daemon_sigpipe_caught` -/
  sigpipeCaught : Bool
  world : World

/-- What can happen. A step of the program comes with what the system does in it. -/
inductive DaemonEvent
  | signal (signal : Signal)
  | init (env : Env)
  | testAlive
  | adjust (o : WriteOutcome) (temp : ℤ)
  /-- whether the file has changed, what is in it, and what is on the stack -/
  | watchEvent (triggered : Bool) (file : Option (List Char)) (tmpdata : FandConfig)
  | pendingSignals (env : Env)
  | poll
  | free (env : Env)

namespace Daemon

variable (F : FloatFormat) (s : Daemon)

/-- The beginning of `daemon_main` -/
def start (fork drmSupport : Bool) (boot : Boot) : Daemon :=
  ⟨fork, drmSupport, .start, true, false, false, boot.world⟩

/-- The argument and the build option are the same in the whole run. -/
def env (env : Env) : Env := { env with fork := s.fork, drmSupport := s.drmSupport }

/-- `daemon_sighandler` -/
def daemonSighandler : Signal → Daemon
  | .sigint | .sigterm => { s with alive := false }
  | .sigpipe => { s with sigpipeCaught := true }
  | .sighup => { s with reloadPending := true }
  | .sigchld serverExit => if serverExit then { s with alive := false } else s

/-- `daemon_init` in `daemon_main` -/
def daemonInit (env : Env) : Daemon :=
  let (ok, world) := (s.env env).daemonInit s.world
  { s with place := .testAlive, alive := s.alive && ok, world }

/-- `daemon_adjust_fanspeed` -/
def daemonAdjustFanspeed (o : WriteOutcome) (temp : ℤ) : Daemon :=
  let (status, fanctrl) := fanctrlAdjust F o s.world.fanctrl temp
  { s with
    place := .watchEvent
    alive := s.alive && status != fandFatalErr
    world := { s.world with fanctrl } }

/-- `daemon_watch_event` -/
def daemonWatchEvent (triggered : Bool) (file : Option (List Char)) (tmpdata : FandConfig) :
    Daemon :=
  if s.reloadPending || triggered then
    let (status, data, fanctrl) := daemonReload file tmpdata s.world.data s.world.fanctrl
    { s with
      place := .pendingSignals
      alive := s.alive && status != fandFatalErr
      reloadPending := false
      world := { s.world with data, fanctrl } }
  else { s with place := .pendingSignals }

/-- `daemon_restart`; the result says whether it succeeded. -/
def daemonRestart (env : Env) : Bool × World :=
  (s.env env).daemonInit ((s.env env).daemonFree s.world).2

/-- `daemon_handle_pending_signals` -/
def daemonHandlePendingSignals (env : Env) : Daemon :=
  if s.sigpipeCaught then
    let (ok, world) := s.daemonRestart env
    { s with place := .poll, alive := s.alive && ok, sigpipeCaught := false, world }
  else { s with place := .poll }

/-- `daemon_free` behind the loop -/
def daemonFree (env : Env) : Daemon :=
  { s with place := .returned, world := ((s.env env).daemonFree s.world).2 }

/-- One event. Signals are handled once `daemon_set_sigacts` has been called. -/
def step : DaemonEvent → Option Daemon
  | .signal signal =>
    if s.place = .start ∨ s.place = .returned then none else some (s.daemonSighandler signal)
  | .init env => if s.place = .start then some (s.daemonInit env) else none
  | .testAlive =>
    if s.place = .testAlive then
      some { s with place := if s.alive then .adjust else .free }
    else none
  | .adjust o temp => if s.place = .adjust then some (s.daemonAdjustFanspeed F o temp) else none
  | .watchEvent triggered file tmpdata =>
    if s.place = .watchEvent then some (s.daemonWatchEvent triggered file tmpdata) else none
  | .pendingSignals env =>
    if s.place = .pendingSignals then some (s.daemonHandlePendingSignals env) else none
  | .poll => if s.place = .poll then some { s with place := .testAlive } else none
  | .free env => if s.place = .free then some (s.daemonFree env) else none

end Daemon

/-! ## Runs -/

/-- What a step does to the world -/
inductive Daemon.Effect (s : Daemon) (e : DaemonEvent) (s' : Daemon) : Prop
  | idle (hplace : s.place ≠ .start ∧ s.place ≠ .returned)
      (hplace' : s'.place ≠ .start ∧ s'.place ≠ .returned) (data : FandConfig) (fanctrl : Fanctrl)
      (hworld : s'.world = { s.world with data, fanctrl })
  | started (env : Env) (he : e = .init env) (hplace : s.place = .start)
      (hplace' : s'.place = .testAlive) (hworld : s'.world = ((s.env env).daemonInit s.world).2)
  | restarted (env : Env) (he : e = .pendingSignals env) (hcaught : s.sigpipeCaught = true)
      (hplace : s.place = .pendingSignals) (hplace' : s'.place = .poll)
      (hworld : s'.world = (s.daemonRestart env).2)
  | freed (env : Env) (he : e = .free env) (hplace : s.place = .free)
      (hplace' : s'.place = .returned) (hworld : s'.world = ((s.env env).daemonFree s.world).2)

/-- A signal is noted, and that is all. -/
theorem Daemon.daemonSighandler_same (s : Daemon) (signal : Signal) :
    (s.daemonSighandler signal).fork = s.fork ∧
      (s.daemonSighandler signal).drmSupport = s.drmSupport ∧
      (s.daemonSighandler signal).place = s.place ∧
      (s.daemonSighandler signal).world = s.world := by
  cases signal with
  | sigint | sigterm | sigpipe | sighup => exact ⟨rfl, rfl, rfl, rfl⟩
  | sigchld serverExit => cases serverExit <;> exact ⟨rfl, rfl, rfl, rfl⟩

/-- A step does one of four things to the world, and never changes the options. -/
theorem Daemon.step_effect {F : FloatFormat} {s s' : Daemon} {e : DaemonEvent}
    (h : s.step F e = some s') :
    s'.fork = s.fork ∧ s'.drmSupport = s.drmSupport ∧ s.Effect e s' := by
  cases e with
  | signal signal =>
    simp only [Daemon.step] at h
    split_ifs at h with hplace
    cases h
    rw [not_or] at hplace
    obtain ⟨hfork, hdrm, hat, hworld⟩ := s.daemonSighandler_same signal
    refine ⟨hfork, hdrm, .idle hplace ?_ s.world.data s.world.fanctrl hworld⟩
    rwa [hat]
  | init env =>
    simp only [Daemon.step] at h
    split_ifs at h with hplace
    cases h
    exact ⟨rfl, rfl, .started env rfl hplace rfl rfl⟩
  | testAlive =>
    simp only [Daemon.step] at h
    by_cases hplace : s.place = .testAlive
    · rw [if_pos hplace] at h
      cases h
      -- the flag decides where the loop goes on
      refine ⟨rfl, rfl, .idle (by simp [hplace]) ?_ s.world.data s.world.fanctrl rfl⟩
      cases s.alive <;> simp
    · rw [if_neg hplace] at h
      cases h
  | adjust o temp =>
    simp only [Daemon.step] at h
    split_ifs at h with hplace
    cases h
    exact ⟨rfl, rfl, .idle (by simp [hplace]) (by simp [daemonAdjustFanspeed]) _ _ rfl⟩
  | watchEvent triggered file tmpdata =>
    simp only [Daemon.step] at h
    split_ifs at h with hplace
    cases h
    rw [daemonWatchEvent]
    split_ifs with hreload
    · exact ⟨rfl, rfl, .idle (by simp [hplace]) (by simp) _ _ rfl⟩
    · exact ⟨rfl, rfl, .idle (by simp [hplace]) (by simp) s.world.data s.world.fanctrl rfl⟩
  | pendingSignals env =>
    simp only [Daemon.step] at h
    split_ifs at h with hplace
    cases h
    rw [daemonHandlePendingSignals]
    split_ifs with hcaught
    · exact ⟨rfl, rfl, .restarted env rfl hcaught hplace rfl rfl⟩
    · exact ⟨rfl, rfl, .idle (by simp [hplace]) (by simp) s.world.data s.world.fanctrl rfl⟩
  | poll =>
    simp only [Daemon.step] at h
    split_ifs at h with hplace
    cases h
    exact ⟨rfl, rfl, .idle (by simp [hplace]) (by simp) s.world.data s.world.fanctrl rfl⟩
  | free env =>
    simp only [Daemon.step] at h
    split_ifs at h with hplace
    cases h
    exact ⟨rfl, rfl, .freed env rfl hplace rfl rfl⟩

/-- Conditions on the calls of `daemon_init` and `daemon_free` in a run: what the system does, and
the world in which the start, the restart or the end begins -/
structure RunCondition where
  init : Env → World → Prop
  restart : Env → World → Prop
  free : Env → World → Prop

/-- A step meets the condition. -/
def RunCondition.Holds (c : RunCondition) (s : Daemon) : DaemonEvent → Prop
  | .init env => c.init (s.env env) s.world
  | .pendingSignals env => s.sigpipeCaught = true → c.restart (s.env env) s.world
  | .free env => c.free (s.env env) s.world
  | _ => True

/-- The world is as it was found, then `Up`, and `Done` at the end. -/
structure Daemon.Inv (drmSupport : Bool) (boot : Boot) (Up Done : World → Prop) (s : Daemon) :
    Prop where
  drmSupport : s.drmSupport = drmSupport
  start : s.place = .start → s.world = boot.world
  up : s.place ≠ .start ∧ s.place ≠ .returned → Up s.world
  done : s.place = .returned → Done s.world

section Inv

variable {F : FloatFormat} {fork drmSupport : Bool} {boot : Boot} {c : RunCondition}
  {Up Done : World → Prop}

/-- Before `daemon_init` the invariant asks for nothing but the world of the boot. -/
theorem Daemon.inv_start : (start fork drmSupport boot).Inv drmSupport boot Up Done :=
  ⟨rfl, fun _ => rfl, by simp [start], by simp [start]⟩

/-- One step: `Up` is kept by what happens while the daemon runs, and `daemon_init`, a restart and
`daemon_free` lead from one of the places to the next. -/
theorem Daemon.Inv.step
    (hframe : ∀ w data fanctrl, Up w → Up { w with data, fanctrl })
    (hinit : ∀ env : Env, env.drmSupport = drmSupport → c.init env boot.world →
      Up (env.daemonInit boot.world).2)
    (hrestart : ∀ (env : Env) w, env.drmSupport = drmSupport → Up w → c.restart env w →
      Up (env.daemonInit (env.daemonFree w).2).2)
    (hfree : ∀ (env : Env) w, env.drmSupport = drmSupport → Up w → c.free env w →
      Done (env.daemonFree w).2)
    {s s' : Daemon} {e : DaemonEvent} (hs : s.Inv drmSupport boot Up Done) (hok : c.Holds s e)
    (hstep : s.step F e = some s') : s'.Inv drmSupport boot Up Done := by
  obtain ⟨-, hsame, heffect⟩ := Daemon.step_effect hstep
  have hdrm := hs.drmSupport
  cases heffect with
  | idle hplace hplace' data fanctrl hworld =>
    -- only the configuration and the controller have changed
    refine ⟨hsame.trans hdrm, fun h => absurd h hplace'.1, fun _ => ?_,
      fun h => absurd h hplace'.2⟩
    rw [hworld]
    exact hframe _ _ _ (hs.up hplace)
  | started env he hplace hplace' hworld =>
    subst he
    have hworld₀ := hs.start hplace
    refine ⟨hsame.trans hdrm, by simp [hplace'], fun _ => ?_, by simp [hplace']⟩
    rw [hworld, hworld₀]
    exact hinit (s.env env) hdrm (hworld₀ ▸ hok)
  | restarted env he hcaught hplace hplace' hworld =>
    subst he
    refine ⟨hsame.trans hdrm, by simp [hplace'], fun _ => ?_, by simp [hplace']⟩
    rw [hworld]
    exact hrestart (s.env env) s.world hdrm (hs.up (by simp [hplace])) (hok hcaught)
  | freed env he hplace hplace' hworld =>
    subst he
    refine ⟨hsame.trans hdrm, by simp [hplace'], by simp [hplace'], fun _ => ?_⟩
    rw [hworld]
    exact hfree (s.env env) s.world hdrm (hs.up (by simp [hplace])) hok

end Inv

/-- What `daemon_init` brings about, restarts keep and `daemon_free` turns into `Done` holds at the
end of every run. -/
theorem Daemon.run_done {F : FloatFormat} {fork drmSupport : Bool} {boot : Boot}
    {c : RunCondition} {Up Done : World → Prop}
    (hframe : ∀ w data fanctrl, Up w → Up { w with data, fanctrl })
    (hinit : ∀ env : Env, env.drmSupport = drmSupport → c.init env boot.world →
      Up (env.daemonInit boot.world).2)
    (hrestart : ∀ (env : Env) w, env.drmSupport = drmSupport → Up w → c.restart env w →
      Up (env.daemonInit (env.daemonFree w).2).2)
    (hfree : ∀ (env : Env) w, env.drmSupport = drmSupport → Up w → c.free env w →
      Done (env.daemonFree w).2)
    {events : List DaemonEvent} {s : Daemon}
    (hmeets : Process.Meets (Daemon.step F) c.Holds (start fork drmSupport boot) events)
    (hrun : Process.run (Daemon.step F) (start fork drmSupport boot) events = some s)
    (hreturned : s.place = .returned) : Done s.world := by
  have hinv : s.Inv drmSupport boot Up Done := by
    refine Process.run_keeps_of_meets (fun s e s' hs hok hstep => ?_) inv_start hmeets hrun
    exact hs.step hframe hinit hrestart hfree hok hstep
  exact hinv.done hreturned

/-! ## Every descriptor is in a variable -/

namespace World

/-- Every descriptor that the run has opened and not closed is one that `daemon_free` closes. -/
def Kept (drmSupport : Bool) (live : List (ℕ × Call)) (w : World) : Prop :=
  Owns live w ∧ ∀ entry ∈ live, (entry.1 : ℤ) ∈ w.vars.numbers drmSupport

variable {live : List (ℕ × Call)} {w w' : World} {drmSupport : Bool}

theorem Owns.self (h : Owns live w) : At live w.vars w.pwmEnable w.reused w :=
  ⟨h, rfl, rfl, rfl⟩

end World

/-- At the beginning the run has opened nothing. -/
theorem Boot.owns (boot : Boot) : World.Owns [] boot.world := by
  have hfd : ∀ k call id, boot.world.fd k ≠ some (.opened call id) := by
    intro k call id hk
    rw [World.fd, Process.fd, Boot.world, List.getElem?_map] at hk
    rcases hbit : boot.fds[k]? with _ | bit
    · rw [hbit] at hk
      cases hk
    · rw [hbit] at hk
      cases bit <;> cases hk
  refine ⟨fun k call => ?_, fun j k call id hj => absurd hj (hfd j call id),
    fun k call id hk => absurd hk (hfd k call id), ?_, ?_, ?_, ?_⟩
  · refine iff_of_false List.not_mem_nil ?_
    rintro ⟨id, hid⟩
    exact hfd k call id hid
  all_goals simp [Boot.world]

namespace Env

open World

variable (env : Env) {live : List (ℕ × Call)} {w : World}

/-- `daemon_free` empties the ledger. -/
theorem owns_daemonFree (h : w.Kept env.drmSupport live) : Owns [] (env.daemonFree w).2 := by
  obtain ⟨modes', reused', hfree, -⟩ := env.at_daemonFree h.1.self
  have hempty : without w.vars.hwmonPwmEnableFd (env.leftToHwmon w.vars live) = [] := by
    refine List.eq_nil_iff_forall_not_mem.mpr fun entry hmem => ?_
    obtain ⟨hleft, hhwmon⟩ := mem_without.mp hmem
    obtain ⟨hlive, hwatch, hpollfd, hdrm⟩ := env.mem_leftToHwmon.mp hleft
    have hnumber := h.2 entry hlive
    rw [Vars.numbers, List.mem_cons, List.mem_cons, List.mem_append, List.mem_singleton] at hnumber
    rcases hnumber with heq | heq | hmem | heq
    · exact hwatch heq
    · exact hpollfd heq
    · split_ifs at hmem with hsupport
      · exact hdrm hsupport (List.mem_singleton.mp hmem)
      · cases hmem
    · exact hhwmon heq
  rw [hempty] at hfree
  exact hfree.owns

/-- `daemon_init` puts what it opens into the variables. -/
theorem kept_daemonInit (h : Owns [] w) :
    ∃ live, (env.daemonInit w).2.Kept env.drmSupport live := by
  rcases env.daemonInit_started h.self with ⟨hstopped, -⟩ | ⟨p, q, w₁, -, hcontrols⟩
  · cases hstopped with
    | bare _ hat => exact ⟨_, hat.owns, by simp⟩
    | server p hat => exact ⟨_, hat.owns, by simp [hat.vars, Vars.numbers]⟩
    | watch p q hat => exact ⟨_, hat.owns, by simp [hat.vars, Vars.numbers]⟩
  · cases hcontrols with
    | refused _ hat => exact ⟨_, hat.owns, by simp [hat.vars, Vars.numbers]⟩
    | unwritten k _ hat => exact ⟨_, hat.owns, by simp [hat.vars, Vars.numbers]⟩
    | kept k w₁ _ _ _ hat => exact ⟨_, hat.owns, by simp [hat.vars, Vars.numbers]⟩
    | failed k hdrm hat => exact ⟨_, hat.owns, by simp [hat.vars, Vars.numbers]⟩
    | drm k d hdrm hat => exact ⟨_, hat.owns, by simp [hat.vars, Vars.numbers, hdrm]⟩

end Env

/-! ## Handing back the fans -/

/-- If the daemon has taken control of the fans, it has given it back. -/
def Released (modes : List PwmMode) : Prop := .manual ∈ modes → modes.head? = some .auto

theorem Released.auto (modes : List PwmMode) : Released (.auto :: modes) := fun _ => rfl

namespace World

/-- `hwmon_pwm_enable_fd` is of `pwm1_enable`, and no variable that `daemon_free` closes first has
the same number. -/
def InControl (drmSupport : Bool) (w : World) : Prop :=
  ∃ k id : ℕ, w.hwmonPwmEnableFd = k ∧ w.fd k = some (.opened .pwmEnableOpen id) ∧
    (k : ℤ) ≠ w.watchFd ∧ (k : ℤ) ≠ w.pollfd ∧ (drmSupport = true → (k : ℤ) ≠ w.drmFd)

/-- `daemon_free` will leave the fans released. -/
def HandsBack (drmSupport : Bool) (w : World) : Prop :=
  (∃ live, w.Kept drmSupport live) ∧ (Released w.pwmEnable ∨ w.InControl drmSupport)

end World

namespace Env

open World

variable (env : Env) {w : World}

/-- When `daemon_init` calls `drm_open`, this assigns to `drm_fd`, or `drm_fd` is not the number
that `hwmon_pwm_enable_fd` has got. -/
def DrmApart (w : World) : Prop :=
  ∀ w₁, Process.runSteps (env.stepsToControl ++ [env.hwmonSetPwmModeManual]) w = (true, w₁) →
    env.drmSupport = true → env.drmAssigns = true ∨ w₁.drmFd ≠ w₁.hwmonPwmEnableFd

/-- At the start `drm_fd` is `-1`. -/
theorem drmApart_start (boot : Boot) : env.DrmApart boot.world := by
  intro w₂ hreached _
  have hstart : At [] ⟨0, -1, -1, -1, -1⟩ [] [] boot.world := ⟨boot.owns, rfl, rfl, rfl⟩
  obtain ⟨ok, w₁, hrun, -, hready⟩ := env.at_stepsToControl hstart
  rw [Process.runSteps_append, hrun] at hreached
  cases ok with
  | false => cases hreached
  | true =>
    obtain ⟨p, q, hw₁⟩ := hready rfl
    obtain ⟨ok, w₃, hmanual, -, hcontrol⟩ := env.at_hwmonSetPwmModeManual hw₁
    cases ok with
    | false =>
      dsimp only at hreached
      rw [Process.runSteps_cons_false hmanual] at hreached
      cases hreached
    | true =>
      dsimp only at hreached
      rw [Process.runSteps_cons_true hmanual] at hreached
      cases hreached
      obtain ⟨k, hk⟩ := hcontrol rfl
      have hdrmFd : w₂.drmFd = -1 := congrArg Vars.drmFd hk.vars
      have hhwmon : w₂.hwmonPwmEnableFd = k := congrArg Vars.hwmonPwmEnableFd hk.vars
      refine Or.inr ?_
      rw [hdrmFd, hhwmon]
      omega

theorem released_daemonFree (hrelease : env.refused .pwmEnableRelease = false)
    (h : w.HandsBack env.drmSupport) : Released (env.daemonFree w).2.pwmEnable := by
  obtain ⟨⟨live, hkept⟩, hmodes⟩ := h
  obtain ⟨modes', reused', hfree, hcases, hauto⟩ := env.at_daemonFree hkept.1.self
  rw [hfree.pwmEnable]
  rcases hmodes with hreleased | ⟨k, id, hk, hid, hwatch, hpollfd, hdrm⟩
  · rcases hcases with rfl | rfl
    · exact hreleased
    · exact Released.auto _
  · have hmem : (k, .pwmEnableOpen) ∈ live := (hkept.1.live_iff k _).mpr ⟨id, hid⟩
    rw [hauto k hk (env.mem_leftToHwmon.mpr ⟨hmem, hwatch, hpollfd, hdrm⟩) hrelease]
    exact Released.auto _

/-- The ledger tells the numbers of the server, the watch and `pwm1_enable` apart. -/
theorem inControl_of_at {live : List (ℕ × Call)} {modes : List PwmMode} {reused : List ℕ}
    {p q k : ℕ} {wd d : ℤ} (h : At live ⟨p, q, wd, k, d⟩ modes reused w)
    (hp : (p, .socket) ∈ live) (hq : (q, .inotifyInit) ∈ live)
    (hk : (k, .pwmEnableOpen) ∈ live) {drmSupport : Bool}
    (hd : drmSupport = true → (k : ℤ) ≠ d) : w.InControl drmSupport := by
  obtain ⟨id, hid⟩ := (h.owns.live_iff k _).mp hk
  have hwatch : w.watchFd = q := congrArg Vars.watchFd h.vars
  have hpollfd : w.pollfd = p := congrArg Vars.pollfd h.vars
  have hdrmFd : w.drmFd = d := congrArg Vars.drmFd h.vars
  refine ⟨k, id, congrArg Vars.hwmonPwmEnableFd h.vars, hid, ?_, ?_, fun hdrm => ?_⟩
  · rw [hwatch]
    exact_mod_cast h.owns.ne hk hq (by decide)
  · rw [hpollfd]
    exact_mod_cast h.owns.ne hk hp (by decide)
  · rw [hdrmFd]
    exact hd hdrm

theorem handsBack_daemonInit (howns : Owns [] w) (hreleased : Released w.pwmEnable)
    (hdrm : env.DrmApart w) : (env.daemonInit w).2.HandsBack env.drmSupport := by
  refine ⟨env.kept_daemonInit howns, ?_⟩
  -- a start that fails before it comes to `pwm1_enable` leaves the fans as they were
  rcases env.daemonInit_started howns.self with ⟨hstopped, -⟩ | ⟨p, q, w₁, hrun, hcontrols⟩
  · have hmodes : (env.daemonInit w).2.pwmEnable = w.pwmEnable := by
      cases hstopped with
      | bare _ hat => exact hat.pwmEnable
      | server p hat => exact hat.pwmEnable
      | watch p q hat => exact hat.pwmEnable
    exact Or.inl (hmodes ▸ hreleased)
  · cases hcontrols with
    | refused _ hat => exact Or.inl (hat.pwmEnable ▸ hreleased)
    | unwritten k _ hat => exact Or.inl (hat.pwmEnable ▸ hreleased)
    | kept k w₂ hassigns hmanual hvars hat =>
      refine Or.inr (inControl_of_at hat (by simp) (by simp) (by simp) fun hsupport => ?_)
      -- without `drm_open` the old `drm_fd` stays, and is no other than the new number
      have hreached : Process.runSteps (env.stepsToControl ++ [env.hwmonSetPwmModeManual]) w =
          (true, w₂) := by
        rw [Process.runSteps_append, hrun]
        exact Process.runSteps_cons_true hmanual
      rcases hdrm w₂ hreached hsupport with hassigned | hne
      · rw [hassigns hsupport] at hassigned
        cases hassigned
      · have hk : w₂.hwmonPwmEnableFd = k := congrArg Vars.hwmonPwmEnableFd hvars
        have hd : w₂.drmFd = w.vars.drmFd := congrArg Vars.drmFd hvars
        rw [hk, hd] at hne
        exact hne.symm
    | failed k hsupport hat =>
      exact Or.inr (inControl_of_at hat (by simp) (by simp) (by simp) fun _ => by omega)
    | drm k d hsupport hat =>
      refine Or.inr (inControl_of_at hat (by simp) (by simp) (by simp) fun _ => ?_)
      exact_mod_cast hat.owns.ne (List.mem_cons_of_mem _ (List.mem_cons_self ..))
        (List.mem_cons_self ..) (by decide)

end Env

/-- The value that `hwmon_close` writes to `pwm1_enable` can be written. -/
def writesSucceed : RunCondition where
  init _ _ := True
  restart env _ := env.refused .pwmEnableRelease = false
  free env _ := env.refused .pwmEnableRelease = false

/-- No `drm_open` of a restart leaves in `drm_fd` the number that `hwmon_pwm_enable_fd` has got. -/
def drmApart : RunCondition where
  init _ _ := True
  restart env w := env.DrmApart (env.daemonFree w).2
  free _ _ := True

/-- **The fans are handed back.** For every run of `daemon_main`, with any call failing at the start
or in a restart, any adjustments, reloads and signals: if `pwm1_enable` could be written and
`drm_fd` never kept a number that has become that of `pwm1_enable`, then the last value written to
`pwm1_enable` is `PWM_MODE_AUTO` when the daemon returns, unless none was written. -/
theorem fans_handed_back (F : FloatFormat) (fork drmSupport : Bool) (boot : Boot)
    (events : List DaemonEvent) (s : Daemon)
    (hrun : Process.run (Daemon.step F) (.start fork drmSupport boot) events = some s)
    (hwrites : Process.Meets (Daemon.step F) writesSucceed.Holds (.start fork drmSupport boot)
      events)
    (hdrm : Process.Meets (Daemon.step F) drmApart.Holds (.start fork drmSupport boot) events)
    (hreturned : s.place = .returned) (hmanual : .manual ∈ s.world.pwmEnable) :
    s.world.pwmEnable.head? = some .auto := by
  -- both conditions as one
  let c : RunCondition :=
    ⟨fun _ _ => True,
      fun env w => env.refused .pwmEnableRelease = false ∧ env.DrmApart (env.daemonFree w).2,
      fun env _ => env.refused .pwmEnableRelease = false⟩
  have hmeets : Process.Meets (Daemon.step F) c.Holds (.start fork drmSupport boot) events := by
    refine (hwrites.and hdrm).imp fun s e h => ?_
    cases e with
    | pendingSignals env => exact fun hcaught => ⟨h.1 hcaught, h.2 hcaught⟩
    | free env => exact h.1
    | init | signal | testAlive | adjust | watchEvent | poll => trivial
  have hdone : Released s.world.pwmEnable := by
    refine @Daemon.run_done F fork drmSupport boot c (fun w => w.HandsBack drmSupport)
      (fun w => Released w.pwmEnable) ?_ ?_ ?_ ?_ events s hmeets hrun hreturned
    · rintro w data fanctrl ⟨⟨live, hkept⟩, hmodes⟩
      exact ⟨⟨live, hkept.1.frame rfl rfl rfl rfl, hkept.2⟩, hmodes⟩
    · rintro env rfl -
      exact env.handsBack_daemonInit boot.owns (by simp [Released, Boot.world])
        (env.drmApart_start boot)
    · rintro env w rfl hw ⟨hrelease, hcond⟩
      obtain ⟨live, hkept⟩ := hw.1
      exact env.handsBack_daemonInit (env.owns_daemonFree hkept)
        (env.released_daemonFree hrelease hw) hcond
    · rintro env w rfl hw hrelease
      exact env.released_daemonFree hrelease hw
  exact hdone hmanual

/-- A system on which every call succeeds, with three descriptors open and a file to read -/
def bootPlain : Boot := ⟨none, [true, true, true]⟩

/-- See `bootPlain`. -/
def envPlain : Env :=
  ⟨false, true, 255, some "matrix=('50::20'\n'80::100')\n".toList, fun _ => false, fun _ => []⟩

/-- The events of a round of the loop with a temperature that cannot be read -/
def roundEvents : List DaemonEvent :=
  [.testAlive, .adjust ⟨true, true⟩ (-1), .watchEvent true envPlain.config .zero]

/-- A run with a restart, ended by `SIGTERM`. -/
theorem fans_handed_back_restart :
    ∃ s, Process.run (Daemon.step binary32) (.start false true bootPlain)
        ([.init envPlain] ++ roundEvents ++ [.signal .sigpipe, .pendingSignals envPlain, .poll,
          .signal .sigterm, .testAlive, .free envPlain]) = some s ∧
      s.place = .returned ∧ .manual ∈ s.world.pwmEnable ∧
      s.world.pwmEnable.head? = some .auto := by
  have hrun : (Process.run (Daemon.step binary32) (.start false true bootPlain)
      ([.init envPlain] ++ roundEvents ++ [.signal .sigpipe, .pendingSignals envPlain, .poll,
        .signal .sigterm, .testAlive, .free envPlain])).map
      (fun s => (s.place, s.world.pwmEnable)) =
        some (.returned, [.auto, .manual, .auto, .manual]) := by decide +kernel
  obtain ⟨s, hs, hpair⟩ := Option.map_eq_some_iff.mp hrun
  obtain ⟨hplace, hmodes⟩ := Prod.mk.inj hpair
  have hmanual : .manual ∈ s.world.pwmEnable := by rw [hmodes]; simp
  refine ⟨s, hs, hplace, hmanual,
    fans_handed_back binary32 false true bootPlain _ s hs ?_ ?_ hplace hmanual⟩
  · refine Process.meets_of_mem (fun e he s => ?_) _
    simp only [roundEvents, List.cons_append, List.nil_append, List.mem_cons, List.not_mem_nil,
      or_false] at he
    rcases he with rfl | rfl | rfl | rfl | rfl | rfl | rfl | rfl | rfl | rfl <;>
      simp [RunCondition.Holds, writesSucceed, Daemon.env, envPlain]
  · refine Process.meets_of_mem (fun e he s => ?_) _
    simp only [roundEvents, List.cons_append, List.nil_append, List.mem_cons, List.not_mem_nil,
      or_false] at he
    rcases he with rfl | rfl | rfl | rfl | rfl | rfl | rfl | rfl | rfl | rfl <;>
      simp [RunCondition.Holds, drmApart, Env.DrmApart, Env.drmAssigns, Daemon.env, envPlain]

/-- A restart in which the paths have to be found again, the connection of `syslog` is open by then
and one client could not be served, and there is no entry for the DRM device -/
def envStaleDrm : Env :=
  { envPlain with
    refused := fun call => call = .cacheRead ∨ call = .drmEntry
    others := fun call =>
      if call ∈ [Call.cardIndex, .cacheCreate, .pwmEnableOpen, .drmDir] then [5, 6] else [6] }

/-- `pwm1_enable` gets the number 7 that `drm_fd` still has. At the end `drm_close` closes it, and
the last value written is `PWM_MODE_MANUAL`. -/
theorem fans_not_handed_back :
    (Process.run (Daemon.step binary32) (.start false true bootPlain)
      ([.init envPlain] ++ roundEvents ++ [.pendingSignals envPlain, .poll] ++ roundEvents ++
        [.signal .sigpipe, .pendingSignals envStaleDrm, .poll, .signal .sigterm, .testAlive,
          .free envPlain])).map (fun s => (s.place, s.world.pwmEnable)) =
        some (.returned, [.manual, .auto, .manual]) := by
  decide +kernel

/-! ## Numbers that have been closed -/

namespace World

variable {live : List (ℕ × Call)} {w : World}

/-- Numbers that are `-1` or in the ledger, each for a call of its own, are unused. -/
theorem Owns.unused (h : Owns live w) {entries : List (ℤ × Call)}
    (hcalls : entries.Pairwise fun e e' => e.2 ≠ e'.2)
    (hlive : ∀ entry ∈ entries, entry.1 = -1 ∨ ∃ k : ℕ, entry.1 = k ∧ (k, entry.2) ∈ live) :
    w.Unused (entries.map Prod.fst) := by
  refine ⟨?_, ?_⟩
  · intro k hk
    obtain ⟨entry, hmem, heq⟩ := List.mem_map.mp hk
    rcases hlive entry hmem with hnone | ⟨j, hj, hentry⟩
    · omega
    · obtain rfl : j = k := by omega
      exact h.not_mem_closedFds hentry
  · rw [List.pairwise_map]
    refine hcalls.imp_of_mem fun {e e'} he he' hne hnonneg heq => ?_
    rcases hlive e he with hnone | ⟨j, hj, hentry⟩
    · omega
    · rcases hlive e' he' with hnone' | ⟨k, hk, hentry'⟩
      · omega
      · exact h.ne hentry hentry' hne (by omega)

end World

namespace Env

open World

variable (env : Env) {w : World}

/-- Every number that `daemon_free` uses is `-1` or one that `daemon_init` has got this time. -/
theorem unused_of_at {live : List (ℕ × Call)} {v : Vars} {modes : List PwmMode}
    {reused : List ℕ} (h : At live v modes reused w)
    (hpollfd : ∃ p : ℕ, v.pollfd = p ∧ (p, .socket) ∈ live)
    (hwatch : v.watchFd = -1 ∨ ∃ q : ℕ, v.watchFd = q ∧ (q, .inotifyInit) ∈ live)
    (hhwmon : v.hwmonPwmEnableFd = -1 ∨
      ∃ k : ℕ, v.hwmonPwmEnableFd = k ∧ (k, .pwmEnableOpen) ∈ live)
    (hdrm : env.drmSupport = true → v.drmFd = -1 ∨
      ∃ d : ℕ, v.drmFd = d ∧ (d, .drmOpen) ∈ live) :
    w.Unused (w.vars.numbers env.drmSupport) := by
  rw [h.vars, Vars.numbers]
  split_ifs with hsupport
  · refine @Owns.unused live w h.owns [(v.watchFd, .inotifyInit), (v.pollfd, .socket),
      (v.drmFd, .drmOpen), (v.hwmonPwmEnableFd, .pwmEnableOpen)] (by simp) ?_
    simp only [List.mem_cons, List.not_mem_nil, or_false]
    rintro entry (rfl | rfl | rfl | rfl)
    · exact hwatch
    · exact Or.inr hpollfd
    · exact hdrm hsupport
    · exact hhwmon
  · refine @Owns.unused live w h.owns [(v.watchFd, .inotifyInit), (v.pollfd, .socket),
      (v.hwmonPwmEnableFd, .pwmEnableOpen)] (by simp) ?_
    simp only [List.mem_cons, List.not_mem_nil, or_false]
    rintro entry (rfl | rfl | rfl)
    · exact hwatch
    · exact Or.inr hpollfd
    · exact hhwmon

/-- `daemon_init` comes to replace every number: it gets to `hwmon_set_pwm_mode_manual`, and with
DRM support past it and to the assignment of `drm_fd`. -/
def ReplacesNumbers (w : World) : Prop :=
  (Process.runSteps env.stepsToControl w).1 = true ∧
    (env.drmSupport = true → env.refused .pwmEnableOpen = false ∧
      env.refused .pwmEnableWrite = false ∧ env.drmAssigns = true)

instance (w : World) : Decidable (env.ReplacesNumbers w) :=
  inferInstanceAs (Decidable (_ ∧ (_ → _)))

/-- Behind `hwmon_set_pwm_mode_manual` the only number that may be an old one is that of the DRM
device. -/
theorem unused_controls {v : Vars} {modes : List PwmMode} {reused : List ℕ} {p q : ℕ}
    {w₁ : World} (hcontrols : Controls env [(q, .inotifyInit), (p, .socket)]
      { v with pollfd := p, watchFd := q, watchWd := 1 } modes reused w₁ w)
    (hdrm : env.drmSupport = true → v.drmFd = -1 ∨ env.refused .pwmEnableOpen = false ∧
      env.refused .pwmEnableWrite = false ∧ env.drmAssigns = true) :
    w.reused = reused ∧ w.Unused (w.vars.numbers env.drmSupport) := by
  cases hcontrols with
  | refused hopen hat =>
    refine ⟨hat.reused, env.unused_of_at hat ⟨p, rfl, by simp⟩ (Or.inr ⟨q, rfl, by simp⟩)
      (Or.inl rfl) fun hsupport => Or.inl ((hdrm hsupport).resolve_right ?_)⟩
    simp [hopen]
  | unwritten k hwrite hat =>
    refine ⟨hat.reused, env.unused_of_at hat ⟨p, rfl, by simp⟩ (Or.inr ⟨q, rfl, by simp⟩)
      (Or.inr ⟨k, rfl, by simp⟩) fun hsupport => Or.inl ((hdrm hsupport).resolve_right ?_)⟩
    simp [hwrite]
  | kept k w₂ hassigns _ _ hat =>
    refine ⟨hat.reused, env.unused_of_at hat ⟨p, rfl, by simp⟩ (Or.inr ⟨q, rfl, by simp⟩)
      (Or.inr ⟨k, rfl, by simp⟩) fun hsupport => Or.inl ((hdrm hsupport).resolve_right ?_)⟩
    simp [hassigns hsupport]
  | failed k hsupport hat =>
    exact ⟨hat.reused, env.unused_of_at hat ⟨p, rfl, by simp⟩ (Or.inr ⟨q, rfl, by simp⟩)
      (Or.inr ⟨k, rfl, by simp⟩) fun _ => Or.inl rfl⟩
  | drm k d hsupport hat =>
    exact ⟨hat.reused, env.unused_of_at hat ⟨p, rfl, by simp⟩ (Or.inr ⟨q, rfl, by simp⟩)
      (Or.inr ⟨k, rfl, by simp⟩) fun _ => Or.inr ⟨d, rfl, by simp⟩⟩

/-- A restart in which `daemon_init` replaces the numbers leaves none of them used. -/
theorem unused_restart (howns : Owns [] w) (hreplaces : env.ReplacesNumbers w) :
    (env.daemonInit w).2.reused = w.reused ∧
      (env.daemonInit w).2.Unused ((env.daemonInit w).2.vars.numbers env.drmSupport) := by
  obtain ⟨hrun, hcalls⟩ := hreplaces
  rcases env.daemonInit_started howns.self with ⟨-, hfailed⟩ | ⟨p, q, w₁, -, hcontrols⟩
  · rw [hrun] at hfailed
    cases hfailed
  · exact env.unused_controls hcontrols fun hsupport => Or.inr (hcalls hsupport)

/-- `daemon_fork` closes everything. -/
def sweeps : Bool := env.forks && !env.refused .setsid && !env.refused .forkAgain

/-- The start gets its server, or it leaves descriptor 0 open, the initial value of `pollfd.fd`. -/
def KeepsStdin (boot : Boot) : Prop :=
  env.StartsServer boot ∨ env.sweeps = false ∧ boot.fds[0]? = some true

instance (boot : Boot) : Decidable (env.KeepsStdin boot) :=
  inferInstanceAs (Decidable (_ ∨ _))

/-- A start that fails before its server runs has not closed descriptor 0. -/
theorem zero_not_closed {boot : Boot} (hkeeps : env.KeepsStdin boot)
    (hserver : Process.runSteps env.stepsToServer boot.world = (false, w))
    (howns : Owns [] w) : 0 ∉ w.closedFds := by
  obtain ⟨ok, w', hrun, hok, hfailed, -⟩ := env.stepsToServer_spec boot
  rw [hserver, Prod.mk.injEq] at hrun
  obtain ⟨rfl, rfl⟩ := hrun
  rcases hkeeps with hstarts | ⟨hsweeps, hopen⟩
  · cases hok.mpr hstarts
  obtain ⟨hbefore, -⟩ := hfailed rfl
  intro hmem
  have hshut := howns.shut 0 hmem
  cases hforks : env.forks with
  | false =>
    -- the descriptor that was inherited is still there
    obtain ⟨k, hk, hfd⟩ := (hbefore.inherited 0).mpr ⟨hforks, boot.inheritedAt_zero.mpr hopen⟩
    rw [← Int.natCast_eq_zero.mp hk.symm, hfd] at hshut
    cases hshut
  | true =>
    -- the child could not become a daemon, and has closed nothing
    rw [sweeps, hforks, Bool.true_and] at hsweeps
    simp only [forks, Bool.and_eq_true, Bool.not_eq_true'] at hforks
    obtain ⟨⟨hfork, hsig⟩, hrefused⟩ := hforks
    have hsigacts : env.daemonSetSigacts boot.world = (true, boot.world) := by
      rw [daemonSetSigacts, hsig, Bool.not_false]
    have hchild : env.maybeFork boot.world = (false, boot.world.forked) := by
      rw [maybeFork, if_pos hfork, daemonFork, hrefused, if_neg Bool.false_ne_true]
      split_ifs with hsetsid hagain
      · rfl
      · rfl
      · simp [hsetsid, hagain] at hsweeps
    rw [stepsToServer, Process.runSteps_cons_true hsigacts, Process.runSteps_cons_false hchild,
      Prod.mk.injEq] at hserver
    rw [← hserver.2] at hmem
    cases hmem

theorem unused_start {boot : Boot} (hkeeps : env.KeepsStdin boot) :
    (env.daemonInit boot.world).2.reused = [] ∧ (env.daemonInit boot.world).2.Unused
      ((env.daemonInit boot.world).2.vars.numbers env.drmSupport) := by
  have hstart : At [] ⟨0, -1, -1, -1, -1⟩ [] [] boot.world := ⟨boot.owns, rfl, rfl, rfl⟩
  rcases env.daemonInit_started hstart with ⟨hstopped, -⟩ | ⟨p, q, w₁, -, hcontrols⟩
  · cases hstopped with
    | bare hserver hat =>
      have hzero := env.zero_not_closed hkeeps hserver hat.owns
      refine ⟨hat.reused, ?_⟩
      rw [hat.vars, Vars.numbers]
      refine ⟨?_, ?_⟩
      · intro k hk
        obtain rfl : k = 0 := by
          split_ifs at hk <;> simp at hk <;> omega
        exact hzero
      · split_ifs <;> simp
    | server p hat =>
      exact ⟨hat.reused, env.unused_of_at hat ⟨p, rfl, by simp⟩ (Or.inl rfl) (Or.inl rfl)
        fun _ => Or.inl rfl⟩
    | watch p q hat =>
      exact ⟨hat.reused, env.unused_of_at hat ⟨p, rfl, by simp⟩ (Or.inr ⟨q, rfl, by simp⟩)
        (Or.inl rfl) fun _ => Or.inl rfl⟩
  · exact env.unused_controls hcontrols fun _ => Or.inl rfl

end Env

/-- No `daemon_init` of a restart stops before it has replaced the numbers in the variables, and the
first one does not leave the initial 0 in `pollfd.fd` after it has closed that. -/
def numbersReplaced (boot : Boot) : RunCondition where
  init env _ := env.KeepsStdin boot
  restart env w := env.ReplacesNumbers (env.daemonFree w).2
  free _ _ := True

/-- **Descriptors are closed once.** For every run of `daemon_main`, with any number of restarts and
any call failing: when the daemon returns, every descriptor that it has obtained has been closed
exactly once. If every restart has come to replace the numbers, `daemon_free` has never written to
or closed a number that the run had closed before. -/
theorem numbers_not_reused (F : FloatFormat) (fork drmSupport : Bool) (boot : Boot)
    (events : List DaemonEvent) (s : Daemon)
    (hrun : Process.run (Daemon.step F) (.start fork drmSupport boot) events = some s)
    (hreturned : s.place = .returned) :
    (∀ origin ∈ s.world.obtained, s.world.closed.count origin = 1) ∧
      (Process.Meets (Daemon.step F) (numbersReplaced boot).Holds (.start fork drmSupport boot)
        events → s.world.reused = []) := by
  refine ⟨?_, ?_⟩
  -- the first half needs no condition
  · have hmeets : Process.Meets (Daemon.step F)
        (RunCondition.Holds ⟨fun _ _ => True, fun _ _ => True, fun _ _ => True⟩)
        (.start fork drmSupport boot) events := by
      refine Process.meets_of_mem (fun e _ s => ?_) _
      cases e <;> simp [RunCondition.Holds]
    have hdone : World.Owns [] s.world := by
      refine @Daemon.run_done F fork drmSupport boot _ (fun w => ∃ live, w.Kept drmSupport live)
        (World.Owns []) ?_ ?_ ?_ ?_ events s hmeets hrun hreturned
      · rintro w data fanctrl ⟨live, hkept⟩
        exact ⟨live, hkept.1.frame rfl rfl rfl rfl, hkept.2⟩
      · rintro env rfl -
        exact env.kept_daemonInit boot.owns
      · rintro env w rfl ⟨live, hkept⟩ -
        exact env.kept_daemonInit (env.owns_daemonFree hkept)
      · rintro env w rfl ⟨live, hkept⟩ -
        exact env.owns_daemonFree hkept
    exact hdone.closed_once
  · intro hmeets
    -- whenever the daemon runs, the numbers in its variables are unused
    refine @Daemon.run_done F fork drmSupport boot (numbersReplaced boot)
      (fun w => (∃ live, w.Kept drmSupport live) ∧ w.reused = [] ∧
        w.Unused (w.vars.numbers drmSupport))
      (fun w => w.reused = []) ?_ ?_ ?_ ?_ events s hmeets hrun hreturned
    · rintro w data fanctrl ⟨⟨live, hkept⟩, hreused, hunused⟩
      exact ⟨⟨live, hkept.1.frame rfl rfl rfl rfl, hkept.2⟩, hreused, hunused⟩
    · rintro env rfl hkeeps
      exact ⟨env.kept_daemonInit boot.owns, env.unused_start hkeeps⟩
    · rintro env w rfl ⟨⟨live, hkept⟩, hreused, hunused⟩ hreplaces
      have howns := env.owns_daemonFree hkept
      obtain ⟨hsame, hrest⟩ := env.unused_restart howns hreplaces
      refine ⟨env.kept_daemonInit howns, ?_, hrest⟩
      rw [hsame, env.reused_daemonFree hunused, hreused]
    · rintro env w rfl ⟨-, hreused, hunused⟩ -
      rw [env.reused_daemonFree hunused, hreused]

instance (boot : Boot) (s : Daemon) (e : DaemonEvent) :
    Decidable ((numbersReplaced boot).Holds s e) :=
  match e with
  | .init env => inferInstanceAs (Decidable ((s.env env).KeepsStdin boot))
  | .pendingSignals env => inferInstanceAs (Decidable (_ → (s.env env).ReplacesNumbers _))
  | .signal _ | .testAlive | .adjust _ _ | .watchEvent _ _ _ | .poll | .free _ => isTrue trivial

/-- A run with a restart that succeeds. -/
theorem numbers_not_reused_restart :
    ∃ s, Process.run (Daemon.step binary32) (.start false true bootPlain)
        ([.init envPlain] ++ roundEvents ++ [.signal .sigpipe, .pendingSignals envPlain, .poll,
          .signal .sigterm, .testAlive, .free envPlain]) = some s ∧
      s.place = .returned ∧ (∀ origin ∈ s.world.obtained, s.world.closed.count origin = 1) ∧
      s.world.reused = [] := by
  have hrun : (Process.run (Daemon.step binary32) (.start false true bootPlain)
      ([.init envPlain] ++ roundEvents ++ [.signal .sigpipe, .pendingSignals envPlain, .poll,
        .signal .sigterm, .testAlive, .free envPlain])).map Daemon.place = some .returned := by
    decide +kernel
  obtain ⟨s, hs, hplace⟩ := Option.map_eq_some_iff.mp hrun
  obtain ⟨hclosed, hreused⟩ := numbers_not_reused binary32 false true bootPlain _ s hs hplace
  exact ⟨s, hs, hplace, hclosed, hreused (by decide +kernel)⟩

/-- A system that does not let the working directory be made -/
def envNoDir : Env := { envPlain with refused := fun call => call = .mkdir }

/-- After a restart that fails early `daemon_free` uses the numbers of the watch, the server, the
DRM device and `pwm1_enable` for the second time. -/
theorem numbers_reused_after_failed_restart :
    (Process.run (Daemon.step binary32) (.start false true bootPlain)
      ([.init envPlain] ++ roundEvents ++ [.signal .sigpipe, .pendingSignals envNoDir, .poll,
        .testAlive, .free envPlain])).map (fun s => (s.place, s.world.reused)) =
      some (.returned, [5, 7, 3, 4]) := by
  decide +kernel

end AmdgpuFand
