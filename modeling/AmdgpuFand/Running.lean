import AmdgpuFand.FanCurve
import AmdgpuFand.Request
import AmdgpuFand.Restart

/-!
# The daemon while it runs

Start, reload and restart each put a configuration into `data` of `daemon_main` and hand it to
`fanctrl_configure`, and each of them may fail half-way. As long as `daemon_alive` is set, the two
agree: `data` has one to sixteen rows, and the fan controller runs on them (`World.InUse`). So the
matrix that a client is shown is the one that controls the fans (`shown_matrix_in_use`), and the
curve that the speeds follow is that of the latest configuration (`speed_follows_current_curve`).

`daemon_alive` is never set again. Once it has been cleared, by a signal or by an error, the loop
goes through the rest of its round and leaves (`shutdown_remaining`).
-/

namespace AmdgpuFand

open Rounding PiecewiseLinear CLib

/-! ## The configuration in use -/

/-- More rows than the array has are refused. -/
theorem fanctrlConfigure_nonneg {c : FandConfig} {s : Fanctrl} (h : (fanctrlConfigure c s).1 ≥ 0) :
    c.rows ≤ maxTempThresholds := by
  by_contra hle
  have hover : matrixMaxSize / 2 < c.matrixRows.toNat := not_le.mp hle
  rw [fanctrlConfigure, fanctrlSetMatrix, if_pos hover] at h
  have hnonneg : (-1 : ℤ) ≥ 0 := h
  exact absurd hnonneg (by decide)

namespace World

/-- The configuration has rows that fit the array, and the fan controller runs on it. -/
structure InUse (w : World) : Prop where
  rows_pos : 1 ≤ w.data.rows
  rows_le : w.data.rows ≤ maxTempThresholds
  configured : Configured w.data w.fanctrl

variable (w : World) (n : ℤ)

/-- The working directory and the configuration -/
def base : Option WorkDir × FandConfig := (w.dir, w.data)

/-- Descriptors come and go without touching the rows and the state of the controller. -/
theorem base_close : (w.close n).base = w.base := by
  rw [close_eq]
  rfl

@[simp] theorem data_openFd (others : List ℕ) (call : Call) :
    (w.openFd others call).2.data = w.data := rfl

@[simp] theorem data_close : (w.close n).data = w.data := by
  rw [close_eq]

@[simp] theorem data_unlink (file : File) : (w.unlink file).2.data = w.data := by
  rw [unlink]
  split
  · rfl
  · split <;> rfl

end World

namespace Env

open World

variable (env : Env) (w : World)

theorem base_useFd (call : Call) : (env.useFd call w).base = w.base := by
  rw [useFd, base_close]
  rfl

theorem data_serverInit : (env.serverInit w).2.data = w.data := by
  rw [serverInit]
  by_cases hsocket : env.refused .socket = true
  · rw [if_pos hsocket]
  rw [if_neg hsocket]
  dsimp only
  rcases (env.openFd .socket w).2.dir with _ | d
  · dsimp only
    rw [data_close]
    rfl
  · dsimp only
    by_cases hbind : d.sock.isSome = true ∨ env.refused .bind = true
    · rw [if_pos hbind, data_close]
      rfl
    rw [if_neg hbind]
    by_cases hfail : env.refused .sockChmod = true ∨ env.refused .listen = true
    · rw [if_pos hfail, data_close]
      by_cases hunlink : env.refused .unlinkBound = true
      · rw [if_pos hunlink]
        rfl
      · rw [if_neg hunlink, data_unlink]
        rfl
    · rw [if_neg hfail]
      rfl

theorem base_fsysWatchInit : (env.fsysWatchInit w).2.base = w.base := by
  rw [fsysWatchInit]
  by_cases hpath : env.refused .watchPath = true ∨ env.refused .inotifyInit = true
  · rw [if_pos hpath]
  rw [if_neg hpath]
  dsimp only
  by_cases hadd : env.refused .inotifyAddWatch = true
  · rw [if_pos hadd, base_close]
    rfl
  · rw [if_neg hadd]
    rfl

theorem base_hwmonSetPwmModeManual : (env.hwmonSetPwmModeManual w).2.base = w.base := by
  rw [hwmonSetPwmModeManual]
  by_cases hopen : env.refused .pwmEnableOpen = true
  · rw [if_pos hopen]
    rfl
  rw [if_neg hopen]
  dsimp only
  by_cases hwrite : env.refused .pwmEnableWrite = true
  · rw [if_pos hwrite]
    rfl
  · rw [if_neg hwrite]
    rfl

/-- The calls of `hwmon_open` leave them alone, too. -/
theorem base_hwmonOpen : (env.hwmonOpen w).2.base = w.base := by
  rw [hwmonOpen_eq]
  refine @Process.runSteps_keeps _ (fun w' => w'.base = w.base) _
    (fun step hstep w' hw' => ?_) w rfl
  simp only [List.mem_cons, List.not_mem_nil, or_false] at hstep
  rcases hstep with rfl | rfl
  · refine @hwmonPaths_keeps env (fun w' => w'.base = w.base) (fun call w' hw' => ?_) w' hw'
    rw [base_useFd, hw']
  · rw [base_hwmonSetPwmModeManual, hw']

theorem base_drmOpen : (env.drmOpen w).2.base = w.base := by
  rw [drmOpen]
  by_cases hregex : env.refused .drmRegcomp = true
  · rw [if_pos hregex]
  rw [if_neg hregex]
  dsimp only
  rw [base_close]
  by_cases hentry : env.refused .drmEntry = true
  · rw [if_pos hentry]
    rfl
  rw [if_neg hentry]
  by_cases hopen : env.refused .drmOpen = true
  · rw [if_pos hopen]
    rfl
  · rw [if_neg hopen]
    rfl

/-- `fanctrl_init` does not touch them either. -/
theorem base_fanctrlInit : (env.fanctrlInit w).2.base = w.base := by
  rw [fanctrlInit]
  refine @Process.runSteps_keeps _ (fun w' => w'.base = w.base) _
    (fun step hstep w' hw' => ?_) w rfl
  split_ifs at hstep
  · simp only [List.mem_cons, List.not_mem_nil, or_false] at hstep
    rcases hstep with rfl | rfl
    · rw [base_hwmonOpen, hw']
    · rw [base_drmOpen, hw']
  · rw [List.mem_singleton.mp hstep, base_hwmonOpen, hw']

/-- Whatever was in `data`, a parse that succeeds leaves rows. -/
theorem configParse_rows (h : (env.configParse w).1 = true) :
    1 ≤ (env.configParse w).2.data.rows := by
  have hstatus : (AmdgpuFand.configParse env.config w.data).1 = 0 := of_decide_eq_true h
  obtain ⟨-, -, -, hrows⟩ := configParse_ok (Prod.ext hstatus rfl)
  refine Nat.one_le_iff_ne_zero.mpr fun hzero => hrows ?_
  exact UInt8.toNat_inj.mp hzero

/-- `fanctrl_configure` succeeds on the rows that fit. -/
theorem inUse_configure (hrows : 1 ≤ w.data.rows) (h : (configure w).1 = true) :
    (configure w).2.InUse := by
  have hnonneg : (fanctrlConfigure w.data w.fanctrl).1 ≥ 0 := of_decide_eq_true h
  have hle := fanctrlConfigure_nonneg hnonneg
  exact ⟨hrows, hle, (fanctrlConfigure_configured w.fanctrl hle).2⟩

/-- A start that succeeds leaves a configuration in use. -/
theorem inUse_daemonInit (h : (env.daemonInit w).1 = true) : (env.daemonInit w).2.InUse := by
  have hinit : Process.runSteps
      ([env.daemonSetSigacts, env.maybeFork, env.mkdir, env.pidfileWrite, env.chdir] ++
        ([env.configParse] ++ ([env.serverInit, env.fsysWatchInit, env.fanctrlInit] ++
          [configure]))) w = (true, (env.daemonInit w).2) := Prod.ext h rfl
  obtain ⟨w₁, -, hrun⟩ := Process.runSteps_append_true hinit
  obtain ⟨w₂, hparse, hrun⟩ := Process.runSteps_append_true hrun
  obtain ⟨w₃, hmiddle, hlast⟩ := Process.runSteps_append_true hrun
  rw [Process.runSteps_singleton] at hparse hlast
  have hrows := env.configParse_rows w₁ (by rw [hparse])
  rw [hparse] at hrows
  have hdata : w₃.data = w₂.data := by
    have hkeep := @Process.runSteps_keeps _ (fun w' => w'.data = w₂.data)
      [env.serverInit, env.fsysWatchInit, env.fanctrlInit] (fun step hstep w' hw' => ?_) w₂ rfl
    · rw [hmiddle] at hkeep
      exact hkeep
    · simp only [List.mem_cons, List.not_mem_nil, or_false] at hstep
      rcases hstep with rfl | rfl | rfl
      · rw [data_serverInit, hw']
      · rw [← hw']
        exact congrArg Prod.snd (env.base_fsysWatchInit w')
      · rw [← hw']
        exact congrArg Prod.snd (env.base_fanctrlInit w')
  have huse := inUse_configure w₃ (hdata ▸ hrows) (by rw [hlast])
  rw [hlast] at huse
  exact huse

end Env

/-! ## Reloading keeps it in use -/

/-- A reload that is not fatal leaves the old configuration in use, or a new one. -/
theorem inUse_daemonReload {w : World} (hw : w.InUse) {file : Option (List Char)}
    {tmpdata : FandConfig}
    (h : (daemonReload file tmpdata w.data w.fanctrl).1 ≠ fandFatalErr) :
    World.InUse { w with
      data := (daemonReload file tmpdata w.data w.fanctrl).2.1
      fanctrl := (daemonReload file tmpdata w.data w.fanctrl).2.2 } := by
  by_cases hparse : (configParse file tmpdata).1 = 0
  case neg =>
    rw [daemonReload_rejected hparse]
    exact hw
  obtain ⟨-, -, -, hrows⟩ := configParse_ok (Prod.ext hparse rfl)
  have hnot : ¬ (configParse file tmpdata).1 ≠ 0 := not_not.mpr hparse
  by_cases hset : (fanctrlConfigure (configParse file tmpdata).2 w.fanctrl).1 = 0
  · have hle := fanctrlConfigure_nonneg hset.ge
    rw [daemonReload_accepted (Prod.ext hparse rfl) hle]
    refine ⟨Nat.one_le_iff_ne_zero.mpr fun hzero => hrows ?_, hle,
      (fanctrlConfigure_configured w.fanctrl hle).2⟩
    exact UInt8.toNat_inj.mp hzero
  · refine absurd ?_ h
    simp only [daemonReload, if_neg hnot, ne_eq, hset, not_false_eq_true, if_true]

/-! ## Runs -/

namespace Daemon

variable {F : FloatFormat} {s s' : Daemon} {fork drmSupport : Bool} {boot : Boot}
  {events : List DaemonEvent}

/-- As long as the daemon is alive, its configuration is in use. -/
def AliveInUse (s : Daemon) : Prop :=
  s.alive = true → s.place ≠ .start → s.place ≠ .returned → s.world.InUse

theorem alive_daemonSighandler {signal : Signal}
    (h : (s.daemonSighandler signal).alive = true) : s.alive = true := by
  cases signal with
  | sigint | sigterm => cases h
  | sigpipe | sighup => exact h
  | sigchld serverExit =>
    cases serverExit with
    | true => cases h
    | false => exact h

/-- One step. A daemon that is alive behind it has kept its configuration, or has parsed a new one
and taken it over. -/
theorem AliveInUse.step (hs : s.AliveInUse) {e : DaemonEvent} (h : s.step F e = some s') :
    s'.AliveInUse := by
  intro halive hstart hreturned
  cases e with
  | signal signal =>
    simp only [Daemon.step] at h
    split_ifs at h with hplace
    cases h
    obtain ⟨-, -, hat, hworld⟩ := s.daemonSighandler_same signal
    rw [hworld]
    rw [hat] at hstart hreturned
    exact hs (alive_daemonSighandler halive) hstart hreturned
  | init env =>
    simp only [Daemon.step] at h
    split_ifs at h with hplace
    cases h
    rw [daemonInit, Bool.and_eq_true] at halive
    -- a start that has succeeded has configured the controller
    exact (s.env env).inUse_daemonInit s.world halive.2
  | testAlive =>
    simp only [Daemon.step] at h
    by_cases hplace : s.place = .testAlive
    · rw [if_pos hplace] at h
      cases h
      exact hs halive (by simp [hplace]) (by simp [hplace])
    · rw [if_neg hplace] at h
      cases h
  | adjust o temp =>
    simp only [Daemon.step] at h
    split_ifs at h with hplace
    cases h
    rw [daemonAdjustFanspeed, Bool.and_eq_true] at halive
    -- an adjustment leaves the rows alone
    obtain ⟨hpos, hle, hconfigured⟩ := hs halive.1 (by simp [hplace]) (by simp [hplace])
    exact ⟨hpos, hle, hconfigured.adjust o⟩
  | watchEvent triggered file tmpdata =>
    simp only [Daemon.step] at h
    split_ifs at h with hplace
    cases h
    rw [daemonWatchEvent] at halive ⊢
    split_ifs at halive ⊢ with hreload
    · dsimp only at halive
      rw [Bool.and_eq_true] at halive
      have huse := hs halive.1 (by simp [hplace]) (by simp [hplace])
      exact inUse_daemonReload huse (bne_iff_ne.mp halive.2)
    · exact hs halive (by simp [hplace]) (by simp [hplace])
  | pendingSignals env =>
    simp only [Daemon.step] at h
    split_ifs at h with hplace
    cases h
    rw [daemonHandlePendingSignals] at halive ⊢
    split_ifs at halive ⊢ with hcaught
    · dsimp only at halive
      rw [Bool.and_eq_true] at halive
      -- a restart is a start over again
      exact (s.env env).inUse_daemonInit _ halive.2
    · exact hs halive (by simp [hplace]) (by simp [hplace])
  | poll =>
    simp only [Daemon.step] at h
    split_ifs at h with hplace
    cases h
    exact hs halive (by simp [hplace]) (by simp [hplace])
  | free env =>
    simp only [Daemon.step] at h
    split_ifs at h with hplace
    cases h
    exact absurd rfl hreturned

/-- In every state of every run, a daemon that is alive has its configuration in use. -/
theorem aliveInUse_run
    (h : Process.run (Daemon.step F) (start fork drmSupport boot) events = some s) :
    s.AliveInUse :=
  Process.run_keeps (fun _ _ _ hs hstep => AliveInUse.step hs hstep)
    (fun _ hstart => absurd rfl hstart) h

end Daemon

/-! ## What is shown is what controls the fans -/

/-- The rows that the controller runs on, as they stand in a configuration -/
def Fanctrl.table (s : Fanctrl) : List UInt8 :=
  (List.range s.rows).flatMap fun i => [idx s.matrix.temps i, idx s.matrix.speeds i]

theorem take_two_mul (mat : Vector UInt8 matrixMaxSize) {n : ℕ} (hn : 2 * n ≤ matrixMaxSize) :
    mat.toList.take (2 * n) =
      (List.range n).flatMap fun i => [idx mat (2 * i), idx mat (2 * i + 1)] := by
  induction n with
  | zero => rfl
  | succ n ih =>
    have hget : ∀ i, i < matrixMaxSize → mat.toList[i]? = some (idx mat i) := by
      intro i hi
      rw [idx, Vector.getElem?_toList, Vector.getElem?_eq_getElem hi, Option.getD_some]
    rw [List.range_succ, List.flatMap_append, ← ih (by omega), Nat.mul_succ, List.take_add_one,
      List.take_add_one, hget (2 * n) (by omega), hget (2 * n + 1) (by omega), List.append_assoc]
    rfl

/-- The controller has copied the rows of its configuration. -/
theorem Configured.table_eq {c : FandConfig} {s : Fanctrl} (h : Configured c s)
    (hrows : c.rows ≤ maxTempThresholds) : c.matrix.toList.take (2 * c.rows) = s.table := by
  have hfits : 2 * c.rows ≤ matrixMaxSize := Nat.mul_le_mul_left 2 hrows
  rw [take_two_mul c.matrix hfits, Fanctrl.table, h.rows]
  refine List.flatMap_congr fun i hi => ?_
  have hi' := List.mem_range.mp hi
  have htemp : idx s.matrix.temps i = idx c.matrix (2 * i) :=
    UInt8.toNat_inj.mp (Int.ofNat_inj.mp (h.temp i hi'))
  have hspeed : idx s.matrix.speeds i = idx c.matrix (2 * i + 1) :=
    UInt8.toNat_inj.mp (Int.ofNat_inj.mp (h.speed i hi'))
  rw [htemp, hspeed]

/-- What a request is answered with, if the user may not be known. Only the exit request needs to
know. -/
def Answer.given (request : UInt8) (cred : Except (BitVec 32) UInt32) (config : FandConfig)
    (speed temp : BitVec 32) : Answer :=
  match cred with
  | .ok uid => .of request uid config speed temp
  | .error number =>
    if request = ipcReqExit then .error number else .of request 0 config speed temp

/-- The answer to a request for the matrix does not depend on who asks. -/
theorem Answer.given_matrix (cred : Except (BitVec 32) UInt32) (config : FandConfig)
    (speed temp : BitVec 32) :
    given ipcReqMatrix cred config speed temp = of ipcReqMatrix 0 config speed temp := by
  have hof : ∀ uid, of ipcReqMatrix uid config speed temp =
      matrix config.matrixRows (config.matrix.toList.take (2 * config.rows)) := by
    intro uid
    rw [of, if_neg (by decide), if_neg (by decide), if_neg (by decide), if_pos rfl]
  cases cred with
  | ok uid => exact (hof uid).trans (hof 0).symm
  | error number => rw [given, if_neg (by decide)]

/-- An exit request by somebody unknown is answered with the error. -/
theorem serverRecvAndRespond_unknown {calls : ServerCalls} {number : BitVec 32}
    (hrecv : calls.recv = .request ipcReqExit) (hpeer : calls.peercred = .error number)
    (hnumber : number ≠ 0) (config : FandConfig) (buffer : Vector UInt8 ipcMaxMsgLength) :
    ∃ code, serverRecvAndRespond calls config buffer =
      some ⟨code, (Answer.error number).message⟩ := by
  have hvalidate : serverValidateRequest calls ipcReqExit = number := by
    rw [serverValidateRequest, if_neg (by decide), if_pos (by decide), hpeer]
  obtain ⟨rest, hpack⟩ := holds_packInt buffer ipcRspErr number
  have hpacked : serverPack calls config buffer.toList ipcMaxMsgLength ipcReqExit number =
      some (((intMessage ipcRspErr number).length : ℤ), intMessage ipcRspErr number ++ rest) := by
    rw [serverPack, if_pos hnumber, packError, hpack]
  rw [serverRecvAndRespond, hrecv]
  simp only [hvalidate, hpacked, Option.bind_eq_bind, Option.bind_some, Int.toNat_natCast,
    Memory.load_zero, if_neg (not_lt.mpr (Int.natCast_nonneg _))]
  exact ⟨_, rfl⟩

/-- Other requests are answered without a look at the credentials. -/
theorem serverRecvAndRespond_known {calls : ServerCalls} {request : UInt8}
    (hrecv : calls.recv = .request request) (hexit : request ≠ ipcReqExit) (config : FandConfig)
    (buffer : Vector UInt8 ipcMaxMsgLength) :
    serverRecvAndRespond calls config buffer =
      serverRecvAndRespond { calls with peercred := .ok 0 } config buffer := by
  have hvalidate : serverValidateRequest calls request =
      serverValidateRequest { calls with peercred := .ok 0 } request := by
    rw [serverValidateRequest, serverValidateRequest]
    split_ifs with hvalid hprivileged
    · rcases mem_ipcValidRequests.mp hvalid with rfl | rfl | rfl | rfl
      · exact absurd rfl hexit
      all_goals exact absurd hprivileged (by decide)
    all_goals rfl
  rw [serverRecvAndRespond, serverRecvAndRespond, hrecv]
  simp only [hvalidate]
  rfl

/-- The server sends the message of the answer. The numbers of errors are not 0. -/
theorem serverRecvAndRespond_given {calls : ServerCalls} {request : UInt8}
    (hrecv : calls.recv = .request request) (hcred : calls.peercred ≠ .error 0)
    {config : FandConfig} (hpos : 1 ≤ config.rows) (hrows : config.rows ≤ maxTempThresholds)
    (buffer : Vector UInt8 ipcMaxMsgLength) :
    ∃ code, serverRecvAndRespond calls config buffer =
      some ⟨code, (Answer.given request calls.peercred config calls.speed calls.temp).message⟩ := by
  cases hpeer : calls.peercred with
  | ok uid => exact ⟨_, serverRecvAndRespond_eq hrecv hpeer hpos hrows buffer⟩
  | error number =>
    rw [hpeer] at hcred
    have hnumber : number ≠ 0 := fun h => hcred (congrArg Except.error h)
    by_cases hexit : request = ipcReqExit
    · subst hexit
      exact serverRecvAndRespond_unknown hrecv hpeer hnumber config buffer
    · rw [serverRecvAndRespond_known hrecv hexit, Answer.given, if_neg hexit,
        @serverRecvAndRespond_eq { calls with peercred := .ok 0 } 0 _ hrecv rfl _ hpos hrows]
      exact ⟨_, rfl⟩

/-- Only the answer to the matrix request depends on the configuration. -/
theorem Answer.given_congr {request : UInt8} (hmatrix : request ≠ ipcReqMatrix)
    (cred : Except (BitVec 32) UInt32) (config config' : FandConfig) (speed temp : BitVec 32) :
    given request cred config speed temp = given request cred config' speed temp := by
  have hof : ∀ uid, of request uid config speed temp = of request uid config' speed temp := by
    intro uid
    rw [of, of, if_neg hmatrix]
    simp only [if_neg hmatrix]
  cases cred with
  | ok uid => exact hof uid
  | error number => rw [given, given, hof 0]

theorem serverRecvAndRespond_congr {calls : ServerCalls} {request : UInt8}
    (hrecv : calls.recv = .request request) (hmatrix : request ≠ ipcReqMatrix)
    (config config' : FandConfig) (buffer : Vector UInt8 ipcMaxMsgLength) :
    serverRecvAndRespond calls config buffer = serverRecvAndRespond calls config' buffer := by
  have hpack : ∀ status, serverPack calls config buffer.toList ipcMaxMsgLength request status =
      serverPack calls config' buffer.toList ipcMaxMsgLength request status := by
    intro status
    simp only [serverPack, if_neg hmatrix]
  rw [serverRecvAndRespond, serverRecvAndRespond, hrecv]
  simp only [hpack]

/-- Whatever the configuration is like, also one that a failed reload has left, the server sends the
message of the answer or nothing: a matrix that does not fit is not packed. -/
theorem serverRecvAndRespond_sends {calls : ServerCalls} {request : UInt8}
    (hrecv : calls.recv = .request request) (hcred : calls.peercred ≠ .error 0)
    {config : FandConfig} {buffer : Vector UInt8 ipcMaxMsgLength} {reply : Reply}
    (hreply : serverRecvAndRespond calls config buffer = some reply) :
    reply.bytes = [] ∨ reply.bytes =
      (Answer.given request calls.peercred config calls.speed calls.temp).message := by
  by_cases hfits : 1 ≤ config.rows ∧ config.rows ≤ maxTempThresholds
  · obtain ⟨code, hgiven⟩ := serverRecvAndRespond_given hrecv hcred hfits.1 hfits.2 buffer
    rw [hgiven] at hreply
    cases hreply
    exact .inr rfl
  -- otherwise the matrix cannot be packed, and the other answers do not depend on it
  by_cases hmatrix : request = ipcReqMatrix
  · subst hmatrix
    have hrows : config.matrixRows = 0 ∨
        config.matrix.toList.length < 2 * config.matrixRows.toNat := by
      rw [Vector.length_toList, ← UInt8.toNat_inj]
      simp only [FandConfig.rows, maxTempThresholds, matrixMaxSize] at hfits ⊢
      simp only [UInt8.toNat_zero]
      omega
    have hvalidate : serverValidateRequest calls ipcReqMatrix = 0 :=
      serverValidateRequest_unprivileged (by decide) (by decide)
    have hserver : ∀ status : BitVec 32, status = 0 →
        serverPack calls config buffer.toList ipcMaxMsgLength ipcReqMatrix status =
          packMatrix buffer.toList ipcMaxMsgLength config.matrix.toList config.matrixRows := by
      rintro status rfl
      rw [serverPack, if_neg (not_not.mpr rfl), if_neg (by decide), if_neg (by decide),
        if_neg (by decide), if_pos rfl]
    rw [serverRecvAndRespond, hrecv] at hreply
    simp only [hserver _ hvalidate] at hreply
    obtain ⟨⟨rsplen, packed⟩, hpack, hreply⟩ := Option.bind_eq_some_iff.mp hreply
    rw [if_pos (packMatrix_refused hrows hpack)] at hreply
    cases hreply
    exact .inl rfl
  · -- a configuration with one row would do as well
    have hone : (1 : ℕ) ≤ FandConfig.rows { config with matrixRows := 1 } := le_refl 1
    rw [serverRecvAndRespond_congr hrecv hmatrix config { config with matrixRows := 1 }] at hreply
    obtain ⟨code, hgiven⟩ := serverRecvAndRespond_given hrecv hcred hone
      (show (1 : ℕ) ≤ 16 by decide) buffer
    rw [hgiven] at hreply
    cases hreply
    exact .inr (congrArg Answer.message (Answer.given_congr hmatrix ..))

/-- **The matrix shown is the one in use.** Whatever has happened since the start, a client that
asks a living daemon for the matrix prints the rows that the fan controller runs on, and never an
error. -/
theorem shown_matrix_in_use (F : FloatFormat) (fork drmSupport : Bool) (boot : Boot)
    (events : List DaemonEvent) (s : Daemon)
    (hrun : Process.run (Daemon.step F) (.start fork drmSupport boot) events = some s)
    (hplace : s.place = .poll) (halive : s.alive = true) (calls : ServerCalls)
    (hrecv : calls.recv = .request ipcReqMatrix) (hcred : calls.peercred ≠ .error 0)
    (buffer : Vector UInt8 ipcMaxMsgLength) :
    ∃ reply, serverRecvAndRespond calls s.world.data buffer = some reply ∧
      ∀ (env : FormatEnv) (strerror : BitVec 32 → List Char) (x : Exchange)
        (rspbuffer : Vector UInt8 ipcMaxMsgLength) (result : Vector UInt8 unpackResultSize),
        x.reply = some reply.bytes →
        ∃ text, formatMatrix env s.world.fanctrl.matrix.rows s.world.fanctrl.table = some text ∧
          requestProcessGet env strerror x rspbuffer.toList result.toList ipcReqMatrix =
            some ⟨0, text, []⟩ := by
  obtain ⟨hpos, hle, hconfigured⟩ :=
    Daemon.aliveInUse_run hrun halive (by simp [hplace]) (by simp [hplace])
  obtain ⟨code, hreply⟩ := serverRecvAndRespond_given hrecv hcred hpos hle buffer
  refine ⟨_, hreply, fun env strerror x rspbuffer result hx => ?_⟩
  have hcount : s.world.data.matrixRows = s.world.fanctrl.matrix.rows :=
    UInt8.toNat_inj.mp hconfigured.rows.symm
  have hfits : 2 * s.world.data.rows ≤ s.world.data.matrix.toList.length := by
    rw [Vector.length_toList]
    exact Nat.mul_le_mul_left 2 hle
  obtain ⟨text, htext, -⟩ := formatMatrix_take env hfits []
  have hx' : x.reply =
      some (Answer.of ipcReqMatrix 0 s.world.data calls.speed calls.temp).message := by
    rw [← Answer.given_matrix calls.peercred]
    exact hx
  rw [requestProcessGet_answer rfl hpos hle hx' rspbuffer result, ← hconfigured.table_eq hle,
    ← hcount]
  refine ⟨text, htext, ?_⟩
  exact congrArg (Option.map fun text => (⟨0, text, []⟩ : Printed)) htext

/-- A client that nobody knows, of a daemon in its first round. -/
theorem shown_matrix_in_use_first_round :
    ∃ s, Process.run (Daemon.step binary32) (.start false true bootPlain)
        ([.init envPlain] ++ roundEvents ++ [.pendingSignals envPlain]) = some s ∧
      ∃ reply, serverRecvAndRespond ⟨.request ipcReqMatrix, .error (errno einval), 0, 0, true⟩
          s.world.data (Vector.replicate ipcMaxMsgLength 0) = some reply ∧
        ∀ (env : FormatEnv) (strerror : BitVec 32 → List Char) (x : Exchange)
          (rspbuffer : Vector UInt8 ipcMaxMsgLength) (result : Vector UInt8 unpackResultSize),
          x.reply = some reply.bytes →
          ∃ text, formatMatrix env s.world.fanctrl.matrix.rows s.world.fanctrl.table = some text ∧
            requestProcessGet env strerror x rspbuffer.toList result.toList ipcReqMatrix =
              some ⟨0, text, []⟩ := by
  have hrun : (Process.run (Daemon.step binary32) (.start false true bootPlain)
      ([.init envPlain] ++ roundEvents ++ [.pendingSignals envPlain])).map
      (fun s => (s.place, s.alive)) = some (.poll, true) := by decide +kernel
  obtain ⟨s, hs, hpair⟩ := Option.map_eq_some_iff.mp hrun
  obtain ⟨hplace, halive⟩ := Prod.mk.inj hpair
  exact ⟨s, hs, shown_matrix_in_use binary32 false true bootPlain _ s hs hplace halive _ rfl
    (by decide) _⟩

/-- **The speed follows the configuration in use.** At every adjustment of a living daemon whose
matrix is in order, and in exact arithmetic, the speed that is written lies between the curve of the
latest configuration at the reading and the same curve at the reading raised by the hysteresis.
Nothing of an earlier configuration is left. -/
theorem speed_follows_current_curve (F : FloatFormat) (fork drmSupport : Bool) (boot : Boot)
    (events : List DaemonEvent) (s : Daemon)
    (hrun : Process.run (Daemon.step F) (.start fork drmSupport boot) events = some s)
    (hplace : s.place = .adjust) (halive : s.alive = true) (hordered : s.world.data.Ordered)
    (t : ℤ) (ht : 0 ≤ t) :
    ∃ v fanctrl', fanctrlDecide exactArith s.world.fanctrl t = .ok (v, fanctrl') ∧
      (∀ o, fanctrlAdjust exactArith o s.world.fanctrl t =
        (hwmonWritePwm o (fanctrlPercentageToPwm exactArith v), fanctrl')) ∧
      (s.world.data.curve hordered).eval t ≤ v.toNat ∧
      (v.toNat : ℤ) ≤
        (s.world.data.curve hordered).eval (t + s.world.data.hysteresis.toNat) := by
  obtain ⟨hpos, -, hconfigured⟩ :=
    Daemon.aliveInUse_run hrun halive (by simp [hplace]) (by simp [hplace])
  have hrows : s.world.fanctrl.rows ≠ 0 := by
    rw [hconfigured.rows]
    exact Nat.one_le_iff_ne_zero.mp hpos
  obtain ⟨v, fanctrl', hdecide⟩ := fanctrlDecide_total hrows ht
  exact ⟨v, fanctrl', hdecide, fanctrlAdjust_ok hdecide,
    fanctrlDecide_bounds hordered hconfigured hdecide⟩

/-- The first adjustment, at 65 degrees. -/
theorem speed_follows_current_curve_first :
    ∃ (s : Daemon) (hordered : s.world.data.Ordered) (v : UInt64) (fanctrl' : Fanctrl),
      Process.run (Daemon.step binary32) (.start false true bootPlain)
          [.init envPlain, .testAlive] = some s ∧
        fanctrlDecide exactArith s.world.fanctrl 65 = .ok (v, fanctrl') ∧
        (∀ o, fanctrlAdjust exactArith o s.world.fanctrl 65 =
          (hwmonWritePwm o (fanctrlPercentageToPwm exactArith v), fanctrl')) ∧
        (s.world.data.curve hordered).eval 65 ≤ v.toNat ∧
        (v.toNat : ℤ) ≤
          (s.world.data.curve hordered).eval (65 + s.world.data.hysteresis.toNat) := by
  have hrun : (Process.run (Daemon.step binary32) (.start false true bootPlain)
      [.init envPlain, .testAlive]).map
      (fun s => (s.place, s.alive, decide s.world.data.Ordered)) = some (.adjust, true, true) := by
    decide +kernel
  obtain ⟨s, hs, htriple⟩ := Option.map_eq_some_iff.mp hrun
  obtain ⟨hplace, hpair⟩ := Prod.mk.inj htriple
  obtain ⟨halive, hordered⟩ := Prod.mk.inj hpair
  obtain ⟨v, fanctrl', hdecide⟩ := speed_follows_current_curve binary32 false true bootPlain _ s hs
    hplace halive (of_decide_eq_true hordered) 65 (by decide)
  exact ⟨s, of_decide_eq_true hordered, v, fanctrl', hs, hdecide⟩

/-! ## Shutdown -/

/-- The place that a step of the program leaves -/
def DaemonEvent.place : DaemonEvent → Option Place
  | .signal _ => none
  | .init _ => some .start
  | .testAlive => some .testAlive
  | .adjust _ _ => some .adjust
  | .watchEvent _ _ _ => some .watchEvent
  | .pendingSignals _ => some .pendingSignals
  | .poll => some .poll
  | .free _ => some .free

/-- What a daemon that is not to go on passes through from a place -/
def Place.remaining : Place → List Place
  | .start => [.start, .testAlive, .free]
  | .testAlive => [.testAlive, .free]
  | .adjust => [.adjust, .watchEvent, .pendingSignals, .poll, .testAlive, .free]
  | .watchEvent => [.watchEvent, .pendingSignals, .poll, .testAlive, .free]
  | .pendingSignals => [.pendingSignals, .poll, .testAlive, .free]
  | .poll => [.poll, .testAlive, .free]
  | .free => [.free]
  | .returned => []

/-- A daemon that is not to go on stays so, and every step of the program takes it on. -/
theorem Daemon.step_remaining {F : FloatFormat} {s s' : Daemon} {e : DaemonEvent}
    (halive : s.alive = false) (h : s.step F e = some s') :
    s'.alive = false ∧ e.place.toList ++ s'.place.remaining = s.place.remaining := by
  cases e with
  | signal signal =>
    simp only [Daemon.step] at h
    split_ifs at h
    cases h
    obtain ⟨-, -, hat, -⟩ := s.daemonSighandler_same signal
    refine ⟨?_, by rw [hat]; rfl⟩
    by_contra hne
    rw [Bool.not_eq_false] at hne
    exact Bool.false_ne_true (halive.symm.trans (alive_daemonSighandler hne))
  | init env =>
    simp only [Daemon.step] at h
    split_ifs at h with hplace
    cases h
    rw [daemonInit, halive, hplace]
    exact ⟨rfl, rfl⟩
  | testAlive =>
    simp only [Daemon.step] at h
    by_cases hplace : s.place = .testAlive
    · rw [if_pos hplace] at h
      cases h
      -- the flag is clear, so the loop is left here
      rw [halive, hplace]
      exact ⟨rfl, rfl⟩
    · rw [if_neg hplace] at h
      cases h
  | adjust o temp =>
    simp only [Daemon.step] at h
    split_ifs at h with hplace
    cases h
    rw [daemonAdjustFanspeed, halive, hplace]
    exact ⟨rfl, rfl⟩
  | watchEvent triggered file tmpdata =>
    simp only [Daemon.step] at h
    split_ifs at h with hplace
    cases h
    rw [daemonWatchEvent, halive, hplace]
    split_ifs <;> exact ⟨rfl, rfl⟩
  | pendingSignals env =>
    simp only [Daemon.step] at h
    split_ifs at h with hplace
    cases h
    rw [daemonHandlePendingSignals, halive, hplace]
    split_ifs <;> exact ⟨rfl, rfl⟩
  | poll =>
    simp only [Daemon.step] at h
    split_ifs at h with hplace
    cases h
    rw [hplace]
    exact ⟨halive, rfl⟩
  | free env =>
    simp only [Daemon.step] at h
    split_ifs at h with hplace
    cases h
    rw [hplace]
    exact ⟨halive, rfl⟩

/-- **Shutdown.** Once `daemon_alive` has been cleared, the steps of the program that are left are
those of the round it is in: at most one adjustment, one reload, one restart and one poll, then
`daemon_free`, each once and in this order, however many signals arrive in between. -/
theorem shutdown_remaining (F : FloatFormat) (s s' : Daemon) (events : List DaemonEvent)
    (halive : s.alive = false) (hrun : Process.run (Daemon.step F) s events = some s') :
    s'.alive = false ∧
      events.filterMap DaemonEvent.place ++ s'.place.remaining = s.place.remaining := by
  induction events generalizing s with
  | nil =>
    cases hrun
    exact ⟨halive, rfl⟩
  | cons e events ih =>
    obtain ⟨s₁, hstep, hrest⟩ := Option.bind_eq_some_iff.mp hrun
    obtain ⟨halive₁, hfirst⟩ := Daemon.step_remaining halive hstep
    obtain ⟨halive', hothers⟩ := ih s₁ halive₁ hrest
    refine ⟨halive', ?_⟩
    rw [← hfirst, ← hothers, ← List.append_assoc]
    congr 1
    rw [List.filterMap_cons]
    cases e.place <;> rfl

/-- `SIGTERM` at the beginning of a round, and a second one in the middle. -/
theorem shutdown_remaining_adjust :
    ∃ s', Process.run (Daemon.step binary32)
        { Daemon.start false true bootPlain with place := .adjust, alive := false }
        [.adjust ⟨true, true⟩ 50, .signal .sigterm, .watchEvent false none .zero] = some s' ∧
      s'.alive = false ∧
        [Place.adjust, .watchEvent] ++ s'.place.remaining = Place.remaining .adjust := by
  obtain ⟨s', hs'⟩ := Option.isSome_iff_exists.mp (show (Process.run (Daemon.step binary32)
    { Daemon.start false true bootPlain with place := .adjust, alive := false }
    [.adjust ⟨true, true⟩ 50, .signal .sigterm, .watchEvent false none .zero]).isSome by
      decide +kernel)
  exact ⟨s', hs', shutdown_remaining binary32 _ s' _ rfl hs'⟩

end AmdgpuFand
