import AmdgpuFand.Config
import AmdgpuFand.Fanctrl
import AmdgpuFand.Lib.Process

/-!
# Starting and stopping the daemon

The model of `daemon_init` and `daemon_free` with what they call in `pidfile.c`, `server.c`,
`filesystem.c`, `hwmon.c` and `drm.c`: the working directory with the PID file and the socket, the
descriptor table, and the static variables that remember descriptors. Every directory entry and
every descriptor knows where it comes from, and closing and removing are recorded, so that one can
say what a run has done to things that are not its own.

Whether the kernel carries out a call is up to `refused`. A call that is not refused still fails if
the state does not admit it (`mkdir` on a path that exists, `unlink` of a file that does not). The
directory and the file of the cache, which are never removed, are left out.

The process has descriptors besides those modelled: the connection that `syslog` opens with the
first message and `closelog` closes, and those of clients that `server_poll` accepted but could not
fork for. Their numbers are up to `others`; a new descriptor gets the lowest number that is neither
in the table nor one of these.
-/

namespace AmdgpuFand

/-! ## The world -/

/-- Whose a directory entry is -/
inductive Owner
  | foreign
  | own
  deriving DecidableEq, Repr

/-- The files in the working directory: `FAND_PIDFILE_PATH` and `DAEMON_SERVER_SOCKET` -/
inductive File
  | pid
  | sock
  deriving DecidableEq, Repr

/-- The calls of `daemon_init` and `daemon_free` that can fail. For those that come in groups
without effect in between, one name stands for the group. -/
inductive Call
  | sigaction | fork | setsid | forkAgain | mkdir
  | pidOpen | pidOpenExisting | pidWrite | pidChmod
  | chdir | configOpen
  | socket | bind | sockChmod | listen | unlinkBound
  | watchPath | inotifyInit | inotifyAddWatch
  | cacheOpen | cacheRead | cardIndex | ifaceDir | cacheCreate | cacheStore
  | pwmEnableOpen | pwmEnableWrite
  | drmRegcomp | drmDir | drmEntry | drmOpen
  | inotifyRmWatch | watchClose | pollfdClose | unlink (file : File) | rmdir
  | pwmEnableRelease | pwmEnableClose
  deriving DecidableEq, Repr

/-- Where a descriptor comes from: it was open when `daemon_main` was called, it is the copy of one
that `fork` made, or a call of this run returned it. -/
inductive Origin
  | inherited
  | forked
  | opened (call : Call) (id : ℕ)
  deriving DecidableEq, Repr

/-- The directory entries that the daemon removes -/
inductive Entry
  | dir
  | file (file : File)
  deriving DecidableEq, Repr

/-- `DAEMON_WORKING_DIR` with the PID file, the socket, and whether there is anything else in it -/
structure WorkDir where
  owner : Owner
  pid : Option Owner
  sock : Option Owner
  others : Bool
  deriving DecidableEq, Repr

namespace WorkDir

/-- Whose a file is, if it is there -/
def file (d : WorkDir) : File → Option Owner
  | .pid => d.pid
  | .sock => d.sock

/-- The directory without a file -/
def erase (d : WorkDir) : File → WorkDir
  | .pid => { d with pid := none }
  | .sock => { d with sock := none }

end WorkDir

/-- `PWM_MODE_MANUAL` and `PWM_MODE_AUTO` -/
inductive PwmMode
  | manual
  | auto
  deriving DecidableEq, Repr

/-- The state of the process and of the part of the file system that it changes -/
structure World where
  dir : Option WorkDir
  /-- the descriptor table -/
  fds : List (Option Origin)
  /-- the descriptors that have been opened, the last one first -/
  obtained : List Origin
  /-- `pollfd.fd` of the server -/
  pollfd : ℤ
  /-- `watch.fd` and `watch.wd` of `daemon_main` -/
  watchFd : ℤ
  watchWd : ℤ
  /-- `hwmon_pwm_enable_fd` -/
  hwmonPwmEnableFd : ℤ
  /-- `drm_fd` -/
  drmFd : ℤ
  /-- `data` of `daemon_main` -/
  data : FandConfig
  /-- the static variables of the fan controller -/
  fanctrl : Fanctrl
  /-- the descriptors that have been closed, the last one first -/
  closed : List Origin
  /-- the numbers that have been closed and not been returned by a call since -/
  closedFds : List ℕ
  /-- the numbers of these that `daemon_free` has written to or closed -/
  reused : List ℕ
  /-- the entries that have been removed, the last one first -/
  removed : List (Entry × Owner)
  /-- the values written to `pwm1_enable`, the last one first -/
  pwmEnable : List PwmMode

namespace World

/-- The object behind a descriptor -/
def fd (w : World) (k : ℕ) : Option Origin :=
  Process.fd w.fds k

/-- A new descriptor for a call, where `others` are the numbers taken otherwise -/
def openFd (w : World) (others : List ℕ) (call : Call) : ℕ × World :=
  let k := Process.lowest others w.fds
  let origin := .opened call w.obtained.length
  (k, { w with
    fds := Process.opened w.fds k origin
    obtained := origin :: w.obtained
    closedFds := w.closedFds.filter (· ≠ k) })

/-- `close`; nothing happens unless the descriptor is open. An open descriptor is closed even if the
call reports an error. -/
def close (w : World) (n : ℤ) : World :=
  match n with
  | .negSucc _ => w
  | .ofNat k =>
    match w.fd k with
    | none => w
    | some origin =>
      { w with
        fds := Process.closed w.fds k
        closed := origin :: w.closed
        closedFds := k :: w.closedFds }

/-- `daemon_free` makes use of a descriptor number. -/
def use (w : World) (n : ℤ) : World :=
  match n with
  | .negSucc _ => w
  | .ofNat k => if k ∈ w.closedFds then { w with reused := k :: w.reused } else w

/-- `close` in `daemon_free` -/
def release (w : World) (n : ℤ) : World :=
  (w.use n).close n

/-- A descriptor is open. -/
def isOpen (w : World) (n : ℤ) : Bool :=
  match n with
  | .negSucc _ => false
  | .ofNat k => (w.fd k).isSome

/-- A descriptor is one of `pwm1_enable`. -/
def isPwmEnable (w : World) (n : ℤ) : Bool :=
  match n with
  | .negSucc _ => false
  | .ofNat k =>
    match w.fd k with
    | some (.opened .pwmEnableOpen _) => true
    | _ => false

/-- The process is now a child of the one before: its descriptors are copies. -/
def forked (w : World) : World :=
  { w with fds := w.fds.map (Option.map fun _ => .forked) }

/-- `for(int fd = n; fd >= 0; --fd) close(fd);` -/
def closeAll : ℕ → World → World
  | 0, w => w.close 0
  | n + 1, w => closeAll n (w.close (n + 1))

/-- `unlink` of a file, when it is there -/
def unlink (w : World) (file : File) : Bool × World :=
  match w.dir with
  | none => (false, w)
  | some d =>
    match d.file file with
    | none => (false, w)
    | some owner =>
      (true, { w with
        dir := some (d.erase file)
        removed := (.file file, owner) :: w.removed })

/-- `rmdir`, when the directory is empty -/
def rmdir (w : World) : Bool × World :=
  match w.dir with
  | none => (false, w)
  | some d =>
    if d.pid.isSome ∨ d.sock.isSome ∨ d.others then (false, w)
    else (true, { w with dir := none, removed := (.dir, d.owner) :: w.removed })

end World

/-- What `daemon_init` and `daemon_free` find: their arguments and how the system behaves -/
structure Env where
  /-- the argument `fork` -/
  fork : Bool
  /-- `FAND_DRM_SUPPORT` -/
  drmSupport : Bool
  /-- `sysconf(_SC_OPEN_MAX)` -/
  openMax : ℕ
  /-- the configuration file; `none` if it cannot be opened -/
  config : Option (List Char)
  /-- the calls that the system does not carry out -/
  refused : Call → Bool
  /-- the numbers of the descriptors that are not modelled, when a call is made -/
  others : Call → List ℕ

namespace Env

variable (env : Env)

/-- A call that returns a new descriptor -/
def openFd (call : Call) (w : World) : ℕ × World :=
  w.openFd (env.others call) call

/-- A descriptor is opened and closed again. -/
def useFd (call : Call) (w : World) : World :=
  (env.openFd call w).2.close (env.openFd call w).1

/-! ## `daemon_init`

A step returns whether it succeeded. -/

/-- `daemon_set_sigacts` -/
def daemonSetSigacts (w : World) : Bool × World :=
  (!env.refused .sigaction, w)

/-- `daemon_fork`, in the process that goes on -/
def daemonFork (w : World) : Bool × World :=
  if env.refused .fork then (false, w)
  else if env.refused .setsid then (false, w.forked)
  else if env.refused .forkAgain then (false, w.forked)
  else (true, w.forked.forked.closeAll env.openMax)

/-- `fork && daemon_fork()` -/
def maybeFork (w : World) : Bool × World :=
  if env.fork then env.daemonFork w else (true, w)

/-- `mkdir(DAEMON_WORKING_DIR, …)` -/
def mkdir (w : World) : Bool × World :=
  if env.refused .mkdir ∨ w.dir.isSome then (false, w)
  else (true, { w with dir := some ⟨.own, none, none, false⟩ })

/-- `pidfile_write` -/
def pidfileWrite (w : World) : Bool × World :=
  match w.dir with
  | none => (false, w)
  | some d =>
    if env.refused .pidOpen then (false, w)
    else if d.pid.isSome then
      -- `pidfile_get_existing`, for the message
      (false, if env.refused .pidOpenExisting then w else env.useFd .pidOpenExisting w)
    else
      let w := env.useFd .pidOpen { w with dir := some { d with pid := some .own } }
      (!env.refused .pidWrite && !env.refused .pidChmod, w)

/-- `chdir(DAEMON_WORKING_DIR)` -/
def chdir (w : World) : Bool × World :=
  (w.dir.isSome && !env.refused .chdir, w)

/-- `config_parse(config, data)` -/
def configParse (w : World) : Bool × World :=
  let (status, data) := AmdgpuFand.configParse env.config w.data
  (status == 0, { if env.config.isSome then env.useFd .configOpen w else w with data })

/-- `server_init` -/
def serverInit (w : World) : Bool × World :=
  if env.refused .socket then (false, w)
  else
    let srvfd := (env.openFd .socket w).1
    let w := (env.openFd .socket w).2
    match w.dir with
    | none => (false, w.close srvfd)
    | some d =>
      if d.sock.isSome ∨ env.refused .bind then (false, w.close srvfd)
      else
        let w := { w with dir := some { d with sock := some .own } }
        if env.refused .sockChmod ∨ env.refused .listen then
          (false, (if env.refused .unlinkBound then w else (w.unlink .sock).2).close srvfd)
        else (true, { w with pollfd := srvfd })

/-- `fsys_watch_init` -/
def fsysWatchInit (w : World) : Bool × World :=
  if env.refused .watchPath ∨ env.refused .inotifyInit then (false, w)
  else
    let fd := (env.openFd .inotifyInit w).1
    let w := (env.openFd .inotifyInit w).2
    if env.refused .inotifyAddWatch then (false, w.close fd)
    else (true, { w with watchFd := fd, watchWd := 1 })

/-- `hwmon_set_pwm_mode_manual` -/
def hwmonSetPwmModeManual (w : World) : Bool × World :=
  if env.refused .pwmEnableOpen then (false, { w with hwmonPwmEnableFd := -1 })
  else
    let fd := (env.openFd .pwmEnableOpen w).1
    let w := (env.openFd .pwmEnableOpen w).2
    let w := { w with hwmonPwmEnableFd := fd }
    if env.refused .pwmEnableWrite then (false, w)
    else (true, { w with pwmEnable := .manual :: w.pwmEnable })

/-- A file or directory is opened, and if that works, something is done with it before it is
closed again. -/
def useFile (opening use : Call) (w : World) : Bool × World :=
  if env.refused opening then (false, w) else (!env.refused use, env.useFd opening w)

/-- `cache_load` -/
def cacheLoad (w : World) : Bool × World :=
  env.useFile .cacheOpen .cacheRead w

/-- `hwmon_set_sysfs_paths` -/
def hwmonSetSysfsPaths (w : World) : Bool × World :=
  env.useFile .cardIndex .ifaceDir w

/-- `cache_write` -/
def cacheWrite (w : World) : Bool × World :=
  env.useFile .cacheCreate .cacheStore w

/-- `hwmon_open` -/
def hwmonOpen (w : World) : Bool × World :=
  match env.cacheLoad w with
  | (true, w) => env.hwmonSetPwmModeManual w
  | (false, w) =>
    Process.runSteps [env.hwmonSetSysfsPaths, env.cacheWrite, env.hwmonSetPwmModeManual] w

/-- `drm_open`. Without a matching entry `drm_fd` keeps its value. -/
def drmOpen (w : World) : Bool × World :=
  if env.refused .drmRegcomp then (false, w)
  else
    let dir := (env.openFd .drmDir w).1
    let w := (env.openFd .drmDir w).2
    let w :=
      if env.refused .drmEntry then w
      else if env.refused .drmOpen then { w with drmFd := -1 }
      else { (env.openFd .drmOpen w).2 with drmFd := (env.openFd .drmOpen w).1 }
    (w.drmFd ≥ 0, w.close dir)

/-- `fanctrl_init` -/
def fanctrlInit (w : World) : Bool × World :=
  Process.runSteps (if env.drmSupport then [env.hwmonOpen, env.drmOpen] else [env.hwmonOpen]) w

/-- `fanctrl_configure(data)` -/
def configure (w : World) : Bool × World :=
  let (status, fanctrl) := fanctrlConfigure w.data w.fanctrl
  (status ≥ 0, { w with fanctrl })

/-- The steps of `daemon_init` up to the server -/
def stepsToServer : List (World → Bool × World) :=
  [env.daemonSetSigacts, env.maybeFork, env.mkdir, env.pidfileWrite, env.chdir, env.configParse,
    env.serverInit]

/-- The steps of `daemon_init` behind the server -/
def stepsBehindServer : List (World → Bool × World) :=
  [env.fsysWatchInit, env.fanctrlInit, configure]

/-- `daemon_init` -/
def daemonInit (w : World) : Bool × World :=
  Process.runSteps (env.stepsToServer ++ env.stepsBehindServer) w

/-! ## `daemon_free` -/

/-- `fsys_watch_clear` -/
def fsysWatchClear (w : World) : Bool × World :=
  if w.watchFd = -1 ∧ w.watchWd = -1 then (true, w)
  else
    (!env.refused .inotifyRmWatch && w.isOpen w.watchFd && !env.refused .watchClose,
      w.release w.watchFd)

/-- `unlink` in `server_kill` and `pidfile_unlink` -/
def unlink (file : File) (w : World) : Bool × World :=
  if env.refused (.unlink file) then (false, w) else w.unlink file

/-- `server_kill` -/
def serverKill (w : World) : Bool × World :=
  let (unlinked, w') := env.unlink .sock (w.release w.pollfd)
  (w.isOpen w.pollfd && !env.refused .pollfdClose && unlinked, w')

/-- `pidfile_unlink` -/
def pidfileUnlink (w : World) : Bool × World :=
  env.unlink .pid w

/-- `rmdir(DAEMON_WORKING_DIR)` -/
def rmdir (w : World) : Bool × World :=
  if env.refused .rmdir then (false, w) else w.rmdir

/-- `hwmon_close`. The value goes to whatever file the descriptor is of. -/
def hwmonClose (w : World) : Bool × World :=
  if w.hwmonPwmEnableFd = -1 then (true, w)
  else
    let isOpen := w.isOpen w.hwmonPwmEnableFd
    let w := w.use w.hwmonPwmEnableFd
    let w :=
      if w.isPwmEnable w.hwmonPwmEnableFd ∧ ¬ env.refused .pwmEnableRelease then
        { w with pwmEnable := .auto :: w.pwmEnable }
      else w
    (isOpen && !env.refused .pwmEnableClose, w.close w.hwmonPwmEnableFd)

/-- `fanctrl_release` -/
def fanctrlRelease (w : World) : Bool × World :=
  env.hwmonClose (if env.drmSupport then w.release w.drmFd else w)

/-- `daemon_free` -/
def daemonFree (w : World) : Bool × World :=
  let (watch, w) := env.fsysWatchClear w
  let (server, w) := env.serverKill w
  let (pid, w) := env.pidfileUnlink w
  let (dir, w) := env.rmdir w
  let (fans, w) := env.fanctrlRelease w
  (watch && server && pid && dir && fans, w)

/-! ## What the operations keep -/

variable {inv : World → Prop} {w : World}

/-- What a fork and the closing of all descriptors keep holds in the process that goes on. -/
theorem maybeFork_keeps (hforked : ∀ w, inv w → inv w.forked)
    (hclose : ∀ w, inv w → inv (w.closeAll env.openMax)) (hw : inv w) :
    inv (env.maybeFork w).2 := by
  unfold maybeFork daemonFork
  split_ifs
  · exact hw
  · exact hforked w hw
  · exact hforked w hw
  · exact hclose _ (hforked _ (hforked w hw))
  · exact hw

/-- What the use of a descriptor keeps holds behind a file that is opened, used and closed. -/
theorem useFile_keeps (huse : ∀ call w, inv w → inv (env.useFd call w)) (opening use : Call)
    (hw : inv w) : inv (env.useFile opening use w).2 := by
  unfold useFile
  split
  · exact hw
  · exact huse opening w hw

end Env

end AmdgpuFand
