import AmdgpuFand.Running
import Mathlib.Logic.Function.Basic

/-!
# Several instances

Nothing but `DAEMON_WORKING_DIR` keeps two daemons from controlling the same fan: `mkdir` fails if
the directory exists, and so does the start. Here any number of instances are started and stopped,
and one call of one instance follows another in any order. Each instance goes through the steps of
`daemon_init` and `daemon_free` as they are, in a world of its own, but all of them see the same
directory.

The directory works as a lock for the instances that have made it (`one_instance`). But an instance
that fails before it has done so goes through `daemon_free` like any other, and unlocks what
another instance has locked (`failed_start_unlocks`).
-/

namespace AmdgpuFand

open Process

/-! ## The directory -/

/-- `DAEMON_WORKING_DIR` as it is. Every entry has been made by some instance. -/
structure SharedDir where
  maker : ℕ
  pid : Option ℕ
  sock : Option ℕ
  others : Bool

/-- An entry as an instance sees it -/
def ownerFor (k maker : ℕ) : Owner := if maker = k then .own else .foreign

/-- Who has made an entry that an instance leaves, if there was one before -/
def makerFor (k : ℕ) (before : Option ℕ) : Owner → ℕ
  | .own => k
  | .foreign => before.getD k

namespace SharedDir

/-- The directory as an instance sees it -/
def seenBy (d : SharedDir) (k : ℕ) : WorkDir where
  owner := ownerFor k d.maker
  pid := d.pid.map (ownerFor k)
  sock := d.sock.map (ownerFor k)
  others := d.others

/-- The directory as an instance leaves it -/
def leftBy (k : ℕ) (before : Option SharedDir) (d : WorkDir) : SharedDir where
  maker := makerFor k (before.map maker) d.owner
  pid := d.pid.map (makerFor k (before.bind pid))
  sock := d.sock.map (makerFor k (before.bind sock))
  others := d.others

/-- The directory is an instance's, with what is in it. -/
structure BelongsTo (d : SharedDir) (k : ℕ) : Prop where
  maker : d.maker = k
  pid : ∀ j ∈ d.pid, j = k
  sock : ∀ j ∈ d.sock, j = k

variable {k : ℕ}

theorem makerFor_ownerFor (k j : ℕ) : makerFor k (some j) (ownerFor k j) = j := by
  by_cases hj : j = k
  · rw [ownerFor, if_pos hj, makerFor, hj]
  · rw [ownerFor, if_neg hj]
    rfl

/-- An instance that changes nothing leaves the directory as it is. -/
theorem leftBy_seenBy (d : SharedDir) (k : ℕ) : leftBy k (some d) (d.seenBy k) = d := by
  have hfile : ∀ file : Option ℕ,
      (file.map (ownerFor k)).map (makerFor k file) = file := by
    intro file
    rcases file with _ | j
    · rfl
    · rw [Option.map_some, Option.map_some, makerFor_ownerFor]
  rw [leftBy, seenBy]
  dsimp only
  rw [Option.map_some, makerFor_ownerFor]
  change SharedDir.mk _ ((d.pid.map (ownerFor k)).map (makerFor k d.pid))
    ((d.sock.map (ownerFor k)).map (makerFor k d.sock)) _ = d
  rw [hfile, hfile]

/-- An instance that does nothing leaves the directory as it is. -/
theorem map_leftBy_seenBy (dir : Option SharedDir) (k : ℕ) :
    (dir.map (·.seenBy k)).map (leftBy k dir) = dir := by
  rcases dir with _ | d
  · rfl
  · rw [Option.map_some, Option.map_some, leftBy_seenBy]

/-- A directory that belongs to an instance is its own in the eyes of that instance. -/
theorem BelongsTo.isOwn {d : SharedDir} (h : d.BelongsTo k) : (d.seenBy k).IsOwn := by
  have hfile : ∀ file : Option ℕ, (∀ j ∈ file, j = k) →
      ∀ owner ∈ file.map (ownerFor k), owner = .own := by
    rintro (_ | j) hj owner howner
    · cases howner
    · rw [hj j rfl, Option.map_some] at howner
      rw [← Option.some.inj howner, ownerFor, if_pos rfl]
  refine ⟨by rw [seenBy, h.maker, ownerFor, if_pos rfl], fun file => ?_⟩
  cases file with
  | pid => exact hfile d.pid h.pid
  | sock => exact hfile d.sock h.sock

theorem belongsTo_leftBy {before : Option SharedDir} {d : WorkDir} (h : d.IsOwn) :
    (leftBy k before d).BelongsTo k := by
  have hfile : ∀ (file : Option Owner) (made : Option ℕ), (∀ owner ∈ file, owner = .own) →
      ∀ j ∈ file.map (makerFor k made), j = k := by
    rintro (_ | owner) made howner j hj
    · cases hj
    · rw [howner owner rfl, Option.map_some] at hj
      exact (Option.some.inj hj).symm
  refine ⟨by rw [leftBy, h.owner]; rfl, ?_, ?_⟩
  · exact hfile d.pid _ (h.files .pid)
  · exact hfile d.sock _ (h.files .sock)

end SharedDir

/-! ## The instances -/

/-- Where an instance is: in `daemon_init` or `daemon_free`, with so many calls behind it, in its
loop, or at its end -/
inductive Phase
  | starting (done : ℕ)
  | looping
  | freeing (done : ℕ) (restart : Bool)
  | gone
  deriving DecidableEq

/-- The calls of `daemon_init` -/
def Env.initSteps (env : Env) : List (World → Bool × World) :=
  env.stepsToServer ++ env.stepsBehindServer

/-- The calls of `daemon_free` -/
def Env.freeSteps (env : Env) : List (World → Bool × World) :=
  [env.fsysWatchClear, env.serverKill, env.pidfileUnlink, env.rmdir, env.fanctrlRelease]

/-- `daemon_free` goes through all of them, whether they fail or not. -/
theorem Env.daemonFree_eq (env : Env) (w : World) :
    (env.daemonFree w).2 = env.freeSteps.foldl (fun w step => (step w).2) w := rfl

/-- The directory, and where each instance is that has been launched -/
structure Instances where
  dir : Option SharedDir
  phase : ℕ → Option Phase
  world : ℕ → World

/-- What happens. The kernel and the configuration may behave differently at every call, and what
an instance has made of its own state when it leaves its loop is arbitrary. -/
inductive InstanceEvent
  /-- a process with these descriptors calls `daemon_main` -/
  | launch (k : ℕ) (fds : List Bool)
  /-- the next call of `daemon_init` or `daemon_free` -/
  | turn (k : ℕ) (env : Env)
  /-- an instance leaves its loop, or calls `daemon_restart` -/
  | leave (k : ℕ) (w : World) (restart : Bool)

namespace Instances

/-- Before the first instance -/
def idle (dir : Option SharedDir) : Instances :=
  ⟨dir, fun _ => none, fun _ => (Boot.mk none []).world⟩

/-- An instance that goes on -/
def goTo (s : Instances) (k : ℕ) (phase : Phase) : Instances :=
  { s with phase := Function.update s.phase k (some phase) }

/-- The world of an instance, with the directory that it sees -/
def view (s : Instances) (k : ℕ) : World :=
  { s.world k with dir := s.dir.map (·.seenBy k) }

/-- What a call leaves -/
def called (s : Instances) (k : ℕ) (w : World) : Instances :=
  { s with
    dir := w.dir.map (SharedDir.leftBy k s.dir)
    world := Function.update s.world k w }

/-- The next call of an instance. When all calls are behind it, it enters the loop, starts again or
ends. A call of `daemon_init` that fails leads to `daemon_free`. -/
def turn (s : Instances) (k : ℕ) (env : Env) : Option Instances :=
  match s.phase k with
  | some (.starting done) =>
    match env.initSteps[done]? with
    | some step =>
      let (ok, w) := step (s.view k)
      some ((s.called k w).goTo k (if ok then .starting (done + 1) else .freeing 0 false))
    | none => some (s.goTo k .looping)
  | some (.freeing done restart) =>
    match env.freeSteps[done]? with
    | some step => some ((s.called k (step (s.view k)).2).goTo k (.freeing (done + 1) restart))
    | none => some (s.goTo k (if restart then .starting 0 else .gone))
  | _ => none

/-- One event. A number stands for one process. -/
def step (s : Instances) : InstanceEvent → Option Instances
  | .launch k fds =>
    if (s.phase k).isSome then none
    else
      some ({ s with world := Function.update s.world k (Boot.mk none fds).world }.goTo k
        (.starting 0))
  | .turn k env => s.turn k env
  | .leave k w restart =>
    match s.phase k with
    | some .looping =>
      some ({ s with world := Function.update s.world k w }.goTo k (.freeing 0 restart))
    | _ => none

/-- A start does not fail before it has made the directory. -/
def gentle (s : Instances) : InstanceEvent → Bool
  | .turn k env =>
    match s.phase k with
    | some (.starting done) =>
      2 < done || (env.initSteps[done]?).all fun step => (step (s.view k)).1
    | _ => true
  | _ => true

/-- In a gentle turn the first steps of a start succeed. -/
theorem gentle_turn {s : Instances} {k done : ℕ} {env : Env} {step : World → Bool × World}
    (h : s.gentle (.turn k env) = true) (hphase : s.phase k = some (.starting done))
    (hdone : done ≤ 2) (hstep : env.initSteps[done]? = some step) :
    (step (s.view k)).1 = true := by
  rw [gentle, hphase] at h
  dsimp only at h
  rw [hstep, Option.all_some, Bool.or_eq_true] at h
  exact h.resolve_left (by simpa using hdone)

end Instances

/-! ## What the calls do to the directory -/

namespace World

variable (w : World) (n : ℤ)

theorem dir_close : (w.close n).dir = w.dir := by
  rw [close_eq]

theorem dir_release : (w.release n).dir = w.dir := by
  rw [release_eq]

theorem dir_use : (w.use n).dir = w.dir := by
  rw [use_eq]

/-- `unlink` keeps a directory the process's own. -/
theorem own_unlink {w : World} {d : WorkDir} (hdir : w.dir = some d) (hown : d.IsOwn)
    (file : File) : ∃ d', (w.unlink file).2.dir = some d' ∧ d'.IsOwn := by
  rw [unlink, hdir]
  dsimp only
  rcases d.file file with _ | owner
  · exact ⟨d, hdir, hown⟩
  · exact ⟨d.erase file, rfl, hown.erase file⟩

end World

namespace Env

open World

variable (env : Env) {w : World} {d : WorkDir}

theorem dir_useFd (call : Call) (w : World) : (env.useFd call w).dir = w.dir :=
  congrArg Prod.fst (env.base_useFd w call)

theorem dir_maybeFork (w : World) : (env.maybeFork w).2.dir = w.dir := by
  have hsweep : ∀ (max : ℕ) (w' : World), (w'.closeAll max).dir = w'.dir := by
    intro max
    induction max with
    | zero => exact fun w' => dir_close w' 0
    | succ max ih => exact fun w' => (ih _).trans (dir_close w' _)
  exact @maybeFork_keeps env (fun w' => w'.dir = w.dir) w (fun _ hw' => hw')
    (fun w' hw' => (hsweep _ w').trans hw') rfl

/-- `mkdir` succeeds if there is no directory. -/
theorem mkdir_made (h : (env.mkdir w).1 = true) :
    w.dir = none ∧ (env.mkdir w).2.dir = some ⟨.own, none, none, false⟩ := by
  rw [mkdir] at h ⊢
  by_cases hfail : env.refused .mkdir = true ∨ w.dir.isSome = true
  · rw [if_pos hfail] at h
    cases h
  · rw [if_neg hfail]
    exact ⟨Option.not_isSome_iff_eq_none.mp (not_or.mp hfail).2, rfl⟩

/-- `pidfile_write` keeps a directory the process's own, and succeeds if the PID file is. -/
theorem own_pidfileWrite (hdir : w.dir = some d) (hown : d.IsOwn) :
    ∃ d', (env.pidfileWrite w).2.dir = some d' ∧ d'.IsOwn ∧ d'.sock = d.sock ∧
      ((env.pidfileWrite w).1 = true → d'.pid = some .own) := by
  rw [pidfileWrite, hdir]
  dsimp only
  by_cases hopen : env.refused .pidOpen = true
  · rw [if_pos hopen]
    exact ⟨d, hdir, hown, rfl, fun h => by cases h⟩
  rw [if_neg hopen]
  by_cases hpid : d.pid.isSome = true
  · rw [if_pos hpid]
    refine ⟨d, ?_, hown, rfl, fun h => by cases h⟩
    dsimp only
    split
    · exact hdir
    · rw [dir_useFd, hdir]
  · rw [if_neg hpid]
    refine ⟨{ d with pid := some .own }, ?_, ⟨hown.owner, fun file => ?_⟩, rfl, fun _ => rfl⟩
    · rw [dir_useFd]
    · cases file with
      | pid => exact fun owner howner => (Option.some.inj howner).symm
      | sock => exact hown.files .sock

theorem dir_configParse (w : World) : (env.configParse w).2.dir = w.dir := by
  rw [configParse]
  dsimp only
  split
  · exact env.dir_useFd _ w
  · rfl

/-- `server_init` keeps a directory the process's own, and succeeds if the socket is. -/
theorem own_serverInit (hdir : w.dir = some d) (hown : d.IsOwn) :
    ∃ d', (env.serverInit w).2.dir = some d' ∧ d'.IsOwn ∧ d'.pid = d.pid ∧
      ((env.serverInit w).1 = true → d'.sock = some .own) := by
  rw [serverInit]
  by_cases hsocket : env.refused .socket = true
  · rw [if_pos hsocket]
    exact ⟨d, hdir, hown, rfl, fun h => by cases h⟩
  rw [if_neg hsocket]
  dsimp only
  have hdir' : (env.openFd .socket w).2.dir = some d := hdir
  rw [hdir']
  dsimp only
  by_cases hbind : d.sock.isSome = true ∨ env.refused .bind = true
  · rw [if_pos hbind]
    exact ⟨d, (dir_close ..).trans hdir', hown, rfl, fun h => by cases h⟩
  rw [if_neg hbind]
  have hbound : WorkDir.IsOwn { d with sock := some .own } := by
    refine ⟨hown.owner, fun file => ?_⟩
    cases file with
    | pid => exact hown.files .pid
    | sock => exact fun owner howner => (Option.some.inj howner).symm
  by_cases hfail : env.refused .sockChmod = true ∨ env.refused .listen = true
  · rw [if_pos hfail]
    dsimp only
    rw [dir_close]
    split
    · exact ⟨_, rfl, hbound, rfl, fun h => by cases h⟩
    · exact ⟨_, rfl, hbound.erase .sock, rfl, fun h => by cases h⟩
  · rw [if_neg hfail]
    exact ⟨_, rfl, hbound, rfl, fun _ => rfl⟩

/-- Behind `mkdir`, every call of `daemon_init` keeps the directory the process's own. The PID file
is there behind the fourth call, and the socket behind the seventh. -/
theorem own_initSteps {done : ℕ} {step : World → Bool × World}
    (hstep : env.initSteps[done]? = some step) (hdone : 3 ≤ done) (hdir : w.dir = some d)
    (hown : d.IsOwn) :
    ∃ d', (step w).2.dir = some d' ∧ d'.IsOwn ∧
      ((step w).1 = true → (done = 3 ∨ d.pid = some .own → d'.pid = some .own) ∧
        (done = 6 ∨ d.sock = some .own → d'.sock = some .own)) := by
  -- only `pidfile_write` and `server_init` change the directory
  have hsame : ∀ {w' : World}, w'.dir = w.dir → done ≠ 3 → done ≠ 6 →
      ∃ d', w'.dir = some d' ∧ d'.IsOwn ∧
        ((step w).1 = true → (done = 3 ∨ d.pid = some .own → d'.pid = some .own) ∧
          (done = 6 ∨ d.sock = some .own → d'.sock = some .own)) := by
    intro w' hw' hthree hsix
    exact ⟨d, hw'.trans hdir, hown, fun _ =>
      ⟨fun h => h.resolve_left hthree, fun h => h.resolve_left hsix⟩⟩
  obtain ⟨k, rfl⟩ := Nat.exists_eq_add_of_le' hdone
  match k with
  | 0 =>
    obtain rfl := Option.some.inj hstep
    obtain ⟨d', hdir', hown', hsock, hpid⟩ := env.own_pidfileWrite hdir hown
    refine ⟨d', hdir', hown', fun h => ⟨fun _ => hpid h, fun hcase => ?_⟩⟩
    rw [hsock]
    exact hcase.resolve_left (by decide)
  | 1 =>
    obtain rfl := Option.some.inj hstep
    exact hsame rfl (by decide) (by decide)
  | 2 =>
    obtain rfl := Option.some.inj hstep
    exact hsame (env.dir_configParse w) (by decide) (by decide)
  | 3 =>
    obtain rfl := Option.some.inj hstep
    obtain ⟨d', hdir', hown', hpid, hsock⟩ := env.own_serverInit hdir hown
    refine ⟨d', hdir', hown', fun h => ⟨fun hcase => ?_, fun _ => hsock h⟩⟩
    rw [hpid]
    exact hcase.resolve_left (by decide)
  | 4 =>
    obtain rfl := Option.some.inj hstep
    exact hsame (congrArg Prod.fst (env.base_fsysWatchInit w)) (by decide) (by decide)
  | 5 =>
    obtain rfl := Option.some.inj hstep
    exact hsame (congrArg Prod.fst (env.base_fanctrlInit w)) (by decide) (by decide)
  | 6 =>
    obtain rfl := Option.some.inj hstep
    exact hsame rfl (by decide) (by decide)
  | k + 7 => cases hstep

/-- Up to `rmdir`, the calls of `daemon_free` keep the directory the process's own. -/
theorem own_freeSteps {done : ℕ} {step : World → Bool × World}
    (hstep : env.freeSteps[done]? = some step) (hdone : done ≤ 2) (hdir : w.dir = some d)
    (hown : d.IsOwn) : ∃ d', (step w).2.dir = some d' ∧ d'.IsOwn := by
  have hunlink : ∀ {w : World} (file : File), w.dir = some d →
      ∃ d', (env.unlink file w).2.dir = some d' ∧ d'.IsOwn := by
    intro w file hdir
    rw [unlink]
    split
    · exact ⟨d, hdir, hown⟩
    · exact own_unlink hdir hown file
  match done with
  | 0 =>
    obtain rfl := Option.some.inj hstep
    refine ⟨d, ?_, hown⟩
    rw [fsysWatchClear]
    split
    · exact hdir
    · exact (dir_release ..).trans hdir
  | 1 =>
    obtain rfl := Option.some.inj hstep
    exact hunlink .sock ((dir_release ..).trans hdir)
  | 2 =>
    obtain rfl := Option.some.inj hstep
    exact hunlink .pid hdir
  | done + 3 => exact absurd hdone (by omega)

theorem dir_fanctrlRelease (w : World) : (env.fanctrlRelease w).2.dir = w.dir := by
  have hclose : ∀ w' : World, (env.hwmonClose w').2.dir = w'.dir := by
    intro w'
    rw [hwmonClose]
    split
    · rfl
    · dsimp only
      rw [dir_close]
      split <;> exact dir_use ..
  rw [fanctrlRelease, hclose]
  split
  · exact dir_release ..
  · rfl

end Env

/-! ## Who has the directory -/

namespace Phase

/-- Behind `mkdir`, and before `rmdir` -/
def Holds : Phase → Prop
  | starting done => 3 ≤ done
  | looping => True
  | freeing done _ => done ≤ 3
  | gone => False

/-- Behind `pidfile_write` -/
def HasPid : Phase → Prop
  | starting done => 4 ≤ done
  | looping => True
  | _ => False

/-- Behind `server_init` -/
def HasSock : Phase → Prop
  | starting done => 7 ≤ done
  | looping => True
  | _ => False

end Phase

/-- The directory is an instance's, with the files that it has at this phase. -/
structure SharedDir.Serves (d : SharedDir) (k : ℕ) (phase : Phase) : Prop extends
    d.BelongsTo k where
  has_pid : phase.HasPid → d.pid = some k
  has_sock : phase.HasSock → d.sock = some k

namespace Instances

/-- An instance behind `mkdir` has the directory. -/
def Locked (s : Instances) : Prop :=
  ∀ k phase, s.phase k = some phase → phase.Holds → ∃ d, s.dir = some d ∧ d.Serves k phase

variable {s s' : Instances} {k : ℕ}

/-- Only one instance at a time -/
theorem Locked.unique (hs : s.Locked) {i j : ℕ} {p q : Phase} (hi : s.phase i = some p)
    (hp : p.Holds) (hj : s.phase j = some q) (hq : q.Holds) : i = j := by
  obtain ⟨d, hd, hserves⟩ := hs i p hi hp
  obtain ⟨d', hd', hserves'⟩ := hs j q hj hq
  rw [hd] at hd'
  cases hd'
  exact hserves.maker.symm.trans hserves'.maker

/-- Before the first start there is nothing to serve. -/
theorem locked_idle (dir : Option SharedDir) : (idle dir).Locked := by
  intro k phase h
  cases h

@[simp] theorem dir_goTo (s : Instances) (k : ℕ) (phase : Phase) :
    (s.goTo k phase).dir = s.dir := rfl

/-- The others are where they were. -/
theorem phase_goTo (s : Instances) (k j : ℕ) (phase : Phase) :
    (s.goTo k phase).phase j = if j = k then some phase else s.phase j :=
  Function.update_apply ..

/-- A step of an instance that leaves the directory as it is -/
theorem Locked.goTo_same (hs : s.Locked) (hdir : s'.dir = s.dir) (hphase : s'.phase = s.phase)
    {phase : Phase} (hholds : phase.Holds → ∃ d, s.dir = some d ∧ d.Serves k phase) :
    (s'.goTo k phase).Locked := by
  intro j q hj hq
  rw [phase_goTo] at hj
  rw [dir_goTo, hdir]
  by_cases hjk : j = k
  · rw [if_pos hjk] at hj
    cases hj
    rw [hjk]
    exact hholds hq
  · rw [if_neg hjk, hphase] at hj
    exact hs j q hj hq

/-- A step of an instance that no other one stands in the way of -/
theorem Locked.goTo_alone (hs : ∀ j q, s.phase j = some q → q.Holds → j = k)
    (hphase : s'.phase = s.phase) {phase : Phase}
    (hholds : phase.Holds → ∃ d, s'.dir = some d ∧ d.Serves k phase) :
    (s'.goTo k phase).Locked := by
  intro j q hj hq
  rw [phase_goTo] at hj
  rw [dir_goTo]
  by_cases hjk : j = k
  · rw [if_pos hjk] at hj
    cases hj
    rw [hjk]
    exact hholds hq
  · rw [if_neg hjk, hphase] at hj
    exact absurd (hs j q hj hq) hjk

/-- The world of an instance, where the directory is its own -/
theorem view_own {d : SharedDir} (hdir : s.dir = some d) (hd : d.BelongsTo k) :
    (s.view k).dir = some (d.seenBy k) ∧ (d.seenBy k).IsOwn :=
  ⟨by rw [view, hdir, Option.map_some], hd.isOwn⟩

/-- The files that an instance sees as its own -/
theorem seenBy_file {d : SharedDir} :
    (d.pid = some k → (d.seenBy k).pid = some .own) ∧
      (d.sock = some k → (d.seenBy k).sock = some .own) := by
  have hself : ownerFor k k = .own := if_pos rfl
  refine ⟨fun h => ?_, fun h => ?_⟩
  · rw [SharedDir.seenBy, h, Option.map_some, hself]
  · rw [SharedDir.seenBy, h, Option.map_some, hself]

/-- A call that changes nothing in the directory -/
theorem dir_called_same {w : World} (h : w.dir = (s.view k).dir) : (s.called k w).dir = s.dir := by
  rw [called, h]
  exact SharedDir.map_leftBy_seenBy s.dir k

/-- A call that leaves the directory the process's own -/
theorem dir_called_own {w : World} {d : WorkDir} (hdir : w.dir = some d) (hown : d.IsOwn) :
    ∃ d', (s.called k w).dir = some d' ∧ d'.BelongsTo k ∧
      (d.pid = some .own → d'.pid = some k) ∧ (d.sock = some .own → d'.sock = some k) := by
  refine ⟨SharedDir.leftBy k s.dir d, ?_, SharedDir.belongsTo_leftBy hown, fun h => ?_, fun h => ?_⟩
  · rw [called, hdir, Option.map_some]
  · rw [SharedDir.leftBy, h]
    rfl
  · rw [SharedDir.leftBy, h]
    rfl

/-! ## One call -/

/-- The first calls of `daemon_init` do nothing to the directory, and the third makes it. -/
theorem Locked.turn_early (hs : s.Locked) {env : Env} {done : ℕ} {step : World → Bool × World}
    (hstep : env.initSteps[done]? = some step) (hdone : done ≤ 2)
    (hok : (step (s.view k)).1 = true) :
    ((s.called k (step (s.view k)).2).goTo k (.starting (done + 1))).Locked := by
  match done with
  | 0 =>
    obtain rfl := Option.some.inj hstep
    have hfree : ¬ Phase.Holds (.starting (0 + 1)) := show ¬ 3 ≤ 0 + 1 by omega
    exact hs.goTo_same (dir_called_same rfl) rfl fun h => absurd h hfree
  | 1 =>
    obtain rfl := Option.some.inj hstep
    have hfree : ¬ Phase.Holds (.starting (1 + 1)) := show ¬ 3 ≤ 1 + 1 by omega
    exact hs.goTo_same (dir_called_same (env.dir_maybeFork _)) rfl fun h => absurd h hfree
  | 2 =>
    obtain rfl := Option.some.inj hstep
    obtain ⟨hnone, hmade⟩ := env.mkdir_made hok
    have hdir : s.dir = none := Option.map_eq_none_iff.mp hnone
    refine @Locked.goTo_alone s (s.called k _) k (fun j q hj hq => ?_) rfl _ fun _ => ?_
    · obtain ⟨d, hd, -⟩ := hs j q hj hq
      rw [hdir] at hd
      cases hd
    · obtain ⟨d, hd, hbelongs, -⟩ := @dir_called_own s k _ _ hmade
        ⟨rfl, fun file owner howner => by cases file <;> cases howner⟩
      exact ⟨d, hd, hbelongs, fun h => absurd h (show ¬ 4 ≤ 2 + 1 by omega),
        fun h => absurd h (show ¬ 7 ≤ 2 + 1 by omega)⟩
  | done + 3 => exact absurd hdone (by omega)

/-- The other calls of `daemon_init` -/
theorem Locked.turn_late (hs : s.Locked) {env : Env} {done : ℕ} {step : World → Bool × World}
    (hphase : s.phase k = some (.starting done)) (hstep : env.initSteps[done]? = some step)
    (hdone : 3 ≤ done) :
    ((s.called k (step (s.view k)).2).goTo k
      (if (step (s.view k)).1 then .starting (done + 1) else .freeing 0 false)).Locked := by
  obtain ⟨d, hdir, hserves⟩ := hs k _ hphase hdone
  obtain ⟨hview, hown⟩ := view_own hdir hserves.toBelongsTo
  obtain ⟨d₁, hdir₁, hown₁, hfiles⟩ := env.own_initSteps hstep hdone hview hown
  obtain ⟨d₂, hdir₂, hbelongs, hpid, hsock⟩ := @dir_called_own s k _ _ hdir₁ hown₁
  refine @Locked.goTo_alone s (s.called k _) k
    (fun j q hj hq => hs.unique hj hq hphase hdone) rfl _ fun _ => ?_
  refine ⟨d₂, hdir₂, hbelongs, fun h => ?_, fun h => ?_⟩
  all_goals
    rcases hok : (step (s.view k)).1 with _ | _
    · rw [hok] at h
      exact h.elim
    rw [hok] at h
    obtain ⟨hpid₁, hsock₁⟩ := hfiles hok
  · refine hpid (hpid₁ ?_)
    rcases Nat.lt_or_eq_of_le hdone with hlt | rfl
    · exact Or.inr (seenBy_file.1 (hserves.has_pid hlt))
    · exact Or.inl rfl
  · refine hsock (hsock₁ ?_)
    rcases Nat.lt_or_eq_of_le (Nat.le_of_succ_le_succ (show 6 + 1 ≤ done + 1 from h)) with hlt | rfl
    · exact Or.inr (seenBy_file.2 (hserves.has_sock hlt))
    · exact Or.inl rfl

/-- The calls of `daemon_free` -/
theorem Locked.turn_free (hs : s.Locked) {env : Env} {done : ℕ} {restart : Bool}
    {step : World → Bool × World} (hphase : s.phase k = some (.freeing done restart))
    (hstep : env.freeSteps[done]? = some step) :
    ((s.called k (step (s.view k)).2).goTo k (.freeing (done + 1) restart)).Locked := by
  by_cases hheld : done ≤ 3
  · refine @Locked.goTo_alone s (s.called k _) k
      (fun j q hj hq => hs.unique hj hq hphase hheld) rfl _ fun hholds => ?_
    obtain ⟨d, hdir, hserves⟩ := hs k _ hphase hheld
    obtain ⟨hview, hown⟩ := view_own hdir hserves.toBelongsTo
    obtain ⟨d₁, hdir₁, hown₁⟩ :=
      env.own_freeSteps hstep (Nat.le_of_succ_le_succ hholds) hview hown
    obtain ⟨d₂, hdir₂, hbelongs, -⟩ := @dir_called_own s k _ _ hdir₁ hown₁
    exact ⟨d₂, hdir₂, hbelongs, fun h => h.elim, fun h => h.elim⟩
  · -- behind `rmdir` there is only `fanctrl_release`
    obtain ⟨j, rfl⟩ := Nat.exists_eq_add_of_le' (Nat.lt_of_not_le hheld)
    match j with
    | 0 =>
      obtain rfl := Option.some.inj hstep
      have hfree : ¬ Phase.Holds (.freeing (0 + 4 + 1) restart) := show ¬ 0 + 4 + 1 ≤ 3 by omega
      exact hs.goTo_same (dir_called_same (env.dir_fanctrlRelease _)) rfl fun h => absurd h hfree
    | j + 1 => cases hstep

/-! ## Every run -/

/-- One call of one instance: `mkdir` fails for all but one of them, and only the one that made
the directory serves or removes it. -/
theorem Locked.step (hs : s.Locked) {e : InstanceEvent} (hgentle : s.gentle e = true)
    (h : s.step e = some s') : s'.Locked := by
  cases e with
  | launch k fds =>
    rw [Instances.step] at h
    split_ifs at h
    cases h
    -- a new instance holds nothing yet
    have hfree : ¬ Phase.Holds (.starting 0) := show ¬ 3 ≤ 0 by omega
    exact @Locked.goTo_same s _ k hs rfl rfl _ fun h => absurd h hfree
  | leave k w restart =>
    rw [Instances.step] at h
    split at h
    · cases h
      refine hs.goTo_same rfl rfl fun _ => ?_
      obtain ⟨d, hdir, hserves⟩ := hs k .looping ‹_› trivial
      exact ⟨d, hdir, hserves.toBelongsTo, fun h => h.elim, fun h => h.elim⟩
    · cases h
  | turn k env =>
    rw [Instances.step, Instances.turn] at h
    rcases hphase : s.phase k with _ | phase
    · rw [hphase] at h
      cases h
    rw [hphase] at h
    cases phase with
    | starting done =>
      dsimp only at h
      rcases hstep : env.initSteps[done]? with _ | step
      · rw [hstep] at h
        cases h
        -- the start has made its last step
        have hlast : 10 ≤ done := List.getElem?_eq_none_iff.mp hstep
        refine hs.goTo_same rfl rfl fun _ => ?_
        obtain ⟨d, hdir, hserves⟩ := hs k _ hphase (show 3 ≤ done by omega)
        exact ⟨d, hdir, hserves.toBelongsTo, fun _ => hserves.has_pid (show 4 ≤ done by omega),
          fun _ => hserves.has_sock (show 7 ≤ done by omega)⟩
      · rw [hstep] at h
        cases h
        -- `mkdir` is the third step: behind it the instance holds the directory
        by_cases hdone : done ≤ 2
        · have hok := gentle_turn hgentle hphase hdone hstep
          rw [if_pos hok]
          exact hs.turn_early hstep hdone hok
        · exact hs.turn_late hphase hstep (by omega)
    | freeing done restart =>
      dsimp only at h
      rcases hstep : env.freeSteps[done]? with _ | step
      · rw [hstep] at h
        cases h
        refine hs.goTo_same rfl rfl fun h => ?_
        cases restart with
        | true => exact absurd h (show ¬ 3 ≤ 0 by omega)
        | false => exact h.elim
      · rw [hstep] at h
        cases h
        exact hs.turn_free hphase hstep
    | looping => cases h
    | gone => cases h

end Instances

/-- **One instance.** However many instances are launched, stopped and restarted, whatever the
kernel refuses and however their calls follow each other: as long as no start fails before it has
made the directory, at most one instance is in its loop, and then the directory, the PID file and
the socket are this instance's. -/
theorem one_instance (dir : Option SharedDir) (events : List InstanceEvent) (s : Instances)
    (hrun : run Instances.step (Instances.idle dir) events = some s)
    (hgentle : Meets Instances.step (fun s e => s.gentle e = true) (Instances.idle dir) events) :
    (∀ i j, s.phase i = some .looping → s.phase j = some .looping → i = j) ∧
      ∀ k, s.phase k = some .looping →
        ∃ d, s.dir = some d ∧ d.maker = k ∧ d.pid = some k ∧ d.sock = some k := by
  have hlocked : s.Locked :=
    run_keeps_of_meets (fun _ _ _ hs hgentle h => hs.step hgentle h) (Instances.locked_idle dir)
      hgentle hrun
  refine ⟨fun i j hi hj => hlocked.unique hi trivial hj trivial, fun k hk => ?_⟩
  obtain ⟨d, hdir, hserves⟩ := hlocked k .looping hk trivial
  exact ⟨d, hdir, hserves.maker, hserves.has_pid trivial, hserves.has_sock trivial⟩

/-- A second instance that waits with `mkdir` until the first one has gone -/
def inTurn : List InstanceEvent :=
  .launch 0 [true] :: .launch 1 [] :: .turn 1 envPlain :: List.replicate 11 (.turn 0 envPlain) ++
    .turn 1 envPlain :: .leave 0 (Boot.mk none []).world false ::
    List.replicate 6 (.turn 0 envPlain) ++ List.replicate 9 (.turn 1 envPlain)

/-- Two instances one after the other: the second makes the directory again. -/
theorem one_instance_in_turn :
    ∃ s, run Instances.step (Instances.idle none) inTurn = some s ∧
      s.phase 0 = some .gone ∧ s.phase 1 = some .looping ∧
      ∃ d, s.dir = some d ∧ d.maker = 1 ∧ d.pid = some 1 ∧ d.sock = some 1 := by
  have hphase : (run Instances.step (Instances.idle none) inTurn).map
      (fun s => (s.phase 0, s.phase 1)) = some (some .gone, some .looping) := by decide +kernel
  obtain ⟨s, hrun, hphases⟩ := Option.map_eq_some_iff.mp hphase
  have hgone : s.phase 0 = some .gone := congrArg Prod.fst hphases
  have hlooping : s.phase 1 = some .looping := congrArg Prod.snd hphases
  exact ⟨s, hrun, hgone, hlooping,
    (one_instance none inTurn s hrun (by decide +kernel)).2 1 hlooping⟩

/-! ## A start that fails -/

namespace World

/-- `unlink` takes the file out of the directory. -/
theorem dir_unlink {w : World} {d : WorkDir} (hdir : w.dir = some d) (file : File) :
    (w.unlink file).2.dir = some (d.erase file) := by
  rw [unlink, hdir]
  dsimp only
  rcases hfile : d.file file with _ | owner
  · dsimp only
    rw [hdir]
    cases file with
    | pid =>
      obtain ⟨owner, pid, sock, others⟩ := d
      obtain rfl : pid = none := hfile
      rfl
    | sock =>
      obtain ⟨owner, pid, sock, others⟩ := d
      obtain rfl : sock = none := hfile
      rfl
  · rfl

end World

/-- The first calls of `daemon_init` leave the directory as it is if they fail. -/
theorem Env.dir_initSteps_failed (env : Env) {done : ℕ} {step : World → Bool × World}
    (hstep : env.initSteps[done]? = some step) (hdone : done ≤ 2) {w : World}
    (hfail : (step w).1 = false) : (step w).2.dir = w.dir := by
  match done with
  | 0 =>
    obtain rfl := Option.some.inj hstep
    rfl
  | 1 =>
    obtain rfl := Option.some.inj hstep
    exact env.dir_maybeFork w
  | 2 =>
    obtain rfl := Option.some.inj hstep
    rw [mkdir] at hfail ⊢
    split
    · rfl
    · rw [if_neg ‹_›] at hfail
      cases hfail
  | done + 3 => exact absurd hdone (by omega)

/-- The calls that remove the directory are carried out. -/
structure Env.Removes (env : Env) : Prop where
  sock : env.refused (.unlink .sock) = false
  pid : env.refused (.unlink .pid) = false
  dir : env.refused .rmdir = false

namespace Instances

/-- What an instance has done: where it is, what it has left in the directory, and that the others
are where they were -/
structure Went (s : Instances) (j : ℕ) (phase : Phase) (dir : Option SharedDir) (s' : Instances) :
    Prop where
  phase : s'.phase j = some phase
  dir : s'.dir = dir
  others : ∀ i, i ≠ j → s'.phase i = s.phase i

variable {s s₁ : Instances} {j : ℕ} {env : Env}

theorem Went.trans {s₂ : Instances} {p q : Phase} {dir dir' : Option SharedDir}
    (h : s.Went j p dir s₁) (h' : s₁.Went j q dir' s₂) : s.Went j q dir' s₂ :=
  ⟨h'.phase, h'.dir, fun i hi => (h'.others i hi).trans (h.others i hi)⟩

theorem went_called (s : Instances) (j : ℕ) (w : World) (phase : Phase) :
    s.Went j phase (w.dir.map (SharedDir.leftBy j s.dir)) ((s.called j w).goTo j phase) := by
  refine ⟨?_, rfl, fun i hi => ?_⟩
  · rw [phase_goTo, if_pos rfl]
  · rw [phase_goTo, if_neg hi]
    rfl

/-- A call of `daemon_init` that fails -/
theorem went_failed {done : ℕ} {step : World → Bool × World}
    (hphase : s.phase j = some (.starting done)) (hstep : env.initSteps[done]? = some step)
    (hdone : done ≤ 2) (hfail : (step (s.view j)).1 = false) :
    ∃ s₁, s.step (.turn j env) = some s₁ ∧ s.Went j (.freeing 0 false) s.dir s₁ := by
  have hwent := went_called s j (step (s.view j)).2 (.freeing 0 false)
  rw [env.dir_initSteps_failed hstep hdone hfail,
    show (s.view j).dir.map (SharedDir.leftBy j s.dir) = s.dir from
      SharedDir.map_leftBy_seenBy s.dir j] at hwent
  refine ⟨_, ?_, hwent⟩
  rw [Instances.step, turn, hphase]
  dsimp only
  rw [hstep]
  dsimp only
  rw [hfail]
  rfl

/-- A call of `daemon_free` -/
theorem went_freeing {done : ℕ} {restart : Bool} {step : World → Bool × World}
    (hphase : s.phase j = some (.freeing done restart))
    (hstep : env.freeSteps[done]? = some step) :
    ∃ s₁, s.step (.turn j env) = some s₁ ∧
      s.Went j (.freeing (done + 1) restart)
        ((step (s.view j)).2.dir.map (SharedDir.leftBy j s.dir)) s₁ := by
  refine ⟨_, ?_, went_called s j (step (s.view j)).2 _⟩
  rw [Instances.step, turn, hphase]
  dsimp only
  rw [hstep]

/-- `daemon_free` up to `rmdir`, in a directory with nothing else in it, whoever has made it -/
theorem went_removed {d : SharedDir} {restart : Bool} (hremoves : env.Removes)
    (hphase : s.phase j = some (.freeing 0 restart)) (hdir : s.dir = some d)
    (hothers : d.others = false) :
    ∃ s₄, run step s (List.replicate 4 (.turn j env)) = some s₄ ∧
      s.Went j (.freeing 4 restart) none s₄ := by
  have hview : ∀ {s : Instances} {d : SharedDir}, s.dir = some d →
      (s.view j).dir = some (d.seenBy j) := by
    intro s d hdir
    rw [view, hdir, Option.map_some]
  -- `fsys_watch_clear` leaves the directory as it is
  obtain ⟨s₁, hstep₁, hwent₁⟩ := @went_freeing s j env _ _ _ hphase rfl
  have hdir₁ : s₁.dir = some d := by
    have hsame : (env.fsysWatchClear (s.view j)).2.dir = (s.view j).dir := by
      rw [Env.fsysWatchClear]
      split
      · rfl
      · exact World.dir_release ..
    rw [hwent₁.dir, hsame, ← hdir]
    exact SharedDir.map_leftBy_seenBy s.dir j
  -- the socket, the PID file and the directory go in turn
  obtain ⟨s₂, hstep₂, hwent₂⟩ := @went_freeing s₁ j env _ _ _ hwent₁.phase rfl
  have hdir₂ : ∃ d₂, s₂.dir = some d₂ ∧ d₂.sock = none ∧ d₂.others = false := by
    rw [hwent₂.dir]
    have hsock : (env.serverKill (s₁.view j)).2.dir = some ((d.seenBy j).erase .sock) := by
      change (env.unlink .sock _).2.dir = _
      rw [Env.unlink, hremoves.sock]
      exact World.dir_unlink ((World.dir_release ..).trans (hview hdir₁)) .sock
    rw [hsock]
    exact ⟨_, rfl, rfl, hothers⟩
  obtain ⟨d₂, hdir₂, hsock₂, hothers₂⟩ := hdir₂
  obtain ⟨s₃, hstep₃, hwent₃⟩ := @went_freeing s₂ j env _ _ _ hwent₂.phase rfl
  have hdir₃ : ∃ d₃, s₃.dir = some d₃ ∧ d₃.pid = none ∧ d₃.sock = none ∧ d₃.others = false := by
    rw [hwent₃.dir]
    have hpid : (env.pidfileUnlink (s₂.view j)).2.dir = some ((d₂.seenBy j).erase .pid) := by
      change (env.unlink .pid _).2.dir = _
      rw [Env.unlink, hremoves.pid]
      exact World.dir_unlink (hview hdir₂) .pid
    rw [hpid]
    refine ⟨_, rfl, rfl, ?_, hothers₂⟩
    change (d₂.sock.map (ownerFor j)).map _ = none
    rw [hsock₂]
    rfl
  obtain ⟨d₃, hdir₃, hpid₃, hsock₃, hothers₃⟩ := hdir₃
  obtain ⟨s₄, hstep₄, hwent₄⟩ := @went_freeing s₃ j env _ _ _ hwent₃.phase rfl
  have hdir₄ : s₄.dir = none := by
    have hrmdir : (env.rmdir (s₃.view j)).2.dir = none := by
      have hempty : ¬ ((d₃.seenBy j).pid.isSome = true ∨ (d₃.seenBy j).sock.isSome = true ∨
          (d₃.seenBy j).others = true) := by
        simp [SharedDir.seenBy, hpid₃, hsock₃, hothers₃]
      rw [Env.rmdir, hremoves.dir, World.rmdir, hview hdir₃]
      dsimp only
      rw [if_neg hempty]
      rfl
    rw [hwent₄.dir, hrmdir]
    rfl
  refine ⟨s₄, ?_, ?_⟩
  · change run step s [_, _, _, _] = _
    rw [run, hstep₁, Option.bind_some, run, hstep₂, Option.bind_some, run, hstep₃,
      Option.bind_some, run, hstep₄]
    rfl
  · have hwent := ((hwent₁.trans hwent₂).trans hwent₃).trans hwent₄
    exact ⟨hwent.phase, hdir₄, hwent.others⟩

end Instances

/-- **Where the lock breaks.** Whenever a start fails before it has made the directory, and there is
a directory with nothing in it but the two files, the next five turns of this instance (the call
that fails, and the four of `daemon_free`) remove the directory with its files, whoever has made it,
and every other instance goes on. -/
theorem failed_start_unlocks (s : Instances) (j done : ℕ) (env : Env)
    (step : World → Bool × World) (d : SharedDir) (hremoves : env.Removes)
    (hphase : s.phase j = some (.starting done)) (hdone : done ≤ 2)
    (hstep : env.initSteps[done]? = some step) (hfail : (step (s.view j)).1 = false)
    (hdir : s.dir = some d) (hothers : d.others = false) :
    ∃ s', run Instances.step s (List.replicate 5 (.turn j env)) = some s' ∧ s'.dir = none ∧
      ∀ i, i ≠ j → s'.phase i = s.phase i := by
  obtain ⟨s₁, hfirst, hwent₁⟩ := Instances.went_failed hphase hstep hdone hfail
  obtain ⟨s', hrest, hwent⟩ :=
    Instances.went_removed hremoves hwent₁.phase (hwent₁.dir.trans hdir) hothers
  refine ⟨s', ?_, hwent.dir, (hwent₁.trans hwent).others⟩
  change run Instances.step s (_ :: List.replicate 4 _) = _
  rw [run, hfirst, Option.bind_some, hrest]

/-- An instance in its loop, and a second one that is about to make the directory -/
def twoInstances : Instances where
  dir := some ⟨0, some 0, some 0, false⟩
  phase := fun k => [Phase.looping, .starting 2][k]?
  world := fun _ => (Boot.mk none []).world

theorem failed_start_unlocks_second :
    ∃ s', run Instances.step twoInstances (List.replicate 5 (.turn 1 envPlain)) = some s' ∧
      s'.dir = none ∧ s'.phase 0 = some .looping := by
  obtain ⟨s', hrun, hdir, hphase⟩ := failed_start_unlocks twoInstances 1 2 envPlain envPlain.mkdir
    ⟨0, some 0, some 0, false⟩ ⟨rfl, rfl, rfl⟩ rfl le_rfl rfl rfl rfl rfl
  exact ⟨s', hrun, hdir, hphase 0 (by decide)⟩

end AmdgpuFand
