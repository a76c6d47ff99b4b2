import AmdgpuFand.Daemon

/-!
# What a failed start leaves behind

When `daemon_init` fails, `daemon_main` goes straight to `daemon_free`, which releases everything a
complete start would have acquired. The watch and the control mode file are guarded by `-1`; the
server's descriptor, the socket, the PID file and the directory are not. So a start that fails
before its server runs closes descriptor 0 and removes what another instance has at the paths.

`failedStart_clean` says exactly when this does no harm.
-/

namespace AmdgpuFand

/-! ## Descriptors -/

namespace World

/-- A descriptor number refers to something that this run has not opened. -/
def InheritedAt (w : World) (n : ℤ) : Prop :=
  ∃ k : ℕ, n = k ∧ w.fd k = some .inherited

/-- Only descriptors have been opened and closed, and none that was inherited. -/
structure FdStep (w w' : World) : Prop where
  same : w' = { w with
    fds := w'.fds
    obtained := w'.obtained
    closed := w'.closed
    closedFds := w'.closedFds
    reused := w'.reused }
  inherited : ∀ n, w'.InheritedAt n ↔ w.InheritedAt n
  closed : ∀ origin ∈ w'.closed, origin ∈ w.closed ∨ origin ≠ .inherited

theorem FdStep.refl (w : World) : FdStep w w :=
  ⟨rfl, fun _ => Iff.rfl, fun _ h => .inl h⟩

theorem FdStep.trans {w₁ w₂ w₃ : World} (h₁ : FdStep w₁ w₂) (h₂ : FdStep w₂ w₃) :
    FdStep w₁ w₃ := by
  refine ⟨?_, fun n => (h₂.inherited n).trans (h₁.inherited n), fun origin h => ?_⟩
  · rw [h₂.same, h₁.same]
  · rcases h₂.closed origin h with h | h
    · exact h₁.closed origin h
    · exact .inr h

theorem FdStep.dir {w w' : World} (h : FdStep w w') : w'.dir = w.dir := by
  rw [h.same]

theorem FdStep.data {w w' : World} (h : FdStep w w') : w'.data = w.data := by
  rw [h.same]

/-- The table after an `open`: the new entry, and the old ones. -/
theorem fd_openFd (w : World) (others : List ℕ) (call : Call) (k : ℕ) :
    (w.openFd others call).2.fd k =
      if k = (w.openFd others call).1 then some (.opened call w.obtained.length) else w.fd k :=
  Process.fd_opened w.fds _ _ k

theorem fd_openFd_fst (w : World) (others : List ℕ) (call : Call) :
    w.fd (w.openFd others call).1 = none :=
  Process.fd_lowest others w.fds

theorem inheritedAt_openFd (w : World) (others : List ℕ) (call : Call) (n : ℤ) :
    (w.openFd others call).2.InheritedAt n ↔ w.InheritedAt n := by
  refine ⟨?_, ?_⟩
  · rintro ⟨k, rfl, hk⟩
    rw [fd_openFd] at hk
    by_cases hfst : k = (w.openFd others call).1
    · rw [if_pos hfst] at hk
      cases hk
    · rw [if_neg hfst] at hk
      exact ⟨k, rfl, hk⟩
  · rintro ⟨k, rfl, hk⟩
    refine ⟨k, rfl, ?_⟩
    rw [fd_openFd, if_neg]
    · exact hk
    · rintro rfl
      rw [fd_openFd_fst] at hk
      cases hk

theorem fdStep_openFd (w : World) (others : List ℕ) (call : Call) :
    FdStep w (w.openFd others call).2 :=
  ⟨rfl, w.inheritedAt_openFd others call, fun _ h => .inl h⟩

/-- The descriptor that has just been opened is not an inherited one. -/
theorem not_inheritedAt_openFd (w : World) (others : List ℕ) (call : Call) :
    ¬ (w.openFd others call).2.InheritedAt (w.openFd others call).1 := by
  rw [inheritedAt_openFd]
  rintro ⟨k, hk, hfd⟩
  rw [← Int.ofNat_inj.mp hk, fd_openFd_fst] at hfd
  cases hfd

/-- Closing a descriptor that is not inherited. -/
theorem fdStep_close {w : World} {n : ℤ} (h : ¬ w.InheritedAt n) : FdStep w (w.close n) := by
  cases n with
  | negSucc k => exact .refl w
  | ofNat k =>
    rw [close]
    cases hk : w.fd k with
    | none => exact .refl w
    | some origin =>
      have horigin : origin ≠ .inherited := by
        rintro rfl
        exact h ⟨k, rfl, hk⟩
      refine ⟨rfl, fun n => ?_, fun o ho => ?_⟩
      · refine ⟨?_, ?_⟩
        · rintro ⟨j, rfl, hj⟩
          rw [fd, Process.fd_closed] at hj
          split at hj
          · cases hj
          · exact ⟨j, rfl, hj⟩
        · rintro ⟨j, rfl, hj⟩
          refine ⟨j, rfl, ?_⟩
          rw [fd, Process.fd_closed, if_neg]
          · exact hj
          · rintro rfl
            rw [hk] at hj
            exact horigin (Option.some.inj hj)
      · rcases List.mem_cons.mp ho with rfl | ho
        · exact .inr horigin
        · exact .inl ho

/-- A `close` of an open descriptor takes it out of the table and records it as closed. -/
theorem close_open {w : World} {k : ℕ} {origin : Origin} (h : w.fd k = some origin) :
    w.close k = { w with
      fds := Process.closed w.fds k
      closed := origin :: w.closed
      closedFds := k :: w.closedFds } := by
  change w.close (.ofNat k) = _
  rw [close, h]

theorem close_shut {w : World} {k : ℕ} (h : w.fd k = none) : w.close k = w := by
  change w.close (.ofNat k) = w
  rw [close, h]

/-- A `close` changes the table and the record of what was closed. -/
theorem close_eq (w : World) (n : ℤ) :
    w.close n = { w with
      fds := (w.close n).fds
      closed := (w.close n).closed
      closedFds := (w.close n).closedFds } := by
  cases n with
  | negSucc k => rfl
  | ofNat k =>
    rw [close]
    split <;> rfl

/-- The use of a number is recorded, and nothing else happens. -/
theorem use_eq (w : World) (n : ℤ) : w.use n = { w with reused := (w.use n).reused } := by
  cases n with
  | negSucc k => rfl
  | ofNat k =>
    rw [use]
    split <;> rfl

/-- `close` in `daemon_free` changes the descriptors and the records of them. -/
theorem release_eq (w : World) (n : ℤ) :
    w.release n = { w with
      fds := (w.release n).fds
      closed := (w.release n).closed
      closedFds := (w.release n).closedFds
      reused := (w.release n).reused } := by
  rw [release, close_eq, use_eq]

theorem fdStep_use (w : World) (n : ℤ) : FdStep w (w.use n) := by
  rw [use_eq]
  exact ⟨rfl, fun _ => Iff.rfl, fun _ h => .inl h⟩

/-- `close` in `daemon_free`, of a number that is not inherited -/
theorem fdStep_release {w : World} {n : ℤ} (h : ¬ w.InheritedAt n) : FdStep w (w.release n) :=
  (fdStep_use w n).trans (fdStep_close (mt ((fdStep_use w n).inherited n).mp h))

theorem mem_closed_release {w : World} {k : ℕ} {origin : Origin} (h : w.fd k = some origin) :
    origin ∈ (w.release k).closed := by
  have hfd : (w.use k).fd k = some origin := by
    rw [use_eq]
    exact h
  rw [release, close_open hfd]
  exact List.mem_cons_self ..

/-! ## Directory entries -/

/-- Only the working directory has changed, and what has been removed is on record. -/
structure DirStep (w w' : World) : Prop where
  same : w' = { w with dir := w'.dir, removed := w'.removed }
  removed : w.removed ⊆ w'.removed

theorem DirStep.refl (w : World) : DirStep w w :=
  ⟨rfl, List.Subset.refl _⟩

theorem DirStep.trans {w₁ w₂ w₃ : World} (h₁ : DirStep w₁ w₂) (h₂ : DirStep w₂ w₃) :
    DirStep w₁ w₃ := by
  refine ⟨?_, List.Subset.trans h₁.removed h₂.removed⟩
  rw [h₂.same, h₁.same]

theorem DirStep.inherited {w w' : World} (h : DirStep w w') (n : ℤ) :
    w'.InheritedAt n ↔ w.InheritedAt n := by
  rw [h.same]
  rfl

theorem dirStep_setDir (w : World) (dir : Option WorkDir) : DirStep w { w with dir } :=
  ⟨rfl, List.Subset.refl _⟩

/-- `unlink` changes the directory only, whether it finds the file or not. -/
theorem dirStep_unlink (w : World) (file : File) : DirStep w (w.unlink file).2 := by
  unfold unlink
  split
  · exact .refl w
  · split
    · exact .refl w
    · exact ⟨rfl, List.subset_cons_self ..⟩

theorem dirStep_rmdir (w : World) : DirStep w w.rmdir.2 := by
  unfold rmdir
  split
  · exact .refl w
  · split
    · exact .refl w
    · exact ⟨rfl, List.subset_cons_self ..⟩

/-! ## Forking -/

/-- The copy that `fork` makes has closed the descriptors, so none is inherited. -/
theorem not_inheritedAt_forked (w : World) (n : ℤ) : ¬ w.forked.InheritedAt n := by
  rintro ⟨k, rfl, hk⟩
  rw [fd, forked, Process.fd_map] at hk
  obtain ⟨origin, -, horigin⟩ := Option.map_eq_some_iff.mp hk
  cases horigin

/-- Without inherited descriptors the sweep of `daemon_fork` closes none. -/
theorem fdStep_closeAll {w : World} (h : ∀ n, ¬ w.InheritedAt n) (max : ℕ) :
    FdStep w (w.closeAll max) := by
  induction max generalizing w with
  | zero => exact fdStep_close (h _)
  | succ max ih =>
    have hclose := fdStep_close (h (max + 1))
    exact hclose.trans (ih fun n => mt (hclose.inherited n).mp (h n))

end World

/-! ## The start -/

/-- A directory that was there before -/
structure FoundDir where
  pid : Bool
  sock : Bool
  others : Bool
  deriving DecidableEq

/-- A file is in the directory. -/
def FoundDir.has (d : FoundDir) : File → Bool
  | .pid => d.pid
  | .sock => d.sock

/-- The directory in the world of the daemon -/
def FoundDir.workDir (d : FoundDir) : WorkDir where
  owner := .foreign
  pid := if d.pid then some .foreign else none
  sock := if d.sock then some .foreign else none
  others := d.others

/-- What the daemon finds when it is started: the working directory, and the descriptors that are
open -/
structure Boot where
  dir : Option FoundDir
  fds : List Bool

namespace Boot

/-- The world in which `daemon_main` begins. Everything in it is foreign, and the static variables
have their initial values. -/
def world (boot : Boot) : World where
  dir := boot.dir.map FoundDir.workDir
  fds := boot.fds.map fun isOpen => if isOpen then some .inherited else none
  obtained := []
  pollfd := 0
  watchFd := -1
  watchWd := -1
  hwmonPwmEnableFd := -1
  drmFd := -1
  data := .zero
  fanctrl := .static
  closed := []
  closedFds := []
  reused := []
  removed := []
  pwmEnable := []

end Boot

/-- `daemon_main` when `daemon_init` fails: `daemon_kill` keeps it from entering its loop, and
`daemon_free` follows. After a successful start it is the run in which the loop makes no turn. -/
def Env.failedStart (env : Env) (w : World) : World :=
  (env.daemonFree (env.daemonInit w).2).2

/-- A run that began in `w` has closed and removed only what is its own, and a working directory
that was there is there as it was. -/
def World.Clean (w w' : World) : Prop :=
  (∀ origin ∈ w'.closed, origin ≠ .inherited) ∧
    (∀ removed ∈ w'.removed, removed.2 = .own) ∧
    (w.dir.isSome → w'.dir = w.dir)

/-! ## Up to the server -/

/-- Everything in a directory is this run's. -/
structure WorkDir.IsOwn (d : WorkDir) : Prop where
  owner : d.owner = .own
  files : ∀ file, ∀ owner ∈ d.file file, owner = .own

theorem WorkDir.file_erase (d : WorkDir) (erased file : File) :
    (d.erase erased).file file = if file = erased then none else d.file file := by
  cases erased <;> cases file <;> rfl

/-- Removing a file leaves the rest to its owner. -/
theorem WorkDir.IsOwn.erase {d : WorkDir} (h : d.IsOwn) (erased : File) :
    (d.erase erased).IsOwn := by
  refine ⟨?_, fun file owner howner => ?_⟩
  · cases erased <;> exact h.owner
  · rw [WorkDir.file_erase] at howner
    split at howner
    · cases howner
    · exact h.files file owner howner

namespace World

/-- A run that began in `start` has not got its server yet. It has closed and removed nothing
foreign, its static variables are as they were, and the directory is either untouched or its
own. -/
structure Before (start : World) (forked : Bool) (w : World) : Prop where
  closed : ∀ origin ∈ w.closed, origin ≠ .inherited
  removed : ∀ removed ∈ w.removed, removed.2 = .own
  inherited : ∀ n, w.InheritedAt n ↔ forked = false ∧ start.InheritedAt n
  pollfd : w.pollfd = 0
  watchFd : w.watchFd = -1
  watchWd : w.watchWd = -1
  hwmonPwmEnableFd : w.hwmonPwmEnableFd = -1
  drmFd : w.drmFd = -1

variable {start w w' : World} {forked : Bool}

/-- Opening and closing its own descriptors keeps a run clean before its server is up, -/
theorem FdStep.before (h : FdStep w w') (hw : Before start forked w) : Before start forked w' := by
  obtain ⟨hclosed, hremoved, hinherited, h₁, h₂, h₃, h₄, h₅⟩ := hw
  refine ⟨fun origin ho => ?_, ?_, fun n => (h.inherited n).trans (hinherited n), ?_, ?_, ?_, ?_,
    ?_⟩
  · rcases h.closed origin ho with ho | ho
    · exact hclosed origin ho
    · exact ho
  all_goals rw [h.same]
  all_goals assumption

/-- The working directory, if there is one, is this run's with everything in it. -/
def OwnDir (w : World) : Prop :=
  ∀ d, w.dir = some d → d.IsOwn

theorem ownDir_of_eq {pid sock : Option Owner} {others : Bool}
    (hdir : w.dir = some ⟨.own, pid, sock, others⟩) (hpid : ∀ owner ∈ pid, owner = .own)
    (hsock : ∀ owner ∈ sock, owner = .own) : w.OwnDir := by
  intro d hd
  rw [hdir, Option.some.injEq] at hd
  subst hd
  refine ⟨rfl, fun file => ?_⟩
  cases file with
  | pid => exact hpid
  | sock => exact hsock

/-- What the run has once its server is up, until the end: it has closed and removed nothing
foreign, the directory is its own, and the static variables refer to nothing inherited. -/
structure Serving (w : World) : Prop where
  closed : ∀ origin ∈ w.closed, origin ≠ .inherited
  removed : ∀ removed ∈ w.removed, removed.2 = .own
  dir : w.OwnDir
  pollfd : ¬ w.InheritedAt w.pollfd
  watchFd : ¬ w.InheritedAt w.watchFd
  hwmonPwmEnableFd : ¬ w.InheritedAt w.hwmonPwmEnableFd
  drmFd : ¬ w.InheritedAt w.drmFd

/-- What leaves the static variables and the inherited descriptors alone keeps their part of it. -/
theorem Serving.frame (hw : Serving w) (hinherited : ∀ n, w'.InheritedAt n ↔ w.InheritedAt n)
    (hvars : w'.pollfd = w.pollfd ∧ w'.watchFd = w.watchFd ∧
      w'.hwmonPwmEnableFd = w.hwmonPwmEnableFd ∧ w'.drmFd = w.drmFd)
    (hclosed : ∀ origin ∈ w'.closed, origin ≠ .inherited)
    (hremoved : ∀ removed ∈ w'.removed, removed.2 = .own) (hdir : w'.OwnDir) : Serving w' := by
  obtain ⟨hpollfd, hwatch, hhwmon, hdrm⟩ := hvars
  refine ⟨hclosed, hremoved, hdir, ?_, ?_, ?_, ?_⟩
  · rw [hpollfd, hinherited]
    exact hw.pollfd
  · rw [hwatch, hinherited]
    exact hw.watchFd
  · rw [hhwmon, hinherited]
    exact hw.hwmonPwmEnableFd
  · rw [hdrm, hinherited]
    exact hw.drmFd

/-- and afterwards. -/
theorem FdStep.serving (h : FdStep w w') (hw : Serving w) : Serving w' := by
  have hvars : w'.pollfd = w.pollfd ∧ w'.watchFd = w.watchFd ∧
      w'.hwmonPwmEnableFd = w.hwmonPwmEnableFd ∧ w'.drmFd = w.drmFd := by
    rw [h.same]
    exact ⟨rfl, rfl, rfl, rfl⟩
  refine hw.frame h.inherited hvars (fun origin ho => ?_) ?_ ?_
  · rcases h.closed origin ho with ho | ho
    · exact hw.closed origin ho
    · exact ho
  · rw [h.same]
    exact hw.removed
  · rw [OwnDir, h.same]
    exact hw.dir

/-- So does what it removes of its own, before its server is up -/
theorem DirStep.before (h : DirStep w w') (hw : Before start forked w)
    (hremoved : ∀ removed ∈ w'.removed, removed.2 = .own) : Before start forked w' := by
  obtain ⟨hclosed, -, hinherited, h₁, h₂, h₃, h₄, h₅⟩ := hw
  refine ⟨?_, hremoved, fun n => (h.inherited n).trans (hinherited n), ?_, ?_, ?_, ?_, ?_⟩
  all_goals rw [h.same]
  all_goals assumption

/-- and afterwards. -/
theorem DirStep.serving (h : DirStep w w') (hw : Serving w)
    (hremoved : ∀ removed ∈ w'.removed, removed.2 = .own) (hdir : w'.OwnDir) : Serving w' := by
  have hvars : w'.pollfd = w.pollfd ∧ w'.watchFd = w.watchFd ∧
      w'.hwmonPwmEnableFd = w.hwmonPwmEnableFd ∧ w'.drmFd = w.drmFd := by
    rw [h.same]
    exact ⟨rfl, rfl, rfl, rfl⟩
  refine hw.frame h.inherited hvars ?_ hremoved hdir
  rw [h.same]
  exact hw.closed

/-- In a directory of this run `unlink` removes what is this run's. -/
theorem unlink_own (hdir : w.OwnDir) (hw : ∀ removed ∈ w.removed, removed.2 = .own) (file : File) :
    (∀ removed ∈ (w.unlink file).2.removed, removed.2 = .own) ∧ (w.unlink file).2.OwnDir := by
  unfold unlink
  split
  · exact ⟨hw, hdir⟩
  next d hd =>
    split
    · exact ⟨hw, hdir⟩
    next owner howner =>
      refine ⟨fun removed hremoved => ?_, fun d' hd' => ?_⟩
      · rcases List.mem_cons.mp hremoved with rfl | hremoved
        · exact (hdir d hd).files file owner howner
        · exact hw removed hremoved
      · exact Option.some.inj hd' ▸ (hdir d hd).erase file

/-- And so does `rmdir`. -/
theorem rmdir_own (hdir : w.OwnDir) (hw : ∀ removed ∈ w.removed, removed.2 = .own) :
    (∀ removed ∈ w.rmdir.2.removed, removed.2 = .own) ∧ w.rmdir.2.OwnDir := by
  unfold rmdir
  split
  · exact ⟨hw, hdir⟩
  next d hd =>
    split_ifs
    · exact ⟨hw, hdir⟩
    · refine ⟨fun removed hremoved => ?_, fun d' hd' => ?_⟩
      · rcases List.mem_cons.mp hremoved with rfl | hremoved
        · exact (hdir d hd).owner
        · exact hw removed hremoved
      · cases hd'

/-- The number `-1` refers to nothing. -/
theorem not_inheritedAt_neg (w : World) : ¬ w.InheritedAt (-1) := by
  rintro ⟨k, hk, -⟩
  omega

theorem not_inheritedAt_of_eq {fd : ℤ} (h : fd = -1) : ¬ w.InheritedAt fd := by
  rw [h]
  exact not_inheritedAt_neg w

end World

/-- At the beginning nothing has happened. -/
theorem Boot.before (boot : Boot) : World.Before boot.world false boot.world where
  closed := by simp [world]
  removed := by simp [world]
  inherited n := by simp
  pollfd := rfl
  watchFd := rfl
  watchWd := rfl
  hwmonPwmEnableFd := rfl
  drmFd := rfl

/-- Descriptor 0 is the one that matters: it is what `pollfd` says before the server is up. -/
theorem Boot.inheritedAt_zero (boot : Boot) :
    boot.world.InheritedAt 0 ↔ boot.fds[0]? = some true := by
  have hfd : boot.world.fd 0 =
      (boot.fds[0]?.map fun isOpen => if isOpen then some Origin.inherited else none).join := by
    rw [World.fd, Process.fd, world, List.getElem?_map]
  refine ⟨?_, ?_⟩
  · rintro ⟨k, hk, hinherited⟩
    rw [Int.natCast_eq_zero.mp hk.symm, hfd] at hinherited
    cases hzero : boot.fds[0]? with
    | none =>
      rw [hzero] at hinherited
      cases hinherited
    | some isOpen =>
      rw [hzero] at hinherited
      cases isOpen with
      | false => cases hinherited
      | true => rfl
  · intro hopen
    refine ⟨0, rfl, ?_⟩
    rw [hfd, hopen]
    rfl

/-! ### The steps -/

namespace Env

open World

variable (env : Env) {start w : World} {copied : Bool}

theorem fdStep_openFd (call : Call) (w : World) : FdStep w (env.openFd call w).2 :=
  World.fdStep_openFd w _ call

theorem not_inheritedAt_openFd (call : Call) (w : World) :
    ¬ (env.openFd call w).2.InheritedAt (env.openFd call w).1 :=
  World.not_inheritedAt_openFd w _ call

theorem fdStep_useFd (call : Call) (w : World) : FdStep w (env.useFd call w) :=
  (env.fdStep_openFd call w).trans (fdStep_close (env.not_inheritedAt_openFd call w))

theorem before_forked (hw : Before start copied w) : Before start true w.forked :=
  ⟨hw.closed, hw.removed, fun n => iff_of_false (not_inheritedAt_forked w n) (by simp),
    hw.pollfd, hw.watchFd, hw.watchWd, hw.hwmonPwmEnableFd, hw.drmFd⟩

/-- `daemon_fork`: the call that fails decides the result, and a copy has inherited nothing. -/
theorem maybeFork_spec (hw : Before start false w) :
    ∃ w', env.maybeFork w = (!env.fork ||
        (!env.refused .fork && !env.refused .setsid && !env.refused .forkAgain), w') ∧
      Before start (env.fork && !env.refused .fork) w' ∧ w'.dir = w.dir ∧ w'.data = w.data := by
  have hcopy := before_forked hw
  by_cases hfork : env.fork
  case neg =>
    rw [Bool.not_eq_true] at hfork
    refine ⟨w, ?_, ?_, rfl, rfl⟩
    · simp [maybeFork, hfork]
    · rwa [hfork, Bool.false_and]
  case pos =>
    rw [maybeFork, if_pos hfork, daemonFork, hfork, Bool.not_true, Bool.false_or, Bool.true_and]
    by_cases h₁ : env.refused .fork
    · exact ⟨w, by simp [h₁], by simpa [h₁] using hw, rfl, rfl⟩
    · rw [Bool.not_eq_true] at h₁
      simp only [h₁, Bool.not_false, Bool.true_and, Bool.false_eq_true, if_false]
      by_cases h₂ : env.refused .setsid
      · exact ⟨w.forked, by simp [h₂], hcopy, rfl, rfl⟩
      · by_cases h₃ : env.refused .forkAgain
        · exact ⟨w.forked, by simp [h₃], hcopy, rfl, rfl⟩
        · -- the process of the second `fork` closes all its copies
          have hsweep := fdStep_closeAll (not_inheritedAt_forked w.forked) env.openMax
          exact ⟨_, by simp [h₂, h₃], hsweep.before (before_forked hcopy), hsweep.dir,
            hsweep.data⟩

/-- The PID file is written into the directory of this run or not at all. -/
theorem pidfileWrite_spec (hw : Before start copied w)
    (hdir : w.dir = some ⟨.own, none, none, false⟩) :
    ∃ w' pid, env.pidfileWrite w = (!env.refused .pidOpen && !env.refused .pidWrite &&
        !env.refused .pidChmod, w') ∧
      Before start copied w' ∧ w'.data = w.data ∧ w'.dir = some ⟨.own, pid, none, false⟩ ∧
      ∀ owner ∈ pid, owner = .own := by
  unfold pidfileWrite
  rw [hdir]
  by_cases hopen : env.refused .pidOpen
  · refine ⟨w, none, ?_, hw, rfl, hdir, by simp⟩
    simp only [hopen, if_true, Bool.not_true, Bool.false_and]
  · have hmade := (dirStep_setDir w (some ⟨.own, some .own, none, false⟩)).before hw hw.removed
    have huse := env.fdStep_useFd .pidOpen { w with dir := some ⟨.own, some .own, none, false⟩ }
    refine ⟨_, some .own, ?_, huse.before hmade, ?_, ?_, by simp⟩
    · simp [hopen]
    · exact huse.data
    · exact huse.dir

/-- Reading the configuration opens and closes a file and changes the configuration. -/
theorem configParse_spec (hw : Before start copied w) :
    ∃ w', env.configParse w = ((AmdgpuFand.configParse env.config w.data).1 == 0, w') ∧
      Before start copied w' ∧ w'.dir = w.dir := by
  have huse : FdStep w (if env.config.isSome then env.useFd .configOpen w else w) := by
    split
    · exact env.fdStep_useFd .configOpen w
    · exact .refl w
  have hbefore := huse.before hw
  refine ⟨_, rfl, ⟨hbefore.closed, hbefore.removed, hbefore.inherited, hbefore.pollfd,
    hbefore.watchFd, hbefore.watchWd, hbefore.hwmonPwmEnableFd, hbefore.drmFd⟩, ?_⟩
  exact huse.dir

/-- `server_init` in a directory of its own: if it fails, its socket and its descriptor are gone
or at least its own; if it succeeds, the server's descriptor is. -/
theorem serverInit_spec (hw : Before start copied w) {pid : Option Owner}
    (hdir : w.dir = some ⟨.own, pid, none, false⟩) (hpid : ∀ owner ∈ pid, owner = .own) :
    ∃ ok w', env.serverInit w = (ok, w') ∧
      ok = (!env.refused .socket && !env.refused .bind && !env.refused .sockChmod &&
        !env.refused .listen) ∧
      w'.OwnDir ∧ (ok = false → Before start copied w') ∧ (ok = true → Serving w') := by
  have hopen := env.fdStep_openFd .socket w
  have hopened := hopen.before hw
  have hsrvfd := env.not_inheritedAt_openFd .socket w
  have hwdir : w.OwnDir := ownDir_of_eq hdir hpid (by simp)
  have hdir' : (env.openFd .socket w).2.dir = some ⟨.own, pid, none, false⟩ := hdir
  unfold serverInit
  by_cases hsocket : env.refused .socket
  · exact ⟨false, w, by simp [hsocket], by simp [hsocket], hwdir, fun _ => hw, by simp⟩
  by_cases hbind : env.refused .bind
  · have hclose := hopen.trans (fdStep_close hsrvfd)
    refine ⟨false, (env.openFd .socket w).2.close (env.openFd .socket w).1, ?_, by simp [hbind], ?_,
      fun _ => hclose.before hw, by simp⟩
    · simp [hsocket, hdir', hbind]
    · rw [OwnDir, hclose.dir]
      exact hwdir
  -- the socket is bound: the directory has one entry more, and it is this run's
  simp only [hsocket, Bool.false_eq_true, if_false, hdir', Option.isSome_none, false_or, hbind]
  have hbind' := dirStep_setDir (env.openFd .socket w).2 (some ⟨.own, pid, some .own, false⟩)
  have hbound := hbind'.before hopened hopened.removed
  have hbounddir :
      OwnDir { (env.openFd .socket w).2 with dir := some ⟨.own, pid, some .own, false⟩ } :=
    ownDir_of_eq rfl hpid (by simp)
  by_cases hfail : env.refused .sockChmod ∨ env.refused .listen
  · rw [if_pos hfail]
    generalize { (env.openFd .socket w).2 with dir := some ⟨.own, pid, some .own, false⟩ } = bound
      at hbind' hbound hbounddir
    obtain ⟨hrest, hrestdir, hrestfd⟩ :
        Before start copied (if env.refused .unlinkBound then bound else (bound.unlink .sock).2) ∧
        OwnDir (if env.refused .unlinkBound then bound else (bound.unlink .sock).2) ∧
        ¬ InheritedAt (if env.refused .unlinkBound then bound else (bound.unlink .sock).2)
          (env.openFd .socket w).1 := by
      have hunlink := World.dirStep_unlink bound .sock
      obtain ⟨hremoved, hdir⟩ := unlink_own hbounddir hbound.removed .sock
      split
      · exact ⟨hbound, hbounddir, mt (hbind'.inherited _).mp hsrvfd⟩
      · exact ⟨hunlink.before hbound hremoved, hdir,
          mt ((hbind'.trans hunlink).inherited _).mp hsrvfd⟩
    have hclose := fdStep_close hrestfd
    refine ⟨false, _, rfl, ?_, ?_, fun _ => hclose.before hrest, by simp⟩
    · rcases hfail with h | h <;> simp [h]
    · rw [OwnDir, hclose.dir]
      exact hrestdir
  · rw [if_neg hfail]
    refine ⟨true, _, rfl, ?_, hbounddir, by simp, fun _ => ?_⟩
    · rw [not_or] at hfail
      simp [hfail]
    · refine ⟨hbound.closed, hbound.removed, hbounddir, hsrvfd, ?_, ?_, ?_⟩
      · exact not_inheritedAt_of_eq hbound.watchFd
      · exact not_inheritedAt_of_eq hbound.hwmonPwmEnableFd
      · exact not_inheritedAt_of_eq hbound.drmFd

/-- The process that goes on is a copy of the one that was started. -/
def forks : Bool :=
  env.fork && !env.refused .sigaction && !env.refused .fork

/-- `daemon_init` gets past `server_init`: there is no working directory, no call is refused up to
that point, and the configuration is accepted. -/
structure StartsServer (boot : Boot) : Prop where
  dir : boot.dir = none
  calls : ∀ call ∈ [Call.sigaction, .mkdir, .pidOpen, .pidWrite, .pidChmod, .chdir, .socket, .bind,
    .sockChmod, .listen], env.refused call = false
  fork : env.fork → ∀ call ∈ [Call.fork, .setsid, .forkAgain], env.refused call = false
  config : (AmdgpuFand.configParse env.config .zero).1 = 0

instance (boot : Boot) : Decidable (env.StartsServer boot) :=
  decidable_of_iff (boot.dir = none ∧
    (∀ call ∈ [Call.sigaction, .mkdir, .pidOpen, .pidWrite, .pidChmod, .chdir, .socket, .bind,
      .sockChmod, .listen], env.refused call = false) ∧
    (env.fork → ∀ call ∈ [Call.fork, .setsid, .forkAgain], env.refused call = false) ∧
    (AmdgpuFand.configParse env.config .zero).1 = 0)
    ⟨fun ⟨h₁, h₂, h₃, h₄⟩ => ⟨h₁, h₂, h₃, h₄⟩, fun h => ⟨h.dir, h.calls, h.fork, h.config⟩⟩

/-- The directory after a start that failed before its server ran: untouched, or the run's own
where there was none. -/
def LeftDir (boot : Boot) (w : World) : Prop :=
  w.dir = boot.world.dir ∨ boot.dir = none ∧ w.OwnDir

/-- Behind `mkdir`, in the directory of this run -/
theorem ownSteps_spec (hw : Before start copied w)
    (hdir : w.dir = some ⟨.own, none, none, false⟩) (hdata : w.data = .zero) :
    ∃ ok w', Process.runSteps [env.pidfileWrite, env.chdir, env.configParse, env.serverInit] w =
        (ok, w') ∧
      (ok = true ↔ (∀ call ∈ [Call.pidOpen, .pidWrite, .pidChmod, .chdir, .socket, .bind,
        .sockChmod, .listen], env.refused call = false) ∧
          (AmdgpuFand.configParse env.config .zero).1 = 0) ∧
      w'.OwnDir ∧ (ok = false → Before start copied w') ∧ (ok = true → Serving w') := by
  obtain ⟨w₁, pid, hpidfile, hw₁, hdata₁, hdir₁, hpid⟩ := env.pidfileWrite_spec hw hdir
  -- step by step: the first that fails ends the start
  rcases hok₁ : !env.refused .pidOpen && !env.refused .pidWrite && !env.refused .pidChmod with _ | _
  · rw [hok₁] at hpidfile
    refine ⟨false, w₁, Process.runSteps_cons_false hpidfile, ?_,
      ownDir_of_eq hdir₁ hpid (by simp), fun _ => hw₁, by simp⟩
    simp_all
  rw [hok₁] at hpidfile
  rw [Process.runSteps_cons_true hpidfile]
  have hchdir : env.chdir w₁ = (!env.refused .chdir, w₁) := by
    rw [chdir, hdir₁, Option.isSome_some, Bool.true_and]
  rcases hok₂ : env.refused .chdir with _ | _
  case true =>
    rw [hok₂] at hchdir
    refine ⟨false, w₁, Process.runSteps_cons_false hchdir, ?_,
      ownDir_of_eq hdir₁ hpid (by simp), fun _ => hw₁, by simp⟩
    simp_all
  case false =>
    rw [hok₂] at hchdir
    rw [Process.runSteps_cons_true hchdir]
    obtain ⟨w₂, hparse, hw₂, hdir₂⟩ := env.configParse_spec hw₁
    rw [hdir₁] at hdir₂
    rw [hdata₁, hdata] at hparse
    rcases hok₃ : (AmdgpuFand.configParse env.config .zero).1 == 0 with _ | _
    · rw [hok₃] at hparse
      refine ⟨false, w₂, Process.runSteps_cons_false hparse, ?_,
        ownDir_of_eq hdir₂ hpid (by simp), fun _ => hw₂, by simp⟩
      simp_all
    · rw [hok₃] at hparse
      rw [Process.runSteps_cons_true hparse]
      obtain ⟨ok, w₃, hserver, hok₄, hdir₃, hfailed, hserving⟩ :=
        env.serverInit_spec hw₂ hdir₂ hpid
      have hrun : Process.runSteps [env.serverInit] w₂ = (ok, w₃) := by
        cases ok with
        | false => exact Process.runSteps_cons_false hserver
        | true => exact Process.runSteps_cons_true hserver
      refine ⟨ok, w₃, hrun, ?_, hdir₃, hfailed, hserving⟩
      simp only [Bool.and_eq_true, Bool.not_eq_eq_eq_not, Bool.not_true] at hok₁
      simp [hok₄, hok₁, hok₂, eq_of_beq hok₃, and_assoc]

/-- From `mkdir` on, in the process that goes on -/
theorem mkdirSteps_spec {boot : Boot} (hw : Before boot.world copied w)
    (hdir : w.dir = boot.world.dir) (hdata : w.data = .zero) :
    ∃ ok w', Process.runSteps [env.mkdir, env.pidfileWrite, env.chdir, env.configParse,
        env.serverInit] w = (ok, w') ∧
      (ok = true ↔ boot.dir = none ∧ env.refused .mkdir = false ∧
        (∀ call ∈ [Call.pidOpen, .pidWrite, .pidChmod, .chdir, .socket, .bind, .sockChmod, .listen],
          env.refused call = false) ∧ (AmdgpuFand.configParse env.config .zero).1 = 0) ∧
      (ok = false → Before boot.world copied w' ∧ LeftDir boot w') ∧
      (ok = true → boot.dir = none ∧ Serving w') := by
  by_cases hmkdir : env.refused .mkdir ∨ w.dir.isSome
  · have hstep : env.mkdir w = (false, w) := by rw [mkdir, if_pos hmkdir]
    refine ⟨false, w, Process.runSteps_cons_false hstep, ?_, fun _ => ⟨hw, .inl hdir⟩, by simp⟩
    refine iff_of_false (by simp) ?_
    rintro ⟨hboot, hcall, -, -⟩
    rw [hdir] at hmkdir
    simp [hcall, Boot.world, hboot] at hmkdir
  · have hstep : env.mkdir w = (true, { w with dir := some ⟨.own, none, none, false⟩ }) := by
      rw [mkdir, if_neg hmkdir]
    rw [Process.runSteps_cons_true hstep]
    have hcall : env.refused .mkdir = false := by simpa using (not_or.mp hmkdir).1
    have hboot : boot.dir = none := by
      rw [hdir] at hmkdir
      simpa [Boot.world] using (not_or.mp hmkdir).2
    have hmade := (dirStep_setDir w (some ⟨.own, none, none, false⟩)).before hw hw.removed
    obtain ⟨ok, w', hrun, hok, hdir', hfailed, hserving⟩ := env.ownSteps_spec hmade rfl hdata
    refine ⟨ok, w', hrun, hok.trans ?_, fun h => ⟨hfailed h, .inr ⟨hboot, hdir'⟩⟩,
      fun h => ⟨hboot, hserving h⟩⟩
    rw [and_iff_right hboot, and_iff_right hcall]

/-- A run up to the server -/
theorem stepsToServer_spec (boot : Boot) :
    ∃ ok w, Process.runSteps env.stepsToServer boot.world = (ok, w) ∧
      (ok = true ↔ env.StartsServer boot) ∧
      (ok = false → Before boot.world env.forks w ∧ LeftDir boot w) ∧
      (ok = true → boot.dir = none ∧ Serving w) := by
  -- before the fork, before `mkdir`, and from there on
  rcases hsig : env.refused .sigaction with _ | _
  case true =>
    have hstep : env.daemonSetSigacts boot.world = (false, boot.world) := by
      rw [daemonSetSigacts, hsig, Bool.not_true]
    refine ⟨false, boot.world, Process.runSteps_cons_false hstep, ?_, fun _ => ⟨?_, .inl rfl⟩,
      by simp⟩
    · refine iff_of_false (by simp) fun h => ?_
      have := h.calls .sigaction (by simp)
      simp_all
    · rw [forks, hsig, Bool.not_true, Bool.and_false, Bool.false_and]
      exact boot.before
  case false =>
    have hstep : env.daemonSetSigacts boot.world = (true, boot.world) := by
      rw [daemonSetSigacts, hsig, Bool.not_false]
    obtain ⟨w₁, hfork, hw₁, hdir₁, hdata₁⟩ := env.maybeFork_spec boot.before
    have hforks : env.forks = (env.fork && !env.refused .fork) := by
      rw [forks, hsig, Bool.not_false, Bool.and_true]
    rw [← hforks] at hw₁
    rw [stepsToServer, Process.runSteps_cons_true hstep]
    rcases hok₁ : (!env.fork ||
        (!env.refused .fork && !env.refused .setsid && !env.refused .forkAgain)) with _ | _
    · rw [hok₁] at hfork
      refine ⟨false, w₁, Process.runSteps_cons_false hfork, ?_, fun _ => ⟨hw₁, .inl hdir₁⟩,
        by simp⟩
      refine iff_of_false (by simp) fun h => ?_
      have := h.fork
      simp_all
    · rw [hok₁] at hfork
      rw [Process.runSteps_cons_true hfork]
      -- the process goes on, as itself or as the copy
      obtain ⟨ok, w₂, hrun, hok, hfailed, hserving⟩ := env.mkdirSteps_spec hw₁ hdir₁ hdata₁
      refine ⟨ok, w₂, hrun, hok.trans ⟨?_, ?_⟩, hfailed, hserving⟩
      · rintro ⟨hboot, hmkdir, hcalls, hconfig⟩
        refine ⟨hboot, ?_, ?_, hconfig⟩
        · simpa [hsig, hmkdir] using hcalls
        · intro hf
          simpa [hf, and_assoc] using hok₁
      · intro h
        have hcalls := h.calls
        have hmkdir := hcalls .mkdir (by simp)
        exact ⟨h.dir, hmkdir, by simpa [hsig, hmkdir] using hcalls, h.config⟩

/-! ## With the server up -/

/-- `fsys_watch_init` and the steps behind it open, use and close descriptors of this run: -/
theorem serving_fsysWatchInit (w : World) (hw : Serving w) : Serving (env.fsysWatchInit w).2 := by
  have hopen := (env.fdStep_openFd .inotifyInit w).serving hw
  have hfd := env.not_inheritedAt_openFd .inotifyInit w
  unfold fsysWatchInit
  split_ifs
  · exact hw
  · exact (fdStep_close hfd).serving hopen
  · exact ⟨hopen.closed, hopen.removed, hopen.dir, hopen.pollfd, hfd, hopen.hwmonPwmEnableFd,
      hopen.drmFd⟩

theorem serving_hwmonSetPwmModeManual (w : World) (hw : Serving w) :
    Serving (env.hwmonSetPwmModeManual w).2 := by
  have hopen := (env.fdStep_openFd .pwmEnableOpen w).serving hw
  have hfd := env.not_inheritedAt_openFd .pwmEnableOpen w
  unfold hwmonSetPwmModeManual
  split_ifs
  · exact ⟨hw.closed, hw.removed, hw.dir, hw.pollfd, hw.watchFd, not_inheritedAt_neg w, hw.drmFd⟩
  · exact ⟨hopen.closed, hopen.removed, hopen.dir, hopen.pollfd, hopen.watchFd, hfd, hopen.drmFd⟩
  · exact ⟨hopen.closed, hopen.removed, hopen.dir, hopen.pollfd, hopen.watchFd, hfd, hopen.drmFd⟩

theorem serving_useFile (opening use : Call) (w : World) (hw : Serving w) :
    Serving (env.useFile opening use w).2 :=
  env.useFile_keeps (fun call w hw => (env.fdStep_useFd call w).serving hw) opening use hw

theorem serving_hwmonOpen (w : World) (hw : Serving w) : Serving (env.hwmonOpen w).2 := by
  have hload := env.serving_useFile .cacheOpen .cacheRead w hw
  rw [← cacheLoad] at hload
  unfold hwmonOpen
  split
  next v hv =>
    rw [hv] at hload
    exact env.serving_hwmonSetPwmModeManual v hload
  next v hv =>
    rw [hv] at hload
    refine Process.runSteps_keeps (fun step hstep v hv => ?_) hload
    simp only [List.mem_cons, List.not_mem_nil, or_false] at hstep
    rcases hstep with rfl | rfl | rfl
    · exact env.serving_useFile _ _ v hv
    · exact env.serving_useFile _ _ v hv
    · exact env.serving_hwmonSetPwmModeManual v hv

theorem serving_drmOpen (w : World) (hw : Serving w) : Serving (env.drmOpen w).2 := by
  have hdir := (env.fdStep_openFd .drmDir w).serving hw
  have hfd := env.not_inheritedAt_openFd .drmDir w
  unfold drmOpen
  dsimp only
  generalize (env.openFd .drmDir w).1 = dir at hfd
  generalize (env.openFd .drmDir w).2 = v at hfd hdir
  have hopen := env.fdStep_openFd .drmOpen v
  have hdrm := hopen.serving hdir
  split_ifs
  · exact hw
  · exact (fdStep_close hfd).serving hdir
  · have hset : Serving { v with drmFd := -1 } :=
      ⟨hdir.closed, hdir.removed, hdir.dir, hdir.pollfd, hdir.watchFd, hdir.hwmonPwmEnableFd,
        not_inheritedAt_neg v⟩
    exact (fdStep_close (w := { v with drmFd := -1 }) hfd).serving hset
  · have hset : Serving { (env.openFd .drmOpen v).2 with drmFd := (env.openFd .drmOpen v).1 } :=
      ⟨hdrm.closed, hdrm.removed, hdrm.dir, hdrm.pollfd, hdrm.watchFd, hdrm.hwmonPwmEnableFd,
        env.not_inheritedAt_openFd .drmOpen v⟩
    exact (fdStep_close
      (w := { (env.openFd .drmOpen v).2 with drmFd := (env.openFd .drmOpen v).1 })
      (mt (hopen.inherited _).mp hfd)).serving hset

theorem serving_fanctrlInit (w : World) (hw : Serving w) : Serving (env.fanctrlInit w).2 := by
  refine Process.runSteps_keeps (fun step hstep v hv => ?_) hw
  have hmem : step = env.hwmonOpen ∨ step = env.drmOpen := by
    split at hstep <;> simp_all
  rcases hmem with rfl | rfl
  · exact env.serving_hwmonOpen v hv
  · exact env.serving_drmOpen v hv

/-- the rest of `daemon_init` behind `server_init` does nothing else. -/
theorem serving_stepsBehindServer (w : World) (hw : Serving w) :
    Serving (Process.runSteps env.stepsBehindServer w).2 := by
  refine Process.runSteps_keeps (fun step hstep v hv => ?_) hw
  simp only [stepsBehindServer, List.mem_cons, List.not_mem_nil, or_false] at hstep
  rcases hstep with rfl | rfl | rfl
  · exact env.serving_fsysWatchInit v hv
  · exact env.serving_fanctrlInit v hv
  · exact ⟨hv.closed, hv.removed, hv.dir, hv.pollfd, hv.watchFd, hv.hwmonPwmEnableFd, hv.drmFd⟩

/-- The world after `daemon_free` -/
theorem daemonFree_snd (w : World) :
    (env.daemonFree w).2 =
      (env.fanctrlRelease (env.rmdir (env.pidfileUnlink (env.serverKill
        (env.fsysWatchClear w).2).2).2).2).2 := rfl

theorem serving_fsysWatchClear (w : World) (hw : Serving w) :
    Serving (env.fsysWatchClear w).2 := by
  unfold fsysWatchClear
  split_ifs
  · exact hw
  · exact (fdStep_release hw.watchFd).serving hw

theorem serving_unlink (file : File) (w : World) (hw : Serving w) :
    Serving (env.unlink file w).2 := by
  obtain ⟨hremoved, hdir⟩ := unlink_own hw.dir hw.removed file
  unfold unlink
  split
  · exact hw
  · exact (World.dirStep_unlink w file).serving hw hremoved hdir

theorem serving_rmdir (w : World) (hw : Serving w) : Serving (env.rmdir w).2 := by
  obtain ⟨hremoved, hdir⟩ := rmdir_own hw.dir hw.removed
  unfold rmdir
  split
  · exact hw
  · exact (World.dirStep_rmdir w).serving hw hremoved hdir

theorem serving_hwmonClose (w : World) (hw : Serving w) : Serving (env.hwmonClose w).2 := by
  have huse := (fdStep_use w w.hwmonPwmEnableFd).serving hw
  unfold hwmonClose
  dsimp only
  generalize w.use w.hwmonPwmEnableFd = v at huse
  split_ifs
  · exact hw
  · exact (fdStep_close (w := { v with pwmEnable := .auto :: v.pwmEnable })
      huse.hwmonPwmEnableFd).serving ⟨huse.closed, huse.removed, huse.dir, huse.pollfd,
        huse.watchFd, huse.hwmonPwmEnableFd, huse.drmFd⟩
  · exact (fdStep_close huse.hwmonPwmEnableFd).serving huse

theorem serving_fanctrlRelease (w : World) (hw : Serving w) :
    Serving (env.fanctrlRelease w).2 := by
  have hdrm : Serving (if env.drmSupport then w.release w.drmFd else w) := by
    split
    · exact (fdStep_release hw.drmFd).serving hw
    · exact hw
  exact env.serving_hwmonClose _ hdrm

/-- Stopping does not touch anything foreign either. -/
theorem serving_daemonFree (w : World) (hw : Serving w) : Serving (env.daemonFree w).2 := by
  have hwatch := env.serving_fsysWatchClear w hw
  have hsock := env.serving_unlink .sock _ ((fdStep_release hwatch.pollfd).serving hwatch)
  have hdir := env.serving_rmdir _ (env.serving_unlink .pid _ hsock)
  rw [daemonFree_snd]
  exact env.serving_fanctrlRelease _ hdir

/-! ## Without the server -/

theorem dirStep_unlink (file : File) (w : World) : DirStep w (env.unlink file w).2 := by
  unfold unlink
  split
  · exact .refl w
  · exact World.dirStep_unlink w file

theorem dirStep_rmdir (w : World) : DirStep w (env.rmdir w).2 := by
  unfold rmdir
  split
  · exact .refl w
  · exact World.dirStep_rmdir w

/-- Without a watch and without the control mode file, `daemon_free` closes what `pollfd` says and
removes what it finds. -/
theorem daemonFree_before (hw : Before start copied w) :
    (env.daemonFree w).2 =
      (env.rmdir (env.unlink .pid (env.unlink .sock (w.release 0)).2).2).2 := by
  have hwatch : (env.fsysWatchClear w).2 = w := by
    rw [fsysWatchClear, if_pos ⟨hw.watchFd, hw.watchWd⟩]
  have hserver : (env.serverKill w).2 = (env.unlink .sock (w.release 0)).2 := by
    rw [serverKill, hw.pollfd]
  rw [daemonFree_snd, hwatch, hserver, pidfileUnlink]
  have hstep := ((env.dirStep_unlink .sock (w.release 0)).trans (env.dirStep_unlink .pid _)).trans
    (env.dirStep_rmdir _)
  generalize (env.rmdir (env.unlink .pid (env.unlink .sock (w.release 0)).2).2).2 = v at hstep
  have hclose : (w.release 0).drmFd = -1 ∧ (w.release 0).hwmonPwmEnableFd = -1 := by
    rw [World.release_eq]
    exact ⟨hw.drmFd, hw.hwmonPwmEnableFd⟩
  have hdrm : v.drmFd = -1 := by
    rw [hstep.same]
    exact hclose.1
  have hhwmon : v.hwmonPwmEnableFd = -1 := by
    rw [hstep.same]
    exact hclose.2
  have hv : (if env.drmSupport then v.release v.drmFd else v) = v := by
    rw [hdrm]
    split <;> rfl
  rw [fanctrlRelease, hv, hwmonClose, if_pos hhwmon]

/-! ### The three removals of `daemon_free` in a directory that was there before -/

section Found

variable {d : FoundDir}

/-- In a directory that was there before, `unlink` removes what is not this run's, -/
theorem unlink_found (hdir : w.dir = some d.workDir) (file : File) :
    if d.has file ∧ ¬ env.refused (.unlink file) then
      (.file file, .foreign) ∈ (env.unlink file w).2.removed
    else (env.unlink file w).2 = w := by
  have hfile : d.workDir.file file = if d.has file then some .foreign else none := by
    cases file <;> rfl
  unfold unlink World.unlink
  rw [hdir]
  cases hhas : d.has file <;> cases hrefused : env.refused (.unlink file) <;>
    simp [hfile, hhas]

/-- and `rmdir` removes the directory itself when it is empty. -/
theorem rmdir_found (hdir : w.dir = some d.workDir) :
    if d.pid ∨ d.sock ∨ d.others ∨ env.refused .rmdir then (env.rmdir w).2 = w
    else (.dir, .foreign) ∈ (env.rmdir w).2.removed := by
  unfold rmdir World.rmdir
  rw [hdir]
  cases hpid : d.pid <;> cases hsock : d.sock <;> cases hothers : d.others <;>
    cases hrefused : env.refused .rmdir <;> simp [FoundDir.workDir, hpid, hsock, hothers]

end Found

/-- A failed start without a server does no harm: descriptor 0 is not inherited, either because it
was closed or because the process is a copy, and of a directory that was there nothing can be
removed. -/
structure Harmless (boot : Boot) : Prop where
  stdin : env.forks = true ∨ boot.fds[0]? ≠ some true
  files : ∀ d, boot.dir = some d → ∀ file, d.has file → env.refused (.unlink file)
  dir : ∀ d, boot.dir = some d → d.pid ∨ d.sock ∨ d.others ∨ env.refused .rmdir

/-- `daemon_free` without a server, where descriptor 0 is not inherited and the directory is the
run's own or absent -/
theorem clean_of_ownDir {boot : Boot} (hw : Before boot.world copied w)
    (hzero : ¬ w.InheritedAt 0) (hboot : boot.dir = none) (hdir : w.OwnDir) :
    boot.world.Clean (env.daemonFree w).2 := by
  have hserving : Serving w := by
    refine ⟨hw.closed, hw.removed, hdir, ?_, ?_, ?_, ?_⟩
    · rwa [hw.pollfd]
    · exact not_inheritedAt_of_eq hw.watchFd
    · exact not_inheritedAt_of_eq hw.hwmonPwmEnableFd
    · exact not_inheritedAt_of_eq hw.drmFd
  have hfree := env.serving_daemonFree w hserving
  refine ⟨hfree.closed, hfree.removed, fun h => ?_⟩
  simp [Boot.world, hboot] at h

/-- `daemon_free` without a server, where descriptor 0 is not inherited and the directory is one
that was there before -/
theorem clean_found_iff {boot : Boot} {d : FoundDir} (hw : Before boot.world copied w)
    (hzero : ¬ w.InheritedAt 0) (hboot : boot.dir = some d) (hdir : w.dir = boot.world.dir) :
    boot.world.Clean (env.daemonFree w).2 ↔ (∀ file, d.has file → env.refused (.unlink file)) ∧
      (d.pid ∨ d.sock ∨ d.others ∨ env.refused .rmdir) := by
  have hclose := fdStep_release hzero
  have hworld : boot.world.dir = some d.workDir := by rw [Boot.world, hboot, Option.map_some]
  have hdir₀ : (w.release 0).dir = some d.workDir := by rw [hclose.dir, hdir, hworld]
  rw [env.daemonFree_before hw]
  -- once something foreign is on record, the run is not clean any more
  have hrecord : ∀ {entry} {v v' : World}, (entry, Owner.foreign) ∈ v.removed → DirStep v v' →
      ¬ boot.world.Clean v' := by
    intro entry v v' hmem hstep hclean
    cases hclean.2.1 _ (hstep.removed hmem)
  by_cases hsock : d.has .sock ∧ ¬ env.refused (.unlink .sock)
  · have hremoved := env.unlink_found hdir₀ .sock
    rw [if_pos hsock] at hremoved
    refine iff_of_false (hrecord hremoved ((env.dirStep_unlink .pid _).trans
      (env.dirStep_rmdir _))) fun h => hsock.2 (h.1 .sock hsock.1)
  have hkeep₁ := env.unlink_found hdir₀ .sock
  rw [if_neg hsock] at hkeep₁
  rw [hkeep₁]
  by_cases hpid : d.has .pid ∧ ¬ env.refused (.unlink .pid)
  · have hremoved := env.unlink_found hdir₀ .pid
    rw [if_pos hpid] at hremoved
    exact iff_of_false (hrecord hremoved (env.dirStep_rmdir _)) fun h => hpid.2 (h.1 .pid hpid.1)
  have hkeep₂ := env.unlink_found hdir₀ .pid
  rw [if_neg hpid] at hkeep₂
  rw [hkeep₂]
  have hkeep₃ := env.rmdir_found hdir₀
  by_cases hdir₁ : d.pid ∨ d.sock ∨ d.others ∨ env.refused .rmdir
  · rw [if_pos hdir₁] at hkeep₃
    rw [hkeep₃]
    have hbefore := hclose.before hw
    refine iff_of_true ⟨hbefore.closed, hbefore.removed, fun _ => hclose.dir.trans hdir⟩
      ⟨fun file hhas => ?_, hdir₁⟩
    by_contra hrefused
    cases file with
    | pid => exact hpid ⟨hhas, hrefused⟩
    | sock => exact hsock ⟨hhas, hrefused⟩
  · rw [if_neg hdir₁] at hkeep₃
    exact iff_of_false (hrecord hkeep₃ (.refl _)) fun h => hdir₁ h.2

/-- Descriptor 0 is closed whatever it is. -/
theorem not_clean_of_inherited {boot : Boot} (hw : Before boot.world copied w)
    (hzero : w.InheritedAt 0) : ¬ boot.world.Clean (env.daemonFree w).2 := by
  intro hclean
  have hstep := ((env.dirStep_unlink .sock (w.release 0)).trans (env.dirStep_unlink .pid _)).trans
    (env.dirStep_rmdir _)
  have hclosed := hclean.1
  rw [env.daemonFree_before hw, hstep.same] at hclosed
  obtain ⟨k, hk, hfd⟩ := hzero
  have hmem : Origin.inherited ∈ (w.release 0).closed := by
    rw [hk]
    exact mem_closed_release hfd
  exact hclosed _ hmem rfl

/-- A failed start leaves everything foreign alone if and only if its server was already up, or
there was nothing it could close or remove. -/
theorem failedStart_clean (env : Env) (boot : Boot) :
    boot.world.Clean (env.failedStart boot.world) ↔
      env.StartsServer boot ∨ env.Harmless boot := by
  obtain ⟨ok, w, hrun, hok, hfailed, hserving⟩ := env.stepsToServer_spec boot
  rw [failedStart, daemonInit, Process.runSteps_append, hrun]
  cases ok with
  | true =>
    obtain ⟨hboot, hw⟩ := hserving rfl
    have hfree := env.serving_daemonFree _ (env.serving_stepsBehindServer w hw)
    refine iff_of_true ⟨hfree.closed, hfree.removed, fun h => ?_⟩ (.inl (hok.mp rfl))
    simp [Boot.world, hboot] at h
  | false =>
    obtain ⟨hw, hleft⟩ := hfailed rfl
    have hserver : ¬ env.StartsServer boot := fun h => by cases hok.mpr h
    rw [or_iff_right hserver]
    -- without a server `pollfd` is still 0, and that descriptor is closed
    have hstdin : w.InheritedAt 0 ↔ ¬ (env.forks = true ∨ boot.fds[0]? ≠ some true) := by
      rw [hw.inherited, boot.inheritedAt_zero]
      simp
    by_cases hzero : w.InheritedAt 0
    · exact iff_of_false (env.not_clean_of_inherited hw hzero) fun h => hstdin.mp hzero h.stdin
    have hstdin' := not_not.mp (mt hstdin.mpr hzero)
    cases hboot : boot.dir with
    | none =>
      have hown : w.OwnDir := by
        rcases hleft with hdir | ⟨-, hown⟩
        · intro d hd
          rw [hdir, Boot.world, hboot] at hd
          cases hd
        · exact hown
      refine iff_of_true (env.clean_of_ownDir hw hzero hboot hown) ⟨hstdin', ?_, ?_⟩ <;>
        simp [hboot]
    | some d =>
      have hdir : w.dir = boot.world.dir := by
        rcases hleft with hdir | ⟨hnone, -⟩
        · exact hdir
        · rw [hboot] at hnone
          cases hnone
      rw [env.clean_found_iff hw hzero hboot hdir]
      refine ⟨?_, ?_⟩
      · rintro ⟨hfiles, hrmdir⟩
        refine ⟨hstdin', ?_, ?_⟩ <;> rintro d' hd' <;> rw [hboot, Option.some.injEq] at hd' <;>
          subst hd' <;> assumption
      · intro h
        exact ⟨h.files d hboot, h.dir d hboot⟩

/-- A second instance, started while the first one runs, cannot create the working directory. It
removes the socket, the PID file and the directory of the first one. -/
theorem second_instance_removes_first :
    let boot : Boot := ⟨some ⟨true, true, false⟩, [true, true, true]⟩
    let env : Env := ⟨true, false, 255, some [], fun _ => false, fun _ => []⟩
    (env.daemonInit boot.world).1 = false ∧
      (env.failedStart boot.world).removed =
        [(.dir, .foreign), (.file .pid, .foreign), (.file .sock, .foreign)] ∧
      ¬ boot.world.Clean (env.failedStart boot.world) := by
  intro boot env
  have hremoved : (env.failedStart boot.world).removed =
      [(.dir, .foreign), (.file .pid, .foreign), (.file .sock, .foreign)] := by decide +kernel
  refine ⟨by decide +kernel, hremoved, fun hclean => ?_⟩
  cases hclean.2.1 (.dir, .foreign) (by rw [hremoved]; simp)

end Env

end AmdgpuFand
