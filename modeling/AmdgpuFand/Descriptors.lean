import AmdgpuFand.FailedStart

/-!
# Whose the descriptors are

`daemon_init` stores the descriptors of the server, the watch, the control mode file and the DRM
device in variables of four modules, and `daemon_free` closes what the variables say. The variables
keep their values after that, so the next `daemon_init` begins with stale numbers in them, and
replaces them one after the other as it gets on.

`World.Owns` is the ledger: which descriptors the run has opened and not closed, each with its
number and the call that returned it. Every operation says what it does to the ledger
(`Owns.openFd`, `Owns.close`), and from this follows how far `daemon_init` gets
(`daemonInit_started`) and what `daemon_free` does to numbers that are current or stale
(`at_daemonFree`, `reused_daemonFree`, `daemonFree_hwmonClose`).
-/

namespace AmdgpuFand

namespace World

/-! ## The ledger -/

/-- The descriptors that this run has opened and not closed are `live`, and every other one that it
has opened has been closed once. -/
structure Owns (live : List (ℕ × Call)) (w : World) : Prop where
  live_iff : ∀ k call, (k, call) ∈ live ↔ ∃ id, w.fd k = some (.opened call id)
  inj : ∀ j k call id, w.fd j = some (.opened call id) → w.fd k = some (.opened call id) → j = k
  held : ∀ k call id, w.fd k = some (.opened call id) →
    .opened call id ∈ w.obtained ∧ .opened call id ∉ w.closed
  ids : ∀ call id, .opened call id ∈ w.obtained ∨ .opened call id ∈ w.closed →
    id < w.obtained.length
  opened : ∀ origin ∈ w.obtained, ∃ call id, origin = .opened call id
  accounted : ∀ origin ∈ w.obtained, w.closed.count origin = 1 ∨ ∃ k, w.fd k = some origin
  shut : ∀ k ∈ w.closedFds, w.fd k = none

variable {live : List (ℕ × Call)} {w w' : World}

/-- Nothing else in the world matters to it. -/
theorem Owns.frame (h : Owns live w) (hfds : w'.fds = w.fds) (hobtained : w'.obtained = w.obtained)
    (hclosed : w'.closed = w.closed) (hclosedFds : w'.closedFds = w.closedFds) : Owns live w' := by
  have hfd : ∀ k, w'.fd k = w.fd k := fun k => by rw [fd, fd, hfds]
  refine ⟨?_, ?_, ?_, ?_, ?_, ?_, ?_⟩ <;> simp only [hfd, hobtained, hclosed, hclosedFds]
  · exact h.live_iff
  · exact h.inj
  · exact h.held
  · exact h.ids
  · exact h.opened
  · exact h.accounted
  · exact h.shut

/-- A number in the ledger has one entry. -/
theorem Owns.call_eq (h : Owns live w) {k : ℕ} {call call' : Call} (hk : (k, call) ∈ live)
    (hk' : (k, call') ∈ live) : call = call' := by
  obtain ⟨id, hid⟩ := (h.live_iff k call).mp hk
  obtain ⟨id', hid'⟩ := (h.live_iff k call').mp hk'
  rw [hid, Option.some.injEq, Origin.opened.injEq] at hid'
  exact hid'.1

/-- Entries of different calls have different numbers. -/
theorem Owns.ne (h : Owns live w) {j k : ℕ} {call call' : Call} (hj : (j, call) ∈ live)
    (hk : (k, call') ∈ live) (hne : call ≠ call') : j ≠ k := by
  rintro rfl
  exact hne (h.call_eq hj hk)

/-- What is in the ledger is open, so it has not been closed. -/
theorem Owns.not_mem_closedFds (h : Owns live w) {k : ℕ} {call : Call} (hk : (k, call) ∈ live) :
    k ∉ w.closedFds := by
  intro hmem
  obtain ⟨id, hid⟩ := (h.live_iff k call).mp hk
  rw [h.shut k hmem] at hid
  cases hid

/-- The next origin is not on record yet. -/
theorem Owns.fresh (h : Owns live w) (call : Call) :
    Origin.opened call w.obtained.length ∉ w.obtained ∧
      Origin.opened call w.obtained.length ∉ w.closed :=
  ⟨fun hmem => Nat.lt_irrefl _ (h.ids call _ (Or.inl hmem)),
    fun hmem => Nat.lt_irrefl _ (h.ids call _ (Or.inr hmem))⟩

/-- The entries after an `open`, and what the table has for them -/
theorem Owns.live_iff_openFd (h : Owns live w) (others : List ℕ) (call : Call) (k : ℕ)
    (call' : Call) :
    (k, call') ∈ ((w.openFd others call).1, call) :: live ↔
      ∃ id, (w.openFd others call).2.fd k = some (.opened call' id) := by
  rw [w.fd_openFd others call, List.mem_cons, Prod.mk.injEq, h.live_iff]
  by_cases hk : k = (w.openFd others call).1
  · rw [if_pos hk]
    refine ⟨?_, ?_⟩
    · rintro (⟨-, rfl⟩ | ⟨id, hid⟩)
      · exact ⟨_, rfl⟩
      · rw [hk, w.fd_openFd_fst others call] at hid
        cases hid
    · rintro ⟨id, hid⟩
      cases hid
      exact Or.inl ⟨hk, rfl⟩
  · rw [if_neg hk]
    simp [hk]

/-- Two numbers never have one origin, the new one included. -/
theorem Owns.inj_openFd (h : Owns live w) (others : List ℕ) (call : Call) {j k : ℕ} {call' : Call}
    {id : ℕ} (hj : (w.openFd others call).2.fd j = some (.opened call' id))
    (hk : (w.openFd others call).2.fd k = some (.opened call' id)) : j = k := by
  rw [w.fd_openFd others call] at hj hk
  split_ifs at hj hk with hjn hkn hkn
  · rw [hjn, hkn]
  · cases hj
    exact absurd (h.held k _ _ hk).1 (h.fresh _).1
  · cases hk
    exact absurd (h.held j _ _ hj).1 (h.fresh _).1
  · exact h.inj j k call' id hj hk

/-- A new descriptor gets a new entry. -/
theorem Owns.openFd (h : Owns live w) (others : List ℕ) (call : Call) :
    Owns (((w.openFd others call).1, call) :: live) (w.openFd others call).2 := by
  have hfd := w.fd_openFd others call
  have hfree := w.fd_openFd_fst others call
  refine ⟨h.live_iff_openFd others call, fun j k call' id hj hk => h.inj_openFd others call hj hk,
    fun k call' id hk => ?_, fun call' id hid => ?_, fun origin ho => ?_, fun origin ho => ?_,
    fun k hk => ?_⟩
  · rw [hfd] at hk
    split_ifs at hk with hkn
    · cases hk
      -- the new descriptor has an identity of its own
      exact ⟨List.mem_cons_self .., (h.fresh _).2⟩
    · obtain ⟨hobtained, hclosed⟩ := h.held k call' id hk
      exact ⟨List.mem_cons_of_mem _ hobtained, hclosed⟩
  · rw [World.openFd, List.length_cons]
    rcases hid with hid | hid
    · rcases List.mem_cons.mp hid with heq | hid
      · cases heq
        exact Nat.lt_succ_self _
      · exact Nat.lt_succ_of_lt (h.ids call' id (Or.inl hid))
    · exact Nat.lt_succ_of_lt (h.ids call' id (Or.inr hid))
  · rcases List.mem_cons.mp ho with rfl | ho
    · exact ⟨_, _, rfl⟩
    · exact h.opened origin ho
  · rcases List.mem_cons.mp ho with rfl | ho
    · exact Or.inr ⟨_, by rw [hfd, if_pos rfl]⟩
    · rcases h.accounted origin ho with hcount | ⟨k, hk⟩
      · exact Or.inl hcount
      · refine Or.inr ⟨k, ?_⟩
        rw [hfd, if_neg, hk]
        rintro rfl
        rw [hfree] at hk
        cases hk
  · obtain ⟨hmem, hkn⟩ := List.mem_filter.mp hk
    rw [hfd, if_neg, h.shut k hmem]
    rintro rfl
    simp [World.openFd] at hkn

/-- The entries of a ledger that are not of a number -/
def without (n : ℤ) (live : List (ℕ × Call)) : List (ℕ × Call) :=
  live.filter fun entry => (entry.1 : ℤ) ≠ n

theorem mem_without {n : ℤ} {entry : ℕ × Call} :
    entry ∈ without n live ↔ entry ∈ live ∧ (entry.1 : ℤ) ≠ n := by
  simp [without]

theorem without_eq (h : ∀ entry ∈ live, (entry.1 : ℤ) ≠ n) : without n live = live :=
  List.filter_eq_self.mpr fun entry hmem => decide_eq_true (h entry hmem)

/-- A number that is not open has no entry. -/
theorem Owns.without_eq_of_none (h : Owns live w) {n : ℕ} (hn : w.fd n = none) :
    without n live = live := by
  refine without_eq ?_
  rintro ⟨k, call⟩ hmem heq
  obtain ⟨id, hid⟩ := (h.live_iff k call).mp hmem
  obtain rfl : k = n := Int.ofNat_inj.mp heq
  rw [hn] at hid
  cases hid

/-- What was opened is in the table still, or it has gone now, or it had gone before. -/
theorem Owns.accounted_close (h : Owns live w) {n : ℕ} {gone origin : Origin}
    (hn : w.fd n = some gone) (ho : origin ∈ w.obtained) :
    (gone :: w.closed).count origin = 1 ∨ ∃ k, k ≠ n ∧ w.fd k = some origin := by
  by_cases hgone : gone = origin
  · subst hgone
    obtain ⟨call, id, rfl⟩ := h.opened gone ho
    refine Or.inl ?_
    rw [List.count_cons_self, List.count_eq_zero_of_not_mem (h.held n call id hn).2]
  · rw [List.count_cons_of_ne hgone]
    rcases h.accounted origin ho with hcount | ⟨k, hk⟩
    · exact Or.inl hcount
    · refine Or.inr ⟨k, ?_, hk⟩
      rintro rfl
      rw [hn, Option.some.injEq] at hk
      exact hgone hk

/-- Closing an open number removes its entry. -/
theorem Owns.close_some (h : Owns live w) {n : ℕ} {gone : Origin} (hn : w.fd n = some gone) :
    Owns (without n live) (w.close n) := by
  have hfd : ∀ k, (w.close n).fd k = if k = n then none else w.fd k := by
    intro k
    rw [close_open hn]
    exact Process.fd_closed w.fds n k
  have hclosed : (w.close n).closed = gone :: w.closed := by
    rw [close_open hn]
  have hclosedFds : (w.close n).closedFds = n :: w.closedFds := by
    rw [close_open hn]
  have hobtained : (w.close n).obtained = w.obtained := by
    rw [close_eq]
  refine ⟨fun k call => ?_, fun j k call id hj hk => ?_, fun k call id hk => ?_,
    fun call id hid => ?_, fun origin ho => ?_, fun origin ho => ?_, fun k hk => ?_⟩
  · rw [mem_without, h.live_iff, hfd, ne_eq, Int.natCast_inj]
    by_cases hk : k = n
    · simp [hk]
    · simp [hk]
  · rw [hfd] at hj hk
    split_ifs at hj hk
    exact h.inj j k call id hj hk
  · rw [hfd] at hk
    split_ifs at hk with hkn
    obtain ⟨hmem, hnot⟩ := h.held k call id hk
    rw [hobtained, hclosed, List.mem_cons, not_or]
    refine ⟨hmem, ?_, hnot⟩
    -- an origin that is still in the table is not the one that has gone
    rintro rfl
    exact hkn (h.inj k n call id hk hn)
  · rw [hobtained]
    rw [hobtained, hclosed] at hid
    rcases hid with hid | hid
    · exact h.ids call id (Or.inl hid)
    · rcases List.mem_cons.mp hid with rfl | hid
      · exact h.ids call id (Or.inl (h.held n call id hn).1)
      · exact h.ids call id (Or.inr hid)
  · rw [hobtained] at ho
    exact h.opened origin ho
  · rw [hobtained] at ho
    rw [hclosed]
    rcases h.accounted_close hn ho with hcount | ⟨k, hkn, hk⟩
    · exact Or.inl hcount
    · exact Or.inr ⟨k, by rw [hfd, if_neg hkn, hk]⟩
  · rw [hfd]
    rw [hclosedFds] at hk
    split_ifs with hkn
    · rfl
    · rcases List.mem_cons.mp hk with rfl | hk
      · exact absurd rfl hkn
      · exact h.shut k hk

/-- Closing a number removes its entry, if there is one. -/
theorem Owns.close (h : Owns live w) (n : ℤ) : Owns (without n live) (w.close n) := by
  cases n with
  | negSucc k =>
    rw [without_eq fun entry _ => by omega]
    exact h
  | ofNat n =>
    change Owns (without (n : ℤ) live) (w.close (n : ℤ))
    cases hn : w.fd n with
    | none =>
      rw [close_shut hn, h.without_eq_of_none hn]
      exact h
    | some gone => exact h.close_some hn

/-- Closing the number that has just been opened. -/
theorem without_cons_self {k : ℕ} {call : Call} (h : Owns live w) (hk : w.fd k = none) :
    without k ((k, call) :: live) = live := by
  rw [without, List.filter_cons_of_neg (by simp)]
  exact h.without_eq_of_none hk

theorem Owns.forked (h : Owns [] w) : Owns [] w.forked := by
  have hnone : ∀ k call id, w.forked.fd k ≠ some (.opened call id) := by
    intro k call id hk
    rw [fd, World.forked, Process.fd_map] at hk
    obtain ⟨origin, -, horigin⟩ := Option.map_eq_some_iff.mp hk
    cases horigin
  refine ⟨fun k call => ?_, fun j k call id hj => absurd hj (hnone j call id),
    fun k call id hk => absurd hk (hnone k call id), h.ids, h.opened, fun origin ho => ?_,
    fun k hk => ?_⟩
  · refine iff_of_false List.not_mem_nil ?_
    rintro ⟨id, hid⟩
    exact hnone k call id hid
  · rcases h.accounted origin ho with hcount | ⟨k, hk⟩
    · exact Or.inl hcount
    · obtain ⟨call, id, rfl⟩ := h.opened origin ho
      exact absurd ((h.live_iff k call).mpr ⟨id, hk⟩) List.not_mem_nil
  · rw [fd, World.forked, Process.fd_map]
    have := h.shut k hk
    rw [fd] at this
    rw [this]
    rfl

theorem Owns.closeAll (h : Owns [] w) (max : ℕ) : Owns [] (w.closeAll max) := by
  induction max generalizing w with
  | zero => exact h.close 0
  | succ max ih => exact ih (h.close (max + 1))

/-- When the ledger is empty, everything that the run has opened has been closed once. -/
theorem Owns.closed_once (h : Owns [] w) : ∀ origin ∈ w.obtained, w.closed.count origin = 1 := by
  intro origin ho
  rcases h.accounted origin ho with hcount | ⟨k, hk⟩
  · exact hcount
  · obtain ⟨call, id, rfl⟩ := h.opened origin ho
    exact absurd ((h.live_iff k call).mpr ⟨id, hk⟩) List.not_mem_nil

end World

/-! ## The variables -/

/-- The variables that descriptors are stored in -/
structure Vars where
  pollfd : ℤ
  watchFd : ℤ
  watchWd : ℤ
  hwmonPwmEnableFd : ℤ
  drmFd : ℤ

namespace World

/-- Their values -/
def vars (w : World) : Vars := ⟨w.pollfd, w.watchFd, w.watchWd, w.hwmonPwmEnableFd, w.drmFd⟩

/-- Where a run stands: its ledger, its variables, what it has written to `pwm1_enable`, and the
numbers that it has used again. -/
structure At (live : List (ℕ × Call)) (v : Vars) (modes : List PwmMode) (reused : List ℕ)
    (w : World) : Prop where
  owns : Owns live w
  vars : w.vars = v
  pwmEnable : w.pwmEnable = modes
  reused : w.reused = reused

section At

variable {live : List (ℕ × Call)} {v v' : Vars} {modes : List PwmMode} {reused : List ℕ}
  {w w' : World}

/-- An `open` adds an entry to the ledger, under the lowest unused number, -/
theorem At.openFd (h : At live v modes reused w) (others : List ℕ) (call : Call) :
    At (((w.openFd others call).1, call) :: live) v modes reused (w.openFd others call).2 :=
  ⟨h.owns.openFd others call, h.vars, h.pwmEnable, h.reused⟩

/-- and a `close` removes the entry of its number. -/
theorem At.close (h : At live v modes reused w) (n : ℤ) :
    At (without n live) v modes reused (w.close n) := by
  refine ⟨h.owns.close n, ?_, ?_, ?_⟩
  · rw [close_eq]
    exact h.vars
  · rw [close_eq]
    exact h.pwmEnable
  · rw [close_eq]
    exact h.reused

/-- Closing a number that was free before it was opened -/
theorem At.closeOpened (h : At live v modes reused w) {k : ℕ} {call : Call}
    (hk : w.fd k = none) (h' : At ((k, call) :: live) v' modes reused w') :
    At live v' modes reused (w'.close k) := by
  have hclose := h'.close k
  rwa [without_cons_self h.owns hk] at hclose

theorem At.use (h : At live v modes reused w) (n : ℤ) :
    At live v modes (w.use n).reused (w.use n) := by
  have huse := w.use_eq n
  generalize w.use n = w' at huse
  rw [huse]
  exact ⟨h.owns.frame rfl rfl rfl rfl, h.vars, h.pwmEnable, rfl⟩

theorem At.release (h : At live v modes reused w) (n : ℤ) :
    At (without n live) v modes (w.use n).reused (w.release n) :=
  (h.use n).close n

/-- A copy of the process has the ledger of the original when it is empty, -/
theorem At.forked (h : At [] v modes reused w) : At [] v modes reused w.forked :=
  ⟨h.owns.forked, h.vars, h.pwmEnable, h.reused⟩

/-- and the sweep of `daemon_fork` closes nothing of it. -/
theorem At.closeAll (h : At [] v modes reused w) (max : ℕ) :
    At [] v modes reused (w.closeAll max) := by
  induction max generalizing w with
  | zero => exact h.close 0
  | succ max ih => exact ih (h.close (max + 1))

/-- What happens to the working directory leaves the ledger alone. -/
theorem DirStep.at (hstep : DirStep w w') (h : At live v modes reused w) :
    At live v modes reused w' := by
  rw [hstep.same]
  exact ⟨h.owns.frame rfl rfl rfl rfl, h.vars, h.pwmEnable, h.reused⟩

end At

end World

/-! ## `daemon_init` -/

namespace Env

open World

variable (env : Env) {live : List (ℕ × Call)} {v : Vars} {modes : List PwmMode}
  {reused : List ℕ} {w : World}

/-! ### Up to the server -/

theorem at_openFd (h : At live v modes reused w) (call : Call) :
    At (((env.openFd call w).1, call) :: live) v modes reused (env.openFd call w).2 :=
  h.openFd (env.others call) call

/-- A descriptor that is opened, used and closed again leaves no entry. -/
theorem at_useFd (h : At live v modes reused w) (call : Call) :
    At live v modes reused (env.useFd call w) :=
  h.closeOpened (w.fd_openFd_fst (env.others call) call) (env.at_openFd h call)

theorem at_maybeFork (h : At [] v modes reused w) : At [] v modes reused (env.maybeFork w).2 :=
  env.maybeFork_keeps (fun _ h => h.forked) (fun _ h => h.closeAll env.openMax) h

theorem at_mkdir (h : At live v modes reused w) : At live v modes reused (env.mkdir w).2 := by
  unfold mkdir
  split_ifs
  · exact h
  · exact (dirStep_setDir w _).at h

theorem at_pidfileWrite (h : At live v modes reused w) :
    At live v modes reused (env.pidfileWrite w).2 := by
  unfold pidfileWrite
  split
  · exact h
  · split_ifs
    · exact h
    · exact h
    · exact env.at_useFd h .pidOpenExisting
    · exact env.at_useFd ((dirStep_setDir w _).at h) .pidOpen

theorem at_configParse (h : At live v modes reused w) :
    At live v modes reused (env.configParse w).2 := by
  have huse :
      At live v modes reused (if env.config.isSome then env.useFd .configOpen w else w) := by
    split
    · exact env.at_useFd h .configOpen
    · exact h
  exact ⟨huse.owns.frame rfl rfl rfl rfl, huse.vars, huse.pwmEnable, huse.reused⟩

/-- `server_init` stores its descriptor, or closes it again. -/
theorem at_serverInit (h : At live v modes reused w) :
    ∃ ok w', env.serverInit w = (ok, w') ∧ (ok = false → At live v modes reused w') ∧
      (ok = true → ∃ p : ℕ, At ((p, .socket) :: live) { v with pollfd := p } modes reused w') := by
  have hfree := w.fd_openFd_fst (env.others .socket) .socket
  have hopen := env.at_openFd h .socket
  unfold serverInit
  by_cases hsocket : env.refused .socket = true
  · exact ⟨false, w, if_pos hsocket, fun _ => h, by simp⟩
  · rw [if_neg hsocket]
    dsimp only
    generalize hp : (env.openFd .socket w).1 = p at hopen
    generalize (env.openFd .socket w).2 = w₁ at hopen
    rw [← openFd, hp] at hfree
    split
    · exact ⟨false, _, rfl, fun _ => h.closeOpened hfree hopen, by simp⟩
    next d hd =>
      split_ifs
      · exact ⟨false, _, rfl, fun _ => h.closeOpened hfree hopen, by simp⟩
      · have hbound := (dirStep_setDir w₁ (some { d with sock := some .own })).at hopen
        exact ⟨false, _, rfl, fun _ => h.closeOpened hfree hbound, by simp⟩
      · have hbound := (dirStep_setDir w₁ (some { d with sock := some .own })).at hopen
        have hgone := (World.dirStep_unlink _ .sock).at hbound
        exact ⟨false, _, rfl, fun _ => h.closeOpened hfree hgone, by simp⟩
      · refine ⟨true, _, rfl, by simp, fun _ => ⟨p, hopen.owns.frame rfl rfl rfl rfl, ?_,
          hopen.pwmEnable, hopen.reused⟩⟩
        rw [← hopen.vars]
        rfl

/-- Up to the server the ledger is empty; then it has the socket. -/
theorem at_stepsToServer (h : At [] v modes reused w) :
    ∃ ok w', Process.runSteps env.stepsToServer w = (ok, w') ∧
      (ok = false → At [] v modes reused w') ∧
      (ok = true → ∃ p : ℕ, At [(p, .socket)] { v with pollfd := p } modes reused w') := by
  have hsplit : env.stepsToServer = [env.daemonSetSigacts, env.maybeFork, env.mkdir,
    env.pidfileWrite, env.chdir, env.configParse] ++ [env.serverInit] := rfl
  have hbefore : At [] v modes reused (Process.runSteps [env.daemonSetSigacts, env.maybeFork,
      env.mkdir, env.pidfileWrite, env.chdir, env.configParse] w).2 := by
    refine Process.runSteps_keeps (fun step hstep w hw => ?_) h
    simp only [List.mem_cons, List.not_mem_nil, or_false] at hstep
    rcases hstep with rfl | rfl | rfl | rfl | rfl | rfl
    · exact hw
    · exact env.at_maybeFork hw
    · exact env.at_mkdir hw
    · exact env.at_pidfileWrite hw
    · exact hw
    · exact env.at_configParse hw
  rw [hsplit, Process.runSteps_append]
  rcases hrun : Process.runSteps [env.daemonSetSigacts, env.maybeFork, env.mkdir,
    env.pidfileWrite, env.chdir, env.configParse] w with ⟨_ | _, w₁⟩
  · rw [hrun] at hbefore
    exact ⟨false, w₁, rfl, fun _ => hbefore, by simp⟩
  · rw [hrun] at hbefore
    obtain ⟨ok, w₂, hserver, hfailed, hserving⟩ := env.at_serverInit hbefore
    refine ⟨ok, w₂, ?_, hfailed, hserving⟩
    cases ok with
    | false => exact Process.runSteps_cons_false hserver
    | true => exact Process.runSteps_cons_true hserver

/-! ### Up to the control mode file -/

/-- `fsys_watch_init` likewise. -/
theorem at_fsysWatchInit (h : At live v modes reused w) :
    ∃ ok w', env.fsysWatchInit w = (ok, w') ∧ (ok = false → At live v modes reused w') ∧
      (ok = true → ∃ q : ℕ,
        At ((q, .inotifyInit) :: live) { v with watchFd := q, watchWd := 1 } modes reused w') := by
  have hfree := w.fd_openFd_fst (env.others .inotifyInit) .inotifyInit
  have hopen := env.at_openFd h .inotifyInit
  unfold fsysWatchInit
  split_ifs
  · exact ⟨false, w, rfl, fun _ => h, by simp⟩
  · exact ⟨false, _, rfl, fun _ => h.closeOpened hfree hopen, by simp⟩
  · refine ⟨true, _, rfl, by simp, fun _ => ⟨_, hopen.owns.frame rfl rfl rfl rfl, ?_,
      hopen.pwmEnable, hopen.reused⟩⟩
    rw [← hopen.vars]
    rfl

/-- `hwmon_open` up to `hwmon_set_pwm_mode_manual` -/
def hwmonPaths (w : World) : Bool × World :=
  match env.cacheLoad w with
  | (true, w) => (true, w)
  | (false, w) => Process.runSteps [env.hwmonSetSysfsPaths, env.cacheWrite] w

/-- `hwmon_open` in two steps -/
theorem hwmonOpen_eq (w : World) :
    env.hwmonOpen w = Process.runSteps [env.hwmonPaths, env.hwmonSetPwmModeManual] w := by
  have hlast : ∀ w, Process.runSteps [env.hwmonSetPwmModeManual] w =
      env.hwmonSetPwmModeManual w := by
    intro w
    rcases hmanual : env.hwmonSetPwmModeManual w with ⟨_ | _, w'⟩
    · exact Process.runSteps_cons_false hmanual
    · exact Process.runSteps_cons_true hmanual
  have hsplit : [env.hwmonSetSysfsPaths, env.cacheWrite, env.hwmonSetPwmModeManual] =
      [env.hwmonSetSysfsPaths, env.cacheWrite] ++ [env.hwmonSetPwmModeManual] := rfl
  rw [hwmonOpen, Process.runSteps, hwmonPaths]
  rcases env.cacheLoad w with ⟨_ | _, w₁⟩
  · dsimp only
    rw [hsplit, Process.runSteps_append]
  · exact (hlast w₁).symm

/-- The files for the paths are only opened, used and closed. -/
theorem hwmonPaths_keeps {inv : World → Prop}
    (huse : ∀ call w, inv w → inv (env.useFd call w)) {w : World} (hw : inv w) :
    inv (env.hwmonPaths w).2 := by
  have hload := env.useFile_keeps huse .cacheOpen .cacheRead hw
  rw [← cacheLoad] at hload
  rw [hwmonPaths]
  rcases hw₁ : env.cacheLoad w with ⟨_ | _, w₁⟩
  · rw [hw₁] at hload
    refine Process.runSteps_keeps (fun step hstep w hw => ?_) hload
    simp only [List.mem_cons, List.not_mem_nil, or_false] at hstep
    rcases hstep with rfl | rfl
    · exact env.useFile_keeps huse _ _ hw
    · exact env.useFile_keeps huse _ _ hw
  · rw [hw₁] at hload
    exact hload

theorem at_hwmonPaths (h : At live v modes reused w) :
    At live v modes reused (env.hwmonPaths w).2 :=
  @hwmonPaths_keeps env (At live v modes reused) (fun call _ h => env.at_useFd h call) w h

/-- The steps of `daemon_init` before `hwmon_set_pwm_mode_manual` -/
def stepsToControl : List (World → Bool × World) :=
  env.stepsToServer ++ [env.fsysWatchInit, env.hwmonPaths]

/-- `hwmon_set_pwm_mode_manual` and what follows it -/
def stepsFromControl : List (World → Bool × World) :=
  env.hwmonSetPwmModeManual :: ((if env.drmSupport then [env.drmOpen] else []) ++ [configure])

/-- `daemon_init` cut at `hwmon_set_pwm_mode_manual` -/
theorem daemonInit_eq (w : World) :
    env.daemonInit w = Process.runSteps (env.stepsToControl ++ env.stepsFromControl) w := by
  have hhwmon : env.hwmonOpen = Process.runSteps [env.hwmonPaths, env.hwmonSetPwmModeManual] :=
    funext env.hwmonOpen_eq
  have hfanctrl : env.fanctrlInit =
      Process.runSteps (env.hwmonOpen :: if env.drmSupport then [env.drmOpen] else []) := by
    funext w
    rw [fanctrlInit]
    split <;> rfl
  -- `hwmon_open` is the first step of `fanctrl_init`, and is cut in two
  have hrest : ∀ w, Process.runSteps [env.fanctrlInit, configure] w =
      Process.runSteps (env.hwmonPaths :: env.stepsFromControl) w := by
    intro w
    rw [hfanctrl, Process.runSteps_nested, List.cons_append, hhwmon, Process.runSteps_nested]
    rfl
  rw [daemonInit, stepsToControl, List.append_assoc, Process.runSteps_append,
    Process.runSteps_append]
  rcases Process.runSteps env.stepsToServer w with ⟨_ | _, w₁⟩
  · rfl
  · rw [stepsBehindServer, List.cons_append]
    rcases hwatch : env.fsysWatchInit w₁ with ⟨_ | _, w₂⟩
    · dsimp only
      rw [Process.runSteps_cons_false hwatch, Process.runSteps_cons_false hwatch]
    · dsimp only
      rw [Process.runSteps_cons_true hwatch, Process.runSteps_cons_true hwatch, hrest]
      rfl

/-- What `daemon_init` has when it begins in `w` and fails in `w'`, before
`hwmon_set_pwm_mode_manual`. -/
inductive StoppedBefore (env : Env) (v : Vars) (modes : List PwmMode) (reused : List ℕ)
    (w w' : World) : Prop
  | bare (hserver : Process.runSteps env.stepsToServer w = (false, w'))
      (h : At [] v modes reused w')
  | server (p : ℕ) (h : At [(p, .socket)] { v with pollfd := p } modes reused w')
  | watch (p q : ℕ) (h : At [(q, .inotifyInit), (p, .socket)]
      { v with pollfd := p, watchFd := q, watchWd := 1 } modes reused w')

/-- Up to `hwmon_set_pwm_mode_manual` the ledger has the socket and the watch, or the start has
failed before. -/
theorem at_stepsToControl (h : At [] v modes reused w) :
    ∃ ok w', Process.runSteps env.stepsToControl w = (ok, w') ∧
      (ok = false → StoppedBefore env v modes reused w w') ∧
      (ok = true → ∃ p q : ℕ, At [(q, .inotifyInit), (p, .socket)]
        { v with pollfd := p, watchFd := q, watchWd := 1 } modes reused w') := by
  obtain ⟨ok, w₁, hrun, hfailed, hserving⟩ := env.at_stepsToServer h
  rw [stepsToControl, Process.runSteps_append, hrun]
  cases ok with
  | false => exact ⟨false, w₁, rfl, fun _ => .bare hrun (hfailed rfl), by simp⟩
  | true =>
    obtain ⟨p, hp⟩ := hserving rfl
    obtain ⟨ok, w₂, hwatch, hfailed, hwatching⟩ := env.at_fsysWatchInit hp
    cases ok with
    | false =>
      exact ⟨false, w₂, Process.runSteps_cons_false hwatch, fun _ => .server p (hfailed rfl),
        by simp⟩
    | true =>
      obtain ⟨q, hq⟩ := hwatching rfl
      have hpaths := env.at_hwmonPaths hq
      dsimp only
      rw [Process.runSteps_cons_true hwatch]
      rcases hrun : env.hwmonPaths w₂ with ⟨_ | _, w₃⟩
      · rw [hrun] at hpaths
        exact ⟨false, w₃, Process.runSteps_cons_false hrun, fun _ => .watch p q hpaths, by simp⟩
      · rw [hrun] at hpaths
        exact ⟨true, w₃, Process.runSteps_cons_true hrun, by simp, fun _ => ⟨p, q, hpaths⟩⟩

/-! ### From there on -/

/-- `hwmon_set_pwm_mode_manual` stores its descriptor whether it can write to it or not, and `-1`
if there is none. -/
theorem at_hwmonSetPwmModeManual (h : At live v modes reused w) :
    ∃ ok w', env.hwmonSetPwmModeManual w = (ok, w') ∧
      (ok = false → env.refused .pwmEnableOpen = true ∧
          At live { v with hwmonPwmEnableFd := -1 } modes reused w' ∨
        env.refused .pwmEnableWrite = true ∧ ∃ k : ℕ,
          At ((k, .pwmEnableOpen) :: live) { v with hwmonPwmEnableFd := k } modes reused w') ∧
      (ok = true → ∃ k : ℕ, At ((k, .pwmEnableOpen) :: live) { v with hwmonPwmEnableFd := k }
        (.manual :: modes) reused w') := by
  have hopen := env.at_openFd h .pwmEnableOpen
  unfold hwmonSetPwmModeManual
  split_ifs with hrefused hwrite
  · refine ⟨false, _, rfl, fun _ => Or.inl ⟨hrefused, h.owns.frame rfl rfl rfl rfl, ?_,
      h.pwmEnable, h.reused⟩, by simp⟩
    rw [← h.vars]
    rfl
  · refine ⟨false, _, rfl, fun _ => Or.inr ⟨hwrite, _, hopen.owns.frame rfl rfl rfl rfl, ?_,
      hopen.pwmEnable, hopen.reused⟩, by simp⟩
    rw [← hopen.vars]
    rfl
  · refine ⟨true, _, rfl, by simp, fun _ => ⟨_, hopen.owns.frame rfl rfl rfl rfl, ?_, ?_,
      hopen.reused⟩⟩
    · rw [← hopen.vars]
      rfl
    · rw [← hopen.pwmEnable]

/-- `drm_open` comes to the assignment of `drm_fd`. -/
def drmAssigns : Bool := !env.refused .drmRegcomp && !env.refused .drmEntry

/-- `drm_open` leaves `drm_fd` as it is, or stores `-1`, or a descriptor. -/
theorem at_drmOpen (h : At live v modes reused w) :
    env.drmAssigns = false ∧ At live v modes reused (env.drmOpen w).2 ∨
      At live { v with drmFd := -1 } modes reused (env.drmOpen w).2 ∨
      ∃ d : ℕ, At ((d, .drmOpen) :: live) { v with drmFd := d } modes reused (env.drmOpen w).2 := by
  have hfree := w.fd_openFd_fst (env.others .drmDir) .drmDir
  have hdir := env.at_openFd h .drmDir
  unfold drmOpen
  by_cases hregcomp : env.refused .drmRegcomp = true
  · rw [if_pos hregcomp]
    exact Or.inl ⟨by simp [drmAssigns, hregcomp], h⟩
  rw [if_neg hregcomp]
  dsimp only
  rw [← openFd] at hfree
  generalize (env.openFd .drmDir w).1 = dir at hdir hfree
  generalize (env.openFd .drmDir w).2 = w₁ at hdir
  have hopen := env.at_openFd hdir .drmOpen
  split_ifs with hentry hrefused
  · exact Or.inl ⟨by simp [drmAssigns, hentry], h.closeOpened hfree hdir⟩
  · have hset : At ((dir, .drmDir) :: live) { v with drmFd := -1 } modes reused
        { w₁ with drmFd := -1 } := by
      refine ⟨hdir.owns.frame rfl rfl rfl rfl, ?_, hdir.pwmEnable, hdir.reused⟩
      rw [← hdir.vars]
      rfl
    exact Or.inr (Or.inl (h.closeOpened hfree hset))
  · generalize (env.openFd .drmOpen w₁).1 = d at hopen
    generalize (env.openFd .drmOpen w₁).2 = w₂ at hopen
    have hset : At ((d, .drmOpen) :: (dir, .drmDir) :: live) { v with drmFd := d } modes reused
        { w₂ with drmFd := d } := by
      refine ⟨hopen.owns.frame rfl rfl rfl rfl, ?_, hopen.pwmEnable, hopen.reused⟩
      rw [← hopen.vars]
      rfl
    -- the directory is closed, and the device is another descriptor
    have hne : d ≠ dir := hopen.owns.ne (List.mem_cons_self ..)
      (List.mem_cons_of_mem _ (List.mem_cons_self ..)) (by decide)
    have hclose := hset.close dir
    rw [without, List.filter_cons_of_pos (by simpa using hne), ← without,
      without_cons_self h.owns hfree] at hclose
    exact Or.inr (Or.inr ⟨d, hclose⟩)

/-- What `daemon_init` has when it has come to `hwmon_set_pwm_mode_manual` in `w` and returns in
`w'`. -/
inductive Controls (env : Env) (live : List (ℕ × Call)) (v : Vars) (modes : List PwmMode)
    (reused : List ℕ) (w w' : World) : Prop
  /-- `pwm1_enable` cannot be opened -/
  | refused (hopen : env.refused .pwmEnableOpen = true)
      (h : At live { v with hwmonPwmEnableFd := -1 } modes reused w')
  /-- or not be written to -/
  | unwritten (k : ℕ) (hwrite : env.refused .pwmEnableWrite = true)
      (h : At ((k, .pwmEnableOpen) :: live) { v with hwmonPwmEnableFd := k } modes reused w')
  /-- `drm_fd` keeps its value -/
  | kept (k : ℕ) (w₁ : World) (hdrm : env.drmSupport = true → env.drmAssigns = false)
      (hmanual : env.hwmonSetPwmModeManual w = (true, w₁))
      (hvars : w₁.vars = { v with hwmonPwmEnableFd := k })
      (h : At ((k, .pwmEnableOpen) :: live) { v with hwmonPwmEnableFd := k } (.manual :: modes)
        reused w')
  /-- the device cannot be opened -/
  | failed (k : ℕ) (hdrm : env.drmSupport = true)
      (h : At ((k, .pwmEnableOpen) :: live) { v with hwmonPwmEnableFd := k, drmFd := -1 }
        (.manual :: modes) reused w')
  | drm (k d : ℕ) (hdrm : env.drmSupport = true)
      (h : At ((d, .drmOpen) :: (k, .pwmEnableOpen) :: live)
        { v with hwmonPwmEnableFd := k, drmFd := d } (.manual :: modes) reused w')

theorem at_configure (h : At live v modes reused w) : At live v modes reused (configure w).2 :=
  ⟨h.owns.frame rfl rfl rfl rfl, h.vars, h.pwmEnable, h.reused⟩

theorem at_runSteps_configure (h : At live v modes reused w) :
    At live v modes reused (Process.runSteps [configure] w).2 := by
  refine Process.runSteps_keeps (fun step hstep w hw => ?_) h
  rw [List.mem_singleton.mp hstep]
  exact at_configure hw

/-- From `hwmon_set_pwm_mode_manual` on, by how far the steps get -/
theorem controls_stepsFromControl (h : At live v modes reused w) :
    Controls env live v modes reused w (Process.runSteps env.stepsFromControl w).2 := by
  obtain ⟨ok, w₁, hmanual, hfailed, hcontrol⟩ := env.at_hwmonSetPwmModeManual h
  rw [stepsFromControl]
  cases ok with
  | false =>
    rw [Process.runSteps_cons_false hmanual]
    rcases hfailed rfl with ⟨hopen, hw₁⟩ | ⟨hwrite, k, hw₁⟩
    · exact .refused hopen hw₁
    · exact .unwritten k hwrite hw₁
  | true =>
    obtain ⟨k, hk⟩ := hcontrol rfl
    rw [Process.runSteps_cons_true hmanual]
    cases hdrm : env.drmSupport with
    | false => exact .kept k w₁ (by simp [hdrm]) hmanual hk.vars (at_runSteps_configure hk)
    | true =>
      -- `drm_open` may end the routine, and `fanctrl_configure` changes nothing of this
      have hrest : ∀ {live' v'}, At live' v' (.manual :: modes) reused (env.drmOpen w₁).2 →
          At live' v' (.manual :: modes) reused
            (Process.runSteps ([env.drmOpen] ++ [configure]) w₁).2 := by
        intro live' v' hw₂
        rcases hrun : env.drmOpen w₁ with ⟨_ | _, w₂⟩
        · rw [hrun] at hw₂
          rw [List.singleton_append, Process.runSteps_cons_false hrun]
          exact hw₂
        · rw [hrun] at hw₂
          rw [List.singleton_append, Process.runSteps_cons_true hrun]
          exact at_runSteps_configure hw₂
      rw [if_pos rfl]
      rcases env.at_drmOpen hk with ⟨hassigns, hw₂⟩ | hw₂ | ⟨d, hw₂⟩
      · exact .kept k w₁ (fun _ => hassigns) hmanual hk.vars (hrest hw₂)
      · exact .failed k hdrm (hrest hw₂)
      · exact .drm k d hdrm (hrest hw₂)

/-- How far `daemon_init` gets: it stops before `hwmon_set_pwm_mode_manual`, or comes to it with
the server and the watch. -/
theorem daemonInit_started (h : At [] v modes reused w) :
    StoppedBefore env v modes reused w (env.daemonInit w).2 ∧
        (Process.runSteps env.stepsToControl w).1 = false ∨
      ∃ p q : ℕ, ∃ w₁, Process.runSteps env.stepsToControl w = (true, w₁) ∧
        Controls env [(q, .inotifyInit), (p, .socket)]
          { v with pollfd := p, watchFd := q, watchWd := 1 } modes reused w₁
          (env.daemonInit w).2 := by
  obtain ⟨ok, w₁, hrun, hfailed, hready⟩ := env.at_stepsToControl h
  rw [daemonInit_eq, Process.runSteps_append, hrun]
  cases ok with
  | false => exact Or.inl ⟨hfailed rfl, rfl⟩
  | true =>
    obtain ⟨p, q, hw₁⟩ := hready rfl
    exact Or.inr ⟨p, q, w₁, rfl, env.controls_stepsFromControl hw₁⟩

/-! ## `daemon_free` -/

/-- The entries that are left when `daemon_free` comes to `hwmon_close` -/
def leftToHwmon (v : Vars) (live : List (ℕ × Call)) : List (ℕ × Call) :=
  if env.drmSupport then without v.drmFd (without v.pollfd (without v.watchFd live))
  else without v.pollfd (without v.watchFd live)

/-- What is left is what none of the numbers closed before is of. -/
theorem mem_leftToHwmon {entry : ℕ × Call} :
    entry ∈ env.leftToHwmon v live ↔ entry ∈ live ∧ (entry.1 : ℤ) ≠ v.watchFd ∧
      (entry.1 : ℤ) ≠ v.pollfd ∧ (env.drmSupport = true → (entry.1 : ℤ) ≠ v.drmFd) := by
  rw [leftToHwmon]
  split_ifs with hdrm
  · simp only [mem_without, hdrm, forall_const, and_assoc]
  · simp [mem_without, hdrm, and_assoc]

theorem at_unlink (h : At live v modes reused w) (file : File) :
    At live v modes reused (env.unlink file w).2 :=
  (env.dirStep_unlink file w).at h

/-- `fsys_watch_clear` closes the descriptor of the watch. -/
theorem at_fsysWatchClear (h : At live v modes reused w) :
    ∃ reused', At (without v.watchFd live) v modes reused' (env.fsysWatchClear w).2 := by
  have hwatch : w.watchFd = v.watchFd := congrArg Vars.watchFd h.vars
  unfold fsysWatchClear
  split_ifs with hnone
  · rw [← hwatch, hnone.1, without_eq fun entry _ => by omega]
    exact ⟨reused, h⟩
  · rw [← hwatch]
    exact ⟨_, h.release w.watchFd⟩

theorem at_serverKill (h : At live v modes reused w) :
    ∃ reused', At (without v.pollfd live) v modes reused' (env.serverKill w).2 := by
  have hpollfd : w.pollfd = v.pollfd := congrArg Vars.pollfd h.vars
  have hrelease := h.release w.pollfd
  rw [hpollfd] at hrelease
  rw [serverKill, hpollfd]
  exact ⟨_, env.at_unlink hrelease .sock⟩

/-- A number that the ledger has for `pwm1_enable` is one of it. -/
theorem isPwmEnable_of_mem (h : Owns live w) {k : ℕ} (hk : (k, .pwmEnableOpen) ∈ live) :
    w.isPwmEnable k = true := by
  obtain ⟨id, hid⟩ := (h.live_iff k _).mp hk
  change w.isPwmEnable (.ofNat k) = true
  rw [World.isPwmEnable, hid]

/-- `hwmon_close` gives up control if its descriptor is still one of `pwm1_enable`, and in any case
it writes nothing else there. -/
theorem at_hwmonClose (h : At live v modes reused w) :
    ∃ modes' reused', At (without v.hwmonPwmEnableFd live) v modes' reused' (env.hwmonClose w).2 ∧
      (modes' = modes ∨ modes' = .auto :: modes) ∧
      ∀ k : ℕ, v.hwmonPwmEnableFd = k → (k, .pwmEnableOpen) ∈ live →
        env.refused .pwmEnableRelease = false → modes' = .auto :: modes := by
  have hhwmon : w.hwmonPwmEnableFd = v.hwmonPwmEnableFd := congrArg Vars.hwmonPwmEnableFd h.vars
  unfold hwmonClose
  by_cases hnone : w.hwmonPwmEnableFd = -1
  · rw [if_pos hnone, ← hhwmon, hnone, without_eq fun entry _ => by omega]
    refine ⟨modes, reused, h, Or.inl rfl, fun k hk => ?_⟩
    omega
  · rw [if_neg hnone]
    have huse := h.use w.hwmonPwmEnableFd
    have hsame : (w.use w.hwmonPwmEnableFd).hwmonPwmEnableFd = v.hwmonPwmEnableFd :=
      congrArg Vars.hwmonPwmEnableFd huse.vars
    generalize w.use w.hwmonPwmEnableFd = w₁ at huse hsame
    dsimp only
    split_ifs with hwrite
    · have hauto : At live v (.auto :: modes) w₁.reused
          { w₁ with pwmEnable := .auto :: w₁.pwmEnable } := by
        refine ⟨huse.owns.frame rfl rfl rfl rfl, huse.vars, ?_, rfl⟩
        rw [← huse.pwmEnable]
      have hclose := hauto.close w₁.hwmonPwmEnableFd
      rw [hsame] at hclose ⊢
      exact ⟨_, _, hclose, Or.inr rfl, fun k _ _ _ => rfl⟩
    · have hclose := huse.close v.hwmonPwmEnableFd
      rw [hsame]
      refine ⟨_, _, hclose, Or.inl rfl, fun k hk hmem hrefused => absurd ?_ hwrite⟩
      rw [hsame, hk]
      exact ⟨isPwmEnable_of_mem huse.owns hmem, by simp [hrefused]⟩

/-- `daemon_free` up to `fanctrl_release` -/
def toFanctrlRelease (w : World) : World :=
  (env.rmdir (env.pidfileUnlink (env.serverKill (env.fsysWatchClear w).2).2).2).2

/-- `daemon_free` up to `hwmon_close` -/
def toHwmonClose (w : World) : World :=
  if env.drmSupport then (env.toFanctrlRelease w).release (env.toFanctrlRelease w).drmFd
  else env.toFanctrlRelease w

/-- `hwmon_close` is the last that `daemon_free` does. -/
theorem daemonFree_hwmonClose (w : World) :
    (env.daemonFree w).2 = (env.hwmonClose (env.toHwmonClose w)).2 := rfl

/-- When `daemon_free` comes to `hwmon_close`, three of its numbers have been closed. -/
theorem at_toHwmonClose (h : At live v modes reused w) :
    ∃ reused', At (env.leftToHwmon v live) v modes reused' (env.toHwmonClose w) := by
  obtain ⟨r₁, hwatch⟩ := env.at_fsysWatchClear h
  obtain ⟨r₂, hserver⟩ := env.at_serverKill hwatch
  have hdir : At (without v.pollfd (without v.watchFd live)) v modes r₂
      (env.toFanctrlRelease w) :=
    (env.dirStep_rmdir _).at (env.at_unlink hserver .pid)
  have hdrmFd : (env.toFanctrlRelease w).drmFd = v.drmFd := congrArg Vars.drmFd hdir.vars
  rw [toHwmonClose, leftToHwmon]
  split_ifs
  · rw [hdrmFd]
    exact ⟨_, hdir.release v.drmFd⟩
  · exact ⟨_, hdir⟩

/-- `daemon_free` closes the numbers in the variables. It gives up control if the descriptor of
`pwm1_enable` is still open when `hwmon_close` is called. -/
theorem at_daemonFree (h : At live v modes reused w) :
    ∃ modes' reused', At (without v.hwmonPwmEnableFd (env.leftToHwmon v live)) v modes' reused'
        (env.daemonFree w).2 ∧
      (modes' = modes ∨ modes' = .auto :: modes) ∧
      ∀ k : ℕ, v.hwmonPwmEnableFd = k → (k, .pwmEnableOpen) ∈ env.leftToHwmon v live →
        env.refused .pwmEnableRelease = false → modes' = .auto :: modes := by
  obtain ⟨reused', hleft⟩ := env.at_toHwmonClose h
  rw [daemonFree_hwmonClose]
  exact env.at_hwmonClose hleft

end Env

/-! ### Numbers that are used again -/

/-- The numbers that `daemon_free` uses, in their order -/
def Vars.numbers (v : Vars) (drmSupport : Bool) : List ℤ :=
  v.watchFd :: v.pollfd :: ((if drmSupport then [v.drmFd] else []) ++ [v.hwmonPwmEnableFd])

namespace World

/-- None of the numbers has been closed, nor will be when it is its turn. -/
def Unused (w : World) (ns : List ℤ) : Prop :=
  (∀ k : ℕ, (k : ℤ) ∈ ns → k ∉ w.closedFds) ∧ ns.Pairwise fun m n => 0 ≤ m → m ≠ n

variable {w w' : World} {n : ℤ} {ns : List ℤ}

theorem Unused.use (h : Unused w (n :: ns)) : w.use n = w := by
  cases n with
  | negSucc k => rfl
  | ofNat k =>
    rw [World.use, if_neg (h.1 k (List.mem_cons_self ..))]

/-- A `close` adds its number to those closed and no other. -/
theorem closedFds_close (w : World) (n : ℤ) :
    ∀ k ∈ (w.close n).closedFds, (k : ℤ) = n ∨ k ∈ w.closedFds := by
  intro k hk
  cases n with
  | negSucc j => exact Or.inr hk
  | ofNat j =>
    change k ∈ (w.close (j : ℤ)).closedFds at hk
    cases hj : w.fd j with
    | none =>
      rw [close_shut hj] at hk
      exact Or.inr hk
    | some origin =>
      rw [close_open hj] at hk
      rcases List.mem_cons.mp hk with rfl | hk
      · exact Or.inl rfl
      · exact Or.inr hk

/-- Closing the first leaves the others unused. -/
theorem Unused.release (h : Unused w (n :: ns)) :
    (w.release n).reused = w.reused ∧ Unused (w.release n) ns := by
  rw [World.release, h.use]
  refine ⟨by rw [close_eq], fun k hk hmem => ?_, (List.pairwise_cons.mp h.2).2⟩
  rcases w.closedFds_close n k hmem with rfl | hmem
  · exact (List.pairwise_cons.mp h.2).1 _ hk (Int.natCast_nonneg k) rfl
  · exact h.1 k (List.mem_cons_of_mem n hk) hmem

/-- From `w` to `w'` no number has been used again, and those of `ns` are still unused. -/
structure NoReuse (w w' : World) (ns : List ℤ) : Prop where
  reused : w'.reused = w.reused
  vars : w'.vars = w.vars
  unused : Unused w' ns

theorem NoReuse.trans {w₁ w₂ w₃ : World} {ms ns : List ℤ} (h₁ : NoReuse w₁ w₂ ms)
    (h₂ : NoReuse w₂ w₃ ns) : NoReuse w₁ w₃ ns :=
  ⟨h₂.reused.trans h₁.reused, h₂.vars.trans h₁.vars, h₂.unused⟩

/-- Closing a number that has not been closed reuses none. -/
theorem Unused.noReuse_release (h : Unused w (n :: ns)) : NoReuse w (w.release n) ns := by
  obtain ⟨hreused, hunused⟩ := h.release
  refine ⟨hreused, ?_, hunused⟩
  rw [release_eq]
  rfl

theorem DirStep.noReuse (hstep : DirStep w w') (h : Unused w ns) : NoReuse w w' ns := by
  rw [hstep.same]
  exact ⟨rfl, rfl, h⟩

end World

namespace Env

open World

variable (env : Env) {w : World} {ns : List ℤ}

theorem noReuse_fsysWatchClear (h : Unused w (w.watchFd :: ns)) :
    NoReuse w (env.fsysWatchClear w).2 ns := by
  unfold fsysWatchClear
  split_ifs
  · exact ⟨rfl, rfl, fun k hk => h.1 k (List.mem_cons_of_mem _ hk), (List.pairwise_cons.mp h.2).2⟩
  · exact h.noReuse_release

theorem noReuse_serverKill (h : Unused w (w.pollfd :: ns)) :
    NoReuse w (env.serverKill w).2 ns := by
  have hrelease := h.noReuse_release
  exact hrelease.trans ((env.dirStep_unlink .sock _).noReuse hrelease.unused)

theorem reused_hwmonClose (h : Unused w [w.hwmonPwmEnableFd]) :
    (env.hwmonClose w).2.reused = w.reused := by
  have hclose : ∀ (w : World) n, (w.close n).reused = w.reused := by
    intro w n
    rw [close_eq]
  unfold hwmonClose
  rw [h.use]
  split
  · rfl
  · dsimp only
    split_ifs
    · exact hclose _ _
    · exact hclose _ _

/-- `daemon_free` does not use a number again if the numbers in its variables are unused. -/
theorem reused_daemonFree (h : Unused w (w.vars.numbers env.drmSupport)) :
    (env.daemonFree w).2.reused = w.reused := by
  rw [Vars.numbers] at h
  have hwatch := env.noReuse_fsysWatchClear h
  have hpollfd : (env.fsysWatchClear w).2.pollfd = w.vars.pollfd := congrArg Vars.pollfd hwatch.vars
  have hserver := hwatch.trans (env.noReuse_serverKill (hpollfd ▸ hwatch.unused))
  have hpid := hserver.trans ((env.dirStep_unlink .pid _).noReuse hserver.unused)
  have hdir := hpid.trans ((env.dirStep_rmdir _).noReuse hpid.unused)
  rw [daemonFree_snd, fanctrlRelease, pidfileUnlink]
  generalize (env.rmdir (env.unlink .pid (env.serverKill (env.fsysWatchClear w).2).2).2).2 = w₁
    at hdir
  have hdrmFd : w₁.drmFd = w.vars.drmFd := congrArg Vars.drmFd hdir.vars
  have hdrm : NoReuse w (if env.drmSupport then w₁.release w₁.drmFd else w₁)
      [w.vars.hwmonPwmEnableFd] := by
    have hunused := hdir.unused
    split_ifs at hunused ⊢ with hdrm
    · rw [hdrmFd]
      exact hdir.trans hunused.noReuse_release
    · exact ⟨hdir.reused, hdir.vars, hunused⟩
  generalize (if env.drmSupport then w₁.release w₁.drmFd else w₁) = w₂ at hdrm
  have hhwmon : w₂.hwmonPwmEnableFd = w.vars.hwmonPwmEnableFd :=
    congrArg Vars.hwmonPwmEnableFd hdrm.vars
  rw [env.reused_hwmonClose (hhwmon ▸ hdrm.unused)]
  exact hdrm.reused

end Env

end AmdgpuFand
