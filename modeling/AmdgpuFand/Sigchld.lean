import Mathlib.Data.Int.Notation
import Mathlib.Data.List.Basic

/-!
# Collecting the server's children

The daemon forks a child for every client. A child that has served an authorised exit
request exits with `FAND_SERVER_EXIT`, and the daemon is to stop when it collects such a
child. It does so in the `SIGCHLD` branch of `daemon_sighandler`: a loop over `waitpid`
until nothing is left to collect, then a test of the status variable.

Children terminate at any time, the signals of several may arrive as one, and a signal may
arrive when its child has been collected already. So the system is a state machine whose
events are the single steps: a fork, a termination, the start of the handler, one
successful `waitpid`, and the end of the loop with the test. A run is any list of them
that the guards allow.

The test looks at the variable `status` only, that is at the child collected last, or at
an indeterminate value if there was none. `daemonSighandler_exact` says for which runs this
is enough.
-/

namespace AmdgpuFand

/-- `FAND_SERVER_EXIT` -/
def fandServerExit : ℤ := 3

/-! ## Wait statuses -/

/-- How a child terminates. -/
inductive Termination where
  /-- by `exit`, with the low byte of its argument -/
  | exited (code : Fin 256)
  /-- by the signal `signal + 1`, possibly with a core dump -/
  | killed (signal : Fin 126) (core : Bool)
  deriving DecidableEq, Repr

/-- The status that `waitpid` stores. -/
def Termination.waitStatus : Termination → ℤ
  | exited code => code.val * 256
  | killed signal core => signal.val + 1 + if core then 128 else 0

/-- `WEXITSTATUS`: `(status & 0xff00) >> 8`. -/
def wexitstatus (status : ℤ) : ℤ := status / 256 % 256

/-- The child asks the daemon to exit. -/
def Termination.IsExit (t : Termination) : Prop := t = .exited 3

instance : DecidablePred Termination.IsExit := fun t => inferInstanceAs (Decidable (t = .exited 3))

/-- The test of the handler on the status of a child. -/
theorem wexitstatus_waitStatus (t : Termination) :
    wexitstatus t.waitStatus = fandServerExit ↔ t.IsExit := by
  cases t with
  | exited code =>
    have hcode : wexitstatus (Termination.exited code).waitStatus = code.val := by
      have := code.isLt
      simp only [wexitstatus, Termination.waitStatus]
      omega
    rw [hcode, Termination.IsExit, Termination.exited.injEq, Fin.ext_iff]
    simp only [fandServerExit]
    omega
  | killed signal core =>
    have hzero : wexitstatus (Termination.killed signal core).waitStatus = 0 := by
      have := signal.isLt
      simp only [wexitstatus, Termination.waitStatus]
      split_ifs <;> omega
    rw [hzero]
    simp [fandServerExit, Termination.IsExit]

/-! ## The state machine -/

/-- The handler while it is in the `SIGCHLD` branch. -/
structure Handler where
  /-- the local variable -/
  status : ℤ
  /-- the children collected since the handler was entered, the last one first -/
  batch : List Termination
  deriving DecidableEq, Repr

/-- The daemon and its children. -/
structure Sigchld where
  /-- `daemon_alive` -/
  alive : Bool
  /-- the children that are running -/
  children : List ℕ
  /-- the children that have terminated and are to be collected -/
  zombies : List (ℕ × Termination)
  /-- the children that have been collected, the last one first -/
  reaped : List Termination
  /-- the handler, if it is running -/
  handler : Option Handler
  deriving DecidableEq, Repr

/-- A daemon that has not forked yet. -/
def Sigchld.start : Sigchld := ⟨true, [], [], [], none⟩

/-- What can happen. -/
inductive SigchldEvent where
  /-- `server_poll` forks a child -/
  | fork (pid : ℕ)
  /-- a child terminates -/
  | terminate (pid : ℕ) (t : Termination)
  /-- `SIGCHLD` is delivered, with an indeterminate value in `status` -/
  | deliver (garbage : ℤ)
  /-- `waitpid` collects a child -/
  | reap (pid : ℕ)
  /-- `waitpid` finds no child to collect, and the handler tests the status -/
  | leave
  deriving DecidableEq, Repr

/-- One step. `SIGCHLD` is blocked while its handler runs. -/
def Sigchld.step (s : Sigchld) : SigchldEvent → Option Sigchld
  | .fork pid =>
    if s.handler = none then some { s with children := pid :: s.children } else none
  | .terminate pid t =>
    if pid ∈ s.children then
      some { s with children := s.children.erase pid, zombies := (pid, t) :: s.zombies }
    else none
  | .deliver garbage =>
    if s.handler = none then some { s with handler := some ⟨garbage, []⟩ } else none
  | .reap pid =>
    match s.handler, s.zombies.lookup pid with
    | some h, some t =>
      some { s with
        zombies := s.zombies.erase (pid, t)
        reaped := t :: s.reaped
        handler := some ⟨t.waitStatus, t :: h.batch⟩ }
    | _, _ => none
  | .leave =>
    match s.handler with
    | some h =>
      if s.zombies = [] then
        some { s with
          alive := if wexitstatus h.status = fandServerExit then false else s.alive
          handler := none }
      else none
    | none => none

/-- A run. -/
def Sigchld.run (s : Sigchld) : List SigchldEvent → Option Sigchld
  | [] => some s
  | e :: events => (s.step e).bind fun s' => s'.run events

/-! ## Correctness -/

/-- When the handler is not running, `daemon_alive` has been cleared if and only if a child
that asks for it has been collected. -/
def Sigchld.Correct (s : Sigchld) : Prop :=
  s.handler = none → (s.alive = false ↔ ∃ t ∈ s.reaped, t.IsExit)

/-- The handler may leave: if it has collected a child that asks to exit, then that is the
last one it has collected, and if it has collected none, the indeterminate value does not
look like one. Nothing is asked once `daemon_alive` has been cleared. -/
def Sigchld.LeaveOk (s : Sigchld) : Prop :=
  ∀ h, s.handler = some h → s.alive = true →
    (h.batch = [] → wexitstatus h.status ≠ fandServerExit) ∧
      ((∃ t ∈ h.batch, t.IsExit) → ∃ t, h.batch.head? = some t ∧ t.IsExit)

/-- The handler may leave whenever it does in a run. -/
def Sigchld.LeavesOk (s : Sigchld) : List SigchldEvent → Prop
  | [] => True
  | e :: events => ∀ s', s.step e = some s' → (e = .leave → s.LeaveOk) ∧ s'.LeavesOk events

/-! ## The invariant -/

/-- What holds in every state of a run: outside the handler, that it is correct; inside,
that it was when the handler was entered, and that `status` is that of the child collected
last. -/
def Sigchld.Inv (s : Sigchld) : Prop :=
  match s.handler with
  | none => s.alive = false ↔ ∃ t ∈ s.reaped, t.IsExit
  | some h =>
    ∃ earlier, s.reaped = h.batch ++ earlier ∧ (s.alive = false ↔ ∃ t ∈ earlier, t.IsExit) ∧
      ∀ t, h.batch.head? = some t → h.status = t.waitStatus

section Step

variable {s s' : Sigchld}

theorem Sigchld.Inv.correct (hinv : s.Inv) : s.Correct := by
  intro hnone
  rw [Sigchld.Inv, hnone] at hinv
  exact hinv

/-- Leaving the handler. -/
theorem Sigchld.step_leave (h : s.step .leave = some s') :
    ∃ hd, s.handler = some hd ∧ s.zombies = [] ∧
      s' = { s with
        alive := if wexitstatus hd.status = fandServerExit then false else s.alive
        handler := none } := by
  simp only [Sigchld.step] at h
  rcases hhandler : s.handler with _ | hd
  · rw [hhandler] at h
    cases h
  · rw [hhandler] at h
    dsimp only at h
    by_cases hzombies : s.zombies = []
    · rw [if_pos hzombies] at h
      cases h
      exact ⟨hd, rfl, hzombies, rfl⟩
    · rw [if_neg hzombies] at h
      cases h

/-- The test at the end of the handler is right exactly if the handler may leave. -/
theorem Sigchld.leave_iff (hinv : s.Inv) (h : s.step .leave = some s') :
    (s'.alive = false ↔ ∃ t ∈ s'.reaped, t.IsExit) ↔ s.LeaveOk := by
  obtain ⟨hd, hhandler, -, rfl⟩ := Sigchld.step_leave h
  rw [Sigchld.Inv, hhandler] at hinv
  obtain ⟨earlier, hreaped, halive, hstatus⟩ := hinv
  have hok : s.LeaveOk ↔ (s.alive = true →
      (hd.batch = [] → wexitstatus hd.status ≠ fandServerExit) ∧
        ((∃ t ∈ hd.batch, t.IsExit) → ∃ t, hd.batch.head? = some t ∧ t.IsExit)) := by
    refine ⟨fun hleave => hleave hd hhandler, fun hleave hd' hhandler' => ?_⟩
    rw [hhandler] at hhandler'
    cases hhandler'
    exact hleave
  rw [hok]
  simp only [hreaped, List.mem_append]
  rcases hval : s.alive with _ | _
  · -- cleared before: it stays cleared, and the child is among the earlier ones
    obtain ⟨t, ht, hexit⟩ := halive.mp hval
    refine ⟨fun _ habs => absurd habs Bool.false_ne_true,
      fun _ => ⟨fun _ => ⟨t, Or.inr ht, hexit⟩, fun _ => ?_⟩⟩
    split_ifs <;> rfl
  -- no child has asked for the exit before this batch
  · have hearlier : ∀ t ∈ earlier, ¬ t.IsExit := by
      intro t ht hexit
      rw [halive.mpr ⟨t, ht, hexit⟩] at hval
      cases hval
    have hbatch : (∃ t, (t ∈ hd.batch ∨ t ∈ earlier) ∧ t.IsExit) ↔ ∃ t ∈ hd.batch, t.IsExit := by
      refine ⟨?_, fun ⟨t, ht, hexit⟩ => ⟨t, Or.inl ht, hexit⟩⟩
      rintro ⟨t, ht | ht, hexit⟩
      · exact ⟨t, ht, hexit⟩
      · exact absurd hexit (hearlier t ht)
    have htest : (if wexitstatus hd.status = fandServerExit then false else true) = false ↔
        wexitstatus hd.status = fandServerExit := by
      split_ifs with htest <;> simp [htest]
    rw [hbatch, htest]
    rcases hlist : hd.batch with _ | ⟨last, rest⟩
    · simp
    · have hlast : wexitstatus hd.status = fandServerExit ↔ last.IsExit := by
        rw [hstatus last (by rw [hlist]; rfl), wexitstatus_waitStatus]
      rw [hlast]
      refine ⟨fun hiff _ => ⟨fun hnil => absurd hnil (List.cons_ne_nil last rest), fun hex => ?_⟩,
        fun hleave => ?_⟩
      · exact ⟨last, rfl, hiff.mpr hex⟩
      · refine ⟨fun hexit => ⟨last, List.mem_cons_self .., hexit⟩, fun hex => ?_⟩
        obtain ⟨t, ht, hexit⟩ := (hleave rfl).2 hex
        cases ht
        exact hexit

/-- Every step keeps the invariant, as long as the handler leaves only when it may. -/
theorem Sigchld.Inv.step (hinv : s.Inv) {e : SigchldEvent} (h : s.step e = some s')
    (hok : e = .leave → s.LeaveOk) : s'.Inv := by
  cases e with
  | fork pid =>
    simp only [Sigchld.step] at h
    split_ifs at h with hnone
    cases h
    exact hinv
  | terminate pid t =>
    simp only [Sigchld.step] at h
    split_ifs at h with hmem
    cases h
    exact hinv
  | deliver garbage =>
    simp only [Sigchld.step] at h
    split_ifs at h with hnone
    cases h
    rw [Sigchld.Inv, hnone] at hinv
    exact ⟨s.reaped, rfl, hinv, fun t ht => by cases ht⟩
  | reap pid =>
    simp only [Sigchld.step] at h
    split at h
    · next hd t hhandler hlookup =>
      cases h
      rw [Sigchld.Inv, hhandler] at hinv
      obtain ⟨earlier, hreaped, halive, -⟩ := hinv
      refine ⟨earlier, by simp [hreaped], halive, fun t' ht' => ?_⟩
      cases ht'
      rfl
    · cases h
  | leave =>
    have hcorrect := (Sigchld.leave_iff hinv h).mpr (hok rfl)
    obtain ⟨hd, -, -, rfl⟩ := Sigchld.step_leave h
    exact hcorrect

end Step

/-- Along a run, the states are correct exactly if the handler leaves only when it may. -/
theorem Sigchld.Inv.run_iff {s : Sigchld} (hinv : s.Inv) (events : List SigchldEvent) :
    (∀ past s', past <+: events → s.run past = some s' → s'.Correct) ↔ s.LeavesOk events := by
  induction events generalizing s with
  | nil =>
    refine ⟨fun _ => trivial, fun _ past s' hpast hrun => ?_⟩
    obtain rfl := List.prefix_nil.mp hpast
    cases hrun
    exact hinv.correct
  | cons e events ih =>
    -- the states of the run are the first one, and those of the run from the second on
    refine ⟨fun hcorrect s' hstep => ?_, fun hok past s₁ hpast hrun => ?_⟩
    · have hleave : e = .leave → s.LeaveOk := by
        rintro rfl
        have hs' := hcorrect [.leave] s' ⟨events, rfl⟩ (by simp [Sigchld.run, hstep])
        refine (Sigchld.leave_iff hinv hstep).mp (hs' ?_)
        obtain ⟨hd, -, -, rfl⟩ := Sigchld.step_leave hstep
        rfl
      refine ⟨hleave, (ih (hinv.step hstep hleave)).mp fun past s₁ hpast hrun => ?_⟩
      refine hcorrect (e :: past) s₁ (List.cons_prefix_cons.mpr ⟨rfl, hpast⟩) ?_
      rw [Sigchld.run, hstep]
      exact hrun
    · rcases past with _ | ⟨e', past⟩
      · cases hrun
        exact hinv.correct
      · obtain ⟨rfl, htail⟩ := List.cons_prefix_cons.mp hpast
        obtain ⟨s', hstep, hrest⟩ := Option.bind_eq_some_iff.mp hrun
        obtain ⟨hleave, hleaves⟩ := hok s' hstep
        exact (ih (hinv.step hstep hleave)).mpr hleaves past s₁ htail hrest

/-- **Exit requests.** For every sequence of forks, terminations, deliveries and
`waitpid`s: in every state of the run, `daemon_alive` has been cleared if and only if a
child that asks for it has been collected, exactly if the handler leaves only when the
last child it has collected speaks for all. -/
theorem daemonSighandler_exact (events : List SigchldEvent) :
    (∀ past s, past <+: events → Sigchld.start.run past = some s → s.Correct) ↔
      Sigchld.start.LeavesOk events := by
  refine Sigchld.Inv.run_iff ?_ events
  simp [Sigchld.Inv, Sigchld.start]

/-- Two children exit while `SIGCHLD` is pending, and the one that asks the daemon to exit
is collected first: the request is lost. -/
theorem exit_request_lost :
    ∃ s, Sigchld.start.run [.fork 1, .fork 2, .terminate 1 (.exited 3), .terminate 2 (.exited 0),
        .deliver 0, .reap 1, .reap 2, .leave] = some s ∧ ¬ s.Correct := by
  refine ⟨⟨true, [], [], [.exited 0, .exited 3], none⟩, by decide, fun h => ?_⟩
  have hcleared := (h rfl).mpr ⟨.exited 3, by decide, rfl⟩
  cases hcleared

end AmdgpuFand
