import AmdgpuFand.Lib.Process

/-!
# Reload requests

`SIGHUP` asks the daemon to read its configuration file again. The handler only sets
`daemon_reload_pending`; the main loop tests the flag once per round, clears it and calls
`config_parse`. A request may arrive between any two of these steps, several may arrive before
the flag is looked at, and the loop may reload for a reason of its own, because the file has
changed or because the daemon restarts after a broken pipe.

So `daemon_main` is a machine whose events are the steps of the program and the signals. A
log records the requests and the calls of `config_parse` in their order. In every state of
every run, a request is still pending, or the loop is on its way to `config_parse`, or a call
has begun since (`reload_never_lost`).
-/

namespace AmdgpuFand

/-! ## The program -/

/-- The callers of `daemon_init`. -/
inductive InitCaller where
  | daemonMain
  | daemonRestart
  deriving DecidableEq, Repr

/-- What is to be done next. -/
inductive Pc where
  /-- `daemon_init` of a process that has no handlers yet -/
  | start
  /-- `daemon_init` up to `config_parse` -/
  | initHead (caller : InitCaller)
  /-- `daemon_init` calls `config_parse` -/
  | initParse (caller : InitCaller)
  /-- `config_parse` returns to `daemon_init` -/
  | initParsed (caller : InitCaller)
  /-- the rest of `daemon_init` -/
  | initTail (caller : InitCaller)
  /-- `while(daemon_alive)` -/
  | testAlive
  /-- `daemon_adjust_fanspeed` -/
  | adjust
  /-- `fsys_watch_event` -/
  | watchEvent
  /-- `daemon_watch_event` tests `daemon_reload_pending` -/
  | testPending
  /-- `daemon_watch_event` tests `watch->triggered` -/
  | testTriggered
  /-- `daemon_watch_event` clears `daemon_reload_pending` -/
  | clearPending
  /-- `daemon_reload` calls `config_parse` -/
  | reloadParse
  /-- `config_parse` returns to `daemon_reload` -/
  | reloadParsed
  /-- `daemon_reload` calls `fanctrl_configure` -/
  | reloadConfigure
  /-- `daemon_handle_pending_signals` tests `daemon_sigpipe_caught` -/
  | testSigpipe
  /-- `daemon_restart` calls `daemon_free` -/
  | restartFree
  /-- `daemon_handle_pending_signals` clears `daemon_sigpipe_caught` -/
  | clearSigpipe
  /-- `server_poll` -/
  | serverPoll
  /-- `daemon_free` behind the loop -/
  | finalFree
  deriving DecidableEq, Repr

/-- What the log records. -/
inductive Mark where
  /-- a `SIGHUP` has been delivered -/
  | request
  /-- a `config_parse` has begun -/
  | parse
  deriving DecidableEq, Repr

/-- The daemon. Where `daemon_init` forks, this is the process that goes on. -/
structure Loop where
  pc : Pc
  /-- `daemon_alive` -/
  alive : Bool
  /-- `daemon_reload_pending` -/
  reloadPending : Bool
  /-- `daemon_sigpipe_caught` -/
  sigpipeCaught : Bool
  /-- `watch.triggered` -/
  triggered : Bool
  /-- what has happened, the latest first -/
  log : List Mark
  deriving DecidableEq, Repr

/-- The beginning of `daemon_main`. -/
def Loop.start : Loop := ⟨.start, true, false, false, false, []⟩

/-- The signals that `daemon_sighandler` handles. -/
inductive Signal where
  | sigint
  | sigterm
  | sigpipe
  | sighup
  /-- `SIGCHLD`, and whether a child that asks the daemon to exit is found -/
  | sigchld (serverExit : Bool)
  deriving DecidableEq, Repr

/-- `daemon_sighandler` -/
def Loop.daemonSighandler (s : Loop) : Signal → Loop
  | .sigint | .sigterm => { s with alive := false }
  | .sigpipe => { s with sigpipeCaught := true }
  | .sighup => { s with reloadPending := true, log := .request :: s.log }
  | .sigchld serverExit => if serverExit then { s with alive := false } else s

/-- The return of `daemon_init`. In `daemon_main` the loop follows, in `daemon_restart` the end
of `daemon_handle_pending_signals`; both stop the daemon after a failure. -/
def Loop.initReturn (s : Loop) (ok : Bool) : InitCaller → Loop
  | .daemonMain => { s with pc := .testAlive, alive := s.alive && ok }
  | .daemonRestart => { s with pc := .clearSigpipe, alive := s.alive && ok }

/-- The next step of the program. The environment decides the outcome: whether the calls
of the step succeed, and at `watchEvent` whether the file has changed. -/
def Loop.advance (s : Loop) (outcome : Bool) : Option Loop :=
  match s.pc with
  | .start =>
    some (if outcome then { s with pc := .initHead .daemonMain }
      else s.initReturn false .daemonMain)
  | .initHead caller =>
    some (if outcome then { s with pc := .initParse caller } else s.initReturn false caller)
  | .initParse caller => some { s with pc := .initParsed caller, log := .parse :: s.log }
  | .initParsed caller =>
    some (if outcome then { s with pc := .initTail caller } else s.initReturn false caller)
  | .initTail caller =>
    some (if outcome then { s with triggered := false }.initReturn true caller
      else s.initReturn false caller)
  | .testAlive => some { s with pc := if s.alive then .adjust else .finalFree }
  | .adjust => some { s with pc := .watchEvent, alive := s.alive && outcome }
  | .watchEvent => some { s with pc := .testPending, triggered := outcome }
  | .testPending =>
    some { s with pc := if s.reloadPending then .clearPending else .testTriggered }
  | .testTriggered => some { s with pc := if s.triggered then .clearPending else .testSigpipe }
  | .clearPending => some { s with pc := .reloadParse, reloadPending := false }
  | .reloadParse => some { s with pc := .reloadParsed, log := .parse :: s.log }
  | .reloadParsed => some { s with pc := if outcome then .reloadConfigure else .testSigpipe }
  | .reloadConfigure => some { s with pc := .testSigpipe, alive := s.alive && outcome }
  | .testSigpipe => some { s with pc := if s.sigpipeCaught then .restartFree else .serverPoll }
  | .restartFree => some { s with pc := .initHead .daemonRestart }
  | .clearSigpipe => some { s with pc := .serverPoll, sigpipeCaught := false }
  | .serverPoll => some { s with pc := .testAlive }
  | .finalFree => none

/-- What can happen. -/
inductive LoopEvent where
  /-- a signal is delivered -/
  | signal (signal : Signal)
  /-- the program takes its next step -/
  | advance (outcome : Bool)
  deriving DecidableEq, Repr

/-- One event. Signals are handled once `daemon_set_sigacts` has been called. -/
def Loop.step (s : Loop) : LoopEvent → Option Loop
  | .signal signal => if s.pc = .start then none else some (s.daemonSighandler signal)
  | .advance outcome => s.advance outcome

/-! ## Requests -/

/-- The loop has decided to reload and has not called `config_parse` yet. -/
def Loop.Reloading (s : Loop) : Prop := s.pc = .clearPending ∨ s.pc = .reloadParse

/-- No request is lost: each one in the log has a call of `config_parse` behind it, unless it
is pending or the loop is about to make one. -/
def Loop.NoRequestLost (s : Loop) : Prop :=
  ∀ later earlier, s.log = later ++ .request :: earlier →
    s.reloadPending = true ∨ s.Reloading ∨ .parse ∈ later

section Step

variable {s s' : Loop}

@[simp]
theorem Loop.initReturn_log (s : Loop) (ok : Bool) (caller : InitCaller) :
    (s.initReturn ok caller).log = s.log := by
  cases caller <;> rfl

@[simp]
theorem Loop.initReturn_reloadPending (s : Loop) (ok : Bool) (caller : InitCaller) :
    (s.initReturn ok caller).reloadPending = s.reloadPending := by
  cases caller <;> rfl

/-- What a step of the program means for the requests: it begins to parse, or the log stays
as it is, and what was about to be answered still is. -/
theorem Loop.advance_cases {outcome : Bool} (h : s.advance outcome = some s') :
    s'.log = .parse :: s.log ∨
      s'.log = s.log ∧
        (s.reloadPending = true ∨ s.Reloading → s'.reloadPending = true ∨ s'.Reloading) := by
  unfold Loop.advance at h
  cases hpc : s.pc with
  | initParse | reloadParse =>
    rw [hpc] at h
    cases h
    exact Or.inl rfl
  | clearPending =>
    -- the flag is cleared, but `config_parse` is next
    rw [hpc] at h
    cases h
    exact Or.inr ⟨rfl, fun _ => Or.inr (Or.inr rfl)⟩
  | finalFree =>
    rw [hpc] at h
    cases h
  | _ =>
    -- everywhere else neither the log nor the flag changes
    have hnot : ¬ s.Reloading := by simp [Loop.Reloading, hpc]
    rw [hpc] at h
    have hsame : s'.log = s.log ∧ s'.reloadPending = s.reloadPending := by
      cases outcome <;> cases h <;> simp
    refine Or.inr ⟨hsame.1, fun hs => Or.inl ?_⟩
    rw [hsame.2]
    exact hs.resolve_right hnot

/-- A signal is a request, or it changes neither the log nor what is about to be answered. -/
theorem Loop.daemonSighandler_cases (s : Loop) (signal : Signal) :
    (s.daemonSighandler signal).reloadPending = true ∨
      (s.daemonSighandler signal).log = s.log ∧
        (s.daemonSighandler signal).reloadPending = s.reloadPending ∧
        (s.daemonSighandler signal).pc = s.pc := by
  cases signal with
  | sighup => exact Or.inl rfl
  | sigint | sigterm | sigpipe => exact Or.inr ⟨rfl, rfl, rfl⟩
  | sigchld serverExit => cases serverExit <;> exact Or.inr ⟨rfl, rfl, rfl⟩

/-- A call of `config_parse` answers every request before it. -/
theorem Loop.NoRequestLost.of_parse (hlog : s'.log = .parse :: s.log) : s'.NoRequestLost := by
  intro later earlier hsplit
  rw [hlog] at hsplit
  cases later with
  | nil => cases hsplit
  | cons mark later =>
    obtain ⟨rfl, -⟩ := List.cons.inj hsplit
    exact Or.inr (Or.inr (List.mem_cons_self ..))

/-- While the log stays as it is, a request that is about to be answered must remain so. -/
theorem Loop.NoRequestLost.of_same (hs : s.NoRequestLost) (hlog : s'.log = s.log)
    (hkeep : s.reloadPending = true ∨ s.Reloading → s'.reloadPending = true ∨ s'.Reloading) :
    s'.NoRequestLost := by
  intro later earlier hsplit
  rcases hs later earlier (hlog.symm.trans hsplit) with h | h | h
  · exact or_assoc.mp (Or.inl (hkeep (Or.inl h)))
  · exact or_assoc.mp (Or.inl (hkeep (Or.inr h)))
  · exact Or.inr (Or.inr h)

/-- No event loses a request. -/
theorem Loop.NoRequestLost.step (hs : s.NoRequestLost) {e : LoopEvent}
    (h : s.step e = some s') : s'.NoRequestLost := by
  cases e with
  | signal signal =>
    simp only [Loop.step] at h
    split_ifs at h with hpc
    cases h
    rcases s.daemonSighandler_cases signal with hpending | ⟨hlog, hpending, hat⟩
    · exact fun later earlier _ => Or.inl hpending
    · refine hs.of_same hlog fun hs => ?_
      rw [hpending, Loop.Reloading, hat]
      exact hs
  | advance outcome =>
    rcases Loop.advance_cases h with hlog | ⟨hlog, hkeep⟩
    · exact .of_parse hlog
    · exact hs.of_same hlog hkeep

end Step

/-- **Reload requests.** For every interleaving of the signals with the steps of `daemon_main`,
whatever the outcome of each step: in every state, every `SIGHUP` that has been delivered is
still pending, or the loop has decided to reload and has yet to call `config_parse`, or a call
of `config_parse` has begun since the delivery. -/
theorem reload_never_lost (events : List LoopEvent) (s : Loop)
    (h : Process.run Loop.step Loop.start events = some s) : s.NoRequestLost := by
  refine Process.run_keeps (fun _ _ _ hs hstep => hs.step hstep) ?_ h
  intro later earlier hsplit
  cases later <;> cases hsplit

/-- A request that arrives between the test of the flag and its clearing is answered by the
reload that is under way, and one that arrives while the file is read stays pending. -/
theorem reload_never_lost_while_reloading :
    let events := List.replicate 10 (.advance true) ++
      [.signal .sighup, .advance true, .advance true, .signal .sighup]
    let s : Loop := ⟨.reloadParsed, true, true, false, true, [.request, .parse, .request, .parse]⟩
    Process.run Loop.step Loop.start events = some s ∧ s.NoRequestLost := by
  intro events s
  have hrun : Process.run Loop.step Loop.start events = some s := by decide
  exact ⟨hrun, reload_never_lost events s hrun⟩

end AmdgpuFand
