import AmdgpuFand.Changes

/-!
# Broken pipes

`SIGPIPE` asks the daemon to restart. As for `SIGHUP`, the handler only sets a flag; but
`daemon_handle_pending_signals` clears `daemon_sigpipe_caught` behind the restart that answers it,
and not before. A signal that arrives outside of a restart is answered within a round
(`sigpipe_answered`). One that arrives during a restart is not told from the one that has caused it,
and brings about no other (`sigpipe_merged`).
-/

namespace AmdgpuFand

open Process

/-- The flag has been tested and not been cleared yet. -/
def Pc.Restarting : Pc → Prop
  | .restartFree | .clearSigpipe => True
  | .initHead caller | .initParse caller | .initParsed caller | .initTail caller =>
    caller = .daemonRestart
  | _ => False

instance (pc : Pc) : Decidable pc.Restarting := by
  cases pc <;> unfold Pc.Restarting <;> infer_instance

/-- The number of steps to the restart, if the flag is set -/
def Pc.toRestart : Pc → ℕ
  | .start => 15
  | .initHead _ => 14
  | .initParse _ => 13
  | .initParsed _ => 12
  | .initTail _ | .serverPoll => 11
  | .testAlive => 10
  | .adjust => 9
  | .watchEvent => 8
  | .testPending => 7
  | .testTriggered => 6
  | .clearPending => 5
  | .reloadParse => 4
  | .reloadParsed => 3
  | .reloadConfigure => 2
  | .testSigpipe => 1
  | _ => 0

/-- The steps of the program are counted, the signals are not. -/
def LoopEvent.steps : LoopEvent → ℕ
  | .signal _ => 0
  | .advance _ => 1

namespace Loop

variable {s s' : Loop}

/-- The flag is set, outside of a restart. -/
def Broken (s : Loop) : Prop := s.sigpipeCaught = true ∧ ¬ s.pc.Restarting

/-- A step of the program brings the restart nearer, or stops the daemon. -/
theorem Broken.advance (hs : s.Broken) {outcome : Bool} (h : s.advance outcome = some s') :
    (s'.pc = .restartFree ∨ s'.alive = false) ∨
      s'.Broken ∧ s'.pc.toRestart + 1 ≤ s.pc.toRestart := by
  obtain ⟨hcaught, hout⟩ := hs
  unfold Loop.advance at h
  cases hpc : s.pc with
  | testSigpipe =>
    rw [hpc] at h
    cases h
    rw [hcaught]
    exact Or.inl (Or.inl rfl)
  | initHead caller | initParse caller | initParsed caller | initTail caller =>
    -- outside of a restart this is the first `daemon_init`
    rw [hpc] at h hout
    cases caller with
    | daemonRestart => exact absurd rfl hout
    | daemonMain =>
      cases outcome <;> cases h <;> simp [Broken, Pc.Restarting, Pc.toRestart, initReturn, hcaught]
  | testAlive =>
    rw [hpc] at h
    cases h
    cases halive : s.alive with
    | false => exact Or.inl (Or.inr rfl)
    | true => simp [Broken, Pc.Restarting, Pc.toRestart, hcaught]
  | testPending =>
    rw [hpc] at h
    cases h
    cases s.reloadPending <;> simp [Broken, Pc.Restarting, Pc.toRestart, hcaught]
  | testTriggered =>
    rw [hpc] at h
    cases h
    cases s.triggered <;> simp [Broken, Pc.Restarting, Pc.toRestart, hcaught]
  | _ =>
    rw [hpc] at h hout
    cases outcome <;> cases h <;>
      simp_all [Broken, Pc.Restarting, Pc.toRestart, initReturn]

/-- A signal leaves the flag set, and the loop where it is. -/
theorem Broken.signal (hs : s.Broken) (signal : Signal) :
    (s.daemonSighandler signal).Broken ∧ (s.daemonSighandler signal).pc = s.pc := by
  refine ⟨⟨?_, ?_⟩, s.daemonSighandler_pc signal⟩
  · cases signal with
    | sigpipe => rfl
    | sigint | sigterm | sighup => exact hs.1
    | sigchld serverExit => cases serverExit <;> exact hs.1
  · rw [daemonSighandler_pc]
    exact hs.2

/-- One step: what the program does is counted, and a signal changes nothing. -/
theorem Broken.step (hs : s.Broken) {e : LoopEvent} (h : s.step e = some s') :
    (s'.pc = .restartFree ∨ s'.alive = false) ∨
      s'.Broken ∧ s'.pc.toRestart + e.steps ≤ s.pc.toRestart := by
  cases e with
  | advance outcome => exact hs.advance h
  | signal signal =>
    simp only [Loop.step] at h
    split_ifs at h
    cases h
    obtain ⟨hbroken, hpc⟩ := hs.signal signal
    exact Or.inr ⟨hbroken, by rw [hpc]; rfl⟩

/-- The daemon is alive throughout a run behind which it is alive. -/
theorem alive_of_run {events : List LoopEvent} (h : run step s events = some s')
    (halive : s'.alive = true) : s.alive = true := by
  by_contra hdead
  have hdead' : s'.alive = false :=
    @run_keeps _ _ _ (fun s => s.alive = false) (fun _ _ _ hs hstep => alive_step hstep hs) _ _
      (eq_false_of_ne_true hdead) _ h
  rw [halive] at hdead'
  cases hdead'

/-- A restart is over, and the flag is clear. -/
def Quiet (s : Loop) : Prop := s.sigpipeCaught = false ∧ ¬ s.pc.Restarting

/-- A restart goes on, or ends with the flag clear. -/
theorem restarting_advance (hin : s.pc.Restarting) {outcome : Bool}
    (h : s.advance outcome = some s') : s'.pc.Restarting ∨ s'.Quiet := by
  unfold Loop.advance at h
  cases hpc : s.pc with
  | restartFree =>
    rw [hpc] at h
    cases h
    exact Or.inl rfl
  | clearSigpipe =>
    rw [hpc] at h
    cases h
    exact Or.inr ⟨rfl, id⟩
  | initHead caller | initParse caller | initParsed caller | initTail caller =>
    rw [hpc] at h hin
    obtain rfl : caller = .daemonRestart := hin
    cases outcome <;> cases h <;> simp [Pc.Restarting, initReturn]
  | _ =>
    rw [hpc] at hin
    exact hin.elim

/-- With the flag clear, no restart begins. -/
theorem Quiet.advance (hs : s.Quiet) {outcome : Bool} (h : s.advance outcome = some s') :
    s'.Quiet := by
  obtain ⟨hclear, hout⟩ := hs
  unfold Loop.advance at h
  cases hpc : s.pc with
  | initHead caller | initParse caller | initParsed caller | initTail caller =>
    rw [hpc] at h hout
    cases caller with
    | daemonRestart => exact absurd rfl hout
    | daemonMain =>
      cases outcome <;> cases h <;> simp [Quiet, Pc.Restarting, initReturn, hclear]
  | testAlive =>
    rw [hpc] at h
    cases h
    cases s.alive <;> simp [Quiet, Pc.Restarting, hclear]
  | testPending =>
    rw [hpc] at h
    cases h
    cases s.reloadPending <;> simp [Quiet, Pc.Restarting, hclear]
  | testTriggered =>
    rw [hpc] at h
    cases h
    cases s.triggered <;> simp [Quiet, Pc.Restarting, hclear]
  | _ =>
    rw [hpc] at h hout
    cases outcome <;> cases h <;> simp_all [Quiet, Pc.Restarting, initReturn]

/-- Only `SIGPIPE` sets the flag. -/
theorem Quiet.signal (hs : s.Quiet) {signal : Signal} (hsignal : signal ≠ .sigpipe) :
    (s.daemonSighandler signal).Quiet := by
  refine ⟨?_, ?_⟩
  · cases signal with
    | sigpipe => exact absurd rfl hsignal
    | sigint | sigterm | sighup => exact hs.1
    | sigchld serverExit => cases serverExit <;> exact hs.1
  · rw [daemonSighandler_pc]
    exact hs.2

/-- One step, whatever it is, begins no restart while no `SIGPIPE` comes. -/
theorem Quiet.step (hs : s.Quiet) {e : LoopEvent} (he : e ≠ .signal .sigpipe)
    (h : s.step e = some s') : s'.Quiet := by
  cases e with
  | advance outcome => exact hs.advance h
  | signal signal =>
    simp only [Loop.step] at h
    split_ifs at h
    cases h
    exact hs.signal fun hsignal => he (congrArg LoopEvent.signal hsignal)

/-- A signal that comes in a restart does not end it. -/
theorem restarting_step (hin : s.pc.Restarting) {e : LoopEvent} (h : s.step e = some s') :
    s'.pc.Restarting ∨ s'.Quiet := by
  cases e with
  | advance outcome => exact restarting_advance hin h
  | signal signal =>
    simp only [Loop.step] at h
    split_ifs at h
    cases h
    rw [daemonSighandler_pc]
    exact Or.inl hin

end Loop

/-- **Broken pipes are answered.** For every interleaving of signals and steps: if `SIGPIPE` is
delivered outside of a restart, and the daemon is still alive some time later, then a restart has
begun since, or the flag is still set and the program has made at most fourteen steps. -/
theorem sigpipe_answered (s₀ s : Loop) (hout : ¬ s₀.pc.Restarting) (events : List LoopEvent)
    (hrun : run Loop.step s₀ (.signal .sigpipe :: events) = some s) (halive : s.alive = true) :
    (∃ front back s₁, events = front ++ back ∧
        run Loop.step s₀ (.signal .sigpipe :: front) = some s₁ ∧ s₁.pc = .restartFree) ∨
      s.sigpipeCaught = true ∧ (events.map LoopEvent.steps).sum ≤ 14 := by
  obtain ⟨s₁, hsignal, hrest⟩ := Option.bind_eq_some_iff.mp hrun
  have hcons : ∀ front, run Loop.step s₀ (.signal .sigpipe :: front) =
      run Loop.step s₁ front := by
    intro front
    rw [run, hsignal, Option.bind_some]
  simp only [Loop.step] at hsignal
  split_ifs at hsignal with hstart
  cases hsignal
  have hrank : s₀.pc.toRestart ≤ 14 := by
    cases hpc : s₀.pc with
    | start => exact absurd hpc hstart
    | _ => simp [Pc.toRestart]
  have hbroken₁ : (s₀.daemonSighandler .sigpipe).Broken := ⟨rfl, hout⟩
  -- the measure is the way to the restart; only steps of the loop shorten it
  have hwithin := @run_within _ _ Loop.step Loop.Broken
    (fun s => s.pc = .restartFree ∨ s.alive = false) (fun s => s.pc.toRestart) LoopEvent.steps
    (fun _ _ _ hs hstep => hs.step hstep) _ _ hbroken₁ _ hrest
  rcases hwithin with ⟨front, back, s₂, rfl, hfront, hgoal⟩ | ⟨hbroken, hsteps⟩
  · refine Or.inl ⟨front, back, s₂, rfl, (hcons front).trans hfront, hgoal.resolve_right ?_⟩
    rw [run_append hfront] at hrest
    rw [Loop.alive_of_run hrest halive]
    exact Bool.noConfusion
  · have hat : (s₀.daemonSighandler .sigpipe).pc.toRestart = s₀.pc.toRestart := rfl
    exact Or.inr ⟨hbroken.1, by omega⟩

/-- Right behind the test of the flag, the signal waits for a whole round. -/
theorem sigpipe_answered_next_round :
    let s₀ : Loop := ⟨.serverPoll, true, false, false, false, []⟩
    let events : List LoopEvent := List.replicate 3 (.advance true) ++
      [.advance false, .advance true, .advance true, .advance true]
    ∃ s, run Loop.step s₀ (.signal .sigpipe :: events) = some s ∧ s.pc = .restartFree ∧
      ((∃ front back s₁, events = front ++ back ∧
          run Loop.step s₀ (.signal .sigpipe :: front) = some s₁ ∧ s₁.pc = .restartFree) ∨
        s.sigpipeCaught = true ∧ (events.map LoopEvent.steps).sum ≤ 14) := by
  intro s₀ events
  have hrun : run Loop.step s₀ (.signal .sigpipe :: events) =
      some ⟨.restartFree, true, false, true, false, []⟩ := by decide
  exact ⟨_, hrun, rfl, sigpipe_answered s₀ _ id events hrun rfl⟩

/-- **Broken pipes are merged.** If `SIGPIPE` is delivered during a restart and not again, then
the flag is clear as soon as this restart is over, and no other one follows. -/
theorem sigpipe_merged (s₀ s₁ s : Loop) (hin : s₀.pc.Restarting) (front back : List LoopEvent)
    (hquiet : ∀ e ∈ front ++ back, e ≠ .signal .sigpipe)
    (hfront : run Loop.step s₀ (.signal .sigpipe :: front) = some s₁)
    (hover : ¬ s₁.pc.Restarting) (hback : run Loop.step s₁ back = some s) :
    s.sigpipeCaught = false ∧ ¬ s.pc.Restarting := by
  obtain ⟨s₂, hsignal, hrest⟩ := Option.bind_eq_some_iff.mp hfront
  have hin₂ : s₂.pc.Restarting := by
    simp only [Loop.step] at hsignal
    split_ifs at hsignal
    cases hsignal
    exact hin
  have hmeets : ∀ {events : List LoopEvent}, (∀ e ∈ events, e ≠ .signal .sigpipe) → ∀ s,
      Meets Loop.step (fun _ e => e ≠ .signal .sigpipe) s events :=
    fun h s => meets_of_mem (fun e he _ => h e he) s
  have hfront' := @run_keeps_of_meets _ _ Loop.step _ (fun s => s.pc.Restarting ∨ s.Quiet)
    (fun _ _ _ hs he hstep => hs.elim (fun hin => Loop.restarting_step hin hstep)
      fun hquiet => Or.inr (hquiet.step he hstep)) _ _ (Or.inl hin₂) _
    (hmeets (fun e he => hquiet e (List.mem_append_left _ he)) s₂) hrest
  exact @run_keeps_of_meets _ _ Loop.step _ Loop.Quiet
    (fun _ _ _ hs he hstep => hs.step he hstep) _ _ (hfront'.resolve_left hover) _
    (hmeets (fun e he => hquiet e (List.mem_append_right _ he)) s₁) hback

/-- A broken pipe of the new server, before the restart has returned, and the round behind it -/
theorem sigpipe_merged_tail :
    let s₀ : Loop := ⟨.initTail .daemonRestart, true, false, true, false, []⟩
    ∃ s₁ s, run Loop.step s₀ [.signal .sigpipe, .advance true, .advance true] = some s₁ ∧
      run Loop.step s₁ (List.replicate 3 (.advance true) ++ List.replicate 4 (.advance false)) =
        some s ∧
      s.pc = .serverPoll ∧ s.sigpipeCaught = false ∧ ¬ s.pc.Restarting := by
  intro s₀
  have hfront : run Loop.step s₀ [.signal .sigpipe, .advance true, .advance true] =
      some ⟨.serverPoll, true, false, false, false, []⟩ := by decide
  have hback : run Loop.step ⟨.serverPoll, true, false, false, false, []⟩
      (List.replicate 3 (.advance true) ++ List.replicate 4 (.advance false)) =
        some ⟨.serverPoll, true, false, false, false, []⟩ := by decide
  exact ⟨_, _, hfront, hback, rfl,
    sigpipe_merged s₀ _ _ rfl [.advance true, .advance true] _ (by decide) hfront id hback⟩

end AmdgpuFand
