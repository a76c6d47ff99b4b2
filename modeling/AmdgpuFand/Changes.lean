import AmdgpuFand.Sighup
import AmdgpuFand.Watch

/-!
# Changes of the configuration file

`inotify` queues an event for every modification of a file in the watched directory, unless it is
the same as the last one in the queue, or the queue is full. In each round `fsys_watch_event` takes
as many events as fit its buffer, looks for one with the name of the configuration file, and
forgets the rest of the batch. The file may be modified at any point of the loop, also while it is
read, and other files of the directory as often as one likes.

The machine is that of `Sighup.lean` with the queue: the outcome of `fsys_watch_event` is no longer
arbitrary, but what the loop over the events makes of the bytes that `read` stores
(`Watched.step_loop`). `change_never_lost` says that the daemon does not miss a modification that
has been queued, `change_answered` how long it can take to get to it. What the daemon does miss is a
modification between `config_parse` and `inotify_add_watch` in `daemon_init`.
-/

namespace AmdgpuFand

/-! ## The queue -/

/-- The kernel does not queue an event that the last one in the queue says already. -/
def InotifyEvent.same (e e' : InotifyEvent) : Bool :=
  e.wd = e'.wd && e.mask = e'.mask && e.len = e'.len && e.name = e'.name

/-- The whole events at the front of a queue that fit, and those behind them -/
def takeWhole : ℕ → List InotifyEvent → List InotifyEvent × List InotifyEvent
  | _, [] => ([], [])
  | room, e :: queue =>
    if e.bytes.length ≤ room then
      let (taken, left) := takeWhole (room - e.bytes.length) queue
      (e :: taken, left)
    else ([], e :: queue)

/-- `read` from an `inotify` descriptor. It fails if there is no event, or the first one does not
fit. -/
def inotifyRead (bufsize : ℕ) (queue : List InotifyEvent) :
    Option (List InotifyEvent × List InotifyEvent) :=
  if (takeWhole bufsize queue).1 = [] then none else some (takeWhole bufsize queue)

/-- A queue after one more event -/
def enqueue (maxQueued : ℕ) (queue : List InotifyEvent) (e : InotifyEvent) : List InotifyEvent :=
  if queue.getLast?.any e.same then queue
  else if queue.length < maxQueued then queue ++ [e]
  else queue

/-- There is room for an event, or none is needed. -/
def HasRoom (maxQueued : ℕ) (queue : List InotifyEvent) (e : InotifyEvent) : Prop :=
  queue.getLast?.any e.same = true ∨ queue.length < maxQueued

/-- What has been queued stays where it is. -/
theorem enqueue_cases (maxQueued : ℕ) (queue : List InotifyEvent) (e : InotifyEvent) :
    enqueue maxQueued queue e = queue ∨ enqueue maxQueued queue e = queue ++ [e] := by
  rw [enqueue]
  split_ifs
  · exact .inl rfl
  · exact .inr rfl
  · exact .inl rfl

/-- What is read and what is left are the queue. -/
theorem takeWhole_append (room : ℕ) (queue : List InotifyEvent) :
    (takeWhole room queue).1 ++ (takeWhole room queue).2 = queue := by
  induction queue generalizing room with
  | nil => rfl
  | cons e queue ih =>
    rw [takeWhole]
    split_ifs
    · exact congrArg (e :: ·) (ih (room - e.bytes.length))
    · rfl

/-- What `read` takes and what it leaves -/
theorem inotifyRead_some {bufsize : ℕ} {queue taken left : List InotifyEvent}
    (h : inotifyRead bufsize queue = some (taken, left)) :
    taken ++ left = queue ∧ taken ≠ [] := by
  rw [inotifyRead] at h
  split_ifs at h with hnil
  have hpair := Option.some.inj h
  rw [hpair] at hnil
  refine ⟨?_, hnil⟩
  have happend := takeWhole_append bufsize queue
  rwa [hpair] at happend

/-- An event that fits does not block the queue. -/
theorem inotifyRead_isSome {bufsize : ℕ} {e : InotifyEvent} (he : e.bytes.length ≤ bufsize)
    (queue : List InotifyEvent) : (inotifyRead bufsize (e :: queue)).isSome := by
  rw [inotifyRead, takeWhole, if_pos he]
  rfl

/-! ## The machine -/

/-- The main loop with the queue of its watch -/
structure Watched where
  loop : Loop
  /-- the events that have not been read; `none` while there is no watch -/
  queue : Option (List InotifyEvent)
  /-- the file has been modified since `config_parse` was last called -/
  stale : Bool
  /-- how often `config_parse` and `fsys_watch_event` have been called -/
  parses : ℕ
  rounds : ℕ

/-- What can happen -/
inductive ChangeEvent
  | signal (signal : Signal)
  /-- the program takes its next step; the outcome is that of its calls -/
  | advance (outcome : Bool)
  /-- a file in the directory is modified -/
  | modify (e : InotifyEvent)

namespace Watched

section Machine

variable (path : List UInt8) (watch : InotifyWatch) (maxQueued : ℕ) (s : Watched)

/-- The beginning of `daemon_main` -/
def start : Watched := ⟨.start, none, false, 0, 0⟩

/-- It is the configuration file that is modified, and that is here the entry of the watched
directory with the last component of the path as it was given. Where this component is a symbolic
link, `config_parse` reads another file (`watch_exact`). -/
def ofConfig (e : InotifyEvent) : Bool := e.Matches watch.flags (watchedName path)

/-- `fsys_watch_event` with what `read` gets from the queue: `watch->triggered`, and what is left -/
def watchEvent : Option (Bool × Option (List InotifyEvent)) :=
  let read := s.queue.bind (inotifyRead inotifyBufLength)
  (fsysWatchEvent path watch (read.map fun r => InotifyEvent.batch r.1)).map fun result =>
    (result.2.triggered, (read.map Prod.snd).or s.queue)

/-- The next step of the program -/
def advance (outcome : Bool) : Option Watched :=
  match s.loop.pc with
  | .watchEvent => do
    let (triggered, queue) ← s.watchEvent path watch
    let loop ← s.loop.advance triggered
    some { s with loop, queue, rounds := s.rounds + 1 }
  | .initParse _ | .reloadParse =>
    (s.loop.advance outcome).map fun loop =>
      { s with loop, stale := false, parses := s.parses + 1 }
  | .initTail _ =>
    (s.loop.advance outcome).map fun loop =>
      { s with loop, queue := if outcome then some [] else none }
  | .restartFree => (s.loop.advance outcome).map fun loop => { s with loop, queue := none }
  | _ => (s.loop.advance outcome).map fun loop => { s with loop }

/-- A name takes at most 255 bytes, so that every event fits the buffer. -/
def step : ChangeEvent → Option Watched
  | .signal signal => (s.loop.step (.signal signal)).map fun loop => { s with loop }
  | .advance outcome => s.advance path watch outcome
  | .modify e =>
    if e.bytes.length ≤ inotifyBufLength then
      some { s with
        queue := s.queue.map fun queue => enqueue maxQueued queue e
        stale := s.stale || ofConfig path watch e }
    else none

/-- `fsys_watch_event` finds the file in what it takes. -/
theorem watchEvent_eq : s.watchEvent path watch =
    match s.queue.bind (inotifyRead inotifyBufLength) with
    | none => some (false, s.queue)
    | some (taken, left) => some (taken.any (ofConfig path watch), some left) := by
  rw [watchEvent]
  rcases s.queue.bind (inotifyRead inotifyBufLength) with _ | ⟨taken, left⟩
  · rfl
  · dsimp only [Option.map_some]
    rw [fsysWatchEvent_batch]
    rfl

end Machine

section Steps

variable {path : List UInt8} {watch : InotifyWatch} {maxQueued : ℕ} {s s' : Watched}

/-- What is in the queue after a round was there before. -/
theorem mem_of_watchEvent {triggered : Bool} {after : Option (List InotifyEvent)}
    (h : s.watchEvent path watch = some (triggered, after)) {queue : List InotifyEvent}
    (hqueue : queue ∈ after) {e : InotifyEvent} (he : e ∈ queue) :
    ∃ before ∈ s.queue, e ∈ before := by
  rw [watchEvent_eq] at h
  rcases hread : s.queue.bind (inotifyRead inotifyBufLength) with _ | ⟨taken, left⟩
  · rw [hread] at h
    cases h
    exact ⟨queue, hqueue, he⟩
  · rw [hread] at h
    cases h
    obtain ⟨before, hbefore, hread⟩ := Option.bind_eq_some_iff.mp hread
    obtain ⟨rfl, -⟩ := inotifyRead_some hread
    cases hqueue
    exact ⟨_, hbefore, List.mem_append_right _ he⟩

theorem advance_loop {outcome : Bool} (h : s.advance path watch outcome = some s') :
    ∃ o, s.loop.advance o = some s'.loop := by
  rw [advance] at h
  split at h
  · obtain ⟨⟨triggered, queue⟩, -, h⟩ := Option.bind_eq_some_iff.mp h
    obtain ⟨loop, hloop, h⟩ := Option.bind_eq_some_iff.mp h
    cases h
    exact ⟨triggered, hloop⟩
  all_goals
    obtain ⟨loop, hloop, rfl⟩ := Option.map_eq_some_iff.mp h
    exact ⟨outcome, hloop⟩

/-- The loop goes through a run of its own. -/
theorem step_loop {e : ChangeEvent} (h : s.step path watch maxQueued e = some s') :
    s'.loop = s.loop ∨ ∃ l, s.loop.step l = some s'.loop := by
  cases e with
  | signal signal =>
    obtain ⟨loop, hloop, rfl⟩ := Option.map_eq_some_iff.mp h
    exact .inr ⟨_, hloop⟩
  | modify e =>
    simp only [step] at h
    split_ifs at h
    cases h
    exact .inl rfl
  | advance outcome =>
    obtain ⟨o, hloop⟩ := advance_loop h
    exact .inr ⟨.advance o, hloop⟩

end Steps

end Watched

/-- `daemon_init`, in which there is no watch -/
def Pc.inInit : Pc → Bool
  | .start | .initHead _ | .initParse _ | .initParsed _ | .initTail _ => true
  | _ => false

/-- `config_parse` is called before `fsys_watch_event` is, unless `daemon_init` fails first. -/
def Loop.OnTheWay (s : Loop) : Prop :=
  match s.pc with
  | .start | .initHead _ | .initParse _ | .clearPending | .reloadParse => True
  | .testPending | .testTriggered => s.triggered = true
  | _ => False

/-- A signal does not move the loop. -/
theorem Loop.daemonSighandler_pc (s : Loop) (signal : Signal) :
    (s.daemonSighandler signal).pc = s.pc := by
  cases signal with
  | sigint | sigterm | sigpipe | sighup => rfl
  | sigchld serverExit => cases serverExit <;> rfl

@[simp]
theorem Loop.initReturn_alive (s : Loop) (ok : Bool) (caller : InitCaller) :
    (s.initReturn ok caller).alive = (s.alive && ok) := by
  cases caller <;> rfl

/-- `daemon_alive` is never set again. -/
theorem Loop.alive_step {s s' : Loop} {e : LoopEvent} (h : s.step e = some s')
    (halive : s.alive = false) : s'.alive = false := by
  cases e with
  | signal signal =>
    simp only [step] at h
    split_ifs at h
    cases h
    cases signal with
    | sigint | sigterm => rfl
    | sigpipe | sighup => exact halive
    | sigchld serverExit =>
      cases serverExit with
      | true => rfl
      | false => exact halive
  | advance outcome =>
    simp only [step, advance] at h
    cases hpc : s.pc <;> rw [hpc] at h <;> cases outcome <;> cases h <;> simp [halive]

/-- `daemon_init` is called by `daemon_restart`. -/
theorem Loop.inInit_advance {s s' : Loop} {outcome : Bool} (h : s.advance outcome = some s')
    (hinit : s'.pc.inInit = true) : s.pc.inInit = true ∨ s.pc = .restartFree := by
  rw [Loop.advance] at h
  cases hpc : s.pc with
  | start | initHead caller | initParse caller | initParsed caller | initTail caller =>
    exact .inl rfl
  | restartFree => exact .inr rfl
  | testAlive | testPending | testTriggered | reloadParsed | testSigpipe =>
    rw [hpc] at h
    cases h
    dsimp only at hinit
    split at hinit <;> cases hinit
  | _ =>
    rw [hpc] at h
    cases h
    try cases hinit

/-- A loop that is on its way to `config_parse` gets there. -/
theorem Loop.OnTheWay.advance {s s' : Loop} {outcome : Bool} (hway : s.OnTheWay)
    (h : s.advance outcome = some s') :
    (∃ caller, s.pc = .initParse caller) ∨ s.pc = .reloadParse ∨ s'.OnTheWay ∨
      s'.alive = false := by
  rw [Loop.OnTheWay] at hway
  rw [Loop.advance] at h
  cases hpc : s.pc with
  | initParse caller => exact .inl ⟨caller, rfl⟩
  | reloadParse => exact .inr (.inl rfl)
  | start | initHead caller =>
    refine .inr (.inr ?_)
    rw [hpc] at h
    cases outcome <;> cases h
    · exact .inr (by simp)
    · exact .inl trivial
  | clearPending =>
    rw [hpc] at h
    cases h
    exact .inr (.inr (.inl trivial))
  | testPending =>
    rw [hpc] at h hway
    cases h
    refine .inr (.inr (.inl ?_))
    cases hpending : s.reloadPending with
    | true => exact trivial
    | false => exact hway
  | testTriggered =>
    rw [hpc] at h hway
    cases h
    refine .inr (.inr (.inl ?_))
    -- the flag of the watch leads to the reload
    have htriggered : s.triggered = true := hway
    rw [htriggered]
    exact trivial
  | _ =>
    rw [hpc] at hway
    exact hway.elim

namespace Watched

section Moves

variable {path : List UInt8} {watch : InotifyWatch} {maxQueued : ℕ} {s s' : Watched}

/-- What a step of the program does to the queue and to the counters -/
inductive Move (path : List UInt8) (watch : InotifyWatch) (s s' : Watched) : Prop
  | parse (hpc : s.loop.pc ≠ .restartFree) (hqueue : s'.queue = s.queue)
      (hstale : s'.stale = false) (hparses : s'.parses = s.parses + 1)
  | read (hpc : s.loop.pc = .watchEvent) (hpc' : s'.loop.pc = .testPending)
      (hevent : s.watchEvent path watch = some (s'.loop.triggered, s'.queue))
      (hstale : s'.stale = s.stale) (hparses : s'.parses = s.parses)
      (hrounds : s'.rounds = s.rounds + 1)
  | free (hway : s'.loop.OnTheWay) (hqueue : s'.queue = none) (hparses : s'.parses = s.parses)
      (hrounds : s'.rounds = s.rounds)
  | watch (hpc : s.loop.pc.inInit = true) (hway : ¬ s.loop.OnTheWay)
      (hqueue : s'.loop.pc.inInit = true → s'.queue = none) (hfits : s'.queue.getD [] = [])
      (hstale : s'.stale = s.stale) (hparses : s'.parses = s.parses)
      (hrounds : s'.rounds = s.rounds)
  | other (hpc : s.loop.pc ≠ .restartFree)
      (hway : s.loop.OnTheWay → s'.loop.OnTheWay ∨ s'.loop.alive = false)
      (hqueue : s'.queue = s.queue) (hstale : s'.stale = s.stale)
      (hparses : s'.parses = s.parses) (hrounds : s'.rounds = s.rounds)

/-- Every step of the loop is one of these moves. -/
theorem advance_move {outcome : Bool} (h : s.advance path watch outcome = some s') :
    s.Move path watch s' := by
  rw [advance] at h
  cases hpc : s.loop.pc with
  | watchEvent =>
    rw [hpc] at h
    obtain ⟨⟨triggered, queue⟩, hevent, h⟩ := Option.bind_eq_some_iff.mp h
    obtain ⟨loop, hloop, h⟩ := Option.bind_eq_some_iff.mp h
    cases h
    rw [Loop.advance, hpc] at hloop
    cases hloop
    exact .read hpc rfl hevent rfl rfl rfl
  | initParse caller | reloadParse =>
    rw [hpc] at h
    obtain ⟨loop, -, rfl⟩ := Option.map_eq_some_iff.mp h
    exact .parse (by simp [hpc]) rfl rfl rfl
  | initTail caller =>
    rw [hpc] at h
    obtain ⟨loop, hloop, rfl⟩ := Option.map_eq_some_iff.mp h
    rw [Loop.advance, hpc] at hloop
    refine .watch (by rw [hpc]; rfl) (by simp [Loop.OnTheWay, hpc]) (fun hinit => ?_) ?_ rfl rfl rfl
    · cases outcome with
      | false => rfl
      | true =>
        cases hloop
        cases caller <;> cases hinit
    · cases outcome <;> rfl
  | restartFree =>
    rw [hpc] at h
    obtain ⟨loop, hloop, rfl⟩ := Option.map_eq_some_iff.mp h
    rw [Loop.advance, hpc] at hloop
    cases hloop
    exact .free trivial rfl rfl rfl
  | _ =>
    rw [hpc] at h
    obtain ⟨loop, hloop, rfl⟩ := Option.map_eq_some_iff.mp h
    refine .other (by simp [hpc]) (fun hway => ?_) rfl rfl rfl rfl
    obtain ⟨caller, hparse⟩ | hparse | hway' := hway.advance hloop
    · rw [hpc] at hparse
      cases hparse
    · rw [hpc] at hparse
      cases hparse
    · exact hway'

end Moves

/-! ## Nothing is missed -/

section Missed

variable (path : List UInt8) (watch : InotifyWatch) (maxQueued : ℕ) (s : Watched)

/-- The daemon stops, or an event for the file is in the queue. -/
def Waits : Prop :=
  s.loop.alive = false ∨ ∃ queue ∈ s.queue, ∃ e ∈ queue, ofConfig path watch e = true

/-- A modification of the file comes before `config_parse` is called, or there is a watch, with
room in its queue. -/
def Noticed : ChangeEvent → Prop
  | .modify e => ofConfig path watch e = true →
    s.loop.OnTheWay ∨ ∃ queue ∈ s.queue, HasRoom maxQueued queue e
  | _ => True

/-- In `daemon_init` there is no watch, and every event in the queue can be read. -/
structure Inv : Prop where
  closed : s.loop.pc.inInit = true → s.queue = none
  fits : ∀ queue ∈ s.queue, ∀ e ∈ queue, e.bytes.length ≤ inotifyBufLength

end Missed

section Steps

variable {path : List UInt8} {watch : InotifyWatch} {maxQueued : ℕ} {s s' : Watched}
  {e : ChangeEvent}

/-- A daemon that is on its way out stays so. -/
theorem alive_step (h : s.step path watch maxQueued e = some s') (halive : s.loop.alive = false) :
    s'.loop.alive = false := by
  rcases step_loop h with hsame | ⟨l, hl⟩
  · rw [hsame, halive]
  · exact Loop.alive_step hl halive

theorem inv_start : start.Inv :=
  ⟨fun _ => rfl, fun queue hqueue => by cases hqueue⟩

/-- A move of the loop keeps it, -/
theorem Inv.advance (hs : s.Inv) {outcome : Bool} (h : s.advance path watch outcome = some s') :
    s'.Inv := by
  obtain ⟨o, hloop⟩ := advance_loop h
  have hinit := Loop.inInit_advance hloop
  cases advance_move h with
  | parse hpc hqueue | other hpc _ hqueue =>
    refine ⟨fun hinit' => ?_, hqueue ▸ hs.fits⟩
    rw [hqueue]
    exact hs.closed ((hinit hinit').resolve_right hpc)
  | read _ hpc' hevent =>
    refine ⟨fun hinit' => ?_, fun queue hqueue e he => ?_⟩
    · rw [hpc'] at hinit'
      cases hinit'
    · obtain ⟨before, hbefore, hmem⟩ := mem_of_watchEvent hevent hqueue he
      exact hs.fits before hbefore e hmem
  | free _ hqueue =>
    refine ⟨fun _ => hqueue, fun queue hmem => ?_⟩
    rw [hqueue] at hmem
    cases hmem
  | watch _ _ hqueue hnil =>
    refine ⟨hqueue, fun queue hmem e he => ?_⟩
    rw [Option.mem_def.mp hmem] at hnil
    rw [Option.getD_some] at hnil
    rw [hnil] at he
    cases he

/-- and so does an event from outside. -/
theorem Inv.step (hs : s.Inv) (h : s.step path watch maxQueued e = some s') : s'.Inv := by
  cases e with
  | signal signal =>
    obtain ⟨loop, hloop, rfl⟩ := Option.map_eq_some_iff.mp h
    refine ⟨fun hinit => hs.closed ?_, hs.fits⟩
    simp only [Loop.step] at hloop
    split_ifs at hloop
    cases hloop
    rwa [Loop.daemonSighandler_pc] at hinit
  | advance outcome => exact hs.advance h
  | modify e =>
    simp only [Watched.step] at h
    split_ifs at h with hfits
    cases h
    refine ⟨fun hinit => by rw [hs.closed hinit]; rfl, fun queue hqueue e' he' => ?_⟩
    obtain ⟨before, hbefore, rfl⟩ := Option.map_eq_some_iff.mp hqueue
    rcases enqueue_cases maxQueued before e with hsame | happend
    · rw [hsame] at he'
      exact hs.fits before hbefore e' he'
    · rw [happend, List.mem_append, List.mem_singleton] at he'
      rcases he' with he' | rfl
      · exact hs.fits before hbefore e' he'
      · exact hfits

/-- Where the file has been modified, the daemon knows or is going to. -/
def Knows (path : List UInt8) (watch : InotifyWatch) (s : Watched) : Prop :=
  s.stale = true → s.Waits path watch ∨ s.loop.OnTheWay

/-- A reload that is waited for is waited for as long as the queue is what it was. -/
theorem Waits.congr (halive : s.loop.alive = false → s'.loop.alive = false)
    (hqueue : s'.queue = s.queue) (h : s.Waits path watch) : s'.Waits path watch := by
  rcases h with h | h
  · exact .inl (halive h)
  · exact .inr (hqueue ▸ h)

/-- A move of the loop: a parse starts the file anew, a read takes the events off the queue and
raises the flag. -/
theorem Knows.advance (hinv : s.Inv) (hs : s.Knows path watch) {outcome : Bool}
    (h : s.step path watch maxQueued (.advance outcome) = some s') : s'.Knows path watch := by
  intro hstale
  have halive := alive_step h
  cases advance_move h with
  | parse _ _ hfresh =>
    -- what has just been parsed is not stale
    rw [hfresh] at hstale
    cases hstale
  | free hway => exact .inr hway
  | watch hpc hway _ _ hsame =>
    rcases hs (hsame ▸ hstale) with (hstopped | ⟨queue, hqueue, -⟩) | hway'
    · exact .inl (.inl (halive hstopped))
    · rw [hinv.closed hpc] at hqueue
      cases hqueue
    · exact absurd hway' hway
  | other _ hway hqueue hsame =>
    rcases hs (hsame ▸ hstale) with hwaits | hway'
    · exact .inl (hwaits.congr halive hqueue)
    · rcases hway hway' with hway'' | hstopped
      · exact .inr hway''
      · exact .inl (.inl hstopped)
  | read hpc hpc' hevent hsame =>
    have hnot : ¬ s.loop.OnTheWay := by simp [Loop.OnTheWay, hpc]
    rcases (hs (hsame ▸ hstale)).resolve_right hnot with hstopped | ⟨queue, hqueue, e, he, hof⟩
    · exact .inl (.inl (halive hstopped))
    · rw [watchEvent_eq, hqueue, Option.bind_some] at hevent
      rcases hread : inotifyRead inotifyBufLength queue with _ | ⟨taken, left⟩
      · rw [hread] at hevent
        obtain ⟨-, hsame'⟩ := Prod.mk.inj (Option.some.inj hevent)
        exact .inl (.inr ⟨queue, hsame'.symm, e, he, hof⟩)
      · rw [hread] at hevent
        obtain ⟨htriggered, hleft⟩ := Prod.mk.inj (Option.some.inj hevent)
        obtain ⟨rfl, -⟩ := inotifyRead_some hread
        rcases List.mem_append.mp he with he | he
        · -- the event is in what has been taken
          refine .inr ?_
          rw [Loop.OnTheWay, hpc', ← htriggered]
          exact List.any_eq_true.mpr ⟨e, he, hof⟩
        · exact .inl (.inr ⟨left, hleft.symm, e, he, hof⟩)

theorem ofConfig_of_same {e e' : InotifyEvent} (h : e.same e' = true)
    (he : ofConfig path watch e = true) : ofConfig path watch e' = true := by
  simp only [InotifyEvent.same, Bool.and_eq_true, decide_eq_true_eq] at h
  obtain ⟨⟨⟨-, hmask⟩, hlen⟩, hname⟩ := h
  obtain ⟨hmask', hlen', hname'⟩ := of_decide_eq_true he
  exact decide_eq_true ⟨hmask ▸ hmask', hlen ▸ hlen', hname ▸ hname'⟩

/-- An event that has room is in the queue afterwards, or one that says the same. -/
theorem ofConfig_enqueue {queue : List InotifyEvent} {e : InotifyEvent}
    (hroom : HasRoom maxQueued queue e) (he : ofConfig path watch e = true) :
    ∃ e' ∈ enqueue maxQueued queue e, ofConfig path watch e' = true := by
  rw [enqueue]
  by_cases hsame : queue.getLast?.any e.same = true
  · rw [if_pos hsame]
    obtain ⟨e', hlast, hsame'⟩ := (Option.any_eq_true _ _).mp hsame
    exact ⟨e', List.mem_of_getLast? hlast, ofConfig_of_same hsame' he⟩
  · rw [if_neg hsame, if_pos (hroom.resolve_left hsame)]
    exact ⟨e, List.mem_append_right _ (List.mem_singleton_self e), he⟩

theorem mem_enqueue {queue : List InotifyEvent} {e e' : InotifyEvent} (he : e ∈ queue) :
    e ∈ enqueue maxQueued queue e' := by
  rcases enqueue_cases maxQueued queue e' with hsame | happend
  · rwa [hsame]
  · rw [happend]
    exact List.mem_append_left _ he

/-- A signal does not turn the loop back. -/
theorem onTheWay_signal {signal : Signal}
    (h : s.step path watch maxQueued (.signal signal) = some s') (hway : s.loop.OnTheWay) :
    s'.loop.OnTheWay := by
  obtain ⟨loop, hloop, rfl⟩ := Option.map_eq_some_iff.mp h
  simp only [Loop.step] at hloop
  split_ifs at hloop
  cases hloop
  have htriggered : (s.loop.daemonSighandler signal).triggered = s.loop.triggered := by
    cases signal with
    | sigint | sigterm | sigpipe | sighup => rfl
    | sigchld serverExit => cases serverExit <;> rfl
  rw [Loop.OnTheWay] at hway ⊢
  rwa [Loop.daemonSighandler_pc, htriggered]

/-- One step: a change of the file puts its event in the queue, and what is known of earlier ones
is kept. -/
theorem Knows.step (hinv : s.Inv) (hs : s.Knows path watch)
    (hnoticed : s.Noticed path watch maxQueued e)
    (h : s.step path watch maxQueued e = some s') : s'.Knows path watch := by
  cases e with
  | advance outcome => exact hs.advance hinv h
  | signal signal =>
    intro hstale
    have halive := alive_step h
    have hkept := @onTheWay_signal path watch maxQueued s s' signal h
    obtain ⟨loop, -, rfl⟩ := Option.map_eq_some_iff.mp h
    rcases hs hstale with hwaits | hway
    · exact .inl (hwaits.congr halive rfl)
    · exact .inr (hkept hway)
  | modify e =>
    intro hstale
    simp only [Watched.step] at h
    split_ifs at h
    cases h
    dsimp only at hstale
    rw [Bool.or_eq_true] at hstale
    -- the record was stale before, or this is its change
    rcases hstale with hstale | hof
    · rcases hs hstale with (hstopped | ⟨queue, hqueue, e', he', hof⟩) | hway
      · exact .inl (.inl hstopped)
      · refine .inl (.inr ⟨enqueue maxQueued queue e, ?_, e', mem_enqueue he', hof⟩)
        rw [Option.mem_def.mp hqueue]
        rfl
      · exact .inr hway
    · rcases hnoticed hof with hway | ⟨queue, hqueue, hroom⟩
      · exact .inr hway
      · obtain ⟨e', he', hof'⟩ := ofConfig_enqueue hroom hof
        refine .inl (.inr ⟨enqueue maxQueued queue e, ?_, e', he', hof'⟩)
        rw [Option.mem_def.mp hqueue]
        rfl

end Steps

end Watched

/-- **No change is lost.** For every interleaving of the loop with signals and modifications of any
files in the directory: if the configuration file is never modified where there is no watch, which
is in `daemon_init` from `config_parse` on, nor while the queue is full, then the daemon knows of
every modification. As long as the file is newer than what has been read of it, there is an event
for it in the queue, or `config_parse` is called next, or the daemon stops. -/
theorem change_never_lost (path : List UInt8) (watch : InotifyWatch) (maxQueued : ℕ)
    (events : List ChangeEvent) (s : Watched)
    (hrun : Process.run (Watched.step path watch maxQueued) Watched.start events = some s)
    (hnoticed : Process.Meets (Watched.step path watch maxQueued)
      (fun s e => s.Noticed path watch maxQueued e) Watched.start events)
    (hstale : s.stale = true) : s.Waits path watch ∨ s.loop.OnTheWay := by
  have hs := @Process.run_keeps_of_meets _ _ (Watched.step path watch maxQueued) _
    (fun s => s.Inv ∧ s.Knows path watch)
    (fun s e s' hs hnoticed hstep => ⟨hs.1.step hstep, hs.2.step hs.1 hnoticed hstep⟩) _ _
    ⟨Watched.inv_start, fun h => by cases h⟩ _ hnoticed hrun
  exact hs.2 hstale

/-- An event for the configuration file `/data/fand.conf`, and one for another file there -/
def configModified : InotifyEvent := modification (ascii "fand.conf") (by decide) (by decide)

/-- See `configModified`. -/
def otherModified : InotifyEvent := modification (ascii "log") (by decide) (by decide)

/-- The steps of a start that succeeds -/
def startEvents : List ChangeEvent := List.replicate 5 (.advance true)

/-- A change behind a start that succeeds is waited for. -/
theorem change_never_lost_first_round :
    ∃ s, Process.run (Watched.step (ascii "/data/fand.conf") ⟨3, 1, inModify, false⟩ 16384)
        Watched.start (startEvents ++ [.modify configModified]) = some s ∧ s.stale = true ∧
      (s.Waits (ascii "/data/fand.conf") ⟨3, 1, inModify, false⟩ ∨ s.loop.OnTheWay) := by
  have hstart : Process.run (Watched.step (ascii "/data/fand.conf") ⟨3, 1, inModify, false⟩ 16384)
      Watched.start startEvents =
        some ⟨⟨.testAlive, true, false, false, false, [.parse]⟩, some [], false, 1, 0⟩ := rfl
  have hrun : (Process.run (Watched.step (ascii "/data/fand.conf") ⟨3, 1, inModify, false⟩ 16384)
      Watched.start (startEvents ++ [.modify configModified])).map Watched.stale = some true := by
    decide +kernel
  obtain ⟨s, hs, hstale⟩ := Option.map_eq_some_iff.mp hrun
  refine ⟨s, hs, hstale, change_never_lost _ _ 16384 _ s hs ?_ hstale⟩
  refine (Process.meets_append hstart _).mpr ⟨Process.meets_of_mem (fun e he s => ?_) _, ?_, ?_⟩
  · rw [List.eq_of_mem_replicate he]
    exact trivial
  · exact fun _ => .inr ⟨[], rfl, .inr (by decide)⟩
  · exact fun _ _ => trivial

/-- A modification between `config_parse` and `inotify_add_watch` is not noticed. -/
example :
    Process.run (Watched.step (ascii "/data/fand.conf") ⟨3, 1, inModify, false⟩ 16384)
      Watched.start (List.replicate 3 (.advance true) ++ [.modify configModified] ++
        List.replicate 2 (.advance true)) =
      some ⟨⟨.testAlive, true, false, false, false, [.parse]⟩, some [], true, 1, 0⟩ :=
  rfl

/-! ## How long it takes -/

namespace Watched

/-- After `parses` calls of `config_parse` the file is waiting to be read again. This happens in the
round `limit` at the latest, for which every event in front of `e` counts one. -/
structure Due (parses limit : ℕ) (e : InotifyEvent) (s : Watched) : Prop where
  parses_le : parses ≤ s.parses
  due : parses < s.parses ∨ s.loop.alive = false ∨ s.loop.OnTheWay ∧ s.rounds ≤ limit + 1 ∨
    ∃ front behind, s.queue = some (front ++ e :: behind) ∧ s.rounds + front.length ≤ limit

section Due

variable {path : List UInt8} {watch : InotifyWatch} {maxQueued parses limit : ℕ} {s s' : Watched}
  {e : InotifyEvent}

/-- A round takes the event or one in front of it. -/
theorem Due.read (hinv : s.Inv) (he : ofConfig path watch e = true)
    {front behind : List InotifyEvent}
    (hqueue : s.queue = some (front ++ e :: behind)) (hlimit : s.rounds + front.length ≤ limit)
    (hpc' : s'.loop.pc = .testPending)
    (hevent : s.watchEvent path watch = some (s'.loop.triggered, s'.queue))
    (hrounds : s'.rounds = s.rounds + 1) :
    s'.loop.OnTheWay ∧ s'.rounds ≤ limit + 1 ∨
      ∃ front behind, s'.queue = some (front ++ e :: behind) ∧
        s'.rounds + front.length ≤ limit := by
  have hread : (inotifyRead inotifyBufLength (front ++ e :: behind)).isSome := by
    have hfits := hinv.fits _ hqueue
    rcases front with _ | ⟨first, front⟩
    · exact inotifyRead_isSome (hfits e (List.mem_cons_self ..)) behind
    · exact inotifyRead_isSome (hfits first (List.mem_cons_self ..)) (front ++ e :: behind)
  obtain ⟨⟨taken, left⟩, hread⟩ := Option.isSome_iff_exists.mp hread
  rw [watchEvent_eq, hqueue, Option.bind_some, hread] at hevent
  obtain ⟨htriggered, hleft⟩ := Prod.mk.inj (Option.some.inj hevent)
  obtain ⟨hsplit, htaken⟩ := inotifyRead_some hread
  rw [hrounds]
  rcases List.append_eq_append_iff.mp hsplit with ⟨rest, hfront, hleft'⟩ | ⟨rest, htaken', hrest⟩
  · -- `e` is left, with fewer events in front of it
    refine .inr ⟨rest, behind, by rw [← hleft, hleft'], ?_⟩
    have hpos := List.length_pos_iff.mpr htaken
    rw [hfront, List.length_append] at hlimit
    omega
  · rcases rest with _ | ⟨e', rest⟩
    · -- all in front of `e` has been taken, and `e` is next
      rw [List.nil_append] at hrest
      rw [List.append_nil] at htaken'
      refine .inr ⟨[], behind, by rw [← hleft, ← hrest]; rfl, ?_⟩
      have hpos := List.length_pos_iff.mpr htaken
      rw [htaken'] at hpos
      rw [List.length_nil]
      omega
    · obtain ⟨rfl, -⟩ := List.cons.inj hrest
      refine .inl ⟨?_, by omega⟩
      rw [Loop.OnTheWay, hpc', ← htriggered, htaken']
      exact List.any_eq_true.mpr
        ⟨e, List.mem_append_right _ (List.mem_cons_self ..), he⟩

/-- A move of the loop brings the parse nearer, -/
theorem Due.advance (hinv : s.Inv) (he : ofConfig path watch e = true)
    (hs : s.Due parses limit e) {outcome : Bool}
    (h : s.step path watch maxQueued (.advance outcome) = some s') : s'.Due parses limit e := by
  have halive := alive_step h
  obtain ⟨hle, hdue⟩ := hs
  cases advance_move h with
  | parse _ _ _ hparses => exact ⟨by omega, .inl (by omega)⟩
  | read hpc hpc' hevent _ hparses hrounds =>
    refine ⟨hparses ▸ hle, ?_⟩
    -- a read takes events off the front, so the one waited for moves up or is read
    rcases hdue with hdone | hstopped | ⟨hway, -⟩ | ⟨front, behind, hqueue, hlimit⟩
    · exact .inl (hparses ▸ hdone)
    · exact .inr (.inl (halive hstopped))
    · rw [Loop.OnTheWay, hpc] at hway
      exact hway.elim
    · exact .inr (.inr (Due.read hinv he hqueue hlimit hpc' hevent hrounds))
  | free hway _ hparses hrounds =>
    refine ⟨hparses ▸ hle, ?_⟩
    rw [hparses, hrounds]
    rcases hdue with hdone | hstopped | ⟨-, hlimit⟩ | ⟨front, behind, -, hlimit⟩
    · exact .inl hdone
    · exact .inr (.inl (halive hstopped))
    · exact .inr (.inr (.inl ⟨hway, hlimit⟩))
    · exact .inr (.inr (.inl ⟨hway, by omega⟩))
  | watch hpc hway _ _ _ hparses hrounds =>
    refine ⟨hparses ▸ hle, ?_⟩
    rcases hdue with hdone | hstopped | ⟨hway', -⟩ | ⟨front, behind, hqueue, -⟩
    · exact .inl (hparses ▸ hdone)
    · exact .inr (.inl (halive hstopped))
    · exact absurd hway' hway
    · rw [hinv.closed hpc] at hqueue
      cases hqueue
  | other _ hway hqueue _ hparses hrounds =>
    refine ⟨hparses ▸ hle, ?_⟩
    rw [hparses, hrounds, hqueue]
    rcases hdue with hdone | hstopped | ⟨hway', hlimit⟩ | hwaits
    · exact .inl hdone
    · exact .inr (.inl (halive hstopped))
    · rcases hway hway' with hway'' | hstopped
      · exact .inr (.inr (.inl ⟨hway'', hlimit⟩))
      · exact .inr (.inl hstopped)
    · exact .inr (.inr (.inr hwaits))

/-- and an event from outside does not put it off. -/
theorem Due.step (hinv : s.Inv) (he : ofConfig path watch e = true) (hs : s.Due parses limit e)
    {event : ChangeEvent} (h : s.step path watch maxQueued event = some s') :
    s'.Due parses limit e := by
  cases event with
  | advance outcome => exact hs.advance hinv he h
  | signal signal =>
    have halive := alive_step h
    have hway := @onTheWay_signal path watch maxQueued s s' signal h
    obtain ⟨loop, -, rfl⟩ := Option.map_eq_some_iff.mp h
    refine ⟨hs.parses_le, ?_⟩
    rcases hs.due with hdone | hstopped | ⟨hway', hlimit⟩ | hwaits
    · exact .inl hdone
    · exact .inr (.inl (halive hstopped))
    · exact .inr (.inr (.inl ⟨hway hway', hlimit⟩))
    · exact .inr (.inr (.inr hwaits))
  | modify other =>
    simp only [Watched.step] at h
    split_ifs at h
    cases h
    refine ⟨hs.parses_le, ?_⟩
    rcases hs.due with hdone | hstopped | hway | ⟨front, behind, hqueue, hlimit⟩
    · exact .inl hdone
    · exact .inr (.inl hstopped)
    · exact .inr (.inr (.inl hway))
    · refine .inr (.inr (.inr ?_))
      dsimp only
      rw [hqueue, Option.map_some]
      rcases enqueue_cases maxQueued (front ++ e :: behind) other with hsame | happend
      · exact ⟨front, behind, congrArg some hsame, hlimit⟩
      · refine ⟨front, behind ++ [other], ?_, hlimit⟩
        rw [happend, List.append_assoc, List.cons_append]

end Due

end Watched

/-- **A change is answered.** An event for the configuration file that has `n` events in front of it
leads to a call of `config_parse` before `fsys_watch_event` has been called `n + 2` times, unless
the daemon stops: each round takes at least one of them, and those that come later are behind it. -/
theorem change_answered (path : List UInt8) (watch : InotifyWatch) (maxQueued : ℕ)
    (past events : List ChangeEvent) (s s' : Watched)
    (hpast : Process.run (Watched.step path watch maxQueued) Watched.start past = some s)
    (hrun : Process.run (Watched.step path watch maxQueued) s events = some s')
    (front behind : List InotifyEvent) (e : InotifyEvent)
    (hqueue : s.queue = some (front ++ e :: behind))
    (he : Watched.ofConfig path watch e = true)
    (hrounds : s.rounds + front.length + 2 ≤ s'.rounds) :
    s.parses < s'.parses ∨ s'.loop.alive = false := by
  have hinv := Process.run_keeps (fun s e s' (hs : s.Inv) hstep => Watched.Inv.step hs hstep)
    Watched.inv_start hpast
  obtain ⟨-, -, hdue⟩ := @Process.run_keeps _ _ (Watched.step path watch maxQueued)
    (fun s₁ => s₁.Inv ∧ s₁.Due s.parses (s.rounds + front.length) e)
    (fun s₁ e s₂ hs hstep => ⟨hs.1.step hstep, hs.2.step hs.1 he hstep⟩) _ _
    ⟨hinv, le_refl _, .inr (.inr (.inr ⟨front, behind, hqueue, le_refl _⟩))⟩ _ hrun
  rcases hdue with hdone | hstopped | ⟨-, hlimit⟩ | ⟨front', behind', -, hlimit⟩
  · exact .inl hdone
  · exact .inr hstopped
  · omega
  · omega

/-- Two events are queued, and the program goes through three rounds. -/
theorem change_answered_three_rounds :
    ∃ s s', Process.run (Watched.step (ascii "/data/fand.conf") ⟨3, 1, inModify, false⟩ 16384)
        Watched.start (startEvents ++ [.modify otherModified, .modify configModified]) = some s ∧
      Process.run (Watched.step (ascii "/data/fand.conf") ⟨3, 1, inModify, false⟩ 16384) s
        (List.replicate 25 (.advance true)) = some s' ∧
      (s.parses < s'.parses ∨ s'.loop.alive = false) := by
  have hpast : (Process.run
      (Watched.step (ascii "/data/fand.conf") ⟨3, 1, inModify, false⟩ 16384) Watched.start
      (startEvents ++ [.modify otherModified, .modify configModified])).map Watched.queue =
        some (some [otherModified, configModified]) := rfl
  obtain ⟨s, hs, hqueue⟩ := Option.map_eq_some_iff.mp hpast
  have hrounds : ((Process.run
      (Watched.step (ascii "/data/fand.conf") ⟨3, 1, inModify, false⟩ 16384) Watched.start
      (startEvents ++ [.modify otherModified, .modify configModified])).bind fun s =>
      (Process.run (Watched.step (ascii "/data/fand.conf") ⟨3, 1, inModify, false⟩ 16384) s
        (List.replicate 25 (.advance true))).map fun s' => (s.rounds, s'.rounds)) =
          some (0, 3) := by decide +kernel
  rw [hs, Option.bind_some] at hrounds
  obtain ⟨s', hs', hpair⟩ := Option.map_eq_some_iff.mp hrounds
  obtain ⟨hrounds, hrounds'⟩ := Prod.mk.inj hpair
  refine ⟨s, s', hs, hs', change_answered _ _ 16384 _ _ s s' hs hs' [otherModified] []
    configModified hqueue (by decide +kernel) ?_⟩
  rw [hrounds, hrounds']
  decide

end AmdgpuFand
