import AmdgpuFand.Running
import Mathlib.Logic.Function.Basic

/-!
# The service

The daemon, the clients that connect to it, and the children that it forks for them. A child has a
copy of the memory that the daemon had at the fork, serves one client and exits; the daemon collects
it in the handler of `SIGCHLD`, which may interrupt the program anywhere. Clients connect, write and
hang up whenever they like, children are scheduled freely and may be killed, and after a restart
with the option `fork` the children are those of a process that has gone.

In every state of this machine the daemon is one that `Daemon.step` can reach without the rest
(`Service.run_daemon`), so what is true of its runs is true here. `one_answer` says what a client
gets, `only_root_stops` who may stop the daemon.
-/

namespace AmdgpuFand

open Rounding

/-! ## The parties -/

/-- A connection, as the client sees it -/
structure Client where
  uid : UInt32
  /-- what it has written and the server has not read -/
  written : List UInt8
  hungUp : Bool
  /-- what the server has read -/
  asked : List UInt8
  /-- what the server has sent -/
  received : List UInt8
  deriving DecidableEq

/-- A child of the daemon -/
structure Child where
  /-- the connection that it serves -/
  client : ℕ
  /-- the daemon at the fork -/
  memory : Daemon
  /-- the argument of `exit`, once `server_recv_and_respond` has returned -/
  code : Option ℤ

/-- The daemon with its clients and its children, which are numbered -/
structure Service where
  daemon : Daemon
  /-- the children that can be collected, and the handler -/
  sigchld : Sigchld
  clients : ℕ → Option Client
  /-- the connections that have not been accepted, the first one first -/
  backlog : List ℕ
  children : ℕ → Option Child

/-- What comes of `poll`, `accept` and `fork` in `server_poll` -/
inductive Polled
  | failed
  | timeout
  | acceptFailed
  | forkFailed
  | forked (pid : ℕ)
  deriving DecidableEq

/-- What the calls of a child come to -/
structure Outcome where
  recvFailed : Bool
  /-- the error number of `getsockopt`, if it fails -/
  noCredentials : Option (BitVec 32)
  /-- `fanctrl_get_speed` -/
  speed : BitVec 32
  /-- `fanctrl_get_temp` -/
  temp : BitVec 32
  sendFailed : Bool
  /-- what is in the buffer on the stack -/
  buffer : Vector UInt8 ipcMaxMsgLength
  errno_ne : noCredentials ≠ some 0

inductive ServiceEvent
  /-- what the daemon does by itself, and the signals other than `SIGCHLD` -/
  | daemon (e : DaemonEvent)
  | poll (polled : Polled)
  /-- `SIGCHLD` is delivered, with what is in `status` -/
  | deliver (garbage : ℤ)
  /-- `waitpid` collects a child -/
  | reap (pid : ℕ)
  /-- `waitpid` finds no child to collect, and the handler tests the status -/
  | leave
  | connect (client : ℕ) (uid : UInt32)
  | write (client : ℕ) (byte : UInt8)
  | hangUp (client : ℕ)
  /-- a child runs `server_recv_and_respond` -/
  | respond (pid : ℕ) (o : Outcome)
  /-- a child exits, or is killed by a signal -/
  | terminate (pid : ℕ) (killed : Option (Fin 126 × Bool))

/-! ## Steps -/

/-- `recv` in a child. It waits for a byte, or for the client to hang up. -/
def Client.recv (client : Client) (o : Outcome) : Option Recv :=
  if o.recvFailed then some .failed
  else
    match client.written with
    | byte :: _ => some (.request byte)
    | [] => if client.hungUp then some .closed else none

/-- A client sends a byte. -/
def Client.write (client : Client) (byte : UInt8) : Client :=
  { client with written := client.written ++ [byte] }

/-- A client closes its end. -/
def Client.hangUp (client : Client) : Client :=
  { client with hungUp := true }

/-- The calls of `server_recv_and_respond` for a client. Nothing can be sent to one that has hung
up. -/
def Client.calls (client : Client) (o : Outcome) (recv : Recv) : ServerCalls where
  recv
  peercred :=
    match o.noCredentials with
    | some number => .error number
    | none => .ok client.uid
  speed := o.speed
  temp := o.temp
  sent := !o.sendFailed && !client.hungUp

/-- The client after it has been served. The byte that `recv` returns has been read. -/
def Client.served (client : Client) (calls : ServerCalls) (reply : Reply) : Client :=
  let client :=
    match calls.recv with
    | .request byte =>
      { client with written := client.written.drop 1, asked := client.asked ++ [byte] }
    | _ => client
  if calls.sent then { client with received := client.received ++ reply.bytes } else client

namespace Client

variable (client : Client) (calls : ServerCalls) (reply : Reply)

theorem uid_served : (client.served calls reply).uid = client.uid := by
  rw [served]
  cases calls.recv <;> split_ifs <;> rfl

/-- The byte that a `recv` has read -/
def readBy : Recv → List UInt8
  | .request byte => [byte]
  | _ => []

theorem asked_served : (client.served calls reply).asked = client.asked ++ readBy calls.recv := by
  rw [served]
  cases calls.recv with
  | failed | closed =>
    rw [readBy, List.append_nil]
    · split_ifs <;> rfl
    · rintro byte ⟨⟩
  | request byte => split_ifs <;> rfl

theorem received_served : (client.served calls reply).received =
    client.received ++ if calls.sent then reply.bytes else [] := by
  rw [served]
  by_cases hsent : calls.sent = true
  · rw [if_pos hsent, if_pos hsent]
    cases calls.recv <;> rfl
  · rw [if_neg hsent, if_neg hsent, List.append_nil]
    cases calls.recv <;> rfl

/-- The credentials are those of the client, or there is an error. -/
theorem peercred_calls (o : Outcome) (recv : Recv) :
    (client.calls o recv).peercred ≠ .error 0 ∧
      ∀ uid, (client.calls o recv).peercred = .ok uid → uid = client.uid := by
  have hne := o.errno_ne
  simp only [calls]
  cases hnone : o.noCredentials with
  | none =>
    refine ⟨?_, fun uid hcred => (Except.ok.inj hcred).symm⟩
    rintro ⟨⟩
  | some number =>
    rw [hnone] at hne
    refine ⟨fun hcred => hne (congrArg some (Except.error.inj hcred)), ?_⟩
    rintro uid ⟨⟩

end Client

/-- `exit` -/
def exitTermination (code : ℤ) : Termination :=
  .exited ⟨(code % 256).toNat, by omega⟩

/-- How a child terminates: it is killed, or it exits once it has served its client. -/
def Child.termination (child : Child) : Option (Fin 126 × Bool) → Option Termination
  | some (signal, core) => some (.killed signal core)
  | none => child.code.map exitTermination

namespace Service

variable (F : FloatFormat) (s : Service)

/-- The beginning of `daemon_main` -/
def start (fork drmSupport : Bool) (boot : Boot) : Service :=
  ⟨.start fork drmSupport boot, .start, fun _ => none, [], fun _ => none⟩

/-- The handlers have been set, and the process is there. -/
def running : Bool :=
  s.daemon.place ≠ .start && s.daemon.place ≠ .returned

/-- The events of the daemon that are not events of the service in their own right -/
def ofDaemon : DaemonEvent → Bool
  | .signal (.sigchld _) | .poll => false
  | _ => true

/-- A signal may interrupt the handler, the program has to wait for it. -/
def admits : DaemonEvent → Bool
  | .signal _ => true
  | _ => s.sigchld.handler.isNone

/-- `daemon_restart` is called, in the process that goes on. -/
def restarts : DaemonEvent → Option Env
  | .pendingSignals env => if s.daemon.sigpipeCaught then some (s.daemon.env env) else none
  | _ => none

/-- `server_kill` closes the socket, and who has not been accepted is turned away. -/
def backlogAfter : DaemonEvent → List ℕ
  | .free _ => []
  | e => if (s.restarts e).isSome then [] else s.backlog

/-- A process that has been forked has no children. -/
def sigchldAfter (e : DaemonEvent) : Sigchld :=
  if (s.restarts e).any Env.forks then { s.sigchld with children := [], zombies := [] }
  else s.sigchld

/-- The daemon takes a step by itself. -/
def stepDaemon (e : DaemonEvent) : Option Service :=
  if ofDaemon e && s.admits e then
    (s.daemon.step F e).map fun daemon =>
      { s with daemon, backlog := s.backlogAfter e, sigchld := s.sigchldAfter e }
  else none

/-- `server_poll` in the daemon. The client that has waited longest is accepted. -/
def serverPoll (polled : Polled) : Option Service :=
  if s.sigchld.handler.isSome then none
  else do
    let daemon ← s.daemon.step F .poll
    match polled with
    | .failed | .timeout | .acceptFailed => some { s with daemon }
    | .forkFailed =>
      match s.backlog with
      | [] => none
      | _ :: backlog => some { s with daemon, backlog }
    | .forked pid =>
      match s.backlog with
      | [] => none
      | client :: backlog =>
        if (s.children pid).isSome || (s.sigchld.zombies.lookup pid).isSome then none
        else do
          let sigchld ← s.sigchld.step (.fork pid)
          some { s with
            daemon
            sigchld
            backlog
            children := Function.update s.children pid (some ⟨client, s.daemon, none⟩) }

/-- The handler of `SIGCHLD` is entered. -/
def deliver (garbage : ℤ) : Option Service :=
  if s.running then
    (s.sigchld.step (.deliver garbage)).map fun sigchld => { s with sigchld }
  else none

/-- The status in the handler is that of a child which asks the daemon to exit. -/
def serverExit : Bool :=
  s.sigchld.handler.any fun h => wexitstatus h.status = fandServerExit

/-- The handler of `SIGCHLD` returns. -/
def leave : Option Service := do
  let sigchld ← s.sigchld.step .leave
  let daemon ← s.daemon.step F (.signal (.sigchld s.serverExit))
  some { s with daemon, sigchld }

/-- A client connects. -/
def connect (client : ℕ) (uid : UInt32) : Option Service :=
  if s.running && (s.clients client).isNone then
    some { s with
      clients := Function.update s.clients client (some ⟨uid, [], false, [], []⟩)
      backlog := s.backlog ++ [client] }
  else none

/-- A client that has not hung up does something with its end of the connection. -/
def setClient (client : ℕ) (f : Client → Client) : Option Service := do
  let c ← s.clients client
  if c.hungUp then none
  else some { s with clients := Function.update s.clients client (some (f c)) }

/-- A child runs `server_recv_and_respond`. There is no such step where the behaviour of that is
undefined. -/
def respond (pid : ℕ) (o : Outcome) : Option Service := do
  let child ← s.children pid
  let client ← s.clients child.client
  if child.code.isSome then none
  else do
    let recv ← client.recv o
    let calls := client.calls o recv
    let reply ← serverRecvAndRespond calls child.memory.world.data o.buffer
    some { s with
      clients := Function.update s.clients child.client (some (client.served calls reply))
      children := Function.update s.children pid (some { child with code := some reply.code }) }

/-- A child terminates. If its parent is there, it is to be collected. -/
def terminate (pid : ℕ) (killed : Option (Fin 126 × Bool)) : Option Service := do
  let child ← s.children pid
  let t ← child.termination killed
  some { s with
    children := Function.update s.children pid none
    sigchld := (s.sigchld.step (.terminate pid t)).getD s.sigchld }

def step : ServiceEvent → Option Service
  | .daemon e => s.stepDaemon F e
  | .poll polled => s.serverPoll F polled
  | .deliver garbage => s.deliver garbage
  | .reap pid => (s.sigchld.step (.reap pid)).map fun sigchld => { s with sigchld }
  | .leave => s.leave F
  | .connect client uid => s.connect client uid
  | .write client byte => s.setClient client fun c => c.write byte
  | .hangUp client => s.setClient client Client.hangUp
  | .respond pid o => s.respond pid o
  | .terminate pid killed => s.terminate pid killed

/-! ## What a step does to the clients -/

/-- The connections after a step, and who serves them -/
inductive Effect (s s' : Service) (e : ServiceEvent) : Prop
  | quiet (hclients : s'.clients = s.clients) (hchildren : s'.children = s.children)
      (hbacklog : s'.backlog <:+ s.backlog)
  | accepted (pid client : ℕ) (hevent : e = .poll (.forked pid)) (hpid : s.children pid = none)
      (hbacklog : s.backlog = client :: s'.backlog) (hclients : s'.clients = s.clients)
      (hchildren : s'.children = Function.update s.children pid (some ⟨client, s.daemon, none⟩))
  | connected (client : ℕ) (uid : UInt32) (hnew : s.clients client = none)
      (hclients : s'.clients = Function.update s.clients client (some ⟨uid, [], false, [], []⟩))
      (hchildren : s'.children = s.children) (hbacklog : s'.backlog = s.backlog ++ [client])
  | changed (client : ℕ) (c c' : Client) (hclient : s.clients client = some c)
      (huid : c'.uid = c.uid) (hasked : c'.asked = c.asked) (hreceived : c'.received = c.received)
      (hclients : s'.clients = Function.update s.clients client (some c'))
      (hchildren : s'.children = s.children) (hbacklog : s'.backlog = s.backlog)
  | responded (pid : ℕ) (child : Child) (client : Client) (o : Outcome) (recv : Recv)
      (reply : Reply) (hchild : s.children pid = some child)
      (hclient : s.clients child.client = some client) (hcode : child.code = none)
      (hrecv : client.recv o = some recv)
      (hreply : serverRecvAndRespond (client.calls o recv) child.memory.world.data o.buffer =
        some reply)
      (hclients : s'.clients = Function.update s.clients child.client
        (some (client.served (client.calls o recv) reply)))
      (hchildren : s'.children = Function.update s.children pid
        (some { child with code := some reply.code }))
      (hbacklog : s'.backlog = s.backlog)
  | terminated (pid : ℕ) (hclients : s'.clients = s.clients)
      (hchildren : s'.children = Function.update s.children pid none)
      (hbacklog : s'.backlog = s.backlog)

section Effect

variable {F s} {s' : Service}

/-- The daemon by itself can do no more to a client than turn it away before it has been
accepted. -/
theorem effect_stepDaemon {e : DaemonEvent} (h : s.stepDaemon F e = some s') :
    s.Effect s' (.daemon e) := by
  rw [stepDaemon] at h
  split_ifs at h
  obtain ⟨daemon, -, rfl⟩ := Option.map_eq_some_iff.mp h
  refine .quiet rfl rfl ?_
  cases e with
  | free env => exact List.nil_suffix
  | _ =>
    dsimp only [backlogAfter]
    split
    · exact List.nil_suffix
    · exact List.suffix_refl _

/-- The client that is accepted is the first one of the backlog, and the new child serves it. -/
theorem serverPoll_forked {pid : ℕ} (h : s.serverPoll F (.forked pid) = some s') :
    ∃ client, s.children pid = none ∧ s.backlog = client :: s'.backlog ∧
      s'.clients = s.clients ∧
      s'.children = Function.update s.children pid (some ⟨client, s.daemon, none⟩) := by
  rw [serverPoll] at h
  split_ifs at h
  obtain ⟨daemon, -, h⟩ := Option.bind_eq_some_iff.mp h
  rcases hbacklog : s.backlog with _ | ⟨client, backlog⟩
  · rw [hbacklog] at h
    cases h
  · rw [hbacklog] at h
    dsimp only at h
    split_ifs at h with hused
    obtain ⟨sigchld, -, h⟩ := Option.bind_eq_some_iff.mp h
    cases h
    rw [Bool.or_eq_true, not_or] at hused
    exact ⟨client, Option.not_isSome_iff_eq_none.mp hused.1, rfl, rfl, rfl⟩

/-- `server_poll` takes the first client off the backlog, and a child serves it, or nobody does. -/
theorem effect_serverPoll {polled : Polled} (h : s.serverPoll F polled = some s') :
    s.Effect s' (.poll polled) := by
  cases polled with
  | failed | timeout | acceptFailed =>
    rw [serverPoll] at h
    split_ifs at h
    obtain ⟨daemon, -, h⟩ := Option.bind_eq_some_iff.mp h
    cases h
    exact .quiet rfl rfl (List.suffix_refl _)
  | forkFailed =>
    rw [serverPoll] at h
    split_ifs at h
    obtain ⟨daemon, -, h⟩ := Option.bind_eq_some_iff.mp h
    rcases hbacklog : s.backlog with _ | ⟨client, backlog⟩
    · rw [hbacklog] at h
      cases h
    · rw [hbacklog] at h
      cases h
      exact .quiet rfl rfl (hbacklog ▸ List.suffix_cons client backlog)
  | forked pid =>
    obtain ⟨client, hpid, hbacklog, hclients, hchildren⟩ := serverPoll_forked h
    exact .accepted pid client rfl hpid hbacklog hclients hchildren

/-- A client does nothing to what has been read from it or sent to it. -/
theorem effect_setClient {e : ServiceEvent} {client : ℕ} {f : Client → Client}
    (huid : ∀ c, (f c).uid = c.uid) (hasked : ∀ c, (f c).asked = c.asked)
    (hreceived : ∀ c, (f c).received = c.received) (h : s.setClient client f = some s') :
    s.Effect s' e := by
  rw [setClient] at h
  obtain ⟨c, hclient, h⟩ := Option.bind_eq_some_iff.mp h
  split_ifs at h
  cases h
  exact .changed client c (f c) hclient (huid c) (hasked c) (hreceived c) rfl rfl rfl

/-- A child serves its client by the memory that it has. -/
theorem effect_respond {pid : ℕ} {o : Outcome} (h : s.respond pid o = some s') :
    s.Effect s' (.respond pid o) := by
  rw [respond] at h
  obtain ⟨child, hchild, h⟩ := Option.bind_eq_some_iff.mp h
  obtain ⟨client, hclient, h⟩ := Option.bind_eq_some_iff.mp h
  split_ifs at h with hcode
  obtain ⟨recv, hrecv, h⟩ := Option.bind_eq_some_iff.mp h
  obtain ⟨reply, hreply, h⟩ := Option.bind_eq_some_iff.mp h
  cases h
  exact .responded pid child client o recv reply hchild hclient
    (Option.not_isSome_iff_eq_none.mp hcode) hrecv hreply rfl rfl rfl

/-- What a step can do to the clients, by cases of the event. -/
theorem step_effect {e : ServiceEvent} (h : s.step F e = some s') : s.Effect s' e := by
  cases e with
  | daemon e => exact effect_stepDaemon h
  | poll polled => exact effect_serverPoll h
  | deliver garbage =>
    simp only [step, deliver] at h
    split_ifs at h
    obtain ⟨sigchld, -, rfl⟩ := Option.map_eq_some_iff.mp h
    exact .quiet rfl rfl (List.suffix_refl _)
  | reap pid =>
    obtain ⟨sigchld, -, rfl⟩ := Option.map_eq_some_iff.mp h
    exact .quiet rfl rfl (List.suffix_refl _)
  | leave =>
    obtain ⟨sigchld, -, h⟩ := Option.bind_eq_some_iff.mp h
    obtain ⟨daemon, -, h⟩ := Option.bind_eq_some_iff.mp h
    cases h
    exact .quiet rfl rfl (List.suffix_refl _)
  | connect client uid =>
    simp only [step, connect] at h
    split_ifs at h with hnew
    cases h
    rw [Bool.and_eq_true] at hnew
    exact .connected client uid (Option.isNone_iff_eq_none.mp hnew.2) rfl rfl rfl
  | write client byte =>
    exact @effect_setClient s s' _ client (fun c => c.write byte) (fun _ => rfl) (fun _ => rfl)
      (fun _ => rfl) h
  | hangUp client =>
    exact @effect_setClient s s' _ client Client.hangUp (fun _ => rfl) (fun _ => rfl)
      (fun _ => rfl) h
  | respond pid o => exact effect_respond h
  | terminate pid killed =>
    obtain ⟨child, -, h⟩ := Option.bind_eq_some_iff.mp h
    obtain ⟨t, -, h⟩ := Option.bind_eq_some_iff.mp h
    cases h
    exact .terminated pid rfl rfl rfl

end Effect

/-! ## One answer to each client -/

section Runs

variable {F} {fork drmSupport : Bool} {boot : Boot} {events : List ServiceEvent}

end Runs

/-- In a run the client was accepted behind the events `before`, with a child forked for it, and
this was the daemon then. -/
def Accepting (first : Service) (past before : List ServiceEvent) (id : ℕ) (d : Daemon) : Prop :=
  ∃ pid after s₀, past = before ++ .poll (.forked pid) :: after ∧
    Process.run (step F) first before = some s₀ ∧ s₀.backlog.head? = some id ∧ s₀.daemon = d

end Service

/-- Nothing has been read from the client, and nothing has been sent to it. -/
def Client.Untouched (client : Client) : Prop :=
  client.asked = [] ∧ client.received = []

/-- One byte has been read, and if anything has been sent, then it is the answer, by the
configuration that the daemon had when it accepted this client. -/
def Client.Answered (F : FloatFormat) (first : Service) (past : List ServiceEvent) (id : ℕ)
    (client : Client) : Prop :=
  ∃ request cred speed temp before d, client.asked = [request] ∧
    Service.Accepting F first past before id d ∧
    (∀ uid, cred = .ok uid → uid = client.uid) ∧
    (client.received = [] ∨
      client.received = (Answer.given request cred d.world.data speed temp).message)

namespace Service

/-- Every client is waiting, or served by one child, or has been served. -/
structure Inv (F : FloatFormat) (first : Service) (past : List ServiceEvent) (s : Service) :
    Prop where
  waiting : ∀ id ∈ s.backlog, ∃ client, s.clients id = some client ∧ client.Untouched
  nodup : s.backlog.Nodup
  memory : ∀ pid child, s.children pid = some child →
    ∃ before, Accepting F first past before child.client child.memory
  serving : ∀ pid child, s.children pid = some child →
    ∃ client, s.clients child.client = some client ∧ (child.code = none → client.Untouched)
  apart : ∀ pid child, s.children pid = some child → child.client ∉ s.backlog
  inj : ∀ pid pid' child child', s.children pid = some child → s.children pid' = some child' →
    child.client = child'.client → pid = pid'
  answered : ∀ id client, s.clients id = some client →
    client.Untouched ∨ client.Answered F first past id

section Inv

variable {F : FloatFormat} {s s' first : Service} {past : List ServiceEvent} {e : ServiceEvent}
  {id : ℕ}

/-- The acceptance remains in the past. -/
theorem Accepting.append {before : List ServiceEvent} {d : Daemon}
    (h : Accepting F first past before id d) (e : ServiceEvent) :
    Accepting F first (past ++ [e]) before id d := by
  obtain ⟨pid, after, s₀, rfl, hrest⟩ := h
  exact ⟨pid, after ++ [e], s₀, by rw [List.append_assoc, List.cons_append], hrest⟩

theorem answered_append {client : Client}
    (h : client.Untouched ∨ client.Answered F first past id) (e : ServiceEvent) :
    client.Untouched ∨ client.Answered F first (past ++ [e]) id := by
  refine h.imp_right ?_
  rintro ⟨request, cred, speed, temp, before, d, hasked, hd, hrest⟩
  exact ⟨request, cred, speed, temp, before, d, hasked, hd.append e, hrest⟩

/-- What a client does by itself changes nothing about this. -/
theorem answered_congr {c c' : Client} (huid : c'.uid = c.uid) (hasked : c'.asked = c.asked)
    (hreceived : c'.received = c.received) (h : c.Untouched ∨ c.Answered F first past id) :
    c'.Untouched ∨ c'.Answered F first past id := by
  rwa [Client.Untouched, Client.Answered, huid, hasked, hreceived]

/-- At the beginning there are no clients. -/
theorem inv_start (F : FloatFormat) (fork drmSupport : Bool) (boot : Boot) (first : Service) :
    Inv F first [] (start fork drmSupport boot) := by
  refine ⟨?_, List.nodup_nil, ?_, ?_, ?_, ?_, ?_⟩ <;> simp [start]

/-- Without a request nothing is sent. -/
theorem bytes_of_not_request {calls : ServerCalls} {config : FandConfig}
    {buffer : Vector UInt8 ipcMaxMsgLength} {reply : Reply}
    (hrecv : ∀ request, calls.recv ≠ .request request)
    (hreply : serverRecvAndRespond calls config buffer = some reply) : reply.bytes = [] := by
  rw [serverRecvAndRespond] at hreply
  cases hcalls : calls.recv with
  | failed | closed =>
    rw [hcalls] at hreply
    cases hreply
    rfl
  | request request => exact absurd hcalls (hrecv request)

/-- A client that nothing has been read from is served. -/
theorem served_answered {client : Client} {o : Outcome} {recv : Recv} {reply : Reply}
    {before : List ServiceEvent} {d : Daemon}
    (huntouched : client.Untouched) (hd : Accepting F first past before id d)
    (hreply : serverRecvAndRespond (client.calls o recv) d.world.data o.buffer = some reply) :
    (client.served (client.calls o recv) reply).Untouched ∨
      (client.served (client.calls o recv) reply).Answered F first past id := by
  obtain ⟨hasked, hreceived⟩ := huntouched
  have hreceived' := client.received_served (client.calls o recv) reply
  rw [hreceived, List.nil_append] at hreceived'
  cases recv with
  | failed | closed =>
    have hbytes : reply.bytes = [] := by
      refine bytes_of_not_request (fun request => ?_) hreply
      rintro ⟨⟩
    rw [hbytes, ite_self] at hreceived'
    refine .inl ⟨?_, hreceived'⟩
    rw [Client.asked_served, hasked]
    rfl
  | request byte =>
    obtain ⟨hcred, huid⟩ := client.peercred_calls o (.request byte)
    refine .inr ⟨byte, (client.calls o (.request byte)).peercred, o.speed, o.temp, before, d, ?_,
      hd, ?_, ?_⟩
    · rw [Client.asked_served, hasked]
      rfl
    · rw [Client.uid_served]
      exact huid
    · rw [hreceived']
      split_ifs
      · exact serverRecvAndRespond_sends rfl hcred hreply
      · exact .inl rfl

/-- What the clients have is kept where the clients and the children stay as they are. -/
theorem Inv.quiet (hs : Inv F first past s) (hclients : s'.clients = s.clients)
    (hchildren : s'.children = s.children) (hbacklog : s'.backlog <:+ s.backlog) :
    Inv F first (past ++ [e]) s' := by
  refine ⟨?_, hs.nodup.sublist hbacklog.sublist, ?_, ?_, ?_, ?_, ?_⟩
  · rw [hclients]
    exact fun id hid => hs.waiting id (hbacklog.subset hid)
  · rw [hchildren]
    exact fun pid child hchild => (hs.memory pid child hchild).imp fun _ h => h.append e
  · rw [hclients, hchildren]
    exact hs.serving
  · rw [hchildren]
    exact fun pid child hchild hmem => hs.apart pid child hchild (hbacklog.subset hmem)
  · rw [hchildren]
    exact hs.inj
  · rw [hclients]
    exact fun id client hclient => answered_append (hs.answered id client hclient) e

/-- The new child serves a client that nothing has been read from and that no other child serves. -/
theorem Inv.accepted (hs : Inv F first past s) {pid client : ℕ}
    (hrun : Process.run (step F) first past = some s) (hevent : e = .poll (.forked pid))
    (hbacklog : s.backlog = client :: s'.backlog) (hclients : s'.clients = s.clients)
    (hchildren : s'.children = Function.update s.children pid (some ⟨client, s.daemon, none⟩)) :
    Inv F first (past ++ [e]) s' := by
  have hmem : client ∈ s.backlog := hbacklog ▸ List.mem_cons_self ..
  have htail : ∀ id ∈ s'.backlog, id ∈ s.backlog := fun id hid => by
    rw [hbacklog]
    exact List.mem_cons_of_mem _ hid
  have hnodup := hs.nodup
  rw [hbacklog, List.nodup_cons] at hnodup
  -- a child is the new one, or it was there before
  have hcases : ∀ k child, s'.children k = some child →
      k = pid ∧ child = ⟨client, s.daemon, none⟩ ∨ k ≠ pid ∧ s.children k = some child := by
    intro k child hk
    rw [hchildren, Function.update_apply] at hk
    split_ifs at hk with hkpid
    · exact .inl ⟨hkpid, (Option.some.inj hk).symm⟩
    · exact .inr ⟨hkpid, hk⟩
  refine ⟨?_, hnodup.2, ?_, ?_, ?_, ?_, ?_⟩
  · rw [hclients]
    exact fun id hid => hs.waiting id (htail id hid)
  · intro k child hk
    rcases hcases k child hk with ⟨-, rfl⟩ | ⟨-, hold⟩
    · exact ⟨past, pid, [], s, by rw [hevent], hrun, by rw [hbacklog]; rfl, rfl⟩
    · exact (hs.memory k child hold).imp fun _ h => h.append e
  · intro k child hk
    rw [hclients]
    rcases hcases k child hk with ⟨-, rfl⟩ | ⟨-, hold⟩
    · obtain ⟨c, hc, huntouched⟩ := hs.waiting client hmem
      exact ⟨c, hc, fun _ => huntouched⟩
    · exact hs.serving k child hold
  · intro k child hk hin
    rcases hcases k child hk with ⟨-, rfl⟩ | ⟨-, hold⟩
    · exact hnodup.1 hin
    · exact hs.apart k child hold (htail _ hin)
  · intro k k' child child' hk hk' hsame
    rcases hcases k child hk with ⟨rfl, rfl⟩ | ⟨-, hold⟩ <;>
      rcases hcases k' child' hk' with ⟨rfl, rfl⟩ | ⟨-, hold'⟩
    · rfl
    · exact absurd (hsame ▸ hmem) (hs.apart k' child' hold')
    · exact absurd (hsame.symm ▸ hmem) (hs.apart k child hold)
    · exact hs.inj k k' child child' hold hold' hsame
  · rw [hclients]
    exact fun id c hc => answered_append (hs.answered id c hc) e

/-- A new client is behind the others. -/
theorem Inv.connected (hs : Inv F first past s) {client : ℕ} {uid : UInt32}
    (hnew : s.clients client = none)
    (hclients : s'.clients = Function.update s.clients client (some ⟨uid, [], false, [], []⟩))
    (hchildren : s'.children = s.children) (hbacklog : s'.backlog = s.backlog ++ [client]) :
    Inv F first (past ++ [e]) s' := by
  have hself : s'.clients client = some ⟨uid, [], false, [], []⟩ := by
    rw [hclients, Function.update_self]
  have hother : ∀ id, (s.clients id).isSome → s'.clients id = s.clients id := by
    intro id hid
    rw [hclients, Function.update_of_ne]
    rintro rfl
    rw [hnew] at hid
    cases hid
  -- the client is new: it does not wait yet, and no child serves it
  have hnot : client ∉ s.backlog := by
    intro hmem
    obtain ⟨c, hc, -⟩ := hs.waiting client hmem
    rw [hnew] at hc
    cases hc
  refine ⟨?_, ?_, ?_, ?_, ?_, ?_, ?_⟩
  · intro id hid
    rw [hbacklog, List.mem_append, List.mem_singleton] at hid
    rcases hid with hid | rfl
    · obtain ⟨c, hc, huntouched⟩ := hs.waiting id hid
      exact ⟨c, by rw [hother id (hc ▸ rfl), hc], huntouched⟩
    · exact ⟨_, hself, rfl, rfl⟩
  · rw [hbacklog]
    exact List.nodup_append.mpr ⟨hs.nodup, List.nodup_singleton _, fun a ha b hb hab =>
      hnot (List.mem_singleton.mp hb ▸ hab ▸ ha)⟩
  · rw [hchildren]
    exact fun pid child hchild => (hs.memory pid child hchild).imp fun _ h => h.append e
  · intro pid child hchild
    rw [hchildren] at hchild
    obtain ⟨c, hc, huntouched⟩ := hs.serving pid child hchild
    exact ⟨c, by rw [hother child.client (hc ▸ rfl), hc], huntouched⟩
  · intro pid child hchild hmem
    rw [hchildren] at hchild
    rw [hbacklog, List.mem_append, List.mem_singleton] at hmem
    rcases hmem with hmem | hmem
    · exact hs.apart pid child hchild hmem
    · obtain ⟨c, hc, -⟩ := hs.serving pid child hchild
      rw [hmem, hnew] at hc
      cases hc
  · rw [hchildren]
    exact hs.inj
  · intro id c hc
    rw [hclients, Function.update_apply] at hc
    split_ifs at hc
    · cases hc
      exact .inl ⟨rfl, rfl⟩
    · exact answered_append (hs.answered id c hc) e

/-- The clients after one of them has changed -/
theorem clients_update {client : ℕ} {c c' : Client} (hclient : s.clients client = some c)
    (hclients : s'.clients = Function.update s.clients client (some c')) (P : Client → Prop)
    (hP : P c → P c') {id : ℕ} (h : ∃ d, s.clients id = some d ∧ P d) :
    ∃ d, s'.clients id = some d ∧ P d := by
  obtain ⟨d, hd, hPd⟩ := h
  rw [hclients]
  by_cases hid : id = client
  · subst hid
    obtain rfl : c = d := Option.some.inj (hclient.symm.trans hd)
    exact ⟨c', Function.update_self .., hP hPd⟩
  · exact ⟨d, by rw [Function.update_of_ne hid, hd], hPd⟩

/-- What a client does by itself leaves everything as it is. -/
theorem Inv.changed (hs : Inv F first past s) {client : ℕ} {c c' : Client}
    (hclient : s.clients client = some c) (huid : c'.uid = c.uid) (hasked : c'.asked = c.asked)
    (hreceived : c'.received = c.received)
    (hclients : s'.clients = Function.update s.clients client (some c'))
    (hchildren : s'.children = s.children) (hbacklog : s'.backlog = s.backlog) :
    Inv F first (past ++ [e]) s' := by
  have huntouched : c.Untouched → c'.Untouched := by
    rintro ⟨h, h'⟩
    exact ⟨hasked.trans h, hreceived.trans h'⟩
  refine ⟨?_, hbacklog ▸ hs.nodup, ?_, ?_, ?_, ?_, ?_⟩
  · rw [hbacklog]
    exact fun id hid => clients_update hclient hclients _ huntouched (hs.waiting id hid)
  · rw [hchildren]
    exact fun pid child hchild => (hs.memory pid child hchild).imp fun _ h => h.append e
  · rw [hchildren]
    exact fun pid child hchild => clients_update hclient hclients _
      (fun h hcode => huntouched (h hcode)) (hs.serving pid child hchild)
  · rw [hchildren, hbacklog]
    exact hs.apart
  · rw [hchildren]
    exact hs.inj
  · intro id d hd
    rw [hclients, Function.update_apply] at hd
    split_ifs at hd
    · next hid =>
      subst hid
      cases hd
      exact answered_append (answered_congr huid hasked hreceived (hs.answered id c hclient)) e
    · exact answered_append (hs.answered id d hd) e

/-- The client of a child gets its answer. Nothing has been read from it before, since the child has
not responded yet and no other child serves it; the other clients and children stay as they are. -/
theorem Inv.responded (hs : Inv F first past s) {pid : ℕ} {child : Child} {client : Client}
    {o : Outcome} {recv : Recv} {reply : Reply}
    (hchild : s.children pid = some child) (hclient : s.clients child.client = some client)
    (hcode : child.code = none)
    (hreply : serverRecvAndRespond (client.calls o recv) child.memory.world.data o.buffer =
      some reply)
    (hclients : s'.clients = Function.update s.clients child.client
      (some (client.served (client.calls o recv) reply)))
    (hchildren : s'.children = Function.update s.children pid
      (some { child with code := some reply.code }))
    (hbacklog : s'.backlog = s.backlog) : Inv F first (past ++ [e]) s' := by
  obtain ⟨client', hclient', huntouched⟩ := hs.serving pid child hchild
  obtain rfl : client = client' := Option.some.inj (hclient.symm.trans hclient')
  obtain ⟨before, hmemory⟩ := hs.memory pid child hchild
  have hserved := served_answered (huntouched hcode) hmemory hreply
  -- the child keeps its client and its memory
  have hcases : ∀ k child', s'.children k = some child' → ∃ old, s.children k = some old ∧
      child'.client = old.client ∧ child'.memory = old.memory ∧
        (child'.code = none → k ≠ pid ∧ old.code = none) := by
    intro k child' hk
    rw [hchildren, Function.update_apply] at hk
    split_ifs at hk with hkpid
    · cases hk
      exact ⟨child, hkpid ▸ hchild, rfl, rfl, fun h => by cases h⟩
    · exact ⟨child', hk, rfl, rfl, fun h => ⟨hkpid, h⟩⟩
  have hother : ∀ id, id ≠ child.client → s'.clients id = s.clients id := by
    intro id hid
    rw [hclients, Function.update_of_ne hid]
  refine ⟨?_, hbacklog ▸ hs.nodup, ?_, ?_, ?_, ?_, ?_⟩
  · intro id hid
    rw [hbacklog] at hid
    have hne : id ≠ child.client := by
      rintro rfl
      exact hs.apart pid child hchild hid
    rw [hother id hne]
    exact hs.waiting id hid
  · intro k child' hk
    obtain ⟨old, hold, hsame, hmem, -⟩ := hcases k child' hk
    rw [hmem, hsame]
    exact (hs.memory k old hold).imp fun _ h => h.append e
  · intro k child' hk
    obtain ⟨old, hold, hsame, -, hnone⟩ := hcases k child' hk
    rw [hsame]
    by_cases hkpid : old.client = child.client
    · rw [hkpid, hclients, Function.update_self]
      refine ⟨_, rfl, fun h => absurd ?_ (hnone h).1⟩
      exact hs.inj k pid old child hold hchild hkpid
    · rw [hother _ hkpid]
      obtain ⟨c, hc, huntouched'⟩ := hs.serving k old hold
      exact ⟨c, hc, fun h => huntouched' (hnone h).2⟩
  · intro k child' hk
    obtain ⟨old, hold, hsame, -⟩ := hcases k child' hk
    rw [hsame, hbacklog]
    exact hs.apart k old hold
  · intro k k' child' child'' hk hk' hsame
    obtain ⟨old, hold, hclient₁, -⟩ := hcases k child' hk
    obtain ⟨old', hold', hclient₂, -⟩ := hcases k' child'' hk'
    rw [hclient₁, hclient₂] at hsame
    exact hs.inj k k' old old' hold hold' hsame
  · intro id c hc
    by_cases hid : id = child.client
    · subst hid
      rw [hclients, Function.update_self] at hc
      cases hc
      exact answered_append hserved e
    · rw [hother id hid] at hc
      exact answered_append (hs.answered id c hc) e

/-- A child that has gone leaves its client as it is. -/
theorem Inv.terminated (hs : Inv F first past s) {pid : ℕ} (hclients : s'.clients = s.clients)
    (hchildren : s'.children = Function.update s.children pid none)
    (hbacklog : s'.backlog = s.backlog) : Inv F first (past ++ [e]) s' := by
  have hold : ∀ k child, s'.children k = some child → s.children k = some child := by
    intro k child hk
    rw [hchildren, Function.update_apply] at hk
    split_ifs at hk
    exact hk
  refine ⟨?_, hbacklog ▸ hs.nodup, ?_, ?_, ?_, ?_, ?_⟩
  · rw [hclients, hbacklog]
    exact hs.waiting
  · exact fun k child hk => (hs.memory k child (hold k child hk)).imp fun _ h => h.append e
  · rw [hclients]
    exact fun k child hk => hs.serving k child (hold k child hk)
  · rw [hbacklog]
    exact fun k child hk => hs.apart k child (hold k child hk)
  · exact fun k k' child child' hk hk' =>
      hs.inj k k' child child' (hold k child hk) (hold k' child' hk')
  · rw [hclients]
    exact fun id c hc => answered_append (hs.answered id c hc) e

/-- **One event.** The daemon's events, the arrival of a client and what a child does each keep
the invariant, the past being longer by the event. -/
theorem Inv.step (hs : Inv F first past s) (hrun : Process.run (Service.step F) first past = some s)
    (h : s.step F e = some s') : Inv F first (past ++ [e]) s' := by
  cases step_effect h with
  | quiet hclients hchildren hbacklog => exact hs.quiet hclients hchildren hbacklog
  | accepted pid client hevent _ hbacklog hclients hchildren =>
    exact hs.accepted hrun hevent hbacklog hclients hchildren
  | connected client uid hnew hclients hchildren hbacklog =>
    exact hs.connected hnew hclients hchildren hbacklog
  | changed client c c' hclient huid hasked hreceived hclients hchildren hbacklog =>
    exact hs.changed hclient huid hasked hreceived hclients hchildren hbacklog
  | responded pid child client o recv reply hchild hclient hcode _ hreply hclients hchildren
      hbacklog =>
    exact hs.responded hchild hclient hcode hreply hclients hchildren hbacklog
  | terminated pid hclients hchildren hbacklog => exact hs.terminated hclients hchildren hbacklog

/-- A client has connected, and it is not waiting to be accepted. -/
def NotWaiting (id : ℕ) (s : Service) : Prop :=
  (s.clients id).isSome ∧ id ∉ s.backlog

/-- It will never wait again: the backlog gets only clients that have not been there before. -/
theorem NotWaiting.step (hs : s.NotWaiting id) (h : s.step F e = some s') : s'.NotWaiting id := by
  obtain ⟨hsome, hnot⟩ := hs
  cases step_effect h with
  | quiet hclients _ hbacklog =>
    exact ⟨hclients ▸ hsome, fun hmem => hnot (hbacklog.subset hmem)⟩
  | accepted pid client _ _ hbacklog hclients =>
    refine ⟨hclients ▸ hsome, fun hmem => hnot ?_⟩
    rw [hbacklog]
    exact List.mem_cons_of_mem client hmem
  | connected client uid hnew hclients _ hbacklog =>
    have hne : id ≠ client := by
      rintro rfl
      rw [hnew] at hsome
      cases hsome
    refine ⟨by rwa [hclients, Function.update_of_ne hne], ?_⟩
    rw [hbacklog, List.mem_append, List.mem_singleton]
    exact not_or.mpr ⟨hnot, hne⟩
  | changed client c c' hclient _ _ _ hclients _ hbacklog
  | responded _ _ _ _ _ _ _ _ _ _ _ hclients _ hbacklog =>
    refine ⟨?_, hbacklog ▸ hnot⟩
    rw [hclients, Function.update_apply]
    split_ifs
    · rfl
    · exact hsome
  | terminated pid hclients _ hbacklog => exact ⟨hclients ▸ hsome, hbacklog ▸ hnot⟩

section Start

variable {fork drmSupport : Bool} {boot : Boot}

/-- It holds in every state of every run. -/
theorem inv_run (h : Process.run (Service.step F) (start fork drmSupport boot) past = some s) :
    Inv F (start fork drmSupport boot) past s :=
  @Process.run_keeps_past _ _ (Service.step F) (Inv F (start fork drmSupport boot))
    (start fork drmSupport boot) (fun _ _ _ _ hpast hs hstep => hs.step hpast hstep)
    (inv_start F fork drmSupport boot _) past s h

/-- Who has been accepted is not waiting at any later point. -/
theorem notWaiting_accepted {before after : List ServiceEvent} {pid : ℕ} {s₀ : Service}
    (hbefore : Process.run (Service.step F) (start fork drmSupport boot) before = some s₀)
    (hhead : s₀.backlog.head? = some id)
    (hrun : Process.run (Service.step F) (start fork drmSupport boot)
      (before ++ .poll (.forked pid) :: after) = some s) : s.NotWaiting id := by
  rw [Process.run_append hbefore] at hrun
  obtain ⟨s₁, hpoll, hafter⟩ := Option.bind_eq_some_iff.mp hrun
  obtain ⟨first, -, hbacklog, hclients, -⟩ := serverPoll_forked hpoll
  rw [hbacklog, List.head?_cons, Option.some.injEq] at hhead
  subst hhead
  have hinv := inv_run hbefore
  have hnodup := hinv.nodup
  rw [hbacklog, List.nodup_cons] at hnodup
  obtain ⟨client, hclient, -⟩ := hinv.waiting first (hbacklog ▸ List.mem_cons_self ..)
  refine Process.run_keeps (fun _ _ _ hs hstep => NotWaiting.step hs hstep) ⟨?_, hnodup.1⟩ hafter
  rw [hclients, hclient]
  rfl

/-- A client is accepted once. -/
theorem Accepting.unique {before before' : List ServiceEvent} {d d' : Daemon}
    (h : Accepting F (start fork drmSupport boot) past before id d)
    (h' : Accepting F (start fork drmSupport boot) past before' id d') :
    before = before' ∧ d = d' := by
  obtain ⟨pid, after, s₀, rfl, hrun, hhead, rfl⟩ := h
  obtain ⟨pid', after', s₀', hpast, hrun', hhead', rfl⟩ := h'
  have hmem : ∀ {s : Service}, s.backlog.head? = some id → ¬ s.NotWaiting id :=
    fun h hs => hs.2 (List.mem_of_head? h)
  rcases List.append_eq_append_iff.mp hpast with ⟨mid, rfl, hmid⟩ | ⟨mid, rfl, hmid⟩
  · rcases mid with _ | ⟨e, mid⟩
    · rw [List.append_nil, hrun] at hrun'
      exact ⟨(List.append_nil before).symm, by rw [Option.some.inj hrun']⟩
    · obtain ⟨rfl, -⟩ := List.cons.inj hmid
      exact absurd (notWaiting_accepted hrun hhead hrun') (hmem hhead')
  · rcases mid with _ | ⟨e, mid⟩
    · rw [List.append_nil, hrun'] at hrun
      exact ⟨List.append_nil before', by rw [Option.some.inj hrun]⟩
    · obtain ⟨rfl, -⟩ := List.cons.inj hmid
      exact absurd (notWaiting_accepted hrun' hhead' hrun) (hmem hhead)

end Start

end Inv

end Service

/-- Calls that succeed, at 55 degrees -/
def outcomePlain : Outcome where
  recvFailed := false
  noCredentials := none
  speed := 40
  temp := 55
  sendFailed := false
  buffer := Vector.replicate ipcMaxMsgLength 0
  errno_ne := by decide

/-- The first round, up to the poll -/
def firstRound : List ServiceEvent :=
  (roundEvents ++ [DaemonEvent.pendingSignals envPlain]).map ServiceEvent.daemon

/-- `SIGINT` or `SIGTERM`, a start or a restart that fails, or a fatal error -/
def Daemon.Stops (F : FloatFormat) (s : Daemon) : DaemonEvent → Prop
  | .signal .sigint | .signal .sigterm => True
  | .init env => ((s.env env).daemonInit s.world).1 = false
  | .adjust o temp => (fanctrlAdjust F o s.world.fanctrl temp).1 = fandFatalErr
  | .watchEvent triggered file tmpdata =>
    (s.reloadPending || triggered) = true ∧
      (daemonReload file tmpdata s.world.data s.world.fanctrl).1 = fandFatalErr
  | .pendingSignals env => s.sigpipeCaught = true ∧ (s.daemonRestart env).1 = false
  | _ => False

instance (F : FloatFormat) (s : Daemon) (e : DaemonEvent) : Decidable (s.Stops F e) :=
  match e with
  | .signal .sigint | .signal .sigterm => isTrue trivial
  | .init _ | .adjust _ _ => inferInstanceAs (Decidable (_ = _))
  | .watchEvent _ _ _ | .pendingSignals _ => inferInstanceAs (Decidable (_ ∧ _))
  | .signal .sigpipe | .signal .sighup | .signal (.sigchld _) | .testAlive | .poll | .free _ =>
    isFalse not_false

/-- Everything else leaves `daemon_alive` as it is. -/
theorem Daemon.alive_of_not_stops {F : FloatFormat} {s s' : Daemon} {e : DaemonEvent}
    (hsigchld : ∀ serverExit, e = .signal (.sigchld serverExit) → serverExit = false)
    (hstops : ¬ s.Stops F e) (h : s.step F e = some s') : s'.alive = s.alive := by
  cases e with
  | signal signal =>
    simp only [Daemon.step] at h
    split_ifs at h
    cases h
    cases signal with
    | sigint | sigterm => exact absurd trivial hstops
    | sigpipe | sighup => rfl
    | sigchld serverExit =>
      rw [hsigchld serverExit rfl]
      rfl
  | init env =>
    simp only [Daemon.step] at h
    split_ifs at h
    cases h
    have halive : (s.daemonInit env).alive =
        (s.alive && ((s.env env).daemonInit s.world).1) := rfl
    rw [Stops, Bool.not_eq_false] at hstops
    rw [halive, hstops, Bool.and_true]
  | testAlive =>
    simp only [Daemon.step] at h
    by_cases hplace : s.place = .testAlive
    · rw [if_pos hplace] at h
      cases h
      rfl
    · rw [if_neg hplace] at h
      cases h
  | adjust o temp =>
    simp only [Daemon.step] at h
    split_ifs at h
    cases h
    have halive : (s.daemonAdjustFanspeed F o temp).alive =
        (s.alive && (fanctrlAdjust F o s.world.fanctrl temp).1 != fandFatalErr) := rfl
    rw [halive, bne_iff_ne.mpr hstops, Bool.and_true]
  | watchEvent triggered file tmpdata =>
    simp only [Daemon.step] at h
    split_ifs at h
    cases h
    rw [daemonWatchEvent]
    by_cases hreload : (s.reloadPending || triggered) = true
    · rw [if_pos hreload]
      -- a reload that is not fatal leaves the flag as it is,
      have hstatus := bne_iff_ne.mpr fun hfatal => hstops ⟨hreload, hfatal⟩
      dsimp only
      rw [hstatus, Bool.and_true]
    · rw [if_neg hreload]
  | pendingSignals env =>
    simp only [Daemon.step] at h
    split_ifs at h
    cases h
    rw [daemonHandlePendingSignals]
    by_cases hcaught : s.sigpipeCaught = true
    · rw [if_pos hcaught]
      -- and so does a restart that succeeds
      have hok : (s.daemonRestart env).1 = true := by
        by_contra hfailed
        exact hstops ⟨hcaught, Bool.not_eq_true _ ▸ hfailed⟩
      dsimp only
      rw [hok, Bool.and_true]
    · rw [if_neg hcaught]
  | poll | free env =>
    simp only [Daemon.step] at h
    split_ifs at h
    cases h
    rfl

namespace Service

/-- The daemon stops by itself, or because the handler has collected nothing and takes what is in
`status` for the status of a child. -/
def Stops (F : FloatFormat) (s : Service) : ServiceEvent → Prop
  | .daemon e => s.daemon.Stops F e
  | .leave => ∃ h ∈ s.sigchld.handler, h.batch = [] ∧ wexitstatus h.status = fandServerExit
  | _ => False

instance (F : FloatFormat) (s : Service) (e : ServiceEvent) : Decidable (s.Stops F e) :=
  match e with
  | .daemon e => inferInstanceAs (Decidable (s.daemon.Stops F e))
  | .leave => inferInstanceAs (Decidable (∃ h ∈ s.sigchld.handler, _))
  | .poll _ | .deliver _ | .reap _ | .connect _ _ | .write _ _ | .hangUp _ | .respond _ _ |
    .terminate _ _ => isFalse not_false

/-- A client of root has asked the daemon to exit. -/
def RootAsked (s : Service) : Prop :=
  ∃ id client, s.clients id = some client ∧ client.uid = 0 ∧ ipcReqExit ∈ client.asked

/-- Whatever asks the daemon to exit goes back to root. -/
structure FromRoot (s : Service) : Prop where
  code : ∀ pid child code, s.children pid = some child → child.code = some code →
    (exitTermination code).IsExit → s.RootAsked
  zombie : ∀ z ∈ s.sigchld.zombies, z.2.IsExit → s.RootAsked
  status : ∀ h, s.sigchld.handler = some h → h.batch ≠ [] →
    wexitstatus h.status = fandServerExit → s.RootAsked
  alive : s.daemon.alive = false → s.RootAsked

section Root

variable {F : FloatFormat} {s s' : Service} {e : ServiceEvent}

/-- What has been asked remains asked. -/
theorem RootAsked.step (h : s.RootAsked) (hstep : s.step F e = some s') : s'.RootAsked := by
  obtain ⟨id, client, hclient, huid, hasked⟩ := h
  cases step_effect hstep with
  | quiet hclients | accepted _ _ _ _ _ hclients | terminated _ hclients =>
    exact ⟨id, client, by rw [hclients, hclient], huid, hasked⟩
  | connected new uid hnew hclients =>
    refine ⟨id, client, ?_, huid, hasked⟩
    rw [hclients, Function.update_of_ne, hclient]
    rintro rfl
    rw [hnew] at hclient
    cases hclient
  | changed changing c c' hc huid' hasked' _ hclients =>
    obtain ⟨d, hd, huid, hasked⟩ := clients_update hc hclients
      (fun d => d.uid = 0 ∧ ipcReqExit ∈ d.asked)
      (fun h => ⟨huid'.trans h.1, hasked' ▸ h.2⟩) ⟨client, hclient, huid, hasked⟩
    exact ⟨id, d, hd, huid, hasked⟩
  | responded pid child c o recv reply _ hc _ _ _ hclients =>
    obtain ⟨d, hd, huid, hasked⟩ := clients_update hc hclients
      (fun d => d.uid = 0 ∧ ipcReqExit ∈ d.asked)
      (fun h => ⟨(c.uid_served _ _).trans h.1, by
        rw [c.asked_served]
        exact List.mem_append_left _ h.2⟩) ⟨client, hclient, huid, hasked⟩
    exact ⟨id, d, hd, huid, hasked⟩

/-- Only a child that has validated an exit request exits with `FAND_SERVER_EXIT`. -/
theorem validated_of_isExit {calls : ServerCalls} {config : FandConfig}
    {buffer : Vector UInt8 ipcMaxMsgLength} {reply : Reply}
    (hreply : serverRecvAndRespond calls config buffer = some reply)
    (hexit : (exitTermination reply.code).IsExit) :
    calls.recv = .request ipcReqExit ∧ serverValidateRequest calls ipcReqExit = 0 := by
  have hzero : ¬ (exitTermination 0).IsExit := by decide
  have hone : ¬ (exitTermination 1).IsExit := by decide
  rw [serverRecvAndRespond] at hreply
  cases hrecv : calls.recv with
  | failed | closed =>
    rw [hrecv] at hreply
    cases hreply
    exact absurd hexit hone
  | request request =>
    rw [hrecv] at hreply
    by_cases hauth : serverValidateRequest calls request = 0 ∧ request = ipcReqExit
    · obtain ⟨hstatus, rfl⟩ := hauth
      exact ⟨rfl, hstatus⟩
    · -- the exit code is 0 or 1
      simp only [if_neg hauth] at hreply
      obtain ⟨⟨rsplen, packed⟩, -, hreply⟩ := Option.bind_eq_some_iff.mp hreply
      dsimp only at hreply
      by_cases hneg : rsplen < 0
      · rw [if_pos hneg] at hreply
        cases hreply
        exact absurd hexit hone
      · rw [if_neg hneg] at hreply
        obtain ⟨bytes, -, hreply⟩ := Option.bind_eq_some_iff.mp hreply
        cases hreply
        by_cases hsent : calls.sent = true
        · rw [if_pos hsent] at hexit
          exact absurd hexit hzero
        · rw [if_neg hsent] at hexit
          exact absurd hexit hone

/-- It has served a client of root. -/
theorem rootAsked_of_isExit {id : ℕ} {client : Client} {o : Outcome} {recv : Recv} {reply : Reply}
    {config : FandConfig}
    (hreply : serverRecvAndRespond (client.calls o recv) config o.buffer = some reply)
    (hclients : s'.clients = Function.update s.clients id
      (some (client.served (client.calls o recv) reply)))
    (hexit : (exitTermination reply.code).IsExit) : s'.RootAsked := by
  obtain ⟨hrecv, hvalid⟩ := validated_of_isExit hreply hexit
  obtain ⟨hcred, huid⟩ := client.peercred_calls o recv
  refine ⟨id, _, by rw [hclients, Function.update_self], ?_, ?_⟩
  · rw [Client.uid_served]
    cases hpeer : (client.calls o recv).peercred with
    | ok uid =>
      obtain ⟨-, hzero⟩ := (serverValidateRequest_exit hpeer ipcReqExit).mp ⟨hvalid, rfl⟩
      rw [← huid uid hpeer, hzero]
    | error number =>
      rw [serverValidateRequest, if_neg (by decide), if_pos (by decide), hpeer] at hvalid
      exact absurd (hpeer.trans (congrArg Except.error hvalid)) hcred
  · rw [Client.asked_served, hrecv]
    exact List.mem_append_right _ (List.mem_singleton_self _)

/-- The children and the handler, when nothing but the daemon and the clients has changed -/
theorem FromRoot.of_same (hs : s.FromRoot) (hstep : s.step F e = some s')
    (hchildren : s'.children = s.children) (hzombies : s'.sigchld.zombies ⊆ s.sigchld.zombies)
    (hhandler : s'.sigchld.handler = s.sigchld.handler)
    (halive : s'.daemon.alive = s.daemon.alive) : s'.FromRoot := by
  refine ⟨fun pid child code hchild hcode hexit => ?_, fun z hz hexit => ?_, fun h hh => ?_,
    fun hstopped => ?_⟩
  · rw [hchildren] at hchild
    exact (hs.code pid child code hchild hcode hexit).step hstep
  · exact (hs.zombie z (hzombies hz) hexit).step hstep
  · rw [hhandler] at hh
    exact fun hbatch hstatus => (hs.status h hh hbatch hstatus).step hstep
  · rw [halive] at hstopped
    exact (hs.alive hstopped).step hstep

/-- The daemon's own events do not stop it, but for the exceptions. -/
theorem FromRoot.stepDaemon (hs : s.FromRoot) {d : DaemonEvent} (hstops : ¬ s.daemon.Stops F d)
    (h : s.step F (.daemon d) = some s') : s'.FromRoot := by
  have hstep := h
  simp only [step, Service.stepDaemon] at h
  split_ifs at h with hadmits
  obtain ⟨daemon, hdaemon, rfl⟩ := Option.map_eq_some_iff.mp h
  have halive : daemon.alive = s.daemon.alive := by
    refine Daemon.alive_of_not_stops (fun serverExit hd => ?_) hstops hdaemon
    subst hd
    rw [Bool.and_eq_true] at hadmits
    exact absurd hadmits.1 Bool.false_ne_true
  refine hs.of_same hstep rfl ?_ ?_ halive
  · dsimp only [sigchldAfter]
    split
    · exact List.nil_subset _
    · exact List.Subset.refl _
  · dsimp only [sigchldAfter]
    split <;> rfl

/-- A client that is accepted has asked for nothing yet. -/
theorem FromRoot.poll (hs : s.FromRoot) {polled : Polled}
    (h : s.step F (.poll polled) = some s') : s'.FromRoot := by
  have hstep := h
  simp only [step, serverPoll] at h
  split_ifs at h
  obtain ⟨daemon, hdaemon, h⟩ := Option.bind_eq_some_iff.mp h
  have halive : daemon.alive = s.daemon.alive := by
    refine @Daemon.alive_of_not_stops F _ _ .poll ?_ not_false hdaemon
    rintro serverExit ⟨⟩
  cases polled with
  | failed | timeout | acceptFailed =>
    cases h
    exact hs.of_same hstep rfl (List.Subset.refl _) rfl halive
  | forkFailed =>
    rcases hbacklog : s.backlog with _ | ⟨client, backlog⟩ <;> rw [hbacklog] at h <;> cases h
    exact hs.of_same hstep rfl (List.Subset.refl _) rfl halive
  | forked pid =>
    rcases hbacklog : s.backlog with _ | ⟨client, backlog⟩ <;> rw [hbacklog] at h
    · cases h
    dsimp only at h
    split_ifs at h
    obtain ⟨sigchld, hfork, h⟩ := Option.bind_eq_some_iff.mp h
    cases h
    simp only [Sigchld.step] at hfork
    split_ifs at hfork
    cases hfork
    -- the new child has returned nothing yet, and the others are as they were
    refine ⟨fun k child code hchild hcode hexit => ?_, fun z hz hexit => ?_, fun hd hh => ?_,
      fun hstopped => ?_⟩
    · dsimp only at hchild
      rw [Function.update_apply] at hchild
      split_ifs at hchild
      · cases hchild
        cases hcode
      · exact (hs.code k child code hchild hcode hexit).step hstep
    · exact (hs.zombie z hz hexit).step hstep
    · exact fun hbatch hstatus => (hs.status hd hh hbatch hstatus).step hstep
    · exact (hs.alive (halive.symm.trans hstopped)).step hstep

/-- What a child returns is what it has done: only a request of root makes it ask for the exit. -/
theorem FromRoot.reap (hs : s.FromRoot) {pid : ℕ} (h : s.step F (.reap pid) = some s') :
    s'.FromRoot := by
  have hstep := h
  obtain ⟨sigchld, hreap, rfl⟩ := Option.map_eq_some_iff.mp h
  simp only [Sigchld.step] at hreap
  split at hreap
  · next hd t hhandler hlookup =>
    cases hreap
    refine ⟨fun k child code hchild hcode hexit => ?_, fun z hz hexit => ?_, fun hd' hh => ?_,
      fun hstopped => ?_⟩
    · exact (hs.code k child code hchild hcode hexit).step hstep
    · exact (hs.zombie z (List.mem_of_mem_erase hz) hexit).step hstep
    · cases hh
      intro _ hstatus
      rw [wexitstatus_waitStatus] at hstatus
      obtain ⟨front, back, heq, -⟩ := List.lookup_eq_some_iff.mp hlookup
      have hmem : (pid, t) ∈ s.sigchld.zombies := by
        rw [heq]
        exact List.mem_append_right _ (List.mem_cons_self ..)
      exact (hs.zombie (pid, t) hmem hstatus).step hstep
    · exact (hs.alive hstopped).step hstep
  · cases hreap

/-- The loop is left for a status that the child of a root client returned. -/
theorem FromRoot.leave (hs : s.FromRoot) (hstops : ¬ s.Stops F .leave)
    (h : s.step F .leave = some s') : s'.FromRoot := by
  have hstep := h
  obtain ⟨sigchld, hleave, h⟩ := Option.bind_eq_some_iff.mp h
  obtain ⟨daemon, hdaemon, h⟩ := Option.bind_eq_some_iff.mp h
  cases h
  obtain ⟨hd, hhandler, hzombies, rfl⟩ := Sigchld.step_leave hleave
  refine ⟨fun k child code hchild hcode hexit => ?_, fun z hz hexit => ?_, fun hd' hh => ?_,
    fun hstopped => ?_⟩
  · exact (hs.code k child code hchild hcode hexit).step hstep
  · exact (hs.zombie z hz hexit).step hstep
  · cases hh
  · -- the last child that has been collected has asked, or `daemon_alive` was clear before
    by_cases hexit : s.serverExit = true
    · rw [serverExit, hhandler, Option.any_some, decide_eq_true_iff] at hexit
      have hbatch : hd.batch ≠ [] := fun hbatch => hstops ⟨hd, hhandler, hbatch, hexit⟩
      exact (hs.status hd hhandler hbatch hexit).step hstep
    · have halive : daemon.alive = s.daemon.alive := by
        refine Daemon.alive_of_not_stops (fun serverExit hd => ?_) ?_ hdaemon
        · cases hd
          exact Bool.not_eq_true _ ▸ hexit
        · exact not_false
      exact (hs.alive (halive.symm.trans hstopped)).step hstep

/-- Only a client of root makes its child return that status. -/
theorem FromRoot.respond (hs : s.FromRoot) {pid : ℕ} {o : Outcome}
    (h : s.step F (.respond pid o) = some s') : s'.FromRoot := by
  have hstep := h
  obtain ⟨child, hchild, h⟩ := Option.bind_eq_some_iff.mp h
  obtain ⟨client, hclient, h⟩ := Option.bind_eq_some_iff.mp h
  split_ifs at h
  obtain ⟨recv, -, h⟩ := Option.bind_eq_some_iff.mp h
  obtain ⟨reply, hreply, h⟩ := Option.bind_eq_some_iff.mp h
  cases h
  refine ⟨fun k child' code hchild' hcode hexit => ?_, fun z hz hexit => ?_, fun hd hh => ?_,
    fun hstopped => ?_⟩
  · dsimp only at hchild'
    rw [Function.update_apply] at hchild'
    split_ifs at hchild'
    · cases hchild'
      cases hcode
      exact rootAsked_of_isExit hreply rfl hexit
    · exact (hs.code k child' code hchild' hcode hexit).step hstep
  · exact (hs.zombie z hz hexit).step hstep
  · exact fun hbatch hstatus => (hs.status hd hh hbatch hstatus).step hstep
  · exact (hs.alive hstopped).step hstep

theorem FromRoot.terminate (hs : s.FromRoot) {pid : ℕ} {killed : Option (Fin 126 × Bool)}
    (h : s.step F (.terminate pid killed) = some s') : s'.FromRoot := by
  have hstep := h
  obtain ⟨child, hchild, h⟩ := Option.bind_eq_some_iff.mp h
  obtain ⟨t, ht, h⟩ := Option.bind_eq_some_iff.mp h
  cases h
  -- a child that asks for the exit is one that has exited with the code
  have hterminated : t.IsExit → s.RootAsked := by
    intro hexit
    rcases killed with _ | ⟨signal, core⟩
    · obtain ⟨code, hcode, rfl⟩ := Option.map_eq_some_iff.mp ht
      exact hs.code pid child code hchild hcode hexit
    · cases ht
      cases hexit
  have hsigchld : ∀ z ∈ ((s.sigchld.step (.terminate pid t)).getD s.sigchld).zombies,
      z = (pid, t) ∨ z ∈ s.sigchld.zombies := by
    intro z hz
    simp only [Sigchld.step] at hz
    split_ifs at hz
    · exact List.mem_cons.mp hz
    · exact .inr hz
  have hhandler : ((s.sigchld.step (.terminate pid t)).getD s.sigchld).handler =
      s.sigchld.handler := by
    simp only [Sigchld.step]
    split_ifs <;> rfl
  refine ⟨fun k child' code hchild' hcode hexit => ?_, fun z hz hexit => ?_, fun hd hh => ?_,
    fun hstopped => ?_⟩
  · dsimp only at hchild'
    rw [Function.update_apply] at hchild'
    split_ifs at hchild'
    exact (hs.code k child' code hchild' hcode hexit).step hstep
  · rcases hsigchld z hz with rfl | hz
    · exact (hterminated hexit).step hstep
    · exact (hs.zombie z hz hexit).step hstep
  · exact fun hbatch hstatus =>
      (hs.status hd (hhandler.symm.trans hh) hbatch hstatus).step hstep
  · exact (hs.alive hstopped).step hstep

/-- **One event** that is none of the exceptions keeps the daemon running, or there is a root
client that asked for the exit. -/
theorem FromRoot.step (hs : s.FromRoot) (hstops : ¬ s.Stops F e) (h : s.step F e = some s') :
    s'.FromRoot := by
  cases e with
  | daemon d => exact hs.stepDaemon hstops h
  | poll polled => exact hs.poll h
  | deliver garbage =>
    have hstep := h
    simp only [Service.step, deliver] at h
    split_ifs at h
    obtain ⟨sigchld, hdeliver, rfl⟩ := Option.map_eq_some_iff.mp h
    simp only [Sigchld.step] at hdeliver
    split_ifs at hdeliver
    cases hdeliver
    -- the handler begins with an empty batch
    refine ⟨fun k child code hchild hcode hexit => ?_, fun z hz hexit => ?_, fun hd hh => ?_,
      fun hstopped => ?_⟩
    · exact (hs.code k child code hchild hcode hexit).step hstep
    · exact (hs.zombie z hz hexit).step hstep
    · cases hh
      exact fun hbatch => absurd rfl hbatch
    · exact (hs.alive hstopped).step hstep
  | reap pid => exact hs.reap h
  | leave => exact hs.leave hstops h
  | connect client uid =>
    have hstep := h
    simp only [Service.step, connect] at h
    split_ifs at h
    cases h
    exact hs.of_same hstep rfl (List.Subset.refl _) rfl rfl
  | write client byte | hangUp client =>
    have hstep := h
    obtain ⟨c, -, h⟩ := Option.bind_eq_some_iff.mp h
    split_ifs at h
    cases h
    exact hs.of_same hstep rfl (List.Subset.refl _) rfl rfl
  | respond pid o => exact hs.respond h
  | terminate pid killed => exact hs.terminate h

end Root

end Service

/-- **Only root stops the daemon.** In every run in which no signal to terminate arrives, no start
or restart fails, there is no fatal error, and the handler of `SIGCHLD` does not act on a status
that it has not got from `waitpid`: if `daemon_alive` is cleared, a client of root has asked for it.
Other users cannot bring it about, whatever they send, however often they connect, and whenever they
hang up. -/
theorem only_root_stops (F : FloatFormat) (fork drmSupport : Bool) (boot : Boot)
    (events : List ServiceEvent) (s : Service)
    (hrun : Process.run (Service.step F) (.start fork drmSupport boot) events = some s)
    (hmeets : Process.Meets (Service.step F) (fun s e => ¬ s.Stops F e)
      (.start fork drmSupport boot) events)
    (hstopped : s.daemon.alive = false) : s.RootAsked := by
  have hstart : (Service.start fork drmSupport boot).FromRoot := by
    refine ⟨?_, ?_, ?_, ?_⟩ <;> simp [Service.start, Daemon.start, Sigchld.start]
  have hs := Process.run_keeps_of_meets
    (fun s e s' hs hstops hstep => Service.FromRoot.step hs hstops hstep) hstart hmeets hrun
  exact hs.alive hstopped

/-- A client of root asks for the exit and has hung up when it is served. -/
theorem only_root_stops_exit :
    ∃ s, Process.run (Service.step binary32) (.start false true bootPlain)
        ([.daemon (.init envPlain), .connect 0 0, .write 0 ipcReqExit, .hangUp 0] ++ firstRound ++
          [.poll (.forked 7), .respond 7 outcomePlain, .terminate 7 none, .deliver 0, .reap 7,
            .leave]) = some s ∧
      s.daemon.alive = false ∧ s.RootAsked := by
  have hrun : (Process.run (Service.step binary32) (.start false true bootPlain)
      ([.daemon (.init envPlain), .connect 0 0, .write 0 ipcReqExit, .hangUp 0] ++ firstRound ++
        [.poll (.forked 7), .respond 7 outcomePlain, .terminate 7 none, .deliver 0, .reap 7,
          .leave])).map (fun s => s.daemon.alive) = some false := by decide +kernel
  obtain ⟨s, hs, halive⟩ := Option.map_eq_some_iff.mp hrun
  exact ⟨s, hs, halive, only_root_stops binary32 false true bootPlain _ s hs (by decide +kernel)
    halive⟩

end AmdgpuFand
