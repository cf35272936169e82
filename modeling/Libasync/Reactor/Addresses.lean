import Libasync.Reactor.Reachable

/-! # Addresses

The address data of the sockets and the calls that use it, over the machine of the reactor. What a
constructor leaves out is what the memory holds, so it is in the label. -/

namespace Libasync.Reactor

open Promise Socket Automaton

/-! ## Data model -/

/-- `in_addr_t` -/
abbrev InAddr := UInt32

/-- `in_port_t` -/
abbrev InPort := UInt16

/-- `INADDR_NONE` -/
def inaddrNone : InAddr := 0xffffffff

/-- The address data of a `SocketData`. -/
structure Addresses where
  localAddr : InAddr
  localPort : InPort
  remoteAddr : InAddr
  remotePort : InPort
  deriving DecidableEq, Repr

/-- `SocketData()` sets one of the fields. -/
def Addresses.socketData (memory : Addresses) : Addresses :=
  { memory with localAddr := inaddrNone }

/-- The address data of a `ServerSocketData`, whose port is an `in_addr_t`. -/
structure ServerAddresses where
  localAddr : InAddr
  localPort : InAddr
  deriving DecidableEq, Repr

/-- The answer of `getsockname`. -/
inductive NameAnswer where
  | name (addr : InAddr) (port : InPort)
  | err (errno : Errno)
  deriving DecidableEq, Repr

def NameAnswer.badFd : NameAnswer → Bool
  | .err errno => badErrno errno
  | .name .. => false

inductive NamedLabel where
  | newSocket (fd : Fd) (failure : Option SetupFailure) (memory : Addresses)
  | newServer (fd : Fd) (failure : Option SetupFailure) (memory : ServerAddresses)
  | bind (i : ℕ) (addr : InAddr) (port : InPort) (answer : Answer)
  | connect (i : ℕ) (addr : InAddr) (port : InPort) (answer : Answer)
  | listen (j : ℕ) (addr : InAddr) (port : InPort) (bind listen : Answer)
  | localAddr (i : ℕ) (answer : NameAnswer)
  /-- with the address of the peer and the answer of `getsockname` -/
  | accept (answer : AcceptAnswer) (memory : Addresses) (peer sockname : InAddr × InPort)
  /-- a step without addresses -/
  | other (l : Label)
  deriving DecidableEq, Repr

/-- The steps that come with addresses. -/
def Label.takesAddresses : Label → Bool
  | .newSocket .. | .newServer .. | .connect .. | .listen .. | .accept .. => true
  | _ => false

/-- The step of the reactor machine; `bind` and `local_addr` are none. -/
def NamedLabel.label? : NamedLabel → Option Label
  | .newSocket fd failure _ => some (.newSocket fd failure)
  | .newServer fd failure _ => some (.newServer fd failure)
  | .connect i _ _ answer => some (.connect i answer)
  | .listen j _ _ bound listening => some (.listen j bound listening)
  | .accept answer .. => some (.accept answer)
  | .other l => if l.takesAddresses then none else some l
  | .bind .. | .localAddr .. => none

/-- The addresses of the sockets and server sockets, in the order of the objects. -/
structure NamedConfig (V E F : Type*) extends Config V E F where
  addresses : List Addresses := []
  serverAddresses : List ServerAddresses := []

namespace NamedConfig

variable {V E F : Type*}

/-! ## What the steps of the machine do with addresses -/

/-- The addresses of a socket that a server socket has accepted: its local address is asked for on
Linux, and copied from the server socket on FreeBSD. -/
def accepted (backend : Backend) (server : ServerAddresses) (peer sockname : InAddr × InPort) :
    Addresses :=
  match backend with
  | .epoll => ⟨sockname.1, sockname.2, peer.1, peer.2⟩
  | .kqueue => ⟨server.localAddr, server.localPort.toUInt16, peer.1, peer.2⟩

/-- Only a connection that is there at once sets the remote address. -/
def addressesAfter (backend : Backend) (n : NamedConfig V E F) : NamedLabel → List Addresses
  | .newSocket _ none memory => n.addresses ++ [memory.socketData]
  | .connect i addr port (.ret _) =>
      if n.world.status? i = some .idle then
        n.addresses.modify i fun a => { a with remoteAddr := addr, remotePort := port }
      else n.addresses
  | .accept (.conn _) memory peer sockname =>
      match n.stack with
      | .accepting j _ :: _ =>
          match n.serverAddresses[j]? with
          | some server => n.addresses ++ [accepted backend server peer sockname]
          | none => n.addresses ++ [memory.socketData]
      | _ => n.addresses
  | .accept (.addressFails ..) memory _ _ => n.addresses ++ [memory.socketData]
  | _ => n.addresses

def serversAfter (n : NamedConfig V E F) : NamedLabel → List ServerAddresses
  | .newServer _ none memory => n.serverAddresses ++ [memory]
  | .listen j addr port (.ret _) (.ret _) =>
      if (n.world.servers[j]?).any fun server => decide (server.status = .idle) then
        n.serverAddresses.set j ⟨addr, port.toUInt32⟩
      else n.serverAddresses
  | _ => n.serverAddresses

/-! ## The calls that only use addresses -/

/-- `Socket::bind` -/
def bind (n : NamedConfig V E F) (i : ℕ) (addr : InAddr) (port : InPort) (answer : Answer) :
    Option (NamedConfig V E F × Except SocketError Unit) :=
  match n.world.sockets[i]?, n.addresses[i]? with
  | some sock, some a =>
      if sock.status ≠ .idle ∨ a.localAddr ≠ inaddrNone then some (n, .ok ())
      else if n.world.usable sock.fd || badFd answer then
        match answer with
        | .err errno => some (n, .error ⟨.bind, errno⟩)
        | .ret _ =>
            let a := { a with localAddr := addr, localPort := port }
            some ({ n with addresses := n.addresses.set i a }, .ok ())
      else none
  | _, _ => none

/-- `Socket::local_addr`; nothing is returned unless the socket is connected. -/
def localAddr (n : NamedConfig V E F) (i : ℕ) (answer : NameAnswer) :
    Option (NamedConfig V E F × Except SocketError (Option (InAddr × InPort))) :=
  match n.world.sockets[i]?, n.addresses[i]? with
  | some sock, some a =>
      if sock.status ≠ .connected then some (n, .ok none)
      else if a.localAddr = inaddrNone then
        if n.world.usable sock.fd || answer.badFd then
          match answer with
          | .err errno => some (n, .error ⟨.getLocalAddr, errno⟩)
          | .name addr port =>
              let a := { a with localAddr := addr, localPort := port }
              some ({ n with addresses := n.addresses.set i a }, .ok (some (addr, port)))
        else none
      else some (n, .ok (some (a.localAddr, a.localPort)))
  | _, _ => none

/-- `Socket::remote_addr`; nothing is returned unless the socket is connected. -/
def remoteAddr (n : NamedConfig V E F) (i : ℕ) : Option (InAddr × InPort) :=
  if n.world.status? i = some .connected then
    (n.addresses[i]?).map fun a => (a.remoteAddr, a.remotePort)
  else none

/-! ## The machine -/

/-- A call by user code. An exception goes back to the user code, which is on top of the stack. -/
def callStep (n : NamedConfig V E F) (l : NamedLabel) : Option (NamedConfig V E F) :=
  match n.stack, l with
  | .user _ :: _, .bind i addr port answer => (n.bind i addr port answer).map (·.1)
  | .user _ :: _, .localAddr i answer => (n.localAddr i answer).map (·.1)
  | _, _ => none

def step [Blank V] (backend : Backend) (n : NamedConfig V E F) (l : NamedLabel) :
    Option (NamedConfig V E F) :=
  match l.label? with
  | none => n.callStep l
  | some label => (Reactor.step backend n.toConfig label).map fun c =>
      { toConfig := c
        addresses := n.addressesAfter backend l
        serverAddresses := n.serversAfter l }

end NamedConfig

/-! ## The reactor machine below it -/

section Machine

variable {V E F : Type*} {n n' : NamedConfig V E F} {l : NamedLabel}

theorem NamedConfig.bind_config {i : ℕ} {addr : InAddr} {port : InPort} {answer : Answer}
    {result : Except SocketError Unit} (h : n.bind i addr port answer = some (n', result)) :
    n'.toConfig = n.toConfig := by
  simp only [bind] at h
  repeat' split at h
  all_goals simp only [Option.some.injEq, Prod.mk.injEq, reduceCtorEq] at h
  all_goals rw [← h.1]

theorem NamedConfig.localAddr_config {i : ℕ} {answer : NameAnswer}
    {result : Except SocketError (Option (InAddr × InPort))}
    (h : n.localAddr i answer = some (n', result)) : n'.toConfig = n.toConfig := by
  simp only [localAddr] at h
  repeat' split at h
  all_goals simp only [Option.some.injEq, Prod.mk.injEq, reduceCtorEq] at h
  all_goals rw [← h.1]

theorem NamedConfig.callStep_config (h : n.callStep l = some n') : n'.toConfig = n.toConfig := by
  simp only [callStep] at h
  split at h
  · obtain ⟨r, hr, rfl⟩ := Option.map_eq_some_iff.mp h
    exact bind_config hr
  · obtain ⟨r, hr, rfl⟩ := Option.map_eq_some_iff.mp h
    exact localAddr_config hr
  · cases h

variable [Blank V] {backend : Backend}

/-- A step is a step of the reactor machine, or a call that it does not see. -/
theorem NamedConfig.step_config (h : n.step backend l = some n') :
    (∃ label, l.label? = some label ∧ Reactor.step backend n.toConfig label = some n'.toConfig ∧
      n'.addresses = n.addressesAfter backend l) ∨
    l.label? = none ∧ n.callStep l = some n' ∧ n'.toConfig = n.toConfig := by
  simp only [step] at h
  split at h
  · rename_i hlabel
    exact .inr ⟨hlabel, h, callStep_config h⟩
  · rename_i label hlabel
    obtain ⟨c, hc, rfl⟩ := Option.map_eq_some_iff.mp h
    exact .inl ⟨label, hlabel, hc, rfl⟩

/-- The machine with addresses refines the reactor machine. -/
theorem NamedConfig.run_config {ls : List NamedLabel}
    (h : run (NamedConfig.step backend) n ls = some n') :
    run (Reactor.step backend) n.toConfig (ls.filterMap NamedLabel.label?) = some n'.toConfig := by
  induction ls generalizing n with
  | nil =>
      obtain rfl := Option.some.inj h
      rfl
  | cons l ls ih =>
      obtain ⟨t, hl, hrest⟩ := run_cons_eq_some _ h
      have hih := ih hrest
      rcases step_config hl with ⟨label, hlabel, hstep, -⟩ | ⟨hnone, -, hsame⟩
      · rw [List.filterMap_cons_some hlabel, run_cons, hstep]
        exact hih
      · rw [List.filterMap_cons_none hnone, ← hsame]
        exact hih

theorem NamedConfig.sound_step (hsound : n.toConfig.Sound) (h : n.step backend l = some n') :
    n'.toConfig.Sound := by
  rcases step_config h with ⟨label, -, hstep, -⟩ | ⟨-, -, hsame⟩
  · exact hsound.step hstep
  · rw [hsame]
    exact hsound

theorem NamedConfig.sound_run {ls : List NamedLabel} (hsound : n.toConfig.Sound)
    (h : run (NamedConfig.step backend) n ls = some n') : n'.toConfig.Sound :=
  run_invariant_of_step (I := fun n => n.toConfig.Sound) (fun _ _ _ hs hl => sound_step hs hl)
    hsound h

theorem NamedConfig.sound {ls : List NamedLabel}
    (h : run (NamedConfig.step backend) ({} : NamedConfig V E F) ls = some n) : n.toConfig.Sound :=
  Config.Sound.run (run_config h)

end Machine

end Libasync.Reactor
