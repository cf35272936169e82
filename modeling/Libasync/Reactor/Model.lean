import Libasync.Socket.Model
import Mathlib.Logic.Function.Basic

/-! # The reactor machine

Sockets, server sockets, the kernel's descriptors and the lookup table of one thread. Handlers
run in the middle of library functions, so a configuration has a stack: a frame is user code, or
what is left to do of a library function. User code is free to make any call, to return and to
throw; the kernel's answers are in the labels. -/

namespace Libasync.Reactor

open Promise Socket

/-! ## Data model -/

inductive Backend where
  | epoll
  | kqueue
  deriving DecidableEq, Repr

/-- Where `Socket::reactor_on_event` looks at its event again after the read branch: on Linux in
the slot of the event buffer that it was called with. On FreeBSD the two branches exclude each
other. -/
def Backend.slot : Backend → ℕ → Option ℕ
  | .epoll, k => some k
  | .kqueue, _ => none

/-- A `ReactorTarget`: all copies of a `Socket` or `ServerSocket` share the data with this
number. -/
inductive Target where
  | socket (i : ℕ)
  | server (j : ℕ)
  deriving DecidableEq, Repr

/-- `SocketData`, with the contexts captured by the handlers that `connect` itself registers for
the "connect" event. -/
structure SocketObject extends SocketData where
  connectHandlers : List Ref := []
  deriving DecidableEq, Repr

/-- `ServerSocket::Status` -/
inductive ServerStatus where
  | idle
  | listening
  | closed
  deriving DecidableEq, Repr

structure ServerSocketData where
  fd : Fd
  status : ServerStatus := .idle
  deriving DecidableEq, Repr

/-- The part of an `epoll_event` or `kevent` that is looked at. A `kevent` has one filter. -/
structure Event where
  fd : Fd
  readable : Bool
  writable : Bool
  deriving DecidableEq, Repr

/-- The test for `EPOLLOUT` in a slot of the event buffer, with what is there now. -/
def slotWritable (events : List (Event × Target)) : Option ℕ → Bool
  | some k => events[k]?.any (·.1.writable)
  | none => false

inductive EventName where
  | data
  | end_
  | connect
  | close
  | error
  deriving DecidableEq, Repr

inductive IoCall where
  | read
  | write
  | accept
  deriving DecidableEq, Repr

/-- What an observer of a run sees. The code keeps no such record. -/
inductive Happening where
  | io (t : Target) (call : IoCall) (fd : Fd)
  | triggered (t : Target) (name : EventName)
  | delivered (event : Event) (reported : Target) (target : Option Target)
  | closeCalled (t : Target)
  | closed (t : Target) (fd : Fd)
  | endOfFile (i : ℕ)
  deriving DecidableEq, Repr

/-- The promises, the socket objects, the lookup table (an entry can be a null pointer), the
kernel's open descriptors with the object each one was made for (none, if a constructor has
thrown and leaked it), and the event buffer. The kernel knows for which object it reports an
event; the code does not. -/
structure World (V E F : Type*) where
  promises : State V E F := {}
  sockets : List SocketObject := []
  servers : List ServerSocketData := []
  table : Fd → Option (Option Target) := fun _ => none
  descriptors : Fd → Option (Option Target) := fun _ => none
  events : List (Event × Target) := []
  reactorOpen : Bool := true
  log : List Happening := []

/-- User code, or what is left to do of a library function when the handlers above it have
returned. `since` is the length of the record when `reactor_on_event` was entered. -/
inductive Frame where
  /-- the main program, or the handlers of one `trigger`; the internal handlers still to run -/
  | user (connectHandlers : List Ref)
  /-- `Socket::close` after the "close" event -/
  | closeTail (i : ℕ)
  /-- `Socket::connect` after the "connect" event -/
  | connectTail
  /-- `Socket::reactor_on_event` before the read loop -/
  | reading (i : ℕ) (slot : Option ℕ) (since : ℕ)
  /-- `Socket::reactor_on_event` after the "data" event, with the end of file that is still to be
  handled; after the "end" event nothing is -/
  | readTail (i : ℕ) (closed : Bool) (slot : Option ℕ) (since : ℕ)
  /-- `Socket::reactor_on_event` after the "close" event -/
  | closedTail (i : ℕ) (slot : Option ℕ) (since : ℕ)
  /-- `Socket::reactor_on_event` at the write branch, with the flag it has just read -/
  | writePart (i : ℕ) (writable : Bool) (since : ℕ)
  /-- `Socket::reactor_on_event` after the "error" event -/
  | errorTail (i : ℕ) (since : ℕ)
  /-- `ServerSocket::reactor_on_event` at the head of its loop -/
  | accepting (j : ℕ) (since : ℕ)
  /-- `reactor_task` before event `k` of `n` -/
  | batch (k n : ℕ)
  deriving DecidableEq, Repr

inductive ReactorReason where
  | init
  | query
  | reg
  deriving DecidableEq, Repr

inductive Failure where
  | socket (error : SocketError)
  | reactor (reason : ReactorReason)
  deriving DecidableEq, Repr

/-- How a piece of a function ends: more frames are to run, an exception, or a call on a null
pointer. -/
inductive Effect where
  | push (frames : List Frame)
  | throw (failure : Failure)
  | crash
  deriving DecidableEq, Repr

/-- What a constructor can fail with after it has got its descriptor. -/
inductive SetupFailure where
  | nonBlock (errno : Errno)
  | reuseAddr (errno : Errno)
  | register
  deriving DecidableEq, Repr

def SetupFailure.failure : SetupFailure → Failure
  | .nonBlock errno => .socket ⟨.makeNonBlock, errno⟩
  | .reuseAddr errno => .socket ⟨.reuseAddr, errno⟩
  | .register => .reactor .reg

/-- The answer to one `read`. -/
inductive ReadAnswer where
  | data (bytes : List Byte)
  | endOfFile
  | err (errno : Errno)
  deriving DecidableEq, Repr

/-- The answer to one `accept`, with what happens to the new socket before it is announced: its
constructor or, on Linux, `getsockname` may fail. -/
inductive AcceptAnswer where
  | conn (fd : Fd)
  | setupFails (fd : Fd) (failure : SetupFailure)
  | addressFails (fd : Fd) (errno : Errno)
  | err (errno : Errno)
  deriving DecidableEq, Repr

inductive Label where
  /-- `Socket()`, with the descriptor that the kernel has chosen -/
  | newSocket (fd : Fd) (failure : Option SetupFailure)
  /-- `ServerSocket()` -/
  | newServer (fd : Fd) (failure : Option SetupFailure)
  /-- a constructor that gets no descriptor -/
  | createFails (errno : Errno)
  | connect (i : ℕ) (answer : Answer)
  | write (i : ℕ) (data : List Byte) (answers : List Answer)
  | close (i : ℕ) (answer : Answer)
  | listen (j : ℕ) (bind listen : Answer)
  | closeServer (j : ℕ) (answer : Answer)
  /-- `reactor_task`, with the events that the kernel reports -/
  | poll (batch : List (Event × Target))
  | pollFails
  /-- the next internal handler of the running `trigger` -/
  | handler
  | return_
  | throw_
  | tau
  | read (answers : List ReadAnswer)
  | soError (answer : Answer)
  | flush (answers : List Answer)
  | closing (answer : Answer)
  | accept (answer : AcceptAnswer)
  deriving DecidableEq, Repr

/-! ## System calls -/

/-- What a call on a descriptor that is not open can fail with: not one of the codes for a call
that has to wait. -/
def badErrno (errno : Errno) : Bool := !errno.blocked && decide (errno ≠ .inProgress)

def badFd : Answer → Bool
  | .err errno => badErrno errno
  | .ret _ => false

def ReadAnswer.badFd : ReadAnswer → Bool
  | .err errno => badErrno errno
  | _ => false

/-- The read loop: the data up to the end of file or until the call would block, and whether the
end of file was reached. An error throws the data away. -/
def readLoop : List ReadAnswer → Option (Except Errno (List Byte × Bool))
  | [] => none
  | [.endOfFile] => some (.ok ([], true))
  | [.err errno] => some (if errno.blocked then .ok ([], false) else .error errno)
  | .data bytes :: answers =>
      if 0 < bytes.length ∧ bytes.length ≤ sockBufferSize then
        (readLoop answers).map fun result =>
          result.map fun (rest, closed) => (bytes ++ rest, closed)
      else none
  | _ => none

namespace World

variable {V E F : Type*}

def record (w : World V E F) (h : Happening) : World V E F := { w with log := w.log ++ [h] }

/-- The calls made on a descriptor in one loop. -/
def recordIo (w : World V E F) (t : Target) (call : IoCall) (fd : Fd) (n : ℕ) : World V E F :=
  { w with log := w.log ++ List.replicate n (.io t call fd) }

def modifySocket (w : World V E F) (i : ℕ) (f : SocketObject → SocketObject) : World V E F :=
  { w with sockets := w.sockets.modify i f }

def modifyServer (w : World V E F) (j : ℕ) (f : ServerSocketData → ServerSocketData) :
    World V E F :=
  { w with servers := w.servers.modify j f }

/-- The descriptor is open. -/
def usable (w : World V E F) (fd : Fd) : Bool := (w.descriptors fd).isSome

/-- The kernel may give out this number. -/
def free (w : World V E F) (fd : Fd) : Bool := decide (0 ≤ fd) && (w.descriptors fd).isNone

/-- A descriptor whose object is never finished. -/
def leak (w : World V E F) (fd : Fd) : World V E F :=
  { w with descriptors := Function.update w.descriptors fd (some none) }

/-- `reactor_register` for a new object. -/
def reactorRegister (w : World V E F) (t : Target) (fd : Fd) : World V E F :=
  { w with
    descriptors := Function.update w.descriptors fd (some (some t))
    table := Function.update w.table fd (some (some t)) }

/-- `reactor_unreg` -/
def reactorUnreg (w : World V E F) (fd : Fd) : World V E F :=
  { w with table := Function.update w.table fd none }

/-- A `::close` that succeeds. -/
def closeFd (w : World V E F) (t : Target) (fd : Fd) : World V E F :=
  { w with descriptors := Function.update w.descriptors fd none }.record (.closed t fd)

def addSocket (w : World V E F) (fd : Fd) (status : Status) : World V E F :=
  let sock : SocketObject := { fd := fd, status := status }
  { w with sockets := w.sockets ++ [sock] }.reactorRegister (.socket w.sockets.length) fd

def addServer (w : World V E F) (fd : Fd) : World V E F :=
  let server : ServerSocketData := { fd := fd }
  { w with servers := w.servers ++ [server] }.reactorRegister (.server w.servers.length) fd

/-! ## The operations of user code -/

/-- `Socket()` -/
def newSocket (w : World V E F) (fd : Fd) :
    Option SetupFailure → Option (World V E F × Effect)
  | none => if w.free fd && w.reactorOpen then some (w.addSocket fd .idle, .push []) else none
  | some failure => if w.free fd then some (w.leak fd, .throw failure.failure) else none

/-- `ServerSocket()` -/
def newServer (w : World V E F) (fd : Fd) :
    Option SetupFailure → Option (World V E F × Effect)
  | none => if w.free fd && w.reactorOpen then some (w.addServer fd, .push []) else none
  | some failure => if w.free fd then some (w.leak fd, .throw failure.failure) else none

/-- `Socket::connect` -/
def connect [Blank V] (w : World V E F) (i : ℕ) (answer : Answer) :
    Option (World V E F × Effect) :=
  match w.sockets[i]? with
  | none => none
  | some sock =>
      if sock.status ≠ .idle then
        some ({ w with promises := w.promises.resolvedVoid.1 }, .push [])
      else
        if w.usable sock.fd || badFd answer then
          match answer with
          | .ret _ =>
              let w := w.modifySocket i fun sock => { sock with status := .connected }
              some (w.record (.triggered (.socket i) .connect),
                .push [.user sock.connectHandlers, .connectTail])
          | .err .inProgress =>
              let (promises, p) := w.promises.create
              some ({ w with promises }.modifySocket i fun sock =>
                { sock with
                  status := .connecting
                  connectHandlers := sock.connectHandlers ++ [p] }, .push [])
          | .err errno => some (w, .throw (.socket ⟨.connect, errno⟩))
        else none

/-- `Socket::write` -/
def write [Blank V] (w : World V E F) (i : ℕ) (data : List Byte) (answers : List Answer) :
    Option (World V E F × Effect) :=
  match w.sockets[i]? with
  | none => none
  | some sock =>
      if w.usable sock.fd || answers.all badFd then
        match sock.toSocketData.write w.promises data answers with
        | none => none
        | some r =>
            let w := { w with promises := r.promises }.modifySocket i fun sock =>
              { sock with toSocketData := r.sock }
            let w := w.recordIo (.socket i) .write sock.fd answers.length
            match r.result with
            | .ok _ => some (w, .push [])
            | .error error => some (w, .throw (.socket error))
      else none

/-- `Socket::close` after the descriptor is closed. -/
def closeRest (w : World V E F) (i : ℕ) (sock : SocketObject) : World V E F × Effect :=
  if sock.status = .connected then
    (w.modifySocket i fun sock => { sock with fd := -1, status := .halfClosed }, .push [])
  else if sock.status = .halfClosed ∧ 0 ≤ sock.fd then
    let w := w.modifySocket i fun sock => { sock with status := .closed }
    (w.record (.triggered (.socket i) .close), .push [.user [], .closeTail i])
  else (w, .push [])

/-- `Socket::close` -/
def closeSocket (w : World V E F) (i : ℕ) (answer : Answer) : Option (World V E F × Effect) :=
  match w.sockets[i]? with
  | none => none
  | some sock =>
      let w := w.record (.closeCalled (.socket i))
      if sock.status ≠ .connected ∧ sock.status ≠ .halfClosed then some (w, .push [])
      else if 0 ≤ sock.fd then
        match answer with
        | .err errno => some (w, .throw (.socket ⟨.close, errno⟩))
        | .ret _ =>
            if w.usable sock.fd then some ((w.closeFd (.socket i) sock.fd).closeRest i sock)
            else none
      else some (w.closeRest i sock)

/-- `ServerSocket::listen` -/
def listen (w : World V E F) (j : ℕ) (bind listen : Answer) : Option (World V E F × Effect) :=
  match w.servers[j]? with
  | none => none
  | some server =>
      if server.status ≠ .idle then some (w, .push [])
      else
        match bind, listen with
        | .err errno, _ => some (w, .throw (.socket ⟨.bind, errno⟩))
        | _, .err errno => some (w, .throw (.socket ⟨.listen, errno⟩))
        | _, _ =>
            if w.usable server.fd then
              some (w.modifyServer j fun server => { server with status := .listening }, .push [])
            else none

/-- `ServerSocket::close` -/
def closeServer (w : World V E F) (j : ℕ) (answer : Answer) : Option (World V E F × Effect) :=
  match w.servers[j]? with
  | none => none
  | some server =>
      let w := (w.record (.closeCalled (.server j))).reactorUnreg server.fd
      match answer with
      | .err errno => some (w, .throw (.socket ⟨.close, errno⟩))
      | .ret _ =>
          if w.usable server.fd then
            let w := (w.closeFd (.server j) server.fd).modifyServer j fun server =>
              { server with status := .closed }
            some (w.record (.triggered (.server j) .close), .push [.user []])
          else none

/-- `EPOLL_EVENT_BUFFER_SIZE`, `KEVENT_BUFFER_SIZE` -/
def eventBufferSize : ℕ := 64

/-- The kernel can report these events in one call: each for an open descriptor and for the object
it was registered for; epoll reports a descriptor once, and kqueue reports each filter of a
descriptor once. -/
def reports (backend : Backend) (w : World V E F) (batch : List (Event × Target)) : Bool :=
  decide (batch.length ≤ eventBufferSize) &&
    batch.all (fun (event, t) => decide (w.descriptors event.fd = some (some t))) &&
    match backend with
    | .epoll => decide (batch.map fun (event, _) => event.fd).Nodup
    | .kqueue =>
        batch.all (fun (event, _) => event.readable != event.writable) &&
          decide (batch.map fun (event, _) => (event.fd, event.readable)).Nodup

/-- The call of `epoll_wait` or `kevent` in `reactor_task`. The buffer is shared by all calls. -/
def poll (backend : Backend) (w : World V E F) (batch : List (Event × Target)) :
    Option (World V E F × Effect) :=
  if w.reactorOpen && w.reports backend batch then
    some ({ w with events := batch ++ w.events.drop batch.length },
      .push [.batch 0 batch.length])
  else none

/-! ## The pieces of library functions -/

/-- The test for `EPOLLOUT`. The user's handlers may have called `reactor_task`, which fills the
buffer again. -/
def writableAt (w : World V E F) (slot : Option ℕ) : Bool := slotWritable w.events slot

/-- The head of `reactor_on_event`, called with slot `k` of the buffer. -/
def startEvent (backend : Backend) (w : World V E F) (k : ℕ) (event : Event) : Target → Frame
  | .socket i =>
      if event.readable then .reading i (backend.slot k) w.log.length
      else .writePart i event.writable w.log.length
  | .server j => .accepting j w.log.length

/-- One round of the loop of `reactor_task`: the lookup with `operator[]` inserts a null pointer
where there is no entry, the one with `find` does not. -/
def dispatch (backend : Backend) (w : World V E F) (k n : ℕ) : Option (World V E F × Effect) :=
  if n ≤ k then some (w, .push [])
  else
    match w.events[k]? with
    | none => none
    | some (event, reported) =>
        match backend, w.table event.fd with
        | _, some (some t) =>
            let w := w.record (.delivered event reported (some t))
            some (w, .push [w.startEvent backend k event t, .batch (k + 1) n])
        | _, some none => some (w.record (.delivered event reported none), .crash)
        | .epoll, none =>
            let w := { w with table := Function.update w.table event.fd (some none) }
            some (w.record (.delivered event reported none), .crash)
        | .kqueue, none => some (w, .push [.batch (k + 1) n])

/-- The read loop of `Socket::reactor_on_event`, up to the "data" event. -/
def readEvent (w : World V E F) (i : ℕ) (slot : Option ℕ) (since : ℕ)
    (answers : List ReadAnswer) : Option (World V E F × Effect) :=
  match w.sockets[i]? with
  | none => none
  | some sock =>
      if w.usable sock.fd || answers.all ReadAnswer.badFd then
        let w := w.recordIo (.socket i) .read sock.fd answers.length
        match readLoop answers with
        | none => none
        | some (.error errno) => some (w, .throw (.socket ⟨.read, errno⟩))
        | some (.ok (data, closed)) =>
            let w := if closed then w.record (.endOfFile i) else w
            if data = [] then some (w, .push [.readTail i closed slot since])
            else
              let w := w.modifySocket i fun sock =>
                { sock with bytesRead := sock.bytesRead + data.length }
              some (w.record (.triggered (.socket i) .data),
                .push [.user [], .readTail i closed slot since])
      else none

/-- The end-of-file branch of `Socket::reactor_on_event`. -/
def endOfFile (w : World V E F) (i : ℕ) (closed : Bool) (slot : Option ℕ) (since : ℕ) :
    Option (World V E F × Effect) :=
  match w.sockets[i]? with
  | none => none
  | some sock =>
      if closed then
        if sock.status = .halfClosed then
          let w := w.modifySocket i fun sock => { sock with status := .closed }
          some (w.record (.triggered (.socket i) .close),
            .push [.user [], .closedTail i slot since])
        else
          let w := w.modifySocket i fun sock => { sock with status := .halfClosed }
          some (w.record (.triggered (.socket i) .end_),
            .push [.user [], .readTail i false slot since])
      else some (w, .push [.writePart i (w.writableAt slot) since])

/-- Unregister the number that the socket has now. -/
def unregTail (w : World V E F) (i : ℕ) (frames : List Frame) : Option (World V E F × Effect) :=
  match w.sockets[i]? with
  | none => none
  | some sock => some (w.reactorUnreg sock.fd, .push frames)

/-- The connect branch of `Socket::reactor_on_event`, with the answer of `getsockopt` or the
`SO_ERROR` it has got. -/
def connectEvent (w : World V E F) (i : ℕ) (since : ℕ) (answer : Answer) :
    Option (World V E F × Effect) :=
  match w.sockets[i]? with
  | none => none
  | some sock =>
      if sock.status = .connecting ∧ (w.usable sock.fd || badFd answer) = true then
        if answer = .ret 0 then
          let w := w.modifySocket i fun sock => { sock with status := .connected }
          some (w.record (.triggered (.socket i) .connect), .push [.user sock.connectHandlers])
        else
          some (w.record (.triggered (.socket i) .error), .push [.user [], .errorTail i since])
      else none

/-- The write branch of `Socket::reactor_on_event`. -/
def flushEvent [Blank V] (w : World V E F) (i : ℕ) (answers : List Answer) :
    Option (World V E F × Effect) :=
  match w.sockets[i]? with
  | none => none
  | some sock =>
      if sock.status ≠ .connecting ∧
          (w.usable sock.fd || answers.all badFd) = true then
        match sock.toSocketData.onWritable w.promises answers with
        | none => none
        | some r =>
            let w := { w with promises := r.promises }.modifySocket i fun sock =>
              { sock with toSocketData := r.sock }
            let w := w.recordIo (.socket i) .write sock.fd answers.length
            match r.result with
            | .ok _ => some (w, .push [])
            | .error error => some (w, .throw (.socket error))
      else none

/-- One round of the loop of `ServerSocket::reactor_on_event`. -/
def acceptEvent (backend : Backend) (w : World V E F) (j : ℕ) (since : ℕ) (answer : AcceptAnswer) :
    Option (World V E F × Effect) :=
  match w.servers[j]? with
  | none => none
  | some server =>
      let w := w.recordIo (.server j) .accept server.fd 1
      match answer with
      | .err errno =>
          if errno.blocked then if w.usable server.fd then some (w, .push []) else none
          else some (w, .throw (.socket ⟨.accept, errno⟩))
      | .conn fd =>
          if w.usable server.fd && w.free fd && w.reactorOpen then
            let w := w.addSocket fd .connected
            some (w.record (.triggered (.server j) .connect),
              .push [.user [], .accepting j since])
          else none
      | .setupFails fd failure =>
          if w.usable server.fd && w.free fd then some (w.leak fd, .throw failure.failure)
          else none
      | .addressFails fd errno =>
          if w.usable server.fd && w.free fd && w.reactorOpen && decide (backend = .epoll) then
            some (w.addSocket fd .connected, .throw (.socket ⟨.getLocalAddr, errno⟩))
          else none

end World

/-! ## The machine -/

structure Config (V E F : Type*) where
  world : World V E F := {}
  stack : List Frame := [.user []]

/-- An exception is caught, if at all, by the user code that is nearest on the stack. -/
def unwind : List Frame → List Frame
  | [] => []
  | .user handlers :: rest => .user handlers :: rest
  | _ :: rest => unwind rest

def Config.after {V E F : Type*} (rest : List Frame) : World V E F × Effect → Config V E F
  | (w, .push frames) => ⟨w, frames ++ rest⟩
  | (w, .throw _) => ⟨w, unwind rest⟩
  | (w, .crash) => ⟨w, []⟩

section Machine

variable {V E F : Type*} [Blank V]

/-- A call made by user code. -/
def userStep (backend : Backend) (w : World V E F) : Label → Option (World V E F × Effect)
  | .newSocket fd failure => w.newSocket fd failure
  | .newServer fd failure => w.newServer fd failure
  | .createFails errno => some (w, .throw (.socket ⟨.create, errno⟩))
  | .connect i answer => w.connect i answer
  | .write i data answers => w.write i data answers
  | .close i answer => w.closeSocket i answer
  | .listen j bind listen => w.listen j bind listen
  | .closeServer j answer => w.closeServer j answer
  | .poll batch => w.poll backend batch
  | .pollFails => some ({ w with reactorOpen := false }, .throw (.reactor .query))
  | _ => none

/-- A piece of a library function. -/
def libraryStep (backend : Backend) (w : World V E F) :
    Frame → Label → Option (World V E F × Effect)
  | .closeTail i, .tau => w.unregTail i []
  | .connectTail, .tau => some ({ w with promises := w.promises.resolvedVoid.1 }, .push [])
  | .reading i slot since, .read answers => w.readEvent i slot since answers
  | .readTail i closed slot since, .tau => w.endOfFile i closed slot since
  | .closedTail i slot since, .tau =>
      w.unregTail i [.writePart i (w.writableAt slot) since]
  | .writePart _ false _, .tau => some (w, .push [])
  | .writePart i true since, .soError answer => w.connectEvent i since answer
  | .writePart i true _, .flush answers => w.flushEvent i answers
  | .errorTail i _, .closing answer => w.closeSocket i answer
  | .accepting j since, .accept answer => w.acceptEvent backend j since answer
  | .batch k n, .tau => w.dispatch backend k n
  | _, _ => none

def step (backend : Backend) (c : Config V E F) (l : Label) : Option (Config V E F) :=
  match c.stack, l with
  | .user (p :: handlers) :: rest, .handler =>
      let promises := c.world.promises.resolveImpl p Blank.blank
      some ⟨{ c.world with promises }, .user handlers :: rest⟩
  | .user [] :: frame :: rest, .return_ => some ⟨c.world, frame :: rest⟩
  | .user _ :: frame :: rest, .throw_ => some ⟨c.world, unwind (frame :: rest)⟩
  | .user handlers :: rest, l =>
      (userStep backend c.world l).map (Config.after (.user handlers :: rest))
  | frame :: rest, l => (libraryStep backend c.world frame l).map (Config.after rest)
  | [], _ => none

end Machine

end Libasync.Reactor
