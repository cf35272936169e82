import Libasync.Reactor.Frames

/-! # Calls and pieces without the event buffer

What a call or a piece of a library function does depends neither on the record nor, but for one
flag of one slot, on the event buffer, nor on which half of an event is handled and since when. -/

namespace Libasync.Reactor

open Promise Socket

variable {V E F : Type*}

/-! ### Worlds -/

def Happening.isDelivered : Happening → Bool
  | .delivered .. => true
  | _ => false

/-- Another event buffer, and a record without the deliveries of events. -/
def World.plain (w : World V E F) (f : List (Event × Target) → List (Event × Target)) :
    World V E F :=
  { w with events := f w.events, log := w.log.filter fun h => !h.isDelivered }

/-- The slot of the event buffer that a piece looks at. -/
def Frame.slot? : Frame → Option ℕ
  | .readTail _ _ slot _ | .closedTail _ slot _ => slot
  | _ => none

/-- The world in what a call or a piece has done. -/
def plainly (f : List (Event × Target) → List (Event × Target)) :
    World V E F × Effect → World V E F × Effect :=
  fun (w, eff) => (w.plain f, eff)

namespace World

variable (w : World V E F) (f : List (Event × Target) → List (Event × Target))

@[simp] theorem plain_promises : (w.plain f).promises = w.promises := rfl

@[simp] theorem plain_sockets : (w.plain f).sockets = w.sockets := rfl

@[simp] theorem plain_servers : (w.plain f).servers = w.servers := rfl

@[simp] theorem plain_table : (w.plain f).table = w.table := rfl

@[simp] theorem plain_descriptors : (w.plain f).descriptors = w.descriptors := rfl

@[simp] theorem plain_reactorOpen : (w.plain f).reactorOpen = w.reactorOpen := rfl

@[simp] theorem plain_usable (fd : Fd) : (w.plain f).usable fd = w.usable fd := rfl

@[simp] theorem plain_writableAt (slot : Option ℕ) :
    (w.plain f).writableAt slot = slotWritable (f w.events) slot := rfl

@[simp] theorem plain_free (fd : Fd) : (w.plain f).free fd = w.free fd := rfl

/-- The promises are replaced. -/
@[simp] theorem plain_setPromises (promises : State V E F) :
    (⟨promises, w.sockets, w.servers, w.table, w.descriptors, (w.plain f).events, w.reactorOpen,
      (w.plain f).log⟩ : World V E F) = { w with promises }.plain f := rfl

@[simp] theorem plain_modifySocket (i : ℕ) (g : SocketObject → SocketObject) :
    (w.plain f).modifySocket i g = (w.modifySocket i g).plain f := rfl

@[simp] theorem plain_modifyServer (j : ℕ) (g : ServerSocketData → ServerSocketData) :
    (w.plain f).modifyServer j g = (w.modifyServer j g).plain f := rfl

@[simp] theorem plain_leak (fd : Fd) : (w.plain f).leak fd = (w.leak fd).plain f := rfl

@[simp] theorem plain_addSocket (fd : Fd) (status : Status) :
    (w.plain f).addSocket fd status = (w.addSocket fd status).plain f := rfl

@[simp] theorem plain_addServer (fd : Fd) :
    (w.plain f).addServer fd = (w.addServer fd).plain f := rfl

@[simp] theorem plain_reactorUnreg (fd : Fd) :
    (w.plain f).reactorUnreg fd = (w.reactorUnreg fd).plain f := rfl

theorem plain_record {h : Happening} (hh : h.isDelivered = false) :
    (w.plain f).record h = (w.record h).plain f := by
  simp [plain, record, hh]

theorem plain_record_delivered (event : Event) (reported : Target) (t : Option Target) :
    (w.record (.delivered event reported t)).plain f = w.plain f := by
  simp [plain, record, Happening.isDelivered]

@[simp] theorem plain_triggered (t : Target) (name : EventName) :
    (w.plain f).record (.triggered t name) = (w.record (.triggered t name)).plain f :=
  w.plain_record f rfl

@[simp] theorem plain_closeCalled (t : Target) :
    (w.plain f).record (.closeCalled t) = (w.record (.closeCalled t)).plain f :=
  w.plain_record f rfl

@[simp] theorem plain_recordEof (i : ℕ) :
    (w.plain f).record (.endOfFile i) = (w.record (.endOfFile i)).plain f :=
  w.plain_record f rfl

@[simp] theorem plain_closeFd (t : Target) (fd : Fd) :
    (w.plain f).closeFd t fd = (w.closeFd t fd).plain f := by
  simp [plain, closeFd, record, Happening.isDelivered]

@[simp] theorem plain_recordIo (t : Target) (call : IoCall) (fd : Fd) (n : ℕ) :
    (w.plain f).recordIo t call fd n = (w.recordIo t call fd n).plain f := by
  have hio : (List.replicate n (Happening.io t call fd)).filter (fun h => !h.isDelivered) =
      List.replicate n (.io t call fd) := by
    rw [List.filter_replicate]
    rfl
  simp [plain, recordIo, hio]

/-! ### Calls -/

theorem newSocket_plain (fd : Fd) (failure : Option SetupFailure) :
    (w.plain f).newSocket fd failure = (w.newSocket fd failure).map (plainly f) := by
  cases failure with
  | none =>
      by_cases hfree : (w.free fd && w.reactorOpen) = true <;> simp [newSocket, hfree, plainly]
  | some failure => by_cases hfree : w.free fd = true <;> simp [newSocket, hfree, plainly]

theorem newServer_plain (fd : Fd) (failure : Option SetupFailure) :
    (w.plain f).newServer fd failure = (w.newServer fd failure).map (plainly f) := by
  cases failure with
  | none =>
      by_cases hfree : (w.free fd && w.reactorOpen) = true <;> simp [newServer, hfree, plainly]
  | some failure => by_cases hfree : w.free fd = true <;> simp [newServer, hfree, plainly]

theorem connect_plain [Blank V] (i : ℕ) (answer : Answer) :
    (w.plain f).connect i answer = (w.connect i answer).map (plainly f) := by
  simp only [connect, plain_sockets]
  cases w.sockets[i]? with
  | none => rfl
  | some sock =>
      by_cases hidle : sock.status = .idle
      · by_cases husable : (w.usable sock.fd || badFd answer) = true
        · cases answer with
          | ret count => simp [hidle, husable, plainly]
          | err errno => cases errno <;> simp [hidle, husable, plainly]
        · simp [hidle, husable]
      · simp [hidle, plainly]

theorem write_plain [Blank V] (i : ℕ) (data : List Byte) (answers : List Answer) :
    (w.plain f).write i data answers = (w.write i data answers).map (plainly f) := by
  simp only [write, plain_sockets, plain_usable, plain_promises]
  cases w.sockets[i]? with
  | none => rfl
  | some sock =>
      by_cases husable : (w.usable sock.fd || answers.all badFd) = true
      · simp only [husable, if_true]
        cases hwrite : sock.toSocketData.write w.promises data answers with
        | none => rfl
        | some r => cases hresult : r.result <;> simp [hresult, plainly]
      · simp [husable]

theorem closeRest_plain (i : ℕ) (sock : SocketObject) :
    (w.plain f).closeRest i sock = plainly f (w.closeRest i sock) := by
  by_cases hconnected : sock.status = .connected
  · simp [closeRest, hconnected, plainly]
  · by_cases hhalf : sock.status = .halfClosed ∧ 0 ≤ sock.fd
    · simp [closeRest, hhalf, plainly]
    · simp [closeRest, hconnected, hhalf, plainly]

theorem closeSocket_plain (i : ℕ) (answer : Answer) :
    (w.plain f).closeSocket i answer = (w.closeSocket i answer).map (plainly f) := by
  simp only [closeSocket, plain_sockets, plain_closeCalled, plain_usable, plain_closeFd,
    closeRest_plain]
  cases w.sockets[i]? with
  | none => rfl
  | some sock =>
      by_cases hclosed : sock.status ≠ .connected ∧ sock.status ≠ .halfClosed
      · simp [hclosed, plainly]
      · simp only [hclosed, if_false]
        by_cases hfd : 0 ≤ sock.fd
        · cases answer with
          | err errno => simp [hfd, plainly]
          | ret count =>
              by_cases husable : (w.record (.closeCalled (.socket i))).usable sock.fd = true
              · simp [hfd, husable]
              · simp [hfd, husable]
        · simp [hfd]

theorem listen_plain (j : ℕ) (bind listen : Answer) :
    (w.plain f).listen j bind listen = (w.listen j bind listen).map (plainly f) := by
  simp only [World.listen, plain_servers, plain_usable, plain_modifyServer]
  cases w.servers[j]? with
  | none => rfl
  | some server =>
      by_cases hidle : server.status = .idle
      · cases bind with
        | err errno => simp [hidle, plainly]
        | ret bound =>
            cases listen with
            | err errno => simp [hidle, plainly]
            | ret count =>
                by_cases husable : w.usable server.fd = true <;> simp [hidle, husable, plainly]
      · simp [hidle, plainly]

theorem closeServer_plain (j : ℕ) (answer : Answer) :
    (w.plain f).closeServer j answer = (w.closeServer j answer).map (plainly f) := by
  simp only [closeServer, plain_servers, plain_closeCalled, plain_reactorUnreg, plain_usable,
    plain_closeFd, plain_modifyServer, plain_triggered]
  cases w.servers[j]? with
  | none => rfl
  | some server =>
      cases answer with
      | err errno => rfl
      | ret count =>
          by_cases husable :
              ((w.record (.closeCalled (.server j))).reactorUnreg server.fd).usable server.fd = true
          · simp [husable, plainly]
          · simp [husable]

/-! ### Pieces -/

theorem unregTail_plain (i : ℕ) (frames : List Frame) :
    (w.plain f).unregTail i frames = (w.unregTail i frames).map (plainly f) := by
  simp only [unregTail, plain_sockets, plain_reactorUnreg]
  cases w.sockets[i]? with
  | none | some => rfl

theorem readEvent_plain (i : ℕ) (slot : Option ℕ) (since : ℕ) (answers : List ReadAnswer) :
    (w.plain f).readEvent i slot since answers =
      (w.readEvent i slot since answers).map (plainly f) := by
  simp only [readEvent, plain_sockets, plain_usable, plain_recordIo]
  cases w.sockets[i]? with
  | none => rfl
  | some sock =>
      by_cases husable : (w.usable sock.fd || answers.all ReadAnswer.badFd) = true
      · simp only [husable, if_true]
        cases hloop : readLoop answers with
        | none => rfl
        | some result =>
            cases result with
            | error errno => rfl
            | ok result =>
                obtain ⟨data, closed⟩ := result
                by_cases hdata : data = []
                · cases closed <;> simp [hdata, plainly]
                · cases closed <;> simp [hdata, plainly]
      · simp [husable]

theorem endOfFile_plain (i : ℕ) (closed : Bool) {slot : Option ℕ} (since : ℕ)
    (hslot : slotWritable (f w.events) slot = slotWritable w.events slot) :
    (w.plain f).endOfFile i closed slot since =
      (w.endOfFile i closed slot since).map (plainly f) := by
  simp only [endOfFile, plain_sockets, plain_modifySocket, plain_triggered, plain_writableAt, hslot]
  cases w.sockets[i]? with
  | none => rfl
  | some sock =>
      cases closed with
      | false => rfl
      | true => by_cases hhalf : sock.status = .halfClosed <;> simp [hhalf, plainly]

theorem connectEvent_plain (i since : ℕ) (answer : Answer) :
    (w.plain f).connectEvent i since answer =
      (w.connectEvent i since answer).map (plainly f) := by
  simp only [connectEvent, plain_sockets, plain_usable, plain_modifySocket, plain_triggered]
  cases w.sockets[i]? with
  | none => rfl
  | some sock =>
      by_cases hconnecting : sock.status = .connecting ∧ (w.usable sock.fd || badFd answer) = true
      · simp only [if_pos hconnecting]
        by_cases hanswer : answer = .ret 0
        · simp only [if_pos hanswer]
          rfl
        · simp only [if_neg hanswer]
          rfl
      · simp only [if_neg hconnecting]
        rfl

theorem flushEvent_plain [Blank V] (i : ℕ) (answers : List Answer) :
    (w.plain f).flushEvent i answers = (w.flushEvent i answers).map (plainly f) := by
  simp only [flushEvent, plain_sockets, plain_promises]
  cases w.sockets[i]? with
  | none => rfl
  | some sock =>
      by_cases husable : sock.status ≠ .connecting ∧
          (w.usable sock.fd || answers.all badFd) = true
      · have hplain : sock.status ≠ .connecting ∧
            ((w.plain f).usable sock.fd || answers.all badFd) = true := husable
        simp only [if_pos husable, if_pos hplain]
        cases hflush : sock.toSocketData.onWritable w.promises answers with
        | none => rfl
        | some r => cases hresult : r.result <;> simp [hresult, plainly]
      · have hplain : ¬ (sock.status ≠ .connecting ∧
            ((w.plain f).usable sock.fd || answers.all badFd) = true) := husable
        simp only [if_neg husable, if_neg hplain]
        rfl

theorem acceptEvent_plain (backend : Backend) (j since : ℕ) (answer : AcceptAnswer) :
    (w.plain f).acceptEvent backend j since answer =
      (w.acceptEvent backend j since answer).map (plainly f) := by
  simp only [acceptEvent, plain_servers, plain_recordIo, plain_usable, plain_free,
    plain_reactorOpen, plain_addSocket, plain_leak, plain_triggered]
  cases w.servers[j]? with
  | none => rfl
  | some server =>
      simp only
      cases answer with
      | err errno =>
          by_cases hblocked : errno.blocked = true
          · simp only [hblocked, if_true]
            split <;> rfl
          · simp [hblocked, plainly]
      | conn fd | setupFails fd failure | addressFails fd errno =>
          simp only
          split <;> rfl

end World

section Steps

variable [Blank V] (w : World V E F) (f : List (Event × Target) → List (Event × Target))
  (backend : Backend) {frame : Frame} {l : Label}

theorem userStep_plain (hpoll : ∀ batch, l ≠ .poll batch) :
    userStep backend (w.plain f) l = (userStep backend w l).map (plainly f) := by
  cases l with
  | newSocket fd failure => exact w.newSocket_plain f fd failure
  | newServer fd failure => exact w.newServer_plain f fd failure
  | connect i answer => exact w.connect_plain f i answer
  | write i data answers => exact w.write_plain f i data answers
  | close i answer => exact w.closeSocket_plain f i answer
  | listen j bind listen => exact w.listen_plain f j bind listen
  | closeServer j answer => exact w.closeServer_plain f j answer
  | poll batch => exact absurd rfl (hpoll batch)
  | createFails | pollFails | handler | return_ | throw_ | tau | read | soError | flush | closing
  | accept => rfl

theorem libraryStep_plain (hbatch : ∀ k n, frame ≠ .batch k n)
    (hslot : slotWritable (f w.events) frame.slot? = slotWritable w.events frame.slot?) :
    libraryStep backend (w.plain f) frame l =
      (libraryStep backend w frame l).map (plainly f) := by
  simp only [libraryStep]
  split
  · exact w.unregTail_plain f _ _
  · rfl
  · exact w.readEvent_plain f _ _ _ _
  · exact w.endOfFile_plain f _ _ _ hslot
  · rename_i slot since
    have hflag : (w.plain f).writableAt slot = w.writableAt slot := hslot
    rw [hflag]
    exact w.unregTail_plain f _ _
  · rfl
  · exact w.connectEvent_plain f _ _ _
  · exact w.flushEvent_plain f _ _
  · exact w.closeSocket_plain f _ _
  · exact w.acceptEvent_plain f _ _ _ _
  · exact absurd rfl (hbatch _ _)
  · rfl

/-- The event buffer is left alone. -/
theorem userStep_events {r : World V E F × Effect} (hpoll : ∀ batch, l ≠ .poll batch)
    (h : userStep backend w l = some r) : r.1.events = w.events := by
  have hkept := userStep_plain w (fun _ => w.events) backend hpoll
  have hsame := userStep_plain w id backend hpoll
  rw [h] at hkept hsame
  have heq := congrArg (fun x => x.map fun r => r.1.events) (hkept.symm.trans hsame)
  exact (Option.some.inj heq).symm

theorem libraryStep_events {r : World V E F × Effect} (hbatch : ∀ k n, frame ≠ .batch k n)
    (h : libraryStep backend w frame l = some r) : r.1.events = w.events := by
  have hkept := libraryStep_plain w (fun _ => w.events) backend (l := l) hbatch rfl
  have hsame := libraryStep_plain w id backend (l := l) hbatch rfl
  rw [h] at hkept hsame
  have heq := congrArg (fun x => x.map fun r => r.1.events) (hkept.symm.trans hsame)
  exact (Option.some.inj heq).symm

end Steps

/-! ### The half of an event -/

/-- The same frame for one half of an event: the other one is not looked for. -/
def Frame.mark (writable : Bool) (since : ℕ) : Frame → Frame
  | .reading i _ _ => .reading i none since
  | .readTail i closed _ _ => .readTail i closed none since
  | .closedTail i _ _ => .closedTail i none since
  | .writePart i _ _ => .writePart i writable since
  | .errorTail i _ => .errorTail i since
  | .accepting j _ => .accepting j since
  | frame => frame

/-- The frame goes on with this half of the event. -/
def Frame.marks (writable : Bool) : Frame → Bool
  | .readTail .. | .closedTail .. => !writable
  | .writePart _ b _ => b == writable
  | _ => true

theorem Frame.mark_slot (frame : Frame) (writable : Bool) (since : ℕ) :
    (frame.mark writable since).slot? = none := by
  cases frame <;> rfl

def Effect.mark (writable : Bool) (since : ℕ) : Effect → Effect
  | .push frames => .push (frames.map (Frame.mark writable since))
  | eff => eff

section Marks

variable {w w' : World V E F} {frame : Frame} {l : Label}

/-- The outcome of a piece for the other half. -/
def marked (writable : Bool) (since : ℕ) : World V E F × Effect → World V E F × Effect :=
  fun (w, eff) => (w, eff.mark writable since)

theorem unregTail_mark (i : ℕ) (frames : List Frame) (writable : Bool) (since : ℕ) :
    w.unregTail i (frames.map (Frame.mark writable since)) =
      (w.unregTail i frames).map (marked writable since) := by
  simp only [World.unregTail]
  cases w.sockets[i]? with
  | none | some => rfl

theorem readEvent_mark (i : ℕ) (slot : Option ℕ) (s : ℕ) (answers : List ReadAnswer)
    (writable : Bool) (since : ℕ) : w.readEvent i none since answers =
      (w.readEvent i slot s answers).map (marked writable since) := by
  simp only [World.readEvent]
  cases w.sockets[i]? with
  | none => rfl
  | some sock =>
      by_cases husable : (w.usable sock.fd || answers.all ReadAnswer.badFd) = true
      · simp only [husable, if_true]
        cases hloop : readLoop answers with
        | none => rfl
        | some result =>
            cases result with
            | error errno => rfl
            | ok result =>
                obtain ⟨data, closed⟩ := result
                by_cases hdata : data = [] <;> simp [hdata, marked, Effect.mark, Frame.mark]
      · simp [husable]

theorem endOfFile_mark (i : ℕ) (closed : Bool) (slot : Option ℕ) (s since : ℕ) :
    w.endOfFile i closed none since =
      (w.endOfFile i closed slot s).map (marked false since) := by
  simp only [World.endOfFile]
  cases w.sockets[i]? with
  | none => rfl
  | some sock =>
      cases closed with
      | false => rfl
      | true =>
          by_cases hhalf : sock.status = .halfClosed <;>
            simp [hhalf, marked, Effect.mark, Frame.mark]

theorem connectEvent_mark (i s : ℕ) (answer : Answer) (writable : Bool) (since : ℕ) :
    w.connectEvent i since answer =
      (w.connectEvent i s answer).map (marked writable since) := by
  simp only [World.connectEvent]
  cases w.sockets[i]? with
  | none => rfl
  | some sock =>
      by_cases hconnecting : sock.status = .connecting ∧ (w.usable sock.fd || badFd answer) = true
      · simp only [if_pos hconnecting]
        by_cases hanswer : answer = .ret 0 <;> simp [hanswer, marked, Effect.mark, Frame.mark]
      · simp only [if_neg hconnecting]
        rfl

theorem flushEvent_mark [Blank V] (i : ℕ) (answers : List Answer) (writable : Bool) (since : ℕ) :
    (w.flushEvent i answers).map (marked writable since) = w.flushEvent i answers := by
  cases h : w.flushEvent i answers with
  | none => rfl
  | some r =>
      simp only [World.flushEvent] at h
      repeat' split at h
      all_goals simp only [Option.some.injEq, reduceCtorEq] at h
      all_goals
        rw [← h]
        rfl

theorem acceptEvent_mark (backend : Backend) (j s : ℕ) (answer : AcceptAnswer) (writable : Bool)
    (since : ℕ) : w.acceptEvent backend j since answer =
      (w.acceptEvent backend j s answer).map (marked writable since) := by
  simp only [World.acceptEvent]
  cases w.servers[j]? with
  | none => rfl
  | some server =>
      simp only
      cases answer with
      | err errno =>
          by_cases hblocked : errno.blocked = true
          · simp only [hblocked, if_true]
            split <;> rfl
          · simp [hblocked, marked, Effect.mark]
      | conn fd | setupFails fd failure | addressFails fd errno =>
          simp only
          split <;> rfl

theorem closeSocket_mark (i : ℕ) (answer : Answer) (writable : Bool) (since : ℕ) :
    (w.closeSocket i answer).map (marked writable since) = w.closeSocket i answer := by
  cases h : w.closeSocket i answer with
  | none => rfl
  | some r =>
      obtain ⟨w', eff⟩ := r
      cases eff with
      | push frames => rcases World.closeSocket_frames h with rfl | rfl <;> rfl
      | throw | crash => rfl

variable [Blank V]

/-- A piece does the same for the other half. -/
theorem libraryStep_mark {backend : Backend} (hbatch : ∀ k n, frame ≠ .batch k n)
    {writable : Bool} (since : ℕ) (hmark : frame.marks writable = true) :
    libraryStep backend w (frame.mark writable since) l =
      (libraryStep backend w frame l).map (marked writable since) := by
  cases frame with
  | user handlers => simp [Frame.mark, libraryStep_user]
  | closeTail i =>
      cases l with
      | tau => exact unregTail_mark i [] writable since
      | _ => rfl
  | connectTail => cases l <;> rfl
  | reading i slot s =>
      cases l with
      | read answers => exact readEvent_mark i slot s answers writable since
      | _ => rfl
  | readTail i closed slot s =>
      obtain rfl : writable = false := by simpa [Frame.marks] using hmark
      cases l with
      | tau => exact endOfFile_mark i closed slot s since
      | _ => rfl
  | closedTail i slot s =>
      obtain rfl : writable = false := by simpa [Frame.marks] using hmark
      cases l with
      | tau => exact unregTail_mark i [.writePart i (w.writableAt slot) s] false since
      | _ => rfl
  | writePart i b s =>
      obtain rfl : b = writable := by simpa [Frame.marks] using hmark
      cases b with
      | false => cases l <;> rfl
      | true =>
          cases l with
          | soError answer => exact connectEvent_mark i s answer true since
          | flush answers => exact (flushEvent_mark i answers true since).symm
          | _ => rfl
  | errorTail i s =>
      cases l with
      | closing answer => exact (closeSocket_mark i answer writable since).symm
      | _ => rfl
  | accepting j s =>
      cases l with
      | accept answer => exact acceptEvent_mark backend j s answer writable since
      | _ => rfl
  | batch k n => exact absurd rfl (hbatch k n)

/-- Only the loop of `reactor_task` and the address of an accepted socket depend on the backend. -/
theorem libraryStep_backend (hbatch : ∀ k n, frame ≠ .batch k n)
    (haddress : ∀ fd errno, l ≠ .accept (.addressFails fd errno)) :
    libraryStep .kqueue w frame l = libraryStep .epoll w frame l := by
  cases frame with
  | accepting j since =>
      cases l with
      | accept answer =>
          cases answer with
          | addressFails fd errno => exact absurd rfl (haddress fd errno)
          | conn | setupFails | err => rfl
      | _ => rfl
  | batch k n => exact absurd rfl (hbatch k n)
  | writePart i writable since =>
      cases writable with
      | false | true => cases l <;> rfl
  | user | closeTail | connectTail | reading | readTail | closedTail | errorTail =>
      cases l <;> rfl

end Marks

end Libasync.Reactor
