import Libasync.Reactor.Connecting
import Libasync.Reactor.Dispatch
import Libasync.Reactor.Numbers

/-! # Wake-ups for buffered output

With `EPOLLET` the kernel reports `EPOLLOUT` once, and again only after a `::write` that would have
blocked. Each report has to be followed by an attempt to send what is in the buffer. -/

namespace Libasync.Reactor

open Promise Socket Automaton

variable {V E F : Type*}

/-! ### What is to hold -/

/-- `epoll_wait` has reported `EPOLLOUT` for the socket, or `::write` was called for it. -/
inductive Output where
  | ready
  | write (exit : FlushExit)
  deriving DecidableEq, Repr

def reportsWritable (i : ℕ) (e : Event × Target) : Bool :=
  e.1.writable && decide (e.2 = .socket i)

def Config.output? (i : ℕ) (c : Config V E F) (l : Label) : Option Output :=
  match c.stack, l with
  | .user _ :: _, .poll batch => if batch.any (reportsWritable i) then some .ready else none
  | .user _ :: _, .write k _ answers => if k = i then some (.write (exitOf answers)) else none
  | .writePart k true _ :: _, .flush answers =>
      if k = i ∧ answers ≠ [] then some (.write (exitOf answers)) else none
  | _, _ => none

/-- The frame has an `EPOLLOUT` event of the socket still to handle. Before the test for
`EPOLLOUT` this is a matter of what is in the slot of the event now. -/
def Frame.handles (events : List (Event × Target)) (i : ℕ) (frame : Frame) : Bool :=
  match frame with
  | .reading k slot _ | .readTail k _ slot _ | .closedTail k slot _ =>
      decide (k = i) && slotWritable events slot
  | .writePart k writable _ => decide (k = i) && writable
  | .batch .. => (frame.window events).any (reportsWritable i)
  | _ => false

/-- An `EPOLLOUT` event that was reported for the socket is still to be handled. -/
def Config.pending (i : ℕ) (c : Config V E F) : Bool :=
  c.stack.any (Frame.handles c.world.events i)

/-- The socket is open, and there are bytes in its buffer, or would be with these. -/
def World.holdsBytes (w : World V E F) (i : ℕ) (data : List Byte) : Bool :=
  (w.sockets[i]?).any fun sock =>
    decide (w.descriptors sock.fd = some (some (.socket i))) && !(sock.buffer ++ data).isEmpty

def connectedStatus (status : Status) : Bool :=
  decide (status = .connected ∨ status = .halfClosed)

section Machine

variable [Blank V]

/-- When bytes wait in the buffer of an open connected socket, and no reported event is still to be
handled, then the last `::write` came after the last report and would have blocked. -/
def KeepsWakeup (i : ℕ) (ls : List Label) (c : Config V E F) : Prop :=
  c.stack ≠ [] → c.world.holdsBytes i [] = true → (c.world.status? i).any connectedStatus = true →
    c.pending i = false →
      (observed (step .epoll) (Config.output? i) ({} : Config V E F) ls).getLast? =
        some (.write .blocked)

end Machine

/-! ### The condition -/

/-- The connect branch takes the event while bytes wait. -/
def Config.connectsOnly (i : ℕ) (c : Config V E F) (l : Label) : Bool :=
  match c.stack, l with
  | .writePart k true _ :: _, .soError (.ret 0) => decide (k = i) && c.world.holdsBytes i []
  | _, _ => false

/-- A `::write` fails, and bytes stay in the buffer. -/
def Config.failsWrite (i : ℕ) (c : Config V E F) (l : Label) : Bool :=
  match c.stack, l with
  | .user _ :: _, .write k data answers =>
      decide (k = i) && (exitOf answers).isFailed && c.world.holdsBytes i data
  | .writePart k true _ :: _, .flush answers =>
      decide (k = i) && (exitOf answers).isFailed && c.world.holdsBytes i []
  | _, _ => false

def AcceptAnswer.fails : AcceptAnswer → Bool
  | .conn _ => false
  | .err errno => !errno.blocked
  | .setupFails .. | .addressFails .. => true

/-- An exception leaves the frame on top of the stack. -/
def Config.throws (c : Config V E F) (l : Label) : Bool :=
  match c.stack, l with
  | .user _ :: _ :: _, .throw_ => true
  | .reading .. :: _, .read answers =>
      match readLoop answers with
      | some (.error _) => true
      | _ => false
  | .writePart .. :: _, .flush answers => (exitOf answers).isFailed
  | .errorTail i _ :: _, .closing (.err _) =>
      (c.world.core? i).any fun core => connectedStatus core.2 && decide (0 ≤ core.1)
  | .accepting .. :: _, .accept answer => answer.fails
  | _, _ => false

/-- The frames that an exception passes. -/
def unwound : List Frame → List Frame
  | .user _ :: rest => rest.takeWhile fun frame => !frame.isUser
  | stack => stack.takeWhile fun frame => !frame.isUser

/-- An exception passes an event that is still to be handled while bytes wait. -/
def Config.abandonsEvent (i : ℕ) (c : Config V E F) (l : Label) : Bool :=
  c.throws l && (unwound c.stack).any (Frame.handles c.world.events i) && c.world.holdsBytes i []

/-- A handler calls `reactor_task`, which overwrites an event that is still to be handled, or the
one that is being handled before it is tested for `EPOLLOUT`, while bytes wait. -/
def Config.overwritesEvent (i : ℕ) (c : Config V E F) (l : Label) : Bool :=
  match c.stack, l with
  | .user _ :: rest, .poll batch =>
      let events := batch ++ c.world.events.drop batch.length
      rest.any (Frame.handles c.world.events i) &&
        !(.batch 0 batch.length :: rest).any (Frame.handles events i) && c.world.holdsBytes i []
  | _, _ => false

/-- An end of file ends a connection attempt whose failure was reported while bytes wait. -/
def Config.endsRefused (i : ℕ) (c : Config V E F) (l : Label) : Bool :=
  match c.stack, l with
  | .readTail k true slot _ :: _, .tau =>
      decide (k = i ∧ c.world.status? i = some .connecting ∧ .error ∈ fired i c.world.log) &&
        !c.world.writableAt slot && c.world.holdsBytes i []
  | _, _ => false

structure Config.SendsBuffer (i : ℕ) (c : Config V E F) (l : Label) : Prop where
  connects : c.connectsOnly i l = false
  fails : c.failsWrite i l = false
  abandons : c.abandonsEvent i l = false
  overwrites : c.overwritesEvent i l = false
  refused : c.endsRefused i l = false

theorem Config.sendsBuffer_iff {i : ℕ} {c : Config V E F} {l : Label} :
    c.SendsBuffer i l ↔ (c.connectsOnly i l || c.failsWrite i l || c.abandonsEvent i l ||
      c.overwritesEvent i l || c.endsRefused i l) = false := by
  simp only [Bool.or_eq_false_iff]
  constructor
  · rintro ⟨h₁, h₂, h₃, h₄, h₅⟩
    exact ⟨⟨⟨⟨h₁, h₂⟩, h₃⟩, h₄⟩, h₅⟩
  · rintro ⟨⟨⟨⟨h₁, h₂⟩, h₃⟩, h₄⟩, h₅⟩
    exact ⟨h₁, h₂, h₃, h₄, h₅⟩

instance (i : ℕ) (c : Config V E F) (l : Label) : Decidable (c.SendsBuffer i l) :=
  decidable_of_iff _ Config.sendsBuffer_iff.symm

section Machine

variable [Blank V] {backend : Backend} {c c' : Config V E F} {l : Label} {i : ℕ}

/-! ### Events that are still to be handled -/

omit [Blank V] in
theorem Frame.handles_batch {events : List (Event × Target)} {k n : ℕ} :
    (Frame.batch k n).handles events i = true ↔
      ∃ j e, k ≤ j ∧ j < n ∧ events[j]? = some e ∧ reportsWritable i e = true := by
  simp only [Frame.handles, List.any_eq_true, Frame.mem_window]
  constructor
  · rintro ⟨e, ⟨j, hk, hn, hj⟩, he⟩
    exact ⟨j, e, hk, hn, hj, he⟩
  · rintro ⟨j, e, hk, hn, hj, he⟩
    exact ⟨e, ⟨j, hk, hn, hj⟩, he⟩

omit [Blank V] in
theorem handles_startEvent {w : World V E F} {k : ℕ} {event : Event} {reported : Target}
    {events : List (Event × Target)} (hget : events[k]? = some (event, reported))
    (h : event.writable = true) :
    (w.startEvent .epoll k event (.socket i)).handles events i = true := by
  simp only [World.startEvent]
  split <;> simp [Frame.handles, Backend.slot, slotWritable, hget, h]

omit [Blank V] in
/-- The loop of `reactor_task` hands an event over. -/
theorem World.dispatch_handles {w w' : World V E F} {k n : ℕ} {frames : List Frame}
    (h : w.dispatch .epoll k n = some (w', .push frames)) (hnum : w.Numbered i) (hs : w.Sound)
    (hopen : ∃ fd, w.fd? i = some fd ∧ w.descriptors fd = some (some (.socket i)))
    (hframe : (Frame.batch k n).handles w.events i = true) :
    frames.any (Frame.handles w.events i) = true := by
  obtain ⟨j, e, hk, hn, hj, he⟩ := Frame.handles_batch.mp hframe
  cases World.dispatched h with
  | done le => omega
  | skipped event reported lt get kqueue => cases kqueue
  | delivered event reported t lt get entry =>
      rcases Nat.eq_or_lt_of_le hk with rfl | hlt
      · -- the event of this round
        obtain rfl : (event, reported) = e := Option.some.inj (get.symm.trans hj)
        simp only [reportsWritable, Bool.and_eq_true, decide_eq_true_eq] at he
        obtain ⟨hwritable, rfl⟩ := he
        have htable := hnum.entry hs hopen (List.mem_of_getElem? hj) rfl
        obtain rfl : t = .socket i := by simpa [entry] using htable
        simp [handles_startEvent get hwritable]
      · have hlater : (Frame.batch (k + 1) n).handles w.events i = true :=
          Frame.handles_batch.mpr ⟨j, e, hlt, hn, hj, he⟩
        simp [hlater]

/-- A piece that has an event to handle keeps it to be handled, up to the test for `EPOLLOUT`. -/
theorem libraryStep_handles {w w' : World V E F} {frame : Frame} {frames : List Frame}
    (h : libraryStep .epoll w frame l = some (w', .push frames)) (hnum : w.Numbered i)
    (hs : w.Sound)
    (hopen : ∃ fd, w.fd? i = some fd ∧ w.descriptors fd = some (some (.socket i)))
    (hframe : frame.handles w.events i = true) :
    (∃ since, frame = .writePart i true since) ∨ frames.any (Frame.handles w.events i) = true := by
  simp only [libraryStep] at h
  split at h
  case h_3 k slot since answers =>
    right
    simp only [Frame.handles, Bool.and_eq_true, decide_eq_true_eq] at hframe
    obtain ⟨rfl, hslot⟩ := hframe
    simp only [World.readEvent] at h
    repeat' split at h
    all_goals simp only [Option.some.injEq, Prod.mk.injEq, Effect.push.injEq, reduceCtorEq,
      and_false] at h
    all_goals simp [← h.2, Frame.handles, hslot]
  case h_4 k closed slot since =>
    right
    simp only [Frame.handles, Bool.and_eq_true, decide_eq_true_eq] at hframe
    obtain ⟨rfl, hslot⟩ := hframe
    simp only [World.endOfFile] at h
    repeat' split at h
    all_goals simp only [Option.some.injEq, Prod.mk.injEq, Effect.push.injEq, reduceCtorEq] at h
    all_goals simp [← h.2, Frame.handles, World.writableAt, hslot]
  case h_5 k slot since =>
    right
    simp only [Frame.handles, Bool.and_eq_true, decide_eq_true_eq] at hframe
    obtain ⟨rfl, hslot⟩ := hframe
    simp only [World.unregTail] at h
    split at h
    · cases h
    · simp only [Option.some.injEq, Prod.mk.injEq, Effect.push.injEq] at h
      simp [← h.2, Frame.handles, World.writableAt, hslot]
  case h_7 k since answer | h_8 k since answers =>
    simp only [Frame.handles, Bool.and_true, decide_eq_true_eq] at hframe
    exact .inl ⟨since, by rw [hframe]⟩
  case h_11 k n => exact .inr (World.dispatch_handles h hnum hs hopen hframe)
  case h_12 => cases h
  all_goals simp [Frame.handles] at hframe

/-! ### Exceptions of the library -/

def Effect.isThrow : Effect → Bool
  | .throw _ => true
  | .push _ | .crash => false

theorem Effect.isThrow_iff {eff : Effect} :
    eff.isThrow = true ↔ ∃ failure, eff = .throw failure := by
  cases eff <;> simp [Effect.isThrow]

namespace World

variable {w w' : World V E F} {eff : Effect} {k since : ℕ}

omit [Blank V] in
theorem readEvent_isThrow {slot : Option ℕ} {answers : List ReadAnswer}
    (h : w.readEvent k slot since answers = some (w', eff)) :
    eff.isThrow = match readLoop answers with
      | some (.error _) => true
      | _ => false := by
  simp only [readEvent] at h
  split at h
  · cases h
  · split at h
    · cases hloop : readLoop answers with
      | none => simp [hloop] at h
      | some result =>
          cases result with
          | error errno =>
              simp only [hloop, Option.some.injEq, Prod.mk.injEq] at h
              obtain ⟨-, rfl⟩ := h
              rfl
          | ok result =>
              simp only [hloop] at h
              split at h <;> obtain ⟨-, rfl⟩ := Prod.mk.inj (Option.some.inj h) <;> rfl
    · cases h

theorem flushEvent_isThrow {answers : List Answer}
    (h : w.flushEvent k answers = some (w', eff)) : eff.isThrow = (exitOf answers).isFailed := by
  cases hget : w.sockets[k]? with
  | none => simp [flushEvent, hget] at h
  | some sock =>
      obtain ⟨-, r, hr, -⟩ := flushEvent_result h hget
      simp only [flushEvent, hget, hr, Option.ite_none_right_eq_some] at h
      cases SocketData.flushed hr with
      | failed flush errno loop exit_eq =>
          obtain ⟨-, rfl⟩ := Prod.mk.inj (Option.some.inj h.2)
          rw [← flushLoop_exit loop, exit_eq]
          rfl
      | flushed flush items s' loop exit_eq =>
          obtain ⟨-, rfl⟩ := Prod.mk.inj (Option.some.inj h.2)
          rw [← flushLoop_exit loop]
          cases hexit : flush.exit with
          | failed errno => exact absurd hexit (exit_eq errno)
          | completed | blocked => rfl

omit [Blank V] in
theorem closeRest_isThrow (w : World V E F) (k : ℕ) (sock : SocketObject) :
    (w.closeRest k sock).2.isThrow = false := by
  simp only [closeRest]
  repeat' split
  all_goals rfl

omit [Blank V] in
/-- `Socket::close` throws if the kernel fails to close the number of an open socket. -/
theorem closeSocket_isThrow {answer : Answer} (h : w.closeSocket k answer = some (w', eff)) :
    eff.isThrow = match answer with
      | .err _ => (w.core? k).any fun core => connectedStatus core.2 && decide (0 ≤ core.1)
      | .ret _ => false := by
  cases hget : w.sockets[k]? with
  | none => simp [closeSocket, hget] at h
  | some sock =>
      simp only [closeSocket, hget] at h
      by_cases hopen : sock.status ≠ .connected ∧ sock.status ≠ .halfClosed
      · rw [if_pos hopen] at h
        obtain ⟨-, rfl⟩ := Prod.mk.inj (Option.some.inj h)
        cases answer <;> simp [core?_eq _ hget, connectedStatus, hopen, Effect.isThrow]
      · have hconnected : connectedStatus sock.status = true := by
          simpa only [connectedStatus, decide_eq_true_eq, not_and_or, not_not] using hopen
        rw [if_neg hopen] at h
        by_cases hfd : 0 ≤ sock.fd
        · rw [if_pos hfd] at h
          cases answer with
          | err errno =>
              obtain ⟨-, rfl⟩ := Prod.mk.inj (Option.some.inj h)
              simp [core?_eq _ hget, hconnected, hfd, Effect.isThrow]
          | ret count =>
              simp only [Option.ite_none_right_eq_some, Option.some.injEq] at h
              have heff := closeRest_isThrow
                ((w.record (.closeCalled (.socket k))).closeFd (.socket k) sock.fd) k sock
              rw [h.2] at heff
              exact heff
        · rw [if_neg hfd] at h
          have heff := closeRest_isThrow (w.record (.closeCalled (.socket k))) k sock
          rw [Option.some.inj h] at heff
          cases answer <;> simp [core?_eq _ hget, hfd, heff]

omit [Blank V] in
theorem acceptEvent_isThrow {answer : AcceptAnswer}
    (h : w.acceptEvent backend k since answer = some (w', eff)) :
    eff.isThrow = answer.fails := by
  simp only [acceptEvent] at h
  split at h
  · cases h
  · cases answer with
    | err errno =>
        cases hblocked : errno.blocked with
        | true =>
            simp only [hblocked, if_true, Option.ite_none_right_eq_some, Option.some.injEq,
              Prod.mk.injEq] at h
            obtain ⟨-, -, rfl⟩ := h
            simp [AcceptAnswer.fails, hblocked, Effect.isThrow]
        | false =>
            simp only [hblocked, Bool.false_eq_true, if_false, Option.some.injEq,
              Prod.mk.injEq] at h
            obtain ⟨-, rfl⟩ := h
            simp [AcceptAnswer.fails, hblocked, Effect.isThrow]
    | conn fd | setupFails fd failure | addressFails fd errno =>
        simp only [Option.ite_none_right_eq_some, Option.some.injEq, Prod.mk.injEq] at h
        obtain ⟨-, -, rfl⟩ := h
        rfl

end World

/-- The pieces of the library from which an exception comes. -/
theorem libraryStep_throws {w w' : World V E F} {frame : Frame} {rest : List Frame}
    {eff : Effect} (h : libraryStep backend w frame l = some (w', eff)) :
    Config.throws (⟨w, frame :: rest⟩ : Config V E F) l = eff.isThrow := by
  simp only [libraryStep] at h
  split at h
  case h_3 => exact (World.readEvent_isThrow h).symm
  case h_8 => exact (World.flushEvent_isThrow h).symm
  case h_9 k since answer =>
    rw [World.closeSocket_isThrow h]
    cases answer <;> rfl
  case h_10 => exact (World.acceptEvent_isThrow h).symm
  case h_11 => cases World.dispatched h <;> rfl
  case h_12 => cases h
  case h_2 | h_6 =>
    obtain ⟨-, rfl⟩ := Prod.mk.inj (Option.some.inj h)
    rfl
  all_goals
    -- these pieces do not throw
    simp only [World.unregTail, World.endOfFile, World.connectEvent] at h
    repeat' split at h
    all_goals simp only [Option.some.injEq, Prod.mk.injEq, reduceCtorEq] at h
    all_goals
      obtain ⟨-, rfl⟩ := h
      rfl

omit [Blank V] in
theorem takeWhile_unwind (stack : List Frame) :
    stack.takeWhile (fun frame => !frame.isUser) ++ unwind stack = stack := by
  induction stack with
  | nil => rfl
  | cons frame rest ih =>
      cases frame with
      | user handlers => rfl
      | _ => exact congrArg (List.cons _) ih

omit [Blank V] in
/-- What an exception does not pass stays to be handled. -/
theorem any_unwind {events : List (Event × Target)} {stack : List Frame}
    (h : stack.any (Frame.handles events i) = true)
    (hkept : (stack.takeWhile fun frame => !frame.isUser).any (Frame.handles events i) = false) :
    (unwind stack).any (Frame.handles events i) = true := by
  rw [← takeWhile_unwind stack, List.any_append, hkept, Bool.false_or] at h
  exact h

omit [Blank V] in
theorem World.holdsBytes_iff {w : World V E F} {data : List Byte} :
    w.holdsBytes i data = true ↔ ∃ sock, w.sockets[i]? = some sock ∧
      w.descriptors sock.fd = some (some (.socket i)) ∧ sock.buffer ++ data ≠ [] := by
  simp only [holdsBytes, Option.any_eq_true, Bool.and_eq_true, decide_eq_true_eq,
    Bool.not_eq_true', List.isEmpty_eq_false_iff]

omit [Blank V] in
theorem World.open_of_holdsBytes {w : World V E F} {data : List Byte}
    (h : w.holdsBytes i data = true) :
    ∃ fd, w.fd? i = some fd ∧ w.descriptors fd = some (some (.socket i)) := by
  obtain ⟨sock, hget, hopen, -⟩ := holdsBytes_iff.mp h
  exact ⟨sock.fd, World.fd?_eq_some.mpr ⟨_, World.core?_eq _ hget⟩, hopen⟩

/-- An event to be handled stays so up to the test for `EPOLLOUT`, unless an exception passes it
or another batch takes its place. -/
theorem Stepped.pending (h : Stepped .epoll c l c') (hs : c.Sound) (hnum : c.world.Numbered i)
    (halive : c'.stack ≠ []) (hbytes : c.world.holdsBytes i [] = true)
    (hguard : c.SendsBuffer i l) (hpending : c.pending i = true) :
    c'.pending i = true ∨ ∃ since rest, c.stack = .writePart i true since :: rest := by
  have hevents (hno : ∀ batch, l ≠ .poll batch) : c'.world.events = c.world.events := by
    refine (h.changes hs.seen).events_eq ?_
    exact fun batch hbatch => hno batch (Config.polls_eq hbatch)
  have hkept (hthrows : c.throws l = true) :
      (unwound c.stack).any (Frame.handles c.world.events i) = false := by
    simpa [Config.abandonsEvent, hthrows, hbytes] using hguard.abandons
  cases h with
  | handler w p handlers rest => exact .inl hpending
  | return_ w frame rest => exact .inl hpending
  | throw_ w handlers frame rest =>
      have hstack : (frame :: rest).any (Frame.handles w.events i) = true := hpending
      exact .inl (any_unwind hstack (hkept rfl))
  | user w handlers rest l w' eff call =>
      left
      by_cases hbatch : ∃ batch, l = .poll batch
      · obtain ⟨batch, rfl⟩ := hbatch
        have hrest : rest.any (Frame.handles w.events i) = true := hpending
        have hover := hguard.overwrites
        simp only [Config.overwritesEvent, hrest, hbytes, Bool.true_and, Bool.and_true,
          Bool.not_eq_false'] at hover
        have hpolled : Stepped .epoll ⟨w, .user handlers :: rest⟩ (.poll batch)
            (Config.after (.user handlers :: rest) (w', eff)) :=
          .user w handlers rest _ w' eff call
        rw [hpolled.polled.2.2]
        exact hover
      · have hsame := hevents fun batch hl => hbatch ⟨batch, hl⟩
        rw [Config.after_world] at hsame
        have hstack : (Frame.user handlers :: rest).any (Frame.handles w'.events i) = true := by
          rw [hsame]
          exact hpending
        rw [Config.pending, Config.after_world]
        cases eff with
        | push frames => simp only [Config.after, List.any_append, hstack, Bool.or_true]
        | throw failure => exact hstack
        | crash => exact absurd rfl halive
  | library w frame rest l w' eff piece =>
      have hsame : w'.events = w.events := by
        have hno : ∀ batch, l ≠ .poll batch := by
          rintro batch rfl
          cases libraryStep_label piece
        simpa using hevents hno
      rw [Config.pending, Config.after_world, hsame]
      cases eff with
      | crash => exact absurd rfl halive
      | throw failure =>
          have hunwound : unwound (frame :: rest) =
              (frame :: rest).takeWhile fun frame => !frame.isUser := by
            cases frame with
            | user handlers => simp [libraryStep_user] at piece
            | _ => rfl
          have hnone := hkept ((libraryStep_throws piece).trans rfl)
          rw [hunwound] at hnone
          have hstack := any_unwind hpending hnone
          left
          cases frame with
          | user handlers => simp [libraryStep_user] at piece
          | _ => exact hstack
      | push frames =>
          simp only [Config.after, List.any_append, Bool.or_eq_true]
          simp only [Config.pending, List.any_cons, Bool.or_eq_true] at hpending
          rcases hpending with hframe | hrest
          · rcases libraryStep_handles piece hnum hs.world (World.open_of_holdsBytes hbytes)
              hframe with ⟨since, rfl⟩ | hpushed
            · exact .inr ⟨since, rest, rfl⟩
            · exact .inl (.inl hpushed)
          · exact .inl (.inr hrest)

/-! ### Along a run -/

/-- Bytes wait for an event that is still to be handled, or for the report that follows a `::write`
that would have blocked, or for a connection whose failure was reported. -/
def Config.Due (i : ℕ) (ls : List Label) (c : Config V E F) : Prop :=
  c.pending i = true ∨
    (observed (step .epoll) (Config.output? i) ({} : Config V E F) ls).getLast? =
      some (.write .blocked) ∨
    c.world.status? i = some .connecting ∧ .error ∈ fired i c.world.log

structure Config.Waking (i : ℕ) (ls : List Label) (c : Config V E F) : Prop where
  sound : c.Sound
  numbered : c.world.Numbered i
  due : c.stack ≠ [] → c.world.holdsBytes i [] = true → c.Due i ls

theorem Config.Waking.initial : ({} : Config V E F).Waking i [] where
  sound := .initial
  numbered := .initial
  due _ hbytes := by simp [World.holdsBytes] at hbytes

omit [Blank V] in
theorem pending_of_report {batch : List (Event × Target)} {stack : List Frame} {w : World V E F}
    (h : batch.any (reportsWritable i) = true) :
    Config.pending i ⟨{ w with events := batch ++ w.events.drop batch.length },
      .batch 0 batch.length :: stack⟩ = true := by
  simp [Config.pending, Frame.handles, Frame.window, h]

/-- The descriptor number that a branch leaves. -/
theorem Turn.fd {w w' : World V E F} {sock sock' : SocketObject} {frame : Frame} {eff : Effect}
    {names : List EventName} (h : Turn w i sock frame l w' eff sock' names) :
    sock'.fd = sock.fd ∨ sock'.fd = -1 := by
  cases h with
  | halfClosed => exact .inr rfl
  | wrote handlers data answers w' eff r written => exact .inl (wrote_status written).2
  | flushed since answers w' eff r settled written => exact .inl (flushed_status written).2
  | quiet | connected | connecting | fullClosed | read | eofFirst | eofAgain | established
  | refused => exact .inl rfl

/-- A socket that is open has been open since it exists. -/
theorem Stepped.open_inv {sock sock' : SocketObject} (h : Stepped backend c l c') (hs : c.Sound)
    (hs' : c'.Sound) (hget : c.world.sockets[i]? = some sock)
    (hget' : c'.world.sockets[i]? = some sock')
    (hopen : c'.world.descriptors sock'.fd = some (some (.socket i))) :
    c.world.descriptors sock.fd = some (some (.socket i)) := by
  have hfd : sock'.fd = sock.fd ∨ sock'.fd = -1 := by
    obtain ⟨sock₁, names, hmoved, hget₁, -⟩ := h.moved hget
    obtain rfl := Option.some.inj (hget₁.symm.trans hget')
    cases hmoved with
    | stays => exact .inl rfl
    | turns top rest w' eff sock' names stack turn => exact turn.fd
  rcases hfd with hfd | hfd
  · rw [← hfd]
    exact (h.entries_inv hs (by simp [World.core?, hget])).1 hopen
  · have hnonneg := hs'.world.nonneg (-1) (by simp [← hfd, hopen])
    exact absurd hnonneg (by decide)

/-- What `Socket::write` leaves in the buffer waits for the next report, or the call has failed. -/
theorem write_waits {sock : SocketData} {s : State V E F} {data : List Byte}
    {answers : List Answer} {r : Result V E F Ref} (h : sock.write s data answers = some r)
    (hbuffer : r.sock.buffer ≠ []) : exitOf answers = .blocked ∨
      (exitOf answers).isFailed = true ∧ sock.buffer ++ data ≠ [] := by
  cases SocketData.wrote h with
  | failed flush errno loop exit_eq =>
      rw [writeLoop_exit loop] at exit_eq
      exact .inr ⟨by rw [exit_eq]; rfl, hbuffer⟩
  | completed flush loop exit_eq =>
      have hoffset := (writeLoop_spec loop).completed exit_eq
      simp [SocketData.advance, hoffset] at hbuffer
  | blocked flush loop exit_eq => exact .inl ((writeLoop_exit loop).symm.trans exit_eq)

/-- What the write branch leaves in the buffer waits for the next report, or it has failed. -/
theorem flush_waits {sock : SocketData} {s : State V E F} {answers : List Answer}
    {r : Result V E F Unit} (h : sock.onWritable s answers = some r)
    (hbuffer : r.sock.buffer ≠ []) : sock.buffer ≠ [] ∧
      (exitOf answers = .blocked ∨ (exitOf answers).isFailed = true) := by
  cases SocketData.flushed h with
  | failed flush errno loop exit_eq =>
      rw [flushLoop_exit loop] at exit_eq
      exact ⟨hbuffer, .inr (by rw [exit_eq]; rfl)⟩
  | flushed flush items s' loop exit_eq resolve =>
      refine ⟨?_, ?_⟩
      · intro hnil
        simp [SocketData.advance, hnil] at hbuffer
      · rw [← flushLoop_exit loop]
        cases hexit : flush.exit with
        | completed =>
            have hoffset := (flushLoop_spec (Nat.zero_le _) loop).completed hexit
            simp [SocketData.advance, hoffset] at hbuffer
        | blocked => exact .inl rfl
        | failed errno => exact .inr rfl

/-- The test for `EPOLLOUT` goes on with the connect branch or the write branch. -/
theorem Stepped.writable_piece {since : ℕ} {rest : List Frame} (h : Stepped backend c l c')
    (hstack : c.stack = .writePart i true since :: rest) :
    (∃ answer eff, l = .soError answer ∧
      c.world.connectEvent i since answer = some (c'.world, eff)) ∨
    ∃ answers eff, l = .flush answers ∧ c.world.flushEvent i answers = some (c'.world, eff) := by
  obtain ⟨w, stack⟩ := c
  obtain rfl : stack = .writePart i true since :: rest := hstack
  cases h with
  | library w frame rest l w' eff piece =>
      rw [Config.after_world]
      cases l with
      | soError answer => exact .inl ⟨answer, eff, rfl, piece⟩
      | flush answers => exact .inr ⟨answers, eff, rfl, piece⟩
      | _ => cases piece

theorem Stepped.user_of_write {data : List Byte} {answers : List Answer}
    (h : Stepped backend c (.write i data answers) c') :
    ∃ handlers rest, c.stack = .user handlers :: rest := by
  obtain ⟨handlers, rest, -, hstack, -⟩ := h.called rfl nofun nofun nofun
  exact ⟨handlers, rest, hstack⟩

omit [Blank V] in
/-- What is noted at a step. -/
theorem Config.output?_eq_some {output : Output} (h : c.output? i l = some output) :
    (∃ batch, l = .poll batch ∧ batch.any (reportsWritable i) = true) ∨
      (∃ data answers, l = .write i data answers) ∨
      ∃ since rest, c.stack = .writePart i true since :: rest := by
  simp only [output?] at h
  split at h
  · rename_i batch hstack
    simp only [Option.ite_none_right_eq_some] at h
    exact .inl ⟨batch, rfl, h.1⟩
  · simp only [Option.ite_none_right_eq_some] at h
    obtain ⟨rfl, -⟩ := h
    exact .inr (.inl ⟨_, _, rfl⟩)
  · rename_i hstack
    simp only [Option.ite_none_right_eq_some] at h
    obtain ⟨⟨rfl, -⟩, -⟩ := h
    exact .inr (.inr ⟨_, _, hstack⟩)
  · cases h

theorem Config.Due.of_output {ls : List Label} {exit : FlushExit}
    (ht : run (step .epoll) {} ls = some c) (h : c.output? i l = some (.write exit))
    (hblocked : exit = .blocked) : c'.Due i (ls ++ [l]) := by
  right; left
  rw [observed_concat _ _ ht, h, hblocked]
  exact List.getLast?_concat

section Step

variable {ls : List Label} {sock sock' : SocketObject} (ht : run (step .epoll) {} ls = some c)
  (hstep : Stepped .epoll c l c') (hguard : c.SendsBuffer i l)
  (hget : c.world.sockets[i]? = some sock)
  (hopen : c.world.descriptors sock.fd = some (some (.socket i)))
  (hget' : c'.world.sockets[i]? = some sock') (hbuffer' : sock'.buffer ≠ [])

include ht hstep hguard hget hopen hget' hbuffer'

/-- The connect branch and the write branch. -/
theorem due_of_writable {since : ℕ} {rest : List Frame}
    (hstack : c.stack = .writePart i true since :: rest) : c'.Due i (ls ++ [l]) := by
  rcases hstep.writable_piece hstack with ⟨answer, eff, rfl, hpiece⟩ | ⟨answers, eff, rfl, hpiece⟩
  · simp only [World.connectEvent, hget, Option.ite_none_right_eq_some] at hpiece
    obtain ⟨⟨hpending, -⟩, hpiece⟩ := hpiece
    by_cases hanswer : answer = .ret 0
    · subst hanswer
      simp only [if_true, Option.some.injEq, Prod.mk.injEq] at hpiece
      have hsock : sock' = { sock with status := .connected } := by
        rw [← hpiece.1, World.record_sockets, World.getElem?_modifySocket] at hget'
        simpa [hget, eq_comm] using hget'
      have hbytes : c.world.holdsBytes i [] = true := by
        refine World.holdsBytes_iff.mpr ⟨sock, hget, hopen, ?_⟩
        rw [List.append_nil]
        simpa [hsock] using hbuffer'
      have hconnects := hguard.connects
      simp [Config.connectsOnly, hstack, hbytes] at hconnects
    · simp only [hanswer, if_false, Option.some.injEq, Prod.mk.injEq] at hpiece
      right; right
      rw [← hpiece.1]
      refine ⟨?_, by simp [World.record]⟩
      rw [World.status?, World.core?_record, ← World.status?, World.status?_eq _ hget, hpending]
  · obtain ⟨-, r, hr, -, hsock, -⟩ := World.flushEvent_result hpiece hget
    obtain rfl := Option.some.inj (hsock.symm.trans hget')
    obtain ⟨hbuffer, hblocked | hfailed⟩ := flush_waits hr hbuffer'
    · refine .of_output ht ?_ hblocked
      have hne : answers ≠ [] := by
        rintro rfl
        cases hblocked
      simp [Config.output?, hstack, hne]
    · have hbytes : c.world.holdsBytes i [] = true :=
        World.holdsBytes_iff.mpr ⟨sock, hget, hopen, by simpa using hbuffer⟩
      have hfails := hguard.fails
      simp [Config.failsWrite, hstack, hfailed, hbytes] at hfails

theorem due_of_write {data : List Byte} {answers : List Answer} (hl : l = .write i data answers) :
    c'.Due i (ls ++ [l]) := by
  subst hl
  obtain ⟨handlers, rest, hstack⟩ := hstep.user_of_write
  obtain ⟨eff, hcall⟩ := hstep.write_call
  obtain ⟨r, hr, -, hsock, -⟩ := World.write_result hcall hget
  obtain rfl := Option.some.inj (hsock.symm.trans hget')
  rcases write_waits hr hbuffer' with hblocked | ⟨hfailed, hdata⟩
  · refine .of_output ht ?_ hblocked
    simp [Config.output?, hstack]
  · have hbytes : c.world.holdsBytes i data = true :=
      World.holdsBytes_iff.mpr ⟨sock, hget, hopen, hdata⟩
    have hfails := hguard.fails
    simp [Config.failsWrite, hstack, hfailed, hbytes] at hfails

/-- The other steps leave the buffer as it is. -/
theorem due_of_other (hs : c.Sound) (hnum : c.world.Numbered i) (halive : c'.stack ≠ [])
    (hdue : c.stack ≠ [] → c.world.holdsBytes i [] = true → c.Due i ls)
    (hwritable : ∀ since rest, c.stack ≠ .writePart i true since :: rest)
    (hwrite : ∀ data answers, l ≠ .write i data answers) : c'.Due i (ls ++ [l]) := by
  obtain ⟨sock₁, names, hmoved, hget₁, hfired⟩ := hstep.moved hget
  obtain rfl := Option.some.inj (hget₁.symm.trans hget')
  have hbuffer : sock₁.buffer = sock.buffer := by
    cases hmoved with
    | stays => rfl
    | turns top rest w' eff sock' names stack turn =>
        cases turn with
        | wrote handlers data answers => exact absurd rfl (hwrite data answers)
        | flushed since => exact absurd stack (hwritable since rest)
        | quiet | connected | connecting | halfClosed | fullClosed | read | eofFirst | eofAgain
        | established | refused => rfl
  have hbytes : c.world.holdsBytes i [] = true := by
    refine World.holdsBytes_iff.mpr ⟨sock, hget, hopen, ?_⟩
    rwa [List.append_nil, ← hbuffer]
  have hbefore : c.stack ≠ [] := by
    intro hnil
    cases hstep <;> cases hnil
  rcases hdue hbefore hbytes with hpending | hblocked | ⟨hconnecting, herror⟩
  · rcases hstep.pending hs hnum halive hbytes hguard hpending with hkept | ⟨since, rest, hstack⟩
    · exact .inl hkept
    · exact absurd hstack (hwritable since rest)
  · cases houtput : c.output? i l with
    | none =>
        right; left
        rw [observed_concat _ _ ht, houtput, Option.toList_none, List.append_nil]
        exact hblocked
    | some output =>
        rcases Config.output?_eq_some houtput with ⟨batch, rfl, hreported⟩ |
          ⟨data, answers, rfl⟩ | ⟨since, rest, hstack⟩
        · obtain ⟨-, -, rfl⟩ := hstep.polled
          exact .inl (pending_of_report hreported)
        · exact absurd rfl (hwrite data answers)
        · exact absurd hstack (hwritable since rest)
  · have hstatus : sock.status = .connecting := by
      simpa [World.status?_eq _ hget] using hconnecting
    have hstays (h : sock₁.status = sock.status) : c'.Due i (ls ++ [l]) := by
      refine .inr (.inr ⟨by rw [World.status?_eq _ hget₁, h, hstatus], ?_⟩)
      rw [hfired]
      exact List.mem_append_left names herror
    cases hmoved with
    | stays => exact hstays rfl
    | turns top rest w' eff sock' names stack turn =>
        cases turn with
        | quiet | read | refused => exact hstays rfl
        | wrote handlers data answers => exact absurd rfl (hwrite data answers)
        | flushed since => exact absurd stack (hwritable since rest)
        | established since => exact absurd stack (hwritable since rest)
        | connected handlers count w' idle => simp [idle] at hstatus
        | connecting handlers w' idle => simp [idle] at hstatus
        | halfClosed frame l answer w' call connected => simp [connected] at hstatus
        | fullClosed frame l count w' call half => simp [half] at hstatus
        | eofAgain slot since w' half => simp [half] at hstatus
        | eofFirst slot since w' open_ =>
            have hrefused := hguard.refused
            have hwrites : c.world.writableAt slot = true := by
              simpa [Config.endsRefused, stack, hconnecting, herror, hbytes] using hrefused
            have hevents : w'.events = c.world.events := by
              have hsame := (hstep.changes hs.seen).events_eq fun batch hpoll => by
                cases Config.polls_eq hpoll
              simpa [Config.after] using hsame
            have hslot : slotWritable w'.events slot = true := by
              rw [hevents]
              exact hwrites
            exact .inl (by simp [Config.pending, Config.after, Frame.handles, hslot])

end Step

theorem Config.Waking.step {ls : List Label} (h : c.Waking i ls)
    (ht : run (Reactor.step .epoll) {} ls = some c) (hguard : c.SendsBuffer i l)
    (hl : Reactor.step .epoll c l = some c') : c'.Waking i (ls ++ [l]) := by
  have hstep := stepped hl
  have hs' := h.sound.step hl
  refine ⟨hs', h.numbered.step h.sound hstep, ?_⟩
  intro halive hbytes'
  obtain ⟨sock', hget', hopen', hbuffer'⟩ := World.holdsBytes_iff.mp hbytes'
  rw [List.append_nil] at hbuffer'
  cases hget : c.world.sockets[i]? with
  | none =>
      rcases (hstep.made hget).1 with hnone | ⟨fd, status, hnew, -⟩
      · rw [hnone] at hget'
        cases hget'
      · obtain rfl := Option.some.inj (hnew.symm.trans hget')
        exact absurd rfl hbuffer'
  | some sock =>
      have hopen := hstep.open_inv h.sound hs' hget hget' hopen'
      by_cases hwritable : ∃ since rest, c.stack = .writePart i true since :: rest
      · obtain ⟨since, rest, hstack⟩ := hwritable
        exact due_of_writable ht hstep hguard hget hopen hget' hbuffer' hstack
      · by_cases hwrite : ∃ data answers, l = .write i data answers
        · obtain ⟨data, answers, hl⟩ := hwrite
          exact due_of_write ht hstep hguard hget hopen hget' hbuffer' hl
        · refine due_of_other ht hstep hguard hget hopen hget' hbuffer' h.sound h.numbered halive
            h.due ?_ ?_
          · exact fun since rest hstack => hwritable ⟨since, rest, hstack⟩
          · exact fun data answers hl => hwrite ⟨data, answers, hl⟩

/-- When the connect branch takes no event while bytes wait, no `::write` fails with bytes left,
and no reported event is lost while bytes wait, the last thing done after a report is a `::write`
that would have blocked, in every state with bytes in the buffer and no event still to handle. -/
theorem no_lost_wakeup {ls : List Label} (hrun : run (step .epoll) {} ls = some c)
    (hguard : EachStep (step .epoll) (Config.SendsBuffer i) ({} : Config V E F) ls) :
    KeepsWakeup i ls c := by
  have hwaking : c.Waking i ls := by
    refine reached_of_eachStep (I := fun ls c => Config.Waking i ls c) .initial ?_ hguard hrun
    intro ls c l c' ht h hguard hl
    exact h.step ht hguard hl
  intro halive hbytes hconnected hhandled
  rcases hwaking.due halive hbytes with hpending | hblocked | ⟨hconnecting, -⟩
  · rw [hpending] at hhandled
    cases hhandled
  · exact hblocked
  · simp [hconnecting, connectedStatus] at hconnected

end Machine

/-- A `write` that has to wait while the connection is being established. -/
def earlyWrite (rest : List Label) : List Label :=
  [.newSocket 3 none, .connect 0 (.err .inProgress), .write 0 [7] [.err .again],
    .poll [(⟨3, false, true⟩, .socket 0)], .tau] ++ rest

/-- A `write` after the connection is established, which sends a part of its data. -/
def lateWrite : List Label :=
  [.newSocket 3 none, .connect 0 (.err .inProgress), .poll [(⟨3, false, true⟩, .socket 0)], .tau,
    .soError (.ret 0), .handler, .return_, .tau, .write 0 [7, 8] [.ret 1, .err .again]]

theorem no_lost_wakeup_sample : ∃ c : Config ℕ ℕ SampleHandler,
    run (step .epoll) {} lateWrite = some c ∧ c.world.holdsBytes 0 [] = true ∧
      KeepsWakeup 0 lateWrite c := by
  obtain ⟨c, hrun, hbytes⟩ : ∃ c : Config ℕ ℕ SampleHandler,
      run (step .epoll) {} lateWrite = some c ∧ c.world.holdsBytes 0 [] = true := ⟨_, rfl, rfl⟩
  exact ⟨c, hrun, hbytes, no_lost_wakeup hrun (by decide +kernel)⟩

/-- The event that establishes the connection is the last one, and the byte is not sent. -/
def lostWakeupRun : List Label := earlyWrite [.soError (.ret 0), .handler, .return_, .tau]

theorem lostWakeupRun_waits : ∃ c : Config ℕ ℕ SampleHandler,
    run (step .epoll) {} lostWakeupRun = some c ∧ c.stack = [.user []] ∧
      c.world.status? 0 = some .connected ∧ c.world.holdsBytes 0 [] = true ∧
      observed (step .epoll) (Config.output? 0) ({} : Config ℕ ℕ SampleHandler) lostWakeupRun =
        [.write .blocked, .ready] ∧
      ¬ KeepsWakeup 0 lostWakeupRun c := by
  obtain ⟨c, hrun, hstack, hstatus, hbytes, hhandled⟩ : ∃ c : Config ℕ ℕ SampleHandler,
      run (step .epoll) {} lostWakeupRun = some c ∧ c.stack = [.user []] ∧
        c.world.status? 0 = some .connected ∧ c.world.holdsBytes 0 [] = true ∧
        c.pending 0 = false := ⟨_, rfl, rfl, rfl, rfl, rfl⟩
  refine ⟨c, hrun, hstack, hstatus, hbytes, rfl, ?_⟩
  intro hkeeps
  have hlast := hkeeps (by simp [hstack]) hbytes (by rw [hstatus]; rfl) hhandled
  cases hlast

end Libasync.Reactor
