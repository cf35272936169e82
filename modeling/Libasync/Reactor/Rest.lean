import Libasync.Reactor.Reachable

/-! # The rest of a reactor event

A handler that `reactor_on_event` runs may close the object of the event. What the rest of the
function then does on the number that was closed. -/

namespace Libasync.Reactor

open Promise Socket Automaton

/-! ### The write branch -/

section Flush

variable {V E F : Type*} [Blank V] {sock : SocketData} {s : State V E F} {answers : List Answer}
  {r : Result V E F Unit}

/-- With an empty buffer nothing is written. -/
theorem onWritable_of_nil (h : sock.onWritable s answers = some r) (hbuffer : sock.buffer = []) :
    answers = [] ∧ ∃ u, r.result = .ok u := by
  have hflush {flush : Flush}
      (hloop : flushLoop sockBufferSize sock.buffer 0 answers = some (flush, [])) :
      answers = [] ∧ flush.exit = .completed := by
    rw [hbuffer] at hloop
    cases answers with
    | nil =>
        simp only [flushLoop, List.length_nil, Nat.le_refl, if_true, Option.some.injEq,
          Prod.mk.injEq, and_true] at hloop
        exact ⟨rfl, by rw [← hloop]⟩
    | cons answer answers => simp [flushLoop] at hloop
  cases SocketData.flushed h with
  | failed flush errno loop exit_eq =>
      have hexit := (hflush loop).2
      rw [exit_eq] at hexit
      cases hexit
  | flushed flush items s' loop exit_eq resolve => exact ⟨(hflush loop).1, (), rfl⟩

/-- With bytes in the buffer `::write` is called. -/
theorem answers_ne_nil (h : sock.onWritable s answers = some r) (hbuffer : sock.buffer ≠ []) :
    answers ≠ [] := by
  rintro rfl
  have hpos : ¬ sock.buffer.length ≤ 0 := by simpa using hbuffer
  simp [SocketData.onWritable, flushLoop, hpos] at h

/-- On a descriptor that is not open the first `::write` throws. -/
theorem onWritable_of_badFd (h : sock.onWritable s answers = some r) (hbuffer : sock.buffer ≠ [])
    (hbad : answers.all badFd = true) : ∃ error, r.result = .error error := by
  have hflush {flush : Flush}
      (hloop : flushLoop sockBufferSize sock.buffer 0 answers = some (flush, [])) :
      ∃ errno, flush.exit = .failed errno := by
    cases answers with
    | nil => exact absurd rfl (answers_ne_nil h hbuffer)
    | cons answer answers =>
        have hfirst : badFd answer = true := by simp_all
        have hpos : ¬ sock.buffer.length ≤ 0 := by simpa using hbuffer
        cases answer with
        | ret count => simp [badFd] at hfirst
        | err errno =>
            have hblocked : errno.blocked = false := by
              simp only [badFd, badErrno, Bool.and_eq_true, Bool.not_eq_true'] at hfirst
              exact hfirst.1
            simp only [flushLoop, hpos, if_false, Answer.toWrite, if_true, Option.some.injEq,
              Prod.mk.injEq] at hloop
            refine ⟨errno, ?_⟩
            rw [← hloop.1]
            simp [FlushExit.ofErrno, hblocked]
  cases SocketData.flushed h with
  | failed flush errno loop exit_eq => exact ⟨_, rfl⟩
  | flushed flush items s' loop exit_eq resolve =>
      obtain ⟨errno, hexit⟩ := hflush loop
      exact absurd hexit (exit_eq errno)

end Flush

/-! ### Quiet and calm rests -/

variable {V E F : Type*}

/-- The object and the start of the event whose processing the frame continues. -/
def Frame.resumes? : Frame → Option (Target × ℕ)
  | .readTail i _ _ since => some (.socket i, since)
  | .closedTail i _ since => some (.socket i, since)
  | .writePart i _ since => some (.socket i, since)
  | .accepting j since => some (.server j, since)
  | _ => none

/-- The rest of the event is about to send the bytes of a buffer, or to accept. -/
def World.transfers (w : World V E F) : Frame → Bool
  | .writePart i true _ => (w.sockets[i]?).any fun sock => !sock.buffer.isEmpty
  | .accepting .. => true
  | _ => false

/-- The number that an object has closed. -/
def Happening.closedBy? (t : Target) : Happening → Option Fd
  | .closed t' n => if t' = t then some n else none
  | _ => none

/-- The numbers that the object of the frame on top of the stack has closed since the event began
that the frame continues. -/
def Config.lost (c : Config V E F) : List Fd :=
  match c.stack.head?.bind Frame.resumes? with
  | some (t, since) => (c.world.log.drop since).filterMap (Happening.closedBy? t)
  | none => []

theorem Config.mem_lost {c : Config V E F} {n : Fd} (h : n ∈ c.lost) :
    ∃ frame t since, c.stack.head? = some frame ∧ frame.resumes? = some (t, since) ∧
      .closed t n ∈ c.world.log := by
  simp only [lost] at h
  split at h
  · rename_i t since hresumes
    obtain ⟨frame, hstack, hframe⟩ := Option.bind_eq_some_iff.mp hresumes
    obtain ⟨happening, hmem, hclosed⟩ := List.mem_filterMap.mp h
    refine ⟨frame, t, since, hstack, hframe, List.mem_of_mem_drop (i := since) ?_⟩
    cases happening with
    | closed t' m =>
        simp only [Happening.closedBy?, Option.ite_none_right_eq_some, Option.some.injEq] at hclosed
        rw [← hclosed.1, ← hclosed.2]
        exact hmem
    | _ => cases hclosed
  · cases h

section Machine

variable [Blank V]

/-- A piece that does not throw and makes no call on a descriptor. -/
def Silent (w w' : World V E F) (eff : Effect) : Prop :=
  (∀ failure, eff ≠ .throw failure) ∧ ∀ t call n, .io t call n ∉ w'.log.drop w.log.length

/-- The rest of an event does no I/O on a number that the object has closed in a handler, and does
not throw. -/
def RestQuiet (backend : Backend) (c : Config V E F) (l : Label) : Prop :=
  ∀ n ∈ c.lost, ∀ frame ∈ c.stack.head?, ∀ w' eff,
    libraryStep backend c.world frame l = some (w', eff) →
      (∀ failure, eff ≠ .throw failure) ∧
        ∀ t call, .io t call n ∉ w'.log.drop c.world.log.length

omit [Blank V] in
/-- An object that was closed in a handler has nothing left to transfer. -/
def RestCalm (c : Config V E F) : Prop :=
  c.lost = [] ∨ c.stack.head?.all fun frame => !c.world.transfers frame

instance (c : Config V E F) : Decidable (RestCalm c) := inferInstanceAs (Decidable (_ ∨ _))

variable {backend : Backend} {w w' : World V E F} {eff : Effect} {l : Label}

omit [Blank V] in
theorem endOfFile_silent {i : ℕ} {closed : Bool} {slot : Option ℕ} {since : ℕ}
    (h : w.endOfFile i closed slot since = some (w', eff)) : Silent w w' eff := by
  simp only [World.endOfFile] at h
  repeat' split at h
  all_goals simp only [Option.some.injEq, Prod.mk.injEq, reduceCtorEq] at h
  all_goals
    obtain ⟨rfl, rfl⟩ := h
    simp [Silent]

omit [Blank V] in
theorem unregTail_silent {i : ℕ} {frames : List Frame}
    (h : w.unregTail i frames = some (w', eff)) : Silent w w' eff := by
  simp only [World.unregTail] at h
  split at h
  · cases h
  · simp only [Option.some.injEq, Prod.mk.injEq] at h
    obtain ⟨rfl, rfl⟩ := h
    simp [Silent]

theorem flushEvent_silent {i : ℕ} {answers : List Answer} {sock : SocketObject}
    (h : w.flushEvent i answers = some (w', eff)) (hget : w.sockets[i]? = some sock)
    (hbuffer : sock.buffer = []) : Silent w w' eff := by
  simp only [World.flushEvent, hget, Option.ite_none_right_eq_some] at h
  obtain ⟨-, h⟩ := h
  cases hr : sock.toSocketData.onWritable w.promises answers with
  | none => simp [hr] at h
  | some r =>
      obtain ⟨rfl, u, hok⟩ := onWritable_of_nil hr hbuffer
      simp only [hr, hok, Option.some.injEq, Prod.mk.injEq] at h
      obtain ⟨rfl, rfl⟩ := h
      simp [Silent, World.recordIo, World.modifySocket]

omit [Blank V] in
/-- A socket that has closed a number is not waiting for its connection. -/
theorem connectEvent_of_closed (hs : w.Sound) {i : ℕ} {since : ℕ} {answer : Answer} {n : Fd}
    (hclosed : .closed (.socket i) n ∈ w.log) : w.connectEvent i since answer = none := by
  obtain ⟨fd, status, hcore, hstatus, -⟩ := hs.closedSocket i n hclosed
  obtain ⟨sock, hget, heq⟩ := Option.map_eq_some_iff.mp hcore
  have hnot : sock.status ≠ .connecting := by
    rw [(Prod.mk.inj heq).2]
    rcases hstatus with rfl | rfl <;> simp
  simp [World.connectEvent, hget, hnot]

theorem quiet_of_calm {c : Config V E F} (hs : c.Sound) (h : RestCalm c) :
    RestQuiet backend c l := by
  intro n hlost frame hstack w' eff hpiece
  obtain ⟨frame', t, since, hstack', hframe, hclosed⟩ := Config.mem_lost hlost
  obtain rfl : frame = frame' := Option.some.inj (hstack.symm.trans hstack')
  have hcalm : c.world.transfers frame = false := by
    rcases h with h | h
    · simp [h] at hlost
    · simpa [hstack'] using h
  suffices hsilent : Silent c.world w' eff from ⟨hsilent.1, fun t call => hsilent.2 t call n⟩
  cases frame with
  | user | closeTail | connectTail | reading | errorTail | batch => cases hframe
  | accepting j since' => cases hcalm
  | readTail i closed slot since' =>
      cases l with
      | tau => exact endOfFile_silent hpiece
      | _ => cases hpiece
  | closedTail i slot since' =>
      cases l with
      | tau => exact unregTail_silent hpiece
      | _ => cases hpiece
  | writePart i writable since' =>
      obtain ⟨rfl, rfl⟩ := Prod.mk.inj (Option.some.inj hframe)
      cases writable with
      | false =>
          cases l with
          | tau =>
              simp only [libraryStep, Option.some.injEq, Prod.mk.injEq] at hpiece
              obtain ⟨rfl, rfl⟩ := hpiece
              simp [Silent]
          | _ => cases hpiece
      | true =>
          cases l with
          | soError answer =>
              simp [libraryStep, connectEvent_of_closed hs.world hclosed] at hpiece
          | flush answers =>
              cases hget : c.world.sockets[i]? with
              | none => simp [libraryStep, World.flushEvent, hget] at hpiece
              | some sock =>
                  have hbuffer : sock.buffer = [] := by
                    simpa [World.transfers, hget] using hcalm
                  exact flushEvent_silent hpiece hget hbuffer
          | _ => cases hpiece

theorem flushEvent_not_silent {i : ℕ} {answers : List Answer} {sock : SocketObject} {n : Fd}
    (hs : w.Sound) (h : w.flushEvent i answers = some (w', eff))
    (hget : w.sockets[i]? = some sock) (hbuffer : sock.buffer ≠ [])
    (hclosed : .closed (.socket i) n ∈ w.log) :
    (∃ failure, eff = .throw failure) ∨
      .io (.socket i) .write n ∈ w'.log.drop w.log.length := by
  obtain ⟨fd, status, hcore, -, hfd⟩ := hs.closedSocket i n hclosed
  rw [w.core?_eq hget] at hcore
  obtain ⟨rfl, rfl⟩ := Prod.mk.inj (Option.some.inj hcore)
  simp only [World.flushEvent, hget, Option.ite_none_right_eq_some] at h
  obtain ⟨⟨-, husable⟩, h⟩ := h
  cases hr : sock.toSocketData.onWritable w.promises answers with
  | none => simp [hr] at h
  | some r =>
      rcases hfd with hfd | hfd
      · -- the number -1 is never open
        have hclosedFd : w.descriptors (-1) = none := by
          by_contra hopen
          exact absurd (hs.nonneg (-1) hopen) (by decide)
        have hbad : answers.all badFd = true := by
          simpa [World.usable, hfd, hclosedFd] using husable
        obtain ⟨error, herror⟩ := onWritable_of_badFd hr hbuffer hbad
        simp only [hr, herror, Option.some.injEq, Prod.mk.injEq] at h
        exact .inl ⟨_, h.2.symm⟩
      · have hne := answers_ne_nil hr hbuffer
        have hpos : answers.length ≠ 0 := by simpa using hne
        right
        have hlog : w'.log = w.log ++ List.replicate answers.length (.io (.socket i) .write n) := by
          cases hresult : r.result <;>
          · simp only [hr, hresult, Option.some.injEq, Prod.mk.injEq] at h
            rw [← h.1, ← hfd]
            rfl
        rw [hlog, List.drop_left]
        exact List.mem_replicate.mpr ⟨hpos, rfl⟩

omit [Blank V] in
theorem acceptEvent_not_silent {j : ℕ} {since : ℕ} {answer : AcceptAnswer} {n : Fd}
    (hs : w.Sound) (h : w.acceptEvent backend j since answer = some (w', eff))
    (hclosed : .closed (.server j) n ∈ w.log) :
    .io (.server j) .accept n ∈ w'.log.drop w.log.length := by
  obtain ⟨server, hget, hfd⟩ := Option.map_eq_some_iff.mp (hs.closedServer j n hclosed)
  let permits : Permits := { Permits.none with opens := fun _ => True }
  have hchanges : Changes permits (w.recordIo (.server j) .accept server.fd 1) w' :=
    World.acceptEvent_changes_of_get hget h (fun _ _ => trivial) fun _ _ => ⟨id, id⟩
  obtain ⟨rest, hlog⟩ := hchanges.log_grows
  rw [← hlog, ← hfd]
  simp [World.recordIo]

theorem calm_of_quiet {c c' : Config V E F} (hs : c.Sound) (hstep : step backend c l = some c')
    (h : RestQuiet backend c l) : RestCalm c := by
  rw [RestCalm, or_iff_not_imp_left]
  intro hne
  obtain ⟨n, hlost⟩ := List.exists_mem_of_ne_nil c.lost hne
  obtain ⟨frame, t, since, hstack, hframe, hclosed⟩ := Config.mem_lost hlost
  suffices htransfers : c.world.transfers frame = false by simp [hstack, htransfers]
  -- the step is the piece of this frame
  have hpiece : ∃ w' eff, libraryStep backend c.world frame l = some (w', eff) := by
    cases stepped hstep with
    | library w frame' rest l w' eff piece =>
        obtain rfl : frame' = frame := by simpa using hstack
        exact ⟨w', eff, piece⟩
    | handler | return_ | throw_ | user =>
        simp only [List.head?_cons, Option.some.injEq] at hstack
        subst hstack
        cases hframe
  obtain ⟨w', eff, hpiece⟩ := hpiece
  obtain ⟨hthrow, hio⟩ := h n hlost frame hstack w' eff hpiece
  cases frame with
  | user | closeTail | connectTail | reading | errorTail | batch => cases hframe
  | readTail | closedTail => rfl
  | accepting j since' =>
      obtain ⟨rfl, rfl⟩ := Prod.mk.inj (Option.some.inj hframe)
      cases l with
      | accept answer =>
          exact absurd (acceptEvent_not_silent hs.world hpiece hclosed) (hio _ _)
      | _ => cases hpiece
  | writePart i writable since' =>
      obtain ⟨rfl, rfl⟩ := Prod.mk.inj (Option.some.inj hframe)
      cases writable with
      | false => rfl
      | true =>
          cases l with
          | soError answer =>
              simp [libraryStep, connectEvent_of_closed hs.world hclosed] at hpiece
          | flush answers =>
              cases hget : c.world.sockets[i]? with
              | none => simp [World.transfers, hget]
              | some sock =>
                  by_cases hbuffer : sock.buffer = []
                  · simp [World.transfers, hget, hbuffer]
                  · rcases flushEvent_not_silent hs.world hpiece hget hbuffer hclosed with
                      ⟨failure, hfailure⟩ | hmem
                    · exact absurd hfailure (hthrow failure)
                    · exact absurd hmem (hio _ _)
          | _ => cases hpiece

/-- Along a run the rests of all events are quiet exactly when no rest of an event has a buffer
to flush or a connection to accept for an object that a handler has closed. -/
theorem restQuiet_iff {ls : List Label} {c : Config V E F}
    (hrun : run (step backend) {} ls = some c) :
    EachStep (step backend) (RestQuiet backend) ({} : Config V E F) ls ↔
      EachStep (step backend) (fun c _ => RestCalm c) ({} : Config V E F) ls := by
  refine eachStep_congr (I := Config.Sound) (fun _ _ _ hs hl => hs.step hl) ?_ .initial hrun
  intro c l c' hs hl
  exact ⟨calm_of_quiet hs hl, quiet_of_calm hs⟩

end Machine

/-- A connected socket with these bytes to send, its end of file in the "data" branch of an event,
and `close` in the "end" handler; a new socket gets the number before the write branch runs. -/
def closeInHandlerRun (data : List Byte) (answers : List Answer) : List Label :=
  [.newSocket 3 none, .connect 0 (.ret 0), .return_, .tau, .write 0 data answers,
    .poll [(⟨3, true, true⟩, .socket 0)], .tau, .read [.endOfFile], .tau, .close 0 (.ret 0),
    .return_, .tau, .newSocket 3 none, .return_, .tau]

theorem restQuiet_iff_sample :
    EachStep (step .epoll) (RestQuiet .epoll) ({} : Config ℕ ℕ SampleHandler)
      (closeInHandlerRun [7] [.ret 1] ++ [.flush []]) := by
  obtain ⟨c, hrun⟩ : ∃ c : Config ℕ ℕ SampleHandler,
      run (step .epoll) {} (closeInHandlerRun [7] [.ret 1] ++ [.flush []]) = some c := ⟨_, rfl⟩
  exact (restQuiet_iff hrun).mpr (by decide +kernel)

/-- The byte that the closed socket could not send goes to the new socket. -/
theorem closeInHandlerRun_writes : ∃ c : Config ℕ ℕ SampleHandler,
    run (step .epoll) {} (closeInHandlerRun [7] [.err .again] ++ [.flush [.ret 1]]) = some c ∧
      c.world.descriptors 3 = some (some (.socket 1)) ∧
      c.world.log.getLast? = some (.io (.socket 0) .write 3) ∧
      ¬ EachStep (step .epoll) (RestQuiet .epoll) ({} : Config ℕ ℕ SampleHandler)
        (closeInHandlerRun [7] [.err .again] ++ [.flush [.ret 1]]) := by
  refine ⟨_, rfl, rfl, rfl, ?_⟩
  intro hquiet
  let before := closeInHandlerRun [7] [.err .again]
  have hcheck : (run (step .epoll) ({} : Config ℕ ℕ SampleHandler) before).map
      (fun c => (decide (RestCalm c), (step .epoll c (.flush [.ret 1])).isSome)) =
      some (false, true) := by
    decide +kernel
  obtain ⟨t, ht, hcheck⟩ := Option.map_eq_some_iff.mp hcheck
  obtain ⟨hcalm, hstep⟩ := Prod.mk.inj hcheck
  obtain ⟨c', hstep⟩ := Option.isSome_iff_exists.mp hstep
  exact of_decide_eq_false hcalm
    (calm_of_quiet (.run ht) hstep (hquiet before _ [] t rfl ht))

/-- The event of a socket has no write part until its "data" handler, which has closed the socket,
runs the reactor: the event of another socket that is writable takes its place in the buffer. -/
def overwrittenRun : List Label :=
  [.newSocket 3 none, .connect 0 (.ret 0), .return_, .tau, .write 0 [7] [.err .again],
    .newSocket 4 none, .connect 1 (.ret 0), .return_, .tau,
    .poll [(⟨3, true, false⟩, .socket 0)], .tau, .read [.data [1], .err .again], .close 0 (.ret 0),
    .poll [(⟨4, false, true⟩, .socket 1)], .tau, .flush [], .tau, .return_, .tau]

example : (run (step .epoll) ({} : Config ℕ ℕ SampleHandler) overwrittenRun).map (fun c =>
    (decide (RestCalm c), (step .epoll c (.flush [.err (.other 9)])).isSome)) =
      some (false, true) := by
  decide +kernel

end Libasync.Reactor
