import Libasync.Reactor.ClosingOrders
import Libasync.Reactor.Dispatch

/-! # The life of a socket

The status of a socket only moves forward, and each event of its life fires when the status enters
what the event stands for. An end of file that is taken by a closed socket would break this. That
none is rests on the entry in the table, which is gone when the socket is closed. -/

namespace Libasync.Reactor

open Promise Socket Automaton Foundation

variable {V E F : Type*}

/-! ### What is to hold -/

/-- `IDLE < CONNECTING < CONNECTED < HALF_CLOSED < CLOSED` -/
def rank : Status → ℕ
  | .idle => 0
  | .connecting => 1
  | .connected => 2
  | .halfClosed => 3
  | .closed => 4

/-- The events of a life have fired at most once, and "end" not after "close". -/
structure Config.FiresOnce (c : Config V E F) (i : ℕ) : Prop where
  once : ∀ name ∈ [EventName.connect, .end_, .close], (fired i c.world.log).count name ≤ 1
  ordered : AtEach (fun before name => name = .end_ → .close ∉ before) (fired i c.world.log)

/-- The status of the socket in the second configuration is not before the one in the first. -/
def MovesForward (i : ℕ) (t c : Config V E F) : Prop :=
  ∀ status, t.world.status? i = some status →
    ∃ status', c.world.status? i = some status' ∧ rank status ≤ rank status'

/-! ### Kernel and handlers -/

/-- A handler re-enters the loop. -/
def Config.reenters (c : Config V E F) (l : Label) : Bool :=
  match c.stack, l with
  | .user _ :: _ :: _, .poll _ => true
  | _, _ => false

/-- A read delivers data after one has returned end of file. -/
def Config.readsPastEnd (i : ℕ) (c : Config V E F) (l : Label) : Bool :=
  match c.stack, l with
  | .reading k _ _ :: _, .read answers =>
      decide (k = i ∧ .endOfFile i ∈ c.world.log) &&
        match readLoop answers with
        | some (.ok (data, _)) => !data.isEmpty
        | _ => false
  | _, _ => false

/-- Handlers do not re-enter the loop, and the connection of the socket delivers nothing after its
end of file. -/
def Config.Regular (i : ℕ) (c : Config V E F) (l : Label) : Prop :=
  c.reenters l = false ∧ c.readsPastEnd i l = false

instance (i : ℕ) (c : Config V E F) (l : Label) : Decidable (c.Regular i l) :=
  inferInstanceAs (Decidable (_ ∧ _))

/-- An exception leaves a "close" handler, and the socket, which has a number, is not
unregistered. -/
def Config.skipsUnreg (i : ℕ) (c : Config V E F) (l : Label) : Bool :=
  match c.stack, l with
  | .user _ :: frame :: _, .throw_ =>
      decide (frame.unregisters? = some i) && (c.world.fd? i).any fun fd => decide (0 ≤ fd)
  | _, _ => false

/-! ### One loop on the stack -/

/-- Calls of user code stand on one round of `reactor_task` at most, which the main program has
called. -/
def SingleLoop : List Frame → Prop
  | [] => True
  | .user _ :: rest | .closeTail _ :: rest | .connectTail :: rest => SingleLoop rest
  | .batch .. :: rest => ∃ handlers, rest = [.user handlers]
  | _ :: rest => ∃ k n handlers, rest = [.batch k n, .user handlers]

theorem SingleLoop.tail {frame : Frame} {rest : List Frame} (h : SingleLoop (frame :: rest)) :
    SingleLoop rest := by
  cases frame with
  | user | closeTail | connectTail => exact h
  | batch k n =>
      obtain ⟨handlers, rfl⟩ := h
      trivial
  | reading | readTail | closedTail | writePart | errorTail | accepting =>
      obtain ⟨k, n, handlers, rfl⟩ := h
      exact ⟨handlers, rfl⟩

theorem SingleLoop.unwind {stack : List Frame} (h : SingleLoop stack) :
    SingleLoop (unwind stack) := by
  induction stack with
  | nil => trivial
  | cons frame rest ih =>
      cases frame with
      | user handlers => exact h
      | _ => exact ih h.tail

theorem singleLoop_startEvent (backend : Backend) (w : World V E F) (m : ℕ) (event : Event)
    (t : Target) (k n : ℕ) (handlers : List Ref) :
    SingleLoop [w.startEvent backend m event t, .batch k n, .user handlers] := by
  cases t with
  | socket i =>
      simp only [World.startEvent]
      split <;> exact ⟨k, n, handlers, rfl⟩
  | server j => exact ⟨k, n, handlers, rfl⟩

/-- What a piece of `reactor_on_event` pushes stands on the same round. -/
theorem Pushed.singleLoop_piece {w w' : World V E F} {l : Label} {top : Frame} {frames : List Frame}
    (h : Pushed w w' l top frames) (hpushes : ∀ frame ∈ frames, top.pushes frame = true)
    (htop : top.isUser = false) (hbatch : ∀ k n, top ≠ .batch k n) (k n : ℕ)
    (handlers : List Ref) : SingleLoop (frames ++ [.batch k n, .user handlers]) := by
  cases h with
  | nothing | handlers | connecting | closing => exact ⟨handlers, rfl⟩
  | noData | data | eofAgain | eofFirst | rest | error | accepted => exact ⟨k, n, handlers, rfl⟩
  | polled top batch label =>
      have hpush := hpushes (.batch 0 batch.length) (by simp)
      cases top with
      | user => cases htop
      | batch k n => exact absurd rfl (hbatch k n)
      | _ => cases hpush
  | delivered w₁ backend k n | skipped k n => exact absurd rfl (hbatch k n)

/-- What user code pushes stands on what it was called from. -/
theorem Pushed.singleLoop_user {w w' : World V E F} {l : Label} {handlers : List Ref}
    {rest frames : List Frame} (h : Pushed w w' l (.user handlers) frames)
    (hpushes : ∀ frame ∈ frames, (Frame.user handlers).pushes frame = true)
    (hrest : SingleLoop rest) (hpoll : ∀ batch, l = .poll batch → rest = []) :
    SingleLoop (frames ++ .user handlers :: rest) := by
  cases h with
  | nothing | handlers | connecting | closing => exact hrest
  | polled top batch label =>
      obtain rfl := hpoll batch label
      exact ⟨handlers, rfl⟩
  | noData top i closed slot since =>
      cases hpushes (.readTail i closed slot since) (by simp)
  | data top i closed slot since =>
      cases hpushes (.readTail i closed slot since) (by simp)
  | rest top i writable since =>
      cases hpushes (.writePart i writable since) (by simp)
  | error top i since => cases hpushes (.errorTail i since) (by simp)
  | accepted top j since => cases hpushes (.accepting j since) (by simp)

/-- What the loop of `reactor_task` pushes stands on the main program. -/
theorem Dispatched.singleLoop {backend : Backend} {w w' : World V E F} {k n : ℕ}
    {frames : List Frame} (h : Dispatched backend w k n (w', .push frames)) (handlers : List Ref) :
    SingleLoop (frames ++ [.user handlers]) := by
  cases h with
  | done => trivial
  | delivered event reported t => exact singleLoop_startEvent _ _ k event t (k + 1) n handlers
  | skipped => exact ⟨handlers, rfl⟩

section Machine

variable [Blank V] {backend : Backend} {c c' : Config V E F} {l : Label} {i : ℕ}

theorem SingleLoop.library {w w' : World V E F} {top : Frame} {rest frames : List Frame}
    (h : SingleLoop (top :: rest))
    (hpiece : libraryStep backend w top l = some (w', .push frames)) :
    SingleLoop (frames ++ rest) := by
  have hpushes : ∀ frame ∈ frames, top.pushes frame = true := fun frame hmem =>
    libraryStep_pushes hpiece hmem
  cases top with
  | user handlers => simp [libraryStep_user] at hpiece
  | closeTail | connectTail =>
      have hnone : frames = [] := List.eq_nil_iff_forall_not_mem.mpr fun frame hmem => by
        cases hpushes frame hmem
      rw [hnone]
      exact h.tail
  | batch k n =>
      obtain ⟨handlers, rfl⟩ := h
      cases l with
      | tau => exact (World.dispatched hpiece).singleLoop handlers
      | _ => cases hpiece
  | reading | readTail | closedTail | writePart | errorTail | accepting =>
      obtain ⟨k, n, handlers, rfl⟩ := h
      exact (libraryStep_pushed hpiece).singleLoop_piece hpushes rfl (by simp) k n handlers

theorem SingleLoop.step (h : SingleLoop c.stack) (hstep : Stepped backend c l c')
    (hguard : c.reenters l = false) : SingleLoop c'.stack := by
  cases hstep with
  | handler w p handlers rest => exact h
  | return_ w frame rest => exact h.tail
  | throw_ w handlers frame rest => exact h.tail.unwind
  | user w handlers rest l w' eff call =>
      cases eff with
      | push frames =>
          refine (userStep_pushed call).singleLoop_user (fun _ => userStep_pushes call) h.tail ?_
          rintro batch rfl
          cases rest with
          | nil => rfl
          | cons frame rest => cases hguard
      | throw failure => exact h
      | crash => trivial
  | library w top rest l w' eff piece =>
      cases eff with
      | push frames => exact h.library piece
      | throw failure => exact h.tail.unwind
      | crash => trivial

/-! ### What a step does to the status -/

/-- What a step does to the number and the status of socket `i`, and the events it fires. -/
inductive Passed (i : ℕ) (c c' : Config V E F) (fd : Fd) (status : Status) :
    Fd → Status → List EventName → Prop where
  | stays (names) (quiet : ∀ name ∈ names, name = .data ∨ name = .error) :
      Passed i c c' fd status fd status names
  | pending (idle : status = .idle) : Passed i c c' fd status fd .connecting []
  | connected (unconnected : status = .idle ∨ status = .connecting) :
      Passed i c c' fd status fd .connected [.connect]
  | closedOwn (connected : status = .connected) : Passed i c c' fd status (-1) .halfClosed []
  | closedBoth (top rest) (half : status = .halfClosed) (fd_nonneg : 0 ≤ fd)
      (stack : c.stack = top :: rest)
      (stack' : c'.stack = .user [] :: .closeTail i :: top.below rest) :
      Passed i c c' fd status fd .closed [.close]
  | eofFirst (slot since rest) (open_ : status ≠ .halfClosed)
      (stack : c.stack = .readTail i true slot since :: rest)
      (stack' : c'.stack = .user [] :: .readTail i false slot since :: rest) :
      Passed i c c' fd status fd .halfClosed [.end_]
  | eofAgain (slot since rest) (half : status = .halfClosed)
      (stack : c.stack = .readTail i true slot since :: rest)
      (stack' : c'.stack = .user [] :: .closedTail i slot since :: rest) :
      Passed i c c' fd status fd .closed [.close]

theorem Stepped.passed {sock : SocketObject} (h : Stepped backend c l c')
    (hget : c.world.sockets[i]? = some sock) :
    ∃ sock' names, Passed i c c' sock.fd sock.status sock'.fd sock'.status names ∧
      c'.world.sockets[i]? = some sock' ∧
      fired i c'.world.log = fired i c.world.log ++ names := by
  obtain ⟨sock', names, hmoved, hget', hfired⟩ := h.moved hget
  refine ⟨sock', names, ?_, hget', hfired⟩
  cases hmoved with
  | stays => exact .stays [] (by simp)
  | turns top rest w' eff sock' names stack turn =>
      cases turn with
      | quiet => exact .stays [] (by simp)
      | connected handlers count w' idle => exact .connected (.inl idle)
      | connecting handlers w' idle => exact .pending idle
      | wrote handlers data answers w' eff r written =>
          obtain ⟨hstatus, hfd⟩ := wrote_status written
          simp only [hstatus, hfd]
          exact .stays [] (by simp)
      | halfClosed frame l answer w' call connected => exact .closedOwn connected
      | fullClosed frame l count w' call half fd_nonneg =>
          exact .closedBoth top rest half fd_nonneg stack rfl
      | read => exact .stays [.data] (by simp)
      | eofFirst slot since w' open_ => exact .eofFirst slot since rest open_ stack rfl
      | eofAgain slot since w' half => exact .eofAgain slot since rest half stack rfl
      | established since w' pending => exact .connected (.inr pending)
      | refused => exact .stays [.error] (by simp)
      | flushed since answers w' eff r settled written =>
          obtain ⟨hstatus, hfd⟩ := flushed_status written
          simp only [hstatus, hfd]
          exact .stays [] (by simp)

end Machine

/-! ### The events of a life -/

/-- The status that a socket enters when the event fires. -/
def EventName.enters? : EventName → Option Status
  | .connect => some .connected
  | .end_ => some .halfClosed
  | .close => some .closed
  | .data | .error => none

/-- The events that have fired are those of the statuses entered so far, each once. -/
structure Lifecycle (status : Status) (events : List EventName) : Prop where
  reached : ∀ name ∈ events, ∀ entered, name.enters? = some entered → rank entered ≤ rank status
  once : ∀ name entered, name.enters? = some entered → events.count name ≤ 1
  ordered : AtEach (fun before name => name = .end_ → .close ∉ before) events

namespace Lifecycle

variable {status status' : Status} {events names : List EventName}

theorem nil (status : Status) : Lifecycle status [] :=
  ⟨by simp, by simp, atEach_nil _⟩

/-- Events that enter no status can fire at any time. -/
theorem keep (h : Lifecycle status events) (hrank : rank status ≤ rank status')
    (hnames : ∀ name ∈ names, name.enters? = none) : Lifecycle status' (events ++ names) where
  reached name hmem entered henters := by
    rcases List.mem_append.mp hmem with hmem | hmem
    · exact (h.reached name hmem entered henters).trans hrank
    · simp [hnames name hmem] at henters
  once name entered henters := by
    have hfresh : name ∉ names := fun hmem => by simp [hnames name hmem] at henters
    rw [List.count_append, List.count_eq_zero_of_not_mem hfresh]
    exact h.once name entered henters
  ordered := by
    refine h.ordered.append ?_
    rintro name hmem before rfl
    cases hnames .end_ hmem

/-- The event of a status fires when the status is entered. -/
theorem enter {name : EventName} (h : Lifecycle status events)
    (hrank : rank status < rank status') (hname : name.enters? = some status') :
    Lifecycle status' (events ++ [name]) where
  reached other hmem entered henters := by
    rcases List.mem_append.mp hmem with hmem | hmem
    · exact (h.reached other hmem entered henters).trans (Nat.le_of_lt hrank)
    · obtain rfl := List.mem_singleton.mp hmem
      rw [Option.some.inj (henters.symm.trans hname)]
  once other entered henters := by
    have hbefore := h.once other entered henters
    rw [List.count_append, List.count_singleton]
    split
    · rename_i hsame
      obtain rfl : name = other := by simpa using hsame
      have hfresh : name ∉ events := fun hmem =>
        absurd (h.reached name hmem status' hname) (Nat.not_le.mpr hrank)
      simp [List.count_eq_zero_of_not_mem hfresh]
    · exact hbefore
  ordered := by
    refine atEach_concat.mpr ⟨h.ordered, ?_⟩
    rintro rfl hclose
    obtain rfl : status' = .halfClosed := (Option.some.inj hname).symm
    have hreached := h.reached .close hclose .closed rfl
    simp only [rank] at hrank hreached
    omega

/-- A closed socket takes no end of file. -/
theorem passed {i : ℕ} {c c' : Config V E F} {fd fd' : Fd} (h : Lifecycle status events)
    (hpassed : Passed i c c' fd status fd' status' names)
    (heof : ∀ slot since rest, c.stack = .readTail i true slot since :: rest →
      status ≠ .closed) :
    rank status ≤ rank status' ∧ Lifecycle status' (events ++ names) := by
  have hentered {name : EventName} (hrank : rank status < rank status')
      (hname : name.enters? = some status') :
      rank status ≤ rank status' ∧ Lifecycle status' (events ++ [name]) :=
    ⟨Nat.le_of_lt hrank, h.enter hrank hname⟩
  cases hpassed with
  | stays names quiet =>
      refine ⟨le_rfl, h.keep le_rfl ?_⟩
      intro name hmem
      rcases quiet name hmem with rfl | rfl <;> rfl
  | pending idle =>
      have hrank : rank status ≤ rank .connecting := by simp [idle, rank]
      exact ⟨hrank, h.keep hrank (by simp)⟩
  | connected unconnected =>
      refine hentered ?_ rfl
      rcases unconnected with rfl | rfl <;> simp [rank]
  | closedOwn connected =>
      have hrank : rank status ≤ rank .halfClosed := by simp [connected, rank]
      exact ⟨hrank, h.keep hrank (by simp)⟩
  | closedBoth top rest half => exact hentered (by simp [half, rank]) rfl
  | eofFirst slot since rest open_ stack =>
      have hstatus := heof slot since rest stack
      refine hentered ?_ rfl
      cases status with
      | idle | connecting | connected => simp [rank]
      | halfClosed => exact absurd rfl open_
      | closed => exact absurd rfl hstatus
  | eofAgain slot since rest half => exact hentered (by simp [half, rank]) rfl

end Lifecycle

section Machine

variable [Blank V] {backend : Backend} {c c' : Config V E F} {l : Label} {i : ℕ}

/-! ### Frames that read and take an end of file -/

/-- A frame of a library function that is on the stack was below the top, or it was pushed. -/
theorem Stepped.mem_tail (h : Stepped backend c l c') {frame : Frame} (hmem : frame ∈ c'.stack)
    (hframe : frame.isUser = false) :
    frame ∈ c.stack.tail ∨ ∃ top rest frames, c.stack = top :: rest ∧
      pieceStep backend c.world top l = some (c'.world, .push frames) ∧ frame ∈ frames ∧
        c'.stack = frames ++ top.below rest := by
  have huser {handlers : List Ref} {rest : List Frame}
      (hmem : frame ∈ Frame.user handlers :: rest) : frame ∈ rest := by
    rcases List.mem_cons.mp hmem with rfl | hmem
    · cases hframe
    · exact hmem
  cases h with
  | handler w p handlers rest => exact .inl (huser hmem)
  | return_ w top rest => exact .inl hmem
  | throw_ w handlers top rest => exact .inl ((unwind_suffix _).subset hmem)
  | user w handlers rest l w' eff call =>
      rw [Config.after_world]
      cases eff with
      | push frames =>
          rcases List.mem_append.mp hmem with hnew | hold
          · exact .inr ⟨.user handlers, rest, frames, rfl, call, hnew, rfl⟩
          · exact .inl (huser hold)
      | throw failure => exact .inl (huser hmem)
      | crash => cases hmem
  | library w top rest l w' eff piece =>
      rw [Config.after_world]
      cases eff with
      | push frames =>
          rcases List.mem_append.mp hmem with hnew | hold
          · have hbelow : top.below rest = rest := by
              cases top with
              | user handlers => simp [libraryStep_user] at piece
              | _ => rfl
            refine .inr ⟨top, rest, frames, rfl, pieceStep_of_library piece, hnew, ?_⟩
            rw [hbelow]
            rfl
          · exact .inl hold
      | throw failure => exact .inl ((unwind_suffix _).subset hmem)
      | crash => cases hmem

omit [Blank V] in
theorem World.target_of_reading {w : World V E F} {k : ℕ} {event : Event} {t : Target}
    {slot : Option ℕ} {since : ℕ}
    (h : w.startEvent backend k event t = .reading i slot since) : t = .socket i := by
  cases t with
  | socket k =>
      simp only [startEvent] at h
      split at h
      · rw [(Frame.reading.inj h).1]
      · cases h
  | server j => cases h

/-- The read branch is entered from the loop, through an entry of the table. -/
theorem Stepped.reading_pushed (h : Stepped backend c l c') {slot : Option ℕ} {since : ℕ}
    (hmem : .reading i slot since ∈ c'.stack)
    (htail : .reading i slot since ∉ c.stack.tail) :
    .reading i slot since ∉ c'.stack.tail ∧ c'.world.core? i = c.world.core? i ∧
      ∃ k n rest fd, c.stack = .batch k n :: rest ∧
        c.world.table fd = some (some (.socket i)) := by
  obtain ⟨top, rest, frames, hstack, hpiece, hnew, hstack'⟩ :=
    (h.mem_tail hmem rfl).resolve_left htail
  have hpushes := pieceStep_pushes hpiece hnew
  cases top with
  | batch k n =>
      cases l with
      | tau =>
          have hdispatch : c.world.dispatch backend k n = some (c'.world, .push frames) := hpiece
          generalize c'.world = w' at hdispatch ⊢
          rw [hstack'] at hmem ⊢
          cases World.dispatched hdispatch with
          | done => cases hnew
          | delivered event reported t lt get entry =>
              have hstart := (List.mem_pair.mp hnew).resolve_right (by simp)
              obtain rfl := World.target_of_reading hstart.symm
              refine ⟨?_, rfl, k, n, rest, event.fd, hstack, entry⟩
              simpa [hstack, Frame.below] using htail
          | skipped => simp at hnew
      | _ => cases hpiece
  | _ => cases hpushes

omit [Blank V] in
theorem readLoop_of_badFd {answers : List ReadAnswer} (h : answers.all ReadAnswer.badFd = true)
    (result : List Byte × Bool) : readLoop answers ≠ some (.ok result) := by
  cases answers with
  | nil => simp [readLoop]
  | cons answer answers =>
      obtain ⟨hbad, -⟩ := Bool.and_eq_true_iff.mp h
      cases answer with
      | data bytes | endOfFile => cases hbad
      | err errno =>
          cases answers with
          | nil =>
              simp only [ReadAnswer.badFd, badErrno, Bool.and_eq_true, Bool.not_eq_true'] at hbad
              simp [readLoop, hbad.1]
          | cons => simp [readLoop]

omit [Blank V] in
/-- The read branch goes on when the descriptor is open and the loop has ended. -/
theorem World.readEvent_push {w w' : World V E F} {slot : Option ℕ} {since : ℕ}
    {answers : List ReadAnswer} {frames : List Frame}
    (h : w.readEvent i slot since answers = some (w', .push frames)) :
    ∃ fd bytes closed, w.fd? i = some fd ∧ w.usable fd = true ∧
      readLoop answers = some (.ok (bytes, closed)) ∧
        frames = (if bytes = [] then [] else [.user []]) ++
          [.readTail i closed slot since] := by
  cases hget : w.sockets[i]? with
  | none => simp [readEvent, hget] at h
  | some sock =>
      simp only [readEvent, hget, Option.ite_none_right_eq_some, Bool.or_eq_true] at h
      obtain ⟨hallowed, h⟩ := h
      cases hloop : readLoop answers with
      | none => simp [hloop] at h
      | some result =>
          cases result with
          | error errno => simp [hloop] at h
          | ok result =>
              obtain ⟨bytes, closed⟩ := result
              have husable := hallowed.resolve_right fun hbad => readLoop_of_badFd hbad _ hloop
              refine ⟨sock.fd, bytes, closed, ?_, husable, rfl, ?_⟩
              · exact fd?_eq_some.mpr ⟨sock.status, w.core?_eq hget⟩
              · simp only [hloop] at h
                split at h
                · simp only [Option.some.injEq, Prod.mk.injEq, Effect.push.injEq] at h
                  rw [← h.2, if_pos (by assumption)]
                  rfl
                · simp only [Option.some.injEq, Prod.mk.injEq, Effect.push.injEq] at h
                  rw [← h.2, if_neg (by assumption)]
                  rfl

/-- An end of file is to be taken when the read loop of an open socket has ended with it. User code
runs before that when there are data. -/
theorem Stepped.takesEof_pushed (h : Stepped backend c l c') (hs : c.Sound) {slot : Option ℕ}
    {since : ℕ} (hmem : .readTail i true slot since ∈ c'.stack)
    (htail : .readTail i true slot since ∉ c.stack.tail) :
    ∃ rest answers bytes fd, c.stack = .reading i slot since :: rest ∧ l = .read answers ∧
      readLoop answers = some (.ok (bytes, true)) ∧ c.world.fd? i = some fd ∧ 0 ≤ fd ∧
        (.readTail i true slot since ∈ c'.stack.tail → bytes ≠ []) := by
  obtain ⟨top, rest, frames, hstack, hpiece, hnew, hstack'⟩ :=
    (h.mem_tail hmem rfl).resolve_left htail
  have hpushes := pieceStep_pushes hpiece hnew
  cases top with
  | reading k slot' since' =>
      obtain rfl : i = k := by simpa [Frame.pushes] using hpushes
      cases l with
      | read answers =>
          obtain ⟨fd, bytes, closed, hfd, husable, hloop, rfl⟩ := World.readEvent_push hpiece
          have hopen : c.world.descriptors fd ≠ none := by
            simpa [World.usable, ← Option.isSome_iff_ne_none] using husable
          have htop :
              Frame.readTail i true slot since = .readTail i closed slot' since' := by
            split at hnew <;> simpa using hnew
          obtain ⟨-, rfl, rfl, rfl⟩ := Frame.readTail.inj htop
          refine ⟨rest, answers, bytes, fd, hstack, rfl, hloop, hfd, hs.world.nonneg fd hopen, ?_⟩
          rintro hbelow rfl
          rw [hstack'] at hbelow
          rw [hstack] at htail
          exact htail hbelow
      | _ => cases hpiece
  | _ => cases hpushes

/-! ### Along a run -/

/-- No event is to be read for the socket, and its entry in the table is gone or will go when the
"close" handlers have returned. -/
structure Config.Retired (i : ℕ) (c : Config V E F) : Prop where
  entry : c.stack ≠ [] → (∃ frame ∈ c.stack, frame.unregisters? = some i) ∨
    ∀ n, c.world.table n ≠ some (some (.socket i))
  reading : ∀ slot since, .reading i slot since ∉ c.stack

/-- A closed socket is retired. An end of file that is still to be taken is taken before the socket
is closed, since no user code runs in between that could close it: of a half closed socket, there
are no data to be handled. -/
structure Config.Forward (i : ℕ) (c : Config V E F) : Prop where
  sound : c.Sound
  numbered : c.world.Numbered i
  single : SingleLoop c.stack
  missing : c.world.sockets[i]? = none → fired i c.world.log = []
  life : ∀ sock, c.world.sockets[i]? = some sock → Lifecycle sock.status (fired i c.world.log)
  reading : ∀ slot since, .reading i slot since ∉ c.stack.tail
  half : ∀ fd, c.world.core? i = some (fd, .halfClosed) → 0 ≤ fd → .endOfFile i ∈ c.world.log
  closed : ∀ fd, c.world.core? i = some (fd, .closed) → 0 ≤ fd → c.Retired i
  taken : ∀ slot since, .readTail i true slot since ∈ c.stack →
    c.world.status? i ≠ some .closed
  taking : ∀ slot since, .readTail i true slot since ∈ c.stack.tail →
    ∀ fd, c.world.core? i = some (fd, .halfClosed) → fd = -1

omit [Blank V] in
theorem Config.Forward.initial : ({} : Config V E F).Forward i where
  sound := .initial
  numbered := .initial
  single := trivial
  missing _ := rfl
  life := by simp
  reading := by simp
  half := by simp [World.core?]
  closed := by simp [World.core?]
  taken := by simp
  taking := by simp

/-- A new socket has never been connected, or it was accepted. -/
theorem Stepped.made_core (h : Stepped backend c l c') (hget : c.world.sockets[i]? = none) {fd : Fd}
    {status : Status} (hcore : c'.world.core? i = some (fd, status)) :
    status = .idle ∨ status = .connected := by
  rcases (h.made hget).1 with hnone | ⟨fd', status', hnew, hfresh⟩
  · simp [World.core?, hnone] at hcore
  · obtain ⟨-, rfl⟩ := Prod.mk.inj (Option.some.inj ((World.core?_eq _ hnew).symm.trans hcore))
    exact hfresh

/-- What a step does to a socket that is half closed or closed after it. -/
theorem Stepped.passed_core (h : Stepped backend c l c') {fd : Fd} {status : Status}
    (hcore : c'.world.core? i = some (fd, status))
    (hstatus : status = .halfClosed ∨ status = .closed) :
    ∃ fd₀ status₀ names, c.world.core? i = some (fd₀, status₀) ∧
      Passed i c c' fd₀ status₀ fd status names := by
  cases hget : c.world.sockets[i]? with
  | none =>
      have hfresh := h.made_core hget hcore
      rcases hstatus with rfl | rfl <;> simp at hfresh
  | some sock =>
      obtain ⟨sock', names, hpassed, hget', -⟩ := h.passed hget
      obtain ⟨rfl, rfl⟩ := Prod.mk.inj
        (Option.some.inj ((World.core?_eq _ hget').symm.trans hcore))
      exact ⟨sock.fd, sock.status, names, World.core?_eq _ hget, hpassed⟩

namespace Config.Forward

theorem closed_step (h : c.Forward i) (hstep : Stepped backend c l c')
    (hguard : c.skipsUnreg i l = false) {fd : Fd}
    (hcore : c'.world.core? i = some (fd, .closed)) (hfd : 0 ≤ fd) : c'.Retired i := by
  have hstack : c.stack ≠ [] := by
    cases hstep <;> simp
  refine ⟨fun halive => ?_, fun slot since hmem => ?_⟩
  · obtain ⟨fd₀, status₀, names, hcore₀, hpassed⟩ := hstep.passed_core hcore (.inr rfl)
    cases hpassed with
    | stays =>
        rcases (h.closed fd hcore₀ hfd).entry hstack with ⟨frame, hmem, hframe⟩ | hnone
        · have hremoved := hstep.removes_entry h.sound h.numbered hcore₀ hfd halive hframe hmem ?_
          · exact hremoved.imp_left fun hkept => ⟨frame, hkept, hframe⟩
          · rintro handlers rest hbelow rfl
            have hnumber : c.world.fd? i = some fd := World.fd?_eq_some.mpr ⟨_, hcore₀⟩
            simp [skipsUnreg, hbelow, hframe, hnumber, hfd] at hguard
        · exact .inr fun n hn =>
            hnone n ((hstep.entries_inv h.sound (by simp [hcore₀])).2 hn)
    | closedBoth top rest half fd_nonneg stack stack' =>
        exact .inl ⟨.closeTail i, by simp [stack'], rfl⟩
    | eofAgain slot since rest half stack stack' =>
        exact .inl ⟨.closedTail i slot since, by simp [stack'], rfl⟩
  · -- the loop that dispatches an event runs no "close" handler
    obtain ⟨-, hsame, k, n, rest, n', hbatch, hentry⟩ :=
      hstep.reading_pushed hmem (h.reading slot since)
    have hretired := h.closed fd (hsame.symm.trans hcore) hfd
    have hsingle := h.single
    rw [hbatch] at hsingle
    obtain ⟨handlers, rfl⟩ := hsingle
    rcases hretired.entry hstack with ⟨frame, hframe, hunreg⟩ | hnone
    · rw [hbatch] at hframe
      rcases List.mem_pair.mp hframe with rfl | rfl <;> cases hunreg
    · exact hnone n' hentry

omit [Blank V] in
/-- The frame at work on the end of file of the socket is the only one. -/
theorem alone (h : c.Forward i) {slot slot' : Option ℕ} {since since' : ℕ} {rest : List Frame}
    (hstack : c.stack = .readTail i true slot since :: rest) :
    .readTail i true slot' since' ∉ c.stack.tail := by
  have hsingle := h.single
  rw [hstack] at hsingle ⊢
  obtain ⟨k, n, handlers, rfl⟩ := hsingle
  simp

theorem taken_step (h : c.Forward i) (hstep : Stepped backend c l c') {slot : Option ℕ} {since : ℕ}
    (hmem : .readTail i true slot since ∈ c'.stack) : c'.world.status? i ≠ some .closed := by
  intro hclosed
  obtain ⟨fd, hcore⟩ := World.status?_eq_some.mp hclosed
  obtain ⟨fd₀, status₀, names, hcore₀, hpassed⟩ := hstep.passed_core hcore (.inr rfl)
  by_cases htail : .readTail i true slot since ∈ c.stack.tail
  · cases hpassed with
    | stays =>
        have hopen := h.taken slot since (List.mem_of_mem_tail htail)
        exact hopen (World.status?_eq_some.mpr ⟨fd, hcore₀⟩)
    | closedBoth top rest half fd_nonneg stack stack' =>
        subst half
        obtain rfl := h.taking slot since htail fd hcore₀
        exact absurd fd_nonneg (by decide)
    | eofAgain slot' since' rest half stack => exact h.alone stack htail
  · obtain ⟨rest, answers, bytes, n, hstack, -, -, hn, hnonneg, -⟩ :=
      hstep.takesEof_pushed h.sound hmem htail
    cases hpassed with
    | stays =>
        obtain ⟨status, hn⟩ := World.fd?_eq_some.mp hn
        obtain ⟨rfl, -⟩ := Prod.mk.inj (Option.some.inj (hcore₀.symm.trans hn))
        exact (h.closed fd hcore₀ hnonneg).reading slot since (by simp [hstack])
    | closedBoth top rest' half fd_nonneg stack stack' =>
        rw [hstack] at stack htail
        obtain ⟨rfl, rfl⟩ := List.cons.inj stack
        simp only [stack', Frame.below, List.mem_cons, reduceCtorEq, false_or] at hmem
        exact htail hmem
    | eofAgain slot' since' rest' half stack => cases hstack.symm.trans stack

theorem taking_step (h : c.Forward i) (hstep : Stepped backend c l c')
    (hguard : c.readsPastEnd i l = false) {slot : Option ℕ} {since : ℕ}
    (hmem : .readTail i true slot since ∈ c'.stack.tail) {fd : Fd}
    (hcore : c'.world.core? i = some (fd, .halfClosed)) : fd = -1 := by
  obtain ⟨fd₀, status₀, names, hcore₀, hpassed⟩ := hstep.passed_core hcore (.inl rfl)
  by_cases htail : .readTail i true slot since ∈ c.stack.tail
  · cases hpassed with
    | stays => exact h.taking slot since htail fd hcore₀
    | closedOwn => rfl
    | eofFirst slot' since' rest open_ stack => exact absurd htail (h.alone stack)
  · obtain ⟨rest, answers, bytes, n, hstack, rfl, hloop, hn, hnonneg, hdata⟩ :=
      hstep.takesEof_pushed h.sound (List.mem_of_mem_tail hmem) htail
    cases hpassed with
    | stays =>
        -- data after the end of file that has half closed the socket
        obtain ⟨status, hn⟩ := World.fd?_eq_some.mp hn
        obtain ⟨rfl, -⟩ := Prod.mk.inj (Option.some.inj (hcore₀.symm.trans hn))
        have hseen := h.half fd hcore₀ hnonneg
        simp [readsPastEnd, hstack, hseen, hloop, hdata hmem] at hguard
    | closedOwn => rfl
    | eofFirst slot' since' rest' open_ stack => cases hstack.symm.trans stack

theorem half_step (h : c.Forward i) (hstep : Stepped backend c l c') {fd : Fd}
    (hcore : c'.world.core? i = some (fd, .halfClosed)) (hfd : 0 ≤ fd) :
    .endOfFile i ∈ c'.world.log := by
  have hgrows := (hstep.changes h.sound.seen).log_grows.subset
  obtain ⟨fd₀, status₀, names, hcore₀, hpassed⟩ := hstep.passed_core hcore (.inl rfl)
  cases hpassed with
  | stays => exact hgrows (h.half fd hcore₀ hfd)
  | closedOwn => exact absurd hfd (by decide)
  | eofFirst slot since rest open_ stack =>
      exact hgrows (h.sound.seen (.readTail i true slot since) (by simp [stack]) i rfl)

theorem life_step (h : c.Forward i) (hstep : Stepped backend c l c') :
    (c'.world.sockets[i]? = none → fired i c'.world.log = []) ∧
      (∀ sock, c'.world.sockets[i]? = some sock →
        Lifecycle sock.status (fired i c'.world.log)) ∧ MovesForward i c c' := by
  cases hget : c.world.sockets[i]? with
  | none =>
      have hfired : fired i c'.world.log = [] := (hstep.made hget).2.trans (h.missing hget)
      refine ⟨fun _ => hfired, fun sock _ => by rw [hfired]; exact .nil _, ?_⟩
      intro status hstatus
      simp [World.status?, World.core?, hget] at hstatus
  | some sock =>
      obtain ⟨sock', names, hpassed, hget', hfired⟩ := hstep.passed hget
      obtain ⟨hrank, hlife⟩ := (h.life sock hget).passed hpassed (by
        intro slot since rest hstack hclosed
        have hopen := h.taken slot since (by simp [hstack])
        rw [World.status?_eq _ hget, hclosed] at hopen
        exact hopen rfl)
      refine ⟨fun hnone => ?_, fun sock₁ hget₁ => ?_, fun status hstatus => ?_⟩
      · rw [hget'] at hnone
        cases hnone
      · obtain rfl := Option.some.inj (hget'.symm.trans hget₁)
        rw [hfired]
        exact hlife
      · obtain rfl := World.status_eq hget hstatus
        exact ⟨sock'.status, World.status?_eq _ hget', hrank⟩

theorem step (h : c.Forward i) (hregular : c.Regular i l) (hguard : c.skipsUnreg i l = false)
    (hl : Reactor.step backend c l = some c') : c'.Forward i where
  sound := h.sound.step hl
  numbered := h.numbered.step h.sound (stepped hl)
  single := h.single.step (stepped hl) hregular.1
  missing := (h.life_step (stepped hl)).1
  life := (h.life_step (stepped hl)).2.1
  reading slot since hmem :=
    ((stepped hl).reading_pushed (List.mem_of_mem_tail hmem) (h.reading slot since)).1 hmem
  half _ hcore hfd := h.half_step (stepped hl) hcore hfd
  closed _ hcore hfd := h.closed_step (stepped hl) hguard hcore hfd
  taken _ _ hmem := h.taken_step (stepped hl) hmem
  taking _ _ hmem _ hcore := h.taking_step (stepped hl) hregular.2 hmem hcore

end Config.Forward

omit [Blank V] in
theorem Lifecycle.firesOnce {status : Status} (h : Lifecycle status (fired i c.world.log)) :
    c.FiresOnce i := by
  refine ⟨?_, h.ordered⟩
  intro name hname
  simp only [List.mem_cons, List.not_mem_nil, or_false] at hname
  rcases hname with rfl | rfl | rfl
  · exact h.once .connect .connected rfl
  · exact h.once .end_ .halfClosed rfl
  · exact h.once .close .closed rfl

omit [Blank V] in
theorem Config.Forward.firesOnce (h : c.Forward i) : c.FiresOnce i := by
  cases hget : c.world.sockets[i]? with
  | none =>
      have hlife := Lifecycle.nil .idle
      rw [← h.missing hget] at hlife
      exact hlife.firesOnce
  | some sock => exact (h.life sock hget).firesOnce

omit [Blank V] in
theorem MovesForward.trans {t u c : Config V E F} (h : MovesForward i t u)
    (h' : MovesForward i u c) : MovesForward i t c := by
  intro status hstatus
  obtain ⟨status₁, hstatus₁, hrank⟩ := h status hstatus
  obtain ⟨status₂, hstatus₂, hrank'⟩ := h' status₁ hstatus₁
  exact ⟨status₂, hstatus₂, hrank.trans hrank'⟩

/-- While no exception leaves a "close" handler and so skips `reactor_unreg`, the status of a socket
only moves forward, and the events of its life fire at most once, "end" not after "close". -/
theorem status_moves_forward {before after : List Label} {t : Config V E F}
    (hbefore : run (step backend) {} before = some t) (hafter : run (step backend) t after = some c)
    (hregular : EachStep (step backend) (Config.Regular i) ({} : Config V E F) (before ++ after))
    (hguard : EachStep (step backend) (fun c l => c.skipsUnreg i l = false) ({} : Config V E F)
      (before ++ after)) :
    c.FiresOnce i ∧ MovesForward i t c := by
  have hboth : EachStep (step backend) (fun c l => c.Regular i l ∧ c.skipsUnreg i l = false)
      ({} : Config V E F) (before ++ after) := fun front l rest u hls hu =>
    ⟨hregular front l rest u hls hu, hguard front l rest u hls hu⟩
  have hstart : t.Forward i := run_invariant (fun _ _ _ h hg hl => h.step hg.1 hg.2 hl) .initial
    (hboth.of_prefix (List.prefix_append before after)) hbefore
  have hend := run_invariant (I := fun u => u.Forward i ∧ MovesForward i t u)
    (fun _ _ _ h hg hl => ⟨h.1.step hg.1 hg.2 hl, h.2.trans (h.1.life_step (stepped hl)).2.2⟩)
    ⟨hstart, fun status hstatus => ⟨status, hstatus, le_rfl⟩⟩ (hboth.of_append hbefore) hafter
  exact ⟨hend.1.firesOnce, hend.2⟩

end Machine

/-- The peer closes a connection, and its end of file is read. -/
def peerCloses : List Label :=
  [.poll [(⟨3, true, false⟩, .socket 0)], .tau, .read [.endOfFile], .tau]

/-- "end" has fired on a socket that was connected. -/
def endedRun : List Label :=
  [.newSocket 3 none, .connect 0 (.ret 0), .return_, .tau] ++ peerCloses ++
    [.return_, .tau, .tau, .tau]

theorem status_moves_forward_sample : ∃ t c : Config ℕ ℕ SampleHandler,
    run (step .epoll) {} endedRun = some t ∧ t.world.status? 0 = some .halfClosed ∧
      run (step .epoll) t (.close 0 (.ret 0) :: [.return_, .tau]) = some c ∧
      fired 0 c.world.log = [.connect, .end_, .close] ∧ c.FiresOnce 0 ∧ MovesForward 0 t c := by
  obtain ⟨t, c, hbefore, hstatus, hafter, hfired⟩ : ∃ t c : Config ℕ ℕ SampleHandler,
      run (step .epoll) {} endedRun = some t ∧ t.world.status? 0 = some .halfClosed ∧
        run (step .epoll) t (.close 0 (.ret 0) :: [.return_, .tau]) = some c ∧
        fired 0 c.world.log = [.connect, .end_, .close] := ⟨_, _, rfl, rfl, rfl, rfl⟩
  exact ⟨t, c, hbefore, hstatus, hafter, hfired,
    status_moves_forward hbefore hafter (by decide +kernel) (by decide +kernel)⟩

/-- The peer's end of file is read again, and a "close" handler writes on the socket, which
throws. -/
def throwingCloseRun : List Label :=
  endedRun ++ peerCloses ++ [.write 0 [7] [.err (.other 32)], .throw_]

/-- The entry stays in the table. The next end of file makes the closed socket half closed, and
"end" fires again. -/
theorem throwingCloseRun_goes_back : ∃ t c : Config ℕ ℕ SampleHandler,
    run (step .epoll) {} throwingCloseRun = some t ∧ run (step .epoll) t peerCloses = some c ∧
      EachStep (step .epoll) (Config.Regular 0) ({} : Config ℕ ℕ SampleHandler)
        (throwingCloseRun ++ peerCloses) ∧
      t.world.status? 0 = some .closed ∧ c.world.status? 0 = some .halfClosed ∧
      fired 0 c.world.log = [.connect, .end_, .close, .end_] ∧ ¬ c.FiresOnce 0 ∧
      ¬ MovesForward 0 t c := by
  obtain ⟨t, c, hbefore, hafter, hclosed, hhalf, hfired⟩ : ∃ t c : Config ℕ ℕ SampleHandler,
      run (step .epoll) {} throwingCloseRun = some t ∧
        run (step .epoll) t peerCloses = some c ∧ t.world.status? 0 = some .closed ∧
        c.world.status? 0 = some .halfClosed ∧
        fired 0 c.world.log = [.connect, .end_, .close, .end_] := ⟨_, _, rfl, rfl, rfl, rfl, rfl⟩
  refine ⟨t, c, hbefore, hafter, by decide +kernel, hclosed, hhalf, hfired, ?_, ?_⟩
  · intro honce
    have hcount := honce.once .end_ (by simp)
    rw [hfired] at hcount
    exact absurd hcount (by decide)
  · intro hforward
    obtain ⟨status, hstatus, hrank⟩ := hforward .closed hclosed
    obtain rfl := Option.some.inj (hhalf.symm.trans hstatus)
    exact absurd hrank (by decide)

end Libasync.Reactor
