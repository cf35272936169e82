import Libasync.Reactor.Holders
import Libasync.Socket.Stream

/-! # The bytes that a socket has written

In a run of the whole machine the calls of `write` and the write branch of `reactor_on_event` are
the operations of the socket's outgoing stream. All other steps leave the stream alone. -/

namespace Libasync.Reactor

open Promise Socket Automaton

variable {V E F : Type*}

/-- The record of a socket's outgoing stream. -/
structure Sent where
  accepted : List Byte := []
  written : List Byte := []
  calls : List (ℕ × Ref) := []
  deriving DecidableEq, Repr

def Sent.stream (r : Sent) (sock : SocketData) (promises : State V E F) : Stream V E F :=
  { r with sock, promises }

/-- The operation that a step runs on the outgoing stream of a socket. -/
def Config.streamOp? (c : Config V E F) (l : Label) : Option (ℕ × StreamOp) :=
  match c.stack, l with
  | .user _ :: _, .write i data answers => some (i, .write data answers)
  | .writePart i true _ :: _, .flush answers => some (i, .writable answers)
  | _, _ => none

/-- The operation that a step runs on the outgoing stream of socket `i`. -/
def Config.sends (i : ℕ) (c : Config V E F) (l : Label) : Option StreamOp :=
  match c.streamOp? l with
  | some (k, op) => if k = i then some op else none
  | none => none

section Machine

variable [Blank V] {backend : Backend} {c c' : Config V E F} {l : Label} {i : ℕ}

/-- The record after a step. -/
def Config.recorded (i : ℕ) (c : Config V E F) (l : Label) (r : Sent) : Sent :=
  match c.world.sockets[i]?, c.sends i l with
  | some sock, some op =>
      match (r.stream sock.toSocketData c.world.promises).step op with
      | some s => ⟨s.accepted, s.written, s.calls⟩
      | none => r
  | _, _ => r

/-- The bytes of socket `i` that the kernel accepts in a step. -/
def Config.accepted (i : ℕ) (c : Config V E F) (l : Label) : List Byte :=
  (c.recorded i l {}).accepted

/-! ### One step -/

omit [Blank V] in
/-- An operation on the stream is a call of `write` or the write branch of the event handler. -/
theorem Config.sends_eq_some {op : StreamOp} (h : c.sends i l = some op) :
    (∃ data answers, l = .write i data answers ∧ op = .write data answers) ∨
    ∃ since rest answers, c.stack = .writePart i true since :: rest ∧ l = .flush answers ∧
      op = .writable answers := by
  simp only [sends, streamOp?] at h
  split at h
  · rename_i k op' hop
    obtain ⟨rfl, hop'⟩ := Option.ite_none_right_eq_some.mp h
    obtain rfl := Option.some.inj hop'
    split at hop
    · rename_i data answers hstack
      simp only [Option.some.injEq, Prod.mk.injEq] at hop
      obtain ⟨rfl, rfl⟩ := hop
      exact .inl ⟨data, answers, rfl, rfl⟩
    · rename_i since rest answers hstack
      simp only [Option.some.injEq, Prod.mk.injEq] at hop
      obtain ⟨rfl, rfl⟩ := hop
      exact .inr ⟨since, rest, answers, hstack, rfl, rfl⟩
    · cases hop
  · cases h

/-- A step that runs an operation on the socket's stream does what the stream does. -/
theorem Stepped.streams (h : Stepped backend c l c') {op : StreamOp} (hop : c.sends i l = some op)
    (r : Sent) : ∃ sock sock' s, c.world.sockets[i]? = some sock ∧
      c'.world.sockets[i]? = some sock' ∧
      (r.stream sock.toSocketData c.world.promises).step op = some s ∧
      s.sock = sock'.toSocketData ∧ s.promises = c'.world.promises := by
  rcases Config.sends_eq_some hop with ⟨data, answers, rfl, rfl⟩ |
    ⟨since, rest, answers, hstack, rfl, rfl⟩
  · obtain ⟨handlers', rest', eff, -, hcall⟩ := h.called rfl (by simp) (by simp) (by simp)
    cases hget : c.world.sockets[i]? with
    | none => simp [userStep, World.write, hget] at hcall
    | some sock =>
        obtain ⟨result, hresult, hpromises, hget', -⟩ := World.write_result hcall hget
        refine ⟨sock, _, _, rfl, hget', Option.map_eq_some_iff.mpr ⟨result, hresult, rfl⟩, rfl, ?_⟩
        exact hpromises.symm
  · cases h with
    | user w handlers rest l w' eff call => cases hstack
    | library w frame rest' l w' eff piece =>
        obtain ⟨rfl, rfl⟩ := List.cons.inj hstack
        simp only [Config.after_world]
        cases hget : w.sockets[i]? with
        | none => simp [libraryStep, World.flushEvent, hget] at piece
        | some sock =>
            obtain ⟨hstatus, result, hresult, hpromises, hget', -⟩ :=
              World.flushEvent_result piece hget
            refine ⟨sock, _, ⟨result.sock, result.promises, r.accepted ++ result.accepted,
              r.written, r.calls⟩, rfl, hget', ?_, rfl, hpromises.symm⟩
            simp [Stream.step, Sent.stream, hstatus, hresult]

/-- Another step leaves the buffer, the counter and the queue of the socket as they are. -/
theorem Stepped.keeps_stream (h : Stepped backend c l c') (hop : c.sends i l = none)
    {sock : SocketObject} (hget : c.world.sockets[i]? = some sock) :
    ∃ sock', c'.world.sockets[i]? = some sock' ∧ sock'.buffer = sock.buffer ∧
      sock'.bytesWritten = sock.bytesWritten ∧
      sock'.writePromiseQueue = sock.writePromiseQueue := by
  obtain ⟨sock', names, hmoved, hget', -⟩ := h.moved hget
  refine ⟨sock', hget', ?_⟩
  cases hmoved with
  | stays => exact ⟨rfl, rfl, rfl⟩
  | turns top rest w' eff sock' names stack turn =>
      cases turn with
      | wrote handlers data answers w' eff r written promises =>
          simp [Config.sends, Config.streamOp?, stack] at hop
      | flushed since answers w' eff r settled written promises =>
          simp [Config.sends, Config.streamOp?, stack] at hop
      | _ => exact ⟨rfl, rfl, rfl⟩

/-- The record after an operation on the stream. -/
theorem Config.recorded_of_sends {op : StreamOp} (hop : c.sends i l = some op) {sock : SocketObject}
    (hget : c.world.sockets[i]? = some sock) {r : Sent} {s : Stream V E F}
    (hs : (r.stream sock.toSocketData c.world.promises).step op = some s) :
    (c.recorded i l r).stream s.sock s.promises = s := by
  have hrecord : c.recorded i l r = ⟨s.accepted, s.written, s.calls⟩ := by
    simp only [recorded, hget, hop, hs]
  rw [hrecord]
  rfl

theorem Config.recorded_of_none (hop : c.sends i l = none) (r : Sent) : c.recorded i l r = r := by
  simp only [recorded, hop]
  split
  · rename_i hnone
    cases hnone
  · rfl

/-- The kernel accepts the same bytes whatever it has accepted before. -/
theorem Sent.step_accepted (r : Sent) (sock : SocketData) (promises : State V E F)
    (op : StreamOp) : ((r.stream sock promises).step op).map (fun s => s.accepted) =
      ((({} : Sent).stream sock promises).step op).map fun s => r.accepted ++ s.accepted := by
  cases op with
  | write data answers => simp [Stream.step, stream, Function.comp_def]
  | writable answers =>
      by_cases hstatus : sock.status = .connecting <;>
        simp [Stream.step, stream, hstatus, Function.comp_def]

theorem Config.recorded_accepted (r : Sent) :
    (c.recorded i l r).accepted = r.accepted ++ c.accepted i l := by
  simp only [accepted, recorded]
  split
  · rename_i sock op hget hop
    have hsame := r.step_accepted sock.toSocketData c.world.promises op
    cases hr : (r.stream sock.toSocketData c.world.promises).step op with
    | none =>
        rw [hr, Option.map_none, eq_comm, Option.map_eq_none_iff] at hsame
        simp [hsame]
    | some s =>
        rw [hr, Option.map_some, eq_comm, Option.map_eq_some_iff] at hsame
        obtain ⟨s', hs', haccepted⟩ := hsame
        simp [hs', haccepted]
  · simp

theorem Config.accepted_of_none (hop : c.sends i l = none) : c.accepted i l = [] := by
  rw [accepted, recorded_of_none hop]

omit [Blank V] in
theorem sent_of_badFd {answers : List Answer} (h : answers.all badFd = true) :
    Socket.sent answers = 0 := by
  induction answers with
  | nil => rfl
  | cons answer answers ih =>
      rw [List.all_cons, Bool.and_eq_true] at h
      cases answer with
      | ret count => simp [badFd] at h
      | err errno => simp [Socket.sent, Answer.count, ih h.2]

theorem Stream.accepted_of_badFd {s s' : Stream V E F} {op : StreamOp} (h : s.step op = some s')
    (hbad : op.answers.all badFd = true) : s'.accepted = s.accepted := by
  have hzero : Socket.sent op.answers = 0 := sent_of_badFd hbad
  cases op with
  | write data answers =>
      obtain ⟨r, hr, rfl⟩ := Option.map_eq_some_iff.mp h
      have hnil : r.accepted = [] := by
        cases SocketData.wrote hr with
        | failed flush errno loop | completed flush loop | blocked flush loop =>
            simp only [(writeLoop_spec loop).accepted, writeLoop_offset loop]
            simp [show Socket.sent answers = 0 from hzero]
      simp [hnil]
  | writable answers =>
      simp only [Stream.step] at h
      split at h
      · cases h
      · obtain ⟨r, hr, rfl⟩ := Option.map_eq_some_iff.mp h
        have hnil : r.accepted = [] := by
          cases SocketData.flushed hr with
          | failed flush errno loop | flushed flush items s' loop =>
              simp only [(flushLoop_spec (Nat.zero_le _) loop).accepted, flushLoop_offset loop]
              simp [show Socket.sent answers = 0 from hzero]
        simp [hnil]

/-- All calls on a number that is not open fail. -/
theorem Stepped.answers_of_closed (h : Stepped backend c l c') {op : StreamOp}
    (hop : c.sends i l = some op) {sock : SocketObject} (hget : c.world.sockets[i]? = some sock)
    (hclosed : c.world.usable sock.fd = false) : op.answers.all badFd = true := by
  rcases Config.sends_eq_some hop with ⟨data, answers, rfl, rfl⟩ |
    ⟨since, rest, answers, hstack, rfl, rfl⟩
  · obtain ⟨handlers', rest', eff, -, hcall⟩ := h.called rfl (by simp) (by simp) (by simp)
    simp only [userStep, World.write, hget, hclosed, Bool.false_or,
      Option.ite_none_right_eq_some] at hcall
    exact hcall.1
  · cases h with
    | user w handlers rest l w' eff call => cases hstack
    | library w frame rest' l w' eff piece =>
        obtain ⟨rfl, rfl⟩ := List.cons.inj hstack
        simp only [libraryStep, World.flushEvent, hget, hclosed, Bool.false_or,
          Option.ite_none_right_eq_some] at piece
        exact piece.1.2

/-- On a number that is not open no byte is accepted. -/
theorem Stepped.accepted_of_closed (h : Stepped backend c l c') {sock : SocketObject}
    (hget : c.world.sockets[i]? = some sock) (hclosed : c.world.usable sock.fd = false) :
    c.accepted i l = [] := by
  cases hop : c.sends i l with
  | none => exact Config.accepted_of_none hop
  | some op =>
      obtain ⟨sock₁, sock', s, hget₁, -, hs, -⟩ := h.streams hop {}
      have hrecord := Config.recorded_of_sends hop hget₁ hs
      have haccepted : c.accepted i l = s.accepted := by
        rw [← hrecord]
        rfl
      rw [haccepted]
      exact Stream.accepted_of_badFd hs (h.answers_of_closed hop hget hclosed)

/-! ### Runs -/

omit [Blank V] in
/-- The stream does not notice a step that leaves its data and its pending promises alone. -/
theorem StreamInv_frame {r : Sent} {sock sock' : SocketData} {promises promises' : State V E F}
    (h : StreamInv (r.stream sock promises)) (hbuffer : sock'.buffer = sock.buffer)
    (hcount : sock'.bytesWritten = sock.bytesWritten)
    (hqueue : sock'.writePromiseQueue = sock.writePromiseQueue)
    (hlength : promises.heap.length ≤ promises'.heap.length)
    (hpending : ∀ call ∈ r.calls, promises.status? call.2 = some .pending →
      promises'.status? call.2 = some .pending) : StreamInv (r.stream sock' promises') := by
  obtain ⟨⟨hstream, hcounted⟩, ⟨hsorted, hle⟩, ⟨hknown, hcalled, htarget, haccepted⟩⟩ := h
  simp only [Sent.stream] at *
  refine ⟨⟨?_, ?_⟩, ⟨?_, ?_⟩, ⟨?_, ?_, ?_, ?_⟩⟩
  · simpa only [hbuffer] using hstream
  · simpa only [hcount] using hcounted
  · simpa only [hqueue] using hsorted
  · simpa only [hqueue] using hle
  · intro item hitem
    exact Nat.lt_of_lt_of_le (hknown item (hqueue ▸ hitem)) hlength
  · intro call hcall
    exact Nat.lt_of_lt_of_le (hcalled call hcall) hlength
  · intro call hcall item hitem
    exact htarget call hcall item (hqueue ▸ hitem)
  · intro call hcall hstatus
    exact haccepted call hcall fun hold => hstatus (hpending call hcall hold)

/-- The record fits the socket, and nobody else holds the promises of its calls. -/
structure Config.Recorded (i : ℕ) (c : Config V E F) (r : Sent) : Prop where
  unused : c.world.sockets[i]? = none → r = {}
  stream : ∀ sock, c.world.sockets[i]? = some sock →
    StreamInv (r.stream sock.toSocketData c.world.promises)
  held : ∀ call ∈ r.calls, ∀ holder, c.Holds call.2 holder → holder = .queue i

omit [Blank V] in
theorem Config.Recorded.initial : ({} : Config V E F).Recorded i {} :=
  ⟨fun _ => rfl, by simp, by simp⟩

omit [Blank V] in
theorem Config.Recorded.called {r : Sent} (h : c.Recorded i r) :
    ∀ call ∈ r.calls, call.2 < c.world.promises.heap.length := by
  cases hget : c.world.sockets[i]? with
  | none => simp [h.unused hget]
  | some sock => exact (h.stream sock hget).promised.called

/-- A call of the stream is an old one, or it has made its promise. -/
theorem Stream.calls_step {s s' : Stream V E F} {op : StreamOp} (h : s.step op = some s') :
    ∀ call ∈ s'.calls, call ∈ s.calls ∨
      call.2 = s.promises.heap.length ∧ ∃ data answers, op = .write data answers := by
  cases op with
  | write data answers =>
      obtain ⟨r, hr, rfl⟩ := Option.map_eq_some_iff.mp h
      intro call hcall
      rcases List.mem_append.mp hcall with hold | hnew
      · exact .inl hold
      · refine .inr ⟨?_, data, answers, rfl⟩
        cases SocketData.wrote hr with
        | failed => cases hnew
        | completed => rw [List.mem_singleton.mp hnew]
        | blocked => rw [List.mem_singleton.mp hnew]
  | writable answers =>
      simp only [Stream.step] at h
      split at h
      · cases h
      · obtain ⟨r, hr, rfl⟩ := Option.map_eq_some_iff.mp h
        exact fun call hcall => .inl hcall

theorem Config.Recorded.step {r : Sent} (h : c.Recorded i r) (hknown : c.Known)
    (hclean : ∀ op, c.sends i l = some op → failsLate op.answers = false)
    (hstep : Stepped backend c l c') : c'.Recorded i (c.recorded i l r) := by
  -- who holds the promise of an old call after the step
  have hheld : ∀ call ∈ r.calls, ∀ holder, c'.Holds call.2 holder → holder = .queue i := by
    intro call hcall holder hholds
    rcases hstep.holds hholds with hold | ⟨⟨heq, -⟩, -⟩ | ⟨-, k, hold, -⟩
    · exact h.held call hcall holder hold
    · exact absurd heq (Nat.ne_of_lt (h.called call hcall))
    · cases h.held call hcall _ hold
  cases hop : c.sends i l with
  | some op =>
      obtain ⟨sock, sock', s, hget, hget', hs, hsock, hpromises⟩ := hstep.streams hop r
      have hrecord := Config.recorded_of_sends hop hget hs
      have hcalls : (c.recorded i l r).calls = s.calls := by
        rw [← hrecord]
        rfl
      refine ⟨?_, ?_, ?_⟩
      · intro hnone
        rw [hnone] at hget'
        cases hget'
      · intro sock₁ hget₁
        obtain rfl := Option.some.inj (hget'.symm.trans hget₁)
        rw [← hsock, ← hpromises, hrecord]
        exact (h.stream sock hget).step (hclean op hop) hs
      · intro call hcall holder hholds
        rw [hcalls] at hcall
        rcases Stream.calls_step hs call hcall with hold | ⟨hnew, data, answers, rfl⟩
        · exact hheld call hold holder hholds
        · have hfresh : ∀ holder, ¬ c.Holds call.2 holder := by
            intro holder hold
            exact absurd hnew (Nat.ne_of_lt (hknown call.2 holder hold))
          rcases hstep.holds hholds with hold | ⟨-, hmakes⟩ | ⟨-, k, hold, -⟩
          · exact absurd hold (hfresh holder)
          · rcases Config.sends_eq_some hop with ⟨data', answers', rfl, -⟩ |
              ⟨_, _, _, -, -, hwritable⟩
            · cases holder with
              | queue k =>
                  obtain rfl : i = k := hmakes
                  rfl
              | running | handlers k => exact hmakes.elim
            · cases hwritable
          · exact absurd hold (hfresh _)
  | none =>
      rw [Config.recorded_of_none hop]
      refine ⟨?_, ?_, hheld⟩
      · intro hnone
        apply h.unused
        cases hget : c.world.sockets[i]? with
        | none => rfl
        | some sock =>
            obtain ⟨sock', hget', -⟩ := hstep.keeps_stream hop hget
            rw [hnone] at hget'
            cases hget'
      · intro sock' hget'
        cases hget : c.world.sockets[i]? with
        | none =>
            rw [h.unused hget]
            rcases (hstep.made hget).1 with hnone | ⟨fd, status, hnew, -⟩
            · rw [hnone] at hget'
              cases hget'
            · obtain rfl := Option.some.inj (hnew.symm.trans hget')
              exact StreamInv.start fd status c'.world.promises
        | some sock =>
            obtain ⟨sock₁, hget₁, hbuffer, hcount, hqueue⟩ := hstep.keeps_stream hop hget
            obtain rfl := Option.some.inj (hget₁.symm.trans hget')
            refine StreamInv_frame (h.stream sock hget) hbuffer hcount hqueue
              hstep.resolving.changes.length_le ?_
            intro call hcall hpending
            apply hstep.stays_pending hpending
            · intro hrunning
              cases h.held call hcall _ hrunning
            · rintro k ⟨since, rest, answers, hstack, rfl⟩ hqueued
              obtain rfl : k = i := by simpa using h.held call hcall _ hqueued
              simp [Config.sends, Config.streamOp?, hstack] at hop

end Machine

end Libasync.Reactor
