import Libasync.Reactor.Descriptors
import Libasync.Reactor.Steps

/-! # Frames that a call or a piece leaves

When a piece does not throw it is replaced by the frames below, and a call of user code puts them
on top of the code that has made it. -/

namespace Libasync.Reactor

open Promise Socket

variable {V E F : Type*}

/-- The frames that are pushed in place of a piece or on top of user code. -/
inductive Pushed (w w' : World V E F) (l : Label) : Frame → List Frame → Prop where
  | nothing (frame) : Pushed w w' l frame []
  | handlers (frame connectHandlers) : Pushed w w' l frame [.user connectHandlers]
  | connecting (frame connectHandlers) :
      Pushed w w' l frame [.user connectHandlers, .connectTail]
  | closing (frame i) (called : .closeCalled (.socket i) ∈ w'.log) :
      Pushed w w' l frame [.user [], .closeTail i]
  | polled (frame batch) (label : l = .poll batch) :
      Pushed w w' l frame [.batch 0 batch.length]
  | noData (frame i closed slot since) (seen : closed = true → .endOfFile i ∈ w'.log) :
      Pushed w w' l frame [.readTail i closed slot since]
  | data (frame i closed slot since) (seen : closed = true → .endOfFile i ∈ w'.log) :
      Pushed w w' l frame [.user [], .readTail i closed slot since]
  | eofAgain (i slot since) (half : w.status? i = some .halfClosed) :
      Pushed w w' l (.readTail i true slot since) [.user [], .closedTail i slot since]
  | eofFirst (i slot since) :
      Pushed w w' l (.readTail i true slot since) [.user [], .readTail i false slot since]
  | rest (frame i writable since) : Pushed w w' l frame [.writePart i writable since]
  | error (frame i since) : Pushed w w' l frame [.user [], .errorTail i since]
  | accepted (frame j since) : Pushed w w' l frame [.user [], .accepting j since]
  | delivered (w₁ : World V E F) (backend k n event t) (more : k < n) :
      Pushed w w' l (.batch k n) [w₁.startEvent backend k event t, .batch (k + 1) n]
  | skipped (k n) (more : k < n) : Pushed w w' l (.batch k n) [.batch (k + 1) n]

namespace World

variable {w w' : World V E F} {frames : List Frame} {l : Label}

theorem closeRest_frames {i : ℕ} {sock : SocketObject}
    (h : w.closeRest i sock = (w', .push frames)) :
    frames = [] ∨ frames = [.user [], .closeTail i] := by
  simp only [closeRest] at h
  repeat' split at h
  all_goals simp only [Prod.mk.injEq, Effect.push.injEq] at h
  · exact .inl h.2.symm
  · exact .inr h.2.symm
  · exact .inl h.2.symm

theorem closeSocket_frames {i : ℕ} {answer : Answer}
    (h : w.closeSocket i answer = some (w', .push frames)) :
    frames = [] ∨ frames = [.user [], .closeTail i] := by
  simp only [closeSocket] at h
  repeat' split at h
  all_goals simp only [Option.some.injEq, Prod.mk.injEq, Effect.push.injEq, reduceCtorEq,
    and_false] at h
  · exact .inl h.2.symm
  · exact closeRest_frames h
  · exact closeRest_frames h

theorem closeSocket_pushed {i : ℕ} {answer : Answer} {frame : Frame}
    (h : w.closeSocket i answer = some (w', .push frames)) : Pushed w w' l frame frames := by
  let permits : Permits := { Permits.none with closes := fun _ _ => True }
  have hcalled := (closeSocket_changes_of_called (P := permits) h fun _ _ => trivial).log_grows
  rcases closeSocket_frames h with rfl | rfl
  · exact .nothing frame
  · exact .closing frame i (hcalled.subset (by simp))

theorem connect_pushed [Blank V] {i : ℕ} {answer : Answer} {frame : Frame}
    (h : w.connect i answer = some (w', .push frames)) : Pushed w w' l frame frames := by
  simp only [connect] at h
  repeat' split at h
  all_goals simp only [Option.some.injEq, Prod.mk.injEq, Effect.push.injEq, reduceCtorEq,
    and_false] at h
  · rw [← h.2]
    exact .nothing frame
  · rw [← h.2]
    exact .connecting frame _
  · rw [← h.2]
    exact .nothing frame

theorem write_pushed [Blank V] {i : ℕ} {data : List Byte} {answers : List Answer} {frame : Frame}
    (h : w.write i data answers = some (w', .push frames)) : Pushed w w' l frame frames := by
  simp only [write] at h
  repeat' split at h
  all_goals simp only [Option.some.injEq, Prod.mk.injEq, Effect.push.injEq, reduceCtorEq,
    and_false] at h
  rw [← h.2]
  exact .nothing frame

theorem listen_pushed {j : ℕ} {bind listen : Answer} {frame : Frame}
    (h : w.listen j bind listen = some (w', .push frames)) : Pushed w w' l frame frames := by
  simp only [World.listen] at h
  repeat' split at h
  all_goals simp only [Option.some.injEq, Prod.mk.injEq, Effect.push.injEq, reduceCtorEq,
    and_false] at h
  all_goals
    rw [← h.2]
    exact .nothing frame

theorem closeServer_pushed {j : ℕ} {answer : Answer} {frame : Frame}
    (h : w.closeServer j answer = some (w', .push frames)) : Pushed w w' l frame frames := by
  simp only [closeServer] at h
  repeat' split at h
  all_goals simp only [Option.some.injEq, Prod.mk.injEq, Effect.push.injEq, reduceCtorEq,
    and_false] at h
  rw [← h.2]
  exact .handlers frame []

theorem newSocket_pushed {fd : Fd} {failure : Option SetupFailure} {frame : Frame}
    (h : w.newSocket fd failure = some (w', .push frames)) : Pushed w w' l frame frames := by
  cases failure with
  | none =>
      simp only [newSocket, Option.ite_none_right_eq_some, Option.some.injEq, Prod.mk.injEq,
        Effect.push.injEq] at h
      rw [← h.2.2]
      exact .nothing frame
  | some failure => simp [newSocket] at h

theorem newServer_pushed {fd : Fd} {failure : Option SetupFailure} {frame : Frame}
    (h : w.newServer fd failure = some (w', .push frames)) : Pushed w w' l frame frames := by
  cases failure with
  | none =>
      simp only [newServer, Option.ite_none_right_eq_some, Option.some.injEq, Prod.mk.injEq,
        Effect.push.injEq] at h
      rw [← h.2.2]
      exact .nothing frame
  | some failure => simp [newServer] at h

theorem poll_pushed {backend : Backend} {batch : List (Event × Target)} {frame : Frame}
    (h : w.poll backend batch = some (w', .push frames)) :
    Pushed w w' (.poll batch) frame frames := by
  simp only [poll, Option.ite_none_right_eq_some, Option.some.injEq, Prod.mk.injEq,
    Effect.push.injEq] at h
  rw [← h.2.2]
  exact .polled frame batch rfl

theorem dispatch_pushed {backend : Backend} {k n : ℕ}
    (h : w.dispatch backend k n = some (w', .push frames)) : Pushed w w' l (.batch k n) frames := by
  simp only [dispatch] at h
  split at h
  · simp only [Option.some.injEq, Prod.mk.injEq, Effect.push.injEq] at h
    rw [← h.2]
    exact .nothing _
  · rename_i hmore
    split at h
    · cases h
    · split at h
      all_goals simp only [Option.some.injEq, Prod.mk.injEq, Effect.push.injEq, reduceCtorEq,
        and_false] at h
      · rw [← h.2]
        exact .delivered _ _ k n _ _ (Nat.lt_of_not_le hmore)
      · rw [← h.2]
        exact .skipped k n (Nat.lt_of_not_le hmore)

theorem readEvent_pushed {i : ℕ} {slot : Option ℕ} {since : ℕ} {answers : List ReadAnswer}
    {frame : Frame} (h : w.readEvent i slot since answers = some (w', .push frames)) :
    Pushed w w' l frame frames := by
  simp only [readEvent] at h
  repeat' split at h
  all_goals simp only [Option.some.injEq, Prod.mk.injEq, Effect.push.injEq, reduceCtorEq,
    and_false] at h
  · rw [← h.2, ← h.1]
    exact .noData frame i _ slot since fun _ => by simp [record]
  · rename_i hopen
    rw [← h.2, ← h.1]
    exact .noData frame i _ slot since fun hclosed => absurd hclosed hopen
  · rw [← h.2, ← h.1]
    exact .data frame i _ slot since fun _ => by simp [record, modifySocket]
  · rename_i hopen
    rw [← h.2, ← h.1]
    exact .data frame i _ slot since fun hclosed => absurd hclosed hopen

theorem endOfFile_pushed {i : ℕ} {closed : Bool} {slot : Option ℕ} {since : ℕ}
    (h : w.endOfFile i closed slot since = some (w', .push frames)) :
    Pushed w w' l (.readTail i closed slot since) frames := by
  cases hget : w.sockets[i]? with
  | none => simp [World.endOfFile, hget] at h
  | some sock =>
      simp only [World.endOfFile, hget] at h
      cases closed with
      | false =>
          simp only [Bool.false_eq_true, if_false, Option.some.injEq, Prod.mk.injEq,
            Effect.push.injEq] at h
          rw [← h.2]
          exact .rest _ i _ since
      | true =>
          by_cases hhalf : sock.status = .halfClosed
          · simp only [if_true, hhalf, Option.some.injEq, Prod.mk.injEq, Effect.push.injEq] at h
            rw [← h.2]
            exact .eofAgain i slot since (by simp [status?, core?, hget, hhalf])
          · simp only [if_true, hhalf, if_false, Option.some.injEq, Prod.mk.injEq,
              Effect.push.injEq] at h
            rw [← h.2]
            exact .eofFirst i slot since

theorem connectEvent_pushed {i : ℕ} {since : ℕ} {answer : Answer} {frame : Frame}
    (h : w.connectEvent i since answer = some (w', .push frames)) :
    Pushed w w' l frame frames := by
  simp only [connectEvent] at h
  repeat' split at h
  all_goals simp only [Option.some.injEq, Prod.mk.injEq, Effect.push.injEq, reduceCtorEq] at h
  · rw [← h.2]
    exact .handlers frame _
  · rw [← h.2]
    exact .error frame i since

theorem flushEvent_pushed [Blank V] {i : ℕ} {answers : List Answer} {frame : Frame}
    (h : w.flushEvent i answers = some (w', .push frames)) : Pushed w w' l frame frames := by
  simp only [flushEvent] at h
  repeat' split at h
  all_goals simp only [Option.some.injEq, Prod.mk.injEq, Effect.push.injEq, reduceCtorEq,
    and_false] at h
  rw [← h.2]
  exact .nothing frame

theorem acceptEvent_pushed {backend : Backend} {j : ℕ} {since : ℕ} {answer : AcceptAnswer}
    {frame : Frame} (h : w.acceptEvent backend j since answer = some (w', .push frames)) :
    Pushed w w' l frame frames := by
  simp only [acceptEvent] at h
  repeat' split at h
  all_goals simp only [Option.some.injEq, Prod.mk.injEq, Effect.push.injEq, reduceCtorEq,
    and_false] at h
  · rw [← h.2]
    exact .nothing frame
  · rw [← h.2]
    exact .accepted frame j since

end World

section Machine

variable [Blank V] {backend : Backend} {w w' : World V E F} {frames : List Frame} {l : Label}

theorem userStep_pushed {frame : Frame}
    (h : userStep backend w l = some (w', .push frames)) : Pushed w w' l frame frames := by
  cases l with
  | newSocket fd failure => exact World.newSocket_pushed h
  | newServer fd failure => exact World.newServer_pushed h
  | connect i answer => exact World.connect_pushed h
  | write i data answers => exact World.write_pushed h
  | close i answer => exact World.closeSocket_pushed h
  | listen j bind listen => exact World.listen_pushed h
  | closeServer j answer => exact World.closeServer_pushed h
  | poll batch => exact World.poll_pushed h
  | createFails errno => simp [userStep] at h
  | pollFails => simp [userStep] at h
  | handler | return_ | throw_ | tau | read answers | soError answer | flush answers
  | closing answer | accept answer => cases h

omit [Blank V] in
theorem World.unregTail_frames {i : ℕ} {tail : List Frame}
    (h : w.unregTail i tail = some (w', .push frames)) : tail = frames := by
  simp only [World.unregTail] at h
  split at h
  · cases h
  · simp only [Option.some.injEq, Prod.mk.injEq, Effect.push.injEq] at h
    exact h.2

theorem libraryStep_pushed {frame : Frame}
    (h : libraryStep backend w frame l = some (w', .push frames)) :
    Pushed w w' l frame frames := by
  simp only [libraryStep] at h
  split at h
  · rw [← World.unregTail_frames h]
    exact .nothing _
  · simp only [Option.some.injEq, Prod.mk.injEq, Effect.push.injEq] at h
    rw [← h.2]
    exact .nothing _
  · exact World.readEvent_pushed h
  · exact World.endOfFile_pushed h
  · rw [← World.unregTail_frames h]
    exact .rest _ _ _ _
  · simp only [Option.some.injEq, Prod.mk.injEq, Effect.push.injEq] at h
    rw [← h.2]
    exact .nothing _
  · exact World.connectEvent_pushed h
  · exact World.flushEvent_pushed h
  · exact World.closeSocket_pushed h
  · exact World.acceptEvent_pushed h
  · exact World.dispatch_pushed h
  · cases h

/-! ### Which frames leave which -/

/-- A call or a piece of this frame can push the other. -/
def Frame.pushes : Frame → Frame → Bool
  | .user _, .user _ | .user _, .closeTail _ | .user _, .connectTail | .user _, .batch .. => true
  | .reading .., .user _ => true
  | .reading i .., .readTail k .. => decide (k = i)
  | .readTail .., .user _ => true
  | .readTail i .., .closedTail k .. | .readTail i .., .readTail k false .. => decide (k = i)
  | .readTail i .., .writePart k .. => decide (k = i)
  | .closedTail i .., .writePart k .. => decide (k = i)
  | .writePart .., .user _ => true
  | .writePart i .., .errorTail k _ => decide (k = i)
  | .errorTail .., .user _ => true
  | .errorTail i _, .closeTail k => decide (k = i)
  | .accepting .., .user _ => true
  | .accepting j _, .accepting k _ => decide (k = j)
  | .batch .., .reading .. | .batch .., .writePart .. | .batch .., .accepting ..
  | .batch .., .batch .. => true
  | _, _ => false

theorem userStep_pushes {handlers : List Ref} {frame : Frame}
    (h : userStep backend w l = some (w', .push frames)) (hmem : frame ∈ frames) :
    (Frame.user handlers).pushes frame = true := by
  cases l with
  | close i answer =>
      rcases World.closeSocket_frames h with rfl | rfl
      · cases hmem
      · rcases List.mem_pair.mp hmem with rfl | rfl <;> rfl
  | newSocket fd failure | newServer fd failure =>
      cases failure <;>
        simp only [userStep, World.newSocket, World.newServer, Option.ite_none_right_eq_some,
          Option.some.injEq, Prod.mk.injEq, Effect.push.injEq, reduceCtorEq, and_false] at h
      simp [← h.2.2] at hmem
  | connect i answer =>
      simp only [userStep, World.connect] at h
      repeat' split at h
      all_goals simp only [Option.some.injEq, Prod.mk.injEq, Effect.push.injEq, reduceCtorEq,
        and_false] at h
      · simp [← h.2] at hmem
      · rw [← h.2] at hmem
        rcases List.mem_pair.mp hmem with rfl | rfl <;> rfl
      · simp [← h.2] at hmem
  | write i data answers =>
      simp only [userStep, World.write] at h
      repeat' split at h
      all_goals simp only [Option.some.injEq, Prod.mk.injEq, Effect.push.injEq, reduceCtorEq,
        and_false] at h
      simp [← h.2] at hmem
  | listen j bind listen =>
      simp only [userStep, World.listen] at h
      repeat' split at h
      all_goals simp only [Option.some.injEq, Prod.mk.injEq, Effect.push.injEq, reduceCtorEq,
        and_false] at h
      all_goals simp [← h.2] at hmem
  | closeServer j answer =>
      simp only [userStep, World.closeServer] at h
      repeat' split at h
      all_goals simp only [Option.some.injEq, Prod.mk.injEq, Effect.push.injEq, reduceCtorEq,
        and_false] at h
      obtain rfl := List.mem_singleton.mp (h.2 ▸ hmem)
      rfl
  | poll batch =>
      simp only [userStep, World.poll, Option.ite_none_right_eq_some, Option.some.injEq,
        Prod.mk.injEq, Effect.push.injEq] at h
      obtain rfl := List.mem_singleton.mp (h.2.2 ▸ hmem)
      rfl
  | createFails errno | pollFails => simp [userStep] at h
  | handler | return_ | throw_ | tau | read answers | soError answer | flush answers
  | closing answer | accept answer => cases h

omit [Blank V] in
theorem World.readEvent_pushes {i : ℕ} {slot : Option ℕ} {since : ℕ} {answers : List ReadAnswer}
    {frame : Frame} (h : w.readEvent i slot since answers = some (w', .push frames))
    (hmem : frame ∈ frames) : (Frame.reading i slot since).pushes frame = true := by
  simp only [readEvent] at h
  repeat' split at h
  all_goals simp only [Option.some.injEq, Prod.mk.injEq, Effect.push.injEq, reduceCtorEq,
    and_false] at h
  all_goals rw [← h.2] at hmem
  · obtain rfl := List.mem_singleton.mp hmem
    simp [Frame.pushes]
  · obtain rfl := List.mem_singleton.mp hmem
    simp [Frame.pushes]
  all_goals rcases List.mem_pair.mp hmem with rfl | rfl <;> simp [Frame.pushes]

omit [Blank V] in
theorem World.endOfFile_pushes {i : ℕ} {closed : Bool} {slot : Option ℕ} {since : ℕ} {frame : Frame}
    (h : w.endOfFile i closed slot since = some (w', .push frames)) (hmem : frame ∈ frames) :
    (Frame.readTail i closed slot since).pushes frame = true := by
  simp only [World.endOfFile] at h
  repeat' split at h
  all_goals simp only [Option.some.injEq, Prod.mk.injEq, Effect.push.injEq, reduceCtorEq] at h
  all_goals rw [← h.2] at hmem
  · rcases List.mem_pair.mp hmem with rfl | rfl <;> simp [Frame.pushes]
  · rcases List.mem_pair.mp hmem with rfl | rfl <;> simp [Frame.pushes]
  · obtain rfl := List.mem_singleton.mp hmem
    simp [Frame.pushes]

omit [Blank V] in
theorem World.connectEvent_pushes {i : ℕ} {since : ℕ} {answer : Answer} {frame : Frame}
    (h : w.connectEvent i since answer = some (w', .push frames)) (hmem : frame ∈ frames) :
    (Frame.writePart i true since).pushes frame = true := by
  simp only [connectEvent] at h
  repeat' split at h
  all_goals simp only [Option.some.injEq, Prod.mk.injEq, Effect.push.injEq, reduceCtorEq] at h
  all_goals rw [← h.2] at hmem
  · obtain rfl := List.mem_singleton.mp hmem
    rfl
  · rcases List.mem_pair.mp hmem with rfl | rfl <;> simp [Frame.pushes]

omit [Blank V] in
theorem World.acceptEvent_pushes {j : ℕ} {since : ℕ} {answer : AcceptAnswer} {frame : Frame}
    (h : w.acceptEvent backend j since answer = some (w', .push frames)) (hmem : frame ∈ frames) :
    (Frame.accepting j since).pushes frame = true := by
  simp only [acceptEvent] at h
  repeat' split at h
  all_goals simp only [Option.some.injEq, Prod.mk.injEq, Effect.push.injEq, reduceCtorEq,
    and_false] at h
  all_goals rw [← h.2] at hmem
  · cases hmem
  · rcases List.mem_pair.mp hmem with rfl | rfl <;> simp [Frame.pushes]

omit [Blank V] in
theorem World.dispatch_pushes {k n : ℕ} {frame : Frame}
    (h : w.dispatch backend k n = some (w', .push frames)) (hmem : frame ∈ frames) :
    (Frame.batch k n).pushes frame = true := by
  simp only [dispatch] at h
  repeat' split at h
  all_goals simp only [Option.some.injEq, Prod.mk.injEq, Effect.push.injEq, reduceCtorEq,
    and_false] at h
  all_goals rw [← h.2] at hmem
  · cases hmem
  · rename_i t _
    rcases List.mem_pair.mp hmem with rfl | rfl
    · simp only [startEvent]
      repeat' split
      all_goals rfl
    · rfl
  · obtain rfl := List.mem_singleton.mp hmem
    rfl

theorem libraryStep_pushes {top frame : Frame}
    (h : libraryStep backend w top l = some (w', .push frames)) (hmem : frame ∈ frames) :
    top.pushes frame = true := by
  simp only [libraryStep] at h
  split at h
  · simp [← World.unregTail_frames h] at hmem
  · simp only [Option.some.injEq, Prod.mk.injEq, Effect.push.injEq] at h
    simp [← h.2] at hmem
  · exact World.readEvent_pushes h hmem
  · exact World.endOfFile_pushes h hmem
  · obtain rfl := List.mem_singleton.mp (World.unregTail_frames h ▸ hmem)
    simp [Frame.pushes]
  · simp only [Option.some.injEq, Prod.mk.injEq, Effect.push.injEq] at h
    simp [← h.2] at hmem
  · exact World.connectEvent_pushes h hmem
  · simp only [World.flushEvent] at h
    repeat' split at h
    all_goals simp only [Option.some.injEq, Prod.mk.injEq, Effect.push.injEq, reduceCtorEq,
      and_false] at h
    simp [← h.2] at hmem
  · rcases World.closeSocket_frames h with rfl | rfl
    · cases hmem
    · rcases List.mem_pair.mp hmem with rfl | rfl <;> simp [Frame.pushes]
  · exact World.acceptEvent_pushes h hmem
  · exact World.dispatch_pushes h hmem
  · cases h

/-- What a call or a piece pushes, from the frame it replaces or stands on. -/
theorem pieceStep_pushes {top frame : Frame}
    (h : pieceStep backend w top l = some (w', .push frames)) (hmem : frame ∈ frames) :
    top.pushes frame = true := by
  cases top with
  | user handlers => exact userStep_pushes h hmem
  | _ => exact libraryStep_pushes h hmem

theorem pieceStep_pushed {top : Frame}
    (h : pieceStep backend w top l = some (w', .push frames)) : Pushed w w' l top frames := by
  cases top with
  | user handlers => exact userStep_pushed h
  | _ => exact libraryStep_pushed h

end Machine

end Libasync.Reactor
