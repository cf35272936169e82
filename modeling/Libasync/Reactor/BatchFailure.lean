import Libasync.Reactor.Forward
import Libasync.Reactor.Wakeups

/-! # A failure inside a batch

The exception that ends the processing of an event leaves `reactor_task` as well. The position in
the batch is a variable of its loop, and no later call knows of the events after it. -/

namespace Libasync.Reactor

open Promise Socket Automaton

variable {V E F : Type*}

/-! ### What is to hold -/

def Frame.isBatch : Frame → Bool
  | .batch .. => true
  | _ => false

/-- The rounds of `reactor_task` that are at work. -/
def Config.loops (c : Config V E F) : ℕ := c.stack.countP Frame.isBatch

/-- The processing of an event fails: an exception leaves it and passes the loop of
`reactor_task`. -/
def Config.failsInLoop (c : Config V E F) (l : Label) : Bool :=
  c.throws l && (unwound c.stack).any Frame.isBatch

/-- The events after the failing one in its batch. -/
def Config.remaining (c : Config V E F) : List (Event × Target) :=
  (unwound c.stack).flatMap (Frame.window c.world.events)

/-- What has happened since the first configuration. -/
def happenings (c c' : Config V E F) : List Happening := c'.world.log.drop c.world.log.length

section Machine

variable [Blank V]

/-- The event, which the kernel does not report again, can still be dispatched. -/
def StillDispatched (backend : Backend) (c : Config V E F) (e : Event × Target) : Prop :=
  ∃ later c', run (step backend) c later = some c' ∧ (∀ batch, .poll batch ∈ later → e ∉ batch) ∧
    ∃ target, .delivered e.1 e.2 target ∈ happenings c c'

/-- The failure between two configurations is reported by an "error" event, the loop goes on, and
the events after it in the batch are still dispatched. -/
structure Contained (backend : Backend) (c c' : Config V E F) : Prop where
  reported : ∃ t, .triggered t .error ∈ happenings c c'
  goesOn : c.loops ≤ c'.loops
  dispatched : ∀ e ∈ c.remaining, StillDispatched backend c' e

end Machine

/-! ### Deliveries and errors on record -/

/-- The happening is a delivery or an "error" event. -/
def Happening.isNotice : Happening → Bool
  | .delivered .. | .triggered _ .error => true
  | _ => false

def World.notices (w : World V E F) : List Happening := w.log.filter Happening.isNotice

namespace World

variable {w w' : World V E F}

@[simp] theorem notices_record (w : World V E F) (h : Happening) :
    (w.record h).notices = w.notices ++ if h.isNotice then [h] else [] := by
  simp [notices, record, List.filter_append, List.filter_singleton, Bool.cond_eq_ite]

@[simp] theorem notices_recordIo (w : World V E F) (t : Target) (call : IoCall) (fd : Fd) (n : ℕ) :
    (w.recordIo t call fd n).notices = w.notices := by
  simp [notices, recordIo, Happening.isNotice]

@[simp] theorem notices_modifySocket (w : World V E F) (i : ℕ) (f : SocketObject → SocketObject) :
    (w.modifySocket i f).notices = w.notices := rfl

@[simp] theorem notices_modifyServer (w : World V E F) (j : ℕ)
    (f : ServerSocketData → ServerSocketData) : (w.modifyServer j f).notices = w.notices := rfl

@[simp] theorem notices_leak (w : World V E F) (fd : Fd) : (w.leak fd).notices = w.notices := rfl

@[simp] theorem notices_reactorUnreg (w : World V E F) (fd : Fd) :
    (w.reactorUnreg fd).notices = w.notices := rfl

@[simp] theorem notices_addSocket (w : World V E F) (fd : Fd) (status : Status) :
    (w.addSocket fd status).notices = w.notices := rfl

@[simp] theorem notices_addServer (w : World V E F) (fd : Fd) :
    (w.addServer fd).notices = w.notices := rfl

@[simp] theorem notices_closeFd (w : World V E F) (t : Target) (fd : Fd) :
    (w.closeFd t fd).notices = w.notices := by
  simp [notices, closeFd, record, Happening.isNotice]

/-- What is added to the record, when no notice is. -/
theorem no_notice (hlog : w.log <+: w'.log) (h : w'.notices = w.notices) {happening : Happening}
    (hmem : happening ∈ w'.log.drop w.log.length) : happening.isNotice = false := by
  obtain ⟨rest, hrest⟩ := hlog
  simp only [notices, ← hrest, List.filter_append, List.append_right_eq_self,
    List.filter_eq_nil_iff, Bool.not_eq_true] at h
  rw [← hrest, List.drop_left] at hmem
  exact h happening hmem

theorem notices_closeSocket {i : ℕ} {answer : Answer} {eff : Effect}
    (h : w.closeSocket i answer = some (w', eff)) : w'.notices = w.notices := by
  simp only [closeSocket, closeRest] at h
  repeat' split at h
  all_goals simp only [Option.some.injEq, Prod.mk.injEq, reduceCtorEq] at h
  all_goals simp [← h.1, Happening.isNotice]

theorem notices_unregTail {i : ℕ} {frames : List Frame} {eff : Effect}
    (h : w.unregTail i frames = some (w', eff)) : w'.notices = w.notices := by
  simp only [unregTail] at h
  split at h
  · cases h
  · simp only [Option.some.injEq, Prod.mk.injEq] at h
    rw [← h.1, notices_reactorUnreg]

end World

section Machine

variable [Blank V] {backend : Backend} {w w' : World V E F} {l : Label} {eff : Effect}

/-- A call of user code delivers nothing and reports no error. -/
theorem userStep_notices (h : userStep backend w l = some (w', eff)) : w'.notices = w.notices := by
  cases l with
  | newSocket fd failure =>
      cases failure <;>
        simp only [userStep, World.newSocket, Option.ite_none_right_eq_some, Option.some.injEq,
          Prod.mk.injEq] at h <;> simp [← h.2.1]
  | newServer fd failure =>
      cases failure <;>
        simp only [userStep, World.newServer, Option.ite_none_right_eq_some, Option.some.injEq,
          Prod.mk.injEq] at h <;> simp [← h.2.1]
  | createFails errno =>
      simp only [userStep, Option.some.injEq, Prod.mk.injEq] at h
      rw [← h.1]
  | connect i answer =>
      simp only [userStep, World.connect] at h
      repeat' split at h
      all_goals simp only [Option.some.injEq, Prod.mk.injEq, reduceCtorEq] at h
      all_goals rw [← h.1]
      · rfl
      · simp [Happening.isNotice]
      · rfl
  | write i data answers =>
      simp only [userStep, World.write] at h
      repeat' split at h
      all_goals simp only [Option.some.injEq, Prod.mk.injEq, reduceCtorEq] at h
      all_goals rw [← h.1, World.notices_recordIo, World.notices_modifySocket]
      all_goals rfl
  | close i answer => exact World.notices_closeSocket h
  | listen j bind listen =>
      simp only [userStep, World.listen] at h
      repeat' split at h
      all_goals simp only [Option.some.injEq, Prod.mk.injEq, reduceCtorEq] at h
      all_goals simp [← h.1]
  | closeServer j answer =>
      simp only [userStep, World.closeServer] at h
      repeat' split at h
      all_goals simp only [Option.some.injEq, Prod.mk.injEq, reduceCtorEq] at h
      all_goals simp [← h.1, Happening.isNotice]
  | poll batch =>
      simp only [userStep, World.poll, Option.ite_none_right_eq_some, Option.some.injEq,
        Prod.mk.injEq] at h
      rw [← h.2.1]
      rfl
  | pollFails =>
      simp only [userStep, Option.some.injEq, Prod.mk.injEq] at h
      rw [← h.1]
      rfl
  | handler | return_ | throw_ | tau | read answers | soError answer | flush answers
  | closing answer | accept answer => cases h

/-- A piece of a library function, other than the loop of `reactor_task` and the connect branch,
delivers nothing and reports no error. -/
theorem libraryStep_notices {top : Frame} (h : libraryStep backend w top l = some (w', eff))
    (htop : top.isBatch = false) (hl : ∀ answer, l ≠ .soError answer) :
    w'.notices = w.notices := by
  simp only [libraryStep] at h
  split at h
  · exact World.notices_unregTail h
  · simp only [Option.some.injEq, Prod.mk.injEq] at h
    rw [← h.1]
    rfl
  · simp only [World.readEvent] at h
    repeat' split at h
    all_goals simp only [Option.some.injEq, Prod.mk.injEq, reduceCtorEq] at h
    all_goals simp [← h.1, Happening.isNotice]
  · simp only [World.endOfFile] at h
    repeat' split at h
    all_goals simp only [Option.some.injEq, Prod.mk.injEq, reduceCtorEq] at h
    all_goals simp [← h.1, Happening.isNotice]
  · exact World.notices_unregTail h
  · simp only [Option.some.injEq, Prod.mk.injEq] at h
    rw [← h.1]
  · exact absurd rfl (hl _)
  · simp only [World.flushEvent] at h
    repeat' split at h
    all_goals simp only [Option.some.injEq, Prod.mk.injEq, reduceCtorEq] at h
    all_goals rw [← h.1, World.notices_recordIo, World.notices_modifySocket]
    all_goals rfl
  · exact World.notices_closeSocket h
  · simp only [World.acceptEvent] at h
    repeat' split at h
    all_goals simp only [Option.some.injEq, Prod.mk.injEq, reduceCtorEq] at h
    all_goals simp [← h.1, Happening.isNotice]
  · cases htop
  · cases h

omit [Blank V] in
/-- The loop of `reactor_task` delivers the next event of its batch. -/
theorem World.dispatch_delivered {k n : ℕ} {event : Event} {reported : Target}
    {target : Option Target} (h : w.dispatch backend k n = some (w', eff))
    (hmem : .delivered event reported target ∈ w'.log.drop w.log.length) :
    (event, reported) ∈ (Frame.batch k n).window w.events := by
  simp only [dispatch] at h
  split at h
  · simp only [Option.some.injEq, Prod.mk.injEq] at h
    simp [← h.1] at hmem
  · rename_i hmore
    split at h
    · cases h
    · rename_i event' reported' hget
      have hfirst : (event', reported') ∈ (Frame.batch k n).window w.events :=
        Frame.mem_window.mpr ⟨k, le_rfl, Nat.lt_of_not_le hmore, hget⟩
      split at h
      all_goals simp only [Option.some.injEq, Prod.mk.injEq] at h
      all_goals simp only [← h.1, record, List.drop_left, List.drop_length, List.mem_singleton,
        List.not_mem_nil, Happening.delivered.injEq] at hmem
      all_goals rwa [hmem.1, hmem.2.1]

omit [Blank V] in
theorem World.connectEvent_delivers {i since : ℕ} {answer : Answer} {event : Event}
    {reported : Target} {target : Option Target}
    (h : w.connectEvent i since answer = some (w', eff)) :
    .delivered event reported target ∉ w'.log.drop w.log.length := by
  simp only [connectEvent] at h
  repeat' split at h
  all_goals simp only [Option.some.injEq, Prod.mk.injEq, reduceCtorEq] at h
  all_goals simp [← h.1, record, modifySocket]

/-- What a step delivers is an event that was still to come. -/
theorem Stepped.delivered {c c' : Config V E F} (h : Stepped backend c l c') (hseen : c.EofSeen)
    {event : Event} {reported : Target} {target : Option Target}
    (hmem : .delivered event reported target ∈ happenings c c') :
    (event, reported) ∈ c.awaited := by
  have hgrows := (h.changes hseen).log_grows
  have hsilent (hsame : c'.world.notices = c.world.notices) : (event, reported) ∈ c.awaited := by
    cases World.no_notice hgrows hsame hmem
  cases h with
  | handler w p handlers rest => exact hsilent rfl
  | return_ w frame rest => exact hsilent rfl
  | throw_ w handlers frame rest => exact hsilent rfl
  | user w handlers rest l w' eff call =>
      refine hsilent ?_
      rw [Config.after_world]
      exact userStep_notices call
  | library w top rest l w' eff piece =>
      simp only [happenings, Config.after_world] at hmem
      cases hbatch : top.isBatch with
      | true =>
          cases top with
          | batch k n =>
              cases l with
              | tau =>
                  exact List.mem_flatMap.mpr
                    ⟨.batch k n, by simp, World.dispatch_delivered piece hmem⟩
              | _ => cases piece
          | _ => cases hbatch
      | false =>
          by_cases hsoError : ∃ answer, l = .soError answer
          · obtain ⟨answer, rfl⟩ := hsoError
            cases top with
            | writePart i writable since =>
                cases writable with
                | true => exact absurd hmem (World.connectEvent_delivers piece)
                | false => cases piece
            | _ => cases piece
          · refine hsilent ?_
            rw [Config.after_world]
            exact libraryStep_notices piece hbatch fun answer hl => hsoError ⟨answer, hl⟩

/-- A step adds to the events still to come those that it fetches. -/
theorem Stepped.awaited {c c' : Config V E F} (h : Stepped backend c l c') (hseen : c.EofSeen)
    {e : Event × Target} (he : e ∈ c'.awaited) :
    e ∈ c.awaited ∨ ∃ batch, l = .poll batch ∧ e ∈ batch := by
  obtain ⟨frame, hframe, he⟩ := List.mem_flatMap.mp he
  have hold {below : Frame} (hbelow : below ∈ c.stack)
      (he : e ∈ below.window c.world.events) : e ∈ c.awaited :=
    List.mem_flatMap.mpr ⟨below, hbelow, he⟩
  by_cases hpoll : ∃ batch, l = .poll batch
  · obtain ⟨batch, rfl⟩ := hpoll
    obtain ⟨-, -, rfl⟩ := h.polled
    rcases List.mem_cons.mp hframe with rfl | hframe
    · obtain ⟨i, -, hi, hget⟩ := Frame.mem_window.mp he
      rw [List.getElem?_append_left hi] at hget
      exact .inr ⟨batch, rfl, List.mem_of_getElem? hget⟩
    · rcases Frame.window_polled he with hnew | hkept
      · exact .inr ⟨batch, rfl, hnew⟩
      · exact .inl (hold hframe hkept)
  · have hevents : c'.world.events = c.world.events :=
      (h.changes hseen).events_eq fun batch hbatch => hpoll ⟨batch, Config.polls_eq hbatch⟩
    rw [hevents] at he
    rcases h.mem_stack hframe with hmem | ⟨handlers, rfl⟩ | ⟨top, frames, htop, hpushed, hmem⟩
    · exact .inl (hold hmem he)
    · cases he
    · -- the rest of the batch whose next event was looked at
      have hlater {k n : ℕ} (hmem : .batch k n ∈ c.stack)
          (he : e ∈ (Frame.batch (k + 1) n).window c.world.events) : e ∈ c.awaited := by
        obtain ⟨i, hk, hn, hi⟩ := Frame.mem_window.mp he
        exact hold hmem (Frame.mem_window.mpr ⟨i, Nat.le_of_succ_le hk, hn, hi⟩)
      have hstack := List.mem_of_mem_head? htop
      cases hpushed with
      | polled frame batch label => exact absurd ⟨batch, label⟩ hpoll
      | skipped k n =>
          obtain rfl := List.mem_singleton.mp hmem
          exact .inl (hlater hstack he)
      | delivered w₁ backend k n event t =>
          rcases List.mem_pair.mp hmem with rfl | rfl
          · cases t with
            | server j => cases he
            | socket i =>
                simp only [World.startEvent] at he
                split at he <;> cases he
          · exact .inl (hlater hstack he)
      | nothing => cases hmem
      | handlers | noData | rest =>
          obtain rfl := List.mem_singleton.mp hmem
          cases he
      | connecting | closing | data | eofAgain | eofFirst | error | accepted =>
          rcases List.mem_pair.mp hmem with rfl | rfl <;> cases he

/-! ### What is dispatched later -/

/-- The events of the batches that a run has fetched. -/
def fetched (ls : List Label) (e : Event × Target) : Prop := ∃ batch, .poll batch ∈ ls ∧ e ∈ batch

/-- What was still to come, and what was fetched since then, is all that there is to dispatch. -/
structure Continued (c : Config V E F) (ls : List Label) (c' : Config V E F) : Prop where
  log_grows : c.world.log <+: c'.world.log
  awaited : ∀ e ∈ c'.awaited, e ∈ c.awaited ∨ fetched ls e
  delivered : ∀ event reported target, .delivered event reported target ∈ happenings c c' →
    (event, reported) ∈ c.awaited ∨ fetched ls (event, reported)

omit [Blank V] in
theorem mem_happenings {c c₁ c' : Config V E F} (h : c.world.log <+: c₁.world.log)
    (h' : c₁.world.log <+: c'.world.log) {happening : Happening}
    (hmem : happening ∈ happenings c c') :
    happening ∈ happenings c c₁ ∨ happening ∈ happenings c₁ c' := by
  obtain ⟨first, hfirst⟩ := h
  obtain ⟨second, hsecond⟩ := h'
  simp only [happenings, ← hsecond, ← hfirst, List.append_assoc, List.drop_left] at hmem ⊢
  rw [← List.append_assoc, List.drop_left]
  exact List.mem_append.mp hmem

omit [Blank V] in
theorem fetched_cons {ls : List Label} {e : Event × Target} (h : fetched ls e) (l : Label) :
    fetched (l :: ls) e := by
  obtain ⟨batch, hmem, he⟩ := h
  exact ⟨batch, List.mem_cons_of_mem l hmem, he⟩

theorem continued {c c' : Config V E F} {ls : List Label} (hs : c.Sound)
    (hrun : run (step backend) c ls = some c') : Continued c ls c' := by
  induction ls generalizing c with
  | nil =>
      obtain rfl := Option.some.inj hrun
      exact ⟨List.prefix_rfl, fun e he => .inl he, by simp [happenings]⟩
  | cons l ls ih =>
      obtain ⟨c₁, hl, hrun⟩ := run_cons_eq_some _ hrun
      have hstep := stepped hl
      have hrest := ih (hs.step hl) hrun
      have hgrows := (hstep.changes hs.seen).log_grows
      have hfirst {e : Event × Target} (he : e ∈ c₁.awaited) :
          e ∈ c.awaited ∨ fetched (l :: ls) e := by
        rcases hstep.awaited hs.seen he with he | ⟨batch, rfl, he⟩
        · exact .inl he
        · exact .inr ⟨batch, by simp, he⟩
      have hlater {e : Event × Target} (he : e ∈ c₁.awaited ∨ fetched ls e) :
          e ∈ c.awaited ∨ fetched (l :: ls) e := by
        rcases he with he | he
        · exact hfirst he
        · exact .inr (fetched_cons he l)
      refine ⟨hgrows.trans hrest.log_grows, fun e he => hlater (hrest.awaited e he), ?_⟩
      intro event reported target hmem
      rcases mem_happenings hgrows hrest.log_grows hmem with hmem | hmem
      · exact .inl (hstep.delivered hs.seen hmem)
      · exact hlater (hrest.delivered event reported target hmem)

/-- An event that no loop on the stack has still to handle is lost, unless the kernel reports it
again. -/
theorem StillDispatched.awaited {c : Config V E F} {e : Event × Target} (hs : c.Sound)
    (h : StillDispatched backend c e) : e ∈ c.awaited := by
  obtain ⟨later, c', hrun, honce, target, hmem⟩ := h
  rcases (continued hs hrun).delivered e.1 e.2 target hmem with hkept | ⟨batch, hbatch, he⟩
  · exact hkept
  · exact absurd he (honce batch hbatch)

/-! ### What an exception leaves -/

/-- An exception of the library comes without a delivery or an "error" event. -/
theorem libraryStep_thrown {top : Frame} {rest : List Frame}
    (h : libraryStep backend w top l = some (w', eff))
    (hthrows : Config.throws (⟨w, top :: rest⟩ : Config V E F) l = true) :
    (∃ failure, eff = .throw failure) ∧ w'.notices = w.notices := by
  refine ⟨Effect.isThrow_iff.mp ((libraryStep_throws h).symm.trans hthrows),
    libraryStep_notices h ?_ ?_⟩
  · cases top with
    | batch k n => simp [Config.throws] at hthrows
    | _ => rfl
  · rintro answer rfl
    cases top <;> simp [Config.throws] at hthrows

/-- An exception removes frames of the stack, up to user code, and nothing else happens. -/
theorem Stepped.thrown {c c' : Config V E F} (h : Stepped backend c l c')
    (hthrows : c.throws l = true) :
    c'.world.notices = c.world.notices ∧ c'.stack = unwind c.stack.tail := by
  cases h with
  | handler w p handlers rest => cases rest <;> cases hthrows
  | return_ w frame rest => cases hthrows
  | throw_ w handlers frame rest => exact ⟨rfl, rfl⟩
  | user w handlers rest l w' eff call =>
      cases rest with
      | nil => cases hthrows
      | cons frame rest =>
          cases l with
          | throw_ => cases call
          | _ => cases hthrows
  | library w top rest l w' eff piece =>
      obtain ⟨⟨failure, rfl⟩, hnotices⟩ := libraryStep_thrown piece hthrows
      exact ⟨hnotices, rfl⟩

omit [Blank V] in
theorem Config.loops_unwind (c : Config V E F) :
    (unwind c.stack.tail).countP Frame.isBatch + (unwound c.stack).countP Frame.isBatch =
      c.loops := by
  obtain ⟨w, stack⟩ := c
  simp only [loops]
  cases stack with
  | nil => rfl
  | cons frame rest =>
      have hrest := congrArg (List.countP Frame.isBatch) (takeWhile_unwind rest)
      rw [List.countP_append] at hrest
      have hpassed : (unwound (frame :: rest)).countP Frame.isBatch =
          (rest.takeWhile fun frame => !frame.isUser).countP Frame.isBatch +
            if frame.isBatch then 1 else 0 := by
        cases frame with
        | user handlers => rfl
        | _ => exact List.countP_cons
      rw [List.tail_cons, hpassed, List.countP_cons]
      omega

omit [Blank V] in
/-- An exception that passes the loop of `reactor_task` reaches the main program. -/
theorem SingleLoop.unwind_batch {stack : List Frame} (h : SingleLoop stack)
    (hpassed : (stack.takeWhile fun frame => !frame.isUser).any Frame.isBatch = true) :
    ∃ handlers, Reactor.unwind stack = [.user handlers] := by
  induction stack with
  | nil => cases hpassed
  | cons frame rest ih =>
      cases frame with
      | user handlers => cases hpassed
      | closeTail | connectTail => exact ih h hpassed
      | batch k n =>
          obtain ⟨handlers, rfl⟩ := h
          exact ⟨handlers, rfl⟩
      | reading | readTail | closedTail | writePart | errorTail | accepting =>
          obtain ⟨k, n, handlers, rfl⟩ := h
          exact ⟨handlers, rfl⟩

/-- After a failure nothing is still to come, when no other loop has called the handlers. -/
theorem Stepped.awaits_nothing {c c' : Config V E F} (h : Stepped backend c l c')
    (hfails : c.failsInLoop l = true) (hsingle : SingleLoop c.stack) : c'.awaited = [] := by
  obtain ⟨hthrows, hpassed⟩ := Bool.and_eq_true_iff.mp hfails
  have hstack := (h.thrown hthrows).2
  have hmain : ∃ handlers, unwind c.stack.tail = [.user handlers] := by
    obtain ⟨w, stack⟩ := c
    cases stack with
    | nil => cases hpassed
    | cons frame rest =>
        refine hsingle.tail.unwind_batch ?_
        cases frame with
        | user handlers => exact hpassed
        | batch k n => cases l <;> cases hthrows
        | _ => exact hpassed
  obtain ⟨handlers, hmain⟩ := hmain
  simp [Config.awaited, hstack, hmain, Frame.window]

/-! ### No failure is contained -/

/-- At no position does a failure in a batch stay with the socket that has failed: no "error" event
is triggered and the loop is aborted. Unless a handler re-enters the loop, none of the events after
it is dispatched by a later `reactor_task` that does not fetch it anew. -/
theorem failure_is_not_contained {ls : List Label} {c c' : Config V E F}
    (hrun : run (step .epoll) {} ls = some c) (hfails : c.failsInLoop l = true)
    (hl : step .epoll c l = some c') :
    ¬ Contained .epoll c c' ∧ c'.loops < c.loops ∧ (∀ t, .triggered t .error ∉ happenings c c') ∧
      (EachStep (step .epoll) (fun c l => c.reenters l = false) ({} : Config V E F) ls →
        ∀ e, ¬ StillDispatched .epoll c' e) := by
  have hs : c.Sound := .run hrun
  have hstep := stepped hl
  obtain ⟨hthrows, hpassed⟩ := Bool.and_eq_true_iff.mp hfails
  obtain ⟨hnotices, hstack⟩ := hstep.thrown hthrows
  have hfewer : c'.loops < c.loops := by
    have hsum := c.loops_unwind
    have hpos : 0 < (unwound c.stack).countP Frame.isBatch := by
      rw [List.countP_pos_iff]
      simpa using hpassed
    rw [Config.loops, hstack]
    omega
  refine ⟨fun h => absurd h.goesOn (Nat.not_le.mpr hfewer), hfewer, ?_, ?_⟩
  · intro t hmem
    cases World.no_notice (hstep.changes hs.seen).log_grows hnotices hmem
  · intro hreenters e hstill
    have hstart : SingleLoop ({} : Config V E F).stack := trivial
    have hsingle : SingleLoop c.stack := run_invariant (I := fun c => SingleLoop c.stack)
      (fun _ _ _ h hg hl => h.step (stepped hl) hg) hstart hreenters hrun
    have hkept := hstill.awaited (hs.step hl)
    simp [hstep.awaits_nothing hfails hsingle] at hkept

end Machine

/-- Two connected sockets, and an event of each in one batch. -/
def twoReadable : List Label :=
  [.newSocket 3 none, .newSocket 4 none, .connect 0 (.ret 0), .return_, .tau,
    .connect 1 (.ret 0), .return_, .tau,
    .poll [(⟨3, true, false⟩, .socket 0), (⟨4, true, false⟩, .socket 1)], .tau]

theorem failure_is_not_contained_sample : ∃ c c' : Config ℕ ℕ SampleHandler,
    run (step .epoll) {} (twoReadable ++ [.read [.data [7], .err .again]]) = some c ∧
      c.remaining = [(⟨4, true, false⟩, .socket 1)] ∧ step .epoll c .throw_ = some c' ∧
      ¬ Contained .epoll c c' ∧ c'.loops < c.loops ∧
      (∀ t, .triggered t .error ∉ happenings c c') ∧
      ∀ e, ¬ StillDispatched .epoll c' e := by
  obtain ⟨c, c', hrun, hfails, hremaining, hl⟩ : ∃ c c' : Config ℕ ℕ SampleHandler,
      run (step .epoll) {} (twoReadable ++ [.read [.data [7], .err .again]]) = some c ∧
        c.failsInLoop .throw_ = true ∧ c.remaining = [(⟨4, true, false⟩, .socket 1)] ∧
        step .epoll c .throw_ = some c' := ⟨_, _, rfl, rfl, rfl, rfl⟩
  obtain ⟨hnot, hfewer, herror, hlost⟩ := failure_is_not_contained hrun hfails hl
  exact ⟨c, c', hrun, hremaining, hl, hnot, hfewer, herror, hlost (by decide +kernel)⟩

/-- The peer of the first socket resets the connection. The main program gets the exception, and
the event of the second socket is lost. -/
theorem reset_loses_event : ∃ c c' : Config ℕ ℕ SampleHandler,
    run (step .epoll) {} twoReadable = some c ∧ c.failsInLoop (.read [.err (.other 104)]) = true ∧
      step .epoll c (.read [.err (.other 104)]) = some c' ∧ c'.stack = [.user []] ∧
      c.remaining = [(⟨4, true, false⟩, .socket 1)] ∧
      happenings c c' = [.io (.socket 0) .read 3] ∧
      ¬ StillDispatched .epoll c' (⟨4, true, false⟩, .socket 1) ∧ ¬ Contained .epoll c c' := by
  obtain ⟨c, c', hrun, hfails, hl, hstack, hremaining, hnew⟩ :
      ∃ c c' : Config ℕ ℕ SampleHandler, run (step .epoll) {} twoReadable = some c ∧
        c.failsInLoop (.read [.err (.other 104)]) = true ∧
        step .epoll c (.read [.err (.other 104)]) = some c' ∧ c'.stack = [.user []] ∧
        c.remaining = [(⟨4, true, false⟩, .socket 1)] ∧
        happenings c c' = [.io (.socket 0) .read 3] := ⟨_, _, rfl, rfl, rfl, rfl, rfl, rfl⟩
  have hlost : ¬ StillDispatched .epoll c' (⟨4, true, false⟩, .socket 1) := fun h => by
    have hs : c.Sound := .run hrun
    have hkept := h.awaited (hs.step hl)
    simp [Config.awaited, hstack, Frame.window] at hkept
  exact ⟨c, c', hrun, hfails, hl, hstack, hremaining, hnew, hlost,
    fun h => hlost (h.dispatched _ (by simp [hremaining]))⟩

end Libasync.Reactor
