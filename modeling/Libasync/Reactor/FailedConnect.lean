import Libasync.Reactor.Forward

/-! # A connection attempt that fails

The connect branch reports the failure and calls `close`, which does nothing for a socket that is
connecting. The read branch, which comes first, throws. -/

namespace Libasync.Reactor

open Promise Socket Automaton

variable {V E F : Type*}

/-- The kernel reports the failure of the attempt: `getsockopt` fails or gets an error, or the read
branch of the same event gets it first. -/
def Config.attemptFails (i : ℕ) (c : Config V E F) (l : Label) : Bool :=
  match c.stack, l with
  | .writePart k true _ :: _, .soError answer => decide (k = i ∧ answer ≠ .ret 0)
  | .reading k _ _ :: _, .read answers =>
      decide (k = i ∧ c.world.status? i = some .connecting) &&
        match readLoop answers with
        | some (.error _) => true
        | _ => false
  | _, _ => false

/-- `reactor_on_event`, which has the frame on top of `c`, has returned, with one "error" event and
the socket closed. -/
structure CleanedUp (i : ℕ) (c c' : Config V E F) : Prop where
  returned : c'.stack = c.stack.tail
  reported : (fired i c'.world.log).count .error = (fired i c.world.log).count .error + 1
  status : c'.world.status? i = some .closed
  descriptor : ∀ fd, c'.world.descriptors fd ≠ some (some (.socket i))
  table : ∀ fd, c'.world.table fd ≠ some (some (.socket i))

/-- The step is in a function that has these frames below it. -/
def Config.within (base : List Frame) (c : Config V E F) (_ : Label) : Prop :=
  base.length < c.stack.length

instance (base : List Frame) (c : Config V E F) (l : Label) : Decidable (c.within base l) :=
  inferInstanceAs (Decidable (_ < _))

/-- However the function that processes the failure goes on until it is left, it cleans up. -/
def CleansUp [Blank V] (backend : Backend) (i : ℕ) (c : Config V E F) (l : Label) : Prop :=
  ∀ c₁ ∈ step backend c l, ∀ ls c', run (step backend) c₁ ls = some c' →
    EachStep (step backend) (Config.within c.stack.tail) c₁ ls →
    c'.stack.length ≤ c.stack.tail.length → CleanedUp i c c'

/-- Code runs the reactor. -/
def Label.polls : Label → Bool
  | .poll _ => true
  | _ => false

/-! ### While the handlers of "error" run -/

/-- The frames of handlers that do not run the reactor, and of the functions that they call. -/
def Frame.calls : Frame → Bool
  | .user _ | .closeTail _ | .connectTail | .errorTail .. => true
  | _ => false

theorem Frame.calls_of_pushes {top frame : Frame} (htop : top.calls = true)
    (h : top.pushes frame = true) : frame.calls = true ∨ ∃ k n, frame = .batch k n := by
  cases top with
  | user | errorTail =>
      cases frame with
      | user | closeTail | connectTail | errorTail => exact .inl rfl
      | batch k n => exact .inr ⟨k, n, rfl⟩
      | reading | readTail | closedTail | writePart | accepting => cases h
  | closeTail | connectTail => cases frame <;> cases h
  | reading | readTail | closedTail | writePart | accepting | batch => cases htop

/-- The socket is connecting, and what runs on these frames does not look at it, until they have
the control again. -/
structure Config.Stuck (i : ℕ) (base : List Frame) (c : Config V E F) : Prop where
  connecting : c.world.status? i = some .connecting
  above : c.stack.length ≤ base.length ∨
    ∃ upper, c.stack = upper ++ base ∧ ∀ frame ∈ upper, frame.calls = true

theorem suffix_append {α : Type*} {xs upper base : List α} (h : xs <:+ upper ++ base) :
    xs.length ≤ base.length ∨ ∃ upper', xs = upper' ++ base ∧ upper' <:+ upper := by
  obtain ⟨front, heq⟩ := h
  rcases List.append_eq_append_iff.mp heq with ⟨middle, rfl, rfl⟩ | ⟨middle, rfl, rfl⟩
  · exact .inr ⟨middle, rfl, List.suffix_append front middle⟩
  · exact .inl (by simp)

/-- An exception takes frames away and adds none. -/
theorem unwind_above {base upper : List Frame} (hupper : ∀ frame ∈ upper, frame.calls = true) :
    (unwind (upper ++ base)).length ≤ base.length ∨
      ∃ upper', unwind (upper ++ base) = upper' ++ base ∧
        ∀ frame ∈ upper', frame.calls = true := by
  refine (suffix_append (unwind_suffix _)).imp_right ?_
  rintro ⟨upper', heq, hsuffix⟩
  exact ⟨upper', heq, fun frame hmem => hupper frame (hsuffix.subset hmem)⟩

/-- A call or an exception adds calls only. -/
theorem after_above {base upper : List Frame} {r : World V E F × Effect}
    (hupper : ∀ frame ∈ upper, frame.calls = true)
    (hpushed : ∀ frames, r.2 = .push frames → ∀ frame ∈ frames, frame.calls = true) :
    (Config.after (upper ++ base) r).stack.length ≤ base.length ∨
      ∃ upper', (Config.after (upper ++ base) r).stack = upper' ++ base ∧
        ∀ frame ∈ upper', frame.calls = true := by
  obtain ⟨w, eff⟩ := r
  cases eff with
  | push frames =>
      refine .inr ⟨frames ++ upper, (List.append_assoc _ _ _).symm, ?_⟩
      intro frame hmem
      exact (List.mem_append.mp hmem).elim (hpushed frames rfl frame) (hupper frame)
  | throw failure => exact unwind_above hupper
  | crash => exact .inl (Nat.zero_le _)

section Machine

variable [Blank V] {backend : Backend} {c c' : Config V E F} {l : Label} {i : ℕ} {base : List Frame}

/-- A call by a handler leaves the status of a socket that is connecting. -/
theorem Stepped.stays_connecting (h : Stepped backend c l c') {top : Frame} {rest : List Frame}
    (hstack : c.stack = top :: rest) (htop : top.calls = true)
    (hconnecting : c.world.status? i = some .connecting) :
    c'.world.status? i = some .connecting := by
  obtain ⟨sock, hget, hstatus⟩ := World.socket_of_status hconnecting
  obtain ⟨sock', names, hmoved, hget', -⟩ := h.moved hget
  rw [World.status?_eq _ hget']
  cases hmoved with
  | stays => rw [hstatus]
  | turns top' rest' w' eff sock' names stack turn =>
      obtain ⟨rfl, -⟩ := List.cons.inj (hstack.symm.trans stack)
      cases turn with
      | quiet => rw [hstatus]
      | wrote handlers data answers w' eff r written =>
          rw [(wrote_status written).1, hstatus]
      | connected handlers count w' idle | connecting handlers w' idle => simp [hstatus] at idle
      | halfClosed frame l answer w' call connected => simp [hstatus] at connected
      | fullClosed frame l count w' call half => simp [hstatus] at half
      | read | eofFirst | eofAgain | established | refused | flushed => cases htop

theorem Config.Stuck.step (h : c.Stuck i base) (hwithin : c.within base l)
    (hpolls : l.polls = false) (hstep : Stepped backend c l c') : c'.Stuck i base := by
  obtain ⟨upper, hstack, hupper⟩ := h.above.resolve_left (Nat.not_le.mpr hwithin)
  obtain ⟨top, calls, rfl⟩ : ∃ top calls, upper = top :: calls := by
    cases upper with
    | nil =>
        rw [within, hstack] at hwithin
        simp at hwithin
    | cons top calls => exact ⟨top, calls, rfl⟩
  have htop := hupper top (by simp)
  have hcalls : ∀ frame ∈ calls, frame.calls = true :=
    fun frame hmem => hupper frame (List.mem_cons_of_mem top hmem)
  refine ⟨hstep.stays_connecting hstack htop h.connecting, ?_⟩
  have hpushed {r : World V E F × Effect} (hpiece : pieceStep backend c.world top l = some r)
      (frames : List Frame) (heff : r.2 = .push frames) :
      ∀ frame ∈ frames, frame.calls = true := by
    obtain ⟨w', eff⟩ := r
    obtain rfl : eff = .push frames := heff
    intro frame hmem
    refine (Frame.calls_of_pushes htop (pieceStep_pushes hpiece hmem)).resolve_right ?_
    rintro ⟨k, n, rfl⟩
    cases pieceStep_pushed hpiece with
    | polled top batch label => simp [label, Label.polls] at hpolls
    | skipped | delivered => cases htop
    | nothing => cases hmem
    | handlers | connecting | closing | noData | data | eofAgain | eofFirst | rest | error
    | accepted => simp at hmem
  cases hstep with
  | handler w p handlers rest =>
      obtain ⟨-, rfl⟩ := List.cons.inj hstack
      exact .inr ⟨.user handlers :: calls, rfl, by simpa [Frame.calls] using hcalls⟩
  | return_ w frame rest =>
      obtain ⟨-, heq⟩ := List.cons.inj hstack
      exact .inr ⟨calls, heq, hcalls⟩
  | throw_ w handlers frame rest =>
      have heq : frame :: rest = calls ++ base := (List.cons.inj hstack).2
      rw [heq]
      exact unwind_above hcalls
  | user w handlers rest l w' eff call =>
      obtain ⟨rfl, rfl⟩ := List.cons.inj hstack
      exact after_above hupper (hpushed (r := (w', eff)) call)
  | library w frame rest l w' eff piece =>
      obtain ⟨rfl, rfl⟩ := List.cons.inj hstack
      exact after_above hcalls (hpushed (pieceStep_of_library piece))

/-- The failing step itself: the connect branch calls the handlers of "error", and the read branch
throws. -/
theorem Stepped.of_fails (h : Stepped backend c l c') (hfails : c.attemptFails i l = true) :
    c'.world.status? i = some .connecting ∧
      ((∃ since, c'.stack = .user [] :: .errorTail i since :: c.stack.tail) ∨
        c'.stack.length ≤ c.stack.tail.length) := by
  obtain ⟨w, stack⟩ := c
  simp only [Config.attemptFails] at hfails
  split at hfails
  · rename_i k since rest answer
    obtain ⟨rfl, hanswer⟩ := of_decide_eq_true hfails
    cases h with
    | library w top rest l w' eff piece =>
        simp only [libraryStep, World.connectEvent] at piece
        cases hget : w.sockets[k]? with
        | none => simp [hget] at piece
        | some sock =>
            simp only [hget, Option.ite_none_right_eq_some, hanswer, if_false, Option.some.injEq,
              Prod.mk.injEq] at piece
            obtain ⟨⟨hconnecting, -⟩, rfl, rfl⟩ := piece
            exact ⟨(World.status?_eq _ hget).trans (congrArg some hconnecting),
              .inl ⟨since, rfl⟩⟩
  · rename_i k slot since rest answers
    simp only [Bool.and_eq_true, decide_eq_true_eq] at hfails
    obtain ⟨⟨rfl, hconnecting⟩, hfails⟩ := hfails
    cases h with
    | library w top rest l w' eff piece =>
        simp only [libraryStep, World.readEvent] at piece
        cases hget : w.sockets[k]? with
        | none => simp [hget] at piece
        | some sock =>
            cases hloop : readLoop answers with
            | none => simp [hloop] at hfails
            | some result =>
                cases result with
                | ok data => simp [hloop] at hfails
                | error errno =>
                    simp only [hget, hloop, Option.ite_none_right_eq_some, Option.some.injEq,
                      Prod.mk.injEq] at piece
                    obtain ⟨-, rfl, rfl⟩ := piece
                    exact ⟨hconnecting, .inr (unwind_suffix _).length_le⟩
  · cases hfails

theorem Config.stuck_of_fails (hfails : c.attemptFails i l = true)
    (hstep : Stepped backend c l c') : c'.Stuck i c.stack.tail := by
  obtain ⟨hconnecting, ⟨since, hstack⟩ | hleft⟩ := hstep.of_fails hfails
  · exact ⟨hconnecting, .inr ⟨[.user [], .errorTail i since], hstack, by simp [Frame.calls]⟩⟩
  · exact ⟨hconnecting, .inl hleft⟩

/-- If the handlers of "error" return at once, `reactor_on_event` is left. -/
theorem Config.leaves_at_once (hfails : c.attemptFails i l = true)
    (hstep : Stepped backend c l c') : ∃ ls d, run (step backend) c' ls = some d ∧
      EachStep (step backend) (Config.within c.stack.tail) c' ls ∧
      (∀ l ∈ ls, l.polls = false) ∧ d.stack.length ≤ c.stack.tail.length := by
  obtain ⟨hconnecting, ⟨since, hstack⟩ | hleft⟩ := hstep.of_fails hfails
  · obtain ⟨sock, hget, hstatus⟩ := World.socket_of_status hconnecting
    obtain ⟨w, stack⟩ := c'
    obtain rfl : stack = .user [] :: .errorTail i since :: c.stack.tail := hstack
    let called := w.record (.closeCalled (.socket i))
    have hclose : w.closeSocket i (.ret 0) = some (called, .push []) := by
      have hget' : w.sockets[i]? = some sock := hget
      simp [World.closeSocket, hget', hstatus, called]
    have hreturn : Reactor.step backend (⟨w, .user [] :: .errorTail i since :: c.stack.tail⟩ :
        Config V E F) .return_ = some ⟨w, .errorTail i since :: c.stack.tail⟩ := rfl
    have hcloses : Reactor.step backend (⟨w, .errorTail i since :: c.stack.tail⟩ : Config V E F)
        (.closing (.ret 0)) = some ⟨called, c.stack.tail⟩ := by
      simp [Reactor.step, libraryStep, hclose, Config.after]
    refine ⟨[.return_, .closing (.ret 0)], ⟨called, c.stack.tail⟩, ?_, ?_, by decide, le_rfl⟩
    · rw [run_cons, hreturn, Option.bind_some, run_cons, hcloses]
      rfl
    · rw [eachStep_cons_iff]
      refine ⟨by simp only [within, List.length_cons]; omega, fun c₂ hc₂ => ?_⟩
      obtain rfl := Option.some.inj (hreturn.symm.trans hc₂)
      rw [eachStep_cons_iff]
      exact ⟨Nat.lt_succ_self _, fun _ _ => eachStep_nil _ _⟩
  · exact ⟨[], c', rfl, eachStep_nil _ _, by simp, hleft⟩

/-- However the failure is reported, the socket is still connecting when `reactor_on_event` is left:
unless a handler of "error" runs the reactor itself, nothing is cleaned up. -/
theorem Config.never_cleaned_up {c₁ : Config V E F} {ls : List Label}
    (hfails : c.attemptFails i l = true) (hl : step backend c l = some c₁)
    (hrun : run (Reactor.step backend) c₁ ls = some c')
    (hwithin : EachStep (Reactor.step backend) (Config.within c.stack.tail) c₁ ls)
    (hquiet : ∀ l ∈ ls, l.polls = false) :
    c'.world.status? i = some .connecting ∧ ¬ CleanedUp i c c' := by
  have hguard : EachStep (Reactor.step backend)
      (fun d l => d.within c.stack.tail l ∧ l.polls = false) c₁ ls := by
    intro before l' after d hls hd
    exact ⟨hwithin before l' after d hls hd, hquiet l' (by simp [hls])⟩
  have hstuck : c'.Stuck i c.stack.tail := run_invariant
    (fun _ _ _ h hg hstep => h.step hg.1 hg.2 (stepped hstep))
    (Config.stuck_of_fails hfails (stepped hl)) hguard hrun
  refine ⟨hstuck.connecting, fun hclean => ?_⟩
  have hclosed := hclean.status
  rw [hstuck.connecting] at hclosed
  cases hclosed

/-- No failure of a connection attempt is cleaned up for certain, and as long as the handlers of
"error" do not run the reactor themselves, none is ever cleaned up. -/
theorem failed_connect_not_cleaned_up {c₁ : Config V E F} (hfails : c.attemptFails i l = true)
    (hl : step backend c l = some c₁) :
    ¬ CleansUp backend i c l ∧ ∀ ls c', run (step backend) c₁ ls = some c' →
      EachStep (step backend) (Config.within c.stack.tail) c₁ ls →
      (∀ l ∈ ls, l.polls = false) →
      c'.world.status? i = some .connecting ∧ ¬ CleanedUp i c c' := by
  refine ⟨fun hcleans => ?_, fun ls c' => Config.never_cleaned_up hfails hl⟩
  obtain ⟨ls, d, hrun, hwithin, hquiet, hleft⟩ := Config.leaves_at_once hfails (stepped hl)
  have hnever := Config.never_cleaned_up hfails hl hrun hwithin hquiet
  exact hnever.2 (hcleans c₁ hl ls d hrun hwithin hleft)

end Machine

/-- A connection attempt, up to the event that reports its failure. -/
def attemptRun : List Label :=
  [.newSocket 3 none, .connect 0 (.err .inProgress), .poll [(⟨3, false, true⟩, .socket 0)], .tau]

/-- The handlers of "error" return, and `close` is called. -/
def failureHandled : List Label := [.return_, .closing (.ret 0)]

theorem failed_connect_not_cleaned_up_sample : ∃ c c₁ c' : Config ℕ ℕ SampleHandler,
    run (step .epoll) {} attemptRun = some c ∧ step .epoll c (.soError (.ret 111)) = some c₁ ∧
      run (step .epoll) c₁ failureHandled = some c' ∧ c'.stack = c.stack.tail ∧
      ¬ CleanedUp 0 c c' := by
  obtain ⟨c, c₁, c', hc, hfails, hl, hrun, hwithin, hreturned⟩ :
      ∃ c c₁ c' : Config ℕ ℕ SampleHandler, run (step .epoll) {} attemptRun = some c ∧
        c.attemptFails 0 (.soError (.ret 111)) = true ∧
        step .epoll c (.soError (.ret 111)) = some c₁ ∧
        run (step .epoll) c₁ failureHandled = some c' ∧
        EachStep (step .epoll) (Config.within c.stack.tail) c₁ failureHandled ∧
        c'.stack = c.stack.tail := ⟨_, _, _, rfl, rfl, rfl, rfl, by decide +kernel, rfl⟩
  exact ⟨c, c₁, c', hc, hl, hrun, hreturned,
    ((failed_connect_not_cleaned_up hfails hl).2 _ _ hrun hwithin (by decide)).2⟩

/-- The same attempt, whose failure is reported as readable, too. -/
def readableAttemptRun : List Label :=
  [.newSocket 3 none, .connect 0 (.err .inProgress), .poll [(⟨3, true, true⟩, .socket 0)], .tau]

/-- When the failure has been processed, with these events and so much left of the frames below, the
socket keeps its status, its descriptor and its entry. -/
def Leaks (before failure : List Label) (left : List Frame → List Frame)
    (events : List EventName) : Prop :=
  ∃ c c' : Config ℕ ℕ SampleHandler, run (step .epoll) {} before = some c ∧
    run (step .epoll) c failure = some c' ∧ c'.stack = left c.stack.tail ∧
    fired 0 c'.world.log = events ∧ c'.world.status? 0 = some .connecting ∧
    c'.world.descriptors 3 = some (some (.socket 0)) ∧
    c'.world.table 3 = some (some (.socket 0)) ∧ ¬ CleanedUp 0 c c'

theorem leaks_of_run {before failure : List Label} {left : List Frame → List Frame}
    {events : List EventName} {c c' : Config ℕ ℕ SampleHandler}
    (hc : run (step .epoll) {} before = some c) (hrun : run (step .epoll) c failure = some c')
    (hleft : c'.stack = left c.stack.tail) (hfired : fired 0 c'.world.log = events)
    (hstatus : c'.world.status? 0 = some .connecting)
    (hopen : c'.world.descriptors 3 = some (some (.socket 0)))
    (hentry : c'.world.table 3 = some (some (.socket 0))) :
    Leaks before failure left events := by
  refine ⟨c, c', hc, hrun, hleft, hfired, hstatus, hopen, hentry, fun hclean => ?_⟩
  exact hclean.descriptor 3 hopen

/-- If the failure is reported as writable only, "error" fires once; if as readable, too, the error
is thrown out of `reactor_task`. The socket is left behind both times. -/
theorem refused_attempt_leaks :
    Leaks attemptRun (.soError (.ret 111) :: failureHandled) id [.error] ∧
      Leaks readableAttemptRun [.read [.err (.other 111)]] unwind [] :=
  ⟨leaks_of_run rfl rfl rfl rfl rfl rfl rfl, leaks_of_run rfl rfl rfl rfl rfl rfl rfl⟩

/-- A handler of "error" runs the reactor, which gets the end of file of the same socket: now
`close` finds it half closed. -/
def reenteringHandler : List Label :=
  [.poll [(⟨3, true, false⟩, .socket 0)], .tau, .read [.endOfFile], .tau, .return_, .tau, .tau,
    .tau, .return_, .closing (.ret 0), .return_, .tau]

example : ((run (step .epoll) ({} : Config ℕ ℕ SampleHandler)
    (attemptRun ++ .soError (.ret 111) :: reenteringHandler)).map fun c =>
      (c.world.status? 0, fired 0 c.world.log, c.world.descriptors 3, c.world.table 3)) =
    some (some .closed, [.error, .end_, .close], none, none) := by
  decide +kernel

end Libasync.Reactor
