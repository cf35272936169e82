import Libasync.Reactor.Operations

/-! # Steps of the machine

A step changes the stack only, or it is a call of user code or a piece of a library function.
What a call or a piece may do follows from the frame and the label. -/

namespace Libasync.Reactor

open Promise Socket

variable {V E F : Type*}

/-! ### What a step closes and opens -/

namespace World

/-- The number that a step closes, with the object for which it does. -/
def closed? (w : World V E F) : Frame → Label → Option (Target × Fd)
  | .user _, .close i answer => (w.closeDrops? i answer).map fun fd => (.socket i, fd)
  | .user _, .closeServer j (.ret _) => (w.serverFd? j).map fun fd => (.server j, fd)
  | .errorTail i _, .closing answer => (w.closeDrops? i answer).map fun fd => (.socket i, fd)
  | _, _ => none

/-- The number that a step unregisters, with the object for which it does. -/
def unregistered? (w : World V E F) : Frame → Label → Option (Target × Fd)
  | .user _, .closeServer j _ => (w.serverFd? j).map fun fd => (.server j, fd)
  | .closeTail i, .tau => (w.fd? i).map fun fd => (.socket i, fd)
  | .closedTail i _ _, .tau => (w.fd? i).map fun fd => (.socket i, fd)
  | _, _ => none

end World

/-- The number that a step gives to a new object. -/
def opened? : Frame → Label → Option Fd
  | .user _, .newSocket fd none => some fd
  | .user _, .newServer fd none => some fd
  | .accepting _ _, .accept answer => answer.opens?
  | _, _ => none

/-- The piece that takes the end of file of this socket. -/
def Frame.takesEof? : Frame → Option ℕ
  | .readTail i true _ _ => some i
  | _ => none

/-- The socket of which a step reads the end of file. -/
def readsEof? : Frame → Label → Option ℕ
  | .reading i _ _, .read answers =>
      match readLoop answers with
      | some (.ok (_, true)) => some i
      | _ => none
  | _, _ => none

/-- What a step at this frame may do. The lookup of the epoll backend may insert a null pointer. -/
def World.permits (backend : Backend) (w : World V E F) (frame : Frame) (l : Label) : Permits where
  closes t fd := w.closed? frame l = some (t, fd)
  unregisters t fd := w.unregistered? frame l = some (t, fd)
  opens fd := opened? frame l = some fd
  readsEof i := readsEof? frame l = some i
  eofAgain i := frame.takesEof? = some i ∧ w.status? i = some .halfClosed
  polls batch := l = .poll batch
  nullEntry := backend = .epoll

section Machine

variable [Blank V] {backend : Backend}

/-! ### Calls and pieces -/

/-- A call inserts no null pointer. -/
theorem userStep_changes_of {w w' : World V E F} {handlers : List Ref} {l : Label} {eff : Effect}
    (h : userStep backend w l = some (w', eff)) (N : Prop) :
    Changes { w.permits backend (.user handlers) l with nullEntry := N } w w' := by
  cases l with
  | newSocket fd failure =>
      refine World.newSocket_changes h ?_ ?_
      · rintro rfl
        rfl
      · simp [Permits.DropsNothing, World.permits, World.closed?, World.unregistered?]
  | newServer fd failure =>
      refine World.newServer_changes h ?_ ?_
      · rintro rfl
        rfl
      · simp [Permits.DropsNothing, World.permits, World.closed?, World.unregistered?]
  | createFails errno =>
      simp only [userStep, Option.some.injEq, Prod.mk.injEq] at h
      rw [← h.1]
  | connect i answer => exact World.connect_changes h
  | write i data answers => exact World.write_changes h
  | close i answer =>
      refine World.closeSocket_changes h ?_
      intro fd hfd
      simp [World.permits, World.closed?, hfd]
  | listen j bind listen => exact World.listen_changes h
  | closeServer j answer =>
      refine World.closeServer_changes h ?_ ?_
      · intro fd hfd hanswer
        cases answer with
        | err errno => exact absurd rfl (hanswer errno)
        | ret count => simp [World.permits, World.closed?, hfd]
      · intro fd hfd
        simp [World.permits, World.unregistered?, hfd]
  | poll batch => exact World.poll_changes h rfl
  | pollFails =>
      simp only [userStep, Option.some.injEq, Prod.mk.injEq] at h
      rw [← h.1]
      exact .single (.neutral (.of_eq rfl rfl rfl rfl rfl rfl))
  | handler | return_ | throw_ | tau | read answers | soError answer | flush answers
  | closing answer | accept answer => cases h

theorem userStep_changes {w w' : World V E F} {handlers : List Ref} {l : Label} {eff : Effect}
    (h : userStep backend w l = some (w', eff)) :
    Changes (w.permits backend (.user handlers) l) w w' :=
  userStep_changes_of h (backend = .epoll)

/-- A piece that inserts a null pointer crashes. -/
theorem libraryStep_changes_of {w w' : World V E F} {frame : Frame} {l : Label} {eff : Effect}
    (h : libraryStep backend w frame l = some (w', eff))
    (hseen : ∀ i, frame.takesEof? = some i → .endOfFile i ∈ w.log) {N : Prop}
    (hN : backend = .epoll → eff = .crash → N) :
    Changes { w.permits backend frame l with nullEntry := N } w w' := by
  simp only [libraryStep] at h
  split at h
  · refine World.unregTail_changes h ?_
    intro fd hfd
    simp [World.permits, World.unregistered?, hfd]
  · simp only [Option.some.injEq, Prod.mk.injEq] at h
    rw [← h.1]
    exact World.promises_changes _
  · refine World.readEvent_changes h ?_
    intro data hloop
    simp [World.permits, readsEof?, hloop]
  · refine World.endOfFile_changes h ?_ ?_
    · rintro rfl
      exact hseen _ rfl
    · rintro rfl hhalf
      exact ⟨rfl, hhalf⟩
  · refine World.unregTail_changes h ?_
    intro fd hfd
    simp [World.permits, World.unregistered?, hfd]
  · simp only [Option.some.injEq, Prod.mk.injEq] at h
    rw [← h.1]
  · exact World.connectEvent_changes h
  · exact World.flushEvent_changes h
  · refine World.closeSocket_changes h ?_
    intro fd hfd
    simp [World.permits, World.closed?, hfd]
  · refine World.acceptEvent_changes h ?_ ?_
    · intro fd hfd
      simpa [World.permits, opened?] using hfd
    · simp [Permits.DropsNothing, World.permits, World.closed?, World.unregistered?]
  · exact World.dispatch_changes h hN
  · cases h

theorem libraryStep_changes {w w' : World V E F} {frame : Frame} {l : Label} {eff : Effect}
    (h : libraryStep backend w frame l = some (w', eff))
    (hseen : ∀ i, frame.takesEof? = some i → .endOfFile i ∈ w.log) :
    Changes (w.permits backend frame l) w w' :=
  libraryStep_changes_of h hseen fun hepoll _ => hepoll

/-- User code is no piece of a library function. -/
theorem libraryStep_user {w : World V E F} {handlers : List Ref} {l : Label} :
    libraryStep backend w (.user handlers) l = none := by
  cases l <;> rfl

/-- The labels of the pieces of library functions. -/
def Label.ofLibrary : Label → Bool
  | .tau | .read _ | .soError _ | .flush _ | .closing _ | .accept _ => true
  | _ => false

theorem libraryStep_label {w : World V E F} {frame : Frame} {l : Label} {r : World V E F × Effect}
    (h : libraryStep backend w frame l = some r) : l.ofLibrary = true := by
  simp only [libraryStep] at h
  split at h
  case h_12 => cases h
  all_goals rfl

/-- User code or a piece of a library function, at this frame. -/
def pieceStep (backend : Backend) (w : World V E F) :
    Frame → Label → Option (World V E F × Effect)
  | .user _, l => userStep backend w l
  | frame, l => libraryStep backend w frame l

theorem pieceStep_of_library {w : World V E F} {top : Frame} {l : Label}
    {r : World V E F × Effect} (h : libraryStep backend w top l = some r) :
    pieceStep backend w top l = some r := by
  cases top with
  | user handlers => simp [libraryStep_user] at h
  | _ => exact h

/-! ### Steps -/

/-- The kinds of steps. -/
inductive Stepped (backend : Backend) : Config V E F → Label → Config V E F → Prop where
  | handler (w p handlers rest) :
      Stepped backend ⟨w, .user (p :: handlers) :: rest⟩ .handler
        ⟨{ w with promises := w.promises.resolveImpl p Blank.blank }, .user handlers :: rest⟩
  | return_ (w frame rest) :
      Stepped backend ⟨w, .user [] :: frame :: rest⟩ .return_ ⟨w, frame :: rest⟩
  | throw_ (w handlers frame rest) :
      Stepped backend ⟨w, .user handlers :: frame :: rest⟩ .throw_ ⟨w, unwind (frame :: rest)⟩
  | user (w handlers rest l w' eff) (call : userStep backend w l = some (w', eff)) :
      Stepped backend ⟨w, .user handlers :: rest⟩ l
        (Config.after (.user handlers :: rest) (w', eff))
  | library (w frame rest l w' eff) (piece : libraryStep backend w frame l = some (w', eff)) :
      Stepped backend ⟨w, frame :: rest⟩ l (Config.after rest (w', eff))

theorem stepped {c c' : Config V E F} {l : Label} (h : step backend c l = some c') :
    Stepped backend c l c' := by
  obtain ⟨w, stack⟩ := c
  simp only [step] at h
  split at h
  · simp only [Option.some.injEq] at h
    rw [← h]
    exact .handler w _ _ _
  · simp only [Option.some.injEq] at h
    rw [← h]
    exact .return_ w _ _
  · simp only [Option.some.injEq] at h
    rw [← h]
    exact .throw_ w _ _ _
  · obtain ⟨⟨w', eff⟩, hcall, heq⟩ := Option.map_eq_some_iff.mp h
    rw [← heq]
    exact .user w _ _ _ w' eff hcall
  · obtain ⟨⟨w', eff⟩, hpiece, heq⟩ := Option.map_eq_some_iff.mp h
    rw [← heq]
    exact .library w _ _ _ w' eff hpiece
  · cases h

/-- User code calls a function. -/
theorem Stepped.called {c c' : Config V E F} {l : Label} (h : Stepped backend c l c')
    (hl : l.ofLibrary = false) (hreturn : l ≠ .return_) (hthrow : l ≠ .throw_)
    (hhandler : l ≠ .handler) :
    ∃ handlers rest eff, c.stack = .user handlers :: rest ∧
      userStep backend c.world l = some (c'.world, eff) := by
  cases h with
  | handler w p handlers rest => exact absurd rfl hhandler
  | return_ w frame rest => exact absurd rfl hreturn
  | throw_ w handlers frame rest => exact absurd rfl hthrow
  | user w handlers rest l w' eff call =>
      refine ⟨handlers, rest, eff, rfl, ?_⟩
      cases eff <;> exact call
  | library w frame rest l w' eff piece =>
      rw [libraryStep_label piece] at hl
      cases hl

omit [Blank V] in
@[simp] theorem Config.after_world (rest : List Frame) (w : World V E F) (eff : Effect) :
    (Config.after rest (w, eff)).world = w := by
  cases eff <;> rfl

/-- What a step may do, from the frame on top of the stack. -/
def Config.permits (backend : Backend) (c : Config V E F) (l : Label) : Permits :=
  match c.stack with
  | frame :: _ => c.world.permits backend frame l
  | [] => .none

/-- The numbers that a step closes or unregisters, with the object for which it does. -/
def Config.dropped (c : Config V E F) (l : Label) : List (Target × Fd) :=
  match c.stack with
  | frame :: _ => (c.world.closed? frame l).toList ++ (c.world.unregistered? frame l).toList
  | [] => []

omit [Blank V] in
theorem Config.mem_dropped {c : Config V E F} {l : Label} {t : Target} {n : Fd}
    (h : (c.permits backend l).closes t n ∨ (c.permits backend l).unregisters t n) :
    (t, n) ∈ c.dropped l := by
  obtain ⟨w, stack⟩ := c
  cases stack with
  | nil => simp [permits, Permits.none] at h
  | cons frame rest => simpa [permits, World.permits, dropped] using h

/-- The end of file that a frame on the stack will take has been seen. -/
def Config.EofSeen (c : Config V E F) : Prop :=
  ∀ frame ∈ c.stack, ∀ i, frame.takesEof? = some i → .endOfFile i ∈ c.world.log

theorem Stepped.changes {c c' : Config V E F} {l : Label} (h : Stepped backend c l c')
    (hseen : c.EofSeen) : Changes (c.permits backend l) c.world c'.world := by
  cases h with
  | handler w p handlers rest => exact World.promises_changes _
  | return_ w frame rest => exact .refl
  | throw_ w handlers frame rest => exact .refl
  | user w handlers rest l w' eff call =>
      rw [Config.after_world]
      exact userStep_changes call
  | library w frame rest l w' eff piece =>
      rw [Config.after_world]
      exact libraryStep_changes piece fun i hi => hseen frame (by simp) i hi

/-- A step that does not crash inserts no null pointer. -/
theorem Stepped.changes_of_alive {c c' : Config V E F} {l : Label} (h : Stepped backend c l c')
    (hseen : c.EofSeen) (halive : c'.stack ≠ []) :
    Changes { c.permits backend l with nullEntry := False } c.world c'.world := by
  cases h with
  | handler w p handlers rest => exact World.promises_changes _
  | return_ w frame rest => exact .refl
  | throw_ w handlers frame rest => exact .refl
  | user w handlers rest l w' eff call =>
      rw [Config.after_world]
      exact userStep_changes_of call False
  | library w frame rest l w' eff piece =>
      rw [Config.after_world]
      refine libraryStep_changes_of piece (fun i hi => hseen frame (by simp) i hi) ?_
      rintro - rfl
      exact halive rfl

end Machine

end Libasync.Reactor
