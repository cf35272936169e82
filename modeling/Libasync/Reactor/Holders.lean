import Libasync.Reactor.Connecting

/-! # Who holds the context of a promise

The contexts of promises are in the queues of the sockets, in the handlers that `connect` has
registered, and in the handlers that are still to run. Nothing else resolves a promise. -/

namespace Libasync.Reactor

open Promise Socket Automaton

variable {V E F : Type*}

inductive Holder where
  /-- a `trigger` of "connect" that is running -/
  | running
  /-- the handlers registered by `connect` on the socket -/
  | handlers (k : ℕ)
  /-- the write promise queue of the socket -/
  | queue (k : ℕ)
  deriving DecidableEq, Repr

def Config.Holds (c : Config V E F) (p : Ref) : Holder → Prop
  | .running => ∃ handlers, .user handlers ∈ c.stack ∧ p ∈ handlers
  | .handlers k => ∃ sock, c.world.sockets[k]? = some sock ∧ p ∈ sock.connectHandlers
  | .queue k => ∃ sock, c.world.sockets[k]? = some sock ∧
      ∃ item ∈ sock.writePromiseQueue, item.ctx = p

/-- Only promises that were made are held. -/
def Config.Known (c : Config V E F) : Prop :=
  ∀ p holder, c.Holds p holder → p < c.world.promises.heap.length

variable [Blank V] {backend : Backend} {c c' : Config V E F} {l : Label} {p : Ref}

/-! ### What is pushed -/

/-- A `trigger` of "connect" belongs to a socket that was just connected. -/
theorem World.connect_handlers {w w' : World V E F} {i : ℕ} {answer : Answer} {frames : List Frame}
    {handlers : List Ref} (h : w.connect i answer = some (w', .push frames))
    (hmem : .user handlers ∈ frames) (hp : p ∈ handlers) :
    ∃ k sock, w.sockets[k]? = some sock ∧ p ∈ sock.connectHandlers ∧
      w'.status? k = some .connected := by
  cases hget : w.sockets[i]? with
  | none => simp [World.connect, hget] at h
  | some sock =>
      by_cases hidle : sock.status = .idle
      · cases answer with
        | ret count =>
            have hstatus : w.status? i = some .idle := by
              rw [World.status?_eq _ hget, hidle]
            have hconnected := World.connect_connected h hstatus
            simp only [World.connect, hget, hidle, ne_eq, not_true_eq_false, if_false,
              Option.ite_none_right_eq_some, Option.some.injEq, Prod.mk.injEq,
              Effect.push.injEq] at h
            rw [← h.2.2, List.mem_pair] at hmem
            obtain rfl : handlers = sock.connectHandlers := by simpa using hmem
            exact ⟨i, sock, hget, hp, hconnected⟩
        | err errno =>
            cases errno <;>
              simp only [World.connect, hget, hidle, ne_eq, not_true_eq_false, if_false,
                Option.ite_none_right_eq_some, Option.some.injEq, Prod.mk.injEq,
                Effect.push.injEq, reduceCtorEq, and_false] at h
            simp [← h.2.2] at hmem
      · simp only [World.connect, hget, ne_eq, hidle, not_false_eq_true, if_true,
          Option.some.injEq, Prod.mk.injEq, Effect.push.injEq] at h
        simp [← h.2] at hmem

omit [Blank V] in
theorem World.connectEvent_handlers {w w' : World V E F} {i since : ℕ} {answer : Answer}
    {frames : List Frame} {handlers : List Ref}
    (h : w.connectEvent i since answer = some (w', .push frames))
    (hmem : .user handlers ∈ frames) (hp : p ∈ handlers) :
    ∃ k sock, w.sockets[k]? = some sock ∧ p ∈ sock.connectHandlers ∧
      w'.status? k = some .connected := by
  cases hget : w.sockets[i]? with
  | none => simp [World.connectEvent, hget] at h
  | some sock =>
      by_cases hanswer : answer = .ret 0
      · subst hanswer
        have hconnected := World.connectEvent_connected h
        simp only [World.connectEvent, hget, Option.ite_none_right_eq_some, if_true,
          Option.some.injEq, Prod.mk.injEq, Effect.push.injEq] at h
        rw [← h.2.2, List.mem_singleton] at hmem
        obtain rfl : handlers = sock.connectHandlers := by simpa using hmem
        exact ⟨i, sock, hget, hp, hconnected⟩
      · simp only [World.connectEvent, hget, Option.ite_none_right_eq_some, hanswer, if_false,
          Option.some.injEq, Prod.mk.injEq, Effect.push.injEq] at h
        rw [← h.2.2, List.mem_pair] at hmem
        obtain rfl : handlers = [] := by simpa using hmem
        cases hp

/-- No other call or piece runs internal handlers. -/
theorem userStep_handlers {w w' : World V E F} {frames : List Frame} {handlers : List Ref}
    (h : userStep backend w l = some (w', .push frames)) (hmem : .user handlers ∈ frames)
    (hp : p ∈ handlers) :
    ∃ k sock, w.sockets[k]? = some sock ∧ p ∈ sock.connectHandlers ∧
      w'.status? k = some .connected := by
  cases l with
  | connect i answer => exact World.connect_handlers h hmem hp
  | newSocket | newServer | createFails | write | close | listen | closeServer | poll | pollFails =>
      have hnil : ∀ handlers, .user handlers ∈ frames → handlers = [] := by
        simp only [userStep, World.newSocket, World.newServer, World.write, World.closeSocket,
          World.closeRest, World.listen, World.closeServer, World.poll] at h
        repeat' split at h
        all_goals simp only [Option.some.injEq, Prod.mk.injEq, Effect.push.injEq, reduceCtorEq,
          and_false] at h
        all_goals
          rw [← h.2]
          simp
      rw [hnil handlers hmem] at hp
      cases hp
  | handler | return_ | throw_ | tau | read answers | soError answer | flush answers
  | closing answer | accept answer => cases h

theorem libraryStep_handlers {w w' : World V E F} {top : Frame} {frames : List Frame}
    {handlers : List Ref} (h : libraryStep backend w top l = some (w', .push frames))
    (hmem : .user handlers ∈ frames) (hp : p ∈ handlers) :
    ∃ k sock, w.sockets[k]? = some sock ∧ p ∈ sock.connectHandlers ∧
      w'.status? k = some .connected := by
  simp only [libraryStep] at h
  split at h
  case h_7 => exact World.connectEvent_handlers h hmem hp
  case h_12 => cases h
  case h_2 | h_6 =>
    simp only [Option.some.injEq, Prod.mk.injEq, Effect.push.injEq] at h
    simp [← h.2] at hmem
  all_goals
    have hnil : ∀ handlers, .user handlers ∈ frames → handlers = [] := by
      simp only [World.unregTail, World.readEvent, World.endOfFile, World.flushEvent,
        World.closeSocket, World.closeRest, World.acceptEvent, World.dispatch,
        World.startEvent] at h
      repeat' split at h
      all_goals simp only [Option.some.injEq, Prod.mk.injEq, Effect.push.injEq, reduceCtorEq,
        and_false] at h
      all_goals
        rw [← h.2]
        simp
    rw [hnil handlers hmem] at hp
    cases hp

/-! ### What a step hands on -/

/-- A call with this label can make a promise that is held there. -/
def Label.makes : Label → Holder → Prop
  | .connect i _, .handlers k | .write i _ _, .queue k => i = k
  | _, _ => False

/-- The promise has just been made. -/
def FreshIn (c c' : Config V E F) (p : Ref) : Prop :=
  p = c.world.promises.heap.length ∧ p < c'.world.promises.heap.length

omit [Blank V] in
theorem holds_after {w' : World V E F} {rest : List Frame} {eff : Effect}
    (h : (Config.after rest (w', eff)).Holds p .running)
    (hframes : ∀ frames handlers, eff = .push frames → .user handlers ∈ frames → p ∈ handlers →
      ∃ k sock, c.world.sockets[k]? = some sock ∧ p ∈ sock.connectHandlers ∧
        w'.status? k = some .connected) :
    (∃ handlers, .user handlers ∈ rest ∧ p ∈ handlers) ∨
      ∃ k, c.Holds p (.handlers k) ∧ w'.status? k = some .connected := by
  obtain ⟨handlers, hmem, hp⟩ := h
  cases eff with
  | push frames =>
      rcases List.mem_append.mp hmem with hmem | hmem
      · obtain ⟨k, sock, hget, hsock, hstatus⟩ := hframes frames handlers rfl hmem hp
        exact .inr ⟨k, ⟨sock, hget, hsock⟩, hstatus⟩
      · exact .inl ⟨handlers, hmem, hp⟩
  | throw failure => exact .inl ⟨handlers, (unwind_suffix rest).subset hmem, hp⟩
  | crash => cases hmem

/-- A running `trigger` was running before, or the socket was just connected. -/
theorem Stepped.holds_running (h : Stepped backend c l c') (hholds : c'.Holds p .running) :
    c.Holds p .running ∨ ∃ k, c.Holds p (.handlers k) ∧ c'.world.status? k = some .connected := by
  cases h with
  | handler w q handlers rest =>
      obtain ⟨handlers', hmem, hp⟩ := hholds
      rcases List.mem_cons.mp hmem with heq | hmem
      · obtain rfl : handlers' = handlers := by simpa using heq
        exact .inl ⟨q :: handlers', by simp, List.mem_cons_of_mem q hp⟩
      · exact .inl ⟨handlers', List.mem_cons_of_mem _ hmem, hp⟩
  | return_ w frame rest =>
      obtain ⟨handlers, hmem, hp⟩ := hholds
      exact .inl ⟨handlers, List.mem_cons_of_mem _ hmem, hp⟩
  | throw_ w handlers frame rest =>
      obtain ⟨handlers', hmem, hp⟩ := hholds
      exact .inl ⟨handlers', List.mem_cons_of_mem _ ((unwind_suffix _).subset hmem), hp⟩
  | user w handlers rest l w' eff call =>
      rw [Config.after_world]
      refine holds_after (c := ⟨w, .user handlers :: rest⟩) hholds ?_
      rintro frames handlers' rfl hmem hp
      exact userStep_handlers call hmem hp
  | library w frame rest l w' eff piece =>
      rw [Config.after_world]
      refine (holds_after (c := ⟨w, frame :: rest⟩) hholds ?_).imp_left ?_
      · rintro frames handlers rfl hmem hp
        exact libraryStep_handlers piece hmem hp
      · rintro ⟨handlers, hmem, hp⟩
        exact ⟨handlers, List.mem_cons_of_mem frame hmem, hp⟩

omit [Blank V] in
theorem heap_length_create (s : State V E F) : s.heap.length < s.create.1.heap.length := by
  simp [State.create]

/-- What a branch leaves in the socket was there, or it is the promise just made. -/
theorem Turn.held {w w' : World V E F} {i : ℕ} {sock sock' : SocketObject} {frame : Frame}
    {eff : Effect} {names : List EventName} (h : Turn w i sock frame l w' eff sock' names) :
    (p ∈ sock'.connectHandlers → p ∈ sock.connectHandlers ∨
      (p = w.promises.heap.length ∧ p < w'.promises.heap.length) ∧ l.makes (.handlers i)) ∧
    ((∃ item ∈ sock'.writePromiseQueue, item.ctx = p) →
      (∃ item ∈ sock.writePromiseQueue, item.ctx = p) ∨
      (p = w.promises.heap.length ∧ p < w'.promises.heap.length) ∧ l.makes (.queue i)) := by
  cases h with
  | quiet | connected | halfClosed | fullClosed | read | eofFirst | eofAgain | established
  | refused => exact ⟨.inl, .inl⟩
  | connecting handlers w' idle promises =>
      refine ⟨fun hmem => ?_, .inl⟩
      rcases List.mem_append.mp hmem with hold | hnew
      · exact .inl hold
      · rw [List.mem_singleton.mp hnew, promises]
        exact .inr ⟨⟨rfl, heap_length_create _⟩, rfl⟩
  | wrote handlers data answers w' eff r written promises =>
      refine ⟨.inl, ?_⟩
      rintro ⟨item, hitem, rfl⟩
      cases SocketData.wrote written with
      | failed | completed => exact .inl ⟨item, hitem, rfl⟩
      | blocked flush loop exit_eq =>
          rcases List.mem_append.mp hitem with hold | hnew
          · exact .inl ⟨item, hold, rfl⟩
          · rw [List.mem_singleton.mp hnew, promises]
            exact .inr ⟨⟨rfl, heap_length_create _⟩, rfl⟩
  | flushed since answers w' eff r settled written promises =>
      refine ⟨.inl, ?_⟩
      rintro ⟨item, hitem, rfl⟩
      cases SocketData.flushed written with
      | failed => exact .inl ⟨item, hitem, rfl⟩
      | flushed flush items s' loop exit_eq resolve =>
          obtain ⟨reached, hsplit, -⟩ := resolveWritePromises_spec
            (sock.bytesWritten + flush.offset) sock.writePromiseQueue w.promises
          rw [resolve] at hsplit
          exact .inl ⟨item, by rw [hsplit]; exact List.mem_append_right _ hitem, rfl⟩

/-- A context stays where it is, the one of a new promise is put somewhere, and "connect" of a
socket runs the handlers of the socket. -/
theorem Stepped.holds (h : Stepped backend c l c') {holder : Holder} (hholds : c'.Holds p holder) :
    c.Holds p holder ∨ (FreshIn c c' p ∧ l.makes holder) ∨
      holder = .running ∧ ∃ k, c.Holds p (.handlers k) ∧
        c'.world.status? k = some .connected := by
  have hmade {k : ℕ} {sock' : SocketObject} (hget : c.world.sockets[k]? = none)
      (hget' : c'.world.sockets[k]? = some sock') :
      sock'.connectHandlers = [] ∧ sock'.writePromiseQueue = [] := by
    rcases (h.made hget).1 with hnone | ⟨fd, status, hnew, -⟩
    · rw [hnone] at hget'
      cases hget'
    · obtain rfl := Option.some.inj (hnew.symm.trans hget')
      exact ⟨rfl, rfl⟩
  cases holder with
  | running => exact (h.holds_running hholds).imp_right fun hnew => .inr ⟨rfl, hnew⟩
  | handlers k =>
      obtain ⟨sock', hget', hp⟩ := hholds
      cases hget : c.world.sockets[k]? with
      | none =>
          rw [(hmade hget hget').1] at hp
          cases hp
      | some sock =>
          obtain ⟨sock₁, names, hmoved, hget₁, -⟩ := h.moved hget
          obtain rfl := Option.some.inj (hget₁.symm.trans hget')
          cases hmoved with
          | stays => exact .inl ⟨sock, hget, hp⟩
          | turns top rest w' eff sock' names stack turn =>
              rw [FreshIn, Config.after_world]
              exact (turn.held.1 hp).imp (fun hold => ⟨sock, hget, hold⟩) .inl
  | queue k =>
      obtain ⟨sock', hget', hitem⟩ := hholds
      cases hget : c.world.sockets[k]? with
      | none =>
          obtain ⟨item, hitem, -⟩ := hitem
          rw [(hmade hget hget').2] at hitem
          cases hitem
      | some sock =>
          obtain ⟨sock₁, names, hmoved, hget₁, -⟩ := h.moved hget
          obtain rfl := Option.some.inj (hget₁.symm.trans hget')
          cases hmoved with
          | stays => exact .inl ⟨sock, hget, hitem⟩
          | turns top rest w' eff sock' names stack turn =>
              rw [FreshIn, Config.after_world]
              exact (turn.held.2 hitem).imp (fun hold => ⟨sock, hget, hold⟩) .inl

omit [Blank V] in
theorem Config.Known.initial : ({} : Config V E F).Known := by
  intro p holder h
  cases holder with
  | running =>
      obtain ⟨handlers, hmem, hp⟩ := h
      obtain rfl : handlers = [] := by simpa using hmem
      cases hp
  | handlers k | queue k =>
      obtain ⟨sock, hget, -⟩ := h
      cases hget

theorem Config.Known.step (h : c.Known) (hstep : Stepped backend c l c') : c'.Known := by
  intro p holder hholds
  have hlength := hstep.resolving.changes.length_le
  rcases hstep.holds hholds with hold | hfresh | ⟨-, k, hold, -⟩
  · exact Nat.lt_of_lt_of_le (h p holder hold) hlength
  · exact hfresh.1.2
  · exact Nat.lt_of_lt_of_le (h p _ hold) hlength

/-- A new promise is held where the call puts it. -/
theorem Stepped.makes_of_holds {holder : Holder} (h : Stepped backend c l c') (hknown : c.Known)
    (hp : p = c.world.promises.heap.length) (hholds : c'.Holds p holder) : l.makes holder := by
  have hnew : ∀ holder, ¬ c.Holds p holder := fun holder hold =>
    absurd (hknown p holder hold) (Nat.not_lt.mpr (Nat.le_of_eq hp.symm))
  rcases h.holds hholds with hold | ⟨-, hmakes⟩ | ⟨-, k, hold, -⟩
  · exact absurd hold (hnew holder)
  · exact hmakes
  · exact absurd hold (hnew _)

/-! ### What resolves a promise -/

theorem status?_resolvedVoid {s : State V E F} (hpending : s.status? p = some .pending) :
    s.resolvedVoid.1.status? p = some .pending :=
  (s.resolvedVoid_changes (T := (s.heap.length ≤ ·)) (Nat.le_refl _)).status_eq hpending
    (.inr (Nat.not_le.mpr (lt_of_status? hpending)))

omit [Blank V] in
theorem status?_create_of_pending {s : State V E F} (hpending : s.status? p = some .pending) :
    s.create.1.status? p = some .pending := by
  rw [State.status?_create, if_neg (Nat.ne_of_lt (lt_of_status? hpending))]
  exact hpending

/-- `connect` resolves no promise that was made before. -/
theorem World.connect_pending {w w' : World V E F} {i : ℕ} {answer : Answer} {eff : Effect}
    (h : w.connect i answer = some (w', eff))
    (hpending : w.promises.status? p = some .pending) :
    w'.promises.status? p = some .pending := by
  simp only [World.connect] at h
  repeat' split at h
  all_goals simp only [Option.some.injEq, Prod.mk.injEq, reduceCtorEq] at h
  all_goals rw [← h.1]
  · exact status?_resolvedVoid hpending
  · exact hpending
  · exact status?_create_of_pending hpending
  · exact hpending

theorem World.write_pending {w w' : World V E F} {i : ℕ} {data : List Byte}
    {answers : List Answer} {eff : Effect} (h : w.write i data answers = some (w', eff))
    (hpending : w.promises.status? p = some .pending) :
    w'.promises.status? p = some .pending := by
  cases hget : w.sockets[i]? with
  | none => simp [World.write, hget] at h
  | some sock =>
      obtain ⟨r, hr, hpromises, -⟩ := World.write_result h hget
      rw [hpromises]
      cases SocketData.wrote hr with
      | failed => exact hpending
      | completed => exact status?_resolvedVoid hpending
      | blocked => exact status?_create_of_pending hpending

/-- The write branch of the socket's event handler. -/
def Config.flushes (k : ℕ) (c : Config V E F) (l : Label) : Prop :=
  ∃ since rest answers, c.stack = .writePart k true since :: rest ∧ l = .flush answers

/-- A pending promise stays pending unless its context is run or taken from a queue. -/
theorem Stepped.stays_pending (h : Stepped backend c l c')
    (hpending : c.world.promises.status? p = some .pending) (hrunning : ¬ c.Holds p .running)
    (hqueue : ∀ k, c.flushes k l → ¬ c.Holds p (.queue k)) :
    c'.world.promises.status? p = some .pending := by
  cases h with
  | handler w q handlers rest =>
      have hne : p ≠ q := by
        rintro rfl
        exact hrunning ⟨p :: handlers, by simp, by simp⟩
      exact (State.status?_resolveImpl_of_ne w.promises _ hne).trans hpending
  | return_ w frame rest => exact hpending
  | throw_ w handlers frame rest => exact hpending
  | user w handlers rest l w' eff call =>
      rw [Config.after_world]
      rcases userStep_promises call with hsame | ⟨i, answer, rfl⟩ | ⟨i, data, answers, rfl⟩
      · rw [hsame]
        exact hpending
      · exact World.connect_pending call hpending
      · exact World.write_pending call hpending
  | library w frame rest l w' eff piece =>
      rw [Config.after_world]
      rcases libraryStep_promises piece with hsame | hvoid | ⟨k, since, answers, rfl, rfl, hflush⟩
      · rw [hsame]
        exact hpending
      · rw [hvoid]
        exact status?_resolvedVoid hpending
      · cases hget : w.sockets[k]? with
        | none => simp [World.flushEvent, hget] at hflush
        | some sock =>
            obtain ⟨-, r, hr, hpromises, -⟩ := World.flushEvent_result hflush hget
            rw [hpromises]
            cases SocketData.flushed hr with
            | failed => exact hpending
            | flushed flush items s' loop exit_eq resolve =>
                obtain ⟨reached, hsplit, -, -, hchanges⟩ := resolveWritePromises_spec
                  (sock.bytesWritten + flush.offset) sock.writePromiseQueue w.promises
                rw [resolve] at hsplit hchanges
                refine hchanges.status_eq hpending (.inr ?_)
                rintro ⟨item, hitem, rfl⟩
                refine hqueue k ⟨since, rest, answers, rfl, rfl⟩ ⟨sock, hget, item, ?_, rfl⟩
                rw [hsplit]
                exact List.mem_append_left _ hitem

end Libasync.Reactor
