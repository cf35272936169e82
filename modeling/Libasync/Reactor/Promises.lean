import Libasync.Promise.FirstCall
import Libasync.Reactor.Turns

/-! # Promises of sockets

`connect` and `write` make promises, and the handlers of `connect` and the write branch resolve
them. Nothing in the sockets rejects a promise. -/

namespace Libasync.Reactor

open Promise Socket

variable {V E F : Type*} [Blank V]

/-- Make a pending promise, or resolve a promise. -/
inductive Resolve : State V E F → State V E F → Prop where
  | create (s) : Resolve s s.create.1
  | resolve (s p) : Resolve s (s.resolveImpl p Blank.blank)

abbrev Resolving : State V E F → State V E F → Prop := Relation.ReflTransGen Resolve

namespace Resolving

variable {s t : State V E F} {p : Ref}

theorem resolvedVoid (s : State V E F) : Resolving s s.resolvedVoid.1 :=
  .head (.create s) (.single (.resolve s.create.1 s.heap.length))

theorem resolveWritePromises (n : ℕ) (items : List PromiseQueueItem) (s : State V E F) :
    Resolving s (resolveWritePromises n items s).2 := by
  induction items generalizing s with
  | nil => exact .refl
  | cons item items ih =>
      by_cases htarget : n < item.target
      · simp only [Socket.resolveWritePromises, htarget, if_true]
        exact .refl
      · simp only [Socket.resolveWritePromises, htarget, if_false]
        exact .head (.resolve s item.ctx) (ih _)

theorem changes (h : Resolving s t) : Promise.Changes (fun _ => True) s t := by
  induction h with
  | refl => exact .refl
  | tail _ hstep ih =>
      cases hstep with
      | create => exact ih.tail (.alloc _ .pending)
      | resolve p => exact ih.trans (State.resolveImpl_changes _ p _ trivial)

/-- A settled promise keeps its status. -/
theorem status_eq (h : Resolving s t) {status : PromiseStatus V E}
    (hp : s.status? p = some status) (hsettled : status ≠ .pending) : t.status? p = some status :=
  h.changes.status_eq hp (.inl hsettled)

end Resolving

/-- The promise is resolved. -/
def IsResolved (s : State V E F) (p : Ref) : Prop := s.status? p = some (.resolved Blank.blank)

/-- The promises of the sockets are pending or resolved. -/
def NoneRejected (s : State V E F) : Prop :=
  ∀ p status, s.status? p = some status → status = .pending ∨ status = .resolved Blank.blank

theorem IsResolved.mono {s t : State V E F} {p : Ref} (h : IsResolved s p) (hst : Resolving s t) :
    IsResolved t p :=
  hst.status_eq h (by simp)

omit [Blank V] in
theorem State.status?_create (s : State V E F) (q : Ref) :
    s.create.1.status? q = if q = s.heap.length then some .pending else s.status? q := by
  simp only [State.status?, State.create, State.get?_alloc]
  split <;> rfl

omit [Blank V] in
theorem State.status?_resolveImpl_of_ne (s : State V E F) {p q : Ref} (v : V) (h : q ≠ p) :
    (s.resolveImpl p v).status? q = s.status? q := by
  simp only [State.resolveImpl, State.settle]
  split
  · simp [State.status?, h]
  · rfl

theorem NoneRejected.resolve {s t : State V E F} (h : NoneRejected s) (hst : Resolve s t) :
    NoneRejected t := by
  intro q status hq
  cases hst with
  | create =>
      rw [State.status?_create] at hq
      split at hq
      · exact .inl (Option.some.inj hq).symm
      · exact h q status hq
  | resolve p =>
      by_cases hqp : q = p
      · subst hqp
        cases hold : s.status? q with
        | none =>
            have hsame : s.resolveImpl q Blank.blank = s := by
              have hnone : s.get? q = none := by simpa [State.status?] using hold
              simp [State.resolveImpl, State.settle, hnone]
            rw [hsame, hold] at hq
            cases hq
        | some old =>
            rcases h q old hold with rfl | rfl
            · rw [State.resolveImpl, State.settle_status? _ hold] at hq
              exact .inr (Option.some.inj hq).symm
            · rw [State.resolveImpl, State.settle_of_settled hold (by simp), hold] at hq
              exact .inr (Option.some.inj hq).symm
      · rw [State.status?_resolveImpl_of_ne s _ hqp] at hq
        exact h q status hq

theorem NoneRejected.resolving {s t : State V E F} (h : NoneRejected s) (hst : Resolving s t) :
    NoneRejected t := by
  induction hst with
  | refl => exact h
  | tail _ hstep ih => exact ih.resolve hstep

/-- Resolving a promise that is not rejected. -/
theorem NoneRejected.isResolved {s : State V E F} (h : NoneRejected s) {p : Ref}
    {status : PromiseStatus V E} (hp : s.status? p = some status) :
    IsResolved (s.resolveImpl p Blank.blank) p := by
  rcases h p status hp with rfl | rfl
  · exact State.settle_status? _ hp
  · rw [State.resolveImpl, State.settle_of_settled hp (by simp)]
    exact hp

/-! ### Calls and pieces -/

namespace World

variable {w w' : World V E F} {eff : Effect} {i : ℕ}

theorem connect_resolving {answer : Answer} (h : w.connect i answer = some (w', eff)) :
    Resolving w.promises w'.promises := by
  simp only [connect] at h
  repeat' split at h
  all_goals simp only [Option.some.injEq, Prod.mk.injEq, reduceCtorEq] at h
  all_goals rw [← h.1]
  · exact .resolvedVoid w.promises
  · exact .refl
  · exact .single (.create w.promises)

theorem write_resolving {data : List Byte} {answers : List Answer}
    (h : w.write i data answers = some (w', eff)) : Resolving w.promises w'.promises := by
  cases hget : w.sockets[i]? with
  | none => simp [write, hget] at h
  | some sock =>
      obtain ⟨r, hr, hpromises, -⟩ := write_result h hget
      rw [hpromises]
      cases SocketData.wrote hr with
      | failed => exact .refl
      | completed => exact .resolvedVoid w.promises
      | blocked => exact .single (.create w.promises)

theorem flushEvent_resolving {answers : List Answer}
    (h : w.flushEvent i answers = some (w', eff)) : Resolving w.promises w'.promises := by
  cases hget : w.sockets[i]? with
  | none => simp [flushEvent, hget] at h
  | some sock =>
      obtain ⟨-, r, hr, hpromises, -⟩ := flushEvent_result h hget
      rw [hpromises]
      cases SocketData.flushed hr with
      | failed => exact .refl
      | flushed flush items s' loop exit_eq resolve =>
          have hflush := Resolving.resolveWritePromises
            (sock.bytesWritten + flush.offset) sock.writePromiseQueue w.promises
          rwa [resolve] at hflush

end World

/-! ### Steps -/

variable {backend : Backend} {w w' : World V E F} {l : Label} {eff : Effect}

/-- The calls that touch a promise. -/
theorem userStep_promises (h : userStep backend w l = some (w', eff)) :
    w'.promises = w.promises ∨ (∃ i answer, l = .connect i answer) ∨
      ∃ i data answers, l = .write i data answers := by
  cases l with
  | connect i answer => exact .inr (.inl ⟨i, answer, rfl⟩)
  | write i data answers => exact .inr (.inr ⟨i, data, answers, rfl⟩)
  | newSocket | newServer | createFails | close | listen | closeServer | poll | pollFails =>
      left
      simp only [userStep, World.newSocket, World.newServer, World.closeSocket, World.closeRest,
        World.listen, World.closeServer, World.poll] at h
      repeat' split at h
      all_goals simp only [Option.some.injEq, Prod.mk.injEq, reduceCtorEq] at h
      all_goals
        obtain ⟨rfl, -⟩ := h
        rfl
  | handler | return_ | throw_ | tau | read answers | soError answer | flush answers
  | closing answer | accept answer => cases h

/-- The pieces that touch a promise. -/
theorem libraryStep_promises {frame : Frame}
    (h : libraryStep backend w frame l = some (w', eff)) :
    w'.promises = w.promises ∨ w'.promises = w.promises.resolvedVoid.1 ∨
      ∃ i since answers, frame = .writePart i true since ∧ l = .flush answers ∧
        w.flushEvent i answers = some (w', eff) := by
  simp only [libraryStep] at h
  split at h
  case h_2 =>
    simp only [Option.some.injEq, Prod.mk.injEq] at h
    rw [← h.1]
    exact .inr (.inl rfl)
  case h_6 =>
    simp only [Option.some.injEq, Prod.mk.injEq] at h
    rw [← h.1]
    exact .inl rfl
  case h_8 => exact .inr (.inr ⟨_, _, _, rfl, rfl, h⟩)
  case h_12 => cases h
  all_goals
    left
    simp only [World.unregTail, World.readEvent, World.endOfFile, World.connectEvent,
      World.closeSocket, World.closeRest, World.acceptEvent, World.dispatch] at h
    repeat' split at h
    all_goals simp only [Option.some.injEq, Prod.mk.injEq, reduceCtorEq] at h
    all_goals
      obtain ⟨rfl, -⟩ := h
      rfl

theorem userStep_resolving (h : userStep backend w l = some (w', eff)) :
    Resolving w.promises w'.promises := by
  rcases userStep_promises h with hsame | ⟨i, answer, rfl⟩ | ⟨i, data, answers, rfl⟩
  · rw [hsame]
  · exact World.connect_resolving h
  · exact World.write_resolving h

theorem libraryStep_resolving {frame : Frame}
    (h : libraryStep backend w frame l = some (w', eff)) :
    Resolving w.promises w'.promises := by
  rcases libraryStep_promises h with hsame | hvoid | ⟨i, since, answers, -, -, hflush⟩
  · rw [hsame]
  · rw [hvoid]
    exact .resolvedVoid w.promises
  · exact World.flushEvent_resolving hflush

theorem Stepped.resolving {c c' : Config V E F} (h : Stepped backend c l c') :
    Resolving c.world.promises c'.world.promises := by
  cases h with
  | handler w p handlers rest => exact .single (.resolve w.promises p)
  | return_ w frame rest => exact .refl
  | throw_ w handlers frame rest => exact .refl
  | user w handlers rest l w' eff call =>
      rw [Config.after_world]
      exact userStep_resolving call
  | library w frame rest l w' eff piece =>
      rw [Config.after_world]
      exact libraryStep_resolving piece

end Libasync.Reactor
