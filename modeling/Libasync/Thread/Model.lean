import Libasync.Promise.Model
import Libasync.Reactor.Model

/-! # The task loop of a thread

`promise_task` and `reactor_task` are permanent tasks of one loop. The machine below has the loop,
the promises with their queue, and the wait of the reactor. What the targets of events do is user
code here: it makes calls on promises and on the loop, returns and throws. -/

namespace Libasync.Thread

open Promise
open Reactor (Backend)

/-! ## Data model -/

inductive Task where
  | promiseTask
  | reactorTask
  /-- what it does is in the labels of a run -/
  | user
  deriving DecidableEq, Repr

/-- User code, or what is left to do of a library function. A position in a list is an iterator.
`epoch` is the number of times that the list was cleared when the iterator was made. -/
inductive Frame (E F : Type*) where
  /-- the main program, a task, a handler of a promise or the target of an event -/
  | user
  /-- the first loop of `run_once` -/
  | permanents (next : ℕ)
  /-- the second loop of `run_once` -/
  | oneshots (epoch next : ℕ)
  /-- `TaskLoop::run` -/
  | forever
  /-- `promise_task` -/
  | promiseTask (epoch : ℕ) (control : Control F E)
  /-- `reactor_task` in `epoll_wait` or `kevent` -/
  | waiting
  /-- the loop of `reactor_task`, with the number of events that are left -/
  | demultiplex (remaining : ℕ)
  deriving DecidableEq, Repr

structure Config (V E F : Type*) where
  promises : State V E F := {}
  /-- `pending_callback_queue` is no null pointer -/
  promiseReady : Bool := false
  queueEpoch : ℕ := 0
  permanentQueue : List Task := []
  oneshotQueue : List Task := []
  oneshotEpoch : ℕ := 0
  stack : List (Frame E F) := [.user]
  deriving DecidableEq, Repr

inductive Label (V E F : Type*) where
  | promiseInit
  | reactorInit
  | op (o : Op V E F)
  | add
  | oneshot
  | runOnce
  | run
  | return_
  | throw_
  /-- the handler of a promise returns or throws -/
  | finish (result : Outcome V E)
  /-- the wait of the reactor ends with this number of events -/
  | events (n : ℕ)
  | queryFails
  /-- an event whose descriptor is not in the table -/
  | ignored
  | tau
  deriving DecidableEq, Repr

/-- The frame is that of a handler of a promise: an exception of it is caught there. -/
def Frame.catches {E F : Type*} : Frame E F → Bool
  | .promiseTask .. => true
  | _ => false

def unwind {E F : Type*} : List (Frame E F) → List (Frame E F)
  | [] => []
  | .user :: rest => .user :: rest
  | _ :: rest => unwind rest

namespace Config

variable {V E F : Type*}

/-! ## Operations -/

/-- One round of the first loop of `run_once`. -/
def callPermanent (c : Config V E F) (next : ℕ) (rest : List (Frame E F)) : Config V E F :=
  match c.permanentQueue[next]? with
  | some .user => { c with stack := .user :: .permanents (next + 1) :: rest }
  | some .promiseTask =>
      { c with stack := .promiseTask c.queueEpoch (.turn 0) :: .permanents (next + 1) :: rest }
  | some .reactorTask => { c with stack := .waiting :: .permanents (next + 1) :: rest }
  | none => { c with stack := .oneshots c.oneshotEpoch 0 :: rest }

/-- One round of the second loop of `run_once`, or the end of it. To advance an iterator of a list
that was cleared is undefined: nothing runs after it. -/
def callOneshot (c : Config V E F) (epoch next : ℕ) (rest : List (Frame E F)) : Config V E F :=
  if epoch ≠ c.oneshotEpoch then { c with stack := [] }
  else if next < c.oneshotQueue.length then
    { c with stack := .user :: .oneshots epoch (next + 1) :: rest }
  else { c with oneshotQueue := [], oneshotEpoch := c.oneshotEpoch + 1, stack := rest }

/-- What the stack is after a step of `promise_task`. -/
def afterPromise (c : Config V E F) (epoch : ℕ) (rest : List (Frame E F)) :
    Promise.Config V E F → Config V E F
  | ⟨promises, .done none⟩ =>
      { c with promises, queueEpoch := c.queueEpoch + 1, stack := rest }
  | ⟨promises, .done (some _)⟩ => { c with promises, stack := unwind rest }
  | ⟨promises, .handler i p j outer f⟩ =>
      { c with promises, stack := .user :: .promiseTask epoch (.handler i p j outer f) :: rest }
  | ⟨promises, control⟩ => { c with promises, stack := .promiseTask epoch control :: rest }

/-- A step of `promise_task`. When its queue was cleared by another call in the meantime, its
iterators are invalid. -/
def runPromiseTask [Blank V] [FnTrait F E] (c : Config V E F) (epoch : ℕ) (control : Control F E)
    (rest : List (Frame E F)) : Option (Config V E F) :=
  if epoch ≠ c.queueEpoch then some { c with stack := [] }
  else (Promise.tau ⟨c.promises, control⟩).map (c.afterPromise epoch rest)

/-- The wait can end with so many events: without a timeout it ends with one at least. -/
def canReport (backend : Backend) (n : ℕ) : Bool :=
  decide (n ≤ Reactor.World.eventBufferSize) && (decide (backend = .kqueue) || decide (0 < n))

end Config

/-! ## The machine -/

def step {V E F : Type*} [Blank V] [FnTrait F E] (backend : Backend) (c : Config V E F)
    (l : Label V E F) : Option (Config V E F) :=
  match c.stack, l with
  | .user :: _, .promiseInit =>
      if c.promiseReady then none
      else some { c with
        promiseReady := true
        permanentQueue := c.permanentQueue ++ [.promiseTask] }
  | .user :: _, .reactorInit => some { c with permanentQueue := c.permanentQueue ++ [.reactorTask] }
  | .user :: _, .op o =>
      if c.promiseReady && c.promises.has o.refs then
        some { c with promises := c.promises.perform o }
      else none
  | .user :: _, .add => some { c with permanentQueue := c.permanentQueue ++ [.user] }
  | .user :: _, .oneshot => some { c with oneshotQueue := c.oneshotQueue ++ [.user] }
  | .user :: _, .runOnce => some { c with stack := .permanents 0 :: c.stack }
  | .user :: _, .run => some { c with stack := .forever :: c.stack }
  | .user :: frame :: rest, .return_ =>
      if frame.catches then none else some { c with stack := frame :: rest }
  | .user :: frame :: rest, .throw_ =>
      if frame.catches then none else some { c with stack := unwind (frame :: rest) }
  | .user :: .promiseTask epoch control :: rest, .finish result =>
      (Promise.step ⟨c.promises, control⟩ (.finish result)).map (c.afterPromise epoch rest)
  | .permanents next :: rest, .tau => some (c.callPermanent next rest)
  | .oneshots epoch next :: rest, .tau => some (c.callOneshot epoch next rest)
  | .forever :: _, .tau => some { c with stack := .permanents 0 :: c.stack }
  | .promiseTask epoch control :: rest, .tau => c.runPromiseTask epoch control rest
  | .waiting :: rest, .events n =>
      if Config.canReport backend n then some { c with stack := .demultiplex n :: rest } else none
  | .waiting :: rest, .queryFails => some { c with stack := unwind rest }
  | .demultiplex 0 :: rest, .tau => some { c with stack := rest }
  | .demultiplex (n + 1) :: rest, .tau => some { c with stack := .user :: .demultiplex n :: rest }
  | .demultiplex (n + 1) :: rest, .ignored =>
      if backend = .kqueue then some { c with stack := .demultiplex n :: rest } else none
  | _, _ => none

/-- The steps of the machine. -/
inductive Stepped {V E F : Type*} [Blank V] [FnTrait F E] (backend : Backend) (c : Config V E F) :
    Label V E F → Config V E F → Prop where
  | promiseInit (rest) (stack : c.stack = .user :: rest) (first : c.promiseReady = false) :
      Stepped backend c .promiseInit
        { c with
          promiseReady := true
          permanentQueue := c.permanentQueue ++ [.promiseTask] }
  | reactorInit (rest) (stack : c.stack = .user :: rest) :
      Stepped backend c .reactorInit
        { c with permanentQueue := c.permanentQueue ++ [.reactorTask] }
  | op (rest o) (stack : c.stack = .user :: rest) (ready : c.promiseReady = true) :
      Stepped backend c (.op o) { c with promises := c.promises.perform o }
  | add (rest) (stack : c.stack = .user :: rest) :
      Stepped backend c .add { c with permanentQueue := c.permanentQueue ++ [.user] }
  | oneshot (rest) (stack : c.stack = .user :: rest) :
      Stepped backend c .oneshot { c with oneshotQueue := c.oneshotQueue ++ [.user] }
  | runOnce (rest) (stack : c.stack = .user :: rest) :
      Stepped backend c .runOnce { c with stack := .permanents 0 :: c.stack }
  | run (rest) (stack : c.stack = .user :: rest) :
      Stepped backend c .run { c with stack := .forever :: c.stack }
  | return_ (frame rest) (stack : c.stack = .user :: frame :: rest) :
      Stepped backend c .return_ { c with stack := frame :: rest }
  | throw_ (frame rest) (stack : c.stack = .user :: frame :: rest) :
      Stepped backend c .throw_ { c with stack := unwind (frame :: rest) }
  | finish (epoch i p j outer f rest promises result)
      (stack : c.stack = .user :: .promiseTask epoch (.handler i p j outer f) :: rest) :
      Stepped backend c (.finish result)
        { c with promises, stack := .promiseTask epoch (.callBack i p (j + 1)) :: rest }
  | permanent (next rest) (stack : c.stack = .permanents next :: rest) :
      Stepped backend c .tau (c.callPermanent next rest)
  | oneshots (epoch next rest) (stack : c.stack = .oneshots epoch next :: rest) :
      Stepped backend c .tau (c.callOneshot epoch next rest)
  | forever (rest) (stack : c.stack = .forever :: rest) :
      Stepped backend c .tau { c with stack := .permanents 0 :: c.stack }
  | promiseTask (epoch control rest c') (stack : c.stack = .promiseTask epoch control :: rest)
      (runs : c.runPromiseTask epoch control rest = some c') : Stepped backend c .tau c'
  | events (n rest) (stack : c.stack = .waiting :: rest) :
      Stepped backend c (.events n) { c with stack := .demultiplex n :: rest }
  | queryFails (rest) (stack : c.stack = .waiting :: rest) :
      Stepped backend c .queryFails { c with stack := unwind rest }
  | noEvents (rest) (stack : c.stack = .demultiplex 0 :: rest) :
      Stepped backend c .tau { c with stack := rest }
  | event (n rest) (stack : c.stack = .demultiplex (n + 1) :: rest) :
      Stepped backend c .tau { c with stack := .user :: .demultiplex n :: rest }
  | ignored (n rest) (stack : c.stack = .demultiplex (n + 1) :: rest) :
      Stepped backend c .ignored { c with stack := .demultiplex n :: rest }

theorem stepped {V E F : Type*} [Blank V] [FnTrait F E] {backend : Backend} {c c' : Config V E F}
    {l : Label V E F} (h : step backend c l = some c') : Stepped backend c l c' := by
  simp only [step] at h
  split at h
  · rename_i rest hstack
    obtain ⟨hready, rfl⟩ := (Option.ite_none_left_eq_some.mp h).imp_right Option.some.inj
    exact .promiseInit rest hstack (by simpa using hready)
  · rename_i rest hstack
    obtain rfl := Option.some.inj h
    exact .reactorInit rest hstack
  · rename_i rest o hstack
    obtain ⟨hready, rfl⟩ := (Option.ite_none_right_eq_some.mp h).imp_right Option.some.inj
    exact .op rest o hstack (Bool.and_eq_true_iff.mp hready).1
  · rename_i rest hstack
    obtain rfl := Option.some.inj h
    exact .add rest hstack
  · rename_i rest hstack
    obtain rfl := Option.some.inj h
    exact .oneshot rest hstack
  · rename_i rest hstack
    obtain rfl := Option.some.inj h
    exact .runOnce rest hstack
  · rename_i rest hstack
    obtain rfl := Option.some.inj h
    exact .run rest hstack
  · rename_i frame rest hstack
    obtain ⟨-, rfl⟩ := (Option.ite_none_left_eq_some.mp h).imp_right Option.some.inj
    exact .return_ frame rest hstack
  · rename_i frame rest hstack
    obtain ⟨-, rfl⟩ := (Option.ite_none_left_eq_some.mp h).imp_right Option.some.inj
    exact .throw_ frame rest hstack
  · rename_i epoch control rest result hstack
    obtain ⟨⟨promises, control'⟩, hfinish, rfl⟩ := Option.map_eq_some_iff.mp h
    cases control with
    | handler i p j outer f =>
        simp only [Promise.step, Option.ite_none_right_eq_some, Option.some.injEq,
          Promise.Config.mk.injEq] at hfinish
        obtain ⟨-, rfl, rfl⟩ := hfinish
        exact .finish epoch i p j outer f rest _ result hstack
    | idle | turn | callBack | done => simp [Promise.step] at hfinish
  · rename_i next rest hstack
    obtain rfl := Option.some.inj h
    exact .permanent next rest hstack
  · rename_i epoch next rest hstack
    obtain rfl := Option.some.inj h
    exact .oneshots epoch next rest hstack
  · rename_i rest hstack
    obtain rfl := Option.some.inj h
    exact .forever rest hstack
  · rename_i epoch control rest hstack
    exact .promiseTask epoch control rest c' hstack h
  · rename_i rest n hstack
    obtain ⟨-, rfl⟩ := (Option.ite_none_right_eq_some.mp h).imp_right Option.some.inj
    exact .events n rest hstack
  · rename_i rest hstack
    obtain rfl := Option.some.inj h
    exact .queryFails rest hstack
  · rename_i rest hstack
    obtain rfl := Option.some.inj h
    exact .noEvents rest hstack
  · rename_i n rest hstack
    obtain rfl := Option.some.inj h
    exact .event n rest hstack
  · rename_i n rest hstack
    obtain ⟨-, rfl⟩ := (Option.ite_none_right_eq_some.mp h).imp_right Option.some.inj
    exact .ignored n rest hstack
  · cases h

end Libasync.Thread
