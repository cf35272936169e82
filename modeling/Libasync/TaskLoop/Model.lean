import Libasync.Foundation.Run

/-! # The task loop

Tasks run in the middle of `run_once`, so a configuration has a stack: a frame is user code (the
main program or a task), or what is left to do of a function of the loop. User code is free to
add tasks, to call the loop again, to return and to throw. -/

namespace Libasync.TaskLoop

/-! ## Data model -/

/-- A task is known by the number of its addition. What it does is in the labels of a run. -/
abbrev Task := ℕ

structure TaskLoopData where
  permanentQueue : List Task := []
  oneshotQueue : List Task := []
  deriving DecidableEq, Repr

/-- What an observer of a run sees of the oneshot tasks. The code keeps no such record. -/
inductive Happening where
  | added (t : Task)
  | executed (t : Task)
  /-- an exception has left `run_once` from a oneshot task -/
  | abandoned
  /-- `run_once` has come to its end -/
  | cleared
  deriving DecidableEq, Repr

/-- A position in a list is an iterator. `epoch` is the number of times that the queue was cleared
when the iterator was made. -/
inductive Frame where
  /-- the main program or a task -/
  | user
  /-- the first loop of `run_once` -/
  | permanents (next : ℕ)
  /-- the second loop of `run_once` -/
  | oneshots (epoch next : ℕ)
  /-- `TaskLoop::run` -/
  | forever
  deriving DecidableEq, Repr

inductive Label where
  | add
  | oneshot
  | runOnce
  | run
  | return_
  | throw_
  | tau
  deriving DecidableEq, Repr

structure Config where
  data : TaskLoopData := {}
  numAdded : ℕ := 0
  epoch : ℕ := 0
  log : List Happening := []
  stack : List Frame := [.user]
  deriving DecidableEq, Repr

/-- A oneshot task has been called in this loop. -/
def Frame.started : Frame → Bool
  | .oneshots _ next => decide (0 < next)
  | _ => false

/-- The frames that an exception of the code above them leaves, and what is seen of it. -/
def unwind : List Frame → List Happening × List Frame
  | [] => ([], [])
  | .user :: rest => ([], .user :: rest)
  | frame :: rest =>
      let (seen, rest) := unwind rest
      (if frame.started then .abandoned :: seen else seen, rest)

/-! ## Operations -/

namespace Config

/-- `TaskLoop::add` -/
def add (c : Config) : Config :=
  { c with
    data := { c.data with permanentQueue := c.data.permanentQueue ++ [c.numAdded] }
    numAdded := c.numAdded + 1 }

/-- `TaskLoop::oneshot` -/
def oneshot (c : Config) : Config :=
  { c with
    data := { c.data with oneshotQueue := c.data.oneshotQueue ++ [c.numAdded] }
    numAdded := c.numAdded + 1
    log := c.log ++ [.added c.numAdded] }

/-- An exception of the code above these frames. -/
def throwTo (c : Config) (frames : List Frame) : Config :=
  let (seen, rest) := unwind frames
  { c with log := c.log ++ seen, stack := rest }

/-- One round of the first loop of `run_once`. A list iterator stays valid when tasks are added
behind it. -/
def callPermanent (c : Config) (next : ℕ) (rest : List Frame) : Config :=
  if next < c.data.permanentQueue.length then
    { c with stack := .user :: .permanents (next + 1) :: rest }
  else { c with stack := .oneshots c.epoch 0 :: rest }

/-- One round of the second loop of `run_once`, or the end of it. To advance an iterator of a list
that was cleared is undefined: nothing runs after it. -/
def callOneshot (c : Config) (epoch next : ℕ) (rest : List Frame) : Config :=
  if epoch ≠ c.epoch then { c with stack := [] }
  else
    match c.data.oneshotQueue[next]? with
    | some t =>
        { c with
          log := c.log ++ [.executed t]
          stack := .user :: .oneshots epoch (next + 1) :: rest }
    | none =>
        { c with
          data := { c.data with oneshotQueue := [] }
          epoch := c.epoch + 1
          log := c.log ++ [.cleared]
          stack := rest }

end Config

def step (c : Config) (l : Label) : Option Config :=
  match c.stack, l with
  | .user :: _, .add => some c.add
  | .user :: _, .oneshot => some c.oneshot
  | .user :: _, .runOnce => some { c with stack := .permanents 0 :: c.stack }
  | .user :: _, .run => some { c with stack := .forever :: c.stack }
  | .user :: frame :: rest, .return_ => some { c with stack := frame :: rest }
  | .user :: frame :: rest, .throw_ => some (c.throwTo (frame :: rest))
  | .permanents next :: rest, .tau => some (c.callPermanent next rest)
  | .oneshots epoch next :: rest, .tau => some (c.callOneshot epoch next rest)
  | .forever :: _, .tau => some { c with stack := .permanents 0 :: c.stack }
  | _, _ => none

/-- The steps, with the ways in which the rounds of the two loops go on. -/
inductive Step (c : Config) : Label → Config → Prop where
  | add (rest) (stack : c.stack = .user :: rest) : Step c .add c.add
  | oneshot (rest) (stack : c.stack = .user :: rest) : Step c .oneshot c.oneshot
  | runOnce (rest) (stack : c.stack = .user :: rest) :
      Step c .runOnce { c with stack := .permanents 0 :: c.stack }
  | run (rest) (stack : c.stack = .user :: rest) :
      Step c .run { c with stack := .forever :: c.stack }
  | return_ (frame rest) (stack : c.stack = .user :: frame :: rest) :
      Step c .return_ { c with stack := frame :: rest }
  | throw_ (frame rest) (stack : c.stack = .user :: frame :: rest) :
      Step c .throw_ (c.throwTo (frame :: rest))
  | permanent (next rest) (stack : c.stack = .permanents next :: rest)
      (more : next < c.data.permanentQueue.length) :
      Step c .tau { c with stack := .user :: .permanents (next + 1) :: rest }
  | oneshots (next rest) (stack : c.stack = .permanents next :: rest)
      (done : c.data.permanentQueue.length ≤ next) :
      Step c .tau { c with stack := .oneshots c.epoch 0 :: rest }
  | dangling (epoch next rest) (stack : c.stack = .oneshots epoch next :: rest)
      (stale : epoch ≠ c.epoch) : Step c .tau { c with stack := [] }
  | call (next rest t) (stack : c.stack = .oneshots c.epoch next :: rest)
      (get : c.data.oneshotQueue[next]? = some t) :
      Step c .tau
        { c with
          log := c.log ++ [.executed t]
          stack := .user :: .oneshots c.epoch (next + 1) :: rest }
  | clear (next rest) (stack : c.stack = .oneshots c.epoch next :: rest)
      (done : c.data.oneshotQueue.length ≤ next) :
      Step c .tau
        { c with
          data := { c.data with oneshotQueue := [] }
          epoch := c.epoch + 1
          log := c.log ++ [.cleared]
          stack := rest }
  | forever (rest) (stack : c.stack = .forever :: rest) :
      Step c .tau { c with stack := .permanents 0 :: c.stack }

theorem stepped {c c' : Config} {l : Label} (h : step c l = some c') : Step c l c' := by
  simp only [step] at h
  split at h
  · rename_i rest hstack
    obtain rfl := Option.some.inj h
    exact .add rest hstack
  · rename_i rest hstack
    obtain rfl := Option.some.inj h
    exact .oneshot rest hstack
  · rename_i rest hstack
    obtain rfl := Option.some.inj h
    exact .runOnce rest hstack
  · rename_i rest hstack
    obtain rfl := Option.some.inj h
    exact .run rest hstack
  · rename_i frame rest hstack
    obtain rfl := Option.some.inj h
    exact .return_ frame rest hstack
  · rename_i frame rest hstack
    obtain rfl := Option.some.inj h
    exact .throw_ frame rest hstack
  · rename_i next rest hstack
    obtain rfl := Option.some.inj h
    by_cases hmore : next < c.data.permanentQueue.length
    · rw [Config.callPermanent, if_pos hmore]
      exact .permanent next rest hstack hmore
    · rw [Config.callPermanent, if_neg hmore]
      exact .oneshots next rest hstack (Nat.le_of_not_lt hmore)
  · rename_i epoch next rest hstack
    obtain rfl := Option.some.inj h
    by_cases hepoch : epoch = c.epoch
    · subst hepoch
      cases hget : c.data.oneshotQueue[next]? with
      | some t =>
          simp only [Config.callOneshot, ne_eq, not_true_eq_false, if_false, hget]
          exact .call next rest t hstack hget
      | none =>
          simp only [Config.callOneshot, ne_eq, not_true_eq_false, if_false, hget]
          exact .clear next rest hstack (List.getElem?_eq_none_iff.mp hget)
    · rw [Config.callOneshot, if_pos hepoch]
      exact .dangling epoch next rest hstack hepoch
  · rename_i rest hstack
    obtain rfl := Option.some.inj h
    exact .forever rest hstack
  · cases h

end Libasync.TaskLoop
