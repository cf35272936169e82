import Libasync.Promise.Model

/-! # The data of a generator and the switches in and out of it

A generator runs on a stack of its own. What `swapcontext` saves there is the continuation of
the `yield` at which the executor is suspended, and the code that it brings back is what the
executor does from there on. -/

namespace Libasync.Generator

open Promise

/-- `GeneratorError::Reason` -/
inductive Reason where
  | alreadyRunning
  | notRunning
  deriving DecidableEq, Repr

/-- The `GeneratorError` objects among the exceptions. -/
class GeneratorError (E : Type*) where
  make : Reason → E

instance : GeneratorError Reason := ⟨id⟩

inductive GenStatus where
  | pending
  | running
  | suspended
  | done
  deriving DecidableEq, Repr

/-- `GenData`. `B` is the type of code that runs on the stack of the generator, and `genCtx` is
missing until the executor has yielded for the first time. -/
structure GenData (T IT E B : Type*) where
  status : GenStatus := .pending
  genCtx : Option (Except (Exn E) IT → B) := none
  executor : B
  outVal : Option T := none
  inVal : Option IT := none
  error : Option (Exn E) := none

/-- What `next` and `_throw` do after looking at the status. -/
inductive Sent (T IT E B : Type*) where
  /-- they call `run_generator` -/
  | switched (data : GenData T IT E B)
  | returned (outVal : Option T)
  | threw (error : Exn E)

namespace GenData

variable {T IT E B : Type*} [GeneratorError E]

/-- `Generator<T, IT>::next` up to the switch -/
def next (data : GenData T IT E B) (value : IT) : Sent T IT E B :=
  match data.status with
  | .pending | .suspended =>
      .switched { data with inVal := some value, status := .running }
  | .done => .returned data.outVal
  | .running => .threw (.object (GeneratorError.make .alreadyRunning))

/-- `Generator<T, IT>::_throw` up to the switch -/
def throw_ (data : GenData T IT E B) (error : Exn E) : Sent T IT E B :=
  match data.status with
  | .pending | .done => .threw error
  | .suspended =>
      .switched
        { data with inVal := none, error := some (eptrMake error), status := .running }
  | .running => .threw (.object (GeneratorError.make .alreadyRunning))

omit [GeneratorError E] in
/-- The generator gets control: its executor starts, or the pending `yield` returns or throws.
Rethrowing a null pointer is undefined. -/
def enter (data : GenData T IT E B) : Option (GenData T IT E B × B) :=
  match data.genCtx with
  | none => some (data, data.executor)
  | some resume =>
      match data.inVal, data.error with
      | some value, _ => some (data, resume (.ok value))
      | none, some error => some ({ data with error := none }, resume (.error error))
      | none, none => none

/-- `yield_impl` up to the switch back to the caller -/
def yield_ (data : GenData T IT E B) (value : T) (resume : Except (Exn E) IT → B) :
    Except (Exn E) (GenData T IT E B) :=
  if data.status = .running then
    .ok { data with outVal := some value, status := .suspended, genCtx := some resume }
  else .error (.object (GeneratorError.make .notRunning))

omit [GeneratorError E] in
/-- The end of `gen_wrapper` when the executor has returned. -/
def finish (data : GenData T IT E B) (value : T) : GenData T IT E B :=
  { data with outVal := some value, status := .done }

omit [GeneratorError E] in
/-- The end of `gen_wrapper` when an exception has left the executor. -/
def fail (data : GenData T IT E B) (error : Exn E) : GenData T IT E B :=
  { data with error := some error, status := .done }

/-! ### A suspended generator -/

variable {data : GenData T IT E B} {resume : Except (Exn E) IT → B}

/-- `next` makes the pending `yield` return the value. -/
theorem next_of_suspended (hstatus : data.status = .suspended)
    (hctx : data.genCtx = some resume) (value : IT) :
    ∃ sent, data.next value = .switched sent ∧
      sent.enter = some (sent, resume (.ok value)) ∧ sent.status = .running ∧
      sent.executor = data.executor := by
  refine ⟨{ data with inVal := some value, status := .running }, ?_, ?_, rfl, rfl⟩
  · simp [next, hstatus]
  · simp [enter, hctx]

/-- `_throw` makes the pending `yield` throw the error, which is kept no longer. -/
theorem throw_of_suspended (hstatus : data.status = .suspended)
    (hctx : data.genCtx = some resume) (error : Exn E) :
    ∃ sent entered, data.throw_ error = .switched sent ∧
      sent.enter = some (entered, resume (.error (eptrMake error))) ∧
      entered.status = .running ∧ entered.executor = data.executor := by
  refine ⟨{ data with inVal := none, error := some (eptrMake error), status := .running },
    { data with inVal := none, error := none, status := .running }, ?_, ?_, rfl, rfl⟩
  · simp [throw_, hstatus]
  · simp [enter, hctx]

theorem yield_of_running (hstatus : data.status = .running) (value : T)
    (resume : Except (Exn E) IT → B) :
    data.yield_ value resume =
      .ok { data with outVal := some value, status := .suspended, genCtx := some resume } := by
  simp [yield_, hstatus]

end GenData

end Libasync.Generator
