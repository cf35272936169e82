import Libasync.Foundation.Run
import Libasync.Generator.Model

/-! # Calls of a generator

The executor is the tree of what it can do: it yields, calls `next` and `_throw` of its own
generator, returns and throws. A call from outside that switches to it comes back when it yields or
ends. -/

namespace Libasync.Generator

open Promise

/-- A call on a generator, from outside or by the executor itself. -/
inductive Request (T IT E : Type*) where
  | yield (value : T)
  | next (value : IT)
  | throw_ (error : Exn E)
  deriving DecidableEq

/-- What a call returns: `yield` the value sent in, `next` and `_throw` the value of `out_val`. -/
inductive Answer (T IT : Type*) where
  | sent (value : IT)
  | out (value : Option T)
  deriving DecidableEq

/-- Code that asks and goes on with the answer, which may be an exception thrown at the place of
the question. -/
inductive Resumption (Q A ε α : Type*) where
  | ret (result : α)
  | raise (error : ε)
  | ask (question : Q) (k : Except ε A → Resumption Q A ε α)

/-- The code of an executor. An exception thrown at a `yield` goes to the continuation as the
answer, so a `catch` around it is code like any other. -/
abbrev Body (T IT E : Type*) := Resumption (Request T IT E) (Answer T IT) (Exn E) T

abbrev Gen (T IT E : Type*) := GenData T IT E (Body T IT E)

/-- What an observer of a run sees of one call: whether the executor has made it, the answer, and
the data of the generator before and after it. -/
structure Entry (T IT E : Type*) where
  inside : Bool
  request : Request T IT E
  answer : Except (Exn E) (Answer T IT)
  before : Gen T IT E
  after : Gen T IT E

section Calls

variable {T IT E : Type*} [GeneratorError E]

/-- The answer of a call that does not switch to the executor. -/
def Sent.answer? : Sent T IT E (Body T IT E) → Option (Except (Exn E) (Answer T IT))
  | .switched _ => none
  | .returned outVal => some (.ok (.out outVal))
  | .threw error => some (.error error)

namespace GenData

/-- The calls that the executor can make on its own generator besides `yield`. -/
def callInside (data : Gen T IT E) : Request T IT E → Option (Except (Exn E) (Answer T IT))
  | .yield _ => none
  | .next value => (data.next value).answer?
  | .throw_ error => (data.throw_ error).answer?

/-- The executor runs until it yields or ends. -/
def runBody (data : Gen T IT E) : Body T IT E → Option (Gen T IT E × List (Entry T IT E))
  | .ret result => some (data.finish result, [])
  | .raise error => some (data.fail error, [])
  | .ask (.yield value) k =>
      match data.yield_ value fun answer => k (answer.map .sent) with
      | .ok data => some (data, [])
      | .error error => runBody data (k (.error error))
  | .ask request k =>
      match data.callInside request with
      | none => none
      | some answer =>
          (runBody data (k answer)).map fun (after, entries) =>
            (after, ⟨true, request, answer, data, data⟩ :: entries)

/-- The end of `run_generator`, and of the call that has run it. -/
def result (data : Gen T IT E) : Except (Exn E) (Answer T IT) :=
  match data.status, data.error with
  | .done, some error => .error error
  | _, _ => .ok (.out data.outVal)

/-- `run_generator` -/
def runGenerator (data : Gen T IT E) :
    Option (Gen T IT E × List (Entry T IT E) × Except (Exn E) (Answer T IT)) :=
  data.enter.bind fun (data, body) =>
    (data.runBody body).map fun (data, entries) => (data, entries, data.result)

/-- `next` or `_throw`, after the look at the status -/
def send (data : Gen T IT E) :
    Sent T IT E (Body T IT E) →
      Option (Gen T IT E × List (Entry T IT E) × Except (Exn E) (Answer T IT))
  | .switched data => data.runGenerator
  | .returned outVal => some (data, [], .ok (.out outVal))
  | .threw error => some (data, [], .error error)

/-- A call from outside. Only the executor can yield while it is running. -/
def call (data : Gen T IT E) :
    Request T IT E → Option (Gen T IT E × List (Entry T IT E) × Except (Exn E) (Answer T IT))
  | .yield value =>
      match data.yield_ value fun _ => data.executor with
      | .ok _ => none
      | .error error => some (data, [], .error error)
  | .next value => data.send (data.next value)
  | .throw_ error => data.send (data.throw_ error)

end GenData

/-! ## Runs of calls from outside -/

structure Config (T IT E : Type*) where
  data : Gen T IT E
  log : List (Entry T IT E) := []

omit [GeneratorError E] in
/-- `Generator(executor)` -/
def Config.start (body : Body T IT E) : Config T IT E where
  data := { executor := body }

def step (c : Config T IT E) (request : Request T IT E) : Option (Config T IT E) :=
  (c.data.call request).map fun (data, entries, answer) =>
    { data, log := c.log ++ entries ++ [⟨false, request, answer, c.data, data⟩] }

end Calls

end Libasync.Generator
