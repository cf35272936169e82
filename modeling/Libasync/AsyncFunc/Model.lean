import Libasync.Foundation.CatchBlocks
import Libasync.Foundation.Run
import Libasync.Generator.Model

/-! # Async functions

The machine runs the promise module, the generators of the async functions called so far, and
the bodies of those functions. The promise of an async function is made before its generator,
and only the executor of the generator holds the context of that promise. The stack of caught
exceptions belongs to the thread: `swapcontext` leaves it as it is. -/

namespace Libasync.AsyncFunc

open Promise Generator Foundation

/-- A `Generator<void, void*>`: the position of its data in the list of generators. -/
abbrev GenRef := ℕ

/-- Code of an async function: it awaits promises, and returns or throws. -/
abbrev BodyCode (V E : Type*) := Code Ref V (Exn E) (Return V)

/-- The body of an async function. -/
structure Body (V E : Type*) where
  code : BodyCode V E
  balanced : code.Balanced 0

/-! ## Generators of async functions -/

/-- The handlers of the program, and the two closures that `await_impl` registers. -/
inductive Handler (F : Type*) where
  | user (f : F)
  | next (gen : GenRef)
  | throw_ (gen : GenRef)
  deriving DecidableEq, Repr

def Handler.gen? {F : Type*} : Handler F → Option GenRef
  | .user _ => none
  | .next gen | .throw_ gen => some gen

instance {F E : Type*} [FnTrait F E] : FnTrait (Handler F) E where
  returnsVoid
    | .user f => FnTrait.returnsVoid f
    | .next _ | .throw_ _ => true
  errorType
    | .user f => FnTrait.errorType f
    | .next _ | .throw_ _ => .exceptionPtr

/-- A generator made by `async_func_impl`, whose executor runs the body, and the promise of the
captured `promise_ctx`. A `void*` sent in points to the awaited value. -/
structure AsyncGen (V E : Type*) where
  promise : Ref
  data : GenData Unit V E (BodyCode V E)

/-- Who called `next` or `_throw` and gets control back. -/
inductive Caller where
  /-- the executor of the promise that the call of the async function returns -/
  | call
  /-- the handler of an awaited promise -/
  | handler
  deriving DecidableEq, Repr

/-- The calls that have not returned, the innermost first: `promise_task`, and generators that
are running with the rest of their code. -/
inductive Frame (V E : Type*) where
  | task
  | code (gen : GenRef) (caller : Caller) (rest : BodyCode V E)

/-- An exception that is being handled, and the generator whose body has caught it (none: code
outside of async functions). The code does not keep the generator. -/
structure Caught (E : Type*) where
  owner : Option GenRef
  error : Exn E
  deriving DecidableEq

/-- One call of `await`: the generator, the awaited promise, and the promises derived by its
`then` and its `_catch`. -/
structure Await where
  gen : GenRef
  promise : Ref
  onValue : Ref
  onError : Ref
  deriving DecidableEq, Repr

/-- What an observer of a run sees. The code keeps no such record. -/
inductive Event (V E : Type*) where
  | awaits (a : Await)
  /-- a handler of an awaited promise has called `next` or `_throw` of a generator with this
  status -/
  | resumed (gen : GenRef) (outer : Ref) (status : GenStatus) (answer : Except (Exn E) V)
  | finished (gen : GenRef) (result : Except (Exn E) (Return V))
  deriving DecidableEq

/-! ## The machine -/

/-- The innermost call that has not returned is code of the program. -/
def runsUserCode {V E F : Type*} : List (Frame V E) → Control (Handler F) E → Bool
  | [], _ | .code .. :: _, _ => true
  | .task :: _, .handler _ _ _ _ (.user _) => true
  | .task :: _, _ => false

/-- The innermost call is code of the program outside of async functions. -/
def runsOutside {V E F : Type*} : List (Frame V E) → Control (Handler F) E → Bool
  | .code .. :: _, _ => false
  | stack, control => runsUserCode stack control

/-- The innermost call is a handler of an awaited promise: the promise, its derived promise and
the handler. -/
def runningAwaitHandler? {V E F : Type*} :
    List (Frame V E) → Control (Handler F) E → Option (Ref × Ref × Handler F)
  | .task :: _, .handler _ p _ outer (.next gen) => some (p, outer, .next gen)
  | .task :: _, .handler _ p _ outer (.throw_ gen) => some (p, outer, .throw_ gen)
  | _, _ => none

/-- `caught` is the thread's stack of exceptions that are being handled, the innermost first.
`blocks` counts the `catch` blocks that the handlers that are running and the main program have
begun and not ended, the innermost first. -/
structure Config (V E F : Type*) where
  promises : Promise.Config V E (Handler F) := {}
  gens : List (AsyncGen V E) := []
  stack : List (Frame V E) := []
  caught : List (Caught E) := []
  blocks : List ℕ := [0]
  log : List (Event V E) := []

namespace Config

variable {V E F : Type*}

def record (c : Config V E F) (e : Event V E) : Config V E F := { c with log := c.log ++ [e] }

def setData (c : Config V E F) (gen : GenRef) (data : GenData Unit V E (BodyCode V E)) :
    Config V E F :=
  { c with gens := c.gens.modify gen fun g => { g with data } }

/-- Code of the program has control: the main program, a handler, or the body of an async
function. -/
def userCode (c : Config V E F) : Bool := runsUserCode c.stack c.promises.control

/-- Code of the program outside of async functions has control. -/
def outside (c : Config V E F) : Bool := runsOutside c.stack c.promises.control

/-- The generator whose body has control. -/
def runningGen? (c : Config V E F) : Option GenRef :=
  match c.stack with
  | .code gen _ _ :: _ => some gen
  | _ => none

/-- The handler of an awaited promise has control. -/
def awaitHandler? (c : Config V E F) : Option (Ref × Ref × Handler F) :=
  runningAwaitHandler? c.stack c.promises.control

/-- No context of an async function is used by this call. -/
def ownsNoContext (c : Config V E F) (o : Op V E F) : Bool :=
  c.gens.all fun g => decide (o.context? ≠ some g.promise)

end Config

/-- A call that the program makes on promises. -/
def userOp {V E F : Type*} : Op V E F → Op V E (Handler F)
  | .promise => .promise
  | .resolved v => .resolved v
  | .resolvedVoid => .resolvedVoid
  | .rejected e => .rejected e
  | .rejectedVoid e => .rejectedVoid e
  | .resolve p v => .resolve p v
  | .resolvePromise p inner => .resolvePromise p inner
  | .reject p e => .reject p e
  | .then_ p f => .then_ p (.user f)
  | .catch_ p f => .catch_ p (.user f)

/-- What the executor does with the outcome of the body: `promise_ctx.resolve`, or
`promise_ctx.reject(std::current_exception())`. -/
def settleOp {V E F : Type*} [Blank V] (promise : Ref) :
    Except (Exn E) (Return V) → Op V E (Handler F)
  | .ok (.value v) => .resolve promise v
  | .ok .void => .resolve promise Blank.blank
  | .ok (.promise q) => .resolvePromise promise q
  | .error e => .reject promise (.eptr e)

/-- The choices of the environment. While a body runs, the program may make any calls between
two awaits. Code outside of async functions has `catch` blocks, too. -/
inductive Label (V E F : Type*) where
  | op (o : Op V E F)
  /-- a call of an async function -/
  | call (body : Body V E)
  | promiseTask
  | tau
  | finish (result : Outcome V E)
  | resume
  | beginCatch (error : Exn E)
  | endCatch

section Machine

variable {V E F : Type*} [Blank V] [FnTrait F E] [GeneratorError E]

namespace Config

/-- The promise module takes these steps. -/
def promiseSteps (c : Config V E F) (ls : List (Promise.Label V E (Handler F))) :
    Option (Config V E F) :=
  (Automaton.run Promise.step c.promises ls).map fun promises => { c with promises }

omit [GeneratorError E] in
/-- What follows in the caller when `next` or `_throw` returns. -/
def returnTo : Caller → List (Promise.Label V E (Handler F))
  | .call => []
  | .handler => [.finish (.returned .void)]

/-- `run_generator` -/
def runGenerator (c : Config V E F) (gen : GenRef) (caller : Caller)
    (data : GenData Unit V E (BodyCode V E)) : Option (Config V E F) :=
  data.enter.map fun (data, rest) =>
    { c.setData gen data with stack := .code gen caller rest :: c.stack }

/-- The call of an async function: a promise, whose executor makes the generator and calls
`_gen.next(nullptr)`. -/
def call (c : Config V E F) (body : Body V E) : Option (Config V E F) :=
  (c.promiseSteps [.op .promise]).bind fun called =>
    let data : GenData Unit V E (BodyCode V E) := { executor := body.code }
    let g : AsyncGen V E := { promise := c.promises.state.heap.length, data }
    match data.next Blank.blank with
    | .switched data =>
        { called with gens := called.gens ++ [g] }.runGenerator c.gens.length .call data
    | _ => none

/-- The closure of `await_impl` for this outcome of the awaited promise. -/
def handle (data : GenData Unit V E (BodyCode V E)) : Handler F → PromiseStatus V E →
    Option (Except (Exn E) V × Sent Unit V E (BodyCode V E))
  | .next _, .resolved value => some (.ok value, data.next value)
  | .throw_ _, .rejected error => some (.error error, data.throw_ (.eptr error))
  | _, _ => none

/-- The handler of an awaited promise runs. -/
def runAwaitHandler (c : Config V E F) (p outer : Ref) (f : Handler F) :
    Option (Config V E F) :=
  match f.gen? with
  | none => none
  | some gen =>
      match c.gens[gen]?, (c.promises.state.get? p).map PromiseData.status with
      | some g, some status =>
          match handle g.data f status with
          | some (answer, sent) =>
              let resumed := c.record (.resumed gen outer g.data.status answer)
              match sent with
              | .switched data => resumed.runGenerator gen .handler data
              | .returned _ => resumed.promiseSteps [.finish (.returned .void)]
              | .threw e => resumed.promiseSteps [.finish (.threw e)]
          | none => none
      | _, _ => none

/-- `await_impl`: both handlers are registered and the generator yields. -/
def await (c : Config V E F) (gen : GenRef) (caller : Caller) (p : Ref)
    (k : Except (Exn E) V → BodyCode V E) (stack : List (Frame V E)) : Option (Config V E F) :=
  let registers : List (Promise.Label V E (Handler F)) :=
    [.op (.then_ p (.next gen)), .op (.catch_ p (.throw_ gen))]
  match c.gens[gen]? with
  | none => none
  | some g =>
      match g.data.yield_ () k with
      | .ok data =>
          let (s, onValue) := c.promises.state.then_ p (.next gen)
          let (_, onError) := s.catch_ p (.throw_ gen)
          (c.promiseSteps (registers ++ returnTo caller)).map fun awaiting =>
            { awaiting.setData gen data with stack }.record
              (.awaits { gen, promise := p, onValue, onError })
      | .error e =>
          (c.promiseSteps registers).map fun awaiting =>
            { awaiting with stack := .code gen caller (k (.error e)) :: stack }

/-- The body has returned or thrown, and the executor settles the promise. -/
def finish (c : Config V E F) (gen : GenRef) (caller : Caller)
    (result : Except (Exn E) (Return V)) (stack : List (Frame V E)) : Option (Config V E F) :=
  match c.gens[gen]? with
  | none => none
  | some g =>
      (c.promiseSteps (.op (settleOp g.promise result) :: returnTo caller)).map fun settled =>
        { settled.setData gen (g.data.finish ()) with stack }.record (.finished gen result)

/-- A step of the library, or of the body that is running. A body that looks for a caught
exception gets the innermost one of the thread; without one, `throw;` ends the program. -/
def tau (c : Config V E F) : Option (Config V E F) :=
  match c.stack with
  | .code gen caller (.ask p k) :: stack => c.await gen caller p k stack
  | .code gen caller (.ret r) :: stack => c.finish gen caller (.ok r) stack
  | .code gen caller (.raise e) :: stack => c.finish gen caller (.error e) stack
  | .code gen caller (.beginCatch e rest) :: stack =>
      some { c with
        caught := ⟨some gen, e⟩ :: c.caught
        stack := .code gen caller rest :: stack }
  | .code gen caller (.current k) :: stack =>
      c.caught.head?.map fun x => { c with stack := .code gen caller (k x.error) :: stack }
  | .code gen caller (.endCatch rest) :: stack =>
      some { c with caught := c.caught.tail, stack := .code gen caller rest :: stack }
  | .task :: _ =>
      match c.awaitHandler? with
      | some (p, outer, f) => c.runAwaitHandler p outer f
      | none => c.promiseSteps [.tau]
  | [] => none

end Config

def step (c : Config V E F) : Label V E F → Option (Config V E F)
  | .op o =>
      if c.userCode && c.ownsNoContext o then c.promiseSteps [.op (userOp o)] else none
  | .call body => if c.userCode then c.call body else none
  | .promiseTask =>
      if c.userCode then
        (c.promiseSteps [.promiseTask]).map fun started =>
          { started with stack := .task :: c.stack, blocks := 0 :: c.blocks }
      else none
  | .tau => c.tau
  | .finish result =>
      match c.stack with
      | .task :: _ =>
          if c.userCode && decide (c.blocks.head? = some 0) then c.promiseSteps [.finish result]
          else none
      | _ => none
  | .resume =>
      match c.stack with
      | .task :: stack => (c.promiseSteps [.resume]).map fun left =>
          { left with stack, blocks := c.blocks.tail }
      | _ => none
  | .beginCatch error =>
      match c.blocks with
      | n :: blocks =>
          if c.outside then
            some { c with caught := ⟨none, error⟩ :: c.caught, blocks := (n + 1) :: blocks }
          else none
      | [] => none
  | .endCatch =>
      match c.blocks with
      | (n + 1) :: blocks =>
          if c.outside then some { c with caught := c.caught.tail, blocks := n :: blocks }
          else none
      | _ => none

end Machine

end Libasync.AsyncFunc
