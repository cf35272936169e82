import Mathlib.Data.List.Basic
import Mathlib.Data.Nat.Notation

/-! # Data model and operations of the promise module

The shared `PromiseData` objects form a heap of cells, and a promise is the index of its cell.
All promises of a thread live in one heap, so a cell holds values of one type `V` that stands
for all of them. -/

namespace Libasync.Promise

/-- A `PromiseDataRef`. -/
abbrev Ref := ℕ

/-! ## Errors -/

/-- The objects a `throw` or a `reject` can carry. An `exception_ptr` is modelled by the object
it refers to, and `eptr` is such a pointer used as an object itself. -/
inductive Exn (E : Type*) where
  | object (e : E)
  | badCast
  | eptr (pointee : Exn E)
  deriving DecidableEq, Repr

/-- `detail::eptr_make` does not wrap an `exception_ptr` a second time. -/
def eptrMake {E : Type*} : Exn E → Exn E
  | .eptr pointee => pointee
  | error => error

/-- The declared argument type of a rejected handler: `std::exception_ptr`, or a type `T` given
by what `catch (T e)` binds when an object is thrown at it. -/
inductive ErrorType (E : Type*) where
  | exceptionPtr
  | object (catches : Exn E → Option (Exn E))

/-- `detail::eptr_cast` -/
def eptrCast {E : Type*} : ErrorType E → Exn E → Except (Exn E) (Exn E)
  | .exceptionPtr, eptr => .ok (.eptr eptr)
  | .object catches, eptr =>
      match catches eptr with
      | some e => .ok e
      | none => .error .badCast

/-- What the templates read off the type of a handler. -/
class FnTrait (F : Type*) (E : outParam Type*) where
  /-- The derived promise is a `Promise<void>`. -/
  returnsVoid : F → Bool
  /-- The argument type of a rejected handler. -/
  errorType : F → ErrorType E

/-- The value `boost::blank()` of every fulfilled `Promise<void>`. -/
class Blank (V : Type*) where
  blank : V

/-! ## Cells -/

/-- `PromiseStatus` together with the `value` or `error` field that the status makes
meaningful. -/
inductive PromiseStatus (V E : Type*) where
  | pending
  | resolved (value : V)
  | rejected (error : Exn E)
  deriving DecidableEq, Repr

/-- The two handler lists of a promise. -/
inductive Side where
  | fulfilled
  | rejected
  deriving DecidableEq, Repr

/-- The list that `call_back` walks through for a settled promise. -/
def PromiseStatus.side? {V E : Type*} : PromiseStatus V E → Option Side
  | .pending => none
  | .resolved _ => some .fulfilled
  | .rejected _ => some .rejected

/-- An entry of `fulfilled_wrappers` or `rejected_wrappers`: the closure made by `then` or
`_catch` around a user handler, or the internal callback of `associate_status`. -/
inductive Wrapper (F : Type*) where
  | handler (outer : Ref) (f : F)
  | adopt (outer : Ref)
  deriving DecidableEq, Repr

/-- The promise held as `outer_data` by the closure. -/
def Wrapper.target {F : Type*} : Wrapper F → Ref
  | .handler outer _ => outer
  | .adopt outer => outer

structure PromiseData (V E F : Type*) where
  status : PromiseStatus V E := .pending
  pendingCallback : Bool := false
  fulfilledWrappers : List (Wrapper F) := []
  rejectedWrappers : List (Wrapper F) := []
  deriving DecidableEq, Repr

namespace PromiseData

variable {V E F : Type*}

def wrappers (data : PromiseData V E F) : Side → List (Wrapper F)
  | .fulfilled => data.fulfilledWrappers
  | .rejected => data.rejectedWrappers

def pushWrapper (data : PromiseData V E F) (side : Side) (w : Wrapper F) : PromiseData V E F :=
  match side with
  | .fulfilled => { data with fulfilledWrappers := data.fulfilledWrappers ++ [w] }
  | .rejected => { data with rejectedWrappers := data.rejectedWrappers ++ [w] }

/-- The wrappers that `call_back` invokes: none while the promise is pending. -/
def due (data : PromiseData V E F) : List (Wrapper F) :=
  match data.status.side? with
  | none => []
  | some side => data.wrappers side

end PromiseData

/-- The argument a user handler is invoked with. -/
inductive Arg (V E : Type*) where
  | value (v : V)
  | error (e : Exn E)
  deriving DecidableEq, Repr

/-- The argument that a wrapper passes on to its user handler. A rejected wrapper casts the
stored error outside every `try`, so its failure is an exception of the wrapper itself. No
wrapper of a pending promise is ever invoked. -/
def PromiseStatus.argFor {V E F : Type*} [FnTrait F E] (f : F) :
    PromiseStatus V E → Except (Exn E) (Arg V E)
  | .pending => .error .badCast
  | .resolved v => .ok (.value v)
  | .rejected e => (eptrCast (FnTrait.errorType f) e).map .error

/-! ## The module state -/

/-- What an observer of a run sees. The code keeps no such record. -/
inductive Event (V E F : Type*) where
  | enqueued (p : Ref)
  | registered (side : Side) (p outer : Ref) (f : F)
  | called (turn : ℕ) (p outer : Ref) (f : F) (arg : Arg V E)
  deriving DecidableEq, Repr

/-- The heap, `pending_callback_queue`, and the record of the run so far. -/
structure State (V E F : Type*) where
  heap : List (PromiseData V E F) := []
  queue : List Ref := []
  log : List (Event V E F) := []
  deriving DecidableEq, Repr

namespace State

variable {V E F : Type*}

def get? (s : State V E F) (p : Ref) : Option (PromiseData V E F) := s.heap[p]?

def update (s : State V E F) (p : Ref) (f : PromiseData V E F → PromiseData V E F) :
    State V E F :=
  { s with heap := s.heap.modify p f }

def record (s : State V E F) (e : Event V E F) : State V E F := { s with log := s.log ++ [e] }

/-- `make_shared<PromiseData>()` -/
def alloc (s : State V E F) (data : PromiseData V E F) : State V E F × Ref :=
  ({ s with heap := s.heap ++ [data] }, s.heap.length)

/-- `Promise()` -/
def create (s : State V E F) : State V E F × Ref := s.alloc {}

/-- Set `pending_callback` and append the promise to `pending_callback_queue`. -/
def requestCallBack (s : State V E F) (p : Ref) : State V E F :=
  let s := s.update p fun data => { data with pendingCallback := true }
  { s with queue := s.queue ++ [p] }.record (.enqueued p)

/-! ### Settling -/

/-- The common body of `resolve_impl` for a value and of `reject_impl`. -/
def settle (s : State V E F) (p : Ref) (status : PromiseStatus V E) : State V E F :=
  match (s.get? p).map PromiseData.status with
  | some .pending => (s.update p fun data => { data with status }).requestCallBack p
  | _ => s

def resolveImpl (s : State V E F) (p : Ref) (value : V) : State V E F :=
  s.settle p (.resolved value)

def rejectImpl (s : State V E F) (p : Ref) (error : Exn E) : State V E F :=
  s.settle p (.rejected (eptrMake error))

/-- Run an internal callback of `associate_status` when the inner promise has this status. -/
def adoptStatus (s : State V E F) (outer : Ref) : PromiseStatus V E → State V E F
  | .pending => s
  | .resolved value => s.resolveImpl outer value
  | .rejected error => s.rejectImpl outer (.eptr error)

def associateStatus (s : State V E F) (outer inner : Ref) : State V E F :=
  match (s.get? inner).map PromiseData.status with
  | some (.resolved value) => s.resolveImpl outer value
  | some (.rejected error) => s.rejectImpl outer (.eptr error)
  | some .pending =>
      s.update inner fun data =>
        (data.pushWrapper .fulfilled (.adopt outer)).pushWrapper .rejected (.adopt outer)
  | none => s

/-- `resolve_impl` for a promise. -/
def resolvePromiseImpl (s : State V E F) (p inner : Ref) : State V E F :=
  match (s.get? p).map PromiseData.status with
  | some .pending => s.associateStatus p inner
  | _ => s

/-! ### Constructors -/

/-- `Promise<T>::resolved(T)` -/
def resolved (s : State V E F) (value : V) : State V E F × Ref :=
  s.alloc { status := .resolved value }

/-- `Promise<T>::rejected` -/
def rejected (s : State V E F) (error : Exn E) : State V E F × Ref :=
  s.alloc { status := .rejected (eptrMake error) }

/-- `Promise<void>::resolved()` goes through `resolve`, so the promise is enqueued. -/
def resolvedVoid [Blank V] (s : State V E F) : State V E F × Ref :=
  let (s, p) := s.create
  (s.resolveImpl p Blank.blank, p)

/-- `Promise<void>::rejected` goes through `reject`, so the promise is enqueued. -/
def rejectedVoid (s : State V E F) (error : Exn E) : State V E F × Ref :=
  let (s, p) := s.create
  (s.rejectImpl p error, p)

/-! ### Registering handlers -/

/-- Push the wrapped handler on its list. -/
def register (s : State V E F) (side : Side) (p outer : Ref) (f : F) : State V E F :=
  (s.update p fun data => data.pushWrapper side (.handler outer f)).record
    (.registered side p outer f)

/-- The common body of `then` and `_catch`. The second component is the returned promise. -/
def attach (side : Side) (s : State V E F) (p : Ref) (f : F) : State V E F × Ref :=
  let (created, outer) := s.create
  match s.get? p with
  | none => (created, outer)
  | some data =>
      match data.status.side? with
      | none => (created.register side p outer f, outer)
      | some settled =>
          if settled = side then
            let requested := if data.pendingCallback then created else created.requestCallBack p
            (requested.register side p outer f, outer)
          else
            -- the promise settled the other way: the caller gets a promise of its own
            created.create

/-- `Promise<T>::then<U>(fulfilled)` -/
def then_ (s : State V E F) (p : Ref) (fulfilled : F) : State V E F × Ref :=
  s.attach .fulfilled p fulfilled

/-- `Promise<T>::_catch<U>(rejected)` -/
def catch_ (s : State V E F) (p : Ref) (rejected : F) : State V E F × Ref :=
  s.attach .rejected p rejected

/-- `Promise<T>::then<U>(fulfilled, rejected)`. Both calls are made, and control flows off the
end of the function, so that no promise is returned. -/
def thenBoth (s : State V E F) (p : Ref) (fulfilled rejected : F) : State V E F × Option Ref :=
  let (s, _) := s.then_ p fulfilled
  let (s, _) := s.catch_ p rejected
  (s, none)

end State

/-! ### Running handlers -/

/-- What a user handler returns: a `T`, nothing, or a promise. -/
inductive Return (V : Type*) where
  | value (v : V)
  | void
  | promise (p : Ref)
  deriving DecidableEq, Repr

inductive Outcome (V E : Type*) where
  | returned (result : Return V)
  | threw (error : Exn E)
  deriving DecidableEq, Repr

namespace State

variable {V E F : Type*} [Blank V]

/-- `FulfilledHelper::run` and `RejectedHelper::run` after the user handler has finished: the
inner promise of its outcome. -/
def runHelper [FnTrait F E] (s : State V E F) (f : F) : Outcome V E → State V E F × Ref
  | .returned (.value v) => s.resolved v
  | .returned .void => s.resolvedVoid
  | .returned (.promise q) => (s, q)
  | .threw e => if FnTrait.returnsVoid f then s.rejectedVoid (.eptr e) else s.rejected (.eptr e)

/-- The rest of a wrapper of `then` or `_catch` after the user handler has finished. -/
def finishHandler [FnTrait F E] (s : State V E F) (outer : Ref) (f : F) (result : Outcome V E) :
    State V E F :=
  let (s, inner) := s.runHelper f result
  s.associateStatus outer inner

/-- The end of `call_back`. -/
def finishCallBack (s : State V E F) (p : Ref) : State V E F :=
  s.update p fun data =>
    { data with pendingCallback := false, fulfilledWrappers := [], rejectedWrappers := [] }

end State

/-! ## The machine -/

/-- The calls that user code can make on promises and contexts. -/
inductive Op (V E F : Type*) where
  /-- `Promise<T>(executor)`, up to the point where the executor gets control -/
  | promise
  | resolved (v : V)
  | resolvedVoid
  | rejected (e : Exn E)
  | rejectedVoid (e : Exn E)
  | resolve (p : Ref) (v : V)
  | resolvePromise (p inner : Ref)
  | reject (p : Ref) (e : Exn E)
  | then_ (p : Ref) (f : F)
  | catch_ (p : Ref) (f : F)
  deriving DecidableEq, Repr

/-- The promises that a call is given. -/
def Op.refs {V E F : Type*} : Op V E F → List Ref
  | .resolve p _ | .reject p _ | .then_ p _ | .catch_ p _ => [p]
  | .resolvePromise p inner => [p, inner]
  | _ => []

def Outcome.refs {V E : Type*} : Outcome V E → List Ref
  | .returned (.promise p) => [p]
  | _ => []

/-- These promises exist. -/
def State.has {V E F : Type*} (s : State V E F) (refs : List Ref) : Bool :=
  refs.all fun p => decide (p < s.heap.length)

/-- The promise whose context is used by a call through a `PromiseCtx`. -/
def Op.context? {V E F : Type*} : Op V E F → Option Ref
  | .resolve p _ | .resolvePromise p _ | .reject p _ => some p
  | _ => none

def State.perform {V E F : Type*} [Blank V] (s : State V E F) : Op V E F → State V E F
  | .promise => s.create.1
  | .resolved v => (s.resolved v).1
  | .resolvedVoid => s.resolvedVoid.1
  | .rejected e => (s.rejected e).1
  | .rejectedVoid e => (s.rejectedVoid e).1
  | .resolve p v => s.resolveImpl p v
  | .resolvePromise p inner => s.resolvePromiseImpl p inner
  | .reject p e => s.rejectImpl p e
  | .then_ p f => (s.then_ p f).1
  | .catch_ p f => (s.catch_ p f).1

/-- Where control is. -/
inductive Control (F E : Type*) where
  /-- outside `promise_task` -/
  | idle
  /-- in the loop of `promise_task`, at this position of the queue -/
  | turn (i : ℕ)
  /-- in `call_back` of the promise at position `i`, before its wrapper number `j` -/
  | callBack (i : ℕ) (p : Ref) (j : ℕ)
  /-- in the user handler of wrapper number `j` -/
  | handler (i : ℕ) (p : Ref) (j : ℕ) (outer : Ref) (f : F)
  /-- `promise_task` has returned, or an exception has left it -/
  | done (exit : Option (Exn E))
  deriving DecidableEq, Repr

/-- The choices of the environment. Code outside the library, a handler included, may make any
call on the promises there are, and may return or throw as it likes. -/
inductive Label (V E F : Type*) where
  | op (o : Op V E F)
  | promiseTask
  | tau
  | finish (result : Outcome V E)
  | resume
  deriving DecidableEq, Repr

structure Config (V E F : Type*) where
  state : State V E F := {}
  control : Control F E := .idle
  deriving DecidableEq, Repr

section Machine

variable {V E F : Type*} [Blank V] [FnTrait F E]

/-- One wrapper call, or the end of `call_back` when no wrapper is left. A wrapper pushed during
the loop is reached by it, since the loop compares with the end of the list as it is now. -/
def callWrapper (s : State V E F) (i : ℕ) (p : Ref) (j : ℕ) : Option (Config V E F) :=
  match s.get? p with
  | none => none
  | some data =>
      match data.due[j]? with
      | none => some ⟨s.finishCallBack p, .turn (i + 1)⟩
      | some (.adopt outer) => some ⟨s.adoptStatus outer data.status, .callBack i p (j + 1)⟩
      | some (.handler outer f) =>
          match data.status.argFor f with
          | .ok arg => some ⟨s.record (.called i p outer f arg), .handler i p j outer f⟩
          | .error e => some ⟨s, .done (some e)⟩

/-- A step of the library's own loops. -/
def tau (c : Config V E F) : Option (Config V E F) :=
  match c.control with
  | .turn i =>
      match c.state.queue[i]? with
      | some p => some ⟨c.state, .callBack i p 0⟩
      | none => some ⟨{ c.state with queue := [] }, .done none⟩
  | .callBack i p j => callWrapper c.state i p j
  | _ => none

def step (c : Config V E F) : Label V E F → Option (Config V E F)
  | .op o =>
      match c.control with
      | .idle | .handler .. =>
          if c.state.has o.refs then some { c with state := c.state.perform o } else none
      | _ => none
  | .promiseTask =>
      match c.control with
      | .idle => some { c with control := .turn 0 }
      | _ => none
  | .tau => tau c
  | .finish result =>
      match c.control with
      | .handler i p j outer f =>
          if c.state.has result.refs then
            some ⟨c.state.finishHandler outer f result, .callBack i p (j + 1)⟩
          else none
      | _ => none
  | .resume =>
      match c.control with
      | .done _ => some { c with control := .idle }
      | _ => none

end Machine

/-! ### A concrete instance -/

/-- Numbered handlers, to run the machine on concrete programs over numbers. -/
inductive SampleHandler where
  /-- takes a value, or any error as an `exception_ptr` -/
  | plain (n : ℕ)
  /-- as a rejected handler, takes only the error object `e` -/
  | onError (e n : ℕ)
  deriving DecidableEq, Repr

instance : Blank ℕ := ⟨0⟩

instance : FnTrait SampleHandler ℕ where
  returnsVoid _ := false
  errorType
    | .plain _ => .exceptionPtr
    | .onError e _ => .object fun thrown => if thrown = .object e then some thrown else none

end Libasync.Promise
