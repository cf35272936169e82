import Libasync.Promise.PassThrough
import Mathlib.Data.Fintype.Basic
import Mathlib.Logic.Function.Basic

/-! # Graphs of promises

A program that makes a fixed set of promises: roots, promises that adopt another one, and promises
derived by `then` or `_catch` with handlers that do nothing but return or throw. A schedule says
in which order it makes its calls, and when `promise_task` is run. -/

namespace Libasync.Promise

open Automaton

/-! ### Graphs -/

/-- The one call through the context of a root. -/
inductive Settlement (V E : Type*) where
  | resolve (v : V)
  | reject (e : Exn E)
  deriving DecidableEq, Repr

/-- How a promise of a graph comes about. -/
inductive Node (ν V E F : Type*) where
  | root (settlement : Settlement V E)
  | adopter (inner : ν)
  | derived (side : Side) (source : ν) (f : F)
  deriving DecidableEq, Repr

/-- What a pure handler returns or throws. -/
inductive Reply (ν V E : Type*) where
  | value (v : V)
  | void
  | promise (n : ν)
  | threw (error : Exn E)
  deriving DecidableEq, Repr

/-- The promises of a program, and what its handlers answer to an argument. -/
structure Graph (ν V E F : Type*) where
  node : ν → Node ν V E F
  reply : F → Arg V E → Reply ν V E

variable {ν V E F : Type*}

def Node.isDerived : Node ν V E F → Bool
  | .derived .. => true
  | .root _ | .adopter _ => false

def Settlement.status : Settlement V E → PromiseStatus V E
  | .resolve v => .resolved v
  | .reject e => .rejected (eptrMake e)

def Settlement.op (q : Ref) : Settlement V E → Op V E F
  | .resolve v => .resolve q v
  | .reject e => .reject q e

/-- The status of a derived promise whose handler has given an answer other than a promise. -/
def Reply.status? [Blank V] : Reply ν V E → Option (PromiseStatus V E)
  | .value v => some (.resolved v)
  | .void => some (.resolved Blank.blank)
  | .promise _ => none
  | .threw e => some (.rejected e)

/-- The answer at run time, when the promises of the graph have these references. -/
def Reply.outcome? (ref : ν → Option Ref) : Reply ν V E → Option (Outcome V E)
  | .value v => some (.returned (.value v))
  | .void => some (.returned .void)
  | .promise n => (ref n).map fun q => .returned (.promise q)
  | .threw e => some (.threw e)

theorem Reply.outcome?_mono {ref ref' : ν → Option Ref}
    (h : ∀ n q, ref n = some q → ref' n = some q) {reply : Reply ν V E} {result : Outcome V E}
    (hresult : reply.outcome? ref = some result) : reply.outcome? ref' = some result := by
  cases reply with
  | promise n =>
      obtain ⟨q, hq, rfl⟩ := Option.map_eq_some_iff.mp hresult
      simp [outcome?, h n q hq]
  | value | void | threw => exact hresult

/-- The outcome of a promise, read off the graph: that of the promise it takes it from. A promise
that would wait for itself has none. -/
inductive Graph.Denotes [Blank V] [FnTrait F E] (G : Graph ν V E F) :
    ν → PromiseStatus V E → Prop where
  | root (n settlement) (node : G.node n = .root settlement) : Denotes G n settlement.status
  | adopter (n inner status) (node : G.node n = .adopter inner) (outcome : Denotes G inner status) :
      Denotes G n status
  | answered (n side source f status arg result) (node : G.node n = .derived side source f)
      (outcome : Denotes G source status) (side_eq : status.side? = some side)
      (arg_eq : status.argFor f = .ok arg) (reply : (G.reply f arg).status? = some result) :
      Denotes G n result
  | followed (n side source f status arg inner result) (node : G.node n = .derived side source f)
      (outcome : Denotes G source status) (side_eq : status.side? = some side)
      (arg_eq : status.argFor f = .ok arg) (reply : G.reply f arg = .promise inner)
      (followed : Denotes G inner result) : Denotes G n result

/-! ### Schedules -/

/-- The promise module while a graph is built, with the references of its promises. `applied` are
the promises whose context has been used. -/
structure GraphConfig (ν V E F : Type*) where
  config : Config V E F := Config.initial
  ref : ν → Option Ref := fun _ => none
  applied : ν → Bool := fun _ => false

inductive GraphLabel (ν : Type*) where
  /-- the constructor, `then` or `_catch` that makes the promise -/
  | create (n : ν)
  /-- the call of `resolve` or `reject` through the context of the promise -/
  | apply (n : ν)
  | promiseTask
  | tau
  /-- the end of the running handler -/
  | finish
  | resume
  deriving DecidableEq, Repr

def GraphConfig.status? (c : GraphConfig ν V E F) (n : ν) : Option (PromiseStatus V E) :=
  (c.ref n).bind c.config.state.status?

def Control.isIdle {E : Type*} : Control F E → Bool
  | .idle => true
  | _ => false

/-- The promise that a constructor, `then` or `_catch` returns. -/
def State.made (s : State V E F) : Op V E F → Ref
  | .then_ p f => (s.then_ p f).2
  | .catch_ p f => (s.catch_ p f).2
  | _ => s.heap.length

namespace Graph

section Schedule

variable [FnTrait F E] (G : Graph ν V E F)

/-- The call that makes a promise, when the promises it needs are there. -/
def creation? (ref : ν → Option Ref) (n : ν) : Option (Op V E F) :=
  match G.node n with
  | .root _ | .adopter _ => some .promise
  | .derived side source f => (ref source).map fun p => .attach side p f

/-- The call through the context of a promise, when the promises it needs are there. -/
def application? (ref : ν → Option Ref) (n : ν) : Option (Op V E F) :=
  match G.node n with
  | .root settlement => (ref n).map settlement.op
  | .adopter inner => (ref n).bind fun q => (ref inner).map fun r => .resolvePromise q r
  | .derived .. => none

/-- What the running handler answers. -/
def answer? (c : GraphConfig ν V E F) : Option (Outcome V E) :=
  match c.config.control with
  | .handler _ p _ _ f =>
      (c.config.state.status? p).bind fun status =>
        match status.argFor f with
        | .ok arg => (G.reply f arg).outcome? c.ref
        | .error _ => none
  | _ => none

/-- A promise is made once, and its context is used once. Handlers make no calls. -/
def step [Blank V] [DecidableEq ν] (c : GraphConfig ν V E F) :
    GraphLabel ν → Option (GraphConfig ν V E F)
  | .create n =>
      if c.config.control.isIdle && (c.ref n).isNone then
        (G.creation? c.ref n).bind fun op => (Promise.step c.config (.op op)).map fun config =>
          { c with config, ref := Function.update c.ref n (some (c.config.state.made op)) }
      else none
  | .apply n =>
      if c.config.control.isIdle && !c.applied n then
        (G.application? c.ref n).bind fun op => (Promise.step c.config (.op op)).map fun config =>
          { c with config, applied := Function.update c.applied n true }
      else none
  | .promiseTask => (Promise.step c.config .promiseTask).map fun config => { c with config }
  | .tau => (Promise.step c.config .tau).map fun config => { c with config }
  | .finish => (G.answer? c).bind fun result =>
      (Promise.step c.config (.finish result)).map fun config => { c with config }
  | .resume => (Promise.step c.config .resume).map fun config => { c with config }

end Schedule

/-- All promises are made, all contexts are used, and `promise_task` has emptied its queue. -/
structure Complete (G : Graph ν V E F) (c : GraphConfig ν V E F) : Prop where
  idle : c.config.control.isIdle = true
  queue : c.config.state.queue = []
  created : ∀ n, (c.ref n).isSome = true
  applied : ∀ n, ((G.node n).isDerived || c.applied n) = true

instance [Fintype ν] (G : Graph ν V E F) (c : GraphConfig ν V E F) : Decidable (G.Complete c) :=
  decidable_of_iff (c.config.control.isIdle = true ∧ c.config.state.queue = [] ∧
      (∀ n, (c.ref n).isSome = true) ∧ ∀ n, ((G.node n).isDerived || c.applied n) = true)
    ⟨fun ⟨h₁, h₂, h₃, h₄⟩ => ⟨h₁, h₂, h₃, h₄⟩, fun ⟨h₁, h₂, h₃, h₄⟩ => ⟨h₁, h₂, h₃, h₄⟩⟩

/-! ### Steps -/

variable [Blank V] [FnTrait F E] [DecidableEq ν]

/-- The kinds of steps, with the step of the promise module that each one is. -/
inductive Stepped (G : Graph ν V E F) (c : GraphConfig ν V E F) :
    Label V E F → GraphConfig ν V E F → Prop where
  | created (n op config) (idle : c.config.control = .idle) (fresh : c.ref n = none)
      (creation : G.creation? c.ref n = some op) (step : Promise.Step c.config (.op op) config) :
      Stepped G c (.op op)
        { c with config, ref := Function.update c.ref n (some (c.config.state.made op)) }
  | applied (n op config) (idle : c.config.control = .idle) (unused : c.applied n = false)
      (application : G.application? c.ref n = some op)
      (step : Promise.Step c.config (.op op) config) :
      Stepped G c (.op op) { c with config, applied := Function.update c.applied n true }
  | finished (result config) (answer : G.answer? c = some result)
      (step : Promise.Step c.config (.finish result) config) :
      Stepped G c (.finish result) { c with config }
  | internal (l config) (pass : l = .promiseTask ∨ l = .tau ∨ l = .resume)
      (step : Promise.Step c.config l config) : Stepped G c l { c with config }

theorem isIdle_iff {E : Type*} {control : Control F E} :
    control.isIdle = true ↔ control = .idle := by
  cases control <;> simp [Control.isIdle]

theorem stepped {G : Graph ν V E F} {c c' : GraphConfig ν V E F} {l : GraphLabel ν}
    (h : G.step c l = some c') : ∃ label, Stepped G c label c' := by
  cases l with
  | create n =>
      simp only [step, Option.ite_none_right_eq_some, Bool.and_eq_true, Option.isNone_iff_eq_none,
        Option.bind_eq_some_iff, Option.map_eq_some_iff] at h
      obtain ⟨⟨hidle, hfresh⟩, op, hop, config, hstep, rfl⟩ := h
      exact ⟨_, .created n op config (isIdle_iff.mp hidle) hfresh hop (.of_step hstep)⟩
  | apply n =>
      simp only [step, Option.ite_none_right_eq_some, Bool.and_eq_true, Bool.not_eq_true',
        Option.bind_eq_some_iff, Option.map_eq_some_iff] at h
      obtain ⟨⟨hidle, hunused⟩, op, hop, config, hstep, rfl⟩ := h
      exact ⟨_, .applied n op config (isIdle_iff.mp hidle) hunused hop (.of_step hstep)⟩
  | promiseTask | tau | resume =>
      obtain ⟨config, hstep, rfl⟩ := Option.map_eq_some_iff.mp h
      exact ⟨_, .internal _ config (by simp) (.of_step hstep)⟩
  | finish =>
      simp only [step, Option.bind_eq_some_iff, Option.map_eq_some_iff] at h
      obtain ⟨result, hanswer, config, hstep, rfl⟩ := h
      exact ⟨_, .finished result config hanswer (.of_step hstep)⟩

variable {G : Graph ν V E F} {c c' : GraphConfig ν V E F} {label : Label V E F}

theorem Stepped.step (h : Stepped G c label c') : Promise.Step c.config label c'.config := by
  cases h <;> assumption

/-- A promise keeps its reference. -/
theorem Stepped.ref_mono (h : Stepped G c label c') {n : ν} {q : Ref} (hn : c.ref n = some q) :
    c'.ref n = some q := by
  cases h with
  | created m op config idle fresh creation step =>
      have hne : n ≠ m := by
        rintro rfl
        simp [fresh] at hn
      simpa [hne] using hn
  | applied | finished | internal => exact hn

end Graph

end Libasync.Promise
