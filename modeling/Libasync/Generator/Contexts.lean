import Libasync.Generator.Machine

/-! # Stacks, contexts and pointers of generators

What the switches do to memory. `swapcontext` saves where a stack is left and goes on where another
one was left. `caller_ctx` and `in_val` point to local variables of the call that has resumed the
generator, on whatever stack it was made. An executor can yield through the context of any
generator. -/

namespace Libasync.Generator.Contexts

open Promise
open Machine (GenRef Call)

/-! ## Memory -/

/-- The stack of the main program, or the `gen_stack` of a generator. -/
inductive Place where
  | main
  | gen (g : GenRef)
  deriving DecidableEq, Repr

/-- The call at the top of a stack that was left after control had come to it so often. -/
structure Address where
  place : Place
  serial : ℕ
  deriving DecidableEq, Repr

/-- `ucontext_t` -/
inductive Context where
  /-- made by `makecontext` for `gen_wrapper` -/
  | entry
  /-- saved by `swapcontext` in this call -/
  | saved (address : Address)
  deriving DecidableEq, Repr

/-- `GenData`. User code is of type `X`. An `Executor` is given the context of its generator. -/
structure GenData (T E X : Type*) where
  status : GenStatus := .pending
  genCtx : Option Context := none
  /-- it is no null pointer -/
  genStack : Bool := false
  callerCtx : Option Address := none
  executor : GenRef → X
  outVal : Option T := none
  inVal : Option Address := none
  error : Option (Exn E) := none

/-! ## Code -/

/-- What the user code of an executor does next, and the state it goes on in. `yield` and
`yield_from` are called on the context of a generator, which need not be its own. -/
inductive Action (T IT E X : Type*) where
  | ret (result : T)
  | raise (error : Exn E)
  | yield (ctx : GenRef) (value : T) (k : Except (Exn E) IT → X)
  | yieldFrom (ctx gen : GenRef) (k : Except (Exn E) Unit → X)
  | call (gen : GenRef) (call : Call IT E) (k : Machine.Answer T E → X)
  | status (gen : GenRef) (k : GenStatus → X)
  | create (executor : GenRef → X) (k : GenRef → X)

/-- User code, or the loop of `yield_from` at its test or with a value to yield. -/
inductive Code (T E X : Type*) where
  | user (state : X)
  | yieldFrom (ctx gen : GenRef) (k : Except (Exn E) Unit → X)
  | forward (ctx : GenRef) (value : Option T) (gen : GenRef) (k : Except (Exn E) Unit → X)

inductive Control (T E X : Type*) where
  /-- the main program, with what its last call has returned -/
  | main (answer : Option (Machine.Answer T E))
  /-- code on the stack of this generator -/
  | code (g : GenRef) (code : Code T E X)
  /-- a null pointer was followed -/
  | crashed
  /-- a context was loaded, or a pointer followed, that is no longer valid -/
  | undefined

/-- The call at the top of a stack that was left. -/
inductive Frame (T IT E X : Type*) where
  /-- `next` with its parameter `value`, or `_throw`, in `run_generator` with its `caller_ctx` -/
  | calling (gen : GenRef) (value : Option IT) (k : Machine.Answer T E → Control T E X)
  /-- `yield_impl` -/
  | yielding (gen : GenRef) (k : Except (Exn E) IT → Control T E X)
  /-- `gen_wrapper` after its last switch -/
  | ended

structure Stack (T IT E X : Type*) where
  serial : ℕ := 0
  /-- missing before control comes to the stack and while it is there -/
  top : Option (Frame T IT E X) := none

structure World (T IT E X : Type*) where
  gens : GenRef → Option (GenData T E X) := fun _ => none
  numGens : ℕ := 0
  stackAt : Place → Stack T IT E X := fun _ => {}

section Generators

variable {T IT E X : Type*}

/-- The loop of `yield_from` when the call of `next` is back. -/
def forwarding (ctx gen : GenRef) (k : Except (Exn E) Unit → X) : Machine.Answer T E → Code T E X
  | .ok value => .forward ctx value gen k
  | .error error => .user (k (.error error))

/-- The loop of `yield_from` when the `yield` is back. -/
def looping (ctx gen : GenRef) (k : Except (Exn E) Unit → X) :
    Except (Exn E) IT → Code T E X
  | .ok _ => .yieldFrom ctx gen k
  | .error error => .user (k (.error error))

/-- What `next` and `_throw` return or throw when they have run the generator to its end. -/
def GenData.result (data : GenData T E X) : Machine.Answer T E :=
  match data.error with
  | some error => .error error
  | none => .ok data.outVal

namespace World

def setGen (w : World T IT E X) (g : GenRef) (data : GenData T E X) : World T IT E X :=
  { w with gens := Function.update w.gens g (some data) }

def setStack (w : World T IT E X) (p : Place) (stack : Stack T IT E X) : World T IT E X :=
  { w with stackAt := Function.update w.stackAt p stack }

/-- `Generator(executor)` -/
def create (w : World T IT E X) (executor : GenRef → X) : World T IT E X :=
  { w.setGen w.numGens { executor } with numGens := w.numGens + 1 }

/-! ### Stacks -/

/-- The memory of the stack was not freed. -/
def allocated (w : World T IT E X) : Place → Bool
  | .main => true
  | .gen g => (w.gens g).any GenData.genStack

/-- The call at this address, while the stack has not been used since it was left. -/
def find (w : World T IT E X) (a : Address) : Option (Frame T IT E X) :=
  if w.allocated a.place ∧ (w.stackAt a.place).serial = a.serial then (w.stackAt a.place).top
  else none

/-- The address of the call that is about to leave the stack. -/
def here (w : World T IT E X) (p : Place) : Address := ⟨p, (w.stackAt p).serial⟩

/-- Control leaves the stack in this call. -/
def leave (w : World T IT E X) (p : Place) (frame : Frame T IT E X) : World T IT E X :=
  w.setStack p { serial := (w.stackAt p).serial, top := some frame }

/-- Control comes to the stack. -/
def enter (w : World T IT E X) (p : Place) : World T IT E X :=
  w.setStack p { serial := (w.stackAt p).serial + 1 }

/-- `*in_val`, which is the parameter of `next` -/
def deref (w : World T IT E X) (a : Address) : Option IT :=
  match w.find a with
  | some (.calling _ value _) => value
  | _ => none

/-! ### Switches -/

/-- What a call does when control is back in it: the end of `run_generator` and of the call that has
run it, or the end of `yield_impl`. -/
def goOn (w : World T IT E X) : Frame T IT E X → World T IT E X × Control T E X
  | .calling g _ k =>
      match w.gens g with
      | none => (w, .undefined)
      | some data =>
          if data.status = .done then
            (w.setGen g { data with genStack := false }, k data.result)
          else (w, k (.ok data.outVal))
  | .yielding g k =>
      match w.gens g with
      | none => (w, .undefined)
      | some data =>
          match data.inVal, data.error with
          | some a, _ =>
              match w.deref a with
              | some value => (w, k (.ok value))
              | none => (w, .undefined)
          | none, some error => (w.setGen g { data with error := none }, k (.error error))
          | none, none => (w, .undefined)
  | .ended => (w, .undefined)

/-- `swapcontext` to a context that was saved here. -/
def switchTo (w : World T IT E X) (a : Address) : World T IT E X × Control T E X :=
  match w.find a with
  | none => (w, .undefined)
  | some frame => (w.enter a.place).goOn frame

/-- `run_generator` on the stack `p` up to the switch, and what has control after it. -/
def runGenerator (w : World T IT E X) (p : Place) (g : GenRef) (data : GenData T E X)
    (value : Option IT) (k : Machine.Answer T E → Control T E X) : World T IT E X × Control T E X :=
  let left := (w.leave p (.calling g value k)).setGen g { data with callerCtx := some (w.here p) }
  match data.genCtx with
  | none => (left, .undefined)
  | some .entry => (left.enter (.gen g), .code g (.user (data.executor g)))
  | some (.saved a) => left.switchTo a

/-- The generator gives control back, from a call on the stack `p`. -/
def giveBack (w : World T IT E X) (p : Place) (g : GenRef) (data : GenData T E X)
    (frame : Frame T IT E X) : World T IT E X × Control T E X :=
  let left := (w.leave p frame).setGen g { data with genCtx := some (.saved (w.here p)) }
  match data.callerCtx with
  | none => (left, .undefined)
  | some a => left.switchTo a

variable [GeneratorError E]

/-! ### Calls -/

/-- `next` or `_throw`, called on the stack `p`. -/
def call (w : World T IT E X) (p : Place) (gen : GenRef) (call : Call IT E)
    (k : Machine.Answer T E → Control T E X) : Option (World T IT E X × Control T E X) :=
  match w.gens gen with
  | none => none
  | some data =>
      match data.status, call with
      | .pending, .next value =>
          some (w.runGenerator p gen
            { data with
              genCtx := some .entry
              genStack := true
              inVal := some (w.here p)
              status := .running } (some value) k)
      | .suspended, .next value =>
          some (w.runGenerator p gen
            { data with inVal := some (w.here p), status := .running } (some value) k)
      | .done, .next _ => some (w, k (.ok data.outVal))
      | .pending, .throw_ error | .done, .throw_ error => some (w, k (.error error))
      | .suspended, .throw_ error =>
          some (w.runGenerator p gen
            { data with inVal := none, error := some (eptrMake error), status := .running } none k)
      | .running, _ => some (w, k (.error (.object (GeneratorError.make .alreadyRunning))))

/-- `yield_impl`, called on the stack `p`. -/
def yield_ (w : World T IT E X) (p : Place) (ctx : GenRef) (value : T)
    (k : Except (Exn E) IT → Control T E X) : Option (World T IT E X × Control T E X) :=
  match w.gens ctx with
  | none => none
  | some data =>
      if data.status = .running then
        some (w.giveBack p ctx { data with outVal := some value, status := .suspended }
          (.yielding ctx k))
      else some (w, k (.error (.object (GeneratorError.make .notRunning))))

/-- The code on the stack of generator `g` does one thing. -/
def exec (prog : X → Action T IT E X) (w : World T IT E X) (g : GenRef) (code : Code T E X) :
    Option (World T IT E X × Control T E X) :=
  match w.gens g with
  | none => none
  | some data =>
      match code with
      | .user state =>
          match prog state with
          | .ret result =>
              some (w.giveBack (.gen g) g { data with outVal := some result, status := .done }
                .ended)
          | .raise error =>
              some (w.giveBack (.gen g) g { data with error := some error, status := .done }
                .ended)
          | .yield ctx value k =>
              w.yield_ (.gen g) ctx value fun sent => .code g (.user (k sent))
          | .yieldFrom ctx gen k => some (w, .code g (.yieldFrom ctx gen k))
          | .call gen call k =>
              w.call (.gen g) gen call fun answer => .code g (.user (k answer))
          | .status gen k =>
              (w.gens gen).map fun called => (w, .code g (.user (k called.status)))
          | .create executor k => some (w.create executor, .code g (.user (k w.numGens)))
      | .yieldFrom ctx gen k =>
          match w.gens gen, w.gens ctx with
          | some inner, some data =>
              if inner.status = .done then some (w, .code g (.user (k (.ok ()))))
              else
                match data.inVal with
                | none => some (w, .crashed)
                | some a =>
                    match w.deref a with
                    | none => some (w, .undefined)
                    | some value =>
                        w.call (.gen g) gen (.next value) fun answer =>
                          .code g (forwarding ctx gen k answer)
          | _, _ => none
      | .forward ctx value gen k =>
          value.bind fun value =>
            w.yield_ (.gen g) ctx value fun sent => .code g (looping ctx gen k sent)

end World

/-! ## The machine -/

structure Config (T IT E X : Type*) where
  world : World T IT E X := {}
  control : Control T E X := .main none

/-- The main program makes calls and generators, and `tau` is a step of an executor. -/
inductive Label (IT E X : Type*) where
  | call (gen : GenRef) (call : Call IT E)
  | create (executor : GenRef → X)
  | tau

variable [GeneratorError E]

def step (prog : X → Action T IT E X) (c : Config T IT E X) (l : Label IT E X) :
    Option (Config T IT E X) :=
  match c.control, l with
  | .main _, .call gen call =>
      (c.world.call .main gen call fun answer => .main (some answer)).map
        fun (world, control) => { world, control }
  | .main _, .create executor => some { world := c.world.create executor, control := .main none }
  | .code g code, .tau =>
      (c.world.exec prog g code).map fun (world, control) => { world, control }
  | _, _ => none

end Generators

end Libasync.Generator.Contexts
