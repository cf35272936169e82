import Libasync.Foundation.Run
import Libasync.Generator.Model
import Mathlib.Logic.Function.Basic

/-! # Generators that run each other

Control is in the main program or in the code of one generator. Whoever has resumed a generator
waits until it yields or ends, so a configuration has a stack. -/

namespace Libasync.Generator.Machine

open Promise

/-! ## Code -/

/-- All copies of a `Generator` share the data with this number. -/
abbrev GenRef := ℕ

/-- A call that can resume a generator. -/
inductive Call (IT E : Type*) where
  | next (value : IT)
  | throw_ (error : Exn E)
  deriving DecidableEq

/-- What `next` and `_throw` return; the value of `out_val` may never have been set. -/
abbrev Answer (T E : Type*) := Except (Exn E) (Option T)

/-- What the user code of an executor does next, and the state it goes on in. An exception that a
call throws is an answer like any other, so a `catch` around it is code like any other. -/
inductive Action (T IT E C : Type*) where
  | ret (result : T)
  | raise (error : Exn E)
  | yield (value : T) (k : Except (Exn E) IT → C)
  | yieldFrom (gen : GenRef) (k : Except (Exn E) Unit → C)
  | call (gen : GenRef) (call : Call IT E) (k : Answer T E → C)
  | status (gen : GenRef) (k : GenStatus → C)
  | create (executor : C) (k : GenRef → C)

/-- What runs on the stack of a generator: user code, or the loop of `yield_from` that user code has
called, at its test or with a value to yield. -/
inductive Code (T E C : Type*) where
  | user (state : C)
  | yieldFrom (gen : GenRef) (k : Except (Exn E) Unit → C)
  | forward (value : Option T) (gen : GenRef) (k : Except (Exn E) Unit → C)

/-- The loop of `yield_from` when the call of `next` is back. -/
def forwarding {T E C : Type*} (gen : GenRef) (k : Except (Exn E) Unit → C) :
    Answer T E → Code T E C
  | .ok value => .forward value gen k
  | .error error => .user (k (.error error))

/-- The loop of `yield_from` when the `yield` is back. -/
def looping {T IT E C : Type*} (gen : GenRef) (k : Except (Exn E) Unit → C) :
    Except (Exn E) IT → Code T E C
  | .ok _ => .yieldFrom gen k
  | .error error => .user (k (.error error))

/-- What happens to the code that has control: it goes on, it has made a call that gives control to
a generator, it has given control back, or it has followed a null pointer. -/
inductive Outcome (T IT E C : Type*) where
  | goes (code : Code T E C)
  | enters (gen : GenRef) (call : Call IT E) (code : Code T E C) (k : Answer T E → Code T E C)
  | returns (answer : Answer T E)
  | crash

/-! ## The generators -/

abbrev Data (T IT E C : Type*) := GenData T IT E (Code T E C)

structure World (T IT E C : Type*) where
  gens : GenRef → Option (Data T IT E C) := fun _ => none
  numGens : ℕ := 0

section Generators

variable {T IT E C : Type*}

/-- The end of `run_generator`, and of the call that has run it. -/
def answer (data : Data T IT E C) : Answer T E :=
  match data.status, data.error with
  | .done, some error => .error error
  | _, _ => .ok data.outVal

namespace World

def set (w : World T IT E C) (g : GenRef) (data : Data T IT E C) : World T IT E C :=
  { w with gens := Function.update w.gens g (some data) }

/-- `Generator(executor)` -/
def create (w : World T IT E C) (executor : C) : World T IT E C :=
  { w.set w.numGens { executor := .user executor } with numGens := w.numGens + 1 }

/-- The generator gives control back. -/
def back (w : World T IT E C) (g : GenRef) (data : Data T IT E C) :
    World T IT E C × Outcome T IT E C :=
  (w.set g data, .returns (answer data))

end World

variable [GeneratorError E]

def Call.send (data : Data T IT E C) : Call IT E → Sent T IT E (Code T E C)
  | .next value => data.next value
  | .throw_ error => data.throw_ error

namespace World

/-- `next` or `_throw`. -/
def call (w : World T IT E C) (gen : GenRef) (call : Call IT E) (k : Answer T E → Code T E C) :
    Option (World T IT E C × Outcome T IT E C) :=
  match w.gens gen with
  | none => none
  | some data =>
      match call.send data with
      | .switched data =>
          data.enter.map fun (data, code) => (w.set gen data, .enters gen call code k)
      | .returned outVal => some (w, .goes (k (.ok outVal)))
      | .threw error => some (w, .goes (k (.error error)))

/-- `yield_impl` -/
def yield_ (w : World T IT E C) (g : GenRef) (data : Data T IT E C) (value : T)
    (resume : Except (Exn E) IT → Code T E C) : World T IT E C × Outcome T IT E C :=
  match data.yield_ value resume with
  | .ok data => w.back g data
  | .error error => (w, .goes (resume (.error error)))

/-- The code of generator `g` does one thing. -/
def exec (prog : C → Action T IT E C) (w : World T IT E C) (g : GenRef) (code : Code T E C) :
    Option (World T IT E C × Outcome T IT E C) :=
  match w.gens g with
  | none => none
  | some data =>
      match code with
      | .user state =>
          match prog state with
          | .ret result => some (w.back g (data.finish result))
          | .raise error => some (w.back g (data.fail error))
          | .yield value k => some (w.yield_ g data value fun sent => .user (k sent))
          | .yieldFrom gen k => some (w, .goes (.yieldFrom gen k))
          | .call gen call k => w.call gen call fun answer => .user (k answer)
          | .status gen k =>
              (w.gens gen).map fun called => (w, .goes (.user (k called.status)))
          | .create executor k => some (w.create executor, .goes (.user (k w.numGens)))
      | .yieldFrom gen k =>
          match w.gens gen with
          | none => none
          | some inner =>
              if inner.status = .done then some (w, .goes (.user (k (.ok ()))))
              else
                match data.inVal with
                | none => some (w, .crash)
                | some value => w.call gen (.next value) (forwarding gen k)
      | .forward value gen k =>
          value.map fun value => w.yield_ g data value (looping gen k)

end World

/-! ## The machine -/

/-- Who waits for a generator. -/
inductive Caller (T E C : Type*) where
  | main
  | gen (g : GenRef) (k : Answer T E → Code T E C)

inductive Control (T E C : Type*) where
  | main (answer : Option (Answer T E))
  | code (g : GenRef) (code : Code T E C)
  | crashed

/-- `resumed` are the calls that have given control to a generator. The code keeps no such
record. -/
structure Config (T IT E C : Type*) where
  world : World T IT E C := {}
  control : Control T E C := .main none
  stack : List (Caller T E C) := []
  resumed : List (GenRef × Call IT E) := []

/-- The main program makes calls and generators, and `tau` is a step of a generator. -/
inductive Label (IT E C : Type*) where
  | call (gen : GenRef) (call : Call IT E)
  | create (executor : C)
  | tau

omit [GeneratorError E] in
/-- The generator `g` is entered by `caller`. -/
def Config.enter (c : Config T IT E C) (caller : Caller T E C) (w : World T IT E C) (g : GenRef)
    (call : Call IT E) (code : Code T E C) : Config T IT E C where
  world := w
  control := .code g code
  stack := caller :: c.stack
  resumed := c.resumed ++ [(g, call)]

omit [GeneratorError E] in
def Config.after (c : Config T IT E C) (g : GenRef) :
    World T IT E C × Outcome T IT E C → Option (Config T IT E C)
  | (w, .goes code) => some { c with world := w, control := .code g code }
  | (w, .enters gen call code k) => some (c.enter (.gen g k) w gen call code)
  | (w, .returns answer) =>
      match c.stack with
      | .main :: rest => some { c with world := w, control := .main (some answer), stack := rest }
      | .gen h k :: rest =>
          some { c with world := w, control := .code h (k answer), stack := rest }
      | [] => none
  | (w, .crash) => some { c with world := w, control := .crashed }

/-- A call of the main program. -/
def Config.mainCall (c : Config T IT E C) (gen : GenRef) (call : Call IT E) :
    Option (Config T IT E C) :=
  match c.world.gens gen with
  | none => none
  | some data =>
      match call.send data with
      | .switched data =>
          data.enter.map fun (data, code) =>
            c.enter .main (c.world.set gen data) gen call code
      | .returned outVal => some { c with control := .main (some (.ok outVal)) }
      | .threw error => some { c with control := .main (some (.error error)) }

def step (prog : C → Action T IT E C) (c : Config T IT E C) (l : Label IT E C) :
    Option (Config T IT E C) :=
  match c.control, l with
  | .main _, .call gen call => c.mainCall gen call
  | .main _, .create executor =>
      some { c with world := c.world.create executor, control := .main none }
  | .code g code, .tau => (c.world.exec prog g code).bind (c.after g)
  | _, _ => none

end Generators

end Libasync.Generator.Machine
