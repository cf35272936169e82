import Libasync.Reactor.Promises

/-! # Promises and sockets of one thread

The promise module and the sockets work on the same promises. User code makes calls on both, also
in the handlers of promises and events, so the machine takes the steps of either in any order in
which that code can make them, and in some more. The contexts of the promises that sockets make
stay with the sockets. -/

namespace Libasync.Program

open Promise hiding Config Label step Step
open Reactor (Backend World)
open Socket (Result SocketError)

/-! ## Data model -/

/-- What the promise of a call is for: `write` with the count of bytes at the end of its data, or a
`connect` that has to wait. -/
inductive Purpose where
  | sent (i target : ℕ)
  | connected (i : ℕ)
  deriving DecidableEq, Repr

structure Config (V E F : Type*) where
  control : Control F E := .idle
  reactor : Reactor.Config V E F := {}
  /-- the promises of `write` and `connect`; the code keeps no such record -/
  made : List (Ref × Purpose) := []

inductive Label (V E F : Type*) where
  | promise (l : Promise.Label V E F)
  | reactor (l : Reactor.Label)

namespace Config

variable {V E F : Type*}

def promises (c : Config V E F) : Promise.Config V E F := ⟨c.reactor.world.promises, c.control⟩

def withPromises (c : Config V E F) (p : Promise.Config V E F) : Config V E F :=
  { c with
    control := p.control
    reactor := { c.reactor with world := { c.reactor.world with promises := p.state } } }

/-- No context of a socket's promise is used. -/
def ownsNoContext (c : Config V E F) (l : Promise.Label V E F) : Bool :=
  c.made.all fun m => decide (l.context? ≠ some m.1)

@[simp] theorem withPromises_promises (c : Config V E F) (p : Promise.Config V E F) :
    (c.withPromises p).promises = p := rfl

end Config

/-! ## The machine -/

section Machine

variable {V E F : Type*} [Blank V]

/-- The promise that a call returns for what it has begun, and what it is for. -/
def makes (w : World V E F) : Reactor.Label → Option (Ref × Purpose)
  | .write i data answers =>
      match w.sockets[i]? with
      | none => none
      | some sock =>
          match (sock.toSocketData.write w.promises data answers).map Result.result with
          | some (.ok p) => some (p, .sent i (sock.bytesWritten + (sock.buffer ++ data).length))
          | _ => none
  | .connect i (.err .inProgress) =>
      if w.status? i = some .idle then some (w.promises.heap.length, .connected i) else none
  | _ => none

/-- While `promise_task` is in its own loops the sockets do nothing, and while a library function of
the sockets is under way the promise module does nothing. -/
def step [FnTrait F E] (backend : Backend) (c : Config V E F) :
    Label V E F → Option (Config V E F)
  | .promise l =>
      match c.reactor.stack with
      | .user _ :: _ =>
          if c.ownsNoContext l then (Promise.step c.promises l).map c.withPromises else none
      | _ => none
  | .reactor l =>
      match c.control with
      | .idle | .handler .. =>
          (Reactor.step backend c.reactor l).map fun reactor =>
            { c with reactor, made := c.made ++ (makes c.reactor.world l).toList }
      | _ => none

inductive Step [FnTrait F E] (backend : Backend) (c : Config V E F) :
    Label V E F → Config V E F → Prop where
  | promise (l p) (own : ∀ m ∈ c.made, l.context? ≠ some m.1)
      (stepped : Promise.step c.promises l = some p) :
      Step backend c (.promise l) (c.withPromises p)
  | reactor (l reactor) (user : c.control.User)
      (stepped : Reactor.step backend c.reactor l = some reactor) :
      Step backend c (.reactor l)
        { c with reactor, made := c.made ++ (makes c.reactor.world l).toList }

theorem stepped [FnTrait F E] {backend : Backend} {c c' : Config V E F} {l : Label V E F}
    (h : step backend c l = some c') : Step backend c l c' := by
  cases l with
  | promise l =>
      simp only [step] at h
      split at h
      · obtain ⟨hown, h⟩ := Option.ite_none_right_eq_some.mp h
        obtain ⟨p, hp, rfl⟩ := Option.map_eq_some_iff.mp h
        refine .promise l p (fun m hm => ?_) hp
        exact of_decide_eq_true (List.all_eq_true.mp hown m hm)
      · cases h
  | reactor l =>
      simp only [step] at h
      split at h
      · rename_i hcontrol
        obtain ⟨reactor, hr, rfl⟩ := Option.map_eq_some_iff.mp h
        exact .reactor l reactor (by rw [hcontrol]; trivial) hr
      · rename_i i p j outer f hcontrol
        obtain ⟨reactor, hr, rfl⟩ := Option.map_eq_some_iff.mp h
        exact .reactor l reactor (by rw [hcontrol]; trivial) hr
      · cases h

end Machine

end Libasync.Program
