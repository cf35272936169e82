import Libasync.Foundation.Run
import Mathlib.Data.Finmap

/-! # The event mix-in

All copies of an object share one store of handlers. `trigger` goes through a copy of the store,
and the handlers that it calls may use the object again, so a configuration has a stack. -/

namespace Libasync.EventMixin

/-! ## Data model -/

abbrev EventHandlerStore (H : Type*) := Finmap fun _ : ℕ => H

abbrev CompleteHandlerStore (H : Type*) := Finmap fun _ : String => EventHandlerStore H

structure EventMixinData (H : Type*) where
  store : CompleteHandlerStore H := ∅
  counter : ℕ := 0

/-! ## Operations -/

/-- The handler that a store has for an event under a handle. -/
def CompleteHandlerStore.handler? {H : Type*} (store : CompleteHandlerStore H) (event : String)
    (handle : ℕ) : Option H :=
  (store.lookup event).bind fun handlers => handlers.lookup handle

/-- Erase a handler from a store, if it is there. -/
def CompleteHandlerStore.eraseHandler {H : Type*} (store : CompleteHandlerStore H)
    (event : String) (handle : ℕ) : CompleteHandlerStore H × Bool :=
  match store.lookup event with
  | none => (store, false)
  | some handlers =>
      match handlers.lookup handle with
      | none => (store, false)
      | some _ => (store.insert event (handlers.erase handle), true)

namespace EventMixinData

variable {H : Type*}

/-- `EventMixin::on` -/
def on (data : EventMixinData H) (event : String) (handler : H) : EventMixinData H × ℕ :=
  let handle := data.counter
  let handlers := (data.store.lookup event).getD ∅
  ({ data with
      counter := data.counter + 1
      store := data.store.insert event (handlers.insert handle handler) }, handle)

/-- `EventMixin::off`. The store from which the handler is erased is a copy. -/
def off (data : EventMixinData H) (event : String) (handle : ℕ) : EventMixinData H × Bool :=
  let store := data.store
  let (_, result) := CompleteHandlerStore.eraseHandler store event handle
  (data, result)

/-- The calls that `EventMixin::trigger` makes, when the store of the event is gone through in this
order of its handles. -/
def calls (data : EventMixinData H) (event : String) (order : List ℕ) :
    Option (List (ℕ × H)) :=
  match data.store.lookup event with
  | none => if order = [] then some [] else none
  | some handlers =>
      if order.Nodup ∧ order.toFinset = handlers.keys then
        some (order.filterMap fun handle => (handlers.lookup handle).map fun h => (handle, h))
      else none

end EventMixinData

/-! ## The machine -/

/-- What an observer of a run sees. Calls of `trigger` are numbered. -/
inductive Happening (H A : Type*) where
  | on (event : String) (handle : ℕ) (handler : H)
  | off (event : String) (handle : ℕ) (result : Bool)
  | trigger (number : ℕ) (event : String) (calls : List (ℕ × H)) (arg : A)
  | call (number handle : ℕ) (handler : H) (arg : A)
  | finished (number : ℕ)

/-- User code (the main program or a handler), or a call of `trigger` with the handlers that it has
still to call. -/
inductive Frame (H A : Type*) where
  | user
  | calling (number : ℕ) (calls : List (ℕ × H)) (arg : A)

/-- A handler whose parameter has another type than the argument throws `bad_any_cast`. -/
inductive Label (H A : Type*) where
  | on (event : String) (handler : H)
  | off (event : String) (handle : ℕ)
  | trigger (event : String) (arg : A) (order : List ℕ)
  | return_
  | throw_
  | tau

structure Config (H A : Type*) where
  data : EventMixinData H := {}
  numTriggers : ℕ := 0
  log : List (Happening H A) := []
  stack : List (Frame H A) := [.user]

section Machine

variable {H A : Type*}

/-- An exception is caught by the user code that is nearest on the stack. -/
def unwind : List (Frame H A) → List (Frame H A)
  | [] => []
  | .user :: rest => .user :: rest
  | .calling .. :: rest => unwind rest

def step (c : Config H A) (l : Label H A) : Option (Config H A) :=
  match c.stack, l with
  | .user :: _, .on event handler =>
      let (data, handle) := c.data.on event handler
      some { c with data, log := c.log ++ [.on event handle handler] }
  | .user :: _, .off event handle =>
      let (data, result) := c.data.off event handle
      some { c with data, log := c.log ++ [.off event handle result] }
  | .user :: _, .trigger event arg order =>
      (c.data.calls event order).map fun calls =>
        { c with
          numTriggers := c.numTriggers + 1
          log := c.log ++ [.trigger c.numTriggers event calls arg]
          stack := .calling c.numTriggers calls arg :: c.stack }
  | .user :: frame :: rest, .return_ => some { c with stack := frame :: rest }
  | .user :: frame :: rest, .throw_ => some { c with stack := unwind (frame :: rest) }
  | .calling number ((handle, handler) :: calls) arg :: rest, .tau =>
      some
        { c with
          log := c.log ++ [.call number handle handler arg]
          stack := .user :: .calling number calls arg :: rest }
  | .calling number [] _ :: rest, .tau =>
      some { c with log := c.log ++ [.finished number], stack := rest }
  | _, _ => none

inductive Step (c : Config H A) : Label H A → Config H A → Prop where
  | on (event handler rest) (stack : c.stack = .user :: rest) :
      Step c (.on event handler)
        { c with
          data := (c.data.on event handler).1
          log := c.log ++ [.on event c.data.counter handler] }
  | off (event handle rest) (stack : c.stack = .user :: rest) :
      Step c (.off event handle)
        { c with
          log := c.log ++ [.off event handle (c.data.off event handle).2] }
  | trigger (event arg order calls rest) (stack : c.stack = .user :: rest)
      (calls_eq : c.data.calls event order = some calls) :
      Step c (.trigger event arg order)
        { c with
          numTriggers := c.numTriggers + 1
          log := c.log ++ [.trigger c.numTriggers event calls arg]
          stack := .calling c.numTriggers calls arg :: c.stack }
  | return_ (frame rest) (stack : c.stack = .user :: frame :: rest) :
      Step c .return_ { c with stack := frame :: rest }
  | throw_ (frame rest) (stack : c.stack = .user :: frame :: rest) :
      Step c .throw_ { c with stack := unwind (frame :: rest) }
  | call (number handle handler calls arg rest)
      (stack : c.stack = .calling number ((handle, handler) :: calls) arg :: rest) :
      Step c .tau
        { c with
          log := c.log ++ [.call number handle handler arg]
          stack := .user :: .calling number calls arg :: rest }
  | finish (number arg rest) (stack : c.stack = .calling number [] arg :: rest) :
      Step c .tau { c with log := c.log ++ [.finished number], stack := rest }

theorem stepped {c c' : Config H A} {l : Label H A} (h : step c l = some c') : Step c l c' := by
  simp only [step] at h
  split at h
  · rename_i rest event handler hstack
    obtain rfl := Option.some.inj h
    exact .on event handler rest hstack
  · rename_i rest event handle hstack
    obtain rfl := Option.some.inj h
    exact .off event handle rest hstack
  · rename_i rest event arg order hstack
    obtain ⟨calls, hcalls, rfl⟩ := Option.map_eq_some_iff.mp h
    exact .trigger event arg order calls rest hstack hcalls
  · rename_i frame rest hstack
    obtain rfl := Option.some.inj h
    exact .return_ frame rest hstack
  · rename_i frame rest hstack
    obtain rfl := Option.some.inj h
    exact .throw_ frame rest hstack
  · rename_i number handle handler calls arg rest hstack
    obtain rfl := Option.some.inj h
    exact .call number handle handler calls arg rest hstack
  · rename_i number arg rest hstack
    obtain rfl := Option.some.inj h
    exact .finish number arg rest hstack
  · cases h

end Machine

end Libasync.EventMixin
