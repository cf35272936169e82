import Libasync.EventMixin.Refinement
import Libasync.Foundation.Projection

/-! # Arguments of events

`trigger` passes its argument on as a `boost::any`, and `on` wraps a handler in a cast to the type
of its parameter. A cast to another type throws `bad_any_cast` out of `trigger`, so the handlers
that come after it are not called. -/

namespace Libasync.EventMixin.Arguments

open Automaton Foundation

variable {T B : Type*} {Val : T → Type*}

/-! ## Casts -/

/-- `boost::any`: nothing, or a value of one of the types. -/
abbrev BoostAny (Val : T → Type*) := Option (Sigma Val)

/-- The parameter that a handler takes. Types of parameters are without references. -/
inductive Param (T : Type*) where
  | none_
  | any
  | typed (ty : T)
  deriving DecidableEq, Repr

inductive CastType (T : Type*) where
  | any
  | typed (ty : T)
  deriving DecidableEq, Repr

/-- `EventArgCastTrait` -/
def Param.castType : Param T → CastType T
  | .none_ | .any => .any
  | .typed ty => .typed ty

/-- What a cast has made of an `any`. -/
inductive Arg (Val : T → Type*) where
  | any (value : BoostAny Val)
  | value (value : Sigma Val)

/-- `cast_any`; it returns nothing when `any_cast` throws. -/
def castAny [DecidableEq T] : CastType T → BoostAny Val → Option (Arg Val)
  | .any, value => some (.any value)
  | .typed _, none => none
  | .typed ty, some value => if value.1 = ty then some (.value value) else none

/-- `CallWithOptArg`: what the handler is called with. -/
def callWithOptArg : Param T → Arg Val → Option (Arg Val)
  | .none_, _ => none
  | .any, arg | .typed _, arg => some arg

structure Handler (T B : Type*) where
  param : Param T
  body : B
  deriving DecidableEq, Repr

/-- The closure that `on` puts into the store. -/
def Handler.call [DecidableEq T] (handler : Handler T B) (result : BoostAny Val) :
    Option (Option (Arg Val)) :=
  (castAny handler.param.castType result).map (callWithOptArg handler.param)

/-! ## The machine -/

/-- A body of a handler that was called: by which call of `trigger`, and with what. -/
structure BodyCall (B : Type*) (Val : T → Type*) where
  number : ℕ
  handle : ℕ
  body : B
  arg : Option (Arg Val)

structure Config (T B : Type*) (Val : T → Type*) where
  mixin : EventMixin.Config (Handler T B) (BoostAny Val) := {}
  bodies : List (BodyCall B Val) := []

variable [DecidableEq T]

/-- `trigger(event)` is `trigger` with an empty `any`. -/
def step (c : Config T B Val) (l : Label (Handler T B) (BoostAny Val)) :
    Option (Config T B Val) :=
  match c.mixin.stack, l with
  | .calling number ((handle, handler) :: _) arg :: _, .tau =>
      (EventMixin.step c.mixin .tau).bind fun called =>
        match handler.call arg with
        | some passed =>
            some { mixin := called, bodies := c.bodies ++ [⟨number, handle, handler.body, passed⟩] }
        | none => (EventMixin.step called .throw_).map fun mixin => { c with mixin }
  | _, l => (EventMixin.step c.mixin l).map fun mixin => { c with mixin }

/-- What a call of a handler has run. -/
def bodyOf (call : (ℕ × Handler T B) × BoostAny Val) : Option (ℕ × B × Option (Arg Val)) :=
  (call.1.2.call call.2).map fun passed => (call.1.1, call.1.2.body, passed)

/-- The bodies that a call of `trigger` has to run: those up to the first failing cast. -/
def runs (arg : BoostAny Val) : List (ℕ × Handler T B) → List (ℕ × B × Option (Arg Val))
  | [] => []
  | call :: calls =>
      match bodyOf (call, arg) with
      | none => []
      | some body => body :: runs arg calls

/-- The bodies that a call of `trigger` has run. -/
def ranBy (number : ℕ) (bodies : List (BodyCall B Val)) : List (ℕ × B × Option (Arg Val)) :=
  bodies.filterMap fun b => if b.number = number then some (b.handle, b.body, b.arg) else none

inductive Step (c : Config T B Val) :
    Label (Handler T B) (BoostAny Val) → Config T B Val → Prop where
  /-- a step without a cast -/
  | same (l mixin) (stepped : EventMixin.Step c.mixin l mixin)
      (calls : ∀ number, calledBy number mixin.log = calledBy number c.mixin.log) :
      Step c l { c with mixin }
  | ran (number handle handler calls arg rest passed)
      (stack : c.mixin.stack = .calling number ((handle, handler) :: calls) arg :: rest)
      (call : handler.call arg = some passed) :
      Step c .tau
        { mixin := { c.mixin with
            log := c.mixin.log ++ [.call number handle handler arg]
            stack := .user :: .calling number calls arg :: rest }
          bodies := c.bodies ++ [⟨number, handle, handler.body, passed⟩] }
  | mismatch (number handle handler calls arg rest)
      (stack : c.mixin.stack = .calling number ((handle, handler) :: calls) arg :: rest)
      (call : handler.call arg = none) :
      Step c .tau
        { c with mixin := { c.mixin with
            log := c.mixin.log ++ [.call number handle handler arg]
            stack := unwind rest } }

/-- No step but the call of a handler adds to the calls. -/
theorem calledBy_of_step {H A : Type*} {m m' : EventMixin.Config H A} {l : Label H A}
    (h : EventMixin.Step m l m')
    (hnot : ∀ number call calls arg rest, m.stack = .calling number (call :: calls) arg :: rest →
      l ≠ .tau) (number : ℕ) : calledBy number m'.log = calledBy number m.log := by
  cases h with
  | on | off | trigger | finish => exact calledBy_concat number m.log _
  | return_ | throw_ => rfl
  | call number handle handler calls arg rest stack =>
      exact absurd rfl (hnot number (handle, handler) calls arg rest stack)

theorem stepped {c c' : Config T B Val} {l : Label (Handler T B) (BoostAny Val)}
    (h : step c l = some c') : Step c l c' := by
  simp only [step] at h
  split at h
  · rename_i number handle handler calls arg rest hstack
    have hcalled : EventMixin.step c.mixin .tau = some { c.mixin with
        log := c.mixin.log ++ [.call number handle handler arg]
        stack := .user :: .calling number calls arg :: rest } := by
      simp only [EventMixin.step, hstack]
    rw [hcalled, Option.bind_some] at h
    cases hcall : handler.call arg with
    | some passed =>
        rw [hcall] at h
        obtain rfl := Option.some.inj h
        exact .ran number handle handler calls arg rest passed hstack hcall
    | none =>
        rw [hcall] at h
        obtain rfl := Option.some.inj h
        exact .mismatch number handle handler calls arg rest hstack hcall
  · rename_i hnot
    obtain ⟨mixin, hstep, rfl⟩ := Option.map_eq_some_iff.mp h
    have hmixin := EventMixin.stepped hstep
    refine .same _ mixin hmixin (calledBy_of_step hmixin ?_)
    rintro number ⟨handle, handler⟩ calls arg rest hstack rfl
    exact hnot number handle handler calls arg rest hstack rfl

/-! ## The mix-in below it -/

/-- The steps of the mix-in: a failing cast is a handler that throws. -/
theorem Step.mixin_run {c c' : Config T B Val} {l : Label (Handler T B) (BoostAny Val)}
    (h : step c l = some c') : ∃ ls, run EventMixin.step c.mixin ls = some c'.mixin := by
  simp only [step] at h
  split at h
  · rename_i number handle handler calls arg rest hstack
    obtain ⟨called, hcalled, h⟩ := Option.bind_eq_some_iff.mp h
    cases hcall : handler.call arg with
    | some passed =>
        rw [hcall] at h
        obtain rfl := Option.some.inj h
        exact ⟨[.tau], by rw [run_cons, hcalled]; rfl⟩
    | none =>
        rw [hcall] at h
        obtain ⟨mixin, hthrow, rfl⟩ := Option.map_eq_some_iff.mp h
        exact ⟨[.tau, .throw_], by rw [run_cons, hcalled, Option.bind_some, run_cons, hthrow]; rfl⟩
  · obtain ⟨mixin, hstep, rfl⟩ := Option.map_eq_some_iff.mp h
    exact ⟨[_], by rw [run_cons, hstep]; rfl⟩

/-- What every step of the mix-in keeps is kept. -/
theorem mixin_invariant {I : EventMixin.Config (Handler T B) (BoostAny Val) → Prop}
    (hI : ∀ m l m', I m → EventMixin.Step m l m' → I m') {c c' : Config T B Val}
    {l : Label (Handler T B) (BoostAny Val)} (hc : I c.mixin) (h : step c l = some c') :
    I c'.mixin := by
  obtain ⟨ls, hrun⟩ := Step.mixin_run h
  exact run_invariant_of_step (fun m l m' hm hl => hI m l m' hm (EventMixin.stepped hl)) hc hrun

/-! ## What was offered -/

/-- `trigger` goes through the handlers that were ever registered for its event. -/
def Offered {H A : Type*} (before : List (Happening H A)) : Happening H A → Prop
  | .trigger _ event calls _ =>
      ∀ handle handler, (handle, handler) ∈ calls ↔ .on event handle handler ∈ before
  | _ => True

theorem offered_step {H A : Type*} {m m' : EventMixin.Config H A} {l : Label H A}
    (hstored : m.Stored) (h : AtEach Offered m.log) (hstep : EventMixin.Step m l m') :
    AtEach Offered m'.log := by
  cases hstep with
  | on | off | call | finish => exact atEach_concat.mpr ⟨h, trivial⟩
  | return_ | throw_ => exact h
  | trigger event arg order calls rest stack calls_eq =>
      refine atEach_concat.mpr ⟨h, fun handle handler => ?_⟩
      rw [(mem_calls calls_eq).2, hstored.store]

/-! ## What has run -/

theorem runs_prefix (arg : BoostAny Val) (front rest : List (ℕ × Handler T B)) :
    runs arg front <+: runs arg (front ++ rest) := by
  induction front with
  | nil => exact List.nil_prefix
  | cons call front ih =>
      simp only [List.cons_append, runs]
      cases bodyOf (call, arg) with
      | none => exact List.prefix_rfl
      | some body => exact List.prefix_cons_inj body |>.mpr ih

/-- Behind a failing cast there is nothing to run. -/
theorem runs_append_of_failed {arg : BoostAny Val} {front : List (ℕ × Handler T B)}
    {call : ℕ × Handler T B} (hmem : call ∈ front) (hfails : bodyOf (call, arg) = none)
    (rest : List (ℕ × Handler T B)) : runs arg (front ++ rest) = runs arg front := by
  induction front with
  | nil => cases hmem
  | cons call' front ih =>
      simp only [List.cons_append, runs]
      cases hbody : bodyOf (call', arg) with
      | none => rfl
      | some body =>
          rcases List.mem_cons.mp hmem with rfl | hmem
          · rw [hfails] at hbody
            cases hbody
          · rw [ih hmem]

/-- Only the cast of the last call can have failed. -/
theorem runs_eq_filterMap {arg : BoostAny Val} {calls : List (ℕ × Handler T B)}
    (h : ∀ call ∈ calls.dropLast, (bodyOf (call, arg)).isSome) :
    runs arg calls = (calls.map (·, arg)).filterMap bodyOf := by
  induction calls with
  | nil => rfl
  | cons call calls ih =>
      rw [runs, List.map_cons, List.filterMap_cons]
      cases calls with
      | nil => cases bodyOf (call, arg) <;> rfl
      | cons next calls =>
          obtain ⟨body, hbody⟩ := Option.isSome_iff_exists.mp (h call (by simp))
          rw [hbody, ih fun call' hmem => h call' (List.mem_cons_of_mem call hmem)]

/-- The bodies are those of the calls that were made; only the last call of a `trigger` can have
failed, and it was the last one because nothing is left of that `trigger`. -/
structure Config.Ran (c : Config T B Val) : Prop where
  bodies : ∀ number, ranBy number c.bodies = (calledBy number c.mixin.log).filterMap bodyOf
  front : ∀ number, ∀ call ∈ (calledBy number c.mixin.log).dropLast, (bodyOf call).isSome
  frames : ∀ number calls arg, .calling number calls arg ∈ c.mixin.stack →
    ∀ call ∈ calledBy number c.mixin.log, (bodyOf call).isSome
  finished : ∀ number, .finished number ∈ c.mixin.log →
    ∀ call ∈ calledBy number c.mixin.log, (bodyOf call).isSome

theorem Config.Ran.initial : Config.Ran ({} : Config T B Val) :=
  ⟨fun _ => rfl, by simp [calledBy], by simp, by simp⟩

/-- A call of `trigger` that comes next has called nothing yet. -/
theorem calledBy_fresh {H A : Type*} {m : EventMixin.Config H A} (h : m.Calling) :
    calledBy m.numTriggers m.log = [] := by
  apply List.filterMap_eq_nil_iff.mpr
  intro entry hmem
  cases entry with
  | call number handle handler arg =>
      have hlt := h.number_lt _ hmem number rfl
      simp [Nat.ne_of_lt hlt]
  | _ => rfl

theorem Config.Ran.same {c : Config T B Val} {l : Label (Handler T B) (BoostAny Val)}
    {mixin : EventMixin.Config (Handler T B) (BoostAny Val)} (h : c.Ran)
    (hcalling : c.mixin.Calling) (hstep : EventMixin.Step c.mixin l mixin)
    (hcalls : ∀ number, calledBy number mixin.log = calledBy number c.mixin.log) :
    Config.Ran { c with mixin } := by
  refine ⟨fun number => ?_, fun number => ?_, fun number => ?_, fun number => ?_⟩
  · rw [hcalls]
    exact h.bodies number
  · rw [hcalls]
    exact h.front number
  · intro calls arg hframe
    rw [hcalls]
    cases hstep with
    | on | off => exact h.frames number calls arg hframe
    | trigger event arg' order calls' rest stack calls_eq =>
        rcases List.mem_cons.mp hframe with hnew | hold
        · obtain ⟨rfl, -, -⟩ := Frame.calling.inj hnew
          simp [calledBy_fresh hcalling]
        · exact h.frames number calls arg hold
    | return_ frame rest stack =>
        exact h.frames number calls arg (by rw [stack]; exact List.mem_cons_of_mem _ hframe)
    | throw_ frame rest stack =>
        have hmem := (unwind_suffix (frame :: rest)).subset hframe
        exact h.frames number calls arg (by rw [stack]; exact List.mem_cons_of_mem _ hmem)
    | call k handle handler calls' arg' rest stack =>
        have hlength := congrArg List.length (hcalls k)
        simp [calledBy_concat] at hlength
    | finish k arg' rest stack =>
        exact h.frames number calls arg (by rw [stack]; exact List.mem_cons_of_mem _ hframe)
  · intro hfinished
    rw [hcalls]
    cases hstep with
    | on | off | trigger | call => exact h.finished number (by simpa using hfinished)
    | return_ | throw_ => exact h.finished number hfinished
    | finish k arg rest stack =>
        rcases List.mem_append.mp hfinished with hold | hnew
        · exact h.finished number hold
        · obtain rfl : number = k := by simpa using hnew
          exact h.frames number [] arg (by simp [stack])

/-- A handler is called, and its cast may fail. -/
theorem Config.Ran.call {c : Config T B Val} {number handle : ℕ} {handler : Handler T B}
    {calls : List (ℕ × Handler T B)} {arg : BoostAny Val}
    {rest stack : List (Frame (Handler T B) (BoostAny Val))} {bodies : List (BodyCall B Val)}
    (h : c.Ran) (hcalling : c.mixin.Calling)
    (hstack : c.mixin.stack = .calling number ((handle, handler) :: calls) arg :: rest)
    (hbodies : ∀ k, ranBy k bodies = ranBy k c.bodies ++
      if number = k then (bodyOf ((handle, handler), arg)).toList else [])
    (hframes : ∀ k calls' arg', .calling k calls' arg' ∈ stack →
      .calling k calls' arg' ∈ rest ∨ k = number ∧ (handler.call arg).isSome) :
    Config.Ran
      { mixin := { c.mixin with
          log := c.mixin.log ++ [.call number handle handler arg]
          stack := stack }
        bodies := bodies } := by
  have hcalled (k : ℕ) : calledBy k (c.mixin.log ++ [.call number handle handler arg]) =
      calledBy k c.mixin.log ++ if number = k then [((handle, handler), arg)] else [] := by
    rw [calledBy_concat]
    by_cases hk : number = k <;> simp [hk]
  have hold := h.frames number _ arg (by rw [hstack]; exact List.mem_cons_self ..)
  have hdistinct := hcalling.distinct
  rw [hstack, List.filterMap_cons_some (by rfl : Frame.number? _ = some number),
    List.nodup_cons] at hdistinct
  obtain ⟨event, all, -, -, hnot⟩ :=
    hcalling.frames number _ arg (by rw [hstack]; exact List.mem_cons_self ..)
  refine ⟨fun k => ?_, fun k => ?_, fun k => ?_, fun k => ?_⟩
  · rw [hcalled, hbodies, h.bodies, List.filterMap_append]
    by_cases hk : number = k
    · simp [hk, List.filterMap_cons]
      cases bodyOf ((handle, handler), arg) <;> rfl
    · simp [hk]
  · rw [hcalled]
    by_cases hk : number = k
    · subst hk
      simpa using hold
    · simpa [hk] using h.front k
  · intro calls' arg' hframe call hcall
    rw [hcalled] at hcall
    rcases hframes k calls' arg' hframe with hrest | ⟨rfl, hsome⟩
    · have hk : number ≠ k := by
        rintro rfl
        exact hdistinct.1 (List.mem_filterMap.mpr ⟨_, hrest, rfl⟩)
      rw [if_neg hk, List.append_nil] at hcall
      exact h.frames k calls' arg' (by rw [hstack]; exact List.mem_cons_of_mem _ hrest) call hcall
    · rw [if_pos rfl] at hcall
      rcases List.mem_append.mp hcall with hbefore | hlast
      · exact hold call hbefore
      · obtain rfl := List.mem_singleton.mp hlast
        simpa [bodyOf] using hsome
  · intro hfinished call hcall
    have hfinished' : .finished k ∈ c.mixin.log := by simpa using hfinished
    have hk : number ≠ k := by
      rintro rfl
      exact hnot hfinished'
    rw [hcalled, if_neg hk, List.append_nil] at hcall
    exact h.finished k hfinished' call hcall

theorem Config.Ran.step {c c' : Config T B Val} {l : Label (Handler T B) (BoostAny Val)}
    (h : c.Ran) (hcalling : c.mixin.Calling) (hstep : Step c l c') : c'.Ran := by
  cases hstep with
  | same l mixin stepped calls => exact h.same hcalling stepped calls
  | ran number handle handler calls arg rest passed stack call =>
      refine h.call hcalling stack (fun k => ?_) ?_
      · by_cases hk : number = k <;> simp [ranBy, bodyOf, call, hk]
      · intro k calls' arg' hframe
        simp only [List.mem_cons, reduceCtorEq, false_or, Frame.calling.injEq] at hframe
        rcases hframe with ⟨rfl, -, -⟩ | hrest
        · exact .inr ⟨rfl, by rw [call]; rfl⟩
        · exact .inl hrest
  | mismatch number handle handler calls arg rest stack call =>
      refine h.call hcalling stack (fun k => ?_) fun k calls' arg' hframe => ?_
      · simp [bodyOf, call]
      · exact .inl ((unwind_suffix rest).subset hframe)

/-! ## What a trigger runs -/

/-- What a call of `trigger` has done, whose event had these entries before it: the bodies of the
handlers were run in turn, with what the casts have made of the argument. If it has returned, every
handler that was ever registered for the event was run; a cast that fails ends it, when the
handlers before that one have been run. -/
structure Delivers (before : List (Happening (Handler T B) (BoostAny Val))) (c : Config T B Val)
    (number : ℕ) (event : String) (all : List (ℕ × Handler T B)) (arg : BoostAny Val) : Prop where
  offered : ∀ handle handler, (handle, handler) ∈ all ↔ .on event handle handler ∈ before
  front : ranBy number c.bodies <+: runs arg all
  finished : .finished number ∈ c.mixin.log → ranBy number c.bodies = runs arg all ∧
    ∀ handle handler, .on event handle handler ∈ before →
      ∃ passed, handler.call arg = some passed ∧
        (handle, handler.body, passed) ∈ ranBy number c.bodies
  failed : ∀ handle handler, .call number handle handler arg ∈ c.mixin.log →
    handler.call arg = none → ranBy number c.bodies = runs arg all ∧
      .finished number ∉ c.mixin.log ∧ ∀ calls, .calling number calls arg ∉ c.mixin.stack

theorem mem_calledBy {H A : Type*} {log : List (Happening H A)} {number handle : ℕ} {handler : H}
    {arg : A} :
    ((handle, handler), arg) ∈ calledBy number log ↔ .call number handle handler arg ∈ log := by
  simp only [calledBy, List.mem_filterMap]
  constructor
  · rintro ⟨h, hmem, heq⟩
    cases h with
    | call k n f a =>
        by_cases hk : k = number
        · simp only [hk, if_true, Option.some.injEq, Prod.mk.injEq] at heq
          obtain ⟨⟨rfl, rfl⟩, rfl⟩ := heq
          exact hk ▸ hmem
        · simp [hk] at heq
    | _ => cases heq
  · intro hmem
    exact ⟨_, hmem, by simp⟩

/-- In every run `trigger` runs the bodies of the handlers of its event up to the first one whose
parameter has another type than the argument. It returns only if there is none among all handlers
that were ever registered for the event, those taken back by `off` included. -/
theorem trigger_runs_bodies {ls : List (Label (Handler T B) (BoostAny Val))} {c : Config T B Val}
    (hrun : run step {} ls = some c)
    {before after : List (Happening (Handler T B) (BoostAny Val))} {number : ℕ} {event : String}
    {all : List (ℕ × Handler T B)} {arg : BoostAny Val}
    (hlog : c.mixin.log = before ++ .trigger number event all arg :: after) :
    Delivers before c number event all arg := by
  have hkept : (c.mixin.Stored ∧ AtEach Offered c.mixin.log) ∧ c.mixin.Calling ∧ c.Ran := by
    refine run_invariant_of_step (I := fun c : Config T B Val =>
      (c.mixin.Stored ∧ AtEach Offered c.mixin.log) ∧ c.mixin.Calling ∧ c.Ran) ?_
      ⟨⟨.initial, atEach_nil _⟩, .initial, .initial⟩ hrun
    rintro c l c' ⟨hoffered, hcalling, hran⟩ hstep
    refine ⟨?_, ?_, hran.step hcalling (stepped hstep)⟩
    · exact mixin_invariant (I := fun m => m.Stored ∧ AtEach Offered m.log)
        (fun _ _ _ h hl => ⟨h.1.step hl, offered_step h.1 h.2 hl⟩) hoffered hstep
    · exact mixin_invariant (fun _ _ _ h hl => h.step hl) hcalling hstep
  obtain ⟨⟨-, hoffers⟩, hcalling, hran⟩ := hkept
  have hoffered := hoffers before _ after hlog
  obtain ⟨⟨rest, hall⟩, hdone⟩ := hcalling.called number event all arg (by simp [hlog])
  -- the calls that were made are a front of the handlers
  obtain ⟨called, hcalled, hsplit⟩ : ∃ called, calledBy number c.mixin.log = called.map (·, arg) ∧
      ∃ left, all = called ++ left := by
    obtain ⟨called, left, rfl, hcalled, -⟩ := List.map_eq_append_iff.mp hall.symm
    exact ⟨called, hcalled.symm, left, rfl⟩
  have hbodies : ranBy number c.bodies = runs arg called := by
    rw [hran.bodies, hcalled, runs_eq_filterMap]
    intro call hmem
    refine hran.front number (call, arg) ?_
    rw [hcalled, ← List.map_dropLast]
    exact List.mem_map_of_mem hmem
  refine ⟨hoffered, ?_, fun hfinished => ?_, fun handle handler hcall hfails => ?_⟩
  · obtain ⟨left, rfl⟩ := hsplit
    rw [hbodies]
    exact runs_prefix arg called left
  · have heq : called = all := by
      have hmaps := hcalled.symm.trans (hdone hfinished)
      exact List.map_injective_iff.mpr (fun x y h => (Prod.mk.inj h).1) hmaps
    subst heq
    refine ⟨hbodies, fun handle handler hon => ?_⟩
    have hmem : ((handle, handler), arg) ∈ calledBy number c.mixin.log := by
      rw [hcalled]
      exact List.mem_map_of_mem ((hoffered handle handler).mpr hon)
    obtain ⟨body, hbody⟩ := Option.isSome_iff_exists.mp (hran.finished number hfinished _ hmem)
    obtain ⟨passed, hpassed, rfl⟩ := Option.map_eq_some_iff.mp hbody
    refine ⟨passed, hpassed, ?_⟩
    rw [hran.bodies]
    exact List.mem_filterMap.mpr ⟨_, hmem, hbody⟩
  · have hmem := mem_calledBy.mpr hcall
    have hnone : (bodyOf ((handle, handler), arg)).isSome = false := by simp [bodyOf, hfails]
    refine ⟨?_, fun hfinished => ?_, fun calls hframe => ?_⟩
    · rw [hcalled] at hmem
      obtain ⟨call, hcall, heq⟩ := List.mem_map.mp hmem
      obtain rfl := (Prod.mk.inj heq).1
      obtain ⟨left, rfl⟩ := hsplit
      rw [hbodies, runs_append_of_failed hcall (by simp [bodyOf, hfails])]
    · rw [hran.finished number hfinished _ hmem] at hnone
      cases hnone
    · rw [hran.frames number calls arg hframe _ hmem] at hnone
      cases hnone

/-- A handler without a parameter and one for the type of the argument are run, and the one for
another type ends the call. -/
theorem trigger_runs_bodies_sample : ∃ c : Config Bool ℕ (fun _ => ℕ),
    run step {} [.on "data" ⟨.typed true, 10⟩, .on "data" ⟨.typed false, 11⟩,
      .on "data" ⟨.none_, 12⟩, .off "data" 1, .trigger "data" (some ⟨true, 5⟩) [2, 0, 1], .tau,
      .return_, .tau, .return_, .tau] = some c ∧
      Delivers [.on "data" 0 ⟨.typed true, 10⟩, .on "data" 1 ⟨.typed false, 11⟩,
        .on "data" 2 ⟨.none_, 12⟩, .off "data" 1 true] c 0 "data"
        [(2, ⟨.none_, 12⟩), (0, ⟨.typed true, 10⟩), (1, ⟨.typed false, 11⟩)] (some ⟨true, 5⟩) ∧
      ranBy 0 c.bodies = [(2, 12, none), (0, 10, some (.value ⟨true, 5⟩))] ∧
      c.mixin.stack = [.user] := by
  obtain ⟨c, hrun⟩ : ∃ c : Config Bool ℕ (fun _ => ℕ),
      run step {} [.on "data" ⟨.typed true, 10⟩, .on "data" ⟨.typed false, 11⟩,
        .on "data" ⟨.none_, 12⟩, .off "data" 1, .trigger "data" (some ⟨true, 5⟩) [2, 0, 1], .tau,
        .return_, .tau, .return_, .tau] = some c := ⟨_, rfl⟩
  obtain rfl := Option.some.inj hrun
  exact ⟨_, hrun, trigger_runs_bodies hrun rfl, rfl, rfl⟩

end Libasync.EventMixin.Arguments
