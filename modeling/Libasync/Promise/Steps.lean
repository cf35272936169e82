import Libasync.Foundation.Run
import Libasync.Promise.Change

/-! # The transitions of the promise machine

The relation lists what a step can do, with the guards of the code as premises. It is the step
function read backwards, and the invariants are proved by cases on it. -/

namespace Libasync.Promise

variable {V E F : Type*}

/-- Control is in code outside the library: the main program, or a user handler. -/
def Control.User : Control F E → Prop
  | .idle | .handler .. => True
  | _ => False

/-- The position of the traversal in the queue; 0 outside `promise_task`. -/
def Control.position : Control F E → ℕ
  | .turn i | .callBack i _ _ | .handler i _ _ _ _ => i
  | .idle | .done _ => 0

/-- The promise whose `call_back` is running. -/
def Control.current? : Control F E → Option Ref
  | .callBack _ p _ | .handler _ p _ _ _ => some p
  | _ => none

variable [Blank V] [FnTrait F E]

inductive Step : Config V E F → Label V E F → Config V E F → Prop where
  | op (s control o) (user : control.User) (known : s.has o.refs = true) :
      Step ⟨s, control⟩ (.op o) ⟨s.perform o, control⟩
  | start (s) : Step ⟨s, .idle⟩ .promiseTask ⟨s, .turn 0⟩
  | next (s i p) (entry : s.queue[i]? = some p) :
      Step ⟨s, .turn i⟩ .tau ⟨s, .callBack i p 0⟩
  | clear (s i) (entry : s.queue[i]? = none) :
      Step ⟨s, .turn i⟩ .tau ⟨{ s with queue := [] }, .done none⟩
  | adopted (s i p j data outer) (get : s.get? p = some data)
      (due : data.due[j]? = some (.adopt outer)) :
      Step ⟨s, .callBack i p j⟩ .tau ⟨s.adoptStatus outer data.status, .callBack i p (j + 1)⟩
  | called (s i p j data outer f arg) (get : s.get? p = some data)
      (due : data.due[j]? = some (.handler outer f)) (arg_eq : data.status.argFor f = .ok arg) :
      Step ⟨s, .callBack i p j⟩ .tau ⟨s.record (.called i p outer f arg), .handler i p j outer f⟩
  | mismatch (s i p j data outer f e) (get : s.get? p = some data)
      (due : data.due[j]? = some (.handler outer f)) (arg_eq : data.status.argFor f = .error e) :
      Step ⟨s, .callBack i p j⟩ .tau ⟨s, .done (some e)⟩
  | finished (s i p j data) (get : s.get? p = some data) (due : data.due[j]? = none) :
      Step ⟨s, .callBack i p j⟩ .tau ⟨s.finishCallBack p, .turn (i + 1)⟩
  | returned (s i p j outer f result) (known : s.has result.refs = true) :
      Step ⟨s, .handler i p j outer f⟩ (.finish result)
        ⟨s.finishHandler outer f result, .callBack i p (j + 1)⟩
  | resume (s exit) : Step ⟨s, .done exit⟩ .resume ⟨s, .idle⟩

theorem Step.of_callWrapper {s : State V E F} {i j : ℕ} {p : Ref} {c : Config V E F}
    (h : callWrapper s i p j = some c) : Step ⟨s, .callBack i p j⟩ .tau c := by
  unfold callWrapper at h
  cases hget : s.get? p with
  | none => simp [hget] at h
  | some data =>
      simp only [hget] at h
      cases hdue : data.due[j]? with
      | none =>
          simp only [hdue, Option.some.injEq] at h
          subst h
          exact .finished s i p j data hget hdue
      | some w =>
          cases w with
          | adopt outer =>
              simp only [hdue, Option.some.injEq] at h
              subst h
              exact .adopted s i p j data outer hget hdue
          | handler outer f =>
              cases harg : data.status.argFor f with
              | ok arg =>
                  simp only [hdue, harg, Option.some.injEq] at h
                  subst h
                  exact .called s i p j data outer f arg hget hdue harg
              | error e =>
                  simp only [hdue, harg, Option.some.injEq] at h
                  subst h
                  exact .mismatch s i p j data outer f e hget hdue harg

theorem Step.of_step {c c' : Config V E F} {l : Label V E F} (h : step c l = some c') :
    Step c l c' := by
  obtain ⟨s, control⟩ := c
  cases l with
  | op o =>
      cases control <;> simp [step] at h
      all_goals
        obtain ⟨known, rfl⟩ := h
        exact .op s _ o trivial known
  | promiseTask =>
      cases control <;> simp [step] at h
      subst h
      exact .start s
  | tau =>
      cases control with
      | turn i =>
          cases hq : s.queue[i]? with
          | none =>
              simp only [step, tau, hq, Option.some.injEq] at h
              subst h
              exact .clear s i hq
          | some p =>
              simp only [step, tau, hq, Option.some.injEq] at h
              subst h
              exact .next s i p hq
      | callBack i p j => exact .of_callWrapper h
      | idle => simp [step, tau] at h
      | handler i p j outer f => simp [step, tau] at h
      | done exit => simp [step, tau] at h
  | finish result =>
      cases control <;> simp [step] at h
      obtain ⟨known, rfl⟩ := h
      exact .returned s _ _ _ _ _ result known
  | resume =>
      cases control <;> simp [step] at h
      subst h
      exact .resume s _

theorem step_iff {c c' : Config V E F} {l : Label V E F} :
    step c l = some c' ↔ Step c l c' := by
  refine ⟨Step.of_step, ?_⟩
  intro h
  cases h with
  | op s control o user known =>
      cases control <;> first | exact user.elim | simp [step, known]
  | start => rfl
  | next s i p entry => simp [step, tau, entry]
  | clear s i entry => simp [step, tau, entry]
  | adopted s i p j data outer get due => simp [step, tau, callWrapper, get, due]
  | called s i p j data outer f arg get due arg_eq =>
      simp [step, tau, callWrapper, get, due, arg_eq]
  | mismatch s i p j data outer f e get due arg_eq =>
      simp [step, tau, callWrapper, get, due, arg_eq]
  | finished s i p j data get due => simp [step, tau, callWrapper, get, due]
  | returned s i p j outer f result known => simp [step, known]
  | resume => rfl

/-- The start of the program: no promise exists. -/
def Config.initial : Config V E F := {}

/-- The run of these labels from the start of the program ends in this configuration. -/
def RunsTo (ls : List (Label V E F)) (c : Config V E F) : Prop :=
  Automaton.run step Config.initial ls = some c

/-- A run can be checked by evaluating where its control ends. -/
theorem exists_runsTo {ls : List (Label V E F)} {control : Control F E}
    (h : (Automaton.run step Config.initial ls).map Config.control = some control) :
    ∃ s, RunsTo ls ⟨s, control⟩ := by
  obtain ⟨⟨s, control'⟩, hrun, rfl⟩ := Option.map_eq_some_iff.mp h
  exact ⟨s, hrun⟩

/-- An invariant of all transitions holds at the end of every run of the program. -/
theorem RunsTo.invariant {I : Config V E F → Prop} (hinit : I Config.initial)
    (hstep : ∀ c l c', I c → Step c l c' → I c') {ls : List (Label V E F)} {c : Config V E F}
    (h : RunsTo ls c) : I c :=
  Automaton.run_invariant_of_step (fun c l c' hc hl => hstep c l c' hc (.of_step hl)) hinit h

end Libasync.Promise
