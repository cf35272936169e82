import Libasync.Foundation.Projection
import Libasync.Program.Model

/-! # Sockets as clients of the promise module

To the promise module a step of the sockets is a sequence of calls that make promises and resolve
them. So a run of the program is a run of the promise module, and what holds of its runs holds of
the promises of sockets. -/

namespace Libasync.Program

open Automaton
open Promise hiding Config Label step Step
open Reactor (Backend Resolve Resolving)

variable {V E F : Type*}

/-- The calls that the sockets make on promises. -/
inductive ByClient [Blank V] : Op V E F → Prop where
  | promise : ByClient .promise
  | resolve (p) : ByClient (.resolve p Blank.blank)

/-- What a step of the program is to the promise module. -/
inductive Reads [Blank V] : Label V E F → List (Promise.Label V E F) → Prop where
  | promise (l) : Reads (.promise l) [l]
  | reactor (l) (ops : List (Op V E F)) (client : ∀ o ∈ ops, ByClient o) :
      Reads (.reactor l) (ops.map .op)

variable [Blank V] [FnTrait F E] {s t : State V E F} {control : Control F E}

theorem step_op (huser : control.User) (o : Op V E F) (hknown : s.has o.refs = true) :
    Promise.step ⟨s, control⟩ (.op o) = some ⟨s.perform o, control⟩ := by
  cases control with
  | idle | handler => simp [Promise.step, hknown]
  | turn | callBack | done => exact huser.elim

/-- A context of no promise has no effect. -/
theorem run_of_resolve (h : Resolve s t) (huser : control.User) :
    ∃ ops : List (Op V E F), (∀ o ∈ ops, ByClient o) ∧
      run Promise.step ⟨s, control⟩ (ops.map .op) = some ⟨t, control⟩ := by
  cases h with
  | create =>
      refine ⟨[.promise], by simp [ByClient.promise], ?_⟩
      rw [List.map_singleton, run_cons, step_op huser .promise (by simp [State.has, Op.refs])]
      rfl
  | resolve p =>
      by_cases hp : p < s.heap.length
      · refine ⟨[.resolve p Blank.blank], by simp [ByClient.resolve], ?_⟩
        rw [List.map_singleton, run_cons,
          step_op huser (.resolve p Blank.blank) (by simp [State.has, Op.refs, hp])]
        rfl
      · refine ⟨[], by simp, ?_⟩
        have hnone : s.get? p = none := List.getElem?_eq_none_iff.mpr (Nat.not_lt.mp hp)
        simp [State.resolveImpl, State.settle, hnone]

theorem run_of_resolving (h : Resolving s t) (huser : control.User) :
    ∃ ops : List (Op V E F), (∀ o ∈ ops, ByClient o) ∧
      run Promise.step ⟨s, control⟩ (ops.map .op) = some ⟨t, control⟩ := by
  induction h with
  | refl => exact ⟨[], by simp, rfl⟩
  | tail _ hstep ih =>
      obtain ⟨ops, hops, hrun⟩ := ih
      obtain ⟨ops', hops', hrun'⟩ := run_of_resolve hstep huser
      refine ⟨ops ++ ops', fun o ho => (List.mem_append.mp ho).elim (hops o) (hops' o), ?_⟩
      rw [List.map_append, run_append, hrun]
      exact hrun'

variable {backend : Backend} {c c' : Config V E F}

/-- A step of the program is a run of the promise module. -/
theorem Step.reads {l : Label V E F} (h : Step backend c l c') :
    ∃ ks, Reads l ks ∧ run Promise.step c.promises ks = some c'.promises := by
  cases h with
  | promise l p own stepped =>
      refine ⟨[l], .promise l, ?_⟩
      rw [run_cons, stepped]
      rfl
  | reactor l reactor user stepped =>
      obtain ⟨ops, hops, hrun⟩ := run_of_resolving (F := F) (Reactor.stepped stepped).resolving user
      exact ⟨ops.map .op, .reactor l ops hops, hrun⟩

/-- What every step of the promise module keeps holds in every run of the program. -/
theorem promises_invariant {I : Promise.Config V E F → Prop}
    (hstep : ∀ d l d', I d → Promise.step d l = some d' → I d')
    (hinitial : I Promise.Config.initial) {ls : List (Label V E F)}
    (hrun : run (step backend) ({} : Config V E F) ls = some c) : I c.promises := by
  refine run_invariant_of_step (I := fun c => I c.promises) (fun s l s' hs hl => ?_) hinitial hrun
  obtain ⟨ks, -, hks⟩ := (stepped hl).reads
  exact run_invariant_of_step hstep hs hks

/-- A run of the program is a run of the promise module, in which the sockets do nothing but make
promises and resolve them. -/
theorem sockets_are_clients {ls : List (Label V E F)}
    (hrun : run (step backend) ({} : Config V E F) ls = some c) :
    ∃ blocks, List.Forall₂ Reads ls blocks ∧ RunsTo blocks.flatten c.promises := by
  have hstep : ∀ (s : Config V E F) l s' t, s.promises = t → step backend s l = some s' →
      ∃ ks t', Reads l ks ∧ run Promise.step t ks = some t' ∧ s'.promises = t' := by
    rintro s l s' t rfl hl
    obtain ⟨ks, hreads, hks⟩ := (stepped hl).reads
    exact ⟨ks, s'.promises, hreads, hks, rfl⟩
  obtain ⟨blocks, t, hreads, hruns, rfl⟩ := run_blocks hstep rfl hrun
  exact ⟨blocks, hreads, hruns⟩

/-- A handler of a promise of `connect` that calls `write`, and a handler of the promise of that
call. -/
def talkRun : List (Label ℕ ℕ SampleHandler) :=
  [.reactor (.newSocket 3 none), .reactor (.connect 0 (.err .inProgress)),
    .promise (.op (.then_ 0 (.plain 0))), .reactor (.poll [(⟨3, false, true⟩, .socket 0)]),
    .reactor .tau, .reactor (.soError (.ret 0)), .reactor .handler, .reactor .return_,
    .reactor .tau, .promise .promiseTask, .promise .tau, .promise .tau,
    .reactor (.write 0 [7, 8] [.ret 1, .err .again]), .promise (.op (.then_ 2 (.plain 0))),
    .promise (.finish (.returned (.value 5))), .promise .tau, .promise .tau, .promise .tau,
    .promise .tau, .promise .resume, .reactor (.poll [(⟨3, false, true⟩, .socket 0)]),
    .reactor .tau, .reactor (.flush [.ret 1]), .reactor .tau, .promise .promiseTask,
    .promise .tau, .promise .tau]

theorem sockets_are_clients_sample : ∃ c : Config ℕ ℕ SampleHandler,
    run (step .epoll) {} talkRun = some c ∧
      ∃ blocks, List.Forall₂ Reads talkRun blocks ∧ RunsTo blocks.flatten c.promises := by
  obtain ⟨c, hrun⟩ : ∃ c : Config ℕ ℕ SampleHandler,
    run (step .epoll) {} talkRun = some c := ⟨_, rfl⟩
  exact ⟨c, hrun, sockets_are_clients hrun⟩

end Libasync.Program
