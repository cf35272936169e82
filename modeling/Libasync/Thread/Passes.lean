import Libasync.Foundation.Projection
import Libasync.Promise.Advance
import Libasync.Thread.Blocking
import Libasync.Thread.Stack

/-! # The thread runs the promise module

As long as no call of `promise_task` starts while another one is under way, the promises of the
thread go through a run of the promise module, whatever else the loop does. -/

namespace Libasync.Thread

open Promise Automaton
open Reactor (Backend)

variable {V E F : Type*}

/-! ### Where the pass is -/

/-- The only call of `promise_task` on the stack is here. With code above it, it is in a handler. No
other frame catches exceptions. -/
def Holds (queueEpoch : ℕ) (stack : List (Frame E F)) (control : Control F E) : Prop :=
  (control = .idle ∧ ∀ frame ∈ stack, frame.catches = false) ∨
    ∃ above below, stack = above ++ .promiseTask queueEpoch control :: below ∧
      (∀ frame ∈ above, frame.catches = false) ∧ (∀ frame ∈ below, frame.catches = false) ∧
      (above = [] → inLoops control = true)

/-- A call of `promise_task` starts while another one is under way. -/
def Config.nestsPass (c : Config V E F) : Label V E F → Bool
  | .tau =>
      match c.stack with
      | .permanents next :: rest =>
          decide (c.permanentQueue[next]? = some .promiseTask) && rest.any Frame.catches
      | _ => false
  | _ => false

/-- What a step is to the promise module. -/
def passLabels [Blank V] [FnTrait F E] (c : Config V E F) (l : Label V E F) :
    List (Promise.Label V E F) :=
  match c.stack, l with
  | _, .op o => [.op o]
  | _, .finish result => [.finish result]
  | .permanents next :: _, .tau =>
      if c.permanentQueue[next]? = some .promiseTask then [.promiseTask] else []
  | .promiseTask _ control :: _, .tau =>
      match Promise.step ⟨c.promises, control⟩ .tau with
      | some ⟨_, .done _⟩ => [.tau, .resume]
      | _ => [.tau]
  | _, _ => []

namespace Holds

variable {queueEpoch epoch : ℕ} {stack rest : List (Frame E F)} {top top' : Frame E F}
  {control control' : Control F E}

theorem cons (h : Holds queueEpoch stack control) (htop : top.catches = false) :
    Holds queueEpoch (top :: stack) control := by
  rcases h with ⟨hidle, hnone⟩ | ⟨above, below, rfl, habove, hbelow, -⟩
  · exact .inl ⟨hidle, List.forall_mem_cons.mpr ⟨htop, hnone⟩⟩
  · exact .inr ⟨top :: above, below, rfl, List.forall_mem_cons.mpr ⟨htop, habove⟩, hbelow, by simp⟩

/-- Another frame that is not a pass. -/
theorem replace (h : Holds queueEpoch (top :: rest) control) (htop : top.catches = false)
    (htop' : top'.catches = false) : Holds queueEpoch (top' :: rest) control := by
  rcases h with ⟨hidle, hnone⟩ | ⟨above, below, hstack, habove, hbelow, -⟩
  · exact .inl ⟨hidle, List.forall_mem_cons.mpr ⟨htop', (List.forall_mem_cons.mp hnone).2⟩⟩
  · cases above with
    | nil =>
        obtain ⟨rfl, -⟩ := List.cons.inj hstack
        cases htop
    | cons frame above =>
        obtain ⟨-, rfl⟩ := List.cons.inj hstack
        obtain ⟨-, habove⟩ := List.forall_mem_cons.mp habove
        exact .inr ⟨top' :: above, below, rfl, List.forall_mem_cons.mpr ⟨htop', habove⟩, hbelow,
          by simp⟩

/-- The frame at the top ends, and another one that is not a pass has control. -/
theorem tail (h : Holds queueEpoch (top :: top' :: rest) control) (htop : top.catches = false)
    (htop' : top'.catches = false) : Holds queueEpoch (top' :: rest) control := by
  rcases h with ⟨hidle, hnone⟩ | ⟨above, below, hstack, habove, hbelow, -⟩
  · exact .inl ⟨hidle, (List.forall_mem_cons.mp hnone).2⟩
  · match above, hstack, habove with
    | [], hstack, _ =>
        obtain ⟨rfl, -⟩ := List.cons.inj hstack
        cases htop
    | [_], hstack, _ =>
        obtain ⟨-, hrest⟩ := List.cons.inj hstack
        obtain ⟨rfl, -⟩ := List.cons.inj hrest
        cases htop'
    | _ :: frame :: above, hstack, habove =>
        obtain ⟨-, hrest⟩ := List.cons.inj hstack
        obtain ⟨-, habove⟩ := List.forall_mem_cons.mp habove
        exact .inr ⟨frame :: above, below, hrest, habove, hbelow, by simp⟩

/-- The pass is in its own loops. -/
theorem of_pass (h : Holds queueEpoch (.promiseTask epoch control' :: rest) control) :
    epoch = queueEpoch ∧ control' = control ∧ ∀ frame ∈ rest, frame.catches = false := by
  rcases h with ⟨-, hnone⟩ | ⟨above, below, hstack, habove, hbelow, -⟩
  · have := hnone _ (List.mem_cons_self ..)
    cases this
  · cases above with
    | nil =>
        obtain ⟨heq, rfl⟩ := List.cons.inj hstack
        obtain ⟨rfl, rfl⟩ := Frame.promiseTask.inj heq
        exact ⟨rfl, rfl, hbelow⟩
    | cons frame above =>
        obtain ⟨rfl, -⟩ := List.cons.inj hstack
        have := habove _ (List.mem_cons_self ..)
        cases this

/-- The pass is in a handler, and the handler has control. -/
theorem of_handler (h : Holds queueEpoch (.user :: .promiseTask epoch control' :: rest) control) :
    epoch = queueEpoch ∧ control' = control ∧ ∀ frame ∈ rest, frame.catches = false := by
  rcases h with ⟨-, hnone⟩ | ⟨above, below, hstack, habove, hbelow, -⟩
  · have := hnone (.promiseTask epoch control') (by simp)
    cases this
  · match above, hstack, habove with
    | [], hstack, _ => cases (List.cons.inj hstack).1
    | [_], hstack, _ =>
        obtain ⟨heq, rfl⟩ := List.cons.inj (List.cons.inj hstack).2
        obtain ⟨rfl, rfl⟩ := Frame.promiseTask.inj heq
        exact ⟨rfl, rfl, hbelow⟩
    | _ :: frame :: above, hstack, habove =>
        obtain ⟨rfl, -⟩ := List.cons.inj (List.cons.inj hstack).2
        have := habove (.promiseTask epoch control') (by simp)
        cases this

/-- A library function that is no pass ends. -/
theorem pop (h : Holds queueEpoch (top :: rest) control) (hchain : Chained (top :: rest))
    (htop : top.catches = false) (hne : top ≠ .user) : Holds queueEpoch rest control := by
  obtain ⟨frame, below, rfl, hcalled⟩ := hchain.exists_below hne
  cases frame with
  | promiseTask epoch control' =>
      cases top with
      | user => exact absurd rfl hne
      | _ => cases hcalled
  | _ => exact h.tail htop rfl

/-- Code that is no pass runs outside `promise_task` or in a handler. -/
theorem user (h : Holds queueEpoch (top :: rest) control) (hchain : Chained (top :: rest))
    (htop : top.catches = false) : control.User := by
  rcases h with ⟨rfl, -⟩ | ⟨above, below, hstack, -, -, -⟩
  · trivial
  · have hne : above ≠ [] := by
      rintro rfl
      obtain ⟨rfl, -⟩ := List.cons.inj hstack
      cases htop
    obtain ⟨⟨i, p, j, outer, f, rfl⟩, -⟩ := hchain.handler hstack hne
    trivial

/-- An exception of code that is no pass stays above the pass. -/
theorem unwind (h : Holds queueEpoch (top :: rest) control) (hchain : Chained (top :: rest))
    (htop : top.catches = false) : Holds queueEpoch (unwind (top :: rest)) control := by
  rcases h with ⟨hidle, hnone⟩ | ⟨above, below, hstack, habove, hbelow, -⟩
  · exact .inl ⟨hidle, fun frame hframe => hnone frame ((unwind_suffix _).subset hframe)⟩
  · have hne : above ≠ [] := by
      rintro rfl
      obtain ⟨rfl, -⟩ := List.cons.inj hstack
      cases htop
    obtain ⟨-, above', rfl⟩ := hchain.handler hstack hne
    obtain ⟨above'', hsuffix, heq⟩ :=
      unwind_append_user above' (.promiseTask queueEpoch control :: below)
    rw [hstack, List.append_assoc, List.singleton_append, heq]
    refine .inr ⟨above'' ++ [.user], below, by simp, ?_, hbelow, by simp⟩
    intro frame hframe
    rcases List.mem_append.mp hframe with hmem | hmem
    · exact habove frame (List.mem_append_left _ (hsuffix.subset hmem))
    · exact habove frame (List.mem_append_right _ hmem)

end Holds

/-! ### Steps -/

section Machine

variable [Blank V] [FnTrait F E] {backend : Backend} {strict : Prop} {c c' : Config V E F}
  {l : Label V E F} {control : Control F E}

/-- The guard of the steps: no pass is nested, and in a strict run none is left by an exception. -/
def Config.Keeps (strict : Prop) (c : Config V E F) (l : Label V E F) : Prop :=
  c.nestsPass l = false ∧ (strict → c.aborts l = false)

/-- In a strict run no handler meets an error of another type. -/
def Matches (strict : Prop) (d : Promise.Config V E F) (_ : Promise.Label V E F) : Prop :=
  strict → d.failing? = none

/-- The promise module takes the steps that this one is to it, and the pass is found again. -/
def Config.Follows (strict : Prop) (c : Config V E F) (l : Label V E F) (control : Control F E)
    (c' : Config V E F) : Prop :=
  ∃ control',
    run Promise.step ⟨c.promises, control⟩ (passLabels c l) = some ⟨c'.promises, control'⟩ ∧
      EachStep Promise.step (Matches strict) ⟨c.promises, control⟩ (passLabels c l) ∧
        (c'.stack ≠ [] → Holds c'.queueEpoch c'.stack control')

theorem follows_nothing (hlabels : passLabels c l = []) (hpromises : c'.promises = c.promises)
    (h : c'.stack ≠ [] → Holds c'.queueEpoch c'.stack control) :
    c.Follows strict l control c' := by
  rw [Config.Follows, hlabels, hpromises]
  exact ⟨control, rfl, eachStep_nil _ _, h⟩

theorem follows_step {k : Promise.Label V E F} {control' : Control F E}
    (hlabels : passLabels c l = [k])
    (hk : Promise.step ⟨c.promises, control⟩ k = some ⟨c'.promises, control'⟩)
    (hmatches : Matches strict ⟨c.promises, control⟩ k)
    (h : c'.stack ≠ [] → Holds c'.queueEpoch c'.stack control') :
    c.Follows strict l control c' := by
  rw [Config.Follows, hlabels]
  exact ⟨control', by simp [run_cons, hk], eachStep_singleton hmatches, h⟩

/-- `promise_task` comes to its end. -/
theorem follows_end {exit : Option (Exn E)} (hlabels : passLabels c l = [.tau, .resume])
    (hk : Promise.step ⟨c.promises, control⟩ .tau = some ⟨c'.promises, .done exit⟩)
    (hmatches : Matches strict ⟨c.promises, control⟩ .tau)
    (h : c'.stack ≠ [] → Holds c'.queueEpoch c'.stack .idle) : c.Follows strict l control c' := by
  have hresume : Promise.step ⟨c'.promises, .done exit⟩ .resume = some ⟨c'.promises, .idle⟩ := rfl
  rw [Config.Follows, hlabels]
  refine ⟨.idle, by simp [run_cons, hk, hresume], eachStep_cons_iff.mpr ⟨hmatches, ?_⟩, h⟩
  intro d hd
  obtain rfl := Option.some.inj (hk.symm.trans hd)
  exact eachStep_singleton fun _ => rfl

/-- The loops meet an error of another type only where they leave `promise_task` by it. -/
theorem failing?_of_tau {s : State V E F} {d : Promise.Config V E F}
    (h : Promise.step ⟨s, control⟩ .tau = some d) (hd : ∀ e, d.control ≠ .done (some e)) :
    Config.failing? ⟨s, control⟩ = none := by
  cases Promise.Step.of_step h with
  | next s i p entry => rfl
  | clear s i entry => rfl
  | adopted s i p j data outer get due =>
      simp only [Config.failing?, get, due]
      cases data.status <;> rfl
  | called s i p j data outer f arg get due arg_eq =>
      cases hstatus : data.status with
      | pending | resolved => simp [Config.failing?, get, hstatus]
      | rejected e =>
          cases hcast : eptrCast (FnTrait.errorType f) e with
          | ok o => simp [Config.failing?, get, hstatus, due, hcast, Except.isOk, Except.toBool]
          | error x => simp [hstatus, PromiseStatus.argFor, hcast, Except.map] at arg_eq
  | mismatch s i p j data outer f e get due arg_eq => exact absurd rfl (hd e)
  | finished s i p j data get due =>
      simp only [Config.failing?, get, due]
      cases data.status <;> rfl

theorem Holds.callPermanent {next : ℕ} {rest : List (Frame E F)}
    (h : Holds c.queueEpoch c.stack control) (stack : c.stack = .permanents next :: rest)
    (hnest : c.nestsPass .tau = false) :
    c.Follows strict .tau control (c.callPermanent next rest) := by
  have hlabels : passLabels c .tau =
      if c.permanentQueue[next]? = some .promiseTask then [.promiseTask] else [] := by
    simp [passLabels, stack]
  rw [stack] at h
  have hnext : Holds c.queueEpoch (.permanents (next + 1) :: rest) control := h.replace rfl rfl
  cases hget : c.permanentQueue[next]? with
  | none =>
      rw [Config.callPermanent, hget]
      exact follows_nothing (by simp [hlabels, hget]) rfl fun _ => h.replace rfl rfl
  | some t =>
      cases t with
      | user | reactorTask =>
          rw [Config.callPermanent, hget]
          exact follows_nothing (by simp [hlabels, hget]) rfl fun _ => hnext.cons rfl
      | promiseTask =>
          have hnone : ∀ frame ∈ rest, frame.catches = false := by
            simpa [Config.nestsPass, stack, hget] using hnest
          have hall : ∀ frame ∈ Frame.permanents (next + 1) :: rest, frame.catches = false :=
            List.forall_mem_cons.mpr ⟨rfl, hnone⟩
          obtain rfl : control = .idle := by
            rcases hnext with ⟨hidle, -⟩ | ⟨above, below, hstack, -⟩
            · exact hidle
            · have := hall (.promiseTask c.queueEpoch control) (by simp [hstack])
              cases this
          rw [Config.callPermanent, hget]
          exact follows_step (k := .promiseTask) (by simp [hlabels, hget]) rfl (fun _ => rfl)
            fun _ => .inr ⟨[], _, rfl, by simp, hall, fun _ => rfl⟩

/-- A step of the pass. -/
theorem Holds.runPromiseTask {epoch : ℕ} {own : Control F E} {rest : List (Frame E F)}
    (h : Holds c.queueEpoch c.stack control) (stack : c.stack = .promiseTask epoch own :: rest)
    (haborts : strict → c.aborts .tau = false) (hpass : PassStep c epoch own rest c') :
    c.Follows strict .tau control c' := by
  rw [stack] at h
  obtain ⟨rfl, rfl, hrest⟩ := h.of_pass
  cases hpass with
  | dangling stale => exact absurd rfl stale
  | goes promises control' fresh runs inside =>
      have hnone := failing?_of_tau runs fun e he => by simp_all [inLoops]
      refine follows_step (k := .tau) ?_ runs (fun _ => hnone)
        fun _ => .inr ⟨[], rest, rfl, by simp, hrest, fun _ => inside⟩
      cases control' with
      | turn | callBack => simp [passLabels, stack, runs]
      | idle | handler | done => cases inside
  | calls promises i p j outer f fresh runs =>
      have hnone := failing?_of_tau runs fun e he => by cases he
      refine follows_step (k := .tau) (by simp [passLabels, stack, runs]) runs (fun _ => hnone)
        fun _ => .inr ⟨[.user], rest, rfl, by simp [Frame.catches], hrest, by simp⟩
  | returns promises fresh runs =>
      have hnone := failing?_of_tau runs fun e he => by cases he
      exact follows_end (by simp [passLabels, stack, runs]) runs (fun _ => hnone)
        fun _ => .inl ⟨rfl, hrest⟩
  | throws promises e fresh runs =>
      refine follows_end (by simp [passLabels, stack, runs]) runs (fun hstrict => ?_)
        fun _ => .inl ⟨rfl, fun frame hframe => hrest frame ((unwind_suffix rest).subset hframe)⟩
      have htau : Promise.tau ⟨c.promises, own⟩ = some ⟨promises, .done (some e)⟩ := runs
      simp [Config.aborts, stack, htau] at haborts
      exact absurd hstrict haborts

/-- A step without a nested pass is some steps of the promise module. -/
theorem follows_of_layered (hlayered : c.Layered) (h : Holds c.queueEpoch c.stack control)
    (hkeeps : c.Keeps strict l) (hstep : step backend c l = some c') :
    c.Follows strict l control c' := by
  have hchain {stack : List (Frame E F)} (hstack : c.stack = stack) : Chained stack :=
    hstack ▸ hlayered
  have hholds {stack : List (Frame E F)} (hstack : c.stack = stack) :
      Holds c.queueEpoch stack control := hstack ▸ h
  cases stepped hstep with
  | promiseInit rest stack | reactorInit rest stack | add rest stack | oneshot rest stack =>
      exact follows_nothing (by simp [passLabels]) rfl fun _ => h
  | op rest o stack ready =>
      have hhas : c.promises.has o.refs = true := by
        simpa [step, stack, ready, Option.ite_none_right_eq_some] using hstep
      have huser : control.User := (hholds stack).user (hchain stack) rfl
      have hop : Promise.Step ⟨c.promises, control⟩ (.op o) ⟨c.promises.perform o, control⟩ :=
        .op _ _ _ huser hhas
      exact follows_step (by simp [passLabels]) (Promise.step_iff.mpr hop)
        (fun _ => hop.failing?_eq_none (by simp)) fun _ => h
  | runOnce rest stack | run rest stack =>
      exact follows_nothing (by simp [passLabels]) rfl fun _ => h.cons rfl
  | return_ frame rest stack =>
      cases hframe : frame.catches with
      | false =>
          exact follows_nothing (by simp [passLabels]) rfl
            fun _ => (hholds stack).tail rfl hframe
      | true => simp [step, stack, hframe] at hstep
  | throw_ frame rest stack =>
      cases hframe : frame.catches with
      | false =>
          exact follows_nothing (by simp [passLabels]) rfl
            fun _ => ((hholds stack).tail rfl hframe).unwind (hchain stack).tail hframe
      | true => simp [step, stack, hframe] at hstep
  | finish epoch i p j outer f rest promises result stack =>
      obtain ⟨rfl, rfl, hrest⟩ := (hholds stack).of_handler
      have hfinish : Promise.step ⟨c.promises, .handler i p j outer f⟩ (.finish result) =
          some ⟨promises, .callBack i p (j + 1)⟩ := by
        simp only [step, stack] at hstep
        obtain ⟨⟨promises', control'⟩, hrun, heq⟩ := Option.map_eq_some_iff.mp hstep
        cases Promise.Step.of_step hrun with
        | returned s i p j outer f result known =>
            obtain rfl := congrArg Config.promises heq
            exact hrun
      exact follows_step (by simp [passLabels]) hfinish (fun _ => rfl)
        fun _ => .inr ⟨[], rest, rfl, by simp, hrest, fun _ => rfl⟩
  | permanent next rest stack => exact h.callPermanent stack hkeeps.1
  | oneshots epoch next rest stack =>
      rw [Config.callOneshot]
      split
      · exact follows_nothing (by simp [passLabels, stack]) rfl fun hne => absurd rfl hne
      · split
        · exact follows_nothing (by simp [passLabels, stack]) rfl
            fun _ => ((hholds stack).replace rfl rfl).cons rfl
        · exact follows_nothing (by simp [passLabels, stack]) rfl
            fun _ => (hholds stack).pop (hchain stack) rfl (by simp)
  | forever rest stack =>
      exact follows_nothing (by simp [passLabels, stack]) rfl fun _ => h.cons rfl
  | promiseTask epoch own rest c' stack runs =>
      exact h.runPromiseTask stack hkeeps.2 (passStep runs)
  | events n rest stack =>
      exact follows_nothing (by simp [passLabels]) rfl fun _ => (hholds stack).replace rfl rfl
  | queryFails rest stack =>
      exact follows_nothing (by simp [passLabels]) rfl
        fun _ => (hholds stack).unwind (hchain stack) rfl
  | noEvents rest stack =>
      exact follows_nothing (by simp [passLabels, stack]) rfl
        fun _ => (hholds stack).pop (hchain stack) rfl (by simp)
  | event n rest stack =>
      exact follows_nothing (by simp [passLabels, stack]) rfl
        fun _ => ((hholds stack).replace rfl rfl).cons rfl
  | ignored n rest stack =>
      exact follows_nothing (by simp [passLabels]) rfl fun _ => (hholds stack).replace rfl rfl

/-- The state of the promise module next to that of the thread. -/
structure Config.Tracks (c : Config V E F) (d : Promise.Config V E F) : Prop where
  layered : c.Layered
  state : d.state = c.promises
  holds : c.stack ≠ [] → Holds c.queueEpoch c.stack d.control

theorem passes_project (strict : Prop) :
    Projects (step backend) Promise.step passLabels (Config.Keeps strict) (Matches strict)
      (Config.Tracks (V := V) (E := E) (F := F)) := by
  rintro c l c' ⟨s, control⟩ ⟨hlayered, rfl, hholds⟩ hkeeps hstep
  have halive : c.stack ≠ [] := by
    intro hnil
    simp [step, hnil] at hstep
  obtain ⟨control', hrun, hmatches, hholds'⟩ :=
    follows_of_layered hlayered (hholds halive) hkeeps hstep
  exact ⟨_, hrun, hmatches, hlayered.step hstep, rfl, hholds'⟩

omit [Blank V] [FnTrait F E] in
theorem Config.Tracks.initial : Config.Tracks ({} : Config V E F) Promise.Config.initial where
  layered := .initial
  state := rfl
  holds _ := .inl ⟨rfl, by simp [Frame.catches]⟩

end Machine

section Runs

variable [Blank V] [FnTrait F E] {backend : Backend} {c c' : Config V E F}

/-- Every run of the thread in which no call of `promise_task` starts while another one is under way
is a run of the promise module, in which promises, flags, lists and queue fit together all the time
and settled promises keep their status. The handlers may enter the loop, and exceptions may leave
any task. -/
theorem thread_runs_promise_module {before after : List (Label V E F)}
    (hguard : EachStep (step backend) (fun c l => c.nestsPass l = false) {} (before ++ after))
    (hbefore : run (step backend) {} before = some c)
    (hafter : run (step backend) c after = some c') :
    ∃ control, RunsTo (projected (step backend) passLabels {} (before ++ after))
        ⟨c'.promises, control⟩ ∧
      (c'.stack ≠ [] → Holds c'.queueEpoch c'.stack control) ∧
      HeapInvariant ⟨c'.promises, control⟩ ∧
      ∀ p status, c.promises.status? p = some status → status ≠ .pending →
        c'.promises.status? p = some status := by
  have hkeeps : EachStep (step backend) (Config.Keeps False) {} (before ++ after) :=
    fun front l rest t hls ht => ⟨hguard front l rest t hls ht, False.elim⟩
  obtain ⟨⟨s, control⟩, hd, -, htracks⟩ := (passes_project False).run
    Config.Tracks.initial (hkeeps.of_prefix (List.prefix_append _ _)) hbefore
  obtain ⟨⟨s', control'⟩, hd', -, htracks'⟩ := (passes_project False).run htracks
    (hkeeps.of_append hbefore) hafter
  obtain rfl := htracks.state
  obtain rfl := htracks'.state
  have hrun : RunsTo (projected (step backend) passLabels {} (before ++ after))
      ⟨c'.promises, control'⟩ := by
    rw [RunsTo, projected_append hbefore, run_append, hd, Option.bind_some, hd']
  have hscope := (RunsTo.queueInv hd).scope
  refine ⟨control', hrun, htracks'.holds, hrun.queueInv.heapInvariant, ?_⟩
  exact fun p status => settled_of_run hscope hd'

end Runs

/-- `reactor_task` is the first task. A promise has a handler. -/
def enteredRun : List (Label ℕ ℕ SampleHandler) :=
  [.reactorInit, .promiseInit, .op .promise, .op (.then_ 0 (.plain 0)), .op (.resolve 0 7),
    .runOnce, .tau, .events 1, .tau, .return_, .tau, .tau, .tau, .tau]

/-- The handler enters the loop, which an exception of `reactor_task` leaves. -/
def enteredRest : List (Label ℕ ℕ SampleHandler) :=
  [.runOnce, .tau, .queryFails, .finish (.returned (.value 8)), .tau]

theorem thread_runs_promise_module_sample : ∃ (c : Config ℕ ℕ SampleHandler) (control : _),
    RunsTo (projected (step .epoll) passLabels {} (enteredRun ++ enteredRest))
        ⟨c.promises, control⟩ ∧
      Holds c.queueEpoch c.stack control ∧ HeapInvariant ⟨c.promises, control⟩ := by
  obtain ⟨c, c', hc, hc', hguard, hstack⟩ : ∃ c c' : Config ℕ ℕ SampleHandler,
      run (step .epoll) {} enteredRun = some c ∧ run (step .epoll) c enteredRest = some c' ∧
        EachStep (step .epoll) (fun c l => c.nestsPass l = false) {} (enteredRun ++ enteredRest) ∧
        c'.stack = [.promiseTask 0 (.turn 1), .permanents 2, .user] :=
    ⟨_, _, rfl, rfl, by decide +kernel, rfl⟩
  obtain ⟨control, hrun, hholds, hheap, -⟩ := thread_runs_promise_module hguard hc hc'
  exact ⟨c', control, hrun, hholds (by simp [hstack]), hheap⟩

end Libasync.Thread
