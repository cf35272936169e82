import Libasync.Foundation.Projection
import Libasync.TaskLoop.Oneshot
import Libasync.Thread.Stack

/-! # The thread runs its task loop

To the loop a task of a module is a task like any other. Without what the modules keep, a run of the
thread is a run of the task loop, however the handlers of promises and the targets of events use the
loop. -/

namespace Libasync.Thread

open Promise Automaton
open Reactor (Backend)

variable {V E F : Type*}

/-! ### The frames of the loop -/

/-- User code that has control above these frames. A task of a module is user code of the loop, and
so is the code that it calls. -/
def asUser : List TaskLoop.Frame → List TaskLoop.Frame
  | .user :: rest => .user :: rest
  | frames => .user :: frames

def loopStack : List (Frame E F) → List TaskLoop.Frame
  | [] => []
  | .permanents next :: rest => .permanents next :: loopStack rest
  | .oneshots epoch next :: rest => .oneshots epoch next :: loopStack rest
  | .forever :: rest => .forever :: loopStack rest
  | .user :: rest | .promiseTask .. :: rest | .waiting :: rest | .demultiplex _ :: rest =>
      asUser (loopStack rest)

/-- The configuration of the loop, in which the tasks of the modules are tasks. -/
structure Config.Represents (c : Config V E F) (d : TaskLoop.Config) : Prop where
  stack : d.stack = loopStack c.stack
  permanents : d.data.permanentQueue.length = c.permanentQueue.length
  oneshots : d.data.oneshotQueue.length = c.oneshotQueue.length
  epoch : d.epoch = c.oneshotEpoch

/-- What a step is to the loop. -/
def loopLabels [Blank V] [FnTrait F E] (c : Config V E F) (l : Label V E F) : List TaskLoop.Label :=
  match c.stack, l with
  | _, .promiseInit | _, .reactorInit | _, .add => [.add]
  | _, .oneshot => [.oneshot]
  | _, .runOnce => [.runOnce]
  | _, .run => [.run]
  | .user :: .demultiplex _ :: _, .return_ => []
  | _, .return_ => [.return_]
  | _, .throw_ | _, .queryFails => [.throw_]
  | .promiseTask epoch control :: _, .tau =>
      if epoch ≠ c.queueEpoch then []
      else
        match Promise.step ⟨c.promises, control⟩ .tau with
        | some ⟨_, .done none⟩ => [.return_]
        | some ⟨_, .done (some _)⟩ => [.throw_]
        | _ => []
  | .demultiplex 0 :: _, .tau => [.return_]
  | .demultiplex (_ + 1) :: _, .tau => []
  | _, .tau => [.tau]
  | _, _ => []

/-! ### Frames -/

@[simp] theorem asUser_asUser (frames : List TaskLoop.Frame) :
    asUser (asUser frames) = asUser frames := by
  cases frames with
  | nil => rfl
  | cons frame rest => cases frame <;> rfl

theorem asUser_eq (frames : List TaskLoop.Frame) : ∃ rest, asUser frames = .user :: rest := by
  cases frames with
  | nil => exact ⟨_, rfl⟩
  | cons frame rest => cases frame <;> exact ⟨_, rfl⟩

/-- A function of the loop. -/
def Frame.ofLoop : Frame E F → Bool
  | .permanents _ | .oneshots .. | .forever => true
  | _ => false

theorem loop_calledBy {top frame : Frame E F} (htop : top.ofLoop = true)
    (h : top.calledBy frame = true) : frame = .user ∨ frame = .forever := by
  cases top with
  | permanents | oneshots | forever =>
      cases frame with
      | user => exact .inl rfl
      | forever => exact .inr rfl
      | _ => cases h
  | user | promiseTask | waiting | demultiplex => cases htop

theorem unwind_ofLoop {top : Frame E F} (htop : top.ofLoop = true) (rest : List (Frame E F)) :
    unwind (top :: rest) = unwind rest ∧
      (TaskLoop.unwind (loopStack (top :: rest))).2 = (TaskLoop.unwind (loopStack rest)).2 := by
  cases top with
  | permanents | oneshots | forever => exact ⟨rfl, rfl⟩
  | user | promiseTask | waiting | demultiplex => cases htop

/-- An exception that leaves a function of the loop leaves the same frames of the loop. -/
theorem unwind_loopStack {top : Frame E F} {rest : List (Frame E F)} (h : Chained (top :: rest))
    (htop : top.ofLoop = true) :
    (TaskLoop.unwind (loopStack (top :: rest))).2 = loopStack (unwind (top :: rest)) := by
  induction rest generalizing top with
  | nil =>
      obtain rfl := h.bottom top rfl
      cases htop
  | cons frame rest ih =>
      obtain ⟨hthread, hloop⟩ := unwind_ofLoop htop (frame :: rest)
      rw [hthread, hloop]
      rcases loop_calledBy htop h.calledBy with rfl | rfl
      · obtain ⟨frames, hframes⟩ := asUser_eq (loopStack rest)
        simp only [loopStack, unwind_user, hframes, TaskLoop.unwind]
      · exact ih h.tail rfl

/-! ### Steps -/

section Machine

variable [Blank V] [FnTrait F E] {backend : Backend} {c c' : Config V E F} {l : Label V E F}
  {d : TaskLoop.Config}

/-- The loop takes the step `k` and is represented again. -/
theorem matched_by {k : TaskLoop.Label} {d' : TaskLoop.Config}
    (hlabels : loopLabels c l = [k]) (hd : TaskLoop.step d k = some d') (h : c'.Represents d') :
    ∃ d', run TaskLoop.step d (loopLabels c l) = some d' ∧ (c'.stack ≠ [] → c'.Represents d') := by
  refine ⟨d', ?_, fun _ => h⟩
  simp [hlabels, run_cons, hd]

/-- The step is none of the loop. -/
theorem matched_by_nothing (hlabels : loopLabels c l = []) (h : c'.stack ≠ [] → c'.Represents d) :
    ∃ d', run TaskLoop.step d (loopLabels c l) = some d' ∧ (c'.stack ≠ [] → c'.Represents d') :=
  ⟨d, by simp [hlabels], h⟩

omit [Blank V] [FnTrait F E] in
/-- User code has control in the loop as well. -/
theorem Config.Represents.user (h : c.Represents d) {rest : List (Frame E F)}
    (stack : c.stack = .user :: rest) : ∃ frames, d.stack = .user :: frames := by
  rw [h.stack, stack]
  exact asUser_eq _

omit [Blank V] [FnTrait F E] in
theorem Config.Represents.of_stack (h : c.Represents d) (promises : State V E F) (queueEpoch : ℕ)
    {stack : List (Frame E F)} (hstack : loopStack c.stack = loopStack stack) :
    Config.Represents { c with promises, queueEpoch, stack } d :=
  ⟨h.stack.trans hstack, h.permanents, h.oneshots, h.epoch⟩

/-- A permanent task is added. -/
theorem Config.Represents.add (h : c.Represents d) {rest : List (Frame E F)}
    (stack : c.stack = .user :: rest) (hlabels : loopLabels c l = [.add]) (t : Task)
    (ready : Bool) :
    ∃ d', run TaskLoop.step d (loopLabels c l) = some d' ∧ (c.stack ≠ [] →
      Config.Represents
        { c with promiseReady := ready, permanentQueue := c.permanentQueue ++ [t] } d') := by
  obtain ⟨frames, hframes⟩ := h.user stack
  have hadd : TaskLoop.step d .add = some d.add := by simp [TaskLoop.step, hframes]
  refine ⟨d.add, by simp [hlabels, run_cons, hadd], fun _ => ⟨h.stack, ?_, h.oneshots, h.epoch⟩⟩
  simp [TaskLoop.Config.add, h.permanents]

/-- A task comes to its end. -/
theorem Config.Represents.taskReturns (h : c.Represents d) {frame : Frame E F}
    {rest : List (Frame E F)} (hframe : frame.ofLoop = true)
    (hstack : loopStack c.stack = .user :: loopStack (frame :: rest))
    (hlabels : loopLabels c l = [.return_]) (promises : State V E F) (queueEpoch : ℕ) :
    ∃ d', run TaskLoop.step d (loopLabels c l) = some d' ∧ (frame :: rest ≠ [] →
      Config.Represents { c with promises, queueEpoch, stack := frame :: rest } d') := by
  refine ⟨{ d with stack := loopStack (frame :: rest) }, ?_, fun _ => ?_⟩
  · have hd := h.stack.trans hstack
    cases frame with
    | permanents | oneshots | forever => simp [hlabels, run_cons, TaskLoop.step, hd, loopStack]
    | user | promiseTask | waiting | demultiplex => cases hframe
  · exact ⟨rfl, h.permanents, h.oneshots, h.epoch⟩

/-- An exception leaves a task. -/
theorem Config.Represents.taskThrows (h : c.Represents d) {frame : Frame E F}
    {rest : List (Frame E F)} (hframe : frame.ofLoop = true)
    (hstack : loopStack c.stack = .user :: loopStack (frame :: rest))
    (hbelow : Chained (frame :: rest)) (hlabels : loopLabels c l = [.throw_])
    (promises : State V E F) :
    ∃ d', run TaskLoop.step d (loopLabels c l) = some d' ∧ (unwind (frame :: rest) ≠ [] →
      Config.Represents { c with promises, stack := unwind (frame :: rest) } d') := by
  refine ⟨d.throwTo (loopStack (frame :: rest)), ?_, fun _ => ?_⟩
  · have hd := h.stack.trans hstack
    cases frame with
    | permanents | oneshots | forever => simp [hlabels, run_cons, TaskLoop.step, hd, loopStack]
    | user | promiseTask | waiting | demultiplex => cases hframe
  · exact ⟨unwind_loopStack hbelow hframe, h.permanents, h.oneshots, h.epoch⟩

omit [Blank V] [FnTrait F E] in
theorem Config.Represents.callPermanent (h : c.Represents d) (next : ℕ) (rest : List (Frame E F)) :
    (c.callPermanent next rest).Represents (d.callPermanent next (loopStack rest)) := by
  rw [Config.callPermanent, TaskLoop.Config.callPermanent, h.permanents]
  cases hget : c.permanentQueue[next]? with
  | none =>
      rw [if_neg (Nat.not_lt.mpr (List.getElem?_eq_none_iff.mp hget))]
      exact ⟨by simp [loopStack, h.epoch], h.permanents, h.oneshots, h.epoch⟩
  | some t =>
      rw [if_pos (List.getElem?_eq_some_iff.mp hget).1]
      cases t with
      | user | promiseTask | reactorTask => exact ⟨rfl, h.permanents, h.oneshots, h.epoch⟩

omit [Blank V] [FnTrait F E] in
theorem Config.Represents.callOneshot (h : c.Represents d) (epoch next : ℕ)
    (rest : List (Frame E F)) :
    (c.callOneshot epoch next rest).Represents (d.callOneshot epoch next (loopStack rest)) := by
  rw [Config.callOneshot, TaskLoop.Config.callOneshot]
  by_cases hepoch : epoch = c.oneshotEpoch
  · have hthread : ¬ epoch ≠ c.oneshotEpoch := by simpa using hepoch
    have hloop : ¬ epoch ≠ d.epoch := by simpa [h.epoch] using hepoch
    rw [if_neg hthread, if_neg hloop]
    cases hget : d.data.oneshotQueue[next]? with
    | none =>
        have hle := List.getElem?_eq_none_iff.mp hget
        rw [h.oneshots] at hle
        rw [if_neg (Nat.not_lt.mpr hle)]
        exact ⟨rfl, h.permanents, rfl, by simp [h.epoch]⟩
    | some t =>
        have hlt := (List.getElem?_eq_some_iff.mp hget).1
        rw [h.oneshots] at hlt
        rw [if_pos hlt]
        exact ⟨rfl, h.permanents, h.oneshots, h.epoch⟩
  · rw [if_pos hepoch, if_pos (by simpa [h.epoch] using hepoch)]
    exact ⟨rfl, h.permanents, h.oneshots, h.epoch⟩

theorem represents_step (hlayered : c.Layered) (h : c.Represents d)
    (hstep : step backend c l = some c') :
    ∃ d', run TaskLoop.step d (loopLabels c l) = some d' ∧
      (c'.stack ≠ [] → c'.Represents d') := by
  have hchain {stack : List (Frame E F)} (hstack : c.stack = stack) : Chained stack :=
    hstack ▸ hlayered
  cases stepped hstep with
  | promiseInit rest stack first => exact h.add stack (by simp [loopLabels]) .promiseTask true
  | reactorInit rest stack =>
      exact h.add stack (by simp [loopLabels]) .reactorTask c.promiseReady
  | add rest stack => exact h.add stack (by simp [loopLabels]) .user c.promiseReady
  | op rest o stack ready =>
      exact matched_by_nothing (by simp [loopLabels]) fun _ => h.of_stack _ _ rfl
  | oneshot rest stack =>
      obtain ⟨frames, hframes⟩ := h.user stack
      have hd : TaskLoop.step d .oneshot = some d.oneshot := by simp [TaskLoop.step, hframes]
      refine matched_by (by simp [loopLabels]) hd ?_
      exact ⟨h.stack, h.permanents, by simp [TaskLoop.Config.oneshot, h.oneshots], h.epoch⟩
  | runOnce rest stack =>
      obtain ⟨frames, hframes⟩ := h.user stack
      refine matched_by (k := .runOnce) (by simp [loopLabels])
        (by simp [TaskLoop.step, hframes]; rfl) ?_
      exact ⟨by simp [loopStack, ← h.stack, hframes], h.permanents, h.oneshots, h.epoch⟩
  | run rest stack =>
      obtain ⟨frames, hframes⟩ := h.user stack
      refine matched_by (k := .run) (by simp [loopLabels])
        (by simp [TaskLoop.step, hframes]; rfl) ?_
      exact ⟨by simp [loopStack, ← h.stack, hframes], h.permanents, h.oneshots, h.epoch⟩
  | return_ frame rest stack =>
      have hcalled := (hchain stack).calledBy
      cases frame with
      | permanents next | oneshots epoch next =>
          exact h.taskReturns rfl (by rw [stack]; rfl) (by simp [loopLabels, stack]) _ _
      | demultiplex n =>
          refine matched_by_nothing (by simp [loopLabels, stack]) fun _ => h.of_stack _ _ ?_
          simp [stack, loopStack]
      | promiseTask epoch control => simp [step, stack, Frame.catches] at hstep
      | user | waiting | forever => cases hcalled
  | throw_ frame rest stack =>
      have hcalled := (hchain stack).calledBy
      have hbelow := (hchain stack).tail
      cases frame with
      | permanents next | oneshots epoch next =>
          exact h.taskThrows rfl (by rw [stack]; rfl) hbelow (by simp [loopLabels]) _
      | demultiplex n =>
          obtain ⟨frame, rest, rfl, hcalled⟩ := hbelow.exists_below (by simp)
          cases frame with
          | permanents next =>
              exact h.taskThrows rfl (by rw [stack]; rfl) hbelow.tail (by simp [loopLabels]) _
          | _ => cases hcalled
      | promiseTask epoch control => simp [step, stack, Frame.catches] at hstep
      | user | waiting | forever => cases hcalled
  | finish epoch i p j outer f rest promises result stack =>
      refine matched_by_nothing (by simp [loopLabels]) fun _ => h.of_stack _ _ ?_
      simp [stack, loopStack]
  | permanent next rest stack =>
      refine matched_by (k := .tau) (by simp [loopLabels, stack]) ?_ (h.callPermanent next rest)
      simp [TaskLoop.step, h.stack, stack, loopStack]
  | oneshots epoch next rest stack =>
      refine matched_by (k := .tau) (by simp [loopLabels, stack]) ?_ (h.callOneshot epoch next rest)
      simp [TaskLoop.step, h.stack, stack, loopStack]
  | forever rest stack =>
      refine matched_by (k := .tau) (by simp [loopLabels, stack])
        (by simp [TaskLoop.step, h.stack, stack, loopStack]; rfl) ?_
      exact ⟨by simp [loopStack, stack], h.permanents, h.oneshots, h.epoch⟩
  | promiseTask epoch control rest c' stack pass =>
      obtain ⟨frame, rest, rfl, hcalled⟩ := (hchain stack).exists_below (by simp)
      cases frame with
      | permanents next =>
          cases passStep pass with
          | dangling stale =>
              exact matched_by_nothing (by simp [loopLabels, stack, stale]) fun h => absurd rfl h
          | goes promises control' fresh runs inside =>
              refine matched_by_nothing ?_ fun _ => h.of_stack _ _ (by simp [stack, loopStack])
              cases control' with
              | turn | callBack => simp [loopLabels, stack, fresh, runs]
              | idle | handler | done => cases inside
          | calls promises i p j outer f fresh runs =>
              refine matched_by_nothing (by simp [loopLabels, stack, fresh, runs]) fun _ => ?_
              exact h.of_stack _ _ (by simp [stack, loopStack])
          | returns promises fresh runs =>
              exact h.taskReturns rfl (by rw [stack]; rfl)
                (by simp [loopLabels, stack, fresh, runs]) _ _
          | throws promises e fresh runs =>
              exact h.taskThrows rfl (by rw [stack]; rfl) (hchain stack).tail
                (by simp [loopLabels, stack, fresh, runs]) _
      | _ => cases hcalled
  | events n rest stack =>
      refine matched_by_nothing (by simp [loopLabels]) fun _ => h.of_stack _ _ ?_
      simp [stack, loopStack]
  | queryFails rest stack =>
      obtain ⟨frame, rest, rfl, hcalled⟩ := (hchain stack).exists_below (by simp)
      cases frame with
      | permanents next =>
          exact h.taskThrows rfl (by rw [stack]; rfl) (hchain stack).tail (by simp [loopLabels]) _
      | _ => cases hcalled
  | noEvents rest stack =>
      obtain ⟨frame, rest, rfl, hcalled⟩ := (hchain stack).exists_below (by simp)
      cases frame with
      | permanents next =>
          exact h.taskReturns rfl (by rw [stack]; rfl) (by simp [loopLabels, stack]) _ _
      | _ => cases hcalled
  | event n rest stack =>
      refine matched_by_nothing (by simp [loopLabels, stack]) fun _ => h.of_stack _ _ ?_
      simp [stack, loopStack]
  | ignored n rest stack =>
      refine matched_by_nothing (by simp [loopLabels]) fun _ => h.of_stack _ _ ?_
      simp [stack, loopStack]

theorem thread_projects : Projects (step backend) TaskLoop.step loopLabels (fun _ _ => True)
    (fun _ _ => True)
    (fun (c : Config V E F) d => c.Layered ∧ (c.stack ≠ [] → c.Represents d)) := by
  rintro c l c' d ⟨hlayered, hR⟩ - hstep
  have halive : c.stack ≠ [] := by
    intro hnil
    simp [step, hnil] at hstep
  obtain ⟨d', hd', hR'⟩ := represents_step hlayered (hR halive) hstep
  exact ⟨d', hd', fun _ _ _ _ _ _ => trivial, hlayered.step hstep, hR'⟩

/-- Every run of the thread is a run of the task loop, in which the tasks of the modules are tasks
like any other: the promise handlers and event targets may enter the loop, and throw. -/
theorem thread_runs_task_loop {ls : List (Label V E F)} (h : run (step backend) {} ls = some c) :
    ∃ d, run TaskLoop.step {} (projected (step backend) loopLabels {} ls) = some d ∧
      (c.stack ≠ [] → c.Represents d) := by
  have hstart : ({} : Config V E F).Represents {} := ⟨rfl, rfl, rfl, rfl⟩
  obtain ⟨d, hd, -, -, hR⟩ := (thread_projects (V := V) (E := E) (F := F)).run
    ⟨.initial, fun _ => hstart⟩ (fun _ _ _ _ _ _ => trivial) h
  exact ⟨d, hd, hR⟩

end Machine

/-- The handler of a promise adds a oneshot task, and the target of an event throws. -/
def throwingTargetRun : List (Label ℕ ℕ SampleHandler) :=
  [.promiseInit, .reactorInit, .op .promise, .op (.then_ 0 (.plain 0)), .op (.resolve 0 7),
    .runOnce, .tau, .tau, .tau, .oneshot, .finish (.returned (.value 8)), .tau, .tau, .tau, .tau,
    .tau, .events 1, .tau, .throw_, .runOnce]

theorem thread_runs_task_loop_sample : ∃ d : TaskLoop.Config,
    run TaskLoop.step {}
      [.add, .add, .runOnce, .tau, .oneshot, .return_, .tau, .throw_, .runOnce] = some d ∧
      d.stack = [.permanents 0, .user] := by
  obtain ⟨c, hrun, hstack⟩ : ∃ c : Config ℕ ℕ SampleHandler,
      run (step .epoll) {} throwingTargetRun = some c ∧ c.stack = [.permanents 0, .user] :=
    ⟨_, rfl, rfl⟩
  obtain ⟨d, hd, hrepresents⟩ := thread_runs_task_loop hrun
  refine ⟨d, hd, ?_⟩
  rw [(hrepresents (by simp [hstack])).stack, hstack]
  rfl

end Libasync.Thread
