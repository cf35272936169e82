import Libasync.Foundation.Lists
import Libasync.Foundation.Run
import Libasync.Thread.Model

/-! # The wait of the reactor

On Linux `reactor_task` waits without a timeout, whatever is queued. It never waits while work is
runnable if all work is queued where the loop comes to its queue before it comes to
`reactor_task`. -/

namespace Libasync.Thread

open Promise Automaton Foundation
open Reactor (Backend)

variable {V E F : Type*}

/-! ### What is to hold -/

/-- `reactor_task` is in a wait without a timeout. -/
def Config.Blocks (backend : Backend) (c : Config V E F) : Prop :=
  backend = .epoll ∧ c.stack.head? = some .waiting

/-- No oneshot task and no promise with callbacks is queued. -/
def Config.NothingRunnable (c : Config V E F) : Prop :=
  c.oneshotQueue = [] ∧ c.promises.queue = []

/-! ### What the loop comes to -/

/-- The parts of the loop that take something from a queue, or wait. -/
inductive Service where
  | promise
  | reactor
  | oneshots
  deriving DecidableEq, Repr

def Task.service? : Task → Option Service
  | .promiseTask => some .promise
  | .reactorTask => some .reactor
  | .user => none

/-- The services of a call of `run_once`. -/
def round (permanentQueue : List Task) : List Service :=
  permanentQueue.filterMap Task.service? ++ [.oneshots]

/-- What is left to do of the services of a frame. -/
def Frame.services (permanentQueue : List Task) : Frame E F → List Service
  | .permanents next => round (permanentQueue.drop next)
  | .oneshots .. => [.oneshots]
  | .forever => round permanentQueue
  | .promiseTask .. => [.promise]
  | .user | .waiting | .demultiplex _ => []

/-- What the loop comes to when the code on the stack returns: the rest of the calls that are under
way, and then the next call of `run_once`. -/
def Config.agenda (c : Config V E F) : List Service :=
  c.stack.flatMap (Frame.services c.permanentQueue) ++ round c.permanentQueue

/-- The loop comes to a queue in which something waits before it comes to `reactor_task`. -/
structure Config.Served (c : Config V E F) : Prop where
  oneshots : c.oneshotQueue ≠ [] → comesFirst .oneshots .reactor c.agenda = true
  promises : c.promises.queue ≠ [] → comesFirst .promise .reactor c.agenda = true

instance (c : Config V E F) : Decidable c.Served :=
  decidable_of_iff
    ((c.oneshotQueue ≠ [] → comesFirst .oneshots .reactor c.agenda = true) ∧
      (c.promises.queue ≠ [] → comesFirst .promise .reactor c.agenda = true))
    ⟨fun ⟨oneshots, promises⟩ => ⟨oneshots, promises⟩, fun h => ⟨h.oneshots, h.promises⟩⟩

/-- User code queues work, enters the loop, adds the task of a module to it or leaves it by an
exception. -/
def Label.disturbs : Label V E F → Bool
  | .op _ | .oneshot | .runOnce | .run | .promiseInit | .reactorInit | .throw_ => true
  | _ => false

/-- An exception leaves `promise_task`: the error of a promise does not match the handler. -/
def Config.aborts [Blank V] [FnTrait F E] (c : Config V E F) : Label V E F → Bool
  | .tau =>
      match c.stack with
      | .promiseTask _ control :: _ =>
          match Promise.tau ⟨c.promises, control⟩ with
          | some ⟨_, .done (some _)⟩ => true
          | _ => false
      | _ => false
  | _ => false

/-- Whatever is queued after the step of user code is served before the next wait. -/
def Config.QueuesInTime [Blank V] [FnTrait F E] (backend : Backend) (c : Config V E F)
    (l : Label V E F) : Prop :=
  (l.disturbs || c.aborts l) = true → ∀ c' ∈ step backend c l, c'.Served

instance [Blank V] [FnTrait F E] (backend : Backend) (c : Config V E F) (l : Label V E F) :
    Decidable (c.QueuesInTime backend l) :=
  inferInstanceAs (Decidable (_ → ∀ c' ∈ _, _))

/-! ### The agenda -/

theorem round_drop {permanentQueue : List Task} {next : ℕ} {t : Task}
    (hget : permanentQueue[next]? = some t) : round (permanentQueue.drop next) =
      t.service?.toList ++ round (permanentQueue.drop (next + 1)) := by
  obtain ⟨hlt, ht⟩ := List.getElem?_eq_some_iff.mp hget
  have hdrop : permanentQueue.drop next = t :: permanentQueue.drop (next + 1) := by
    rw [List.drop_eq_getElem_cons hlt, ht]
  rw [hdrop]
  cases t <;> rfl

theorem round_drop_none {permanentQueue : List Task} {next : ℕ}
    (hget : permanentQueue[next]? = none) : round (permanentQueue.drop next) = [.oneshots] := by
  rw [List.drop_eq_nil_of_le (List.getElem?_eq_none_iff.mp hget)]
  rfl

/-- A task without a service at the end of the permanent queue. -/
theorem round_drop_concat (permanentQueue : List Task) (next : ℕ) :
    round ((permanentQueue ++ [Task.user]).drop next) = round (permanentQueue.drop next) := by
  have hlast (n : ℕ) : ([Task.user].drop n).filterMap Task.service? = [] := by
    cases n with
    | zero => rfl
    | succ n => simp
  rw [round, List.drop_append, List.filterMap_append, hlast, List.append_nil, round]

theorem services_concat (permanentQueue : List Task) (frame : Frame E F) :
    frame.services (permanentQueue ++ [.user]) = frame.services permanentQueue := by
  cases frame with
  | permanents next => exact round_drop_concat permanentQueue next
  | forever => exact round_drop_concat permanentQueue 0
  | user | oneshots | promiseTask | waiting | demultiplex => rfl

namespace Config

variable {c c' : Config V E F}

theorem agenda_add (c : Config V E F) :
    agenda { c with permanentQueue := c.permanentQueue ++ [.user] } = c.agenda := by
  have hframes : Frame.services (E := E) (F := F) (c.permanentQueue ++ [.user]) =
      Frame.services c.permanentQueue := funext (services_concat c.permanentQueue)
  have hround : round (c.permanentQueue ++ [.user]) = round c.permanentQueue :=
    round_drop_concat c.permanentQueue 0
  simp only [agenda, hframes, hround]

/-- The agenda stays, and nothing is queued that was not. -/
theorem Served.of_agenda (h : c.Served) (hagenda : c'.agenda = c.agenda)
    (honeshots : c'.oneshotQueue = c.oneshotQueue)
    (hpromises : c'.promises.queue = c.promises.queue) : c'.Served where
  oneshots := by
    rw [hagenda, honeshots]
    exact h.oneshots
  promises := by
    rw [hagenda, hpromises]
    exact h.promises

theorem Served.of_nothing (h : c.NothingRunnable) : c.Served where
  oneshots hne := absurd h.1 hne
  promises hne := absurd h.2 hne

/-- What holds after the steps that queue in time. -/
structure Orderly (c : Config V E F) : Prop where
  served : c.stack = [] ∨ c.Served
  waiting : c.stack.head? = some .waiting → c.NothingRunnable
  below : .waiting ∉ c.stack.tail

theorem unwind_subset (stack : List (Frame E F)) : unwind stack ⊆ stack := by
  induction stack with
  | nil => exact List.Subset.refl []
  | cons top rest ih =>
      cases top with
      | user => exact List.Subset.refl _
      | _ => exact List.subset_cons_of_subset _ ih

/-- Frames below which there is no wait. -/
theorem top_of_subset {frames rest : List (Frame E F)} (hrest : .waiting ∉ rest)
    (h : frames ⊆ rest) : frames.head? ≠ some .waiting ∧ .waiting ∉ frames.tail :=
  ⟨fun hhead => hrest (h (List.mem_of_mem_head? hhead)),
    fun hmem => hrest (h (List.mem_of_mem_tail hmem))⟩

/-! ### The library's steps -/

variable {next epoch : ℕ} {rest : List (Frame E F)}

theorem Served.callPermanent (h : c.Served) (hstack : c.stack = .permanents next :: rest) :
    (c.callPermanent next rest).Served ∧
      ((c.callPermanent next rest).stack.head? = some .waiting →
        (c.callPermanent next rest).NothingRunnable) := by
  have hagenda : c.agenda = round (c.permanentQueue.drop next) ++
      (rest.flatMap (Frame.services c.permanentQueue) ++ round c.permanentQueue) := by
    simp [agenda, hstack, Frame.services]
  rw [Config.callPermanent]
  cases hget : c.permanentQueue[next]? with
  | none =>
      refine ⟨h.of_agenda ?_ rfl rfl, by simp⟩
      rw [hagenda, round_drop_none hget]
      rfl
  | some t =>
      rw [round_drop hget, List.append_assoc] at hagenda
      cases t with
      | user | promiseTask =>
          refine ⟨h.of_agenda ?_ rfl rfl, by simp⟩
          rw [hagenda]
          simp [agenda, Frame.services, Task.service?]
      | reactorTask =>
          -- nothing can wait that the loop comes to later
          have hnothing : c.NothingRunnable := by
            constructor
            · by_contra hne
              have hfirst := h.oneshots hne
              rw [hagenda] at hfirst
              cases (not_comesFirst (by decide) _).symm.trans hfirst
            · by_contra hne
              have hfirst := h.promises hne
              rw [hagenda] at hfirst
              cases (not_comesFirst (by decide) _).symm.trans hfirst
          exact ⟨.of_nothing hnothing, fun _ => hnothing⟩

theorem Served.callOneshot (h : c.Served) (hstack : c.stack = .oneshots epoch next :: rest) :
    (c.callOneshot epoch next rest).stack = [] ∨ (c.callOneshot epoch next rest).Served := by
  rw [Config.callOneshot]
  split
  · exact .inl rfl
  · split
    · refine .inr (h.of_agenda ?_ rfl rfl)
      simp [agenda, hstack, Frame.services]
    · refine .inr ⟨fun hne => absurd rfl hne, fun hne => ?_⟩
      have hfirst := h.promises hne
      rw [agenda, hstack] at hfirst
      exact (comesFirst_cons (by decide) (by decide) _).symm.trans hfirst

section Promises

variable [Blank V] [FnTrait F E] {control : Control F E}

omit [Blank V] in
/-- The end of `promise_task` has cleared the queue. -/
theorem queue_of_done {s s' : State V E F}
    (h : Promise.tau ⟨s, control⟩ = some ⟨s', .done none⟩) : s'.queue = [] := by
  cases control with
  | turn i =>
      simp only [Promise.tau] at h
      split at h
      · simp at h
      · simp only [Option.some.injEq, Promise.Config.mk.injEq] at h
        rw [← h.1]
  | callBack i p j =>
      simp only [Promise.tau, callWrapper] at h
      repeat' split at h
      all_goals simp at h
  | idle | handler | done => simp [Promise.tau] at h

omit [Blank V] [FnTrait F E] in
/-- `promise_task` goes on: the queue it serves is the one that it is in. -/
theorem Served.promiseTask (h : c.Served) (frames : List (Frame E F))
    (hagenda : c.agenda = .promise :: (rest.flatMap (Frame.services c.permanentQueue) ++
      round c.permanentQueue)) (promises : State V E F)
    (hservices : frames.flatMap (Frame.services c.permanentQueue) = [.promise]) :
    Served { c with promises, stack := frames ++ rest } where
  oneshots hne := by
    have hfirst := h.oneshots hne
    rw [hagenda] at hfirst
    simpa [agenda, hservices] using hfirst
  promises _ := by simp [agenda, hservices]

theorem Served.runPromiseTask (h : c.Served) (hstack : c.stack = .promiseTask epoch control :: rest)
    (haborts : c.aborts (.tau : Label V E F) = false)
    (hl : c.runPromiseTask epoch control rest = some c') : c'.stack = [] ∨ c'.Served := by
  have hagenda : c.agenda = .promise :: (rest.flatMap (Frame.services c.permanentQueue) ++
      round c.permanentQueue) := by
    simp [agenda, hstack, Frame.services]
  rw [Config.runPromiseTask] at hl
  split at hl
  · obtain rfl := Option.some.inj hl
    exact .inl rfl
  · obtain ⟨⟨s, control'⟩, htau, rfl⟩ := Option.map_eq_some_iff.mp hl
    refine .inr ?_
    cases control' with
    | idle => exact h.promiseTask [.promiseTask epoch .idle] hagenda s rfl
    | turn i => exact h.promiseTask [.promiseTask epoch (.turn i)] hagenda s rfl
    | callBack i p j => exact h.promiseTask [.promiseTask epoch (.callBack i p j)] hagenda s rfl
    | handler i p j outer f =>
        exact h.promiseTask [.user, .promiseTask epoch (.handler i p j outer f)] hagenda s rfl
    | done exit =>
        cases exit with
        | none =>
            refine ⟨fun hne => ?_, fun hne => absurd (queue_of_done htau) hne⟩
            have hfirst := h.oneshots hne
            rw [hagenda, comesFirst_cons (by decide) (by decide)] at hfirst
            exact hfirst
        | some e => simp [aborts, hstack, htau] at haborts

/-- No step of `promise_task` comes to the wait. -/
theorem runPromiseTask_top (hrest : .waiting ∉ rest)
    (hl : c.runPromiseTask epoch control rest = some c') :
    c'.stack.head? ≠ some .waiting ∧ .waiting ∉ c'.stack.tail := by
  rw [Config.runPromiseTask] at hl
  split at hl
  · obtain rfl := Option.some.inj hl
    simp
  · obtain ⟨⟨s, control'⟩, htau, rfl⟩ := Option.map_eq_some_iff.mp hl
    cases control' with
    | idle | turn | callBack | handler => simp [afterPromise, hrest]
    | done exit =>
        cases exit with
        | none => exact top_of_subset hrest (List.Subset.refl rest)
        | some e => exact top_of_subset hrest (unwind_subset rest)

theorem Orderly.step {backend : Backend} {l : Label V E F} (h : c.Orderly)
    (hguard : c.QueuesInTime backend l) (hl : Thread.step backend c l = some c') :
    c'.Orderly := by
  have hdisturbs (hd : (l.disturbs || c.aborts l) = true) : c'.Served := hguard hd c' hl
  have hserved {top : Frame E F} {rest : List (Frame E F)} (hstack : c.stack = top :: rest) :
      c.Served := h.served.resolve_left (by simp [hstack])
  have hbelow {top : Frame E F} {rest : List (Frame E F)} (hstack : c.stack = top :: rest) :
      .waiting ∉ rest := by simpa [hstack] using h.below
  cases stepped hl with
  | promiseInit rest stack | reactorInit rest stack | op rest o stack | oneshot rest stack =>
      exact ⟨.inr (hdisturbs rfl), by simp [stack], h.below⟩
  | runOnce rest stack | run rest stack =>
      refine ⟨.inr (hdisturbs rfl), by simp, ?_⟩
      simp [stack, hbelow stack]
  | throw_ frame rest stack =>
      have htop := top_of_subset (hbelow stack) (unwind_subset (frame :: rest))
      exact ⟨.inr (hdisturbs rfl), fun hw => absurd hw htop.1, htop.2⟩
  | add rest stack =>
      exact ⟨.inr ((hserved stack).of_agenda (agenda_add c) rfl rfl), by simp [stack], h.below⟩
  | return_ frame rest stack =>
      have htop := top_of_subset (hbelow stack) (List.Subset.refl _)
      refine ⟨.inr ((hserved stack).of_agenda ?_ rfl rfl), fun hw => absurd hw htop.1, htop.2⟩
      simp [agenda, stack, Frame.services]
  | finish epoch i p j outer f rest promises result stack =>
      have hrest : .waiting ∉ rest := fun hmem => hbelow stack (List.mem_cons_of_mem _ hmem)
      refine ⟨.inr ((hserved stack).promiseTask [.promiseTask epoch (.callBack i p (j + 1))] ?_
        promises rfl), by simp, hrest⟩
      simp [agenda, stack, Frame.services]
  | permanent next rest stack =>
      obtain ⟨hnext, hwaiting⟩ := (hserved stack).callPermanent stack
      refine ⟨.inr hnext, hwaiting, ?_⟩
      have hrest := hbelow stack
      rw [Config.callPermanent]
      split <;> simp [hrest]
  | oneshots epoch next rest stack =>
      have htop : (c.callOneshot epoch next rest).stack.head? ≠ some .waiting ∧
          .waiting ∉ (c.callOneshot epoch next rest).stack.tail := by
        rw [Config.callOneshot]
        split
        · simp
        · split
          · simp [hbelow stack]
          · exact top_of_subset (hbelow stack) (List.Subset.refl rest)
      exact ⟨(hserved stack).callOneshot stack, fun hw => absurd hw htop.1, htop.2⟩
  | forever rest stack =>
      have hfirst (a b : Service) : comesFirst a b
          (agenda { c with stack := .permanents 0 :: c.stack }) = comesFirst a b c.agenda := by
        simp only [agenda, stack, List.flatMap_cons, Frame.services, List.drop_zero,
          List.append_assoc, comesFirst_append_self]
      refine ⟨.inr ⟨fun hne => ?_, fun hne => ?_⟩, by simp, ?_⟩
      · rw [hfirst]
        exact (hserved stack).oneshots hne
      · rw [hfirst]
        exact (hserved stack).promises hne
      · simp [stack, hbelow stack]
  | promiseTask epoch control rest c' stack runs =>
      by_cases haborts : c.aborts (.tau : Label V E F) = true
      · have htop := runPromiseTask_top (hbelow stack) runs
        exact ⟨.inr (hdisturbs (by simp [haborts])), fun hw => absurd hw htop.1, htop.2⟩
      · have htop := runPromiseTask_top (hbelow stack) runs
        exact ⟨(hserved stack).runPromiseTask stack (by simpa using haborts) runs,
          fun hw => absurd hw htop.1, htop.2⟩
  | events n rest stack =>
      refine ⟨.inr ((hserved stack).of_agenda ?_ rfl rfl), by simp, hbelow stack⟩
      simp [agenda, stack, Frame.services]
  | queryFails rest stack =>
      have hnothing := h.waiting (by simp [stack])
      have htop := top_of_subset (hbelow stack) (unwind_subset rest)
      exact ⟨.inr (.of_nothing hnothing), fun hw => absurd hw htop.1, htop.2⟩
  | noEvents rest stack =>
      have htop := top_of_subset (hbelow stack) (List.Subset.refl _)
      refine ⟨.inr ((hserved stack).of_agenda ?_ rfl rfl), fun hw => absurd hw htop.1, htop.2⟩
      simp [agenda, stack, Frame.services]
  | event n rest stack =>
      refine ⟨.inr ((hserved stack).of_agenda ?_ rfl rfl), by simp, by simp [hbelow stack]⟩
      simp [agenda, stack, Frame.services]
  | ignored n rest stack =>
      refine ⟨.inr ((hserved stack).of_agenda ?_ rfl rfl), by simp, hbelow stack⟩
      simp [agenda, stack, Frame.services]

omit [Blank V] [FnTrait F E] in
theorem Orderly.initial : Orderly ({} : Config V E F) where
  served := .inr (.of_nothing ⟨rfl, rfl⟩)
  waiting := by simp
  below := by simp

end Promises

end Config

section Machine

variable [Blank V] [FnTrait F E] {backend : Backend} {c : Config V E F} {ls : List (Label V E F)}

/-- On FreeBSD the reactor never blocks. On Linux it never blocks while anything is runnable, if
all work is queued where the loop comes to its queue before it comes to `reactor_task`. -/
theorem reactor_never_blocks_runnable_work
    (hguard : backend = .epoll → EachStep (step backend) (Config.QueuesInTime backend) {} ls)
    (hvisits : Visits (step backend) {} ls c) (hblocks : c.Blocks backend) :
    c.NothingRunnable := by
  obtain ⟨before, hbefore, hc⟩ := hvisits
  have hall := hguard hblocks.1
  have horderly : c.Orderly := run_invariant (fun _ _ _ h hg hl => h.step hg hl) .initial
    (hall.of_prefix hbefore) hc
  exact horderly.waiting hblocks.2

end Machine

/-- The promise module is initialised first. The main program resolves a promise, whose handler is
called before the wait. -/
def timelyRun : List (Label ℕ ℕ SampleHandler) :=
  [.promiseInit, .reactorInit, .op .promise, .op (.then_ 0 (.plain 0)), .op (.resolve 0 7),
    .runOnce, .tau, .tau, .tau, .finish (.returned (.value 8)), .tau, .tau, .tau, .tau, .tau]

/-- The target of an event adds a oneshot task, and the call of `run_once` comes to its end. -/
def timelyRest : List (Label ℕ ℕ SampleHandler) :=
  [.events 1, .tau, .oneshot, .return_, .tau, .tau, .tau, .return_, .tau, .return_]

theorem reactor_never_blocks_runnable_work_sample : ∃ c : Config ℕ ℕ SampleHandler,
    run (step .epoll) {} timelyRun = some c ∧ c.Blocks .epoll ∧ c.NothingRunnable := by
  obtain ⟨c, hrun, hguard, hblocks⟩ : ∃ c : Config ℕ ℕ SampleHandler,
      run (step .epoll) {} timelyRun = some c ∧
        EachStep (step .epoll) (Config.QueuesInTime .epoll) {} (timelyRun ++ timelyRest) ∧
        c.Blocks .epoll := ⟨_, rfl, by decide +kernel, rfl, rfl⟩
  refine ⟨c, hrun, hblocks, reactor_never_blocks_runnable_work (fun _ => hguard) ?_ hblocks⟩
  exact ⟨timelyRun, List.prefix_append _ _, hrun⟩

/-- A oneshot task that is added before `run_once` waits for an event of the reactor, and so does a
promise that is resolved when `reactor_task` is the first task. -/
theorem reactor_blocks_runnable_work :
    (∃ c : Config ℕ ℕ SampleHandler,
      run (step .epoll) {} [.promiseInit, .reactorInit, .oneshot, .runOnce, .tau, .tau, .tau] =
        some c ∧ c.Blocks .epoll ∧ c.oneshotQueue = [.user] ∧ ¬ c.NothingRunnable) ∧
    ∃ c : Config ℕ ℕ SampleHandler,
      run (step .epoll) {} [.reactorInit, .promiseInit, .op .promise, .op (.resolve 0 7), .runOnce,
        .tau] = some c ∧ c.Blocks .epoll ∧ c.promises.queue = [0] ∧ ¬ c.NothingRunnable := by
  constructor
  · refine ⟨_, rfl, ⟨rfl, rfl⟩, rfl, ?_⟩
    rintro ⟨honeshots, -⟩
    cases honeshots
  · refine ⟨_, rfl, ⟨rfl, rfl⟩, rfl, ?_⟩
    rintro ⟨-, hpromises⟩
    cases hpromises

end Libasync.Thread
