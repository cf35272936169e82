import Libasync.AsyncFunc.Bodies

/-! # Async functions mean what their bodies mean

The outcome of a finished body is that of its direct evaluation against the outcomes of the
promises, however the bodies, the handlers and the settling of promises are interleaved, as long as
nobody finds an exception that another body has caught. -/

namespace Libasync.AsyncFunc

open Promise Generator Foundation Code Automaton

variable {V E F : Type*} [Blank V] [FnTrait F E]

/-! ### Reachable configurations -/

theorem Sound.initial : Sound (Config.initial : Config V E F) := by
  refine ⟨.initial, .initial, ⟨trivial, by simp [Config.initial], ?_, ?_, ?_, ?_, ?_⟩,
    ⟨?_, ?_, ?_, ?_, ?_, ?_, ?_, ?_⟩⟩ <;>
    simp [Config.initial, Config.awaitHandler?, runningAwaitHandler?, Config.caughtBy]

/-! ### Blocks -/

omit [Blank V] [FnTrait F E] in
theorem runningGen?_of_outside {c : Config V E F} (h : c.outside = true) :
    c.runningGen? = none := by
  cases hstack : c.stack with
  | nil => simp [Config.runningGen?, hstack]
  | cons frame stack =>
      cases frame with
      | task => simp [Config.runningGen?, hstack]
      | code gen caller code => simp [Config.outside, hstack, runsOutside] at h

omit [Blank V] [FnTrait F E] in
theorem Config.findsOwn_endCatch {c : Config V E F} (h : c.findsOwn .endCatch = true) :
    c.caught.head?.map Caught.owner = some c.runningGen? := by
  simp only [findsOwn] at h
  exact of_decide_eq_true h

theorem Sound.catches {c : Config V E F} {gen : GenRef} {caller : Caller} {e : Exn E}
    {rest : BodyCode V E} {stack : List (Frame V E)} (h : Sound c)
    (top : c.stack = .code gen caller (.beginCatch e rest) :: stack) :
    Sound { c with
      caught := ⟨some gen, e⟩ :: c.caught
      stack := .code gen caller rest :: stack } := by
  refine h.goesOn top rfl rfl rfl rfl ?_ ?_
  · intro i hi
    exact List.filterMap_cons_none (by?_of_ne (by simp [Ne.symm hi]))
  · intro body hreaches
    have hcaught : (⟨some gen, e⟩ :: c.caught).filterMap (Caught.by? gen) = e :: c.caughtBy gen :=
      List.filterMap_cons_some (by?_self gen e)
    change Reaches c.oracle body ((⟨some gen, e⟩ :: c.caught).filterMap (Caught.by? gen)) rest
    rw [hcaught]
    exact hreaches.began

/-- The body finds the exception of its innermost block. -/
theorem Sound.looks {c : Config V E F} {gen : GenRef} {caller : Caller} {x : Caught E}
    {k : Exn E → BodyCode V E} {stack : List (Frame V E)} (h : Sound c)
    (top : c.stack = .code gen caller (.current k) :: stack) (head : c.caught.head? = some x)
    (own : x.owner = some gen) :
    Sound { c with stack := .code gen caller (k x.error) :: stack } := by
  refine h.goesOn top rfl rfl rfl rfl (fun _ _ => rfl) ?_
  intro body hreaches
  obtain ⟨rest, hrest⟩ := List.head?_eq_some_iff.mp head
  have hcaught : c.caughtBy gen = x.error :: rest.filterMap (Caught.by? gen) := by
    rw [Config.caughtBy, hrest]
    exact List.filterMap_cons_some (by simp [Caught.by?, own])
  change Reaches c.oracle body (c.caughtBy gen) (k x.error)
  rw [hcaught] at hreaches ⊢
  exact hreaches.read

/-- The exception of the body's innermost block is let go of. -/
theorem Sound.leavesBlock {c : Config V E F} {gen : GenRef} {caller : Caller}
    {rest : BodyCode V E} {stack : List (Frame V E)} (h : Sound c)
    (top : c.stack = .code gen caller (.endCatch rest) :: stack)
    (own : c.caught.head?.map Caught.owner = some (some gen)) :
    Sound { c with caught := c.caught.tail, stack := .code gen caller rest :: stack } := by
  obtain ⟨x, hx, howner⟩ := Option.map_eq_some_iff.mp own
  obtain ⟨caught, hcaught⟩ := List.head?_eq_some_iff.mp hx
  refine h.goesOn top rfl rfl rfl rfl ?_ ?_
  · intro i hi
    have hnone : Caught.by? i x = none := by?_of_ne (by simp [howner, Ne.symm hi])
    simp [Config.caughtBy, hcaught, hnone]
  · intro body hreaches
    have hsome : Caught.by? gen x = some x.error := by simp [Caught.by?, howner]
    have hown : c.caughtBy gen = x.error :: caught.filterMap (Caught.by? gen) := by
      rw [Config.caughtBy, hcaught]
      exact List.filterMap_cons_some hsome
    rw [hown] at hreaches
    simpa [Config.caughtBy, hcaught] using hreaches.ended

variable [GeneratorError E]

theorem Sound.step {c c' : Config V E F} {l : Label V E F} (h : Sound c)
    (hm : c.promises.failing? = none) (ho : c.findsOwn l = true) (hstep : Step c l c') :
    Sound c' := by
  cases hstep with
  | op o promises user context run => exact h.op user context run
  | called body promises user run => exact h.call user run rfl
  | start promises user run => exact h.start user run
  | loop promises rest top quiet run => exact h.loop hm top quiet run
  | finish result promises rest top user ended run => exact h.finish top user run
  | leave promises rest top run => exact h.leave top run
  | resumed p outer f gen g status answer data data' code handler gen_eq get status_eq sent
      enters => exact h.resume handler gen_eq get status_eq sent enters rfl
  | refused p outer f gen g status answer sent result promises handler gen_eq get status_eq
      handled refuses run =>
      obtain ⟨data, hsent⟩ := h.not_refused handler gen_eq get handled
      exact absurd hsent (refuses data)
  | awaits gen caller p k stack g data promises top get yields runs =>
      exact h.await top get yields runs rfl
  | notRunning gen caller p k stack g e promises top get yields runs =>
      have hrunning := (h.gens.innermost top get).1
      simp [GenData.yield_of_running hrunning] at yields
  | finished gen caller result stack g promises top get runs => exact h.end_ top get runs rfl
  | caught gen caller e rest stack top => exact h.catches top
  | looked gen caller k stack x top head =>
      refine h.looks top head ?_
      simpa [Config.findsOwn, top, head, Config.runningGen?] using ho
  | left gen caller rest stack top =>
      refine h.leavesBlock top ?_
      simpa [Config.findsOwn, top, Config.runningGen?] using ho
  | beginCatch error n blocks outside blocks_eq =>
      exact h.outsideBlock outside fun gen => List.filterMap_cons_none (by?_of_ne (by simp))
  | endCatch n blocks outside blocks_eq =>
      have hfound := Config.findsOwn_endCatch ho
      rw [runningGen?_of_outside outside] at hfound
      obtain ⟨x, hx, howner⟩ := Option.map_eq_some_iff.mp hfound
      obtain ⟨caught, hcaught⟩ := List.head?_eq_some_iff.mp hx
      refine h.outsideBlock outside fun gen => ?_
      have hnone : Caught.by? gen x = none := by?_of_ne (by simp [howner])
      simp [Config.caughtBy, hcaught, hnone]

theorem RunsTo.sound {ls : List (Label V E F)} {c : Config V E F} (h : RunsTo ls c)
    (hm : NoMismatch ls) (ho : FindsOwn ls) : Sound c :=
  h.invariant .initial (fun _ _ _ => Sound.step) hm ho

/-! ### Resumptions -/

omit [GeneratorError E] in
/-- No await is waiting for a settled promise when the queue has been drained. -/
theorem Sound.not_waiting {c : Config V E F} {a : Await} {answer : Except (Exn E) V}
    (h : Sound c) (hmem : .awaits a ∈ c.log) (hd : Drained c.promises.state)
    (hanswer : c.oracle a.promise = some answer) : ¬ Waiting c a := by
  intro hwaiting
  obtain ⟨status, hstatus, hne, -⟩ := oracle_eq_some hanswer
  obtain ⟨data, hget, rfl⟩ := Option.map_eq_some_iff.mp hstatus
  cases hside : data.status.side? with
  | none => exact hne (PromiseStatus.side?_eq_none.mp hside)
  | some side =>
      have hpassed : c.promises.control.passed = fun _ => 0 := by
        funext q
        cases hcurrent : c.promises.control.current? with
        | none =>
            cases hcontrol : c.promises.control <;>
              simp_all [Control.current?, Control.passed]
        | some p =>
            have hentry := h.queue.current p hcurrent
            simp [hd.queue] at hentry
      have hrecorded := h.recorded
      rw [hpassed] at hrecorded
      have hreg := (h.awaits.sound a hmem).registered side ⟨_, hstatus, .inr hside⟩
      obtain ⟨turn, arg, -, hcalls⟩ :=
        (hrecorded.deliveredOnce hd).exactly_once side a.promise _ _ data hreg hget hside
      have hcall : .called turn a.promise (a.outer side) (a.handler side) arg ∈
          c.promises.state.log := by
        refine List.mem_of_mem_filter (p := fun e => e.callOf? = some (a.outer side)) ?_
        rw [hcalls]
        exact List.mem_singleton_self _
      -- the handler would still have control, in the turn of its promise
      obtain ⟨-, i, j, -, -, hcontrol, -⟩ :=
        runningAwaitHandler?_eq_some (hwaiting.called side _ _ _ _ hcall)
      have hentry := h.queue.current a.promise (by simp [hcontrol, Control.current?])
      simp [hd.queue] at hentry

/-! ### The main result -/

/-- The promise returned by the call is settled as direct evaluation says. A promise that the
body returns is adopted. -/
def Returns (s : State V E (Handler F)) (promise : Ref) : Except (Exn E) (Return V) → Prop
  | .ok (.value v) => s.status? promise = some (.resolved v)
  | .ok .void => s.status? promise = some (.resolved Blank.blank)
  | .ok (.promise q) =>
      (s.status? promise ≠ some .pending → s.status? promise = s.status? q) ∧
        (Drained s → s.status? promise = s.status? q)
  | .error e => s.status? promise = some (.rejected e)

omit [FnTrait F E] [GeneratorError E] in
theorem Settles.returns {P : Promise.Config V E (Handler F)} {promise : Ref}
    {result : Except (Exn E) (Return V)} (h : Settles P promise result) :
    Returns P.state promise result := by
  cases result with
  | error e => exact h
  | ok r =>
      cases r with
      | value v => exact h
      | void => exact h
      | promise q =>
          rcases h with ⟨hu, data, hdata, hmem⟩ | ⟨status, hne, hp, hq⟩
          · refine ⟨fun hp => absurd hu.pending hp, ?_⟩
            intro hd
            cases hside : data.status.side? with
            | none =>
                rw [hu.pending]
                simp [State.status?, hdata, PromiseStatus.side?_eq_none.mp hside]
            | some side =>
                have hne : data.status ≠ .pending := by
                  intro hp
                  simp [hp, PromiseStatus.side?] at hside
                have hempty := hd.waiting q data side hdata hne
                simpa [hempty] using hmem side (.inr hside)
          · exact ⟨fun _ => hp.trans hq.symm, fun _ => hp.trans hq.symm⟩

/-- Async functions behave as their bodies in direct style. -/
structure DirectStyle (c : Config V E F) : Prop where
  never_twice : ∀ a, .awaits a ∈ c.log → (resumptions a c.log).length ≤ 1
  exactly_once : Drained c.promises.state → ∀ a, .awaits a ∈ c.log → ∀ answer,
    c.oracle a.promise = some answer → ∃ side, c.promises.state.SettledOn side a.promise ∧
      resumptions a c.log = [.resumed a.gen (a.outer side) .suspended answer]
  only_suspended : ∀ gen outer status answer, .resumed gen outer status answer ∈ c.log →
    status = .suspended ∧ ∃ a side, .awaits a ∈ c.log ∧ gen = a.gen ∧ outer = a.outer side
  result : ∀ gen result, .finished gen result ∈ c.log → ∃ g, c.gens[gen]? = some g ∧
    g.data.executor.eval c.oracle [] = some result ∧ Returns c.promises.state g.promise result
  /-- when nothing is left to do, the bodies that direct evaluation can finish are finished -/
  completes : Drained c.promises.state → ∀ (gen : GenRef) g result, c.gens[gen]? = some g →
    g.data.status ≠ .running → g.data.executor.eval c.oracle [] = some result →
    .finished gen result ∈ c.log

omit [GeneratorError E] in
theorem Sound.directStyle {c : Config V E F} (h : Sound c) : DirectStyle c where
  never_twice a hmem := by
    rcases (h.awaits.sound a hmem).state with hwaiting | ⟨side, answer, hresumed⟩
    · simp [hwaiting.fresh]
    · simp [hresumed.once]
  exactly_once hd a hmem answer hanswer := by
    rcases (h.awaits.sound a hmem).state with hwaiting | ⟨side, answer', hresumed⟩
    · exact absurd hwaiting (h.not_waiting hmem hd hanswer)
    · obtain rfl := Option.some.inj (hresumed.answered.symm.trans hanswer)
      exact ⟨side, hresumed.settled, hresumed.once⟩
  only_suspended := h.awaits.resumed
  result gen result hmem := by
    obtain ⟨g, hget, -, heval, hsettles⟩ := h.gens.finished gen result hmem
    exact ⟨g, hget, heval, hsettles.returns⟩
  completes hd gen g result hget hrunning heval := by
    cases hstatus : g.data.status with
    | pending => exact absurd hstatus (h.gens.sound gen g hget).started
    | running => exact absurd hstatus hrunning
    | suspended =>
        obtain ⟨a, hmem, rfl, hwaiting⟩ := h.awaits.suspended gen g hget hstatus
        obtain ⟨g', k, hget', -, -, hreaches⟩ := hwaiting.suspended
        obtain rfl := Option.some.inj (hget.symm.trans hget')
        rw [hreaches.eval_eq] at heval
        obtain ⟨answer, hanswer, -⟩ := Option.bind_eq_some_iff.mp heval
        exact absurd hwaiting (h.not_waiting hmem hd hanswer)
    | done =>
        obtain ⟨result', hmem⟩ := (h.gens.sound gen g hget).done hstatus
        obtain ⟨g', hget', -, heval', -⟩ := h.gens.finished gen result' hmem
        obtain rfl := Option.some.inj (hget.symm.trans hget')
        obtain rfl := Option.some.inj (heval.symm.trans heval')
        exact hmem

/-- In every run in which no handler meets an error of another type than it declares and all code
finds the exceptions of its own `catch` blocks, async functions behave as their bodies in direct
style: their awaits of distinct or shared promises
are resumed at most once, and exactly once with the outcome of the promise when it has settled
and the queue is drained; only suspended generators are resumed; and the promise of a finished
call has the result of direct evaluation. -/
theorem async_functions_run_in_direct_style {ls : List (Label V E F)} {c : Config V E F}
    (h : RunsTo ls c) (hm : NoMismatch ls) (ho : FindsOwn ls) : DirectStyle c :=
  (h.sound hm ho).directStyle

/-! ### A concrete run -/

/-- A run can be checked by evaluating its record. -/
theorem exists_runsTo {ls : List (Label V E F)} {log : List (Event V E)}
    (h : (run step Config.initial ls).map Config.log = some log) :
    ∃ c, RunsTo ls c ∧ c.log = log :=
  Option.map_eq_some_iff.mp h

instance : GeneratorError ℕ where
  make
    | .alreadyRunning => 0
    | .notRunning => 1

/-- Awaits promise 0 in a `try` block and returns its value increased by one. -/
def incremented : Body ℕ ℕ where
  code := ((Code.await 0).tryCatch fun _ => .ret 7).bind fun v => .ret (.value (v + 1))
  balanced := ((balanced_await 0).tryCatch fun _ => .ret 7).bind fun _ => .ret _

/-- Awaits promise 0 and throws its value, awaits promise 0 again where this is caught, and throws
on. -/
def rethrown : Body ℕ ℕ where
  code := ((Code.await 0).bind fun v => .raise (.object v)).tryCatch fun _ =>
    (Code.await 0).bind fun _ => rethrow
  balanced := ((balanced_await 0).bind fun _ => .raise _).tryCatch fun _ =>
    (balanced_await 0).bind fun _ => balanced_rethrow

/-- Two async functions await promise 0, the second one once more while the promise is calling
back. -/
def sharedAwaitRun : List (Label ℕ ℕ SampleHandler) :=
  [.op .promise, .call incremented, .tau, .call rethrown, .tau, .op (.resolve 0 8),
    .promiseTask] ++ List.replicate 31 .tau

theorem async_functions_run_in_direct_style_sample :
    ∃ c : Config ℕ ℕ SampleHandler, DirectStyle c ∧
      .finished 0 (.ok (.value 9)) ∈ c.log ∧ .finished 1 (.error (.object 8)) ∈ c.log := by
  obtain ⟨c, h, hlog⟩ : ∃ c, RunsTo sharedAwaitRun c ∧ c.log =
      [.awaits ⟨0, 0, 2, 3⟩, .awaits ⟨1, 0, 5, 6⟩, .resumed 0 2 .suspended (.ok 8),
        .finished 0 (.ok (.value 9)), .resumed 1 5 .suspended (.ok 8), .awaits ⟨1, 0, 8, 10⟩,
        .resumed 1 8 .suspended (.ok 8), .finished 1 (.error (.object 8))] :=
    exists_runsTo (by decide +kernel)
  have hm : NoMismatch sharedAwaitRun := by
    unfold NoMismatch
    decide +kernel
  have ho : FindsOwn sharedAwaitRun := by
    unfold FindsOwn
    decide +kernel
  exact ⟨c, async_functions_run_in_direct_style h hm ho, by simp [hlog], by simp [hlog]⟩

/-- What the second function computes is read off its code. -/
example (oracle : Ref → Option (Except (Exn ℕ) ℕ)) (v : ℕ) (h : oracle 0 = some (.ok v)) :
    rethrown.code.eval oracle [] = some (.error (.object v)) := by
  rw [rethrown, eval_tryCatch_all ((balanced_await 0).bind fun v => .raise _),
    eval_bind_all (balanced_await 0), eval_await, h]
  simp only [Option.bind_some, eval]
  rw [eval_bind_all (balanced_await 0), eval_await, h]
  simp [eval_rethrow]

/-- Throws this, awaits promise 0 where it is caught, and throws on. -/
def throwing (error : ℕ) : Body ℕ ℕ where
  code := (Code.raise (.object error)).tryCatch fun _ => (Code.await 0).bind fun _ => rethrow
  balanced := (Balanced.raise _).tryCatch fun _ => (balanced_await 0).bind fun _ => balanced_rethrow

/-- Two async functions await promise 0 in their `catch` blocks. -/
def twoBlocksRun : List (Label ℕ ℕ SampleHandler) :=
  [.op .promise, .call (throwing 1), .tau, .tau, .call (throwing 2), .tau, .tau,
    .op (.resolve 0 8), .promiseTask] ++ List.replicate 12 .tau

/-- The first function, resumed, finds what the second one has caught, and throws that on. -/
theorem twoBlocksRun_mixes_up : ∃ c : Config ℕ ℕ SampleHandler,
    RunsTo twoBlocksRun c ∧ NoMismatch twoBlocksRun ∧
      .finished 0 (.error (.object 2)) ∈ c.log ∧ ¬ DirectStyle c := by
  obtain ⟨c, h, hobserved⟩ : ∃ c, RunsTo twoBlocksRun c ∧
      (c.log, c.gens[0]?.map fun g => g.data.executor.eval c.oracle []) =
        ([.awaits ⟨0, 0, 2, 3⟩, .awaits ⟨1, 0, 5, 6⟩, .resumed 0 2 .suspended (.ok 8),
          .finished 0 (.error (.object 2)), .resumed 1 5 .suspended (.ok 8),
          .finished 1 (.error (.object 1))], some (some (.error (.object 1)))) :=
    Option.map_eq_some_iff.mp (by decide +kernel)
  obtain ⟨hlog, heval⟩ := Prod.mk.inj hobserved
  have hm : NoMismatch twoBlocksRun := by
    unfold NoMismatch
    decide +kernel
  have hfinished : .finished 0 (.error (.object 2)) ∈ c.log := by simp [hlog]
  refine ⟨c, h, hm, hfinished, fun hdirect => ?_⟩
  obtain ⟨g, hget, hresult, -⟩ := hdirect.result 0 _ hfinished
  simp [hget, hresult] at heval

end Libasync.AsyncFunc
