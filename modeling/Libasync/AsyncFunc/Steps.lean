import Libasync.AsyncFunc.Model
import Libasync.Promise.Delivery

/-! # The transitions of the async function machine

The relation is the step function read backwards, with the run of the promise module that each
step consists of. -/

namespace Libasync.AsyncFunc

open Promise Generator Foundation Automaton

/-- Code that only ends. -/
def ending {V E : Type*} : Except (Exn E) (Return V) → BodyCode V E
  | .ok r => .ret r
  | .error e => .raise e

variable {V E F : Type*} [Blank V] [FnTrait F E] [GeneratorError E]

/-- The promise module after `then` on the awaited promise. -/
def Config.thenAwaited (c : Config V E F) (gen : GenRef) (p : Ref) :
    State V E (Handler F) × Ref :=
  c.promises.state.then_ p (.next gen)

/-- The record of an `await` that begins now. -/
def Config.awaitOf (c : Config V E F) (gen : GenRef) (p : Ref) : Await where
  gen := gen
  promise := p
  onValue := (c.thenAwaited gen p).2
  onError := ((c.thenAwaited gen p).1.catch_ p (.throw_ gen)).2

def registers (gen : GenRef) (p : Ref) : List (Promise.Label V E (Handler F)) :=
  [.op (.then_ p (.next gen)), .op (.catch_ p (.throw_ gen))]

/-- A generator after the call of `_gen.next(nullptr)`. -/
def startedGen (promise : Ref) (body : Body V E) : AsyncGen V E where
  promise := promise
  data := { executor := body.code, inVal := some Blank.blank, status := .running }

inductive Step : Config V E F → Label V E F → Config V E F → Prop where
  | op (c o promises) (user : c.userCode = true)
      (context : ∀ g ∈ c.gens, o.context? ≠ some g.promise)
      (run : Promise.Step c.promises (.op (userOp o)) promises) :
      Step c (.op o) { c with promises }
  | called (c body promises) (user : c.userCode = true)
      (run : Promise.Step c.promises (.op .promise) promises) :
      Step c (.call body)
        { c with
          promises
          gens := c.gens ++ [startedGen c.promises.state.heap.length body]
          stack := .code c.gens.length .call body.code :: c.stack }
  | start (c promises) (user : c.userCode = true)
      (run : Promise.Step c.promises .promiseTask promises) :
      Step c .promiseTask
        { c with promises, stack := .task :: c.stack, blocks := 0 :: c.blocks }
  | loop (c promises rest) (top : c.stack = .task :: rest) (quiet : c.awaitHandler? = none)
      (run : Promise.Step c.promises .tau promises) :
      Step c .tau { c with promises }
  | finish (c result promises rest) (top : c.stack = .task :: rest) (user : c.userCode = true)
      (ended : c.blocks.head? = some 0)
      (run : Promise.Step c.promises (.finish result) promises) :
      Step c (.finish result) { c with promises }
  | leave (c promises rest) (top : c.stack = .task :: rest)
      (run : Promise.Step c.promises .resume promises) :
      Step c .resume { c with promises, stack := rest, blocks := c.blocks.tail }
  | resumed (c p outer f gen g status answer data data' code)
      (handler : c.awaitHandler? = some (p, outer, f)) (gen_eq : f.gen? = some gen)
      (get : c.gens[gen]? = some g)
      (status_eq : (c.promises.state.get? p).map PromiseData.status = some status)
      (sent : Config.handle g.data f status = some (answer, .switched data))
      (enters : data.enter = some (data', code)) :
      Step c .tau
        { (c.record (.resumed gen outer g.data.status answer)).setData gen data' with
          stack := .code gen .handler code :: c.stack }
  | refused (c p outer f gen g status answer sent result promises)
      (handler : c.awaitHandler? = some (p, outer, f)) (gen_eq : f.gen? = some gen)
      (get : c.gens[gen]? = some g)
      (status_eq : (c.promises.state.get? p).map PromiseData.status = some status)
      (handled : Config.handle g.data f status = some (answer, sent))
      (refuses : ∀ data, sent ≠ .switched data)
      (run : Promise.Step c.promises (.finish result) promises) :
      Step c .tau
        { c.record (.resumed gen outer g.data.status answer) with promises }
  | awaits (c gen caller p k stack g data promises)
      (top : c.stack = .code gen caller (.ask p k) :: stack) (get : c.gens[gen]? = some g)
      (yields : g.data.yield_ () k = .ok data)
      (runs : run Promise.step c.promises (registers gen p ++ Config.returnTo caller) =
        some promises) :
      Step c .tau
        ({ ({ c with promises } : Config V E F).setData gen data with stack }.record
          (.awaits (c.awaitOf gen p)))
  | notRunning (c gen caller p k stack g e promises)
      (top : c.stack = .code gen caller (.ask p k) :: stack) (get : c.gens[gen]? = some g)
      (yields : g.data.yield_ () k = .error e)
      (runs : run Promise.step c.promises (registers gen p) = some promises) :
      Step c .tau { c with promises, stack := .code gen caller (k (.error e)) :: stack }
  | finished (c gen caller result stack g promises)
      (top : c.stack = .code gen caller (ending result) :: stack)
      (get : c.gens[gen]? = some g)
      (runs : run Promise.step c.promises
        (.op (settleOp g.promise result) :: Config.returnTo caller) = some promises) :
      Step c .tau
        ({ ({ c with promises } : Config V E F).setData gen (g.data.finish ()) with stack }.record
          (.finished gen result))
  | caught (c gen caller e rest stack)
      (top : c.stack = .code gen caller (.beginCatch e rest) :: stack) :
      Step c .tau
        { c with caught := ⟨some gen, e⟩ :: c.caught, stack := .code gen caller rest :: stack }
  | looked (c gen caller k stack x)
      (top : c.stack = .code gen caller (.current k) :: stack) (head : c.caught.head? = some x) :
      Step c .tau { c with stack := .code gen caller (k x.error) :: stack }
  | left (c gen caller rest stack)
      (top : c.stack = .code gen caller (.endCatch rest) :: stack) :
      Step c .tau { c with caught := c.caught.tail, stack := .code gen caller rest :: stack }
  | beginCatch (c error n blocks) (outside : c.outside = true)
      (blocks_eq : c.blocks = n :: blocks) :
      Step c (.beginCatch error)
        { c with caught := ⟨none, error⟩ :: c.caught, blocks := (n + 1) :: blocks }
  | endCatch (c n blocks) (outside : c.outside = true) (blocks_eq : c.blocks = (n + 1) :: blocks) :
      Step c .endCatch { c with caught := c.caught.tail, blocks := n :: blocks }

omit [GeneratorError E] in
theorem promiseSteps_eq_some {c c' : Config V E F} {ls : List (Promise.Label V E (Handler F))}
    (h : c.promiseSteps ls = some c') :
    ∃ promises, run Promise.step c.promises ls = some promises ∧ c' = { c with promises } := by
  obtain ⟨promises, hrun, rfl⟩ := Option.map_eq_some_iff.mp h
  exact ⟨promises, hrun, rfl⟩

omit [GeneratorError E] in
theorem promiseSteps_singleton {c c' : Config V E F} {l : Promise.Label V E (Handler F)}
    (h : c.promiseSteps [l] = some c') :
    ∃ promises, Promise.Step c.promises l promises ∧ c' = { c with promises } := by
  obtain ⟨promises, hrun, rfl⟩ := promiseSteps_eq_some h
  obtain ⟨promises', hstep, hrest⟩ := run_cons_eq_some _ hrun
  obtain rfl := Option.some.inj hrest
  exact ⟨promises', .of_step hstep, rfl⟩

theorem Step.of_call {c c' : Config V E F} {body : Body V E} (user : c.userCode = true)
    (h : c.call body = some c') : Step c (.call body) c' := by
  obtain ⟨called, hcalled, h⟩ := Option.bind_eq_some_iff.mp h
  obtain ⟨promises, hrun, rfl⟩ := promiseSteps_singleton hcalled
  simp only [GenData.next, Config.runGenerator, GenData.enter, Option.map_some,
    Option.some.injEq] at h
  subst h
  have hset := Step.called c body promises user hrun
  simpa only [Config.setData, modify_concat, startedGen] using hset

theorem Step.of_await {c c' : Config V E F} {gen : GenRef} {caller : Caller} {p : Ref}
    {k : Except (Exn E) V → BodyCode V E} {stack : List (Frame V E)}
    (top : c.stack = .code gen caller (.ask p k) :: stack)
    (h : c.await gen caller p k stack = some c') : Step c .tau c' := by
  unfold Config.await at h
  cases get : c.gens[gen]? with
  | none => simp [get] at h
  | some g =>
      cases yields : g.data.yield_ () k with
      | ok data =>
          simp only [get, yields, Option.map_eq_some_iff] at h
          obtain ⟨awaiting, hawaiting, rfl⟩ := h
          obtain ⟨promises, runs, rfl⟩ := promiseSteps_eq_some hawaiting
          exact .awaits c gen caller p k stack g data promises top get yields runs
      | error e =>
          simp only [get, yields, Option.map_eq_some_iff] at h
          obtain ⟨awaiting, hawaiting, rfl⟩ := h
          obtain ⟨promises, runs, rfl⟩ := promiseSteps_eq_some hawaiting
          exact .notRunning c gen caller p k stack g e promises top get yields runs

theorem Step.of_finish {c c' : Config V E F} {gen : GenRef} {caller : Caller}
    (result : Except (Exn E) (Return V)) {stack : List (Frame V E)}
    (top : c.stack = .code gen caller (ending result) :: stack)
    (h : c.finish gen caller result stack = some c') : Step c .tau c' := by
  unfold Config.finish at h
  cases get : c.gens[gen]? with
  | none => simp [get] at h
  | some g =>
      simp only [get, Option.map_eq_some_iff] at h
      obtain ⟨settled, hsettled, rfl⟩ := h
      obtain ⟨promises, runs, rfl⟩ := promiseSteps_eq_some hsettled
      exact .finished c gen caller result stack g promises top get runs

theorem Step.of_runAwaitHandler {c c' : Config V E F} {p outer : Ref} {f : Handler F}
    (handler : c.awaitHandler? = some (p, outer, f))
    (h : c.runAwaitHandler p outer f = some c') : Step c .tau c' := by
  unfold Config.runAwaitHandler at h
  cases gen_eq : f.gen? with
  | none => simp [gen_eq] at h
  | some gen =>
      cases get : c.gens[gen]? with
      | none => simp [gen_eq, get] at h
      | some g =>
          cases status_eq : (c.promises.state.get? p).map PromiseData.status with
          | none => simp [gen_eq, get, status_eq] at h
          | some status =>
              cases handled : Config.handle g.data f status with
              | none => simp [gen_eq, get, status_eq, handled] at h
              | some answered =>
                  obtain ⟨answer, sent⟩ := answered
                  cases sent with
                  | switched data =>
                      simp only [gen_eq, get, status_eq, handled, Config.runGenerator,
                        Option.map_eq_some_iff, Prod.exists] at h
                      obtain ⟨data', code, enters, rfl⟩ := h
                      exact .resumed c p outer f gen g status answer data data' code handler
                        gen_eq get status_eq handled enters
                  | returned outVal =>
                      simp only [gen_eq, get, status_eq, handled] at h
                      obtain ⟨promises, hrun, rfl⟩ := promiseSteps_singleton h
                      exact .refused c p outer f gen g status answer _ _ promises handler gen_eq
                        get status_eq handled (by simp) hrun
                  | threw e =>
                      simp only [gen_eq, get, status_eq, handled] at h
                      obtain ⟨promises, hrun, rfl⟩ := promiseSteps_singleton h
                      exact .refused c p outer f gen g status answer _ _ promises handler gen_eq
                        get status_eq handled (by simp) hrun

theorem Step.of_tau {c c' : Config V E F} (h : c.tau = some c') : Step c .tau c' := by
  unfold Config.tau at h
  cases top : c.stack with
  | nil => simp [top] at h
  | cons frame stack =>
      cases frame with
      | task =>
          cases handler : c.awaitHandler? with
          | none =>
              simp only [top, handler] at h
              obtain ⟨promises, hrun, rfl⟩ := promiseSteps_singleton h
              exact .loop c promises stack top handler hrun
          | some awaited =>
              obtain ⟨p, outer, f⟩ := awaited
              simp only [top, handler] at h
              exact .of_runAwaitHandler handler h
      | code gen caller rest =>
          cases rest with
          | ret r =>
              simp only [top] at h
              exact .of_finish (.ok r) top h
          | raise e =>
              simp only [top] at h
              exact .of_finish (.error e) top h
          | ask p k =>
              simp only [top] at h
              exact .of_await top h
          | beginCatch e rest =>
              simp only [top, Option.some.injEq] at h
              subst h
              exact .caught c gen caller e rest stack top
          | current k =>
              simp only [top] at h
              obtain ⟨x, head, rfl⟩ := Option.map_eq_some_iff.mp h
              exact .looked c gen caller k stack x top head
          | endCatch rest =>
              simp only [top, Option.some.injEq] at h
              subst h
              exact .left c gen caller rest stack top

theorem Step.of_step {c c' : Config V E F} {l : Label V E F} (h : step c l = some c') :
    Step c l c' := by
  cases l with
  | op o =>
      simp only [step, Option.ite_none_right_eq_some, Bool.and_eq_true] at h
      obtain ⟨⟨user, context⟩, h⟩ := h
      obtain ⟨promises, hrun, rfl⟩ := promiseSteps_singleton h
      refine .op c o promises user ?_ hrun
      intro g hg
      simpa using List.all_eq_true.mp context g hg
  | call body =>
      simp only [step, Option.ite_none_right_eq_some] at h
      exact .of_call h.1 h.2
  | promiseTask =>
      simp only [step, Option.ite_none_right_eq_some, Option.map_eq_some_iff] at h
      obtain ⟨user, started, h, rfl⟩ := h
      obtain ⟨promises, hrun, rfl⟩ := promiseSteps_singleton h
      exact .start c promises user hrun
  | tau => exact .of_tau h
  | finish result =>
      simp only [step] at h
      split at h
      · rename_i rest top
        simp only [Option.ite_none_right_eq_some, Bool.and_eq_true, decide_eq_true_eq] at h
        obtain ⟨⟨user, ended⟩, h⟩ := h
        obtain ⟨promises, hrun, rfl⟩ := promiseSteps_singleton h
        exact .finish c result promises rest top user ended hrun
      · cases h
  | resume =>
      simp only [step] at h
      split at h
      · rename_i rest top
        obtain ⟨left, hleft, rfl⟩ := Option.map_eq_some_iff.mp h
        obtain ⟨promises, hrun, rfl⟩ := promiseSteps_singleton hleft
        exact .leave c promises rest top hrun
      · cases h
  | beginCatch error =>
      simp only [step] at h
      split at h
      · rename_i n blocks blocks_eq
        simp only [Option.ite_none_right_eq_some, Option.some.injEq] at h
        obtain ⟨outside, rfl⟩ := h
        exact .beginCatch c error n blocks outside blocks_eq
      · cases h
  | endCatch =>
      simp only [step] at h
      split at h
      · rename_i n blocks blocks_eq
        simp only [Option.ite_none_right_eq_some, Option.some.injEq] at h
        obtain ⟨outside, rfl⟩ := h
        exact .endCatch c n blocks outside blocks_eq
      · cases h

/-! ### Runs -/

/-- The start of the program: no promise exists and no async function has been called. -/
def Config.initial : Config V E F := {}

/-- The run of these labels from the start of the program ends in this configuration. -/
def RunsTo (ls : List (Label V E F)) (c : Config V E F) : Prop :=
  run step Config.initial ls = some c

/-- In this run no handler meets an error of another type than it declares. -/
def NoMismatch (ls : List (Label V E F)) : Prop :=
  EachStep step (fun c _ => c.promises.failing? = none) Config.initial ls

omit [Blank V] [FnTrait F E] [GeneratorError E] in
/-- Where the code that has control looks for a caught exception or ends a `catch` block, the
innermost exception of the thread is one that it has caught itself. -/
def Config.findsOwn (c : Config V E F) (l : Label V E F) : Bool :=
  match c.stack, l with
  | .code _ _ (.current _) :: _, .tau | .code _ _ (.endCatch _) :: _, .tau | _, .endCatch =>
      decide (c.caught.head?.map Caught.owner = some c.runningGen?)
  | _, _ => true

/-- In this run everyone finds the exceptions of their own `catch` blocks. -/
def FindsOwn (ls : List (Label V E F)) : Prop :=
  EachStep step (fun c l => c.findsOwn l = true) Config.initial ls

/-- An invariant of the steps that meet no error of another type and no exception of others. -/
theorem RunsTo.invariant {I : Config V E F → Prop} (hinit : I Config.initial)
    (hstep : ∀ c l c', I c → c.promises.failing? = none → c.findsOwn l = true → Step c l c' →
      I c')
    {ls : List (Label V E F)} {c : Config V E F} (h : RunsTo ls c) (hm : NoMismatch ls)
    (ho : FindsOwn ls) : I c := by
  have hboth : EachStep step (fun c l => c.promises.failing? = none ∧ c.findsOwn l = true)
      (Config.initial : Config V E F) ls := fun front l rest t hls ht =>
    ⟨hm front l rest t hls ht, ho front l rest t hls ht⟩
  exact run_invariant (fun c l c' hc hg hl => hstep c l c' hc hg.1 hg.2 (.of_step hl)) hinit hboth h

end Libasync.AsyncFunc
