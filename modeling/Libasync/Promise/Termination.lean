import Libasync.Promise.FirstCall

/-! # Termination of a pass

A handler can make wrappers and enqueue promises while the queue is traversed. What is left to do
is bounded all the same: a promise settles once, each handler runs once, and a handler adds two
internal callbacks and one new promise at most. -/

namespace Libasync.Promise

open Automaton Foundation

variable {V E F : Type*}

/-! ### What is left to do -/

/-- A handler is worth more than all it can add. -/
def Wrapper.weight : Wrapper F → ℕ
  | .handler .. => 6
  | .adopt _ => 1

def weight (wrappers : List (Wrapper F)) : ℕ := (wrappers.map Wrapper.weight).sum

/-- The wrappers of a promise, and for a pending promise the entry that it will have in the
queue. -/
def PromiseData.load (data : PromiseData V E F) : ℕ :=
  weight data.fulfilledWrappers + weight data.rejectedWrappers +
    match data.status with
    | .pending => 2
    | _ => 0

def State.load (s : State V E F) : ℕ :=
  (s.heap.map PromiseData.load).sum + 2 * s.queue.length

@[simp] theorem weight_append (xs ys : List (Wrapper F)) :
    weight (xs ++ ys) = weight xs + weight ys := by
  simp [weight]

@[simp] theorem weight_nil : weight ([] : List (Wrapper F)) = 0 := rfl

@[simp] theorem weight_singleton (w : Wrapper F) : weight [w] = w.weight := by
  simp [weight]

theorem PromiseData.load_pushWrapper (data : PromiseData V E F) (side : Side) (w : Wrapper F) :
    (data.pushWrapper side w).load = data.load + w.weight := by
  cases side <;> simp only [load, pushWrapper, weight_append, weight_singleton] <;> omega

theorem PromiseData.weight_due_le (data : PromiseData V E F) :
    weight data.due ≤ weight data.fulfilledWrappers + weight data.rejectedWrappers := by
  unfold due wrappers
  cases data.status <;> simp [PromiseStatus.side?]

theorem weight_take_le {xs ys : List (Wrapper F)} (h : xs <+: ys) (n : ℕ) :
    weight (xs.take n) ≤ weight (ys.take n) := by
  obtain ⟨rest, rfl⟩ := h
  rw [List.take_append, weight_append]
  exact Nat.le_add_right _ _

theorem weight_take_succ {xs : List (Wrapper F)} {j : ℕ} {w : Wrapper F} (h : xs[j]? = some w) :
    weight (xs.take (j + 1)) = weight (xs.take j) + w.weight := by
  rw [List.take_add_one, h, weight_append, Option.toList_some, weight_singleton]

theorem weight_take_le_weight (xs : List (Wrapper F)) (n : ℕ) : weight (xs.take n) ≤ weight xs := by
  conv_rhs => rw [← List.take_append_drop n xs, weight_append]
  exact Nat.le_add_right _ _

namespace State

variable (s : State V E F)

theorem load_alloc (data : PromiseData V E F) : (s.alloc data).1.load = s.load + data.load := by
  simp only [load, alloc, List.map_append, List.sum_append, List.map_cons, List.map_nil,
    List.sum_cons, List.sum_nil]
  omega

variable {s}

theorem load_update {p : Ref} {data : PromiseData V E F} (f : PromiseData V E F → PromiseData V E F)
    (h : s.get? p = some data) : (s.update p f).load + data.load = s.load + (f data).load := by
  have hsum := sum_map_modify (g := PromiseData.load) f h
  simp only [load, update]
  omega

theorem load_requestCallBack {p : Ref} {data : PromiseData V E F} (h : s.get? p = some data) :
    (s.requestCallBack p).load = s.load + 2 := by
  have hload := load_update (fun data => { data with pendingCallback := true }) h
  have hsame : { data with pendingCallback := true }.load = data.load := rfl
  simp only [load, update, requestCallBack, record, List.length_append, List.length_singleton]
    at hload ⊢
  omega

/-- Settling turns a pending promise into an entry of the queue. -/
theorem load_settle (s : State V E F) (p : Ref) {status : PromiseStatus V E}
    (hstatus : status ≠ .pending) : (s.settle p status).load = s.load := by
  unfold settle
  split
  · rename_i hpending
    obtain ⟨data, hget, hdata⟩ := Option.map_eq_some_iff.mp hpending
    have hload := load_update (fun data => { data with status }) hget
    have hget' : (s.update p fun data => { data with status }).get? p =
        some { data with status } := by
      simp [hget]
    rw [load_requestCallBack hget']
    cases status with
    | pending => exact absurd rfl hstatus
    | resolved | rejected =>
        simp only [PromiseData.load, hdata] at hload
        omega
  · rfl

theorem load_adoptStatus (s : State V E F) (outer : Ref) (status : PromiseStatus V E) :
    (s.adoptStatus outer status).load = s.load := by
  cases status with
  | pending => rfl
  | resolved v => exact s.load_settle outer (by simp)
  | rejected e => exact s.load_settle outer (by simp)

theorem load_associateStatus_le (s : State V E F) (outer inner : Ref) :
    (s.associateStatus outer inner).load ≤ s.load + 2 := by
  unfold associateStatus
  split
  · exact (s.load_settle outer (by simp)).trans_le (Nat.le_add_right _ _)
  · exact (s.load_settle outer (by simp)).trans_le (Nat.le_add_right _ _)
  · rename_i hpending
    obtain ⟨data, hget, -⟩ := Option.map_eq_some_iff.mp hpending
    have hload := load_update (fun data =>
      (data.pushWrapper .fulfilled (.adopt outer)).pushWrapper .rejected (.adopt outer)) hget
    simp only [PromiseData.load_pushWrapper, Wrapper.weight] at hload
    omega
  · exact Nat.le_add_right _ _

theorem load_runHelper_le [Blank V] [FnTrait F E] (s : State V E F) (f : F)
    (result : Outcome V E) : (s.runHelper f result).1.load ≤ s.load + 2 := by
  have hsettled (status : PromiseStatus V E) (hstatus : status ≠ .pending) :
      (s.alloc { status }).1.load ≤ s.load + 2 := by
    rw [load_alloc]
    cases status with
    | pending => exact absurd rfl hstatus
    | resolved | rejected => simp [PromiseData.load]
  have hcreated (status : PromiseStatus V E) (hstatus : status ≠ .pending) :
      (s.create.1.settle s.heap.length status).load ≤ s.load + 2 := by
    rw [load_settle _ _ hstatus, create, load_alloc]
    simp [PromiseData.load]
  cases result with
  | returned r =>
      cases r with
      | value v => exact hsettled _ (by simp)
      | void => exact hcreated _ (by simp)
      | promise q => exact Nat.le_add_right _ _
  | threw e =>
      simp only [runHelper]
      split
      · exact hcreated _ (by simp)
      · exact hsettled _ (by simp)

theorem load_finishHandler_le [Blank V] [FnTrait F E] (s : State V E F) (outer : Ref) (f : F)
    (result : Outcome V E) : (s.finishHandler outer f result).load ≤ s.load + 4 := by
  have hhelper := s.load_runHelper_le f result
  have hassociate := load_associateStatus_le (s.runHelper f result).1 outer
    (s.runHelper f result).2
  simp only [finishHandler]
  omega

/-- The wrappers that were due are gone, with the others. -/
theorem load_finishCallBack_le {p : Ref} {data : PromiseData V E F} (h : s.get? p = some data) :
    (s.finishCallBack p).load + weight data.due ≤ s.load := by
  have hload := load_update (fun data =>
    { data with pendingCallback := false, fulfilledWrappers := [], rejectedWrappers := [] }) h
  have hdue := data.weight_due_le
  simp only [PromiseData.load, weight_nil] at hload
  simp only [finishCallBack]
  omega

/-- What is due for a promise is part of the load. -/
theorem weight_due_le_load {p : Ref} {data : PromiseData V E F} (h : s.get? p = some data) :
    weight data.due + 2 * s.queue.length ≤ s.load := by
  have hcleared := load_finishCallBack_le h
  have hqueue : 2 * s.queue.length ≤ (s.finishCallBack p).load := Nat.le_add_left _ _
  omega

/-- The weight of the first wrappers that are due for a promise. -/
def passed (s : State V E F) (p : Ref) (n : ℕ) : ℕ :=
  ((s.get? p).map fun data => weight (data.due.take n)).getD 0

theorem passed_le_load (s : State V E F) (p : Ref) (n : ℕ) :
    s.passed p n + 2 * s.queue.length ≤ s.load := by
  unfold passed
  cases hget : s.get? p with
  | none => simp [load]
  | some data =>
      have htake := weight_take_le_weight data.due n
      have hdue := weight_due_le_load hget
      simp only [Option.map_some, Option.getD_some]
      omega

theorem passed_le_of_changes {T : Ref → Prop} {t : State V E F} (h : Changes T s t) (p : Ref)
    (n : ℕ) : s.passed p n ≤ t.passed p n := by
  unfold passed
  cases hget : s.get? p with
  | none => simp
  | some data =>
      obtain ⟨data', hget', hstatus, hwrappers⟩ := h.grown hget
      simp only [hget', Option.map_some, Option.getD_some]
      apply weight_take_le
      rcases hstatus with hpending | hstatus
      · simp [PromiseData.due_of_pending hpending]
      · unfold PromiseData.due
        rw [hstatus]
        cases data.status.side? with
        | none => exact List.prefix_rfl
        | some side => exact hwrappers side

end State

/-! ### The measure of a pass -/

variable [Blank V] [FnTrait F E]

/-- The labels of a pass of `promise_task` in which handlers only return or throw. -/
def Label.inPass : Label V E F → Prop
  | .tau | .finish _ => True
  | _ => False

instance : ∀ l : Label V E F, Decidable l.inPass
  | .tau | .finish _ => isTrue trivial
  | .op _ | .promiseTask | .resume => isFalse id

/-- What the pass still has to do, with the steps of its own loops. -/
def Config.remaining (c : Config V E F) : ℕ :=
  match c.control with
  | .idle | .done _ => 0
  | .turn i => c.state.load - 2 * i + 2
  | .callBack i p j => c.state.load - (2 * i + c.state.passed p j) + 1
  | .handler i p j _ _ => c.state.load - (2 * i + c.state.passed p (j + 1)) + 6

theorem Step.remaining_lt {c c' : Config V E F} {l : Label V E F} (hc : QueueInv c)
    (h : Step c l c') (hl : l.inPass) : c'.remaining < c.remaining := by
  have hbound := hc.queued.bound
  cases h with
  | op | start | resume => exact hl.elim
  | next s i p entry =>
      have hzero : s.passed p 0 = 0 := by
        unfold State.passed
        cases s.get? p <;> simp
      simp only [Config.remaining, hzero]
      omega
  | clear s i entry => simp only [Config.remaining]; omega
  | adopted s i p j data outer get due =>
      have hload := s.load_adoptStatus outer data.status
      have hpassed := State.passed_le_of_changes
        (s.adoptStatus_changes (T := (· = outer)) outer data.status rfl) p (j + 1)
      have hnext : s.passed p (j + 1) = s.passed p j + 1 := by
        simp [State.passed, get, weight_take_succ due, Wrapper.weight]
      have hle := s.passed_le_load p (j + 1)
      have hi : i ≤ s.queue.length := hbound
      simp only [Config.remaining, hload]
      omega
  | called s i p j data outer f arg get due =>
      have hnext : s.passed p (j + 1) = s.passed p j + 6 := by
        simp [State.passed, get, weight_take_succ due, Wrapper.weight]
      have hle := s.passed_le_load p (j + 1)
      have hi : i ≤ s.queue.length := hbound
      have hrecord (e : Event V E F) : (s.record e).load = s.load ∧
          (s.record e).passed p (j + 1) = s.passed p (j + 1) := ⟨rfl, rfl⟩
      simp only [Config.remaining, hrecord]
      omega
  | mismatch s i p j data outer f e get due => simp [Config.remaining]
  | finished s i p j data get due =>
      have hcleared := State.load_finishCallBack_le get
      have hpassed : s.passed p j ≤ weight data.due := by
        simpa [State.passed, get] using weight_take_le_weight data.due j
      have hload := State.weight_due_le_load get
      have hi : i < s.queue.length :=
        (List.getElem?_eq_some_iff.mp (hc.current p rfl)).1
      simp only [Config.remaining]
      omega
  | returned s i p j outer f result known =>
      have hload := s.load_finishHandler_le outer f result
      have hpassed := State.passed_le_of_changes
        (s.finishHandler_changes f result (hc.scope.outer i p j outer f rfl)) p (j + 1)
      have hle := s.passed_le_load p (j + 1)
      have hi : i ≤ s.queue.length := hbound
      simp only [Config.remaining]
      omega

/-! ### Every pass ends -/

/-- The pass is not stuck: its own next step is possible, and so is every outcome of a handler. -/
def Config.GoesOn (c : Config V E F) : Prop :=
  match c.control with
  | .handler .. => ∀ result, c.state.has result.refs = true → ∃ d, step c (.finish result) = some d
  | _ => ∃ d, step c .tau = some d

/-- Every run of the pass from this state is shorter than a bound, and it goes on until
`promise_task` has returned or an exception has left it. -/
structure PassTerminates (s : State V E F) : Prop where
  bounded : ∀ ls c, (∀ l ∈ ls, l.inPass) → run step ⟨s, .turn 0⟩ ls = some c →
    ls.length ≤ s.load + 2
  goes_on : ∀ ls c, (∀ l ∈ ls, l.inPass) → run step ⟨s, .turn 0⟩ ls = some c →
    (∃ exit, c.control = .done exit) ∨ c.GoesOn

theorem QueueInv.goesOn {c : Config V E F} (h : QueueInv c) (hidle : c.control ≠ .idle) :
    (∃ exit, c.control = .done exit) ∨ c.GoesOn := by
  obtain ⟨s, control⟩ := c
  cases control with
  | idle => exact absurd rfl hidle
  | turn i =>
      right
      cases hentry : s.queue[i]? with
      | none => exact ⟨_, step_iff.mpr (.clear s i hentry)⟩
      | some p => exact ⟨_, step_iff.mpr (.next s i p hentry)⟩
  | callBack i p j =>
      right
      have hmem : p ∈ s.queue := List.mem_of_getElem? (h.current p rfl)
      obtain ⟨data, hget, -⟩ := h.queued.settled p hmem
      cases hdue : data.due[j]? with
      | none => exact ⟨_, step_iff.mpr (.finished s i p j data hget hdue)⟩
      | some w =>
          cases w with
          | adopt outer => exact ⟨_, step_iff.mpr (.adopted s i p j data outer hget hdue)⟩
          | handler outer f =>
              cases harg : data.status.argFor f with
              | ok arg => exact ⟨_, step_iff.mpr (.called s i p j data outer f arg hget hdue harg)⟩
              | error e => exact ⟨_, step_iff.mpr (.mismatch s i p j data outer f e hget hdue harg)⟩
  | handler i p j outer f =>
      right
      exact fun result known => ⟨_, step_iff.mpr (.returned s i p j outer f result known)⟩
  | done exit => exact .inl ⟨exit, rfl⟩

/-- The steps of a pass do not lead back to code outside `promise_task`. -/
theorem Step.stays_in_pass {c c' : Config V E F} {l : Label V E F} (h : Step c l c')
    (hl : l.inPass) : c'.control ≠ .idle := by
  cases h with
  | op | start | resume => exact hl.elim
  | next | clear | adopted | called | mismatch | finished | returned => simp

/-- `promise_task` ends on every heap of promises, with cycles as well, when handlers only return
a value or a promise, or throw. -/
theorem promise_task_terminates {before : List (Label V E F)} {s : State V E F}
    (h : RunsTo before ⟨s, .turn 0⟩) : PassTerminates s := by
  have hguard {ls : List (Label V E F)} (hls : ∀ l ∈ ls, l.inPass) :
      EachStep step (fun _ l => l.inPass) (⟨s, .turn 0⟩ : Config V E F) ls := by
    intro front l rest t heq _
    exact hls l (by simp [heq])
  refine ⟨?_, ?_⟩
  · intro ls c hls hrun
    have hlength := length_le_measure (I := QueueInv) (μ := Config.remaining)
      (fun c l c' hc hl hstep =>
        ⟨hc.step (.of_step hstep), (Step.of_step hstep).remaining_lt hc hl⟩)
      h.queueInv (hguard hls) hrun
    exact (Nat.le_add_right _ _).trans hlength
  · intro ls c hls hrun
    have hinv := run_invariant (I := fun d => QueueInv d ∧ d.control ≠ .idle)
      (fun c l c' hc hl hstep => ⟨hc.1.step (.of_step hstep),
        (Step.of_step hstep).stays_in_pass hl⟩) ⟨h.queueInv, by simp⟩ (hguard hls) hrun
    exact hinv.1.goesOn hinv.2

/-- A promise resolved with itself, one that adopts the promise derived from it, and a handler that
returns its own derived promise. -/
def cyclicRun : List (Label ℕ ℕ SampleHandler) :=
  [.op .promise, .op .promise, .op (.resolvePromise 0 0), .op (.then_ 0 (.plain 0)),
    .op (.resolvePromise 1 2), .op (.resolve 0 5), .promiseTask]

theorem promise_task_terminates_sample : ∃ (s : State ℕ ℕ SampleHandler)
    (c : Config ℕ ℕ SampleHandler),
    RunsTo cyclicRun ⟨s, .turn 0⟩ ∧
      run step ⟨s, .turn 0⟩ [.tau, .tau, .tau, .finish (.returned (.promise 2)), .tau, .tau] =
        some c ∧ c.control = .done none ∧ 6 ≤ s.load + 2 := by
  obtain ⟨s, c, hbefore, hrun, hcontrol⟩ : ∃ (s : State ℕ ℕ SampleHandler)
      (c : Config ℕ ℕ SampleHandler), RunsTo cyclicRun ⟨s, .turn 0⟩ ∧
        run step ⟨s, .turn 0⟩ [.tau, .tau, .tau, .finish (.returned (.promise 2)), .tau, .tau] =
          some c ∧ c.control = .done none := ⟨_, _, rfl, rfl, rfl⟩
  exact ⟨s, c, hbefore, hrun, hcontrol,
    (promise_task_terminates hbefore).bounded _ c (by simp [Label.inPass]) hrun⟩

end Libasync.Promise
