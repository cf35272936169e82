import Libasync.Promise.ExactlyOnce
import Libasync.Thread.Loop
import Libasync.Thread.Passes

/-! # A call of `run_once` on a thread

When the call returns, `promise_task` has come to its end in it, and each handler that was due
before the call has been called exactly once. Tasks, handlers and targets may enter the loop
themselves, and catch what leaves it. -/

namespace Libasync.Thread

open Promise Automaton Foundation
open Reactor (Backend)

variable {V E F : Type*}

section Steps

variable [Blank V] [FnTrait F E] {backend : Backend} {c c' : Config V E F} {l : Label V E F}

/-! ### The call -/

/-- Where a call of `run_once` is that was made on the frames `base`. Task number `k` is
`promise_task`, and `served` is what it does. -/
inductive Phase (k : ℕ) (base : List (Frame E F)) (served : Prop) : List (Frame E F) → Prop where
  | before (above next) (le : next ≤ k) : Phase k base served (above ++ .permanents next :: base)
  | during (above epoch control) :
      Phase k base served (above ++ .promiseTask epoch control :: .permanents (k + 1) :: base)
  | after (above next) (done : served) : Phase k base served (above ++ .permanents next :: base)
  | oneshots (above epoch next) (done : served) :
      Phase k base served (above ++ .oneshots epoch next :: base)
  /-- the call has returned, or an exception has left it -/
  | left : Phase k base served base
  | dangling : Phase k base served []

variable {k : ℕ} {base stack stack' : List (Frame E F)} {served : Prop}

omit [Blank V] [FnTrait F E] in
theorem Phase.mono {served' : Prop} (h : Phase k base served stack) (hs : served → served') :
    Phase k base served' stack := by
  cases h with
  | before above next le => exact .before above next le
  | during above epoch control => exact .during above epoch control
  | after above next done => exact .after above next (hs done)
  | oneshots above epoch next done => exact .oneshots above epoch next (hs done)
  | left => exact .left
  | dangling => exact .dangling

omit [Blank V] [FnTrait F E] in
/-- The code above a frame of `run_once` takes a step. -/
theorem Phase.of_aboveStep {frame : Frame E F} (hframe : frame.ofLoop = true)
    (hbase : unwind base = base) (h : AboveStep (frame :: base) stack')
    (hstays : ∀ above, Phase k base served (above ++ frame :: base)) :
    Phase k base served stack' := by
  cases h with
  | stays above => exact hstays above
  | unwinds uncaught =>
      rw [(unwind_ofLoop hframe base).1, hbase]
      exact .left
  | dangles => exact .dangling
  | finishes epoch i p j outer f below handler =>
      obtain ⟨rfl, -⟩ := List.cons.inj handler
      cases hframe

omit [Blank V] [FnTrait F E] in
/-- A round of the first loop. -/
theorem Phase.callPermanent {next : ℕ} (hget : c.permanentQueue[k]? = some .promiseTask)
    (h : next ≤ k ∨ served) : Phase k base served (c.callPermanent next base).stack := by
  have hcalls (frame : Frame E F) (hne : c.permanentQueue[next]? ≠ some .promiseTask) :
      Phase k base served (frame :: .permanents (next + 1) :: base) := by
    rcases h with hle | hserved
    · have hlt : next < k := by
        rcases Nat.lt_or_eq_of_le hle with hlt | rfl
        · exact hlt
        · exact absurd hget hne
      exact .before [frame] (next + 1) hlt
    · exact .after [frame] (next + 1) hserved
  rw [Config.callPermanent]
  split
  · rename_i hnext
    exact hcalls .user (by simp [hnext])
  · rcases h with hle | hserved
    · rcases Nat.lt_or_eq_of_le hle with hlt | rfl
      · exact .before [_] (next + 1) hlt
      · exact .during [] c.queueEpoch (.turn 0)
    · exact .after [_] (next + 1) hserved
  · rename_i hnext
    exact hcalls .waiting (by simp [hnext])
  · rename_i hnone
    rcases h with hle | hserved
    · have hlt := (List.getElem?_eq_some_iff.mp hget).1
      have hlen := List.getElem?_eq_none_iff.mp hnone
      omega
    · exact .oneshots [] c.oneshotEpoch 0 hserved

omit [Blank V] [FnTrait F E] in
/-- A round of the second loop. -/
theorem Phase.callOneshot {epoch next : ℕ} (h : served) :
    Phase k base served (c.callOneshot epoch next base).stack := by
  rw [Config.callOneshot]
  split
  · exact .dangling
  · split
    · exact .oneshots [.user] epoch (next + 1) h
    · exact .left

/-- The frames of the loop and of `promise_task` take one kind of step. -/
theorem step_permanents {next : ℕ} {rest : List (Frame E F)}
    (hstack : c.stack = .permanents next :: rest)
    (hstep : step backend c l = some c') : c' = c.callPermanent next rest := by
  cases l with
  | tau => simpa [step, hstack, eq_comm] using hstep
  | _ => simp [step, hstack] at hstep

theorem step_oneshots {epoch next : ℕ} {rest : List (Frame E F)}
    (hstack : c.stack = .oneshots epoch next :: rest) (hstep : step backend c l = some c') :
    c' = c.callOneshot epoch next rest := by
  cases l with
  | tau => simpa [step, hstack, eq_comm] using hstep
  | _ => simp [step, hstack] at hstep

theorem step_promiseTask {epoch : ℕ} {control : Control F E} {rest : List (Frame E F)}
    (hstack : c.stack = .promiseTask epoch control :: rest)
    (hstep : step backend c l = some c') : PassStep c epoch control rest c' := by
  cases l with
  | tau => exact passStep (by simpa [step, hstack] using hstep)
  | _ => simp [step, hstack] at hstep

/-- `promise_task` serves what is due when it returns. -/
theorem Phase.step (h : Phase k base served c.stack) (hlayered : c.Layered) (hne : c.stack ≠ base)
    (hbase : unwind base = base) (hget : c.permanentQueue[k]? = some .promiseTask)
    (hreturns : ∀ control promises,
      c.stack = .promiseTask c.queueEpoch control :: .permanents (k + 1) :: base →
      Promise.step ⟨c.promises, control⟩ .tau = some ⟨promises, .done none⟩ →
      c'.promises = promises → served)
    (hstep : Thread.step backend c l = some c') : Phase k base served c'.stack := by
  generalize hstack : c.stack = stack at h
  cases h with
  | before above next le =>
      cases above with
      | nil =>
          rw [step_permanents hstack hstep]
          exact .callPermanent hget (.inl le)
      | cons top above =>
          exact .of_aboveStep rfl hbase (aboveStep hlayered hstack hstep)
            fun above => .before above next le
  | during above epoch control =>
      cases above with
      | nil =>
          cases step_promiseTask hstack hstep with
          | dangling stale => exact .dangling
          | goes promises control' fresh runs inside => exact .during [] epoch control'
          | calls promises i p j outer f fresh runs =>
              exact .during [.user] epoch (.handler i p j outer f)
          | returns promises fresh runs =>
              subst fresh
              exact .after [] (k + 1) (hreturns control promises hstack runs rfl)
          | throws promises e fresh runs =>
              change Phase k base served (unwind base)
              rw [hbase]
              exact .left
      | cons top above =>
          have habove := aboveStep hlayered hstack hstep
          generalize c'.stack = stack' at habove
          cases habove with
          | stays above => exact .during above epoch control
          | unwinds uncaught =>
              change Phase k base served (unwind base)
              rw [hbase]
              exact .left
          | dangles => exact .dangling
          | finishes epoch i p j outer f below handler =>
              obtain ⟨-, rfl⟩ := List.cons.inj handler
              exact .during [] epoch _
  | after above next done =>
      cases above with
      | nil =>
          rw [step_permanents hstack hstep]
          exact .callPermanent hget (.inr done)
      | cons top above =>
          exact .of_aboveStep rfl hbase (aboveStep hlayered hstack hstep)
            fun above => .after above next done
  | oneshots above epoch next done =>
      cases above with
      | nil =>
          rw [step_oneshots hstack hstep]
          exact .callOneshot done
      | cons top above =>
          exact .of_aboveStep rfl hbase (aboveStep hlayered hstack hstep)
            fun above => .oneshots above epoch next done
  | left => exact absurd hstack hne
  | dangling => simp [Thread.step, hstack] at hstep

omit [Blank V] [FnTrait F E] in
/-- In the second loop of the call `promise_task` has served what was due. -/
theorem Phase.done {epoch next : ℕ} (h : Phase k base served (.oneshots epoch next :: base)) :
    served := by
  have hframe {above : List (Frame E F)} {n : ℕ} :
      above ++ .permanents n :: base ≠ .oneshots epoch next :: base := by
    intro heq
    obtain ⟨-, hcons⟩ := List.append_inj' (heq.trans (List.nil_append _).symm) rfl
    cases hcons
  generalize hstack : Frame.oneshots epoch next :: base = stack at h
  cases h with
  | before above n le => exact absurd hstack.symm hframe
  | during above epoch' control =>
      rw [List.append_cons] at hstack
      exact absurd hstack.symm hframe
  | after above n done => exact done
  | oneshots above epoch' n done => exact done
  | left => exact absurd hstack (List.cons_ne_self _ _)
  | dangling => cases hstack

/-! ### What is registered -/

/-- No handler is registered, and no pass is under way. -/
structure Config.Bare (c : Config V E F) : Prop where
  unready : c.promiseReady = false
  log : c.promises.log = []
  passes : ∀ frame ∈ c.stack, frame.catches = false

/-- Handlers are only registered on a thread with a `promise_task`. -/
def Config.Ready (c : Config V E F) : Prop := .promiseTask ∈ c.permanentQueue ∨ c.Bare

omit [Blank V] [FnTrait F E] in
theorem Config.Ready.initial : Config.Ready ({} : Config V E F) :=
  .inr ⟨rfl, rfl, by simp [Frame.catches]⟩

/-- The list of the permanent tasks only grows at its end. -/
theorem permanentQueue_grows (hstep : step backend c l = some c') :
    c.permanentQueue <+: c'.permanentQueue := by
  cases stepped hstep with
  | promiseInit | reactorInit | add => exact List.prefix_append _ _
  | permanent next rest stack =>
      rw [Config.callPermanent]
      split <;> exact List.prefix_rfl
  | oneshots epoch next rest stack =>
      rw [Config.callOneshot]
      split
      · exact List.prefix_rfl
      · split <;> exact List.prefix_rfl
  | promiseTask epoch own rest c' stack runs =>
      cases passStep runs <;> exact List.prefix_rfl
  | _ => exact List.prefix_rfl

theorem Config.Bare.step (h : c.Bare) (hstep : Thread.step backend c l = some c') : c'.Ready := by
  have hpasses {stack : List (Frame E F)} (hstack : c.stack = stack) :
      ∀ frame ∈ stack, frame.catches = false := hstack ▸ h.passes
  have hbare {stack : List (Frame E F)} (hnone : ∀ frame ∈ stack, frame.catches = false) :
      Config.Bare { c with stack } := ⟨h.unready, h.log, hnone⟩
  have hunwind {stack : List (Frame E F)} (hnone : ∀ frame ∈ stack, frame.catches = false) :
      Config.Bare { c with stack := unwind stack } :=
    hbare fun frame hframe => hnone frame ((unwind_suffix stack).subset hframe)
  cases stepped hstep with
  | promiseInit => exact .inl (by simp)
  | reactorInit | add | oneshot => exact .inr ⟨h.unready, h.log, h.passes⟩
  | op rest o stack ready => simp [h.unready] at ready
  | runOnce rest stack | run rest stack | forever rest stack =>
      exact .inr (hbare (List.forall_mem_cons.mpr ⟨rfl, h.passes⟩))
  | return_ frame rest stack => exact .inr (hbare (List.forall_mem_cons.mp (hpasses stack)).2)
  | throw_ frame rest stack => exact .inr (hunwind (List.forall_mem_cons.mp (hpasses stack)).2)
  | finish epoch i p j outer f rest promises result stack =>
      have := hpasses stack (.promiseTask epoch (.handler i p j outer f)) (by simp)
      cases this
  | permanent next rest stack =>
      obtain ⟨-, hrest⟩ := List.forall_mem_cons.mp (hpasses stack)
      have hnext : ∀ frame ∈ Frame.permanents (next + 1) :: rest, frame.catches = false :=
        List.forall_mem_cons.mpr ⟨rfl, hrest⟩
      rw [Config.callPermanent]
      split
      · exact .inr (hbare (List.forall_mem_cons.mpr ⟨rfl, hnext⟩))
      · rename_i hget
        exact .inl (List.mem_of_getElem? hget)
      · exact .inr (hbare (List.forall_mem_cons.mpr ⟨rfl, hnext⟩))
      · exact .inr (hbare (List.forall_mem_cons.mpr ⟨rfl, hrest⟩))
  | oneshots epoch next rest stack =>
      obtain ⟨-, hrest⟩ := List.forall_mem_cons.mp (hpasses stack)
      rw [Config.callOneshot]
      split
      · exact .inr (hbare (by simp))
      · split
        · refine .inr (hbare (List.forall_mem_cons.mpr ⟨rfl, ?_⟩))
          exact List.forall_mem_cons.mpr ⟨rfl, hrest⟩
        · exact .inr ⟨h.unready, h.log, hrest⟩
  | promiseTask epoch own rest c' stack runs =>
      have := hpasses stack (.promiseTask epoch own) (by simp)
      cases this
  | events n rest stack | ignored n rest stack =>
      obtain ⟨-, hrest⟩ := List.forall_mem_cons.mp (hpasses stack)
      exact .inr (hbare (List.forall_mem_cons.mpr ⟨rfl, hrest⟩))
  | queryFails rest stack => exact .inr (hunwind (List.forall_mem_cons.mp (hpasses stack)).2)
  | noEvents rest stack => exact .inr (hbare (List.forall_mem_cons.mp (hpasses stack)).2)
  | event n rest stack =>
      obtain ⟨-, hrest⟩ := List.forall_mem_cons.mp (hpasses stack)
      refine .inr (hbare (List.forall_mem_cons.mpr ⟨rfl, ?_⟩))
      exact List.forall_mem_cons.mpr ⟨rfl, hrest⟩

theorem Config.Ready.step (h : c.Ready) (hstep : Thread.step backend c l = some c') :
    c'.Ready := by
  rcases h with hmem | hbare
  · exact .inl ((permanentQueue_grows hstep).subset hmem)
  · exact hbare.step hstep

/-- A thread on which a handler is registered has a `promise_task`. -/
theorem promiseTask_mem {ls : List (Label V E F)} (h : run (step backend) {} ls = some c)
    (hlog : c.promises.log ≠ []) : .promiseTask ∈ c.permanentQueue := by
  have hready : c.Ready := run_invariant_of_step (fun _ _ _ hc hl => hc.step hl) .initial h
  rcases hready with hmem | hbare
  · exact hmem
  · exact absurd hbare.log hlog

/-! ### What the call has done -/

/-- The handler `f` of the promise `p` with this status has been called. -/
def Config.Called (status : PromiseStatus V E) (p outer : Ref) (f : F) (c : Config V E F) : Prop :=
  ∃ turn arg, status.argFor f = .ok arg ∧ .called turn p outer f arg ∈ c.promises.log

/-- The state of the promise module during the call, which has led there from `d`. -/
structure Config.Reaches (d : Promise.Config V E F) (c : Config V E F) (control : Control F E) :
    Prop where
  tracks : c.Tracks ⟨c.promises, control⟩
  advances : Advances (fun _ => True) (fun _ _ _ _ => True) d ⟨c.promises, control⟩

theorem Config.Reaches.step {d : Promise.Config V E F} {control : Control F E}
    (h : c.Reaches d control) (hkeeps : c.Keeps True l)
    (hstep : Thread.step backend c l = some c') :
    ∃ control', c'.Reaches d control' ∧ c.promises.log <+: c'.promises.log := by
  obtain ⟨⟨s, control'⟩, hrun, hmatches, htracks⟩ :=
    passes_project True c l c' _ h.tracks hkeeps hstep
  obtain rfl := htracks.state
  have hadvances := Advances.of_run h.advances.queue h.advances.recorded
    (fun before k after d hls hd => hmatches before k after d hls hd trivial) hrun
  exact ⟨control', ⟨htracks, h.advances.trans hadvances⟩, hadvances.log_grows⟩

/-- When `promise_task` returns the handler has been called. -/
theorem Config.Reaches.called {d : Promise.Config V E F} {control own : Control F E}
    {rest : List (Frame E F)} (h : c.Reaches d control)
    (hstack : c.stack = .promiseTask c.queueEpoch own :: rest)
    (hreturns : Promise.step ⟨c.promises, own⟩ .tau = some ⟨c'.promises, .done none⟩)
    {side : Side} {p outer : Ref} {f : F} {status : PromiseStatus V E}
    (hreg : .registered side p outer f ∈ d.state.log) (hstatus : d.state.status? p = some status)
    (hside : status.side? = some side) : c'.Called status p outer f := by
  have hholds := h.tracks.holds (by simp [hstack])
  rw [hstack] at hholds
  obtain ⟨-, rfl, -⟩ := hholds.of_pass
  have hnone := failing?_of_tau hreturns fun e he => by cases he
  have hend := h.advances.trans
    (((Promise.Step.of_step hreturns).advances h.advances.queue h.advances.recorded hnone).mono
      (fun _ _ => trivial) fun _ _ _ _ _ => trivial)
  have hdrained : Drained c'.promises := hend.queue.queued.drained (hend.queue.returned rfl)
  have hsettled : status ≠ .pending := by
    rintro rfl
    cases hside
  obtain ⟨data, hget, rfl⟩ := Option.map_eq_some_iff.mp (hend.settled p status hstatus hsettled)
  obtain ⟨turn, arg, harg, hfilter⟩ := (hend.recorded.deliveredOnce hdrained).exactly_once side p
    outer f data (hend.log_grows.subset hreg) hget hside
  refine ⟨turn, arg, harg, ?_⟩
  have hmem : Event.called turn p outer f arg ∈
      c'.promises.log.filter (fun e => e.callOf? = some outer) := by
    rw [hfilter]
    exact List.mem_singleton_self _
  exact (List.mem_filter.mp hmem).1

/-- What holds at each state of the call. `d` is the promise module when it was made. -/
structure Config.Calling (d : Promise.Config V E F) (k : ℕ) (base : List (Frame E F))
    (served : Config V E F → Prop) (c : Config V E F) : Prop where
  reaches : ∃ control, c.Reaches d control
  task : c.permanentQueue[k]? = some .promiseTask
  phase : Phase k base (served c) c.stack

theorem Config.Calling.step {d : Promise.Config V E F} {side : Side} {p outer : Ref} {f : F}
    {status : PromiseStatus V E} (h : c.Calling d k base (Called status p outer f))
    (hreg : .registered side p outer f ∈ d.state.log) (hstatus : d.state.status? p = some status)
    (hside : status.side? = some side) (hbase : unwind base = base)
    (hguard : c.Keeps True l ∧ c.stack ≠ base) (hstep : Thread.step backend c l = some c') :
    c'.Calling d k base (Called status p outer f) := by
  obtain ⟨⟨control, hreaches⟩, htask, hphase⟩ := h
  obtain ⟨control', hreaches', hlog⟩ := hreaches.step hguard.1 hstep
  obtain ⟨added, hadded⟩ := permanentQueue_grows hstep
  refine ⟨⟨control', hreaches'⟩, ?_, ?_⟩
  · rw [← hadded, List.getElem?_append_left (List.getElem?_eq_some_iff.mp htask).1, htask]
  · have hmono : c.Called status p outer f → c'.Called status p outer f :=
      fun ⟨turn, arg, harg, hmem⟩ => ⟨turn, arg, harg, hlog.subset hmem⟩
    refine (hphase.mono hmono).step hreaches.tracks.layered hguard.2 hbase htask ?_ hstep
    rintro own promises hstack hreturns rfl
    exact hreaches.called hstack hreturns hreg hstatus hside

end Steps

section Runs

variable [Blank V] [FnTrait F E] {backend : Backend} {c d : Config V E F}

/-- `run_once` is called. -/
def Config.enter (c : Config V E F) : Config V E F := { c with stack := .permanents 0 :: c.stack }

/-- User code that has control at `c` calls `run_once`, and the call returns to it at `d`. -/
structure Config.Returns (backend : Backend) (c : Config V E F) (call : List (Label V E F))
    (d : Config V E F) : Prop where
  user : ∃ rest, c.stack = .user :: rest
  inside : EachStep (step backend) (fun t _ => t.stack ≠ c.stack) c.enter call
  returns : ∃ t epoch next, run (step backend) c.enter call = some t ∧
    t.stack = .oneshots epoch next :: c.stack ∧ step backend t .tau = some d ∧ d.stack = c.stack

/-- In a run in which no call of `promise_task` starts while another one is under way and no handler
meets an error of another type: when a call of `run_once` returns, each handler that was registered
before the call on a promise that was settled has been called exactly once, with what the promise
was settled with. Where `promise_task` stands among the tasks does not matter, nor what tasks,
handlers and targets do in the meantime. -/
theorem run_once_delivers {before call : List (Label V E F)}
    (hbefore : run (step backend) {} before = some c) (hcall : c.Returns backend call d)
    (hguard : EachStep (step backend) (fun t l => t.nestsPass l = false ∧ t.aborts l = false) {}
      (before ++ .runOnce :: call))
    {side : Side} {p outer : Ref} {f : F} {status : PromiseStatus V E}
    (hreg : .registered side p outer f ∈ c.promises.log)
    (hstatus : c.promises.status? p = some status) (hside : status.side? = some side) :
    ∃ turn arg, status.argFor f = .ok arg ∧
      d.promises.log.filter (fun e => e.callOf? = some outer) = [.called turn p outer f arg] := by
  obtain ⟨⟨rest, huser⟩, hinside, t, epoch, next, ht, htop, hlast, -⟩ := hcall
  have hkeeps : EachStep (step backend) (Config.Keeps True) {} (before ++ .runOnce :: call) :=
    fun front l after u hls hu => (hguard front l after u hls hu).imp_right fun h _ => h
  have henter : step backend c .runOnce = some c.enter := by simp [step, huser, Config.enter]
  obtain ⟨⟨s, control⟩, hd, hmatches, htracks⟩ := (passes_project True).run
    Config.Tracks.initial (hkeeps.of_prefix (List.prefix_append _ _)) hbefore
  obtain rfl := htracks.state
  have hrecorded : Recorded control.passed c.promises := RunsTo.recorded hd
    fun front k after u hls hu => hmatches front k after u hls hu trivial
  have hstart : c.Reaches ⟨c.promises, control⟩ control :=
    ⟨htracks, .refl (RunsTo.queueInv hd) hrecorded⟩
  have hafter := hkeeps.of_append hbefore
  obtain ⟨control₀, henters, -⟩ := hstart.step hafter.head henter
  obtain ⟨k, hk⟩ := List.mem_iff_getElem?.mp
    (promiseTask_mem hbefore (List.ne_nil_of_mem hreg))
  have hbase : unwind c.stack = c.stack := by simp [huser]
  have hcalling := run_invariant
    (I := Config.Calling ⟨c.promises, control⟩ k c.stack (Config.Called status p outer f))
    (fun u l u' hu hg hl => hu.step hreg hstatus hside hbase hg hl)
    ⟨⟨control₀, henters⟩, hk, .before [] 0 (Nat.zero_le k)⟩
    (fun front l after u hls hu => ⟨hafter.tail henter front l after u hls hu,
      hinside front l after u hls hu⟩) ht
  obtain ⟨⟨control₁, hreaches⟩, -, hphase⟩ := hcalling
  rw [htop] at hphase
  obtain ⟨turn, arg, harg, hmem⟩ := hphase.done
  have hends : t.Keeps True .tau := by simp [Config.Keeps, Config.nestsPass, Config.aborts, htop]
  obtain ⟨control₂, hends, hlog⟩ := hreaches.step hends hlast
  refine ⟨turn, arg, harg, ?_⟩
  exact filter_key_eq_singleton hends.advances.recorded.called_nodup (hlog.subset hmem) rfl

end Runs

/-- `reactor_task` is the first task. A promise with a handler is resolved. -/
def resolvedRun : List (Label ℕ ℕ SampleHandler) :=
  [.reactorInit, .promiseInit, .op .promise, .op (.then_ 0 (.plain 0)), .op (.resolve 0 7)]

/-- The target of an event adds a oneshot task, and the handler enters the loop, which an exception
of `reactor_task` leaves. -/
def enteredCall : List (Label ℕ ℕ SampleHandler) :=
  [.tau, .events 1, .tau, .oneshot, .return_, .tau, .tau, .tau, .tau, .runOnce, .tau, .queryFails,
    .finish (.returned (.value 8)), .tau, .tau, .tau, .tau, .tau, .tau, .return_]

theorem run_once_delivers_sample : ∃ d : Config ℕ ℕ SampleHandler,
    d.stack = [.user] ∧ ∃ turn arg,
      d.promises.log.filter (fun e => e.callOf? = some 1) =
        [.called turn 0 1 (.plain 0) arg] := by
  obtain ⟨c, d, hc, hcall, hguard, hreg, hstatus, hstack⟩ : ∃ c d : Config ℕ ℕ SampleHandler,
      run (step .epoll) {} resolvedRun = some c ∧ c.Returns .epoll enteredCall d ∧
        EachStep (step .epoll) (fun t l => t.nestsPass l = false ∧ t.aborts l = false) {}
          (resolvedRun ++ .runOnce :: enteredCall) ∧
        .registered .fulfilled 0 1 (.plain 0) ∈ c.promises.log ∧
        c.promises.status? 0 = some (.resolved 7) ∧ d.stack = [.user] :=
    ⟨_, _, rfl, ⟨⟨_, rfl⟩, by decide +kernel, _, _, _, rfl, rfl, rfl, rfl⟩, by decide +kernel,
      by decide, rfl, rfl⟩
  obtain ⟨turn, arg, -, hfilter⟩ := run_once_delivers hc hcall hguard hreg hstatus rfl
  exact ⟨d, hstack, turn, arg, hfilter⟩

end Libasync.Thread
