import Libasync.Promise.ExactlyOnce

/-! # Rejected handlers with a mismatching error type

The cast to the declared error type is made outside every `try`, so its failure is not turned
into a rejection: it leaves `call_back` and `promise_task` with the flag, the lists and the queue
as they are, and the next call of `promise_task` starts the same walk again. -/

namespace Libasync.Promise

open Automaton Foundation

variable {V E F : Type*} [FnTrait F E]

/-- Every handler that is due and accepts the outcome has been called exactly once. -/
def DueDelivered (s : State V E F) : Prop :=
  ∀ side p outer f arg data, Event.registered side p outer f ∈ s.log → s.get? p = some data →
    data.status.side? = some side → data.status.argFor f = .ok arg →
    ∃ turn, s.log.filter (fun e => e.callOf? = some outer) = [.called turn p outer f arg]

theorem DeliveredOnce.dueDelivered {s : State V E F} (h : DeliveredOnce s) : DueDelivered s := by
  intro side p outer f arg data hreg hget hside harg
  obtain ⟨turn, arg', harg', hcalls⟩ := h.exactly_once side p outer f data hreg hget hside
  obtain rfl : arg' = arg := Except.ok.inj (harg'.symm.trans harg)
  exact ⟨turn, hcalls⟩

/-- A failing handler is about to be invoked only in `call_back`, and its cast fails. -/
theorem failing?_eq_some {c : Config V E F} {outer : Ref} (h : c.failing? = some outer) :
    ∃ s i p j data f e, c = ⟨s, .callBack i p j⟩ ∧ s.get? p = some data ∧
      data.due[j]? = some (.handler outer f) ∧ data.status.argFor f = .error e := by
  obtain ⟨s, control⟩ := c
  cases control with
  | callBack i p j =>
      cases hget : s.get? p with
      | none => simp [Config.failing?, hget] at h
      | some data =>
          cases hstatus : data.status with
          | pending => simp [Config.failing?, hget, hstatus] at h
          | resolved v => simp [Config.failing?, hget, hstatus] at h
          | rejected error =>
              simp only [Config.failing?, hget, hstatus] at h
              split at h
              · rename_i error' outer' f heq hdue
                obtain rfl := PromiseStatus.rejected.inj heq
                cases hcast : eptrCast (FnTrait.errorType f) error with
                | ok o => simp [hcast, Except.isOk, Except.toBool] at h
                | error x =>
                    simp only [hcast, Except.isOk, Except.toBool, Bool.false_eq_true, if_false,
                      Option.some.injEq] at h
                    subst h
                    exact ⟨s, i, p, j, data, f, x, rfl, hget, hdue,
                      by simp [hstatus, PromiseStatus.argFor, hcast, Except.map]⟩
              · cases h
  | idle => simp [Config.failing?] at h
  | turn i => simp [Config.failing?] at h
  | handler i p j outer' f => simp [Config.failing?] at h
  | done exit => simp [Config.failing?] at h

variable [Blank V]

/-- The step of a failing handler is the exit of `promise_task` by an exception. -/
theorem Step.exit_of_failing {c c' : Config V E F} {l : Label V E F} {outer : Ref}
    (h : Step c l c') (hf : c.failing? = some outer) : ∃ e, c'.control = .done (some e) := by
  obtain ⟨s, i, p, j, data, f, e, rfl, hget, hdue, harg⟩ := failing?_eq_some hf
  cases h with
  | op s control o user known => exact user.elim
  | adopted s i p j cell outer' get due =>
      obtain rfl := Option.some.inj (get.symm.trans hget)
      simp [hdue] at due
  | called s i p j cell outer' f' arg get due arg_eq =>
      obtain rfl := Option.some.inj (get.symm.trans hget)
      obtain ⟨rfl, rfl⟩ := Wrapper.handler.inj (Option.some.inj (due.symm.trans hdue))
      simp [harg] at arg_eq
  | mismatch s i p j cell outer' f' e' get due arg_eq => exact ⟨e', rfl⟩
  | finished s i p j cell get due =>
      obtain rfl := Option.some.inj (get.symm.trans hget)
      simp [hdue] at due

/-- Without a failing handler no exception leaves `promise_task`. -/
theorem RunsTo.no_exception {ls : List (Label V E F)} {c : Config V E F} (h : RunsTo ls c)
    (hm : NoMismatch ls) : ∀ e, c.control ≠ .done (some e) := by
  refine run_invariant (I := fun c : Config V E F => ∀ e, c.control ≠ .done (some e)) ?_
    (by simp [Config.initial]) hm h
  intro c l c' hc hguard hstep
  cases Step.of_step hstep with
  | op s control o user known => exact hc
  | mismatch s i p j data outer f e get due arg_eq =>
      simp [failing?_of_argFor get due arg_eq] at hguard
  | start => simp
  | next => simp
  | clear => simp
  | adopted => simp
  | called => simp
  | finished => simp
  | returned => simp
  | resume => simp

/-- What a run with failing handlers should look like: the failure rejects the derived promise,
no exception leaves `promise_task`, the other handlers that are due run, and no handler runs a
second time in any later call. -/
structure FailuresStayLocal (ls : List (Label V E F)) : Prop where
  rejects_derived : ∀ before l c c' outer, before ++ [l] <+: ls → RunsTo before c →
    c.failing? = some outer → step c l = some c' →
    c'.state.status? outer = some (.rejected .badCast)
  contained : ∀ before c e, before <+: ls → RunsTo before c → c.control ≠ .done (some e)
  delivered : ∀ before s, before <+: ls → RunsTo before ⟨s, .done none⟩ → DueDelivered s
  at_most_once : ∀ before c, before <+: ls → RunsTo before c →
    (c.state.log.filterMap Event.callOf?).Nodup

/-- Failures stay local in exactly the runs that have none: those in which no rejected handler
is reached whose declared error type does not match. -/
theorem failuresStayLocal_iff {ls : List (Label V E F)} {c : Config V E F} (h : RunsTo ls c) :
    FailuresStayLocal ls ↔ NoMismatch ls := by
  constructor
  · intro hlocal before l after t hls ht
    by_contra hfailing
    obtain ⟨outer, houter⟩ := Option.ne_none_iff_exists'.mp hfailing
    subst hls
    obtain ⟨t', ht', hrest⟩ := run_append_eq_some step h
    obtain rfl := Option.some.inj (ht.symm.trans ht')
    obtain ⟨u, hu, -⟩ := run_cons_eq_some step hrest
    obtain ⟨e, he⟩ := (Step.of_step hu).exit_of_failing houter
    have hprefix : before ++ [l] <+: before ++ l :: after := by simp
    exact hlocal.contained _ u e hprefix (run_concat step ht hu) he
  · intro hm
    refine ⟨?_, ?_, ?_, ?_⟩
    · rintro before l c c' outer ⟨after, rfl⟩ hbefore hfailing -
      have hnone := hm before l after c (by simp) hbefore
      simp [hnone] at hfailing
    · intro before c e hprefix hbefore
      exact hbefore.no_exception (hm.of_prefix hprefix) e
    · intro before s hprefix hbefore
      have hrecorded := hbefore.recorded (hm.of_prefix hprefix)
      exact (hrecorded.deliveredOnce hbefore.drained).dueDelivered
    · intro before c hprefix hbefore
      exact (hbefore.recorded (hm.of_prefix hprefix)).called_nodup

/-- A promise rejected with the object 5 that has a handler for everything and one for the object
9 only; `promise_task` is called twice. -/
def mismatchRun : List (Label ℕ ℕ SampleHandler) :=
  [.op .promise, .op (.catch_ 0 (.plain 1)), .op (.catch_ 0 (.onError 9 2)),
    .op (.reject 0 (.object 5)), .promiseTask, .tau, .tau, .finish (.returned (.value 1)), .tau,
    .resume, .promiseTask, .tau, .tau]

/-- The same handlers on a promise rejected with the object 9. -/
def matchingRun : List (Label ℕ ℕ SampleHandler) :=
  [.op .promise, .op (.catch_ 0 (.plain 1)), .op (.catch_ 0 (.onError 9 2)),
    .op (.reject 0 (.object 9)), .promiseTask, .tau, .tau, .finish (.returned (.value 1)), .tau,
    .finish (.threw (.object 4))] ++ List.replicate 6 .tau

theorem failuresStayLocal_iff_sample : ∃ s : State ℕ ℕ SampleHandler,
    RunsTo matchingRun ⟨s, .done none⟩ ∧
      calls 0 s.log = [(1, .plain 1, .error (.eptr (.object 9))),
        (2, .onError 9 2, .error (.object 9))] ∧
      (FailuresStayLocal matchingRun ↔ NoMismatch matchingRun) := by
  obtain ⟨s, h, hcalls⟩ : ∃ s, RunsTo matchingRun ⟨s, .done none⟩ ∧
      calls 0 s.log = [(1, .plain 1, .error (.eptr (.object 9))),
        (2, .onError 9 2, .error (.object 9))] := ⟨_, rfl, by decide +kernel⟩
  exact ⟨s, h, hcalls, failuresStayLocal_iff h⟩

/-- The exception leaves the first call, and the second call runs the first handler again. -/
theorem mismatchRun_not_local :
    (∃ s, RunsTo (mismatchRun.take 9) ⟨s, .done (some .badCast)⟩) ∧
      (Automaton.run step Config.initial mismatchRun).map (fun c => calls 0 c.state.log) =
        some [(1, .plain 1, .error (.eptr (.object 5))),
          (1, .plain 1, .error (.eptr (.object 5)))] ∧
      ¬ FailuresStayLocal mismatchRun := by
  obtain ⟨s, hs⟩ : ∃ s, RunsTo (mismatchRun.take 9) ⟨s, .done (some .badCast)⟩ :=
    exists_runsTo (by decide +kernel)
  refine ⟨⟨s, hs⟩, by decide +kernel, ?_⟩
  intro hlocal
  exact hlocal.contained _ _ .badCast (List.take_prefix 9 mismatchRun) hs rfl

end Libasync.Promise
