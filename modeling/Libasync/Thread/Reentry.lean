import Libasync.Thread.RunOnce

/-! # A pass within a pass

`promise_task` empties its queue at its end. A call that a handler makes through the loop leaves the
call under way with iterators of a list that is gone. -/

namespace Libasync.Thread

open Promise Automaton
open Reactor (Backend)

variable {V E F : Type*}

/-- No iterator is younger than the list. -/
def Config.Aged (c : Config V E F) : Prop :=
  ∀ epoch control, .promiseTask epoch control ∈ c.stack → epoch ≤ c.queueEpoch

/-- A call of `promise_task` is on top of these frames, and its queue was emptied by another one. -/
def Config.Stale (epoch : ℕ) (below : List (Frame E F)) (c : Config V E F) : Prop :=
  epoch < c.queueEpoch ∧
    ∃ above control, c.stack = above ++ .promiseTask epoch control :: below

section Steps

variable [Blank V] [FnTrait F E] {backend : Backend} {c c' : Config V E F} {l : Label V E F}
  {epoch : ℕ} {below : List (Frame E F)}

/-- The queue is emptied when `promise_task` returns. -/
theorem queueEpoch_le (hstep : step backend c l = some c') : c.queueEpoch ≤ c'.queueEpoch := by
  cases stepped hstep with
  | permanent next rest stack =>
      rw [Config.callPermanent]
      split <;> exact Nat.le_refl _
  | oneshots epoch next rest stack =>
      rw [Config.callOneshot]
      split
      · exact Nat.le_refl _
      · split <;> exact Nat.le_refl _
  | promiseTask epoch own rest c' stack runs =>
      cases passStep runs with
      | returns promises fresh runs => exact Nat.le_succ _
      | _ => exact Nat.le_refl _
  | _ => exact Nat.le_refl _

/-- A call of `promise_task` has begun now, or it was under way before. -/
theorem pass_of_step {control : Control F E} (hstep : step backend c l = some c')
    (hmem : .promiseTask epoch control ∈ c'.stack) :
    epoch = c.queueEpoch ∨ ∃ control', .promiseTask epoch control' ∈ c.stack := by
  have hunwind {stack : List (Frame E F)} (hmem : .promiseTask epoch control ∈ unwind stack) :
      .promiseTask epoch control ∈ stack := (unwind_suffix stack).subset hmem
  cases stepped hstep with
  | promiseInit | reactorInit | op | add | oneshot => exact .inr ⟨control, hmem⟩
  | runOnce rest stack | run rest stack | forever rest stack =>
      exact .inr ⟨control, by simpa using hmem⟩
  | return_ frame rest stack => exact .inr ⟨control, stack ▸ List.mem_cons_of_mem _ hmem⟩
  | throw_ frame rest stack =>
      exact .inr ⟨control, stack ▸ List.mem_cons_of_mem _ (hunwind hmem)⟩
  | finish epoch' i p j outer f rest promises result stack =>
      rcases List.mem_cons.mp hmem with heq | hmem
      · obtain ⟨rfl, -⟩ := Frame.promiseTask.inj heq
        exact .inr ⟨.handler i p j outer f, by simp [stack]⟩
      · exact .inr ⟨control, by simp [stack, hmem]⟩
  | permanent next rest stack =>
      rw [Config.callPermanent] at hmem
      split at hmem
      · exact .inr ⟨control, by simpa [stack] using hmem⟩
      · rcases List.mem_cons.mp hmem with heq | hmem
        · exact .inl (Frame.promiseTask.inj heq).1
        · exact .inr ⟨control, by simpa [stack] using hmem⟩
      · exact .inr ⟨control, by simpa [stack] using hmem⟩
      · exact .inr ⟨control, by simpa [stack] using hmem⟩
  | oneshots epoch' next rest stack =>
      rw [Config.callOneshot] at hmem
      split at hmem
      · simp at hmem
      · split at hmem
        · exact .inr ⟨control, by simpa [stack] using hmem⟩
        · exact .inr ⟨control, by simp [stack, hmem]⟩
  | promiseTask epoch' own rest c' stack runs =>
      cases passStep runs with
      | dangling stale => simp at hmem
      | goes promises control' fresh runs inside =>
          rcases List.mem_cons.mp hmem with heq | hmem
          · exact .inl ((Frame.promiseTask.inj heq).1.trans fresh)
          · exact .inr ⟨control, by simp [stack, hmem]⟩
      | calls promises i p j outer f fresh runs =>
          rcases List.mem_cons.mp (List.mem_of_ne_of_mem (by simp) hmem) with heq | hmem
          · exact .inl ((Frame.promiseTask.inj heq).1.trans fresh)
          · exact .inr ⟨control, by simp [stack, hmem]⟩
      | returns promises fresh runs => exact .inr ⟨control, by simp [stack, hmem]⟩
      | throws promises e fresh runs => exact .inr ⟨control, by simp [stack, hunwind hmem]⟩
  | events n rest stack | ignored n rest stack | event n rest stack =>
      exact .inr ⟨control, by simpa [stack] using hmem⟩
  | queryFails rest stack =>
      exact .inr ⟨control, stack ▸ List.mem_cons_of_mem _ (hunwind hmem)⟩
  | noEvents rest stack => exact .inr ⟨control, stack ▸ List.mem_cons_of_mem _ hmem⟩

theorem Config.Aged.step (h : c.Aged) (hstep : Thread.step backend c l = some c') : c'.Aged := by
  intro epoch control hmem
  have hle := queueEpoch_le hstep
  rcases pass_of_step hstep hmem with rfl | ⟨control', hold⟩
  · exact hle
  · exact Nat.le_trans (h epoch control' hold) hle

/-- A stale call never returns, and no exception leaves it. -/
theorem Config.Stale.step (h : c.Stale epoch below) (hlayered : c.Layered)
    (hstep : Thread.step backend c l = some c') : c'.stack = [] ∨ c'.Stale epoch below := by
  obtain ⟨hlt, above, control, hstack⟩ := h
  have hlt' : epoch < c'.queueEpoch := Nat.lt_of_lt_of_le hlt (queueEpoch_le hstep)
  cases above with
  | nil =>
      have hpass := step_promiseTask hstack hstep
      cases hpass with
      | dangling stale => exact .inl rfl
      | goes | calls | returns | throws => omega
  | cons top above =>
      have habove := aboveStep hlayered hstack hstep
      generalize hstack' : c'.stack = stack' at habove
      cases habove with
      | stays above => exact .inr ⟨hlt', above, control, hstack'⟩
      | unwinds uncaught =>
          have := uncaught (.promiseTask epoch control) rfl
          cases this
      | dangles => exact .inl rfl
      | finishes epoch' i p j outer f rest handler =>
          obtain ⟨heq, rfl⟩ := List.cons.inj handler
          obtain ⟨rfl, -⟩ := Frame.promiseTask.inj heq
          exact .inr ⟨hlt', [], _, hstack'⟩

end Steps

section Runs

variable [Blank V] [FnTrait F E] {backend : Backend} {c c' d : Config V E F}

/-- When `promise_task` returns while another call of it is under way, that call never returns:
whatever happens, it is left on the stack until its iterators are used, which is undefined. -/
theorem nested_pass_is_fatal {before after : List (Label V E F)} {epoch epoch' : ℕ}
    {own control : Control F E} {above below : List (Frame E F)} {promises : State V E F}
    (hbefore : run (step backend) {} before = some c)
    (hstack : c.stack = .promiseTask epoch own :: (above ++ .promiseTask epoch' control :: below))
    (hreturns : Promise.step ⟨c.promises, own⟩ .tau = some ⟨promises, .done none⟩)
    (hafter : run (step backend) c (.tau :: after) = some d) :
    d.stack = [] ∨ d.Stale epoch' below := by
  obtain ⟨c', hc', hafter⟩ := run_cons_eq_some _ hafter
  have haged : c.Aged := run_invariant_of_step (fun _ _ _ h hl => Config.Aged.step h hl)
    (fun epoch control hmem => by simp at hmem) hbefore
  have hlayered := layered hbefore
  have hstart : c'.stack = [] ∨ c'.Stale epoch' below := by
    have hold : epoch' ≤ c.queueEpoch := haged epoch' control (by simp [hstack])
    cases step_promiseTask hstack hc' with
    | dangling stale => exact .inl rfl
    | goes promises' control' fresh runs inside =>
        obtain ⟨-, rfl⟩ := Promise.Config.mk.inj (Option.some.inj (hreturns.symm.trans runs))
        cases inside
    | calls promises' i p j outer f fresh runs =>
        cases hreturns.symm.trans runs
    | returns promises' fresh runs =>
        exact .inr ⟨Nat.lt_succ_of_le hold, above, control, rfl⟩
    | throws promises' e fresh runs => cases hreturns.symm.trans runs
  refine (run_invariant_of_step
    (I := fun u : Config V E F => u.Layered ∧ (u.stack = [] ∨ u.Stale epoch' below)) ?_
    ⟨hlayered.step hc', hstart⟩ hafter).2
  rintro u l u' ⟨hu, hempty | hstale⟩ hl
  · simp [step, hempty] at hl
  · exact ⟨hu.step hl, hstale.step hu hl⟩

end Runs

/-- A handler calls `run_once`, and the nested pass calls the handler again. -/
def nestedRun : List (Label ℕ ℕ SampleHandler) :=
  [.promiseInit, .op .promise, .op (.then_ 0 (.plain 0)), .op (.resolve 0 7), .runOnce, .tau, .tau,
    .tau, .runOnce, .tau, .tau, .tau, .finish (.returned (.value 8)), .tau, .tau, .tau]

theorem nested_pass_is_fatal_sample : ∃ d : Config ℕ ℕ SampleHandler,
    d.stack = [.promiseTask 0 (.callBack 0 0 1), .permanents 1, .user] ∧
      d.Stale 0 [.permanents 1, .user] := by
  obtain ⟨c, d, promises, hc, hd, hstack, hreturns, hlast⟩ :
      ∃ (c d : Config ℕ ℕ SampleHandler) (promises : _), run (step .epoll) {} nestedRun = some c ∧
        run (step .epoll) c (.tau :: [.tau, .tau, .finish (.returned (.value 9))]) = some d ∧
        c.stack = .promiseTask 0 (.turn 2) :: ([.permanents 1, .user] ++
          .promiseTask 0 (.handler 0 0 0 1 (.plain 0)) :: [.permanents 1, .user]) ∧
        Promise.step ⟨c.promises, .turn 2⟩ .tau = some ⟨promises, .done none⟩ ∧
        d.stack = [.promiseTask 0 (.callBack 0 0 1), .permanents 1, .user] :=
    ⟨_, _, _, rfl, rfl, rfl, rfl, rfl⟩
  refine ⟨d, hlast, ?_⟩
  rcases nested_pass_is_fatal hc hstack hreturns hd with hempty | hstale
  · rw [hlast] at hempty
    cases hempty
  · exact hstale

end Libasync.Thread
