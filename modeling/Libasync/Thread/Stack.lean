import Libasync.Promise.Steps
import Libasync.Thread.Model
import Mathlib.Data.List.Chain

/-! # The stack of the thread

Which frame can stand on which one, and what an exception leaves of a stack. -/

namespace Libasync.Thread

open Promise Automaton
open Reactor (Backend)

variable {V E F : Type*}

/-- The first frame is code that the second one has called. -/
def Frame.calledBy : Frame E F → Frame E F → Bool
  | .user, .permanents _ | .user, .oneshots .. | .user, .demultiplex _ => true
  | .user, .promiseTask _ (.handler ..) => true
  | .permanents _, .user | .permanents _, .forever => true
  | .oneshots .., .user | .oneshots .., .forever => true
  | .forever, .user => true
  | .promiseTask .., .permanents _ | .waiting, .permanents _ | .demultiplex _, .permanents _ => true
  | _, _ => false

/-- Each frame was called by the one below it, and the last one is the main program. -/
structure Chained (stack : List (Frame E F)) : Prop where
  chain : stack.IsChain fun above below => above.calledBy below = true
  bottom : ∀ frame ∈ stack.getLast?, frame = .user

def Config.Layered (c : Config V E F) : Prop := Chained c.stack

namespace Chained

variable {top top' called frame : Frame E F} {below : List (Frame E F)}

theorem nil : Chained ([] : List (Frame E F)) := ⟨.nil, by simp⟩

theorem of_suffix {stack stack' : List (Frame E F)} (h : Chained stack) (hs : stack' <:+ stack) :
    Chained stack' := by
  refine ⟨h.chain.suffix hs, fun frame hframe => h.bottom frame ?_⟩
  obtain ⟨above, rfl⟩ := hs
  have hne : stack' ≠ [] := by
    rintro rfl
    simp at hframe
  rwa [List.getLast?_append_of_ne_nil above hne]

theorem tail (h : Chained (top :: below)) : Chained below :=
  h.of_suffix (List.suffix_cons top below)

theorem calledBy (h : Chained (top :: frame :: below)) : top.calledBy frame = true :=
  (List.isChain_cons_cons.mp h.chain).1

theorem cons (h : Chained (frame :: below)) (htop : top.calledBy frame = true) :
    Chained (top :: frame :: below) :=
  ⟨List.isChain_cons_cons.mpr ⟨htop, h.chain⟩,
    fun last hlast => h.bottom last (by simpa using hlast)⟩

/-- Only the main program stands on nothing. -/
theorem exists_below (h : Chained (top :: below)) (htop : top ≠ .user) :
    ∃ frame rest, below = frame :: rest ∧ top.calledBy frame = true := by
  cases below with
  | nil => exact absurd (h.bottom top rfl) htop
  | cons frame rest => exact ⟨frame, rest, rfl, h.calledBy⟩

/-- Another frame that the same code has called. -/
theorem replace (h : Chained (top :: below)) (hne : top ≠ .user)
    (htop : ∀ frame, top.calledBy frame = true → top'.calledBy frame = true) :
    Chained (top' :: below) := by
  obtain ⟨frame, rest, rfl, hcalled⟩ := h.exists_below hne
  exact h.tail.cons (htop frame hcalled)

/-- Another frame that the same code has called, and that makes a call. -/
theorem call (h : Chained (top :: below)) (hne : top ≠ .user)
    (htop : ∀ frame, top.calledBy frame = true → top'.calledBy frame = true)
    (hcalled : called.calledBy top' = true) : Chained (called :: top' :: below) :=
  (h.replace hne htop).cons hcalled

/-- The code above a pass is its handler. -/
theorem handler {stack above : List (Frame E F)} {epoch : ℕ} {control : Control F E}
    (h : Chained stack) (hstack : stack = above ++ .promiseTask epoch control :: below)
    (hne : above ≠ []) :
    (∃ i p j outer f, control = .handler i p j outer f) ∧ ∃ above', above = above' ++ [.user] := by
  obtain ⟨above', last, rfl⟩ := (List.eq_nil_or_concat' above).resolve_left hne
  have hcalled : last.calledBy (.promiseTask epoch control) = true := by
    refine (h.of_suffix ?_ : Chained (last :: .promiseTask epoch control :: below)).calledBy
    exact ⟨above', by simp [hstack]⟩
  cases last with
  | user =>
      cases control with
      | handler i p j outer f => exact ⟨⟨i, p, j, outer, f, rfl⟩, above', rfl⟩
      | idle | turn | callBack | done => cases hcalled
  | _ => cases hcalled

end Chained

/-! ### Exceptions -/

theorem unwind_suffix (stack : List (Frame E F)) : unwind stack <:+ stack := by
  induction stack with
  | nil => exact List.suffix_rfl
  | cons frame rest ih =>
      cases frame with
      | user => exact List.suffix_rfl
      | _ => exact ih.trans (List.suffix_cons _ rest)

@[simp] theorem unwind_user (rest : List (Frame E F)) :
    unwind (.user :: rest) = .user :: rest := rfl

/-- An exception does not come past user code. -/
theorem unwind_append_user (above rest : List (Frame E F)) :
    ∃ above', above' <:+ above ∧ unwind (above ++ .user :: rest) = above' ++ .user :: rest := by
  induction above with
  | nil => exact ⟨[], List.suffix_rfl, rfl⟩
  | cons frame above ih =>
      cases frame with
      | user => exact ⟨.user :: above, List.suffix_rfl, rfl⟩
      | _ =>
          obtain ⟨above', hsuffix, heq⟩ := ih
          exact ⟨above', hsuffix.trans (List.suffix_cons _ above), heq⟩

/-! ### Frames that stay -/

theorem unwind_append (above rest : List (Frame E F)) :
    (∃ above', unwind (above ++ rest) = above' ++ rest) ∨ unwind (above ++ rest) = unwind rest := by
  induction above with
  | nil => exact .inr rfl
  | cons frame above ih =>
      cases frame with
      | user => exact .inl ⟨.user :: above, rfl⟩
      | _ => exact ih

/-- What a step of the code above these frames leaves of the stack. -/
inductive AboveStep (rest : List (Frame E F)) : List (Frame E F) → Prop where
  | stays (above) : AboveStep rest (above ++ rest)
  | unwinds (uncaught : ∀ frame ∈ rest.head?, frame.catches = false) : AboveStep rest (unwind rest)
  /-- what follows is undefined -/
  | dangles : AboveStep rest []
  | finishes (epoch i p j outer f below)
      (handler : rest = .promiseTask epoch (.handler i p j outer f) :: below) :
      AboveStep rest (.promiseTask epoch (.callBack i p (j + 1)) :: below)

/-- An exception is caught above the frames if they are those of a handler. -/
theorem AboveStep.of_unwind {above rest : List (Frame E F)} (hchain : Chained (above ++ rest))
    (hfirst : above = [] → ∀ frame ∈ rest.head?, frame.catches = false) :
    AboveStep rest (unwind (above ++ rest)) := by
  have huncaught (h : ∀ frame ∈ rest.head?, frame.catches = false) :
      AboveStep rest (unwind (above ++ rest)) := by
    rcases unwind_append above rest with ⟨above', heq⟩ | heq
    · exact heq ▸ .stays above'
    · exact heq ▸ .unwinds h
  cases rest with
  | nil => exact huncaught (by simp)
  | cons frame below =>
      cases frame with
      | promiseTask epoch control =>
          have hne : above ≠ [] := by
            intro hnil
            have := hfirst hnil (.promiseTask epoch control) rfl
            cases this
          obtain ⟨-, above', rfl⟩ := hchain.handler rfl hne
          obtain ⟨above'', -, heq⟩ :=
            unwind_append_user above' (.promiseTask epoch control :: below)
          rw [List.append_assoc, List.singleton_append, heq, List.append_cons]
          exact .stays (above'' ++ [.user])
      | _ => exact huncaught (by simp [Frame.catches])

/-! ### Steps -/

section Machine

variable [Blank V] [FnTrait F E] {backend : Backend} {c c' : Config V E F} {l : Label V E F}
  {epoch : ℕ} {control : Control F E} {rest : List (Frame E F)}

/-- The loops of `promise_task` have control. -/
def inLoops : Control F E → Bool
  | .turn _ | .callBack .. => true
  | _ => false

/-- What a step of `promise_task` makes of the configuration. -/
inductive PassStep (c : Config V E F) (epoch : ℕ) (control : Control F E)
    (rest : List (Frame E F)) : Config V E F → Prop where
  /-- its queue was cleared by another call -/
  | dangling (stale : epoch ≠ c.queueEpoch) : PassStep c epoch control rest { c with stack := [] }
  | goes (promises control') (fresh : epoch = c.queueEpoch)
      (runs : Promise.step ⟨c.promises, control⟩ .tau = some ⟨promises, control'⟩)
      (inside : inLoops control' = true) :
      PassStep c epoch control rest
        { c with promises, stack := .promiseTask epoch control' :: rest }
  | calls (promises i p j outer f) (fresh : epoch = c.queueEpoch)
      (runs : Promise.step ⟨c.promises, control⟩ .tau =
        some ⟨promises, .handler i p j outer f⟩) :
      PassStep c epoch control rest
        { c with
          promises
          stack := .user :: .promiseTask epoch (.handler i p j outer f) :: rest }
  | returns (promises) (fresh : epoch = c.queueEpoch)
      (runs : Promise.step ⟨c.promises, control⟩ .tau = some ⟨promises, .done none⟩) :
      PassStep c epoch control rest
        { c with promises, queueEpoch := c.queueEpoch + 1, stack := rest }
  | throws (promises e) (fresh : epoch = c.queueEpoch)
      (runs : Promise.step ⟨c.promises, control⟩ .tau = some ⟨promises, .done (some e)⟩) :
      PassStep c epoch control rest { c with promises, stack := unwind rest }

theorem passStep (h : c.runPromiseTask epoch control rest = some c') :
    PassStep c epoch control rest c' := by
  rw [Config.runPromiseTask] at h
  split at h
  · rename_i hstale
    obtain rfl := Option.some.inj h
    exact .dangling hstale
  · rename_i hfresh
    obtain ⟨⟨promises, control'⟩, htau, rfl⟩ := Option.map_eq_some_iff.mp h
    have hfresh : epoch = c.queueEpoch := by simpa using hfresh
    have hstep : Promise.step ⟨c.promises, control⟩ .tau = some ⟨promises, control'⟩ := htau
    cases control' with
    | idle => cases Promise.Step.of_step hstep
    | turn i => exact .goes promises (.turn i) hfresh hstep rfl
    | callBack i p j => exact .goes promises (.callBack i p j) hfresh hstep rfl
    | handler i p j outer f => exact .calls promises i p j outer f hfresh hstep
    | done exit =>
        cases exit with
        | none => exact .returns promises hfresh hstep
        | some e => exact .throws promises e hfresh hstep

omit [Blank V] [FnTrait F E] in
theorem Config.Layered.initial : Config.Layered ({} : Config V E F) :=
  ⟨.singleton _, by simp⟩

theorem PassStep.layered (h : PassStep c epoch control rest c')
    (hlayered : Chained (.promiseTask epoch control :: rest)) : c'.Layered := by
  cases h with
  | dangling => exact .nil
  | goes promises control' =>
      exact hlayered.replace (by simp) fun frame hframe => by cases frame <;> exact hframe
  | calls promises i p j outer f =>
      exact hlayered.call (by simp) (fun frame hframe => by cases frame <;> exact hframe) rfl
  | returns promises => exact hlayered.tail
  | throws promises e => exact hlayered.tail.of_suffix (unwind_suffix rest)

theorem Config.Layered.step (h : c.Layered) (hstep : Thread.step backend c l = some c') :
    c'.Layered := by
  have hchain {stack : List (Frame E F)} (hstack : c.stack = stack) : Chained stack := hstack ▸ h
  have hunwind {stack : List (Frame E F)} (hstack : Chained stack) : Chained (unwind stack) :=
    hstack.of_suffix (unwind_suffix stack)
  cases stepped hstep with
  | promiseInit | reactorInit | op | add | oneshot => exact h
  | runOnce rest stack | run rest stack =>
      rw [Config.Layered, stack]
      exact (hchain stack).cons rfl
  | return_ frame rest stack => exact (hchain stack).tail
  | throw_ frame rest stack => exact hunwind (hchain stack).tail
  | finish epoch i p j outer f rest promises result stack =>
      refine (hchain stack).tail.replace (by simp) fun frame hframe => ?_
      cases frame <;> exact hframe
  | permanent next rest stack =>
      have hnext : ∀ frame : Frame E F, (Frame.permanents next).calledBy frame = true →
          (Frame.permanents (next + 1)).calledBy frame = true := by
        intro frame hframe
        cases frame <;> exact hframe
      rw [Config.callPermanent]
      split
      · exact (hchain stack).call (by simp) hnext rfl
      · exact (hchain stack).call (by simp) hnext rfl
      · exact (hchain stack).call (by simp) hnext rfl
      · refine (hchain stack).replace (by simp) fun frame hframe => ?_
        cases frame <;> exact hframe
  | oneshots epoch next rest stack =>
      rw [Config.callOneshot]
      split
      · exact .nil
      · split
        · refine (hchain stack).call (by simp) (fun frame hframe => ?_) rfl
          cases frame <;> exact hframe
        · exact (hchain stack).tail
  | forever rest stack =>
      rw [Config.Layered, stack]
      exact (hchain stack).cons rfl
  | promiseTask epoch control rest c' stack runs =>
      exact PassStep.layered (passStep runs) (hchain stack)
  | events n rest stack | ignored n rest stack =>
      refine (hchain stack).replace (by simp) fun frame hframe => ?_
      cases frame <;> exact hframe
  | queryFails rest stack => exact hunwind (hchain stack).tail
  | noEvents rest stack => exact (hchain stack).tail
  | event n rest stack =>
      refine (hchain stack).call (by simp) (fun frame hframe => ?_) rfl
      cases frame <;> exact hframe

theorem layered {ls : List (Label V E F)} (h : run (Thread.step backend) {} ls = some c) :
    c.Layered :=
  run_invariant_of_step (fun _ _ _ hc hl => hc.step hl) .initial h

/-- The code that a frame has called does not change the frame, unless it is a handler. -/
theorem aboveStep {top : Frame E F} {above rest : List (Frame E F)} (hlayered : c.Layered)
    (hstack : c.stack = top :: (above ++ rest)) (hstep : step backend c l = some c') :
    AboveStep rest c'.stack := by
  have hchain : Chained (top :: (above ++ rest)) := hstack ▸ hlayered
  have hbelow {top' : Frame E F} {rest' : List (Frame E F)} (stack : c.stack = top' :: rest') :
      top' = top ∧ rest' = above ++ rest := List.cons.inj (stack.symm.trans hstack)
  have hunwind (hne : top ≠ .user) : AboveStep rest (unwind (above ++ rest)) := by
    refine .of_unwind hchain.tail ?_
    rintro rfl frame hframe
    obtain ⟨below, rfl⟩ := List.head?_eq_some_iff.mp hframe
    cases frame with
    | promiseTask epoch control =>
        have hcalled := hchain.calledBy
        cases top with
        | user => exact absurd rfl hne
        | _ => cases hcalled
    | _ => rfl
  cases stepped hstep with
  | promiseInit rest' stack | reactorInit rest' stack | op rest' o stack | add rest' stack
  | oneshot rest' stack =>
      have hsame : AboveStep rest c.stack := hstack ▸ .stays (top :: above)
      exact hsame
  | runOnce rest' stack | run rest' stack | forever rest' stack =>
      rw [hstack]
      exact .stays (_ :: top :: above)
  | return_ frame rest' stack =>
      rw [(hbelow stack).2]
      exact .stays above
  | throw_ frame rest' stack =>
      have huncaught : frame.catches = false := by
        by_contra hcatches
        simp [step, stack, hcatches] at hstep
      rw [(hbelow stack).2]
      refine .of_unwind hchain.tail ?_
      rintro rfl
      have hrest := (hbelow stack).2
      rw [List.nil_append] at hrest
      simp [← hrest, huncaught]
  | finish epoch i p j outer f rest' promises result stack =>
      cases above with
      | nil => exact .finishes epoch i p j outer f rest' (hbelow stack).2.symm
      | cons frame above =>
          obtain ⟨-, rfl⟩ := List.cons.inj (hbelow stack).2
          exact .stays (_ :: above)
  | permanent next rest' stack =>
      obtain ⟨-, rfl⟩ := hbelow stack
      rw [Config.callPermanent]
      split
      · exact .stays (_ :: _ :: above)
      · exact .stays (_ :: _ :: above)
      · exact .stays (_ :: _ :: above)
      · exact .stays (_ :: above)
  | oneshots epoch next rest' stack =>
      obtain ⟨-, rfl⟩ := hbelow stack
      rw [Config.callOneshot]
      split
      · exact .dangles
      · split
        · exact .stays (_ :: _ :: above)
        · exact .stays above
  | promiseTask epoch own rest' c' stack runs =>
      obtain ⟨rfl, rfl⟩ := hbelow stack
      cases passStep runs with
      | dangling => exact .dangles
      | goes => exact .stays (_ :: above)
      | calls => exact .stays (_ :: _ :: above)
      | returns => exact .stays above
      | throws => exact hunwind (by simp)
  | events n rest' stack | ignored n rest' stack =>
      obtain ⟨-, rfl⟩ := hbelow stack
      exact .stays (_ :: above)
  | queryFails rest' stack =>
      obtain ⟨rfl, rfl⟩ := hbelow stack
      exact hunwind (by simp)
  | noEvents rest' stack =>
      rw [(hbelow stack).2]
      exact .stays above
  | event n rest' stack =>
      obtain ⟨-, rfl⟩ := hbelow stack
      exact .stays (_ :: _ :: above)

end Machine

end Libasync.Thread
