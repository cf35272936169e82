import Libasync.EventMixin.Registry

/-! # The mix-in and the registry

`trigger` calls what it has found in its copy of the store. Whether that is what the registry has
depends on the calls of `off` only. -/

namespace Libasync.EventMixin

open Automaton Foundation

variable {H A : Type*}

/-! ### The calls of one `trigger` -/

/-- The call of `trigger` that an entry of the history belongs to. -/
def Happening.number? : Happening H A → Option ℕ
  | .trigger number .. | .call number .. | .finished number => some number
  | .on .. | .off .. => none

def Frame.number? : Frame H A → Option ℕ
  | .calling number _ _ => some number
  | .user => none

/-- A call of `trigger` has called the first of its handlers, and the frame has the rest. -/
structure Config.Calling (c : Config H A) : Prop where
  number_lt : ∀ h ∈ c.log, ∀ number, h.number? = some number → number < c.numTriggers
  unique : ∀ number event calls arg event' calls' arg',
    .trigger number event calls arg ∈ c.log → .trigger number event' calls' arg' ∈ c.log →
      calls = calls' ∧ arg = arg'
  called : ∀ number event calls arg, .trigger number event calls arg ∈ c.log →
    calledBy number c.log <+: calls.map (·, arg) ∧
      (.finished number ∈ c.log → calledBy number c.log = calls.map (·, arg))
  frames : ∀ number calls arg, .calling number calls arg ∈ c.stack → ∃ event all,
    .trigger number event all arg ∈ c.log ∧
      calledBy number c.log ++ calls.map (·, arg) = all.map (·, arg) ∧
      .finished number ∉ c.log
  distinct : (c.stack.filterMap Frame.number?).Nodup

theorem calledBy_concat (number : ℕ) (log : List (Happening H A)) (h : Happening H A) :
    calledBy number (log ++ [h]) =
      match h with
      | .call k handle handler arg =>
          if k = number then calledBy number log ++ [((handle, handler), arg)]
          else calledBy number log
      | _ => calledBy number log := by
  cases h with
  | call k handle handler arg =>
      by_cases hk : k = number <;> simp [calledBy, List.filterMap_append, hk]
  | _ => simp [calledBy, List.filterMap_append]

theorem unwind_suffix (stack : List (Frame H A)) : unwind stack <:+ stack := by
  induction stack with
  | nil => exact List.suffix_rfl
  | cons frame rest ih =>
      cases frame with
      | user => exact List.suffix_rfl
      | calling number calls arg => exact ih.trans (List.suffix_cons _ rest)

namespace Config.Calling

variable {c : Config H A}

theorem initial : Config.Calling ({} : Config H A) :=
  ⟨by simp, by simp, by simp, by simp, List.nodup_nil⟩

/-- Frames are left out, and the history gets an entry that belongs to no `trigger`. -/
theorem of_suffix (h : c.Calling) {stack : List (Frame H A)} (hstack : stack <:+ c.stack) :
    Config.Calling { c with stack := stack } :=
  { h with
    frames := fun number calls arg hmem => h.frames number calls arg (hstack.subset hmem)
    distinct := h.distinct.sublist (hstack.sublist.filterMap _) }

theorem unrelated (h : c.Calling) {happening : Happening H A} (hnone : happening.number? = none)
    {data : EventMixinData H} :
    Config.Calling { c with data := data, log := c.log ++ [happening] } := by
  have hmem {entry : Happening H A} {number : ℕ} (hentry : entry.number? = some number) :
      entry ∈ c.log ++ [happening] ↔ entry ∈ c.log := by
    have hne : entry ≠ happening := fun heq => by
      rw [heq, hnone] at hentry
      cases hentry
    simp [hne]
  have hcalled (number : ℕ) : calledBy number (c.log ++ [happening]) = calledBy number c.log := by
    rw [calledBy_concat]
    cases happening <;> simp_all [Happening.number?]
  refine ⟨?_, ?_, ?_, ?_, h.distinct⟩
  · intro entry hentry number hnumber
    exact h.number_lt entry ((hmem hnumber).mp hentry) number hnumber
  · intro number event calls arg event' calls' arg' ht ht'
    exact h.unique number event calls arg event' calls' arg' ((hmem rfl).mp ht) ((hmem rfl).mp ht')
  · intro number event calls arg ht
    obtain ⟨hfront, hall⟩ := h.called number event calls arg ((hmem rfl).mp ht)
    dsimp only
    rw [hcalled]
    exact ⟨hfront, fun hfinished => hall ((hmem rfl).mp hfinished)⟩
  · intro number calls arg hframe
    obtain ⟨event, all, ht, hall, hfinished⟩ := h.frames number calls arg hframe
    refine ⟨event, all, (hmem rfl).mpr ht, ?_, fun hmem' => hfinished ((hmem rfl).mp hmem')⟩
    dsimp only
    rw [hcalled]
    exact hall

theorem trigger (h : c.Calling) (event : String) (calls : List (ℕ × H)) (arg : A) :
    Config.Calling
      { c with
        numTriggers := c.numTriggers + 1
        log := c.log ++ [.trigger c.numTriggers event calls arg]
        stack := .calling c.numTriggers calls arg :: c.stack } := by
  have hfresh {entry : Happening H A} (hnumber : entry.number? = some c.numTriggers) :
      entry ∉ c.log := fun hmem => Nat.lt_irrefl _ (h.number_lt entry hmem _ hnumber)
  have hnone : calledBy c.numTriggers c.log = [] := by
    apply List.filterMap_eq_nil_iff.mpr
    intro entry hmem
    cases entry with
    | call k handle handler arg =>
        by_cases hk : k = c.numTriggers
        · exact absurd hmem (hfresh (by simp [Happening.number?, hk]))
        · simp [hk]
    | _ => rfl
  have hcalled (number : ℕ) :
      calledBy number (c.log ++ [.trigger c.numTriggers event calls arg]) =
        calledBy number c.log := by
    rw [calledBy_concat]
  have hfinished (number : ℕ) :
      .finished number ∈ c.log ++ [.trigger c.numTriggers event calls arg] ↔
        .finished number ∈ c.log := by
    simp
  have htrigger {number : ℕ} {event' : String} {calls' : List (ℕ × H)} {arg' : A}
      (ht : .trigger number event' calls' arg' ∈
        c.log ++ [.trigger c.numTriggers event calls arg]) :
      .trigger number event' calls' arg' ∈ c.log ∧ number ≠ c.numTriggers ∨
        number = c.numTriggers ∧ calls' = calls ∧ arg' = arg := by
    rcases List.mem_append.mp ht with hold | hnew
    · refine .inl ⟨hold, ?_⟩
      rintro rfl
      exact hfresh rfl hold
    · simp only [List.mem_singleton, Happening.trigger.injEq] at hnew
      exact .inr ⟨hnew.1, hnew.2.2.1, hnew.2.2.2⟩
  refine ⟨?_, ?_, ?_, ?_, ?_⟩
  · intro entry hentry number hnumber
    rcases List.mem_append.mp hentry with hold | hnew
    · exact Nat.lt_succ_of_lt (h.number_lt entry hold number hnumber)
    · obtain rfl := List.mem_singleton.mp hnew
      obtain rfl : c.numTriggers = number := by simpa [Happening.number?] using hnumber
      exact Nat.lt_succ_self _
  · intro number event₁ calls₁ arg₁ event₂ calls₂ arg₂ ht₁ ht₂
    rcases htrigger ht₁ with ⟨hold₁, hne⟩ | ⟨rfl, rfl, rfl⟩
    · rcases htrigger ht₂ with ⟨hold₂, -⟩ | ⟨hnew, -⟩
      · exact h.unique number event₁ calls₁ arg₁ event₂ calls₂ arg₂ hold₁ hold₂
      · exact absurd hnew hne
    · rcases htrigger ht₂ with ⟨-, hne⟩ | ⟨-, hcalls, harg⟩
      · exact absurd rfl hne
      · exact ⟨hcalls.symm, harg.symm⟩
  · intro number event' calls' arg' ht
    dsimp only
    rw [hcalled, hfinished]
    rcases htrigger ht with ⟨hold, -⟩ | ⟨rfl, rfl, rfl⟩
    · exact h.called number event' calls' arg' hold
    · rw [hnone]
      exact ⟨List.nil_prefix, fun hmem => absurd hmem (hfresh rfl)⟩
  · intro number calls' arg' hframe
    dsimp only
    rw [hcalled, hfinished]
    rcases List.mem_cons.mp hframe with hnew | hold
    · obtain ⟨rfl, rfl, rfl⟩ := Frame.calling.inj hnew
      refine ⟨event, calls', by simp, ?_, hfresh rfl⟩
      rw [hnone, List.nil_append]
    · obtain ⟨event', all, ht, hall, hnot⟩ := h.frames number calls' arg' hold
      exact ⟨event', all, List.mem_append_left _ ht, hall, hnot⟩
  · rw [List.filterMap_cons_some (by rfl : Frame.number? _ = some c.numTriggers), List.nodup_cons]
    refine ⟨?_, h.distinct⟩
    intro hmem
    obtain ⟨frame, hframe, hnumber⟩ := List.mem_filterMap.mp hmem
    cases frame with
    | user => cases hnumber
    | calling number calls' arg' =>
        obtain rfl : number = c.numTriggers := by simpa [Frame.number?] using hnumber
        obtain ⟨event', all, ht, -⟩ := h.frames _ calls' arg' hframe
        exact hfresh rfl ht

theorem number_lt_concat (h : c.Calling) {number : ℕ} {event : String} {all : List (ℕ × H)}
    {arg : A} {new : Happening H A} (ht : .trigger number event all arg ∈ c.log)
    (hnew : new.number? = some number) :
    ∀ entry ∈ c.log ++ [new], ∀ k, entry.number? = some k → k < c.numTriggers := by
  intro entry hentry k hk
  rcases List.mem_append.mp hentry with hold | hlast
  · exact h.number_lt entry hold k hk
  · obtain rfl := List.mem_singleton.mp hlast
    obtain rfl := Option.some.inj (hnew.symm.trans hk)
    exact h.number_lt _ ht _ rfl

theorem call (h : c.Calling) {number handle : ℕ} {handler : H} {calls : List (ℕ × H)} {arg : A}
    {rest : List (Frame H A)}
    (hstack : c.stack = .calling number ((handle, handler) :: calls) arg :: rest) :
    Config.Calling
      { c with
        log := c.log ++ [.call number handle handler arg]
        stack := .user :: .calling number calls arg :: rest } := by
  obtain ⟨event, all, ht, hall, hfinished⟩ :=
    h.frames number ((handle, handler) :: calls) arg (by simp [hstack])
  have hdistinct := h.distinct
  rw [hstack, List.filterMap_cons_some (by rfl : Frame.number? _ = some number),
    List.nodup_cons] at hdistinct
  have hcalled (k : ℕ) : calledBy k (c.log ++ [.call number handle handler arg]) =
      if number = k then calledBy k c.log ++ [((handle, handler), arg)]
      else calledBy k c.log := by
    rw [calledBy_concat]
  have hsame : calledBy number c.log ++ [((handle, handler), arg)] ++ calls.map (·, arg) =
      all.map (·, arg) := by
    rw [← hall]
    simp
  refine ⟨h.number_lt_concat ht rfl, ?_, ?_, ?_, ?_⟩
  · intro k event₁ calls₁ arg₁ event₂ calls₂ arg₂ ht₁ ht₂
    exact h.unique k event₁ calls₁ arg₁ event₂ calls₂ arg₂ (by simpa using ht₁) (by simpa using ht₂)
  · intro k event' calls' arg' ht'
    have hold : .trigger k event' calls' arg' ∈ c.log := by simpa using ht'
    dsimp only
    rw [hcalled]
    by_cases hk : number = k
    · subst hk
      obtain ⟨rfl, rfl⟩ := h.unique number event all arg event' calls' arg' ht hold
      rw [if_pos rfl]
      refine ⟨⟨_, hsame⟩, fun hmem => ?_⟩
      exact absurd (by simpa using hmem) hfinished
    · rw [if_neg hk]
      simpa using h.called k event' calls' arg' hold
  · intro k calls' arg' hframe
    simp only [List.mem_cons, reduceCtorEq, false_or] at hframe
    dsimp only
    rw [hcalled]
    rcases hframe with hnew | hold
    · obtain ⟨rfl, rfl, rfl⟩ := Frame.calling.inj hnew
      rw [if_pos rfl]
      exact ⟨event, all, List.mem_append_left _ ht, hsame, by simpa using hfinished⟩
    · have hk : number ≠ k := by
        rintro rfl
        exact hdistinct.1 (List.mem_filterMap.mpr ⟨_, hold, rfl⟩)
      rw [if_neg hk]
      obtain ⟨event', all', ht', hall', hnot⟩ := h.frames k calls' arg' (by simp [hstack, hold])
      exact ⟨event', all', List.mem_append_left _ ht', hall', by simpa using hnot⟩
  · rw [List.filterMap_cons_none rfl,
      List.filterMap_cons_some (by rfl : Frame.number? _ = some number), List.nodup_cons]
    exact hdistinct

theorem finish (h : c.Calling) {number : ℕ} {arg : A} {rest : List (Frame H A)}
    (hstack : c.stack = .calling number [] arg :: rest) :
    Config.Calling { c with log := c.log ++ [.finished number], stack := rest } := by
  obtain ⟨event, all, ht, hall, hfinished⟩ := h.frames number [] arg (by simp [hstack])
  have hdistinct := h.distinct
  rw [hstack, List.filterMap_cons_some (by rfl : Frame.number? _ = some number),
    List.nodup_cons] at hdistinct
  have hcalled (k : ℕ) : calledBy k (c.log ++ [.finished number]) = calledBy k c.log := by
    rw [calledBy_concat]
  refine ⟨h.number_lt_concat ht rfl, ?_, ?_, ?_, hdistinct.2⟩
  · intro k event₁ calls₁ arg₁ event₂ calls₂ arg₂ ht₁ ht₂
    exact h.unique k event₁ calls₁ arg₁ event₂ calls₂ arg₂ (by simpa using ht₁) (by simpa using ht₂)
  · intro k event' calls' arg' ht'
    have hold : .trigger k event' calls' arg' ∈ c.log := by simpa using ht'
    obtain ⟨hfront, hdone⟩ := h.called k event' calls' arg' hold
    dsimp only
    rw [hcalled]
    refine ⟨hfront, fun hmem => ?_⟩
    simp only [List.mem_append, List.mem_singleton, Happening.finished.injEq] at hmem
    rcases hmem with hmem | rfl
    · exact hdone hmem
    · obtain ⟨rfl, rfl⟩ := h.unique k event all arg event' calls' arg' ht hold
      simpa using hall
  · intro k calls' arg' hframe
    have hk : k ≠ number := by
      rintro rfl
      exact hdistinct.1 (List.mem_filterMap.mpr ⟨_, hframe, rfl⟩)
    obtain ⟨event', all', ht', hall', hnot⟩ := h.frames k calls' arg' (by simp [hstack, hframe])
    refine ⟨event', all', List.mem_append_left _ ht', ?_, by simp [hnot, hk]⟩
    dsimp only
    rw [hcalled]
    exact hall'

theorem step {c' : Config H A} {l : Label H A} (h : c.Calling) (hstep : Step c l c') :
    c'.Calling := by
  cases hstep with
  | on event handler rest stack => exact h.unrelated rfl
  | off event handle rest stack => exact h.unrelated rfl
  | trigger event arg order calls rest stack calls_eq => exact h.trigger event calls arg
  | return_ frame rest stack =>
      apply h.of_suffix
      rw [stack]
      exact List.suffix_cons _ _
  | throw_ frame rest stack =>
      apply h.of_suffix
      rw [stack]
      exact (unwind_suffix _).trans (List.suffix_cons _ _)
  | call number handle handler calls arg rest stack => exact h.call stack
  | finish number arg rest stack => exact h.finish stack

end Config.Calling

/-! ### Refinement -/

theorem Step.log_grows {c c' : Config H A} {l : Label H A} (h : Step c l c') :
    c.log <+: c'.log := by
  cases h with
  | return_ | throw_ => exact List.prefix_rfl
  | on | off | trigger | call | finish => exact List.prefix_append _ _

/-- A property of the history that a step keeps exactly when its guard holds. -/
theorem atEach_iff_eachStep {P : List (Happening H A) → Happening H A → Prop}
    {guard : Config H A → Label H A → Prop}
    (hguard : ∀ c l c', Config.Stored c → AtEach P c.log → Step c l c' →
      (AtEach P c'.log ↔ guard c l))
    {ls : List (Label H A)} {c : Config H A} (hrun : run step {} ls = some c) :
    AtEach P c.log ↔ EachStep step guard {} ls := by
  have hiff : EachStep step guard {} ls ↔ ¬ ¬ AtEach P c.log := by
    refine eachStep_iff_not (I := fun c => c.Stored ∧ AtEach P c.log)
      (B := fun c => ¬ AtEach P c.log) ?_ ?_ ?_ ?_ ⟨.initial, by simp⟩ hrun
    · rintro c l c' ⟨hstored, hlog⟩ hg hl
      have hstep := stepped hl
      exact ⟨hstored.step hstep, (hguard c l c' hstored hlog hstep).mpr hg⟩
    · rintro c l c' ⟨hstored, hlog⟩ hg hl hlog'
      exact hg ((hguard c l c' hstored hlog (stepped hl)).mp hlog')
    · intro c l c' hbad hl hlog'
      exact hbad (hlog'.of_prefix (stepped hl).log_grows)
    · rintro c ⟨-, hlog⟩ hbad
      exact hbad hlog
  rw [hiff, not_not]

/-- In a run the mix-in refines the registry exactly when nobody asks for a handler that was taken
back: no `off(event, handle)` and no `trigger(event)` comes after an `off(event, handle)` whose
handle `on(event)` had returned. -/
theorem refines_registry_iff {ls : List (Label H A)} {c : Config H A}
    (hrun : run step {} ls = some c) :
    c.RefinesRegistry ↔ EachStep step (fun c l => c.asksWithdrawn l = false) {} ls := by
  have hcalling : c.Calling :=
    run_invariant_of_step (fun _ _ _ h hl => h.step (stepped hl)) .initial hrun
  have hiff : AtEach Answers c.log ↔
      EachStep step (fun c l => c.asksWithdrawn l = false) {} ls :=
    atEach_iff_eachStep (fun _ _ _ hstored hlog hstep => hstored.answers_iff hlog hstep) hrun
  rw [← hiff]
  constructor
  · intro h
    exact h.answers
  · intro hanswers
    exact ⟨hanswers, hcalling.called⟩

/-- Two handlers of an event, of which the first one registers a third one while it runs. -/
theorem refines_registry_iff_sample : ∃ c : Config ℕ ℕ,
    run step {} [.on "data" 10, .on "data" 11, .off "end" 0, .trigger "data" 5 [1, 0], .tau,
      .on "data" 12, .return_, .tau, .return_, .tau, .off "data" 1] = some c ∧
      c.RefinesRegistry := by
  obtain ⟨c, hrun⟩ : ∃ c : Config ℕ ℕ,
      run step {} [.on "data" 10, .on "data" 11, .off "end" 0, .trigger "data" 5 [1, 0], .tau,
        .on "data" 12, .return_, .tau, .return_, .tau, .off "data" 1] = some c := ⟨_, rfl⟩
  exact ⟨c, hrun, (refines_registry_iff hrun).mpr (by decide +kernel)⟩

/-- A handler that was removed is called, and it can be removed again. -/
theorem removedRun_calls : ∃ c : Config ℕ ℕ,
    run step {} [.on "data" 10, .off "data" 0, .trigger "data" 5 [0], .tau, .return_, .tau,
      .off "data" 0] = some c ∧
      c.log.length = 6 ∧ calledBy 0 c.log = [((0, 10), 5)] ∧ ¬ c.RefinesRegistry := by
  refine ⟨_, rfl, rfl, rfl, ?_⟩
  intro h
  have htrigger := h.answers [.on "data" 0 10, .off "data" 0 true] (.trigger 0 "data" [(0, 10)] 5)
    [.call 0 0 10 5, .finished 0, .off "data" 0 true] rfl
  have hregistered := (htrigger.2 0 10).mp (by simp)
  revert hregistered
  decide

end Libasync.EventMixin
