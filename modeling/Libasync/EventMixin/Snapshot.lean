import Libasync.EventMixin.Refinement

/-! # The handlers that a `trigger` calls

`trigger` goes through a copy of the store. What its handlers do to the object while they run comes
too late for it and in time for every later `trigger`, and a handler that `off` has taken back is
still in the copy. -/

namespace Libasync.EventMixin

open Automaton Foundation

variable {H A : Type*}

/-! ### What a `trigger` owes -/

/-- The handles that `on` has returned. -/
def handles (log : List (Happening H A)) : List ℕ :=
  log.filterMap fun h =>
    match h with
    | .on _ handle _ => some handle
    | _ => none

/-- The calls of a `trigger` that comes after `before` in the history `log`. -/
structure Dispatched (before log : List (Happening H A)) (number : ℕ) (event : String) (arg : A) :
    Prop where
  once : ((calledBy number log).map fun call => call.1.1).Nodup
  only : ∀ handle handler arg', ((handle, handler), arg') ∈ calledBy number log →
    registryOf before event handle = some handler ∧ arg' = arg
  all : .finished number ∈ log → ∀ handle handler,
    registryOf before event handle = some handler →
      ((handle, handler), arg) ∈ calledBy number log
  inForce : .finished number ∈ log → ∀ handle handler, .on event handle handler ∈ before →
    (∀ result, .off event handle result ∉ before) →
      ((handle, handler), arg) ∈ calledBy number log

/-- Every `trigger` has returned or is on the stack. -/
def Config.TriggersReturn (c : Config H A) : Prop :=
  ∀ number event calls arg, .trigger number event calls arg ∈ c.log →
    .finished number ∈ c.log ∨ number ∈ c.stack.filterMap Frame.number?

/-- Every `trigger` calls the handlers that are registered when it is called, and has called all of
them when it returns. Handles are of type `size_t`. -/
structure Config.Dispatches (c : Config H A) : Prop where
  triggers : ∀ before number event calls arg after,
    c.log = before ++ .trigger number event calls arg :: after →
      Dispatched before c.log number event arg
  returns : c.TriggersReturn
  distinct : ((handles c.log).map (BitVec.ofNat 64)).Nodup

/-- A handler of the triggered event was taken back. -/
def Config.triggersWithdrawn (c : Config H A) : Label H A → Bool
  | .trigger event _ _ => anyWithdrawn c.log event
  | _ => false

/-! ### Handles -/

theorem handles_concat (log : List (Happening H A)) (h : Happening H A) :
    handles (log ++ [h]) =
      match h with
      | .on _ handle _ => handles log ++ [handle]
      | _ => handles log := by
  cases h <;> simp [handles, List.filterMap_append]

/-- The counter numbers the registrations. -/
theorem handles_step {c c' : Config H A} {l : Label H A}
    (h : handles c.log = List.range c.data.counter) (hstep : Step c l c') :
    handles c'.log = List.range c'.data.counter := by
  cases hstep with
  | on event handler rest stack =>
      simp [handles_concat, h, EventMixinData.on, List.range_succ]
  | return_ | throw_ => exact h
  | off | trigger | call | finish => simpa [handles_concat] using h

theorem handles_nodup {log : List (Happening H A)} {counter : ℕ}
    (h : handles log = List.range counter) (hfew : (handles log).length < 2 ^ 64) :
    ((handles log).map (BitVec.ofNat 64)).Nodup := by
  rw [h, List.length_range] at hfew
  rw [h]
  refine List.Nodup.map_on ?_ List.nodup_range
  intro m hm n hn heq
  have hmod : m % 2 ^ 64 = n % 2 ^ 64 := by simpa using congrArg BitVec.toNat heq
  rwa [Nat.mod_eq_of_lt ((List.mem_range.mp hm).trans hfew),
    Nat.mod_eq_of_lt ((List.mem_range.mp hn).trans hfew)] at hmod

/-- A registration is in force until it is taken back. -/
theorem registryOf_of_on {log : List (Happening H A)} {event : String} {handle : ℕ} {handler : H}
    (hnodup : (handles log).Nodup) (hon : .on event handle handler ∈ log)
    (hoff : ∀ result, .off event handle result ∉ log) :
    registryOf log event handle = some handler := by
  induction log using List.reverseRecOn with
  | nil => simp at hon
  | append_singleton log last ih =>
      rw [registryOf_concat]
      rcases List.mem_append.mp hon with hold | hnew
      · have hbefore := ih (hnodup.sublist ((List.sublist_append_left _ _).filterMap _)) hold
          fun result hmem => hoff result (List.mem_append_left _ hmem)
        cases last with
        | on e n handler' =>
            have hne : n ≠ handle := by
              rintro rfl
              rw [handles_concat, List.nodup_append] at hnodup
              exact hnodup.2.2 n (List.mem_filterMap.mpr ⟨_, hold, rfl⟩) n (by simp) rfl
            simp [Registry.add_apply, Ne.symm hne, hbefore]
        | off e n result =>
            have hother : ¬ (event = e ∧ handle = n) := by
              rintro ⟨rfl, rfl⟩
              exact hoff result (by simp)
            cases result <;> simp [Registry.remove_apply, hother, hbefore]
        | trigger | call | finished => exact hbefore
      · obtain rfl := List.mem_singleton.mp hnew
        simp [Registry.add_apply]

/-! ### Calls that have not returned -/

/-- Without exceptions a `trigger` stays on the stack until it has called all its handlers. -/
theorem Config.TriggersReturn.step {c c' : Config H A} {l : Label H A} (h : c.TriggersReturn)
    (hthrow : l ≠ .throw_) (hstep : Step c l c') : c'.TriggersReturn := by
  intro number event calls arg hmem
  cases hstep with
  | on e handler rest stack | off e handle rest stack =>
      have hold := h number event calls arg (by simpa using hmem)
      simpa using hold
  | trigger e x order found rest stack calls_eq =>
      simp only [List.mem_append, List.mem_singleton, Happening.trigger.injEq] at hmem
      rcases hmem with hmem | ⟨rfl, -⟩
      · rcases h number event calls arg hmem with hfinished | hframe
        · exact .inl (List.mem_append_left _ hfinished)
        · exact .inr (by simp only [List.filterMap_cons, Frame.number?, List.mem_cons, hframe,
            or_true])
      · exact .inr (by simp [Frame.number?])
  | return_ frame rest stack =>
      have hold := h number event calls arg hmem
      rwa [stack, List.filterMap_cons_none rfl] at hold
  | throw_ => exact absurd rfl hthrow
  | call n handle handler left x rest stack =>
      have hold := h number event calls arg (by simpa using hmem)
      rw [stack, List.filterMap_cons_some (by rfl : Frame.number? _ = some n)] at hold
      rcases hold with hfinished | hframe
      · exact .inl (List.mem_append_left _ hfinished)
      · exact .inr hframe
  | finish n x rest stack =>
      have hold := h number event calls arg (by simpa using hmem)
      rw [stack] at hold
      simp only [List.filterMap_cons, Frame.number?, List.mem_cons] at hold
      simp only [List.mem_append, List.mem_singleton, Happening.finished.injEq]
      tauto

/-! ### Snapshots -/

/-- A `trigger` goes through the registered handlers. -/
def Snapshot (before : List (Happening H A)) (h : Happening H A) : Prop :=
  ∀ number event calls arg, h = .trigger number event calls arg → Answers before h

theorem Config.Stored.snapshot_iff {c c' : Config H A} {l : Label H A} (h : c.Stored)
    (hsnapshots : AtEach Snapshot c.log) (hstep : Step c l c') :
    AtEach Snapshot c'.log ↔ c.triggersWithdrawn l = false := by
  cases hstep with
  | return_ frame rest stack | throw_ frame rest stack =>
      simp [hsnapshots, Config.triggersWithdrawn]
  | trigger event arg order calls rest stack calls_eq =>
      rw [atEach_concat, Config.triggersWithdrawn,
        ← h.trigger_answers_iff calls_eq c.numTriggers arg]
      simp only [hsnapshots, true_and, Snapshot]
      exact ⟨fun hall => hall _ _ _ _ rfl, fun hanswers _ _ _ _ _ => hanswers⟩
  | on | off | call | finish =>
      simp [atEach_concat, hsnapshots, Snapshot, Config.triggersWithdrawn]

/-- In a run in which every snapshot is right the calls are right. -/
theorem Dispatched.of_answers {before log : List (Happening H A)} {number : ℕ} {event : String}
    {calls : List (ℕ × H)} {arg : A} (hnodup : (handles before).Nodup)
    (hanswers : Answers before (.trigger number event calls arg))
    (hfront : calledBy number log <+: calls.map (·, arg))
    (hall : .finished number ∈ log → calledBy number log = calls.map (·, arg)) :
    Dispatched before log number event arg := by
  obtain ⟨hdistinct, hmem⟩ := hanswers
  have hregistered (hfinished : .finished number ∈ log) (handle : ℕ) (handler : H)
      (h : registryOf before event handle = some handler) :
      ((handle, handler), arg) ∈ calledBy number log := by
    rw [hall hfinished]
    exact List.mem_map_of_mem ((hmem handle handler).mpr h)
  refine ⟨?_, ?_, hregistered, ?_⟩
  · have hfirst := hfront.sublist.map fun call => call.1.1
    rw [List.map_map] at hfirst
    exact hdistinct.sublist hfirst
  · intro handle handler arg' hcalled
    have hin := hfront.subset hcalled
    obtain ⟨call, hcall, heq⟩ := List.mem_map.mp hin
    obtain ⟨rfl, rfl⟩ := Prod.mk.inj heq
    exact ⟨(hmem handle handler).mp hcall, rfl⟩
  · intro hfinished handle handler hon hoff
    exact hregistered hfinished handle handler (registryOf_of_on hnodup hon hoff)

/-- When a `trigger` has returned, its calls tell what its snapshot was. -/
theorem Dispatched.answers {before log : List (Happening H A)} {number : ℕ} {event : String}
    {calls : List (ℕ × H)} {arg : A} (h : Dispatched before log number event arg)
    (hfinished : .finished number ∈ log)
    (hall : calledBy number log = calls.map (·, arg)) :
    Answers before (.trigger number event calls arg) := by
  have hmem (handle : ℕ) (handler : H) :
      ((handle, handler), arg) ∈ calledBy number log ↔ (handle, handler) ∈ calls := by
    simp [hall]
  refine ⟨?_, fun handle handler => ?_⟩
  · have honce := h.once
    rwa [hall, List.map_map] at honce
  · rw [← hmem]
    exact ⟨fun hcalled => (h.only handle handler arg hcalled).1, h.all hfinished handle handler⟩

/-- In a run without exceptions every `trigger` calls the handlers that are registered at that
moment, as long as no `trigger(event)` comes after an `off(event, handle)` whose handle `on(event)`
had returned. Once control is back in the main program that has also been necessary. -/
theorem trigger_calls_registered {ls : List (Label H A)} {c : Config H A}
    (hrun : run step {} ls = some c) (hthrow : .throw_ ∉ ls)
    (hfew : (handles c.log).length < 2 ^ 64) :
    (EachStep step (fun c l => c.triggersWithdrawn l = false) {} ls → c.Dispatches) ∧
      (c.stack = [.user] → c.Dispatches →
        EachStep step (fun c l => c.triggersWithdrawn l = false) {} ls) := by
  have hcalling : c.Calling :=
    run_invariant_of_step (fun _ _ _ h hl => h.step (stepped hl)) .initial hrun
  have hhandles : handles c.log = List.range c.data.counter :=
    run_invariant_of_step (I := fun c => handles c.log = List.range c.data.counter)
      (fun _ _ _ h hl => handles_step h (stepped hl)) rfl hrun
  have hguard : EachStep step (fun _ l => l ≠ .throw_) ({} : Config H A) ls := by
    rintro before l after t rfl - rfl
    exact hthrow (by simp)
  have hinitial : Config.TriggersReturn ({} : Config H A) := by simp [Config.TriggersReturn]
  have hreturns : c.TriggersReturn :=
    run_invariant (fun _ _ _ h hl hstep => h.step hl (stepped hstep)) hinitial hguard hrun
  have hiff : AtEach Snapshot c.log ↔
      EachStep step (fun c l => c.triggersWithdrawn l = false) {} ls :=
    atEach_iff_eachStep (fun _ _ _ hstored hlog hstep => hstored.snapshot_iff hlog hstep) hrun
  rw [← hiff]
  constructor
  · intro hsnapshots
    refine ⟨?_, hreturns, handles_nodup hhandles hfew⟩
    intro before number event calls arg after hlog
    have hnodup : (handles before).Nodup := by
      have hall : (handles c.log).Nodup := hhandles ▸ List.nodup_range
      rw [hlog] at hall
      exact hall.sublist ((List.sublist_append_left _ _).filterMap _)
    obtain ⟨hfront, hall⟩ := hcalling.called number event calls arg (by simp [hlog])
    exact .of_answers hnodup (hsnapshots before _ after hlog number event calls arg rfl) hfront hall
  · intro hstack hdispatches before h after hlog number event calls arg htrigger
    subst htrigger
    have hmem : .trigger number event calls arg ∈ c.log := by simp [hlog]
    have hfinished : .finished number ∈ c.log := by
      rcases hdispatches.returns number event calls arg hmem with hfinished | hframe
      · exact hfinished
      · simp [hstack, Frame.number?] at hframe
    exact (hdispatches.triggers before number event calls arg after hlog).answers hfinished
      ((hcalling.called number event calls arg hmem).2 hfinished)

/-- A handler registers another one and triggers the event again, which calls both. -/
theorem trigger_calls_registered_sample : ∃ c : Config ℕ ℕ,
    run step {} [.on "data" 10, .off "end" 0, .trigger "data" 5 [0], .tau, .on "data" 11,
      .trigger "data" 6 [1, 0], .tau, .return_, .tau, .return_, .tau, .return_, .tau] = some c ∧
      c.Dispatches ∧
      calledBy 0 c.log = [((0, 10), 5)] ∧ calledBy 1 c.log = [((1, 11), 6), ((0, 10), 6)] := by
  obtain ⟨c, hrun⟩ : ∃ c : Config ℕ ℕ,
      run step {} [.on "data" 10, .off "end" 0, .trigger "data" 5 [0], .tau, .on "data" 11,
        .trigger "data" 6 [1, 0], .tau, .return_, .tau, .return_, .tau, .return_, .tau] = some c :=
    ⟨_, rfl⟩
  obtain rfl := Option.some.inj hrun
  exact ⟨_, hrun, (trigger_calls_registered hrun (by simp) (by decide)).1 (by decide +kernel),
    rfl, rfl⟩

/-- A handler that was taken back is called. -/
theorem removedRun_dispatches : ∃ c : Config ℕ ℕ,
    run step {} [.on "data" 10, .off "data" 0, .trigger "data" 5 [0], .tau, .return_, .tau] =
      some c ∧
      c.stack = [.user] ∧ calledBy 0 c.log = [((0, 10), 5)] ∧ ¬ c.Dispatches := by
  obtain ⟨c, hrun⟩ : ∃ c : Config ℕ ℕ,
      run step {} [.on "data" 10, .off "data" 0, .trigger "data" 5 [0], .tau, .return_, .tau] =
        some c := ⟨_, rfl⟩
  obtain rfl := Option.some.inj hrun
  refine ⟨_, hrun, rfl, rfl, fun h => ?_⟩
  have htrigger := h.triggers [.on "data" 0 10, .off "data" 0 true] 0 "data" [(0, 10)] 5
    [.call 0 0 10 5, .finished 0] rfl
  have hregistered := (htrigger.only 0 10 5 (by simp [calledBy])).1
  revert hregistered
  decide

end Libasync.EventMixin
