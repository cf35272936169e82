import Libasync.Promise.PromiseTask

/-! # Every due handler is called exactly once -/

namespace Libasync.Promise

open Foundation

variable {V E F : Type*}

theorem registrations_sublist_outers (side : Side) (p : Ref) (log : List (Event V E F)) :
    List.Sublist ((registrations side p log).map Prod.fst) (outers log) := by
  induction log with
  | nil => exact List.Sublist.slnil
  | cons e log ih =>
      cases e with
      | enqueued q => exact ih
      | called turn q outer f arg => exact ih
      | registered side' q outer f =>
          by_cases hs : side' = side ∧ q = p
          · simpa [registrations, outers, hs] using ih
          · simpa [registrations, outers, hs] using ih.trans (List.sublist_cons_self _ _)

/-- Every handler registered on the list by which its promise settled has been called exactly
once, with the stored outcome, and the handlers of one promise were called in the order of
registration. -/
structure DeliveredOnce [FnTrait F E] (s : State V E F) : Prop where
  exactly_once : ∀ side p outer f data, Event.registered side p outer f ∈ s.log →
    s.get? p = some data → data.status.side? = some side →
    ∃ turn arg, data.status.argFor f = .ok arg ∧
      s.log.filter (fun e => e.callOf? = some outer) = [.called turn p outer f arg]
  in_order : ∀ side p data, s.get? p = some data → data.status.side? = some side →
    (calls p s.log).map Prod.fst = (registrations side p s.log).map Prod.fst

namespace Recorded

variable [FnTrait F E] {passed : Ref → ℕ} {s : State V E F}

/-- The calls made for a promise serve an initial part of the registrations on one list. -/
theorem calls_initial (h : Recorded passed s) (p : Ref) :
    ∃ side after, registrations side p s.log =
      (calls p s.log).map (fun call => (call.1, call.2.1)) ++ after := by
  cases hget : s.get? p with
  | none =>
      have hlen : s.heap.length ≤ p := List.getElem?_eq_none_iff.mp hget
      obtain ⟨-, hreg, hcall⟩ := h.fresh p hlen
      exact ⟨.fulfilled, _, by simp [hcall]; rfl⟩
  | some data =>
      obtain ⟨hpending, hsettled⟩ := h.cells p data hget
      cases hside : data.status.side? with
      | none =>
          obtain ⟨-, hcall, -⟩ := hpending (PromiseStatus.side?_eq_none.mp hside)
          exact ⟨.fulfilled, _, by simp [hcall]; rfl⟩
      | some side =>
          obtain ⟨-, before, hreg, hcalls⟩ := hsettled side hside
          exact ⟨side, _, (forall₂_delivers_iff.mp hcalls).1 ▸ hreg⟩

theorem registered_of_called (h : Recorded passed s) {turn : ℕ} {p outer : Ref} {f : F}
    {arg : Arg V E} (hcall : Event.called turn p outer f arg ∈ s.log) :
    ∃ side, Event.registered side p outer f ∈ s.log := by
  obtain ⟨side, after, hreg⟩ := h.calls_initial p
  have hmem : (outer, f) ∈ (calls p s.log).map fun call => (call.1, call.2.1) :=
    List.mem_map.mpr ⟨_, mem_calls.mpr ⟨turn, hcall⟩, rfl⟩
  exact ⟨side, mem_registrations.mp (hreg ▸ List.mem_append_left after hmem)⟩

theorem calls_nodup (h : Recorded passed s) (p : Ref) :
    ((calls p s.log).map Prod.fst).Nodup := by
  obtain ⟨side, after, hreg⟩ := h.calls_initial p
  have hnodup := h.outers_nodup.sublist (registrations_sublist_outers side p s.log)
  rw [hreg, List.map_append, List.nodup_append, List.map_map] at hnodup
  exact hnodup.1

/-- No registration is served twice, by whatever promise. -/
theorem called_nodup (h : Recorded passed s) : (s.log.filterMap Event.callOf?).Nodup := by
  refine List.pairwise_filterMap.mpr (List.pairwise_iff_getElem.mpr ?_)
  intro i j hi hj hij outer houter outer' houter' heq
  subst outer'
  obtain ⟨turn, p, f, arg, he⟩ := callOf?_eq_some houter
  obtain ⟨turn', p', f', arg', he'⟩ := callOf?_eq_some houter'
  obtain ⟨side, hr⟩ := h.registered_of_called (he ▸ List.getElem_mem hi)
  obtain ⟨side', hr'⟩ := h.registered_of_called (he' ▸ List.getElem_mem hj)
  have hsame := eq_of_filterMap_nodup h.outers_nodup hr hr' (k := outer) rfl rfl
  obtain ⟨-, rfl, -, -⟩ := Event.registered.inj hsame
  have hnodup := h.calls_nodup p
  rw [calls, List.map_filterMap] at hnodup
  have hpair := List.pairwise_iff_getElem.mp (List.pairwise_filterMap.mp hnodup) i j hi hj hij
  exact hpair outer (by simp [he]) outer (by simp [he']) rfl

theorem deliveredOnce (h : Recorded (fun _ => 0) s) (hd : Drained s) : DeliveredOnce s := by
  have hall : ∀ side p data, s.get? p = some data → data.status.side? = some side →
      List.Forall₂ (Delivers data.status) (registrations side p s.log) (calls p s.log) := by
    intro side p data hget hside
    obtain ⟨-, before, hreg, hcalls⟩ := (h.cells p data hget).settled side hside
    have hsettled : data.status ≠ .pending := by
      intro hp
      simp [hp, PromiseStatus.side?] at hside
    rw [hd.waiting p data side hget hsettled] at hreg
    rw [hreg]
    simpa using hcalls
  refine ⟨?_, ?_⟩
  · intro side p outer f data hreg hget hside
    obtain ⟨hmap, hargs⟩ := forall₂_delivers_iff.mp (hall side p data hget hside)
    have hmem := mem_registrations.mpr hreg
    rw [hmap, List.mem_map] at hmem
    obtain ⟨⟨outer', f', arg⟩, hcall, heq⟩ := hmem
    obtain ⟨rfl, rfl⟩ := Prod.mk.inj heq
    obtain ⟨turn, hevent⟩ := mem_calls.mp hcall
    exact ⟨turn, arg, hargs _ hcall, filter_key_eq_singleton h.called_nodup hevent rfl⟩
  · intro side p data hget hside
    rw [(forall₂_delivers_iff.mp (hall side p data hget hside)).1, List.map_map]
    rfl

end Recorded

variable [Blank V] [FnTrait F E]

/-- In every run in which no handler meets an error of another type than it declares, a call of
`promise_task` that returns has called every due handler exactly once and in order, took the
promises in the order of the queue, and left nothing behind. The handlers may do anything. -/
theorem promiseTask_calls_exactly_once {before pass : List (Label V E F)} {s₀ s : State V E F}
    (hbefore : RunsTo before ⟨s₀, .idle⟩) (hpass : Label.promiseTask ∉ pass)
    (h : RunsTo (before ++ .promiseTask :: pass) ⟨s, .done none⟩)
    (hm : NoMismatch (before ++ .promiseTask :: pass)) :
    DeliveredOnce s ∧
      (∃ log, s.log = s₀.log ++ log ∧ InTurn (s₀.queue ++ enqueued log) log) ∧ Drained s :=
  ⟨(h.recorded hm).deliveredOnce h.drained, RunsTo.inTurn hbefore hpass h, h.drained⟩

/-- Two handlers, the first of which registers a third one on the promise being called back. -/
theorem promiseTask_calls_exactly_once_sample :
    ∃ s₀ s : State ℕ ℕ SampleHandler,
      DeliveredOnce s ∧ (∃ log, s.log = s₀.log ++ log ∧ InTurn (s₀.queue ++ enqueued log) log) ∧
        Drained s := by
  let before : List (Label ℕ ℕ SampleHandler) :=
    [.op .promise, .op (.then_ 0 (.plain 1)), .op (.then_ 0 (.plain 2)), .op (.resolve 0 7)]
  let pass : List (Label ℕ ℕ SampleHandler) :=
    [.tau, .tau, .op (.then_ 0 (.plain 3)), .finish (.returned (.value 8)), .tau,
      .finish (.threw (.object 5)), .tau, .finish (.returned (.value 9)), .tau] ++
      List.replicate 7 .tau
  obtain ⟨s₀, hbefore⟩ : ∃ s₀, RunsTo before ⟨s₀, .idle⟩ := exists_runsTo (by decide +kernel)
  obtain ⟨s, h⟩ : ∃ s, RunsTo (before ++ .promiseTask :: pass) ⟨s, .done none⟩ :=
    exists_runsTo (by decide +kernel)
  have hm : NoMismatch (before ++ .promiseTask :: pass) := by
    unfold NoMismatch
    decide +kernel
  exact ⟨s₀, s, promiseTask_calls_exactly_once hbefore (by decide) h hm⟩

end Libasync.Promise
