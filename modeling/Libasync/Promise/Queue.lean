import Libasync.Foundation.Lists
import Libasync.Promise.Scope

/-! # The callback queue

A promise with `pending_callback` set is ahead in the queue, and a settled promise whose lists
are not empty has the flag set. Both survive an exception that leaves `promise_task`, because
the next call starts again at the front of the queue. -/

namespace Libasync.Promise

open Foundation

variable {V E F : Type*}

/-- The state of flags, wrapper lists and queue while the traversal is at position `i`. -/
structure Queued (i : ℕ) (s : State V E F) : Prop where
  bound : i ≤ s.queue.length
  flagged : ∀ p data, s.get? p = some data → data.pendingCallback = true → p ∈ s.queue.drop i
  waiting : ∀ p data side, s.get? p = some data → data.status ≠ .pending →
    data.wrappers side ≠ [] → data.pendingCallback = true
  pending : ∀ p data, s.get? p = some data → data.status = .pending →
    data.pendingCallback = false
  settled : ∀ p ∈ s.queue, ∃ data, s.get? p = some data ∧ data.status ≠ .pending

theorem Change.queue_grows {T : Ref → Prop} {s t : State V E F} (h : Change T s t) :
    s.queue <+: t.queue := by
  cases h with
  | alloc => exact List.prefix_rfl
  | settle p => exact List.prefix_append s.queue [p]
  | request p => exact List.prefix_append s.queue [p]
  | adopt => exact List.prefix_rfl
  | register => exact List.prefix_rfl

theorem Changes.queue_grows {T : Ref → Prop} {s t : State V E F} (h : Changes T s t) :
    s.queue <+: t.queue :=
  h.induct (I := fun u => s.queue <+: u.queue) (fun _ _ hs hc => hs.trans hc.queue_grows)
    List.prefix_rfl

namespace Queued

variable {i : ℕ} {s t : State V E F}

/-- An entry that was ahead stays ahead when the queue grows. -/
theorem mem_drop_append {p q : Ref} (hs : Queued i s) (h : p ∈ s.queue.drop i) :
    p ∈ (s.queue ++ [q]).drop i := by
  rw [List.drop_append_of_le_length hs.bound]
  exact List.mem_append_left [q] h

theorem mem_drop_append_self (p : Ref) (hs : Queued i s) : p ∈ (s.queue ++ [p]).drop i := by
  rw [List.drop_append_of_le_length hs.bound]
  exact List.mem_append_right _ (List.mem_singleton_self p)

theorem alloc (hs : Queued i s) (status : PromiseStatus V E) :
    Queued i (s.alloc { status }).1 := by
  refine ⟨hs.bound, ?_, ?_, ?_, ?_⟩
  · intro p data hget hflag
    by_cases hp : p = s.heap.length
    · simp only [State.get?_alloc, hp, if_true, Option.some.injEq] at hget
      subst hget
      cases hflag
    · exact hs.flagged p data (by simpa [hp] using hget) hflag
  · intro p data side hget hdata hne
    by_cases hp : p = s.heap.length
    · simp only [State.get?_alloc, hp, if_true, Option.some.injEq] at hget
      subst hget
      cases side <;> exact absurd rfl hne
    · exact hs.waiting p data side (by simpa [hp] using hget) hdata hne
  · intro p data hget hdata
    by_cases hp : p = s.heap.length
    · simp only [State.get?_alloc, hp, if_true, Option.some.injEq] at hget
      subst hget
      rfl
    · exact hs.pending p data (by simpa [hp] using hget) hdata
  · intro p hp
    obtain ⟨data, hget, hdata⟩ := hs.settled p hp
    refine ⟨data, ?_, hdata⟩
    simp [hget, Nat.ne_of_lt (State.lt_of_get? hget)]

/-- Requesting a callback for a promise that is, or is being, settled. -/
theorem requestCallBack (hs : Queued i s) {p : Ref} {data : PromiseData V E F}
    (hget : s.get? p = some data) {status : PromiseStatus V E} (hstatus : status ≠ .pending) :
    Queued i ((s.update p fun data => { data with status }).requestCallBack p) := by
  refine ⟨?_, ?_, ?_, ?_, ?_⟩
  · simpa using Nat.le_succ_of_le hs.bound
  · intro q cell hq hflag
    by_cases hqp : q = p
    · subst q
      exact hs.mem_drop_append_self p
    · exact hs.mem_drop_append (hs.flagged q cell (by simpa [hqp] using hq) hflag)
  · intro q cell side hq hcell hne
    by_cases hqp : q = p
    · subst q
      simp only [State.get?_requestCallBack, State.get?_update, if_true, hget, Option.map_some,
        Option.some.injEq] at hq
      subst hq
      rfl
    · exact hs.waiting q cell side (by simpa [hqp] using hq) hcell hne
  · intro q cell hq hcell
    by_cases hqp : q = p
    · subst q
      simp only [State.get?_requestCallBack, State.get?_update, if_true, hget, Option.map_some,
        Option.some.injEq] at hq
      subst hq
      exact absurd hcell hstatus
    · exact hs.pending q cell (by simpa [hqp] using hq) hcell
  · intro q hq
    by_cases hqp : q = p
    · subst q
      refine ⟨_, by simp [hget]; rfl, hstatus⟩
    · have hq' : q ∈ s.queue := by simpa [hqp] using hq
      obtain ⟨cell, hcell, hsettled⟩ := hs.settled q hq'
      exact ⟨cell, by simpa [hqp] using hcell, hsettled⟩

/-- Pushing a wrapper on a promise that is pending or flagged. -/
theorem update_wrappers (hs : Queued i s) {p : Ref} {data : PromiseData V E F}
    {f : PromiseData V E F → PromiseData V E F} (hget : s.get? p = some data)
    (hopen : data.status = .pending ∨ data.pendingCallback = true)
    (hstatus : (f data).status = data.status)
    (hflag : (f data).pendingCallback = data.pendingCallback) : Queued i (s.update p f) := by
  refine ⟨hs.bound, ?_, ?_, ?_, ?_⟩
  · intro q cell hq hcell
    by_cases hqp : q = p
    · subst q
      simp only [State.get?_update, if_true, hget, Option.map_some, Option.some.injEq] at hq
      subst hq
      exact hs.flagged p data hget (hflag ▸ hcell)
    · exact hs.flagged q cell (by simpa [hqp] using hq) hcell
  · intro q cell side hq hcell hne
    by_cases hqp : q = p
    · subst q
      simp only [State.get?_update, if_true, hget, Option.map_some, Option.some.injEq] at hq
      subst hq
      rw [hflag]
      exact hopen.resolve_left (hstatus ▸ hcell)
    · exact hs.waiting q cell side (by simpa [hqp] using hq) hcell hne
  · intro q cell hq hcell
    by_cases hqp : q = p
    · subst q
      simp only [State.get?_update, if_true, hget, Option.map_some, Option.some.injEq] at hq
      subst hq
      rw [hflag]
      exact hs.pending p data hget (hstatus ▸ hcell)
    · exact hs.pending q cell (by simpa [hqp] using hq) hcell
  · intro q hq
    obtain ⟨cell, hcell, hsettled⟩ := hs.settled q hq
    by_cases hqp : q = p
    · subst q
      rw [hget, Option.some.injEq] at hcell
      subst hcell
      exact ⟨f data, by simp [hget], hstatus ▸ hsettled⟩
    · exact ⟨cell, by simpa [hqp] using hcell, hsettled⟩

theorem record (hs : Queued i s) (e : Event V E F) : Queued i (s.record e) :=
  ⟨hs.bound, hs.flagged, hs.waiting, hs.pending, hs.settled⟩

theorem change {T : Ref → Prop} (hs : Queued i s) (h : Change T s t) : Queued i t := by
  cases h with
  | alloc status => exact hs.alloc status
  | settle p data status target get pending settled => exact hs.requestCallBack get settled
  | request p data get settled =>
      have hsame : (s.update p fun cell => { cell with status := data.status }) = s := by
        have hid : ∀ cell ∈ s.heap[p]?, { cell with status := data.status } = cell := by
          intro cell hcell
          have : cell = data := Option.some.inj (hcell.symm.trans get)
          subst this
          rfl
        simp only [State.update]
        congr 1
        apply List.ext_getElem?
        intro q
        simp only [List.getElem?_modify]
        cases hq : s.heap[q]? with
        | none => rfl
        | some cell =>
            by_cases hpq : p = q
            · subst q
              simp [hid cell hq]
            · simp [hpq]
      simpa only [hsame] using hs.requestCallBack get settled
  | adopt inner outer data target outer_lt get pending =>
      exact hs.update_wrappers get (.inl pending) (by simp) (by simp)
  | register side p f data get open_ =>
      have hget : s.create.1.get? p = some data := by
        simp [State.create, get, Nat.ne_of_lt (State.lt_of_get? get)]
      have hopen : data.status = .pending ∨ data.pendingCallback = true :=
        open_.imp_right And.right
      exact ((hs.alloc .pending).update_wrappers hget hopen (by simp) (by simp)).record _

theorem changes {T : Ref → Prop} (hs : Queued i s) (h : Changes T s t) : Queued i t :=
  h.induct (fun _ _ => change) hs

/-- The traversal moves on: the flag and the lists of the current promise are cleared. -/
theorem finishCallBack {p : Ref} (hs : Queued i s) (hp : s.queue[i]? = some p) :
    Queued (i + 1) (s.finishCallBack p) := by
  have hlt : i < s.queue.length := (List.getElem?_eq_some_iff.mp hp).1
  have hdrop : s.queue.drop i = p :: s.queue.drop (i + 1) := by
    rw [List.drop_eq_getElem_cons hlt, (List.getElem?_eq_some_iff.mp hp).2]
  have hcleared : ∀ cell, (s.finishCallBack p).get? p = some cell →
      cell.pendingCallback = false ∧ ∀ side, cell.wrappers side = [] := by
    intro cell hcell
    simp only [State.finishCallBack, State.get?_update, if_true, Option.map_eq_some_iff] at hcell
    obtain ⟨old, _, rfl⟩ := hcell
    exact ⟨rfl, fun side => by cases side <;> rfl⟩
  refine ⟨hlt, ?_, ?_, ?_, ?_⟩
  · intro q cell hq hflag
    by_cases hqp : q = p
    · subst q
      simp [(hcleared cell hq).1] at hflag
    · have hmem := hs.flagged q cell (by simpa [State.finishCallBack, hqp] using hq) hflag
      rw [hdrop] at hmem
      exact (List.mem_cons.mp hmem).resolve_left hqp
  · intro q cell side hq hcell hne
    by_cases hqp : q = p
    · subst q
      exact absurd ((hcleared cell hq).2 side) hne
    · exact hs.waiting q cell side (by simpa [State.finishCallBack, hqp] using hq) hcell hne
  · intro q cell hq hcell
    by_cases hqp : q = p
    · subst q
      exact (hcleared cell hq).1
    · exact hs.pending q cell (by simpa [State.finishCallBack, hqp] using hq) hcell
  · intro q hq
    obtain ⟨cell, hcell, hsettled⟩ := hs.settled q hq
    by_cases hqp : q = p
    · exact ⟨{ status := cell.status }, by simp [State.finishCallBack, hqp, hqp ▸ hcell], hsettled⟩
    · exact ⟨cell, by simpa [State.finishCallBack, hqp] using hcell, hsettled⟩

/-- At the end of the queue no promise is flagged, so the queue can be cleared. -/
theorem clear (hs : Queued i s) (hend : s.queue[i]? = none) :
    Queued 0 { s with queue := [] } := by
  have hdrop : s.queue.drop i = [] := List.drop_eq_nil_of_le (List.getElem?_eq_none_iff.mp hend)
  have hnone : ∀ p data, s.get? p = some data → data.pendingCallback = false := by
    intro p data hget
    cases hflag : data.pendingCallback with
    | false => rfl
    | true => simpa [hdrop] using hs.flagged p data hget hflag
  refine ⟨Nat.le_refl 0, ?_, hs.waiting, hs.pending, by simp⟩
  intro p data hget hflag
  simp [hnone p data hget] at hflag

/-- A new traversal starts at the front. -/
theorem restart (hs : Queued i s) : Queued 0 s :=
  ⟨Nat.zero_le _, fun p data hget hflag => List.mem_of_mem_drop (hs.flagged p data hget hflag),
    hs.waiting, hs.pending, hs.settled⟩

end Queued

/-! ### Over whole runs -/

structure QueueInv (c : Config V E F) : Prop where
  scope : Scoped c
  queued : Queued c.control.position c.state
  current : ∀ p, c.control.current? = some p → c.state.queue[c.control.position]? = some p
  returned : c.control = .done none → c.state.queue = []

theorem QueueInv.initial : QueueInv (Config.initial : Config V E F) := by
  refine ⟨.initial, ⟨Nat.le_refl 0, ?_, ?_, ?_, ?_⟩, ?_, ?_⟩ <;>
    simp [Config.initial, State.get?, Control.current?]

variable [Blank V] [FnTrait F E]

theorem QueueInv.step {c c' : Config V E F} {l : Label V E F} (hc : QueueInv c)
    (h : Step c l c') : QueueInv c' := by
  obtain ⟨hscope, hq, hcur, hret⟩ := hc
  have hscope' := hscope.step h
  cases h with
  | op s control o user known =>
      have hchange := s.perform_changes o
      refine ⟨hscope', hq.changes hchange,
        fun p hp => getElem?_of_prefix hchange.queue_grows (hcur p hp), ?_⟩
      rintro rfl
      exact user.elim
  | start s => exact ⟨hscope', hq, nofun, nofun⟩
  | next s i p entry =>
      refine ⟨hscope', hq, ?_, nofun⟩
      intro q hq
      obtain rfl := Option.some.inj hq
      exact entry
  | clear s i entry => exact ⟨hscope', hq.clear entry, nofun, fun _ => rfl⟩
  | adopted s i p j data outer get due =>
      have hchange := s.adoptStatus_changes (T := (· = outer)) outer data.status rfl
      exact ⟨hscope', hq.changes hchange,
        fun q hp => getElem?_of_prefix hchange.queue_grows (hcur q hp), nofun⟩
  | called s i p j data outer f arg get due arg_eq => exact ⟨hscope', hq.record _, hcur, nofun⟩
  | mismatch s i p j data outer f e get due arg_eq => exact ⟨hscope', hq.restart, nofun, nofun⟩
  | finished s i p j data get due =>
      exact ⟨hscope', hq.finishCallBack (hcur p rfl), nofun, nofun⟩
  | returned s i p j outer f result known =>
      have hchange := s.finishHandler_changes f result (hscope.outer i p j outer f rfl)
      exact ⟨hscope', hq.changes hchange,
        fun q hp => getElem?_of_prefix hchange.queue_grows (hcur q hp), nofun⟩
  | resume s exit => exact ⟨hscope', hq, nofun, nofun⟩

theorem RunsTo.queueInv {ls : List (Label V E F)} {c : Config V E F} (h : RunsTo ls c) :
    QueueInv c :=
  h.invariant .initial (fun _ _ _ => QueueInv.step)

/-- The queue is empty, no promise is flagged, and no settled promise has a wrapper left. -/
structure Drained (s : State V E F) : Prop where
  queue : s.queue = []
  unflagged : ∀ p data, s.get? p = some data → data.pendingCallback = false
  waiting : ∀ p data side, s.get? p = some data → data.status ≠ .pending →
    data.wrappers side = []

omit [Blank V] [FnTrait F E] in
theorem Queued.drained {i : ℕ} {s : State V E F} (hq : Queued i s) (hqueue : s.queue = []) :
    Drained s := by
  have hunflagged : ∀ p data, s.get? p = some data → data.pendingCallback = false := by
    intro p data hget
    cases hflag : data.pendingCallback with
    | false => rfl
    | true => simpa [hqueue] using hq.flagged p data hget hflag
  refine ⟨hqueue, hunflagged, ?_⟩
  intro p data side hget hdata
  by_contra hne
  have hflag := hq.waiting p data side hget hdata hne
  simp [hunflagged p data hget] at hflag

/-- Whenever `promise_task` returns the module is drained, whatever happened before. -/
theorem RunsTo.drained {ls : List (Label V E F)} {s : State V E F}
    (h : RunsTo ls ⟨s, .done none⟩) : Drained s := by
  obtain ⟨-, hq, -, hret⟩ := h.queueInv
  exact hq.drained (hret rfl)

/-! ### The heap in every state -/

/-- What holds of flags, wrapper lists and queue at any time, in the middle of a pass and after an
exception as well. An entry of the queue is ahead when it is not processed or being processed. -/
structure HeapInvariant (c : Config V E F) : Prop where
  flagged : ∀ p data, c.state.get? p = some data → data.pendingCallback = true →
    p ∈ c.state.queue.drop c.control.position
  waiting : ∀ p data side, c.state.get? p = some data → data.status.side? = some side →
    data.wrappers side ≠ [] → data.pendingCallback = true
  pending : ∀ p data, c.state.get? p = some data → data.status = .pending →
    data.pendingCallback = false ∧ p ∉ c.state.queue

omit [Blank V] [FnTrait F E] in
theorem QueueInv.heapInvariant {c : Config V E F} (h : QueueInv c) : HeapInvariant c where
  flagged := h.queued.flagged
  waiting p data side hget hside hne := by
    refine h.queued.waiting p data side hget ?_ hne
    intro hpending
    simp [hpending, PromiseStatus.side?] at hside
  pending p data hget hpending := by
    refine ⟨h.queued.pending p data hget hpending, ?_⟩
    intro hmem
    obtain ⟨data', hget', hsettled⟩ := h.queued.settled p hmem
    obtain rfl := Option.some.inj (hget.symm.trans hget')
    exact hsettled hpending

/-- Whatever calls are made and however passes end, flags, lists and queue fit together, and
a settled promise keeps its status with its value or error. -/
theorem heap_invariant {before after : List (Label V E F)} {c c' : Config V E F}
    (hbefore : RunsTo before c) (hafter : Automaton.run step c after = some c') :
    HeapInvariant c' ∧ ∀ p status, c.state.status? p = some status → status ≠ .pending →
      c'.state.status? p = some status := by
  have hrun := Automaton.run_invariant_of_step
    (I := fun d => QueueInv d ∧ ∀ p status, c.state.status? p = some status →
      status ≠ .pending → d.state.status? p = some status) ?_
    ⟨hbefore.queueInv, fun _ _ hstatus _ => hstatus⟩ hafter
  · exact ⟨hrun.1.heapInvariant, hrun.2⟩
  · rintro d l d' ⟨hd, hkept⟩ hl
    refine ⟨hd.step (.of_step hl), ?_⟩
    intro p status hstatus hsettled
    exact (Step.of_step hl).settled_status hd.scope (hkept p status hstatus hsettled) hsettled

/-- A rejected handler that takes another error: the exception leaves `promise_task` before the
promise is marked as called back. -/
def leftByException : List (Label ℕ ℕ SampleHandler) :=
  [.op .promise, .op (.catch_ 0 (.onError 1 0)), .op (.reject 0 (.object 2)), .promiseTask, .tau,
    .tau]

theorem heap_invariant_sample : ∃ c c' : Config ℕ ℕ SampleHandler,
    RunsTo leftByException c ∧ c.control = .done (some .badCast) ∧
      Automaton.run step c [.resume, .op (.catch_ 0 (.plain 0))] = some c' ∧ HeapInvariant c' ∧
      c'.state.status? 0 = some (.rejected (.object 2)) := by
  obtain ⟨c, c', hbefore, hcontrol, hafter, hstatus⟩ : ∃ c c' : Config ℕ ℕ SampleHandler,
      RunsTo leftByException c ∧ c.control = .done (some .badCast) ∧
        Automaton.run step c [.resume, .op (.catch_ 0 (.plain 0))] = some c' ∧
        c.state.status? 0 = some (.rejected (.object 2)) := ⟨_, _, rfl, rfl, rfl, rfl⟩
  obtain ⟨hinv, hkept⟩ := heap_invariant hbefore hafter
  exact ⟨c, c', hbefore, hcontrol, hafter, hinv, hkept 0 _ hstatus (by simp)⟩

end Libasync.Promise
