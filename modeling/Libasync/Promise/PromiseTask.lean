import Libasync.Promise.Delivery

/-! # What a call of `promise_task` guarantees -/

namespace Libasync.Promise

open Foundation

variable {V E F : Type*}

/-! ### The order of turns -/

/-- The entries put in the queue, in order. -/
def enqueued (log : List (Event V E F)) : List Ref :=
  log.filterMap fun
    | .enqueued p => some p
    | _ => none

/-- The handler calls with the queue position and the promise whose turn it was. -/
def turns (log : List (Event V E F)) : List (ℕ × Ref) :=
  log.filterMap fun
    | .called turn p _ _ _ => some (turn, p)
    | _ => none

@[simp] theorem enqueued_append (log rest : List (Event V E F)) :
    enqueued (log ++ rest) = enqueued log ++ enqueued rest :=
  List.filterMap_append

@[simp] theorem turns_append (log rest : List (Event V E F)) :
    turns (log ++ rest) = turns log ++ turns rest :=
  List.filterMap_append

/-- Handler calls follow the queue `entries`: each is made in the turn of its promise, and the
turns are taken in queue order. -/
structure InTurn (entries : List Ref) (log : List (Event V E F)) : Prop where
  entry : ∀ turn p, (turn, p) ∈ turns log → entries[turn]? = some p
  ordered : (turns log).Pairwise fun a b => a.1 ≤ b.1

/-- The traversal began with the queue `entries` and has recorded `log` since. -/
structure Traversing (entries : List Ref) (log : List (Event V E F)) (i : ℕ) (s : State V E F) :
    Prop where
  queue : s.queue = entries ++ enqueued log
  inTurn : InTurn (entries ++ enqueued log) log
  bound : ∀ turn p, (turn, p) ∈ turns log → turn ≤ i

/-- Events and queue grow together, and no handler is called. -/
structure Extends (log : List (Event V E F)) (s t : State V E F) : Prop where
  log_eq : t.log = s.log ++ log
  queue_eq : t.queue = s.queue ++ enqueued log
  no_turns : turns log = []

theorem Change.extends {T : Ref → Prop} {s t : State V E F} (h : Change T s t) :
    ∃ log, Extends log s t := by
  cases h with
  | alloc => exact ⟨[], by simp, by simp [enqueued], rfl⟩
  | settle p => exact ⟨[.enqueued p], by simp, by simp [enqueued], rfl⟩
  | request p => exact ⟨[.enqueued p], by simp, by simp [enqueued], rfl⟩
  | adopt => exact ⟨[], by simp, by simp [enqueued], rfl⟩
  | register side p f =>
      exact ⟨[.registered side p s.heap.length f], by simp [State.create],
        by simp [enqueued, State.create], rfl⟩

theorem Changes.extends {T : Ref → Prop} {s t : State V E F} (h : Changes T s t) :
    ∃ log, Extends log s t := by
  refine h.induct (I := fun u => ∃ log, Extends log s u) ?_ ⟨[], by simp, by simp [enqueued], rfl⟩
  rintro u v ⟨log, hlog, hqueue, hturns⟩ hc
  obtain ⟨more, hlog', hqueue', hturns'⟩ := hc.extends
  exact ⟨log ++ more, by simp [hlog, hlog'], by simp [hqueue, hqueue'], by simp [hturns, hturns']⟩

theorem InTurn.extend {entries more : List Ref} {log rest : List (Event V E F)}
    (h : InTurn entries log) (hrest : turns rest = []) :
    InTurn (entries ++ more) (log ++ rest) := by
  refine ⟨?_, ?_⟩
  · intro turn p hmem
    have hmem' : (turn, p) ∈ turns log := by simpa [hrest] using hmem
    exact getElem?_of_prefix (List.prefix_append _ _) (h.entry turn p hmem')
  · simpa [hrest] using h.ordered

theorem Traversing.extend {entries : List Ref} {log rest : List (Event V E F)} {i : ℕ}
    {s t : State V E F} (h : Traversing entries log i s) (hext : Extends rest s t) :
    Traversing entries (log ++ rest) i t := by
  refine ⟨?_, ?_, ?_⟩
  · rw [hext.queue_eq, h.queue, enqueued_append, List.append_assoc]
  · rw [enqueued_append, ← List.append_assoc]
    exact h.inTurn.extend hext.no_turns
  · intro turn p hmem
    exact h.bound turn p (by simpa [hext.no_turns] using hmem)

/-- One more handler of the promise in turn is called. -/
theorem Traversing.call {entries : List Ref} {log : List (Event V E F)} {i : ℕ} {p : Ref}
    {s : State V E F} (h : Traversing entries log i s) (hentry : s.queue[i]? = some p)
    (outer : Ref) (f : F) (arg : Arg V E) :
    Traversing entries (log ++ [.called i p outer f arg]) i
      (s.record (.called i p outer f arg)) := by
  have henqueued : enqueued (log ++ [.called i p outer f arg]) = enqueued log := by
    simp [enqueued]
  have hturns : turns (log ++ [.called i p outer f arg]) = turns log ++ [(i, p)] := by
    simp [turns]
  refine ⟨by rw [henqueued]; exact h.queue, ⟨?_, ?_⟩, ?_⟩
  · intro turn q hmem
    rw [hturns, List.mem_append, List.mem_singleton] at hmem
    rw [henqueued]
    rcases hmem with hmem | hmem
    · exact h.inTurn.entry turn q hmem
    · obtain ⟨rfl, rfl⟩ := Prod.mk.inj hmem
      rw [← h.queue]
      exact hentry
  · rw [hturns]
    refine List.pairwise_append.mpr ⟨h.inTurn.ordered, by simp, ?_⟩
    rintro ⟨turn, q⟩ hmem b hb
    rw [List.mem_singleton.mp hb]
    exact h.bound turn q hmem
  · intro turn q hmem
    rw [hturns, List.mem_append, List.mem_singleton] at hmem
    rcases hmem with hmem | hmem
    · exact h.bound turn q hmem
    · exact Nat.le_of_eq (Prod.mk.inj hmem).1

/-- What holds during and after one call of `promise_task` that began at `s₀`. -/
def PassInv (s₀ : State V E F) (c : Config V E F) : Prop :=
  match c.control with
  | .idle => True
  | .done _ => ∃ log, c.state.log = s₀.log ++ log ∧ InTurn (s₀.queue ++ enqueued log) log
  | control => ∃ log, c.state.log = s₀.log ++ log ∧
      Traversing s₀.queue log control.position c.state

theorem passInv_of_changes {T : Ref → Prop} {s₀ s t : State V E F} {i : ℕ}
    (h : ∃ log, s.log = s₀.log ++ log ∧ Traversing s₀.queue log i s) (hc : Changes T s t) :
    ∃ log, t.log = s₀.log ++ log ∧ Traversing s₀.queue log i t := by
  obtain ⟨log, hlog, htrav⟩ := h
  obtain ⟨rest, hext⟩ := hc.extends
  exact ⟨log ++ rest, by rw [hext.log_eq, hlog, List.append_assoc], htrav.extend hext⟩

variable [Blank V] [FnTrait F E]

theorem PassInv.step {s₀ : State V E F} {c c' : Config V E F} {l : Label V E F}
    (h : PassInv s₀ c) (hq : QueueInv c) (hl : l ≠ .promiseTask) (hstep : Step c l c') :
    PassInv s₀ c' := by
  cases hstep with
  | op s control o user known =>
      cases control with
      | idle => trivial
      | handler i p j outer f => exact passInv_of_changes h (s.perform_changes o)
      | turn i => exact user.elim
      | callBack i p j => exact user.elim
      | done exit => exact user.elim
  | start s => exact absurd rfl hl
  | next s i p entry => exact h
  | clear s i entry =>
      obtain ⟨log, hlog, htrav⟩ := h
      exact ⟨log, hlog, htrav.inTurn⟩
  | adopted s i p j data outer get due =>
      exact passInv_of_changes (i := i) h
        (s.adoptStatus_changes (T := (· = outer)) outer data.status rfl)
  | called s i p j data outer f arg get due arg_eq =>
      obtain ⟨log, hlog, htrav⟩ := h
      refine ⟨log ++ [.called i p outer f arg], ?_, htrav.call (hq.current p rfl) outer f arg⟩
      rw [← List.append_assoc, ← hlog]
      rfl
  | mismatch s i p j data outer f e get due arg_eq =>
      obtain ⟨log, hlog, htrav⟩ := h
      exact ⟨log, hlog, htrav.inTurn⟩
  | finished s i p j data get due =>
      obtain ⟨log, hlog, hqueue, hturn, hbound⟩ := h
      exact ⟨log, hlog, hqueue, hturn,
        fun turn q hmem => Nat.le_succ_of_le (hbound turn q hmem)⟩
  | returned s i p j outer f result known =>
      exact passInv_of_changes (i := i) h
        (s.finishHandler_changes f result (hq.scope.outer i p j outer f rfl))
  | resume s exit => trivial

/-- One call of `promise_task`, whose labels contain no second call. -/
theorem RunsTo.inTurn {before pass : List (Label V E F)} {s₀ s : State V E F}
    {exit : Option (Exn E)} (hbefore : RunsTo before ⟨s₀, .idle⟩)
    (hpass : Label.promiseTask ∉ pass)
    (h : RunsTo (before ++ .promiseTask :: pass) ⟨s, .done exit⟩) :
    ∃ log, s.log = s₀.log ++ log ∧ InTurn (s₀.queue ++ enqueued log) log := by
  obtain ⟨c, hc, hrun⟩ := Automaton.run_append_eq_some step h
  obtain rfl := Option.some.inj (hc.symm.trans hbefore)
  obtain ⟨c, hc, hrun⟩ := Automaton.run_cons_eq_some step hrun
  obtain rfl := Option.some.inj hc
  have hinv : ∀ (c : Config V E F) l c', QueueInv c ∧ PassInv s₀ c → l ≠ .promiseTask →
      step c l = some c' → QueueInv c' ∧ PassInv s₀ c' := by
    intro c l c' ⟨hq, hp⟩ hl hstep
    exact ⟨hq.step (.of_step hstep), hp.step hq hl (.of_step hstep)⟩
  have hguard : Automaton.EachStep step (fun _ l => l ≠ .promiseTask)
      (⟨s₀, .turn 0⟩ : Config V E F) pass := by
    rintro front l after t rfl _ rfl
    exact hpass (by simp)
  have hstart : QueueInv (⟨s₀, .turn 0⟩ : Config V E F) ∧ PassInv s₀ ⟨s₀, .turn 0⟩ := by
    refine ⟨(RunsTo.queueInv hbefore).step (.start s₀), [], by simp, ?_, ⟨?_, ?_⟩, ?_⟩ <;>
      simp [enqueued, turns]
  exact (Automaton.run_invariant hinv hstart hguard hrun).2

end Libasync.Promise
