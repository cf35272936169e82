import Libasync.Foundation.History
import Libasync.TaskLoop.Model
import Mathlib.Data.List.Nodup

/-! # Oneshot tasks run at most once

The queue is cleared at the end of `run_once` only. A task that was called stays in it until then,
and a second loop over the queue calls it again. -/

namespace Libasync.TaskLoop

open Automaton Foundation

/-- An exception has left a oneshot task, and the queue was not cleared after that. -/
def abandoned (log : List Happening) : Bool :=
  log.foldl (fun before h =>
    match h with
    | .abandoned => true
    | .cleared => false
    | _ => before) false

/-- A oneshot task is running, or an exception has left one since the queue was last cleared. -/
def Config.unfinished (c : Config) : Bool := c.stack.any Frame.started || abandoned c.log

/-- `run_once` is about to call the first oneshot task of the queue while a oneshot task is
running or after an exception has left one. -/
def Config.restarts (c : Config) : Bool :=
  match c.stack with
  | .oneshots _ 0 :: _ => !c.data.oneshotQueue.isEmpty && c.unfinished
  | _ => false

/-- Every oneshot task is executed at most once, and one that was not executed waits in the queue
until a call of `run_once` that comes to its end has executed it. -/
structure Config.OneshotOnce (c : Config) : Prop where
  atMostOnce : ∀ t, c.log.count (.executed t) ≤ 1
  waits : ∀ t, .added t ∈ c.log → .executed t ∈ c.log ∨ t ∈ c.data.oneshotQueue
  cleared : AtEach (fun before h => h = .cleared →
    ∀ t, .added t ∈ before → .executed t ∈ before) c.log

/-! ### Exceptions -/

theorem unwind_suffix (frames : List Frame) : (unwind frames).2 <:+ frames := by
  induction frames with
  | nil => exact List.suffix_rfl
  | cons frame rest ih =>
      cases frame with
      | user => exact List.suffix_rfl
      | permanents | oneshots | forever => exact ih.trans (List.suffix_cons _ rest)

theorem eq_abandoned_of_mem_unwind {frames : List Frame} {h : Happening}
    (hmem : h ∈ (unwind frames).1) : h = .abandoned := by
  induction frames with
  | nil => simp [unwind] at hmem
  | cons frame rest ih =>
      cases frame with
      | user => simp [unwind] at hmem
      | permanents | forever => exact ih hmem
      | oneshots epoch next =>
          simp only [unwind] at hmem
          split at hmem
          · rcases List.mem_cons.mp hmem with rfl | hmem
            · rfl
            · exact ih hmem
          · exact ih hmem

@[simp] theorem abandoned_concat (log : List Happening) (h : Happening) :
    abandoned (log ++ [h]) =
      match h with
      | .abandoned => true
      | .cleared => false
      | _ => abandoned log := by
  simp only [abandoned, List.foldl_append, List.foldl_cons, List.foldl_nil]

theorem abandoned_append_unwind (log : List Happening) (frames : List Frame) :
    abandoned (log ++ (unwind frames).1) = ((unwind frames).1 ≠ [] || abandoned log) := by
  generalize hseen : (unwind frames).1 = seen
  have hall : ∀ h ∈ seen, h = .abandoned := by
    intro h hmem
    rw [← hseen] at hmem
    exact eq_abandoned_of_mem_unwind hmem
  induction seen using List.reverseRecOn with
  | nil => simp
  | append_singleton seen h ih =>
      rw [hall h (by simp), ← List.append_assoc, abandoned_concat]
      simp

theorem unwind_started (frames : List Frame) :
    ((unwind frames).2.any Frame.started || decide ((unwind frames).1 ≠ [])) =
      frames.any Frame.started := by
  induction frames with
  | nil => rfl
  | cons frame rest ih =>
      cases frame with
      | user => simp [unwind]
      | permanents | forever => simpa [unwind, Frame.started] using ih
      | oneshots epoch next =>
          by_cases hnext : 0 < next
          · simp [unwind, Frame.started, hnext]
          · simpa [unwind, Frame.started, hnext] using ih

/-- An exception leaves the calls of `run_once` that it passes unfinished. -/
theorem Config.unfinished_throwTo (c : Config) (frames : List Frame) :
    (c.throwTo frames).unfinished = (frames.any Frame.started || abandoned c.log) := by
  simp only [unfinished, throwTo, abandoned_append_unwind, ← unwind_started frames]
  simp [Bool.or_assoc]

theorem count_append_unwind (log : List Happening) (frames : List Frame) (t : Task) :
    (log ++ (unwind frames).1).count (.executed t) = log.count (.executed t) := by
  have hnot : .executed t ∉ (unwind frames).1 := fun hmem => by
    cases eq_abandoned_of_mem_unwind hmem
  rw [List.count_append, List.count_eq_zero_of_not_mem hnot, Nat.add_zero]

theorem executed_mem_append_unwind (log : List Happening) (frames : List Frame) (t : Task) :
    .executed t ∈ log ++ (unwind frames).1 ↔ .executed t ∈ log := by
  rw [← List.count_pos_iff, ← List.count_pos_iff, count_append_unwind]

/-! ### No task is lost -/

theorem Step.log_grows {c c' : Config} {l : Label} (h : Step c l c') : c.log <+: c'.log := by
  cases h with
  | add | runOnce | run | return_ | permanent | oneshots | dangling | forever =>
      exact List.prefix_rfl
  | oneshot | throw_ | call | clear => exact List.prefix_append _ _

/-- What holds of every configuration that is reached: a task that was added waits or was executed,
and a loop has executed the tasks before its position. -/
structure Config.Kept (c : Config) : Prop where
  waits : ∀ t, .added t ∈ c.log → .executed t ∈ c.log ∨ t ∈ c.data.oneshotQueue
  passed : ∀ epoch next, .oneshots epoch next ∈ c.stack → epoch ≤ c.epoch ∧
    (epoch = c.epoch → next ≤ c.data.oneshotQueue.length ∧
      ∀ t ∈ c.data.oneshotQueue.take next, .executed t ∈ c.log)
  cleared : AtEach (fun before h => h = .cleared →
    ∀ t, .added t ∈ before → .executed t ∈ before) c.log

namespace Config.Kept

variable {c : Config}

theorem initial : Config.Kept {} := ⟨by simp, by simp, by simp⟩

/-- Only the stack changes, and no position in the oneshot queue is new. -/
theorem of_stack (h : c.Kept) {stack : List Frame}
    (hstack : ∀ epoch next, .oneshots epoch next ∈ stack →
      .oneshots epoch next ∈ c.stack ∨ epoch = c.epoch ∧ next = 0) :
    Config.Kept { c with stack := stack } where
  waits := h.waits
  passed epoch next hmem := by
    rcases hstack epoch next hmem with hold | ⟨rfl, rfl⟩
    · exact h.passed epoch next hold
    · exact ⟨le_rfl, fun _ => ⟨Nat.zero_le _, by simp⟩⟩
  cleared := h.cleared

theorem oneshot (h : c.Kept) : c.oneshot.Kept where
  waits t hmem := by
    rcases List.mem_append.mp hmem with hold | hnew
    · rcases h.waits t hold with hexecuted | hqueue
      · exact .inl (List.mem_append_left _ hexecuted)
      · exact .inr (List.mem_append_left _ hqueue)
    · obtain rfl : t = c.numAdded := by simpa using hnew
      exact .inr (by simp [Config.oneshot])
  passed epoch next hmem := by
    obtain ⟨hle, hpassed⟩ := h.passed epoch next hmem
    refine ⟨hle, fun hepoch => ?_⟩
    obtain ⟨hnext, hexecuted⟩ := hpassed hepoch
    refine ⟨?_, fun t ht => ?_⟩
    · simp only [Config.oneshot, List.length_append, List.length_singleton]
      omega
    · simp only [Config.oneshot, List.take_append_of_le_length hnext] at ht
      exact List.mem_append_left _ (hexecuted t ht)
  cleared := by
    rw [Config.oneshot]
    exact atEach_concat.mpr ⟨h.cleared, by simp⟩

theorem throwTo (h : c.Kept) {frames : List Frame} (hframes : frames <:+ c.stack) :
    (c.throwTo frames).Kept where
  waits t hmem := by
    have hold : .added t ∈ c.log := by
      refine (List.mem_append.mp hmem).resolve_right fun hnew => ?_
      cases eq_abandoned_of_mem_unwind hnew
    exact (h.waits t hold).imp_left fun hexecuted => List.mem_append_left _ hexecuted
  passed epoch next hmem := by
    obtain ⟨hle, hpassed⟩ :=
      h.passed epoch next (((unwind_suffix frames).trans hframes).subset hmem)
    refine ⟨hle, fun hepoch => ?_⟩
    obtain ⟨hnext, hexecuted⟩ := hpassed hepoch
    exact ⟨hnext, fun t ht => List.mem_append_left _ (hexecuted t ht)⟩
  cleared := by
    apply h.cleared.append
    intro happening hmem before hcleared
    rw [eq_abandoned_of_mem_unwind hmem] at hcleared
    cases hcleared

theorem call (h : c.Kept) {next : ℕ} {rest : List Frame} {t : Task}
    (hstack : c.stack = .oneshots c.epoch next :: rest)
    (hget : c.data.oneshotQueue[next]? = some t) :
    Config.Kept
      { c with
        log := c.log ++ [.executed t]
        stack := .user :: .oneshots c.epoch (next + 1) :: rest } where
  waits t' hmem := by
    have hold : .added t' ∈ c.log := by simpa using hmem
    exact (h.waits t' hold).imp_left fun hexecuted => List.mem_append_left _ hexecuted
  passed epoch next' hmem := by
    simp only [List.mem_cons, reduceCtorEq, false_or, Frame.oneshots.injEq] at hmem
    rcases hmem with ⟨rfl, rfl⟩ | hmem
    · obtain ⟨-, hpassed⟩ := h.passed c.epoch next (by simp [hstack])
      obtain ⟨hlt, -⟩ := List.getElem?_eq_some_iff.mp hget
      refine ⟨le_rfl, fun _ => ⟨hlt, fun t' ht' => ?_⟩⟩
      rw [List.take_add_one, hget, List.mem_append] at ht'
      rcases ht' with hold | hnew
      · exact List.mem_append_left _ ((hpassed rfl).2 t' hold)
      · obtain rfl : t' = t := by simpa using hnew
        exact List.mem_append_right _ (by simp)
    · obtain ⟨hle, hpassed⟩ := h.passed epoch next' (by simp [hstack, hmem])
      refine ⟨hle, fun hepoch => ?_⟩
      obtain ⟨hnext, hexecuted⟩ := hpassed hepoch
      exact ⟨hnext, fun t' ht' => List.mem_append_left _ (hexecuted t' ht')⟩
  cleared := atEach_concat.mpr ⟨h.cleared, by simp⟩

/-- The loop has come to the end of the queue. -/
theorem clear (h : c.Kept) {next : ℕ} {rest : List Frame}
    (hstack : c.stack = .oneshots c.epoch next :: rest)
    (hdone : c.data.oneshotQueue.length ≤ next) :
    Config.Kept
      { c with
        data := { c.data with oneshotQueue := [] }
        epoch := c.epoch + 1
        log := c.log ++ [.cleared]
        stack := rest } := by
  have hexecuted : ∀ t, .added t ∈ c.log → .executed t ∈ c.log := by
    intro t hadded
    rcases h.waits t hadded with hexecuted | hqueue
    · exact hexecuted
    · obtain ⟨-, hpassed⟩ := h.passed c.epoch next (by simp [hstack])
      apply (hpassed rfl).2 t
      rwa [List.take_of_length_le hdone]
  refine ⟨?_, ?_, ?_⟩
  · intro t hmem
    have hadded : .added t ∈ c.log := by simpa using hmem
    exact .inl (List.mem_append_left _ (hexecuted t hadded))
  · intro epoch next' hmem
    obtain ⟨hle, -⟩ := h.passed epoch next' (by simp [hstack, hmem])
    refine ⟨Nat.le_succ_of_le hle, fun hepoch => ?_⟩
    dsimp only at hepoch
    omega
  · exact atEach_concat.mpr ⟨h.cleared, fun _ => hexecuted⟩

theorem step {c' : Config} {l : Label} (h : c.Kept) (hstep : Step c l c') : c'.Kept := by
  cases hstep with
  | add rest stack => exact ⟨h.waits, h.passed, h.cleared⟩
  | oneshot rest stack => exact h.oneshot
  | runOnce rest stack | run rest stack | forever rest stack =>
      apply h.of_stack
      intro epoch next hmem
      exact .inl (by simpa using hmem)
  | return_ frame rest stack =>
      apply h.of_stack
      intro epoch next hmem
      exact .inl (by simp [stack, hmem])
  | throw_ frame rest stack =>
      apply h.throwTo
      rw [stack]
      exact List.suffix_cons _ _
  | permanent next rest stack more =>
      apply h.of_stack
      intro epoch next' hmem
      exact .inl (by simpa [stack] using hmem)
  | oneshots next rest stack done =>
      apply h.of_stack
      intro epoch next' hmem
      rcases List.mem_cons.mp hmem with heq | hmem
      · obtain ⟨rfl, rfl⟩ := Frame.oneshots.inj heq
        exact .inr ⟨rfl, rfl⟩
      · exact .inl (by simp [stack, hmem])
  | dangling epoch next rest stack stale =>
      apply h.of_stack
      simp
  | call next rest t stack get => exact h.call stack get
  | clear next rest stack done => exact h.clear stack done

end Config.Kept

/-! ### Every task at most once -/

/-- The first `m` tasks of the queue are those that were executed. At most one loop over the queue
has called a task, and it has come to the position `m`. -/
structure Config.Ordered (c : Config) (m : ℕ) : Prop where
  atMostOnce : ∀ t, c.log.count (.executed t) ≤ 1
  executed_lt : ∀ t, .executed t ∈ c.log → t < c.numAdded
  queue_lt : ∀ t ∈ c.data.oneshotQueue, t < c.numAdded
  nodup : c.data.oneshotQueue.Nodup
  le : m ≤ c.data.oneshotQueue.length
  executed_iff : ∀ i t, c.data.oneshotQueue[i]? = some t → (.executed t ∈ c.log ↔ i < m)
  iterator : ∀ epoch next, .oneshots epoch next ∈ c.stack →
    epoch = c.epoch ∧ (next = 0 ∨ next = m)
  below : ∀ epoch next, .oneshots epoch next ∈ c.stack.tail → 0 < next
  single : c.stack.countP Frame.started ≤ 1
  unfinished : c.unfinished = true ↔ 0 < m

namespace Config.Ordered

variable {c : Config} {m : ℕ}

theorem initial : Config.Ordered {} 0 :=
  ⟨by simp, by simp, by simp, by simp, by simp, by simp, by simp, by simp, by decide, by decide⟩

/-- Below a loop over the queue there is no other one, when it has called a task or no task is
unfinished. -/
theorem no_iterator (h : c.Ordered m) {epoch next : ℕ} {rest : List Frame}
    (hstack : c.stack = .oneshots epoch next :: rest) (hfirst : next = 0 → m = 0) :
    ∀ epoch next, .oneshots epoch next ∉ rest := by
  intro epoch' next' hmem
  have hpos : 0 < next' := h.below epoch' next' (by simp [hstack, hmem])
  have hrest : 0 < rest.countP Frame.started :=
    List.countP_pos_iff.mpr ⟨_, hmem, by simpa [Frame.started] using hpos⟩
  have hsingle := h.single
  rw [hstack, List.countP_cons] at hsingle
  by_cases hnext : 0 < next
  · simp only [Frame.started, hnext, decide_true, if_true] at hsingle
    omega
  · -- then the frame below has stopped at the position 0 as well
    obtain ⟨-, hposition⟩ := h.iterator epoch' next' (by simp [hstack, hmem])
    have hm : m = 0 := hfirst (by omega)
    omega

/-- Only the stack changes, and not the loops that have called a task. -/
theorem of_stack (h : c.Ordered m) {stack : List Frame}
    (hstack : ∀ epoch next, .oneshots epoch next ∈ stack →
      .oneshots epoch next ∈ c.stack ∨ epoch = c.epoch ∧ next = 0)
    (hbelow : ∀ epoch next, .oneshots epoch next ∈ stack.tail → 0 < next)
    (hcount : stack.countP Frame.started = c.stack.countP Frame.started) :
    Config.Ordered { c with stack := stack } m :=
  { h with
    iterator := by
      intro epoch next hmem
      rcases hstack epoch next hmem with hold | ⟨rfl, rfl⟩
      · exact h.iterator epoch next hold
      · exact ⟨rfl, .inl rfl⟩
    below := hbelow
    single := by
      rw [hcount]
      exact h.single
    unfinished := by
      have hany : stack.any Frame.started = c.stack.any Frame.started := by
        rw [Bool.eq_iff_iff, List.any_eq_true, List.any_eq_true, ← List.countP_pos_iff,
          ← List.countP_pos_iff, hcount]
      rw [← h.unfinished, Config.unfinished, Config.unfinished, hany] }

theorem add (h : c.Ordered m) : c.add.Ordered m where
  atMostOnce := h.atMostOnce
  executed_lt t hmem := Nat.lt_succ_of_lt (h.executed_lt t hmem)
  queue_lt t hmem := Nat.lt_succ_of_lt (h.queue_lt t hmem)
  nodup := h.nodup
  le := h.le
  executed_iff := h.executed_iff
  iterator := h.iterator
  below := h.below
  single := h.single
  unfinished := h.unfinished

theorem oneshot (h : c.Ordered m) : c.oneshot.Ordered m where
  atMostOnce t := by simpa [Config.oneshot, List.count_append] using h.atMostOnce t
  executed_lt t hmem := by
    have hold : .executed t ∈ c.log := by simpa [Config.oneshot] using hmem
    exact Nat.lt_succ_of_lt (h.executed_lt t hold)
  queue_lt t hmem := by
    rcases List.mem_append.mp hmem with hold | hnew
    · exact Nat.lt_succ_of_lt (h.queue_lt t hold)
    · obtain rfl : t = c.numAdded := by simpa using hnew
      exact Nat.lt_succ_self _
  nodup := by
    refine h.nodup.append (List.nodup_singleton _) ?_
    simp only [List.disjoint_singleton]
    intro hmem
    exact absurd (h.queue_lt _ hmem) (Nat.lt_irrefl _)
  le := by
    have hle := h.le
    simp only [Config.oneshot, List.length_append]
    omega
  executed_iff i t hget := by
    have hlog : .executed t ∈ c.oneshot.log ↔ .executed t ∈ c.log := by simp [Config.oneshot]
    rw [hlog]
    have hle := h.le
    rcases Nat.lt_or_ge i c.data.oneshotQueue.length with hi | hi
    · apply h.executed_iff i t
      rwa [Config.oneshot, List.getElem?_append_left hi] at hget
    · rw [Config.oneshot, List.getElem?_append_right hi] at hget
      have ht : t = c.numAdded := (List.mem_singleton.mp (List.mem_of_getElem? hget))
      have hnot : .executed t ∉ c.log := fun hmem => by
        have hlt := h.executed_lt t hmem
        rw [ht] at hlt
        exact Nat.lt_irrefl _ hlt
      exact ⟨fun hmem => absurd hmem hnot, fun hlt => absurd hlt (by omega)⟩
  iterator := h.iterator
  below := h.below
  single := h.single
  unfinished := by
    rw [← h.unfinished]
    simp [Config.unfinished, Config.oneshot]

theorem throwTo (h : c.Ordered m) {frame : Frame} {rest : List Frame}
    (hstack : c.stack = .user :: frame :: rest) : (c.throwTo (frame :: rest)).Ordered m where
  atMostOnce t := by
    rw [Config.throwTo, count_append_unwind]
    exact h.atMostOnce t
  executed_lt t hmem := h.executed_lt t ((executed_mem_append_unwind _ _ _).mp hmem)
  queue_lt := h.queue_lt
  nodup := h.nodup
  le := h.le
  executed_iff i t hget := (executed_mem_append_unwind _ _ _).trans (h.executed_iff i t hget)
  iterator epoch next hmem := by
    apply h.iterator epoch next
    rw [hstack]
    exact List.mem_cons_of_mem _ ((unwind_suffix _).subset hmem)
  below epoch next hmem := by
    apply h.below epoch next
    rw [hstack]
    exact (unwind_suffix _).subset (List.mem_of_mem_tail hmem)
  single := by
    have hsingle := h.single
    rw [hstack, List.countP_cons_of_neg (by simp [Frame.started])] at hsingle
    exact ((unwind_suffix _).sublist.countP_le).trans hsingle
  unfinished := by
    rw [← h.unfinished, Config.unfinished_throwTo, Config.unfinished, hstack]
    simp [Frame.started]

theorem call (h : c.Ordered m) {next : ℕ} {rest : List Frame} {t : Task}
    (hstack : c.stack = .oneshots c.epoch next :: rest)
    (hget : c.data.oneshotQueue[next]? = some t) (hfirst : next = 0 → m = 0) :
    Config.Ordered
      { c with
        log := c.log ++ [.executed t]
        stack := .user :: .oneshots c.epoch (next + 1) :: rest } (m + 1) := by
  have hnext : next = m := by
    rcases (h.iterator c.epoch next (by simp [hstack])).2 with hzero | hm
    · rw [hzero, hfirst hzero]
    · exact hm
  subst hnext
  have hrest := h.no_iterator hstack hfirst
  have hnot : .executed t ∉ c.log := fun hmem =>
    Nat.lt_irrefl _ ((h.executed_iff next t hget).mp hmem)
  have hidle : rest.countP Frame.started = 0 := by
    apply List.countP_eq_zero.mpr
    intro frame hmem
    cases frame with
    | oneshots epoch next' => exact absurd hmem (hrest epoch next')
    | user | permanents | forever => simp [Frame.started]
  obtain ⟨hlt, hgetElem⟩ := List.getElem?_eq_some_iff.mp hget
  refine ⟨?_, ?_, h.queue_lt, h.nodup, hlt, ?_, ?_, ?_, ?_, ?_⟩
  · intro t'
    rw [List.count_append]
    by_cases ht : t' = t
    · rw [ht, List.count_eq_zero_of_not_mem hnot]
      simp
    · have hzero : [Happening.executed t].count (.executed t') = 0 := by
        simp [Ne.symm ht]
      rw [hzero]
      exact h.atMostOnce t'
  · intro t' hmem
    rcases List.mem_append.mp hmem with hold | hnew
    · exact h.executed_lt t' hold
    · obtain rfl : t' = t := by simpa using hnew
      exact h.queue_lt t' (List.mem_of_getElem? hget)
  · intro i t' hget'
    have hsame : t' = t ↔ i = next := by
      constructor
      · rintro rfl
        obtain ⟨hi, hgetElem'⟩ := List.getElem?_eq_some_iff.mp hget'
        exact (h.nodup.getElem_inj_iff).mp (hgetElem'.trans hgetElem.symm)
      · rintro rfl
        exact Option.some.inj (hget'.symm.trans hget)
    have hlog : .executed t' ∈ c.log ++ [.executed t] ↔ .executed t' ∈ c.log ∨ t' = t := by
      simp
    rw [hlog, h.executed_iff i t' hget', hsame]
    omega
  · intro epoch next' hmem
    simp only [List.mem_cons, reduceCtorEq, false_or, Frame.oneshots.injEq] at hmem
    rcases hmem with ⟨rfl, rfl⟩ | hmem
    · exact ⟨rfl, .inr rfl⟩
    · exact absurd hmem (hrest epoch next')
  · intro epoch next' hmem
    simp only [List.tail_cons, List.mem_cons, Frame.oneshots.injEq] at hmem
    rcases hmem with ⟨rfl, rfl⟩ | hmem
    · exact Nat.succ_pos _
    · exact absurd hmem (hrest epoch next')
  · simp [Frame.started, hidle]
  · simp [Config.unfinished, Frame.started]

theorem clear (h : c.Ordered m) {next : ℕ} {rest : List Frame}
    (hstack : c.stack = .oneshots c.epoch next :: rest)
    (hdone : c.data.oneshotQueue.length ≤ next) :
    Config.Ordered
      { c with
        data := { c.data with oneshotQueue := [] }
        epoch := c.epoch + 1
        log := c.log ++ [.cleared]
        stack := rest } 0 := by
  have hfirst : next = 0 → m = 0 := fun hzero => by
    have hle := h.le
    omega
  have hrest := h.no_iterator hstack hfirst
  have hidle : rest.any Frame.started = false := by
    apply List.any_eq_false.mpr
    intro frame hmem
    cases frame with
    | oneshots epoch next' => exact absurd hmem (hrest epoch next')
    | user | permanents | forever => simp [Frame.started]
  refine ⟨?_, ?_, by simp, List.nodup_nil, le_rfl, by simp, ?_, ?_, ?_, ?_⟩
  · intro t
    simpa [List.count_append] using h.atMostOnce t
  · intro t hmem
    have hold : .executed t ∈ c.log := by simpa using hmem
    exact h.executed_lt t hold
  · intro epoch next' hmem
    exact absurd hmem (hrest epoch next')
  · intro epoch next' hmem
    exact absurd (List.mem_of_mem_tail hmem) (hrest epoch next')
  · have hsingle := h.single
    rw [hstack, List.countP_cons] at hsingle
    dsimp only
    omega
  · simp [Config.unfinished, hidle]

end Config.Ordered

/-! ### Main result -/

/-- The state in which a oneshot task was executed twice. -/
def Config.Repeated (c : Config) : Prop := ∃ t, 2 ≤ c.log.count (.executed t)

theorem Config.Ordered.step {c c' : Config} {l : Label} {m : ℕ} (h : c.Ordered m)
    (hguard : c.restarts = false) (hstep : Step c l c') : ∃ m', c'.Ordered m' := by
  cases hstep with
  | add rest stack => exact ⟨m, h.add⟩
  | oneshot rest stack => exact ⟨m, h.oneshot⟩
  | runOnce rest stack | run rest stack =>
      refine ⟨m, h.of_stack ?_ ?_ ?_⟩
      · intro epoch next hmem
        exact .inl (by simpa using hmem)
      · intro epoch next hmem
        apply h.below epoch next
        rw [List.tail_cons, stack] at hmem
        simpa [stack] using hmem
      · simp [Frame.started]
  | forever rest stack =>
      refine ⟨m, h.of_stack ?_ ?_ ?_⟩
      · intro epoch next hmem
        exact .inl (by simpa using hmem)
      · intro epoch next hmem
        apply h.below epoch next
        rw [List.tail_cons, stack] at hmem
        simpa [stack] using hmem
      · simp [Frame.started]
  | return_ frame rest stack =>
      refine ⟨m, h.of_stack ?_ ?_ ?_⟩
      · intro epoch next hmem
        exact .inl (by simp [stack, hmem])
      · intro epoch next hmem
        apply h.below epoch next
        rw [stack]
        exact List.mem_cons_of_mem _ hmem
      · simp [stack, Frame.started]
  | throw_ frame rest stack => exact ⟨m, h.throwTo stack⟩
  | permanent next rest stack more =>
      refine ⟨m, h.of_stack ?_ ?_ ?_⟩
      · intro epoch next' hmem
        exact .inl (by simpa [stack] using hmem)
      · intro epoch next' hmem
        apply h.below epoch next'
        simpa [stack] using hmem
      · simp [stack, Frame.started]
  | oneshots next rest stack done =>
      refine ⟨m, h.of_stack ?_ ?_ ?_⟩
      · intro epoch next' hmem
        rcases List.mem_cons.mp hmem with heq | hmem
        · obtain ⟨rfl, rfl⟩ := Frame.oneshots.inj heq
          exact .inr ⟨rfl, rfl⟩
        · exact .inl (by simp [stack, hmem])
      · intro epoch next' hmem
        apply h.below epoch next'
        rw [stack]
        exact hmem
      · simp [stack, Frame.started]
  | dangling epoch next rest stack stale =>
      exact absurd (h.iterator epoch next (by simp [stack])).1 stale
  | call next rest t stack get =>
      refine ⟨m + 1, h.call stack get ?_⟩
      rintro rfl
      have hqueue : c.data.oneshotQueue ≠ [] := by
        rintro hnil
        simp [hnil] at get
      have hidle : c.unfinished = false := by
        simpa [Config.restarts, stack, hqueue] using hguard
      have hm := h.unfinished
      rw [hidle] at hm
      simpa using hm
  | clear next rest stack done => exact ⟨0, h.clear stack done⟩

/-- A loop that starts over calls the first task of the queue again. -/
theorem Config.Ordered.repeated {c c' : Config} {l : Label} {m : ℕ} (h : c.Ordered m)
    (hrestarts : c.restarts = true) (hstep : Step c l c') : c'.Repeated := by
  simp only [Config.restarts] at hrestarts
  split at hrestarts
  · rename_i epoch rest hstack
    obtain ⟨hqueue, hunfinished⟩ := Bool.and_eq_true_iff.mp hrestarts
    have hm : 0 < m := h.unfinished.mp hunfinished
    obtain rfl : epoch = c.epoch := (h.iterator epoch 0 (by simp [hstack])).1
    cases hstep with
    | call next rest' t stack get =>
        obtain ⟨heq, -⟩ := List.cons.inj (hstack.symm.trans stack)
        obtain rfl : 0 = next := (Frame.oneshots.inj heq).2
        have hexecuted : .executed t ∈ c.log := (h.executed_iff 0 t get).mpr hm
        have hcount : 0 < c.log.count (.executed t) := List.count_pos_iff.mpr hexecuted
        refine ⟨t, ?_⟩
        rw [List.count_append, List.count_singleton_self]
        omega
    | clear next rest' stack done =>
        obtain ⟨heq, -⟩ := List.cons.inj (hstack.symm.trans stack)
        obtain rfl : 0 = next := (Frame.oneshots.inj heq).2
        have hle := h.le
        omega
    | dangling epoch next rest' stack stale =>
        obtain ⟨heq, -⟩ := List.cons.inj (hstack.symm.trans stack)
        exact absurd (Frame.oneshots.inj heq).1.symm stale
    | add rest' stack | oneshot rest' stack | runOnce rest' stack | run rest' stack
    | forever rest' stack => simp [hstack] at stack
    | return_ frame rest' stack | throw_ frame rest' stack => simp [hstack] at stack
    | permanent next rest' stack | oneshots next rest' stack => simp [hstack] at stack
  · cases hrestarts

theorem Config.Repeated.step {c c' : Config} {l : Label} (h : c.Repeated) (hstep : Step c l c') :
    c'.Repeated := by
  obtain ⟨t, ht⟩ := h
  exact ⟨t, ht.trans (hstep.log_grows.sublist.count_le _)⟩

/-- In a run oneshot tasks run at most once, and none is lost, exactly when no call of `run_once`
comes to its oneshot tasks while one of them is running or after an exception has left one. -/
theorem oneshot_at_most_once_iff {ls : List Label} {c : Config} (hrun : run step {} ls = some c) :
    c.OneshotOnce ↔ EachStep step (fun c _ => c.restarts = false) {} ls := by
  have hkept : c.Kept :=
    run_invariant_of_step (fun _ _ _ h hl => h.step (stepped hl)) .initial hrun
  have hiff : EachStep step (fun c _ => c.restarts = false) {} ls ↔ ¬ c.Repeated := by
    refine eachStep_iff_not (I := fun c => ∃ m, c.Ordered m) ?_ ?_ ?_ ?_ ⟨0, .initial⟩ hrun
    · rintro c l c' ⟨m, h⟩ hguard hl
      exact h.step hguard (stepped hl)
    · rintro c l c' ⟨m, h⟩ hguard hl
      exact h.repeated (by simpa using hguard) (stepped hl)
    · intro c l c' h hl
      exact h.step (stepped hl)
    · rintro c ⟨m, h⟩ ⟨t, ht⟩
      exact absurd (ht.trans (h.atMostOnce t)) (by decide)
  rw [hiff]
  constructor
  · rintro ⟨hone, -, -⟩ ⟨t, ht⟩
    exact absurd (ht.trans (hone t)) (by decide)
  · intro hnot
    refine ⟨fun t => ?_, hkept.waits, hkept.cleared⟩
    by_contra hmore
    exact hnot ⟨t, by omega⟩

/-- Two oneshot tasks, of which the second one throws; `run_once` is called again. -/
def secondThrowsRun : List Label :=
  [.oneshot, .oneshot, .runOnce, .tau, .tau, .return_, .tau, .throw_]

/-- A permanent task adds a oneshot task and calls `run_once` in it. -/
theorem oneshot_at_most_once_iff_sample : ∃ c : Config,
    run step {} [.add, .runOnce, .tau, .oneshot, .runOnce, .tau, .return_, .tau, .tau,
      .return_, .tau, .return_, .tau, .tau] = some c ∧ c.OneshotOnce := by
  obtain ⟨c, hrun⟩ : ∃ c : Config, run step {} [.add, .runOnce, .tau, .oneshot, .runOnce, .tau,
      .return_, .tau, .tau, .return_, .tau, .return_, .tau, .tau] = some c := ⟨_, rfl⟩
  exact ⟨c, hrun, (oneshot_at_most_once_iff hrun).mpr (by decide)⟩

/-- The first task is executed again. -/
theorem secondThrowsRun_repeats : ∃ c : Config,
    run step {} (secondThrowsRun ++ [.runOnce, .tau, .tau]) = some c ∧
      c.log.count (.executed 0) = 2 ∧ ¬ c.OneshotOnce := by
  refine ⟨_, rfl, by decide, ?_⟩
  intro h
  exact absurd (h.atMostOnce 0) (by decide)

end Libasync.TaskLoop
