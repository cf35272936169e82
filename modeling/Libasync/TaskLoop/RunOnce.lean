import Libasync.TaskLoop.Model
import Mathlib.Data.List.Nodup

/-! # One call of `run_once`

Both loops of a call go through a list that the tasks extend, and the call clears the second list
at its end. -/

namespace Libasync.TaskLoop

open Automaton

/-- A call of a task by one of the two loops of `run_once`. -/
inductive Execution where
  | permanent (t : Task)
  | oneshot (t : Task)
  deriving DecidableEq, Repr

/-- The task that a step calls. -/
def executed? (c : Config) : Label → Option Execution
  | .tau =>
      match c.stack with
      | .permanents next :: _ => c.data.permanentQueue[next]?.map .permanent
      | .oneshots epoch next :: _ =>
          if epoch = c.epoch then c.data.oneshotQueue[next]?.map .oneshot else none
      | _ => none
  | _ => none

/-- The permanent task that a step adds. -/
def addedPermanent? (c : Config) (l : Label) : Option Task :=
  if l = .add then some c.numAdded else none

/-- The oneshot task that a step adds. -/
def addedOneshot? (c : Config) (l : Label) : Option Task :=
  if l = .oneshot then some c.numAdded else none

/-- A task does not throw, and does not enter the loop again. -/
def Label.plain : Label → Bool
  | .runOnce | .run | .throw_ => false
  | _ => true

/-- A step of a call of `run_once` that has not returned to the frames `base`. -/
def InCall (base : List Frame) (c : Config) (l : Label) : Prop := c.stack ≠ base ∧ l.plain

instance (base : List Frame) (c : Config) (l : Label) : Decidable (InCall base c l) :=
  inferInstanceAs (Decidable (_ ∧ _))

/-- What a call of `run_once` from `c` to `c'` has done. The first loop ends after the steps
`first`, at `m`. -/
structure Round (c : Config) (first : List Label) (m : Config) (second : List Label)
    (c' : Config) : Prop where
  executes : observed step executed? c (first ++ second) =
    (c.data.permanentQueue ++ observed step addedPermanent? c first).map .permanent ++
      (c.data.oneshotQueue ++ observed step addedOneshot? c (first ++ second)).map .oneshot
  once : (observed step executed? c (first ++ second)).Nodup
  oneshotQueue : c'.data.oneshotQueue = []
  permanentQueue : c'.data.permanentQueue =
    c.data.permanentQueue ++ observed step addedPermanent? c (first ++ second)
  later : ∀ t ∈ observed step addedPermanent? m second,
    t ∈ c'.data.permanentQueue ∧ .permanent t ∉ observed step executed? c (first ++ second)

/-! ### Every addition is a task of its own -/

/-- The tasks that wait were added earlier, each once. -/
structure Config.Fresh (c : Config) : Prop where
  permanent_lt : ∀ t ∈ c.data.permanentQueue, t < c.numAdded
  oneshot_lt : ∀ t ∈ c.data.oneshotQueue, t < c.numAdded
  permanent_nodup : c.data.permanentQueue.Nodup
  oneshot_nodup : c.data.oneshotQueue.Nodup

namespace Config.Fresh

theorem initial : Config.Fresh {} := ⟨by simp, by simp, by simp, by simp⟩

/-- A number that was not given yet is put at the end of a queue. -/
theorem nodup_concat {queue : List Task} {n : ℕ} (hlt : ∀ t ∈ queue, t < n)
    (hqueue : queue.Nodup) : (queue ++ [n]).Nodup := by
  apply hqueue.append (List.nodup_singleton n)
  rw [List.disjoint_singleton]
  exact fun hmem => Nat.lt_irrefl n (hlt n hmem)

theorem lt_concat {queue : List Task} {n : ℕ} (hlt : ∀ t ∈ queue, t < n) :
    ∀ t ∈ queue ++ [n], t < n + 1 := by
  intro t hmem
  rcases List.mem_append.mp hmem with hold | hnew
  · exact Nat.lt_succ_of_lt (hlt t hold)
  · rw [List.mem_singleton.mp hnew]
    exact Nat.lt_succ_self n

theorem step {c c' : Config} {l : Label} (h : c.Fresh) (hstep : Step c l c') : c'.Fresh := by
  cases hstep with
  | add =>
      exact ⟨lt_concat h.permanent_lt, fun t ht => Nat.lt_succ_of_lt (h.oneshot_lt t ht),
        nodup_concat h.permanent_lt h.permanent_nodup, h.oneshot_nodup⟩
  | oneshot =>
      exact ⟨fun t ht => Nat.lt_succ_of_lt (h.permanent_lt t ht), lt_concat h.oneshot_lt,
        h.permanent_nodup, nodup_concat h.oneshot_lt h.oneshot_nodup⟩
  | clear => exact ⟨h.permanent_lt, by simp, h.permanent_nodup, by simp⟩
  | runOnce | run | return_ | throw_ | permanent | oneshots | dangling | call | forever =>
      exact ⟨h.permanent_lt, h.oneshot_lt, h.permanent_nodup, h.oneshot_nodup⟩

end Config.Fresh

/-! ### The two loops -/

/-- Since `c` the queues have only grown, by the tasks that were added. -/
structure Grown (c : Config) (ls : List Label) (d : Config) : Prop where
  run : run step c ls = some d
  permanentQueue : d.data.permanentQueue =
    c.data.permanentQueue ++ observed step addedPermanent? c ls
  oneshotQueue : d.data.oneshotQueue = c.data.oneshotQueue ++ observed step addedOneshot? c ls

namespace Grown

variable {c d d' : Config} {ls : List Label} {l : Label}

theorem refl (c : Config) : Grown c [] c := ⟨rfl, by simp [observed], by simp [observed]⟩

theorem trans {m : Config} {first second : List Label} (hfirst : Grown c first m)
    (hsecond : Grown m second d) : Grown c (first ++ second) d where
  run := by simpa [run_append, hfirst.run] using hsecond.run
  permanentQueue := by
    rw [hsecond.permanentQueue, hfirst.permanentQueue, observed_append _ _ hfirst.run,
      List.append_assoc]
  oneshotQueue := by
    rw [hsecond.oneshotQueue, hfirst.oneshotQueue, observed_append _ _ hfirst.run,
      List.append_assoc]

theorem concat (h : Grown c ls d) (hstep : step d l = some d')
    (hpermanent : d'.data.permanentQueue =
      d.data.permanentQueue ++ (addedPermanent? d l).toList)
    (honeshot : d'.data.oneshotQueue = d.data.oneshotQueue ++ (addedOneshot? d l).toList) :
    Grown c (ls ++ [l]) d' where
  run := run_concat step h.run hstep
  permanentQueue := by
    rw [hpermanent, h.permanentQueue, observed_concat _ _ h.run, List.append_assoc]
  oneshotQueue := by
    rw [honeshot, h.oneshotQueue, observed_concat _ _ h.run, List.append_assoc]

/-- Only the frames change. -/
theorem same (h : Grown c ls d) (hstep : step d l = some d') (hdata : d'.data = d.data)
    (hadd : l ≠ .add) (honeshot : l ≠ .oneshot) : Grown c (ls ++ [l]) d' := by
  apply h.concat hstep
  · simp [hdata, addedPermanent?, hadd]
  · simp [hdata, addedOneshot?, honeshot]

end Grown

/-- A loop that has come to the position `frame`, or a task that it has called. -/
def Config.At (c : Config) (frame : Frame) (base : List Frame) : Prop :=
  c.stack = frame :: base ∨ c.stack = .user :: frame :: base

theorem Config.At.not_returned {c : Config} {frame : Frame} {base : List Frame}
    (h : c.At frame base) : c.stack ≠ base := by
  intro hreturn
  rcases h with hstack | hstack
  · have hlength := congrArg List.length (hreturn.symm.trans hstack)
    simp at hlength
  · have hlength := congrArg List.length (hreturn.symm.trans hstack)
    simp only [List.length_cons] at hlength
    omega

/-- Where a call of `run_once` is that was entered at `c` above the frames `base`. -/
inductive Progress (base : List Frame) (c : Config) : List Label → Config → Prop where
  | permanents {ls d} (next : ℕ) (grown : Grown c ls d) (top : d.At (.permanents next) base)
      (le : next ≤ d.data.permanentQueue.length)
      (executed : observed step executed? c ls =
        (d.data.permanentQueue.take next).map .permanent) : Progress base c ls d
  | oneshots {first m second d} (next : ℕ) (firstLoop : Grown c first m)
      (ended : m.stack = .oneshots m.epoch 0 :: base) (grown : Grown m second d)
      (top : d.At (.oneshots d.epoch next) base) (le : next ≤ d.data.oneshotQueue.length)
      (executed : observed step executed? c (first ++ second) =
        m.data.permanentQueue.map .permanent ++ (d.data.oneshotQueue.take next).map .oneshot) :
      Progress base c (first ++ second) d
  | returned {first m second d} (firstLoop : Grown c first m)
      (ended : m.stack = .oneshots m.epoch 0 :: base) (round : Round c first m second d)
      (stack : d.stack = base) : Progress base c (first ++ second) d

/-- What a step of a task changes. -/
structure TaskStep (frame : Frame) (base : List Frame) (d : Config) (l : Label) (d' : Config) :
    Prop where
  top : d'.At frame base
  epoch : d'.epoch = d.epoch
  permanentQueue : d'.data.permanentQueue =
    d.data.permanentQueue ++ (addedPermanent? d l).toList
  oneshotQueue : d'.data.oneshotQueue = d.data.oneshotQueue ++ (addedOneshot? d l).toList
  executed : executed? d l = none

section

variable {base : List Frame} {frame : Frame} {c d d' : Config} {l : Label} {ls : List Label}

theorem TaskStep.of_step (hstack : d.stack = .user :: frame :: base) (hl : l.plain)
    (hstep : step d l = some d') : TaskStep frame base d l d' := by
  cases l with
  | add =>
      obtain rfl : d.add = d' := by simpa [step, hstack] using hstep
      exact ⟨.inr hstack, rfl, rfl, by simp [Config.add, addedOneshot?], rfl⟩
  | oneshot =>
      obtain rfl : d.oneshot = d' := by simpa [step, hstack] using hstep
      exact ⟨.inr hstack, rfl, by simp [Config.oneshot, addedPermanent?], rfl, rfl⟩
  | return_ =>
      obtain rfl : { d with stack := frame :: base } = d' := by simpa [step, hstack] using hstep
      exact ⟨.inl rfl, rfl, by simp [addedPermanent?], by simp [addedOneshot?], rfl⟩
  | runOnce | run | throw_ => simp [Label.plain] at hl
  | tau => simp [step, hstack] at hstep

/-- A loop of `run_once` has the control. -/
theorem tau_of_step (hstack : d.stack = frame :: base) (hframe : frame ≠ .user)
    (hstep : step d l = some d') : l = .tau := by
  cases stepped hstep with
  | add rest stack | oneshot rest stack | runOnce rest stack | run rest stack =>
      exact absurd (List.cons.inj (hstack.symm.trans stack)).1 hframe
  | return_ top rest stack | throw_ top rest stack =>
      exact absurd (List.cons.inj (hstack.symm.trans stack)).1 hframe
  | permanent | oneshots | dangling | call | clear | forever => rfl

theorem take_map_concat {queue added : List Task} {next : ℕ} {f : Task → Execution}
    (hle : next ≤ queue.length) : ((queue ++ added).take next).map f = (queue.take next).map f := by
  rw [List.take_append_of_le_length hle]

theorem take_map_next {queue : List Task} {next : ℕ} {t : Task} {f : Task → Execution}
    (hget : queue[next]? = some t) :
    (queue.take (next + 1)).map f = (queue.take next).map f ++ [f t] := by
  rw [List.take_add_one, hget]
  simp

/-- The first loop goes on. -/
theorem Progress.permanents_step {next : ℕ} (hgrown : Grown c ls d)
    (htop : d.At (.permanents next) base) (hle : next ≤ d.data.permanentQueue.length)
    (hexecuted : observed step executed? c ls =
      (d.data.permanentQueue.take next).map .permanent)
    (hl : l.plain) (hstep : step d l = some d') : Progress base c (ls ++ [l]) d' := by
  have hconcat := observed_concat step executed? hgrown.run l
  rcases htop with hstack | hstack
  · obtain rfl := tau_of_step hstack (by simp) hstep
    obtain rfl : d.callPermanent next base = d' := by simpa [step, hstack] using hstep
    by_cases hmore : next < d.data.permanentQueue.length
    · -- the task at the position is called
      have hget := List.getElem?_eq_getElem hmore
      have hsame : (d.callPermanent next base).data = d.data := by
        rw [Config.callPermanent, if_pos hmore]
      refine .permanents (next + 1) (hgrown.same hstep hsame (by simp) (by simp)) ?_ ?_ ?_
      · rw [Config.callPermanent, if_pos hmore]
        exact .inr rfl
      · rw [hsame]
        exact hmore
      · rw [hconcat, hexecuted, hsame, take_map_next hget]
        simp [executed?, hstack, hget]
    · have hend : next = d.data.permanentQueue.length :=
        Nat.le_antisymm hle (Nat.le_of_not_lt hmore)
      have hcall : d.callPermanent next base =
          { d with stack := .oneshots d.epoch 0 :: base } := by
        rw [Config.callPermanent, if_neg hmore]
      have hm := hgrown.same hstep (by rw [hcall]) (by simp) (by simp)
      rw [hcall] at hm ⊢
      rw [← List.append_nil (ls ++ [Label.tau])]
      refine .oneshots 0 hm rfl (Grown.refl _) (.inl rfl) (Nat.zero_le _) ?_
      rw [List.append_nil, hconcat, hexecuted, hend]
      simp [executed?, hstack, hend]
  · have htask := TaskStep.of_step hstack hl hstep
    have hgrown' := hgrown.concat hstep htask.permanentQueue htask.oneshotQueue
    refine .permanents next hgrown' htask.top ?_ ?_
    · rw [htask.permanentQueue, List.length_append]
      omega
    · rw [hconcat, hexecuted, htask.executed, htask.permanentQueue, take_map_concat hle]
      simp

/-- The second loop has come to the end of its queue. -/
theorem Round.of_clear {first second : List Label} {m : Config} (hfirst : Grown c first m)
    (hsecond : Grown m second d) (hfresh : d.Fresh)
    (hstack : d.stack = .oneshots d.epoch d.data.oneshotQueue.length :: base)
    (hexecuted : observed step executed? c (first ++ second) =
      m.data.permanentQueue.map .permanent ++ d.data.oneshotQueue.map .oneshot)
    (hpermanent : d'.data.permanentQueue = d.data.permanentQueue)
    (honeshot : d'.data.oneshotQueue = []) :
    Round c first m (second ++ [.tau]) d' := by
  have hboth := hfirst.trans hsecond
  have hsame : observed step executed? c (first ++ (second ++ [.tau])) =
      m.data.permanentQueue.map .permanent ++ d.data.oneshotQueue.map .oneshot := by
    rw [← List.append_assoc, observed_concat _ _ hboth.run, hexecuted]
    simp [executed?, hstack]
  have hadded : observed step addedPermanent? c (first ++ (second ++ [.tau])) =
      observed step addedPermanent? c (first ++ second) := by
    rw [← List.append_assoc, observed_concat _ _ hboth.run]
    simp [addedPermanent?]
  have hqueued : observed step addedOneshot? c (first ++ (second ++ [.tau])) =
      observed step addedOneshot? c (first ++ second) := by
    rw [← List.append_assoc, observed_concat _ _ hboth.run]
    simp [addedOneshot?]
  have hlater : observed step addedPermanent? m (second ++ [.tau]) =
      observed step addedPermanent? m second := by
    rw [observed_concat _ _ hsecond.run]
    simp [addedPermanent?]
  have hnodup := hfresh.permanent_nodup
  rw [hsecond.permanentQueue] at hnodup
  obtain ⟨hm, -, hdisjoint⟩ := List.nodup_append'.mp hnodup
  refine ⟨?_, ?_, honeshot, ?_, ?_⟩
  · rw [hsame, hqueued, ← hfirst.permanentQueue, ← hboth.oneshotQueue]
  · rw [hsame]
    refine List.nodup_append'.mpr ⟨hm.map fun _ _ h => Execution.permanent.inj h,
      hfresh.oneshot_nodup.map fun _ _ h => Execution.oneshot.inj h, ?_⟩
    intro execution hpermanent honeshot
    obtain ⟨t, -, rfl⟩ := List.mem_map.mp hpermanent
    obtain ⟨t', -, heq⟩ := List.mem_map.mp honeshot
    cases heq
  · rw [hpermanent, hadded, hboth.permanentQueue]
  · rw [hlater, hsame, hpermanent, hsecond.permanentQueue]
    intro t ht
    refine ⟨List.mem_append_right _ ht, fun hexecuted => hdisjoint ?_ ht⟩
    rcases List.mem_append.mp hexecuted with hmem | hmem
    · obtain ⟨t', ht', heq⟩ := List.mem_map.mp hmem
      exact Execution.permanent.inj heq ▸ ht'
    · obtain ⟨t', -, heq⟩ := List.mem_map.mp hmem
      cases heq

/-- The second loop goes on. -/
theorem Progress.oneshots_step {first second : List Label} {m : Config} {next : ℕ}
    (hfirst : Grown c first m) (hended : m.stack = .oneshots m.epoch 0 :: base)
    (hgrown : Grown m second d) (htop : d.At (.oneshots d.epoch next) base)
    (hle : next ≤ d.data.oneshotQueue.length)
    (hexecuted : observed step executed? c (first ++ second) =
      m.data.permanentQueue.map .permanent ++ (d.data.oneshotQueue.take next).map .oneshot)
    (hfresh : d.Fresh) (hl : l.plain) (hstep : step d l = some d') :
    Progress base c (first ++ second ++ [l]) d' := by
  have hconcat := observed_concat step executed? (hfirst.trans hgrown).run l
  rw [List.append_assoc] at hconcat ⊢
  rcases htop with hstack | hstack
  · obtain rfl := tau_of_step hstack (by simp) hstep
    obtain rfl : d.callOneshot d.epoch next base = d' := by simpa [step, hstack] using hstep
    cases hget : d.data.oneshotQueue[next]? with
    | some t =>
        have hcall : d.callOneshot d.epoch next base =
            { d with
              log := d.log ++ [.executed t]
              stack := .user :: .oneshots d.epoch (next + 1) :: base } := by
          simp [Config.callOneshot, hget]
        have hm := hgrown.same hstep (by rw [hcall]) (by simp) (by simp)
        rw [hcall] at hm ⊢
        obtain ⟨hlt, -⟩ := List.getElem?_eq_some_iff.mp hget
        refine .oneshots (next + 1) hfirst hended hm (.inr rfl) hlt ?_
        rw [hconcat, hexecuted, take_map_next hget]
        simp [executed?, hstack, hget]
    | none =>
        have hend : next = d.data.oneshotQueue.length :=
          Nat.le_antisymm hle (List.getElem?_eq_none_iff.mp hget)
        have hcall : d.callOneshot d.epoch next base =
            { d with
              data := { d.data with oneshotQueue := [] }
              epoch := d.epoch + 1
              log := d.log ++ [.cleared]
              stack := base } := by
          simp [Config.callOneshot, hget]
        rw [hend, List.take_length] at hexecuted
        rw [hend] at hstack
        refine .returned hfirst hended
          (Round.of_clear hfirst hgrown hfresh hstack hexecuted ?_ ?_) ?_ <;> rw [hcall]
  · have htask := TaskStep.of_step hstack hl hstep
    have hgrown' := hgrown.concat hstep htask.permanentQueue htask.oneshotQueue
    refine .oneshots next hfirst hended hgrown' ?_ ?_ ?_
    · rw [htask.epoch]
      exact htask.top
    · rw [htask.oneshotQueue, List.length_append]
      omega
    · rw [hconcat, hexecuted, htask.executed, htask.oneshotQueue, take_map_concat hle]
      simp

theorem Progress.step (h : Progress base c ls d) (hfresh : d.Fresh) (hl : InCall base d l)
    (hstep : step d l = some d') : Progress base c (ls ++ [l]) d' := by
  cases h with
  | permanents next grown top le executed =>
      exact Progress.permanents_step grown top le executed hl.2 hstep
  | oneshots next firstLoop ended grown top le executed =>
      exact Progress.oneshots_step firstLoop ended grown top le executed hfresh hl.2 hstep
  | returned firstLoop ended round stack => exact absurd stack hl.1

end

/-- A call of `run_once` that returns has executed all permanent tasks, with those that its first
loop has added, then all oneshot tasks, each once and in the order of their additions. -/
theorem run_once_executes_everything {before ls : List Label} {c e c' : Config}
    (hbefore : run step {} before = some c) (hcall : step c .runOnce = some e)
    (hrun : run step e ls = some c') (hin : EachStep step (InCall c.stack) e ls)
    (hreturn : c'.stack = c.stack) :
    ∃ first m second, ls = first ++ second ∧ run step e first = some m ∧
      m.stack = .oneshots m.epoch 0 :: c.stack ∧ Round e first m second c' := by
  have hfresh : e.Fresh := by
    have hc : c.Fresh := run_invariant_of_step (I := Config.Fresh)
      (fun _ _ _ h hl => h.step (stepped hl)) .initial hbefore
    exact hc.step (stepped hcall)
  have henter : e.At (.permanents 0) c.stack := by
    cases stepped hcall with
    | runOnce rest stack => exact .inl rfl
  have hprogress : Progress c.stack e ls c' := by
    refine (reached_of_eachStep (I := fun ls d => Progress c.stack e ls d ∧ d.Fresh) ?_ ?_ hin
      hrun).1
    · exact ⟨.permanents 0 (.refl e) henter (Nat.zero_le _) rfl, hfresh⟩
    · rintro ls d l d' - ⟨hd, hfreshd⟩ hl hstep
      exact ⟨hd.step hfreshd hl hstep, hfreshd.step (stepped hstep)⟩
  cases hprogress with
  | permanents next grown top => exact absurd hreturn top.not_returned
  | oneshots next firstLoop ended grown top => exact absurd hreturn top.not_returned
  | @returned first m second _ firstLoop ended round stack =>
      exact ⟨first, m, second, rfl, firstLoop.run, ended, round⟩

/-- Two tasks wait. The permanent one adds a permanent and a oneshot task, and the first oneshot
task a permanent one. -/
def growingRound : List Label :=
  [.tau, .add, .oneshot, .return_, .tau, .return_, .tau, .tau, .add, .return_, .tau, .return_, .tau]

theorem run_once_executes_everything_sample : ∃ e c' : Config,
    run step {} [.add, .oneshot, .runOnce] = some e ∧ run step e growingRound = some c' ∧
      c'.data = { permanentQueue := [0, 2, 4] } ∧
      observed step executed? e growingRound =
        [.permanent 0, .permanent 2, .oneshot 1, .oneshot 3] ∧
      ∃ first m second, growingRound = first ++ second ∧ Round e first m second c' := by
  obtain ⟨c, e, c', hbefore, hcall, hrun, hin, hreturn, hdata, hexecuted⟩ :
      ∃ c e c' : Config, run step {} [.add, .oneshot] = some c ∧ step c .runOnce = some e ∧
        run step e growingRound = some c' ∧ EachStep step (InCall c.stack) e growingRound ∧
        c'.stack = c.stack ∧ c'.data = { permanentQueue := [0, 2, 4] } ∧
        observed step executed? e growingRound =
          [.permanent 0, .permanent 2, .oneshot 1, .oneshot 3] :=
    ⟨_, _, _, rfl, rfl, rfl, by decide +kernel, rfl, rfl, rfl⟩
  obtain ⟨first, m, second, hls, -, -, hround⟩ :=
    run_once_executes_everything hbefore hcall hrun hin hreturn
  refine ⟨e, c', ?_, hrun, hdata, hexecuted, first, m, second, hls, hround⟩
  exact run_concat step hbefore hcall

end Libasync.TaskLoop
