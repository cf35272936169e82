import Libasync.Promise.Steps

/-! # References and settled cells

No wrapper, running handler or recorded call refers to a promise that does not exist, and a
settled promise keeps its status. -/

namespace Libasync.Promise

variable {V E F : Type*}

/-- The derived promise of the registration that a handler call serves. -/
def Event.callOf? : Event V E F → Option Ref
  | .called _ _ outer _ _ => some outer
  | _ => none

theorem callOf?_eq_some {e : Event V E F} {outer : Ref} (h : e.callOf? = some outer) :
    ∃ turn p f arg, e = .called turn p outer f arg := by
  cases e with
  | called turn p outer' f arg =>
      obtain rfl := Option.some.inj h
      exact ⟨turn, p, f, arg, rfl⟩
  | enqueued p => cases h
  | registered side p outer' f => cases h

/-- The references held by the heap and by the record are to existing cells. -/
structure State.Scoped (s : State V E F) : Prop where
  targets : ∀ p data side, s.get? p = some data → ∀ w ∈ data.wrappers side,
    w.target < s.heap.length
  calls : ∀ e ∈ s.log, ∀ outer, e.callOf? = some outer → outer < s.heap.length

theorem Change.log_eq {T : Ref → Prop} {s t : State V E F} (h : Change T s t) :
    ∃ rest, t.log = s.log ++ rest ∧ ∀ e ∈ rest, e.callOf? = none := by
  cases h with
  | alloc => exact ⟨[], by simp, by simp⟩
  | settle p => exact ⟨[.enqueued p], by simp, by simp [Event.callOf?]⟩
  | request p => exact ⟨[.enqueued p], by simp, by simp [Event.callOf?]⟩
  | adopt => exact ⟨[], by simp, by simp⟩
  | register side p f =>
      exact ⟨[.registered side p s.heap.length f], by simp [State.create], by simp [Event.callOf?]⟩

namespace State.Scoped

variable {s t : State V E F}

theorem change {T : Ref → Prop} (hs : s.Scoped) (h : Change T s t) : t.Scoped := by
  refine ⟨?_, ?_⟩
  · intro p data side hget w hw
    cases hold : s.get? p with
    | none => simp [(h.new_cell hold hget).2 side] at hw
    | some cell =>
        obtain ⟨data', hget', hcell⟩ := h.cell hold
        obtain rfl : data = data' := Option.some.inj (hget.symm.trans hget')
        obtain ⟨pushed, heq, hpushed⟩ := hcell.wrappers side
        rw [heq, List.mem_append] at hw
        rcases hw with hw | hw
        · exact Nat.lt_of_lt_of_le (hs.targets p cell side hold w hw) h.length_le
        · exact (hpushed w hw).2
  · intro e he outer houter
    obtain ⟨rest, hlog, hrest⟩ := h.log_eq
    rw [hlog, List.mem_append] at he
    rcases he with he | he
    · exact Nat.lt_of_lt_of_le (hs.calls e he outer houter) h.length_le
    · simp [hrest e he] at houter

theorem changes {T : Ref → Prop} (hs : s.Scoped) (h : Changes T s t) : t.Scoped :=
  h.induct (fun _ _ => change) hs

theorem finishCallBack (hs : s.Scoped) (p : Ref) : (s.finishCallBack p).Scoped := by
  refine ⟨?_, by simpa [State.finishCallBack] using hs.calls⟩
  intro q data side hget w hw
  have hlen : (s.finishCallBack p).heap.length = s.heap.length := by simp [State.finishCallBack]
  rw [hlen]
  by_cases hq : q = p
  · simp only [State.finishCallBack, State.get?_update, hq, if_true,
      Option.map_eq_some_iff] at hget
    obtain ⟨cell, _, rfl⟩ := hget
    cases side <;> simp [PromiseData.wrappers] at hw
  · exact hs.targets q data side (by simpa [State.finishCallBack, hq] using hget) w hw

end State.Scoped

/-- Every reference is to a cell of the heap. -/
structure Scoped (c : Config V E F) : Prop where
  state : c.state.Scoped
  outer : ∀ i p j outer f, c.control = .handler i p j outer f → outer < c.state.heap.length

/-- The status of a promise, if it exists. -/
def State.status? (s : State V E F) (p : Ref) : Option (PromiseStatus V E) :=
  (s.get? p).map PromiseData.status

theorem lt_of_status? {s : State V E F} {p : Ref} {status : PromiseStatus V E}
    (h : s.status? p = some status) : p < s.heap.length := by
  obtain ⟨data, hget, -⟩ := Option.map_eq_some_iff.mp h
  exact State.lt_of_get? hget

theorem Scoped.initial : Scoped (Config.initial : Config V E F) := by
  refine ⟨⟨?_, ?_⟩, ?_⟩ <;> simp [Config.initial, State.get?]

theorem State.Scoped.due_target {s : State V E F} {p : Ref} {j : ℕ} {data : PromiseData V E F}
    {w : Wrapper F} (hs : s.Scoped) (hget : s.get? p = some data)
    (hdue : data.due[j]? = some w) : w.target < s.heap.length := by
  cases hside : data.status.side? with
  | none => simp [PromiseData.due, hside] at hdue
  | some side =>
      rw [PromiseData.due_of_side hside] at hdue
      exact hs.targets p data side hget w (List.mem_of_getElem? hdue)

variable [Blank V] [FnTrait F E]

theorem Scoped.step {c c' : Config V E F} {l : Label V E F} (hc : Scoped c)
    (h : Step c l c') : Scoped c' := by
  obtain ⟨hs, houter⟩ := hc
  cases h with
  | op s control o user known =>
      have hchange := s.perform_changes o
      exact ⟨hs.changes hchange, fun i p j outer f hcontrol =>
        Nat.lt_of_lt_of_le (houter i p j outer f hcontrol) hchange.length_le⟩
  | start s => exact ⟨hs, nofun⟩
  | next s i p entry => exact ⟨hs, nofun⟩
  | clear s i entry => exact ⟨⟨hs.targets, hs.calls⟩, nofun⟩
  | adopted s i p j data outer get due =>
      exact ⟨hs.changes (s.adoptStatus_changes (T := (· = outer)) outer data.status rfl), nofun⟩
  | called s i p j data outer f arg get due arg_eq =>
      have hlt : outer < s.heap.length := hs.due_target get due
      refine ⟨⟨hs.targets, ?_⟩, ?_⟩
      · intro e he outer' houter'
        rcases List.mem_append.mp he with he | he
        · exact hs.calls e he outer' houter'
        · rw [List.mem_singleton.mp he] at houter'
          obtain rfl := Option.some.inj houter'
          exact hlt
      · intro i' p' j' outer' f' hcontrol
        obtain ⟨-, -, -, rfl, -⟩ := Control.handler.inj hcontrol
        exact hlt
  | mismatch s i p j data outer f e get due arg_eq => exact ⟨hs, nofun⟩
  | finished s i p j data get due => exact ⟨hs.finishCallBack p, nofun⟩
  | returned s i p j outer f result known =>
      exact ⟨hs.changes (s.finishHandler_changes f result (houter i p j outer f rfl)), nofun⟩
  | resume s exit => exact ⟨hs, nofun⟩

/-! ### Settled promises -/

omit [Blank V] [FnTrait F E] in
theorem Change.status_eq {T : Ref → Prop} {s t : State V E F} (h : Change T s t) {p : Ref}
    {status : PromiseStatus V E} (hget : s.status? p = some status)
    (hp : status ≠ .pending ∨ ¬ T p) : t.status? p = some status := by
  obtain ⟨data, hdata, rfl⟩ := Option.map_eq_some_iff.mp hget
  obtain ⟨data', hget', hcell⟩ := h.cell hdata
  refine Option.map_eq_some_iff.mpr ⟨data', hget', ?_⟩
  rcases hcell.status with hs | ⟨hT, hpending⟩
  · exact hs
  · exact (hp.elim (absurd hpending) (absurd hT))

omit [Blank V] [FnTrait F E] in
/-- A promise that is settled, or is no target of the changes, keeps its status. -/
theorem Changes.status_eq {T : Ref → Prop} {s t : State V E F} (h : Changes T s t) {p : Ref}
    {status : PromiseStatus V E} (hget : s.status? p = some status)
    (hp : status ≠ .pending ∨ ¬ T p) : t.status? p = some status :=
  h.induct (I := fun u => u.status? p = some status) (fun _ _ hu hc => hc.status_eq hu hp) hget

omit [Blank V] [FnTrait F E] in
theorem State.finishCallBack_status? (s : State V E F) (p q : Ref) :
    (s.finishCallBack p).status? q = s.status? q := by
  by_cases hq : q = p
  · simp [State.status?, State.finishCallBack, hq, Function.comp_def]
  · simp [State.status?, State.finishCallBack, hq]

/-- A settled promise keeps its status, whatever happens later. -/
theorem Step.settled_status {c c' : Config V E F} {l : Label V E F} (hc : Scoped c)
    (h : Step c l c') {p : Ref} {status : PromiseStatus V E}
    (hget : c.state.status? p = some status) (hp : status ≠ .pending) :
    c'.state.status? p = some status := by
  cases h with
  | op s control o user known => exact (s.perform_changes o).status_eq hget (.inl hp)
  | start s => exact hget
  | next s i q entry => exact hget
  | clear s i entry => exact hget
  | adopted s i q j data outer get due =>
      exact (s.adoptStatus_changes (T := (· = outer)) outer data.status rfl).status_eq hget
        (.inl hp)
  | called s i q j data outer f arg get due arg_eq => exact hget
  | mismatch s i q j data outer f e get due arg_eq => exact hget
  | finished s i q j data get due => rwa [State.finishCallBack_status?]
  | returned s i q j outer f result known =>
      exact (s.finishHandler_changes f result (hc.outer i q j outer f rfl)).status_eq hget
        (.inl hp)
  | resume s exit => exact hget

end Libasync.Promise
