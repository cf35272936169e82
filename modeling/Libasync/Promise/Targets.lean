import Libasync.Promise.Queue

/-! # What can settle a promise

A pending promise is settled through its context, by a wrapper that targets it, or at the end of
the handler whose derived promise it is. A step that is none of these keeps it as it is. -/

namespace Libasync.Promise

variable {V E F : Type*}

/-- The promise is settled, and its handlers on this list are due. -/
def State.SettledOn (s : State V E F) (side : Side) (p : Ref) : Prop :=
  ∃ status, s.status? p = some status ∧ status.side? = some side

/-- Every wrapper that targets `q` is in one of the places `R`. -/
def State.TargetedOnly (s : State V E F) (q : Ref) (R : Ref → Side → Wrapper F → Prop) : Prop :=
  ∀ p data side w, s.get? p = some data → w ∈ data.wrappers side → w.target = q → R p side w

/-- The derived promise of the running handler. -/
def Control.outer? {E : Type*} : Control F E → Option Ref
  | .handler _ _ _ outer _ => some outer
  | _ => none

/-- The promise whose context is used by this step. -/
def Label.context? : Label V E F → Option Ref
  | .op o => o.context?
  | _ => none

/-! ### Wrappers -/

namespace State.TargetedOnly

variable {s t : State V E F} {q : Ref} {R : Ref → Side → Wrapper F → Prop}

theorem change {T : Ref → Prop} (h : s.TargetedOnly q R) (hc : Change T s t) (hT : ¬ T q)
    (hq : q < s.heap.length) : t.TargetedOnly q R := by
  intro p data side w hget hw htarget
  cases hold : s.get? p with
  | none => simp [(hc.new_cell hold hget).2 side] at hw
  | some cell =>
      obtain ⟨data', hget', hcell⟩ := hc.cell hold
      obtain rfl : data = data' := Option.some.inj (hget.symm.trans hget')
      obtain ⟨pushed, heq, hpushed⟩ := hcell.wrappers side
      rw [heq, List.mem_append] at hw
      rcases hw with hw | hw
      · exact h p cell side w hold hw htarget
      · rcases (hpushed w hw).1 with ⟨outer, rfl, houter⟩ | ⟨f, rfl⟩
        · exact absurd (htarget ▸ houter) hT
        · exact absurd htarget.symm (Nat.ne_of_lt hq)

theorem changes {T : Ref → Prop} (h : s.TargetedOnly q R) (hc : Changes T s t) (hT : ¬ T q)
    (hq : q < s.heap.length) : t.TargetedOnly q R :=
  (hc.induct (I := fun u => u.TargetedOnly q R ∧ q < u.heap.length)
    (fun _ _ ⟨hu, hlt⟩ hc => ⟨hu.change hc hT hlt, Nat.lt_of_lt_of_le hlt hc.length_le⟩)
    ⟨h, hq⟩).1

theorem finishCallBack (h : s.TargetedOnly q R) (p : Ref) :
    (s.finishCallBack p).TargetedOnly q R := by
  intro x data side w hget hw htarget
  by_cases hx : x = p
  · simp only [State.finishCallBack, State.get?_update, hx, if_true,
      Option.map_eq_some_iff] at hget
    obtain ⟨cell, _, rfl⟩ := hget
    cases side <;> simp [PromiseData.wrappers] at hw
  · exact h x data side w (by simpa [State.finishCallBack, hx] using hget) hw htarget

/-- A wrapper that is due is on the list of the side its promise settled. -/
theorem due {p : Ref} {data : PromiseData V E F} {j : ℕ} {w : Wrapper F}
    (h : s.TargetedOnly q R) (hget : s.get? p = some data) (hdue : data.due[j]? = some w)
    (htarget : w.target = q) : ∃ side, data.status.side? = some side ∧ R p side w := by
  cases hside : data.status.side? with
  | none => simp [PromiseData.due, hside] at hdue
  | some side =>
      rw [PromiseData.due_of_side hside] at hdue
      exact ⟨side, rfl, h p data side w hget (List.mem_of_getElem? hdue) htarget⟩

theorem mono {R' : Ref → Side → Wrapper F → Prop} (h : s.TargetedOnly q R)
    (hR : ∀ x side w, R x side w → R' x side w) : s.TargetedOnly q R' :=
  fun x data side w hget hw htarget => hR x side w (h x data side w hget hw htarget)

theorem register (h : s.TargetedOnly q R) (side : Side) (p outer : Ref) (f : F) :
    (s.register side p outer f).TargetedOnly q fun x side' w =>
      R x side' w ∨ x = p ∧ side' = side ∧ w = .handler outer f := by
  intro x data side' w hget hw htarget
  rw [State.get?_register] at hget
  split at hget
  · rename_i hx
    obtain ⟨old, hold, rfl⟩ := Option.map_eq_some_iff.mp hget
    rw [PromiseData.wrappers_pushWrapper, List.mem_append] at hw
    rcases hw with hw | hw
    · exact .inl (h x old side' w hold hw htarget)
    · split at hw
      · exact .inr ⟨hx, by assumption, List.mem_singleton.mp hw⟩
      · simp at hw
  · exact .inl (h x data side' w hget hw htarget)

end State.TargetedOnly

/-- No wrapper targets a promise that does not exist yet. -/
theorem State.Scoped.not_targeted {s : State V E F} (hs : s.Scoped) {q : Ref}
    (hq : s.heap.length ≤ q) : s.TargetedOnly q fun _ _ _ => False := by
  intro p data side w hget hw htarget
  exact Nat.not_lt.mpr hq (htarget ▸ hs.targets p data side hget w hw)

theorem State.Scoped.alloc_not_targeted {s : State V E F} (hs : s.Scoped)
    (status : PromiseStatus V E) {q : Ref} (hq : s.heap.length ≤ q) :
    (s.alloc { status }).1.TargetedOnly q fun _ _ _ => False := by
  intro x data side w hget hw htarget
  by_cases hx : x = s.heap.length
  · simp only [State.get?_alloc, hx, if_true, Option.some.injEq] at hget
    subst hget
    cases side <;> simp [PromiseData.wrappers] at hw
  · exact hs.not_targeted hq x data side w (by simpa [hx] using hget) hw htarget

/-! ### Derived promises -/

namespace State

theorem attach_ref (s : State V E F) (side' : Side) (p : Ref) (g : F) :
    s.heap.length ≤ (s.attach side' p g).2 ∧
      (s.attach side' p g).2 < (s.attach side' p g).1.heap.length := by
  unfold attach
  cases hget : s.get? p with
  | none => simp [create]
  | some data =>
      simp only
      cases hside : data.status.side? with
      | none => simp [create]
      | some settled =>
          by_cases hs : settled = side'
          · cases hflag : data.pendingCallback <;> simp [hs, create]
          · simp [hs, create]

/-- `then` and `_catch` return a pending promise. -/
theorem attach_pending (s : State V E F) (side : Side) (p : Ref) (f : F) :
    (s.attach side p f).1.status? (s.attach side p f).2 = some .pending := by
  unfold attach
  cases hget : s.get? p with
  | none => simp [status?, create]
  | some data =>
      have hp : s.heap.length ≠ p := Nat.ne_of_gt (lt_of_get? hget)
      simp only
      cases hside : data.status.side? with
      | none => simp [status?, create, hp]
      | some settled =>
          by_cases hs : settled = side
          · cases hflag : data.pendingCallback <;> simp [hs, status?, create, hp]
          · simp [hs, status?, create]

/-- Only the wrapper of its handler targets a derived promise. -/
theorem Scoped.attach_targeted {s : State V E F} (hs : s.Scoped) (side : Side) (p : Ref) (f : F) :
    (s.attach side p f).1.TargetedOnly (s.attach side p f).2 fun x side' w =>
      x = p ∧ side' = side ∧ w = .handler (s.attach side p f).2 f := by
  have hcreate := hs.alloc_not_targeted (.pending : PromiseStatus V E) (Nat.le_refl _)
  unfold attach
  cases hget : s.get? p with
  | none => exact hcreate.mono fun _ _ _ => False.elim
  | some data =>
      simp only
      cases hside : data.status.side? with
      | none =>
          exact (hcreate.register side p _ f).mono fun _ _ _ h => h.resolve_left not_false
      | some settled =>
          by_cases hs' : settled = side
          · simp only [hs', if_true]
            cases hflag : data.pendingCallback with
            | true =>
                exact (hcreate.register side p _ f).mono fun _ _ _ h => h.resolve_left not_false
            | false =>
                have hne : p ≠ s.heap.length := Nat.ne_of_lt (lt_of_get? hget)
                have hrequest : Change (fun _ => False) s.create.1 (s.create.1.requestCallBack p) :=
                  .request _ p data (by simp [create, hget, hne]) (by
                    intro hp
                    simp [hp, PromiseStatus.side?] at hside)
                have hrequested := hcreate.change hrequest not_false (by simp)
                exact (hrequested.register side p _ f).mono fun _ _ _ h => h.resolve_left not_false
          · simp only [hs', if_false]
            have hscoped : s.create.1.Scoped :=
              hs.change (.alloc (T := fun _ => False) s .pending)
            exact (hscoped.alloc_not_targeted .pending (Nat.le_refl _)).mono
              fun _ _ _ => False.elim

end State

/-! ### Records -/

theorem Change.call_mem {T : Ref → Prop} {s t : State V E F} (h : Change T s t)
    {e : Event V E F} {outer : Ref} (he : e ∈ t.log) (houter : e.callOf? = some outer) :
    e ∈ s.log := by
  obtain ⟨rest, hlog, hrest⟩ := h.log_eq
  rw [hlog, List.mem_append] at he
  refine he.resolve_right ?_
  intro hmem
  simp [hrest e hmem] at houter

theorem Changes.call_mem {T : Ref → Prop} {s t : State V E F} (h : Changes T s t)
    {e : Event V E F} {outer : Ref} (houter : e.callOf? = some outer) (he : e ∈ t.log) :
    e ∈ s.log :=
  h.induct (I := fun u => e ∈ u.log → e ∈ s.log)
    (fun _ _ ih hc hmem => ih (hc.call_mem hmem houter)) id he

theorem Changes.log_grows {T : Ref → Prop} {s t : State V E F} (h : Changes T s t) :
    s.log <+: t.log := by
  refine h.induct (I := fun u => s.log <+: u.log) ?_ List.prefix_rfl
  intro u v hu hc
  obtain ⟨rest, hlog, -⟩ := hc.log_eq
  exact hu.trans ⟨rest, hlog.symm⟩

/-! ### Steps -/

/-- The step has left `q` pending or settled as it was, has made no wrapper target it, and has
not called its handler. -/
structure Kept (q : Ref) (R : Ref → Side → Wrapper F → Prop) (c c' : Config V E F) : Prop where
  status : c'.state.status? q = c.state.status? q
  targets : c'.state.TargetedOnly q R
  outer : c'.control.outer? ≠ some q
  calls : ∀ e ∈ c'.state.log, e.callOf? = some q → e ∈ c.state.log

/-- The next step invokes a wrapper that targets `q`. -/
structure Invokes (q : Ref) (R : Ref → Side → Wrapper F → Prop) (c : Config V E F) (i : ℕ)
    (p : Ref) (j : ℕ) (data : PromiseData V E F) (side : Side) (w : Wrapper F) : Prop where
  control : c.control = .callBack i p j
  get : c.state.get? p = some data
  due : data.due[j]? = some w
  settled : data.status.side? = some side
  target : w.target = q
  place : R p side w

theorem Invokes.settledOn {q : Ref} {R : Ref → Side → Wrapper F → Prop} {c : Config V E F}
    {i j : ℕ} {p : Ref} {data : PromiseData V E F} {side : Side} {w : Wrapper F}
    (h : Invokes q R c i p j data side w) : c.state.SettledOn side p :=
  ⟨data.status, by simp [State.status?, h.get], h.settled⟩

/-- `q` is pending, and only the wrappers in the places `R` can settle it. -/
structure Unsettled (q : Ref) (R : Ref → Side → Wrapper F → Prop) (c : Config V E F) : Prop where
  known : q < c.state.heap.length
  targets : c.state.TargetedOnly q R
  outer : c.control.outer? ≠ some q
  pending : c.state.status? q = some .pending

theorem Changes.kept {T : Ref → Prop} {s t : State V E F} {q : Ref}
    {R : Ref → Side → Wrapper F → Prop} {control control' : Control F E} (hc : Changes T s t)
    (hT : ¬ T q) (hq : q < s.heap.length) (ht : s.TargetedOnly q R)
    (houter : control'.outer? ≠ some q) : Kept q R ⟨s, control⟩ ⟨t, control'⟩ := by
  obtain ⟨data, hdata⟩ : ∃ data, s.get? q = some data := ⟨_, List.getElem?_eq_getElem hq⟩
  have hstatus : s.status? q = some data.status := by simp [State.status?, hdata]
  exact ⟨(hc.status_eq hstatus (.inr hT)).trans hstatus.symm, ht.changes hc hT hq, houter,
    fun e he hcall => hc.call_mem hcall he⟩

variable [Blank V] [FnTrait F E]

theorem Step.log_grows {c c' : Config V E F} {l : Label V E F} (hc : Scoped c)
    (h : Step c l c') : c.state.log <+: c'.state.log := by
  cases h with
  | op s control o user known => exact (s.perform_changes o).log_grows
  | start s => exact List.prefix_rfl
  | next s i p entry => exact List.prefix_rfl
  | clear s i entry => exact List.prefix_rfl
  | adopted s i p j data outer get due =>
      exact (s.adoptStatus_changes (T := (· = outer)) outer data.status rfl).log_grows
  | called s i p j data outer f arg get due arg_eq => exact List.prefix_append _ _
  | mismatch s i p j data outer f e get due arg_eq => exact List.prefix_rfl
  | finished s i p j data get due => exact List.prefix_rfl
  | returned s i p j outer f result known =>
      exact (s.finishHandler_changes f result (hc.outer i p j outer f rfl)).log_grows
  | resume s exit => exact List.prefix_rfl

/-- A step that does not go through the context of `q`, while no handler serves `q`, keeps `q`
unless it invokes a wrapper that targets it. -/
theorem Step.kept_or_invokes {c c' : Config V E F} {l : Label V E F} {q : Ref}
    {R : Ref → Side → Wrapper F → Prop} (h : Step c l c') (hc : Scoped c)
    (hu : Unsettled q R c) (hl : l.context? ≠ some q) :
    Kept q R c c' ∨ ∃ i p j data side w, Invokes q R c i p j data side w := by
  obtain ⟨hq, ht, houter, -⟩ := hu
  cases h with
  | op s control o user known =>
      refine .inl ((s.perform_changes o).kept ?_ hq ht houter)
      rintro (hctx | hnew)
      · exact hl hctx
      · exact Nat.not_lt.mpr hnew hq
  | start s => exact .inl ⟨rfl, ht, nofun, fun _ he _ => he⟩
  | next s i p entry => exact .inl ⟨rfl, ht, nofun, fun _ he _ => he⟩
  | clear s i entry => exact .inl ⟨rfl, ht, nofun, fun _ he _ => he⟩
  | adopted s i p j data outer get due =>
      by_cases hw : outer = q
      · obtain ⟨side, hside, hplace⟩ := ht.due get due hw
        exact .inr ⟨i, p, j, data, side, _, rfl, get, due, hside, hw, hplace⟩
      · have hchange := s.adoptStatus_changes (T := (· = outer)) outer data.status rfl
        exact .inl (hchange.kept (Ne.symm hw) hq ht nofun)
  | called s i p j data outer f arg get due arg_eq =>
      by_cases hw : outer = q
      · obtain ⟨side, hside, hplace⟩ := ht.due get due hw
        exact .inr ⟨i, p, j, data, side, _, rfl, get, due, hside, hw, hplace⟩
      · refine .inl ⟨rfl, ht, by simpa [Control.outer?] using hw, ?_⟩
        intro e he hcall
        refine (List.mem_append.mp he).resolve_right ?_
        intro hmem
        rw [List.mem_singleton.mp hmem] at hcall
        exact hw (Option.some.inj hcall)
  | mismatch s i p j data outer f e get due arg_eq =>
      exact .inl ⟨rfl, ht, nofun, fun _ he _ => he⟩
  | finished s i p j data get due =>
      exact .inl ⟨s.finishCallBack_status? p q, ht.finishCallBack p, nofun, fun _ he _ => he⟩
  | returned s i p j outer f result known =>
      have hne : q ≠ outer := by
        rintro rfl
        exact houter rfl
      have hchange := s.finishHandler_changes f result (hc.outer i p j outer f rfl)
      refine .inl (hchange.kept ?_ hq ht nofun)
      rintro (hq' | hnew)
      · exact hne hq'
      · exact Nat.not_lt.mpr hnew hq
  | resume s exit => exact .inl ⟨rfl, ht, nofun, fun _ he _ => he⟩

omit [Blank V] [FnTrait F E] in
/-- A promise that did not exist in `s` is pending in `t`, and the only wrappers that target it
are the ones pushed meanwhile. -/
theorem unsettled_of_created {s t : State V E F} {control : Control F E} {q : Ref}
    {R : Ref → Side → Wrapper F → Prop} (hc : Scoped ⟨s, control⟩) (hnew : s.heap.length ≤ q)
    (hpending : t.status? q = some .pending) (ht : t.TargetedOnly q R) :
    Unsettled q R (⟨t, control⟩ : Config V E F) := by
  obtain ⟨data, hdata, -⟩ := Option.map_eq_some_iff.mp hpending
  refine ⟨State.lt_of_get? hdata, ht, ?_, hpending⟩
  intro houter
  cases control with
  | handler i x j outer f =>
      obtain rfl := Option.some.inj houter
      exact Nat.not_lt.mpr hnew (hc.outer i x j outer f rfl)
  | idle => cases houter
  | turn i => cases houter
  | callBack i x j => cases houter
  | done exit => cases houter

omit [Blank V] [FnTrait F E] in
theorem Kept.unsettled {q : Ref} {R : Ref → Side → Wrapper F → Prop} {c c' : Config V E F}
    (h : Kept q R c c') (hu : Unsettled q R c) : Unsettled q R c' := by
  have hpending : c'.state.status? q = some .pending := h.status.trans hu.pending
  obtain ⟨data, hdata, -⟩ := Option.map_eq_some_iff.mp hpending
  exact ⟨State.lt_of_get? hdata, h.targets, h.outer, hpending⟩

end Libasync.Promise
