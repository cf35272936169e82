import Libasync.Promise.ExactlyOnce
import Libasync.Promise.FirstCall

/-! # What a step of the promise module leaves to the code above it

A module that is built on promises sees of a step which promises it may settle, which handlers
it registers, and which handler it calls. -/

namespace Libasync.Promise

open Foundation

variable {V E F : Type*}

/-! ### Registrations -/

/-- A handler attached now on this side will be called if the promise settles on that side, or
has done so. -/
def State.OpenFor (s : State V E F) (side : Side) (p : Ref) : Prop :=
  ∃ status, s.status? p = some status ∧ (status = .pending ∨ status.side? = some side)

/-- The handler that a call attaches. -/
def Op.attaches? : Op V E F → Option (Side × Ref × F)
  | .then_ p f => some (.fulfilled, p, f)
  | .catch_ p f => some (.rejected, p, f)
  | _ => none

namespace State

variable {side : Side} {q outer : Ref} {f : F}

@[simp] theorem registered_mem_settle (s : State V E F) (p : Ref) (status : PromiseStatus V E) :
    .registered side q outer f ∈ (s.settle p status).log ↔
      .registered side q outer f ∈ s.log := by
  unfold settle
  split <;> simp

@[simp] theorem registered_mem_adoptStatus (s : State V E F) (p : Ref)
    (status : PromiseStatus V E) :
    .registered side q outer f ∈ (s.adoptStatus p status).log ↔
      .registered side q outer f ∈ s.log := by
  cases status <;> simp [adoptStatus, resolveImpl, rejectImpl]

@[simp] theorem registered_mem_associateStatus (s : State V E F) (p inner : Ref) :
    .registered side q outer f ∈ (s.associateStatus p inner).log ↔
      .registered side q outer f ∈ s.log := by
  unfold associateStatus
  split <;> simp [resolveImpl, rejectImpl]

@[simp] theorem registered_mem_resolvePromiseImpl (s : State V E F) (p inner : Ref) :
    .registered side q outer f ∈ (s.resolvePromiseImpl p inner).log ↔
      .registered side q outer f ∈ s.log := by
  unfold resolvePromiseImpl
  split <;> simp

theorem registered_mem_finishHandler [Blank V] [FnTrait F E] (s : State V E F) (p : Ref) (g : F)
    (result : Outcome V E) :
    .registered side q outer f ∈ (s.finishHandler p g result).log ↔
      .registered side q outer f ∈ s.log := by
  cases result with
  | returned r =>
      cases r <;>
        simp [finishHandler, runHelper, resolved, resolvedVoid, create, resolveImpl]
  | threw e =>
      simp only [finishHandler, runHelper]
      split <;> simp [rejected, rejectedVoid, create, rejectImpl]

/-- Attaching a handler records its registration unless the promise has settled the other way. -/
theorem registered_mem_attach (s : State V E F) (side' : Side) (p : Ref) (g : F) :
    .registered side q outer f ∈ (s.attach side' p g).1.log ↔
      .registered side q outer f ∈ s.log ∨
        side = side' ∧ q = p ∧ outer = (s.attach side' p g).2 ∧ f = g ∧ s.OpenFor side' p := by
  unfold attach OpenFor status?
  cases hget : s.get? p with
  | none => simp [create]
  | some data =>
      simp only [Option.map_some, Option.some.injEq]
      cases hside : data.status.side? with
      | none => simp [PromiseStatus.side?_eq_none.mp hside, create]
      | some settled =>
          have hne : data.status ≠ .pending := by
            intro hp
            simp [hp, PromiseStatus.side?] at hside
          by_cases hs : settled = side'
          · cases hflag : data.pendingCallback <;> simp [hs, hside, create]
          · simp [hs, hside, hne, create]

theorem perform_of_attaches [Blank V] {s : State V E F} {o : Op V E F} {p : Ref}
    (h : o.attaches? = some (side, p, f)) : s.perform o = (s.attach side p f).1 := by
  cases o with
  | then_ p' g =>
      obtain ⟨rfl, rfl, rfl⟩ : Side.fulfilled = side ∧ p' = p ∧ g = f := by
        simpa [Op.attaches?] using h
      rfl
  | catch_ p' g =>
      obtain ⟨rfl, rfl, rfl⟩ : Side.rejected = side ∧ p' = p ∧ g = f := by
        simpa [Op.attaches?] using h
      rfl
  | _ => cases h

theorem registered_mem_perform [Blank V] (s : State V E F) (o : Op V E F) :
    .registered side q outer f ∈ (s.perform o).log ↔
      .registered side q outer f ∈ s.log ∨
        o.attaches? = some (side, q, f) ∧ outer = (s.attach side q f).2 ∧ s.OpenFor side q := by
  cases hat : o.attaches? with
  | some attached =>
      obtain ⟨side', p, g⟩ := attached
      rw [perform_of_attaches hat, registered_mem_attach]
      simp only [Option.some.injEq, Prod.mk.injEq]
      constructor <;> rintro (h | h)
      · exact .inl h
      · obtain ⟨rfl, rfl, rfl, rfl, h⟩ := h
        exact .inr ⟨⟨rfl, rfl, rfl⟩, rfl, h⟩
      · exact .inl h
      · obtain ⟨⟨rfl, rfl, rfl⟩, rfl, h⟩ := h
        exact .inr ⟨rfl, rfl, rfl, rfl, h⟩
  | none =>
      cases o with
      | then_ p g => cases hat
      | catch_ p g => cases hat
      | promise => simp [perform, create]
      | resolved v => simp [perform, resolved]
      | resolvedVoid => simp [perform, resolvedVoid, create, resolveImpl]
      | rejected e => simp [perform, rejected]
      | rejectedVoid e => simp [perform, rejectedVoid, create, rejectImpl]
      | resolve p v => simp [perform, resolveImpl]
      | resolvePromise p inner => simp [perform]
      | reject p e => simp [perform, rejectImpl]

end State

/-! ### Calls -/

/-- A handler that has been called was registered on the list by which its promise settled, and
was given the stored outcome. -/
theorem Recorded.delivered [FnTrait F E] {passed : Ref → ℕ} {s : State V E F}
    (h : Recorded passed s) {turn : ℕ} {p outer : Ref} {f : F} {arg : Arg V E}
    (hcall : .called turn p outer f arg ∈ s.log) :
    ∃ status side, s.status? p = some status ∧ status.side? = some side ∧
      status.argFor f = .ok arg ∧ .registered side p outer f ∈ s.log := by
  have hmem : (outer, f, arg) ∈ calls p s.log := mem_calls.mpr ⟨turn, hcall⟩
  cases hget : s.get? p with
  | none =>
      have hlen : s.heap.length ≤ p := List.getElem?_eq_none_iff.mp hget
      simp [(h.fresh p hlen).2.2] at hmem
  | some data =>
      obtain ⟨hpending, hsettled⟩ := h.cells p data hget
      cases hside : data.status.side? with
      | none =>
          obtain ⟨-, hcalls, -⟩ := hpending (PromiseStatus.side?_eq_none.mp hside)
          simp [hcalls] at hmem
      | some side =>
          obtain ⟨-, before, hreg, hcalls⟩ := hsettled side hside
          obtain ⟨hbefore, hargs⟩ := forall₂_delivers_iff.mp hcalls
          have hserved : (outer, f) ∈ registrations side p s.log := by
            rw [hreg, hbefore]
            exact List.mem_append_left _ (List.mem_map.mpr ⟨_, hmem, rfl⟩)
          exact ⟨data.status, side, by simp [State.status?, hget], hside, hargs _ hmem,
            mem_registrations.mp hserved⟩

/-- No registration is served twice. -/
theorem Recorded.not_called_before [FnTrait F E] {passed : Ref → ℕ} {s t : State V E F}
    (h : Recorded passed t) {turn turn' : ℕ} {p p' outer : Ref} {f f' : F} {arg arg' : Arg V E}
    (hlog : t.log = s.log ++ [.called turn p outer f arg]) :
    .called turn' p' outer f' arg' ∉ s.log := by
  intro hmem
  have hnodup := h.called_nodup
  rw [hlog, List.filterMap_append, List.nodup_append] at hnodup
  have hold : outer ∈ s.log.filterMap Event.callOf? := List.mem_filterMap.mpr ⟨_, hmem, rfl⟩
  exact hnodup.2.2 outer hold outer (by simp [Event.callOf?]) rfl

/-! ### Steps -/

/-- The registrations that a step can make. -/
def Label.Registers (s : State V E F) : Label V E F → Side → Ref → Ref → F → Prop
  | .op o, side, p, outer, f =>
      o.attaches? = some (side, p, f) ∧ outer = (s.attach side p f).2 ∧ s.OpenFor side p
  | _, _, _, _, _ => False

section Steps

variable [Blank V] [FnTrait F E]

theorem Step.registered {c c' : Config V E F} {l : Label V E F} (h : Step c l c') {side : Side}
    {p outer : Ref} {f : F} :
    .registered side p outer f ∈ c'.state.log ↔
      .registered side p outer f ∈ c.state.log ∨ l.Registers c.state side p outer f := by
  cases h with
  | op s control o user known => exact s.registered_mem_perform o
  | start s => simp [Label.Registers]
  | next s i q entry => simp [Label.Registers]
  | clear s i entry => simp [Label.Registers]
  | adopted s i q j data outer' get due => simp [Label.Registers]
  | called s i q j data outer' g arg get due arg_eq => simp [Label.Registers, State.record]
  | mismatch s i q j data outer' g e get due arg_eq => simp [Label.Registers]
  | finished s i q j data get due => simp [Label.Registers, State.finishCallBack]
  | returned s i q j outer' g result known =>
      simp [Label.Registers, State.registered_mem_finishHandler]
  | resume s exit => simp [Label.Registers]

theorem Step.length_le {c c' : Config V E F} {l : Label V E F} (h : Step c l c')
    (hc : Scoped c) : c.state.heap.length ≤ c'.state.heap.length := by
  cases h with
  | op s control o user known => exact (s.perform_changes o).length_le
  | adopted s i q j data outer get due =>
      exact (s.adoptStatus_changes (T := (· = outer)) outer data.status rfl).length_le
  | finished s i q j data get due => simp [State.finishCallBack]
  | returned s i q j outer f result known =>
      exact (s.finishHandler_changes f result (hc.outer i q j outer f rfl)).length_le
  | _ => exact Nat.le_refl _

theorem length_le_of_run {c c' : Config V E F} {ls : List (Label V E F)} (hc : Scoped c)
    (h : Automaton.run step c ls = some c') : c.state.heap.length ≤ c'.state.heap.length := by
  refine (Automaton.run_invariant_of_step (I := fun d : Config V E F => Scoped d ∧
    c.state.heap.length ≤ d.state.heap.length) ?_ ⟨hc, Nat.le_refl _⟩ h).2
  rintro d l d' ⟨hd, hle⟩ hcl
  exact ⟨hd.step (.of_step hcl), Nat.le_trans hle ((Step.of_step hcl).length_le hd)⟩

/-- A new call is one that the loop has just made. -/
theorem Step.called_mem {c c' : Config V E F} {l : Label V E F} (h : Step c l c')
    (hc : Scoped c) {turn : ℕ} {p outer : Ref} {f : F} {arg : Arg V E}
    (hcall : .called turn p outer f arg ∈ c'.state.log) :
    .called turn p outer f arg ∈ c.state.log ∨
      l = .tau ∧ c'.state.log = c.state.log ++ [.called turn p outer f arg] ∧
        ∃ j, c'.control = .handler turn p j outer f := by
  cases h with
  | op s control o user known => exact .inl ((s.perform_changes o).call_mem rfl hcall)
  | start s => exact .inl hcall
  | next s i q entry => exact .inl hcall
  | clear s i entry => exact .inl hcall
  | adopted s i q j data outer' get due =>
      exact .inl ((s.adoptStatus_changes (T := (· = outer')) outer' data.status rfl).call_mem
        rfl hcall)
  | called s i q j data outer' g arg' get due arg_eq =>
      rcases List.mem_append.mp hcall with hcall | hcall
      · exact .inl hcall
      · obtain ⟨rfl, rfl, rfl, rfl, rfl⟩ := Event.called.inj (List.mem_singleton.mp hcall)
        exact .inr ⟨rfl, rfl, j, rfl⟩
  | mismatch s i q j data outer' g e get due arg_eq => exact .inl hcall
  | finished s i q j data get due => exact .inl hcall
  | returned s i q j outer' g result known =>
      exact .inl ((s.finishHandler_changes g result (hc.outer i q j outer' g rfl)).call_mem
        rfl hcall)
  | resume s exit => exact .inl hcall

/-- A handler that the loop has just called got the outcome of its promise. -/
theorem Step.called_settled {c c' : Config V E F} {l : Label V E F} (h : Step c l c')
    (hc : Scoped c) {turn : ℕ} {p outer : Ref} {f : F} {arg : Arg V E}
    (hcall : .called turn p outer f arg ∈ c'.state.log) :
    .called turn p outer f arg ∈ c.state.log ∨
      ∃ status, c.state.status? p = some status ∧ status ≠ .pending ∧
        status.argFor f = .ok arg := by
  rcases h.called_mem hc hcall with hold | ⟨rfl, hlog, j, hcontrol⟩
  · exact .inl hold
  · right
    cases h with
    | called s i q j' data outer' g arg' get due arg_eq =>
        obtain ⟨rfl, rfl, rfl, rfl, rfl⟩ :=
          Event.called.inj (List.singleton_inj.mp (List.append_cancel_left hlog))
        have hne : data.status ≠ .pending := by
          intro hpending
          simp [PromiseData.due_of_pending hpending] at due
        exact ⟨data.status, by simp [State.status?, get], hne, arg_eq⟩
    | next | clear | adopted | mismatch | finished => cases hcontrol

end Steps

/-- Some steps led from `c` to `c'`. They used only contexts of the promises `T` and made only
the registrations `N`. -/
structure Advances [FnTrait F E] (T : Ref → Prop) (N : Side → Ref → Ref → F → Prop)
    (c c' : Config V E F) : Prop where
  queue : QueueInv c'
  recorded : Recorded c'.control.passed c'.state
  length_le : c.state.heap.length ≤ c'.state.heap.length
  log_grows : c.state.log <+: c'.state.log
  settled : ∀ p status, c.state.status? p = some status → status ≠ .pending →
    c'.state.status? p = some status
  unsettled : ∀ p, ¬ T p → Unsettled p (fun _ _ _ => False) c →
    Unsettled p (fun _ _ _ => False) c'
  follows : ∀ p inner, ¬ T p → Follows p inner c → Follows p inner c'
  registered : ∀ side p outer f, .registered side p outer f ∈ c'.state.log →
    .registered side p outer f ∈ c.state.log ∨ N side p outer f

namespace Advances

variable [FnTrait F E] {T : Ref → Prop} {N N' : Side → Ref → Ref → F → Prop}
  {c c' c'' : Config V E F}

theorem refl (hq : QueueInv c) (hr : Recorded c.control.passed c.state) : Advances T N c c where
  queue := hq
  recorded := hr
  length_le := Nat.le_refl _
  log_grows := List.prefix_rfl
  settled _ _ h _ := h
  unsettled _ _ h := h
  follows _ _ _ h := h
  registered _ _ _ _ h := .inl h

theorem trans (h : Advances T N c c') (h' : Advances T N c' c'') : Advances T N c c'' where
  queue := h'.queue
  recorded := h'.recorded
  length_le := Nat.le_trans h.length_le h'.length_le
  log_grows := h.log_grows.trans h'.log_grows
  settled p status hp hs := h'.settled p status (h.settled p status hp hs) hs
  unsettled p hp hu := h'.unsettled p hp (h.unsettled p hp hu)
  follows p inner hp hf := h'.follows p inner hp (h.follows p inner hp hf)
  registered side p outer f hmem :=
    (h'.registered side p outer f hmem).elim (h.registered side p outer f) .inr

theorem mono (h : Advances T N c c') {U : Ref → Prop} (hT : ∀ p, T p → U p)
    (hN : ∀ side p outer f, N side p outer f → N' side p outer f) : Advances U N' c c' where
  queue := h.queue
  recorded := h.recorded
  length_le := h.length_le
  log_grows := h.log_grows
  settled := h.settled
  unsettled p hp := h.unsettled p fun ht => hp (hT p ht)
  follows p inner hp := h.follows p inner fun ht => hp (hT p ht)
  registered side p outer f hmem :=
    (h.registered side p outer f hmem).imp_right (hN side p outer f)

end Advances

/-- What a step that meets no error of another type means. -/
theorem Step.advances [Blank V] [FnTrait F E] {c c' : Config V E F} {l : Label V E F}
    (h : Step c l c') (hq : QueueInv c) (hr : Recorded c.control.passed c.state)
    (hm : c.failing? = none) :
    Advances (fun p => l.context? = some p) (l.Registers c.state) c c' where
  queue := hq.step h
  recorded := hr.step hq hm h
  length_le := h.length_le hq.scope
  log_grows := h.log_grows hq.scope
  settled _ _ hp hs := h.settled_status hq.scope hp hs
  unsettled p hp hu := by
    rcases h.kept_or_invokes hq.scope hu hp with hkept | hinvokes
    · exact hkept.unsettled hu
    · obtain ⟨i, x, j, data, side, w, hinv⟩ := hinvokes
      exact hinv.place.elim
  follows p inner hp hf := hf.step hq (fun hctx => absurd hctx hp) h
  registered _ _ _ _ := h.registered.mp

/-- Only a step of the loop can meet an error of another type. -/
theorem Step.failing?_eq_none [Blank V] [FnTrait F E] {c c' : Config V E F} {l : Label V E F}
    (h : Step c l c') (hl : l ≠ .tau) : c.failing? = none := by
  cases h with
  | op s control o user known =>
      cases control with
      | callBack i p j => exact user.elim
      | _ => rfl
  | start s => rfl
  | returned s i p j outer f result known => rfl
  | resume s exit => rfl
  | _ => exact absurd rfl hl

/-! ### Runs -/

/-- A settled promise keeps its status. -/
theorem settled_of_run [Blank V] [FnTrait F E] {c c' : Config V E F} {ls : List (Label V E F)}
    (hc : Scoped c) (h : Automaton.run step c ls = some c') {p : Ref} {status : PromiseStatus V E}
    (hp : c.state.status? p = some status) (hs : status ≠ .pending) :
    c'.state.status? p = some status := by
  refine (Automaton.run_invariant_of_step (I := fun d : Config V E F => Scoped d ∧
    d.state.status? p = some status) ?_ ⟨hc, hp⟩ h).2
  rintro d l d' ⟨hd, hp⟩ hl
  exact ⟨hd.step (.of_step hl), (Step.of_step hl).settled_status hd hp hs⟩

/-- What a run in which no handler meets an error of another type means. -/
theorem Advances.of_run [Blank V] [FnTrait F E] {c c' : Config V E F} {ls : List (Label V E F)}
    (hq : QueueInv c) (hr : Recorded c.control.passed c.state)
    (hm : Automaton.EachStep step (fun d _ => d.failing? = none) c ls)
    (h : Automaton.run step c ls = some c') :
    Advances (fun _ => True) (fun _ _ _ _ => True) c c' := by
  refine Automaton.run_invariant ?_ (Advances.refl hq hr) hm h
  intro d l d' hd hnone hl
  refine hd.trans (((Step.of_step hl).advances hd.queue hd.recorded hnone).mono ?_ ?_)
  · exact fun _ _ => trivial
  · exact fun _ _ _ _ _ => trivial

end Libasync.Promise
