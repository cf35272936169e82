import Libasync.Promise.Advance
import Libasync.Promise.PassThrough
import Mathlib.Tactic.IntervalCases

/-! # Derived promises take the outcome of their handler

A derived promise waits for one wrapper. Its handler is called at most once, and when it ends
the derived promise is settled, or made to follow the promise that the handler returned. -/

namespace Libasync.Promise

open Automaton Foundation

variable {V E F : Type*}

/-! ### Taking over an outcome -/

/-- The promise is settled, and no `call_back` of it is requested or running. -/
def State.CalledBack (s : State V E F) (p : Ref) : Prop :=
  ∃ data, s.get? p = some data ∧ data.status ≠ .pending ∧ data.pendingCallback = false

/-- `p` stays pending as long as `inner` does, can only take the outcome of `inner`, and has it
when `inner` has been called back. -/
structure TakesOver (p inner : Ref) (s : State V E F) : Prop where
  known : ∃ status, s.status? inner = some status
  pending : s.status? inner = some .pending → s.status? p = some .pending
  agrees : s.status? p ≠ some .pending → s.status? p = s.status? inner
  calledBack : s.CalledBack inner → s.status? p = s.status? inner

theorem FollowsWithin.takesOver [FnTrait F E] {R : Ref → Side → Wrapper F → Prop} {p inner : Ref}
    {c : Config V E F} (h : FollowsWithin R p inner c) (hq : QueueInv c) :
    TakesOver p inner c.state := by
  rcases h with ⟨hu, data, hdata, hmem⟩ | ⟨status, hne, hp, hinner⟩
  · refine ⟨⟨data.status, by simp [State.status?, hdata]⟩, fun _ => hu.pending,
      fun hp => absurd hu.pending hp, ?_⟩
    rintro ⟨cell, hcell, hsettled, hflag⟩
    obtain rfl : data = cell := Option.some.inj (hdata.symm.trans hcell)
    cases hside : data.status.side? with
    | none => exact absurd (PromiseStatus.side?_eq_none.mp hside) hsettled
    | some side =>
        have hempty : data.wrappers side = [] := by
          by_contra hwaiting
          simp [hq.queued.waiting inner data side hdata hsettled hwaiting] at hflag
        simpa [hempty] using hmem side (.inr hside)
  · refine ⟨⟨status, hinner⟩, ?_, fun _ => hp.trans hinner.symm, fun _ => hp.trans hinner.symm⟩
    intro hpending
    exact absurd (Option.some.inj (hinner.symm.trans hpending)) hne

/-- In a drained state every settled promise has been called back. -/
theorem Drained.calledBack {s : State V E F} (h : Drained s) {p : Ref}
    {status : PromiseStatus V E} (hp : s.status? p = some status) (hne : status ≠ .pending) :
    s.CalledBack p := by
  obtain ⟨data, hdata, rfl⟩ := Option.map_eq_some_iff.mp hp
  exact ⟨data, hdata, hne, h.unflagged p data hdata⟩

/-- Once everything is called back the two promises agree. -/
theorem TakesOver.status_eq {s : State V E F} {p inner : Ref} (h : TakesOver p inner s)
    (hs : Drained s) : s.status? p = s.status? inner := by
  obtain ⟨status, hinner⟩ := h.known
  by_cases hp : status = .pending
  · rw [h.pending (hp ▸ hinner), hinner, hp]
  · exact h.calledBack (hs.calledBack hinner hp)

/-! ### The end of a handler -/

/-- What the derived promise `q` of a handler that ended in `s₁` with this result is in `s`. -/
def Takes [Blank V] (s₁ : State V E F) : Outcome V E → Ref → State V E F → Prop
  | .returned (.value v), q, s => s.status? q = some (.resolved v)
  | .returned .void, q, s => s.status? q = some (.resolved Blank.blank)
  | .threw e, q, s => s.status? q = some (.rejected e)
  | .returned (.promise r), q, s => TakesOver q r s ∧
      ∀ status, s₁.status? r = some status → status ≠ .pending → s.status? q = some status

/-- What settles the derived promise of a handler at its end, if it does not return a promise. -/
def Outcome.status? [Blank V] : Outcome V E → Option (PromiseStatus V E)
  | .returned (.value v) => some (.resolved v)
  | .returned .void => some (.resolved Blank.blank)
  | .returned (.promise _) => none
  | .threw e => some (.rejected e)

/-- The wrapper of the handler, and the internal callback of a promise that it returned. -/
def DerivedFrom (p q : Ref) (f : F) (r x : Ref) (w : Wrapper F) : Prop :=
  x = p ∧ w = .handler q f ∨ x = r ∧ w = .adopt q

/-- How the derived promise stands to the result from the end of its handler on. -/
def Taking [Blank V] [FnTrait F E] (p q : Ref) (f : F) (s₁ : State V E F) (c : Config V E F) :
    Outcome V E → Prop
  | .returned (.promise r) => FollowsWithin (fun x _ w => DerivedFrom p q f r x w) q r c ∧
      ∀ status, s₁.status? r = some status → status ≠ .pending → c.state.status? q = some status
  | result => ∃ status, result.status? = some status ∧ c.state.status? q = some status

theorem Taking.takes [Blank V] [FnTrait F E] {p q : Ref} {f : F} {s₁ : State V E F}
    {c : Config V E F} {result : Outcome V E} (h : Taking p q f s₁ c result) (hq : QueueInv c) :
    Takes s₁ result q c.state := by
  cases result with
  | returned value =>
      cases value with
      | value v =>
          obtain ⟨status, hstatus, hc⟩ := h
          obtain rfl := Option.some.inj hstatus
          exact hc
      | void =>
          obtain ⟨status, hstatus, hc⟩ := h
          obtain rfl := Option.some.inj hstatus
          exact hc
      | promise r => exact ⟨h.1.takesOver hq, h.2⟩
  | threw e =>
      obtain ⟨status, hstatus, hc⟩ := h
      obtain rfl := Option.some.inj hstatus
      exact hc

namespace State

variable [Blank V] [FnTrait F E]

/-- The inner promise of a handler that has thrown is rejected with the thrown object: the
`exception_ptr` to it is not wrapped. -/
theorem runHelper_status? (s : State V E F) (f : F) {result : Outcome V E}
    {status : PromiseStatus V E} (hresult : result.status? = some status) :
    (s.runHelper f result).1.status? (s.runHelper f result).2 = some status := by
  have hcreate : s.create.1.status? s.heap.length = some .pending := by simp [status?, create]
  cases result with
  | returned value =>
      cases value with
      | value v =>
          obtain rfl := Option.some.inj hresult
          simp [runHelper, resolved, status?]
      | void =>
          obtain rfl := Option.some.inj hresult
          exact settle_status? _ hcreate
      | promise r => cases hresult
  | threw e =>
      obtain rfl := Option.some.inj hresult
      simp only [runHelper]
      split
      · exact settle_status? _ hcreate
      · simp [rejected, status?, eptrMake]

theorem finishHandler_status? {s : State V E F} {q : Ref} (f : F) {result : Outcome V E}
    {status : PromiseStatus V E} (hq : s.status? q = some .pending)
    (hresult : result.status? = some status) :
    (s.finishHandler q f result).status? q = some status := by
  obtain ⟨data, hdata, -⟩ := Option.map_eq_some_iff.mp hq
  have hpending : (s.runHelper f result).1.status? q = some .pending :=
    (s.runHelper_changes f result).status_eq hq (.inr (Nat.not_le.mpr (lt_of_get? hdata)))
  obtain ⟨inner, hinner, rfl⟩ := Option.map_eq_some_iff.mp (s.runHelper_status? f hresult)
  have hsettled : inner.status ≠ .pending := by
    rintro hstatus
    rw [hstatus] at hresult
    cases result with
    | returned value => cases value <;> cases hresult
    | threw e => cases hresult
  change ((s.runHelper f result).1.associateStatus q (s.runHelper f result).2).status? q = _
  rw [associateStatus_eq hinner hsettled]
  exact adoptStatus_status? hpending hsettled

end State

variable [Blank V] [FnTrait F E]

/-- In the run of these labels the handler `f` of `p` with the derived promise `q` ended in the
state `s₁` with this result. -/
def Ended (ls : List (Label V E F)) (p q : Ref) (f : F) (s₁ : State V E F)
    (result : Outcome V E) : Prop :=
  ∃ front rest i j, ls = front ++ .finish result :: rest ∧ RunsTo front ⟨s₁, .handler i p j q f⟩

theorem ended_concat {ls : List (Label V E F)} {l : Label V E F} {c : Config V E F}
    {p q : Ref} {f : F} {s₁ : State V E F} {result : Outcome V E} (h : RunsTo ls c) :
    Ended (ls ++ [l]) p q f s₁ result ↔ Ended ls p q f s₁ result ∨
      l = .finish result ∧ ∃ i j, c = ⟨s₁, .handler i p j q f⟩ := by
  constructor
  · rintro ⟨front, rest, i, j, hls, hfront⟩
    induction rest using List.reverseRecOn with
    | nil =>
        obtain ⟨rfl, hl⟩ := List.append_inj' hls rfl
        refine .inr ⟨List.singleton_inj.mp hl, i, j, ?_⟩
        exact Option.some.inj (h.symm.trans hfront)
    | append_singleton rest l' _ =>
        rw [← List.cons_append, ← List.append_assoc] at hls
        exact .inl ⟨front, rest, i, j, (List.append_inj' hls rfl).1, hfront⟩
  · rintro (⟨front, rest, i, j, rfl, hfront⟩ | ⟨rfl, i, j, rfl⟩)
    · exact ⟨front, rest ++ [l], i, j, by simp, hfront⟩
    · exact ⟨ls, [], i, j, rfl, h⟩

/-- A promise whose handler has run exists. -/
theorem Ended.lt {ls : List (Label V E F)} {c : Config V E F} {p q : Ref} {f : F}
    {s₁ : State V E F} {result : Outcome V E} (h : Ended ls p q f s₁ result) (hc : RunsTo ls c) :
    q < c.state.heap.length := by
  obtain ⟨front, rest, i, j, rfl, hfront⟩ := h
  obtain ⟨c₁, hc₁, hrest⟩ := run_append_eq_some step hc
  obtain rfl := Option.some.inj (hc₁.symm.trans hfront)
  have hscope : Scoped (⟨s₁, .handler i p j q f⟩ : Config V E F) := hfront.queueInv.scope
  exact Nat.lt_of_lt_of_le (hscope.outer i p j q f rfl) (length_le_of_run hscope hrest)

/-! ### Waiting for the handler -/

/-- The derived promise `q` is pending, only the wrapper of its handler targets it, and the
handler is running if it has been called. -/
structure Expecting (p q : Ref) (f : F) (c : Config V E F) : Prop where
  pending : c.state.status? q = some .pending
  targets : c.state.TargetedOnly q fun x _ w => x = p ∧ w = .handler q f
  running : ∀ i x j g, c.control = .handler i x j q g → x = p ∧ g = f
  called : (∃ e ∈ c.state.log, e.callOf? = some q) ↔ c.control.outer? = some q

/-- The handler of the derived promise `q` has been called and is not running. -/
def Served (q : Ref) (c : Config V E F) : Prop :=
  (∃ e ∈ c.state.log, e.callOf? = some q) ∧ c.control.outer? ≠ some q

omit [Blank V] [FnTrait F E] in
theorem expecting_of_attach {s : State V E F} {control : Control F E} (hc : Scoped ⟨s, control⟩)
    (side : Side) (p : Ref) (f : F) :
    Expecting p (s.attach side p f).2 f (⟨(s.attach side p f).1, control⟩ : Config V E F) := by
  have hw := waiting_of_attach hc side p f
  have htargets := (hc.state.attach_targeted side p f).mono
    fun _ _ _ h => (⟨h.1, h.2.2⟩ : _ ∧ _)
  refine ⟨hw.pending, htargets, ?_, ?_⟩
  · rintro i x j g rfl
    exact absurd rfl hw.outer
  · refine ⟨?_, fun houter => absurd houter hw.outer⟩
    rintro ⟨e, he, hcall⟩
    exact absurd hcall (hw.uncalled e he)

/-- Until its handler ends nothing happens to a derived promise. -/
theorem Expecting.step {p q : Ref} {f : F} {c c' : Config V E F} {l : Label V E F}
    (h : Expecting p q f c) (hc : Scoped c) (hl : l.context? ≠ some q) (hstep : Step c l c') :
    Expecting p q f c' ∨ ∃ s i j result, c = ⟨s, .handler i p j q f⟩ ∧ l = .finish result := by
  obtain ⟨hpending, htargets, hrunning, hcalled⟩ := h
  obtain ⟨cell, hcell, -⟩ := Option.map_eq_some_iff.mp hpending
  have hlt := State.lt_of_get? hcell
  by_cases houter : c.control.outer? = some q
  · cases hstep with
    | op s control o user known =>
        have hchanges := s.perform_changes o
        have hT : ¬ (o.context? = some q ∨ s.heap.length ≤ q) :=
          fun hT => hT.elim hl (Nat.not_le.mpr hlt)
        obtain ⟨e, he, hcall⟩ := hcalled.mpr houter
        have hmem : e ∈ (s.perform o).log := hchanges.log_grows.subset he
        exact .inl ⟨hchanges.status_eq hpending (.inr hT), htargets.changes hchanges hT hlt,
          hrunning, fun _ => houter, fun _ => ⟨e, hmem, hcall⟩⟩
    | returned s i x j outer g result known =>
        obtain rfl := Option.some.inj houter
        obtain ⟨rfl, rfl⟩ := hrunning i x j g rfl
        exact .inr ⟨s, i, j, result, rfl, rfl⟩
    | _ => cases houter
  · left
    have huncalled : ∀ e ∈ c.state.log, e.callOf? ≠ some q := by
      intro e he hcall
      exact houter (hcalled.mp ⟨e, he, hcall⟩)
    rcases hstep.kept_or_invokes hc ⟨hlt, htargets, houter, hpending⟩ hl with
      hkept | ⟨i, x, j, data, side, w, hinvokes⟩
    · refine ⟨hkept.status.trans hpending, hkept.targets, ?_, ?_⟩
      · intro i x j g hcontrol
        exact absurd (by rw [hcontrol]; rfl) hkept.outer
      · refine ⟨?_, fun hrun => absurd hrun hkept.outer⟩
        rintro ⟨e, he, hcall⟩
        exact absurd hcall (huncalled e (hkept.calls e he hcall))
    · obtain ⟨hcontrol, hget, hdue, -, -, rfl, rfl⟩ := hinvokes
      obtain ⟨s, control⟩ := c
      subst hcontrol
      cases hstep with
      | op s control o user known => exact user.elim
      | adopted s i x j cell outer get due =>
          obtain rfl := Option.some.inj (get.symm.trans hget)
          simp [hdue] at due
      | called s i x j cell outer g arg get due arg_eq =>
          obtain rfl := Option.some.inj (get.symm.trans hget)
          obtain ⟨rfl, rfl⟩ := Wrapper.handler.inj (Option.some.inj (due.symm.trans hdue))
          refine ⟨hpending, htargets, ?_, fun _ => rfl, fun _ => ?_⟩
          · intro i' x' j' g' hcontrol
            obtain ⟨-, rfl, -, -, rfl⟩ := Control.handler.inj hcontrol
            exact ⟨rfl, rfl⟩
          · exact ⟨.called i x outer g arg, List.mem_append_right _ (List.mem_singleton_self _),
              rfl⟩
      | mismatch s i x j cell outer g e get due arg_eq =>
          refine ⟨hpending, htargets, nofun, ?_, nofun⟩
          rintro ⟨e, he, hcall⟩
          exact absurd hcall (huncalled e he)
      | finished s i x j cell get due =>
          obtain rfl := Option.some.inj (get.symm.trans hget)
          simp [hdue] at due

/-- No handler is called for the same derived promise again. -/
theorem Served.step {q : Ref} {c c' : Config V E F} {l : Label V E F} (h : Served q c)
    (hc : Scoped c) (hr : Recorded c'.control.passed c'.state) (hstep : Step c l c') :
    Served q c' := by
  obtain ⟨⟨e, he, hcall⟩, houter⟩ := h
  refine ⟨⟨e, (hstep.log_grows hc).subset he, hcall⟩, ?_⟩
  cases hstep with
  | called s i p j data outer f arg get due arg_eq =>
      intro hsame
      obtain rfl := Option.some.inj hsame
      obtain ⟨turn, p', f', arg', rfl⟩ := callOf?_eq_some hcall
      exact hr.not_called_before rfl he
  | op s control o user known => exact houter
  | _ => nofun

/-- The wrapper of a handler that has ended is not invoked again. -/
theorem Served.not_invoked {p q : Ref} {f : F} {R : Ref → Side → Wrapper F → Prop}
    {c c' : Config V E F} {l : Label V E F} {i j : ℕ} {data : PromiseData V E F} {side : Side}
    (h : Served q c) (hc : Scoped c) (hr : Recorded c'.control.passed c'.state)
    (hm : c.failing? = none) (hstep : Step c l c') :
    ¬ Invokes q R c i p j data side (.handler q f) := by
  rintro ⟨hcontrol, hget, hdue, -, -, -⟩
  have hserved := h.step hc hr hstep
  obtain ⟨s, control⟩ := c
  subst hcontrol
  cases hstep with
  | op s control o user known => exact user.elim
  | adopted s i p j cell outer get due =>
      obtain rfl := Option.some.inj (get.symm.trans hget)
      simp [hdue] at due
  | called s i p j cell outer g arg get due arg_eq =>
      obtain rfl := Option.some.inj (get.symm.trans hget)
      obtain ⟨rfl, rfl⟩ := Wrapper.handler.inj (Option.some.inj (due.symm.trans hdue))
      exact hserved.2 rfl
  | mismatch s i p j cell outer g e get due arg_eq =>
      simp [failing?_of_argFor get due arg_eq] at hm
  | finished s i p j cell get due =>
      obtain rfl := Option.some.inj (get.symm.trans hget)
      simp [hdue] at due

theorem Served.place_of_invokes {p q r : Ref} {f : F} {c c' : Config V E F} {l : Label V E F}
    (h : Served q c) (hc : Scoped c) (hr : Recorded c'.control.passed c'.state)
    (hm : c.failing? = none) (hstep : Step c l c') (i x j data side w)
    (hinvokes : Invokes q (fun x _ w => DerivedFrom p q f r x w) c i x j data side w) :
    x = r ∧ w = .adopt q := by
  refine hinvokes.place.resolve_left ?_
  rintro ⟨rfl, rfl⟩
  exact h.not_invoked hc hr hm hstep hinvokes

/-- Once the handler has ended, a derived promise only follows the promise that it returned. -/
theorem Taking.step {p q : Ref} {f : F} {s₁ : State V E F} {c c' : Config V E F}
    {l : Label V E F} {result : Outcome V E} (h : Taking p q f s₁ c result)
    (hserved : Served q c) (hq : QueueInv c) (hr : Recorded c'.control.passed c'.state)
    (hm : c.failing? = none) (hl : l.context? ≠ some q) (hstep : Step c l c') :
    Taking p q f s₁ c' result := by
  have hsettled : ∀ status, result.status? = some status → c.state.status? q = some status →
      c'.state.status? q = some status := by
    intro status hstatus hc
    refine hstep.settled_status hq.scope hc ?_
    rintro rfl
    cases result with
    | returned value => cases value <;> cases hstatus
    | threw e => cases hstatus
  cases result with
  | threw e =>
      obtain ⟨status, hstatus, hc⟩ := h
      exact ⟨status, hstatus, hsettled status hstatus hc⟩
  | returned value =>
      cases value with
      | value v =>
          obtain ⟨status, hstatus, hc⟩ := h
          exact ⟨status, hstatus, hsettled status hstatus hc⟩
      | void =>
          obtain ⟨status, hstatus, hc⟩ := h
          exact ⟨status, hstatus, hsettled status hstatus hc⟩
      | promise r =>
          refine ⟨h.1.step hq (fun hctx => absurd hctx hl) ?_ hstep, ?_⟩
          · exact hserved.place_of_invokes hq.scope hr hm hstep
          · intro status hs₁ hne
            exact hstep.settled_status hq.scope (h.2 status hs₁ hne) hne

/-- At the end of the handler. -/
theorem Expecting.returned {p q : Ref} {f : F} {s : State V E F} {i j : ℕ}
    {result : Outcome V E} (h : Expecting p q f ⟨s, .handler i p j q f⟩)
    (hq : QueueInv (⟨s, .handler i p j q f⟩ : Config V E F)) (known : s.has result.refs = true) :
    Taking p q f s ⟨s.finishHandler q f result, .callBack i p (j + 1)⟩ result := by
  cases result with
  | threw e => exact ⟨_, rfl, State.finishHandler_status? f h.pending rfl⟩
  | returned value =>
      cases value with
      | value v => exact ⟨_, rfl, State.finishHandler_status? f h.pending rfl⟩
      | void => exact ⟨_, rfl, State.finishHandler_status? f h.pending rfl⟩
      | promise r =>
          have hr : r < s.heap.length := State.lt_of_has known (by simp [Outcome.refs])
          refine ⟨followsWithin_of_associate h.targets h.pending hr nofun
            hq.passed_of_pending, ?_⟩
          intro status hstatus hne
          obtain ⟨data, hdata, rfl⟩ := Option.map_eq_some_iff.mp hstatus
          change (s.associateStatus q r).status? q = _
          rw [State.associateStatus_eq hdata hne]
          exact State.adoptStatus_status? h.pending hne

/-! ### Over whole runs -/

/-- The handler of `q` has not ended, or it has ended once, and `q` takes its result. -/
def Progress (p q : Ref) (f : F) (ls : List (Label V E F)) (c : Config V E F) : Prop :=
  (Expecting p q f c ∧ ∀ s₁ result, ¬ Ended ls p q f s₁ result) ∨
  ∃ s₁ result, (∀ s₂ result₂, Ended ls p q f s₂ result₂ ↔ s₂ = s₁ ∧ result₂ = result) ∧
    Served q c ∧ Taking p q f s₁ c result

theorem Attached.progress {ls : List (Label V E F)} {side : Side} {p q : Ref} {f : F}
    {c : Config V E F} (ha : Attached ls side p f q) (h : RunsTo ls c) (hm : NoMismatch ls) :
    Progress p q f ls c := by
  refine ha.induct (P := fun ls c => NoMismatch ls → Progress p q f ls c) h ?_ ?_ hm
  · rintro ls s control hrun - rfl -
    have hscope : Scoped (⟨s, control⟩ : Config V E F) := hrun.queueInv.scope
    refine .inl ⟨expecting_of_attach hscope side p f, ?_⟩
    intro s₁ result hended
    rcases (ended_concat hrun).mp hended with hended | ⟨hl, -⟩
    · exact Nat.not_lt.mpr (s.attach_ref side p f).1 (hended.lt hrun)
    · cases hl
  · intro ls c l c' _ hrun hP hl hstep hm
    have hm₀ : NoMismatch ls := hm.of_prefix (List.prefix_append _ _)
    have hnow : c.failing? = none := hm ls l [] c rfl hrun
    have hq := RunsTo.queueInv hrun
    have hrun' : RunsTo (ls ++ [l]) c' := run_concat step hrun (step_iff.mpr hstep)
    rcases hP hm₀ with ⟨hexp, hended⟩ | ⟨s₁, result, hended, hserved, htaking⟩
    · by_cases hfinish : ∃ s i j result, c = ⟨s, .handler i p j q f⟩ ∧ l = .finish result
      · obtain ⟨s, i, j, result, rfl, rfl⟩ := hfinish
        cases hstep with
        | returned s i p j q f result known =>
            have hcalled : ∃ e ∈ s.log, e.callOf? = some q := hexp.called.mpr rfl
            have hgrows :=
              (s.finishHandler_changes f result (hq.scope.outer i p j q f rfl)).log_grows
            refine .inr ⟨s, result, ?_, ⟨?_, nofun⟩, hexp.returned hq known⟩
            · intro s₂ result₂
              rw [ended_concat hrun]
              constructor
              · rintro (hold | ⟨hl, i₂, j₂, hc⟩)
                · exact absurd hold (hended s₂ result₂)
                · exact ⟨(Config.mk.inj hc).1.symm, (Label.finish.inj hl).symm⟩
              · rintro ⟨rfl, rfl⟩
                exact .inr ⟨rfl, i, j, rfl⟩
            · obtain ⟨e, he, hcall⟩ := hcalled
              exact ⟨e, hgrows.subset he, hcall⟩
      · refine .inl ⟨(hexp.step hq.scope hl hstep).resolve_right hfinish, ?_⟩
        intro s₁ result hnew
        rcases (ended_concat hrun).mp hnew with hold | ⟨rfl, i, j, rfl⟩
        · exact hended s₁ result hold
        · exact hfinish ⟨s₁, i, j, result, rfl, rfl⟩
    · refine .inr ⟨s₁, result, ?_, hserved.step hq.scope (hrun'.recorded hm) hstep,
        htaking.step hserved hq (hrun'.recorded hm) hnow hl hstep⟩
      intro s₂ result₂
      rw [ended_concat hrun, hended]
      refine or_iff_left ?_
      rintro ⟨-, i, j, rfl⟩
      exact hserved.2 rfl

/-- The handlers of a promise that has been called back have ended. -/
theorem Attached.ended {ls : List (Label V E F)} {side : Side} {p q : Ref} {f : F}
    {c : Config V E F} (ha : Attached ls side p f q) (h : RunsTo ls c) (hm : NoMismatch ls)
    (hs : c.state.SettledOn side p) (hb : c.state.CalledBack p) :
    ∃ s₁ result, Ended ls p q f s₁ result := by
  rcases ha.progress h hm with ⟨hexp, -⟩ | ⟨s₁, result, hended, -⟩
  · exfalso
    obtain ⟨data, hdata, hsettled, hflag⟩ := hb
    have hside : data.status.side? = some side := by
      obtain ⟨status, hstatus, hside⟩ := hs
      obtain ⟨cell, hcell, rfl⟩ := Option.map_eq_some_iff.mp hstatus
      rwa [Option.some.inj (hdata.symm.trans hcell)]
    have hempty : data.wrappers side = [] := by
      by_contra hwaiting
      simp [h.queueInv.queued.waiting p data side hdata hsettled hwaiting] at hflag
    obtain ⟨hpassed, before, hreg, hcalls⟩ :=
      ((h.recorded hm).cells p data hdata).settled side hside
    rw [hempty] at hpassed hreg
    have hmem : (q, f) ∈ before := by
      simpa [hreg] using mem_registrations.mpr (ha.registered h hs)
    rw [(forall₂_delivers_iff.mp hcalls).1, List.mem_map] at hmem
    obtain ⟨⟨q', f', arg⟩, hcall, heq⟩ := hmem
    obtain ⟨turn, hevent⟩ := mem_calls.mp hcall
    have houter := hexp.called.mp ⟨_, hevent, congrArg some (Prod.mk.inj heq).1⟩
    cases hcontrol : c.control with
    | handler i x j outer g =>
        obtain rfl : outer = q := by simpa [hcontrol, Control.outer?] using houter
        obtain ⟨rfl, -⟩ := hexp.running i x j g hcontrol
        simp [hcontrol, Control.passed] at hpassed
    | idle => simp [hcontrol, Control.outer?] at houter
    | turn i => simp [hcontrol, Control.outer?] at houter
    | callBack i x j => simp [hcontrol, Control.outer?] at houter
    | done exit => simp [hcontrol, Control.outer?] at houter
  · exact ⟨s₁, result, (hended s₁ result).mpr ⟨rfl, rfl⟩⟩

theorem Attached.taking {ls : List (Label V E F)} {side : Side} {p q : Ref} {f : F}
    {c : Config V E F} {s₁ : State V E F} {result : Outcome V E} (ha : Attached ls side p f q)
    (he : Ended ls p q f s₁ result) (h : RunsTo ls c) (hm : NoMismatch ls) :
    Taking p q f s₁ c result := by
  rcases ha.progress h hm with ⟨-, hended⟩ | ⟨s, result', hended, -, htaking⟩
  · exact absurd he (hended s₁ result)
  · obtain ⟨rfl, rfl⟩ := (hended s₁ result).mp he
    exact htaking

/-! ### Adoption chains -/

/-- The executor constructor made this promise, so that it has a context. -/
def Constructed (ls : List (Label V E F)) (q : Ref) : Prop :=
  ∃ before after c, ls = before ++ .op .promise :: after ∧ RunsTo before c ∧
    q = c.state.heap.length

/-- In the run of these labels `q` adopted `r`: the handler of `q` returned `r`, or `q` was
pending and was resolved with `r` through its context. -/
inductive Adopted (ls : List (Label V E F)) (q r : Ref) : Prop where
  | handler (side p f s₁) (attached : Attached ls side p f q)
      (ended : Ended ls p q f s₁ (.returned (.promise r)))
  | context (front rest c) (constructed : Constructed ls q)
      (call : ls = front ++ .op (.resolvePromise q r) :: rest) (reached : RunsTo front c)
      (pending : c.state.status? q = some .pending)

/-- After the first call through the context of `q` no other one finds `q` pending. -/
def SecondCallsIgnored (q : Ref) (ls : List (Label V E F)) : Prop :=
  ∀ front o rest c, ls = front ++ .op o :: rest → o.context? = some q →
    RunsTo (front ++ [.op o]) c → LaterCallsIgnored q c rest

theorem secondCallsIgnored_of_once {q : Ref} {ls : List (Label V E F)}
    (h : (ls.filter fun l => l.context? = some q).length ≤ 1) : SecondCallsIgnored q ls := by
  rintro front o rest c rfl ho - before l after t rfl - hl
  have hlabel : (Label.op o : Label V E F).context? = some q := ho
  simp [List.filter_append, hlabel, hl] at h
  omega

theorem Adopted.takesOver {ls : List (Label V E F)} {q r : Ref} {c : Config V E F}
    (ha : Adopted ls q r) (h : RunsTo ls c) (hm : NoMismatch ls)
    (hsecond : SecondCallsIgnored q ls) : TakesOver q r c.state := by
  cases ha with
  | handler side p f s₁ attached ended =>
      exact ((attached.taking ended h hm).takes h.queueInv).1
  | context front rest c₀ constructed call reached pending =>
      obtain ⟨before, after, ⟨s, control⟩, hls, hbefore, rfl⟩ := constructed
      have hlt : s.heap.length < c₀.state.heap.length := by
        obtain ⟨data, hdata, -⟩ := Option.map_eq_some_iff.mp pending
        exact State.lt_of_get? hdata
      rcases append_cons_eq_append_cons (hls.symm.trans call) (by simp) with
        ⟨mid, rfl, rfl⟩ | ⟨mid, rfl, -⟩
      · have hmid : ∀ l ∈ mid, l.context? ≠ some s.heap.length := by
          intro l hl hctx
          obtain ⟨m₁, m₂, rfl⟩ := List.append_of_mem hl
          cases l with
          | op o =>
              have hsplit : before ++ .op .promise :: (m₁ ++ .op o :: m₂) =
                  before ++ .op .promise :: m₁ ++ [.op o] ++ m₂ := by simp
              obtain ⟨c₁, hc₁, hrest⟩ := run_append_eq_some step (hsplit ▸ reached)
              refine hsecond (before ++ .op .promise :: m₁) o
                (m₂ ++ .op (.resolvePromise s.heap.length r) :: rest) c₁ ?_ hctx hc₁
                m₂ _ rest c₀ rfl hrest (by rfl) pending
              simp [call]
          | _ => cases hctx
        have hsplit : before ++ .op .promise :: mid ++ .op (.resolvePromise s.heap.length r) :: rest
            = before ++ .op .promise :: mid ++ [.op (.resolvePromise s.heap.length r)] ++ rest := by
          simp
        obtain ⟨c₁, hc₁, hrest⟩ := run_append_eq_some step (show run step _ _ = some c by
          rw [← hsplit, ← call]
          exact h)
        have hlater := hsecond _ _ rest c₁ call rfl hc₁
        exact FollowsWithin.takesOver (follows_of_first_call hbefore hmid hc₁ hlater hrest)
          h.queueInv
      · obtain ⟨c₁, hc₁, hrest⟩ := run_append_eq_some step hbefore
        obtain rfl := Option.some.inj (hc₁.symm.trans reached)
        have hscope : Scoped c₁ := (RunsTo.queueInv reached).scope
        exact absurd hlt (Nat.not_lt.mpr (length_le_of_run hscope hrest))

/-- In the run of these labels every promise `q k` adopted `q (k + 1)`. -/
def AdoptionChain (ls : List (Label V E F)) (n : ℕ) (q : ℕ → Ref) : Prop :=
  ∀ k < n, Adopted ls (q k) (q (k + 1))

/-- The end of a chain is reached by one pass of `promise_task`. -/
theorem AdoptionChain.status_eq {ls : List (Label V E F)} {n : ℕ} {q : ℕ → Ref}
    {s : State V E F} (hchain : AdoptionChain ls n q) (h : RunsTo ls ⟨s, .done none⟩)
    (hm : NoMismatch ls) (hsecond : ∀ k < n, SecondCallsIgnored (q k) ls) {k : ℕ} (hk : k ≤ n) :
    s.status? (q k) = s.status? (q n) := by
  induction hk using Nat.decreasingInduction with
  | self => rfl
  | of_succ k hk ih =>
      have hlink := (hchain k hk).takesOver h hm (hsecond k hk)
      rw [← ih]
      exact hlink.status_eq h.drained

/-- In every run without a handler that meets an error of another type, the handler of a derived
promise has ended when the promise it is attached to has been called back, and the derived
promise takes its result. When `promise_task` returns, a chain of adoptions has one outcome
throughout, provided that no second call through a context of the chain finds its promise
pending. -/
theorem derived_promises_take_outcome {ls : List (Label V E F)} {c : Config V E F}
    (h : RunsTo ls c) (hm : NoMismatch ls) :
    (∀ side p f q, Attached ls side p f q → c.state.SettledOn side p → c.state.CalledBack p →
      ∃ s₁ result, Ended ls p q f s₁ result) ∧
    (∀ side p f q s₁ result, Attached ls side p f q → Ended ls p q f s₁ result →
      Takes s₁ result q c.state) ∧
    ∀ n q, AdoptionChain ls n q → (∀ k < n, SecondCallsIgnored (q k) ls) →
      c.control = .done none → ∀ k ≤ n, c.state.status? (q k) = c.state.status? (q n) := by
  refine ⟨?_, ?_, ?_⟩
  · intro side p f q ha hs hb
    exact ha.ended h hm hs hb
  · intro side p f q s₁ result ha he
    exact (ha.taking he h hm).takes h.queueInv
  · intro n q hchain hsecond hdone k hk
    obtain ⟨s, control⟩ := c
    subst hdone
    exact hchain.status_eq h hm hsecond hk

/-- Promise 1 is made by `then` on promise 0, whose handler returns promise 2, and promise 2 is
resolved with promise 3. -/
def chainRun : List (Label ℕ ℕ SampleHandler) :=
  [.op .promise, .op (.then_ 0 (.plain 1)), .op .promise, .op .promise, .op (.resolvePromise 2 3),
    .op (.resolve 0 7), .promiseTask, .tau, .tau, .finish (.returned (.promise 2)), .tau, .tau,
    .resume, .op (.resolve 3 9), .promiseTask] ++ List.replicate 9 .tau

theorem derived_promises_take_outcome_sample : ∃ s : State ℕ ℕ SampleHandler,
    s.status? 3 = some (.resolved 9) ∧ s.status? 1 = s.status? 3 := by
  have hrun : (run step Config.initial chainRun).map
      (fun c => (c.control, c.state.status? 3)) = some (.done none, some (.resolved 9)) := by
    decide +kernel
  obtain ⟨⟨s, control⟩, h, heq⟩ := Option.map_eq_some_iff.mp hrun
  obtain ⟨rfl, hlast⟩ := Prod.mk.inj heq
  have hm : NoMismatch chainRun := by
    unfold NoMismatch
    decide +kernel
  have hchain : AdoptionChain chainRun 2 (fun k => k + 1) := by
    have hfirst : Adopted chainRun 1 2 := by
      have hattached : Attached chainRun .fulfilled 0 (.plain 1) 1 :=
        ⟨[.op .promise], chainRun.drop 2, _, _, rfl, rfl, rfl, by decide⟩
      obtain ⟨s₁, hended⟩ : ∃ s₁, Ended chainRun 0 1 (.plain 1) s₁ (.returned (.promise 2)) :=
        ⟨_, chainRun.take 9, chainRun.drop 10, 0, 0, rfl, rfl⟩
      exact .handler .fulfilled 0 (.plain 1) s₁ hattached hended
    have hsecond : Adopted chainRun 2 3 := by
      refine .context (chainRun.take 4) (chainRun.drop 5) _ ?_ rfl rfl rfl
      exact ⟨chainRun.take 2, chainRun.drop 3, _, rfl, rfl, rfl⟩
    intro k hk
    interval_cases k
    · exact hfirst
    · exact hsecond
  have hsecond : ∀ k < 2, SecondCallsIgnored (k + 1) chainRun := by
    intro k hk
    apply secondCallsIgnored_of_once
    decide +revert
  exact ⟨s, hlast, (derived_promises_take_outcome h hm).2.2 2 (fun k => k + 1) hchain hsecond rfl
    0 (Nat.zero_le _)⟩

/-- Promise 0 is resolved with promise 1 and that one with promise 2. A second call resolves
promise 1 with 7 before promise 2 is resolved with 8. -/
def overtakenChain : List (Label ℕ ℕ SampleHandler) :=
  [.op .promise, .op .promise, .op .promise, .op (.resolvePromise 0 1), .op (.resolvePromise 1 2),
    .op (.resolve 1 7), .op (.resolve 2 8)]

/-- Promise 0 is pending when promise 2 has settled, and the pass of `promise_task` does not
settle it with the outcome of promise 2. -/
theorem overtakenChain_differs :
    AdoptionChain overtakenChain 2 id ∧
    (run step Config.initial overtakenChain).map
        (fun c => (c.control, c.state.status? 0, c.state.status? 2)) =
      some (.idle, some .pending, some (.resolved 8)) ∧
    (run step Config.initial (overtakenChain ++ .promiseTask :: List.replicate 9 .tau)).map
        (fun c => (c.control, c.state.status? 0, c.state.status? 2)) =
      some (.done none, some (.resolved 7), some (.resolved 8)) ∧
    NoMismatch (overtakenChain ++ .promiseTask :: List.replicate 9 .tau) := by
  have hfirst : Adopted overtakenChain 0 1 := by
    refine .context (overtakenChain.take 3) (overtakenChain.drop 4) _ ?_ rfl rfl rfl
    exact ⟨[], overtakenChain.drop 1, _, rfl, rfl, rfl⟩
  have hsecond : Adopted overtakenChain 1 2 := by
    refine .context (overtakenChain.take 4) (overtakenChain.drop 5) _ ?_ rfl rfl rfl
    exact ⟨overtakenChain.take 1, overtakenChain.drop 2, _, rfl, rfl, rfl⟩
  refine ⟨?_, by decide +kernel, by decide +kernel, ?_⟩
  · intro k hk
    interval_cases k
    · exact hfirst
    · exact hsecond
  · unfold NoMismatch
    decide +kernel

end Libasync.Promise
