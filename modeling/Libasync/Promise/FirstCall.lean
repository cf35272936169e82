import Libasync.Promise.Delivery
import Libasync.Promise.Targets

/-! # Several calls through one context

A settled promise ignores every later call. A promise that has been resolved with a pending
promise is still pending itself, so that only the status field of the other one stands behind
it: as long as no second call comes before that promise has settled, the first call decides. -/

namespace Libasync.Promise

open Automaton

variable {V E F : Type*}

/-! ### Settling calls -/

theorem State.settle_of_settled {s : State V E F} {p : Ref} {status old : PromiseStatus V E}
    (h : s.status? p = some old) (hold : old ≠ .pending) : s.settle p status = s := by
  obtain ⟨data, hdata, rfl⟩ := Option.map_eq_some_iff.mp h
  cases hstatus : data.status with
  | pending => exact absurd hstatus hold
  | resolved v => simp [State.settle, hdata, hstatus]
  | rejected e => simp [State.settle, hdata, hstatus]

theorem State.settle_status? {s : State V E F} {p : Ref} (status : PromiseStatus V E)
    (h : s.status? p = some .pending) : (s.settle p status).status? p = some status := by
  obtain ⟨data, hdata, hstatus⟩ := Option.map_eq_some_iff.mp h
  simp [State.settle, State.status?, hdata, hstatus]

/-- Taking over the outcome of a settled promise copies it: the stored error is not wrapped a
second time. -/
theorem State.adoptStatus_status? {s : State V E F} {p : Ref} {status : PromiseStatus V E}
    (h : s.status? p = some .pending) (hstatus : status ≠ .pending) :
    (s.adoptStatus p status).status? p = some status := by
  cases status with
  | pending => exact absurd rfl hstatus
  | resolved v => exact s.settle_status? _ h
  | rejected e => exact s.settle_status? _ h

theorem State.associateStatus_eq {s : State V E F} {p inner : Ref} {data : PromiseData V E F}
    (hinner : s.get? inner = some data) (hdata : data.status ≠ .pending) :
    s.associateStatus p inner = s.adoptStatus p data.status := by
  cases hstatus : data.status with
  | pending => exact absurd hstatus hdata
  | resolved v => simp [State.associateStatus, State.adoptStatus, hinner, hstatus]
  | rejected e => simp [State.associateStatus, State.adoptStatus, hinner, hstatus]

/-- A call through the context of a settled promise does nothing. -/
theorem State.perform_of_settled [Blank V] {s : State V E F} {o : Op V E F} {p : Ref}
    {status : PromiseStatus V E} (ho : o.context? = some p) (h : s.status? p = some status)
    (hstatus : status ≠ .pending) : s.perform o = s := by
  cases o with
  | resolve q v =>
      obtain rfl := Option.some.inj ho
      exact settle_of_settled h hstatus
  | reject q e =>
      obtain rfl := Option.some.inj ho
      exact settle_of_settled h hstatus
  | resolvePromise q inner =>
      obtain rfl := Option.some.inj ho
      obtain ⟨data, hdata, rfl⟩ := Option.map_eq_some_iff.mp h
      cases hs : data.status with
      | pending => exact absurd hs hstatus
      | resolved v => simp [State.perform, State.resolvePromiseImpl, hdata, hs]
      | rejected e => simp [State.perform, State.resolvePromiseImpl, hdata, hs]
  | promise => cases ho
  | resolved v => cases ho
  | resolvedVoid => cases ho
  | rejected e => cases ho
  | rejectedVoid e => cases ho
  | then_ q f => cases ho
  | catch_ q f => cases ho

/-! ### Following another promise -/

/-- A later cell of the same promise. -/
structure Grown (data data' : PromiseData V E F) : Prop where
  status : data.status = .pending ∨ data'.status = data.status
  wrappers : ∀ side, data.wrappers side <+: data'.wrappers side

theorem Changes.grown {T : Ref → Prop} {s t : State V E F} (h : Changes T s t) {q : Ref}
    {data : PromiseData V E F} (hget : s.get? q = some data) :
    ∃ data', t.get? q = some data' ∧ Grown data data' := by
  refine h.induct (I := fun u => ∃ data', u.get? q = some data' ∧ Grown data data') ?_
    ⟨data, hget, .inr rfl, fun _ => List.prefix_rfl⟩
  rintro u v ⟨mid, hmid, hstatus, hwrappers⟩ hc
  obtain ⟨data', hget', hcell⟩ := hc.cell hmid
  refine ⟨data', hget', ?_, ?_⟩
  · rcases hcell.status with hs | ⟨-, hpending⟩
    · exact hstatus.imp_right hs.trans
    · exact .inl (hstatus.elim id fun h => h ▸ hpending)
  · intro side
    obtain ⟨pushed, heq, -⟩ := hcell.wrappers side
    exact (hwrappers side).trans (heq ▸ List.prefix_append _ _)

/-- The internal callback that settles `p` is still ahead in each list of `inner` that can
become due. -/
def AdoptAhead (p inner : Ref) (n : ℕ) (s : State V E F) : Prop :=
  ∃ data, s.get? inner = some data ∧
    ∀ side, data.status = .pending ∨ data.status.side? = some side →
      .adopt p ∈ (data.wrappers side).drop n

/-- `p` takes over the outcome of `inner`: it has done so, or it is pending and the callback that
will do it is ahead. -/
def Follows (p inner : Ref) (c : Config V E F) : Prop :=
  (Unsettled p (fun x _ w => x = inner ∧ w = .adopt p) c ∧
    AdoptAhead p inner (c.control.passed inner) c.state) ∨
  ∃ status, status ≠ .pending ∧ c.state.status? p = some status ∧
    c.state.status? inner = some status

/-- The same while wrappers that target `p` also stand in other places among `R`. -/
def FollowsWithin (R : Ref → Side → Wrapper F → Prop) (p inner : Ref) (c : Config V E F) : Prop :=
  (Unsettled p R c ∧ AdoptAhead p inner (c.control.passed inner) c.state) ∨
  ∃ status, status ≠ .pending ∧ c.state.status? p = some status ∧
    c.state.status? inner = some status

theorem AdoptAhead.changes {T : Ref → Prop} {s t : State V E F} {p inner : Ref} {n : ℕ}
    (h : AdoptAhead p inner n s) (hc : Changes T s t) : AdoptAhead p inner n t := by
  obtain ⟨data, hdata, hmem⟩ := h
  obtain ⟨data', hdata', hstatus, hwrappers⟩ := hc.grown hdata
  refine ⟨data', hdata', ?_⟩
  intro side hside
  obtain ⟨pushed, heq⟩ := hwrappers side
  have hold : .adopt p ∈ (data.wrappers side).drop n := by
    refine hmem side ?_
    rcases hstatus with hs | hs
    · exact .inl hs
    · rwa [hs] at hside
  have hle : n ≤ (data.wrappers side).length := by
    by_contra hlt
    simp [List.drop_eq_nil_of_le (Nat.le_of_lt (Nat.lt_of_not_le hlt))] at hold
  rw [← heq, List.drop_append_of_le_length hle]
  exact List.mem_append_left _ hold

theorem AdoptAhead.record {s : State V E F} {p inner : Ref} {n : ℕ}
    (h : AdoptAhead p inner n s) (e : Event V E F) : AdoptAhead p inner n (s.record e) := h

theorem AdoptAhead.restart {s : State V E F} {p inner : Ref} {n : ℕ}
    (h : AdoptAhead p inner n s) : AdoptAhead p inner 0 s := by
  obtain ⟨data, hdata, hmem⟩ := h
  exact ⟨data, hdata, fun side hside => List.mem_of_mem_drop (hmem side hside)⟩

/-- A wrapper that is another one has its turn. -/
theorem AdoptAhead.pass {s : State V E F} {p inner : Ref} {n : ℕ} {data : PromiseData V E F}
    {w : Wrapper F} (h : AdoptAhead p inner n s) (hget : s.get? inner = some data)
    (hdue : data.due[n]? = some w) (hw : w ≠ .adopt p) : AdoptAhead p inner (n + 1) s := by
  obtain ⟨cell, hcell, hmem⟩ := h
  obtain rfl : data = cell := Option.some.inj (hget.symm.trans hcell)
  cases hside : data.status.side? with
  | none => simp [PromiseData.due, hside] at hdue
  | some settled =>
      rw [PromiseData.due_of_side hside] at hdue
      refine ⟨data, hget, ?_⟩
      intro side hopen
      have hsame : settled = side := by
        rcases hopen with hpending | hopen
        · simp [hpending, PromiseStatus.side?] at hside
        · exact Option.some.inj (hside.symm.trans hopen)
      subst hsame
      obtain ⟨hlt, hentry⟩ := List.getElem?_eq_some_iff.mp hdue
      have hold := hmem settled (.inr hside)
      rw [List.drop_eq_getElem_cons hlt, hentry, List.mem_cons] at hold
      exact hold.resolve_left (Ne.symm hw)

/-- The end of `call_back` is not reached while the callback is ahead. -/
theorem AdoptAhead.not_finished {s : State V E F} {p inner : Ref} {n : ℕ}
    {data : PromiseData V E F} (h : AdoptAhead p inner n s) (hget : s.get? inner = some data)
    (hsettled : data.status ≠ .pending) : data.due[n]? ≠ none := by
  obtain ⟨cell, hcell, hmem⟩ := h
  obtain rfl : data = cell := Option.some.inj (hget.symm.trans hcell)
  cases hside : data.status.side? with
  | none => exact absurd (PromiseStatus.side?_eq_none.mp hside) hsettled
  | some side =>
      intro hdue
      rw [PromiseData.due_of_side hside, List.getElem?_eq_none_iff] at hdue
      simpa [List.drop_eq_nil_of_le hdue] using hmem side (.inr hside)

variable [Blank V] [FnTrait F E]

theorem Step.adopts {s : State V E F} {i j : ℕ} {x outer : Ref} {data : PromiseData V E F}
    {l : Label V E F} {c' : Config V E F} (h : Step ⟨s, .callBack i x j⟩ l c')
    (hget : s.get? x = some data) (hdue : data.due[j]? = some (.adopt outer)) :
    c' = ⟨s.adoptStatus outer data.status, .callBack i x (j + 1)⟩ := by
  cases h with
  | op s control o user known => exact user.elim
  | adopted s i x j cell outer' get due =>
      obtain rfl := Option.some.inj (get.symm.trans hget)
      obtain rfl := Wrapper.adopt.inj (Option.some.inj (due.symm.trans hdue))
      rfl
  | called s i x j cell outer' f arg get due arg_eq =>
      obtain rfl := Option.some.inj (get.symm.trans hget)
      simp [hdue] at due
  | mismatch s i x j cell outer' f e get due arg_eq =>
      obtain rfl := Option.some.inj (get.symm.trans hget)
      simp [hdue] at due
  | finished s i x j cell get due =>
      obtain rfl := Option.some.inj (get.symm.trans hget)
      simp [hdue] at due

/-- While `p` stays pending, the callback that will settle it stays ahead. -/
theorem Step.adoptAhead {c c' : Config V E F} {l : Label V E F} {p inner : Ref}
    (h : Step c l c') (hq : QueueInv c) (hp : c.state.status? p = some .pending)
    (hp' : c'.state.status? p = some .pending)
    (ha : AdoptAhead p inner (c.control.passed inner) c.state) :
    AdoptAhead p inner (c'.control.passed inner) c'.state := by
  cases h with
  | op s control o user known => exact ha.changes (s.perform_changes o)
  | start s => exact ha
  | next s i x entry => simpa [Control.passed] using ha
  | clear s i entry => exact ha
  | adopted s i x j data outer get due =>
      have hsettled : data.status ≠ .pending := by
        intro hpending
        simp [PromiseData.due_of_pending hpending] at due
      have hne : outer ≠ p := by
        rintro rfl
        have hadopt := s.adoptStatus_status? hp hsettled
        exact hsettled (Option.some.inj (hadopt.symm.trans hp'))
      refine AdoptAhead.changes ?_
        (s.adoptStatus_changes (T := (· = outer)) outer data.status rfl)
      by_cases hx : inner = x
      · subst hx
        have ha' : AdoptAhead p inner j s := by simpa [Control.passed] using ha
        simpa [Control.passed] using ha'.pass get due (by simpa using hne)
      · simpa [Control.passed, hx] using ha
  | called s i x j data outer f arg get due arg_eq =>
      by_cases hx : inner = x
      · subst hx
        have ha' : AdoptAhead p inner j s := by simpa [Control.passed] using ha
        simpa [Control.passed] using (ha'.pass get due (by simp)).record _
      · simpa [Control.passed, hx] using ha.record _
  | mismatch s i x j data outer f e get due arg_eq => exact ha.restart
  | finished s i x j data get due =>
      obtain ⟨cell, hcell, hmem⟩ := ha
      by_cases hx : inner = x
      · subst hx
        obtain ⟨old, hold, hsettled⟩ :=
          hq.queued.settled inner (List.mem_of_getElem? (hq.current inner rfl))
        obtain rfl : data = old := Option.some.inj (get.symm.trans hold)
        have ha' : AdoptAhead p inner j s := ⟨cell, hcell, by simpa [Control.passed] using hmem⟩
        exact absurd due (ha'.not_finished get hsettled)
      · refine ⟨cell, by simpa [State.finishCallBack, hx] using hcell, ?_⟩
        simpa [Control.passed, hx] using hmem
  | returned s i x j outer f result known =>
      exact AdoptAhead.changes ha
        (s.finishHandler_changes f result (hq.scope.outer i x j outer f rfl))
  | resume s exit => exact ha

/-- A pending promise stays so, or its turn in a list of `inner` copies the outcome of `inner`, when
no wrapper in another place is invoked. -/
theorem Step.kept_or_copies {c c' : Config V E F} {l : Label V E F} {p inner : Ref}
    {R : Ref → Side → Wrapper F → Prop} (h : Step c l c') (hq : QueueInv c)
    (hu : Unsettled p R c) (hl : l.context? ≠ some p)
    (hplace : ∀ i x j data side w, Invokes p R c i x j data side w → x = inner ∧ w = .adopt p) :
    Unsettled p R c' ∨ ∃ status, status ≠ .pending ∧ c.state.status? inner = some status ∧
      c'.state.status? p = some status := by
  rcases h.kept_or_invokes hq.scope hu hl with hkept | ⟨i, x, j, data, side, w, hinvokes⟩
  · exact .inl (hkept.unsettled hu)
  · right
    obtain ⟨rfl, rfl⟩ := hplace i x j data side w hinvokes
    obtain ⟨hcontrol, hget, hdue, hside, -, -⟩ := hinvokes
    obtain ⟨s, control⟩ := c
    subst hcontrol
    have hsettled : data.status ≠ .pending := by
      intro hpending
      simp [hpending, PromiseStatus.side?] at hside
    have hinner : s.status? x = some data.status := by simp [State.status?, hget]
    obtain rfl := h.adopts hget hdue
    exact ⟨data.status, hsettled, hinner, s.adoptStatus_status? hu.pending hsettled⟩

/-- Nothing but its turn in a list of `inner` settles `p`, when no wrapper in another place is
invoked. -/
theorem FollowsWithin.step {c c' : Config V E F} {l : Label V E F} {p inner : Ref}
    {R : Ref → Side → Wrapper F → Prop} (h : FollowsWithin R p inner c) (hq : QueueInv c)
    (hl : l.context? = some p → c.state.status? p ≠ some .pending)
    (hplace : ∀ i x j data side w, Invokes p R c i x j data side w → x = inner ∧ w = .adopt p)
    (hstep : Step c l c') : FollowsWithin R p inner c' := by
  rcases h with ⟨hu, ha⟩ | ⟨status, hne, hp, hinner⟩
  · have hctx : l.context? ≠ some p := fun hctx => hl hctx hu.pending
    rcases hstep.kept_or_copies hq hu hctx hplace with hu' | ⟨status, hne, hinner, hp'⟩
    · exact .inl ⟨hu', hstep.adoptAhead hq hu.pending hu'.pending ha⟩
    · exact .inr ⟨status, hne, hp', hstep.settled_status hq.scope hinner hne⟩
  · exact .inr ⟨status, hne, hstep.settled_status hq.scope hp hne,
      hstep.settled_status hq.scope hinner hne⟩

/-- What settles a promise that follows another one is the outcome of that one. -/
theorem FollowsWithin.settled {c c' : Config V E F} {l : Label V E F} {p inner : Ref}
    {R : Ref → Side → Wrapper F → Prop} {status : PromiseStatus V E}
    (h : FollowsWithin R p inner c) (hq : QueueInv c) (hl : l.context? ≠ some p)
    (hplace : ∀ i x j data side w, Invokes p R c i x j data side w → x = inner ∧ w = .adopt p)
    (hstep : Step c l c') (hp : c'.state.status? p = some status) (hne : status ≠ .pending) :
    c.state.status? inner = some status := by
  rcases h with ⟨hu, -⟩ | ⟨old, hold, hbefore, hinner⟩
  · rcases hstep.kept_or_copies hq hu hl hplace with hu' | ⟨copied, -, hinner, hp'⟩
    · exact absurd (Option.some.inj (hp.symm.trans hu'.pending)) hne
    · rw [hinner, ← hp', hp]
  · rw [hinner, ← hstep.settled_status hq.scope hbefore hold, hp]

theorem Follows.step {c c' : Config V E F} {l : Label V E F} {p inner : Ref}
    (h : Follows p inner c) (hq : QueueInv c)
    (hl : l.context? = some p → c.state.status? p ≠ some .pending) (hstep : Step c l c') :
    Follows p inner c' :=
  FollowsWithin.step h hq hl (fun _ _ _ _ _ _ hinvokes => hinvokes.place) hstep

theorem Follows.settled {c c' : Config V E F} {l : Label V E F} {p inner : Ref}
    {status : PromiseStatus V E} (h : Follows p inner c) (hq : QueueInv c)
    (hl : l.context? ≠ some p) (hstep : Step c l c') (hp : c'.state.status? p = some status)
    (hne : status ≠ .pending) : c.state.status? inner = some status :=
  FollowsWithin.settled h hq hl (fun _ _ _ _ _ _ hinvokes => hinvokes.place) hstep hp hne

section Associate

omit [Blank V] [FnTrait F E]

theorem State.TargetedOnly.associate {s : State V E F} {p inner : Ref}
    {R : Ref → Side → Wrapper F → Prop} (h : s.TargetedOnly p R) :
    (s.update inner fun data =>
        (data.pushWrapper .fulfilled (.adopt p)).pushWrapper .rejected (.adopt p)).TargetedOnly p
      fun x side w => R x side w ∨ x = inner ∧ w = .adopt p := by
  intro x data side w hget hw htarget
  rw [State.get?_update] at hget
  split at hget
  · rename_i hx
    obtain ⟨before, hbefore, rfl⟩ := Option.map_eq_some_iff.mp hget
    rw [PromiseData.wrappers_pushWrapper, PromiseData.wrappers_pushWrapper] at hw
    have hmem : w ∈ before.wrappers side ∨ w = .adopt p := by
      cases side <;> simpa using hw
    exact hmem.imp (fun hmem => h x before side w hbefore hmem htarget) fun hmem => ⟨hx, hmem⟩
  · exact .inl (h x data side w hget hw htarget)

/-- A promise that is associated with another one follows it from then on. -/
theorem followsWithin_of_associate {s : State V E F} {control : Control F E} {p inner : Ref}
    {R : Ref → Side → Wrapper F → Prop} (ht : s.TargetedOnly p R)
    (hpending : s.status? p = some .pending) (hinner : inner < s.heap.length)
    (houter : control.outer? ≠ some p)
    (hpassed : s.status? inner = some .pending → control.passed inner = 0) :
    FollowsWithin (fun x side w => R x side w ∨ x = inner ∧ w = .adopt p) p inner
      (⟨s.associateStatus p inner, control⟩ : Config V E F) := by
  obtain ⟨data, hdata⟩ : ∃ data, s.get? inner = some data := ⟨_, List.getElem?_eq_getElem hinner⟩
  obtain ⟨cell, hcell, hcellpending⟩ := Option.map_eq_some_iff.mp hpending
  by_cases hstatus : data.status = .pending
  · left
    have hassociate : s.associateStatus p inner = s.update inner fun data =>
        (data.pushWrapper .fulfilled (.adopt p)).pushWrapper .rejected (.adopt p) := by
      simp [State.associateStatus, hdata, hstatus]
    rw [hassociate]
    refine ⟨⟨by simpa using State.lt_of_get? hcell, ht.associate, houter, ?_⟩, ?_⟩
    · by_cases hp : p = inner
      · simp [State.status?, hp, hdata, hstatus]
      · simpa [State.status?, hp] using hpending
    · have hzero : control.passed inner = 0 :=
        hpassed (by simp [State.status?, hdata, hstatus])
      refine ⟨_, by simp [hdata]; rfl, ?_⟩
      intro side _
      rw [hzero, PromiseData.wrappers_pushWrapper, PromiseData.wrappers_pushWrapper]
      cases side <;> simp
  · right
    have hp : s.status? inner = some data.status := by simp [State.status?, hdata]
    rw [State.associateStatus_eq hdata hstatus]
    have hchanges := s.adoptStatus_changes (T := (· = p)) p data.status rfl
    exact ⟨data.status, hstatus, s.adoptStatus_status? hpending hstatus,
      hchanges.status_eq hp (.inl hstatus)⟩

/-- The `call_back` of a pending promise is not running. -/
theorem QueueInv.passed_of_pending {s : State V E F} {control : Control F E} {x : Ref}
    (hq : QueueInv ⟨s, control⟩) (hx : s.status? x = some .pending) : control.passed x = 0 := by
  have hne : ∀ y, control.current? = some y → x ≠ y := by
    rintro y hcur rfl
    obtain ⟨old, hold, hsettled⟩ :=
      hq.queued.settled x (List.mem_of_getElem? (hq.current x hcur))
    obtain ⟨data, hdata, hpending⟩ := Option.map_eq_some_iff.mp hx
    obtain rfl : data = old := Option.some.inj (hdata.symm.trans hold)
    exact hsettled hpending
  cases control with
  | callBack i y j => simp [Control.passed, hne y rfl]
  | handler i y j outer f => simp [Control.passed, hne y rfl]
  | idle => rfl
  | turn i => rfl
  | done exit => rfl

theorem FollowsWithin.mono {R R' : Ref → Side → Wrapper F → Prop} {p inner : Ref}
    {c : Config V E F} (h : FollowsWithin R p inner c) (hR : ∀ x side w, R x side w → R' x side w) :
    FollowsWithin R' p inner c :=
  h.imp_left fun ⟨hu, ha⟩ => ⟨⟨hu.known,
    fun x data side w hx hw ht => hR x side w (hu.targets x data side w hx hw ht), hu.outer,
    hu.pending⟩, ha⟩

/-- The state in which the following begins: `p` has just been resolved with `inner`. -/
theorem follows_of_resolvePromise {s : State V E F} {control : Control F E} {p inner : Ref}
    (hq : QueueInv ⟨s, control⟩) (hu : Unsettled p (fun _ _ _ => False) ⟨s, control⟩)
    (hinner : inner < s.heap.length) :
    Follows p inner (⟨s.resolvePromiseImpl p inner, control⟩ : Config V E F) := by
  obtain ⟨cell, hcell, hpending⟩ := Option.map_eq_some_iff.mp hu.pending
  have hresolve : s.resolvePromiseImpl p inner = s.associateStatus p inner := by
    simp [State.resolvePromiseImpl, hcell, hpending]
  rw [hresolve]
  exact (followsWithin_of_associate hu.targets hu.pending hinner hu.outer
    hq.passed_of_pending).mono fun _ _ _ hplace => hplace.resolve_left not_false

end Associate

/-! ### The first call -/

/-- What the first call through the context of `p` has decided. -/
def Decided (o : Op V E F) (p : Ref) (c : Config V E F) : Prop :=
  match o with
  | .resolve _ v => c.state.status? p = some (.resolved v)
  | .reject _ e => c.state.status? p = some (.rejected (eptrMake e))
  | .resolvePromise _ inner =>
      (c.state.status? inner = some .pending → c.state.status? p = some .pending) ∧
        (c.state.status? p ≠ some .pending → c.state.status? p = c.state.status? inner) ∧
        (c.control = .done none → c.state.status? p = c.state.status? inner)
  | _ => True

omit [Blank V] [FnTrait F E] in
theorem Follows.decided {c : Config V E F} {p inner : Ref} (h : Follows p inner c)
    (hdrained : c.control = .done none → Drained c.state) :
    Decided (.resolvePromise p inner) p c := by
  rcases h with ⟨hu, data, hdata, hmem⟩ | ⟨status, hne, hp, hinner⟩
  · refine ⟨fun _ => hu.pending, fun hp => absurd hu.pending hp, ?_⟩
    intro hdone
    cases hstatus : data.status.side? with
    | none =>
        rw [hu.pending]
        simp [State.status?, hdata, PromiseStatus.side?_eq_none.mp hstatus]
    | some side =>
        have hsettled : data.status ≠ .pending := by
          intro hpending
          simp [hpending, PromiseStatus.side?] at hstatus
        have hempty := (hdrained hdone).waiting inner data side hdata hsettled
        simpa [hempty] using hmem side (.inr hstatus)
  · refine ⟨?_, fun _ => hp.trans hinner.symm, fun _ => hp.trans hinner.symm⟩
    intro hpending
    exact absurd (Option.some.inj (hinner.symm.trans hpending)) hne

/-- Before its first call a promise made by the constructor waits for that call only. -/
theorem unsettled_of_promise {before mid : List (Label V E F)} {s : State V E F}
    {control : Control F E} {c : Config V E F} (hbefore : RunsTo before ⟨s, control⟩)
    (hmid : ∀ l ∈ mid, l.context? ≠ some s.heap.length)
    (h : RunsTo (before ++ .op .promise :: mid) c) :
    Unsettled s.heap.length (fun _ _ _ => False) c := by
  obtain ⟨c₀, hc₀, hrest⟩ := run_append_eq_some step h
  obtain rfl := Option.some.inj (hc₀.symm.trans hbefore)
  obtain ⟨c₁, hc₁, hrest⟩ := run_cons_eq_some step hrest
  have hscope : Scoped (⟨s, control⟩ : Config V E F) := hbefore.queueInv.scope
  have hscope₁ : Scoped c₁ := hscope.step (.of_step hc₁)
  have hc₁eq : c₁ = ⟨s.create.1, control⟩ := by
    cases Step.of_step hc₁ with
    | op s control o user known => rfl
  subst hc₁eq
  have hbase : Unsettled s.heap.length (fun _ _ _ => False)
      (⟨s.create.1, control⟩ : Config V E F) :=
    unsettled_of_created hscope (Nat.le_refl _) (by simp [State.status?, State.create])
      (hscope.state.alloc_not_targeted .pending (Nat.le_refl _))
  have hguard : EachStep step (fun _ l => l.context? ≠ some s.heap.length)
      (⟨s.create.1, control⟩ : Config V E F) mid := by
    rintro front l rest t rfl -
    exact hmid l (by simp)
  refine (run_invariant (I := fun c : Config V E F => Scoped c ∧
    Unsettled s.heap.length (fun _ _ _ => False) c) ?_ ⟨hscope₁, hbase⟩ hguard hrest).2
  rintro c l c' ⟨hc, hu⟩ hl hcl
  refine ⟨hc.step (.of_step hcl), ?_⟩
  rcases (Step.of_step hcl).kept_or_invokes hc hu hl with hkept | hinvokes
  · exact hkept.unsettled hu
  · obtain ⟨i, x, j, data, side, w, hinv⟩ := hinvokes
    exact hinv.place.elim

/-- In the rest of the run no call through the context of `p` finds `p` pending. -/
def LaterCallsIgnored (p : Ref) (c : Config V E F) (ls : List (Label V E F)) : Prop :=
  EachStep step (fun c l => l.context? = some p → c.state.status? p ≠ some .pending) c ls

/-- A promise that its first call resolves with another one follows that one. -/
theorem follows_of_first_call {before mid post : List (Label V E F)} {s : State V E F}
    {control : Control F E} {inner : Ref} {c c' : Config V E F}
    (hbefore : RunsTo before ⟨s, control⟩)
    (hmid : ∀ l ∈ mid, l.context? ≠ some s.heap.length)
    (hfirst : RunsTo
      (before ++ .op .promise :: mid ++ [.op (.resolvePromise s.heap.length inner)]) c)
    (hlater : LaterCallsIgnored s.heap.length c post) (h : run step c post = some c') :
    Follows s.heap.length inner c' := by
  obtain ⟨c₀, hc₀, hrest⟩ := run_append_eq_some step hfirst
  have hu := unsettled_of_promise hbefore hmid hc₀
  have hq₀ : QueueInv c₀ := RunsTo.queueInv hc₀
  obtain ⟨c₁, hc₁, hrest⟩ := run_cons_eq_some step hrest
  obtain rfl := Option.some.inj hrest
  have hbase : Follows s.heap.length inner c₁ := by
    cases Step.of_step hc₁ with
    | op s₀ control₀ o user known =>
        exact follows_of_resolvePromise hq₀ hu (State.lt_of_has known (by simp [Op.refs]))
  refine (run_invariant (I := fun c : Config V E F => QueueInv c ∧
    Follows s.heap.length inner c) ?_ ⟨RunsTo.queueInv hfirst, hbase⟩ hlater h).2
  rintro c l c' ⟨hq, hf⟩ hl hcl
  exact ⟨hq.step (.of_step hcl), hf.step hq hl (.of_step hcl)⟩

/-- The later calls do nothing: the run without them ends in the same configuration. -/
theorem run_without_later_calls {p : Ref} {c c' : Config V E F} {ls : List (Label V E F)}
    (hlater : LaterCallsIgnored p c ls) (h : run step c ls = some c') :
    run step c (ls.filter fun l => l.context? ≠ some p) = some c' := by
  refine run_filter ?_ h
  intro front l rest t hls ht hkeep
  have hctx : l.context? = some p := by simpa using hkeep
  have hguard := hlater front l rest t hls ht hctx
  obtain ⟨u, hu, -⟩ := run_append_eq_some step (hls ▸ h)
  obtain rfl := Option.some.inj (hu.symm.trans ht)
  obtain ⟨v, hv, -⟩ := run_cons_eq_some step (show run step u (l :: rest) = some c' by
    rw [hls, run_append, hu] at h
    exact h)
  rw [hv]
  cases Step.of_step hv with
  | op s control o user known =>
      have hlt : p < s.heap.length := State.lt_of_has known (Op.context_mem_refs hctx)
      obtain ⟨data, hdata⟩ : ∃ data, s.get? p = some data := ⟨_, List.getElem?_eq_getElem hlt⟩
      have hstatus : s.status? p = some data.status := by simp [State.status?, hdata]
      have hsettled : data.status ≠ .pending := by
        intro hpending
        exact hguard (hpending ▸ hstatus)
      rw [State.perform_of_settled hctx hstatus hsettled]
  | start => cases hctx
  | next => cases hctx
  | clear => cases hctx
  | adopted => cases hctx
  | called => cases hctx
  | mismatch => cases hctx
  | finished => cases hctx
  | returned => cases hctx
  | resume => cases hctx

/-- The first call through a context decides in every run in which no later call finds the
promise pending, and the later calls could be left out. -/
theorem first_call_decides {before mid post : List (Label V E F)} {s : State V E F}
    {control : Control F E} {o : Op V E F} {c c' : Config V E F}
    (hbefore : RunsTo before ⟨s, control⟩)
    (hmid : ∀ l ∈ mid, l.context? ≠ some s.heap.length) (ho : o.context? = some s.heap.length)
    (hfirst : RunsTo (before ++ .op .promise :: mid ++ [.op o]) c)
    (hlater : LaterCallsIgnored s.heap.length c post) (h : run step c post = some c') :
    Decided o s.heap.length c' ∧
      run step c (post.filter fun l => l.context? ≠ some s.heap.length) = some c' := by
  refine ⟨?_, run_without_later_calls hlater h⟩
  obtain ⟨c₀, hc₀, hrest⟩ := run_append_eq_some step hfirst
  have hu := unsettled_of_promise hbefore hmid hc₀
  have hq₀ : QueueInv c₀ := RunsTo.queueInv hc₀
  obtain ⟨c₁, hc₁, hrest⟩ := run_cons_eq_some step hrest
  obtain rfl : c₁ = c := Option.some.inj hrest
  have hrun : RunsTo (before ++ .op .promise :: mid ++ [.op o] ++ post) c' := by
    unfold RunsTo
    rw [run_append, show run step Config.initial _ = some c₁ from hfirst]
    exact h
  have hq₁ : QueueInv c₁ := RunsTo.queueInv hfirst
  have hkeep : ∀ status, status ≠ .pending → c₁.state.status? s.heap.length = some status →
      c'.state.status? s.heap.length = some status := by
    intro status hne hstatus
    refine (run_invariant_of_step (I := fun c : Config V E F => Scoped c ∧
      c.state.status? s.heap.length = some status) ?_ ⟨hq₁.scope, hstatus⟩ h).2
    rintro c l c' ⟨hc, hI⟩ hcl
    exact ⟨hc.step (.of_step hcl), (Step.of_step hcl).settled_status hc hI hne⟩
  cases Step.of_step hc₁ with
  | op s₀ control₀ o user known =>
      cases o with
      | resolve p v =>
          obtain rfl := Option.some.inj ho
          exact hkeep _ (by simp) (s₀.settle_status? _ hu.pending)
      | reject p e =>
          obtain rfl := Option.some.inj ho
          exact hkeep _ (by simp) (s₀.settle_status? _ hu.pending)
      | resolvePromise p inner =>
          obtain rfl := Option.some.inj ho
          have hfollows := follows_of_first_call hbefore hmid hfirst hlater h
          refine hfollows.decided ?_
          intro hdone
          obtain ⟨state, control'⟩ := c'
          subst hdone
          exact hrun.drained
      | promise => cases ho
      | resolved v => cases ho
      | resolvedVoid => cases ho
      | rejected e => cases ho
      | rejectedVoid e => cases ho
      | then_ p f => cases ho
      | catch_ p f => cases ho

/-- Promise 0 is resolved with the pending promise 1, and once more when both have settled. -/
theorem first_call_decides_sample : ∃ c' : Config ℕ ℕ SampleHandler,
    Decided (.resolvePromise 0 1) 0 c' := by
  let post : List (Label ℕ ℕ SampleHandler) :=
    [.op (.resolve 1 8), .promiseTask, .tau, .tau, .tau, .tau, .tau, .tau, .resume,
      .op (.resolve 0 9)]
  obtain ⟨c, hfirst, hlater, c', h⟩ : ∃ c,
      RunsTo ([] ++ .op .promise :: [.op .promise] ++ [.op (.resolvePromise 0 1)]) c ∧
        LaterCallsIgnored 0 c post ∧ ∃ c', run step c post = some c' := by
    refine ⟨_, rfl, ?_, _, rfl⟩
    unfold LaterCallsIgnored
    decide +kernel
  have hbefore : RunsTo [] (⟨{}, .idle⟩ : Config ℕ ℕ SampleHandler) := rfl
  exact ⟨c', (first_call_decides hbefore (by decide) rfl hfirst hlater h).1⟩

/-- Promise 0 is resolved with the pending promise 1, a later call resolves it with 7, and then
promise 1 is resolved with 8. -/
def overtakenRun (later : List (Label ℕ ℕ SampleHandler)) : List (Label ℕ ℕ SampleHandler) :=
  [.op .promise, .op .promise, .op (.resolvePromise 0 1)] ++ later ++
    [.op (.resolve 1 8), .promiseTask, .tau, .tau, .tau, .tau, .tau, .tau]

/-- The later call decides: the outcome is neither that of promise 1 nor that of the run without
the later call. -/
theorem overtakenRun_second_call_decides :
    (Automaton.run step Config.initial (overtakenRun [.op (.resolve 0 7)])).map
        (fun c => (c.control, c.state.status? 0, c.state.status? 1)) =
      some (.done none, some (.resolved 7), some (.resolved 8)) ∧
    (Automaton.run step Config.initial (overtakenRun [])).map
        (fun c => (c.control, c.state.status? 0, c.state.status? 1)) =
      some (.done none, some (.resolved 8), some (.resolved 8)) := by
  decide +kernel

end Libasync.Promise
