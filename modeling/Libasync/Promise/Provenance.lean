import Libasync.Promise.Derived

/-! # Where outcomes come from

A promise has the outcome that a constructor, a call through its context or the end of its handler
gave it, or it has taken over the outcome of a promise that it was made to follow. The module
invents no value and changes no error. -/

namespace Libasync.Promise

open Automaton

variable {V E F : Type*}

/-! ### A closed account of outcomes -/

/-- An account that holds promises to outcomes, and is closed under the following relation. -/
structure Account (V E : Type*) where
  gives : Ref → PromiseStatus V E → Prop
  follows : Ref → Ref → Prop
  closed : ∀ p q status, follows p q → gives q status → gives p status

/-- Every outcome in the heap is accounted for, and so is every internal callback. -/
structure State.Explained (s : State V E F) (A : Account V E) : Prop where
  outcome : ∀ p data, s.get? p = some data → data.status ≠ .pending → A.gives p data.status
  callback : ∀ q data side p, s.get? q = some data → .adopt p ∈ data.wrappers side → A.follows p q

namespace State.Explained

variable {s : State V E F} {A : Account V E}

theorem alloc (h : s.Explained A) {status : PromiseStatus V E}
    (hstatus : status ≠ .pending → A.gives s.heap.length status) :
    (s.alloc { status }).1.Explained A := by
  refine ⟨?_, ?_⟩
  · intro p data hget hne
    rw [State.get?_alloc] at hget
    split at hget
    · rename_i hp
      obtain rfl := Option.some.inj hget
      exact hp ▸ hstatus hne
    · exact h.outcome p data hget hne
  · intro q data side p hget hmem
    rw [State.get?_alloc] at hget
    split at hget
    · obtain rfl := Option.some.inj hget
      cases side <;> cases hmem
    · exact h.callback q data side p hget hmem

theorem create (h : s.Explained A) : s.create.1.Explained A :=
  h.alloc fun hne => absurd rfl hne

/-- An update of one cell that gives it no other outcome. -/
theorem update (h : s.Explained A) {p : Ref} {f : PromiseData V E F → PromiseData V E F}
    (hstatus : ∀ data, s.get? p = some data → (f data).status ≠ .pending →
      (f data).status = data.status ∨ A.gives p (f data).status)
    (hwrappers : ∀ data side q, s.get? p = some data → .adopt q ∈ (f data).wrappers side →
      .adopt q ∈ data.wrappers side ∨ A.follows q p) : (s.update p f).Explained A := by
  refine ⟨?_, ?_⟩
  · intro q data hget hne
    rw [State.get?_update] at hget
    split at hget
    · rename_i hq
      subst hq
      obtain ⟨old, hold, rfl⟩ := Option.map_eq_some_iff.mp hget
      rcases hstatus old hold hne with hsame | hgives
      · rw [hsame] at hne ⊢
        exact h.outcome q old hold hne
      · exact hgives
    · exact h.outcome q data hget hne
  · intro q data side p' hget hmem
    rw [State.get?_update] at hget
    split at hget
    · rename_i hq
      subst hq
      obtain ⟨old, hold, rfl⟩ := Option.map_eq_some_iff.mp hget
      rcases hwrappers old side p' hold hmem with hsame | hfollows
      · exact h.callback q old side p' hold hsame
      · exact hfollows
    · exact h.callback q data side p' hget hmem

/-- The queue and the record do not matter. -/
theorem of_get? {t : State V E F} (h : s.Explained A) (hget : ∀ p, t.get? p = s.get? p) :
    t.Explained A :=
  ⟨fun p data hp => h.outcome p data ((hget p).symm.trans hp),
    fun q data side p hq => h.callback q data side p ((hget q).symm.trans hq)⟩

theorem requestCallBack (h : s.Explained A) (p : Ref) : (s.requestCallBack p).Explained A := by
  have hupdate := h.update (p := p) (f := fun data => { data with pendingCallback := true })
    (fun data _ _ => .inl rfl) (fun data side q _ hmem => .inl (by simpa using hmem))
  exact hupdate.of_get? fun q => rfl

theorem settle (h : s.Explained A) {p : Ref} {status : PromiseStatus V E}
    (hgives : s.status? p = some .pending → A.gives p status) :
    (s.settle p status).Explained A := by
  simp only [State.settle]
  split
  · rename_i hpending
    refine requestCallBack (h.update (fun data _ _ => .inr (hgives hpending)) ?_) p
    intro data side q _ hmem
    exact .inl (by simpa using hmem)
  · exact h

/-- A promise that follows another one takes over its outcome. -/
theorem adoptStatus (h : s.Explained A) {p q : Ref} {status : PromiseStatus V E}
    (hq : s.status? q = some status) (hfollows : A.follows p q) :
    (s.adoptStatus p status).Explained A := by
  obtain ⟨data, hdata, rfl⟩ := Option.map_eq_some_iff.mp hq
  cases hstatus : data.status with
  | pending => exact h
  | resolved v =>
      refine h.settle fun _ => A.closed p q _ hfollows ?_
      rw [← hstatus]
      exact h.outcome q data hdata (by simp [hstatus])
  | rejected e =>
      refine h.settle fun _ => A.closed p q _ hfollows ?_
      have hgives := h.outcome q data hdata (by simp [hstatus])
      rwa [hstatus] at hgives

theorem associateStatus (h : s.Explained A) {p q : Ref} (hfollows : A.follows p q) :
    (s.associateStatus p q).Explained A := by
  cases hq : s.get? q with
  | none => simpa [State.associateStatus, hq] using h
  | some data =>
      have hstatus : s.status? q = some data.status := by simp [State.status?, hq]
      have hadopt := h.adoptStatus hstatus hfollows
      cases hdata : data.status with
      | pending =>
          simp only [State.associateStatus, hq, Option.map_some, hdata]
          refine h.update (fun cell _ _ => .inl (by simp)) ?_
          intro cell side r _ hmem
          rw [PromiseData.wrappers_pushWrapper, PromiseData.wrappers_pushWrapper] at hmem
          rcases List.mem_append.mp hmem with hmem | hnew
          · rcases List.mem_append.mp hmem with hold | hnew
            · exact .inl hold
            · split at hnew
              · obtain rfl : r = p := by simpa using hnew
                exact .inr hfollows
              · cases hnew
          · split at hnew
            · obtain rfl : r = p := by simpa using hnew
              exact .inr hfollows
            · cases hnew
      | resolved v =>
          rw [hdata] at hadopt
          simpa [State.associateStatus, hq, hdata, State.adoptStatus] using hadopt
      | rejected e =>
          rw [hdata] at hadopt
          simpa [State.associateStatus, hq, hdata, State.adoptStatus] using hadopt

theorem register (h : s.Explained A) (side : Side) (p outer : Ref) (f : F) :
    (s.register side p outer f).Explained A := by
  have hupdate := h.update (p := p)
    (f := fun data => data.pushWrapper side (.handler outer f))
    (fun data _ _ => .inl (by simp)) ?_
  · exact hupdate.of_get? fun q => rfl
  · intro data other q _ hmem
    rw [PromiseData.wrappers_pushWrapper] at hmem
    rcases List.mem_append.mp hmem with hold | hnew
    · exact .inl hold
    · split at hnew
      · simp at hnew
      · cases hnew

theorem attach (h : s.Explained A) (side : Side) (p : Ref) (f : F) :
    (s.attach side p f).1.Explained A := by
  simp only [State.attach]
  split
  · exact h.create
  · split
    · exact h.create.register side p _ f
    · split
      · split
        · exact h.create.register side p _ f
        · exact (h.create.requestCallBack p).register side p _ f
      · exact h.create.create

theorem finishCallBack (h : s.Explained A) (p : Ref) : (s.finishCallBack p).Explained A := by
  refine h.update (fun data _ _ => .inl rfl) ?_
  intro data side q _ hmem
  cases side <;> cases hmem

end State.Explained

/-! ### Where a run gives outcomes -/

section Machine

variable [Blank V] [FnTrait F E]

/-- The step makes the promise with this outcome, settles it by a call through its context, or
makes it for the result of a handler. -/
def Gives (p : Ref) (status : PromiseStatus V E) (c : Config V E F) : Label V E F → Prop
  | .op (.resolved v) => p = c.state.heap.length ∧ status = .resolved v
  | .op .resolvedVoid => p = c.state.heap.length ∧ status = .resolved Blank.blank
  | .op (.rejected e) | .op (.rejectedVoid e) =>
      p = c.state.heap.length ∧ status = .rejected (eptrMake e)
  | .op (.resolve q v) =>
      p = q ∧ c.state.status? q = some .pending ∧ status = .resolved v
  | .op (.reject q e) =>
      p = q ∧ c.state.status? q = some .pending ∧ status = .rejected (eptrMake e)
  | .finish result => p = c.state.heap.length ∧ Outcome.status? result = some status
  | _ => False

/-- The step makes `p` follow `q`: it resolves `p` with `q`, or it ends the handler of `p`, whose
result is the promise `q` or is put into the new promise `q`. -/
def Binds (p q : Ref) (c : Config V E F) : Label V E F → Prop
  | .op (.resolvePromise a b) => p = a ∧ c.state.status? a = some .pending ∧ q = b
  | .finish result =>
      c.control.outer? = some p ∧
        q = match result with
          | .returned (.promise r) => r
          | _ => c.state.heap.length
  | _ => False

/-- The run gives `p` this outcome, or it makes `p` follow a promise that has it in the same
way. -/
inductive Origin (ls : List (Label V E F)) : Ref → PromiseStatus V E → Prop where
  | given (p status) (given : SomeStep step (Gives p status) Config.initial ls) :
      Origin ls p status
  | followed (p q status) (bound : SomeStep step (Binds p q) Config.initial ls)
      (origin : Origin ls q status) : Origin ls p status

/-- The account of a run. -/
def account (ls : List (Label V E F)) : Account V E where
  gives := Origin ls
  follows p q := SomeStep step (Binds p q) Config.initial ls
  closed p q status hbound horigin := .followed p q status hbound horigin

theorem someStep_mono {P : Config V E F → Label V E F → Prop} {ls : List (Label V E F)}
    (h : SomeStep step P Config.initial ls) (l : Label V E F) :
    SomeStep step P Config.initial (ls ++ [l]) := by
  obtain ⟨before, l', after, t, rfl, ht, hP⟩ := h
  exact ⟨before, l', after ++ [l], t, by simp, ht, hP⟩

theorem Origin.mono {ls : List (Label V E F)} {p : Ref} {status : PromiseStatus V E}
    (h : Origin ls p status) (l : Label V E F) : Origin (ls ++ [l]) p status := by
  induction h with
  | given p status given => exact .given p status (someStep_mono given l)
  | followed p q status bound _ ih => exact .followed p q status (someStep_mono bound l) ih

theorem State.Explained.mono {s : State V E F} {ls : List (Label V E F)}
    (h : s.Explained (account ls)) (l : Label V E F) : s.Explained (account (ls ++ [l])) :=
  ⟨fun p data hp hne => (h.outcome p data hp hne).mono l,
    fun q data side p hq hmem => someStep_mono (h.callback q data side p hq hmem) l⟩

section Step

variable {ls : List (Label V E F)} {c : Config V E F} {l : Label V E F}

theorem origin_of_gives (h : RunsTo ls c) {p : Ref} {status : PromiseStatus V E}
    (hgives : Gives p status c l) : (account (ls ++ [l])).gives p status :=
  .given p status ((someStep_concat h).mpr (.inr hgives))

theorem follows_of_binds (h : RunsTo ls c) {p q : Ref} (hbinds : Binds p q c l) :
    (account (ls ++ [l])).follows p q :=
  (someStep_concat h).mpr (.inr hbinds)

end Step

theorem State.Explained.perform {ls : List (Label V E F)} {s : State V E F}
    {control : Control F E} (h : s.Explained (account ls)) (hrun : RunsTo ls ⟨s, control⟩)
    (o : Op V E F) : (s.perform o).Explained (account (ls ++ [.op o])) := by
  have hs := h.mono (.op o)
  cases o with
  | promise => exact hs.create
  | resolved v => exact hs.alloc fun _ => origin_of_gives hrun ⟨rfl, rfl⟩
  | resolvedVoid => exact hs.create.settle fun _ => origin_of_gives hrun ⟨rfl, rfl⟩
  | rejected e => exact hs.alloc fun _ => origin_of_gives hrun ⟨rfl, rfl⟩
  | rejectedVoid e => exact hs.create.settle fun _ => origin_of_gives hrun ⟨rfl, rfl⟩
  | resolve p v => exact hs.settle fun hp => origin_of_gives hrun ⟨rfl, hp, rfl⟩
  | resolvePromise p q =>
      simp only [State.perform, State.resolvePromiseImpl]
      split
      · rename_i hp
        exact hs.associateStatus (follows_of_binds hrun ⟨rfl, hp, rfl⟩)
      · exact hs
  | reject p e => exact hs.settle fun hp => origin_of_gives hrun ⟨rfl, hp, rfl⟩
  | then_ p f => exact hs.attach .fulfilled p f
  | catch_ p f => exact hs.attach .rejected p f

theorem State.Explained.finishHandler {ls : List (Label V E F)} {s : State V E F} {i j : ℕ}
    {p outer : Ref} {f : F} (h : s.Explained (account ls))
    (hrun : RunsTo ls ⟨s, .handler i p j outer f⟩) (result : Outcome V E) :
    (s.finishHandler outer f result).Explained (account (ls ++ [.finish result])) := by
  have hs := h.mono (.finish result)
  cases result with
  | returned value =>
      cases value with
      | value v =>
          exact (hs.alloc fun _ => origin_of_gives hrun ⟨rfl, rfl⟩).associateStatus
            (follows_of_binds hrun ⟨rfl, rfl⟩)
      | void =>
          exact (hs.create.settle fun _ => origin_of_gives hrun ⟨rfl, rfl⟩).associateStatus
            (follows_of_binds hrun ⟨rfl, rfl⟩)
      | promise q => exact hs.associateStatus (follows_of_binds hrun ⟨rfl, rfl⟩)
  | threw e =>
      simp only [State.finishHandler, State.runHelper]
      split
      · exact (hs.create.settle fun _ => origin_of_gives hrun ⟨rfl, rfl⟩).associateStatus
          (follows_of_binds hrun ⟨rfl, rfl⟩)
      · exact (hs.alloc fun _ => origin_of_gives hrun ⟨rfl, rfl⟩).associateStatus
          (follows_of_binds hrun ⟨rfl, rfl⟩)

/-- The arguments of all handlers are outcomes that the account gives their promises. -/
def State.CallsExplained (s : State V E F) (A : Account V E) : Prop :=
  ∀ turn p outer f arg, .called turn p outer f arg ∈ s.log →
    ∃ status, A.gives p status ∧ status.argFor f = .ok arg

theorem explained_step {ls : List (Label V E F)} {c c' : Config V E F} {l : Label V E F}
    (hrun : RunsTo ls c) (h : c.state.Explained (account ls)) (hstep : Step c l c') :
    c'.state.Explained (account (ls ++ [l])) := by
  have hs := h.mono l
  cases hstep with
  | op s control o user known => exact h.perform hrun o
  | start s => exact hs
  | next s i p entry => exact hs
  | clear s i entry => exact hs.of_get? fun p => rfl
  | adopted s i p j data outer get due =>
      have hstatus : s.status? p = some data.status := by simp [State.status?, get]
      cases hside : data.status.side? with
      | none => simp [PromiseData.due, hside] at due
      | some side =>
          rw [PromiseData.due_of_side hside] at due
          have hfollows := hs.callback p data side outer get (List.mem_of_getElem? due)
          exact hs.adoptStatus hstatus hfollows
  | called s i p j data outer f arg get due arg_eq => exact hs.of_get? fun p => rfl
  | mismatch s i p j data outer f e get due arg_eq => exact hs
  | finished s i p j data get due => exact hs.finishCallBack p
  | returned s i p j outer f result known => exact h.finishHandler hrun result
  | resume s exit => exact hs

theorem callsExplained_step {ls : List (Label V E F)} {c c' : Config V E F} {l : Label V E F}
    (hscope : Scoped c) (h : c.state.Explained (account ls))
    (hcalls : c.state.CallsExplained (account ls)) (hstep : Step c l c') :
    c'.state.CallsExplained (account (ls ++ [l])) := by
  intro turn p outer f arg hmem
  rcases hstep.called_settled hscope hmem with hold | ⟨status, hstatus, hne, harg⟩
  · obtain ⟨status, hgives, harg⟩ := hcalls turn p outer f arg hold
    exact ⟨status, Origin.mono hgives l, harg⟩
  · obtain ⟨data, hget, rfl⟩ := Option.map_eq_some_iff.mp hstatus
    exact ⟨data.status, Origin.mono (h.outcome p data hget hne) l, harg⟩

/-- Nothing comes out of thin air: in every run, whatever user code and the handlers do, a settled
promise has an outcome that some step has given it, or that it has taken over, along a chain of
adoptions, from a promise that was given it; errors arrive unchanged. A handler is called with
such an outcome of its promise only. -/
theorem outcomes_have_origin {ls : List (Label V E F)} {c : Config V E F} (h : RunsTo ls c) :
    (∀ p status, c.state.status? p = some status → status ≠ .pending → Origin ls p status) ∧
    ∀ turn p outer f arg, .called turn p outer f arg ∈ c.state.log →
      ∃ status, Origin ls p status ∧ status.argFor f = .ok arg := by
  have hboth : Scoped c ∧ c.state.Explained (account ls) ∧ c.state.CallsExplained (account ls) := by
    have hguard : EachStep step (fun _ _ => True) (Config.initial : Config V E F) ls :=
      fun _ _ _ _ _ _ => trivial
    refine reached_of_eachStep (I := fun ls c => Scoped c ∧ c.state.Explained (account ls) ∧
      c.state.CallsExplained (account ls)) ?_ ?_ hguard h
    · refine ⟨.initial, ⟨?_, ?_⟩, ?_⟩
      · intro p data hget
        cases hget
      · intro q data side p hget
        cases hget
      · intro turn p outer f arg hmem
        cases hmem
    · rintro ls c l c' hrun ⟨hscope, hexplained, hcalls⟩ - hl
      have hstep := Step.of_step hl
      exact ⟨hscope.step hstep, explained_step hrun hexplained hstep,
        callsExplained_step hscope hexplained hcalls hstep⟩
  obtain ⟨-, hexplained, hcalls⟩ := hboth
  refine ⟨?_, hcalls⟩
  intro p status hstatus hne
  obtain ⟨data, hdata, rfl⟩ := Option.map_eq_some_iff.mp hstatus
  exact hexplained.outcome p data hdata hne

/-- Promise 1 takes over the outcome that promise 2 takes over from promise 3. -/
theorem outcomes_have_origin_sample :
    Origin chainRun (V := ℕ) (E := ℕ) (F := SampleHandler) 1 (.resolved 9) := by
  have hrun : (run step Config.initial chainRun).map
      (fun c => (c.control, c.state.status? 1)) = some (.done none, some (.resolved 9)) := by
    decide +kernel
  obtain ⟨c, h, heq⟩ := Option.map_eq_some_iff.mp hrun
  exact (outcomes_have_origin h).1 1 _ (congrArg Prod.snd heq) (by simp)

end Machine

end Libasync.Promise
