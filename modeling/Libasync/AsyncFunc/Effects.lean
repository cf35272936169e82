import Libasync.AsyncFunc.Steps
import Libasync.Promise.Advance

/-! # What the transitions do to the promise module

Every transition is a few steps of the promise module. An `await` makes two registrations, the
end of a body uses one context, and no other transition touches generators of async
functions. -/

namespace Libasync.AsyncFunc

open Promise Generator Foundation Automaton

variable {V E F : Type*}

/-! ### Control -/

theorem awaitHandler_of_userCode {stack : List (Frame V E)} {control : Control (Handler F) E}
    (h : runsUserCode stack control = true) : runningAwaitHandler? stack control = none := by
  cases stack with
  | nil => rfl
  | cons frame stack =>
      cases frame with
      | code gen caller rest => rfl
      | task =>
          cases control with
          | handler i p j outer f =>
              cases f with
              | user f => rfl
              | next gen => cases h
              | throw_ gen => cases h
          | _ => rfl

theorem userCode_of_outside {stack : List (Frame V E)} {control : Control (Handler F) E}
    (h : runsOutside stack control = true) : runsUserCode stack control = true := by
  cases stack with
  | nil => rfl
  | cons frame stack =>
      cases frame with
      | code gen caller rest => cases h
      | task => exact h

theorem runningAwaitHandler?_eq_some {stack : List (Frame V E)}
    {control : Control (Handler F) E} {p outer : Ref} {f : Handler F}
    (h : runningAwaitHandler? stack control = some (p, outer, f)) :
    ∃ rest i j gen, stack = .task :: rest ∧ control = .handler i p j outer f ∧
      f.gen? = some gen := by
  cases stack with
  | nil => cases h
  | cons frame stack =>
      cases frame with
      | code gen caller rest => cases h
      | task =>
          cases control with
          | handler i q j outer' f' =>
              cases f' with
              | user f' => cases h
              | next gen =>
                  obtain ⟨rfl, rfl, rfl⟩ : q = p ∧ outer' = outer ∧ Handler.next gen = f := by
                    simpa [runningAwaitHandler?] using h
                  exact ⟨stack, i, j, gen, rfl, rfl, rfl⟩
              | throw_ gen =>
                  obtain ⟨rfl, rfl, rfl⟩ : q = p ∧ outer' = outer ∧ Handler.throw_ gen = f := by
                    simpa [runningAwaitHandler?] using h
                  exact ⟨stack, i, j, gen, rfl, rfl, rfl⟩
          | idle => cases h
          | turn i => cases h
          | callBack i q j => cases h
          | done exit => cases h

theorem runningAwaitHandler?_handler {rest : List (Frame V E)} {i j : ℕ} {p outer : Ref}
    {f : Handler F} {gen : GenRef} (h : f.gen? = some gen) :
    runningAwaitHandler? (V := V) (E := E) (.task :: rest) (.handler i p j outer f) =
      some (p, outer, f) := by
  cases f with
  | user f => cases h
  | next gen => rfl
  | throw_ gen => rfl

/-- A body that was started by a call returns to code of the program, and one that was resumed
returns to `promise_task`, which was entered from outside. -/
def Nested : Control (Handler F) E → List (Frame V E) → Prop
  | _, [] => True
  | _, .task :: rest => Nested .idle rest
  | control, .code _ .call _ :: rest => runsUserCode rest control = true ∧ Nested control rest
  | control, .code _ .handler _ :: rest => (∃ rest', rest = .task :: rest') ∧ Nested control rest

variable [Blank V] [FnTrait F E]

/-! ### Runs of the promise module -/

/-- No handler has been called meanwhile. -/
def Uncalled (P P' : Promise.Config V E (Handler F)) : Prop :=
  ∀ turn p outer f arg, .called turn p outer f arg ∈ P'.state.log →
    .called turn p outer f arg ∈ P.state.log

omit [Blank V] [FnTrait F E] in
theorem Uncalled.trans {P P' P'' : Promise.Config V E (Handler F)} (h : Uncalled P P')
    (h' : Uncalled P' P'') : Uncalled P P'' :=
  fun turn p outer f arg hmem => h turn p outer f arg (h' turn p outer f arg hmem)

theorem uncalled_of_step {P P' : Promise.Config V E (Handler F)}
    {l : Promise.Label V E (Handler F)} (h : Promise.Step P l P') (hc : Scoped P)
    (hl : l ≠ .tau) : Uncalled P P' := by
  intro turn p outer f arg hmem
  exact (h.called_mem hc hmem).elim id fun hnew => absurd hnew.1 hl

theorem control_of_op {P P' : Promise.Config V E (Handler F)} {o : Op V E (Handler F)}
    (h : Promise.Step P (.op o) P') : P'.control = P.control := by
  cases h
  rfl

theorem state_of_op {P P' : Promise.Config V E (Handler F)} {o : Op V E (Handler F)}
    (h : Promise.Step P (.op o) P') : P'.state = P.state.perform o := by
  cases h
  rfl

theorem known_of_op {P P' : Promise.Config V E (Handler F)} {o : Op V E (Handler F)}
    (h : Promise.Step P (.op o) P') {p : Ref} (hp : p ∈ o.refs) :
    p < P.state.heap.length := by
  cases h with
  | op s control o user known => exact State.lt_of_has known hp

/-- Control after `next` or `_throw` has returned. -/
def ReturnedTo (caller : Caller) (control control' : Control (Handler F) E) : Prop :=
  match caller with
  | .call => control' = control
  | .handler => ∃ i p j, control' = .callBack i p j

omit [Blank V] [FnTrait F E] in
theorem ReturnedTo.nested {caller : Caller} {control control' : Control (Handler F) E}
    {gen : GenRef} {code : BodyCode V E} {rest : List (Frame V E)}
    (h : ReturnedTo caller control control')
    (hn : Nested control (.code gen caller code :: rest)) :
    Nested control' rest ∧ runningAwaitHandler? rest control' = none := by
  cases caller with
  | call =>
      obtain ⟨huser, hrest⟩ := hn
      obtain rfl : control' = control := h
      exact ⟨hrest, awaitHandler_of_userCode huser⟩
  | handler =>
      obtain ⟨⟨rest', rfl⟩, hrest⟩ := hn
      obtain ⟨i, p, j, rfl⟩ := h
      exact ⟨hrest, rfl⟩

/-- The effect of a run that only makes calls and returns from a handler. -/
structure Effect (T : Ref → Prop) (N : Side → Ref → Ref → Handler F → Prop)
    (P P' : Promise.Config V E (Handler F)) : Prop where
  advances : Advances T N P P'
  uncalled : Uncalled P P'

namespace Effect

variable {T : Ref → Prop} {N : Side → Ref → Ref → Handler F → Prop}
  {P P' P'' : Promise.Config V E (Handler F)}

theorem of_step {l : Promise.Label V E (Handler F)} (h : Promise.Step P l P')
    (hq : QueueInv P) (hr : Recorded P.control.passed P.state) (hl : l ≠ .tau)
    (hT : ∀ p, l.context? = some p → T p)
    (hN : ∀ side p outer f, l.Registers P.state side p outer f → N side p outer f) :
    Effect T N P P' :=
  ⟨(h.advances hq hr (h.failing?_eq_none hl)).mono hT hN, uncalled_of_step h hq.scope hl⟩

omit [Blank V] in
theorem trans (h : Effect T N P P') (h' : Effect T N P' P'') : Effect T N P P'' :=
  ⟨h.advances.trans h'.advances, h.uncalled.trans h'.uncalled⟩

omit [Blank V] in
theorem refl (hq : QueueInv P) (hr : Recorded P.control.passed P.state) : Effect T N P P :=
  ⟨.refl hq hr, fun _ _ _ _ _ h => h⟩

theorem of_returnTo {caller : Caller} (hq : QueueInv P)
    (hr : Recorded P.control.passed P.state)
    (h : run Promise.step P (Config.returnTo caller) = some P') :
    Effect T N P P' ∧ ReturnedTo caller P.control P'.control := by
  cases caller with
  | call =>
      obtain rfl := Option.some.inj h
      exact ⟨.refl hq hr, rfl⟩
  | handler =>
      obtain ⟨P₁, hstep, hrest⟩ := run_cons_eq_some _ h
      obtain rfl := Option.some.inj hrest
      have hfinish := Promise.Step.of_step hstep
      refine ⟨.of_step hfinish hq hr (by simp) (by simp [Promise.Label.context?])
        (by simp [Promise.Label.Registers]), ?_⟩
      cases hfinish with
      | returned s i p j outer f result known => exact ⟨i, p, j + 1, rfl⟩

end Effect

/-! ### An await -/

def Await.outer (a : Await) : Side → Ref
  | .fulfilled => a.onValue
  | .rejected => a.onError

def Await.handler (a : Await) : Side → Handler F
  | .fulfilled => .next a.gen
  | .rejected => .throw_ a.gen

/-- The two handlers of an `await` are registered as far as they can be called, and their
derived promises are new. -/
structure AwaitEffect (a : Await) (P P' : Promise.Config V E (Handler F)) : Prop where
  effect : Effect (fun _ => False)
    (fun side p outer f => p = a.promise ∧ outer = a.outer side ∧ f = a.handler side) P P'
  known : a.promise < P.state.heap.length
  registered : ∀ side, P'.state.OpenFor side a.promise →
    .registered side a.promise (a.outer side) (a.handler side) ∈ P'.state.log
  onValue_new : P.state.heap.length ≤ a.onValue
  onValue_lt : a.onValue < a.onError
  onError_lt : a.onError < P'.state.heap.length

omit [Blank V] in
/-- A side that is open later was open before. -/
theorem openFor_of_advances {T : Ref → Prop} {N : Side → Ref → Ref → Handler F → Prop}
    {P P' : Promise.Config V E (Handler F)} (h : Advances T N P P') {side : Side} {p : Ref}
    (hlt : p < P.state.heap.length) (ho : P'.state.OpenFor side p) : P.state.OpenFor side p := by
  obtain ⟨status', hstatus', hopen⟩ := ho
  have hstatus : P.state.status? p = some (P.state.heap[p]).status := by
    simp [State.status?, State.get?, List.getElem?_eq_getElem hlt]
  by_cases hpending : (P.state.heap[p]).status = .pending
  · exact ⟨_, hstatus, .inl hpending⟩
  · have hsame := h.settled p _ hstatus hpending
    obtain rfl := Option.some.inj (hsame.symm.trans hstatus')
    exact ⟨_, hstatus, hopen⟩

theorem awaitEffect {c : Config V E F} {gen : GenRef} {p : Ref} {caller : Caller}
    {P' : Promise.Config V E (Handler F)} (hq : QueueInv c.promises)
    (hr : Recorded c.promises.control.passed c.promises.state)
    (h : run Promise.step c.promises (registers gen p ++ Config.returnTo caller) = some P') :
    AwaitEffect (c.awaitOf gen p) c.promises P' ∧
      ReturnedTo caller c.promises.control P'.control := by
  obtain ⟨P₂, hregisters, hreturn⟩ := run_append_eq_some _ h
  obtain ⟨P₁, hthen, hrest⟩ := run_cons_eq_some _ hregisters
  obtain ⟨P₃, hcatch, hrest⟩ := run_cons_eq_some _ hrest
  obtain rfl := Option.some.inj hrest
  have hthen := Promise.Step.of_step hthen
  have hcatch := Promise.Step.of_step hcatch
  have hP₁ : P₁.state = (c.thenAwaited gen p).1 := state_of_op hthen
  have hP₃ : P₃.state = (P₁.state.catch_ p (.throw_ gen)).1 := state_of_op hcatch
  have hknown : p < c.promises.state.heap.length := known_of_op hthen (by simp [Op.refs])
  let N : Side → Ref → Ref → Handler F → Prop := fun side q outer f =>
    q = p ∧ outer = (c.awaitOf gen p).outer side ∧ f = (c.awaitOf gen p).handler side
  have e₁ : Effect (fun _ => False) N c.promises P₁ := by
    refine .of_step hthen hq hr (by simp) (by simp [Promise.Label.context?, Op.context?]) ?_
    rintro side q outer f ⟨hattaches, rfl, -⟩
    obtain ⟨rfl, rfl, rfl⟩ : Side.fulfilled = side ∧ p = q ∧ Handler.next gen = f := by
      simpa [Op.attaches?] using hattaches
    exact ⟨rfl, rfl, rfl⟩
  have e₃ : Effect (fun _ => False) N P₁ P₃ := by
    refine .of_step hcatch e₁.advances.queue e₁.advances.recorded (by simp)
      (by simp [Promise.Label.context?, Op.context?]) ?_
    rintro side q outer f ⟨hattaches, rfl, -⟩
    obtain ⟨rfl, rfl, rfl⟩ : Side.rejected = side ∧ p = q ∧ Handler.throw_ gen = f := by
      simpa [Op.attaches?] using hattaches
    exact ⟨rfl, by rw [hP₁]; rfl, rfl⟩
  obtain ⟨e', hreturned⟩ := Effect.of_returnTo (T := fun _ => False) (N := N)
    e₃.advances.queue e₃.advances.recorded hreturn
  have hcontrol : P₃.control = c.promises.control :=
    (control_of_op hcatch).trans (control_of_op hthen)
  have hvalue := c.promises.state.attach_ref .fulfilled p (.next gen)
  have herror := (c.thenAwaited gen p).1.attach_ref .rejected p (.throw_ gen)
  refine ⟨⟨(e₁.trans e₃).trans e', hknown, ?_, hvalue.1, ?_, ?_⟩, hcontrol ▸ hreturned⟩
  · intro side hopen
    have hopen₃ := openFor_of_advances e'.advances
      (Nat.lt_of_lt_of_le hknown (e₁.trans e₃).advances.length_le) hopen
    have hopen₁ := openFor_of_advances e₃.advances
      (Nat.lt_of_lt_of_le hknown e₁.advances.length_le) hopen₃
    cases side with
    | fulfilled =>
        have hopen₀ := openFor_of_advances e₁.advances hknown hopen₁
        have hmem : .registered .fulfilled p _ _ ∈ P₁.state.log :=
          hthen.registered.mpr (.inr ⟨rfl, rfl, hopen₀⟩)
        exact (e₃.trans e').advances.log_grows.subset hmem
    | rejected =>
        have hmem : .registered .rejected p _ _ ∈ P₃.state.log :=
          hcatch.registered.mpr (.inr ⟨rfl, rfl, hopen₁⟩)
        rw [hP₁] at hmem
        exact e'.advances.log_grows.subset hmem
  · exact Nat.lt_of_lt_of_le hvalue.2 herror.1
  · refine Nat.lt_of_lt_of_le herror.2 ?_
    have hlen := e'.advances.length_le
    rw [hP₃, hP₁] at hlen
    exact hlen

/-! ### The end of a body -/

/-- The promise has the result of the body, or takes over the outcome of the promise that the
body has returned. -/
def Settles (P : Promise.Config V E (Handler F)) (promise : Ref) :
    Except (Exn E) (Return V) → Prop
  | .ok (.value v) => P.state.status? promise = some (.resolved v)
  | .ok .void => P.state.status? promise = some (.resolved Blank.blank)
  | .ok (.promise q) => Follows promise q P
  | .error e => P.state.status? promise = some (.rejected e)

theorem Settles.advances {T : Ref → Prop} {N : Side → Ref → Ref → Handler F → Prop}
    {P P' : Promise.Config V E (Handler F)} {promise : Ref}
    {result : Except (Exn E) (Return V)} (h : Settles P promise result)
    (ha : Advances T N P P') (hT : ¬ T promise) : Settles P' promise result := by
  cases result with
  | error e => exact ha.settled promise _ h (by simp)
  | ok r =>
      cases r with
      | value v => exact ha.settled promise _ h (by simp)
      | void => exact ha.settled promise _ h (by simp)
      | promise q => exact ha.follows promise q hT h

/-- Settling decides the outcome at once, or makes the promise follow another one. -/
theorem settles_of_op {P P' : Promise.Config V E (Handler F)} {promise : Ref}
    {result : Except (Exn E) (Return V)} (hq : QueueInv P)
    (hu : Unsettled promise (fun _ _ _ => False) P)
    (h : Promise.Step P (.op (settleOp promise result)) P') : Settles P' promise result := by
  obtain ⟨s', control'⟩ := P'
  obtain rfl : control' = P.control := control_of_op h
  obtain rfl : s' = P.state.perform (settleOp promise result) := state_of_op h
  cases result with
  | error e => exact P.state.settle_status? (.rejected e) hu.pending
  | ok r =>
      cases r with
      | value v => exact P.state.settle_status? (.resolved v) hu.pending
      | void => exact P.state.settle_status? (.resolved Blank.blank) hu.pending
      | promise q =>
          exact follows_of_resolvePromise hq hu (known_of_op h (by simp [settleOp, Op.refs]))

theorem finishEffect {P P' : Promise.Config V E (Handler F)} {promise : Ref}
    {result : Except (Exn E) (Return V)} {caller : Caller} (hq : QueueInv P)
    (hr : Recorded P.control.passed P.state) (hu : Unsettled promise (fun _ _ _ => False) P)
    (h : run Promise.step P (.op (settleOp promise result) :: Config.returnTo caller) =
      some P') :
    Effect (fun p => p = promise) (fun _ _ _ _ => False) P P' ∧ Settles P' promise result ∧
      ReturnedTo caller P.control P'.control := by
  obtain ⟨P₁, hsettle, hreturn⟩ := run_cons_eq_some _ h
  have hsettle := Promise.Step.of_step hsettle
  have hcontext : (settleOp promise result : Op V E (Handler F)).context? = some promise ∧
      (settleOp promise result : Op V E (Handler F)).attaches? = none := by
    cases result with
    | error e => exact ⟨rfl, rfl⟩
    | ok r => cases r <;> exact ⟨rfl, rfl⟩
  have e₁ : Effect (fun p => p = promise) (fun _ _ _ _ => False) P P₁ := by
    refine .of_step hsettle hq hr (by simp) ?_ ?_
    · intro p hp
      exact Option.some.inj (hp.symm.trans hcontext.1)
    · rintro side p outer f ⟨hattaches, -⟩
      simp [hcontext.2] at hattaches
  obtain ⟨e₂, hreturned⟩ := Effect.of_returnTo (T := fun _ => False)
    (N := fun _ _ _ _ => False) e₁.advances.queue e₁.advances.recorded hreturn
  have hsettles := (settles_of_op hq hu hsettle).advances e₂.advances id
  rw [control_of_op hsettle] at hreturned
  exact ⟨e₁.trans ⟨e₂.advances.mono (by simp) (by simp), e₂.uncalled⟩, hsettles, hreturned⟩

end Libasync.AsyncFunc
