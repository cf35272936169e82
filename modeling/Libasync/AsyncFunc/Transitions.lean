import Libasync.AsyncFunc.Sound

/-! # The invariant is kept by every transition -/

namespace Libasync.AsyncFunc

open Promise Generator Foundation Code Automaton

variable {V E F : Type*}

/-! ### Transitions in which no generator takes part -/

theorem userOp_context? (o : Op V E F) : (userOp o).context? = o.context? := by
  cases o <;> rfl

theorem userOp_attaches? {o : Op V E F} {side : Side} {p : Ref} {f : Handler F}
    (h : (userOp o).attaches? = some (side, p, f)) : f.gen? = none := by
  cases o with
  | then_ q g =>
      obtain ⟨-, -, rfl⟩ : Side.fulfilled = side ∧ q = p ∧ Handler.user g = f := by
        simpa [userOp, Op.attaches?] using h
      rfl
  | catch_ q g =>
      obtain ⟨-, -, rfl⟩ : Side.rejected = side ∧ q = p ∧ Handler.user g = f := by
        simpa [userOp, Op.attaches?] using h
      rfl
  | _ => cases h

section Promises

variable [Blank V] [FnTrait F E] {P P' : Promise.Config V E (Handler F)}

theorem control_of_promiseTask (h : Promise.Step P .promiseTask P') :
    P.control = .idle ∧ P'.control = .turn 0 := by
  cases h with
  | start s => exact ⟨rfl, rfl⟩

theorem control_of_finish {result : Outcome V E} (h : Promise.Step P (.finish result) P') :
    ∃ i p j, P'.control = .callBack i p j := by
  cases h with
  | returned s i p j outer f result known => exact ⟨i, p, j + 1, rfl⟩

theorem control_of_resume (h : Promise.Step P .resume P') :
    (∃ exit, P.control = .done exit) ∧ P'.control = .idle := by
  cases h with
  | resume s exit => exact ⟨⟨exit, rfl⟩, rfl⟩

/-- A handler that the loop has given control to has just been called. -/
theorem called_of_tau {i j : ℕ} {p outer : Ref} {f : Handler F} (h : Promise.Step P .tau P')
    (hcontrol : P'.control = .handler i p j outer f) :
    ∃ arg, P'.state.log = P.state.log ++ [.called i p outer f arg] := by
  cases h with
  | called s i' p' j' data outer' f' arg get due arg_eq =>
      obtain ⟨rfl, rfl, -, rfl, rfl⟩ := Control.handler.inj hcontrol
      exact ⟨arg, rfl⟩
  | _ => cases hcontrol

end Promises

section Calm

variable [Blank V] [FnTrait F E] {c c' : Config V E F}

theorem GensSound.calm {T : Ref → Prop} {N : Side → Ref → Ref → Handler F → Prop}
    (h : GensSound c) (ha : Advances T N c.promises c'.promises)
    (hT : ∀ g ∈ c.gens, ¬ T g.promise) (hgens : c'.gens = c.gens)
    (hcaught : ∀ gen, c'.caughtBy gen = c.caughtBy gen) (hlog : c'.log = c.log)
    (hstack : ∀ frame ∈ c'.stack, frame ∈ c.stack ∨ frame = .task)
    (hframes : c'.stack.filterMap Frame.gen? = c.stack.filterMap Frame.gen?)
    (hnested : Nested c'.promises.control c'.stack) : GensSound c' := by
  have hnone : c'.gens[c.gens.length]? = none := by simp [hgens]
  have hcode : ∀ i caller code, .code i caller code ∈ c'.stack → .code i caller code ∈ c.stack :=
    fun i caller code hmem => (hstack _ hmem).resolve_right (by simp)
  refine h.advance ha c.gens.length ?_ (fun i _ => by rw [hgens]) (fun i _ => hcaught i)
    (fun i result _ => by rw [hlog]) hnested (hframes ▸ h.frames)
    (fun i caller code _ => hcode i caller code) ?_ ?_ ?_ ?_ ?_
  · intro i g _ hget
    exact hT g (List.mem_of_getElem? hget)
  · intro caller code hmem
    obtain ⟨g, hget, -⟩ := h.running _ caller code (hcode _ caller code hmem)
    simp at hget
  · intro g hget
    simp [hnone] at hget
  · intro result hmem
    rw [hlog] at hmem
    obtain ⟨g, hget, -⟩ := h.finished _ result hmem
    simp at hget
  · intro hnone'
    rw [hcaught]
    exact h.owners _ (hgens ▸ hnone')
  · intro g hget
    simp [hnone] at hget

/-- The program or `promise_task` goes on, and no handler of an awaited promise gets control. -/
theorem Sound.calm {T : Ref → Prop} {N : Side → Ref → Ref → Handler F → Prop} (h : Sound c)
    (e : Effect T N c.promises c'.promises) (hT : ∀ g ∈ c.gens, ¬ T g.promise)
    (hN : ∀ side p outer f, N side p outer f →
      f.gen? = none ∧ c.promises.state.heap.length ≤ outer)
    (hquiet : c.awaitHandler? = none) (hquiet' : c'.awaitHandler? = none)
    (hgens : c'.gens = c.gens) (hcaught : ∀ gen, c'.caughtBy gen = c.caughtBy gen)
    (hlog : c'.log = c.log)
    (hstack : ∀ frame ∈ c'.stack, frame ∈ c.stack ∨ frame = .task)
    (hframes : c'.stack.filterMap Frame.gen? = c.stack.filterMap Frame.gen?)
    (hnested : Nested c'.promises.control c'.stack) : Sound c' := by
  have hleaves : ∀ a, Leaves a c c' := by
    intro a
    exact leaves_of_uncalled e.advances e.uncalled hquiet (by rw [hlog]) (fun _ => hcaught _)
      (fun g hget _ => by rw [hgens]; exact hget)
  refine ⟨e.advances.queue, e.advances.recorded,
    h.gens.calm e.advances hT hgens hcaught hlog hstack hframes hnested, ?_⟩
  refine h.awaits.advance e.advances (hlog ▸ List.prefix_rfl) (fun a hmem => hlog ▸ hmem)
    (fun a hmem => (h.awaits.sound a hmem).leave (hleaves a)) hN ?_
    (fun gen outer status answer hmem => .inl (hlog ▸ hmem)) ?_
  · intro p outer f hhandler
    simp [hquiet'] at hhandler
  · intro gen g hget hstatus
    rw [hgens] at hget
    obtain ⟨a, hmem, hgen, hwaiting⟩ := h.awaits.suspended gen g hget hstatus
    exact ⟨a, hmem, hgen, hwaiting.leave (hleaves a)⟩

theorem Sound.op {o : Op V E F} {promises : Promise.Config V E (Handler F)} (h : Sound c)
    (user : c.userCode = true) (context : ∀ g ∈ c.gens, o.context? ≠ some g.promise)
    (run : Promise.Step c.promises (.op (userOp o)) promises) :
    Sound ({ c with promises } : Config V E F) := by
  have hcontrol := control_of_op run
  have hquiet := awaitHandler_of_userCode user
  have e : Effect (fun p => o.context? = some p)
      (fun _ _ outer f => f.gen? = none ∧ c.promises.state.heap.length ≤ outer)
      c.promises promises := by
    refine .of_step run h.queue h.recorded (by simp) ?_ ?_
    · intro p hp
      rwa [← userOp_context?]
    · rintro side p outer f ⟨hattaches, rfl, -⟩
      exact ⟨userOp_attaches? hattaches, (State.attach_ref _ _ _ _).1⟩
  refine h.calm e context (fun _ _ _ _ hnew => hnew) hquiet ?_ rfl (fun _ => rfl) rfl
    (fun frame hmem => .inl hmem) rfl ?_
  · exact (congrArg (runningAwaitHandler? c.stack) hcontrol).trans hquiet
  · exact hcontrol ▸ h.gens.nested

theorem Sound.start {promises : Promise.Config V E (Handler F)} (h : Sound c)
    (user : c.userCode = true) (run : Promise.Step c.promises .promiseTask promises) :
    Sound ({ c with promises, stack := .task :: c.stack, blocks := 0 :: c.blocks } :
      Config V E F) := by
  obtain ⟨hidle, hturn⟩ := control_of_promiseTask run
  have e : Effect (fun _ => False) (fun _ _ _ _ => False) c.promises promises :=
    .of_step run h.queue h.recorded (by simp) (by simp [Promise.Label.context?])
      (by simp [Promise.Label.Registers])
  refine h.calm e (by simp) (by simp) (awaitHandler_of_userCode user) ?_ rfl (fun _ => rfl) rfl
    ?_ rfl ?_
  · simp [Config.awaitHandler?, runningAwaitHandler?, hturn]
  · intro frame hmem
    exact (List.mem_cons.mp hmem).symm
  · have hnested := h.gens.nested
    rw [hidle] at hnested
    exact hnested

theorem Sound.finish {result : Outcome V E} {promises : Promise.Config V E (Handler F)}
    {rest : List (Frame V E)} (h : Sound c) (top : c.stack = .task :: rest)
    (user : c.userCode = true) (run : Promise.Step c.promises (.finish result) promises) :
    Sound ({ c with promises } : Config V E F) := by
  obtain ⟨i, p, j, hcontrol⟩ := control_of_finish run
  have e : Effect (fun _ => False) (fun _ _ _ _ => False) c.promises promises :=
    .of_step run h.queue h.recorded (by simp) (by simp [Promise.Label.context?])
      (by simp [Promise.Label.Registers])
  refine h.calm e (by simp) (by simp) (awaitHandler_of_userCode user) ?_ rfl (fun _ => rfl) rfl
    (fun frame hmem => .inl hmem) rfl ?_
  · simp [Config.awaitHandler?, runningAwaitHandler?, top, hcontrol]
  · have hnested := h.gens.nested
    rw [top] at hnested ⊢
    exact hnested

theorem Sound.leave {promises : Promise.Config V E (Handler F)} {rest : List (Frame V E)}
    (h : Sound c) (top : c.stack = .task :: rest)
    (run : Promise.Step c.promises .resume promises) :
    Sound ({ c with promises, stack := rest, blocks := c.blocks.tail } : Config V E F) := by
  obtain ⟨⟨exit, hdone⟩, hcontrol⟩ := control_of_resume run
  have hquiet : c.awaitHandler? = none := by
    cases hawait : c.awaitHandler? with
    | none => rfl
    | some awaited =>
        obtain ⟨p, outer, f⟩ := awaited
        obtain ⟨-, i, j, -, -, hhandler, -⟩ := runningAwaitHandler?_eq_some hawait
        rw [hdone] at hhandler
        cases hhandler
  have e : Effect (fun _ => False) (fun _ _ _ _ => False) c.promises promises :=
    .of_step run h.queue h.recorded (by simp) (by simp [Promise.Label.context?])
      (by simp [Promise.Label.Registers])
  refine h.calm e (by simp) (by simp) hquiet ?_ rfl (fun _ => rfl) rfl ?_ ?_ ?_
  · simp only [Config.awaitHandler?, hcontrol]
    cases rest with
    | nil => rfl
    | cons frame rest => cases frame <;> rfl
  · intro frame hmem
    exact .inl (top ▸ List.mem_cons_of_mem _ hmem)
  · rw [top]
    rfl
  · have hnested := h.gens.nested
    rw [top] at hnested
    exact hcontrol ▸ hnested

/-- Code outside of async functions begins or ends a block, which no body has begun. -/
theorem Sound.outsideBlock {caught : List (Caught E)} {blocks : List ℕ} (h : Sound c)
    (outside : c.outside = true)
    (hcaught : ∀ gen, caught.filterMap (Caught.by? gen) = c.caughtBy gen) :
    Sound ({ c with caught, blocks } : Config V E F) := by
  have hquiet := awaitHandler_of_userCode (userCode_of_outside outside)
  have e : Effect (fun _ => False) (fun _ _ _ _ => False) c.promises c.promises :=
    .refl h.queue h.recorded
  exact h.calm e (by simp) (by simp) hquiet hquiet rfl hcaught rfl (fun frame hmem => .inl hmem)
    rfl h.gens.nested

end Calm

end Libasync.AsyncFunc
