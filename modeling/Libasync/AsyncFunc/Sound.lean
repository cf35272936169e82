import Libasync.AsyncFunc.Awaits

/-! # The invariant of the async function machine

Every generator is running with the code that direct evaluation has reached, or is suspended at
an await, or is done with the result of direct evaluation. -/

namespace Libasync.AsyncFunc

open Promise Generator Foundation Code

variable {V E F : Type*}

/-- The generator whose code a frame runs. -/
def Frame.gen? : Frame V E → Option GenRef
  | .task => none
  | .code gen _ _ => some gen

theorem getElem?_setData (c : Config V E F) (gen : GenRef)
    (data : GenData Unit V E (BodyCode V E)) (i : GenRef) :
    (c.setData gen data).gens[i]? =
      if i = gen then c.gens[i]?.map fun g => { g with data } else c.gens[i]? := by
  simp only [Config.setData, List.getElem?_modify]
  by_cases h : gen = i
  · simp [h]
  · simp [h, Ne.symm h]

/-! ### Generators -/

/-- One generator and the promise of its context. -/
structure GenSound [Blank V] [FnTrait F E] (c : Config V E F) (gen : GenRef) (g : AsyncGen V E) :
    Prop where
  known : g.promise < c.promises.state.heap.length
  started : g.data.status ≠ .pending
  unsettled : g.data.status ≠ .done → Unsettled g.promise (fun _ _ _ => False) c.promises
  done : g.data.status = .done → ∃ result, .finished gen result ∈ c.log

/-- The calls that have not returned, and the generators. -/
structure GensSound [Blank V] [FnTrait F E] (c : Config V E F) : Prop where
  nested : Nested c.promises.control c.stack
  frames : (c.stack.filterMap Frame.gen?).Nodup
  running : ∀ gen caller code, .code gen caller code ∈ c.stack → ∃ g, c.gens[gen]? = some g ∧
    g.data.status = .running ∧ Reaches c.oracle g.data.executor (c.caughtBy gen) code
  sound : ∀ (gen : GenRef) g, c.gens[gen]? = some g → GenSound c gen g
  finished : ∀ gen result, .finished gen result ∈ c.log → ∃ g, c.gens[gen]? = some g ∧
    g.data.status = .done ∧ g.data.executor.eval c.oracle [] = some result ∧
    Settles c.promises g.promise result
  owners : ∀ gen, c.gens[gen]? = none → c.caughtBy gen = []
  contexts : ∀ (gen gen' : GenRef) (g g' : AsyncGen V E),
    c.gens[gen]? = some g → c.gens[gen']? = some g' → g.promise = g'.promise → gen = gen'

/-! ### Awaits -/

structure AwaitsSound (c : Config V E F) : Prop where
  sound : ∀ a, .awaits a ∈ c.log → AwaitSound c a
  /-- no generator is suspended at two awaits -/
  unique : ∀ a a', .awaits a ∈ c.log → .awaits a' ∈ c.log → a.gen = a'.gen →
    resumptions a c.log = [] → resumptions a' c.log = [] → a = a'
  outer_inj : ∀ a a' side side', .awaits a ∈ c.log → .awaits a' ∈ c.log →
    a.outer side = a'.outer side' → a = a' ∧ side = side'
  /-- only `await_impl` registers handlers that resume generators -/
  owned : ∀ side p outer f gen, .registered side p outer f ∈ c.promises.state.log →
    f.gen? = some gen →
      ∃ a, .awaits a ∈ c.log ∧ p = a.promise ∧ outer = a.outer side ∧ f = a.handler side
  registration : ∀ a side side' p f, .awaits a ∈ c.log →
    .registered side' p (a.outer side) f ∈ c.promises.state.log →
      side' = side ∧ p = a.promise ∧ f = a.handler side
  handler : ∀ p outer f, c.awaitHandler? = some (p, outer, f) →
    ∃ a side, .awaits a ∈ c.log ∧ p = a.promise ∧ outer = a.outer side ∧
      f = a.handler side ∧ Waiting c a ∧ c.promises.state.SettledOn side a.promise ∧
      ∃ turn arg, .called turn p outer f arg ∈ c.promises.state.log
  resumed : ∀ gen outer status answer, .resumed gen outer status answer ∈ c.log →
    status = .suspended ∧ ∃ a side, .awaits a ∈ c.log ∧ gen = a.gen ∧ outer = a.outer side
  suspended : ∀ (gen : GenRef) g, c.gens[gen]? = some g → g.data.status = .suspended →
    ∃ a, .awaits a ∈ c.log ∧ a.gen = gen ∧ Waiting c a

structure Sound [Blank V] [FnTrait F E] (c : Config V E F) : Prop where
  queue : QueueInv c.promises
  recorded : Recorded c.promises.control.passed c.promises.state
  gens : GensSound c
  awaits : AwaitsSound c

section Preservation

variable [FnTrait F E] {T : Ref → Prop} {N : Side → Ref → Ref → Handler F → Prop}
  {c c' : Config V E F}

/-- The awaits of a transition that begins none. -/
theorem AwaitsSound.advance (h : AwaitsSound c) (ha : Advances T N c.promises c'.promises)
    (hlog : c.log <+: c'.log) (hawaits : ∀ a, .awaits a ∈ c'.log → .awaits a ∈ c.log)
    (hsound : ∀ a, .awaits a ∈ c.log → AwaitSound c' a)
    (hN : ∀ side p outer f, N side p outer f →
      f.gen? = none ∧ c.promises.state.heap.length ≤ outer)
    (hhandler : ∀ p outer f, c'.awaitHandler? = some (p, outer, f) →
      ∃ a side, .awaits a ∈ c'.log ∧ p = a.promise ∧ outer = a.outer side ∧
        f = a.handler side ∧ Waiting c' a ∧ c'.promises.state.SettledOn side a.promise ∧
        ∃ turn arg, .called turn p outer f arg ∈ c'.promises.state.log)
    (hresumed : ∀ gen outer status answer, .resumed gen outer status answer ∈ c'.log →
      .resumed gen outer status answer ∈ c.log ∨
        status = .suspended ∧ ∃ a side, .awaits a ∈ c.log ∧ gen = a.gen ∧ outer = a.outer side)
    (hsuspended : ∀ (gen : GenRef) g, c'.gens[gen]? = some g → g.data.status = .suspended →
      ∃ a, .awaits a ∈ c.log ∧ a.gen = gen ∧ Waiting c' a) : AwaitsSound c' where
  sound a hmem := hsound a (hawaits a hmem)
  unique a a' hmem hmem' hgen hfresh hfresh' :=
    h.unique a a' (hawaits a hmem) (hawaits a' hmem') hgen
      (resumptions_eq_nil_of_grown hlog hfresh) (resumptions_eq_nil_of_grown hlog hfresh')
  outer_inj a a' side side' hmem hmem' :=
    h.outer_inj a a' side side' (hawaits a hmem) (hawaits a' hmem')
  owned side p outer f gen hreg hgen := by
    rcases ha.registered side p outer f hreg with hold | hnew
    · obtain ⟨a, hmem, hrest⟩ := h.owned side p outer f gen hold hgen
      exact ⟨a, hlog.subset hmem, hrest⟩
    · simp [(hN side p outer f hnew).1] at hgen
  registration a side side' p f hmem hreg := by
    have hmem := hawaits a hmem
    rcases ha.registered side' p _ f hreg with hold | hnew
    · exact h.registration a side side' p f hmem hold
    · have hlt := (h.sound a hmem).outer_lt side
      exact absurd (hN side' p _ f hnew).2 (Nat.not_le.mpr hlt)
  handler := hhandler
  resumed gen outer status answer hmem := by
    obtain ⟨hstatus, a, side, hawait, hrest⟩ :=
      (hresumed gen outer status answer hmem).elim (h.resumed gen outer status answer) id
    exact ⟨hstatus, a, side, hlog.subset hawait, hrest⟩
  suspended gen g hget hstatus := by
    obtain ⟨a, hmem, hrest⟩ := hsuspended gen g hget hstatus
    exact ⟨a, hlog.subset hmem, hrest⟩

/-- An await is left alone while no handler of an awaited promise has control. -/
theorem leaves_of_uncalled {a : Await} (ha : Advances T N c.promises c'.promises)
    (hu : Uncalled c.promises c'.promises) (hquiet : c.awaitHandler? = none)
    (hlog : resumptions a c'.log = resumptions a c.log)
    (hcaught : Waiting c a → c'.caughtBy a.gen = c.caughtBy a.gen)
    (hgens : ∀ g, c.gens[a.gen]? = some g → g.data.status = .suspended →
      c'.gens[a.gen]? = some g) : Leaves a c c' := by
  refine ⟨⟨T, N, ha⟩, hlog, fun _ => hgens, hcaught, ?_⟩
  intro hwaiting side turn p f arg hcall
  have hold := hwaiting.called side turn p f arg (hu turn p _ f arg hcall)
  simp [hquiet] at hold

/-- An await is left alone by the generator whose code is running. -/
theorem leaves_of_running {a : Await} {gen : GenRef} {caller : Caller} {code : BodyCode V E}
    {stack : List (Frame V E)} {g : AsyncGen V E} (ha : Advances T N c.promises c'.promises)
    (hu : Uncalled c.promises c'.promises) (top : c.stack = .code gen caller code :: stack)
    (get : c.gens[gen]? = some g) (hrunning : g.data.status = .running)
    (hlog : resumptions a c'.log = resumptions a c.log)
    (hcaught : ∀ i, i ≠ gen → c'.caughtBy i = c.caughtBy i)
    (hgens : ∀ i, i ≠ gen → c'.gens[i]? = c.gens[i]?) : Leaves a c c' := by
  have hother {g' : AsyncGen V E} (hget : c.gens[a.gen]? = some g')
      (hstatus : g'.data.status = .suspended) : a.gen ≠ gen := by
    rintro rfl
    obtain rfl := Option.some.inj (get.symm.trans hget)
    simp [hrunning] at hstatus
  refine leaves_of_uncalled ha hu (by simp [Config.awaitHandler?, runningAwaitHandler?, top])
    hlog ?_ ?_
  · intro hwaiting
    obtain ⟨g', -, hget, hstatus, -⟩ := hwaiting.suspended
    exact hcaught _ (hother hget hstatus)
  · intro g' hget hstatus
    rwa [hgens _ (hother hget hstatus)]

/-- A generator that does not take part. -/
theorem GenSound.advance [Blank V] {gen : GenRef} {g : AsyncGen V E} (h : GenSound c gen g)
    (ha : Advances T N c.promises c'.promises) (hT : ¬ T g.promise)
    (hlog : ∀ result, .finished gen result ∈ c.log → .finished gen result ∈ c'.log) :
    GenSound c' gen g where
  known := Nat.lt_of_lt_of_le h.known ha.length_le
  started := h.started
  unsettled hne := ha.unsettled g.promise hT (h.unsettled hne)
  done hdone := by
    obtain ⟨result, hmem⟩ := h.done hdone
    exact ⟨result, hlog result hmem⟩

/-- The generators of a transition in which at most one takes part. -/
theorem GensSound.advance [Blank V] (h : GensSound c)
    (ha : Advances T N c.promises c'.promises) (gen : GenRef)
    (hT : ∀ i g, i ≠ gen → c.gens[i]? = some g → ¬ T g.promise)
    (hgens : ∀ i, i ≠ gen → c'.gens[i]? = c.gens[i]?)
    (hcaught : ∀ i, i ≠ gen → c'.caughtBy i = c.caughtBy i)
    (hlog : ∀ i result, i ≠ gen → (.finished i result ∈ c'.log ↔ .finished i result ∈ c.log))
    (hnested : Nested c'.promises.control c'.stack)
    (hframes : (c'.stack.filterMap Frame.gen?).Nodup)
    (hstack : ∀ i caller code, i ≠ gen → .code i caller code ∈ c'.stack →
      .code i caller code ∈ c.stack)
    (hrunning : ∀ caller code, .code gen caller code ∈ c'.stack → ∃ g, c'.gens[gen]? = some g ∧
      g.data.status = .running ∧ Reaches c'.oracle g.data.executor (c'.caughtBy gen) code)
    (hsound : ∀ g, c'.gens[gen]? = some g → GenSound c' gen g)
    (hfinished : ∀ result, .finished gen result ∈ c'.log → ∃ g, c'.gens[gen]? = some g ∧
      g.data.status = .done ∧ g.data.executor.eval c'.oracle [] = some result ∧
      Settles c'.promises g.promise result)
    (howner : c'.gens[gen]? = none → c'.caughtBy gen = [])
    (hcontext : ∀ g, c'.gens[gen]? = some g → ∀ i g', i ≠ gen → c.gens[i]? = some g' →
      g.promise ≠ g'.promise) : GensSound c' where
  nested := hnested
  frames := hframes
  running i caller code hmem := by
    by_cases hi : i = gen
    · subst hi
      exact hrunning caller code hmem
    · obtain ⟨g, hget, hstatus, hreaches⟩ := h.running i caller code (hstack i caller code hi hmem)
      refine ⟨g, (hgens i hi).trans hget, hstatus, ?_⟩
      rw [hcaught i hi]
      exact hreaches.mono (oracle_mono ha)
  sound i g hget := by
    by_cases hi : i = gen
    · subst hi
      exact hsound g hget
    · rw [hgens i hi] at hget
      exact (h.sound i g hget).advance ha (hT i g hi hget) fun result => (hlog i result hi).mpr
  finished i result hmem := by
    by_cases hi : i = gen
    · subst hi
      exact hfinished result hmem
    · obtain ⟨g, hget, hdone, heval, hsettles⟩ := h.finished i result ((hlog i result hi).mp hmem)
      exact ⟨g, (hgens i hi).trans hget, hdone, eval_mono (oracle_mono ha) heval,
        hsettles.advances ha (hT i g hi hget)⟩
  owners i hnone := by
    by_cases hi : i = gen
    · subst hi
      exact howner hnone
    · rw [hcaught i hi]
      exact h.owners i ((hgens i hi).symm.trans hnone)
  contexts i i' g g' hget hget' hpromise := by
    by_cases hi : i = gen
    · by_cases hi' : i' = gen
      · exact hi.trans hi'.symm
      · subst hi
        rw [hgens i' hi'] at hget'
        exact absurd hpromise (hcontext g hget i' g' hi' hget')
    · rw [hgens i hi] at hget
      by_cases hi' : i' = gen
      · subst hi'
        exact absurd hpromise.symm (hcontext g' hget' i g hi hget)
      · rw [hgens i' hi'] at hget'
        exact h.contexts i i' g g' hget hget' hpromise

/-! ### Entering and leaving a frame -/

section Frames

variable [Blank V] {gen : GenRef} {caller : Caller} {code : BodyCode V E} {g : AsyncGen V E}

/-- The generator of the innermost frame runs its code, and no other frame belongs to it. -/
theorem GensSound.innermost {stack : List (Frame V E)} (h : GensSound c)
    (top : c.stack = .code gen caller code :: stack) (get : c.gens[gen]? = some g) :
    g.data.status = .running ∧ Reaches c.oracle g.data.executor (c.caughtBy gen) code ∧
      (stack.filterMap Frame.gen?).Nodup ∧
      ∀ caller' code', .code gen caller' code' ∉ stack := by
  obtain ⟨g', hget, hstatus, hreaches⟩ := h.running gen caller code (by simp [top])
  obtain rfl := Option.some.inj (get.symm.trans hget)
  have hframes := h.frames
  simp only [top, List.filterMap_cons, Frame.gen?, List.nodup_cons] at hframes
  refine ⟨hstatus, hreaches, hframes.2, ?_⟩
  intro caller' code' hmem
  exact hframes.1 (List.mem_filterMap.mpr ⟨_, hmem, rfl⟩)

theorem GensSound.not_finished (h : GensSound c) (get : c.gens[gen]? = some g)
    (hne : g.data.status ≠ .done) (result : Except (Exn E) (Return V)) :
    .finished gen result ∉ c.log := by
  intro hmem
  obtain ⟨g', hget, hdone, -⟩ := h.finished gen result hmem
  obtain rfl := Option.some.inj (get.symm.trans hget)
  exact hne hdone

/-- A generator that no frame belongs to begins to run code. -/
theorem GensSound.enter (h : GensSound c) (ha : Advances T N c.promises c'.promises)
    (hT : ∀ i g, i ≠ gen → c.gens[i]? = some g → ¬ T g.promise)
    (hstack : c'.stack = .code gen caller code :: c.stack)
    (hnested : Nested c'.promises.control c'.stack)
    (hfree : ∀ caller code, .code gen caller code ∉ c.stack)
    (hunfinished : ∀ result, .finished gen result ∉ c.log)
    (hgens : ∀ i, i ≠ gen → c'.gens[i]? = c.gens[i]?) (hcaught : c'.caught = c.caught)
    (hlog : ∀ i result, .finished i result ∈ c'.log ↔ .finished i result ∈ c.log)
    (hget : c'.gens[gen]? = some g) (hrunning : g.data.status = .running)
    (hreaches : Reaches c'.oracle g.data.executor (c'.caughtBy gen) code)
    (hsound : GenSound c' gen g)
    (hcontext : ∀ i g', i ≠ gen → c.gens[i]? = some g' → g.promise ≠ g'.promise) :
    GensSound c' := by
  have hframe : gen ∉ c.stack.filterMap Frame.gen? := by
    intro hmem
    obtain ⟨frame, hframe, hgen⟩ := List.mem_filterMap.mp hmem
    cases frame with
    | task => cases hgen
    | code gen' caller' code' =>
        obtain rfl := Option.some.inj hgen
        exact hfree caller' code' hframe
  refine h.advance ha gen hT hgens (fun i _ => caughtBy_congr hcaught i)
    (fun i result _ => hlog i result) hnested ?_ ?_ ?_ ?_ ?_ ?_ ?_
  · rw [hstack]
    exact List.nodup_cons.mpr ⟨hframe, h.frames⟩
  · intro i caller' code' hi hmem
    simp only [hstack, List.mem_cons, Frame.code.injEq] at hmem
    exact hmem.resolve_left fun heq => hi heq.1
  · intro caller' code' hmem
    simp only [hstack, List.mem_cons, Frame.code.injEq] at hmem
    obtain ⟨-, -, rfl⟩ := hmem.resolve_right (hfree caller' code')
    exact ⟨g, hget, hrunning, hreaches⟩
  · intro g' hget'
    obtain rfl := Option.some.inj (hget.symm.trans hget')
    exact hsound
  · intro result hmem
    exact absurd ((hlog gen result).mp hmem) (hunfinished result)
  · intro hnone
    rw [hget] at hnone
    cases hnone
  · intro g' hget' i g'' hi hget''
    obtain rfl := Option.some.inj (hget.symm.trans hget')
    exact hcontext i g'' hi hget''

/-- The generator of the innermost frame is suspended or done, and the frame goes. -/
theorem GensSound.leave {stack : List (Frame V E)} {data : GenData Unit V E (BodyCode V E)}
    (h : GensSound c) (ha : Advances T N c.promises c'.promises)
    (hT : ∀ i g, i ≠ gen → c.gens[i]? = some g → ¬ T g.promise)
    (top : c.stack = .code gen caller code :: stack) (get : c.gens[gen]? = some g)
    (hstack : c'.stack = stack) (hnested : Nested c'.promises.control stack)
    (hset : c'.gens[gen]? = some { g with data := data })
    (hgens : ∀ i, i ≠ gen → c'.gens[i]? = c.gens[i]?) (hcaught : c'.caught = c.caught)
    (hlog : ∀ i result, i ≠ gen → (.finished i result ∈ c'.log ↔ .finished i result ∈ c.log))
    (hsound : GenSound c' gen { g with data := data })
    (hfinished : ∀ result, .finished gen result ∈ c'.log → data.status = .done ∧
      data.executor.eval c'.oracle [] = some result ∧ Settles c'.promises g.promise result) :
    GensSound c' := by
  obtain ⟨-, -, hnodup, hnone⟩ := h.innermost top get
  refine h.advance ha gen hT hgens (fun i _ => caughtBy_congr hcaught i) hlog (hstack ▸ hnested)
    (hstack ▸ hnodup) ?_ ?_ ?_ ?_ ?_ ?_
  · intro i caller' code' _ hmem
    rw [hstack] at hmem
    simp [top, hmem]
  · intro caller' code' hmem
    rw [hstack] at hmem
    exact absurd hmem (hnone caller' code')
  · intro g' hget
    obtain rfl := Option.some.inj (hset.symm.trans hget)
    exact hsound
  · intro result hmem
    exact ⟨_, hset, hfinished result hmem⟩
  · intro hnone
    rw [hset] at hnone
    cases hnone
  · intro g' hget i g'' hi hget' heq
    obtain rfl := Option.some.inj (hset.symm.trans hget)
    exact hi (h.contexts gen i g g'' get hget' heq).symm

end Frames

/-! ### Beginning and resuming an await -/

omit [FnTrait F E] in
theorem Await.outer_inj {a : Await} (h : a.onValue < a.onError) {side side' : Side}
    (heq : a.outer side = a.outer side') : side = side' := by
  cases side with
  | fulfilled =>
      cases side' with
      | fulfilled => rfl
      | rejected => exact absurd heq (Nat.ne_of_lt h)
  | rejected =>
      cases side' with
      | fulfilled => exact absurd heq.symm (Nat.ne_of_lt h)
      | rejected => rfl

section Await

variable {a : Await}

omit [FnTrait F E] in
/-- No generator has been resumed from an await whose derived promises are new. -/
theorem AwaitsSound.resumptions_new (h : AwaitsSound c)
    (hnew : ∀ side, c.promises.state.heap.length ≤ a.outer side) :
    resumptions a c.log = [] := by
  refine resumptions_eq_nil.mpr fun event hevent side houter => ?_
  cases event with
  | resumed gen outer status answer =>
      obtain rfl := Option.some.inj houter
      obtain ⟨-, a', side', hmem, -, heq⟩ := h.resumed _ _ _ _ hevent
      have hlt := (h.sound a' hmem).outer_lt side'
      exact absurd (hnew side) (Nat.not_le.mpr (heq ▸ hlt))
  | awaits a' => cases houter
  | finished gen result => cases houter

/-- The awaits of a transition that begins one, with new derived promises. -/
theorem AwaitsSound.begin (h : AwaitsSound c)
    (hr : Recorded c.promises.control.passed c.promises.state)
    (ha : Advances T (fun side p outer f =>
      p = a.promise ∧ outer = a.outer side ∧ f = a.handler side) c.promises c'.promises)
    (hlog : c'.log = c.log ++ [.awaits a])
    (hnew : ∀ side, c.promises.state.heap.length ≤ a.outer side) (hlt : a.onValue < a.onError)
    (hrunning : ∀ g, c.gens[a.gen]? = some g → g.data.status ≠ .suspended)
    (hgens : ∀ i, i ≠ a.gen → c'.gens[i]? = c.gens[i]?)
    (hleaves : ∀ a', Leaves a' c c') (hquiet : c'.awaitHandler? = none)
    (hsound : AwaitSound c' a) (hwaiting : Waiting c' a) : AwaitsSound c' := by
  have hawaits {a' : Await} : .awaits a' ∈ c'.log ↔ .awaits a' ∈ c.log ∨ a' = a := by
    simp [hlog]
  have hinj {a' : Await} {side side' : Side} (hmem : .awaits a' ∈ c.log) :
      a'.outer side ≠ a.outer side' := by
    intro heq
    have hlt := (h.sound a' hmem).outer_lt side
    exact absurd (hnew side') (Nat.not_le.mpr (heq ▸ hlt))
  -- the generator was running, so that it has been resumed from every earlier await
  have hunique {a' : Await} (hmem : .awaits a' ∈ c.log) (hgen : a'.gen = a.gen) :
      resumptions a' c'.log ≠ [] := by
    rw [(hleaves a').resumptions_eq]
    rcases (h.sound a' hmem).state with hw | ⟨side, answer, hresumed⟩
    · obtain ⟨g, -, hget, hstatus, -⟩ := hw.suspended
      exact absurd hstatus (hrunning g (hgen ▸ hget))
    · simp [hresumed.once]
  refine ⟨?_, ?_, ?_, ?_, ?_, ?_, ?_, ?_⟩
  · intro a' hmem
    rcases hawaits.mp hmem with hmem | rfl
    · exact (h.sound a' hmem).leave (hleaves a')
    · exact hsound
  · intro a₁ a₂ hmem₁ hmem₂ hgen hfresh₁ hfresh₂
    rcases hawaits.mp hmem₁ with hmem₁ | rfl
    · rcases hawaits.mp hmem₂ with hmem₂ | rfl
      · exact h.unique a₁ a₂ hmem₁ hmem₂ hgen
          ((hleaves a₁).resumptions_eq.symm.trans hfresh₁)
          ((hleaves a₂).resumptions_eq.symm.trans hfresh₂)
      · exact absurd hfresh₁ (hunique hmem₁ hgen)
    · rcases hawaits.mp hmem₂ with hmem₂ | rfl
      · exact absurd hfresh₂ (hunique hmem₂ hgen.symm)
      · rfl
  · intro a₁ a₂ side₁ side₂ hmem₁ hmem₂ heq
    rcases hawaits.mp hmem₁ with hmem₁ | rfl
    · rcases hawaits.mp hmem₂ with hmem₂ | rfl
      · exact h.outer_inj a₁ a₂ side₁ side₂ hmem₁ hmem₂ heq
      · exact absurd heq (hinj hmem₁)
    · rcases hawaits.mp hmem₂ with hmem₂ | rfl
      · exact absurd heq.symm (hinj hmem₂)
      · exact ⟨rfl, Await.outer_inj hlt heq⟩
  · intro side p outer f gen hreg hgen
    rcases ha.registered side p outer f hreg with hold | ⟨rfl, rfl, rfl⟩
    · obtain ⟨a', hmem, hrest⟩ := h.owned side p outer f gen hold hgen
      exact ⟨a', hawaits.mpr (.inl hmem), hrest⟩
    · exact ⟨a, hawaits.mpr (.inr rfl), rfl, rfl, rfl⟩
  · intro a' side side' p f hmem hreg
    rcases hawaits.mp hmem with hmem | rfl
    · rcases ha.registered side' p _ f hreg with hold | ⟨-, heq, -⟩
      · exact h.registration a' side side' p f hmem hold
      · exact absurd heq (hinj hmem)
    · rcases ha.registered side' p _ f hreg with hold | ⟨rfl, heq, rfl⟩
      · have hlt := hr.outers_lt _ (mem_outers.mpr ⟨_, _, _, hold⟩)
        exact absurd (hnew side) (Nat.not_le.mpr hlt)
      · obtain rfl := Await.outer_inj hlt heq
        exact ⟨rfl, rfl, rfl⟩
  · intro p outer f hhandler
    simp [hquiet] at hhandler
  · intro gen outer status answer hresumed
    have hold : .resumed gen outer status answer ∈ c.log := by simpa [hlog] using hresumed
    obtain ⟨hstatus, a', side, hmem, hrest⟩ := h.resumed _ _ _ _ hold
    exact ⟨hstatus, a', side, hawaits.mpr (.inl hmem), hrest⟩
  · intro gen g hget hstatus
    by_cases hi : gen = a.gen
    · exact ⟨a, hawaits.mpr (.inr rfl), hi.symm, hwaiting⟩
    · rw [hgens gen hi] at hget
      obtain ⟨a', hmem, hgen, hw⟩ := h.suspended gen g hget hstatus
      exact ⟨a', hawaits.mpr (.inl hmem), hgen, hw.leave (hleaves a')⟩

/-- The awaits of a transition that resumes the generator of one of them. -/
theorem AwaitsSound.resume {side : Side} {f : Handler F} {answer : Except (Exn E) V}
    (h : AwaitsSound c) (hq : QueueInv c.promises)
    (hr : Recorded c.promises.control.passed c.promises.state)
    (hmem : .awaits a ∈ c.log) (hwaiting : Waiting c a)
    (handler : c.awaitHandler? = some (a.promise, a.outer side, f))
    (hpromises : c'.promises = c.promises) (hcaught : c'.caught = c.caught)
    (hlog : c'.log = c.log ++ [.resumed a.gen (a.outer side) .suspended answer])
    (hgens : ∀ i, i ≠ a.gen → c'.gens[i]? = c.gens[i]?)
    (hrunning : ∀ g, c'.gens[a.gen]? = some g → g.data.status ≠ .suspended)
    (hquiet : c'.awaitHandler? = none) (hresumed : Resumed c' a side answer) :
    AwaitsSound c' := by
  have ha : Advances (fun _ => False) (fun _ _ _ _ => False) c.promises c'.promises := by
    rw [hpromises]
    exact .refl hq hr
  -- only the handlers of the resumed await have been called and not returned
  have hleaves {a' : Await} (hmem' : .awaits a' ∈ c.log) (hne : a' ≠ a) : Leaves a' c c' := by
    refine ⟨⟨_, _, ha⟩, ?_, ?_, fun _ => caughtBy_congr hcaught _, ?_⟩
    · rw [hlog, resumptions_append, resumptions_of_ne, List.append_nil]
      intro side' heq
      exact hne (h.outer_inj a a' side side' hmem hmem' (Option.some.inj heq)).1.symm
    · intro hwaiting' g' hget _
      have hgen : a'.gen ≠ a.gen := fun heq =>
        hne (h.unique a' a hmem' hmem heq hwaiting'.fresh hwaiting.fresh)
      rwa [hgens _ hgen]
    · intro hwaiting' side' turn' p f' arg' hcall
      rw [hpromises] at hcall
      have hnow := (hwaiting'.called side' turn' p f' arg' hcall).symm.trans handler
      obtain ⟨-, houter, -⟩ : a'.promise = a.promise ∧ a'.outer side' = a.outer side ∧ _ := by
        simpa using hnow
      exact absurd (h.outer_inj a' a side' side hmem' hmem houter).1 hne
  refine h.advance ha (hlog ▸ List.prefix_append _ _) (by simp [hlog]) ?_ (by simp) ?_ ?_ ?_
  · intro a' hmem'
    by_cases heq : a' = a
    · subst heq
      have hold := h.sound a' hmem
      exact ⟨hpromises ▸ hold.known, hpromises ▸ hold.outer_lt, hpromises ▸ hold.registered,
        .inr ⟨side, answer, hresumed⟩⟩
    · exact (h.sound a' hmem').leave (hleaves hmem' heq)
  · intro p outer f hhandler
    simp [hquiet] at hhandler
  · intro gen outer status answer' hmem'
    rw [hlog, List.mem_append, List.mem_singleton] at hmem'
    refine hmem'.imp_right fun heq => ?_
    obtain ⟨rfl, rfl, rfl, -⟩ := Event.resumed.inj heq
    exact ⟨rfl, a, side, hmem, rfl, rfl⟩
  · intro gen g hget hstatus
    by_cases hgen : gen = a.gen
    · subst hgen
      exact absurd hstatus (hrunning g hget)
    · rw [hgens gen hgen] at hget
      obtain ⟨a', hmem', rfl, hwaiting'⟩ := h.suspended gen g hget hstatus
      have hne : a' ≠ a := fun heq => hgen (heq ▸ rfl)
      exact ⟨a', hmem', rfl, hwaiting'.leave (hleaves hmem' hne)⟩

end Await

end Preservation

end Libasync.AsyncFunc
