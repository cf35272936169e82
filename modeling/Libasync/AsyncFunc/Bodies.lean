import Libasync.AsyncFunc.Transitions

/-! # The transitions of generators -/

namespace Libasync.AsyncFunc

open Promise Generator Foundation Code Automaton

variable {V E F : Type*}

theorem gen_handler (a : Await) (side : Side) :
    (a.handler side : Handler F).gen? = some a.gen := by
  cases side <;> rfl

theorem settledOn_unique {s : State V E (Handler F)} {side side' : Side} {p : Ref}
    (h : s.SettledOn side p) (h' : s.SettledOn side' p) : side = side' := by
  obtain ⟨status, hstatus, hside⟩ := h
  obtain ⟨status', hstatus', hside'⟩ := h'
  obtain rfl := Option.some.inj (hstatus.symm.trans hstatus')
  exact Option.some.inj (hside.symm.trans hside')

section Loop

variable [Blank V] [FnTrait F E] {c c' : Config V E F}

/-- The loop of `promise_task` goes on. If it gives control to a handler of an awaited promise,
the await is waiting. -/
theorem Sound.loop {promises : Promise.Config V E (Handler F)} {rest : List (Frame V E)}
    (h : Sound c) (hm : c.promises.failing? = none) (top : c.stack = .task :: rest)
    (quiet : c.awaitHandler? = none) (run : Promise.Step c.promises .tau promises) :
    Sound ({ c with promises } : Config V E F) := by
  have ha : Advances (fun _ => False) (fun _ _ _ _ => False) c.promises promises :=
    (run.advances h.queue h.recorded hm).mono (by simp [Promise.Label.context?])
      (by simp [Promise.Label.Registers])
  have hleaves : ∀ a, .awaits a ∈ c.log → Leaves a c { c with promises } := by
    intro a hmem
    refine ⟨⟨_, _, ha⟩, rfl, fun _ g hget _ => hget, fun _ => rfl, ?_⟩
    intro hwaiting side turn p f arg hcall
    rcases run.called_mem h.queue.scope hcall with hold | ⟨-, -, j, hcontrol⟩
    · have hnow := hwaiting.called side turn p f arg hold
      simp [quiet] at hnow
    · obtain ⟨status, side', -, -, -, hreg⟩ := ha.recorded.delivered hcall
      have hold := (ha.registered side' p _ f hreg).resolve_right id
      obtain ⟨-, rfl, rfl⟩ := h.awaits.registration a side side' p f hmem hold
      simp only [Config.awaitHandler?, top, hcontrol]
      exact runningAwaitHandler?_handler (gen_handler a side)
  refine ⟨ha.queue, ha.recorded, ?_, ?_⟩
  · refine h.gens.calm ha (by simp) rfl (fun _ => rfl) rfl (fun frame hmem => .inl hmem) rfl ?_
    have hnested := h.gens.nested
    rw [top] at hnested
    rw [top]
    exact hnested
  · refine h.awaits.advance ha List.prefix_rfl (fun a hmem => hmem)
      (fun a hmem => (h.awaits.sound a hmem).leave (hleaves a hmem)) (by simp) ?_
      (fun gen outer status answer hmem => .inl hmem) ?_
    · intro p outer f hhandler
      obtain ⟨-, i, j, gen, -, hcontrol, hgen⟩ := runningAwaitHandler?_eq_some hhandler
      obtain ⟨arg, hlog⟩ := called_of_tau run hcontrol
      have hcall : .called i p outer f arg ∈ promises.state.log := by simp [hlog]
      obtain ⟨status, side, hstatus, hside, -, hreg⟩ := ha.recorded.delivered hcall
      have hold := (ha.registered side p outer f hreg).resolve_right id
      obtain ⟨a, hmem, rfl, rfl, rfl⟩ := h.awaits.owned side p outer f gen hold hgen
      have hsettled : promises.state.SettledOn side a.promise := ⟨status, hstatus, hside⟩
      refine ⟨a, side, hmem, rfl, rfl, rfl, ?_, hsettled, i, arg, hcall⟩
      rcases (h.awaits.sound a hmem).state with hwaiting | ⟨side', answer, hresumed⟩
      · exact hwaiting.leave (hleaves a hmem)
      · -- this await has been resumed by the same handler before
        obtain rfl := settledOn_unique (settledOn_mono ha hresumed.settled) hsettled
        obtain ⟨turn', p', f', arg', hcall'⟩ := hresumed.called
        exact absurd hcall' (ha.recorded.not_called_before hlog)
    · intro gen g hget hstatus
      obtain ⟨a, hmem, hgen, hwaiting⟩ := h.awaits.suspended gen g hget hstatus
      exact ⟨a, hmem, hgen, hwaiting.leave (hleaves a hmem)⟩

/-- An async function is called: the new generator runs the body from its start. -/
theorem Sound.call {body : Body V E} {promises : Promise.Config V E (Handler F)} (h : Sound c)
    (user : c.userCode = true) (run : Promise.Step c.promises (.op .promise) promises)
    (hc' : c' = { c with
      promises
      gens := c.gens ++ [startedGen c.promises.state.heap.length body]
      stack := .code c.gens.length .call body.code :: c.stack }) : Sound c' := by
  have hcontrol := control_of_op run
  have e : Effect (fun _ => False) (fun _ _ _ _ => False) c.promises promises :=
    .of_step run h.queue h.recorded (by simp) (by simp [Promise.Label.context?, Op.context?])
      (by simp [Promise.Label.Registers, Op.attaches?])
  have ha : Advances (fun _ => False) (fun _ _ _ _ => False) c.promises c'.promises := by
    rw [hc']
    exact e.advances
  have hold : ∀ i, i ≠ c.gens.length → c'.gens[i]? = c.gens[i]? := by
    intro i hi
    rw [hc']
    rcases Nat.lt_or_ge i c.gens.length with hlt | hge
    · exact List.getElem?_append_left hlt
    · rw [List.getElem?_eq_none (by simp; omega), List.getElem?_eq_none hge]
  have hnew : c'.gens[c.gens.length]? =
      some (startedGen c.promises.state.heap.length body) := by
    simp [hc']
  have hnone {g : AsyncGen V E} : c.gens[c.gens.length]? ≠ some g := by simp
  have hcaught : c'.caught = c.caught := by rw [hc']
  have hunsettled : Unsettled c.promises.state.heap.length (fun _ _ _ => False) c'.promises := by
    rw [hc']
    obtain ⟨s', control'⟩ := promises
    obtain rfl : s' = c.promises.state.create.1 := state_of_op run
    obtain rfl : control' = c.promises.control := hcontrol
    exact unsettled_of_created h.queue.scope (Nat.le_refl _)
      (by simp [State.status?, State.create])
      (h.queue.scope.state.alloc_not_targeted .pending (Nat.le_refl _))
  refine ⟨ha.queue, ha.recorded, ?_, ?_⟩
  · have hstack : c'.stack = .code c.gens.length .call body.code :: c.stack := by rw [hc']
    refine h.gens.enter ha (by simp) hstack ?_ ?_ ?_ hold hcaught (by simp [hc']) hnew rfl ?_
      ⟨hunsettled.known, by simp [startedGen], fun _ => hunsettled, by simp [startedGen]⟩ ?_
    · rw [hc']
      refine ⟨?_, hcontrol ▸ h.gens.nested⟩
      rw [hcontrol]
      exact user
    · intro caller code hmem
      obtain ⟨g, hget, -⟩ := h.gens.running _ caller code hmem
      exact hnone hget
    · intro result hmem
      obtain ⟨g, hget, -⟩ := h.gens.finished _ result hmem
      exact hnone hget
    · rw [caughtBy_congr hcaught, h.gens.owners _ (by simp)]
      exact .start
    · intro i g _ hget
      exact Nat.ne_of_gt (h.gens.sound i g hget).known
  · have hleaves : ∀ a, Leaves a c c' := by
      intro a
      refine leaves_of_uncalled ha (by rw [hc']; exact e.uncalled)
        (awaitHandler_of_userCode user) (by rw [hc']) (fun _ => caughtBy_congr hcaught _) ?_
      intro g hget _
      refine (hold _ ?_).trans hget
      exact Nat.ne_of_lt (List.getElem?_eq_some_iff.mp hget).1
    refine h.awaits.advance ha (by rw [hc']) (by simp [hc'])
      (fun a hmem => (h.awaits.sound a hmem).leave (hleaves a)) (by simp) ?_
      (fun gen outer status answer hmem => .inl (by rwa [hc'] at hmem)) ?_
    · intro p outer f hhandler
      simp [hc', Config.awaitHandler?, runningAwaitHandler?] at hhandler
    · intro gen g hget hstatus
      by_cases hgen : gen = c.gens.length
      · subst hgen
        obtain rfl := Option.some.inj (hnew.symm.trans hget)
        cases hstatus
      · rw [hold gen hgen] at hget
        obtain ⟨a, hmem, hgen, hwaiting⟩ := h.awaits.suspended gen g hget hstatus
        exact ⟨a, hmem, hgen, hwaiting.leave (hleaves a)⟩

end Loop

/-! ### Resumption -/

section Resumed

variable [Blank V] [FnTrait F E] [GeneratorError E] {c : Config V E F}

omit [Blank V] [FnTrait F E] in
/-- The handler on the side by which the promise has settled switches to a suspended generator
and passes the outcome on. -/
theorem handle_of_suspended {data : GenData Unit V E (BodyCode V E)}
    {k : Except (Exn E) V → BodyCode V E} {f : Handler F} {status : PromiseStatus V E}
    {answer : Except (Exn E) V} {sent : Sent Unit V E (BodyCode V E)}
    (hstatus : data.status = .suspended) (hctx : data.genCtx = some k)
    (h : Config.handle data f status = some (answer, sent)) :
    outcome? status = some answer ∧ ∃ switched entered, sent = .switched switched ∧
      switched.enter = some (entered, k answer) ∧ entered.status = .running ∧
      entered.executor = data.executor := by
  cases f with
  | user f => simp [Config.handle] at h
  | next gen =>
      cases status with
      | pending => simp [Config.handle] at h
      | rejected e => simp [Config.handle] at h
      | resolved v =>
          obtain ⟨rfl, rfl⟩ : Except.ok v = answer ∧ data.next v = sent := by
            simpa [Config.handle] using h
          obtain ⟨switched, hsent, henter, hrun, hexec⟩ := data.next_of_suspended hstatus hctx v
          exact ⟨rfl, switched, switched, hsent, henter, hrun, hexec⟩
  | throw_ gen =>
      cases status with
      | pending => simp [Config.handle] at h
      | resolved v => simp [Config.handle] at h
      | rejected e =>
          obtain ⟨rfl, rfl⟩ : Except.error e = answer ∧ data.throw_ (.eptr e) = sent := by
            simpa [Config.handle] using h
          obtain ⟨switched, entered, hsent, henter, hrun, hexec⟩ :=
            GenData.throw_of_suspended hstatus hctx (.eptr e)
          exact ⟨rfl, switched, entered, hsent, henter, hrun, hexec⟩

omit [GeneratorError E] in
/-- The await whose handler has control, and its generator. -/
theorem Sound.waiting_of_handler {p outer : Ref} {f : Handler F} {gen : GenRef}
    {g : AsyncGen V E} (h : Sound c) (handler : c.awaitHandler? = some (p, outer, f))
    (gen_eq : f.gen? = some gen) (get : c.gens[gen]? = some g) :
    ∃ a side k, .awaits a ∈ c.log ∧ a.promise = p ∧ a.outer side = outer ∧ a.gen = gen ∧
      Waiting c a ∧ c.promises.state.SettledOn side p ∧
      (∃ turn arg, .called turn p outer f arg ∈ c.promises.state.log) ∧
      g.data.status = .suspended ∧ g.data.genCtx = some k ∧
      Reaches c.oracle g.data.executor (c.caughtBy gen) (.ask p k) := by
  obtain ⟨a, side, hmem, rfl, rfl, rfl, hwaiting, hsettled, hcalled⟩ :=
    h.awaits.handler p outer f handler
  obtain rfl : a.gen = gen := Option.some.inj ((gen_handler a side).symm.trans gen_eq)
  obtain ⟨g', k, hget, hstatus, hctx, hreaches⟩ := hwaiting.suspended
  obtain rfl : g = g' := Option.some.inj (get.symm.trans hget)
  exact ⟨a, side, k, hmem, rfl, rfl, rfl, hwaiting, hsettled, hcalled, hstatus, hctx, hreaches⟩

/-- A handler of an awaited promise always switches to the generator. -/
theorem Sound.not_refused {p outer : Ref} {f : Handler F} {gen : GenRef} {g : AsyncGen V E}
    {status : PromiseStatus V E} {answer : Except (Exn E) V} {sent : Sent Unit V E (BodyCode V E)}
    (h : Sound c) (handler : c.awaitHandler? = some (p, outer, f)) (gen_eq : f.gen? = some gen)
    (get : c.gens[gen]? = some g)
    (handled : Config.handle g.data f status = some (answer, sent)) :
    ∃ data, sent = .switched data := by
  obtain ⟨a, side, k, -, -, -, -, -, -, -, hstatus, hctx, -⟩ :=
    h.waiting_of_handler handler gen_eq get
  obtain ⟨-, data, -, hsent, -⟩ := handle_of_suspended hstatus hctx handled
  exact ⟨data, hsent⟩

theorem Sound.resume {p outer : Ref} {f : Handler F} {gen : GenRef} {g : AsyncGen V E}
    {status : PromiseStatus V E} {answer : Except (Exn E) V}
    {data data' : GenData Unit V E (BodyCode V E)} {code : BodyCode V E} {c' : Config V E F}
    (h : Sound c) (handler : c.awaitHandler? = some (p, outer, f)) (gen_eq : f.gen? = some gen)
    (get : c.gens[gen]? = some g)
    (status_eq : (c.promises.state.get? p).map PromiseData.status = some status)
    (sent : Config.handle g.data f status = some (answer, .switched data))
    (enters : data.enter = some (data', code))
    (hc' : c' = { (c.record (.resumed gen outer g.data.status answer)).setData gen data' with
      stack := .code gen .handler code :: c.stack }) : Sound c' := by
  obtain ⟨a, side, k, hmem, rfl, rfl, rfl, hwaiting, hsettled, ⟨turn, arg, hcalled⟩, hstatus,
    hctx, hreaches⟩ := h.waiting_of_handler handler gen_eq get
  obtain ⟨houtcome, switched, entered, hsent, henter, hrun, hexec⟩ :=
    handle_of_suspended hstatus hctx sent
  obtain rfl := Sent.switched.inj hsent
  obtain ⟨rfl, rfl⟩ := Prod.mk.inj (Option.some.inj (enters.symm.trans henter))
  have hanswer : c.oracle a.promise = some answer := by
    simp only [Config.oracle, State.status?, status_eq]
    exact houtcome
  obtain ⟨rest, -, -, -, htop, -, -⟩ := runningAwaitHandler?_eq_some handler
  have hpromises : c'.promises = c.promises := by rw [hc']; rfl
  have hcaught : c'.caught = c.caught := by rw [hc']; rfl
  have hlog : c'.log = c.log ++ [.resumed a.gen (a.outer side) g.data.status answer] := by
    rw [hc']; rfl
  have ha : Advances (fun _ => False) (fun _ _ _ _ => False) c.promises c'.promises := by
    rw [hpromises]
    exact .refl h.queue h.recorded
  have hgens : ∀ i, c'.gens[i]? =
      if i = a.gen then c.gens[i]?.map fun g => { g with data := data' } else c.gens[i]? := by
    intro i
    rw [hc']
    exact getElem?_setData _ _ _ _
  have hself : c'.gens[a.gen]? = some { g with data := data' } := by simp [hgens, get]
  refine ⟨ha.queue, ha.recorded, ?_, ?_⟩
  · refine h.gens.enter ha (by simp) (by rw [hc']) ?_ ?_ ?_ (fun i hi => by simp [hgens, hi])
      hcaught (by simp [hlog]) hself hrun ?_ ?_ ?_
    · rw [hc']
      exact ⟨⟨rest, htop⟩, h.gens.nested⟩
    · intro caller code hframe
      obtain ⟨g', hget, hrunning, -⟩ := h.gens.running _ caller code hframe
      obtain rfl := Option.some.inj (get.symm.trans hget)
      simp [hstatus] at hrunning
    · exact h.gens.not_finished get (by simp [hstatus])
    · rw [hexec, caughtBy_congr hcaught]
      exact (hreaches.answered answer hanswer).mono (oracle_mono ha)
    · have hold := h.gens.sound a.gen g get
      refine ⟨by rw [hpromises]; exact hold.known, by simp [hrun], ?_, by simp [hrun]⟩
      intro _
      rw [hpromises]
      exact hold.unsettled (by simp [hstatus])
    · intro i g' hi hget heq
      exact hi (h.gens.contexts a.gen i g g' get hget heq).symm
  · have hquiet : c'.awaitHandler? = none := by
      simp [hc', Config.awaitHandler?, runningAwaitHandler?]
    refine h.awaits.resume h.queue h.recorded hmem hwaiting handler hpromises hcaught
      (hstatus ▸ hlog) (fun i hi => by simp [hgens, hi]) ?_ hquiet
      ⟨hpromises ▸ hsettled, oracle_mono ha _ _ hanswer, ?_, turn, _, _, arg,
        hpromises ▸ hcalled⟩
    · intro g' hget
      obtain rfl := Option.some.inj (hself.symm.trans hget)
      simp [hrun]
    · rw [hlog, resumptions_append, hwaiting.fresh, resumptions_of_outer side rfl, hstatus]
      rfl

end Resumed

/-! ### The running body -/

section Running

variable [Blank V] [FnTrait F E] [GeneratorError E] {c c' : Config V E F}

theorem Sound.await {gen : GenRef} {caller : Caller} {p : Ref}
    {k : Except (Exn E) V → BodyCode V E} {stack : List (Frame V E)} {g : AsyncGen V E}
    {data : GenData Unit V E (BodyCode V E)} {promises : Promise.Config V E (Handler F)}
    (h : Sound c) (top : c.stack = .code gen caller (.ask p k) :: stack)
    (get : c.gens[gen]? = some g) (yields : g.data.yield_ () k = .ok data)
    (runs : run Promise.step c.promises (registers gen p ++ Config.returnTo caller) =
      some promises)
    (hc' : c' = { ({ c with promises } : Config V E F).setData gen data with stack }.record
      (.awaits (c.awaitOf gen p))) : Sound c' := by
  obtain ⟨hrunning, hreaches, -, -⟩ := h.gens.innermost top get
  obtain ⟨⟨e, known, registered, onValue_new, onValue_lt, onError_lt⟩, hreturned⟩ :=
    awaitEffect h.queue h.recorded runs
  rw [GenData.yield_of_running hrunning] at yields
  obtain rfl := Except.ok.inj yields
  let a := c.awaitOf gen p
  have hnested : Nested promises.control stack ∧
      runningAwaitHandler? stack promises.control = none :=
    hreturned.nested (top ▸ h.gens.nested)
  have hpromises : c'.promises = promises := by rw [hc']; rfl
  have hstack : c'.stack = stack := by rw [hc']; rfl
  have hcaught : c'.caught = c.caught := by rw [hc']; rfl
  have hlog : c'.log = c.log ++ [.awaits a] := by rw [hc']; rfl
  have hquiet' : c'.awaitHandler? = none := by
    rw [Config.awaitHandler?, hpromises, hstack]
    exact hnested.2
  rw [← hpromises] at e registered onError_lt
  have hnew : ∀ side, c.promises.state.heap.length ≤ a.outer side := by
    intro side
    cases side with
    | fulfilled => exact onValue_new
    | rejected => exact Nat.le_trans onValue_new (Nat.le_of_lt onValue_lt)
  have hgens : ∀ i, c'.gens[i]? = if i = gen then c.gens[i]?.map fun g =>
      { g with data := { g.data with outVal := some (), status := .suspended, genCtx := some k } }
      else c.gens[i]? := by
    intro i
    rw [hc']
    refine (getElem?_setData _ _ _ _).trans ?_
    by_cases hi : i = gen
    · subst hi
      simp [get]
    · simp [hi]
  have hself : c'.gens[gen]? = some { g with
      data := { g.data with outVal := some (), status := .suspended, genCtx := some k } } := by
    simp [hgens, get]
  have hold : ∀ i, i ≠ gen → c'.gens[i]? = c.gens[i]? := fun i hi => by simp [hgens, hi]
  have hleaves : ∀ a', Leaves a' c c' := by
    intro a'
    refine leaves_of_running e.advances e.uncalled top get hrunning ?_
      (fun i _ => caughtBy_congr hcaught i) hold
    rw [hlog, resumptions_append, resumptions_of_none rfl, List.append_nil]
  have hwaiting : Waiting c' a := by
    have hreaches' : Reaches c'.oracle g.data.executor (c'.caughtBy gen) (.ask p k) := by
      rw [caughtBy_congr hcaught]
      exact hreaches.mono (oracle_mono e.advances)
    refine ⟨?_, ⟨_, k, hself, rfl, rfl, hreaches'⟩, ?_⟩
    · rw [hlog, resumptions_append, h.awaits.resumptions_new hnew, resumptions_of_none rfl]
      rfl
    · intro side turn q f arg hcall
      have hlt := h.queue.scope.state.calls _ (e.uncalled _ _ _ _ _ hcall) _ rfl
      exact absurd (hnew side) (Nat.not_le.mpr hlt)
  refine ⟨e.advances.queue, e.advances.recorded, ?_, ?_⟩
  · have hg := h.gens.sound gen g get
    refine h.gens.leave e.advances (by simp) top get hstack (hpromises ▸ hnested.1) hself hold
      hcaught (by simp [hlog]) ?_ ?_
    · refine ⟨Nat.lt_of_lt_of_le hg.known e.advances.length_le, by simp, ?_, by simp⟩
      intro _
      exact e.advances.unsettled _ id (hg.unsettled (by simp [hrunning]))
    · intro result hmem
      exact absurd (by simpa [hlog] using hmem)
        (h.gens.not_finished get (by simp [hrunning]) result)
  · refine h.awaits.begin h.recorded e.advances hlog hnew onValue_lt ?_ hold hleaves hquiet'
      ⟨Nat.lt_of_lt_of_le known e.advances.length_le, ?_, registered, .inl hwaiting⟩ hwaiting
    · intro g' hget
      obtain rfl := Option.some.inj (get.symm.trans hget)
      simp [hrunning]
    · intro side
      cases side with
      | fulfilled => exact Nat.lt_trans onValue_lt onError_lt
      | rejected => exact onError_lt

omit [Blank V] [FnTrait F E] [GeneratorError E] in
theorem eval_ending (oracle : Ref → Option (Except (Exn E) V)) (own : List (Exn E))
    (result : Except (Exn E) (Return V)) :
    Code.eval oracle (ending result) own = some result := by
  cases result <;> rfl

omit [GeneratorError E] in
/-- The body ends, and its executor settles the promise. -/
theorem Sound.end_ {gen : GenRef} {caller : Caller} {result : Except (Exn E) (Return V)}
    {stack : List (Frame V E)} {g : AsyncGen V E} {promises : Promise.Config V E (Handler F)}
    (h : Sound c) (top : c.stack = .code gen caller (ending result) :: stack)
    (get : c.gens[gen]? = some g)
    (runs : run Promise.step c.promises
      (.op (settleOp g.promise result) :: Config.returnTo caller) = some promises)
    (hc' : c' = { ({ c with promises } : Config V E F).setData gen (g.data.finish ()) with
      stack }.record (.finished gen result)) : Sound c' := by
  obtain ⟨hrunning, hreaches, -, -⟩ := h.gens.innermost top get
  have hg := h.gens.sound gen g get
  obtain ⟨e, hsettles, hreturned⟩ :=
    finishEffect h.queue h.recorded (hg.unsettled (by simp [hrunning])) runs
  have hnested : Nested promises.control stack ∧
      runningAwaitHandler? stack promises.control = none :=
    hreturned.nested (top ▸ h.gens.nested)
  have hpromises : c'.promises = promises := by rw [hc']; rfl
  have hstack : c'.stack = stack := by rw [hc']; rfl
  have hcaught : c'.caught = c.caught := by rw [hc']; rfl
  have hlog : c'.log = c.log ++ [.finished gen result] := by rw [hc']; rfl
  rw [← hpromises] at e hsettles
  have hgens : ∀ i, c'.gens[i]? =
      if i = gen then c.gens[i]?.map fun g' => { g' with data := g.data.finish () }
      else c.gens[i]? := by
    intro i
    rw [hc']
    exact getElem?_setData _ _ _ _
  have hself : c'.gens[gen]? = some { g with data := g.data.finish () } := by simp [hgens, get]
  have hold : ∀ i, i ≠ gen → c'.gens[i]? = c.gens[i]? := fun i hi => by simp [hgens, hi]
  have hleaves : ∀ a, Leaves a c c' := by
    intro a
    refine leaves_of_running e.advances e.uncalled top get hrunning ?_
      (fun i _ => caughtBy_congr hcaught i) hold
    rw [hlog, resumptions_append, resumptions_of_none rfl, List.append_nil]
  refine ⟨e.advances.queue, e.advances.recorded, ?_, ?_⟩
  · refine h.gens.leave e.advances ?_ top get hstack (hpromises ▸ hnested.1) hself hold hcaught ?_
      ⟨Nat.lt_of_lt_of_le hg.known e.advances.length_le, by simp [GenData.finish],
        by simp [GenData.finish], fun _ => ⟨result, by simp [hlog]⟩⟩ ?_
    · intro i g' hi hget heq
      exact hi (h.gens.contexts i gen g' g hget get heq)
    · intro i result' hi
      simp [hlog, hi]
    · intro result' hmem
      rw [hlog, List.mem_append, List.mem_singleton] at hmem
      have hnot := h.gens.not_finished get (by simp [hrunning]) result'
      obtain ⟨-, rfl⟩ := Event.finished.inj (hmem.resolve_left hnot)
      have heval := hreaches.eval_eq.trans (eval_ending c.oracle _ result')
      exact ⟨rfl, eval_mono (oracle_mono e.advances) heval, hsettles⟩
  · refine h.awaits.advance e.advances (hlog ▸ List.prefix_append _ _) (by simp [hlog])
      (fun a hmem => (h.awaits.sound a hmem).leave (hleaves a)) (by simp) ?_ ?_ ?_
    · intro p outer f hhandler
      rw [Config.awaitHandler?, hpromises, hstack, hnested.2] at hhandler
      cases hhandler
    · intro gen' outer status answer hmem
      exact .inl (by simpa [hlog] using hmem)
    · intro gen' g' hget hstatus
      by_cases hi : gen' = gen
      · subst hi
        obtain rfl := Option.some.inj (hself.symm.trans hget)
        cases hstatus
      · rw [hold gen' hi] at hget
        obtain ⟨a, hmem, hgen', hw⟩ := h.awaits.suspended gen' g' hget hstatus
        exact ⟨a, hmem, hgen', hw.leave (hleaves a)⟩

omit [GeneratorError E] in
/-- The body goes on, with other exceptions caught by it. -/
theorem Sound.goesOn {gen : GenRef} {caller : Caller} {code code' : BodyCode V E}
    {stack : List (Frame V E)} (h : Sound c) (top : c.stack = .code gen caller code :: stack)
    (hstack : c'.stack = .code gen caller code' :: stack) (hpromises : c'.promises = c.promises)
    (hgens : c'.gens = c.gens) (hlog : c'.log = c.log)
    (hcaught : ∀ i, i ≠ gen → c'.caughtBy i = c.caughtBy i)
    (hreaches : ∀ body, Reaches c.oracle body (c.caughtBy gen) code →
      Reaches c.oracle body (c'.caughtBy gen) code') : Sound c' := by
  obtain ⟨g, get, hrunning, hreached⟩ := h.gens.running gen caller code (by simp [top])
  have horacle : c'.oracle = c.oracle := by
    funext p
    rw [Config.oracle, hpromises, Config.oracle]
  have e : Effect (fun _ => False) (fun _ _ _ _ => False) c.promises c'.promises := by
    rw [hpromises]
    exact .refl h.queue h.recorded
  have hleaves : ∀ a, Leaves a c c' := by
    intro a
    exact leaves_of_running e.advances e.uncalled top get hrunning (by rw [hlog]) hcaught
      fun i _ => by rw [hgens]
  have hnested := h.gens.nested
  have hframes := h.gens.frames
  obtain ⟨-, -, -, hnone⟩ := h.gens.innermost top get
  rw [top] at hnested hframes
  refine ⟨e.advances.queue, e.advances.recorded, ?_, ?_⟩
  · refine h.gens.advance e.advances gen (by simp) (fun i _ => by rw [hgens]) hcaught
      (fun i result _ => by rw [hlog]) ?_ ?_ ?_ ?_ ?_ ?_ ?_ ?_
    · rw [hpromises, hstack]
      cases caller <;> exact hnested
    · rw [hstack]
      exact hframes
    · intro i caller' code'' hi hmem
      rw [hstack] at hmem
      simp only [List.mem_cons, Frame.code.injEq] at hmem
      rw [top]
      exact List.mem_cons_of_mem _ (hmem.resolve_left fun heq => hi heq.1)
    · intro caller' code'' hmem
      rw [hstack] at hmem
      simp only [List.mem_cons, Frame.code.injEq] at hmem
      obtain ⟨-, -, rfl⟩ := hmem.resolve_right (hnone caller' code'')
      exact ⟨g, hgens ▸ get, hrunning, horacle ▸ hreaches _ hreached⟩
    · intro g' hget
      have hold := h.gens.sound gen g' (hgens ▸ hget)
      exact hold.advance e.advances id fun result hmem => hlog ▸ hmem
    · intro result hmem
      rw [hgens, horacle, hpromises]
      exact h.gens.finished gen result (hlog ▸ hmem)
    · intro hnone'
      rw [hgens, get] at hnone'
      cases hnone'
    · intro g' hget i g'' hi hget' heq
      exact hi (h.gens.contexts i gen g'' g' hget' (hgens ▸ hget) heq.symm)
  · refine h.awaits.advance e.advances (hlog ▸ List.prefix_rfl) (fun a hmem => hlog ▸ hmem)
      (fun a hmem => (h.awaits.sound a hmem).leave (hleaves a)) (by simp) ?_
      (fun gen' outer status answer hmem => .inl (hlog ▸ hmem)) ?_
    · intro p outer f hhandler
      simp [Config.awaitHandler?, runningAwaitHandler?, hstack] at hhandler
    · intro gen' g' hget hstatus
      rw [hgens] at hget
      obtain ⟨a, hmem, hgen, hw⟩ := h.awaits.suspended gen' g' hget hstatus
      exact ⟨a, hmem, hgen, hw.leave (hleaves a)⟩

end Running

end Libasync.AsyncFunc
