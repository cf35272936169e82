import Libasync.AsyncFunc.DirectStyle

/-! # Bodies that do not await in their `catch` blocks

The caught exceptions of the thread lie in layers, one for each call that has not returned. A body
that awaits outside of its `catch` blocks only has no layer while it is suspended, so the layers
end in the order of the calls, and everyone finds their own exceptions. -/

namespace Libasync.AsyncFunc

open Promise Generator Foundation Code Automaton

variable {V E F : Type*}

/-! ### Layers -/

/-- The stack of caught exceptions, cut into the layers of the calls. `promise_task` was entered
while nothing was being called back, and has no layer while no handler of the program is running. -/
inductive Layers :
    Control (Handler F) E → List (Frame V E) → List ℕ → List (Caught E) → Prop where
  | main {own} (owned : ∀ x ∈ own, x.owner = none) : Layers .idle [] [own.length] own
  | task {control stack blocks caught own} (busy : control ≠ .idle)
      (owned : ∀ x ∈ own, x.owner = none)
      (ended : runsUserCode (.task :: stack) control = false → own = [])
      (below : Layers .idle stack blocks caught) :
      Layers control (.task :: stack) (own.length :: blocks) (own ++ caught)
  | called {control gen rest stack blocks caught own} (owned : ∀ x ∈ own, x.owner = some gen)
      (confined : rest.Confined own.length) (below : Layers control stack blocks caught) :
      Layers control (.code gen .call rest :: stack) blocks (own ++ caught)
  | resumed {control gen rest stack blocks caught own} (owned : ∀ x ∈ own, x.owner = some gen)
      (confined : rest.Confined own.length)
      (quiet : runsUserCode (.task :: stack) control = false)
      (below : Layers control (.task :: stack) blocks caught) :
      Layers control (.code gen .handler rest :: .task :: stack) blocks (own ++ caught)

section

variable {control control' : Control (Handler F) E} {gen : GenRef} {caller : Caller}
  {code : BodyCode V E} {stack : List (Frame V E)} {blocks : List ℕ} {caught : List (Caught E)}

/-- The layer of a body, which may go on with another layer that it owns. -/
theorem Layers.of_code (h : Layers control (.code gen caller code :: stack) blocks caught) :
    ∃ own below, caught = own ++ below ∧ (∀ x ∈ own, x.owner = some gen) ∧
      code.Confined own.length ∧ ∀ own' (code' : BodyCode V E),
        (∀ x ∈ own', x.owner = some gen) → code'.Confined own'.length →
          Layers control (.code gen caller code' :: stack) blocks (own' ++ below) := by
  cases h with
  | called owned confined below =>
      exact ⟨_, _, rfl, owned, confined, fun own' code' owned' confined' =>
        .called owned' confined' below⟩
  | resumed owned confined quiet below =>
      exact ⟨_, _, rfl, owned, confined, fun own' code' owned' confined' =>
        .resumed owned' confined' quiet below⟩

/-- The layer of the code outside of async functions that has control, and what else it may be. -/
theorem Layers.of_outside (h : Layers control stack blocks caught)
    (houtside : runsOutside stack control = true) {n : ℕ} {rest : List ℕ}
    (hblocks : blocks = n :: rest) :
    ∃ own below, caught = own ++ below ∧ own.length = n ∧ (∀ x ∈ own, x.owner = none) ∧
      ∀ own' : List (Caught E), (∀ x ∈ own', x.owner = none) →
        Layers control stack (own'.length :: rest) (own' ++ below) := by
  cases h with
  | main owned =>
      obtain ⟨hlength, rfl⟩ := List.cons.inj hblocks
      refine ⟨_, [], (List.append_nil _).symm, hlength, owned, fun own' owned' => ?_⟩
      rw [List.append_nil]
      exact .main owned'
  | task busy owned ended below =>
      obtain ⟨hlength, rfl⟩ := List.cons.inj hblocks
      refine ⟨_, _, rfl, hlength, owned, fun own' owned' => .task busy owned' ?_ below⟩
      intro hquiet
      rw [show runsOutside _ control = runsUserCode _ control from rfl, hquiet] at houtside
      cases houtside
  | called => cases houtside
  | resumed => cases houtside

/-- `promise_task` goes on when no layer of a handler is left. -/
theorem Layers.goesOn (h : Layers control (.task :: stack) blocks caught)
    (hended : runsUserCode (.task :: stack) control = false ∨ blocks.head? = some 0)
    (busy : control' ≠ .idle) : Layers control' (.task :: stack) blocks caught := by
  cases h with
  | @task _ _ blocks caught own _ owned ended below =>
      obtain rfl : own = [] := by
        rcases hended with hquiet | hhead
        · exact ended hquiet
        · exact List.eq_nil_of_length_eq_zero (Option.some.inj hhead)
      exact .task busy (by simp) (fun _ => rfl) below

/-- A body that is suspended or ends has no layer. -/
theorem Layers.returned (h : Layers control (.code gen caller code :: stack) blocks caught)
    (hcode : ∀ n, code.Confined n → n = 0) (hreturned : ReturnedTo caller control control') :
    Layers control' stack blocks caught := by
  cases h with
  | @called _ _ _ _ _ _ own owned confined below =>
      obtain rfl := List.eq_nil_of_length_eq_zero (hcode _ confined)
      obtain rfl : control' = control := hreturned
      exact below
  | @resumed _ _ _ _ _ _ own owned confined quiet below =>
      obtain rfl := List.eq_nil_of_length_eq_zero (hcode _ confined)
      obtain ⟨i, p, j, rfl⟩ := hreturned
      exact below.goesOn (.inl quiet) (by simp)

end

/-! ### Control -/

section Control

variable [Blank V] [FnTrait F E] {P P' : Promise.Config V E (Handler F)}

omit [Blank V] [FnTrait F E] in
theorem quiet_of_awaitHandler {stack : List (Frame V E)} {control : Control (Handler F) E}
    {awaited : Ref × Ref × Handler F} (h : runningAwaitHandler? stack control = some awaited) :
    runsUserCode stack control = false := by
  cases huser : runsUserCode stack control with
  | false => rfl
  | true =>
      rw [awaitHandler_of_userCode huser] at h
      cases h

/-- A step of `promise_task` is taken while no handler is running. -/
theorem control_of_tau (h : Promise.Step P .tau P') (stack : List (Frame V E)) :
    runsUserCode (.task :: stack) P.control = false ∧ P'.control ≠ .idle := by
  cases h <;> exact ⟨rfl, by simp⟩

theorem returnedTo_of_run {caller : Caller} (ops : List (Op V E (Handler F)))
    (h : run Promise.step P (ops.map .op ++ Config.returnTo caller) = some P') :
    ReturnedTo caller P.control P'.control := by
  induction ops generalizing P with
  | nil =>
      cases caller with
      | call =>
          obtain rfl := Option.some.inj h
          rfl
      | handler =>
          obtain ⟨P₁, hstep, hrest⟩ := run_cons_eq_some _ h
          obtain rfl := Option.some.inj hrest
          exact control_of_finish (.of_step hstep)
  | cons o ops ih =>
      obtain ⟨P₁, hstep, hrest⟩ := run_cons_eq_some _ h
      have hreturned := ih hrest
      rwa [control_of_op (.of_step hstep)] at hreturned

end Control

/-! ### Generators -/

/-- What the generator goes on with awaits outside of its blocks only. -/
structure ConfinedData (data : GenData Unit V E (BodyCode V E)) : Prop where
  executor : data.executor.Confined 0
  suspended : ∀ k, data.genCtx = some k → ∀ answer, (k answer).Confined 0

theorem ConfinedData.of_eq {data data' : GenData Unit V E (BodyCode V E)}
    (h : ConfinedData data) (hexecutor : data'.executor = data.executor)
    (hctx : data'.genCtx = data.genCtx) : ConfinedData data' :=
  ⟨hexecutor ▸ h.executor, fun k hk => h.suspended k (hctx ▸ hk)⟩

theorem confined_setData {c : Config V E F} {gen : GenRef}
    {data : GenData Unit V E (BodyCode V E)} (h : ∀ g ∈ c.gens, ConfinedData g.data)
    (hdata : ConfinedData data) : ∀ g ∈ (c.setData gen data).gens, ConfinedData g.data := by
  intro g hg
  obtain ⟨i, hi⟩ := List.mem_iff_getElem?.mp hg
  rw [getElem?_setData] at hi
  split at hi
  · obtain ⟨g', -, rfl⟩ := Option.map_eq_some_iff.mp hi
    exact hdata
  · exact h g (List.mem_of_getElem? hi)

/-- The executor starts, or goes on after the `yield` at which it is suspended. -/
theorem ConfinedData.enter {data data' : GenData Unit V E (BodyCode V E)} {code : BodyCode V E}
    (h : ConfinedData data) (henter : data.enter = some (data', code)) :
    ConfinedData data' ∧ code.Confined 0 := by
  simp only [GenData.enter] at henter
  split at henter
  · obtain ⟨rfl, rfl⟩ := Prod.mk.inj (Option.some.inj henter)
    exact ⟨h, h.executor⟩
  · rename_i k hctx
    split at henter
    · obtain ⟨rfl, rfl⟩ := Prod.mk.inj (Option.some.inj henter)
      exact ⟨h, h.suspended k hctx _⟩
    · obtain ⟨rfl, rfl⟩ := Prod.mk.inj (Option.some.inj henter)
      exact ⟨h.of_eq rfl rfl, h.suspended k hctx _⟩
    · cases henter

variable [GeneratorError E]

theorem ConfinedData.handle {data data' : GenData Unit V E (BodyCode V E)} {f : Handler F}
    {status : PromiseStatus V E} {answer : Except (Exn E) V} (h : ConfinedData data)
    (hhandle : Config.handle data f status = some (answer, .switched data')) :
    ConfinedData data' := by
  simp only [Config.handle] at hhandle
  split at hhandle
  · obtain ⟨-, hsent⟩ := Prod.mk.inj (Option.some.inj hhandle)
    simp only [GenData.next] at hsent
    split at hsent <;> cases hsent <;> exact h.of_eq rfl rfl
  · obtain ⟨-, hsent⟩ := Prod.mk.inj (Option.some.inj hhandle)
    simp only [GenData.throw_] at hsent
    split at hsent <;> cases hsent
    exact h.of_eq rfl rfl
  · cases hhandle

/-! ### Every step keeps the layers -/

variable [Blank V] [FnTrait F E]

structure Config.Layered (c : Config V E F) : Prop where
  layers : Layers c.promises.control c.stack c.blocks c.caught
  gens : ∀ g ∈ c.gens, ConfinedData g.data

omit [Blank V] [FnTrait F E] [GeneratorError E] in
theorem Config.Layered.initial : (Config.initial : Config V E F).Layered := by
  refine ⟨?_, fun g hg => ?_⟩
  · change Layers .idle [] [([] : List (Caught E)).length] []
    exact .main (by simp)
  · cases hg

section

variable {c c' : Config V E F} {l : Label V E F}

omit [Blank V] [FnTrait F E] [GeneratorError E] in
/-- The layer of the body that has control, which may go on with another layer of its own. -/
theorem Config.Layered.body {gen : GenRef} {caller : Caller} {code : BodyCode V E}
    {stack : List (Frame V E)} (h : c.Layered) (top : c.stack = .code gen caller code :: stack) :
    ∃ own below, c.caught = own ++ below ∧ (∀ x ∈ own, x.owner = some gen) ∧
      code.Confined own.length ∧ ∀ (promises : Promise.Config V E (Handler F)) own'
        (caught' : List (Caught E)) (code' : BodyCode V E),
        promises.control = c.promises.control → caught' = own' ++ below →
        (∀ x ∈ own', x.owner = some gen) → code'.Confined own'.length →
          Config.Layered { c with
            promises
            caught := caught'
            stack := .code gen caller code' :: stack } := by
  have hlayers := h.layers
  rw [top] at hlayers
  obtain ⟨own, below, hcaught, howned, hconfined, hnext⟩ := hlayers.of_code
  refine ⟨own, below, hcaught, howned, hconfined, ?_⟩
  rintro promises own' _ code' hcontrol rfl howned' hconfined'
  refine ⟨?_, h.gens⟩
  change Layers promises.control (.code gen caller code' :: stack) c.blocks (own' ++ below)
  rw [hcontrol]
  exact hnext own' code' howned' hconfined'

omit [Blank V] [FnTrait F E] [GeneratorError E] in
/-- `promise_task` goes on. -/
theorem Config.Layered.task {promises : Promise.Config V E (Handler F)}
    {rest : List (Frame V E)} (h : c.Layered) (top : c.stack = .task :: rest)
    (hended : runsUserCode c.stack c.promises.control = false ∨ c.blocks.head? = some 0)
    (hbusy : promises.control ≠ .idle) : Config.Layered { c with promises } := by
  have hlayers := h.layers
  refine ⟨?_, h.gens⟩
  change Layers promises.control c.stack c.blocks c.caught
  rw [top] at hlayers hended ⊢
  exact hlayers.goesOn hended hbusy

/-- Nobody finds an exception of others. -/
theorem Config.Layered.findsOwn (h : c.Layered) (hstep : Step c l c') :
    c.findsOwn l = true := by
  unfold Config.findsOwn
  split
  · rename_i gen caller k rest top
    obtain ⟨own, below, hcaught, howned, hconfined, -⟩ := h.body top
    cases own with
    | nil => cases hconfined
    | cons x own => simp [hcaught, howned x, Config.runningGen?, top]
  · rename_i gen caller code rest top
    obtain ⟨own, below, hcaught, howned, hconfined, -⟩ := h.body top
    cases own with
    | nil => cases hconfined
    | cons x own => simp [hcaught, howned x, Config.runningGen?, top]
  · cases hstep with
    | endCatch n blocks outside blocks_eq =>
        obtain ⟨own, below, hcaught, hlength, howned, -⟩ :=
          h.layers.of_outside outside blocks_eq
        obtain ⟨x, own, rfl⟩ := List.exists_cons_of_length_eq_add_one hlength
        simp [hcaught, howned x, runningGen?_of_outside outside]
  · rfl

omit [GeneratorError E] in
theorem Config.Layered.call {body : Body V E} {promises : Promise.Config V E (Handler F)}
    (h : c.Layered) (hbody : body.code.Confined 0)
    (run : Promise.Step c.promises (.op .promise) promises) :
    Config.Layered { c with
      promises
      gens := c.gens ++ [startedGen c.promises.state.heap.length body]
      stack := .code c.gens.length .call body.code :: c.stack } := by
  refine ⟨?_, ?_⟩
  · change Layers promises.control (.code c.gens.length .call body.code :: c.stack) c.blocks
      ([] ++ c.caught)
    rw [control_of_op run]
    exact .called (by simp) hbody h.layers
  · intro g hg
    rcases List.mem_append.mp hg with hold | hnew
    · exact h.gens g hold
    · obtain rfl := List.mem_singleton.mp hnew
      exact ⟨hbody, by simp [startedGen]⟩

omit [Blank V] [FnTrait F E] in
/-- The handler of an awaited promise resumes the body, which has no layer yet. -/
theorem Config.Layered.resume {p outer : Ref} {f : Handler F} {gen : GenRef} {g : AsyncGen V E}
    {status : PromiseStatus V E} {answer : Except (Exn E) V}
    {data data' : GenData Unit V E (BodyCode V E)} {code : BodyCode V E} {log : List (Event V E)}
    (h : c.Layered) (handler : c.awaitHandler? = some (p, outer, f))
    (get : c.gens[gen]? = some g)
    (sent : Config.handle g.data f status = some (answer, .switched data))
    (enters : data.enter = some (data', code)) :
    Config.Layered { (c.setData gen data') with
      stack := .code gen .handler code :: c.stack
      log } := by
  have hlayers := h.layers
  have hquiet := quiet_of_awaitHandler handler
  obtain ⟨rest, i, j, -, top, -⟩ := runningAwaitHandler?_eq_some handler
  rw [top] at hlayers hquiet
  obtain ⟨hdata', hcode⟩ := ((h.gens g (List.mem_of_getElem? get)).handle sent).enter enters
  refine ⟨?_, confined_setData h.gens hdata'⟩
  change Layers c.promises.control (.code gen .handler code :: c.stack) c.blocks
    ([] ++ c.caught)
  rw [top]
  exact .resumed (by simp) hcode hquiet hlayers

/-- The body awaits, and has no layer left. -/
theorem Config.Layered.await {gen : GenRef} {caller : Caller} {p : Ref}
    {k : Except (Exn E) V → BodyCode V E} {stack : List (Frame V E)} {g : AsyncGen V E}
    {data : GenData Unit V E (BodyCode V E)} {promises : Promise.Config V E (Handler F)}
    {log : List (Event V E)} (h : c.Layered)
    (top : c.stack = .code gen caller (.ask p k) :: stack) (get : c.gens[gen]? = some g)
    (yields : g.data.yield_ () k = .ok data)
    (runs : run Promise.step c.promises (registers gen p ++ Config.returnTo caller) =
      some promises) :
    Config.Layered { (c.setData gen data) with promises, stack, log } := by
  have hreturned := returnedTo_of_run [.then_ p (.next gen), .catch_ p (.throw_ gen)] runs
  have hlayers := h.layers
  rw [top] at hlayers
  obtain ⟨own, below, -, -, hconfined, -⟩ := hlayers.of_code
  have hk : ∀ answer, (k answer).Confined 0 := by
    generalize own.length = n at hconfined
    cases hconfined with
    | ask hk => exact hk
  have hdata : ConfinedData data := by
    simp only [GenData.yield_] at yields
    split at yields
    · obtain rfl := Except.ok.inj yields
      refine ⟨(h.gens g (List.mem_of_getElem? get)).executor, ?_⟩
      rintro k' ⟨⟩
      exact hk
    · cases yields
  refine ⟨?_, confined_setData h.gens hdata⟩
  exact hlayers.returned (fun n hn => by cases hn; rfl) hreturned

theorem Config.Layered.step (h : c.Layered)
    (hl : ∀ body, l = .call body → body.code.Confined 0) (hstep : Step c l c') : c'.Layered := by
  have hlayers := h.layers
  cases hstep with
  | op o promises user context run =>
      refine ⟨?_, h.gens⟩
      change Layers promises.control c.stack c.blocks c.caught
      rw [control_of_op run]
      exact hlayers
  | called body promises user run => exact h.call (hl body rfl) run
  | start promises user run =>
      obtain ⟨hidle, hturn⟩ := control_of_promiseTask run
      rw [hidle] at hlayers
      refine ⟨?_, h.gens⟩
      change Layers promises.control (.task :: c.stack) (0 :: c.blocks) ([] ++ c.caught)
      exact .task (by simp [hturn]) (by simp) (fun _ => rfl) hlayers
  | loop promises rest top quiet run =>
      obtain ⟨hquiet, hbusy⟩ := control_of_tau run rest
      exact h.task top (.inl (top ▸ hquiet)) hbusy
  | finish result promises rest top user ended run =>
      obtain ⟨i, p, j, hcontrol⟩ := control_of_finish run
      exact h.task top (.inr ended) (by simp [hcontrol])
  | leave promises rest top run =>
      obtain ⟨⟨exit, hdone⟩, hidle⟩ := control_of_resume run
      rw [top, hdone] at hlayers
      refine ⟨?_, h.gens⟩
      change Layers promises.control rest c.blocks.tail c.caught
      rw [hidle]
      generalize c.blocks = blocks, c.caught = caught at hlayers
      cases hlayers with
      | task busy owned ended below =>
          obtain rfl := ended rfl
          exact below
  | resumed p outer f gen g status answer data data' code handler gen_eq get status_eq sent
      enters => exact h.resume handler get sent enters
  | refused p outer f gen g status answer sent result promises handler gen_eq get status_eq
      handled refuses run =>
      obtain ⟨i, p, j, hcontrol⟩ := control_of_finish run
      obtain ⟨rest, -, -, -, top, -⟩ := runningAwaitHandler?_eq_some handler
      have htask : Config.Layered { c with promises } :=
        h.task top (.inl (quiet_of_awaitHandler handler)) (by simp [hcontrol])
      exact ⟨htask.layers, h.gens⟩
  | awaits gen caller p k stack g data promises top get yields runs =>
      exact h.await top get yields runs
  | notRunning gen caller p k stack g e promises top get yields runs =>
      have hcontrol : ReturnedTo .call c.promises.control promises.control :=
        returnedTo_of_run [.then_ p (.next gen), .catch_ p (.throw_ gen)] runs
      obtain ⟨own, below, hcaught, howned, hconfined, hnext⟩ := h.body top
      refine hnext promises own c.caught _ hcontrol hcaught howned ?_
      generalize own.length = n at hconfined ⊢
      cases hconfined with
      | ask hk => exact hk _
  | finished gen caller result stack g promises top get runs =>
      have hreturned := returnedTo_of_run [settleOp g.promise result] runs
      rw [top] at hlayers
      refine ⟨?_, confined_setData h.gens
        ((h.gens g (List.mem_of_getElem? get)).of_eq rfl rfl)⟩
      refine hlayers.returned (fun n hn => ?_) hreturned
      cases result <;> cases hn <;> rfl
  | caught gen caller e rest stack top =>
      obtain ⟨own, below, hcaught, howned, hconfined, hnext⟩ := h.body top
      refine hnext c.promises (⟨some gen, e⟩ :: own) _ rest rfl (by simp [hcaught])
        (by simpa using howned) ?_
      cases hconfined with
      | beginCatch hrest => exact hrest
  | looked gen caller k stack x top head =>
      obtain ⟨own, below, hcaught, howned, hconfined, hnext⟩ := h.body top
      refine hnext c.promises own c.caught _ rfl hcaught howned ?_
      generalize own.length = n at hconfined ⊢
      cases hconfined with
      | current hk => exact hk _
  | left gen caller rest stack top =>
      obtain ⟨own, below, hcaught, howned, hconfined, hnext⟩ := h.body top
      cases own with
      | nil => cases hconfined
      | cons x own =>
          refine hnext c.promises own c.caught.tail rest rfl (by simp [hcaught])
            (fun y hy => howned y (List.mem_cons_of_mem x hy)) ?_
          cases hconfined with
          | endCatch hrest => exact hrest
  | beginCatch error n blocks outside blocks_eq =>
      obtain ⟨own, below, hcaught, rfl, howned, hnext⟩ := hlayers.of_outside outside blocks_eq
      refine ⟨?_, h.gens⟩
      change Layers c.promises.control c.stack ((own.length + 1) :: blocks)
        (⟨none, error⟩ :: c.caught)
      rw [hcaught]
      exact hnext (⟨none, error⟩ :: own) (by simpa using howned)
  | endCatch n blocks outside blocks_eq =>
      obtain ⟨own, below, hcaught, hlength, howned, hnext⟩ :=
        hlayers.of_outside outside blocks_eq
      obtain ⟨x, own, rfl⟩ := List.exists_cons_of_length_eq_add_one hlength
      obtain rfl := Nat.succ.inj hlength
      refine ⟨?_, h.gens⟩
      change Layers c.promises.control c.stack (own.length :: blocks) c.caught.tail
      rw [hcaught]
      exact hnext own fun y hy => howned y (List.mem_cons_of_mem x hy)

end

/-! ### Runs -/

/-- In a run whose bodies await outside of their `catch` blocks only, everyone finds the exceptions
of their own blocks. -/
theorem findsOwn_of_confined {ls : List (Label V E F)} {c : Config V E F} (h : RunsTo ls c)
    (hbodies : ∀ body, .call body ∈ ls → body.code.Confined 0) : FindsOwn ls := by
  intro before l after t hls ht
  have hguard : EachStep step (fun _ l => ∀ body, l = .call body → body.code.Confined 0)
      (Config.initial : Config V E F) before := by
    intro front l' rest u hfront _ body hbody
    exact hbodies body (by simp [hls, hfront, hbody])
  have hlayered : t.Layered :=
    run_invariant (fun _ _ _ ht hl hstep => ht.step hl (.of_step hstep)) .initial hguard ht
  subst hls
  obtain ⟨t', ht', hrest⟩ := run_append_eq_some step h
  obtain rfl := Option.some.inj (ht.symm.trans ht')
  obtain ⟨u, hu, -⟩ := run_cons_eq_some step hrest
  exact hlayered.findsOwn (.of_step hu)

/-- Bodies that await outside of their `catch` blocks only always run in direct style. -/
theorem confined_bodies_run_in_direct_style {ls : List (Label V E F)} {c : Config V E F}
    (h : RunsTo ls c) (hm : NoMismatch ls)
    (hbodies : ∀ body, .call body ∈ ls → body.code.Confined 0) : DirectStyle c :=
  (h.sound hm (findsOwn_of_confined h hbodies)).directStyle

theorem confined_incremented : incremented.code.Confined 0 := by
  refine ((confined_await 0).tryCatch fun e => ?_).bind fun v => .ret _
  exact .endCatch (.ret 7)

/-- Awaits promise 0 and throws its value, catches this and throws on. -/
def passedOn : Body ℕ ℕ where
  code := ((Code.await 0).bind fun v => .raise (.object v)).tryCatch fun _ => rethrow
  balanced := ((balanced_await 0).bind fun _ => .raise _).tryCatch fun _ => balanced_rethrow

theorem confined_passedOn : passedOn.code.Confined 0 := by
  refine ((confined_await 0).bind fun v => .raise _).tryCatch fun e => ?_
  exact .current fun e => .endCatch (.raise e)

/-- The program runs the loop in a `catch` block of its own. -/
def loopInBlockRun : List (Label ℕ ℕ SampleHandler) :=
  [.op .promise, .call incremented, .tau, .call passedOn, .tau, .op (.resolve 0 8),
    .beginCatch (.object 3), .promiseTask] ++ List.replicate 24 .tau ++ [.resume, .endCatch]

theorem confined_bodies_run_in_direct_style_sample :
    ∃ c : Config ℕ ℕ SampleHandler, DirectStyle c ∧
      .finished 0 (.ok (.value 9)) ∈ c.log ∧ .finished 1 (.error (.object 8)) ∈ c.log := by
  obtain ⟨c, h, hlog⟩ : ∃ c, RunsTo loopInBlockRun c ∧ c.log =
      [.awaits ⟨0, 0, 2, 3⟩, .awaits ⟨1, 0, 5, 6⟩, .resumed 0 2 .suspended (.ok 8),
        .finished 0 (.ok (.value 9)), .resumed 1 5 .suspended (.ok 8),
        .finished 1 (.error (.object 8))] :=
    exists_runsTo (by decide +kernel)
  have hm : NoMismatch loopInBlockRun := by
    unfold NoMismatch
    decide +kernel
  have hbodies : ∀ body, .call body ∈ loopInBlockRun → body.code.Confined 0 := by
    intro body hbody
    obtain rfl | rfl : body = incremented ∨ body = passedOn := by
      simpa [loopInBlockRun] using hbody
    · exact confined_incremented
    · exact confined_passedOn
  exact ⟨c, confined_bodies_run_in_direct_style h hm hbodies, by simp [hlog], by simp [hlog]⟩

end Libasync.AsyncFunc
