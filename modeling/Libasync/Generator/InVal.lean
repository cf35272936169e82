import Libasync.Generator.Machine

/-! # The input that `yield_from` forwards

`yield_from` does not forward what `yield` returns but what `in_val` points to. `next` sets the
pointer and `_throw` clears it, and both leave it as it is until the generator is resumed again. -/

namespace Libasync.Generator.Machine

open Promise Automaton

variable {T IT E C : Type*}

/-! ### What is to hold -/

/-- The call that has resumed the generator last. -/
def lastCall (g : GenRef) (resumed : List (GenRef × Call IT E)) : Option (Call IT E) :=
  (resumed.filterMap fun (h, call) => if h = g then some call else none).getLast?

/-- The value that a call sends in. -/
def Call.input? : Call IT E → Option IT
  | .next value => some value
  | .throw_ _ => none

/-- `yield_from` in the code of the running generator `g` is about to forward the input to a
generator that is not finished. -/
structure Config.Forwards (c : Config T IT E C) (g : GenRef) (data : Data T IT E C) : Prop where
  code : ∃ gen k inner, c.control = .code g (.yieldFrom gen k) ∧
    c.world.gens gen = some inner ∧ inner.status ≠ .done
  known : c.world.gens g = some data
  running : data.status = .running

/-- There is an input to forward. -/
def Config.HasInput (c : Config T IT E C) : Prop :=
  ∀ g data, c.Forwards g data → data.inVal ≠ none

/-- The generator that is about to forward its input was resumed by `next`. -/
def Config.ResumedByNext (c : Config T IT E C) : Prop :=
  ∀ g data, c.Forwards g data → ∃ value, lastCall g c.resumed = some (.next value)

/-! ### One step -/

theorem lastCall_concat (g h : GenRef) (resumed : List (GenRef × Call IT E)) (call : Call IT E) :
    lastCall g (resumed ++ [(h, call)]) = if h = g then some call else lastCall g resumed := by
  by_cases hg : h = g <;> simp [lastCall, List.filterMap_append, hg]

theorem lastCall_eq_none {g : GenRef} {resumed : List (GenRef × Call IT E)}
    (h : ∀ e ∈ resumed, e.1 ≠ g) : lastCall g resumed = none := by
  simp only [lastCall, List.getLast?_eq_none_iff, List.filterMap_eq_nil_iff]
  intro e he
  simp [h e he]

@[simp] theorem World.set_gens (w : World T IT E C) (g h : GenRef) (data : Data T IT E C) :
    (w.set g data).gens h = if h = g then some data else w.gens h := by
  simp [World.set, Function.update_apply]

@[simp] theorem World.set_numGens (w : World T IT E C) (g : GenRef) (data : Data T IT E C) :
    (w.set g data).numGens = w.numGens := rfl

variable [GeneratorError E]

/-- A generator that a call resumes. -/
structure Entered (w : World T IT E C) (gen : GenRef) (call : Call IT E) (data : Data T IT E C) :
    Prop where
  known : ∃ before, w.gens gen = some before
  inVal : data.inVal = call.input?

/-- What code of generator `g` does to the generators. -/
inductive Executed (w : World T IT E C) (g : GenRef) :
    World T IT E C → Outcome T IT E C → Prop where
  | goes (code) : Executed w g w (.goes code)
  | created (executor code) : Executed w g (w.create executor) (.goes code)
  | enters (gen call data code k) (entered : Entered w gen call data) :
      Executed w g (w.set gen data) (.enters gen call code k)
  | returns (before data) (gens : w.gens g = some before) (inVal : data.inVal = before.inVal)
      (answered : ∀ outVal, answer data = .ok outVal → outVal ≠ none) :
      Executed w g (w.set g data) (.returns (answer data))
  | crash : Executed w g w .crash

theorem entered_of_send {w : World T IT E C} {gen : GenRef} {call : Call IT E}
    {before sent data : Data T IT E C} {code : Code T E C} (hgens : w.gens gen = some before)
    (hsend : call.send before = .switched sent) (henter : sent.enter = some (data, code)) :
    Entered w gen call data := by
  refine ⟨⟨before, hgens⟩, ?_⟩
  have hdata : data.inVal = sent.inVal := by
    simp only [GenData.enter] at henter
    split at henter
    · obtain ⟨rfl, -⟩ := Prod.mk.inj (Option.some.inj henter)
      rfl
    · split at henter
      · obtain ⟨rfl, -⟩ := Prod.mk.inj (Option.some.inj henter)
        rfl
      · obtain ⟨rfl, -⟩ := Prod.mk.inj (Option.some.inj henter)
        rfl
      · cases henter
  rw [hdata]
  cases call with
  | next value =>
      simp only [Call.send, GenData.next] at hsend
      cases hstatus : before.status <;>
        simp only [hstatus, reduceCtorEq, Sent.switched.injEq] at hsend
      all_goals
        rw [← hsend]
        rfl
  | throw_ error =>
      simp only [Call.send, GenData.throw_] at hsend
      cases hstatus : before.status <;>
        simp only [hstatus, reduceCtorEq, Sent.switched.injEq] at hsend
      rw [← hsend]
      rfl

theorem World.call_executed {w w' : World T IT E C} {g gen : GenRef} {call : Call IT E}
    {k : Answer T E → Code T E C} {out : Outcome T IT E C}
    (h : w.call gen call k = some (w', out)) : Executed w g w' out := by
  simp only [World.call] at h
  split at h
  · cases h
  · rename_i before hgens
    split at h
    · rename_i sent hsend
      obtain ⟨⟨data, code⟩, henter, heq⟩ := Option.map_eq_some_iff.mp h
      obtain ⟨rfl, rfl⟩ := Prod.mk.inj heq
      exact .enters gen call data code k (entered_of_send hgens hsend henter)
    · obtain ⟨rfl, rfl⟩ := Prod.mk.inj (Option.some.inj h)
      exact .goes _
    · obtain ⟨rfl, rfl⟩ := Prod.mk.inj (Option.some.inj h)
      exact .goes _

theorem World.yield_executed {w : World T IT E C} {g : GenRef} {before : Data T IT E C}
    (hgens : w.gens g = some before) (value : T) (resume : Except (Exn E) IT → Code T E C) :
    Executed w g (w.yield_ g before value resume).1 (w.yield_ g before value resume).2 := by
  simp only [World.yield_]
  split
  · rename_i data hyield
    simp only [GenData.yield_] at hyield
    split at hyield
    · rw [← Except.ok.inj hyield]
      exact .returns before _ hgens rfl (by simp [answer])
    · cases hyield
  · exact .goes _

/-- What code does. -/
theorem World.executed {prog : C → Action T IT E C} {w w' : World T IT E C} {g : GenRef}
    {code : Code T E C} {out : Outcome T IT E C} (h : w.exec prog g code = some (w', out)) :
    Executed w g w' out := by
  simp only [World.exec] at h
  split at h
  · cases h
  · rename_i data hgens
    cases code with
    | user state =>
        dsimp only at h
        cases haction : prog state with
        | ret result =>
            simp only [haction, World.back, Option.some.injEq, Prod.mk.injEq] at h
            obtain ⟨rfl, rfl⟩ := h
            refine .returns data _ hgens rfl fun outVal hanswer => ?_
            cases herror : data.error <;>
              simp only [answer, GenData.finish, herror, reduceCtorEq, Except.ok.injEq] at hanswer
            simp [← hanswer]
        | raise error =>
            simp only [haction, World.back, Option.some.injEq, Prod.mk.injEq] at h
            obtain ⟨rfl, rfl⟩ := h
            exact .returns data _ hgens rfl (by simp [answer, GenData.fail])
        | yield value k =>
            simp only [haction, Option.some.injEq] at h
            have hexecuted := World.yield_executed hgens value fun sent => .user (k sent)
            rwa [h] at hexecuted
        | yieldFrom gen k =>
            simp only [haction, Option.some.injEq, Prod.mk.injEq] at h
            obtain ⟨rfl, rfl⟩ := h
            exact .goes _
        | call gen call k =>
            simp only [haction] at h
            exact World.call_executed h
        | status gen k =>
            simp only [haction] at h
            obtain ⟨called, -, heq⟩ := Option.map_eq_some_iff.mp h
            obtain ⟨rfl, rfl⟩ := Prod.mk.inj heq
            exact .goes _
        | create executor k =>
            simp only [haction, Option.some.injEq, Prod.mk.injEq] at h
            obtain ⟨rfl, rfl⟩ := h
            exact .created executor _
    | yieldFrom gen k =>
        dsimp only at h
        split at h
        · cases h
        · split at h
          · obtain ⟨rfl, rfl⟩ := Prod.mk.inj (Option.some.inj h)
            exact .goes _
          · split at h
            · obtain ⟨rfl, rfl⟩ := Prod.mk.inj (Option.some.inj h)
              exact .crash
            · exact World.call_executed h
    | forward value gen k =>
        obtain ⟨value', -, heq⟩ := Option.map_eq_some_iff.mp h
        have hexecuted := World.yield_executed hgens value' (looping gen k)
        rwa [heq] at hexecuted

/-! ### Runs -/

/-- The pointer is what the last call has made of it. -/
structure Config.InValKept (c : Config T IT E C) : Prop where
  fresh : ∀ g, c.world.numGens ≤ g → c.world.gens g = none
  resumed : ∀ e ∈ c.resumed, e.1 < c.world.numGens
  inVal : ∀ g data, c.world.gens g = some data →
    data.inVal = (lastCall g c.resumed).bind Call.input?

namespace Config.InValKept

variable {c : Config T IT E C}

omit [GeneratorError E] in
theorem initial : Config.InValKept ({} : Config T IT E C) :=
  ⟨fun _ _ => rfl, by simp, by simp⟩

omit [GeneratorError E] in
theorem of_eq {c' : Config T IT E C} (h : c.InValKept) (hworld : c'.world = c.world)
    (hresumed : c'.resumed = c.resumed) : c'.InValKept := by
  obtain ⟨hfresh, hknown, hinVal⟩ := h
  refine ⟨?_, ?_, ?_⟩ <;> rw [hworld] <;> try rw [hresumed]
  · exact hfresh
  · exact hknown
  · exact hinVal

omit [GeneratorError E] in
theorem lt (h : c.InValKept) {g : GenRef} {data : Data T IT E C}
    (hgens : c.world.gens g = some data) : g < c.world.numGens := by
  by_contra hnot
  rw [h.fresh g (Nat.le_of_not_lt hnot)] at hgens
  cases hgens

omit [GeneratorError E] in
theorem create (h : c.InValKept) (executor : C) (control : Control T E C) :
    Config.InValKept { c with world := c.world.create executor, control := control } where
  fresh g hg := by
    have hne : g ≠ c.world.numGens := Nat.ne_of_gt hg
    simp only [World.create, World.set_gens, hne, if_false]
    exact h.fresh g (Nat.le_of_succ_le hg)
  resumed e he := Nat.lt_succ_of_lt (h.resumed e he)
  inVal g data hgens := by
    simp only [World.create, World.set_gens] at hgens
    split at hgens
    · rename_i hg
      subst hg
      obtain rfl := Option.some.inj hgens
      rw [lastCall_eq_none fun e he => Nat.ne_of_lt (h.resumed e he)]
      rfl
    · exact h.inVal g data hgens

omit [GeneratorError E] in
/-- Data change, but not the pointer. -/
theorem set (h : c.InValKept) {g : GenRef} {before data : Data T IT E C}
    (hgens : c.world.gens g = some before) (hinVal : data.inVal = before.inVal)
    (control : Control T E C) (stack : List (Caller T E C)) :
    Config.InValKept
      { c with world := c.world.set g data, control := control, stack := stack } where
  fresh g' hg' := by
    have hne : g' ≠ g := fun heq => Nat.lt_irrefl _ ((h.lt hgens).trans_le (heq ▸ hg'))
    simp only [World.set_gens, hne, if_false]
    exact h.fresh g' hg'
  resumed := h.resumed
  inVal g' data' hgens' := by
    simp only [World.set_gens] at hgens'
    split at hgens'
    · rename_i hg
      subst hg
      obtain rfl := Option.some.inj hgens'
      rw [hinVal]
      exact h.inVal g' before hgens
    · exact h.inVal g' data' hgens'

omit [GeneratorError E] in
theorem enter (h : c.InValKept) {g : GenRef} {call : Call IT E} {data : Data T IT E C}
    (hentered : Entered c.world g call data) (caller : Caller T E C) (code : Code T E C) :
    (c.enter caller (c.world.set g data) g call code).InValKept := by
  obtain ⟨⟨before, hgens⟩, hinVal⟩ := hentered
  have hlt := h.lt hgens
  refine ⟨?_, ?_, ?_⟩
  · intro g' hg'
    have hne : g' ≠ g := fun heq => Nat.lt_irrefl _ (hlt.trans_le (heq ▸ hg'))
    simp only [Config.enter, World.set_gens, hne, if_false]
    exact h.fresh g' hg'
  · intro e he
    rcases List.mem_append.mp he with hold | hnew
    · exact h.resumed e hold
    · obtain rfl := List.mem_singleton.mp hnew
      exact hlt
  · intro g' data' hgens'
    simp only [Config.enter, World.set_gens] at hgens'
    simp only [Config.enter, lastCall_concat]
    split at hgens'
    · rename_i hg
      subst hg
      obtain rfl := Option.some.inj hgens'
      simp [hinVal]
    · rename_i hg
      rw [if_neg (Ne.symm hg)]
      exact h.inVal g' data' hgens'

theorem mainCall {c' : Config T IT E C} {gen : GenRef} {call : Call IT E} (h : c.InValKept)
    (hl : c.mainCall gen call = some c') : c'.InValKept := by
  simp only [Config.mainCall] at hl
  split at hl
  · cases hl
  · rename_i before hgens
    split at hl
    · rename_i sent hsend
      obtain ⟨⟨data, code⟩, henter, rfl⟩ := Option.map_eq_some_iff.mp hl
      exact h.enter (entered_of_send hgens hsend henter) .main code
    · rw [← Option.some.inj hl]
      exact h.of_eq rfl rfl
    · rw [← Option.some.inj hl]
      exact h.of_eq rfl rfl

omit [GeneratorError E] in
theorem after {c' : Config T IT E C} {g : GenRef} {w : World T IT E C} {out : Outcome T IT E C}
    (h : c.InValKept) (hexecuted : Executed c.world g w out)
    (hl : c.after g (w, out) = some c') : c'.InValKept := by
  cases hexecuted with
  | goes code =>
      rw [← Option.some.inj hl]
      exact h.of_eq rfl rfl
  | created executor code =>
      rw [← Option.some.inj hl]
      exact h.create executor _
  | enters gen call data code k entered =>
      rw [← Option.some.inj hl]
      exact h.enter entered _ code
  | returns before data gens inVal answered =>
      simp only [Config.after] at hl
      split at hl
      · rw [← Option.some.inj hl]
        exact h.set gens inVal _ _
      · rw [← Option.some.inj hl]
        exact h.set gens inVal _ _
      · cases hl
  | crash =>
      rw [← Option.some.inj hl]
      exact h.of_eq rfl rfl

theorem step {prog : C → Action T IT E C} {c' : Config T IT E C} {l : Label IT E C}
    (h : c.InValKept) (hl : Machine.step prog c l = some c') : c'.InValKept := by
  simp only [Machine.step] at hl
  split at hl
  · exact h.mainCall hl
  · rw [← Option.some.inj hl]
    exact h.create _ _
  · obtain ⟨⟨w, out⟩, hexec, hafter⟩ := Option.bind_eq_some_iff.mp hl
    exact h.after (World.executed hexec) hafter
  · cases hl

omit [GeneratorError E] in
/-- The pointer is set exactly when the last call was `next`. -/
theorem hasInput_iff (h : c.InValKept) : c.HasInput ↔ c.ResumedByNext := by
  have hpointer (g : GenRef) (data : Data T IT E C) (hgens : c.world.gens g = some data) :
      data.inVal ≠ none ↔ ∃ value, lastCall g c.resumed = some (.next value) := by
    rw [h.inVal g data hgens]
    cases lastCall g c.resumed with
    | none => simp
    | some call => cases call <;> simp [Call.input?]
  constructor
  · intro hinput g data hforwards
    exact (hpointer g data hforwards.known).mp (hinput g data hforwards)
  · intro hnext g data hforwards
    exact (hpointer g data hforwards.known).mpr (hnext g data hforwards)

end Config.InValKept

/-- In every run of generators with any executors, `in_val` is set whenever `yield_from` forwards
it, exactly when a generator that comes to a `yield_from` with an unfinished generator was always
resumed by `next` and not by `_throw`. -/
theorem yield_from_has_input_iff {prog : C → Action T IT E C} {ls : List (Label IT E C)} :
    (∀ t, Visits (step prog) {} ls t → t.HasInput) ↔
      ∀ t, Visits (step prog) {} ls t → t.ResumedByNext := by
  have hkept : ∀ t, Visits (step prog) {} ls t → t.InValKept := by
    rintro t ⟨before, -, hrun⟩
    exact run_invariant_of_step (fun _ _ _ h hl => h.step hl) .initial hrun
  constructor
  · intro hall t ht
    exact (hkept t ht).hasInput_iff.mp (hall t ht)
  · intro hall t ht
    exact (hkept t ht).hasInput_iff.mpr (hall t ht)

/-! ### An executor that delegates after an error -/

inductive CatchState where
  | counting
  | start
  | caught
  | finished
  deriving DecidableEq

/-- A generator that yields for ever, and one that goes on with it when an error is thrown at its
`yield`. -/
def catching : CatchState → Action ℕ ℕ Reason CatchState
  | .counting => .yield 7 fun _ => .counting
  | .start => .yield 1 fun
      | .ok _ => .finished
      | .error _ => .caught
  | .caught => .yieldFrom 0 fun _ => .finished
  | .finished => .ret 0

/-- `next` and `_throw` from outside, up to the test of the loop. -/
def catchingRun : List (Label ℕ Reason CatchState) :=
  [.create .counting, .create .start, .call 1 (.next 5), .tau, .call 1 (.throw_ .badCast), .tau]

/-- The loop follows a null pointer. -/
theorem catchingRun_crashes :
    (∃ t : Config ℕ ℕ Reason CatchState, run (step catching) {} (catchingRun ++ [.tau]) = some t ∧
      t.control = .crashed) ∧
      ¬ ∀ t : Config ℕ ℕ Reason CatchState,
        Visits (step catching) {} (catchingRun ++ [.tau]) t → t.HasInput := by
  refine ⟨⟨_, rfl, rfl⟩, fun hall => ?_⟩
  have hinput := hall _ ⟨catchingRun, List.prefix_append _ _, rfl⟩
  exact hinput 1 _ ⟨⟨0, _, _, rfl, rfl, by decide⟩, rfl, rfl⟩ rfl

end Libasync.Generator.Machine
