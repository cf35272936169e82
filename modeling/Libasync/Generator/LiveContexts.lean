import Libasync.Generator.Chains

/-! # No switch to a context that is gone

Executors may yield through the contexts of other generators, from any depth, as long as control is
inside of these. Then each context that is loaded is one that was saved and not used since, on a
stack that is not freed, and `in_val` points to a parameter of a call that is still under way. -/

namespace Libasync.Generator.Contexts

open Promise Automaton
open Machine (GenRef Call)

variable {T IT E X : Type*}

/-! ### What is to hold -/

/-- Control on this stack is inside of the generator. No generator is in the chain twice. -/
def World.inside (w : World T IT E X) (p : Place) (g : GenRef) : Bool :=
  decide (g ∈ w.chain w.numGens p)

/-- The `yield` is refused, or control is inside of the generator. -/
def World.mayYield (w : World T IT E X) (p : Place) (ctx : GenRef) : Bool :=
  (w.gens ctx).all fun data => decide (data.status ≠ .running) || w.inside p ctx

/-- The code uses the contexts only of generators that it is inside of. -/
def Config.staysInside (prog : X → Action T IT E X) (c : Config T IT E X) : Bool :=
  match c.control with
  | .code g (.user state) =>
      match prog state with
      | .yield ctx _ _ => c.world.mayYield (.gen g) ctx
      | _ => true
  | .code g (.yieldFrom ctx _ _) => c.world.inside (.gen g) ctx
  | .code g (.forward ctx _ _ _) => c.world.mayYield (.gen g) ctx
  | _ => true

/-- User code has control, and the contexts that it can switch to are there. -/
def Runs (r : World T IT E X × Control T E X) : Prop :=
  ∃ p active, r.2.At p ∧ Sound r.1 p active

section Steps

variable {w : World T IT E X} {p : Place} {active : List GenRef} {g gen ctx : GenRef}
  {data : GenData T E X} {r : World T IT E X × Control T E X}

theorem Sound.initial : Sound ({} : World T IT E X) .main [] where
  awake := rfl
  usable := rfl
  chain := .nil _
  made := by simp
  unmade _ _ := rfl
  fits := by simp
  frames := by simp

/-! ### Switches -/

/-- The data of a generator that is run from the stack `p`. -/
def World.called (w : World T IT E X) (p : Place) (data : GenData T E X) : GenData T E X :=
  { data with callerCtx := some (w.here p) }

/-- The data of a generator that gives control back from the stack `p`. -/
def World.saved (w : World T IT E X) (p : Place) (data : GenData T E X) : GenData T E X :=
  { data with genCtx := some (.saved (w.here p)) }

/-- Control comes to an executor. -/
theorem World.runGenerator_entry {value : Option IT} {k : Machine.Answer T E → Control T E X}
    (hctx : data.genCtx = some .entry) :
    w.runGenerator p g data value k =
      (w.moved p (.calling g value k) g (w.called p data) (.gen g),
        .code g (.user (data.executor g))) := by
  rw [World.runGenerator]
  split
  · rename_i hnone
    cases hctx.symm.trans hnone
  · rfl
  · rename_i a hsaved
    cases hctx.symm.trans hsaved

/-- Control comes to the call in which the context was saved. -/
theorem Sound.runGenerator_saved {value : Option IT} {k : Machine.Answer T E → Control T E X}
    {a : Address} {frame : Frame T IT E X} (hs : Sound w p active)
    (hctx : data.genCtx = some (.saved a))
    (hfound : w.find a = some frame) (hstack : data.genStack = true) :
    w.runGenerator p g data value k =
      (w.moved p (.calling g value k) g (w.called p data) a.place).goOn frame := by
  have hleft := World.find_setGen (g := g) _ (w.called p data) (fun _ _ _ => hstack)
    (w.find_leave (.calling g value k) hs.awake hfound)
  rw [World.runGenerator]
  split
  · rename_i hnone
    cases hctx.symm.trans hnone
  · rename_i hentry
    cases hctx.symm.trans hentry
  · rename_i a' hsaved
    obtain rfl := Context.saved.inj (Option.some.inj (hctx.symm.trans hsaved))
    rw [World.called] at hleft
    simp only [World.switchTo, hleft, World.moved, World.called]

/-- The pending `yield` returns the parameter of `next`. -/
theorem Sound.runGenerator_value {value : IT} {k : Machine.Answer T E → Control T E X} {a : Address}
    {k' : Except (Exn E) IT → Control T E X} (hs : Sound w p active)
    (hctx : data.genCtx = some (.saved a)) (hfound : w.find a = some (.yielding g k'))
    (hstack : data.genStack = true) (hsent : data.inVal = some (w.here p)) :
    w.runGenerator p g data (some value) k =
      (w.moved p (.calling g (some value) k) g (w.called p data) a.place, k' (.ok value)) := by
  have hcall := World.find_moved_here (g := g) (.calling g (some value) k) (w.called p data)
    hs.usable (fun _ _ _ => hstack) (World.place_ne_of_find hs.awake hfound)
  have hderef : (w.moved p (.calling g (some value) k) g (w.called p data) a.place).deref
      (w.here p) = some value := by
    simp only [World.deref, hcall]
  rw [hs.runGenerator_saved hctx hfound hstack]
  exact World.goOn_yielding_value (w.moved_gens_same ..) hsent hderef

/-- The pending `yield` throws the error. -/
theorem Sound.runGenerator_error {k : Machine.Answer T E → Control T E X} {a : Address}
    {error : Exn E}
    {k' : Except (Exn E) IT → Control T E X} (hs : Sound w p active)
    (hctx : data.genCtx = some (.saved a)) (hfound : w.find a = some (.yielding g k'))
    (hstack : data.genStack = true) (hsent : data.inVal = none)
    (herror : data.error = some error) :
    w.runGenerator p g data none k =
      ((w.moved p (.calling g none k) g (w.called p data) a.place).setGen g
        { w.called p data with error := none }, k' (.error error)) := by
  rw [hs.runGenerator_saved hctx hfound hstack]
  exact World.goOn_yielding_error (w.moved_gens_same ..) hsent herror

/-- The generator is back in the call that has resumed it. -/
theorem Sound.giveBack_saved {frame frame' : Frame T IT E X} {a : Address} (hs : Sound w p active)
    (hcaller : data.callerCtx = some a) (hfound : w.find a = some frame')
    (hkeeps : p = .gen g ∨ data.genStack = true) :
    w.giveBack p g data frame =
      (w.moved p frame g (w.saved p data) a.place).goOn frame' := by
  have hleft : ((w.leave p frame).setGen g (w.saved p data)).find a = some frame' := by
    have hleave := w.find_leave frame hs.awake hfound
    rcases hkeeps with rfl | hstack
    · exact World.find_setGen_ne _ _ (World.place_ne_of_find hs.awake hfound) hleave
    · exact World.find_setGen _ _ (fun _ _ _ => hstack) hleave
  rw [World.giveBack]
  split
  · rename_i hnone
    cases hcaller.symm.trans hnone
  · rename_i a' hcaller'
    obtain rfl := Option.some.inj (hcaller.symm.trans hcaller')
    rw [World.saved] at hleft
    simp only [World.switchTo, hleft, World.moved, World.saved]

/-- The call returns the value of the `yield`. -/
theorem Sound.giveBack_suspended {frame : Frame T IT E X} {a : Address} {value : Option IT}
    {k : Machine.Answer T E → Control T E X} (hs : Sound w p active) (data : GenData T E X)
    (hcaller : data.callerCtx = some a) (hfound : w.find a = some (.calling g value k))
    (hstack : data.genStack = true)
    (hstatus : data.status = .suspended) :
    w.giveBack p g data frame =
      (w.moved p frame g (w.saved p data) a.place, k (.ok data.outVal)) := by
  rw [hs.giveBack_saved hcaller hfound (.inr hstack)]
  have hrunning : (w.saved p data).status ≠ .done := by simp [World.saved, hstatus]
  have hgoOn := World.goOn_calling value k
    (w.moved_gens_same p frame g (w.saved p data) a.place) hrunning
  exact hgoOn

/-- The call has run the generator to its end. -/
theorem Sound.giveBack_done {frame : Frame T IT E X} {a : Address} {value : Option IT}
    {k : Machine.Answer T E → Control T E X} (hs : Sound w (.gen g) active)
    (hcaller : data.callerCtx = some a) (hfound : w.find a = some (.calling g value k))
    (hstatus : data.status = .done) :
    w.giveBack (.gen g) g data frame =
      (w.moved (.gen g) frame g { w.saved (.gen g) data with genStack := false } a.place,
        k data.result) := by
  rw [hs.giveBack_saved hcaller hfound (.inl rfl)]
  have hdone : (w.saved (.gen g) data).status = .done := hstatus
  refine (World.goOn_calling_done (w.moved_gens_same ..) hdone).trans ?_
  simp [World.moved, World.setGen, World.enter, World.setStack, GenData.result, World.saved]

/-- A generator is started from the stack `p`. -/
theorem Sound.starts {old : GenData T E X} {value : Option IT}
    {k : Machine.Answer T E → Control T E X} (hs : Sound w p active) (hget : w.gens g = some old)
    (hpending : old.status = .pending) (hstatus : data.status = .running)
    (hstack : data.genStack = true)
    (hsent : data.inVal = value.map fun _ => w.here p) (hk : ∀ answer, (k answer).At p) :
    Sound (w.moved p (.calling g value k) g (w.called p data) (.gen g)) (.gen g)
      (g :: active) := by
  have hfits := hs.fits g old hget
  simp only [Fits, hpending] at hfits
  have hnone : ∀ d, w.gens g = some d → d.genStack = false := by
    intro d hd
    obtain rfl := Option.some.inj (hget.symm.trans hd)
    exact hfits.1
  have hnocaptures : ∀ ks, Captures w g ks → ks = [] := by
    rintro ks ⟨d, -, -, hd, hstatus, -⟩
    obtain rfl := Option.some.inj (hget.symm.trans hd)
    simp [hpending] at hstatus
  exact hs.resumes (w.called p data) hget (by simp [hpending]) (by simp [hfits.2])
    (hs.stack_ne hnone).symm (by simp [World.moved, World.allocated, World.called, hstack])
    (.nil (.gen g)) hnocaptures hstatus hstack rfl hsent hk

/-- A suspended generator is resumed from the stack `p`. -/
theorem Sound.reenters {old : GenData T E X} {value : Option IT}
    {k : Machine.Answer T E → Control T E X} {a : Address}
    {k' : Except (Exn E) IT → Control T E X} {gs : List GenRef}
    (hs : Sound w p active) (hget : w.gens g = some old) (hsuspended : old.status = .suspended)
    (hsaved : old.genCtx = some (.saved a)) (hfound : w.find a = some (.yielding g k'))
    (hlinked : Linked w a.place gs (.gen g)) (hstatus : data.status = .running)
    (hstack : data.genStack = true) (hsent : data.inVal = value.map fun _ => w.here p)
    (hk : ∀ answer, (k answer).At p) :
    Sound (w.moved p (.calling g value k) g (w.called p data) a.place) a.place
      (gs ++ g :: active) := by
  have hc : Captures w g gs := ⟨old, a, k', hget, hsuspended, hsaved, hfound, hlinked⟩
  have hq : ∀ f, (w.stackAt a.place).top = some f → f.gen? = some g := by
    intro f htop
    rw [World.top_of_find hfound f htop]
    rfl
  have husable := World.setGen_allocated_of (g := g) (w.leave p (.calling g value k))
    (w.called p data) (fun _ _ _ => hstack) (World.find_eq_some.mp hfound).1
  exact hs.resumes (w.called p data) hget (by simp [hsuspended]) hq
    (World.place_ne_of_find hs.awake hfound) husable hlinked (fun ks => hc.unique) hstatus hstack
    rfl hsent hk

/-- A generator is run from the stack `p`; `data` is what `next` or `_throw` has made of it. -/
theorem Sound.runGenerator {old : GenData T E X} {value : Option IT}
    {k : Machine.Answer T E → Control T E X}
    (hs : Sound w p active) (hget : w.gens g = some old)
    (hold : old.status = .pending ∧ data.genCtx = some .entry ∨
      old.status = .suspended ∧ data.genCtx = old.genCtx)
    (hstatus : data.status = .running) (hstack : data.genStack = true)
    (hsent : data.inVal = value.map fun _ => w.here p)
    (hsend : value = none → ∃ error, data.error = some error) (hk : ∀ answer, (k answer).At p) :
    Runs (w.runGenerator p g data value k) := by
  rcases hold with ⟨hpending, hctx⟩ | ⟨hsuspended, hctx⟩
  · rw [World.runGenerator_entry hctx]
    exact ⟨.gen g, g :: active, rfl, hs.starts hget hpending hstatus hstack hsent hk⟩
  · have hfits := hs.fits g old hget
    simp only [Fits, hsuspended] at hfits
    obtain ⟨-, gs, d, a, k', hd, -, hsaved, hfound, hlinked⟩ := hfits
    obtain rfl := Option.some.inj (hget.symm.trans hd)
    have hmoved := hs.reenters hget hsuspended hsaved hfound hlinked hstatus hstack hsent hk
    have hat : ∀ sent, (k' sent).At a.place :=
      hs.frames a.place _ (World.find_eq_some.mp hfound).2.2
    cases value with
    | some v =>
        rw [hs.runGenerator_value (hctx.trans hsaved) hfound hstack hsent]
        exact ⟨a.place, _, hat _, hmoved⟩
    | none =>
        obtain ⟨error, herror⟩ := hsend rfl
        rw [hs.runGenerator_error (hctx.trans hsaved) hfound hstack hsent herror]
        exact ⟨a.place, _, hat _, hmoved.relink (w.moved_gens_same ..) rfl rfl⟩

/-- Who has resumed a generator that control is inside of. -/
theorem Sound.caller_of_active (hs : Sound w p active) (hg : g ∈ active)
    (hget : w.gens g = some data) :
    data.genStack = true ∧ ∃ a value k, data.callerCtx = some a ∧
      data.inVal = value.map (fun _ => a) ∧ w.find a = some (.calling g value k) ∧
        ∀ answer, (k answer).At a.place := by
  obtain ⟨before, rest, rfl, -, hafter⟩ := hs.chain.split hg
  cases hafter with
  | cons g a gs q data' value k get running caller frame sent =>
      obtain rfl := Option.some.inj (hget.symm.trans get)
      have hfits := hs.fits g data hget
      simp only [Fits, running] at hfits
      exact ⟨hfits.1, a, value, k, caller, sent, frame,
        hs.frames a.place _ (World.find_eq_some.mp frame).2.2⟩

variable [GeneratorError E]

/-- `yield` through the context of a generator that control is inside of. -/
theorem Sound.yield_ {value : T} {k : Except (Exn E) IT → Control T E X} (hs : Sound w p active)
    (hinside : ∀ data, w.gens ctx = some data → data.status = .running → ctx ∈ active)
    (h : w.yield_ p ctx value k = some r) (hk : ∀ sent, (k sent).At p) : Runs r := by
  rw [World.yield_] at h
  cases hget : w.gens ctx with
  | none => simp [hget] at h
  | some data =>
      rw [hget] at h
      by_cases hrunning : data.status = .running
      · simp only [hrunning, if_true, Option.some.injEq] at h
        have hmem := hinside data hget hrunning
        obtain ⟨hstack, a, sent, k', hcaller, -, hfound, hat⟩ := hs.caller_of_active hmem hget
        obtain ⟨before, rest, rfl, hbefore, hafter⟩ := hs.chain.split hmem
        have hmoved := hs.suspends (k := k)
          (w.saved p { data with outVal := some value, status := .suspended }) hget hbefore hafter
          hcaller hfound rfl hstack rfl hk
        rw [← h, hs.giveBack_suspended { data with outVal := some value, status := .suspended }
          hcaller hfound hstack rfl]
        exact ⟨a.place, rest, hat _, hmoved⟩
      · simp only [hrunning, if_false, Option.some.injEq] at h
        rw [← h]
        exact ⟨p, active, hk _, hs⟩

omit [GeneratorError E] in
/-- An executor comes to its end. -/
theorem Sound.giveBack {g : GenRef} (hs : Sound w (.gen g) active) (hget : w.gens g = some data)
    {data' : GenData T E X} (hstatus : data'.status = .done)
    (hcaller : data'.callerCtx = data.callerCtx) :
    Runs (w.giveBack (.gen g) g data' .ended) := by
  obtain ⟨rest, rfl⟩ : ∃ rest, active = g :: rest := by
    cases hs.chain with
    | cons g a gs q => exact ⟨gs, rfl⟩
  obtain ⟨hstack, a, sent, k', hctx, -, hfound, hat⟩ :=
    hs.caller_of_active (List.mem_cons_self ..) hget
  have hmoved := hs.finishes { w.saved (.gen g) data' with genStack := false } hget hctx hfound
    hstatus rfl
  rw [hs.giveBack_done (hcaller.trans hctx) hfound hstatus]
  exact ⟨a.place, rest, hat _, hmoved⟩

/-- `next` and `_throw`. -/
theorem Sound.call {call : Call IT E} {k : Machine.Answer T E → Control T E X}
    (hs : Sound w p active) (h : w.call p gen call k = some r)
    (hk : ∀ answer, (k answer).At p) : Runs r := by
  rw [World.call] at h
  cases hget : w.gens gen with
  | none => simp [hget] at h
  | some data =>
      simp only [hget] at h
      have hfits := hs.fits gen data hget
      cases hstatus : data.status with
      | running =>
          simp only [hstatus, Option.some.injEq] at h
          exact h ▸ ⟨p, active, hk _, hs⟩
      | done =>
          cases call with
          | next | throw_ =>
              simp only [hstatus, Option.some.injEq] at h
              exact h ▸ ⟨p, active, hk _, hs⟩
      | pending =>
          cases call with
          | next value =>
              simp only [hstatus, Option.some.injEq] at h
              exact h ▸ hs.runGenerator hget (.inl ⟨hstatus, rfl⟩) rfl rfl rfl (by simp) hk
          | throw_ error =>
              simp only [hstatus, Option.some.injEq] at h
              exact h ▸ ⟨p, active, hk _, hs⟩
      | suspended =>
          simp only [Fits, hstatus] at hfits
          cases call with
          | next value =>
              simp only [hstatus, Option.some.injEq] at h
              exact h ▸ hs.runGenerator hget (.inr ⟨hstatus, rfl⟩) rfl hfits.1 rfl (by simp) hk
          | throw_ error =>
              simp only [hstatus, Option.some.injEq] at h
              exact h ▸ hs.runGenerator hget (.inr ⟨hstatus, rfl⟩) rfl hfits.1 rfl (by simp) hk

omit [GeneratorError E] in
theorem Sound.inside (hs : Sound w p active) (h : w.inside p ctx = true) : ctx ∈ active :=
  hs.chain.mem_of_chain (of_decide_eq_true h)

omit [GeneratorError E] in
theorem Sound.mayYield (hs : Sound w p active) (h : w.mayYield p ctx = true)
    (data : GenData T E X) (hget : w.gens ctx = some data) (hrunning : data.status = .running) :
    ctx ∈ active := by
  simp only [World.mayYield, hget, Option.all_some, hrunning, ne_eq, not_true_eq_false,
    decide_false, Bool.false_or] at h
  exact hs.inside h

/-- The code of a generator does one thing. -/
theorem Sound.exec {prog : X → Action T IT E X} {code : Code T E X} (hs : Sound w (.gen g) active)
    (hinside : Config.staysInside prog ⟨w, .code g code⟩ = true) (h : w.exec prog g code = some r) :
    r.2 = .crashed ∨ Runs r := by
  obtain ⟨data, hget⟩ : ∃ data, w.gens g = some data := by
    cases hs.chain with
    | cons g a gs q data value k get => exact ⟨data, get⟩
  have hgoes {code' : Code T E X} (hr : some (w, Control.code g code') = some r) : Runs r := by
    obtain rfl := Option.some.inj hr
    exact ⟨.gen g, active, rfl, hs⟩
  cases code with
  | user state =>
      simp only [World.exec, hget] at h
      cases haction : prog state with
      | ret result =>
          simp only [haction, Option.some.injEq] at h
          exact .inr (h ▸ hs.giveBack hget rfl rfl)
      | raise error =>
          simp only [haction, Option.some.injEq] at h
          exact .inr (h ▸ hs.giveBack hget rfl rfl)
      | yield ctx value k =>
          simp only [haction] at h
          simp only [Config.staysInside, haction] at hinside
          exact .inr (hs.yield_ (hs.mayYield hinside) h fun _ => rfl)
      | yieldFrom ctx gen k =>
          simp only [haction] at h
          exact .inr (hgoes h)
      | call gen call k =>
          simp only [haction] at h
          exact .inr (hs.call h fun _ => rfl)
      | status gen k =>
          simp only [haction, Option.map_eq_some_iff] at h
          obtain ⟨called, -, hr⟩ := h
          exact .inr (hgoes (congrArg some hr))
      | create executor k =>
          simp only [haction, Option.some.injEq] at h
          exact .inr (h ▸ ⟨.gen g, active, rfl, hs.create executor⟩)
  | yieldFrom ctx gen k =>
      simp only [World.exec, hget] at h
      have hmem : ctx ∈ active := hs.inside hinside
      cases hgen : w.gens gen with
      | none => simp [hgen] at h
      | some inner =>
          cases hctx : w.gens ctx with
          | none => simp [hgen, hctx] at h
          | some outer =>
              obtain ⟨-, a, value, k', -, hsent, hfound, -⟩ := hs.caller_of_active hmem hctx
              simp only [hgen, hctx] at h
              by_cases hdone : inner.status = .done
              · simp only [hdone, if_true] at h
                exact .inr (hgoes h)
              · cases value with
                | none =>
                    simp only [hdone, if_false, hsent, Option.map_none, Option.some.injEq] at h
                    exact .inl (h ▸ rfl)
                | some value =>
                    simp only [hdone, if_false, hsent, Option.map_some, World.deref, hfound] at h
                    exact .inr (hs.call h fun _ => rfl)
  | forward ctx value gen k =>
      simp only [World.exec, hget, Option.bind_eq_some_iff] at h
      obtain ⟨value, -, h⟩ := h
      exact .inr (hs.yield_ (hs.mayYield hinside) h fun _ => rfl)

end Steps

section Runs

variable [GeneratorError E] {prog : X → Action T IT E X} {c : Config T IT E X}
  {ls : List (Label IT E X)}

/-- Executors may run, and yield through, each other's generators. As long as a generator is only
yielded from, and delegated through, by code that control has entered through it, no switch goes to
a context that is gone and no pointer to a parameter that is gone is followed. In each state the
`caller_ctx` pointers lead from the code that has control to the main program, a running generator
is on this way or inside of a suspended one, and exactly the generators that run or are suspended
have a stack. -/
theorem contexts_stay_live
    (hguard : EachStep (step prog) (fun c _ => c.staysInside prog = true) {} ls)
    (h : run (step prog) {} ls = some c) :
    c.control = .crashed ∨ ∃ p active, c.control.At p ∧ Sound c.world p active := by
  have hstart : Runs (({} : Config T IT E X).world, ({} : Config T IT E X).control) :=
    ⟨.main, [], rfl, .initial⟩
  refine run_invariant (I := fun c : Config T IT E X =>
    c.control = .crashed ∨ Runs (c.world, c.control)) ?_ (.inr hstart) hguard h
  rintro ⟨w, control⟩ l c' (hcrashed | ⟨p, active, hat, hs⟩) hinside hstep
  · obtain rfl : control = .crashed := hcrashed
    simp [step] at hstep
  · cases control with
    | main answer =>
        obtain rfl : p = .main := hat
        cases l with
        | call gen call =>
            obtain ⟨⟨w', control'⟩, hcall, rfl⟩ := Option.map_eq_some_iff.mp hstep
            exact .inr (hs.call hcall fun _ => rfl)
        | create executor =>
            obtain rfl := Option.some.inj hstep
            exact .inr ⟨.main, active, rfl, hs.create executor⟩
        | tau => simp [step] at hstep
    | code g code =>
        obtain rfl : p = .gen g := hat
        cases l with
        | tau =>
            obtain ⟨⟨w', control'⟩, hexec, rfl⟩ := Option.map_eq_some_iff.mp hstep
            exact hs.exec hinside hexec
        | call | create => simp [step] at hstep
    | crashed | undefined => exact hat.elim

end Runs

/-- What two executors do: the first one runs the second one, which yields through the context of
the first one. -/
def deepYield : ℕ → Action ℕ ℕ Reason ℕ
  | 0 => .call 1 (.next 5) fun _ => 1
  | 1 => .ret 9
  | 2 => .yield 0 7 fun _ => 3
  | _ => .ret 8

/-- The second executor comes to its end in the second call. -/
def deepYieldRun : List (Label ℕ Reason ℕ) :=
  [.create fun _ => 0, .create fun _ => 2, .call 0 (.next 1), .tau, .tau, .call 0 (.next 2), .tau,
    .tau]

theorem contexts_stay_live_sample : ∃ c : Config ℕ ℕ Reason ℕ,
    run (step deepYield) {} deepYieldRun = some c ∧ Sound c.world .main [] := by
  obtain ⟨c, hrun, hguard, hmain⟩ : ∃ c : Config ℕ ℕ Reason ℕ,
      run (step deepYield) {} deepYieldRun = some c ∧
        EachStep (step deepYield) (fun c _ => c.staysInside deepYield = true) {} deepYieldRun ∧
        c.control = .main (some (.ok (some 9))) := ⟨_, rfl, by decide +kernel, rfl⟩
  refine ⟨c, hrun, ?_⟩
  rcases contexts_stay_live hguard hrun with hcrashed | ⟨p, active, hat, hs⟩
  · simp [hmain] at hcrashed
  · rw [hmain] at hat
    obtain rfl : p = .main := hat
    have hchain := hs.chain
    cases hchain with
    | nil => exact hs

end Libasync.Generator.Contexts
