import Libasync.Foundation.Projection
import Libasync.Generator.LiveContexts
import Mathlib.Data.List.Forall2

/-! # The stack of callers and the stacks in memory

When each executor yields only through its own context, the switches of memory do what the machine
says that keeps the callers on a stack. -/

namespace Libasync.Generator.Contexts

open Promise Automaton
open Machine (GenRef Call)

variable {T IT E C : Type*}

/-! ### Executors with their own contexts -/

/-- The same user code with the context of its generator at hand. -/
def own (prog : C → Machine.Action T IT E C) : GenRef × C → Action T IT E (GenRef × C)
  | (g, state) =>
      match prog state with
      | .ret result => .ret result
      | .raise error => .raise error
      | .yield value k => .yield g value fun sent => (g, k sent)
      | .yieldFrom gen k => .yieldFrom g gen fun result => (g, k result)
      | .call gen call k => .call gen call fun answer => (g, k answer)
      | .status gen k => .status gen fun status => (g, k status)
      | .create executor k => .create (fun h => (h, executor)) fun gen => (g, k gen)

def ownCode (g : GenRef) : Machine.Code T E C → Code T E (GenRef × C)
  | .user state => .user (g, state)
  | .yieldFrom gen k => .yieldFrom g gen fun result => (g, k result)
  | .forward value gen k => .forward g value gen fun result => (g, k result)

def ownLabel : Machine.Label IT E C → Label IT E (GenRef × C)
  | .call gen call => .call gen call
  | .create executor => .create fun g => (g, executor)
  | .tau => .tau

/-! ### What corresponds to what -/

/-- The call that goes on when the caller is answered. -/
def Resumes (p : Place) (k : Machine.Answer T E → Control T E (GenRef × C)) :
    Machine.Caller T E C → Prop
  | .main => p = .main ∧ ∀ answer, k answer = .main (some answer)
  | .gen h k' => p = .gen h ∧ ∀ answer, k answer = .code h (ownCode h (k' answer))

/-- The caller is in the call that `caller_ctx` of the generator points to. -/
def CalledBy (w : World T IT E (GenRef × C)) (g : GenRef) (caller : Machine.Caller T E C) : Prop :=
  ∃ data a value k, w.gens g = some data ∧ data.callerCtx = some a ∧
    w.find a = some (.calling g value k) ∧ Resumes a.place k caller

/-- The data of one generator. -/
structure Same (w : World T IT E (GenRef × C)) (g : GenRef) (data : GenData T E (GenRef × C))
    (data' : Machine.Data T IT E C) : Prop where
  status : data'.status = data.status
  outVal : data'.outVal = data.outVal
  error : data'.error = data.error
  executor : ∃ state, data'.executor = .user state ∧ ∀ h, data.executor h = (h, state)
  pending : data.status = .pending → data'.genCtx = none
  running : data.status = .running → ∃ a value k, data.callerCtx = some a ∧
    w.find a = some (.calling g value k) ∧ data'.inVal = value
  suspended : data.status = .suspended → ∃ a k resume, data.genCtx = some (.saved a) ∧
    w.find a = some (.yielding g k) ∧ a.place = .gen g ∧ data'.genCtx = some resume ∧
      ∀ sent, k sent = .code g (ownCode g (resume sent))

inductive SameControl : Control T E (GenRef × C) → Machine.Control T E C → Prop where
  | main (answer) : SameControl (.main answer) (.main answer)
  | code (g code) : SameControl (.code g (ownCode g code)) (.code g code)
  | crashed : SameControl .crashed .crashed

/-- The memory is that of a machine with this stack of callers. -/
structure SameMemory (w : World T IT E (GenRef × C)) (p : Place) (active : List GenRef)
    (w' : Machine.World T IT E C) (stack : List (Machine.Caller T E C)) : Prop where
  sound : Sound w p active
  callers : List.Forall₂ (CalledBy w) active stack
  gens : ∀ g, Option.Rel (Same w g) (w.gens g) (w'.gens g)
  numGens : w.numGens = w'.numGens

/-- The configurations are alike. After a crash nothing is said of the memory. -/
def Represents (d : Machine.Config T IT E C) (c : Config T IT E (GenRef × C)) : Prop :=
  SameControl c.control d.control ∧
    (c.control = .crashed ∨
      ∃ p active, c.control.At p ∧ SameMemory c.world p active d.world d.stack)

/-! ### Switches -/

theorem set_set (w : Machine.World T IT E C) (g : GenRef)
    (data data' : Machine.Data T IT E C) : (w.set g data).set g data' = w.set g data' := by
  simp [Machine.World.set]

section Moves

variable {w : World T IT E (GenRef × C)} {p q : Place} {active : List GenRef} {g h : GenRef}
  {data sent : GenData T E (GenRef × C)} {data' : Machine.Data T IT E C}
  {frame : Frame T IT E (GenRef × C)} {caller : Machine.Caller T E C}
  {stack : List (Machine.Caller T E C)}

/-- The calls about the generator are found where they were. -/
theorem Same.transfer {v : World T IT E (GenRef × C)} (hsame : Same w h data data')
    (hfind : ∀ a f, f.gen? = some h → w.find a = some f → v.find a = some f) :
    Same v h data data' := by
  refine { hsame with running := fun hstatus => ?_, suspended := fun hstatus => ?_ }
  · obtain ⟨a, value, k, hcaller, hfound, hsent⟩ := hsame.running hstatus
    exact ⟨a, value, k, hcaller, hfind a _ rfl hfound, hsent⟩
  · obtain ⟨a, k, resume, hctx, hfound, hrest⟩ := hsame.suspended hstatus
    exact ⟨a, k, resume, hctx, hfind a _ rfl hfound, hrest⟩

theorem CalledBy.transfer {v : World T IT E (GenRef × C)} (hcalled : CalledBy w h caller)
    (hget : ∀ data, w.gens h = some data →
      ∃ new, v.gens h = some new ∧ new.callerCtx = data.callerCtx)
    (hfind : ∀ a f, f.gen? = some h → w.find a = some f → v.find a = some f) :
    CalledBy v h caller := by
  obtain ⟨data, a, value, k, hdata, hcaller, hfound, hresumes⟩ := hcalled
  obtain ⟨new, hnew, hsame⟩ := hget data hdata
  exact ⟨new, a, value, k, hnew, hsame.trans hcaller, hfind a _ rfl hfound, hresumes⟩

/-- The switch is not about the calls of other generators. -/
theorem find_other (hawake : (w.stackAt p).top = none) (hkeeps : Keeps w p g sent)
    (hq : ∀ f, (w.stackAt q).top = some f → f.gen? = some g) (hne : h ≠ g) (a : Address)
    (f : Frame T IT E (GenRef × C)) (hf : f.gen? = some h) (hfound : w.find a = some f) :
    (w.moved p frame g sent q).find a = some f := by
  refine World.find_moved hawake hkeeps hq (fun heq => hne ?_) hfound
  exact Option.some.inj (hf.symm.trans heq)

/-- Who waits for generators that the switch is not about goes on waiting. -/
theorem callers_moved (frame : Frame T IT E (GenRef × C))
    (hcallers : List.Forall₂ (CalledBy w) active stack)
    (hawake : (w.stackAt p).top = none) (hkeeps : Keeps w p g sent)
    (hq : ∀ f, (w.stackAt q).top = some f → f.gen? = some g) (hg : g ∉ active) :
    List.Forall₂ (CalledBy (w.moved p frame g sent q)) active stack := by
  have hne : ∀ h ∈ active, h ≠ g := by
    rintro h hh rfl
    exact hg hh
  refine ((List.forall₂_and_left ..).mpr ⟨hne, hcallers⟩).imp ?_
  rintro h caller ⟨hne, hcalled⟩
  exact hcalled.transfer (fun data hdata => ⟨data, (World.moved_gens_ne hne).trans hdata, rfl⟩)
    (find_other hawake hkeeps hq hne)

/-- What holds after a switch, for the generators that it is not about. -/
theorem gens_moved {w' : Machine.World T IT E C} (hawake : (w.stackAt p).top = none)
    (hkeeps : Keeps w p g sent) (hq : ∀ f, (w.stackAt q).top = some f → f.gen? = some g)
    (hgens : ∀ h, Option.Rel (Same w h) (w.gens h) (w'.gens h))
    (hsame : Same (w.moved p frame g sent q) g sent data') :
    ∀ h, Option.Rel (Same (w.moved p frame g sent q) h)
      ((w.moved p frame g sent q).gens h) ((w'.set g data').gens h) := by
  intro h
  by_cases hne : h = g
  · subst hne
    rw [World.moved_gens_same]
    simp only [Machine.World.set, Function.update_self]
    exact .some hsame
  · rw [World.moved_gens_ne hne]
    simp only [Machine.World.set, Function.update_of_ne hne]
    rcases rel_cases (hgens h) with ⟨hs, ht⟩ | ⟨d, d', hs, ht, hold⟩
    · rw [hs, ht]
      exact .none
    · rw [hs, ht]
      exact .some (hold.transfer (find_other hawake hkeeps hq hne))

theorem SameMemory.moved {active' : List GenRef} {w' : Machine.World T IT E C}
    {stack' : List (Machine.Caller T E C)} (hm : SameMemory w p active w' stack)
    (hkeeps : Keeps w p g sent) (hq : ∀ f, (w.stackAt q).top = some f → f.gen? = some g)
    (hsound : Sound (w.moved p frame g sent q) q active')
    (hcallers : List.Forall₂ (CalledBy (w.moved p frame g sent q)) active' stack')
    (hsame : Same (w.moved p frame g sent q) g sent data') :
    SameMemory (w.moved p frame g sent q) q active' (w'.set g data') stack' :=
  ⟨hsound, hcallers, gens_moved hm.sound.awake hkeeps hq hm.gens hsame, hm.numGens⟩

/-- The caller of the generator that is run waits for it. -/
theorem calledBy_moved {value : Option IT} {k : Machine.Answer T E → Control T E (GenRef × C)}
    (husable : w.allocated p = true) (hstack : sent.genStack = true)
    (hpq : q ≠ p) (hresumes : Resumes p k caller) :
    CalledBy (w.moved p (.calling g value k) g (w.called p sent) q) g caller :=
  ⟨w.called p sent, w.here p, value, k, w.moved_gens_same .., rfl,
    World.find_moved_here _ _ husable (fun _ _ _ => hstack) hpq, hresumes⟩

theorem Resumes.at {k : Machine.Answer T E → Control T E (GenRef × C)} (h : Resumes p k caller)
    (answer : Machine.Answer T E) : (k answer).At p := by
  cases caller with
  | main =>
      obtain ⟨rfl, hk⟩ := h
      rw [hk]
      rfl
  | gen g k' =>
      obtain ⟨rfl, hk⟩ := h
      rw [hk]
      rfl

/-- The generators that control is inside of are running. -/
theorem SameMemory.not_active {w' : Machine.World T IT E C} (hm : SameMemory w p active w' stack)
    (hget : w.gens g = some data) (hidle : data.status ≠ .running) : g ∉ active :=
  fun hmem => hidle (hm.sound.chain.running hmem hget)

/-- A pending generator is started. -/
theorem SameMemory.starts {w' : Machine.World T IT E C} {value : Option IT}
    {k : Machine.Answer T E → Control T E (GenRef × C)} (hm : SameMemory w p active w' stack)
    (hget : w.gens g = some data) (hpending : data.status = .pending)
    (hstatus : sent.status = .running) (hstack : sent.genStack = true)
    (hsent : sent.inVal = value.map fun _ => w.here p) (hresumes : Resumes p k caller)
    (hsame : Same (w.moved p (.calling g value k) g (w.called p sent) (.gen g)) g
      (w.called p sent) data') :
    SameMemory (w.moved p (.calling g value k) g (w.called p sent) (.gen g)) (.gen g)
      (g :: active) (w'.set g data') (caller :: stack) := by
  have hfits := hm.sound.fits g data hget
  simp only [Fits, hpending] at hfits
  have hkeeps : Keeps w p g (w.called p sent) := .inr fun _ _ _ => hstack
  have hq : ∀ f, (w.stackAt (.gen g)).top = some f → f.gen? = some g := by simp [hfits.2]
  have hpq : Place.gen g ≠ p := by
    refine (hm.sound.stack_ne fun d hd => ?_).symm
    obtain rfl := Option.some.inj (hget.symm.trans hd)
    exact hfits.1
  have hcallers := callers_moved (.calling g value k) hm.callers hm.sound.awake hkeeps hq
    (hm.not_active hget (by simp [hpending]))
  refine hm.moved hkeeps hq ?_ (.cons ?_ hcallers) hsame
  · exact hm.sound.starts hget hpending hstatus hstack hsent hresumes.at
  · exact calledBy_moved hm.sound.usable hstack hpq hresumes

/-- A suspended generator is resumed on its own stack. -/
theorem SameMemory.reenters {w' : Machine.World T IT E C} {value : Option IT} {a : Address}
    {k : Machine.Answer T E → Control T E (GenRef × C)}
    {k' : Except (Exn E) IT → Control T E (GenRef × C)}
    (hm : SameMemory w p active w' stack) (hget : w.gens g = some data)
    (hsuspended : data.status = .suspended) (hsaved : data.genCtx = some (.saved a))
    (hfound : w.find a = some (.yielding g k')) (hplace : a.place = .gen g)
    (hstatus : sent.status = .running) (hstack : sent.genStack = true)
    (hsent : sent.inVal = value.map fun _ => w.here p) (hresumes : Resumes p k caller)
    (hsame : Same (w.moved p (.calling g value k) g (w.called p sent) a.place) g
      (w.called p sent) data') :
    SameMemory (w.moved p (.calling g value k) g (w.called p sent) a.place) a.place
      (g :: active) (w'.set g data') (caller :: stack) := by
  have hkeeps : Keeps w p g (w.called p sent) := .inr fun _ _ _ => hstack
  have hq : ∀ f, (w.stackAt a.place).top = some f → f.gen? = some g := by
    intro f htop
    rw [World.top_of_find hfound f htop]
    rfl
  have hpq : a.place ≠ p := World.place_ne_of_find hm.sound.awake hfound
  have hlinked : Linked w a.place [] (.gen g) := hplace ▸ .nil _
  have hcallers := callers_moved (.calling g value k) hm.callers hm.sound.awake hkeeps hq
    (hm.not_active hget (by simp [hsuspended]))
  refine hm.moved hkeeps hq ?_ (.cons ?_ hcallers) hsame
  · exact hm.sound.reenters hget hsuspended hsaved hfound hlinked hstatus hstack hsent hresumes.at
  · exact calledBy_moved hm.sound.usable hstack hpq hresumes

/-- A generator keeps what the chains depend on. -/
theorem SameMemory.relink {w' : Machine.World T IT E C} (hm : SameMemory w p active w' stack)
    (sent : GenData T E (GenRef × C)) (data' : Machine.Data T IT E C)
    (hget : w.gens g = some data) (hlinks : sent.links = data.links)
    (hstack : sent.genStack = data.genStack) (hsame : Same w g sent data') :
    SameMemory (w.setGen g sent) p active (w'.set g data') stack := by
  have hfind (h : GenRef) (a : Address) (f : Frame T IT E (GenRef × C)) (_ : f.gen? = some h)
      (hfound : w.find a = some f) : (w.setGen g sent).find a = some f := by
    refine World.find_setGen w sent (fun d hd hd' => ?_) hfound
    obtain rfl := Option.some.inj (hget.symm.trans hd)
    exact hstack.trans hd'
  have hcaller : sent.callerCtx = data.callerCtx := by
    simp only [GenData.links, Prod.mk.injEq] at hlinks
    exact hlinks.2.2.1
  refine ⟨hm.sound.relink hget hlinks hstack, hm.callers.imp ?_, fun h => ?_, hm.numGens⟩
  · refine fun h caller hcalled => hcalled.transfer (fun d hd => ?_) (hfind h)
    by_cases hne : h = g
    · subst hne
      obtain rfl := Option.some.inj (hget.symm.trans hd)
      exact ⟨sent, w.setGen_gens_same h sent, hcaller⟩
    · exact ⟨d, (w.setGen_gens_ne sent hne).trans hd, rfl⟩
  · by_cases hne : h = g
    · subst hne
      simp only [World.setGen_gens_same, Machine.World.set, Function.update_self]
      exact .some (hsame.transfer (hfind h))
    · rw [w.setGen_gens_ne sent hne]
      simp only [Machine.World.set, Function.update_of_ne hne]
      rcases rel_cases (hm.gens h) with ⟨hs, ht⟩ | ⟨d, d', hs, ht, hold⟩
      · rw [hs, ht]
        exact .none
      · rw [hs, ht]
        exact .some (hold.transfer (hfind h))

/-- The data of a generator that is run, and the parameter that `in_val` points to. -/
theorem Same.called {value : Option IT} {k : Machine.Answer T E → Control T E (GenRef × C)}
    {sent' : Machine.Data T IT E C} (hsame : Same w g data data') (husable : w.allocated p = true)
    (hstack : sent.genStack = true) (hpq : q ≠ p) (hexecutor : sent.executor = data.executor)
    (hstatus : sent.status = .running) (hstatus' : sent'.status = .running)
    (hexecutor' : sent'.executor = data'.executor) (houtVal : sent'.outVal = sent.outVal)
    (herror : sent'.error = sent.error) (hsent : sent'.inVal = value) :
    Same (w.moved p (.calling g value k) g (w.called p sent) q) g (w.called p sent) sent' where
  status := hstatus'.trans hstatus.symm
  outVal := houtVal
  error := herror
  executor := by
    obtain ⟨state, hstate, hgen⟩ := hsame.executor
    exact ⟨state, hexecutor'.trans hstate, fun h => (congrFun hexecutor h).trans (hgen h)⟩
  pending hpending := by
    cases hstatus.symm.trans hpending
  running _ := ⟨w.here p, value, k, rfl,
    World.find_moved_here _ _ husable (fun _ _ _ => hstack) hpq, hsent⟩
  suspended hsuspended := by
    cases hstatus.symm.trans hsuspended

/-! ### Calls -/

variable [GeneratorError E]

/-- What a call in memory is to be, by what the machine does. -/
def CallsAs (w : World T IT E (GenRef × C)) (p : Place) (w' : Machine.World T IT E C)
    (stack : List (Machine.Caller T E C)) (gen : GenRef) (call : Call IT E)
    (caller : Machine.Caller T E C) (k : Machine.Answer T E → Control T E (GenRef × C)) : Prop :=
  match w'.gens gen with
  | none => w.call p gen call k = none
  | some data =>
      match call.send data with
      | .switched sent =>
          ∃ entered code world active, sent.enter = some (entered, code) ∧
            w.call p gen call k = some (world, .code gen (ownCode gen code)) ∧
              SameMemory world (.gen gen) active (w'.set gen entered) (caller :: stack)
      | .returned outVal => w.call p gen call k = some (w, k (.ok outVal))
      | .threw error => w.call p gen call k = some (w, k (.error error))

section Call

variable {w' : Machine.World T IT E C} {k : Machine.Answer T E → Control T E (GenRef × C)}

/-- `next` starts the executor. -/
theorem SameMemory.call_pending (hm : SameMemory w p active w' stack)
    (hresumes : Resumes p k caller) (hget : w.gens g = some data) (hget' : w'.gens g = some data')
    (hsame : Same w g data data') (hstatus : data.status = .pending) (value : IT) :
    CallsAs w p w' stack g (.next value) caller k := by
  have hstatus' : data'.status = .pending := hsame.status.trans hstatus
  have hctx' : data'.genCtx = none := hsame.pending hstatus
  have hfits := hm.sound.fits g data hget
  simp only [Fits, hstatus] at hfits
  have hpq : Place.gen g ≠ p := by
    refine (hm.sound.stack_ne fun d hd => ?_).symm
    obtain rfl := Option.some.inj (hget.symm.trans hd)
    exact hfits.1
  obtain ⟨state, hstate, hgen⟩ := id hsame.executor
  let sent : GenData T E (GenRef × C) :=
    { data with
      genCtx := some .entry
      genStack := true
      inVal := some (w.here p)
      status := .running }
  let sent' : Machine.Data T IT E C := { data' with inVal := some value, status := .running }
  have hcalled : Same _ g (w.called p sent) sent' :=
    hsame.called (k := k) hm.sound.usable rfl hpq rfl rfl rfl rfl hsame.outVal hsame.error
      (Eq.refl (some value))
  have hentered : sent'.enter = some (sent', .user state) := by
    simp [sent', GenData.enter, hctx', hstate]
  have hcall : w.call p g (.next value) k =
      some (w.moved p (.calling g (some value) k) g (w.called p sent) (.gen g),
        .code g (ownCode g (.user state))) := by
    simp only [World.call, hget, hstatus]
    rw [World.runGenerator_entry rfl]
    simp only [sent, hgen, ownCode]
  simp only [CallsAs, hget', Call.send, GenData.next, hstatus']
  exact ⟨sent', .user state, _, g :: active, hentered, hcall,
    hm.starts hget hstatus rfl rfl rfl hresumes hcalled⟩

/-- `next` and `_throw` resume the pending `yield`. -/
theorem SameMemory.call_suspended (hm : SameMemory w p active w' stack)
    (hresumes : Resumes p k caller) (hget : w.gens g = some data) (hget' : w'.gens g = some data')
    (hsame : Same w g data data') (hstatus : data.status = .suspended) (call : Call IT E) :
    CallsAs w p w' stack g call caller k := by
  have hstatus' : data'.status = .suspended := hsame.status.trans hstatus
  obtain ⟨a, k', resume, hctx, hfound, hplace, hctx', hk'⟩ := hsame.suspended hstatus
  have hfits := hm.sound.fits g data hget
  simp only [Fits, hstatus] at hfits
  have hpq : a.place ≠ p := World.place_ne_of_find hm.sound.awake hfound
  cases call with
  | next value =>
      let sent : GenData T E (GenRef × C) :=
        { data with inVal := some (w.here p), status := .running }
      let sent' : Machine.Data T IT E C := { data' with inVal := some value, status := .running }
      have hcalled : Same _ g (w.called p sent) sent' :=
        hsame.called (k := k) hm.sound.usable hfits.1 hpq rfl rfl rfl rfl hsame.outVal hsame.error
          (Eq.refl (some value))
      have hentered : sent'.enter = some (sent', resume (.ok value)) := by
        simp [sent', GenData.enter, hctx']
      have hcall : w.call p g (.next value) k =
          some (w.moved p (.calling g (some value) k) g (w.called p sent) a.place,
            .code g (ownCode g (resume (.ok value)))) := by
        have hrun : w.runGenerator p g sent (some value) k = _ :=
          hm.sound.runGenerator_value hctx hfound hfits.1 rfl
        simp only [World.call, hget, hstatus]
        rw [hrun, hk']
      have hstack : sent.genStack = true := hfits.1
      have hnext := hm.reenters hget hstatus hctx hfound hplace rfl hstack rfl hresumes hcalled
      simp only [CallsAs, hget', Call.send, GenData.next, hstatus']
      exact ⟨sent', _, _, g :: active, hentered, hcall, hplace ▸ hnext⟩
  | throw_ error =>
      let sent : GenData T E (GenRef × C) :=
        { data with inVal := none, error := some (eptrMake error), status := .running }
      let sent' : Machine.Data T IT E C :=
        { data' with inVal := none, error := some (eptrMake error), status := .running }
      have hcalled : Same _ g (w.called p sent) sent' :=
        hsame.called (k := k) hm.sound.usable hfits.1 hpq rfl rfl rfl rfl hsame.outVal rfl
          (Eq.refl none)
      have hentered : sent'.enter =
          some ({ sent' with error := none }, resume (.error (eptrMake error))) := by
        simp [sent', GenData.enter, hctx']
      have hcall : w.call p g (.throw_ error) k =
          some ((w.moved p (.calling g none k) g (w.called p sent) a.place).setGen g
            { w.called p sent with error := none },
            .code g (ownCode g (resume (.error (eptrMake error))))) := by
        have hrun : w.runGenerator p g sent none k = _ :=
          hm.sound.runGenerator_error hctx hfound hfits.1 rfl rfl
        simp only [World.call, hget, hstatus]
        rw [hrun, hk']
      have hstack : sent.genStack = true := hfits.1
      have hthrown := hm.reenters hget hstatus hctx hfound hplace rfl hstack rfl hresumes hcalled
      have hcleared := hthrown.relink { w.called p sent with error := none }
        { sent' with error := none } (w.moved_gens_same ..) rfl rfl { hcalled with error := rfl }
      rw [set_set] at hcleared
      simp only [CallsAs, hget', Call.send, GenData.throw_, hstatus']
      exact ⟨_, _, _, g :: active, hentered, hcall, hplace ▸ hcleared⟩

/-- `next` and `_throw` do the same. -/
theorem SameMemory.call (hm : SameMemory w p active w' stack) (hresumes : Resumes p k caller)
    (gen : GenRef) (call : Call IT E) : CallsAs w p w' stack gen call caller k := by
  rcases rel_cases (hm.gens gen) with ⟨hs, ht⟩ | ⟨data, data', hs, ht, hsame⟩
  · simp [CallsAs, ht, World.call, hs]
  · have hstatus' := hsame.status
    cases hstatus : data.status with
    | running =>
        rw [hstatus] at hstatus'
        cases call with
        | next | throw_ =>
            simp [CallsAs, ht, Call.send, GenData.next, GenData.throw_, hstatus', World.call, hs,
              hstatus]
    | done =>
        rw [hstatus] at hstatus'
        cases call with
        | next | throw_ =>
            simp [CallsAs, ht, Call.send, GenData.next, GenData.throw_, hstatus', World.call, hs,
              hstatus, hsame.outVal]
    | pending =>
        rw [hstatus] at hstatus'
        cases call with
        | throw_ error =>
            simp [CallsAs, ht, Call.send, GenData.throw_, hstatus', World.call, hs, hstatus]
        | next value => exact hm.call_pending hresumes hs ht hsame hstatus value
    | suspended => exact hm.call_suspended hresumes hs ht hsame hstatus call

end Call

omit [GeneratorError E]

/-! ### Back to the caller -/

/-- The caller goes on with the answer. -/
def goesOn (answer : Machine.Answer T E) : Machine.Caller T E C → Machine.Control T E C
  | .main => .main (some answer)
  | .gen h k => .code h (k answer)

theorem Resumes.goesOn {k : Machine.Answer T E → Control T E (GenRef × C)} (h : Resumes p k caller)
    (answer : Machine.Answer T E) : SameControl (k answer) (goesOn answer caller) := by
  cases caller with
  | main =>
      rw [h.2]
      exact .main (some answer)
  | gen g k' =>
      rw [h.2]
      exact .code g (k' answer)

theorem after_returns {c : Machine.Config T IT E C} (hstack : c.stack = caller :: stack)
    (w' : Machine.World T IT E C) (answer : Machine.Answer T E) :
    c.after g (w', .returns answer) =
      some { c with world := w', control := goesOn answer caller, stack := stack } := by
  cases caller with
  | main | gen => simp only [Machine.Config.after, hstack, Contexts.goesOn]

section Back

variable {w' : Machine.World T IT E C} {rest : List GenRef}

/-- Who is to go on when the generator gives control back. -/
theorem SameMemory.waits (hm : SameMemory w (.gen g) (g :: rest) w' stack)
    (hget : w.gens g = some data) :
    ∃ caller before a value k, stack = caller :: before ∧ data.callerCtx = some a ∧
      w.find a = some (.calling g value k) ∧ Resumes a.place k caller ∧
      List.Forall₂ (CalledBy w) rest before ∧ g ∉ rest := by
  have hnodup := hm.sound.chain.nodup (.main w)
  have hcallers := hm.callers
  cases hcallers with
  | cons hcalled hbefore =>
      obtain ⟨data', a, value, k, hget', hcaller, hfound, hresumes⟩ := hcalled
      obtain rfl := Option.some.inj (hget.symm.trans hget')
      exact ⟨_, _, a, value, k, rfl, hcaller, hfound, hresumes, hbefore,
        (List.nodup_cons.mp hnodup).1⟩

/-- A generator yields on its own stack. -/
theorem SameMemory.suspends {a : Address} {value : Option IT} {v : T}
    {k : Machine.Answer T E → Control T E (GenRef × C)}
    {k' : Except (Exn E) IT → Control T E (GenRef × C)}
    {resume : Except (Exn E) IT → Machine.Code T E C} {before : List (Machine.Caller T E C)}
    (hm : SameMemory w (.gen g) (g :: rest) w' stack) (hget : w.gens g = some data)
    (hsame : Same w g data data') (hcaller : data.callerCtx = some a)
    (hfound : w.find a = some (.calling g value k))
    (hbefore : List.Forall₂ (CalledBy w) rest before)
    (hg : g ∉ rest) (hk' : ∀ sent, k' sent = .code g (ownCode g (resume sent))) :
    SameMemory
      (w.moved (.gen g) (.yielding g k') g
        (w.saved (.gen g) { data with outVal := some v, status := .suspended }) a.place)
      a.place rest
      (w'.set g
        { data' with outVal := some v, status := .suspended, genCtx := some resume }) before := by
  have hrunning := hm.sound.chain.running (List.mem_cons_self ..) hget
  have hfits := hm.sound.fits g data hget
  simp only [Fits, hrunning] at hfits
  have hq : ∀ f, (w.stackAt a.place).top = some f → f.gen? = some g := by
    intro f htop
    rw [World.top_of_find hfound f htop]
    rfl
  have hpq : a.place ≠ .gen g := World.place_ne_of_find hm.sound.awake hfound
  have hkeeps : Keeps w (.gen g) g
      (w.saved (.gen g) { data with outVal := some v, status := .suspended }) := .inl rfl
  have hsound := hm.sound.suspends
    (w.saved (.gen g) { data with outVal := some v, status := .suspended }) hget (.nil _)
    hm.sound.chain hcaller hfound rfl hfits.1 rfl (k := k') fun sent => hk' sent ▸ rfl
  refine hm.moved hkeeps hq hsound (callers_moved _ hbefore hm.sound.awake hkeeps hq hg) ?_
  exact {
    status := rfl
    outVal := rfl
    error := hsame.error
    executor := hsame.executor
    pending := by rintro ⟨⟩
    running := by rintro ⟨⟩
    suspended := fun _ => ⟨w.here (.gen g), k', resume, rfl,
      World.find_moved_here _ _ hm.sound.usable (fun _ _ _ => hfits.1) hpq, rfl, rfl, hk'⟩ }

/-- A generator comes to its end. -/
theorem SameMemory.finishes {a : Address} {value : Option IT}
    {k : Machine.Answer T E → Control T E (GenRef × C)} {before : List (Machine.Caller T E C)}
    {ended' : Machine.Data T IT E C}
    (hm : SameMemory w (.gen g) (g :: rest) w' stack) (hget : w.gens g = some data)
    (hsame : Same w g data data') (hcaller : data.callerCtx = some a)
    (hfound : w.find a = some (.calling g value k))
    (hbefore : List.Forall₂ (CalledBy w) rest before)
    (hg : g ∉ rest) (ended : GenData T E (GenRef × C)) (hstatus : ended.status = .done)
    (hstack : ended.genStack = false)
    (hexecutor : ended.executor = data.executor) (hstatus' : ended'.status = .done)
    (hexecutor' : ended'.executor = data'.executor) (houtVal : ended'.outVal = ended.outVal)
    (herror : ended'.error = ended.error) :
    SameMemory (w.moved (.gen g) .ended g ended a.place) a.place rest (w'.set g ended') before := by
  have hq : ∀ f, (w.stackAt a.place).top = some f → f.gen? = some g := by
    intro f htop
    rw [World.top_of_find hfound f htop]
    rfl
  have hkeeps : Keeps w (.gen g) g ended := .inl rfl
  have hsound := hm.sound.finishes ended hget hcaller hfound hstatus hstack
  refine hm.moved hkeeps hq hsound (callers_moved _ hbefore hm.sound.awake hkeeps hq hg) ?_
  obtain ⟨state, hstate, hgen⟩ := hsame.executor
  exact {
    status := hstatus'.trans hstatus.symm
    outVal := houtVal
    error := herror
    executor := ⟨state, hexecutor'.trans hstate, fun h => (congrFun hexecutor h).trans (hgen h)⟩
    pending := fun hpending => by cases hstatus.symm.trans hpending
    running := fun hrunning => by cases hstatus.symm.trans hrunning
    suspended := fun hsuspended => by cases hstatus.symm.trans hsuspended }

/-- A generator is made. -/
theorem SameMemory.create (hm : SameMemory w p active w' stack) (executor : C) :
    SameMemory (w.create fun h => (h, executor)) p active (w'.create executor) stack := by
  have hfresh : w.gens w.numGens = none := by
    have hmade := hm.sound.made w.numGens
    simpa using hmade
  have hfind (h : GenRef) (a : Address) (f : Frame T IT E (GenRef × C)) (_ : f.gen? = some h)
      (hfound : w.find a = some f) : (w.create fun h => (h, executor)).find a = some f :=
    World.find_setGen w _ (fun d hd => by simp [hfresh] at hd) hfound
  have hgens (h : GenRef) (hne : h ≠ w.numGens) :
      (w.create fun h => (h, executor)).gens h = w.gens h := w.setGen_gens_ne _ hne
  have hgens' (h : GenRef) (hne : h ≠ w.numGens) : (w'.create executor).gens h = w'.gens h :=
    Function.update_of_ne (hm.numGens ▸ hne) ..
  refine ⟨hm.sound.create _, hm.callers.imp ?_, fun h => ?_, congrArg (· + 1) hm.numGens⟩
  · refine fun h caller hcalled => hcalled.transfer (fun d hd => ⟨d, ?_, rfl⟩) (hfind h)
    rw [hgens h fun heq => by simp [heq, hfresh] at hd, hd]
  · by_cases hne : h = w.numGens
    · subst hne
      have hsame : (w.create fun h => (h, executor)).gens w.numGens =
        some { executor := fun h => (h, executor) } := w.setGen_gens_same ..
      have hsame' : (w'.create executor).gens w.numGens = some { executor := .user executor } := by
        rw [hm.numGens]
        exact Function.update_self ..
      rw [hsame, hsame']
      exact .some {
        status := rfl
        outVal := rfl
        error := rfl
        executor := ⟨executor, rfl, fun _ => rfl⟩
        pending := fun _ => rfl
        running := by rintro ⟨⟩
        suspended := by rintro ⟨⟩ }
    · rw [hgens h hne, hgens' h hne]
      rcases rel_cases (hm.gens h) with ⟨hs, ht⟩ | ⟨d, d', hs, ht, hold⟩
      · rw [hs, ht]
        exact .none
      · rw [hs, ht]
        exact .some (hold.transfer (hfind h))

end Back

end Moves

/-! ### Steps -/

section Steps

variable [GeneratorError E] {w : World T IT E (GenRef × C)} {p : Place} {active : List GenRef}
  {g : GenRef} {data : GenData T E (GenRef × C)} {data' : Machine.Data T IT E C}
  {d : Machine.Config T IT E C} {prog : C → Machine.Action T IT E C}

/-- `yield` on the own context. -/
theorem SameMemory.yield_ {k' : Except (Exn E) IT → Control T E (GenRef × C)}
    {resume : Except (Exn E) IT → Machine.Code T E C}
    (hm : SameMemory w (.gen g) active d.world d.stack) (hget : w.gens g = some data)
    (hsame : Same w g data data') (value : T)
    (hk' : ∀ sent, k' sent = .code g (ownCode g (resume sent))) :
    Option.Rel Represents (d.after g (d.world.yield_ g data' value resume))
      ((w.yield_ (.gen g) g value k').map fun r => ⟨r.1, r.2⟩) := by
  obtain ⟨rest, rfl⟩ : ∃ rest, active = g :: rest := by
    cases hm.sound.chain with
    | cons g a gs q => exact ⟨gs, rfl⟩
  have hrunning := hm.sound.chain.running (List.mem_cons_self ..) hget
  have hrunning' : data'.status = .running := hsame.status.trans hrunning
  have hfits := hm.sound.fits g data hget
  simp only [Fits, hrunning] at hfits
  obtain ⟨caller, before, a, sent, k, hstack, hcaller, hfound, hresumes, hbefore, hg⟩ :=
    hm.waits hget
  have hback : d.world.yield_ g data' value resume =
      (d.world.set g
        { data' with outVal := some value, status := .suspended, genCtx := some resume },
        .returns (.ok (some value))) := by
    simp [Machine.World.yield_, GenData.yield_, hrunning', Machine.World.back, Machine.answer]
  have hyield : w.yield_ (.gen g) g value k' =
      some (w.moved (.gen g) (.yielding g k') g
        (w.saved (.gen g) { data with outVal := some value, status := .suspended }) a.place,
        k (.ok (some value))) := by
    simp only [World.yield_, hget, hrunning, if_true]
    rw [hm.sound.giveBack_suspended { data with outVal := some value, status := .suspended } hcaller
      hfound hfits.1 rfl]
  rw [hback, after_returns hstack, hyield]
  exact .some ⟨hresumes.goesOn _, .inr ⟨a.place, rest, hresumes.at _,
    hm.suspends hget hsame hcaller hfound hbefore hg hk'⟩⟩

omit [GeneratorError E] in
/-- An executor comes to its end. -/
theorem SameMemory.giveBack {ended : GenData T E (GenRef × C)} {ended' : Machine.Data T IT E C}
    (hm : SameMemory w (.gen g) active d.world d.stack) (hget : w.gens g = some data)
    (hsame : Same w g data data') (hstatus : ended.status = .done)
    (hcaller : ended.callerCtx = data.callerCtx)
    (hexecutor : ended.executor = data.executor) (hstatus' : ended'.status = .done)
    (hexecutor' : ended'.executor = data'.executor) (houtVal : ended'.outVal = ended.outVal)
    (herror : ended'.error = ended.error) :
    Option.Rel Represents (d.after g (d.world.back g ended'))
      ((some (w.giveBack (.gen g) g ended .ended)).map fun r => ⟨r.1, r.2⟩) := by
  obtain ⟨rest, rfl⟩ : ∃ rest, active = g :: rest := by
    cases hm.sound.chain with
    | cons g a gs q => exact ⟨gs, rfl⟩
  obtain ⟨caller, before, a, sent, k, hstack, hctx, hfound, hresumes, hbefore, hg⟩ := hm.waits hget
  have hanswer : Machine.answer ended' = ended.result := by
    cases hended : ended.error with
    | none => simp [Machine.answer, GenData.result, hstatus', herror, hended, houtVal]
    | some error => simp [Machine.answer, GenData.result, hstatus', herror, hended]
  rw [Machine.World.back, hanswer, after_returns hstack,
    hm.sound.giveBack_done (hcaller.trans hctx) hfound hstatus]
  exact .some ⟨hresumes.goesOn _, .inr ⟨a.place, rest, hresumes.at _,
    hm.finishes hget hsame hctx hfound hbefore hg
      { w.saved (.gen g) ended with genStack := false } hstatus rfl hexecutor hstatus' hexecutor'
      houtVal herror⟩⟩

/-- A generator calls another one. -/
theorem SameMemory.calls {k : Machine.Answer T E → Control T E (GenRef × C)}
    {k' : Machine.Answer T E → Machine.Code T E C}
    (hm : SameMemory w (.gen g) active d.world d.stack) (gen : GenRef)
    (call : Call IT E) (hk : ∀ answer, k answer = .code g (ownCode g (k' answer))) :
    Option.Rel Represents ((d.world.call gen call k').bind (d.after g))
      ((w.call (.gen g) gen call k).map fun r => ⟨r.1, r.2⟩) := by
  have hresumes : Resumes (.gen g) k (.gen g k') := ⟨rfl, hk⟩
  have hgoes (answer : Machine.Answer T E) : Represents
      { d with control := .code g (k' answer) } (⟨w, k answer⟩ : Config T IT E (GenRef × C)) :=
    ⟨hresumes.goesOn answer, .inr ⟨.gen g, active, hresumes.at answer, hm⟩⟩
  have hcalls := hm.call hresumes gen call
  simp only [CallsAs] at hcalls
  rw [Machine.World.call]
  cases hgen : d.world.gens gen with
  | none =>
      simp only [hgen] at hcalls ⊢
      rw [hcalls]
      exact .none
  | some called =>
      simp only [hgen] at hcalls ⊢
      cases hsend : call.send called with
      | switched sent =>
          simp only [hsend] at hcalls ⊢
          obtain ⟨entered, code, world, active', hentered, hcall, hmemory⟩ := hcalls
          rw [hentered, hcall]
          exact .some ⟨.code gen code, .inr ⟨.gen gen, active', rfl, hmemory⟩⟩
      | returned outVal =>
          simp only [hsend] at hcalls ⊢
          rw [hcalls]
          exact .some (hgoes (.ok outVal))
      | threw error =>
          simp only [hsend] at hcalls ⊢
          rw [hcalls]
          exact .some (hgoes (.error error))

/-- The main program calls a generator. -/
theorem SameMemory.mainCall (hm : SameMemory w .main active d.world d.stack) (gen : GenRef)
    (call : Call IT E) :
    Option.Rel Represents (d.mainCall gen call)
      ((w.call .main gen call fun answer => .main (some answer)).map fun r => ⟨r.1, r.2⟩) := by
  have hresumes : Resumes (C := C) .main
      (fun answer : Machine.Answer T E => .main (some answer)) .main := ⟨rfl, fun _ => rfl⟩
  have hgoes (answer : Machine.Answer T E) : Represents { d with control := .main (some answer) }
      (⟨w, .main (some answer)⟩ : Config T IT E (GenRef × C)) :=
    ⟨.main _, .inr ⟨.main, active, rfl, hm⟩⟩
  have hcalls := hm.call hresumes gen call
  simp only [CallsAs] at hcalls
  rw [Machine.Config.mainCall]
  cases hgen : d.world.gens gen with
  | none =>
      simp only [hgen] at hcalls ⊢
      rw [hcalls]
      exact .none
  | some called =>
      simp only [hgen] at hcalls ⊢
      cases hsend : call.send called with
      | switched sent =>
          simp only [hsend] at hcalls ⊢
          obtain ⟨entered, code, world, active', hentered, hcall, hmemory⟩ := hcalls
          rw [hentered, hcall]
          exact .some ⟨.code gen code, .inr ⟨.gen gen, active', rfl, hmemory⟩⟩
      | returned outVal =>
          simp only [hsend] at hcalls ⊢
          rw [hcalls]
          exact .some (hgoes (.ok outVal))
      | threw error =>
          simp only [hsend] at hcalls ⊢
          rw [hcalls]
          exact .some (hgoes (.error error))

omit [GeneratorError E] in
/-- `in_val` points to the value that the machine keeps. -/
theorem SameMemory.inVal (hm : SameMemory w p active d.world d.stack) (hg : g ∈ active)
    (hget : w.gens g = some data) (hsame : Same w g data data') :
    ∃ a, data.inVal = data'.inVal.map (fun _ => a) ∧
      ∀ value, data'.inVal = some value → w.deref a = some value := by
  have hrunning := hm.sound.chain.running hg hget
  obtain ⟨-, a, value, k, hcaller, hsent, hfound, -⟩ := hm.sound.caller_of_active hg hget
  obtain ⟨a', value', k', hcaller', hfound', hsent'⟩ := hsame.running hrunning
  obtain rfl := Option.some.inj (hcaller.symm.trans hcaller')
  obtain ⟨-, rfl, -⟩ := Frame.calling.inj (Option.some.inj (hfound.symm.trans hfound'))
  refine ⟨a, hsent' ▸ hsent, fun v hv => ?_⟩
  simp only [World.deref, hfound]
  exact hsent'.symm.trans hv

/-- The code of a generator does one thing. -/
theorem SameMemory.exec (hm : SameMemory w (.gen g) active d.world d.stack)
    (code : Machine.Code T E C) :
    Option.Rel Represents ((d.world.exec prog g code).bind (d.after g))
      ((w.exec (own prog) g (ownCode g code)).map fun r => ⟨r.1, r.2⟩) := by
  obtain ⟨data, hget⟩ : ∃ data, w.gens g = some data := by
    cases hm.sound.chain with
    | cons g a gs q data value k get => exact ⟨data, get⟩
  obtain ⟨data', hget', hsame⟩ : ∃ data', d.world.gens g = some data' ∧ Same w g data data' := by
    rcases rel_cases (hm.gens g) with ⟨hs, -⟩ | ⟨old, data', hs, ht, hsame⟩
    · simp [hget] at hs
    · obtain rfl := Option.some.inj (hget.symm.trans hs)
      exact ⟨data', ht, hsame⟩
  have hgoes (code : Machine.Code T E C) : Represents
      { d with control := .code g code }
      (⟨w, .code g (ownCode g code)⟩ : Config T IT E (GenRef × C)) :=
    ⟨.code g code, .inr ⟨.gen g, active, rfl, hm⟩⟩
  cases code with
  | user state =>
      simp only [Machine.World.exec, hget', ownCode, World.exec, hget, own]
      cases haction : prog state with
      | ret result =>
          exact hm.giveBack hget hsame rfl rfl rfl rfl rfl rfl hsame.error
      | raise error =>
          exact hm.giveBack hget hsame rfl rfl rfl rfl rfl hsame.outVal rfl
      | yield value k => exact hm.yield_ hget hsame value fun _ => rfl
      | yieldFrom gen k => exact .some (hgoes (.yieldFrom gen k))
      | call gen call k => exact hm.calls gen call fun _ => rfl
      | status gen k =>
          rcases rel_cases (hm.gens gen) with ⟨hs, ht⟩ | ⟨called, called', hs, ht, hcalled⟩
          · simp only [hs, ht]
            exact .none
          · simp only [hs, ht, Option.map_some, Option.bind_some, ← hcalled.status]
            exact .some (hgoes (.user (k called'.status)))
      | create executor k =>
          have hcreated := hm.create executor
          simp only [hm.numGens]
          exact .some ⟨.code g (.user (k d.world.numGens)), .inr ⟨.gen g, active, rfl, hcreated⟩⟩
  | yieldFrom gen k =>
      simp only [Machine.World.exec, hget', ownCode, World.exec, hget]
      rcases rel_cases (hm.gens gen) with ⟨hs, ht⟩ | ⟨inner, inner', hs, ht, hinner⟩
      · simp only [hs, ht]
        exact .none
      · simp only [hs, ht, hinner.status]
        by_cases hdone : inner.status = .done
        · simp only [hdone, if_true]
          exact .some (hgoes (.user (k (.ok ()))))
        · simp only [hdone, if_false]
          have hmem : g ∈ active := by
            cases hm.sound.chain with
            | cons => exact List.mem_cons_self ..
          obtain ⟨a, hsent, hderef⟩ := hm.inVal hmem hget hsame
          cases hval : data'.inVal with
          | none =>
              simp only [hsent, hval, Option.map_none]
              exact .some ⟨.crashed, .inl rfl⟩
          | some value =>
              simp only [hsent, hval, Option.map_some, hderef value hval]
              refine hm.calls gen (.next value) fun answer => ?_
              cases answer with
              | ok | error => rfl
  | forward value gen k =>
      simp only [Machine.World.exec, hget', ownCode, World.exec, hget]
      cases value with
      | none => exact .none
      | some value =>
          refine hm.yield_ hget hsame value fun sent => ?_
          cases sent with
          | ok | error => rfl

end Steps

/-- Executors that yield only through their own contexts. Whatever they and the main program do, the
switches go where the machine with a stack of callers goes: the same code gets control with the
same values and errors, `in_val` points to the value that was sent, and no step is undefined in one
of the two only. -/
theorem contexts_refine_callers [GeneratorError E] (prog : C → Machine.Action T IT E C)
    (ls : List (Machine.Label IT E C)) :
    Option.Rel Represents (run (Machine.step prog) {} ls)
      (run (step (own prog)) {} (ls.map ownLabel)) := by
  refine run_rel ?_ ?_ ls
  · rintro d ⟨w, control⟩ l ⟨hcontrol, hmemory⟩
    obtain ⟨world, control', stack, resumed⟩ := d
    cases hcontrol with
    | crashed =>
        cases l with
        | call | create | tau => exact .none
    | main answer =>
        obtain ⟨p, active, rfl, hm⟩ := hmemory.resolve_left (by rintro ⟨⟩)
        cases l with
        | call gen call => exact hm.mainCall gen call
        | create executor => exact .some ⟨.main none, .inr ⟨.main, active, rfl, hm.create executor⟩⟩
        | tau => exact .none
    | code g code =>
        obtain ⟨p, active, rfl, hm⟩ := hmemory.resolve_left (by rintro ⟨⟩)
        cases l with
        | tau => exact hm.exec code
        | call | create => exact .none
  · refine ⟨.main none, .inr ⟨.main, [], rfl, .initial, .nil, fun _ => .none, rfl⟩⟩

end Libasync.Generator.Contexts
