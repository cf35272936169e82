import Libasync.Foundation.Run
import Libasync.Generator.Contexts

/-! # Chains of generators

From the stack that has control the `caller_ctx` pointers lead to the main program, and from where a
generator is suspended they lead to its own stack. As long as executors yield only through the
contexts of generators in their chain, no switch goes to a context that is gone. -/

namespace Libasync.Generator.Contexts

open Promise Automaton
open Machine (GenRef Call)

variable {T IT E X : Type*}

/-! ### Memory -/

namespace World

variable {w : World T IT E X} {p q : Place} {a : Address} {f frame : Frame T IT E X}
  {g : GenRef} {data data' : GenData T E X}

theorem find_eq_some : w.find a = some f ↔
    w.allocated a.place = true ∧ (w.stackAt a.place).serial = a.serial ∧
      (w.stackAt a.place).top = some f := by
  simp [find, and_assoc]

@[simp] theorem leave_gens (w : World T IT E X) (p : Place) (frame : Frame T IT E X) :
    (w.leave p frame).gens = w.gens := rfl

@[simp] theorem enter_gens (w : World T IT E X) (p : Place) : (w.enter p).gens = w.gens := rfl

@[simp] theorem setGen_stackAt (w : World T IT E X) (g : GenRef) (data : GenData T E X) :
    (w.setGen g data).stackAt = w.stackAt := rfl

@[simp] theorem setGen_gens_same (w : World T IT E X) (g : GenRef) (data : GenData T E X) :
    (w.setGen g data).gens g = some data := Function.update_self ..

theorem setGen_gens_ne (w : World T IT E X) {g h : GenRef} (data : GenData T E X) (hne : h ≠ g) :
    (w.setGen g data).gens h = w.gens h := Function.update_of_ne hne ..

@[simp] theorem leave_allocated (w : World T IT E X) (p q : Place) (frame : Frame T IT E X) :
    (w.leave p frame).allocated q = w.allocated q := rfl

@[simp] theorem enter_allocated (w : World T IT E X) (p q : Place) :
    (w.enter p).allocated q = w.allocated q := rfl

theorem leave_top (w : World T IT E X) (p : Place) (frame : Frame T IT E X) :
    ((w.leave p frame).stackAt p).top = some frame := by
  simp [leave, setStack]

theorem leave_stackAt_ne (w : World T IT E X) (frame : Frame T IT E X) (hne : q ≠ p) :
    (w.leave p frame).stackAt q = w.stackAt q := Function.update_of_ne hne ..

theorem enter_top (w : World T IT E X) (p : Place) : ((w.enter p).stackAt p).top = none := by
  simp [enter, setStack]

theorem enter_stackAt_ne (w : World T IT E X) (hne : q ≠ p) :
    (w.enter p).stackAt q = w.stackAt q := Function.update_of_ne hne ..

/-- No call is found on a stack that has control. -/
theorem place_ne_of_find (hawake : (w.stackAt p).top = none) (h : w.find a = some f) :
    a.place ≠ p := by
  rintro rfl
  simp [find_eq_some, hawake] at h

theorem find_leave (w : World T IT E X) (frame : Frame T IT E X)
    (hawake : (w.stackAt p).top = none) (h : w.find a = some f) :
    (w.leave p frame).find a = some f := by
  obtain ⟨halloc, hserial, htop⟩ := find_eq_some.mp h
  have hne : a.place ≠ p := place_ne_of_find hawake h
  rw [find_eq_some, leave_allocated, leave_stackAt_ne w frame hne]
  exact ⟨halloc, hserial, htop⟩

theorem find_leave_here (w : World T IT E X) (frame : Frame T IT E X)
    (husable : w.allocated p = true) : (w.leave p frame).find (w.here p) = some frame := by
  rw [find_eq_some]
  exact ⟨husable, by simp [leave, setStack, here], w.leave_top p frame⟩

theorem find_enter (w : World T IT E X) (hne : a.place ≠ q) (h : w.find a = some f) :
    (w.enter q).find a = some f := by
  rw [find_eq_some, enter_allocated, w.enter_stackAt_ne hne]
  exact find_eq_some.mp h

theorem setGen_allocated_of (w : World T IT E X) (data' : GenData T E X)
    (hkeeps : ∀ data, w.gens g = some data → data.genStack = true → data'.genStack = true)
    (h : w.allocated q = true) : (w.setGen g data').allocated q = true := by
  cases q with
  | main => rfl
  | gen k =>
      by_cases hk : k = g
      · subst hk
        cases hget : w.gens k with
        | none => simp [allocated, hget] at h
        | some data =>
            have hstack : data.genStack = true := by simpa [allocated, hget] using h
            simpa [allocated] using hkeeps data hget hstack
      · simpa [allocated, w.setGen_gens_ne data' hk] using h

theorem find_setGen (w : World T IT E X) (data' : GenData T E X)
    (hkeeps : ∀ data, w.gens g = some data → data.genStack = true → data'.genStack = true)
    (h : w.find a = some f) : (w.setGen g data').find a = some f := by
  obtain ⟨halloc, hserial, htop⟩ := find_eq_some.mp h
  exact find_eq_some.mpr ⟨w.setGen_allocated_of data' hkeeps halloc, hserial, htop⟩

theorem setGen_allocated_ne (w : World T IT E X) (data' : GenData T E X) (hne : q ≠ .gen g) :
    (w.setGen g data').allocated q = w.allocated q := by
  cases q with
  | main => rfl
  | gen k =>
      have hk : k ≠ g := by
        rintro rfl
        exact hne rfl
      simp [allocated, w.setGen_gens_ne data' hk]

/-- Freeing a stack does not concern the calls on other stacks. -/
theorem find_setGen_ne (w : World T IT E X) (data' : GenData T E X) (hne : a.place ≠ .gen g)
    (h : w.find a = some f) : (w.setGen g data').find a = some f := by
  obtain ⟨halloc, hserial, htop⟩ := find_eq_some.mp h
  exact find_eq_some.mpr ⟨(w.setGen_allocated_ne data' hne).trans halloc, hserial, htop⟩

/-- The call at the top of the stack is the one that is found. -/
theorem top_of_find (h : w.find a = some f) :
    ∀ f', (w.stackAt a.place).top = some f' → f' = f :=
  fun _ htop => Option.some.inj (htop.symm.trans (find_eq_some.mp h).2.2)

/-! ### Calls that go on -/

theorem goOn_yielding_value {k : Except (Exn E) IT → Control T E X} {value : IT}
    (hget : w.gens g = some data) (hsent : data.inVal = some a) (hderef : w.deref a = some value) :
    w.goOn (.yielding g k) = (w, k (.ok value)) := by
  simp [goOn, hget, hsent, hderef]

theorem goOn_yielding_error {k : Except (Exn E) IT → Control T E X} {error : Exn E}
    (hget : w.gens g = some data) (hsent : data.inVal = none) (herror : data.error = some error) :
    w.goOn (.yielding g k) = (w.setGen g { data with error := none }, k (.error error)) := by
  simp [goOn, hget, hsent, herror]

theorem goOn_calling (value : Option IT) (k : Machine.Answer T E → Control T E X)
    (hget : w.gens g = some data) (hstatus : data.status ≠ .done) :
    w.goOn (.calling g value k) = (w, k (.ok data.outVal)) := by
  simp [goOn, hget, hstatus]

theorem goOn_calling_done {k : Machine.Answer T E → Control T E X} {value : Option IT}
    (hget : w.gens g = some data) (hstatus : data.status = .done) :
    w.goOn (.calling g value k) = (w.setGen g { data with genStack := false }, k data.result) := by
  simp only [goOn, hget, hstatus, if_true]

end World

/-! ### Chains -/

/-- What the chains depend on. -/
def GenData.links (data : GenData T E X) :
    GenStatus × Option Context × Option Address × Option Address :=
  (data.status, data.genCtx, data.callerCtx, data.inVal)

/-- From the first stack the `caller_ctx` pointers lead through these generators to the last one.
`in_val` points to the parameter of the call that has resumed the generator, or it is null. -/
inductive Linked (w : World T IT E X) : Place → List GenRef → Place → Prop where
  | nil (p) : Linked w p [] p
  | cons (g a gs q data value k) (get : w.gens g = some data) (running : data.status = .running)
      (caller : data.callerCtx = some a) (frame : w.find a = some (.calling g value k))
      (sent : data.inVal = value.map fun _ => a) (rest : Linked w a.place gs q) :
      Linked w (.gen g) (g :: gs) q

/-- This generator is suspended inside of these. -/
def Captures (w : World T IT E X) (g : GenRef) (gs : List GenRef) : Prop :=
  ∃ data a k, w.gens g = some data ∧ data.status = .suspended ∧
    data.genCtx = some (.saved a) ∧ w.find a = some (.yielding g k) ∧ Linked w a.place gs (.gen g)

/-- A chain does not go on from this stack. -/
def Ends (w : World T IT E X) (q : Place) : Prop :=
  ∀ g data, q = .gen g → w.gens g = some data → data.status ≠ .running

section Chains

variable {w w' : World T IT E X} {p q q' x : Place} {g h : GenRef} {gs gs' : List GenRef}

theorem Linked.append (hl : Linked w p gs q) (hr : Linked w q gs' x) :
    Linked w p (gs ++ gs') x := by
  induction hl with
  | nil => exact hr
  | cons g a gs q data value k get running caller frame sent rest ih =>
      exact .cons g a _ _ data value k get running caller frame sent (ih hr)

theorem Linked.split (hl : Linked w p gs q) (hg : g ∈ gs) :
    ∃ before after, gs = before ++ g :: after ∧ Linked w p before (.gen g) ∧
      Linked w (.gen g) (g :: after) q := by
  induction hl with
  | nil => cases hg
  | cons g' a gs q data value k get running caller frame sent rest ih =>
      rcases List.mem_cons.mp hg with rfl | hg
      · exact ⟨[], gs, rfl, .nil _,
          .cons g a gs q data value k get running caller frame sent rest⟩
      · obtain ⟨before, after, rfl, hbefore, hafter⟩ := ih hg
        exact ⟨g' :: before, after, rfl,
          .cons g' a _ _ data value k get running caller frame sent hbefore, hafter⟩

/-- There is only one way. -/
theorem Linked.unique (hl : Linked w p gs q) (hl' : Linked w p gs' q') (hq : Ends w q)
    (hq' : Ends w q') : gs = gs' ∧ q = q' := by
  induction hl generalizing gs' with
  | nil p =>
      cases hl' with
      | nil => exact ⟨rfl, rfl⟩
      | cons g a gs q data value k get running => exact absurd running (hq g data rfl get)
  | cons g a gs q data value k get running caller frame sent rest ih =>
      cases hl' with
      | nil => exact absurd running (hq' g data rfl get)
      | cons g a' gs' q' data' value' k' get' running' caller' frame' sent' rest' =>
          obtain rfl := Option.some.inj (get.symm.trans get')
          obtain rfl := Option.some.inj (caller.symm.trans caller')
          obtain ⟨rfl, rfl⟩ := ih rest' hq
          exact ⟨rfl, rfl⟩

theorem Linked.nodup (hl : Linked w p gs q) (hq : Ends w q) : gs.Nodup := by
  induction hl with
  | nil => exact List.nodup_nil
  | cons g a gs q data value k get running caller frame sent rest ih =>
      refine List.nodup_cons.mpr ⟨fun hmem => ?_, ih hq⟩
      obtain ⟨before, after, rfl, -, hafter⟩ := rest.split hmem
      have hlink := Linked.cons g a _ q data value k get running caller frame sent rest
      obtain ⟨heq, -⟩ := hafter.unique hlink hq hq
      have hlength := congrArg List.length heq
      simp at hlength
      omega

/-- No generator is in two chains. -/
theorem Linked.same_end (hl : Linked w p gs q) (hl' : Linked w x gs' q') (hq : Ends w q)
    (hq' : Ends w q') (hg : g ∈ gs) (hg' : g ∈ gs') : q = q' := by
  obtain ⟨-, after, -, -, hafter⟩ := hl.split hg
  obtain ⟨-, after', -, -, hafter'⟩ := hl'.split hg'
  exact (hafter.unique hafter' hq hq').2

theorem Ends.main (w : World T IT E X) : Ends w .main := fun g data hq => by cases hq

theorem Captures.ends (hc : Captures w g gs) : Ends w (.gen g) := by
  obtain ⟨data, a, k, hget, hstatus, -⟩ := hc
  rintro h data' heq hget'
  obtain rfl := Place.gen.inj heq
  obtain rfl := Option.some.inj (hget.symm.trans hget')
  simp [hstatus]

theorem Captures.unique (hc : Captures w g gs) (hc' : Captures w g gs') : gs' = gs := by
  obtain ⟨data, a, k, hget, -, hctx, -, hl⟩ := id hc
  obtain ⟨data', a', k', hget', -, hctx', -, hl'⟩ := hc'
  obtain rfl := Option.some.inj (hget.symm.trans hget')
  obtain rfl := Context.saved.inj (Option.some.inj (hctx.symm.trans hctx'))
  exact (hl'.unique hl hc.ends hc.ends).1

/-- The chain does not depend on other generators and calls. -/
theorem Linked.transfer (hl : Linked w p gs q)
    (hlinks : ∀ g ∈ gs, ∀ data, w.gens g = some data →
      ∃ data', w'.gens g = some data' ∧ data'.links = data.links)
    (hfind : ∀ g ∈ gs, ∀ a value k, w.find a = some (.calling g value k) →
      w'.find a = some (.calling g value k)) : Linked w' p gs q := by
  induction hl with
  | nil p => exact .nil p
  | cons g a gs q data value k get running caller frame sent rest ih =>
      obtain ⟨data', hget', heq⟩ := hlinks g (List.mem_cons_self ..) data get
      simp only [GenData.links, Prod.mk.injEq] at heq
      obtain ⟨hstatus, -, hcaller, hsent⟩ := heq
      refine .cons g a gs q data' value k hget' (hstatus.trans running) (hcaller.trans caller)
        (hfind g (List.mem_cons_self ..) a value k frame) (hsent.trans sent) (ih ?_ ?_)
      · exact fun h hh => hlinks h (List.mem_cons_of_mem _ hh)
      · exact fun h hh => hfind h (List.mem_cons_of_mem _ hh)

theorem Captures.transfer (hc : Captures w g gs)
    (hlinks : ∀ h ∈ g :: gs, ∀ data, w.gens h = some data →
      ∃ data', w'.gens h = some data' ∧ data'.links = data.links)
    (hyield : ∀ a k, w.find a = some (.yielding g k) → w'.find a = some (.yielding g k))
    (hfind : ∀ h ∈ gs, ∀ a value k, w.find a = some (.calling h value k) →
      w'.find a = some (.calling h value k)) : Captures w' g gs := by
  obtain ⟨data, a, k, hget, hstatus, hctx, hframe, hlinked⟩ := hc
  obtain ⟨data', hget', heq⟩ := hlinks g (List.mem_cons_self ..) data hget
  simp only [GenData.links, Prod.mk.injEq] at heq
  obtain ⟨hstatus', hctx', -, -⟩ := heq
  refine ⟨data', a, k, hget', hstatus'.trans hstatus, hctx'.trans hctx, hyield a k hframe, ?_⟩
  exact hlinked.transfer (fun h hh => hlinks h (List.mem_cons_of_mem _ hh)) hfind

/-- The generators that the `caller_ctx` pointers lead through. -/
def World.chain (w : World T IT E X) : ℕ → Place → List GenRef
  | 0, _ | _, .main => []
  | n + 1, .gen g =>
      g :: match (w.gens g).bind GenData.callerCtx with
        | none => []
        | some a => w.chain n a.place

theorem Linked.mem_of_chain (hl : Linked w p gs .main) {n : ℕ} (hg : g ∈ w.chain n p) : g ∈ gs := by
  generalize hq : Place.main = q at hl
  induction hl generalizing n with
  | nil p =>
      subst hq
      cases n <;> simp [World.chain] at hg
  | cons g' a gs q data value k get running caller frame sent rest ih =>
      cases n with
      | zero => simp [World.chain] at hg
      | succ n =>
          simp only [World.chain, get, Option.bind_some, caller, List.mem_cons] at hg
          rcases hg with rfl | hg
          · exact List.mem_cons_self ..
          · exact List.mem_cons_of_mem _ (ih hg hq)

end Chains

/-! ### What holds between two switches -/

/-- User code of this stack has control. -/
def Control.At (p : Place) : Control T E X → Prop
  | .main _ => p = .main
  | .code g _ => p = .gen g
  | .crashed | .undefined => False

/-- What goes on in this call is code of this stack. -/
def Frame.At (p : Place) : Frame T IT E X → Prop
  | .calling _ _ k => ∀ answer, (k answer).At p
  | .yielding _ k => ∀ sent, (k sent).At p
  | .ended => True

/-- The generator that the call is about. -/
def Frame.gen? : Frame T IT E X → Option GenRef
  | .calling g _ _ | .yielding g _ => some g
  | .ended => none

/-- What the status of a generator says. -/
def Fits (w : World T IT E X) (active : List GenRef) (g : GenRef) (data : GenData T E X) : Prop :=
  match data.status with
  | .pending => data.genStack = false ∧ (w.stackAt (.gen g)).top = none
  | .running =>
      data.genStack = true ∧ (g ∈ active ∨ ∃ h gs, Captures w h gs ∧ g ∈ gs)
  | .suspended => data.genStack = true ∧ ∃ gs, Captures w g gs
  | .done => data.genStack = false

/-- User code has control on the stack `p`, inside of the generators `active`. -/
structure Sound (w : World T IT E X) (p : Place) (active : List GenRef) : Prop where
  awake : (w.stackAt p).top = none
  usable : w.allocated p = true
  chain : Linked w p active .main
  made : ∀ g, (w.gens g).isSome ↔ g < w.numGens
  unmade : ∀ g, w.gens g = none → (w.stackAt (.gen g)).top = none
  fits : ∀ g data, w.gens g = some data → Fits w active g data
  frames : ∀ q f, (w.stackAt q).top = some f → f.At q

/-- Control leaves the stack `p` in this call and comes back to the stack `q`. -/
def World.moved (w : World T IT E X) (p : Place) (frame : Frame T IT E X) (g : GenRef)
    (data : GenData T E X) (q : Place) : World T IT E X :=
  ((w.leave p frame).setGen g data).enter q

section Moves

variable {w : World T IT E X} {p q : Place} {active gs : List GenRef} {g h : GenRef}
  {data data' : GenData T E X} {frame f : Frame T IT E X} {a : Address}

/-- The stack of the generator is not freed, unless it is the one that control leaves. -/
def Keeps (w : World T IT E X) (p : Place) (g : GenRef) (data' : GenData T E X) : Prop :=
  p = .gen g ∨ ∀ data, w.gens g = some data → data.genStack = true → data'.genStack = true

/-- Other calls are found where they were. -/
theorem World.find_moved (hawake : (w.stackAt p).top = none)
    (hkeeps : Keeps w p g data')
    (hq : ∀ f, (w.stackAt q).top = some f → f.gen? = some g) (hf : f.gen? ≠ some g)
    (h : w.find a = some f) : (w.moved p frame g data' q).find a = some f := by
  have hne : a.place ≠ q := by
    rintro rfl
    exact hf (hq f (World.find_eq_some.mp h).2.2)
  refine World.find_enter _ hne ?_
  have hleft := w.find_leave frame hawake h
  rcases hkeeps with rfl | hkeeps
  · exact World.find_setGen_ne _ data' (World.place_ne_of_find hawake h) hleft
  · exact World.find_setGen _ data' hkeeps hleft

theorem World.moved_stackAt_top {x : Place}
    (htop : ((w.moved p frame g data' q).stackAt x).top = some f) :
    x ≠ q ∧ (x = p ∧ f = frame ∨ x ≠ p ∧ (w.stackAt x).top = some f) := by
  have hq : x ≠ q := by
    rintro rfl
    simp [World.moved, World.enter_top] at htop
  refine ⟨hq, ?_⟩
  rw [World.moved, World.enter_stackAt_ne _ hq, World.setGen_stackAt] at htop
  by_cases hp : x = p
  · subst hp
    rw [World.leave_top] at htop
    exact .inl ⟨rfl, (Option.some.inj htop).symm⟩
  · rw [World.leave_stackAt_ne _ _ hp] at htop
    exact .inr ⟨hp, htop⟩

theorem World.moved_gens_ne (hne : h ≠ g) : (w.moved p frame g data' q).gens h = w.gens h :=
  (w.leave p frame).setGen_gens_ne data' hne

@[simp] theorem World.moved_gens_same (w : World T IT E X) (p : Place) (frame : Frame T IT E X)
    (g : GenRef) (data' : GenData T E X) (q : Place) :
    (w.moved p frame g data' q).gens g = some data' :=
  (w.leave p frame).setGen_gens_same g data'

theorem Linked.running (hl : Linked w p gs q) (hg : g ∈ gs) (hget : w.gens g = some data) :
    data.status = .running := by
  obtain ⟨-, after, -, -, hafter⟩ := hl.split hg
  cases hafter with
  | cons g a gs q data' value k get running =>
      obtain rfl := Option.some.inj (hget.symm.trans get)
      exact running

/-- A chain stays when control comes to a call about a generator outside of it. -/
theorem Linked.moved {x y : Place} (hl : Linked w x gs y) (frame : Frame T IT E X)
    (hawake : (w.stackAt p).top = none)
    (hkeeps : Keeps w p g data')
    (hq : ∀ f, (w.stackAt q).top = some f → f.gen? = some g) (hg : g ∉ gs) :
    Linked (w.moved p frame g data' q) x gs y := by
  have hne {h : GenRef} (hh : h ∈ gs) : h ≠ g := by
    rintro rfl
    exact hg hh
  refine hl.transfer (fun h hh d hd => ⟨d, (World.moved_gens_ne (hne hh)).trans hd, rfl⟩) ?_
  intro h hh a value k hfind
  exact World.find_moved hawake hkeeps hq (fun heq => hne hh (Option.some.inj heq)) hfind

theorem Captures.moved {gs : List GenRef} (hc : Captures w h gs)
    (hawake : (w.stackAt p).top = none)
    (hkeeps : Keeps w p g data')
    (hq : ∀ f, (w.stackAt q).top = some f → f.gen? = some g) (hg : g ∉ h :: gs) :
    Captures (w.moved p frame g data' q) h gs := by
  have hne {k : GenRef} (hk : k ∈ h :: gs) : k ≠ g := by
    rintro rfl
    exact hg hk
  refine hc.transfer (fun k hk d hd => ⟨d, (World.moved_gens_ne (hne hk)).trans hd, rfl⟩) ?_ ?_
  · intro a k hfind
    refine World.find_moved hawake hkeeps hq (fun heq => ?_) hfind
    exact hne (List.mem_cons_self ..) (Option.some.inj heq)
  · intro k hk a value c hfind
    refine World.find_moved hawake hkeeps hq (fun heq => ?_) hfind
    exact hne (List.mem_cons_of_mem _ hk) (Option.some.inj heq)

/-- Control has not come to the stack of a generator that has none. -/
theorem Sound.stack_ne (hs : Sound w p active)
    (hnone : ∀ data, w.gens h = some data → data.genStack = false) : p ≠ .gen h := by
  rintro rfl
  have husable := hs.usable
  simp only [World.allocated, Option.any_eq_true_iff_get] at husable
  obtain ⟨hsome, hstack⟩ := husable
  have := hnone _ (Option.some_get hsome).symm
  simp [this] at hstack

/-- The switch leaves the stack of a generator alone that has none. -/
theorem Sound.moved_top (hs : Sound w p active) (htop : (w.stackAt (.gen h)).top = none)
    (hnone : ∀ data, w.gens h = some data → data.genStack = false) :
    ((w.moved p frame g data' q).stackAt (.gen h)).top = none := by
  cases hnew : ((w.moved p frame g data' q).stackAt (.gen h)).top with
  | none => rfl
  | some f =>
      obtain ⟨-, ⟨heq, -⟩ | ⟨-, hold⟩⟩ := World.moved_stackAt_top hnew
      · exact absurd heq.symm (hs.stack_ne hnone)
      · simp [htop] at hold

/-- What holds after a switch. -/
theorem Sound.moved {active' : List GenRef} (hs : Sound w p active) (hget : w.gens g = some data)
    (hkeeps : Keeps w p g data') (hq : ∀ f, (w.stackAt q).top = some f → f.gen? = some g)
    (husable : (w.moved p frame g data' q).allocated q = true) (hframe : frame.At p)
    (hchain : Linked (w.moved p frame g data' q) q active' .main)
    (hfree : ∀ h hs, Captures w h hs → h ≠ g → g ∉ hs)
    (hfits : Fits (w.moved p frame g data' q) active' g data')
    (hmoves : ∀ h, h ≠ g → (h ∈ active ∨ ∃ gs, Captures w g gs ∧ h ∈ gs) →
      h ∈ active' ∨ ∃ k ks, Captures (w.moved p frame g data' q) k ks ∧ h ∈ ks) :
    Sound (w.moved p frame g data' q) q active' where
  awake := World.enter_top _ q
  usable := husable
  chain := hchain
  made h := by
    by_cases hne : h = g
    · subst hne
      have hmade := hs.made h
      simp only [hget, Option.isSome_some, true_iff] at hmade
      rw [World.moved_gens_same]
      exact iff_of_true rfl hmade
    · rw [World.moved_gens_ne hne]
      exact hs.made h
  unmade h hnone := by
    have hne : h ≠ g := by
      rintro rfl
      simp at hnone
    rw [World.moved_gens_ne hne] at hnone
    exact hs.moved_top (hs.unmade h hnone) (by simp [hnone])
  fits h d hd := by
    by_cases hne : h = g
    · subst hne
      obtain rfl := Option.some.inj ((w.moved_gens_same ..).symm.trans hd)
      exact hfits
    · rw [World.moved_gens_ne hne] at hd
      have hold := hs.fits h d hd
      have hcaptures {k : GenRef} {ks : List GenRef} (hc : Captures w k ks) (hk : k ≠ g) :
          Captures (w.moved p frame g data' q) k ks :=
        hc.moved hs.awake hkeeps hq (by simp [Ne.symm hk, hfree k ks hc hk])
      cases hstatus : d.status with
      | pending =>
          simp only [Fits, hstatus] at hold ⊢
          refine ⟨hold.1, hs.moved_top hold.2 fun data hdata => ?_⟩
          obtain rfl := Option.some.inj (hd.symm.trans hdata)
          exact hold.1
      | running =>
          simp only [Fits, hstatus] at hold ⊢
          obtain ⟨hstack, hactive | ⟨k, ks, hc, hmem⟩⟩ := hold
          · exact ⟨hstack, hmoves h hne (.inl hactive)⟩
          · by_cases hk : k = g
            · subst hk
              exact ⟨hstack, hmoves h hne (.inr ⟨ks, hc, hmem⟩)⟩
            · exact ⟨hstack, .inr ⟨k, ks, hcaptures hc hk, hmem⟩⟩
      | suspended =>
          simp only [Fits, hstatus] at hold ⊢
          obtain ⟨hstack, ks, hc⟩ := hold
          exact ⟨hstack, ks, hcaptures hc hne⟩
      | done =>
          simp only [Fits, hstatus] at hold ⊢
          exact hold
  frames x f htop := by
    obtain ⟨-, ⟨rfl, rfl⟩ | ⟨-, htop⟩⟩ := World.moved_stackAt_top htop
    · exact hframe
    · exact hs.frames x f htop

/-- The call that control has left is found. -/
theorem World.find_moved_here (frame : Frame T IT E X) (data' : GenData T E X)
    (husable : w.allocated p = true)
    (hkeeps : ∀ data, w.gens g = some data → data.genStack = true → data'.genStack = true)
    (hpq : q ≠ p) : (w.moved p frame g data' q).find (w.here p) = some frame :=
  World.find_enter _ (Ne.symm hpq)
    (World.find_setGen _ data' hkeeps (w.find_leave_here frame husable))

/-- A generator is resumed from the stack `p`. -/
theorem Sound.resumes {value : Option IT} {k : Machine.Answer T E → Control T E X}
    (hs : Sound w p active) (data' : GenData T E X)
    (hget : w.gens g = some data) (hidle : data.status ≠ .running)
    (hq : ∀ f, (w.stackAt q).top = some f → f.gen? = some g) (hpq : q ≠ p)
    (husable : (w.moved p (.calling g value k) g data' q).allocated q = true)
    (hlinked : Linked w q gs (.gen g)) (honly : ∀ ks, Captures w g ks → ks = gs)
    (hstatus : data'.status = .running) (hstack : data'.genStack = true)
    (hcaller : data'.callerCtx = some (w.here p))
    (hsent : data'.inVal = value.map fun _ => w.here p) (hframe : ∀ answer, (k answer).At p) :
    Sound (w.moved p (.calling g value k) g data' q) q (gs ++ g :: active) := by
  have hout {x y : Place} {ks : List GenRef} (hl : Linked w x ks y) : g ∉ ks :=
    fun hg => hidle (hl.running hg hget)
  have hkeeps : Keeps w p g data' := .inr fun _ _ _ => hstack
  have hfound := World.find_moved_here (.calling g value k) data' hs.usable
    (fun _ (_ : w.gens g = some _) _ => hstack) hpq
  have hbefore := hlinked.moved (.calling g value k) hs.awake hkeeps hq (hout hlinked)
  have hafter := hs.chain.moved (.calling g value k) hs.awake hkeeps hq (hout hs.chain)
  refine hs.moved hget hkeeps hq husable hframe (hbefore.append ?_) ?_ ?_ ?_
  · exact .cons g (w.here p) active .main data' value k (w.moved_gens_same ..) hstatus hcaller
      hfound hsent hafter
  · rintro h ks ⟨-, a, -, -, -, -, -, hl⟩ -
    exact hout hl
  · simp only [Fits, hstatus]
    exact ⟨hstack, .inl (by simp)⟩
  · rintro h - (hmem | ⟨ks, hc, hmem⟩)
    · exact .inl (by simp [hmem])
    · rw [honly ks hc] at hmem
      exact .inl (by simp [hmem])

/-- Who has resumed the first generator of a chain is inside of the other ones. -/
theorem Linked.caller {rest : List GenRef} (hl : Linked w (.gen g) (g :: rest) q)
    (hget : w.gens g = some data) (hcaller : data.callerCtx = some a) :
    Linked w a.place rest q := by
  cases hl with
  | cons g a' gs q data' value k get running caller frame sent rest =>
      obtain rfl := Option.some.inj (hget.symm.trans get)
      obtain rfl := Option.some.inj (hcaller.symm.trans caller)
      exact rest

/-- No suspended generator is inside of one that control is inside of. -/
theorem Sound.free_of_active (hs : Sound w p active) (hg : g ∈ active) :
    ∀ h ks, Captures w h ks → g ∉ ks := by
  intro h ks hc hmem
  obtain ⟨-, a', -, -, -, -, -, hl⟩ := id hc
  cases hl.same_end hs.chain hc.ends (.main w) hmem hg

theorem not_captures (hrunning : data.status = .running) (hget : w.gens g = some data) :
    ∀ ks, ¬ Captures w g ks := by
  rintro ks ⟨d, -, -, hd, hsuspended, -⟩
  obtain rfl := Option.some.inj (hget.symm.trans hd)
  simp [hrunning] at hsuspended

/-- A generator yields from the stack `p`. -/
theorem Sound.suspends {rest : List GenRef} {value : Option IT}
    {k : Except (Exn E) IT → Control T E X}
    {k' : Machine.Answer T E → Control T E X} (hs : Sound w p (gs ++ g :: rest))
    (data' : GenData T E X)
    (hget : w.gens g = some data)
    (hbefore : Linked w p gs (.gen g)) (hafter : Linked w (.gen g) (g :: rest) .main)
    (hcaller : data.callerCtx = some a) (hfound : w.find a = some (.calling g value k'))
    (hstatus : data'.status = .suspended) (hstack : data'.genStack = true)
    (hctx : data'.genCtx = some (.saved (w.here p))) (hframe : ∀ sent, (k sent).At p) :
    Sound (w.moved p (.yielding g k) g data' a.place) a.place rest := by
  have hnodup := hs.chain.nodup (.main w)
  have hrunning := hafter.running (List.mem_cons_self ..) hget
  have hq : ∀ f, (w.stackAt a.place).top = some f → f.gen? = some g := by
    intro f htop
    rw [World.top_of_find hfound f htop]
    rfl
  have hpq : a.place ≠ p := World.place_ne_of_find hs.awake hfound
  have hkeeps : Keeps w p g data' := .inr fun _ _ _ => hstack
  have hgs : g ∉ gs := by
    intro hg
    have := (List.nodup_append.mp hnodup).2.2 g hg g (List.mem_cons_self ..)
    exact this rfl
  have hrest : g ∉ rest := (List.nodup_cons.mp (List.nodup_append.mp hnodup).2.1).1
  have hcaptures : Captures (w.moved p (.yielding g k) g data' a.place) g gs :=
    ⟨data', w.here p, k, w.moved_gens_same .., hstatus, hctx,
      World.find_moved_here _ data' hs.usable (fun _ _ _ => hstack) hpq,
      hbefore.moved _ hs.awake hkeeps hq hgs⟩
  have hlast := (hafter.caller hget hcaller).moved (.yielding g k) hs.awake hkeeps hq hrest
  refine hs.moved hget hkeeps hq ?_ hframe hlast ?_ ?_ ?_
  · exact World.setGen_allocated_of _ data' (fun _ _ _ => hstack) (World.find_eq_some.mp hfound).1
  · exact fun h ks hc _ => hs.free_of_active (by simp) h ks hc
  · simp only [Fits, hstatus]
    exact ⟨hstack, gs, hcaptures⟩
  · rintro h hne (hmem | ⟨ks, hc, -⟩)
    · rcases List.mem_append.mp hmem with hmem | hmem
      · exact .inr ⟨g, gs, hcaptures, hmem⟩
      · exact .inl ((List.mem_cons.mp hmem).resolve_left hne)
    · exact absurd hc (not_captures hrunning hget ks)

/-- A generator comes to its end on its own stack, which is freed. -/
theorem Sound.finishes {rest : List GenRef} {value : Option IT}
    {k' : Machine.Answer T E → Control T E X} (hs : Sound w (.gen g) (g :: rest))
    (data' : GenData T E X) (hget : w.gens g = some data)
    (hcaller : data.callerCtx = some a) (hfound : w.find a = some (.calling g value k'))
    (hstatus : data'.status = .done) (hstack : data'.genStack = false) :
    Sound (w.moved (.gen g) .ended g data' a.place) a.place rest := by
  have hnodup := hs.chain.nodup (.main w)
  have hrunning := hs.chain.running (List.mem_cons_self ..) hget
  have hq : ∀ f, (w.stackAt a.place).top = some f → f.gen? = some g := by
    intro f htop
    rw [World.top_of_find hfound f htop]
    rfl
  have hpq : a.place ≠ .gen g := World.place_ne_of_find hs.awake hfound
  have hkeeps : Keeps w (.gen g) g data' := .inl rfl
  have hlast := (hs.chain.caller hget hcaller).moved .ended hs.awake hkeeps hq
    (List.nodup_cons.mp hnodup).1
  refine hs.moved hget hkeeps hq ?_ trivial hlast ?_ ?_ ?_
  · exact (World.setGen_allocated_ne _ data' hpq).trans (World.find_eq_some.mp hfound).1
  · exact fun h ks hc _ => hs.free_of_active (by simp) h ks hc
  · simp only [Fits, hstatus]
    exact hstack
  · rintro h hne (hmem | ⟨ks, hc, -⟩)
    · exact .inl ((List.mem_cons.mp hmem).resolve_left hne)
    · exact absurd hc (not_captures hrunning hget ks)

/-! ### Steps without a switch -/

/-- Nothing that the chains depend on has changed, and generators were made. -/
theorem Sound.transfer {w' : World T IT E X} (hs : Sound w p active)
    (hstacks : w'.stackAt = w.stackAt)
    (hold : ∀ g data, w.gens g = some data →
      ∃ data', w'.gens g = some data' ∧ data'.links = data.links ∧ data'.genStack = data.genStack)
    (hnew : ∀ g data', w'.gens g = some data' → w.gens g = none →
      data'.status = .pending ∧ data'.genStack = false)
    (hmade : ∀ g, (w'.gens g).isSome ↔ g < w'.numGens) : Sound w' p active := by
  have halloc {q : Place} (h : w.allocated q = true) : w'.allocated q = true := by
    cases q with
    | main => rfl
    | gen g =>
        cases hget : w.gens g with
        | none => simp [World.allocated, hget] at h
        | some data =>
            obtain ⟨data', hget', -, hstack⟩ := hold g data hget
            simpa [World.allocated, hget, hget', hstack] using h
  have hfind {a : Address} {f : Frame T IT E X} (h : w.find a = some f) : w'.find a = some f := by
    obtain ⟨ha, hserial, htop⟩ := World.find_eq_some.mp h
    exact World.find_eq_some.mpr ⟨halloc ha, by rw [hstacks, hserial], by rw [hstacks, htop]⟩
  have hlinks (g : GenRef) (data : GenData T E X) (hget : w.gens g = some data) :
      ∃ data', w'.gens g = some data' ∧ data'.links = data.links := by
    obtain ⟨data', hget', hlink, -⟩ := hold g data hget
    exact ⟨data', hget', hlink⟩
  have hcaptures {g : GenRef} {gs : List GenRef} (hc : Captures w g gs) : Captures w' g gs :=
    hc.transfer (fun h _ => hlinks h) (fun _ _ => hfind) fun _ _ _ _ _ => hfind
  refine ⟨by rw [hstacks, hs.awake], halloc hs.usable,
    hs.chain.transfer (fun h _ => hlinks h) fun _ _ _ _ _ => hfind, hmade, ?_, ?_, ?_⟩
  · intro g hnone
    rw [hstacks]
    refine hs.unmade g ?_
    cases hget : w.gens g with
    | none => rfl
    | some data =>
        obtain ⟨data', hget', -⟩ := hlinks g data hget
        simp [hnone] at hget'
  · intro g data' hget'
    cases hget : w.gens g with
    | none =>
        obtain ⟨hpending, hstack⟩ := hnew g data' hget' hget
        simp only [Fits, hpending, hstacks]
        exact ⟨hstack, hs.unmade g hget⟩
    | some data =>
        obtain ⟨data'', hget'', hlink, hstack⟩ := hold g data hget
        obtain rfl := Option.some.inj (hget'.symm.trans hget'')
        have hfits := hs.fits g data hget
        have hstatus : data'.status = data.status := congrArg Prod.fst hlink
        cases hcase : data.status with
        | pending =>
            simp only [Fits, hcase, hstatus, hstack, hstacks] at hfits ⊢
            exact hfits
        | running =>
            simp only [Fits, hcase, hstatus, hstack] at hfits ⊢
            exact hfits.imp_right
              (Or.imp_right fun ⟨h, gs, hc, hmem⟩ => ⟨h, gs, hcaptures hc, hmem⟩)
        | suspended =>
            simp only [Fits, hcase, hstatus, hstack] at hfits ⊢
            exact hfits.imp_right fun ⟨gs, hc⟩ => ⟨gs, hcaptures hc⟩
        | done =>
            simp only [Fits, hcase, hstatus, hstack] at hfits ⊢
            exact hfits
  · intro q f htop
    rw [hstacks] at htop
    exact hs.frames q f htop

/-- A generator keeps what the chains depend on. -/
theorem Sound.relink (hs : Sound w p active) (hget : w.gens g = some data)
    (hlinks : data'.links = data.links) (hstack : data'.genStack = data.genStack) :
    Sound (w.setGen g data') p active := by
  refine hs.transfer rfl ?_ ?_ ?_
  · intro h d hd
    by_cases hne : h = g
    · subst hne
      obtain rfl := Option.some.inj (hget.symm.trans hd)
      exact ⟨data', w.setGen_gens_same h data', hlinks, hstack⟩
    · exact ⟨d, (w.setGen_gens_ne data' hne).trans hd, rfl, rfl⟩
  · intro h d hd hnone
    have hne : h ≠ g := by
      rintro rfl
      simp [hget] at hnone
    rw [w.setGen_gens_ne data' hne, hnone] at hd
    cases hd
  · intro h
    by_cases hne : h = g
    · subst hne
      have hmade := hs.made h
      simp only [hget, Option.isSome_some, true_iff] at hmade
      rw [World.setGen_gens_same]
      exact iff_of_true rfl hmade
    · rw [w.setGen_gens_ne data' hne]
      exact hs.made h

theorem Sound.create (hs : Sound w p active) (executor : GenRef → X) :
    Sound (w.create executor) p active := by
  have hfresh : w.gens w.numGens = none := by
    have hmade := hs.made w.numGens
    simpa using hmade
  have hne {h : GenRef} {d : GenData T E X} (hd : w.gens h = some d) : h ≠ w.numGens := by
    rintro rfl
    simp [hfresh] at hd
  have hgens (h : GenRef) (hh : h ≠ w.numGens) : (w.create executor).gens h = w.gens h :=
    w.setGen_gens_ne _ hh
  have hsame : (w.create executor).gens w.numGens = some { executor } := w.setGen_gens_same ..
  refine hs.transfer rfl ?_ ?_ ?_
  · exact fun h d hd => ⟨d, (hgens h (hne hd)).trans hd, rfl, rfl⟩
  · intro h d hd hnone
    by_cases hh : h = w.numGens
    · subst hh
      obtain rfl := Option.some.inj (hsame.symm.trans hd)
      exact ⟨rfl, rfl⟩
    · rw [hgens h hh, hnone] at hd
      cases hd
  · intro h
    have hnum : (w.create executor).numGens = w.numGens + 1 := rfl
    by_cases hh : h = w.numGens
    · subst hh
      rw [hsame, hnum]
      exact iff_of_true rfl (Nat.lt_succ_self _)
    · rw [hgens h hh, hs.made h, hnum]
      have hlt : h < w.numGens + 1 ↔ h < w.numGens := by
        constructor
        · intro hlt
          exact Nat.lt_of_le_of_ne (Nat.le_of_lt_succ hlt) hh
        · exact fun hlt => Nat.lt_succ_of_lt hlt
      exact hlt.symm

end Moves

end Libasync.Generator.Contexts
