import Libasync.Generator.InVal

/-! # Delegation under `next`

A generator that does nothing but delegate is driven beside the generators that it delegates to. The
two runs have the same inner generators; the stack of the outer run has one more frame, below what
the inner generators have put there. -/

namespace Libasync.Generator.Machine

open Promise Automaton

variable {T IT E C : Type*}

/-! ## A generator that the others do not know -/

section Spare

variable {w : World T IT E C} {g o : GenRef} {data : Data T IT E C}

/-- The number belongs to no generator and will belong to no new one. -/
structure World.Spare (w : World T IT E C) (o : GenRef) : Prop where
  gens : w.gens o = none
  lt : o < w.numGens

theorem World.set_set (w : World T IT E C) (o : GenRef) (data data' : Data T IT E C) :
    (w.set o data).set o data' = w.set o data' := by
  simp [World.set]

theorem World.set_comm (hne : g ≠ o) (data data' : Data T IT E C) :
    (w.set o data).set g data' = (w.set g data').set o data := by
  simp only [World.set]
  rw [Function.update_comm hne]

namespace World.Spare

theorem ne (h : w.Spare o) {before : Data T IT E C} (hgens : w.gens g = some before) : g ≠ o := by
  rintro rfl
  rw [h.gens] at hgens
  cases hgens

theorem gens_set (h : w.Spare o) {before : Data T IT E C} (hgens : w.gens g = some before) :
    (w.set o data).gens g = some before := by
  rw [World.set_gens, if_neg (h.ne hgens), hgens]

theorem set (h : w.Spare o) (hne : g ≠ o) (data' : Data T IT E C) : (w.set g data').Spare o where
  gens := by rw [World.set_gens, if_neg hne.symm, h.gens]
  lt := h.lt

end World.Spare

end Spare

/-! ## The two ways to drive -/

/-- User code of the form `yield_from(g1); ...; yield_from(gn); return r`. -/
inductive Delegates (prog : C → Action T IT E C) (r : T) : C → List GenRef → Prop where
  | ret (state) (action : prog state = .ret r) : Delegates prog r state []
  | yieldFrom (state g gens k) (action : prog state = .yieldFrom g k)
      (throws : ∀ error, prog (k (.error error)) = .raise error)
      (rest : Delegates prog r (k (.ok ())) gens) : Delegates prog r state (g :: gens)

variable [GeneratorError E]

/-- Generators run for some steps. -/
def Goes (prog : C → Action T IT E C) (c c' : Config T IT E C) : Prop :=
  ∃ n, run (step prog) c (List.replicate n .tau) = some c'

/-- A call of the main program comes back. -/
def Returns (prog : C → Action T IT E C) (c : Config T IT E C) (g : GenRef) (call : Call IT E)
    (answer : Answer T E) (c' : Config T IT E C) : Prop :=
  ∃ c₁, step prog c (.call g call) = some c₁ ∧ Goes prog c₁ c' ∧ c'.control = .main (some answer)

/-- `next` is called with the inputs in turn. -/
inductive Driven (prog : C → Action T IT E C) (g : GenRef) :
    Config T IT E C → List IT → List (Answer T E) → Config T IT E C → Prop where
  | nil (c) : Driven prog g c [] [] c
  | cons {c c₁ c' input inputs answer answers} (call : Returns prog c g (.next input) answer c₁)
      (rest : Driven prog g c₁ inputs answers c') :
      Driven prog g c (input :: inputs) (answer :: answers) c'

/-- `next` is called on the concatenation of generators: on the first one that is not finished,
until one of them throws. -/
inductive Concatenated (prog : C → Action T IT E C) (r : T) :
    Config T IT E C → List GenRef → List IT → List (Answer T E) → Config T IT E C → Prop where
  | nil (c gens) : Concatenated prog r c gens [] [] c
  | finished (c inputs) : Concatenated prog r c [] inputs (inputs.map fun _ => .ok (some r)) c
  | skip {c c' g gens inputs answers data} (known : c.world.gens g = some data)
      (done : data.status = .done) (rest : Concatenated prog r c gens inputs answers c') :
      Concatenated prog r c (g :: gens) inputs answers c'
  | value {c c₁ c' g gens input inputs value answers data} (known : c.world.gens g = some data)
      (unfinished : data.status ≠ .done) (call : Returns prog c g (.next input) (.ok value) c₁)
      (rest : Concatenated prog r c₁ (g :: gens) inputs answers c') :
      Concatenated prog r c (g :: gens) (input :: inputs) (.ok value :: answers) c'
  | error {c c' g gens input error data} (known : c.world.gens g = some data)
      (unfinished : data.status ≠ .done)
      (call : Returns prog c g (.next input) (.error error) c') :
      Concatenated prog r c (g :: gens) [input] [.error error] c'

/-! ## Steps -/

variable {prog : C → Action T IT E C} {c c' d d' : Config T IT E C} {w w' : World T IT E C}
  {g o : GenRef} {code : Code T E C} {out : Outcome T IT E C} {data : Data T IT E C}
  {stack base : List (Caller T E C)} {control : Control T E C} {r : T} {gens : List GenRef}

theorem Goes.refl : Goes prog c c := ⟨0, rfl⟩

theorem Goes.trans {c₁ : Config T IT E C} (h : Goes prog c c₁) (h' : Goes prog c₁ c') :
    Goes prog c c' := by
  obtain ⟨m, hm⟩ := h
  obtain ⟨n, hn⟩ := h'
  refine ⟨m + n, ?_⟩
  rw [List.replicate_add, run_append, hm]
  exact hn

theorem Goes.head {c₁ : Config T IT E C} (hl : step prog c .tau = some c₁)
    (h : Goes prog c₁ c') : Goes prog c c' := by
  obtain ⟨n, hn⟩ := h
  refine ⟨n + 1, ?_⟩
  rw [List.replicate_succ, run_cons, hl]
  exact hn

/-- The main program makes no step by itself. -/
theorem Goes.eq_of_main {answer : Option (Answer T E)} (h : Goes prog c c')
    (hcontrol : c.control = .main answer) : c' = c := by
  obtain ⟨n, hn⟩ := h
  cases n with
  | zero => exact (Option.some.inj hn).symm
  | succ n => simp [List.replicate_succ, run_cons, step, hcontrol] at hn

/-- The configuration but for the record of calls. -/
structure Config.Is (c : Config T IT E C) (w : World T IT E C) (control : Control T E C)
    (stack : List (Caller T E C)) : Prop where
  world : c.world = w
  control : c.control = control
  stack : c.stack = stack

theorem Config.Is.goes {code' : Code T E C} (h : d.Is w (.code g code) stack)
    (hexec : w.exec prog g code = some (w', .goes code')) :
    ∃ d', step prog d .tau = some d' ∧ d'.Is w' (.code g code') stack := by
  obtain ⟨rfl, hcontrol, rfl⟩ := h
  refine ⟨{ d with world := w', control := .code g code' }, ?_, rfl, rfl, rfl⟩
  simp only [step, hcontrol, hexec, Option.bind_some, Config.after]

theorem Config.Is.enters {gen : GenRef} {call : Call IT E} {code' : Code T E C}
    {k : Answer T E → Code T E C} (h : d.Is w (.code g code) stack)
    (hexec : w.exec prog g code = some (w', .enters gen call code' k)) :
    ∃ d', step prog d .tau = some d' ∧ d'.Is w' (.code gen code') (.gen g k :: stack) := by
  obtain ⟨rfl, hcontrol, rfl⟩ := h
  refine ⟨d.enter (.gen g k) w' gen call code', ?_, rfl, rfl, rfl⟩
  simp only [step, hcontrol, hexec, Option.bind_some, Config.after]

theorem Config.Is.returns {answer : Answer T E} {h' : GenRef} {k : Answer T E → Code T E C}
    (h : d.Is w (.code g code) (.gen h' k :: stack))
    (hexec : w.exec prog g code = some (w', .returns answer)) :
    ∃ d', step prog d .tau = some d' ∧ d'.Is w' (.code h' (k answer)) stack := by
  obtain ⟨rfl, hcontrol, hstack⟩ := h
  refine ⟨{ d with world := w', control := .code h' (k answer), stack := stack }, ?_, rfl, rfl, rfl⟩
  simp only [step, hcontrol, hexec, Option.bind_some, Config.after, hstack]

theorem Config.Is.returns_main {answer : Answer T E}
    (h : d.Is w (.code g code) (.main :: stack))
    (hexec : w.exec prog g code = some (w', .returns answer)) :
    ∃ d', step prog d .tau = some d' ∧ d'.Is w' (.main (some answer)) stack := by
  obtain ⟨rfl, hcontrol, hstack⟩ := h
  refine ⟨{ d with world := w', control := .main (some answer), stack := stack }, ?_, rfl, rfl, rfl⟩
  simp only [step, hcontrol, hexec, Option.bind_some, Config.after, hstack]

/-! ### The others -/

namespace World.Spare

theorem call (h : w.Spare o) (data : Data T IT E C) {gen : GenRef} {call : Call IT E}
    {k : Answer T E → Code T E C} (hcall : w.call gen call k = some (w', out)) :
    (w.set o data).call gen call k = some (w'.set o data, out) ∧ w'.Spare o := by
  simp only [World.call] at hcall ⊢
  split at hcall
  · cases hcall
  · rename_i before hgens
    rw [h.gens_set hgens]
    dsimp only
    split at hcall
    · obtain ⟨⟨entered, code⟩, henter, heq⟩ := Option.map_eq_some_iff.mp hcall
      obtain ⟨rfl, rfl⟩ := Prod.mk.inj heq
      refine ⟨?_, h.set (h.ne hgens) entered⟩
      simp only [henter, Option.map_some, World.set_comm (h.ne hgens)]
    · obtain ⟨rfl, rfl⟩ := Prod.mk.inj (Option.some.inj hcall)
      exact ⟨rfl, h⟩
    · obtain ⟨rfl, rfl⟩ := Prod.mk.inj (Option.some.inj hcall)
      exact ⟨rfl, h⟩

theorem yield_ (h : w.Spare o) (data : Data T IT E C) (hne : g ≠ o) (before : Data T IT E C)
    (value : T) (resume : Except (Exn E) IT → Code T E C)
    (hyield : w.yield_ g before value resume = (w', out)) :
    (w.set o data).yield_ g before value resume = (w'.set o data, out) ∧ w'.Spare o := by
  simp only [World.yield_] at hyield ⊢
  split at hyield
  · rename_i after hafter
    obtain ⟨rfl, rfl⟩ := Prod.mk.inj hyield
    simp only [World.back, World.set_comm hne]
    exact ⟨trivial, h.set hne after⟩
  · obtain ⟨rfl, rfl⟩ := Prod.mk.inj hyield
    exact ⟨rfl, h⟩

/-- Code does the same whether or not the unknown generator is there. -/
theorem exec (h : w.Spare o) (data : Data T IT E C) (hexec : w.exec prog g code = some (w', out)) :
    (w.set o data).exec prog g code = some (w'.set o data, out) ∧ w'.Spare o := by
  simp only [World.exec] at hexec ⊢
  split at hexec
  · cases hexec
  · rename_i before hgens
    have hne := h.ne hgens
    rw [h.gens_set hgens]
    cases code with
    | user state =>
        dsimp only at hexec ⊢
        cases haction : prog state with
        | ret result | raise error =>
            simp only [haction, World.back, Option.some.injEq, Prod.mk.injEq] at hexec ⊢
            obtain ⟨rfl, rfl⟩ := hexec
            exact ⟨⟨World.set_comm hne _ _, rfl⟩, h.set hne _⟩
        | yield value k =>
            simp only [haction, Option.some.injEq] at hexec ⊢
            exact h.yield_ data hne before value _ hexec
        | yieldFrom gen k =>
            simp only [haction, Option.some.injEq, Prod.mk.injEq] at hexec ⊢
            obtain ⟨rfl, rfl⟩ := hexec
            exact ⟨⟨rfl, rfl⟩, h⟩
        | call gen call k =>
            simp only [haction] at hexec ⊢
            exact h.call data hexec
        | status gen k =>
            simp only [haction] at hexec ⊢
            obtain ⟨called, hcalled, heq⟩ := Option.map_eq_some_iff.mp hexec
            obtain ⟨rfl, rfl⟩ := Prod.mk.inj heq
            rw [h.gens_set hcalled]
            exact ⟨rfl, h⟩
        | create executor k =>
            simp only [haction, Option.some.injEq, Prod.mk.injEq] at hexec ⊢
            obtain ⟨rfl, rfl⟩ := hexec
            have hnew : w.numGens ≠ o := Nat.ne_of_gt h.lt
            refine ⟨⟨?_, rfl⟩, ?_, Nat.lt_succ_of_lt h.lt⟩
            · simp only [World.create, World.set_numGens, World.set_comm hnew]
              rfl
            · simp only [World.create, World.set_gens, hnew.symm, if_false]
              exact h.gens
    | yieldFrom gen k =>
        dsimp only at hexec ⊢
        split at hexec
        · cases hexec
        · rename_i inner hinner
          rw [h.gens_set hinner]
          dsimp only
          split at hexec
          · rename_i hdone
            obtain ⟨rfl, rfl⟩ := Prod.mk.inj (Option.some.inj hexec)
            exact ⟨if_pos hdone, h⟩
          · rename_i hdone
            rw [if_neg hdone]
            split at hexec
            · obtain ⟨rfl, rfl⟩ := Prod.mk.inj (Option.some.inj hexec)
              exact ⟨rfl, h⟩
            · exact h.call data hexec
    | forward value gen k =>
        obtain ⟨value', rfl, heq⟩ := Option.map_eq_some_iff.mp hexec
        obtain ⟨hyield, hspare⟩ := h.yield_ data hne before value' _ heq
        exact ⟨congrArg some hyield, hspare⟩

end World.Spare

/-! ## An inner generator has control -/

/-- The stack of the outer run has a frame of the outer generator below the frames that the inner
generators have put there. -/
structure Inside (o : GenRef) (data : Data T IT E C) (k : Answer T E → Code T E C)
    (above base : List (Caller T E C)) (c d : Config T IT E C) : Prop where
  spare : c.world.Spare o
  control : ∃ g code, c.control = .code g code
  stack : c.stack = above ++ .main :: base
  inner : .main ∉ above
  outer : d.Is (c.world.set o data) c.control (above ++ .gen o k :: .main :: base)

/-- What the outer generator gets when the call of `next` is back. -/
structure Back (o : GenRef) (data : Data T IT E C) (k : Answer T E → Code T E C)
    (base : List (Caller T E C)) (answer : Answer T E) (c d : Config T IT E C) : Prop where
  spare : c.world.Spare o
  stack : c.stack = base
  answered : ∀ outVal, answer = .ok outVal → outVal ≠ none
  outer : d.Is (c.world.set o data) (.code o (k answer)) (.main :: base)

variable {k : Answer T E → Code T E C} {above : List (Caller T E C)} {answer : Answer T E}

/-- The inner generators take the same steps in both runs, up to the one that gives control back. -/
theorem Inside.goes (h : Inside o data k above base c d) (hgoes : Goes prog c c')
    (hback : c'.control = .main (some answer)) :
    ∃ d', Goes prog d d' ∧ Back o data k base answer c' d' := by
  obtain ⟨n, hn⟩ := hgoes
  induction n generalizing c d above with
  | zero =>
      obtain rfl := Option.some.inj hn
      obtain ⟨g, code, hcode⟩ := h.control
      rw [hback] at hcode
      cases hcode
  | succ n ih =>
      obtain ⟨hspare, ⟨g, code, hcode⟩, hstack, hinner, houter⟩ := h
      rw [List.replicate_succ] at hn
      obtain ⟨c₁, hstep, hn⟩ := run_cons_eq_some _ hn
      have hlast (answered : Option (Answer T E)) (hmain : c₁.control = .main answered) :
          c' = c₁ := Goes.eq_of_main ⟨n, hn⟩ hmain
      simp only [step, hcode] at hstep
      obtain ⟨⟨w, out⟩, hexec, hafter⟩ := Option.bind_eq_some_iff.mp hstep
      obtain ⟨hexec', hspare'⟩ := hspare.exec data hexec
      rw [hcode] at houter
      cases out with
      | goes code' =>
          obtain rfl := Option.some.inj hafter
          obtain ⟨d₁, hd, hd₁⟩ := houter.goes hexec'
          have hinside : Inside o data k above base
              { c with world := w, control := .code g code' } d₁ :=
            ⟨hspare', ⟨_, _, rfl⟩, hstack, hinner, hd₁⟩
          obtain ⟨d', hgoes, hd'⟩ := ih hinside hn
          exact ⟨d', .head hd hgoes, hd'⟩
      | enters gen call code' k' =>
          obtain rfl := Option.some.inj hafter
          obtain ⟨d₁, hd, hd₁⟩ := houter.enters hexec'
          have hinside : Inside o data k (.gen g k' :: above) base
              (c.enter (.gen g k') w gen call code') d₁ :=
            ⟨hspare', ⟨_, _, rfl⟩, congrArg _ hstack, by simpa using hinner, hd₁⟩
          obtain ⟨d', hgoes, hd'⟩ := ih hinside hn
          exact ⟨d', .head hd hgoes, hd'⟩
      | crash =>
          obtain rfl := Option.some.inj hafter
          cases n with
          | zero =>
              obtain rfl := Option.some.inj hn
              cases hback
          | succ n => cases hn
      | returns given =>
          simp only [Config.after, hstack] at hafter
          cases above with
          | nil =>
              obtain rfl := Option.some.inj hafter
              obtain rfl := hlast _ rfl
              obtain rfl : given = answer := Option.some.inj (Control.main.inj hback)
              obtain ⟨d₁, hd, hd₁⟩ := houter.returns hexec'
              refine ⟨d₁, .head hd .refl, hspare', rfl, ?_, hd₁⟩
              cases World.executed hexec with
              | returns before data' gens inVal answered => exact answered
          | cons caller above =>
              cases caller with
              | main => exact absurd List.mem_cons_self hinner
              | gen h' k' =>
                  obtain rfl := Option.some.inj hafter
                  obtain ⟨d₁, hd, hd₁⟩ := houter.returns hexec'
                  have hinside : Inside o data k above base
                      { c with
                        world := w
                        control := .code h' (k' given)
                        stack := above ++ .main :: base } d₁ :=
                    ⟨hspare', ⟨_, _, rfl⟩, rfl, fun hmem => hinner (.tail _ hmem), hd₁⟩
                  obtain ⟨d', hgoes, hd'⟩ := ih hinside hn
                  exact ⟨d', .head hd hgoes, hd'⟩

/-! ## The outer generator has control -/

/-- Code that delegates to the generators in turn and then returns. -/
inductive Delegating (prog : C → Action T IT E C) (r : T) : Code T E C → List GenRef → Prop where
  | user (state : C) (gens : List GenRef) (body : Delegates prog r state gens) :
      Delegating prog r (.user state) gens
  | loop (g : GenRef) (gens : List GenRef) (k : Except (Exn E) Unit → C)
      (throws : ∀ error, prog (k (.error error)) = .raise error)
      (rest : Delegates prog r (k (.ok ())) gens) : Delegating prog r (.yieldFrom g k) (g :: gens)

/-- The outer generator has been resumed by `next`. -/
structure Runs (input : IT) (data : Data T IT E C) : Prop where
  status : data.status = .running
  inVal : data.inVal = some input
  error : data.error = none

/-- The outer generator can be resumed. -/
inductive Waits (prog : C → Action T IT E C) (r : T) (data : Data T IT E C) (gens : List GenRef) :
    Prop where
  | fresh (status : data.status = .pending) (genCtx : data.genCtx = none)
      (error : data.error = none) (body : Delegating prog r data.executor gens)
  | suspended (resume) (status : data.status = .suspended) (genCtx : data.genCtx = some resume)
      (error : data.error = none) (body : ∀ sent, Delegating prog r (resume (.ok sent)) gens)

def World.Finished (w : World T IT E C) (g : GenRef) : Prop :=
  ∃ data, w.gens g = some data ∧ data.status = .done

variable {input : IT} {last : Option (Answer T E)} {k' : Except (Exn E) Unit → C}

/-- `next` gives control to the code that delegates. -/
theorem Waits.entered (h : Waits prog r data gens) (hd : d.Is (w.set o data) (.main last) base)
    (input : IT) : ∃ d' data' code, step prog d (.call o (.next input)) = some d' ∧
      d'.Is (w.set o data') (.code o code) (.main :: base) ∧ Runs input data' ∧
        Delegating prog r code gens := by
  let data' : Data T IT E C := { data with inVal := some input, status := .running }
  have hsent : ∃ code, data.next input = .switched data' ∧ data'.enter = some (data', code) ∧
      data'.error = none ∧ Delegating prog r code gens := by
    cases h with
    | fresh status genCtx error body =>
        refine ⟨data.executor, ?_, ?_, error, body⟩
        · simp [GenData.next, status, data']
        · simp [GenData.enter, genCtx, data']
    | suspended resume status genCtx error body =>
        refine ⟨resume (.ok input), ?_, ?_, error, body input⟩
        · simp [GenData.next, status, data']
        · simp [GenData.enter, genCtx, data']
  obtain ⟨code, hnext, henter, herror, hcode⟩ := hsent
  obtain ⟨hworld, hcontrol, hstack⟩ := hd
  have hgens : d.world.gens o = some data := by simp [hworld]
  refine ⟨d.enter .main (d.world.set o data') o (.next input) code, data', code, ?_, ?_,
    ⟨rfl, rfl, herror⟩, hcode⟩
  · simp only [step, hcontrol, Config.mainCall, hgens, Call.send, hnext, henter, Option.map_some]
  · exact ⟨by rw [hworld]; exact World.set_set .., rfl, congrArg _ hstack⟩

/-- The code comes to the test of a loop. -/
theorem Delegating.test (h : Delegating prog r code (g :: gens))
    (hd : d.Is (w.set o data) (.code o code) stack) :
    ∃ d' k, Goes prog d d' ∧ d'.Is (w.set o data) (.code o (.yieldFrom g k)) stack ∧
      (∀ error, prog (k (.error error)) = .raise error) ∧ Delegates prog r (k (.ok ())) gens := by
  cases h with
  | loop g gens k throws rest => exact ⟨d, k, .refl, hd, throws, rest⟩
  | user state gens body =>
      cases body with
      | yieldFrom state g gens k action throws rest =>
          have hexec : (w.set o data).exec prog o (.user state) =
              some (w.set o data, .goes (.yieldFrom g k)) := by
            simp [World.exec, action]
          obtain ⟨d', hl, hd'⟩ := hd.goes hexec
          exact ⟨d', k, .head hl .refl, hd', throws, rest⟩

/-- The code leaves out the generators that are finished. -/
theorem Delegating.skip {front : List GenRef} (h : Delegating prog r code (front ++ gens))
    (hspare : w.Spare o) (hfront : ∀ g ∈ front, w.Finished g)
    (hd : d.Is (w.set o data) (.code o code) stack) :
    ∃ d' code', Goes prog d d' ∧ d'.Is (w.set o data) (.code o code') stack ∧
      Delegating prog r code' gens := by
  induction front generalizing code d with
  | nil => exact ⟨d, code, .refl, hd, h⟩
  | cons g front ih =>
      obtain ⟨d₁, k, hgoes, hd₁, -, hrest⟩ := h.test hd
      obtain ⟨inner, hknown, hdone⟩ := hfront g List.mem_cons_self
      have hexec : (w.set o data).exec prog o (.yieldFrom g k) =
          some (w.set o data, .goes (.user (k (.ok ())))) := by
        simp [World.exec, hspare.ne hknown, hknown, hdone]
      obtain ⟨d₂, hl, hd₂⟩ := hd₁.goes hexec
      obtain ⟨d', code', hgoes', hd', hcode⟩ :=
        ih (.user _ _ hrest) (fun g hg => hfront g (.tail _ hg)) hd₂
      exact ⟨d', code', hgoes.trans (.head hl hgoes'), hd', hcode⟩

/-- The loop forwards its input to the inner generator. -/
theorem forwards {inner : Data T IT E C} (hspare : c.world.Spare o) (hstack : c.stack = base)
    (hruns : Runs input data) (hknown : c.world.gens g = some inner)
    (hunfinished : inner.status ≠ .done) (hreturns : Returns prog c g (.next input) answer c')
    (hd : d.Is (c.world.set o data) (.code o (.yieldFrom g k')) (.main :: base)) :
    ∃ d', Goes prog d d' ∧ Back o data (forwarding g k') base answer c' d' := by
  obtain ⟨c₁, hstep, hgoes, hback⟩ := hreturns
  have hexec : (c.world.set o data).exec prog o (.yieldFrom g k') =
      (c.world.set o data).call g (.next input) (forwarding g k') := by
    simp [World.exec, hspare.ne hknown, hknown, hunfinished, hruns.inVal]
  cases hcontrol : c.control with
  | code | crashed => simp [step, hcontrol] at hstep
  | main last =>
      simp only [step, hcontrol, Config.mainCall, hknown] at hstep
      cases hsend : Call.send inner (.next input) with
      | switched sent =>
          simp only [hsend] at hstep
          obtain ⟨⟨entered, code⟩, henter, rfl⟩ := Option.map_eq_some_iff.mp hstep
          have hcall : c.world.call g (.next input) (forwarding g k') =
              some (c.world.set g entered, .enters g (.next input) code (forwarding g k')) := by
            simp [World.call, hknown, hsend, henter]
          obtain ⟨hcall', hspare'⟩ := hspare.call data hcall
          obtain ⟨d₁, hl, hd₁⟩ := hd.enters (hexec.trans hcall')
          have hinside : Inside o data (forwarding g k') [] base
              (c.enter .main (c.world.set g entered) g (.next input) code) d₁ :=
            ⟨hspare', ⟨_, _, rfl⟩, congrArg _ hstack, by simp, hd₁⟩
          obtain ⟨d', hgoes', hd'⟩ := hinside.goes hgoes hback
          exact ⟨d', .head hl hgoes', hd'⟩
      | returned outVal =>
          cases hstatus : inner.status <;> simp [Call.send, GenData.next, hstatus] at hsend
          exact absurd hstatus hunfinished
      | threw error =>
          simp only [hsend] at hstep
          obtain rfl := Option.some.inj hstep
          obtain rfl := hgoes.eq_of_main rfl
          obtain rfl := Option.some.inj (Control.main.inj hback)
          have hcall : c.world.call g (.next input) (forwarding g k') =
              some (c.world, .goes (forwarding g k' (.error error))) := by
            simp [World.call, hknown, hsend]
          obtain ⟨hcall', -⟩ := hspare.call data hcall
          obtain ⟨d₁, hl, hd₁⟩ := hd.goes (hexec.trans hcall')
          exact ⟨d₁, .head hl .refl, hspare, hstack, by simp, hd₁⟩

/-! ## One call of the outer generator -/

/-- All inner generators are finished: the outer one returns. -/
theorem Delegating.finishes (h : Delegating prog r code []) (hruns : Runs input data)
    (hd : d.Is (w.set o data) (.code o code) (.main :: base)) :
    ∃ d' data', Goes prog d d' ∧ d'.Is (w.set o data') (.main (some (.ok (some r)))) base ∧
      data'.status = .done ∧ data'.outVal = some r := by
  cases h with
  | user state gens body =>
      cases body with
      | ret state action =>
          have hexec : (w.set o data).exec prog o (.user state) =
              some (w.set o (data.finish r), .returns (.ok (some r))) := by
            simp [World.exec, action, World.back, World.set_set, answer, GenData.finish,
              hruns.error]
          obtain ⟨d', hl, hd'⟩ := hd.returns_main hexec
          exact ⟨d', data.finish r, .head hl .refl, hd', rfl, rfl⟩

/-- A value of the inner generator is yielded. -/
theorem Back.value {outVal : Option T} (h : Back o data (forwarding g k') base (.ok outVal) c d)
    (hruns : Runs input data) (hrest : Delegates prog r (k' (.ok ())) gens)
    (hthrows : ∀ error, prog (k' (.error error)) = .raise error) :
    ∃ d' data', Goes prog d d' ∧
      d'.Is (c.world.set o data') (.main (some (.ok outVal))) base ∧
        Waits prog r data' (g :: gens) := by
  obtain ⟨value, rfl⟩ := Option.ne_none_iff_exists'.mp (h.answered outVal rfl)
  have hexec : (c.world.set o data).exec prog o (.forward (some value) g k') =
      some (c.world.set o { data with
        outVal := some value
        status := .suspended
        genCtx := some (looping g k') }, .returns (.ok (some value))) := by
    simp [World.exec, World.yield_, GenData.yield_of_running hruns.status, World.back,
      World.set_set, answer]
  obtain ⟨d', hl, hd'⟩ := h.outer.returns_main hexec
  refine ⟨d', _, .head hl .refl, hd', .suspended _ rfl rfl hruns.error fun sent => ?_⟩
  exact .loop g gens k' hthrows hrest

/-- An error of the inner generator is thrown on. -/
theorem Back.error {error : Exn E} (h : Back o data (forwarding g k') base (.error error) c d)
    (hthrows : ∀ error, prog (k' (.error error)) = .raise error) :
    ∃ d' data', Goes prog d d' ∧
      d'.Is (c.world.set o data') (.main (some (.error error))) base := by
  have hexec : (c.world.set o data).exec prog o (.user (k' (.error error))) =
      some (c.world.set o (data.fail error), .returns (.error error)) := by
    simp [World.exec, hthrows, World.back, World.set_set, answer, GenData.fail]
  obtain ⟨d', hl, hd'⟩ := h.outer.returns_main hexec
  exact ⟨d', data.fail error, .head hl .refl, hd'⟩

/-- A call of `next` on the outer generator comes to the first inner generator that is not
finished. -/
theorem Waits.comes {front : List GenRef} {inner : Data T IT E C}
    (h : Waits prog r data (front ++ g :: gens)) (hspare : c.world.Spare o)
    (hstack : c.stack = base) (hfront : ∀ g ∈ front, c.world.Finished g)
    (hd : d.Is (c.world.set o data) (.main last) base) (hknown : c.world.gens g = some inner)
    (hunfinished : inner.status ≠ .done) (hreturns : Returns prog c g (.next input) answer c') :
    ∃ d₁ d' data' k, step prog d (.call o (.next input)) = some d₁ ∧ Goes prog d₁ d' ∧
      Runs input data' ∧ Back o data' (forwarding g k) base answer c' d' ∧
        Delegates prog r (k (.ok ())) gens ∧ ∀ error, prog (k (.error error)) = .raise error := by
  obtain ⟨d₁, data', code, hstep, hd₁, hruns, hcode⟩ := h.entered hd input
  obtain ⟨d₂, code', hgoes₂, hd₂, hcode'⟩ := hcode.skip hspare hfront hd₁
  obtain ⟨d₃, k, hgoes₃, hd₃, hthrows, hrest⟩ := hcode'.test hd₂
  obtain ⟨d₄, hgoes₄, hback⟩ := forwards hspare hstack hruns hknown hunfinished hreturns hd₃
  exact ⟨d₁, d₄, data', k, hstep, (hgoes₂.trans hgoes₃).trans hgoes₄, hruns, hback, hrest, hthrows⟩

/-- A generator that has returned goes on returning its result. -/
theorem driven_returned (prog : C → Action T IT E C)
    (hd : d.Is (w.set o data) (.main last) base) (hstatus : data.status = .done)
    (hresult : data.outVal = some r) (inputs : List IT) :
    ∃ d', Driven prog o d inputs (inputs.map fun _ => .ok (some r)) d' ∧
      d'.world = w.set o data := by
  induction inputs generalizing d last with
  | nil => exact ⟨d, .nil d, hd.world⟩
  | cons input inputs ih =>
      have hgens : d.world.gens o = some data := by simp [hd.world]
      have hstep : step prog d (.call o (.next input)) =
          some { d with control := .main (some (.ok (some r))) } := by
        simp [step, hd.control, Config.mainCall, hgens, Call.send, GenData.next, hstatus, hresult]
      obtain ⟨d', hdriven, hworld⟩ :=
        ih (d := { d with control := .main (some (.ok (some r))) }) ⟨hd.world, rfl, hd.stack⟩
      exact ⟨d', .cons ⟨_, hstep, .refl, rfl⟩ hdriven, hworld⟩

/-! ## Runs -/

/-- The outer generator is driven beside the inner ones. -/
theorem Concatenated.driven {inputs : List IT} {answers : List (Answer T E)}
    (h : Concatenated prog r c gens inputs answers c') {front : List GenRef}
    (hwaits : Waits prog r data (front ++ gens)) (hspare : c.world.Spare o)
    (hfront : ∀ g ∈ front, c.world.Finished g)
    (hd : d.Is (c.world.set o data) (.main last) c.stack) :
    ∃ d', Driven prog o d inputs answers d' ∧
      ∀ g, g ≠ o → d'.world.gens g = c'.world.gens g := by
  have hsame {w : World T IT E C} {d : Config T IT E C} {data : Data T IT E C}
      (hworld : d.world = w.set o data) (g : GenRef) (hne : g ≠ o) :
      d.world.gens g = w.gens g := by
    rw [hworld, World.set_gens, if_neg hne]
  induction h generalizing d data front last with
  | nil c gens => exact ⟨d, .nil d, hsame hd.world⟩
  | finished c inputs =>
      cases inputs with
      | nil => exact ⟨d, .nil d, hsame hd.world⟩
      | cons input inputs =>
          obtain ⟨d₁, data₁, code, hstep, hd₁, hruns, hcode⟩ := hwaits.entered hd input
          obtain ⟨d₂, code', hgoes₂, hd₂, hcode'⟩ := hcode.skip hspare hfront hd₁
          obtain ⟨d₃, data₃, hgoes₃, hd₃, hdone, hresult⟩ := hcode'.finishes hruns hd₂
          obtain ⟨d', hdriven, hworld⟩ := driven_returned prog hd₃ hdone hresult inputs
          have hreturns : Returns prog d o (.next input) (.ok (some r)) d₃ :=
            ⟨d₁, hstep, hgoes₂.trans hgoes₃, hd₃.control⟩
          exact ⟨d', .cons hreturns hdriven, hsame hworld⟩
  | skip known done rest ih =>
      rename_i c c' g gens inputs answers inner
      have hwaits' : Waits prog r data ((front ++ [g]) ++ gens) := by simpa using hwaits
      refine ih hwaits' hspare ?_ hd
      intro g' hg'
      rcases List.mem_append.mp hg' with hold | hnew
      · exact hfront g' hold
      · obtain rfl := List.mem_singleton.mp hnew
        exact ⟨inner, known, done⟩
  | value known unfinished call rest ih =>
      obtain ⟨d₁, d₂, data₂, k, hstep, hgoes, hruns, hback, hrest, hthrows⟩ :=
        hwaits.comes hspare rfl hfront hd known unfinished call
      obtain ⟨d₃, data₃, hgoes₃, hd₃, hwaits₃⟩ := hback.value hruns hrest hthrows
      have hnext : Waits prog r data₃ ([] ++ _ :: _) := hwaits₃
      have hd₃' := hback.stack ▸ hd₃
      obtain ⟨d', hdriven, hgens⟩ := ih hnext hback.spare (by simp) hd₃'
      exact ⟨d', .cons ⟨d₁, hstep, hgoes.trans hgoes₃, hd₃.control⟩ hdriven, hgens⟩
  | error known unfinished call =>
      obtain ⟨d₁, d₂, data₂, k, hstep, hgoes, hruns, hback, hrest, hthrows⟩ :=
        hwaits.comes hspare rfl hfront hd known unfinished call
      obtain ⟨d₃, data₃, hgoes₃, hd₃⟩ := hback.error hthrows
      exact ⟨d₃, .cons ⟨d₁, hstep, hgoes.trans hgoes₃, hd₃.control⟩ (.nil d₃), hsame hd₃.world⟩

/-- `next` on a generator whose body is `yield_from(g1); ...; yield_from(gn); return r` returns
what `next` on the concatenation of the inner generators returns when they are driven directly with
the same inputs, up to and including the first call in which one of them throws; and the inner
generators are left in the same states. -/
theorem yield_from_transparent {inputs : List IT} {answers : List (Answer T E)} {start : C}
    (hspare : c.world.Spare o) (hmain : ∃ last, c.control = .main last)
    (hbody : Delegates prog r start gens) (h : Concatenated prog r c gens inputs answers c') :
    ∃ d', Driven prog o { c with world := c.world.set o { executor := .user start } } inputs
      answers d' ∧ ∀ g, g ≠ o → d'.world.gens g = c'.world.gens g := by
  obtain ⟨last, hcontrol⟩ := hmain
  have hwaits : Waits prog r ({ executor := .user start } : Data T IT E C) ([] ++ gens) :=
    .fresh rfl rfl rfl (.user start gens hbody)
  exact h.driven hwaits hspare (by simp) ⟨rfl, hcontrol, rfl⟩

inductive DelegateState where
  | asking
  | returning (result : ℕ)
  | failing (error : Exn Reason)
  | delegating
  deriving DecidableEq

/-- A generator that yields 7 and returns what it is sent, and one that delegates to it and then
returns 42. -/
def delegating : DelegateState → Action ℕ ℕ Reason DelegateState
  | .asking => .yield 7 fun
      | .ok sent => .returning sent
      | .error error => .failing error
  | .returning result => .ret result
  | .failing error => .raise error
  | .delegating => .yieldFrom 0 fun
      | .ok _ => .returning 42
      | .error error => .failing error

/-- The generator 0 is there, and the number 1 is kept for the outer one. -/
def oneGenerator (executor : DelegateState) : Config ℕ ℕ Reason DelegateState where
  world :=
    { gens := Function.update (fun _ => none) 0 (some { executor := .user executor })
      numGens := 2 }

theorem delegating_delegates : Delegates delegating 42 .delegating [0] :=
  .yieldFrom _ _ _ _ rfl (fun _ => rfl) (.ret _ rfl)

theorem oneGenerator_spare (executor : DelegateState) : (oneGenerator executor).world.Spare 1 :=
  ⟨rfl, Nat.one_lt_two⟩

theorem yield_from_transparent_sample : ∃ c' d' : Config ℕ ℕ Reason DelegateState,
    Driven delegating 1
      { oneGenerator .asking with
        world := (oneGenerator .asking).world.set 1 { executor := .user .delegating } }
      [3, 5, 8] [.ok (some 7), .ok (some 5), .ok (some 42)] d' ∧
      ∀ g, g ≠ 1 → d'.world.gens g = c'.world.gens g := by
  have hconcatenated : ∃ c', Concatenated delegating 42 (oneGenerator .asking) [0] [3, 5, 8]
      [.ok (some 7), .ok (some 5), .ok (some 42)] c' :=
    ⟨_, .value rfl (by decide) ⟨_, rfl, ⟨1, rfl⟩, rfl⟩
      (.value rfl (by decide) ⟨_, rfl, ⟨1, rfl⟩, rfl⟩ (.skip rfl rfl (.finished _ [8])))⟩
  obtain ⟨c', hc'⟩ := hconcatenated
  exact ⟨c',
    yield_from_transparent (oneGenerator_spare .asking) ⟨none, rfl⟩ delegating_delegates hc'⟩

/-- The inner generator throws. The outer one has ended with the same error, and the next call does
not return its result. -/
theorem failing_result_missing : ∃ d₁ d₂ : Config ℕ ℕ Reason DelegateState,
    Delegates delegating 42 .delegating [0] ∧ Returns delegating
      { oneGenerator (.failing .badCast) with
        world := (oneGenerator (.failing .badCast)).world.set 1 { executor := .user .delegating } }
      1 (.next 3) (.error .badCast) d₁ ∧
      d₁.world.Finished 0 ∧ Returns delegating d₁ 1 (.next 5) (.ok none) d₂ :=
  ⟨_, _, delegating_delegates, ⟨_, rfl, ⟨4, rfl⟩, rfl⟩, ⟨_, rfl, rfl⟩, ⟨_, rfl, .refl, rfl⟩⟩

end Libasync.Generator.Machine
