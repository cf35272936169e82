import Mathlib.Logic.Basic

/-! # What a machine answers

A machine that gives an output for each input. Two states are the same to its user when every list
of inputs gets the same answers. -/

namespace Libasync.Automaton

variable {σ ι ο : Type*} (step : σ → ι → Option (σ × ο))

/-- The outputs for a list of inputs; `none` once an input is not possible. -/
def transcript : σ → List ι → Option (List ο)
  | _, [] => some []
  | s, input :: inputs =>
      (step s input).bind fun (t, output) => (transcript t inputs).map (output :: ·)

/-- Related states accept the same inputs, with the same output, and stay related. -/
def Bisimulation (R : σ → σ → Prop) : Prop :=
  ∀ s t input, R s t →
    Option.Rel (fun a b => R a.1 b.1 ∧ a.2 = b.2) (step s input) (step t input)

variable {step}

theorem rel_cases {α β : Type*} {R : α → β → Prop} {x : Option α} {y : Option β}
    (h : Option.Rel R x y) :
    x = none ∧ y = none ∨ ∃ a b, x = some a ∧ y = some b ∧ R a b := by
  cases h with
  | none => exact .inl ⟨rfl, rfl⟩
  | some hab => exact .inr ⟨_, _, rfl, rfl, hab⟩

theorem Bisimulation.transcript_eq {R : σ → σ → Prop} (h : Bisimulation step R) {s t : σ}
    (hR : R s t) (inputs : List ι) : transcript step s inputs = transcript step t inputs := by
  induction inputs generalizing s t with
  | nil => rfl
  | cons input inputs ih =>
      rcases rel_cases (h s t input hR) with ⟨hs, ht⟩ | ⟨a, b, hs, ht, hnext, houtput⟩
      · simp only [transcript, hs, ht]
      · simp only [transcript, hs, ht, Option.bind_some, ih hnext, houtput]

end Libasync.Automaton
