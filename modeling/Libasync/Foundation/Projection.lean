import Libasync.Foundation.Run
import Libasync.Foundation.Transcript

/-! # Runs of one machine read as runs of another

A step of the first machine stands for a list of labels of the second one, which may be empty. When
every step is matched by a run of its labels, so is every run. -/

namespace Libasync.Automaton

variable {σ τ ℓ κ : Type*}

/-- The labels of the second machine that the steps of a run stand for. -/
def projected (step : σ → ℓ → Option σ) (labels : σ → ℓ → List κ) : σ → List ℓ → List κ
  | _, [] => []
  | s, l :: ls =>
      labels s l ++ match step s l with
        | none => []
        | some t => projected step labels t ls

/-- Every guarded step of the first machine is a run of its labels on the second one, in which
every step meets the second guard. -/
def Projects (step : σ → ℓ → Option σ) (step' : τ → κ → Option τ) (labels : σ → ℓ → List κ)
    (guard : σ → ℓ → Prop) (guard' : τ → κ → Prop) (R : σ → τ → Prop) : Prop :=
  ∀ s l s' t, R s t → guard s l → step s l = some s' →
    ∃ t', run step' t (labels s l) = some t' ∧ EachStep step' guard' t (labels s l) ∧ R s' t'

variable {step : σ → ℓ → Option σ} {step' : τ → κ → Option τ} {labels : σ → ℓ → List κ}
  {guard : σ → ℓ → Prop} {guard' : τ → κ → Prop} {R : σ → τ → Prop}

theorem projected_cons {s t : σ} {l : ℓ} (h : step s l = some t) (ls : List ℓ) :
    projected step labels s (l :: ls) = labels s l ++ projected step labels t ls := by
  simp only [projected, h]

theorem projected_append {s t : σ} {before : List ℓ} (h : run step s before = some t)
    (after : List ℓ) : projected step labels s (before ++ after) =
      projected step labels s before ++ projected step labels t after := by
  induction before generalizing s with
  | nil =>
      obtain rfl := Option.some.inj h
      rfl
  | cons l before ih =>
      obtain ⟨u, hu, hrun⟩ := run_cons_eq_some step h
      rw [List.cons_append, projected_cons hu, projected_cons hu, ih hrun, List.append_assoc]

/-- Guarded runs that follow each other. -/
theorem EachStep.append {t t' : τ} {before after : List κ} (h : EachStep step' guard' t before)
    (ht : run step' t before = some t') (h' : EachStep step' guard' t' after) :
    EachStep step' guard' t (before ++ after) := by
  induction before generalizing t with
  | nil =>
      obtain rfl := Option.some.inj ht
      exact h'
  | cons k before ih =>
      obtain ⟨u, hu, hrun⟩ := run_cons_eq_some step' ht
      refine eachStep_cons_iff.mpr ⟨h.head, fun v hv => ?_⟩
      obtain rfl := Option.some.inj (hu.symm.trans hv)
      exact ih (h.tail hu) hrun

theorem eachStep_singleton {t : τ} {k : κ} (h : guard' t k) : EachStep step' guard' t [k] :=
  eachStep_cons_iff.mpr ⟨h, fun u _ => eachStep_nil guard' u⟩

/-- A guarded run of the first machine is a guarded run of its labels on the second one. -/
theorem Projects.run (h : Projects step step' labels guard guard' R) {s s' : σ} {t : τ}
    {ls : List ℓ} (hR : R s t) (hguard : EachStep step guard s ls)
    (hrun : Automaton.run step s ls = some s') :
    ∃ t', Automaton.run step' t (projected step labels s ls) = some t' ∧
      EachStep step' guard' t (projected step labels s ls) ∧ R s' t' := by
  induction ls generalizing s t with
  | nil =>
      obtain rfl := Option.some.inj hrun
      exact ⟨t, rfl, eachStep_nil guard' t, hR⟩
  | cons l ls ih =>
      obtain ⟨u, hu, hrun⟩ := run_cons_eq_some step hrun
      obtain ⟨t₁, ht₁, hguard₁, hR₁⟩ := h s l u t hR hguard.head hu
      obtain ⟨t', ht', hguard', hR'⟩ := ih hR₁ (hguard.tail hu) hrun
      rw [projected_cons hu]
      refine ⟨t', ?_, hguard₁.append ht₁ hguard', hR'⟩
      rw [run_append, ht₁, Option.bind_some, ht']

/-- When every step is matched by a run of labels that it reads, a run reads one block of labels
after the other. -/
theorem run_blocks {reads : ℓ → List κ → Prop}
    (h : ∀ s l s' t, R s t → step s l = some s' →
      ∃ ks t', reads l ks ∧ run step' t ks = some t' ∧ R s' t') {s s' : σ} {t : τ} {ls : List ℓ}
    (hR : R s t) (hrun : Automaton.run step s ls = some s') :
    ∃ blocks t', List.Forall₂ reads ls blocks ∧ run step' t blocks.flatten = some t' ∧
      R s' t' := by
  induction ls generalizing s t with
  | nil =>
      obtain rfl := Option.some.inj hrun
      exact ⟨[], t, .nil, rfl, hR⟩
  | cons l ls ih =>
      obtain ⟨u, hu, hrun⟩ := run_cons_eq_some step hrun
      obtain ⟨ks, t₁, hreads, ht₁, hR₁⟩ := h s l u t hR hu
      obtain ⟨blocks, t', hblocks, ht', hR'⟩ := ih hR₁ hrun
      refine ⟨ks :: blocks, t', .cons hreads hblocks, ?_, hR'⟩
      rw [List.flatten_cons, run_append, ht₁, Option.bind_some, ht']

/-- Machines that take each step together run together. -/
theorem run_rel {f : ℓ → κ} {R : σ → τ → Prop}
    (h : ∀ s t l, R s t → Option.Rel R (step s l) (step' t (f l))) {s : σ} {t : τ} (hR : R s t)
    (ls : List ℓ) : Option.Rel R (Automaton.run step s ls) (Automaton.run step' t (ls.map f)) := by
  induction ls generalizing s t with
  | nil => exact .some hR
  | cons l ls ih =>
      rw [List.map_cons, run_cons, run_cons]
      rcases rel_cases (h s t l hR) with ⟨hs, ht⟩ | ⟨s', t', hs, ht, hnext⟩
      · rw [hs, ht]
        exact .none
      · rw [hs, ht]
        exact ih hnext

end Libasync.Automaton
