import Mathlib.Data.List.Infix

/-! # Runs of a labelled machine

A machine is a partial step function. Every choice that its environment makes is in the
label, so a list of labels determines a run, and what holds of every run is stated over all
lists of labels. -/

namespace Libasync.Automaton

variable {σ ℓ : Type*} (step : σ → ℓ → Option σ)

/-- Follow the labels in order; `none` once a label is not enabled. -/
def run : σ → List ℓ → Option σ
  | s, [] => some s
  | s, l :: ls => (step s l).bind fun s' => run s' ls

/-- `t` is one of the states that the run of `ls` from `s` passes through. -/
def Visits (s : σ) (ls : List ℓ) (t : σ) : Prop :=
  ∃ before, before <+: ls ∧ run step s before = some t

/-- Every step of the run meets `guard` at the state it leaves. -/
def EachStep (guard : σ → ℓ → Prop) (s : σ) (ls : List ℓ) : Prop :=
  ∀ before l after t, ls = before ++ l :: after → run step s before = some t → guard t l

/-- Some step of the run meets `P` at the state it leaves. -/
def SomeStep (P : σ → ℓ → Prop) (s : σ) (ls : List ℓ) : Prop :=
  ∃ before l after t, ls = before ++ l :: after ∧ run step s before = some t ∧ P t l

/-- What an observer notes at the steps of a run. -/
def observed {α : Type*} (note : σ → ℓ → Option α) : σ → List ℓ → List α
  | _, [] => []
  | s, l :: ls =>
      (note s l).toList ++ match step s l with
        | none => []
        | some t => observed note t ls

@[simp] theorem run_nil (s : σ) : run step s [] = some s := rfl

theorem run_cons (s : σ) (l : ℓ) (ls : List ℓ) :
    run step s (l :: ls) = (step s l).bind fun s' => run step s' ls := rfl

theorem run_append (s : σ) (before after : List ℓ) :
    run step s (before ++ after) = (run step s before).bind fun t => run step t after := by
  induction before generalizing s with
  | nil => rfl
  | cons l before ih =>
      simp only [List.cons_append, run_cons]
      cases step s l with
      | none => rfl
      | some s' => exact ih s'

theorem run_append_eq_some {s u : σ} {before after : List ℓ}
    (h : run step s (before ++ after) = some u) :
    ∃ t, run step s before = some t ∧ run step t after = some u := by
  rw [run_append] at h
  exact Option.bind_eq_some_iff.mp h

theorem run_cons_eq_some {s u : σ} {l : ℓ} {ls : List ℓ} (h : run step s (l :: ls) = some u) :
    ∃ t, step s l = some t ∧ run step t ls = some u :=
  Option.bind_eq_some_iff.mp h

theorem run_concat {s t u : σ} {l : ℓ} {ls : List ℓ} (h : run step s ls = some t)
    (hl : step t l = some u) : run step s (ls ++ [l]) = some u := by
  simp [run_append, h, run_cons, hl]

theorem observed_append {α : Type*} (note : σ → ℓ → Option α) {s t : σ} {before : List ℓ}
    (h : run step s before = some t) (after : List ℓ) :
    observed step note s (before ++ after) =
      observed step note s before ++ observed step note t after := by
  induction before generalizing s with
  | nil =>
      obtain rfl := Option.some.inj h
      rfl
  | cons l before ih =>
      obtain ⟨u, hu, hrun⟩ := run_cons_eq_some step h
      simp only [List.cons_append, observed, hu, ih hrun, List.append_assoc]

theorem observed_singleton {α : Type*} (note : σ → ℓ → Option α) (s : σ) (l : ℓ) :
    observed step note s [l] = (note s l).toList := by
  simp only [observed]
  split <;> exact List.append_nil _

theorem observed_concat {α : Type*} (note : σ → ℓ → Option α) {s t : σ} {ls : List ℓ}
    (h : run step s ls = some t) (l : ℓ) :
    observed step note s (ls ++ [l]) = observed step note s ls ++ (note t l).toList := by
  rw [observed_append step note h, observed_singleton]

variable {step}

theorem Visits.start (s : σ) (ls : List ℓ) : Visits step s ls s :=
  ⟨[], List.nil_prefix, rfl⟩

theorem Visits.last {s t : σ} {ls : List ℓ} (h : run step s ls = some t) :
    Visits step s ls t :=
  ⟨ls, List.prefix_rfl, h⟩

theorem Visits.cons {s t u : σ} {l : ℓ} {ls : List ℓ} (hl : step s l = some t)
    (h : Visits step t ls u) : Visits step s (l :: ls) u := by
  obtain ⟨before, hb, hr⟩ := h
  refine ⟨l :: before, (List.cons_prefix_cons).mpr ⟨rfl, hb⟩, ?_⟩
  simp [run_cons, hl, hr]

theorem EachStep.head {guard : σ → ℓ → Prop} {s : σ} {l : ℓ} {ls : List ℓ}
    (h : EachStep step guard s (l :: ls)) : guard s l :=
  h [] l ls s rfl rfl

theorem EachStep.tail {guard : σ → ℓ → Prop} {s t : σ} {l : ℓ} {ls : List ℓ}
    (h : EachStep step guard s (l :: ls)) (hl : step s l = some t) :
    EachStep step guard t ls := by
  intro before l' after u hls hr
  exact h (l :: before) l' after u (by simp [hls]) (by simp [run_cons, hl, hr])

theorem eachStep_nil (guard : σ → ℓ → Prop) (s : σ) : EachStep step guard s [] := by
  intro before l after t hls _
  simp at hls

theorem eachStep_cons_iff {guard : σ → ℓ → Prop} {s : σ} {l : ℓ} {ls : List ℓ} :
    EachStep step guard s (l :: ls) ↔
      guard s l ∧ ∀ t, step s l = some t → EachStep step guard t ls := by
  refine ⟨fun h => ⟨h.head, fun t ht => h.tail ht⟩, ?_⟩
  rintro ⟨hhead, htail⟩ before l' after t hls hr
  cases before with
  | nil =>
      obtain ⟨rfl, rfl⟩ := List.cons.inj hls
      obtain rfl := Option.some.inj hr
      exact hhead
  | cons k before =>
      obtain ⟨rfl, hrest⟩ := List.cons.inj hls
      obtain ⟨u, hu, hr⟩ := run_cons_eq_some step hr
      exact htail u hu before l' after t hrest hr

instance decidableEachStep (guard : σ → ℓ → Prop) [∀ s l, Decidable (guard s l)] :
    ∀ (s : σ) (ls : List ℓ), Decidable (EachStep step guard s ls)
  | s, [] => isTrue (eachStep_nil guard s)
  | s, l :: ls =>
      match h : step s l with
      | none => decidable_of_iff (guard s l) (by simp [eachStep_cons_iff, h])
      | some t =>
          have := decidableEachStep guard t ls
          decidable_of_iff (guard s l ∧ EachStep step guard t ls) (by simp [eachStep_cons_iff, h])

theorem EachStep.of_prefix {guard : σ → ℓ → Prop} {s : σ} {before ls : List ℓ}
    (h : EachStep step guard s ls) (hb : before <+: ls) : EachStep step guard s before := by
  obtain ⟨rest, rfl⟩ := hb
  intro front l after t hls hr
  exact h front l (after ++ rest) t (by simp [hls]) hr

theorem EachStep.of_append {guard : σ → ℓ → Prop} {s t : σ} {before ls : List ℓ}
    (h : EachStep step guard s (before ++ ls)) (ht : run step s before = some t) :
    EachStep step guard t ls := by
  intro front l after u hls hu
  apply h (before ++ front) l after u (by simp [hls])
  rw [run_append, ht, Option.bind_some, hu]

theorem EachStep.concat {guard : σ → ℓ → Prop} {s t : σ} {ls : List ℓ} {l : ℓ}
    (h : EachStep step guard s ls) (ht : run step s ls = some t) (hl : guard t l) :
    EachStep step guard s (ls ++ [l]) := by
  intro before l' after u hls hu
  induction after using List.reverseRecOn with
  | nil =>
      obtain ⟨rfl, hlast⟩ := List.append_inj' hls rfl
      obtain rfl := List.singleton_inj.mp hlast
      obtain rfl := Option.some.inj (ht.symm.trans hu)
      exact hl
  | append_singleton after x _ =>
      rw [← List.cons_append, ← List.append_assoc] at hls
      exact h before l' after u (List.append_inj' hls rfl).1 hu

theorem eachStep_concat_iff {guard : σ → ℓ → Prop} {s t : σ} {ls : List ℓ} {l : ℓ}
    (ht : run step s ls = some t) :
    EachStep step guard s (ls ++ [l]) ↔ EachStep step guard s ls ∧ guard t l :=
  ⟨fun h => ⟨h.of_prefix (List.prefix_append ls [l]), h ls l [] t rfl ht⟩,
    fun ⟨h, hl⟩ => h.concat ht hl⟩

/-- An invariant of the guarded steps holds at the end of every guarded run. -/
theorem run_invariant {guard : σ → ℓ → Prop} {I : σ → Prop}
    (hstep : ∀ s l s', I s → guard s l → step s l = some s' → I s') {s t : σ} {ls : List ℓ}
    (hs : I s) (hg : EachStep step guard s ls) (hr : run step s ls = some t) : I t := by
  induction ls generalizing s with
  | nil =>
      obtain rfl := Option.some.inj hr
      exact hs
  | cons l ls ih =>
      obtain ⟨s', hl, hr⟩ := run_cons_eq_some step hr
      exact ih (hstep s l s' hs hg.head hl) (hg.tail hl) hr

/-- Two guards that agree on the steps from the states of an invariant hold of the same runs. -/
theorem eachStep_congr {g g' : σ → ℓ → Prop} {I : σ → Prop}
    (hstep : ∀ s l s', I s → step s l = some s' → I s')
    (hg : ∀ s l s', I s → step s l = some s' → (g s l ↔ g' s l)) {s t : σ} {ls : List ℓ}
    (hs : I s) (hr : run step s ls = some t) : EachStep step g s ls ↔ EachStep step g' s ls := by
  induction ls generalizing s with
  | nil => exact ⟨fun _ => eachStep_nil g' s, fun _ => eachStep_nil g s⟩
  | cons l ls ih =>
      obtain ⟨s', hl, hr⟩ := run_cons_eq_some step hr
      have hrest := ih (hstep s l s' hs hl) hr
      simp only [eachStep_cons_iff, hg s l s' hs hl, hl, Option.some.injEq, forall_eq', hrest]

/-- An invariant of all steps holds at the end of every run. -/
theorem run_invariant_of_step {I : σ → Prop}
    (hstep : ∀ s l s', I s → step s l = some s' → I s') {s t : σ} {ls : List ℓ}
    (hs : I s) (hr : run step s ls = some t) : I t := by
  have hg : EachStep step (fun _ _ => True) s ls := fun _ _ _ _ _ _ => trivial
  exact run_invariant (fun s l s' h _ => hstep s l s' h) hs hg hr

theorem not_someStep_nil (P : σ → ℓ → Prop) (s : σ) : ¬ SomeStep step P s [] := by
  rintro ⟨before, l, after, t, hls, -⟩
  simp at hls

theorem someStep_concat {P : σ → ℓ → Prop} {s t : σ} {ls : List ℓ} {l : ℓ}
    (ht : run step s ls = some t) :
    SomeStep step P s (ls ++ [l]) ↔ SomeStep step P s ls ∨ P t l := by
  constructor
  · rintro ⟨before, l', after, u, hls, hu, hP⟩
    induction after using List.reverseRecOn with
    | nil =>
        obtain ⟨rfl, hl⟩ := List.append_inj' hls rfl
        obtain rfl := List.singleton_inj.mp hl
        obtain rfl := Option.some.inj (ht.symm.trans hu)
        exact .inr hP
    | append_singleton after x _ =>
        rw [← List.cons_append, ← List.append_assoc] at hls
        exact .inl ⟨before, l', after, u, (List.append_inj' hls rfl).1, hu, hP⟩
  · rintro (⟨before, l', after, u, hls, hu, hP⟩ | hP)
    · exact ⟨before, l', after ++ [l], u, by simp [hls], hu, hP⟩
    · exact ⟨ls, l, [], t, rfl, ht, hP⟩

/-- A property of the states that a run reaches, which the guarded steps keep. -/
theorem reached_of_eachStep {guard : σ → ℓ → Prop} {I : List ℓ → σ → Prop} {s t : σ} (hs : I [] s)
    (hkeep : ∀ ls u l v, run step s ls = some u → I ls u → guard u l → step u l = some v →
      I (ls ++ [l]) v) {ls : List ℓ} (hguard : EachStep step guard s ls)
    (hr : run step s ls = some t) : I ls t := by
  induction ls using List.reverseRecOn generalizing t with
  | nil =>
      obtain rfl := Option.some.inj hr
      exact hs
  | append_singleton ls l ih =>
      obtain ⟨u, hu, hlast⟩ := run_append_eq_some step hr
      obtain ⟨v, hv, hnil⟩ := run_cons_eq_some step hlast
      obtain rfl := Option.some.inj hnil
      have hbefore : EachStep step guard s ls := hguard.of_prefix (List.prefix_append ls [l])
      exact hkeep ls u l v hu (ih hbefore hu) (hguard ls l [] u rfl hu) hv

/-- A property of the states that a run reaches, which the guarded steps keep and every unguarded
step breaks. -/
theorem reached_iff_eachStep {guard : σ → ℓ → Prop} {I : List ℓ → σ → Prop} {s t : σ}
    (hs : I [] s)
    (hkeep : ∀ ls u l v, run step s ls = some u → I ls u → guard u l → step u l = some v →
      I (ls ++ [l]) v)
    (hbreak : ∀ ls u l v, run step s ls = some u → step u l = some v → I (ls ++ [l]) v → guard u l)
    {ls : List ℓ} (hr : run step s ls = some t) :
    (∀ before u, before <+: ls → run step s before = some u → I before u) ↔
      EachStep step guard s ls := by
  constructor
  · intro hall before l after u hls hu
    rw [hls] at hr
    obtain ⟨u', hu', hr⟩ := run_append_eq_some step hr
    obtain rfl := Option.some.inj (hu.symm.trans hu')
    obtain ⟨v, hv, -⟩ := run_cons_eq_some step hr
    refine hbreak before u l v hu hv (hall _ v ?_ (run_concat step hu hv))
    rw [hls]
    exact ⟨after, by simp⟩
  · intro hguard before u hbefore hu
    exact reached_of_eachStep hs hkeep (hguard.of_prefix hbefore) hu

/-- When every guarded step decreases a measure, the measure bounds the length of a guarded run. -/
theorem length_le_measure {guard : σ → ℓ → Prop} {I : σ → Prop} {μ : σ → ℕ}
    (hstep : ∀ s l s', I s → guard s l → step s l = some s' → I s' ∧ μ s' < μ s) {s t : σ}
    {ls : List ℓ} (hs : I s) (hg : EachStep step guard s ls) (hr : run step s ls = some t) :
    ls.length + μ t ≤ μ s := by
  induction ls generalizing s with
  | nil =>
      obtain rfl := Option.some.inj hr
      simp
  | cons l ls ih =>
      obtain ⟨u, hl, hr⟩ := run_cons_eq_some step hr
      obtain ⟨hu, hlt⟩ := hstep s l u hs hg.head hl
      have hrest := ih hu (hg.tail hl) hr
      rw [List.length_cons]
      omega

/-- When every unguarded step spoils the state for good, the states that a run ends in tell
whether all its steps were guarded. -/
theorem eachStep_iff_not {guard : σ → ℓ → Prop} {I B : σ → Prop}
    (hgood : ∀ s l s', I s → guard s l → step s l = some s' → I s')
    (hspoils : ∀ s l s', I s → ¬ guard s l → step s l = some s' → B s')
    (hstays : ∀ s l s', B s → step s l = some s' → B s')
    (hI : ∀ s, I s → ¬ B s) {s t : σ} {ls : List ℓ} (hs : I s)
    (hr : run step s ls = some t) : EachStep step guard s ls ↔ ¬ B t := by
  induction ls generalizing s with
  | nil =>
      obtain rfl := Option.some.inj hr
      exact ⟨fun _ => hI s hs, fun _ => eachStep_nil guard s⟩
  | cons l ls ih =>
      obtain ⟨u, hl, hr⟩ := run_cons_eq_some step hr
      by_cases hg : guard s l
      · rw [← ih (hgood s l u hs hg hl) hr, eachStep_cons_iff]
        simp [hg, hl]
      · have hbad : B t := run_invariant_of_step hstays (hspoils s l u hs hg hl) hr
        exact ⟨fun h => absurd h.head hg, fun h => absurd hbad h⟩

/-- Labels whose steps change nothing can be left out of a run. -/
theorem run_filter {keep : ℓ → Bool} {s t : σ} {ls : List ℓ}
    (h : EachStep step (fun s l => keep l = false → step s l = some s) s ls)
    (hr : run step s ls = some t) : run step s (ls.filter keep) = some t := by
  induction ls generalizing s with
  | nil => exact hr
  | cons l ls ih =>
      obtain ⟨u, hu, hr⟩ := run_cons_eq_some step hr
      have hrest := ih (h.tail hu) hr
      cases hk : keep l with
      | true => simpa [List.filter_cons_of_pos hk, run_cons, hu] using hrest
      | false =>
          obtain rfl : s = u := Option.some.inj ((h.head hk).symm.trans hu)
          simpa [List.filter_cons_of_neg (by simp [hk] : ¬ keep l = true)] using hrest

end Libasync.Automaton
