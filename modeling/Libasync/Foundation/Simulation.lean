import Libasync.Foundation.Transcript
import Mathlib.Data.Nat.Notation

/-! # One program on two systems

A system takes the labels that a program chooses and internal ones. The program chooses by what it
sees of the system and by what it has chosen before. When one system does what the other does, but
for internal steps of its own, the program plays the same on both. -/

namespace Libasync.Automaton

variable {σ τ ℓ ο : Type*}

structure System (σ ℓ ο : Type*) where
  start : σ
  step : σ → ℓ → Option σ
  view : σ → ο

/-- The next choice of a program, from what it sees and from its choices so far. -/
abbrev Program (ℓ ο : Type*) := ο → List ℓ → Option ℓ

/-- The program that makes these choices one after the other, whatever it sees. -/
def script (ls : List ℓ) : Program ℓ ο := fun _ choices => ls[choices.length]?

/-- The choices so far, after a step with this label. -/
def noted (internal : ℓ → Bool) (choices : List ℓ) (l : ℓ) : List ℓ :=
  if internal l then choices else choices ++ [l]

namespace System

/-- The label is internal, or it is what the program chooses. -/
def Enabled (M : System σ ℓ ο) (internal : ℓ → Bool) (π : Program ℓ ο) (choices : List ℓ) (s : σ)
    (l : ℓ) : Prop :=
  internal l = false → π (M.view s) choices = some l

/-- The states that the system comes to with the program, and the choices made by then. -/
inductive Plays (M : System σ ℓ ο) (internal : ℓ → Bool) (π : Program ℓ ο) : List ℓ → σ → Prop where
  | start : Plays M internal π [] M.start
  | step {choices s l s'} (play : Plays M internal π choices s)
      (enabled : M.Enabled internal π choices s l) (step_eq : M.step s l = some s') :
      Plays M internal π (noted internal choices l) s'

/-- Every step that the system makes with the program meets `guard`. -/
def Guarded (M : System σ ℓ ο) (internal : ℓ → Bool) (π : Program ℓ ο) (guard : σ → ℓ → Prop) :
    Prop :=
  ∀ choices s l s', M.Plays internal π choices s → M.Enabled internal π choices s l →
    M.step s l = some s' → guard s l

/-! ### Rounds -/

/-- What may come next, when `taus` are the internal labels. -/
def offers (M : System σ ℓ ο) (taus : List ℓ) (π : Program ℓ ο) (choices : List ℓ) (s : σ) :
    List ℓ :=
  taus ++ (π (M.view s) choices).toList

/-- The plays of this number of steps. -/
def rounds (M : System σ ℓ ο) (internal : ℓ → Bool) (taus : List ℓ) (π : Program ℓ ο) :
    ℕ → List (List ℓ × σ)
  | 0 => [([], M.start)]
  | n + 1 => (rounds M internal taus π n).flatMap fun (choices, s) =>
      (M.offers taus π choices s).filterMap fun l =>
        (M.step s l).map fun s' => (noted internal choices l, s')

variable {M : System σ ℓ ο} {internal : ℓ → Bool} {taus : List ℓ} {π : Program ℓ ο}
  {choices : List ℓ} {s : σ} {n : ℕ}

theorem enabled_iff (htaus : ∀ l, internal l = true ↔ l ∈ taus) {l : ℓ} :
    M.Enabled internal π choices s l ↔ l ∈ M.offers taus π choices s := by
  simp only [Enabled, offers, List.mem_append, Option.mem_toList, ← htaus]
  cases internal l <;> simp

theorem mem_rounds_succ {n : ℕ} : (choices, s) ∈ M.rounds internal taus π (n + 1) ↔
    ∃ choices₀ s₀ l, (choices₀, s₀) ∈ M.rounds internal taus π n ∧
      l ∈ M.offers taus π choices₀ s₀ ∧ M.step s₀ l = some s ∧
        noted internal choices₀ l = choices := by
  simp only [rounds, List.mem_flatMap, List.mem_filterMap, Option.map_eq_some_iff, Prod.mk.injEq,
    Prod.exists]
  constructor
  · rintro ⟨choices₀, s₀, hmem, l, hl, s', hstep, hnoted, rfl⟩
    exact ⟨choices₀, s₀, l, hmem, hl, hstep, hnoted⟩
  · rintro ⟨choices₀, s₀, l, hmem, hl, hstep, hnoted⟩
    exact ⟨choices₀, s₀, hmem, l, hl, s, hstep, hnoted, rfl⟩

theorem plays_iff_rounds (htaus : ∀ l, internal l = true ↔ l ∈ taus) :
    M.Plays internal π choices s ↔ ∃ n, (choices, s) ∈ M.rounds internal taus π n := by
  constructor
  · intro hplay
    induction hplay with
    | start => exact ⟨0, List.mem_singleton_self _⟩
    | step play enabled step_eq ih =>
        obtain ⟨n, hmem⟩ := ih
        have hoffer := (enabled_iff htaus).mp enabled
        exact ⟨n + 1, mem_rounds_succ.mpr ⟨_, _, _, hmem, hoffer, step_eq, rfl⟩⟩
  · rintro ⟨n, hmem⟩
    induction n generalizing choices s with
    | zero =>
        obtain ⟨rfl, rfl⟩ := Prod.mk.inj (List.mem_singleton.mp hmem)
        exact .start
    | succ n ih =>
        obtain ⟨choices₀, s₀, l, hmem₀, hoffer, hstep, rfl⟩ := mem_rounds_succ.mp hmem
        exact (ih hmem₀).step ((enabled_iff htaus).mpr hoffer) hstep

/-- When no play has `n` steps, all plays are found in the rounds before. -/
theorem Plays.mem_rounds_lt (htaus : ∀ l, internal l = true ↔ l ∈ taus)
    (hend : M.rounds internal taus π n = []) (hplay : M.Plays internal π choices s) :
    ∃ k < n, (choices, s) ∈ M.rounds internal taus π k := by
  have hnil : ∀ k, M.rounds internal taus π (n + k) = [] := by
    intro k
    induction k with
    | zero => exact hend
    | succ k ih => rw [← Nat.add_assoc, rounds, ih, List.flatMap_nil]
  obtain ⟨k, hmem⟩ := (plays_iff_rounds htaus).mp hplay
  refine ⟨k, Nat.lt_of_not_le fun hle => ?_, hmem⟩
  obtain ⟨rest, rfl⟩ := Nat.exists_eq_add_of_le hle
  simp [hnil rest] at hmem

/-- The guard is met when it is met by all offers in the rounds. -/
theorem guarded_of_rounds {guard : σ → ℓ → Prop} (htaus : ∀ l, internal l = true ↔ l ∈ taus)
    (hend : M.rounds internal taus π n = [])
    (hguard : ∀ k < n, ∀ play ∈ M.rounds internal taus π k,
      ∀ l ∈ M.offers taus π play.1 play.2, guard play.2 l) : M.Guarded internal π guard := by
  intro choices s l s' hplay henabled _
  obtain ⟨k, hk, hmem⟩ := hplay.mem_rounds_lt htaus hend
  exact hguard k hk (choices, s) hmem l ((enabled_iff htaus).mp henabled)

end System

/-- The second system does what the first one does when the first one does not stutter. A stutter
is an internal step that decreases a measure. -/
structure Simulation (M : System σ ℓ ο) (N : System τ ℓ ο) (internal : ℓ → Bool)
    (guard : σ → ℓ → Prop) (R : σ → τ → Prop) (stutters : σ → Bool) (μ : σ → ℕ) : Prop where
  start : R M.start N.start
  view : ∀ s t, R s t → N.view t = M.view s
  lockstep : ∀ s t l, R s t → stutters s = false →
    Option.Rel (fun s' t' => guard s l → R s' t') (M.step s l) (N.step t l)
  progress : ∀ s t, R s t → stutters s = true → ∃ l s', internal l = true ∧ M.step s l = some s'
  stutter : ∀ s t l s', R s t → stutters s = true → M.step s l = some s' →
    internal l = true ∧ (guard s l → R s' t ∧ μ s' < μ s)

namespace Simulation

variable {M : System σ ℓ ο} {N : System τ ℓ ο} {internal : ℓ → Bool} {guard : σ → ℓ → Prop}
  {R : σ → τ → Prop} {stutters : σ → Bool} {μ : σ → ℕ} {π : Program ℓ ο} {choices : List ℓ}

/-- The second system can play as the first one. -/
theorem plays_right (h : Simulation M N internal guard R stutters μ)
    (hguard : M.Guarded internal π guard) {s : σ} (hplay : M.Plays internal π choices s) :
    ∃ t, N.Plays internal π choices t ∧ R s t := by
  induction hplay with
  | start => exact ⟨N.start, .start, h.start⟩
  | step play enabled step_eq ih =>
      rename_i choices s l s'
      obtain ⟨t, ht, hR⟩ := ih
      have hg := hguard _ _ _ _ play enabled step_eq
      cases hstutters : stutters s with
      | true =>
          obtain ⟨hinternal, hkeeps⟩ := h.stutter s t l s' hR hstutters step_eq
          refine ⟨t, ?_, (hkeeps hg).1⟩
          simpa [noted, hinternal] using ht
      | false =>
          rcases rel_cases (h.lockstep s t l hR hstutters) with ⟨hnone, -⟩ | ⟨u, t', hs, ht', hnext⟩
          · simp [hnone] at step_eq
          · obtain rfl := Option.some.inj (hs.symm.trans step_eq)
            refine ⟨t', .step ht (fun hl => ?_) ht', hnext hg⟩
            rw [h.view s t hR]
            exact enabled hl

/-- The first system goes on until it does not stutter. -/
theorem catches_up (h : Simulation M N internal guard R stutters μ)
    (hguard : M.Guarded internal π guard) {s : σ} {t : τ} (hplay : M.Plays internal π choices s)
    (hR : R s t) : ∃ s', M.Plays internal π choices s' ∧ R s' t ∧ stutters s' = false := by
  induction hn : μ s using Nat.strongRecOn generalizing s with
  | ind n ih =>
      cases hstutters : stutters s with
      | false => exact ⟨s, hplay, hR, hstutters⟩
      | true =>
          obtain ⟨l, s', hinternal, hstep⟩ := h.progress s t hR hstutters
          have henabled : M.Enabled internal π choices s l := by simp [System.Enabled, hinternal]
          have hg := hguard _ _ _ _ hplay henabled hstep
          obtain ⟨hR', hlt⟩ := (h.stutter s t l s' hR hstutters hstep).2 hg
          have hplay' := hplay.step henabled hstep
          rw [noted, if_pos hinternal] at hplay'
          exact ih (μ s') (hn ▸ hlt) hplay' hR' rfl

/-- The first system can play as the second one. -/
theorem plays_left (h : Simulation M N internal guard R stutters μ)
    (hguard : M.Guarded internal π guard) {t : τ} (hplay : N.Plays internal π choices t) :
    ∃ s, M.Plays internal π choices s ∧ R s t := by
  induction hplay with
  | start => exact ⟨M.start, .start, h.start⟩
  | step play enabled step_eq ih =>
      rename_i choices t l t'
      obtain ⟨s₀, hs₀, hR₀⟩ := ih
      obtain ⟨s, hs, hR, hstutters⟩ := h.catches_up hguard hs₀ hR₀
      rcases rel_cases (h.lockstep s t l hR hstutters) with ⟨-, hnone⟩ | ⟨s', u, hs', ht, hnext⟩
      · simp [hnone] at step_eq
      · obtain rfl := Option.some.inj (ht.symm.trans step_eq)
        have henabled : M.Enabled internal π choices s l := by
          intro hl
          rw [← h.view s t hR]
          exact enabled hl
        exact ⟨s', hs.step henabled hs', hnext (hguard _ _ _ _ hs henabled hs')⟩

end Simulation

end Libasync.Automaton
