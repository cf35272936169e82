import Libasync.Promise.Derived
import Libasync.Promise.Graph

/-! # Outcomes do not depend on the schedule

Whatever the order of the calls, a promise of a graph takes over the outcome of one other promise,
at once, by a queued handler or by an internal callback. So every settled promise has the outcome
that the graph denotes, and when nothing is left to do every promise that has one is settled. -/

namespace Libasync.Promise

open Automaton Foundation

variable {ν V E F : Type*}

/-! ### What settles a promise that is associated with another one -/

theorem State.associateStatus_settled {s : State V E F} {p inner : Ref} {status : PromiseStatus V E}
    (hp : s.status? p = some .pending) (h : (s.associateStatus p inner).status? p = some status)
    (hne : status ≠ .pending) : s.status? inner = some status := by
  cases hinner : s.get? inner with
  | none =>
      simp only [associateStatus, hinner, Option.map_none, hp, Option.some.injEq] at h
      exact absurd h.symm hne
  | some data =>
      by_cases hpending : data.status = .pending
      · have hsame : (s.associateStatus p inner).status? p = s.status? p := by
          by_cases hx : p = inner
          · simp [associateStatus, status?, hinner, hpending, hx]
          · simp [associateStatus, status?, hinner, hpending, hx]
        rw [hsame, hp] at h
        exact absurd (Option.some.inj h).symm hne
      · rw [associateStatus_eq hinner hpending, adoptStatus_status? hp hpending] at h
        simp [status?, hinner, Option.some.inj h]

variable [Blank V] [FnTrait F E]

/-- The status that a derived promise has got from an answer other than a promise. -/
theorem Taking.status_eq {p q : Ref} {f : F} {s₁ : State V E F} {c : Config V E F}
    {result : Outcome V E} {status : PromiseStatus V E} (h : Taking p q f s₁ c result)
    (hresult : result.status? = some status) : c.state.status? q = some status := by
  cases result with
  | returned value =>
      cases value with
      | promise r => cases hresult
      | value | void =>
          obtain ⟨status', hstatus', hq⟩ := h
          rwa [← Option.some.inj (hstatus'.symm.trans hresult)]
  | threw e =>
      obtain ⟨status', hstatus', hq⟩ := h
      rwa [← Option.some.inj (hstatus'.symm.trans hresult)]

/-- A handler that has ended was called, so its promise has settled on its side. -/
theorem Attached.settledOn {ls : List (Label V E F)} {side : Side} {p q : Ref} {f : F}
    {c : Config V E F} {s₁ : State V E F} {result : Outcome V E} (ha : Attached ls side p f q)
    (he : Ended ls p q f s₁ result) (h : RunsTo ls c) (hm : NoMismatch ls) :
    c.state.SettledOn side p := by
  by_contra hnot
  rcases ha.progress h hm with ⟨-, hnone⟩ | ⟨s, result', -, hserved, -⟩
  · exact hnone s₁ result he
  · obtain ⟨e, he, hcall⟩ := hserved.1
    exact (ha.waiting h hnot).uncalled e he hcall

namespace Graph

variable [DecidableEq ν] {G : Graph ν V E F} {ls : List (Label V E F)}
  {c c' : GraphConfig ν V E F} {label : Label V E F}

/-- The promise has a context of its own. -/
def HasContext (G : Graph ν V E F) (n : ν) : Prop :=
  ∀ side source f, G.node n ≠ .derived side source f

/-- What holds of the promises of the graph after the steps `ls` of the promise module. -/
structure Tracked (G : Graph ν V E F) (ls : List (Label V E F)) (c : GraphConfig ν V E F) :
    Prop where
  reached : RunsTo ls c.config
  matched : NoMismatch ls
  known : ∀ n q, c.ref n = some q → q < c.config.state.heap.length
  injective : ∀ n m q, c.ref n = some q → c.ref m = some q → n = m
  waiting : ∀ n q, G.HasContext n → c.ref n = some q → c.applied n = false →
    Unsettled q (fun _ _ _ => False) c.config
  root : ∀ n settlement, G.node n = .root settlement → c.applied n = true →
    ∃ q, c.ref n = some q ∧ c.config.state.status? q = some settlement.status
  adopter : ∀ n inner, G.node n = .adopter inner → c.applied n = true →
    ∃ q r, c.ref n = some q ∧ c.ref inner = some r ∧ Follows q r c.config
  derived : ∀ n side source f q, G.node n = .derived side source f → c.ref n = some q →
    ∃ p, c.ref source = some p ∧ Attached ls side p f q
  ended : ∀ p q f s₁ result, Ended ls p q f s₁ result →
    ∃ status arg, c.config.state.status? p = some status ∧ status.argFor f = .ok arg ∧
      (G.reply f arg).outcome? c.ref = some result
  denoted : ∀ n q status, c.ref n = some q → c.config.state.status? q = some status →
    status ≠ .pending → G.Denotes n status

omit [Blank V] [DecidableEq ν] in
theorem not_pending_of_argFor {status : PromiseStatus V E} {f : F} {arg : Arg V E}
    (h : status.argFor f = .ok arg) : status ≠ .pending := by
  rintro rfl
  cases h

omit [DecidableEq ν] in
theorem Tracked.initial : G.Tracked [] ({} : GraphConfig ν V E F) where
  reached := rfl
  matched := eachStep_nil _ _
  known _ _ h := by cases h
  injective _ _ _ h := by cases h
  waiting _ _ _ h := by cases h
  root _ _ _ h := by cases h
  adopter _ _ _ h := by cases h
  derived _ _ _ _ _ _ h := by cases h
  ended p q f s₁ result h := by
    obtain ⟨front, rest, i, j, hls, -⟩ := h
    simp at hls
  denoted _ _ _ h := by cases h

/-! ### What a step does to the promises of the graph -/

/-- A context is used by the promise it belongs to, and once. -/
theorem Stepped.context (h : Stepped G c label c') {q : Ref} (hq : label.context? = some q) :
    ∃ n, G.HasContext n ∧ c.ref n = some q ∧ c.applied n = false ∧ c'.applied n = true := by
  cases h with
  | created n op config idle fresh creation step =>
      simp only [creation?] at creation
      split at creation
      · obtain rfl := Option.some.inj creation
        cases hq
      · obtain rfl := Option.some.inj creation
        cases hq
      · obtain ⟨p, -, rfl⟩ := Option.map_eq_some_iff.mp creation
        rename_i side source f hnode
        cases side <;> cases hq
  | applied n op config idle unused application step =>
      simp only [application?] at application
      split at application
      · rename_i settlement hnode
        obtain ⟨q', hn, rfl⟩ := Option.map_eq_some_iff.mp application
        have hsame : q' = q := by
          cases settlement <;> exact Option.some.inj hq
        exact ⟨n, by simp [HasContext, hnode], hsame ▸ hn, unused, by simp⟩
      · rename_i inner hnode
        obtain ⟨q', hn, happ⟩ := Option.bind_eq_some_iff.mp application
        obtain ⟨r, -, rfl⟩ := Option.map_eq_some_iff.mp happ
        obtain rfl := Option.some.inj hq
        exact ⟨n, by simp [HasContext, hnode], hn, unused, by simp⟩
      · cases application
  | finished result config answer step => cases hq
  | internal l config pass step =>
      rcases pass with rfl | rfl | rfl <;> cases hq

theorem Stepped.applied_mono (h : Stepped G c label c') {n : ν} (hn : c.applied n = true) :
    c'.applied n = true := by
  cases h with
  | applied m op config idle unused application step =>
      by_cases hm : n = m
      · simp [hm]
      · simpa [hm] using hn
  | created | finished | internal => exact hn

/-- The context of a promise is used by its call. -/
theorem Stepped.applied_new (h : Stepped G c label c') {n : ν} (hn : c'.applied n = true) :
    c.applied n = true ∨ c.applied n = false ∧ ∃ op, label = .op op ∧
      G.application? c.ref n = some op := by
  cases h with
  | applied m op config idle unused application step =>
      by_cases hm : n = m
      · subst hm
        exact .inr ⟨unused, op, rfl, application⟩
      · exact .inl (by simpa [hm] using hn)
  | created | finished | internal => exact .inl hn

theorem Stepped.unused_before (h : Stepped G c label c') {n : ν} (hn : c'.applied n = false) :
    c.applied n = false := by
  cases hused : c.applied n with
  | false => rfl
  | true => simp [h.applied_mono hused] at hn

/-- The reference of a new promise. -/
theorem Stepped.ref_new (h : Stepped G c label c') {n : ν} {q : Ref} (hn : c'.ref n = some q) :
    c.ref n = some q ∨ c.ref n = none ∧ ∃ op, label = .op op ∧ G.creation? c.ref n = some op ∧
      q = c.config.state.made op := by
  cases h with
  | created m op config idle fresh creation step =>
      by_cases hm : n = m
      · subst hm
        simp only [Function.update_self, Option.some.injEq] at hn
        exact .inr ⟨fresh, op, rfl, creation, hn.symm⟩
      · exact .inl (by simpa [hm] using hn)
  | applied | finished | internal => exact .inl hn

omit [FnTrait F E] [DecidableEq ν] in
theorem made_lt {op : Op V E F} {n : ν} {ref : ν → Option Ref} (s : State V E F)
    (h : G.creation? ref n = some op) :
    s.heap.length ≤ s.made op ∧ s.made op < (s.perform op).heap.length := by
  simp only [creation?] at h
  split at h
  · obtain rfl := Option.some.inj h
    simp [State.made, State.perform, State.create]
  · obtain rfl := Option.some.inj h
    simp [State.made, State.perform, State.create]
  · rename_i side source f hnode
    obtain ⟨p, -, rfl⟩ := Option.map_eq_some_iff.mp h
    cases side
    · exact s.attach_ref .fulfilled p f
    · exact s.attach_ref .rejected p f

omit [Blank V] [FnTrait F E] [DecidableEq ν] in
theorem creation?_of_context {op : Op V E F} {n : ν} {ref : ν → Option Ref} (hn : G.HasContext n)
    (h : G.creation? ref n = some op) : op = .promise := by
  simp only [creation?] at h
  split at h
  · exact (Option.some.inj h).symm
  · exact (Option.some.inj h).symm
  · rename_i hnode
    exact absurd hnode (hn _ _ _)

theorem Stepped.ref_before (h : Stepped G c label c') {n : ν} {q : Ref} (hn : c'.ref n = some q)
    (hlt : q < c.config.state.heap.length) : c.ref n = some q := by
  rcases h.ref_new hn with hold | ⟨-, op, -, creation, rfl⟩
  · exact hold
  · exact absurd hlt (Nat.not_lt.mpr (made_lt c.config.state creation).1)

/-- A step of the schedule is one of the promise module. -/
theorem Stepped.performed (h : Stepped G c label c') {op : Op V E F} (hlabel : label = .op op) :
    c'.config = ⟨c.config.state.perform op, c.config.control⟩ := by
  have hstep := h.step
  subst hlabel
  generalize c.config = before at hstep ⊢
  generalize c'.config = after at hstep ⊢
  cases hstep with
  | op s control o user known => rfl

namespace Tracked

omit [DecidableEq ν] in
/-- The derived promise of a handler that ends with the next step exists. -/
theorem outer_lt (h : Tracked G ls c) {p q : Ref} {f : F} {s₁ : State V E F}
    {result : Outcome V E} (hended : Ended (ls ++ [label]) p q f s₁ result) :
    q < c.config.state.heap.length := by
  rcases (ended_concat h.reached).mp hended with hold | ⟨-, i, j, hconfig⟩
  · exact hold.lt h.reached
  · have hscope : Scoped c.config := h.reached.queueInv.scope
    rw [hconfig] at hscope ⊢
    exact hscope.outer i p j q f rfl

variable (h : Tracked G ls c) (hs : Stepped G c label c') (hm : c.config.failing? = none)
include h hs

theorem known_step {n : ν} {q : Ref} (hn : c'.ref n = some q) :
    q < c'.config.state.heap.length := by
  rcases hs.ref_new hn with hold | ⟨-, op, hlabel, creation, rfl⟩
  · exact Nat.lt_of_lt_of_le (h.known n q hold) (hs.step.length_le h.reached.queueInv.scope)
  · rw [hs.performed hlabel]
    exact (made_lt c.config.state creation).2

theorem injective_step {n m : ν} {q : Ref} (hn : c'.ref n = some q) (hm : c'.ref m = some q) :
    n = m := by
  have hfresh {k : ν} {op : Op V E F} (hk : c.ref k = some q)
      (creation : q = c.config.state.made op ∧ ∃ i, G.creation? c.ref i = some op) : False := by
    obtain ⟨rfl, i, hop⟩ := creation
    exact Nat.not_lt.mpr (made_lt c.config.state hop).1 (h.known k _ hk)
  rcases hs.ref_new hn with hn | ⟨hnew, op, hlabel, creation, hq⟩
  · rcases hs.ref_new hm with hm | ⟨-, op, -, creation, hq⟩
    · exact h.injective n m q hn hm
    · exact (hfresh hn ⟨hq, m, creation⟩).elim
  · rcases hs.ref_new hm with hm | ⟨hnew', op', hlabel', -, -⟩
    · exact (hfresh hm ⟨hq, n, creation⟩).elim
    · cases hs with
      | created k op config idle fresh creation step =>
          by_cases hkn : n = k
          · by_cases hkm : m = k
            · rw [hkn, hkm]
            · simp [hkm, hnew'] at hm
          · simp [hkn, hnew] at hn
      | applied => simp [hnew] at hn
      | finished => simp [hnew] at hn
      | internal => simp [hnew] at hn

/-- A step that goes through the context of a promise is the one that uses it. -/
theorem context_ne {n : ν} {q : Ref} (hn : c.ref n = some q)
    (hother : G.HasContext n → c.applied n = true ∨ c'.applied n = false) :
    label.context? ≠ some q := by
  intro hq
  obtain ⟨m, hcontext, hm, hunused, hused⟩ := hs.context hq
  obtain rfl := h.injective n m q hn hm
  rcases hother hcontext with hother | hother
  · simp [hunused] at hother
  · simp [hused] at hother

theorem derived_step {n source : ν} {side : Side} {f : F} {q : Ref}
    (hnode : G.node n = .derived side source f) (hn : c'.ref n = some q) :
    ∃ p, c'.ref source = some p ∧ Attached (ls ++ [label]) side p f q := by
  rcases hs.ref_new hn with hold | ⟨-, op, hlabel, creation, rfl⟩
  · obtain ⟨p, hp, hattached⟩ := h.derived n side source f q hnode hold
    refine ⟨p, hs.ref_mono hp, hattached.concat (h.context_ne hs hold ?_)⟩
    exact fun hcontext => absurd hnode (hcontext side source f)
  · simp only [creation?, hnode] at creation
    obtain ⟨p, hp, rfl⟩ := Option.map_eq_some_iff.mp creation
    refine ⟨p, hs.ref_mono hp, ls, [], c.config.state, c.config.control, by simp [hlabel],
      h.reached, ?_, by simp⟩
    cases side <;> rfl

/-- The argument and the answer of a handler that has ended. -/
theorem answered {p q : Ref} {f : F} {s₁ : State V E F} {result : Outcome V E}
    (hended : Ended (ls ++ [label]) p q f s₁ result) :
    ∃ status arg, c.config.state.status? p = some status ∧ status.argFor f = .ok arg ∧
      (G.reply f arg).outcome? c.ref = some result := by
  rcases (ended_concat h.reached).mp hended with hold | ⟨rfl, i, j, hconfig⟩
  · exact h.ended p q f s₁ result hold
  · cases hs with
    | finished result config answer step =>
        simp only [answer?, hconfig, Option.bind_eq_some_iff] at answer
        obtain ⟨status, hstatus, hreply⟩ := answer
        rw [hconfig]
        cases harg : status.argFor f with
        | ok arg => exact ⟨status, arg, hstatus, harg, by simpa [harg] using hreply⟩
        | error e => simp [harg] at hreply
    | internal l config pass step => simp at pass

include hm

theorem advances : Advances (fun q => label.context? = some q) (label.Registers c.config.state)
    c.config c'.config :=
  hs.step.advances h.reached.queueInv (h.reached.recorded h.matched) hm

theorem waiting_step {n : ν} {q : Ref} (hcontext : G.HasContext n) (hn : c'.ref n = some q)
    (hunused : c'.applied n = false) : Unsettled q (fun _ _ _ => False) c'.config := by
  rcases hs.ref_new hn with hold | ⟨-, op, hlabel, creation, rfl⟩
  · exact (h.advances hs hm).unsettled q (h.context_ne hs hold fun _ => .inr hunused)
      (h.waiting n q hcontext hold (hs.unused_before hunused))
  · obtain rfl := creation?_of_context hcontext creation
    rw [hs.performed hlabel]
    have hscope : Scoped c.config := h.reached.queueInv.scope
    exact unsettled_of_created hscope (Nat.le_refl _)
      (by simp [State.status?, State.perform, State.create, State.made])
      (hscope.state.alloc_not_targeted .pending (Nat.le_refl _))

theorem root_step {n : ν} {settlement : Settlement V E} (hnode : G.node n = .root settlement)
    (hn : c'.applied n = true) :
    ∃ q, c'.ref n = some q ∧ c'.config.state.status? q = some settlement.status := by
  rcases hs.applied_new hn with hold | ⟨hunused, op, hlabel, application⟩
  · obtain ⟨q, hq, hstatus⟩ := h.root n settlement hnode hold
    refine ⟨q, hs.ref_mono hq, (h.advances hs hm).settled q _ hstatus ?_⟩
    cases settlement <;> simp [Settlement.status]
  · simp only [application?, hnode] at application
    obtain ⟨q, hq, rfl⟩ := Option.map_eq_some_iff.mp application
    have hpending := (h.waiting n q (by simp [HasContext, hnode]) hq hunused).pending
    refine ⟨q, hs.ref_mono hq, ?_⟩
    rw [hs.performed hlabel]
    cases settlement <;> exact State.settle_status? _ hpending

theorem adopter_step {n inner : ν} (hnode : G.node n = .adopter inner)
    (hn : c'.applied n = true) :
    ∃ q r, c'.ref n = some q ∧ c'.ref inner = some r ∧ Follows q r c'.config := by
  rcases hs.applied_new hn with hold | ⟨hunused, op, hlabel, application⟩
  · obtain ⟨q, r, hq, hr, hfollows⟩ := h.adopter n inner hnode hold
    exact ⟨q, r, hs.ref_mono hq, hs.ref_mono hr,
      (h.advances hs hm).follows q r (h.context_ne hs hq fun _ => .inl hold) hfollows⟩
  · simp only [application?, hnode] at application
    obtain ⟨q, hq, happ⟩ := Option.bind_eq_some_iff.mp application
    obtain ⟨r, hr, rfl⟩ := Option.map_eq_some_iff.mp happ
    refine ⟨q, r, hs.ref_mono hq, hs.ref_mono hr, ?_⟩
    rw [hs.performed hlabel]
    exact follows_of_resolvePromise h.reached.queueInv
      (h.waiting n q (by simp [HasContext, hnode]) hq hunused) (h.known inner r hr)

theorem ended_step {p q : Ref} {f : F} {s₁ : State V E F} {result : Outcome V E}
    (hended : Ended (ls ++ [label]) p q f s₁ result) :
    ∃ status arg, c'.config.state.status? p = some status ∧ status.argFor f = .ok arg ∧
      (G.reply f arg).outcome? c'.ref = some result := by
  obtain ⟨status, arg, hstatus, harg, hreply⟩ := h.answered hs hended
  exact ⟨status, arg,
    (h.advances hs hm).settled p status hstatus (not_pending_of_argFor harg), harg,
    Reply.outcome?_mono (fun _ _ => hs.ref_mono) hreply⟩

/-- A derived promise that is settled takes the outcome of the promise that its handler returned. -/
theorem copied {p q r : Ref} {side : Side} {f : F} {s₁ : State V E F} {status : PromiseStatus V E}
    (hattached : Attached ls side p f q) (hl : label.context? ≠ some q)
    (hended : Ended (ls ++ [label]) p q f s₁ (.returned (.promise r)))
    (hstatus : c'.config.state.status? q = some status) (hne : status ≠ .pending) :
    c.config.state.status? r = some status := by
  have hstep := hs.step
  have hq : QueueInv c.config := h.reached.queueInv
  rcases hattached.progress h.reached h.matched with
    ⟨hexp, hnone⟩ | ⟨s₂, result, hunique, hserved, htaking⟩
  · rcases (ended_concat h.reached).mp hended with hold | ⟨rfl, i, j, hconfig⟩
    · exact absurd hold (hnone _ _)
    · -- the handler ends with this step
      rw [hconfig] at hstep hexp ⊢
      generalize c'.config = after at hstep hstatus
      cases hstep with
      | returned s i p j q f result known =>
          exact State.associateStatus_settled hexp.pending hstatus hne
  · rcases (ended_concat h.reached).mp hended with hold | ⟨-, i, j, hconfig⟩
    · obtain ⟨rfl, rfl⟩ := (hunique _ _).mp hold
      have hr := (h.advances hs hm).recorded
      exact htaking.1.settled hq hl (hserved.place_of_invokes hq.scope hr hm hstep) hstep hstatus
        hne
    · exact absurd (by rw [hconfig]; rfl) hserved.2

omit hm in
theorem adopter_denoted {n inner : ν} {q : Ref} {status : PromiseStatus V E}
    (hnode : G.node n = .adopter inner) (hn : c'.ref n = some q) (hused : c'.applied n = true)
    (hstatus : c'.config.state.status? q = some status) (hne : status ≠ .pending) :
    G.Denotes inner status := by
  rcases hs.applied_new hused with hold | ⟨hunused, op, hlabel, application⟩
  · obtain ⟨q', r, hq', hr, hfollows⟩ := h.adopter n inner hnode hold
    obtain rfl := Option.some.inj ((hs.ref_mono hq').symm.trans hn)
    have hl : label.context? ≠ some q' := h.context_ne hs hq' fun _ => .inl hold
    exact h.denoted inner r status hr
      (hfollows.settled h.reached.queueInv hl hs.step hstatus hne) hne
  · simp only [application?, hnode] at application
    obtain ⟨q', hq', happ⟩ := Option.bind_eq_some_iff.mp application
    obtain ⟨r, hr, rfl⟩ := Option.map_eq_some_iff.mp happ
    obtain rfl := Option.some.inj ((hs.ref_mono hq').symm.trans hn)
    have hpending := (h.waiting n q' (by simp [HasContext, hnode]) hq' hunused).pending
    obtain ⟨data, hdata, hdatastatus⟩ := Option.map_eq_some_iff.mp hpending
    rw [hs.performed hlabel] at hstatus
    simp only [State.perform, State.resolvePromiseImpl, hdata, Option.map_some, hdatastatus]
      at hstatus
    exact h.denoted inner r status hr (State.associateStatus_settled hpending hstatus hne) hne

theorem derived_denoted {n source : ν} {side : Side} {f : F} {q : Ref}
    {status : PromiseStatus V E} (hnode : G.node n = .derived side source f)
    (hn : c'.ref n = some q) (hstatus : c'.config.state.status? q = some status)
    (hne : status ≠ .pending) : G.Denotes n status := by
  have hrun : RunsTo (ls ++ [label]) c'.config :=
    run_concat _ h.reached (step_iff.mpr hs.step)
  have hmatched : NoMismatch (ls ++ [label]) := h.matched.concat h.reached hm
  obtain ⟨p, hp, hattached⟩ := h.derived_step hs hnode hn
  rcases hattached.progress hrun hmatched with ⟨hexp, -⟩ | ⟨s₁, result, hunique, -, htaking⟩
  · exact absurd (Option.some.inj (hstatus.symm.trans hexp.pending)) hne
  · have hended : Ended (ls ++ [label]) p q f s₁ result := (hunique _ _).mpr ⟨rfl, rfl⟩
    obtain ⟨old, arg, hold, harg, hreply⟩ := h.answered hs hended
    have hsource := h.denoted source p old (hs.ref_before hp (lt_of_status? hold)) hold
      (not_pending_of_argFor harg)
    have hside : old.side? = some side := by
      obtain ⟨old', hold', hside⟩ := hattached.settledOn hended hrun hmatched
      have hkept := (h.advances hs hm).settled p old hold (not_pending_of_argFor harg)
      rwa [Option.some.inj (hkept.symm.trans hold')]
    cases hanswer : G.reply f arg with
    | promise m =>
        rw [hanswer] at hreply
        obtain ⟨r, hr, rfl⟩ := Option.map_eq_some_iff.mp hreply
        have hbefore : c.ref n = some q :=
          hs.ref_before hn (h.outer_lt hended)
        obtain ⟨p', hp', hattached'⟩ := h.derived n side source f q hnode hbefore
        obtain rfl := Option.some.inj ((hs.ref_mono hp').symm.trans hp)
        have hl : label.context? ≠ some q :=
          h.context_ne hs hbefore fun hcontext => absurd hnode (hcontext side source f)
        have hcopied := h.copied hs hm hattached' hl hended hstatus hne
        exact .followed n side source f old arg m status hnode hsource hside harg hanswer
          (h.denoted m r status hr hcopied hne)
    | value | void | threw =>
        rw [hanswer] at hreply
        obtain rfl := Option.some.inj hreply
        have htaken := htaking.status_eq rfl
        obtain rfl := Option.some.inj (hstatus.symm.trans htaken)
        exact .answered n side source f old arg _ hnode hsource hside harg (by rw [hanswer]; rfl)

theorem denoted_step {n : ν} {q : Ref} {status : PromiseStatus V E} (hn : c'.ref n = some q)
    (hstatus : c'.config.state.status? q = some status) (hne : status ≠ .pending) :
    G.Denotes n status := by
  have hused (hcontext : G.HasContext n) : c'.applied n = true := by
    cases hused : c'.applied n with
    | true => rfl
    | false =>
        have hpending := (h.waiting_step hs hm hcontext hn hused).pending
        exact absurd (Option.some.inj (hstatus.symm.trans hpending)) hne
  cases hnode : G.node n with
  | root settlement =>
      obtain ⟨q', hq', hsettled⟩ := h.root_step hs hm hnode (hused (by simp [HasContext, hnode]))
      obtain rfl := Option.some.inj (hq'.symm.trans hn)
      obtain rfl := Option.some.inj (hstatus.symm.trans hsettled)
      exact .root n settlement hnode
  | adopter inner =>
      exact .adopter n inner status hnode
        (h.adopter_denoted hs hnode hn (hused (by simp [HasContext, hnode])) hstatus hne)
  | derived side source f => exact h.derived_denoted hs hm hnode hn hstatus hne

theorem step : Tracked G (ls ++ [label]) c' where
  reached := run_concat _ h.reached (step_iff.mpr hs.step)
  matched := h.matched.concat h.reached hm
  known _ _ hn := h.known_step hs hn
  injective _ _ _ hn hm := h.injective_step hs hn hm
  waiting _ _ hcontext hn hunused := h.waiting_step hs hm hcontext hn hunused
  root _ _ hnode hn := h.root_step hs hm hnode hn
  adopter _ _ hnode hn := h.adopter_step hs hm hnode hn
  derived _ _ _ _ _ hnode hn := h.derived_step hs hnode hn
  ended _ _ _ _ _ hended := h.ended_step hs hm hended
  denoted _ _ _ hn hstatus hne := h.denoted_step hs hm hn hstatus hne

end Tracked

/-- In this run of a schedule no handler meets an error of another type than it declares. -/
def NoMismatch (G : Graph ν V E F) (steps : List (GraphLabel ν)) : Prop :=
  EachStep G.step (fun c _ => c.config.failing? = none) ({} : GraphConfig ν V E F) steps

theorem tracked {steps : List (GraphLabel ν)} (h : run G.step {} steps = some c)
    (hm : G.NoMismatch steps) : ∃ ls, Tracked G ls c := by
  refine run_invariant (I := fun c => ∃ ls, Tracked G ls c) ?_ ⟨[], .initial⟩ hm h
  rintro c l c' ⟨ls, htracked⟩ hm hl
  obtain ⟨label, hs⟩ := stepped hl
  exact ⟨ls ++ [label], htracked.step hs hm⟩

/-! ### Complete runs -/

section Complete

variable (h : Tracked G ls c) (hc : G.Complete c)
include h hc

omit [DecidableEq ν] in
theorem Complete.drained : Drained c.config.state :=
  h.reached.queueInv.queued.drained hc.queue

omit [DecidableEq ν] in
/-- The handler of a derived promise has ended with the answer of the graph. -/
theorem Complete.taking {n source : ν} {side : Side} {f : F} {p q : Ref}
    {status : PromiseStatus V E} {arg : Arg V E} (hnode : G.node n = .derived side source f)
    (hn : c.ref n = some q) (hsource : c.ref source = some p)
    (hp : c.config.state.status? p = some status) (hside : status.side? = some side)
    (harg : status.argFor f = .ok arg) :
    ∃ s₁ result, (G.reply f arg).outcome? c.ref = some result ∧
      Taking p q f s₁ c.config result := by
  obtain ⟨p', hp', hattached⟩ := h.derived n side source f q hnode hn
  obtain rfl := Option.some.inj (hp'.symm.trans hsource)
  have hcalled := (hc.drained h).calledBack hp (not_pending_of_argFor harg)
  obtain ⟨s₁, result, hended⟩ :=
    hattached.ended h.reached h.matched ⟨status, hp, hside⟩ hcalled
  obtain ⟨old, arg', hold, harg', hreply⟩ := h.ended p' q f s₁ result hended
  obtain rfl := Option.some.inj (hold.symm.trans hp)
  obtain rfl : arg' = arg := Except.ok.inj (harg'.symm.trans harg)
  exact ⟨s₁, result, hreply, hattached.taking hended h.reached h.matched⟩

omit [DecidableEq ν] in
/-- A promise that has an outcome is settled with it. -/
theorem Denotes.settled {n : ν} {status : PromiseStatus V E} (hden : G.Denotes n status) {q : Ref}
    (hn : c.ref n = some q) : c.config.state.status? q = some status := by
  induction hden generalizing q with
  | root n settlement hnode =>
      have hused : c.applied n = true := by simpa [hnode, Node.isDerived] using hc.applied n
      obtain ⟨q', hq', hsettled⟩ := h.root n settlement hnode hused
      rwa [← Option.some.inj (hq'.symm.trans hn)]
  | adopter n inner status hnode outcome ih =>
      have hused : c.applied n = true := by simpa [hnode, Node.isDerived] using hc.applied n
      obtain ⟨q', r, hq', hr, hfollows⟩ := h.adopter n inner hnode hused
      obtain rfl := Option.some.inj (hq'.symm.trans hn)
      have htakes : TakesOver q' r c.config.state :=
        FollowsWithin.takesOver hfollows h.reached.queueInv
      rw [htakes.status_eq (hc.drained h), ih hr]
  | answered n side source f status arg result hnode outcome hside harg hreply ih =>
      obtain ⟨p, hp⟩ := Option.isSome_iff_exists.mp (hc.created source)
      obtain ⟨s₁, answer, hanswer, htaking⟩ := hc.taking h hnode hn hp (ih hp) hside harg
      refine htaking.status_eq ?_
      cases hr : G.reply f arg with
      | promise m => simp [hr, Reply.status?] at hreply
      | value | void | threw =>
          rw [hr] at hreply hanswer
          obtain rfl := Option.some.inj hanswer
          exact hreply
  | followed n side source f status arg inner result hnode outcome hside harg hreply followed ih
      ihinner =>
      obtain ⟨p, hp⟩ := Option.isSome_iff_exists.mp (hc.created source)
      obtain ⟨s₁, answer, hanswer, htaking⟩ := hc.taking h hnode hn hp (ih hp) hside harg
      rw [hreply] at hanswer
      obtain ⟨r, hr, rfl⟩ := Option.map_eq_some_iff.mp hanswer
      have htakes : TakesOver q r c.config.state := htaking.1.takesOver h.reached.queueInv
      rw [htakes.status_eq (hc.drained h), ihinner hr]

end Complete

/-- When nothing is left to do, the settled promises are those that have an outcome in the graph,
and they are settled with it. -/
theorem Complete.status?_iff {steps : List (GraphLabel ν)} (h : run G.step {} steps = some c)
    (hm : G.NoMismatch steps) (hc : G.Complete c) {n : ν} {status : PromiseStatus V E}
    (hne : status ≠ .pending) : c.status? n = some status ↔ G.Denotes n status := by
  obtain ⟨ls, htracked⟩ := tracked h hm
  obtain ⟨q, hq⟩ := Option.isSome_iff_exists.mp (hc.created n)
  rw [GraphConfig.status?, hq, Option.bind_some]
  exact ⟨fun hstatus => htracked.denoted n q status hq hstatus hne,
    fun hden => hden.settled htracked hc hq⟩

theorem Complete.status?_some {steps : List (GraphLabel ν)} (h : run G.step {} steps = some c)
    (hm : G.NoMismatch steps) (hc : G.Complete c) (n : ν) :
    ∃ status, c.status? n = some status := by
  obtain ⟨ls, htracked⟩ := tracked h hm
  obtain ⟨q, hq⟩ := Option.isSome_iff_exists.mp (hc.created n)
  obtain ⟨data, hdata⟩ : ∃ data, c.config.state.get? q = some data :=
    ⟨_, List.getElem?_eq_getElem (htracked.known n q hq)⟩
  exact ⟨data.status, by simp [GraphConfig.status?, hq, State.status?, hdata]⟩

/-- Two schedules of one graph, in whatever order they make their calls and run `promise_task`, end
with the same status, value or error for every promise. -/
theorem outcomes_do_not_depend_on_schedule {steps steps' : List (GraphLabel ν)}
    {c c' : GraphConfig ν V E F} (h : run G.step {} steps = some c)
    (h' : run G.step {} steps' = some c') (hm : G.NoMismatch steps) (hm' : G.NoMismatch steps')
    (hc : G.Complete c) (hc' : G.Complete c') (n : ν) :
    ∃ status, c.status? n = some status ∧ c'.status? n = some status := by
  obtain ⟨status, hstatus⟩ := hc.status?_some h hm n
  obtain ⟨status', hstatus'⟩ := hc'.status?_some h' hm' n
  refine ⟨status, hstatus, ?_⟩
  by_cases hne : status = .pending
  · by_cases hne' : status' = .pending
    · rw [hstatus', hne, hne']
    · have hden := (hc'.status?_iff h' hm' hne').mp hstatus'
      have hsettled := (hc.status?_iff h hm hne').mpr hden
      exact absurd (Option.some.inj (hsettled.symm.trans hstatus)) (hne ▸ hne')
  · have hden := (hc.status?_iff h hm hne).mp hstatus
    exact (hc'.status?_iff h' hm' hne).mpr hden

/-! ### Two schedules -/

/-- Promise 1 is made by `then` on root 0, and its handler returns promise 2, which adopts root 3.
Promise 4 is made by `_catch` on promise 1. -/
def sampleGraph : Graph (Fin 5) ℕ ℕ SampleHandler where
  node
    | 0 => .root (.resolve 7)
    | 1 => .derived .fulfilled 0 (.plain 1)
    | 2 => .adopter 3
    | 3 => .root (.reject (.object 5))
    | 4 => .derived .rejected 1 (.plain 2)
  reply
    | .plain 1, _ => .promise 2
    | _, _ => .value 9

/-- All promises are made while they are pending, and `promise_task` is called once. -/
def earlySchedule : List (GraphLabel (Fin 5)) :=
  [.create 0, .create 1, .create 3, .create 2, .create 4, .apply 2, .apply 3, .apply 0,
    .promiseTask] ++ List.replicate 5 .tau ++ .finish :: List.replicate 5 .tau ++
    .finish :: List.replicate 4 .tau ++ [.resume]

/-- Promises are made from settled ones, before and after `promise_task` has called them back. -/
def lateSchedule : List (GraphLabel (Fin 5)) :=
  [.create 3, .apply 3, .create 0, .create 2, .promiseTask, .tau, .tau, .tau, .resume, .apply 2,
    .create 1, .apply 0, .promiseTask] ++ List.replicate 4 .tau ++ .finish ::
    List.replicate 4 .tau ++ [.resume, .create 4, .promiseTask, .tau, .tau, .finish] ++
    List.replicate 4 .tau ++ [.resume]

theorem outcomes_do_not_depend_on_schedule_sample :
    ∃ c c' : GraphConfig (Fin 5) ℕ ℕ SampleHandler,
      run sampleGraph.step {} earlySchedule = some c ∧
        run sampleGraph.step {} lateSchedule = some c' ∧ c.status? 4 = some (.resolved 9) ∧
        ∃ status, c.status? 4 = some status ∧ c'.status? 4 = some status := by
  have hearly : (run sampleGraph.step {} earlySchedule).map
      (fun c => (decide (sampleGraph.Complete c), c.status? 4)) =
        some (true, some (.resolved 9)) := by
    decide +kernel
  have hlate : (run sampleGraph.step {} lateSchedule).map
      (fun c => decide (sampleGraph.Complete c)) = some true := by
    decide +kernel
  obtain ⟨c, h, heq⟩ := Option.map_eq_some_iff.mp hearly
  obtain ⟨hc, h4⟩ := Prod.mk.inj heq
  obtain ⟨c', h', hc'⟩ := Option.map_eq_some_iff.mp hlate
  have hm : sampleGraph.NoMismatch earlySchedule := by
    unfold NoMismatch
    decide +kernel
  have hm' : sampleGraph.NoMismatch lateSchedule := by
    unfold NoMismatch
    decide +kernel
  exact ⟨c, c', h, h', h4, outcomes_do_not_depend_on_schedule h h' hm hm'
    (of_decide_eq_true hc) (of_decide_eq_true hc') 4⟩

end Graph

end Libasync.Promise
