import Libasync.Promise.ExactlyOnce
import Libasync.Promise.Targets

/-! # Outcomes that a handler does not apply to

A handler is pushed on one of the two lists of its promise, or on none when the promise has
already settled the other way. So when the promise settles the other way nothing is left that
could settle the derived promise. -/

namespace Libasync.Promise

open Automaton Foundation

variable {V E F : Type*}

/-- The call that registers a handler on this list. -/
def Op.attach : Side → Ref → F → Op V E F
  | .fulfilled, p, f => .then_ p f
  | .rejected, p, f => .catch_ p f

/-- The derived promise `q` is pending and waits for a handler in this list of `p` and for no
other wrapper, and the handler has not been called. -/
structure Waiting (side : Side) (p q : Ref) (c : Config V E F) : Prop
    extends Unsettled q (fun x side' _ => x = p ∧ side' = side) c where
  uncalled : ∀ e ∈ c.state.log, e.callOf? ≠ some q

/-- A derived promise begins to wait, and no handler has been called for it. -/
theorem waiting_of_attach {s : State V E F} {control : Control F E} (hc : Scoped ⟨s, control⟩)
    (side : Side) (p : Ref) (f : F) :
    Waiting side p (s.attach side p f).2 (⟨(s.attach side p f).1, control⟩ : Config V E F) := by
  have hnew := (s.attach_ref side p f).1
  have htargets := (hc.state.attach_targeted side p f).mono
    fun _ _ _ h => (⟨h.1, h.2.1⟩ : _ ∧ _)
  refine ⟨unsettled_of_created hc hnew (s.attach_pending side p f) htargets, ?_⟩
  intro e he hcall
  have hold := (s.attach_changes (T := fun _ => False) side p f).call_mem hcall he
  exact Nat.not_lt.mpr hnew (hc.state.calls e hold _ hcall)

variable [Blank V] [FnTrait F E]

/-- Nothing but the outcome of `p` on this side ends the waiting. -/
theorem Waiting.step {side : Side} {p q : Ref} {c c' : Config V E F} {l : Label V E F}
    (h : Waiting side p q c) (hc : Scoped c) (hl : l.context? ≠ some q) (hstep : Step c l c') :
    c'.state.SettledOn side p ∨ Waiting side p q c' := by
  rcases hstep.kept_or_invokes hc h.toUnsettled hl with hkept | hinvokes
  · right
    exact ⟨hkept.unsettled h.toUnsettled,
      fun e he hcall => h.uncalled e (hkept.calls e he hcall) hcall⟩
  · left
    obtain ⟨i, x, j, data, side', w, hinv⟩ := hinvokes
    obtain ⟨rfl, rfl⟩ := hinv.place
    obtain ⟨status, hstatus, hside⟩ := hinv.settledOn
    refine ⟨status, hstep.settled_status hc hstatus ?_, hside⟩
    rintro rfl
    cases hside

theorem Step.settledOn {c c' : Config V E F} {l : Label V E F} {side : Side} {p : Ref}
    (h : Step c l c') (hc : Scoped c) (hs : c.state.SettledOn side p) :
    c'.state.SettledOn side p := by
  obtain ⟨status, hstatus, hside⟩ := hs
  refine ⟨status, h.settled_status hc hstatus ?_, hside⟩
  rintro rfl
  cases hside

/-- In the run of these labels a call of `then` or `_catch` on `p` returned `q`. A derived
promise has no context, so no later call goes through one. -/
def Attached (ls : List (Label V E F)) (side : Side) (p : Ref) (f : F) (q : Ref) : Prop :=
  ∃ before after s control, ls = before ++ .op (.attach side p f) :: after ∧
    RunsTo before ⟨s, control⟩ ∧ (s.attach side p f).2 = q ∧ ∀ l ∈ after, l.context? ≠ some q

theorem step_attach {s : State V E F} {control : Control F E} {side : Side} {p : Ref} {f : F}
    {c : Config V E F} (h : step ⟨s, control⟩ (.op (.attach side p f)) = some c) :
    p < s.heap.length ∧ c = ⟨(s.attach side p f).1, control⟩ := by
  cases side with
  | fulfilled =>
      cases Step.of_step h with
      | op s control o user known =>
          exact ⟨State.lt_of_has known (by simp [Op.attach, Op.refs]), rfl⟩
  | rejected =>
      cases Step.of_step h with
      | op s control o user known =>
          exact ⟨State.lt_of_has known (by simp [Op.attach, Op.refs]), rfl⟩

omit [Blank V] [FnTrait F E] in
/-- A call of `then` or `_catch` that registers nothing has found the other outcome. -/
theorem registered_of_attach {s : State V E F} {side : Side} {p : Ref} (f : F)
    (hp : p < s.heap.length) :
    Event.registered side p (s.attach side p f).2 f ∈ (s.attach side p f).1.log ∨
      ∃ status, s.status? p = some status ∧ status ≠ .pending ∧ status.side? ≠ some side := by
  obtain ⟨data, hdata⟩ : ∃ data, s.get? p = some data := ⟨_, List.getElem?_eq_getElem hp⟩
  cases hside : data.status.side? with
  | none => exact .inl (by simp [State.attach, hdata, hside, State.create, State.alloc])
  | some settled =>
      by_cases hs : settled = side
      · exact .inl (by simp [State.attach, hdata, hside, hs, State.create, State.alloc])
      · refine .inr ⟨data.status, by simp [State.status?, hdata], ?_, by simpa [hside] using hs⟩
        intro hpending
        simp [hpending, PromiseStatus.side?] at hside

namespace Attached

variable {ls : List (Label V E F)} {side : Side} {p q : Ref} {f : F} {c : Config V E F}

theorem concat (ha : Attached ls side p f q) {l : Label V E F} (hl : l.context? ≠ some q) :
    Attached (ls ++ [l]) side p f q := by
  obtain ⟨before, after, s, control, rfl, hbefore, hq, hafter⟩ := ha
  refine ⟨before, after ++ [l], s, control, by simp, hbefore, hq, ?_⟩
  intro l' hl'
  rcases List.mem_append.mp hl' with hl' | hl'
  · exact hafter l' hl'
  · rwa [List.mem_singleton.mp hl']

/-- What holds right after the call, and is kept by every later step, holds at the end. The
labels of the run so far are part of the statement. -/
theorem induct {P : List (Label V E F) → Config V E F → Prop} (ha : Attached ls side p f q)
    (h : RunsTo ls c)
    (hbase : ∀ ls (s : State V E F) control, RunsTo ls ⟨s, control⟩ → p < s.heap.length →
      (s.attach side p f).2 = q →
      P (ls ++ [.op (.attach side p f)]) ⟨(s.attach side p f).1, control⟩)
    (hstep : ∀ ls c l c', Attached ls side p f q → RunsTo ls c → P ls c →
      l.context? ≠ some q → Step c l c' → P (ls ++ [l]) c') : P ls c := by
  obtain ⟨before, after, s, control, rfl, hbefore, hq, hafter⟩ := ha
  induction after using List.reverseRecOn generalizing c with
  | nil =>
      obtain ⟨c₀, hc₀, hrest⟩ := run_append_eq_some step h
      obtain rfl := Option.some.inj (hc₀.symm.trans hbefore)
      obtain ⟨c₁, hc₁, hrest⟩ := run_cons_eq_some step hrest
      obtain ⟨hp, rfl⟩ := step_attach hc₁
      obtain rfl := Option.some.inj hrest
      exact hbase before s control hbefore hp hq
  | append_singleton after l ih =>
      rw [← List.cons_append, ← List.append_assoc] at h ⊢
      obtain ⟨c₀, hc₀, hrest⟩ := run_append_eq_some step h
      obtain ⟨c₁, hc₁, hrest⟩ := run_cons_eq_some step hrest
      obtain rfl := Option.some.inj hrest
      have hfront : ∀ l ∈ after, l.context? ≠ some q := by
        intro l' hl'
        exact hafter l' (by simp [hl'])
      refine hstep _ c₀ l c₁ ?_ hc₀ (ih hc₀ hfront) (hafter l (by simp)) (.of_step hc₁)
      exact ⟨before, after, s, control, rfl, hbefore, hq, hfront⟩

theorem invariant {I : Config V E F → Prop} (ha : Attached ls side p f q) (h : RunsTo ls c)
    (hbase : ∀ (s : State V E F) control, Scoped ⟨s, control⟩ → p < s.heap.length →
      (s.attach side p f).2 = q → I ⟨(s.attach side p f).1, control⟩)
    (hstep : ∀ c l c', Scoped c → I c → l.context? ≠ some q → Step c l c' → I c') : I c :=
  ha.induct (P := fun _ c => I c) h
    (fun _ s control hrun hp hq => hbase s control hrun.queueInv.scope hp hq)
    fun _ c l c' _ hrun hI hl hcl => hstep c l c' hrun.queueInv.scope hI hl hcl

theorem waiting (ha : Attached ls side p f q) (h : RunsTo ls c)
    (hp : ¬ c.state.SettledOn side p) : Waiting side p q c := by
  refine Or.resolve_left (ha.invariant
    (I := fun c => c.state.SettledOn side p ∨ Waiting side p q c) h ?_ ?_) hp
  · rintro s control hc hlt rfl
    exact .inr (waiting_of_attach hc side p f)
  · rintro c l c' hc hI hl hstep
    rcases hI with hs | hw
    · exact .inl (hstep.settledOn hc hs)
    · exact hw.step hc hl hstep

theorem registered (ha : Attached ls side p f q) (h : RunsTo ls c)
    (hp : c.state.SettledOn side p) : Event.registered side p q f ∈ c.state.log := by
  have hI : Event.registered side p q f ∈ c.state.log ∨
      ∃ status, c.state.status? p = some status ∧ status ≠ .pending ∧
        status.side? ≠ some side := by
    refine ha.invariant (I := fun c => Event.registered side p q f ∈ c.state.log ∨
      ∃ status, c.state.status? p = some status ∧ status ≠ .pending ∧
        status.side? ≠ some side) h ?_ ?_
    · rintro s control hc hlt rfl
      refine (registered_of_attach f hlt).imp_right ?_
      rintro ⟨status, hstatus, hne, hside⟩
      have hchanges := s.attach_changes (T := fun _ => False) side p f
      exact ⟨status, hchanges.status_eq hstatus (.inl hne), hne, hside⟩
    · rintro c l c' hc hI hl hstep
      rcases hI with hmem | ⟨status, hstatus, hne, hside⟩
      · exact .inl ((hstep.log_grows hc).subset hmem)
      · exact .inr ⟨status, hstep.settled_status hc hstatus hne, hne, hside⟩
  refine hI.resolve_right ?_
  rintro ⟨status, hstatus, -, hside⟩
  obtain ⟨status', hstatus', hside'⟩ := hp
  obtain rfl := Option.some.inj (hstatus.symm.trans hstatus')
  exact hside hside'

end Attached

/-! ### Chains -/

/-- The promises `q 0, …, q n` of a chain `q 0 .then(f 0) … .then(f (n - 1))`, with `_catch(r)` at
its end, which returned `d`. -/
structure Chain (ls : List (Label V E F)) (n : ℕ) (q : ℕ → Ref) (f : ℕ → F) (r : F) (d : Ref) :
    Prop where
  link : ∀ k < n, Attached ls .fulfilled (q k) (f k) (q (k + 1))
  last : Attached ls .rejected (q n) r d

omit [Blank V] [FnTrait F E] in
theorem not_settledOn_of_status {s : State V E F} {p : Ref} {status : PromiseStatus V E}
    {side : Side} (h : s.status? p = some status) (hside : status.side? ≠ some side) :
    ¬ s.SettledOn side p := by
  rintro ⟨status', hstatus', hside'⟩
  obtain rfl := Option.some.inj (h.symm.trans hstatus')
  exact hside hside'

/-- Behind a rejected promise every promise of the chain is pending. -/
theorem Chain.pending_behind {ls : List (Label V E F)} {n : ℕ} {q : ℕ → Ref} {f : ℕ → F} {r : F}
    {d : Ref} {c : Config V E F} (hchain : Chain ls n q f r d) (h : RunsTo ls c) {i : ℕ}
    {e : Exn E} (hi : c.state.status? (q i) = some (.rejected e)) (k : ℕ) (hk : i + k < n) :
    c.state.status? (q (i + k + 1)) = some .pending := by
  induction k with
  | zero =>
      have hside : ¬ c.state.SettledOn .fulfilled (q i) := 
        not_settledOn_of_status hi (by simp [PromiseStatus.side?])
      exact ((hchain.link i hk).waiting h hside).pending
  | succ k ih =>
      have hprev := ih (Nat.lt_of_succ_lt hk)
      have hside : ¬ c.state.SettledOn .fulfilled (q (i + k + 1)) :=
        not_settledOn_of_status hprev (by simp [PromiseStatus.side?])
      exact ((hchain.link (i + k + 1) hk).waiting h hside).pending

/-- A rejection inside a chain does not reach the handler at its end. -/
theorem Chain.uncalled {ls : List (Label V E F)} {n : ℕ} {q : ℕ → Ref} {f : ℕ → F} {r : F}
    {d : Ref} {c : Config V E F} (hchain : Chain ls n q f r d) (h : RunsTo ls c) {i : ℕ}
    {e : Exn E} (hi : c.state.status? (q i) = some (.rejected e)) (hin : i < n) :
    Waiting .rejected (q n) d c := by
  obtain ⟨k, rfl⟩ := Nat.exists_eq_add_of_lt hin
  have hlast := hchain.pending_behind h hi k (Nat.lt_succ_self _)
  exact hchain.last.waiting h (not_settledOn_of_status hlast (by simp [PromiseStatus.side?]))

/-- The handler of this registration has been called exactly once, with this outcome. -/
def CalledOnce (s : State V E F) (p outer : Ref) (f : F) (status : PromiseStatus V E) : Prop :=
  ∃ turn arg, status.argFor f = .ok arg ∧
    s.log.filter (fun e => e.callOf? = some outer) = [.called turn p outer f arg]

/-- No outcome passes through a handler that does not apply: in every run that ends with a return
of `promise_task`, the derived promise is then still pending. The form with two handlers returns
no promise. The rejection of a link of a chain reaches the handler at the end of the chain, which
is then called exactly once and with that error, if and only if the handler is registered on that
very link. -/
theorem no_outcome_passes_through {ls : List (Label V E F)} {s : State V E F}
    (h : RunsTo ls ⟨s, .done none⟩) (hm : NoMismatch ls) :
    (∀ side p f q status, Attached ls side p f q → s.status? p = some status →
      status ≠ .pending → status.side? ≠ some side → s.status? q = some .pending) ∧
    (∀ p fulfilled rejected, (s.thenBoth p fulfilled rejected).2 = none) ∧
    ∀ n q f r d i e, Chain ls n q f r d → i ≤ n → s.status? (q i) = some (.rejected e) →
      (CalledOnce s (q n) d r (.rejected e) ↔ i = n) := by
  refine ⟨?_, fun _ _ _ => rfl, ?_⟩
  · intro side p f q status ha hstatus _ hside
    exact (ha.waiting h (not_settledOn_of_status hstatus hside)).pending
  · intro n q f r d i e hchain hin hi
    constructor
    · rintro ⟨turn, arg, -, hcalls⟩
      by_contra hne
      have hwaiting := hchain.uncalled h hi (Nat.lt_of_le_of_ne hin hne)
      have hmem : Event.called turn (q n) d r arg ∈ s.log :=
        List.mem_of_mem_filter (hcalls ▸ List.mem_singleton_self _)
      exact hwaiting.uncalled _ hmem rfl
    · rintro rfl
      obtain ⟨data, hdata, hdatastatus⟩ := Option.map_eq_some_iff.mp hi
      have hside : data.status.side? = some .rejected := by simp [hdatastatus, PromiseStatus.side?]
      have hreg := hchain.last.registered h ⟨data.status, hdatastatus ▸ hi, hside⟩
      have hdelivered := (h.recorded hm).deliveredOnce h.drained
      obtain ⟨turn, arg, harg, hcalls⟩ :=
        hdelivered.exactly_once .rejected _ d r data hreg hdata hside
      exact ⟨turn, arg, hdatastatus ▸ harg, hcalls⟩

/-- `p.then(f)._catch(r)` with `p` rejected, and `p'._catch(r)` with `p'` resolved. -/
def lostRun : List (Label ℕ ℕ SampleHandler) :=
  [.op .promise, .op (.then_ 0 (.plain 1)), .op (.catch_ 1 (.plain 2)), .op (.reject 0 (.object 5)),
    .op (.resolved 7), .op (.catch_ 3 (.plain 3)), .promiseTask, .tau, .tau, .tau]

theorem no_outcome_passes_through_sample : ∃ s : State ℕ ℕ SampleHandler,
    (s.status? 0 = some (.rejected (.object 5)) ∧ s.status? 1 = some .pending) ∧
      (∀ p fulfilled rejected, (s.thenBoth p fulfilled rejected).2 = none) ∧
      (CalledOnce s 1 2 (SampleHandler.plain 2) (.rejected (.object 5)) ↔ 0 = 1) := by
  obtain ⟨s, h, h0⟩ : ∃ s, RunsTo lostRun ⟨s, .done none⟩ ∧
      s.status? 0 = some (.rejected (.object 5)) := ⟨_, rfl, by decide +kernel⟩
  have hm : NoMismatch lostRun := by
    unfold NoMismatch
    decide +kernel
  obtain ⟨hpass, hboth, hreach⟩ := no_outcome_passes_through h hm
  have hthen : Attached lostRun .fulfilled 0 (.plain 1) 1 :=
    ⟨lostRun.take 1, lostRun.drop 2, _, .idle, rfl, rfl, by decide +kernel, by decide +kernel⟩
  have hcatch : Attached lostRun .rejected 1 (.plain 2) 2 :=
    ⟨lostRun.take 2, lostRun.drop 3, _, .idle, rfl, rfl, by decide +kernel, by decide +kernel⟩
  have hchain : Chain lostRun 1 id (fun _ => .plain 1) (.plain 2) 2 := by
    refine ⟨?_, hcatch⟩
    intro k hk
    obtain rfl := Nat.lt_one_iff.mp hk
    exact hthen
  exact ⟨s, ⟨h0, hpass _ _ _ _ _ hthen h0 (by decide) (by decide)⟩, hboth,
    hreach 1 id _ _ 2 0 _ hchain (by decide) h0⟩

/-- Neither the rejection nor the value arrives, and no handler is called. -/
theorem lostRun_loses :
    (Automaton.run step Config.initial lostRun).map (fun c =>
        (c.control, [0, 1, 2, 3, 4].map c.state.status?, c.state.log.filterMap Event.callOf?)) =
      some (.done none, [some (.rejected (.object 5)), some .pending, some .pending,
        some (.resolved 7), some .pending], []) := by
  decide +kernel

end Libasync.Promise
