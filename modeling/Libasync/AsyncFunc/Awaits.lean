import Libasync.AsyncFunc.Effects

/-! # The awaits of a run

An await is waiting until one of its two handlers has been called, and then it has been resumed
once with the outcome of its promise. Nothing that happens meanwhile changes either. -/

namespace Libasync.AsyncFunc

open Promise Generator Foundation Code

variable {V E F : Type*}

/-! ### Outcomes -/

/-- What `await` makes of a settled promise: it returns the value or throws the error. -/
def outcome? : PromiseStatus V E → Option (Except (Exn E) V)
  | .pending => none
  | .resolved v => some (.ok v)
  | .rejected e => some (.error e)

/-- The outcomes of the promises that have settled by now. -/
def Config.oracle (c : Config V E F) (p : Ref) : Option (Except (Exn E) V) :=
  (c.promises.state.status? p).bind outcome?

theorem oracle_eq_some {c : Config V E F} {p : Ref} {answer : Except (Exn E) V}
    (h : c.oracle p = some answer) :
    ∃ status, c.promises.state.status? p = some status ∧ status ≠ .pending ∧
      outcome? status = some answer := by
  obtain ⟨status, hstatus, hanswer⟩ := Option.bind_eq_some_iff.mp h
  refine ⟨status, hstatus, ?_, hanswer⟩
  rintro rfl
  cases hanswer

section

variable [FnTrait F E] {T : Ref → Prop} {N : Side → Ref → Ref → Handler F → Prop}
  {c c' : Config V E F}

theorem oracle_mono (h : Advances T N c.promises c'.promises) (p : Ref)
    (answer : Except (Exn E) V) (hp : c.oracle p = some answer) : c'.oracle p = some answer := by
  obtain ⟨status, hstatus, hne, hanswer⟩ := oracle_eq_some hp
  simp [Config.oracle, h.settled p status hstatus hne, hanswer]

theorem settledOn_mono {s s' : Promise.Config V E (Handler F)} (h : Advances T N s s')
    {side : Side} {p : Ref} (hp : s.state.SettledOn side p) : s'.state.SettledOn side p := by
  obtain ⟨status, hstatus, hside⟩ := hp
  refine ⟨status, h.settled p status hstatus ?_, hside⟩
  rintro rfl
  cases hside

end

/-! ### Resumptions -/

/-- The derived promise of the handler that has resumed a generator. -/
def Event.outer? : Event V E → Option Ref
  | .resumed _ outer _ _ => some outer
  | _ => none

/-- The resumptions that the handlers of this await have caused. -/
def resumptions (a : Await) (log : List (Event V E)) : List (Event V E) :=
  log.filter fun e => e.outer? = some a.onValue ∨ e.outer? = some a.onError

theorem resumptions_append (a : Await) (log rest : List (Event V E)) :
    resumptions a (log ++ rest) = resumptions a log ++ resumptions a rest :=
  List.filter_append log rest

theorem resumptions_of_outer {a : Await} {e : Event V E} (side : Side)
    (h : e.outer? = some (a.outer side)) : resumptions a [e] = [e] := by
  cases side <;> simp_all [resumptions, Await.outer]

theorem resumptions_of_none {a : Await} {e : Event V E} (h : e.outer? = none) :
    resumptions a [e] = [] := by
  simp [resumptions, h]

theorem resumptions_of_ne {a : Await} {e : Event V E}
    (h : ∀ side, e.outer? ≠ some (a.outer side)) : resumptions a [e] = [] := by
  have hvalue := h .fulfilled
  have herror := h .rejected
  simp only [Await.outer] at hvalue herror
  simp [resumptions, hvalue, herror]

theorem resumptions_eq_nil_of_grown {a : Await} {log log' : List (Event V E)}
    (h : log <+: log') (hfresh : resumptions a log' = []) : resumptions a log = [] := by
  obtain ⟨rest, rfl⟩ := h
  rw [resumptions_append] at hfresh
  exact (List.append_eq_nil_iff.mp hfresh).1

theorem resumptions_eq_nil {a : Await} {log : List (Event V E)} :
    resumptions a log = [] ↔ ∀ e ∈ log, ∀ side, e.outer? ≠ some (a.outer side) := by
  simp only [resumptions, List.filter_eq_nil_iff, decide_eq_true_eq, not_or]
  constructor
  · intro h e he side
    cases side with
    | fulfilled => exact (h e he).1
    | rejected => exact (h e he).2
  · intro h e he
    exact ⟨h e he .fulfilled, h e he .rejected⟩

/-! ### Caught exceptions -/

def Caught.by? (gen : GenRef) (x : Caught E) : Option (Exn E) :=
  if x.owner = some gen then some x.error else none

/-- The exceptions that the body of this generator has caught, in the open `catch` blocks of it,
the innermost first. -/
def Config.caughtBy (c : Config V E F) (gen : GenRef) : List (Exn E) :=
  c.caught.filterMap (Caught.by? gen)

theorem caughtBy_congr {c c' : Config V E F} (h : c'.caught = c.caught) (gen : GenRef) :
    c'.caughtBy gen = c.caughtBy gen := by
  rw [Config.caughtBy, h, Config.caughtBy]

theorem by?_self (gen : GenRef) (e : Exn E) : Caught.by? gen ⟨some gen, e⟩ = some e := by
  simp [Caught.by?]

theorem by?_of_ne {gen : GenRef} {x : Caught E} (h : x.owner ≠ some gen) :
    Caught.by? gen x = none := by
  simp [Caught.by?, h]

/-! ### The two states of an await -/

/-- The generator is suspended at this await. If one of its handlers has been called, the handler
has control and has not resumed the generator yet. -/
structure Waiting (c : Config V E F) (a : Await) : Prop where
  fresh : resumptions a c.log = []
  suspended : ∃ g k, c.gens[a.gen]? = some g ∧ g.data.status = .suspended ∧
    g.data.genCtx = some k ∧
    Reaches c.oracle g.data.executor (c.caughtBy a.gen) (.ask a.promise k)
  called : ∀ side turn p f arg,
    .called turn p (a.outer side) f arg ∈ c.promises.state.log →
      c.awaitHandler? = some (a.promise, a.outer side, a.handler side)

/-- The generator has been resumed from this await once, with the outcome of the promise. -/
structure Resumed (c : Config V E F) (a : Await) (side : Side) (answer : Except (Exn E) V) :
    Prop where
  settled : c.promises.state.SettledOn side a.promise
  answered : c.oracle a.promise = some answer
  once : resumptions a c.log = [.resumed a.gen (a.outer side) .suspended answer]
  called : ∃ turn p f arg,
    .called turn p (a.outer side) f arg ∈ c.promises.state.log

structure AwaitSound (c : Config V E F) (a : Await) : Prop where
  known : a.promise < c.promises.state.heap.length
  outer_lt : ∀ side, a.outer side < c.promises.state.heap.length
  registered : ∀ side, c.promises.state.OpenFor side a.promise →
    .registered side a.promise (a.outer side) (a.handler side) ∈ c.promises.state.log
  state : Waiting c a ∨ ∃ side answer, Resumed c a side answer

/-- The transition resumes no generator from this await. -/
structure Leaves [FnTrait F E] (a : Await) (c c' : Config V E F) : Prop where
  advances : ∃ T N, Advances T N c.promises c'.promises
  resumptions_eq : resumptions a c'.log = resumptions a c.log
  gens : Waiting c a → ∀ g, c.gens[a.gen]? = some g → g.data.status = .suspended →
    c'.gens[a.gen]? = some g
  caught : Waiting c a → c'.caughtBy a.gen = c.caughtBy a.gen
  called : Waiting c a → ∀ side turn p f arg,
    .called turn p (a.outer side) f arg ∈ c'.promises.state.log →
      c'.awaitHandler? = some (a.promise, a.outer side, a.handler side)

section

variable [FnTrait F E] {c c' : Config V E F} {a : Await}

theorem Waiting.leave (h : Waiting c a) (hl : Leaves a c c') : Waiting c' a := by
  obtain ⟨T, N, hadvances⟩ := hl.advances
  obtain ⟨g, k, hg, hstatus, hctx, hreaches⟩ := h.suspended
  refine ⟨hl.resumptions_eq.trans h.fresh, ?_, hl.called h⟩
  refine ⟨g, k, hl.gens h g hg hstatus, hstatus, hctx, ?_⟩
  rw [hl.caught h]
  exact hreaches.mono (oracle_mono hadvances)

theorem Resumed.advance {T : Ref → Prop} {N : Side → Ref → Ref → Handler F → Prop}
    {side : Side} {answer : Except (Exn E) V} (h : Resumed c a side answer)
    (ha : Advances T N c.promises c'.promises)
    (hlog : resumptions a c'.log = resumptions a c.log) : Resumed c' a side answer := by
  obtain ⟨turn, p, f, arg, hcall⟩ := h.called
  exact ⟨settledOn_mono ha h.settled, oracle_mono ha _ _ h.answered, hlog.trans h.once,
    turn, p, f, arg, ha.log_grows.subset hcall⟩

theorem AwaitSound.leave (h : AwaitSound c a) (hl : Leaves a c c') : AwaitSound c' a := by
  obtain ⟨T, N, hadvances⟩ := hl.advances
  refine ⟨Nat.lt_of_lt_of_le h.known hadvances.length_le,
    fun side => Nat.lt_of_lt_of_le (h.outer_lt side) hadvances.length_le, ?_, ?_⟩
  · intro side hopen
    have hold := h.registered side (openFor_of_advances hadvances h.known hopen)
    exact hadvances.log_grows.subset hold
  · rcases h.state with hwaiting | ⟨side, answer, hresumed⟩
    · exact .inl (hwaiting.leave hl)
    · exact .inr ⟨side, answer, hresumed.advance hadvances hl.resumptions_eq⟩

end

end Libasync.AsyncFunc
