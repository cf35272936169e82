import Libasync.Promise.Queue
import Mathlib.Data.List.Forall2

/-! # Delivery of settled promises to their handlers

The handlers called so far, followed by the handlers still waiting in the list, are the handlers
registered so far. The invariant holds as long as no rejected handler has met an error of
another type, because such a handler makes the next call of `promise_task` walk through a list
it has already walked through. -/

namespace Libasync.Promise

variable {V E F : Type*}

/-! ### Reading the record -/

/-- The handlers registered on one list of a promise, with their derived promises. -/
def registrations (side : Side) (p : Ref) (log : List (Event V E F)) : List (Ref × F) :=
  log.filterMap fun
    | .registered side' q outer f => if side' = side ∧ q = p then some (outer, f) else none
    | _ => none

/-- The handler calls made for a promise. -/
def calls (p : Ref) (log : List (Event V E F)) : List (Ref × F × Arg V E) :=
  log.filterMap fun
    | .called _ q outer f arg => if q = p then some (outer, f, arg) else none
    | _ => none

/-- The derived promises of all registrations. -/
def outers (log : List (Event V E F)) : List Ref :=
  log.filterMap fun
    | .registered _ _ outer _ => some outer
    | _ => none

/-- The user handlers of a wrapper list. -/
def handlers (ws : List (Wrapper F)) : List (Ref × F) :=
  ws.filterMap fun
    | .handler outer f => some (outer, f)
    | .adopt _ => none

@[simp] theorem registrations_append (side : Side) (p : Ref) (log rest : List (Event V E F)) :
    registrations side p (log ++ rest) = registrations side p log ++ registrations side p rest :=
  List.filterMap_append

@[simp] theorem calls_append (p : Ref) (log rest : List (Event V E F)) :
    calls p (log ++ rest) = calls p log ++ calls p rest :=
  List.filterMap_append

@[simp] theorem outers_append (log rest : List (Event V E F)) :
    outers (log ++ rest) = outers log ++ outers rest :=
  List.filterMap_append

@[simp] theorem handlers_append (ws rest : List (Wrapper F)) :
    handlers (ws ++ rest) = handlers ws ++ handlers rest :=
  List.filterMap_append

@[simp] theorem registrations_enqueued (side : Side) (p q : Ref) :
    registrations side p [(.enqueued q : Event V E F)] = [] := rfl

@[simp] theorem registrations_called (side : Side) (p q : Ref) (turn : ℕ) (outer : Ref) (f : F)
    (arg : Arg V E) : registrations side p [.called turn q outer f arg] = [] := rfl

theorem registrations_registered (side side' : Side) (p q outer : Ref) (f : F) :
    registrations side p [(.registered side' q outer f : Event V E F)] =
      if side' = side ∧ q = p then [(outer, f)] else [] := by
  by_cases h : side' = side ∧ q = p <;> simp [registrations, h]

@[simp] theorem calls_enqueued (p q : Ref) : calls p [(.enqueued q : Event V E F)] = [] := rfl

@[simp] theorem calls_registered (p q outer : Ref) (side : Side) (f : F) :
    calls p [(.registered side q outer f : Event V E F)] = [] := rfl

theorem calls_called (p q : Ref) (turn : ℕ) (outer : Ref) (f : F) (arg : Arg V E) :
    calls p [.called turn q outer f arg] = if q = p then [(outer, f, arg)] else [] := by
  by_cases h : q = p <;> simp [calls, h]

@[simp] theorem outers_enqueued (q : Ref) : outers [(.enqueued q : Event V E F)] = [] := rfl

@[simp] theorem outers_called (turn : ℕ) (q outer : Ref) (f : F) (arg : Arg V E) :
    outers [.called turn q outer f arg] = [] := rfl

@[simp] theorem outers_registered (q outer : Ref) (side : Side) (f : F) :
    outers [(.registered side q outer f : Event V E F)] = [outer] := rfl

@[simp] theorem handlers_nil : handlers ([] : List (Wrapper F)) = [] := rfl

@[simp] theorem handlers_adopt (outer : Ref) (ws : List (Wrapper F)) :
    handlers (.adopt outer :: ws) = handlers ws := rfl

@[simp] theorem handlers_handler (outer : Ref) (f : F) (ws : List (Wrapper F)) :
    handlers (.handler outer f :: ws) = (outer, f) :: handlers ws := rfl

theorem mem_outers {log : List (Event V E F)} {outer : Ref} :
    outer ∈ outers log ↔ ∃ side p f, Event.registered side p outer f ∈ log := by
  simp only [outers, List.mem_filterMap]
  constructor
  · rintro ⟨e, he, h⟩
    cases e <;> simp_all
    exact ⟨_, _, _, he⟩
  · rintro ⟨side, p, f, h⟩
    exact ⟨_, h, rfl⟩

theorem mem_registrations {log : List (Event V E F)} {side : Side} {p outer : Ref} {f : F} :
    (outer, f) ∈ registrations side p log ↔ Event.registered side p outer f ∈ log := by
  simp only [registrations, List.mem_filterMap]
  constructor
  · rintro ⟨e, he, h⟩
    cases e with
    | registered side' q outer' f' =>
        simp only [Option.ite_none_right_eq_some, Option.some.injEq, Prod.mk.injEq] at h
        obtain ⟨⟨rfl, rfl⟩, rfl, rfl⟩ := h
        exact he
    | enqueued q => cases h
    | called turn q outer' f' arg => cases h
  · intro h
    exact ⟨_, h, by simp⟩

theorem mem_calls {log : List (Event V E F)} {p outer : Ref} {f : F} {arg : Arg V E} :
    (outer, f, arg) ∈ calls p log ↔ ∃ turn, Event.called turn p outer f arg ∈ log := by
  simp only [calls, List.mem_filterMap]
  constructor
  · rintro ⟨e, he, h⟩
    cases e with
    | called turn q outer' f' arg' =>
        simp only [Option.ite_none_right_eq_some, Option.some.injEq, Prod.mk.injEq] at h
        obtain ⟨rfl, rfl, rfl, rfl⟩ := h
        exact ⟨turn, he⟩
    | enqueued q => cases h
    | registered side q outer' f' => cases h
  · rintro ⟨turn, h⟩
    exact ⟨_, h, by simp⟩

/-! ### The invariant of one cell -/

variable [FnTrait F E]

/-- This call delivers the outcome of a promise with this status to this registration. -/
def Delivers (status : PromiseStatus V E) (r : Ref × F) (call : Ref × F × Arg V E) : Prop :=
  call.1 = r.1 ∧ call.2.1 = r.2 ∧ status.argFor r.2 = .ok call.2.2

theorem forall₂_delivers_iff {status : PromiseStatus V E} {rs : List (Ref × F)}
    {cs : List (Ref × F × Arg V E)} :
    List.Forall₂ (Delivers status) rs cs ↔
      rs = cs.map (fun call => (call.1, call.2.1)) ∧
        ∀ call ∈ cs, status.argFor call.2.1 = .ok call.2.2 := by
  induction cs generalizing rs with
  | nil => simp
  | cons call cs ih =>
      cases rs with
      | nil => simp
      | cons r rs =>
          obtain ⟨outer, f⟩ := r
          simp only [List.forall₂_cons, ih, Delivers, List.map_cons, List.cons.injEq,
            Prod.mk.injEq, List.forall_mem_cons]
          constructor
          · rintro ⟨⟨ho, hf, harg⟩, hrs, hcs⟩
            exact ⟨⟨⟨ho.symm, hf.symm⟩, hrs⟩, hf ▸ harg, hcs⟩
          · rintro ⟨⟨⟨ho, hf⟩, hrs⟩, harg, hcs⟩
            exact ⟨⟨ho.symm, hf.symm, hf ▸ harg⟩, hrs, hcs⟩

/-- The record agrees with the cell of `p`, of whose list the first `n` wrappers have had their
turn in the `call_back` that is running. -/
structure Accounted (log : List (Event V E F)) (n : ℕ) (p : Ref) (data : PromiseData V E F) :
    Prop where
  pending : data.status = .pending →
    n = 0 ∧ calls p log = [] ∧ ∀ side, registrations side p log = handlers (data.wrappers side)
  settled : ∀ side, data.status.side? = some side →
    n ≤ (data.wrappers side).length ∧
      ∃ before, registrations side p log = before ++ handlers ((data.wrappers side).drop n) ∧
        List.Forall₂ (Delivers data.status) before (calls p log)

/-- Events that concern neither the registrations nor the calls of `p` do not matter. -/
theorem Accounted.append {log rest : List (Event V E F)} {n : ℕ} {p : Ref}
    {data : PromiseData V E F} (h : Accounted log n p data)
    (hreg : ∀ side, registrations side p rest = []) (hcall : calls p rest = []) :
    Accounted (log ++ rest) n p data := by
  refine ⟨?_, ?_⟩
  · intro hp
    simpa [hreg, hcall] using h.pending hp
  · intro side hside
    simpa [hreg, hcall] using h.settled side hside

theorem Accounted.of_nothing {log : List (Event V E F)} {p : Ref} (status : PromiseStatus V E)
    (hreg : ∀ side, registrations side p log = []) (hcall : calls p log = []) :
    Accounted log 0 p { status } := by
  refine ⟨?_, ?_⟩
  · intro _
    exact ⟨rfl, hcall, fun side => by cases side <;> exact hreg _⟩
  · intro side hside
    refine ⟨Nat.zero_le _, [], ?_, by simp [hcall]⟩
    cases side <;> exact hreg _

/-- A pending promise whose handlers are all waiting stays accounted for when it settles. -/
theorem Accounted.settle {log : List (Event V E F)} {n : ℕ} {p : Ref} {data : PromiseData V E F}
    {status : PromiseStatus V E} {flag : Bool} (h : Accounted log n p data)
    (hp : data.status = .pending) (hs : status ≠ .pending) :
    Accounted log n p { data with status, pendingCallback := flag } := by
  obtain ⟨rfl, hcall, hreg⟩ := h.pending hp
  refine ⟨fun hpending => absurd hpending hs, ?_⟩
  intro side _
  refine ⟨Nat.zero_le _, [], ?_, by simp [hcall]⟩
  cases side <;> exact hreg _

theorem Accounted.flag {log : List (Event V E F)} {n : ℕ} {p : Ref} {data : PromiseData V E F}
    {flag : Bool} (h : Accounted log n p data) :
    Accounted log n p { data with pendingCallback := flag } := by
  refine ⟨?_, ?_⟩
  · intro hp
    simpa using h.pending hp
  · intro side hside
    simpa using h.settled side hside

/-- An internal callback on a pending promise is no handler. -/
theorem Accounted.adopt {log : List (Event V E F)} {n : ℕ} {p outer : Ref}
    {data : PromiseData V E F} (h : Accounted log n p data) (hp : data.status = .pending) :
    Accounted log n p
      ((data.pushWrapper .fulfilled (.adopt outer)).pushWrapper .rejected (.adopt outer)) := by
  obtain ⟨hn, hcall, hreg⟩ := h.pending hp
  refine ⟨?_, ?_⟩
  · intro _
    refine ⟨hn, hcall, ?_⟩
    intro side
    rw [PromiseData.wrappers_pushWrapper, PromiseData.wrappers_pushWrapper, hreg side]
    cases side <;> simp
  · intro side hside
    simp [hp, PromiseStatus.side?] at hside

theorem Accounted.register {log : List (Event V E F)} {n : ℕ} {p outer : Ref} {f : F}
    {side : Side} {data : PromiseData V E F} (h : Accounted log n p data)
    (hopen : data.status = .pending ∨ data.status.side? = some side) :
    Accounted (log ++ [.registered side p outer f]) n p
      (data.pushWrapper side (.handler outer f)) := by
  refine ⟨?_, ?_⟩
  · intro hp
    rw [PromiseData.pushWrapper_status] at hp
    obtain ⟨hn, hcall, hreg⟩ := h.pending hp
    refine ⟨hn, by simp [hcall], ?_⟩
    intro other
    rw [registrations_append, registrations_registered, PromiseData.wrappers_pushWrapper,
      handlers_append, hreg other]
    by_cases hs : other = side
    · simp [hs]
    · simp [hs, Ne.symm hs]
  · intro other hother
    rw [PromiseData.pushWrapper_status] at hother
    have hs : side = other := by
      rcases hopen with hp | hside
      · simp [hp, PromiseStatus.side?] at hother
      · exact Option.some.inj (hside.symm.trans hother)
    subst other
    obtain ⟨hn, before, hreg, hcalls⟩ := h.settled side hother
    rw [PromiseData.wrappers_pushWrapper, PromiseData.pushWrapper_status]
    refine ⟨by simpa using Nat.le_succ_of_le hn, before, ?_, by simpa using hcalls⟩
    rw [registrations_append, hreg, registrations_registered, List.drop_append_of_le_length hn]
    simp

theorem Accounted.finish {log : List (Event V E F)} {n : ℕ} {p : Ref} {data : PromiseData V E F}
    (h : Accounted log n p data) (hdue : data.due[n]? = none)
    (hsettled : data.status ≠ .pending) :
    Accounted log 0 p
      { data with pendingCallback := false, fulfilledWrappers := [], rejectedWrappers := [] } := by
  refine ⟨fun hp => absurd hp hsettled, ?_⟩
  intro side hside
  have hside' : data.status.side? = some side := hside
  obtain ⟨hn, before, hreg, hcalls⟩ := h.settled side hside'
  rw [PromiseData.due_of_side hside', List.getElem?_eq_none_iff] at hdue
  refine ⟨Nat.zero_le _, before, ?_, hcalls⟩
  rw [hreg, List.drop_eq_nil_of_le hdue]
  cases side <;> rfl

/-- The `call_back` loop passes one wrapper; a user handler is called with the outcome. -/
theorem Accounted.pass {log : List (Event V E F)} {n : ℕ} {p : Ref} {data : PromiseData V E F}
    {w : Wrapper F} {rest : List (Event V E F)} (h : Accounted log n p data)
    (hdue : data.due[n]? = some w) (hreg : ∀ side, registrations side p rest = [])
    (hcall : List.Forall₂ (Delivers data.status) (handlers [w]) (calls p rest)) :
    Accounted (log ++ rest) (n + 1) p data := by
  cases hside : data.status.side? with
  | none => simp [PromiseData.due, hside] at hdue
  | some side =>
      refine ⟨fun hp => by simp [hp, PromiseStatus.side?] at hside, ?_⟩
      intro other hother
      obtain rfl := Option.some.inj (hside.symm.trans hother)
      obtain ⟨hn, before, hbefore, hcalls⟩ := h.settled side hside
      rw [PromiseData.due_of_side hside] at hdue
      obtain ⟨hlt, hw⟩ := List.getElem?_eq_some_iff.mp hdue
      refine ⟨hlt, before ++ handlers [w], ?_, ?_⟩
      · rw [registrations_append, hreg, List.append_nil, hbefore, List.drop_eq_getElem_cons hlt,
          hw, ← List.singleton_append, handlers_append, List.append_assoc]
      · rw [calls_append]
        exact List.rel_append hcalls hcall

/-! ### The invariant of the state -/

/-- Every cell is accounted for, with `passed p` wrappers of its list passed, and every derived
promise belongs to one registration. -/
structure Recorded (passed : Ref → ℕ) (s : State V E F) : Prop where
  cells : ∀ p data, s.get? p = some data → Accounted s.log (passed p) p data
  fresh : ∀ p, s.heap.length ≤ p →
    passed p = 0 ∧ (∀ side, registrations side p s.log = []) ∧ calls p s.log = []
  outers_lt : ∀ outer ∈ outers s.log, outer < s.heap.length
  outers_nodup : (outers s.log).Nodup

namespace Recorded

variable {passed : Ref → ℕ} {s t : State V E F}

theorem alloc (h : Recorded passed s) (status : PromiseStatus V E) :
    Recorded passed (s.alloc { status }).1 := by
  refine ⟨?_, ?_, ?_, h.outers_nodup⟩
  · intro p data hget
    by_cases hp : p = s.heap.length
    · obtain ⟨hpassed, hreg, hcall⟩ := h.fresh p (Nat.le_of_eq hp.symm)
      simp only [State.get?_alloc, hp, if_true, Option.some.injEq] at hget
      subst hget
      rw [hpassed]
      exact .of_nothing status hreg hcall
    · exact h.cells p data (by simpa [hp] using hget)
  · intro p hp
    exact h.fresh p (Nat.le_of_succ_le (by simpa using hp))
  · intro outer houter
    simpa using Nat.lt_succ_of_lt (h.outers_lt outer houter)

/-- Rewriting the cell of `p`, moving on in its list, and appending events about it. -/
theorem update {passed' : Ref → ℕ} (h : Recorded passed s) {p : Ref} {data : PromiseData V E F}
    {f : PromiseData V E F → PromiseData V E F} (rest : List (Event V E F))
    (hget : s.get? p = some data) (hheap : t.heap = s.heap.modify p f)
    (hlog : t.log = s.log ++ rest) (hcell : Accounted t.log (passed' p) p (f data))
    (hpassed : ∀ q, q ≠ p → passed' q = passed q)
    (hreg : ∀ q, q ≠ p → ∀ side, registrations side q rest = [])
    (hcall : ∀ q, q ≠ p → calls q rest = []) (hlt : ∀ outer ∈ outers rest, outer < s.heap.length)
    (hnodup : (outers t.log).Nodup) : Recorded passed' t := by
  have hlen : t.heap.length = s.heap.length := by simp [hheap]
  have hget? : ∀ q, t.get? q = if q = p then (s.get? q).map f else s.get? q := by
    intro q
    have := s.get?_update p f q
    simpa [State.get?, State.update, hheap] using this
  refine ⟨?_, ?_, ?_, hnodup⟩
  · intro q cell hq
    rw [hget?] at hq
    by_cases hqp : q = p
    · subst q
      simp only [if_true, hget, Option.map_some, Option.some.injEq] at hq
      subst hq
      exact hcell
    · rw [hlog, hpassed q hqp]
      exact (h.cells q cell (by simpa [hqp] using hq)).append (hreg q hqp) (hcall q hqp)
  · intro q hq
    obtain ⟨hzero, hr, hc⟩ := h.fresh q (hlen ▸ hq)
    have hqp : q ≠ p := Nat.ne_of_gt (Nat.lt_of_lt_of_le (State.lt_of_get? hget) (hlen ▸ hq))
    exact ⟨(hpassed q hqp).trans hzero, fun side => by simp [hlog, hr side, hreg q hqp side],
      by simp [hlog, hc, hcall q hqp]⟩
  · intro outer houter
    rw [hlen]
    rw [hlog, outers_append, List.mem_append] at houter
    exact houter.elim (h.outers_lt outer) (hlt outer)

theorem change {T : Ref → Prop} (h : Recorded passed s) (hc : Change T s t) :
    Recorded passed t := by
  cases hc with
  | alloc status => exact h.alloc status
  | settle p data status target get pending settled =>
      refine h.update (f := fun cell => { cell with status, pendingCallback := true })
        [.enqueued p] get ?_ rfl ?_ (by simp) (by simp) (by simp) (by simp) ?_
      · simp [State.requestCallBack, State.update, State.record, List.modify_modify_eq,
          Function.comp_def]
      · exact ((h.cells p data get).settle pending settled).append (by simp) (by simp)
      · simpa using h.outers_nodup
  | request p data get settled =>
      refine h.update (f := fun cell => { cell with pendingCallback := true })
        [.enqueued p] get rfl rfl ?_ (by simp) (by simp) (by simp) (by simp) ?_
      · exact (h.cells p data get).flag.append (by simp) (by simp)
      · simpa using h.outers_nodup
  | adopt inner outer data target outer_lt get pending =>
      refine h.update [] get rfl (by simp) ?_ (by simp) (by simp [registrations])
        (by simp [calls]) (by simp [outers]) ?_
      · exact (h.cells inner data get).adopt pending
      · simpa using h.outers_nodup
  | register side p f data get open_ =>
      have hlt : p < s.heap.length := State.lt_of_get? get
      have hget : s.create.1.get? p = some data := by
        simp [State.create, get, Nat.ne_of_lt hlt]
      refine (h.alloc .pending).update [.registered side p s.heap.length f] hget rfl rfl
        ?_ (by simp) ?_ (by simp) (by simp) ?_
      · exact (h.cells p data get).register (open_.imp_right And.left)
      · intro q hq other
        simp [registrations_registered, Ne.symm hq]
      · have hnew : s.heap.length ∉ outers s.log := by
          intro hmem
          exact Nat.lt_irrefl _ (h.outers_lt _ hmem)
        simpa [State.create, List.nodup_append, h.outers_nodup] using
          fun outer houter => (ne_of_mem_of_not_mem houter hnew)

theorem changes {T : Ref → Prop} (h : Recorded passed s) (hc : Changes T s t) :
    Recorded passed t :=
  hc.induct (fun _ _ => change) h

/-- One wrapper of `p` has had its turn. -/
theorem pass (passed' : Ref → ℕ) {p : Ref} {data : PromiseData V E F} {w : Wrapper F}
    (rest : List (Event V E F)) (h : Recorded passed s) (hget : s.get? p = some data)
    (hdue : data.due[passed p]? = some w) (hp : passed' p = passed p + 1)
    (hpassed : ∀ q, q ≠ p → passed' q = passed q)
    (hreg : ∀ q side, registrations side q rest = []) (houters : outers rest = [])
    (hcall : ∀ q, q ≠ p → calls q rest = [])
    (hdeliver : List.Forall₂ (Delivers data.status) (handlers [w]) (calls p rest)) :
    Recorded passed' { s with log := s.log ++ rest } := by
  refine h.update (f := id) rest hget (by simp) rfl ?_ hpassed (fun q _ => hreg q) hcall
    (by simp [houters]) (by simpa [houters] using h.outers_nodup)
  rw [hp]
  exact (h.cells p data hget).pass hdue (hreg p) hdeliver

theorem finishCallBack {passed' : Ref → ℕ} {p : Ref} {data : PromiseData V E F}
    (h : Recorded passed s) (hget : s.get? p = some data) (hdue : data.due[passed p]? = none)
    (hsettled : data.status ≠ .pending) (hp : passed' p = 0)
    (hpassed : ∀ q, q ≠ p → passed' q = passed q) : Recorded passed' (s.finishCallBack p) := by
  refine h.update [] hget rfl (by simp [State.finishCallBack]) ?_ hpassed
    (by simp [registrations]) (by simp [calls]) (by simp [outers])
    (by simpa [State.finishCallBack] using h.outers_nodup)
  rw [hp]
  exact (h.cells p data hget).finish hdue hsettled

end Recorded

/-! ### Over whole runs -/

/-- How many wrappers of the list of `p` have had their turn in the running `call_back`. -/
def Control.passed {E : Type*} : Control F E → Ref → ℕ
  | .callBack _ p j, q => if q = p then j else 0
  | .handler _ p j _ _, q => if q = p then j + 1 else 0
  | _, _ => 0

/-- The next wrapper is a rejected handler that declares another error type than that of the
stored error: its derived promise. -/
def Config.failing? (c : Config V E F) : Option Ref :=
  match c.control with
  | .callBack _ p j =>
      match c.state.get? p with
      | some data =>
          match data.status, data.due[j]? with
          | .rejected e, some (.handler outer f) =>
              if (eptrCast (FnTrait.errorType f) e).isOk then none else some outer
          | _, _ => none
      | none => none
  | _ => none

theorem failing?_of_argFor {s : State V E F} {i j : ℕ} {p outer : Ref}
    {data : PromiseData V E F} {f : F} {e : Exn E} (hget : s.get? p = some data)
    (hdue : data.due[j]? = some (.handler outer f)) (harg : data.status.argFor f = .error e) :
    Config.failing? ⟨s, .callBack i p j⟩ = some outer := by
  cases hstatus : data.status with
  | pending => simp [PromiseData.due_of_pending hstatus] at hdue
  | resolved v => simp [hstatus, PromiseStatus.argFor] at harg
  | rejected error =>
      cases hcast : eptrCast (FnTrait.errorType f) error with
      | ok o => simp [hstatus, PromiseStatus.argFor, hcast, Except.map] at harg
      | error x => simp [Config.failing?, hget, hstatus, hdue, hcast, Except.isOk, Except.toBool]

theorem Recorded.initial : Recorded (fun _ => 0) (State.mk [] [] [] : State V E F) := by
  refine ⟨?_, ?_, ?_, ?_⟩ <;> simp [State.get?, registrations, calls, outers]

variable [Blank V]

theorem Recorded.step {c c' : Config V E F} {l : Label V E F}
    (h : Recorded c.control.passed c.state) (hq : QueueInv c) (hm : c.failing? = none)
    (hstep : Step c l c') : Recorded c'.control.passed c'.state := by
  cases hstep with
  | op s control o user known => exact h.changes (s.perform_changes o)
  | start s => exact h
  | next s i p entry =>
      have hzero : (Control.callBack i p 0 : Control F E).passed = fun _ => 0 := by
        funext q
        simp [Control.passed]
      rw [hzero]
      exact h
  | clear s i entry => exact ⟨h.cells, h.fresh, h.outers_lt, h.outers_nodup⟩
  | adopted s i p j data outer get due =>
      have hpass := h.pass (Control.callBack i p (j + 1) : Control F E).passed [] get
        (by simpa [Control.passed] using due) (by simp [Control.passed])
        (by intro q hq; simp [Control.passed, hq]) (by simp [registrations]) rfl
        (by simp [calls]) (by simp [calls])
      simp only [List.append_nil] at hpass
      exact hpass.changes (s.adoptStatus_changes (T := (· = outer)) outer data.status rfl)
  | called s i p j data outer f arg get due arg_eq =>
      refine h.pass (Control.handler i p j outer f : Control F E).passed _ get
        (by simpa [Control.passed] using due) (by simp [Control.passed])
        (by intro q hq; simp [Control.passed, hq]) (by simp) rfl ?_ ?_
      · intro q hq
        simp [calls_called, Ne.symm hq]
      · simpa [calls_called, Delivers] using arg_eq
  | mismatch s i p j data outer f e get due arg_eq =>
      simp [failing?_of_argFor get due arg_eq] at hm
  | finished s i p j data get due =>
      have hentry := List.mem_of_getElem? (hq.current p rfl)
      obtain ⟨cell, hcell, hsettled⟩ := hq.queued.settled p hentry
      obtain rfl : data = cell := Option.some.inj (get.symm.trans hcell)
      exact h.finishCallBack get (by simpa [Control.passed] using due) hsettled
        (by simp [Control.passed]) (by intro q hq; simp [Control.passed, hq])
  | returned s i p j outer f result known =>
      exact Recorded.changes h
        (s.finishHandler_changes f result (hq.scope.outer i p j outer f rfl))
  | resume s exit => exact h

/-- In this run no handler meets an error of another type than it declares. -/
def NoMismatch (ls : List (Label V E F)) : Prop :=
  Automaton.EachStep step (fun c _ => c.failing? = none) Config.initial ls

theorem RunsTo.recorded {ls : List (Label V E F)} {c : Config V E F} (h : RunsTo ls c)
    (hm : NoMismatch ls) : Recorded c.control.passed c.state := by
  have hinv : ∀ (c : Config V E F) l c', QueueInv c ∧ Recorded c.control.passed c.state →
      c.failing? = none → step c l = some c' →
      QueueInv c' ∧ Recorded c'.control.passed c'.state := by
    intro c l c' ⟨hq, hr⟩ hguard hstep
    exact ⟨hq.step (.of_step hstep), hr.step hq hguard (.of_step hstep)⟩
  exact (Automaton.run_invariant hinv ⟨QueueInv.initial, Recorded.initial⟩ hm h).2

end Libasync.Promise
