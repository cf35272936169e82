import Libasync.Promise.Model
import Mathlib.Logic.Relation

/-! # Computation rules of the promise module

The operations are reduced to five elementary changes of the state. What the invariants need to
know about an operation is which promises it may settle or make the target of an internal
callback. -/

namespace Libasync.Promise

variable {V E F : Type*}

/-! ### Cells -/

namespace PromiseData

@[simp] theorem pushWrapper_status (data : PromiseData V E F) (side : Side) (w : Wrapper F) :
    (data.pushWrapper side w).status = data.status := by
  cases side <;> rfl

@[simp] theorem pushWrapper_pendingCallback (data : PromiseData V E F) (side : Side)
    (w : Wrapper F) : (data.pushWrapper side w).pendingCallback = data.pendingCallback := by
  cases side <;> rfl

theorem wrappers_pushWrapper (data : PromiseData V E F) (side other : Side) (w : Wrapper F) :
    (data.pushWrapper side w).wrappers other =
      data.wrappers other ++ if other = side then [w] else [] := by
  cases side <;> cases other <;> simp [pushWrapper, wrappers]

@[simp] theorem wrappers_setStatus (data : PromiseData V E F) (status : PromiseStatus V E)
    (side : Side) : { data with status }.wrappers side = data.wrappers side := by
  cases side <;> rfl

@[simp] theorem wrappers_setPendingCallback (data : PromiseData V E F) (flag : Bool)
    (side : Side) :
    { data with pendingCallback := flag }.wrappers side = data.wrappers side := by
  cases side <;> rfl

theorem due_of_side {data : PromiseData V E F} {side : Side}
    (h : data.status.side? = some side) : data.due = data.wrappers side := by
  simp [due, h]

theorem due_of_pending {data : PromiseData V E F} (h : data.status = .pending) :
    data.due = [] := by
  simp [due, h, PromiseStatus.side?]

end PromiseData

theorem PromiseStatus.side?_eq_none {status : PromiseStatus V E} :
    status.side? = none ↔ status = .pending := by
  cases status <;> simp [side?]

/-- A call is given the promise whose context it goes through. -/
theorem Op.context_mem_refs {o : Op V E F} {p : Ref} (h : o.context? = some p) : p ∈ o.refs := by
  cases o <;> simp_all [context?, refs]

/-! ### State updates -/

namespace State

@[simp] theorem get?_alloc (s : State V E F) (data : PromiseData V E F) (q : Ref) :
    (s.alloc data).1.get? q = if q = s.heap.length then some data else s.get? q := by
  simp only [alloc, get?]
  rcases Nat.lt_trichotomy q s.heap.length with h | h | h
  · simp [List.getElem?_append_left h, Nat.ne_of_lt h]
  · simp [h]
  · rw [List.getElem?_eq_none (by simpa using Nat.succ_le_of_lt h),
      List.getElem?_eq_none (Nat.le_of_lt h)]
    simp [Nat.ne_of_gt h]

@[simp] theorem get?_update (s : State V E F) (p : Ref)
    (f : PromiseData V E F → PromiseData V E F) (q : Ref) :
    (s.update p f).get? q = if q = p then (s.get? q).map f else s.get? q := by
  simp only [update, get?, List.getElem?_modify]
  by_cases h : p = q
  · simp [h]
  · simp [h, Ne.symm h]

@[simp] theorem get?_record (s : State V E F) (e : Event V E F) (q : Ref) :
    (s.record e).get? q = s.get? q := rfl

@[simp] theorem get?_requestCallBack (s : State V E F) (p q : Ref) :
    (s.requestCallBack p).get? q =
      if q = p then (s.get? q).map fun data => { data with pendingCallback := true }
      else s.get? q :=
  get?_update s p _ q

@[simp] theorem get?_register (s : State V E F) (side : Side) (p outer : Ref) (f : F) (q : Ref) :
    (s.register side p outer f).get? q =
      if q = p then (s.get? q).map fun data => data.pushWrapper side (.handler outer f)
      else s.get? q :=
  get?_update s p _ q

@[simp] theorem alloc_ref (s : State V E F) (data : PromiseData V E F) :
    (s.alloc data).2 = s.heap.length := rfl

@[simp] theorem alloc_queue (s : State V E F) (data : PromiseData V E F) :
    (s.alloc data).1.queue = s.queue := rfl

@[simp] theorem update_queue (s : State V E F) (p : Ref)
    (f : PromiseData V E F → PromiseData V E F) : (s.update p f).queue = s.queue := rfl

@[simp] theorem requestCallBack_queue (s : State V E F) (p : Ref) :
    (s.requestCallBack p).queue = s.queue ++ [p] := rfl

@[simp] theorem register_queue (s : State V E F) (side : Side) (p outer : Ref) (f : F) :
    (s.register side p outer f).queue = s.queue := rfl

@[simp] theorem alloc_log (s : State V E F) (data : PromiseData V E F) :
    (s.alloc data).1.log = s.log := rfl

@[simp] theorem update_log (s : State V E F) (p : Ref)
    (f : PromiseData V E F → PromiseData V E F) : (s.update p f).log = s.log := rfl

@[simp] theorem requestCallBack_log (s : State V E F) (p : Ref) :
    (s.requestCallBack p).log = s.log ++ [.enqueued p] := rfl

@[simp] theorem register_log (s : State V E F) (side : Side) (p outer : Ref) (f : F) :
    (s.register side p outer f).log = s.log ++ [.registered side p outer f] := rfl

@[simp] theorem alloc_length (s : State V E F) (data : PromiseData V E F) :
    (s.alloc data).1.heap.length = s.heap.length + 1 := by
  simp [alloc]

@[simp] theorem update_length (s : State V E F) (p : Ref)
    (f : PromiseData V E F → PromiseData V E F) :
    (s.update p f).heap.length = s.heap.length := by
  simp [update]

@[simp] theorem requestCallBack_length (s : State V E F) (p : Ref) :
    (s.requestCallBack p).heap.length = s.heap.length := by
  simp [requestCallBack, record]

@[simp] theorem register_length (s : State V E F) (side : Side) (p outer : Ref) (f : F) :
    (s.register side p outer f).heap.length = s.heap.length := by
  simp [register, record]

theorem lt_of_get? {s : State V E F} {p : Ref} {data : PromiseData V E F}
    (h : s.get? p = some data) : p < s.heap.length :=
  (List.getElem?_eq_some_iff.mp h).1

theorem lt_of_has {s : State V E F} {refs : List Ref} (h : s.has refs = true) {p : Ref}
    (hp : p ∈ refs) : p < s.heap.length := by
  simpa using List.all_eq_true.mp h p hp

/-- Allocating a cell commutes with a callback request for an older one. -/
theorem alloc_requestCallBack (s : State V E F) (data : PromiseData V E F) {p : Ref}
    (h : p < s.heap.length) :
    (s.alloc data).1.requestCallBack p = ((s.requestCallBack p).alloc data).1 := by
  have hmodify (f : PromiseData V E F → PromiseData V E F) :
      (s.heap ++ [data]).modify p f = s.heap.modify p f ++ [data] := by
    apply List.ext_getElem?
    intro q
    rcases Nat.lt_or_ge q s.heap.length with hq | hq
    · simp only [List.getElem?_modify, List.getElem?_append_left hq,
        List.getElem?_append_left (by simpa using hq : q < (s.heap.modify p f).length)]
    · simp [List.getElem?_append_right, hq,
        Nat.ne_of_lt (Nat.lt_of_lt_of_le h hq)]
  simp only [alloc, requestCallBack, update, record, hmodify]

end State

end Libasync.Promise
