import Libasync.Promise.Equations

/-! # Elementary changes of the promise state

Every operation is a sequence of the five changes below, so an invariant is checked once for
each change and not once for each operation. -/

namespace Libasync.Promise

variable {V E F : Type*}

/-- The elementary changes. `T` are the promises that may be settled or made the target of an
internal callback. -/
inductive Change (T : Ref → Prop) : State V E F → State V E F → Prop where
  | alloc (s : State V E F) (status : PromiseStatus V E) : Change T s (s.alloc { status }).1
  | settle (s : State V E F) (p : Ref) (data : PromiseData V E F) (status : PromiseStatus V E)
      (target : T p) (get : s.get? p = some data) (pending : data.status = .pending)
      (settled : status ≠ .pending) :
      Change T s ((s.update p fun data => { data with status }).requestCallBack p)
  | request (s : State V E F) (p : Ref) (data : PromiseData V E F)
      (get : s.get? p = some data) (settled : data.status ≠ .pending) :
      Change T s (s.requestCallBack p)
  | adopt (s : State V E F) (inner outer : Ref) (data : PromiseData V E F) (target : T outer)
      (outer_lt : outer < s.heap.length) (get : s.get? inner = some data)
      (pending : data.status = .pending) :
      Change T s (s.update inner fun data =>
        (data.pushWrapper .fulfilled (.adopt outer)).pushWrapper .rejected (.adopt outer))
  | register (s : State V E F) (side : Side) (p : Ref) (f : F) (data : PromiseData V E F)
      (get : s.get? p = some data)
      (open_ : data.status = .pending ∨
        data.status.side? = some side ∧ data.pendingCallback = true) :
      Change T s ((s.create.1).register side p s.heap.length f)

/-- Finitely many elementary changes. -/
abbrev Changes (T : Ref → Prop) : State V E F → State V E F → Prop :=
  Relation.ReflTransGen (Change T)

theorem Change.mono {T U : Ref → Prop} (hTU : ∀ p, T p → U p) {s t : State V E F}
    (h : Change T s t) : Change U s t := by
  cases h with
  | alloc status => exact .alloc s status
  | settle p data status target get pending settled =>
      exact .settle s p data status (hTU p target) get pending settled
  | request p data get settled => exact .request s p data get settled
  | adopt inner outer data target outer_lt get pending =>
      exact .adopt s inner outer data (hTU outer target) outer_lt get pending
  | register side p f data get open_ => exact .register s side p f data get open_

theorem Changes.mono {T U : Ref → Prop} (hTU : ∀ p, T p → U p) {s t : State V E F}
    (h : Changes T s t) : Changes U s t :=
  Relation.ReflTransGen.mono (fun _ _ => Change.mono hTU) _ _ h

/-- A property kept by every elementary change is kept by a sequence of them. -/
theorem Changes.induct {T : Ref → Prop} {I : State V E F → Prop}
    (hI : ∀ s t, I s → Change T s t → I t) {s t : State V E F} (h : Changes T s t) (hs : I s) :
    I t := by
  induction h with
  | refl => exact hs
  | tail _ hstep ih => exact hI _ _ ih hstep

theorem Change.length_le {T : Ref → Prop} {s t : State V E F} (h : Change T s t) :
    s.heap.length ≤ t.heap.length := by
  cases h <;> simp [State.create]

theorem Changes.length_le {T : Ref → Prop} {s t : State V E F} (h : Changes T s t) :
    s.heap.length ≤ t.heap.length :=
  h.induct (I := fun u => s.heap.length ≤ u.heap.length)
    (fun _ _ hs hc => Nat.le_trans hs hc.length_le) (Nat.le_refl _)

/-! ### The effect on one cell -/

/-- A wrapper that an elementary change of a heap of `n` cells may push. -/
def Pushed (T : Ref → Prop) (n : ℕ) (w : Wrapper F) : Prop :=
  (∃ outer, w = .adopt outer ∧ T outer) ∨ ∃ f, w = .handler n f

/-- An old cell keeps its status or is settled, and its lists grow at the end. The heap grows
from `n` to `m` cells. -/
structure CellStep (T : Ref → Prop) (n m : ℕ) (q : Ref) (data data' : PromiseData V E F) :
    Prop where
  status : data'.status = data.status ∨ T q ∧ data.status = .pending
  wrappers : ∀ side, ∃ pushed, data'.wrappers side = data.wrappers side ++ pushed ∧
    ∀ w ∈ pushed, Pushed T n w ∧ w.target < m

theorem CellStep.of_wrappers {T : Ref → Prop} {n m : ℕ} {q : Ref}
    {data data' : PromiseData V E F}
    (hstatus : data'.status = data.status ∨ T q ∧ data.status = .pending)
    (hwrappers : ∀ side, data'.wrappers side = data.wrappers side) :
    CellStep T n m q data data' :=
  ⟨hstatus, fun side => ⟨[], by simp [hwrappers], by simp⟩⟩

theorem Change.cell {T : Ref → Prop} {s t : State V E F} (h : Change T s t) {q : Ref}
    {data : PromiseData V E F} (hget : s.get? q = some data) :
    ∃ data', t.get? q = some data' ∧
      CellStep T s.heap.length t.heap.length q data data' := by
  cases h with
  | alloc status =>
      exact ⟨data, by simp [hget, Nat.ne_of_lt (State.lt_of_get? hget)],
        .of_wrappers (.inl rfl) fun _ => rfl⟩
  | settle p cell status target get pending settled =>
      by_cases hq : q = p
      · subst q
        obtain rfl : cell = data := Option.some.inj (get.symm.trans hget)
        refine ⟨{ cell with status, pendingCallback := true }, by simp [hget], ?_⟩
        exact .of_wrappers (.inr ⟨target, pending⟩) fun side => by cases side <;> rfl
      · exact ⟨data, by simp [hget, hq], .of_wrappers (.inl rfl) fun _ => rfl⟩
  | request p cell get settled =>
      by_cases hq : q = p
      · subst q
        refine ⟨{ data with pendingCallback := true }, by simp [hget], ?_⟩
        exact .of_wrappers (.inl rfl) fun side => by cases side <;> rfl
      · exact ⟨data, by simp [hget, hq], .of_wrappers (.inl rfl) fun _ => rfl⟩
  | adopt inner outer cell target outer_lt get pending =>
      by_cases hq : q = inner
      · subst q
        refine ⟨_, by simp [hget]; rfl, .inl (by simp), ?_⟩
        intro side
        refine ⟨[.adopt outer], ?_, ?_⟩
        · rw [PromiseData.wrappers_pushWrapper, PromiseData.wrappers_pushWrapper]
          cases side <;> simp
        · intro w hw
          obtain rfl := List.mem_singleton.mp hw
          exact ⟨.inl ⟨outer, rfl, target⟩, by simpa [Wrapper.target] using outer_lt⟩
      · exact ⟨data, by simp [hget, hq], .of_wrappers (.inl rfl) fun _ => rfl⟩
  | register side p f cell get open_ =>
      have hnew : q ≠ s.heap.length := Nat.ne_of_lt (State.lt_of_get? hget)
      by_cases hq : q = p
      · subst q
        refine ⟨data.pushWrapper side (.handler s.heap.length f),
          by simp [State.create, hget, hnew], .inl (by simp), ?_⟩
        intro other
        rw [PromiseData.wrappers_pushWrapper]
        refine ⟨_, rfl, ?_⟩
        intro w hw
        split at hw
        · obtain rfl := List.mem_singleton.mp hw
          exact ⟨.inr ⟨f, rfl⟩, by simp [Wrapper.target, State.create]⟩
        · simp at hw
      · exact ⟨data, by simp [State.create, hget, hq, hnew], .of_wrappers (.inl rfl) fun _ => rfl⟩

/-- A new cell has no wrappers. -/
theorem Change.new_cell {T : Ref → Prop} {s t : State V E F} (h : Change T s t) {q : Ref}
    {data : PromiseData V E F} (hnew : s.get? q = none) (hget : t.get? q = some data) :
    q = s.heap.length ∧ ∀ side, data.wrappers side = [] := by
  cases h with
  | alloc status =>
      simp only [State.get?_alloc, hnew, Option.ite_none_right_eq_some, Option.some.injEq] at hget
      obtain ⟨hq, rfl⟩ := hget
      exact ⟨hq, fun side => by cases side <;> rfl⟩
  | settle p cell status target get pending settled =>
      simp [hnew] at hget
  | request p cell get settled => simp [hnew] at hget
  | adopt inner outer cell target outer_lt get pending => simp [hnew] at hget
  | register side p f cell get open_ =>
      have hqp : q ≠ p := by
        rintro rfl
        simp [get] at hnew
      simp only [State.get?_register, hqp, if_false, State.create, State.get?_alloc, hnew,
        Option.ite_none_right_eq_some, Option.some.injEq] at hget
      obtain ⟨hq, rfl⟩ := hget
      exact ⟨hq, fun side => by cases side <;> rfl⟩

/-! ### What the operations consist of -/

namespace State

theorem settle_changes {T : Ref → Prop} (s : State V E F) (p : Ref) {status : PromiseStatus V E}
    (hstatus : status ≠ .pending) (hp : T p) : Changes T s (s.settle p status) := by
  unfold settle
  cases hget : s.get? p with
  | none => exact .refl
  | some data =>
      cases hdata : data.status with
      | pending => simpa [hdata] using .single (.settle s p data status hp hget hdata hstatus)
      | resolved v => simp [hdata, Relation.ReflTransGen.refl]
      | rejected e => simp [hdata, Relation.ReflTransGen.refl]

theorem resolveImpl_changes {T : Ref → Prop} (s : State V E F) (p : Ref) (v : V) (hp : T p) :
    Changes T s (s.resolveImpl p v) :=
  s.settle_changes p (by simp) hp

theorem rejectImpl_changes {T : Ref → Prop} (s : State V E F) (p : Ref) (e : Exn E) (hp : T p) :
    Changes T s (s.rejectImpl p e) :=
  s.settle_changes p (by simp) hp

theorem adoptStatus_changes {T : Ref → Prop} (s : State V E F) (outer : Ref)
    (status : PromiseStatus V E) (hp : T outer) : Changes T s (s.adoptStatus outer status) := by
  cases status with
  | pending => exact .refl
  | resolved v => exact s.resolveImpl_changes outer v hp
  | rejected e => exact s.rejectImpl_changes outer _ hp

theorem associateStatus_changes {T : Ref → Prop} (s : State V E F) (outer inner : Ref)
    (hp : T outer) (hlt : outer < s.heap.length) :
    Changes T s (s.associateStatus outer inner) := by
  unfold associateStatus
  cases hget : s.get? inner with
  | none => exact .refl
  | some data =>
      cases hdata : data.status with
      | pending => simpa [hdata] using .single (.adopt s inner outer data hp hlt hget hdata)
      | resolved v => simpa [hdata] using s.resolveImpl_changes outer v hp
      | rejected e => simpa [hdata] using s.rejectImpl_changes outer _ hp

theorem resolvePromiseImpl_changes {T : Ref → Prop} (s : State V E F) (p inner : Ref)
    (hp : T p) : Changes T s (s.resolvePromiseImpl p inner) := by
  unfold resolvePromiseImpl
  cases hget : s.get? p with
  | none => exact .refl
  | some data =>
      simp only [Option.map_some]
      split
      · exact s.associateStatus_changes p inner hp (lt_of_get? hget)
      · exact .refl

theorem resolvedVoid_changes [Blank V] {T : Ref → Prop} (s : State V E F)
    (hT : T s.heap.length) : Changes T s s.resolvedVoid.1 :=
  .head (.alloc s .pending) (resolveImpl_changes _ _ _ hT)

theorem rejectedVoid_changes {T : Ref → Prop} (s : State V E F) (e : Exn E)
    (hT : T s.heap.length) : Changes T s (s.rejectedVoid e).1 :=
  .head (.alloc s .pending) (rejectImpl_changes _ _ _ hT)

/-- Registering a handler settles nothing. -/
theorem attach_changes {T : Ref → Prop} (side : Side) (s : State V E F) (p : Ref) (f : F) :
    Changes T s (s.attach side p f).1 := by
  unfold attach
  cases hget : s.get? p with
  | none => exact .single (.alloc s .pending)
  | some data =>
      simp only
      cases hside : data.status.side? with
      | none =>
          exact .single (.register s side p f data hget
            (.inl (PromiseStatus.side?_eq_none.mp hside)))
      | some settled =>
          have hsettled : data.status ≠ .pending := by
            intro h
            simp [h, PromiseStatus.side?] at hside
          by_cases hs : settled = side
          · subst settled
            cases hflag : data.pendingCallback with
            | true => simpa using .single (.register s side p f data hget (.inr ⟨hside, hflag⟩))
            | false =>
                have hcomm : s.create.1.requestCallBack p = (s.requestCallBack p).create.1 :=
                  s.alloc_requestCallBack {} (lt_of_get? hget)
                have hregister : Change T (s.requestCallBack p)
                    (((s.requestCallBack p).create.1).register side p
                      (s.requestCallBack p).heap.length f) :=
                  .register _ side p f { data with pendingCallback := true } (by simp [hget])
                    (.inr ⟨hside, rfl⟩)
                rw [requestCallBack_length] at hregister
                simp only [if_true, Bool.false_eq_true, if_false, hcomm]
                exact .head (.request s p data hget hsettled) (.single hregister)
          · simp only [hs, if_false]
            exact .head (.alloc s .pending) (.single (.alloc _ .pending))

/-- A call settles, or redirects, only the promise of the context it goes through and the
promises it creates. -/
theorem perform_changes [Blank V] (s : State V E F) (o : Op V E F) :
    Changes (fun q => o.context? = some q ∨ s.heap.length ≤ q) s (s.perform o) := by
  cases o with
  | promise => exact .single (.alloc s .pending)
  | resolved v => exact .single (.alloc s (.resolved v))
  | resolvedVoid => exact s.resolvedVoid_changes (.inr (Nat.le_refl _))
  | rejected e => exact .single (.alloc s _)
  | rejectedVoid e => exact s.rejectedVoid_changes e (.inr (Nat.le_refl _))
  | resolve p v => exact s.resolveImpl_changes p v (.inl rfl)
  | resolvePromise p inner => exact s.resolvePromiseImpl_changes p inner (.inl rfl)
  | reject p e => exact s.rejectImpl_changes p e (.inl rfl)
  | then_ p f => exact attach_changes .fulfilled s p f
  | catch_ p f => exact attach_changes .rejected s p f

theorem runHelper_changes [Blank V] [FnTrait F E] (s : State V E F) (f : F)
    (result : Outcome V E) : Changes (s.heap.length ≤ ·) s (s.runHelper f result).1 := by
  cases result with
  | returned r =>
      cases r with
      | value v => exact .single (.alloc s (.resolved v))
      | void => exact s.resolvedVoid_changes (Nat.le_refl _)
      | promise q => exact .refl
  | threw e =>
      simp only [runHelper]
      split
      · exact s.rejectedVoid_changes _ (Nat.le_refl _)
      · exact .single (.alloc s _)

/-- A finished handler settles, or redirects, only its derived promise and the promise made for
its outcome. -/
theorem finishHandler_changes [Blank V] [FnTrait F E] (s : State V E F) {outer : Ref} (f : F)
    (result : Outcome V E) (hlt : outer < s.heap.length) :
    Changes (fun q => q = outer ∨ s.heap.length ≤ q) s (s.finishHandler outer f result) := by
  have hhelper := s.runHelper_changes f result
  exact (hhelper.mono fun _ => .inr).trans
    (associateStatus_changes _ outer _ (.inl rfl) (Nat.lt_of_lt_of_le hlt hhelper.length_le))

end State

end Libasync.Promise
