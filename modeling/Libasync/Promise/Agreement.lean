import Libasync.Promise.UnitVersion

/-! # Operations on the two versions of the heap

A promise whose entry is early, and which has no handler, is not flagged in the general version.
All other cells are the same. Every operation keeps this. -/

namespace Libasync.Promise

variable {V E F : Type*}

/-- The cell in the general version. -/
def PromiseData.atUnit (data : PromiseData V E F) (entries : List (Ref × Bool)) (p : Ref) :
    PromiseData V E F :=
  { data with
    pendingCallback := data.pendingCallback && !(decide ((p, true) ∈ entries) && data.due.isEmpty) }

/-- The state of a program, up to position `i` of its queue, and that of the general version. -/
structure Agrees (i : ℕ) (s : State V E F) (entries : List (Ref × Bool)) (t : State V E F) :
    Prop where
  entries_fst : entries.map Prod.fst = s.queue
  queue : t.queue = late entries
  once : (early entries).Nodup
  bound : i ≤ entries.length
  cells : ∀ p, t.get? p = (s.get? p).map fun data => data.atUnit entries p
  made : ∀ p, (p, true) ∈ entries → ∃ data side, s.get? p = some data ∧
    data.status.side? = some side ∧ ∀ other, other ≠ side → data.wrappers other = []
  visited : ∀ p data, (p, true) ∈ entries.take i → s.get? p = some data →
    data.pendingCallback = true → data.due ≠ []

namespace PromiseData

variable {data : PromiseData V E F} {entries : List (Ref × Bool)} {p : Ref}

@[simp] theorem atUnit_status : (data.atUnit entries p).status = data.status := rfl

@[simp] theorem atUnit_wrappers (side : Side) :
    (data.atUnit entries p).wrappers side = data.wrappers side := by
  cases side <;> rfl

@[simp] theorem atUnit_due : (data.atUnit entries p).due = data.due := by
  simp [due]

theorem atUnit_eq (h : (p, true) ∈ entries → data.pendingCallback = true → data.due ≠ []) :
    data.atUnit entries p = data := by
  obtain ⟨status, flag, fulfilled, rejected⟩ := data
  simp only [atUnit, mk.injEq, true_and, and_true]
  cases flag with
  | false => rfl
  | true =>
      by_cases hmem : (p, true) ∈ entries
      · simpa [hmem, List.isEmpty_eq_false_iff] using h hmem rfl
      · simp [hmem]

end PromiseData

namespace Agrees

variable {i n : ℕ} {s t : State V E F} {entries : List (Ref × Bool)} {p outer inner : Ref}

theorem get? (h : Agrees i s entries t) {data : PromiseData V E F} (hget : s.get? p = some data) :
    t.get? p = some (data.atUnit entries p) := by
  rw [h.cells, hget]
  rfl

theorem status? (h : Agrees i s entries t) (p : Ref) :
    (t.get? p).map PromiseData.status = (s.get? p).map PromiseData.status := by
  rw [h.cells, Option.map_map]
  rfl

theorem length_eq (h : Agrees i s entries t) : t.heap.length = s.heap.length := by
  have hnone (p : Ref) : t.heap[p]? = none ↔ s.heap[p]? = none := by
    have hcell := h.cells p
    simp only [State.get?] at hcell
    rw [hcell, Option.map_eq_none_iff]
  apply Nat.le_antisymm
  · exact List.getElem?_eq_none_iff.mp ((hnone _).mpr (List.getElem?_eq_none_iff.mpr le_rfl))
  · exact List.getElem?_eq_none_iff.mp ((hnone _).mp (List.getElem?_eq_none_iff.mpr le_rfl))

theorem has (h : Agrees i s entries t) (refs : List Ref) : t.has refs = s.has refs := by
  simp [State.has, h.length_eq]

theorem entry_lt (h : Agrees i s entries t) (hp : (p, true) ∈ entries) : p < s.heap.length := by
  obtain ⟨data, -, hget, -⟩ := h.made p hp
  exact State.lt_of_get? hget

/-- A promise that is pending has no early entry. -/
theorem not_early (h : Agrees i s entries t) {data : PromiseData V E F}
    (hget : s.get? p = some data) (hpending : data.status = .pending) : (p, true) ∉ entries := by
  intro hp
  obtain ⟨data', side, hget', hside, -⟩ := h.made p hp
  obtain rfl := Option.some.inj (hget.symm.trans hget')
  simp [hpending, PromiseStatus.side?] at hside

theorem grown_self (h : Agrees i s entries t) : grown n entries s = entries :=
  grown_of_eq h.entries_fst.symm

theorem with_grown (h : Agrees i s entries t) (n : ℕ) : Agrees i s (grown n entries s) t := by
  rwa [h.grown_self]

/-! ### Cells that change alike -/

/-- What may happen to the cell of a promise whose entry is early: it gets handlers. -/
structure Kept (data data' : PromiseData V E F) : Prop where
  status : data'.status = data.status
  other : ∀ side, data.status.side? ≠ some side → data'.wrappers side = data.wrappers side
  bare : data'.pendingCallback = true → data'.due = [] →
    data.pendingCallback = true ∧ data.due = []

theorem Kept.refl (data : PromiseData V E F) : Kept data data :=
  ⟨rfl, fun _ _ => rfl, fun hflag hdue => ⟨hflag, hdue⟩⟩

theorem mem_append_late {rest : List Ref} :
    (p, true) ∈ entries ++ rest.map (fun q => (q, false)) ↔ (p, true) ∈ entries := by
  simp

/-- The cells change in both versions alike, and the same promises enter both queues. -/
theorem of_cells {s' t' : State V E F} (h : Agrees i s entries t) (rest : List Ref)
    (hqueue : s'.queue = s.queue ++ rest) (hqueue' : t'.queue = t.queue ++ rest)
    (hcells : ∀ p, t'.get? p = (s'.get? p).map fun data => data.atUnit entries p)
    (hkept : ∀ p data, (p, true) ∈ entries → s.get? p = some data →
      ∃ data', s'.get? p = some data' ∧ Kept data data') :
    Agrees i s' (entries ++ rest.map fun q => (q, false)) t' where
  entries_fst := by
    rw [hqueue, ← h.entries_fst]
    simp [Function.comp_def]
  queue := by
    rw [hqueue', h.queue, late_append]
    simp [late, List.filter_map, Function.comp_def]
  once := by
    rw [early_append]
    simpa [early, List.filter_map, Function.comp_def] using h.once
  bound := h.bound.trans (by simp)
  cells p := by simpa [PromiseData.atUnit] using hcells p
  made p hp := by
    obtain ⟨data, side, hget, hside, hother⟩ := h.made p (mem_append_late.mp hp)
    obtain ⟨data', hget', hdata⟩ := hkept p data (mem_append_late.mp hp) hget
    refine ⟨data', side, hget', by rw [hdata.status, hside], fun other hne => ?_⟩
    rw [hdata.other other (by simpa [hside] using Ne.symm hne)]
    exact hother other hne
  visited p data' hp hget' hflag hdue := by
    rw [List.take_append_of_le_length h.bound] at hp
    have hmem := List.mem_of_mem_take hp
    obtain ⟨data, side, hget, -⟩ := h.made p hmem
    obtain ⟨data'', hget'', hdata⟩ := hkept p data hmem hget
    obtain rfl := Option.some.inj (hget'.symm.trans hget'')
    obtain ⟨hflag₀, hdue₀⟩ := hdata.bare hflag hdue
    exact h.visited p data hp hget hflag₀ hdue₀

/-- The cells change in both versions alike, and the queues stay. -/
theorem of_cells_same {s' t' : State V E F} (h : Agrees i s entries t)
    (hqueue : s'.queue = s.queue) (hqueue' : t'.queue = t.queue)
    (hcells : ∀ p, t'.get? p = (s'.get? p).map fun data => data.atUnit entries p)
    (hkept : ∀ p data, (p, true) ∈ entries → s.get? p = some data →
      ∃ data', s'.get? p = some data' ∧ Kept data data') : Agrees i s' entries t' := by
  simpa using h.of_cells [] (by simpa using hqueue) (by simpa using hqueue') hcells hkept

theorem alloc (h : Agrees i s entries t) (data : PromiseData V E F)
    (hdata : data.pendingCallback = false) :
    Agrees i (s.alloc data).1 entries (t.alloc data).1 := by
  refine h.of_cells_same rfl rfl (fun p => ?_) (fun p cell hp hget => ⟨cell, ?_, .refl cell⟩)
  · by_cases hp : p = s.heap.length
    · simp [hp, h.length_eq, PromiseData.atUnit_eq, hdata]
    · simp [hp, h.length_eq, h.cells]
  · simp [hget, Nat.ne_of_lt (h.entry_lt hp)]

theorem create (h : Agrees i s entries t) : Agrees i s.create.1 entries t.create.1 :=
  h.alloc {} rfl

/-- Pushing a wrapper on a pending promise. -/
theorem push (h : Agrees i s entries t) {data : PromiseData V E F} (hget : s.get? p = some data)
    (hpending : data.status = .pending) {f : PromiseData V E F → PromiseData V E F} :
    Agrees i (s.update p f) entries (t.update p f) := by
  have hp := h.not_early hget hpending
  have hsame (data : PromiseData V E F) : data.atUnit entries p = data :=
    PromiseData.atUnit_eq fun hmem => absurd hmem hp
  refine h.of_cells_same rfl rfl (fun q => ?_) (fun q cell hq hcell => ⟨cell, ?_, .refl cell⟩)
  · by_cases hq : q = p
    · subst hq
      simp [h.cells, hget, hsame]
    · simp [hq, h.cells]
  · have hne : q ≠ p := by
      rintro rfl
      exact hp hq
    simp [hne, hcell]

theorem record (h : Agrees i s entries t) (e e' : Event V E F) :
    Agrees i (s.record e) entries (t.record e') :=
  h.of_cells_same rfl rfl h.cells fun _ data _ hget => ⟨data, hget, .refl data⟩

/-! ### Settling -/

theorem settle (h : Agrees i s entries t) (status : PromiseStatus V E) (hn : p < n) :
    Agrees i (s.settle p status) (grown n entries (s.settle p status)) (t.settle p status) := by
  cases hget : s.get? p with
  | none =>
      have hget' : t.get? p = none := by simp [h.cells, hget]
      simpa [State.settle, hget, hget', h.grown_self] using h
  | some data =>
      by_cases hpending : data.status = .pending
      · have hp := h.not_early hget hpending
        have hsame (data : PromiseData V E F) : data.atUnit entries p = data :=
          PromiseData.atUnit_eq fun hmem => absurd hmem hp
        have hget' : t.get? p = some data := by rw [h.get? hget, hsame]
        have hs : s.settle p status =
            (s.update p fun data => { data with status }).requestCallBack p := by
          simp [State.settle, hget, hpending]
        have ht : t.settle p status =
            (t.update p fun data => { data with status }).requestCallBack p := by
          simp [State.settle, hget', hpending]
        have hgrown : grown n entries (s.settle p status) =
            entries ++ [p].map fun q => (q, false) := by
          rw [grown_eq [p] (by simp [hs, h.entries_fst])]
          simp [hn]
        rw [hgrown, hs, ht]
        refine h.of_cells _ rfl rfl (fun q => ?_) (fun q cell hq hcell => ⟨cell, ?_, .refl cell⟩)
        · by_cases hq : q = p
          · subst hq
            simp [hget, hget', hsame]
          · simp [hq, h.cells]
        · have hne : q ≠ p := by
            rintro rfl
            exact hp hq
          simp [hne, hcell]
      · have hs : s.settle p status = s := by
          cases hstatus : data.status with
          | pending => exact absurd hstatus hpending
          | resolved | rejected => simp [State.settle, hget, hstatus]
        have ht : t.settle p status = t := by
          cases hstatus : data.status with
          | pending => exact absurd hstatus hpending
          | resolved | rejected => simp [State.settle, h.get? hget, hstatus]
        rwa [hs, ht, h.grown_self]

theorem adoptStatus (h : Agrees i s entries t) (hn : outer < n) (status : PromiseStatus V E) :
    Agrees i (s.adoptStatus outer status) (grown n entries (s.adoptStatus outer status))
      (t.adoptStatus outer status) := by
  cases status with
  | pending => simpa [State.adoptStatus, h.grown_self] using h
  | resolved v => exact h.settle (.resolved v) hn
  | rejected e => exact h.settle (.rejected (eptrMake (.eptr e))) hn

theorem associateStatus (h : Agrees i s entries t) (hn : outer < n) (inner : Ref) :
    Agrees i (s.associateStatus outer inner) (grown n entries (s.associateStatus outer inner))
      (t.associateStatus outer inner) := by
  have hstatus := h.status? inner
  cases hget : s.get? inner with
  | none =>
      have hget' : t.get? inner = none := by simp [h.cells, hget]
      simpa [State.associateStatus, hget, hget', h.grown_self] using h
  | some data =>
      have hget' := h.get? hget
      cases hdata : data.status with
      | pending =>
          have hpush := h.push hget hdata (f := fun data =>
            (data.pushWrapper .fulfilled (.adopt outer)).pushWrapper .rejected (.adopt outer))
          simp only [State.associateStatus, hget, hget', Option.map_some, hdata,
            PromiseData.atUnit_status]
          rwa [hpush.grown_self]
      | resolved v =>
          simpa [State.associateStatus, State.resolveImpl, hget, hget', hdata] using
            h.settle (.resolved v) hn
      | rejected e =>
          simpa [State.associateStatus, State.rejectImpl, hget, hget', hdata] using
            h.settle (.rejected (eptrMake (.eptr e))) hn

theorem resolvePromiseImpl (h : Agrees i s entries t) (hn : p < n) (inner : Ref) :
    Agrees i (s.resolvePromiseImpl p inner) (grown n entries (s.resolvePromiseImpl p inner))
      (t.resolvePromiseImpl p inner) := by
  simp only [State.resolvePromiseImpl, h.status? p]
  split
  · exact h.associateStatus hn inner
  · rwa [h.grown_self]

/-! ### Promises that are made settled -/

theorem create_settle (s : State V E F) (status : PromiseStatus V E) :
    (s.create.1.settle s.heap.length status).queue = s.queue ++ [s.heap.length] ∧
      ∀ q, (s.create.1.settle s.heap.length status).get? q =
        if q = s.heap.length then some { status, pendingCallback := true } else s.get? q := by
  have hs : s.create.1.settle s.heap.length status =
      (s.create.1.update s.heap.length fun data => { data with status }).requestCallBack
        s.heap.length := by
    simp [State.settle, State.create]
  rw [hs]
  refine ⟨by simp [State.create], fun q => ?_⟩
  by_cases hq : q = s.heap.length <;> simp [State.create, hq]

/-- `resolved` and `rejected`: the entry of the void version is early. -/
theorem early_settled (h : Agrees i s entries t) (status : PromiseStatus V E)
    (hstatus : status ≠ .pending) :
    Agrees i (s.create.1.settle s.heap.length status)
      (grown s.heap.length entries (s.create.1.settle s.heap.length status))
      (t.alloc { status }).1 := by
  obtain ⟨hqueue, hcell⟩ := create_settle s status
  generalize s.create.1.settle s.heap.length status = s' at hqueue hcell ⊢
  have hgrown : grown s.heap.length entries s' = entries ++ [(s.heap.length, true)] := by
    rw [grown_eq [s.heap.length] (by rw [hqueue, h.entries_fst])]
    simp
  have hold {q : Ref} {data : PromiseData V E F} (hget : s.get? q = some data) :
      s'.get? q = some data := by
    rw [hcell, if_neg (Nat.ne_of_lt (State.lt_of_get? hget)), hget]
  have hdue : ({ status, pendingCallback := true } : PromiseData V E F).due = [] := by
    cases status <;> rfl
  rw [hgrown]
  refine ⟨?_, ?_, ?_, h.bound.trans (by simp), fun q => ?_, fun q hq => ?_, ?_⟩
  · simp [hqueue, h.entries_fst]
  · simp [h.queue]
  · rw [early_append, List.nodup_append]
    refine ⟨h.once, by simp [early], ?_⟩
    intro q hq q' hq'
    obtain rfl : q' = s.heap.length := by simpa [early] using hq'
    exact Nat.ne_of_lt (h.entry_lt (mem_early.mp hq))
  · by_cases hq : q = s.heap.length
    · simp [hcell, hq, h.length_eq, PromiseData.atUnit, hdue]
    · simp [hcell, hq, h.length_eq, PromiseData.atUnit, h.cells]
  · by_cases hnew : q = s.heap.length
    · obtain ⟨side, hside⟩ := Option.ne_none_iff_exists'.mp
        (mt PromiseStatus.side?_eq_none.mp hstatus)
      refine ⟨{ status, pendingCallback := true }, side, by simp [hcell, hnew], hside, ?_⟩
      intro other _
      cases other <;> rfl
    · obtain ⟨data, side, hget, hrest⟩ := h.made q (by simpa [hnew] using hq)
      exact ⟨data, side, hold hget, hrest⟩
  · intro q data hq hget
    rw [List.take_append_of_le_length h.bound] at hq
    obtain ⟨data', side, hget', -⟩ := h.made q (List.mem_of_mem_take hq)
    obtain rfl := Option.some.inj (hget.symm.trans (hold hget'))
    exact h.visited q data hq hget'

/-! ### Registering handlers -/

/-- The promise is settled on the side of the handler. -/
theorem attach_settled {side : Side} {data : PromiseData V E F} (hget : s.get? p = some data)
    (hside : data.status.side? = some side) (f : F) :
    (s.attach side p f).1.queue = s.queue ++ (if data.pendingCallback then [] else [p]) ∧
      ∀ q, (s.attach side p f).1.get? q =
        if q = p then some ({ data with pendingCallback := true }.pushWrapper side
          (.handler s.heap.length f))
        else if q = s.heap.length then some {} else s.get? q := by
  have hne := Nat.ne_of_lt (State.lt_of_get? hget)
  cases hflag : data.pendingCallback with
  | true =>
      refine ⟨by simp [State.attach, hget, hside, hflag, State.create], fun q => ?_⟩
      by_cases hq : q = p
      · have hdata : { data with pendingCallback := true } = data := by
          rw [← hflag]
        simp [State.attach, hget, hside, hflag, State.create, hq, hne, hdata]
      · simp [State.attach, hget, hside, hflag, State.create, hq]
  | false =>
      refine ⟨by simp [State.attach, hget, hside, hflag, State.create], fun q => ?_⟩
      by_cases hq : q = p
      · simp [State.attach, hget, hside, hflag, State.create, hq, hne]
      · simp [State.attach, hget, hside, hflag, State.create, hq]

theorem waitsBare_eq {side : Side} {data : PromiseData V E F} (hget : s.get? p = some data)
    (hside : data.status.side? = some side) :
    s.waitsBare side p = (data.pendingCallback && data.due.isEmpty) := by
  simp [State.waitsBare, hget, hside, PromiseData.due_of_side hside]

theorem not_waitsBare {side : Side}
    (h : ∀ data, s.get? p = some data → data.status.side? ≠ some side) :
    s.waitsBare side p = false := by
  cases hget : s.get? p with
  | none => simp [State.waitsBare, hget]
  | some data => simp [State.waitsBare, hget, h data hget]

theorem of_waitsBare {side : Side} (h : s.waitsBare side p = true) : ∃ data,
    s.get? p = some data ∧ data.pendingCallback = true ∧ data.due = [] := by
  cases hget : s.get? p with
  | none => simp [State.waitsBare, hget] at h
  | some data =>
      obtain ⟨⟨hside, hflag⟩, hnil⟩ :
          (data.status.side? = some side ∧ data.pendingCallback = true) ∧
            data.wrappers side = [] := by simpa [State.waitsBare, hget] using h
      exact ⟨data, rfl, hflag, (PromiseData.due_of_side hside).trans hnil⟩

/-- A promise that waits without a handler is ahead in the queue. -/
theorem demote_take (h : Agrees i s entries t) {data : PromiseData V E F}
    (hget : s.get? p = some data) (hflag : data.pendingCallback = true) (hdue : data.due = []) :
    (demote entries p).take i = entries.take i := by
  rw [demote, ← List.map_take]
  refine demote_of_not_mem fun hmem => ?_
  exact h.visited p data hmem hget hflag hdue

/-- The promise gets its first handler while its entry is early. -/
theorem attach_first (h : Agrees i s entries t) {side : Side} {data : PromiseData V E F}
    (hget : s.get? p = some data) (hside : data.status.side? = some side) (f : F)
    (hflag : data.pendingCallback = true) (hdue : data.due = []) (hearly : (p, true) ∈ entries)
    (hlast : ((entries.dropWhile fun entry => decide (entry ≠ (p, true))).tail.any fun entry =>
      !entry.2) = false) :
    Agrees i (s.attach side p f).1 (demote entries p) (t.attach side p f).1 := by
  obtain ⟨hqueue, hcell⟩ := attach_settled hget hside f
  have hside' : (data.atUnit entries p).status.side? = some side := hside
  obtain ⟨hqueue', hcell'⟩ := attach_settled (h.get? hget) hside' f
  have hwaits : (data.atUnit entries p).pendingCallback = false := by
    simp [PromiseData.atUnit, hearly, hdue]
  have htake := h.demote_take hget hflag hdue
  refine ⟨?_, ?_, early_demote h.once p, ?_, fun q => ?_, fun q hq => ?_, ?_⟩
  · rw [demote_fst, hqueue, hflag, h.entries_fst]
    simp
  · rw [hqueue', hwaits, h.queue, late_demote hearly h.once hlast]
    simp
  · simpa [demote] using h.bound
  · rw [hcell, hcell', h.length_eq]
    by_cases hq : q = p
    · subst hq
      have hnot : (q, true) ∉ demote entries q := fun hmem => (mem_demote.mp hmem).1 rfl
      cases side <;> simp [PromiseData.atUnit, PromiseData.pushWrapper, hnot]
    · have hsame : (q, true) ∈ demote entries p ↔ (q, true) ∈ entries := by simp [mem_demote, hq]
      rw [if_neg hq, if_neg hq]
      by_cases hnew : q = s.heap.length
      · simp [hnew, PromiseData.atUnit]
      · simp [hnew, PromiseData.atUnit, hsame, h.cells]
  · obtain ⟨hne, hmem⟩ := mem_demote.mp hq
    obtain ⟨cell, other, hcell₀, hrest⟩ := h.made q hmem
    refine ⟨cell, other, ?_, hrest⟩
    rw [hcell, if_neg hne, if_neg (Nat.ne_of_lt (h.entry_lt hmem)), hcell₀]
  · intro q cell hq hcell₁
    rw [htake] at hq
    have hmem := List.mem_of_mem_take hq
    have hne : q ≠ p := by
      rintro rfl
      exact h.visited q data hq hget hflag hdue
    rw [hcell, if_neg hne, if_neg (Nat.ne_of_lt (h.entry_lt hmem))] at hcell₁
    exact h.visited q cell hq hcell₁

/-- The promise is called back in both versions after the same others. -/
theorem attach_more (h : Agrees i s entries t) {side : Side} {data : PromiseData V E F}
    (hget : s.get? p = some data) (hside : data.status.side? = some side) (f : F)
    (hsame : data.atUnit entries p = data) :
    Agrees i (s.attach side p f).1 (grown s.heap.length entries (s.attach side p f).1)
      (t.attach side p f).1 := by
  obtain ⟨hqueue, hcell⟩ := attach_settled hget hside f
  obtain ⟨hqueue', hcell'⟩ := attach_settled (hsame ▸ h.get? hget) hside f
  have hgrown : grown s.heap.length entries (s.attach side p f).1 =
      entries ++ (if data.pendingCallback then [] else [p]).map fun q => (q, false) := by
    rw [grown_eq _ (by rw [hqueue, h.entries_fst])]
    have hlt := State.lt_of_get? hget
    split <;> simp [hlt]
  have hdue : ({ data with pendingCallback := true }.pushWrapper side
      (.handler s.heap.length f)).due ≠ [] := by
    have hside' : ({ data with pendingCallback := true }.pushWrapper side
        (.handler s.heap.length f)).status.side? = some side := by simpa using hside
    rw [PromiseData.due_of_side hside', PromiseData.wrappers_pushWrapper]
    simp
  rw [hgrown]
  refine h.of_cells _ hqueue hqueue' (fun q => ?_) (fun q cell hq hcell₀ => ?_)
  · rw [hcell, hcell', h.length_eq]
    by_cases hq : q = p
    · simp [hq, PromiseData.atUnit_eq fun _ _ => hdue]
    · rw [if_neg hq, if_neg hq]
      by_cases hnew : q = s.heap.length
      · simp [hnew, PromiseData.atUnit]
      · simp [hnew, h.cells]
  · rw [hcell]
    by_cases hqp : q = p
    · subst hqp
      obtain rfl := Option.some.inj (hget.symm.trans hcell₀)
      refine ⟨_, if_pos rfl, by simp, fun other hother => ?_, fun _ hnil => absurd hnil hdue⟩
      have hne : other ≠ side := by
        rintro rfl
        exact hother hside
      rw [PromiseData.wrappers_pushWrapper]
      simp [hne]
    · rw [if_neg hqp, if_neg (Nat.ne_of_lt (h.entry_lt hq)), hcell₀]
      exact ⟨cell, rfl, .refl cell⟩

theorem attach (h : Agrees i s entries t) (side : Side) (p : Ref) (f : F)
    (hlast : s.waitsBare side p = true →
      ((entries.dropWhile fun entry => decide (entry ≠ (p, true))).tail.any fun entry =>
        !entry.2) = false) :
    Agrees i (s.attach side p f).1
      (grown s.heap.length (if s.waitsBare side p then demote entries p else entries)
        (s.attach side p f).1) (t.attach side p f).1 := by
  have hquiet (hwaits : s.waitsBare side p = false) {s' t' : State V E F}
      (h' : Agrees i s' entries t') (hs : (s.attach side p f).1 = s')
      (ht : (t.attach side p f).1 = t') : Agrees i (s.attach side p f).1
        (grown s.heap.length (if s.waitsBare side p then demote entries p else entries)
          (s.attach side p f).1) (t.attach side p f).1 := by
    rw [hwaits, hs, ht]
    simpa [h'.grown_self] using h'
  cases hget : s.get? p with
  | none =>
      have hget' : t.get? p = none := by simp [h.cells, hget]
      refine hquiet (not_waitsBare (by simp [hget])) h.create ?_ ?_
      · simp [State.attach, hget]
      · simp [State.attach, hget']
  | some data =>
      have hget' := h.get? hget
      cases hside : data.status.side? with
      | none =>
          have hpending := PromiseStatus.side?_eq_none.mp hside
          have hcreated : s.create.1.get? p = some data := by
            simp [State.create, hget, Nat.ne_of_lt (State.lt_of_get? hget)]
          refine hquiet (not_waitsBare (by simp [hget, hside]))
            ((h.create.push hcreated hpending
              (f := fun data => data.pushWrapper side (.handler s.heap.length f))).record
                (.registered side p s.heap.length f) (.registered side p s.heap.length f)) ?_ ?_
          · simp [State.attach, hget, hside, State.register, State.create]
          · simp [State.attach, hget', hside, State.register, State.create, h.length_eq]
      | some settled =>
          by_cases hsettled : settled = side
          · subst hsettled
            by_cases hearly : (p, true) ∈ entries ∧ s.waitsBare settled p = true
            · obtain ⟨hearly, hwaits⟩ := hearly
              have hbare := waitsBare_eq hget hside
              rw [hwaits, eq_comm, Bool.and_eq_true, List.isEmpty_iff] at hbare
              have hfirst := h.attach_first hget hside f hbare.1 hbare.2 hearly (hlast hwaits)
              rw [hwaits, if_pos rfl]
              rwa [hfirst.grown_self]
            · have hsame : data.atUnit entries p = data := by
                refine PromiseData.atUnit_eq fun hmem hflag hdue => hearly ⟨hmem, ?_⟩
                simp [waitsBare_eq hget hside, hflag, hdue]
              have hentries :
                  (if s.waitsBare settled p then demote entries p else entries) = entries := by
                split
                · rename_i hwaits
                  exact demote_of_not_mem fun hmem => hearly ⟨hmem, hwaits⟩
                · rfl
              rw [hentries]
              exact h.attach_more hget hside f hsame
          · refine hquiet (not_waitsBare (by simp [hget, hside, hsettled])) h.create.create ?_ ?_
            · simp [State.attach, hget, hside, hsettled]
            · simp [State.attach, hget', hside, hsettled]

/-- `then` and `_catch`. -/
theorem register (h : Agrees i s entries t) {l : Label V E F} (side : Side) (p : Ref) (f : F)
    (hfirst : s.firstServed l = if s.waitsBare side p then some p else none)
    (hlast : ∀ q, s.firstServed l = some q →
      ((entries.dropWhile fun entry => decide (entry ≠ (q, true))).tail.any fun entry =>
        !entry.2) = false) :
    Agrees i (s.attach side p f).1
      (grown s.heap.length (s.served l entries) (s.attach side p f).1) (t.attach side p f).1 := by
  have hserved : s.served l entries =
      if s.waitsBare side p then demote entries p else entries := by
    cases hwaits : s.waitsBare side p <;> simp [State.served, hfirst, hwaits]
  rw [hserved]
  exact h.attach side p f fun hwaits => hlast p (by simp [hfirst, hwaits])

/-! ### Calls and handlers -/

variable [Blank V]

theorem perform (h : Agrees i s entries t) (o : Op V E F) (hknown : s.has o.refs = true)
    (hlast : ∀ p, s.firstServed (.op o) = some p →
      ((entries.dropWhile fun entry => decide (entry ≠ (p, true))).tail.any fun entry =>
        !entry.2) = false) :
    Agrees i (s.perform o) (grown s.heap.length (s.served (.op o) entries) (s.perform o))
      (t.perform o.atUnit) := by
  have hrefs : ∀ p ∈ o.refs, p < s.heap.length := fun p hp => State.lt_of_has hknown hp
  cases o with
  | promise => exact h.create.with_grown _
  | resolved v => exact (h.alloc { status := .resolved v } rfl).with_grown _
  | rejected e => exact (h.alloc { status := .rejected (eptrMake e) } rfl).with_grown _
  | resolvedVoid => exact h.early_settled (.resolved Blank.blank) (by simp)
  | rejectedVoid e => exact h.early_settled (.rejected (eptrMake e)) (by simp)
  | resolve p v => exact h.settle (.resolved v) (hrefs p (by simp [Op.refs]))
  | reject p e => exact h.settle (.rejected (eptrMake e)) (hrefs p (by simp [Op.refs]))
  | resolvePromise p inner => exact h.resolvePromiseImpl (hrefs p (by simp [Op.refs])) inner
  | then_ p f => exact h.register .fulfilled p f rfl hlast
  | catch_ p f => exact h.register .rejected p f rfl hlast

variable [FnTrait F E]

theorem runHelper (h : Agrees i s entries t) (f : F) (result : Outcome V E) :
    Agrees i (s.runHelper f result).1 (grown s.heap.length entries (s.runHelper f result).1)
        (@State.runHelper V E F _ FnTrait.atUnit t f result.atUnit).1 ∧
      (@State.runHelper V E F _ FnTrait.atUnit t f result.atUnit).2 = (s.runHelper f result).2 := by
  cases result with
  | returned value =>
      cases value with
      | value v => exact ⟨(h.alloc { status := .resolved v } rfl).with_grown _, h.length_eq⟩
      | void => exact ⟨h.early_settled (.resolved Blank.blank) (by simp), h.length_eq⟩
      | promise q => exact ⟨h.with_grown _, rfl⟩
  | threw e =>
      cases hvoid : FnTrait.returnsVoid f with
      | true =>
          simp only [State.runHelper, hvoid, if_true]
          exact ⟨h.early_settled (.rejected (eptrMake (.eptr e))) (by simp), h.length_eq⟩
      | false =>
          simp only [State.runHelper, hvoid, Bool.false_eq_true, if_false]
          have hmade := h.alloc { status := .rejected (eptrMake (.eptr e)) } rfl
          exact ⟨hmade.with_grown _, h.length_eq⟩

theorem finishHandler (h : Agrees i s entries t) (houter : outer < s.heap.length) (f : F)
    (result : Outcome V E) :
    Agrees i (s.finishHandler outer f result)
      (grown s.heap.length entries (s.finishHandler outer f result))
      (@State.finishHandler V E F _ FnTrait.atUnit t outer f result.atUnit) := by
  obtain ⟨hhelper, hinner⟩ := h.runHelper f result
  have hchanges := s.runHelper_changes f result
  have hassociate := hhelper.associateStatus houter (s.runHelper f result).2
  have hgrows := (State.associateStatus_changes (T := fun _ => True) (s.runHelper f result).1 outer
    (s.runHelper f result).2 trivial (Nat.lt_of_lt_of_le houter hchanges.length_le)).queue_grows
  rw [grown_grown (by rw [h.entries_fst]; exact hchanges.queue_grows) hgrows] at hassociate
  simp only [State.finishHandler, hinner]
  exact hassociate

/-! ### The walk through the queue -/

omit [Blank V] [FnTrait F E]

theorem restart (h : Agrees i s entries t) : Agrees 0 s entries t :=
  { h with
    bound := Nat.zero_le _
    visited := by simp }

/-- When all entries have been visited, the two heaps are equal. -/
theorem clear (h : Agrees i s entries t) (hend : entries[i]? = none) :
    Agrees 0 { s with queue := [] } [] { t with queue := [] } where
  entries_fst := rfl
  queue := rfl
  once := List.nodup_nil
  bound := Nat.zero_le _
  cells p := by
    have hall : entries.take i = entries :=
      List.take_of_length_le (List.getElem?_eq_none_iff.mp hend)
    have hcell := h.cells p
    change t.get? p = (s.get? p).map fun data => data.atUnit [] p
    cases hget : s.get? p with
    | none => simpa [hget] using hcell
    | some data =>
        have hsame : data.atUnit entries p = data :=
          PromiseData.atUnit_eq fun hmem hflag => h.visited p data (by rwa [hall]) hget hflag
        have hnil : data.atUnit [] p = data := PromiseData.atUnit_eq fun hmem => by simp at hmem
        rw [hcell, hget, Option.map_some, Option.map_some, hsame, hnil]
  made p hp := by simp at hp
  visited p data hp := by simp at hp

theorem mem_take_succ {flag : Bool} (hentry : entries[i]? = some (p, flag)) {q : Ref} :
    (q, true) ∈ entries.take (i + 1) ↔ (q, true) ∈ entries.take i ∨ q = p ∧ flag = true := by
  rw [List.take_add_one, hentry]
  simp [eq_comm]

theorem finishCallBack_get? (s : State V E F) (p q : Ref) :
    (s.finishCallBack p).get? q =
      if q = p then (s.get? q).map fun data =>
        { data with pendingCallback := false, fulfilledWrappers := [], rejectedWrappers := [] }
      else s.get? q :=
  s.get?_update p _ q

/-- The walk comes to the next entry when the promise has been called back. -/
theorem of_finishCallBack {flag : Bool} {t' : State V E F} (h : Agrees i s entries t)
    (hentry : entries[i]? = some (p, flag)) (hqueue : t'.queue = t.queue)
    (hcells : ∀ q, t'.get? q = ((s.finishCallBack p).get? q).map fun data =>
      data.atUnit entries q) : Agrees (i + 1) (s.finishCallBack p) entries t' where
  entries_fst := h.entries_fst
  queue := hqueue.trans h.queue
  once := h.once
  bound := (List.getElem?_eq_some_iff.mp hentry).1
  cells := hcells
  made q hq := by
    obtain ⟨data, side, hget, hside, hother⟩ := h.made q hq
    rw [finishCallBack_get?]
    by_cases hqp : q = p
    · rw [if_pos hqp, hget]
      exact ⟨_, side, rfl, hside, fun other _ => by cases other <;> rfl⟩
    · rw [if_neg hqp]
      exact ⟨data, side, hget, hside, hother⟩
  visited q data hq hget hflag := by
    rw [finishCallBack_get?] at hget
    by_cases hqp : q = p
    · rw [if_pos hqp] at hget
      obtain ⟨cell, -, rfl⟩ := Option.map_eq_some_iff.mp hget
      cases hflag
    · rw [if_neg hqp] at hget
      have hold := ((mem_take_succ hentry).mp hq).resolve_right fun hnew => hqp hnew.1
      exact h.visited q data hold hget hflag

theorem finish_late (h : Agrees i s entries t) (hentry : entries[i]? = some (p, false)) :
    Agrees (i + 1) (s.finishCallBack p) entries (t.finishCallBack p) := by
  refine h.of_finishCallBack hentry rfl fun q => ?_
  rw [finishCallBack_get?, finishCallBack_get?, h.cells]
  by_cases hq : q = p
  · simp [hq, PromiseData.atUnit, Function.comp_def]
  · simp [hq]

/-- The general version has nothing to do for an early entry of a promise without handlers. -/
theorem finish_early (h : Agrees i s entries t) (hentry : entries[i]? = some (p, true))
    (hdue : ∀ data, s.get? p = some data → data.due = []) :
    Agrees (i + 1) (s.finishCallBack p) entries t := by
  have hmem := List.mem_of_getElem? hentry
  refine h.of_finishCallBack hentry rfl fun q => ?_
  rw [finishCallBack_get?, h.cells]
  by_cases hq : q = p
  · subst hq
    obtain ⟨data, side, hget, hside, hother⟩ := h.made q hmem
    have hwrappers : ∀ other, data.wrappers other = [] := by
      intro other
      by_cases hne : other = side
      · rw [hne, ← PromiseData.due_of_side hside]
        exact hdue data hget
      · exact hother other hne
    have hfulfilled : data.fulfilledWrappers = [] := hwrappers .fulfilled
    have hrejected : data.rejectedWrappers = [] := hwrappers .rejected
    simp [hget, PromiseData.atUnit, hmem, hdue data hget, hfulfilled, hrejected]
  · rw [if_neg hq]

end Agrees

end Libasync.Promise
