import Mathlib.Algebra.Ring.Nat
import Mathlib.Data.List.Nodup
import Mathlib.Data.List.Pairwise

/-! # Facts about lists that only grow at the end -/

namespace Libasync.Foundation

variable {α β : Type*}

theorem getElem?_of_prefix {xs ys : List α} {i : ℕ} {a : α} (h : xs <+: ys)
    (hx : xs[i]? = some a) : ys[i]? = some a := by
  obtain ⟨rest, rfl⟩ := h
  rw [List.getElem?_append_left (List.getElem?_eq_some_iff.mp hx).1, hx]

/-- Keys without repetition belong to one entry each. -/
theorem eq_of_filterMap_nodup {key : α → Option β} {xs : List α} {a b : α} {k : β}
    (h : (xs.filterMap key).Nodup) (ha : a ∈ xs) (hb : b ∈ xs) (hka : key a = some k)
    (hkb : key b = some k) : a = b := by
  by_contra hne
  have hpair : xs.Pairwise fun x y => ∀ k, key x = some k → ∀ k', key y = some k' → k ≠ k' :=
    List.pairwise_filterMap.mp h
  have hsymm : Std.Symm fun x y => ∀ k, key x = some k → ∀ k', key y = some k' → k ≠ k' :=
    ⟨fun x y hxy k hk k' hk' => (hxy k' hk' k hk).symm⟩
  exact hpair.forall ha hb hne k hka k hkb rfl

/-- The entries with a given key, when keys do not repeat. -/
theorem filter_key_eq_singleton [DecidableEq β] {key : α → Option β} {xs : List α} {a : α}
    {k : β} (h : (xs.filterMap key).Nodup) (ha : a ∈ xs) (hk : key a = some k) :
    xs.filter (fun x => key x = some k) = [a] := by
  induction xs with
  | nil => simp at ha
  | cons x xs ih =>
      by_cases hx : key x = some k
      · have hxa : x = a := eq_of_filterMap_nodup h (by simp) ha hx hk
        have hrest : xs.filter (fun y => key y = some k) = [] := by
          apply List.filter_eq_nil_iff.mpr
          intro y hy
          simp only [decide_eq_true_eq]
          intro hky
          rw [List.filterMap_cons_some hx, List.nodup_cons] at h
          exact h.1 (List.mem_filterMap.mpr ⟨y, hy, hky⟩)
        rw [List.filter_cons_of_pos (by simpa using hx), hrest, hxa]
      · have hne : a ≠ x := by
          rintro rfl
          exact hx hk
        have hnodup : (xs.filterMap key).Nodup := by
          cases hkx : key x with
          | none => simpa [List.filterMap_cons_none hkx] using h
          | some k' =>
              rw [List.filterMap_cons_some hkx, List.nodup_cons] at h
              exact h.2
        simp [hx, ih hnodup ((List.mem_cons.mp ha).resolve_left hne)]

theorem modify_concat {α : Type*} (xs : List α) (x : α) (f : α → α) :
    (xs ++ [x]).modify xs.length f = xs ++ [f x] := by
  induction xs with
  | nil => rfl
  | cons y xs ih => simpa using ih

theorem sum_map_modify {g : α → ℕ} (f : α → α) {xs : List α} {i : ℕ} {a : α}
    (h : xs[i]? = some a) :
    ((xs.modify i f).map g).sum + g a = (xs.map g).sum + g (f a) := by
  induction xs generalizing i with
  | nil => simp at h
  | cons x xs ih =>
      cases i with
      | zero =>
          obtain rfl : x = a := by simpa using h
          simp only [List.modify_zero_cons, List.map_cons, List.sum_cons]
          omega
      | succ i =>
          have hrest := ih (i := i) (by simpa using h)
          simp only [List.modify_succ_cons, List.map_cons, List.sum_cons]
          omega

/-- Of two different entries of a list one comes first. -/
theorem append_cons_eq_append_cons {α : Type*} {xs ys xs' ys' : List α} {a b : α}
    (h : xs ++ a :: ys = xs' ++ b :: ys') (hne : a ≠ b) :
    (∃ mid, xs' = xs ++ a :: mid ∧ ys = mid ++ b :: ys') ∨
      ∃ mid, xs = xs' ++ b :: mid ∧ ys' = mid ++ a :: ys := by
  rcases List.append_eq_append_iff.mp h with ⟨mid, rfl, hmid⟩ | ⟨mid, rfl, hmid⟩
  · cases mid with
    | nil => exact absurd (List.cons.inj hmid).1 hne
    | cons x mid =>
        obtain ⟨rfl, rfl⟩ := List.cons.inj hmid
        exact .inl ⟨mid, rfl, rfl⟩
  · cases mid with
    | nil => exact absurd (List.cons.inj hmid).1.symm hne
    | cons x mid =>
        obtain ⟨rfl, rfl⟩ := List.cons.inj hmid
        exact .inr ⟨mid, rfl, rfl⟩

/-! ### Which of two entries comes first -/

section

variable [DecidableEq α] {a b x : α}

/-- The first of the two entries in the list is `a`. -/
def comesFirst (a b : α) (xs : List α) : Bool :=
  xs.find? (fun x => decide (x = a ∨ x = b)) == some a

@[simp] theorem comesFirst_self (a b : α) (xs : List α) : comesFirst a b (a :: xs) = true := by
  simp [comesFirst]

theorem not_comesFirst (hne : b ≠ a) (xs : List α) : comesFirst a b (b :: xs) = false := by
  simp [comesFirst, hne]

theorem comesFirst_cons (ha : x ≠ a) (hb : x ≠ b) (xs : List α) :
    comesFirst a b (x :: xs) = comesFirst a b xs := by
  simp [comesFirst, ha, hb]

/-- A list that is repeated decides nothing new. -/
theorem comesFirst_append_self (a b : α) (xs ys : List α) :
    comesFirst a b (xs ++ (xs ++ ys)) = comesFirst a b (xs ++ ys) := by
  simp only [comesFirst, List.find?_append]
  cases xs.find? (fun x => decide (x = a ∨ x = b)) <;> rfl

end

end Libasync.Foundation
