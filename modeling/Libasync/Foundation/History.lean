import Mathlib.Data.List.Infix

/-! # Histories

A history is a list that grows at the end. What each entry has to satisfy is stated relative to
the entries before it. -/

namespace Libasync.Foundation

variable {α : Type*}

/-- Every entry satisfies `P` relative to the history before it. -/
def AtEach (P : List α → α → Prop) (xs : List α) : Prop :=
  ∀ before x after, xs = before ++ x :: after → P before x

variable {P Q : List α → α → Prop} {xs ys : List α}

@[simp] theorem atEach_nil (P : List α → α → Prop) : AtEach P [] := by
  intro before x after h
  simp at h

theorem atEach_concat {x : α} : AtEach P (xs ++ [x]) ↔ AtEach P xs ∧ P xs x := by
  constructor
  · intro h
    refine ⟨?_, h xs x [] rfl⟩
    intro before y after hxs
    apply h before y (after ++ [x])
    rw [hxs, List.append_assoc, List.cons_append]
  · rintro ⟨hxs, hx⟩ before y after heq
    induction after using List.reverseRecOn with
    | nil =>
        obtain ⟨rfl, hsame⟩ := List.append_inj' heq rfl
        obtain rfl := List.singleton_inj.mp hsame
        exact hx
    | append_singleton after z _ =>
        rw [← List.cons_append, ← List.append_assoc] at heq
        exact hxs before y after (List.append_inj' heq rfl).1

theorem AtEach.of_prefix (h : AtEach P ys) (hxs : xs <+: ys) : AtEach P xs := by
  obtain ⟨rest, rfl⟩ := hxs
  intro before x after heq
  apply h before x (after ++ rest)
  rw [heq, List.append_assoc, List.cons_append]

/-- Entries that satisfy `P` relative to any history can be added. -/
theorem AtEach.append (h : AtEach P xs) (hys : ∀ y ∈ ys, ∀ before, P before y) :
    AtEach P (xs ++ ys) := by
  induction ys using List.reverseRecOn with
  | nil => simpa using h
  | append_singleton ys y ih =>
      rw [← List.append_assoc]
      refine atEach_concat.mpr ⟨ih fun z hz => hys z (by simp [hz]), ?_⟩
      exact hys y (by simp) _

end Libasync.Foundation
