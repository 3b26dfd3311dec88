/-
Cutting a text at the first occurrence of a separator.

Three formats here are read this way: the query of a path starts after its
first `?`, the value of a query entry after its first `=`, and a fragment after
the first `#`. `cut` keeps the difference between "nothing follows the
separator" and "there is no separator", because the first of these still counts
as a query.

The cut loses nothing: `eq_of_cut_some` and `eq_of_cut_none` give the text back
from its halves, and `cut_append` and `cut_of_not_mem` say where the cut falls,
so nothing later unfolds the recursion.
-/
set_option autoImplicit false

namespace RoutePattern.Text

/-- The text before the first `d`, and the text after it if there is one. -/
def cut (d : Char) : List Char → List Char × Option (List Char)
  | [] => ([], none)
  | c :: cs =>
    if c = d then ([], some cs)
    else
      let halves := cut d cs
      (c :: halves.1, halves.2)

/-! ## What the two halves are -/

@[simp] theorem cut_nil (d : Char) : cut d [] = ([], none) := rfl

@[simp] theorem cut_cons_self (d : Char) (cs : List Char) : cut d (d :: cs) = ([], some cs) := by
  simp [cut]

theorem cut_cons_of_ne {c d : Char} (h : c ≠ d) (cs : List Char) :
    cut d (c :: cs) = (c :: (cut d cs).1, (cut d cs).2) := by
  simp [cut, h]

/-- The first half never holds the separator. -/
theorem not_mem_cut_fst (d : Char) (s : List Char) : d ∉ (cut d s).1 := by
  induction s with
  | nil => simp
  | cons c cs ih =>
    by_cases h : c = d
    · simp [h]
    · simpa [cut_cons_of_ne h, ih] using fun e => h e.symm

/-- A text free of the separator is its own first half. -/
theorem cut_of_not_mem {d : Char} {s : List Char} (h : d ∉ s) : cut d s = (s, none) := by
  induction s with
  | nil => rfl
  | cons c cs ih =>
    have hc : c ≠ d := fun e => h (by simp [e])
    have hcs : d ∉ cs := fun m => h (by simp [m])
    simp [cut_cons_of_ne hc, ih hcs]

/-- The separator in front of the rest is where the cut falls. -/
theorem cut_append {d : Char} {s : List Char} (h : d ∉ s) (r : List Char) :
    cut d (s ++ d :: r) = (s, some r) := by
  induction s with
  | nil => simp
  | cons c cs ih =>
    have hc : c ≠ d := fun e => h (by simp [e])
    have hcs : d ∉ cs := fun m => h (by simp [m])
    simp [cut_cons_of_ne hc, ih hcs]

/-- Nothing is lost: the two halves around the separator are the text. -/
theorem eq_of_cut_some {d : Char} {s r : List Char} (h : (cut d s).2 = some r) :
    s = (cut d s).1 ++ d :: r := by
  induction s with
  | nil => simp at h
  | cons c cs ih =>
    by_cases hc : c = d
    · subst hc; simp at h ⊢; exact h
    · simp only [cut_cons_of_ne hc] at h ⊢
      exact congrArg (c :: ·) (ih h)

/-- Without a separator the first half is the text. -/
theorem eq_of_cut_none {d : Char} {s : List Char} (h : (cut d s).2 = none) : (cut d s).1 = s := by
  induction s with
  | nil => rfl
  | cons c cs ih =>
    by_cases hc : c = d
    · simp [hc] at h
    · simp only [cut_cons_of_ne hc] at h ⊢
      exact congrArg (c :: ·) (ih h)

/-- A text is left whole exactly when it is free of the separator. -/
theorem cut_eq_none_iff {d : Char} {s a : List Char} :
    cut d s = (a, none) ↔ s = a ∧ d ∉ s := by
  constructor
  · intro h
    have h1 := eq_of_cut_none (d := d) (s := s) (by simp [h])
    have h2 := not_mem_cut_fst d s
    rw [h1] at h2
    rw [h] at h1
    exact ⟨h1.symm, h2⟩
  · rintro ⟨rfl, h⟩
    exact cut_of_not_mem h

end RoutePattern.Text
