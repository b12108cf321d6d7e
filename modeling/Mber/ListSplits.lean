import Mathlib.Data.List.TakeWhile

/-!
Splitting a list at the first or at the last occurrence of a separator. Where
the separator stands in the list the two parts rebuild it, and a list that is
built around a separator splits into the parts it was built from, provided the
part that is searched first does not hold the separator itself.
-/
namespace Mber.ListSplits

variable {α : Type*} [DecidableEq α]

/-- What stands before the first `a`; the whole list if there is none. -/
def before (a : α) (l : List α) : List α := l.takeWhile (· ≠ a)

/-- What stands after the first `a`. -/
def after (a : α) (l : List α) : List α := (l.dropWhile (· ≠ a)).tail

/-- What stands before the last `a`. -/
def beforeLast (a : α) (l : List α) : List α := (after a l.reverse).reverse

/-- What stands after the last `a`; the whole list if there is none. -/
def afterLast (a : α) (l : List α) : List α := (before a l.reverse).reverse

variable {a : α} {l r : List α}

private theorem ne_of_not_mem (h : a ∉ l) : ∀ b ∈ l, decide (b ≠ a) = true := by
  intro b hb
  rw [decide_eq_true_eq]
  intro hba
  exact h (hba ▸ hb)

theorem before_append (h : a ∉ l) : before a (l ++ a :: r) = l := by
  rw [before, List.takeWhile_append_of_pos (ne_of_not_mem h),
    List.takeWhile_cons_of_neg (by simp), List.append_nil]

theorem after_append (h : a ∉ l) : after a (l ++ a :: r) = r := by
  rw [after, List.dropWhile_append_of_pos (ne_of_not_mem h),
    List.dropWhile_cons_of_neg (by simp), List.tail_cons]

theorem beforeLast_append (h : a ∉ r) : beforeLast a (l ++ a :: r) = l := by
  have hrev : (l ++ a :: r).reverse = r.reverse ++ a :: l.reverse := by simp
  rw [beforeLast, hrev, after_append (by simpa using h), List.reverse_reverse]

theorem afterLast_append (h : a ∉ r) : afterLast a (l ++ a :: r) = r := by
  have hrev : (l ++ a :: r).reverse = r.reverse ++ a :: l.reverse := by simp
  rw [afterLast, hrev, before_append (by simpa using h), List.reverse_reverse]

/-- The first split loses nothing but the separator. -/
theorem before_append_after (h : a ∈ l) : before a l ++ a :: after a l = l := by
  induction l with
  | nil => simp at h
  | cons b rest ih =>
    by_cases hb : b = a
    · subst hb
      simp [before, after]
    · have hrest : a ∈ rest := (List.mem_cons.mp h).resolve_left (Ne.symm hb)
      simpa [before, after, hb] using ih hrest

theorem not_mem_before : a ∉ before a l := by
  intro h
  simpa using List.mem_takeWhile_imp h

theorem beforeLast_append_afterLast (h : a ∈ l) : beforeLast a l ++ a :: afterLast a l = l := by
  have hrev := before_append_after (l := l.reverse) (by simpa using h)
  simpa [beforeLast, afterLast] using congrArg List.reverse hrev

theorem not_mem_afterLast : a ∉ afterLast a l := by
  rw [afterLast, List.mem_reverse]
  exact not_mem_before

end Mber.ListSplits
