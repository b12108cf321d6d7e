import Mathlib.Computability.RegularExpressions

/-!
Letter classes and counted repetition over Mathlib's regular expressions.
A class is the union of its letters; `r{n,}` is `n` copies of `r` and then any
number more. The words of a repeated class are told by their length and their
letters alone.
-/
namespace Mber.RegularExpressions

open RegularExpression

variable {α : Type*}

/-- A class of letters, `[abc]`. -/
def oneOf (letters : List α) : RegularExpression α :=
  letters.foldr (fun a r => char a + r) 0

/-- `r{n,}`; in particular `r+` is `r{1,}`. -/
def atLeast (n : ℕ) (r : RegularExpression α) : RegularExpression α := r ^ n * star r

/-- The letters from `first` to `last`, as in `A-Z`. -/
def range (first last : Char) : List Char :=
  ((List.range (last.toNat + 1)).map Char.ofNat).filter (fun c => first ≤ c ∧ c ≤ last)

theorem mem_range (first last c : Char) : c ∈ range first last ↔ first ≤ c ∧ c ≤ last := by
  simp only [range, List.mem_filter, List.mem_map, List.mem_range, decide_eq_true_eq,
    and_iff_right_iff_imp]
  intro h
  have hcode : c.toNat ≤ last.toNat := h.2
  exact ⟨c.toNat, by omega, Char.ofNat_toNat c⟩

theorem mem_oneOf (letters x : List α) :
    x ∈ (oneOf letters).matches' ↔ ∃ a ∈ letters, x = [a] := by
  induction letters with
  | nil =>
    simp only [oneOf, List.foldr_nil, matches'_zero, List.not_mem_nil, false_and, exists_false,
      iff_false]
    exact Language.notMem_zero x
  | cons b rest ih =>
    have hfold : oneOf (b :: rest) = char b + oneOf rest := rfl
    rw [hfold, matches'_add, Language.mem_add, ih, matches'_char, List.exists_mem_cons_iff]
    exact Iff.rfl

theorem mem_oneOf_pow (n : ℕ) (letters x : List α) :
    x ∈ (oneOf letters ^ n).matches' ↔ x.length = n ∧ ∀ a ∈ x, a ∈ letters := by
  rw [matches'_pow]
  induction n generalizing x with
  | zero =>
    rw [pow_zero, Language.mem_one, List.length_eq_zero_iff]
    constructor
    · intro h
      simp [h]
    · exact fun h => h.1
  | succ n ih =>
    rw [pow_succ', Language.mem_mul]
    constructor
    · intro h
      obtain ⟨first, hfirst, rest, hrest, rfl⟩ := h
      obtain ⟨a, ha, rfl⟩ := (mem_oneOf letters first).mp hfirst
      obtain ⟨rfl, hall⟩ := (ih rest).mp hrest
      refine ⟨by simp, ?_⟩
      intro b hb
      rcases List.mem_cons.mp hb with rfl | hb
      · exact ha
      · exact hall b hb
    · intro h
      obtain ⟨hlength, hall⟩ := h
      obtain ⟨a, rest, rfl⟩ := List.exists_cons_of_length_eq_add_one hlength
      refine ⟨[a], (mem_oneOf letters [a]).mpr ⟨a, hall a (by simp), rfl⟩, rest, ?_, rfl⟩
      exact (ih rest).mpr ⟨by simpa using hlength, fun b hb => hall b (by simp [hb])⟩

/-- A starred class matches the words over its letters. -/
theorem mem_oneOf_star (letters x : List α) :
    x ∈ (star (oneOf letters)).matches' ↔ ∀ a ∈ x, a ∈ letters := by
  rw [matches'_star, Language.kstar_eq_iSup_pow, Language.mem_iSup]
  simp only [← matches'_pow, mem_oneOf_pow, exists_eq_left']

/-- A class repeated at least `n` times matches the words of that length over its letters. -/
theorem mem_atLeast_oneOf (n : ℕ) (letters x : List α) :
    x ∈ (atLeast n (oneOf letters)).matches' ↔ n ≤ x.length ∧ ∀ a ∈ x, a ∈ letters := by
  rw [atLeast, matches'_mul, Language.mem_mul]
  constructor
  · intro h
    obtain ⟨first, hfirst, rest, hrest, rfl⟩ := h
    obtain ⟨rfl, hall⟩ := (mem_oneOf_pow n letters first).mp hfirst
    refine ⟨by simp, ?_⟩
    intro a ha
    rcases List.mem_append.mp ha with ha | ha
    · exact hall a ha
    · exact (mem_oneOf_star letters rest).mp hrest a ha
  · intro h
    obtain ⟨hlength, hall⟩ := h
    refine ⟨x.take n, ?_, x.drop n, ?_, List.take_append_drop n x⟩
    · exact (mem_oneOf_pow n letters _).mpr
        ⟨by simpa using hlength, fun a ha => hall a (List.mem_of_mem_take ha)⟩
    · exact (mem_oneOf_star letters _).mpr fun a ha => hall a (List.mem_of_mem_drop ha)

end Mber.RegularExpressions
