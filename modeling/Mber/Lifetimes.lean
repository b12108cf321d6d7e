import Mathlib.Data.List.Basic

/-!
Lifetimes under reference counting, for objects numbered in the order of their
creation. An object lives if it is a root or if an older live object holds it.
The objects are decided oldest first, so liveness can be computed.
-/
namespace Mber.Lifetimes

variable (root : ℕ → Bool) (holds : ℕ → ℕ → Bool)

/-- The live objects below `n`, oldest first. -/
def live : ℕ → List ℕ
  | 0 => []
  | n + 1 => if root n || (live n).any (fun p => holds p n) then live n ++ [n] else live n

def Alive (c : ℕ) : Prop := c ∈ live root holds (c + 1)

instance (c : ℕ) : Decidable (Alive root holds c) := by
  unfold Alive
  infer_instance

variable {root holds} {root' : ℕ → Bool} {holds' : ℕ → ℕ → Bool} {c n : ℕ}

theorem lt_of_mem_live (h : c ∈ live root holds n) : c < n := by
  induction n with
  | zero => simp [live] at h
  | succ n ih =>
    rw [live] at h
    split_ifs at h
    · rcases List.mem_append.mp h with hold | hnew
      · have hlt := ih hold
        omega
      · have heq := List.mem_singleton.mp hnew
        omega
    · have hlt := ih h
      omega

theorem mem_live_iff : c ∈ live root holds n ↔ c < n ∧ Alive root holds c := by
  induction n with
  | zero => simp [live]
  | succ n ih =>
    by_cases hcn : c = n
    · subst hcn
      simp [Alive]
    · have hstep : c ∈ live root holds (n + 1) ↔ c ∈ live root holds n := by
        rw [live]
        split_ifs
        · simp [hcn]
        · exact Iff.rfl
      rw [hstep, ih]
      constructor
      · exact fun h => ⟨by omega, h.2⟩
      · exact fun h => ⟨by omega, h.2⟩

theorem alive_iff :
    Alive root holds c ↔ root c = true ∨ ∃ p, p < c ∧ Alive root holds p ∧ holds p c = true := by
  have hself : c ∉ live root holds c := fun h => absurd (lt_of_mem_live h) (by omega)
  have hkept : Alive root holds c ↔
      (root c || (live root holds c).any (fun p => holds p c)) = true := by
    rw [Alive, live]
    split_ifs with h
    · simp [h]
    · simp only [hself, false_iff]
      exact h
  rw [hkept]
  simp only [Bool.or_eq_true, List.any_eq_true, mem_live_iff, and_assoc]

theorem alive_of_root (h : root c = true) : Alive root holds c := alive_iff.mpr (Or.inl h)

theorem alive_of_held {p : ℕ} (hlt : p < c) (hp : Alive root holds p) (h : holds p c = true) :
    Alive root holds c := alive_iff.mpr (Or.inr ⟨p, hlt, hp, h⟩)

/-- More roots and more references keep every live object alive. -/
theorem alive_mono (hroot : ∀ d, d ≤ c → root d = true → root' d = true)
    (hholds : ∀ p d, d ≤ c → p < d → holds p d = true → holds' p d = true)
    (h : Alive root holds c) : Alive root' holds' c := by
  induction c using Nat.strongRecOn with
  | ind c ih =>
    rcases alive_iff.mp h with hr | ⟨p, hlt, hp, hheld⟩
    · exact alive_of_root (hroot c (Nat.le_refl c) hr)
    · refine alive_of_held hlt (ih p hlt ?_ ?_ hp) (hholds p c (Nat.le_refl c) hlt hheld)
      · exact fun d hd => hroot d (by omega)
      · exact fun q d hd => hholds q d (by omega)

end Mber.Lifetimes
