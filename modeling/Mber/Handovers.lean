import Mber.Runs
import Mathlib.Data.List.Induction
import Mathlib.Logic.Function.Basic

/-!
The two-flag handover. One party stores resources and sets a flag; any number
of calls ask for their disposal and set another flag. Both flags live in one
word that is changed by an atomic fetch-and-or. Whoever finds the other flag
already set releases the resources. Calls are numbered, and the calls that are
not over advance in any order.
-/
namespace Mber.Handovers

open Runs

inductive FatalError
  | alreadySet
  | notSet
  deriving DecidableEq

/-- Where a call stands: before it stores, before it sets one of the flags,
before it reads the stored resources, releasing what is left of them, or over. -/
inductive Phase (ρ : Type*)
  | storing (resources : List ρ)
  | announcing (resources : List ρ)
  | claiming
  | reading
  | releasing (left : List ρ)
  | returned

variable {ρ : Type*}

namespace Phase

def isSetter : Phase ρ → Bool
  | .storing _ => true
  | .announcing _ => true
  | _ => false

def isReleaser : Phase ρ → Bool
  | .reading => true
  | .releasing _ => true
  | _ => false

end Phase

/-- `sets`, `disposes`, `resources` and `released` record the calls, what was
handed over, and what has been released. -/
structure Handover (ρ : Type*) where
  disposed : Bool := false
  isSet : Bool := false
  stored : Option (List ρ) := none
  error : Option FatalError := none
  calls : ℕ := 0
  phase : ℕ → Phase ρ := fun _ => .returned
  sets : ℕ := 0
  disposes : ℕ := 0
  resources : List ρ := []
  released : List ρ := []

inductive Input (ρ : Type*)
  | set (resources : List ρ)
  | dispose
  | advance (call : ℕ)

namespace Input

def isSet : Input ρ → Bool
  | .set _ => true
  | _ => false

def isDispose : Input ρ → Bool
  | .dispose => true
  | _ => false

/-- What the set calls hand over. -/
def handed : Input ρ → List ρ
  | .set resources => resources
  | _ => []

end Input

namespace Handover

def enter (s : Handover ρ) (p : Phase ρ) : Handover ρ :=
  { s with calls := s.calls + 1, phase := Function.update s.phase s.calls p }

def goOn (s : Handover ρ) (i : ℕ) (p : Phase ρ) : Handover ρ :=
  { s with phase := Function.update s.phase i p }

/-- The next atomic step of a call. -/
def advance (s : Handover ρ) (i : ℕ) : Handover ρ :=
  match s.phase i with
  | .storing resources => { s with stored := some resources }.goOn i (.announcing resources)
  | .announcing resources =>
    if s.isSet then { s with error := some .alreadySet }.goOn i .returned
    else { s with isSet := true }.goOn i (if s.disposed then .releasing resources else .returned)
  | .claiming =>
    if s.disposed then s.goOn i .returned
    else { s with disposed := true }.goOn i (if s.isSet then .reading else .returned)
  | .reading =>
    match s.stored with
    | none => { s with error := some .notSet }.goOn i .returned
    | some resources => s.goOn i (.releasing resources)
  | .releasing [] => { s with stored := none }.goOn i .returned
  | .releasing (x :: left) => { s with released := s.released ++ [x] }.goOn i (.releasing left)
  | .returned => s

/-- After a fatal error nothing runs any more. -/
def step (s : Handover ρ) (i : Input ρ) : Handover ρ :=
  if s.error.isSome then s
  else match i with
  | .set resources =>
    { s with
      sets := s.sets + 1
      resources := if s.sets = 0 then resources else s.resources }.enter (.storing resources)
  | .dispose => { s with disposes := s.disposes + 1 }.enter .claiming
  | .advance call => s.advance call

@[simp] theorem goOn_phase (s : Handover ρ) (i : ℕ) (p : Phase ρ) :
    (s.goOn i p).phase = Function.update s.phase i p := rfl

/-- What the shared word and the fields look like while a call stands here. -/
def Fits (s : Handover ρ) : Phase ρ → Prop
  | .storing r => s.isSet = false ∧ 0 < s.sets ∧ r = s.resources
  | .announcing r => s.isSet = false ∧ 0 < s.sets ∧ r = s.resources ∧ s.stored = some r
  | .claiming => 0 < s.disposes
  | .reading => s.disposed = true ∧ s.isSet = true ∧ s.stored = some s.resources ∧ s.released = []
  | .releasing left => s.disposed = true ∧ s.isSet = true ∧ s.released ++ left = s.resources
  | .returned => True

/-- Nobody releases anything before both flags are set. From then on one call
alone is in charge of the release. -/
structure Exclusive (s : Handover ρ) : Prop where
  error_none : s.error = none
  unused : ∀ i, s.calls ≤ i → s.phase i = .returned
  fits : ∀ i, s.Fits (s.phase i)
  one_setter : ∃ a, ∀ i, i ≠ a → (s.phase i).isSetter = false
  one_releaser : ∃ a, ∀ i, i ≠ a → (s.phase i).isReleaser = false
  kept : s.isSet = true → s.disposed = false → s.stored = some s.resources
  early : (s.disposed && s.isSet) = false → s.released = []
  late : (s.disposed && s.isSet) = true →
    s.released = s.resources ∨ ∃ i, (s.phase i).isReleaser = true
  set_pending : s.isSet = decide (0 < s.sets) ∨ ∃ i, (s.phase i).isSetter = true
  dispose_pending : s.disposed = decide (0 < s.disposes) ∨ ∃ i, s.phase i = .claiming

theorem exclusive_init : ({} : Handover ρ).Exclusive :=
  ⟨rfl, fun _ _ => rfl, fun _ => trivial, ⟨0, fun _ _ => rfl⟩, ⟨0, fun _ _ => rfl⟩,
    fun h => by simp at h, fun _ => rfl, fun h => by simp at h, .inl rfl, .inl rfl⟩

variable {s : Handover ρ} {i : ℕ}

theorem unique_of_one {P : Phase ρ → Bool} (h : ∃ a, ∀ i, i ≠ a → P (s.phase i) = false)
    (hi : P (s.phase i) = true) {j : ℕ} (hj : j ≠ i) : P (s.phase j) = false := by
  obtain ⟨a, ha⟩ := h
  by_cases hia : i = a
  · exact ha j (hia ▸ hj)
  · simp [ha i hia] at hi

theorem Exclusive.not_setter (h : s.Exclusive) (hset : s.isSet = true) (j : ℕ) :
    (s.phase j).isSetter = false := by
  have hfits := h.fits j
  cases hj : s.phase j <;> simp_all [Fits, Phase.isSetter]

theorem Exclusive.not_releaser (h : s.Exclusive) (hflags : (s.disposed && s.isSet) = false)
    (j : ℕ) :
    (s.phase j).isReleaser = false := by
  have hfits := h.fits j
  cases hj : s.phase j <;> simp_all [Fits, Phase.isReleaser]

theorem Exclusive.called (h : s.Exclusive) (hi : s.phase i ≠ .returned) (j : ℕ)
    (hj : s.calls ≤ j) : j ≠ i ∧ s.calls ≤ j := by
  refine ⟨?_, hj⟩
  rintro rfl
  exact hi (h.unused j hj)

/-- One call moves to another phase. The invariant is asked of the state `u`
that the step leads to, and of the phases of the other calls. -/
theorem Exclusive.goOn (h : s.Exclusive) {u : Handover ρ} (p : Phase ρ)
    (hcalls : ∀ j, u.calls ≤ j → j ≠ i ∧ s.calls ≤ j) (herror : u.error = none)
    (hp : u.Fits p) (hothers : ∀ j, j ≠ i → u.Fits (s.phase j))
    (hsetter : p.isSetter = true → ∀ j, j ≠ i → (s.phase j).isSetter = false)
    (hreleaser : p.isReleaser = true → ∀ j, j ≠ i → (s.phase j).isReleaser = false)
    (hkept : u.isSet = true → u.disposed = false → u.stored = some u.resources)
    (hearly : (u.disposed && u.isSet) = false → u.released = [])
    (hlate : (u.disposed && u.isSet) = true → u.released = u.resources ∨ p.isReleaser = true ∨
      ∃ j, j ≠ i ∧ (s.phase j).isReleaser = true)
    (hset : u.isSet = decide (0 < u.sets) ∨ p.isSetter = true ∨
      ∃ j, j ≠ i ∧ (s.phase j).isSetter = true)
    (hdispose : u.disposed = decide (0 < u.disposes) ∨ p = .claiming ∨
      ∃ j, j ≠ i ∧ s.phase j = .claiming)
    (hphase : u.phase = s.phase) : (u.goOn i p).Exclusive := by
  have keep : ∀ {P : Phase ρ → Prop} {j : ℕ}, j ≠ i → P (s.phase j) →
      P (Function.update u.phase i p j) := by
    intro P j hj hold
    rwa [Function.update_of_ne hj, hphase]
  refine ⟨herror, ?_, ?_, ?_, ?_, hkept, hearly, ?_, ?_, ?_⟩
  · intro j hj
    obtain ⟨hne, hle⟩ := hcalls j hj
    exact keep (P := fun q => q = .returned) hne (h.unused j hle)
  · rw [goOn_phase, hphase]
    exact (Function.forall_update_iff s.phase (fun _ q => u.Fits q)).mpr ⟨hp, hothers⟩
  · rw [goOn_phase, hphase]
    cases hps : p.isSetter with
    | true =>
      refine ⟨i, fun j hj => ?_⟩
      rw [Function.update_of_ne hj]
      exact hsetter hps j hj
    | false =>
      obtain ⟨a, ha⟩ := h.one_setter
      refine ⟨a, fun j hj => ?_⟩
      by_cases hji : j = i
      · rw [hji, Function.update_self, hps]
      · rw [Function.update_of_ne hji]
        exact ha j hj
  · rw [goOn_phase, hphase]
    cases hpr : p.isReleaser with
    | true =>
      refine ⟨i, fun j hj => ?_⟩
      rw [Function.update_of_ne hj]
      exact hreleaser hpr j hj
    | false =>
      obtain ⟨a, ha⟩ := h.one_releaser
      refine ⟨a, fun j hj => ?_⟩
      by_cases hji : j = i
      · rw [hji, Function.update_self, hpr]
      · rw [Function.update_of_ne hji]
        exact ha j hj
  · intro hflags
    rcases hlate hflags with hall | hpr | ⟨j, hj, hold⟩
    · exact .inl hall
    · exact .inr ⟨i, by simpa using hpr⟩
    · exact .inr ⟨j, keep (P := fun q => q.isReleaser = true) hj hold⟩
  · rcases hset with hall | hps | ⟨j, hj, hold⟩
    · exact .inl hall
    · exact .inr ⟨i, by simpa using hps⟩
    · exact .inr ⟨j, keep (P := fun q => q.isSetter = true) hj hold⟩
  · rcases hdispose with hall | hpc | ⟨j, hj, hold⟩
    · exact .inl hall
    · exact .inr ⟨i, by simpa using hpc⟩
    · exact .inr ⟨j, keep (P := fun q => q = .claiming) hj hold⟩

/-- A call that is in none of the phases of `P` is not the one that is. -/
theorem of_ne {P : Phase ρ → Prop} (hi : ¬ P (s.phase i)) (h : ∃ j, P (s.phase j)) :
    ∃ j, j ≠ i ∧ P (s.phase j) := by
  obtain ⟨j, hj⟩ := h
  refine ⟨j, ?_, hj⟩
  rintro rfl
  exact hi hj

theorem Exclusive.dispose_pending_of_ne (h : s.Exclusive) (hi : s.phase i ≠ .claiming)
    (p : Phase ρ) : s.disposed = decide (0 < s.disposes) ∨ p = .claiming ∨
      ∃ j, j ≠ i ∧ s.phase j = .claiming :=
  h.dispose_pending.imp_right fun hex => .inr (of_ne (P := fun q => q = .claiming) hi hex)

theorem Exclusive.set_pending_of_ne (h : s.Exclusive) (hi : (s.phase i).isSetter = false)
    (p : Phase ρ) : s.isSet = decide (0 < s.sets) ∨ p.isSetter = true ∨
      ∃ j, j ≠ i ∧ (s.phase j).isSetter = true :=
  h.set_pending.imp_right fun hex =>
    .inr (of_ne (P := fun q => q.isSetter = true) (by simp [hi]) hex)

theorem Exclusive.late_of_ne (h : s.Exclusive) (hi : (s.phase i).isReleaser = false)
    (hflags : (s.disposed && s.isSet) = true) (p : Phase ρ) :
    s.released = s.resources ∨ p.isReleaser = true ∨
      ∃ j, j ≠ i ∧ (s.phase j).isReleaser = true :=
  (h.late hflags).imp_right fun hex =>
    .inr (of_ne (P := fun q => q.isReleaser = true) (by simp [hi]) hex)

/-- The resources are stored; the flag is still to be set. -/
theorem Exclusive.stores (h : s.Exclusive) {r : List ρ} (hi : s.phase i = .storing r) :
    (s.advance i).Exclusive := by
  have hsetter : (s.phase i).isSetter = true := by rw [hi]; rfl
  have hfits := h.fits i
  rw [hi] at hfits
  obtain ⟨hunset, hsets, hr⟩ := hfits
  have heq : s.advance i = { s with stored := some r }.goOn i (.announcing r) := by
    simp [advance, hi]
  rw [heq]
  refine h.goOn (.announcing r) (h.called (by rw [hi]; simp)) h.error_none
    ⟨hunset, hsets, hr, rfl⟩ ?_ (fun _ j hj => unique_of_one h.one_setter hsetter hj)
    (fun hp => by simp [Phase.isReleaser] at hp) (fun hset => ?_) h.early
    (fun hflags => ?_) (.inr (.inl rfl)) (h.dispose_pending_of_ne (by rw [hi]; simp) _) rfl
  · intro j hj
    have hsilent := unique_of_one h.one_setter hsetter hj
    have hold := h.fits j
    cases hphase : s.phase j <;> simp_all [Fits, Phase.isSetter]
  · simp [hunset] at hset
  · simp [hunset] at hflags

/-- The flag of the set call. If the other flag is there already, this call
releases the resources itself. -/
theorem Exclusive.announces (h : s.Exclusive) {r : List ρ} (hi : s.phase i = .announcing r) :
    (s.advance i).Exclusive := by
  have hsetter : (s.phase i).isSetter = true := by rw [hi]; rfl
  have hfits := h.fits i
  rw [hi] at hfits
  obtain ⟨hunset, hsets, hr, hstored⟩ := hfits
  have hsilent := h.not_releaser (by simp [hunset])
  have hreleased := h.early (by simp [hunset])
  have heq : s.advance i = { s with isSet := true }.goOn i
      (if s.disposed then .releasing r else .returned) := by
    simp [advance, hi, hunset]
  rw [heq]
  refine h.goOn _ (h.called (by rw [hi]; simp)) h.error_none ?_ ?_ ?_ (fun _ j _ => hsilent j)
    (fun _ _ => hr ▸ hstored) (fun _ => hreleased) (fun hflags => ?_)
    (.inl (by simp [hsets])) (h.dispose_pending_of_ne (by rw [hi]; simp) _) rfl
  · cases hd : s.disposed <;> simp [Fits, hreleased, hr]
  · intro j hj
    have hquiet := unique_of_one h.one_setter hsetter hj
    have hold := h.fits j
    have hquiet' := hsilent j
    cases hphase : s.phase j <;> simp_all [Fits, Phase.isSetter, Phase.isReleaser]
  · cases hd : s.disposed <;> simp [Phase.isSetter]
  · simp only [Bool.and_true] at hflags
    simp [hflags, Phase.isReleaser]

/-- The flag of a dispose call. The first one to find the resources set
releases them. -/
theorem Exclusive.claims (h : s.Exclusive) (hi : s.phase i = .claiming) :
    (s.advance i).Exclusive := by
  have hfits := h.fits i
  rw [hi] at hfits
  have hpos : 0 < s.disposes := hfits
  cases hd : s.disposed with
  | true =>
    have heq : s.advance i = s.goOn i .returned := by simp [advance, hi, hd]
    rw [heq]
    refine h.goOn .returned (h.called (by rw [hi]; simp)) h.error_none trivial (fun j _ => h.fits j)
      (fun hp => by simp [Phase.isSetter] at hp) (fun hp => by simp [Phase.isReleaser] at hp) h.kept
      h.early (fun hflags => h.late_of_ne (by rw [hi]; rfl) hflags _)
      (h.set_pending_of_ne (by rw [hi]; rfl) _) (.inl (by simp [hd, hpos])) rfl
  | false =>
    have hsilent := h.not_releaser (by simp [hd])
    have hreleased := h.early (by simp [hd])
    have heq : s.advance i = { s with disposed := true }.goOn i
        (if s.isSet then .reading else .returned) := by
      simp [advance, hi, hd]
    rw [heq]
    refine h.goOn _ (h.called (by rw [hi]; simp)) h.error_none ?_ ?_ ?_ (fun _ j _ => hsilent j)
      (fun _ hdis => by simp at hdis) (fun _ => hreleased) (fun hflags => ?_)
      (h.set_pending_of_ne (by rw [hi]; rfl) _) (.inl (by simp [hpos])) rfl
    · cases hset : s.isSet <;> simp [Fits, hreleased]
      exact h.kept hset hd
    · intro j hj
      have hold := h.fits j
      have hquiet := hsilent j
      cases hphase : s.phase j <;> simp_all [Fits, Phase.isReleaser]
    · cases hset : s.isSet <;> simp [Phase.isSetter]
    · simp only [Bool.true_and] at hflags
      simp [hflags, Phase.isReleaser]

/-- The call in charge goes on with the release. -/
theorem Exclusive.releases (h : s.Exclusive) (hi : (s.phase i).isReleaser = true) (p : Phase ρ)
    (stored : Option (List ρ)) (released : List ρ) (hp : p.isSetter = false)
    (hfits : ({ s with stored := stored, released := released } : Handover ρ).Fits p)
    (hdone : p.isReleaser = true ∨ released = s.resources) :
    ({ s with stored := stored, released := released }.goOn i p).Exclusive := by
  have hflags : s.disposed = true ∧ s.isSet = true := by
    have hnot := mt (fun hf => h.not_releaser hf i) (by simp [hi])
    simpa using hnot
  obtain ⟨hd, hset⟩ := hflags
  have hclaim : s.phase i ≠ .claiming := by
    intro hc
    simp [hc, Phase.isReleaser] at hi
  have hreturned : s.phase i ≠ .returned := by
    intro hc
    simp [hc, Phase.isReleaser] at hi
  refine h.goOn p (h.called hreturned) h.error_none hfits ?_ (fun hps => by simp [hp] at hps)
    (fun _ j hj => unique_of_one h.one_releaser hi hj) (fun _ hdis => by simp [hd] at hdis)
    (fun hf => by simp [hd, hset] at hf) (fun _ => ?_) ?_ (h.dispose_pending_of_ne hclaim _) rfl
  · intro j hj
    have hquiet := unique_of_one h.one_releaser hi hj
    have hold := h.fits j
    cases hphase : s.phase j <;> simp_all [Fits, Phase.isReleaser]
  · rcases hdone with hpr | hall
    · exact .inr (.inl hpr)
    · exact .inl hall
  · rcases h.set_pending with hall | ⟨j, hj⟩
    · exact .inl hall
    · simp [h.not_setter hset j] at hj

theorem Exclusive.advance (h : s.Exclusive) (i : ℕ) : (s.advance i).Exclusive := by
  cases hi : s.phase i with
  | storing r => exact h.stores hi
  | announcing r => exact h.announces hi
  | claiming => exact h.claims hi
  | reading =>
    have hfits := h.fits i
    rw [hi] at hfits
    obtain ⟨hd, hset, hstored, hreleased⟩ := hfits
    have heq : s.advance i = s.goOn i (.releasing s.resources) := by
      simp [Handover.advance, hi, hstored]
    rw [heq]
    exact h.releases (by rw [hi]; rfl) (.releasing s.resources) s.stored s.released rfl
      ⟨hd, hset, by simp [hreleased]⟩ (.inl rfl)
  | releasing left =>
    have hfits := h.fits i
    rw [hi] at hfits
    obtain ⟨hd, hset, hsplit⟩ := hfits
    cases left with
    | nil =>
      have heq : s.advance i = { s with stored := none }.goOn i .returned := by
        simp [Handover.advance, hi]
      rw [heq]
      exact h.releases (by rw [hi]; rfl) .returned none s.released rfl trivial
        (.inr (by simpa using hsplit))
    | cons x left =>
      have heq : s.advance i =
          { s with released := s.released ++ [x] }.goOn i (.releasing left) := by
        simp [Handover.advance, hi]
      rw [heq]
      exact h.releases (by rw [hi]; rfl) (.releasing left) s.stored (s.released ++ [x]) rfl
        ⟨hd, hset, by simpa using hsplit⟩ (.inl rfl)
  | returned =>
    have heq : s.advance i = s := by simp [Handover.advance, hi]
    rw [heq]
    exact h

theorem Exclusive.quiet (h : s.Exclusive) (hnone : s.sets = 0) (j : ℕ) :
    (s.phase j).isSetter = false := by
  have hold := h.fits j
  cases hphase : s.phase j <;> simp_all [Fits, Phase.isSetter]

theorem Exclusive.unset (h : s.Exclusive) (hnone : s.sets = 0) : s.isSet = false := by
  rcases h.set_pending with hall | ⟨j, hj⟩
  · simpa [hnone] using hall
  · simp [h.quiet hnone j] at hj

/-- The one set call comes in. -/
theorem Exclusive.enters_set (h : s.Exclusive) (r : List ρ) (hnone : s.sets = 0) :
    ({ s with sets := s.sets + 1, resources := r }.enter (.storing r)).Exclusive := by
  have hquiet := h.quiet hnone
  have hunset := h.unset hnone
  have hsilent := h.not_releaser (by simp [hunset])
  refine h.goOn (i := s.calls)
    (u := { s with sets := s.sets + 1, resources := r, calls := s.calls + 1 }) (.storing r) ?_
    h.error_none ⟨hunset, by simp, rfl⟩ ?_ (fun _ j _ => hquiet j)
    (fun hp => by simp [Phase.isReleaser] at hp) (fun hset => by simp [hunset] at hset) h.early
    (fun hflags => by simp [hunset] at hflags) (.inr (.inl rfl)) ?_ rfl
  · intro j hj
    simp only at hj
    omega
  · intro j _
    have hold := h.fits j
    have hq := hquiet j
    have hs := hsilent j
    cases hphase : s.phase j <;> simp_all [Fits, Phase.isSetter, Phase.isReleaser]
  · exact h.dispose_pending_of_ne (by rw [h.unused s.calls (Nat.le_refl _)]; simp) _

/-- A dispose call comes in. -/
theorem Exclusive.enters_dispose (h : s.Exclusive) :
    ({ s with disposes := s.disposes + 1 }.enter .claiming).Exclusive := by
  have hlast : s.phase s.calls = .returned := h.unused s.calls (Nat.le_refl _)
  refine h.goOn (i := s.calls)
    (u := { s with disposes := s.disposes + 1, calls := s.calls + 1 }) .claiming ?_
    h.error_none (Nat.succ_pos _) ?_ (fun hp => by simp [Phase.isSetter] at hp)
    (fun hp => by simp [Phase.isReleaser] at hp) h.kept h.early
    (fun hflags => h.late_of_ne (by rw [hlast]; rfl) hflags _)
    (h.set_pending_of_ne (by rw [hlast]; rfl) _) (.inr (.inl rfl)) rfl
  · intro j hj
    simp only at hj
    omega
  · intro j _
    have hold := h.fits j
    cases hphase : s.phase j <;> simp_all [Fits]

theorem advance_history (s : Handover ρ) (i : ℕ) : (s.advance i).sets = s.sets ∧
    (s.advance i).disposes = s.disposes ∧ (s.advance i).resources = s.resources := by
  cases hi : s.phase i with
  | storing r => simp [advance, hi, Handover.goOn]
  | announcing r => cases hset : s.isSet <;> simp [advance, hi, hset, Handover.goOn]
  | claiming => cases hd : s.disposed <;> simp [advance, hi, hd, Handover.goOn]
  | reading => cases hs : s.stored <;> simp [advance, hi, hs, Handover.goOn]
  | releasing left => cases left <;> simp [advance, hi, Handover.goOn]
  | returned => simp [advance, hi]

/-- The state after these inputs is well-behaved and its counters are right. -/
structure Records (s : Handover ρ) (inputs : List (Input ρ)) : Prop where
  exclusive : s.Exclusive
  sets_eq : s.sets = inputs.countP Input.isSet
  disposes_eq : s.disposes = inputs.countP Input.isDispose
  resources_eq : s.resources = inputs.flatMap Input.handed

theorem handed_eq_nil {inputs : List (Input ρ)} (h : inputs.countP Input.isSet = 0) :
    inputs.flatMap Input.handed = [] := by
  rw [List.flatMap_eq_nil_iff]
  intro i hi
  have hnot := List.countP_eq_zero.mp h i hi
  cases i <;> simp_all [Input.handed, Input.isSet]

theorem Records.step {inputs : List (Input ρ)} (h : s.Records inputs) (i : Input ρ)
    (honce : (inputs ++ [i]).countP Input.isSet ≤ 1) : (s.step i).Records (inputs ++ [i]) := by
  obtain ⟨hexcl, hsets, hdisposes, hresources⟩ := h
  have hrun : s.error.isSome = false := by simp [hexcl.error_none]
  rw [List.countP_append] at honce
  cases i with
  | set r =>
    have hlast : [Input.set r].countP Input.isSet = 1 := rfl
    have hnone : s.sets = 0 := by omega
    have hempty := handed_eq_nil (hsets ▸ hnone)
    have hstep : s.step (.set r) =
        { s with sets := s.sets + 1, resources := r }.enter (.storing r) := by
      simp [Handover.step, hrun, hnone]
    rw [hstep]
    refine ⟨hexcl.enters_set r hnone, ?_, ?_, ?_⟩
    · simp [enter, hsets, Input.isSet]
    · simp [enter, hdisposes, Input.isDispose]
    · simp [enter, hempty, Input.handed]
  | dispose =>
    have hstep : s.step .dispose = { s with disposes := s.disposes + 1 }.enter .claiming := by
      simp [Handover.step, hrun]
    rw [hstep]
    refine ⟨hexcl.enters_dispose, ?_, ?_, ?_⟩
    · simp [enter, hsets, Input.isSet]
    · simp [enter, hdisposes, Input.isDispose]
    · simp [enter, hresources, Input.handed]
  | advance call =>
    have hstep : s.step (.advance call) = s.advance call := by simp [Handover.step, hrun]
    obtain ⟨hs, hd, hr⟩ := s.advance_history call
    rw [hstep]
    refine ⟨hexcl.advance call, ?_, ?_, ?_⟩
    · simp [hs, hsets, Input.isSet]
    · simp [hd, hdisposes, Input.isDispose]
    · simp [hr, hresources, Input.handed]

theorem records_run (inputs : List (Input ρ)) (honce : inputs.countP Input.isSet ≤ 1) :
    (run step {} inputs).Records inputs := by
  induction inputs using List.reverseRecOn with
  | nil => exact ⟨exclusive_init, rfl, rfl, rfl⟩
  | append_singleton inputs i ih =>
    rw [run_append]
    refine (ih ?_).step i honce
    rw [List.countP_append] at honce
    omega

/-- If the resources are handed over at most once, then in every interleaving
there is no fatal error and they are released in order, none twice. When all
calls are over they have been released if and only if somebody asked for it. -/
theorem released_once (inputs : List (Input ρ)) (honce : inputs.countP Input.isSet ≤ 1) :
    (run step {} inputs).error = none ∧
      (run step {} inputs).released <+: inputs.flatMap Input.handed ∧
      ((∀ i, (run step {} inputs).phase i = .returned) →
        (run step {} inputs).released =
          if inputs.any Input.isDispose then inputs.flatMap Input.handed else []) := by
  obtain ⟨h, hsets, hdisposes, hresources⟩ := records_run inputs honce
  rw [← hresources]
  have hany : inputs.any Input.isDispose = decide (0 < (run step {} inputs).disposes) := by
    rw [Bool.eq_iff_iff, decide_eq_true_eq, hdisposes, List.countP_pos_iff, List.any_eq_true]
  rw [hany]
  generalize run step {} inputs = s at h hsets hresources
  refine ⟨h.error_none, ?_, ?_⟩
  · cases hflags : s.disposed && s.isSet with
    | false =>
      rw [h.early hflags]
      exact List.nil_prefix
    | true =>
      rcases h.late hflags with hall | ⟨j, hj⟩
      · exact ⟨[], (List.append_nil _).trans hall⟩
      · have hfits := h.fits j
        cases hphase : s.phase j with
        | reading =>
          rw [hphase] at hfits
          rw [hfits.2.2.2]
          exact List.nil_prefix
        | releasing left =>
          rw [hphase] at hfits
          rw [← hfits.2.2]
          exact List.prefix_append _ _
        | _ => simp [hphase, Phase.isReleaser] at hj
  · intro hover
    have hset : s.isSet = decide (0 < s.sets) := by
      rcases h.set_pending with hall | ⟨j, hj⟩
      · exact hall
      · simp [hover j, Phase.isSetter] at hj
    have hdispose : s.disposed = decide (0 < s.disposes) := by
      rcases h.dispose_pending with hall | ⟨j, hj⟩
      · exact hall
      · simp [hover j] at hj
    cases hflags : s.disposed && s.isSet with
    | true =>
      rcases h.late hflags with hall | ⟨j, hj⟩
      · simp only [Bool.and_eq_true] at hflags
        rw [← hdispose, hflags.1, if_pos rfl, hall]
      · simp [hover j, Phase.isReleaser] at hj
    | false =>
      rw [h.early hflags, ← hdispose]
      cases hd : s.disposed with
      | false => rfl
      | true =>
        -- nothing has been handed over
        rw [hd, Bool.true_and, hset] at hflags
        have hnone : s.sets = 0 := by simpa using hflags
        rw [hresources, handed_eq_nil (hsets ▸ hnone)]
        rfl

end Handover

end Mber.Handovers
