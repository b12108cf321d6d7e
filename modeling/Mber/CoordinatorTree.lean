import Mber.BeforeHandover
import Mathlib.Logic.Relation

/-!
The tree of childCoordinators against the set of active coordinators, those
that have been started and have not fired isCompleted. Every handover hangs
the successor below the coordinator that it completes, which its parent drops
in the same step. The tree owns the active coordinators exactly as long as no
handover has taken place.
-/
namespace Mber.CoordinatorTree

open Coordinators World CoordinatorLaws BeforeHandover Runs

def Child (w : World) (p c : ℕ) : Prop := some c ∈ (w.coordinator p).childCoordinators

/-- Reachable from the AppCoordinator by following childCoordinators. -/
def Reachable (w : World) (c : ℕ) : Prop := Relation.ReflTransGen (Child w) 0 c

def Active (w : World) (c : ℕ) : Prop :=
  (w.coordinator c).started = true ∧ (w.coordinator c).fired = false

structure TreeOwnsActive (w : World) : Prop where
  owned : ∀ c, Active w c → Reachable w c
  active : ∀ c, c ≠ 0 → Reachable w c → Active w c

variable {w : World} {opened : List ℕ} {c : ℕ}

/-- A set that contains the AppCoordinator and the children of its members
contains everything reachable. -/
theorem reachable_subset (S : ℕ → Prop) (h0 : S 0) (hchild : ∀ p d, S p → Child w p d → S d)
    (h : Reachable w c) : S c := by
  induction h with
  | refl => exact h0
  | tail _ hstep ih => exact hchild _ _ ih hstep

theorem reachable_child {p : ℕ} (hp : Reachable w p) (h : Child w p c) : Reachable w c :=
  hp.tail h

theorem LoginPhase.treeOwnsActive (h : LoginPhase w opened) : TreeOwnsActive w := by
  have hlogin : Reachable w 1 := by
    refine reachable_child Relation.ReflTransGen.refl ?_
    simp [Child, h.app]
  constructor
  · rintro d ⟨hstarted, hfired⟩
    by_cases h0 : d = 0
    · subst h0
      exact Relation.ReflTransGen.refl
    · by_cases h1 : d = 1
      · subst h1
        exact hlogin
      · have hlt : d < w.next := by
          by_contra hge
          simp [h.fresh d (by omega)] at hstarted
        have hopen : d ∈ opened := by
          by_contra hclosed
          simp [h.closed_eq d (by omega) hlt hclosed, closedRegistration] at hfired
        exact reachable_child hlogin ((h.child_iff (by omega)).mpr ⟨rfl, hopen⟩)
  · intro d hd hreach
    have hmem : d = 0 ∨ d = 1 ∨ d ∈ opened := by
      refine reachable_subset (fun d => d = 0 ∨ d = 1 ∨ d ∈ opened) (Or.inl rfl) ?_ hreach
      intro p e _ hchild
      by_cases hp : p = 0
      · subst hp
        simp only [Child, h.app, List.mem_singleton, Option.some.injEq] at hchild
        exact Or.inr (Or.inl hchild)
      · exact Or.inr (Or.inr ((h.child_iff hp).mp hchild).2)
    rcases hmem with rfl | rfl | hopen
    · exact absurd rfl hd
    · simp [Active, h.login]
    · simp [Active, h.opened_eq d hopen, openRegistration]

theorem HomePhase.treeOwnsActive (h : HomePhase w) : TreeOwnsActive w := by
  have hlogin : Reachable w 1 := by
    refine reachable_child Relation.ReflTransGen.refl ?_
    simp [Child, h.app]
  have hhome : Reachable w 2 := by
    refine reachable_child hlogin ?_
    simp [Child, h.login]
  have hsmall : ∀ d, 3 ≤ d ∨ d = 0 ∨ d = 1 ∨ d = 2 := fun d => by omega
  constructor
  · rintro d ⟨hstarted, -⟩
    rcases hsmall d with hge | rfl | rfl | rfl
    · simp [h.fresh d hge] at hstarted
    · exact Relation.ReflTransGen.refl
    · exact hlogin
    · exact hhome
  · intro d hd hreach
    have hlt : d < 3 := by
      refine reachable_subset (fun d => d < 3) (by omega) ?_ hreach
      intro p e hp hchild
      rcases hsmall p with hge | rfl | rfl | rfl
      · omega
      · simp [Child, h.app] at hchild
        omega
      · simp [Child, h.login] at hchild
        omega
      · simp [Child, h.home] at hchild
    rcases hsmall d with hge | rfl | rfl | rfl
    · omega
    · exact absurd rfl hd
    · simp [Active, h.login]
    · simp [Active, h.home]

theorem treeOwnsActive_of_noHandoverYet (h : NoHandoverYet w) : TreeOwnsActive w := by
  rcases h with ⟨opened, h⟩ | h
  · exact LoginPhase.treeOwnsActive h
  · exact HomePhase.treeOwnsActive h

/-- A coordinator that is active outside a set which the tree does not leave. -/
theorem not_treeOwnsActive (S : ℕ → Prop) (h0 : S 0) (hchild : ∀ p d, S p → Child w p d → S d)
    (hactive : Active w c) (hc : ¬ S c) : ¬ TreeOwnsActive w :=
  fun h => hc (reachable_subset S h0 hchild (h.owned c hactive))

/-- A login: the AppCoordinator drops the login coordinator that Home hangs from. -/
theorem LoginPhase.login_breaks (h : LoginPhase w opened) (success : Bool) :
    ¬ TreeOwnsActive (w.step (.isLoginCompleted 1 success)) := by
  have hge := h.next_ge
  have hdone := accept_completed (w := w) (c := 1) (k := ⟨0, .remove, some 1⟩)
    (by rw [h.login]) (isAlive_app w) (by simp)
  have hstep : w.step (.isLoginCompleted 1 success) =
      (HomeCoordinator.start (((w.accept 1).create .home).add 1 (w.accept 1).next)
        (w.accept 1).next).record .window := by
    simp [step, isLoginCompleted, h.hears_self]
  have hcoordinator := homeChild_coordinator (w.accept 1) (c := 1)
    (by rw [hdone.next_eq]; omega)
  have happ : ((w.accept 1).coordinator 0).childCoordinators = [] := by
    rw [hdone.owner, h.app]
    rfl
  rw [hstep]
  refine not_treeOwnsActive (c := (w.accept 1).next) (fun d => d = 0) rfl ?_ ?_ ?_
  · rintro p d rfl hchild
    have h0 : 0 ≠ (w.accept 1).next := by
      rw [hdone.next_eq]
      omega
    simp only [Child, World.record, hcoordinator, if_neg h0, Nat.zero_ne_one, if_false] at hchild
    rw [happ] at hchild
    simp at hchild
  · simp [Active, World.record, hcoordinator]
  · rw [hdone.next_eq]
    omega

/-- A registration: its parent drops the coordinator that Home hangs from. -/
theorem LoginPhase.registration_breaks (h : LoginPhase w opened)
    (hears : w.Hears .registration c) :
    ¬ TreeOwnsActive (w.step (.isRegistered c true)) := by
  obtain ⟨hge, hlt, hhandler⟩ := h.opened_of_hears hears
  have hc : c ≠ w.next := by omega
  have hadd := create_add_coordinator w .home hc
  let v := (w.create .home).add c w.next
  have happ : v.coordinator 0 = w.coordinator 0 := by
    rw [hadd, if_neg (by omega), if_neg (by omega)]
  have halive : v.IsAlive 1 := by
    apply isAlive_child Nat.one_pos (isAlive_app v)
    rw [happ, h.app]
    simp
  have hdone := accept_completed (w := v) (c := c) (k := ⟨1, .popThenRemove, some c⟩)
    (by rw [hadd, if_neg hc, if_pos rfl]; exact hhandler) halive (by simp; omega)
  have hnew : (v.accept c).coordinator w.next = { kind := .home } := by
    rw [hdone.other w.next (Ne.symm hc) (by simp; omega), hadd, if_pos rfl]
  have hstep : w.step (.isRegistered c true) = RegistrationCoordinator.switchToHomeVC w c := by
    simp [step, isRegistered, hears]
  have hcoordinator := switchToHomeVC_coordinator w c
  rw [← hstep, hnew] at hcoordinator
  have hlogin : ((v.accept c).coordinator 1).childCoordinators = (opened.erase c).map some := by
    rw [hdone.owner]
    simp only [v, hadd, if_neg (show (1 : ℕ) ≠ w.next by omega), if_neg (show (1 : ℕ) ≠ c by omega),
      h.login, map_some_filter h.nodup]
  refine not_treeOwnsActive (c := w.next) (fun d => d = 0 ∨ d = 1 ∨ d ∈ opened.erase c)
    (Or.inl rfl) ?_ ?_ ?_
  · rintro p d (rfl | rfl | hp) hchild
    · rw [Child, hcoordinator, if_neg (by omega), hdone.other 0 (by omega) (by simp), happ,
        h.app] at hchild
      exact Or.inr (Or.inl (by simpa using hchild))
    · rw [Child, hcoordinator, if_neg (by omega), hlogin] at hchild
      exact Or.inr (Or.inr (by simpa using hchild))
    · obtain ⟨hpc, hopen⟩ := h.nodup.mem_erase_iff.mp hp
      have hrange := h.opened_range p hopen
      rw [Child, hcoordinator, if_neg (by omega), hdone.other p hpc (by simp; omega), hadd,
        if_neg (by omega), if_neg hpc, h.opened_eq p hopen] at hchild
      simp [openRegistration] at hchild
  · simp [Active, hcoordinator]
  · rintro (h0 | h1 | hopen)
    · omega
    · omega
    · have hrange := h.opened_range w.next (List.mem_of_mem_erase hopen)
      omega

/-- A logout: coordinator 1 drops the HomeCoordinator that the login screen hangs from. -/
theorem HomePhase.logout_breaks (h : HomePhase w) (hears : w.Hears .home 2) :
    ¬ TreeOwnsActive (w.step (.logoutButtonTapped 2 true)) := by
  have halive : w.signOut.IsAlive 1 := by
    apply isAlive_child Nat.one_pos (isAlive_app w.signOut)
    change some 1 ∈ (w.coordinator 0).childCoordinators
    simp [h.app]
  have hhandler : (w.signOut.coordinator 2).isCompleted = [⟨1, .removeThenPop, some 2⟩] := by
    change (w.coordinator 2).isCompleted = _
    rw [h.home]
  have hdone := accept_completed (c := 2) hhandler halive (by simp)
  have hnext : (w.signOut.accept 2).next = 3 := hdone.next_eq.trans h.next_eq
  have hcoordinator := switchToLoginVC_coordinator (w.signOut.accept 2) (c := 2)
    hdone.currentUser_eq (by rw [hnext]; simp)
  have hstep : w.step (.logoutButtonTapped 2 true) =
      HomeCoordinator.switchToLoginVC (w.signOut.accept 2) 2 := by
    simp [step, logoutButtonTapped, hears]
  rw [hnext] at hcoordinator
  rw [hstep]
  have hlogin : ((w.signOut.accept 2).coordinator 1).childCoordinators = [] := by
    rw [hdone.owner]
    change ((w.coordinator 1).childCoordinators.filter _) = []
    simp [h.login]
  have happ : (w.signOut.accept 2).coordinator 0 = w.coordinator 0 :=
    hdone.other 0 (by simp) (by simp)
  refine not_treeOwnsActive (c := 3) (fun d => d = 0 ∨ d = 1) (Or.inl rfl) ?_ ?_ (by simp)
  · rintro p d (rfl | rfl) hchild
    · rw [Child, hcoordinator, if_neg (by simp), if_neg (by simp), happ, h.app] at hchild
      exact Or.inr (by simpa using hchild)
    · rw [Child, hcoordinator, if_neg (by simp), if_neg (by simp), hlogin] at hchild
      simp at hchild
  · simp [Active, hcoordinator]

theorem not_treeOwnsActive_of_handover (h : NoHandoverYet w) (e : Event) (he : Handover w e) :
    ¬ TreeOwnsActive (w.step e) := by
  rcases h with ⟨opened, h⟩ | h
  · cases e with
    | isLoginCompleted c success =>
      have hears : w.Hears .login c := by simpa [Handover, EntersHome, LogsOut] using he
      obtain rfl := h.hears_login hears
      exact LoginPhase.login_breaks h success
    | isRegistered c success =>
      obtain ⟨hears, rfl⟩ : w.Hears .registration c ∧ success = true := by
        simpa [Handover, EntersHome, LogsOut] using he
      exact LoginPhase.registration_breaks h hears
    | logoutButtonTapped c signedOut =>
      have hears : w.Hears .home c ∧ signedOut = true := by
        simpa [Handover, EntersHome, LogsOut] using he
      exact absurd hears.1 h.not_hears_home
    | goToRegisterButtonTapped c => simp [Handover, EntersHome, LogsOut] at he
    | goToLoginPageButtonTapped c => simp [Handover, EntersHome, LogsOut] at he
    | sessionChanged currentUser => simp [Handover, EntersHome, LogsOut] at he
  · cases e with
    | isLoginCompleted c success =>
      have hears : w.Hears .login c := by simpa [Handover, EntersHome, LogsOut] using he
      simpa using (h.hears hears).2
    | isRegistered c success =>
      have hears : w.Hears .registration c ∧ success = true := by
        simpa [Handover, EntersHome, LogsOut] using he
      simpa using (h.hears hears.1).2
    | logoutButtonTapped c signedOut =>
      obtain ⟨hears, rfl⟩ : w.Hears .home c ∧ signedOut = true := by
        simpa [Handover, EntersHome, LogsOut] using he
      obtain ⟨rfl, -⟩ := h.hears hears
      exact HomePhase.logout_breaks h hears
    | goToRegisterButtonTapped c => simp [Handover, EntersHome, LogsOut] at he
    | goToLoginPageButtonTapped c => simp [Handover, EntersHome, LogsOut] at he
    | sessionChanged currentUser => simp [Handover, EntersHome, LogsOut] at he

/-- From either launch, the tree owns the active coordinators in every state of
a run exactly when no step of the run is a handover. -/
theorem tree_owns_active_iff (currentUser : Option Firebase.Uid) (events : List Event) :
    EveryState step TreeOwnsActive (launched currentUser) events ↔
      EveryStep step (fun w e => ¬ Handover w e) (launched currentUser) events := by
  refine everyState_iff_until NoHandoverYet (fun w => treeOwnsActive_of_noHandoverYet) ?_ ?_ _ _
    (noHandoverYet_launched currentUser)
  · exact fun w e h hno => noHandoverYet_step h e hno
  · exact fun w e h he => not_treeOwnsActive_of_handover h e (not_not.mp he)

/-- The login result of a launch while signed out: Home is active and unreachable. -/
theorem tree_loses_home :
    ¬ EveryState step TreeOwnsActive (launched none) [.isLoginCompleted 1 true] := by
  rintro ⟨-, h⟩
  exact not_treeOwnsActive_of_handover (noHandoverYet_launched none) (.isLoginCompleted 1 true)
    (by decide) h

end Mber.CoordinatorTree
