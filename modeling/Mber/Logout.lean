import Mber.ReachableWorlds
import Mber.Runs

/-!
Repeated logout taps. A sign-out that throws changes nothing. A sign-out that
succeeds fires isCompleted and switches to a new login screen, and it does so
every time: the HomeCoordinator keeps itself alive through its logout
subscription, and signing out when nobody is signed in succeeds again.
-/
namespace Mber.Logout

open Coordinators World Entry CoordinatorLaws Runs

variable {w : World} {h : ℕ}

/-- A sign-out that succeeds logs one completion and opens one login screen. -/
structure SwitchesOnce (w after : World) (h : ℕ) : Prop where
  signedOut : after.currentUser = none
  log_eq : ∃ entries, after.log = w.log ++ entries ∧ entries.filterMap completed? = [h] ∧
    entries.filterMap started? = [w.next] ∧ entries.filterMap pushed? = [.login w.next]
  kind_eq : (after.coordinator w.next).kind = .login

theorem logout_thrown (w : World) (h : ℕ) : w.step (.logoutButtonTapped h false) = w := by
  simp [step, logoutButtonTapped]

/-- Pops in between do not show among entries of another kind. -/
theorem filterMap_around {α : Type*} (f : Entry → Option α) (front back : List Entry)
    {pops : List Entry} (hpops : ∀ e ∈ pops, IsPop e) (hf : ∀ e, IsPop e → f e = none) :
    (front ++ pops ++ back).filterMap f = front.filterMap f ++ back.filterMap f := by
  have hnil : pops.filterMap f = [] :=
    List.filterMap_eq_nil_iff.mpr fun e he => hf e (hpops e he)
  rw [List.filterMap_append, List.filterMap_append, hnil, List.append_nil]

theorem logout_succeeded (hw : Numbered w) (hh : w.Hears .home h) :
    SwitchesOnce w (w.step (.logoutButtonTapped h true)) h ∧
      (w.step (.logoutButtonTapped h true)).Hears .home h := by
  have hlt := hw.lt_of_hears hh
  have hstep : w.step (.logoutButtonTapped h true) =
      HomeCoordinator.switchToLoginVC (w.signOut.accept h) h := by
    simp [step, logoutButtonTapped, hh]
  have hout : Numbered w.signOut := hw.of_eq rfl rfl
  have hnext : (w.signOut.accept h).next = w.next := (hout.accept (c := h) hlt).2
  obtain ⟨hrole, huser⟩ := accept_role w.signOut h
  have hnone : (w.signOut.accept h).currentUser = none := huser
  obtain ⟨pops, hlog, hpops⟩ := accept_log w.signOut h
  have hne : h ≠ w.next := by omega
  have hswitch := switchToLoginVC_of_signedOut (w.signOut.accept h) h hnone
  have hcoordinator := switchToLoginVC_coordinator (w.signOut.accept h) (c := h) hnone
    (by rw [hnext]; exact hne)
  rw [hnext] at hswitch hcoordinator
  rw [hstep]
  refine ⟨⟨?_, ?_, ?_⟩, ?_⟩
  · rw [hswitch]
    exact hnone
  · refine ⟨[⟨.completed h, none⟩] ++ pops ++ [⟨.started w.next, none⟩,
      ⟨.pushed (.login w.next), none⟩, ⟨.window, none⟩], ?_, ?_, ?_, ?_⟩
    · have hlog' : (w.signOut.accept h).log = w.log ++ [⟨.completed h, none⟩] ++ pops := hlog
      rw [switchToLoginVC_log _ h hnone, hlog', hnext]
      simp only [List.append_assoc]
    · exact filterMap_around completed? _ _ hpops (by rintro e ⟨vc, he⟩; simp [completed?, he])
    · exact filterMap_around started? _ _ hpops (by rintro e ⟨vc, he⟩; simp [started?, he])
    · exact filterMap_around pushed? _ _ hpops (by rintro e ⟨vc, he⟩; simp [pushed?, he])
  · rw [hcoordinator, if_pos rfl]
  · obtain ⟨hkind, hlistening⟩ := hrole h
    have hself := hcoordinator h
    rw [if_neg hne, if_pos rfl] at hself
    have hkind' : ((HomeCoordinator.switchToLoginVC (w.signOut.accept h) h).coordinator h).kind =
        .home := by
      rw [hself]
      exact hkind.trans hh.1
    have hlistening' : ((HomeCoordinator.switchToLoginVC
        (w.signOut.accept h) h).coordinator h).listening = true := by
      rw [hself]
      exact hlistening.trans hh.2.1
    exact ⟨hkind', hlistening', isAlive_home hkind' hlistening'⟩

/-- The world and whether a sign-out has succeeded already. -/
def logoutStep (h : ℕ) (s : World × Bool) (signedOut : Bool) : World × Bool :=
  (s.1.step (.logoutButtonTapped h signedOut), s.2 || signedOut)

/-- Only the first sign-out that succeeds does anything, and it switches once. -/
def AtomicOnce (h : ℕ) (s : World × Bool) (signedOut : Bool) : Prop :=
  if signedOut = true ∧ s.2 = false then
    SwitchesOnce s.1 (s.1.step (.logoutButtonTapped h signedOut)) h
  else s.1.step (.logoutButtonTapped h signedOut) = s.1

/-- This sign-out is not one that succeeds after another. -/
def NotAgain (s : World × Bool) (signedOut : Bool) : Prop := ¬ (s.2 = true ∧ signedOut = true)

theorem notAgain_iff (h : ℕ) (s : World × Bool) (outcomes : List Bool) :
    EveryStep (logoutStep h) NotAgain s outcomes ↔
      outcomes.count true ≤ if s.2 = true then 0 else 1 := by
  induction outcomes generalizing s with
  | nil => simp [EveryStep]
  | cons o rest ih =>
    obtain ⟨w, done⟩ := s
    simp only [EveryStep, ih, logoutStep, NotAgain]
    cases o <;> cases done <;> simp

/-- For a HomeCoordinator that hears its view model, in any world the app can
reach: every tap behaves exactly when no sign-out succeeds after another one. -/
theorem logout_once_iff (w : World) (h : ℕ) (hw : Numbered w) (hh : w.Hears .home h)
    (outcomes : List Bool) :
    EveryStep (logoutStep h) (AtomicOnce h) (w, false) outcomes ↔ outcomes.count true ≤ 1 := by
  have hcount := notAgain_iff h (w, false) outcomes
  simp only [Bool.false_eq_true, if_false] at hcount
  rw [← hcount]
  refine everyStep_iff_until (fun s => Numbered s.1 ∧ s.1.Hears .home h) ?_ ?_ _ _ ⟨hw, hh⟩
  · rintro ⟨v, done⟩ o ⟨hv, hears⟩ hq
    have hnext := numbered_step hv (.logoutButtonTapped h o)
    obtain ⟨hswitch, hears'⟩ := logout_succeeded hv hears
    cases o with
    | false =>
      have hthrown := logout_thrown v h
      simp only [AtomicOnce, logoutStep, hthrown, Bool.false_eq_true, false_and, if_false,
        true_and]
      exact ⟨hv, hears⟩
    | true =>
      have hdone : done = false := by simpa [NotAgain] using hq
      simp only [AtomicOnce, hdone, and_self, if_true]
      exact ⟨hswitch, hnext, hears'⟩
  · rintro ⟨v, done⟩ o ⟨hv, hears⟩ hq hatomic
    obtain ⟨rfl, rfl⟩ : done = true ∧ o = true := by simpa [NotAgain] using hq
    obtain ⟨entries, hlog, hcompleted, -, -⟩ := (logout_succeeded hv hears).1.log_eq
    have hsame : v.step (.logoutButtonTapped h true) = v := by simpa [AtomicOnce] using hatomic
    rw [hsame] at hlog
    have hnil : entries = [] := by simpa using hlog
    simp [hnil] at hcompleted

/-- Home as it stands after a login. -/
def loggedIn : World := (launched none).step (.isLoginCompleted 1 true)

theorem numbered_loggedIn : Numbered loggedIn :=
  (wellFormed_run none [.isLoginCompleted 1 true]).numbered

/-- A sign-out that throws, one that succeeds, and one more that throws. -/
theorem logout_once_retry :
    EveryStep (logoutStep 2) (AtomicOnce 2) (loggedIn, false) [false, true, false] :=
  (logout_once_iff loggedIn 2 numbered_loggedIn (by decide) [false, true, false]).mpr (by decide)

/-- Two sign-outs that succeed open two login screens. -/
theorem logout_twice :
    ¬ EveryStep (logoutStep 2) (AtomicOnce 2) (loggedIn, false) [true, true] := by
  rintro ⟨-, h, -⟩
  have hsame : (loggedIn.step (.logoutButtonTapped 2 true)).step (.logoutButtonTapped 2 true) =
      loggedIn.step (.logoutButtonTapped 2 true) := h
  have hstack := congrArg (fun v => v.stack.length) hsame
  revert hstack
  decide

end Mber.Logout
