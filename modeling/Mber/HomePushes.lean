import Mber.BeforeHandover

/-!
Home and the session, one event of the coordinators at a time. A login result
and a successful registration push Home for whoever is signed in, also for
nobody; a launch and a logout read the session first.
-/
namespace Mber.HomePushes

open Firebase Coordinators World CoordinatorLaws BeforeHandover

/-- If Home is pushed, somebody is signed in. -/
def SignedInPush (e : Entry) : Prop := ∀ c, e.effect = .pushed (.home c) → e.currentUser ≠ none

/-- Every Home so far has been entered by a signed-in user. -/
def HomesSignedIn (w : World) : Prop := ∀ e ∈ w.log, SignedInPush e

variable {w : World} {c : ℕ}

theorem homesSignedIn_append {log : List Entry} {w' : World} (h : HomesSignedIn w)
    (hlog : w'.log = w.log ++ log) (hnew : ∀ e ∈ log, SignedInPush e) : HomesSignedIn w' := by
  intro e he
  rw [hlog] at he
  rcases List.mem_append.mp he with hold | hadded
  · exact h e hold
  · exact hnew e hadded

theorem signedInPush_of_ne {e : Entry} (h : ∀ c, e.effect ≠ .pushed (.home c)) :
    SignedInPush e := fun c hc => absurd hc (h c)

theorem homesSignedIn_accept (h : HomesSignedIn w) (c : ℕ) : HomesSignedIn (w.accept c) := by
  obtain ⟨pops, hlog, hpops⟩ := accept_log w c
  rw [List.append_assoc] at hlog
  refine homesSignedIn_append h hlog ?_
  intro e he
  apply signedInPush_of_ne
  rcases List.mem_append.mp he with hfired | hpop
  · rw [List.mem_singleton.mp hfired]
    simp
  · obtain ⟨vc, hvc⟩ := hpops e hpop
    simp [hvc]

theorem homesSignedIn_home {w' : World} (home : ℕ) (h : HomesSignedIn w)
    (hlog : w'.log = w.log ++ homeEntries home w.currentUser) :
    HomesSignedIn w' ↔ w.currentUser ≠ none := by
  constructor
  · intro hall
    refine hall ⟨.pushed (.home home), w.currentUser⟩ ?_ home rfl
    rw [hlog]
    simp [homeEntries]
  · intro huser
    refine homesSignedIn_append h hlog ?_
    intro e he
    simp only [homeEntries, List.mem_cons, List.not_mem_nil, or_false] at he
    rcases he with rfl | rfl | rfl
    · exact signedInPush_of_ne (by simp)
    · exact fun _ _ => huser
    · exact signedInPush_of_ne (by simp)

/-- Entering Home is safe exactly when somebody is signed in. -/
theorem homesSignedIn_enter (h : HomesSignedIn w) (e : Event) (he : EntersHome w e) :
    HomesSignedIn (w.step e) ↔ w.currentUser ≠ none := by
  cases e with
  | isLoginCompleted c success =>
    have hears : w.Hears .login c := he
    have huser : (w.accept c).currentUser = w.currentUser := (accept_role w c).2
    rw [← huser]
    refine homesSignedIn_home (w.accept c).next (homesSignedIn_accept h c) ?_
    simp only [step, isLoginCompleted, hears, if_true]
    exact homeStart_log _ _
  | isRegistered c success =>
    have hears : w.Hears .registration c ∧ success = true := he
    have hadd : HomesSignedIn ((w.create .home).add c w.next) := h
    have huser : (((w.create .home).add c w.next).accept c).currentUser = w.currentUser :=
      (accept_role ((w.create .home).add c w.next) c).2
    rw [← huser]
    refine homesSignedIn_home w.next (homesSignedIn_accept hadd c) ?_
    simp only [step, isRegistered, hears, and_self, if_true]
    exact homeStart_log _ _
  | goToRegisterButtonTapped c => exact absurd he (by simp [EntersHome])
  | goToLoginPageButtonTapped c => exact absurd he (by simp [EntersHome])
  | logoutButtonTapped c signedOut => exact absurd he (by simp [EntersHome])
  | sessionChanged currentUser => exact absurd he (by simp [EntersHome])

theorem homesSignedIn_switchToLogin (h : HomesSignedIn w) (hnone : w.currentUser = none)
    (c : ℕ) : HomesSignedIn (HomeCoordinator.switchToLoginVC w c) := by
  refine homesSignedIn_append h (switchToLoginVC_log w c hnone) ?_
  intro e he
  apply signedInPush_of_ne
  simp only [List.mem_cons, List.not_mem_nil, or_false] at he
  rcases he with rfl | rfl | rfl <;> simp

/-- Nothing else can push Home for a user who is not signed in. -/
theorem homesSignedIn_step (h : HomesSignedIn w) (e : Event) (he : ¬ EntersHome w e) :
    HomesSignedIn (w.step e) := by
  cases e with
  | isLoginCompleted c success =>
    have hears : ¬ w.Hears .login c := he
    simpa [step, isLoginCompleted, hears] using h
  | isRegistered c success =>
    have hears : ¬ (w.Hears .registration c ∧ success = true) := he
    simp only [step, isRegistered, hears, if_false]
    exact h
  | goToRegisterButtonTapped c =>
    simp only [step, goToRegisterButtonTapped]
    split_ifs
    · have hlog : (LoginCoordinator.pushRegistrationVC w c).log = w.log ++
          [⟨.started w.next, w.currentUser⟩] ++
          [⟨.pushed (.registration w.next), w.currentUser⟩] := rfl
      rw [List.append_assoc] at hlog
      refine homesSignedIn_append h hlog ?_
      intro e he
      apply signedInPush_of_ne
      simp only [List.singleton_append, List.mem_cons, List.not_mem_nil, or_false] at he
      rcases he with rfl | rfl <;> simp
    · exact h
  | goToLoginPageButtonTapped c =>
    simp only [step, goToLoginPageButtonTapped]
    split_ifs
    · exact homesSignedIn_accept h c
    · exact h
  | logoutButtonTapped c signedOut =>
    simp only [step, logoutButtonTapped]
    split_ifs
    · have hout : HomesSignedIn w.signOut := h
      exact homesSignedIn_switchToLogin (homesSignedIn_accept hout c) (accept_role w.signOut c).2 c
    · exact h
  | sessionChanged currentUser => exact h

theorem homesSignedIn_launched (currentUser : Option Uid) :
    HomesSignedIn (launched currentUser) := by
  cases currentUser with
  | none =>
    have hlog : (launched none).log = [⟨.started 1, none⟩, ⟨.pushed (.login 1), none⟩,
        ⟨.window, none⟩] := rfl
    intro e he
    rw [hlog] at he
    apply signedInPush_of_ne
    simp only [List.mem_cons, List.not_mem_nil, or_false] at he
    rcases he with rfl | rfl | rfl <;> simp
  | some uid =>
    have hlog : (launched (some uid)).log = ⟨.started 1, some uid⟩ ::
        homeEntries 2 (some uid) := rfl
    intro e he c _
    rw [hlog] at he
    simp only [homeEntries, List.mem_cons, List.not_mem_nil, or_false] at he
    rcases he with rfl | rfl | rfl | rfl <;> simp

theorem currentUser_switchToLogin (hnone : w.currentUser = none) (c : ℕ) :
    (HomeCoordinator.switchToLoginVC w c).currentUser = none := by
  rw [switchToLoginVC_of_signedOut w c hnone]
  exact hnone

/-- Only a sign-out changes the session that the coordinators see. -/
theorem currentUser_step (w : World) (e : Event) (hsession : ∀ u, e ≠ .sessionChanged u)
    (hlogout : ¬ LogsOut w e) : (w.step e).currentUser = w.currentUser := by
  cases e with
  | isLoginCompleted c success =>
    simp only [step, isLoginCompleted]
    split_ifs
    · exact (accept_role w c).2
    · rfl
  | isRegistered c success =>
    simp only [step, isRegistered]
    split_ifs
    · exact (accept_role ((w.create .home).add c w.next) c).2
    · rfl
  | goToRegisterButtonTapped c =>
    simp only [step, goToRegisterButtonTapped]
    split_ifs <;> rfl
  | goToLoginPageButtonTapped c =>
    simp only [step, goToLoginPageButtonTapped]
    split_ifs
    · exact (accept_role w c).2
    · rfl
  | logoutButtonTapped c signedOut =>
    have hnot : ¬ (w.Hears .home c ∧ signedOut = true) := hlogout
    simp only [step, logoutButtonTapped, hnot, if_false]
  | sessionChanged u => exact absurd rfl (hsession u)

theorem currentUser_logout (h : w.Hears .home c) :
    (w.step (.logoutButtonTapped c true)).currentUser = none := by
  simp only [step, logoutButtonTapped, h, and_self, if_true]
  exact currentUser_switchToLogin (accept_role w.signOut c).2 c

end Mber.HomePushes
