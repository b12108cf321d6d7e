import Mber.BeforeHandover

/-!
The navigation stack at session boundaries. The root controller cannot be
popped, a login pushes Home over the login screen, a successful registration
pushes Home over the login screen below it, and a logout pushes a login screen
over Home. Only the launch enters Home with a clean stack, and every login
followed by a logout leaves two more controllers on it.
-/
namespace Mber.NavigationStack

open Coordinators World CoordinatorLaws BeforeHandover Runs

/-- What the screens allow: a button is tapped on the visible controller, and
a registration view model lives as long as its controller is on the stack. -/
def Allowed (w : World) : Event → Prop
  | .goToRegisterButtonTapped c => w.stack.getLast? = some (.login c)
  | .goToLoginPageButtonTapped c => w.stack.getLast? = some (.registration c)
  | .isRegistered c _ => .registration c ∈ w.stack
  | .logoutButtonTapped c _ => w.stack.getLast? = some (.home c)
  | .isLoginCompleted _ _ => True
  | .sessionChanged _ => True

instance (w : World) : (e : Event) → Decidable (Allowed w e)
  | .goToRegisterButtonTapped c => decEq w.stack.getLast? (some (.login c))
  | .goToLoginPageButtonTapped c => decEq w.stack.getLast? (some (.registration c))
  | .isRegistered c _ => List.instDecidableMemOfLawfulBEq (.registration c) w.stack
  | .logoutButtonTapped c _ => decEq w.stack.getLast? (some (.home c))
  | .isLoginCompleted _ _ => instDecidableTrue
  | .sessionChanged _ => instDecidableTrue

/-- An event that the screens do not allow does not happen. -/
def screenStep (w : World) (e : Event) : World := if Allowed w e then w.step e else w

def IsHome (vc : ViewController) : Prop := ∃ c, vc = .home c

/-- What must hold right after a step: entering Home leaves no other screen on
the stack, logging out leaves no Home, and the stack stays small. -/
structure CleanBoundary (w : World) (e : Event) : Prop where
  entered : Allowed w e → EntersHome w e → ∀ vc ∈ (screenStep w e).stack, IsHome vc
  loggedOut : Allowed w e → LogsOut w e → ∀ vc ∈ (screenStep w e).stack, ¬ IsHome vc
  bounded : (screenStep w e).stack.length ≤ 2

/-- A launch while signed in enters Home. -/
def LaunchClean (currentUser : Option Firebase.Uid) : Prop :=
  (∃ uid, currentUser = some uid) → ∀ vc ∈ (launched currentUser).stack, IsHome vc

/-- A handover that the screens allow does not happen in this step. -/
def NoHandover (w : World) (e : Event) : Prop := ¬ (Allowed w e ∧ Handover w e)

variable {w : World} {opened : List ℕ} {c : ℕ}

/-- Launched while signed in, the app enters Home with nothing else on the stack. -/
theorem launchClean (currentUser : Option Firebase.Uid) : LaunchClean currentUser := by
  rintro ⟨uid, rfl⟩ vc hvc
  have hstack : (launched (some uid)).stack = [.home 2] := rfl
  rw [hstack] at hvc
  exact ⟨2, List.mem_singleton.mp hvc⟩

theorem noHandoverYet_screenStep (h : NoHandoverYet w) (e : Event) (hno : NoHandover w e) :
    NoHandoverYet (screenStep w e) := by
  unfold screenStep
  split_ifs with hallowed
  · exact noHandoverYet_step h e fun he => hno ⟨hallowed, he⟩
  · exact h

theorem LoginPhase.last_login (h : LoginPhase w opened)
    (hlast : w.stack.getLast? = some (.login c)) : w.stack = [.login 1] := by
  obtain ⟨rest, hstack, hrest⟩ := h.stack_eq
  rcases List.eq_nil_or_concat rest with hnil | ⟨front, vc, hconcat⟩
  · rw [hstack, hnil]
  · obtain ⟨r, hr⟩ := hrest vc (by rw [hconcat]; simp)
    rw [hstack, hconcat, hr] at hlast
    simp [List.getLast?_cons] at hlast

/-- Screens come and go one at a time. -/
theorem length_screenStep (h : NoHandoverYet w) (hlength : w.stack.length ≤ 2) (e : Event)
    (hno : NoHandover w e) : (screenStep w e).stack.length ≤ 2 := by
  unfold screenStep
  split_ifs with hallowed
  · have hnot : ¬ Handover w e := fun he => hno ⟨hallowed, he⟩
    cases e with
    | goToRegisterButtonTapped c =>
      simp only [step, goToRegisterButtonTapped]
      split_ifs with hears
      · rcases h with ⟨opened, h⟩ | h
        · have hpush : (LoginCoordinator.pushRegistrationVC w c).stack =
              w.stack ++ [.registration w.next] := rfl
          rw [hpush, LoginPhase.last_login h hallowed]
          simp
        · simpa using (h.hears hears).2
      · exact hlength
    | goToLoginPageButtonTapped c =>
      simp only [step, goToLoginPageButtonTapped]
      split_ifs
      · exact Nat.le_trans (accept_stack w c).2 hlength
      · exact hlength
    | isLoginCompleted c success =>
      have hears : ¬ w.Hears .login c := fun hears => hnot (Or.inl hears)
      simpa [step, isLoginCompleted, hears] using hlength
    | isRegistered c success =>
      have hears : ¬ (w.Hears .registration c ∧ success = true) := fun hears => hnot (Or.inl hears)
      simp only [step, isRegistered, hears, if_false]
      exact hlength
    | logoutButtonTapped c signedOut =>
      have hears : ¬ (w.Hears .home c ∧ signedOut = true) := fun hears => hnot (Or.inr hears)
      simp only [step, logoutButtonTapped, hears, if_false]
      exact hlength
    | sessionChanged currentUser => exact hlength
  · exact hlength

theorem cleanBoundary_of_noHandover (h : NoHandoverYet w) (hlength : w.stack.length ≤ 2)
    (e : Event) (hno : NoHandover w e) : CleanBoundary w e := by
  refine ⟨?_, ?_, length_screenStep h hlength e hno⟩
  · exact fun hallowed hentered => absurd ⟨hallowed, Or.inl hentered⟩ hno
  · exact fun hallowed hlogged => absurd ⟨hallowed, Or.inr hlogged⟩ hno

/-- The root of the phase is still on the stack after the handover. -/
theorem not_cleanBoundary_of_handover (h : NoHandoverYet w) (e : Event)
    (he : ¬ NoHandover w e) : ¬ CleanBoundary w e := by
  intro hclean
  obtain ⟨hallowed, hover⟩ := not_not.mp he
  have hafter : screenStep w e = w.step e := by simp [screenStep, hallowed]
  rcases h with ⟨opened, h⟩ | h
  · obtain ⟨rest, hstack, -⟩ := h.stack_eq
    have hroot : (w.step e).stack.head? = some (.login 1) := root_step (by rw [hstack]; rfl) e
    rcases hover with hentered | hlogged
    · have hhome := hclean.entered hallowed hentered (.login 1)
        (by rw [hafter]; exact List.mem_of_mem_head? hroot)
      obtain ⟨c, hc⟩ := hhome
      simp at hc
    · cases e <;> simp only [LogsOut] at hlogged
      exact h.not_hears_home hlogged.1
  · have hroot : (w.step e).stack.head? = some (.home 2) := root_step (by rw [h.stack_eq]; rfl) e
    rcases hover with hentered | hlogged
    · cases e <;> simp only [EntersHome] at hentered
      · simpa using (h.hears hentered).2
      · simpa using (h.hears hentered.1).2
    · exact hclean.loggedOut hallowed hlogged (.home 2)
        (by rw [hafter]; exact List.mem_of_mem_head? hroot) ⟨2, rfl⟩

theorem launched_length (currentUser : Option Firebase.Uid) :
    (launched currentUser).stack.length ≤ 2 := by
  cases currentUser with
  | none => exact Nat.le_succ 1
  | some uid => exact Nat.le_succ 1

/-- From either launch, every session boundary of a run is clean and the stack
stays small exactly when no step of the run is a handover. -/
theorem clean_boundaries_iff (currentUser : Option Firebase.Uid) (events : List Event) :
    (LaunchClean currentUser ∧
        EveryStep screenStep CleanBoundary (launched currentUser) events) ↔
      EveryStep screenStep NoHandover (launched currentUser) events := by
  have hlaunch : LaunchClean currentUser := launchClean currentUser
  rw [and_iff_right hlaunch]
  refine everyStep_iff_until (fun w => NoHandoverYet w ∧ w.stack.length ≤ 2) ?_ ?_ _ _
    ⟨noHandoverYet_launched currentUser, launched_length currentUser⟩
  · exact fun w e h hno => ⟨cleanBoundary_of_noHandover h.1 h.2 e hno,
      noHandoverYet_screenStep h.1 e hno, length_screenStep h.1 h.2 e hno⟩
  · exact fun w e h he => not_cleanBoundary_of_handover h.1 e he

/-- After a login the login screen is still on the stack, below Home. -/
theorem login_screen_stays :
    ¬ (LaunchClean none ∧
      EveryStep screenStep CleanBoundary (launched none) [.isLoginCompleted 1 true]) := by
  rintro ⟨-, hclean, -⟩
  have hstack : (screenStep (launched none) (.isLoginCompleted 1 true)).stack =
      [.login 1, .home 2] := by decide
  obtain ⟨c, hc⟩ := hclean.entered trivial (by decide) (.login 1) (by rw [hstack]; simp)
  simp at hc

/-- Login coordinator `c`, the newest one, hears its view model; its completion
pops nothing. -/
structure LoginVisible (w : World) (c : ℕ) : Prop where
  numbered : Numbered w
  hears : w.Hears .login c
  handlers : ∀ k ∈ (w.coordinator c).isCompleted, k.body = .remove
  next_eq : w.next = c + 1

/-- HomeCoordinator `h`, the newest one, is on screen and has no completion handler. -/
structure HomeVisible (w : World) (h : ℕ) : Prop where
  numbered : Numbered w
  hears : w.Hears .home h
  handlers : (w.coordinator h).isCompleted = []
  next_eq : w.next = h + 1
  top : w.stack.getLast? = some (.home h)

theorem LoginVisible.login (h : LoginVisible w c) :
    HomeVisible (screenStep w (.isLoginCompleted c true)) (c + 1) ∧
      (screenStep w (.isLoginCompleted c true)).stack = w.stack ++ [.home (c + 1)] := by
  have hstep : screenStep w (.isLoginCompleted c true) =
      (HomeCoordinator.start (((w.accept c).create .home).add c (w.accept c).next)
        (w.accept c).next).record .window := by
    simp [screenStep, Allowed, step, isLoginCompleted, h.hears]
  have hlt := h.numbered.lt_of_hears h.hears
  have hnext : (w.accept c).next = c + 1 := (h.numbered.accept hlt).2.trans h.next_eq
  have hcoordinator := homeChild_coordinator (w.accept c) (c := c) (by omega)
  have hnumbered : Numbered (screenStep w (.isLoginCompleted c true)) := by
    rw [show screenStep w (.isLoginCompleted c true) = w.step (.isLoginCompleted c true) by
      simp [screenStep, Allowed]]
    exact numbered_step h.numbered _
  have hstack : (screenStep w (.isLoginCompleted c true)).stack =
      w.stack ++ [.home (c + 1)] := by
    rw [hstep, ← accept_stack_of_remove w c h.handlers, ← hnext]
    rfl
  rw [hnext] at hstep hcoordinator
  have hhome : (screenStep w (.isLoginCompleted c true)).coordinator (c + 1) =
      { kind := .home, started := true, listening := true } := by
    rw [hstep]
    exact (hcoordinator (c + 1)).trans (if_pos rfl)
  refine ⟨⟨hnumbered, ⟨by rw [hhome], by rw [hhome], ?_⟩, by rw [hhome], ?_, ?_⟩, hstack⟩
  · exact isAlive_home (by rw [hhome]) (by rw [hhome])
  · rw [hstep]
    change (w.accept c).next + 1 = _
    rw [hnext]
  · rw [hstack, List.getLast?_concat]

theorem HomeVisible.logout (hh : HomeVisible w c) :
    LoginVisible (screenStep w (.logoutButtonTapped c true)) (c + 1) ∧
      (screenStep w (.logoutButtonTapped c true)).stack = w.stack ++ [.login (c + 1)] := by
  have hscreen : screenStep w (.logoutButtonTapped c true) =
      w.step (.logoutButtonTapped c true) := by
    simp [screenStep, Allowed, hh.top]
  have hstep : screenStep w (.logoutButtonTapped c true) =
      HomeCoordinator.switchToLoginVC (w.signOut.accept c) c := by
    simp [hscreen, step, logoutButtonTapped, hh.hears]
  have hlt := hh.numbered.lt_of_hears hh.hears
  have hout : Numbered w.signOut := hh.numbered.of_eq rfl rfl
  have hnext : (w.signOut.accept c).next = c + 1 := (hout.accept (c := c) hlt).2.trans hh.next_eq
  obtain ⟨hrole, huser⟩ := accept_role w.signOut c
  have hnone : (w.signOut.accept c).currentUser = none := huser
  have hsame : (w.signOut.accept c).stack = w.stack := by
    apply accept_stack_of_remove
    intro k hk
    have hhandlers : (w.signOut.coordinator c).isCompleted = [] := hh.handlers
    simp [hhandlers] at hk
  have hstack : (screenStep w (.logoutButtonTapped c true)).stack =
      w.stack ++ [.login (c + 1)] := by
    rw [hstep, switchToLoginVC_of_signedOut _ c hnone, ← hsame, ← hnext]
    rfl
  have hcoordinator := switchToLoginVC_coordinator (w.signOut.accept c) (c := c) hnone (by omega)
  rw [hnext, ← hstep] at hcoordinator
  have hlogin := (hcoordinator (c + 1)).trans (if_pos rfl)
  have hhome := (hcoordinator c).trans ((if_neg (by omega)).trans (if_pos rfl))
  refine ⟨⟨?_, ⟨by rw [hlogin], by rw [hlogin], ?_⟩, ?_, ?_⟩, hstack⟩
  · rw [hscreen]
    exact numbered_step hh.numbered _
  · refine isAlive_child (Nat.lt_succ_self c) (isAlive_home ?_ ?_) ?_
    · rw [hhome]
      exact (hrole c).1.trans hh.hears.1
    · rw [hhome]
      exact (hrole c).2.trans hh.hears.2.1
    · rw [hhome]
      exact List.mem_append_right _ (List.mem_singleton_self _)
  · rw [hlogin]
    simp
  · rw [hstep, switchToLoginVC_of_signedOut _ c hnone]
    change (w.signOut.accept c).next + 1 = _
    rw [hnext]

/-- `n` logins, each followed by a logout, starting from login coordinator `c`. -/
def cycles (c : ℕ) : ℕ → List Event
  | 0 => []
  | n + 1 => .isLoginCompleted c true :: .logoutButtonTapped (c + 1) true :: cycles (c + 2) n

/-- Every cycle leaves two more controllers on the stack. -/
theorem length_cycles (h : LoginVisible w c) (n : ℕ) :
    (run screenStep w (cycles c n)).stack.length = w.stack.length + 2 * n := by
  induction n generalizing w c with
  | zero => rfl
  | succ n ih =>
    obtain ⟨hhome, hpushed⟩ := h.login
    obtain ⟨hlogin, hpushed'⟩ := hhome.logout
    rw [cycles, run, run, ih hlogin, hpushed', hpushed]
    simp only [List.length_append, List.length_singleton]
    omega

theorem loginVisible_launched : LoginVisible (launched none) 1 := by
  refine ⟨numbered_launched none, by decide, ?_, rfl⟩
  intro k hk
  obtain rfl : k = ⟨0, .remove, some 1⟩ := List.mem_singleton.mp hk
  rfl

/-- No depth bounds the stack over all runs. -/
theorem stack_unbounded (bound : ℕ) :
    ∃ events, bound < (run screenStep (launched none) events).stack.length := by
  refine ⟨cycles 1 bound, ?_⟩
  rw [length_cycles loginVisible_launched bound]
  have hroot : (launched none).stack.length = 1 := rfl
  omega

end Mber.NavigationStack
