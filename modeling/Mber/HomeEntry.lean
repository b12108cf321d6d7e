import Mber.Attendance

/-!
Home is entered through the answers of attempts. A login pipeline passes on
failures as well as successes. Every Home of a run is entered with somebody
signed in exactly when every answer that is passed on comes while somebody is
signed in.
-/
namespace Mber.HomeEntry

open AuthManager Firebase Firestore Coordinators CoordinatorLaws BeforeHandover HomePushes
  Application Runs

variable {a b : App} {c : ℕ}

/-- Every Home so far has been entered by a user who was signed in, and the
coordinators see the session that Firebase has. -/
structure HomeAuthenticated (a : App) : Prop where
  homes : HomesSignedIn a.world
  session : a.world.currentUser = a.service.auth.currentUser

structure Consistent (a : App) : Prop where
  attended : Attended a
  authenticated : HomeAuthenticated a

/-- An answer that is passed on to a coordinator which hears it comes while
somebody is signed in: any answer of a login attempt, the success of a
registration attempt. This is about an app that runs. -/
def PassedOnSignedIn (a : App) : AppEvent → Prop
  | .runMain => ∀ c, answeredLogin a = some c → a.world.Hears .login c →
      a.service.auth.currentUser ≠ none
  | .setDataResponse index ok => ∀ c, answeredRegistration a index = some c →
      a.world.Hears .registration c ∧ ok = true → a.service.auth.currentUser ≠ none
  | _ => True

def AnsweredSignedIn (a : App) (e : AppEvent) : Prop :=
  a.service.aborted = false → PassedOnSignedIn a e

theorem consistent_launch (directory : Directory) (currentUser : Option Uid)
    (documents : ResourcePath → Option ProfileDocument) :
    Consistent (App.launch directory currentUser documents) := by
  have hlogin : (LoginPipeline.LoginViewModel.bound
      [Listener.controller, Listener.coordinator]).Running _ 0 (fun _ => "") :=
    LoginPipeline.LoginViewModel.bound_running (by simp)
  have hregistration := RegistrationPipeline.RegistrationViewModel.bound_running
    [Listener.controller] [Listener.coordinator]
  have hcurrent : LoginPipeline.LoginViewModel.current (LoginPipeline.LoginViewModel.bound
      [Listener.controller, Listener.coordinator]) = 0 := hlogin.follows.latest_eq
  refine ⟨⟨?_, fun c => ⟨_, _, hregistration⟩, ?_, ?_, ?_⟩,
    homesSignedIn_launched currentUser, ?_⟩
  · exact fun c => Or.inl ⟨_, by rw [App.launch, hcurrent]; exact hlogin⟩
  · simp [App.launch, Service.idle]
  · simp [App.launch, Service.idle]
  · simp [App.launch, Service.idle]
  · cases currentUser <;> rfl

theorem setService_world (a : App) (s : Service Observer)
    (hsession : a.world.currentUser = s.auth.currentUser) : (a.setService s).world = a.world := by
  simp [App.setService, World.step, ← hsession]

theorem authenticated_navigate (h : HomeAuthenticated a) (e : Event)
    (hsession : ∀ u, e ≠ .sessionChanged u) (hlogout : ¬ LogsOut a.world e)
    (hhome : EntersHome a.world e → a.world.currentUser ≠ none) :
    HomesSignedIn (a.world.step e) ∧
      (a.world.step e).currentUser = a.service.auth.currentUser := by
  refine ⟨?_, (currentUser_step a.world e hsession hlogout).trans h.session⟩
  by_cases he : EntersHome a.world e
  · exact (homesSignedIn_enter h.homes e he).mpr (hhome he)
  · exact homesSignedIn_step h.homes e he

theorem consistent_logout (h : Consistent a) (c : ℕ) (saved : Bool) :
    Consistent (a.logoutButtonTapped c saved) := by
  unfold App.logoutButtonTapped
  split_ifs with hears
  · have hattended : Attended { a.navigate (.logoutButtonTapped c (App.signsOut a.service saved))
        with service := (a.service.doLogout saved).1 } := by
      refine attended_service (attended_world h.attended _) _ ?_ ?_ h.attended.writing
      · rcases a.service.auth.signOut_cases saved with ⟨hauth, -⟩ | ⟨hauth, -⟩ <;>
          simp only [Service.doLogout, hauth] <;> exact h.attended.inFlight
      · rcases a.service.auth.signOut_cases saved with ⟨hauth, -⟩ | ⟨hauth, -⟩ <;>
          simp only [Service.doLogout, hauth] <;> exact h.attended.mainQueue
    refine ⟨hattended, ?_, ?_⟩
    · exact homesSignedIn_step h.authenticated.homes _ (by simp [EntersHome])
    · rcases a.service.auth.signOut_cases saved with ⟨hauth, hresult⟩ | ⟨hauth, hresult⟩
      · simp only [App.navigate, App.signsOut, Service.doLogout, hauth, hresult]
        exact currentUser_logout hears
      · simp only [App.navigate, App.signsOut, Service.doLogout, hauth, hresult]
        exact (currentUser_step a.world _ (by simp) (by simp [LogsOut])).trans
          h.authenticated.session
  · exact h

theorem foldl_receive_service (events : List (Observer × Sinks.Event AuthError Bool)) (a : App) :
    (events.foldl App.receive a).service = a.service := by
  induction events generalizing a with
  | nil => rfl
  | cons e rest ih =>
    rw [List.foldl_cons, ih]
    rcases e with ⟨_ | _, e⟩
    · rfl
    · simp only [App.receive]
      split_ifs <;> rfl

theorem serve_service (a : App) (i : Input Observer) : (a.serve i).service = a.service.runningStep i :=
  foldl_receive_service _ _

theorem setDataResponse_auth (s : Service Observer) (index : ℕ) (ok : Bool) :
    (s.setDataResponse index ok).auth = s.auth := by
  unfold Service.setDataResponse
  split <;> rfl

/-- The coordinators hear nothing. -/
theorem consistent_silent (h : Consistent a) (hattended : Attended b)
    (huser : b.service.auth.currentUser = a.service.auth.currentUser)
    (hworld : b.world = a.world) : Consistent b := by
  refine ⟨hattended, ?_, ?_⟩ <;> rw [hworld]
  · exact h.authenticated.homes
  · exact h.authenticated.session.trans huser.symm

/-- One event reaches the coordinators; if it enters Home, somebody is signed in. -/
theorem consistent_heard (h : Consistent a) (hattended : Attended b)
    (huser : b.service.auth.currentUser = a.service.auth.currentUser) {e : Event}
    (hworld : b.world = a.world.step e) (hsession : ∀ u, e ≠ .sessionChanged u)
    (hlogout : ¬ LogsOut a.world e)
    (hhome : EntersHome a.world e → a.service.auth.currentUser ≠ none) : Consistent b := by
  obtain ⟨hhomes, hsame⟩ := authenticated_navigate h.authenticated e hsession hlogout
    (fun he => by rw [h.authenticated.session]; exact hhome he)
  refine ⟨hattended, ?_, ?_⟩ <;> rw [hworld]
  · exact hhomes
  · exact hsame.trans huser.symm

/-- The next callback, when whoever its answer is passed on to is signed in. -/
theorem consistent_runMain (h : Consistent a) (hq : PassedOnSignedIn a .runMain) :
    Consistent (a.runningStep .runMain) := by
  obtain ⟨hattended, hpass, hsilent⟩ := runMain_spec h.attended
  rw [setService_world a a.service.runMain h.authenticated.session] at hpass hsilent
  have huser : (a.runningStep .runMain).service.auth.currentUser = a.service.auth.currentUser := by
    rw [App.runningStep, serve_service]
    rfl
  cases hanswered : answeredLogin a with
  | none => exact consistent_silent h hattended huser (hsilent hanswered)
  | some c =>
    obtain ⟨success, hstep⟩ := hpass c hanswered
    exact consistent_heard h hattended huser hstep (by simp) (by simp [LogsOut]) (hq c hanswered)

theorem consistent_setDataResponse (h : Consistent a) (index : ℕ) (ok : Bool)
    (hq : PassedOnSignedIn a (.setDataResponse index ok)) :
    Consistent (a.runningStep (.setDataResponse index ok)) := by
  obtain ⟨hattended, hpass, hsilent⟩ := setDataResponse_spec h.attended index ok
  have hauth := setDataResponse_auth a.service index ok
  rw [setService_world a (a.service.setDataResponse index ok)
    (by rw [hauth]; exact h.authenticated.session)] at hpass hsilent
  have huser : (a.runningStep (.setDataResponse index ok)).service.auth.currentUser =
      a.service.auth.currentUser := by
    rw [App.runningStep, serve_service, Service.runningStep, hauth]
  cases hanswered : answeredRegistration a index with
  | none => exact consistent_silent h hattended huser (hsilent hanswered)
  | some c =>
    exact consistent_heard h hattended huser (hpass c hanswered) (by simp) (by simp [LogsOut])
      (hq c hanswered)

theorem consistent_respond (h : Consistent a) (index : ℕ) (v : Verdict) :
    Consistent (a.runningStep (.respond index v)) :=
  ⟨attended_respond h.attended index v, h.authenticated.homes, rfl⟩

theorem consistent_navigate (h : Consistent a) (e : Event) (hsession : ∀ u, e ≠ .sessionChanged u)
    (hlogout : ¬ LogsOut a.world e) (hhome : ¬ EntersHome a.world e) :
    Consistent (a.navigate e) :=
  consistent_heard h (attended_world h.attended _) rfl rfl hsession hlogout
    (fun he => absurd he hhome)

/-- A tap leaves the coordinators and the session alone. -/
theorem tap_authenticated (h : HomeAuthenticated a) (c : ℕ) :
    HomeAuthenticated (a.loginButtonTapped c) ∧ HomeAuthenticated (a.signupButtonTapped c) := by
  constructor
  · unfold App.loginButtonTapped
    split
    · exact h
    · exact ⟨h.homes, h.session⟩
  · have hauth : ∀ (outputs : List (RegistrationPipeline.Output Listener)) (s : Service Observer),
        (outputs.foldl (App.performRegistration c) s).auth.currentUser = s.auth.currentUser := by
      intro outputs
      induction outputs with
      | nil => exact fun s => rfl
      | cons o rest ih =>
        intro s
        rw [List.foldl_cons, ih]
        cases o <;> rfl
    exact ⟨h.homes, h.session.trans (hauth _ _).symm⟩

theorem consistent_runningStep (h : Consistent a) (e : AppEvent) (hq : PassedOnSignedIn a e) :
    Consistent (a.runningStep e) := by
  cases e with
  | respond index v => exact consistent_respond h index v
  | runMain => exact consistent_runMain h hq
  | setDataResponse index ok => exact consistent_setDataResponse h index ok hq
  | editLogin c f text =>
    simp only [App.runningStep]
    split_ifs
    · exact ⟨attended_editLogin h.attended c f text, h.authenticated.homes,
        h.authenticated.session⟩
    · exact h
  | loginButtonTapped c =>
    simp only [App.runningStep]
    split_ifs
    · exact ⟨attended_loginTap h.attended c, (tap_authenticated h.authenticated c).1⟩
    · exact h
  | editRegistration c f text =>
    simp only [App.runningStep]
    split_ifs
    · exact ⟨attended_editRegistration h.attended c f text, h.authenticated.homes,
        h.authenticated.session⟩
    · exact h
  | signupButtonTapped c =>
    simp only [App.runningStep]
    split_ifs
    · exact ⟨attended_signupTap h.attended c, (tap_authenticated h.authenticated c).2⟩
    · exact h
  | goToRegisterButtonTapped c =>
    simp only [App.runningStep]
    split_ifs
    · exact consistent_navigate h _ (by simp) (by simp [LogsOut]) (by simp [EntersHome])
    · exact h
  | goToLoginPageButtonTapped c =>
    simp only [App.runningStep]
    split_ifs
    · exact consistent_navigate h _ (by simp) (by simp [LogsOut]) (by simp [EntersHome])
    · exact h
  | logoutButtonTapped c saved =>
    simp only [App.runningStep]
    split_ifs
    · exact consistent_logout h c saved
    · exact h

theorem consistent_step (h : Consistent a) (e : AppEvent) (hq : AnsweredSignedIn a e) :
    Consistent (a.step e) := by
  unfold App.step
  split_ifs with haborted
  · exact h
  · exact consistent_runningStep h e (hq (by simpa using haborted))

/-- An answer that is passed on while nobody is signed in enters Home. -/
theorem not_authenticated_runningStep (h : Consistent a) (e : AppEvent)
    (hq : ¬ PassedOnSignedIn a e) :
    ¬ HomeAuthenticated (a.runningStep e) := by
  intro hafter
  apply hq
  have hsession := h.authenticated.session
  cases e with
  | runMain =>
    intro c hanswered hears
    obtain ⟨-, hpass, -⟩ := runMain_spec h.attended
    obtain ⟨success, hstep⟩ := hpass c hanswered
    have hhomes := hafter.homes
    rw [hstep, setService_world a a.service.runMain hsession] at hhomes
    rw [← hsession]
    exact (homesSignedIn_enter h.authenticated.homes (.isLoginCompleted c success) hears).mp hhomes
  | setDataResponse index ok =>
    intro c hanswered hears
    obtain ⟨-, hpass, -⟩ := setDataResponse_spec h.attended index ok
    have hauth := setDataResponse_auth a.service index ok
    have hhomes := hafter.homes
    rw [hpass c hanswered,
      setService_world a (a.service.setDataResponse index ok) (by rw [hauth]; exact hsession)]
      at hhomes
    rw [← hsession]
    exact (homesSignedIn_enter h.authenticated.homes (.isRegistered c ok) hears).mp hhomes
  | editLogin c f text => trivial
  | loginButtonTapped c => trivial
  | editRegistration c f text => trivial
  | signupButtonTapped c => trivial
  | goToRegisterButtonTapped c => trivial
  | goToLoginPageButtonTapped c => trivial
  | logoutButtonTapped c saved => trivial
  | respond index v => trivial

theorem not_authenticated_step (h : Consistent a) (e : AppEvent) (hq : ¬ AnsweredSignedIn a e) :
    ¬ HomeAuthenticated (a.step e) := by
  obtain ⟨hrunning, hpassed⟩ := Classical.not_imp.mp hq
  rw [App.step, if_neg (by simp [hrunning])]
  exact not_authenticated_runningStep h e hpassed

/-- From any launch, Home is entered only by signed-in users in every state of
a run exactly when every answer passed on in the run comes while somebody is
signed in. -/
theorem home_authenticated_iff (directory : Directory) (currentUser : Option Uid)
    (documents : ResourcePath → Option ProfileDocument) (events : List AppEvent) :
    EveryState App.step HomeAuthenticated (App.launch directory currentUser documents) events ↔
      EveryStep App.step AnsweredSignedIn (App.launch directory currentUser documents) events := by
  refine everyState_iff_until Consistent (fun a h => h.authenticated) ?_ ?_ _ _
    (consistent_launch directory currentUser documents)
  · exact fun a e h hq => consistent_step h e hq
  · exact fun a e h hq => not_authenticated_step h e hq

/-- A failed login while nobody is signed in enters Home. -/
theorem failed_login_enters_home :
    ¬ EveryState App.step HomeAuthenticated (App.launch Directory.empty none (fun _ => none))
      [.editLogin 1 .email "ann@mail.com", .editLogin 1 .password "password1",
        .loginButtonTapped 1, .respond 0 (.refuse .wrongPassword), .runMain] := by
  rintro ⟨-, -, -, -, -, h⟩
  have hpush : (⟨.pushed (.home 2), none⟩ : Entry) ∈
      (run App.step (App.launch Directory.empty none (fun _ => none))
        [.editLogin 1 .email "ann@mail.com", .editLogin 1 .password "password1",
          .loginButtonTapped 1, .respond 0 (.refuse .wrongPassword), .runMain]).world.log := by
    decide
  exact h.homes _ hpush 2 rfl rfl

end Mber.HomeEntry
