import Mber.Coordinators
import Mber.LoginPipeline
import Mber.RegistrationPipeline

/-!
The whole app: the coordinators, one view model for every login and every
registration coordinator, and AuthManager over Firebase. A view model reports
to the coordinator through its shared sequences, and an attempt waits for
AuthManager under the number that the view model gave it.
-/
namespace Mber.Application

open Sinks AuthManager Firebase Firestore Coordinators

/-- Who waits for an answer: one attempt of one coordinator's view model. -/
inductive Observer
  | login (c attempt : ℕ)
  | registration (c attempt : ℕ)
  deriving DecidableEq

/-- The subscribers of a view model: its controller binds first. -/
inductive Listener
  | controller
  | coordinator
  deriving DecidableEq

abbrev LoginModel := LoginPipeline.LoginViewModel Listener

abbrev RegistrationModel := RegistrationPipeline.RegistrationViewModel Listener

structure App where
  world : World
  service : Service Observer
  logins : ℕ → LoginModel := fun _ =>
    LoginPipeline.LoginViewModel.bound [.controller, .coordinator]
  registrations : ℕ → RegistrationModel := fun _ =>
    RegistrationPipeline.RegistrationViewModel.bound [.controller] [.coordinator]

inductive AppEvent
  | editLogin (c : ℕ) (f : LoginPipeline.Field) (text : String)
  | loginButtonTapped (c : ℕ)
  | editRegistration (c : ℕ) (f : RegistrationPipeline.Field) (text : String)
  | signupButtonTapped (c : ℕ)
  | goToRegisterButtonTapped (c : ℕ)
  | goToLoginPageButtonTapped (c : ℕ)
  | logoutButtonTapped (c : ℕ) (saved : Bool)
  | respond (index : ℕ) (verdict : Verdict)
  | runMain
  | setDataResponse (index : ℕ) (ok : Bool)

namespace App

def launch (directory : Directory) (currentUser : Option Uid)
    (documents : ResourcePath → Option ProfileDocument) : App where
  world := launched currentUser
  service := Service.idle directory currentUser documents

def navigate (a : App) (e : Event) : App := { a with world := a.world.step e }

def setLogin (a : App) (c : ℕ) (vm : LoginModel) : App :=
  { a with logins := Function.update a.logins c vm }

def setRegistration (a : App) (c : ℕ) (vm : RegistrationModel) : App :=
  { a with registrations := Function.update a.registrations c vm }

/-- The service changes; the world reads the session from it. -/
def setService (a : App) (s : Service Observer) : App :=
  { a with service := s, world := a.world.step (.sessionChanged s.auth.currentUser) }

def loginButtonTapped (a : App) (c : ℕ) : App :=
  match (a.logins c).sampled with
  | none => a
  | some v =>
    let vm := (a.logins c).loginButtonTapped
    { a.setLogin c vm with
      service := a.service.performLogin (.login c vm.current) (v .email) (v .password) }

/-- A tap's calls, among the outputs of the view model. -/
def performRegistration (c : ℕ) (s : Service Observer) :
    RegistrationPipeline.Output Listener → Service Observer
  | .performRegistration attempt values => s.performRegistration (.registration c attempt) values
  | _ => s

def signupButtonTapped (a : App) (c : ℕ) : App :=
  let r := (a.registrations c).signupButtonTapped
  { a.setRegistration c r.1 with service := r.2.foldl (performRegistration c) a.service }

/-- What the coordinator hears of `isLoginCompleted`. -/
def hearLogin (c : ℕ) (w : World) : Listener × Sinks.Event AuthError Bool → World
  | (.coordinator, .next success) => w.step (.isLoginCompleted c success)
  | _ => w

/-- What the coordinator hears of `isRegistered`. -/
def hearRegistration (c : ℕ) (w : World) : RegistrationPipeline.Output Listener → World
  | .isRegistered .coordinator success => w.step (.isRegistered c success)
  | _ => w

/-- An attempt's observer receives an event. A registration view model is gone
once its controller has left the stack. -/
def receive (a : App) : Observer × Sinks.Event AuthError Bool → App
  | (.login c attempt, e) =>
    let r := (a.logins c).deliver attempt e
    { a.setLogin c r.1 with world := r.2.foldl (hearLogin c) a.world }
  | (.registration c attempt, e) =>
    if .registration c ∈ a.world.stack then
      let r := (a.registrations c).deliver attempt e
      { a.setRegistration c r.1 with world := r.2.foldl (hearRegistration c) a.world }
    else a

/-- One step of the running service, whose reports are received in order. -/
def serve (a : App) (i : Input Observer) : App :=
  (a.service.runningEmit i).foldl receive (a.setService (a.service.runningStep i))

/-- Whether `signOut` succeeds. -/
def signsOut (s : Service Observer) (saved : Bool) : Bool :=
  match (s.doLogout saved).2 with
  | .ok _ => true
  | .error _ => false

def logoutButtonTapped (a : App) (c : ℕ) (saved : Bool) : App :=
  if a.world.Hears .home c then
    { a.navigate (.logoutButtonTapped c (signsOut a.service saved)) with
      service := (a.service.doLogout saved).1 }
  else a

def runningStep (a : App) : AppEvent → App
  | .editLogin c f text =>
    if .login c ∈ a.world.stack then a.setLogin c ((a.logins c).send f text) else a
  | .loginButtonTapped c => if .login c ∈ a.world.stack then a.loginButtonTapped c else a
  | .editRegistration c f text =>
    if .registration c ∈ a.world.stack then
      a.setRegistration c ((a.registrations c).send f text)
    else a
  | .signupButtonTapped c =>
    if .registration c ∈ a.world.stack then a.signupButtonTapped c else a
  | .goToRegisterButtonTapped c =>
    if .login c ∈ a.world.stack then a.navigate (.goToRegisterButtonTapped c) else a
  | .goToLoginPageButtonTapped c =>
    if .registration c ∈ a.world.stack then a.navigate (.goToLoginPageButtonTapped c) else a
  | .logoutButtonTapped c saved =>
    if .home c ∈ a.world.stack then a.logoutButtonTapped c saved else a
  | .respond index verdict => a.serve (.respond index verdict)
  | .runMain => a.serve .runMain
  | .setDataResponse index ok => a.serve (.setDataResponse index ok)

/-- An app that has aborted does nothing more. -/
def step (a : App) (e : AppEvent) : App := if a.service.aborted then a else a.runningStep e

end App

end Mber.Application
