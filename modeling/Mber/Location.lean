import Mber.Runs
import Mathlib.Data.Int.Notation

/-!
The location manager of the home screen. HomeViewModel looks at the
authorization once, when it is created; from then on HomeController hears of
every change. Only the view model ever starts location updates.
-/
namespace Mber.Location

open Runs

/-- `unknown` is what the `default` of a switch over the statuses takes. -/
inductive AuthorizationStatus
  | notDetermined
  | restricted
  | denied
  | authorizedAlways
  | authorizedWhenInUse
  | unknown (rawValue : ℤ)
  deriving DecidableEq

inductive ManagerCall
  | requestWhenInUseAuthorization
  | requestAlwaysAuthorization
  | startUpdatingLocation
  | setDesiredAccuracyBest
  deriving DecidableEq

/-- A location manager with the calls that have been made on it, in order. -/
structure LocationManager where
  authorizationStatus : AuthorizationStatus
  calls : List ManagerCall := []

namespace LocationManager

def call (manager : LocationManager) (c : ManagerCall) : LocationManager :=
  { manager with calls := manager.calls ++ [c] }

def Started (manager : LocationManager) : Prop := .startUpdatingLocation ∈ manager.calls

end LocationManager

structure HomeViewModel where
  manager : LocationManager

namespace HomeViewModel

def enableLocationServices (vm : HomeViewModel) : HomeViewModel :=
  match vm.manager.authorizationStatus with
  | .notDetermined => ⟨vm.manager.call .requestWhenInUseAuthorization⟩
  | .restricted | .denied => vm
  | .authorizedAlways => ⟨(vm.manager.call .startUpdatingLocation).call .setDesiredAccuracyBest⟩
  | .authorizedWhenInUse => ⟨vm.manager.call .requestAlwaysAuthorization⟩
  | .unknown _ => vm

/-- A new view model, created while the manager has this status. -/
def create (status : AuthorizationStatus) : HomeViewModel :=
  enableLocationServices ⟨{ authorizationStatus := status }⟩

end HomeViewModel

structure HomeController where
  viewModel : HomeViewModel

namespace HomeController

def manager (home : HomeController) : LocationManager := home.viewModel.manager

def create (status : AuthorizationStatus) : HomeController := ⟨HomeViewModel.create status⟩

/-- The subscription to `didChangeAuthorization` that `bind` makes. -/
def onChange (status : AuthorizationStatus) (manager : LocationManager) : LocationManager :=
  if status = .authorizedWhenInUse then manager.call .requestAlwaysAuthorization else manager

/-- The authorization becomes `status`, and the manager reports it. -/
def didChangeAuthorization (home : HomeController) (status : AuthorizationStatus) :
    HomeController :=
  ⟨⟨onChange status { home.manager with authorizationStatus := status }⟩⟩

/-- Full permission means that updates have been started. -/
def UpdatesRun (home : HomeController) : Prop :=
  home.manager.authorizationStatus = .authorizedAlways → home.manager.Started

end HomeController

open HomeController

theorem create_status (status : AuthorizationStatus) :
    (create status).manager.authorizationStatus = status := by
  cases status <;> rfl

/-- The view model starts the updates only if it finds full permission. -/
theorem create_started_iff (status : AuthorizationStatus) :
    (create status).manager.Started ↔ status = .authorizedAlways := by
  cases status <;>
    simp [create, HomeController.manager, HomeViewModel.create,
      HomeViewModel.enableLocationServices, LocationManager.Started, LocationManager.call]

variable {home : HomeController}

theorem change_status (status : AuthorizationStatus) :
    (home.didChangeAuthorization status).manager.authorizationStatus = status := by
  simp only [didChangeAuthorization, HomeController.manager, onChange]
  split_ifs <;> rfl

/-- The calls that a change makes. -/
theorem change_calls (status : AuthorizationStatus) :
    (home.didChangeAuthorization status).manager.calls =
      home.manager.calls ++
        if status = .authorizedWhenInUse then [.requestAlwaysAuthorization] else [] := by
  simp only [didChangeAuthorization, HomeController.manager, onChange]
  split_ifs <;> simp [LocationManager.call]

/-- No change starts the updates, and none takes back that they were started. -/
theorem change_started_iff (status : AuthorizationStatus) :
    (home.didChangeAuthorization status).manager.Started ↔ home.manager.Started := by
  rw [LocationManager.Started, change_calls, List.mem_append]
  split_ifs <;> simp [LocationManager.Started]

/-- The change leaves the updates running, if full permission asks for them. -/
def Served (home : HomeController) (status : AuthorizationStatus) : Prop :=
  home.manager.Started ∨ status ≠ .authorizedAlways

theorem served_iff (home : HomeController) (status : AuthorizationStatus) :
    Served home status ↔ (home.didChangeAuthorization status).UpdatesRun := by
  rw [UpdatesRun, change_status, change_started_iff, Served, ne_eq, or_comm, imp_iff_not_or]

theorem everyStep_served_iff (home : HomeController) (changes : List AuthorizationStatus) :
    EveryStep didChangeAuthorization Served home changes ↔
      home.manager.Started ∨ .authorizedAlways ∉ changes := by
  induction changes generalizing home with
  | nil => simp [EveryStep]
  | cons status rest ih =>
    rw [EveryStep, ih, change_started_iff, Served, List.mem_cons, not_or, or_and_left, ne_comm]

/-- Full permission means running updates in every state of the run exactly if
the permission was there from the start or never comes. -/
theorem updates_run_iff (status : AuthorizationStatus) (changes : List AuthorizationStatus) :
    EveryState didChangeAuthorization UpdatesRun (create status) changes ↔
      status = .authorizedAlways ∨ .authorizedAlways ∉ changes := by
  have hstart : (create status).UpdatesRun := by
    intro hstatus
    rw [create_status] at hstatus
    exact (create_started_iff status).mpr hstatus
  rw [everyState_iff_until UpdatesRun (fun _ h => h) (Q := Served) _ _ _ _ hstart,
    everyStep_served_iff, create_started_iff]
  · exact fun home status _ hserved => (served_iff home status).mp hserved
  · exact fun home status _ hserved => (served_iff home status).not.mp hserved

/-- The user grants use while in the app and then, asked again, full permission. -/
theorem upgrade_not_served :
    ¬ EveryState didChangeAuthorization UpdatesRun (create .notDetermined)
      [.authorizedWhenInUse, .authorizedAlways] := by
  intro hrun
  obtain ⟨-, -, h⟩ := hrun
  have hstarted := h rfl
  revert hstarted
  unfold LocationManager.Started
  decide

end Mber.Location
