import Mber.Firebase
import Mber.Lifetimes
import Mathlib.Logic.Function.Basic

/-!
The coordinators and the one navigation stack they share. Coordinators are
numbered in the order of their creation; the AppCoordinator is number 0. Every
effect is logged together with the session it happened in.

A coordinator is held by the childCoordinators list of another one and by the
variable captured in the handler that its owner has subscribed to its
isCompleted; a started HomeCoordinator is also held by its own logout
subscription, which is taken to last. A coordinator that nothing holds is
gone, together with its subscriptions: its view model is not heard and its
handlers do not run.
-/
namespace Mber.Coordinators

open Firebase Lifetimes

inductive Kind
  | app
  | login
  | home
  | registration
  deriving DecidableEq

inductive ViewController
  | login (c : ℕ)
  | registration (c : ℕ)
  | home (c : ℕ)
  deriving DecidableEq

/-- What a completion handler does with the captured coordinator, besides
setting the variable to nil. -/
inductive HandlerBody
  | remove
  | removeThenPop
  | popThenRemove
  deriving DecidableEq

/-- A subscription to a coordinator's `isCompleted`, kept in its owner's
dispose bag; the owner itself is captured weakly. -/
structure Handler where
  owner : ℕ
  body : HandlerBody
  captured : Option ℕ
  deriving DecidableEq

/-- `listening` is set once the coordinator has subscribed to its view model. -/
structure Coordinator where
  kind : Kind
  childCoordinators : List (Option ℕ) := []
  isCompleted : List Handler := []
  started : Bool := false
  listening : Bool := false
  fired : Bool := false
  deriving DecidableEq

inductive Effect
  | started (c : ℕ)
  | pushed (vc : ViewController)
  | popped (vc : ViewController)
  | completed (c : ℕ)
  | window
  deriving DecidableEq

structure Entry where
  effect : Effect
  currentUser : Option Uid
  deriving DecidableEq

namespace Entry

def started? (e : Entry) : Option ℕ :=
  match e.effect with
  | .started c => some c
  | _ => none

def pushed? (e : Entry) : Option ViewController :=
  match e.effect with
  | .pushed vc => some vc
  | _ => none

def popped? (e : Entry) : Option ViewController :=
  match e.effect with
  | .popped vc => some vc
  | _ => none

def completed? (e : Entry) : Option ℕ :=
  match e.effect with
  | .completed c => some c
  | _ => none

end Entry

/-- The last element of `stack` is the visible controller. -/
structure World where
  next : ℕ := 1
  coordinator : ℕ → Coordinator := fun _ => { kind := .app }
  stack : List ViewController := []
  currentUser : Option Uid
  log : List Entry := []

namespace World

def update (w : World) (c : ℕ) (f : Coordinator → Coordinator) : World :=
  { w with coordinator := Function.update w.coordinator c (f (w.coordinator c)) }

def record (w : World) (e : Effect) : World :=
  { w with log := w.log ++ [⟨e, w.currentUser⟩] }

def create (w : World) (kind : Kind) : World :=
  { w.update w.next (fun _ => { kind }) with next := w.next + 1 }

def add (w : World) (parent child : ℕ) : World :=
  w.update parent (fun d => { d with childCoordinators := d.childCoordinators ++ [some child] })

/-- Entries identical to the argument are filtered out, nil included. -/
def remove (w : World) (parent : ℕ) (child : Option ℕ) : World :=
  w.update parent (fun d =>
    { d with childCoordinators := d.childCoordinators.filter (fun e => decide (e ≠ child)) })

def subscribe (w : World) (c : ℕ) (k : Handler) : World :=
  w.update c (fun d => { d with isCompleted := d.isCompleted ++ [k] })

def pushViewController (w : World) (vc : ViewController) : World :=
  { w with stack := w.stack ++ [vc] }.record (.pushed vc)

/-- The root controller cannot be popped. -/
def popViewController (w : World) : World :=
  match w.stack.getLast? with
  | none => w
  | some vc =>
    if w.stack.length = 1 then w else { w with stack := w.stack.dropLast }.record (.popped vc)

/-- The AppCoordinator, and every HomeCoordinator with its logout subscription,
whose closure keeps it. The app lets go of that subscription with the view
model, when the HomeController has been popped; here it stays, so that there
are more runs here than in the app, with taps on controllers that are gone. -/
def isRoot (w : World) (c : ℕ) : Bool :=
  c == 0 || ((w.coordinator c).kind == .home && (w.coordinator c).listening)

def holds (w : World) (p c : ℕ) : Bool :=
  (w.coordinator p).childCoordinators.contains (some c) ||
    (w.coordinator c).isCompleted.any (fun k => k.owner == p && k.captured == some c)

def IsAlive (w : World) (c : ℕ) : Prop := Alive w.isRoot w.holds c

instance (w : World) (c : ℕ) : Decidable (w.IsAlive c) := by
  unfold IsAlive
  infer_instance

/-- The coordinator hears its view model. -/
def Hears (w : World) (kind : Kind) (c : ℕ) : Prop :=
  (w.coordinator c).kind = kind ∧ (w.coordinator c).listening = true ∧ w.IsAlive c

instance (w : World) (kind : Kind) (c : ℕ) : Decidable (w.Hears kind c) := by
  unfold Hears
  infer_instance

/-- `captured?.navigationController?.popViewController`. -/
def popCaptured (w : World) (captured : Option ℕ) : World :=
  if captured.isSome then w.popViewController else w

def runHandler (w : World) (k : Handler) : World :=
  match k.body with
  | .remove => w.remove k.owner k.captured
  | .removeThenPop => (w.remove k.owner k.captured).popCaptured k.captured
  | .popThenRemove => (w.popCaptured k.captured).remove k.owner k.captured

def fire (w : World) (c : ℕ) : World :=
  (w.update c (fun d => { d with fired := true })).record (.completed c)

/-- The handlers whose owners are alive run in order and let go of what they
captured; those of other owners have been disposed. -/
def accept (w : World) (c : ℕ) : World :=
  let handlers := (w.coordinator c).isCompleted.filter (fun k => decide (w.IsAlive k.owner))
  (handlers.foldl runHandler (w.fire c)).update c (fun d =>
    { d with isCompleted := handlers.map (fun k => { k with captured := none }) })

def beginStart (w : World) (c : ℕ) : World :=
  (w.update c (fun d => { d with started := true })).record (.started c)

/-- Subscribes to the view model, then pushes its controller. -/
def bindAndPush (w : World) (c : ℕ) (vc : ViewController) : World :=
  (w.update c (fun d => { d with listening := true })).pushViewController vc

def HomeCoordinator.start (w : World) (c : ℕ) : World :=
  (w.beginStart c).bindAndPush c (.home c)

def LoginCoordinator.loggedInStatus (w : World) (c : ℕ) : World :=
  let home := w.next
  HomeCoordinator.start
    (((w.create .home).add c home).subscribe home ⟨c, .removeThenPop, some home⟩) home

def LoginCoordinator.loggedOutStatus (w : World) (c : ℕ) : World :=
  w.bindAndPush c (.login c)

def LoginCoordinator.start (w : World) (c : ℕ) : World :=
  if w.currentUser.isSome then LoginCoordinator.loggedInStatus (w.beginStart c) c
  else LoginCoordinator.loggedOutStatus (w.beginStart c) c

def RegistrationCoordinator.start (w : World) (c : ℕ) : World :=
  (w.beginStart c).bindAndPush c (.registration c)

def LoginCoordinator.pushRegistrationVC (w : World) (c : ℕ) : World :=
  let registration := w.next
  RegistrationCoordinator.start
    (((w.create .registration).add c registration).subscribe registration
      ⟨c, .popThenRemove, some registration⟩) registration

def RegistrationCoordinator.switchToHomeVC (w : World) (c : ℕ) : World :=
  let home := w.next
  let w := ((w.create .home).add c home).accept c
  (HomeCoordinator.start (w.subscribe home ⟨c, .remove, some home⟩) home).record .window

def HomeCoordinator.switchToLoginVC (w : World) (c : ℕ) : World :=
  let login := w.next
  let w := ((w.create .login).add c login).subscribe login ⟨c, .remove, some login⟩
  (LoginCoordinator.start w login).record .window

def AppCoordinator.start (w : World) : World :=
  let login := w.next
  let w := ((w.create .login).add 0 login).subscribe login ⟨0, .remove, some login⟩
  (LoginCoordinator.start w login).record .window

/-- The handler that `loggedOutStatus` subscribes does not look at the value,
and gives the new HomeCoordinator no completion handler. -/
def isLoginCompleted (w : World) (c : ℕ) (_success : Bool) : World :=
  if w.Hears .login c then
    let w := w.accept c
    let home := w.next
    (HomeCoordinator.start ((w.create .home).add c home) home).record .window
  else w

def goToRegisterButtonTapped (w : World) (c : ℕ) : World :=
  if w.Hears .login c then LoginCoordinator.pushRegistrationVC w c else w

def goToLoginPageButtonTapped (w : World) (c : ℕ) : World :=
  if w.Hears .registration c then w.accept c else w

/-- Only `true` passes the filter. -/
def isRegistered (w : World) (c : ℕ) (success : Bool) : World :=
  if w.Hears .registration c ∧ success = true then RegistrationCoordinator.switchToHomeVC w c else w

def signOut (w : World) : World := { w with currentUser := none }

/-- `signedOut` says whether `signOut` succeeds or throws. -/
def logoutButtonTapped (w : World) (c : ℕ) (signedOut : Bool) : World :=
  if w.Hears .home c ∧ signedOut = true then
    HomeCoordinator.switchToLoginVC (w.signOut.accept c) c
  else w

end World

/-- The app right after `AppCoordinator.start`. -/
def launched (currentUser : Option Uid) : World :=
  World.AppCoordinator.start { currentUser }

inductive Event
  | isLoginCompleted (c : ℕ) (success : Bool)
  | goToRegisterButtonTapped (c : ℕ)
  | goToLoginPageButtonTapped (c : ℕ)
  | isRegistered (c : ℕ) (success : Bool)
  | logoutButtonTapped (c : ℕ) (signedOut : Bool)
  | sessionChanged (currentUser : Option Uid)
  deriving DecidableEq

namespace World

def step (w : World) : Event → World
  | .isLoginCompleted c success => w.isLoginCompleted c success
  | .goToRegisterButtonTapped c => w.goToRegisterButtonTapped c
  | .goToLoginPageButtonTapped c => w.goToLoginPageButtonTapped c
  | .isRegistered c success => w.isRegistered c success
  | .logoutButtonTapped c signedOut => w.logoutButtonTapped c signedOut
  | .sessionChanged currentUser => { w with currentUser }

end World

end Mber.Coordinators
