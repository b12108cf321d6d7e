import Mber.ReachableWorlds
import Mber.Runs

/-!
The two doors of a registration screen. Going back fires isCompleted, and the
parent's handler pops the screen and drops the coordinator. A successful
registration fires the same relay from inside its own handler, so the parent
drops the coordinator before Home is pushed. Either way nothing holds the
coordinator afterwards, and whatever its view model still sends is not heard.
-/
namespace Mber.RegistrationExit

open Coordinators World Entry CoordinatorLaws Runs

/-- What can happen on one registration screen. -/
inductive ScreenInput
  | goToLoginPageButtonTapped
  | isRegistered (success : Bool)
  deriving DecidableEq

namespace ScreenInput

def event (r : ℕ) : ScreenInput → Event
  | .goToLoginPageButtonTapped => .goToLoginPageButtonTapped r
  | .isRegistered success => .isRegistered r success

def isExit : ScreenInput → Bool
  | .goToLoginPageButtonTapped => true
  | .isRegistered success => success

def entersHome : ScreenInput → Bool
  | .goToLoginPageButtonTapped => false
  | .isRegistered success => success

end ScreenInput

/-- The registration coordinator `r` is on screen: its controller is on top of
`front`, and its parent holds it next to `siblings`. -/
structure OnScreen (w : World) (p r : ℕ) (front : List ViewController)
    (siblings : List (Option ℕ)) : Prop where
  parent_lt : p < r
  lt_next : r < w.next
  parent_alive : w.IsAlive p
  kind_eq : (w.coordinator r).kind = .registration
  listening : (w.coordinator r).listening = true
  handler : (w.coordinator r).isCompleted = [⟨p, .popThenRemove, some r⟩]
  stack_eq : w.stack = front ++ [.registration r]
  front_ne : front ≠ []
  children_eq : (w.coordinator p).childCoordinators = siblings ++ [some r]
  not_sibling : some r ∉ siblings
  unheld : ∀ q, q < r → q ≠ p → some r ∉ (w.coordinator q).childCoordinators

variable {w : World} {p r : ℕ} {front : List ViewController} {siblings : List (Option ℕ)}

theorem onScreen_pushed (hw : WellFormed w) (hp : w.Hears .login p) :
    OnScreen (w.goToRegisterButtonTapped p) p w.next w.stack
      (w.coordinator p).childCoordinators := by
  have hlt := hw.numbered.lt_of_hears hp
  have hpush : w.goToRegisterButtonTapped p = LoginCoordinator.pushRegistrationVC w p := by
    simp [goToRegisterButtonTapped, hp]
  have hne : p ≠ w.next := by omega
  have hcoordinator := pushRegistrationVC_coordinator w hne
  rw [← hpush] at hcoordinator
  have hold : ∀ d, d < w.next → (w.goToRegisterButtonTapped p).coordinator d =
      if d = p then { w.coordinator p with
        childCoordinators := (w.coordinator p).childCoordinators ++ [some w.next] }
      else w.coordinator d := by
    intro d hd
    rw [hcoordinator d, if_neg (by omega)]
  have hfresh : ∀ q, some w.next ∉ (w.coordinator q).childCoordinators :=
    fun q hq => absurd (hw.numbered.children q w.next hq) (by omega)
  constructor
  · exact hlt
  · rw [hpush]
    exact Nat.lt_succ_self _
  · refine isAlive_mono ?_ hp.2.2
    intro d hd
    rw [hold d (by omega)]
    split_ifs with hdp
    · subst hdp
      exact ⟨rfl, id, List.subset_append_left _ _, List.Subset.refl _⟩
    · exact ⟨rfl, id, List.Subset.refl _, List.Subset.refl _⟩
  · rw [hcoordinator, if_pos rfl]
  · rw [hcoordinator, if_pos rfl]
  · rw [hcoordinator, if_pos rfl]
  · rw [hpush]
    rfl
  · exact hw.screens
  · rw [hold p hlt, if_pos rfl]
  · exact hfresh p
  · intro q hq hqp
    rw [hold q hq, if_neg hqp]
    exact hfresh q

theorem OnScreen.hears (h : OnScreen w p r front siblings) : w.Hears .registration r := by
  refine ⟨h.kind_eq, h.listening, isAlive_child h.parent_lt h.parent_alive ?_⟩
  rw [h.children_eq]
  exact List.mem_append_right _ (List.mem_singleton_self _)

theorem filter_siblings (hr : some r ∉ siblings) :
    (siblings ++ [some r]).filter (fun e => decide (e ≠ some r)) = siblings := by
  rw [List.filter_append, List.filter_eq_self.mpr]
  · simp
  · intro e he
    exact decide_eq_true (fun heq => hr (heq ▸ he))

/-- The coordinator has left, and nothing holds it any more. -/
structure Left (w : World) (p r : ℕ) (siblings : List (Option ℕ)) : Prop where
  children_eq : (w.coordinator p).childCoordinators = siblings
  gone : ¬ w.IsAlive r

/-- Firing isCompleted pops the screen and drops the coordinator. -/
theorem OnScreen.accept (h : OnScreen w p r front siblings) :
    Left (w.accept r) p r siblings ∧ (w.accept r).next = w.next ∧
      (w.accept r).currentUser = w.currentUser ∧ (w.accept r).stack = front ∧
      (w.accept r).log = w.log ++ [⟨.completed r, w.currentUser⟩,
        ⟨.popped (.registration r), w.currentUser⟩] := by
  have hne : p ≠ r := Nat.ne_of_lt h.parent_lt
  have hdone := accept_completed h.handler h.parent_alive hne
  obtain ⟨hstack, hlog⟩ := accept_pop h.handler h.parent_alive (by simp) (by simp)
    h.stack_eq h.front_ne
  have hchildren : ((w.accept r).coordinator p).childCoordinators = siblings := by
    rw [hdone.owner]
    simp only [h.children_eq]
    exact filter_siblings h.not_sibling
  refine ⟨⟨hchildren, ?_⟩, hdone.next_eq, hdone.currentUser_eq, hstack, hlog⟩
  apply not_isAlive
  · have hlt := h.parent_lt
    omega
  · rw [hdone.fired]
    simp [h.kind_eq]
  · intro q hq
    by_cases hqp : q = p
    · rw [hqp, hchildren]
      exact h.not_sibling
    · rw [hdone.other q (by omega) hqp]
      exact h.unheld q hq hqp
  · rw [hdone.fired]
    simp

/-- A new HomeCoordinator as a child leaves the screen as it is. -/
theorem OnScreen.addHome (h : OnScreen w p r front siblings) :
    OnScreen ((w.create .home).add r w.next) p r front siblings := by
  obtain ⟨hlt, hnext, halive, hkind, hlistening, hhandler, hstack, hfront, hchildren, hsibling,
    hunheld⟩ := h
  have hrn : r ≠ w.next := by omega
  have hcoordinator : ∀ d, d < r →
      ((w.create .home).add r w.next).coordinator d = w.coordinator d := by
    intro d hd
    rw [create_add_coordinator w .home hrn, if_neg (by omega), if_neg (by omega)]
  have hself : ((w.create .home).add r w.next).coordinator r = { w.coordinator r with
      childCoordinators := (w.coordinator r).childCoordinators ++ [some w.next] } := by
    rw [create_add_coordinator w .home hrn, if_neg hrn, if_pos rfl]
  refine ⟨hlt, Nat.lt_succ_of_lt hnext, ?_, ?_, ?_, ?_, hstack, hfront, ?_, hsibling, ?_⟩
  · refine isAlive_mono ?_ halive
    intro d hd
    rw [hcoordinator d (by omega)]
    exact ⟨rfl, id, List.Subset.refl _, List.Subset.refl _⟩
  · rw [hself]
    exact hkind
  · rw [hself]
    exact hlistening
  · rw [hself]
    exact hhandler
  · rw [hcoordinator p hlt]
    exact hchildren
  · intro q hq hqp
    rw [hcoordinator q hq]
    exact hunheld q hq hqp

theorem OnScreen.switchToHomeVC (h : OnScreen w p r front siblings) :
    Left (RegistrationCoordinator.switchToHomeVC w r) p r siblings ∧
      (RegistrationCoordinator.switchToHomeVC w r).stack = front ++ [.home w.next] ∧
      (RegistrationCoordinator.switchToHomeVC w r).log = w.log ++ [⟨.completed r, w.currentUser⟩,
        ⟨.popped (.registration r), w.currentUser⟩] ++ homeEntries w.next w.currentUser := by
  obtain ⟨⟨hchildren, hgone⟩, hnext, huser, hstack, hlog⟩ := h.addHome.accept
  have hlt := h.lt_next
  have hplt := h.parent_lt
  have hcoordinator : ∀ d, d ≠ w.next →
      (RegistrationCoordinator.switchToHomeVC w r).coordinator d =
        (((w.create .home).add r w.next).accept r).coordinator d :=
    fun d hd => (switchToHomeVC_coordinator w r d).trans (if_neg hd)
  refine ⟨⟨?_, ?_⟩, ?_, ?_⟩
  · rw [hcoordinator p (by omega)]
    exact hchildren
  · intro halive
    apply hgone
    refine isAlive_mono ?_ halive
    intro d hd
    rw [hcoordinator d (by omega)]
    exact ⟨rfl, id, List.Subset.refl _, List.Subset.refl _⟩
  · have hpush : (RegistrationCoordinator.switchToHomeVC w r).stack =
        (((w.create .home).add r w.next).accept r).stack ++ [.home w.next] := rfl
    rw [hpush, hstack]
  · have hpush : (RegistrationCoordinator.switchToHomeVC w r).log =
        (((w.create .home).add r w.next).accept r).log ++
          homeEntries w.next (((w.create .home).add r w.next).accept r).currentUser :=
      homeStart_log _ _
    rw [hpush, hlog, huser]
    rfl

theorem not_hears_of_gone (h : ¬ w.IsAlive r) (kind : Kind) : ¬ w.Hears kind r :=
  fun hears => h hears.2.2

/-- A coordinator that is gone hears nothing. -/
theorem run_gone (h : ¬ w.IsAlive r) (inputs : List ScreenInput) :
    run step w (inputs.map (ScreenInput.event r)) = w := by
  have hears := not_hears_of_gone h .registration
  induction inputs with
  | nil => rfl
  | cons i rest ih =>
    have hstep : w.step (i.event r) = w := by
      cases i <;> simp [ScreenInput.event, step, goToLoginPageButtonTapped, isRegistered, hears]
    rw [List.map_cons, run, hstep]
    exact ih

/-- A failed registration is not heard as an exit. -/
theorem step_stay (w : World) (i : ScreenInput) (hstay : i.isExit = false) :
    w.step (i.event r) = w := by
  cases i with
  | goToLoginPageButtonTapped => simp [ScreenInput.isExit] at hstay
  | isRegistered success =>
    have hfalse : success = false := hstay
    simp [ScreenInput.event, step, isRegistered, hfalse]

/-- What is left once the screen has been closed by `i`. -/
structure ClosedBy (before entered final : World) (p : ℕ) (i : ScreenInput) : Prop where
  stack_eq : final.stack =
    before.stack ++ (if i.entersHome then [.home entered.next] else [])
  children_eq : (final.coordinator p).childCoordinators = (before.coordinator p).childCoordinators
  popped_eq : final.log.filterMap popped? =
    entered.log.filterMap popped? ++ [.registration before.next]
  pushed_eq : final.log.filterMap pushed? =
    entered.log.filterMap pushed? ++ (if i.entersHome then [.home entered.next] else [])

theorem OnScreen.exit {before : World} (h : OnScreen w p before.next before.stack
      (before.coordinator p).childCoordinators) (i : ScreenInput) (hexit : i.isExit = true) :
    ClosedBy before w (w.step (i.event before.next)) p i ∧
      ¬ (w.step (i.event before.next)).IsAlive before.next := by
  cases i with
  | goToLoginPageButtonTapped =>
    have hstep : w.step (ScreenInput.goToLoginPageButtonTapped.event before.next) =
        w.accept before.next := by
      simp [ScreenInput.event, step, goToLoginPageButtonTapped, h.hears]
    obtain ⟨⟨hchildren, hgone⟩, -, -, hstack, hlog⟩ := h.accept
    rw [hstep]
    refine ⟨⟨by simp [hstack, ScreenInput.entersHome], hchildren, ?_, ?_⟩, hgone⟩
    · rw [hlog, List.filterMap_append]
      rfl
    · rw [hlog, List.filterMap_append]
      rfl
  | isRegistered success =>
    obtain rfl : success = true := hexit
    have hstep : w.step ((ScreenInput.isRegistered true).event before.next) =
        RegistrationCoordinator.switchToHomeVC w before.next := by
      simp [ScreenInput.event, step, isRegistered, h.hears]
    obtain ⟨⟨hchildren, hgone⟩, hstack, hlog⟩ := h.switchToHomeVC
    rw [hstep]
    refine ⟨⟨by simp [hstack, ScreenInput.entersHome], hchildren, ?_, ?_⟩, hgone⟩
    · rw [hlog, List.append_assoc, List.filterMap_append]
      rfl
    · rw [hlog, List.append_assoc, List.filterMap_append]
      rfl

/-- Without an exit nothing changes; with one, only the first counts. -/
theorem run_screen {before : World} (h : OnScreen w p before.next before.stack
      (before.coordinator p).childCoordinators) (inputs : List ScreenInput) :
    match inputs.find? ScreenInput.isExit with
    | none => run step w (inputs.map (ScreenInput.event before.next)) = w
    | some i => run step w (inputs.map (ScreenInput.event before.next)) =
          w.step (i.event before.next) ∧
        ClosedBy before w (run step w (inputs.map (ScreenInput.event before.next))) p i := by
  induction inputs with
  | nil => rfl
  | cons i rest ih =>
    cases hexit : i.isExit with
    | true =>
      obtain ⟨hclosed, hgone⟩ := h.exit i hexit
      simp only [List.find?_cons, hexit, List.map_cons, run, run_gone hgone rest, true_and]
      exact hclosed
    | false =>
      simp only [List.find?_cons, hexit, List.map_cons, run, step_stay w i hexit]
      exact ih

/-- A registration screen that a login coordinator has pushed, in any world the
app can reach. The whole run amounts to its first exit, if it has one. -/
theorem registration_exits_once (w : World) (p : ℕ) (hw : WellFormed w) (hp : w.Hears .login p)
    (inputs : List ScreenInput) :
    let entered := w.goToRegisterButtonTapped p
    let final := run step entered (inputs.map (ScreenInput.event w.next))
    entered.stack = w.stack ++ [.registration w.next] ∧
      (entered.coordinator p).childCoordinators =
        (w.coordinator p).childCoordinators ++ [some w.next] ∧
      match inputs.find? ScreenInput.isExit with
      | none => final = entered
      | some i => final = entered.step (i.event w.next) ∧ ClosedBy w entered final p i := by
  have hscreen := onScreen_pushed hw hp
  exact ⟨hscreen.stack_eq, hscreen.children_eq, run_screen hscreen inputs⟩

/-- The screen is entered from a login screen that has already opened another
one; a failure, a success and a late tap follow. -/
theorem registration_exits_once_home :
    ((run step ((launched none).goToRegisterButtonTapped 1)
      [.goToRegisterButtonTapped 1, .isRegistered 3 false, .isRegistered 3 true,
        .goToLoginPageButtonTapped 3]).stack = [.login 1, .registration 2, .home 4]) := by
  have hw : WellFormed ((launched none).goToRegisterButtonTapped 1) :=
    wellFormed_run none [.goToRegisterButtonTapped 1]
  have h := registration_exits_once ((launched none).goToRegisterButtonTapped 1) 1 hw (by decide)
    [.isRegistered false, .isRegistered true, .goToLoginPageButtonTapped]
  exact h.2.2.2.stack_eq

end Mber.RegistrationExit
