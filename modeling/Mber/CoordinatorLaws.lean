import Mber.Coordinators
import Mber.Runs

/-!
What the operations on the world change: which coordinator, which part of it,
what is logged and what happens to the stack. Completion handlers only take
children away, pop, and let go of what they have captured.
-/
namespace Mber.CoordinatorLaws

open Coordinators World Lifetimes

variable {w : World} {c p : ℕ}

theorem update_coordinator (w : World) (c : ℕ) (f : Coordinator → Coordinator)
    (d : ℕ) :
    (w.update c f).coordinator d = if d = c then f (w.coordinator c) else w.coordinator d :=
  Function.update_apply _ _ _ _

theorem create_coordinator (w : World) (kind : Kind) (d : ℕ) :
    (w.create kind).coordinator d = if d = w.next then { kind } else w.coordinator d :=
  Function.update_apply _ _ _ _

/-- A new coordinator as the child of another one. -/
theorem create_add_coordinator (w : World) (kind : Kind) {p : ℕ} (hp : p ≠ w.next) (d : ℕ) :
    ((w.create kind).add p w.next).coordinator d =
      if d = w.next then { kind }
      else if d = p then { w.coordinator p with
        childCoordinators := (w.coordinator p).childCoordinators ++ [some w.next] }
      else w.coordinator d := by
  by_cases hd : d = w.next
  · subst hd
    simp [add, update_coordinator, create_coordinator, Ne.symm hp]
  · simp [add, update_coordinator, create_coordinator, hd, hp]

theorem subscribe_coordinator (w : World) (c : ℕ) (k : Handler) (d : ℕ) :
    (w.subscribe c k).coordinator d =
      if d = c then { w.coordinator c with isCompleted := (w.coordinator c).isCompleted ++ [k] }
      else w.coordinator d :=
  update_coordinator w c _ d

/-- Starting a coordinator that subscribes to its view model. -/
theorem start_coordinator (w : World) (c : ℕ) (vc : ViewController) (d : ℕ) :
    ((w.beginStart c).bindAndPush c vc).coordinator d =
      if d = c then { w.coordinator c with started := true, listening := true }
      else w.coordinator d := by
  simp only [bindAndPush, pushViewController, beginStart, World.record, update_coordinator]
  split_ifs <;> simp_all

theorem loginStart_of_signedOut (w : World) (c : ℕ) (hnone : w.currentUser = none) :
    LoginCoordinator.start w c = (w.beginStart c).bindAndPush c (.login c) := by
  simp [LoginCoordinator.start, LoginCoordinator.loggedOutStatus, hnone]

theorem switchToLoginVC_of_signedOut (w : World) (c : ℕ) (hnone : w.currentUser = none) :
    HomeCoordinator.switchToLoginVC w c =
      (((((w.create .login).add c w.next).subscribe w.next ⟨c, .remove, some w.next⟩).beginStart
        w.next).bindAndPush w.next (.login w.next)).record .window := by
  have huser : (((w.create .login).add c w.next).subscribe w.next
      ⟨c, .remove, some w.next⟩).currentUser = none := hnone
  rw [HomeCoordinator.switchToLoginVC, loginStart_of_signedOut _ _ huser]

theorem switchToLoginVC_coordinator (w : World) {c : ℕ} (hnone : w.currentUser = none)
    (hc : c ≠ w.next) (d : ℕ) :
    (HomeCoordinator.switchToLoginVC w c).coordinator d =
      if d = w.next then {
        kind := .login
        isCompleted := [⟨c, .remove, some w.next⟩]
        started := true
        listening := true }
      else if d = c then { w.coordinator c with
        childCoordinators := (w.coordinator c).childCoordinators ++ [some w.next] }
      else w.coordinator d := by
  simp only [switchToLoginVC_of_signedOut w c hnone, World.record, start_coordinator,
    subscribe_coordinator, create_add_coordinator w .login hc]
  by_cases hd : d = w.next <;> simp [hd]

theorem pushRegistrationVC_coordinator (w : World) {c : ℕ} (hc : c ≠ w.next) (d : ℕ) :
    (LoginCoordinator.pushRegistrationVC w c).coordinator d =
      if d = w.next then {
        kind := .registration
        isCompleted := [⟨c, .popThenRemove, some w.next⟩]
        started := true
        listening := true }
      else if d = c then { w.coordinator c with
        childCoordinators := (w.coordinator c).childCoordinators ++ [some w.next] }
      else w.coordinator d := by
  simp only [LoginCoordinator.pushRegistrationVC, RegistrationCoordinator.start,
    start_coordinator, subscribe_coordinator, create_add_coordinator w .registration hc]
  by_cases hd : d = w.next <;> simp [hd]

/-- Once the registration coordinator has fired, only the new Home changes. -/
theorem switchToHomeVC_coordinator (w : World) (c d : ℕ) :
    (RegistrationCoordinator.switchToHomeVC w c).coordinator d =
      if d = w.next then {
        (((w.create .home).add c w.next).accept c).coordinator w.next with
        isCompleted := ((((w.create .home).add c w.next).accept c).coordinator w.next).isCompleted
          ++ [⟨c, .remove, some w.next⟩]
        started := true
        listening := true }
      else (((w.create .home).add c w.next).accept c).coordinator d := by
  simp only [RegistrationCoordinator.switchToHomeVC, HomeCoordinator.start, World.record,
    start_coordinator, subscribe_coordinator, if_true]
  by_cases hd : d = w.next <;> simp [hd]

theorem homeChild_coordinator (w : World) {c : ℕ} (hc : c ≠ w.next) (d : ℕ) :
    (HomeCoordinator.start ((w.create .home).add c w.next) w.next).coordinator d =
      if d = w.next then { kind := .home, started := true, listening := true }
      else if d = c then { w.coordinator c with
        childCoordinators := (w.coordinator c).childCoordinators ++ [some w.next] }
      else w.coordinator d := by
  simp only [HomeCoordinator.start, start_coordinator, create_add_coordinator w .home hc]
  by_cases hd : d = w.next <;> simp [hd]

/-- The entries with which a HomeCoordinator starts and takes the window. -/
def homeEntries (home : ℕ) (currentUser : Option Firebase.Uid) : List Entry :=
  [⟨.started home, currentUser⟩, ⟨.pushed (.home home), currentUser⟩, ⟨.window, currentUser⟩]

theorem homeStart_log (w : World) (home : ℕ) :
    ((HomeCoordinator.start w home).record .window).log =
      w.log ++ homeEntries home w.currentUser := by
  simp [HomeCoordinator.start, bindAndPush, beginStart, pushViewController, World.record,
    World.update, homeEntries]

/-- The switch to a login screen, for a user who has just signed out. -/
theorem switchToLoginVC_log (w : World) (c : ℕ) (hnone : w.currentUser = none) :
    (HomeCoordinator.switchToLoginVC w c).log = w.log ++
      [⟨.started w.next, none⟩, ⟨.pushed (.login w.next), none⟩, ⟨.window, none⟩] := by
  rw [switchToLoginVC_of_signedOut w c hnone]
  simp [bindAndPush, beginStart, pushViewController, World.record, World.update, subscribe, add,
    create, hnone]

theorem popViewController_push {front : List ViewController} {vc : ViewController}
    (hstack : w.stack = front ++ [vc]) (hne : front ≠ []) :
    w.popViewController = { w with stack := front }.record (.popped vc) := by
  have hlength : (front ++ [vc]).length ≠ 1 := by
    have hpos := List.length_pos_of_ne_nil hne
    simp only [List.length_append, List.length_singleton]
    omega
  simp only [popViewController, hstack, List.getLast?_append, List.getLast?_singleton,
    Option.some_or, hlength, if_false, List.dropLast_concat]

/-- A pop changes the stack and the log only. -/
theorem popViewController_fields (w : World) :
    w.popViewController.next = w.next ∧ w.popViewController.coordinator = w.coordinator ∧
      w.popViewController.currentUser = w.currentUser := by
  unfold popViewController
  split
  · exact ⟨rfl, rfl, rfl⟩
  · split_ifs <;> exact ⟨rfl, rfl, rfl⟩

/-- A pop logs at most one entry, and the root controller stays. -/
theorem popViewController_cases (w : World) :
    w.popViewController = w ∨ ∃ front vc, front ≠ [] ∧ w.stack = front ++ [vc] ∧
      w.popViewController = { w with stack := front }.record (.popped vc) := by
  cases hlast : w.stack.getLast? with
  | none =>
    left
    simp [popViewController, hlast]
  | some vc =>
    obtain ⟨front, hstack⟩ : ∃ front, w.stack = front ++ [vc] :=
      List.getLast?_eq_some_iff.mp hlast
    by_cases hne : front = []
    · left
      simp [popViewController, hstack, hne]
    · exact Or.inr ⟨front, vc, hne, hstack, popViewController_push hstack hne⟩

theorem isAlive_app (w : World) : w.IsAlive 0 := alive_of_root rfl

theorem isAlive_home (hkind : (w.coordinator c).kind = .home)
    (hlistening : (w.coordinator c).listening = true) : w.IsAlive c := by
  apply alive_of_root
  simp [isRoot, hkind, hlistening]

theorem isAlive_child (hlt : p < c) (hp : w.IsAlive p)
    (hchild : some c ∈ (w.coordinator p).childCoordinators) : w.IsAlive c := by
  apply alive_of_held hlt hp
  simp [holds, hchild]

/-- What the coordinator's own handlers and the lists of children do not hold is gone. -/
theorem not_isAlive (hc : c ≠ 0) (hkind : (w.coordinator c).kind ≠ .home)
    (hchild : ∀ p, p < c → some c ∉ (w.coordinator p).childCoordinators)
    (hcaptured : ∀ k ∈ (w.coordinator c).isCompleted, k.captured ≠ some c) : ¬ w.IsAlive c := by
  intro halive
  rcases alive_iff.mp halive with hroot | ⟨p, hlt, -, hheld⟩
  · simp [isRoot, hc, hkind] at hroot
  · simp only [holds, Bool.or_eq_true, List.contains_iff_mem, List.any_eq_true, Bool.and_eq_true,
      beq_iff_eq] at hheld
    rcases hheld with hmem | ⟨k, hk, -, hcap⟩
    · exact hchild p hlt hmem
    · exact hcaptured k hk hcap

/-- References among the first coordinators decide whether they are alive. -/
theorem isAlive_mono {w' : World} (hle : ∀ d, d ≤ c →
      (w'.coordinator d).kind = (w.coordinator d).kind ∧
      ((w.coordinator d).listening = true → (w'.coordinator d).listening = true) ∧
      (w.coordinator d).childCoordinators ⊆ (w'.coordinator d).childCoordinators ∧
      (w.coordinator d).isCompleted ⊆ (w'.coordinator d).isCompleted)
    (h : w.IsAlive c) : w'.IsAlive c := by
  refine alive_mono ?_ ?_ h
  · intro d hd hroot
    obtain ⟨hkind, hlistening, -, -⟩ := hle d hd
    simp only [isRoot, Bool.or_eq_true, beq_iff_eq, Bool.and_eq_true] at hroot ⊢
    rcases hroot with hzero | ⟨hhome, hlist⟩
    · exact Or.inl hzero
    · exact Or.inr ⟨hkind.trans hhome, hlistening hlist⟩
  · intro q d hd hlt hheld
    simp only [holds, Bool.or_eq_true, List.contains_iff_mem, List.any_eq_true] at hheld ⊢
    rcases hheld with hmem | ⟨k, hk, hcap⟩
    · have hq : q ≤ c := by omega
      exact Or.inl ((hle q hq).2.2.1 hmem)
    · exact Or.inr ⟨k, (hle d hd).2.2.2 hk, hcap⟩

/-- With one handler, whose owner is alive, `accept` fires, runs it and lets go. -/
theorem accept_of_handler {k : Handler} (hk : (w.coordinator c).isCompleted = [k])
    (howner : w.IsAlive k.owner) :
    w.accept c = ((w.fire c).runHandler k).update c (fun d =>
      { d with isCompleted := [{ k with captured := none }] }) := by
  simp [accept, hk, howner]

theorem runHandler_next (w : World) (k : Handler) : (w.runHandler k).next = w.next := by
  unfold runHandler popCaptured
  cases k.body with
  | remove => rfl
  | removeThenPop =>
    split_ifs
    · exact (popViewController_fields _).1
    · rfl
  | popThenRemove =>
    split_ifs
    · exact (popViewController_fields w).1
    · rfl

theorem runHandler_coordinator (w : World) (k : Handler) (d : ℕ) :
    (w.runHandler k).coordinator d =
      if d = k.owner then { w.coordinator k.owner with
        childCoordinators := (w.coordinator k.owner).childCoordinators.filter
          (fun e => decide (e ≠ k.captured)) }
      else w.coordinator d := by
  have hpop : ∀ v : World, (v.popCaptured k.captured).coordinator = v.coordinator := by
    intro v
    unfold popCaptured
    split_ifs
    · exact (popViewController_fields v).2.1
    · rfl
  unfold runHandler
  cases k.body <;> simp only [remove, update_coordinator, hpop]

theorem runHandler_currentUser (w : World) (k : Handler) :
    (w.runHandler k).currentUser = w.currentUser := by
  have hpop : ∀ v : World, (v.popCaptured k.captured).currentUser = v.currentUser := by
    intro v
    unfold popCaptured
    split_ifs
    · exact (popViewController_fields v).2.2
    · rfl
  unfold runHandler
  cases k.body with
  | remove => rfl
  | removeThenPop => exact hpop _
  | popThenRemove => exact hpop w

/-- A handler that pops does to the stack and to the log what a pop does. -/
theorem runHandler_pop (w : World) {k : Handler} (hbody : k.body ≠ .remove)
    (hcaptured : k.captured ≠ none) :
    (w.runHandler k).stack = w.popViewController.stack ∧
      (w.runHandler k).log = w.popViewController.log := by
  have hsome : k.captured.isSome = true := Option.isSome_iff_ne_none.mpr hcaptured
  unfold runHandler popCaptured
  cases hb : k.body with
  | remove => exact absurd hb hbody
  | removeThenPop =>
    simp only [hsome, if_true]
    unfold popViewController remove World.update
    cases w.stack.getLast? with
    | none => exact ⟨rfl, rfl⟩
    | some vc => by_cases hlength : w.stack.length = 1 <;> simp [hlength, World.record]
  | popThenRemove =>
    simp only [hsome, if_true]
    exact ⟨rfl, rfl⟩

/-- `c` has fired: its owner has dropped it, its handler has let go, and no
other coordinator has changed. -/
structure Completed (w w' : World) (k : Handler) (c : ℕ) : Prop where
  next_eq : w'.next = w.next
  currentUser_eq : w'.currentUser = w.currentUser
  fired : w'.coordinator c =
    { w.coordinator c with fired := true, isCompleted := [{ k with captured := none }] }
  owner : w'.coordinator k.owner = { w.coordinator k.owner with
    childCoordinators := (w.coordinator k.owner).childCoordinators.filter
      (fun e => decide (e ≠ k.captured)) }
  other : ∀ d, d ≠ c → d ≠ k.owner → w'.coordinator d = w.coordinator d

theorem accept_completed {k : Handler} (hk : (w.coordinator c).isCompleted = [k])
    (howner : w.IsAlive k.owner) (hne : k.owner ≠ c) : Completed w (w.accept c) k c := by
  rw [accept_of_handler hk howner]
  refine ⟨runHandler_next _ k, runHandler_currentUser _ k, ?_, ?_, ?_⟩
  · simp [update_coordinator, runHandler_coordinator, Ne.symm hne, fire, World.record]
  · simp [update_coordinator, runHandler_coordinator, hne, fire, World.record]
  · intro d hdc hdk
    simp [update_coordinator, runHandler_coordinator, hdc, hdk, fire, World.record]

theorem accept_pop {k : Handler} (hk : (w.coordinator c).isCompleted = [k])
    (howner : w.IsAlive k.owner) (hbody : k.body ≠ .remove) (hcaptured : k.captured ≠ none)
    {front : List ViewController} {vc : ViewController} (hstack : w.stack = front ++ [vc])
    (hne : front ≠ []) :
    (w.accept c).stack = front ∧ (w.accept c).log =
      w.log ++ [⟨.completed c, w.currentUser⟩, ⟨.popped vc, w.currentUser⟩] := by
  rw [accept_of_handler hk howner]
  obtain ⟨hstack', hlog'⟩ := runHandler_pop (w.fire c) hbody hcaptured
  have hpop := popViewController_push (w := w.fire c) hstack hne
  rw [hpop] at hstack' hlog'
  refine ⟨hstack', hlog'.trans ?_⟩
  simp [World.record, fire, World.update]

theorem accept_pop_root {k : Handler} (hk : (w.coordinator c).isCompleted = [k])
    (howner : w.IsAlive k.owner) (hbody : k.body ≠ .remove) (hcaptured : k.captured ≠ none)
    {vc : ViewController} (hstack : w.stack = [vc]) :
    (w.accept c).stack = [vc] ∧
      (w.accept c).log = w.log ++ [⟨.completed c, w.currentUser⟩] := by
  rw [accept_of_handler hk howner]
  obtain ⟨hstack', hlog'⟩ := runHandler_pop (w.fire c) hbody hcaptured
  have hpop : (w.fire c).popViewController = w.fire c := by
    have hfire : (w.fire c).stack = [vc] := hstack
    simp [popViewController, hfire]
  rw [hpop] at hstack' hlog'
  exact ⟨hstack'.trans hstack, hlog'⟩

def IsPop (e : Entry) : Prop := ∃ vc, e.effect = .popped vc

theorem popCaptured_log (w : World) (captured : Option ℕ) :
    ∃ pops, (w.popCaptured captured).log = w.log ++ pops ∧ ∀ e ∈ pops, IsPop e := by
  unfold popCaptured
  split_ifs
  · rcases popViewController_cases w with hsame | ⟨front, vc, -, -, hpop⟩
    · exact ⟨[], by simp [hsame], by simp⟩
    · exact ⟨[⟨.popped vc, w.currentUser⟩], by rw [hpop]; rfl, by simp [IsPop]⟩
  · exact ⟨[], by simp, by simp⟩

theorem runHandler_log (w : World) (k : Handler) :
    ∃ pops, (w.runHandler k).log = w.log ++ pops ∧ ∀ e ∈ pops, IsPop e := by
  unfold runHandler
  cases k.body with
  | remove => exact ⟨[], (List.append_nil _).symm, by simp⟩
  | removeThenPop => exact popCaptured_log (w.remove k.owner k.captured) k.captured
  | popThenRemove => exact popCaptured_log w k.captured

theorem runHandlers_log (handlers : List Handler) (w : World) :
    ∃ pops, (handlers.foldl runHandler w).log = w.log ++ pops ∧ ∀ e ∈ pops, IsPop e := by
  induction handlers generalizing w with
  | nil => exact ⟨[], (List.append_nil _).symm, by simp⟩
  | cons k rest ih =>
    obtain ⟨pops, hlog, hpops⟩ := runHandler_log w k
    obtain ⟨later, hlater, hpops'⟩ := ih (w.runHandler k)
    refine ⟨pops ++ later, ?_, ?_⟩
    · rw [List.foldl_cons, hlater, hlog, List.append_assoc]
    · intro e he
      rcases List.mem_append.mp he with he | he
      · exact hpops e he
      · exact hpops' e he

theorem accept_log (w : World) (c : ℕ) :
    ∃ pops, (w.accept c).log = w.log ++ [⟨.completed c, w.currentUser⟩] ++ pops ∧
      ∀ e ∈ pops, IsPop e := by
  obtain ⟨pops, hlog, hpops⟩ := runHandlers_log
    ((w.coordinator c).isCompleted.filter (fun k => decide (w.IsAlive k.owner))) (w.fire c)
  exact ⟨pops, hlog, hpops⟩

/-- Kinds and subscriptions to view models. -/
def SameRole (w w' : World) : Prop :=
  ∀ d, (w'.coordinator d).kind = (w.coordinator d).kind ∧
    (w'.coordinator d).listening = (w.coordinator d).listening

theorem runHandlers_role (handlers : List Handler) (w : World) :
    SameRole w (handlers.foldl runHandler w) ∧
      (handlers.foldl runHandler w).currentUser = w.currentUser := by
  induction handlers generalizing w with
  | nil => exact ⟨fun d => ⟨rfl, rfl⟩, rfl⟩
  | cons k rest ih =>
    obtain ⟨hrole, huser⟩ := ih (w.runHandler k)
    refine ⟨?_, huser.trans (runHandler_currentUser w k)⟩
    intro d
    obtain ⟨hkind, hlistening⟩ := hrole d
    rw [List.foldl_cons, hkind, hlistening, runHandler_coordinator]
    split_ifs with hd
    · subst hd
      exact ⟨rfl, rfl⟩
    · exact ⟨rfl, rfl⟩

theorem accept_role (w : World) (c : ℕ) :
    SameRole w (w.accept c) ∧ (w.accept c).currentUser = w.currentUser := by
  obtain ⟨hrole, huser⟩ := runHandlers_role
    ((w.coordinator c).isCompleted.filter (fun k => decide (w.IsAlive k.owner))) (w.fire c)
  refine ⟨?_, huser⟩
  intro d
  obtain ⟨hkind, hlistening⟩ := hrole d
  have hfire : ((w.fire c).coordinator d).kind = (w.coordinator d).kind ∧
      ((w.fire c).coordinator d).listening = (w.coordinator d).listening := by
    simp only [fire, World.record, update_coordinator]
    split_ifs with hd
    · subst hd
      exact ⟨rfl, rfl⟩
    · exact ⟨rfl, rfl⟩
  simp only [accept, update_coordinator]
  split_ifs with hd
  · subst hd
    exact ⟨hkind.trans hfire.1, hlistening.trans hfire.2⟩
  · exact ⟨hkind.trans hfire.1, hlistening.trans hfire.2⟩

end Mber.CoordinatorLaws
