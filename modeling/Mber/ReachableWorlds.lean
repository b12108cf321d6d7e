import Mber.CoordinatorLaws

/-!
What every world that the app can reach satisfies: numbers are given out in
order, references point to coordinators that exist, and the navigation stack is
never empty.
-/
namespace Mber.CoordinatorLaws

open Coordinators World Lifetimes

variable {w : World} {c p : ℕ}

/-- Numbers are given out in order, and every reference is to a number given out. -/
structure Numbered (w : World) : Prop where
  app : 0 < w.next
  fresh : ∀ c, w.next ≤ c → w.coordinator c = { kind := .app }
  children : ∀ c d, some d ∈ (w.coordinator c).childCoordinators → d < w.next
  owners : ∀ c, ∀ k ∈ (w.coordinator c).isCompleted, k.owner < w.next

structure WellFormed (w : World) : Prop where
  numbered : Numbered w
  screens : w.stack ≠ []

theorem Numbered.of_eq {w' : World} (h : Numbered w) (hnext : w'.next = w.next)
    (hcoordinator : w'.coordinator = w.coordinator) : Numbered w' := by
  obtain ⟨happ, hfresh, hchildren, howners⟩ := h
  constructor <;> rw [hnext]
  · exact happ
  · rwa [hcoordinator]
  · rwa [hcoordinator]
  · rwa [hcoordinator]

theorem Numbered.update (h : Numbered w) (hc : c < w.next) (f : Coordinator → Coordinator)
    (hchildren : ∀ d, some d ∈ (f (w.coordinator c)).childCoordinators → d < w.next)
    (howners : ∀ k ∈ (f (w.coordinator c)).isCompleted, k.owner < w.next) :
    Numbered (w.update c f) := by
  refine ⟨h.app, ?_, ?_, ?_⟩
  · intro d hd
    have hne : d ≠ c := by
      have hlt : c < d := Nat.lt_of_lt_of_le hc hd
      omega
    rw [update_coordinator, if_neg hne]
    exact h.fresh d hd
  · intro d e he
    rw [update_coordinator] at he
    split_ifs at he
    · exact hchildren e he
    · exact h.children d e he
  · intro d k hk
    rw [update_coordinator] at hk
    split_ifs at hk
    · exact howners k hk
    · exact h.owners d k hk

theorem Numbered.create (h : Numbered w) (kind : Kind) : Numbered (w.create kind) := by
  refine ⟨Nat.succ_pos _, ?_, ?_, ?_⟩
  · intro d hd
    have hlt : w.next < d := hd
    rw [create_coordinator, if_neg (by omega)]
    exact h.fresh d (by omega)
  · intro d e he
    rw [create_coordinator] at he
    split_ifs at he
    · simp at he
    · exact Nat.lt_succ_of_lt (h.children d e he)
  · intro d k hk
    rw [create_coordinator] at hk
    split_ifs at hk
    · simp at hk
    · exact Nat.lt_succ_of_lt (h.owners d k hk)

theorem Numbered.add (h : Numbered w) (hp : p < w.next) (hc : c < w.next) :
    Numbered (w.add p c) := by
  apply h.update hp
  · intro d hd
    rcases List.mem_append.mp hd with hold | hnew
    · exact h.children p d hold
    · obtain rfl : d = c := by simpa using hnew
      exact hc
  · exact h.owners p

theorem Numbered.remove (h : Numbered w) (hp : p < w.next) (child : Option ℕ) :
    Numbered (w.remove p child) :=
  h.update hp _ (fun d hd => h.children p d (List.mem_of_mem_filter hd)) (h.owners p)

theorem Numbered.subscribe (h : Numbered w) (hc : c < w.next) {k : Handler}
    (hk : k.owner < w.next) : Numbered (w.subscribe c k) := by
  apply h.update hc _ (h.children c)
  intro l hl
  rcases List.mem_append.mp hl with hold | hnew
  · exact h.owners c l hold
  · obtain rfl := List.mem_singleton.mp hnew
    exact hk

theorem Numbered.pop (h : Numbered w) : Numbered w.popViewController :=
  h.of_eq (popViewController_fields w).1 (popViewController_fields w).2.1

theorem Numbered.runHandler (h : Numbered w) {k : Handler} (hk : k.owner < w.next) :
    Numbered (w.runHandler k) := by
  have hpop : ∀ v : World, Numbered v → Numbered (v.popCaptured k.captured) := by
    intro v hv
    unfold popCaptured
    split_ifs
    · exact hv.pop
    · exact hv
  unfold World.runHandler
  cases k.body with
  | remove => exact h.remove hk _
  | removeThenPop => exact hpop _ (h.remove hk _)
  | popThenRemove =>
    refine (hpop w h).remove ?_ _
    unfold popCaptured
    split_ifs
    · rwa [(popViewController_fields w).1]
    · exact hk

theorem Numbered.runHandlers (h : Numbered w) (handlers : List Handler)
    (hk : ∀ k ∈ handlers, k.owner < w.next) :
    Numbered (handlers.foldl World.runHandler w) ∧
      (handlers.foldl World.runHandler w).next = w.next := by
  induction handlers generalizing w with
  | nil => exact ⟨h, rfl⟩
  | cons k rest ih =>
    have hnext := runHandler_next w k
    obtain ⟨hfinal, heq⟩ := ih (h.runHandler (hk k List.mem_cons_self))
      (fun l hl => by rw [hnext]; exact hk l (List.mem_cons_of_mem k hl))
    exact ⟨hfinal, heq.trans hnext⟩

theorem Numbered.accept (h : Numbered w) (hc : c < w.next) :
    Numbered (w.accept c) ∧ (w.accept c).next = w.next := by
  let handlers := (w.coordinator c).isCompleted.filter (fun k => decide (w.IsAlive k.owner))
  have hfire : Numbered (w.fire c) :=
    (h.update hc (fun d => { d with fired := true }) (h.children c) (h.owners c)).of_eq rfl rfl
  have howners : ∀ k ∈ handlers, k.owner < w.next :=
    fun k hk => h.owners c k (List.mem_of_mem_filter hk)
  obtain ⟨hrun, hnext⟩ := hfire.runHandlers handlers howners
  have hnext' : (handlers.foldl World.runHandler (w.fire c)).next = w.next := hnext
  refine ⟨hrun.update (by rwa [hnext']) (fun d =>
    { d with isCompleted := handlers.map (fun k => { k with captured := none }) })
    (hrun.children c) ?_, hnext'⟩
  intro l hl
  obtain ⟨k, hk, rfl⟩ := List.mem_map.mp hl
  rw [hnext']
  exact howners k hk

theorem Numbered.beginStart (h : Numbered w) (hc : c < w.next) : Numbered (w.beginStart c) :=
  (h.update hc (fun d => { d with started := true }) (h.children c) (h.owners c)).of_eq rfl rfl

theorem Numbered.bindAndPush (h : Numbered w) (hc : c < w.next) (vc : ViewController) :
    Numbered (w.bindAndPush c vc) :=
  (h.update hc (fun d => { d with listening := true }) (h.children c) (h.owners c)).of_eq rfl rfl

/-- A coordinator is created, added and given a completion handler. -/
theorem Numbered.child (h : Numbered w) (hp : p < w.next) (kind : Kind) {k : Handler}
    (hk : k.owner < w.next) :
    Numbered ((w.create kind).add p w.next) ∧
      Numbered (((w.create kind).add p w.next).subscribe w.next k) := by
  have hadd : Numbered ((w.create kind).add p w.next) :=
    (h.create kind).add (Nat.lt_succ_of_lt hp) (Nat.lt_succ_self _)
  exact ⟨hadd, hadd.subscribe (Nat.lt_succ_self _) (Nat.lt_succ_of_lt hk)⟩

theorem Numbered.homeStart (h : Numbered w) (hc : c < w.next) :
    Numbered (HomeCoordinator.start w c) :=
  (h.beginStart hc).bindAndPush hc _

theorem Numbered.loginStart (h : Numbered w) (hc : c < w.next) :
    Numbered (LoginCoordinator.start w c) := by
  unfold LoginCoordinator.start
  have hbegin := h.beginStart hc
  split_ifs
  · exact (hbegin.child hc .home hc).2.homeStart (Nat.lt_succ_self _)
  · exact hbegin.bindAndPush hc _

theorem Numbered.record (h : Numbered w) (e : Effect) : Numbered (w.record e) := h.of_eq rfl rfl

theorem numbered_launched (currentUser : Option Firebase.Uid) : Numbered (launched currentUser) := by
  have hinit : Numbered { currentUser } :=
    ⟨Nat.one_pos, fun c _ => rfl, fun c d hd => by simp at hd, fun c k hk => by simp at hk⟩
  exact ((hinit.child Nat.one_pos .login Nat.one_pos).2.loginStart (Nat.lt_succ_self _)).record _

/-- A coordinator that hears its view model has been created. -/
theorem Numbered.lt_of_hears (h : Numbered w) {kind : Kind} (hc : w.Hears kind c) :
    c < w.next := by
  by_contra hge
  have hblank := h.fresh c (by omega)
  have hlistening := hc.2.1
  simp [hblank] at hlistening

theorem numbered_step (h : Numbered w) (e : Event) : Numbered (w.step e) := by
  cases e with
  | isLoginCompleted c success =>
    simp only [step, isLoginCompleted]
    split_ifs with hears
    · have hc := h.lt_of_hears hears
      obtain ⟨haccept, hnext⟩ := h.accept hc
      have hchild := (haccept.child (p := c) (by rwa [hnext]) .home (k := ⟨c, .remove, none⟩)
        (by rwa [hnext])).1
      exact (hchild.homeStart (Nat.lt_succ_self _)).record _
    · exact h
  | goToRegisterButtonTapped c =>
    simp only [step, goToRegisterButtonTapped]
    split_ifs with hears
    · have hc := h.lt_of_hears hears
      have hchild := (h.child hc .registration (k := ⟨c, .popThenRemove, some w.next⟩) hc).2
      exact (hchild.beginStart (Nat.lt_succ_self _)).bindAndPush (Nat.lt_succ_self _) _
    · exact h
  | goToLoginPageButtonTapped c =>
    simp only [step, goToLoginPageButtonTapped]
    split_ifs with hears
    · exact (h.accept (h.lt_of_hears hears)).1
    · exact h
  | isRegistered c success =>
    simp only [step, isRegistered]
    split_ifs with hears
    · have hc := h.lt_of_hears hears.1
      have hadd := (h.child (p := c) hc .home (k := ⟨c, .remove, none⟩) hc).1
      obtain ⟨haccept, hnext⟩ := hadd.accept (c := c) (Nat.lt_succ_of_lt hc)
      have hhome : w.next < (((w.create .home).add c w.next).accept c).next := by
        rw [hnext]
        exact Nat.lt_succ_self _
      have hsubscribe := haccept.subscribe hhome (k := ⟨c, .remove, some w.next⟩)
        (Nat.lt_trans hc hhome)
      exact (hsubscribe.homeStart hhome).record _
    · exact h
  | logoutButtonTapped c signedOut =>
    simp only [step, logoutButtonTapped]
    split_ifs with hears
    · have hc := h.lt_of_hears hears.1
      have hout : Numbered w.signOut := h.of_eq rfl rfl
      obtain ⟨haccept, hnext⟩ := hout.accept (c := c) hc
      have hc' : c < (w.signOut.accept c).next := by rwa [hnext]
      have hchild := (haccept.child hc' .login
        (k := ⟨c, .remove, some (w.signOut.accept c).next⟩) hc').2
      exact (hchild.loginStart (Nat.lt_succ_self _)).record _
    · exact h
  | sessionChanged currentUser => exact h.of_eq rfl rfl

/-- A pop keeps the root and does not make the stack longer. -/
theorem popViewController_stack (w : World) :
    w.popViewController.stack.head? = w.stack.head? ∧
      w.popViewController.stack.length ≤ w.stack.length := by
  rcases popViewController_cases w with hsame | ⟨front, vc, hne, hstack, hpop⟩
  · rw [hsame]
    exact ⟨rfl, Nat.le_refl _⟩
  · obtain ⟨root, rest, rfl⟩ := List.exists_cons_of_ne_nil hne
    rw [hpop, hstack]
    simp [World.record]

theorem runHandler_stack (w : World) (k : Handler) :
    (w.runHandler k).stack.head? = w.stack.head? ∧
      (w.runHandler k).stack.length ≤ w.stack.length := by
  have hpop : ∀ v : World, (v.popCaptured k.captured).stack.head? = v.stack.head? ∧
      (v.popCaptured k.captured).stack.length ≤ v.stack.length := by
    intro v
    unfold popCaptured
    split_ifs
    · exact popViewController_stack v
    · exact ⟨rfl, Nat.le_refl _⟩
  unfold runHandler
  cases k.body with
  | remove => exact ⟨rfl, Nat.le_refl _⟩
  | removeThenPop => exact hpop (w.remove k.owner k.captured)
  | popThenRemove => exact hpop w

theorem accept_stack (w : World) (c : ℕ) :
    (w.accept c).stack.head? = w.stack.head? ∧
      (w.accept c).stack.length ≤ w.stack.length := by
  have hrun : ∀ (handlers : List Handler) (v : World),
      (handlers.foldl runHandler v).stack.head? = v.stack.head? ∧
        (handlers.foldl runHandler v).stack.length ≤ v.stack.length := by
    intro handlers
    induction handlers with
    | nil => exact fun v => ⟨rfl, Nat.le_refl _⟩
    | cons k rest ih =>
      intro v
      obtain ⟨hroot, hlength⟩ := ih (v.runHandler k)
      obtain ⟨hroot', hlength'⟩ := runHandler_stack v k
      exact ⟨hroot.trans hroot', Nat.le_trans hlength hlength'⟩
  exact hrun _ (w.fire c)

/-- Handlers that only remove leave the stack as it is. -/
theorem accept_stack_of_remove (w : World) (c : ℕ)
    (hremove : ∀ k ∈ (w.coordinator c).isCompleted, k.body = .remove) :
    (w.accept c).stack = w.stack := by
  have hrun : ∀ (handlers : List Handler) (v : World), (∀ k ∈ handlers, k.body = .remove) →
      (handlers.foldl runHandler v).stack = v.stack := by
    intro handlers
    induction handlers with
    | nil => exact fun v _ => rfl
    | cons k rest ih =>
      intro v hall
      have hone : (v.runHandler k).stack = v.stack := by
        simp only [runHandler, hall k List.mem_cons_self]
        rfl
      rw [List.foldl_cons, ih _ fun l hl => hall l (List.mem_cons_of_mem k hl), hone]
  exact hrun _ (w.fire c) fun k hk => hremove k (List.mem_of_mem_filter hk)

theorem push_root {stack : List ViewController} {root : ViewController}
    (h : stack.head? = some root) (vc : ViewController) :
    (stack ++ [vc]).head? = some root := by
  simp [List.head?_append, h]

/-- A login coordinator pushes Home or its own screen. -/
theorem loginStart_stack (w : World) (c : ℕ) : ∃ vc,
    (LoginCoordinator.start w c).stack = w.stack ++ [vc] := by
  unfold LoginCoordinator.start
  split_ifs
  · exact ⟨.home w.next, rfl⟩
  · exact ⟨.login c, rfl⟩

/-- Nothing that the app does replaces the root controller. -/
theorem root_step {root : ViewController} (h : w.stack.head? = some root) (e : Event) :
    (w.step e).stack.head? = some root := by
  cases e with
  | isLoginCompleted c success =>
    simp only [step, isLoginCompleted]
    split_ifs
    · have hpush : ∀ v : World, ((HomeCoordinator.start ((v.create .home).add c v.next)
          v.next).record .window).stack = v.stack ++ [.home v.next] := fun v => rfl
      rw [hpush]
      exact push_root ((accept_stack w c).1.trans h) _
    · exact h
  | goToRegisterButtonTapped c =>
    simp only [step, goToRegisterButtonTapped]
    split_ifs
    · have hpush : (LoginCoordinator.pushRegistrationVC w c).stack =
          w.stack ++ [.registration w.next] := rfl
      rw [hpush]
      exact push_root h _
    · exact h
  | goToLoginPageButtonTapped c =>
    simp only [step, goToLoginPageButtonTapped]
    split_ifs
    · exact (accept_stack w c).1.trans h
    · exact h
  | isRegistered c success =>
    simp only [step, isRegistered]
    split_ifs
    · have hpush : (RegistrationCoordinator.switchToHomeVC w c).stack =
          (((w.create .home).add c w.next).accept c).stack ++ [.home w.next] := rfl
      have haccept : (((w.create .home).add c w.next).accept c).stack.head? = some root :=
        (accept_stack ((w.create .home).add c w.next) c).1.trans h
      rw [hpush]
      exact push_root haccept _
    · exact h
  | logoutButtonTapped c signedOut =>
    simp only [step, logoutButtonTapped]
    split_ifs
    · obtain ⟨vc, hpush⟩ := loginStart_stack ((((w.signOut.accept c).create .login).add c
        (w.signOut.accept c).next).subscribe (w.signOut.accept c).next
          ⟨c, .remove, some (w.signOut.accept c).next⟩) (w.signOut.accept c).next
      have hswitch : (HomeCoordinator.switchToLoginVC (w.signOut.accept c) c).stack =
          (w.signOut.accept c).stack ++ [vc] := hpush
      have haccept : (w.signOut.accept c).stack.head? = some root :=
        (accept_stack w.signOut c).1.trans h
      rw [hswitch]
      exact push_root haccept _
    · exact h
  | sessionChanged currentUser => exact h

theorem wellFormed_launched (currentUser : Option Firebase.Uid) :
    WellFormed (launched currentUser) := by
  refine ⟨numbered_launched currentUser, ?_⟩
  cases currentUser <;> exact List.cons_ne_nil _ _

theorem wellFormed_step (h : WellFormed w) (e : Event) : WellFormed (w.step e) := by
  refine ⟨numbered_step h.numbered e, ?_⟩
  obtain ⟨root, rest, hstack⟩ := List.exists_cons_of_ne_nil h.screens
  have hroot : (w.step e).stack.head? = some root := root_step (by rw [hstack]; rfl) e
  intro hnil
  simp [hnil] at hroot

/-- Every world that the app can reach is well formed. -/
theorem wellFormed_run (currentUser : Option Firebase.Uid) (events : List Event) :
    WellFormed (Runs.run step (launched currentUser) events) :=
  Runs.run_invariant WellFormed (fun _ e h => wellFormed_step h e) _ events
    (wellFormed_launched currentUser)

end Mber.CoordinatorLaws
