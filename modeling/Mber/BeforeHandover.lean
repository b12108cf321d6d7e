import Mber.ReachableWorlds
import Mber.Runs

/-!
The app before the first handover. Launched while signed in it shows Home and
hears nothing but the logout button. Launched while signed out it shows the
login screen, over which registration screens come and go. A handover is an
event after which another kind of coordinator takes over: a value of
isLoginCompleted, a successful registration, a successful logout.
-/
namespace Mber.BeforeHandover

open Coordinators World CoordinatorLaws

/-- A successful login or registration that is heard. -/
def EntersHome (w : World) : Event → Prop
  | .isLoginCompleted c _ => w.Hears .login c
  | .isRegistered c success => w.Hears .registration c ∧ success = true
  | _ => False

/-- A successful logout that is heard. -/
def LogsOut (w : World) : Event → Prop
  | .logoutButtonTapped c signedOut => w.Hears .home c ∧ signedOut = true
  | _ => False

def Handover (w : World) (e : Event) : Prop := EntersHome w e ∨ LogsOut w e

instance (w : World) (e : Event) : Decidable (EntersHome w e) := by
  unfold EntersHome
  cases e <;> infer_instance

instance (w : World) (e : Event) : Decidable (LogsOut w e) := by
  unfold LogsOut
  cases e <;> infer_instance

instance (w : World) (e : Event) : Decidable (Handover w e) := by
  unfold Handover
  infer_instance

/-- A coordinator opened by `pushRegistrationVC` of coordinator 1, still open or closed. -/
def openRegistration (r : ℕ) : Coordinator where
  kind := .registration
  isCompleted := [⟨1, .popThenRemove, some r⟩]
  started := true
  listening := true

def closedRegistration : Coordinator where
  kind := .registration
  isCompleted := [⟨1, .popThenRemove, none⟩]
  started := true
  listening := true
  fired := true

/-- Signed out: coordinator 1 shows the login screen and owns the open registrations. -/
structure LoginPhase (w : World) (opened : List ℕ) : Prop where
  app : w.coordinator 0 = { kind := .app, childCoordinators := [some 1] }
  login : w.coordinator 1 = {
    kind := .login
    childCoordinators := opened.map some
    isCompleted := [⟨0, .remove, some 1⟩]
    started := true
    listening := true }
  next_ge : 2 ≤ w.next
  nodup : opened.Nodup
  opened_range : ∀ r ∈ opened, 2 ≤ r ∧ r < w.next
  opened_eq : ∀ r ∈ opened, w.coordinator r = openRegistration r
  closed_eq : ∀ r, 2 ≤ r → r < w.next → r ∉ opened → w.coordinator r = closedRegistration
  fresh : ∀ c, w.next ≤ c → w.coordinator c = { kind := .app }
  stack_eq : ∃ rest, w.stack = .login 1 :: rest ∧ ∀ vc ∈ rest, ∃ r, vc = .registration r

/-- Signed in at launch: coordinator 1 has handed over to Home, which is the root. -/
structure HomePhase (w : World) : Prop where
  app : w.coordinator 0 = { kind := .app, childCoordinators := [some 1] }
  login : w.coordinator 1 = {
    kind := .login
    childCoordinators := [some 2]
    isCompleted := [⟨0, .remove, some 1⟩]
    started := true }
  home : w.coordinator 2 = {
    kind := .home
    isCompleted := [⟨1, .removeThenPop, some 2⟩]
    started := true
    listening := true }
  next_eq : w.next = 3
  fresh : ∀ c, 3 ≤ c → w.coordinator c = { kind := .app }
  stack_eq : w.stack = [.home 2]

def NoHandoverYet (w : World) : Prop := (∃ opened, LoginPhase w opened) ∨ HomePhase w

theorem noHandoverYet_launched (currentUser : Option Firebase.Uid) :
    NoHandoverYet (launched currentUser) := by
  have hfresh := (numbered_launched currentUser).fresh
  cases currentUser with
  | none =>
    refine Or.inl ⟨[], rfl, rfl, Nat.le_refl 2, List.nodup_nil, by simp, by simp, ?_, hfresh,
      [], rfl, by simp⟩
    intro r hge hlt
    have hnext : (launched none).next = 2 := rfl
    omega
  | some uid => exact Or.inr ⟨rfl, rfl, rfl, rfl, hfresh, rfl⟩

variable {w : World} {opened : List ℕ} {c : ℕ}

theorem LoginPhase.kind_cases (h : LoginPhase w opened) (hlistening :
    (w.coordinator c).listening = true) :
    c = 1 ∨ (2 ≤ c ∧ c < w.next ∧ (w.coordinator c).kind = .registration) := by
  have h0 : c ≠ 0 := by
    rintro rfl
    simp [h.app] at hlistening
  have hlt : c < w.next := by
    by_contra hge
    simp [h.fresh c (by omega)] at hlistening
  by_cases h1 : c = 1
  · exact Or.inl h1
  · refine Or.inr ⟨by omega, hlt, ?_⟩
    by_cases hopen : c ∈ opened
    · rw [h.opened_eq c hopen]
      rfl
    · rw [h.closed_eq c (by omega) hlt hopen]
      rfl

theorem LoginPhase.hears_login (h : LoginPhase w opened) (hears : w.Hears .login c) : c = 1 := by
  rcases h.kind_cases hears.2.1 with h1 | ⟨-, -, hkind⟩
  · exact h1
  · rw [hears.1] at hkind
    simp at hkind

theorem LoginPhase.not_hears_home (h : LoginPhase w opened) : ¬ w.Hears .home c := by
  intro hears
  rcases h.kind_cases hears.2.1 with rfl | ⟨-, -, hkind⟩
  · have hkind := hears.1
    simp [h.login] at hkind
  · rw [hears.1] at hkind
    simp at hkind

theorem LoginPhase.alive_login (h : LoginPhase w opened) : w.IsAlive 1 := by
  apply isAlive_child Nat.one_pos (isAlive_app w)
  simp [h.app]

theorem LoginPhase.hears_self (h : LoginPhase w opened) : w.Hears .login 1 :=
  ⟨by rw [h.login], by rw [h.login], h.alive_login⟩

/-- A registration coordinator is in no other list than that of coordinator 1. -/
theorem LoginPhase.child_iff (h : LoginPhase w opened) {p : ℕ} (hp : p ≠ 0) :
    some c ∈ (w.coordinator p).childCoordinators ↔ p = 1 ∧ c ∈ opened := by
  by_cases h1 : p = 1
  · subst h1
    simp [h.login]
  · simp only [h1, false_and, iff_false]
    by_cases hlt : p < w.next
    · by_cases hopen : p ∈ opened
      · simp [h.opened_eq p hopen, openRegistration]
      · simp [h.closed_eq p (by omega) hlt hopen, closedRegistration]
    · simp [h.fresh p (by omega)]

theorem LoginPhase.hears_registration (h : LoginPhase w opened)
    (hears : w.Hears .registration c) : c ∈ opened := by
  rcases h.kind_cases hears.2.1 with rfl | ⟨hge, hlt, -⟩
  · have hkind := hears.1
    simp [h.login] at hkind
  · by_contra hclosed
    refine not_isAlive (by omega) ?_ ?_ ?_ hears.2.2
    · rw [hears.1]
      simp
    · intro p _ hchild
      by_cases h0 : p = 0
      · subst h0
        simp [h.app] at hchild
        omega
      · exact hclosed ((h.child_iff h0).mp hchild).2
    · rw [h.closed_eq c hge hlt hclosed]
      simp [closedRegistration]

/-- One more registration screen. -/
theorem LoginPhase.push (h : LoginPhase w opened) :
    LoginPhase (LoginCoordinator.pushRegistrationVC w 1) (opened ++ [w.next]) := by
  obtain ⟨happ, hlogin, hge, hnodup, hrange, hopened, hclosed, hfresh, rest, hstack, hrest⟩ := h
  have hcoordinator := pushRegistrationVC_coordinator w (c := 1) (by omega)
  have hnext : (LoginCoordinator.pushRegistrationVC w 1).next = w.next + 1 := rfl
  have hfree : w.next ∉ opened := fun hmem => absurd (hrange w.next hmem).2 (by omega)
  constructor
  · rw [hcoordinator 0, if_neg (by omega), if_neg (by omega), happ]
  · rw [hcoordinator 1, if_neg (by omega), if_pos rfl, hlogin]
    simp
  · omega
  · rw [List.nodup_append]
    refine ⟨hnodup, by simp, ?_⟩
    rintro a ha b hb rfl
    exact hfree (List.mem_singleton.mp hb ▸ ha)
  · intro r hr
    rw [hnext]
    rcases List.mem_append.mp hr with hr | hr
    · have hlt := hrange r hr
      omega
    · have heq := List.mem_singleton.mp hr
      omega
  · intro r hr
    rw [hcoordinator r]
    rcases List.mem_append.mp hr with hr | hr
    · have hlt := hrange r hr
      rw [if_neg (by omega), if_neg (by omega)]
      exact hopened r hr
    · obtain rfl := List.mem_singleton.mp hr
      rw [if_pos rfl]
      rfl
  · intro r hge' hlt hnot
    rw [hnext] at hlt
    simp only [List.mem_append, List.mem_singleton, not_or] at hnot
    rw [hcoordinator r, if_neg hnot.2, if_neg (by omega)]
    exact hclosed r hge' (by omega) hnot.1
  · intro d hd
    rw [hnext] at hd
    rw [hcoordinator d, if_neg (by omega), if_neg (by omega)]
    exact hfresh d (by omega)
  · refine ⟨rest ++ [.registration w.next], ?_, ?_⟩
    · have hpush : (LoginCoordinator.pushRegistrationVC w 1).stack =
          w.stack ++ [.registration w.next] := rfl
      rw [hpush, hstack]
      rfl
    · intro vc hvc
      rcases List.mem_append.mp hvc with hvc | hvc
      · exact hrest vc hvc
      · exact ⟨w.next, List.mem_singleton.mp hvc⟩

/-- A registration coordinator that is heard is held by coordinator 1. -/
theorem LoginPhase.opened_of_hears (h : LoginPhase w opened)
    (hears : w.Hears .registration c) : 2 ≤ c ∧ c < w.next ∧
      (w.coordinator c).isCompleted = [⟨1, .popThenRemove, some c⟩] := by
  have hopen := h.hears_registration hears
  refine ⟨(h.opened_range c hopen).1, (h.opened_range c hopen).2, ?_⟩
  rw [h.opened_eq c hopen]
  rfl

theorem map_some_filter (hnodup : opened.Nodup) :
    (opened.map some).filter (fun e => decide (e ≠ some c)) = (opened.erase c).map some := by
  rw [hnodup.erase_eq_filter, List.filter_map]
  congr 1
  apply List.filter_congr
  intro a _
  by_cases hac : a = c <;> simp [hac]

/-- Going back from one registration screen. -/
theorem LoginPhase.goBack (h : LoginPhase w opened) (hears : w.Hears .registration c) :
    LoginPhase (w.accept c) (opened.erase c) := by
  obtain ⟨hge, hlt, hhandler⟩ := h.opened_of_hears hears
  have hdone := accept_completed hhandler h.alive_login (by simp; omega)
  have hopen := h.hears_registration hears
  have hchildren : (w.accept c).coordinator 1 = { w.coordinator 1 with
      childCoordinators := (opened.erase c).map some } := by
    rw [hdone.owner, h.login]
    simp only [map_some_filter h.nodup]
  have hother : ∀ d, d ≠ c → d ≠ 1 → (w.accept c).coordinator d = w.coordinator d :=
    fun d hd hd1 => hdone.other d hd hd1
  obtain ⟨rest, hstack, hrest⟩ := h.stack_eq
  constructor
  · rw [hother 0 (by omega) (by omega), h.app]
  · rw [hchildren, h.login]
  · rw [hdone.next_eq]
    exact h.next_ge
  · exact h.nodup.erase c
  · intro r hr
    rw [hdone.next_eq]
    exact h.opened_range r (List.mem_of_mem_erase hr)
  · intro r hr
    obtain ⟨hne, hr'⟩ := h.nodup.mem_erase_iff.mp hr
    rw [hother r hne (by have := h.opened_range r hr'; omega)]
    exact h.opened_eq r hr'
  · intro r hge' hlt' hnot
    rw [hdone.next_eq] at hlt'
    by_cases hrc : r = c
    · subst hrc
      rw [hdone.fired, h.opened_eq r hopen]
      rfl
    · rw [hother r hrc (by omega)]
      exact h.closed_eq r hge' hlt' fun hmem => hnot (h.nodup.mem_erase_iff.mpr ⟨hrc, hmem⟩)
  · intro d hd
    rw [hdone.next_eq] at hd
    rw [hother d (by omega) (by have := h.next_ge; omega)]
    exact h.fresh d hd
  · rcases List.eq_nil_or_concat rest with hnil | ⟨front, vc, hlast⟩
    · have hroot : w.stack = [.login 1] := by rw [hstack, hnil]
      obtain ⟨hstack', -⟩ := accept_pop_root hhandler h.alive_login (by simp) (by simp) hroot
      exact ⟨[], hstack', by simp⟩
    · have htop : w.stack = (.login 1 :: front) ++ [vc] := by rw [hstack, hlast]; simp
      obtain ⟨hstack', -⟩ := accept_pop hhandler h.alive_login (by simp) (by simp) htop (by simp)
      refine ⟨front, hstack', ?_⟩
      intro v hv
      exact hrest v (by rw [hlast]; simp [hv])

theorem HomePhase.hears (h : HomePhase w) {kind : Kind} (hears : w.Hears kind c) :
    c = 2 ∧ kind = .home := by
  have h2 : c = 2 := by
    have hlistening := hears.2.1
    by_contra hne
    rcases Nat.lt_or_ge c 3 with hlt | hge
    · have h01 : c = 0 ∨ c = 1 := by omega
      rcases h01 with rfl | rfl
      · simp [h.app] at hlistening
      · simp [h.login] at hlistening
    · simp [h.fresh c hge] at hlistening
  subst h2
  refine ⟨rfl, ?_⟩
  have hkind := hears.1
  rw [h.home] at hkind
  exact hkind.symm

theorem noHandoverYet_step (h : NoHandoverYet w) (e : Event) (hno : ¬ Handover w e) :
    NoHandoverYet (w.step e) := by
  simp only [Handover, not_or] at hno
  cases e with
  | isLoginCompleted c success =>
    have hnot : ¬ w.Hears .login c := hno.1
    simpa [step, isLoginCompleted, hnot] using h
  | isRegistered c success =>
    have hnot : ¬ (w.Hears .registration c ∧ success = true) := hno.1
    simp only [step, isRegistered, hnot, if_false]
    exact h
  | logoutButtonTapped c signedOut =>
    have hnot : ¬ (w.Hears .home c ∧ signedOut = true) := hno.2
    simp only [step, logoutButtonTapped, hnot, if_false]
    exact h
  | sessionChanged currentUser =>
    rcases h with ⟨opened, h⟩ | h
    · obtain ⟨happ, hlogin, hge, hnodup, hrange, hopened, hclosed, hfresh, hstack⟩ := h
      exact Or.inl ⟨opened, happ, hlogin, hge, hnodup, hrange, hopened, hclosed, hfresh, hstack⟩
    · obtain ⟨happ, hlogin, hhome, hnext, hfresh, hstack⟩ := h
      exact Or.inr ⟨happ, hlogin, hhome, hnext, hfresh, hstack⟩
  | goToRegisterButtonTapped c =>
    simp only [step, goToRegisterButtonTapped]
    split_ifs with hears
    · rcases h with ⟨opened, h⟩ | h
      · obtain rfl := h.hears_login hears
        exact Or.inl ⟨_, h.push⟩
      · simpa using (h.hears hears).2
    · exact h
  | goToLoginPageButtonTapped c =>
    simp only [step, goToLoginPageButtonTapped]
    split_ifs with hears
    · rcases h with ⟨opened, h⟩ | h
      · exact Or.inl ⟨_, h.goBack hears⟩
      · simpa using (h.hears hears).2
    · exact h

end Mber.BeforeHandover
