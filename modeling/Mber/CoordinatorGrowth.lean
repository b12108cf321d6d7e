import Mber.ReachableWorlds

/-!
Who holds a login or registration coordinator. It is held by the one that has
created it until it fires, and then nobody refers to it. Whatever adds and
starts coordinators keeps this so, and so does whatever fires one.
-/
namespace Mber.CoordinatorLifecycles

open Coordinators World CoordinatorLaws Lifetimes

variable {w v u : World} {c p : ℕ}

/-- One older coordinator refers to it, in its list of children or through the
variable that the one handler has captured. -/
def Held (w : World) (c : ℕ) : Prop :=
  ∃ p body, p < c ∧ (∀ q, some c ∈ (w.coordinator q).childCoordinators → q = p) ∧
    (w.coordinator c).isCompleted = [⟨p, body, some c⟩]

/-- Nobody refers to it. -/
def Dropped (w : World) (c : ℕ) : Prop :=
  (∀ q, some c ∉ (w.coordinator q).childCoordinators) ∧
    ∀ k ∈ (w.coordinator c).isCompleted, k.captured ≠ some c

def Kept (w : World) (c : ℕ) : Prop :=
  ((w.coordinator c).fired = false ∧ Held w c) ∨ ((w.coordinator c).fired = true ∧ Dropped w c)

/-- The coordinators of the screens that can be left for good. -/
def IsScreen (w : World) (c : ℕ) : Prop :=
  c ≠ 0 ∧ c < w.next ∧ (w.coordinator c).kind ≠ .home

/-- Coordinators have been added and started, and no other reference has changed. -/
structure Grown (w v : World) : Prop where
  next_le : w.next ≤ v.next
  kind : ∀ d, d < w.next → (v.coordinator d).kind = (w.coordinator d).kind
  same : ∀ d, d < w.next → (w.coordinator d).kind ≠ .home →
    (v.coordinator d).isCompleted = (w.coordinator d).isCompleted ∧
      (v.coordinator d).fired = (w.coordinator d).fired
  children : ∀ q d, some d ∈ (v.coordinator q).childCoordinators →
    some d ∈ (w.coordinator q).childCoordinators ∨ w.next ≤ d
  fresh : ∀ d, w.next ≤ d → d < v.next → (v.coordinator d).kind ≠ .home →
    (v.coordinator d).fired = false ∧ Held v d

theorem Grown.refl (w : World) : Grown w w :=
  ⟨Nat.le_refl _, fun _ _ => rfl, fun _ _ _ => ⟨rfl, rfl⟩, fun _ _ hd => .inl hd,
    fun _ _ _ _ => by omega⟩

theorem Grown.trans (h : Grown w v) (h' : Grown v u) : Grown w u := by
  refine ⟨Nat.le_trans h.next_le h'.next_le, ?_, ?_, ?_, ?_⟩
  · intro d hd
    have hdv := Nat.lt_of_lt_of_le hd h.next_le
    exact (h'.kind d hdv).trans (h.kind d hd)
  · intro d hd hhome
    have hdv := Nat.lt_of_lt_of_le hd h.next_le
    obtain ⟨hcomp, hfired⟩ := h.same d hd hhome
    obtain ⟨hcomp', hfired'⟩ := h'.same d hdv (by rwa [h.kind d hd])
    exact ⟨hcomp'.trans hcomp, hfired'.trans hfired⟩
  · intro q d hd
    rcases h'.children q d hd with hold | hnew
    · exact h.children q d hold
    · exact .inr (Nat.le_trans h.next_le hnew)
  · intro d hge hlt hhome
    by_cases hdv : d < v.next
    · have hhome' : (v.coordinator d).kind ≠ .home := by rwa [← h'.kind d hdv]
      obtain ⟨hfired, p, body, hp, honly, hcomp⟩ := h.fresh d hge hdv hhome'
      obtain ⟨hcomp', hfired'⟩ := h'.same d hdv hhome'
      refine ⟨hfired'.trans hfired, p, body, hp, ?_, hcomp'.trans hcomp⟩
      intro q hq
      rcases h'.children q d hq with hold | hnew
      · exact honly q hold
      · omega
    · exact h'.fresh d (by omega) hlt hhome

theorem grown_of_eq (hnext : v.next = w.next) (hcoordinator : v.coordinator = w.coordinator) :
    Grown w v := by
  refine ⟨Nat.le_of_eq hnext.symm, ?_, ?_, ?_, ?_⟩
  · intro d _
    rw [hcoordinator]
  · intro d _ _
    rw [hcoordinator]
    exact ⟨rfl, rfl⟩
  · intro q d hd
    rw [hcoordinator] at hd
    exact .inl hd
  · intro d hge hlt
    omega

/-- A change to one coordinator that concerns neither its children nor, unless
it is a HomeCoordinator, its completion. -/
theorem grown_update (w : World) (c : ℕ) (f : Coordinator → Coordinator)
    (hkind : (f (w.coordinator c)).kind = (w.coordinator c).kind)
    (hsame : (w.coordinator c).kind ≠ .home →
      (f (w.coordinator c)).isCompleted = (w.coordinator c).isCompleted ∧
        (f (w.coordinator c)).fired = (w.coordinator c).fired)
    (hchild : (f (w.coordinator c)).childCoordinators = (w.coordinator c).childCoordinators) :
    Grown w (w.update c f) := by
  refine ⟨Nat.le_refl _, ?_, ?_, ?_, ?_⟩
  · intro d _
    rw [update_coordinator]
    split_ifs with hd
    · subst hd
      exact hkind
    · rfl
  · intro d _ hhome
    rw [update_coordinator]
    split_ifs with hd
    · subst hd
      exact hsame hhome
    · exact ⟨rfl, rfl⟩
  · intro q d hd
    rw [update_coordinator] at hd
    left
    split_ifs at hd with hq
    · subst hq
      rwa [hchild] at hd
    · exact hd
  · intro d hge hlt
    have hnext : (w.update c f).next = w.next := rfl
    omega

theorem grown_begin (w : World) (c : ℕ) : Grown w (w.beginStart c) :=
  (grown_update w c (fun d => { d with started := true }) rfl (fun _ => ⟨rfl, rfl⟩) rfl).trans
    (grown_of_eq rfl rfl)

theorem grown_bind (w : World) (c : ℕ) (vc : ViewController) : Grown w (w.bindAndPush c vc) :=
  (grown_update w c (fun d => { d with listening := true }) rfl (fun _ => ⟨rfl, rfl⟩)
    rfl).trans (grown_of_eq rfl rfl)

theorem grown_subscribe (hhome : (w.coordinator c).kind = .home) (k : Handler) :
    Grown w (w.subscribe c k) :=
  grown_update w c _ rfl (fun hkind => absurd hhome hkind) rfl

/-- A new HomeCoordinator below another coordinator. -/
theorem grown_home (hp : p < w.next) :
    Grown w ((w.create .home).add p w.next) := by
  have hcoordinator := create_add_coordinator w .home (Nat.ne_of_lt hp)
  refine ⟨Nat.le_succ _, ?_, ?_, ?_, ?_⟩
  · intro d hd
    rw [hcoordinator, if_neg (by omega)]
    split_ifs with hdp
    · subst hdp
      rfl
    · rfl
  · intro d hd _
    rw [hcoordinator, if_neg (by omega)]
    split_ifs with hdp
    · subst hdp
      exact ⟨rfl, rfl⟩
    · exact ⟨rfl, rfl⟩
  · intro q d hd
    rw [hcoordinator] at hd
    split_ifs at hd with hq hqp
    · simp at hd
    · subst hqp
      rcases List.mem_append.mp hd with hold | hnew
      · exact .inl hold
      · obtain rfl : d = w.next := by simpa using hnew
        exact .inr (Nat.le_refl _)
    · exact .inl hd
  · intro d hge hlt hkind
    have hd : d = w.next := by
      have hlt' : d < w.next + 1 := hlt
      omega
    rw [hcoordinator, if_pos hd] at hkind
    exact absurd rfl hkind

/-- A new screen below another coordinator, with its completion handler. -/
theorem grown_screen (h : Numbered w) (hp : p < w.next) (kind : Kind) (body : HandlerBody) :
    Grown w (((w.create kind).add p w.next).subscribe w.next ⟨p, body, some w.next⟩) := by
  have hcoordinator : ∀ d, (((w.create kind).add p w.next).subscribe w.next
      ⟨p, body, some w.next⟩).coordinator d =
        if d = w.next then { kind, isCompleted := [⟨p, body, some w.next⟩] }
        else if d = p then { w.coordinator p with
          childCoordinators := (w.coordinator p).childCoordinators ++ [some w.next] }
        else w.coordinator d := by
    intro d
    simp only [subscribe_coordinator, create_add_coordinator w kind (Nat.ne_of_lt hp)]
    by_cases hd : d = w.next <;> simp [hd]
  refine ⟨Nat.le_succ _, ?_, ?_, ?_, ?_⟩
  · intro d hd
    rw [hcoordinator, if_neg (by omega)]
    split_ifs with hdp
    · subst hdp
      rfl
    · rfl
  · intro d hd _
    rw [hcoordinator, if_neg (by omega)]
    split_ifs with hdp
    · subst hdp
      exact ⟨rfl, rfl⟩
    · exact ⟨rfl, rfl⟩
  · intro q d hd
    rw [hcoordinator] at hd
    split_ifs at hd with hq hqp
    · simp at hd
    · subst hqp
      rcases List.mem_append.mp hd with hold | hnew
      · exact .inl hold
      · obtain rfl : d = w.next := by simpa using hnew
        exact .inr (Nat.le_refl _)
    · exact .inl hd
  · intro d hge hlt _
    obtain rfl : d = w.next := by
      have hlt' : d < w.next + 1 := hlt
      omega
    refine ⟨by rw [hcoordinator, if_pos rfl], p, body, hp, ?_, by rw [hcoordinator, if_pos rfl]⟩
    intro q hq
    rw [hcoordinator] at hq
    split_ifs at hq with hqn hqp
    · simp at hq
    · exact hqp
    · exact absurd (h.children q w.next hq) (Nat.lt_irrefl _)

theorem grown_homeStart (w : World) (c : ℕ) : Grown w (HomeCoordinator.start w c) :=
  (grown_begin w c).trans (grown_bind _ c _)

theorem grown_loginStart (w : World) (hc : c < w.next) : Grown w (LoginCoordinator.start w c) := by
  unfold LoginCoordinator.start
  split_ifs
  · have hc' : c < (w.beginStart c).next := hc
    have hkind : (((w.beginStart c).create .home).add c (w.beginStart c).next).coordinator
        (w.beginStart c).next = { kind := .home } := by
      rw [create_add_coordinator _ _ (Nat.ne_of_lt hc'), if_pos rfl]
    have hsubscribe := grown_subscribe
      (w := ((w.beginStart c).create .home).add c (w.beginStart c).next)
      (c := (w.beginStart c).next) (by rw [hkind])
      ⟨c, .removeThenPop, some (w.beginStart c).next⟩
    exact (((grown_begin w c).trans (grown_home hc')).trans hsubscribe).trans (grown_homeStart _ _)
  · exact (grown_begin w c).trans (grown_bind _ c _)

/-- What has been kept before is kept. -/
theorem Grown.kept (h : Grown w v) (hall : ∀ d, IsScreen w d → Kept w d) (hc : IsScreen v c) :
    Kept v c := by
  obtain ⟨h0, hlt, hkind⟩ := hc
  by_cases hold : c < w.next
  · have hkind' : (w.coordinator c).kind ≠ .home := by rwa [← h.kind c hold]
    obtain ⟨hcomp, hfired⟩ := h.same c hold hkind'
    have hchild : ∀ q, some c ∈ (v.coordinator q).childCoordinators →
        some c ∈ (w.coordinator q).childCoordinators := by
      intro q hq
      rcases h.children q c hq with hmem | hnew
      · exact hmem
      · omega
    rcases hall c ⟨h0, hold, hkind'⟩ with ⟨hf, p, body, hp, honly, hk⟩ | ⟨hf, hnone, hcap⟩
    · exact .inl ⟨hfired.trans hf, p, body, hp, fun q hq => honly q (hchild q hq), hcomp.trans hk⟩
    · refine .inr ⟨hfired.trans hf, fun q hq => hnone q (hchild q hq), ?_⟩
      rw [hcomp]
      exact hcap
  · exact .inl (h.fresh c (by omega) hlt hkind)

theorem Grown.fired_eq (h : Grown w v) (hn : Numbered w) (hc : IsScreen v c) :
    (v.coordinator c).fired = (w.coordinator c).fired := by
  obtain ⟨-, hlt, hkind⟩ := hc
  by_cases hold : c < w.next
  · exact (h.same c hold (by rwa [← h.kind c hold])).2
  · rw [(h.fresh c (by omega) hlt hkind).1, hn.fresh c (by omega)]

/-- Handlers only take entries out of lists of children. -/
theorem runHandlers_shrinks (handlers : List Handler) (w : World) (d : ℕ) :
    (∀ x ∈ ((handlers.foldl runHandler w).coordinator d).childCoordinators,
        x ∈ (w.coordinator d).childCoordinators) ∧
      ((handlers.foldl runHandler w).coordinator d).isCompleted = (w.coordinator d).isCompleted ∧
      ((handlers.foldl runHandler w).coordinator d).fired = (w.coordinator d).fired := by
  induction handlers generalizing w with
  | nil => exact ⟨fun _ hx => hx, rfl, rfl⟩
  | cons k rest ih =>
    obtain ⟨hchild, hcomp, hfired⟩ := ih (w.runHandler k)
    have hone := runHandler_coordinator w k d
    rw [List.foldl_cons, hcomp, hfired]
    rw [hone] at hchild ⊢
    split_ifs at hchild ⊢ with hd
    · subst hd
      exact ⟨fun x hx => List.mem_of_mem_filter (hchild x hx), rfl, rfl⟩
    · exact ⟨hchild, rfl, rfl⟩

theorem accept_shrinks (w : World) (c d : ℕ) :
    (∀ x ∈ ((w.accept c).coordinator d).childCoordinators,
        x ∈ (w.coordinator d).childCoordinators) ∧
      (d ≠ c → ((w.accept c).coordinator d).isCompleted = (w.coordinator d).isCompleted) ∧
      ((w.accept c).coordinator d).fired = ((w.coordinator d).fired || decide (d = c)) := by
  obtain ⟨hchild, hcomp, hfired⟩ := runHandlers_shrinks
    ((w.coordinator c).isCompleted.filter (fun k => decide (w.IsAlive k.owner))) (w.fire c) d
  have hfire : (w.fire c).coordinator d =
      if d = c then { w.coordinator c with fired := true } else w.coordinator d :=
    update_coordinator w c (fun e => { e with fired := true }) d
  rw [hfire] at hchild hcomp hfired
  simp only [accept, update_coordinator]
  by_cases hd : d = c
  · subst hd
    simp only [if_true] at hchild hfired ⊢
    exact ⟨hchild, fun hne => absurd rfl hne, by simp [hfired]⟩
  · simp only [hd, if_false] at hchild hcomp hfired ⊢
    exact ⟨hchild, fun _ => hcomp, by simp [hfired]⟩

/-- A live screen has not been dropped; its holder is alive. -/
theorem Kept.holder (h : Kept w c) (hc : IsScreen w c) (halive : w.IsAlive c) :
    (w.coordinator c).fired = false ∧ ∃ p body, p < c ∧ w.IsAlive p ∧
      (∀ q, some c ∈ (w.coordinator q).childCoordinators → q = p) ∧
      (w.coordinator c).isCompleted = [⟨p, body, some c⟩] := by
  obtain ⟨h0, -, hkind⟩ := hc
  rcases h with ⟨hfired, p, body, hp, honly, hcomp⟩ | ⟨-, hnone, hcap⟩
  · refine ⟨hfired, p, body, hp, ?_, honly, hcomp⟩
    rcases alive_iff.mp halive with hroot | ⟨q, -, hq, hheld⟩
    · simp [isRoot, h0, hkind] at hroot
    · simp only [holds, hcomp, Bool.or_eq_true, List.contains_iff_mem, List.any_cons, List.any_nil,
        Bool.or_false, Bool.and_eq_true, beq_iff_eq] at hheld
      rcases hheld with hmem | ⟨rfl, -⟩
      · rwa [← honly q hmem]
      · exact hq
  · exact absurd halive (not_isAlive h0 hkind (fun q _ => hnone q) hcap)

/-- When a live coordinator fires, it is dropped, and the others are kept. -/
theorem accept_kept (h : Numbered w) (hall : ∀ d, IsScreen w d → Kept w d) (hc : c < w.next)
    (halive : w.IsAlive c) {d : ℕ} (hd : IsScreen (w.accept c) d) : Kept (w.accept c) d := by
  have hnext := (h.accept hc).2
  have hrole := (accept_role w c).1
  obtain ⟨h0, hlt, hkind⟩ := hd
  have hscreen : IsScreen w d := ⟨h0, by rwa [← hnext], by rwa [← (hrole d).1]⟩
  have hchild := fun q => (accept_shrinks w c q).1
  obtain ⟨-, hsame, hfired⟩ := accept_shrinks w c d
  by_cases hdc : d = c
  · subst hdc
    obtain ⟨-, p, body, hp, hplive, honly, hcomp⟩ := (hall d hscreen).holder hscreen halive
    have hcompleted := accept_completed hcomp hplive (Nat.ne_of_lt hp)
    refine .inr ⟨by simp [hfired], ?_, ?_⟩
    · intro q hq
      obtain rfl : q = p := honly q (hchild q _ hq)
      rw [hcompleted.owner] at hq
      simp at hq
    · intro k hk
      rw [hcompleted.fired] at hk
      obtain rfl := List.mem_singleton.mp hk
      simp
  · rcases hall d hscreen with ⟨hf, p, body, hp, honly, hcomp⟩ | ⟨hf, hnone, hcap⟩
    · refine .inl ⟨by simp [hfired, hf, hdc], p, body, hp, fun q hq => honly q (hchild q _ hq), ?_⟩
      rw [hsame hdc, hcomp]
    · refine .inr ⟨by simp [hfired, hf], fun q hq => hnone q (hchild q _ hq), ?_⟩
      rw [hsame hdc]
      exact hcap

end Mber.CoordinatorLifecycles
