import Mber.CoordinatorGrowth
import Mber.Runs

/-!
What becomes of a coordinator. An event fires one coordinator or none, and
creates one or none. A login or registration coordinator is gone when it has
fired, so that it fires at most once. Every coordinator is started once, in the
order of creation.
-/
namespace Mber.CoordinatorLifecycles

open Coordinators World CoordinatorLaws Lifetimes Runs

variable {w v u : World} {c p : ℕ}

/-- The coordinator that fires. -/
def fires (w : World) : Event → Option ℕ
  | .isLoginCompleted c _ => if w.Hears .login c then some c else none
  | .goToRegisterButtonTapped _ => none
  | .goToLoginPageButtonTapped c => if w.Hears .registration c then some c else none
  | .isRegistered c success =>
    if w.Hears .registration c ∧ success = true then some c else none
  | .logoutButtonTapped c signedOut => if w.Hears .home c ∧ signedOut = true then some c else none
  | .sessionChanged _ => none

/-- What an event can do: who fires, and what becomes of the world. -/
inductive Reaction (w : World) : Option ℕ → World → Prop
  | unheard (currentUser : Option Firebase.Uid) : Reaction w none { w with currentUser }
  | loginCompleted (c : ℕ) (hears : w.Hears .login c) :
    Reaction w (some c)
      ((HomeCoordinator.start (((w.accept c).create .home).add c (w.accept c).next)
        (w.accept c).next).record .window)
  | registrationPushed (c : ℕ) (hears : w.Hears .login c) :
    Reaction w none (LoginCoordinator.pushRegistrationVC w c)
  | registrationLeft (c : ℕ) (hears : w.Hears .registration c) : Reaction w (some c) (w.accept c)
  | registered (c : ℕ) (hears : w.Hears .registration c) :
    Reaction w (some c) (RegistrationCoordinator.switchToHomeVC w c)
  | loggedOut (c : ℕ) (hears : w.Hears .home c) :
    Reaction w (some c) (HomeCoordinator.switchToLoginVC (w.signOut.accept c) c)

theorem step_reaction (w : World) (e : Event) : Reaction w (fires w e) (w.step e) := by
  have hunheard : Reaction w none w := .unheard w.currentUser
  cases e with
  | isLoginCompleted c success =>
    by_cases hears : w.Hears .login c
    · simpa only [fires, step, isLoginCompleted, if_pos hears] using .loginCompleted c hears
    · simpa only [fires, step, isLoginCompleted, if_neg hears] using hunheard
  | goToRegisterButtonTapped c =>
    by_cases hears : w.Hears .login c
    · simpa only [fires, step, goToRegisterButtonTapped, if_pos hears] using
        .registrationPushed c hears
    · simpa only [fires, step, goToRegisterButtonTapped, if_neg hears] using hunheard
  | goToLoginPageButtonTapped c =>
    by_cases hears : w.Hears .registration c
    · simpa only [fires, step, goToLoginPageButtonTapped, if_pos hears] using
        .registrationLeft c hears
    · simpa only [fires, step, goToLoginPageButtonTapped, if_neg hears] using hunheard
  | isRegistered c success =>
    by_cases hears : w.Hears .registration c ∧ success = true
    · simpa only [fires, step, isRegistered, if_pos hears] using .registered c hears.1
    · simpa only [fires, step, isRegistered, if_neg hears] using hunheard
  | logoutButtonTapped c signedOut =>
    by_cases hears : w.Hears .home c ∧ signedOut = true
    · simpa only [fires, step, logoutButtonTapped, if_pos hears] using .loggedOut c hears.1
    · simpa only [fires, step, logoutButtonTapped, if_neg hears] using hunheard
  | sessionChanged currentUser => exact .unheard currentUser

/-- Coordinators are added, or one coordinator fires between two additions. -/
theorem Reaction.grown {fired : Option ℕ} (r : Reaction w fired u) (h : Numbered w) :
    (fired = none ∧ Grown w u) ∨
      ∃ c v, fired = some c ∧ (∃ kind, kind ≠ .app ∧ w.Hears kind c) ∧ Numbered v ∧
        Grown w v ∧ v.IsAlive c ∧ Grown (v.accept c) u := by
  cases r with
  | unheard currentUser => exact .inl ⟨rfl, grown_of_eq rfl rfl⟩
  | loginCompleted c hears =>
    have hc := h.lt_of_hears hears
    obtain ⟨-, hnext⟩ := h.accept hc
    refine .inr ⟨c, w, rfl, ⟨.login, by simp, hears⟩, h, Grown.refl w, hears.2.2, ?_⟩
    exact ((grown_home (by rwa [hnext])).trans (grown_homeStart _ _)).trans (grown_of_eq rfl rfl)
  | registrationPushed c hears =>
    refine .inl ⟨rfl, ?_⟩
    exact ((grown_screen h (h.lt_of_hears hears) .registration .popThenRemove).trans
      (grown_begin _ _)).trans (grown_bind _ _ _)
  | registrationLeft c hears =>
    exact .inr ⟨c, w, rfl, ⟨.registration, by simp, hears⟩, h, Grown.refl w, hears.2.2,
      Grown.refl _⟩
  | registered c hears =>
    have hc := h.lt_of_hears hears
    have hadd := (h.child hc .home (k := ⟨c, .remove, none⟩) hc).1
    have hcoordinator := create_add_coordinator w .home (Nat.ne_of_lt hc)
    have halive : ((w.create .home).add c w.next).IsAlive c := by
      refine isAlive_mono ?_ hears.2.2
      intro d hd
      rw [hcoordinator, if_neg (by omega)]
      split_ifs with hdc
      · subst hdc
        exact ⟨rfl, id, List.subset_append_left _ _, List.Subset.refl _⟩
      · exact ⟨rfl, id, List.Subset.refl _, List.Subset.refl _⟩
    have hhome : ((((w.create .home).add c w.next).accept c).coordinator w.next).kind = .home := by
      rw [((accept_role ((w.create .home).add c w.next) c).1 w.next).1, hcoordinator, if_pos rfl]
    refine .inr ⟨c, (w.create .home).add c w.next, rfl, ⟨.registration, by simp, hears⟩,
      hadd, grown_home hc, halive, ?_⟩
    exact ((grown_subscribe hhome ⟨c, .remove, some w.next⟩).trans (grown_homeStart _ _)).trans
      (grown_of_eq rfl rfl)
  | loggedOut c hears =>
    have hout : Numbered w.signOut := h.of_eq rfl rfl
    obtain ⟨haccept, hnext⟩ := hout.accept (c := c) (h.lt_of_hears hears)
    have hc : c < (w.signOut.accept c).next := by
      rw [hnext]
      exact h.lt_of_hears hears
    refine .inr ⟨c, w.signOut, rfl, ⟨.home, by simp, hears⟩, hout, grown_of_eq rfl rfl,
      hears.2.2, ?_⟩
    exact ((grown_screen haccept hc .login .remove).trans
      (grown_loginStart _ (Nat.lt_succ_self _))).trans (grown_of_eq rfl rfl)

theorem accept_entries (w : World) (c : ℕ) : ∃ new, (w.accept c).log = w.log ++ new ∧
    new.filterMap Entry.completed? = [c] ∧ new.filterMap Entry.started? = [] := by
  obtain ⟨pops, hlog, hpops⟩ := accept_log w c
  refine ⟨⟨.completed c, w.currentUser⟩ :: pops, by rw [hlog]; simp, ?_, ?_⟩
  · have hnone : pops.filterMap Entry.completed? = [] := by
      rw [List.filterMap_eq_nil_iff]
      intro e he
      obtain ⟨vc, hvc⟩ := hpops e he
      simp [Entry.completed?, hvc]
    rw [List.filterMap_cons, hnone]
    rfl
  · have hnone : pops.filterMap Entry.started? = [] := by
      rw [List.filterMap_eq_nil_iff]
      intro e he
      obtain ⟨vc, hvc⟩ := hpops e he
      simp [Entry.started?, hvc]
    rw [List.filterMap_cons, hnone]
    rfl

/-- The log gets whoever fires, and the start of the coordinator that is
created, if one is. -/
theorem Reaction.log {fired : Option ℕ} (r : Reaction w fired u) (h : Numbered w) :
    ∃ new, u.log = w.log ++ new ∧ new.filterMap Entry.completed? = fired.toList ∧
      ((u.next = w.next ∧ new.filterMap Entry.started? = []) ∨
        (u.next = w.next + 1 ∧ new.filterMap Entry.started? = [w.next])) := by
  cases r with
  | unheard currentUser => exact ⟨[], (List.append_nil _).symm, rfl, .inl ⟨rfl, rfl⟩⟩
  | loginCompleted c hears =>
    obtain ⟨new, hlog, hcompleted, hstarted⟩ := accept_entries w c
    have hnext := (h.accept (h.lt_of_hears hears)).2
    have hhome := homeStart_log (((w.accept c).create .home).add c (w.accept c).next)
      (w.accept c).next
    have hlog' : (((w.accept c).create .home).add c (w.accept c).next).log = w.log ++ new := hlog
    rw [hhome, hlog']
    refine ⟨_, List.append_assoc _ _ _, ?_, .inr ⟨?_, ?_⟩⟩
    · simp [List.filterMap_append, hcompleted, homeEntries, Entry.completed?]
    · exact congrArg (· + 1) hnext
    · simp [List.filterMap_append, hstarted, homeEntries, Entry.started?, hnext]
  | registrationPushed c hears =>
    exact ⟨[⟨.started w.next, w.currentUser⟩, ⟨.pushed (.registration w.next), w.currentUser⟩],
      List.append_assoc _ _ _, rfl, .inr ⟨rfl, rfl⟩⟩
  | registrationLeft c hears =>
    obtain ⟨new, hlog, hcompleted, hstarted⟩ := accept_entries w c
    exact ⟨new, hlog, hcompleted, .inl ⟨(h.accept (h.lt_of_hears hears)).2, hstarted⟩⟩
  | registered c hears =>
    have hc := h.lt_of_hears hears
    have hadd := (h.child hc .home (k := ⟨c, .remove, none⟩) hc).1
    have hnext := (hadd.accept (c := c) (Nat.lt_succ_of_lt hc)).2
    obtain ⟨new, hlog, hcompleted, hstarted⟩ := accept_entries ((w.create .home).add c w.next) c
    have hhome := homeStart_log ((((w.create .home).add c w.next).accept c).subscribe w.next
      ⟨c, .remove, some w.next⟩) w.next
    have hlog' : ((((w.create .home).add c w.next).accept c).subscribe w.next
      ⟨c, .remove, some w.next⟩).log = w.log ++ new := hlog
    rw [RegistrationCoordinator.switchToHomeVC, hhome, hlog']
    refine ⟨_, List.append_assoc _ _ _, ?_, .inr ⟨hnext, ?_⟩⟩
    · simp [List.filterMap_append, hcompleted, homeEntries, Entry.completed?]
    · simp [List.filterMap_append, hstarted, homeEntries, Entry.started?]
  | loggedOut c hears =>
    have hout : Numbered w.signOut := h.of_eq rfl rfl
    have hnext : (w.signOut.accept c).next = w.next := (hout.accept (h.lt_of_hears hears)).2
    have hnone : (w.signOut.accept c).currentUser = none := (accept_role w.signOut c).2
    obtain ⟨new, hlog, hcompleted, hstarted⟩ := accept_entries w.signOut c
    have hlog' : (w.signOut.accept c).log = w.log ++ new := hlog
    have hnext' : (HomeCoordinator.switchToLoginVC (w.signOut.accept c) c).next = w.next + 1 := by
      rw [switchToLoginVC_of_signedOut _ c hnone]
      exact congrArg (· + 1) hnext
    rw [switchToLoginVC_log _ c hnone, hlog']
    refine ⟨_, List.append_assoc _ _ _, ?_, .inr ⟨hnext', ?_⟩⟩
    · simp [List.filterMap_append, hcompleted, Entry.completed?]
    · simp [List.filterMap_append, hstarted, Entry.started?, hnext]

/-- How often a coordinator has fired. -/
def completions (w : World) (c : ℕ) : ℕ := (w.log.filterMap Entry.completed?).count c

structure Accounted (w : World) : Prop where
  numbered : Numbered w
  app : (w.coordinator 0).kind = .app
  kept : ∀ c, IsScreen w c → Kept w c
  completed : ∀ c ∈ w.log.filterMap Entry.completed?, c ≠ 0 ∧ c < w.next
  count : ∀ c, IsScreen w c → completions w c = if (w.coordinator c).fired then 1 else 0
  starts : w.log.filterMap Entry.started? = List.range' 1 (w.next - 1)

theorem step_kind (h : Numbered w) (e : Event) (hc : c < w.next) :
    ((w.step e).coordinator c).kind = (w.coordinator c).kind := by
  rcases (step_reaction w e).grown h with
    ⟨-, hgrown⟩ | ⟨d, v, hfires, ⟨kind, -, hears⟩, hv, hgrown, -, hgrown'⟩
  · exact hgrown.kind c hc
  · have hd : d < v.next := Nat.lt_of_lt_of_le (h.lt_of_hears hears) hgrown.next_le
    have hcv : c < (v.accept d).next := by
      rw [(hv.accept hd).2]
      exact Nat.lt_of_lt_of_le hc hgrown.next_le
    calc ((w.step e).coordinator c).kind = ((v.accept d).coordinator c).kind := hgrown'.kind c hcv
      _ = (v.coordinator c).kind := ((accept_role v d).1 c).1
      _ = (w.coordinator c).kind := hgrown.kind c hc

theorem accounted_launched (currentUser : Option Firebase.Uid) :
    Accounted (launched currentUser) := by
  have hinit : Numbered { currentUser } :=
    ⟨Nat.one_pos, fun c _ => rfl, fun c d hd => by simp at hd, fun c k hk => by simp at hk⟩
  have hgrown : Grown { currentUser } (launched currentUser) :=
    ((grown_screen hinit Nat.one_pos .login .remove).trans
      (grown_loginStart _ (Nat.lt_succ_self _))).trans (grown_of_eq rfl rfl)
  have hkept : ∀ c, IsScreen (launched currentUser) c → Kept (launched currentUser) c := by
    intro c hc
    refine hgrown.kept ?_ hc
    rintro d ⟨h0, hlt, -⟩
    have hlt' : d < 1 := hlt
    omega
  have hnone : (launched currentUser).log.filterMap Entry.completed? = [] := by
    cases currentUser <;> rfl
  refine ⟨numbered_launched currentUser, hgrown.kind 0 Nat.one_pos, hkept, ?_, ?_, ?_⟩
  · rw [hnone]
    simp
  · intro c hc
    have hfired := (hgrown.fresh c (Nat.pos_of_ne_zero hc.1) hc.2.1 hc.2.2).1
    rw [completions, hnone, hfired]
    rfl
  · cases currentUser <;> rfl

/-- Whoever fires has not been dropped; afterwards it is. -/
theorem step_screen (h : Accounted w) (e : Event) (hc : IsScreen (w.step e) c) :
    Kept (w.step e) c ∧
      ((w.step e).coordinator c).fired = ((w.coordinator c).fired || decide (fires w e = some c)) ∧
      (fires w e = some c → (w.coordinator c).fired = false) := by
  rcases (step_reaction w e).grown h.numbered with
    ⟨hnone, hgrown⟩ | ⟨d, v, hd, hears, hv, hgrown, halive, hgrown'⟩
  · refine ⟨hgrown.kept h.kept hc, ?_, fun hf => by simp [hnone] at hf⟩
    simp [hgrown.fired_eq h.numbered hc, hnone]
  · obtain ⟨kind, -, hears⟩ := hears
    have hlt : d < v.next := Nat.lt_of_lt_of_le (h.numbered.lt_of_hears hears) hgrown.next_le
    have hkeptv : ∀ b, IsScreen v b → Kept v b := fun b hb => hgrown.kept h.kept hb
    have hkept : ∀ b, IsScreen (v.accept d) b → Kept (v.accept d) b :=
      fun b hb => accept_kept hv hkeptv hlt halive hb
    obtain ⟨haccept, hnext⟩ := hv.accept hlt
    have hfired := hgrown'.fired_eq haccept hc
    rw [(accept_shrinks v d c).2.2] at hfired
    have hscreen : c < v.next → IsScreen v c := by
      intro hcv
      refine ⟨hc.1, hcv, ?_⟩
      rw [← ((accept_role v d).1 c).1, ← hgrown'.kind c (by rwa [hnext])]
      exact hc.2.2
    have hsame : (v.coordinator c).fired = (w.coordinator c).fired := by
      by_cases hcv : c < v.next
      · exact hgrown.fired_eq h.numbered (hscreen hcv)
      · have hle := hgrown.next_le
        rw [hv.fresh c (by omega), h.numbered.fresh c (by omega)]
    refine ⟨hgrown'.kept hkept hc, ?_, ?_⟩
    · rw [hfired, hsame, hd]
      simp [eq_comm]
    · intro hfires
      obtain rfl : d = c := Option.some.inj (hd.symm.trans hfires)
      rw [← hsame]
      exact ((hkeptv d (hscreen hlt)).holder (hscreen hlt) halive).1

theorem accounted_step (h : Accounted w) (e : Event) : Accounted (w.step e) := by
  have hnumbered := numbered_step h.numbered e
  obtain ⟨new, hlog, hcompleted, hcreated⟩ := (step_reaction w e).log h.numbered
  have hlog' : (w.step e).log.filterMap Entry.completed? =
      w.log.filterMap Entry.completed? ++ (fires w e).toList := by
    rw [hlog, List.filterMap_append, hcompleted]
  have hle : w.next ≤ (w.step e).next := by
    rcases hcreated with ⟨hnext, -⟩ | ⟨hnext, -⟩ <;> omega
  have hfires : ∀ c, fires w e = some c → c ≠ 0 ∧ c < w.next := by
    intro c hc
    rcases (step_reaction w e).grown h.numbered with ⟨hnone, -⟩ | ⟨d, -, hd, ⟨kind, hkind, hears⟩, -⟩
    · simp [hnone] at hc
    · obtain rfl : d = c := Option.some.inj (hd.symm.trans hc)
      refine ⟨?_, h.numbered.lt_of_hears hears⟩
      rintro rfl
      exact hkind (hears.1.symm.trans h.app)
  have hbelow : ∀ c ∈ (w.step e).log.filterMap Entry.completed?, c ≠ 0 ∧ c < w.next := by
    intro c hc
    rw [hlog', List.mem_append, Option.mem_toList] at hc
    rcases hc with hold | hnew
    · exact h.completed c hold
    · exact hfires c hnew
  have hcount : ∀ c, IsScreen (w.step e) c →
      completions (w.step e) c = if ((w.step e).coordinator c).fired then 1 else 0 := by
    intro c hc
    obtain ⟨-, hfired, hbefore⟩ := step_screen h e hc
    have hold : completions w c = if (w.coordinator c).fired then 1 else 0 := by
      by_cases hlt : c < w.next
      · refine h.count c ⟨hc.1, hlt, ?_⟩
        rw [← step_kind h.numbered e hlt]
        exact hc.2.2
      · have hnever : c ∉ w.log.filterMap Entry.completed? := fun hin => hlt (h.completed c hin).2
        rw [completions, List.count_eq_zero_of_not_mem hnever, h.numbered.fresh c (by omega)]
        rfl
    rw [completions] at hold
    rw [completions, hlog', List.count_append, hold, hfired]
    by_cases hf : fires w e = some c
    · simp [hf, hbefore hf]
    · have hnone : c ∉ (fires w e).toList := fun hin => hf (Option.mem_toList.mp hin)
      simp [hf, List.count_eq_zero_of_not_mem hnone]
  refine ⟨hnumbered, (step_kind h.numbered e h.numbered.app).trans h.app,
    fun c hc => (step_screen h e hc).1, ?_, hcount, ?_⟩
  · intro c hc
    obtain ⟨h0, hlt⟩ := hbelow c hc
    exact ⟨h0, Nat.lt_of_lt_of_le hlt hle⟩
  · rw [hlog, List.filterMap_append, h.starts]
    have happ := h.numbered.app
    rcases hcreated with ⟨hnext, hnone⟩ | ⟨hnext, hone⟩
    · rw [hnone, hnext, List.append_nil]
    · obtain ⟨n, hn⟩ := Nat.exists_eq_succ_of_ne_zero (Nat.ne_of_gt happ)
      rw [hone, hnext, hn]
      simp [List.range'_concat, Nat.add_comm]

theorem accounted_run (currentUser : Option Firebase.Uid) (events : List Event) :
    Accounted (run step (launched currentUser) events) :=
  run_invariant Accounted (fun _ e h => accounted_step h e) _ events
    (accounted_launched currentUser)

/-- In every run, also one in which logins fail, taps repeat and users change,
the coordinators are started once each, in the order of their creation. -/
theorem started_in_order (currentUser : Option Firebase.Uid) (events : List Event) :
    (run step (launched currentUser) events).log.filterMap Entry.started? =
      List.range' 1 ((run step (launched currentUser) events).next - 1) :=
  (accounted_run currentUser events).starts

/-- In every run a login or registration coordinator fires at most once and is
gone when it has fired. -/
theorem completes_once (currentUser : Option Firebase.Uid) (events : List Event) (c : ℕ)
    (hkind : ((run step (launched currentUser) events).coordinator c).kind ≠ .home) :
    ((run step (launched currentUser) events).log.filterMap Entry.completed?).count c ≤ 1 ∧
      (c ∈ (run step (launched currentUser) events).log.filterMap Entry.completed? →
        ¬ (run step (launched currentUser) events).IsAlive c) := by
  have h := accounted_run currentUser events
  generalize run step (launched currentUser) events = w at h hkind
  by_cases hmem : c ∈ w.log.filterMap Entry.completed?
  · obtain ⟨h0, hlt⟩ := h.completed c hmem
    have hscreen : IsScreen w c := ⟨h0, hlt, hkind⟩
    have hcount : (w.log.filterMap Entry.completed?).count c = _ := h.count c hscreen
    have hpos := List.count_pos_iff.mpr hmem
    have hfired : (w.coordinator c).fired = true := by
      by_contra hnot
      rw [hcount, if_neg hnot] at hpos
      omega
    rcases h.kept c hscreen with ⟨hf, -⟩ | ⟨-, hnone, hcap⟩
    · rw [hf] at hfired
      simp at hfired
    · have hone := hcount.trans (if_pos hfired)
      exact ⟨Nat.le_of_eq hone, fun _ => not_isAlive h0 hkind (fun q _ => hnone q) hcap⟩
  · refine ⟨?_, fun hin => absurd hin hmem⟩
    rw [List.count_eq_zero_of_not_mem hmem]
    omega

/-- A login, a logout, a second login: the first login coordinator is done. -/
theorem completes_once_login :
    ((run step (launched none) [.isLoginCompleted 1 true, .logoutButtonTapped 2 true,
        .isLoginCompleted 1 true]).log.filterMap Entry.completed?).count 1 ≤ 1 ∧
      (1 ∈ (run step (launched none) [.isLoginCompleted 1 true, .logoutButtonTapped 2 true,
          .isLoginCompleted 1 true]).log.filterMap Entry.completed? →
        ¬ (run step (launched none) [.isLoginCompleted 1 true, .logoutButtonTapped 2 true,
          .isLoginCompleted 1 true]).IsAlive 1) :=
  completes_once none _ 1 (by decide)

end Mber.CoordinatorLifecycles
