import Mber.ActivityIndicator
import Mber.LoginRefinement

/-!
LoginController and the activity indicator. Every tap shows the indicator and
every answer to the latest attempt hides it; a tap that the stopped pipeline
does not hear shows it all the same.
-/
namespace Mber.LoginIndicator

open Runs ProgressHUD ActivityIndicator LoginRefinement LoginPipeline

variable {ν : Type*}

def loginClient : Client LoginScreen LoginInput where
  step := LoginScreen.step
  calls s i :=
    match i with
    | .loginButtonTapped => [true]
    | i => ((s.outputs i).filter isForController).map fun _ => false
  text _ := some "Loading"

/-- The latest attempt has not been answered. -/
def unanswered (s : LoginScreen) : Bool := decide (s.viewModel.current ∈ s.pending)

/-- The screen agrees with the reference, whatever has been tapped before. -/
def Known (observers : List Subscriber) (s : LoginScreen) : Prop :=
  ∃ r, Agrees observers s r ∧ s.viewModel.current = r.attempts

variable {observers : List Subscriber} {s : LoginScreen}

theorem deliverAll_current (vm : LoginViewModel Subscriber) (attempt : ℕ)
    (events : List (Sinks.Event Firebase.AuthError Bool)) :
    (vm.deliverAll attempt events).1.current = vm.current := by
  rw [← LoginViewModel.receive_map, LoginViewModel.receive_current]

theorem known_bound (hne : observers ≠ []) : Known observers (LoginScreen.bound observers) :=
  ⟨{}, agrees_bound hne, (LoginViewModel.bound_running hne).follows.latest_eq⟩

/-- A tap starts an attempt exactly if the pipeline is running. -/
theorem Known.tap (h : Known observers s) :
    Known observers (s.step .loginButtonTapped) ∧
      unanswered (s.step .loginButtonTapped) = s.viewModel.sampled.isSome := by
  obtain ⟨r, hagree, hcurrent⟩ := h
  cases hf : r.failed with
  | false =>
    have hrunning := hagree.running hf
    have hnext := agrees_tap hagree hf
    have hlatest := hrunning.tapped.follows.latest_eq
    refine ⟨⟨_, hnext, hlatest⟩, ?_⟩
    have hmem : (s.step .loginButtonTapped).viewModel.current ∈
        (s.step .loginButtonTapped).pending := by
      rw [hnext.pending_eq]
      simp [LoginScreen.step, LoginViewModel.current, hlatest, Reference.step]
    simp [unanswered, hmem, hrunning.sampled]
  | true =>
    obtain ⟨hstopped, hanswered⟩ := hagree.stopped hf
    refine ⟨⟨_, agrees_tap_after_failure hagree hf, ?_⟩, ?_⟩
    · simp [LoginScreen.step, hstopped.tapped, hcurrent]
    · simp [unanswered, LoginScreen.step, hstopped.tapped, hstopped.sampled, hcurrent,
        hagree.pending_eq, hanswered]

/-- An answer starts no attempt. -/
theorem callback_current (s : LoginScreen) (attempt : ℕ)
    (result : Except Firebase.AuthError Firebase.Uid) :
    (s.step (.signInCallback attempt result)).viewModel.current = s.viewModel.current := by
  by_cases hin : attempt ∈ s.pending
  · simp [LoginScreen.step, hin, deliverAll_current]
  · simp [LoginScreen.step, hin]

theorem Known.answer (h : Known observers s) (attempt : ℕ)
    (result : Except Firebase.AuthError Firebase.Uid) :
    Known observers (s.step (.signInCallback attempt result)) := by
  obtain ⟨r, hagree, hcurrent⟩ := h
  refine ⟨_, agrees_callback hagree attempt result, ?_⟩
  rw [callback_current, hcurrent]
  simp only [Reference.step]
  split_ifs <;> rfl

/-- An answer reaches LoginController exactly if it is that of the latest attempt. -/
theorem Known.callback (h : Known observers s) (hmem : .controller ∈ observers) (attempt : ℕ)
    (result : Except Firebase.AuthError Firebase.Uid) :
    (loginClient.calls s (.signInCallback attempt result) = [] ∧
        unanswered (s.step (.signInCallback attempt result)) = unanswered s) ∨
      (loginClient.calls s (.signInCallback attempt result) ≠ [] ∧
        unanswered (s.step (.signInCallback attempt result)) = false) := by
  obtain ⟨r, hagree, hcurrent⟩ := h
  by_cases hin : attempt ∈ r.pending
  · have hin' : attempt ∈ s.pending := hagree.pending_eq ▸ hin
    have hcurrent' := (callback_current s attempt result).trans hcurrent
    have hpending :
        (s.step (.signInCallback attempt result)).pending = r.pending.erase attempt := by
      simp [LoginScreen.step, hin, hagree.pending_eq]
    by_cases hcur : attempt = r.attempts
    · subst hcur
      right
      have hout := outputs_current hagree (hagree.not_failed hin) result hin
      refine ⟨?_, ?_⟩
      · intro hnone
        have hnot : (.isLoginCompleted .controller (succeeded result) : LoginOutput) ∉
            (s.outputs (.signInCallback r.attempts result)).filter isForController := by
          rw [List.map_eq_nil_iff.mp hnone]
          exact List.not_mem_nil
        rw [hout] at hnot
        exact hnot (List.mem_filter.mpr ⟨List.mem_map.mpr ⟨.controller, hmem, rfl⟩, rfl⟩)
      · simp [unanswered, hcurrent', hpending, hagree.pending_nodup.not_mem_erase]
    · left
      have hout := outputs_superseded hagree attempt result hin hcur
      have hkept := List.mem_erase_of_ne (l := r.pending) (Ne.symm hcur)
      refine ⟨by simp [loginClient, hout], ?_⟩
      simp [unanswered, hcurrent', hcurrent, hpending, hkept, hagree.pending_eq]
  · have hin' : attempt ∉ s.pending := hagree.pending_eq ▸ hin
    have hsame : s.step (.signInCallback attempt result) = s := if_neg hin'
    rw [hsame]
    exact .inl ⟨by simp [loginClient, LoginScreen.outputs, hin'], rfl⟩

theorem Known.send (h : Known observers s) (f : Field) (text : String) :
    Known observers (s.step (.send f text)) ∧
      unanswered (s.step (.send f text)) = unanswered s := by
  obtain ⟨r, hagree, hcurrent⟩ := h
  refine ⟨⟨_, agrees_send hagree f text, ?_⟩, ?_⟩
  · simp [LoginScreen.step, Reference.step, hcurrent]
  · simp [unanswered, LoginScreen.step]

theorem Known.step (h : Known observers s) (i : LoginInput) : Known observers (s.step i) := by
  cases i with
  | send f text => exact (h.send f text).1
  | loginButtonTapped => exact h.tap.1
  | signInCallback attempt result => exact h.answer attempt result

theorem login_reports (hmem : .controller ∈ observers) :
    loginClient.Reports (Known observers) unanswered where
  keeps s i h := h.step i
  uniform s i _ := by
    cases i <;> simp [loginClient]
  silent s i h hnone := by
    cases i with
    | send f text => exact (h.send f text).2
    | loginButtonTapped => simp [loginClient] at hnone
    | signInCallback attempt result =>
      rcases h.callback hmem attempt result with ⟨-, hsame⟩ | ⟨hsome, -⟩
      · exact hsame
      · exact absurd hnone hsome
  hidden s i h hfalse := by
    cases i with
    | send f text => simp [loginClient, LoginScreen.outputs] at hfalse
    | loginButtonTapped => simp [loginClient] at hfalse
    | signInCallback attempt result =>
      rcases h.callback hmem attempt result with ⟨hnone, -⟩ | ⟨-, hended⟩
      · simp [hnone] at hfalse
      · exact hended

/-- However the HUD was used before it left its last view, in every state of the
login screen the indicator is shown exactly if the latest attempt is
unanswered, once the HUD's transitions are over. This is so exactly as long as
each tap that starts an attempt, and no other tap, finds a HUD that is not on
its way out. -/
theorem login_displayed_iff [DecidableEq ν] (observers : List Subscriber)
    (hmem : .controller ∈ observers) (view : ν) (before : List (ProgressHUD.Input ν))
    (hremoved : (run JGProgressHUD.step {} before).settled.superview = none)
    (inputs : List (DisplayInput LoginInput)) :
    EveryState (loginClient.displayStep view) (loginClient.Displayed unanswered view)
        ⟨LoginScreen.bound observers, run JGProgressHUD.step {} before⟩ inputs ↔
      EveryStep (loginClient.displayStep view)
        (fun s i => i = .client .loginButtonTapped →
          (s.hud.Accepts ↔ s.screen.viewModel.sampled.isSome = true))
        ⟨LoginScreen.bound observers, run JGProgressHUD.step {} before⟩ inputs := by
  have hne : observers ≠ [] := List.ne_nil_of_mem hmem
  obtain ⟨hview, hgoal⟩ := inView_of_removed loginClient view before hremoved
  have hreports := login_reports hmem
  have hfirst : loginClient.Displayed unanswered view
      ⟨LoginScreen.bound observers, run JGProgressHUD.step {} before⟩ := by
    have hidle : unanswered (LoginScreen.bound observers) = false := by
      simp [unanswered, LoginScreen.bound]
    exact (Client.displayed_iff_goal hview).mpr (by simp [hidle, hgoal])
  refine (hreports.displayed_iff _ (known_bound hne) hview hfirst inputs).trans ?_
  refine everyStep_congr_of_invariant (fun s => Known observers s.screen) ?_ ?_ _ _
    (known_bound hne)
  · rintro s i hknown
    cases i with
    | animationFinished => simp [Client.InStep]
    | client i =>
      cases i with
      | loginButtonTapped => simp [Client.InStep, loginClient, hknown.tap.2]
      | send f text => simp [Client.InStep, loginClient]
      | signInCallback attempt result => simp [Client.InStep, loginClient]
  · rintro s i hknown
    cases i with
    | animationFinished => exact hknown
    | client i => exact hreports.keeps s.screen i hknown

/-- The tap after the failure comes while the HUD fades out, and does nothing. -/
theorem login_displayed_after_failure :
    EveryState (loginClient.displayStep ()) (loginClient.Displayed unanswered ())
      ⟨LoginScreen.bound [.controller, .other 0], run JGProgressHUD.step {} []⟩
      [.client .loginButtonTapped, .animationFinished,
        .client (.signInCallback 1 (.error .wrongPassword)), .client .loginButtonTapped] :=
  (login_displayed_iff [.controller, .other 0] (by decide) () [] (by decide) _).mpr
    ⟨fun _ => by decide, nofun, nofun, fun _ => by decide, trivial⟩

/-- After an answer with an error the pipeline is stopped. -/
structure Stuck (view : ν) (s : Display LoginScreen ν) : Prop where
  stopped : s.screen.viewModel.Stopped
  inView : loginClient.InView view s.hud
  goal_eq : s.hud.goal = some view

theorem stopped_step {s : LoginScreen} (h : s.viewModel.Stopped) (i : LoginInput) :
    (s.step i).viewModel.Stopped ∧ false ∉ loginClient.calls s i := by
  cases i with
  | send f text => exact ⟨h.send f text, by simp [loginClient, LoginScreen.outputs]⟩
  | loginButtonTapped =>
    refine ⟨?_, by simp [loginClient]⟩
    simpa [LoginScreen.step, h.tapped] using h
  | signInCallback attempt result =>
    obtain ⟨hsilent, hstopped⟩ := h.deliverAll attempt (AuthManager.signInCallback result)
    by_cases hin : attempt ∈ s.pending
    · simp [LoginScreen.step, loginClient, LoginScreen.outputs, hin, hsilent, hstopped]
    · simp [LoginScreen.step, loginClient, LoginScreen.outputs, hin, h]

/-- A HUD that is shown over a stopped pipeline stays. -/
theorem stuck_step {view : ν} {s : Display LoginScreen ν} (h : Stuck view s)
    (i : DisplayInput LoginInput) : Stuck view (loginClient.displayStep view s i) := by
  obtain ⟨hstopped, hview, hgoal⟩ := h
  cases i with
  | animationFinished =>
    exact ⟨hstopped, hview.animationFinished,
      hview.consistent.animationFinished_spec.2.1.trans hgoal⟩
  | client i =>
    obtain ⟨hnext, hnever⟩ := stopped_step hstopped i
    have hacc : s.hud.Accepts := fun _ => by simp [hgoal]
    obtain ⟨hview', hsilent, -, htaken, -⟩ :=
      hview.present (loginClient.calls s.screen i) (by cases i <;> simp [loginClient])
    refine ⟨hnext, hview', ?_⟩
    by_cases htrue : true ∈ loginClient.calls s.screen i
    · exact htaken htrue hacc
    · have hnone : loginClient.calls s.screen i = [] := by
        rw [List.eq_nil_iff_forall_not_mem]
        intro b
        cases b <;> assumption
      exact (hsilent hnone).trans hgoal

/-- However the run began: if the pipeline is stopped and the HUD is not on its
way out, then a tap leaves the indicator on the screen, in every continuation. -/
theorem indicator_stays [DecidableEq ν] (observers : List Subscriber)
    (hmem : .controller ∈ observers) (view : ν) (before : List (ProgressHUD.Input ν))
    (hremoved : (run JGProgressHUD.step {} before).settled.superview = none)
    (inputs later : List (DisplayInput LoginInput)) (s : Display LoginScreen ν)
    (hs : run (loginClient.displayStep view)
      ⟨LoginScreen.bound observers, run JGProgressHUD.step {} before⟩ inputs = s)
    (hstopped : s.screen.viewModel.sampled = none) (hacc : s.hud.Accepts) :
    EveryState (loginClient.displayStep view)
      (fun t => appearance t.hud.settled = some (view, some "Loading"))
      (loginClient.displayStep view s (.client .loginButtonTapped)) later := by
  have hne : observers ≠ [] := List.ne_nil_of_mem hmem
  have hreports := login_reports hmem
  obtain ⟨⟨r, hagree, -⟩, hview⟩ : Known observers s.screen ∧ loginClient.InView view s.hud := by
    rw [← hs]
    refine run_invariant
      (fun t : Display LoginScreen ν => Known observers t.screen ∧ loginClient.InView view t.hud)
      ?_ _ inputs
      ⟨known_bound hne, (inView_of_removed loginClient view before hremoved).1⟩
    rintro s i ⟨hknown, hview⟩
    cases i with
    | animationFinished => exact ⟨hknown, hview.animationFinished⟩
    | client i =>
      exact ⟨hreports.keeps s.screen i hknown,
        (hview.present _ (hreports.uniform s.screen i hknown)).1⟩
  have hfailed : r.failed = true := by
    by_contra hf
    have hsampled := (hagree.running (by simpa using hf)).sampled
    simp [hstopped] at hsampled
  have hvm := (hagree.stopped hfailed).1
  obtain ⟨hview', -, -, htaken, -⟩ := hview.present [true] (by simp)
  have hstuck : Stuck view (loginClient.displayStep view s (.client .loginButtonTapped)) :=
    ⟨(stopped_step hvm .loginButtonTapped).1, hview', htaken (by simp) hacc⟩
  refine everyState_of_invariant (Stuck view) ?_ (fun t i ht => stuck_step ht i) _ later hstuck
  intro t ht
  rw [ht.inView.appearance_eq, ht.goal_eq]
  rfl

/-- The HUD has faded out after the failure; the next tap shows it for good. -/
theorem indicator_stays_after_failure :
    EveryState (loginClient.displayStep ())
      (fun t => appearance t.hud.settled = some ((), some "Loading"))
      (loginClient.displayStep ()
        (run (loginClient.displayStep ())
          ⟨LoginScreen.bound [.controller, .other 0], run JGProgressHUD.step {} []⟩
          [.client .loginButtonTapped, .animationFinished,
            .client (.signInCallback 1 (.error .wrongPassword)), .animationFinished])
        (.client .loginButtonTapped))
      [.animationFinished, .client (.send .password "password2"), .client .loginButtonTapped] :=
  indicator_stays [.controller, .other 0] (by decide) () [] (by decide)
    [.client .loginButtonTapped, .animationFinished,
      .client (.signInCallback 1 (.error .wrongPassword)), .animationFinished]
    _ _ rfl (by decide) (by decide)

end Mber.LoginIndicator
