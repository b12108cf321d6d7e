import Mber.ActivityIndicator
import Mber.RegistrationRefinement

/-!
RegistrationController and the activity indicator, which follows the driver
`isRegistering`.
-/
namespace Mber.RegistrationIndicator

open Runs ProgressHUD ActivityIndicator RegistrationRefinement RegistrationPipeline

variable {ν : Type*}

variable {κ : Type*} [DecidableEq κ] (controller : κ)

def registering? : Output κ → Option Bool
  | .isRegistering k b => if k = controller then some b else none
  | _ => none

def registrationClient : Client (RegistrationScreen κ) RegistrationInput where
  step := RegistrationScreen.step
  calls s i := (s.react i).2.filterMap (registering? controller)
  text b := if b then some "Registering" else none

/-- The outcome of the latest attempt has not been decided. -/
def undecided (s : RegistrationScreen κ) : Bool := (s.outstanding s.viewModel.current).isSome

/-- A tap starts an attempt: the app runs and every field has sent a text. -/
def starts (s : RegistrationScreen κ) : Bool :=
  !s.aborted && s.viewModel.withLatestFrom.first.isSome

variable {controller} {registering registered : List κ} {s : RegistrationScreen κ} {r : Reference}

omit [DecidableEq κ] in
theorem undecided_eq (h : Agrees registering registered s r) : undecided s = r.undecided := by
  rw [undecided, RegistrationViewModel.current,
    h.running.follows.latest_eq, h.outstanding_eq, Reference.undecided]

/-- What a step of the reference tells RegistrationController. -/
theorem told (hmem : controller ∈ registering) (b : Bool) (rest : List (Output κ))
    (hrest : rest.filterMap (registering? controller) = []) :
    let calls := (registering.map (fun k => Output.isRegistering k b) ++
      rest).filterMap (registering? controller)
    calls ≠ [] ∧ ∀ x ∈ calls, x = b := by
  simp only [List.filterMap_append, hrest, List.append_nil, List.filterMap_map]
  refine ⟨?_, ?_⟩
  · have hin : b ∈ registering.filterMap (registering? controller ∘
        fun k => Output.isRegistering k b) :=
      List.mem_filterMap.mpr ⟨controller, hmem, by simp [registering?]⟩
    exact List.ne_nil_of_mem hin
  · intro x hx
    obtain ⟨k, -, hk⟩ := List.mem_filterMap.mp hx
    simp only [Function.comp_apply, registering?, Option.ite_none_right_eq_some,
      Option.some.injEq] at hk
    exact hk.2.symm

theorem not_told (controller : κ) (rest : List κ) (success : Bool) :
    (rest.map (fun k => Output.isRegistered k success)).filterMap
      (registering? controller) = [] := by
  simp [List.filterMap_map, Function.comp_def, registering?]

/-- Except for a tap, a step touches the latest attempt only by deciding it. -/
theorem undecided_runningStep (r : Reference) (i : RegistrationInput) (hi : i ≠ .signupButtonTapped) :
    (r.runningStep i).undecided =
      match r.decided i with
      | none => r.undecided
      | some (attempt, _) => if attempt = r.attempts then false else r.undecided := by
  cases i with
  | send f text => rfl
  | signupButtonTapped => exact absurd rfl hi
  | createUserCallback attempt currentUser result =>
    cases hcall : r.outstanding attempt with
    | none => cases result <;> simp [Reference.runningStep, Reference.decided, hcall]
    | some call =>
      cases call with
      | setData => cases result <;> simp [Reference.runningStep, Reference.decided, hcall]
      | createUser values =>
        cases result with
        | error error =>
          simp only [Reference.runningStep, Reference.decided, hcall, undecided_update,
            Option.isSome_none]
        | ok uid =>
          simp only [Reference.runningStep, Reference.decided, hcall]
          split_ifs
          · rw [undecided_update, Option.isSome_some]
            by_cases hcur : attempt = r.attempts
            · subst hcur
              simp [Reference.undecided, hcall]
            · rw [if_neg hcur]
          · rfl
  | setDataCallback attempt ok =>
    cases hcall : r.outstanding attempt with
    | none => simp [Reference.runningStep, Reference.decided, hcall]
    | some call =>
      cases call with
      | createUser values => simp [Reference.runningStep, Reference.decided, hcall]
      | setData =>
        simp only [Reference.runningStep, Reference.decided, hcall, undecided_update,
          Option.isSome_none]

theorem calls_eq (h : Agrees registering registered s r) (hmem : controller ∈ registering)
    (i : RegistrationInput) :
    (registrationClient controller).calls s i =
        (r.outputs registering registered i).filterMap (registering? controller) ∧
      undecided (s.step i) = (r.step i).undecided ∧
      ∃ r', Agrees registering registered (s.step i) r' := by
  obtain ⟨hout, hnext⟩ := agrees_step h (List.ne_nil_of_mem hmem) i
  refine ⟨?_, undecided_eq hnext, _, hnext⟩
  rw [← hout]
  rfl

/-- An app that has aborted tells nobody anything. -/
theorem aborted_silent (haborted : r.aborted = true) (i : RegistrationInput) :
    (r.outputs registering registered i).filterMap (registering? controller) = [] ∧
      (r.step i).undecided = r.undecided := by
  simp [Reference.outputs, Reference.step, haborted]

/-- A tap shows the indicator exactly if it starts an attempt. -/
theorem registration_tap (h : Agrees registering registered s r) (hmem : controller ∈ registering) :
    (starts s = false ∧
        (registrationClient controller).calls s .signupButtonTapped = [] ∧
        undecided (s.step .signupButtonTapped) = undecided s) ∨
      (starts s = true ∧
        (registrationClient controller).calls s .signupButtonTapped ≠ [] ∧
        (∀ x ∈ (registrationClient controller).calls s .signupButtonTapped, x = true) ∧
        undecided (s.step .signupButtonTapped) = true) := by
  obtain ⟨hcalls, hnext, -⟩ := calls_eq h hmem .signupButtonTapped
  have hfirst := congrArg Option.isSome h.running.first
  rw [Option.isSome_map] at hfirst
  rw [hcalls, hnext, undecided_eq h, starts, hfirst, h.aborted_eq]
  cases haborted : r.aborted with
  | true =>
    exact .inl ⟨rfl, aborted_silent haborted .signupButtonTapped⟩
  | false =>
    cases hsampled : RegistrationViewModel.sampled r.values with
    | none =>
      left
      simp [Reference.outputs, Reference.runningOutputs, Reference.step, Reference.runningStep,
        hsampled, haborted]
    | some v =>
      right
      obtain ⟨hsome, hall⟩ := told hmem true [.performRegistration (r.attempts + 1) v] rfl
      have hout : r.outputs registering registered .signupButtonTapped =
          registering.map (fun k => Output.isRegistering k true) ++
            [.performRegistration (r.attempts + 1) v] := by
        simp [Reference.outputs, Reference.runningOutputs, hsampled, haborted]
      rw [hout]
      refine ⟨rfl, hsome, hall, ?_⟩
      simp [Reference.step, Reference.runningStep, hsampled, haborted, Reference.undecided]

/-- The outcome of the latest attempt hides the indicator; no other callback
and no text does anything to it. -/
theorem registration_callback (h : Agrees registering registered s r)
    (hmem : controller ∈ registering) {i : RegistrationInput} (hi : i ≠ .signupButtonTapped) :
    ((registrationClient controller).calls s i = [] ∧ undecided (s.step i) = undecided s) ∨
      ((registrationClient controller).calls s i ≠ [] ∧
        (∀ x ∈ (registrationClient controller).calls s i, x = false) ∧
        undecided (s.step i) = false) := by
  obtain ⟨hcalls, hnext, -⟩ := calls_eq h hmem i
  rw [hcalls, hnext, undecided_eq h]
  cases haborted : r.aborted with
  | true => exact .inl (aborted_silent haborted i)
  | false =>
    have houtputs : r.outputs registering registered i =
        match r.decided i with
        | none => []
        | some (attempt, success) =>
          if attempt = r.attempts then
            registering.map (fun k => .isRegistering k false) ++
              registered.map (fun k => .isRegistered k success)
          else [] := by
      simp only [Reference.outputs, haborted]
      cases i <;> first | rfl | exact absurd rfl hi
    have hstep : r.step i = r.runningStep i := by simp [Reference.step, haborted]
    rw [houtputs, hstep, undecided_runningStep r i hi]
    cases hdecided : r.decided i with
    | none => exact .inl ⟨rfl, rfl⟩
    | some d =>
      obtain ⟨attempt, success⟩ := d
      by_cases hcur : attempt = r.attempts
      · obtain ⟨hsome, hall⟩ :=
          told hmem false _ (not_told controller registered success)
        simp only [hcur, if_true]
        exact .inr ⟨hsome, hall, trivial⟩
      · simp [hcur]

theorem registration_reports (registered : List κ) (hmem : controller ∈ registering) :
    (registrationClient controller).Reports
      (fun s => ∃ r, Agrees registering registered s r) undecided where
  keeps s i h := by
    obtain ⟨r, hagree⟩ := h
    exact (calls_eq hagree hmem i).2.2
  uniform s i h := by
    obtain ⟨r, hagree⟩ := h
    by_cases htap : i = .signupButtonTapped
    · subst htap
      rcases registration_tap hagree hmem with ⟨-, hnone, -⟩ | ⟨-, -, hall, -⟩
      · simp [hnone]
      · exact .inl hall
    · rcases registration_callback hagree hmem htap with ⟨hnone, -⟩ | ⟨-, hall, -⟩
      · simp [hnone]
      · exact .inr hall
  silent s i h hnone := by
    obtain ⟨r, hagree⟩ := h
    by_cases htap : i = .signupButtonTapped
    · subst htap
      rcases registration_tap hagree hmem with ⟨-, -, hsame⟩ | ⟨-, hsome, -⟩
      · exact hsame
      · exact absurd hnone hsome
    · rcases registration_callback hagree hmem htap with ⟨-, hsame⟩ | ⟨hsome, -⟩
      · exact hsame
      · exact absurd hnone hsome
  hidden s i h hfalse := by
    obtain ⟨r, hagree⟩ := h
    by_cases htap : i = .signupButtonTapped
    · subst htap
      rcases registration_tap hagree hmem with ⟨-, hnone, -⟩ | ⟨-, -, hall, -⟩
      · simp [hnone] at hfalse
      · exact absurd (hall false hfalse) (by simp)
    · rcases registration_callback hagree hmem htap with ⟨hnone, -⟩ | ⟨-, -, hended⟩
      · simp [hnone] at hfalse
      · exact hended

/-- In every state of the registration screen the indicator is shown exactly
if the latest attempt is undecided, once the HUD's transitions are over. This
is so exactly as long as no tap starts an attempt while the HUD is on its way
out. -/
theorem registration_displayed_iff [DecidableEq ν] (registering registered : List κ)
    (hmem : controller ∈ registering) (view : ν) (before : List (ProgressHUD.Input ν))
    (hremoved : (run JGProgressHUD.step {} before).settled.superview = none)
    (inputs : List (DisplayInput RegistrationInput)) :
    EveryState ((registrationClient controller).displayStep view)
        ((registrationClient controller).Displayed undecided view)
        ⟨RegistrationScreen.bound registering registered, run JGProgressHUD.step {} before⟩ inputs ↔
      EveryStep ((registrationClient controller).displayStep view)
        (fun s i => i = .client .signupButtonTapped →
          starts s.screen = true → s.hud.Accepts)
        ⟨RegistrationScreen.bound registering registered, run JGProgressHUD.step {} before⟩
        inputs := by
  have hknown : ∃ r, Agrees registering registered
      (RegistrationScreen.bound registering registered) r :=
    ⟨{}, agrees_bound registering registered⟩
  have hreports := registration_reports registered hmem
  obtain ⟨hview, hgoal⟩ :=
    inView_of_removed (registrationClient controller) view before hremoved
  refine (hreports.displayed_iff _ hknown hview
    ((Client.displayed_iff_goal hview).mpr hgoal) inputs).trans ?_
  refine everyStep_congr_of_invariant
    (fun s => ∃ r, Agrees registering registered s.screen r) ?_ ?_ _ _ hknown
  · rintro s i ⟨r, hagree⟩
    cases i with
    | animationFinished => simp [Client.InStep]
    | client i =>
      by_cases htap : i = .signupButtonTapped
      · subst htap
        rcases registration_tap hagree hmem with ⟨hnot, hnone, -⟩ | ⟨hstarts, hsome, hall, hbusy⟩
        · simp [Client.InStep, hnone, hnot]
        · have htrue :
              true ∈ (registrationClient controller).calls s.screen .signupButtonTapped := by
            obtain ⟨x, hx⟩ := List.exists_mem_of_ne_nil _ hsome
            rwa [hall x hx] at hx
          have hbusy' : undecided ((registrationClient controller).step s.screen
              .signupButtonTapped) = true := hbusy
          simp [Client.InStep, htrue, hstarts, hbusy']
      · have hnever : true ∉ (registrationClient controller).calls s.screen i := by
          rcases registration_callback hagree hmem htap with ⟨hnone, -⟩ | ⟨-, hall, -⟩
          · simp [hnone]
          · exact fun htrue => absurd (hall true htrue) (by simp)
        simp [Client.InStep, htap, hnever]
  · rintro s i hex
    cases i with
    | animationFinished => exact hex
    | client i => exact hreports.keeps s.screen i hex

/-- The second tap comes when the HUD has faded out. -/
theorem registration_displayed_retry :
    EveryState ((registrationClient ()).displayStep ())
      ((registrationClient ()).Displayed undecided ())
      ⟨RegistrationScreen.bound [()] [()], run JGProgressHUD.step {} []⟩
      [.client .signupButtonTapped, .client (.send .email "ann@mail.com"),
        .client (.send .fullName "Ann"), .client (.send .userType "Rider"),
        .client (.send .password "password1"), .client .signupButtonTapped,
        .client (.createUserCallback 1 none (.error .networkError)), .animationFinished,
        .animationFinished, .client .signupButtonTapped] :=
  (registration_displayed_iff [()] [()] (by decide) () [] (by decide) _).mpr
    ⟨fun _ _ => by decide, nofun, nofun, nofun, nofun, fun _ _ => by decide, nofun, nofun, nofun,
      fun _ _ => by decide, trivial⟩

end Mber.RegistrationIndicator
