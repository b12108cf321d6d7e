import Mber.LoginBindings
import Mber.RegistrationBindings

/-!
What the confirm buttons promise: an enabled button submits a valid form. In
both forms the button and the tap get their values by separate subscriptions.
Registration keeps the promise over every run; login keeps it until the
current attempt fails.
-/
namespace Mber.FormSubmission

open Runs FormControls Firebase LoginRefinement LoginBindings RegistrationBindings

/-- In every state the login button shows the validity of what a tap would
submit, and whatever is submitted is valid. -/
def LoginSubmitsValid (ops : StringOps) (others : List Subscriber)
    (inputs : List LoginBindings.ControllerInput) : Prop :=
  EveryState (LoginController.step ops) (LoginController.Submits ops)
      (LoginController.create ops others) inputs ∧
    EveryStep (LoginController.step ops) (LoginController.CallsValid ops)
      (LoginController.create ops others) inputs

/-- The same for the sign-up button. -/
def RegistrationSubmitsValid {κ : Type*} (ops : StringOps) (registering registered : List κ)
    (inputs : List RegistrationBindings.ControllerInput) : Prop :=
  EveryState (RegistrationController.step ops) (RegistrationController.Submits ops)
      (RegistrationController.create ops registering registered) inputs ∧
    EveryStep (RegistrationController.step ops) (RegistrationController.CallsValid ops)
      (RegistrationController.create ops registering registered) inputs

/-- No input of the run answers the current login attempt with an error. -/
def NoAttemptFails (ops : StringOps) (others : List Subscriber)
    (inputs : List LoginBindings.ControllerInput) : Prop :=
  EveryStep (LoginController.step ops) (fun vc i => ¬ vc.Fails i)
    (LoginController.create ops others) inputs

/-- Both forms keep the promise exactly if no login attempt fails while it is
the current one. Without this, the sign-up form still does, no invalid login is
submitted, and the login button is right whenever a tap would submit anything. -/
theorem submits_valid_iff {κ : Type*} (ops : StringOps) (others : List Subscriber)
    (inputs : List LoginBindings.ControllerInput) (registering registered : List κ)
    (registrationInputs : List RegistrationBindings.ControllerInput) :
    (LoginSubmitsValid ops others inputs ∧
        RegistrationSubmitsValid ops registering registered registrationInputs ↔
      NoAttemptFails ops others inputs) ∧
    RegistrationSubmitsValid ops registering registered registrationInputs ∧
    EveryState (LoginController.step ops) (LoginController.ShowsSampled ops)
      (LoginController.create ops others) inputs ∧
    EveryStep (LoginController.step ops) (LoginController.CallsValid ops)
      (LoginController.create ops others) inputs := by
  have hlogin := login_submits_iff ops others inputs
  have hcalls := login_callsValid ops others inputs
  have hregistration : RegistrationSubmitsValid ops registering registered registrationInputs :=
    ⟨registration_submits ops registering registered registrationInputs,
      registration_callsValid ops registering registered registrationInputs⟩
  refine ⟨?_, hregistration, login_showsSampled ops others inputs, hcalls⟩
  constructor
  · intro h
    exact hlogin.mp h.1.1
  · exact fun h => ⟨⟨hlogin.mpr h, hcalls⟩, hregistration⟩

/-- On texts of plain letters, signs and digits Swift counts and compares like this. -/
def plainOps : StringOps where
  count := String.length
  equal := fun a b => a == b

/-- A valid form, a tap, a wrong password. -/
def failedLogin : List LoginBindings.ControllerInput :=
  [.edit .email "ann@mail.com", .edit .password "password1", .tap,
    .signInCallback 1 (.error .wrongPassword)]

/-- The login screen after these inputs. -/
def afterFailure : LoginController :=
  run (LoginController.step plainOps) (LoginController.create plainOps [.other 0]) failedLogin

/-- The button stays enabled, yet a tap would submit nothing. -/
theorem enabled_after_failure :
    afterFailure.loginButton.isEnabled = true ∧ afterFailure.sampled.isNone = true ∧
      ¬ LoginSubmitsValid plainOps [.other 0] failedLogin := by
  have hstate : afterFailure.loginButton.isEnabled = true ∧
      afterFailure.sampled.isNone = true := by decide +kernel
  refine ⟨hstate.1, hstate.2, ?_⟩
  intro h
  obtain ⟨-, -, -, -, v, hv, -⟩ := h.1
  have hsome : afterFailure.sampled = some v := hv
  simp [hsome] at hstate

end Mber.FormSubmission
