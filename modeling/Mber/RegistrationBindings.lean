import Mber.RegistrationRefinement
import Mber.FormControls
import Mber.EmailAddress

/-!
RegistrationController with its RegistrationViewModel. Three text fields and the
segment feed the four relays. One shared stream of combinations serves both the
button and the sampling of a tap. The button joins it after the first
combination, and misses that one; its own start says the same.
-/
namespace Mber.RegistrationBindings

open Sinks SharedSequences FormControls EmailAddress AuthManager Firebase RegistrationPipeline
  RegistrationRefinement Runs

/-- The closure of `isFormValid`. -/
def isFormValid (ops : StringOps) (v : Register) : Bool :=
  isValidEmailAddress v.email && decide (2 < ops.count v.fullName) &&
    decide (6 < ops.count v.password)

inductive InputContainer
  | email
  | fullName
  | password
  deriving DecidableEq

/-- The relay that a container's text is bound to. -/
def InputContainer.relay : InputContainer → Field
  | .email => .email
  | .fullName => .fullName
  | .password => .password

structure RegistrationController (κ : Type*) where
  screen : RegistrationScreen κ
  inputText : InputContainer → TextField := fun _ => {}
  selectedSegmentIndex : ℤ := 0
  signUpButton : ConfirmButton := {}

inductive ControllerInput
  | edit (c : InputContainer) (text : String)
  | selectSegment (index : ℤ)
  | tap
  | createUserCallback (attempt : ℕ) (currentUser : Option Uid) (result : Except AuthError Uid)
  | setDataCallback (attempt : ℕ) (ok : Bool)

namespace RegistrationController

variable {κ : Type*} (ops : StringOps)

/-- What the listeners of `registrationValues` hear when a relay sends a text. -/
def valuesSent (vm : RegistrationViewModel κ) (f : Field) (text : String) :
    List (ValuesObserver × Event AuthError (Field → String)) :=
  (vm.registrationValues.onAll ((vm.combineLatest.next f text).2.toList.map Event.next)).2

/-- `isFormValid` is one of these listeners; it drives the button. -/
def hear (b : ConfirmButton) :
    ValuesObserver × Event AuthError (Field → String) → ConfirmButton
  | (.isFormValid, .next v) => b.receive (isFormValid ops (register v))
  | _ => b

def send (vc : RegistrationController κ) (f : Field) (text : String) : RegistrationController κ :=
  { vc with
    screen := (vc.screen.runningReact (.send f text)).1
    signUpButton := (valuesSent vc.screen.viewModel f text).foldl (hear ops) vc.signUpButton }

/-- A text field has reacted; what got through goes to its relay. -/
def changed (vc : RegistrationController κ) (c : InputContainer) (r : TextField × Option String) :
    RegistrationController κ :=
  let vc := { vc with inputText := Function.update vc.inputText c r.1 }
  r.2.elim vc (vc.send ops c.relay)

def bindText (vc : RegistrationController κ) (c : InputContainer) : RegistrationController κ :=
  vc.changed ops c ((vc.inputText c).send ops)

/-- The segment sends the title of what is selected. -/
def sendTitle (vc : RegistrationController κ) : RegistrationController κ :=
  vc.send ops .userType (selectedTitle vc.selectedSegmentIndex)

/-- The driver of the button joins the listeners. -/
def drive (vc : RegistrationController κ) : RegistrationController κ :=
  let r := vc.screen.viewModel.registrationValues.subscribe .isFormValid
  { vc with
    screen := { vc.screen with viewModel := { vc.screen.viewModel with registrationValues := r.1 } }
    signUpButton := (r.2.map (fun v => (v.1, .next v.2))).foldl (hear ops) vc.signUpButton }

/-- The controls are bound to the relays. -/
def bindInputs (vc : RegistrationController κ) : RegistrationController κ :=
  let vc := vc.bindText ops .email
  let vc := vc.bindText ops .fullName
  let vc := vc.bindText ops .password
  vc.sendTitle ops

/-- `create(with:)`: the bindings in their order. Nothing is sent to
`isRegistering` and `isRegistered` before the first tap, so their listeners
may stand there from the start. -/
def create (registering registered : List κ) : RegistrationController κ :=
  let vc : RegistrationController κ := { screen := RegistrationScreen.bound registering registered }
  (vc.bindInputs ops).drive ops

/-- A tap gets through or a callback runs. -/
def call (vc : RegistrationController κ) (i : RegistrationInput) :
    RegistrationController κ × List (Output κ) :=
  ({ vc with screen := (vc.screen.runningReact i).1 }, (vc.screen.runningReact i).2)

/-- A disabled button is not tapped. -/
def runningReact (vc : RegistrationController κ) :
    ControllerInput → RegistrationController κ × List (Output κ)
  | .edit c text => (vc.changed ops c ((vc.inputText c).edit ops text), [])
  | .selectSegment index => ({ vc with selectedSegmentIndex := index }.sendTitle ops, [])
  | .tap => if vc.signUpButton.isEnabled then vc.call .signupButtonTapped else (vc, [])
  | .createUserCallback attempt currentUser result =>
    vc.call (.createUserCallback attempt currentUser result)
  | .setDataCallback attempt ok => vc.call (.setDataCallback attempt ok)

/-- An app that has aborted does nothing more. -/
def react (vc : RegistrationController κ) (i : ControllerInput) :
    RegistrationController κ × List (Output κ) :=
  if vc.screen.aborted then (vc, []) else vc.runningReact ops i

def step (vc : RegistrationController κ) (i : ControllerInput) : RegistrationController κ :=
  (vc.react ops i).1

/-- The values that a tap would sample. -/
def sampled (vc : RegistrationController κ) : Option Register :=
  vc.screen.viewModel.withLatestFrom.first.map register

/-- A tap would sample some values, and the button shows whether they are valid. -/
def Submits (vc : RegistrationController κ) : Prop :=
  ∃ v, vc.sampled = some v ∧ vc.signUpButton.isEnabled = isFormValid ops v

/-- Whatever an input makes the view model submit is valid. -/
def CallsValid (vc : RegistrationController κ) (i : ControllerInput) : Prop :=
  ∀ attempt values, .performRegistration attempt values ∈ (vc.react ops i).2 →
    isValidEmailAddress values.email = true ∧ 2 < ops.count values.fullName ∧
      6 < ops.count values.password

end RegistrationController

section Frame

variable {κ : Type*}

/-- The same texts, the same listeners and the same sample. -/
structure SameValues (vm vm' : RegistrationViewModel κ) : Prop where
  combineLatest : vm'.combineLatest = vm.combineLatest
  registrationValues : vm'.registrationValues = vm.registrationValues
  withLatestFrom : vm'.withLatestFrom = vm.withLatestFrom

theorem SameValues.refl (vm : RegistrationViewModel κ) : SameValues vm vm := ⟨rfl, rfl, rfl⟩

theorem SameValues.trans {vm vm' vm'' : RegistrationViewModel κ} (h : SameValues vm vm')
    (h' : SameValues vm' vm'') : SameValues vm vm'' :=
  ⟨h'.combineLatest.trans h.combineLatest, h'.registrationValues.trans h.registrationValues,
    h'.withLatestFrom.trans h.withLatestFrom⟩

theorem tapped_sameValues (vm : RegistrationViewModel κ) :
    SameValues vm vm.signupButtonTapped.1 := by
  unfold RegistrationViewModel.signupButtonTapped
  cases vm.withLatestFrom.first with
  | none => exact SameValues.refl vm
  | some v => exact ⟨rfl, rfl, rfl⟩

theorem deliver_sameValues (vm : RegistrationViewModel κ) (attempt : ℕ)
    (e : Event AuthError Bool) : SameValues vm (vm.deliver attempt e).1 := by
  simp only [RegistrationViewModel.deliver]
  split <;> exact ⟨rfl, rfl, rfl⟩

theorem deliverAll_sameValues (vm : RegistrationViewModel κ) (attempt : ℕ)
    (events : List (Event AuthError Bool)) :
    SameValues vm (vm.deliverAll attempt events).1 := by
  induction events generalizing vm with
  | nil => exact SameValues.refl vm
  | cons e rest ih => exact (deliver_sameValues vm attempt e).trans (ih _)

/-- Only a relay's text changes the values. -/
theorem runningReact_sameValues (s : RegistrationScreen κ) (i : RegistrationInput)
    (hsend : ∀ f text, i ≠ .send f text) :
    SameValues s.viewModel (s.runningReact i).1.viewModel := by
  cases i with
  | send f text => exact absurd rfl (hsend f text)
  | signupButtonTapped => exact tapped_sameValues s.viewModel
  | createUserCallback attempt currentUser result =>
    simp only [RegistrationScreen.runningReact]
    split
    · split_ifs
      · exact SameValues.refl _
      · exact deliverAll_sameValues _ _ _
    · exact SameValues.refl _
  | setDataCallback attempt ok =>
    simp only [RegistrationScreen.runningReact]
    split
    · exact deliverAll_sameValues _ _ _
    · exact SameValues.refl _

end Frame

namespace RegistrationController

variable {κ : Type*} {ops : StringOps} {vc : RegistrationController κ}

/-- The relays have sent these texts, both listeners have heard them together,
and the button shows their validity. -/
structure Consistent (ops : StringOps) (vc : RegistrationController κ) (v : Field → String) :
    Prop where
  combined : vc.screen.viewModel.combineLatest.latestElement = fun f => some (v f)
  shared : vc.screen.viewModel.registrationValues =
    { replay := false, observers := [.withLatestFrom, .isFormValid] }
  latest : vc.screen.viewModel.withLatestFrom.latest = some v
  shows : vc.signUpButton.Shows (isFormValid ops (register v))

/-- Before the driver listens, a relay's text does not reach the button. -/
theorem send_undriven (h : vc.screen.viewModel.registrationValues =
      { replay := false, observers := [.withLatestFrom] }) (f : Field) (text : String) :
    vc.send ops f text = { vc with screen := (vc.screen.runningReact (.send f text)).1 } := by
  have hsilent : (valuesSent vc.screen.viewModel f text).foldl (hear ops) vc.signUpButton =
      vc.signUpButton := by
    unfold valuesSent
    cases (vc.screen.viewModel.combineLatest.next f text).2 <;>
      simp [h, ShareConnection.onAll, ShareConnection.on, hear]
  rw [send, hsilent]

/-- The button is untouched while the relays have sent these values. -/
structure Undriven (vc : RegistrationController κ) (registering registered : List κ)
    (values : Field → Option String) : Prop where
  running : vc.screen.viewModel.Running registering registered 0 values false
  button : vc.signUpButton = {}

variable {registering registered : List κ} {values : Field → Option String}

theorem Undriven.send (ops : StringOps) (h : vc.Undriven registering registered values)
    (f : Field) (text : String) :
    (vc.send ops f text).Undriven registering registered
      (Function.update values f (some text)) := by
  rw [send_undriven h.running.shared]
  exact ⟨h.running.send f text, h.button⟩

/-- A fresh text field sends the empty text. -/
theorem bindText_fresh {c : InputContainer} (hfresh : vc.inputText c = {}) :
    vc.bindText ops c = { vc with
      inputText := Function.update vc.inputText c (TextField.send ops {}).1 }.send
        ops c.relay "" := by
  simp [bindText, changed, hfresh, TextField.send, DistinctUntilChangedSink.next]

theorem Undriven.bindText (ops : StringOps) (h : vc.Undriven registering registered values)
    (c : InputContainer) (hfresh : vc.inputText c = {}) :
    (vc.bindText ops c).Undriven registering registered
      (Function.update values c.relay (some "")) := by
  have hfield : ({ vc with inputText := Function.update vc.inputText c (TextField.send ops {}).1 } :
      RegistrationController κ).Undriven registering registered values := ⟨h.running, h.button⟩
  rw [bindText_fresh hfresh]
  exact hfield.send ops c.relay ""

/-- The texts of a form that nobody has touched. -/
def untouched : Field → String
  | .userType => "Rider"
  | _ => ""

theorem untouched_invalid (ops : StringOps) : isFormValid ops (register untouched) = false := by
  have hempty : isValidEmailAddress "" = false := by decide
  simp [isFormValid, register, untouched, hempty]

theorem undriven_bindInputs (ops : StringOps) (registering registered : List κ) :
    (({ screen := RegistrationScreen.bound registering registered } :
      RegistrationController κ).bindInputs ops).Undriven registering registered
        (fun f => some (untouched f)) := by
  have hstart : ({ screen := RegistrationScreen.bound registering registered } :
      RegistrationController κ).Undriven registering registered (fun _ => none) :=
    ⟨RegistrationViewModel.bound_running registering registered, rfl⟩
  have hemail := hstart.bindText ops .email rfl
  have hfullName := hemail.bindText ops .fullName rfl
  have hpassword := hfullName.bindText ops .password rfl
  have htitle := hpassword.send ops .userType "Rider"
  have hvalues : (fun f => some (untouched f)) = Function.update (Function.update
      (Function.update (Function.update (fun _ => none) .email (some "")) .fullName (some ""))
        .password (some "")) .userType (some "Rider") := by
    funext f
    cases f <;> rfl
  rw [hvalues]
  exact htitle

/-- The missed combination is not valid, and the button starts disabled. -/
theorem consistent_create (ops : StringOps) (registering registered : List κ) :
    (create ops registering registered).Consistent ops untouched := by
  have h := undriven_bindInputs ops registering registered
  have hshared := h.running.shared
  simp only [create, drive, ShareConnection.subscribe, hshared]
  refine ⟨h.running.combined, rfl, ?_, ?_⟩
  · exact h.running.latest.trans (CombineLatestSink.getResult_of_values h.running.combined)
  · rw [untouched_invalid]
    simp [h.button, ConfirmButton.shows_init]

variable {v : Field → String}

theorem Consistent.send (h : vc.Consistent ops v) (f : Field) (text : String) :
    (vc.send ops f text).Consistent ops (Function.update v f text) := by
  have hcombined := CombineLatestSink.set_of_values h.combined f text
  have hresult := CombineLatestSink.getResult_of_values hcombined
  -- the sampling listener is served first, then the button
  have hsent : vc.screen.viewModel.registrationValues.onAll
      [(.next (Function.update v f text) : Event AuthError (Field → String))] =
        (vc.screen.viewModel.registrationValues,
          [(.withLatestFrom, .next (Function.update v f text)),
            (.isFormValid, .next (Function.update v f text))]) := by
    simp [h.shared, ShareConnection.onAll, ShareConnection.on]
  have hviewModel : (vc.send ops f text).screen.viewModel = { vc.screen.viewModel with
      combineLatest := vc.screen.viewModel.combineLatest.set f text
      withLatestFrom := ⟨some (Function.update v f text)⟩ } := by
    simp only [RegistrationController.send, RegistrationScreen.runningReact,
      RegistrationViewModel.send, CombineLatestSink.next, hresult, Option.toList_some,
      List.map_cons, List.map_nil, hsent]
    rfl
  have hbutton : (vc.send ops f text).signUpButton =
      vc.signUpButton.receive (isFormValid ops (register (Function.update v f text))) := by
    simp only [RegistrationController.send, valuesSent, CombineLatestSink.next, hresult,
      Option.toList_some, List.map_cons, List.map_nil, hsent]
    rfl
  refine ⟨?_, ?_, ?_, ?_⟩
  · rw [hviewModel]
    exact hcombined
  · rw [hviewModel]
    exact h.shared
  · rw [hviewModel]
  · rw [hbutton]
    exact h.shows.receive _

theorem Consistent.changed (h : vc.Consistent ops v) (c : InputContainer)
    (p : TextField × Option String) : ∃ v', (vc.changed ops c p).Consistent ops v' := by
  have hfield : ({ vc with inputText := Function.update vc.inputText c p.1 } :
      RegistrationController κ).Consistent ops v := ⟨h.combined, h.shared, h.latest, h.shows⟩
  obtain ⟨t, sent⟩ := p
  cases sent with
  | none => exact ⟨v, hfield⟩
  | some text => exact ⟨_, hfield.send c.relay text⟩

/-- The screen gets any other input. -/
theorem Consistent.call (h : vc.Consistent ops v) (i : RegistrationInput)
    (hsend : ∀ f text, i ≠ .send f text) : (vc.call i).1.Consistent ops v := by
  have hsame : SameValues vc.screen.viewModel (vc.call i).1.screen.viewModel :=
    runningReact_sameValues vc.screen i hsend
  refine ⟨?_, ?_, ?_, h.shows⟩
  · rw [hsame.combineLatest]
    exact h.combined
  · rw [hsame.registrationValues]
    exact h.shared
  · rw [hsame.withLatestFrom]
    exact h.latest

theorem consistent_runningStep (h : vc.Consistent ops v) (i : ControllerInput) :
    ∃ v', (vc.runningReact ops i).1.Consistent ops v' := by
  cases i with
  | edit c text => exact h.changed c ((vc.inputText c).edit ops text)
  | selectSegment index =>
    have hselected : ({ vc with selectedSegmentIndex := index } :
        RegistrationController κ).Consistent ops v := ⟨h.combined, h.shared, h.latest, h.shows⟩
    exact ⟨_, hselected.send .userType (selectedTitle index)⟩
  | tap =>
    refine ⟨v, ?_⟩
    simp only [runningReact]
    split_ifs
    · exact h.call .signupButtonTapped (by simp)
    · exact h
  | createUserCallback attempt currentUser result =>
    exact ⟨v, h.call (.createUserCallback attempt currentUser result) (by simp)⟩
  | setDataCallback attempt ok => exact ⟨v, h.call (.setDataCallback attempt ok) (by simp)⟩

theorem consistent_step (h : vc.Consistent ops v) (i : ControllerInput) :
    ∃ v', (vc.step ops i).Consistent ops v' := by
  simp only [step, react]
  split_ifs
  · exact ⟨v, h⟩
  · exact consistent_runningStep h i

/-- A tap samples what the button judges. -/
theorem Consistent.sampled (h : vc.Consistent ops v) : vc.sampled = some (register v) := by
  simp [RegistrationController.sampled, WithLatestFromSink.first, h.latest]

theorem Consistent.submits (h : vc.Consistent ops v) : vc.Submits ops :=
  ⟨register v, h.sampled, h.shows.isEnabled_eq⟩

/-- What the two relays send on is no call. -/
theorem relays_perform_nothing (sent : List (κ × Event AuthError Bool)) (attempt : ℕ)
    (values : Register) :
    .performRegistration attempt values ∉ sent.filterMap registering? ∧
      .performRegistration attempt values ∉ sent.filterMap registered? := by
  constructor
  all_goals
    intro hmem
    obtain ⟨⟨k, e⟩, -, he⟩ := List.mem_filterMap.mp hmem
    cases e <;> simp [registering?, registered?] at he

/-- An attempt's events make no calls. -/
theorem performed_deliverAll (vm : RegistrationViewModel κ) (attempt : ℕ)
    (events : List (Event AuthError Bool)) (attempt' : ℕ) (values : Register) :
    .performRegistration attempt' values ∉ (vm.deliverAll attempt events).2 := by
  induction events generalizing vm with
  | nil => simp [RegistrationViewModel.deliverAll]
  | cons e rest ih =>
    simp only [RegistrationViewModel.deliverAll, List.mem_append, not_or]
    refine ⟨?_, ih _⟩
    simp only [RegistrationViewModel.deliver]
    split
    · simp only [List.mem_append, not_or]
      exact ⟨(relays_perform_nothing _ _ _).1, (relays_perform_nothing _ _ _).2⟩
    · simp

/-- A tap calls with what it samples. -/
theorem performed_tap (vm : RegistrationViewModel κ) (attempt : ℕ) (values : Register)
    (hcall : .performRegistration attempt values ∈ vm.signupButtonTapped.2) :
    vm.withLatestFrom.first.map register = some values := by
  unfold RegistrationViewModel.signupButtonTapped at hcall
  cases hfirst : vm.withLatestFrom.first with
  | none => simp [hfirst] at hcall
  | some v =>
    simp only [hfirst, List.mem_append, List.mem_singleton] at hcall
    rcases hcall with hcall | hcall
    · exact absurd hcall (relays_perform_nothing _ _ _).1
    · obtain ⟨-, rfl⟩ : _ ∧ values = register v := by simpa using hcall
      rfl

/-- A callback makes no calls. -/
theorem performed_call (vc : RegistrationController κ) (i : RegistrationInput)
    (htap : i ≠ .signupButtonTapped) (attempt : ℕ) (values : Register) :
    .performRegistration attempt values ∉ (vc.call i).2 := by
  cases i with
  | send f text => simp [call, RegistrationScreen.runningReact]
  | signupButtonTapped => exact absurd rfl htap
  | createUserCallback attempt' currentUser result =>
    simp only [call, RegistrationScreen.runningReact]
    split
    · split_ifs
      · simp
      · exact performed_deliverAll _ _ _ _ _
    · simp
  | setDataCallback attempt' ok =>
    simp only [call, RegistrationScreen.runningReact]
    split
    · exact performed_deliverAll _ _ _ _ _
    · simp

/-- A tap gets through an enabled button only. -/
theorem Consistent.callsValid (h : vc.Consistent ops v) (i : ControllerInput) :
    vc.CallsValid ops i := by
  intro attempt values hcall
  unfold react at hcall
  split_ifs at hcall with haborted
  · simp at hcall
  cases i with
  | edit c text => simp [runningReact] at hcall
  | selectSegment index => simp [runningReact] at hcall
  | tap =>
    simp only [runningReact] at hcall
    split_ifs at hcall with henabled
    · have hsampled : vc.sampled = some values := performed_tap _ attempt values hcall
      obtain rfl : register v = values := by simpa [h.sampled] using hsampled
      have hvalid := h.shows.isEnabled_eq.symm.trans henabled
      simpa [isFormValid, and_assoc] using hvalid
    · simp at hcall
  | createUserCallback attempt' currentUser result =>
    exact absurd hcall (performed_call vc _ (by simp) attempt values)
  | setDataCallback attempt' ok =>
    exact absurd hcall (performed_call vc _ (by simp) attempt values)

end RegistrationController

open RegistrationController

variable {κ : Type*} (ops : StringOps) (registering registered : List κ)
  (inputs : List ControllerInput)

/-- At any moment a tap would submit what the button shows. -/
theorem registration_submits : EveryState (RegistrationController.step ops) (Submits ops)
    (create ops registering registered) inputs := by
  refine everyState_of_invariant (fun vc => ∃ v, vc.Consistent ops v) ?_ ?_ _ _
    ⟨untouched, consistent_create ops registering registered⟩
  · intro vc hvc
    obtain ⟨v, h⟩ := hvc
    exact h.submits
  · intro vc i hvc
    obtain ⟨v, h⟩ := hvc
    exact consistent_step h i

theorem registration_callsValid : EveryStep (RegistrationController.step ops) (CallsValid ops)
    (create ops registering registered) inputs := by
  refine everyStep_of_invariant (fun vc => ∃ v, vc.Consistent ops v) ?_ _ _
    ⟨untouched, consistent_create ops registering registered⟩
  intro vc i hvc
  obtain ⟨v, h⟩ := hvc
  exact ⟨h.callsValid i, consistent_step h i⟩

end Mber.RegistrationBindings
