import Mber.LoginRefinement
import Mber.FormControls
import Mber.EmailAddress

/-!
LoginController with its LoginViewModel. The two text fields feed the two
subjects. From there the values go two ways: to the combination behind
`isValidForm`, which drives the button, and to the one that a tap samples. The
ways part when a failed attempt ends the second.
-/
namespace Mber.LoginBindings

open Sinks FormControls EmailAddress AuthManager Firebase LoginPipeline LoginRefinement Runs

/-- The closure of `isValidForm`. -/
def isValidForm (ops : StringOps) (v : Field → String) : Bool :=
  isValidEmailAddress (v .email) && decide (6 < ops.count (v .password))

/-- `combineLatest` belongs to `isValidForm`; it is subscribed once `driven`. -/
structure LoginController where
  screen : LoginScreen := { viewModel := {} }
  inputText : Field → TextField := fun _ => {}
  combineLatest : CombineLatestSink Field String := {}
  driven : Bool := false
  loginButton : ConfirmButton := {}

inductive ControllerInput
  | edit (f : Field) (text : String)
  | tap
  | signInCallback (attempt : ℕ) (result : Except AuthError Uid)

namespace LoginController

variable (ops : StringOps)

/-- A subject sends a text to the combination behind `isValidForm`. -/
def combine (vc : LoginController) (f : Field) (text : String) : LoginController :=
  let c := vc.combineLatest.next f text
  { vc with
    combineLatest := c.1
    loginButton := c.2.elim vc.loginButton
      (fun v => vc.loginButton.receive (isValidForm ops v)) }

/-- A subject receives a text. `isValidForm` has subscribed to it first. -/
def send (vc : LoginController) (f : Field) (text : String) : LoginController :=
  let sent := if vc.driven then vc.combine ops f text else vc
  { sent with screen := sent.screen.step (.send f text) }

/-- A text field has reacted; what got through goes to its subject. -/
def changed (vc : LoginController) (f : Field) (r : TextField × Option String) : LoginController :=
  let vc := { vc with inputText := Function.update vc.inputText f r.1 }
  r.2.elim vc (vc.send ops f)

def bindText (vc : LoginController) (f : Field) : LoginController :=
  vc.changed ops f ((vc.inputText f).send ops)

/-- The driver of the button is subscribed; the subjects send what they hold. -/
def drive (vc : LoginController) : LoginController :=
  let vc := { vc with driven := true }
  let vc := vc.combine ops .email (vc.screen.viewModel.subject .email)
  vc.combine ops .password (vc.screen.viewModel.subject .password)

def subscribe (vc : LoginController) (k : Subscriber) : LoginController :=
  { vc with screen := { vc.screen with viewModel := vc.screen.viewModel.subscribe k } }

/-- `create(with:)`: the bindings in their order; the controller is the first
to listen to `isLoginCompleted`, whoever else does comes after it. -/
def create (others : List Subscriber) : LoginController :=
  let vc := ({} : LoginController).bindText ops .email
  let vc := vc.bindText ops .password
  others.foldl subscribe ((vc.drive ops).subscribe .controller)

/-- A disabled button is not tapped. -/
def step (vc : LoginController) : ControllerInput → LoginController
  | .edit f text => vc.changed ops f ((vc.inputText f).edit ops text)
  | .tap =>
    if vc.loginButton.isEnabled then
      { vc with screen := vc.screen.step .loginButtonTapped }
    else vc
  | .signInCallback attempt result =>
    { vc with screen := vc.screen.step (.signInCallback attempt result) }

def outputs (vc : LoginController) : ControllerInput → List LoginOutput
  | .edit _ _ => []
  | .tap => if vc.loginButton.isEnabled then vc.screen.outputs .loginButtonTapped else []
  | .signInCallback attempt result => vc.screen.outputs (.signInCallback attempt result)

/-- The values that a tap would sample. -/
def sampled (vc : LoginController) : Option (Field → String) := vc.screen.viewModel.sampled

/-- The button shows the validity of the values that a tap would sample. -/
def ShowsSampled (vc : LoginController) : Prop :=
  ∀ v, vc.sampled = some v → vc.loginButton.isEnabled = isValidForm ops v

/-- Moreover, a tap would sample some values. -/
def Submits (vc : LoginController) : Prop :=
  ∃ v, vc.sampled = some v ∧ vc.loginButton.isEnabled = isValidForm ops v

/-- Whatever an input makes the view model submit is valid. -/
def CallsValid (vc : LoginController) (i : ControllerInput) : Prop :=
  ∀ attempt email password, .performLogin attempt email password ∈ vc.outputs i →
    isValidEmailAddress email = true ∧ 6 < ops.count password

/-- The input answers the current attempt, which is waiting, with an error. -/
def Fails (vc : LoginController) : ControllerInput → Prop
  | .signInCallback attempt (.error _) =>
    attempt ∈ vc.screen.pending ∧ attempt = vc.screen.viewModel.current
  | _ => False

/-- The screen is where the reference is, and the button shows the validity of
the reference's values. -/
structure Consistent (observers : List Subscriber) (vc : LoginController) (r : Reference) :
    Prop where
  agrees : Agrees observers vc.screen r
  driven : vc.driven = true
  combined : vc.combineLatest.latestElement = fun f => some (r.values f)
  shows : vc.loginButton.Shows (isValidForm ops r.values)

variable {ops : StringOps} {observers : List Subscriber} {vc : LoginController} {r : Reference}

/-- A complete combination is shown by the button. -/
theorem combine_shows {before : Bool} (h : vc.loginButton.Shows before) (f : Field)
    (text : String) {values : Field → String}
    (hvalues : (vc.combineLatest.set f text).latestElement = fun g => some (values g)) :
    (vc.combine ops f text).loginButton.Shows (isValidForm ops values) := by
  have hresult : (vc.combineLatest.set f text).getResult = some values :=
    CombineLatestSink.getResult_of_values hvalues
  simp only [combine, CombineLatestSink.next, hresult, Option.elim_some]
  exact h.receive _

/-- The button shows something after any value. -/
theorem combine_shows_some (ops : StringOps) {before : Bool} (h : vc.loginButton.Shows before)
    (f : Field) (text : String) :
    ∃ after, (vc.combine ops f text).loginButton.Shows after := by
  simp only [combine]
  cases (vc.combineLatest.next f text).2 with
  | none => exact ⟨before, h⟩
  | some v => exact ⟨isValidForm ops v, h.receive _⟩

theorem bindTexts_eq (ops : StringOps) :
    (({} : LoginController).bindText ops .email).bindText ops .password =
      { inputText := fun _ => { distinctUntilChanged := ⟨some ""⟩ } } := by
  have hsubject : ∀ f : Field, ({} : LoginViewModel Subscriber).send f "" = {} := by
    intro f
    simp [LoginViewModel.send]
  have htexts : Function.update (Function.update (fun _ : Field => ({} : TextField)) .email
      { distinctUntilChanged := ⟨some ""⟩ }) .password { distinctUntilChanged := ⟨some ""⟩ } =
        fun _ => { distinctUntilChanged := ⟨some ""⟩ } := by
    funext f
    cases f <;> simp
  simp [bindText, changed, TextField.send, DistinctUntilChangedSink.next, send, LoginScreen.step,
    hsubject, htexts]

theorem foldl_subscribe (others : List Subscriber) (vc : LoginController) :
    others.foldl subscribe vc = { vc with screen := { vc.screen with
      viewModel := others.foldl LoginViewModel.subscribe vc.screen.viewModel } } := by
  induction others generalizing vc with
  | nil => rfl
  | cons k rest ih => rw [List.foldl_cons, ih]; rfl

theorem consistent_create (ops : StringOps) (others : List Subscriber) :
    (create ops others).Consistent ops (.controller :: others) {} := by
  let texts : LoginController := { inputText := fun _ => { distinctUntilChanged := ⟨some ""⟩ } }
  have hcreate : create ops others = { texts.drive ops with
      screen := LoginScreen.bound (.controller :: others) } := by
    rw [create, bindTexts_eq, foldl_subscribe]
    rfl
  have hstart : ({ texts with driven := true } : LoginController).loginButton.Shows false :=
    ConfirmButton.shows_init
  obtain ⟨valid, hfirst⟩ := combine_shows_some ops hstart .email ""
  have hvalues : (((({} : CombineLatestSink Field String).set .email "").set
      .password "").latestElement) = fun _ => some "" := by
    funext f
    cases f <;> rfl
  rw [hcreate]
  exact ⟨agrees_bound (by simp), rfl, hvalues, combine_shows hfirst .password "" hvalues⟩

theorem consistent_send (h : vc.Consistent ops observers r) (f : Field) (text : String) :
    (vc.send ops f text).Consistent ops observers (r.step observers (.send f text)) := by
  have hvalues := CombineLatestSink.set_of_values h.combined f text
  simp only [send, h.driven, if_true]
  exact ⟨agrees_send h.agrees f text, h.driven, hvalues, combine_shows h.shows f text hvalues⟩

theorem consistent_changed (h : vc.Consistent ops observers r) (f : Field)
    (p : TextField × Option String) :
    ∃ r', (vc.changed ops f p).Consistent ops observers r' ∧ r'.failed = r.failed := by
  have hfield : ({ vc with inputText := Function.update vc.inputText f p.1 } :
      LoginController).Consistent ops observers r := ⟨h.agrees, h.driven, h.combined, h.shows⟩
  obtain ⟨t, sent⟩ := p
  cases sent with
  | none => exact ⟨r, hfield, rfl⟩
  | some text => exact ⟨_, consistent_send hfield f text, rfl⟩

theorem consistent_tap (h : vc.Consistent ops observers r) :
    ∃ r', (vc.step ops .tap).Consistent ops observers r' ∧ r'.failed = r.failed := by
  simp only [step]
  split_ifs
  · cases hf : r.failed with
    | false => exact ⟨_, ⟨agrees_tap h.agrees hf, h.driven, h.combined, h.shows⟩, hf⟩
    | true => exact ⟨_, ⟨agrees_tap_after_failure h.agrees hf, h.driven, h.combined, h.shows⟩, hf⟩
  · exact ⟨r, h, rfl⟩

/-- The number of the current attempt, as long as nothing has failed. -/
theorem Consistent.current (h : vc.Consistent ops observers r) (hf : r.failed = false) :
    vc.screen.viewModel.current = r.attempts := (h.agrees.running hf).follows.latest_eq

theorem consistent_callback (h : vc.Consistent ops observers r) (attempt : ℕ)
    (result : Except AuthError Uid) :
    ∃ r', (vc.step ops (.signInCallback attempt result)).Consistent ops observers r' ∧
      (r'.failed = true ↔ r.failed = true ∨ vc.Fails (.signInCallback attempt result)) := by
  have hnext := agrees_callback h.agrees attempt result
  have hvalues : (r.step observers (.signInCallback attempt result)).values = r.values := by
    simp only [Reference.step]
    split_ifs <;> rfl
  refine ⟨_, ⟨hnext, h.driven, by rw [hvalues]; exact h.combined, by rw [hvalues]; exact h.shows⟩,
    ?_⟩
  cases hf : r.failed with
  | true =>
    simp only [true_or, iff_true, Reference.step]
    split_ifs <;> simp [hf]
  | false =>
    simp only [Bool.false_eq_true, false_or]
    cases result with
    | ok uid =>
      simp only [Fails, iff_false, Reference.step]
      split_ifs <;> simp [hf, succeeded]
    | error error =>
      simp only [Fails, Reference.step, h.agrees.pending_eq, h.current hf]
      split_ifs <;> simp_all [succeeded]

/-- One input: the attempt's failure is all that the inputs add. -/
theorem consistent_step (h : vc.Consistent ops observers r) (i : ControllerInput) :
    ∃ r', (vc.step ops i).Consistent ops observers r' ∧
      (r'.failed = true ↔ r.failed = true ∨ vc.Fails i) := by
  cases i with
  | edit f text =>
    obtain ⟨r', hnext, hfailed⟩ := consistent_changed h f ((vc.inputText f).edit ops text)
    exact ⟨r', hnext, by simp [hfailed, Fails]⟩
  | tap =>
    obtain ⟨r', hnext, hfailed⟩ := consistent_tap h
    exact ⟨r', hnext, by simp [hfailed, Fails]⟩
  | signInCallback attempt result => exact consistent_callback h attempt result

/-- Before a failure a tap samples the values of the reference, after it none. -/
theorem Consistent.sampled (h : vc.Consistent ops observers r) :
    vc.sampled = if r.failed then none else some r.values := by
  cases hf : r.failed with
  | false => exact (h.agrees.running hf).sampled
  | true => exact (h.agrees.stopped hf).1.sampled

theorem Consistent.showsSampled (h : vc.Consistent ops observers r) : vc.ShowsSampled ops := by
  intro v hv
  rw [h.sampled] at hv
  split_ifs at hv
  obtain rfl : r.values = v := by simpa using hv
  exact h.shows.isEnabled_eq

theorem Consistent.submits_iff (h : vc.Consistent ops observers r) :
    vc.Submits ops ↔ r.failed = false := by
  rw [Submits, h.sampled]
  cases hf : r.failed with
  | false => simpa using h.shows.isEnabled_eq
  | true => simp

/-- A tap gets through an enabled button only. -/
theorem Consistent.callsValid (h : vc.Consistent ops observers r) (i : ControllerInput) :
    vc.CallsValid ops i := by
  intro attempt email password hcall
  cases i with
  | edit f text => simp [outputs] at hcall
  | tap =>
    simp only [outputs] at hcall
    split_ifs at hcall with henabled
    · simp only [LoginScreen.outputs, List.mem_map, Option.mem_toList] at hcall
      obtain ⟨v, hv, heq⟩ := hcall
      obtain ⟨-, rfl, rfl⟩ : _ ∧ v .email = email ∧ v .password = password := by simpa using heq
      have hvalid : isValidForm ops v = true := (h.showsSampled v hv).symm.trans henabled
      simpa [isValidForm] using hvalid
    · simp at hcall
  | signInCallback attempt' result =>
    simp only [outputs, LoginScreen.outputs] at hcall
    split_ifs at hcall
    · obtain ⟨⟨k, e⟩, -, he⟩ := List.mem_filterMap.mp hcall
      cases e <;> simp [value?] at he
    · simp at hcall

end LoginController

open LoginController

variable (ops : StringOps) (others : List Subscriber) (inputs : List ControllerInput)

/-- The button never shows anything but the validity of what a tap would sample. -/
theorem login_showsSampled : EveryState (LoginController.step ops) (ShowsSampled ops)
    (create ops others) inputs := by
  refine everyState_of_invariant (fun vc => ∃ r, vc.Consistent ops (.controller :: others) r)
    ?_ ?_ _ _ ⟨{}, consistent_create ops others⟩
  · intro vc hvc
    obtain ⟨r, h⟩ := hvc
    exact h.showsSampled
  · intro vc i hvc
    obtain ⟨r, h⟩ := hvc
    obtain ⟨r', hnext, -⟩ := consistent_step h i
    exact ⟨r', hnext⟩

theorem login_callsValid : EveryStep (LoginController.step ops) (CallsValid ops)
    (create ops others) inputs := by
  refine everyStep_of_invariant (fun vc => ∃ r, vc.Consistent ops (.controller :: others) r)
    ?_ _ _ ⟨{}, consistent_create ops others⟩
  intro vc i hvc
  obtain ⟨r, h⟩ := hvc
  obtain ⟨r', hnext, -⟩ := consistent_step h i
  exact ⟨h.callsValid i, r', hnext⟩

/-- A tap would submit what the button shows, until an attempt fails. -/
theorem login_submits_iff : EveryState (LoginController.step ops) (Submits ops)
    (create ops others) inputs ↔
      EveryStep (LoginController.step ops) (fun vc i => ¬ vc.Fails i) (create ops others) inputs := by
  refine everyState_iff_until
    (fun vc => ∃ r, vc.Consistent ops (.controller :: others) r ∧ r.failed = false)
    ?_ ?_ ?_ _ _ ⟨{}, consistent_create ops others, rfl⟩
  · intro vc hvc
    obtain ⟨r, h, hf⟩ := hvc
    exact h.submits_iff.mpr hf
  · intro vc i hvc hq
    obtain ⟨r, h, hf⟩ := hvc
    obtain ⟨r', hnext, hfailed⟩ := consistent_step h i
    refine ⟨r', hnext, ?_⟩
    simpa [hf, hq] using hfailed
  · intro vc i hvc hq
    obtain ⟨r, h, hf⟩ := hvc
    obtain ⟨r', hnext, hfailed⟩ := consistent_step h i
    have hr' : r'.failed = true := hfailed.mpr (Or.inr (not_not.mp hq))
    simp [hnext.submits_iff, hr']

end Mber.LoginBindings
