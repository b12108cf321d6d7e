import Mber.LoginPipeline
import Mber.Runs

/-!
The login screen against its reference machine. The screen is the view model,
the sign-in callbacks still to come and the activity indicator that
LoginController shows. The reference answers every attempt that is current
when its callback comes, and nothing else. The two agree exactly on the runs
in which no tap follows the failure of the then current attempt.
-/
namespace Mber.LoginRefinement

open Sinks AuthManager Firebase LoginPipeline Runs

inductive Subscriber
  | controller
  | other (index : ℕ)
  deriving DecidableEq

inductive LoginInput
  | send (f : Field) (text : String)
  | loginButtonTapped
  | signInCallback (attempt : ℕ) (result : Except AuthError Uid)

inductive LoginOutput
  | performLogin (attempt : ℕ) (email password : String)
  | isLoginCompleted (subscriber : Subscriber) (success : Bool)
  deriving DecidableEq

structure LoginScreen where
  viewModel : LoginViewModel Subscriber
  pending : List ℕ := []
  indicator : Bool := false

def value? : Subscriber × Event AuthError Bool → Option LoginOutput
  | (k, .next b) => some (.isLoginCompleted k b)
  | _ => none

def isForController : LoginOutput → Bool
  | .isLoginCompleted .controller _ => true
  | _ => false

namespace LoginScreen

def bound (observers : List Subscriber) : LoginScreen :=
  { viewModel := LoginViewModel.bound observers }

/-- The calls and the values of one input. A callback that is not outstanding
cannot run. -/
def outputs (s : LoginScreen) : LoginInput → List LoginOutput
  | .send _ _ => []
  | .loginButtonTapped =>
    s.viewModel.sampled.toList.map (fun v =>
      .performLogin s.viewModel.loginButtonTapped.flatMapLatest.latest (v .email) (v .password))
  | .signInCallback attempt result =>
    if attempt ∈ s.pending then
      (s.viewModel.deliverAll attempt (signInCallback result)).2.filterMap value?
    else []

/-- The tap shows the indicator; a value for LoginController hides it. -/
def indicatorAfter (s : LoginScreen) : LoginInput → Bool
  | .loginButtonTapped => true
  | i => if (s.outputs i).any isForController then false else s.indicator

def step (s : LoginScreen) (i : LoginInput) : LoginScreen :=
  match i with
  | .send f text => { s with viewModel := s.viewModel.send f text }
  | .loginButtonTapped =>
    { viewModel := s.viewModel.loginButtonTapped
      pending := s.pending ++ s.viewModel.sampled.toList.map
        (fun _ => s.viewModel.loginButtonTapped.flatMapLatest.latest)
      indicator := s.indicatorAfter i }
  | .signInCallback attempt result =>
    if attempt ∈ s.pending then
      { viewModel := (s.viewModel.deliverAll attempt (signInCallback result)).1
        pending := s.pending.erase attempt
        indicator := s.indicatorAfter i }
    else s

def emit (s : LoginScreen) (i : LoginInput) : List LoginOutput × Bool :=
  (s.outputs i, (s.step i).indicator)

end LoginScreen

/-- `attempts` is the number of the current attempt; `failed` remembers that a
current attempt has been answered with an error. -/
structure Reference where
  values : Field → String := fun _ => ""
  attempts : ℕ := 0
  pending : List ℕ := []
  failed : Bool := false
  indicator : Bool := false

def succeeded : Except AuthError Uid → Bool
  | .ok _ => true
  | .error _ => false

namespace Reference

variable (observers : List Subscriber)

def outputs (r : Reference) : LoginInput → List LoginOutput
  | .send _ _ => []
  | .loginButtonTapped =>
    [.performLogin (r.attempts + 1) (r.values .email) (r.values .password)]
  | .signInCallback attempt result =>
    if attempt ∈ r.pending ∧ attempt = r.attempts then
      observers.map (fun k => .isLoginCompleted k (succeeded result))
    else []

def step (r : Reference) : LoginInput → Reference
  | .send f text => { r with values := Function.update r.values f text }
  | .loginButtonTapped =>
    { r with
      attempts := r.attempts + 1
      pending := r.pending ++ [r.attempts + 1]
      indicator := true }
  | .signInCallback attempt result =>
    if attempt ∈ r.pending then
      if attempt = r.attempts then
        { r with
          pending := r.pending.erase attempt
          failed := r.failed || !succeeded result
          indicator := if .controller ∈ observers then false else r.indicator }
      else { r with pending := r.pending.erase attempt }
    else r

def emit (r : Reference) (i : LoginInput) : List LoginOutput × Bool :=
  (r.outputs observers i, (r.step observers i).indicator)

/-- No tap comes after the failure of an attempt that was current. -/
def NoTapAfterFailure (r : Reference) (i : LoginInput) : Prop :=
  i = .loginButtonTapped → r.failed = false

end Reference

/-- Before a failure the pipeline runs; after it the pipeline is stopped and
only superseded attempts are left to be answered. -/
structure Agrees (observers : List Subscriber) (s : LoginScreen) (r : Reference) : Prop where
  pending_eq : s.pending = r.pending
  indicator_eq : s.indicator = r.indicator
  pending_nodup : r.pending.Nodup
  pending_le : ∀ a ∈ r.pending, a ≤ r.attempts
  running : r.failed = false → s.viewModel.Running observers r.attempts r.values
  stopped : r.failed = true → s.viewModel.Stopped ∧ r.attempts ∉ r.pending

variable {observers : List Subscriber} {s : LoginScreen} {r : Reference}

theorem agrees_bound (hne : observers ≠ []) :
    Agrees observers (LoginScreen.bound observers) {} :=
  ⟨rfl, rfl, List.nodup_nil, fun _ h => by simp at h, fun _ => LoginViewModel.bound_running hne,
    fun h => by simp at h⟩

/-- While the current attempt waits for its answer no failure has stopped the pipeline. -/
theorem Agrees.not_failed (h : Agrees observers s r) (hmem : r.attempts ∈ r.pending) :
    r.failed = false := by
  by_contra hfail
  exact (h.stopped (by simpa using hfail)).2 hmem

theorem filterMap_next (observers : List Subscriber) (b : Bool) :
    (observers.map (fun k => (k, (.next b : Event AuthError Bool)))).filterMap value? =
      observers.map (fun k => .isLoginCompleted k b) := by
  induction observers with
  | nil => rfl
  | cons k rest ih => simp only [List.map_cons, List.filterMap_cons, value?, ih]

theorem filterMap_completed (observers : List Subscriber) :
    (observers.map (fun k => (k, (.completed : Event AuthError Bool)))).filterMap value? = [] := by
  induction observers with
  | nil => rfl
  | cons k rest ih => simp only [List.map_cons, List.filterMap_cons, value?, ih]

theorem any_isForController (observers : List Subscriber) (b : Bool) :
    (observers.map (fun k => LoginOutput.isLoginCompleted k b)).any isForController =
      decide (.controller ∈ observers) := by
  induction observers with
  | nil => rfl
  | cons k rest ih =>
    rw [List.map_cons, List.any_cons, ih]
    cases k <;> simp [isForController]

/-- What the screen puts out when the current attempt is answered. -/
theorem outputs_current (h : Agrees observers s r) (hf : r.failed = false)
    (result : Except AuthError Uid) (hmem : r.attempts ∈ r.pending) :
    s.outputs (.signInCallback r.attempts result) =
      observers.map (fun k => .isLoginCompleted k (succeeded result)) := by
  have hmem' : r.attempts ∈ s.pending := h.pending_eq ▸ hmem
  cases result with
  | ok uid =>
    simp only [LoginScreen.outputs, hmem', if_true, ((h.running hf).signIn_ok uid).1,
      filterMap_next, succeeded]
  | error error =>
    simp only [LoginScreen.outputs, hmem', if_true, ((h.running hf).signIn_error error).1,
      List.filterMap_append, filterMap_next, filterMap_completed, List.append_nil, succeeded]

/-- A superseded attempt, and any attempt after a failure, is answered in silence. -/
theorem outputs_superseded (h : Agrees observers s r) (attempt : ℕ)
    (result : Except AuthError Uid) (hmem : attempt ∈ r.pending) (hne : attempt ≠ r.attempts) :
    s.outputs (.signInCallback attempt result) = [] := by
  have hmem' : attempt ∈ s.pending := h.pending_eq ▸ hmem
  have hle := h.pending_le attempt hmem
  have hlt : attempt < r.attempts := by omega
  have hsilent : (s.viewModel.deliverAll attempt (signInCallback result)).2 = [] := by
    cases hf : r.failed with
    | false => exact ((h.running hf).deliverAll_older hlt _).1
    | true => exact ((h.stopped hf).1.deliverAll attempt _).1
  simp [LoginScreen.outputs, hmem', hsilent]

theorem agrees_send (h : Agrees observers s r) (f : Field) (text : String) :
    Agrees observers (s.step (.send f text)) (r.step observers (.send f text)) :=
  ⟨h.pending_eq, h.indicator_eq, h.pending_nodup, h.pending_le,
    fun hf => (h.running hf).send f text,
    fun hf => ⟨(h.stopped hf).1.send f text, (h.stopped hf).2⟩⟩

theorem agrees_tap (h : Agrees observers s r) (hf : r.failed = false) :
    Agrees observers (s.step .loginButtonTapped) (r.step observers .loginButtonTapped) := by
  have hrunning := h.running hf
  have hnext := hrunning.tapped
  refine ⟨?_, rfl, ?_, ?_, fun _ => hnext, ?_⟩
  · simp [LoginScreen.step, Reference.step, hrunning.sampled, h.pending_eq,
      hnext.follows.latest_eq]
  · simp only [Reference.step]
    rw [List.nodup_append]
    refine ⟨h.pending_nodup, by simp, ?_⟩
    intro a ha b hb
    have hle := h.pending_le a ha
    simp only [List.mem_singleton] at hb
    omega
  · intro a ha
    simp only [Reference.step, List.mem_append, List.mem_singleton] at ha ⊢
    rcases ha with ha | ha
    · have hle := h.pending_le a ha
      omega
    · omega
  · intro hfail
    simp [Reference.step, hf] at hfail

theorem agrees_callback (h : Agrees observers s r) (attempt : ℕ) (result : Except AuthError Uid) :
    Agrees observers (s.step (.signInCallback attempt result))
      (r.step observers (.signInCallback attempt result)) := by
  by_cases hmem : attempt ∈ r.pending
  · have hmem' : attempt ∈ s.pending := h.pending_eq ▸ hmem
    have hpending : s.pending.erase attempt = r.pending.erase attempt := by rw [h.pending_eq]
    have hle : ∀ a ∈ r.pending.erase attempt, a ≤ r.attempts :=
      fun a ha => h.pending_le a (List.mem_of_mem_erase ha)
    by_cases hcur : attempt = r.attempts
    · subst hcur
      have hf := h.not_failed hmem
      have hout := outputs_current h hf result hmem
      simp only [LoginScreen.step, Reference.step, hmem, hmem', if_true, hf, Bool.false_or]
      refine ⟨hpending, ?_, h.pending_nodup.erase _, hle, ?_, ?_⟩
      · simp only [LoginScreen.indicatorAfter, hout, any_isForController, decide_eq_true_eq,
          h.indicator_eq]
      · intro hok
        cases result with
        | ok uid => exact ((h.running hf).signIn_ok uid).2
        | error error => simp [succeeded] at hok
      · intro hfail
        cases result with
        | ok uid => simp [succeeded] at hfail
        | error error =>
          exact ⟨((h.running hf).signIn_error error).2, h.pending_nodup.not_mem_erase⟩
    · have hout := outputs_superseded h attempt result hmem hcur
      have hlt : attempt < r.attempts := by
        have := h.pending_le attempt hmem
        omega
      simp only [LoginScreen.step, Reference.step, hmem, hmem', hcur, if_true, if_false]
      refine ⟨hpending, ?_, h.pending_nodup.erase _, hle, ?_, ?_⟩
      · simp only [LoginScreen.indicatorAfter, hout, List.any_nil, Bool.false_eq_true,
          if_false, h.indicator_eq]
      · exact fun hf => ((h.running hf).deliverAll_older hlt _).2
      · exact fun hf => ⟨((h.stopped hf).1.deliverAll attempt _).2,
          fun hin => (h.stopped hf).2 (List.mem_of_mem_erase hin)⟩
  · have hmem' : attempt ∉ s.pending := h.pending_eq ▸ hmem
    simpa only [LoginScreen.step, Reference.step, hmem, hmem', if_false] using h

theorem outputs_eq (h : Agrees observers s r) (i : LoginInput)
    (hq : r.NoTapAfterFailure i) : s.outputs i = r.outputs observers i := by
  cases i with
  | send f text => rfl
  | loginButtonTapped =>
    have hrunning := h.running (hq rfl)
    simp [LoginScreen.outputs, Reference.outputs, hrunning.sampled,
      hrunning.tapped.follows.latest_eq]
  | signInCallback attempt result =>
    by_cases hmem : attempt ∈ r.pending
    · by_cases hcur : attempt = r.attempts
      · subst hcur
        have hf := h.not_failed hmem
        rw [outputs_current h hf result hmem]
        simp [Reference.outputs, hmem]
      · rw [outputs_superseded h attempt result hmem hcur]
        simp [Reference.outputs, hcur]
    · have hmem' : attempt ∉ s.pending := h.pending_eq ▸ hmem
      simp [LoginScreen.outputs, Reference.outputs, hmem, hmem']

theorem agrees_step (h : Agrees observers s r) (i : LoginInput) (hq : r.NoTapAfterFailure i) :
    Agrees observers (s.step i) (r.step observers i) := by
  cases i with
  | send f text => exact agrees_send h f text
  | loginButtonTapped => exact agrees_tap h (hq rfl)
  | signInCallback attempt result => exact agrees_callback h attempt result

/-- A tap after a failure calls nothing. -/
theorem tap_after_failure (h : Agrees observers s r) (hf : r.failed = true) :
    s.outputs .loginButtonTapped = [] := by
  simp [LoginScreen.outputs, (h.stopped hf).1.sampled]

/-- It only shows the indicator again. -/
theorem agrees_tap_after_failure (h : Agrees observers s r) (hf : r.failed = true) :
    Agrees observers (s.step .loginButtonTapped) { r with indicator := true } := by
  have hstopped := (h.stopped hf).1
  have hstep : s.step .loginButtonTapped = { s with indicator := true } := by
    simp [LoginScreen.step, hstopped.tapped, hstopped.sampled, LoginScreen.indicatorAfter]
  rw [hstep]
  exact ⟨h.pending_eq, rfl, h.pending_nodup, h.pending_le, h.running, h.stopped⟩

/-- For any positive number of subscribers the screen calls, emits and hides
the indicator as the reference does, exactly as long as no tap follows a failure. -/
theorem login_refines_iff (observers : List Subscriber) (hne : observers ≠ [])
    (inputs : List LoginInput) :
    trace LoginScreen.step LoginScreen.emit (LoginScreen.bound observers) inputs =
        trace (Reference.step observers) (Reference.emit observers) {} inputs ↔
      EveryStep (Reference.step observers) Reference.NoTapAfterFailure {} inputs := by
  refine trace_eq_iff_until (R := Agrees observers) ?_ ?_ _ _ _ (agrees_bound hne)
  · intro s r i h hq
    have hnext := agrees_step h i hq
    refine ⟨?_, hnext⟩
    simp only [LoginScreen.emit, Reference.emit, outputs_eq h i hq, hnext.indicator_eq]
  · intro s r i h hq heq
    simp only [Reference.NoTapAfterFailure, not_forall, Bool.not_eq_false] at hq
    obtain ⟨rfl, hf⟩ := hq
    have hout := congrArg Prod.fst heq
    simp [LoginScreen.emit, Reference.emit, tap_after_failure h hf, Reference.outputs] at hout

/-- LoginController and LoginCoordinator listen; the attempt of the first tap fails. -/
theorem login_refines_iff_app :
    trace LoginScreen.step LoginScreen.emit (LoginScreen.bound [.controller, .other 0])
        [.loginButtonTapped, .signInCallback 1 (.error .wrongPassword)] =
      trace (Reference.step [.controller, .other 0]) (Reference.emit [.controller, .other 0]) {}
        [.loginButtonTapped, .signInCallback 1 (.error .wrongPassword)] :=
  (login_refines_iff [.controller, .other 0] (by decide) _).mpr
    ⟨fun _ => rfl, fun h => by simp at h, trivial⟩

/-- The second tap, after the failure of the first attempt, calls nothing. -/
theorem login_retry_lost :
    trace LoginScreen.step LoginScreen.emit (LoginScreen.bound [.controller, .other 0])
        [.loginButtonTapped, .signInCallback 1 (.error .wrongPassword), .loginButtonTapped] ≠
      trace (Reference.step [.controller, .other 0]) (Reference.emit [.controller, .other 0]) {}
        [.loginButtonTapped, .signInCallback 1 (.error .wrongPassword), .loginButtonTapped] := by
  intro h
  have hlengths := congrArg (List.map (fun o => o.1.length)) h
  revert hlengths
  decide

end Mber.LoginRefinement
