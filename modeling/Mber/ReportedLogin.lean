import Mber.LoginPipeline
import Mber.Runs

/-!
The reported login and the Firebase session. One LoginViewModel works against
AuthManager; responses are processed in any order and each successful one
replaces the current user. `reported` is the attempt for which
`isLoginCompleted` last emitted true, until the next tap or logout. Switching
to the latest attempt filters what is emitted but cancels no request, so the
session follows the report only while nothing else takes effect. Sign-ins write
no profile, so the app never aborts here.
-/
namespace Mber.ReportedLogin

open Sinks AuthManager Firebase LoginPipeline Runs

variable {κ : Type*}

inductive SessionInput
  | send (f : Field) (text : String)
  | loginButtonTapped
  | respond (index : ℕ) (verdict : Verdict)
  | runMain
  | doLogout (saved : Bool)

structure LoginSession (κ : Type*) where
  viewModel : LoginViewModel κ
  service : Service ℕ
  credentials : ℕ → String × String := fun _ => ("", "")
  reported : Option ℕ := none

def isTrue : κ × Event AuthError Bool → Bool
  | (_, .next true) => true
  | _ => false

namespace LoginSession

/-- A fresh login screen; somebody may be signed in already. -/
def start (observers : List κ) (directory : Directory) (currentUser : Option Uid) :
    LoginSession κ where
  viewModel := LoginViewModel.bound observers
  service := Service.idle directory currentUser (fun _ => none)

def tap (s : LoginSession κ) : LoginSession κ :=
  match s.viewModel.sampled with
  | none => { s with reported := none }
  | some v =>
    let attempt := s.viewModel.loginButtonTapped.current
    { viewModel := s.viewModel.loginButtonTapped
      service := s.service.performLogin attempt (v .email) (v .password)
      credentials := Function.update s.credentials attempt (v .email, v .password)
      reported := none }

/-- What `isLoginCompleted` emits when the main queue runs its next callback. -/
def emitted (s : LoginSession κ) : List (κ × Event AuthError Bool) :=
  (s.viewModel.receive s.service.reported).2

def main (s : LoginSession κ) : LoginSession κ :=
  { s with
    viewModel := (s.viewModel.receive s.service.reported).1
    service := s.service.runMain
    reported := if s.emitted.any isTrue then some s.viewModel.current else s.reported }

def logout (s : LoginSession κ) (saved : Bool) : LoginSession κ :=
  match (s.service.doLogout saved).2 with
  | .ok _ => { s with service := (s.service.doLogout saved).1, reported := none }
  | .error _ => { s with service := (s.service.doLogout saved).1 }

def step (s : LoginSession κ) : SessionInput → LoginSession κ
  | .send f text => { s with viewModel := s.viewModel.send f text }
  | .loginButtonTapped => s.tap
  | .respond index verdict => { s with service := s.service.respond index verdict }
  | .runMain => s.main
  | .doLogout saved => s.logout saved

def currentUser (s : LoginSession κ) : Option Uid := s.service.auth.currentUser

/-- The account that an attempt's email and password belong to. -/
def accountOf (s : LoginSession κ) (attempt : ℕ) : Except AuthError Uid :=
  s.service.auth.directory.signIn (s.credentials attempt).1 (s.credentials attempt).2

/-- The attempt reported as successful is the one that is signed in. -/
def SessionAgrees (s : LoginSession κ) : Prop :=
  ∀ attempt, s.reported = some attempt →
    ∃ uid, s.accountOf attempt = .ok uid ∧ s.currentUser = some uid

/-- What the server's answer to a request in flight will be. -/
def answer (s : LoginSession κ) (index : ℕ) (v : Verdict) : Option (Except AuthError Uid) :=
  s.service.auth.inFlight[index]?.map (fun e => (s.service.auth.directory.serve e.2 v).2)

/-- The account whose sign-in the next callback reports, when the callback is
that of the current attempt and the pipeline is connected. -/
def arriving (s : LoginSession κ) : Option Uid :=
  match s.viewModel.connected, s.service.auth.mainQueue with
  | true, (.signIn attempt, .ok uid) :: _ =>
    if attempt = s.viewModel.current then some uid else none
  | _, _ => none

/-- No response and no sign-out gets in between. When the successful callback
of the current attempt runs, its account is still signed in; while a login is
reported, no response signs in a different account. -/
def Undisturbed (s : LoginSession κ) : SessionInput → Prop
  | .runMain => ∀ uid, s.arriving = some uid → s.currentUser = some uid
  | .respond index v => s.reported ≠ none →
      ∀ uid, s.answer index v = some (.ok uid) → s.currentUser = some uid
  | _ => True

/-- Every outstanding request is a sign-in with the credentials recorded for
its attempt, and a queued success is that of their account. -/
structure Consistent (observers : List κ) (s : LoginSession κ) : Prop where
  pipeline : (∃ values, s.viewModel.Running observers s.viewModel.current values) ∨
    s.viewModel.Stopped
  inFlight : ∀ e ∈ s.service.auth.inFlight, ∃ a, a ≤ s.viewModel.current ∧
    e = (.signIn a, .signIn (s.credentials a).1 (s.credentials a).2)
  queued : ∀ e ∈ s.service.auth.mainQueue, ∃ a, a ≤ s.viewModel.current ∧
    e.1 = .signIn a ∧ ∀ uid, e.2 = .ok uid → s.accountOf a = .ok uid
  reported_le : ∀ a, s.reported = some a → a ≤ s.viewModel.current
  agrees : s.SessionAgrees

variable {observers : List κ} {s : LoginSession κ}

theorem consistent_start (hne : observers ≠ []) (directory : Directory)
    (currentUser : Option Uid) :
    (start observers directory currentUser).Consistent observers := by
  have hrunning := LoginViewModel.bound_running hne
  have hcurrent : (LoginViewModel.bound observers).current = 0 := hrunning.follows.latest_eq
  refine ⟨Or.inl ⟨fun _ => "", ?_⟩, ?_, ?_, ?_, ?_⟩
  · change (LoginViewModel.bound observers).Running observers
      (LoginViewModel.bound observers).current _
    rw [hcurrent]
    exact hrunning
  all_goals simp [start, Service.idle, SessionAgrees]

theorem consistent_send (h : s.Consistent observers) (f : Field) (text : String) :
    (s.step (.send f text)).Consistent observers := by
  obtain ⟨hpipe, hflight, hqueue, hle, hagrees⟩ := h
  refine ⟨?_, ?_, ?_, ?_, hagrees⟩
  · simp only [step, LoginViewModel.send_current]
    rcases hpipe with ⟨values, hrunning⟩ | hstopped
    · exact Or.inl ⟨_, hrunning.send f text⟩
    · exact Or.inr (hstopped.send f text)
  · simpa only [step, LoginViewModel.send_current] using hflight
  · intro e he
    obtain ⟨a, ha, hclosure, haccount⟩ := hqueue e he
    exact ⟨a, by simpa only [step, LoginViewModel.send_current] using ha, hclosure, haccount⟩
  · simpa only [step, LoginViewModel.send_current] using hle

theorem consistent_tap (h : s.Consistent observers) : s.tap.Consistent observers := by
  obtain ⟨hpipe, hflight, hqueue, hle, hagrees⟩ := h
  rcases hpipe with ⟨values, hrunning⟩ | hstopped
  · have hnext := hrunning.tapped
    have hcurrent : s.viewModel.loginButtonTapped.current = s.viewModel.current + 1 :=
      hnext.follows.latest_eq
    have htap : s.tap = {
        viewModel := s.viewModel.loginButtonTapped
        service := s.service.performLogin (s.viewModel.current + 1)
          (values .email) (values .password)
        credentials := Function.update s.credentials (s.viewModel.current + 1)
          (values .email, values .password)
        reported := none } := by
      simp only [tap, hrunning.sampled, hcurrent]
    have hold : ∀ a, a ≤ s.viewModel.current →
        Function.update s.credentials (s.viewModel.current + 1)
          (values .email, values .password) a = s.credentials a :=
      fun a ha => Function.update_of_ne (by omega) _ _
    rw [htap]
    refine ⟨Or.inl ⟨values, by simpa only [hcurrent] using hnext⟩, ?_, ?_, ?_, ?_⟩
    · intro e he
      simp only [Service.performLogin, FirebaseAuth.request, List.mem_append,
        List.mem_singleton] at he
      simp only [hcurrent]
      rcases he with he | he
      · obtain ⟨a, ha, heq⟩ := hflight e he
        exact ⟨a, by omega, by rw [hold a ha, heq]⟩
      · exact ⟨s.viewModel.current + 1, Nat.le_refl _, by simpa using he⟩
    · intro e he
      obtain ⟨a, ha, hclosure, haccount⟩ := hqueue e he
      refine ⟨a, by simp only [hcurrent]; omega, hclosure, ?_⟩
      intro uid huid
      have hcredentials := hold a ha
      simp only [accountOf, hcredentials]
      exact haccount uid huid
    · intro a ha
      simp at ha
    · intro a ha
      simp at ha
  · have htap : s.tap = { s with reported := none } := by
      simp only [tap, hstopped.sampled]
    rw [htap]
    exact ⟨Or.inr hstopped, hflight, hqueue, fun a ha => by simp at ha,
      fun a ha => by simp at ha⟩

theorem consistent_logout (h : s.Consistent observers) (saved : Bool) :
    (s.logout saved).Consistent observers := by
  obtain ⟨hpipe, hflight, hqueue, hle, hagrees⟩ := h
  rcases s.service.auth.signOut_cases saved with ⟨hauth, hresult⟩ | ⟨hauth, hresult⟩
  · have hlogout : s.logout saved = { s with
        service := { s.service with auth := { s.service.auth with currentUser := none } }
        reported := none } := by
      simp only [logout, Service.doLogout, hauth, hresult]
    rw [hlogout]
    exact ⟨hpipe, hflight, hqueue, fun a ha => by simp at ha, fun a ha => by simp at ha⟩
  · have hlogout : s.logout saved = s := by
      simp only [logout, Service.doLogout, hauth, hresult]
    rw [hlogout]
    exact ⟨hpipe, hflight, hqueue, hle, hagrees⟩

theorem respond_unanswered (index : ℕ) (v : Verdict)
    (hanswer : s.answer index v = none) : s.step (.respond index v) = s := by
  have hget : s.service.auth.inFlight[index]? = none := by simpa [answer] using hanswer
  simp only [step, Service.respond, FirebaseAuth.respond, hget]

/-- The answer to a request in flight. Sign-ins leave the directory alone; a
success is that of the attempt's account and replaces the current user. -/
theorem respond_cases (h : s.Consistent observers) (index : ℕ) (v : Verdict)
    (result : Except AuthError Uid) (hanswer : s.answer index v = some result) :
    ∃ a, a ≤ s.viewModel.current ∧ (∀ uid, result = .ok uid → s.accountOf a = .ok uid) ∧
      (s.step (.respond index v)) = { s with service := { s.service with auth := {
        s.service.auth with
        currentUser := FirebaseAuth.signedInUser s.currentUser result
        inFlight := s.service.auth.inFlight.eraseIdx index
        mainQueue := s.service.auth.mainQueue ++ [(.signIn a, result)] } } } := by
  obtain ⟨e, hget, rfl⟩ := Option.map_eq_some_iff.mp hanswer
  obtain ⟨a, ha, rfl⟩ := h.inFlight e (List.mem_of_getElem? hget)
  refine ⟨a, ha, ?_, ?_⟩
  · exact (s.service.auth.directory.serve_signIn _ _ v).2
  · simp only [step, Service.respond, FirebaseAuth.respond, hget, currentUser,
      (s.service.auth.directory.serve_signIn _ _ v).1]

theorem consistent_respond (h : s.Consistent observers) (index : ℕ) (v : Verdict)
    (hq : s.Undisturbed (.respond index v)) :
    (s.step (.respond index v)).Consistent observers := by
  cases hanswer : s.answer index v with
  | none => rwa [respond_unanswered index v hanswer]
  | some result =>
    obtain ⟨a, ha, haccount, hstep⟩ := respond_cases h index v result hanswer
    rw [hstep]
    refine ⟨h.pipeline, ?_, ?_, h.reported_le, ?_⟩
    · exact fun e he => h.inFlight e (List.mem_of_mem_eraseIdx he)
    · intro e he
      rcases List.mem_append.mp he with he | he
      · exact h.queued e he
      · rw [List.mem_singleton.mp he]
        exact ⟨a, ha, rfl, haccount⟩
    · intro attempt hreported
      obtain ⟨uid, hacc, huser⟩ := h.agrees attempt hreported
      refine ⟨uid, hacc, ?_⟩
      cases result with
      | error error => exact huser
      | ok other =>
        have hother := hq (by simp [show s.reported = some attempt from hreported]) other hanswer
        exact hother.symm.trans huser

/-- A response that signs in another account while a login is reported. -/
theorem disturbed_respond (h : s.Consistent observers) (index : ℕ) (v : Verdict)
    (hq : ¬ s.Undisturbed (.respond index v)) :
    ¬ (s.step (.respond index v)).SessionAgrees := by
  intro hagrees
  apply hq
  intro hreported uid hanswer
  obtain ⟨a, -, -, hstep⟩ := respond_cases h index v (.ok uid) hanswer
  obtain ⟨attempt, hattempt⟩ := Option.ne_none_iff_exists'.mp hreported
  obtain ⟨before, hbefore, huser⟩ := h.agrees attempt hattempt
  rw [hstep] at hagrees
  obtain ⟨after, hafter, hcurrent⟩ := hagrees attempt hattempt
  have hsame : after = before := by
    have heq := hafter.symm.trans hbefore
    simpa using heq
  have huid : some uid = some after := hcurrent
  rw [huser, huid, hsame]

theorem any_isTrue_next (b : Bool) (hne : observers ≠ []) :
    (observers.map (fun k => (k, (.next b : Event AuthError Bool)))).any isTrue = b := by
  obtain ⟨k, rest, rfl⟩ := List.exists_cons_of_ne_nil hne
  cases b <;> simp [isTrue]

/-- A callback that reports no success of the current attempt leaves the report as it was. -/
theorem emitted_of_not_arriving (h : s.Consistent observers) (hnone : s.arriving = none) :
    s.emitted.any isTrue = false ∧
      ((∃ values, (s.viewModel.receive s.service.reported).1.Running observers
          s.viewModel.current values) ∨ (s.viewModel.receive s.service.reported).1.Stopped) := by
  unfold emitted
  cases hqueue : s.service.auth.mainQueue with
  | nil =>
    have hrep : s.service.reported = [] := by simp [Service.reported, hqueue]
    rw [hrep]
    exact ⟨rfl, h.pipeline⟩
  | cons e rest =>
    obtain ⟨a, ha, hclosure, -⟩ := h.queued e (by simp [hqueue])
    obtain ⟨closure, result⟩ := e
    simp only at hclosure
    subst hclosure
    have hrep : s.service.reported = (signInCallback result).map (fun e => (a, e)) := by
      simp [Service.reported, hqueue]
    rw [hrep, LoginViewModel.receive_map]
    rcases h.pipeline with ⟨values, hrunning⟩ | hstopped
    · by_cases hcur : a = s.viewModel.current
      · subst hcur
        cases result with
        | ok uid => simp [arriving, hqueue, hrunning.connected] at hnone
        | error error =>
          obtain ⟨hout, hfinal⟩ := hrunning.signIn_error error
          refine ⟨?_, Or.inr hfinal⟩
          rw [hout]
          simp [isTrue]
      · have hlt : a < s.viewModel.current := by omega
        obtain ⟨hout, hfinal⟩ := hrunning.deliverAll_older hlt (signInCallback result)
        exact ⟨by simp [hout], Or.inl ⟨values, hfinal⟩⟩
    · obtain ⟨hout, hfinal⟩ := hstopped.deliverAll a (signInCallback result)
      exact ⟨by simp [hout], Or.inr hfinal⟩

/-- The success of the current attempt is reported to everybody. -/
theorem emitted_of_arriving (h : s.Consistent observers) (hne : observers ≠ []) {uid : Uid}
    (hsome : s.arriving = some uid) :
    s.emitted.any isTrue = true ∧ s.accountOf s.viewModel.current = .ok uid ∧
      ∃ values, (s.viewModel.receive s.service.reported).1.Running observers
        s.viewModel.current values := by
  unfold arriving at hsome
  split at hsome
  · rename_i a other rest hconnected hqueue
    split_ifs at hsome with hcur
    obtain rfl : other = uid := by simpa using hsome
    subst hcur
    obtain ⟨b, -, hclosure, haccount⟩ := h.queued _ (by rw [hqueue]; exact List.mem_cons_self)
    obtain rfl : s.viewModel.current = b := by simpa using hclosure
    rcases h.pipeline with ⟨values, hrunning⟩ | hstopped
    · obtain ⟨hout, hfinal⟩ := hrunning.signIn_ok other
      have hrep : s.service.reported =
          (signInCallback (.ok other)).map (fun e => (s.viewModel.current, e)) := by
        simp [Service.reported, hqueue]
      unfold emitted
      rw [hrep, LoginViewModel.receive_map]
      refine ⟨?_, haccount other rfl, values, hfinal⟩
      rw [hout, any_isTrue_next true hne]
    · simp [hstopped.disconnected] at hconnected
  · simp at hsome

theorem consistent_main (h : s.Consistent observers) (hne : observers ≠ [])
    (hq : s.Undisturbed .runMain) : s.main.Consistent observers := by
  have hqueued : ∀ e ∈ s.service.auth.mainQueue.tail, ∃ a, a ≤ s.viewModel.current ∧
      e.1 = .signIn a ∧ ∀ uid, e.2 = .ok uid → s.accountOf a = .ok uid :=
    fun e he => h.queued e (List.mem_of_mem_tail he)
  cases harriving : s.arriving with
  | none =>
    obtain ⟨hsilent, hpipe⟩ := emitted_of_not_arriving h harriving
    refine ⟨?_, ?_, ?_, ?_, ?_⟩ <;>
      simp only [main, hsilent, LoginViewModel.receive_current, Bool.false_eq_true, if_false]
    · exact hpipe
    · exact h.inFlight
    · exact hqueued
    · exact h.reported_le
    · exact h.agrees
  | some uid =>
    obtain ⟨hreport, haccount, values, hrunning⟩ := emitted_of_arriving h hne harriving
    refine ⟨?_, ?_, ?_, ?_, ?_⟩ <;>
      simp only [main, hreport, LoginViewModel.receive_current, if_true]
    · exact Or.inl ⟨values, hrunning⟩
    · exact h.inFlight
    · exact hqueued
    · exact fun a ha => by simp at ha; omega
    · intro attempt hattempt
      obtain rfl : s.viewModel.current = attempt := by simpa using hattempt
      exact ⟨uid, haccount, hq uid harriving⟩

/-- The callback of the current attempt comes when its account is not the one signed in. -/
theorem disturbed_main (h : s.Consistent observers) (hne : observers ≠ [])
    (hq : ¬ s.Undisturbed .runMain) : ¬ s.main.SessionAgrees := by
  intro hagrees
  apply hq
  intro uid harriving
  obtain ⟨hreport, haccount, -⟩ := emitted_of_arriving h hne harriving
  obtain ⟨other, hother, hcurrent⟩ := hagrees s.viewModel.current (by simp [main, hreport])
  have hsame : other = uid := by
    have heq := Eq.trans (Eq.symm hother) haccount
    simpa using heq
  rw [← hsame]
  exact hcurrent

theorem consistent_step (h : s.Consistent observers) (hne : observers ≠ []) (i : SessionInput)
    (hq : s.Undisturbed i) : (s.step i).Consistent observers := by
  cases i with
  | send f text => exact consistent_send h f text
  | loginButtonTapped => exact consistent_tap h
  | respond index v => exact consistent_respond h index v hq
  | runMain => exact consistent_main h hne hq
  | doLogout saved => exact consistent_logout h saved

theorem disturbed_step (h : s.Consistent observers) (hne : observers ≠ []) (i : SessionInput)
    (hq : ¬ s.Undisturbed i) : ¬ (s.step i).SessionAgrees := by
  cases i with
  | respond index v => exact disturbed_respond h index v hq
  | runMain => exact disturbed_main h hne hq
  | send f text => exact absurd trivial hq
  | loginButtonTapped => exact absurd trivial hq
  | doLogout saved => exact absurd trivial hq

end LoginSession

open LoginSession

/-- After every step of a run the reported attempt's account is the current
user, exactly when no step of the run disturbs the session. -/
theorem session_agrees_iff (observers : List κ) (hne : observers ≠ []) (directory : Directory)
    (currentUser : Option Uid) (inputs : List SessionInput) :
    EveryStep LoginSession.step (fun s i => (s.step i).SessionAgrees)
        (start observers directory currentUser) inputs ↔
      EveryStep LoginSession.step Undisturbed (start observers directory currentUser) inputs := by
  refine everyStep_iff_until (Consistent observers) ?_ ?_ _ _
    (consistent_start hne directory currentUser)
  · intro s i h hq
    have hnext := consistent_step h hne i hq
    exact ⟨hnext.agrees, hnext⟩
  · exact fun s i h hq => disturbed_step h hne i hq

def ann : Account := ⟨"ann@mail.com", "password1", ⟨"ann", by decide⟩⟩

def bob : Account := ⟨"bob@mail.com", "password2", ⟨"bob", by decide⟩⟩

def annAndBob : Directory := ⟨[ann, bob], by decide⟩

/-- Ann taps once; her response is processed and then its callback runs. -/
theorem session_agrees_ann :
    EveryStep LoginSession.step (fun s i => (s.step i).SessionAgrees)
      (start [()] annAndBob none)
      [.send .email ann.email, .send .password ann.password, .loginButtonTapped,
        .respond 0 (.accept ann.uid), .runMain] := by
  refine (session_agrees_iff [()] (by decide) annAndBob none _).mpr
    ⟨trivial, trivial, trivial, ?_, ?_, trivial⟩
  · intro h
    exact absurd rfl h
  · intro uid huid
    have huser : some ann.uid = some uid := huid
    rw [← huser]
    rfl

/-- Ann's attempt is superseded by Bob's. Bob's login is reported; then the
response to Ann's request signs Ann in. -/
theorem session_replaced :
    ¬ EveryStep LoginSession.step (fun s i => (s.step i).SessionAgrees)
      (start [()] annAndBob none)
      [.send .email ann.email, .send .password ann.password, .loginButtonTapped,
        .send .email bob.email, .send .password bob.password, .loginButtonTapped,
        .respond 1 (.accept bob.uid), .runMain, .respond 0 (.accept ann.uid)] := by
  rintro ⟨-, -, -, -, -, -, -, -, h, -⟩
  obtain ⟨uid, haccount, hcurrent⟩ := h 2 rfl
  have hbob : Except.ok bob.uid = (Except.ok uid : Except AuthError Uid) := haccount
  have hann : some ann.uid = some uid := hcurrent
  simp [ann, bob] at hbob hann
  simp [← hbob] at hann

end Mber.ReportedLogin
