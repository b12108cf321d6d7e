import Mber.SharedSequences
import Mber.AuthManager

/-!
LoginViewModel: two subjects, a relay for the button, and the pipeline behind
`isLoginCompleted`, built by its first subscriber. The attempt numbers are the
switch's own. A running pipeline answers its current attempt; an error answer
stops it, and a stopped pipeline neither calls `performLogin` nor emits.
-/
namespace Mber.LoginPipeline

open Sinks SharedSequences AuthManager Firebase

inductive Field
  | email
  | password
  deriving DecidableEq

instance : Fintype Field := ⟨{.email, .password}, fun f => by cases f <;> decide⟩

/-- `subject` holds the values of the two behavior subjects. `connected` says
that the pipeline is subscribed to the subjects and to the button's relay. -/
structure LoginViewModel (κ : Type*) where
  subject : Field → String := fun _ => ""
  combineLatest : CombineLatestSink Field String := {}
  withLatestFrom : WithLatestFromSink (Field → String) := {}
  flatMapLatest : SwitchSink := {}
  isLoginCompleted : SharedSequence κ Bool := { share := { replay := false } }
  connected : Bool := false

namespace LoginViewModel

variable {κ : Type*}

/-- The first subscriber builds the pipeline; each subject sends its value. -/
def connect (vm : LoginViewModel κ) : LoginViewModel κ :=
  let c := ({} : CombineLatestSink Field String).next .email (vm.subject .email)
  let d := c.1.next .password (vm.subject .password)
  { vm with
    combineLatest := d.1
    withLatestFrom := (WithLatestFromSink.second {} c.2).second d.2
    flatMapLatest := {}
    isLoginCompleted := { vm.isLoginCompleted with observeOn := {}, catchError := {} }
    connected := true }

/-- A subscriber joins the current connection, or starts one. -/
def subscribe (vm : LoginViewModel κ) (k : κ) : LoginViewModel κ :=
  let share : ShareConnection κ Bool :=
    if vm.isLoginCompleted.share.disposed then { replay := false } else vm.isLoginCompleted.share
  let joined : LoginViewModel κ :=
    { vm with isLoginCompleted := { vm.isLoginCompleted with share := (share.subscribe k).1 } }
  if share.observers.isEmpty then joined.connect else joined

/-- A new view model with these subscribers to `isLoginCompleted`. -/
def bound (observers : List κ) : LoginViewModel κ := observers.foldl subscribe {}

/-- One of the subjects receives a text. -/
def send (vm : LoginViewModel κ) (f : Field) (text : String) : LoginViewModel κ :=
  if vm.connected then
    { vm with
      subject := Function.update vm.subject f text
      combineLatest := (vm.combineLatest.next f text).1
      withLatestFrom := vm.withLatestFrom.second (vm.combineLatest.next f text).2 }
  else { vm with subject := Function.update vm.subject f text }

/-- The values with which the button's relay makes the pipeline start an attempt. -/
def sampled (vm : LoginViewModel κ) : Option (Field → String) :=
  if vm.connected then vm.withLatestFrom.first else none

def loginButtonTapped (vm : LoginViewModel κ) : LoginViewModel κ :=
  match vm.sampled with
  | none => vm
  | some _ => { vm with flatMapLatest := vm.flatMapLatest.nextElementArrived performLoginDispose }

/-- The observer of one attempt receives an event. -/
def deliver (vm : LoginViewModel κ) (attempt : ℕ) (e : Event AuthError Bool) :
    LoginViewModel κ × List (κ × Event AuthError Bool) :=
  let r := vm.flatMapLatest.innerOn performLoginDispose attempt e
  match r.2 with
  | none => ({ vm with flatMapLatest := r.1 }, [])
  | some e' =>
    let q := vm.isLoginCompleted.on false e'
    ({ vm with
      flatMapLatest := r.1
      isLoginCompleted := q.1
      connected := vm.connected && !e'.isStopEvent }, q.2)

def deliverAll (vm : LoginViewModel κ) (attempt : ℕ) : List (Event AuthError Bool) →
    LoginViewModel κ × List (κ × Event AuthError Bool)
  | [] => (vm, [])
  | e :: rest =>
    let r := (vm.deliver attempt e).1.deliverAll attempt rest
    (r.1, (vm.deliver attempt e).2 ++ r.2)

/-- Events for the observers of several attempts, in order. -/
def receive (vm : LoginViewModel κ) : List (ℕ × Event AuthError Bool) →
    LoginViewModel κ × List (κ × Event AuthError Bool)
  | [] => (vm, [])
  | (attempt, e) :: rest =>
    let r := (vm.deliver attempt e).1.receive rest
    (r.1, (vm.deliver attempt e).2 ++ r.2)

theorem receive_map (vm : LoginViewModel κ) (attempt : ℕ) (events : List (Event AuthError Bool)) :
    vm.receive (events.map (fun e => (attempt, e))) = vm.deliverAll attempt events := by
  induction events generalizing vm with
  | nil => rfl
  | cons e rest ih => simp only [List.map_cons, receive, deliverAll, ih]

def current (vm : LoginViewModel κ) : ℕ := vm.flatMapLatest.latest

@[simp] theorem deliver_current (vm : LoginViewModel κ) (attempt : ℕ)
    (e : Event AuthError Bool) : (vm.deliver attempt e).1.current = vm.current := by
  unfold deliver current
  cases h : (vm.flatMapLatest.innerOn performLoginDispose attempt e).2 <;> simp [h]

@[simp] theorem receive_current (vm : LoginViewModel κ) (events : List (ℕ × Event AuthError Bool)) :
    (vm.receive events).1.current = vm.current := by
  induction events generalizing vm with
  | nil => rfl
  | cons e rest ih =>
    simp only [receive, ih, deliver_current]

@[simp] theorem send_current (vm : LoginViewModel κ) (f : Field) (text : String) :
    (vm.send f text).current = vm.current := by
  unfold send current
  split <;> rfl

/-- The pipeline is subscribed, its current attempt is the `n`-th and a tap
would send these values. -/
structure Running (vm : LoginViewModel κ) (observers : List κ) (n : ℕ)
    (values : Field → String) : Prop where
  connected : vm.connected = true
  combined : vm.combineLatest.latestElement = fun f => some (values f)
  latest : vm.withLatestFrom.latest = some values
  follows : vm.flatMapLatest.Follows n
  live : vm.isLoginCompleted.Live observers

/-- The pipeline has been disposed by an error. -/
structure Stopped (vm : LoginViewModel κ) : Prop where
  disconnected : vm.connected = false
  disposed : vm.flatMapLatest.disposed = true

variable {vm : LoginViewModel κ} {observers : List κ} {n : ℕ} {values : Field → String}

theorem subscribe_first (k : κ) :
    (({} : LoginViewModel κ).subscribe k).Running [k] 0 (fun _ => "") := by
  have hcombined : (((({} : CombineLatestSink Field String).next .email "").1.next
      .password "").1).latestElement = fun _ => some "" := by
    funext f
    cases f <;> rfl
  refine ⟨rfl, hcombined, ?_, SwitchSink.follows_init, ⟨rfl, rfl, rfl, rfl⟩⟩
  let c := ({} : CombineLatestSink Field String).next .email ""
  have hresult : (c.1.next .password "").2 = some (fun _ => "") :=
    CombineLatestSink.getResult_of_values hcombined
  change ((WithLatestFromSink.second {} c.2).second (c.1.next .password "").2).latest = _
  rw [hresult]
  rfl

theorem Running.subscribe (h : vm.Running observers n values) (hne : observers ≠ []) (k : κ) :
    (vm.subscribe k).Running (observers ++ [k]) n values := by
  obtain ⟨hconn, hcombined, hlatest, hfollows, hlive⟩ := h
  obtain ⟨hobs, hcatch, hshare, rfl⟩ := hlive
  have hsub : vm.subscribe k = { vm with isLoginCompleted :=
      { vm.isLoginCompleted with share := (vm.isLoginCompleted.share.subscribe k).1 } } := by
    simp [LoginViewModel.subscribe, hshare, hne]
  rw [hsub]
  exact ⟨hconn, hcombined, hlatest, hfollows, ⟨hobs, hcatch, hshare, rfl⟩⟩

/-- Any positive number of subscribers finds one running pipeline. -/
theorem bound_running (hne : observers ≠ []) :
    (bound observers).Running observers 0 (fun _ => "") := by
  have aux : ∀ (rest front : List κ) (vm : LoginViewModel κ), front ≠ [] →
      vm.Running front 0 (fun _ => "") →
      (rest.foldl LoginViewModel.subscribe vm).Running (front ++ rest) 0 (fun _ => "") := by
    intro rest
    induction rest with
    | nil =>
      intro front vm hfront h
      simpa using h
    | cons k rest ih =>
      intro front vm hfront h
      have hnext := ih (front ++ [k]) (vm.subscribe k) (by simp) (h.subscribe hfront k)
      simpa using hnext
  cases observers with
  | nil => exact absurd rfl hne
  | cons k rest => exact aux rest [k] _ (by simp) (subscribe_first k)

theorem Running.send (h : vm.Running observers n values) (f : Field) (text : String) :
    (vm.send f text).Running observers n (Function.update values f text) := by
  have hcombined : (vm.combineLatest.set f text).latestElement =
      fun g => some (Function.update values f text g) :=
    CombineLatestSink.set_of_values h.combined f text
  have hsend : vm.send f text = { vm with
      subject := Function.update vm.subject f text
      combineLatest := (vm.combineLatest.next f text).1
      withLatestFrom := vm.withLatestFrom.second (vm.combineLatest.next f text).2 } := by
    simp [LoginViewModel.send, h.connected]
  rw [hsend]
  refine ⟨h.connected, hcombined, ?_, h.follows, h.live⟩
  change Option.or (CombineLatestSink.getResult _) _ = _
  rw [CombineLatestSink.getResult_of_values hcombined]
  rfl

theorem Running.sampled (h : vm.Running observers n values) : vm.sampled = some values := by
  simp [LoginViewModel.sampled, h.connected, WithLatestFromSink.first, h.latest]

theorem Running.tapped (h : vm.Running observers n values) :
    vm.loginButtonTapped.Running observers (n + 1) values := by
  have htap : vm.loginButtonTapped =
      { vm with flatMapLatest := vm.flatMapLatest.nextElementArrived performLoginDispose } := by
    simp [LoginViewModel.loginButtonTapped, h.sampled]
  rw [htap]
  exact ⟨h.connected, h.combined, h.latest, h.follows.nextElementArrived performLoginDispose, h.live⟩

/-- Events of a superseded attempt are not seen by anybody. -/
theorem Running.deliver_older (h : vm.Running observers n values) {attempt : ℕ}
    (hlt : attempt < n) (e : Event AuthError Bool) :
    (vm.deliver attempt e).2 = [] ∧ (vm.deliver attempt e).1.Running observers n values := by
  obtain ⟨hsilent, hfollows⟩ :=
    h.follows.innerOn_older performLoginDispose hlt e
  simp only [LoginViewModel.deliver, hsilent, true_and]
  exact ⟨h.connected, h.combined, h.latest, hfollows, h.live⟩

theorem Running.deliverAll_older (h : vm.Running observers n values) {attempt : ℕ}
    (hlt : attempt < n) (events : List (Event AuthError Bool)) :
    (vm.deliverAll attempt events).2 = [] ∧
      (vm.deliverAll attempt events).1.Running observers n values := by
  induction events generalizing vm with
  | nil => exact ⟨rfl, h⟩
  | cons e rest ih =>
    obtain ⟨hsilent, hrunning⟩ := h.deliver_older hlt e
    obtain ⟨hrest, hfinal⟩ := ih hrunning
    exact ⟨by simp [LoginViewModel.deliverAll, hsilent, hrest], hfinal⟩

/-- The current attempt's value reaches every subscriber. -/
theorem Running.deliver_next (h : vm.Running observers n values) (b : Bool) :
    (vm.deliver n (.next b)).2 = observers.map (fun k => (k, .next b)) ∧
      (vm.deliver n (.next b)).1.Running observers n values := by
  have hinner := h.follows.innerOn_next performLoginDispose b
  have hseq := h.live.on_next (ε := AuthError) false b
  have hvm : vm.deliver n (.next b) =
      ({ vm with isLoginCompleted := vm.isLoginCompleted.keep b },
        observers.map (fun k => (k, .next b))) := by
    simp [LoginViewModel.deliver, hinner, hseq, Event.isStopEvent]
  rw [hvm]
  exact ⟨rfl, h.connected, h.combined, h.latest, h.follows, h.live.keep b⟩

/-- The current attempt's error reaches every subscriber as `false`, followed
by completion, and stops the pipeline. -/
theorem Running.deliver_error (h : vm.Running observers n values) (error : AuthError) :
    (vm.deliver n (.error error)).2 =
        observers.map (fun k => (k, .next false)) ++ observers.map (fun k => (k, .completed)) ∧
      (vm.deliver n (.error error)).1.Stopped := by
  obtain ⟨hinner, hdisposed⟩ :=
    h.follows.innerOn_error performLoginDispose error
  obtain ⟨hseq, -⟩ := h.live.on_error false error
  simp only [LoginViewModel.deliver, hinner, hseq, true_and]
  exact ⟨by simp [Event.isStopEvent], hdisposed⟩

theorem Stopped.send (h : vm.Stopped) (f : Field) (text : String) : (vm.send f text).Stopped := by
  have hsend : vm.send f text = { vm with subject := Function.update vm.subject f text } := by
    simp [LoginViewModel.send, h.disconnected]
  rw [hsend]
  exact ⟨h.disconnected, h.disposed⟩

theorem Stopped.sampled (h : vm.Stopped) : vm.sampled = none := by
  simp [LoginViewModel.sampled, h.disconnected]

theorem Stopped.tapped (h : vm.Stopped) : vm.loginButtonTapped = vm := by
  simp [LoginViewModel.loginButtonTapped, h.sampled]

theorem Stopped.deliver (h : vm.Stopped) (attempt : ℕ) (e : Event AuthError Bool) :
    (vm.deliver attempt e).2 = [] ∧ (vm.deliver attempt e).1.Stopped := by
  obtain ⟨hsilent, hdisposed⟩ :=
    SwitchSink.innerOn_disposed performLoginDispose h.disposed attempt e
  simp only [LoginViewModel.deliver, hsilent, true_and]
  exact ⟨h.disconnected, hdisposed⟩

theorem Stopped.deliverAll (h : vm.Stopped) (attempt : ℕ) (events : List (Event AuthError Bool)) :
    (vm.deliverAll attempt events).2 = [] ∧ (vm.deliverAll attempt events).1.Stopped := by
  induction events generalizing vm with
  | nil => exact ⟨rfl, h⟩
  | cons e rest ih =>
    obtain ⟨hsilent, hstopped⟩ := h.deliver attempt e
    obtain ⟨hrest, hfinal⟩ := ih hstopped
    exact ⟨by simp [LoginViewModel.deliverAll, hsilent, hrest], hfinal⟩

/-- What the sign-in closure sends when the current attempt has succeeded. -/
theorem Running.signIn_ok (h : vm.Running observers n values) (uid : Uid) :
    (vm.deliverAll n (signInCallback (.ok uid))).2 = observers.map (fun k => (k, .next true)) ∧
      (vm.deliverAll n (signInCallback (.ok uid))).1.Running observers n values := by
  obtain ⟨hout, hrunning⟩ := h.deliver_next true
  exact ⟨by simp [signInCallback, LoginViewModel.deliverAll, hout], hrunning⟩

/-- After an error the closure goes on to send `true`; the stopped pipeline
does not pass it on. -/
theorem Running.signIn_error (h : vm.Running observers n values) (error : AuthError) :
    (vm.deliverAll n (signInCallback (.error error))).2 =
        observers.map (fun k => (k, .next false)) ++ observers.map (fun k => (k, .completed)) ∧
      (vm.deliverAll n (signInCallback (.error error))).1.Stopped := by
  obtain ⟨hout, hstopped⟩ := h.deliver_error error
  obtain ⟨hsilent, hfinal⟩ := hstopped.deliverAll n [.next true]
  refine ⟨?_, hfinal⟩
  rw [signInCallback, LoginViewModel.deliverAll, hout]
  simpa using hsilent

end LoginViewModel

end Mber.LoginPipeline
