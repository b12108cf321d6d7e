import Mber.SharedSequences
import Mber.AuthManager

/-!
RegistrationViewModel: four relays combined into one shared stream, the
sampling and switching pipeline that the initializer subscribes, and the two
relays behind `isRegistering` and `isRegistered`. The pipeline has no end: an
attempt only ever sends elements.
-/
namespace Mber.RegistrationPipeline

open Sinks SharedSequences AuthManager Firebase

inductive Field
  | email
  | fullName
  | userType
  | password
  deriving DecidableEq

instance : Fintype Field :=
  ⟨{.email, .fullName, .userType, .password}, fun f => by cases f <;> decide⟩

def register (v : Field → String) : Register where
  email := v .email
  fullName := v .fullName
  userType := v .userType
  password := v .password

/-- Who listens to the shared `registrationValues`. -/
inductive ValuesObserver
  | withLatestFrom
  | isFormValid
  deriving DecidableEq

structure RegistrationViewModel (κ : Type*) where
  combineLatest : CombineLatestSink Field String := {}
  registrationValues : ShareConnection ValuesObserver (Field → String) :=
    { replay := false, observers := [.withLatestFrom] }
  withLatestFrom : WithLatestFromSink (Field → String) := {}
  flatMapLatest : SwitchSink := {}
  isRegistering : SharedSequence κ Bool := { share := { replay := true } }
  isRegistered : SharedSequence κ Bool := { share := { replay := false } }

inductive Output (κ : Type*)
  | isRegistering (subscriber : κ) (registering : Bool)
  | performRegistration (attempt : ℕ) (values : Register)
  | isRegistered (subscriber : κ) (success : Bool)
  deriving DecidableEq

variable {κ : Type*}

def registering? : κ × Event AuthError Bool → Option (Output κ)
  | (k, .next b) => some (.isRegistering k b)
  | _ => none

def registered? : κ × Event AuthError Bool → Option (Output κ)
  | (k, .next b) => some (.isRegistered k b)
  | _ => none

namespace RegistrationViewModel

/-- A new view model; these have subscribed before anything happens. -/
def bound (registering registered : List κ) : RegistrationViewModel κ where
  isRegistering := { share := { replay := true, observers := registering } }
  isRegistered := { share := { replay := false, observers := registered } }

/-- The sampling operator is one of the listeners of `registrationValues`. -/
def sample (w : WithLatestFromSink (Field → String)) :
    ValuesObserver × Event AuthError (Field → String) → WithLatestFromSink (Field → String)
  | (.withLatestFrom, .next v) => w.second (some v)
  | _ => w

def send (vm : RegistrationViewModel κ) (f : Field) (text : String) : RegistrationViewModel κ :=
  let c := vm.combineLatest.next f text
  let r := vm.registrationValues.onAll (c.2.toList.map Event.next)
  { vm with
    combineLatest := c.1
    registrationValues := r.1
    withLatestFrom := r.2.foldl sample vm.withLatestFrom }

/-- A relay behind a shared sequence: without subscribers nothing is connected. -/
def accept (s : SharedSequence κ Bool) (b : Bool) :
    SharedSequence κ Bool × List (κ × Event AuthError Bool) :=
  if s.share.observers.isEmpty then (s, []) else s.on false (.next b)

def onRegistering (vm : RegistrationViewModel κ) (b : Bool) :
    RegistrationViewModel κ × List (Output κ) :=
  ({ vm with isRegistering := (accept vm.isRegistering b).1 },
    (accept vm.isRegistering b).2.filterMap registering?)

def onRegistered (vm : RegistrationViewModel κ) (b : Bool) :
    RegistrationViewModel κ × List (Output κ) :=
  ({ vm with isRegistered := (accept vm.isRegistered b).1 },
    (accept vm.isRegistered b).2.filterMap registered?)

def current (vm : RegistrationViewModel κ) : ℕ := vm.flatMapLatest.latest

def signupButtonTapped (vm : RegistrationViewModel κ) :
    RegistrationViewModel κ × List (Output κ) :=
  match vm.withLatestFrom.first with
  | none => (vm, [])
  | some v =>
    let r := vm.onRegistering true
    let next := { r.1 with
      flatMapLatest := r.1.flatMapLatest.nextElementArrived performRegistrationDispose }
    (next, r.2 ++ [.performRegistration next.current (register v)])

/-- The observer of one attempt receives an event; an element is passed to
the two relays in turn. -/
def deliver (vm : RegistrationViewModel κ) (attempt : ℕ) (e : Event AuthError Bool) :
    RegistrationViewModel κ × List (Output κ) :=
  let r := vm.flatMapLatest.innerOn performRegistrationDispose attempt e
  let vm := { vm with flatMapLatest := r.1 }
  match r.2 with
  | some (.next b) =>
    let p := vm.onRegistering false
    let q := p.1.onRegistered b
    (q.1, p.2 ++ q.2)
  | _ => (vm, [])

def deliverAll (vm : RegistrationViewModel κ) (attempt : ℕ) : List (Event AuthError Bool) →
    RegistrationViewModel κ × List (Output κ)
  | [] => (vm, [])
  | e :: rest =>
    let r := (vm.deliver attempt e).1.deliverAll attempt rest
    (r.1, (vm.deliver attempt e).2 ++ r.2)

/-- The last value of `isRegistering`, which the driver keeps for replay. -/
def lastRegistering (vm : RegistrationViewModel κ) : Bool :=
  vm.isRegistering.share.element.getD false

/-- The pipeline is subscribed, its current attempt is the `n`-th, the fields
have sent these values and the last value of `isRegistering` is `busy`. -/
structure Running (vm : RegistrationViewModel κ) (registering registered : List κ) (n : ℕ)
    (values : Field → Option String) (busy : Bool) : Prop where
  combined : vm.combineLatest.latestElement = values
  shared : vm.registrationValues = { replay := false, observers := [.withLatestFrom] }
  latest : vm.withLatestFrom.latest = vm.combineLatest.getResult
  follows : vm.flatMapLatest.Follows n
  driver : vm.isRegistering.Live registering
  replay : vm.isRegistering.share.replay = true
  signal : vm.isRegistered.Live registered
  last : vm.lastRegistering = busy

variable {vm : RegistrationViewModel κ} {registering registered : List κ} {n : ℕ}
  {values : Field → Option String} {busy : Bool}

theorem bound_running (registering registered : List κ) :
    (bound registering registered).Running registering registered 0 (fun _ => none) false := by
  have hnone : ({} : CombineLatestSink Field String).getResult = none :=
    (CombineLatestSink.getResult_eq_none_iff _).mpr ⟨.email, rfl⟩
  exact ⟨rfl, rfl, hnone.symm, SwitchSink.follows_init, ⟨rfl, rfl, rfl, rfl⟩, rfl,
    ⟨rfl, rfl, rfl, rfl⟩, rfl⟩

/-- A combination, once there, stays there. -/
theorem getResult_or_set (s : CombineLatestSink Field String) (f : Field) (text : String) :
    ((s.set f text).getResult).or s.getResult = (s.set f text).getResult := by
  cases hset : (s.set f text).getResult with
  | some v => rfl
  | none =>
    obtain ⟨g, hg⟩ := (CombineLatestSink.getResult_eq_none_iff _).mp hset
    have hbefore : s.getResult = none := by
      apply (CombineLatestSink.getResult_eq_none_iff s).mpr
      refine ⟨g, ?_⟩
      rw [CombineLatestSink.set_latestElement] at hg
      by_cases hgf : g = f
      · subst hgf
        simp at hg
      · simpa [hgf] using hg
    rw [hbefore]
    rfl

theorem Running.send (h : vm.Running registering registered n values busy) (f : Field)
    (text : String) : (vm.send f text).Running registering registered n
      (Function.update values f (some text)) busy := by
  obtain ⟨rfl, hshared, hlatest, hfollows, hdriver, hreplay, hsignal, hlast⟩ := h
  have hsend : vm.send f text = { vm with
      combineLatest := vm.combineLatest.set f text
      withLatestFrom := vm.withLatestFrom.second (vm.combineLatest.set f text).getResult } := by
    cases hresult : (vm.combineLatest.set f text).getResult <;>
      simp [RegistrationViewModel.send, CombineLatestSink.next, hresult, hshared,
        ShareConnection.onAll, ShareConnection.on, sample, WithLatestFromSink.second]
  rw [hsend]
  refine ⟨rfl, hshared, ?_, hfollows, hdriver, hreplay, hsignal, hlast⟩
  change Option.or _ vm.withLatestFrom.latest = _
  rw [hlatest, getResult_or_set]

theorem filterMap_registering (observers : List κ) (b : Bool) :
    (observers.map (fun k => (k, (.next b : Event AuthError Bool)))).filterMap registering? =
      observers.map (fun k => .isRegistering k b) := by
  simp [List.filterMap_map, Function.comp_def, registering?]

theorem filterMap_registered (observers : List κ) (b : Bool) :
    (observers.map (fun k => (k, (.next b : Event AuthError Bool)))).filterMap registered? =
      observers.map (fun k => .isRegistered k b) := by
  simp [List.filterMap_map, Function.comp_def, registered?]

/-- A relay's value reaches every subscriber of the sequence behind it. -/
theorem accept_live {s : SharedSequence κ Bool} {observers : List κ} (h : s.Live observers)
    (b : Bool) : (accept s b).1.Live observers ∧
      (accept s b).2 = observers.map (fun k => (k, .next b)) ∧
      (accept s b).1.share.replay = s.share.replay ∧
      (observers ≠ [] → s.share.replay = true → (accept s b).1.share.element = some b) := by
  unfold accept
  rw [h.observers_eq]
  cases observers with
  | nil => simpa using h
  | cons k rest =>
    have hon := h.on_next (ε := AuthError) false b
    rw [if_neg (by simp), hon]
    exact ⟨h.keep b, rfl, rfl, fun _ hreplay => by simp [SharedSequence.keep, hreplay]⟩

theorem Running.onRegistering (h : vm.Running registering registered n values busy)
    (hne : registering ≠ []) (b : Bool) :
    (vm.onRegistering b).2 = registering.map (fun k => .isRegistering k b) ∧
      (vm.onRegistering b).1.Running registering registered n values b := by
  obtain ⟨hlive, hout, hreplay, helement⟩ := accept_live h.driver b
  refine ⟨?_, h.combined, h.shared, h.latest, h.follows, hlive, hreplay.trans h.replay,
    h.signal, ?_⟩
  · rw [RegistrationViewModel.onRegistering, hout, filterMap_registering]
  · simp [lastRegistering, RegistrationViewModel.onRegistering, helement hne h.replay]

theorem Running.onRegistered (h : vm.Running registering registered n values busy) (b : Bool) :
    (vm.onRegistered b).2 = registered.map (fun k => .isRegistered k b) ∧
      (vm.onRegistered b).1.Running registering registered n values busy := by
  obtain ⟨hlive, hout, -, -⟩ := accept_live h.signal b
  refine ⟨?_, h.combined, h.shared, h.latest, h.follows, h.driver, h.replay, hlive, h.last⟩
  rw [RegistrationViewModel.onRegistered, hout, filterMap_registered]

/-- Four relays, four values. -/
def sampled (values : Field → Option String) : Option Register :=
  match values .email, values .fullName, values .userType, values .password with
  | some email, some fullName, some userType, some password =>
    some { email, fullName, userType, password }
  | _, _, _, _ => none

theorem Running.first (h : vm.Running registering registered n values busy) :
    vm.withLatestFrom.first.map register = sampled values := by
  rw [WithLatestFromSink.first, h.latest]
  cases hresult : vm.combineLatest.getResult with
  | some v =>
    have hall := (CombineLatestSink.getResult_eq_some_iff _ v).mp hresult
    rw [h.combined] at hall
    simp [sampled, hall, register]
  | none =>
    obtain ⟨f, hf⟩ := (CombineLatestSink.getResult_eq_none_iff _).mp hresult
    rw [h.combined] at hf
    unfold sampled
    split
    · cases f <;> simp_all
    · rfl

theorem Running.tap_incomplete (h : vm.Running registering registered n values busy)
    (hnone : sampled values = none) : vm.signupButtonTapped = (vm, []) := by
  have hfirst : vm.withLatestFrom.first = none := by
    simpa [hnone] using h.first
  simp [signupButtonTapped, hfirst]

theorem Running.tap_complete (h : vm.Running registering registered n values busy)
    (hne : registering ≠ []) {v : Register} (hsome : sampled values = some v) :
    vm.signupButtonTapped.2 = registering.map (fun k => .isRegistering k true) ++
        [.performRegistration (n + 1) v] ∧
      vm.signupButtonTapped.1.Running registering registered (n + 1) values true := by
  obtain ⟨w, hfirst, rfl⟩ := Option.map_eq_some_iff.mp (h.first.trans hsome)
  obtain ⟨hout, hnext⟩ := h.onRegistering hne true
  have hfollows := hnext.follows.nextElementArrived performRegistrationDispose
  simp only [signupButtonTapped, hfirst, hout, current, hfollows.latest_eq, true_and]
  exact ⟨hnext.combined, hnext.shared, hnext.latest, hfollows, hnext.driver, hnext.replay,
    hnext.signal, hnext.last⟩

theorem Running.deliver_older (h : vm.Running registering registered n values busy)
    {attempt : ℕ} (hlt : attempt < n) (e : Event AuthError Bool) :
    (vm.deliver attempt e).2 = [] ∧
      (vm.deliver attempt e).1.Running registering registered n values busy := by
  obtain ⟨hsilent, hfollows⟩ := h.follows.innerOn_older performRegistrationDispose hlt e
  simp only [deliver, hsilent, true_and]
  exact ⟨h.combined, h.shared, h.latest, hfollows, h.driver, h.replay, h.signal, h.last⟩

/-- The current attempt's element: `isRegistering` first, then the result. -/
theorem Running.deliver_next (h : vm.Running registering registered n values busy)
    (hne : registering ≠ []) (b : Bool) :
    (vm.deliver n (.next b)).2 = registering.map (fun k => .isRegistering k false) ++
        registered.map (fun k => .isRegistered k b) ∧
      (vm.deliver n (.next b)).1.Running registering registered n values false := by
  have hinner := h.follows.innerOn_next performRegistrationDispose b
  obtain ⟨hfirst, hmiddle⟩ := h.onRegistering hne false
  obtain ⟨hsecond, hlast⟩ := hmiddle.onRegistered b
  simp only [deliver, hinner, hfirst, hsecond, true_and]
  exact hlast

end RegistrationViewModel

end Mber.RegistrationPipeline
