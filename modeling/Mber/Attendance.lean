import Mber.Application
import Mber.HomePushes
import Mber.Runs

/-!
Every view model of the app is in one of its known states, and whoever waits for
an answer is one of their attempts. An answer is passed on when it is that of
the current attempt of a pipeline that still runs and whose coordinator hears
it.
-/
namespace Mber.HomeEntry

open AuthManager Firebase Firestore Coordinators CoordinatorLaws BeforeHandover HomePushes
  Application Runs

/-- The callback belongs to an attempt that some view model has started. -/
def Belongs (a : App) : Callback Observer → Prop
  | .signIn (.login c attempt) => attempt ≤ (a.logins c).current
  | .createUser (.registration c attempt) _ => attempt ≤ (a.registrations c).current
  | _ => False

def WriteBelongs (a : App) (w : SetData Observer) : Prop :=
  ∃ c attempt, w.observer = .registration c attempt ∧ attempt ≤ (a.registrations c).current

def LoginReady (vm : LoginModel) : Prop :=
  (∃ values, vm.Running [.controller, .coordinator] vm.current values) ∨ vm.Stopped

def RegistrationReady (vm : RegistrationModel) : Prop :=
  ∃ values busy, vm.Running [.controller] [.coordinator] vm.current values busy

/-- Every view model is in one of its known states, and whoever waits for an
answer is one of their attempts. -/
structure Attended (a : App) : Prop where
  logins : ∀ c, LoginReady (a.logins c)
  registrations : ∀ c, RegistrationReady (a.registrations c)
  inFlight : ∀ e ∈ a.service.auth.inFlight, Belongs a e.1
  mainQueue : ∀ e ∈ a.service.auth.mainQueue, Belongs a e.1
  writing : ∀ w ∈ a.service.writing, WriteBelongs a w

variable {a b : App} {c : ℕ}

structure Grows (a b : App) : Prop where
  logins : ∀ d, (a.logins d).current ≤ (b.logins d).current
  registrations : ∀ d, (a.registrations d).current ≤ (b.registrations d).current

theorem grows_of_eq (hlogins : b.logins = a.logins)
    (hregistrations : b.registrations = a.registrations) : Grows a b :=
  ⟨fun d => by rw [hlogins], fun d => by rw [hregistrations]⟩

theorem grows_setLogin {vm : LoginModel} (hle : (a.logins c).current ≤ vm.current) :
    Grows a (a.setLogin c vm) := by
  refine ⟨?_, fun d => Nat.le_refl _⟩
  intro d
  by_cases hd : d = c
  · subst hd
    simpa [App.setLogin] using hle
  · simp [App.setLogin, hd]

theorem grows_setRegistration {vm : RegistrationModel}
    (hle : (a.registrations c).current ≤ vm.current) : Grows a (a.setRegistration c vm) := by
  refine ⟨fun d => Nat.le_refl _, ?_⟩
  intro d
  by_cases hd : d = c
  · subst hd
    simpa [App.setRegistration] using hle
  · simp [App.setRegistration, hd]

theorem Belongs.mono (hgrows : Grows a b) {k : Callback Observer} (h : Belongs a k) :
    Belongs b k := by
  cases k with
  | signIn observer =>
    cases observer with
    | login d attempt => exact Nat.le_trans h (hgrows.logins d)
    | registration d attempt => exact h
  | createUser observer values =>
    cases observer with
    | login d attempt => exact h
    | registration d attempt => exact Nat.le_trans h (hgrows.registrations d)

theorem WriteBelongs.mono (hgrows : Grows a b) {w : SetData Observer} (h : WriteBelongs a w) :
    WriteBelongs b w := by
  obtain ⟨d, attempt, hobserver, hle⟩ := h
  exact ⟨d, attempt, hobserver, Nat.le_trans hle (hgrows.registrations d)⟩

/-- The view models advance while the same calls wait in the service. -/
theorem Attended.advance (h : Attended a) (hgrows : Grows a b) (hservice : b.service = a.service)
    (hlogins : ∀ d, LoginReady (b.logins d))
    (hregistrations : ∀ d, RegistrationReady (b.registrations d)) : Attended b := by
  refine ⟨hlogins, hregistrations, ?_, ?_, ?_⟩ <;> rw [hservice]
  · exact fun e he => (h.inFlight e he).mono hgrows
  · exact fun e he => (h.mainQueue e he).mono hgrows
  · exact fun w hw => (h.writing w hw).mono hgrows

theorem attended_setLogin (h : Attended a) (c : ℕ) (vm : LoginModel) (hready : LoginReady vm)
    (hle : (a.logins c).current ≤ vm.current) : Attended (a.setLogin c vm) := by
  refine h.advance (grows_setLogin hle) rfl ?_ h.registrations
  intro d
  by_cases hd : d = c
  · subst hd
    simpa [App.setLogin] using hready
  · simpa [App.setLogin, hd] using h.logins d

theorem attended_setRegistration (h : Attended a) (c : ℕ) (vm : RegistrationModel)
    (hready : RegistrationReady vm) (hle : (a.registrations c).current ≤ vm.current) :
    Attended (a.setRegistration c vm) := by
  refine h.advance (grows_setRegistration hle) rfl h.logins ?_
  intro d
  by_cases hd : d = c
  · subst hd
    simpa [App.setRegistration] using hready
  · simpa [App.setRegistration, hd] using h.registrations d

theorem attended_world (h : Attended a) (w : World) : Attended { a with world := w } :=
  h.advance (grows_of_eq rfl rfl) rfl h.logins h.registrations

/-- The service changes, and everything that waits in it belongs to an attempt. -/
theorem attended_service (h : Attended a) (s : Service Observer)
    (hflight : ∀ e ∈ s.auth.inFlight, Belongs a e.1)
    (hqueue : ∀ e ∈ s.auth.mainQueue, Belongs a e.1)
    (hwriting : ∀ w ∈ s.writing, WriteBelongs a w) : Attended { a with service := s } := by
  have hgrows : Grows a { a with service := s } := grows_of_eq rfl rfl
  exact ⟨h.logins, h.registrations, fun e he => (hflight e he).mono hgrows,
    fun e he => (hqueue e he).mono hgrows, fun w hw => (hwriting w hw).mono hgrows⟩

theorem attended_editLogin (h : Attended a) (c : ℕ) (f : LoginPipeline.Field) (text : String) :
    Attended (a.setLogin c ((a.logins c).send f text)) := by
  have hcurrent : ((a.logins c).send f text).current = (a.logins c).current :=
    LoginPipeline.LoginViewModel.send_current _ _ _
  refine attended_setLogin h c _ ?_ (by rw [hcurrent])
  unfold LoginReady
  rw [hcurrent]
  rcases h.logins c with ⟨values, hrunning⟩ | hstopped
  · exact Or.inl ⟨_, hrunning.send f text⟩
  · exact Or.inr (hstopped.send f text)

theorem attended_loginTap (h : Attended a) (c : ℕ) : Attended (a.loginButtonTapped c) := by
  rcases h.logins c with ⟨values, hrunning⟩ | hstopped
  · have hnext := hrunning.tapped
    have hcurrent : (a.logins c).loginButtonTapped.current = (a.logins c).current + 1 :=
      hnext.follows.latest_eq
    have hset := attended_setLogin h c (a.logins c).loginButtonTapped
      (Or.inl ⟨values, by rw [hcurrent]; exact hnext⟩) (by omega)
    simp only [App.loginButtonTapped, hrunning.sampled]
    refine attended_service hset _ ?_ hset.mainQueue hset.writing
    intro e he
    simp only [Service.performLogin, FirebaseAuth.request, List.mem_append,
      List.mem_singleton] at he
    rcases he with he | rfl
    · exact hset.inFlight e he
    · simp [Belongs, App.setLogin]
  · simp only [App.loginButtonTapped, hstopped.sampled]
    exact h

theorem attended_editRegistration (h : Attended a) (c : ℕ) (f : RegistrationPipeline.Field)
    (text : String) : Attended (a.setRegistration c ((a.registrations c).send f text)) := by
  obtain ⟨values, busy, hrunning⟩ := h.registrations c
  have hnext := hrunning.send f text
  have hcurrent : ((a.registrations c).send f text).current = (a.registrations c).current :=
    hnext.follows.latest_eq
  exact attended_setRegistration h c _ ⟨_, _, by rw [hcurrent]; exact hnext⟩ (by rw [hcurrent])

theorem attended_signupTap (h : Attended a) (c : ℕ) : Attended (a.signupButtonTapped c) := by
  obtain ⟨values, busy, hrunning⟩ := h.registrations c
  cases hsampled : RegistrationPipeline.RegistrationViewModel.sampled values with
  | none =>
    have hself : a.setRegistration c (a.registrations c) = a := by
      simp [App.setRegistration]
    simp only [App.signupButtonTapped, hrunning.tap_incomplete hsampled, List.foldl_nil, hself]
    exact h
  | some v =>
    obtain ⟨hout, hnext⟩ := hrunning.tap_complete (by simp) hsampled
    have hcurrent : (a.registrations c).signupButtonTapped.1.current =
        (a.registrations c).current + 1 := hnext.follows.latest_eq
    have hset := attended_setRegistration h c (a.registrations c).signupButtonTapped.1
      ⟨_, _, by rw [hcurrent]; exact hnext⟩ (by omega)
    simp only [App.signupButtonTapped, hout, List.map_cons, List.map_nil, List.foldl_append,
      List.foldl_cons, List.foldl_nil, App.performRegistration]
    refine attended_service hset _ ?_ hset.mainQueue hset.writing
    intro e he
    simp only [Service.performRegistration, FirebaseAuth.request, List.mem_append,
      List.mem_singleton] at he
    rcases he with he | rfl
    · exact hset.inFlight e he
    · simp [Belongs, App.setRegistration, hcurrent]

/-- The events of one login attempt, first through the view model and then to
the coordinator. -/
theorem receive_login (a : App) (c attempt : ℕ) (events : List (Sinks.Event AuthError Bool)) :
    (events.map (fun e => (Observer.login c attempt, e))).foldl App.receive a =
      { a.setLogin c ((a.logins c).deliverAll attempt events).1 with
        world := ((a.logins c).deliverAll attempt events).2.foldl (App.hearLogin c) a.world } := by
  induction events generalizing a with
  | nil => simp [LoginPipeline.LoginViewModel.deliverAll, App.setLogin]
  | cons e rest ih =>
    rw [List.map_cons, List.foldl_cons, ih]
    simp [App.receive, LoginPipeline.LoginViewModel.deliverAll, App.setLogin]

theorem deliverAll_current (vm : LoginModel) (attempt : ℕ)
    (events : List (Sinks.Event AuthError Bool)) :
    (vm.deliverAll attempt events).1.current = vm.current := by
  rw [← LoginPipeline.LoginViewModel.receive_map]
  exact LoginPipeline.LoginViewModel.receive_current _ _

/-- The pipeline runs and the attempt is its current one. -/
def PassesOn (vm : LoginModel) (attempt : ℕ) : Prop :=
  vm.connected = true ∧ attempt = vm.current

instance (vm : LoginModel) (attempt : ℕ) : Decidable (PassesOn vm attempt) := by
  unfold PassesOn
  infer_instance

/-- A login coordinator hears every answer that is passed on, and no other. -/
theorem login_answer {vm : LoginModel} (hready : LoginReady vm) {attempt : ℕ}
    (hle : attempt ≤ vm.current) (result : Except AuthError Uid) (w : World) :
    LoginReady (vm.deliverAll attempt (signInCallback result)).1 ∧
      (PassesOn vm attempt → ∃ success,
        (vm.deliverAll attempt (signInCallback result)).2.foldl (App.hearLogin c) w =
          w.step (.isLoginCompleted c success)) ∧
      (¬ PassesOn vm attempt →
        (vm.deliverAll attempt (signInCallback result)).2.foldl (App.hearLogin c) w = w) := by
  have hcurrent := deliverAll_current vm attempt (signInCallback result)
  unfold LoginReady
  rw [hcurrent]
  rcases hready with ⟨values, hrunning⟩ | hstopped
  · by_cases hcur : attempt = vm.current
    · subst hcur
      have hpasses : PassesOn vm vm.current := ⟨hrunning.connected, rfl⟩
      cases result with
      | ok uid =>
        obtain ⟨hout, hnext⟩ := hrunning.signIn_ok uid
        refine ⟨Or.inl ⟨values, hnext⟩, fun _ => ⟨true, ?_⟩, fun hnot => absurd hpasses hnot⟩
        rw [hout]
        rfl
      | error error =>
        obtain ⟨hout, hnext⟩ := hrunning.signIn_error error
        refine ⟨Or.inr hnext, fun _ => ⟨false, ?_⟩, fun hnot => absurd hpasses hnot⟩
        rw [hout]
        rfl
    · have hlt : attempt < vm.current := by omega
      obtain ⟨hout, hnext⟩ := hrunning.deliverAll_older hlt (signInCallback result)
      refine ⟨Or.inl ⟨values, hnext⟩, fun hpasses => absurd hpasses.2 hcur, fun _ => ?_⟩
      rw [hout]
      rfl
  · obtain ⟨hout, hnext⟩ := hstopped.deliverAll attempt (signInCallback result)
    refine ⟨Or.inr hnext, fun hpasses => ?_, fun _ => ?_⟩
    · simpa [hstopped.disconnected] using hpasses.1
    · rw [hout]
      rfl

/-- A registration coordinator hears the answer of the current attempt. -/
theorem registration_answer {vm : RegistrationModel} (hready : RegistrationReady vm)
    {attempt : ℕ} (hle : attempt ≤ vm.current) (success : Bool) (w : World) :
    RegistrationReady (vm.deliver attempt (.next success)).1 ∧
      (vm.deliver attempt (.next success)).1.current = vm.current ∧
      (vm.deliver attempt (.next success)).2.foldl (App.hearRegistration c) w =
        if attempt = vm.current then w.step (.isRegistered c success) else w := by
  obtain ⟨values, busy, hrunning⟩ := hready
  by_cases hcur : attempt = vm.current
  · subst hcur
    obtain ⟨hout, hnext⟩ := hrunning.deliver_next (by simp) success
    have hcurrent : (vm.deliver vm.current (.next success)).1.current = vm.current :=
      hnext.follows.latest_eq
    refine ⟨⟨_, _, by rw [hcurrent]; exact hnext⟩, hcurrent, ?_⟩
    rw [hout, if_pos rfl]
    rfl
  · have hlt : attempt < vm.current := by omega
    obtain ⟨hout, hnext⟩ := hrunning.deliver_older hlt (.next success)
    have hcurrent : (vm.deliver attempt (.next success)).1.current = vm.current :=
      hnext.follows.latest_eq
    refine ⟨⟨_, _, by rw [hcurrent]; exact hnext⟩, hcurrent, ?_⟩
    rw [hout, if_neg hcur]
    rfl

theorem isRegistered_false (w : World) (c : ℕ) : w.step (.isRegistered c false) = w := by
  simp [World.step, World.isRegistered]

theorem attended_receive_login (h : Attended a) {attempt : ℕ}
    (hle : attempt ≤ (a.logins c).current) (result : Except AuthError Uid) :
    Attended (((signInCallback result).map
      (fun e => (Observer.login c attempt, e))).foldl App.receive a) := by
  have hready := (login_answer (c := c) (h.logins c) hle result a.world).1
  have hcurrent := deliverAll_current (a.logins c) attempt (signInCallback result)
  rw [receive_login]
  exact attended_world (attended_setLogin h c _ hready (by rw [hcurrent])) _

theorem attended_receive_registration (h : Attended a) {attempt : ℕ}
    (hle : attempt ≤ (a.registrations c).current) (success : Bool) :
    Attended (a.receive (.registration c attempt, .next success)) := by
  obtain ⟨hready, hcurrent, -⟩ :=
    registration_answer (c := c) (h.registrations c) hle success a.world
  simp only [App.receive]
  split_ifs
  · exact attended_world (attended_setRegistration h c _ hready (by rw [hcurrent])) _
  · exact h

/-- A failed `createUser` is reported, but no coordinator hears it; a successful
one reports nothing. -/
theorem receive_createUser (h : Attended a) {attempt : ℕ}
    (hle : attempt ≤ (a.registrations c).current) (currentUser : Option Uid) (values : Register)
    (result : Except AuthError Uid) :
    Attended (((createUserCallback currentUser values result).events.map
        (fun e => (Observer.registration c attempt, e))).foldl App.receive a) ∧
      (((createUserCallback currentUser values result).events.map
        (fun e => (Observer.registration c attempt, e))).foldl App.receive a).world = a.world := by
  cases result with
  | ok uid =>
    rw [createUserCallback_ok_events]
    exact ⟨h, rfl⟩
  | error error =>
    refine ⟨attended_receive_registration h hle false, ?_⟩
    obtain ⟨-, -, hworld⟩ :=
      registration_answer (c := c) (h.registrations c) hle false a.world
    rw [isRegistered_false, ite_self] at hworld
    simp only [createUserCallback, List.map_cons, List.map_nil, List.foldl_cons, List.foldl_nil,
      App.receive]
    split_ifs
    · exact hworld
    · rfl

theorem attended_setService (h : Attended a) (s : Service Observer)
    (hflight : ∀ e ∈ s.auth.inFlight, Belongs a e.1)
    (hqueue : ∀ e ∈ s.auth.mainQueue, Belongs a e.1)
    (hwriting : ∀ w ∈ s.writing, WriteBelongs a w) : Attended (a.setService s) :=
  attended_world (attended_service h s hflight hqueue hwriting) _

theorem attended_respond (h : Attended a) (index : ℕ) (v : Verdict) :
    Attended (a.runningStep (.respond index v)) := by
  simp only [App.runningStep, App.serve, Service.runningEmit, List.foldl_nil]
  cases hget : a.service.auth.inFlight[index]? with
  | none =>
    have hsame : a.service.runningStep (.respond index v) = a.service := by
      simp [Service.runningStep, Service.respond, FirebaseAuth.respond, hget]
    rw [hsame]
    exact attended_setService h _ h.inFlight h.mainQueue h.writing
  | some e =>
    have hclosure := h.inFlight e (List.mem_of_getElem? hget)
    apply attended_setService h
    · intro e' he'
      simp only [Service.runningStep, Service.respond, FirebaseAuth.respond, hget] at he'
      exact h.inFlight e' (List.mem_of_mem_eraseIdx he')
    · intro e' he'
      simp only [Service.runningStep, Service.respond, FirebaseAuth.respond, hget, List.mem_append,
        List.mem_singleton] at he'
      rcases he' with he' | rfl
      · exact h.mainQueue e' he'
      · exact hclosure
    · exact h.writing

/-- The login coordinator to which the next callback's answer is passed on. -/
def answeredLogin (a : App) : Option ℕ :=
  match a.service.auth.mainQueue with
  | (.signIn (.login c attempt), _) :: _ =>
    if PassesOn (a.logins c) attempt then some c else none
  | _ => none

/-- The registration coordinator to which the answer of a profile write is passed on. -/
def answeredRegistration (a : App) (index : ℕ) : Option ℕ :=
  match a.service.writing[index]?.map SetData.observer with
  | some (.registration c attempt) =>
    if .registration c ∈ a.world.stack ∧ attempt = (a.registrations c).current then some c
    else none
  | _ => none

theorem attended_runMain_service (h : Attended a) :
    Attended (a.setService a.service.runMain) := by
  refine attended_setService h _ h.inFlight
    (fun e he => h.mainQueue e (List.mem_of_mem_tail he)) ?_
  intro w hw
  rcases List.mem_append.mp hw with hw | hw
  · exact h.writing w hw
  · obtain ⟨observer, values, created, rest, hqueue, write, -, rfl⟩ := Service.mem_issued.mp hw
    have hbelongs := h.mainQueue _ (by rw [hqueue]; exact List.mem_cons_self)
    cases observer with
    | login d attempt => exact absurd hbelongs (by simp [Belongs])
    | registration d attempt => exact ⟨d, attempt, rfl, hbelongs⟩

/-- What the next callback does to the view models and to the coordinators. -/
theorem runMain_spec (h : Attended a) :
    Attended (a.runningStep .runMain) ∧
      (∀ c, answeredLogin a = some c → ∃ success, (a.runningStep .runMain).world =
        (a.setService a.service.runMain).world.step (.isLoginCompleted c success)) ∧
      (answeredLogin a = none →
        (a.runningStep .runMain).world = (a.setService a.service.runMain).world) := by
  have hservice := attended_runMain_service h
  have hstep : a.runningStep .runMain =
      a.service.reported.foldl App.receive (a.setService a.service.runMain) := rfl
  rw [hstep]
  cases hqueue : a.service.auth.mainQueue with
  | nil =>
    have hreported : a.service.reported = [] := by simp [Service.reported, hqueue]
    rw [hreported]
    exact ⟨hservice, by simp [answeredLogin, hqueue], fun _ => rfl⟩
  | cons e rest =>
    obtain ⟨closure, result⟩ := e
    have hbelongs : Belongs a closure :=
      h.mainQueue (closure, result) (by rw [hqueue]; exact List.mem_cons_self)
    rcases closure with ⟨_ | _⟩ | ⟨_ | _, values⟩
    · rename_i c attempt
      have hreported : a.service.reported =
          (signInCallback result).map (fun e => (Observer.login c attempt, e)) := by
        simp [Service.reported, hqueue]
      obtain ⟨-, hpass, hsilent⟩ := login_answer (c := c) (h.logins c) hbelongs result
        (a.setService a.service.runMain).world
      rw [hreported]
      refine ⟨attended_receive_login hservice hbelongs result, ?_, ?_⟩
      · intro d hd
        simp only [answeredLogin, hqueue] at hd
        split_ifs at hd with hpasses
        obtain rfl : c = d := by simpa using hd
        obtain ⟨success, hworld⟩ := hpass hpasses
        exact ⟨success, by rw [receive_login]; exact hworld⟩
      · intro hnone
        simp only [answeredLogin, hqueue] at hnone
        split_ifs at hnone with hpasses
        rw [receive_login]
        exact hsilent hpasses
    · exact absurd hbelongs (by simp [Belongs])
    · exact absurd hbelongs (by simp [Belongs])
    · rename_i c attempt
      have hreported : a.service.reported =
          (createUserCallback a.service.auth.currentUser values result).events.map
            (fun e => (Observer.registration c attempt, e)) := by
        simp [Service.reported, hqueue]
      obtain ⟨hattended, hworld⟩ := receive_createUser hservice hbelongs
        a.service.auth.currentUser values result
      rw [hreported]
      exact ⟨hattended, by simp [answeredLogin, hqueue], fun _ => hworld⟩

theorem attended_written_service (h : Attended a) (index : ℕ) (ok : Bool) :
    Attended (a.setService (a.service.setDataResponse index ok)) := by
  unfold Service.setDataResponse
  split
  · exact attended_setService h _ h.inFlight h.mainQueue h.writing
  · exact attended_setService h _ h.inFlight h.mainQueue
      fun w hw => h.writing w (List.mem_of_mem_eraseIdx hw)

/-- What the answer of a profile write does. -/
theorem setDataResponse_spec (h : Attended a) (index : ℕ) (ok : Bool) :
    Attended (a.runningStep (.setDataResponse index ok)) ∧
      (∀ c, answeredRegistration a index = some c → (a.runningStep (.setDataResponse index ok)).world =
        (a.setService (a.service.setDataResponse index ok)).world.step (.isRegistered c ok)) ∧
      (answeredRegistration a index = none → (a.runningStep (.setDataResponse index ok)).world =
        (a.setService (a.service.setDataResponse index ok)).world) := by
  have hservice := attended_written_service h index ok
  have hstep : a.runningStep (.setDataResponse index ok) = (a.service.written index ok).foldl App.receive
      (a.setService (a.service.setDataResponse index ok)) := rfl
  rw [hstep]
  cases hget : a.service.writing[index]? with
  | none =>
    have hwritten : a.service.written index ok = [] := by simp [Service.written, hget]
    rw [hwritten]
    exact ⟨hservice, by simp [answeredRegistration, hget], fun _ => rfl⟩
  | some w =>
    obtain ⟨c, attempt, hobserver, hle⟩ := h.writing w (List.mem_of_getElem? hget)
    have hwritten : a.service.written index ok = [(.registration c attempt, .next ok)] := by
      simp [Service.written, hget, hobserver]
    obtain ⟨-, -, hworld⟩ := registration_answer (c := c) (h.registrations c) hle ok
      (a.setService (a.service.setDataResponse index ok)).world
    have hanswered : answeredRegistration a index =
        if .registration c ∈ a.world.stack ∧ attempt = (a.registrations c).current then some c
        else none := by
      simp [answeredRegistration, hget, hobserver]
    rw [hwritten, List.foldl_cons, List.foldl_nil]
    refine ⟨attended_receive_registration hservice hle ok, ?_, ?_⟩
    · intro d hd
      rw [hanswered] at hd
      split_ifs at hd with hcond
      obtain rfl : c = d := by simpa using hd
      rw [if_pos hcond.2] at hworld
      have hstack : ViewController.registration c ∈
          (a.setService (a.service.setDataResponse index ok)).world.stack := hcond.1
      rw [App.receive, if_pos hstack]
      exact hworld
    · intro hnone
      rw [hanswered] at hnone
      split_ifs at hnone with hcond
      rw [App.receive]
      split_ifs with hstack
      · have hne : attempt ≠ (a.registrations c).current := fun heq => hcond ⟨hstack, heq⟩
        rw [if_neg hne] at hworld
        exact hworld
      · rfl

end Mber.HomeEntry
