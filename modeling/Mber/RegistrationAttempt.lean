import Mber.AuthManager
import Mber.Runs

/-!
One registration attempt against an otherwise idle backend: `createUser` is
answered, its callback runs, and `setData` is answered if it was called. The
attempt updates two stores and the session with no transaction and takes
nothing back. An attempt that fails at `setData` leaves its account behind,
signed in; one whose `createUser` falls short of a sign-in leaves it behind,
signed out. Either account refuses every later attempt with the same email.
-/
namespace Mber.RegistrationAttempt

open Sinks AuthManager Firebase Firestore Runs

variable {κ : Type*}

/-- How the backend answers `createUser`, and `setData` if it is called. -/
structure Answers where
  createUser : Verdict
  setData : Bool
  deriving DecidableEq

def attempt (observer : κ) (values : Register) (a : Answers) : List (Input κ) :=
  [.performRegistration observer values, .respond 0 a.createUser, .runMain,
    .setDataResponse 0 a.setData]

def register (observer : κ) (values : Register) (s : Service κ) (a : Answers) : Service κ :=
  run Service.step s (attempt observer values a)

/-- What the attempt sends to its observer. -/
def reports (observer : κ) (values : Register) (s : Service κ) (a : Answers) :
    List (κ × Event AuthError Bool) :=
  (trace Service.step Service.emit s (attempt observer values a)).flatten

/-- How `createUser` turns out: the accounts after it, and its answer. -/
def created (values : Register) (s : Service κ) (a : Answers) : Directory × Except AuthError Uid :=
  s.auth.directory.serve (.createUser values.email values.password) a.createUser

/-- The attempt fails at `createUser`, before any account is made. -/
def Refused (values : Register) (s : Service κ) (a : Answers) : Prop :=
  ∃ error, created values s a = (s.auth.directory, .error error)

/-- The attempt makes an account. -/
def Made (values : Register) (s : Service κ) (a : Answers) (uid : Uid) : Prop :=
  s.auth.directory.Made values.email values.password uid (created values s a).1

/-- No request is in flight, no callback is queued and no write is under way. -/
structure Settled (s : Service κ) : Prop where
  inFlight : s.auth.inFlight = []
  mainQueue : s.auth.mainQueue = []
  writing : s.writing = []

/-- The app is running besides. -/
structure Idle (s : Service κ) : Prop extends Settled s where
  running : s.aborted = false

theorem idle_idle (directory : Directory) (currentUser : Option Uid)
    (documents : ResourcePath → Option ProfileDocument) :
    Idle (Service.idle directory currentUser documents : Service κ) := ⟨⟨rfl, rfl, rfl⟩, rfl⟩

variable {observer : κ} {values : Register} {s : Service κ} {a : Answers}

/-- The profile of the account that is signed in. -/
def profile (values : Register) (uid : Uid) : ProfileDocument :=
  ⟨values.email, values.fullName, values.userType, uid.value⟩

theorem saveInfoToFirestore_some (uid : Uid) (values : Register) :
    saveInfoToFirestore (some uid) values =
      (document ["users"] uid.value).map fun path => (path, profile values uid) := rfl

/-- The state in which the callback is queued. -/
theorem respond_idle (h : Idle s) :
    run Service.step s [.performRegistration observer values, .respond 0 a.createUser] =
      { s with auth := {
        directory := (created values s a).1
        currentUser := FirebaseAuth.signedInUser s.auth.currentUser (created values s a).2
        inFlight := []
        mainQueue := [(.createUser observer values, (created values s a).2)] } } := by
  simp [run, Service.step, Service.runningStep, Service.performRegistration, Service.respond,
    FirebaseAuth.request, FirebaseAuth.respond, h.running, h.inFlight, h.mainQueue, created]

theorem register_eq (observer : κ) (values : Register) (s : Service κ) (a : Answers) :
    register observer values s a = run Service.step (run Service.step s
      [.performRegistration observer values, .respond 0 a.createUser])
        [.runMain, .setDataResponse 0 a.setData] := rfl

theorem reports_eq (observer : κ) (values : Register) (s : Service κ) (a : Answers) :
    reports observer values s a = (trace Service.step Service.emit (run Service.step s
      [.performRegistration observer values, .respond 0 a.createUser])
        [.runMain, .setDataResponse 0 a.setData]).flatten := by
  simp only [reports, attempt, run, trace, Service.emit, Service.runningEmit, ite_self,
    List.flatten_cons, List.nil_append]
  rfl

/-- An app that has aborted registers nobody. -/
theorem register_aborted (haborted : s.aborted = true) :
    register observer values s a = s ∧ reports observer values s a = [] := by
  simp [register, reports, attempt, run, trace, Service.step, Service.emit, haborted]

/-- An attempt that fails at `createUser` reports `false`; the accounts are
those that `createUser` leaves, and nothing else changes. -/
theorem register_failed (observer : κ) (h : Idle s) {error : AuthError}
    (herror : (created values s a).2 = .error error) :
    register observer values s a =
        { s with auth := { s.auth with directory := (created values s a).1 } } ∧
      reports observer values s a = [(observer, .next false)] := by
  rw [register_eq, reports_eq, respond_idle h, herror]
  obtain ⟨⟨hflight, hqueue, hwriting⟩, hrunning⟩ := h
  obtain ⟨⟨directory, currentUser, inFlight, mainQueue⟩, documents, writing, writes, aborted⟩ := s
  subst hflight hqueue hwriting hrunning
  simp [run, trace, Service.step, Service.emit, Service.runningStep, Service.runningEmit,
    Service.runMain, Service.issued, Service.aborts, Service.reported, Service.setDataResponse,
    Service.written, createUserCallback, FirebaseAuth.dequeue, FirebaseAuth.signedInUser]

/-- An attempt whose account names a document reports what `setData` answers;
the account and the session change either way. -/
theorem register_saved (observer : κ) (h : Idle s) {uid : Uid} {path : ResourcePath}
    (hok : (created values s a).2 = .ok uid) (hpath : document ["users"] uid.value = some path) :
    register observer values s a = {
        auth := { directory := (created values s a).1, currentUser := some uid }
        documents := if a.setData then
          Function.update s.documents path (some (profile values uid)) else s.documents
        writing := []
        writes := s.writes ++ [⟨observer, uid, path, profile values uid⟩] } ∧
      reports observer values s a = [(observer, .next a.setData)] := by
  have hsave := saveInfoToFirestore_some uid values
  rw [hpath, Option.map_some] at hsave
  rw [register_eq, reports_eq, respond_idle h, hok]
  simp [run, trace, Service.step, Service.emit, Service.runningStep, Service.runningEmit,
    Service.runMain, Service.issued, Service.aborts, Service.reported, Service.setDataResponse,
    Service.written, FirebaseAuth.dequeue, FirebaseAuth.signedInUser, h.writing, h.running, hsave]

/-- An attempt whose account names no document aborts the app and reports nothing. -/
theorem register_unsaved (observer : κ) (h : Idle s) {uid : Uid}
    (hok : (created values s a).2 = .ok uid) (hpath : document ["users"] uid.value = none) :
    register observer values s a = {
        auth := { directory := (created values s a).1, currentUser := some uid }
        documents := s.documents
        writing := []
        writes := s.writes
        aborted := true } ∧
      reports observer values s a = [] := by
  have hsave := saveInfoToFirestore_some uid values
  rw [hpath, Option.map_none] at hsave
  rw [register_eq, reports_eq, respond_idle h, hok]
  simp [run, trace, Service.step, Service.emit, Service.runningStep, Service.runningEmit,
    Service.runMain, Service.issued, Service.aborts, Service.reported,
    FirebaseAuth.dequeue, FirebaseAuth.signedInUser, h.writing, h.running, hsave]

/-- The accounts, the profile documents and the session. -/
structure Backend where
  accounts : List Account
  documents : ResourcePath → Option ProfileDocument
  session : Option Uid

def backend (s : Service κ) : Backend :=
  ⟨s.auth.directory.accounts, s.documents, s.auth.currentUser⟩

/-- Somebody else's session and all the documents, with one account more. -/
def Backend.withAccount (b : Backend) (values : Register) (uid : Uid) : Backend :=
  { b with accounts := b.accounts ++ [⟨values.email, values.password, uid⟩] }

/-- What a failed attempt may leave: nothing if it was refused, the new account
if `createUser` failed all the same, and otherwise the new account, signed in. -/
def Leftover (observer : κ) (values : Register) (s : Service κ) (a : Answers) : Prop :=
  (Refused values s a ∧ backend (register observer values s a) = backend s) ∨
    ∃ uid, s.auth.directory.Fresh uid ∧
      ((∃ error, (created values s a).2 = .error error) ∧
          backend (register observer values s a) = (backend s).withAccount values uid ∨
        (created values s a).2 = .ok uid ∧ a.setData = false ∧
          backend (register observer values s a) =
            { (backend s).withAccount values uid with session := some uid })

/-- The three ways in which `createUser` can go. -/
theorem created_cases (values : Register) (s : Service κ) (a : Answers) :
    Refused values s a ∨
      (∃ uid, Made values s a uid ∧ ∃ error, (created values s a).2 = .error error) ∨
      ∃ uid, Made values s a uid ∧ (created values s a).2 = .ok uid := by
  rcases s.auth.directory.serve_createUser_cases values.email values.password a.createUser with
    hrefused | ⟨uid, hmade, hok | herror⟩
  · exact Or.inl hrefused
  · exact Or.inr (Or.inr ⟨uid, hmade, hok⟩)
  · exact Or.inr (Or.inl ⟨uid, hmade, herror⟩)

theorem register_refused (h : Idle s) (hrefused : Refused values s a) :
    register observer values s a = s ∧
      reports observer values s a = [(observer, .next false)] := by
  obtain ⟨error, hcreated⟩ := hrefused
  have herror : (created values s a).2 = .error error := by rw [hcreated]
  obtain ⟨hstate, hreports⟩ := register_failed observer h herror
  exact ⟨by rw [hstate, hcreated], hreports⟩

theorem leftover_of_failed (h : Idle s)
    (hfalse : reports observer values s a = [(observer, .next false)]) :
    Leftover observer values s a := by
  rcases created_cases values s a with hrefused | ⟨uid, hmade, herror⟩ | ⟨uid, hmade, hok⟩
  · exact Or.inl ⟨hrefused, by rw [(register_refused h hrefused).1]⟩
  · obtain ⟨error, he⟩ := herror
    refine Or.inr ⟨uid, hmade.fresh, Or.inl ⟨⟨error, he⟩, ?_⟩⟩
    rw [(register_failed observer h he).1]
    simp [backend, Backend.withAccount, hmade.accounts]
  · cases hpath : document ["users"] uid.value with
    | none =>
      rw [(register_unsaved observer h hok hpath).2] at hfalse
      simp at hfalse
    | some path =>
      obtain ⟨hstate, hreports⟩ := register_saved observer h hok hpath
      have hsave : a.setData = false := by
        rw [hreports] at hfalse
        simpa using hfalse
      refine Or.inr ⟨uid, hmade.fresh, Or.inr ⟨hok, hsave, ?_⟩⟩
      simp [hstate, backend, Backend.withAccount, hmade.accounts, hsave]

/-- Whatever an attempt does, it leaves nothing on the way. -/
theorem register_settled (observer : κ) (values : Register) (a : Answers) (h : Idle s) :
    Settled (register observer values s a) := by
  have hsettled := h.toSettled
  rcases created_cases values s a with hrefused | ⟨uid, -, error, he⟩ | ⟨uid, -, hok⟩
  · rwa [(register_refused h hrefused).1]
  · rw [(register_failed observer h he).1]
    exact ⟨hsettled.inFlight, hsettled.mainQueue, hsettled.writing⟩
  · cases hpath : document ["users"] uid.value with
    | none =>
      rw [(register_unsaved observer h hok hpath).1]
      exact ⟨rfl, rfl, rfl⟩
    | some path =>
      rw [(register_saved observer h hok hpath).1]
      exact ⟨rfl, rfl, rfl⟩

/-- The accounts after an attempt are those that `createUser` leaves. -/
theorem register_directory (observer : κ) (values : Register) (a : Answers) (h : Idle s) :
    (register observer values s a).auth.directory = (created values s a).1 := by
  rcases created_cases values s a with hrefused | ⟨uid, -, error, he⟩ | ⟨uid, -, hok⟩
  · obtain ⟨error, hcreated⟩ := hrefused
    rw [(register_refused h ⟨error, hcreated⟩).1, hcreated]
  · rw [(register_failed observer h he).1]
  · cases hpath : document ["users"] uid.value with
    | none => rw [(register_unsaved observer h hok hpath).1]
    | some path => rw [(register_saved observer h hok hpath).1]

/-- Between attempts the app has aborted, or nothing is on the way. -/
def Between (s : Service κ) : Prop := s.aborted = true ∨ Idle s

theorem register_between (observer : κ) (values : Register) (a : Answers) (h : Between s) :
    Between (register observer values s a) := by
  rcases h with haborted | hidle
  · rw [(register_aborted haborted).1]
    exact Or.inl haborted
  · cases hnow : (register observer values s a).aborted with
    | true => exact Or.inl hnow
    | false => exact Or.inr ⟨register_settled observer values a hidle, hnow⟩

theorem not_refused_of_made {uid : Uid} (hmade : Made values s a uid) : ¬ Refused values s a := by
  rintro ⟨error, hcreated⟩
  have hsame := hmade.accounts
  rw [hcreated] at hsame
  simp at hsame

theorem taken_of_made (observer : κ) (h : Idle s) {uid : Uid} (hmade : Made values s a uid) :
    (register observer values s a).auth.directory.lookup values.email ≠ none := by
  rw [register_directory observer values a h, ne_eq, Directory.lookup_eq_none_iff, hmade.accounts]
  simp

/-- The email has an account; it keeps it whatever later attempts do. -/
theorem taken_run (tries : List Answers) (h : Between s)
    (htaken : s.auth.directory.lookup values.email ≠ none) :
    run (register observer values) s tries = s := by
  induction tries with
  | nil => rfl
  | cons a rest ih =>
    have hsame : register observer values s a = s := by
      rcases h with haborted | hidle
      · exact (register_aborted haborted).1
      · rcases created_cases values s a with hrefused | ⟨uid, hmade, -⟩ | ⟨uid, hmade, -⟩
        · exact (register_refused hidle hrefused).1
        · exact absurd hmade.free htaken
        · exact absurd hmade.free htaken
    rw [run, hsame]
    exact ih

/-- On a backend that accepts both steps an attempt succeeds exactly when it
has an email and a password and its email has no account. -/
theorem accepted_iff (h : Between s) {uid : Uid} (hfresh : s.auth.directory.Fresh uid)
    (hpath : (document ["users"] uid.value).isSome) :
    reports observer values s ⟨.accept uid, true⟩ = [(observer, .next true)] ↔
      s.aborted = false ∧
        values.email ≠ "" ∧ values.password ≠ "" ∧ s.auth.directory.lookup values.email = none := by
  rcases h with haborted | hidle
  · simp [(register_aborted haborted).2, haborted]
  · rw [← Directory.serve_accept_ok_iff hfresh values.email values.password]
    obtain ⟨path, hdocument⟩ := Option.isSome_iff_exists.mp hpath
    constructor
    · intro htrue
      refine ⟨hidle.running, ?_⟩
      rcases created_cases values s ⟨.accept uid, true⟩ with
        hrefused | ⟨u, -, error, he⟩ | ⟨u, hmade, hok⟩
      · simp [(register_refused hidle hrefused).2] at htrue
      · simp [(register_failed observer hidle he).2] at htrue
      · exact (Directory.serve_accept_ok_iff hfresh _ _).mpr
          ⟨hmade.email_ne, hmade.password_ne, hmade.free⟩
    · rintro ⟨-, hok⟩
      have hcreated : (created values s ⟨.accept uid, true⟩).2 = .ok uid := hok
      exact (register_saved observer hidle hcreated hdocument).2

/-- The app still runs and the email is still free exactly if no attempt has
made an account. -/
theorem free_iff_refused (tries : List Answers) (h : Idle s)
    (hfree : s.auth.directory.lookup values.email = none) :
    ((run (register observer values) s tries).aborted = false ∧
      (run (register observer values) s tries).auth.directory.lookup values.email = none) ↔
      EveryStep (register observer values) (Refused values) s tries := by
  induction tries with
  | nil => simp [run, EveryStep, hfree, h.running]
  | cons a rest ih =>
    have hmade : ∀ uid, Made values s a uid →
        ((run (register observer values) s (a :: rest)).aborted = false ∧
          (run (register observer values) s (a :: rest)).auth.directory.lookup values.email =
            none ↔ EveryStep (register observer values) (Refused values) s (a :: rest)) := by
      intro uid hmade
      have htaken := taken_of_made observer h hmade
      rw [run, taken_run rest (register_between observer values a (Or.inr h)) htaken]
      simp only [EveryStep, not_refused_of_made hmade, htaken, and_false, false_and]
    rcases created_cases values s a with hrefused | ⟨uid, hm, -⟩ | ⟨uid, hm, -⟩
    · simp only [run, EveryStep, hrefused, true_and, (register_refused h hrefused).1]
      exact ih
    · exact hmade uid hm
    · exact hmade uid hm

/-- An attempt that reports `false` leaves the backend as it was, or the new
account with the session as it was, or the new account signed in. After any
attempts, one more succeeds on an accepting backend exactly when it has an email
and a password, the email was free and every attempt before it was refused
before an account was made. -/
theorem failed_registration (observer : κ) (values : Register) (s : Service κ) (h : Idle s) :
    (∀ a, reports observer values s a = [(observer, .next false)] →
      Leftover observer values s a) ∧
    (∀ tries uid, (run (register observer values) s tries).auth.directory.Fresh uid →
      (document ["users"] uid.value).isSome →
      (reports observer values (run (register observer values) s tries) ⟨.accept uid, true⟩ =
          [(observer, .next true)] ↔
        values.email ≠ "" ∧ values.password ≠ "" ∧
          s.auth.directory.lookup values.email = none ∧
          EveryStep (register observer values) (Refused values) s tries)) := by
  refine ⟨fun a hfalse => leftover_of_failed h hfalse, ?_⟩
  intro tries uid hfresh hpath
  have hbetween := run_invariant Between (fun t a ht => register_between observer values a ht)
    s tries (Or.inr h)
  rw [accepted_iff hbetween hfresh hpath]
  by_cases hfree : s.auth.directory.lookup values.email = none
  · rw [← free_iff_refused tries h hfree]
    tauto
  · rw [taken_run tries (Or.inr h) hfree]
    simp [hfree]

def first : Uid := ⟨"first", by decide⟩

def second : Uid := ⟨"second", by decide⟩

def emptyBackend : Service Unit := Service.idle Directory.empty none (fun _ => none)

/-- A failed save, and a retry after a refused attempt. -/
theorem failed_registration_empty :
    Leftover () ann emptyBackend ⟨.accept first, false⟩ ∧
      reports () ann (run (register () ann) emptyBackend [⟨.refuse .networkError, false⟩])
        ⟨.accept first, true⟩ = [((), .next true)] := by
  obtain ⟨hleft, hretry⟩ := failed_registration () ann emptyBackend (idle_idle _ _ _)
  refine ⟨hleft _ rfl, (hretry _ first (by decide) (by decide)).mpr
    ⟨by decide, by decide, rfl, ?_⟩⟩
  exact ⟨⟨.networkError, rfl⟩, trivial⟩

/-- `setData` fails: `false` is reported, the account stays, and the retry fails
although the backend accepts both of its steps. -/
theorem registration_left_behind :
    reports () ann emptyBackend ⟨.accept first, false⟩ = [((), .next false)] ∧
      backend (register () ann emptyBackend ⟨.accept first, false⟩) ≠ backend emptyBackend ∧
      reports () ann (register () ann emptyBackend ⟨.accept first, false⟩)
        ⟨.accept second, true⟩ = [((), .next false)] := by
  refine ⟨rfl, ?_, rfl⟩
  intro h
  have hsession : some first = none := congrArg Backend.session h
  simp at hsession

end Mber.RegistrationAttempt
