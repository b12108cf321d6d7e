import Mber.Firebase
import Mber.Firestore
import Mber.Sinks

/-!
AuthManager: the three operations over Firebase and the closures they hand to
it. A closure that reports to an observer of type κ is modelled by the events
it sends to that observer. Firestore writes are kept in the order in which
they are issued, together with the account whose creation led to the write. A
write that names no document is not issued: it aborts the app, and the app does
nothing more.
-/
namespace Mber.AuthManager

open Firebase Firestore Sinks

structure Register where
  email : String
  fullName : String
  userType : String
  password : String
  deriving DecidableEq

def ann : Register := ⟨"ann@mail.com", "Ann", "Rider", "password1"⟩

/-- The document that `saveInfoToFirestore` writes. -/
structure ProfileDocument where
  email : String
  fullname : String
  userType : String
  uid : String
  deriving DecidableEq

/-- The completion block of `signIn`: the error branch does not return. -/
def signInCallback : Except AuthError Uid → List (Event AuthError Bool)
  | .error error => [.error error, .next true]
  | .ok _ => [.next true]

/-- `performLogin`'s disposable completes its own observer; no request is cancelled. -/
def performLoginDispose : List (Event AuthError Bool) := [.completed]

/-- `performRegistration` returns an empty disposable. -/
def performRegistrationDispose : List (Event AuthError Bool) := []

/-- The document below `users` and the data. The uid is that of the current user
when the callback runs, empty if there is none. Without such a document there
is no write: the app aborts. -/
def saveInfoToFirestore (currentUser : Option Uid) (values : Register) :
    Option (ResourcePath × ProfileDocument) :=
  let uid := (currentUser.map Uid.value).getD ""
  (document ["users"] uid).map fun path =>
    (path, {
      email := values.email
      fullname := values.fullName
      userType := values.userType
      uid := uid })

/-- What a completion block of `createUser` does. -/
structure CreateUserEffect where
  events : List (Event AuthError Bool) := []
  setData : Option (ResourcePath × ProfileDocument) := none
  aborts : Bool := false

/-- The completion block of `createUser`: either the observer is told, or the
profile is saved. The result of the call itself is not used. -/
def createUserCallback (currentUser : Option Uid) (values : Register) :
    Except AuthError Uid → CreateUserEffect
  | .error _ => { events := [.next false] }
  | .ok _ =>
    match saveInfoToFirestore currentUser values with
    | some write => { setData := some write }
    | none => { aborts := true }

/-- The completion block of `setData`. Its value passes through the nested
subscription, which the singleton's dispose bag never disposes. -/
def setDataCallback (ok : Bool) : List (Event AuthError Bool) :=
  (StopSink.on {} (.next ok : Event AuthError Bool)).2.toList

@[simp] theorem setDataCallback_eq (ok : Bool) : setDataCallback ok = [.next ok] := rfl

/-- A successful `createUser` tells its observer nothing yet. -/
@[simp] theorem createUserCallback_ok_events (currentUser : Option Uid) (values : Register)
    (uid : Uid) : (createUserCallback currentUser values (.ok uid)).events = [] := by
  cases hsave : saveInfoToFirestore currentUser values <;> simp [createUserCallback, hsave]

@[simp] theorem createUserCallback_ok_setData (currentUser : Option Uid) (values : Register)
    (uid : Uid) : (createUserCallback currentUser values (.ok uid)).setData =
      saveInfoToFirestore currentUser values := by
  cases hsave : saveInfoToFirestore currentUser values <;> simp [createUserCallback, hsave]

@[simp] theorem createUserCallback_ok_aborts (currentUser : Option Uid) (values : Register)
    (uid : Uid) : (createUserCallback currentUser values (.ok uid)).aborts =
      (saveInfoToFirestore currentUser values).isNone := by
  cases hsave : saveInfoToFirestore currentUser values <;> simp [createUserCallback, hsave]

@[simp] theorem saveInfoToFirestore_none (values : Register) :
    saveInfoToFirestore none values = none := by
  simp [saveInfoToFirestore, document_empty]

theorem saveInfoToFirestore_email {currentUser : Option Uid} {values : Register}
    {write : ResourcePath × ProfileDocument}
    (h : write ∈ saveInfoToFirestore currentUser values) : write.2.email = values.email := by
  obtain ⟨path, -, rfl⟩ := Option.map_eq_some_iff.mp h
  rfl

variable {κ : Type*}

inductive Callback (κ : Type*)
  | signIn (observer : κ)
  | createUser (observer : κ) (values : Register)

/-- A `setData` call. `created` is the account that the same attempt's
`createUser` call created; the code does not look at it. -/
structure SetData (κ : Type*) where
  observer : κ
  created : Uid
  document : ResourcePath
  docData : ProfileDocument

structure Service (κ : Type*) where
  auth : FirebaseAuth (Callback κ)
  documents : ResourcePath → Option ProfileDocument := fun _ => none
  writing : List (SetData κ) := []
  writes : List (SetData κ) := []
  aborted : Bool := false

inductive Input (κ : Type*)
  | performLogin (observer : κ) (email password : String)
  | performRegistration (observer : κ) (values : Register)
  | doLogout (saved : Bool)
  | respond (index : ℕ) (verdict : Verdict)
  | runMain
  | setDataResponse (index : ℕ) (ok : Bool)

namespace Service

/-- No request is in flight and no callback is queued. -/
def idle (directory : Directory) (currentUser : Option Uid)
    (documents : ResourcePath → Option ProfileDocument) : Service κ where
  auth := { directory, currentUser }
  documents := documents

def performLogin (s : Service κ) (observer : κ) (email password : String) : Service κ :=
  { s with auth := s.auth.request (.signIn observer) (.signIn email password) }

def performRegistration (s : Service κ) (observer : κ) (values : Register) : Service κ :=
  { s with
    auth := s.auth.request (.createUser observer values)
      (.createUser values.email values.password) }

def doLogout (s : Service κ) (saved : Bool) : Service κ × Except AuthError Unit :=
  ({ s with auth := (s.auth.signOut saved).1 }, (s.auth.signOut saved).2)

/-- The write that the callback at the head of the main queue issues. -/
def issued (s : Service κ) : List (SetData κ) :=
  match s.auth.mainQueue with
  | (.createUser observer values, .ok created) :: _ =>
    (createUserCallback s.auth.currentUser values (.ok created)).setData.toList.map
      (fun w => { observer, created, document := w.1, docData := w.2 })
  | _ => []

/-- What the callback at the head of the main queue sends to its observer. -/
def reported (s : Service κ) : List (κ × Event AuthError Bool) :=
  match s.auth.mainQueue with
  | [] => []
  | (.signIn observer, result) :: _ =>
    (signInCallback result).map (fun e => (observer, e))
  | (.createUser observer values, result) :: _ =>
    (createUserCallback s.auth.currentUser values result).events.map (fun e => (observer, e))

theorem mem_issued {s : Service κ} {w : SetData κ} :
    w ∈ s.issued ↔ ∃ observer values created rest,
      s.auth.mainQueue = (.createUser observer values, .ok created) :: rest ∧
        ∃ write ∈ saveInfoToFirestore s.auth.currentUser values,
          w = ⟨observer, created, write.1, write.2⟩ := by
  unfold issued
  split
  · rename_i observer values created rest hqueue
    simp [hqueue, eq_comm]
  · rename_i hother
    simp only [List.not_mem_nil, false_iff]
    rintro ⟨observer, values, created, rest, hqueue, -⟩
    exact hother observer values created rest hqueue

/-- Whether the callback at the head of the main queue brings the app down. -/
def aborts (s : Service κ) : Bool :=
  match s.auth.mainQueue with
  | (.createUser _ values, result) :: _ =>
    (createUserCallback s.auth.currentUser values result).aborts
  | _ => false

/-- The server answers one of the requests in flight. -/
def respond (s : Service κ) (index : ℕ) (verdict : Verdict) : Service κ :=
  { s with auth := s.auth.respond index verdict }

/-- The main queue runs its next callback. -/
def runMain (s : Service κ) : Service κ :=
  { s with
    auth := s.auth.dequeue
    writing := s.writing ++ s.issued
    writes := s.writes ++ s.issued
    aborted := s.aborts }

/-- Firestore answers one of the writes in flight. -/
def setDataResponse (s : Service κ) (index : ℕ) (ok : Bool) : Service κ :=
  match s.writing[index]? with
  | none => s
  | some w =>
    { s with
      documents :=
        if ok then Function.update s.documents w.document (some w.docData) else s.documents
      writing := s.writing.eraseIdx index }

def written (s : Service κ) (index : ℕ) (ok : Bool) : List (κ × Event AuthError Bool) :=
  match s.writing[index]? with
  | none => []
  | some w => (setDataCallback ok).map (fun e => (w.observer, e))

/-- One step of an app that is running. -/
def runningStep (s : Service κ) : Input κ → Service κ
  | .performLogin observer email password => s.performLogin observer email password
  | .performRegistration observer values => s.performRegistration observer values
  | .doLogout saved => (s.doLogout saved).1
  | .respond index verdict => s.respond index verdict
  | .runMain => s.runMain
  | .setDataResponse index ok => s.setDataResponse index ok

/-- What such a step sends to the observers. -/
def runningEmit (s : Service κ) : Input κ → List (κ × Event AuthError Bool)
  | .runMain => s.reported
  | .setDataResponse index ok => s.written index ok
  | _ => []

def step (s : Service κ) (i : Input κ) : Service κ := if s.aborted then s else s.runningStep i

def emit (s : Service κ) (i : Input κ) : List (κ × Event AuthError Bool) :=
  if s.aborted then [] else s.runningEmit i

end Service

end Mber.AuthManager
