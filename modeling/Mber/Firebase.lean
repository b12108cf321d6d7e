import Mathlib.Data.List.Nodup
import Mathlib.Data.List.Basic

/-!
Firebase Auth as the app sees it. A request is in flight until the server
answers it. The answer is processed on the auth work queue: a success first
replaces the current user, and the callback is then queued on the main queue,
where it runs later. Requests may be answered in any order; the main queue is
first in, first out. The server is free to refuse any request, and after it has
gone ahead the client can still fail to load the account or to save the user.
-/
namespace Mber.Firebase

/-- The identifier of an account; it is never the empty string. -/
structure Uid where
  value : String
  nonempty : value ≠ ""
  deriving DecidableEq

inductive AuthError
  | emailAlreadyInUse
  | missingEmail
  | weakPassword
  | wrongPassword
  | userNotFound
  | networkError
  | keychainError
  | internalError
  deriving DecidableEq

structure Account where
  email : String
  password : String
  uid : Uid
  deriving DecidableEq

/-- The accounts on the server; no two of them share an email. -/
structure Directory where
  accounts : List Account
  emails_nodup : (accounts.map Account.email).Nodup

namespace Directory

def empty : Directory := ⟨[], List.nodup_nil⟩

def lookup (d : Directory) (email : String) : Option Account :=
  d.accounts.find? (fun a => decide (a.email = email))

theorem lookup_eq_none_iff (d : Directory) (email : String) :
    d.lookup email = none ↔ email ∉ d.accounts.map Account.email := by
  simp [lookup]

/-- A uid that no account has yet. -/
def Fresh (d : Directory) (uid : Uid) : Prop := uid ∉ d.accounts.map Account.uid

instance (d : Directory) (uid : Uid) : Decidable (d.Fresh uid) := by
  unfold Fresh
  infer_instance

/-- A new account under a free email. -/
def insert (d : Directory) (a : Account) (h : d.lookup a.email = none) : Directory where
  accounts := d.accounts ++ [a]
  emails_nodup := by
    rw [List.map_append, List.nodup_append]
    refine ⟨d.emails_nodup, by simp, ?_⟩
    intro x hx y hy hxy
    simp only [List.map_cons, List.map_nil, List.mem_singleton] at hy
    exact (lookup_eq_none_iff d a.email).mp h (hy ▸ hxy ▸ hx)

end Directory

inductive AuthRequest
  | signIn (email password : String)
  | createUser (email password : String)
  deriving DecidableEq

/-- How a request turns out: the server fails it or goes ahead, with the uid it
would give to a new account; and then the client completes the sign-in or fails
to, when it cannot load the account or save the user in the keychain. -/
inductive Verdict
  | refuse (error : AuthError)
  | accept (newUid : Uid)
  | fallShort (newUid : Uid) (error : AuthError)
  deriving DecidableEq

/-- What is refused before anything is sent to the server. -/
def AuthRequest.refusal : AuthRequest → Option AuthError
  | .signIn _ password => if password = "" then some .wrongPassword else none
  | .createUser email password =>
    if password = "" then some .weakPassword
    else if email = "" then some .missingEmail
    else none

namespace Directory

def signIn (d : Directory) (email password : String) : Except AuthError Uid :=
  match d.lookup email with
  | none => .error .userNotFound
  | some a => if a.password = password then .ok a.uid else .error .wrongPassword

def createUser (d : Directory) (email password : String) (uid : Uid) :
    Directory × Except AuthError Uid :=
  if h : d.lookup email = none then
    if d.Fresh uid then (d.insert ⟨email, password, uid⟩ h, .ok uid)
    else (d, .error .internalError)
  else (d, .error .emailAlreadyInUse)

/-- The server's side of a request: the accounts after it, and its answer. -/
def perform (d : Directory) : AuthRequest → Uid → Directory × Except AuthError Uid
  | .signIn email password, _ => (d, d.signIn email password)
  | .createUser email password, newUid => d.createUser email password newUid

/-- A request from its start to the answer. An account that the server has made
stays although the answer is an error. -/
def serve (d : Directory) (r : AuthRequest) (v : Verdict) : Directory × Except AuthError Uid :=
  match r.refusal, v with
  | some error, _ => (d, .error error)
  | none, .refuse error => (d, .error error)
  | none, .accept newUid => d.perform r newUid
  | none, .fallShort newUid error =>
    ((d.perform r newUid).1, (d.perform r newUid).2.bind fun _ => .error error)

/-- A sign-in leaves the accounts alone, and a success is that of the account. -/
theorem serve_signIn (d : Directory) (email password : String) (v : Verdict) :
    (d.serve (.signIn email password) v).1 = d ∧
      ∀ uid, (d.serve (.signIn email password) v).2 = .ok uid →
        d.signIn email password = .ok uid := by
  unfold serve
  cases (AuthRequest.signIn email password).refusal with
  | some error => simp
  | none =>
    cases v with
    | refuse error => simp
    | accept newUid => exact ⟨rfl, fun uid huid => huid⟩
    | fallShort newUid error =>
      refine ⟨rfl, ?_⟩
      intro uid huid
      simp only [perform] at huid
      cases hsignIn : d.signIn email password <;> rw [hsignIn] at huid <;> simp [Except.bind] at huid

/-- An account has been made, under an email and a uid that were free. -/
structure Made (d : Directory) (email password : String) (uid : Uid) (d' : Directory) : Prop where
  email_ne : email ≠ ""
  password_ne : password ≠ ""
  free : d.lookup email = none
  fresh : d.Fresh uid
  accounts : d'.accounts = d.accounts ++ [⟨email, password, uid⟩]

theorem createUser_cases (d : Directory) (email password : String) (uid : Uid) :
    (∃ error, d.createUser email password uid = (d, .error error)) ∨
      d.lookup email = none ∧ d.Fresh uid ∧
        (d.createUser email password uid).1.accounts = d.accounts ++ [⟨email, password, uid⟩] ∧
        (d.createUser email password uid).2 = .ok uid := by
  unfold createUser
  split_ifs with hfree hfresh
  · exact Or.inr ⟨hfree, hfresh, rfl, rfl⟩
  · exact Or.inl ⟨_, rfl⟩
  · exact Or.inl ⟨_, rfl⟩

/-- `createUser` fails and makes no account, or it makes one, with or without success. -/
theorem serve_createUser_cases (d : Directory) (email password : String) (v : Verdict) :
    (∃ error, d.serve (.createUser email password) v = (d, .error error)) ∨
      ∃ uid, d.Made email password uid (d.serve (.createUser email password) v).1 ∧
        ((d.serve (.createUser email password) v).2 = .ok uid ∨
          ∃ error, (d.serve (.createUser email password) v).2 = .error error) := by
  have hrefusal : (AuthRequest.createUser email password).refusal = none →
      email ≠ "" ∧ password ≠ "" := by
    intro hnone
    simp only [AuthRequest.refusal] at hnone
    split_ifs at hnone with hpassword hemail
    exact ⟨hemail, hpassword⟩
  unfold serve
  cases hcheck : (AuthRequest.createUser email password).refusal with
  | some error => exact Or.inl ⟨error, rfl⟩
  | none =>
    obtain ⟨hemail, hpassword⟩ := hrefusal hcheck
    cases v with
    | refuse error => exact Or.inl ⟨error, rfl⟩
    | accept uid =>
      rcases d.createUser_cases email password uid with hfailed | ⟨hfree, hfresh, hmade, hok⟩
      · exact Or.inl hfailed
      · exact Or.inr ⟨uid, ⟨hemail, hpassword, hfree, hfresh, hmade⟩, Or.inl hok⟩
    | fallShort uid error =>
      simp only [perform]
      rcases d.createUser_cases email password uid with ⟨e, hfailed⟩ | ⟨hfree, hfresh, hmade, hok⟩
      · exact Or.inl ⟨e, by rw [hfailed]; rfl⟩
      · exact Or.inr ⟨uid, ⟨hemail, hpassword, hfree, hfresh, hmade⟩,
          Or.inr ⟨error, by rw [hok]; rfl⟩⟩

/-- A server that goes ahead makes the account exactly if neither text is empty
and the email is free. -/
theorem serve_accept_ok_iff {d : Directory} {uid : Uid} (hfresh : d.Fresh uid)
    (email password : String) :
    (d.serve (.createUser email password) (.accept uid)).2 = .ok uid ↔
      email ≠ "" ∧ password ≠ "" ∧ d.lookup email = none := by
  constructor
  · intro hok
    rcases d.serve_createUser_cases email password (.accept uid) with ⟨error, hfailed⟩ | ⟨u, hmade, -⟩
    · rw [hfailed] at hok
      simp at hok
    · exact ⟨hmade.email_ne, hmade.password_ne, hmade.free⟩
  · rintro ⟨hemail, hpassword, hfree⟩
    simp [serve, AuthRequest.refusal, perform, createUser, hemail, hpassword, hfree, hfresh]

end Directory

/-- `Closure` is what the completion block of a request has captured. -/
structure FirebaseAuth (Closure : Type*) where
  directory : Directory
  currentUser : Option Uid := none
  inFlight : List (Closure × AuthRequest) := []
  mainQueue : List (Closure × Except AuthError Uid) := []

namespace FirebaseAuth

variable {Closure : Type*}

def request (a : FirebaseAuth Closure) (c : Closure) (r : AuthRequest) :
    FirebaseAuth Closure :=
  { a with inFlight := a.inFlight ++ [(c, r)] }

/-- `updateCurrentUser`, reached only after a success. -/
def signedInUser (previous : Option Uid) : Except AuthError Uid → Option Uid
  | .ok uid => some uid
  | .error _ => previous

/-- The server answers one of the requests in flight. The current user is
updated before the callback is queued. -/
def respond (a : FirebaseAuth Closure) (index : ℕ) (v : Verdict) : FirebaseAuth Closure :=
  match a.inFlight[index]? with
  | none => a
  | some (c, r) =>
    { directory := (a.directory.serve r v).1
      currentUser := signedInUser a.currentUser (a.directory.serve r v).2
      inFlight := a.inFlight.eraseIdx index
      mainQueue := a.mainQueue ++ [(c, (a.directory.serve r v).2)] }

/-- `signOut` does nothing when nobody is signed in; otherwise it throws when
the keychain cannot be updated. -/
def signOut (a : FirebaseAuth Closure) (saved : Bool) :
    FirebaseAuth Closure × Except AuthError Unit :=
  if a.currentUser = none then (a, .ok ())
  else if saved then ({ a with currentUser := none }, .ok ())
  else (a, .error .keychainError)

/-- The next callback leaves the main queue. -/
def dequeue (a : FirebaseAuth Closure) : FirebaseAuth Closure :=
  { a with mainQueue := a.mainQueue.tail }

/-- After a successful sign-out nobody is signed in; a failed one changes nothing. -/
theorem signOut_cases (a : FirebaseAuth Closure) (saved : Bool) :
    (a.signOut saved).1 = { a with currentUser := none } ∧ (a.signOut saved).2 = .ok () ∨
      (a.signOut saved).1 = a ∧ (a.signOut saved).2 = .error .keychainError := by
  unfold signOut
  by_cases hnone : a.currentUser = none
  · left
    obtain ⟨d, u, f, q⟩ := a
    simp_all
  · cases saved <;> simp [hnone]

end FirebaseAuth

end Mber.Firebase
