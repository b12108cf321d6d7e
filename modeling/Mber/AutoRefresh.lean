import Mber.TokenRefresh

/-!
The refresh of tokens that FIRAuth schedules for itself, once some service has
asked it for a token. A task that comes to run asks for a new token unless its
own is out of use; the new token schedules the next task, and so does an error,
after a longer and longer time. Tasks come to run, and the server answers, in
any order; others may have tokens refreshed, and users come and go.
-/
namespace Mber.AutoRefresh

open Runs Firebase Keychain KeychainServices SecureTokens AuthSession TokenRefresh

/-- A scheduled task with what it has captured. `failures` counts the attempts
that have failed in a row before it. -/
structure RefreshTask where
  accessToken : String
  delay : ℤ
  retry : Bool
  failures : ℕ
  deriving DecidableEq

/-- The forced refresh that a task has asked a user object for. -/
structure RefreshCall where
  object : ℕ
  uid : Uid
  delay : ℤ
  retry : Bool
  failures : ℕ

def rawAccessToken (a : FIRAuth) : Option String :=
  a.currentUser.bind (·.tokenService.accessToken)

structure RefreshingAuth where
  auth : FIRAuth
  lastNotifiedUserToken : Option String := none
  autoRefreshTokens : Bool := false
  autoRefreshScheduled : Bool := false
  isAppInBackground : Bool := false
  tasks : List RefreshTask := []
  calls : List RefreshCall := []
  now : ℤ := 0

inductive Input
  | getTokenForcingRefresh
  | signedIn (faults : Faults) (uid : Uid) (tokenService : FIRSecureTokenService)
  | signOut (faults : Faults)
  | didBecomeActive
  | didEnterBackground
  | taskRuns (index : ℕ)
  | answered (index : ℕ) (faults : Faults) (answer : Except TokenError FIRSecureTokenResponse)
  | refreshed (object : ℕ) (faults : Faults) (answer : Except TokenError FIRSecureTokenResponse)
  | setClock (now : ℤ)

namespace RefreshingAuth

def kMaxWaitTimeForBackoff : ℤ := 16 * 60 * 1000

def kTokenRefreshHeadStart : ℤ := 5 * 60 * 1000

def scheduleAutoTokenRefreshWithDelay (s : RefreshingAuth) (delay : ℤ) (retry : Bool)
    (failures : ℕ) : RefreshingAuth :=
  match rawAccessToken s.auth with
  | none => s
  | some accessToken =>
    { s with
      autoRefreshScheduled := true
      tasks := s.tasks ++ [⟨accessToken, delay, retry, failures⟩] }

/-- The interval to a date that is missing is zero. -/
def scheduleAutoTokenRefresh (s : RefreshingAuth) : RefreshingAuth :=
  let date := s.auth.currentUser.bind (·.tokenService.accessTokenExpirationDate)
  let tokenExpirationInterval := (date.map (· - s.now)).getD 0 - kTokenRefreshHeadStart
  s.scheduleAutoTokenRefreshWithDelay (max tokenExpirationInterval 0) false 0

def possiblyPostAuthStateChangeNotification (s : RefreshingAuth) : RefreshingAuth :=
  if s.lastNotifiedUserToken = rawAccessToken s.auth then s
  else
    let notified : RefreshingAuth := { s with lastNotifiedUserToken := rawAccessToken s.auth }
    if s.autoRefreshTokens then notified.scheduleAutoTokenRefresh else notified

/-- Only the first call does more than ask the current user, which is `refreshed`. -/
def getTokenForcingRefresh (s : RefreshingAuth) : RefreshingAuth :=
  if s.autoRefreshTokens then s
  else { s with autoRefreshTokens := true }.scheduleAutoTokenRefresh

/-- The app's state is observed from the first call on. -/
def didBecomeActive (s : RefreshingAuth) : RefreshingAuth :=
  if s.autoRefreshTokens then
    let active : RefreshingAuth := { s with isAppInBackground := false }
    if s.autoRefreshScheduled then active else active.scheduleAutoTokenRefresh
  else s

def didEnterBackground (s : RefreshingAuth) : RefreshingAuth :=
  if s.autoRefreshTokens then { s with isAppInBackground := true } else s

def signedIn (s : RefreshingAuth) (faults : Faults) (uid : Uid)
    (tokenService : FIRSecureTokenService) : RefreshingAuth :=
  match s.auth.signInFlow faults uid tokenService with
  | (auth, .ok ()) => { s with auth }.possiblyPostAuthStateChangeNotification
  | (auth, .error _) => { s with auth }

def signOut (s : RefreshingAuth) (faults : Faults) : RefreshingAuth :=
  if s.auth.currentUser.isNone then s
  else match s.auth.signOut faults with
    | (auth, .ok ()) => { s with auth }.possiblyPostAuthStateChangeNotification
    | (auth, .error _) => { s with auth }

def signOutByForce (s : RefreshingAuth) (faults : Faults) (object : ℕ) : RefreshingAuth :=
  if s.auth.currentUser.map FIRUser.object = some object then
    let ended : RefreshingAuth := { s with auth := (s.auth.signOutByForce faults object).1 }
    ended.possiblyPostAuthStateChangeNotification
  else s

/-- The tokens of the current user are saved; `true` is an error. -/
def updateKeychainWithUser (s : RefreshingAuth) (faults : Faults) (object : ℕ)
    (tokenService : FIRSecureTokenService) : RefreshingAuth × Bool :=
  match s.auth.updateKeychainWithUser faults object tokenService with
  | (auth, .ok ()) => ({ s with auth }.possiblyPostAuthStateChangeNotification, false)
  | (auth, .error _) => ({ s with auth }, true)

/-- The answer to a forced `internalGetTokenForcingRefresh` of a user object, and
whether the call gets an error. What becomes of an object that is not current
any more does not matter. -/
def internalGetToken (s : RefreshingAuth) (object : ℕ) (faults : Faults)
    (answer : Except TokenError FIRSecureTokenResponse) : RefreshingAuth × Bool :=
  match s.auth.currentUser.filter (fun user => user.object = object) with
  | none => (s, !answer.isOk)
  | some user =>
    match user.tokenService.receive answer with
    | (_, .error error, _) =>
      (if isInvalid error then s.signOutByForce faults object else s, true)
    | (_, .ok _, false) => (s, false)
    | (tokenService, .ok _, true) => s.updateKeychainWithUser faults object tokenService

/-- The block given to `dispatchAfterDelay`. -/
def taskRuns (s : RefreshingAuth) (index : ℕ) : RefreshingAuth :=
  match s.tasks[index]? with
  | none => s
  | some task =>
    let left : RefreshingAuth := { s with tasks := s.tasks.eraseIdx index }
    if rawAccessToken s.auth = some task.accessToken then
      if s.isAppInBackground then { left with autoRefreshScheduled := false }
      else
        { left with
          autoRefreshScheduled := false
          calls := s.calls ++ (s.auth.currentUser.map fun user =>
            ⟨user.object, user.uid, task.delay, task.retry, task.failures⟩).toList }
    else left

/-- The callback of a task's call. -/
def answered (s : RefreshingAuth) (index : ℕ) (faults : Faults)
    (answer : Except TokenError FIRSecureTokenResponse) : RefreshingAuth :=
  match s.calls[index]? with
  | none => s
  | some call =>
    let r := { s with calls := s.calls.eraseIdx index }.internalGetToken call.object faults answer
    if r.1.auth.currentUser.map (·.uid) = some call.uid ∧ r.2 = true then
      r.1.scheduleAutoTokenRefreshWithDelay
        (if call.retry then min (call.delay * 2) kMaxWaitTimeForBackoff else 60 * 1000) true
        (call.failures + 1)
    else r.1

def step (s : RefreshingAuth) : Input → RefreshingAuth
  | .getTokenForcingRefresh => s.getTokenForcingRefresh
  | .signedIn faults uid tokenService => s.signedIn faults uid tokenService
  | .signOut faults => s.signOut faults
  | .didBecomeActive => s.didBecomeActive
  | .didEnterBackground => s.didEnterBackground
  | .taskRuns index => s.taskRuns index
  | .answered index faults answer => s.answered index faults answer
  | .refreshed object faults answer => (s.internalGetToken object faults answer).1
  | .setClock now => { s with now }

/-- A process that has loaded its user. -/
def launched (a : FIRAuth) (faults : Faults) : RefreshingAuth :=
  let auth := a.launch faults
  { auth, lastNotifiedUserToken := rawAccessToken auth }

/-- A task for the current token waits, or the current user object has been asked. -/
def Live (s : RefreshingAuth) : Prop :=
  ∀ token, rawAccessToken s.auth = some token →
    (∃ task ∈ s.tasks, task.accessToken = token) ∨
      ∃ call ∈ s.calls, s.auth.currentUser.map FIRUser.object = some call.object

/-- While the app is active, the tokens of its user are kept fresh. -/
def GoesOn (s : RefreshingAuth) : Prop :=
  s.autoRefreshTokens = true → s.isAppInBackground = false → s.Live

def New (s : RefreshingAuth) (token : String) : Prop :=
  some token ≠ rawAccessToken s.auth ∧ some token ≠ s.lastNotifiedUserToken

/-- The server gives out new tokens: to whoever signs in, and to a task. A token
that others have had refreshed may be the old one; if not, it is saved. -/
def Renews (s : RefreshingAuth) : Input → Prop
  | .signedIn _ _ tokenService =>
    ∀ token, tokenService.accessToken = some token → some token ≠ s.lastNotifiedUserToken
  | .answered index _ (.ok response) =>
    ∀ call, s.calls[index]? = some call →
      s.auth.currentUser.map FIRUser.object = some call.object → s.New response.accessToken
  | .refreshed object faults (.ok response) =>
    s.auth.currentUser.map FIRUser.object = some object →
      some response.accessToken = rawAccessToken s.auth ∨
        s.New response.accessToken ∧ Writable faults s.auth.keychainServices.items
          (s.auth.keychainServices.genericPasswordQueryWithKey userKey)
  | _ => True

variable {s : RefreshingAuth}

@[simp] theorem scheduleWithDelay_auth (s : RefreshingAuth) (delay : ℤ) (retry : Bool)
    (failures : ℕ) : (s.scheduleAutoTokenRefreshWithDelay delay retry failures).auth = s.auth := by
  unfold scheduleAutoTokenRefreshWithDelay
  split <;> rfl

@[simp] theorem scheduleWithDelay_calls (s : RefreshingAuth) (delay : ℤ) (retry : Bool)
    (failures : ℕ) :
    (s.scheduleAutoTokenRefreshWithDelay delay retry failures).calls = s.calls := by
  unfold scheduleAutoTokenRefreshWithDelay
  split <;> rfl

@[simp] theorem schedule_auth (s : RefreshingAuth) : s.scheduleAutoTokenRefresh.auth = s.auth :=
  scheduleWithDelay_auth _ _ _ _

@[simp] theorem schedule_calls (s : RefreshingAuth) : s.scheduleAutoTokenRefresh.calls = s.calls :=
  scheduleWithDelay_calls _ _ _ _

@[simp] theorem post_auth (s : RefreshingAuth) :
    s.possiblyPostAuthStateChangeNotification.auth = s.auth := by
  unfold possiblyPostAuthStateChangeNotification
  split_ifs <;> simp

@[simp] theorem post_calls (s : RefreshingAuth) :
    s.possiblyPostAuthStateChangeNotification.calls = s.calls := by
  unfold possiblyPostAuthStateChangeNotification
  split_ifs <;> simp

theorem scheduled_live (s : RefreshingAuth) (delay : ℤ) (retry : Bool) (failures : ℕ) :
    (s.scheduleAutoTokenRefreshWithDelay delay retry failures).Live := by
  intro token htoken
  rw [scheduleWithDelay_auth] at htoken
  refine .inl ⟨⟨token, delay, retry, failures⟩, ?_, rfl⟩
  simp [scheduleAutoTokenRefreshWithDelay, htoken]

theorem live_of_none (h : rawAccessToken s.auth = none) : s.Live := fun token htoken => by
  simp [h] at htoken

/-- Where no user is left to refresh the tokens of, only the notification remains. -/
theorem post_of_none (h : rawAccessToken s.auth = none) :
    s.possiblyPostAuthStateChangeNotification = { s with lastNotifiedUserToken := none } := by
  unfold possiblyPostAuthStateChangeNotification
  split_ifs with hsame henabled
  · rw [← h, ← hsame]
  · simp [scheduleAutoTokenRefresh, scheduleAutoTokenRefreshWithDelay, h]
  · rw [h]

end RefreshingAuth

end Mber.AutoRefresh
