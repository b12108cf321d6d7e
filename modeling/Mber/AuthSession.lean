import Mber.KeychainServices
import Mber.SecureTokens
import Mber.Coordinators

/-!
The session of FIRAuth across launches: sign-in, sign-out, the update and the
loss of a token, each with what may go wrong in the keychain. The keychain
decides who is signed in after the next launch; `_currentUser` is only in
memory. A session that ends in memory alone comes back.
-/
namespace Mber.AuthSession

open Runs Firebase Keychain KeychainServices SecureTokens

/-- What the archive of a user holds. -/
structure ArchivedUser where
  uid : Uid
  tokenService : FIRSecureTokenService
  tenantID : Option String
  deriving DecidableEq

/-- Users are compared as objects. -/
structure FIRUser extends ArchivedUser where
  object : ℕ
  deriving DecidableEq

inductive FIRAuthError
  | tenantIDMismatch
  | keychain (error : KeychainError)
  deriving DecidableEq

/-- `objects` counts the users created so far. -/
structure FIRAuth where
  keychainServices : FIRAuthKeychainServices ArchivedUser
  currentUser : Option FIRUser := none
  tenantID : Option String := none
  objects : ℕ := 0

/-- `kUserKey` for the default app. -/
def userKey : PlainKey := ⟨⟨"__FIRAPP_DEFAULT_firebase_user", by decide⟩, by decide⟩

/-- A message to nil answers NO. -/
def isEqualToString : Option String → Option String → Bool
  | some receiver, some argument => receiver == argument
  | _, _ => false

namespace FIRAuth

def tenantIDMismatch (a : FIRAuth) (user : FIRUser) : Bool :=
  (user.tenantID.isSome || a.tenantID.isSome) && !isEqualToString a.tenantID user.tenantID

def saveUser (a : FIRAuth) (faults : Faults) (user : Option FIRUser) :
    FIRAuth × Except FIRAuthError Unit :=
  let r := match user with
    | none => a.keychainServices.removeDataForKey faults userKey
    | some u => a.keychainServices.setData faults u.toArchivedUser userKey
  ({ a with keychainServices := r.1 }, r.2.mapError .keychain)

def updateCurrentUser (a : FIRAuth) (faults : Faults) (user : Option FIRUser)
    (force saveToDisk : Bool) : FIRAuth × Except FIRAuthError Unit :=
  if user.map FIRUser.object = a.currentUser.map FIRUser.object then (a, .ok ())
  else if user.any a.tenantIDMismatch then (a, .error .tenantIDMismatch)
  else
    let r := if saveToDisk then a.saveUser faults user else (a, .ok ())
    match r.2 with
    | .ok () => ({ r.1 with currentUser := user }, .ok ())
    | .error e => (if force then { r.1 with currentUser := user } else r.1, .error e)

/-- A user that is found is decoded to a new object. -/
def getUser (a : FIRAuth) (faults : Faults) : FIRAuth × Except KeychainError (Option FIRUser) :=
  match a.keychainServices.dataForKey faults userKey with
  | (services, .error e) => ({ a with keychainServices := services }, .error e)
  | (services, .ok none) => ({ a with keychainServices := services }, .ok none)
  | (services, .ok (some archived)) =>
    ({ a with keychainServices := services, objects := a.objects + 1 },
      .ok (some ⟨archived, a.objects⟩))

/-- In a new process only the keychain is as it was. -/
def newProcess (a : FIRAuth) : FIRAuth :=
  { keychainServices := a.keychainServices.launch, objects := a.objects }

/-- The user is loaded from the keychain; an error is only logged. -/
def launch (a : FIRAuth) (faults : Faults) : FIRAuth :=
  match a.newProcess.getUser faults with
  | (a', .error _) => a'
  | (a', .ok user) =>
    ({ a' with tenantID := user.bind (·.tenantID) }.updateCurrentUser {} user false false).1

/-- A sign-in or a registration has succeeded; the user has the tenant of the app. -/
def signInFlow (a : FIRAuth) (faults : Faults) (uid : Uid) (tokenService : FIRSecureTokenService) :
    FIRAuth × Except FIRAuthError Unit :=
  let user : FIRUser := ⟨⟨uid, tokenService, a.tenantID⟩, a.objects⟩
  { a with objects := a.objects + 1 }.updateCurrentUser faults (some user) false true

def signOut (a : FIRAuth) (faults : Faults) : FIRAuth × Except FIRAuthError Unit :=
  if a.currentUser.isNone then (a, .ok ())
  else a.updateCurrentUser faults none false true

/-- Asked for by the user object whose token is invalid. -/
def signOutByForce (a : FIRAuth) (faults : Faults) (object : ℕ) :
    FIRAuth × Except FIRAuthError Unit :=
  if a.currentUser.map FIRUser.object = some object then
    a.updateCurrentUser faults none true true
  else (a, .ok ())

/-- The user object has new tokens; only the current user is saved. -/
def updateKeychainWithUser (a : FIRAuth) (faults : Faults) (object : ℕ)
    (tokenService : FIRSecureTokenService) : FIRAuth × Except FIRAuthError Unit :=
  match a.currentUser with
  | none => (a, .ok ())
  | some current =>
    if current.object = object then
      let user := { current with tokenService := tokenService }
      { a with currentUser := some user }.saveUser faults (some user)
    else (a, .ok ())

variable {a : FIRAuth} {faults : Faults}

/-- The user that a launch finds, as far as the keychain works. -/
def stored (a : FIRAuth) : Option ArchivedUser := a.keychainServices.stored userKey

/-- The objects in use have been created. -/
def Created (a : FIRAuth) : Prop :=
  ∀ u, a.currentUser = some u → u.object < a.objects

theorem not_tenantIDMismatch (user : FIRUser) (h : a.tenantID = user.tenantID) :
    a.tenantIDMismatch user = false := by
  cases htenant : user.tenantID <;> simp [tenantIDMismatch, isEqualToString, h, htenant]

theorem saveUser_some (a : FIRAuth) (faults : Faults) (user : FIRUser) :
    (∃ e, a.saveUser faults (some user) = (a, .error e)) ∨
      ∃ services,
        a.saveUser faults (some user) = ({ a with keychainServices := services }, .ok ()) ∧
        services.stored userKey = some user.toArchivedUser := by
  obtain ⟨-, e, hset⟩ | ⟨services, hset, hpick, -⟩ :=
    a.keychainServices.setData_spec faults user.toArchivedUser userKey
  · exact .inl ⟨.keychain e, by simp [saveUser, hset, Except.mapError]⟩
  · refine .inr ⟨services, by simp [saveUser, hset, Except.mapError], ?_⟩
    exact FIRAuthKeychainServices.stored_of_current hpick

theorem saveUser_none (a : FIRAuth) (faults : Faults) :
    (faults.delete ≠ none ∧ ∃ e, a.saveUser faults none = (a, .error e)) ∨
      ∃ services, faults.delete = none ∧
        a.saveUser faults none = ({ a with keychainServices := services }, .ok ()) ∧
        (services.stored userKey = none ↔ ¬ a.keychainServices.OldItemStays faults userKey) := by
  obtain ⟨hfault, e, hremove⟩ | ⟨services, hfault, hremove, -⟩ :=
    a.keychainServices.removeDataForKey_spec faults userKey
  · exact .inl ⟨hfault, .keychain e, by simp [saveUser, hremove, Except.mapError]⟩
  · refine .inr ⟨services, hfault, by simp [saveUser, hremove, Except.mapError], ?_⟩
    have hiff := a.keychainServices.removeDataForKey_stored_iff faults userKey
    rw [hremove] at hiff
    exact hiff rfl

/-- A sign-in is reported to have succeeded exactly if the user is in the keychain. -/
theorem signInFlow_spec (hcreated : a.Created) (faults : Faults) (uid : Uid)
    (tokenService : FIRSecureTokenService) :
    let user : FIRUser := ⟨⟨uid, tokenService, a.tenantID⟩, a.objects⟩
    (∃ e, a.signInFlow faults uid tokenService = ({ a with objects := a.objects + 1 }, .error e)) ∨
      ∃ services, a.signInFlow faults uid tokenService =
          ({ a with
              keychainServices := services, currentUser := some user, objects := a.objects + 1 },
            .ok ()) ∧
        services.stored userKey = some user.toArchivedUser := by
  intro user
  have hnew : ¬ a.currentUser.map FIRUser.object = some a.objects := by
    cases hcurrent : a.currentUser with
    | none => simp
    | some current =>
      have hlt := hcreated current hcurrent
      simp only [Option.map_some, Option.some.injEq]
      omega
  have hnew' : ¬ some a.objects = a.currentUser.map FIRUser.object := fun h => hnew h.symm
  have hmatch : ({ a with objects := a.objects + 1 } : FIRAuth).tenantIDMismatch user = false :=
    not_tenantIDMismatch user rfl
  obtain ⟨e, hsave⟩ | ⟨services, hsave, hstored⟩ :=
    ({ a with objects := a.objects + 1 } : FIRAuth).saveUser_some faults user
  · refine .inl ⟨e, ?_⟩
    simp only [user] at hmatch hsave
    simp [signInFlow, updateCurrentUser, hnew', hmatch, hsave]
  · refine .inr ⟨services, ?_, hstored⟩
    simp only [user] at hmatch hsave
    simp [signInFlow, updateCurrentUser, hnew', hmatch, hsave, user]

/-- The end of a session that is in memory. -/
theorem updateCurrentUser_none {current : FIRUser} (hcurrent : a.currentUser = some current)
    (faults : Faults) (force : Bool) :
    (faults.delete ≠ none ∧ ∃ e, a.updateCurrentUser faults none force true =
        ({ a with currentUser := if force then none else some current }, .error e)) ∨
      ∃ services, faults.delete = none ∧ a.updateCurrentUser faults none force true =
          ({ a with keychainServices := services, currentUser := none }, .ok ()) ∧
        (services.stored userKey = none ↔ ¬ a.keychainServices.OldItemStays faults userKey) := by
  obtain ⟨hfault, e, hsave⟩ | ⟨services, hfault, hsave, hstored⟩ := a.saveUser_none faults
  · refine .inl ⟨hfault, e, ?_⟩
    cases force <;> simp [updateCurrentUser, hcurrent, hsave]
    rw [← hcurrent]
  · refine .inr ⟨services, hfault, ?_, hstored⟩
    simp [updateCurrentUser, hcurrent, hsave]

theorem updateKeychainWithUser_spec {current : FIRUser} (hcurrent : a.currentUser = some current)
    (faults : Faults) (tokenService : FIRSecureTokenService) :
    let user : FIRUser := { current with tokenService := tokenService }
    (∃ e, a.updateKeychainWithUser faults current.object tokenService =
        ({ a with currentUser := some user }, .error e)) ∨
      ∃ services, a.updateKeychainWithUser faults current.object tokenService =
          ({ a with keychainServices := services, currentUser := some user }, .ok ()) ∧
        services.stored userKey = some user.toArchivedUser := by
  intro user
  obtain ⟨e, hsave⟩ | ⟨services, hsave, hstored⟩ :=
    ({ a with currentUser := some user } : FIRAuth).saveUser_some faults user
  · exact .inl ⟨e, by simpa [updateKeychainWithUser, hcurrent] using hsave⟩
  · exact .inr ⟨services, by simpa [updateKeychainWithUser, hcurrent] using hsave, hstored⟩

/-- The keychain keeps what it has, and a user that is found is a new object. -/
theorem getUser_spec (a : FIRAuth) (faults : Faults) :
    (a.getUser faults).1.stored = a.stored ∧
      (a.getUser faults).1.currentUser = a.currentUser ∧
      ((faults ≠ {} ∧ ∃ e, (a.getUser faults).2 = .error e) ∨
        (a.keychainServices.view userKey = none ∧ (a.getUser faults).2 = .ok none) ∨
        ∃ archived, a.keychainServices.view userKey = some archived ∧
          (a.getUser faults).2 = .ok (some ⟨archived, a.objects⟩) ∧
          (a.getUser faults).1.objects = a.objects + 1) := by
  have hkept := a.keychainServices.dataForKey_stored faults userKey
  have hread := (a.keychainServices.dataForKey_spec faults userKey).2
  rcases hresult : a.keychainServices.dataForKey faults userKey with ⟨services, found⟩
  rw [hresult] at hkept hread
  have hview : ∀ result, found = .ok result → a.keychainServices.view userKey = result := by
    rintro result rfl
    obtain hok | ⟨-, e, he⟩ := hread
    · exact (Except.ok.inj hok).symm
    · cases he
  match found, hresult, hread, hview with
  | .error e, hresult, hread, _ =>
    have hfaults : faults ≠ {} := by
      obtain hok | ⟨hfaults, -⟩ := hread
      · cases hok
      · exact hfaults
    simpa [getUser, hresult, stored, hfaults] using hkept
  | .ok none, hresult, _, hview => simpa [getUser, hresult, stored, hview none rfl] using hkept
  | .ok (some archived), hresult, _, hview =>
    simpa [getUser, hresult, stored, hview (some archived) rfl] using hkept

/-- A launch changes nothing in the keychain that the next one would find. -/
theorem launch_spec (a : FIRAuth) (faults : Faults) :
    (a.launch faults).stored = a.stored ∧ (a.launch faults).Created ∧
      ((faults ≠ {} ∧ (a.launch faults).currentUser = none) ∨
        (a.launch faults).currentUser.map FIRUser.toArchivedUser = a.stored) := by
  obtain ⟨hstored, hnone, hcases⟩ := a.newProcess.getUser_spec faults
  rcases hresult : a.newProcess.getUser faults with ⟨a', found⟩
  rw [hresult] at hstored hnone hcases
  replace hstored : a'.stored = a.stored := hstored
  replace hnone : a'.currentUser = none := hnone
  obtain ⟨hfaults, e, hfound⟩ | ⟨hview, hfound⟩ | ⟨archived, hview, hfound, hobjects⟩ := hcases
  · obtain rfl : found = .error e := hfound
    have hlaunch : a.launch faults = a' := by simp [launch, hresult]
    rw [hlaunch]
    exact ⟨hstored, fun u hu => by simp [hnone] at hu, .inl ⟨hfaults, hnone⟩⟩
  · obtain rfl : found = .ok none := hfound
    have hlaunch : a.launch faults = { a' with tenantID := none } := by
      simp [launch, hresult, updateCurrentUser, hnone]
    rw [hlaunch]
    refine ⟨hstored, fun u hu => by simp [hnone] at hu, .inr ?_⟩
    rw [hnone]
    exact hview.symm
  · obtain rfl : found = .ok (some ⟨archived, a.objects⟩) := hfound
    have hmatch : ({ a' with tenantID := archived.tenantID } : FIRAuth).tenantIDMismatch
        ⟨archived, a.objects⟩ = false := not_tenantIDMismatch _ rfl
    rw [hnone] at hmatch
    have hlaunch : a.launch faults = { a' with
        tenantID := archived.tenantID, currentUser := some ⟨archived, a.objects⟩ } := by
      simp [launch, hresult, updateCurrentUser, hnone, hmatch]
    rw [hlaunch]
    refine ⟨hstored, fun u hu => ?_, .inr hview.symm⟩
    obtain rfl : ⟨archived, a.objects⟩ = u := Option.some.inj hu
    have hlast : a'.objects = a.objects + 1 := hobjects
    simp only
    omega

theorem relaunch (a : FIRAuth) :
    (a.launch {}).currentUser.map FIRUser.toArchivedUser = a.stored := by
  obtain ⟨hfaults, -⟩ | hrestored := (a.launch_spec {}).2.2
  · exact absurd rfl hfaults
  · exact hrestored

/-- A sign-in that cannot be saved is answered with an error, and the session stays. -/
theorem signInFlow_refines (hcreated : a.Created) (faults : Faults) (uid : Uid)
    (tokenService : FIRSecureTokenService) :
    let r := a.signInFlow faults uid tokenService
    r.1.currentUser.map (·.uid) = FirebaseAuth.signedInUser (a.currentUser.map (·.uid))
      ((r.2.map fun _ => uid).mapError fun _ => .keychainError) := by
  intro r
  obtain ⟨e, hsign⟩ | ⟨services, hsign, -⟩ := signInFlow_spec hcreated faults uid tokenService
  · simp [r, hsign, Except.map, Except.mapError, FirebaseAuth.signedInUser]
  · simp [r, hsign, Except.map, Except.mapError, FirebaseAuth.signedInUser]

theorem signOut_refines {Closure : Type*} {b : FirebaseAuth Closure}
    (hcurrent : b.currentUser = a.currentUser.map (·.uid)) (faults : Faults) :
    let saved := faults.delete.isNone
    (b.signOut saved).1.currentUser = (a.signOut faults).1.currentUser.map (·.uid) ∧
      (b.signOut saved).2 = (a.signOut faults).2.mapError fun _ => .keychainError := by
  intro saved
  cases huser : a.currentUser with
  | none =>
    have hnobody : b.currentUser = none := by simp [hcurrent, huser]
    simp [FirebaseAuth.signOut, signOut, hnobody, huser, Except.mapError]
  | some current =>
    have hsomebody : b.currentUser = some current.uid := by simp [hcurrent, huser]
    obtain ⟨hfault, e, hupdate⟩ | ⟨services, hfault, hupdate, -⟩ :=
      updateCurrentUser_none huser faults false
    · have hunsaved : saved = false :=
        Option.isNone_eq_false_iff.mpr (Option.isSome_iff_ne_none.mpr hfault)
      simp [FirebaseAuth.signOut, signOut, hsomebody, huser, hunsaved, hupdate, Except.mapError]
    · have hsaved : saved = true := Option.isNone_iff_eq_none.mpr hfault
      simp [FirebaseAuth.signOut, signOut, hsomebody, huser, hsaved, hupdate, Except.mapError]

end FIRAuth

inductive Event
  | launch (faults : Faults)
  | signedIn (faults : Faults) (uid : Uid) (tokenService : FIRSecureTokenService)
  | signOut (faults : Faults)
  | tokenUpdated (faults : Faults) (object : ℕ) (tokenService : FIRSecureTokenService)
  | tokenInvalid (faults : Faults) (object : ℕ)

/-- The auth object and the user that the calls that were reported to have
succeeded leave signed in. -/
structure Session where
  auth : FIRAuth
  expected : Option ArchivedUser

namespace Session

def step (s : Session) : Event → Session
  | .launch faults => { s with auth := s.auth.launch faults }
  | .signedIn faults uid tokenService =>
    match s.auth.signInFlow faults uid tokenService with
    | (a, .ok ()) => ⟨a, a.currentUser.map FIRUser.toArchivedUser⟩
    | (a, .error _) => { s with auth := a }
  | .signOut faults =>
    match s.auth.signOut faults with
    | (a, .ok ()) => ⟨a, none⟩
    | (a, .error _) => { s with auth := a }
  | .tokenUpdated faults object tokenService =>
    match s.auth.updateKeychainWithUser faults object tokenService with
    | (a, .ok ()) =>
      if s.auth.currentUser.map FIRUser.object = some object then
        ⟨a, a.currentUser.map FIRUser.toArchivedUser⟩
      else { s with auth := a }
    | (a, .error _) => { s with auth := a }
  | .tokenInvalid faults object =>
    match s.auth.signOutByForce faults object with
    | (a, .ok ()) =>
      if s.auth.currentUser.map FIRUser.object = some object then ⟨a, none⟩
      else { s with auth := a }
    | (a, .error _) => { s with auth := a }

/-- Over a keychain that is there already, before the first launch. -/
def first (service : String) (items : List (Item ArchivedUser)) : Session :=
  ⟨{ keychainServices := ⟨service, items, fun _ => false⟩ },
    FIRAuth.stored { keychainServices := ⟨service, items, fun _ => false⟩ }⟩

/-- If the app were launched now, and the keychain worked, the user would be
the expected one, and the app would open on that user's screen. -/
def Restores (s : Session) : Prop :=
  (s.auth.launch {}).currentUser.map FIRUser.toArchivedUser = s.expected ∧
    (Coordinators.launched ((s.auth.launch {}).currentUser.map (·.uid))).stack =
      [if s.expected.isSome then .home 2 else .login 1]

/-- A session that is ended is ended in the keychain too: there is a current
user, or nobody to sign out, and no old item stays behind. -/
def EndsInKeychain (s : Session) : Event → Prop
  | .signOut faults =>
    if s.auth.currentUser.isSome then
      faults.delete = none → ¬ s.auth.keychainServices.OldItemStays faults userKey
    else s.expected = none
  | .tokenInvalid faults object =>
    s.auth.currentUser.map FIRUser.object = some object → faults.delete = none →
      ¬ s.auth.keychainServices.OldItemStays faults userKey
  | _ => True

theorem launched_stack (currentUser : Option Uid) :
    (Coordinators.launched currentUser).stack =
      [if currentUser.isSome then .home 2 else .login 1] := by
  cases currentUser <;> rfl

theorem restores_iff (s : Session) : s.Restores ↔ s.auth.stored = s.expected := by
  unfold Restores
  rw [launched_stack, s.auth.relaunch]
  refine ⟨And.left, fun hstored => ⟨hstored, ?_⟩⟩
  have hrelaunch := s.auth.relaunch.trans hstored
  rw [← hrelaunch, Option.isSome_map, Option.isSome_map]

/-- What is kept along a run in which the sessions end in the keychain. -/
structure Kept (s : Session) : Prop where
  stored : s.auth.stored = s.expected
  created : s.auth.Created

theorem kept_launch {s : Session} (h : s.Kept) (faults : Faults) :
    (s.step (.launch faults)).Kept := by
  obtain ⟨hstored, hcreated, -⟩ := s.auth.launch_spec faults
  exact ⟨hstored.trans h.stored, hcreated⟩

theorem kept_signedIn {s : Session} (h : s.Kept) (faults : Faults) (uid : Uid)
    (tokenService : FIRSecureTokenService) :
    (s.step (.signedIn faults uid tokenService)).Kept := by
  obtain ⟨e, hsign⟩ | ⟨services, hsign, hstored⟩ :=
    FIRAuth.signInFlow_spec h.created faults uid tokenService
  · simp only [step, hsign]
    refine ⟨h.stored, fun u hu => ?_⟩
    have hlt := h.created u hu
    simp only
    omega
  · simp only [step, hsign]
    refine ⟨hstored, fun u hu => ?_⟩
    obtain rfl : _ = u := Option.some.inj hu
    simp

theorem kept_tokenUpdated {s : Session} (h : s.Kept) (faults : Faults) (object : ℕ)
    (tokenService : FIRSecureTokenService) :
    (s.step (.tokenUpdated faults object tokenService)).Kept := by
  cases hcurrent : s.auth.currentUser with
  | none => simpa [step, FIRAuth.updateKeychainWithUser, hcurrent] using h
  | some current =>
    by_cases hobject : current.object = object
    · subst hobject
      have hcreated := h.created current hcurrent
      obtain ⟨e, hupdate⟩ | ⟨services, hupdate, hstored⟩ :=
        FIRAuth.updateKeychainWithUser_spec hcurrent faults tokenService
      · simp only [step, hupdate]
        refine ⟨h.stored, fun u hu => ?_⟩
        obtain rfl : _ = u := Option.some.inj hu
        exact hcreated
      · simp only [step, hupdate, hcurrent, Option.map_some, if_true]
        refine ⟨hstored, fun u hu => ?_⟩
        obtain rfl : _ = u := Option.some.inj hu
        exact hcreated
    · simpa [step, FIRAuth.updateKeychainWithUser, hcurrent, hobject] using h

/-- A session in memory that is ended. -/
theorem ended_iff {s : Session} (h : s.Kept) {current : FIRUser}
    (hcurrent : s.auth.currentUser = some current) (faults : Faults) (force : Bool) :
    (faults.delete ≠ none ∧ ∃ e a, s.auth.updateCurrentUser faults none force true =
        (a, .error e) ∧ a.stored = s.expected ∧ a.Created) ∨
      ∃ a, faults.delete = none ∧ s.auth.updateCurrentUser faults none force true = (a, .ok ()) ∧
        a.Created ∧
        (a.stored = none ↔ ¬ s.auth.keychainServices.OldItemStays faults userKey) := by
  obtain ⟨hfault, e, hupdate⟩ | ⟨services, hfault, hupdate, hstored⟩ :=
    FIRAuth.updateCurrentUser_none hcurrent faults force
  · refine .inl ⟨hfault, e, _, hupdate, h.stored, fun u hu => ?_⟩
    cases force with
    | true => simp at hu
    | false => exact h.created u (hcurrent.trans hu)
  · exact .inr ⟨_, hfault, hupdate, fun u hu => by simp at hu, hstored⟩

theorem signOut_stored_iff {s : Session} (h : s.Kept) (faults : Faults) :
    (s.step (.signOut faults)).auth.Created ∧
      ((s.step (.signOut faults)).auth.stored = (s.step (.signOut faults)).expected ↔
        s.EndsInKeychain (.signOut faults)) := by
  cases hcurrent : s.auth.currentUser with
  | none =>
    have hstep : s.step (.signOut faults) = ⟨s.auth, none⟩ := by
      simp [step, FIRAuth.signOut, hcurrent]
    rw [hstep]
    simp only [EndsInKeychain, hcurrent, Option.isSome_none, Bool.false_eq_true, if_false]
    exact ⟨h.created, fun hstored => h.stored.symm.trans hstored,
      fun hnone => h.stored.trans hnone⟩
  | some current =>
    simp only [EndsInKeychain, hcurrent, Option.isSome_some, if_true]
    obtain ⟨hfault, e, a, hupdate, hstored, hcreated⟩ | ⟨a, hfault, hupdate, hcreated, hiff⟩ :=
      ended_iff h hcurrent faults false
    · have hstep : s.step (.signOut faults) = { s with auth := a } := by
        simp [step, FIRAuth.signOut, hcurrent, hupdate]
      rw [hstep]
      exact ⟨hcreated, fun _ hnone => absurd hnone hfault, fun _ => hstored⟩
    · have hstep : s.step (.signOut faults) = ⟨a, none⟩ := by
        simp [step, FIRAuth.signOut, hcurrent, hupdate]
      rw [hstep]
      exact ⟨hcreated, fun hnone _ => hiff.mp hnone, fun hends => hiff.mpr (hends hfault)⟩

theorem tokenInvalid_stored_iff {s : Session} (h : s.Kept) (faults : Faults) (object : ℕ) :
    (s.step (.tokenInvalid faults object)).auth.Created ∧
      ((s.step (.tokenInvalid faults object)).auth.stored =
          (s.step (.tokenInvalid faults object)).expected ↔
        s.EndsInKeychain (.tokenInvalid faults object)) := by
  by_cases hobject : s.auth.currentUser.map FIRUser.object = some object
  · obtain ⟨current, hcurrent, rfl⟩ := Option.map_eq_some_iff.mp hobject
    simp only [EndsInKeychain, hobject, true_imp_iff]
    obtain ⟨hfault, e, a, hupdate, hstored, hcreated⟩ | ⟨a, hfault, hupdate, hcreated, hiff⟩ :=
      ended_iff h hcurrent faults true
    · have hstep : s.step (.tokenInvalid faults current.object) = { s with auth := a } := by
        simp [step, FIRAuth.signOutByForce, hcurrent, hupdate]
      rw [hstep]
      exact ⟨hcreated, fun _ hnone => absurd hnone hfault, fun _ => hstored⟩
    · have hstep : s.step (.tokenInvalid faults current.object) = ⟨a, none⟩ := by
        simp [step, FIRAuth.signOutByForce, hcurrent, hupdate]
      rw [hstep]
      exact ⟨hcreated, fun hnone _ => hiff.mp hnone, fun hends => hiff.mpr (hends hfault)⟩
  · have hstep : s.step (.tokenInvalid faults object) = s := by
      simp [step, FIRAuth.signOutByForce, hobject]
    rw [hstep]
    exact ⟨h.created, fun _ hcurrent => absurd hcurrent hobject, fun _ => h.stored⟩

/-- One step: the keychain has the expected user exactly if the session ended there. -/
theorem step_stored_iff {s : Session} (h : s.Kept) (e : Event) :
    (s.step e).auth.Created ∧
      ((s.step e).auth.stored = (s.step e).expected ↔ s.EndsInKeychain e) := by
  cases e with
  | launch faults =>
    have hkept := kept_launch h faults
    exact ⟨hkept.created, iff_of_true hkept.stored trivial⟩
  | signedIn faults uid tokenService =>
    have hkept := kept_signedIn h faults uid tokenService
    exact ⟨hkept.created, iff_of_true hkept.stored trivial⟩
  | signOut faults => exact signOut_stored_iff h faults
  | tokenUpdated faults object tokenService =>
    have hkept := kept_tokenUpdated h faults object tokenService
    exact ⟨hkept.created, iff_of_true hkept.stored trivial⟩
  | tokenInvalid faults object => exact tokenInvalid_stored_iff h faults object

/-- The app opens on the screen of the expected user after a launch, whenever
it is launched, exactly as long as the sessions that are ended are ended in
the keychain. -/
theorem restores_iff_ends_in_keychain (service : String) (items : List (Item ArchivedUser))
    (events : List Event) :
    EveryState step Restores (first service items) events ↔
      EveryStep step EndsInKeychain (first service items) events := by
  refine everyState_iff_until Kept (fun s h => s.restores_iff.mpr h.stored)
    (fun s e h hends => ?_) (fun s e h hends hrestores => ?_) _ _ ?_
  · obtain ⟨hcreated, hiff⟩ := step_stored_iff h e
    exact ⟨hiff.mpr hends, hcreated⟩
  · obtain ⟨-, hiff⟩ := step_stored_iff h e
    exact hends (hiff.mp ((s.step e).restores_iff.mp hrestores))
  · exact ⟨rfl, fun u hu => by simp [first] at hu⟩

/-- The user has signed out, after the end of the session in memory alone, and
is signed in again by the next launch. -/
example (uid : Uid) (huid : uid = ⟨"u", by decide⟩) :
    let s := run step (first "auth" []) [.launch {},
      .signedIn {} uid ⟨"refresh", some "access", some 3600000⟩,
      .tokenInvalid { delete := some (-25308) } 0, .signOut {}]
    s.expected = none ∧ (s.auth.launch {}).currentUser.isSome = true := by
  subst huid
  decide

end Session

end Mber.AuthSession
