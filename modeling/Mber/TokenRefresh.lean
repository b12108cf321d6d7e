import Mber.AuthSession

/-!
A signed-in user that is asked for tokens, while its session may end or be
replaced. A token that has been refreshed is saved if the user is still the
current one; a call that cannot save it gets an error, but the tokens stay in
memory and later calls are served with them, so the keychain falls behind.
-/
namespace Mber.TokenRefresh

open Runs Firebase Keychain KeychainServices SecureTokens AuthSession

/-- Why a call gets no token. -/
inductive GetTokenError
  | server (error : TokenError)
  | keychain (error : FIRAuthError)

/-- The user object, the session it belongs to, and what its callers were given. -/
structure TokenUser where
  session : Session
  object : ℕ
  fetches : Fetches
  given : List (ℕ × Except GetTokenError (Option String)) := []

inductive Input
  | internalGetToken (forceRefresh : Bool)
  | startTask
  | respond (faults : Faults) (call : ℕ) (answer : Except TokenError Dictionary)
  | setClock (now : ℤ)
  | signOut (faults : Faults)
  | signedIn (faults : Faults) (uid : Uid) (tokenService : FIRSecureTokenService)

/-- The errors of `signOutIfTokenIsInvalidWithError`. -/
def isInvalid : TokenError → Bool
  | .userNotFound | .userDisabled | .invalidUserToken | .userTokenExpired => true
  | _ => false

namespace TokenUser

/-- A task that finds a valid token calls back at once. -/
def startTask (s : TokenUser) : TokenUser :=
  let called := s.fetches.startTask.answers.drop s.fetches.answers.length
  { s with
    fetches := s.fetches.startTask
    given := s.given ++ called.map fun p => (p.1, p.2.mapError .server) }

/-- The callback of a task that has asked the server. -/
def callback (s : TokenUser) (faults : Faults) (call : ℕ) :
    FIRSecureTokenService × Except TokenError (Option String) × Bool → TokenUser
  | (_, .error error, _) =>
    { s with
      session :=
        if isInvalid error then s.session.step (.tokenInvalid faults s.object) else s.session
      given := s.given ++ [(call, .error (.server error))] }
  | (_, .ok token, false) => { s with given := s.given ++ [(call, .ok token)] }
  | (tokenService, .ok token, true) =>
    { s with
      session := s.session.step (.tokenUpdated faults s.object tokenService)
      given := s.given ++ [(call,
        match (s.session.auth.updateKeychainWithUser faults s.object tokenService).2 with
        | .ok () => .ok token
        | .error error => .error (.keychain error))] }

def respond (s : TokenUser) (faults : Faults) (call : ℕ) (answer : Except TokenError Dictionary) :
    TokenUser :=
  if call ∈ s.fetches.inFlight.map Prod.fst then
    { s with fetches := s.fetches.respond call answer }.callback faults call
      (s.fetches.receive answer)
  else s

def step (s : TokenUser) : Input → TokenUser
  | .internalGetToken forceRefresh =>
    { s with fetches := s.fetches.fetchAccessTokenForcingRefresh forceRefresh }
  | .startTask => s.startTask
  | .respond faults call answer => s.respond faults call answer
  | .setClock now => { s with fetches := { s.fetches with now } }
  | .signOut faults => { s with session := s.session.step (.signOut faults) }
  | .signedIn faults uid tokenService =>
    { s with session := s.session.step (.signedIn faults uid tokenService) }

/-- While the user is the current one, a launch brings it back with the tokens it has. -/
def Restorable (s : TokenUser) : Prop :=
  ∀ u, s.session.auth.currentUser = some u → u.object = s.object →
    (s.session.auth.launch {}).currentUser.map FIRUser.toArchivedUser =
      some { u.toArchivedUser with tokenService := s.fetches.tokenService }

/-- An answer that changes the tokens of the current user is saved. -/
def Saves (s : TokenUser) : Input → Prop
  | .respond faults call answer =>
    call ∈ s.fetches.inFlight.map Prod.fst →
      (s.fetches.receive answer).1 ≠ s.fetches.tokenService →
      s.session.auth.currentUser.map FIRUser.object = some s.object →
      Writable faults s.session.auth.keychainServices.items
        (s.session.auth.keychainServices.genericPasswordQueryWithKey userKey)
  | _ => True

end TokenUser

/-- The current user, if it is this object, has these tokens and is in the keychain. -/
structure Kept (a : FIRAuth) (object : ℕ) (tokenService : FIRSecureTokenService) : Prop where
  created : a.Created
  object_lt : object < a.objects
  current : ∀ u, a.currentUser = some u → u.object = object →
    u.tokenService = tokenService ∧ a.stored = some u.toArchivedUser

namespace Kept

variable {a : FIRAuth} {object : ℕ} {tokenService : FIRSecureTokenService}

/-- A new user is another object. -/
theorem signInFlow (h : Kept a object tokenService) (faults : Faults) (uid : Uid)
    (newService : FIRSecureTokenService) :
    Kept (a.signInFlow faults uid newService).1 object tokenService := by
  have hlt := h.object_lt
  obtain ⟨e, hsign⟩ | ⟨services, hsign, -⟩ :=
    FIRAuth.signInFlow_spec h.created faults uid newService
  · rw [hsign]
    refine ⟨fun u hu => ?_, ?_, h.current⟩
    · have hcreated := h.created u hu
      simp only
      omega
    · simp only
      omega
  · rw [hsign]
    refine ⟨fun u hu => ?_, ?_, fun u hu hobject => ?_⟩
    · obtain rfl : _ = u := Option.some.inj hu
      simp
    · simp only
      omega
    · obtain rfl : _ = u := Option.some.inj hu
      simp only at hobject
      omega

/-- Without a current user nothing is claimed. -/
theorem updateCurrentUser_none (h : Kept a object tokenService) {current : FIRUser}
    (hcurrent : a.currentUser = some current) (faults : Faults) (force : Bool) :
    Kept (a.updateCurrentUser faults none force true).1 object tokenService := by
  obtain ⟨-, e, hupdate⟩ | ⟨services, -, hupdate, -⟩ :=
    FIRAuth.updateCurrentUser_none hcurrent faults force
  · rw [hupdate]
    cases force with
    | true => exact ⟨fun u hu => by simp at hu, h.object_lt, fun u hu => by simp at hu⟩
    | false =>
      refine ⟨fun u hu => h.created u (hcurrent.trans hu), h.object_lt, fun u hu => ?_⟩
      exact h.current u (hcurrent.trans hu)
  · rw [hupdate]
    exact ⟨fun u hu => by simp at hu, h.object_lt, fun u hu => by simp at hu⟩

theorem signOut (h : Kept a object tokenService) (faults : Faults) :
    Kept (a.signOut faults).1 object tokenService := by
  cases hcurrent : a.currentUser with
  | none => simpa [FIRAuth.signOut, hcurrent] using h
  | some current =>
    simpa [FIRAuth.signOut, hcurrent] using h.updateCurrentUser_none hcurrent faults false

theorem signOutByForce (h : Kept a object tokenService) (faults : Faults) :
    Kept (a.signOutByForce faults object).1 object tokenService := by
  unfold FIRAuth.signOutByForce
  split_ifs with hobject
  · obtain ⟨current, hcurrent, -⟩ := Option.map_eq_some_iff.mp hobject
    exact h.updateCurrentUser_none hcurrent faults true
  · exact h

end Kept

/-- The tokens of the current user are saved exactly if the keychain can be written. -/
theorem updateKeychainWithUser_ok_iff {a : FIRAuth} {current : FIRUser}
    (hcurrent : a.currentUser = some current) (faults : Faults)
    (tokenService : FIRSecureTokenService) :
    (a.updateKeychainWithUser faults current.object tokenService).2 = .ok () ↔
      Writable faults a.keychainServices.items
        (a.keychainServices.genericPasswordQueryWithKey userKey) := by
  have hwrite := a.keychainServices.setData_ok_iff faults
    ({ current with tokenService } : FIRUser).toArchivedUser userKey
  rw [← hwrite]
  simp only [FIRAuth.updateKeychainWithUser, hcurrent, if_true, FIRAuth.saveUser]
  cases (a.keychainServices.setData faults
    ({ current with tokenService } : FIRUser).toArchivedUser userKey).2 <;> simp [Except.mapError]

namespace Kept

variable {a : FIRAuth} {object : ℕ} {tokenService newService : FIRSecureTokenService}

/-- Only the current user is updated. -/
theorem updateKeychainWithUser_other (h : Kept a object tokenService)
    (hother : a.currentUser.map FIRUser.object ≠ some object) (faults : Faults) :
    Kept (a.updateKeychainWithUser faults object newService).1 object newService := by
  have hsame : a.updateKeychainWithUser faults object newService = (a, .ok ()) := by
    cases hcurrent : a.currentUser with
    | none => simp [FIRAuth.updateKeychainWithUser, hcurrent]
    | some current =>
      have hne : current.object ≠ object := by simpa [hcurrent] using hother
      simp [FIRAuth.updateKeychainWithUser, hcurrent, hne]
  rw [hsame]
  exact ⟨h.created, h.object_lt, fun u hu hobject =>
    absurd (Option.map_eq_some_iff.mpr ⟨u, hu, hobject⟩) hother⟩

/-- The new tokens are in the keychain exactly if it can be written. -/
theorem updateKeychainWithUser_iff (h : Kept a object tokenService)
    (hnew : newService ≠ tokenService)
    (hcurrent : a.currentUser.map FIRUser.object = some object) (faults : Faults) :
    (Writable faults a.keychainServices.items
        (a.keychainServices.genericPasswordQueryWithKey userKey) ∧
      Kept (a.updateKeychainWithUser faults object newService).1 object newService) ∨
    (¬ Writable faults a.keychainServices.items
        (a.keychainServices.genericPasswordQueryWithKey userKey) ∧
      ∃ u, (a.updateKeychainWithUser faults object newService).1.currentUser = some u ∧
        u.object = object ∧ (a.updateKeychainWithUser faults object newService).1.stored ≠
          some { u.toArchivedUser with tokenService := newService }) := by
  obtain ⟨current, hsome, rfl⟩ := Option.map_eq_some_iff.mp hcurrent
  obtain ⟨htokens, hstored⟩ := h.current current hsome rfl
  have hok := updateKeychainWithUser_ok_iff hsome faults newService
  obtain ⟨e, hupdate⟩ | ⟨services, hupdate, hsaved⟩ :=
    FIRAuth.updateKeychainWithUser_spec hsome faults newService
  · refine .inr ⟨fun hwritable => ?_, ?_⟩
    · rw [hupdate] at hok
      cases hok.mpr hwritable
    · rw [hupdate]
      refine ⟨_, rfl, rfl, fun hsame => hnew ?_⟩
      have harchived := Option.some.inj (hstored.symm.trans hsame)
      rw [← htokens]
      exact (congrArg ArchivedUser.tokenService harchived).symm
  · refine .inl ⟨hok.mp (by rw [hupdate]), ?_⟩
    rw [hupdate]
    refine ⟨fun u hu => ?_, h.object_lt, fun u hu _ => ?_⟩
    · obtain rfl : _ = u := Option.some.inj hu
      exact h.created current hsome
    · obtain rfl : _ = u := Option.some.inj hu
      exact ⟨rfl, hsaved⟩

end Kept

theorem signOut_auth (s : Session) (faults : Faults) :
    (s.step (.signOut faults)).auth = (s.auth.signOut faults).1 := by
  rcases hsign : s.auth.signOut faults with ⟨a, e | ok⟩ <;> simp [Session.step, hsign]

theorem signedIn_auth (s : Session) (faults : Faults) (uid : Uid)
    (tokenService : FIRSecureTokenService) :
    (s.step (.signedIn faults uid tokenService)).auth =
      (s.auth.signInFlow faults uid tokenService).1 := by
  rcases hsign : s.auth.signInFlow faults uid tokenService with ⟨a, e | ok⟩ <;>
    simp [Session.step, hsign]

theorem tokenUpdated_auth (s : Session) (faults : Faults) (object : ℕ)
    (tokenService : FIRSecureTokenService) :
    (s.step (.tokenUpdated faults object tokenService)).auth =
      (s.auth.updateKeychainWithUser faults object tokenService).1 := by
  rcases hupdate : s.auth.updateKeychainWithUser faults object tokenService with ⟨a, e | ok⟩
  · simp [Session.step, hupdate]
  · simp only [Session.step, hupdate]
    split_ifs <;> rfl

theorem tokenInvalid_auth (s : Session) (faults : Faults) (object : ℕ) :
    (s.step (.tokenInvalid faults object)).auth = (s.auth.signOutByForce faults object).1 := by
  rcases hsign : s.auth.signOutByForce faults object with ⟨a, e | ok⟩
  · simp [Session.step, hsign]
  · simp only [Session.step, hsign]
    split_ifs <;> rfl

namespace TokenUser

variable {s : TokenUser} {tokenService : FIRSecureTokenService}

theorem restorable_iff (s : TokenUser) : s.Restorable ↔
    ∀ u, s.session.auth.currentUser = some u → u.object = s.object →
      s.session.auth.stored =
        some { u.toArchivedUser with tokenService := s.fetches.tokenService } := by
  unfold Restorable
  rw [s.session.auth.relaunch]

theorem restorable_of_kept (h : Kept s.session.auth s.object s.fetches.tokenService) :
    s.Restorable := by
  rw [restorable_iff]
  intro u hu hobject
  obtain ⟨htokens, hstored⟩ := h.current u hu hobject
  rw [hstored, ← htokens]

/-- An answer that leaves the tokens as they are. -/
theorem callback_unchanged (h : Kept s.session.auth s.object s.fetches.tokenService)
    (faults : Faults) (call : ℕ)
    {r : FIRSecureTokenService × Except TokenError (Option String) × Bool} (hr : r.2.2 = false) :
    Kept (s.callback faults call r).session.auth s.object s.fetches.tokenService := by
  obtain ⟨tokenService, result, updated⟩ := r
  obtain rfl : updated = false := hr
  cases result with
  | error error =>
    simp only [callback]
    split_ifs
    · rw [tokenInvalid_auth]
      exact h.signOutByForce faults
    · exact h
  | ok token => exact h

/-- An error is no update. -/
theorem receive_ok {fetches : Fetches} {answer : Except TokenError Dictionary}
    (hupdated : (fetches.receive answer).2.2 = true) :
    ∃ token, (fetches.receive answer).2.1 = .ok token := by
  unfold Fetches.receive at hupdated ⊢
  cases hanswer : answer.bind (setWithDictionary fetches.now) with
  | error error => simp [hanswer, FIRSecureTokenService.receive] at hupdated
  | ok response => exact ⟨some response.accessToken, rfl⟩

theorem callback_fetches (s : TokenUser) (faults : Faults) (call : ℕ)
    (r : FIRSecureTokenService × Except TokenError (Option String) × Bool) :
    (s.callback faults call r).fetches = s.fetches ∧
      (s.callback faults call r).object = s.object := by
  obtain ⟨tokenService, error | token, _ | _⟩ := r <;> exact ⟨rfl, rfl⟩

/-- New tokens go to the keychain if the user is the current one. -/
theorem callback_updated (h : Kept s.session.auth s.object tokenService)
    (hnew : s.fetches.tokenService ≠ tokenService) (faults : Faults) (call : ℕ)
    (token : Option String) :
    let t := s.callback faults call (s.fetches.tokenService, .ok token, true)
    ((s.session.auth.currentUser.map FIRUser.object = some s.object →
        Writable faults s.session.auth.keychainServices.items
          (s.session.auth.keychainServices.genericPasswordQueryWithKey userKey)) ∧
      Kept t.session.auth s.object s.fetches.tokenService) ∨
    (¬ (s.session.auth.currentUser.map FIRUser.object = some s.object →
        Writable faults s.session.auth.keychainServices.items
          (s.session.auth.keychainServices.genericPasswordQueryWithKey userKey)) ∧
      ¬ t.Restorable) := by
  intro t
  have hauth : t.session.auth =
      (s.session.auth.updateKeychainWithUser faults s.object s.fetches.tokenService).1 :=
    tokenUpdated_auth s.session faults s.object s.fetches.tokenService
  by_cases hcurrent : s.session.auth.currentUser.map FIRUser.object = some s.object
  · obtain ⟨hwritable, hkept⟩ | ⟨hnot, u, hu, hobject, hstale⟩ :=
      h.updateKeychainWithUser_iff hnew hcurrent faults
    · exact .inl ⟨fun _ => hwritable, hauth ▸ hkept⟩
    · refine .inr ⟨fun himp => hnot (himp hcurrent), fun hrestorable => hstale ?_⟩
      rw [← hauth] at hu ⊢
      exact (restorable_iff t).mp hrestorable u hu hobject
  · exact .inl ⟨fun hsame => absurd hsame hcurrent,
      hauth ▸ h.updateKeychainWithUser_other hcurrent faults⟩

/-- An answer to a request: the keychain keeps up exactly if what is new is saved. -/
theorem respond_kept (h : Kept s.session.auth s.object s.fetches.tokenService) (faults : Faults)
    (call : ℕ) (answer : Except TokenError Dictionary) :
    let t := s.respond faults call answer
    (s.Saves (.respond faults call answer) ∧
      Kept t.session.auth t.object t.fetches.tokenService) ∨
    (¬ s.Saves (.respond faults call answer) ∧ ¬ t.Restorable) := by
  intro t
  by_cases hcall : call ∈ s.fetches.inFlight.map Prod.fst
  swap
  · have hsame : t = s := by simp only [t, respond, hcall, if_false]
    exact .inl ⟨fun hin => absurd hin hcall, hsame ▸ h⟩
  obtain ⟨v, hv⟩ : ∃ v : TokenUser, v = { s with fetches := s.fetches.respond call answer } :=
    ⟨_, rfl⟩
  have htokens : v.fetches.tokenService = (s.fetches.receive answer).1 := by
    simp only [hv, Fetches.respond, hcall, if_true]
  have hstep : t = v.callback faults call (s.fetches.receive answer) := by
    simp only [t, respond, hcall, if_true, hv]
  obtain ⟨hfetches, hobject⟩ := callback_fetches v faults call (s.fetches.receive answer)
  have hupdated_iff : (s.fetches.receive answer).2.2 = true ↔
      (s.fetches.receive answer).1 ≠ s.fetches.tokenService :=
    s.fetches.tokenService.receive_updated_iff _
  rw [hstep, hfetches, hobject]
  cases hupdated : (s.fetches.receive answer).2.2 with
  | false =>
    have hsame : (s.fetches.receive answer).1 = s.fetches.tokenService := by
      by_contra hnew
      simp [hupdated_iff.mpr hnew] at hupdated
    refine .inl ⟨fun _ hnew => absurd hsame hnew, callback_unchanged ?_ faults call hupdated⟩
    rw [htokens, hsame, hv]
    exact h
  | true =>
    have hnew := hupdated_iff.mp hupdated
    obtain ⟨token, htoken⟩ := receive_ok hupdated
    have hr : s.fetches.receive answer = (v.fetches.tokenService, .ok token, true) := by
      rw [htokens, ← htoken, ← hupdated]
    have hv' : Kept v.session.auth v.object s.fetches.tokenService := by
      rw [hv]
      exact h
    have hcases := callback_updated hv' (htokens ▸ hnew) faults call token
    rw [← hr] at hcases
    have hsaves : s.Saves (.respond faults call answer) ↔
        (v.session.auth.currentUser.map FIRUser.object = some v.object →
          Writable faults v.session.auth.keychainServices.items
            (v.session.auth.keychainServices.genericPasswordQueryWithKey userKey)) := by
      rw [hv]
      exact ⟨fun hall => hall hcall hnew, fun himp _ _ => himp⟩
    rw [hsaves]
    exact hcases

theorem startTask_tokenService (f : Fetches) : f.startTask.tokenService = f.tokenService := by
  unfold Fetches.startTask
  split_ifs
  · rfl
  · split
    · rfl
    · split_ifs <;> rfl

theorem startTask_answers (f : Fetches) : f.answers <+: f.startTask.answers := by
  unfold Fetches.startTask
  split_ifs
  · exact List.prefix_rfl
  · split
    · exact List.prefix_rfl
    · split_ifs
      · exact List.prefix_append _ _
      · exact List.prefix_rfl

theorem step_kept (h : Kept s.session.auth s.object s.fetches.tokenService) (i : Input) :
    (s.Saves i ∧
      Kept (s.step i).session.auth (s.step i).object (s.step i).fetches.tokenService) ∨
    (¬ s.Saves i ∧ ¬ (s.step i).Restorable) := by
  cases i with
  | internalGetToken forceRefresh => exact .inl ⟨trivial, h⟩
  | startTask =>
    refine .inl ⟨trivial, ?_⟩
    simpa only [step, startTask, startTask_tokenService] using h
  | respond faults call answer => exact respond_kept h faults call answer
  | setClock now => exact .inl ⟨trivial, h⟩
  | signOut faults =>
    refine .inl ⟨trivial, ?_⟩
    simp only [step, signOut_auth]
    exact h.signOut faults
  | signedIn faults uid tokenService =>
    refine .inl ⟨trivial, ?_⟩
    simp only [step, signedIn_auth]
    exact h.signInFlow faults uid tokenService

/-- The callers are called back in the order of the answers. -/
theorem step_given (h : s.given.map Prod.fst = s.fetches.answers.map Prod.fst) (i : Input) :
    (s.step i).given.map Prod.fst = (s.step i).fetches.answers.map Prod.fst := by
  cases i with
  | startTask =>
    obtain ⟨new, hnew⟩ := startTask_answers s.fetches
    simp [step, startTask, ← hnew, h]
  | respond faults call answer =>
    by_cases hcall : call ∈ s.fetches.inFlight.map Prod.fst
    · simp only [step, respond, hcall, if_true, callback_fetches]
      rcases s.fetches.receive answer with ⟨tokenService, error | token, _ | _⟩ <;>
        simp [callback, Fetches.respond, hcall, h]
    · simpa only [step, respond, hcall, if_false] using h
  | _ => exact h

/-- Its own calls are the calls of its token service. -/
theorem step_ordered (h : s.fetches.Ordered) (i : Input) : (s.step i).fetches.Ordered := by
  cases i with
  | internalGetToken forceRefresh => exact h.step (.fetchAccessToken forceRefresh)
  | startTask => exact h.startTask
  | respond faults call answer =>
    by_cases hcall : call ∈ s.fetches.inFlight.map Prod.fst
    · simp only [step, respond, hcall, if_true, callback_fetches]
      exact h.respond call answer
    · simpa only [step, respond, hcall, if_false] using h
  | setClock now => exact h.step (.setClock now)
  | signOut faults => exact h
  | signedIn faults uid tokenService => exact h

/-- Whatever becomes of the session and the keychain, every call of
`internalGetTokenForcingRefresh` is called back once, and in the order of the calls. -/
theorem called_back_in_order (session : Session) (object : ℕ)
    (tokenService : FIRSecureTokenService) (now : ℤ) (inputs : List Input) :
    let s := run step ⟨session, object, { tokenService, now }, []⟩ inputs
    s.given.map Prod.fst ++ s.fetches.inFlight.map Prod.fst ++ s.fetches.waiting.map Prod.fst =
      List.range s.fetches.calls := by
  intro s
  obtain ⟨hgiven, hordered⟩ : s.given.map Prod.fst = s.fetches.answers.map Prod.fst ∧
      s.fetches.Ordered :=
    run_invariant
      (fun t : TokenUser =>
        t.given.map Prod.fst = t.fetches.answers.map Prod.fst ∧ t.fetches.Ordered)
      (fun _ i ht => ⟨step_given ht.1 i, step_ordered ht.2 i⟩) _ inputs
      ⟨rfl, ⟨rfl, rfl, fun _ hp => by cases hp⟩⟩
  rw [hgiven]
  exact hordered.order_eq

/-- While the user is the current one, a launch would bring it back with the
tokens that its calls are given, exactly as long as every answer that changes
them finds a keychain that can be written. -/
theorem tokens_restored_iff (session : Session) (u : FIRUser) (now : ℤ)
    (hcreated : session.auth.Created) (hcurrent : session.auth.currentUser = some u)
    (hstored : session.auth.stored = some u.toArchivedUser) (inputs : List Input) :
    EveryState step Restorable ⟨session, u.object, { tokenService := u.tokenService, now }, []⟩
        inputs ↔
      EveryStep step Saves ⟨session, u.object, { tokenService := u.tokenService, now }, []⟩
        inputs := by
  refine everyState_iff_until
    (fun s => Kept s.session.auth s.object s.fetches.tokenService)
    (fun s h => restorable_of_kept h) (fun s i h hsaves => ?_) (fun s i h hsaves => ?_) _ _ ?_
  · obtain ⟨-, hkept⟩ | ⟨hnot, -⟩ := step_kept h i
    · exact hkept
    · exact absurd hsaves hnot
  · obtain ⟨hsaved, -⟩ | ⟨-, hlost⟩ := step_kept h i
    · exact absurd hsaved hsaves
    · exact hlost
  · refine ⟨hcreated, hcreated u hcurrent, fun current hsome _ => ?_⟩
    obtain rfl : u = current := Option.some.inj (hcurrent.symm.trans hsome)
    exact ⟨rfl, hstored⟩

/-- The first sign-in of a new app. -/
theorem tokens_restored_first :
    let session := ((Session.first "auth" []).step (.launch {})).step
      (.signedIn {} ⟨"u", by decide⟩ ⟨"refresh", some "access", some 0⟩)
    let s : TokenUser :=
      ⟨session, 0, { tokenService := ⟨"refresh", some "access", some 0⟩, now := 0 }, []⟩
    let inputs : List Input := [.internalGetToken false, .startTask,
      .respond { update := some (-25308) } 0 (.ok ⟨none, some "newer", some 3600000⟩)]
    EveryState step Restorable s inputs ↔ EveryStep step Saves s inputs := by
  have hkept := Session.kept_signedIn (Session.kept_launch
    (s := Session.first "auth" []) ⟨rfl, fun u hu => by simp [Session.first] at hu⟩ {}) {}
    ⟨"u", by decide⟩ ⟨"refresh", some "access", some 0⟩
  exact tokens_restored_iff _ ⟨⟨⟨"u", by decide⟩, ⟨"refresh", some "access", some 0⟩, none⟩, 0⟩ 0
    hkept.created (by decide) (by decide) _

end TokenUser

end Mber.TokenRefresh
