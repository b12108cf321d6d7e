import Mber.AutoRefresh

/-!
What an answer of the token service can do to the session and to the schedule,
and to whom the calls belong that are on the way: they are of objects that
exist, and those of the current user's object name the current user.
-/
namespace Mber.AutoRefresh

open Runs Firebase Keychain KeychainServices SecureTokens AuthSession TokenRefresh

namespace RefreshingAuth

variable {s : RefreshingAuth}

/-- The current user is the same object, if there is one, and no object is new. -/
structure SameUser (a a' : FIRAuth) : Prop where
  user : a'.currentUser.map (fun u => (u.object, u.uid)) =
    a.currentUser.map fun u => (u.object, u.uid)
  objects : a'.objects = a.objects

theorem SameUser.object_eq {a a' : FIRAuth} (h : SameUser a a') :
    a'.currentUser.map FIRUser.object = a.currentUser.map FIRUser.object := by
  have huser := congrArg (Option.map Prod.fst) h.user
  simpa [Option.map_map, Function.comp_def] using huser

theorem SameUser.uid_eq {a a' : FIRAuth} (h : SameUser a a') :
    a'.currentUser.map (·.uid) = a.currentUser.map (·.uid) := by
  have huser := congrArg (Option.map Prod.snd) h.user
  simpa [Option.map_map, Function.comp_def] using huser

/-- The outcome of a call of this object, by its answer. -/
inductive Outcome (s : RefreshingAuth) (object : ℕ) (faults : Faults) :
    Except TokenError FIRSecureTokenResponse → RefreshingAuth × Bool → Prop
  | other (answer : Except TokenError FIRSecureTokenResponse)
    (hother : s.auth.currentUser.map FIRUser.object ≠ some object) :
    Outcome s object faults answer (s, !answer.isOk)
  | failed (error : TokenError) (hcurrent : s.auth.currentUser.map FIRUser.object = some object) :
    Outcome s object faults (.error error) (s, true)
  | signedOut (error : TokenError) (auth : FIRAuth) (hnone : auth.currentUser = none)
    (hobjects : auth.objects = s.auth.objects) :
    Outcome s object faults (.error error) ({ s with auth, lastNotifiedUserToken := none }, true)
  | unchanged (response : FIRSecureTokenResponse)
    (hcurrent : s.auth.currentUser.map FIRUser.object = some object)
    (htoken : rawAccessToken s.auth = some response.accessToken) :
    Outcome s object faults (.ok response) (s, false)
  | saved (response : FIRSecureTokenResponse) (auth : FIRAuth)
    (hcurrent : s.auth.currentUser.map FIRUser.object = some object)
    (hsame : SameUser s.auth auth) (htoken : rawAccessToken auth = some response.accessToken) :
    Outcome s object faults (.ok response)
      ({ s with auth }.possiblyPostAuthStateChangeNotification, false)
  | unsaved (response : FIRSecureTokenResponse) (auth : FIRAuth)
    (hcurrent : s.auth.currentUser.map FIRUser.object = some object)
    (hsame : SameUser s.auth auth) (htoken : rawAccessToken auth = some response.accessToken)
    (hnot : ¬ Writable faults s.auth.keychainServices.items
      (s.auth.keychainServices.genericPasswordQueryWithKey userKey)) :
    Outcome s object faults (.ok response) ({ s with auth }, true)

/-- The end of the session of the current user, by its own wish or not. -/
theorem signOutByForce_cases (s : RefreshingAuth) (faults : Faults) {object : ℕ}
    (hcurrent : s.auth.currentUser.map FIRUser.object = some object) :
    ∃ auth : FIRAuth, auth.currentUser = none ∧ auth.objects = s.auth.objects ∧
      s.signOutByForce faults object = { s with auth, lastNotifiedUserToken := none } := by
  obtain ⟨current, huser, -⟩ := Option.map_eq_some_iff.mp hcurrent
  have hnone : ∀ auth : FIRAuth, auth.currentUser = none → rawAccessToken auth = none :=
    fun auth h => by simp [rawAccessToken, h]
  obtain ⟨-, e, hupdate⟩ | ⟨services, -, hupdate, -⟩ :=
    FIRAuth.updateCurrentUser_none huser faults true
  · refine ⟨{ s.auth with currentUser := none }, rfl, rfl, ?_⟩
    simp only [RefreshingAuth.signOutByForce, if_pos hcurrent, FIRAuth.signOutByForce, hupdate]
    exact post_of_none (hnone _ rfl)
  · refine ⟨{ s.auth with keychainServices := services, currentUser := none }, rfl, rfl, ?_⟩
    simp only [RefreshingAuth.signOutByForce, if_pos hcurrent, FIRAuth.signOutByForce, hupdate]
    exact post_of_none (hnone _ rfl)

theorem signOut_cases (s : RefreshingAuth) (faults : Faults) :
    s.signOut faults = s ∨ ∃ auth : FIRAuth, auth.currentUser = none ∧
      auth.objects = s.auth.objects ∧
      s.signOut faults = { s with auth, lastNotifiedUserToken := none } := by
  cases huser : s.auth.currentUser with
  | none => exact .inl (by simp [RefreshingAuth.signOut, huser])
  | some current =>
    obtain ⟨-, e, hupdate⟩ | ⟨services, -, hupdate, -⟩ :=
      FIRAuth.updateCurrentUser_none huser faults false
    · left
      simp [RefreshingAuth.signOut, FIRAuth.signOut, huser, hupdate]
      rw [← huser]
    · refine .inr ⟨{ s.auth with keychainServices := services, currentUser := none }, rfl, rfl, ?_⟩
      simp only [RefreshingAuth.signOut, FIRAuth.signOut, huser, hupdate, Option.isNone_some]
      exact post_of_none (by simp [rawAccessToken])

/-- After an answer the token is the one it has brought. -/
theorem receive_accessToken (service : FIRSecureTokenService) (response : FIRSecureTokenResponse) :
    (service.receive (.ok response)).1.accessToken = some response.accessToken := by
  have haccess : ∀ t : FIRSecureTokenService,
      (t.setRefreshToken response.refreshToken).1.accessToken = t.accessToken := by
    intro t
    obtain hrefresh | ⟨token, -, hrefresh⟩ := t.setRefreshToken_cases response.refreshToken <;>
      simp [hrefresh]
  simp only [FIRSecureTokenService.receive, haccess, FIRSecureTokenService.setAccessToken]
  split_ifs with hsame
  · exact hsame.symm
  · rfl

theorem internalGetToken_outcome (s : RefreshingAuth) (object : ℕ) (faults : Faults)
    (answer : Except TokenError FIRSecureTokenResponse) :
    Outcome s object faults answer (s.internalGetToken object faults answer) := by
  by_cases hcurrent : s.auth.currentUser.map FIRUser.object = some object
  · obtain ⟨user, huser, rfl⟩ := Option.map_eq_some_iff.mp hcurrent
    have hfilter : s.auth.currentUser.filter (fun u => u.object = user.object) = some user := by
      simp [huser]
    cases answer with
    | error error =>
      have heq : s.internalGetToken user.object faults (.error error) =
          (if isInvalid error then s.signOutByForce faults user.object else s, true) := by
        simp [internalGetToken, hfilter, FIRSecureTokenService.receive]
      rw [heq]
      split_ifs
      · obtain ⟨auth, hnone, hobjects, hout⟩ := s.signOutByForce_cases faults hcurrent
        rw [hout]
        exact .signedOut error auth hnone hobjects
      · exact .failed error hcurrent
    | ok response =>
      have htoken := receive_accessToken user.tokenService response
      have hupdated := user.tokenService.receive_updated_iff (.ok response)
      rcases hreceive : user.tokenService.receive (.ok response) with ⟨service, result, updated⟩
      rw [hreceive] at htoken hupdated
      have hresult : result = .ok (some response.accessToken) := by
        have hsecond := congrArg (fun r => r.2.1) hreceive
        simpa [FIRSecureTokenService.receive] using hsecond.symm
      subst hresult
      cases updated with
      | false =>
        have hservice : service = user.tokenService := by simpa using hupdated
        have heq : s.internalGetToken user.object faults (.ok response) = (s, false) := by
          simp [internalGetToken, hfilter, hreceive]
        rw [heq]
        refine .unchanged response hcurrent ?_
        rw [← htoken, hservice]
        simp [rawAccessToken, huser]
      | true =>
        have heq : s.internalGetToken user.object faults (.ok response) =
            s.updateKeychainWithUser faults user.object service := by
          simp [internalGetToken, hfilter, hreceive]
        have hok := updateKeychainWithUser_ok_iff huser faults service
        rw [heq]
        obtain ⟨e, hupdate⟩ | ⟨services, hupdate, -⟩ :=
          FIRAuth.updateKeychainWithUser_spec huser faults service
        · simp only [RefreshingAuth.updateKeychainWithUser, hupdate]
          refine .unsaved response _ hcurrent ⟨by simp [huser], rfl⟩ htoken fun hwritable => ?_
          rw [hupdate] at hok
          cases hok.mpr hwritable
        · simp only [RefreshingAuth.updateKeychainWithUser, hupdate]
          exact .saved response _ hcurrent ⟨by simp [huser], rfl⟩ htoken
  · have hfilter : s.auth.currentUser.filter (fun u => u.object = object) = none := by
      cases huser : s.auth.currentUser with
      | none => rfl
      | some user =>
        have hne : user.object ≠ object := by simpa [huser] using hcurrent
        simp [hne]
    have heq : s.internalGetToken object faults answer = (s, !answer.isOk) := by
      simp [internalGetToken, hfilter]
    rw [heq]
    exact .other answer hcurrent

/-- The calls are of objects that exist, and those of the current user name it. -/
structure Owned (a : FIRAuth) (calls : List RefreshCall) : Prop where
  created : a.Created
  older : ∀ call ∈ calls, call.object < a.objects
  owner : ∀ call ∈ calls, ∀ user, a.currentUser = some user → user.object = call.object →
    user.uid = call.uid

section Owned

variable {a a' : FIRAuth} {calls calls' : List RefreshCall}

theorem Owned.subset (h : Owned a calls) (hsub : calls' ⊆ calls) : Owned a calls' :=
  ⟨h.created, fun call hcall => h.older call (hsub hcall),
    fun call hcall => h.owner call (hsub hcall)⟩

theorem Owned.same (h : Owned a calls) (hsame : SameUser a a') : Owned a' calls := by
  have hback : ∀ u', a'.currentUser = some u' →
      ∃ u, a.currentUser = some u ∧ u.object = u'.object ∧ u.uid = u'.uid := by
    intro u' hu'
    have huser := hsame.user
    rw [hu', Option.map_some] at huser
    obtain ⟨u, hu, hpair⟩ := Option.map_eq_some_iff.mp huser.symm
    exact ⟨u, hu, congrArg Prod.fst hpair, congrArg Prod.snd hpair⟩
  refine ⟨fun u' hu' => ?_, fun call hcall => ?_, fun call hcall u' hu' hobject => ?_⟩
  · obtain ⟨u, hu, hobject, -⟩ := hback u' hu'
    rw [← hobject, hsame.objects]
    exact h.created u hu
  · rw [hsame.objects]
    exact h.older call hcall
  · obtain ⟨u, hu, hobject', huid⟩ := hback u' hu'
    rw [← huid]
    exact h.owner call hcall u hu (hobject'.trans hobject)

theorem Owned.ended (h : Owned a calls) (hnone : a'.currentUser = none)
    (hobjects : a'.objects = a.objects) : Owned a' calls := by
  refine ⟨fun u hu => by simp [hnone] at hu, fun call hcall => ?_, fun _ _ u hu => by
    simp [hnone] at hu⟩
  rw [hobjects]
  exact h.older call hcall

/-- A user that signs in is a new object, which nobody has asked yet. -/
theorem Owned.signInFlow (h : Owned a calls) (faults : Faults) (uid : Uid)
    (tokenService : FIRSecureTokenService) :
    Owned (a.signInFlow faults uid tokenService).1 calls := by
  obtain ⟨e, hsign⟩ | ⟨services, hsign, -⟩ :=
    FIRAuth.signInFlow_spec h.created faults uid tokenService
  · rw [hsign]
    exact ⟨fun u hu => Nat.lt_succ_of_lt (h.created u hu),
      fun call hcall => Nat.lt_succ_of_lt (h.older call hcall), h.owner⟩
  · rw [hsign]
    refine ⟨fun u hu => ?_, fun call hcall => Nat.lt_succ_of_lt (h.older call hcall),
      fun call hcall u hu hobject => ?_⟩
    · obtain rfl : _ = u := Option.some.inj hu
      exact Nat.lt_succ_self _
    · obtain rfl : _ = u := Option.some.inj hu
      exact absurd hobject (Nat.ne_of_gt (h.older call hcall))

end Owned

variable {object : ℕ} {faults : Faults} {answer : Except TokenError FIRSecureTokenResponse}
  {r : RefreshingAuth × Bool}

theorem Outcome.owned (o : Outcome s object faults answer r) (h : Owned s.auth s.calls) :
    Owned r.1.auth r.1.calls := by
  cases o with
  | other answer hother => exact h
  | failed error hcurrent => exact h
  | signedOut error auth hnone hobjects => exact h.ended hnone hobjects
  | unchanged response hcurrent htoken => exact h
  | saved response auth hcurrent hsame htoken => simpa using h.same hsame
  | unsaved response auth hcurrent hsame htoken hnot => exact h.same hsame

theorem owned_step (h : Owned s.auth s.calls) (i : Input) :
    Owned (s.step i).auth (s.step i).calls := by
  cases i with
  | getTokenForcingRefresh =>
    simp only [step, getTokenForcingRefresh]
    split_ifs <;> simpa using h
  | signedIn faults uid tokenService =>
    have hflow := h.signInFlow faults uid tokenService
    simp only [step, signedIn]
    rcases hsign : s.auth.signInFlow faults uid tokenService with ⟨auth, e | ok⟩
    · simpa [hsign] using hflow
    · simpa [hsign] using hflow
  | signOut faults =>
    obtain hsame | ⟨auth, hnone, hobjects, hout⟩ := s.signOut_cases faults
    · simpa [step, hsame] using h
    · simpa [step, hout] using h.ended hnone hobjects
  | didBecomeActive =>
    simp only [step, didBecomeActive]
    split_ifs <;> simpa using h
  | didEnterBackground =>
    simp only [step, didEnterBackground]
    split_ifs <;> exact h
  | taskRuns index =>
    simp only [step, taskRuns]
    split
    · exact h
    · split_ifs
      · exact h
      · refine ⟨h.created, fun call hcall => ?_, fun call hcall u hu hobject => ?_⟩
        · rcases List.mem_append.mp hcall with hold | hnew
          · exact h.older call hold
          · obtain ⟨user, huser, rfl⟩ := Option.map_eq_some_iff.mp (Option.mem_toList.mp hnew)
            exact h.created user huser
        · rcases List.mem_append.mp hcall with hold | hnew
          · exact h.owner call hold u hu hobject
          · obtain ⟨user, huser, rfl⟩ := Option.map_eq_some_iff.mp (Option.mem_toList.mp hnew)
            obtain rfl : user = u := Option.some.inj (huser.symm.trans hu)
            rfl
      · exact h
  | answered index faults answer =>
    simp only [step, answered]
    split
    · exact h
    · rename_i call hcall
      have hout := internalGetToken_outcome { s with calls := s.calls.eraseIdx index } call.object
        faults answer
      have howned := hout.owned (h.subset List.eraseIdx_subset)
      split_ifs <;> simpa using howned
  | refreshed object faults answer =>
    exact (s.internalGetToken_outcome object faults answer).owned h
  | setClock now => exact h

end RefreshingAuth

end Mber.AutoRefresh
