import Mber.RefreshAnswers

/-!
The scheduled refresh goes on for as long as someone is signed in. Some task or
call is always of use, except where the app is not active and will notice when
it is.
-/
namespace Mber.AutoRefresh

open Runs Firebase Keychain KeychainServices SecureTokens AuthSession TokenRefresh

namespace RefreshingAuth

variable {s : RefreshingAuth} {object : ℕ} {faults : Faults}
  {answer : Except TokenError FIRSecureTokenResponse} {r : RefreshingAuth × Bool}

/-- Nothing is under way only where the app is not active and will notice when it is. -/
def Tended (s : RefreshingAuth) : Prop :=
  s.autoRefreshTokens = true →
    s.Live ∨ (s.isAppInBackground = true ∧ s.autoRefreshScheduled = false)

theorem Tended.goesOn (h : s.Tended) : s.GoesOn := by
  intro henabled hactive
  rcases h henabled with hlive | ⟨hbackground, -⟩
  · exact hlive
  · simp [hactive] at hbackground

theorem Live.tended (h : s.Live) : s.Tended := fun _ => .inl h

variable {t : RefreshingAuth}

theorem Live.mono (h : s.Live) (htoken : rawAccessToken t.auth = rawAccessToken s.auth)
    (hobject : t.auth.currentUser.map FIRUser.object = s.auth.currentUser.map FIRUser.object)
    (htasks : s.tasks ⊆ t.tasks) (hcalls : s.calls ⊆ t.calls) : t.Live := by
  intro token hsome
  rw [htoken] at hsome
  obtain ⟨task, htask, rfl⟩ | ⟨call, hcall, hcurrent⟩ := h token hsome
  · exact .inl ⟨task, htasks htask, rfl⟩
  · exact .inr ⟨call, hcalls hcall, hobject.trans hcurrent⟩

/-- A notification of something new schedules a task. -/
theorem tended_post_of_ne (hne : s.lastNotifiedUserToken ≠ rawAccessToken s.auth) :
    s.possiblyPostAuthStateChangeNotification.Tended := by
  unfold possiblyPostAuthStateChangeNotification
  rw [if_neg hne]
  split_ifs with henabled
  · exact (scheduled_live _ _ _ _).tended
  · exact fun henabled' => absurd henabled' henabled

theorem Tended.post (h : s.Tended) : s.possiblyPostAuthStateChangeNotification.Tended := by
  by_cases hsame : s.lastNotifiedUserToken = rawAccessToken s.auth
  · rw [possiblyPostAuthStateChangeNotification, if_pos hsame]
    exact h
  · exact tended_post_of_ne hsame

theorem Tended.auth (h : s.Tended) {auth : FIRAuth} (hsame : SameUser s.auth auth)
    (htoken : rawAccessToken auth = rawAccessToken s.auth) : { s with auth }.Tended := by
  intro henabled
  rcases h henabled with hlive | hwaits
  · exact .inl (hlive.mono htoken hsame.object_eq (List.Subset.refl _) (List.Subset.refl _))
  · exact .inr hwaits

/-- A call that is not of the current user object is not missed. -/
theorem Tended.erase (h : s.Tended) {index : ℕ} {call : RefreshCall}
    (hcall : s.calls[index]? = some call)
    (hother : s.auth.currentUser.map FIRUser.object ≠ some call.object) :
    { s with calls := s.calls.eraseIdx index }.Tended := by
  intro henabled
  rcases h henabled with hlive | hwaits
  · left
    intro token htoken
    obtain htask | ⟨call', hmem, hcurrent⟩ := hlive token htoken
    · exact .inl htask
    · obtain ⟨j, hj⟩ := List.mem_iff_getElem?.mp hmem
      refine .inr ⟨call', List.mem_eraseIdx_iff_getElem?.mpr ⟨j, ?_, hj⟩, hcurrent⟩
      rintro rfl
      obtain rfl : call = call' := Option.some.inj (hcall.symm.trans hj)
      exact hother hcurrent
  · exact .inr hwaits

theorem Tended.signedIn (h : s.Tended) (howned : Owned s.auth s.calls) {uid : Uid}
    {tokenService : FIRSecureTokenService}
    (hrenews : s.Renews (.signedIn faults uid tokenService)) :
    (s.signedIn faults uid tokenService).Tended := by
  unfold RefreshingAuth.signedIn
  obtain ⟨e, hsign⟩ | ⟨services, hsign, -⟩ :=
    FIRAuth.signInFlow_spec howned.created faults uid tokenService
  · rw [hsign]
    exact h
  · rw [hsign]
    cases htoken : tokenService.accessToken with
    | none =>
      refine Live.tended (live_of_none ?_)
      simpa [rawAccessToken] using htoken
    | some token =>
      refine tended_post_of_ne fun hsame => hrenews token htoken ?_
      simpa [rawAccessToken, htoken] using hsame.symm

/-- Others may have the tokens of the current user refreshed. -/
theorem Outcome.tended (o : Outcome s object faults answer r) (h : s.Tended)
    (hrenews : s.Renews (.refreshed object faults answer)) : r.1.Tended := by
  cases o with
  | other answer hother => exact h
  | failed error hcurrent => exact h
  | signedOut error auth hnone hobjects =>
    exact Live.tended (live_of_none (by simp [rawAccessToken, hnone]))
  | unchanged response hcurrent htoken => exact h
  | saved response auth hcurrent hsame htoken =>
    rcases hrenews hcurrent with hold | ⟨hnew, -⟩
    · exact (h.auth hsame (htoken.trans hold)).post
    · exact tended_post_of_ne fun hlast => hnew.2 (hlast.trans htoken).symm
  | unsaved response auth hcurrent hsame htoken hnot =>
    rcases hrenews hcurrent with hold | ⟨-, hwritable⟩
    · exact h.auth hsame (htoken.trans hold)
    · exact absurd hwritable hnot

/-- A task's call ends in a new token, or in an error, which is tried again. -/
theorem Tended.answered (h : s.Tended) (howned : Owned s.auth s.calls) {index : ℕ}
    (hrenews : s.Renews (.answered index faults answer)) :
    (s.answered index faults answer).Tended := by
  unfold RefreshingAuth.answered
  cases hcall : s.calls[index]? with
  | none => exact h
  | some call =>
    have hmem : call ∈ s.calls := List.mem_of_getElem? hcall
    have huid : s.auth.currentUser.map FIRUser.object = some call.object →
        s.auth.currentUser.map (·.uid) = some call.uid := by
      intro hcurrent
      obtain ⟨user, huser, hobject⟩ := Option.map_eq_some_iff.mp hcurrent
      rw [huser, Option.map_some, howned.owner call hmem user huser hobject]
    have hout := internalGetToken_outcome { s with calls := s.calls.eraseIdx index } call.object
      faults answer
    simp only
    generalize internalGetToken { s with calls := s.calls.eraseIdx index } call.object faults
      answer = r at hout ⊢
    by_cases hretry : r.1.auth.currentUser.map (·.uid) = some call.uid ∧ r.2 = true
    · rw [if_pos hretry]
      exact (scheduled_live _ _ _ _).tended
    · rw [if_neg hretry]
      cases hout with
      | other answer hother => exact h.erase hcall hother
      | failed error hcurrent => exact absurd ⟨huid hcurrent, rfl⟩ hretry
      | signedOut error auth hnone hobjects =>
        exact Live.tended (live_of_none (by simp [rawAccessToken, hnone]))
      | unchanged response hcurrent htoken =>
        exact absurd htoken.symm (hrenews call hcall hcurrent).1
      | saved response auth hcurrent hsame htoken =>
        exact tended_post_of_ne fun hlast =>
          (hrenews call hcall hcurrent).2 (hlast.trans htoken).symm
      | unsaved response auth hcurrent hsame htoken hnot =>
        exact absurd ⟨hsame.uid_eq.trans (huid hcurrent), rfl⟩ hretry

/-- A task that runs for the current token makes a call, or leaves it to the
app's becoming active. -/
theorem Tended.taskRuns (h : s.Tended) (index : ℕ) : (s.taskRuns index).Tended := by
  unfold RefreshingAuth.taskRuns
  cases htask : s.tasks[index]? with
  | none => exact h
  | some task =>
    simp only
    split_ifs with hcurrent hbackground
    · exact fun _ => .inr ⟨hbackground, rfl⟩
    · refine Live.tended fun token htoken => .inr ?_
      obtain ⟨user, huser, -⟩ := Option.bind_eq_some_iff.mp htoken
      exact ⟨⟨user.object, user.uid, task.delay, task.retry, task.failures⟩,
        by simp [show s.auth.currentUser = some user from huser],
        by simp [show s.auth.currentUser = some user from huser]⟩
    · intro henabled
      rcases h henabled with hlive | hwaits
      · left
        intro token htoken
        obtain ⟨task', hmem, htask'⟩ | hcalls := hlive token htoken
        · obtain ⟨j, hj⟩ := List.mem_iff_getElem?.mp hmem
          refine .inl ⟨task', List.mem_eraseIdx_iff_getElem?.mpr ⟨j, ?_, hj⟩, htask'⟩
          rintro rfl
          obtain rfl : task = task' := Option.some.inj (htask.symm.trans hj)
          exact hcurrent (htask' ▸ htoken)
        · exact .inr hcalls
      · exact .inr hwaits

theorem Tended.didBecomeActive (h : s.Tended) : s.didBecomeActive.Tended := by
  unfold RefreshingAuth.didBecomeActive
  split_ifs with henabled hscheduled
  · -- what is said to be scheduled is under way
    rcases h henabled with hlive | ⟨-, hnot⟩
    · exact Live.tended hlive
    · simp [hscheduled] at hnot
  · exact (scheduled_live _ _ _ _).tended
  · exact h

theorem tended_step (h : s.Tended) (howned : Owned s.auth s.calls) {i : Input}
    (hrenews : s.Renews i) : (s.step i).Tended := by
  cases i with
  | getTokenForcingRefresh =>
    simp only [step, getTokenForcingRefresh]
    split_ifs
    · exact h
    · exact (scheduled_live _ _ _ _).tended
  | signedIn faults uid tokenService => exact h.signedIn howned hrenews
  | signOut faults =>
    obtain hsame | ⟨auth, hnone, -, hout⟩ := s.signOut_cases faults
    · rwa [step, hsame]
    · rw [step, hout]
      exact Live.tended (live_of_none (by simp [rawAccessToken, hnone]))
  | didBecomeActive => exact h.didBecomeActive
  | didEnterBackground =>
    simp only [step, didEnterBackground]
    split_ifs
    · intro henabled
      rcases h henabled with hlive | ⟨-, hnot⟩
      · exact .inl hlive
      · exact .inr ⟨rfl, hnot⟩
    · exact h
  | taskRuns index => exact h.taskRuns index
  | answered index faults answer => exact h.answered howned hrenews
  | refreshed object faults answer =>
    exact (s.internalGetToken_outcome object faults answer).tended h hrenews
  | setClock now => exact h

/-- As long as tokens are renewed, every run goes on to refresh the tokens of
whoever is signed in, in whatever order the tasks run and the server answers,
through errors, sign-ins and sign-outs, and stays in the background. -/
theorem refresh_goes_on (a : FIRAuth) (faults : Faults) (inputs : List Input)
    (hrenews : EveryStep step Renews (launched a faults) inputs) :
    EveryState step GoesOn (launched a faults) inputs := by
  refine everyState_of_everyStep (fun s => s.Tended ∧ Owned s.auth s.calls)
    (fun s hs => hs.1.goesOn)
    (fun s i hs hi => ⟨tended_step hs.1 hs.2 hi, owned_step hs.2 i⟩) _ inputs hrenews ?_
  refine ⟨fun henabled => by simp [launched] at henabled, ?_⟩
  exact ⟨(a.launch_spec faults).2.1, fun _ hcall => by simp [launched] at hcall,
    fun _ hcall => by simp [launched] at hcall⟩

/-- A user signs in, the refresh is switched on, an attempt fails and the next one succeeds. -/
theorem refresh_goes_on_after_error :
    EveryState step GoesOn (launched { keychainServices := ⟨"auth", [], fun _ => false⟩ } {})
      [.signedIn {} ⟨"u1", by decide⟩ ⟨"r", some "a1", some 3600000⟩, .getTokenForcingRefresh,
        .taskRuns 0, .answered 0 {} (.error (.other 17020)), .taskRuns 0,
        .answered 0 {} (.ok ⟨some "r", "a2", 7200000, by decide⟩)] := by
  refine refresh_goes_on _ _ _ ⟨?_, trivial, trivial, trivial, trivial, ?_, trivial⟩
  · rintro token ⟨⟩
    decide
  · exact fun _ _ _ => ⟨by decide, by decide⟩

/-- A token that somebody else has had refreshed but that was not saved: the
task finds its own token out of use, and nothing is scheduled in its place. -/
example :
    let s := run step (launched { keychainServices := ⟨"auth", [], fun _ => false⟩ } {})
      [.signedIn {} ⟨"u1", by decide⟩ ⟨"r", some "a1", some 3600000⟩, .getTokenForcingRefresh,
        .refreshed 0 { update := some (-25308) } (.ok ⟨some "r", "a2", 7200000, by decide⟩),
        .taskRuns 0, .didEnterBackground, .didBecomeActive]
    s.tasks = [] ∧ s.calls.length = 0 ∧ s.autoRefreshScheduled = true := by
  decide

end RefreshingAuth

end Mber.AutoRefresh
