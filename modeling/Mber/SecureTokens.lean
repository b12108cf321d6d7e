import Mathlib.Data.Int.Notation
import Mber.Runs

/-!
The access tokens of FIRSecureTokenService. Calls wait in a
FIRAuthSerialTaskQueue, which a task suspends when it starts and resumes when
it has its token: however many calls there are, one at most is with the
server, and it uses the refresh token that the service holds. A token that is
good for more than five minutes then serves the calls that have waited. Times
are in milliseconds.
-/
namespace Mber.SecureTokens

open Runs

/-- As `initWithRequestConfiguration:accessToken:…` makes it, without an authorization code. -/
structure FIRSecureTokenService where
  refreshToken : String
  accessToken : Option String
  accessTokenExpirationDate : Option ℤ
  deriving DecidableEq

inductive FIRSecureTokenRequest
  | refreshRequest (refreshToken : String)
  | authCodeRequest

inductive TokenError
  | userNotFound
  | userDisabled
  | invalidUserToken
  | userTokenExpired
  | unexpectedResponse
  | other (code : ℤ)

/-- What the server sends; `expires_in` is missing if it is not a string. -/
structure Dictionary where
  refreshToken : Option String
  accessToken : Option String
  expiresIn : Option ℤ

structure FIRSecureTokenResponse where
  refreshToken : Option String
  accessToken : String
  approximateExpirationDate : ℤ
  nonempty : accessToken ≠ ""

def setWithDictionary (now : ℤ) (d : Dictionary) : Except TokenError FIRSecureTokenResponse :=
  let accessToken := d.accessToken.getD ""
  if h : accessToken = "" then .error .unexpectedResponse
  else match d.expiresIn with
    | none => .error .unexpectedResponse
    | some expiresIn => .ok ⟨d.refreshToken, accessToken, now + expiresIn, h⟩

namespace FIRSecureTokenService

def kFiveMinutes : ℤ := 5 * 60 * 1000

def hasValidAccessToken (s : FIRSecureTokenService) (now : ℤ) : Bool :=
  match s.accessToken, s.accessTokenExpirationDate with
  | some _, some date => kFiveMinutes < date - now
  | _, _ => false

def request (s : FIRSecureTokenService) : FIRSecureTokenRequest :=
  if s.refreshToken = "" then .authCodeRequest else .refreshRequest s.refreshToken

/-- An access token that is not new keeps its old expiration date. -/
def setAccessToken (s : FIRSecureTokenService) (accessToken : String) (date : ℤ) :
    FIRSecureTokenService × Bool :=
  if some accessToken = s.accessToken then (s, false)
  else ({ s with accessToken := some accessToken, accessTokenExpirationDate := some date }, true)

def setRefreshToken (s : FIRSecureTokenService) (refreshToken : Option String) :
    FIRSecureTokenService × Bool :=
  match refreshToken with
  | none => (s, false)
  | some token =>
    if token = "" ∨ token = s.refreshToken then (s, false)
    else ({ s with refreshToken := token }, true)

/-- The callback of `requestAccessToken`: the service, the token or the error,
and `tokenUpdated`. -/
def receive (s : FIRSecureTokenService) :
    Except TokenError FIRSecureTokenResponse →
      FIRSecureTokenService × Except TokenError (Option String) × Bool
  | .error e => (s, .error e, false)
  | .ok response =>
    let access := s.setAccessToken response.accessToken response.approximateExpirationDate
    let refresh := access.1.setRefreshToken response.refreshToken
    (refresh.1, .ok (some response.accessToken), access.2 || refresh.2)

theorem setAccessToken_cases (s : FIRSecureTokenService) (accessToken : String) (date : ℤ) :
    s.setAccessToken accessToken date = (s, false) ∨
      s.accessToken ≠ some accessToken ∧ s.setAccessToken accessToken date =
        ({ s with
            accessToken := some accessToken
            accessTokenExpirationDate := some date }, true) := by
  unfold setAccessToken
  split_ifs with hsame
  · exact .inl rfl
  · exact .inr ⟨Ne.symm hsame, rfl⟩

theorem setRefreshToken_cases (s : FIRSecureTokenService) (refreshToken : Option String) :
    s.setRefreshToken refreshToken = (s, false) ∨
      ∃ token, token ≠ s.refreshToken ∧
        s.setRefreshToken refreshToken = ({ s with refreshToken := token }, true) := by
  cases refreshToken with
  | none => exact .inl rfl
  | some token =>
    unfold setRefreshToken
    by_cases hold : token = "" ∨ token = s.refreshToken
    · exact .inl (if_pos hold)
    · exact .inr ⟨token, fun hsame => hold (.inr hsame), if_neg hold⟩

/-- `tokenUpdated` says whether the service has changed. -/
theorem receive_updated_iff (s : FIRSecureTokenService)
    (answer : Except TokenError FIRSecureTokenResponse) :
    (s.receive answer).2.2 = true ↔ (s.receive answer).1 ≠ s := by
  cases answer with
  | error e => simp [receive]
  | ok response =>
    simp only [receive]
    obtain haccess | ⟨hnew, haccess⟩ :=
      s.setAccessToken_cases response.accessToken response.approximateExpirationDate
    · rw [haccess]
      obtain hrefresh | ⟨token, htoken, hrefresh⟩ := s.setRefreshToken_cases response.refreshToken
      · simp [hrefresh]
      · have hne : ({ s with refreshToken := token } : FIRSecureTokenService) ≠ s :=
          fun h => htoken (congrArg refreshToken h)
        simp [hrefresh, hne]
    · rw [haccess]
      have hkeeps : ∀ t : FIRSecureTokenService,
          t.accessToken = some response.accessToken → t ≠ s :=
        fun t ht h => hnew ((congrArg accessToken h).symm.trans ht)
      obtain hrefresh | ⟨token, -, hrefresh⟩ := FIRSecureTokenService.setRefreshToken_cases
        { s with
          accessToken := some response.accessToken
          accessTokenExpirationDate := some response.approximateExpirationDate }
        response.refreshToken
      · rw [hrefresh]
        simpa using hkeeps _ rfl
      · rw [hrefresh]
        simpa using hkeeps _ rfl

end FIRSecureTokenService

/-- A token service with its task queue. Calls are numbered; `inFlight` holds
the requests that the server has not answered. -/
structure Fetches where
  tokenService : FIRSecureTokenService
  now : ℤ
  calls : ℕ := 0
  waiting : List (ℕ × Bool) := []
  suspended : Bool := false
  inFlight : List (ℕ × FIRSecureTokenRequest) := []
  answers : List (ℕ × Except TokenError (Option String)) := []

inductive Input
  | fetchAccessToken (forceRefresh : Bool)
  | startTask
  | respond (call : ℕ) (answer : Except TokenError Dictionary)
  | setClock (now : ℤ)

namespace Fetches

def fetchAccessTokenForcingRefresh (s : Fetches) (forceRefresh : Bool) : Fetches :=
  { s with calls := s.calls + 1, waiting := s.waiting ++ [(s.calls, forceRefresh)] }

/-- A task suspends the queue; one that finds a valid token resumes it at once. -/
def startTask (s : Fetches) : Fetches :=
  if s.suspended then s
  else match s.waiting with
    | [] => s
    | (call, forceRefresh) :: rest =>
      if !forceRefresh && s.tokenService.hasValidAccessToken s.now then
        { s with
          waiting := rest
          answers := s.answers ++ [(call, .ok s.tokenService.accessToken)] }
      else
        { s with
          waiting := rest
          suspended := true
          inFlight := s.inFlight ++ [(call, s.tokenService.request)] }

/-- What the callback of `requestAccessToken` makes of an answer. -/
def receive (s : Fetches) (answer : Except TokenError Dictionary) :
    FIRSecureTokenService × Except TokenError (Option String) × Bool :=
  s.tokenService.receive (answer.bind (setWithDictionary s.now))

/-- The server answers a request; the task resumes the queue. -/
def respond (s : Fetches) (call : ℕ) (answer : Except TokenError Dictionary) : Fetches :=
  if call ∈ s.inFlight.map Prod.fst then
    { s with
      tokenService := (s.receive answer).1
      suspended := false
      inFlight := s.inFlight.filter (fun p => p.1 ≠ call)
      answers := s.answers ++ [(call, (s.receive answer).2.1)] }
  else s

def step (s : Fetches) : Input → Fetches
  | .fetchAccessToken forceRefresh => s.fetchAccessTokenForcingRefresh forceRefresh
  | .startTask => s.startTask
  | .respond call answer => s.respond call answer
  | .setClock now => { s with now := now }

/-- The calls in the order in which they are answered, as far as they are. -/
def order (s : Fetches) : List ℕ :=
  s.answers.map Prod.fst ++ s.inFlight.map Prod.fst ++ s.waiting.map Prod.fst

/-- No call is lost or overtaken, and the queue is suspended while a request,
the only one, is with the server. -/
structure Ordered (s : Fetches) : Prop where
  order_eq : s.order = List.range s.calls
  alone : s.inFlight.length = if s.suspended then 1 else 0
  current : ∀ p ∈ s.inFlight, p.2 = s.tokenService.request

variable {s : Fetches}

theorem Ordered.inFlight_nil (h : s.Ordered) (hfree : s.suspended = false) : s.inFlight = [] := by
  have hlength := h.alone
  rw [hfree] at hlength
  exact List.length_eq_zero_iff.mp hlength

theorem Ordered.startTask (h : s.Ordered) : s.startTask.Ordered := by
  unfold Fetches.startTask
  cases hsuspended : s.suspended with
  | true => simpa using h
  | false =>
    have hflight := h.inFlight_nil hsuspended
    cases hwaiting : s.waiting with
    | nil => simpa using h
    | cons first rest =>
      obtain ⟨call, forceRefresh⟩ := first
      have horder := h.order_eq
      simp only [order, hflight, hwaiting, List.map_nil, List.map_cons, List.append_nil] at horder
      simp only [Bool.false_eq_true, if_false]
      split_ifs
      · refine ⟨?_, ?_, ?_⟩
        · simpa [order, hflight] using horder
        · simp [hflight]
        · simp [hflight]
      · refine ⟨?_, ?_, ?_⟩
        · simpa [order, hflight] using horder
        · simp [hflight]
        · simp [hflight]

/-- The one request there is. -/
theorem Ordered.inFlight_eq (h : s.Ordered) {call : ℕ} (hcall : call ∈ s.inFlight.map Prod.fst) :
    s.inFlight = [(call, s.tokenService.request)] := by
  obtain ⟨p, hp, rfl⟩ := List.mem_map.mp hcall
  have hlength := h.alone
  have hpos := List.length_pos_of_mem hp
  have hone : s.inFlight.length = 1 := by
    split_ifs at hlength <;> omega
  obtain ⟨q, hq⟩ := List.length_eq_one_iff.mp hone
  rw [hq] at hp ⊢
  rw [List.mem_singleton] at hp
  subst hp
  rw [← h.current p (hq ▸ List.mem_singleton_self p)]

theorem Ordered.respond (h : s.Ordered) (call : ℕ) (answer : Except TokenError Dictionary) :
    (s.respond call answer).Ordered := by
  unfold Fetches.respond
  split_ifs with hcall
  · have hflight := h.inFlight_eq hcall
    have horder := h.order_eq
    simp only [order, hflight, List.map_cons, List.map_nil] at horder
    refine ⟨?_, ?_, ?_⟩
    · simpa [order, hflight] using horder
    · simp [hflight]
    · simp [hflight]
  · exact h

theorem Ordered.step (h : s.Ordered) (i : Input) : (s.step i).Ordered := by
  cases i with
  | fetchAccessToken forceRefresh =>
    refine ⟨?_, h.alone, h.current⟩
    have horder := h.order_eq
    simp only [order] at horder
    simp only [Fetches.step, fetchAccessTokenForcingRefresh, order, List.map_append, List.map_cons,
      List.map_nil, List.range_succ, ← horder, List.append_assoc]
  | startTask => exact h.startTask
  | respond call answer => exact h.respond call answer
  | setClock now => exact ⟨h.order_eq, h.alone, h.current⟩

theorem ordered_run (tokenService : FIRSecureTokenService) (now : ℤ) (inputs : List Input) :
    (run step { tokenService, now } inputs).Ordered :=
  run_invariant Ordered (fun _ i h => h.step i) _ inputs ⟨rfl, rfl, fun _ hp => by cases hp⟩

/-- However the calls, the tasks, the answers of the server and the clock
interleave, the calls are answered once each and in their order, one request at
most is with the server, and it carries the refresh token the service holds. -/
theorem fetched_in_order (tokenService : FIRSecureTokenService) (now : ℤ) (inputs : List Input) :
    let s := run step { tokenService, now } inputs
    s.answers.map Prod.fst ++ s.inFlight.map Prod.fst ++ s.waiting.map Prod.fst =
        List.range s.calls ∧
      s.inFlight.length ≤ 1 ∧ ∀ p ∈ s.inFlight, p.2 = s.tokenService.request := by
  intro s
  have h : s.Ordered := ordered_run tokenService now inputs
  refine ⟨h.order_eq, ?_, h.current⟩
  have halone := h.alone
  split_ifs at halone <;> omega

/-- Each waiting task is started, and what it asks for is answered. -/
def turns (answer : ℕ → Except TokenError Dictionary) (waiting : List (ℕ × Bool)) : List Input :=
  waiting.flatMap fun p => [.startTask, .respond p.1 (answer p.1)]

/-- First the request that is with the server. -/
def drain (answer : ℕ → Except TokenError Dictionary) (s : Fetches) : List Input :=
  s.inFlight.map (fun p => .respond p.1 (answer p.1)) ++ turns answer s.waiting

/-- A turn of a free queue takes the first task to its end. -/
theorem turn (hfree : s.suspended = false) (hflight : s.inFlight = []) {call : ℕ}
    {forceRefresh : Bool} {rest : List (ℕ × Bool)}
    (hwaiting : s.waiting = (call, forceRefresh) :: rest)
    (answer : Except TokenError Dictionary) :
    (s.startTask.respond call answer).suspended = false ∧
      (s.startTask.respond call answer).inFlight = [] ∧
      (s.startTask.respond call answer).waiting = rest ∧
      (s.startTask.respond call answer).calls = s.calls := by
  unfold startTask
  rw [hfree, hwaiting]
  simp only [Bool.false_eq_true, if_false]
  split_ifs
  · simp [respond, hflight]
  · simp [respond, hflight]

/-- With a valid token the waiting tasks ask for nothing. -/
theorem served_from_cache (waiting : List (ℕ × Bool)) (hfree : s.suspended = false)
    (hwaiting : s.waiting = waiting) (hforce : ∀ p ∈ waiting, p.2 = false)
    (hvalid : s.tokenService.hasValidAccessToken s.now = true) :
    (run step s (List.replicate waiting.length .startTask)).answers =
      s.answers ++ waiting.map fun p => (p.1, .ok s.tokenService.accessToken) := by
  induction waiting generalizing s with
  | nil => simp [run]
  | cons first rest ih =>
    obtain ⟨hfirst, hrest⟩ := List.forall_mem_cons.mp hforce
    obtain ⟨call, forceRefresh⟩ := first
    obtain rfl : forceRefresh = false := hfirst
    obtain ⟨t, ht⟩ : ∃ t : Fetches, t = { s with
        waiting := rest
        answers := s.answers ++ [(call, .ok s.tokenService.accessToken)] } := ⟨_, rfl⟩
    have hstart : s.startTask = t := by
      simp [startTask, hfree, hwaiting, hvalid, ht]
    have hcached : (run step t (List.replicate rest.length .startTask)).answers =
        t.answers ++ rest.map fun p => (p.1, .ok t.tokenService.accessToken) :=
      ih (by rw [ht]; exact hfree) (by rw [ht]) hrest (by rw [ht]; exact hvalid)
    rw [List.length_cons, List.replicate_succ]
    change (run step s.startTask (List.replicate rest.length .startTask)).answers = _
    rw [hstart, hcached, ht]
    simp

theorem startTasks_suspended (hsuspended : s.suspended = true) (n : ℕ) :
    run step s (List.replicate n .startTask) = s := by
  induction n with
  | zero => rfl
  | succ n ih =>
    have hstart : s.startTask = s := by simp [startTask, hsuspended]
    simpa only [List.replicate_succ, run, step, hstart] using ih

/-- The answer of the server to the one request serves all the calls that have
waited for it, and need not be made to refresh, exactly if it leaves a token
that is good for more than five minutes. The clock stands still while they are
served. -/
theorem one_request_serves_iff (tokenService : FIRSecureTokenService) (now : ℤ)
    (inputs : List Input) (call : ℕ) (answer : Except TokenError Dictionary) (s : Fetches)
    (hs : run step { tokenService, now } inputs = s) (hcall : call ∈ s.inFlight.map Prod.fst)
    (hwaiting : s.waiting ≠ []) (hforce : ∀ p ∈ s.waiting, p.2 = false) :
    (run step (s.respond call answer) (List.replicate s.waiting.length .startTask)).answers =
        (s.respond call answer).answers ++
          s.waiting.map (fun p => (p.1, .ok (s.respond call answer).tokenService.accessToken)) ↔
      (s.respond call answer).tokenService.hasValidAccessToken s.now = true := by
  have h : s.Ordered := hs ▸ ordered_run tokenService now inputs
  have hflight := h.inFlight_eq hcall
  obtain ⟨t, ht⟩ : ∃ t, t = s.respond call answer := ⟨_, rfl⟩
  obtain ⟨hfree, hsame, hclock⟩ : t.suspended = false ∧ t.waiting = s.waiting ∧ t.now = s.now := by
    rw [ht]
    simp [respond, hflight]
  rw [← ht, ← hclock, ← hsame]
  rw [← hsame] at hwaiting hforce
  refine ⟨fun hanswers => ?_, served_from_cache t.waiting hfree rfl hforce⟩
  by_contra hinvalid
  -- The first task is with the server again, and the others wait.
  obtain ⟨p, rest, hlist⟩ := List.exists_cons_of_ne_nil hwaiting
  obtain ⟨hstuck, hnone⟩ : t.startTask.suspended = true ∧ t.startTask.answers = t.answers := by
    simp [startTask, hfree, hlist, hinvalid]
  have hrun : run step t (List.replicate t.waiting.length .startTask) = t.startTask := by
    rw [hlist, List.length_cons, List.replicate_succ]
    exact startTasks_suspended hstuck rest.length
  rw [hrun, hnone, hlist] at hanswers
  have hlength := congrArg List.length hanswers
  simp at hlength

/-- Two calls wait for the token that a third one has asked for. -/
theorem one_request_serves_three :
    let s := run step { tokenService := ⟨"refresh", none, none⟩, now := 0 }
      [.fetchAccessToken false, .startTask, .fetchAccessToken false, .fetchAccessToken false]
    let d : Dictionary := ⟨none, some "access", some 3600000⟩
    (run step (s.respond 0 (.ok d)) (List.replicate s.waiting.length .startTask)).answers =
        (s.respond 0 (.ok d)).answers ++
          s.waiting.map (fun p => (p.1, .ok (s.respond 0 (.ok d)).tokenService.accessToken)) ↔
      (s.respond 0 (.ok d)).tokenService.hasValidAccessToken s.now = true :=
  one_request_serves_iff ⟨"refresh", none, none⟩ 0
    [.fetchAccessToken false, .startTask, .fetchAccessToken false, .fetchAccessToken false] 0
    (.ok ⟨none, some "access", some 3600000⟩) _ rfl (by decide) (by decide) (by decide)

end Fetches

end Mber.SecureTokens
