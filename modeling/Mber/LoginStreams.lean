import Mber.LoginIndicator
import Mber.DeliveredEvents

/-!
What the subscribers of `isLoginCompleted` hear in a whole run, taps after a
failure included: some answers `true`, and after the first failure of a
current attempt one `false` and the completion. All subscribers hear the same.
The attempts are numbered one after the other, and end with the failure.
-/
namespace Mber.LoginStreams

open Runs Sinks Delivery AuthManager Firebase LoginPipeline LoginRefinement LoginIndicator

/-- The events of one input, for each subscriber that they reach. -/
def events (s : LoginScreen) : LoginInput → List (Subscriber × Event AuthError Bool)
  | .signInCallback attempt result =>
    if attempt ∈ s.pending then (s.viewModel.deliverAll attempt (signInCallback result)).2 else []
  | _ => []

/-- Everything that a subscriber hears in a run. -/
def stream (k : Subscriber) (s : LoginScreen) (inputs : List LoginInput) :
    List (Event AuthError Bool) :=
  (trace LoginScreen.step (fun s i => eventsFor k (events s i)) s inputs).flatten

def attempt? : LoginOutput → Option ℕ
  | .performLogin attempt _ _ => some attempt
  | _ => none

/-- The attempts that are started in a run. -/
def attempts (s : LoginScreen) (inputs : List LoginInput) : List ℕ :=
  (trace LoginScreen.step (fun s i => (s.outputs i).filterMap attempt?) s inputs).flatten

/-- A tap starts nothing. -/
def Over (s : LoginScreen) : Prop := s.viewModel.sampled = none

variable {observers : List Subscriber} {s : LoginScreen} {k : Subscriber}

theorem over_iff {r : Reference} (h : Agrees observers s r) : Over s ↔ r.failed = true := by
  cases hf : r.failed with
  | false => simp [Over, (h.running hf).sampled]
  | true => simp [Over, (h.stopped hf).1.sampled]

/-- The events of one input: none, a success, or the failure that ends it all. -/
theorem events_cases (h : Known observers s) (i : LoginInput) :
    (events s i = [] ∧ (Over (s.step i) ↔ Over s)) ∨
      (¬ Over s ∧ ¬ Over (s.step i) ∧ events s i = observers.map (fun j => (j, .next true))) ∨
      (¬ Over s ∧ Over (s.step i) ∧ events s i =
        observers.map (fun j => (j, .next false)) ++ observers.map (fun j => (j, .completed))) := by
  obtain ⟨r, hagree, -⟩ := h
  cases i with
  | send f text =>
    exact .inl ⟨rfl, (over_iff (agrees_send hagree f text)).trans (over_iff hagree).symm⟩
  | loginButtonTapped =>
    refine .inl ⟨rfl, ?_⟩
    cases hf : r.failed with
    | false =>
      exact (over_iff (agrees_tap hagree hf)).trans (over_iff hagree).symm
    | true =>
      exact (over_iff (agrees_tap_after_failure hagree hf)).trans (over_iff hagree).symm
  | signInCallback attempt result =>
    have hnext := agrees_callback hagree attempt result
    by_cases hin : attempt ∈ r.pending
    · have hin' : attempt ∈ s.pending := hagree.pending_eq ▸ hin
      by_cases hcur : attempt = r.attempts
      · subst hcur
        have hf := hagree.not_failed hin
        have hrunning := hagree.running hf
        rw [over_iff hagree, over_iff hnext]
        cases result with
        | ok uid =>
          refine .inr (.inl ⟨by simp [hf], by simp [Reference.step, hin, hf, succeeded], ?_⟩)
          simp only [events, hin', if_true, (hrunning.signIn_ok uid).1]
        | error error =>
          refine .inr (.inr ⟨by simp [hf], by simp [Reference.step, hin, succeeded], ?_⟩)
          simp only [events, hin', if_true, (hrunning.signIn_error error).1]
      · have hlt : attempt < r.attempts := by
          have hle := hagree.pending_le attempt hin
          omega
        refine .inl ⟨?_, ?_⟩
        · rw [events, if_pos hin']
          cases hf : r.failed with
          | false => exact ((hagree.running hf).deliverAll_older hlt _).1
          | true => exact ((hagree.stopped hf).1.deliverAll attempt _).1
        · rw [over_iff hagree, over_iff hnext]
          simp [Reference.step, hin, hcur]
    · have hin' : attempt ∉ s.pending := hagree.pending_eq ▸ hin
      have hsame : s.step (.signInCallback attempt result) = s := if_neg hin'
      exact .inl ⟨if_neg hin', by rw [hsame]⟩

theorem over_run (h : Known observers s) (hover : Over s) (inputs : List LoginInput) :
    Over (run LoginScreen.step s inputs) := by
  refine (run_invariant (fun t => Known observers t ∧ Over t) ?_ s inputs ⟨h, hover⟩).2
  rintro t i ⟨hknown, hover⟩
  refine ⟨hknown.step i, ?_⟩
  rcases events_cases hknown i with ⟨-, hsame⟩ | ⟨hgoes, -, -⟩ | ⟨hgoes, -, -⟩
  · exact hsame.mpr hover
  · exact absurd hover hgoes
  · exact absurd hover hgoes

/-- The answers that a running pipeline gives, and how it ends. -/
def answered (n : ℕ) (ended : Prop) [Decidable ended] : List (Event AuthError Bool) :=
  List.replicate n (.next true) ++ if ended then [.next false, .completed] else []

instance (s : LoginScreen) : Decidable (Over s) := by
  unfold Over
  infer_instance

theorem stream_run (hnodup : observers.Nodup) (inputs : List LoginInput) (h : Known observers s) :
    ∃ n, ∀ k ∈ observers, stream k s inputs =
      if Over s then [] else answered n (Over (run LoginScreen.step s inputs)) := by
  induction inputs generalizing s with
  | nil =>
    refine ⟨0, fun k _ => ?_⟩
    by_cases hover : Over s <;> simp [stream, trace, answered, run, hover]
  | cons i rest ih =>
    obtain ⟨n, hrest⟩ := ih (h.step i)
    have hsplit : ∀ k, stream k s (i :: rest) =
        eventsFor k (events s i) ++ stream k (s.step i) rest := fun _ => rfl
    rcases events_cases h i with
      ⟨hnone, hover⟩ | ⟨hgoes, hgoes', hevents⟩ | ⟨hgoes, hover', hevents⟩
    · refine ⟨n, fun k hk => ?_⟩
      rw [hsplit k, hrest k hk, hnone, run]
      simp only [hover]
      rfl
    · refine ⟨n + 1, fun k hk => ?_⟩
      rw [hsplit k, hrest k hk, hevents, ObserveOn.eventsFor_of_mem hnodup hk, run]
      simp [answered, hgoes, hgoes', List.replicate_succ]
    · refine ⟨0, fun k hk => ?_⟩
      have hended := over_run (h.step i) hover' rest
      rw [hsplit k, hrest k hk, hevents, ObserveOn.eventsFor_append,
        ObserveOn.eventsFor_of_mem hnodup hk, ObserveOn.eventsFor_of_mem hnodup hk, run]
      simp [answered, hgoes, hover', hended]

/-- A tap starts the next attempt if the pipeline is running; nothing else starts one. -/
theorem attempts_cases (h : Known observers s) (i : LoginInput) :
    ((s.outputs i).filterMap attempt? = [] ∧
        (s.step i).viewModel.current = s.viewModel.current) ∨
      ((s.outputs i).filterMap attempt? = [s.viewModel.current + 1] ∧
        (s.step i).viewModel.current = s.viewModel.current + 1) := by
  cases i with
  | send f text => exact .inl ⟨rfl, LoginViewModel.send_current _ f text⟩
  | loginButtonTapped =>
    obtain ⟨r, hagree, hcurrent⟩ := h
    cases hf : r.failed with
    | false =>
      have hrunning := hagree.running hf
      have hlatest := hrunning.tapped.follows.latest_eq
      refine .inr ⟨?_, by rw [hcurrent]; exact hlatest⟩
      simp [LoginScreen.outputs, hrunning.sampled, hlatest, hcurrent, attempt?]
    | true =>
      have hstopped := (hagree.stopped hf).1
      refine .inl ⟨by rw [tap_after_failure hagree hf]; rfl, ?_⟩
      simp [LoginScreen.step, hstopped.tapped]
  | signInCallback attempt result =>
    refine .inl ⟨?_, callback_current s attempt result⟩
    have hvalues : ∀ all : List (Subscriber × Event AuthError Bool),
        (all.filterMap value?).filterMap attempt? = [] := by
      intro all
      rw [List.filterMap_filterMap, List.filterMap_eq_nil_iff]
      rintro ⟨k, e⟩ -
      cases e <;> rfl
    simp only [LoginScreen.outputs]
    split_ifs
    · exact hvalues _
    · rfl

/-- The attempts of a run follow the current one. -/
theorem attempts_run (inputs : List LoginInput) (h : Known observers s) :
    ∃ n, attempts s inputs = List.range' (s.viewModel.current + 1) n ∧
      (run LoginScreen.step s inputs).viewModel.current = s.viewModel.current + n := by
  induction inputs generalizing s with
  | nil => exact ⟨0, rfl, rfl⟩
  | cons i rest ih =>
    obtain ⟨n, hrest, hcurrent⟩ := ih (h.step i)
    have hsplit : attempts s (i :: rest) =
        (s.outputs i).filterMap attempt? ++ attempts (s.step i) rest := rfl
    rcases attempts_cases h i with ⟨hnone, hsame⟩ | ⟨hone, hnext⟩
    · refine ⟨n, ?_, ?_⟩
      · rw [hsplit, hnone, hrest, hsame]
        rfl
      · rw [run, hcurrent, hsame]
    · refine ⟨n + 1, ?_, ?_⟩
      · rw [hsplit, hone, hrest, hnext]
        rfl
      · rw [run, hcurrent, hnext]
        omega

/-- Through any order of texts, taps and answers, every subscriber hears the
same: `true` some times and then, exactly if a tap starts nothing any more,
`false` and the completion. The attempts are started in the order of their
numbers, none left out. -/
theorem login_streams (observers : List Subscriber) (hne : observers ≠ [])
    (hnodup : observers.Nodup) (inputs : List LoginInput) :
    (∃ n, ∀ k ∈ observers, stream k (LoginScreen.bound observers) inputs =
      List.replicate n (.next true) ++
        if (run LoginScreen.step (LoginScreen.bound observers) inputs).viewModel.sampled = none then
          [.next false, .completed]
        else []) ∧
      attempts (LoginScreen.bound observers) inputs = List.range' 1
        (run LoginScreen.step (LoginScreen.bound observers) inputs).viewModel.current := by
  have hknown := known_bound hne
  have hfirst : ¬ Over (LoginScreen.bound observers) := by
    simp [Over, LoginScreen.bound, (LoginViewModel.bound_running hne).sampled]
  have hcurrent : (LoginScreen.bound observers).viewModel.current = 0 :=
    (LoginViewModel.bound_running hne).follows.latest_eq
  refine ⟨?_, ?_⟩
  · obtain ⟨n, hstream⟩ := stream_run hnodup inputs hknown
    refine ⟨n, fun k hk => ?_⟩
    rw [hstream k hk, if_neg hfirst]
    rfl
  · obtain ⟨n, hattempts, hlast⟩ := attempts_run inputs hknown
    rw [hattempts, hlast, hcurrent, Nat.zero_add, Nat.zero_add]

theorem login_streams_app :
    (∃ n, ∀ k ∈ [.controller, .other 0],
      stream k (LoginScreen.bound [.controller, .other 0])
          [.loginButtonTapped, .signInCallback 1 (.error .wrongPassword), .loginButtonTapped] =
        List.replicate n (.next true) ++
          if (run LoginScreen.step (LoginScreen.bound [.controller, .other 0])
            [.loginButtonTapped, .signInCallback 1 (.error .wrongPassword),
              .loginButtonTapped]).viewModel.sampled = none then
            [.next false, .completed]
          else []) ∧
      attempts (LoginScreen.bound [.controller, .other 0])
          [.loginButtonTapped, .signInCallback 1 (.error .wrongPassword), .loginButtonTapped] =
        List.range' 1 (run LoginScreen.step (LoginScreen.bound [.controller, .other 0])
          [.loginButtonTapped, .signInCallback 1 (.error .wrongPassword),
            .loginButtonTapped]).viewModel.current :=
  login_streams [.controller, .other 0] (by decide) (by decide) _

end Mber.LoginStreams
