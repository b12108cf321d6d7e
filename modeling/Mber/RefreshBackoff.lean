import Mathlib.Algebra.Ring.Int.Defs
import Mber.RefreshAnswers

/-!
The attempts after errors. The first retry waits for a minute, each later one
twice as long as the one before, up to a limit; what else is scheduled is no
retry.
-/
namespace Mber.AutoRefresh

open Runs Firebase Keychain KeychainServices SecureTokens AuthSession TokenRefresh

namespace RefreshingAuth

variable {s : RefreshingAuth} {object : ℕ} {faults : Faults}
  {answer : Except TokenError FIRSecureTokenResponse} {r : RefreshingAuth × Bool}

/-- The first retry waits for a minute, each later one twice as long as the one
before, and none longer than the limit. -/
def Paced (delay : ℤ) (retry : Bool) : ℕ → Prop
  | 0 => retry = false ∧ 0 ≤ delay
  | n + 1 => retry = true ∧ delay = min (60 * 1000 * 2 ^ n) kMaxWaitTimeForBackoff

theorem Paced.retry {delay : ℤ} {retry : Bool} {failures : ℕ} (h : Paced delay retry failures) :
    Paced (if retry then min (delay * 2) kMaxWaitTimeForBackoff else 60 * 1000) true
      (failures + 1) := by
  cases failures with
  | zero =>
    obtain ⟨rfl, -⟩ := h
    refine ⟨rfl, ?_⟩
    rw [if_neg (by simp)]
    rfl
  | succ n =>
    obtain ⟨rfl, rfl⟩ := h
    refine ⟨rfl, ?_⟩
    rw [if_pos rfl, pow_succ, ← mul_assoc]
    generalize (60 * 1000 * 2 ^ n : ℤ) = wait
    simp only [kMaxWaitTimeForBackoff]
    omega

/-- Every task, and every call that a task has made, keeps to these times. -/
structure BacksOff (s : RefreshingAuth) : Prop where
  tasks : ∀ task ∈ s.tasks, Paced task.delay task.retry task.failures
  calls : ∀ call ∈ s.calls, Paced call.delay call.retry call.failures

theorem BacksOff.schedule (h : s.BacksOff) {delay : ℤ} {retry : Bool} {failures : ℕ}
    (hpaced : Paced delay retry failures) :
    (s.scheduleAutoTokenRefreshWithDelay delay retry failures).BacksOff := by
  unfold scheduleAutoTokenRefreshWithDelay
  split
  · exact h
  · refine ⟨fun task htask => ?_, h.calls⟩
    rcases List.mem_append.mp htask with hold | hnew
    · exact h.tasks task hold
    · obtain rfl := List.mem_singleton.mp hnew
      exact hpaced

theorem BacksOff.scheduleNew (h : s.BacksOff) : s.scheduleAutoTokenRefresh.BacksOff :=
  h.schedule ⟨rfl, Int.le_max_right _ _⟩

theorem BacksOff.post (h : s.BacksOff) :
    s.possiblyPostAuthStateChangeNotification.BacksOff := by
  unfold possiblyPostAuthStateChangeNotification
  split_ifs
  · exact h
  · exact BacksOff.scheduleNew ⟨h.tasks, h.calls⟩
  · exact ⟨h.tasks, h.calls⟩

theorem Outcome.backsOff (o : Outcome s object faults answer r) (h : s.BacksOff) :
    r.1.BacksOff := by
  cases o with
  | other answer hother => exact h
  | failed error hcurrent => exact h
  | signedOut error auth hnone hobjects => exact ⟨h.tasks, h.calls⟩
  | unchanged response hcurrent htoken => exact h
  | saved response auth hcurrent hsame htoken => exact BacksOff.post ⟨h.tasks, h.calls⟩
  | unsaved response auth hcurrent hsame htoken hnot => exact ⟨h.tasks, h.calls⟩

theorem BacksOff.taskRuns (h : s.BacksOff) (index : ℕ) : (s.taskRuns index).BacksOff := by
  unfold RefreshingAuth.taskRuns
  cases htask : s.tasks[index]? with
  | none => exact h
  | some task =>
    have hleft : ∀ other ∈ s.tasks.eraseIdx index,
        Paced other.delay other.retry other.failures :=
      fun other hother => h.tasks other (List.eraseIdx_subset hother)
    simp only
    split_ifs
    · exact ⟨hleft, h.calls⟩
    · refine ⟨hleft, fun call hcall => ?_⟩
      rcases List.mem_append.mp hcall with hold | hnew
      · exact h.calls call hold
      · obtain ⟨user, -, rfl⟩ := Option.map_eq_some_iff.mp (Option.mem_toList.mp hnew)
        exact h.tasks task (List.mem_of_getElem? htask)
    · exact ⟨hleft, h.calls⟩

theorem BacksOff.answered (h : s.BacksOff) (index : ℕ) (faults : Faults)
    (answer : Except TokenError FIRSecureTokenResponse) :
    (s.answered index faults answer).BacksOff := by
  unfold RefreshingAuth.answered
  cases hcall : s.calls[index]? with
  | none => exact h
  | some call =>
    have hleft : { s with calls := s.calls.eraseIdx index }.BacksOff :=
      ⟨h.tasks, fun other hother => h.calls other (List.eraseIdx_subset hother)⟩
    have hout := (internalGetToken_outcome { s with calls := s.calls.eraseIdx index } call.object
      faults answer).backsOff hleft
    simp only
    generalize internalGetToken { s with calls := s.calls.eraseIdx index } call.object faults
      answer = r at hout ⊢
    by_cases hretry : r.1.auth.currentUser.map (·.uid) = some call.uid ∧ r.2 = true
    · rw [if_pos hretry]
      exact hout.schedule (h.calls call (List.mem_of_getElem? hcall)).retry
    · rwa [if_neg hretry]

end RefreshingAuth

end Mber.AutoRefresh
