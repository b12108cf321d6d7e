import Mber.Sharing

/-!
Subscribers come and go at `share(replay:scope: .whileConnected)`. One connection
at a time has observers, and it is connected once and disconnected at most
once. Each subscriber hears the kept element, then what comes in while it is
there.
-/
namespace Mber.Sharing

open Runs Sinks EventStreams Delivery SharedSequences

variable {ε α : Type*}

namespace Share

variable {replay : Bool} {s : Share ε α}

/-- The connection a subscriber leaves. -/
theorem Sound.unsubscribe_connection (h : s.Sound replay) {k : ℕ}
    (hk : k ∈ (s.conn (s.parent k)).observers) :
    (s.unsubscribe k).ConnectionSound replay (s.parent k) := by
  unfold unsubscribe
  simp only [hk, if_true]
  obtain ⟨hnot, hlt, hcurrent⟩ := h.of_observer hk
  have hc := h.connection (s.parent k)
  have hrunning := hc.running hnot
  generalize hobs : (s.conn (s.parent k)).observers.erase k = observers
  have hmem : ∀ j, j ∈ observers ↔ j ≠ k ∧ j ∈ (s.conn (s.parent k)).observers := by
    intro j
    rw [← hobs]
    exact hc.nodup.mem_erase_iff
  have hreleased := released_of_current hcurrent observers.isEmpty
  constructor
  · simp only [hreleased, Function.update_self]
    cases observers.isEmpty <;> simp [hlt]
  · intro _ hgoes
    simpa [List.isEmpty_eq_false_iff] using hgoes
  · intro hends
    simpa [List.isEmpty_iff] using hends
  · intro hge
    exact absurd hlt (Nat.not_lt.mpr hge)
  · simpa using hc.replay_eq
  · exact hc.connect_once
  · have hnone := hc.disconnect_once
    simp only [hnot, Bool.false_eq_true, false_and, if_false] at hnone
    simp only [Function.update_self, hrunning, and_true]
    cases observers.isEmpty <;> simp <;> omega
  · exact fun _ => hrunning
  · exact hc.grammar
  · intro _
    simpa using hc.element hnot
  · intro _ j
    simp only [Function.update_self, hmem, hc.members hnot]
    by_cases hjk : j = k
    · subst hjk
      simp
    · simp [hjk]
  · simp only [Function.update_self, ← hobs]
    exact hc.nodup.erase k
  · exact hc.called

theorem sound_unsubscribe (h : s.Sound replay) (k : ℕ) : (s.unsubscribe k).Sound replay := by
  by_cases hk : k ∈ (s.conn (s.parent k)).observers
  swap
  · simpa only [unsubscribe, hk, if_false] using h
  have hself := h.unsubscribe_connection hk
  obtain ⟨hnot, -, hcurrent⟩ := h.of_observer hk
  obtain ⟨hkn, -, hthere⟩ := ((h.connection (s.parent k)).members hnot k).mp hk
  unfold unsubscribe at hself ⊢
  simp only [hk, if_true] at hself ⊢
  generalize (s.conn (s.parent k)).observers.erase k = observers at hself ⊢
  refine ⟨fun j => ?_, fun i hi => ?_, fun i hi => ?_⟩
  · by_cases hjc : j = s.parent k
    · subst hjc
      exact hself
    · have hcount : (if observers.isEmpty = true then s.disconnecting ++ [s.parent k]
          else s.disconnecting).count j = s.disconnecting.count j := by
        split_ifs <;> simp [Ne.symm hjc]
      refine (h.connection j).apart (by simp [hjc]) rfl (fun _ hp => hp)
        (released_apart hcurrent hjc _) Iff.rfl rfl (by simp only [hcount]) (fun i => ?_)
        (fun _ hi => hi)
      by_cases hik : i = k
      · subst hik
        simp [Ne.symm hjc]
      · simp [hik]
  · obtain ⟨h1, h2, h3, h4⟩ := h.subscriber i hi
    by_cases hik : i = k
    · subst hik
      refine ⟨h1, h2, fun n hn => ?_, ?_⟩
      · simp only [Function.update_self, Option.some.injEq] at hn
        subst hn
        exact ⟨h2, Nat.le_refl _⟩
      · simp only [Function.update_self]
        rw [due_leave, ← hthere]
        exact h4
    · refine ⟨h1, h2, fun n hn => h3 n (by simpa [hik] using hn), ?_⟩
      simpa [hik] using h4
  · have hne : i ≠ k := by
      rintro rfl
      exact absurd hkn (Nat.not_lt.mpr hi)
    simpa [hne] using h.still_to_come i hi

/-- The connection a subscriber comes to is running, or is a new one. -/
theorem Sound.chosen (h : s.Sound replay) :
    let c := s.connection.getD s.connections
    s.connection = some c ∧ c < s.connections ∧ (s.conn c).observers.isEmpty = false ∨
      s.connection = none ∧ c = s.connections ∧ (s.conn c).observers.isEmpty = true := by
  cases hconnection : s.connection with
  | none =>
    refine .inr ⟨rfl, rfl, ?_⟩
    simp [((h.connection s.connections).unused (Nat.le_refl _)).1]
  | some c =>
    obtain ⟨hlt, hnot⟩ := (h.connection c).current.mp hconnection
    exact .inl ⟨rfl, hlt, List.isEmpty_eq_false_iff.mpr ((h.connection c).served hlt hnot)⟩

/-- It has not been disposed of, and it is connected once. -/
theorem Sound.chosen_running (h : s.Sound replay) :
    let c := s.connection.getD s.connections
    (s.conn c).disposed = false ∧
      c < (if s.connection.isSome then s.connections else s.connections + 1) ∧
      (if (s.conn c).observers.isEmpty then s.connecting ++ [c] else s.connecting).count c +
        s.connects.count c = 1 := by
  intro c
  have hc := h.connection c
  obtain ⟨hcurrent, hlt, hserved⟩ | ⟨hnone, heq, hempty⟩ := h.chosen
  · have hone := hc.connect_once
    rw [if_pos hlt] at hone
    rw [hcurrent, hserved]
    exact ⟨(hc.current.mp hcurrent).2, hlt, hone⟩
  · have hge : s.connections ≤ c := Nat.le_of_eq heq.symm
    have hzero := hc.connect_once
    rw [if_neg (Nat.not_lt.mpr hge)] at hzero
    refine ⟨by rw [(hc.unused hge).1], ?_, ?_⟩
    · rw [hnone]
      exact Nat.lt_succ_of_le (Nat.le_of_eq heq)
    · rw [hempty]
      simp only [if_true, List.count_append, List.count_singleton_self]
      omega

/-- The connection a subscriber comes to. -/
theorem Sound.subscribe_connection (h : s.Sound replay) :
    s.subscribe.ConnectionSound replay (s.connection.getD s.connections) := by
  obtain ⟨hnot, hlt, hone⟩ := h.chosen_running
  unfold subscribe
  generalize s.connection.getD s.connections = c at hnot hlt hone ⊢
  have hc := h.connection c
  constructor
  · simp [hlt, ShareConnection.subscribe, hnot]
  · simp [ShareConnection.subscribe]
  · simp [ShareConnection.subscribe, hnot]
  · intro hge
    exact absurd hlt (Nat.not_lt.mpr hge)
  · simpa [ShareConnection.subscribe] using hc.replay_eq
  · simpa only [hlt, if_true] using hone
  · simpa [ShareConnection.subscribe, hnot] using hc.disconnect_once
  · exact fun _ => hc.running hnot
  · exact hc.grammar
  · intro _
    simpa [ShareConnection.subscribe] using hc.element hnot
  · intro _ k
    simp only [Function.update_self, ShareConnection.subscribe, List.mem_append,
      List.mem_singleton, hc.members hnot k]
    by_cases hk : k = s.subscribers
    · subst hk
      simp [h.still_to_come s.subscribers (Nat.le_refl _)]
    · simp only [Function.update_of_ne hk, hk, or_false]
      exact and_congr_left fun _ => by omega
  · simp only [Function.update_self, ShareConnection.subscribe]
    refine List.nodup_append.mpr ⟨hc.nodup, by simp, fun a ha b hb => ?_⟩
    obtain ⟨hbelow, -⟩ := (hc.members hnot a).mp ha
    rw [List.mem_singleton] at hb
    omega
  · intro p hp
    obtain ⟨hbelow, hparent⟩ := hc.called p hp
    have hne : p.1 ≠ s.subscribers := by omega
    simp only [Function.update_of_ne hne]
    exact ⟨by omega, hparent⟩

/-- The new subscriber hears the element that is kept. -/
theorem Sound.subscribe_subscriber (h : s.Sound replay) :
    s.subscribe.SubscriberSound replay s.subscribers := by
  obtain ⟨hnot, hlt, -⟩ := h.chosen_running
  unfold subscribe
  generalize s.connection.getD s.connections = c at hnot hlt ⊢
  have hpending : eventsFor s.subscribers (s.dispatching c) = [] := by
    have hnone : (s.dispatching c).filter (fun p => p.1 = s.subscribers) = [] := by
      refine List.filter_eq_nil_iff.mpr fun p hp heq => ?_
      obtain ⟨hbelow, -⟩ := (h.connection c).called p hp
      have hsame : p.1 = s.subscribers := by simpa using heq
      omega
    rw [eventsFor, hnone]
    rfl
  have hleft := h.still_to_come s.subscribers (Nat.le_refl _)
  refine ⟨?_, ?_, fun n hn => ?_, ?_⟩
  · simpa only [Function.update_self] using hlt
  · simp
  · rw [hleft] at hn
    cases hn
  · simp only [Function.update_self, hpending, hleft, due_join, ShareConnection.subscribe,
      (h.connection c).element hnot, List.append_nil]
    cases hkept : (if replay = true then latest (s.accepted c) else none) <;> simp

theorem sound_subscribe (h : s.Sound replay) : s.subscribe.Sound replay := by
  refine ⟨fun j => ?_, fun i hi => ?_, fun i hi => ?_⟩
  · by_cases hjc : j = s.connection.getD s.connections
    · subst hjc
      exact h.subscribe_connection
    · refine (h.connection j).apart (by simp [subscribe, hjc]) rfl (fun _ hp => hp) ?_ ?_ ?_ rfl
        (fun k => ?_) (fun k hk => ?_)
      · obtain ⟨hcurrent, -, -⟩ | ⟨hnone, heq, -⟩ := h.chosen
        · rw [hcurrent]
          rfl
        · rw [heq] at hjc
          simp [subscribe, hnone, Ne.symm hjc]
      · obtain ⟨hcurrent, -, -⟩ | ⟨hnone, heq, -⟩ := h.chosen
        · have hsome : s.connection.isSome = true := by
            rw [hcurrent]
            rfl
          simp only [subscribe, hsome, if_true]
        · rw [heq] at hjc
          simp only [subscribe, hnone, Option.isSome_none, Bool.false_eq_true, if_false]
          omega
      · simp only [subscribe]
        split_ifs <;> simp [Ne.symm hjc]
      · simp only [subscribe]
        by_cases hk : k = s.subscribers
        · subst hk
          simp [Ne.symm hjc]
        · simp only [Function.update_of_ne hk]
          exact and_congr_left fun _ => by omega
      · have hne : k ≠ s.subscribers := by omega
        simp only [subscribe, Function.update_of_ne hne]
        exact ⟨by omega, hk.2⟩
  · by_cases hik : i = s.subscribers
    · subst hik
      exact h.subscribe_subscriber
    · have hi' : i < s.subscribers + 1 := hi
      obtain ⟨h1, h2, h3, h4⟩ := h.subscriber i (by omega)
      simp only [subscribe]
      refine ⟨?_, ?_, ?_, ?_⟩
      · simp only [Function.update_of_ne hik]
        split_ifs <;> omega
      · simpa only [Function.update_of_ne hik]
      · simpa only [Function.update_of_ne hik]
      · simpa only [Function.update_of_ne hik]
  · have hge : s.subscribers + 1 ≤ i := hi
    exact h.still_to_come i (by omega)

theorem sound_run (replay : Bool) (inputs : List (Input ε α)) :
    (run step (init replay) inputs).Sound replay := by
  refine run_invariant (Sound replay) (fun s i h => ?_) _ inputs (sound_init replay)
  cases i with
  | subscribe => exact sound_subscribe h
  | connect c => exact sound_connect h c
  | on c e => exact sound_on h c e
  | deliver c => exact sound_deliver h c
  | unsubscribe k => exact sound_unsubscribe h k
  | disconnect c => exact sound_disconnect h c

/-- In any order of calls, none of them made by an observer that is being given
the kept element, one connection at most has observers, and it takes in events;
the source is subscribed once for each connection. That subscription is
disposed of once if the connection's observers leave before the source stops,
and else never. -/
theorem share_connects_once (replay : Bool) (inputs : List (Input ε α)) :
    let s := run step (init replay) inputs
    (∀ c, (s.conn c).observers ≠ [] → s.connection = some c) ∧
      (∀ c, s.connects.count c ≤ 1 ∧ s.disconnects.count c ≤ 1) ∧
      (s.connecting = [] → ∀ c, c < s.connections → s.connects.count c = 1) ∧
      (s.disconnecting = [] → ∀ c, c < s.connections → s.disconnects.count c =
        if (s.conn c).observers = [] ∧ stopped (s.accepted c) = false then 1 else 0) := by
  intro s
  have h : s.Sound replay := sound_run replay inputs
  refine ⟨fun c hc => ?_, fun c => ⟨?_, ?_⟩, fun hnone c hlt => ?_, fun hnone c hlt => ?_⟩
  · obtain ⟨k, hk⟩ := List.exists_mem_of_ne_nil _ hc
    exact (h.of_observer hk).2.2
  · have hone := (h.connection c).connect_once
    split_ifs at hone <;> omega
  · have hone := (h.connection c).disconnect_once
    split_ifs at hone <;> omega
  · have hone := (h.connection c).connect_once
    rw [hnone, if_pos hlt, List.count_nil, Nat.zero_add] at hone
    exact hone
  · have hone := (h.connection c).disconnect_once
    rw [hnone, List.count_nil, Nat.zero_add] at hone
    rw [hone]
    have hended : (s.conn c).disposed = true ↔ (s.conn c).observers = [] := by
      refine ⟨(h.connection c).silent, fun hempty => ?_⟩
      by_contra hgoes
      exact (h.connection c).served hlt (by simpa using hgoes) hempty
    simp only [hended]

end Share

end Mber.Sharing
