import Mber.Disposables

/-!
Whatever SinkDisposer and SingleAssignmentDisposable have been handed is disposed
of exactly once when the disposable is, in every interleaving of the calls, and
never otherwise.
-/
namespace Mber.Disposables

open Runs Handovers

variable {δ : Type*}

namespace Disposer

variable {n : ℕ} {layout : Layout} {s : Disposer δ} {a : Handover δ} {i : ℕ}

/-- The steps of the handover that these inputs are: the same calls, with
fewer steps of each. -/
structure SameCalls (inputs steps : List (Input δ)) : Prop where
  sets : steps.countP Input.isSet = inputs.countP Input.isSet
  disposes : steps.any Input.isDispose = inputs.any Input.isDispose
  handed : steps.flatMap Input.handed = inputs.flatMap Input.handed

theorem SameCalls.snoc {inputs steps : List (Input δ)} (h : SameCalls inputs steps)
    (i : Input δ) : SameCalls (inputs ++ [i]) (steps ++ [i]) :=
  ⟨by simp only [List.countP_append, h.sets], by simp only [List.any_append, h.disposes],
    by simp only [List.flatMap_append, h.handed]⟩

theorem SameCalls.skip {inputs steps : List (Input δ)} (h : SameCalls inputs steps)
    (call : ℕ) : SameCalls (inputs ++ [.advance call]) steps := by
  refine ⟨?_, ?_, ?_⟩
  · simp [h.sets, Input.isSet]
  · simp [h.disposes, Input.isDispose]
  · simp [h.handed, Input.handed]

/-- Every run of the class is a run of the handover. -/
theorem follows_run (layout : Layout) (hn : 0 < layout.fields) (inputs : List (Input δ))
    (honce : inputs.countP Input.isSet ≤ 1)
    (hlength : ∀ r, Input.set r ∈ inputs → r.length = layout.fields) :
    ∃ steps, SameCalls inputs steps ∧
      (run (step layout) {} inputs).Follows layout.fields (run Handover.step {} steps) := by
  induction inputs using List.reverseRecOn with
  | nil => exact ⟨[], ⟨rfl, rfl, rfl⟩, follows_init layout.fields⟩
  | append_singleton inputs i ih =>
    rw [List.countP_append] at honce
    obtain ⟨steps, hsame, hfollows⟩ :=
      ih (by omega) (fun r hr => hlength r (List.mem_append_left _ hr))
    have hrecords := Handover.records_run steps (by have := hsame.sets; omega)
    have hset : ∀ r, i = .set r → r.length = layout.fields ∧
        (run Handover.step {} steps).sets = 0 := by
      rintro r rfl
      have hlast : [Input.set r].countP Input.isSet = 1 := rfl
      have hnone := hrecords.sets_eq.trans hsame.sets
      exact ⟨hlength r (List.mem_append_right _ List.mem_cons_self), by omega⟩
    rw [run_append]
    obtain ⟨⟨call, rfl⟩, hskip⟩ | hstep := hfollows.step hn rfl hrecords.exclusive i hset
    · exact ⟨steps, hsame.skip call, hskip⟩
    · refine ⟨steps ++ [i], hsame.snoc i, ?_⟩
      rw [run_append]
      exact hstep

/-- A class that is set at most once never fails. What it is handed is
disposed of in order, nothing twice, and when all calls have returned it is
disposed of if and only if `dispose` has been called. -/
theorem disposed_once (layout : Layout) (hn : 0 < layout.fields) (inputs : List (Input δ))
    (honce : inputs.countP Input.isSet ≤ 1)
    (hlength : ∀ r, Input.set r ∈ inputs → r.length = layout.fields) :
    (run (step layout) {} inputs).fatalError = none ∧
      (run (step layout) {} inputs).disposals <+: inputs.flatMap Input.handed ∧
      ((∀ i, (run (step layout) {} inputs).line i = .returned) →
        (run (step layout) {} inputs).disposals =
          if inputs.any Input.isDispose then inputs.flatMap Input.handed else []) := by
  obtain ⟨steps, hsame, hfollows⟩ := follows_run layout hn inputs honce hlength
  obtain ⟨-, hinitial, hover⟩ := Handover.released_once steps (hsame.sets ▸ honce)
  rw [hsame.handed] at hinitial hover
  rw [hsame.disposes] at hover
  refine ⟨hfollows.fatalError, hfollows.disposals ▸ hinitial, fun hreturned => ?_⟩
  rw [hfollows.disposals]
  refine hover fun i => ?_
  rw [← hfollows.line i, hreturned i]
  rfl

end Disposer

namespace SinkDisposer

theorem countP_input (events : List Event) :
    (events.map (Event.input (δ := δ))).countP Input.isSet = 0 := by
  refine List.countP_eq_zero.mpr fun i hi => ?_
  obtain ⟨e, -, rfl⟩ := List.mem_map.mp hi
  cases e <;> simp [Event.input, Input.isSet]

theorem flatMap_input (events : List Event) :
    (events.map (Event.input (δ := δ))).flatMap Input.handed = [] := by
  refine List.flatMap_eq_nil_iff.mpr fun i hi => ?_
  obtain ⟨e, -, rfl⟩ := List.mem_map.mp hi
  cases e <;> rfl

theorem any_input (events : List Event) :
    (events.map (Event.input (δ := δ))).any Input.isDispose = decide (.dispose ∈ events) := by
  induction events with
  | nil => rfl
  | cons e rest ih =>
    rw [List.map_cons, List.any_cons, ih]
    cases e <;> simp [Event.input, Input.isDispose]

theorem set_not_mem_input (events : List Event) (r : List δ) :
    Input.set r ∉ events.map Event.input := by
  intro hr
  obtain ⟨e, -, he⟩ := List.mem_map.mp hr
  cases e <;> cases he

/-- A subscription never fails. Whoever disposes of it, and whenever, from
inside the producer, from the sink or from another thread, the sink and then
the subscription are disposed of once, and both are when the calls have returned. -/
theorem subscription_disposed_once (sink subscription : δ) (running after : List Event) :
    let s := run (Disposer.step layout) {} (subscribe sink subscription running after)
    s.fatalError = none ∧ s.disposals <+: [sink, subscription] ∧
      ((∀ i, s.line i = .returned) →
        s.disposals = if Event.dispose ∈ running ++ after then [sink, subscription] else []) := by
  have honce : (subscribe sink subscription running after).countP Input.isSet ≤ 1 := by
    rw [subscribe, List.countP_append, List.countP_cons, countP_input, countP_input]
    simp [setSinkAndSubscription, Input.isSet]
  have hhanded : (subscribe sink subscription running after).flatMap Input.handed =
      [sink, subscription] := by
    rw [subscribe, List.flatMap_append, List.flatMap_cons, flatMap_input, flatMap_input]
    rfl
  have hlength : ∀ r, Input.set r ∈ subscribe sink subscription running after →
      r.length = layout.fields := by
    intro r hr
    rw [subscribe, List.mem_append, List.mem_cons] at hr
    obtain hr | hr | hr := hr
    · exact absurd hr (set_not_mem_input running r)
    · obtain rfl : r = [sink, subscription] := Input.set.inj hr
      rfl
    · exact absurd hr (set_not_mem_input after r)
  have hany : (subscribe sink subscription running after).any Input.isDispose =
      decide (Event.dispose ∈ running ++ after) := by
    rw [subscribe, List.any_append, List.any_cons, any_input, any_input]
    simp [setSinkAndSubscription, Input.isDispose]
  have hmain := Disposer.disposed_once layout (by decide) _ honce hlength
  rw [hhanded, hany] at hmain
  simpa only [decide_eq_true_eq] using hmain

end SinkDisposer

namespace SingleAssignmentDisposable

def Event.isSet : Event δ → Bool
  | .setDisposable _ => true
  | _ => false

def Event.isDispose : Event δ → Bool
  | .dispose => true
  | _ => false

def Event.disposable? : Event δ → Option δ
  | .setDisposable disposable => some disposable
  | _ => none

/-- A disposable that is assigned at most once is disposed of at most once, and
if the calls have returned exactly if it is there and `dispose` has been called. -/
theorem assigned_disposed_once (events : List (Event δ)) (honce : events.countP Event.isSet ≤ 1) :
    let s := run (Disposer.step layout) {} (events.map Event.input)
    s.fatalError = none ∧ s.disposals <+: events.filterMap Event.disposable? ∧
      ((∀ i, s.line i = .returned) →
        s.disposals =
          if events.any Event.isDispose then events.filterMap Event.disposable? else []) := by
  have hsets : (events.map Event.input).countP Input.isSet = events.countP Event.isSet := by
    rw [List.countP_map]
    exact congrArg (fun p => events.countP p) (funext fun e => by cases e <;> rfl)
  have hany : (events.map Event.input).any Input.isDispose = events.any Event.isDispose := by
    rw [List.any_map]
    exact congrArg (fun p => events.any p) (funext fun e => by cases e <;> rfl)
  have hhanded : (events.map Event.input).flatMap Input.handed =
      events.filterMap Event.disposable? := by
    rw [List.flatMap_map, List.filterMap_eq_flatMap_toList]
    exact congrArg (fun f => events.flatMap f) (funext fun e => by cases e <;> rfl)
  have hlength : ∀ r, Input.set r ∈ events.map Event.input → r.length = layout.fields := by
    intro r hr
    obtain ⟨e, -, he⟩ := List.mem_map.mp hr
    cases e with
    | setDisposable disposable =>
      obtain rfl : [disposable] = r := Input.set.inj he
      rfl
    | dispose => cases he
    | advance call => cases he
  have hmain := Disposer.disposed_once layout (by decide) _ (hsets ▸ honce) hlength
  rw [hhanded, hany] at hmain
  exact hmain

theorem assigned_disposed_late :
    let events : List (Event ℕ) := [.dispose, .setDisposable 7, .advance 0, .dispose, .advance 1,
      .advance 2, .advance 1, .advance 1, .advance 1]
    let s := run (Disposer.step layout) {} (events.map Event.input)
    s.fatalError = none ∧ s.disposals <+: events.filterMap Event.disposable? ∧
      ((∀ i, s.line i = .returned) →
        s.disposals =
          if events.any Event.isDispose then events.filterMap Event.disposable? else []) :=
  assigned_disposed_once [.dispose, .setDisposable 7, .advance 0, .dispose, .advance 1, .advance 2,
    .advance 1, .advance 1, .advance 1] (by decide)

end SingleAssignmentDisposable

end Mber.Disposables
