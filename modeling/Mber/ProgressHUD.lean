import Mber.Runs

/-!
JGProgressHUD, as far as it decides whether something is on the screen. A HUD
that is fading in or out ignores `showInView`; a `dismiss` that comes during a
transition is made up for when the transition is over. Fading out leaves it
transparent, and only fading in makes up for that. The views are weakly held,
and one of them may go away at any time.
-/
namespace Mber.ProgressHUD

open Runs

variable {ν : Type*}

/-- `animations` counts the animations whose completion block has not run.
`alpha` is 0 or 1, and an animation sets it when it starts. -/
structure JGProgressHUD (ν : Type*) where
  textLabel : Option String := none
  targetView : Option ν := none
  superview : Option ν := none
  isHidden : Bool := true
  alpha : ℕ := 1
  transitioning : Bool := false
  presenting : Bool := false
  dismissAfterTransitionFinished : Bool := false
  dismissAfterTransitionFinishedWithAnimation : Bool := false
  animations : ℕ := 0

inductive Input (ν : Type*)
  | showInView (view : ν) (animated : Bool)
  | dismiss (animated : Bool)
  | animationFinished
  | deallocated (view : ν)

namespace JGProgressHUD

/-- The fade animation, which also unhides the HUD when it starts to show it. -/
def animate (h : JGProgressHUD ν) (presenting : Bool) : JGProgressHUD ν :=
  { h with
    presenting := presenting
    isHidden := if presenting then false else h.isHidden
    alpha := if presenting then 1 else 0
    animations := h.animations + 1 }

def cleanUpAfterDismissal (h : JGProgressHUD ν) : JGProgressHUD ν :=
  { h with
    isHidden := true
    superview := none
    transitioning := false
    dismissAfterTransitionFinished := false
    dismissAfterTransitionFinishedWithAnimation := false
    targetView := none }

def dismissAnimated (h : JGProgressHUD ν) (animated : Bool) : JGProgressHUD ν :=
  if h.transitioning then
    { h with
      dismissAfterTransitionFinished := true
      dismissAfterTransitionFinishedWithAnimation := animated }
  else if h.targetView.isNone then h
  else if animated then { h with transitioning := true }.animate false
  else { h with transitioning := true }.cleanUpAfterDismissal

def clearPending (h : JGProgressHUD ν) : JGProgressHUD ν :=
  { h with
    dismissAfterTransitionFinished := false
    dismissAfterTransitionFinishedWithAnimation := false }

def cleanUpAfterPresentation (h : JGProgressHUD ν) : JGProgressHUD ν :=
  let shown : JGProgressHUD ν := { h with isHidden := false, transitioning := false }
  if shown.dismissAfterTransitionFinished then
    (shown.dismissAnimated shown.dismissAfterTransitionFinishedWithAnimation).clearPending
  else shown

def showInView (h : JGProgressHUD ν) (view : ν) (animated : Bool) : JGProgressHUD ν :=
  if h.transitioning then h
  else if h.targetView.isSome then h
  else
    let added : JGProgressHUD ν :=
      { h with targetView := some view, superview := some view, transitioning := true }
    if animated then added.animate true else added.cleanUpAfterPresentation

def animationDidFinish (h : JGProgressHUD ν) (presenting : Bool) : JGProgressHUD ν :=
  if presenting then h.cleanUpAfterPresentation else h.cleanUpAfterDismissal

/-- The completion block of an animation reads the direction from the
animation object, not from its own start. -/
def animationFinished (h : JGProgressHUD ν) : JGProgressHUD ν :=
  if h.animations = 0 then h
  else { h with animations := h.animations - 1 }.animationDidFinish h.presenting

/-- A view goes away, and takes itself out of the hierarchy. -/
def deallocated [DecidableEq ν] (h : JGProgressHUD ν) (view : ν) : JGProgressHUD ν :=
  { h with
    targetView := if h.targetView = some view then none else h.targetView
    superview := if h.superview = some view then none else h.superview }

def step [DecidableEq ν] (h : JGProgressHUD ν) : Input ν → JGProgressHUD ν
  | .showInView view animated => h.showInView view animated
  | .dismiss animated => h.dismissAnimated animated
  | .animationFinished => h.animationFinished
  | .deallocated view => h.deallocated view

/-- The view in which the HUD can be seen. -/
def visibleIn (h : JGProgressHUD ν) : Option ν :=
  if h.isHidden || h.alpha == 0 then none else h.superview

/-- At most two animations are to come: one that fades in, and the dismissal
that has been waiting for its end. -/
def settled (h : JGProgressHUD ν) : JGProgressHUD ν := h.animationFinished.animationFinished

/-- Where the HUD will be if nothing else is asked of it. -/
def goal (h : JGProgressHUD ν) : Option ν :=
  if h.transitioning && (!h.presenting || h.dismissAfterTransitionFinished) then none
  else h.targetView

/-- What has been asked for, by a HUD that never ignores a call except to show
what is already shown. -/
def asked [DecidableEq ν] (wish : Option ν) : Input ν → Option ν
  | .showInView view _ => wish.or (some view)
  | .dismiss _ => none
  | .animationFinished => wish
  | .deallocated view => if wish = some view then none else wish

/-- A call to show something is ignored while the HUD is on its way out. -/
def Accepts (h : JGProgressHUD ν) : Prop := h.transitioning = true → h.goal ≠ none

instance (h : JGProgressHUD ν) [DecidableEq ν] : Decidable h.Accepts := by
  unfold Accepts
  infer_instance

def Heeds (h : JGProgressHUD ν) : Input ν → Prop
  | .showInView _ _ => h.Accepts
  | _ => True

/-- Without animation a HUD is shown as transparent as it is. -/
def Unveils (h : JGProgressHUD ν) : Input ν → Prop
  | .showInView _ animated => animated = true ∨ h.alpha ≠ 0
  | _ => True

/-- Where the HUD will be it can be seen. -/
def Solid (h : JGProgressHUD ν) : Prop := h.goal ≠ none → h.alpha ≠ 0

/-- There is one animation during a transition and none otherwise. -/
structure Consistent (h : JGProgressHUD ν) : Prop where
  superview_eq : h.superview = h.targetView
  animations_eq : h.animations = if h.transitioning then 1 else 0
  not_hidden : h.targetView.isSome = true → h.isHidden = false
  pending : h.dismissAfterTransitionFinished = true → h.transitioning = true

theorem consistent_init : ({} : JGProgressHUD ν).Consistent :=
  ⟨rfl, rfl, fun h => by simp at h, fun h => by simp at h⟩

variable {h : JGProgressHUD ν}

theorem Consistent.visibleIn_eq (hc : h.Consistent) :
    h.visibleIn = if h.alpha = 0 then none else h.targetView := by
  unfold visibleIn
  cases hhidden : h.isHidden with
  | false => simp [hc.superview_eq]
  | true =>
    have hnone : h.targetView = none := by
      by_contra hsome
      simpa [hhidden] using hc.not_hidden (Option.isSome_iff_ne_none.mpr hsome)
    simp [hnone]

theorem goal_of_idle (hidle : h.transitioning = false) : h.goal = h.targetView := by
  simp [goal, hidle]

theorem Consistent.pending_of_idle (hc : h.Consistent) (hidle : h.transitioning = false) :
    h.dismissAfterTransitionFinished = false := by
  by_contra hpending
  have htrans := hc.pending (by simpa using hpending)
  simp [hidle] at htrans

theorem dismissAnimated_transitioning (htrans : h.transitioning = true) (animated : Bool) :
    h.dismissAnimated animated = { h with
      dismissAfterTransitionFinished := true
      dismissAfterTransitionFinishedWithAnimation := animated } :=
  if_pos htrans

theorem dismissAnimated_none (hidle : h.transitioning = false) (hview : h.targetView = none)
    (animated : Bool) : h.dismissAnimated animated = h := by
  simp [dismissAnimated, hidle, hview]

theorem dismissAnimated_some (hidle : h.transitioning = false) {view : ν}
    (hview : h.targetView = some view) (animated : Bool) :
    h.dismissAnimated animated =
      if animated then { h with transitioning := true }.animate false
      else { h with transitioning := true }.cleanUpAfterDismissal := by
  simp [dismissAnimated, hidle, hview]

/-- After a dismissal nothing is going to be seen. -/
theorem Consistent.dismissAnimated_spec (hc : h.Consistent) (animated : Bool) :
    (h.dismissAnimated animated).Consistent ∧ (h.dismissAnimated animated).goal = none := by
  have hc' := hc
  obtain ⟨hsuper, hanim, hhidden, -⟩ := hc'
  cases htrans : h.transitioning with
  | true =>
    rw [dismissAnimated_transitioning htrans]
    exact ⟨⟨hsuper, hanim, hhidden, fun _ => htrans⟩, by simp [goal, htrans]⟩
  | false =>
    have hnone : h.animations = 0 := by simpa [htrans] using hanim
    cases hview : h.targetView with
    | none =>
      rw [dismissAnimated_none htrans hview]
      exact ⟨hc, (goal_of_idle htrans).trans hview⟩
    | some view =>
      rw [dismissAnimated_some htrans hview]
      cases animated with
      | true =>
        rw [if_pos rfl]
        exact ⟨⟨hsuper, by simp [animate, hnone], hhidden, fun _ => rfl⟩, rfl⟩
      | false =>
        rw [if_neg Bool.false_ne_true]
        exact ⟨⟨rfl, hnone, fun hs => by simp [cleanUpAfterDismissal] at hs,
          fun hs => by simp [cleanUpAfterDismissal] at hs⟩, rfl⟩

/-- The end of a presentation, with a dismissal if one has been waiting. -/
theorem cleanUpAfterPresentation_spec (hsuper : h.superview = h.targetView)
    (hnone : h.animations = 0) :
    h.cleanUpAfterPresentation.Consistent ∧
      h.cleanUpAfterPresentation.goal =
        (if h.dismissAfterTransitionFinished then none else h.targetView) ∧
      (h.cleanUpAfterPresentation.transitioning = true →
        h.cleanUpAfterPresentation.presenting = false) := by
  cases hpending : h.dismissAfterTransitionFinished with
  | false =>
    have heq : h.cleanUpAfterPresentation =
        { h with isHidden := false, transitioning := false } := by
      simp [cleanUpAfterPresentation, hpending]
    rw [heq]
    exact ⟨⟨hsuper, hnone, fun _ => rfl, fun hs => by simp [hpending] at hs⟩, rfl,
      fun ht => by simp at ht⟩
  | true =>
    let shown : JGProgressHUD ν := { h with isHidden := false, transitioning := false }
    have heq : h.cleanUpAfterPresentation =
        (shown.dismissAnimated h.dismissAfterTransitionFinishedWithAnimation).clearPending := by
      simp [cleanUpAfterPresentation, hpending, shown]
    rw [heq, if_pos rfl]
    generalize h.dismissAfterTransitionFinishedWithAnimation = animated
    cases hview : h.targetView with
    | none =>
      rw [dismissAnimated_none (h := shown) rfl hview]
      exact ⟨⟨hsuper, hnone, fun _ => rfl, fun hs => by simp [clearPending] at hs⟩, hview,
        fun ht => by simp [clearPending, shown] at ht⟩
    | some view =>
      rw [dismissAnimated_some (h := shown) rfl hview]
      cases animated with
      | true =>
        rw [if_pos rfl]
        exact ⟨⟨hsuper, by simp [clearPending, animate, shown, hnone], fun _ => rfl,
          fun hs => by simp [clearPending] at hs⟩, rfl, fun _ => rfl⟩
      | false =>
        rw [if_neg Bool.false_ne_true]
        exact ⟨⟨rfl, hnone, fun hs => by simp [clearPending, cleanUpAfterDismissal] at hs,
          fun hs => by simp [clearPending] at hs⟩, rfl,
          fun ht => by simp [clearPending, cleanUpAfterDismissal] at ht⟩

/-- A call that is accepted shows the HUD, unless it is shown already. -/
theorem Consistent.showInView_spec (hc : h.Consistent) (view : ν) (animated : Bool) :
    (h.showInView view animated).Consistent ∧
      (h.Accepts → (h.showInView view animated).goal = h.goal.or (some view)) ∧
      (¬ h.Accepts → h.showInView view animated = h) := by
  cases htrans : h.transitioning with
  | true =>
    have heq : h.showInView view animated = h := if_pos htrans
    rw [heq]
    refine ⟨hc, fun hacc => ?_, fun _ => rfl⟩
    obtain ⟨shown, hshown⟩ := Option.ne_none_iff_exists'.mp (hacc htrans)
    rw [hshown, Option.some_or]
  | false =>
    have hacc : h.Accepts := fun ht => by simp [htrans] at ht
    rw [goal_of_idle htrans]
    cases hview : h.targetView with
    | some shown =>
      have heq : h.showInView view animated = h := by simp [showInView, htrans, hview]
      rw [heq, goal_of_idle htrans, hview]
      exact ⟨hc, fun _ => rfl, fun hnot => absurd hacc hnot⟩
    | none =>
      have hpending := hc.pending_of_idle htrans
      have hnone : h.animations = 0 := by simpa [htrans] using hc.animations_eq
      let added : JGProgressHUD ν :=
        { h with targetView := some view, superview := some view, transitioning := true }
      have heq : h.showInView view animated =
          if animated then added.animate true else added.cleanUpAfterPresentation := by
        simp [showInView, htrans, hview, added]
      rw [heq]
      cases animated with
      | true =>
        refine ⟨⟨rfl, by simp [animate, added, hnone], fun _ => rfl, fun _ => rfl⟩, fun _ => ?_,
          fun hnot => absurd hacc hnot⟩
        simp [goal, animate, added, hpending]
      | false =>
        obtain ⟨hcons, hgoal, -⟩ := cleanUpAfterPresentation_spec (h := added) rfl hnone
        refine ⟨hcons, fun _ => ?_, fun hnot => absurd hacc hnot⟩
        simpa [added, hpending] using hgoal

/-- The end of an animation leaves the goal as it is. A transition that goes
on after it is a dismissal. -/
theorem Consistent.animationFinished_spec (hc : h.Consistent) :
    h.animationFinished.Consistent ∧ h.animationFinished.goal = h.goal ∧
      (h.animationFinished.transitioning = true → h.animationFinished.presenting = false) := by
  cases htrans : h.transitioning with
  | false =>
    have heq : h.animationFinished = h := by simp [animationFinished, hc.animations_eq, htrans]
    rw [heq]
    exact ⟨hc, rfl, fun ht => by simp [htrans] at ht⟩
  | true =>
    have hone : h.animations = 1 := by simpa [htrans] using hc.animations_eq
    let ended : JGProgressHUD ν := { h with animations := 0 }
    have heq : h.animationFinished = ended.animationDidFinish h.presenting := by
      simp [animationFinished, hone, ended]
    rw [heq]
    cases hpres : h.presenting with
    | true =>
      obtain ⟨hcons, hgoal, hnext⟩ :=
        cleanUpAfterPresentation_spec (h := ended) hc.superview_eq rfl
      refine ⟨hcons, hgoal.trans ?_, hnext⟩
      simp [goal, htrans, hpres, ended]
    | false =>
      refine ⟨⟨rfl, rfl, fun hs => by simp [animationDidFinish, cleanUpAfterDismissal] at hs,
        fun hs => by simp [animationDidFinish, cleanUpAfterDismissal] at hs⟩, ?_,
        fun ht => by simp [animationDidFinish, cleanUpAfterDismissal] at ht⟩
      simp [goal, htrans, hpres, animationDidFinish, cleanUpAfterDismissal]

/-- Two animations are enough to end every transition. -/
theorem Consistent.settled_idle (hc : h.Consistent) : h.settled.transitioning = false := by
  obtain ⟨hfirst, -, hhides⟩ := hc.animationFinished_spec
  have hanim := hfirst.animations_eq
  unfold settled
  generalize h.animationFinished = g at hhides hanim
  cases htrans : g.transitioning with
  | false => simp [animationFinished, hanim, htrans]
  | true =>
    simp [animationFinished, hanim, htrans, hhides htrans, animationDidFinish,
      cleanUpAfterDismissal]

theorem Consistent.settled_targetView (hc : h.Consistent) : h.settled.targetView = h.goal := by
  obtain ⟨hfirst, hgoal, -⟩ := hc.animationFinished_spec
  calc h.settled.targetView = h.settled.goal := (goal_of_idle hc.settled_idle).symm
    _ = h.animationFinished.goal := hfirst.animationFinished_spec.2.1
    _ = h.goal := hgoal

/-- A HUD that is going to be somewhere is not fading out. -/
theorem Consistent.animationFinished_alpha (hc : h.Consistent) (hgoal : h.goal ≠ none) :
    h.animationFinished.alpha = h.alpha := by
  cases htrans : h.transitioning with
  | false => simp [animationFinished, hc.animations_eq, htrans]
  | true =>
    obtain ⟨hpres, hpending⟩ : h.presenting = true ∧ h.dismissAfterTransitionFinished = false := by
      by_contra hleaving
      refine hgoal (if_pos ?_)
      cases hp : h.presenting <;> simp_all
    simp [animationFinished, hc.animations_eq, htrans, hpres, animationDidFinish,
      cleanUpAfterPresentation, hpending]

theorem Consistent.settled_superview (hc : h.Consistent) : h.settled.superview = h.goal := by
  have hsecond := hc.animationFinished_spec.1.animationFinished_spec.1
  exact hsecond.superview_eq.trans hc.settled_targetView

theorem Consistent.settled_visibleIn (hc : h.Consistent) :
    h.settled.visibleIn = if h.alpha = 0 then none else h.goal := by
  obtain ⟨hfirst, hgoal, -⟩ := hc.animationFinished_spec
  obtain ⟨hsecond, -, -⟩ := hfirst.animationFinished_spec
  have hsettled : h.settled.visibleIn = if h.settled.alpha = 0 then none else h.settled.targetView :=
    hsecond.visibleIn_eq
  rw [hsettled, hc.settled_targetView]
  by_cases hnone : h.goal = none
  · simp [hnone]
  · have halpha : h.settled.alpha = h.alpha :=
      (hfirst.animationFinished_alpha (by rwa [hgoal])).trans (hc.animationFinished_alpha hnone)
    rw [halpha]

/-- Once its transitions are over, the HUD is seen where it is. -/
theorem Solid.settled_visibleIn (hs : h.Solid) (hc : h.Consistent) :
    h.settled.visibleIn = h.goal := by
  rw [hc.settled_visibleIn]
  by_cases hnone : h.goal = none
  · simp [hnone]
  · rw [if_neg (hs hnone)]

theorem Solid.animationFinished (hs : h.Solid) (hc : h.Consistent) :
    h.animationFinished.Solid := by
  intro hgoal
  rw [hc.animationFinished_spec.2.1] at hgoal
  rw [hc.animationFinished_alpha hgoal]
  exact hs hgoal

theorem Consistent.showInView_alpha (hc : h.Consistent) (view : ν) :
    (h.showInView view false).alpha = h.alpha := by
  cases htrans : h.transitioning with
  | true => simp [showInView, htrans]
  | false =>
    cases hview : h.targetView <;>
      simp [showInView, htrans, hview, cleanUpAfterPresentation, hc.pending_of_idle htrans]

/-- Fading in makes the HUD visible; without it, it must be so already. -/
theorem Solid.showInView (hs : h.Solid) (hc : h.Consistent) (view : ν) {animated : Bool}
    (hunveils : animated = true ∨ h.alpha ≠ 0) : (h.showInView view animated).Solid := by
  cases animated with
  | false =>
    have halpha : h.alpha ≠ 0 := by simpa using hunveils
    intro _
    rwa [hc.showInView_alpha]
  | true =>
    cases htrans : h.transitioning with
    | true => simpa [JGProgressHUD.showInView, htrans] using hs
    | false =>
      cases hview : h.targetView with
      | some shown => simpa [JGProgressHUD.showInView, htrans, hview] using hs
      | none =>
        intro _
        simp [JGProgressHUD.showInView, htrans, hview, animate]

theorem solid_of_goal (hnone : h.goal = none) : h.Solid := fun hgoal => absurd hnone hgoal

theorem dismissAnimated_textLabel (h : JGProgressHUD ν) (animated : Bool) :
    (h.dismissAnimated animated).textLabel = h.textLabel := by
  unfold dismissAnimated
  split_ifs <;> rfl

theorem cleanUpAfterPresentation_textLabel (h : JGProgressHUD ν) :
    h.cleanUpAfterPresentation.textLabel = h.textLabel := by
  simp only [cleanUpAfterPresentation]
  split_ifs
  · exact dismissAnimated_textLabel _ _
  · rfl

theorem showInView_textLabel (h : JGProgressHUD ν) (view : ν) (animated : Bool) :
    (h.showInView view animated).textLabel = h.textLabel := by
  simp only [showInView]
  split_ifs <;> first | rfl | exact cleanUpAfterPresentation_textLabel _

@[simp] theorem animationFinished_textLabel (h : JGProgressHUD ν) :
    h.animationFinished.textLabel = h.textLabel := by
  unfold animationFinished animationDidFinish
  split_ifs <;> first | rfl | exact cleanUpAfterPresentation_textLabel _

variable [DecidableEq ν]

theorem Consistent.deallocated_spec (hc : h.Consistent) (view : ν) :
    (h.deallocated view).Consistent ∧
      (h.deallocated view).goal = if h.goal = some view then none else h.goal := by
  obtain ⟨hsuper, hanim, hhidden, hpending⟩ := hc
  refine ⟨⟨?_, hanim, ?_, hpending⟩, ?_⟩
  · simp only [deallocated, hsuper]
  · intro hsome
    refine hhidden ?_
    by_contra hnone
    simp_all [deallocated]
  · cases hleaving : h.transitioning && (!h.presenting || h.dismissAfterTransitionFinished) <;>
      simp [goal, deallocated, hleaving]

/-- A step moves the goal as it is asked to, and a step that is ignored moves
nothing. -/
theorem Consistent.step_spec (hc : h.Consistent) (i : Input ν) :
    (h.step i).Consistent ∧ (h.Heeds i → (h.step i).goal = asked h.goal i) ∧
      (¬ h.Heeds i → h.step i = h) := by
  cases i with
  | showInView view animated =>
    obtain ⟨hcons, htaken, hignored⟩ := hc.showInView_spec view animated
    exact ⟨hcons, htaken, hignored⟩
  | dismiss animated =>
    obtain ⟨hcons, hgoal⟩ := hc.dismissAnimated_spec animated
    exact ⟨hcons, fun _ => hgoal, fun hnot => absurd trivial hnot⟩
  | animationFinished =>
    obtain ⟨hcons, hgoal, -⟩ := hc.animationFinished_spec
    exact ⟨hcons, fun _ => hgoal, fun hnot => absurd trivial hnot⟩
  | deallocated view =>
    obtain ⟨hcons, hgoal⟩ := hc.deallocated_spec view
    exact ⟨hcons, fun _ => hgoal, fun hnot => absurd trivial hnot⟩

theorem Solid.step (hs : h.Solid) (hc : h.Consistent) {i : Input ν} (hunveils : h.Unveils i) :
    (h.step i).Solid := by
  cases i with
  | showInView view animated => exact hs.showInView hc view hunveils
  | dismiss animated => exact solid_of_goal (hc.dismissAnimated_spec animated).2
  | animationFinished => exact hs.animationFinished hc
  | deallocated view =>
    intro hgoal
    refine hs fun hnone => hgoal ?_
    have hdealloc := (hc.deallocated_spec view).2
    rw [hnone, ite_self] at hdealloc
    exact hdealloc

theorem consistent_run (inputs : List (Input ν)) :
    (run step ({} : JGProgressHUD ν) inputs).Consistent :=
  run_invariant Consistent (fun _ i hc => (hc.step_spec i).1) _ inputs consistent_init

/-- Faded out, then shown without animation: it is there and cannot be seen. -/
example :
    let h := run step ({} : JGProgressHUD ℕ) [.showInView 1 true, .animationFinished,
      .dismiss true, .animationFinished, .showInView 1 false]
    h.superview = some 1 ∧ h.visibleIn = none := by decide

end JGProgressHUD

end Mber.ProgressHUD
