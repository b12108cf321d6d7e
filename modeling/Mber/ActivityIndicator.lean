import Mber.ProgressHUD

/-!
The activity indicator of the two entry screens. Both controllers drive one
HUD through `showActivityIndicator`. A screen here is any machine that issues
such calls; the HUD's animations end at any time between them.
-/
namespace Mber.ActivityIndicator

open Runs ProgressHUD

variable {σ ι ν : Type*}

/-- `showActivityIndicator(_:withText:)` of a controller with this view. -/
def showActivityIndicator (view : ν) (hud : JGProgressHUD ν) (shows : Bool)
    (text : Option String) : JGProgressHUD ν :=
  let labelled : JGProgressHUD ν := { hud with textLabel := text }
  if shows then labelled.showInView view true else labelled.dismissAnimated true

inductive DisplayInput (ι : Type*)
  | client (i : ι)
  | animationFinished

structure Display (σ ν : Type*) where
  screen : σ
  hud : JGProgressHUD ν

/-- A screen: its step, the calls that a step makes, and the label for each. -/
structure Client (σ ι : Type*) where
  step : σ → ι → σ
  calls : σ → ι → List Bool
  text : Bool → Option String

namespace Client

variable (c : Client σ ι) (view : ν)

def present (hud : JGProgressHUD ν) (calls : List Bool) : JGProgressHUD ν :=
  calls.foldl (fun h b => showActivityIndicator view h b (c.text b)) hud

def displayStep (s : Display σ ν) : DisplayInput ι → Display σ ν
  | .client i => ⟨c.step s.screen i, c.present view s.hud (c.calls s.screen i)⟩
  | .animationFinished => { s with hud := s.hud.animationFinished }

end Client

/-- The view that the user will look at, with its label. -/
def appearance (hud : JGProgressHUD ν) : Option (ν × Option String) :=
  hud.visibleIn.map fun view => (view, hud.textLabel)

theorem settled_appearance {hud : JGProgressHUD ν} (hc : hud.Consistent) (hs : hud.Solid) :
    appearance hud.settled = hud.goal.map fun view => (view, hud.textLabel) := by
  have htext : hud.settled.textLabel = hud.textLabel := by simp [JGProgressHUD.settled]
  rw [appearance, hs.settled_visibleIn hc, htext]

variable {view : ν} {hud : JGProgressHUD ν}

theorem consistent_labelled (hc : hud.Consistent) (text : Option String) :
    ({ hud with textLabel := text } : JGProgressHUD ν).Consistent :=
  ⟨hc.superview_eq, hc.animations_eq, hc.not_hidden, hc.pending⟩

theorem hides_spec (view : ν) (hc : hud.Consistent) (text : Option String) :
    (showActivityIndicator view hud false text).Consistent ∧
      (showActivityIndicator view hud false text).goal = none :=
  (consistent_labelled hc text).dismissAnimated_spec true

theorem shows_spec (view : ν) (hc : hud.Consistent) (hs : hud.Solid) (text : Option String) :
    (showActivityIndicator view hud true text).Consistent ∧
      (showActivityIndicator view hud true text).Solid ∧
      (showActivityIndicator view hud true text).textLabel = text ∧
      (hud.Accepts → (showActivityIndicator view hud true text).goal = hud.goal.or (some view)) ∧
      (¬ hud.Accepts → (showActivityIndicator view hud true text).goal = none ∧
        ¬ (showActivityIndicator view hud true text).Accepts) := by
  have hlabel := consistent_labelled hc text
  obtain ⟨hcons, htaken, hignored⟩ := hlabel.showInView_spec view true
  have hsolid : ({ hud with textLabel := text } : JGProgressHUD ν).Solid := hs
  refine ⟨hcons, hsolid.showInView hlabel view (.inl rfl), JGProgressHUD.showInView_textLabel _ _ _,
    htaken, fun hnot => ?_⟩
  have hleaving : hud.transitioning = true ∧ hud.goal = none := by
    simpa [JGProgressHUD.Accepts] using hnot
  have heq : showActivityIndicator view hud true text = { hud with textLabel := text } :=
    hignored hnot
  rw [heq]
  exact ⟨hleaving.2, hnot⟩

namespace Client

variable {c : Client σ ι}

theorem present_hides (c : Client σ ι) (view : ν) (hc : hud.Consistent) {calls : List Bool}
    (hne : calls ≠ [])
    (hall : ∀ b ∈ calls, b = false) :
    (c.present view hud calls).Consistent ∧ (c.present view hud calls).goal = none := by
  induction calls generalizing hud with
  | nil => exact absurd rfl hne
  | cons b rest ih =>
    obtain rfl : b = false := hall b (by simp)
    obtain ⟨hcons, hgoal⟩ := hides_spec view hc (c.text false)
    cases rest with
    | nil => exact ⟨hcons, hgoal⟩
    | cons b' rest' => exact ih hcons (by simp) fun x hx => hall x (List.mem_cons_of_mem _ hx)

/-- Several calls in a row that show the HUD are as good as one. -/
theorem present_shows (c : Client σ ι) (view : ν) (hc : hud.Consistent) (hs : hud.Solid)
    {calls : List Bool} (hne : calls ≠ []) (hall : ∀ b ∈ calls, b = true) :
    (c.present view hud calls).Consistent ∧ (c.present view hud calls).Solid ∧
      (c.present view hud calls).textLabel = c.text true ∧
      (hud.Accepts → (c.present view hud calls).goal = hud.goal.or (some view)) ∧
      (¬ hud.Accepts → (c.present view hud calls).goal = none) := by
  induction calls generalizing hud with
  | nil => exact absurd rfl hne
  | cons b rest ih =>
    obtain rfl : b = true := hall b (by simp)
    obtain ⟨hcons, hsolid, htext, htaken, hignored⟩ := shows_spec view hc hs (c.text true)
    cases rest with
    | nil => exact ⟨hcons, hsolid, htext, htaken, fun hnot => (hignored hnot).1⟩
    | cons b' rest' =>
      obtain ⟨hfinal, hsolid', htext', htaken', hignored'⟩ :=
        ih hcons hsolid (by simp) fun x hx => hall x (List.mem_cons_of_mem _ hx)
      refine ⟨hfinal, hsolid', htext', fun hacc => ?_, fun hnot => hignored' (hignored hnot).2⟩
      have hgoal := htaken hacc
      have hsome : (showActivityIndicator view hud true (c.text true)).goal ≠ none := by
        rw [hgoal]
        cases hud.goal <;> simp
      refine (htaken' fun _ => hsome).trans ?_
      rw [hgoal]
      cases hud.goal <;> rfl

/-- What is asked of a screen. The calls of one step are all of one kind; a
step without calls leaves the screen as busy as it was, and a step that hides
the HUD ends the work. -/
structure Reports (c : Client σ ι) (Inv : σ → Prop) (busy : σ → Bool) : Prop where
  keeps : ∀ s i, Inv s → Inv (c.step s i)
  uniform : ∀ s i, Inv s → (∀ b ∈ c.calls s i, b = true) ∨ ∀ b ∈ c.calls s i, b = false
  silent : ∀ s i, Inv s → c.calls s i = [] → busy (c.step s i) = busy s
  hidden : ∀ s i, Inv s → false ∈ c.calls s i → busy (c.step s i) = false

/-- The HUD is nowhere but in the screen's view, with the label of a call that shows it. -/
structure InView (c : Client σ ι) (view : ν) (hud : JGProgressHUD ν) : Prop where
  consistent : hud.Consistent
  solid : hud.Solid
  place : hud.goal = none ∨ hud.goal = some view ∧ hud.textLabel = c.text true

theorem InView.or_view (h : c.InView view hud) : hud.goal.or (some view) = some view := by
  rcases h.place with hnone | ⟨hview, -⟩
  · rw [hnone, Option.none_or]
  · rw [hview, Option.some_or]

theorem InView.animationFinished (h : c.InView view hud) : c.InView view hud.animationFinished := by
  obtain ⟨hcons, hgoal, -⟩ := h.consistent.animationFinished_spec
  refine ⟨hcons, h.solid.animationFinished h.consistent, ?_⟩
  rw [hgoal, JGProgressHUD.animationFinished_textLabel]
  exact h.place

theorem InView.appearance_eq (h : c.InView view hud) :
    appearance hud.settled = hud.goal.map fun v => (v, c.text true) := by
  rw [settled_appearance h.consistent h.solid]
  rcases h.place with hnone | ⟨-, htext⟩
  · rw [hnone, Option.map_none, Option.map_none]
  · rw [htext]

/-- The calls of one step. -/
theorem InView.present (h : c.InView view hud) (calls : List Bool)
    (huniform : (∀ b ∈ calls, b = true) ∨ ∀ b ∈ calls, b = false) :
    c.InView view (c.present view hud calls) ∧
      (calls = [] → (c.present view hud calls).goal = hud.goal) ∧
      (false ∈ calls → (c.present view hud calls).goal = none) ∧
      (true ∈ calls → hud.Accepts → (c.present view hud calls).goal = some view) ∧
      (true ∈ calls → ¬ hud.Accepts → (c.present view hud calls).goal = none) := by
  by_cases hempty : calls = []
  · subst hempty
    exact ⟨h, fun _ => rfl, fun hf => by simp at hf, fun ht => by simp at ht,
      fun ht => by simp at ht⟩
  rcases huniform with hshows | hhides
  · obtain ⟨hcons, hsolid, htext, htaken, hignored⟩ :=
      present_shows c view h.consistent h.solid hempty hshows
    refine ⟨⟨hcons, hsolid, ?_⟩, fun he => absurd he hempty, fun hf => ?_, fun _ hacc => ?_,
      fun _ => hignored⟩
    · by_cases hacc : hud.Accepts
      · exact .inr ⟨(htaken hacc).trans h.or_view, htext⟩
      · exact .inl (hignored hacc)
    · exact absurd (hshows false hf) (by simp)
    · exact (htaken hacc).trans h.or_view
  · obtain ⟨hcons, hgoal⟩ := present_hides c view h.consistent hempty hhides
    exact ⟨⟨hcons, JGProgressHUD.solid_of_goal hgoal, .inl hgoal⟩, fun he => absurd he hempty,
      fun _ => hgoal,
      fun ht => absurd (hhides true ht) (by simp), fun ht => absurd (hhides true ht) (by simp)⟩

variable {Inv : σ → Prop} {busy : σ → Bool}

/-- The screen's work is on display. -/
def Displayed (c : Client σ ι) (busy : σ → Bool) (view : ν) (s : Display σ ν) : Prop :=
  appearance s.hud.settled = if busy s.screen then some (view, c.text true) else none

/-- The HUD takes a call that shows it exactly if there is work to show. -/
def InStep (c : Client σ ι) (busy : σ → Bool) (s : Display σ ν) : DisplayInput ι → Prop
  | .client i => true ∈ c.calls s.screen i → (s.hud.Accepts ↔ busy (c.step s.screen i) = true)
  | .animationFinished => True

theorem displayed_iff_goal {s : Display σ ν} (h : c.InView view s.hud) :
    c.Displayed busy view s ↔ s.hud.goal = if busy s.screen then some view else none := by
  rw [Displayed, h.appearance_eq]
  rcases h.place with hnone | ⟨hview, -⟩
  · rw [hnone]
    cases busy s.screen <;> simp
  · rw [hview]
    cases busy s.screen <;> simp

/-- One step of the screen, from a state whose work is on display. -/
theorem Reports.displayed_step_iff (h : c.Reports Inv busy) {s : Display σ ν}
    (hinv : Inv s.screen) (hview : c.InView view s.hud) (hshown : c.Displayed busy view s) (i : ι) :
    c.Displayed busy view (c.displayStep view s (.client i)) ↔ c.InStep busy s (.client i) := by
  obtain ⟨hnext, hsilent, hhides, htaken, hignored⟩ := hview.present _ (h.uniform s.screen i hinv)
  have hgoal := (displayed_iff_goal hview).mp hshown
  refine (displayed_iff_goal hnext).trans ?_
  change (c.present view s.hud (c.calls s.screen i)).goal =
      (if busy (c.step s.screen i) then some view else none) ↔
    (true ∈ c.calls s.screen i → (s.hud.Accepts ↔ busy (c.step s.screen i) = true))
  by_cases htrue : true ∈ c.calls s.screen i
  · by_cases hacc : s.hud.Accepts
    · rw [htaken htrue hacc]
      cases busy (c.step s.screen i) <;> simp [htrue, hacc]
    · rw [hignored htrue hacc]
      cases busy (c.step s.screen i) <;> simp [htrue, hacc]
  · simp only [htrue, false_implies, iff_true]
    by_cases hfalse : false ∈ c.calls s.screen i
    · rw [hhides hfalse, h.hidden s.screen i hinv hfalse, if_neg Bool.false_ne_true]
    · have hnone : c.calls s.screen i = [] := by
        rw [List.eq_nil_iff_forall_not_mem]
        intro b
        cases b <;> assumption
      rw [hsilent hnone, h.silent s.screen i hinv hnone, hgoal]

/-- In every state of a run the work is on display once the HUD's transitions
are over, exactly as long as the HUD takes the calls that come with work. -/
theorem Reports.displayed_iff (h : c.Reports Inv busy) (s : Display σ ν) (hinv : Inv s.screen)
    (hview : c.InView view s.hud) (hfirst : c.Displayed busy view s)
    (inputs : List (DisplayInput ι)) :
    EveryState (c.displayStep view) (c.Displayed busy view) s inputs ↔
      EveryStep (c.displayStep view) (c.InStep busy) s inputs := by
  refine everyState_iff_until
    (fun s => Inv s.screen ∧ c.InView view s.hud ∧ c.Displayed busy view s)
    (fun s hs => hs.2.2) ?_ ?_ _ _ ⟨hinv, hview, hfirst⟩
  · rintro s i ⟨hinv, hview, hshown⟩ hstep
    cases i with
    | animationFinished =>
      have hgoal := hview.consistent.animationFinished_spec.2.1
      refine ⟨hinv, hview.animationFinished, (displayed_iff_goal hview.animationFinished).mpr ?_⟩
      exact hgoal.trans ((displayed_iff_goal hview).mp hshown)
    | client i =>
      obtain ⟨hnext, -⟩ := hview.present _ (h.uniform s.screen i hinv)
      exact ⟨h.keeps s.screen i hinv, hnext, (h.displayed_step_iff hinv hview hshown i).mpr hstep⟩
  · rintro s i ⟨hinv, hview, hshown⟩ hstep
    cases i with
    | animationFinished => exact absurd trivial hstep
    | client i => exact mt (h.displayed_step_iff hinv hview hshown i).mp hstep

end Client

/-- The HUD before the screen is there: used by other screens, now in no view. -/
theorem inView_of_removed [DecidableEq ν] (c : Client σ ι) (view : ν)
    (before : List (ProgressHUD.Input ν))
    (hremoved : (run JGProgressHUD.step {} before).settled.superview = none) :
    c.InView view (run JGProgressHUD.step {} before) ∧
      (run JGProgressHUD.step ({} : JGProgressHUD ν) before).goal = none := by
  have hcons := JGProgressHUD.consistent_run before
  have hgoal := hcons.settled_superview.symm.trans hremoved
  exact ⟨⟨hcons, JGProgressHUD.solid_of_goal hgoal, .inl hgoal⟩, hgoal⟩

end Mber.ActivityIndicator
