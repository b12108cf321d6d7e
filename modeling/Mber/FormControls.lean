import Mber.SharedSequences

/-!
The controls of the two forms. A text field sends its text when it is first
listened to and again at every edit, and the operator behind it drops what
equals the last text. The confirm button starts disabled and is then driven by
the validity of its form.
-/
namespace Mber.FormControls

open Sinks SharedSequences

/-- How strings are measured and compared: by grapheme clusters, and up to
canonical equivalence. -/
structure StringOps where
  count : String → ℕ
  equal : String → String → Bool

structure TextField where
  text : String := ""
  distinctUntilChanged : DistinctUntilChangedSink String := {}

namespace TextField

variable (ops : StringOps)

/-- The field sends its current text. -/
def send (t : TextField) : TextField × Option String :=
  let d := t.distinctUntilChanged.next ops.equal t.text
  ({ t with distinctUntilChanged := d.1 }, d.2)

def edit (t : TextField) (text : String) : TextField × Option String :=
  send ops { t with text := text }

end TextField

/-- What a control of segments sends for the selected one. -/
def selectedTitle (selectedSegmentIndex : ℤ) : String :=
  match selectedSegmentIndex with
  | 0 => "Rider"
  | 1 => "Driver"
  | _ => ""

/-- The button with the driver that the controller lets set it. -/
structure ConfirmButton where
  isFormValid : SharedSequence Unit Bool := { share := { replay := true, observers := [()] } }
  isEnabled : Bool := false

namespace ConfirmButton

/-- The closure given to `drive`. -/
def onNext (isEnabled : Bool) : Unit × Event Empty Bool → Bool
  | (_, .next valid) => valid
  | _ => isEnabled

/-- The validity of the form is sent into the driver. -/
def receive (b : ConfirmButton) (valid : Bool) : ConfirmButton :=
  let r := b.isFormValid.on false (.next valid : Event Empty Bool)
  { isFormValid := r.1, isEnabled := r.2.foldl onNext b.isEnabled }

/-- The driver is connected and the button shows this validity. -/
structure Shows (b : ConfirmButton) (valid : Bool) : Prop where
  live : b.isFormValid.Live [()]
  isEnabled_eq : b.isEnabled = valid

theorem shows_init : ({} : ConfirmButton).Shows false := ⟨⟨rfl, rfl, rfl, rfl⟩, rfl⟩

theorem Shows.receive {b : ConfirmButton} {before : Bool} (h : b.Shows before) (valid : Bool) :
    (b.receive valid).Shows valid := by
  have hon := h.live.on_next (ε := Empty) false valid
  rw [ConfirmButton.receive, hon]
  exact ⟨h.live.keep valid, rfl⟩

end ConfirmButton

end Mber.FormControls
