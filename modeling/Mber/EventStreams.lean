import Mber.Sinks

/-!
The grammar of an event stream: any number of elements, then at most one error
or completion. `untilStop` cuts a stream down to the grammar. A stop latch
that receives any stream at all forwards exactly this cut.
-/
namespace Mber.EventStreams

open Sinks

variable {ε α : Type*}

def untilStop : List (Event ε α) → List (Event ε α)
  | [] => []
  | e :: rest => if e.isStopEvent then [e] else e :: untilStop rest

def stopped (events : List (Event ε α)) : Bool := events.any Event.isStopEvent

/-- Nothing comes after the first stop event. -/
def Grammatical (events : List (Event ε α)) : Prop := untilStop events = events

@[simp] theorem stopped_nil : stopped ([] : List (Event ε α)) = false := rfl

@[simp] theorem stopped_append (xs ys : List (Event ε α)) :
    stopped (xs ++ ys) = (stopped xs || stopped ys) := by
  simp [stopped]

@[simp] theorem stopped_singleton (e : Event ε α) : stopped [e] = e.isStopEvent := by
  simp [stopped]

theorem untilStop_append (xs ys : List (Event ε α)) :
    untilStop (xs ++ ys) = if stopped xs then untilStop xs else xs ++ untilStop ys := by
  induction xs with
  | nil => rfl
  | cons e rest ih =>
    cases he : e.isStopEvent with
    | true => simp [untilStop, stopped, he]
    | false =>
      have hstop : stopped (e :: rest) = stopped rest := by simp [stopped, he]
      simp only [List.cons_append, untilStop, he, ih, hstop, Bool.false_eq_true, if_false]
      split_ifs <;> rfl

theorem untilStop_of_running {xs : List (Event ε α)} (h : stopped xs = false) :
    untilStop xs = xs := by
  have happend := untilStop_append xs []
  simpa [h, untilStop] using happend

theorem untilStop_append_of_stopped {xs : List (Event ε α)} (h : stopped xs = true)
    (ys : List (Event ε α)) : untilStop (xs ++ ys) = untilStop xs := by
  rw [untilStop_append, if_pos h]

/-- One more event after a running stream is forwarded as it is. -/
theorem untilStop_concat_of_running {xs : List (Event ε α)} (h : stopped xs = false)
    (e : Event ε α) : untilStop (xs ++ [e]) = untilStop xs ++ [e] := by
  rw [untilStop_append, h, untilStop_of_running h]
  simp [untilStop]

theorem untilStop_initial (xs ys : List (Event ε α)) : untilStop xs <+: untilStop (xs ++ ys) := by
  rw [untilStop_append]
  split_ifs with h
  · exact List.prefix_refl _
  · rw [untilStop_of_running (by simpa using h)]
    exact List.prefix_append _ _

theorem stopped_untilStop (xs : List (Event ε α)) : stopped (untilStop xs) = stopped xs := by
  induction xs with
  | nil => rfl
  | cons e rest ih =>
    cases he : e.isStopEvent with
    | true => simp [untilStop, stopped, he]
    | false =>
      simp only [stopped] at ih
      simp [untilStop, stopped, he, ih]

theorem grammatical_untilStop (xs : List (Event ε α)) : Grammatical (untilStop xs) := by
  induction xs with
  | nil => rfl
  | cons e rest ih =>
    cases he : e.isStopEvent with
    | true => simp [Grammatical, untilStop, he]
    | false =>
      simp only [Grammatical, untilStop, he] at ih ⊢
      simp [untilStop, he, ih]

/-- After the stop event of a grammatical stream there is nothing left. -/
theorem Grammatical.eq_nil_of_stopped {xs ys : List (Event ε α)} (h : Grammatical (xs ++ ys))
    (hstop : stopped xs = true) : ys = [] := by
  rw [Grammatical, untilStop_append_of_stopped hstop] at h
  have hlen : (untilStop xs).length ≤ xs.length := by
    have hprefix : ∀ zs : List (Event ε α), (untilStop zs).length ≤ zs.length := by
      intro zs
      induction zs with
      | nil => exact Nat.le_refl _
      | cons e rest ih =>
        cases he : e.isStopEvent <;> simp [untilStop, he, ih]
    exact hprefix xs
  rw [h, List.length_append] at hlen
  exact List.length_eq_zero_iff.mp (by omega)

/-- The events that a stop latch forwards. -/
def forwarded (s : StopSink) : List (Event ε α) → List (Event ε α)
  | [] => []
  | e :: rest => (s.on e).2.toList ++ forwarded (s.on e).1 rest

theorem forwarded_stopped (s : StopSink) (h : s.isStopped = true) (events : List (Event ε α)) :
    forwarded s events = [] := by
  induction events with
  | nil => rfl
  | cons e rest ih =>
    have hsame : s.on e = (s, none) := by simp [StopSink.on, h]
    simp [forwarded, hsame, ih]

theorem forwarded_fresh (events : List (Event ε α)) : forwarded {} events = untilStop events := by
  induction events with
  | nil => rfl
  | cons e rest ih =>
    cases e with
    | next a => simpa [forwarded, untilStop, Event.isStopEvent] using ih
    | error err =>
      simp [forwarded, untilStop, Event.isStopEvent, forwarded_stopped]
    | completed =>
      have hon : StopSink.on {} (.completed : Event ε α) =
          ({ isStopped := true, disposed := true }, some .completed) := rfl
      simp [forwarded, untilStop, Event.isStopEvent, hon, forwarded_stopped]

end Mber.EventStreams
