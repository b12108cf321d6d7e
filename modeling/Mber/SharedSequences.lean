import Mber.Sinks

/-!
The tail of a shared sequence: `observeOn` the main queue, `catchErrorJustReturn`
and `share(scope: .whileConnected)`. An element reaches every observer. The
first error becomes one last element followed by completion, which releases
the observers and ends the connection.
-/
namespace Mber.SharedSequences

open Sinks

variable {ε α κ : Type*}

structure CatchSink where
  disposed : Bool := false
  deriving DecidableEq

namespace CatchSink

def forwardOn (s : CatchSink) (events : List (Event ε α)) : List (Event ε α) :=
  if s.disposed then [] else events

/-- An error is replaced by the sequence that sends `element` and completes. -/
def on (element : α) (s : CatchSink) : Event ε α → CatchSink × List (Event ε α)
  | .next a => (s, s.forwardOn [.next a])
  | .completed => ({ disposed := true }, s.forwardOn [.completed])
  | .error _ => ({ disposed := true }, s.forwardOn [.next element, .completed])

end CatchSink

/-- One connection of `share(replay:scope: .whileConnected)`. `element` is kept
only when `replay` asks for one. -/
structure ShareConnection (κ α : Type*) where
  replay : Bool
  observers : List κ := []
  element : Option α := none
  disposed : Bool := false

namespace ShareConnection

def on (s : ShareConnection κ α) (e : Event ε α) :
    ShareConnection κ α × List (κ × Event ε α) :=
  if s.disposed then (s, [])
  else match e with
    | .next a =>
      ({ s with element := if s.replay then some a else none },
        s.observers.map (fun k => (k, .next a)))
    | .error err =>
      ({ s with observers := [], disposed := true }, s.observers.map (fun k => (k, .error err)))
    | .completed =>
      ({ s with observers := [], disposed := true }, s.observers.map (fun k => (k, .completed)))

def onAll (s : ShareConnection κ α) : List (Event ε α) →
    ShareConnection κ α × List (κ × Event ε α)
  | [] => (s, [])
  | e :: rest =>
    let r := (s.on e).1.onAll rest
    (r.1, (s.on e).2 ++ r.2)

/-- A new observer first receives the kept element. -/
def subscribe (s : ShareConnection κ α) (k : κ) : ShareConnection κ α × List (κ × α) :=
  ({ s with observers := s.observers ++ [k] }, s.element.toList.map (fun a => (k, a)))

end ShareConnection

structure SharedSequence (κ α : Type*) where
  observeOn : StopSink := {}
  catchError : CatchSink := {}
  share : ShareConnection κ α

namespace SharedSequence

variable {s : SharedSequence κ α} {observers : List κ}

/-- An event from the source travels through the three stages. -/
def on (onErrorJustReturn : α) (s : SharedSequence κ α) (e : Event ε α) :
    SharedSequence κ α × List (κ × Event ε α) :=
  match (s.observeOn.on e).2 with
  | none => ({ s with observeOn := (s.observeOn.on e).1 }, [])
  | some e' =>
    let c := s.catchError.on onErrorJustReturn e'
    let r := s.share.onAll c.2
    ({ observeOn := (s.observeOn.on e).1, catchError := c.1, share := r.1 }, r.2)

/-- The sequence is connected and delivers to these observers. -/
structure Live (s : SharedSequence κ α) (observers : List κ) : Prop where
  observing : s.observeOn = {}
  catching : s.catchError.disposed = false
  connected : s.share.disposed = false
  observers_eq : s.share.observers = observers

/-- What `on` leaves behind after an element. -/
def keep (s : SharedSequence κ α) (a : α) : SharedSequence κ α :=
  { s with share := { s.share with element := if s.share.replay then some a else none } }

theorem Live.keep (h : s.Live observers) (a : α) : (s.keep a).Live observers :=
  ⟨h.observing, h.catching, h.connected, h.observers_eq⟩

/-- An element reaches every observer, in order. -/
theorem Live.on_next (h : s.Live observers) (d a : α) :
    s.on d (.next a : Event ε α) = (s.keep a, observers.map (fun k => (k, .next a))) := by
  obtain ⟨hobs, hcatch, hconn, rfl⟩ := h
  simp [on, hobs, CatchSink.on, CatchSink.forwardOn, hcatch, ShareConnection.onAll,
    ShareConnection.on, hconn, SharedSequence.keep]

/-- An error reaches every observer as the replacement element, then completes
all of them; the connection is over. -/
theorem Live.on_error (h : s.Live observers) (d : α) (err : ε) :
    (s.on d (.error err)).2 =
        observers.map (fun k => (k, .next d)) ++ observers.map (fun k => (k, .completed)) ∧
      (s.on d (.error err)).1.share.disposed = true := by
  obtain ⟨hobs, hcatch, hconn, rfl⟩ := h
  simp [on, hobs, CatchSink.on, CatchSink.forwardOn, hcatch, ShareConnection.onAll,
    ShareConnection.on, hconn]

end SharedSequence

end Mber.SharedSequences
