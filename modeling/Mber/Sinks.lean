import Mathlib.Data.Fintype.Basic
import Mathlib.Logic.Function.Basic

/-!
Push-based observable operators as state machines. Each sink is the state that
the operator keeps for one subscription, with one function for each event it
receives; what it forwards is returned. Everything runs on the main thread.
The stop latch is the state shared by `Observable.create` and `observeOn`; the
switch keeps one such latch for every inner subscription it has made.
-/
namespace Mber.Sinks

inductive Event (ε α : Type*)
  | next (element : α)
  | error (error : ε)
  | completed
  deriving DecidableEq

namespace Event

variable {ε α : Type*}

def isStopEvent : Event ε α → Bool
  | .next _ => false
  | .error _ => true
  | .completed => true

end Event

variable {ε α β ι : Type*}

/-- A sink that ignores everything after its first stop event and forwards
nothing once it is disposed. -/
structure StopSink where
  isStopped : Bool := false
  disposed : Bool := false
  deriving DecidableEq

namespace StopSink

def forwardOn (s : StopSink) (e : Event ε α) : Option (Event ε α) :=
  if s.disposed then none else some e

def on (s : StopSink) (e : Event ε α) : StopSink × Option (Event ε α) :=
  if s.isStopped then (s, none)
  else if e.isStopEvent then ({ isStopped := true, disposed := true }, s.forwardOn e)
  else (s, s.forwardOn e)

/-- The sink is marked first; then the subscription's own disposable runs, and
sends `cleanup` back to this sink. -/
def dispose (cleanup : List (Event ε α)) (s : StopSink) : StopSink :=
  cleanup.foldl (fun s e => (s.on e).1) { s with disposed := true }

theorem on_disposed (s : StopSink) (e : Event ε α) (h : s.disposed = true) :
    (s.on e).2 = none ∧ (s.on e).1.disposed = true := by
  unfold on forwardOn
  split_ifs <;> simp [h]

@[simp] theorem on_next_fresh (a : α) :
    StopSink.on {} (.next a : Event ε α) = ({}, some (.next a)) := rfl

@[simp] theorem on_error_fresh (err : ε) :
    StopSink.on {} (.error err : Event ε α) =
      ({ isStopped := true, disposed := true }, some (.error err)) := rfl

theorem dispose_disposed (cleanup : List (Event ε α)) (s : StopSink) :
    (s.dispose cleanup).disposed = true := by
  have aux : ∀ (events : List (Event ε α)) (t : StopSink), t.disposed = true →
      (events.foldl (fun s e => (s.on e).1) t).disposed = true := by
    intro events
    induction events with
    | nil => exact fun t ht => ht
    | cons e rest ih => exact fun t ht => ih _ (on_disposed t e ht).2
  exact aux cleanup _ rfl

end StopSink

structure CombineLatestSink (ι α : Type*) where
  latestElement : ι → Option α := fun _ => none

namespace CombineLatestSink

/-- The combined element, present once every source has a value. -/
def getResult [Fintype ι] (s : CombineLatestSink ι α) : Option (ι → α) :=
  if h : ∀ i, (s.latestElement i).isSome then
    some (fun i => (s.latestElement i).get (h i))
  else none

def set [DecidableEq ι] (s : CombineLatestSink ι α) (i : ι) (a : α) : CombineLatestSink ι α :=
  ⟨Function.update s.latestElement i (some a)⟩

/-- A source sends a value: it is stored, and the combination is forwarded if
it is complete. -/
def next [Fintype ι] [DecidableEq ι] (s : CombineLatestSink ι α) (i : ι) (a : α) :
    CombineLatestSink ι α × Option (ι → α) :=
  (s.set i a, (s.set i a).getResult)

theorem getResult_eq_some_iff [Fintype ι] (s : CombineLatestSink ι α) (f : ι → α) :
    s.getResult = some f ↔ ∀ i, s.latestElement i = some (f i) := by
  unfold getResult
  split
  · rename_i h
    simp only [Option.some.injEq]
    constructor
    · rintro rfl i
      exact (Option.some_get (h i)).symm
    · intro hf
      funext i
      simp [hf i]
  · rename_i h
    refine iff_of_false (by simp) ?_
    intro hf
    exact h fun i => by simp [hf i]

/-- Before every source has sent something there is no combination. -/
theorem getResult_eq_none_iff [Fintype ι] (s : CombineLatestSink ι α) :
    s.getResult = none ↔ ∃ i, s.latestElement i = none := by
  unfold getResult
  split
  · rename_i h
    refine iff_of_false (by simp) ?_
    rintro ⟨i, hi⟩
    simpa [hi] using h i
  · rename_i h
    simpa using h

@[simp] theorem set_latestElement [DecidableEq ι] (s : CombineLatestSink ι α)
    (i : ι) (a : α) : (s.set i a).latestElement = Function.update s.latestElement i (some a) := rfl

variable {s : CombineLatestSink ι α} {f : ι → α}

theorem getResult_of_values [Fintype ι] (h : s.latestElement = fun i => some (f i)) :
    s.getResult = some f := by
  apply (s.getResult_eq_some_iff f).mpr
  intro i
  rw [h]

/-- A complete combination stays complete. -/
theorem set_of_values [DecidableEq ι] (h : s.latestElement = fun i => some (f i)) (i : ι)
    (a : α) : (s.set i a).latestElement = fun j => some (Function.update f i a j) := by
  funext j
  by_cases hj : j = i
  · subst hj
    simp
  · simp [hj, h]

end CombineLatestSink

structure WithLatestFromSink (β : Type*) where
  latest : Option β := none

namespace WithLatestFromSink

/-- The second source sends a combination, if it has one. -/
def second (s : WithLatestFromSink β) (b : Option β) : WithLatestFromSink β :=
  ⟨b.or s.latest⟩

/-- The first source fires: the latest value of the second is forwarded. -/
def first (s : WithLatestFromSink β) : Option β := s.latest

end WithLatestFromSink

structure DistinctUntilChangedSink (α : Type*) where
  currentKey : Option α := none

namespace DistinctUntilChangedSink

/-- An element that compares equal to the last forwarded one is dropped. -/
def next (comparer : α → α → Bool) (s : DistinctUntilChangedSink α) (a : α) :
    DistinctUntilChangedSink α × Option α :=
  if s.currentKey.any (fun key => comparer key a) then (s, none) else (⟨some a⟩, some a)

end DistinctUntilChangedSink

/-- The switch numbers its inner subscriptions. `inner` holds the sink of each
inner observable, itself built by `Observable.create`. `stopped` is set when
the outer source completes, which a relay never does. -/
structure SwitchSink where
  latest : ℕ := 0
  hasLatest : Bool := false
  stopped : Bool := false
  disposed : Bool := false
  inner : ℕ → StopSink := fun _ => {}

namespace SwitchSink

variable (cleanup : List (Event ε α))

def forwardOn (s : SwitchSink) (e : Event ε α) : Option (Event ε α) :=
  if s.disposed then none else some e

def setInner (s : SwitchSink) (id : ℕ) (t : StopSink) : SwitchSink :=
  { s with inner := Function.update s.inner id t }

def disposeInner (s : SwitchSink) (id : ℕ) : SwitchSink :=
  s.setInner id ((s.inner id).dispose cleanup)

def dispose (s : SwitchSink) : SwitchSink :=
  { s.disposeInner cleanup s.latest with disposed := true }

/-- The outer source sends an element: the previous inner subscription is
disposed and the next one starts afresh. -/
def nextElementArrived (s : SwitchSink) : SwitchSink :=
  { (s.disposeInner cleanup s.latest).setInner (s.latest + 1) {} with
    latest := s.latest + 1
    hasLatest := true }

/-- An inner observable forwards an event to the switch. -/
def iterOn (s : SwitchSink) (id : ℕ) (e : Event ε α) : SwitchSink × Option (Event ε α) :=
  let s := if e.isStopEvent then s.disposeInner cleanup id else s
  if s.latest ≠ id then (s, none)
  else match e with
    | .next _ => (s, s.forwardOn e)
    | .error _ => (s.dispose cleanup, s.forwardOn e)
    | .completed =>
      if s.stopped then ({ s with hasLatest := false }.dispose cleanup, s.forwardOn e)
      else ({ s with hasLatest := false }, none)

/-- The subscribe closure of inner observable `id` calls its observer. -/
def innerOn (s : SwitchSink) (id : ℕ) (e : Event ε α) : SwitchSink × Option (Event ε α) :=
  match ((s.inner id).on e).2 with
  | none => (s.setInner id ((s.inner id).on e).1, none)
  | some e' => (s.setInner id ((s.inner id).on e).1).iterOn cleanup id e'

@[simp] theorem innerOn_latest (s : SwitchSink) (id : ℕ) (e : Event ε α) :
    (s.innerOn cleanup id e).1.latest = s.latest := by
  unfold innerOn
  split
  · rfl
  · rename_i e' _
    cases e' <;>
      simp only [iterOn, Event.isStopEvent, disposeInner, setInner, dispose] <;>
      split_ifs <;> rfl

/-- The switch follows its `n`-th inner observable: that one is untouched and
every earlier one has been disposed. -/
structure Follows (s : SwitchSink) (n : ℕ) : Prop where
  latest_eq : s.latest = n
  active : s.disposed = false
  current : s.inner n = {}
  older : ∀ id, id < n → (s.inner id).disposed = true

theorem follows_init : Follows {} 0 := ⟨rfl, rfl, rfl, fun _ h => by omega⟩

variable {s : SwitchSink} {n : ℕ}

theorem Follows.nextElementArrived (h : s.Follows n) :
    (s.nextElementArrived cleanup).Follows (n + 1) := by
  obtain ⟨rfl, hactive, hcurrent, holder⟩ := h
  refine ⟨rfl, hactive, by simp [SwitchSink.nextElementArrived, setInner], ?_⟩
  intro id hid
  have hne : id ≠ s.latest + 1 := by omega
  by_cases heq : id = s.latest
  · subst heq
    simp [SwitchSink.nextElementArrived, disposeInner, setInner, StopSink.dispose_disposed]
  · have hlt : id < s.latest := by omega
    simpa [SwitchSink.nextElementArrived, disposeInner, setInner, hne, heq] using holder id hlt

/-- Whatever a superseded observable sends, nothing is forwarded and the
switch keeps following the current one. -/
theorem Follows.innerOn_older (h : s.Follows n) {id : ℕ} (hid : id < n) (e : Event ε α) :
    (s.innerOn cleanup id e).2 = none ∧ (s.innerOn cleanup id e).1.Follows n := by
  obtain ⟨hsilent, hdisposed⟩ := StopSink.on_disposed (s.inner id) e (h.older id hid)
  have heq : s.innerOn cleanup id e = (s.setInner id ((s.inner id).on e).1, none) := by
    simp [innerOn, hsilent]
  rw [heq]
  refine ⟨rfl, h.latest_eq, h.active, ?_, ?_⟩
  · simpa [setInner, Function.update_of_ne (show n ≠ id by omega)] using h.current
  · intro j hj
    by_cases hji : j = id
    · subst hji
      simpa [setInner] using hdisposed
    · simpa [setInner, hji] using h.older j hj

/-- An element of the current observable goes through and changes nothing. -/
theorem Follows.innerOn_next (h : s.Follows n) (a : α) :
    s.innerOn cleanup n (.next a) = (s, some (.next a)) := by
  have hset : s.setInner n {} = s := by
    rw [← h.current, setInner, Function.update_eq_self]
  simp [innerOn, h.current, iterOn, Event.isStopEvent, forwardOn, hset, h.latest_eq, h.active]

/-- An error of the current observable goes through and disposes the switch. -/
theorem Follows.innerOn_error (h : s.Follows n) (err : ε) :
    (s.innerOn cleanup n (.error err)).2 = some (.error err) ∧
      (s.innerOn cleanup n (.error err)).1.disposed = true := by
  simp [innerOn, h.current, iterOn, Event.isStopEvent, forwardOn, disposeInner, setInner,
    dispose, h.latest_eq, h.active]

/-- A disposed switch forwards nothing, whichever observable speaks. -/
theorem innerOn_disposed (h : s.disposed = true) (id : ℕ) (e : Event ε α) :
    (s.innerOn cleanup id e).2 = none ∧ (s.innerOn cleanup id e).1.disposed = true := by
  unfold innerOn
  split
  · exact ⟨rfl, h⟩
  · rename_i e' _
    cases e' <;>
      simp only [iterOn, Event.isStopEvent, forwardOn, disposeInner, setInner, dispose] <;>
      split_ifs <;> simp_all

end SwitchSink

end Mber.Sinks
