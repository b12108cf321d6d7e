import Mber.Delivery
import Mber.SharedSequences

/-!
`share(replay:scope: .whileConnected)` with its connections coming and going.
Subscribing, unsubscribing and the receipt of an event each hold one lock; what
follows them runs outside it, later: the first subscriber connects, the last
one to leave disposes of the source subscription, and an event is handed to
the observers that were there when it was accepted. Without `replay` this is
ShareWhileConnected, with it ShareReplay1WhileConnected.

Two things are taken for granted. A source does not send an event before it has
handed over the last one. And an observer that is given the kept element does
not come back to the sequence from within that call: ShareReplay1WhileConnected
calls it before it inserts it, under a lock that would let it in.
-/
namespace Mber.Sharing

open Runs Sinks EventStreams Delivery SharedSequences

variable {ε α : Type*}

/-- Connections and subscribers are numbered. The lists `connecting` and
`disconnecting` hold the calls still to come, `connects` and `disconnects`
those made. `accepted` records the events a connection has taken in, `joined`
and `left` how many there were when a subscriber came and went, and `heard`
what it has received. -/
structure Share (ε α : Type*) where
  connection : Option ℕ := none
  connections : ℕ := 0
  conn : ℕ → ShareConnection ℕ α
  subscribers : ℕ := 0
  parent : ℕ → ℕ := fun _ => 0
  connecting : List ℕ := []
  connects : List ℕ := []
  disconnecting : List ℕ := []
  disconnects : List ℕ := []
  dispatching : ℕ → List (ℕ × Event ε α) := fun _ => []
  accepted : ℕ → List (Event ε α) := fun _ => []
  joined : ℕ → ℕ := fun _ => 0
  left : ℕ → Option ℕ := fun _ => none
  heard : ℕ → List (Event ε α) := fun _ => []

inductive Input (ε α : Type*)
  | subscribe
  | connect (c : ℕ)
  | on (c : ℕ) (e : Event ε α)
  | deliver (c : ℕ)
  | unsubscribe (k : ℕ)
  | disconnect (c : ℕ)

namespace Share

def init (replay : Bool) : Share ε α := { conn := fun _ => { replay } }

/-- Joins the connection or starts one; whoever finds it without observers
connects. The observer is given the kept element, then inserted: nothing comes
in between, since it does not call back. -/
def subscribe (s : Share ε α) : Share ε α :=
  let c := s.connection.getD s.connections
  let r := (s.conn c).subscribe s.subscribers
  { s with
    connection := some c
    connections := if s.connection.isSome then s.connections else s.connections + 1
    conn := Function.update s.conn c r.1
    subscribers := s.subscribers + 1
    parent := Function.update s.parent s.subscribers c
    connecting := if (s.conn c).observers.isEmpty then s.connecting ++ [c] else s.connecting
    joined := Function.update s.joined s.subscribers (s.accepted c).length
    heard := Function.update s.heard s.subscribers (r.2.map fun p => .next p.2) }

/-- `source.subscribe(connection)`. -/
def connect (s : Share ε α) (c : ℕ) : Share ε α :=
  if c ∈ s.connecting then
    { s with connecting := s.connecting.erase c, connects := s.connects ++ [c] }
  else s

/-- `_synchronized_dispose` lets go of the connection. -/
def released (s : Share ε α) (c : ℕ) : Option ℕ :=
  if s.connection = some c then none else s.connection

/-- The source of a connection sends an event, which is taken in under the lock. -/
def on (s : Share ε α) (c : ℕ) (e : Event ε α) : Share ε α :=
  if c ∈ s.connects ∧ (s.dispatching c).isEmpty then
    if (s.conn c).disposed then s
    else
      let r := (s.conn c).on e
      { s with
        connection := if r.1.disposed then s.released c else s.connection
        conn := Function.update s.conn c r.1
        dispatching := Function.update s.dispatching c r.2
        accepted := Function.update s.accepted c (s.accepted c ++ [e]) }
  else s

/-- One more observer is called with the event that is being handed over. -/
def deliver (s : Share ε α) (c : ℕ) : Share ε α :=
  match s.dispatching c with
  | [] => s
  | (k, e) :: rest =>
    { s with
      dispatching := Function.update s.dispatching c rest
      heard := Function.update s.heard k (s.heard k ++ [e]) }

def unsubscribe (s : Share ε α) (k : ℕ) : Share ε α :=
  let c := s.parent k
  if k ∈ (s.conn c).observers then
    let observers := (s.conn c).observers.erase k
    { s with
      connection := if observers.isEmpty then s.released c else s.connection
      conn := Function.update s.conn c
        { s.conn c with observers := observers, disposed := observers.isEmpty }
      disconnecting := if observers.isEmpty then s.disconnecting ++ [c] else s.disconnecting
      left := Function.update s.left k (some (s.accepted c).length) }
  else s

/-- `_subscription.dispose()`. -/
def disconnect (s : Share ε α) (c : ℕ) : Share ε α :=
  if c ∈ s.disconnecting then
    { s with disconnecting := s.disconnecting.erase c, disconnects := s.disconnects ++ [c] }
  else s

def step (s : Share ε α) : Input ε α → Share ε α
  | .subscribe => s.subscribe
  | .connect c => s.connect c
  | .on c e => s.on c e
  | .deliver c => s.deliver c
  | .unsubscribe k => s.unsubscribe k
  | .disconnect c => s.disconnect c

def element? : Event ε α → Option α
  | .next a => some a
  | _ => none

/-- The last element, if there is one. -/
def latest (events : List (Event ε α)) : Option α :=
  (events.filterMap element?).getLast?

/-- What the connection of a subscriber keeps for it, then the events from its
coming to its going. -/
def due (replay : Bool) (events : List (Event ε α)) (joined : ℕ) (left : Option ℕ) :
    List (Event ε α) :=
  ((if replay then latest (events.take joined) else none).toList.map .next) ++
    (events.take (left.getD events.length)).drop joined

theorem latest_next (events : List (Event ε α)) (a : α) :
    latest (events ++ [.next a]) = some a := by
  simp [latest, element?]

/-- A subscriber that is there has the next event due. -/
theorem due_append_there (replay : Bool) (events : List (Event ε α)) (e : Event ε α) {joined : ℕ}
    (hjoined : joined ≤ events.length) :
    due replay (events ++ [e]) joined none = due replay events joined none ++ [e] := by
  have htake : (events ++ [e]).take joined = events.take joined :=
    List.take_append_of_le_length hjoined
  have hdrop : (events ++ [e]).drop joined = events.drop joined ++ [e] :=
    List.drop_append_of_le_length hjoined
  simp only [due, htake, Option.getD_none, List.take_length, hdrop, List.append_assoc]

/-- A subscriber that has gone has not. -/
theorem due_append_gone (replay : Bool) (events : List (Event ε α)) (e : Event ε α)
    {joined n : ℕ} (hjoined : joined ≤ n) (hn : n ≤ events.length) :
    due replay (events ++ [e]) joined (some n) = due replay events joined (some n) := by
  have htake : ∀ m, m ≤ events.length → (events ++ [e]).take m = events.take m :=
    fun m hm => List.take_append_of_le_length hm
  simp only [due, Option.getD_some, htake n hn, htake joined (hjoined.trans hn)]

/-- Going changes nothing about what was due. -/
theorem due_leave (replay : Bool) (events : List (Event ε α)) (joined : ℕ) :
    due replay events joined (some events.length) = due replay events joined none := rfl

/-- A new subscriber first hears what the connection has kept. -/
theorem due_join (replay : Bool) (events : List (Event ε α)) :
    due replay events events.length none =
      (if replay then latest events else none).toList.map .next := by
  simp [due]

/-- A connection serves its observers from its first subscriber to its end;
then it is let go of. -/
structure ConnectionSound (replay : Bool) (s : Share ε α) (c : ℕ) : Prop where
  current : s.connection = some c ↔ c < s.connections ∧ (s.conn c).disposed = false
  served : c < s.connections → (s.conn c).disposed = false → (s.conn c).observers ≠ []
  silent : (s.conn c).disposed = true → (s.conn c).observers = []
  unused : s.connections ≤ c →
    s.conn c = { replay } ∧ s.accepted c = [] ∧ s.dispatching c = []
  replay_eq : (s.conn c).replay = replay
  connect_once : s.connecting.count c + s.connects.count c = if c < s.connections then 1 else 0
  disconnect_once : s.disconnecting.count c + s.disconnects.count c =
    if (s.conn c).disposed = true ∧ stopped (s.accepted c) = false then 1 else 0
  running : (s.conn c).disposed = false → stopped (s.accepted c) = false
  grammar : Grammatical (s.accepted c)
  element : (s.conn c).disposed = false →
    (s.conn c).element = if replay then latest (s.accepted c) else none
  members : (s.conn c).disposed = false → ∀ k, k ∈ (s.conn c).observers ↔
    k < s.subscribers ∧ s.parent k = c ∧ s.left k = none
  nodup : (s.conn c).observers.Nodup
  called : ∀ p ∈ s.dispatching c, p.1 < s.subscribers ∧ s.parent p.1 = c

/-- A subscriber has heard what was due, except for the events still being handed over. -/
structure SubscriberSound (replay : Bool) (s : Share ε α) (k : ℕ) : Prop where
  parent_lt : s.parent k < s.connections
  joined_le : s.joined k ≤ (s.accepted (s.parent k)).length
  left_le : ∀ n, s.left k = some n → s.joined k ≤ n ∧ n ≤ (s.accepted (s.parent k)).length
  stream : s.heard k ++ eventsFor k (s.dispatching (s.parent k)) =
    due replay (s.accepted (s.parent k)) (s.joined k) (s.left k)

structure Sound (replay : Bool) (s : Share ε α) : Prop where
  connection : ∀ c, s.ConnectionSound replay c
  subscriber : ∀ k, k < s.subscribers → s.SubscriberSound replay k
  still_to_come : ∀ k, s.subscribers ≤ k → s.left k = none

theorem sound_init (replay : Bool) : (init replay : Share ε α).Sound replay := by
  refine ⟨fun c => ⟨?_, ?_, ?_, fun _ => ⟨rfl, rfl, rfl⟩, rfl, rfl, ?_, fun _ => rfl, rfl, ?_, ?_,
    List.nodup_nil, ?_⟩, fun k hk => absurd hk (Nat.not_lt_zero k), fun _ _ => rfl⟩
  · simp [init]
  · intro hc
    exact absurd hc (Nat.not_lt_zero c)
  · simp [init]
  · simp [init]
  · cases replay <;> simp [init, latest]
  · simp [init]
  · simp [init]

variable {replay : Bool} {s : Share ε α}

/-- A call moves from the calls to come to the calls made. -/
theorem count_moved {coming made : List ℕ} {c : ℕ} (hc : c ∈ coming) (j : ℕ) :
    (coming.erase c).count j + (made ++ [c]).count j = coming.count j + made.count j := by
  rw [List.count_append, List.count_singleton]
  by_cases hj : c = j
  · subst hj
    have hpos := List.count_pos_iff.mpr hc
    simp only [List.count_erase_self, beq_self_eq_true, if_true]
    omega
  · have hne : (c == j) = false := by simpa using hj
    simp [List.count_erase_of_ne (Ne.symm hj), hne]

/-- What happens to another connection leaves a connection sound. -/
theorem ConnectionSound.apart {t : Share ε α} {j : ℕ} (h : s.ConnectionSound replay j)
    (hconn : t.conn j = s.conn j) (haccepted : t.accepted j = s.accepted j)
    (hdispatching : ∀ p ∈ t.dispatching j, p ∈ s.dispatching j)
    (hcurrent : t.connection = some j ↔ s.connection = some j)
    (hbelow : j < t.connections ↔ j < s.connections)
    (hconnect : t.connecting.count j + t.connects.count j =
      s.connecting.count j + s.connects.count j)
    (hdisconnect : t.disconnecting.count j + t.disconnects.count j =
      s.disconnecting.count j + s.disconnects.count j)
    (hmembers : ∀ k, (k < t.subscribers ∧ t.parent k = j ∧ t.left k = none) ↔
      k < s.subscribers ∧ s.parent k = j ∧ s.left k = none)
    (hcalled : ∀ k, k < s.subscribers ∧ s.parent k = j → k < t.subscribers ∧ t.parent k = j) :
    t.ConnectionSound replay j := by
  constructor
  · rw [hcurrent, h.current, hbelow, hconn]
  · rw [hbelow, hconn]
    exact h.served
  · rw [hconn]
    exact h.silent
  · intro hge
    obtain ⟨hunused, hnone, hcalls⟩ := h.unused (by omega)
    refine ⟨hconn.trans hunused, haccepted.trans hnone, List.eq_nil_iff_forall_not_mem.mpr ?_⟩
    intro p hp
    have hmem := hdispatching p hp
    simp [hcalls] at hmem
  · rw [hconn]
    exact h.replay_eq
  · rw [hconnect, h.connect_once]
    simp only [hbelow]
  · rw [hdisconnect, h.disconnect_once, hconn, haccepted]
  · rw [hconn, haccepted]
    exact h.running
  · rw [haccepted]
    exact h.grammar
  · rw [hconn, haccepted]
    exact h.element
  · intro hnot k
    rw [hconn] at hnot ⊢
    rw [h.members hnot k, hmembers k]
  · rw [hconn]
    exact h.nodup
  · exact fun p hp => hcalled p.1 (h.called p (hdispatching p hp))

theorem sound_connect (h : s.Sound replay) (c : ℕ) : (s.connect c).Sound replay := by
  unfold connect
  split_ifs with hc
  · refine ⟨fun j => ?_, fun k hk => ?_, h.still_to_come⟩
    · exact (h.connection j).apart rfl rfl (fun _ hp => hp) Iff.rfl Iff.rfl (count_moved hc j) rfl
        (fun _ => Iff.rfl) (fun _ hk => hk)
    · obtain ⟨h1, h2, h3, h4⟩ := h.subscriber k hk
      exact ⟨h1, h2, h3, h4⟩
  · exact h

theorem sound_disconnect (h : s.Sound replay) (c : ℕ) : (s.disconnect c).Sound replay := by
  unfold disconnect
  split_ifs with hc
  · refine ⟨fun j => ?_, fun k hk => ?_, h.still_to_come⟩
    · exact (h.connection j).apart rfl rfl (fun _ hp => hp) Iff.rfl Iff.rfl rfl (count_moved hc j)
        (fun _ => Iff.rfl) (fun _ hk => hk)
    · obtain ⟨h1, h2, h3, h4⟩ := h.subscriber k hk
      exact ⟨h1, h2, h3, h4⟩
  · exact h

theorem sound_deliver (h : s.Sound replay) (c : ℕ) : (s.deliver c).Sound replay := by
  unfold deliver
  cases hd : s.dispatching c with
  | nil => exact h
  | cons p rest =>
    obtain ⟨k, e⟩ := p
    obtain ⟨hk, hparent⟩ := (h.connection c).called (k, e) (hd ▸ List.mem_cons_self)
    refine ⟨fun j => ?_, fun i hi => ?_, h.still_to_come⟩
    · refine (h.connection j).apart rfl rfl (fun p hp => ?_) Iff.rfl Iff.rfl rfl rfl
        (fun _ => Iff.rfl) (fun _ hk => hk)
      by_cases hjc : j = c
      · subst hjc
        simp only [Function.update_self] at hp
        exact hd ▸ List.mem_cons_of_mem _ hp
      · simpa [hjc] using hp
    · obtain ⟨h1, h2, h3, h4⟩ := h.subscriber i hi
      refine ⟨h1, h2, h3, ?_⟩
      have hsplit : eventsFor i ((k, e) :: rest) = eventsFor i [(k, e)] ++ eventsFor i rest := by
        rw [← ObserveOn.eventsFor_append]
        rfl
      by_cases hic : s.parent i = c
      · rw [hic, hd, hsplit, ObserveOn.eventsFor_singleton] at h4
        by_cases hik : k = i
        · subst hik
          simpa [hic] using h4
        · simpa [hic, hik, Ne.symm hik] using h4
      · have hik : i ≠ k := by
          rintro rfl
          exact hic hparent
        simpa [hic, hik] using h4

/-- Whoever serves observers is the current connection. -/
theorem Sound.of_observer (h : s.Sound replay) {c k : ℕ} (hk : k ∈ (s.conn c).observers) :
    (s.conn c).disposed = false ∧ c < s.connections ∧ s.connection = some c := by
  have hc := h.connection c
  have hnot : (s.conn c).disposed = false := by
    cases hdisposed : (s.conn c).disposed with
    | true => simp [hc.silent hdisposed] at hk
    | false => rfl
  have hlt : c < s.connections := by
    by_contra hge
    have hconn := (hc.unused (Nat.not_lt.mp hge)).1
    rw [hconn] at hk
    simp at hk
  exact ⟨hnot, hlt, hc.current.mpr ⟨hlt, hnot⟩⟩

/-- A running connection hands an event to all its observers; a stop event ends it. -/
theorem conn_on {t : ShareConnection ℕ α} (hnot : t.disposed = false) (e : Event ε α) :
    (t.on e).2 = t.observers.map (fun k => (k, e)) ∧ (t.on e).1.disposed = e.isStopEvent ∧
      (t.on e).1.observers = (if e.isStopEvent then [] else t.observers) ∧
      (t.on e).1.replay = t.replay ∧
      ∀ a, e = .next a → (t.on e).1.element = if t.replay then some a else none := by
  cases e <;> simp [ShareConnection.on, hnot, Event.isStopEvent]

/-- A connected, running connection is the current one. -/
theorem Sound.of_connected (h : s.Sound replay) {c : ℕ} (hconnected : c ∈ s.connects)
    (hnot : (s.conn c).disposed = false) : c < s.connections ∧ s.connection = some c := by
  have hlt : c < s.connections := by
    have hpos := List.count_pos_iff.mpr hconnected
    have hone := (h.connection c).connect_once
    by_contra hge
    rw [if_neg hge] at hone
    omega
  exact ⟨hlt, (h.connection c).current.mpr ⟨hlt, hnot⟩⟩

/-- A connection that ends is let go of. -/
theorem released_of_current {c : ℕ} (hcurrent : s.connection = some c) (ends : Bool) :
    (if ends = true then s.released c else s.connection) =
      if ends = true then none else some c := by
  simp [released, hcurrent]

/-- Ending or not, a connection leaves the others as they are. -/
theorem released_apart {c j : ℕ} (hcurrent : s.connection = some c) (hj : j ≠ c) (ends : Bool) :
    (if ends = true then s.released c else s.connection) = some j ↔ s.connection = some j := by
  rw [released_of_current hcurrent, hcurrent]
  cases ends <;> simp [Ne.symm hj]

/-- The connection an event comes in at. -/
theorem Sound.on_connection (h : s.Sound replay) {c : ℕ} (hconnected : c ∈ s.connects)
    (hempty : (s.dispatching c).isEmpty = true) (hnot : (s.conn c).disposed = false)
    (e : Event ε α) : (s.on c e).ConnectionSound replay c := by
  obtain ⟨hout, hends, hobservers, hreplay, helement⟩ := conn_on hnot e
  obtain ⟨hlt, hcurrent⟩ := h.of_connected hconnected hnot
  have hc := h.connection c
  have hrunning := hc.running hnot
  have hreleased := released_of_current hcurrent e.isStopEvent
  have hnotend : ¬ (s.conn c).disposed = true := by simp [hnot]
  unfold on
  rw [if_pos ⟨hconnected, hempty⟩, if_neg hnotend]
  constructor
  · simp only [hends, hreleased, Function.update_self]
    cases e.isStopEvent <;> simp [hlt]
  · intro _ hgoes
    simp only [Function.update_self, hends] at hgoes
    simp only [Function.update_self, hobservers, hgoes]
    exact hc.served hlt hnot
  · intro hstop
    simp only [Function.update_self, hends] at hstop
    simp only [Function.update_self, hobservers, hstop, if_true]
  · intro hge
    exact absurd hlt (Nat.not_lt.mpr hge)
  · simpa [hreplay] using hc.replay_eq
  · exact hc.connect_once
  · have hnone := hc.disconnect_once
    simp only [hnot, Bool.false_eq_true, false_and, if_false] at hnone
    simp only [Function.update_self, hends, stopped_append, stopped_singleton, hrunning]
    cases e.isStopEvent <;> simpa using hnone
  · intro hgoes
    simp only [Function.update_self, hends] at hgoes
    simp [hrunning, hgoes]
  · simp only [Function.update_self]
    rw [Grammatical, untilStop_concat_of_running hrunning, untilStop_of_running hrunning]
  · intro hgoes
    simp only [Function.update_self, hends] at hgoes
    cases e with
    | next a => simp [helement a rfl, hc.replay_eq, latest_next]
    | error err => simp [Event.isStopEvent] at hgoes
    | completed => simp [Event.isStopEvent] at hgoes
  · intro hgoes
    simp only [Function.update_self, hends] at hgoes
    simpa [hobservers, hgoes] using hc.members hnot
  · simp only [Function.update_self, hobservers]
    cases e.isStopEvent
    · exact hc.nodup
    · exact List.nodup_nil
  · intro p hp
    simp only [Function.update_self, hout] at hp
    obtain ⟨k, hk, rfl⟩ := List.mem_map.mp hp
    obtain ⟨hbelow, hparent, -⟩ := (hc.members hnot k).mp hk
    exact ⟨hbelow, hparent⟩

/-- The subscribers that are there have the event due, and are called with it. -/
theorem Sound.on_stream (h : s.Sound replay) {c i : ℕ} (hempty : (s.dispatching c).isEmpty = true)
    (hnot : (s.conn c).disposed = false) (hi : i < s.subscribers) (hparent : s.parent i = c)
    (e : Event ε α) : s.heard i ++ eventsFor i ((s.conn c).on e).2 =
      due replay (s.accepted c ++ [e]) (s.joined i) (s.left i) := by
  obtain ⟨-, hjoined, hleft, hstream⟩ := h.subscriber i hi
  rw [hparent] at hjoined hleft hstream
  have hpending : eventsFor i (s.dispatching c) = [] := by
    rw [List.isEmpty_iff.mp hempty]
    rfl
  rw [hpending, List.append_nil] at hstream
  have hmem := (h.connection c).members hnot i
  rw [hstream, (conn_on hnot e).1]
  cases hgone : s.left i with
  | none =>
    rw [ObserveOn.eventsFor_of_mem (h.connection c).nodup (hmem.mpr ⟨hi, hparent, hgone⟩),
      due_append_there replay _ e hjoined]
  | some n =>
    have hout : i ∉ (s.conn c).observers := by
      intro hin
      have hthere := (hmem.mp hin).2.2
      rw [hgone] at hthere
      cases hthere
    obtain ⟨hbefore, hn⟩ := hleft n hgone
    rw [ObserveOn.eventsFor_of_not_mem hout, List.append_nil,
      due_append_gone replay _ e hbefore hn]

theorem sound_on (h : s.Sound replay) (c : ℕ) (e : Event ε α) : (s.on c e).Sound replay := by
  by_cases hguard : c ∈ s.connects ∧ (s.dispatching c).isEmpty = true
  swap
  · simpa only [on, hguard, if_false] using h
  cases hnot : (s.conn c).disposed with
  | true => simpa only [on, hguard, hnot, and_self, if_true] using h
  | false =>
    obtain ⟨hconnected, hempty⟩ := hguard
    have hself := h.on_connection hconnected hempty hnot e
    have hcurrent := (h.of_connected hconnected hnot).2
    have hnotend : ¬ (s.conn c).disposed = true := by simp [hnot]
    unfold on at hself ⊢
    rw [if_pos ⟨hconnected, hempty⟩, if_neg hnotend] at hself ⊢
    refine ⟨fun j => ?_, fun i hi => ?_, h.still_to_come⟩
    · by_cases hjc : j = c
      · subst hjc
        exact hself
      · exact (h.connection j).apart (by simp [hjc]) (by simp [hjc]) (by simp [hjc])
          (released_apart hcurrent hjc _) Iff.rfl rfl rfl (fun _ => Iff.rfl) (fun _ hk => hk)
    · obtain ⟨h1, h2, h3, h4⟩ := h.subscriber i hi
      by_cases hparent : s.parent i = c
      · have hstream := h.on_stream hempty hnot hi hparent e
        rw [hparent] at h2 h3
        refine ⟨h1, ?_, ?_, by simpa only [hparent, Function.update_self] using hstream⟩
        · simp only [hparent, Function.update_self, List.length_append]
          omega
        · intro n hn
          have hbounds := h3 n hn
          simp only [hparent, Function.update_self, List.length_append]
          omega
      · refine ⟨h1, ?_, ?_, ?_⟩ <;> simpa only [Function.update_of_ne hparent]

end Share

end Mber.Sharing
