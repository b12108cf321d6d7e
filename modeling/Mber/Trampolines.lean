import Mber.QueueRefinement

/-!
CurrentThreadScheduler on one thread, over its circular queue. The outermost
call of `schedule` runs its action and then, one after the other, what has been
scheduled meanwhile; calls from within actions only enqueue. The last one out
removes the queue.
-/
namespace Mber.Trampolines

open Runs Queues

/-- Scheduled items are numbered. `running` holds the actions being executed;
`taken` and `started` record which items have been taken up and invoked. -/
structure CurrentThreadScheduler where
  isScheduleRequired : Bool := true
  queue : Option (Queue ℕ) := none
  isDisposed : ℕ → Bool := fun _ => false
  running : List ℕ := []
  scheduled : ℕ := 0
  taken : List ℕ := []
  started : List ℕ := []

inductive Input
  | schedule
  | actionReturns
  | dequeueLatest
  | dispose (item : ℕ)

namespace CurrentThreadScheduler

def invoke (s : CurrentThreadScheduler) (item : ℕ) : CurrentThreadScheduler :=
  { s with
    running := item :: s.running
    taken := s.taken ++ [item]
    started := s.started ++ [item] }

/-- The `defer` of the outermost call. -/
def leave (s : CurrentThreadScheduler) : CurrentThreadScheduler :=
  { s with isScheduleRequired := true, queue := none }

/-- Called from an action or from outside, but not between two actions. -/
def schedule (s : CurrentThreadScheduler) : Option CurrentThreadScheduler :=
  if s.isScheduleRequired then
    some ({ s with isScheduleRequired := false, scheduled := s.scheduled + 1 }.invoke s.scheduled)
  else if s.running.isEmpty then some s
  else ((s.queue.getD (Queue.create 1)).enqueue s.scheduled).map fun queue =>
    { s with queue := some queue, scheduled := s.scheduled + 1 }

/-- Without a queue there is nothing to do after the outermost action. -/
def actionReturns (s : CurrentThreadScheduler) : CurrentThreadScheduler :=
  match s.running with
  | [] => s
  | _ :: rest =>
    if rest.isEmpty && s.queue.isNone then { s with running := rest }.leave
    else { s with running := rest }

/-- One turn of the loop of the outermost call. -/
def dequeueLatest (s : CurrentThreadScheduler) : Option CurrentThreadScheduler :=
  if s.isScheduleRequired || !s.running.isEmpty then some s
  else match s.queue with
    | none => some s
    | some queue => queue.dequeue.map fun r =>
      match r.1 with
      | none => { s with queue := some r.2 }.leave
      | some latest =>
        if s.isDisposed latest then { s with queue := some r.2, taken := s.taken ++ [latest] }
        else { s with queue := some r.2 }.invoke latest

/-- `none` is a trap. -/
def step (s : Option CurrentThreadScheduler) (i : Input) : Option CurrentThreadScheduler :=
  s.bind fun s => match i with
    | .schedule => s.schedule
    | .actionReturns => some s.actionReturns
    | .dequeueLatest => s.dequeueLatest
    | .dispose item => some { s with isDisposed := Function.update s.isDisposed item true }

/-- What the queue holds. -/
def Pending (s : CurrentThreadScheduler) (pending : List ℕ) : Prop :=
  match s.queue with
  | none => pending = []
  | some queue => queue.Represents pending ∧ ¬ queue.Sparse

/-- The items that are taken are the first ones, the others wait in their
order, and only the outermost call is at work. -/
structure Ordered (s : CurrentThreadScheduler) (pending : List ℕ) : Prop where
  holds : s.Pending pending
  order : s.taken ++ pending = List.range s.scheduled
  alone : s.running.length ≤ 1
  outside : s.isScheduleRequired = true → s.running = [] ∧ s.queue = none
  looping : s.isScheduleRequired = false → s.running = [] → s.queue ≠ none
  started_sublist : s.started.Sublist s.taken
  skipped : ∀ item ∈ s.taken, item ∈ s.started ∨ s.isDisposed item = true

variable {s : CurrentThreadScheduler} {pending : List ℕ}

theorem ordered_init : ({} : CurrentThreadScheduler).Ordered [] := by
  refine ⟨rfl, rfl, Nat.zero_le _, fun _ => ⟨rfl, rfl⟩, ?_, List.Sublist.slnil, ?_⟩
  · simp
  · simp

/-- The queue to which a call from within an action adds its item. -/
theorem Pending.queue (h : s.Pending pending) :
    (s.queue.getD (Queue.create 1)).Represents pending ∧
      ¬ (s.queue.getD (Queue.create 1)).Sparse := by
  unfold Pending at h
  cases hqueue : s.queue with
  | none =>
    rw [hqueue] at h
    subst h
    obtain ⟨hrep, hdense, -⟩ := follows_create (T := ℕ) 1
    exact ⟨hrep, hdense⟩
  | some queue =>
    rw [hqueue] at h
    exact h

theorem Ordered.schedule (h : s.Ordered pending) :
    ∃ t pending', s.schedule = some t ∧ t.Ordered pending' := by
  unfold CurrentThreadScheduler.schedule
  split_ifs with hrequired hrunning
  · obtain ⟨hnone, hqueue⟩ := h.outside hrequired
    have hempty : pending = [] := by simpa [Pending, hqueue] using h.holds
    subst hempty
    have horder := h.order
    rw [List.append_nil] at horder
    refine ⟨_, [], rfl, ?_⟩
    refine ⟨by simp [Pending, invoke, hqueue], ?_, ?_, ?_, ?_, ?_, ?_⟩
    · simp [invoke, horder, List.range_succ]
    · simp [invoke, hnone]
    · simp [invoke]
    · simp [invoke]
    · exact h.started_sublist.append_right _
    · intro item hitem
      simp only [invoke, List.mem_append, List.mem_singleton] at hitem ⊢
      obtain hold | hnew := hitem
      · exact (h.skipped item hold).imp_left .inl
      · exact .inl (.inr hnew)
  · exact ⟨s, pending, rfl, h⟩
  · obtain ⟨hrep, hdense⟩ := h.holds.queue
    obtain ⟨queue, hqueue, hrep', hdense', -⟩ := hrep.enqueue hdense s.scheduled
    rw [hqueue]
    refine ⟨_, pending ++ [s.scheduled], rfl, ⟨hrep', hdense'⟩, ?_, h.alone, ?_, ?_,
      h.started_sublist, h.skipped⟩
    · simp [← List.append_assoc, h.order, List.range_succ]
    · simp [hrequired]
    · simp

/-- With a queue the loop goes on after an action. -/
theorem Ordered.actionReturns_loop (h : s.Ordered pending) (hinside : s.isScheduleRequired = false)
    (hqueue : s.queue ≠ none) : s.actionReturns = { s with running := [] } ∧
      ({ s with running := [] } : CurrentThreadScheduler).Ordered pending := by
  refine ⟨?_, h.holds, h.order, Nat.zero_le _, fun hrequired => ?_, fun _ _ => hqueue,
    h.started_sublist, h.skipped⟩
  · unfold CurrentThreadScheduler.actionReturns
    cases hrunning : s.running with
    | nil => simp [← hrunning]
    | cons item rest =>
      have halone := h.alone
      rw [hrunning, List.length_cons] at halone
      obtain rfl : rest = [] := List.length_eq_zero_iff.mp (by omega)
      simp [hqueue]
  · rw [hinside] at hrequired
    cases hrequired

/-- Without one the outermost call is at its end. -/
theorem Ordered.actionReturns_leave (h : s.Ordered pending) (hinside : s.isScheduleRequired = false)
    (hqueue : s.queue = none) : s.actionReturns = { s with running := [] }.leave ∧
      ({ s with running := [] }.leave : CurrentThreadScheduler).Ordered pending := by
  have hholds := h.holds
  simp only [Pending, hqueue] at hholds
  refine ⟨?_, hholds, h.order, Nat.zero_le _, fun _ => ⟨rfl, rfl⟩, fun hgoes => ?_,
    h.started_sublist, h.skipped⟩
  · unfold CurrentThreadScheduler.actionReturns
    cases hrunning : s.running with
    | nil => exact absurd hqueue (h.looping hinside hrunning)
    | cons item rest =>
      have halone := h.alone
      rw [hrunning, List.length_cons] at halone
      obtain rfl : rest = [] := List.length_eq_zero_iff.mp (by omega)
      simp [hqueue]
  · simp [CurrentThreadScheduler.leave] at hgoes

theorem Ordered.actionReturns (h : s.Ordered pending) :
    ∃ pending', s.actionReturns.Ordered pending' := by
  cases hrequired : s.isScheduleRequired with
  | true =>
    have hnone := (h.outside hrequired).1
    have hsame : s.actionReturns = s := by simp [CurrentThreadScheduler.actionReturns, hnone]
    exact ⟨pending, by rw [hsame]; exact h⟩
  | false =>
    cases hqueue : s.queue with
    | none =>
      obtain ⟨heq, hordered⟩ := h.actionReturns_leave hrequired hqueue
      exact ⟨pending, heq ▸ hordered⟩
    | some queue =>
      obtain ⟨heq, hordered⟩ := h.actionReturns_loop hrequired (by simp [hqueue])
      exact ⟨pending, heq ▸ hordered⟩

/-- The loop takes up the item at the front of the queue. -/
theorem Ordered.dequeueLatest_cons {latest : ℕ} {later : List ℕ} (h : s.Ordered (latest :: later))
    (hinside : s.isScheduleRequired = false) (hnone : s.running = []) :
    ∃ t, s.dequeueLatest = some t ∧ t.Ordered later ∧ t.isScheduleRequired = false ∧
      t.queue ≠ none ∧ t.scheduled = s.scheduled := by
  obtain ⟨queue, hqueue⟩ := Option.ne_none_iff_exists'.mp (h.looping hinside hnone)
  have hholds := h.holds
  simp only [Pending, hqueue] at hholds
  obtain ⟨hrep, hdense⟩ := hholds
  obtain ⟨rest, hdequeue, hrep', hdense', -⟩ := hrep.dequeue hdense
  have horder := h.order
  rw [← List.singleton_append, ← List.append_assoc] at horder
  cases hdisposed : s.isDisposed latest with
  | true =>
    have hstep : s.dequeueLatest =
        some { s with queue := some rest, taken := s.taken ++ [latest] } := by
      simp [CurrentThreadScheduler.dequeueLatest, hinside, hnone, hqueue, hdequeue, hdisposed]
    refine ⟨_, hstep, ⟨⟨hrep', hdense'⟩, horder, h.alone, fun hrequired => ?_, fun _ _ => ?_,
      h.started_sublist.trans (List.sublist_append_left _ _), fun item hitem => ?_⟩, hinside, ?_,
      rfl⟩
    · simp [hinside] at hrequired
    · simp
    · obtain hold | hnew := List.mem_append.mp hitem
      · exact h.skipped item hold
      · rw [List.mem_singleton.mp hnew]
        exact .inr hdisposed
    · simp
  | false =>
    have hstep : s.dequeueLatest = some ({ s with queue := some rest }.invoke latest) := by
      simp [CurrentThreadScheduler.dequeueLatest, hinside, hnone, hqueue, hdequeue, hdisposed]
    refine ⟨_, hstep, ⟨⟨hrep', hdense'⟩, horder, ?_, fun hrequired => ?_, fun _ _ => ?_,
      h.started_sublist.append_right _, fun item hitem => ?_⟩, hinside, ?_, rfl⟩
    · simp [invoke, hnone]
    · simp [invoke, hinside] at hrequired
    · simp [invoke]
    · simp only [invoke, List.mem_append, List.mem_singleton] at hitem ⊢
      obtain hold | hnew := hitem
      · exact (h.skipped item hold).imp_left .inl
      · exact .inl (.inr hnew)
    · simp [invoke]

/-- The loop finds nothing more, and the outermost call is at its end. -/
theorem Ordered.dequeueLatest_nil (h : s.Ordered []) (hinside : s.isScheduleRequired = false)
    (hnone : s.running = []) :
    ∃ t, s.dequeueLatest = some t ∧ t.Ordered [] ∧ t.isScheduleRequired = true ∧
      t.scheduled = s.scheduled := by
  obtain ⟨queue, hqueue⟩ := Option.ne_none_iff_exists'.mp (h.looping hinside hnone)
  have hholds := h.holds
  simp only [Pending, hqueue] at hholds
  obtain ⟨hrep, hdense⟩ := hholds
  obtain ⟨rest, hdequeue, -⟩ := hrep.dequeue hdense
  have hstep : s.dequeueLatest = some ({ s with queue := some rest }.leave) := by
    simp [CurrentThreadScheduler.dequeueLatest, hinside, hnone, hqueue, hdequeue]
  refine ⟨_, hstep, ⟨rfl, h.order, h.alone, fun _ => ⟨hnone, rfl⟩, fun hgoes => ?_,
    h.started_sublist, h.skipped⟩, rfl, rfl⟩
  simp [CurrentThreadScheduler.leave] at hgoes

theorem Ordered.dequeueLatest (h : s.Ordered pending) :
    ∃ t pending', s.dequeueLatest = some t ∧ t.Ordered pending' := by
  by_cases hbusy : (s.isScheduleRequired || !s.running.isEmpty) = true
  · exact ⟨s, pending, by rw [CurrentThreadScheduler.dequeueLatest, if_pos hbusy], h⟩
  simp only [Bool.or_eq_true, Bool.not_eq_true', not_or, Bool.not_eq_true, Bool.not_eq_false,
    List.isEmpty_iff] at hbusy
  obtain ⟨hinside, hnone⟩ := hbusy
  cases pending with
  | nil =>
    obtain ⟨t, ht, hordered, -⟩ := h.dequeueLatest_nil hinside hnone
    exact ⟨t, [], ht, hordered⟩
  | cons latest later =>
    obtain ⟨t, ht, hordered, -⟩ := h.dequeueLatest_cons hinside hnone
    exact ⟨t, later, ht, hordered⟩

theorem Ordered.step (h : s.Ordered pending) (i : Input) :
    ∃ t pending', step (some s) i = some t ∧ t.Ordered pending' := by
  cases i with
  | schedule => exact h.schedule
  | actionReturns =>
    obtain ⟨pending', hordered⟩ := h.actionReturns
    exact ⟨s.actionReturns, pending', rfl, hordered⟩
  | dequeueLatest => exact h.dequeueLatest
  | dispose item =>
    refine ⟨_, pending, rfl, h.holds, h.order, h.alone, h.outside, h.looping, h.started_sublist,
      fun j hj => (h.skipped j hj).imp_right fun hdisposed => ?_⟩
    by_cases hji : j = item
    · subst hji
      simp
    · simpa [hji] using hdisposed

theorem ordered_run (inputs : List Input) :
    ∃ s pending, run CurrentThreadScheduler.step (some {}) inputs = some s ∧ s.Ordered pending := by
  refine run_invariant
    (fun s => ∃ (t : CurrentThreadScheduler) (pending : List ℕ), s = some t ∧ t.Ordered pending)
    ?_ _ inputs ⟨{}, [], rfl, ordered_init⟩
  rintro _ i ⟨s, pending, rfl, h⟩
  exact h.step i

/-- Whatever the actions schedule and whoever disposes of what has been
scheduled, nothing traps, no action runs inside another, and the items are
taken up in the order in which they were scheduled: each is invoked then,
once, or has been disposed of. When the outermost call has returned, none is left. -/
theorem scheduled_in_order (inputs : List Input) :
    ∃ s, run CurrentThreadScheduler.step (some {}) inputs = some s ∧ s.running.length ≤ 1 ∧
      s.taken <+: List.range s.scheduled ∧ s.started.Sublist s.taken ∧
      (∀ item ∈ s.taken, item ∈ s.started ∨ s.isDisposed item = true) ∧
      (s.isScheduleRequired = true → s.taken = List.range s.scheduled) := by
  obtain ⟨s, pending, hrun, h⟩ := ordered_run inputs
  refine ⟨s, hrun, h.alone, ⟨pending, h.order⟩, h.started_sublist, h.skipped, fun hrequired => ?_⟩
  have hempty : pending = [] := by
    have hholds := h.holds
    simpa [Pending, (h.outside hrequired).2] using hholds
  have horder := h.order
  rwa [hempty, List.append_nil] at horder

/-- The loop of the outermost call, if its actions schedule nothing more. -/
def loop (n : ℕ) : List Input :=
  (List.replicate n [.dequeueLatest, .actionReturns]).flatten ++ [.dequeueLatest]

theorem Ordered.loop_end (h : s.Ordered pending) (hinside : s.isScheduleRequired = false)
    (hnone : s.running = []) :
    ∃ t, run CurrentThreadScheduler.step (some s) (loop pending.length) = some t ∧
      t.isScheduleRequired = true ∧ t.Ordered [] ∧ t.scheduled = s.scheduled := by
  induction pending generalizing s with
  | nil =>
    obtain ⟨t, ht, hordered, hrequired, hsame⟩ := h.dequeueLatest_nil hinside hnone
    exact ⟨t, ht, hrequired, hordered, hsame⟩
  | cons latest later ih =>
    obtain ⟨t, ht, hordered, hgoes, hqueue, hsame⟩ := h.dequeueLatest_cons hinside hnone
    obtain ⟨hreturns, hordered'⟩ := hordered.actionReturns_loop hgoes hqueue
    obtain ⟨v, hv, hrequired, hlast, hsame'⟩ := ih hordered' hgoes rfl
    refine ⟨v, ?_, hrequired, hlast, hsame'.trans hsame⟩
    have hturn : run CurrentThreadScheduler.step (some s) [.dequeueLatest, .actionReturns] =
        some { t with running := [] } := by
      simp only [run, CurrentThreadScheduler.step, Option.bind_some, ht, hreturns]
    rw [← hv, ← hturn, ← run_append]
    rfl

/-- From every reachable state the outermost call comes to its end: once its
action has returned, and those it still finds, the scheduler is as it was, and
nothing that was scheduled is left. -/
theorem outermost_returns (inputs : List Input) :
    ∃ s n t, run CurrentThreadScheduler.step (some {}) inputs = some s ∧
      run CurrentThreadScheduler.step (some s) (.actionReturns :: loop n) = some t ∧
      t.isScheduleRequired = true ∧ t.queue = none ∧ t.running = [] ∧
      t.taken = List.range s.scheduled := by
  obtain ⟨s, pending, hrun, h⟩ := ordered_run inputs
  suffices hend : ∃ t, run CurrentThreadScheduler.step (some s.actionReturns)
      (loop pending.length) = some t ∧ t.isScheduleRequired = true ∧ t.Ordered [] ∧
        t.scheduled = s.scheduled by
    obtain ⟨t, ht, hrequired, hordered, hsame⟩ := hend
    obtain ⟨hnone, hqueue⟩ := hordered.outside hrequired
    have horder := hordered.order
    rw [List.append_nil, hsame] at horder
    exact ⟨s, pending.length, t, hrun, ht, hrequired, hqueue, hnone, horder⟩
  cases hrequired : s.isScheduleRequired with
  | true =>
    -- Nothing is at work, and the loop is not entered.
    obtain ⟨hnone, hqueue⟩ := h.outside hrequired
    have hempty : pending = [] := by
      have hholds := h.holds
      simpa [Pending, hqueue] using hholds
    subst hempty
    have hreturns : s.actionReturns = s := by simp [CurrentThreadScheduler.actionReturns, hnone]
    have hlatest : s.dequeueLatest = some s := by
      simp [CurrentThreadScheduler.dequeueLatest, hrequired]
    exact ⟨s, by rw [hreturns]; exact hlatest, hrequired, h, rfl⟩
  | false =>
    cases hqueue : s.queue with
    | none =>
      obtain ⟨hreturns, hordered⟩ := h.actionReturns_leave hrequired hqueue
      have hempty : pending = [] := by simpa [Pending, hqueue] using h.holds
      subst hempty
      exact ⟨_, by rw [hreturns]; rfl, rfl, hordered, rfl⟩
    | some queue =>
      obtain ⟨hreturns, hordered⟩ := h.actionReturns_loop hrequired (by simp [hqueue])
      rw [hreturns]
      exact hordered.loop_end hrequired rfl

end CurrentThreadScheduler

end Mber.Trampolines
