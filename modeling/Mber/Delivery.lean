import Mber.EventStreams
import Mber.Scheduling

/-!
`observeOn(MainScheduler.instance)` for any number of sinks that share the
scheduler. Each sink has one source thread, and subscriptions are disposed on
the main thread, so that no disposal comes between a block's look at the flag
and its call of the observer. An event passes the sink's latch, is scheduled,
and reaches the observer when its block runs, unless the subscription has been
disposed by then.
-/
namespace Mber.Delivery

open Sinks EventStreams Scheduling Runs

/-- `isStopped` is the latch of ObserverBase, `cancelled` the flag of the
subscription. -/
structure ObserveOnSink where
  isStopped : Bool := false
  cancelled : Bool := false

inductive Input (κ ε α : Type*)
  | on (k : κ) (e : Event ε α)
  | schedule (t : Thread)
  | async (t : Thread)
  | dequeue
  | finish
  | dispose (k : κ)

/-- `latched` holds the events between the latch and the scheduler. `received`,
`delivered` and `disposed` record what each source has sent, what each observer
has been given and which subscriptions were disposed from outside. -/
structure ObserveOn (κ ε α : Type*) where
  scheduler : MainScheduler (κ × Event ε α) := {}
  sinks : κ → ObserveOnSink := fun _ => {}
  latched : List (κ × Event ε α) := []
  received : κ → List (Event ε α) := fun _ => []
  delivered : κ → List (Event ε α) := fun _ => []
  disposed : κ → Bool := fun _ => false

variable {κ ε α : Type*} [DecidableEq κ]

def eventsFor (k : κ) (pairs : List (κ × Event ε α)) : List (Event ε α) :=
  (pairs.filter (fun p => p.1 = k)).map (·.2)

def actions (calls : List (Call (κ × Event ε α))) : List (κ × Event ε α) := calls.map (·.action)

namespace ObserveOn

variable (source : κ → Thread)

/-- The thread is inside `on` or inside `schedule`. -/
def occupied (s : ObserveOn κ ε α) (t : Thread) : Bool :=
  s.latched.any (fun p => source p.1 = t) || s.scheduler.busy t

/-- A stop event closes the latch; after it, or after a disposal, nothing gets
past it. -/
def on (s : ObserveOn κ ε α) (k : κ) (e : Event ε α) : ObserveOn κ ε α :=
  let received := Function.update s.received k (s.received k ++ [e])
  if (s.sinks k).isStopped then { s with received := received }
  else
    { s with
      received := received
      latched := s.latched ++ [(k, e)]
      sinks := Function.update s.sinks k
        { s.sinks k with isStopped := e.isStopEvent } }

/-- The scheduled closure: it looks at the flag, calls the observer, and
disposes the sink after a stop event. -/
def deliver (s : ObserveOn κ ε α) (k : κ) (e : Event ε α) : ObserveOn κ ε α :=
  if (s.sinks k).cancelled then s
  else
    { s with
      delivered := Function.update s.delivered k (s.delivered k ++ [e])
      sinks := if e.isStopEvent then
        Function.update s.sinks k { isStopped := true, cancelled := true } else s.sinks }

/-- The scheduler has made a step and perhaps started a call. -/
def ran (s : ObserveOn κ ε α)
    (r : MainScheduler (κ × Event ε α) × Option (Call (κ × Event ε α))) : ObserveOn κ ε α :=
  match r.2 with
  | none => { s with scheduler := r.1 }
  | some c => { s with scheduler := r.1 }.deliver c.action.1 c.action.2

/-- The thread goes on from the latch to the scheduler. -/
def schedule (s : ObserveOn κ ε α) (t : Thread) : ObserveOn κ ε α :=
  match s.latched.find? (fun p => source p.1 = t) with
  | none => s
  | some p =>
    { s with latched := s.latched.eraseP (fun p => source p.1 = t) }.ran
      (s.scheduler.scheduleInternal t p)

def dispose (s : ObserveOn κ ε α) (k : κ) : ObserveOn κ ε α :=
  { s with
    sinks := Function.update s.sinks k { isStopped := true, cancelled := true }
    disposed := Function.update s.disposed k true }

/-- The main thread disposes, like everything else it does, between its calls. -/
def step (s : ObserveOn κ ε α) : Input κ ε α → ObserveOn κ ε α
  | .on k e => if s.occupied source (source k) then s else s.on k e
  | .schedule t => s.schedule source t
  | .async t => { s with scheduler := s.scheduler.async t }
  | .dequeue =>
    if s.scheduler.running.isEmpty && !s.occupied source .main then s.ran s.scheduler.dequeue else s
  | .finish =>
    if s.occupied source .main then s else { s with scheduler := s.scheduler.finish }
  | .dispose k => if s.occupied source .main then s else s.dispose k

/-- The events of a sink that have passed its latch and wait. -/
def waiting (s : ObserveOn κ ε α) (k : κ) : List (Event ε α) :=
  eventsFor k (actions s.scheduler.mainQueue ++ actions s.scheduler.scheduling ++ s.latched)

/-- What holds of a sink in every reachable state. -/
structure SinkFaithful (s : ObserveOn κ ε α) (k : κ) : Prop where
  passed : s.disposed k = false → untilStop (s.received k) = s.delivered k ++ s.waiting k
  isStopped_eq : s.disposed k = false → (s.sinks k).isStopped = stopped (s.received k)
  cancelled_eq : s.disposed k = false → (s.sinks k).cancelled = stopped (s.delivered k)
  ended : s.disposed k = true → (s.sinks k).isStopped = true ∧ (s.sinks k).cancelled = true ∧
    s.delivered k <+: untilStop (s.received k)

/-- What holds of the threads. -/
structure Serial (s : ObserveOn κ ε α) : Prop where
  ordered : s.scheduler.Ordered
  cancelled_eq : s.scheduler.cancelled = []
  threads : ∀ c ∈ s.scheduler.scheduling, c.thread = source c.action.1
  one_each : (s.latched.map (fun p => source p.1) ++
    s.scheduler.scheduling.map (·.thread)).Nodup

variable {source} {s u : ObserveOn κ ε α} {k : κ}

@[simp] theorem eventsFor_append (k : κ) (xs ys : List (κ × Event ε α)) :
    eventsFor k (xs ++ ys) = eventsFor k xs ++ eventsFor k ys := by
  simp [eventsFor]

theorem eventsFor_singleton (k j : κ) (e : Event ε α) :
    eventsFor k [(j, e)] = if j = k then [e] else [] := by
  by_cases h : j = k <;> simp [eventsFor, h]

/-- One event for several sinks. -/
theorem eventsFor_map (k : κ) (e : Event ε α) (sinks : List κ) :
    eventsFor k (sinks.map (fun j => (j, e))) = List.replicate (sinks.count k) e := by
  induction sinks with
  | nil => rfl
  | cons j rest ih =>
    have hsplit : eventsFor k ((j :: rest).map (fun j => (j, e))) =
        eventsFor k [(j, e)] ++ eventsFor k (rest.map (fun j => (j, e))) := by
      rw [← eventsFor_append]
      rfl
    rw [hsplit, ih, eventsFor_singleton, List.count_cons]
    by_cases hj : j = k
    · simp [hj, List.replicate_succ]
    · simp [hj]

theorem eventsFor_of_mem {sinks : List κ} (hnodup : sinks.Nodup) (hk : k ∈ sinks)
    (e : Event ε α) : eventsFor k (sinks.map (fun j => (j, e))) = [e] := by
  rw [eventsFor_map, List.count_eq_one_of_mem hnodup hk]
  rfl

theorem eventsFor_of_not_mem {sinks : List κ} (hk : k ∉ sinks) (e : Event ε α) :
    eventsFor k (sinks.map (fun j => (j, e))) = [] := by
  rw [eventsFor_map, List.count_eq_zero_of_not_mem hk]
  rfl

/-- Of pairs with different sources at most one belongs to a given sink. -/
theorem eventsFor_apart (k : κ) (front back : List (κ × Event ε α)) (p : κ × Event ε α)
    (hnodup : ((front ++ p :: back).map (fun p => source p.1)).Nodup) :
    eventsFor k [p] = [] ∨ eventsFor k (front ++ back) = [] := by
  rw [List.map_append, List.map_cons, List.nodup_middle, List.nodup_cons, ← List.map_append]
    at hnodup
  by_cases hp : p.1 = k
  · refine .inr ?_
    have hfilter : (front ++ back).filter (fun p => p.1 = k) = [] := by
      rw [List.filter_eq_nil_iff]
      intro q hq heq
      refine hnodup.1 (List.mem_map.mpr ⟨q, hq, ?_⟩)
      rw [hp, of_decide_eq_true heq]
    simp [eventsFor, hfilter]
  · exact .inl (by simp [eventsFor, hp])

theorem eventsFor_middle (k : κ) (front back : List (κ × Event ε α)) (p : κ × Event ε α)
    (hnodup : ((front ++ p :: back).map (fun p => source p.1)).Nodup) :
    eventsFor k (front ++ p :: back) = eventsFor k [p] ++ eventsFor k (front ++ back) ∧
      eventsFor k (front ++ p :: back) = eventsFor k (front ++ back) ++ eventsFor k [p] := by
  have hsplit : eventsFor k (front ++ p :: back) =
      eventsFor k front ++ eventsFor k [p] ++ eventsFor k back := by
    rw [List.append_cons, eventsFor_append, eventsFor_append]
  rw [hsplit]
  rcases eventsFor_apart k front back p hnodup with hp | hrest
  · simp [hp]
  · rw [eventsFor_append, List.append_eq_nil_iff] at hrest
    simp [hrest]

/-- A sink's part of the state is the same, except perhaps that its waiting
events are kept elsewhere. -/
structure SameSink (s u : ObserveOn κ ε α) (k : κ) : Prop where
  sinks_eq : u.sinks k = s.sinks k
  received_eq : u.received k = s.received k
  delivered_eq : u.delivered k = s.delivered k
  disposed_eq : u.disposed k = s.disposed k

theorem SinkFaithful.congr (h : s.SinkFaithful k) (hsame : s.SameSink u k)
    (hwait : u.waiting k = s.waiting k) : u.SinkFaithful k := by
  obtain ⟨hs, hr, hd, hx⟩ := hsame
  refine ⟨?_, ?_, ?_, ?_⟩
  · rw [hr, hd, hx, hwait]
    exact h.passed
  · rw [hs, hr, hx]
    exact h.isStopped_eq
  · rw [hs, hd, hx]
    exact h.cancelled_eq
  · rw [hs, hr, hd, hx]
    exact h.ended

/-- The first waiting event of a sink that is not disposed reaches its
observer; the sinks of other events keep what they have. -/
theorem SinkFaithful.deliver (h : s.SinkFaithful k) (j : κ) (e : Event ε α)
    (hsame : s.SameSink u k) (hwait : s.waiting k = eventsFor k [(j, e)] ++ u.waiting k) :
    (u.deliver j e).SinkFaithful k := by
  have hwaiting : (u.deliver j e).waiting k = u.waiting k := by
    unfold ObserveOn.deliver
    split_ifs <;> rfl
  by_cases hj : j = k
  · subst hj
    rw [eventsFor_singleton, if_pos rfl, List.singleton_append] at hwait
    obtain ⟨hs, hr, hd, hx⟩ := hsame
    cases hdis : s.disposed j with
    | true =>
      obtain ⟨hstop, hcancel, hprefix⟩ := h.ended hdis
      have hsilent : u.deliver j e = u := by simp [ObserveOn.deliver, hs, hcancel]
      rw [hsilent]
      refine ⟨?_, ?_, ?_, fun _ => ?_⟩
      · simp [hx, hdis]
      · simp [hx, hdis]
      · simp [hx, hdis]
      · rw [hs, hr, hd]
        exact ⟨hstop, hcancel, hprefix⟩
    | false =>
      have hpassed := h.passed hdis
      rw [hwait] at hpassed
      -- a delivered stop event would have been the last one
      have hrunning : stopped (s.delivered j) = false := by
        by_contra hstop
        have hgram := grammatical_untilStop (s.received j)
        rw [hpassed] at hgram
        have hnil := hgram.eq_nil_of_stopped (by simpa using hstop)
        simp at hnil
      have hactive : (u.sinks j).cancelled = false := by rw [hs, h.cancelled_eq hdis, hrunning]
      have hdeliver : u.deliver j e = { u with
          delivered := Function.update u.delivered j (u.delivered j ++ [e])
          sinks := if e.isStopEvent then
            Function.update u.sinks j { isStopped := true, cancelled := true } else u.sinks } := by
        simp [ObserveOn.deliver, hactive]
      refine ⟨fun _ => ?_, fun _ => ?_, fun _ => ?_, ?_⟩
      · rw [hwaiting, hdeliver]
        simp only [Function.update_self, hr, hd]
        rw [hpassed, List.append_assoc, List.singleton_append]
      · have hreceived :
            stopped (s.received j) = stopped (s.delivered j ++ e :: u.waiting j) := by
          rw [← hpassed, stopped_untilStop]
        cases he : e.isStopEvent with
        | true =>
          rw [hdeliver, hr, hreceived]
          simp [he, stopped]
        | false =>
          rw [hdeliver, hr]
          simpa [he, hs] using h.isStopped_eq hdis
      · rw [hdeliver]
        cases he : e.isStopEvent with
        | true => simp [he]
        | false => simpa [he, hd, hrunning] using hactive
      · rw [hdeliver]
        simp [hx, hdis]
  · rw [eventsFor_singleton, if_neg hj, List.nil_append] at hwait
    refine (h.congr hsame hwait.symm).congr ?_ hwaiting
    have hne : k ≠ j := Ne.symm hj
    unfold ObserveOn.deliver
    split_ifs <;> exact ⟨by simp [hne], by simp, by simp [hne], by simp⟩

theorem mem_find (source : κ → Thread) (s : ObserveOn κ ε α) (t : Thread) :
    s.latched.find? (fun p => source p.1 = t) = none ∨
      ∃ front p back, s.latched = front ++ p :: back ∧ source p.1 = t ∧
        s.schedule source t = { s with latched := front ++ back }.ran
          (s.scheduler.scheduleInternal t p) := by
  cases hfind : s.latched.find? (fun p => source p.1 = t) with
  | none => exact .inl rfl
  | some p =>
    obtain ⟨hp, front, back, hsplit, hfront⟩ := List.find?_eq_some_iff_append.mp hfind
    refine .inr ⟨front, p, back, hsplit, of_decide_eq_true hp, ?_⟩
    have herase : s.latched.eraseP (fun p => source p.1 = t) = front ++ back := by
      rw [hsplit, List.eraseP_append_right _ (by simpa using hfront)]
      simp [hp]
    simp only [ObserveOn.schedule, hfind, herase]

@[simp] theorem deliver_scheduler (s : ObserveOn κ ε α) (k : κ) (e : Event ε α) :
    (s.deliver k e).scheduler = s.scheduler := by
  unfold ObserveOn.deliver
  split_ifs <;> rfl

@[simp] theorem deliver_latched (s : ObserveOn κ ε α) (k : κ) (e : Event ε α) :
    (s.deliver k e).latched = s.latched := by
  unfold ObserveOn.deliver
  split_ifs <;> rfl

@[simp] theorem ran_scheduler (s : ObserveOn κ ε α)
    (r : MainScheduler (κ × Event ε α) × Option (Call (κ × Event ε α))) :
    (s.ran r).scheduler = r.1 := by
  unfold ObserveOn.ran
  split <;> simp

@[simp] theorem ran_latched (s : ObserveOn κ ε α)
    (r : MainScheduler (κ × Event ε α) × Option (Call (κ × Event ε α))) :
    (s.ran r).latched = s.latched := by
  unfold ObserveOn.ran
  split <;> simp

@[simp] theorem ran_received (s : ObserveOn κ ε α)
    (r : MainScheduler (κ × Event ε α) × Option (Call (κ × Event ε α))) :
    (s.ran r).received = s.received ∧ (s.ran r).disposed = s.disposed := by
  unfold ObserveOn.ran ObserveOn.deliver
  split
  · exact ⟨rfl, rfl⟩
  · split_ifs <;> exact ⟨rfl, rfl⟩

omit [DecidableEq κ] in
theorem occupied_eq_false (t : Thread) : s.occupied source t = false ↔
    t ∉ s.latched.map (fun p => source p.1) ++ s.scheduler.scheduling.map (·.thread) := by
  rw [occupied, Bool.or_eq_false_iff, MainScheduler.not_busy_iff]
  simp [not_or]

theorem Serial.on (h : s.Serial source) (k : κ) (e : Event ε α)
    (hfree : s.occupied source (source k) = false) : (s.on k e).Serial source := by
  unfold ObserveOn.on
  split_ifs
  · exact ⟨h.ordered, h.cancelled_eq, h.threads, h.one_each⟩
  · refine ⟨h.ordered, h.cancelled_eq, h.threads, ?_⟩
    have hfresh := (occupied_eq_false (source k)).mp hfree
    rw [List.map_append, List.append_assoc, List.map_singleton, List.singleton_append,
      List.nodup_middle, List.nodup_cons]
    exact ⟨hfresh, h.one_each⟩

theorem Serial.schedule (h : s.Serial source) (t : Thread) :
    (s.schedule source t).Serial source := by
  rcases mem_find source s t with hnone | ⟨front, p, back, hsplit, rfl, heq⟩
  · have hsame : s.schedule source t = s := by simp [ObserveOn.schedule, hnone]
    rw [hsame]
    exact h
  · obtain ⟨hord, hcancel, hthreads, hone⟩ := h
    rw [hsplit, List.map_append, List.map_cons, List.append_assoc, List.cons_append,
      List.nodup_middle, List.nodup_cons, ← List.append_assoc, ← List.map_append] at hone
    obtain ⟨hfresh, hone⟩ := hone
    have hidle : s.scheduler.busy (source p.1) = false :=
      (MainScheduler.not_busy_iff _).mpr fun hmem => hfresh (List.mem_append_right _ hmem)
    have hord' := hord.scheduleInternal (source p.1) p hidle
    have hcancel' : (s.scheduler.scheduleInternal (source p.1) p).1.cancelled = [] := by
      rw [MainScheduler.scheduleInternal_cancelled, hcancel]
    rw [heq]
    obtain ⟨c, -, -, -, -, -, hsched⟩ | ⟨c, hc, hthread, -, -, hsched⟩ :=
      hord.scheduleInternal_cases (source p.1) p
    · refine ⟨by simpa using hord', by simpa using hcancel', ?_, ?_⟩
      · simp [hsched]
      · simp only [ran_scheduler, ran_latched, hsched]
        exact hone.sublist (by simp)
    · refine ⟨by simpa using hord', by simpa using hcancel', ?_, ?_⟩
      · intro d hd
        rw [ran_scheduler, hsched, List.mem_append, List.mem_singleton] at hd
        rcases hd with hd | rfl
        · exact hthreads d hd
        · rw [hthread, hc]
      · simp only [ran_scheduler, ran_latched, hsched, List.map_append, List.map_singleton,
          hthread] at hone hfresh ⊢
        rw [← List.append_assoc, List.nodup_append]
        refine ⟨hone, by simp, ?_⟩
        intro a ha b hb hab
        simp only [List.mem_singleton] at hb
        exact hfresh (hb ▸ hab ▸ ha)

omit [DecidableEq κ] in
theorem Serial.async (h : s.Serial source) (t : Thread) :
    ({ s with scheduler := s.scheduler.async t } : ObserveOn κ ε α).Serial source := by
  have hord := h.ordered.async t
  obtain ⟨-, heq⟩ | ⟨front, c, back, hsplit, -, heq⟩ := s.scheduler.async_cases t
  · rw [heq]
    exact ⟨h.ordered, h.cancelled_eq, h.threads, h.one_each⟩
  · have hsub : (front ++ back).Sublist s.scheduler.scheduling := by
      rw [hsplit]
      simp
    rw [heq] at hord ⊢
    refine ⟨hord, h.cancelled_eq, fun d hd => h.threads d (hsub.subset hd), ?_⟩
    exact h.one_each.sublist ((List.Sublist.refl _).append (hsub.map _))

theorem Serial.dequeue (h : s.Serial source) (hidle : s.scheduler.running = []) :
    (s.ran s.scheduler.dequeue).Serial source := by
  have hord := h.ordered.dequeue hidle
  have hcancel : s.scheduler.dequeue.1.cancelled = s.scheduler.cancelled := by
    unfold MainScheduler.dequeue
    split <;> (try split_ifs) <;> rfl
  have hsched : s.scheduler.dequeue.1.scheduling = s.scheduler.scheduling := by
    unfold MainScheduler.dequeue
    split <;> (try split_ifs) <;> rfl
  refine ⟨by simpa using hord, ?_, ?_, ?_⟩
  · rw [ran_scheduler, hcancel, h.cancelled_eq]
  · rw [ran_scheduler, hsched]
    exact h.threads
  · rw [ran_scheduler, ran_latched, hsched]
    exact h.one_each

omit [DecidableEq κ] in
theorem Serial.finish (h : s.Serial source) :
    ({ s with scheduler := s.scheduler.finish } : ObserveOn κ ε α).Serial source := by
  have hord := h.ordered.finish
  unfold MainScheduler.finish at hord ⊢
  split at hord
  · exact ⟨hord, h.cancelled_eq, h.threads, h.one_each⟩
  · exact ⟨hord, h.cancelled_eq, h.threads, h.one_each⟩

theorem Serial.step (h : s.Serial source) (i : Input κ ε α) : (s.step source i).Serial source := by
  cases i with
  | on k e =>
    by_cases hbusy : s.occupied source (source k) = true
    · simpa [ObserveOn.step, hbusy] using h
    · simpa [ObserveOn.step, hbusy] using h.on k e (by simpa using hbusy)
  | schedule t => exact h.schedule t
  | async t => exact h.async t
  | dequeue =>
    by_cases hidle : s.scheduler.running.isEmpty && !s.occupied source .main
    · have hrun : s.scheduler.running = [] := by
        simp only [Bool.and_eq_true, List.isEmpty_iff] at hidle
        exact hidle.1
      have hstep : s.step source .dequeue = s.ran s.scheduler.dequeue := if_pos hidle
      rw [hstep]
      exact h.dequeue hrun
    · have hstep : s.step source .dequeue = s := if_neg hidle
      rw [hstep]
      exact h
  | finish =>
    by_cases hbusy : s.occupied source .main = true
    · simpa [ObserveOn.step, hbusy] using h
    · simpa [ObserveOn.step, hbusy] using h.finish
  | dispose k =>
    by_cases hbusy : s.occupied source .main = true
    · simpa [ObserveOn.step, hbusy] using h
    · have hstep : s.step source (.dispose k) = s.dispose k := if_neg hbusy
      rw [hstep]
      exact ⟨h.ordered, h.cancelled_eq, h.threads, h.one_each⟩

end ObserveOn

end Mber.Delivery
