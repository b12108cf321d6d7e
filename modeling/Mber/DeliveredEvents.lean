import Mber.Delivery

/-!
What `observeOn(MainScheduler.instance)` delivers. Each step of a thread keeps
every sink faithful: what its latch has let through is what the observer has
been given, followed by what waits. A disposed sink is given nothing more. A
call of the main thread that finds nothing on the way delivers at once.
-/
namespace Mber.Delivery

open Sinks EventStreams Scheduling Runs

variable {κ ε α : Type*} [DecidableEq κ]

namespace ObserveOn

variable {source : κ → Thread} {s u : ObserveOn κ ε α} {k : κ}

theorem waiting_eq (s : ObserveOn κ ε α) (k : κ) : s.waiting k =
    eventsFor k (actions s.scheduler.mainQueue) ++
      (eventsFor k (actions s.scheduler.scheduling) ++ eventsFor k s.latched) := by
  simp [waiting]

theorem SinkFaithful.on (h : s.SinkFaithful k) (j : κ) (e : Event ε α) :
    (s.on j e).SinkFaithful k := by
  by_cases hj : j = k
  · subst hj
    unfold ObserveOn.on
    split_ifs with hstop
    · refine ⟨fun hdis => ?_, fun hdis => ?_, h.cancelled_eq, fun hdis => ?_⟩
      · rw [h.isStopped_eq hdis] at hstop
        simp only [Function.update_self]
        rw [untilStop_append_of_stopped hstop]
        exact h.passed hdis
      · rw [h.isStopped_eq hdis] at hstop
        simp [h.isStopped_eq hdis, hstop]
      · obtain ⟨hstopped, hcancel, hprefix⟩ := h.ended hdis
        simp only [Function.update_self]
        exact ⟨hstopped, hcancel, hprefix.trans (untilStop_initial _ _)⟩
    · refine ⟨fun hdis => ?_, fun hdis => ?_, fun hdis => ?_, fun hdis => ?_⟩
      · have hrunning : stopped (s.received j) = false := by
          rw [← h.isStopped_eq hdis]
          simpa using hstop
        simp only [Function.update_self]
        rw [untilStop_concat_of_running hrunning, h.passed hdis]
        simp [waiting_eq, eventsFor_singleton]
      · have hrunning : stopped (s.received j) = false := by
          rw [← h.isStopped_eq hdis]
          simpa using hstop
        simp [hrunning]
      · simpa using h.cancelled_eq hdis
      · exact absurd (h.ended hdis).1 hstop
  · have hne : k ≠ j := Ne.symm hj
    refine h.congr (u := s.on j e) ?_ ?_
    · unfold ObserveOn.on
      split_ifs <;> exact ⟨by simp [hne], by simp [hne], by simp, by simp⟩
    · unfold ObserveOn.on
      split_ifs
      · rfl
      · simp [waiting_eq, eventsFor_singleton, hj]

theorem SinkFaithful.dispose (h : s.SinkFaithful k) (j : κ) : (s.dispose j).SinkFaithful k := by
  by_cases hj : j = k
  · subst hj
    have hprefix : s.delivered j <+: untilStop (s.received j) := by
      cases hdis : s.disposed j with
      | true => exact (h.ended hdis).2.2
      | false =>
        rw [h.passed hdis]
        exact List.prefix_append _ _
    refine ⟨?_, ?_, ?_, fun _ => ?_⟩
    · simp [ObserveOn.dispose]
    · simp [ObserveOn.dispose]
    · simp [ObserveOn.dispose]
    · simpa [ObserveOn.dispose] using hprefix
  · have hne : k ≠ j := Ne.symm hj
    refine h.congr (u := s.dispose j) ?_ rfl
    exact ⟨by simp [ObserveOn.dispose, hne], rfl, rfl, by simp [ObserveOn.dispose, hne]⟩

theorem SinkFaithful.async (h : s.SinkFaithful k) (hserial : s.Serial source) (t : Thread) :
    ({ s with scheduler := s.scheduler.async t } : ObserveOn κ ε α).SinkFaithful k := by
  refine h.congr ⟨rfl, rfl, rfl, rfl⟩ ?_
  obtain ⟨-, heq⟩ | ⟨front, c, back, hsplit, -, heq⟩ := s.scheduler.async_cases t
  · rw [heq]
  · have hnodup :
        ((actions front ++ c.action :: actions back).map (fun p => source p.1)).Nodup := by
      have hsources : (actions front ++ c.action :: actions back).map (fun p => source p.1) =
          s.scheduler.scheduling.map (·.thread) := by
        have hmap : s.scheduler.scheduling.map (·.thread) =
            s.scheduler.scheduling.map (fun d => source d.action.1) :=
          List.map_congr_left hserial.threads
        rw [hmap, hsplit]
        simp [actions, Function.comp_def]
      rw [hsources]
      exact (List.nodup_append.mp hserial.one_each).2.1
    have hmiddle := (eventsFor_middle k (actions front) (actions back) c.action hnodup).1
    have hbefore : actions s.scheduler.scheduling = actions front ++ c.action :: actions back := by
      simp [hsplit, actions]
    rw [waiting_eq, waiting_eq, hbefore, hmiddle, heq]
    simp [actions, List.append_assoc]

theorem SinkFaithful.ran_started (h : s.SinkFaithful k) {c : Call (κ × Event ε α)}
    {r : MainScheduler (κ × Event ε α) × Option (Call (κ × Event ε α))} (hr : r.2 = some c)
    (hsame : s.SameSink u k)
    (hwait : s.waiting k = eventsFor k [c.action] ++
      ({ u with scheduler := r.1 } : ObserveOn κ ε α).waiting k) :
    (u.ran r).SinkFaithful k := by
  have hran : u.ran r =
      ({ u with scheduler := r.1 } : ObserveOn κ ε α).deliver c.action.1 c.action.2 := by
    simp [ObserveOn.ran, hr]
  rw [hran]
  exact h.deliver (u := { u with scheduler := r.1 }) c.action.1 c.action.2
    ⟨hsame.sinks_eq, hsame.received_eq, hsame.delivered_eq, hsame.disposed_eq⟩ hwait

theorem SinkFaithful.schedule (h : s.SinkFaithful k) (hserial : s.Serial source) (t : Thread) :
    (s.schedule source t).SinkFaithful k := by
  rcases mem_find source s t with hnone | ⟨front, p, back, hsplit, -, heq⟩
  · have hsame : s.schedule source t = s := by simp [ObserveOn.schedule, hnone]
    rw [hsame]
    exact h
  · have hnodup : ((front ++ p :: back).map (fun p => source p.1)).Nodup := by
      rw [← hsplit]
      exact (List.nodup_append.mp hserial.one_each).1
    have hmiddle := eventsFor_middle k front back p hnodup
    rw [heq]
    obtain ⟨c, hc, hqueue, hsched, hr, hqueue', hsched'⟩ |
      ⟨c, hc, -, hr, hqueue', hsched'⟩ := hserial.ordered.scheduleInternal_cases t p
    · -- nothing else was on the way
      refine h.ran_started (u := { s with latched := front ++ back }) hr ⟨rfl, rfl, rfl, rfl⟩ ?_
      rw [waiting_eq, waiting_eq, hqueue, hsched, hqueue', hsched', hsplit, hmiddle.1, hc]
      simp [actions, eventsFor]
    · have hran : ({ s with latched := front ++ back } : ObserveOn κ ε α).ran
          (s.scheduler.scheduleInternal t p) = { s with
            latched := front ++ back
            scheduler := (s.scheduler.scheduleInternal t p).1 } := by
        simp [ObserveOn.ran, hr]
      rw [hran]
      refine h.congr ⟨rfl, rfl, rfl, rfl⟩ ?_
      rw [waiting_eq, waiting_eq, hqueue', hsched', hsplit, hmiddle.1]
      simp [actions, hc]

theorem SinkFaithful.dequeue (h : s.SinkFaithful k) (hserial : s.Serial source) :
    (s.ran s.scheduler.dequeue).SinkFaithful k := by
  cases hqueue : s.scheduler.mainQueue with
  | nil =>
    have hsame : s.ran s.scheduler.dequeue = s := by
      simp [ObserveOn.ran, MainScheduler.dequeue, hqueue]
    rw [hsame]
    exact h
  | cons c rest =>
    have hdequeue : s.scheduler.dequeue =
        ({ s.scheduler with mainQueue := rest }.start c, some c) := by
      simp [MainScheduler.dequeue, hqueue, hserial.cancelled_eq]
    refine h.ran_started (u := s) (c := c) (by rw [hdequeue]) ⟨rfl, rfl, rfl, rfl⟩ ?_
    rw [waiting_eq, waiting_eq, hdequeue, hqueue]
    simp [actions, MainScheduler.start, eventsFor, List.filter_cons]
    split_ifs <;> simp

/-- Threads are serial and every sink is faithful. -/
structure Faithful (source : κ → Thread) (s : ObserveOn κ ε α) : Prop where
  serial : s.Serial source
  sinks : ∀ k, s.SinkFaithful k

theorem faithful_init : Faithful source ({} : ObserveOn κ ε α) :=
  ⟨⟨MainScheduler.ordered_init, rfl, by simp, by simp⟩,
    fun _ => ⟨fun _ => rfl, fun _ => rfl, fun _ => rfl, fun h => by simp at h⟩⟩

theorem Faithful.step (h : s.Faithful source) (i : Input κ ε α) :
    (s.step source i).Faithful source := by
  refine ⟨h.serial.step i, fun k => ?_⟩
  have hk := h.sinks k
  cases i with
  | on j e =>
    by_cases hbusy : s.occupied source (source j) = true
    · simpa [ObserveOn.step, hbusy] using hk
    · simpa [ObserveOn.step, hbusy] using hk.on j e
  | schedule t => exact hk.schedule h.serial t
  | async t => exact hk.async h.serial t
  | dequeue =>
    by_cases hidle : s.scheduler.running.isEmpty && !s.occupied source .main
    · have hstep : s.step source .dequeue = s.ran s.scheduler.dequeue := if_pos hidle
      rw [hstep]
      exact hk.dequeue h.serial
    · have hstep : s.step source .dequeue = s := if_neg hidle
      rw [hstep]
      exact hk
  | finish =>
    by_cases hbusy : s.occupied source .main = true
    · simpa [ObserveOn.step, hbusy] using hk
    · have hwait : ({ s with scheduler := s.scheduler.finish } : ObserveOn κ ε α).waiting k =
          s.waiting k := by
        rw [waiting_eq, waiting_eq]
        unfold MainScheduler.finish
        split <;> rfl
      have hstep : s.step source .finish = { s with scheduler := s.scheduler.finish } :=
        if_neg hbusy
      rw [hstep]
      exact hk.congr ⟨rfl, rfl, rfl, rfl⟩ hwait
  | dispose j =>
    by_cases hbusy : s.occupied source .main = true
    · simpa [ObserveOn.step, hbusy] using hk
    · simpa [ObserveOn.step, hbusy] using hk.dispose j

theorem faithful_run (source : κ → Thread) (inputs : List (Input κ ε α)) :
    (run (ObserveOn.step source) {} inputs).Faithful source :=
  run_invariant (Faithful source) (fun _ i h => h.step i) _ inputs faithful_init

/-- The observer of a sink has been given a part of what the latch lets through. -/
theorem SinkFaithful.delivered_initial (h : s.SinkFaithful k) :
    s.delivered k <+: untilStop (s.received k) := by
  cases hdis : s.disposed k with
  | true => exact (h.ended hdis).2.2
  | false =>
    rw [h.passed hdis]
    exact List.prefix_append _ _

theorem Faithful.nothing_waits (h : s.Faithful source) (hlatched : s.latched = [])
    (hzero : s.scheduler.numberEnqueued = 0) (k : κ) : s.waiting k = [] := by
  obtain ⟨hsched, hqueue, -⟩ := h.serial.ordered.nothing_left hzero
  simp [waiting_eq, hsched, hqueue, hlatched, actions, eventsFor]

theorem ran_after_dispose (hcancel : (u.sinks k).cancelled = true)
    (r : MainScheduler (κ × Event ε α) × Option (Call (κ × Event ε α))) :
    (u.ran r).disposed k = u.disposed k ∧ (u.ran r).delivered k = u.delivered k := by
  unfold ObserveOn.ran
  split
  · exact ⟨rfl, rfl⟩
  · rename_i c _
    by_cases hc : c.action.1 = k
    · subst hc
      simp [ObserveOn.deliver, hcancel]
    · unfold ObserveOn.deliver
      split_ifs <;> simp [Ne.symm hc]

theorem step_after_dispose (source : κ → Thread) (h : s.SinkFaithful k)
    (hdis : s.disposed k = true) (i : Input κ ε α) :
    (s.step source i).disposed k = true ∧ (s.step source i).delivered k = s.delivered k := by
  have hcancel := (h.ended hdis).2.1
  cases i with
  | on j e =>
    simp only [ObserveOn.step, ObserveOn.on]
    split_ifs <;> exact ⟨hdis, rfl⟩
  | schedule t =>
    rcases mem_find source s t with hnone | ⟨front, p, back, -, -, heq⟩
    · have hsame : s.schedule source t = s := by simp [ObserveOn.schedule, hnone]
      simp only [ObserveOn.step, hsame]
      exact ⟨hdis, trivial⟩
    · have hran := ran_after_dispose (u := { s with latched := front ++ back }) hcancel
        (s.scheduler.scheduleInternal t p)
      simp only [ObserveOn.step, heq]
      exact ⟨hran.1.trans hdis, hran.2⟩
  | async t => exact ⟨hdis, rfl⟩
  | dequeue =>
    simp only [ObserveOn.step]
    split_ifs
    · obtain ⟨hsame, hout⟩ := ran_after_dispose hcancel s.scheduler.dequeue
      exact ⟨hsame.trans hdis, hout⟩
    · exact ⟨hdis, rfl⟩
  | finish =>
    simp only [ObserveOn.step]
    split_ifs <;> exact ⟨hdis, rfl⟩
  | dispose j =>
    simp only [ObserveOn.step]
    split_ifs
    · exact ⟨hdis, rfl⟩
    · refine ⟨?_, rfl⟩
      by_cases hj : k = j
      · simp [ObserveOn.dispose, hj]
      · simpa [ObserveOn.dispose, hj] using hdis

theorem run_after_dispose (h : s.Faithful source) (hdis : s.disposed k = true)
    (later : List (Input κ ε α)) : (run (step source) s later).delivered k = s.delivered k := by
  refine (run_invariant
    (fun u => u.Faithful source ∧ u.disposed k = true ∧ u.delivered k = s.delivered k)
    ?_ s later ⟨h, hdis, rfl⟩).2.2
  rintro u i ⟨hfaithful, hd, hsame⟩
  obtain ⟨hd', hsame'⟩ := step_after_dispose source (hfaithful.sinks k) hd i
  exact ⟨hfaithful.step i, hd', hsame'.trans hsame⟩

/-- In every interleaving, with one source thread for each sink and disposals on
the main thread, the observer of each sink has been given a prefix of what a
stop latch forwards of the source's events, the whole of it once nothing is on
the way and the subscription was not disposed, and nothing more after a
disposal. -/
theorem observeOn_delivers (source : κ → Thread) (inputs : List (Input κ ε α)) (k : κ) :
    (run (step source) {} inputs).delivered k <+:
        forwarded {} ((run (step source) {} inputs).received k) ∧
      ((run (step source) {} inputs).disposed k = false →
        (run (step source) {} inputs).latched = [] →
        (run (step source) {} inputs).scheduler.numberEnqueued = 0 →
        (run (step source) {} inputs).delivered k =
          forwarded {} ((run (step source) {} inputs).received k)) ∧
      ((run (step source) {} inputs).disposed k = true → ∀ later,
        (run (step source) {} (inputs ++ later)).delivered k =
          (run (step source) {} inputs).delivered k) := by
  have h := faithful_run source inputs
  simp only [forwarded_fresh, run_append]
  refine ⟨(h.sinks k).delivered_initial, ?_, fun hdis => run_after_dispose h hdis⟩
  intro hdis hlatched hzero
  rw [(h.sinks k).passed hdis, h.nothing_waits hlatched hzero, List.append_nil]

/-- The main thread is inside `on`; other threads have only come as far as the
scheduler since. -/
structure Beside (source : κ → Thread) (s u : ObserveOn κ ε α) (k : κ) : Prop where
  sink : s.SameSink u k
  scheduler_eq : u.scheduler = s.scheduler
  latched_eq : ∃ others, u.latched = s.latched ++ others ∧ ∀ p ∈ others, source p.1 ≠ .main

theorem Beside.on (h : s.Beside source u k) (hmain : source k = .main) (p : κ × Event ε α)
    (hp : source p.1 ≠ .main) : s.Beside source (u.step source (.on p.1 p.2)) k := by
  obtain ⟨⟨hsinks, hreceived, hdelivered, hdisposed⟩, hscheduler, others, hlatched, hothers⟩ := h
  have hne : k ≠ p.1 := by
    rintro rfl
    exact hp hmain
  simp only [ObserveOn.step, ObserveOn.on]
  split_ifs
  · exact ⟨⟨hsinks, hreceived, hdelivered, hdisposed⟩, hscheduler, others, hlatched, hothers⟩
  · exact ⟨⟨hsinks, by simpa [hne] using hreceived, hdelivered, hdisposed⟩, hscheduler, others,
      hlatched, hothers⟩
  · refine ⟨⟨by simpa [hne] using hsinks, by simpa [hne] using hreceived, hdelivered, hdisposed⟩,
      hscheduler, others ++ [p], by simp [hlatched], ?_⟩
    intro q hq
    rcases List.mem_append.mp hq with hold | hnew
    · exact hothers q hold
    · rwa [List.mem_singleton.mp hnew]

theorem Beside.run (h : s.Beside source u k) (hmain : source k = .main)
    (others : List (κ × Event ε α)) (hothers : ∀ p ∈ others, source p.1 ≠ .main) :
    s.Beside source (Runs.run (step source) u (others.map fun p => .on p.1 p.2)) k := by
  induction others generalizing u with
  | nil => exact h
  | cons p rest ih =>
    have hnext := h.on hmain p (hothers p List.mem_cons_self)
    exact ih hnext fun q hq => hothers q (List.mem_cons_of_mem p hq)

theorem eventsFor_of_elsewhere (hmain : source k = .main) {others : List (κ × Event ε α)}
    (hothers : ∀ p ∈ others, source p.1 ≠ .main) : eventsFor k others = [] := by
  have hfilter : others.filter (fun p => p.1 = k) = [] := by
    rw [List.filter_eq_nil_iff]
    intro p hp heq
    refine hothers p hp ?_
    rw [of_decide_eq_true heq, hmain]
  simp [eventsFor, hfilter]

/-- Whether the latch lets the event through or not, nothing of the sink is on
the way when the main thread is back from the scheduler. -/
theorem Beside.schedule (h : (s.on k e).Beside source u k) (hmain : source k = .main)
    (hfaithful : s.Faithful source) (hlatched : s.latched = [])
    (hzero : s.scheduler.numberEnqueued = 0) :
    (u.schedule source .main).waiting k = [] ∧
      (u.schedule source .main).received k = s.received k ++ [e] ∧
      (u.schedule source .main).disposed k = s.disposed k := by
  obtain ⟨hsched, hqueue, -⟩ := hfaithful.serial.ordered.nothing_left hzero
  obtain ⟨⟨-, hreceived, -, hdisposed⟩, hscheduler, others, hsplit, hothers⟩ := h
  have hnone : eventsFor k others = [] := eventsFor_of_elsewhere hmain hothers
  have hfind : others.find? (fun p => source p.1 = .main) = none := by
    simpa using fun a b hab => hothers (a, b) hab
  by_cases hstop : (s.sinks k).isStopped = true
  · have hon : s.on k e =
        { s with received := Function.update s.received k (s.received k ++ [e]) } := by
      simp [ObserveOn.on, hstop]
    rw [hon] at hreceived hdisposed hscheduler hsplit
    simp only [hlatched, List.nil_append] at hsplit
    have hsame : u.schedule source .main = u := by simp [ObserveOn.schedule, hsplit, hfind]
    rw [hsame]
    refine ⟨?_, by simpa using hreceived, hdisposed⟩
    rw [waiting_eq, hscheduler, hsplit, hqueue, hsched, hnone]
    rfl
  · have hon : s.on k e = { s with
        received := Function.update s.received k (s.received k ++ [e])
        latched := [(k, e)]
        sinks := Function.update s.sinks k { s.sinks k with isStopped := e.isStopEvent } } := by
      simp [ObserveOn.on, hstop, hlatched]
    rw [hon] at hreceived hdisposed hscheduler hsplit
    have hsame : u.schedule source .main = ({ u with latched := others } : ObserveOn κ ε α).ran
        (s.scheduler.scheduleInternal .main (k, e)) := by
      simp only [List.singleton_append] at hsplit
      simp [ObserveOn.schedule, hsplit, hmain, hscheduler]
    have hstart : (s.scheduler.scheduleInternal .main (k, e)).1.mainQueue = [] ∧
        (s.scheduler.scheduleInternal .main (k, e)).1.scheduling = [] := by
      simp [MainScheduler.scheduleInternal, hzero, MainScheduler.start, hqueue, hsched]
    rw [hsame]
    refine ⟨?_, by simpa using hreceived, by simpa using hdisposed⟩
    rw [waiting_eq, ran_scheduler, ran_latched, hstart.1, hstart.2, hnone]
    rfl

/-- While nothing is on the way, an event that the main thread sends for a sink
that is not disposed reaches the observer before the call returns, if no other
thread comes to the counter before the main thread does. What others send may
get past its latch in between. -/
theorem main_thread_delivers_at_once (source : κ → Thread) (inputs : List (Input κ ε α)) (k : κ)
    (e : Event ε α) (hmain : source k = .main)
    (hlatched : (run (step source) {} inputs).latched = [])
    (hzero : (run (step source) {} inputs).scheduler.numberEnqueued = 0)
    (hdis : (run (step source) {} inputs).disposed k = false)
    (others : List (κ × Event ε α)) (hothers : ∀ p ∈ others, source p.1 ≠ .main) :
    (run (step source) {} (inputs ++ .on k e :: (others.map fun p => .on p.1 p.2) ++
        [.schedule .main])).delivered k =
      forwarded {} ((run (step source) {} inputs).received k ++ [e]) := by
  have h := faithful_run source inputs
  have hafter := faithful_run source (inputs ++ .on k e :: (others.map fun p => .on p.1 p.2) ++
    [.schedule .main])
  rw [run_append, run_append] at hafter ⊢
  generalize run (step source) {} inputs = s at h hlatched hzero hdis hafter ⊢
  have hfree : s.occupied source (source k) = false := by
    obtain ⟨hsched, -⟩ := h.serial.ordered.nothing_left hzero
    rw [occupied_eq_false, hlatched, hsched]
    simp
  have hfirst : s.step source (.on k e) = s.on k e := by simp [ObserveOn.step, hfree]
  have hbeside : (s.on k e).Beside source
      (run (step source) s (.on k e :: others.map fun p => .on p.1 p.2)) k := by
    show (s.on k e).Beside source
      (run (step source) (s.step source (.on k e)) (others.map fun p => .on p.1 p.2)) k
    rw [hfirst]
    exact Beside.run ⟨⟨rfl, rfl, rfl, rfl⟩, rfl, [], by simp, by simp⟩ hmain others hothers
  obtain ⟨hnone, hreceived, hdisposed⟩ := hbeside.schedule hmain h hlatched hzero
  have hpassed := (hafter.sinks k).passed (hdisposed.trans hdis)
  generalize run (step source) s (.on k e :: others.map fun p => .on p.1 p.2) = u at *
  have hlast : run (step source) u [.schedule .main] = u.schedule source .main := rfl
  rw [hlast, hnone, hreceived, List.append_nil] at hpassed
  rw [hlast, forwarded_fresh, hpassed]

/-- The first element of a sink on the main thread, while a background thread
is at the latch of another. -/
theorem main_thread_delivers_first :
    (run (step (fun onMain : Bool => if onMain then Thread.main else .background 0))
      ({} : ObserveOn Bool Unit Bool)
      ([] ++ .on true (.next true) :: ([(false, .next false)].map fun p => .on p.1 p.2) ++
        [.schedule .main])).delivered true = forwarded {} ([] ++ [.next true]) :=
  main_thread_delivers_at_once _ [] true (.next true) rfl rfl rfl rfl [(false, .next false)]
    (by decide)

/-- A background thread that comes to the counter first keeps the main thread's
event waiting. -/
example :
    (run (step (fun onMain : Bool => if onMain then Thread.main else .background 0))
      ({} : ObserveOn Bool Unit Bool)
      [.on true (.next true), .on false (.next false), .schedule (.background 0),
        .schedule .main]).delivered true = [] := by decide

end ObserveOn

end Mber.Delivery
