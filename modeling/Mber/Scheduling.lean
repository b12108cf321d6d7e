import Mber.Runs
import Mathlib.Data.List.Nodup
import Mathlib.Data.List.Range
import Mathlib.Logic.Function.Basic

/-!
MainScheduler over every interleaving of the main thread with any number of
background threads. A call first increments the counter; a call of the main
thread that finds it at zero runs at once, every other call reaches the main
queue in a later step. The counter covers all calls that are not over yet.
Hence actions never nest, and the calls of each thread are taken in the order
in which the thread made them.
-/
namespace Mber.Scheduling

open Runs

inductive Thread
  | main
  | background (index : ℕ)
  deriving DecidableEq

/-- One call of `schedule`; `number` counts the calls of its thread. -/
structure Call (α : Type*) where
  thread : Thread
  number : ℕ
  action : α

namespace Call

variable {α : Type*}

def isOf (c : Call α) (t : Thread) : Bool := decide (c.thread = t)

end Call

/-- `scheduling` holds the calls between the increment and the main queue.
`accepted` lists the calls in the order in which they reached the queue or
started at once, `taken` those that the main thread has come to, and `started`
those of them that were not cancelled. -/
structure MainScheduler (α : Type*) where
  numberEnqueued : ℕ := 0
  scheduling : List (Call α) := []
  mainQueue : List (Call α) := []
  running : List (Call α) := []
  cancelled : List (Thread × ℕ) := []
  calls : Thread → ℕ := fun _ => 0
  accepted : List (Call α) := []
  taken : List (Call α) := []
  started : List (Call α) := []

inductive Input (α : Type*)
  | schedule (t : Thread) (action : α)
  | async (t : Thread)
  | dequeue
  | finish
  | cancel (t : Thread) (number : ℕ)

namespace MainScheduler

variable {α : Type*}

/-- The thread is inside a call of `schedule`. -/
def busy (s : MainScheduler α) (t : Thread) : Bool := s.scheduling.any (·.isOf t)

def start (s : MainScheduler α) (c : Call α) : MainScheduler α :=
  { s with
    running := c :: s.running
    taken := s.taken ++ [c]
    started := s.started ++ [c] }

/-- The increment, and the action itself where it may run at once. -/
def scheduleInternal (s : MainScheduler α) (t : Thread) (action : α) :
    MainScheduler α × Option (Call α) :=
  let c : Call α := ⟨t, s.calls t, action⟩
  let counted : MainScheduler α :=
    { s with
      numberEnqueued := s.numberEnqueued + 1
      calls := Function.update s.calls t (s.calls t + 1) }
  if t = .main ∧ s.numberEnqueued = 0 then
    ({ counted with accepted := s.accepted ++ [c] }.start c, some c)
  else ({ counted with scheduling := s.scheduling ++ [c] }, none)

/-- The thread's call reaches the main queue and returns. -/
def async (s : MainScheduler α) (t : Thread) : MainScheduler α :=
  match s.scheduling.find? (·.isOf t) with
  | none => s
  | some c =>
    { s with
      scheduling := s.scheduling.eraseP (·.isOf t)
      mainQueue := s.mainQueue ++ [c]
      accepted := s.accepted ++ [c] }

/-- The main queue runs its first block. -/
def dequeue (s : MainScheduler α) : MainScheduler α × Option (Call α) :=
  match s.mainQueue with
  | [] => (s, none)
  | c :: rest =>
    if (c.thread, c.number) ∈ s.cancelled then
      ({ s with
        mainQueue := rest
        taken := s.taken ++ [c]
        numberEnqueued := s.numberEnqueued - 1 }, none)
    else ({ s with mainQueue := rest }.start c, some c)

/-- The innermost action returns. -/
def finish (s : MainScheduler α) : MainScheduler α :=
  match s.running with
  | [] => s
  | _ :: rest => { s with running := rest, numberEnqueued := s.numberEnqueued - 1 }

/-- The caller of an accepted call disposes what the call returned. -/
def cancel (s : MainScheduler α) (t : Thread) (number : ℕ) : MainScheduler α :=
  if s.accepted.any (fun c => c.isOf t && c.number == number) then
    { s with cancelled := (t, number) :: s.cancelled }
  else s

/-- A thread inside `schedule` makes no other call, and the main thread takes
a block only when no action runs. -/
def step (s : MainScheduler α) : Input α → MainScheduler α
  | .schedule t action => if s.busy t then s else (s.scheduleInternal t action).1
  | .async t => s.async t
  | .dequeue => if s.running.isEmpty && !s.busy .main then s.dequeue.1 else s
  | .finish => if s.busy .main then s else s.finish
  | .cancel t number => s.cancel t number

/-- The numbers of the thread's calls among these. -/
def numbersOf (t : Thread) (calls : List (Call α)) : List ℕ :=
  (calls.filter (·.isOf t)).map (·.number)

@[simp] theorem numbersOf_append (t : Thread) (xs ys : List (Call α)) :
    numbersOf t (xs ++ ys) = numbersOf t xs ++ numbersOf t ys := by
  simp [numbersOf]

theorem numbersOf_singleton (t : Thread) (c : Call α) :
    numbersOf t [c] = if c.thread = t then [c.number] else [] := by
  by_cases h : c.thread = t <;> simp [numbersOf, Call.isOf, h]

theorem numbersOf_cons (t : Thread) (c : Call α) (rest : List (Call α)) :
    numbersOf t (c :: rest) = numbersOf t [c] ++ numbersOf t rest :=
  numbersOf_append t [c] rest

theorem numbersOf_eq_nil {t : Thread} {calls : List (Call α)} (h : t ∉ calls.map (·.thread)) :
    numbersOf t calls = [] := by
  have hfilter : calls.filter (·.isOf t) = [] := by
    rw [List.filter_eq_nil_iff]
    intro c hc heq
    exact h (List.mem_map.mpr ⟨c, hc, of_decide_eq_true heq⟩)
  simp [numbersOf, hfilter]

/-- The counter covers every call that is not over, at most one action runs,
and the calls of a thread are numbered through queue and counter in order. -/
structure Ordered (s : MainScheduler α) : Prop where
  counted : s.numberEnqueued = s.scheduling.length + s.mainQueue.length + s.running.length
  alone : s.running.length ≤ 1
  accepted_eq : s.accepted = s.taken ++ s.mainQueue
  numbered : ∀ t, numbersOf t (s.accepted ++ s.scheduling) = List.range (s.calls t)
  scheduling_nodup : (s.scheduling.map (·.thread)).Nodup
  started_sublist : s.started.Sublist s.taken
  skipped : ∀ c ∈ s.taken, c ∈ s.started ∨ (c.thread, c.number) ∈ s.cancelled
  uncancelled : s.cancelled = [] → s.started = s.taken

variable {s : MainScheduler α}

theorem ordered_init : ({} : MainScheduler α).Ordered :=
  ⟨rfl, by simp, rfl, fun _ => rfl, by simp, List.Sublist.refl _, by simp, fun _ => rfl⟩

/-- A call that has been incremented by an idle thread is the thread's last one. -/
theorem Ordered.numbered_next (h : s.Ordered) (t : Thread) (action : α) (u : Thread) :
    numbersOf u (s.accepted ++ s.scheduling) ++ numbersOf u [⟨t, s.calls t, action⟩] =
      List.range (Function.update s.calls t (s.calls t + 1) u) := by
  rw [h.numbered u, numbersOf_singleton]
  by_cases hu : u = t
  · subst hu
    simp [List.range_succ]
  · simp [hu, Ne.symm hu]

theorem not_busy_iff (t : Thread) :
    s.busy t = false ↔ t ∉ s.scheduling.map (·.thread) := by
  simp [busy, Call.isOf]

theorem Ordered.scheduleInternal (h : s.Ordered) (t : Thread) (action : α)
    (hidle : s.busy t = false) : (s.scheduleInternal t action).1.Ordered := by
  have hnext := h.numbered_next t action
  obtain ⟨hcount, halone, hacc, hnum, hnodup, hsub, hskip, hall⟩ := h
  unfold MainScheduler.scheduleInternal
  split_ifs with hnow
  · -- the counter is zero, so nothing is queued and nothing runs
    obtain ⟨rfl, hzero⟩ := hnow
    have hsched : s.scheduling = [] := List.length_eq_zero_iff.mp (by omega)
    have hqueue : s.mainQueue = [] := List.length_eq_zero_iff.mp (by omega)
    have hrun : s.running = [] := List.length_eq_zero_iff.mp (by omega)
    refine ⟨?_, ?_, ?_, ?_, ?_, ?_, ?_, fun hnone => by simp [start, hall hnone]⟩
    · simp [start, hsched, hqueue, hrun, hzero]
    · simp [start, hrun]
    · simp [start, hacc, hqueue]
    · intro u
      simpa [start, hsched] using hnext u
    · simp [start, hsched]
    · exact hsub.append (List.Sublist.refl _)
    · intro c hc
      simp only [start, List.mem_append, List.mem_singleton] at hc ⊢
      rcases hc with hc | hc
      · rcases hskip c hc with hstarted | hcancelled
        · exact .inl (.inl hstarted)
        · exact .inr hcancelled
      · exact .inl (.inr hc)
  · refine ⟨?_, halone, hacc, ?_, ?_, hsub, hskip, hall⟩
    · simp only [List.length_append, List.length_singleton]
      omega
    · intro u
      simpa using hnext u
    · have hnot := (not_busy_iff t).mp hidle
      simp only [List.map_append, List.map_cons, List.map_nil]
      rw [List.nodup_append]
      refine ⟨hnodup, by simp, ?_⟩
      intro a ha b hb hab
      simp only [List.mem_singleton] at hb
      exact hnot (hb ▸ hab ▸ ha)

/-- What a thread inside `schedule` does next. -/
theorem async_cases (s : MainScheduler α) (t : Thread) :
    s.busy t = false ∧ s.async t = s ∨
      ∃ front c back, s.scheduling = front ++ c :: back ∧ c.thread = t ∧
        s.async t = { s with
          scheduling := front ++ back
          mainQueue := s.mainQueue ++ [c]
          accepted := s.accepted ++ [c] } := by
  cases hfind : s.scheduling.find? (·.isOf t) with
  | none =>
    refine .inl ⟨?_, by simp [async, hfind]⟩
    simpa [busy] using hfind
  | some c =>
    obtain ⟨hc, front, back, hsplit, hfront⟩ := List.find?_eq_some_iff_append.mp hfind
    refine .inr ⟨front, c, back, hsplit, by simpa [Call.isOf] using hc, ?_⟩
    have herase : s.scheduling.eraseP (·.isOf t) = front ++ back := by
      rw [hsplit, List.eraseP_append_right _ (by simpa using hfront)]
      simp [hc]
    simp only [async, hfind, herase]

theorem Ordered.async (h : s.Ordered) (t : Thread) : (s.async t).Ordered := by
  obtain ⟨-, heq⟩ | ⟨front, c, back, hsplit, rfl, heq⟩ := s.async_cases t
  · rw [heq]
    exact h
  · obtain ⟨hcount, halone, hacc, hnum, hnodup, hsub, hskip, hall⟩ := h
    rw [hsplit, List.map_append, List.map_cons, List.nodup_middle, List.nodup_cons,
      ← List.map_append] at hnodup
    rw [heq]
    refine ⟨?_, halone, ?_, ?_, hnodup.2, hsub, hskip, hall⟩
    · simp only [hsplit, List.length_append, List.length_cons, List.length_nil] at hcount ⊢
      omega
    · simp [hacc]
    · intro u
      have hu := hnum u
      rw [hsplit, numbersOf_append, numbersOf_append, numbersOf_cons] at hu
      by_cases hthread : c.thread = u
      · -- the thread has no other call on the way
        have hnone : numbersOf u (front ++ back) = [] := numbersOf_eq_nil (hthread ▸ hnodup.1)
        rw [numbersOf_append, List.append_eq_nil_iff] at hnone
        simpa only [numbersOf_append, hnone, List.nil_append, List.append_nil] using hu
      · have hother : numbersOf u [c] = [] := by simp [numbersOf_singleton, hthread]
        simpa only [numbersOf_append, hother, List.nil_append, List.append_nil] using hu

theorem Ordered.dequeue (h : s.Ordered) (hidle : s.running = []) : s.dequeue.1.Ordered := by
  obtain ⟨hcount, halone, hacc, hnum, hnodup, hsub, hskip, hall⟩ := h
  unfold MainScheduler.dequeue
  split
  · exact ⟨hcount, halone, hacc, hnum, hnodup, hsub, hskip, hall⟩
  · rename_i c rest hqueue
    rw [hqueue, List.length_cons, hidle] at hcount
    have haccept : s.accepted = (s.taken ++ [c]) ++ rest := by simp [hacc, hqueue]
    split_ifs with hcancelled
    · refine ⟨?_, halone, haccept, hnum, hnodup, ?_, ?_, ?_⟩
      · simp only [hidle, List.length_nil] at hcount ⊢
        omega
      · exact hsub.trans (List.sublist_append_left _ _)
      · intro d hd
        simp only [List.mem_append, List.mem_singleton] at hd
        rcases hd with hd | rfl
        · exact hskip d hd
        · exact .inr hcancelled
      · intro hnone
        simp only at hnone
        simp [hnone] at hcancelled
    · refine ⟨?_, ?_, haccept, hnum, hnodup, hsub.append (List.Sublist.refl _), ?_,
        fun hnone => by simp [start, hall hnone]⟩
      · simp only [start, hidle, List.length_cons, List.length_nil] at hcount ⊢
        omega
      · simp [start, hidle]
      · intro d hd
        simp only [start, List.mem_append, List.mem_singleton] at hd ⊢
        rcases hd with hd | hd
        · exact (hskip d hd).imp_left .inl
        · exact .inl (.inr hd)

theorem Ordered.finish (h : s.Ordered) : s.finish.Ordered := by
  obtain ⟨hcount, halone, hacc, hnum, hnodup, hsub, hskip, hall⟩ := h
  unfold MainScheduler.finish
  split
  · exact ⟨hcount, halone, hacc, hnum, hnodup, hsub, hskip, hall⟩
  · rename_i c rest hrun
    rw [hrun, List.length_cons] at hcount halone
    refine ⟨?_, ?_, hacc, hnum, hnodup, hsub, hskip, hall⟩
    · simp only
      omega
    · simp only
      omega

theorem Ordered.cancel (h : s.Ordered) (t : Thread) (number : ℕ) : (s.cancel t number).Ordered := by
  unfold MainScheduler.cancel
  split_ifs
  · refine ⟨h.counted, h.alone, h.accepted_eq, h.numbered, h.scheduling_nodup, h.started_sublist,
      ?_, fun hnone => by simp at hnone⟩
    intro c hc
    exact (h.skipped c hc).imp_right (List.mem_cons_of_mem _)
  · exact h

theorem Ordered.step (h : s.Ordered) (i : Input α) : (s.step i).Ordered := by
  cases i with
  | schedule t action =>
    by_cases hbusy : s.busy t = true
    · simpa [MainScheduler.step, hbusy] using h
    · simpa [MainScheduler.step, hbusy] using h.scheduleInternal t action (by simpa using hbusy)
  | async t => exact h.async t
  | dequeue =>
    by_cases hidle : s.running.isEmpty && !s.busy .main
    · have hrun : s.running = [] := by
        simp only [Bool.and_eq_true, List.isEmpty_iff] at hidle
        exact hidle.1
      simpa only [MainScheduler.step, hidle, if_true] using h.dequeue hrun
    · have hstep : s.step .dequeue = s := if_neg hidle
      rw [hstep]
      exact h
  | finish =>
    by_cases hbusy : s.busy .main = true
    · simpa [MainScheduler.step, hbusy] using h
    · simpa [MainScheduler.step, hbusy] using h.finish
  | cancel t number => exact h.cancel t number

theorem ordered_run (inputs : List (Input α)) : (run step {} inputs).Ordered :=
  run_invariant Ordered (fun _ i h => h.step i) _ inputs ordered_init

/-- The calls of a thread that have been taken are its first ones. -/
theorem Ordered.taken_numbers (h : s.Ordered) (t : Thread) :
    ∃ k, k ≤ s.calls t ∧ numbersOf t s.taken = List.range k := by
  have hprefix : numbersOf t s.taken <+: List.range (s.calls t) := by
    rw [← h.numbered t, h.accepted_eq, numbersOf_append, numbersOf_append, List.append_assoc]
    exact List.prefix_append _ _
  refine ⟨(numbersOf t s.taken).length, by simpa using hprefix.length_le, ?_⟩
  have htake := List.prefix_iff_eq_take.mp hprefix
  rw [List.take_range, min_eq_left (by simpa using hprefix.length_le)] at htake
  exact htake

theorem Ordered.nothing_left (h : s.Ordered) (hzero : s.numberEnqueued = 0) :
    s.scheduling = [] ∧ s.mainQueue = [] ∧ s.running = [] := by
  have hcount := h.counted
  refine ⟨?_, ?_, ?_⟩ <;> exact List.length_eq_zero_iff.mp (by omega)

/-- A call either starts, when nothing else is on the way, or joins the calls on
the way to the queue. -/
theorem Ordered.scheduleInternal_cases (h : s.Ordered) (t : Thread) (action : α) :
    (∃ c, c.action = action ∧ s.mainQueue = [] ∧ s.scheduling = [] ∧
        (s.scheduleInternal t action).2 = some c ∧
        (s.scheduleInternal t action).1.mainQueue = [] ∧
        (s.scheduleInternal t action).1.scheduling = []) ∨
      ∃ c, c.action = action ∧ c.thread = t ∧ (s.scheduleInternal t action).2 = none ∧
        (s.scheduleInternal t action).1.mainQueue = s.mainQueue ∧
        (s.scheduleInternal t action).1.scheduling = s.scheduling ++ [c] := by
  unfold MainScheduler.scheduleInternal
  split_ifs with hnow
  · obtain ⟨hsched, hqueue, -⟩ := h.nothing_left hnow.2
    exact .inl ⟨⟨t, s.calls t, action⟩, rfl, hqueue, hsched, rfl, hqueue, hsched⟩
  · exact .inr ⟨⟨t, s.calls t, action⟩, rfl, rfl, rfl, rfl, rfl⟩

theorem scheduleInternal_cancelled (s : MainScheduler α) (t : Thread) (action : α) :
    (s.scheduleInternal t action).1.cancelled = s.cancelled := by
  unfold MainScheduler.scheduleInternal
  split_ifs <;> rfl

/-- In every interleaving actions do not nest, the main thread takes the calls
in the order of their acceptance, it starts each at most once and leaves out
only cancelled ones, and for each thread it has come to the first calls of that
thread, to all of them once the counter is back at zero. -/
theorem actions_in_order (inputs : List (Input α)) :
    (run step {} inputs).running.length ≤ 1 ∧
      (run step {} inputs).taken <+: (run step {} inputs).accepted ∧
      (run step {} inputs).started.Sublist (run step {} inputs).taken ∧
      (∀ c ∈ (run step {} inputs).taken, c ∈ (run step {} inputs).started ∨
        (c.thread, c.number) ∈ (run step {} inputs).cancelled) ∧
      (∀ t, ∃ k, k ≤ (run step {} inputs).calls t ∧
        numbersOf t (run step {} inputs).taken = List.range k) ∧
      ((run step {} inputs).numberEnqueued = 0 → ∀ t,
        numbersOf t (run step {} inputs).taken = List.range ((run step {} inputs).calls t)) := by
  have h := ordered_run inputs
  refine ⟨h.alone, ?_, h.started_sublist, h.skipped, h.taken_numbers, ?_⟩
  · rw [h.accepted_eq]
    exact List.prefix_append _ _
  · intro hzero t
    obtain ⟨hsched, hqueue, -⟩ := h.nothing_left hzero
    have hnum := h.numbered t
    rwa [h.accepted_eq, hsched, hqueue, List.append_nil, List.append_nil] at hnum

/-- The steps that are left when no thread makes another call. -/
def drain (s : MainScheduler α) : List (Input α) :=
  s.scheduling.map (fun c => .async c.thread) ++ .finish ::
    (List.replicate (s.mainQueue.length + s.scheduling.length) [.dequeue, .finish]).flatten

theorem async_head {c : Call α} {rest : List (Call α)} (h : s.scheduling = c :: rest) :
    s.async c.thread = { s with
      scheduling := rest
      mainQueue := s.mainQueue ++ [c]
      accepted := s.accepted ++ [c] } := by
  simp [MainScheduler.async, h, Call.isOf]

/-- Every call on the way reaches the queue. -/
theorem run_asyncs (s : MainScheduler α) :
    (run step s (s.scheduling.map (fun c => .async c.thread))).scheduling = [] ∧
      (run step s (s.scheduling.map (fun c => .async c.thread))).running = s.running ∧
      (run step s (s.scheduling.map (fun c => .async c.thread))).mainQueue =
        s.mainQueue ++ s.scheduling := by
  induction h : s.scheduling generalizing s with
  | nil => exact ⟨h, rfl, by simp [run]⟩
  | cons c rest ih =>
    simp only [List.map_cons, run, step, async_head h]
    obtain ⟨hsched, hrun, hqueue⟩ := ih { s with
      scheduling := rest
      mainQueue := s.mainQueue ++ [c]
      accepted := s.accepted ++ [c] } rfl
    exact ⟨hsched, hrun, by simp [hqueue]⟩

/-- Only blocks of the main queue are left, `n` of them. -/
structure Waiting (s : MainScheduler α) (n : ℕ) : Prop where
  scheduling_eq : s.scheduling = []
  running_eq : s.running = []
  length_eq : s.mainQueue.length = n

theorem Waiting.turn {n : ℕ} (h : s.Waiting (n + 1)) :
    (run step s [.dequeue, .finish]).Waiting n := by
  obtain ⟨hsched, hrun, hlen⟩ := h
  obtain ⟨c, rest, hqueue⟩ := List.exists_cons_of_length_eq_add_one hlen
  have hrest : rest.length = n := by simpa [hqueue] using hlen
  by_cases hcancelled : (c.thread, c.number) ∈ s.cancelled
  · have hturn : run step s [.dequeue, .finish] = { s with
        mainQueue := rest
        taken := s.taken ++ [c]
        numberEnqueued := s.numberEnqueued - 1 } := by
      simp [run, step, busy, hsched, hrun, MainScheduler.dequeue, hqueue, hcancelled,
        MainScheduler.finish]
    rw [hturn]
    exact ⟨hsched, hrun, hrest⟩
  · have hturn : run step s [.dequeue, .finish] = { s with
        mainQueue := rest
        taken := s.taken ++ [c]
        started := s.started ++ [c]
        numberEnqueued := s.numberEnqueued - 1 } := by
      simp [run, step, busy, hsched, hrun, MainScheduler.dequeue, hqueue, hcancelled,
        MainScheduler.finish, start]
    rw [hturn]
    exact ⟨hsched, hrun, hrest⟩

theorem Waiting.turns {n : ℕ} (h : s.Waiting n) :
    (run step s (List.replicate n [.dequeue, .finish]).flatten).Waiting 0 := by
  induction n generalizing s with
  | zero => exact h
  | succ n ih =>
    rw [List.replicate_succ, List.flatten_cons, run_append]
    exact ih h.turn

/-- From every reachable state the calls on the way can all be brought to their
end; the counter is then zero and the next call of the main thread runs at once. -/
theorem drained (inputs : List (Input α)) :
    (run step {} (inputs ++ (run step {} inputs).drain)).numberEnqueued = 0 := by
  have h := ordered_run inputs
  generalize hs : run step {} inputs = s at h
  obtain ⟨hsched, hrun, hqueue⟩ := s.run_asyncs
  have hwaiting : (run step s (s.scheduling.map (fun c => .async c.thread) ++ [.finish])).Waiting
      (s.mainQueue.length + s.scheduling.length) := by
    rw [run_append]
    generalize run step s (s.scheduling.map (fun c => .async c.thread)) = u at hsched hrun hqueue
    have halone := h.alone
    rw [← hrun] at halone
    cases hu : u.running with
    | nil =>
      refine ⟨?_, ?_, ?_⟩ <;>
        simp [run, step, busy, hsched, MainScheduler.finish, hu, hqueue]
    | cons c rest =>
      have hrest : rest = [] := by simpa [hu] using halone
      refine ⟨?_, ?_, ?_⟩ <;>
        simp [run, step, busy, hsched, MainScheduler.finish, hu, hqueue, hrest]
  have hdrain : run step {} (inputs ++ s.drain) = run step
      (run step s (s.scheduling.map (fun c => .async c.thread) ++ [.finish]))
      (List.replicate (s.mainQueue.length + s.scheduling.length) [.dequeue, .finish]).flatten := by
    rw [run_append, hs, ← run_append]
    simp [drain]
  obtain ⟨hsched', hrun', hlen'⟩ := hwaiting.turns
  have hcount := (ordered_run (inputs ++ s.drain)).counted
  rw [hdrain] at hcount ⊢
  simpa [hsched', hrun', hlen'] using hcount

end MainScheduler

end Mber.Scheduling
