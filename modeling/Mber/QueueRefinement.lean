import Mber.Queues

/-!
A queue answers as the list of its elements does, whatever is done with it, and
traps only where the list does. Its storage shrinks when it is sparse, so that
its length is bounded by what it holds.
-/
namespace Mber.Queues

open Runs

variable {T : Type*}

namespace Queue

variable {q : Queue T} {elements : List T}

/-- A sparse queue is larger than it was made, and less than a quarter full. -/
def Sparse (q : Queue T) : Prop :=
  q.count < q.storage.length / (resizeFactor * resizeFactor) ∧
    q.initialCapacity ≤ q.storage.length / (resizeFactor * resizeFactor)

theorem Represents.enqueue (h : q.Represents elements) (hdense : ¬ q.Sparse) (element : T) :
    ∃ q', q.enqueue element = some q' ∧ q'.Represents (elements ++ [element]) ∧ ¬ q'.Sparse ∧
      q'.initialCapacity = q.initialCapacity := by
  have hle := h.count_le
  unfold Sparse at hdense ⊢
  simp only [resizeFactor] at hdense ⊢
  by_cases hfull : q.count = q.storage.length
  · obtain ⟨r, hr, hrep, hlength, hcount, hinitial⟩ :=
      h.resizeTo (max q.storage.length 1 * resizeFactor) (by
        unfold resizeFactor
        omega)
    simp only [resizeFactor] at hlength
    obtain ⟨q', hq', hrep', hlength', hinitial'⟩ := hrep.push (by omega) element
    have hcount' := hrep'.count_eq
    rw [List.length_append, List.length_singleton, ← hrep.count_eq] at hcount'
    refine ⟨q', by rw [Queue.enqueue, if_pos hfull, hr, Option.bind_some, hq'], hrep', ?_,
      hinitial'.trans hinitial⟩
    omega
  · obtain ⟨q', hq', hrep', hlength', hinitial'⟩ := h.push (by omega) element
    have hcount' := hrep'.count_eq
    rw [List.length_append, List.length_singleton, ← h.count_eq] at hcount'
    refine ⟨q', by rw [Queue.enqueue, if_neg hfull, hq'], hrep', ?_, hinitial'⟩
    omega

theorem Represents.dequeue (h : q.Represents elements) (hdense : ¬ q.Sparse) :
    ∃ q', q.dequeue = some (elements.head?, q') ∧ q'.Represents elements.tail ∧ ¬ q'.Sparse ∧
      q'.initialCapacity = q.initialCapacity := by
  cases elements with
  | nil =>
    have hzero : q.count = 0 := h.count_eq
    exact ⟨q, by simp [Queue.dequeue, hzero], h, hdense, rfl⟩
  | cons element rest =>
    have hpos : q.count ≠ 0 := by simp [h.count_eq]
    obtain ⟨r, hr, hrep, hlength, hcount, hinitial⟩ := h.dequeueElementOnly
    have hdequeue : q.dequeue = r.shrink.map fun q' => (some element, q') := by
      simp [Queue.dequeue, hpos, hr]
    unfold Sparse at hdense ⊢
    simp only [resizeFactor] at hdense ⊢
    by_cases hsparse : r.count < r.storage.length / (resizeFactor * resizeFactor) ∧
        r.initialCapacity ≤ r.storage.length / (resizeFactor * resizeFactor)
    · obtain ⟨q', hq', hrep', hlength', hcount', hinitial'⟩ :=
        hrep.resizeTo (r.storage.length / resizeFactor) (by
          simp only [resizeFactor] at hsparse ⊢
          omega)
      refine ⟨q', ?_, hrep', ?_, hinitial'.trans hinitial⟩
      · rw [hdequeue, shrink, if_pos hsparse, hq']
        rfl
      · simp only [resizeFactor] at hsparse hlength'
        omega
    · refine ⟨r, ?_, hrep, ?_, hinitial⟩
      · rw [hdequeue, shrink, if_neg hsparse]
        rfl
      · simpa only [resizeFactor] using hsparse

/-- The generator goes through the slots from the one it is at. -/
theorem Represents.generate (h : q.Represents elements) (n : ℕ) (hn : n ≤ elements.length) (i : ℕ)
    (hi : i = q.front + (elements.length - n) ∨
      i + q.storage.length = q.front + (elements.length - n)) :
    Queue.generate q.storage n i = some (elements.drop (elements.length - n)) := by
  induction n generalizing i with
  | zero => simp [Queue.generate]
  | succ n ih =>
    have hfits := h.fits
    have hfront := h.front_lt
    obtain ⟨k, hk⟩ : ∃ k, k = elements.length - (n + 1) := ⟨_, rfl⟩
    have hlt : k < elements.length := by omega
    obtain ⟨j, hj⟩ : ∃ j, j = position q.storage.length q.front k := ⟨_, rfl⟩
    have hwrap : (if (q.storage.length : ℤ) ≤ i then (i : ℤ) - q.storage.length else i) = j := by
      unfold position at hj
      split_ifs at hj ⊢ <;> omega
    have hslot := h.slot k (by omega)
    rw [← hj, List.getElem?_eq_getElem hlt] at hslot
    have hnext := ih (by omega) (j + 1) (by
      unfold position at hj
      split_ifs at hj <;> omega)
    rw [Int.natCast_add, Int.natCast_one] at hnext
    have hdrop : elements.length - n = k + 1 := by omega
    rw [hdrop] at hnext
    simp only [Queue.generate, hwrap, get_position, hslot, hnext, Option.map_some, ← hk]
    rw [List.drop_eq_getElem_cons hlt]

/-- From the front on, around the end: the elements, then empty slots. -/
theorem Represents.storage_eq (h : q.Represents elements) :
    q.storage.drop q.front ++ q.storage.take q.front =
      elements.map some ++ List.replicate (q.storage.length - elements.length) none := by
  have hfits := h.fits
  have hfront := h.front_lt
  have hdrop : (q.storage.drop q.front).length = q.storage.length - q.front := List.length_drop
  have htake : (q.storage.take q.front).length = q.front := by
    rw [List.length_take]
    omega
  refine List.ext_getElem? fun k => ?_
  obtain hlt | hge := Nat.lt_or_ge k q.storage.length
  · have hslot := h.slot k hlt
    have hleft : (q.storage.drop q.front ++ q.storage.take q.front)[k]? = some elements[k]? := by
      rw [← hslot]
      unfold position
      split_ifs with hinner
      · rw [List.getElem?_append_left (by omega), List.getElem?_drop]
      · rw [List.getElem?_append_right (by omega), hdrop, List.getElem?_take_of_lt (by omega)]
        exact congrArg (fun n => q.storage[n]?) (by omega)
    rw [hleft]
    obtain hin | hout := Nat.lt_or_ge k elements.length
    · rw [List.getElem?_append_left (by simpa using hin)]
      simp [hin]
    · rw [List.getElem?_append_right (by simpa using hout), List.length_map,
        List.getElem?_replicate_of_lt (by omega), List.getElem?_eq_none hout]
  · rw [List.getElem?_eq_none, List.getElem?_eq_none]
    · rw [List.length_append, List.length_map, List.length_replicate]
      omega
    · rw [List.length_append]
      omega

/-- Only the elements of the queue are held on to. -/
theorem Represents.held (h : q.Represents elements) :
    q.storage.countP Option.isSome = q.count := by
  have hparts := congrArg (List.countP Option.isSome) h.storage_eq
  rw [List.countP_append, List.countP_append, Nat.add_comm, ← List.countP_append,
    List.take_append_drop] at hparts
  rw [hparts, h.count_eq]
  simp [List.countP_replicate, List.countP_map, Function.comp_def]

theorem Represents.makeIterator (h : q.Represents elements) : q.makeIterator = some elements := by
  rw [Queue.makeIterator, h.dequeueIndex_eq, h.count_eq,
    h.generate elements.length (Nat.le_refl _) q.front (.inl (by omega)), Nat.sub_self,
    List.drop_zero]

end Queue

inductive Input (T : Type*)
  | enqueue (element : T)
  | dequeue
  | peek
  | makeIterator

inductive Answer (T : Type*)
  | done
  | element (element : Option T)
  | elements (elements : List T)

def Queue.perform (q : Queue T) : Input T → Option (Answer T × Queue T)
  | .enqueue element => (q.enqueue element).map fun q' => (.done, q')
  | .dequeue => q.dequeue.map fun r => (.element r.1, r.2)
  | .peek => q.peek.map fun element => (.element (some element), q)
  | .makeIterator => q.makeIterator.map fun elements => (.elements elements, q)

/-- What a queue is for; only `peek` needs an element. -/
def performList (elements : List T) : Input T → Option (Answer T × List T)
  | .enqueue element => some (.done, elements ++ [element])
  | .dequeue => some (.element elements.head?, elements.tail)
  | .peek => elements.head?.map fun element => (.element (some element), elements)
  | .makeIterator => some (.elements elements, elements)

section Programs

variable {S : Type*} (perform : S → Input T → Option (Answer T × S))

/-- After a trap nothing happens any more. -/
def step (s : Option S) (i : Input T) : Option S := s.bind fun s => (perform s i).map Prod.snd

def emit (s : Option S) (i : Input T) : Option (Answer T) :=
  s.bind fun s => (perform s i).map Prod.fst

end Programs

/-- Both have trapped, or the queue has the elements of the list and is not sparse. -/
def Follows (capacity : ℕ) : Option (Queue T) → Option (List T) → Prop
  | none, none => True
  | some q, some elements =>
    q.Represents elements ∧ ¬ q.Sparse ∧ q.initialCapacity = capacity
  | _, _ => False

theorem follows_create (capacity : ℕ) :
    Follows capacity (some (Queue.create capacity : Queue T)) (some []) := by
  refine ⟨Queue.represents_create capacity, fun hsparse => ?_, rfl⟩
  simp only [Queue.Sparse, Queue.create, List.length_replicate, resizeFactor] at hsparse
  omega

theorem follows_perform {capacity : ℕ} {q : Queue T} {elements : List T}
    (h : Follows capacity (some q) (some elements)) (i : Input T) :
    (q.perform i).map Prod.fst = (performList elements i).map Prod.fst ∧
      Follows capacity ((q.perform i).map Prod.snd) ((performList elements i).map Prod.snd) := by
  obtain ⟨hrep, hdense, hcapacity⟩ := h
  cases i with
  | enqueue element =>
    obtain ⟨q', hq', hrep', hdense', hsame⟩ := hrep.enqueue hdense element
    simp only [Queue.perform, performList, hq', Option.map_some]
    exact ⟨trivial, hrep', hdense', hsame.trans hcapacity⟩
  | dequeue =>
    obtain ⟨q', hq', hrep', hdense', hsame⟩ := hrep.dequeue hdense
    simp only [Queue.perform, performList, hq', Option.map_some]
    exact ⟨trivial, hrep', hdense', hsame.trans hcapacity⟩
  | peek =>
    simp only [Queue.perform, performList, hrep.peek]
    cases elements with
    | nil => exact ⟨rfl, trivial⟩
    | cons element rest => exact ⟨rfl, hrep, hdense, hcapacity⟩
  | makeIterator =>
    simp only [Queue.perform, performList, hrep.makeIterator, Option.map_some]
    exact ⟨trivial, hrep, hdense, hcapacity⟩

theorem follows_step {capacity : ℕ} {q : Option (Queue T)} {elements : Option (List T)}
    (h : Follows capacity q elements) (i : Input T) :
    emit Queue.perform q i = emit performList elements i ∧
      Follows capacity (step Queue.perform q i) (step performList elements i) := by
  match q, elements, h with
  | none, none, _ => exact ⟨rfl, trivial⟩
  | some q, some elements, h => exact follows_perform h i

theorem follows_run {capacity : ℕ} (inputs : List (Input T)) {q : Option (Queue T)}
    {elements : Option (List T)} (h : Follows capacity q elements) :
    Follows capacity (run (step Queue.perform) q inputs) (run (step performList) elements inputs) := by
  induction inputs generalizing q elements with
  | nil => exact h
  | cons i rest ih => exact ih (follows_step h i).2

/-- Whatever is done with a queue of any capacity, it answers as the list of
its elements does, and traps only where the list does: at a `peek` without elements. -/
theorem queue_refines (capacity : ℕ) (inputs : List (Input T)) :
    trace (step Queue.perform) (emit Queue.perform) (some (Queue.create capacity)) inputs =
      trace (step performList) (emit performList) (some []) inputs :=
  trace_eq_of_simulation (fun _ _ i h => (follows_step h i).1) (fun _ _ i h => (follows_step h i).2)
    _ _ inputs (follows_create capacity)

/-- In every state of a run, the storage holds on to nothing but the elements of
the list, from the front on and around its end, and is less than four times as
long as it was made, or as one more element needs. -/
theorem space_bounded (capacity : ℕ) (inputs : List (Input T)) (q : Queue T)
    (hq : run (step Queue.perform) (some (Queue.create capacity)) inputs = some q) :
    (∃ elements, run (step performList) (some []) inputs = some elements ∧
      q.storage.drop q.front ++ q.storage.take q.front =
        elements.map some ++ List.replicate (q.storage.length - elements.length) none) ∧
      q.storage.countP Option.isSome = q.count ∧ q.count ≤ q.storage.length ∧
      q.storage.length < 4 * max capacity (q.count + 1) := by
  have hfollows := follows_run inputs (follows_create (T := T) capacity)
  rw [hq] at hfollows
  cases helements : run (step performList) (some []) inputs with
  | none =>
    rw [helements] at hfollows
    exact hfollows.elim
  | some elements =>
    rw [helements] at hfollows
    obtain ⟨hrep, hdense, hcapacity⟩ := hfollows
    refine ⟨⟨elements, rfl, hrep.storage_eq⟩, hrep.held, hrep.count_le, ?_⟩
    simp only [Queue.Sparse, resizeFactor] at hdense
    omega

/-- The storage has grown to four slots and been halved. -/
theorem space_bounded_halved :
    (∃ elements, run (step performList) (some []) [.enqueue 1, .enqueue 2, .enqueue 3, .dequeue,
        .dequeue, .dequeue, .enqueue 4] = some elements ∧
      [some 4, none].drop 0 ++ [some 4, none].take 0 =
        elements.map some ++ List.replicate (2 - elements.length) none) ∧
      ([some 4, none] : List (Option ℕ)).countP Option.isSome = 1 ∧ 1 ≤ 2 ∧
      2 < 4 * max 1 (1 + 1) :=
  space_bounded 1 [.enqueue 1, .enqueue 2, .enqueue 3, .dequeue, .dequeue, .dequeue, .enqueue 4]
    ⟨[some 4, none], 1, 1, 1⟩ (by decide)

end Mber.Queues
