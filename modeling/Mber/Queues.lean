import Mathlib.Data.Int.Notation
import Mathlib.Data.List.Basic
import Mathlib.Order.Lattice
import Mber.Runs

/-!
The `Queue` of RxSwift: a circular buffer that grows and shrinks. Slot `k` of
the queue lies `k` places after the dequeue index, around the end of the
storage. Every subscript may trap; none does while the slots hold the elements
of a list in order, and the operations keep it so.
-/
namespace Mber.Queues

open Runs

variable {T : Type*}

structure Queue (T : Type*) where
  storage : List (Option T)
  count : ℕ := 0
  pushNextIndex : ℕ := 0
  initialCapacity : ℕ
  deriving DecidableEq

def resizeFactor : ℕ := 2

def get (storage : List (Option T)) (i : ℤ) : Option (Option T) :=
  if 0 ≤ i then storage[i.toNat]? else none

def set (storage : List (Option T)) (i : ℤ) (x : Option T) : Option (List (Option T)) :=
  if 0 ≤ i ∧ i.toNat < storage.length then some (storage.set i.toNat x) else none

def slice (storage : List (Option T)) (lower upper : ℤ) : Option (List (Option T)) :=
  if 0 ≤ lower ∧ lower ≤ upper ∧ upper ≤ storage.length then
    some ((storage.drop lower.toNat).take (upper - lower).toNat)
  else none

def replaceSubrange (storage : List (Option T)) (lower upper : ℤ) (new : List (Option T)) :
    Option (List (Option T)) :=
  if 0 ≤ lower ∧ lower ≤ upper ∧ upper ≤ storage.length then
    some (storage.take lower.toNat ++ new ++ storage.drop upper.toNat)
  else none

namespace Queue

def create (capacity : ℕ) : Queue T :=
  { storage := List.replicate capacity none, initialCapacity := capacity }

def dequeueIndex (q : Queue T) : ℤ :=
  let index : ℤ := q.pushNextIndex - q.count
  if index < 0 then index + q.storage.length else index

def peek (q : Queue T) : Option T :=
  if 0 < q.count then (get q.storage q.dequeueIndex).join else none

/-- The elements go to the front of the new storage, in two batches. -/
def resizeTo (q : Queue T) (size : ℕ) : Option (Queue T) := do
  let spaceToEndOfQueue := q.storage.length - q.dequeueIndex
  let countElementsInFirstBatch := min (q.count : ℤ) spaceToEndOfQueue
  let numberOfElementsInSecondBatch := q.count - countElementsInFirstBatch
  let first ← slice q.storage q.dequeueIndex (q.dequeueIndex + countElementsInFirstBatch)
  let newStorage ← replaceSubrange (List.replicate size none) 0 countElementsInFirstBatch first
  let second ← slice q.storage 0 numberOfElementsInSecondBatch
  let newStorage ← replaceSubrange newStorage countElementsInFirstBatch
    (countElementsInFirstBatch + numberOfElementsInSecondBatch) second
  some { q with storage := newStorage, pushNextIndex := q.count }

/-- The end of `enqueue`, with room for the element. -/
def push (q : Queue T) (element : T) : Option (Queue T) := do
  let storage ← set q.storage q.pushNextIndex (some element)
  let next := q.pushNextIndex + 1
  some { q with
    storage
    count := q.count + 1
    pushNextIndex := if storage.length ≤ next then next - storage.length else next }

def enqueue (q : Queue T) (element : T) : Option (Queue T) :=
  if q.count = q.storage.length then
    (q.resizeTo (max q.storage.length 1 * resizeFactor)).bind fun q' => q'.push element
  else q.push element

def dequeueElementOnly (q : Queue T) : Option (T × Queue T) :=
  if 0 < q.count then do
    let element ← (get q.storage q.dequeueIndex).join
    let storage ← set q.storage q.dequeueIndex none
    some (element, { q with storage, count := q.count - 1 })
  else none

/-- The end of `dequeue`: a queue that has become sparse is halved. -/
def shrink (q : Queue T) : Option (Queue T) :=
  let downsizeLimit := q.storage.length / (resizeFactor * resizeFactor)
  if q.count < downsizeLimit ∧ q.initialCapacity ≤ downsizeLimit then
    q.resizeTo (q.storage.length / resizeFactor)
  else some q

def dequeue (q : Queue T) : Option (Option T × Queue T) :=
  if q.count = 0 then some (none, q)
  else q.dequeueElementOnly.bind fun r => r.2.shrink.map fun q' => (some r.1, q')

/-- The elements that the generator gives until it gives nil. -/
def generate (storage : List (Option T)) : ℕ → ℤ → Option (List T)
  | 0, _ => some []
  | count + 1, i =>
    let i := if storage.length ≤ i then i - storage.length else i
    match get storage i with
    | none => none
    | some none => some []
    | some (some element) => (generate storage count (i + 1)).map (element :: ·)

def makeIterator (q : Queue T) : Option (List T) :=
  generate q.storage q.count q.dequeueIndex

/-- `k` places after the front, around the end. -/
def position (capacity front k : ℕ) : ℕ :=
  if front + k < capacity then front + k else front + k - capacity

def front (q : Queue T) : ℕ :=
  if q.count ≤ q.pushNextIndex then q.pushNextIndex - q.count
  else q.pushNextIndex + q.storage.length - q.count

/-- The slots hold the elements of the list in order, and nothing after them. -/
structure Represents (q : Queue T) (elements : List T) : Prop where
  count_eq : q.count = elements.length
  fits : elements.length ≤ q.storage.length
  next_lt : q.pushNextIndex = 0 ∨ q.pushNextIndex < q.storage.length
  slot : ∀ k, k < q.storage.length →
    q.storage[position q.storage.length q.front k]? = some elements[k]?

variable {q : Queue T} {elements : List T}

theorem represents_create (capacity : ℕ) : (create capacity : Queue T).Represents [] := by
  refine ⟨rfl, Nat.zero_le _, .inl rfl, fun k hk => ?_⟩
  have hlt : k < capacity := by simpa [create] using hk
  simp [create, front, position, hlt]

theorem Represents.count_le (h : q.Represents elements) : q.count ≤ q.storage.length := by
  rw [h.count_eq]
  exact h.fits

/-- The front is a slot, unless there is no storage. -/
theorem Represents.front_lt (h : q.Represents elements) :
    q.front < q.storage.length ∨ q.storage.length = 0 ∧ q.front = 0 := by
  have hcount := h.count_le
  have hnext := h.next_lt
  unfold front
  split_ifs <;> omega

theorem Represents.dequeueIndex_eq (h : q.Represents elements) : q.dequeueIndex = q.front := by
  have hcount := h.count_le
  unfold dequeueIndex front
  simp only
  split_ifs <;> omega

theorem get_position (storage : List (Option T)) (i : ℕ) : get storage i = storage[i]? := by
  simp [get]

/-- The element at the front. -/
theorem Represents.get_front (h : q.Represents elements) (hne : 0 < q.count) :
    get q.storage q.dequeueIndex = some elements.head? := by
  have hcap : 0 < q.storage.length := Nat.lt_of_lt_of_le hne h.count_le
  have hslot := h.slot 0 hcap
  have hfront : position q.storage.length q.front 0 = q.front := by
    have hlt := h.front_lt
    unfold position
    split_ifs <;> omega
  rw [hfront] at hslot
  rw [h.dequeueIndex_eq, get_position, hslot, List.head?_eq_getElem?]

theorem Represents.peek (h : q.Represents elements) : q.peek = elements.head? := by
  unfold Queue.peek
  split_ifs with hne
  · rw [h.get_front hne]
    rfl
  · have hnil : elements = [] := List.length_eq_zero_iff.mp (by
      have hcount := h.count_eq
      omega)
    rw [hnil]
    rfl

/-- Different slots are in different places. -/
theorem position_injective {capacity f j k : ℕ} (hj : j < capacity) (hk : k < capacity)
    (h : position capacity f j = position capacity f k) : j = k := by
  unfold position at h
  split_ifs at h <;> omega

theorem position_lt {capacity f k : ℕ} (hf : f < capacity) (hk : k < capacity) :
    position capacity f k < capacity := by
  unfold position
  split_ifs <;> omega

/-- What a write to a slot leaves in the slots. -/
theorem set_position {storage : List (Option T)} {f j k : ℕ} (hf : f < storage.length)
    (hj : j < storage.length) (hk : k < storage.length) (x : Option T) :
    (storage.set (position storage.length f j) x)[position storage.length f k]? =
      if j = k then some x else storage[position storage.length f k]? := by
  by_cases hjk : j = k
  · subst hjk
    rw [List.getElem?_set_self (position_lt hf hj), if_pos rfl]
  · rw [List.getElem?_set_ne fun h => hjk (position_injective hj hk h), if_neg hjk]

theorem set_eq {storage : List (Option T)} {i : ℕ} (hi : i < storage.length) (x : Option T) :
    set storage i x = some (storage.set i x) := by
  simp [set, hi]

/-- The next element goes to the first slot without one. -/
theorem Represents.next_eq (h : q.Represents elements) (hroom : q.count < q.storage.length) :
    q.pushNextIndex = position q.storage.length q.front q.count := by
  have hnext := h.next_lt
  unfold position front
  split_ifs <;> omega

theorem Represents.push (h : q.Represents elements) (hroom : q.count < q.storage.length)
    (element : T) : ∃ q', q.push element = some q' ∧ q'.Represents (elements ++ [element]) ∧
      q'.storage.length = q.storage.length ∧ q'.initialCapacity = q.initialCapacity := by
  have hnext := h.next_eq hroom
  have hcount := h.count_eq
  have hlt : q.pushNextIndex < q.storage.length := by
    have hor := h.next_lt
    omega
  have hfront : q.front < q.storage.length := by
    obtain hf | ⟨hzero, -⟩ := h.front_lt
    · exact hf
    · omega
  obtain ⟨q', hq'⟩ : ∃ q' : Queue T, q' = { q with
      storage := q.storage.set q.pushNextIndex (some element)
      count := q.count + 1
      pushNextIndex := if q.storage.length ≤ q.pushNextIndex + 1 then
        q.pushNextIndex + 1 - q.storage.length else q.pushNextIndex + 1 } := ⟨_, rfl⟩
  have hlength : q'.storage.length = q.storage.length := by rw [hq', List.length_set]
  have hsame : q'.front = q.front := by
    simp only [hq', Queue.front, List.length_set]
    split_ifs <;> omega
  refine ⟨q', ?_, ⟨?_, ?_, ?_, fun k hk => ?_⟩, hlength, by rw [hq']⟩
  · simp [Queue.push, set_eq hlt, hq']
  · rw [hq', List.length_append, List.length_singleton, ← hcount]
  · rw [hlength, List.length_append, List.length_singleton]
    omega
  · rw [hlength]
    simp only [hq']
    split_ifs <;> omega
  · rw [hlength] at hk ⊢
    have hstorage : q'.storage = q.storage.set (position q.storage.length q.front q.count)
        (some element) := by rw [hq', ← hnext]
    rw [hstorage, hsame, set_position hfront hroom hk]
    by_cases hlast : q.count = k
    · rw [if_pos hlast, ← hlast, hcount]
      simp
    · rw [if_neg hlast, h.slot k hk]
      obtain hbefore | hafter := Nat.lt_or_gt_of_ne hlast
      · rw [List.getElem?_eq_none (by omega), List.getElem?_eq_none]
        rw [List.length_append, List.length_singleton]
        omega
      · rw [List.getElem?_append_left (by omega)]

theorem slice_eq (storage : List (Option T)) (lower n : ℕ) (h : lower + n ≤ storage.length) :
    slice storage lower (lower + n : ℤ) = some ((storage.drop lower).take n) := by
  have hrange : (0 : ℤ) ≤ lower ∧ (lower : ℤ) ≤ lower + n ∧ (lower : ℤ) + n ≤ storage.length := by
    omega
  have hn : ((lower : ℤ) + n - lower).toNat = n := by omega
  rw [slice, if_pos hrange, hn, Int.toNat_natCast]

theorem replaceSubrange_eq (storage : List (Option T)) (lower n : ℕ)
    (h : lower + n ≤ storage.length) (new : List (Option T)) :
    replaceSubrange storage lower (lower + n : ℤ) new =
      some (storage.take lower ++ new ++ storage.drop (lower + n)) := by
  have hrange : (0 : ℤ) ≤ lower ∧ (lower : ℤ) ≤ lower + n ∧ (lower : ℤ) + n ≤ storage.length := by
    omega
  have hn : ((lower : ℤ) + n).toNat = lower + n := by omega
  rw [replaceSubrange, if_pos hrange, hn, Int.toNat_natCast]

/-- The new storage: the slots up to the end of the old one, those from its
start, and empty ones. -/
theorem Represents.resizeTo_eq (h : q.Represents elements) {size first second : ℕ}
    (hsize : q.count < size) (hfirst : first = min q.count (q.storage.length - q.front))
    (hsecond : second = q.count - first) :
    q.resizeTo size = some { q with
      storage := (q.storage.drop q.front).take first ++ q.storage.take second ++
        List.replicate (size - q.count) none
      pushNextIndex := q.count } := by
  have hcount := h.count_le
  have hfront := h.front_lt
  have hmin : min (q.count : ℤ) (q.storage.length - (q.front : ℤ)) = (first : ℤ) := by omega
  have hrest : (q.count : ℤ) - first = (second : ℤ) := by omega
  have hlength : ((q.storage.drop q.front).take first).length = first := by
    rw [List.length_take, List.length_drop]
    omega
  have hslice := slice_eq q.storage q.front first (by omega)
  have hslice' := slice_eq q.storage 0 second (by omega)
  have hreplace := replaceSubrange_eq (List.replicate size none) 0 first
    (by rw [List.length_replicate]; omega) ((q.storage.drop q.front).take first)
  have hreplace' := replaceSubrange_eq
    ((q.storage.drop q.front).take first ++ List.replicate (size - first) none) first second
    (by rw [List.length_append, hlength, List.length_replicate]; omega) (q.storage.take second)
  rw [Int.natCast_zero, Int.zero_add] at hslice' hreplace
  rw [List.drop_zero] at hslice'
  rw [List.take_zero, List.nil_append, Nat.zero_add, List.drop_replicate] at hreplace
  have hlast : size - first - second = size - q.count := by omega
  have hdrop : ((q.storage.drop q.front).take first).drop (first + second) = [] :=
    List.drop_eq_nil_of_le (by omega)
  rw [List.take_left' hlength, List.drop_append, hlength, hdrop, List.nil_append,
    Nat.add_sub_cancel_left, List.drop_replicate, hlast] at hreplace'
  simp only [resizeTo, h.dequeueIndex_eq, hmin, hrest, hslice, hslice', hreplace, hreplace',
    Option.bind_eq_bind, Option.bind_some]

theorem Represents.resizeTo (h : q.Represents elements) (size : ℕ) (hsize : q.count < size) :
    ∃ q', q.resizeTo size = some q' ∧ q'.Represents elements ∧ q'.storage.length = size ∧
      q'.count = q.count ∧ q'.initialCapacity = q.initialCapacity := by
  have hcount := h.count_le
  have hfront := h.front_lt
  obtain ⟨first, hfirst⟩ : ∃ n, n = min q.count (q.storage.length - q.front) := ⟨_, rfl⟩
  have hlength : ((q.storage.drop q.front).take first).length = first := by
    rw [List.length_take, List.length_drop]
    omega
  have hlength' : (q.storage.take (q.count - first)).length = q.count - first := by
    rw [List.length_take]
    omega
  obtain ⟨q', hq'⟩ : ∃ q' : Queue T, q' = { q with
      storage := (q.storage.drop q.front).take first ++ q.storage.take (q.count - first) ++
        List.replicate (size - q.count) none
      pushNextIndex := q.count } := ⟨_, rfl⟩
  have hsize' : q'.storage.length = size := by
    rw [hq', List.length_append, List.length_append, hlength, hlength', List.length_replicate]
    omega
  have hzero : q'.front = 0 := by
    simp [hq', Queue.front]
  refine ⟨q', hq' ▸ h.resizeTo_eq hsize hfirst rfl, ⟨?_, ?_, .inr ?_, fun k hk => ?_⟩, hsize',
    by rw [hq'], by rw [hq']⟩
  · rw [hq']
    exact h.count_eq
  · rw [hsize', ← h.count_eq]
    omega
  · rw [hsize', hq']
    exact hsize
  · rw [hsize'] at hk ⊢
    have hposition : position size q'.front k = k := by
      rw [hzero]
      unfold position
      split_ifs <;> omega
    rw [hposition, hq']
    -- The slot lies in the first batch, in the second, or after both.
    obtain hk1 | hk1 := Nat.lt_or_ge k first
    · have hslot := h.slot k (by omega)
      have hold : position q.storage.length q.front k = q.front + k := by
        unfold position
        split_ifs <;> omega
      rw [List.append_assoc, List.getElem?_append_left (by omega), List.getElem?_take_of_lt hk1,
        List.getElem?_drop, ← hold, hslot]
    · obtain hk2 | hk2 := Nat.lt_or_ge k q.count
      · have hslot := h.slot k (by omega)
        have hold : position q.storage.length q.front k = k - first := by
          unfold position
          split_ifs <;> omega
        rw [List.append_assoc, List.getElem?_append_right (by omega), hlength,
          List.getElem?_append_left (by omega), List.getElem?_take_of_lt (by omega), ← hold, hslot]
      · have hnone : elements[k]? = none := List.getElem?_eq_none (by
          rw [← h.count_eq]
          exact hk2)
        rw [hnone, List.getElem?_append_right (by rw [List.length_append]; omega),
          List.getElem?_replicate_of_lt (by rw [List.length_append]; omega)]

theorem Represents.dequeueElementOnly {element : T} {rest : List T}
    (h : q.Represents (element :: rest)) : ∃ q', q.dequeueElementOnly = some (element, q') ∧
      q'.Represents rest ∧ q'.storage.length = q.storage.length ∧ q.count = q'.count + 1 ∧
      q'.initialCapacity = q.initialCapacity := by
  have hcount := h.count_eq
  rw [List.length_cons] at hcount
  have hpos : 0 < q.count := by omega
  have hcap : 0 < q.storage.length := Nat.lt_of_lt_of_le hpos h.count_le
  have hfront : q.front < q.storage.length := by
    obtain hf | ⟨hzero, -⟩ := h.front_lt
    · exact hf
    · omega
  obtain ⟨q', hq'⟩ : ∃ q' : Queue T,
      q' = { q with storage := q.storage.set q.front none, count := q.count - 1 } := ⟨_, rfl⟩
  have hlength : q'.storage.length = q.storage.length := by rw [hq', List.length_set]
  have hle := h.count_le
  have hnext := h.next_lt
  refine ⟨q', ?_, ⟨?_, ?_, ?_, fun k hk => ?_⟩, hlength, ?_, by rw [hq']⟩
  · have hget := h.get_front hpos
    rw [List.head?_cons, h.dequeueIndex_eq] at hget
    simp [Queue.dequeueElementOnly, hpos, hget, h.dequeueIndex_eq, set_eq hfront, hq']
  · rw [hq', hcount]
    rfl
  · rw [hlength]
    omega
  · rw [hlength, hq']
    exact hnext
  · rw [hlength] at hk ⊢
    have hstorage : q'.storage = q.storage.set (position q.storage.length q.front 0) none := by
      have hzero : position q.storage.length q.front 0 = q.front := by
        unfold position
        split_ifs <;> omega
      rw [hzero, hq']
    -- The slots have moved one place; the one that was the first is now the last.
    obtain hinner | hlast : k + 1 < q.storage.length ∨ k + 1 = q.storage.length := by omega
    · have hmoved : position q.storage.length q'.front k =
          position q.storage.length q.front (k + 1) := by
        simp only [hq', Queue.front, List.length_set, position]
        split_ifs <;> omega
      rw [hmoved, hstorage, set_position hfront hcap hinner, if_neg (by omega), h.slot _ hinner,
        List.getElem?_cons_succ]
    · have hmoved : position q.storage.length q'.front k = position q.storage.length q.front 0 := by
        simp only [hq', Queue.front, List.length_set, position]
        split_ifs <;> omega
      rw [hmoved, hstorage, set_position hfront hcap hcap, if_pos rfl, List.getElem?_eq_none]
      omega
  · rw [hq']
    simp only
    omega

end Queue

end Mber.Queues
