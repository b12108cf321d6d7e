import Mber.Runs
import Mathlib.Data.Finmap

/-!
The bag in which the runtime keeps observers and disposables. The first entry
sits in its own slot, the next ones in an array of at most thirty pairs, the
others in a dictionary. The bag is compared with a finite map from keys to
elements, in which the n-th insertion has key n: they answer alike exactly
until the key counter has gone around. The slot decides in which order the
elements are visited.
-/
namespace Mber.Bags

open Runs

def arrayDictionaryMaxSize : ℕ := 30

/-- Keys are 64-bit words. -/
def keys : ℕ := 2 ^ 64

abbrev Entry (T : Type*) := Sigma fun _ : ℕ => T

structure Bag (T : Type*) where
  nextKey : ℕ := 0
  key0 : Option ℕ := none
  value0 : Option T := none
  pairs : List (Entry T) := []
  dictionary : Option (AList fun _ : ℕ => T) := none
  onlyFastPath : Bool := true

/-- The order in which a dictionary lists its entries. -/
structure Enumeration (T : Type*) where
  list : (AList fun _ : ℕ => T) → List (Entry T)
  perm : ∀ d, (list d).Perm d.entries

inductive Input (T : Type*)
  | insert (element : T)
  | removeKey (key : ℕ)
  | removeAll

variable {T : Type*}

namespace Input

def isInsert : Input T → Bool
  | .insert _ => true
  | _ => false

end Input

namespace Bag

def insert (b : Bag T) (element : T) : Bag T × ℕ :=
  let key := b.nextKey
  let next := { b with nextKey := (b.nextKey + 1) % keys }
  if b.key0 = none then ({ next with key0 := some key, value0 := some element }, key)
  else
    match b.dictionary with
    | some d => ({ next with onlyFastPath := false, dictionary := some (d.insert key element) }, key)
    | none =>
      if b.pairs.length < arrayDictionaryMaxSize then
        ({ next with onlyFastPath := false, pairs := b.pairs ++ [⟨key, element⟩] }, key)
      else
        ({ next with onlyFastPath := false, dictionary := some (AList.singleton key element) }, key)

/-- The slot is looked at first, then the dictionary, then the pairs. -/
def removeKey (b : Bag T) (key : ℕ) : Bag T × Option T :=
  if b.key0 = some key then ({ b with key0 := none, value0 := none }, b.value0)
  else
    match b.dictionary.bind (AList.lookup key) with
    | some value => ({ b with dictionary := b.dictionary.map (AList.erase key) }, some value)
    | none =>
      match b.pairs.dlookup key with
      | some value => ({ b with pairs := b.pairs.kerase key }, some value)
      | none => (b, none)

def removeAll (b : Bag T) : Bag T :=
  { b with key0 := none, value0 := none, pairs := [], dictionary := b.dictionary.map (fun _ => ∅) }

def count (b : Bag T) : ℕ :=
  (if b.value0.isSome then 1 else 0) + b.pairs.length +
    (b.dictionary.map (fun d => d.entries.length)).getD 0

/-- What `dispatch` and `disposeAll` visit, in order. -/
def dispatch (en : Enumeration T) (b : Bag T) : List T :=
  b.value0.toList ++
    if b.onlyFastPath then []
    else b.pairs.map (·.2) ++
      (b.dictionary.map (fun d => (en.list d).map (·.2))).getD []

def forEach (en : Enumeration T) (b : Bag T) : List T :=
  if b.onlyFastPath then b.value0.toList
  else
    b.value0.toList ++ b.pairs.map (·.2) ++
      match b.dictionary with
      | some d => if 0 < d.entries.length then (en.list d).map (·.2) else []
      | none => []

def step (b : Bag T) : Input T → Bag T
  | .insert element => (b.insert element).1
  | .removeKey key => (b.removeKey key).1
  | .removeAll => b.removeAll

end Bag

/-- What an operation returns, and what can be seen of the bag after it. -/
structure Answer (T : Type*) where
  key : Option ℕ
  removed : Option T
  count : ℕ
  visited : Multiset T
  forEach : Multiset T

namespace Bag

def emit (en : Enumeration T) (b : Bag T) (i : Input T) : Answer T :=
  { key := match i with
      | .insert element => some (b.insert element).2
      | _ => none
    removed := match i with
      | .removeKey key => (b.removeKey key).2
      | _ => none
    count := (b.step i).count
    visited := (b.step i).dispatch en
    forEach := (b.step i).forEach en }

end Bag

structure Registry (T : Type*) where
  map : Finmap fun _ : ℕ => T := ∅
  inserted : ℕ := 0

namespace Registry

def step (r : Registry T) : Input T → Registry T
  | .insert element => ⟨r.map.insert r.inserted element, r.inserted + 1⟩
  | .removeKey key => { r with map := r.map.erase key }
  | .removeAll => { r with map := ∅ }

def emit (r : Registry T) (i : Input T) : Answer T :=
  { key := match i with
      | .insert _ => some r.inserted
      | _ => none
    removed := match i with
      | .removeKey key => r.map.lookup key
      | _ => none
    count := Multiset.card (r.step i).map.entries
    visited := (r.step i).map.entries.map (·.2)
    forEach := (r.step i).map.entries.map (·.2) }

/-- The counter has not gone around. -/
def HasKey (r : Registry T) (i : Input T) : Prop := i.isInsert = true → r.inserted < keys

end Registry

namespace Bag

def slot (b : Bag T) : List (Entry T) :=
  match b.key0, b.value0 with
  | some key, some value => [⟨key, value⟩]
  | _, _ => []

def contents (b : Bag T) : List (Entry T) :=
  b.slot ++ (b.pairs ++ (b.dictionary.map AList.entries).getD [])

end Bag

/-- The bag holds the entries of the map, each in one of its three places. -/
structure Represents (b : Bag T) (r : Registry T) : Prop where
  nextKey_eq : b.nextKey = r.inserted % keys
  slot_eq : b.key0.isSome = b.value0.isSome
  nodup : b.contents.NodupKeys
  map_eq : r.map = AList.toFinmap ⟨b.contents, nodup⟩
  fresh : ∀ e ∈ b.contents, e.1 < r.inserted
  fast : b.onlyFastPath = true → b.pairs = [] ∧ b.dictionary = none

variable {b : Bag T} {r : Registry T} {en : Enumeration T}

theorem represents_init : Represents ({} : Bag T) {} :=
  ⟨rfl, rfl, List.nodupKeys_nil, rfl, fun _ h => by simp [Bag.contents, Bag.slot] at h,
    fun _ => ⟨rfl, rfl⟩⟩

theorem Represents.entries_eq (h : Represents b r) : r.map.entries = (b.contents : Multiset _) := by
  rw [h.map_eq]
  rfl

/-- The slot's key and its value come and go together. -/
theorem Represents.slot_cases (h : Represents b r) :
    b.key0 = none ∧ b.value0 = none ∧ b.slot = [] ∨
      ∃ key value, b.key0 = some key ∧ b.value0 = some value ∧ b.slot = [⟨key, value⟩] := by
  have hslot := h.slot_eq
  cases hkey : b.key0 with
  | none =>
    have hvalue : b.value0 = none := Option.not_isSome_iff_eq_none.mp (by simp [← hslot, hkey])
    exact .inl ⟨rfl, hvalue, by simp [Bag.slot, hkey]⟩
  | some key =>
    obtain ⟨value, hvalue⟩ : ∃ value, b.value0 = some value := by
      rw [hkey, Option.isSome_some, eq_comm, Option.isSome_iff_exists] at hslot
      exact hslot
    exact .inr ⟨key, value, rfl, hvalue, by simp [Bag.slot, hkey, hvalue]⟩

theorem Represents.count_eq (h : Represents b r) :
    b.count = Multiset.card r.map.entries := by
  rw [h.entries_eq, Multiset.coe_card]
  obtain ⟨-, hvalue, hslot⟩ | ⟨key, value, -, hvalue, hslot⟩ := h.slot_cases <;>
    cases hd : b.dictionary <;>
    simp [Bag.count, Bag.contents, hvalue, hslot, hd] <;> omega

theorem Represents.visited_eq (h : Represents b r) :
    (b.dispatch en : Multiset T) = r.map.entries.map (·.2) := by
  rw [h.entries_eq, Multiset.map_coe, Multiset.coe_eq_coe]
  have hslot : b.value0.toList = b.slot.map (·.2) := by
    obtain ⟨-, hvalue, hslot⟩ | ⟨key, value, -, hvalue, hslot⟩ := h.slot_cases <;>
      simp [hvalue, hslot]
  cases hfast : b.onlyFastPath with
  | true =>
    obtain ⟨hpairs, hdict⟩ := h.fast hfast
    simp [Bag.dispatch, hfast, Bag.contents, hpairs, hdict, hslot]
  | false =>
    simp only [Bag.dispatch, hfast, Bag.contents, List.map_append, hslot, Bool.false_eq_true,
      if_false]
    refine List.Perm.append_left _ (List.Perm.append_left _ ?_)
    cases hdict : b.dictionary with
    | none => exact List.Perm.refl _
    | some d => exact (en.perm d).map _

/-- The optimised and the plain way to visit the elements agree. -/
theorem Bag.forEach_eq (en : Enumeration T) (b : Bag T) : b.forEach en = b.dispatch en := by
  cases hfast : b.onlyFastPath with
  | true => simp [Bag.forEach, Bag.dispatch, hfast]
  | false =>
    cases hdict : b.dictionary with
    | none => simp [Bag.forEach, Bag.dispatch, hfast, hdict]
    | some d =>
      by_cases hempty : 0 < d.entries.length
      · simp [Bag.forEach, Bag.dispatch, hfast, hdict, hempty]
      · have hnil : d.entries = [] := List.length_eq_zero_iff.mp (by omega)
        have hlist : en.list d = [] := by
          have hperm := en.perm d
          rw [hnil] at hperm
          exact List.perm_nil.mp hperm
        simp [Bag.forEach, Bag.dispatch, hfast, hdict, hnil, hlist]

/-- A new entry, wherever it is put. -/
theorem Represents.add (h : Represents b r) {b' : Bag T} (element : T)
    (hnext : b'.nextKey = (r.inserted + 1) % keys) (hslot : b'.key0.isSome = b'.value0.isSome)
    (hperm : b'.contents.Perm (⟨r.inserted, element⟩ :: b.contents))
    (hfast : b'.onlyFastPath = true → b'.pairs = [] ∧ b'.dictionary = none) :
    Represents b' ⟨r.map.insert r.inserted element, r.inserted + 1⟩ := by
  have hnew : r.inserted ∉ b.contents.keys := by
    intro hmem
    obtain ⟨e, he, hkey⟩ := List.mem_map.mp hmem
    have hlt := h.fresh e he
    omega
  have hnodup : (⟨r.inserted, element⟩ :: b.contents : List (Entry T)).NodupKeys :=
    List.nodupKeys_cons.mpr ⟨hnew, h.nodup⟩
  refine ⟨hnext, hslot, (List.perm_nodupKeys hperm).mpr hnodup, ?_, ?_, hfast⟩
  · rw [h.map_eq, Finmap.insert_toFinmap, AList.toFinmap_eq]
    rw [AList.entries_insert_of_notMem (by simpa using hnew)]
    exact hperm.symm
  · intro e he
    rcases List.mem_cons.mp (hperm.subset he) with rfl | hold
    · exact Nat.lt_succ_self _
    · exact Nat.lt_succ_of_lt (h.fresh e hold)

/-- The places to which an entry goes. -/
theorem Bag.insert_cases (b : Bag T) (element : T) :
    b.key0 = none ∧ b.insert element = ({ b with
        nextKey := (b.nextKey + 1) % keys
        key0 := some b.nextKey
        value0 := some element }, b.nextKey) ∨
      b.key0 ≠ none ∧ (∃ d, b.dictionary = some d ∧ b.insert element = ({ b with
        nextKey := (b.nextKey + 1) % keys
        onlyFastPath := false
        dictionary := some (d.insert b.nextKey element) }, b.nextKey)) ∨
      b.key0 ≠ none ∧ b.dictionary = none ∧ b.insert element = ({ b with
        nextKey := (b.nextKey + 1) % keys
        onlyFastPath := false
        pairs := b.pairs ++ [⟨b.nextKey, element⟩] }, b.nextKey) ∨
      b.key0 ≠ none ∧ b.dictionary = none ∧ b.insert element = ({ b with
        nextKey := (b.nextKey + 1) % keys
        onlyFastPath := false
        dictionary := some (AList.singleton b.nextKey element) }, b.nextKey) := by
  by_cases hempty : b.key0 = none
  · exact .inl ⟨hempty, by simp [Bag.insert, hempty]⟩
  · refine .inr ?_
    cases hdict : b.dictionary with
    | some d => exact .inl ⟨hempty, d, rfl, by simp [Bag.insert, hempty, hdict]⟩
    | none =>
      by_cases hroom : b.pairs.length < arrayDictionaryMaxSize
      · exact .inr (.inl ⟨hempty, rfl, by simp [Bag.insert, hempty, hdict, hroom]⟩)
      · exact .inr (.inr ⟨hempty, rfl, by simp [Bag.insert, hempty, hdict, hroom]⟩)

theorem Represents.insert (h : Represents b r) (element : T) (hkey : r.inserted < keys) :
    (b.insert element).2 = r.inserted ∧
      Represents (b.insert element).1 ⟨r.map.insert r.inserted element, r.inserted + 1⟩ := by
  have hnext : b.nextKey = r.inserted := by rw [h.nextKey_eq, Nat.mod_eq_of_lt hkey]
  obtain ⟨hempty, heq⟩ | ⟨-, d, hdict, heq⟩ | ⟨-, hdict, heq⟩ | ⟨-, hdict, heq⟩ :=
    b.insert_cases element
  · rw [heq]
    refine ⟨hnext, h.add element (by simp [hnext]) rfl ?_ h.fast⟩
    simp [Bag.contents, Bag.slot, hempty, hnext]
  · rw [heq]
    refine ⟨hnext, h.add element (by simp [hnext]) h.slot_eq ?_ (fun hf => by simp at hf)⟩
    have hnew : r.inserted ∉ d := by
      intro hmem
      obtain ⟨e, he, heq⟩ := List.mem_map.mp hmem
      have hlt := h.fresh e (by simp [Bag.contents, hdict, he])
      omega
    simp only [Bag.contents, hdict, hnext, Option.map_some, Option.getD_some,
      AList.entries_insert_of_notMem hnew]
    rw [← List.append_assoc, ← List.append_assoc]
    exact List.perm_middle
  · rw [heq]
    refine ⟨hnext, h.add element (by simp [hnext]) h.slot_eq ?_ (fun hf => by simp at hf)⟩
    simp only [Bag.contents, hdict, hnext, Option.map_none, Option.getD_none, List.append_nil]
    rw [← List.append_assoc]
    exact List.perm_append_singleton _ _
  · rw [heq]
    refine ⟨hnext, h.add element (by simp [hnext]) h.slot_eq ?_ (fun hf => by simp at hf)⟩
    simp only [Bag.contents, hdict, hnext, Option.map_some, Option.getD_some, Option.map_none,
      Option.getD_none, List.append_nil, AList.singleton_entries]
    rw [← List.append_assoc]
    exact List.perm_append_singleton _ _

/-- `b'` is the bag `b` without the entry of this key. -/
structure Without (b : Bag T) (key : ℕ) (b' : Bag T) : Prop where
  nextKey_eq : b'.nextKey = b.nextKey
  slot_eq : b'.key0.isSome = b'.value0.isSome
  contents_eq : b'.contents = b.contents.kerase key
  fast : b'.onlyFastPath = true → b'.pairs = [] ∧ b'.dictionary = none
  dictionary_eq : b'.dictionary.isSome = b.dictionary.isSome

/-- The entry is found in the place where it is, and taken from there. -/
theorem Represents.without (h : Represents b r) (key : ℕ) :
    (b.removeKey key).2 = b.contents.dlookup key ∧ Without b key (b.removeKey key).1 := by
  by_cases hkey : b.key0 = some key
  · obtain ⟨hnone, -, -⟩ | ⟨key', value, hsome, hvalue, hslot⟩ := h.slot_cases
    · simp [hkey] at hnone
    · have heq : key' = key := by simpa [hsome] using hkey
      subst heq
      have hremove : b.removeKey key' = ({ b with key0 := none, value0 := none }, some value) := by
        simp [Bag.removeKey, hkey, hvalue]
      rw [hremove]
      refine ⟨by simp [Bag.contents, hslot], ⟨rfl, rfl, ?_, h.fast, rfl⟩⟩
      simp only [Bag.contents, hslot, List.singleton_append, List.kerase_cons_eq]
      rfl
  · -- the slot holds another key
    have hslot : key ∉ b.slot.keys := by
      obtain ⟨-, -, hslot⟩ | ⟨key', value, hsome, -, hslot⟩ := h.slot_cases
      · simp [hslot]
      · have hne : key' ≠ key := by
          rintro rfl
          exact hkey hsome
        simpa [hslot] using Ne.symm hne
    have hskip : b.slot.dlookup key = none := List.dlookup_eq_none.mpr hslot
    cases hdict : b.dictionary.bind (AList.lookup key) with
    | some value =>
      obtain ⟨d, hd, hvalue⟩ := Option.bind_eq_some_iff.mp hdict
      have hremove : b.removeKey key =
          ({ b with dictionary := some (d.erase key) }, some value) := by
        simp [Bag.removeKey, hkey, hd, hvalue]
      have hpairs : key ∉ b.pairs.keys := by
        intro hmem
        have hin : key ∈ d.entries.keys :=
          List.dlookup_isSome.mp (Option.isSome_iff_exists.mpr ⟨value, hvalue⟩)
        have hnodup := h.nodup
        rw [List.NodupKeys, Bag.contents, hd, List.keys_append, List.keys_append] at hnodup
        exact (List.nodup_append.mp (List.nodup_append.mp hnodup).2.1).2.2 key hmem key hin rfl
      rw [hremove]
      refine ⟨?_, ⟨rfl, h.slot_eq, ?_, fun hf => ?_, by simp [hd]⟩⟩
      · have hfound : d.entries.dlookup key = some value := hvalue
        simp [Bag.contents, List.dlookup_append, hskip, List.dlookup_eq_none.mpr hpairs, hd, hfound]
      · simp only [Bag.contents, hd, Option.map_some, Option.getD_some]
        rw [List.kerase_append_right hslot, List.kerase_append_right hpairs]
        rfl
      · simp [h.fast hf] at hd
    | none =>
      have hnone : key ∉ ((b.dictionary.map AList.entries).getD []).keys := by
        cases hd : b.dictionary with
        | none => simp
        | some d =>
          rw [hd] at hdict
          exact List.dlookup_eq_none.mp hdict
      have hmissing := List.dlookup_eq_none.mpr hnone
      cases hfound : b.pairs.dlookup key with
      | some value =>
        have hremove : b.removeKey key = ({ b with pairs := b.pairs.kerase key }, some value) := by
          simp [Bag.removeKey, hkey, hdict, hfound]
        have hin : key ∈ b.pairs.keys :=
          List.dlookup_isSome.mp (Option.isSome_iff_exists.mpr ⟨value, hfound⟩)
        rw [hremove]
        refine ⟨?_, ⟨rfl, h.slot_eq, ?_, fun hf => ?_, rfl⟩⟩
        · simp [Bag.contents, List.dlookup_append, hskip, hfound]
        · simp only [Bag.contents]
          rw [List.kerase_append_right hslot, List.kerase_append_left hin]
          rfl
        · simp [h.fast hf] at hin
      | none =>
        have hremove : b.removeKey key = (b, none) := by
          simp [Bag.removeKey, hkey, hdict, hfound]
        have hpairs := List.dlookup_eq_none.mp hfound
        rw [hremove]
        refine ⟨?_, ⟨rfl, h.slot_eq, ?_, h.fast, rfl⟩⟩
        · simp [Bag.contents, List.dlookup_append, hskip, hfound, hmissing]
        · simp only [Bag.contents]
          rw [List.kerase_append_right hslot, List.kerase_append_right hpairs,
            List.kerase_of_notMem_keys hnone]

theorem Represents.removeKey (h : Represents b r) (key : ℕ) :
    (b.removeKey key).2 = r.map.lookup key ∧
      Represents (b.removeKey key).1 ⟨r.map.erase key, r.inserted⟩ := by
  obtain ⟨hvalue, hwithout⟩ := h.without key
  have hlookup : r.map.lookup key = b.contents.dlookup key := by
    rw [h.map_eq, Finmap.lookup_toFinmap]
    rfl
  have hnodup : (b.removeKey key).1.contents.NodupKeys :=
    hwithout.contents_eq ▸ h.nodup.kerase key
  refine ⟨hvalue.trans hlookup.symm, hwithout.nextKey_eq.trans h.nextKey_eq, hwithout.slot_eq,
    hnodup, ?_, ?_, hwithout.fast⟩
  · rw [h.map_eq, Finmap.erase_toFinmap, AList.toFinmap_eq]
    change (b.contents.kerase key).Perm (b.removeKey key).1.contents
    rw [hwithout.contents_eq]
  · intro e he
    rw [hwithout.contents_eq] at he
    exact h.fresh e ((List.kerase_sublist key _).subset he)

theorem Represents.removeAll (h : Represents b r) :
    Represents b.removeAll ⟨∅, r.inserted⟩ := by
  have hnil : b.removeAll.contents = [] := by
    cases hd : b.dictionary <;> simp [Bag.removeAll, Bag.contents, Bag.slot, hd]
  refine ⟨h.nextKey_eq, rfl, by simp [hnil], ?_, by simp [hnil], ?_⟩
  · refine Finmap.ext ?_
    change (0 : Multiset (Entry T)) = Multiset.ofList b.removeAll.contents
    rw [hnil]
    rfl
  · intro hfast
    simp [Bag.removeAll, h.fast hfast]

theorem Represents.step (h : Represents b r) (i : Input T) (hq : r.HasKey i) :
    Represents (b.step i) (r.step i) := by
  cases i with
  | insert element => exact (h.insert element (hq rfl)).2
  | removeKey key => exact (h.removeKey key).2
  | removeAll => exact h.removeAll

theorem Represents.emit_eq (h : Represents b r) (i : Input T) (hq : r.HasKey i) :
    b.emit en i = r.emit i := by
  have hnext := h.step i hq
  simp only [Bag.emit, Registry.emit, Bag.forEach_eq, hnext.count_eq, hnext.visited_eq]
  cases i with
  | insert element => simp [(h.insert element (hq rfl)).1]
  | removeKey key => simp [(h.removeKey key).1]
  | removeAll => rfl

theorem hasKey_iff (r : Registry T) (inputs : List (Input T)) (hr : r.inserted ≤ keys) :
    EveryStep Registry.step Registry.HasKey r inputs ↔
      r.inserted + inputs.countP Input.isInsert ≤ keys := by
  induction inputs generalizing r with
  | nil => simpa [EveryStep] using hr
  | cons i rest ih =>
    rw [EveryStep, List.countP_cons]
    by_cases hi : i.isInsert = true
    · have hstep : (r.step i).inserted = r.inserted + 1 := by
        cases i <;> simp_all [Registry.step, Input.isInsert]
      rw [if_pos hi]
      by_cases hlt : r.inserted < keys
      · rw [ih (r.step i) (by omega), hstep]
        simp only [Registry.HasKey, hi, hlt, forall_true_left, true_and]
        omega
      · refine iff_of_false (fun h => hlt (h.1 hi)) ?_
        omega
    · have hstep : (r.step i).inserted = r.inserted := by
        cases i <;> simp_all [Registry.step, Input.isInsert]
      rw [ih (r.step i) (by omega), hstep, if_neg hi]
      simp [Registry.HasKey, hi]

/-- Whatever is inserted and removed, and however the dictionary lists its
entries, the bag returns the keys and elements, has the count and visits the
elements of the finite map, exactly as long as there are at most `keys`
insertions. -/
theorem bag_refines_iff (en : Enumeration T) (inputs : List (Input T)) :
    trace Bag.step (Bag.emit en) {} inputs = trace Registry.step Registry.emit {} inputs ↔
      inputs.countP Input.isInsert ≤ keys := by
  have hcount := hasKey_iff ({} : Registry T) inputs (Nat.zero_le _)
  rw [Nat.zero_add] at hcount
  rw [← hcount]
  refine trace_eq_iff_until (R := Represents) ?_ ?_ _ _ _ represents_init
  · intro b r i h hq
    exact ⟨h.emit_eq i hq, h.step i hq⟩
  · intro b r i h hq heq
    simp only [Registry.HasKey, not_forall, Nat.not_lt] at hq
    obtain ⟨hi, hle⟩ := hq
    cases i with
    | insert element =>
      have hkey := congrArg Answer.key heq
      have hsame : (b.insert element).2 = b.nextKey := by
        obtain ⟨-, hb⟩ | ⟨-, d, -, hb⟩ | ⟨-, -, hb⟩ | ⟨-, -, hb⟩ := b.insert_cases element <;>
          rw [hb]
      simp only [Bag.emit, Registry.emit, hsame, h.nextKey_eq, Option.some.injEq] at hkey
      have hlt : r.inserted % keys < keys := Nat.mod_lt _ (Nat.two_pow_pos 64)
      omega
    | removeKey key => simp [Input.isInsert] at hi
    | removeAll => simp [Input.isInsert] at hi

/-- The entries are kept in the order in which they were inserted. -/
def InOrder (b : Bag T) : Prop := b.contents.keys.Pairwise (· < ·)

/-- A bag without a dictionary visits its entries in the order in which it keeps them. -/
theorem Represents.dispatch_eq (h : Represents b r) (hdict : b.dictionary = none) :
    b.dispatch en = b.contents.map (·.2) := by
  have hslot : b.value0.toList = b.slot.map (·.2) := by
    obtain ⟨-, hvalue, hslot⟩ | ⟨key, value, -, hvalue, hslot⟩ := h.slot_cases <;>
      simp [hvalue, hslot]
  cases hfast : b.onlyFastPath with
  | true => simp [Bag.dispatch, hfast, Bag.contents, h.fast hfast, hslot]
  | false => simp [Bag.dispatch, hfast, Bag.contents, hdict, hslot]

/-- No element goes into the empty slot while others wait behind it. -/
def SlotFirst (b : Bag T) (i : Input T) : Prop :=
  i.isInsert = true → b.dictionary = none → b.key0 = none → b.pairs = []

theorem inOrder_step (h : Represents b r) (hb : b.dictionary = none → InOrder b) (i : Input T)
    (hkey : r.HasKey i) (hq : SlotFirst b i) (hdict : (b.step i).dictionary = none) :
    InOrder (b.step i) := by
  cases i with
  | insert element =>
    have hnext : b.nextKey = r.inserted := by rw [h.nextKey_eq, Nat.mod_eq_of_lt (hkey rfl)]
    obtain ⟨hempty, heq⟩ | ⟨-, d, hd, heq⟩ | ⟨-, hd, heq⟩ | ⟨-, hd, heq⟩ := b.insert_cases element
    · rw [Bag.step, heq] at hdict ⊢
      have hd : b.dictionary = none := hdict
      simp [InOrder, Bag.contents, Bag.slot, hq rfl hd hempty, hd]
    · simp [Bag.step, heq] at hdict
    · have hlast : (b.step (.insert element)).contents.keys = b.contents.keys ++ [r.inserted] := by
        simp only [Bag.step, heq, Bag.contents, hd, hnext, Option.map_none, Option.getD_none,
          List.append_nil, List.keys_append, List.append_assoc]
        rfl
      rw [InOrder, hlast, List.pairwise_append]
      refine ⟨hb hd, by simp, ?_⟩
      intro key hmem last hlast
      obtain ⟨e, he, rfl⟩ := List.mem_map.mp hmem
      rw [List.mem_singleton.mp hlast]
      exact h.fresh e he
    · simp [Bag.step, heq] at hdict
  | removeKey key =>
    obtain ⟨-, hwithout⟩ := h.without key
    have hold : b.dictionary = none := by
      have hsame := hwithout.dictionary_eq
      rw [Bag.step] at hdict
      rw [hdict] at hsame
      exact Option.not_isSome_iff_eq_none.mp (by simp [← hsame])
    rw [InOrder, Bag.step, hwithout.contents_eq]
    exact (hb hold).sublist ((List.kerase_sublist key _).map _)
  | removeAll =>
    have hold : b.dictionary = none := by simpa [Bag.step, Bag.removeAll] using hdict
    simp [InOrder, Bag.step, Bag.removeAll, Bag.contents, Bag.slot, hold]

/-- An element that jumps the queue of those that wait behind the empty slot. -/
theorem not_inOrder_step (h : Represents b r) (i : Input T) (hkey : r.HasKey i)
    (hq : ¬ SlotFirst b i) : (b.step i).dictionary = none ∧ ¬ InOrder (b.step i) := by
  simp only [SlotFirst, not_forall] at hq
  obtain ⟨hi, hdict, hempty, hpairs⟩ := hq
  cases i with
  | insert element =>
    have hnext : b.nextKey = r.inserted := by rw [h.nextKey_eq, Nat.mod_eq_of_lt (hkey rfl)]
    obtain ⟨-, heq⟩ | ⟨hfull, -⟩ | ⟨hfull, -⟩ | ⟨hfull, -⟩ := b.insert_cases element
    · rw [Bag.step, heq]
      refine ⟨hdict, fun horder => ?_⟩
      obtain ⟨e, rest, hcons⟩ := List.exists_cons_of_ne_nil hpairs
      have hlt := h.fresh e (by simp [Bag.contents, hcons])
      simp only [InOrder, Bag.contents, Bag.slot, hdict, hcons, hnext, Option.map_none,
        Option.getD_none, List.append_nil, List.singleton_append, List.keys_cons,
        List.pairwise_cons, List.mem_cons, forall_eq_or_imp] at horder
      have hgt := horder.1.1
      omega
    all_goals exact absurd hempty hfull
  | removeKey key => simp [Input.isInsert] at hi
  | removeAll => simp [Input.isInsert] at hi

/-- Without a dictionary, the elements are visited in the order of their insertion. -/
def VisitsInOrder (b : Bag T) : Prop :=
  b.dictionary = none → InOrder b ∧ ∀ en, b.dispatch en = b.contents.map (·.2)

theorem visitsInOrder_iff (h : Represents b r) (inputs : List (Input T)) (hb : VisitsInOrder b)
    (hkeys : EveryStep Registry.step Registry.HasKey r inputs) :
    EveryState Bag.step VisitsInOrder b inputs ↔ EveryStep Bag.step SlotFirst b inputs := by
  induction inputs generalizing b r with
  | nil => simpa [EveryState, EveryStep] using hb
  | cons i rest ih =>
    obtain ⟨hkey, hkeys⟩ := hkeys
    have hnext := h.step i hkey
    simp only [EveryState, EveryStep, hb, true_and]
    by_cases hq : SlotFirst b i
    · have hb' : VisitsInOrder (b.step i) := fun hdict =>
        ⟨inOrder_step h (fun hd => (hb hd).1) i hkey hq hdict, fun _ => hnext.dispatch_eq hdict⟩
      simp only [hq, true_and]
      exact ih hnext hb' hkeys
    · obtain ⟨hdict, hnot⟩ := not_inOrder_step h i hkey hq
      refine iff_of_false (fun hall => ?_) (fun hall => hq hall.1)
      cases rest with
      | nil => exact hnot (hall hdict).1
      | cons j later => exact hnot (hall.1 hdict).1

/-- As long as there is no dictionary, observers are called in the order in
which they came, exactly until one comes into the slot that another has left
while others are still there. -/
theorem insertion_order_iff (inputs : List (Input T))
    (hcount : inputs.countP Input.isInsert ≤ keys) :
    EveryState Bag.step VisitsInOrder {} inputs ↔ EveryStep Bag.step SlotFirst {} inputs := by
  refine visitsInOrder_iff represents_init inputs ?_ ?_
  · exact fun hdict => ⟨List.Pairwise.nil, fun _ => represents_init.dispatch_eq hdict⟩
  · exact (hasKey_iff {} inputs (Nat.zero_le _)).mpr (by simpa using hcount)

/-- Three observers; the first leaves and another one comes. -/
theorem insertion_order_lost :
    ¬ EveryState Bag.step VisitsInOrder ({} : Bag Bool)
      [.insert true, .insert false, .removeKey 0, .insert true] := by
  rw [insertion_order_iff _ (by decide)]
  intro h
  have hpairs := h.2.2.2.1 rfl rfl rfl
  cases hpairs

end Mber.Bags
