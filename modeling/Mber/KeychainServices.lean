import Mber.Keychain
import Mathlib.Logic.Function.Basic

/-!
FIRAuthKeychainServices over the keychain. A key is stored in its current form,
under a prefixed account and the name of the service. An item of an older
form, under the plain key, is moved when it is read and deleted when the key
is. Whether that deletion succeeds is not looked at: the key is marked, in
memory, and a marked key's old item is not read again until the next launch.
A key that begins with the prefix is at once the account of another key, and
the two disturb each other; what is proved here is about keys that do not.
-/
namespace Mber.KeychainServices

open Keychain

variable {δ : Type*}

def kAccountPrefix : String := "firebase_auth_1_"

/-- The services refuse an empty key. -/
structure Key where
  text : String
  nonempty : text ≠ ""

theorem Key.text_inj {key key' : Key} : key.text = key'.text ↔ key = key' := by
  cases key
  cases key'
  simp

instance : DecidableEq Key := fun _ _ => decidable_of_iff _ Key.text_inj

/-- A key that is not the account of another one. -/
structure PlainKey extends Key where
  plain : kAccountPrefix.toList.isPrefixOf text.toList = false

instance : Coe PlainKey Key := ⟨PlainKey.toKey⟩

@[simp] theorem PlainKey.toKey_inj {key key' : PlainKey} : key.toKey = key'.toKey ↔ key = key' := by
  cases key
  cases key'
  simp

theorem PlainKey.eq_of_text {key key' : PlainKey} (h : key.text = key'.text) : key = key' :=
  PlainKey.toKey_inj.mp (Key.text_inj.mp h)

instance : DecidableEq PlainKey := fun _ _ => decidable_of_iff _ PlainKey.toKey_inj

structure FIRAuthKeychainServices (δ : Type*) where
  service : String
  items : List (Item δ)
  legacyEntryDeletedForKey : Key → Bool := fun _ => false

namespace FIRAuthKeychainServices

def genericPasswordQueryWithKey (s : FIRAuthKeychainServices δ) (key : Key) : Query :=
  ⟨kAccountPrefix ++ key.text, some s.service⟩

def legacyGenericPasswordQueryWithKey (key : Key) : Query := ⟨key.text, none⟩

def mark (s : FIRAuthKeychainServices δ) (key : Key) : FIRAuthKeychainServices δ :=
  { s with legacyEntryDeletedForKey := Function.update s.legacyEntryDeletedForKey key true }

/-- The status of the deletion is dropped. -/
def deleteLegacyItemWithKey (s : FIRAuthKeychainServices δ) (faults : Faults) (key : Key) :
    FIRAuthKeychainServices δ :=
  if s.legacyEntryDeletedForKey key then s
  else
    let r := secItemDelete faults.legacyDelete s.items (legacyGenericPasswordQueryWithKey key)
    { s with items := r.2 }.mark key

def setData (s : FIRAuthKeychainServices δ) (faults : Faults) (data : δ) (key : Key) :
    FIRAuthKeychainServices δ × Except KeychainError Unit :=
  let r := setItemWithQuery faults s.items (s.genericPasswordQueryWithKey key) data
  ({ s with items := r.1 }, r.2)

def removeDataForKey (s : FIRAuthKeychainServices δ) (faults : Faults) (key : Key) :
    FIRAuthKeychainServices δ × Except KeychainError Unit :=
  let r := deleteItemWithQuery faults s.items (s.genericPasswordQueryWithKey key)
  match r.2 with
  | .error e => ({ s with items := r.1 }, .error e)
  | .ok () => ({ s with items := r.1 }.deleteLegacyItemWithKey faults key, .ok ())

def dataForKey (s : FIRAuthKeychainServices δ) (faults : Faults) (key : Key) :
    FIRAuthKeychainServices δ × Except KeychainError (Option δ) :=
  match itemWithQuery faults.copy s.items (s.genericPasswordQueryWithKey key) with
  | .error e => (s, .error e)
  | .ok (some data) => (s, .ok (some data))
  | .ok none =>
    if s.legacyEntryDeletedForKey key then (s, .ok none)
    else match itemWithQuery faults.legacyCopy s.items (legacyGenericPasswordQueryWithKey key) with
      | .error e => (s, .error e)
      | .ok none => (s.mark key, .ok none)
      | .ok (some data) =>
        let r := s.setData faults data key
        match r.2 with
        | .error e => (r.1, .error e)
        | .ok () => (r.1.deleteLegacyItemWithKey faults key, .ok (some data))

/-- The app is started again: what was only in memory is gone. -/
def launch (s : FIRAuthKeychainServices δ) : FIRAuthKeychainServices δ :=
  { s with legacyEntryDeletedForKey := fun _ => false }

end FIRAuthKeychainServices

variable {data : δ}

theorem account_injective {key key' : PlainKey} (h : key ≠ key') :
    kAccountPrefix ++ key.text ≠ kAccountPrefix ++ key'.text := by
  intro heq
  have htext : key.text = key'.text := by
    have hlists := congrArg String.toList heq
    simp only [String.toList_append, List.append_cancel_left_eq] at hlists
    exact String.toList_inj.mp hlists
  exact h (PlainKey.eq_of_text htext)

/-- No current account is the plain form of a key. -/
theorem account_not_plain (key key' : PlainKey) : kAccountPrefix ++ key.text ≠ key'.text := by
  intro heq
  have hplain := key'.plain
  rw [← heq, String.toList_append] at hplain
  have hinitial : kAccountPrefix.toList.isPrefixOf (kAccountPrefix.toList ++ key.text.toList) =
      true :=
    List.isPrefixOf_iff_prefix.mpr (List.prefix_append _ _)
  simp [hinitial] at hplain

namespace FIRAuthKeychainServices

variable {s : FIRAuthKeychainServices δ} {key key' : PlainKey}

/-- What the keychain has under the key, in the current form or, unless it is
known to be gone, in the old one. -/
def view (s : FIRAuthKeychainServices δ) (key : PlainKey) : Option δ :=
  (pick s.items (s.genericPasswordQueryWithKey key)).or
    (if s.legacyEntryDeletedForKey key then none
      else pick s.items (legacyGenericPasswordQueryWithKey key))

/-- An old item that is only hidden by the mark on its key. -/
def Exposed (s : FIRAuthKeychainServices δ) (key : PlainKey) : Prop :=
  s.legacyEntryDeletedForKey key = true ∧
    pick s.items (s.genericPasswordQueryWithKey key) = none ∧
    pick s.items (legacyGenericPasswordQueryWithKey key) ≠ none

theorem view_of_current {data : δ}
    (h : pick s.items (s.genericPasswordQueryWithKey key) = some data) :
    s.view key = some data := by
  simp [view, h]

theorem view_setItem {items' : List (Item δ)}
    (hsame : SameElsewhere (kAccountPrefix ++ key.text) s.items items') (h : key ≠ key') :
    ({ s with items := items' } : FIRAuthKeychainServices δ).view key' = s.view key' := by
  have hcurrent : pick items' (s.genericPasswordQueryWithKey key') =
      pick s.items (s.genericPasswordQueryWithKey key') :=
    pick_congr (hsame (s.genericPasswordQueryWithKey key') (account_injective h))
  have hlegacy : pick items' (legacyGenericPasswordQueryWithKey key') =
      pick s.items (legacyGenericPasswordQueryWithKey key') :=
    pick_congr (hsame (legacyGenericPasswordQueryWithKey key') (account_not_plain key key'))
  simp only [genericPasswordQueryWithKey] at hcurrent
  simp only [view, genericPasswordQueryWithKey, hcurrent, hlegacy]

theorem setData_spec (s : FIRAuthKeychainServices δ) (faults : Faults) (data : δ) (key : PlainKey) :
    (faults ≠ {} ∧ ∃ e, s.setData faults data key = (s, .error e)) ∨
      ∃ s', s.setData faults data key = (s', .ok ()) ∧
        pick s'.items (s'.genericPasswordQueryWithKey key) = some data ∧
        s'.view = Function.update s.view key (some data) := by
  obtain ⟨hfault, e, he⟩ | ⟨items', hok, hpick, hsame⟩ :=
    setItemWithQuery_spec faults s.items (kAccountPrefix ++ key.text) s.service data
  · exact .inl ⟨hfault, e, by simp [setData, genericPasswordQueryWithKey, he]⟩
  · refine .inr ⟨{ s with items := items' }, ?_, hpick, ?_⟩
    · simp [setData, genericPasswordQueryWithKey, hok]
    · funext other
      by_cases hother : key = other
      · subst hother
        rw [Function.update_self]
        exact view_of_current hpick
      · rw [Function.update_of_ne (Ne.symm hother)]
        exact view_setItem hsame hother

theorem setData_ok_iff (s : FIRAuthKeychainServices δ) (faults : Faults) (data : δ) (key : PlainKey) :
    (s.setData faults data key).2 = .ok () ↔
      Writable faults s.items (s.genericPasswordQueryWithKey key) :=
  setItemWithQuery_ok_iff faults s.items (kAccountPrefix ++ key.text) s.service data

theorem legacy_account_injective (h : key ≠ key') :
    (legacyGenericPasswordQueryWithKey key).account ≠
      (legacyGenericPasswordQueryWithKey key').account :=
  fun htext => h (PlainKey.eq_of_text htext)

theorem secItemDelete_sameElsewhere (fault : Option Int) (items : List (Item δ)) (q : Query) :
    SameElsewhere q.account items (secItemDelete fault items q).2 :=
  fun _ h => secItemDelete_filter h fault

/-- The current items are as before. -/
theorem deleteLegacyItemWithKey_current (s : FIRAuthKeychainServices δ) (faults : Faults)
    (key other : PlainKey) :
    pick (s.deleteLegacyItemWithKey faults key).items
        ((s.deleteLegacyItemWithKey faults key).genericPasswordQueryWithKey other) =
      pick s.items (s.genericPasswordQueryWithKey other) := by
  unfold deleteLegacyItemWithKey
  split_ifs
  · rfl
  · have hsame := secItemDelete_sameElsewhere faults.legacyDelete s.items
      (legacyGenericPasswordQueryWithKey key)
    exact pick_congr
      (hsame (s.genericPasswordQueryWithKey other) (account_not_plain other key).symm)

theorem deleteLegacyItemWithKey_legacy (s : FIRAuthKeychainServices δ) (faults : Faults)
    (key other : PlainKey) (h : key ≠ other) :
    pick (s.deleteLegacyItemWithKey faults key).items (legacyGenericPasswordQueryWithKey other) =
      pick s.items (legacyGenericPasswordQueryWithKey other) := by
  unfold deleteLegacyItemWithKey
  split_ifs
  · rfl
  · have hsame := secItemDelete_sameElsewhere faults.legacyDelete s.items
      (legacyGenericPasswordQueryWithKey key)
    exact pick_congr (hsame (legacyGenericPasswordQueryWithKey other) (legacy_account_injective h))

/-- The old item of the key stays if it is hidden already or the keychain fails. -/
theorem deleteLegacyItemWithKey_self (s : FIRAuthKeychainServices δ) (faults : Faults)
    (key : PlainKey) :
    pick (s.deleteLegacyItemWithKey faults key).items (legacyGenericPasswordQueryWithKey key) =
      if s.legacyEntryDeletedForKey key = true ∨ faults.legacyDelete ≠ none then
        pick s.items (legacyGenericPasswordQueryWithKey key)
      else none := by
  unfold deleteLegacyItemWithKey
  by_cases hmarked : s.legacyEntryDeletedForKey key = true
  · simp [hmarked]
  · cases hfault : faults.legacyDelete with
    | some code => simp [hmarked, secItemDelete, mark]
    | none => simp [hmarked, mark, pick_eq_none (secItemDelete_none s.items _)]

theorem deleteLegacyItemWithKey_marks (s : FIRAuthKeychainServices δ) (faults : Faults)
    (key : PlainKey) :
    (s.deleteLegacyItemWithKey faults key).legacyEntryDeletedForKey =
      Function.update s.legacyEntryDeletedForKey key true := by
  unfold deleteLegacyItemWithKey
  split_ifs with hmarked
  · rw [← hmarked, Function.update_eq_self]
  · rfl

/-- The old item is deleted or hidden; the other keys are as before. -/
theorem deleteLegacyItemWithKey_spec (s : FIRAuthKeychainServices δ) (faults : Faults)
    (key : PlainKey) :
    (s.deleteLegacyItemWithKey faults key).view =
      Function.update s.view key (pick s.items (s.genericPasswordQueryWithKey key)) := by
  funext other
  rw [view, deleteLegacyItemWithKey_current, deleteLegacyItemWithKey_marks]
  by_cases hother : other = key
  · subst hother
    simp
  · rw [deleteLegacyItemWithKey_legacy s faults key other (Ne.symm hother)]
    simp [hother, view]

theorem removeDataForKey_spec (s : FIRAuthKeychainServices δ) (faults : Faults) (key : PlainKey) :
    (faults.delete ≠ none ∧ ∃ e, s.removeDataForKey faults key = (s, .error e)) ∨
      ∃ s', faults.delete = none ∧ s.removeDataForKey faults key = (s', .ok ()) ∧
        s'.view = Function.update s.view key none := by
  obtain ⟨hfault, e, he⟩ | ⟨items', hfault, hok, hpick, hsame⟩ :=
    deleteItemWithQuery_spec faults s.items (s.genericPasswordQueryWithKey key)
  · exact .inl ⟨hfault, e, by simp [removeDataForKey, he]⟩
  · refine .inr ⟨({ s with items := items' }).deleteLegacyItemWithKey faults key, hfault, ?_, ?_⟩
    · simp [removeDataForKey, hok]
    · rw [deleteLegacyItemWithKey_spec]
      have hnone : pick items' (({ s with items := items' } : FIRAuthKeychainServices δ)
          |>.genericPasswordQueryWithKey key) = none := hpick
      rw [hnone]
      funext other
      by_cases hother : other = key
      · simp [hother]
      · simp only [Function.update_of_ne hother]
        exact view_setItem hsame (Ne.symm hother)

/-- Without an item in either form the mark changes nothing. -/
theorem view_mark (h : s.view key = none) : (s.mark key).view = s.view := by
  funext other
  by_cases hother : other = key
  · subst hother
    rw [h]
    simp only [view, Option.or_eq_none_iff] at h
    simp [view, mark, genericPasswordQueryWithKey] at h ⊢
    exact h.1
  · simp [view, mark, genericPasswordQueryWithKey, hother]

/-- A read finds the current item, or moves an old one that is not hidden. -/
theorem dataForKey_cases (s : FIRAuthKeychainServices δ) (faults : Faults) (key : PlainKey) :
    (faults ≠ {} ∧ ∃ e, s.dataForKey faults key = (s, .error e)) ∨
      (∃ data, pick s.items (s.genericPasswordQueryWithKey key) = some data ∧
        s.dataForKey faults key = (s, .ok (some data))) ∨
      (pick s.items (s.genericPasswordQueryWithKey key) = none ∧
        s.legacyEntryDeletedForKey key = true ∧ s.dataForKey faults key = (s, .ok none)) ∨
      (pick s.items (s.genericPasswordQueryWithKey key) = none ∧
        pick s.items (legacyGenericPasswordQueryWithKey key) = none ∧
        s.dataForKey faults key = (s.mark key, .ok none)) ∨
      ∃ data moved, pick s.items (s.genericPasswordQueryWithKey key) = none ∧
        s.legacyEntryDeletedForKey key = false ∧
        pick s.items (legacyGenericPasswordQueryWithKey key) = some data ∧
        s.setData faults data key = (moved, .ok ()) ∧
        s.dataForKey faults key = (moved.deleteLegacyItemWithKey faults key, .ok (some data)) := by
  obtain ⟨-, hcopy⟩ | ⟨hfault, e, hcopy⟩ :=
    itemWithQuery_spec faults.copy s.items (s.genericPasswordQueryWithKey key)
  swap
  · refine .inl ⟨?_, e, by simp [dataForKey, hcopy]⟩
    rintro rfl
    exact hfault rfl
  cases hpick : pick s.items (s.genericPasswordQueryWithKey key) with
  | some data => exact .inr (.inl ⟨data, rfl, by simp [dataForKey, hcopy, hpick]⟩)
  | none =>
    by_cases hmarked : s.legacyEntryDeletedForKey key = true
    · exact .inr (.inr (.inl ⟨rfl, hmarked, by simp [dataForKey, hcopy, hpick, hmarked]⟩))
    obtain ⟨-, hlegacy⟩ | ⟨hfault, e, hlegacy⟩ :=
      itemWithQuery_spec faults.legacyCopy s.items (legacyGenericPasswordQueryWithKey key)
    swap
    · refine .inl ⟨?_, e, by simp [dataForKey, hcopy, hpick, hmarked, hlegacy]⟩
      rintro rfl
      exact hfault rfl
    cases hold : pick s.items (legacyGenericPasswordQueryWithKey key) with
    | none =>
      refine .inr (.inr (.inr (.inl ⟨rfl, rfl, ?_⟩)))
      simp [dataForKey, hcopy, hpick, hmarked, hlegacy, hold]
    | some data =>
      obtain ⟨hfaults, e, hset⟩ | ⟨moved, hset, -⟩ := s.setData_spec faults data key
      · refine .inl ⟨hfaults, e, ?_⟩
        simp [dataForKey, hcopy, hpick, hmarked, hlegacy, hold, hset]
      · refine .inr (.inr (.inr (.inr ⟨data, moved, rfl, by simpa using hmarked, rfl, hset, ?_⟩)))
        simp [dataForKey, hcopy, hpick, hmarked, hlegacy, hold, hset]

theorem setData_ok {faults : Faults} {data : δ} {moved : FIRAuthKeychainServices δ}
    (hset : s.setData faults data key = (moved, .ok ())) :
    pick moved.items (moved.genericPasswordQueryWithKey key) = some data ∧
      moved.view = Function.update s.view key (some data) := by
  obtain ⟨-, e, herror⟩ | ⟨s', hok, hstored, hview⟩ := s.setData_spec faults data key
  · simp [herror] at hset
  · obtain rfl : s' = moved := by simpa [hok] using hset
    exact ⟨hstored, hview⟩

/-- A read changes nothing that is found, and if it succeeds it returns what is found. -/
theorem dataForKey_spec (s : FIRAuthKeychainServices δ) (faults : Faults) (key : PlainKey) :
    (s.dataForKey faults key).1.view = s.view ∧
      ((s.dataForKey faults key).2 = .ok (s.view key) ∨
        (faults ≠ {} ∧ ∃ e, (s.dataForKey faults key).2 = .error e)) := by
  obtain ⟨hfaults, e, hread⟩ | ⟨data, hcurrent, hread⟩ | ⟨hcurrent, hmarked, hread⟩ |
      ⟨hcurrent, hlegacy, hread⟩ | ⟨data, moved, hcurrent, hmarked, hlegacy, hset, hread⟩ :=
    s.dataForKey_cases faults key
  · simp [hread, hfaults]
  · simp [hread, view_of_current hcurrent]
  · simp [hread, view, hcurrent, hmarked]
  · have hnone : s.view key = none := by simp [view, hcurrent, hlegacy]
    simp [hread, view_mark hnone, hnone]
  · have hfound : s.view key = some data := by simp [view, hcurrent, hmarked, hlegacy]
    obtain ⟨hstored, hmoved⟩ := setData_ok hset
    have hkept : (moved.deleteLegacyItemWithKey faults key).view = s.view := by
      rw [deleteLegacyItemWithKey_spec, hstored, hmoved, Function.update_idem, ← hfound,
        Function.update_eq_self]
    simp [hread, hkept, hfound]

theorem dataForKey_faultless (s : FIRAuthKeychainServices δ) (key : PlainKey) :
    (s.dataForKey {} key).2 = .ok (s.view key) := by
  obtain hok | ⟨hfaults, -⟩ := (s.dataForKey_spec {} key).2
  · exact hok
  · exact absurd rfl hfaults

/-- What the keychain has under the key, whatever is marked. -/
def stored (s : FIRAuthKeychainServices δ) (key : PlainKey) : Option δ :=
  (pick s.items (s.genericPasswordQueryWithKey key)).or
    (pick s.items (legacyGenericPasswordQueryWithKey key))

theorem stored_of_current {data : δ}
    (h : pick s.items (s.genericPasswordQueryWithKey key) = some data) :
    s.stored key = some data := by
  simp [stored, h]

theorem stored_eq_view_iff (s : FIRAuthKeychainServices δ) (key : PlainKey) :
    s.stored key = s.view key ↔ ¬ s.Exposed key := by
  by_cases hmarked : s.legacyEntryDeletedForKey key = true
  · cases hcurrent : pick s.items (s.genericPasswordQueryWithKey key) with
    | some data => simp [stored, view, Exposed, hcurrent]
    | none => simp [stored, view, Exposed, hcurrent, hmarked]
  · simp [stored, view, Exposed, hmarked]

theorem launch_view_iff (s : FIRAuthKeychainServices δ) :
    s.launch.view = s.view ↔ ∀ key, ¬ s.Exposed key := by
  constructor
  · intro hview key
    exact (s.stored_eq_view_iff key).mp (congrFun hview key)
  · intro hnone
    funext key
    exact (s.stored_eq_view_iff key).mpr (hnone key)

/-- A read moves what is stored at most to the current form. -/
theorem dataForKey_stored (s : FIRAuthKeychainServices δ) (faults : Faults) (key : PlainKey) :
    (s.dataForKey faults key).1.stored key = s.stored key := by
  obtain ⟨-, e, hread⟩ | ⟨data, -, hread⟩ | ⟨-, -, hread⟩ | ⟨-, -, hread⟩ |
      ⟨data, moved, hcurrent, -, hlegacy, hset, hread⟩ := s.dataForKey_cases faults key
  · simp [hread]
  · simp [hread]
  · simp [hread]
  · simp [hread, mark, stored, genericPasswordQueryWithKey]
  · have hfound : s.stored key = some data := by simp [stored, hcurrent, hlegacy]
    rw [hread, hfound]
    refine stored_of_current ?_
    rw [deleteLegacyItemWithKey_current]
    exact (setData_ok hset).1

/-- A removal leaves an old item in the keychain, hidden or not deleted. -/
def OldItemStays (s : FIRAuthKeychainServices δ) (faults : Faults) (key : PlainKey) : Prop :=
  pick s.items (legacyGenericPasswordQueryWithKey key) ≠ none ∧
    (s.legacyEntryDeletedForKey key = true ∨ faults.legacyDelete ≠ none)

/-- What is stored after a removal that is reported to have succeeded. -/
theorem removeDataForKey_stored_iff (s : FIRAuthKeychainServices δ) (faults : Faults) (key : PlainKey)
    (hok : (s.removeDataForKey faults key).2 = .ok ()) :
    (s.removeDataForKey faults key).1.stored key = none ↔ ¬ s.OldItemStays faults key := by
  obtain ⟨-, e, he⟩ | ⟨items', -, hdelete, hpick, hsame⟩ :=
    deleteItemWithQuery_spec faults s.items (s.genericPasswordQueryWithKey key)
  · simp [removeDataForKey, he] at hok
  have hlegacy : pick items' (legacyGenericPasswordQueryWithKey key) =
      pick s.items (legacyGenericPasswordQueryWithKey key) :=
    pick_congr (hsame (legacyGenericPasswordQueryWithKey key) (account_not_plain key key))
  have hremoved : (s.removeDataForKey faults key).1 =
      ({ s with items := items' }).deleteLegacyItemWithKey faults key := by
    simp [removeDataForKey, hdelete]
  have hcurrent : pick items' (({ s with items := items' } : FIRAuthKeychainServices δ)
      |>.genericPasswordQueryWithKey key) = none := hpick
  rw [hremoved, stored, deleteLegacyItemWithKey_current, hcurrent, Option.none_or,
    deleteLegacyItemWithKey_self, hlegacy]
  split_ifs with hstays
  · simp [OldItemStays, hstays]
  · simp [OldItemStays, hstays]

/-- The marks are right: a marked key has no old item. -/
def NothingHidden (s : FIRAuthKeychainServices δ) : Prop :=
  ∀ key : PlainKey, s.legacyEntryDeletedForKey key = true →
    pick s.items (legacyGenericPasswordQueryWithKey key) = none

theorem setData_nothingHidden (faults : Faults) (data : δ) (key : PlainKey) (h : s.NothingHidden) :
    (s.setData faults data key).1.NothingHidden := by
  intro other hmarked
  obtain ⟨-, e, he⟩ | ⟨items', hok, -, hsame⟩ :=
    setItemWithQuery_spec faults s.items (kAccountPrefix ++ key.text) s.service data
  · simp only [setData, genericPasswordQueryWithKey, he] at hmarked ⊢
    exact h other hmarked
  · simp only [setData, genericPasswordQueryWithKey, hok] at hmarked ⊢
    rw [pick_congr (hsame (legacyGenericPasswordQueryWithKey other) (account_not_plain key other))]
    exact h other hmarked

theorem deleteLegacyItemWithKey_nothingHidden {faults : Faults}
    (hfaults : faults.legacyDelete = none) (key : PlainKey) (h : s.NothingHidden) :
    (s.deleteLegacyItemWithKey faults key).NothingHidden := by
  intro other hother
  rw [deleteLegacyItemWithKey_marks] at hother
  by_cases heq : other = key
  · subst heq
    rw [deleteLegacyItemWithKey_self]
    by_cases hmarked : s.legacyEntryDeletedForKey other = true
    · simpa [hmarked] using h other hmarked
    · simp [hmarked, hfaults]
  · rw [deleteLegacyItemWithKey_legacy s faults key other (Ne.symm heq)]
    exact h other (by simpa [heq] using hother)

theorem removeDataForKey_nothingHidden {faults : Faults} (hfaults : faults.legacyDelete = none)
    (key : PlainKey) (h : s.NothingHidden) : (s.removeDataForKey faults key).1.NothingHidden := by
  obtain ⟨-, e, he⟩ | ⟨items', -, hok, -, hsame⟩ :=
    deleteItemWithQuery_spec faults s.items (s.genericPasswordQueryWithKey key)
  · simpa [removeDataForKey, he] using h
  · simp only [removeDataForKey, hok]
    refine deleteLegacyItemWithKey_nothingHidden hfaults key fun other hmarked => ?_
    exact (pick_congr (hsame (legacyGenericPasswordQueryWithKey other)
      (account_not_plain key other))).trans (h other hmarked)

theorem mark_nothingHidden (hnone : pick s.items (legacyGenericPasswordQueryWithKey key) = none)
    (h : s.NothingHidden) : (s.mark key).NothingHidden := by
  intro other hmarked
  by_cases heq : other = key
  · subst heq
    exact hnone
  · exact h other (by simpa [mark, heq] using hmarked)

theorem dataForKey_nothingHidden {faults : Faults} (hfaults : faults.legacyDelete = none)
    (key : PlainKey) (h : s.NothingHidden) : (s.dataForKey faults key).1.NothingHidden := by
  obtain ⟨-, e, hread⟩ | ⟨data, -, hread⟩ | ⟨-, -, hread⟩ | ⟨-, hlegacy, hread⟩ |
      ⟨data, moved, -, -, -, hset, hread⟩ := s.dataForKey_cases faults key
  · rw [hread]
    exact h
  · rw [hread]
    exact h
  · rw [hread]
    exact h
  · rw [hread]
    exact mark_nothingHidden hlegacy h
  · have hmoved := setData_nothingHidden faults data key h
    rw [hset] at hmoved
    rw [hread]
    exact deleteLegacyItemWithKey_nothingHidden hfaults key hmoved

theorem NothingHidden.not_exposed (h : s.NothingHidden) (key : PlainKey) : ¬ s.Exposed key :=
  fun ⟨hmarked, _, hlegacy⟩ => hlegacy (h key hmarked)

end FIRAuthKeychainServices

end Mber.KeychainServices
