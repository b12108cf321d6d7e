import Mathlib.Data.List.Basic

/-!
The items of a keychain and the queries that FIRAuthKeychainServices makes of
them. A query finds one item among those it matches; a write makes one, or
updates what is there. What is written under one account is not seen under
another, and when a call fails nothing has changed.
-/
namespace Mber.Keychain

variable {δ : Type*}

inductive OSStatus
  | noErr
  | itemNotFound
  | duplicateItem
  | failed (code : Int)
  deriving DecidableEq

/-- A generic password; older items have no service. -/
structure Item (δ : Type*) where
  account : String
  service : Option String
  data : δ

/-- A query without a service matches the items of all services. -/
structure Query where
  account : String
  service : Option String

def Query.matches (q : Query) (i : Item δ) : Bool :=
  i.account == q.account && (q.service.isNone || i.service == q.service)

/-- At most two of the matching items. -/
def secItemCopyMatching (fault : Option Int) (items : List (Item δ)) (q : Query) :
    OSStatus × List (Item δ) :=
  match fault with
  | some code => (.failed code, [])
  | none =>
    let result := (items.filter q.matches).take 2
    (if result.isEmpty then .itemNotFound else .noErr, result)

def secItemAdd (fault : Option Int) (items : List (Item δ)) (q : Query) (data : δ) :
    OSStatus × List (Item δ) :=
  match fault with
  | some code => (.failed code, items)
  | none =>
    if items.any (fun i => i.account == q.account && i.service == q.service) then
      (.duplicateItem, items)
    else (.noErr, items ++ [⟨q.account, q.service, data⟩])

def secItemUpdate (fault : Option Int) (items : List (Item δ)) (q : Query) (data : δ) :
    OSStatus × List (Item δ) :=
  match fault with
  | some code => (.failed code, items)
  | none =>
    if items.any q.matches then
      (.noErr, items.map fun i => if q.matches i then { i with data } else i)
    else (.itemNotFound, items)

def secItemDelete (fault : Option Int) (items : List (Item δ)) (q : Query) :
    OSStatus × List (Item δ) :=
  match fault with
  | some code => (.failed code, items)
  | none =>
    if items.any q.matches then (.noErr, items.filter fun i => !q.matches i)
    else (.itemNotFound, items)

structure KeychainError where
  function : String
  status : OSStatus
  deriving DecidableEq

/-- What goes wrong in the keychain during one call of the services. -/
structure Faults where
  copy : Option Int := none
  legacyCopy : Option Int := none
  add : Option Int := none
  update : Option Int := none
  delete : Option Int := none
  legacyDelete : Option Int := none

/-- Among several items the ones with a service come first. -/
def itemWithQuery (fault : Option Int) (items : List (Item δ)) (q : Query) :
    Except KeychainError (Option δ) :=
  match secItemCopyMatching fault items q with
  | (.noErr, []) => .error ⟨"SecItemCopyMatching", .noErr⟩
  | (.noErr, first :: rest) =>
    .ok (some (((first :: rest).find? fun i => i.service.isSome).getD first).data)
  | (.itemNotFound, _) => .ok none
  | (status, _) => .error ⟨"SecItemCopyMatching", status⟩

def setItemWithQuery (faults : Faults) (items : List (Item δ)) (q : Query) (data : δ) :
    List (Item δ) × Except KeychainError Unit :=
  match secItemAdd faults.add items q data with
  | (.noErr, items') => (items', .ok ())
  | (.duplicateItem, _) =>
    match secItemUpdate faults.update items q data with
    | (.noErr, items') => (items', .ok ())
    | (status, items') => (items', .error ⟨"SecItemUpdate", status⟩)
  | (status, items') => (items', .error ⟨"SecItemAdd", status⟩)

def deleteItemWithQuery (faults : Faults) (items : List (Item δ)) (q : Query) :
    List (Item δ) × Except KeychainError Unit :=
  match secItemDelete faults.delete items q with
  | (.noErr, items') => (items', .ok ())
  | (.itemNotFound, items') => (items', .ok ())
  | (status, items') => (items', .error ⟨"SecItemDelete", status⟩)

/-- The data that `itemWithQuery` returns when nothing goes wrong. -/
def pick (items : List (Item δ)) (q : Query) : Option δ :=
  match (items.filter q.matches).take 2 with
  | [] => none
  | first :: rest => some (((first :: rest).find? fun i => i.service.isSome).getD first).data

variable {items : List (Item δ)} {q q' : Query} {data : δ}

theorem itemWithQuery_spec (fault : Option Int) (items : List (Item δ)) (q : Query) :
    (fault = none ∧ itemWithQuery fault items q = .ok (pick items q)) ∨
      (fault ≠ none ∧ ∃ e, itemWithQuery fault items q = .error e) := by
  cases fault with
  | some code => exact .inr ⟨by simp, _, rfl⟩
  | none =>
    refine .inl ⟨rfl, ?_⟩
    cases hfound : (items.filter q.matches).take 2 <;>
      simp [itemWithQuery, secItemCopyMatching, pick, hfound]

/-- If all items that match have the same data, it is found. -/
theorem pick_of_all (hall : ∀ i ∈ items.filter q.matches, i.data = data)
    (hany : items.any q.matches = true) : pick items q = some data := by
  obtain ⟨i, hi, hmatch⟩ := List.any_eq_true.mp hany
  have hne : items.filter q.matches ≠ [] :=
    List.ne_nil_of_mem (List.mem_filter.mpr ⟨hi, hmatch⟩)
  obtain ⟨first, rest, hsplit⟩ := List.exists_cons_of_ne_nil hne
  have hdata : ∀ j ∈ (first :: rest).take 2, j.data = data := by
    intro j hj
    exact hall j (hsplit ▸ List.mem_of_mem_take hj)
  have htake : (first :: rest).take 2 = first :: rest.take 1 := rfl
  rw [htake] at hdata
  simp only [pick, hsplit, htake, Option.some.injEq]
  cases hfind : (first :: rest.take 1).find? fun i => i.service.isSome with
  | none => exact hdata first List.mem_cons_self
  | some j => exact hdata j (List.mem_of_find?_eq_some hfind)

theorem pick_eq_none (hnone : items.filter q.matches = []) : pick items q = none := by
  simp [pick, hnone]

theorem pick_congr {items' : List (Item δ)}
    (h : items'.filter q.matches = items.filter q.matches) : pick items' q = pick items q := by
  simp only [pick, h]

/-- No item matches queries for two accounts. -/
theorem not_matches (h : q.account ≠ q'.account) {i : Item δ} (hi : q.matches i = true) :
    q'.matches i = false := by
  simp only [Query.matches, Bool.and_eq_true, beq_iff_eq] at hi
  have hne : (i.account == q'.account) = false := by
    rw [beq_eq_false_iff_ne, hi.1]
    exact h
  simp [Query.matches, hne]

theorem matches_new (q : Query) (data : δ) :
    q.matches (⟨q.account, q.service, data⟩ : Item δ) = true := by
  simp [Query.matches]

theorem matches_update (q q' : Query) (i : Item δ) (data : δ) :
    q'.matches (if q.matches i then { i with data } else i) = q'.matches i := by
  split_ifs <;> rfl

theorem secItemAdd_filter (h : q.account ≠ q'.account) (fault : Option Int) (data : δ) :
    (secItemAdd fault items q data).2.filter q'.matches = items.filter q'.matches := by
  unfold secItemAdd
  cases fault with
  | some code => rfl
  | none =>
    simp only
    split_ifs
    · rfl
    · simp [List.filter_append, not_matches h (matches_new q data)]

theorem secItemUpdate_filter (h : q.account ≠ q'.account) (fault : Option Int) (data : δ) :
    (secItemUpdate fault items q data).2.filter q'.matches = items.filter q'.matches := by
  unfold secItemUpdate
  cases fault with
  | some code => rfl
  | none =>
    simp only
    split_ifs
    · rw [List.filter_map]
      have hcomp : (q'.matches ∘ fun i : Item δ => if q.matches i then { i with data } else i) =
          q'.matches := funext fun i => matches_update q q' i data
      rw [hcomp]
      calc (items.filter q'.matches).map (fun i => if q.matches i then { i with data } else i)
          = (items.filter q'.matches).map id := by
            refine List.map_congr_left fun i hi => ?_
            have hother : q.matches i = false := not_matches h.symm (List.mem_filter.mp hi).2
            simp [hother]
        _ = items.filter q'.matches := List.map_id _
    · rfl

theorem secItemDelete_filter (h : q.account ≠ q'.account) (fault : Option Int) :
    (secItemDelete fault items q).2.filter q'.matches = items.filter q'.matches := by
  unfold secItemDelete
  cases fault with
  | some code => rfl
  | none =>
    simp only
    split_ifs
    · rw [List.filter_filter]
      refine List.filter_congr fun i _ => ?_
      cases hi : q.matches i with
      | true => simp [not_matches h hi]
      | false => simp
    · rfl

/-- What is stored under other accounts is as before. -/
def SameElsewhere (account : String) (items items' : List (Item δ)) : Prop :=
  ∀ q : Query, account ≠ q.account → items'.filter q.matches = items.filter q.matches

theorem filter_eq_nil_of_not_any (hnone : ¬ items.any q.matches = true) :
    items.filter q.matches = [] := by
  refine List.filter_eq_nil_iff.mpr fun i hi hmatch => hnone ?_
  exact List.any_eq_true.mpr ⟨i, hi, hmatch⟩

theorem secItemAdd_pick (account service : String) (data : δ)
    (habsent : ¬ items.any (Query.mk account (some service)).matches = true) :
    pick (items ++ [⟨account, some service, data⟩]) ⟨account, some service⟩ = some data := by
  have hnew : (Query.mk account (some service)).matches
      (⟨account, some service, data⟩ : Item δ) = true :=
    matches_new ⟨account, some service⟩ data
  have hfound : (items ++ [⟨account, some service, data⟩] : List (Item δ)).filter
      (Query.mk account (some service)).matches = [⟨account, some service, data⟩] := by
    simp [List.filter_append, filter_eq_nil_of_not_any habsent, hnew]
  refine pick_of_all (fun i hi => ?_) ?_
  · rw [hfound, List.mem_singleton] at hi
    rw [hi]
  · simp [hnew]

theorem secItemUpdate_pick (q : Query) (data : δ) (hpresent : items.any q.matches = true) :
    pick (items.map fun i => if q.matches i then { i with data } else i) q = some data := by
  refine pick_of_all (fun i hi => ?_) ?_
  · obtain ⟨hmem, hmatch⟩ := List.mem_filter.mp hi
    obtain ⟨j, -, rfl⟩ := List.mem_map.mp hmem
    rw [matches_update] at hmatch
    simp [hmatch]
  · obtain ⟨i, hi, hmatch⟩ := List.any_eq_true.mp hpresent
    refine List.any_eq_true.mpr ⟨_, List.mem_map.mpr ⟨i, hi, rfl⟩, ?_⟩
    rw [matches_update]
    exact hmatch

theorem secItemDelete_none (items : List (Item δ)) (q : Query) :
    (secItemDelete none items q).2.filter q.matches = [] := by
  unfold secItemDelete
  split_ifs with hany
  · simp [List.filter_filter]
  · exact filter_eq_nil_of_not_any hany

/-- Either the keychain fails and nothing changes, or the data is stored. -/
theorem setItemWithQuery_spec (faults : Faults) (items : List (Item δ)) (account service : String)
    (data : δ) :
    (faults ≠ {} ∧
        ∃ e, setItemWithQuery faults items ⟨account, some service⟩ data = (items, .error e)) ∨
      ∃ items', setItemWithQuery faults items ⟨account, some service⟩ data = (items', .ok ()) ∧
        pick items' ⟨account, some service⟩ = some data ∧ SameElsewhere account items items' := by
  cases hadd : faults.add with
  | some code =>
    refine .inl ⟨?_, ⟨"SecItemAdd", .failed code⟩, ?_⟩
    · rintro rfl
      simp at hadd
    · simp only [setItemWithQuery, secItemAdd, hadd]
  | none =>
    by_cases hpresent : items.any (Query.mk account (some service)).matches = true
    · have hduplicate : items.any (fun i => i.account == account && i.service == service) = true :=
        hpresent
      cases hupdate : faults.update with
      | some code =>
        refine .inl ⟨?_, ⟨"SecItemUpdate", .failed code⟩, ?_⟩
        · rintro rfl
          simp at hupdate
        · simp only [setItemWithQuery, secItemAdd, secItemUpdate, hadd, hupdate, hduplicate,
            if_true]
      | none =>
        refine .inr ⟨(secItemUpdate none items ⟨account, some service⟩ data).2, ?_, ?_,
          fun q h => secItemUpdate_filter h none data⟩
        · simp [setItemWithQuery, secItemAdd, secItemUpdate, hadd, hupdate, hduplicate, hpresent]
        · simp only [secItemUpdate, hpresent, if_true]
          exact secItemUpdate_pick _ data hpresent
    · have habsent : items.any (fun i => i.account == account && i.service == service) = false :=
        Bool.eq_false_iff.mpr hpresent
      refine .inr ⟨(secItemAdd none items ⟨account, some service⟩ data).2, ?_, ?_,
        fun q h => secItemAdd_filter h none data⟩
      · simp [setItemWithQuery, secItemAdd, hadd, habsent]
      · simp only [secItemAdd, habsent]
        exact secItemAdd_pick account service data hpresent

/-- Nothing fails in a write: an item that is there already is updated. -/
def Writable (faults : Faults) (items : List (Item δ)) (q : Query) : Prop :=
  faults.add = none ∧ (items.any q.matches = true → faults.update = none)

theorem setItemWithQuery_ok_iff (faults : Faults) (items : List (Item δ))
    (account service : String) (data : δ) :
    (setItemWithQuery faults items ⟨account, some service⟩ data).2 = .ok () ↔
      Writable faults items ⟨account, some service⟩ := by
  cases hadd : faults.add with
  | some code => simp [setItemWithQuery, secItemAdd, Writable, hadd]
  | none =>
    cases hany : items.any (Query.mk account (some service)).matches with
    | false =>
      have habsent : items.any (fun i => i.account == account && i.service == service) = false :=
        hany
      simp [setItemWithQuery, secItemAdd, Writable, hadd, hany, habsent]
    | true =>
      have hduplicate : items.any (fun i => i.account == account && i.service == service) = true :=
        hany
      cases hupdate : faults.update <;>
        simp [setItemWithQuery, secItemAdd, secItemUpdate, Writable, hadd, hany, hduplicate,
          hupdate]

/-- Either the keychain fails and nothing changes, or nothing is stored. -/
theorem deleteItemWithQuery_spec (faults : Faults) (items : List (Item δ)) (q : Query) :
    (faults.delete ≠ none ∧ ∃ e, deleteItemWithQuery faults items q = (items, .error e)) ∨
      ∃ items', faults.delete = none ∧ deleteItemWithQuery faults items q = (items', .ok ()) ∧
        pick items' q = none ∧ SameElsewhere q.account items items' := by
  cases hdelete : faults.delete with
  | some code =>
    refine .inl ⟨by simp, ⟨"SecItemDelete", .failed code⟩, ?_⟩
    simp only [deleteItemWithQuery, secItemDelete, hdelete]
  | none =>
    refine .inr ⟨(secItemDelete none items q).2, rfl, ?_, ?_,
      fun q' h => secItemDelete_filter h none⟩
    · by_cases hany : items.any q.matches = true <;>
        simp [deleteItemWithQuery, secItemDelete, hdelete, hany]
    · exact pick_eq_none (secItemDelete_none items q)

end Mber.Keychain
