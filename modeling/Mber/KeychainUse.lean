import Mber.KeychainServices
import Mber.Runs

/-!
The keychain services in use, through reads, writes, removals and launches of
the app, with all that can go wrong in the keychain. What is expected of them
is the map that the calls reported as successful describe, over keys that do
not begin with the prefix of the accounts.
-/
namespace Mber.KeychainUse

open Runs Keychain KeychainServices

variable {δ : Type*}

/-- What the app does with the services. -/
inductive Call (δ : Type*)
  | dataForKey (faults : Faults) (key : PlainKey)
  | setData (faults : Faults) (data : δ) (key : PlainKey)
  | removeDataForKey (faults : Faults) (key : PlainKey)
  | launch

/-- The services and what the app expects of them: the data of the last write
or removal that was reported to have succeeded. -/
structure Use (δ : Type*) where
  services : FIRAuthKeychainServices δ
  expected : PlainKey → Option δ

namespace Use

def step (u : Use δ) : Call δ → Use δ
  | .dataForKey faults key => { u with services := (u.services.dataForKey faults key).1 }
  | .setData faults data key =>
    match u.services.setData faults data key with
    | (s, .ok ()) => ⟨s, Function.update u.expected key (some data)⟩
    | (s, .error _) => { u with services := s }
  | .removeDataForKey faults key =>
    match u.services.removeDataForKey faults key with
    | (s, .ok ()) => ⟨s, Function.update u.expected key none⟩
    | (s, .error _) => { u with services := s }
  | .launch => { u with services := u.services.launch }

/-- Over a keychain that is there already. -/
def first (service : String) (items : List (Item δ)) : Use δ :=
  ⟨⟨service, items, fun _ => false⟩, (⟨service, items, fun _ => false⟩ :
    FIRAuthKeychainServices δ).view⟩

/-- Every read that succeeds returns what is expected, and it succeeds when the keychain does. -/
def Faithful (u : Use δ) : Prop :=
  ∀ key : PlainKey, (u.services.dataForKey {} key).2 = .ok (u.expected key) ∧
    ∀ faults found, (u.services.dataForKey faults key).2 = .ok found → found = u.expected key

theorem faithful_iff (u : Use δ) : u.Faithful ↔ u.services.view = u.expected := by
  constructor
  · intro hfaithful
    funext key
    have hread := (hfaithful key).1
    rw [FIRAuthKeychainServices.dataForKey_faultless] at hread
    exact Except.ok.inj hread
  · intro hview key
    rw [FIRAuthKeychainServices.dataForKey_faultless, hview]
    refine ⟨rfl, fun faults found hread => ?_⟩
    obtain hok | ⟨-, e, he⟩ := (u.services.dataForKey_spec faults key).2
    · rw [hok, hview] at hread
      exact (Except.ok.inj hread).symm
    · rw [he] at hread
      cases hread

/-- No launch brings back an item that was only hidden. -/
def LaunchExposesNothing (u : Use δ) (c : Call δ) : Prop :=
  c = .launch → ∀ key : PlainKey, ¬ u.services.Exposed key

theorem step_view (u : Use δ) (c : Call δ) (h : u.services.view = u.expected)
    (hc : u.LaunchExposesNothing c) : (u.step c).services.view = (u.step c).expected := by
  cases c with
  | dataForKey faults key => exact (u.services.dataForKey_spec faults key).1.trans h
  | setData faults data key =>
    obtain ⟨-, e, hset⟩ | ⟨s, hset, -, hview⟩ := u.services.setData_spec faults data key
    · simpa [step, hset] using h
    · simpa [step, hset, h] using hview
  | removeDataForKey faults key =>
    obtain ⟨-, e, hremove⟩ | ⟨s, -, hremove, hview⟩ := u.services.removeDataForKey_spec faults key
    · simpa [step, hremove] using h
    · simpa [step, hremove, h] using hview
  | launch => exact (u.services.launch_view_iff.mpr (hc rfl)).trans h

/-- Through reads, writes, removals and launches, whatever goes wrong in the
keychain, the services are the map that the calls that succeeded describe,
exactly as long as no launch exposes an old item whose deletion failed. -/
theorem keychain_refines_iff (service : String) (items : List (Item δ)) (calls : List (Call δ)) :
    EveryState step Faithful (first service items) calls ↔
      EveryStep step LaunchExposesNothing (first service items) calls := by
  refine everyState_iff_until (fun u => u.services.view = u.expected)
    (fun u hu => u.faithful_iff.mpr hu) (fun u c hu hc => u.step_view c hu hc) ?_ _ _ rfl
  intro u c hu hc hfaithful
  obtain ⟨rfl, hexposed⟩ := Classical.not_imp.mp hc
  have hview : u.services.launch.view = u.services.view :=
    ((u.step .launch).faithful_iff.mp hfaithful).trans hu.symm
  exact hexposed (u.services.launch_view_iff.mp hview)

def user : PlainKey := ⟨⟨"user", by decide⟩, by decide⟩

/-- A removed item is back after a launch: its old form could not be deleted. -/
example : ((run step (first "auth" [⟨"user", none, 7⟩])
    [.removeDataForKey { legacyDelete := some (-25308) } user, .launch]).services.dataForKey
      {} user).2 = .ok (some 7) := by decide

/-- The deletions of old items that the call makes do not fail. -/
def DeletesOldItems : Call δ → Prop
  | .dataForKey faults _ => faults.legacyDelete = none
  | .removeDataForKey faults _ => faults.legacyDelete = none
  | .setData _ _ _ => True
  | .launch => True

theorem step_nothingHidden (u : Use δ) (c : Call δ) (h : u.services.NothingHidden)
    (hc : DeletesOldItems c) : (u.step c).services.NothingHidden := by
  cases c with
  | dataForKey faults key => exact FIRAuthKeychainServices.dataForKey_nothingHidden hc key h
  | setData faults data key =>
    have hset := FIRAuthKeychainServices.setData_nothingHidden faults data key h
    cases hresult : u.services.setData faults data key with
    | mk s result => cases result <;> simpa [step, hresult] using hset
  | removeDataForKey faults key =>
    have hremove := FIRAuthKeychainServices.removeDataForKey_nothingHidden hc key h
    cases hresult : u.services.removeDataForKey faults key with
    | mk s result => cases result <;> simpa [step, hresult] using hremove
  | launch => exact fun key hmarked => Bool.noConfusion hmarked

/-- While the deletions of old items succeed, the services are the map that the
calls describe, whatever else goes wrong. -/
theorem keychain_faithful (service : String) (items : List (Item δ)) (calls : List (Call δ))
    (hcalls : ∀ c ∈ calls, DeletesOldItems c) :
    EveryState step Faithful (first service items) calls := by
  refine everyState_of_inputs
    (fun u => u.services.view = u.expected ∧ u.services.NothingHidden)
    (fun u hu => u.faithful_iff.mpr hu.1) (fun u c hc hu => ⟨u.step_view c hu.1 ?_, ?_⟩) _ _
    hcalls ⟨rfl, fun key hmarked => Bool.noConfusion hmarked⟩
  · exact u.step_nothingHidden c hu.2 hc
  · exact fun _ key => hu.2.not_exposed key

theorem keychain_faithful_after_removal :
    EveryState step Faithful (first "auth" [⟨"user", none, 7⟩])
      [.dataForKey { add := some (-25308) } user,
        .removeDataForKey {} user, .launch] :=
  keychain_faithful "auth" [⟨"user", none, 7⟩]
    [.dataForKey { add := some (-25308) } user,
      .removeDataForKey {} user, .launch]
    (by simp [DeletesOldItems])

/-- The condition on the keys is needed: reading a key that is the account of
`user` finds the data of `user` and removes it. -/
example :
    let s : FIRAuthKeychainServices ℕ := ⟨"auth", [⟨"firebase_auth_1_user", some "auth", 7⟩],
      fun _ => false⟩
    let r := s.dataForKey {} ⟨"firebase_auth_1_user", by decide⟩
    (s.dataForKey {} user).2 = .ok (some 7) ∧ r.2 = .ok (some 7) ∧
      (r.1.dataForKey {} user).2 = .ok none := by decide

end Use

end Mber.KeychainUse
