import Mber.Handovers
import Mathlib.Data.List.TakeDrop

/-!
The disposables of RxSwift that are handed what they dispose of: SinkDisposer,
with a sink and a subscription, and SingleAssignmentDisposable, with one
disposable. Both are the two-flag handover, written out line by line over one
field for each resource. A disposal may call `dispose` again; like any other
call it stands between two lines of the calls that are not over yet.
-/
namespace Mber.Disposables

open Runs Handovers

variable {δ : Type*}

/-- The fields of a class and its fatal errors. -/
structure Layout where
  fields : ℕ
  alreadySet : String
  notSet : ℕ → String

/-- `DisposeState.disposed`. -/
def disposedFlag : BitVec 32 := 1

/-- `DisposeState.sinkAndSubscriptionSet`, `DisposeState.disposableSet`. -/
def setFlag : BitVec 32 := 2

def hasFlag (state mask : BitVec 32) : Bool := state &&& mask != 0

/-- The line that a call executes next: `storing` and `clearing` assign a
field, `unwrapping` guards the next one and has read the others. -/
inductive Line (δ : Type*)
  | storing (done : ℕ) (resources : List δ)
  | settingFlag (resources : List δ)
  | claiming
  | unwrapping (unwrapped : List δ)
  | disposing (left : List δ)
  | clearing (done : ℕ)
  | returned

/-- `disposals` records what has been disposed of. -/
structure Disposer (δ : Type*) where
  state : BitVec 32 := 0
  field : ℕ → Option δ := fun _ => none
  fatalError : Option String := none
  calls : ℕ := 0
  line : ℕ → Line δ := fun _ => .returned
  disposals : List δ := []

namespace Disposer

def fetchOr (s : Disposer δ) (mask : BitVec 32) : BitVec 32 × Disposer δ :=
  (s.state, { s with state := s.state ||| mask })

def goTo (s : Disposer δ) (call : ℕ) (l : Line δ) : Disposer δ :=
  { s with line := Function.update s.line call l }

def enter (s : Disposer δ) (l : Line δ) : Disposer δ :=
  { s with calls := s.calls + 1, line := Function.update s.line s.calls l }

def rxFatalError (s : Disposer δ) (message : String) : Disposer δ :=
  { s with fatalError := some message }

def assign (s : Disposer δ) (k : ℕ) (x : Option δ) : Disposer δ :=
  { s with field := Function.update s.field k x }

def advance (layout : Layout) (s : Disposer δ) (call : ℕ) : Disposer δ :=
  match s.line call with
  | .storing done resources =>
    (s.assign done resources[done]?).goTo call
      (if done + 1 < resources.length then .storing (done + 1) resources
        else .settingFlag resources)
  | .settingFlag resources =>
    let r := s.fetchOr setFlag
    if hasFlag r.1 setFlag then r.2.rxFatalError layout.alreadySet
    else r.2.goTo call (if hasFlag r.1 disposedFlag then .disposing resources else .returned)
  | .claiming =>
    let r := s.fetchOr disposedFlag
    if hasFlag r.1 disposedFlag then r.2.goTo call .returned
    else r.2.goTo call (if hasFlag r.1 setFlag then .unwrapping [] else .returned)
  | .unwrapping unwrapped =>
    match s.field unwrapped.length with
    | none => s.rxFatalError (layout.notSet unwrapped.length)
    | some x =>
      s.goTo call (if unwrapped.length + 1 < layout.fields then .unwrapping (unwrapped ++ [x])
        else .disposing (unwrapped ++ [x]))
  | .disposing [] => s.goTo call (.clearing 0)
  | .disposing (x :: left) =>
    { s with disposals := s.disposals ++ [x] }.goTo call
      (if left.isEmpty then .clearing 0 else .disposing left)
  | .clearing done =>
    (s.assign done none).goTo call
      (if done + 1 < layout.fields then .clearing (done + 1) else .returned)
  | .returned => s

/-- After a fatal error nothing runs any more. -/
def step (layout : Layout) (s : Disposer δ) (i : Input δ) : Disposer δ :=
  if s.fatalError.isSome then s
  else match i with
  | .set resources => s.enter (.storing 0 resources)
  | .dispose => s.enter .claiming
  | .advance call => s.advance layout call

end Disposer

namespace SinkDisposer

def layout : Layout where
  fields := 2
  alreadySet := "Sink and subscription were already set"
  notSet k := if k = 0 then "Sink not set" else "Subscription not set"

/-- A call of `dispose`, or the next line of a call. -/
inductive Event
  | dispose
  | advance (call : ℕ)
  deriving DecidableEq

def Event.input : Event → Input δ
  | .dispose => .dispose
  | .advance call => .advance call

def setSinkAndSubscription (sink subscription : δ) : Input δ := .set [sink, subscription]

/-- `Producer.subscribe`: the disposer is there while the producer runs, and
is set once, with what the producer has returned. -/
def subscribe (sink subscription : δ) (running after : List Event) : List (Input δ) :=
  running.map Event.input ++ setSinkAndSubscription sink subscription :: after.map Event.input

end SinkDisposer

namespace SingleAssignmentDisposable

def layout : Layout where
  fields := 1
  alreadySet := "oldState.disposable != nil"
  notSet _ := "Disposable not set"

inductive Event (δ : Type*)
  | setDisposable (disposable : δ)
  | dispose
  | advance (call : ℕ)

def Event.input : Event δ → Input δ
  | .setDisposable disposable => .set [disposable]
  | .dispose => .dispose
  | .advance call => .advance call

end SingleAssignmentDisposable

/-- Where a call stands in the handover; the first field that is cleared counts. -/
def Line.view : Line δ → Phase δ
  | .storing _ resources => .storing resources
  | .settingFlag resources => .announcing resources
  | .claiming => .claiming
  | .unwrapping _ => .reading
  | .disposing left => .releasing left
  | .clearing 0 => .releasing []
  | .clearing (_ + 1) => .returned
  | .returned => .returned

def flagWord (disposed isSet : Bool) : BitVec 32 :=
  (if disposed then disposedFlag else 0) ||| (if isSet then setFlag else 0)

@[simp] theorem flagWord_disposed (disposed isSet : Bool) :
    hasFlag (flagWord disposed isSet) disposedFlag = disposed := by
  cases disposed <;> cases isSet <;> decide

@[simp] theorem flagWord_isSet (disposed isSet : Bool) :
    hasFlag (flagWord disposed isSet) setFlag = isSet := by
  cases disposed <;> cases isSet <;> decide

@[simp] theorem flagWord_or_disposed (disposed isSet : Bool) :
    flagWord disposed isSet ||| disposedFlag = flagWord true isSet := by
  cases disposed <;> cases isSet <;> decide

@[simp] theorem flagWord_or_set (disposed isSet : Bool) :
    flagWord disposed isSet ||| setFlag = flagWord disposed true := by
  cases disposed <;> cases isSet <;> decide

namespace Disposer

/-- What a line relies on, in a class with `n` fields. -/
def Fits (n : ℕ) (s : Disposer δ) (a : Handover δ) : Line δ → Prop
  | .storing done resources =>
    done < n ∧ resources.length = n ∧ ∀ k, k < done → s.field k = resources[k]?
  | .settingFlag resources => resources.length = n ∧ ∀ k, k < n → s.field k = resources[k]?
  | .claiming => True
  | .unwrapping unwrapped => unwrapped.length < n ∧ unwrapped = a.resources.take unwrapped.length
  | .disposing left => left ≠ []
  | .clearing done => done < n ∧ s.disposals ≠ []
  | .returned => True

/-- The class does what the handover does. Once something is disposed of the
fields are not read any more. -/
structure Follows (n : ℕ) (s : Disposer δ) (a : Handover δ) : Prop where
  state : s.state = flagWord a.disposed a.isSet
  fatalError : s.fatalError = none
  calls : s.calls = a.calls
  disposals : s.disposals = a.released
  line : ∀ i, (s.line i).view = a.phase i
  fits : ∀ i, s.Fits n a (s.line i)
  field : s.disposals = [] → a.isSet = true →
    a.resources.length = n ∧ ∀ k, k < n → s.field k = a.resources[k]?

theorem follows_init (n : ℕ) : ({} : Disposer δ).Follows n {} :=
  ⟨by simp [flagWord], rfl, rfl, rfl, fun _ => rfl, fun _ => trivial, fun _ h => by simp at h⟩

variable {n : ℕ} {layout : Layout} {s : Disposer δ} {a : Handover δ} {i : ℕ}

/-- A call goes to another line. The relation is asked of the states the step
leads to, and of the lines of the other calls. -/
theorem Follows.goTo (h : s.Follows n a) {t : Disposer δ} {b : Handover δ} (l : Line δ)
    (hstate : t.state = flagWord b.disposed b.isSet) (hfatal : t.fatalError = none)
    (hcalls : t.calls = b.calls) (hdisposals : t.disposals = b.released)
    (hline : t.line = s.line) (hphase : b.phase = a.phase)
    (hl : t.Fits n b l) (hothers : ∀ j, j ≠ i → t.Fits n b (s.line j))
    (hfield : t.disposals = [] → b.isSet = true →
      b.resources.length = n ∧ ∀ k, k < n → t.field k = b.resources[k]?) :
    (t.goTo i l).Follows n (b.goOn i l.view) := by
  have hsame : ∀ q, (t.goTo i l).Fits n (b.goOn i l.view) q = t.Fits n b q := by
    intro q
    cases q <;> rfl
  refine ⟨hstate, hfatal, hcalls, hdisposals, fun j => ?_, fun j => ?_, hfield⟩
  · by_cases hj : j = i
    · subst hj
      simp [Disposer.goTo]
    · simp [Disposer.goTo, hj, hline, hphase, h.line j]
  · rw [hsame]
    by_cases hj : j = i
    · subst hj
      simpa [Disposer.goTo] using hl
    · simpa [Disposer.goTo, hj, hline] using hothers j hj

/-- A line that is no step of the handover. -/
theorem Follows.stays (h : s.Follows n a) {s' : Disposer δ} (l : Line δ)
    (hview : l.view = a.phase i) (hstate : s'.state = s.state)
    (hfatal : s'.fatalError = s.fatalError) (hcalls : s'.calls = s.calls)
    (hdisposals : s'.disposals = s.disposals) (hline : s'.line = s.line)
    (hl : s'.Fits n a l) (hothers : ∀ j, j ≠ i → s'.Fits n a (s.line j))
    (hfield : s'.disposals = [] → a.isSet = true →
      a.resources.length = n ∧ ∀ k, k < n → s'.field k = a.resources[k]?) :
    (s'.goTo i l).Follows n a := by
  have hsame : a.goOn i l.view = a := by
    rw [hview, Handover.goOn, Function.update_eq_self]
  rw [← hsame]
  exact h.goTo l (hstate.trans h.state) (hfatal.trans h.fatalError) (hcalls.trans h.calls)
    (hdisposals.trans h.disposals) hline rfl hl hothers hfield

/-- A line that relies on no field, and on nothing that was disposed of. -/
theorem Fits.congr {s' : Disposer δ} {a' : Handover δ} {l : Line δ} (h : s.Fits n a l)
    (hfield : l.view.isSetter = true → s'.field = s.field)
    (hdisposals : s.disposals ≠ [] → s'.disposals ≠ [])
    (hresources : l.view = .reading → a'.resources = a.resources) : s'.Fits n a' l := by
  cases l with
  | storing done resources =>
    rw [Fits, hfield rfl]
    exact h
  | settingFlag resources =>
    rw [Fits, hfield rfl]
    exact h
  | unwrapping unwrapped =>
    rw [Fits, hresources rfl]
    exact h
  | clearing done => exact ⟨h.1, hdisposals h.2⟩
  | claiming => trivial
  | disposing left => exact h
  | returned => trivial

/-- Once something is disposed of, nothing is set any more. -/
theorem Follows.not_setter (h : s.Follows n a) (hexcl : a.Exclusive) (hsome : s.disposals ≠ [])
    (j : ℕ) : (s.line j).view.isSetter = false := by
  rw [h.line j]
  refine hexcl.not_setter ?_ j
  have hflags : ¬ (a.disposed && a.isSet) = false :=
    fun hearly => hsome (h.disposals.trans (hexcl.early hearly))
  simp only [Bool.not_eq_false, Bool.and_eq_true] at hflags
  exact hflags.2

theorem Follows.storing (h : s.Follows n a) (hexcl : a.Exclusive) {done : ℕ} {resources : List δ}
    (hline : s.line i = .storing done resources) :
    (s.advance layout i).Follows n a ∨ (s.advance layout i).Follows n (a.advance i) := by
  have hphase : a.phase i = .storing resources := by rw [← h.line i, hline]; rfl
  have hsetter : (a.phase i).isSetter = true := by rw [hphase]; rfl
  have hfits := h.fits i
  rw [hline] at hfits
  obtain ⟨hlt, hlength, hstored⟩ := hfits
  have hunset : a.isSet = false := by
    have hfits := hexcl.fits i
    rw [hphase] at hfits
    exact hfits.1
  have hothers : ∀ (a' : Handover δ), a'.resources = a.resources → ∀ j, j ≠ i →
      (s.assign done resources[done]?).Fits n a' (s.line j) := by
    intro a' hresources j hj
    refine (h.fits j).congr (fun hset => ?_) id (fun _ => hresources)
    rw [h.line j, Handover.unique_of_one hexcl.one_setter hsetter hj] at hset
    cases hset
  have hkept : ∀ k, k < done + 1 →
      (s.assign done resources[done]?).field k = resources[k]? := by
    intro k hk
    by_cases hkd : k = done
    · simp [assign, hkd]
    · simpa [assign, hkd] using hstored k (by omega)
  by_cases hmore : done + 1 < resources.length
  · have hstep : s.advance layout i =
        (s.assign done resources[done]?).goTo i (.storing (done + 1) resources) := by
      simp [Disposer.advance, hline, hmore]
    rw [hstep]
    refine .inl (h.stays _ hphase.symm rfl rfl rfl rfl rfl ⟨by omega, hlength, hkept⟩
      (hothers a rfl) ?_)
    intro _ hset
    simp [hunset] at hset
  · have hstep : s.advance layout i =
        (s.assign done resources[done]?).goTo i (.settingFlag resources) := by
      simp [Disposer.advance, hline, hmore]
    have habstract : a.advance i = { a with stored := some resources }.goOn i
        (Line.settingFlag resources).view := by
      simp [Handover.advance, hphase, Line.view]
    rw [hstep, habstract]
    refine .inr (h.goTo _ h.state h.fatalError h.calls h.disposals rfl rfl
      ⟨hlength, fun k hk => hkept k (by omega)⟩ (hothers _ rfl) ?_)
    intro _ hset
    simp [hunset] at hset

theorem Follows.settingFlag (h : s.Follows n a) (hn : 0 < n) (hexcl : a.Exclusive)
    {resources : List δ} (hline : s.line i = .settingFlag resources) :
    (s.advance layout i).Follows n (a.advance i) := by
  have hphase : a.phase i = .announcing resources := by rw [← h.line i, hline]; rfl
  have hfits := hexcl.fits i
  rw [hphase] at hfits
  obtain ⟨hunset, -, hresources, -⟩ := hfits
  have hstored := h.fits i
  rw [hline] at hstored
  obtain ⟨hlength, hfields⟩ := hstored
  have hstep : s.advance layout i = (s.fetchOr setFlag).2.goTo i
      (if a.disposed then .disposing resources else .returned) := by
    simp [Disposer.advance, hline, fetchOr, h.state, hunset]
  have habstract : a.advance i = { a with isSet := true }.goOn i
      (if a.disposed then Line.disposing resources else .returned).view := by
    cases hdisposed : a.disposed <;>
      simp [Handover.advance, hphase, hunset, hdisposed, Line.view]
  have hne : resources ≠ [] := by
    rintro rfl
    simp at hlength
    omega
  rw [hstep, habstract]
  refine h.goTo _ ?_ h.fatalError h.calls h.disposals rfl rfl ?_ ?_ ?_
  · simp [fetchOr, h.state]
  · cases hdisposed : a.disposed with
    | true => exact hne
    | false => trivial
  · exact fun j _ => (h.fits j).congr (fun _ => rfl) id (fun _ => rfl)
  · exact fun _ _ => hresources ▸ ⟨hlength, hfields⟩

theorem Follows.claiming (h : s.Follows n a) (hn : 0 < n) (hline : s.line i = .claiming) :
    (s.advance layout i).Follows n (a.advance i) := by
  have hphase : a.phase i = .claiming := by rw [← h.line i, hline]; rfl
  have hothers : ∀ (s' : Disposer δ) (a' : Handover δ), s'.field = s.field →
      s'.disposals = s.disposals → a'.resources = a.resources → ∀ j, j ≠ i →
      s'.Fits n a' (s.line j) := by
    intro s' a' hfield hdisposals hresources j _
    exact (h.fits j).congr (fun _ => hfield) (fun hsome => hdisposals ▸ hsome)
      (fun _ => hresources)
  cases hdisposed : a.disposed with
  | true =>
    have hstep : s.advance layout i = (s.fetchOr disposedFlag).2.goTo i .returned := by
      simp [Disposer.advance, hline, fetchOr, h.state, hdisposed]
    have habstract : a.advance i = a.goOn i (Line.returned : Line δ).view := by
      simp [Handover.advance, hphase, hdisposed, Line.view]
    rw [hstep, habstract]
    refine h.goTo _ ?_ h.fatalError h.calls h.disposals rfl rfl trivial (hothers _ _ rfl rfl rfl)
      h.field
    simp [fetchOr, h.state, hdisposed]
  | false =>
    have hstep : s.advance layout i = (s.fetchOr disposedFlag).2.goTo i
        (if a.isSet then .unwrapping [] else .returned) := by
      simp [Disposer.advance, hline, fetchOr, h.state, hdisposed]
    have habstract : a.advance i = { a with disposed := true }.goOn i
        (if a.isSet then Line.unwrapping [] else .returned : Line δ).view := by
      cases hset : a.isSet <;> simp [Handover.advance, hphase, hdisposed, hset, Line.view]
    rw [hstep, habstract]
    refine h.goTo _ ?_ h.fatalError h.calls h.disposals rfl rfl ?_ (hothers _ _ rfl rfl rfl)
      h.field
    · simp [fetchOr, h.state]
    · cases hset : a.isSet with
      | true => exact ⟨hn, by simp⟩
      | false => trivial

theorem Follows.unwrapping (h : s.Follows n a) (hexcl : a.Exclusive)
    (hlayout : layout.fields = n) {unwrapped : List δ} (hline : s.line i = .unwrapping unwrapped) :
    (s.advance layout i).Follows n a ∨ (s.advance layout i).Follows n (a.advance i) := by
  have hphase : a.phase i = .reading := by rw [← h.line i, hline]; rfl
  have hfits := hexcl.fits i
  rw [hphase] at hfits
  obtain ⟨-, hset, hstored, hreleased⟩ := hfits
  have htaken := h.fits i
  rw [hline] at htaken
  obtain ⟨hlt, htake⟩ := htaken
  obtain ⟨hlength, hfields⟩ := h.field (h.disposals.trans hreleased) hset
  have hbound : unwrapped.length < a.resources.length := hlength ▸ hlt
  have hread : s.field unwrapped.length = some a.resources[unwrapped.length] := by
    rw [hfields unwrapped.length hlt]
    exact List.getElem?_eq_getElem hbound
  have hnext : unwrapped ++ [a.resources[unwrapped.length]] =
      a.resources.take (unwrapped.length + 1) := by
    rw [List.take_succ_eq_append_getElem hbound, ← htake]
  have hothers : ∀ j, j ≠ i → s.Fits n a (s.line j) := fun j _ => h.fits j
  by_cases hmore : unwrapped.length + 1 < layout.fields
  · have hstep : s.advance layout i =
        s.goTo i (.unwrapping (unwrapped ++ [a.resources[unwrapped.length]])) := by
      simp [Disposer.advance, hline, hread, hmore]
    rw [hstep]
    refine .inl (h.stays _ hphase.symm rfl rfl rfl rfl rfl ⟨?_, ?_⟩ hothers h.field)
    · simp only [List.length_append, List.length_singleton]
      omega
    · simpa using hnext
  · have hstep : s.advance layout i = s.goTo i (.disposing a.resources) := by
      have hall : unwrapped ++ [a.resources[unwrapped.length]] = a.resources := by
        rw [hnext]
        exact List.take_of_length_le (by omega)
      simp [Disposer.advance, hline, hread, hmore, hall]
    have habstract : a.advance i = a.goOn i (Line.disposing a.resources).view := by
      simp [Handover.advance, hphase, hstored, Line.view]
    have hne : a.resources ≠ [] := List.ne_nil_of_length_pos (by omega)
    rw [hstep, habstract]
    exact .inr (h.goTo _ h.state h.fatalError h.calls h.disposals rfl rfl hne hothers h.field)

theorem Follows.disposing (h : s.Follows n a) (hn : 0 < n) {left : List δ}
    (hline : s.line i = .disposing left) : (s.advance layout i).Follows n (a.advance i) := by
  have hphase : a.phase i = .releasing left := by rw [← h.line i, hline]; rfl
  have hne := h.fits i
  rw [hline] at hne
  obtain ⟨x, rest, rfl⟩ := List.exists_cons_of_ne_nil hne
  have hstep : s.advance layout i = { s with disposals := s.disposals ++ [x] }.goTo i
      (if rest.isEmpty then .clearing 0 else .disposing rest) := by
    simp [Disposer.advance, hline]
  have habstract : a.advance i = { a with released := a.released ++ [x] }.goOn i
      (if rest.isEmpty then Line.clearing 0 else .disposing rest).view := by
    cases rest <;> simp [Handover.advance, hphase, Line.view]
  rw [hstep, habstract]
  refine h.goTo _ h.state h.fatalError h.calls ?_ rfl rfl ?_ ?_ ?_
  · simp [h.disposals]
  · cases rest with
    | nil => exact ⟨hn, by simp⟩
    | cons y rest => exact List.cons_ne_nil y rest
  · exact fun j _ => (h.fits j).congr (fun _ => rfl) (fun _ => by simp) (fun _ => rfl)
  · intro hnone
    simp at hnone

theorem Follows.clearing (h : s.Follows n a) (hexcl : a.Exclusive)
    (hlayout : layout.fields = n) {done : ℕ} (hline : s.line i = .clearing done) :
    (s.advance layout i).Follows n a ∨ (s.advance layout i).Follows n (a.advance i) := by
  have hfits := h.fits i
  rw [hline] at hfits
  obtain ⟨-, hsome⟩ := hfits
  have hsetter := h.not_setter hexcl hsome
  have hothers : ∀ (a' : Handover δ), a'.resources = a.resources → ∀ j, j ≠ i →
      (s.assign done none).Fits n a' (s.line j) := by
    intro a' hresources j _
    refine (h.fits j).congr (fun hset => ?_) id (fun _ => hresources)
    rw [hsetter j] at hset
    cases hset
  have hstep : s.advance layout i = (s.assign done none).goTo i
      (if done + 1 < layout.fields then .clearing (done + 1) else .returned) := by
    simp [Disposer.advance, hline]
  have hview : (if done + 1 < layout.fields then Line.clearing (done + 1) else .returned :
      Line δ).view = .returned := by
    split_ifs <;> rfl
  have hl : ∀ (a' : Handover δ), (s.assign done none).Fits n a'
      (if done + 1 < layout.fields then .clearing (done + 1) else .returned) := by
    intro a'
    split_ifs with hmore
    · exact ⟨hlayout ▸ hmore, hsome⟩
    · trivial
  rw [hstep]
  cases done with
  | zero =>
    have hphase : a.phase i = .releasing [] := by rw [← h.line i, hline]; rfl
    have habstract : a.advance i = { a with stored := none }.goOn i
        (if 0 + 1 < layout.fields then Line.clearing (0 + 1) else .returned : Line δ).view := by
      rw [hview]
      simp [Handover.advance, hphase]
    rw [habstract]
    exact .inr (h.goTo _ h.state h.fatalError h.calls h.disposals rfl rfl (hl _) (hothers _ rfl)
      (fun hnone => absurd hnone hsome))
  | succ k =>
    have hphase : a.phase i = .returned := by rw [← h.line i, hline]; rfl
    exact .inl (h.stays _ (hview.trans hphase.symm) rfl rfl rfl rfl rfl (hl a) (hothers a rfl)
      (fun hnone => absurd hnone hsome))

/-- A line of a call is a step of the handover, or none. -/
theorem Follows.advance (h : s.Follows n a) (hn : 0 < n) (hlayout : layout.fields = n)
    (hexcl : a.Exclusive) (i : ℕ) :
    (s.advance layout i).Follows n a ∨ (s.advance layout i).Follows n (a.advance i) := by
  cases hline : s.line i with
  | storing done resources => exact h.storing hexcl hline
  | settingFlag resources => exact .inr (h.settingFlag hn hexcl hline)
  | claiming => exact .inr (h.claiming hn hline)
  | unwrapping unwrapped => exact h.unwrapping hexcl hlayout hline
  | disposing left => exact .inr (h.disposing hn hline)
  | clearing done => exact h.clearing hexcl hlayout hline
  | returned =>
    have hstep : s.advance layout i = s := by simp [Disposer.advance, hline]
    rw [hstep]
    exact .inl h

/-- The one set call comes in. -/
theorem Follows.enters_set (h : s.Follows n a) (hn : 0 < n) (hexcl : a.Exclusive)
    (hnone : a.sets = 0) {resources : List δ} (hlength : resources.length = n) :
    (s.enter (.storing 0 resources)).Follows n
      ({ a with sets := a.sets + 1, resources := resources }.enter (.storing resources)) := by
  have hunset := hexcl.unset hnone
  have hstep : s.enter (.storing 0 resources) =
      { s with calls := s.calls + 1 }.goTo a.calls (.storing 0 resources) := by
    rw [← h.calls]
    rfl
  rw [hstep]
  refine h.goTo (i := a.calls) (t := { s with calls := s.calls + 1 })
    (b := { a with sets := a.sets + 1, resources := resources, calls := a.calls + 1 })
    (.storing 0 resources) h.state h.fatalError (congrArg (· + 1) h.calls) h.disposals rfl rfl
    ⟨hn, hlength, fun k hk => absurd hk (by omega)⟩ ?_ ?_
  · intro j _
    refine (h.fits j).congr (fun _ => rfl) id (fun hreading => ?_)
    have hfits := hexcl.fits j
    rw [← h.line j, hreading] at hfits
    simp [Handover.Fits, hunset] at hfits
  · intro _ hset
    simp [hunset] at hset

/-- A dispose call comes in. -/
theorem Follows.enters_dispose (h : s.Follows n a) :
    (s.enter .claiming).Follows n ({ a with disposes := a.disposes + 1 }.enter .claiming) := by
  have hstep : s.enter .claiming = { s with calls := s.calls + 1 }.goTo a.calls .claiming := by
    rw [← h.calls]
    rfl
  rw [hstep]
  refine h.goTo (i := a.calls) (t := { s with calls := s.calls + 1 })
    (b := { a with disposes := a.disposes + 1, calls := a.calls + 1 })
    .claiming h.state h.fatalError (congrArg (· + 1) h.calls) h.disposals rfl rfl
    trivial ?_ h.field
  exact fun j _ => (h.fits j).congr (fun _ => rfl) id (fun _ => rfl)

/-- An input is a step of the handover; a line of a call may be none. -/
theorem Follows.step (h : s.Follows n a) (hn : 0 < n) (hlayout : layout.fields = n)
    (hexcl : a.Exclusive) (i : Input δ) (hi : ∀ r, i = .set r → r.length = n ∧ a.sets = 0) :
    ((∃ call, i = .advance call) ∧ (s.step layout i).Follows n a) ∨
      (s.step layout i).Follows n (a.step i) := by
  have hnofatal : s.fatalError.isSome = false := by simp [h.fatalError]
  have hnoerror : a.error.isSome = false := by simp [hexcl.error_none]
  cases i with
  | set r =>
    obtain ⟨hlength, hnone⟩ := hi r rfl
    have hset := h.enters_set hn hexcl hnone hlength
    exact .inr (by simpa [Disposer.step, Handover.step, hnofatal, hnoerror, hnone] using hset)
  | dispose =>
    have hdispose := h.enters_dispose
    exact .inr (by simpa [Disposer.step, Handover.step, hnofatal, hnoerror] using hdispose)
  | advance call =>
    have hstep : s.step layout (.advance call) = s.advance layout call := by
      simp [Disposer.step, hnofatal]
    have habstract : a.step (.advance call) = a.advance call := by
      simp [Handover.step, hnoerror]
    rw [hstep, habstract]
    exact (h.advance hn hlayout hexcl call).imp_left fun hskip => ⟨⟨call, rfl⟩, hskip⟩

end Disposer

end Mber.Disposables
