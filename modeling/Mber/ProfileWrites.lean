import Mber.AuthManager
import Mber.Runs

/-!
Profile writes and the accounts they belong to. A write is issued when the
main queue runs the callback of a successful `createUser`; its path and uid
are those of whoever is signed in at that moment. With nobody signed in there
is no document to write to, and the app aborts. The writes of a run all go to
the accounts that their own attempts created, exactly when no such callback
runs while somebody else is signed in.
-/
namespace Mber.ProfileWrites

open AuthManager Firebase Firestore Runs

variable {κ : Type*}

/-- The write goes to the document of the created account and names its uid. -/
structure Owned (w : SetData κ) : Prop where
  document_eq : document ["users"] w.created.value = some w.document
  uid_eq : w.docData.uid = w.created.value
  nonempty : w.docData.uid ≠ ""

/-- When the callback of a successful `createUser` runs, nobody is signed in
under a uid that names a document, but for the account that it created. -/
def NobodyElseSignedIn (s : Service κ) : Input κ → Prop
  | .runMain => s.aborted = false → ∀ observer values created rest,
      s.auth.mainQueue = (.createUser observer values, .ok created) :: rest →
        ∀ uid, s.auth.currentUser = some uid → (document ["users"] uid.value).isSome →
          uid = created
  | _ => True

/-- The writes that a step issues. -/
def newWrites (s : Service κ) : Input κ → List (SetData κ)
  | .runMain => if s.aborted then [] else s.issued
  | _ => []

theorem writes_step (s : Service κ) (i : Input κ) :
    (s.step i).writes = s.writes ++ newWrites s i := by
  unfold Service.step
  cases haborted : s.aborted with
  | true => cases i <;> simp [newWrites, haborted]
  | false =>
    cases i with
    | runMain => simp [Service.runningStep, Service.runMain, newWrites, haborted]
    | performLogin observer email password => exact (List.append_nil _).symm
    | performRegistration observer values => exact (List.append_nil _).symm
    | doLogout saved => exact (List.append_nil _).symm
    | respond index verdict => exact (List.append_nil _).symm
    | setDataResponse index ok =>
      simp only [Service.runningStep, Service.setDataResponse, newWrites, List.append_nil]
      cases s.writing[index]? <;> rfl

/-- What is saved is the created account's own, unless somebody else is signed in. -/
theorem saveInfoToFirestore_owned_iff (currentUser : Option Uid) (observer : κ)
    (values : Register) (created : Uid) :
    (∀ w ∈ saveInfoToFirestore currentUser values, Owned ⟨observer, created, w.1, w.2⟩) ↔
      ∀ uid, currentUser = some uid → (document ["users"] uid.value).isSome → uid = created := by
  cases currentUser with
  | none => simp
  | some user =>
    have hsaved : saveInfoToFirestore (some user) values =
        (document ["users"] user.value).map fun path =>
          (path, ⟨values.email, values.fullName, values.userType, user.value⟩) := rfl
    cases hpath : document ["users"] user.value with
    | none =>
      rw [hsaved, hpath]
      simp [hpath]
    | some path =>
      rw [hsaved, hpath]
      constructor
      · intro h uid huser hsome
        obtain rfl : user = uid := by simpa using huser
        have howned := (h _ rfl).uid_eq
        obtain ⟨value, hvalue⟩ := user
        obtain ⟨value', hvalue'⟩ := created
        simpa using howned
      · intro h w hw
        obtain rfl := h user rfl (by simp [hpath])
        obtain rfl := Option.some.inj hw
        exact ⟨hpath, rfl, user.nonempty⟩

/-- The write that a step issues is owned exactly when nobody else is signed in. -/
theorem newWrites_owned_iff (s : Service κ) (i : Input κ) :
    (∀ w ∈ newWrites s i, Owned w) ↔ NobodyElseSignedIn s i := by
  cases i with
  | runMain =>
    cases haborted : s.aborted with
    | true => simp [newWrites, NobodyElseSignedIn, haborted]
    | false =>
      simp only [newWrites, NobodyElseSignedIn, haborted, Bool.false_eq_true, if_false,
        true_implies]
      constructor
      · intro h observer values created rest hqueue
        refine (saveInfoToFirestore_owned_iff _ observer values created).mp ?_
        intro w hw
        exact h _ (Service.mem_issued.mpr ⟨observer, values, created, rest, hqueue, w, hw, rfl⟩)
      · intro h w hw
        obtain ⟨observer, values, created, rest, hqueue, w', hw', rfl⟩ := Service.mem_issued.mp hw
        exact (saveInfoToFirestore_owned_iff _ observer values created).mpr
          (h observer values created rest hqueue) w' hw'
  | performLogin observer email password => simp [newWrites, NobodyElseSignedIn]
  | performRegistration observer values => simp [newWrites, NobodyElseSignedIn]
  | doLogout saved => simp [newWrites, NobodyElseSignedIn]
  | respond index verdict => simp [newWrites, NobodyElseSignedIn]
  | setDataResponse index ok => simp [newWrites, NobodyElseSignedIn]

def HasAccount (d : Directory) (email : String) (uid : Uid) : Prop :=
  ∃ a ∈ d.accounts, a.email = email ∧ a.uid = uid

theorem serve_accounts (d : Directory) (r : AuthRequest) (v : Verdict) {a : Account}
    (h : a ∈ d.accounts) : a ∈ (d.serve r v).1.accounts := by
  cases r with
  | signIn email password => rwa [(d.serve_signIn email password v).1]
  | createUser email password =>
    rcases d.serve_createUser_cases email password v with ⟨error, hfailed⟩ | ⟨uid, hmade, -⟩
    · rwa [hfailed]
    · rw [hmade.accounts]
      exact List.mem_append_left _ h

theorem createUser_ok (d : Directory) (email password : String) (v : Verdict) {uid : Uid}
    (h : (d.serve (.createUser email password) v).2 = .ok uid) :
    ⟨email, password, uid⟩ ∈ (d.serve (.createUser email password) v).1.accounts := by
  rcases d.serve_createUser_cases email password v with
    ⟨error, hfailed⟩ | ⟨u, hmade, hok | ⟨error, hfailed⟩⟩
  · simp [hfailed] at h
  · obtain rfl : u = uid := by simpa [hok] using h
    rw [hmade.accounts]
    exact List.mem_append_right _ (List.mem_singleton_self _)
  · simp [hfailed] at h

/-- Requests carry the values of their closures; a queued success and an issued
write name an account of the directory with the attempt's own email. -/
structure Created (s : Service κ) : Prop where
  inFlight : ∀ observer values r, (.createUser observer values, r) ∈ s.auth.inFlight →
    r = .createUser values.email values.password
  queued : ∀ observer values uid, (.createUser observer values, .ok uid) ∈ s.auth.mainQueue →
    HasAccount s.auth.directory values.email uid
  writes : ∀ w ∈ s.writes, HasAccount s.auth.directory w.docData.email w.created

variable {s : Service κ}

theorem HasAccount.serve {d : Directory} {email : String} {uid : Uid} (h : HasAccount d email uid)
    (r : AuthRequest) (v : Verdict) : HasAccount (d.serve r v).1 email uid := by
  obtain ⟨a, ha, hemail, huid⟩ := h
  exact ⟨a, serve_accounts d r v ha, hemail, huid⟩

theorem created_respond (h : Created s) (index : ℕ) (v : Verdict) :
    Created (s.respond index v) := by
  simp only [Service.respond, FirebaseAuth.respond]
  cases hget : s.auth.inFlight[index]? with
  | none => exact h
  | some e =>
    obtain ⟨closure, r⟩ := e
    refine ⟨?_, ?_, fun w hw => (h.writes w hw).serve r v⟩
    · exact fun observer values r hr => h.inFlight observer values r (List.mem_of_mem_eraseIdx hr)
    · intro observer values uid hmem
      simp only [List.mem_append, List.mem_singleton, Prod.mk.injEq] at hmem
      rcases hmem with hmem | ⟨rfl, hok⟩
      · exact (h.queued observer values uid hmem).serve r v
      · obtain rfl := h.inFlight observer values r (List.mem_of_getElem? hget)
        exact ⟨_, createUser_ok s.auth.directory _ _ v hok.symm, rfl, rfl⟩

theorem created_runMain (h : Created s) : Created s.runMain := by
  refine ⟨h.inFlight, fun observer values uid hmem =>
    h.queued observer values uid (List.mem_of_mem_tail hmem), ?_⟩
  intro w hw
  rcases List.mem_append.mp hw with hw | hw
  · exact h.writes w hw
  · obtain ⟨observer, values, created, rest, hqueue, write, hwrite, rfl⟩ :=
      Service.mem_issued.mp hw
    simp only [saveInfoToFirestore_email hwrite]
    exact h.queued observer values created (by rw [hqueue]; exact List.mem_cons_self)

theorem created_runningStep (h : Created s) (i : Input κ) : Created (s.runningStep i) := by
  cases i with
  | performLogin observer email password =>
    refine ⟨fun k values r hr => ?_, h.queued, h.writes⟩
    simp only [Service.runningStep, Service.performLogin, FirebaseAuth.request, List.mem_append,
      List.mem_singleton, Prod.mk.injEq, reduceCtorEq, false_and, or_false] at hr
    exact h.inFlight k values r hr
  | performRegistration observer values =>
    refine ⟨fun k other r hr => ?_, h.queued, h.writes⟩
    simp only [Service.runningStep, Service.performRegistration, FirebaseAuth.request,
      List.mem_append, List.mem_singleton, Prod.mk.injEq, Callback.createUser.injEq] at hr
    rcases hr with hr | ⟨⟨rfl, rfl⟩, rfl⟩
    · exact h.inFlight k other r hr
    · rfl
  | doLogout saved =>
    rcases s.auth.signOut_cases saved with ⟨hauth, -⟩ | ⟨hauth, -⟩
    · simp only [Service.runningStep, Service.doLogout, hauth]
      exact ⟨h.inFlight, h.queued, h.writes⟩
    · simpa only [Service.runningStep, Service.doLogout, hauth] using h
  | respond index verdict => exact created_respond h index verdict
  | runMain => exact created_runMain h
  | setDataResponse index ok =>
    simp only [Service.runningStep, Service.setDataResponse]
    split
    · exact h
    · exact ⟨h.inFlight, h.queued, h.writes⟩

theorem created_step (h : Created s) (i : Input κ) : Created (s.step i) := by
  unfold Service.step
  split
  · exact h
  · exact created_runningStep h i

/-- From an idle service, every write of a run goes to the non-empty document
of the account that its attempt created, exactly when nobody else is signed in
as the callback of such an attempt runs. -/
theorem writes_owned_iff (directory : Directory) (currentUser : Option Uid)
    (documents : ResourcePath → Option ProfileDocument) (inputs : List (Input κ)) :
    (∀ w ∈ (run Service.step (Service.idle directory currentUser documents) inputs).writes,
        HasAccount (run Service.step (Service.idle directory currentUser documents)
          inputs).auth.directory w.docData.email w.created ∧ Owned w) ↔
      EveryStep Service.step NobodyElseSignedIn
        (Service.idle directory currentUser documents) inputs := by
  have hcreated := run_invariant Created (fun s i h => created_step h i)
    (Service.idle directory currentUser documents) inputs
    ⟨by simp [Service.idle], by simp [Service.idle], by simp [Service.idle]⟩
  have hlog := forall_log_iff Service.writes newWrites writes_step
    Owned (Service.idle directory currentUser documents) inputs
  rw [← everyStep_congr newWrites_owned_iff]
  constructor
  · exact fun h => (hlog.mp fun w hw => (h w hw).2).2
  · intro h w hw
    exact ⟨hcreated.writes w hw, hlog.mpr ⟨by simp [Service.idle], h⟩ w hw⟩

def bob : Register := ⟨"bob@mail.com", "Bob", "Driver", "password2"⟩

/-- Two attempts: both accounts are created before the first callback runs, and
that callback writes Ann's profile over Bob's document. -/
theorem write_misdirected :
    ¬ ∀ w ∈ (run Service.step (Service.idle Directory.empty none (fun _ => none))
        [.performRegistration () ann, .performRegistration () bob,
          .respond 0 (.accept ⟨"ann", by decide⟩), .respond 0 (.accept ⟨"bob", by decide⟩),
          .runMain]).writes, Owned w := by
  intro h
  have howned := h _ List.mem_cons_self
  have huid : "bob" = "ann" := howned.uid_eq
  simp at huid

end Mber.ProfileWrites
