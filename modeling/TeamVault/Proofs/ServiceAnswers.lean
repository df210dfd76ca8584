import TeamVault.Proofs.Failures
import TeamVault.Proofs.NothingStored
import Mathlib.Data.List.Forall2

/-!
Success answers of the service. Whatever a success carries, a call reads all of it into values that
fit, or fails with the fault for answers that cannot be understood. A pull alone may end in two more
ways: nothing is stored, or half of a surrogate pair stands in the ciphertext.
-/
namespace TeamVault

theorem Text.Utf8.decode_encode (s : String) : decode? (encode s) = some s := by
  have hv : (⟨⟨encode s⟩⟩ : ByteArray).IsValidUTF8 := s.isValidUTF8
  unfold decode? String.fromUTF8?
  rw [dif_pos hv]
  rfl

namespace Payload

variable {α : Type} {ofFields : Json.Fields → Checked α} {v : Json}

def Fits (ofFields : Json.Fields → Checked α) (v : Json) (a : α) : Prop :=
  ∃ fs, v = .object fs ∧ ofFields fs = .fits a

def FitItems (ofFields : Json.Fields → Checked α) (v : Json) (as : List α) : Prop :=
  ∃ items, v.items? = some items ∧ List.Forall₂ (Fits ofFields) items as

theorem object_of_fields {fs : Json.Fields} (hf : fields v = .ok fs) : v = .object fs := by
  cases v with
  | object gs =>
    cases hf
    rfl
  | _ => cases hf

theorem ok_of_bind {β : Type} {p : Payload α} {f : α → Payload β} {b : β}
    (hb : (p >>= f) = .ok b) : ∃ a, p = .ok a ∧ f a = .ok b := by
  cases p with
  | error e => cases hb
  | ok a => exact ⟨a, rfl, hb⟩

theorem get_eq_ok {fs : Json.Fields} {key : String} :
    get fs key = .ok v ↔ fs.get? key = some v := by
  unfold get
  cases fs.get? key <;> simp

theorem fits_of_record {a : α} (hr : record ofFields v = .ok a) : Fits ofFields v a := by
  cases v with
  | object fs => exact ⟨fs, rfl, ofChecked_eq_ok.1 hr⟩
  | _ => cases hr

theorem forall₂_of_mapM {items : List Json} {as : List α}
    (hm : items.mapM (record ofFields) = .ok as) : List.Forall₂ (Fits ofFields) items as := by
  induction items generalizing as with
  | nil =>
    cases hm
    exact .nil
  | cons v rest ih =>
    rw [List.mapM_cons] at hm
    cases hv : record ofFields v with
    | error x =>
      rw [hv] at hm
      cases hm
    | ok a =>
      rw [hv] at hm
      cases hrest : rest.mapM (record ofFields) with
      | error x =>
        rw [hrest] at hm
        cases hm
      | ok others =>
        rw [hrest] at hm
        cases hm
        exact .cons (fits_of_record hv) (ih hrest)

theorem fitItems_of_records {as : List α} (hr : records ofFields v = .ok as) :
    FitItems ofFields v as := by
  unfold records at hr
  cases hi : v.items? with
  | none =>
    rw [hi] at hr
    cases hr
  | some items =>
    rw [hi] at hr
    exact ⟨items, hi, forall₂_of_mapM hr⟩

end Payload

def Fault.IsInvalidResponse (f : Fault) : Prop :=
  ∃ status details, f.kind = .service status (.text "invalid_response") details

def Reply.carried? (status : Int) (body : Bytes) : Option Json :=
  if status = 204 ∨ body = [] then some .null else Json.ofText? (Text.Utf8.decodeLenient body)

namespace Client

variable {α : Type} (c : Client) {status : Int} (reason : String) (body : Bytes)

theorem reading_cases (hs : status < 400) (method path : String) :
    (∃ v, Reply.carried? status body = some v ∧
      c.reading method path (.answered status reason body) = .ok v) ∨
    ∃ f, c.reading method path (.answered status reason body) = .error f ∧ f.IsInvalidResponse := by
  have hn : ¬ 400 ≤ status := by omega
  unfold reading decode Reply.carried?
  dsimp only
  rw [if_neg hn]
  by_cases he : status = 204 ∨ body = []
  · rw [if_pos he, if_pos he]
    exact .inl ⟨_, rfl, rfl⟩
  · rw [if_neg he, if_neg he]
    cases Json.ofText? (Text.Utf8.decodeLenient body) with
    | some v => exact .inl ⟨v, rfl, rfl⟩
    | none => exact .inr ⟨_, rfl, status, _, rfl⟩

theorem answer_cases (hs : status < 400) (e : Endpoint) (what : String) (p : Json → Payload α) :
    (∃ v a, Reply.carried? status body = some v ∧ p v = .ok a ∧
      c.answer e what p (.answered status reason body) = .ok a) ∨
    ∃ f, c.answer e what p (.answered status reason body) = .error f ∧ f.IsInvalidResponse := by
  unfold answer
  obtain ⟨v, hv, hr⟩ | ⟨f, hr, hf⟩ := reading_cases c reason body hs e.method e.path
  · rw [hr]
    cases hp : p v with
    | ok a => exact .inl ⟨v, a, hv, hp, by simp [bind, Except.bind, hp, Except.mapError]⟩
    | error cause =>
      refine .inr ⟨misunderstood what cause, ?_, 0, noDetails, rfl⟩
      simp [bind, Except.bind, hp, Except.mapError]
  · rw [hr]
    exact .inr ⟨f, rfl, hf⟩

theorem answer_map {β : Type} (e : Endpoint) (what : String) (p : Json → Payload α) (f : α → β)
    (reply : Reply) :
    (c.answer e what p reply).map f = c.answer e what (fun v => (p v).map f) reply := by
  unfold answer
  cases c.reading e.method e.path reply with
  | error x => rfl
  | ok v =>
    show ((p v).mapError (misunderstood what)).map f = ((p v).map f).mapError (misunderstood what)
    cases p v <;> rfl

end Client

inductive ServiceCall : Type → Type
  | push (project : String) (e : Environment) (text : String) (format : SecretFormat)
      (metadata : Json.Fields) : ServiceCall SecretVersion
  | pull (project : String) (e : Environment) : ServiceCall SecretVersion
  | versions (project : String) (e : Environment) : ServiceCall (List VersionInfo)
  | rollback (project id : String) : ServiceCall SecretVersion
  | members (project : String) : ServiceCall (List Recipient)
  | memberKeys (organization : String) : ServiceCall (List Recipient)
  | register (email password name publicKey : String) : ServiceCall (Session × User)
  | login (email password : String) : ServiceCall (Session × User)
  | currentUser : ServiceCall User
  | createOrganization (name description : String) : ServiceCall Organization
  | listOrganizations : ServiceCall (List Organization)
  | getOrganization (id : String) : ServiceCall Organization
  | createProject (organization name slug description : String) : ServiceCall Project
  | listProjects (organization : String) : ServiceCall (List Project)
  | getProject (id : String) : ServiceCall Project

/-- The fields of a version are as the answer tells them, as far as it does. -/
structure SecretVersion.IsToldIn (v : SecretVersion) (project : String) (fs : Json.Fields) :
    Prop where
  id : ∃ d, fs.get? "version_id" = some d ∧ d.text? = some v.versionId
  project : v.projectId = project
  number : ∃ d, fs.get? "version" = some d ∧ Checked.integer d = .fits v.version.1
  counted : 1 ≤ v.version.1
  environment : ∀ d, fs.present? "environment" = some d → d = .text v.environment.name
  size : ∀ d, fs.present? "size_bytes" = some d → Checked.integer d = .fits v.sizeBytes
  author : ∀ d, fs.get? "created_by" = some d → Checked.nullable Checked.text d = .fits v.createdBy
  time : ∀ d, fs.present? "created_at" = some d →
    Checked.nullable Checked.timestamp d = .fits v.createdAt

namespace ServiceCall

variable {α : Type}

def perform (c : Client) : {α : Type} → ServiceCall α → Action α
  | _, push project e text format metadata =>
    VersionStore.push c project e (Text.Utf8.encode text) format metadata
  | _, pull project e => VersionStore.pull c project e
  | _, versions project e => VersionStore.versions c project e
  | _, rollback project id => VersionStore.rollback c project id
  | _, members project => Roster.ofProject c project
  | _, memberKeys organization => Roster.ofOrganization c organization
  | _, register email password name publicKey => c.register email password name publicKey
  | _, login email password => c.login email password
  | _, currentUser => c.currentUser
  | _, createOrganization name description => c.createOrganization name description
  | _, listOrganizations => c.listOrganizations
  | _, getOrganization id => c.getOrganization id
  | _, createProject organization name slug description =>
    c.createProject organization name slug description
  | _, listProjects organization => c.listProjects organization
  | _, getProject id => c.getProject id

def ReadsLogin (v : Json) (a : Session × User) : Prop :=
  ∃ (fs : Json.Fields) (user token : Json), v = .object fs ∧ fs.get? "user" = some user ∧
    Payload.Fits User.ofFields user a.2 ∧ fs.get? "access_token" = some token ∧
    token.text? = some a.1.accessToken ∧ a.1.userId = a.2.id ∧ a.1.email = some a.2.email ∧
    ∀ d, fs.present? "expires_at" = some d →
      Checked.nullable Checked.timestamp d = .fits a.1.expiresAt

def Reads : {α : Type} → ServiceCall α → Json → α → Prop
  | _, push project _ text format metadata, v, a => ∃ fs, v = .object fs ∧ a.IsToldIn project fs ∧
    a.ciphertext = Text.Utf8.encode text ∧ a.format = some format ∧ a.metadata = metadata
  | _, pull project _, v, a => ∃ fs, v = .object fs ∧ a.IsToldIn project fs ∧
    VersionStore.Holds fs a
  | _, versions .., v, a => ∃ entries, a = VersionInfo.newestFirst entries ∧
    ((∀ fs, v ≠ .object fs) ∧ Payload.FitItems VersionInfo.ofFields v entries ∨
      ∃ fs : Json.Fields, v = .object fs ∧
        Payload.FitItems VersionInfo.ofFields (fs.presentOr "versions" (.list [])) entries)
  | _, rollback project _, v, a => ∃ fs, v = .object fs ∧ a.IsToldIn project fs
  | _, members _, v, a => ∃ entries, a = Recipient.firstPerMember entries ∧
    (v.IsBlank ∧ entries = [] ∨ ∃ fs : Json.Fields, v = .object fs ∧
      Payload.FitItems Recipient.ofFields (fs.presentOr "members" (.list [])) entries)
  | _, memberKeys _, v, a => ∃ entries, a = Recipient.firstPerMember entries ∧
    Payload.FitItems Recipient.ofFields v entries
  | _, register .., v, a => ReadsLogin v a
  | _, login .., v, a => ReadsLogin v a
  | _, currentUser, v, a => ∃ fs : Json.Fields, v = .object fs ∧
    Payload.Fits User.ofFields (fs.presentOr "user" v) a
  | _, createOrganization .., v, a => Payload.Fits Organization.ofFields v a
  | _, listOrganizations, v, a => Payload.FitItems Organization.ofFields v a
  | _, getOrganization _, v, a => Payload.Fits Organization.ofFields v a
  | _, createProject .., v, a => Payload.Fits Project.ofFields v a
  | _, listProjects _, v, a => Payload.FitItems Project.ofFields v a
  | _, getProject _, v, a => Payload.Fits Project.ofFields v a

/-- A pull may find nothing stored, or ciphertext with half of a surrogate pair in it. -/
def MayFail : {α : Type} → ServiceCall α → Json → Failure → Prop
  | _, pull .., v, .fault f => v.LacksCiphertext ∧ f.kind = .notFound
  | _, pull .., v, .crash x => x = .undecodable ∧ ∃ (fs : Json.Fields) (codes : List Nat),
    v = .object fs ∧ fs.get? "encrypted_data" = some (.halfText codes)
  | _, _, _, _ => False

def Contained (call : ServiceCall α) (status : Int) (body : Bytes) (r : Except Failure α) : Prop :=
  (∃ v a, Reply.carried? status body = some v ∧ call.Reads v a ∧ r = .ok a) ∨
  (∃ f, r = .error (.fault f) ∧ f.IsInvalidResponse) ∨
  ∃ v x, Reply.carried? status body = some v ∧ call.MayFail v x ∧ r = .error x

end ServiceCall

/-! ### What the decoders take -/

theorem Environment.eq_of_member {v : Json} {e : Environment}
    (hv : Checked.member ofName? v = .fits e) : v = .text e.name := by
  cases v with
  | text s =>
    unfold Checked.member at hv
    dsimp only at hv
    cases hn : ofName? s with
    | none =>
      rw [hn] at hv
      cases hv
    | some e' =>
      rw [hn] at hv
      cases hv
      have hname := List.find?_some hn
      rw [of_decide_eq_true hname]
  | _ => cases hv

theorem Checked.text?_of_fits {v : Json} {s : String} (hv : text v = .fits s) :
    v.text? = some s := by
  unfold text at hv
  cases ht : v.text? with
  | none =>
    rw [ht] at hv
    cases hv
  | some s' =>
    rw [ht] at hv
    cases hv
    rfl

theorem Checked.required_eq_fits {α : Type} {fs : Json.Fields} {key : String}
    {check : Json → Checked α} {a : α} :
    required fs key check = .fits a ↔ ∃ v, fs.get? key = some v ∧ check v = .fits a := by
  unfold required
  cases fs.get? key <;> simp [reject]

theorem Checked.letters_eq_fits {v : Json} {s : Json.Letters} :
    letters v = .fits s ↔ v.letters? = some s := by
  unfold letters
  cases v.letters? <;> simp [reject]

theorem Checked.text?_of_letters {v : Json} {s : Json.Letters} (hv : letters v = .fits s) :
    v.text? = some s.shown := by
  rw [Json.text?, letters_eq_fits.1 hv]
  rfl

theorem Checked.shown_of_nullable {v : Json} {s : String} {address : Option Json.Letters}
    (hs : v.text? = some s) (hv : nullable letters v = .fits address) :
    address.map Json.Letters.shown = some s := by
  cases v with
  | text s' =>
    cases hv
    exact hs
  | halfText codes =>
    cases hv
    exact hs
  | _ => cases hs

theorem VersionNumber.integer_of_fits {v : Json} {n : VersionNumber} (hv : check v = .fits n) :
    Checked.integer v = .fits n.1 := by
  unfold check Checked.andThen at hv
  cases hi : Checked.integer v with
  | fails errors =>
    rw [hi] at hv
    cases hv
  | fits m =>
    rw [hi] at hv
    dsimp only at hv
    split at hv
    · cases hv
      rfl
    · cases hv

theorem Json.presentOr_of_present? {fs : Json.Fields} {key : String} {d : Json}
    (hd : fs.present? key = some d) (other : Json) : fs.presentOr key other = d := by
  rw [Json.Fields.presentOr, hd]
  rfl

namespace VersionStore

variable {project : String} {fs : Json.Fields} {v : SecretVersion}

theorem isToldIn_of_version {environment : Json} {format : Checked (Option SecretFormat)}
    {ciphertext : Bytes} {metadata : Checked Json.Fields} {size : Int}
    (he : ∀ d, fs.present? "environment" = some d → environment = d)
    (hv : version project fs environment format ciphertext metadata size = .ok v) :
    v.IsToldIn project fs := by
  obtain ⟨id, number, hid, hnumber, htext, henv, hcheck, -, -, hsize, hauthor, htime, hproject,
    -⟩ := version_eq_ok.1 hv
  exact {
    id := ⟨id, hid, Checked.text?_of_fits htext⟩
    project := hproject.symm
    number := ⟨number, hnumber, VersionNumber.integer_of_fits hcheck⟩
    counted := v.version.2
    environment := fun d hd => (he d hd).symm.trans (Environment.eq_of_member henv)
    size := fun d hd => by rwa [Json.presentOr_of_present? hd] at hsize
    author := fun d hd => by rwa [Payload.getOrNull, hd] at hauthor
    time := fun d hd => by rwa [Json.presentOr_of_present? hd] at htime }

theorem eq_object_of_fieldsOrNone {j : Json} (hf : fieldsOrNone j = .ok fs) (hne : fs ≠ []) :
    j = .object fs := by
  unfold fieldsOrNone at hf
  split at hf
  · exact Payload.object_of_fields hf
  · cases hf
    exact absurd rfl hne

theorem ne_nil_of_get? {key : String} {d : Json} (hd : fs.get? key = some d) : fs ≠ [] := by
  rintro rfl
  cases hd

theorem reads_of_pushed {e : Environment} {text : String} {format : SecretFormat}
    {metadata : Json.Fields} {j : Json}
    (hp : pushed project e (Text.Utf8.encode text) format metadata j = .ok v) :
    (ServiceCall.push project e text format metadata).Reads j v := by
  unfold pushed at hp
  cases hf : fieldsOrNone j with
  | error x =>
    rw [hf] at hp
    cases hp
  | ok fs =>
    rw [hf] at hp
    change version project fs _ _ _ _ _ = .ok v at hp
    obtain ⟨id, -, hid, -, -, -, -, hformat, hmeta, -, -, -, -, hc⟩ := version_eq_ok.1 hp
    refine ⟨fs, eq_object_of_fieldsOrNone hf (ne_nil_of_get? hid), ?_, hc.symm, ?_, ?_⟩
    · exact isToldIn_of_version (fun d hd => Json.presentOr_of_present? hd _) hp
    · exact (Checked.fits.inj hformat).symm
    · exact (Checked.fits.inj hmeta).symm

theorem reads_of_rolledBack {id : String} {j : Json} (hp : rolledBack project j = .ok v) :
    (ServiceCall.rollback project id).Reads j v := by
  unfold rolledBack at hp
  cases hf : fieldsOrNone j with
  | error x =>
    rw [hf] at hp
    cases hp
  | ok fs =>
    rw [hf] at hp
    cases hid : fs.get? "version_id" with
    | none => simp [bind, Except.bind, Payload.get, hid] at hp
    | some given =>
      cases henv : fs.get? "environment" with
      | none => simp [bind, Except.bind, Payload.get, hid, henv] at hp
      | some environment =>
        simp only [bind, Except.bind, Payload.get, hid, henv] at hp
        refine ⟨fs, eq_object_of_fieldsOrNone hf (ne_nil_of_get? hid), ?_⟩
        refine isToldIn_of_version (fun d hd => ?_) hp
        obtain ⟨hget, -⟩ := Option.filter_eq_some_iff.1 hd
        exact Option.some.inj (henv.symm.trans hget)

theorem object_of_pulled {e : Environment} {j : Json} {x : Pulled} (hp : pulled project e j = x)
    (hx : ∀ cause, x ≠ .misunderstood cause) : ∃ fs, j = .object fs := by
  cases j with
  | object fs => exact ⟨fs, rfl⟩
  | _ => exact absurd hp.symm (hx _)

theorem half_of_unwritable {e : Environment} {j : Json} (hp : pulled project e j = .unwritable) :
    ∃ (fs : Json.Fields) (codes : List Nat), j = .object fs ∧
      fs.get? "encrypted_data" = some (.halfText codes) := by
  obtain ⟨fs, rfl⟩ := object_of_pulled hp nofun
  obtain ⟨cause, hc⟩ | ⟨codes, hd, -⟩ | ⟨v, hv, -⟩ := pulled_cases project e fs
  · rw [hc] at hp
    cases hp
  · exact ⟨fs, codes, rfl, hd⟩
  · rw [hv] at hp
    cases hp

theorem reads_of_pulled {e : Environment} {j : Json} (hp : pulled project e j = .understood v) :
    (ServiceCall.pull project e).Reads j v := by
  obtain ⟨fs, rfl⟩ := object_of_pulled hp nofun
  obtain ⟨cause, hc⟩ | ⟨codes, -, hc⟩ | ⟨u, hu, hholds⟩ := pulled_cases project e fs
  · rw [hc] at hp
    cases hp
  · rw [hc] at hp
    cases hp
  obtain rfl : u = v := Pulled.understood.inj (hu.symm.trans hp)
  refine ⟨fs, rfl, ?_, hholds⟩
  obtain ⟨text, hd, -⟩ := hholds.ciphertext
  unfold pulled at hp
  simp only [bind, Except.bind, pure, Except.pure, Payload.fields, Payload.get, hd] at hp
  split at hp
  next version hv =>
    cases hp
    exact isToldIn_of_version (fun d hd => Json.presentOr_of_present? hd _) hv
  · cases hp

theorem reads_of_history {e : Environment} {newest : List VersionInfo} {j : Json}
    (hn : (history j).map VersionInfo.newestFirst = .ok newest) :
    (ServiceCall.versions project e).Reads j newest := by
  cases hh : history j with
  | error x =>
    rw [hh] at hn
    cases hn
  | ok entries =>
  rw [hh] at hn
  cases hn
  refine ⟨entries, rfl, ?_⟩
  have hfit := Payload.fitItems_of_records hh
  cases j with
  | object fs => exact .inr ⟨fs, rfl, hfit⟩
  | _ => exact .inl ⟨nofun, hfit⟩

end VersionStore

theorem Roster.reads_of_decode {project : String} {members : List Recipient} {j : Json}
    (hd : decode j = .ok members) : (ServiceCall.members project).Reads j members := by
  rw [decode_eq] at hd
  cases he : entries j with
  | error x =>
    rw [he] at hd
    cases hd
  | ok es =>
    rw [he] at hd
    cases hd
    refine ⟨es, rfl, ?_⟩
    unfold entries at he
    by_cases hp : j.isPresent = true
    · rw [if_pos hp] at he
      cases hf : Payload.fields j with
      | error x =>
        rw [hf] at he
        cases he
      | ok fs =>
        rw [hf] at he
        exact .inr ⟨fs, Payload.object_of_fields hf, Payload.fitItems_of_records he⟩
    · rw [if_neg hp] at he
      cases he
      exact .inl ⟨Json.isBlank_iff.2 (by simpa using hp), rfl⟩

theorem Roster.reads_of_keys {organization : String} {members : List Recipient} {j : Json}
    (hm : (do
      return Recipient.firstPerMember (← Payload.records Recipient.ofFields j)) = .ok members) :
    (ServiceCall.memberKeys organization).Reads j members := by
  cases hr : Payload.records Recipient.ofFields j with
  | error x =>
    rw [hr] at hm
    cases hm
  | ok entries =>
    rw [hr] at hm
    cases hm
    exact ⟨entries, rfl, Payload.fitItems_of_records hr⟩

namespace Client

theorem authResult_eq_ok {a : Session × User} {j : Json} (ha : authResult j = .ok a) :
    ∃ (fs told : Json.Fields) (token : Json), j = .object fs ∧
      fs.get? "user" = some (.object told) ∧ User.ofFields told = .fits a.2 ∧
      fs.get? "access_token" = some token ∧
      Session.ofFields [("access_token", token), ("user_id", Payload.getOrNull told "id"),
        ("email", Payload.getOrNull told "email"),
        ("expires_at", Json.Fields.presentOr fs "expires_at" .null)] = .fits a.1 := by
  obtain ⟨fs, hf, hbody⟩ := Payload.ok_of_bind ha
  obtain ⟨given, hgiven, hbody⟩ := Payload.ok_of_bind hbody
  obtain ⟨told, htold, hbody⟩ := Payload.ok_of_bind hbody
  obtain ⟨user, huser, hbody⟩ := Payload.ok_of_bind hbody
  obtain ⟨token, htoken, hbody⟩ := Payload.ok_of_bind hbody
  obtain ⟨x, hx, hend⟩ := Payload.ok_of_bind hbody
  cases hend
  obtain rfl := Payload.object_of_fields htold
  exact ⟨fs, told, token, Payload.object_of_fields hf, Payload.get_eq_ok.1 hgiven,
    Payload.ofChecked_eq_ok.1 huser, Payload.get_eq_ok.1 htoken, Payload.ofChecked_eq_ok.1 hx⟩

theorem session_of_fits {token user email expiry : Json} {x : Session}
    (hx : Session.ofFields [("access_token", token), ("user_id", user), ("email", email),
      ("expires_at", expiry)] = .fits x) :
    Checked.letters token = .fits x.token ∧ Checked.letters user = .fits x.user ∧
      Checked.nullable Checked.letters email = .fits x.address ∧
      Checked.nullable Checked.timestamp expiry = .fits x.expiresAt := by
  unfold Session.ofFields Checked.required Checked.withDefault at hx
  simp [Json.Fields.get?, List.lookup_cons] at hx
  obtain ⟨s, u, e, ⟨htoken, hid, hemail⟩, t, htime, rfl⟩ := hx
  exact ⟨htoken, hid, hemail, htime⟩

theorem user_of_fits {told : Json.Fields} {user : User} (hu : User.ofFields told = .fits user) :
    (Payload.getOrNull told "id").text? = some user.id ∧
      (Payload.getOrNull told "email").text? = some user.email := by
  unfold User.ofFields at hu
  simp only [Checked.seq_eq_fits, Checked.map_eq_fits, Checked.required_eq_fits, ↓existsAndEq,
    and_true] at hu
  obtain ⟨_, _, _, _, _, ⟨⟨⟨⟨d, hd, hid⟩, e, he, hemail⟩, -⟩, -⟩, -, rfl⟩ := hu
  rw [Payload.getOrNull, Payload.getOrNull, hd, he]
  exact ⟨Checked.text?_of_fits hid, Checked.text?_of_fits hemail⟩

theorem readsLogin_of_authResult {a : Session × User} {j : Json} (ha : authResult j = .ok a) :
    ServiceCall.ReadsLogin j a := by
  obtain ⟨fs, told, token, hj, hgiven, huser, htoken, hx⟩ := authResult_eq_ok ha
  obtain ⟨hid, hemail⟩ := user_of_fits huser
  obtain ⟨hbearer, hown, haddress, htime⟩ := session_of_fits hx
  refine ⟨fs, .object told, token, hj, hgiven, ⟨told, rfl, huser⟩, htoken,
    Checked.text?_of_letters hbearer, ?_, ?_, fun d hd => ?_⟩
  · exact Option.some.inj ((Checked.text?_of_letters hown).symm.trans hid)
  · exact Checked.shown_of_nullable hemail haddress
  · rwa [Json.presentOr_of_present? hd] at htime

theorem reads_of_currentUser {user : User} {j : Json}
    (hu : (do
      let fs ← Payload.fields j
      Payload.record User.ofFields (Json.Fields.presentOr fs "user" j)) = .ok user) :
    ServiceCall.currentUser.Reads j user := by
  cases hf : Payload.fields j with
  | error x =>
    rw [hf] at hu
    cases hu
  | ok fs =>
    rw [hf] at hu
    exact ⟨fs, Payload.object_of_fields hf, Payload.fits_of_record hu⟩

end Client

/-! ### Every call -/

namespace ServiceCall

variable {α : Type} {c : Client} {h : Host} {w : World}

/-- A call is one request, and it ends well whichever success is the answer. -/
def EndsContained (c : Client) (call : ServiceCall α) (h : Host) (w : World) : Prop :=
  ∃ q, (call.perform c h w).2 = w.sent q ∧ ∀ status reason body,
    h.respond w.events q = .answered status reason body → status < 400 →
      call.Contained status body (call.perform c h w).1

theorem endsContained_of_answer {call : ServiceCall α} {e : Endpoint} {what : String}
    {p : Json → Payload α} {q : Request} (hp : ∀ v a, p v = .ok a → call.Reads v a)
    (ha : call.perform c h w =
      ((c.answer e what p (h.respond w.events q)).mapError .fault, w.sent q)) :
    call.EndsContained c h w := by
  refine ⟨q, by rw [ha], fun status reason body hr hs => ?_⟩
  rw [ha, hr]
  obtain ⟨v, a, hv, hread, hok⟩ | ⟨x, herror, hx⟩ :=
    Client.answer_cases c reason body hs e what p
  · rw [hok]
    exact .inl ⟨v, a, hv, hp v a hread, rfl⟩
  · rw [herror]
    exact .inr (.inl ⟨x, rfl, hx⟩)

theorem endsContained_of_ask {call : ServiceCall α} {e : Endpoint} {body params : Option Json}
    {what : String} {p : Json → Payload α} (hp : ∀ v a, p v = .ok a → call.Reads v a)
    (ha : call.perform c = c.call e body params >>= fun v => Client.understand what (p v)) :
    call.EndsContained c h w :=
  endsContained_of_answer hp (by rw [ha, Client.ask_apply])

theorem pull_endsContained (project : String) (e : Environment) :
    (pull project e).EndsContained c h w := by
  refine ⟨VersionStore.question c project e, ?_, fun status reason body hr hs => ?_⟩
  · rw [perform, VersionStore.pull_apply]
  rw [perform, VersionStore.pull_apply, hr]
  unfold VersionStore.told
  obtain ⟨v, hv, hread⟩ | ⟨x, hread, hx⟩ := Client.reading_cases c reason body hs
    (Endpoint.method (.pullSecrets project)) (Endpoint.path (.pullSecrets project))
  · rw [hread]
    show Contained _ _ _ (VersionStore.latest project e v)
    unfold VersionStore.latest
    by_cases hn : VersionStore.holdsNothing v = true
    · rw [if_pos hn]
      have hlacks : v.LacksCiphertext := VersionStore.holdsNothing_iff.1 hn
      exact .inr (.inr ⟨v, .fault _, hv, And.intro hlacks rfl, rfl⟩)
    · rw [if_neg hn]
      cases hp : VersionStore.pulled project e v with
      | understood version => exact .inl ⟨v, version, hv, VersionStore.reads_of_pulled hp, rfl⟩
      | misunderstood cause => exact .inr (.inl ⟨_, rfl, 0, Client.noDetails, rfl⟩)
      | unwritable =>
        have hhalf := VersionStore.half_of_unwritable hp
        exact .inr (.inr ⟨v, .crash .undecodable, hv, And.intro rfl hhalf, rfl⟩)
  · rw [hread]
    exact .inr (.inl ⟨x, rfl, hx⟩)

/-- Every call ends well, whichever success is the answer: it yields what the answer tells, fitting
and complete, or fails with the fault for answers that cannot be understood. A pull may find nothing
stored or ciphertext with half of a surrogate pair in it; there is no other way to fail. -/
theorem contains_answer (c : Client) (call : ServiceCall α) (h : Host) (w : World) :
    call.EndsContained c h w := by
  cases call with
  | push project e text format metadata =>
    have hp := VersionStore.push_of_text c project e h w format metadata
      (Text.Utf8.decode_encode text)
    exact endsContained_of_answer (fun v a => VersionStore.reads_of_pushed) hp
  | pull project e => exact pull_endsContained project e
  | versions project e =>
    have hv := VersionStore.versions_apply c project e h w
    rw [Client.answer_map] at hv
    exact endsContained_of_answer (fun v entries => VersionStore.reads_of_history) hv
  | rollback project id =>
    exact endsContained_of_ask (fun v a => VersionStore.reads_of_rolledBack) rfl
  | members project => exact endsContained_of_ask (fun v a => Roster.reads_of_decode) rfl
  | memberKeys organization =>
    exact endsContained_of_ask (fun v members => Roster.reads_of_keys) rfl
  | register email password name publicKey =>
    exact endsContained_of_ask (fun v a => Client.readsLogin_of_authResult) rfl
  | login email password =>
    exact endsContained_of_ask (fun v a => Client.readsLogin_of_authResult) rfl
  | currentUser => exact endsContained_of_ask (fun v a => Client.reads_of_currentUser) rfl
  | createOrganization name description =>
    exact endsContained_of_ask (fun v a => Payload.fits_of_record) rfl
  | listOrganizations => exact endsContained_of_ask (fun v a => Payload.fitItems_of_records) rfl
  | getOrganization id => exact endsContained_of_ask (fun v a => Payload.fits_of_record) rfl
  | createProject organization name slug description =>
    exact endsContained_of_ask (fun v a => Payload.fits_of_record) rfl
  | listProjects organization =>
    exact endsContained_of_ask (fun v a => Payload.fitItems_of_records) rfl
  | getProject id => exact endsContained_of_ask (fun v a => Payload.fits_of_record) rfl

/-- The last way is taken: a success with half of a surrogate pair ends a pull with no fault. -/
theorem half_surrogate_escapes :
    (∃ reason body, Secrets.halfHost.respond Desk.world.events
        (VersionStore.question Desk.client "p" .development) = .answered 200 reason body) ∧
      ((pull "p" .development).perform Desk.client Secrets.halfHost Desk.world).1 =
        .error (.crash .undecodable) := by
  have hpull : Secrets.isUndecodable
      ((pull "p" .development).perform Desk.client Secrets.halfHost Desk.world).1 = true := by
    decide +kernel
  exact ⟨⟨_, _, rfl⟩, Secrets.eq_of_isUndecodable hpull⟩

end ServiceCall

end TeamVault
