import TeamVault.Proofs.SecretsCourse

/-!
A service that keeps the versions of an environment. An accepted post becomes the version with the
next number, and what is told is the last version. From this follows how a push ends and what a pull
yields.
-/
namespace TeamVault

namespace Checked

variable {α β : Type} {f : Checked (α → β)} {x : Checked α} {a : α} {b : β}

@[simp] theorem seq_eq_fits : f <*> x = .fits b ↔ ∃ g c, f = .fits g ∧ x = .fits c ∧ g c = b := by
  show both f x = .fits b ↔ _
  cases f <;> cases x <;> simp [both]

@[simp] theorem map_eq_fits {g : α → β} : g <$> x = .fits b ↔ ∃ c, x = .fits c ∧ g c = b := by
  show map g x = .fits b ↔ _
  cases x <;> simp [map]

@[simp] theorem pure_eq_fits {c : α} : (pure c : Checked α) = .fits a ↔ c = a :=
  ⟨fits.inj, congrArg fits⟩

@[simp] theorem under_eq_fits {p : Place} : under p x = .fits a ↔ x = .fits a := by
  cases x <;> simp [under]

end Checked

namespace Reply

def IsRefusal : Reply → Prop
  | failed _ => True
  | answered status _ _ => 400 ≤ status

def Tells (r : Reply) (fs : Json.Fields) : Prop :=
  ∃ status reason body, r = .answered status reason body ∧ status < 400 ∧ status ≠ 204 ∧
    body ≠ [] ∧ Json.ofText? (Text.Utf8.decodeLenient body) = some (.object fs)

variable {r : Reply} {fs : Json.Fields}

theorem IsRefusal.reading_eq (hr : r.IsRefusal) (c : Client) (method path : String) :
    ∃ f, c.reading method path r = .error f := by
  cases r with
  | failed text => exact ⟨_, rfl⟩
  | answered status reason body => exact ⟨_, if_pos hr⟩

theorem Tells.reading_eq (hr : r.Tells fs) (c : Client) (method path : String) :
    c.reading method path r = .ok (.object fs) := by
  obtain ⟨status, reason, body, rfl, hs, hn, hb, hj⟩ := hr
  rw [Client.reading, Client.decode, if_neg (by omega), if_neg (by simp [hn, hb]), hj]

theorem Tells.unique {fs' : Json.Fields} (hr : r.Tells fs) (hr' : r.Tells fs') : fs = fs' := by
  obtain ⟨status, reason, body, rfl, -, -, -, hj⟩ := hr
  obtain ⟨_, _, _, he, -, -, -, hj'⟩ := hr'
  cases he
  rw [hj] at hj'
  cases hj'
  rfl

theorem tells_of_reading {c : Client} {method path : String}
    (hr : c.reading method path r = .ok (.object fs)) : r.Tells fs := by
  cases r with
  | failed text => cases hr
  | answered status reason body =>
    change Client.decode method path status reason body = .ok (.object fs) at hr
    unfold Client.decode at hr
    split at hr
    · cases hr
    next hs =>
      split at hr
      · cases hr
      next hn =>
        split at hr
        next v hj =>
          cases hr
          rw [not_or] at hn
          exact ⟨status, reason, body, rfl, Int.not_le.1 hs, hn.1, hn.2, hj⟩
        · cases hr

end Reply

structure StoredVersion where
  number : Int
  body : Json.Fields

namespace StoredVersion

def nextNumber (versions : List StoredVersion) : Int :=
  (versions.map number).foldl max 0 + 1

theorem one_le_nextNumber (versions : List StoredVersion) : 1 ≤ nextNumber versions := by
  have hm : ∀ (ns : List Int) (n : Int), n ≤ ns.foldl max n := by
    intro ns
    induction ns with
    | nil => exact Int.le_refl
    | cons k rest ih => exact fun n => Int.le_trans (Int.le_max_left n k) (ih (max n k))
  have hgreatest := hm (versions.map number) 0
  unfold nextNumber
  omega

end StoredVersion

structure IsReceipt (e : Environment) (number : Int) (fs : Json.Fields) : Prop where
  id : ∃ id, fs.get? "version_id" = some (.text id)
  version : fs.get? "version" = some (.int number)
  environment : ∀ v, fs.present? "environment" = some v → v = .text e.name
  size : ∀ v, fs.present? "size_bytes" = some v → ∃ n, v = .int n
  author : ∀ v, fs.get? "created_by" = some v → v = .null ∨ ∃ name, v = .text name
  time : ∀ v, fs.present? "created_at" = some v → ∃ t, Checked.timestamp v = .fits t

/-- The service keeps a list of versions, which only grows. -/
structure KeepsVersions (h : Host) (c : Client) (project : String) (e : Environment)
    (versions : List Event → List StoredVersion) : Prop where
  /-- A post is refused, or what it carries is the next version. -/
  post : ∀ es (r : Request.Sent) (body : Json.Fields), r.IsTo c (.pushSecrets project) →
    r.body = some (.object body) → body.get? "environment" = some (.text e.name) →
    (h.respond es r.toRequest).IsRefusal ∧ versions (es ++ [.request r]) = versions es ∨
    (∃ fs, (h.respond es r.toRequest).Tells fs ∧
        IsReceipt e (StoredVersion.nextNumber (versions es)) fs) ∧
      versions (es ++ [.request r]) =
        versions es ++ [⟨StoredVersion.nextNumber (versions es), body⟩]
  /-- A question is refused, or the last version is told. -/
  get : ∀ es (r : Request), r.IsTo c (.pullSecrets project) →
    r.params = VersionStore.inEnvironment e →
    (h.respond es r).IsRefusal ∨
    ∃ last fs, (versions es).getLast? = some last ∧ (h.respond es r).Tells fs ∧
      fs.get? "version" = some (.int last.number) ∧
      fs.get? "encrypted_data" = last.body.get? "encrypted_data" ∧
      fs.get? "format" = last.body.get? "format"
  read : ∀ es d, d.IsRead → versions (es ++ [d]) = versions es

theorem Payload.ofChecked_eq_ok {α : Type} {x : Checked α} {a : α} :
    Payload.ofChecked x = .ok a ↔ x = .fits a := by
  cases x <;> simp [Payload.ofChecked]

namespace VersionStore

variable {c d : Client} {project : String} {e : Environment} {fs : Json.Fields}
  {format : SecretFormat} {h : Host} {w : World}

theorem version_eq_ok {environment : Json} {format : Checked (Option SecretFormat)}
    {ciphertext : Bytes} {metadata : Checked Json.Fields} {size : Int} {v : SecretVersion} :
    version project fs environment format ciphertext metadata size = .ok v ↔
      ∃ id number, fs.get? "version_id" = some id ∧ fs.get? "version" = some number ∧
        Checked.text id = .fits v.versionId ∧
        Checked.member Environment.ofName? environment = .fits v.environment ∧
        VersionNumber.check number = .fits v.version ∧ format = .fits v.format ∧
        metadata = .fits v.metadata ∧
        Checked.integer (fs.presentOr "size_bytes" (.int size)) = .fits v.sizeBytes ∧
        Checked.nullable Checked.text (Payload.getOrNull fs "created_by") = .fits v.createdBy ∧
        Checked.nullable Checked.timestamp (fs.presentOr "created_at" .null) =
          .fits v.createdAt ∧
        project = v.projectId ∧ ciphertext = v.ciphertext := by
  unfold version Payload.get
  cases fs.get? "version_id" with
  | none => exact ⟨nofun, nofun⟩
  | some id =>
    cases fs.get? "version" with
    | none => exact ⟨nofun, nofun⟩
    | some number =>
      obtain ⟨⟩ := v
      change Payload.ofChecked _ = _ ↔ _
      simp only [Payload.ofChecked_eq_ok, Checked.seq_eq_fits, Checked.map_eq_fits,
        Checked.under_eq_fits, Checked.pure_eq_fits, ↓existsAndEq, exists_and_left,
        exists_exists_and_eq_and, exists_exists_and_exists_and_eq_and, exists_eq_left', true_and,
        and_true, and_assoc, SecretVersion.mk.injEq, Option.some.injEq]

theorem presentOr_cases (fs : Json.Fields) (key : String) (other : Json) :
    fs.presentOr key other = other ∨
      ∃ v, fs.present? key = some v ∧ fs.presentOr key other = v := by
  unfold Json.Fields.presentOr
  cases fs.present? key with
  | none => exact .inl rfl
  | some v => exact .inr ⟨v, rfl, rfl⟩

theorem nullable_of_fits {α : Type} {check : Json → Checked α} {v : Json} {a : α}
    (hv : check v = .fits a) : ∃ x, Checked.nullable check v = .fits x := by
  cases v with
  | null => exact ⟨none, rfl⟩
  | _ => exact ⟨some a, congrArg (Checked.map some) hv⟩

theorem pushed_of_receipt {number : Int} (hr : IsReceipt e number fs) (hn : 1 ≤ number)
    (ciphertext : Bytes) (metadata : Json.Fields) :
    ∃ v, pushed project e ciphertext format metadata (.object fs) = .ok v := by
  obtain ⟨id, hid⟩ := hr.id
  have hfs : fieldsOrNone (.object fs) = .ok fs := by
    have hne : fs ≠ [] := by
      rintro rfl
      cases hid
    simp [fieldsOrNone, Json.isPresent, hne, Payload.fields]
  have henv : Checked.member Environment.ofName? (fs.presentOr "environment" (.text e.name)) =
      .fits e := by
    have hv : fs.presentOr "environment" (.text e.name) = .text e.name := by
      obtain hv | ⟨v, hp, hv⟩ := presentOr_cases fs "environment" (.text e.name)
      · exact hv
      · exact hv.trans (hr.environment v hp)
    rw [hv, Checked.member, Environment.ofName?_name]
  obtain ⟨size, hsize⟩ : ∃ n,
      Checked.integer (fs.presentOr "size_bytes" (.int ciphertext.length)) = .fits n := by
    obtain hv | ⟨v, hp, hv⟩ := presentOr_cases fs "size_bytes" (.int ciphertext.length)
    · exact ⟨_, congrArg Checked.integer hv⟩
    · obtain ⟨n, rfl⟩ := hr.size v hp
      exact ⟨n, congrArg Checked.integer hv⟩
  obtain ⟨author, hauthor⟩ : ∃ x,
      Checked.nullable Checked.text (Payload.getOrNull fs "created_by") = .fits x := by
    unfold Payload.getOrNull
    cases ha : fs.get? "created_by" with
    | none => exact ⟨none, rfl⟩
    | some v =>
      obtain rfl | ⟨name, rfl⟩ := hr.author v ha
      · exact ⟨none, rfl⟩
      · exact ⟨some name, rfl⟩
  obtain ⟨time, htime⟩ : ∃ x,
      Checked.nullable Checked.timestamp (fs.presentOr "created_at" .null) = .fits x := by
    obtain hv | ⟨v, hp, hv⟩ := presentOr_cases fs "created_at" .null
    · exact ⟨none, congrArg (Checked.nullable Checked.timestamp) hv⟩
    · obtain ⟨t, ht⟩ := hr.time v hp
      exact hv ▸ nullable_of_fits ht
  have hcheck : VersionNumber.check (.int number) = .fits ⟨number, hn⟩ := dif_pos hn
  refine ⟨⟨id, project, e, ⟨number, hn⟩, some format, ciphertext, metadata, size, author, time⟩, ?_⟩
  unfold pushed
  rw [hfs]
  exact version_eq_ok.2 ⟨_, _, hid, hr.version, rfl, henv, hcheck, rfl, rfl, hsize, hauthor,
    htime, rfl, rfl⟩

theorem checked_format (hf : fs.get? "format" = some (.text format.name)) (other : Json) :
    Checked.nullable (Checked.member SecretFormat.ofName?) (fs.presentOr "format" other) =
      .fits (some format) := by
  have hp : fs.presentOr "format" other = .text format.name := by
    rw [Json.Fields.presentOr, Json.Fields.present?, hf]
    cases format <;> rfl
  rw [hp, Checked.nullable, Checked.member, SecretFormat.ofName?_name]
  · rfl
  · exact nofun

structure Holds (fs : Json.Fields) (v : SecretVersion) : Prop where
  ciphertext : ∃ text, fs.get? "encrypted_data" = some (.text text) ∧
    v.ciphertext = Text.Utf8.encode text
  format : Checked.nullable (Checked.member SecretFormat.ofName?)
    (fs.presentOr "format" (.text SecretFormat.dotenv.name)) = .fits v.format

variable (project e fs) in
theorem pulled_cases :
    (∃ cause, pulled project e (.object fs) = .misunderstood cause) ∨
      (∃ codes, fs.get? "encrypted_data" = some (.halfText codes) ∧
        pulled project e (.object fs) = .unwritable) ∨
      ∃ v, pulled project e (.object fs) = .understood v ∧ Holds fs v := by
  generalize hp : pulled project e (.object fs) = p
  unfold pulled at hp
  cases hd : Json.Fields.get? fs "encrypted_data" with
  | none =>
    simp only [Payload.fields, Payload.get, hd, bind, Except.bind] at hp
    exact .inl ⟨_, hp.symm⟩
  | some d =>
    simp only [Payload.fields, Payload.get, hd, bind, Except.bind, pure, Except.pure] at hp
    cases d with
    | halfText codes => exact .inr (.inl ⟨codes, rfl, hp.symm⟩)
    | text text =>
      dsimp only at hp
      split at hp
      next v hv =>
        obtain ⟨_, _, -, -, -, -, -, hformat, -, -, -, -, -, hc⟩ := version_eq_ok.1 hv
        exact .inr (.inr ⟨v, hp.symm, ⟨text, hd, hc.symm⟩, hformat⟩)
      · exact .inl ⟨_, hp.symm⟩
    | _ => exact .inl ⟨_, hp.symm⟩

variable (c project e) in
/-- A question ends in a fault, in ciphertext that cannot be written, or in a version. -/
theorem told_cases (reply : Reply) :
    (∃ f, told c project e reply = .error (.fault f)) ∨ ∃ fs, reply.Tells fs ∧
      ((∃ codes, fs.get? "encrypted_data" = some (.halfText codes) ∧
          told c project e reply = .error (.crash .undecodable)) ∨
        ∃ v, told c project e reply = .ok v ∧ Holds fs v) := by
  generalize ht : told c project e reply = x
  unfold told at ht
  cases hr : c.reading (Endpoint.method (.pullSecrets project))
      (Endpoint.path (.pullSecrets project)) reply with
  | error f =>
    rw [hr] at ht
    exact .inl ⟨f, ht.symm⟩
  | ok a =>
    rw [hr] at ht
    change latest project e a = x at ht
    unfold latest at ht
    split at ht
    · exact .inl ⟨_, ht.symm⟩
    cases a with
    | object fs =>
      have htells := Reply.tells_of_reading hr
      obtain ⟨cause, hp⟩ | ⟨codes, hd, hp⟩ | ⟨v, hp, hv⟩ := pulled_cases project e fs
      · rw [hp] at ht
        exact .inl ⟨_, ht.symm⟩
      · rw [hp] at ht
        exact .inr ⟨fs, htells, .inl ⟨codes, hd, ht.symm⟩⟩
      · rw [hp] at ht
        exact .inr ⟨fs, htells, .inr ⟨v, ht.symm, hv⟩⟩
    | _ => exact .inl ⟨_, ht.symm⟩

theorem holds_of_told {reply : Reply} {v : SecretVersion} (ht : told c project e reply = .ok v) :
    ∃ fs, reply.Tells fs ∧ Holds fs v := by
  obtain ⟨f, hx⟩ | ⟨fs, htells, ⟨codes, -, hx⟩ | ⟨u, hx, hu⟩⟩ := told_cases c project e reply
  · rw [hx] at ht
    cases ht
  · rw [hx] at ht
    cases ht
  · rw [hx] at ht
    cases ht
    exact ⟨fs, htells, hu⟩

theorem told_of_tells {reply : Reply} {text : String} {v : SecretVersion} (ht : reply.Tells fs)
    (hd : fs.get? "encrypted_data" = some (.text text))
    (hf : fs.get? "format" = some (.text format.name))
    (hv : told c project e reply = .ok v) :
    v.ciphertext = Text.Utf8.encode text ∧ v.format = some format := by
  obtain ⟨fs', ht', ⟨text', hd', hc⟩, hformat⟩ := holds_of_told hv
  obtain rfl : fs = fs' := ht.unique ht'
  rw [hd] at hd'
  cases hd'
  rw [checked_format hf] at hformat
  exact ⟨hc, (Checked.fits.inj hformat).symm⟩

end VersionStore

theorem Request.IsTo.of_baseUrl {r : Request} {c d : Client} {e : Endpoint} (hr : r.IsTo d e)
    (hb : d.baseUrl = c.baseUrl) : r.IsTo c e := by
  refine ⟨hr.1, ?_⟩
  rw [hr.2, Client.url, Client.url, hb]

def Steady (versions : List Event → List StoredVersion) (w w' : World) : Prop :=
  ∃ trace, w'.events = w.events ++ trace ∧ ∀ before after, trace = before ++ after → after ≠ [] →
    versions (w.events ++ before) = versions w.events

namespace KeepsVersions

variable {h : Host} {c d : Client} {project : String} {e : Environment}
  {versions : List Event → List StoredVersion} (hk : KeepsVersions h c project e versions)
  {w w' : World}
include hk

theorem reads {trace : List Event} (ht : ∀ d ∈ trace, d.IsRead) (es : List Event) :
    versions (es ++ trace) = versions es := by
  induction trace generalizing es with
  | nil => rw [List.append_nil]
  | cons d rest ih =>
    have hrest := ih (fun x hx => ht x (List.mem_cons_of_mem d hx)) (es ++ [d])
    rw [List.append_assoc] at hrest
    exact hrest.trans (hk.read es d (ht d List.mem_cons_self))

theorem quiet (hq : Quiet w w') : versions w'.events = versions w.events := by
  obtain ⟨trace, ht, hr⟩ := hq
  rw [ht, hk.reads hr]

theorem steady_of_quiet (hq : Quiet w w') : Steady versions w w' := by
  obtain ⟨trace, ht, hr⟩ := hq
  refine ⟨trace, ht, fun before after he _ => hk.reads (fun x hx => hr x ?_) w.events⟩
  rw [he]
  exact List.mem_append_left after hx

theorem steady_of_last {v : World} {x : Event} (hq : Quiet w v)
    (hx : w'.events = v.events ++ [x]) : Steady versions w w' := by
  obtain ⟨trace, ht, hr⟩ := hq
  refine ⟨trace ++ [x], by rw [hx, ht, List.append_assoc], fun before after he ha => ?_⟩
  obtain ⟨rest, y, rfl⟩ := (List.eq_nil_or_concat after).resolve_left ha
  rw [List.concat_eq_append, ← List.append_assoc] at he
  have hpre := (List.append_inj' he rfl).1
  refine hk.reads (fun z hz => hr z ?_) w.events
  rw [hpre]
  exact List.mem_append_left rest hz

/-- A push fails without a trace in the versions, or it makes the next version. -/
theorem push_cases (hb : d.baseUrl = c.baseUrl) (ciphertext : Bytes) (format : SecretFormat)
    (metadata : Json.Fields) (w : World) :
    ((VersionStore.push d project e ciphertext format metadata h w).1.isOk = false ∧
      versions (VersionStore.push d project e ciphertext format metadata h w).2.events =
        versions w.events) ∨
    ∃ text, (VersionStore.push d project e ciphertext format metadata h w).1.isOk = true ∧
      Text.Utf8.decode? ciphertext = some text ∧
      versions (VersionStore.push d project e ciphertext format metadata h w).2.events =
        versions w.events ++ [⟨StoredVersion.nextNumber (versions w.events),
          VersionStore.parcel e text format metadata⟩] := by
  cases ht : Text.Utf8.decode? ciphertext with
  | none =>
    rw [VersionStore.push_of_no_text d project e h w format metadata ht]
    exact .inl ⟨rfl, rfl⟩
  | some text =>
    rw [VersionStore.push_of_text d project e h w format metadata ht, World.sent_events]
    have hto := VersionStore.delivery_isTo d project e format metadata text
    obtain ⟨hno, hv⟩ | ⟨⟨fs, hfs, hreceipt⟩, hv⟩ :=
      hk.post w.events ⟨VersionStore.delivery d project e format metadata text, w.files⟩
        (VersionStore.parcel e text format metadata) (hto.of_baseUrl hb) rfl rfl
    · obtain ⟨f, hf⟩ := hno.reading_eq d (Endpoint.method (.pushSecrets project))
        (Endpoint.path (.pushSecrets project))
      refine .inl ⟨?_, hv⟩
      rw [Client.answer, hf]
      rfl
    · obtain ⟨v, hpushed⟩ := VersionStore.pushed_of_receipt hreceipt
        (StoredVersion.one_le_nextNumber _) ciphertext metadata
      refine .inr ⟨text, ?_, rfl, hv⟩
      rw [Client.answer, hfs.reading_eq]
      change (((VersionStore.pushed project e ciphertext format metadata (.object fs)).mapError
        _).mapError _).isOk = true
      rw [hpushed]
      rfl

end KeepsVersions

end TeamVault
