import TeamVault.Proofs.Custody

/-!
Sequences of changes. Each push, sync or rotation, by whoever and with whatever files it is made,
leaves a latest version that holds what its own result tells; so does every sequence of them.
-/
namespace TeamVault

open Sops (Tool)

def bytesAt (h : Host) (t : Tree) (p : Path) : Bytes :=
  match t.read h.workDirectory p with
  | .ok data => data
  | .error _ => []

theorem bytesAt_of_find {h : Host} {t : Tree} {p : Path} {l : Location} {mode : Nat}
    {data : Bytes} (hf : t.find h.workDirectory p = .ok (l, .file mode data)) :
    bytesAt h t p = data := by
  rw [bytesAt, Tree.read, hf]

def SecretFormat.named : Json → SecretFormat
  | .text name => (ofName? name).getD .dotenv
  | _ => .dotenv

theorem SecretFormat.named_of_choose {given : Json} {f : SecretFormat}
    (hf : choose given = .ok f) : named given = f := by
  unfold choose at hf
  split at hf
  next hu =>
    cases hf
    cases given with
    | text name =>
      obtain rfl : name = "" := of_decide_eq_true hu
      rfl
    | _ => rfl
  · split at hf
    next hn =>
      cases hf
      cases given with
      | text name => exact congrArg (Option.getD · .dotenv) hn
      | _ => cases hn
    · cases hf

/-- What the latest version has to hold after a change, by the result of the change: the bytes of
the file after a push or a first sync; after another sync or a rotation what was held before, for
the members who were told in the meantime. -/
def Change.leaves (s : Secrets) (e : Environment) (h : Host) (w : World) (u : Change)
    (content : Option Content) : Option Content :=
  let roster := Roster.heard s.client s.project h w.events (u.perform s h w).2.events
  let renewed := content.map fun x => { x with roster := roster }
  match u with
  | push file environment format =>
    match (s.push file environment format h w).1 with
    | .ok _ => some ⟨bytesAt h w.files file, .named format, roster⟩
    | .error _ => content
  | sync environment file =>
    match (s.sync environment file h w).1 with
    | .ok r =>
      if r.isFirst then some ⟨bytesAt h w.files (Secrets.fileOr file e), .dotenv, roster⟩
      else renewed
    | .error _ => content
  | rotate environment =>
    match (s.rotate environment h w).1 with
    | .ok r => if r.isRotated then renewed else content
    | .error _ => content

def Change.IsProper : Change → Prop
  | push file _ _ => file.Proper
  | sync .. | rotate _ => True

theorem Secrets.proper_fileOr (file : Option String) (e : Environment) :
    (fileOr file e).Proper := by
  unfold fileOr
  split
  · split
    · exact Path.proper_ofText _
    · exact Path.proper_ofText _
  · exact Path.proper_ofText _

namespace Secrets

variable {s : Secrets} {c : Client} {e : Environment} {h : Host} {w v w' : World}
  {opens : String → Bytes → Option Bytes} {versions : List Event → List StoredVersion}
  {content content' : Option Content}

theorem Taken.file {output : Path} (t : Taken s e output h w)
    (hs : w.files.Sound h.workDirectory) :
    t.taken.files.Sound h.workDirectory ∧
      ∃ l, t.taken.files.find h.workDirectory output = .ok (l, .file 0o600 t.plaintext) := by
  have hd := s.tool.decrypt_files h (w.sent (VersionStore.question s.client s.project e))
    t.version.ciphertext t.format hs
  rw [t.decrypts] at hd
  have hmade : t.made.files.Sound h.workDirectory := by
    have hm := congrArg (·.2.files) t.makes
    exact hm ▸ Tree.Sound.makeDirectories (hd ▸ hs) output.parent
  obtain ⟨x, hw⟩ | ⟨u, hu, hw⟩ := Files.writePrivate_cases output t.plaintext h t.made
  · rw [t.writes] at hw
    cases hw
  · rw [t.writes, Prod.mk.injEq] at hw
    rw [hw.2]
    exact ⟨hmade.write hu, Tree.find_write hu⟩

variable (hk : KeepsVersions h c s.project e versions)
  (ht : Sops.IsFaithful h s.tool.program (Policy.MayArise h c s.project) opens)
  (hb : s.client.baseUrl = c.baseUrl)
include hk ht hb

theorem pushFile_passes (hq : Quiet w v) (hs : v.files.Sound h.workDirectory) {file : Path}
    (hp : file.Proper) {format : SecretFormat} {r : Except Failure SecretVersion} {v' : World}
    (hpush : s.pushFile file e format h v = (r, v')) (hw : w'.events = v'.events)
    (herror : r.isOk = false → content' = content)
    (hok : r.isOk = true → HoldsLatest opens content (versions w.events) → ∀ x,
      content' = some x → x = ⟨bytesAt h v.files file, format,
        Roster.heard s.client s.project h w.events w'.events⟩) :
    Passes opens versions w w' content content' := by
  obtain ⟨x, hx, hqx⟩ | ⟨z, ⟨l, mode, data, hfind⟩, hz⟩ := s.pushFile_cases h v file e format
  · rw [hpush] at hx hqx
    rw [herror (by rw [show r = .error x from hx]; rfl)]
    exact passes_of_quiet hk (hq.trans (hqx.trans (.of_events hw)))
  · rw [hpush] at hz
    rw [bytesAt_of_find hfind] at hok
    exact z.passes hk ht hb hq hs hp hfind rfl hz.symm hw herror hok

theorem push_passes (hs : w.files.Sound h.workDirectory) {file : Path} (hp : file.Proper)
    {given format : Json}
    (he : Environment.choose given (some s.binding.defaultEnvironment) = .ok e) :
    Passes opens versions w ((Change.push file given format).perform s h w).2 content
      ((Change.push file given format).leaves s e h w content) := by
  rw [Change.leaves, Change.perform_world]
  dsimp only
  obtain ⟨x, hx⟩ | ⟨e', f, he', hf, hpush⟩ := s.push_cases h w file given format
  · rw [hx]
    exact passes_of_quiet hk (.of_events rfl)
  obtain rfl : e' = e := Except.ok.inj (he'.symm.trans he)
  rw [hpush]
  rcases hr : s.pushFile file e' f h w with ⟨x | version, v'⟩
  · exact pushFile_passes hk ht hb (.of_events rfl) hs hp hr rfl (fun _ => rfl) nofun
  · refine pushFile_passes hk ht hb (.of_events rfl) hs hp hr rfl nofun fun _ _ x hx => ?_
    rw [← Option.some.inj hx, SecretFormat.named_of_choose hf]

theorem sync_passes (hs : w.files.Sound h.workDirectory) {given : Json} {file : Option String}
    (he : Environment.choose given (some s.binding.defaultEnvironment) = .ok e) :
    Passes opens versions w ((Change.sync given file).perform s h w).2 content
      ((Change.sync given file).leaves s e h w content) := by
  rw [Change.leaves, Change.perform_world]
  dsimp only
  obtain ⟨x, hx, hq⟩ | ⟨e', pulled, f, v, he', hst, hq, hsync⟩ := s.sync_cases h w given file
  · rw [hx]
    exact passes_of_quiet hk hq
  obtain rfl : e' = e := Except.ok.inj (he'.symm.trans he)
  have hp := proper_fileOr file e'
  rw [hsync]
  rcases hr : s.pushFile (fileOr file e') e' f h v with ⟨x | version, v'⟩
  · cases hst with
    | taken t =>
      exact pushFile_passes hk ht hb hq (t.file hs).1 hp hr rfl (fun _ => rfl) nofun
    | first => exact pushFile_passes hk ht hb hq hs hp hr rfl (fun _ => rfl) nofun
  cases hst with
  | first =>
    refine pushFile_passes hk ht hb hq hs hp hr rfl nofun fun _ _ x hx => ?_
    exact (Option.some.inj hx).symm
  | taken t =>
    obtain ⟨hsound, l, hfind⟩ := t.file hs
    refine pushFile_passes hk ht hb hq hsound hp hr rfl nofun fun _ hold x hx => ?_
    -- The file that is pushed back is what the latest version held, as it was decrypted before.
    obtain ⟨y, rfl, rfl⟩ := Option.map_eq_some_iff.1 hx
    obtain ⟨hplain, hformat⟩ := hold.eq_of_decrypts hk ht hb t.told t.tells t.decrypts
    rw [bytesAt_of_find hfind, hplain, hformat]

theorem rotate_passes (hs : w.files.Sound h.workDirectory) {given : Json}
    (he : Environment.choose given (some s.binding.defaultEnvironment) = .ok e) :
    Passes opens versions w ((Change.rotate given).perform s h w).2 content
      ((Change.rotate given).leaves s e h w content) := by
  rw [Change.leaves, Change.perform_world]
  dsimp only
  obtain ⟨x, hx⟩ | ⟨e', r, w', he', hc, hr⟩ := s.rotate_cases h w given
  · rw [hx]
    exact passes_of_quiet hk (.of_events rfl)
  obtain rfl : e' = e := Except.ok.inj (he'.symm.trans he)
  rw [hr]
  dsimp only
  have hA := Rotation.permits_quiet s.client s.tool s.project h w.events
  obtain ⟨hg, hno⟩ | ⟨d, x, v, hpush, hev, hrot⟩ := hc.goes hA
  · have hq := Rotation.quiet_of_goes hg
    cases r.failure with
    | some x => exact passes_of_quiet hk hq
    | none =>
      simp only [hno]
      exact passes_of_quiet hk hq
  obtain ⟨first, hv, hfirst, -⟩ := d.toDecrypted.goes hA.toPermitsReading
  have hq : Quiet w d.written := Rotation.quiet_of_goes ⟨first, hv, hfirst⟩
  obtain ⟨p, l, ha⟩ := d.toOpened.exists_at
  obtain ⟨hwrite, hfile, -⟩ := d.toDecrypted.written_files hs ha
  obtain ⟨k, hfind⟩ := Tree.find_write hwrite
  rw [← hfile] at hfind
  refine d.sealing.passes hk ht hb hq (Rotation.Decrypted.within hs ha).sound
    (hfile ▸ ha.proper.child ".env.rotate") hfind (Scratch.left_events d.scratch) hpush hev ?_ ?_
  · intro hno
    cases r.failure with
    | some x => rfl
    | none => simp only [hrot, hno, if_neg Bool.false_ne_true]
  · intro hyes hold y hy
    rw [hc.failure_of_isRotated (hrot.trans hyes)] at hy
    simp only [hrot, hyes, if_true] at hy
    obtain ⟨y, rfl, rfl⟩ := Option.map_eq_some_iff.1 hy
    obtain ⟨hplain, hformat⟩ := hold.eq_of_decrypts hk ht hb d.told d.tells d.decrypts
    rw [hplain, hformat]

end Secrets

/-- A change of the secrets of an environment, by anyone who uses the service and the tool, and the
files that it finds. -/
structure Call (h : Host) (c : Client) (project program : String) (e : Environment) where
  secrets : Secrets
  change : Change
  files : Tree
  sound : files.Sound h.workDirectory
  proper : change.IsProper
  baseUrl_eq : secrets.client.baseUrl = c.baseUrl
  project_eq : secrets.project = project
  program_eq : secrets.tool.program = program
  environment_eq :
    Environment.choose change.given (some secrets.binding.defaultEnvironment) = .ok e

namespace Call

variable {h : Host} {c : Client} {project program : String} {e : Environment}

def world (k : Call h c project program e) (w : World) : World :=
  (k.change.perform k.secrets h (w.withFiles k.files)).2

def step (x : World × Option Content) (k : Call h c project program e) :
    World × Option Content :=
  (k.world x.1, k.change.leaves k.secrets e h (x.1.withFiles k.files) x.2)

def run (calls : List (Call h c project program e)) (w : World) : World × Option Content :=
  calls.foldl step (w, none)

variable {opens : String → Bytes → Option Bytes} {versions : List Event → List StoredVersion}
  (hk : KeepsVersions h c project e versions)
  (ht : Sops.IsFaithful h program (Policy.MayArise h c project) opens)
include hk ht

theorem passes (k : Call h c project program e) (x : World × Option Content) :
    Passes opens versions x.1 (k.world x.1) x.2 (step x k).2 := by
  obtain ⟨s, u, files, hs, hp, hb, rfl, rfl, he⟩ := k
  cases u with
  | push => exact s.push_passes hk ht hb hs hp he
  | sync => exact s.sync_passes hk ht hb hs he
  | rotate => exact s.rotate_passes hk ht hb hs he

theorem run_holdsLatest (calls : List (Call h c project program e)) (w : World) :
    HoldsLatest opens (run calls w).2 (versions (run calls w).1.events) := by
  unfold run
  induction calls using List.reverseRecOn with
  | nil => exact nofun
  | append_singleton calls k ih =>
    rw [List.foldl_append]
    exact (k.passes hk ht (calls.foldl step (w, none))).2 ih

/-- After any calls, and at every point of a further one before its end, the latest version holds
the bytes and the format of the last push or first sync that has succeeded, and the keys that open
it are those of the members that the call was told by which it was stored. -/
theorem latest_holds_content (calls : List (Call h c project program e)) (w : World) :
    HoldsLatest opens (run calls w).2 (versions (run calls w).1.events) ∧
    ∀ (k : Call h c project program e) (before after : List Event),
      (k.world (run calls w).1).events = (run calls w).1.events ++ (before ++ after) →
      after ≠ [] →
      HoldsLatest opens (run calls w).2 (versions ((run calls w).1.events ++ before)) := by
  have hold := run_holdsLatest hk ht calls w
  refine ⟨hold, fun k before after he ha => ?_⟩
  obtain ⟨⟨trace, htrace, hsteady⟩, -⟩ := k.passes hk ht (run calls w)
  have hsplit : trace = before ++ after := List.append_cancel_left (htrace.symm.trans he)
  rw [hsteady before after hsplit ha]
  exact hold

end Call

/-! A service that takes two versions, of which each is for another member, and a tool that knows
one file. -/

namespace Sample

def plaintext : Bytes := Text.Utf8.encode Desk.text

def ciphertext : String := "\x7b\"sops\":\x7b\x7d\x7d"

def nextCiphertext : String := "\x7b\"sops\":\x7b\"mac\":\"m\"\x7d\x7d"

def ann : Recipient := ⟨"ann", some " k", none, none, none, none⟩

def bob : Recipient := ⟨"bob", some "l", none, none, none, none⟩

def roster : String := "\x7b\"members\":[\x7b\"identity\":\"ann\",\"public_key\":\" k\"\x7d]\x7d"

def nextRoster : String := "\x7b\"members\":[\x7b\"identity\":\"bob\",\"public_key\":\"l\"\x7d]\x7d"

def version : String :=
  "\x7b\"version_id\":\"v\",\"version\":1,\"format\":\"dotenv\"," ++
    "\"encrypted_data\":\"\x7b\\\"sops\\\":\x7b\x7d\x7d\"\x7d"

def nextVersion : String :=
  "\x7b\"version_id\":\"v\",\"version\":2,\"format\":\"dotenv\"," ++
    "\"encrypted_data\":\"\x7b\\\"sops\\\":\x7b\\\"mac\\\":\\\"m\\\"\x7d\x7d\"\x7d"

def textAt (body : Json.Fields) (key : String) : Option String :=
  match body.get? key with
  | some (.text s) => some s
  | _ => none

def Posts (data : String) (body : Json.Fields) : Prop :=
  textAt body "encrypted_data" = some data ∧ textAt body "format" = some "dotenv"

instance (data : String) (body : Json.Fields) : Decidable (Posts data body) :=
  inferInstanceAs (Decidable (_ ∧ _))

/-- The ciphertext that the service waits for behind some versions, and its answer to that. -/
def awaited? : List StoredVersion → Option (String × String)
  | [] => some (ciphertext, version)
  | [_] => some (nextCiphertext, nextVersion)
  | _ => none

def admitted (versions : List StoredVersion) (r : Request) : Option (Json.Fields × String) :=
  match r.body, awaited? versions with
  | some (.object body), some (data, answer) =>
    if r.method = "POST" ∧ Posts data body then some (body, answer) else none
  | _, _ => none

def shelve (versions : List StoredVersion) : Event → List StoredVersion
  | .run _ => versions
  | .request r => match admitted versions r.toRequest with
    | some (body, _) => versions ++ [⟨StoredVersion.nextNumber versions, body⟩]
    | none => versions

def shelf (es : List Event) : List StoredVersion := es.foldl shelve []

def saying (text : String) : Reply := .answered 200 "" (Text.Utf8.encode text)

def latest : List StoredVersion → Reply
  | [] => .answered 404 "" []
  | [_] => saying version
  | _ => saying nextVersion

/-- When the first version is there, bob takes the place of ann. -/
def members : List StoredVersion → Reply
  | [] => saying roster
  | _ => saying nextRoster

def reply (versions : List StoredVersion) (r : Request) : Reply :=
  if r.method = "POST" then match admitted versions r with
    | some (_, answer) => saying answer
    | none => .answered 400 "" []
  else if r.url = Desk.client.url (Endpoint.path (.projectMembers "p")) then members versions
  else latest versions

def config (team : List Recipient) : Option Bytes :=
  (Policy.build team).toOption.map fun p => Text.Utf8.encode p.render

def sealed? (data : Bytes) : Option String :=
  if config [ann] = some data then some ciphertext
  else if config [bob] = some data then some nextCiphertext
  else none

def outcome (r : Run) : Outcome :=
  match r.reads with
  | [file, plain] => match sealed? file.data with
    | some text =>
      if plain.data = plaintext then .exited 0 (Text.Utf8.encode text) [] else .exited 1 [] []
    | none => .exited 1 [] []
  | [encrypted] =>
    if encrypted.data = Text.Utf8.encode ciphertext ∨
        encrypted.data = Text.Utf8.encode nextCiphertext then .exited 0 plaintext []
    else .exited 1 [] []
  | _ => .exited 1 [] []

def host : Host :=
  { Desk.host with
    respond := fun es r => reply (shelf es) r
    execute := fun _ r => outcome r }

def readers (data : Bytes) : List String :=
  if data = Text.Utf8.encode ciphertext then ["k"]
  else if data = Text.Utf8.encode nextCiphertext then ["l"]
  else []

def opens (key : String) (data : Bytes) : Option Bytes :=
  if key ∈ readers data then some plaintext else none

def calls : List (Call host Desk.client "p" "sops" .development) :=
  [⟨Desk.secrets, .push (.ofText "env") .null .null, Desk.tree, Desk.sound_tree,
      Path.proper_ofText _, rfl, rfl, rfl, rfl⟩,
    ⟨Desk.secrets, .rotate .null, Desk.tree, Desk.sound_tree, trivial, rfl, rfl, rfl, rfl⟩]

theorem get?_of_textAt {body : Json.Fields} {key s : String} (h : textAt body key = some s) :
    body.get? key = some (.text s) := by
  unfold textAt at h
  split at h
  next hs => rw [hs, Option.some.inj h]
  · cases h

def Passing (check : Json.Fields → Bool) (text : String) : Bool :=
  match Json.ofText? (Text.Utf8.decodeLenient (Text.Utf8.encode text)) with
  | some (.object fs) => check fs
  | _ => false

def isVersion (number : Int) (data : String) (fs : Json.Fields) : Bool :=
  (match fs.get? "version" with
    | some (.int n) => n = number
    | _ => false) &&
  textAt fs "version_id" = some "v" && Posts data fs && (fs.get? "created_by").isNone &&
  ["environment", "size_bytes", "created_at"].all fun key => (fs.present? key).isNone

def IsTold (number : Int) (data answer : String) : Prop :=
  ∃ fs, (saying answer).Tells fs ∧ IsReceipt .development number fs ∧ Posts data fs

theorem isTold_of_passing {number : Int} {data answer : String}
    (hbytes : ¬ (Text.Utf8.encode answer).isEmpty)
    (hv : Passing (isVersion number data) answer = true) : IsTold number data answer := by
  unfold Passing at hv
  split at hv
  next fs hj =>
    simp only [isVersion, Bool.and_eq_true, decide_eq_true_eq, List.all_cons, List.all_nil,
      Option.isNone_iff_eq_none] at hv
    obtain ⟨⟨⟨⟨hnumber, hid⟩, hposts⟩, hauthor⟩, henv, hsize, htime, -⟩ := hv
    refine ⟨fs, ⟨200, "", _, rfl, by decide, by decide, by simpa using hbytes, hj⟩, ?_, hposts⟩
    have hone : Json.Fields.get? fs "version" = some (.int number) := by
      split at hnumber
      next n hn => rw [hn, of_decide_eq_true hnumber]
      · cases hnumber
    exact
      { id := ⟨"v", get?_of_textAt hid⟩
        version := hone
        environment := by simp [henv]
        size := by simp [hsize]
        author := by simp [hauthor]
        time := by simp [htime] }
  · cases hv

theorem isTold_version : IsTold 1 ciphertext version :=
  isTold_of_passing (by decide +kernel) (by decide +kernel)

theorem isTold_nextVersion : IsTold 2 nextCiphertext nextVersion :=
  isTold_of_passing (by decide +kernel) (by decide +kernel)

theorem shelf_snoc (es : List Event) (d : Event) : shelf (es ++ [d]) = shelve (shelf es) d := by
  rw [shelf, List.foldl_append]
  rfl

theorem admitted_eq_some {versions : List StoredVersion} {r : Request} {body : Json.Fields}
    {answer : String} (h : admitted versions r = some (body, answer)) :
    r.body = some (.object body) ∧ r.method = "POST" ∧
      ∃ data, awaited? versions = some (data, answer) ∧ Posts data body := by
  unfold admitted at h
  split at h
  next hb ha =>
    split at h
    next hc =>
      cases h
      exact ⟨hb, hc.1, _, ha, hc.2⟩
    · cases h
  · cases h

/-- What the shelf can hold. -/
inductive IsStock : List StoredVersion → Prop
  | none : IsStock []
  | first {body : Json.Fields} (own : Posts ciphertext body) : IsStock [⟨1, body⟩]
  | both {old body : Json.Fields} (own : Posts nextCiphertext body) :
    IsStock [⟨1, old⟩, ⟨2, body⟩]

theorem IsStock.shelve {versions : List StoredVersion} (hs : IsStock versions) (d : Event) :
    IsStock (shelve versions d) := by
  cases d with
  | run r => exact hs
  | request r =>
    rw [Sample.shelve]
    split
    next body answer hb =>
      obtain ⟨-, -, data, hnext, hposts⟩ := admitted_eq_some hb
      cases hs with
      | none =>
        cases hnext
        exact .first hposts
      | first =>
        cases hnext
        exact .both hposts
      | both => cases hnext
    · exact hs

theorem isStock_shelf (es : List Event) : IsStock (shelf es) := by
  induction es using List.reverseRecOn with
  | nil => exact .none
  | append_singleton es d ih =>
    rw [shelf_snoc]
    exact ih.shelve d

/-- The answer to a post that is taken tells the version that is made. -/
theorem isTold_of_awaited {versions : List StoredVersion} (hs : IsStock versions)
    {data answer : String} (hnext : awaited? versions = some (data, answer)) :
    IsTold (StoredVersion.nextNumber versions) data answer := by
  cases hs with
  | none =>
    cases hnext
    exact isTold_version
  | first =>
    cases hnext
    exact isTold_nextVersion
  | both => cases hnext

theorem latest_cases {versions : List StoredVersion} (hs : IsStock versions) :
    (latest versions).IsRefusal ∨ ∃ last data answer, versions.getLast? = some last ∧
      Posts data last.body ∧ latest versions = saying answer ∧ IsTold last.number data answer := by
  cases hs with
  | none => exact .inl (by decide : (400 : Int) ≤ 404)
  | first own => exact .inr ⟨_, _, _, rfl, own, rfl, isTold_version⟩
  | both own => exact .inr ⟨_, _, _, rfl, own, rfl, isTold_nextVersion⟩

theorem method_ne_post {r : Request} {e : Endpoint} (hto : r.IsTo Desk.client e)
    (he : e.method = "GET") : r.method ≠ "POST" := by
  rw [hto.1, he]
  decide

theorem keepsVersions : KeepsVersions host Desk.client "p" .development shelf where
  post es r body hto hbody _ := by
    have hm : r.method = "POST" := hto.1
    have hr : host.respond es r.toRequest = reply (shelf es) r.toRequest := rfl
    rw [shelf_snoc, shelve, hr, reply, if_pos hm]
    cases ha : admitted (shelf es) r.toRequest with
    | none => exact .inl ⟨(by decide : (400 : Int) ≤ 400), rfl⟩
    | some x =>
      obtain ⟨body', answer⟩ := x
      obtain ⟨hbody', -, data, hnext, -⟩ := admitted_eq_some ha
      obtain rfl : body = body' := by simpa [hbody] using hbody'
      obtain ⟨fs, hfs, hreceipt, -⟩ := isTold_of_awaited (isStock_shelf es) hnext
      exact .inr ⟨⟨fs, hfs, hreceipt⟩, rfl⟩
  get es r hto _ := by
    have hm := method_ne_post hto rfl
    have hu : r.url ≠ Desk.client.url (Endpoint.path (.projectMembers "p")) := fun h =>
      Endpoint.path_secrets_ne_members "p" (Client.url_inj (hto.2.symm.trans h))
    have hr : host.respond es r = reply (shelf es) r := rfl
    rw [hr, reply, if_neg hm, if_neg hu]
    obtain hrefused | ⟨last, data, answer, hlast, hposts, hreply, fs, hfs, hreceipt, htold⟩ :=
      latest_cases (isStock_shelf es)
    · exact .inl hrefused
    · rw [hreply]
      exact .inr ⟨last, fs, hlast, hfs, hreceipt.version,
        (get?_of_textAt htold.1).trans (get?_of_textAt hposts.1).symm,
        (get?_of_textAt htold.2).trans (get?_of_textAt hposts.2).symm⟩
  read es d hd := by
    rw [shelf_snoc]
    cases d with
    | run r => rfl
    | request r =>
      rw [shelve]
      cases ha : admitted (shelf es) r.toRequest with
      | none => rfl
      | some x =>
        exact absurd (hd.symm.trans (admitted_eq_some ha).2.1) (by decide : "GET" ≠ "POST")

theorem team_of_mayArise {p : Policy} (hp : p.MayArise host Desk.client "p") :
    Policy.build [ann] = .ok p ∨ Policy.build [bob] = .ok p := by
  obtain ⟨es, r, told, hto, ht, hb⟩ := hp
  have hm := method_ne_post hto rfl
  have hr : host.respond es r = reply (shelf es) r := rfl
  rw [hr, reply, if_neg hm, if_pos hto.2] at ht
  have hown : (Roster.told Desk.client "p" (saying roster)).toOption = some [ann] := by
    decide +kernel
  have hnext : (Roster.told Desk.client "p" (saying nextRoster)).toOption =
      some [bob] := by decide +kernel
  unfold members at ht
  split at ht
  · rw [ht] at hown
    rw [← Option.some.inj hown]
    exact .inl hb
  · rw [ht] at hnext
    rw [← Option.some.inj hnext]
    exact .inr hb

/-- What is put out under a policy for members is open to its keys. -/
theorem sealed?_render {p : Policy} (hp : p.MayArise host Desk.client "p") {text : String}
    (hs : sealed? (Text.Utf8.encode p.render) = some text) (key : String) :
    key ∈ readers (Text.Utf8.encode text) ↔ key ∈ p.recipientKeys := by
  obtain hb | hb := team_of_mayArise hp
  · have hconfig : config [ann] = some (Text.Utf8.encode p.render) := by rw [config, hb]; rfl
    have hreaders : readers (Text.Utf8.encode ciphertext) = ["k"] := by decide +kernel
    have hann : ann.key? = some "k" := by decide +kernel
    rw [sealed?, if_pos hconfig] at hs
    rw [← Option.some.inj hs, hreaders, Policy.mem_recipientKeys hb]
    simp [hann, eq_comm]
  · have hconfig : config [bob] = some (Text.Utf8.encode p.render) := by rw [config, hb]; rfl
    have hne : config [ann] ≠ some (Text.Utf8.encode p.render) := by
      rw [← hconfig]
      decide +kernel
    have hreaders : readers (Text.Utf8.encode nextCiphertext) = ["l"] := by decide +kernel
    have hbob : bob.key? = some "l" := by decide +kernel
    rw [sealed?, if_neg hne, if_pos hconfig] at hs
    rw [← Option.some.inj hs, hreaders, Policy.mem_recipientKeys hb]
    simp [hbob, eq_comm]

theorem outcome_of_sealing {r : Run} {file plain : FileView} {output diagnostics : Bytes}
    (hr : r.reads = [file, plain]) (hx : outcome r = .exited 0 output diagnostics) :
    plain.data = plaintext ∧
      ∃ text, sealed? file.data = some text ∧ output = Text.Utf8.encode text := by
  rw [outcome, hr] at hx
  dsimp only at hx
  split at hx
  next text hs =>
    split at hx
    next hplain =>
      cases hx
      exact ⟨hplain, text, hs, rfl⟩
    · cases hx
  · cases hx

theorem outcome_of_opening {r : Run} {encrypted : FileView} {output diagnostics : Bytes}
    (hr : r.reads = [encrypted]) (hx : outcome r = .exited 0 output diagnostics) :
    output = plaintext ∧ ∃ key, key ∈ readers encrypted.data := by
  rw [outcome, hr] at hx
  dsimp only at hx
  split at hx
  next he =>
    cases hx
    refine ⟨rfl, ?_⟩
    obtain hown | hnext := he
    · exact ⟨"k", by rw [hown]; decide +kernel⟩
    · exact ⟨"l", by rw [hnext]; decide +kernel⟩
  · cases hx

theorem isFaithful :
    Sops.IsFaithful host "sops" (Policy.MayArise host Desk.client "p") opens where
  encrypts := by
    intro es r format file plain p output diagnostics _ _ hr hp hdata hx key
    obtain ⟨hplain, text, hs, rfl⟩ := outcome_of_sealing hr hx
    rw [hdata] at hs
    simp only [opens, sealed?_render hp hs, hplain]
  decrypts := by
    intro es r format encrypted output diagnostics _ _ hr hx
    obtain ⟨rfl, key, hkey⟩ := outcome_of_opening hr hx
    exact ⟨key, by rw [opens, if_pos hkey]⟩

theorem run_calls :
    (Call.run calls Desk.world).2.map (fun x => (x.plaintext, x.format, x.roster)) =
        some (plaintext, .dotenv, [bob]) ∧
      (shelf (Call.run calls Desk.world).1.events).map (fun v => v.number) = [1, 2] := by
  decide +kernel

/-- After the push and the rotation, the second version of the service holds the file, for the one
who is a member then. -/
theorem latest_holds_file :
    (Call.run calls Desk.world).2.map (fun x => (x.plaintext, x.format, x.roster)) =
        some (plaintext, .dotenv, [bob]) ∧
      (shelf (Call.run calls Desk.world).1.events).map (fun v => v.number) = [1, 2] ∧
      HoldsLatest opens (Call.run calls Desk.world).2
        (shelf (Call.run calls Desk.world).1.events) :=
  ⟨run_calls.1, run_calls.2,
    (Call.latest_holds_content keepsVersions isFaithful calls Desk.world).1⟩

end Sample

end TeamVault
