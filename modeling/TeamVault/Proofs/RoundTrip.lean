import TeamVault.Proofs.CustodyRun

/-!
The round trip of a push and a pull. Where the service tells what was posted, a pull hands the tool
the very bytes that it gave out at the push, and its output is what the tool makes of them.
-/
namespace TeamVault

open Sops (Tool)

/-! ### The version that a pull is told -/

namespace VersionStore

/-- An answer with the fields of a post, a version id and a number, and no other field. -/
def Echoes (body : Json.Fields) (id : Json) (number : Int) (fs : Json.Fields) : Prop :=
  ∀ key, fs.get? key =
    if key = "version_id" then some id
    else if key = "version" then some (.int number)
    else body.get? key

theorem echoes_cons (body : Json.Fields) (id : Json) (number : Int) :
    Echoes body id number (("version_id", id) :: ("version", .int number) :: body) := by
  intro key
  unfold Json.Fields.get?
  by_cases hid : key = "version_id"
  · rw [if_pos hid, hid, List.lookup_cons_self]
  rw [if_neg hid, List.lookup_cons, beq_false_of_ne hid]
  by_cases hn : key = "version"
  · rw [if_pos hn, hn]
    exact List.lookup_cons_self
  · rw [if_neg hn]
    change List.lookup key (("version", .int number) :: body) = _
    rw [List.lookup_cons, beq_false_of_ne hn]

section Fields

variable {fs : Json.Fields} {key : String} {v : Json}

theorem presentOr_of_present (hv : fs.get? key = some v) (hp : v.isPresent = true) (other : Json) :
    fs.presentOr key other = v := by
  rw [Json.Fields.presentOr, Json.Fields.present?, hv, Option.filter_some, if_pos hp]
  rfl

theorem presentOr_of_absent (hv : fs.get? key = none) (other : Json) :
    fs.presentOr key other = other := by
  rw [Json.Fields.presentOr, Json.Fields.present?, hv]
  rfl

theorem presentOr_object {block : Json.Fields} (hv : fs.get? key = some (.object block)) :
    fs.presentOr key (.object []) = .object block := by
  cases block with
  | nil =>
    rw [Json.Fields.presentOr, Json.Fields.present?, hv]
    rfl
  | cons field rest => exact presentOr_of_present hv rfl _

end Fields

variable {c : Client} {project : String} {e : Environment} {f : SecretFormat} {text : String}
  {block fs : Json.Fields} {id : Json} {number : Int} {reply : Reply}

variable (project) in
theorem version_of_echo (hecho : Echoes (parcel e text f block) id number fs)
    (hid : id.text?.isSome = true) (hn : 1 ≤ number) (ciphertext : Bytes) :
    ∃ v, version project fs (fs.presentOr "environment" (.text e.name))
        (Checked.nullable (Checked.member SecretFormat.ofName?)
          (fs.presentOr "format" (.text SecretFormat.dotenv.name)))
        ciphertext
        (Checked.object (fs.presentOr "metadata" (fs.presentOr "sops_metadata" (.object []))))
        ciphertext.length = .ok v ∧
      v.ciphertext = ciphertext ∧ v.format = some f ∧ v.environment = e ∧ v.metadata = block := by
  obtain ⟨name, hname⟩ := Option.isSome_iff_exists.1 hid
  have henv : fs.presentOr "environment" (.text e.name) = .text e.name :=
    presentOr_of_present (hecho "environment") (by cases e <;> rfl) _
  have hformat : fs.get? "format" = some (.text f.name) := hecho "format"
  have hother : fs.presentOr "sops_metadata" (.object []) = .object [] :=
    presentOr_of_absent (hecho "sops_metadata") _
  have hblock : fs.presentOr "metadata" (fs.presentOr "sops_metadata" (.object [])) =
      .object block := by
    rw [hother]
    exact presentOr_object (hecho "metadata")
  have hsize : fs.presentOr "size_bytes" (.int ciphertext.length) = .int ciphertext.length :=
    presentOr_of_absent (hecho "size_bytes") _
  have htime : fs.presentOr "created_at" .null = .null :=
    presentOr_of_absent (hecho "created_at") _
  have hauthor : Payload.getOrNull fs "created_by" = .null := by
    rw [Payload.getOrNull, hecho "created_by"]
    rfl
  refine ⟨⟨name, project, e, ⟨number, hn⟩, some f, ciphertext, block, ciphertext.length, none,
      none⟩,
    version_eq_ok.2 ⟨id, .int number, hecho "version_id", hecho "version", ?_, ?_, dif_pos hn,
      checked_format hformat _, ?_, ?_, ?_, ?_, rfl, rfl⟩, rfl, rfl, rfl, rfl⟩
  · rw [Checked.text, hname]
  · rw [henv, Checked.member, Environment.ofName?_name]
  · rw [hblock]
    rfl
  · rw [hsize]
    rfl
  · rw [hauthor]
    rfl
  · rw [htime]
    rfl

variable (c project) in
theorem told_of_echo (hreply : reply.Tells fs) (hecho : Echoes (parcel e text f block) id number fs)
    (hid : id.text?.isSome = true) (hn : 1 ≤ number) (htext : text ≠ "") :
    ∃ v, told c project e reply = .ok v ∧ v.ciphertext = Text.Utf8.encode text ∧
      v.format = some f ∧ v.environment = e ∧ v.metadata = block := by
  obtain ⟨v, hv, hfields⟩ := version_of_echo project hecho hid hn (Text.Utf8.encode text)
  have hdata : fs.get? "encrypted_data" = some (.text text) := hecho "encrypted_data"
  have hholds : holdsNothing (.object fs) = false := by
    have hpresent : fs.present? "encrypted_data" = some (.text text) := by
      rw [Json.Fields.present?, hdata, Option.filter_some, if_pos (by simpa [Json.isPresent])]
    have hne : fs ≠ [] := by
      rintro rfl
      cases hdata
    simp [holdsNothing, Json.isPresent, hne, hpresent]
  have hget : Payload.get fs "encrypted_data" = .ok (.text text) := by rw [Payload.get, hdata]
  refine ⟨v, ?_, hfields⟩
  unfold told
  rw [hreply.reading_eq]
  change latest project e (.object fs) = .ok v
  rw [latest, if_neg (by simp [hholds]), pulled]
  simp only [Payload.fields, hget, bind, Except.bind, pure, Except.pure, hv]

end VersionStore

/-! ### A run that starts -/

theorem Files.writePrivate_of_write {h : Host} {w : World} {p : Path} {data : Bytes} {u : Tree}
    (hu : w.files.write h.workDirectory p (some 0o600) data = .ok u) :
    Files.writePrivate p data h w = (.ok (), w.withFiles u) := by
  unfold Files.writePrivate Files.change
  dsimp only
  rw [hu]
  rfl

namespace Scratch

variable {h : Host} {t : Tree} {p : Path} {l : Location} {name : String}

theorem Fresh.exists_write (hs : t.Sound h.workDirectory) (hf : Fresh h t p l)
    (hn : Path.IsName name) (hdots : name ≠ "..") (hnul : name.toList.contains '\x00' = false)
    (hshort : Tree.checkName name = .ok ()) (data : Bytes) :
    ∃ u, (opening t l).write h.workDirectory (p.child name) (some 0o600) data = .ok u := by
  have hopen := node?_opening t l
  have hloc := hf.locate_opening
  have hchild : (opening t l).locate h.workDirectory (p.child name) = .ok (l ++ [name]) := by
    rw [Path.child_name hn]
    unfold Tree.locate at hloc ⊢
    split at hloc
    · cases hloc
    next hany =>
      have hnone : ¬ ((p.names ++ [name]).any fun n => n.toList.contains '\x00') = true := by
        rw [List.any_append, Bool.or_eq_true]
        simp only [List.any_cons, List.any_nil, hnul, Bool.or_false, Bool.false_eq_true, or_false]
        exact hany
      rw [if_neg hnone, Tree.walk_append]
      change ((opening t l).walk (Tree.start h.workDirectory p) p.names).bind _ = _
      rw [hloc, Except.bind, Tree.walk_cons ⟨_, hopen⟩, hshort, if_neg hdots]
      rfl
  have hfree : (opening t l).node? (l ++ [name]) = none := by
    have hne : l ++ [name] ≠ l := by simp
    rw [opening, Tree.node?_put, if_neg hne]
    exact hf.below hs (List.prefix_append l [name])
  refine ⟨(opening t l).put (l ++ [name]) (.file 0o600 data), ?_⟩
  simp only [Tree.write, hchild, bind, Except.bind, hfree, List.dropLast_concat, hopen,
    Option.getD_some]

end Scratch

namespace Sops.Tool

variable {α : Type} {t : Tool} {h : Host} {w : World} {j : Job}

theorem checkInstalled_of_installed (hi : h.isInstalled t.program = true) (w : World) :
    t.checkInstalled h w = (.ok (), w) := by
  unfold checkInstalled
  rw [Action.bind_apply, Action.host_apply]
  dsimp only
  rw [if_pos hi]
  rfl

theorem perform_of_make (g : Int × Bytes × Bytes → Except Fault α)
    (hs : w.files.Sound h.workDirectory)
    (hmake : (Scratch.create j.start none h w).1.isOk = true)
    (hnul : j.name.toList.contains '\x00' = false) (hshort : Tree.checkName j.name = .ok ()) :
    ∃ directory l scene, Staged h w.files j directory l scene ∧
      (t.perform j g h w).1 =
        ((t.finished (h.execute w.events
          (t.commandFor h j scene (j.file directory)))).bind g).mapError .fault ∧
      (t.perform j g h w).2.events =
        w.events ++ [.run ⟨t.commandFor h j scene (j.file directory), scene⟩] := by
  obtain ⟨c, hc⟩ | ⟨p, l, hp, hf, hc⟩ := Scratch.create_cases h w j.start none
  · rw [hc] at hmake
    cases hmake
  obtain ⟨u, hu⟩ := hf.exists_write hs j.isName j.notAbove hnul hshort j.data
  have hw : (Scratch.opened p).write j.name j.data h
      (w.withFiles (Scratch.opening w.files l)) = (.ok (p.child j.name), w.withFiles u) :=
    Action.bind_of_ok (Files.writePrivate_of_write hu)
  refine ⟨p, l, u, ⟨hp, hf, hu⟩, ?_⟩
  unfold perform
  rw [Action.bind_of_pure fun x w' => Action.ofExcept_apply (h := h) (w := w') (r := g x), runWith,
    Scratch.within_of_created hc, Action.bind_of_ok hw, run_apply]
  dsimp only
  rw [Scratch.left_events, Action.mapError_bind]
  exact ⟨rfl, rfl⟩

end Sops.Tool

/-! ### What is sealed and opened -/

namespace Sops

/-- What the one tool seals the other opens, with the plaintext as it was. -/
def Inverts (h : Host) (program : String) (h' : Host) (program' : String) : Prop :=
  ∀ {f plaintext ciphertext es r es' r' output diagnostics diagnostics'},
    IsSealing program f plaintext r → h.execute es r = .exited 0 ciphertext diagnostics →
    IsOpening program' f ciphertext r' → h'.execute es' r' = .exited 0 output diagnostics' →
    output = plaintext

theorem checkCiphertext_of_metadata {ciphertext : Bytes} {block : Json.Fields}
    (hm : metadata ciphertext = .ok block) : Tool.checkCiphertext ciphertext = .ok () := by
  obtain ⟨fields, hj, -⟩ := metadata_eq_ok hm
  unfold Tool.checkCiphertext
  rw [hj, hm]
  rfl

theorem text_ne_empty {ciphertext : Bytes} {block : Json.Fields} {text : String}
    (hm : metadata ciphertext = .ok block) (ht : Text.Utf8.decode? ciphertext = some text) :
    text ≠ "" := by
  rintro rfl
  have he : ciphertext = [] := (Text.Utf8.encode_of_decode ht).symm
  obtain ⟨fields, hj, -⟩ := metadata_eq_ok hm
  have hnone : (Json.ofBytes? []).isNone = true := by decide +kernel
  rw [he] at hj
  rw [hj] at hnone
  cases hnone

end Sops

/-! ### Pushing and pulling -/

def Files.Accepts (h : Host) (t : Tree) (p : Path) : Prop :=
  ∃ u, t.makeDirectories h.workDirectory p.parent = (u, none) ∧
    ∀ data, ∃ v, u.write h.workDirectory p (some 0o600) data = .ok v

theorem Scratch.create_isOk {h : Host} {w v : World} (hw : w.files = v.files) {start : String}
    {parent : Option Path} (hc : (Scratch.create start parent h w).1.isOk = true) :
    (Scratch.create start parent h v).1.isOk = true := by
  unfold Scratch.create at hc ⊢
  rw [← hw]
  split at hc
  · rfl
  · cases hc

namespace Secrets

structure Finds (s : Secrets) (h : Host) (w : World) (given : Json) (e : Environment)
    (body : Json.Fields) : Prop where
  chooses : Environment.choose given (some s.binding.defaultEnvironment) = .ok e
  installed : h.isInstalled s.tool.program = true
  sound : w.files.Sound h.workDirectory
  creates : (Scratch.create "envv-decrypt-" none h w).1.isOk = true
  tells : ∃ fs id number, id.text?.isSome = true ∧ 1 ≤ number ∧
    VersionStore.Echoes body id number fs ∧
    (h.respond w.events (VersionStore.question s.client s.project e)).Tells fs

structure IsCopy (ciphertext : Bytes) (f : SecretFormat) (e : Environment) (block : Json.Fields)
    (v : SecretVersion) : Prop where
  ciphertext : v.ciphertext = ciphertext
  format : v.format = some f
  environment : v.environment = e
  metadata : v.metadata = block

variable {s : Secrets} {h : Host} {w : World} {e : Environment} {f : SecretFormat} {text : String}
  {block : Json.Fields} {given : Json} {ciphertext : Bytes}

theorem unpack_writes {v : SecretVersion} {output : Path} {plaintext : Bytes} {decrypted : World}
    (hf : v.format = some f)
    (hd : s.tool.decrypt v.ciphertext f h w = (.ok plaintext, decrypted))
    (ha : Files.Accepts h decrypted.files output) :
    ∃ w' l, s.unpack v output h w = (.ok (), w') ∧
      w'.files.find h.workDirectory output = .ok (l, .file 0o600 plaintext) := by
  obtain ⟨u, hu, hwrite⟩ := ha
  obtain ⟨t, ht⟩ := hwrite plaintext
  have hformat : Rotation.formatOf v h w = (.ok f, w) := by
    rw [Rotation.formatOf, hf]
    rfl
  have hmake : Files.makeDirectories output.parent h decrypted =
      (.ok (), decrypted.withFiles u) := by
    unfold Files.makeDirectories
    rw [hu]
    rfl
  obtain ⟨l, hl⟩ := Tree.find_write ht
  refine ⟨(decrypted.withFiles u).withFiles t, l, ?_, hl⟩
  unfold unpack
  rw [Action.bind_of_ok hformat, Action.bind_of_ok hd, Action.bind_of_ok hmake]
  exact Files.writePrivate_of_write (w := decrypted.withFiles u) ht

theorem unpack_events {v : SecretVersion} (hf : v.format = some f) (output : Path) :
    (s.unpack v output h w).2.events = (s.tool.decrypt v.ciphertext f h w).2.events := by
  have hformat : Rotation.formatOf v h w = (.ok f, w) := by
    rw [Rotation.formatOf, hf]
    rfl
  unfold unpack
  rw [Action.bind_of_ok hformat]
  rcases hd : s.tool.decrypt v.ciphertext f h w with ⟨x | plaintext, u⟩
  · rw [Action.bind_of_error hd]
  rw [Action.bind_of_ok hd]
  have hmade := makeDirectories_events h u output.parent
  rcases hm : Files.makeDirectories output.parent h u with ⟨x | _, made⟩
  · rw [Action.bind_of_error hm]
    rwa [hm] at hmade
  rw [hm] at hmade
  rw [Action.bind_of_ok hm]
  obtain ⟨c, hw⟩ | ⟨t, -, hw⟩ := Files.writePrivate_cases output plaintext h made
  · rw [hw]
    exact hmade
  · rw [hw]
    exact hmade

theorem pull_of_told (hc : Environment.choose given (some s.binding.defaultEnvironment) = .ok e)
    (hi : h.isInstalled s.tool.program = true) {v : SecretVersion}
    (ht : VersionStore.told s.client s.project e
      (h.respond w.events (VersionStore.question s.client s.project e)) = .ok v)
    (output : Option String) :
    s.pull given output h w =
      ((s.unpack v (fileOr output e) h (w.sent (VersionStore.question s.client s.project e))).1.map
          fun _ => ⟨v, fileOr output e⟩,
        (s.unpack v (fileOr output e) h
          (w.sent (VersionStore.question s.client s.project e))).2) := by
  have henv : s.environment given h w = (.ok e, w) := by
    rw [environment, Action.ofExcept_apply, hc]
    rfl
  have hp := VersionStore.pull_apply s.client s.project e h w
  rw [ht] at hp
  unfold pull
  rw [Action.bind_of_ok henv]
  unfold pullTo
  rw [Action.bind_of_ok (Tool.checkInstalled_of_installed hi w), Action.bind_of_ok hp,
    Action.bind_of_pure (g := fun _ => .ok ⟨v, fileOr output e⟩) fun _ _ => rfl]
  cases (s.unpack v (fileOr output e) h
    (w.sent (VersionStore.question s.client s.project e))).1 <;> rfl

theorem pull_of_finds (hm : Sops.metadata ciphertext = .ok block)
    (ht : Text.Utf8.decode? ciphertext = some text)
    (hf : s.Finds h w given e (VersionStore.parcel e text f block)) (output : Option String) :
    ∃ v r scene, IsCopy ciphertext f e block v ∧
      Sops.IsOpening s.tool.program f ciphertext r ∧
      (s.pull given output h w).2.events = w.events ++
        [.request ⟨VersionStore.question s.client s.project e, w.files⟩, .run ⟨r, scene⟩] ∧
      ∀ plaintext diagnostics, h.execute
          (w.events ++ [.request ⟨VersionStore.question s.client s.project e, w.files⟩]) r =
            .exited 0 plaintext diagnostics →
        Files.Accepts h w.files (fileOr output e) →
        ∃ w' l, s.pull given output h w = (.ok ⟨v, fileOr output e⟩, w') ∧
          w'.files.find h.workDirectory (fileOr output e) = .ok (l, .file 0o600 plaintext) := by
  obtain ⟨hchoose, hinstalled, hsound, hcreates, fs, id, number, hid, hn, hecho, hreply⟩ := hf
  obtain ⟨v, htold, hdata, hformat, henv, hblock⟩ :=
    VersionStore.told_of_echo s.client s.project hreply hecho hid hn
      (Sops.text_ne_empty hm ht)
  have hcopy : v.ciphertext = ciphertext := hdata.trans (Text.Utf8.encode_of_decode ht)
  have hpull := s.pull_of_told hchoose hinstalled htold output
  generalize hask : w.sent (VersionStore.question s.client s.project e) = asked at hpull
  have hfiles : asked.files = w.files := by rw [← hask, World.sent_files]
  have hevents : asked.events =
      w.events ++ [.request ⟨VersionStore.question s.client s.project e, w.files⟩] := by
    rw [← hask, World.sent_events]
  -- Both checks pass, so the decryption is a run on the file that is made for it.
  have hnul : "secrets.enc.json".toList.contains '\x00' = false := by decide
  obtain ⟨directory, l, scene, hst, hresult, hran⟩ :=
    Tool.perform_of_make (t := s.tool) (w := asked) (j := Tool.decryptJob ciphertext f)
      Tool.opened (by rw [hfiles]; exact hsound) (Scratch.create_isOk hfiles.symm hcreates) hnul rfl
  have hdecrypt : s.tool.decrypt v.ciphertext f h asked =
      s.tool.perform (Tool.decryptJob ciphertext f) Tool.opened h asked := by
    rw [hcopy, Tool.decrypt_of_ok _ _ _ _ _ (Sops.checkCiphertext_of_metadata hm),
      Action.bind_of_ok (Tool.checkInstalled_of_installed hinstalled asked)]
  refine ⟨v, _, scene, ⟨hcopy, hformat, henv, hblock⟩, hst.isOpening, ?_, ?_⟩
  · rw [hpull]
    dsimp only
    rw [unpack_events hformat, hdecrypt, hran, hevents, List.append_assoc]
    rfl
  · intro plaintext diagnostics hx haccepts
    rw [← hevents] at hx
    rcases hd : s.tool.decrypt v.ciphertext f h asked with ⟨r, decrypted⟩
    have hr : r = .ok plaintext := by
      have hfst := congrArg Prod.fst (hd.symm.trans hdecrypt)
      rw [hresult, hx] at hfst
      exact hfst
    have hsame : decrypted.files = w.files := by
      have hkept := s.tool.decrypt_files h asked v.ciphertext f (by rw [hfiles]; exact hsound)
      rw [hd, hfiles] at hkept
      exact hkept
    rw [hr] at hd
    obtain ⟨w', l, hunpack, hfind⟩ := unpack_writes hformat hd (by rw [hsame]; exact haccepts)
    refine ⟨w', l, ?_, hfind⟩
    rw [hpull, hunpack]
    rfl

theorem pushed_eq_ok {project : String} {v : Json} {u : SecretVersion}
    (hu : VersionStore.pushed project e ciphertext f block v = .ok u) :
    u.ciphertext = ciphertext ∧ u.format = some f ∧ u.metadata = block := by
  unfold VersionStore.pushed at hu
  cases hv : VersionStore.fieldsOrNone v with
  | error x =>
    rw [hv] at hu
    cases hu
  | ok fs =>
    rw [hv] at hu
    obtain ⟨_, _, -, -, -, -, -, hformat, hblock, -, -, -, -, hc⟩ := VersionStore.version_eq_ok.1 hu
    exact ⟨hc.symm, (Checked.fits.inj hformat).symm, (Checked.fits.inj hblock).symm⟩

/-- What a successful push leaves behind: a run that gave out the ciphertext and the post of it. -/
structure Posted (s : Secrets) (h : Host) (w : World) (file : Path) (e : Environment)
    (f : SecretFormat) (v : SecretVersion) (w' : World) where
  before : List Event
  run : Run.Started
  post : Request.Sent
  diagnostics : Bytes
  text : String
  events : w'.events = before ++ [.run run, .request post]
  executes : h.execute before run.toRun = .exited 0 v.ciphertext diagnostics
  encrypts : Sops.IsEncryption s.tool run.toRun
  seals : w.files.Sound h.workDirectory → file.Proper → ∀ l mode data,
    w.files.find h.workDirectory file = .ok (l, .file mode data) →
    Sops.IsSealing s.tool.program f data run.toRun
  format : v.format = some f
  metadata : Sops.metadata v.ciphertext = .ok v.metadata
  decodes : Text.Utf8.decode? v.ciphertext = some text
  body : post.body = some (.object (VersionStore.parcel e text f v.metadata))

theorem pushFile_posted {file : Path} {v : SecretVersion} {w' : World}
    (hp : s.pushFile file e f h w = (.ok v, w')) : Nonempty (Posted s h w file e f v w') := by
  obtain ⟨x, hx, -⟩ | ⟨z, -, hz⟩ := s.pushFile_cases h w file e f
  · rw [hp] at hx
    cases hx
  rw [hp] at hz
  obtain ⟨directory, l, scene, diagnostics, hst, hev, hx, hm⟩ := z.exists_run
  cases hd : Text.Utf8.decode? z.ciphertext with
  | none =>
    rw [VersionStore.push_of_no_text s.client s.project e h z.sealed f z.metadata hd] at hz
    cases hz
  | some text =>
    rw [VersionStore.push_of_text s.client s.project e h z.sealed f z.metadata hd] at hz
    obtain ⟨hv, rfl⟩ := Prod.mk.inj hz
    obtain ⟨reading, -, hreading⟩ := Client.answer_eq_ok.1 (Action.mapError_eq_ok.1 hv.symm)
    obtain ⟨hc, hf, hb⟩ := pushed_eq_ok hreading
    exact ⟨{
      before := w.events ++ [.request ⟨Roster.question s.client s.project, w.files⟩]
      run := ⟨s.tool.commandFor h (Tool.encryptJob file z.policy f) scene
        ((Tool.encryptJob file z.policy f).file directory), scene⟩
      post := ⟨VersionStore.delivery s.client s.project e f z.metadata text, z.sealed.files⟩
      diagnostics := diagnostics
      text := text
      events := by
        rw [World.sent_events, hev]
        simp
      executes := by rw [hc, hx]
      encrypts := ⟨rfl, f, file.toText, _, rfl⟩
      seals := by
        intro hs hp l mode data hfind
        obtain ⟨config, plain, harguments, hreads, -, hdata⟩ := hst.exists_reads hs hp hfind rfl
        exact ⟨rfl, config, plain, harguments, hreads, hdata⟩
      format := hf
      metadata := by rw [hc, hb, hm]
      decodes := by rw [hc, hd]
      body := by
        rw [hb]
        rfl }⟩

/-- Whatever was pushed is pulled with the same ciphertext, format, environment and metadata by any
client that is told the fields of the post, and what the tool then puts out is in a private file;
with a tool that opens what was sealed these are the bytes that were pushed. -/
theorem pull_restores_push {s : Secrets} {h : Host} {w w' : World} {file : Path}
    {given format : Json} {v : SecretVersion} (hpush : s.push file given format h w = (.ok v, w')) :
    ∃ e f, Environment.choose given (some s.binding.defaultEnvironment) = .ok e ∧
      SecretFormat.choose format = .ok f ∧ ∃ p : Posted s h w file e f v w',
      Tool.checkCiphertext v.ciphertext = .ok () ∧
      ∀ (s' : Secrets) (h' : Host) (u : World) (given' : Json) (output : Option String),
        s'.Finds h' u given' e (VersionStore.parcel e p.text f v.metadata) →
        ∃ v' r scene, IsCopy v.ciphertext f e v.metadata v' ∧
          Sops.IsOpening s'.tool.program f v.ciphertext r ∧
          (s'.pull given' output h' u).2.events = u.events ++
            [.request ⟨VersionStore.question s'.client s'.project e, u.files⟩, .run ⟨r, scene⟩] ∧
          ∀ plaintext diagnostics, h'.execute
              (u.events ++ [.request ⟨VersionStore.question s'.client s'.project e, u.files⟩]) r =
                .exited 0 plaintext diagnostics →
            Files.Accepts h' u.files (fileOr output e) →
            ∃ u' l, s'.pull given' output h' u = (.ok ⟨v', fileOr output e⟩, u') ∧
              u'.files.find h'.workDirectory (fileOr output e) =
                .ok (l, .file 0o600 plaintext) ∧
              (Sops.Inverts h s.tool.program h' s'.tool.program →
                w.files.Sound h.workDirectory → file.Proper → ∀ k mode data,
                w.files.find h.workDirectory file = .ok (k, .file mode data) →
                plaintext = data) := by
  obtain ⟨x, hx⟩ | ⟨e, f, he, hf, hp⟩ := s.push_cases h w file given format
  · rw [hpush] at hx
    cases hx
  rw [hpush] at hp
  obtain ⟨p⟩ := pushFile_posted hp.symm
  refine ⟨e, f, he, hf, p, Sops.checkCiphertext_of_metadata p.metadata, ?_⟩
  intro s' h' u given' output hfinds
  obtain ⟨v', r, scene, hcopy, hopening, hevents, hopens⟩ :=
    pull_of_finds p.metadata p.decodes hfinds output
  refine ⟨v', r, scene, hcopy, hopening, hevents, fun plaintext diagnostics hx haccepts => ?_⟩
  obtain ⟨u', l, hpull, hfind⟩ := hopens plaintext diagnostics hx haccepts
  refine ⟨u', l, hpull, hfind, fun hinverts hs hproper k mode data hdata => ?_⟩
  exact hinverts (p.seals hs hproper k mode data hdata) p.executes hopening hx

end Secrets

namespace Sample

open Secrets (Finds IsCopy)

def echo : String :=
  "\x7b\"version_id\":\"v\",\"version\":7,\"encrypted_data\":\"\x7b\\\"sops\\\":\x7b\x7d\x7d\"," ++
    "\"format\":\"dotenv\",\"environment\":\"development\",\"metadata\":\x7b\x7d\x7d"

def reader : Host := { host with respond := fun _ _ => saying echo }

def isEcho : Json.Fields → Bool
  | [(a, .text id), (b, .int n), (c, .text data), (d, .text format), (e, .text name),
      (k, .object [])] =>
    [a, b, c, d, e, k] =
        ["version_id", "version", "encrypted_data", "format", "environment", "metadata"] &&
      [id, data, format, name] = ["v", ciphertext, "dotenv", "development"] && n = 7
  | _ => false

theorem tells_echo :
    (saying echo).Tells (("version_id", .text "v") :: ("version", .int 7) ::
      VersionStore.parcel .development ciphertext .dotenv []) := by
  have hv : Passing isEcho echo = true := by decide +kernel
  unfold Passing at hv
  split at hv
  next fs hj =>
    unfold isEcho at hv
    split at hv
    · simp only [Bool.and_eq_true, decide_eq_true_eq, List.cons.injEq] at hv
      obtain ⟨⟨⟨rfl, rfl, rfl, rfl, rfl, rfl, -⟩, rfl, rfl, rfl, rfl, -⟩, rfl⟩ := hv
      exact ⟨200, "", _, rfl, by decide, by decide, by decide +kernel, hj⟩
    · cases hv
  · cases hv

theorem inverts : Sops.Inverts host "sops" reader "sops" := by
  rintro f plain data es r es' r' output diagnostics diagnostics' ⟨-, config, file, -, hr, rfl⟩ hx
    ⟨-, sealed, -, hr', rfl⟩ hx'
  exact (outcome_of_opening hr' hx').1.trans (outcome_of_sealing hr hx).1.symm

theorem push_isOk :
    (Desk.secrets.push (.ofText "env") .null .null host Desk.world).1.toOption.map
      (fun v => (v.ciphertext, v.metadata.isEmpty)) =
        some (Text.Utf8.encode ciphertext, true) := by
  decide +kernel

/-- The file that was pushed comes back. -/
theorem file_comes_back :
    ∃ v w' p u' l data,
      Desk.tree.find host.workDirectory (.ofText "env") =
        .ok (["work", "env"], .file 0o644 data) ∧
      Desk.secrets.push (.ofText "env") .null .null host Desk.world = (.ok v, w') ∧
      Desk.secrets.pull .null none reader Desk.world = (.ok p, u') ∧
      u'.files.find reader.workDirectory p.output = .ok (l, .file 0o600 data) := by
  rcases hpush : Desk.secrets.push (.ofText "env") .null .null host Desk.world with ⟨r, w'⟩
  have hv := push_isOk
  rw [hpush] at hv
  cases r with
  | error x => cases hv
  | ok v =>
  obtain ⟨hdata, hempty⟩ := Prod.mk.inj (Option.some.inj hv)
  have hblock : v.metadata = [] := List.isEmpty_iff.1 hempty
  obtain ⟨e, f, he, hf, p, -, hpull⟩ := Secrets.pull_restores_push hpush
  obtain rfl : Environment.development = e := Except.ok.inj he
  obtain rfl : SecretFormat.dotenv = f := Except.ok.inj hf
  have htext : p.text = ciphertext := by
    have hdecodes := p.decodes
    have hd : Text.Utf8.decode? (Text.Utf8.encode ciphertext) = some ciphertext := by
      decide +kernel
    rw [hdata, hd] at hdecodes
    exact (Option.some.inj hdecodes).symm
  have hfinds : Desk.secrets.Finds reader Desk.world .null .development
      (VersionStore.parcel .development p.text .dotenv v.metadata) :=
    { chooses := rfl
      installed := rfl
      sound := Desk.sound_tree
      creates := by decide +kernel
      tells := by
        rw [htext, hblock]
        exact ⟨_, .text "v", 7, rfl, by decide, VersionStore.echoes_cons _ _ _, tells_echo⟩ }
  obtain ⟨v', r, scene, -, ⟨-, sealed, -, hreads, hsealed⟩, -, hopens⟩ :=
    hpull Desk.secrets reader Desk.world .null none hfinds
  have hx : reader.execute (Desk.world.events ++ [.request ⟨VersionStore.question
      Desk.secrets.client Desk.secrets.project .development, Desk.world.files⟩]) r =
        .exited 0 plaintext [] := by
    show outcome r = _
    rw [outcome, hreads]
    dsimp only
    rw [if_pos (.inl (hsealed.trans hdata))]
  have haccepts : Files.Accepts reader Desk.world.files (Secrets.fileOr none .development) :=
    ⟨Desk.tree, rfl, fun data => ⟨_, rfl⟩⟩
  obtain ⟨u', l, hpulled, hfind, hsame⟩ := hopens plaintext [] hx haccepts
  have hfile : Desk.tree.find host.workDirectory (.ofText "env") =
      .ok (["work", "env"], .file 0o644 (Text.Utf8.encode Desk.text)) := by decide +kernel
  rw [hsame inverts Desk.sound_tree (Path.proper_ofText _) _ _ _ hfile] at hfind
  exact ⟨v, w', _, u', l, _, hfile, rfl, hpulled, hfind⟩

end Sample

end TeamVault
