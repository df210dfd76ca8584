import TeamVault.Proofs.PulledFile

/-!
A sync publishes what it pulled. The run that encrypts reads the file when it holds what the run
that decrypted has put out, so what was in the file before is never published; a first sync
publishes the file as it was. After a sync the file is as it was or as it was pulled.
-/
namespace TeamVault

open Sops (Tool)

def Event.IsDecryption : Event → Prop
  | .request _ => False
  | .run r => ∃ f encrypted, r.arguments = Tool.decryptArguments f encrypted

theorem Sops.IsSealing.not_isDecryption {program : String} {f : SecretFormat} {data : Bytes}
    {r : Run} (hr : IsSealing program f data r) (scene : Tree) :
    ¬ Event.IsDecryption (.run ⟨r, scene⟩) := by
  rintro ⟨g, encrypted, hd⟩
  obtain ⟨-, config, plain, he, -⟩ := hr
  have harguments := he.symm.trans hd
  exact absurd (List.head_eq_of_cons_eq harguments) (by decide)

theorem Sops.Tool.plaintext_of_encryptArguments {f g : SecretFormat}
    {plaintext plaintext' config config' : String}
    (ha : encryptArguments f plaintext config = encryptArguments g plaintext' config') :
    plaintext = plaintext' := by
  simp only [encryptArguments, List.cons.injEq] at ha
  exact ha.2.2.2.2.2.2.2.1

namespace Secrets

variable {s : Secrets} {h : Host} {w v w' : World} {e : Environment} {file : Path}
  {f : SecretFormat} {data : Bytes}

/-- The latest version is told, opened in one run of the tool, and all that the run has put out is
written to the file. -/
structure Fetches (s : Secrets) (e : Environment) (file : Path) (h : Host) (w : World)
    (version : SecretVersion) (f : SecretFormat) (plaintext : Bytes) (v : World) : Prop where
  told : VersionStore.told s.client s.project e
    (h.respond w.events (VersionStore.question s.client s.project e)) = .ok version
  format : version.format = some f
  ran : ∃ r scene diagnostics, Sops.IsOpening s.tool.program f version.ciphertext r ∧
    h.execute (w.sent (VersionStore.question s.client s.project e)).events r =
      .exited 0 plaintext diagnostics ∧
    v.events = (w.sent (VersionStore.question s.client s.project e)).events ++ [.run ⟨r, scene⟩]
  receives : Tree.Receives h.workDirectory file plaintext w.files v.files

theorem Delivers.fetches {p : Pulled} (hd : Delivers s e file h w p v) :
    ∃ f plaintext, Fetches s e file h w p.version f plaintext v := by
  obtain ⟨f, r, scene, plaintext, diagnostics, hf, hr, hx, hev, hfile⟩ := hd.ran
  exact ⟨f, plaintext, hd.told, hf, ⟨r, scene, diagnostics, hr, hx, hev⟩, hfile⟩

/-- The file holds the data when the tool encrypts it, and what the tool then puts out is posted as
a version of the format. There is no other request than for the members, and no other run. -/
structure Publishes (s : Secrets) (e : Environment) (file : Path) (f : SecretFormat) (data : Bytes)
    (h : Host) (w : World) (version : SecretVersion) (w' : World) : Prop where
  holds : ∃ l mode, w.files.find h.workDirectory file = .ok (l, .file mode data)
  ran : ∃ r scene text diagnostics, Sops.IsSealing s.tool.program f data r ∧
    (∃ l mode, scene.find h.workDirectory file = .ok (l, .file mode data)) ∧
    (∃ plain ∈ r.reads, plain.path = file.toText ∧ plain.data = data) ∧
    h.execute (w.sent (Roster.question s.client s.project)).events r =
      .exited 0 version.ciphertext diagnostics ∧
    Text.Utf8.decode? version.ciphertext = some text ∧
    w'.events = (w.sent (Roster.question s.client s.project)).events ++ [.run ⟨r, scene⟩,
      .request ⟨VersionStore.delivery s.client s.project e f version.metadata text, w.files⟩]
  format : version.format = some f
  files : w'.files = w.files

theorem pushFile_publishes (hs : w.files.Sound h.workDirectory) (hp : file.Proper)
    {version : SecretVersion} (hpush : s.pushFile file e f h w = (.ok version, w')) :
    ∃ data, Publishes s e file f data h w version w' := by
  obtain ⟨x, hx, -⟩ | ⟨z, ⟨l, mode, data, hfind⟩, hz⟩ := s.pushFile_cases h w file e f
  · rw [hpush] at hx
    cases hx
  have hkept := (s.pushFile_confined hs file e f).files
  rw [hpush] at hz hkept
  have hasked : (w.sent (Roster.question s.client s.project)).files.Sound h.workDirectory := hs
  have hsealed := s.tool.encrypt_files h _ file z.policy f hasked
  rw [z.encrypts] at hsealed
  obtain ⟨directory, k, scene, diagnostics, hst, hev, hx, -⟩ := z.exists_run
  obtain ⟨config, plain, harguments, hreads, -, hdata⟩ := hst.exists_reads (t := s.tool) hs hp
    hfind rfl
  cases hd : Text.Utf8.decode? z.ciphertext with
  | none =>
    rw [VersionStore.push_of_no_text s.client s.project e h z.sealed f z.metadata hd] at hz
    cases hz
  | some text =>
    rw [VersionStore.push_of_text s.client s.project e h z.sealed f z.metadata hd] at hz
    obtain ⟨hv, rfl⟩ := Prod.mk.inj hz
    obtain ⟨answered, -, hanswered⟩ := Client.answer_eq_ok.1 (Action.mapError_eq_ok.1 hv.symm)
    obtain ⟨hciphertext, hformat, hblock⟩ := pushed_eq_ok hanswered
    refine ⟨data, ⟨l, mode, hfind⟩, ⟨_, scene, text, diagnostics,
      ⟨rfl, config, plain, harguments, hreads, hdata⟩, ⟨l, mode, (hst.addsPrivately hs).find hfind⟩,
      ⟨plain, ?_, ?_, hdata⟩, ?_, ?_, ?_⟩, hformat, hkept⟩
    · rw [hreads]
      simp
    · exact (Tool.plaintext_of_encryptArguments harguments).symm
    · rw [hciphertext]
      exact hx
    · rw [hciphertext]
      exact hd
    · rw [World.sent_events, hev, hblock, show z.sealed.files = w.files from hsealed]
      simp

theorem Publishes.emitted {version : SecretVersion}
    (hp : Publishes s e file f data h w version w') : Emitted (¬ ·.IsDecryption) w w' := by
  obtain ⟨r, scene, text, -, hr, -, -, -, -, hev⟩ := hp.ran
  have hasked : Emitted (¬ ·.IsDecryption) w (w.sent (Roster.question s.client s.project)) :=
    .single (World.sent_events w _) id
  refine hasked.trans ⟨_, hev, fun d hd => ?_⟩
  simp only [List.mem_cons, List.not_mem_nil, or_false] at hd
  obtain rfl | rfl := hd
  · exact hr.not_isDecryption scene
  · exact id

theorem Start.cases {pulled : Option Pulled} (hs : w.files.Sound h.workDirectory)
    (hst : Start s h w e file pulled f v) : v.files.Sound h.workDirectory ∧
      ((∃ p plaintext, pulled = some p ∧ Fetches s e file h w p.version f plaintext v) ∨
        ∃ x, pulled = none ∧ f = .dotenv ∧ Rotation.isNotFound x = true ∧
          VersionStore.told s.client s.project e
            (h.respond w.events (VersionStore.question s.client s.project e)) = .error x ∧
          v = w.sent (VersionStore.question s.client s.project e)) := by
  cases hst with
  | taken t =>
    obtain ⟨g, plaintext, hf⟩ := (t.delivers hs).fetches
    obtain rfl : g = t.format := Option.some.inj (hf.format.symm.trans t.tells)
    exact ⟨(t.file hs).1, .inl ⟨_, plaintext, rfl, hf⟩⟩
  | first told missing => exact ⟨hs, .inr ⟨_, rfl, rfl, missing, told, rfl⟩⟩

theorem pullIfAny_fault (hs : w.files.Sound h.workDirectory) {x : Fault}
    (hp : s.pullIfAny e file h w = (.error (.fault x), w')) : w'.files = w.files := by
  unfold pullIfAny at hp
  rw [Action.recover_apply] at hp
  rcases hpull : s.pullTo e file h w with ⟨y | p, u⟩
  · rw [Action.bind_of_error hpull] at hp
    dsimp only at hp
    split at hp
    · cases hp
    · cases hp
      exact pullTo_fault hs hpull
  · rw [Action.bind_of_ok hpull] at hp
    cases hp

theorem sync_files (given : Json) (name : Option String) (hs : w.files.Sound h.workDirectory)
    {r : Except Failure Synced} (hsync : s.sync given name h w = (r, w'))
    (hr : ∀ c, r ≠ .error (.crash c)) :
    w'.files = w.files ∨ ∃ e version f plaintext v,
      Environment.choose given (some s.binding.defaultEnvironment) = .ok e ∧
      Fetches s e (fileOr name e) h w version f plaintext v ∧
      Tree.Receives h.workDirectory (fileOr name e) plaintext w.files w'.files := by
  cases he : Environment.choose given (some s.binding.defaultEnvironment) with
  | error x =>
    have henv : s.environment given h w = (.error (.fault x), w) := by
      rw [environment, Action.ofExcept_apply, he]
      rfl
    rw [sync, Action.bind_of_error henv] at hsync
    cases hsync
    exact .inl rfl
  | ok e =>
  rw [sync_eq he] at hsync
  obtain ⟨x, v, hp, -⟩ | ⟨pulled, f, v, hst, -, hp⟩ := s.pullIfAny_cases h w e (fileOr name e)
  · rw [hp] at hsync
    cases hsync
    cases x with
    | fault x => exact .inl (pullIfAny_fault hs hp)
    | crash c => exact absurd rfl (hr c)
  rw [hp] at hsync
  obtain ⟨hsound, hfiles⟩ := hst.cases hs
  -- Whatever the push makes of what was pulled, it leaves the files alone.
  have hkept := (s.pushBack_confined hsound e (fileOr name e) pulled).files
  dsimp only at hsync
  rw [hsync] at hkept
  obtain ⟨p, plaintext, -, hf⟩ | ⟨x, -, -, -, -, rfl⟩ := hfiles
  · exact .inr ⟨e, p.version, f, plaintext, v, rfl, hf, hkept.symm ▸ hf.receives⟩
  · exact .inl hkept

/-- A sync that went on from a version has published, in the format of that version, what opening
it has put into the file. A first sync has published the file of before as dotenv and has run
nothing that decrypts. After any sync that has not crashed the files are as they were, but for one
that holds the latest version in full. -/
theorem sync_publishes_pulled (given : Json) (name : Option String)
    (hs : w.files.Sound h.workDirectory) :
    (∀ r w', s.sync given name h w = (.ok r, w') → ∃ e,
      Environment.choose given (some s.binding.defaultEnvironment) = .ok e ∧
      match r.pulled with
      | some p => ∃ f plaintext v, Fetches s e (fileOr name e) h w p.version f plaintext v ∧
        Publishes s e (fileOr name e) f plaintext h v r.pushed w'
      | none => ∃ x data, VersionStore.told s.client s.project e
            (h.respond w.events (VersionStore.question s.client s.project e)) = .error x ∧
          Rotation.isNotFound x = true ∧
        Publishes s e (fileOr name e) .dotenv data h
          (w.sent (VersionStore.question s.client s.project e)) r.pushed w' ∧
        w'.files = w.files ∧ Emitted (¬ ·.IsDecryption) w w') ∧
    ∀ r w', s.sync given name h w = (r, w') → (∀ c, r ≠ .error (.crash c)) →
      w'.files = w.files ∨ ∃ e version f plaintext v,
        Environment.choose given (some s.binding.defaultEnvironment) = .ok e ∧
        Fetches s e (fileOr name e) h w version f plaintext v ∧
        Tree.Receives h.workDirectory (fileOr name e) plaintext w.files w'.files := by
  refine ⟨fun r w' hsync => ?_, fun r w' => sync_files given name hs⟩
  obtain ⟨x, hx, -⟩ | ⟨e, pulled, f, v, he, hst, -, hpush⟩ := s.sync_cases h w given name
  · rw [hsync] at hx
    cases hx
  rw [hsync] at hpush
  rcases hp : s.pushFile (fileOr name e) e f h v with ⟨x | version, u⟩
  · rw [hp] at hpush
    cases hpush
  rw [hp] at hpush
  cases hpush
  obtain ⟨hsound, hfiles⟩ := hst.cases hs
  obtain ⟨data, hpub⟩ := pushFile_publishes hsound (proper_fileOr name e) hp
  refine ⟨e, he, ?_⟩
  obtain ⟨p, plaintext, rfl, hf⟩ | ⟨x, rfl, rfl, hmissing, htold, rfl⟩ := hfiles
  · obtain ⟨l, hl, -⟩ := hf.receives
    obtain ⟨k, mode, hk⟩ := hpub.holds
    obtain rfl : data = plaintext := by
      rw [hl] at hk
      cases hk
      rfl
    exact ⟨f, data, v, hf, hpub⟩
  · have hasked : Emitted (¬ ·.IsDecryption) w
        (w.sent (VersionStore.question s.client s.project e)) :=
      .single (World.sent_events w _) id
    exact ⟨x, data, htold, hmissing, hpub, hpub.files, hasked.trans hpub.emitted⟩

end Secrets

namespace Sample

open Secrets (Fetches Publishes)

def syncsFirst (name answer : String) : Option Bool :=
  (Desk.secrets.sync .null (some name) (bareHost answer) Desk.world).1.toOption.map (·.isFirst)

theorem exists_of_syncsFirst {name answer : String} {first : Bool}
    (hf : syncsFirst name answer = some first) :
    ∃ r w', Desk.secrets.sync .null (some name) (bareHost answer) Desk.world = (.ok r, w') ∧
      r.pulled.isNone = first := by
  unfold syncsFirst at hf
  rcases hr : Desk.secrets.sync .null (some name) (bareHost answer) Desk.world with ⟨_ | r, w'⟩
  · rw [hr] at hf
    cases hf
  · rw [hr] at hf
    exact ⟨r, w', rfl, Option.some.inj hf⟩

/-- Where there was no file, what was pulled is published from the new one; where nothing is stored,
the file is published as it is. -/
theorem sync_publishes_new_or_own :
    (∃ r w' p f plaintext v,
      Desk.secrets.sync .null (some "new/env") (bareHost echo) Desk.world = (.ok r, w') ∧
      (Desk.tree.find Desk.host.workDirectory (.ofText "new/env")).isOk = false ∧
      r.pulled = some p ∧
      Fetches Desk.secrets .development (.ofText "new/env") (bareHost echo) Desk.world p.version f
        plaintext v ∧
      Publishes Desk.secrets .development (.ofText "new/env") f plaintext (bareHost echo) v r.pushed
        w') ∧
    ∃ r w' data v, Desk.secrets.sync .null (some "env") (bareHost "null") Desk.world = (.ok r, w') ∧
      Publishes Desk.secrets .development (.ofText "env") .dotenv data (bareHost "null") v r.pushed
        w' ∧ w'.files = Desk.tree := by
  constructor
  · obtain ⟨r, w', hr, hfirst⟩ := exists_of_syncsFirst
      (show syncsFirst "new/env" echo = some false by decide +kernel)
    obtain ⟨e, he, hsync⟩ := (Secrets.sync_publishes_pulled .null (some "new/env")
      Desk.sound_tree).1 r w' hr
    obtain rfl : Environment.development = e := Except.ok.inj he
    obtain ⟨pulled, pushed⟩ := r
    cases pulled with
    | none => cases hfirst
    | some p =>
      obtain ⟨f, plaintext, v, hf, hpub⟩ := hsync
      exact ⟨_, w', p, f, plaintext, v, hr, by decide +kernel, rfl, hf, hpub⟩
  · obtain ⟨r, w', hr, hfirst⟩ := exists_of_syncsFirst
      (show syncsFirst "env" "null" = some true by decide +kernel)
    obtain ⟨e, he, hsync⟩ := (Secrets.sync_publishes_pulled .null (some "env")
      Desk.sound_tree).1 r w' hr
    obtain rfl : Environment.development = e := Except.ok.inj he
    obtain ⟨pulled, pushed⟩ := r
    cases pulled with
    | some p => cases hfirst
    | none =>
      obtain ⟨x, data, -, -, hpub, hfiles, -⟩ := hsync
      exact ⟨_, w', data, _, hr, hpub, hfiles⟩

end Sample

end TeamVault
