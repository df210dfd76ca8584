import TeamVault.Proofs.FileSteps
import TeamVault.Proofs.NothingStored

/-!
A pull is all or nothing. One that fails with a fault leaves the tree as it was; one that returns
has put what the tool gave out at the output path, for its owner alone, with the directories on the
way there that were missing and nothing else.
-/
namespace TeamVault

namespace Tree

variable {t u : Tree} {here spot : Location}

def Passes (t : Tree) (spot : Location) (names : List String) (l : Location) : Prop :=
  ∃ first, first <+: names ∧ t.walk spot first = .ok l

def KeptOrMade (t u : Tree) (spot : Location) (names : List String) (l : Location) : Prop :=
  u.node? l = t.node? l ∨
    t.node? l = none ∧ u.node? l = some (.directory 0o755) ∧ u.Passes spot names l

theorem Keeps.directories (hk : t.Keeps u) : KeepsDirectories t u := fun l ⟨m, hm⟩ => ⟨m, hk l _ hm⟩

theorem passes_cons {name : String} {rest : List String} {next l : Location}
    (hd : t.IsDirectory spot) (hc : checkName name = .ok ())
    (hn : (if name = ".." then spot.dropLast else spot ++ [name]) = next)
    (hp : t.Passes next rest l) : t.Passes spot (name :: rest) l := by
  obtain ⟨first, hf, hw⟩ := hp
  refine ⟨name :: first, List.cons_prefix_cons.2 ⟨rfl, hf⟩, ?_⟩
  rw [walk_cons hd, hc, hn]
  exact hw

theorem keptOrMade_of_makeAlong {names : List String} (hd : t.IsDirectory spot)
    (hm : t.makeAlong spot names = (u, none)) (l : Location) : KeptOrMade t u spot names l := by
  induction names generalizing t spot with
  | nil =>
    cases hm
    exact .inl rfl
  | cons name rest ih =>
    have hk := makeAlong_keeps (t := t) spot (name :: rest)
    rw [hm] at hk
    have hdu : u.IsDirectory spot := hk.directories spot hd
    rw [makeAlong] at hm
    cases hc : checkName name with
    | error e =>
      rw [hc] at hm
      cases hm
    | ok _ =>
      rw [hc] at hm
      dsimp only at hm
      generalize hnext : (if name = ".." then spot.dropLast else spot ++ [name]) = next at hm
      have along : u.Passes next rest l → u.Passes spot (name :: rest) l :=
        passes_cons hdu hc hnext
      cases hn : t.node? next with
      | some n =>
        rw [hn] at hm
        cases n with
        | file => cases hm
        | directory mode =>
          have hrest := ih ⟨mode, hn⟩ hm
          exact hrest.imp_right fun hmade => ⟨hmade.1, hmade.2.1, along hmade.2.2⟩
      | none =>
        rw [hn] at hm
        dsimp only at hm
        have hput : (t.put next (.directory 0o755)).node? next = some (.directory 0o755) := by
          rw [node?_put, if_pos rfl]
        by_cases hl : l = next
        · have hkeeps := makeAlong_keeps (t := t.put next (.directory 0o755)) next rest
          rw [hm] at hkeeps
          rw [hl]
          exact .inr ⟨hn, hkeeps next _ hput, passes_cons hdu hc hnext ⟨[], List.nil_prefix, rfl⟩⟩
        · have hrest := ih ⟨0o755, hput⟩ hm
          rw [KeptOrMade, node?_put, if_neg hl] at hrest
          exact hrest.imp_right fun hmade => ⟨hmade.1, hmade.2.1, along hmade.2.2⟩

/-- A private file with the given bytes is where a path leads. All else is as it was, but for new
directories on the way there. -/
def Receives (here : Location) (p : Path) (data : Bytes) (t u : Tree) : Prop :=
  ∃ l, u.find here p = .ok (l, .file 0o600 data) ∧ ¬ t.IsDirectory l ∧
    ∀ k, k ≠ l → KeptOrMade t u (start here p) p.parent.names k

theorem receives_of_write {made : Tree} {p : Path} {data : Bytes} (hs : t.Sound here)
    (hm : t.makeDirectories here p.parent = (made, none))
    (hw : made.write here p (some 0o600) data = .ok u) : Receives here p data t u := by
  obtain ⟨l, hl, hfree, -, rfl⟩ := write_eq_ok hw
  have hk : t.Keeps made := by
    have hk := makeDirectories_keeps (t := t) here p.parent
    rwa [hm] at hk
  have hput := keepsDirectories_put hfree (.file 0o600 data)
  have hmade : ∀ k, KeptOrMade t made (start here p) p.parent.names k := by
    unfold makeDirectories at hm
    split at hm
    · cases hm
    · exact keptOrMade_of_makeAlong (hs.start_isDirectory p) hm
  refine ⟨l, find_of_locate (locate_mono hput hl) (by rw [node?_put, if_pos rfl]),
    fun hd => hfree (hk.directories l hd), ?_⟩
  intro k hne
  rw [KeptOrMade, node?_put, if_neg hne]
  exact (hmade k).imp_right fun ⟨hnone, hnew, first, hf, hwalk⟩ =>
    ⟨hnone, hnew, first, hf, walk_mono hput hwalk⟩

end Tree

theorem Files.makeDirectories_eq_ok {h : Host} {w w' : World} {p : Path}
    (hm : Files.makeDirectories p h w = (.ok (), w')) :
    w.files.makeDirectories h.workDirectory p = (w'.files, none) ∧ w'.events = w.events := by
  unfold Files.makeDirectories at hm
  rcases hr : w.files.makeDirectories h.workDirectory p with ⟨u, e | _⟩
  · rw [hr] at hm
    cases hm
    exact ⟨rfl, rfl⟩
  · rw [hr] at hm
    cases hm

namespace Secrets

variable {s : Secrets} {h : Host} {w w' : World} {e : Environment} {output : Path}

/-- What a pull that returned has done: one question, one run of the tool that opened what the
service told, and a file with all that the run gave out. -/
structure Delivers (s : Secrets) (e : Environment) (output : Path) (h : Host) (w : World)
    (p : Pulled) (w' : World) : Prop where
  told : VersionStore.told s.client s.project e
    (h.respond w.events (VersionStore.question s.client s.project e)) = .ok p.version
  output_eq : p.output = output
  ran : ∃ f r scene plaintext diagnostics, p.version.format = some f ∧
    Sops.IsOpening s.tool.program f p.version.ciphertext r ∧
    h.execute (w.sent (VersionStore.question s.client s.project e)).events r =
      .exited 0 plaintext diagnostics ∧
    w'.events = (w.sent (VersionStore.question s.client s.project e)).events ++
      [.run ⟨r, scene⟩] ∧
    Tree.Receives h.workDirectory output plaintext w.files w'.files

theorem unpack_fault {version : SecretVersion} (hs : w.files.Sound h.workDirectory) {f : Fault}
    (hu : s.unpack version output h w = (.error (.fault f), w')) : w'.files = w.files := by
  unfold unpack at hu
  cases hformat : version.format with
  | none =>
    have ha : Rotation.formatOf version h w = (.error (.crash .shape), w) := by
      rw [Rotation.formatOf, hformat]
      rfl
    rw [Action.bind_of_error ha] at hu
    cases hu
  | some format =>
  have ha : Rotation.formatOf version h w = (.ok format, w) := by
    rw [Rotation.formatOf, hformat]
    rfl
  rw [Action.bind_of_ok ha] at hu
  have hfiles := s.tool.decrypt_files h w version.ciphertext format hs
  rcases hd : s.tool.decrypt version.ciphertext format h w with ⟨x | plaintext, v⟩
  · rw [hd] at hfiles
    rw [Action.bind_of_error hd] at hu
    cases hu
    exact hfiles
  rw [Action.bind_of_ok hd] at hu
  -- From here on only the file system can fail, and what it says is not a fault.
  rcases hm : Files.makeDirectories output.parent h v with ⟨x | _, made⟩
  · obtain ⟨c, rfl⟩ := crash_of_makeDirectories h v hm
    rw [Action.bind_of_error hm] at hu
    cases hu
  rw [Action.bind_of_ok hm] at hu
  obtain ⟨c, hw⟩ | ⟨u, -, hw⟩ := Files.writePrivate_cases output plaintext h made
  · rw [hw] at hu
    cases hu
  · rw [hw] at hu
    cases hu

theorem pullTo_fault (hs : w.files.Sound h.workDirectory) {f : Fault}
    (hp : s.pullTo e output h w = (.error (.fault f), w')) : w'.files = w.files := by
  unfold pullTo at hp
  obtain hi | hi := s.tool.checkInstalled_cases h w
  swap
  · rw [Action.bind_of_error hi] at hp
    cases hp
    rfl
  rw [Action.bind_of_ok hi] at hp
  have hpull := VersionStore.pull_apply s.client s.project e h w
  rcases htold : VersionStore.told s.client s.project e
      (h.respond w.events (VersionStore.question s.client s.project e)) with x | version
  · rw [htold] at hpull
    rw [Action.bind_of_error hpull] at hp
    cases hp
    rfl
  rw [htold] at hpull
  rw [Action.bind_of_ok hpull] at hp
  rcases hu : s.unpack version output h
    (w.sent (VersionStore.question s.client s.project e)) with ⟨x | _, v⟩
  · have hsent : (w.sent (VersionStore.question s.client s.project e)).files.Sound
        h.workDirectory := hs
    rw [Action.bind_of_error hu] at hp
    cases hp
    have hsame := unpack_fault hsent hu
    exact hsame
  · rw [Action.bind_of_ok hu] at hp
    cases hp

theorem Taken.delivers (hs : w.files.Sound h.workDirectory) (t : Taken s e output h w) :
    Delivers s e output h w ⟨t.version, output⟩ t.taken := by
  have hruns := s.tool.decrypt_runs h (w.sent (VersionStore.question s.client s.project e))
    t.version.ciphertext t.format
  have hfiles := s.tool.decrypt_files h (w.sent (VersionStore.question s.client s.project e))
    t.version.ciphertext t.format hs
  rw [t.decrypts] at hruns hfiles
  obtain ⟨d, l, scene, code, out, diagnostics, hst, hevents, hx, ho⟩ := hruns.of_ok
  obtain ⟨rfl, rfl⟩ := Sops.Tool.opened_eq_ok ho
  -- The scratch directory is gone again, so the directories are made in the tree of before.
  have hdecrypted : t.decrypted.files = w.files := hfiles
  obtain ⟨hmakes, hmade⟩ := Files.makeDirectories_eq_ok t.makes
  rw [hdecrypted] at hmakes
  obtain ⟨c, hw⟩ | ⟨u, hu, hw⟩ :=
    Files.writePrivate_cases output t.plaintext h t.made
  · rw [t.writes] at hw
    cases hw
  have htaken : t.taken = t.made.withFiles u := by
    rw [t.writes] at hw
    exact congrArg Prod.snd hw
  refine ⟨t.told, rfl, t.format, _, scene, t.plaintext, diagnostics, t.tells, hst.isOpening, hx,
    ?_, ?_⟩
  · rw [htaken]
    exact hmade.trans hevents
  · rw [htaken]
    exact Tree.receives_of_write hs hmakes hu

/-- A pull that raises a fault has changed no file. One that returns has put the whole output of a
run that exited with zero at the output path, and has changed nothing else. -/
theorem pull_whole (given : Json) (file : Option String) (hs : w.files.Sound h.workDirectory) :
    (∀ f w', s.pull given file h w = (.error (.fault f), w') → w'.files = w.files) ∧
    ∀ p w', s.pull given file h w = (.ok p, w') → ∃ e,
      Environment.choose given (some s.binding.defaultEnvironment) = .ok e ∧
      Delivers s e (fileOr file e) h w p w' := by
  have henv : s.environment given h w = (_, w) := Action.ofExcept_apply _
  unfold pull
  rcases he : Environment.choose given (some s.binding.defaultEnvironment) with x | e
  · rw [he] at henv
    rw [Action.bind_of_error henv]
    refine ⟨fun f w' hp => ?_, fun p w' hp => ?_⟩
    · cases hp
      rfl
    · cases hp
  rw [he] at henv
  rw [Action.bind_of_ok henv]
  refine ⟨fun f w' hp => pullTo_fault hs hp, fun p w' hp => ⟨e, rfl, ?_⟩⟩
  obtain ⟨x, v, hx, -, -⟩ | ⟨t, ht, -⟩ := s.pullTo_cases h w e (fileOr file e)
  · rw [hx] at hp
    cases hp
  · rw [ht] at hp
    cases hp
    exact t.delivers hs

end Secrets

namespace Sample

theorem pull_isOk :
    (Desk.secrets.pull .null (some "env") reader Desk.world).1.isOk = true := by
  decide +kernel

theorem isFault_of_unreachable :
    (match (Desk.secrets.pull .null (some "new/env") Desk.host Desk.world).1 with
      | .error (.fault _) => true
      | _ => false) = true := by
  decide +kernel

/-- A file that anyone could read is replaced by one that only its owner can, and without a service
there is not even a new directory. -/
theorem pull_replaces_or_leaves :
    (∃ p w', Desk.secrets.pull .null (some "env") reader Desk.world = (.ok p, w') ∧
      Desk.tree.find reader.workDirectory (.ofText "env") =
        .ok (["work", "env"], .file 0o644 (Text.Utf8.encode Desk.text)) ∧
      Secrets.Delivers Desk.secrets .development (.ofText "env") reader Desk.world p w') ∧
    ∃ f w', Desk.secrets.pull .null (some "new/env") Desk.host Desk.world =
        (.error (.fault f), w') ∧ w'.files = Desk.tree := by
  constructor
  · obtain ⟨p, hp⟩ := Action.exists_of_isOk pull_isOk
    generalize (Desk.secrets.pull .null (some "env") reader Desk.world).2 = w' at hp
    obtain ⟨e, he, hd⟩ :=
      (Secrets.pull_whole .null (some "env") Desk.sound_tree).2 p w' hp
    obtain rfl : Environment.development = e := Except.ok.inj he
    exact ⟨p, w', hp, by decide +kernel, hd⟩
  · have hx := isFault_of_unreachable
    rcases hp : Desk.secrets.pull .null (some "new/env") Desk.host Desk.world with ⟨r, w'⟩
    rw [hp] at hx
    rcases r with (f | c) | p
    · exact ⟨f, w', rfl, (Secrets.pull_whole .null (some "new/env") Desk.sound_tree).1 f w' hp⟩
    · cases hx
    · cases hx

end Sample

end TeamVault
