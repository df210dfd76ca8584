import TeamVault.Proofs.Scratch
import TeamVault.Sops.Tool

/-!
Runs of the encryption tool. A run sees one private file that is made for it and gone after it; what
it yields is told by its exit code and its output.
-/
namespace TeamVault

def World.ran (w : World) (r : Run) : World := w.log (.run ⟨r, w.files⟩)

def Failure.IsLocal : Failure → Prop
  | .fault f => f.kind = .engine ∨ f.kind.parent? = some .engine
  | .crash _ => True

def Files.viewsIn (h : Host) (t : Tree) (paths : List String) : List FileView :=
  paths.filterMap (Files.view? t h.workDirectory)

theorem Files.viewsIn_cons {h : Host} {t : Tree} {path : String} {v : FileView}
    (hv : Files.view? t h.workDirectory path = some v) (rest : List String) :
    Files.viewsIn h t (path :: rest) = v :: Files.viewsIn h t rest :=
  List.filterMap_cons_some hv

theorem Files.viewsIn_nil (h : Host) (t : Tree) : Files.viewsIn h t [] = [] := rfl

namespace Sops

open TeamVault.Tree (Sound Inside AddsPrivately)

structure Job where
  start : String
  name : String
  data : Bytes
  arguments : String → List String
  reads : String → List String
  isName : Path.IsName name
  notAbove : name ≠ ".."

def Job.file (j : Job) (directory : Path) : Path := directory.child j.name

structure Staged (h : Host) (t : Tree) (j : Job) (directory : Path) (l : Location)
    (scene : Tree) : Prop where
  named : ∃ n, directory = Scratch.nameIn h j.start h.temporary n
  fresh : Scratch.Fresh h t directory l
  written : (Scratch.opening t l).write h.workDirectory (directory.child j.name) (some 0o600)
    j.data = .ok scene

namespace Staged

variable {h : Host} {t scene : Tree} {j : Job} {directory : Path} {l : Location}
  (hst : Staged h t j directory l scene)
include hst

theorem proper : (j.file directory).Proper := by
  obtain ⟨n, rfl⟩ := hst.named
  exact (Scratch.proper_nameIn h j.start h.temporary n).child j.name

theorem view_data :
    ∃ v, Files.view? scene h.workDirectory (j.file directory).toText = some v ∧
      v.path = (j.file directory).toText ∧ v.data = j.data :=
  Files.view?_of_write hst.proper hst.written

variable (hs : t.Sound h.workDirectory)
include hs

theorem addsPrivately : AddsPrivately t scene :=
  (hst.fresh.write hs j.isName j.notAbove hst.written).2

end Staged

namespace Tool

variable (t : Tool) (h : Host) (w : World) (j : Job)

theorem run_apply (arguments reads : List String) :
    t.run arguments reads h w =
      ((t.finished (h.execute w.events
          (t.command arguments (Files.viewsIn h w.files reads)))).mapError .fault,
        w.ran (t.command arguments (Files.viewsIn h w.files reads))) := rfl

theorem checkInstalled_cases :
    t.checkInstalled h w = (.ok (), w) ∨
      t.checkInstalled h w = (.error (.fault (.unavailable t.program source)), w) := by
  unfold checkInstalled
  rw [Action.bind_apply, Action.host_apply]
  dsimp only
  split
  · exact .inl rfl
  · exact .inr rfl

def commandFor (scene : Tree) (file : Path) : Run :=
  t.command (j.arguments file.toText) (Files.viewsIn h scene (j.reads file.toText))

theorem commandFor_reads (scene : Tree) (file : Path) :
    (t.commandFor h j scene file).reads = Files.viewsIn h scene (j.reads file.toText) := rfl

def perform {α : Type} (g : Int × Bytes × Bytes → Except Fault α) : Action α := do
  Action.ofExcept (g (← t.runWith j.start j.name j.data j.arguments j.reads))

/-- How a step ends that runs a job at most once: its result and the events after it. -/
inductive Runs {α : Type} (g : Int × Bytes × Bytes → Except Fault α) :
    Except Failure α → List Event → Prop
  | unrun (f : Failure) (local_ : f.IsLocal) : Runs g (.error f) w.events
  | ran (directory : Path) (l : Location) (scene : Tree)
      (staged : Staged h w.files j directory l scene) :
      Runs g
        (((t.finished (h.execute w.events
          (t.commandFor h j scene (j.file directory)))).bind g).mapError .fault)
        (w.events ++ [.run ⟨t.commandFor h j scene (j.file directory), scene⟩])

variable {α : Type} (g : Int × Bytes × Bytes → Except Fault α)

theorem perform_runs :
    t.Runs h w j g (t.perform j g h w).1 (t.perform j g h w).2.events := by
  unfold perform
  rw [Action.bind_of_pure fun x w' => Action.ofExcept_apply (h := h) (w := w') (r := g x)]
  obtain ⟨c, hc⟩ | ⟨p, l, hp, hf, hc⟩ := Scratch.create_cases h w j.start none
  · rw [runWith, Scratch.within_of_failed hc]
    exact .unrun _ trivial
  · rw [runWith, Scratch.within_of_created hc]
    obtain ⟨c, hw⟩ | ⟨u, hu, hw⟩ :=
      Scratch.write_cases h (w.withFiles (Scratch.opening w.files l)) p j.name j.data
    · rw [Action.bind_of_error hw, Scratch.left_events]
      exact .unrun _ trivial
    · rw [Action.bind_of_ok hw, run_apply]
      dsimp only
      rw [Scratch.left_events, Action.mapError_bind]
      exact .ran p l u ⟨hp, hf, hu⟩

theorem perform_files (hs : w.files.Sound h.workDirectory) :
    (t.perform j g h w).2.files = w.files := by
  unfold perform
  rw [Action.bind_of_pure fun x w' => Action.ofExcept_apply (h := h) (w := w') (r := g x)]
  obtain ⟨c, hc⟩ | ⟨p, l, hp, hf, hc⟩ := Scratch.create_cases h w j.start none
  · rw [runWith, Scratch.within_of_failed hc]
  · rw [runWith, Scratch.within_of_created hc]
    refine hf.left_files hs ?_
    obtain ⟨c, hw⟩ | ⟨u, hu, hw⟩ :=
      Scratch.write_cases h (w.withFiles (Scratch.opening w.files l)) p j.name j.data
    · rw [Action.bind_of_error hw]
      exact .refl l _
    · rw [Action.bind_of_ok hw, run_apply]
      exact (hf.write hs j.isName j.notAbove hu).1

section Cases

variable {t h w j g} {r : Except Failure α} {es : List Event}

theorem Runs.of_ok {x : α} (hr : t.Runs h w j g (.ok x) es) :
    ∃ directory l scene code output diagnostics,
      Staged h w.files j directory l scene ∧
      es = w.events ++
        [.run ⟨t.commandFor h j scene (j.file directory), scene⟩] ∧
      h.execute w.events (t.commandFor h j scene (j.file directory)) =
        .exited code output diagnostics ∧
      g (code, output, diagnostics) = .ok x := by
  generalize hres : (Except.ok x : Except Failure α) = res at hr
  cases hr with
  | unrun f _ => cases hres
  | ran d l scene hst =>
    refine ⟨d, l, scene, ?_⟩
    cases ho : h.execute w.events (t.commandFor h j scene (j.file d)) with
    | missing => simp [ho, finished, Except.bind, Except.mapError] at hres
    | timedOut => simp [ho, finished, Except.bind, Except.mapError] at hres
    | exited code output diagnostics =>
      refine ⟨code, output, diagnostics, hst, rfl, rfl, ?_⟩
      simp only [ho, finished, Except.bind] at hres
      cases hg : g (code, output, diagnostics) with
      | error f => simp [hg, Except.mapError] at hres
      | ok y =>
        simp only [hg, Except.mapError, Except.ok.injEq] at hres
        rw [hres]

theorem Runs.events_cases (hr : t.Runs h w j g r es) :
    es = w.events ∨ ∃ file scene, es = w.events ++ [.run ⟨t.commandFor h j scene file, scene⟩] := by
  cases hr with
  | unrun f _ => exact .inl rfl
  | ran d l scene hst => exact .inr ⟨_, _, rfl⟩

theorem finished_isLocal {o : Outcome} {f : Fault} (hf : t.finished o = .error f) :
    (Failure.fault f).IsLocal := by
  cases o with
  | missing =>
    cases hf
    exact .inr rfl
  | timedOut =>
    cases hf
    exact .inl rfl
  | exited => cases hf

/-- A failure comes from the engine, if what is read from its output does. -/
theorem Runs.isLocal {f : Failure} (hr : t.Runs h w j g (.error f) es)
    (hg : ∀ x e, g x = .error e → (Failure.fault e).IsLocal) : f.IsLocal := by
  generalize hres : (Except.error f : Except Failure α) = res at hr
  cases hr with
  | unrun _ hl =>
    cases hres
    exact hl
  | ran d l scene hst =>
    cases hfin : t.finished (h.execute w.events (t.commandFor h j scene (j.file d))) with
    | error e =>
      simp only [hfin, Except.bind, Except.mapError, Except.error.injEq] at hres
      exact hres ▸ finished_isLocal hfin
    | ok x =>
      simp only [hfin, Except.bind] at hres
      cases hgx : g x with
      | error e =>
        simp only [hgx, Except.mapError, Except.error.injEq] at hres
        exact hres ▸ hg x e hgx
      | ok y => simp [hgx, Except.mapError] at hres

theorem Runs.of_installed (g : Int × Bytes × Bytes → Except Fault α) :
    t.Runs h w j g ((t.checkInstalled >>= fun _ => t.perform j g) h w).1
      ((t.checkInstalled >>= fun _ => t.perform j g) h w).2.events := by
  obtain hi | hi := t.checkInstalled_cases h w
  · rw [Action.bind_of_ok hi]
    exact t.perform_runs h w j g
  · rw [Action.bind_of_error hi]
    exact .unrun _ (.inr rfl)

theorem installed_files (g : Int × Bytes × Bytes → Except Fault α)
    (hs : w.files.Sound h.workDirectory) :
    ((t.checkInstalled >>= fun _ => t.perform j g) h w).2.files = w.files := by
  obtain hi | hi := t.checkInstalled_cases h w
  · rw [Action.bind_of_ok hi]
    exact t.perform_files h w j g hs
  · rw [Action.bind_of_error hi]

end Cases

section Encrypting

variable (plaintext : Path) (policy : Policy) (format : SecretFormat)

def encryptJob : Job where
  start := "envv-policy-"
  name := ".sops.yaml"
  data := Text.Utf8.encode policy.render
  arguments := encryptArguments format plaintext.toText
  reads := fun config => [config, plaintext.toText]
  isName := by decide
  notAbove := by decide

theorem reads_encryptJob (scene : Tree) (config : Path) :
    (t.commandFor h (encryptJob plaintext policy format) scene config).reads =
      Files.viewsIn h scene [config.toText, plaintext.toText] := by
  rw [commandFor_reads, encryptJob]

theorem encrypt_eq :
    t.encrypt plaintext policy format =
      t.checkInstalled >>= fun _ => t.perform (encryptJob plaintext policy format) sealed := by
  rfl

theorem encrypt_runs :
    t.Runs h w (encryptJob plaintext policy format) sealed
      (t.encrypt plaintext policy format h w).1
      (t.encrypt plaintext policy format h w).2.events := by
  rw [encrypt_eq]
  exact Runs.of_installed sealed

theorem encrypt_files (hs : w.files.Sound h.workDirectory) :
    (t.encrypt plaintext policy format h w).2.files = w.files := by
  rw [encrypt_eq]
  exact installed_files sealed hs

theorem sealed_eq_ok {code : Int} {output diagnostics ciphertext : Bytes} {block : Json.Fields}
    (hs : sealed (code, output, diagnostics) = .ok (ciphertext, block)) :
    code = 0 ∧ output = ciphertext ∧ metadata ciphertext = .ok block := by
  unfold sealed at hs
  dsimp only at hs
  split at hs
  · cases hs
  next hc =>
    cases hm : metadata output with
    | error f => simp [hm, Except.map] at hs
    | ok b =>
      simp only [hm, Except.map, Except.ok.injEq, Prod.mk.injEq] at hs
      obtain ⟨rfl, rfl⟩ := hs
      exact ⟨not_not.1 hc, rfl, hm⟩

end Encrypting

section Decrypting

variable (ciphertext : Bytes) (format : SecretFormat)

def decryptJob : Job where
  start := "envv-decrypt-"
  name := "secrets.enc.json"
  data := ciphertext
  arguments := decryptArguments format
  reads := fun encrypted => [encrypted]
  isName := by decide
  notAbove := by decide

theorem reads_decryptJob (scene : Tree) (encrypted : Path) :
    (t.commandFor h (decryptJob ciphertext format) scene encrypted).reads =
      Files.viewsIn h scene [encrypted.toText] := by
  rw [commandFor_reads, decryptJob]

theorem metadata_isLocal {f : Fault} (hf : metadata ciphertext = .error f) :
    (Failure.fault f).IsLocal := by
  unfold metadata at hf
  split at hf
  · cases hf
    exact .inr rfl
  · split at hf <;> cases hf <;> exact .inr rfl
  · cases hf
    exact .inr rfl

theorem checkCiphertext_isLocal {f : Fault} (hf : checkCiphertext ciphertext = .error f) :
    (Failure.fault f).IsLocal := by
  unfold checkCiphertext at hf
  split at hf
  · cases hf
    exact .inr rfl
  · cases hm : metadata ciphertext with
    | error e =>
      rw [hm] at hf
      cases hf
      exact metadata_isLocal ciphertext hm
    | ok block =>
      rw [hm] at hf
      cases hf

theorem decrypt_eq :
    t.decrypt ciphertext format =
      t.checkInstalled >>= fun _ => Action.ofExcept (checkCiphertext ciphertext) >>= fun _ =>
        t.perform (decryptJob ciphertext format) opened := by
  rfl

theorem decrypt_of_error {f : Fault} (hc : checkCiphertext ciphertext = .error f) :
    ∃ e : Failure, e.IsLocal ∧ t.decrypt ciphertext format h w = (.error e, w) := by
  rw [decrypt_eq]
  obtain hi | hi := t.checkInstalled_cases h w
  · refine ⟨.fault f, checkCiphertext_isLocal ciphertext hc, ?_⟩
    rw [Action.bind_of_ok hi, hc]
    exact Action.bind_of_error (Action.ofExcept_apply _)
  · have hl : (Failure.fault (.unavailable t.program source)).IsLocal := .inr rfl
    exact ⟨_, hl, Action.bind_of_error hi⟩

theorem decrypt_of_ok (hc : checkCiphertext ciphertext = .ok ()) :
    t.decrypt ciphertext format h w =
      (t.checkInstalled >>= fun _ => t.perform (decryptJob ciphertext format) opened) h w := by
  have hp : ∀ w', (Action.ofExcept (checkCiphertext ciphertext) >>= fun _ =>
      t.perform (decryptJob ciphertext format) opened) h w' =
        t.perform (decryptJob ciphertext format) opened h w' := by
    intro w'
    rw [hc]
    exact Action.bind_of_ok (Action.ofExcept_apply _)
  rw [decrypt_eq]
  obtain hi | hi := t.checkInstalled_cases h w
  · rw [Action.bind_of_ok hi, Action.bind_of_ok hi, hp]
  · rw [Action.bind_of_error hi, Action.bind_of_error hi]

theorem decrypt_runs :
    t.Runs h w (decryptJob ciphertext format) opened (t.decrypt ciphertext format h w).1
      (t.decrypt ciphertext format h w).2.events := by
  cases hc : checkCiphertext ciphertext with
  | error f =>
    obtain ⟨e, he, hd⟩ := t.decrypt_of_error h w ciphertext format hc
    rw [hd]
    exact .unrun e he
  | ok _ =>
    rw [decrypt_of_ok t h w ciphertext format hc]
    exact Runs.of_installed opened

theorem decrypt_files (hs : w.files.Sound h.workDirectory) :
    (t.decrypt ciphertext format h w).2.files = w.files := by
  cases hc : checkCiphertext ciphertext with
  | error f =>
    obtain ⟨e, -, hd⟩ := t.decrypt_of_error h w ciphertext format hc
    rw [hd]
  | ok _ =>
    rw [decrypt_of_ok t h w ciphertext format hc]
    exact installed_files opened hs

theorem opened_eq_ok {code : Int} {output diagnostics plaintext : Bytes}
    (ho : opened (code, output, diagnostics) = .ok plaintext) : code = 0 ∧ output = plaintext := by
  unfold opened at ho
  dsimp only at ho
  split at ho
  · cases ho
  next hc =>
    cases ho
    exact ⟨not_not.1 hc, rfl⟩

theorem decryptFault_isLocal (text : String) : (Failure.fault (decryptFault text)).IsLocal := by
  unfold decryptFault
  split <;> exact .inr rfl

theorem opened_isLocal {x : Int × Bytes × Bytes} {f : Fault} (ho : opened x = .error f) :
    (Failure.fault f).IsLocal := by
  obtain ⟨code, output, diagnostics⟩ := x
  unfold opened at ho
  dsimp only at ho
  split at ho
  · rw [← Except.error.inj ho]
    exact decryptFault_isLocal _
  · cases ho

theorem decrypt_isLocal {f : Failure} (hr : (t.decrypt ciphertext format h w).1 = .error f) :
    f.IsLocal :=
  (hr ▸ t.decrypt_runs h w ciphertext format).isLocal fun _ _ => opened_isLocal

end Decrypting

end Tool

section Handed

def IsSealing (program : String) (f : SecretFormat) (plaintext : Bytes) (r : Run) : Prop :=
  r.program = program ∧ ∃ config plain : FileView,
    r.arguments = Tool.encryptArguments f plain.path config.path ∧ r.reads = [config, plain] ∧
    plain.data = plaintext

def IsOpening (program : String) (f : SecretFormat) (ciphertext : Bytes) (r : Run) : Prop :=
  r.program = program ∧ ∃ sealed : FileView,
    r.arguments = Tool.decryptArguments f sealed.path ∧ r.reads = [sealed] ∧
    sealed.data = ciphertext

theorem Staged.isOpening {t : Tool} {h : Host} {files scene : Tree} {ciphertext : Bytes}
    {f : SecretFormat} {directory : Path} {l : Location}
    (hst : Staged h files (Tool.decryptJob ciphertext f) directory l scene) :
    IsOpening t.program f ciphertext (t.commandFor h (Tool.decryptJob ciphertext f) scene
      ((Tool.decryptJob ciphertext f).file directory)) := by
  obtain ⟨sealed, hview, hpath, hdata⟩ := hst.view_data
  refine ⟨rfl, sealed, ?_, ?_, hdata⟩
  · rw [hpath]
    rfl
  · rw [t.reads_decryptJob, Files.viewsIn_cons hview, Files.viewsIn_nil]

theorem Staged.exists_reads {t : Tool} {h : Host} {files scene : Tree} {plaintext : Path}
    {p : Policy} {f : SecretFormat} {directory : Path} {l k : Location} {mode : Nat} {data : Bytes}
    (hst : Staged h files (Tool.encryptJob plaintext p f) directory l scene)
    (hs : files.Sound h.workDirectory) (hp : plaintext.Proper)
    (hf : files.find h.workDirectory plaintext = .ok (k, .file mode data)) {r : Run}
    (hr : r = t.commandFor h (Tool.encryptJob plaintext p f) scene
      ((Tool.encryptJob plaintext p f).file directory)) :
    ∃ config plain : FileView, r.arguments = Tool.encryptArguments f plain.path config.path ∧
      r.reads = [config, plain] ∧ config.data = Text.Utf8.encode p.render ∧ plain.data = data := by
  obtain ⟨config, hview, hpath, hconfig⟩ := hst.view_data
  obtain ⟨plain, hplain, hfile, hdata⟩ : ∃ u,
      Files.view? scene h.workDirectory plaintext.toText = some u ∧
        u.path = plaintext.toText ∧ u.data = data :=
    ⟨_, Files.view?_of_find hp ((hst.addsPrivately hs).find hf), rfl, rfl⟩
  refine ⟨config, plain, ?_, ?_, hconfig, hdata⟩
  · rw [hr, hpath, hfile]
    rfl
  · rw [hr, t.reads_encryptJob, Files.viewsIn_cons hview, Files.viewsIn_cons hplain,
      Files.viewsIn_nil]

end Handed

end Sops

end TeamVault
