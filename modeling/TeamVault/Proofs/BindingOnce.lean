import TeamVault.Proofs.FileSteps
import TeamVault.Proofs.PolicyFile
import TeamVault.Proofs.SessionGate
import TeamVault.Proofs.YamlWriter

/-!
The binding of a directory. It is written once: a first save that returns settles it for all further
saves and commands, whatever the service answers, and it is read back as it was saved as far as YAML
reads the texts of a mapping as they were written.
-/
namespace TeamVault

open TeamVault.Action (IsIdle Leaves)
open Command (Values)

/-! ### Bindings in files -/

namespace ProjectBinding

/-- The reader of YAML takes the stored text for the mapping that was written. -/
def LoadsBack (b : ProjectBinding) : Prop :=
  Yaml.Value.ofText b.storedText =
    .ok (Yaml.Block.mapping (b.entries.map fun e => (e.1, .text e.2))).value

theorem unifyBreaks_storedText (b : ProjectBinding) :
    Text.unifyBreaks b.storedText = b.storedText := by
  refine Text.unifyBreaks_of_not_mem fun hmem => ?_
  have hnames : ∀ k ∈ b.entries.map Prod.fst, ∀ c ∈ k.toList, Yaml.Writer.isInk c = true := by
    have hall : (b.entries.map Prod.fst).all (fun k => k.toList.all Yaml.Writer.isInk) = true := by
      change ["default_environment", "organization_id", "organization_name", "project_id",
        "project_name"].all _ = true
      decide
    exact fun k hk => List.all_eq_true.1 (List.all_eq_true.1 hall k hk)
  have hkeys := fun e he => hnames (Prod.fst e) (List.mem_map_of_mem he)
  exact absurd (Yaml.Block.render_inInk hkeys '\r' hmem) (by decide)

theorem record_storedText {b : ProjectBinding} (hb : b.LoadsBack) :
    Yaml.record ["default_environment"] ofFields b.storedText = .ok (.ok b) := by
  have hfields : (Yaml.Block.mapping (b.entries.map fun e => (e.1, .text e.2))).value.fields?
      ["default_environment"] = some (b.entries.map fun e => (e.1, .text e.2)) := rfl
  have hread : ofFields (b.entries.map fun e => (e.1, .text e.2)) = .fits b := by
    have hall : ofFields (b.entries.map fun e => (e.1, .text e.2)) = ProjectBinding.mk <$>
        .fits b.organizationId <*> .fits b.organizationName <*> .fits b.projectId <*>
        .fits b.projectName <*> Checked.under (.key "default_environment")
          (Checked.member Environment.ofName? (.text b.defaultEnvironment.name)) := rfl
    rw [hall, Checked.member, Environment.ofName?_name]
    rfl
  unfold Yaml.record
  rw [hb]
  simp only [hfields, hread]

end ProjectBinding

/-! ### The binding file -/

namespace Tree

variable {t u : Tree} {here : Location} {p : Path}

theorem find_write_any {mode : Option Nat} {data : Bytes}
    (hu : t.write here p mode data = .ok u) :
    ∃ l m, u.find here p = .ok (l, .file m data) := by
  have hput : ∃ l m, t.locate here p = .ok l ∧ ¬ t.IsDirectory l ∧ u = t.put l (.file m data) := by
    unfold write at hu
    cases hl : t.locate here p with
    | error e =>
      rw [hl] at hu
      cases hu
    | ok l =>
      rw [hl] at hu
      simp only [bind, Except.bind] at hu
      split at hu
      · cases hu
      · cases hu
        exact ⟨l, _, rfl, by simp_all [IsDirectory], rfl⟩
      · cases hu
        exact ⟨l, _, rfl, by simp_all [IsDirectory], rfl⟩
      · cases hu
  obtain ⟨l, m, hl, hfree, rfl⟩ := hput
  refine ⟨l, m, find_of_locate (locate_mono (keepsDirectories_put hfree _) hl) ?_⟩
  rw [node?_put, if_pos rfl]

end Tree

namespace BindingFile

variable {b : ProjectBinding} {directory : Option Path} {h : Host} {w w' : World} {p : Path}

def placeOf (here : Location) (directory : Option Path) : Path :=
  ((directory.getD ⟨.root, here⟩).child Local.directoryName).child fileName

theorem path_apply : path directory h w = (.ok (placeOf h.workDirectory directory), w) := rfl

theorem save_of_there {n : Node}
    (hn : w.files.probe h.workDirectory (placeOf h.workDirectory directory) = .ok (some n)) :
    save b directory h w =
      (.error (.fault (alreadyThere (placeOf h.workDirectory directory))), w) := by
  unfold save
  rw [Action.bind_of_ok path_apply, Action.bind_of_ok (Files.isThere_of_probe hn),
    if_pos Option.isSome_some]
  rfl

theorem save_of_ok (hs : save b directory h w = (.ok p, w')) :
    p = placeOf h.workDirectory directory ∧
      w.files.probe h.workDirectory p = .ok none ∧
      ∃ l mode, w'.files.find h.workDirectory p =
        .ok (l, .file mode (Text.Utf8.encode b.storedText)) := by
  obtain ⟨q, w₁, hq, hlook⟩ := Action.ok_of_bind hs
  obtain ⟨rfl, rfl⟩ := Prod.mk.inj (hq.symm.trans path_apply) |>.imp Except.ok.inj id
  obtain ⟨there, w₂, hthere, hact⟩ := Action.ok_of_bind hlook
  obtain ⟨rfl, n, hn, rfl⟩ := Files.isThere_of_ok hthere
  cases n with
  | some n => cases hact
  | none =>
    obtain ⟨_, w₃, -, hwrite⟩ := Action.ok_of_bind hact
    obtain ⟨_, w₄, hput, hend⟩ := Action.ok_of_bind hwrite
    obtain ⟨t, ht, rfl⟩ := Files.change_of_ok hput
    cases hend
    exact ⟨rfl, hn, Tree.find_write_any ht⟩

theorem save_failsInFiles {f : Failure}
    (hn : w.files.probe h.workDirectory (placeOf h.workDirectory directory) = .ok none)
    (hs : save b directory h w = (.error f, w')) : ∃ e, f = .crash (Files.failure e) := by
  unfold save at hs
  rw [Action.bind_of_ok path_apply, Action.bind_of_ok (Files.isThere_of_probe hn)] at hs
  refine Action.FailsInFiles.bind (Files.makeDirectories_failsInFiles _) (fun _ => ?_) h w f w' hs
  exact .bind (Files.change_failsInFiles _) fun _ => .pure _

theorem load_of_stored (hb : b.LoadsBack) {l : Location} {mode : Nat}
    (hf : w.files.find h.workDirectory (placeOf h.workDirectory directory) =
      .ok (l, .file mode (Text.Utf8.encode b.storedText))) :
    load directory h w = (.ok b, w) := by
  have hthere := Files.isThere_of_probe (Tree.probe_of_find hf)
  have htext := Files.readText_of_find hf
  rw [ProjectBinding.unifyBreaks_storedText] at htext
  unfold load
  rw [Action.bind_of_ok path_apply, Action.bind_of_ok hthere, if_pos Option.isSome_some,
    Action.bind_of_ok htext, ProjectBinding.record_storedText hb]
  rfl

end BindingFile

/-! ### The command -/

namespace Command.Project

def prepare (v : Values) : Action ProjectBinding := do
  if ← BindingFile.isThere none then
    Action.raise (BindingFile.alreadyThere (← BindingFile.path none))
  let c ← client v
  let remote ← c.getProject (v.text "project-id")
  let organization ← c.getOrganization (v.text "org-id")
  return { organizationId := v.text "org-id"
           organizationName := organization.name
           projectId := v.text "project-id"
           projectName := remote.name
           defaultEnvironment := (Environment.ofName? (v.text "default-env")).getD .development }

def told (v : Values) (b : ProjectBinding) (path : Path) : Action Unit := do
  Console.print "\n  [green]Project initialized.[/]\n"
  Console.print ("  Organization: " ++ b.organizationName ++ " (" ++ b.organizationId ++ ")")
  Console.print ("  Project:      " ++ b.projectName ++ " (" ++ b.projectId ++ ")")
  Console.print ("  Default Env:  " ++ v.text "default-env")
  Console.print ("  Config:       [dim]" ++ path.toText ++ "[/]")
  Console.print ("\n  Next: [cyan]envv secrets push .env." ++ v.text "default-env" ++ "[/]\n")

theorem init_run (v : Values) :
    init.run v = prepare v >>= fun b => BindingFile.save b none >>= told v b := by
  simp only [init, prepare, bind_assoc]
  refine bind_congr fun there => ?_
  cases there with
  | false =>
    simp only [Bool.false_eq_true, if_false, bind_assoc, pure_bind]
    rfl
  | true =>
    simp only [if_true, bind_assoc, pure_bind]
    rfl

theorem prepare_leaves_files (v : Values) : (prepare v).Leaves World.files := by
  have files : ∀ {α : Type} {a : Action α}, a.IsIdle → a.Leaves World.files :=
    fun ha h w => congrArg Prod.fst (ha h w)
  -- asking the service is logged as events only
  have hask : ∀ c : Client, (c.getProject (v.text "project-id")).Leaves World.files ∧
      (c.getOrganization (v.text "org-id")).Leaves World.files := by
    refine fun c => ⟨fun h w => ?_, fun h w => ?_⟩
    · rw [Client.getProject, Client.ask_apply]
      rfl
    · rw [Client.getOrganization, Client.ask_apply]
      rfl
  have hrest := Leaves.bind (f := World.files) (files (client_finds v).idle) fun c =>
    Leaves.bind (hask c).1 fun remote => Leaves.bind (hask c).2 fun organization =>
      Leaves.pure (ProjectBinding.mk (v.text "org-id") organization.name (v.text "project-id")
        remote.name ((Environment.ofName? (v.text "default-env")).getD .development))
  refine .bind (files (BindingFile.isThere_isIdle none)) fun there => ?_
  cases there with
  | true =>
    exact .bind (files (BindingFile.path_isIdle none)) fun p => .bind (.ofResult _) fun _ => hrest
  | false => exact hrest

theorem told_leaves_files (v : Values) (b : ProjectBinding) (p : Path) :
    (told v b p).Leaves World.files := by
  have print : ∀ s, (Console.print s).Leaves World.files :=
    fun s h w => congrArg Prod.fst (Console.print_isIdle s h w)
  exact .bind (print _) fun _ => .bind (print _) fun _ => .bind (print _) fun _ =>
    .bind (print _) fun _ => .bind (print _) fun _ => print _

theorem prepare_of_there {v : Values} {h : Host} {w : World} {n : Node}
    (hn : w.files.probe h.workDirectory (BindingFile.placeOf h.workDirectory none) =
      .ok (some n)) :
    prepare v h w = (.error (.fault
      (BindingFile.alreadyThere (BindingFile.placeOf h.workDirectory none))), w) := by
  have hthere : BindingFile.isThere none h w = (.ok true, w) := by
    unfold BindingFile.isThere
    rw [Action.bind_of_ok BindingFile.path_apply]
    exact Files.isThere_of_probe hn
  unfold prepare
  rw [Action.bind_of_ok hthere]
  rfl

end Command.Project

/-! ### Attempts to bind a directory -/

namespace BindingFile

open Command.Project (prepare told init_run)

inductive Attempt
  | save (b : ProjectBinding) (directory : Option Path)
  | init (v : Values)

namespace Attempt

variable {h : Host} {w : World} {a : Attempt} {b : ProjectBinding} {here : Location} {p : Path}

def act : Attempt → Action Unit
  | save b directory => do let _ ← BindingFile.save b directory
  | init v => Command.Project.init.run v

def place (here : Location) : Attempt → Path
  | save _ directory => placeOf here directory
  | init _ => placeOf here none

inductive Saves (h : Host) (w : World) : Attempt → ProjectBinding → Prop
  | save (b : ProjectBinding) (directory : Option Path)
      (returned : (BindingFile.save b directory h w).1.isOk = true) : Saves h w (save b directory) b
  | init (v : Values) (b : ProjectBinding) (u : World) (prepared : prepare v h w = (.ok b, u))
      (returned : (BindingFile.save b none h u).1.isOk = true) : Saves h w (init v) b

theorem stored_of_saves (hs : a.Saves h w b) :
    ∃ l mode, (a.act h w).2.files.find h.workDirectory (a.place h.workDirectory) =
      .ok (l, .file mode (Text.Utf8.encode b.storedText)) := by
  cases hs with
  | save _ directory returned =>
    obtain ⟨p, hp⟩ := Action.exists_of_isOk returned
    obtain ⟨rfl, -, l, mode, hf⟩ := save_of_ok hp
    refine ⟨l, mode, ?_⟩
    have hact : (save b directory).act h w = (.ok (), (BindingFile.save b directory h w).2) :=
      Action.bind_of_ok hp
    rw [hact]
    exact hf
  | init v _ u prepared returned =>
    obtain ⟨p, hp⟩ := Action.exists_of_isOk returned
    obtain ⟨rfl, -, l, mode, hf⟩ := save_of_ok hp
    refine ⟨l, mode, ?_⟩
    -- the user is told of it afterwards, which may fail but leaves the files as they are
    have hact : (init v).act h w = told v b (placeOf h.workDirectory none) h
        (BindingFile.save b none h u).2 := by
      change Command.Project.init.run v h w = _
      rw [init_run, Action.bind_of_ok prepared, Action.bind_of_ok hp]
    rw [hact, Command.Project.told_leaves_files]
    exact hf

theorem act_of_there {n : Node}
    (hn : w.files.probe h.workDirectory (a.place h.workDirectory) = .ok (some n)) :
    a.act h w = (.error (.fault (alreadyThere (a.place h.workDirectory))), w) := by
  cases a with
  | save b directory => exact Action.bind_of_error (save_of_there hn)
  | init v =>
    change Command.Project.init.run v h w = _
    rw [init_run]
    exact Action.bind_of_error (Command.Project.prepare_of_there hn)

end Attempt

def afterAll (w : World) (turns : List (Host × Attempt)) : World :=
  turns.foldl (fun w turn => (turn.2.act turn.1 w).2) w

def AllAt (here : Location) (p : Path) (turns : List (Host × Attempt)) : Prop :=
  ∀ turn ∈ turns, turn.1.workDirectory = here ∧ turn.2.place here = p

theorem afterAll_of_there {here : Location} {p : Path} {w : World} {n : Node}
    {turns : List (Host × Attempt)} (ht : AllAt here p turns)
    (hn : w.files.probe here p = .ok (some n)) : afterAll w turns = w := by
  induction turns with
  | nil => rfl
  | cons turn rest ih =>
    obtain ⟨rfl, rfl⟩ := ht turn List.mem_cons_self
    have hturn : (turn.2.act turn.1 w).2 = w := by rw [Attempt.act_of_there hn]
    change afterAll (turn.2.act turn.1 w).2 rest = w
    rw [hturn]
    exact ih fun t hm => ht t (List.mem_cons_of_mem _ hm)

theorem Attempt.not_saves_of_there {h : Host} {w : World} {a : Attempt} {b : ProjectBinding}
    {n : Node} (hn : w.files.probe h.workDirectory (a.place h.workDirectory) = .ok (some n)) :
    ¬ a.Saves h w b := by
  intro hs
  cases hs with
  | save _ directory returned =>
    rw [save_of_there hn] at returned
    cases returned
  | init v _ u prepared returned =>
    rw [Command.Project.prepare_of_there hn] at prepared
    cases prepared

/-- A directory is bound once. From the first attempt on that saves a binding, every further one is
refused with nothing sent and nothing changed, and loading gives the binding that was saved. A
command that fails before it saves leaves all files as they are. Where nothing is bound, a save
fails in file operations only. -/
theorem binding_is_written_once (here : Location) (p : Path) :
    (∀ (h : Host) (w : World) (a : Attempt) (b : ProjectBinding) (later : List (Host × Attempt)),
      h.workDirectory = here → a.place here = p → a.Saves h w b →
      AllAt here p later →
      let bound := (a.act h w).2
      afterAll bound later = bound ∧
      (∃ l mode, bound.files.find here p =
        .ok (l, .file mode (Text.Utf8.encode b.storedText))) ∧
      (∀ (h' : Host) (a' : Attempt), h'.workDirectory = here → a'.place here = p →
        a'.act h' (afterAll bound later) =
          (.error (.fault (alreadyThere p)), afterAll bound later) ∧
        ∀ b', ¬ a'.Saves h' (afterAll bound later) b') ∧
      (b.LoadsBack → ∀ (h' : Host) directory, h'.workDirectory = here → placeOf here directory = p →
        load directory h' (afterAll bound later) = (.ok b, afterAll bound later))) ∧
    (∀ h w v f u, prepare v h w = (.error f, u) →
      Command.Project.init.run v h w = (.error f, u) ∧ u.files = w.files) ∧
    (∀ (h : Host) (w : World) b directory f w', h.workDirectory = here →
      placeOf here directory = p → w.files.probe here p = .ok none →
      save b directory h w = (.error f, w') → ∃ e, f = .crash (Files.failure e)) := by
  refine ⟨?_, ?_, ?_⟩
  · intro h w a b later hhere hplace hsaves hlater bound
    obtain ⟨l, mode, hf⟩ := Attempt.stored_of_saves hsaves
    rw [hhere, hplace] at hf
    have hthere := Tree.probe_of_find hf
    have hsame : afterAll bound later = bound := afterAll_of_there hlater hthere
    rw [hsame]
    refine ⟨rfl, ⟨l, mode, hf⟩, fun h' a' hhere' hplace' => ?_, fun hb h' directory hhere' hd => ?_⟩
    · subst hhere' hplace'
      exact ⟨Attempt.act_of_there hthere, fun b' => Attempt.not_saves_of_there hthere⟩
    · subst hhere' hd
      exact load_of_stored hb hf
  · intro h w v f u hv
    refine ⟨?_, ?_⟩
    · rw [init_run]
      exact Action.bind_of_error hv
    · have hleaves := Command.Project.prepare_leaves_files v h w
      rwa [hv] at hleaves
  · intro h w b directory f w' hhere hd hn hs
    subst hhere hd
    exact save_failsInFiles hn hs

/-! A binding of texts that YAML takes for something else unless they are quoted. -/

def quotable : ProjectBinding :=
  ⟨"0123", "no: \"x\" # 'y'\n z", "2024-01-01", " true\té", .production⟩

theorem loadsBack_quotable : quotable.LoadsBack := by
  have hread : (match Yaml.Value.ofText quotable.storedText with
      | .ok v => (Yaml.Block.mapping (quotable.entries.map fun e => (e.1, .text e.2))).standsFor v
      | .error _ => false) = true := by decide +kernel
  unfold ProjectBinding.LoadsBack
  split at hread
  next v hv => rw [hv, (Yaml.Block.standsFor_iff _ v).1 hread]
  · cases hread

theorem quotable_is_kept :
    load none Desk.host (afterAll ((Attempt.save quotable none).act Desk.host Desk.world).2
        [(Desk.host, .init []), (Desk.host, .save ⟨"o", "", "p", "", .development⟩ none)]) =
      (.ok quotable, ((Attempt.save quotable none).act Desk.host Desk.world).2) := by
  have hsaves : (Attempt.save quotable none).Saves Desk.host Desk.world quotable :=
    .save quotable none (by decide +kernel)
  have hlater : AllAt ["work"] (placeOf ["work"] none)
      [(Desk.host, .init []), (Desk.host, .save ⟨"o", "", "p", "", .development⟩ none)] := by
    intro turn hturn
    simp only [List.mem_cons, List.not_mem_nil, or_false] at hturn
    rcases hturn with rfl | rfl <;> exact ⟨rfl, rfl⟩
  obtain ⟨hsame, -, -, hload⟩ := (binding_is_written_once ["work"] (placeOf ["work"] none)).1
    Desk.host Desk.world _ quotable _ rfl rfl hsaves hlater
  rw [hload loadsBack_quotable Desk.host none rfl rfl, hsame]

end BindingFile

end TeamVault
