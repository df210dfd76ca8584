import TeamVault.Command.Auth
import TeamVault.Command.Secrets
import TeamVault.Proofs.AlikeSecrets
import TeamVault.Proofs.CustodyRun
import TeamVault.Proofs.KeyLines

/-!
Secrets stay on the machine. Where two worlds differ in plaintext and private keys only, every
operation on secrets and every registration sends the same requests and ends in the same way.
-/
namespace TeamVault

open TeamVault.Action (Agree Leads Matches)

variable {h h' : Host} {S : Set Location}

namespace Console

theorem put_agree (s : String) : Agree h h' S Eq (put s) (put s) :=
  fun _ _ hw => ⟨.ok rfl, { hw with printed := congrArg (· ++ s) hw.printed }⟩

theorem rendered_agree (s : String) : Agree h h' S Eq (rendered s) (rendered s) := by
  unfold rendered
  split
  · exact .pure rfl
  · exact .crash _

theorem print_agree (s : String) : Agree h h' S Eq (print s) (print s) :=
  (rendered_agree s).bind_eq fun _ => put_agree _

theorem printOpen_agree (s : String) : Agree h h' S Eq (printOpen s) (printOpen s) :=
  (rendered_agree s).bind_eq fun _ => put_agree _

end Console

namespace Command

def HomeIs (h : Host) (v : Values) (home : Path) : Prop :=
  ∃ p, (Path.ofText (v.text "home")).expandHome? h.home = some p ∧ p.expandHome? h.home = some home

inductive OwnFile (h : Host) (v : Values) : Path → Prop
  | binding : OwnFile h v
    ((Path.child ⟨.root, h.workDirectory⟩ Local.directoryName).child BindingFile.fileName)
  | settings {home : Path} (hp : HomeIs h v home) : OwnFile h v (home.child SettingsFile.fileName)
  | credentials {home : Path} (hp : HomeIs h v home) :
    OwnFile h v (home.child Credentials.fileName)

def SparesOwn (h : Host) (v : Values) (S : Set Location) : Prop :=
  ∀ p, OwnFile h v p → Tree.destination h.workDirectory p ∉ S

section Loading

variable {v : Values} (hh : h.Alike h') (hown : SparesOwn h v S)
include hh

theorem homePath_agree (v : Values) :
    Agree h h' S (fun q q' => q' = q ∧ (Path.ofText (v.text "home")).expandHome? h.home = some q)
      (homePath v) (homePath v) :=
  Agree.expandHome hh _

include hown

theorem binding_agree : Agree h h' S Eq (BindingFile.load none) (BindingFile.load none) := by
  have hpath : Agree h h' S (fun p p' => p' = p ∧ OwnFile h v p) (BindingFile.path none)
      (BindingFile.path none) := by
    intro w w' hw
    refine ⟨.ok ⟨?_, .binding⟩, hw⟩
    rw [hh.workDirectory]
  refine hpath.bind ?_
  rintro _ p ⟨rfl, hp⟩
  refine (Files.isThere_agree hh _).bind_eq fun there => ?_
  split
  · refine (Files.readText_agree hh (hown _ hp)).bind_eq fun text => ?_
    split
    · exact .pure rfl
    · exact .raise _
    · exact .crash _
  · exact .raise _

theorem settings_agree {q : Path}
    (hq : (Path.ofText (v.text "home")).expandHome? h.home = some q) :
    Agree h h' S Eq (SettingsFile.load (some q)) (SettingsFile.load (some q)) := by
  refine (Agree.expandHome hh q).bind ?_
  rintro _ home ⟨rfl, hhome⟩
  have hfile := hown _ (.settings ⟨q, hq, hhome⟩)
  have hrest : ∀ s : ClientSettings, Agree h h' S Eq
      (Action.host >>= fun h => pure (SettingsFile.withSurroundings h.serviceUrl s))
      (Action.host >>= fun h => pure (SettingsFile.withSurroundings h.serviceUrl s)) := by
    intro s
    refine (Agree.host hh).bind fun h₁ h₂ hh₁ => .pure ?_
    rw [hh₁.serviceUrl]
  refine (Files.isThere_agree hh _).bind_eq fun there => ?_
  dsimp only
  split
  · refine (Files.readText_agree hh hfile).bind_eq fun text => ?_
    split
    · exact (Agree.pure rfl).bind_eq hrest
    · exact (Agree.warn _).bind_eq fun _ => (Agree.pure rfl).bind_eq hrest
    · exact (Agree.crash _).bind_eq hrest
  · exact (Agree.pure rfl).bind_eq hrest

theorem credentials_agree {q : Path}
    (hq : (Path.ofText (v.text "home")).expandHome? h.home = some q) :
    Agree h h' S Eq (Credentials.load (some q)) (Credentials.load (some q)) := by
  have hpath : Agree h h' S (fun p p' => p' = p ∧ OwnFile h v p) (Credentials.path (some q))
      (Credentials.path (some q)) := by
    refine (Agree.expandHome hh q).bind ?_
    rintro _ home ⟨rfl, hhome⟩
    exact .pure ⟨rfl, .credentials ⟨q, hq, hhome⟩⟩
  refine hpath.bind ?_
  rintro _ p ⟨rfl, hp⟩
  refine (Files.isThere_agree hh _).bind_eq fun there => ?_
  split
  · refine (Files.readText_agree hh (hown _ hp)).bind_eq fun text => ?_
    split
    · exact .fail _
    · refine (Agree.host hh).bind fun h₁ h₂ hh₁ => ?_
      rw [hh₁.now]
      split
      · exact .pure rfl
      · exact .raise _
      · exact .crash _
  · exact .raise _

theorem secrets_agree : Agree h h' S Eq (secrets v) (secrets v) := by
  refine (homePath_agree hh v).bind ?_
  rintro _ q ⟨rfl, hq⟩
  have hload : Agree h h' S Eq (Context.load (some q) none) (Context.load (some q) none) := by
    refine (binding_agree hh hown).bind_eq fun binding => ?_
    refine (settings_agree hh hown hq).bind_eq fun settings => ?_
    exact (credentials_agree hh hown hq).bind_eq fun session => .pure rfl
  refine hload.bind_eq fun context => ?_
  have hmake : Agree h h' S Eq
      (Sops.Tool.make context.settings.sopsBinary (some context.settings.keyFile)
        Sops.Tool.defaultTimeout)
      (Sops.Tool.make context.settings.sopsBinary (some context.settings.keyFile)
        Sops.Tool.defaultTimeout) := by
    refine (Agree.expandHome hh _).bind ?_
    rintro _ p ⟨rfl, -⟩
    exact .pure rfl
  exact hmake.bind_eq fun tool => .pure rfl

end Loading

section Running

open Console (print_agree printOpen_agree)

variable {v : Values} (hh : h.Alike h') (hown : SparesOwn h v S)
include hh hown

theorem secrets_leads {f : TeamVault.Secrets → Action Unit}
    (hf : ∀ s, Agree h h' Set.univ Eq (f s) (f s)) :
    Leads h h' S Set.univ Eq (secrets v >>= f) (secrets v >>= f) :=
  Leads.bind_eq ((secrets_agree hh hown).mono subset_rfl (Set.subset_univ S)) subset_rfl hf

theorem push_leads : Leads h h' S Set.univ Eq (Secrets.push.run v) (Secrets.push.run v) := by
  refine secrets_leads hh hown fun s => ?_
  refine (printOpen_agree _).bind_eq fun _ => ?_
  refine (s.push_agree hh _ _ _).bind_eq fun version => ?_
  refine (print_agree _).bind_eq fun _ => ?_
  refine (print_agree _).bind_eq fun _ => ?_
  refine (print_agree _).bind_eq fun _ => ?_
  exact print_agree _

theorem pull_leads : Leads h h' S Set.univ Eq (Secrets.pull.run v) (Secrets.pull.run v) := by
  refine secrets_leads hh hown fun s => ?_
  refine (printOpen_agree _).bind_eq fun _ => ?_
  refine (s.pull_agree hh _ _).bind_eq fun pulled => ?_
  refine (print_agree _).bind_eq fun _ => ?_
  refine (print_agree _).bind_eq fun _ => ?_
  refine (print_agree _).bind_eq fun _ => ?_
  dsimp only
  split
  · exact (print_agree _).bind_eq fun _ => print_agree _
  · exact print_agree _

theorem sync_leads : Leads h h' S Set.univ Eq (Secrets.sync.run v) (Secrets.sync.run v) := by
  refine secrets_leads hh hown fun s => ?_
  refine (s.sync_agree hh _ _).bind_eq fun synced => ?_
  dsimp only
  split
  · exact (print_agree _).bind_eq fun _ => print_agree _
  · exact (print_agree _).bind_eq fun _ => print_agree _

theorem rotate_leads : Leads h h' S Set.univ Eq (Secrets.rotate.run v) (Secrets.rotate.run v) := by
  refine secrets_leads hh hown fun s => ?_
  refine (printOpen_agree _).bind_eq fun _ => ?_
  refine (s.rotate_agree hh _).bind_eq fun r => ?_
  split
  · refine (print_agree _).bind_eq fun _ => ?_
    refine (print_agree _).bind_eq fun _ => ?_
    exact (print_agree _).bind_eq fun _ => print_agree _
  · exact print_agree _

end Running

section Registering

open Console (print_agree printOpen_agree)

theorem expandHome_of_some {p q : Path} (hp : p.expandHome? h.home = some q) (w : World) :
    Action.expandHome p h w = (.ok q, w) := by
  unfold Action.expandHome
  rw [Action.bind_of_ok Action.host_apply, hp]
  rfl

variable {v : Values} (hh : h.Alike h')
include hh

theorem generate_agree (program : String) :
    Agree h h' S (fun k k' => k.publicKey = k'.publicKey) (Keypair.generate program)
      (Keypair.generate program) := by
  refine (Agree.host hh).bind fun h₁ h₂ hh₁ => ?_
  rw [hh₁.isInstalled]
  split
  · refine (Agree.execute hh ⟨rfl, rfl, rfl, rfl, .nil⟩).bind fun o o' ho => ?_
    cases ho with
    | same o =>
      have htext : ∀ bs, Agree h h' S Eq (Keypair.outputText bs) (Keypair.outputText bs) := by
        intro bs
        unfold Keypair.outputText
        split
        · exact .pure rfl
        · exact .crash _
      cases o with
      | missing => exact .crash _
      | timedOut => exact .crash _
      | exited code output diagnostics =>
        refine (htext output).bind_eq fun s => (htext diagnostics).bind_eq fun t => ?_
        split
        · exact .raise _
        · exact .ofExcept (.refl (fun k => (rfl : k.publicKey = k.publicKey)) _)
    | decrypted hd => cases hd
    | generated hg told told' hk =>
      obtain ⟨s, t, hs, ht, hk₁⟩ := told
      obtain ⟨s', t', hs', ht', hk₂⟩ := told'
      dsimp only
      rw [Keypair.outputText_of_decode hs, Keypair.outputText_of_decode hs',
        Keypair.outputText_of_decode ht, Keypair.outputText_of_decode ht']
      simp only [pure_bind, ne_eq, not_true_eq_false, if_false, Keypair.ofOutput_unifyBreaks, hk₁,
        hk₂]
      exact .ofExcept (.ok hk)
  · exact .raise _

theorem save_leads (k k' : Keypair) (given : Path)
    (hs : ∀ p, given.expandHome? h.home = some p → Tree.destination h.workDirectory p ∈ S) :
    Leads h h' ∅ S Eq (KeyFile.save k given) (KeyFile.save k' given) := by
  refine Leads.bind (Agree.expandHome hh given) (Set.empty_subset S) ?_
  rintro _ p ⟨rfl, hp⟩
  refine Leads.bind_eq (Files.makeDirectories_agree hh p.parent) (Set.empty_subset S) fun _ => ?_
  refine Leads.bind_eq (Files.setMode_agree hh p.parent _) (Set.empty_subset S) fun _ => ?_
  refine Leads.bind (Agree.host hh) (Set.empty_subset S) fun h₁ h₂ hh₁ => ?_
  have hwrite : ∀ data data' : Bytes, Leads h h' ∅ S Eq
      (Files.writePrivate p data >>= fun _ => pure p)
      (Files.writePrivate p data' >>= fun _ => pure p) := by
    intro data data'
    have hput : Agree h h' S Eq (Files.writePrivate p data) (Files.writePrivate p data') :=
      Files.writePrivate_agree hh (.inr (hs p hp))
    exact (hput.bind fun _ _ _ => .pure rfl).mono (Set.empty_subset S) subset_rfl
  refine Leads.bind_eq (Files.isThere_agree hh p) (Set.empty_subset S) fun there => ?_
  split
  · have hread := Files.readText_agree (S := ∅) (p := p) hh (Set.notMem_empty _)
    exact Leads.bind_eq hread (Set.empty_subset S) fun text => hwrite _ _
  · exact hwrite _ _

theorem register_agree (c : Client) (email password name publicKey : String) :
    Agree h h' S Eq (c.register email password name publicKey)
      (c.register email password name publicKey) :=
  c.ask_agree hh .register _ none _ _

theorem credentials_prepare_agree (q : Path) :
    Agree h h' S Eq (Credentials.prepare (some q)) (Credentials.prepare (some q)) := by
  refine (Agree.expandHome hh q).bind ?_
  rintro _ home ⟨rfl, -⟩
  refine (Files.makeDirectories_agree hh _).bind_eq fun _ => ?_
  refine (Files.setMode_agree hh _ _).bind_eq fun _ => ?_
  exact (Files.writePrivate_agree hh (.inl rfl)).bind_eq fun _ => .pure rfl

theorem credentials_save_agree (session : Session) (q : Path) :
    Agree h h' S Eq (Credentials.save session (some q)) (Credentials.save session (some q)) := by
  refine (credentials_prepare_agree hh q).bind_eq fun p => ?_
  split
  · exact (Files.writePrivate_agree hh (.inl rfl)).bind_eq fun _ => .pure rfl
  · exact .crash _

def keyFile (v : Values) : Action Path := do
  Action.expandHome (← SettingsFile.load (some (← homePath v))).keyFile

def keySpot (v : Values) (h : Host) (w : World) : Set Location :=
  {l | ∃ p, (keyFile v h w).1 = .ok p ∧ l = Tree.destination h.workDirectory p}

theorem openClient_agree (hown : SparesOwn h v S) :
    Agree h h' S Eq (Auth.openClient v) (Auth.openClient v) := by
  refine (homePath_agree hh v).bind ?_
  rintro _ q ⟨rfl, hq⟩
  refine (settings_agree hh hown hq).bind_eq fun settings => ?_
  exact .pure rfl

theorem register_matches {w w' : World} (hw : w.Alike ∅ w')
    (hown : SparesOwn h v (keySpot v h w)) :
    Matches (keySpot v h w) Eq (Auth.register.run v h w) (Auth.register.run v h' w') := by
  have hempty : SparesOwn h v ∅ := fun _ _ => Set.notMem_empty _
  have hsub := Set.empty_subset (keySpot v h w)
  refine (homePath_agree hh v w w' hw).bind hsub ?_
  rintro _ q u u' hx - ⟨rfl, hq⟩ hu
  refine (settings_agree hh hempty hq u u' hu).bind hsub ?_
  rintro settings _ t t' hset - rfl ht
  have hspot : ∀ p, settings.keyFile.expandHome? h.home = some p →
      Tree.destination h.workDirectory p ∈ keySpot v h w := by
    intro p hp
    refine ⟨p, ?_, rfl⟩
    unfold keyFile
    rw [Action.bind_of_ok hx, Action.bind_of_ok hset, expandHome_of_some hp]
  -- Up to the key file the worlds are the same; from there on it is the only one that differs.
  suffices hrest : Leads h h' ∅ (keySpot v h w) Eq _ _ from hrest t t' ht
  refine Leads.bind_eq (printOpen_agree _) hsub fun _ => ?_
  refine Leads.bind (generate_agree hh _) hsub fun k k' hk => ?_
  rw [hk]
  refine Leads.bind_eq (print_agree _) hsub fun _ => ?_
  refine Leads.bind_eq (print_agree _) hsub fun _ => ?_
  refine Leads.bind (save_leads hh k k' _ hspot) subset_rfl ?_
  rintro file _ rfl
  refine (print_agree _).bind_eq fun _ => ?_
  refine (printOpen_agree _).bind_eq fun _ => ?_
  refine (openClient_agree hh hown).bind_eq fun c => ?_
  refine (register_agree hh c _ _ _ _).bind_eq fun x => ?_
  refine (homePath_agree hh v).bind ?_
  rintro _ q ⟨rfl, -⟩
  refine (credentials_save_agree hh x.1 q).bind_eq fun _ => ?_
  refine (print_agree _).bind_eq fun _ => ?_
  exact (print_agree _).bind_eq fun _ => print_agree _

end Registering

end Command

/-- Two ends that nobody can tell apart who sees the requests, the result and what is shown. -/
structure LooksSame {α : Type} (x y : Except Failure α × World) : Prop where
  result : x.1 = y.1
  requests : requests x.2.events = requests y.2.events
  printed : x.2.printed = y.2.printed
  warnings : x.2.warnings = y.2.warnings

theorem Action.Matches.looksSame {α : Type} {x y : Except Failure α × World}
    (hm : Matches S Eq x y) : LooksSame x y :=
  ⟨hm.1.eq, requests_eq hm.2.events, hm.2.printed, hm.2.warnings⟩

/-- Plaintext and private keys do not reach the service. Where two worlds differ in the content of
hidden files, and what a host does differs in what decryptions yield and in generated private keys,
a push, a pull, a sync or a rotation looks the same in both, and so does its command, unless one of
the program's own files is hidden. So does a registration, which leaves no other file than the key
file different. -/
theorem secrets_stay_local (hh : h.Alike h') {w w' : World} (hw : w.Alike S w')
    (v : Command.Values) :
    (∀ s : Secrets,
      (∀ file environment format,
        LooksSame (s.push file environment format h w) (s.push file environment format h' w')) ∧
      (∀ environment output,
        LooksSame (s.pull environment output h w) (s.pull environment output h' w')) ∧
      (∀ environment file,
        LooksSame (s.sync environment file h w) (s.sync environment file h' w')) ∧
      ∀ environment, LooksSame (s.rotate environment h w) (s.rotate environment h' w')) ∧
    (Command.SparesOwn h v S →
      ∀ c ∈ [Command.Secrets.push, Command.Secrets.pull, Command.Secrets.sync,
        Command.Secrets.rotate], LooksSame (c.run v h w) (c.run v h' w')) ∧
    (Command.SparesOwn h v (Command.keySpot v h w) →
      LooksSame (Command.Auth.register.run v h w) (Command.Auth.register.run v h' w) ∧
      ∀ l, l ∉ Command.keySpot v h w →
        (Command.Auth.register.run v h w).2.files.node? l =
          (Command.Auth.register.run v h' w).2.files.node? l) := by
  have hu := hw.mono (Set.subset_univ S)
  refine ⟨fun s => ⟨?_, ?_, ?_, ?_⟩, fun hown c hc => ?_, fun hown => ?_⟩
  · intro file environment format
    exact (s.push_agree hh file environment format w w' hw).looksSame
  · intro environment output
    exact (s.pull_agree hh environment output w w' hu).looksSame
  · intro environment file
    exact (s.sync_agree hh environment file w w' hu).looksSame
  · intro environment
    exact (s.rotate_agree hh environment w w' hu).looksSame
  · simp only [List.mem_cons, List.not_mem_nil, or_false] at hc
    obtain rfl | rfl | rfl | rfl := hc
    · exact (Command.push_leads hh hown w w' hw).looksSame
    · exact (Command.pull_leads hh hown w w' hw).looksSame
    · exact (Command.sync_leads hh hown w w' hw).looksSame
    · exact (Command.rotate_leads hh hown w w' hw).looksSame
  · have hm := Command.register_matches hh (.refl ∅ w) hown
    exact ⟨hm.looksSame, hm.2.files.shown⟩

/-! Two users with one public key, who differ in their plaintext and in their private keys. -/

namespace Twins

open Command (HomeIs OwnFile SparesOwn keySpot)

def accepted : String :=
  "\x7b\"version_id\":\"v\",\"version\":1,\"access_token\":\"t\"," ++
    "\"user\":\x7b\"id\":\"u\",\"email\":\"e\"\x7d\x7d"

def reply (r : Request) : Reply :=
  if r.method = "POST" then Sample.saying accepted
  else if "/members".toList.isSuffixOf r.url.toList then Sample.saying Sample.roster
  else Sample.saying Sample.version

def pairText (key : String) : String := "# public key: age1\n" ++ key ++ "\n"

def outcome (plaintext key : String) (r : Run) : Outcome :=
  if r.arguments.head? = some "--decrypt" then .exited 0 (Text.Utf8.encode plaintext) []
  else if r.arguments = [] then .exited 0 (Text.Utf8.encode (pairText key)) []
  else .exited 0 (Text.Utf8.encode Sample.ciphertext) []

def host (plaintext key : String) : Host :=
  { Desk.host with
    respond := fun _ r => reply r
    execute := fun _ r => outcome plaintext key r }

def session : String := "\x7b\"access_token\":\"t\",\"user_id\":\"u\"\x7d"

def binding : String := "organization_id: o\nproject_id: p\n"

def tree : Tree :=
  ⟨Desk.tree.entries ++ [([".envv"], .directory 0o700),
    ([".envv", "credentials.json"], .file 0o600 (Text.Utf8.encode session)),
    (["work", ".envv"], .directory 0o755),
    (["work", ".envv", "config.yaml"], .file 0o644 (Text.Utf8.encode binding))]⟩

def file : Location := ["work", "env"]

def world (text : String) : World :=
  { Desk.world with files := tree.put file (.file 0o644 (Text.Utf8.encode text)) }

def values : Command.Values :=
  [("home", some "~/.envv"), ("email", some "e"), ("password", some "p"), ("name", some "n"),
    ("file", some "env"), ("format", some "dotenv")]

def left : String := "AGE-SECRET-KEY-1A"

def right : String := "AGE-SECRET-KEY-1B"

theorem isTold {key : String} (hk : key = left ∨ key = right) :
    Keypair.IsTold (Text.Utf8.encode (pairText key)) [] ⟨"age1", key⟩ := by
  have hscan : Keypair.scan (pairText key ++ "\n" ++ "") = ⟨"age1", key⟩ := by
    obtain rfl | rfl := hk <;> decide +kernel
  have hkey : key ≠ "" := by
    obtain rfl | rfl := hk <;> decide
  refine ⟨pairText key, "", ?_, rfl, ?_⟩
  · obtain rfl | rfl := hk <;> decide +kernel
  · unfold Keypair.ofOutput
    dsimp only
    rw [hscan]
    exact if_neg (by simp [hkey])

theorem hosts_alike (plaintext plaintext' : String) :
    (host plaintext left).Alike (host plaintext' right) where
  workDirectory := rfl
  home := rfl
  temporary := rfl
  now := rfl
  serviceUrl := rfl
  isInstalled := rfl
  freshName := rfl
  respond := fun _ => rfl
  execute := by
    intro es es' r r' _ hr
    show Outcome.Alike r (outcome plaintext left r) (outcome plaintext' right r')
    unfold outcome
    rw [← hr.arguments]
    split
    next hd => exact .decrypted hd _ _ _
    · split
      next hg => exact .generated hg (isTold (.inl rfl)) (isTold (.inr rfl)) rfl
      · exact .same _

theorem worlds_alike (text text' : String) : (world text).Alike {file} (world text') where
  files := (Tree.Alike.refl _ _).put (.file _ _ _) (.inr rfl)
  events := .nil
  warnings := rfl
  printed := rfl
  typed := rfl

theorem homeIs_eq {home : Path} (hp : HomeIs (host "A=1" left) values home) :
    home = ⟨.root, [".envv"]⟩ := by
  obtain ⟨p, hp, hhome⟩ := hp
  have hexpand : (Path.ofText (values.text "home")).expandHome? ⟨.root, []⟩ =
      some ⟨.root, [".envv"]⟩ := by decide +kernel
  obtain rfl : p = ⟨.root, [".envv"]⟩ := Option.some.inj (hp.symm.trans hexpand)
  exact (Option.some.inj hhome).symm

theorem sparesOwn {S : Set Location} {l : Location} (hs : S ⊆ {l})
    (hl : l ∉ [["work", ".envv", "config.yaml"], [".envv", "config.yaml"],
      [".envv", "credentials.json"]]) : SparesOwn (host "A=1" left) values S := by
  intro p hp hmem
  rw [← show Tree.destination ["work"] p = l from hs hmem] at hl
  refine hl ?_
  cases hp with
  | binding => decide +kernel
  | settings hp =>
    rw [homeIs_eq hp]
    decide +kernel
  | credentials hp =>
    rw [homeIs_eq hp]
    decide +kernel

def keys : Location := [".config", "sops", "age", "keys.txt"]

theorem keySpot_subset : keySpot values (host "A=1" left) (world "A=1") ⊆ {keys} := by
  rintro l ⟨p, hp, rfl⟩
  have hfile : (Command.keyFile values (host "A=1" left) (world "A=1")).1.toOption =
      some ⟨.root, keys⟩ := by decide +kernel
  rw [hp] at hfile
  rw [Option.some.inj hfile]
  rfl

/-- The twins differ in all their secrets, and nobody else can tell them apart. -/
theorem twins_look_same :
    (LooksSame (Desk.secrets.sync .null none (host "A=1" left) (world "A=1"))
        (Desk.secrets.sync .null none (host "B=2" right) (world "B=2")) ∧
      LooksSame (Command.Secrets.sync.run values (host "A=1" left) (world "A=1"))
        (Command.Secrets.sync.run values (host "B=2" right) (world "B=2")) ∧
      LooksSame (Command.Auth.register.run values (host "A=1" left) (world "A=1"))
        (Command.Auth.register.run values (host "B=2" right) (world "A=1"))) ∧
    (Command.Secrets.sync.run values (host "A=1" left) (world "A=1")).1.isOk ∧
    (Command.Auth.register.run values (host "A=1" left) (world "A=1")).1.isOk ∧
    (Command.Auth.register.run values (host "A=1" left) (world "A=1")).2.files.node? keys ≠
      (Command.Auth.register.run values (host "B=2" right) (world "A=1")).2.files.node? keys := by
  obtain ⟨hservice, hcommands, hregister⟩ :=
    secrets_stay_local (hosts_alike "A=1" "B=2") (worlds_alike "A=1" "B=2") values
  obtain ⟨-, -, hsync, -⟩ := hservice Desk.secrets
  have hfile : SparesOwn (host "A=1" left) values {file} := sparesOwn subset_rfl (by decide)
  have hkeys := sparesOwn keySpot_subset (by decide)
  have hcommand := hcommands hfile Command.Secrets.sync (by simp)
  refine ⟨⟨hsync .null none, hcommand, (hregister hkeys).1⟩, ?_, ?_, ?_⟩
  all_goals decide +kernel

end Twins

end TeamVault
