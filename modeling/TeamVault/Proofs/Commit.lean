import TeamVault.Proofs.RotationTrace
import TeamVault.Proofs.SecretsCourse

/-!
The single point at which a change of secrets is committed. A push, a sync and a rotation post at
most once and then do nothing more; what they post is the output of an encryption that has just
succeeded, for the members that the service has just listed.
-/
namespace TeamVault

open Sops (Tool)

def Event.IsCommit (c : Client) (project : String) (e : Event) : Prop :=
  ∃ r, e = .request r ∧ r.IsTo c (.pushSecrets project)

theorem Event.IsRead.not_isCommit {c : Client} {project : String} {e : Event} (he : e.IsRead) :
    ¬ e.IsCommit c project := by
  rintro ⟨r, rfl, hto⟩
  exact absurd (he.symm.trans hto.1) (by decide : "GET" ≠ "POST")

/-- An operation that may store a new version. -/
inductive Change
  | push (file : Path) (environment format : Json)
  | sync (environment : Json) (file : Option String)
  | rotate (environment : Json)

namespace Change

def perform (s : Secrets) : Change → Action Unit
  | push file environment format => do let _ ← s.push file environment format
  | sync environment file => do let _ ← s.sync environment file
  | rotate environment => do let _ ← s.rotate environment

def given : Change → Json
  | push _ environment _ | sync environment _ | rotate environment => environment

end Change

structure Grounds where
  first : List Event
  members : Request.Sent
  recipients : List Recipient
  policy : Policy
  run : Run.Started
  plaintext : String
  config : String
  ciphertext : Bytes
  diagnostics : Bytes
  fields : Json.Fields
  block : Json.Fields
  text : String

/-- The members were told and an encryption for them has succeeded; its output is what is posted. -/
structure Grounds.Justify (g : Grounds) (c : Client) (tool : Tool) (project : String) (h : Host)
    (earlier before : List Event) (environment : Environment) (format : SecretFormat)
    (post : Request) : Prop where
  before_eq : before = g.first ++ [.request g.members, .run g.run]
  asked : g.members.IsTo c (.projectMembers project)
  told : Roster.told c project (h.respond (earlier ++ g.first) g.members.toRequest) =
    .ok g.recipients
  keyed : ∃ r ∈ g.recipients, r.hasKey
  builds : Policy.build g.recipients = .ok g.policy
  program : g.run.program = tool.program
  arguments : g.run.arguments = Tool.encryptArguments format g.plaintext g.config
  config : ∃ v ∈ g.run.reads, v.path = g.config
  config_data : ∀ v ∈ g.run.reads, v.path = g.config → v.data = Text.Utf8.encode g.policy.render
  exited : h.execute (earlier ++ g.first ++ [.request g.members]) g.run.toRun =
    .exited 0 g.ciphertext g.diagnostics
  json : Json.ofBytes? g.ciphertext = some (.object g.fields)
  block : g.fields.get? Sops.metadataKey = some (.object g.block)
  text : Text.Utf8.decode? g.ciphertext = some g.text
  body : post.body = some (.object [("encrypted_data", .text g.text),
    ("format", .text format.name), ("environment", .text environment.name),
    ("metadata", .object g.block)])

theorem Recipient.exists_key_of_keys {rs : List Recipient} (h : Recipient.keys rs ≠ []) :
    ∃ r ∈ rs, r.hasKey := by
  obtain ⟨k, hk⟩ := List.exists_mem_of_ne_nil _ h
  rw [Recipient.keys, List.mem_mergeSort, List.mem_eraseDups, List.mem_filterMap] at hk
  obtain ⟨r, hr, hk⟩ := hk
  exact ⟨r, hr, by rw [hasKey, hk]; rfl⟩

theorem Policy.keys_of_build {rs : List Recipient} {pathRegex : String} {p : Policy}
    (h : Policy.build rs pathRegex = .ok p) : Recipient.keys rs ≠ [] := by
  unfold Policy.build at h
  dsimp only at h
  split at h
  · cases h
  · assumption

theorem Sops.metadata_eq_ok {ciphertext : Bytes} {block : Json.Fields}
    (h : Sops.metadata ciphertext = .ok block) :
    ∃ fields, Json.ofBytes? ciphertext = some (.object fields) ∧
      Json.Fields.get? fields Sops.metadataKey = some (.object block) := by
  unfold Sops.metadata at h
  split at h
  · cases h
  next fields hj =>
    split at h
    next b hb =>
      cases h
      exact ⟨fields, hj, hb⟩
    · cases h
    · cases h
  · cases h

theorem Files.path_of_view? {t : Tree} {here : Location} {p : String} {v : FileView}
    (h : Files.view? t here p = some v) : v.path = p := by
  unfold Files.view? at h
  split at h
  · cases h
    rfl
  · cases h

section Sealing

variable {c : Client} {tool : Tool} {project : String} {h : Host} {file : Path}
  {format : SecretFormat} {w v : World}

theorem Sealing.exists_run (z : Sealing c tool project h file format v) :
    ∃ directory l scene diagnostics,
      Sops.Staged h v.files (Tool.encryptJob file z.policy format) directory l scene ∧
      z.sealed.events = v.events ++ [.request ⟨Roster.question c project, v.files⟩,
        .run ⟨tool.commandFor h (Tool.encryptJob file z.policy format) scene
          ((Tool.encryptJob file z.policy format).file directory), scene⟩] ∧
      h.execute (v.events ++ [.request ⟨Roster.question c project, v.files⟩])
        (tool.commandFor h (Tool.encryptJob file z.policy format) scene
          ((Tool.encryptJob file z.policy format).file directory)) =
        .exited 0 z.ciphertext diagnostics ∧
      Sops.metadata z.ciphertext = .ok z.metadata := by
  have hr := tool.encrypt_runs h (v.sent (Roster.question c project)) file z.policy format
  rw [z.encrypts] at hr
  obtain ⟨d, l, scene, code, output, diagnostics, hst, he, hx, ho⟩ := hr.of_ok
  obtain ⟨rfl, rfl, hm⟩ := Tool.sealed_eq_ok ho
  exact ⟨d, l, scene, diagnostics, hst, by rw [he, World.sent_events, List.append_assoc]; rfl,
    hx, hm⟩

variable (tool) in
theorem Sops.Tool.reads_config {scene : Tree} {config : Path} {policy : Policy} {u : FileView}
    (hu : Files.view? scene h.workDirectory config.toText = some u) :
    (∃ v ∈ (tool.commandFor h (encryptJob file policy format) scene config).reads,
        v.path = config.toText) ∧
      ∀ v ∈ (tool.commandFor h (encryptJob file policy format) scene config).reads,
        v.path = config.toText → v.data = u.data := by
  rw [reads_encryptJob, Files.viewsIn]
  refine ⟨⟨u, List.mem_filterMap.2 ⟨_, List.mem_cons_self, hu⟩, Files.path_of_view? hu⟩, ?_⟩
  intro v hv hp
  obtain ⟨p, -, hpv⟩ := List.mem_filterMap.1 hv
  rw [← Files.path_of_view? hpv, hp, hu] at hpv
  rw [Option.some.inj hpv]

theorem Sealing.quiet (z : Sealing c tool project h file format v) : Quiet v z.sealed := by
  have hr := tool.encrypt_runs h (v.sent (Roster.question c project)) file z.policy format
  rw [z.encrypts] at hr
  have hq : Quiet v (v.sent (Roster.question c project)) := .of_get rfl
  exact hq.trans (Quiet.of_runs hr)

theorem Sealing.justify (z : Sealing c tool project h file format v) {first : List Event}
    (hv : v.events = w.events ++ first) {text : String}
    (ht : Text.Utf8.decode? z.ciphertext = some text) (e : Environment) :
    ∃ g : Grounds, z.sealed.events = w.events ++ (first ++ [.request g.members, .run g.run]) ∧
      g.Justify c tool project h w.events (first ++ [.request g.members, .run g.run]) e format
        (VersionStore.delivery c project e format z.metadata text) := by
  obtain ⟨d, l, scene, diagnostics, hst, he, hx, hm⟩ := z.exists_run
  obtain ⟨fields, hj, hb⟩ := Sops.metadata_eq_ok hm
  obtain ⟨u, hview, -, hdata⟩ := hst.view_data
  obtain ⟨hc, hcd⟩ := Tool.reads_config tool hview
  let config := (Tool.encryptJob file z.policy format).file d
  refine ⟨⟨first, ⟨Roster.question c project, v.files⟩, z.recipients, z.policy,
    ⟨tool.commandFor h (Tool.encryptJob file z.policy format) scene config, scene⟩,
    file.toText, config.toText, z.ciphertext, diagnostics, fields, z.metadata, text⟩, ?_, ?_⟩
  · rw [he, hv, List.append_assoc]
  · exact {
      before_eq := rfl
      asked := Roster.question_isTo c project
      told := hv ▸ z.lists
      keyed := Recipient.exists_key_of_keys (Policy.keys_of_build z.builds)
      builds := z.builds
      program := rfl
      arguments := rfl
      config := hc
      config_data := fun v hv hp => (hcd v hv hp).trans hdata
      exited := hv ▸ hx
      json := hj
      block := hb
      text := ht
      body := rfl }

end Sealing

/-- A post is the last event between two worlds, and what was done before justifies it. -/
def PostsLast (c : Client) (project : String) (justified : List Event → Request → Prop)
    (w w' : World) : Prop :=
  ∃ trace, w'.events = w.events ++ trace ∧ ∀ before e after, trace = before ++ e :: after →
    e.IsCommit c project → after = [] ∧ ∃ post, e = .request post ∧ justified before post.toRequest

section PostsLast

variable {c : Client} {tool : Tool} {project : String} {h : Host} {file : Path}
  {format : SecretFormat} {w v w' : World} {justified : List Event → Request → Prop}

theorem PostsLast.of_quiet (hq : Quiet w w') : PostsLast c project justified w w' := by
  obtain ⟨trace, ht, hn⟩ := hq
  refine ⟨trace, ht, fun before e after he hc => absurd hc (hn e ?_).not_isCommit⟩
  rw [he]
  simp

theorem PostsLast.of_post {before : List Event} {post : Request.Sent}
    (hw : w'.events = w.events ++ (before ++ [.request post]))
    (hq : ∀ e ∈ before, e.IsRead) (hp : justified before post.toRequest) :
    PostsLast c project justified w w' := by
  refine ⟨before ++ [.request post], hw, fun first e after he hc => ?_⟩
  -- With an event after it, it would be one of `before`, which are reads.
  rcases List.eq_nil_or_concat after with rfl | ⟨rest, x, rfl⟩
  · obtain ⟨rfl, hpost⟩ := List.append_inj' he rfl
    exact ⟨rfl, post, (List.singleton_inj.1 hpost).symm, hp⟩
  · have hs : before ++ [.request post] = (first ++ e :: rest) ++ [x] := by simpa using he
    have hb := (List.append_inj' hs rfl).1
    exact absurd hc (hq e (by rw [hb]; simp)).not_isCommit

theorem PostsLast.mono {other : List Event → Request → Prop}
    (hp : PostsLast c project justified w w')
    (hj : ∀ before r, justified before r → other before r) :
    PostsLast c project other w w' := by
  obtain ⟨trace, ht, ha⟩ := hp
  refine ⟨trace, ht, fun before e after he hc => ?_⟩
  obtain ⟨hafter, post, hpost, h⟩ := ha before e after he hc
  exact ⟨hafter, post, hpost, hj _ _ h⟩

def Justified (c : Client) (tool : Tool) (project : String) (h : Host) (earlier : List Event)
    (e : Environment) (format : SecretFormat) (before : List Event) (post : Request) : Prop :=
  ∃ g : Grounds, g.Justify c tool project h earlier before e format post

theorem Sealing.push_postsLast (z : Sealing c tool project h file format v)
    (hq : Quiet w v) {left : World} (hl : left.events = z.sealed.events)
    (e : Environment) :
    PostsLast c project (Justified c tool project h w.events e format) w
      (VersionStore.push c project e z.ciphertext format z.metadata h left).2 := by
  cases ht : Text.Utf8.decode? z.ciphertext with
  | none =>
    rw [VersionStore.push_of_no_text c project e h left format z.metadata ht]
    exact .of_quiet (hq.trans (z.quiet.trans (.of_events hl)))
  | some text =>
    obtain ⟨first, hv, hn⟩ := hq
    obtain ⟨g, he, hg⟩ := z.justify hv ht e
    rw [VersionStore.push_of_text c project e h left format z.metadata ht]
    have hw := World.sent_events left (VersionStore.delivery c project e format z.metadata text)
    rw [hl, he, List.append_assoc] at hw
    refine .of_post hw (fun d hd => ?_) ⟨g, hg⟩
    simp only [List.mem_append, List.mem_cons, List.not_mem_nil, or_false] at hd
    rcases hd with hd | rfl | rfl
    · exact hn d hd
    · exact hg.asked.1
    · exact trivial

end PostsLast

/-- The format in which a change stores a version: the one that the caller names, that of the
version it goes on from, or dotenv where there is none. -/
def Change.StoresAs (s : Secrets) (h : Host) (w : World) (e : Environment) :
    Change → SecretFormat → Prop
  | push _ _ format, f => SecretFormat.choose format = .ok f
  | sync .., f =>
    (∃ v, (VersionStore.pull s.client s.project e h w).1 = .ok v ∧ v.format = some f) ∨
      ∃ x, (VersionStore.pull s.client s.project e h w).1 = .error x ∧
        Rotation.isNotFound x = true ∧ f = .dotenv
  | rotate _, f =>
    ∃ v, (VersionStore.pull s.client s.project e h w).1 = .ok v ∧ v.format = some f

namespace Secrets

variable (s : Secrets) (h : Host) (w : World)

theorem pushFile_postsLast {v : World} (hq : Quiet w v) (file : Path)
    (e : Environment) (f : SecretFormat) :
    PostsLast s.client s.project (Justified s.client s.tool s.project h w.events e f) w
      (s.pushFile file e f h v).2 := by
  obtain ⟨x, -, hx⟩ | ⟨z, -, hz⟩ := s.pushFile_cases h v file e f
  · exact .of_quiet (hq.trans hx)
  · rw [hz]
    exact z.push_postsLast hq rfl e

end Secrets

namespace Rotation

variable {c : Client} {tool : Tool} {project : String} {environment : Environment}
  {parent : Option Path} {h : Host} {w : World}

def Sealed.sealing (d : Sealed c tool project environment parent h w) :
    Sealing c tool project h d.file d.format d.written :=
  ⟨d.recipients, d.lists, d.policy, d.builds, d.ciphertext, d.metadata, d.sealed, d.encrypts⟩

theorem permits_quiet (c : Client) (tool : Tool) (project : String) (h : Host)
    (earlier : List Event) :
    Permits c tool project h earlier fun _ e => e.IsRead where
  fetch _ _ hq := hq.1
  decrypt _ _ _ := trivial
  members _ _ _ hq := hq.1
  encrypt _ _ _ _ := trivial

theorem quiet_of_goes {w' : World} (hg : Goes (fun _ e => e.IsRead) w w') : Quiet w w' := by
  obtain ⟨trace, ht, hf⟩ := hg
  refine ⟨trace, ht, fun e he => ?_⟩
  obtain ⟨before, after, hs⟩ := List.append_of_mem he
  exact hf before e after hs

theorem Course.postsLast {r : Rotation} {w' : World}
    (hc : Course c tool project environment parent h w r w') :
    Quiet w w' ∨ ∃ d : Sealed c tool project environment parent h w,
      PostsLast c project (Justified c tool project h w.events environment d.format) w w' := by
  have hA := permits_quiet c tool project h w.events
  obtain ⟨hg, -⟩ | ⟨d, x, v, hp, he, -⟩ := hc.goes hA
  · exact .inl (quiet_of_goes hg)
  obtain ⟨first, hv, hf, -⟩ := d.toDecrypted.goes hA.toPermitsReading
  have hq : Quiet w d.written := quiet_of_goes ⟨first, hv, hf⟩
  obtain ⟨trace, ht, hl⟩ := d.sealing.push_postsLast hq (Scratch.left_events d.scratch) environment
  refine .inr ⟨d, trace, ?_, hl⟩
  have hpush : VersionStore.push c project environment d.sealing.ciphertext d.format
    d.sealing.metadata h d.left = (x, v) := hp
  rw [he, ← ht]
  show v.events = (VersionStore.push c project environment d.sealing.ciphertext d.format
    d.sealing.metadata h d.left).2.events
  rw [hpush]

end Rotation

theorem Change.perform_world (s : Secrets) (u : Change) (h : Host) (w : World) :
    (u.perform s h w).2 = match u with
      | push file environment format => (s.push file environment format h w).2
      | sync environment file => (s.sync environment file h w).2
      | rotate environment => (s.rotate environment h w).2 := by
  cases u with
  | push | sync | rotate =>
    exact congrArg Prod.snd (Action.bind_of_pure (g := fun _ => .ok ()) fun _ _ => rfl)

def Change.MayPost (s : Secrets) (u : Change) (h : Host) (w : World) (before : List Event)
    (post : Request) : Prop :=
  ∃ environment format,
    Environment.choose u.given (some s.binding.defaultEnvironment) = .ok environment ∧
    u.StoresAs s h w environment format ∧
    ∃ g : Grounds, g.Justify s.client s.tool s.project h w.events before environment format post

theorem Change.postsLast (s : Secrets) (u : Change) (h : Host) (w : World) :
    PostsLast s.client s.project (u.MayPost s h w) w (u.perform s h w).2 := by
  rw [perform_world]
  cases u with
  | push file environment format =>
    obtain ⟨x, hx⟩ | ⟨e, f, he, hf, hp⟩ := s.push_cases h w file environment format
    · exact .of_quiet (.of_events (by dsimp only; rw [hx]))
    · dsimp only
      rw [hp]
      exact (s.pushFile_postsLast h w (.of_events rfl) file e f).mono fun _ _ hj =>
        ⟨e, f, he, hf, hj⟩
  | sync environment file =>
    obtain ⟨x, -, hx⟩ | ⟨e, pulled, f, v, he, hst, hq, hs⟩ := s.sync_cases h w environment file
    · exact .of_quiet hx
    · dsimp only
      rw [hs]
      refine (s.pushFile_postsLast h w hq _ e f).mono fun _ _ hj => ⟨e, f, he, ?_, hj⟩
      have hpull := VersionStore.pull_apply s.client s.project e h w
      cases hst with
      | taken t => exact .inl ⟨t.version, by rw [hpull, t.told], t.tells⟩
      | first told missing => exact .inr ⟨_, by rw [hpull, told], missing, rfl⟩
  | rotate environment =>
    obtain ⟨x, hx⟩ | ⟨e, r, w', he, hc, hw⟩ := s.rotate_cases h w environment
    · exact .of_quiet (.of_events (by dsimp only; rw [hx]))
    · dsimp only
      rw [hw]
      obtain hq | ⟨d, hd⟩ := hc.postsLast
      · exact .of_quiet hq
      · refine hd.mono fun _ _ hj => ⟨e, d.format, he, ⟨d.current, ?_, d.tells⟩, hj⟩
        rw [VersionStore.pull_apply, d.told]

/-- Every change posts at most once, as the last thing it does. What it posts is the output of an
encryption that has just succeeded under the policy of the members that have just been told, in the
environment that the caller names and in the format that the change goes on with. -/
theorem Change.commit_is_last (s : Secrets) (u : Change) (h : Host) (w : World) :
    ∃ trace, (u.perform s h w).2.events = w.events ++ trace ∧
      ∀ before e after, trace = before ++ e :: after → e.IsCommit s.client s.project →
        after = [] ∧ ∃ post, e = .request post ∧ ∃ environment format,
          Environment.choose u.given (some s.binding.defaultEnvironment) = .ok environment ∧
          u.StoresAs s h w environment format ∧
          ∃ g : Grounds, g.Justify s.client s.tool s.project h w.events before environment format
            post.toRequest :=
  u.postsLast s h w

end TeamVault
