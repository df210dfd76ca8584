import TeamVault.Proofs.RotationCourse
import TeamVault.Secrets

/-!
The lifetime of plaintext and intermediate ciphertext. An operation that is not meant to change
files leaves the tree as it found it, however it ends. While it runs, whatever else is in the tree
is private, and when something is posted nothing of it is there any more.
-/
namespace TeamVault

open TeamVault.Tree (Sound Inside AddsPrivately)

/-- The files at an event are those of `base` and private ones, and at a post those of `base`. -/
def Event.IsConfined (base : Tree) : Event → Prop
  | .run r => AddsPrivately base r.files
  | .request r => AddsPrivately base r.files ∧ (r.method = "POST" → r.files = base)

def Event.IsPrivateRun (base : Tree) : Event → Prop
  | .run r => AddsPrivately base r.files
  | .request _ => False

theorem Event.IsPrivateRun.isConfined {base t : Tree} {e : Event} (hb : AddsPrivately base t)
    (he : e.IsPrivateRun t) : e.IsConfined base := by
  cases e with
  | run r => exact hb.trans he
  | request r => exact absurd he id

namespace Action

variable {α β : Type} {a : Action α} {f : α → Action β} {h : Host} {w : World}

structure Confined (a : Action α) (h : Host) (w : World) : Prop where
  files : (a h w).2.files = w.files
  emitted : Emitted (Event.IsConfined w.files) w (a h w).2

namespace Confined

theorem of_eq {r : Except Failure α} (ha : a h w = (r, w)) : Confined a h w := by
  refine ⟨by rw [ha], .of_events (by rw [ha])⟩

theorem of_sent {r : Except Failure α} {q : Request} (ha : a h w = (r, w.sent q)) :
    Confined a h w := by
  refine ⟨by rw [ha, World.sent_files], ?_⟩
  rw [ha]
  exact .single (World.sent_events w q) ⟨.refl w.files, fun _ => rfl⟩

theorem of_private_runs (hf : (a h w).2.files = w.files)
    (he : Emitted (Event.IsPrivateRun w.files) w (a h w).2) : Confined a h w :=
  ⟨hf, he.mono fun _ => Event.IsPrivateRun.isConfined (.refl w.files)⟩

theorem bind (hs : w.files.Sound h.workDirectory) (ha : Confined a h w)
    (hf : ∀ x w', w'.files.Sound h.workDirectory → Confined (f x) h w') :
    Confined (a >>= f) h w := by
  obtain ⟨hfiles, he⟩ := ha
  rcases hr : a h w with ⟨_ | x, w'⟩
  · rw [hr] at hfiles he
    exact ⟨by rw [bind_of_error hr, hfiles], by rwa [bind_of_error hr]⟩
  · rw [hr] at hfiles he
    have hx := hf x w' (hfiles ▸ hs)
    refine ⟨by rw [bind_of_ok hr, hx.files, hfiles], ?_⟩
    rw [bind_of_ok hr]
    exact he.trans (hfiles ▸ hx.emitted)

end Confined

/-- An action that may change files, but keeps the tree sound and runs tools only while nothing but
`base` and private files is there. -/
structure Guarded (base : Tree) (a : Action α) (h : Host) (w : World) : Prop where
  sound : (a h w).2.files.Sound h.workDirectory
  emitted : Emitted (Event.IsConfined base) w (a h w).2

namespace Guarded

variable {base : Tree}

theorem of_confined (hb : w.files = base) (hs : base.Sound h.workDirectory) (ha : Confined a h w) :
    Guarded base a h w := by
  subst hb
  exact ⟨ha.files.symm ▸ hs, ha.emitted⟩

theorem bind (ha : Guarded base a h w)
    (hf : ∀ x w', a h w = (.ok x, w') → w'.files.Sound h.workDirectory →
      Guarded base (f x) h w') : Guarded base (a >>= f) h w := by
  obtain ⟨hs, he⟩ := ha
  rcases hr : a h w with ⟨_ | x, w'⟩
  · rw [hr] at hs he
    exact ⟨by rwa [bind_of_error hr], by rwa [bind_of_error hr]⟩
  · rw [hr] at hs he
    obtain ⟨hxs, hxe⟩ := hf x w' hr hs
    rw [← bind_of_ok (f := f) hr] at hxs hxe
    exact ⟨hxs, he.trans hxe⟩

theorem after (hb : w.files = base) (hs : base.Sound h.workDirectory) (ha : Confined a h w)
    (hf : ∀ x w', w'.files = base → Guarded base (f x) h w') : Guarded base (a >>= f) h w := by
  refine (of_confined hb hs ha).bind fun x w' hr _ => hf x w' ?_
  have hfiles := ha.files
  rw [hr] at hfiles
  exact hfiles.trans hb

theorem of_events (hs : (a h w).2.files.Sound h.workDirectory)
    (he : (a h w).2.events = w.events) : Guarded base a h w :=
  ⟨hs, .of_events he⟩

theorem recover {handle : Failure → Action α} (ha : Guarded base a h w)
    (hh : ∀ x w', (handle x h w').2 = w') : Guarded base (a.recover handle) h w := by
  have hw : (a.recover handle h w).2 = (a h w).2 := by
    rw [recover_apply]
    rcases a h w with ⟨x | x, w'⟩
    · exact hh x w'
    · rfl
  exact ⟨by rw [hw]; exact ha.sound, by rw [hw]; exact ha.emitted⟩

theorem then_confined (ha : Guarded base a h w)
    (hf : ∀ x w', w'.files.Sound h.workDirectory → Confined (f x) h w') :
    Emitted (fun e => e.IsConfined base ∨ e.IsConfined ((a >>= f) h w).2.files) w
      ((a >>= f) h w).2 := by
  obtain ⟨hs, he⟩ := ha
  rcases hr : a h w with ⟨_ | x, w'⟩
  · rw [hr] at he
    rw [bind_of_error hr]
    exact he.mono fun _ => .inl
  · rw [hr] at hs he
    obtain ⟨hxf, hxe⟩ := hf x w' hs
    rw [bind_of_ok hr, hxf]
    exact (he.mono fun _ => .inl).trans (hxe.mono fun _ => .inr)

end Guarded

end Action

namespace Sops.Tool

open TeamVault.Action (Confined)

variable {α : Type} (t : Tool) (h : Host) (w : World)

theorem checkInstalled_confined : Confined t.checkInstalled h w := by
  obtain hi | hi := t.checkInstalled_cases h w <;> exact .of_eq hi

theorem Runs.emitted {j : Job} {g : Int × Bytes × Bytes → Except Fault α} {r : Except Failure α}
    {w' : World} (hs : w.files.Sound h.workDirectory) (hr : t.Runs h w j g r w'.events) :
    Emitted (Event.IsPrivateRun w.files) w w' := by
  generalize he : w'.events = es at hr
  cases hr with
  | unrun => exact .of_events he
  | ran d l scene hst => exact .single he (hst.addsPrivately hs)

variable (hs : w.files.Sound h.workDirectory)
include hs

theorem encrypt_emitted (file : Path) (policy : Policy) (format : SecretFormat) :
    Emitted (Event.IsPrivateRun w.files) w (t.encrypt file policy format h w).2 :=
  (t.encrypt_runs h w file policy format).emitted t h w hs

theorem decrypt_emitted (ciphertext : Bytes) (format : SecretFormat) :
    Emitted (Event.IsPrivateRun w.files) w (t.decrypt ciphertext format h w).2 :=
  (t.decrypt_runs h w ciphertext format).emitted t h w hs

theorem encrypt_confined (file : Path) (policy : Policy) (format : SecretFormat) :
    Confined (t.encrypt file policy format) h w :=
  .of_private_runs (t.encrypt_files h w file policy format hs)
    (t.encrypt_emitted h w hs file policy format)

theorem decrypt_confined (ciphertext : Bytes) (format : SecretFormat) :
    Confined (t.decrypt ciphertext format) h w :=
  .of_private_runs (t.decrypt_files h w ciphertext format hs)
    (t.decrypt_emitted h w hs ciphertext format)

end Sops.Tool

section Calls

open TeamVault.Action (Confined)

variable (c : Client) (project : String) (h : Host) (w : World)

theorem Roster.ofProject_confined : Confined (Roster.ofProject c project) h w :=
  .of_sent (Roster.ofProject_apply c project h w)

theorem VersionStore.push_confined (e : Environment) (ciphertext : Bytes) (format : SecretFormat)
    (metadata : Json.Fields) :
    Confined (VersionStore.push c project e ciphertext format metadata) h w := by
  cases hd : Text.Utf8.decode? ciphertext with
  | none => exact .of_eq (VersionStore.push_of_no_text c project e h w format metadata hd)
  | some text => exact .of_sent (VersionStore.push_of_text c project e h w format metadata hd)

theorem VersionStore.pull_confined (e : Environment) :
    Confined (VersionStore.pull c project e) h w :=
  .of_sent (VersionStore.pull_apply c project e h w)

end Calls

namespace Rotation

variable {c : Client} {tool : Sops.Tool} {project : String} {environment : Environment}
  {parent : Option Path} {h : Host} {w w' : World} {p : Path} {l : Location}

theorem askedFor_emitted :
    Emitted (Event.IsConfined w.files) w (askedFor c project environment w) :=
  .single (World.sent_events w _) ⟨.refl w.files, fun _ => rfl⟩

structure Opened.At (s : Opened c project environment parent h w) (p : Path) (l : Location) :
    Prop where
  scratch : s.scratch = .opened p
  proper : p.Proper
  fresh : Scratch.Fresh h w.files p l
  files : s.opened.files = Scratch.opening w.files l

theorem Opened.exists_at (s : Opened c project environment parent h w) : ∃ p l, s.At p l := by
  obtain ⟨_, hc⟩ | ⟨p, l, ⟨n, hp⟩, hf, hc⟩ :=
    Scratch.create_cases h (askedFor c project environment w) "envv-rotate-" parent
  · rw [s.creates] at hc
    cases hc
  · rw [s.creates, Prod.mk.injEq, Except.ok.injEq] at hc
    exact ⟨p, l, hc.1, hp ▸ Scratch.proper_nameIn h _ _ n, hf, by rw [hc.2]; rfl⟩

theorem Opened.emitted (s : Opened c project environment parent h w) :
    Emitted (Event.IsConfined w.files) w s.opened :=
  askedFor_emitted.trans (.of_events (Scratch.events_of_create s.creates))

structure Within (h : Host) (w : World) (l : Location) (w' : World) : Prop where
  sound : w'.files.Sound h.workDirectory
  inside : Inside l (Scratch.opening w.files l) w'.files
  shielded : AddsPrivately w.files w'.files
  emitted : Emitted (Event.IsConfined w.files) w w'

theorem Within.of_private_runs {v : World} (hv : Within h w l v) (hf : w'.files = v.files)
    (he : Emitted (Event.IsPrivateRun v.files) v w') : Within h w l w' := by
  obtain ⟨hs, hi, hp, hem⟩ := hv
  rw [← hf] at hs hi
  exact ⟨hs, hi, hf ▸ hp, hem.trans (he.mono fun _ => Event.IsPrivateRun.isConfined hp)⟩

theorem Within.decrypt {v : World} {ciphertext : Bytes} {format : SecretFormat}
    {r : Except Failure Bytes} (hv : Within h w l v)
    (hd : tool.decrypt ciphertext format h v = (r, w')) : Within h w l w' := by
  have hf := tool.decrypt_files h v ciphertext format hv.sound
  have he := tool.decrypt_emitted h v hv.sound ciphertext format
  rw [hd] at hf he
  exact hv.of_private_runs hf he

theorem Within.encrypt {v : World} {file : Path} {policy : Policy} {format : SecretFormat}
    {r : Except Failure (Bytes × Json.Fields)} (hv : Within h w l v)
    (he : tool.encrypt file policy format h v = (r, w')) : Within h w l w' := by
  have hf := tool.encrypt_files h v file policy format hv.sound
  have hem := tool.encrypt_emitted h v hv.sound file policy format
  rw [he] at hf hem
  exact hv.of_private_runs hf hem

theorem Within.get {v : World} {q : Request} (hv : Within h w l v) (hq : q.method ≠ "POST") :
    Within h w l (v.sent q) := by
  refine ⟨hv.sound, hv.inside, hv.shielded, hv.emitted.trans (.single (World.sent_events v q) ?_)⟩
  exact ⟨hv.shielded, fun h => absurd h hq⟩

section Inside

variable (hs : w.files.Sound h.workDirectory)
include hs

theorem Opened.within {s : Opened c project environment parent h w} (ha : s.At p l) :
    Within h w l s.opened := by
  refine ⟨?_, ?_, ?_, s.emitted⟩
  · rw [ha.files]
    exact ha.fresh.opening_sound hs
  · rw [ha.files]
    exact .refl l _
  · rw [ha.files]
    exact .put_directory ha.fresh.free

theorem Decrypted.written_files {s : Decrypted c tool project environment parent h w}
    (ha : s.toOpened.At p l) :
    (Scratch.opening w.files l).write h.workDirectory (p.child ".env.rotate") (some 0o600)
        s.plaintext = .ok s.written.files ∧
      s.file = p.child ".env.rotate" ∧ s.written.events = s.decrypted.events := by
  have hf := tool.decrypt_files h s.opened s.current.ciphertext s.format
    (Opened.within hs ha).sound
  rw [s.decrypts, ha.files] at hf
  have hw := s.writes
  rw [ha.scratch] at hw
  obtain ⟨_, he⟩ | ⟨u, hu, he⟩ := Scratch.write_cases h s.decrypted p ".env.rotate" s.plaintext
  · rw [he] at hw
    cases hw
  · rw [he, Prod.mk.injEq, Except.ok.injEq] at hw
    rw [hf] at hu
    rw [← hw.2]
    exact ⟨hu, hw.1.symm, rfl⟩

theorem Decrypted.within {s : Decrypted c tool project environment parent h w}
    (ha : s.toOpened.At p l) : Within h w l s.written := by
  obtain ⟨hu, -, he⟩ := s.written_files hs ha
  obtain ⟨hi, hp⟩ := ha.fresh.write hs (by decide) (by decide) hu
  have hd := (Opened.within hs ha).decrypt s.decrypts
  exact ⟨(ha.fresh.opening_sound hs).write hu, hi, hp, hd.emitted.trans (.of_events he)⟩

theorem Decrypted.listed_within {s : Decrypted c tool project environment parent h w}
    (ha : s.toOpened.At p l) : Within h w l s.listed :=
  (Decrypted.within hs ha).get fun hq => absurd hq (by decide : "GET" ≠ "POST")

theorem Halts.within {s : Opened c project environment parent h w} {step : RotationStep}
    {own : Failure} {keys : List String} (ha : s.At p l)
    (hh : Halts c tool project environment parent h w s step own keys w') : Within h w l w' := by
  have ho := Opened.within hs ha
  cases hh with
  | format => exact ho
  | decrypt _ fails => exact ho.decrypt fails
  | write _ decrypts fails =>
    have hd := ho.decrypt decrypts
    rw [ha.scratch] at fails
    obtain ⟨_, he⟩ | ⟨u, -, he⟩ := Scratch.write_cases h _ p ".env.rotate" _
    · rw [fails] at he
      cases he
      exact hd
    · rw [fails] at he
      cases he
  | refresh d hd =>
    subst hd
    exact Decrypted.listed_within hs ha
  | build d hd =>
    subst hd
    exact Decrypted.listed_within hs ha
  | encrypt d hd fails =>
    subst hd
    exact (Decrypted.listed_within hs ha).encrypt fails

theorem Opened.At.left {s : Opened c project environment parent h w} (ha : s.At p l)
    (hw : Within h w l w') :
    (s.scratch.left h w').files = w.files ∧
      Emitted (Event.IsConfined w.files) w (s.scratch.left h w') := by
  refine ⟨?_, hw.emitted.trans (.of_events (Scratch.left_events s.scratch))⟩
  rw [ha.scratch]
  exact ha.fresh.left_files hs hw.inside

theorem Sealed.left_confined (s : Sealed c tool project environment parent h w) :
    s.left.files = w.files ∧ Emitted (Event.IsConfined w.files) w s.left := by
  obtain ⟨p, l, ha⟩ := s.toOpened.exists_at
  exact ha.left hs ((Decrypted.listed_within hs ha).encrypt s.encrypts)

theorem Sealed.push_confined (s : Sealed c tool project environment parent h w)
    {r : Except Failure SecretVersion}
    (hp : VersionStore.push c project environment s.ciphertext s.format s.metadata h s.left =
      (r, w')) :
    w'.files = w.files ∧ Emitted (Event.IsConfined w.files) w w' := by
  obtain ⟨hf, he⟩ := s.left_confined hs
  have hc := VersionStore.push_confined c project h s.left environment s.ciphertext s.format
    s.metadata
  have hcf := hc.files
  have hce := hc.emitted
  rw [hp] at hcf hce
  exact ⟨hcf.trans hf, he.trans (hf ▸ hce)⟩

theorem Stops.confined {step : RotationStep} {own : Failure} {previous : Option SecretVersion}
    {keys : List String}
    (hst : Stops c tool project environment parent h w step own previous keys w') :
    w'.files = w.files ∧ Emitted (Event.IsConfined w.files) w w' := by
  cases hst with
  | fetch => exact ⟨rfl, askedFor_emitted⟩
  | scratch s fails =>
    obtain ⟨_, he⟩ | ⟨p, l, -, -, he⟩ :=
      Scratch.create_cases h (askedFor c project environment w) "envv-rotate-" parent
    · rw [fails] at he
      cases he
      exact ⟨rfl, askedFor_emitted⟩
    · rw [fails] at he
      cases he
  | inside s halts =>
    obtain ⟨p, l, ha⟩ := s.exists_at
    exact ha.left hs (halts.within hs ha)
  | push s fails => exact s.push_confined hs fails

theorem Course.confined {r : Rotation}
    (hc : Course c tool project environment parent h w r w') :
    w'.files = w.files ∧ Emitted (Event.IsConfined w.files) w w' := by
  cases hc with
  | nothing => exact ⟨rfl, askedFor_emitted⟩
  | stopped stops =>
    obtain ⟨hf, he⟩ := stops.confined hs
    exact ⟨hf, he⟩
  | completed s => exact s.toSealed.push_confined hs s.pushes

theorem run_confined (c : Client) (tool : Sops.Tool) (project : String)
    (environment : Environment) (parent : Option Path) (earlier : Rotation) :
    Action.Confined (run c tool project environment parent earlier) h w := by
  obtain ⟨r, w', hr, hc⟩ := run_course c tool project environment parent earlier h w
  obtain ⟨hf, he⟩ := hc.confined hs
  exact ⟨by rw [hr, hf], by rwa [hr]⟩

end Inside

end Rotation

namespace Secrets

open TeamVault.Action (Confined Guarded)

variable (s : Secrets) {h : Host} {w : World}

theorem environment_confined (given : Json) : Confined (s.environment given) h w :=
  .of_eq (Action.ofExcept_apply _)

theorem isFile_confined (file : Path) : Confined (Files.isFile file) h w := by
  obtain ⟨r, hr, -⟩ := Files.isFile_cases file h w
  exact .of_eq hr

section Sound

variable (hs : w.files.Sound h.workDirectory)
include hs

theorem pushFile_confined (file : Path) (e : Environment) (f : SecretFormat) :
    Confined (s.pushFile file e f) h w := by
  unfold pushFile
  refine (isFile_confined file).bind hs fun there w' hs => ?_
  split
  · refine (s.tool.checkInstalled_confined h w').bind hs fun _ w' hs => ?_
    refine (Roster.ofProject_confined s.client s.project h w').bind hs fun rs w' hs => ?_
    refine .bind hs (.of_eq (Action.ofExcept_apply _)) fun policy w' hs => ?_
    refine (s.tool.encrypt_confined h w' hs file policy f).bind hs fun x w' _ => ?_
    exact VersionStore.push_confined s.client s.project h w' e x.1 f x.2
  · exact .of_eq (Action.raise_apply _)

theorem push_confined (file : Path) (environment format : Json) :
    Confined (s.push file environment format) h w := by
  unfold push
  refine (s.environment_confined environment).bind hs fun e w' hs => ?_
  exact .bind hs (.of_eq (Action.ofExcept_apply _)) fun f w' hs => s.pushFile_confined hs file e f

theorem versions_confined (environment : Json) : Confined (s.versions environment) h w := by
  unfold versions
  refine (s.environment_confined environment).bind hs fun e w' _ => ?_
  exact .of_sent (VersionStore.versions_apply s.client s.project e h w')

theorem rotate_confined (environment : Json) : Confined (s.rotate environment) h w := by
  unfold rotate
  refine (s.environment_confined environment).bind hs fun e w' hs => ?_
  refine (Rotation.run_confined hs s.client s.tool s.project e none _).bind hs fun r w' _ => ?_
  split
  · exact .of_eq (Action.fail_apply _)
  · exact .of_eq (Action.pure_apply r)

end Sound

theorem rollback_confined (id : String) : Confined (s.rollback id) h w := by
  unfold rollback
  split
  · exact .of_eq (Action.raise_apply _)
  · exact .of_sent (VersionStore.rollback_apply s.client s.project h w id)

section Pulling

variable (hs : w.files.Sound h.workDirectory)
include hs

theorem makeDirectories_guarded (base : Tree) (p : Path) :
    Guarded base (Files.makeDirectories p) h w := by
  refine .of_events ?_ rfl
  exact hs.makeDirectories p

theorem writePrivate_guarded (base : Tree) (p : Path) (data : Bytes) :
    Guarded base (Files.writePrivate p data) h w := by
  obtain ⟨c, hw⟩ | ⟨u, hu, hw⟩ := Files.writePrivate_cases p data h w
  · exact .of_events (by rw [hw]; exact hs) (by rw [hw])
  · exact .of_events (by rw [hw]; exact hs.write hu) (by rw [hw]; rfl)

theorem unpack_guarded (version : SecretVersion) (output : Path) :
    Guarded w.files (s.unpack version output) h w := by
  unfold unpack
  have hformat : ∀ w', Confined (Rotation.formatOf version) h w' := by
    intro w'
    unfold Rotation.formatOf
    split
    · exact .of_eq (Action.pure_apply _)
    · exact .of_eq (Action.crash_apply _)
  refine .after rfl hs (hformat w) fun f w' hb => ?_
  refine .after hb hs (s.tool.decrypt_confined h w' (hb ▸ hs) version.ciphertext f)
    fun plain w' hb => ?_
  refine (makeDirectories_guarded (hb ▸ hs) w.files output.parent).bind fun _ w' _ hs => ?_
  exact writePrivate_guarded hs w.files output plain

theorem pullTo_guarded (e : Environment) (output : Path) :
    Guarded w.files (s.pullTo e output) h w := by
  unfold pullTo
  refine .after rfl hs (s.tool.checkInstalled_confined h w) fun _ w' hb => ?_
  refine .after hb hs (VersionStore.pull_confined s.client s.project h w' e) fun v w' hb => ?_
  have hu : Guarded w'.files (s.unpack v output) h w' := s.unpack_guarded (hb ▸ hs) v output
  rw [hb] at hu
  exact hu.bind fun _ w' _ hs => .of_events hs rfl

theorem pull_guarded (environment : Json) (output : Option String) :
    Guarded w.files (s.pull environment output) h w := by
  unfold pull
  refine .after rfl hs (s.environment_confined environment) fun e w' hb => ?_
  exact hb ▸ s.pullTo_guarded (hb ▸ hs) e (fileOr output e)

theorem pullIfAny_guarded (e : Environment) (file : Path) :
    Guarded w.files (s.pullIfAny e file) h w := by
  refine Guarded.recover ?_ fun f w' => ?_
  · exact (s.pullTo_guarded hs e file).bind fun x w' _ hs => .of_events hs rfl
  · split <;> rfl

theorem pushBack_confined (e : Environment) (file : Path) (pulled : Option Pulled) :
    Confined (s.pushBack e file pulled) h w := by
  unfold pushBack
  refine (isFile_confined file).bind hs fun there w' hs => ?_
  split
  · refine (s.pushFile_confined hs file e _).bind hs fun v w' _ => ?_
    exact .of_eq (Action.pure_apply _)
  · exact .of_eq (Action.raise_apply _)

theorem sync_emitted (environment : Json) (file : Option String) :
    Emitted (fun e => e.IsConfined w.files ∨ e.IsConfined (s.sync environment file h w).2.files) w
      (s.sync environment file h w).2 := by
  unfold sync
  have henv : s.environment environment h w = (_, w) := Action.ofExcept_apply _
  cases he : Environment.choose environment (some s.binding.defaultEnvironment) with
  | error f =>
    rw [he] at henv
    rw [Action.bind_of_error henv]
    exact .of_events rfl
  | ok e =>
    rw [he] at henv
    rw [Action.bind_of_ok henv]
    exact (s.pullIfAny_guarded hs e (fileOr file e)).then_confined fun pulled w' hs =>
      s.pushBack_confined hs e (fileOr file e) pulled

end Pulling

/-- Whatever way they end, pushes, listings, rollbacks, rotations, encryptions and decryptions leave
the files as they were. In all operations, what a tool's run finds beside the files is private, and
what a post finds is the files alone. -/
theorem scratch_lifetime (s : Secrets) (t : Sops.Tool) {h : Host} {w : World}
    (hs : w.files.Sound h.workDirectory) :
    (∀ file environment format, Confined (s.push file environment format) h w) ∧
    (∀ environment, Confined (s.versions environment) h w) ∧
    (∀ id, Confined (s.rollback id) h w) ∧
    (∀ environment, Confined (s.rotate environment) h w) ∧
    (∀ file policy format, Confined (t.encrypt file policy format) h w) ∧
    (∀ ciphertext format, Confined (t.decrypt ciphertext format) h w) ∧
    (∀ environment output,
      Emitted (Event.IsConfined w.files) w (s.pull environment output h w).2) ∧
    ∀ environment file,
      Emitted (fun e => e.IsConfined w.files ∨
        e.IsConfined (s.sync environment file h w).2.files) w (s.sync environment file h w).2 :=
  ⟨s.push_confined hs, s.versions_confined hs, s.rollback_confined, s.rotate_confined hs,
    t.encrypt_confined h w hs, t.decrypt_confined h w hs,
    fun environment output => (s.pull_guarded hs environment output).emitted, s.sync_emitted hs⟩

end Secrets

/-! A file and a tool that encrypts it. -/

namespace Desk

def host : Host where
  workDirectory := ["work"]
  home := ⟨.root, []⟩
  temporary := ⟨.root, ["tmp"]⟩
  now := ⟨⟨2024, 1, 1⟩, 0, 0, 0, 0, some 0⟩
  serviceUrl := none
  isInstalled := fun _ => true
  freshName := fun n => String.ofList (List.replicate n 'x')
  respond := fun _ _ => .failed "no service"
  execute := fun _ _ => .exited 0 (Text.Utf8.encode "\x7b\"sops\":\x7b\x7d\x7d") []

def text : String := "A=1"

def tree : Tree :=
  ⟨[([], .directory 0o755), (["tmp"], .directory 0o777), (["work"], .directory 0o755),
    (["work", "env"], .file 0o644 (Text.Utf8.encode text))]⟩

theorem sound_tree : tree.Sound host.workDirectory := by
  have free : ∀ {t : Tree} {l : Location}, t.node? l = none → ¬ t.IsDirectory l := by
    rintro t l hl ⟨m, hm⟩
    rw [hl] at hm
    cases hm
  have hroot := Tree.Sound.root 0o755
  have htmp := hroot.put (l := ["tmp"]) (free rfl) ⟨0o755, rfl⟩ (.directory 0o777)
  have hwork := htmp.put (l := ["work"]) (free rfl) ⟨0o755, rfl⟩ (.directory 0o755)
  exact (hwork.put (l := ["work", "env"]) (free rfl) ⟨0o755, rfl⟩ _).from_directory ⟨0o755, rfl⟩

def world : World := ⟨tree, [], [], "", []⟩

def tool : Sops.Tool := ⟨"sops", none, .ofInt 60⟩

def client : Client := ⟨"https://vault", none, .ofInt 30⟩

def secrets : Secrets := ⟨⟨"o", "", "p", "", .development⟩, client, tool⟩

def policy : Policy := ⟨[⟨".*", ["k"], by decide⟩], by simp⟩

/-- The tool has run, and nothing of its run is left. -/
theorem encryption_leaves_files :
    (tool.encrypt (.ofText "env") policy .dotenv host world).2.events.length = 1 ∧
      (tool.encrypt (.ofText "env") policy .dotenv host world).2.files = tree :=
  ⟨by decide +kernel, ((Secrets.scratch_lifetime secrets tool sound_tree).2.2.2.2.1
    (.ofText "env") policy .dotenv).files⟩

end Desk

end TeamVault
