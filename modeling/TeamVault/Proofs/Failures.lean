import TeamVault.Proofs.CustodyRun

/-!
How the operations on secrets fail: with a fault of the taxonomy, or because a file operation fails.
Apart from that there are two ways, both on the way between bytes and texts: ciphertext that is no
UTF-8 cannot be posted, and half of a surrogate pair in the answer cannot become ciphertext.
-/
namespace TeamVault

open Sops (Tool)

inductive Failure.IsOrdinary : Failure → Prop
  | fault (f : Fault) : IsOrdinary (.fault f)
  | files (e : FileError) : IsOrdinary (.crash (Files.failure e))

namespace Action

variable {α β : Type} {a : Action α} {f : α → Action β} {h : Host} {w w' : World} {x : Failure}

def FailsOrdinarily (a : Action α) : Prop :=
  ∀ h w x w', a h w = (.error x, w') → x.IsOrdinary

theorem error_of_bind (hb : (a >>= f) h w = (.error x, w')) :
    a h w = (.error x, w') ∨ ∃ y v, a h w = (.ok y, v) ∧ f y h v = (.error x, w') := by
  rw [bind_apply] at hb
  rcases ha : a h w with ⟨e | y, v⟩
  · rw [ha] at hb
    cases hb
    exact .inl rfl
  · rw [ha] at hb
    exact .inr ⟨y, v, rfl, hb⟩

theorem fault_of_mapError {r : Except Fault α} (hx : r.mapError .fault = .error x) :
    ∃ f, x = .fault f := by
  cases r with
  | error f =>
    cases hx
    exact ⟨f, rfl⟩
  | ok y => cases hx

namespace FailsOrdinarily

theorem pure (y : α) : FailsOrdinarily (Pure.pure y : Action α) := by
  intro h w x w' hx
  cases hx

theorem bind (ha : a.FailsOrdinarily) (hf : ∀ y, (f y).FailsOrdinarily) :
    (a >>= f).FailsOrdinarily := by
  intro h w x w' hx
  obtain hx | ⟨y, v, -, hx⟩ := error_of_bind hx
  · exact ha h w x w' hx
  · exact hf y h v x w' hx

theorem of_faults {r : Host → World → Except Fault α} {g : Host → World → World}
    (ha : ∀ h w, a h w = ((r h w).mapError .fault, g h w)) : a.FailsOrdinarily := by
  intro h w x w' hx
  rw [ha] at hx
  obtain ⟨f, rfl⟩ := fault_of_mapError (Prod.mk.inj hx).1
  exact .fault f

theorem ofExcept (r : Except Fault α) : (Action.ofExcept r).FailsOrdinarily :=
  of_faults (r := fun _ _ => r) (g := fun _ w => w) fun _ _ => ofExcept_apply r

theorem raise (y : Fault) : (Action.raise y : Action α).FailsOrdinarily :=
  ofExcept (.error y)

theorem host : Action.host.FailsOrdinarily := by
  intro h w x w' hx
  cases hx

end FailsOrdinarily

end Action

open TeamVault.Action (FailsOrdinarily)

namespace Files

theorem lift_failsOrdinarily {α : Type} (f : Host → Tree → Except FileError α) :
    (lift f).FailsOrdinarily := by
  intro h w x w' hx
  rw [lift_apply] at hx
  cases hf : f h w.files with
  | error e =>
    rw [hf] at hx
    cases hx
    exact .files e
  | ok y =>
    rw [hf] at hx
    cases hx

theorem change_failsOrdinarily (f : Host → Tree → Except FileError Tree) :
    (change f).FailsOrdinarily := by
  intro h w x w' hx
  unfold change at hx
  split at hx
  · cases hx
  next e _ =>
    cases hx
    exact .files e

theorem isFile_failsOrdinarily (p : Path) : (isFile p).FailsOrdinarily := by
  refine .bind (lift_failsOrdinarily _) fun n => ?_
  split
  · exact .pure true
  · exact .pure false

theorem makeDirectories_failsOrdinarily (p : Path) : (makeDirectories p).FailsOrdinarily := by
  intro h w x w' hx
  unfold makeDirectories at hx
  dsimp only at hx
  split at hx
  · cases hx
  next e _ =>
    cases hx
    exact .files e

end Files

namespace Scratch

theorem write_failsOrdinarily (p : Path) (name : String) (data : Bytes) :
    ((opened p).write name data).FailsOrdinarily :=
  .bind (Files.change_failsOrdinarily _) fun _ => .pure _

theorem create_failsOrdinarily (start : String) (parent : Option Path) :
    (create start parent).FailsOrdinarily := by
  intro h w x w' hx
  unfold create at hx
  split at hx
  · cases hx
  next e _ =>
    cases hx
    exact .files e

theorem exists_directory {start : String} {parent : Option Path} {h : Host} {w w' : World}
    {s : Scratch} (hc : create start parent h w = (.ok s, w')) : ∃ p, s = .opened p := by
  obtain ⟨c, he⟩ | ⟨p, l, -, -, he⟩ := create_cases h w start parent
  · rw [he] at hc
    cases hc
  · rw [he] at hc
    cases hc
    exact ⟨p, rfl⟩

theorem within_failsOrdinarily {α : Type} (start : String) (parent : Option Path)
    {body : Scratch → Action α} (hb : ∀ p, (body (.opened p)).FailsOrdinarily) :
    (within start parent body).FailsOrdinarily := by
  intro h w x w' hx
  rcases hc : create start parent h w with ⟨f | s, v⟩
  · rw [within_of_failed hc] at hx
    cases hx
    exact create_failsOrdinarily start parent h w x _ hc
  · rw [within_of_created hc] at hx
    obtain ⟨p, rfl⟩ := exists_directory hc
    obtain ⟨hr, -⟩ := Prod.mk.inj hx
    exact hb p h v x _ (Prod.ext hr rfl)

end Scratch

namespace Sops.Tool

variable (t : Tool)

theorem checkInstalled_failsOrdinarily : t.checkInstalled.FailsOrdinarily := by
  refine .bind .host fun h => ?_
  split
  · exact .pure ()
  · exact .raise _

theorem runWith_failsOrdinarily (start name : String) (data : Bytes)
    (arguments reads : String → List String) :
    (t.runWith start name data arguments reads).FailsOrdinarily := by
  refine Scratch.within_failsOrdinarily start none fun p => ?_
  refine .bind (Scratch.write_failsOrdinarily p name data) fun file => ?_
  exact .of_faults fun h w => t.run_apply h w (arguments file.toText) (reads file.toText)

theorem encrypt_failsOrdinarily (plaintext : Path) (p : Policy) (f : SecretFormat) :
    (t.encrypt plaintext p f).FailsOrdinarily := by
  refine .bind t.checkInstalled_failsOrdinarily fun _ => ?_
  exact .bind (t.runWith_failsOrdinarily _ _ _ _ _) fun x => .ofExcept (sealed x)

theorem decrypt_failsOrdinarily (ciphertext : Bytes) (f : SecretFormat) :
    (t.decrypt ciphertext f).FailsOrdinarily := by
  refine .bind t.checkInstalled_failsOrdinarily fun _ => ?_
  refine .bind (.ofExcept (checkCiphertext ciphertext)) fun _ => ?_
  exact .bind (t.runWith_failsOrdinarily _ _ _ _ _) fun x => .ofExcept (opened x)

end Sops.Tool

theorem Roster.ofProject_failsOrdinarily (c : Client) (project : String) :
    (ofProject c project).FailsOrdinarily :=
  .of_faults fun h w => ofProject_apply c project h w

/-! ### Where bytes and texts meet -/

/-- How bytes without a text or a text without bytes came up last. -/
inductive Undecodable (c : Client) (tool : Tool) (project : String) (h : Host) (es : List Event) :
    Prop
  | output {before : List Event} {r : Run.Started} {ciphertext diagnostics : Bytes}
      {block : Json.Fields} (last : es = before ++ [.run r])
      (encrypts : Sops.IsEncryption tool r.toRun)
      (exits : h.execute before r.toRun = .exited 0 ciphertext diagnostics)
      (metadata : Sops.metadata ciphertext = .ok block)
      (decodes : Text.Utf8.decode? ciphertext = none)
  | answer {before : List Event} {q : Request.Sent} {fs : Json.Fields} {codes : List Nat}
      (last : es = before ++ [.request q]) (asks : q.IsTo c (.pullSecrets project))
      (tells : (h.respond before q.toRequest).Tells fs)
      (holds : fs.get? "encrypted_data" = some (.halfText codes))

namespace VersionStore

variable {c : Client} {project : String} {e : Environment} {reply : Reply} {v : SecretVersion}
  {x : Failure} {h : Host} {w w' : World}

theorem told_error (ht : told c project e reply = .error x) :
    (∃ f, x = .fault f) ∨ x = .crash .undecodable ∧
      ∃ fs codes, reply.Tells fs ∧ fs.get? "encrypted_data" = some (.halfText codes) := by
  obtain ⟨f, hx⟩ | ⟨fs, htells, ⟨codes, hd, hx⟩ | ⟨v, hx, -⟩⟩ := told_cases c project e reply
  · rw [hx] at ht
    cases ht
    exact .inl ⟨f, rfl⟩
  · rw [hx] at ht
    cases ht
    exact .inr ⟨rfl, fs, codes, htells, hd⟩
  · rw [hx] at ht
    cases ht

theorem presentOr_text_ne_null (fs : Json.Fields) (key text : String) :
    fs.presentOr key (.text text) ≠ .null := by
  intro hn
  obtain he | ⟨d, hp, he⟩ := presentOr_cases fs key (.text text)
  · rw [he] at hn
    cases hn
  · rw [he] at hn
    obtain ⟨-, hd⟩ := Option.filter_eq_some_iff.1 hp
    rw [hn] at hd
    cases hd

theorem exists_format_of_told (ht : told c project e reply = .ok v) : ∃ f, v.format = some f := by
  obtain ⟨fs, -, -, hformat⟩ := holds_of_told ht
  unfold Checked.nullable at hformat
  split at hformat
  next hnull => exact absurd hnull (presentOr_text_ne_null fs "format" _)
  · obtain ⟨f, -, hf⟩ := Checked.map_eq_fits.1 hformat
    exact ⟨f, hf.symm⟩

theorem push_error {ciphertext : Bytes} {f : SecretFormat} {block : Json.Fields}
    (hp : push c project e ciphertext f block h w = (.error x, w')) :
    (∃ f, x = .fault f) ∨
      x = .crash .undecodable ∧ Text.Utf8.decode? ciphertext = none ∧ w' = w := by
  cases hd : Text.Utf8.decode? ciphertext with
  | none =>
    rw [push_of_no_text c project e h w f block hd] at hp
    cases hp
    exact .inr ⟨rfl, rfl, rfl⟩
  | some text =>
    rw [push_of_text c project e h w f block hd] at hp
    exact .inl (Action.fault_of_mapError (Prod.mk.inj hp).1)

end VersionStore

/-! ### The operations -/

namespace Secrets

def FailsWell {α : Type} (s : Secrets) (h : Host) (r : Except Failure α × World) : Prop :=
  ∀ x, r.1 = .error x → x.IsOrdinary ∨
    x = .crash .undecodable ∧ Undecodable s.client s.tool s.project h r.2.events

variable {α β : Type} {s : Secrets} {h : Host} {w : World}

theorem FailsWell.of_ordinary {a : Action α} (ha : a.FailsOrdinarily) : s.FailsWell h (a h w) := by
  intro x hx
  exact .inl (ha h w x (a h w).2 (Prod.ext hx rfl))

theorem FailsWell.bind {a : Action α} {f : α → Action β} (ha : s.FailsWell h (a h w))
    (hf : ∀ y v, a h w = (.ok y, v) → s.FailsWell h (f y h v)) : s.FailsWell h ((a >>= f) h w) := by
  intro x hx
  rw [Action.bind_apply] at hx ⊢
  rcases hr : a h w with ⟨e | y, v⟩
  · rw [hr] at hx ha
    cases hx
    exact ha x rfl
  · rw [hr] at hx
    exact hf y v hr x hx

theorem pushed_failsWell {file : Path} {p : Policy} {f : SecretFormat} {e : Environment}
    {ciphertext : Bytes} {block : Json.Fields} {v : World}
    (he : s.tool.encrypt file p f h w = (.ok (ciphertext, block), v)) {u : World}
    (hu : u.events = v.events) :
    s.FailsWell h (VersionStore.push s.client s.project e ciphertext f block h u) := by
  intro x hx
  rcases hp : VersionStore.push s.client s.project e ciphertext f block h u with ⟨r, w'⟩
  rw [hp] at hx
  dsimp only at hx
  rw [hx] at hp
  obtain ⟨y, rfl⟩ | ⟨rfl, hd, rfl⟩ := VersionStore.push_error hp
  · exact .inl (.fault y)
  have hr := s.tool.encrypt_runs h w file p f
  rw [he] at hr
  obtain ⟨directory, l, scene, code, output, diagnostics, -, hv, hexit, ho⟩ := hr.of_ok
  obtain ⟨rfl, rfl, hm⟩ := Tool.sealed_eq_ok ho
  exact .inr ⟨rfl, .output (hu.trans hv) ⟨rfl, f, file.toText, _, rfl⟩ hexit hm hd⟩

theorem pushFile_failsWell (file : Path) (e : Environment) (f : SecretFormat) :
    s.FailsWell h (s.pushFile file e f h w) := by
  refine .bind (.of_ordinary (Files.isFile_failsOrdinarily file)) fun there v _ => ?_
  cases there with
  | false => exact .of_ordinary (.raise _)
  | true =>
    refine .bind (.of_ordinary s.tool.checkInstalled_failsOrdinarily) fun _ v _ => ?_
    refine .bind (.of_ordinary (Roster.ofProject_failsOrdinarily _ _)) fun recipients v _ => ?_
    refine .bind (.of_ordinary (.ofExcept _)) fun p v _ => ?_
    refine .bind (.of_ordinary (s.tool.encrypt_failsOrdinarily file p f)) fun z u hz => ?_
    exact pushed_failsWell hz rfl

theorem unpack_failsWell {v : SecretVersion} {f : SecretFormat} (hf : v.format = some f)
    (output : Path) : s.FailsWell h (s.unpack v output h w) := by
  refine .of_ordinary (.bind ?_ fun format => ?_)
  · unfold Rotation.formatOf
    rw [hf]
    exact .pure f
  · refine .bind (s.tool.decrypt_failsOrdinarily v.ciphertext format) fun plaintext => ?_
    exact .bind (Files.makeDirectories_failsOrdinarily _) fun _ => Files.change_failsOrdinarily _

theorem told_failsWell (e : Environment) :
    s.FailsWell h (VersionStore.pull s.client s.project e h w) := by
  intro x hx
  rw [VersionStore.pull_apply] at hx ⊢
  obtain ⟨y, rfl⟩ | ⟨rfl, fs, codes, hreply, hdata⟩ := VersionStore.told_error hx
  · exact .inl (.fault y)
  · exact .inr ⟨rfl, .answer (World.sent_events _ _)
      (VersionStore.question_isTo s.client s.project e) hreply hdata⟩

theorem pullTo_failsWell (e : Environment) (output : Path) :
    s.FailsWell h (s.pullTo e output h w) := by
  refine .bind (.of_ordinary s.tool.checkInstalled_failsOrdinarily) fun _ u _ => ?_
  refine .bind (told_failsWell e) fun version v hv => ?_
  rw [VersionStore.pull_apply] at hv
  obtain ⟨f, hf⟩ := VersionStore.exists_format_of_told (Prod.mk.inj hv).1
  exact .bind (unpack_failsWell hf output) fun _ _ _ => .of_ordinary (.pure _)

theorem pullIfAny_failsWell (e : Environment) (file : Path) :
    s.FailsWell h (s.pullIfAny e file h w) := by
  intro x hx
  have hp : s.FailsWell h ((do return some (← s.pullTo e file) : Action (Option Pulled)) h w) :=
    .bind (pullTo_failsWell e file) fun _ _ _ => .of_ordinary (.pure _)
  unfold pullIfAny at hx ⊢
  rw [Action.recover_apply] at hx ⊢
  rcases hr : (do return some (← s.pullTo e file) : Action (Option Pulled)) h w with ⟨y | y, v⟩
  · rw [hr] at hx hp
    dsimp only at hx ⊢
    split at hx
    · cases hx
    next hn =>
      rw [if_neg hn]
      cases hx
      exact hp x rfl
  · rw [hr] at hx
    cases hx

theorem sync_failsWell (given : Json) (file : Option String) :
    s.FailsWell h (s.sync given file h w) := by
  refine .bind (.of_ordinary (.ofExcept _)) fun e u _ => ?_
  refine .bind (pullIfAny_failsWell e (fileOr file e)) fun pulled u _ => ?_
  refine .bind (.of_ordinary (Files.isFile_failsOrdinarily _)) fun there u _ => ?_
  cases there with
  | false => exact .of_ordinary (.raise _)
  | true => exact .bind (pushFile_failsWell _ _ _) fun _ _ _ => .of_ordinary (.pure _)

end Secrets

namespace Rotation

variable {s : Secrets} {e : Environment} {parent : Option Path} {h : Host} {w w' : World}
  {step : RotationStep} {own : Failure} {keys : List String} {previous : Option SecretVersion}

theorem cannotDecrypt_isOrdinary (ho : own.IsOrdinary) : (cannotDecrypt own).IsOrdinary := by
  cases ho with
  | fault f =>
    unfold cannotDecrypt
    dsimp only
    split
    · exact .fault _
    · exact .fault f
  | files e => exact .files e

theorem Halts.isOrdinary {c : Client} {tool : Tool} {project : String}
    {o : Opened c project e parent h w}
    (hh : Halts c tool project e parent h w o step own keys w') :
    (raised step own).IsOrdinary := by
  cases hh with
  | format tells =>
    obtain ⟨f, hf⟩ := VersionStore.exists_format_of_told o.told
    rw [hf] at tells
    cases tells
  | decrypt _ fails =>
    exact cannotDecrypt_isOrdinary (tool.decrypt_failsOrdinarily _ _ h _ own _ fails)
  | write _ _ fails =>
    obtain ⟨p, hp⟩ := Scratch.exists_directory o.creates
    rw [hp] at fails
    exact cannotDecrypt_isOrdinary (Scratch.write_failsOrdinarily p _ _ h _ own _ fails)
  | refresh => exact .fault _
  | build => exact .fault _
  | encrypt d _ fails => exact tool.encrypt_failsOrdinarily _ _ _ h _ own _ fails

theorem Stops.failsWell
    (hs : Stops s.client s.tool s.project e parent h w step own previous keys w') :
    (raised step own).IsOrdinary ∨ raised step own = .crash .undecodable ∧
      Undecodable s.client s.tool s.project h w'.events := by
  cases hs with
  | fetch fails =>
    obtain ⟨y, rfl⟩ | ⟨rfl, fs, codes, hreply, hdata⟩ := VersionStore.told_error fails
    · exact .inl (.fault y)
    · exact .inr ⟨rfl, .answer (World.sent_events _ _)
        (VersionStore.question_isTo s.client s.project e) hreply hdata⟩
  | scratch o fails => exact .inl (Scratch.create_failsOrdinarily _ _ h _ own _ fails)
  | inside o halts => exact .inl halts.isOrdinary
  | push d fails =>
    have hf : s.FailsWell h (VersionStore.push s.client s.project e d.ciphertext d.format
        d.metadata h d.left) :=
      Secrets.pushed_failsWell d.encrypts (Scratch.left_events d.scratch)
    rw [fails] at hf
    exact hf own rfl

end Rotation

namespace Secrets

variable {s : Secrets} {h : Host} {w : World}

theorem rotate_failsWell (given : Json) : s.FailsWell h (s.rotate given h w) := by
  refine .bind (.of_ordinary (.ofExcept _)) fun e u _ => ?_
  obtain ⟨r, w', hr, hc⟩ :=
    Rotation.run_course s.client s.tool s.project e none Rotation.start h u
  intro x hx
  rw [Action.bind_of_ok hr] at hx ⊢
  cases hc with
  | nothing => cases hx
  | completed d => cases hx
  | stopped stops =>
    cases hx
    exact stops.failsWell

/-- A failure of an operation is a fault or the failure of a file operation, unless ciphertext was
put out that is no UTF-8 or told with half of a surrogate pair. What only asks the service fails
with faults. -/
theorem failures_ordinary_or_undecodable (s : Secrets) (h : Host) (w : World) :
    (∀ file given format, s.FailsWell h (s.push file given format h w)) ∧
    (∀ given output, s.FailsWell h (s.pull given output h w)) ∧
    (∀ given file, s.FailsWell h (s.sync given file h w)) ∧
    (∀ given, s.FailsWell h (s.rotate given h w)) ∧
    (∀ given x, (s.versions given h w).1 = .error x → ∃ f, x = .fault f) ∧
    ∀ id x, (s.rollback id h w).1 = .error x → ∃ f, x = .fault f := by
  refine ⟨fun file given format => ?_, fun given output => ?_, fun given file => ?_,
    fun given => rotate_failsWell given, fun given x hx => ?_, fun id x hx => ?_⟩
  · refine .bind (.of_ordinary (.ofExcept _)) fun e u _ => ?_
    exact .bind (.of_ordinary (.ofExcept _)) fun f u _ => pushFile_failsWell file e f
  · exact .bind (.of_ordinary (.ofExcept _)) fun e u _ => pullTo_failsWell e (fileOr output e)
  · exact sync_failsWell given file
  · have hv : s.versions given h w = (.error x, (s.versions given h w).2) := Prod.ext hx rfl
    obtain hv | ⟨e, u, -, hv⟩ := Action.error_of_bind hv
    · exact Action.fault_of_mapError (Prod.mk.inj hv).1
    · rw [VersionStore.versions_apply] at hv
      exact Action.fault_of_mapError (Prod.mk.inj hv).1
  · unfold rollback at hx
    split at hx
    · cases hx
      exact ⟨_, rfl⟩
    · rw [VersionStore.rollback_apply] at hx
      exact Action.fault_of_mapError hx

/-! Both ways are taken: by a tool that puts out JSON in another encoding, and by a service that
tells half of a surrogate pair. -/

def isUndecodable {α : Type} : Except Failure α → Bool
  | .error (.crash .undecodable) => true
  | _ => false

theorem eq_of_isUndecodable {α : Type} {r : Except Failure α} (hr : isUndecodable r = true) :
    r = .error (.crash .undecodable) := by
  unfold isUndecodable at hr
  split at hr
  · rfl
  · cases hr

def wideCiphertext : Bytes :=
  0xFF :: 0xFE :: Sample.ciphertext.toList.flatMap fun c => [c.toNat.toUInt8, 0]

def wideHost : Host :=
  { Desk.host with
    respond := fun _ _ => Sample.saying Sample.roster
    execute := fun _ _ => .exited 0 wideCiphertext [] }

def halfHost : Host :=
  { Desk.host with
    respond := fun _ _ => Sample.saying
      "\x7b\"encrypted_data\":\"\\ud800\",\"version_id\":\"v\",\"version\":1\x7d" }

theorem undecodable_escapes :
    (Desk.secrets.push (.ofText "env") .null .null wideHost Desk.world).1 =
        .error (.crash .undecodable) ∧
      (Desk.secrets.pull .null none halfHost Desk.world).1 = .error (.crash .undecodable) := by
  have hpush : isUndecodable
      (Desk.secrets.push (.ofText "env") .null .null wideHost Desk.world).1 = true := by
    decide +kernel
  have hpull : isUndecodable (Desk.secrets.pull .null none halfHost Desk.world).1 = true := by
    decide +kernel
  exact ⟨eq_of_isUndecodable hpush, eq_of_isUndecodable hpull⟩

end Secrets

end TeamVault
