import TeamVault.Proofs.BindingOnce
import TeamVault.Proofs.CredentialsCell

/-!
Files of the local state with any content. Loading one gives what it holds or a fault that is told,
unless the bytes are no text or a scalar in them has no value in its type; then it crashes.
-/
namespace TeamVault

/-! ### The text of a file -/

namespace Files

variable {h : Host} {w : World} {p : Path} {bytes : Bytes}

def text? (bytes : Bytes) : Option String := (Text.Utf8.decode? bytes).map Text.unifyBreaks

theorem readText_of_contains (hp : Contains h.workDirectory w.files p bytes) :
    readText p h w = ((text? bytes).elim (.error (.crash .undecodable)) .ok, w) := by
  obtain ⟨l, mode, hf⟩ := hp
  unfold readText read text?
  rw [Action.bind_apply, lift_apply, Tree.read_of_find hf]
  cases hd : Text.Utf8.decode? bytes with
  | none =>
    simp only [Except.mapError, hd]
    rfl
  | some s =>
    simp only [Except.mapError, hd]
    rfl

end Files

/-! ### The session -/

namespace Credentials

variable {home : Option Path} {h : Host} {w : World} {p : Path} {bytes : Bytes}

inductive Escapes (bytes : Bytes) : Crash → Prop
  | undecodable (hs : Files.text? bytes = none) : Escapes bytes .undecodable
  | tooLong {s : String} (hs : Files.text? bytes = some s) (hj : Json.ofText s = .error .tooLong) :
    Escapes bytes .badValue

inductive Ends (h : Host) (bytes : Bytes) : Except Failure Session → Prop
  | session {s : String} {fs : Json.Fields} {x : Session} (hs : Files.text? bytes = some s)
    (hj : Json.ofText s = .ok (.object fs)) (hx : Session.ofFields fs = .fits x)
    (hnow : x.isOver h.now = false) : Ends h bytes (.ok x)
  | fault {f : Fault} (hf : f.kind = .auth) : Ends h bytes (.error (.fault f))

theorem decode_error {s : String} {f : Failure} (hd : decode s = .error f) :
    (∃ fault, f = .fault fault ∧ fault.kind = .auth) ∨
      f = .crash .badValue ∧ Json.ofText s = .error .tooLong := by
  unfold decode at hd
  split at hd
  · cases hd
    exact .inl ⟨_, rfl, rfl⟩
  next hj =>
    cases hd
    exact .inr ⟨rfl, hj⟩
  next fs hj =>
    cases hx : Session.ofFields fs with
    | fits x =>
      rw [hx] at hd
      cases hd
    | fails errors =>
      rw [hx] at hd
      cases hd
      exact .inl ⟨_, rfl, rfl⟩
  · cases hd
    exact .inl ⟨_, rfl, rfl⟩

theorem load_contained (hnow : h.now.offset ≠ none) (hfile : Local.IsFile h home fileName p)
    (hp : Files.Contains h.workDirectory w.files p bytes) :
    (∀ c, Escapes bytes c → load home h w = (.error (.crash c), w)) ∧
      ((∀ c, ¬ Escapes bytes c) → ∃ r, Ends h bytes r ∧ load home h w = (r, w)) := by
  have hthere := Files.isThere_of_contains hp
  have hread := Files.readText_of_contains hp
  constructor
  · intro c hc
    cases hc with
    | undecodable hs =>
      rw [hs] at hread
      unfold load
      rw [Action.bind_of_ok (path_of_isFile hfile), Action.bind_of_ok hthere, if_pos rfl,
        Action.bind_of_error hread]
    | tooLong hs hj =>
      rw [hs] at hread
      exact load_of_error hfile hthere hread (by rw [decode, hj])
  · intro hno
    cases hs : Files.text? bytes with
    | none => exact absurd (.undecodable hs) (hno _)
    | some s =>
      rw [hs] at hread
      cases hd : decode s with
      | error f =>
        refine ⟨.error f, ?_, load_of_error hfile hthere hread hd⟩
        obtain ⟨fault, rfl, hkind⟩ | ⟨-, hj⟩ := decode_error hd
        · exact .fault hkind
        · exact absurd (.tooLong hs hj) (hno _)
      | ok x =>
        obtain ⟨fs, hj, hx⟩ := session_of_decode hd
        refine ⟨judged h.now x, ?_, load_of_decoded hfile hthere hread hnow hd⟩
        unfold judged
        by_cases hover : x.isOver h.now = true
        · rw [if_pos hover]
          exact .fault rfl
        · rw [if_neg hover]
          exact .session hs hj hx (by simpa using hover)

end Credentials

/-! ### Settings and the binding -/

/-- Contents that loading a YAML file has no fault for: no text, or a scalar that its type has no
value for. -/
inductive Yaml.Escapes (bytes : Bytes) : Crash → Prop
  | undecodable (hs : Files.text? bytes = none) : Escapes bytes .undecodable
  | scalar {s : String} {problem : Problem} {c : Crash} (hs : Files.text? bytes = some s)
    (hy : Value.ofText s = .error problem) (hc : problem.failure = .error c) : Escapes bytes c

namespace Yaml

variable {α : Type} {bytes : Bytes} {notText : List String} {ofFields : Json.Fields → Checked α}

def IsRecord (notText : List String) (ofFields : Json.Fields → Checked α) (s : String) (a : α) :
    Prop :=
  ∃ v fs, Value.ofText s = .ok v ∧ v.fields? notText = some fs ∧ ofFields fs = .fits a

theorem record_eq_ok {s : String} {a : α} :
    record notText ofFields s = .ok (.ok a) ↔ IsRecord notText ofFields s a := by
  unfold record IsRecord
  constructor
  · intro hr
    split at hr
    next problem hy => cases hf : problem.failure <;> rw [hf] at hr <;> cases hr
    next v hy =>
      split at hr
      · cases hr
      next fs hfs =>
        cases ha : ofFields fs with
        | fits x =>
          rw [ha] at hr
          cases hr
          exact ⟨v, fs, hy, hfs, ha⟩
        | fails errors =>
          rw [ha] at hr
          cases hr
  · rintro ⟨v, fs, hy, hfs, ha⟩
    simp only [hy, hfs, ha]

theorem record_error {s : String} {c : Crash} : record notText ofFields s = .error c ↔
    ∃ problem, Value.ofText s = .error problem ∧ problem.failure = .error c := by
  unfold record
  constructor
  · intro hr
    split at hr
    next problem hy =>
      cases hf : problem.failure with
      | ok cause =>
        rw [hf] at hr
        cases hr
      | error c' =>
        rw [hf] at hr
        cases hr
        exact ⟨problem, hy, hf⟩
    next v hy =>
      split at hr
      · cases hr
      next fs hfs => cases ha : ofFields fs <;> rw [ha] at hr <;> cases hr
  · rintro ⟨problem, hy, hf⟩
    simp only [hy, hf]
    rfl

end Yaml

namespace SettingsFile

variable {home : Option Path} {h : Host} {w : World} {p : Path} {bytes : Bytes}

inductive Ends (h : Host) (bytes : Bytes) (w : World) : ClientSettings → World → Prop
  | file {s : String} {x : ClientSettings} (hs : Files.text? bytes = some s)
    (hx : Yaml.IsRecord ["age_key_file"] ClientSettings.ofFields s x) :
    Ends h bytes w (withSurroundings h.serviceUrl x) w
  | usual {s : String} (hs : Files.text? bytes = some s)
    (hx : ∀ x, ¬ Yaml.IsRecord ["age_key_file"] ClientSettings.ofFields s x) :
    Ends h bytes w (withSurroundings h.serviceUrl .default)
      { w with warnings := w.warnings ++ ["Failed to load client settings: " ++ Cause.mark] }

def fromFile (p : Path) : Action ClientSettings := do
  if ← Files.isThere p then
    match decode (← Files.readText p) with
    | .ok (.ok s) => pure s
    | .ok (.error _) => do
      Action.warn ("Failed to load client settings: " ++ Cause.mark)
      pure ClientSettings.default
    | .error c => Action.crash c
  else pure ClientSettings.default

theorem load_eq (home : Option Path) : load home = Local.home home >>= fun d =>
    fromFile (d.child fileName) >>= fun x =>
      Action.host >>= fun g => pure (withSurroundings g.serviceUrl x) := by
  unfold load fromFile
  refine bind_congr fun d => ?_
  simp only [bind_assoc]
  refine bind_congr fun there => ?_
  cases there with
  | false => rfl
  | true =>
    simp only [if_true, bind_assoc]
    refine bind_congr fun text => ?_
    rcases decode text with c | cause | x <;> rfl

theorem fromFile_of_text {s : String} {p : Path} (hthere : Files.isThere p h w = (.ok true, w))
    (hread : Files.readText p h w = (.ok s, w)) : fromFile p h w = (match decode s with
      | .ok (.ok x) => (.ok x, w)
      | .ok (.error _) => (.ok .default,
          { w with warnings := w.warnings ++ ["Failed to load client settings: " ++ Cause.mark] })
      | .error c => (.error (.crash c), w)) := by
  unfold fromFile
  rw [Action.bind_of_ok hthere, if_pos rfl, Action.bind_of_ok hread]
  rcases decode s with c | cause | x <;> rfl

theorem load_contained (hfile : Local.IsFile h home fileName p)
    (hp : Files.Contains h.workDirectory w.files p bytes) :
    (∀ c, Yaml.Escapes bytes c → load home h w = (.error (.crash c), w)) ∧
      ((∀ c, ¬ Yaml.Escapes bytes c) →
        ∃ x w', Ends h bytes w x w' ∧ load home h w = (.ok x, w')) := by
  obtain ⟨d, hd, rfl⟩ := hfile
  have hthere := Files.isThere_of_contains hp
  have hread := Files.readText_of_contains hp
  rw [load_eq, Action.bind_of_ok (Local.home_of_some hd)]
  constructor
  · intro c hc
    refine Action.bind_of_error ?_
    cases hc with
    | undecodable hs =>
      rw [hs] at hread
      unfold fromFile
      rw [Action.bind_of_ok hthere, if_pos rfl, Action.bind_of_error hread]
    | scalar hs hy hc =>
      rw [hs] at hread
      rw [fromFile_of_text hthere hread, decode, Yaml.record_error.2 ⟨_, hy, hc⟩]
  · intro hno
    cases hs : Files.text? bytes with
    | none => exact absurd (.undecodable hs) (hno _)
    | some s =>
      rw [hs] at hread
      have hfrom := fromFile_of_text hthere hread
      rcases hd' : decode s with c | cause | x
      · obtain ⟨problem, hy, hc⟩ := Yaml.record_error.1 hd'
        exact absurd (.scalar hs hy hc) (hno c)
      · rw [hd'] at hfrom
        refine ⟨_, _, .usual hs fun x hx => ?_, Action.bind_of_ok hfrom⟩
        have hvalid := Yaml.record_eq_ok.2 hx
        rw [decode, hvalid] at hd'
        cases hd'
      · rw [hd'] at hfrom
        exact ⟨_, _, .file hs (Yaml.record_eq_ok.1 hd'), Action.bind_of_ok hfrom⟩

end SettingsFile

namespace BindingFile

variable {directory : Option Path} {h : Host} {w : World} {bytes : Bytes}

inductive Ends (bytes : Bytes) : Except Failure ProjectBinding → Prop
  | binding {s : String} {b : ProjectBinding} (hs : Files.text? bytes = some s)
    (hb : Yaml.IsRecord ["default_environment"] ProjectBinding.ofFields s b) : Ends bytes (.ok b)
  | fault {f : Fault} (hf : f.kind = .config) : Ends bytes (.error (.fault f))

theorem load_contained
    (hp : Files.Contains h.workDirectory w.files (placeOf h.workDirectory directory) bytes) :
    (∀ c, Yaml.Escapes bytes c → load directory h w = (.error (.crash c), w)) ∧
      ((∀ c, ¬ Yaml.Escapes bytes c) → ∃ r, Ends bytes r ∧ load directory h w = (r, w)) := by
  have hthere := Files.isThere_of_contains hp
  have hread := Files.readText_of_contains hp
  unfold load
  rw [Action.bind_of_ok path_apply, Action.bind_of_ok hthere, if_pos rfl]
  constructor
  · intro c hc
    cases hc with
    | undecodable hs =>
      rw [hs] at hread
      exact Action.bind_of_error hread
    | scalar hs hy hc =>
      rw [hs] at hread
      rw [Action.bind_of_ok hread, Yaml.record_error.2 ⟨_, hy, hc⟩]
      rfl
  · intro hno
    cases hs : Files.text? bytes with
    | none => exact absurd (.undecodable hs) (hno _)
    | some s =>
      rw [hs] at hread
      rw [Action.bind_of_ok hread]
      rcases hd : Yaml.record ["default_environment"] ProjectBinding.ofFields s with c | cause | b
      · obtain ⟨problem, hy, hc⟩ := Yaml.record_error.1 hd
        exact absurd (.scalar hs hy hc) (hno c)
      · exact ⟨_, .fault rfl, rfl⟩
      · exact ⟨_, .binding hs (Yaml.record_eq_ok.1 hd), rfl⟩

end BindingFile

namespace Local

/-- Loading from a file with any content. A session is loaded or a login asked for, settings are
loaded whatever the file holds, and a binding is loaded or the configuration is at fault, unless the
content escapes the reader; then the loader crashes, with nothing changed. -/
theorem bad_files_are_contained (home directory : Option Path) (h : Host) (w : World)
    (hnow : h.now.offset ≠ none) (bytes : Bytes) :
    (∀ p, IsFile h home Credentials.fileName p → Files.Contains h.workDirectory w.files p bytes →
      (∀ c, Credentials.Escapes bytes c → Credentials.load home h w = (.error (.crash c), w)) ∧
      ((∀ c, ¬ Credentials.Escapes bytes c) →
        ∃ r, Credentials.Ends h bytes r ∧ Credentials.load home h w = (r, w))) ∧
    (∀ p, IsFile h home SettingsFile.fileName p → Files.Contains h.workDirectory w.files p bytes →
      (∀ c, Yaml.Escapes bytes c → SettingsFile.load home h w = (.error (.crash c), w)) ∧
      ((∀ c, ¬ Yaml.Escapes bytes c) →
        ∃ x w', SettingsFile.Ends h bytes w x w' ∧ SettingsFile.load home h w = (.ok x, w'))) ∧
    (Files.Contains h.workDirectory w.files (BindingFile.placeOf h.workDirectory directory) bytes →
      (∀ c, Yaml.Escapes bytes c → BindingFile.load directory h w = (.error (.crash c), w)) ∧
      ((∀ c, ¬ Yaml.Escapes bytes c) →
        ∃ r, BindingFile.Ends bytes r ∧ BindingFile.load directory h w = (r, w))) :=
  ⟨fun _ hfile hp => Credentials.load_contained hnow hfile hp,
    fun _ hfile hp => SettingsFile.load_contained hfile hp,
    fun hp => BindingFile.load_contained hp⟩

/-! The same bytes in all three files. -/

def holding (bytes : Bytes) : World :=
  ⟨⟨[([], .directory 0o755), ([".envv"], .directory 0o755),
    ([".envv", "credentials.json"], .file 0o600 bytes),
    ([".envv", "config.yaml"], .file 0o644 bytes), (["work"], .directory 0o755),
    (["work", ".envv"], .directory 0o755),
    (["work", ".envv", "config.yaml"], .file 0o644 bytes)]⟩, [], [], "", []⟩

def maybe : String := "api_url: !!bool maybe\n"

theorem untrue_scalar_escapes :
    SettingsFile.load none Desk.host (holding (Text.Utf8.encode maybe)) =
        (.error (.crash .missingKey), holding (Text.Utf8.encode maybe)) ∧
      BindingFile.load none Desk.host (holding (Text.Utf8.encode maybe)) =
        (.error (.crash .missingKey), holding (Text.Utf8.encode maybe)) := by
  obtain ⟨-, hsettings, hbinding⟩ := bad_files_are_contained none none Desk.host
    (holding (Text.Utf8.encode maybe)) (by decide) (Text.Utf8.encode maybe)
  have htext : Files.text? (Text.Utf8.encode maybe) = some maybe := by decide +kernel
  have hscalar : Yaml.Value.ofText maybe = .error .badTruth := by
    have hread : ((Yaml.Value.ofText maybe).map fun _ => ()) = .error .badTruth := by
      decide +kernel
    cases hy : Yaml.Value.ofText maybe with
    | error problem =>
      rw [hy] at hread
      exact congrArg Except.error (Except.error.inj hread)
    | ok v =>
      rw [hy] at hread
      cases hread
  have hescapes : Yaml.Escapes (Text.Utf8.encode maybe) .missingKey := .scalar htext hscalar rfl
  refine ⟨(hsettings ⟨.root, [".envv", "config.yaml"]⟩ ⟨_, rfl, rfl⟩ ?_).1 _ hescapes,
    (hbinding ?_).1 _ hescapes⟩
  · exact ⟨[".envv", "config.yaml"], 0o644, rfl⟩
  · exact ⟨["work", ".envv", "config.yaml"], 0o644, rfl⟩

theorem undecodable_files_escape :
    (Credentials.load none Desk.host (holding [0xFF])).1 = .error (.crash .undecodable) ∧
      (SettingsFile.load none Desk.host (holding [0xFF])).1 = .error (.crash .undecodable) ∧
      (BindingFile.load none Desk.host (holding [0xFF])).1 = .error (.crash .undecodable) := by
  refine ⟨Secrets.eq_of_isUndecodable ?_, Secrets.eq_of_isUndecodable ?_,
    Secrets.eq_of_isUndecodable ?_⟩ <;> decide +kernel

end Local

end TeamVault
