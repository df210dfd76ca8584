import TeamVault.Proofs.RotationCourse

/-!
The events of a rotation. They come in one order, which ends early where a step stops: the latest
version is asked for, decrypted, the members are asked for, the plaintext is encrypted, and the new
version is delivered. What a rule on events has to allow for that is said once.
-/
namespace TeamVault

def Run.Succeeds (r : Run) (h : Host) (before : List Event) : Prop :=
  ∃ output diagnostics, h.execute before r = .exited 0 output diagnostics

def Sops.IsDecryption (t : Sops.Tool) (r : Run) : Prop :=
  r.program = t.program ∧ ∃ format file, r.arguments = Sops.Tool.decryptArguments format file

def Sops.IsEncryption (t : Sops.Tool) (r : Run) : Prop :=
  r.program = t.program ∧
    ∃ format plaintext config, r.arguments = Sops.Tool.encryptArguments format plaintext config

theorem Sops.not_isEncryption {t : Sops.Tool} {r : Run} (hd : Sops.IsDecryption t r) :
    ¬ Sops.IsEncryption t r := by
  rintro ⟨-, format, plaintext, config, he⟩
  obtain ⟨-, format', file, hd⟩ := hd
  rw [hd] at he
  simp [Sops.Tool.decryptArguments, Sops.Tool.encryptArguments] at he

namespace Rotation

def HasDecrypted (tool : Sops.Tool) (h : Host) (earlier before : List Event) : Prop :=
  ∃ first d rest, before = first ++ .run d :: rest ∧ Sops.IsDecryption tool d.toRun ∧
    d.Succeeds h (earlier ++ first)

def HasAsked (c : Client) (project : String) (before : List Event) : Prop :=
  ∃ m, .request m ∈ before ∧ m.IsTo c (.projectMembers project)

structure PermitsReading (c : Client) (tool : Sops.Tool) (project : String) (h : Host)
    (earlier : List Event) (allows : List Event → Event → Prop) : Prop where
  fetch : ∀ before q, q.IsTo c (.pullSecrets project) → allows before (.request q)
  decrypt : ∀ before r, Sops.IsDecryption tool r.toRun → allows before (.run r)
  members : ∀ before q, HasDecrypted tool h earlier before →
    q.IsTo c (.projectMembers project) → allows before (.request q)

structure Permits (c : Client) (tool : Sops.Tool) (project : String) (h : Host)
    (earlier : List Event) (allows : List Event → Event → Prop) : Prop
    extends PermitsReading c tool project h earlier allows where
  encrypt : ∀ before r, HasAsked c project before → Sops.IsEncryption tool r.toRun →
    allows before (.run r)

def Goes (allows : List Event → Event → Prop) (w w' : World) : Prop :=
  ∃ trace, w'.events = w.events ++ trace ∧ Follows allows trace

section Goes

variable {allows : List Event → Event → Prop} {w v w' : World}

theorem Goes.of_events (hg : Goes allows w v) (he : w'.events = v.events) : Goes allows w w' := by
  obtain ⟨trace, ht, hf⟩ := hg
  exact ⟨trace, he.trans ht, hf⟩

theorem Goes.snoc {e : Event} (hg : Goes allows w v) (he : w'.events = v.events ++ [e])
    (hi : ∀ trace, v.events = w.events ++ trace → allows trace e) : Goes allows w w' := by
  obtain ⟨trace, ht, hf⟩ := hg
  exact ⟨trace ++ [e], by rw [he, ht, List.append_assoc], hf.snoc (hi trace ht)⟩

end Goes

section Stages

variable {c : Client} {tool : Sops.Tool} {project : String} {environment : Environment}
  {parent : Option Path} {h : Host} {w w' : World} {allows : List Event → Event → Prop}

theorem Decrypted.hasDecrypted (s : Decrypted c tool project environment parent h w) :
    ∃ d : Run.Started, s.written.events = s.opened.events ++ [.run d] ∧
      Sops.IsDecryption tool d.toRun ∧ d.Succeeds h s.opened.events := by
  have hw := Scratch.events_of_write s.writes
  have hr := tool.decrypt_runs h s.opened s.current.ciphertext s.format
  rw [s.decrypts] at hr
  obtain ⟨d, l, scene, code, output, diagnostics, -, he, hx, ho⟩ := hr.of_ok
  obtain ⟨rfl, -⟩ := Sops.Tool.opened_eq_ok ho
  exact ⟨_, hw.trans he, ⟨rfl, s.format, _, rfl⟩, output, diagnostics, hx⟩

theorem Course.failure_of_isRotated {r : Rotation}
    (hc : Course c tool project environment parent h w r w') (hr : r.isRotated = true) :
    r.failure = none := by
  cases hc with
  | nothing => rfl
  | stopped => exact absurd hr (by simp [isRotated])
  | completed => rfl

section Reading

variable (hA : PermitsReading c tool project h w.events allows)
include hA

theorem askedFor_goes : Goes allows w (askedFor c project environment w) :=
  ⟨_, World.sent_events _ _,
    Follows.snoc .nil (hA.fetch _ _ (VersionStore.question_isTo c project environment))⟩

theorem Opened.goes (s : Opened c project environment parent h w) : Goes allows w s.opened :=
  (askedFor_goes hA).of_events (Scratch.events_of_create s.creates)

theorem goes_decrypt {v v' : World} {ciphertext : Bytes} {format : SecretFormat}
    {r : Except Failure Bytes} (hg : Goes allows w v)
    (hd : tool.decrypt ciphertext format h v = (r, v')) : Goes allows w v' := by
  have hr := tool.decrypt_runs h v ciphertext format
  rw [hd] at hr
  obtain he | ⟨file, scene, he⟩ := hr.events_cases
  · exact hg.of_events he
  · exact hg.snoc he fun trace _ => hA.decrypt trace _ ⟨rfl, format, file.toText, rfl⟩

theorem Decrypted.goes (s : Decrypted c tool project environment parent h w) :
    ∃ trace, s.written.events = w.events ++ trace ∧ Follows allows trace ∧
      HasDecrypted tool h w.events trace := by
  obtain ⟨d, he, hd, hs⟩ := s.hasDecrypted
  obtain ⟨trace, ht, hf⟩ := s.toOpened.goes hA
  refine ⟨trace ++ [.run d], by rw [he, ht, List.append_assoc], hf.snoc (hA.decrypt trace d hd), ?_⟩
  exact ⟨trace, d, [], rfl, hd, ht ▸ hs⟩

theorem Decrypted.listed_goes (s : Decrypted c tool project environment parent h w) :
    ∃ trace, s.listed.events = w.events ++ trace ∧ Follows allows trace ∧
      HasAsked c project trace := by
  obtain ⟨trace, ht, hf, hd⟩ := s.goes hA
  refine ⟨trace ++ [.request ⟨Roster.question c project, s.written.files⟩], ?_, ?_, ?_⟩
  · rw [Decrypted.listed, World.sent_events, ht, List.append_assoc]
  · exact hf.snoc (hA.members trace _ hd (Roster.question_isTo c project))
  · exact ⟨⟨Roster.question c project, s.written.files⟩, by simp, Roster.question_isTo c project⟩

end Reading

variable (hA : Permits c tool project h w.events allows)
include hA

theorem Planned.encrypt_goes (s : Planned c tool project environment parent h w)
    {r : Except Failure (Bytes × Json.Fields)}
    (he : tool.encrypt s.file s.policy s.format h s.listed = (r, w')) : Goes allows w w' := by
  obtain ⟨trace, ht, hf, ha⟩ := s.toDecrypted.listed_goes hA.toPermitsReading
  have hr := tool.encrypt_runs h s.listed s.file s.policy s.format
  rw [he] at hr
  obtain hv | ⟨file, scene, hv⟩ := hr.events_cases
  · exact Goes.of_events ⟨trace, ht, hf⟩ hv
  · refine Goes.snoc ⟨trace, ht, hf⟩ hv fun trace' ht' => hA.encrypt trace' _ ?_ ?_
    · rw [ht] at ht'
      rwa [← List.append_cancel_left ht']
    · exact ⟨rfl, s.format, s.file.toText, file.toText, rfl⟩

theorem Sealed.goes (s : Sealed c tool project environment parent h w) : Goes allows w s.left :=
  (s.toPlanned.encrypt_goes hA s.encrypts).of_events (Scratch.left_events s.scratch)

theorem Halts.goes {s : Opened c project environment parent h w} {step : RotationStep}
    {own : Failure} {keys : List String}
    (hh : Halts c tool project environment parent h w s step own keys w') : Goes allows w w' := by
  cases hh with
  | format => exact s.goes hA.toPermitsReading
  | decrypt _ fails =>
    exact goes_decrypt hA.toPermitsReading (s.goes hA.toPermitsReading) fails
  | write _ decrypts fails =>
    have hg := goes_decrypt hA.toPermitsReading (s.goes hA.toPermitsReading) decrypts
    exact hg.of_events (Scratch.events_of_write fails)
  | refresh d =>
    obtain ⟨trace, ht, hf, -⟩ := d.listed_goes hA.toPermitsReading
    exact ⟨trace, ht, hf⟩
  | build d =>
    obtain ⟨trace, ht, hf, -⟩ := d.toDecrypted.listed_goes hA.toPermitsReading
    exact ⟨trace, ht, hf⟩
  | encrypt d _ fails => exact d.encrypt_goes hA fails

/-- How a rotation goes: by the rule, and where it comes to a delivery, by the rule up to that. It
has rotated if the delivery succeeds. -/
theorem Course.goes {r : Rotation} (hc : Course c tool project environment parent h w r w') :
    Goes allows w w' ∧ r.isRotated = false ∨
    ∃ (s : Sealed c tool project environment parent h w) (x : Except Failure SecretVersion)
      (v : World),
      VersionStore.push c project environment s.ciphertext s.format s.metadata h s.left = (x, v) ∧
        w'.events = v.events ∧ r.isRotated = x.isOk := by
  cases hc with
  | nothing => exact .inl ⟨askedFor_goes hA.toPermitsReading, rfl⟩
  | stopped stops =>
    cases stops with
    | fetch => exact .inl ⟨askedFor_goes hA.toPermitsReading, rfl⟩
    | scratch s fails =>
      have he := Scratch.events_of_create fails
      exact .inl ⟨(askedFor_goes hA.toPermitsReading).of_events he, rfl⟩
    | inside s halts =>
      exact .inl ⟨(halts.goes hA).of_events (Scratch.left_events s.scratch), rfl⟩
    | push s fails => exact .inr ⟨s, _, _, fails, rfl, rfl⟩
  | completed s => exact .inr ⟨s.toSealed, _, _, s.pushes, rfl, rfl⟩

end Stages

end Rotation

end TeamVault
