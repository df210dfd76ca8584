import TeamVault.Proofs.RotationCourse
import TeamVault.Secrets

/-!
The course of the operations on secrets. A file is pushed through a sealing: members that were
listed and ciphertext of the file for them. A pull takes the latest version through its stages to a
file, and a sync goes on from what was pulled or from nothing. Whatever does not get as far as a
delivery fails without one.
-/
namespace TeamVault

open Sops (Tool)

def Event.IsRead : Event → Prop
  | .run _ => True
  | .request r => r.method = "GET"

abbrev Quiet (w w' : World) : Prop := Emitted Event.IsRead w w'

section Quiet

variable {α : Type} {h : Host} {w w' : World}

theorem Quiet.of_get {q : Request} (hq : q.method = "GET") : Quiet w (w.sent q) :=
  .single (World.sent_events w q) hq

theorem Quiet.of_runs {t : Tool} {j : Sops.Job} {g : Int × Bytes × Bytes → Except Fault α}
    {r : Except Failure α} (hr : t.Runs h w j g r w'.events) : Quiet w w' := by
  obtain he | ⟨file, scene, he⟩ := hr.events_cases
  · exact .of_events he
  · exact .single he trivial

end Quiet

structure Sealing (c : Client) (tool : Tool) (project : String) (h : Host) (file : Path)
    (format : SecretFormat) (w : World) where
  recipients : List Recipient
  lists : Roster.told c project (h.respond w.events (Roster.question c project)) = .ok recipients
  policy : Policy
  builds : Policy.build recipients = .ok policy
  ciphertext : Bytes
  metadata : Json.Fields
  sealed : World
  encrypts : tool.encrypt file policy format h (w.sent (Roster.question c project)) =
    (.ok (ciphertext, metadata), sealed)

namespace Secrets

variable (s : Secrets) (h : Host) (w : World)

theorem pushFile_cases (file : Path) (e : Environment) (f : SecretFormat) :
    (∃ x, (s.pushFile file e f h w).1 = .error x ∧
      Quiet w (s.pushFile file e f h w).2) ∨
    ∃ z : Sealing s.client s.tool s.project h file f w,
      (∃ l m d, w.files.find h.workDirectory file = .ok (l, .file m d)) ∧
      s.pushFile file e f h w =
        VersionStore.push s.client s.project e z.ciphertext f z.metadata h z.sealed := by
  unfold pushFile
  obtain ⟨r, hr, hfile⟩ := Files.isFile_cases file h w
  rcases r with x | there
  · rw [Action.bind_of_error hr]
    exact .inl ⟨x, rfl, .of_events rfl⟩
  rw [Action.bind_of_ok hr]
  cases there with
  | false => exact .inl ⟨_, rfl, .of_events rfl⟩
  | true =>
    rw [if_pos rfl]
    obtain hi | hi := s.tool.checkInstalled_cases h w
    · rw [Action.bind_of_ok hi]
      have hl := Roster.ofProject_apply s.client s.project h w
      have hq : Quiet w (w.sent (Roster.question s.client s.project)) :=
        .of_get rfl
      cases ht : Roster.told s.client s.project
        (h.respond w.events (Roster.question s.client s.project)) with
      | error x =>
        rw [ht] at hl
        rw [Action.bind_of_error hl]
        exact .inl ⟨_, rfl, hq⟩
      | ok recipients =>
        rw [ht] at hl
        rw [Action.bind_of_ok hl]
        cases hb : Policy.build recipients with
        | error x =>
          rw [Action.bind_of_error (Action.ofExcept_apply _)]
          exact .inl ⟨_, rfl, hq⟩
        | ok policy =>
          rw [Action.bind_of_ok (Action.ofExcept_apply _)]
          rcases he : s.tool.encrypt file policy f h
            (w.sent (Roster.question s.client s.project)) with ⟨x | ⟨ciphertext, block⟩, v⟩
          · rw [Action.bind_of_error he]
            have hr := s.tool.encrypt_runs h (w.sent (Roster.question s.client s.project)) file
              policy f
            rw [he] at hr
            exact .inl ⟨x, rfl, hq.trans (Quiet.of_runs hr)⟩
          · rw [Action.bind_of_ok he]
            exact .inr ⟨⟨recipients, ht, policy, hb, ciphertext, block, v, he⟩, hfile rfl, rfl⟩
    · rw [Action.bind_of_error hi]
      exact .inl ⟨_, rfl, .of_events rfl⟩

structure Taken (s : Secrets) (e : Environment) (output : Path) (h : Host) (w : World) where
  version : SecretVersion
  told : VersionStore.told s.client s.project e
    (h.respond w.events (VersionStore.question s.client s.project e)) = .ok version
  format : SecretFormat
  tells : version.format = some format
  plaintext : Bytes
  decrypted : World
  decrypts : s.tool.decrypt version.ciphertext format h
    (w.sent (VersionStore.question s.client s.project e)) = (.ok plaintext, decrypted)
  made : World
  makes : Files.makeDirectories output.parent h decrypted = (.ok (), made)
  taken : World
  writes : Files.writePrivate output plaintext h made = (.ok (), taken)

theorem makeDirectories_events (p : Path) :
    (Files.makeDirectories p h w).2.events = w.events := rfl

theorem crash_of_makeDirectories {p : Path} {x : Failure} {w' : World}
    (hm : Files.makeDirectories p h w = (.error x, w')) : ∃ c, x = .crash c := by
  unfold Files.makeDirectories at hm
  dsimp only at hm
  split at hm
  · cases hm
  · cases hm
    exact ⟨_, rfl⟩

theorem not_missing_of_isLocal {x : Failure} (hx : x.IsLocal) : Rotation.isNotFound x = false := by
  cases x with
  | crash c => rfl
  | fault f =>
    have hk : f.kind ≠ .notFound := by
      intro hk
      simp [Failure.IsLocal, hk, FaultKind.parent?] at hx
    unfold Rotation.isNotFound
    dsimp only
    split
    next hn => exact absurd hn hk
    · rfl

theorem unpack_cases (version : SecretVersion) (output : Path) :
    (∃ x w', s.unpack version output h w = (.error x, w') ∧ x.IsLocal ∧
      Quiet w w') ∨
    ∃ format plaintext decrypted made w', version.format = some format ∧
      s.tool.decrypt version.ciphertext format h w = (.ok plaintext, decrypted) ∧
      Files.makeDirectories output.parent h decrypted = (.ok (), made) ∧
      Files.writePrivate output plaintext h made = (.ok (), w') ∧
      s.unpack version output h w = (.ok (), w') ∧ Quiet w w' := by
  unfold unpack
  rcases hf : version.format with _ | format
  · have ha : Rotation.formatOf version h w = (.error (.crash .shape), w) := by
      rw [Rotation.formatOf, hf]
      rfl
    rw [Action.bind_of_error ha]
    exact .inl ⟨_, w, rfl, trivial, .of_events rfl⟩
  have ha : Rotation.formatOf version h w = (.ok format, w) := by
    rw [Rotation.formatOf, hf]
    rfl
  rw [Action.bind_of_ok ha]
  have hr := s.tool.decrypt_runs h w version.ciphertext format
  rcases hd : s.tool.decrypt version.ciphertext format h w with ⟨x | plaintext, v⟩
  · have hl := s.tool.decrypt_isLocal h w version.ciphertext format (by rw [hd])
    rw [hd] at hr
    rw [Action.bind_of_error hd]
    exact .inl ⟨x, v, rfl, hl, .of_runs hr⟩
  rw [hd] at hr
  have hq : Quiet w v := .of_runs hr
  rw [Action.bind_of_ok hd]
  rcases hm : Files.makeDirectories output.parent h v with ⟨x | _, made⟩
  · obtain ⟨c, rfl⟩ := crash_of_makeDirectories h v hm
    have he := makeDirectories_events h v output.parent
    rw [hm] at he
    rw [Action.bind_of_error hm]
    exact .inl ⟨_, made, rfl, trivial, hq.trans (.of_events he)⟩
  have he := makeDirectories_events h v output.parent
  rw [hm] at he
  rw [Action.bind_of_ok hm]
  obtain ⟨c, hw⟩ | ⟨u, -, hw⟩ := Files.writePrivate_cases output plaintext h made
  · exact .inl ⟨_, made, hw, trivial, hq.trans (.of_events he)⟩
  · exact .inr ⟨format, plaintext, v, made, _, rfl, hd, hm, hw, hw, hq.trans (.of_events he)⟩

/-- Nothing is taken, or all stages are passed. What is missing is missing at the service. -/
theorem pullTo_cases (e : Environment) (output : Path) :
    (∃ x w', s.pullTo e output h w = (.error x, w') ∧ Quiet w w' ∧
      (Rotation.isNotFound x = true →
        VersionStore.told s.client s.project e
          (h.respond w.events (VersionStore.question s.client s.project e)) = .error x ∧
        w' = w.sent (VersionStore.question s.client s.project e))) ∨
    ∃ t : Taken s e output h w, s.pullTo e output h w = (.ok ⟨t.version, output⟩, t.taken) ∧
      Quiet w t.taken := by
  unfold pullTo
  -- A failure after the version was found is never taken for a missing version.
  have found : ∀ {x : Failure} {P : Prop}, x.IsLocal → Rotation.isNotFound x = true → P := by
    intro x P hx hn
    rw [not_missing_of_isLocal hx] at hn
    cases hn
  obtain hi | hi := s.tool.checkInstalled_cases h w
  swap
  · rw [Action.bind_of_error hi]
    have hl : (Failure.fault (.unavailable s.tool.program Tool.source)).IsLocal := .inr rfl
    exact .inl ⟨_, w, rfl, .of_events rfl, found hl⟩
  rw [Action.bind_of_ok hi]
  have hp := VersionStore.pull_apply s.client s.project e h w
  have hq : Quiet w (w.sent (VersionStore.question s.client s.project e)) :=
    .of_get rfl
  rcases ht : VersionStore.told s.client s.project e
    (h.respond w.events (VersionStore.question s.client s.project e)) with x | version
  · rw [ht] at hp
    rw [Action.bind_of_error hp]
    exact .inl ⟨x, _, rfl, hq, fun _ => ⟨rfl, rfl⟩⟩
  rw [ht] at hp
  rw [Action.bind_of_ok hp]
  obtain ⟨x, w', hu, hx, hqu⟩ | ⟨format, plain, decrypted, made, w', hf, hd, hm, hw, hu, hqu⟩ :=
    s.unpack_cases h (w.sent (VersionStore.question s.client s.project e)) version output
  · rw [Action.bind_of_error hu]
    exact .inl ⟨x, w', rfl, hq.trans hqu, found hx⟩
  · rw [Action.bind_of_ok hu]
    exact .inr ⟨⟨version, ht, format, hf, plain, decrypted, hd, made, hm, w', hw⟩, rfl,
      hq.trans hqu⟩

/-- What a sync goes on from: the version that was taken, or nothing where nothing was there. -/
inductive Start (e : Environment) (file : Path) : Option Pulled → SecretFormat → World → Prop
  | taken (t : Taken s e file h w) : Start e file (some ⟨t.version, file⟩) t.format t.taken
  | first {x : Failure}
      (told : VersionStore.told s.client s.project e
        (h.respond w.events (VersionStore.question s.client s.project e)) = .error x)
      (missing : Rotation.isNotFound x = true) :
      Start e file none .dotenv (w.sent (VersionStore.question s.client s.project e))

theorem Start.format_eq {e : Environment} {file : Path} {pulled : Option Pulled}
    {f : SecretFormat} {v : World} (hst : Start s h w e file pulled f v) :
    (pulled.bind (·.version.format)).getD .dotenv = f := by
  cases hst with
  | taken t => simp [t.tells]
  | first => rfl

theorem pullIfAny_cases (e : Environment) (file : Path) :
    (∃ x w', s.pullIfAny e file h w = (.error x, w') ∧ Quiet w w') ∨
    ∃ pulled f v, Start s h w e file pulled f v ∧ Quiet w v ∧
      s.pullIfAny e file h w = (.ok pulled, v) := by
  unfold pullIfAny
  rw [Action.recover_apply]
  obtain ⟨x, v, hp, hq, hx⟩ | ⟨t, hp, hq⟩ := s.pullTo_cases h w e file
  · rw [Action.bind_of_error hp]
    dsimp only
    cases hn : Rotation.isNotFound x with
    | false => exact .inl ⟨x, v, rfl, hq⟩
    | true =>
      obtain ⟨ht, rfl⟩ := hx hn
      exact .inr ⟨none, .dotenv, _, .first ht hn, hq, rfl⟩
  · rw [Action.bind_of_ok hp]
    exact .inr ⟨_, t.format, t.taken, .taken t, hq, rfl⟩

theorem pushBack_cases (e : Environment) (file : Path) (pulled : Option Pulled) {f : SecretFormat}
    (hf : (pulled.bind (·.version.format)).getD .dotenv = f) :
    (∃ x, s.pushBack e file pulled h w = (.error x, w)) ∨
      s.pushBack e file pulled h w = ((s.pushFile file e f h w).1.map (⟨pulled, ·⟩),
        (s.pushFile file e f h w).2) := by
  unfold pushBack
  rw [hf]
  obtain ⟨r, hr, -⟩ := Files.isFile_cases file h w
  rcases r with x | there
  · exact .inl ⟨x, Action.bind_of_error hr⟩
  rw [Action.bind_of_ok hr]
  cases there with
  | false => exact .inl ⟨_, rfl⟩
  | true =>
    rw [if_pos rfl, Action.bind_of_pure (g := fun v => .ok ⟨pulled, v⟩) fun _ _ => rfl]
    refine .inr ?_
    cases (s.pushFile file e f h w).1 <;> rfl

/-- A sync fails without a delivery, or it ends as the push does that it goes on with. -/
theorem sync_cases (given : Json) (file : Option String) :
    (∃ x, (s.sync given file h w).1 = .error x ∧
      Quiet w (s.sync given file h w).2) ∨
    ∃ e pulled f v, Environment.choose given (some s.binding.defaultEnvironment) = .ok e ∧
      Start s h w e (fileOr file e) pulled f v ∧ Quiet w v ∧
      s.sync given file h w = ((s.pushFile (fileOr file e) e f h v).1.map (⟨pulled, ·⟩),
        (s.pushFile (fileOr file e) e f h v).2) := by
  have henv : s.environment given h w = (_, w) := Action.ofExcept_apply _
  unfold sync
  rcases he : Environment.choose given (some s.binding.defaultEnvironment) with x | e
  · rw [he] at henv
    rw [Action.bind_of_error henv]
    exact .inl ⟨_, rfl, .of_events rfl⟩
  rw [he] at henv
  rw [Action.bind_of_ok henv]
  obtain ⟨x, v, hp, hq⟩ | ⟨pulled, f, v, hst, hq, hp⟩ := s.pullIfAny_cases h w e (fileOr file e)
  · rw [Action.bind_of_error hp]
    exact .inl ⟨x, rfl, hq⟩
  rw [Action.bind_of_ok hp]
  obtain ⟨x, hb⟩ | hb := s.pushBack_cases h v e (fileOr file e) pulled (hst.format_eq s h w)
  · rw [hb]
    exact .inl ⟨x, rfl, hq⟩
  · exact .inr ⟨e, pulled, f, v, rfl, hst, hq, hb⟩

theorem push_cases (file : Path) (given format : Json) :
    (∃ x, s.push file given format h w = (.error x, w)) ∨
    ∃ e f, Environment.choose given (some s.binding.defaultEnvironment) = .ok e ∧
      SecretFormat.choose format = .ok f ∧
      s.push file given format h w = s.pushFile file e f h w := by
  have henv : s.environment given h w = (_, w) := Action.ofExcept_apply _
  unfold push
  rcases he : Environment.choose given (some s.binding.defaultEnvironment) with x | e
  · rw [he] at henv
    exact .inl ⟨_, Action.bind_of_error henv⟩
  rw [he] at henv
  rw [Action.bind_of_ok henv]
  rcases hf : SecretFormat.choose format with x | f
  · exact .inl ⟨_, Action.bind_of_error (Action.ofExcept_apply _)⟩
  · exact .inr ⟨e, f, rfl, rfl, Action.bind_of_ok (Action.ofExcept_apply _)⟩

theorem rotate_cases (given : Json) :
    (∃ x, s.rotate given h w = (.error x, w)) ∨
    ∃ e r w', Environment.choose given (some s.binding.defaultEnvironment) = .ok e ∧
      Rotation.Course s.client s.tool s.project e none h w r w' ∧
      s.rotate given h w = (match r.failure with
        | some (_, x) => .error x
        | none => .ok r, w') := by
  have henv : s.environment given h w = (_, w) := Action.ofExcept_apply _
  unfold rotate
  rcases he : Environment.choose given (some s.binding.defaultEnvironment) with x | e
  · rw [he] at henv
    exact .inl ⟨_, Action.bind_of_error henv⟩
  rw [he] at henv
  obtain ⟨r, w', hr, hc⟩ :=
    Rotation.run_course s.client s.tool s.project e none Rotation.start h w
  refine .inr ⟨e, r, w', rfl, hc, ?_⟩
  rw [Action.bind_of_ok henv, Action.bind_of_ok hr]
  cases r.failure <;> rfl

end Secrets

end TeamVault
