import TeamVault.Proofs.Exchange
import TeamVault.Proofs.ToolRun
import TeamVault.Rotation

/-!
The course of a rotation. A rotation passes through stages, each with all that the ones before have
yielded; where a stage is not reached, a step stopped with a failure of its own. Main statement:
every rotation has one of three courses: nothing to rotate, stopped, or completed.
-/
namespace TeamVault

theorem Scratch.crash_of_write {s : Scratch} {h : Host} {w w' : World} {name : String}
    {data : Bytes} {f : Failure} (hw : s.write name data h w = (.error f, w')) :
    ∃ c, f = .crash c := by
  cases s with
  | closed =>
    cases hw
    exact ⟨_, rfl⟩
  | opened p =>
    obtain ⟨c, he⟩ | ⟨u, -, he⟩ := write_cases h w p name data
    · rw [he] at hw
      cases hw
      exact ⟨c, rfl⟩
    · rw [he] at hw
      cases hw

namespace Rotation

variable {α β : Type} {h : Host} {w w' : World} {r : Rotation}

section Parts

theorem act_apply (a : Action α) :
    (act a).run.run r h w = (.ok ((a h w).1, r), (a h w).2) := rfl

theorem bind_apply (p : Part α) (f : α → Part β) (r : Rotation) (h : Host) (w : World) :
    (p >>= f).run.run r h w = match p.run.run r h w with
      | (.ok (.ok x, r'), w') => (f x).run.run r' h w'
      | (.ok (.error e, r'), w') => (.ok (.error e, r'), w')
      | (.error e, w') => (.error e, w') := by
  show (p.run.run r >>= fun x => StateT.run (ExceptT.bindCont f x.1) x.2) h w = _
  rw [Action.bind_apply]
  rcases p.run.run r h w with ⟨_ | ⟨_ | _, _⟩, _⟩ <;> rfl

theorem act_bind_of_ok {a : Action α} {x : α} (f : α → Part β) (ha : a h w = (.ok x, w')) :
    (act a >>= f).run.run r h w = (f x).run.run r h w' := by
  rw [bind_apply, act_apply, ha]

theorem act_bind_of_error {a : Action α} {e : Failure} (f : α → Part β)
    (ha : a h w = (.error e, w')) :
    (act a >>= f).run.run r h w = (.ok (.error e, r), w') := by
  rw [bind_apply, act_apply, ha]

theorem record_bind (g : Rotation → Rotation) (f : Unit → Part β) :
    (record g >>= f).run.run r h w = (f ()).run.run (g r) h w := by
  rw [bind_apply]
  rfl

theorem withScratch_of_failed {parent : Option Path} {body : Scratch → Part α} {e : Failure}
    (hc : Scratch.create "envv-rotate-" parent h w = (.error e, w')) :
    (withScratch parent body).run.run r h w = (.ok (.error e, r), w') := by
  show (caught (Scratch.within "envv-rotate-" parent fun s => body s r) >>= _) h w = _
  rw [Action.bind_apply, caught, Scratch.within_of_failed hc]
  rfl

theorem withScratch_of_created {parent : Option Path} {body : Scratch → Part α} {s : Scratch}
    {v : World} {x : Except Failure α × Rotation}
    (hc : Scratch.create "envv-rotate-" parent h w = (.ok s, w'))
    (hb : (body s).run.run r h w' = (.ok x, v)) :
    (withScratch parent body).run.run r h w = (.ok x, s.left h v) := by
  have hr : body s r h w' = (.ok x, v) := hb
  show (caught (Scratch.within "envv-rotate-" parent fun s => body s r) >>= _) h w = _
  rw [Action.bind_apply, caught, Scratch.within_of_created hc, hr]
  rfl

end Parts

def order : List RotationStep :=
  [.fetchCurrent, .decrypt, .refreshRecipients, .buildPolicy, .encrypt, .push, .done]

def upTo (s : RotationStep) : List RotationStep := order.takeWhile (· ≠ s) ++ [s]

def entered (previous : Option SecretVersion) (keys : List String) (s : RotationStep) : Rotation :=
  ⟨previous, none, keys, upTo s, none⟩

section Stages

variable (c : Client) (tool : Sops.Tool) (project : String) (environment : Environment)
  (parent : Option Path) (h : Host) (w : World)

def askedFor : World := w.sent (VersionStore.question c project environment)

structure Fetched where
  current : SecretVersion
  told : VersionStore.told c project environment
    (h.respond w.events (VersionStore.question c project environment)) = .ok current

structure Opened extends Fetched c project environment h w where
  scratch : Scratch
  opened : World
  creates : Scratch.create "envv-rotate-" parent h (askedFor c project environment w) =
    (.ok scratch, opened)

structure Decrypted extends Opened c project environment parent h w where
  format : SecretFormat
  plaintext : Bytes
  decrypted : World
  file : Path
  written : World
  tells : current.format = some format
  decrypts : tool.decrypt current.ciphertext format h opened = (.ok plaintext, decrypted)
  writes : scratch.write ".env.rotate" plaintext h decrypted = (.ok file, written)

def Decrypted.listed (s : Decrypted c tool project environment parent h w) : World :=
  s.written.sent (Roster.question c project)

structure Refreshed extends Decrypted c tool project environment parent h w where
  recipients : List Recipient
  lists : Roster.told c project (h.respond written.events (Roster.question c project)) =
    .ok recipients

structure Planned extends Refreshed c tool project environment parent h w where
  policy : Policy
  builds : Policy.build recipients = .ok policy

structure Sealed extends Planned c tool project environment parent h w where
  ciphertext : Bytes
  metadata : Json.Fields
  sealed : World
  encrypts : tool.encrypt file policy format h toDecrypted.listed =
    (.ok (ciphertext, metadata), sealed)

def Sealed.left (s : Sealed c tool project environment parent h w) : World :=
  s.scratch.left h s.sealed

structure Delivered extends Sealed c tool project environment parent h w where
  version : SecretVersion
  delivered : World
  pushes : VersionStore.push c project environment ciphertext format metadata h toSealed.left =
    (.ok version, delivered)

inductive Halts (s : Opened c project environment parent h w) :
    RotationStep → Failure → List String → World → Prop
  | format (tells : s.current.format = none) : Halts s .decrypt (.crash .shape) [] s.opened
  | decrypt {format : SecretFormat} {own : Failure} {w' : World}
      (tells : s.current.format = some format)
      (fails : tool.decrypt s.current.ciphertext format h s.opened = (.error own, w')) :
      Halts s .decrypt own [] w'
  | write {format : SecretFormat} {plaintext : Bytes} {v w' : World} {own : Failure}
      (tells : s.current.format = some format)
      (decrypts : tool.decrypt s.current.ciphertext format h s.opened = (.ok plaintext, v))
      (fails : s.scratch.write ".env.rotate" plaintext h v = (.error own, w')) :
      Halts s .decrypt own [] w'
  | refresh (d : Decrypted c tool project environment parent h w) (hd : d.toOpened = s)
      {own : Fault}
      (fails : Roster.told c project (h.respond d.written.events (Roster.question c project)) =
        .error own) :
      Halts s .refreshRecipients (.fault own) [] d.listed
  | build (d : Refreshed c tool project environment parent h w) (hd : d.toOpened = s)
      {own : Fault} (fails : Policy.build d.recipients = .error own) :
      Halts s .buildPolicy (.fault own) [] d.listed
  | encrypt (d : Planned c tool project environment parent h w) (hd : d.toOpened = s)
      {own : Failure} {w' : World}
      (fails : tool.encrypt d.file d.policy d.format h d.listed = (.error own, w')) :
      Halts s .encrypt own d.policy.recipientKeys w'

/-- A step that fails with a failure of its own; the version and the keys known by then and the
world when the rotation is over. -/
inductive Stops :
    RotationStep → Failure → Option SecretVersion → List String → World → Prop
  | fetch {own : Failure}
      (fails : VersionStore.told c project environment
        (h.respond w.events (VersionStore.question c project environment)) = .error own)
      (found : isNotFound own = false) :
      Stops .fetchCurrent own none [] (askedFor c project environment w)
  | scratch (s : Fetched c project environment h w) {own : Failure} {w' : World}
      (fails : Scratch.create "envv-rotate-" parent h (askedFor c project environment w) =
        (.error own, w')) :
      Stops .fetchCurrent own (some s.current) [] w'
  | inside (s : Opened c project environment parent h w) {step : RotationStep} {own : Failure}
      {keys : List String} {w' : World}
      (halts : Halts c tool project environment parent h w s step own keys w') :
      Stops step own (some s.current) keys (s.scratch.left h w')
  | push (s : Sealed c tool project environment parent h w) {own : Failure} {w' : World}
      (fails : VersionStore.push c project environment s.ciphertext s.format s.metadata h s.left =
        (.error own, w')) :
      Stops .push own (some s.current) s.policy.recipientKeys w'

def raised : RotationStep → Failure → Failure
  | .decrypt, own => cannotDecrypt own
  | _, own => own

inductive Course : Rotation → World → Prop
  | nothing {f : Failure}
      (told : VersionStore.told c project environment
        (h.respond w.events (VersionStore.question c project environment)) = .error f)
      (missing : isNotFound f = true) :
      Course ⟨none, none, [], [.fetchCurrent, .done], none⟩ (askedFor c project environment w)
  | stopped {step : RotationStep} {own : Failure} {previous : Option SecretVersion}
      {keys : List String} {w' : World}
      (stops : Stops c tool project environment parent h w step own previous keys w') :
      Course ⟨previous, none, keys, upTo step ++ [.aborted], some (some step, raised step own)⟩
        { w' with warnings := w'.warnings ++ [abortText project environment (some step)] }
  | completed (s : Delivered c tool project environment parent h w) :
      Course ⟨some s.current, some s.version, s.policy.recipientKeys, order, none⟩ s.delivered

variable {c tool project environment parent h w}

theorem decrypting_of_ok {v v' : World} {ciphertext plaintext : Bytes} {format : SecretFormat}
    (hd : tool.decrypt ciphertext format h v = (.ok plaintext, v')) :
    decrypting tool ciphertext format h v = (.ok plaintext, v') := by
  rw [decrypting, Action.recover_apply, hd]

theorem decrypting_of_error {v v' : World} {ciphertext : Bytes} {format : SecretFormat}
    {own : Failure} (hd : tool.decrypt ciphertext format h v = (.error own, v')) :
    decrypting tool ciphertext format h v = (.error (cannotDecrypt own), v') := by
  rw [decrypting, Action.recover_apply, hd]
  rfl

variable (tool) in
theorem recoverFile_cases (s : Opened c project environment parent h w) :
    (∃ own w', Halts c tool project environment parent h w s .decrypt own [] w' ∧
      (recoverFile tool s.current s.scratch).run.run
          (entered (some s.current) [] .fetchCurrent) h s.opened =
        (.ok (.error (cannotDecrypt own), entered (some s.current) [] .decrypt), w')) ∨
    ∃ d : Decrypted c tool project environment parent h w, d.toOpened = s ∧
      (recoverFile tool s.current s.scratch).run.run
          (entered (some s.current) [] .fetchCurrent) h s.opened =
        (.ok (.ok (d.file, d.format), entered (some s.current) [] .decrypt), d.written) := by
  unfold recoverFile entering
  rw [record_bind]
  rcases hf : s.current.format with _ | format
  · have ha : formatOf s.current h s.opened = (.error (.crash .shape), s.opened) := by
      rw [formatOf, hf]
      rfl
    rw [act_bind_of_error _ ha]
    exact .inl ⟨_, _, .format hf, rfl⟩
  have ha : formatOf s.current h s.opened = (.ok format, s.opened) := by
    rw [formatOf, hf]
    rfl
  rw [act_bind_of_ok _ ha]
  rcases hd : tool.decrypt s.current.ciphertext format h s.opened with ⟨own | plaintext, v⟩
  · rw [act_bind_of_error _ (decrypting_of_error hd)]
    exact .inl ⟨_, _, .decrypt hf hd, rfl⟩
  rw [act_bind_of_ok _ (decrypting_of_ok hd)]
  rcases hw : s.scratch.write ".env.rotate" plaintext h v with ⟨own | file, written⟩
  · obtain ⟨crash, rfl⟩ := Scratch.crash_of_write hw
    rw [act_bind_of_error _ hw]
    exact .inl ⟨_, _, .write hf hd hw, rfl⟩
  · rw [act_bind_of_ok _ hw]
    exact .inr ⟨⟨s, format, plaintext, v, file, written, hf, hd, hw⟩, rfl, rfl⟩

theorem sealAnew_cases (d : Decrypted c tool project environment parent h w) :
    (∃ step own keys w', Halts c tool project environment parent h w d.toOpened step own keys w' ∧
      (sealAnew c tool project d.file d.format).run.run
          (entered (some d.current) [] .decrypt) h d.written =
        (.ok (.error (raised step own), entered (some d.current) keys step), w')) ∨
    ∃ e : Sealed c tool project environment parent h w, e.toDecrypted = d ∧
      (sealAnew c tool project d.file d.format).run.run
          (entered (some d.current) [] .decrypt) h d.written =
        (.ok (.ok (e.ciphertext, e.metadata),
          entered (some d.current) e.policy.recipientKeys .encrypt), e.sealed) := by
  unfold sealAnew entering
  rw [record_bind]
  have hl : Roster.ofProject c project h d.written = (_, d.listed) :=
    Roster.ofProject_apply c project h d.written
  cases ht : Roster.told c project (h.respond d.written.events (Roster.question c project)) with
  | error own =>
    rw [ht] at hl
    rw [act_bind_of_error _ hl]
    exact .inl ⟨_, _, _, _, .refresh d rfl ht, rfl⟩
  | ok recipients =>
    rw [ht] at hl
    rw [act_bind_of_ok _ hl, record_bind]
    have hp := Action.ofExcept_apply (h := h) (w := d.listed) (r := Policy.build recipients)
    cases hb : Policy.build recipients with
    | error own =>
      rw [hb] at hp
      rw [act_bind_of_error _ hp]
      exact .inl ⟨_, _, _, _, .build ⟨d, recipients, ht⟩ rfl hb, rfl⟩
    | ok policy =>
      rw [hb] at hp
      rw [act_bind_of_ok _ hp, record_bind, record_bind]
      let e : Planned c tool project environment parent h w := ⟨⟨d, recipients, ht⟩, policy, hb⟩
      rcases he : tool.encrypt d.file policy d.format h d.listed with ⟨own | ⟨data, block⟩, v⟩
      · refine .inl ⟨_, _, _, _, .encrypt e rfl he, ?_⟩
        rw [act_apply, he]
        rfl
      · refine .inr ⟨⟨e, data, block, v, he⟩, rfl, ?_⟩
        rw [act_apply, he]
        rfl

variable (tool) in
theorem reseal_cases (s : Opened c project environment parent h w) :
    (∃ step own keys w', Halts c tool project environment parent h w s step own keys w' ∧
      (reseal c tool project s.current s.scratch).run.run
          (entered (some s.current) [] .fetchCurrent) h s.opened =
        (.ok (.error (raised step own), entered (some s.current) keys step), w')) ∨
    ∃ e : Sealed c tool project environment parent h w, e.toOpened = s ∧
      (reseal c tool project s.current s.scratch).run.run
          (entered (some s.current) [] .fetchCurrent) h s.opened =
        (.ok (.ok ((e.ciphertext, e.metadata), e.format),
          entered (some s.current) e.policy.recipientKeys .encrypt), e.sealed) := by
  unfold reseal
  rw [bind_apply]
  obtain ⟨own, w', hh, hr⟩ | ⟨d, rfl, hr⟩ := recoverFile_cases tool s
  · rw [hr]
    exact .inl ⟨_, _, _, _, hh, rfl⟩
  rw [hr]
  dsimp only
  rw [bind_apply]
  obtain ⟨step, own, keys, w', hh, hs⟩ | ⟨e, rfl, hs⟩ := sealAnew_cases d
  · rw [hs]
    exact .inl ⟨_, _, _, _, hh, rfl⟩
  · rw [hs]
    exact .inr ⟨e, rfl, rfl⟩

variable (tool parent) in
theorem renew_cases (s : Fetched c project environment h w) :
    (∃ step own keys w',
      Stops c tool project environment parent h w step own (some s.current) keys w' ∧
      (renew c tool project environment parent s.current).run.run
          (entered (some s.current) [] .fetchCurrent) h (askedFor c project environment w) =
        (.ok (.error (raised step own), entered (some s.current) keys step), w')) ∨
    ∃ d : Delivered c tool project environment parent h w,
      (renew c tool project environment parent s.current).run.run
          (entered (some s.current) [] .fetchCurrent) h (askedFor c project environment w) =
        (.ok (.ok (), ⟨some d.current, some d.version, d.policy.recipientKeys, order, none⟩),
          d.delivered) := by
  unfold renew
  rw [bind_apply]
  rcases hc : Scratch.create "envv-rotate-" parent h (askedFor c project environment w) with
    ⟨own | scratch, v⟩
  · rw [withScratch_of_failed hc]
    exact .inl ⟨_, _, _, _, .scratch s hc, rfl⟩
  let o : Opened c project environment parent h w := ⟨s, scratch, v, hc⟩
  obtain ⟨step, own, keys, w', hh, hr⟩ | ⟨e, he, hr⟩ := reseal_cases tool o
  · rw [withScratch_of_created hc hr]
    exact .inl ⟨_, _, _, _, .inside o hh, rfl⟩
  have hl : scratch.left h e.sealed = e.left := by rw [Sealed.left, he]
  obtain rfl : e.toFetched = s := congrArg Opened.toFetched he
  rw [withScratch_of_created hc hr, hl]
  dsimp only
  unfold entering
  rw [record_bind]
  rcases hp : VersionStore.push c project environment e.ciphertext e.format e.metadata h e.left with
    ⟨own | version, v⟩
  · rw [act_bind_of_error _ hp]
    exact .inl ⟨_, _, _, _, .push e hp, rfl⟩
  · rw [act_bind_of_ok _ hp, record_bind]
    exact .inr ⟨⟨e, version, v, hp⟩, rfl⟩

theorem caught_pull (c : Client) (project : String) (environment : Environment) (h : Host)
    (w : World) :
    caught (VersionStore.pull c project environment) h w =
      (.ok (VersionStore.told c project environment
        (h.respond w.events (VersionStore.question c project environment))),
        askedFor c project environment w) := by
  rw [caught, VersionStore.pull_apply]
  rfl

variable (tool parent) in
theorem proceed_of_ok (s : Fetched c project environment h w) (earlier : Rotation) :
    (proceed c tool project environment parent).run.run earlier h w =
      (renew c tool project environment parent s.current).run.run
        (entered (some s.current) [] .fetchCurrent) h (askedFor c project environment w) := by
  unfold proceed entering
  rw [record_bind, record_bind, act_bind_of_ok _ (caught_pull c project environment h w), s.told]
  dsimp only
  rw [record_bind]
  rfl

variable (tool parent) in
theorem proceed_of_error {f : Failure} (earlier : Rotation)
    (ht : VersionStore.told c project environment
      (h.respond w.events (VersionStore.question c project environment)) = .error f) :
    (proceed c tool project environment parent).run.run earlier h w =
      (.ok (if isNotFound f then (.ok (), ⟨none, none, [], [.fetchCurrent, .done], none⟩)
        else (.error f, entered none [] .fetchCurrent)), askedFor c project environment w) := by
  unfold proceed entering
  rw [record_bind, record_bind, act_bind_of_ok _ (caught_pull c project environment h w), ht]
  dsimp only
  split <;> rfl

theorem run_of_ok {r : Rotation} {w' : World} {earlier : Rotation}
    (hp : (proceed c tool project environment parent).run.run earlier h w = (.ok (.ok (), r), w')) :
    run c tool project environment parent earlier h w = (.ok r, w') := by
  unfold run
  rw [Action.bind_of_ok hp]
  rfl

theorem run_of_error {previous : Option SecretVersion} {keys : List String} {step : RotationStep}
    {w' : World} {earlier : Rotation} {f : Failure}
    (hp : (proceed c tool project environment parent).run.run earlier h w =
      (.ok (.error f, entered previous keys step), w')) :
    run c tool project environment parent earlier h w =
      (.ok ⟨previous, none, keys, upTo step ++ [.aborted], some (some step, f)⟩,
        { w' with warnings := w'.warnings ++ [abortText project environment (some step)] }) := by
  have hl : (entered previous keys step).step? = some step := by simp [step?, entered, upTo]
  unfold run
  rw [Action.bind_of_ok hp]
  dsimp only
  rw [hl]
  rfl

/-- Every rotation has one of the three courses, whatever was recorded before. -/
theorem run_course (c : Client) (tool : Sops.Tool) (project : String) (environment : Environment)
    (parent : Option Path) (earlier : Rotation) (h : Host) (w : World) :
    ∃ r w', run c tool project environment parent earlier h w = (.ok r, w') ∧
      Course c tool project environment parent h w r w' := by
  cases ht : VersionStore.told c project environment
    (h.respond w.events (VersionStore.question c project environment)) with
  | error f =>
    have hp := proceed_of_error tool parent earlier ht
    cases hf : isNotFound f with
    | true =>
      rw [if_pos hf] at hp
      exact ⟨_, _, run_of_ok hp, .nothing ht hf⟩
    | false =>
      rw [if_neg (by simp [hf])] at hp
      exact ⟨_, _, run_of_error hp, .stopped (.fetch ht hf)⟩
  | ok current =>
    let s : Fetched c project environment h w := ⟨current, ht⟩
    have hp := proceed_of_ok tool parent s earlier
    obtain ⟨step, own, keys, w', hs, hr⟩ | ⟨d, hr⟩ := renew_cases tool parent s
    · exact ⟨_, _, run_of_error (hp.trans hr), .stopped hs⟩
    · exact ⟨_, _, run_of_ok (hp.trans hr), .completed d⟩

theorem run_eq_start (earlier : Rotation) :
    run c tool project environment parent earlier =
      run c tool project environment parent := by
  rfl

end Stages

end Rotation

end TeamVault
