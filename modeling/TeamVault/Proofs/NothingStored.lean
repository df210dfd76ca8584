import TeamVault.Proofs.RoundTrip

/-!
When nothing counts as stored. A sync makes a first version, and a rotation has nothing to do, only
where the answer is the status for nothing found, carries nothing, or names no ciphertext. Every
other answer without a version ends both, and nothing is changed by then.
-/
namespace TeamVault

namespace Json

inductive IsBlank : Json → Prop
  | null : IsBlank .null
  | false : IsBlank (.bool false)
  | zero : IsBlank (.int 0)
  | floatZero {x : Binary64} (hx : x.isZero = true) : IsBlank (.float x)
  | noText : IsBlank (.text "")
  | noItems : IsBlank (.list [])
  | noFields : IsBlank (.object [])

theorem isBlank_iff {v : Json} : v.IsBlank ↔ v.isPresent = false := by
  constructor
  · intro hv
    cases hv with
    | floatZero hx => simp [isPresent, hx]
    | _ => simp [isPresent]
  · intro hv
    cases v with
    | null => exact .null
    | bool b =>
      obtain rfl : b = Bool.false := hv
      exact .false
    | int n =>
      obtain rfl : n = 0 := by simpa [isPresent] using hv
      exact .zero
    | float x => exact .floatZero (by simpa [isPresent] using hv)
    | text s =>
      obtain rfl : s = "" := by simpa [isPresent] using hv
      exact .noText
    | halfText codes => simp [isPresent] at hv
    | list items =>
      obtain rfl : items = [] := by simpa [isPresent] using hv
      exact .noItems
    | object fs =>
      obtain rfl : fs = [] := by simpa [isPresent] using hv
      exact .noFields

/-- Nothing, or an object whose ciphertext is missing or nothing. -/
inductive LacksCiphertext : Json → Prop
  | blank {v : Json} (hv : v.IsBlank) : LacksCiphertext v
  | object {fs : Fields} (hd : ∀ d, fs.get? "encrypted_data" = some d → d.IsBlank) :
    LacksCiphertext (.object fs)

def IsVoid (v : Json) : Prop := v = .null ∨ v = .list [] ∨ v = .object []

theorem present?_eq_none_iff {fs : Fields} {key : String} :
    fs.present? key = none ↔ ∀ d, fs.get? key = some d → d.IsBlank := by
  simp only [Fields.present?, Option.filter_eq_none_iff, isBlank_iff, Bool.not_eq_true]

end Json

namespace Reply

inductive Says (p : Json → Prop) : Reply → Prop
  | notFound {reason : String} {body : Bytes} : Says p (.answered 404 reason body)
  | noContent {status : Int} {reason : String} {body : Bytes} (hs : status < 400)
      (he : status = 204 ∨ body = []) : Says p (.answered status reason body)
  | value {status : Int} {reason : String} {body : Bytes} {v : Json} (hs : status < 400)
      (hv : Json.ofText? (Text.Utf8.decodeLenient body) = some v) (hp : p v) :
    Says p (.answered status reason body)

abbrev StoresNothing (r : Reply) : Prop := r.Says Json.LacksCiphertext

end Reply

namespace Rotation

theorem isNotFound_refusal (status : Int) (reason : String) (body : Bytes) :
    isNotFound (.fault (Client.refusal status reason body)) = decide (status = 404) := by
  unfold isNotFound
  dsimp only
  obtain ⟨rfl, hk⟩ | ⟨rfl, hk⟩ | ⟨rfl, hk⟩ | ⟨hs, code, details, hk⟩ :=
    Client.refusal_kind status reason body
  · rw [hk]
    rfl
  · rw [hk]
    rfl
  · rw [hk]
    rfl
  · rw [hk]
    exact (decide_eq_false hs).symm

end Rotation

namespace VersionStore

open Rotation (isNotFound)

variable {c : Client} {project : String} {e : Environment}

theorem holdsNothing_iff {v : Json} : holdsNothing v = true ↔ v.LacksCiphertext := by
  unfold holdsNothing
  rw [Bool.or_eq_true, Bool.not_eq_true', ← Json.isBlank_iff]
  constructor
  · rintro (hv | hv)
    · exact .blank hv
    · split at hv
      next fs => exact .object (Json.present?_eq_none_iff.1 (Option.isNone_iff_eq_none.1 hv))
      · cases hv
  · intro hv
    cases hv with
    | blank hv => exact .inl hv
    | object hd => exact .inr (Option.isNone_iff_eq_none.2 (Json.present?_eq_none_iff.2 hd))

theorem latest_missing_iff {v : Json} :
    (∃ x, latest project e v = .error x ∧ isNotFound x = true) ↔ v.LacksCiphertext := by
  rw [← holdsNothing_iff]
  unfold latest
  by_cases hv : holdsNothing v = true
  · rw [if_pos hv]
    exact ⟨fun _ => hv, fun _ => ⟨_, rfl, rfl⟩⟩
  · rw [if_neg hv]
    refine ⟨fun ⟨x, hx, hn⟩ => ?_, fun h => absurd h hv⟩
    split at hx <;> cases hx <;> cases hn

theorem told_missing_iff {reply : Reply} :
    (∃ x, told c project e reply = .error x ∧ isNotFound x = true) ↔ reply.StoresNothing := by
  have hnull : Json.LacksCiphertext .null := .blank .null
  cases reply with
  | failed text =>
    refine ⟨fun ⟨x, hx, hn⟩ => ?_, nofun⟩
    cases hx
    cases hn
  | answered status reason body =>
    unfold told
    change (∃ x, ((Client.decode _ _ status reason body).mapError Failure.fault >>=
      latest project e) = .error x ∧ _) ↔ _
    unfold Client.decode
    by_cases hs : 400 ≤ status
    · rw [if_pos hs]
      constructor
      · rintro ⟨x, hx, hn⟩
        cases hx
        rw [Rotation.isNotFound_refusal] at hn
        obtain rfl : status = 404 := of_decide_eq_true hn
        exact .notFound
      · intro hr
        refine ⟨_, rfl, ?_⟩
        rw [Rotation.isNotFound_refusal]
        cases hr with
        | notFound => rfl
        | noContent hl => omega
        | value hl => omega
    rw [if_neg hs]
    have hl : status < 400 := by omega
    by_cases he : status = 204 ∨ body = []
    · rw [if_pos he]
      exact ⟨fun _ => .noContent hl he, fun _ => latest_missing_iff.2 hnull⟩
    rw [if_neg he]
    cases hj : Json.ofText? (Text.Utf8.decodeLenient body) with
    | none =>
      constructor
      · rintro ⟨x, hx, hn⟩
        cases hx
        cases hn
      · intro hr
        cases hr with
        | notFound => omega
        | noContent _ he' => exact absurd he' he
        | value _ hv => simp [hj] at hv
    | some v =>
      refine latest_missing_iff.trans ⟨fun hv => .value hl hj hv, fun hr => ?_⟩
      cases hr with
      | notFound => omega
      | noContent _ he' => exact absurd he' he
      | value _ hv hp =>
        obtain rfl := Option.some.inj (hj.symm.trans hv)
        exact hp

end VersionStore

/-! ### What a failing pull leaves -/

namespace Tree

def Keeps (t u : Tree) : Prop := ∀ l n, t.node? l = some n → u.node? l = some n

variable {t : Tree}

theorem Keeps.refl (t : Tree) : Keeps t t := fun _ _ h => h

theorem makeAlong_keeps (spot : Location) (names : List String) :
    t.Keeps (t.makeAlong spot names).1 := by
  induction names generalizing t spot with
  | nil => exact .refl t
  | cons name rest ih =>
    rw [makeAlong]
    cases checkName name with
    | error e => exact .refl t
    | ok _ =>
      dsimp only
      generalize hnext : (if name = ".." then spot.dropLast else spot ++ [name]) = next
      cases hn : t.node? next with
      | none =>
        intro l n hl
        apply ih
        have hne : l ≠ next := by
          rintro rfl
          simp [hn] at hl
        simpa [node?_put, hne] using hl
      | some m =>
        cases m with
        | file => exact .refl t
        | directory => exact ih next

theorem makeDirectories_keeps (here : Location) (p : Path) :
    t.Keeps (t.makeDirectories here p).1 := by
  unfold makeDirectories
  split
  · exact .refl t
  · exact makeAlong_keeps _ _

end Tree

namespace Secrets

variable {s : Secrets} {h : Host} {w : World} {e : Environment} {given : Json}

theorem unpack_keeps (hs : w.files.Sound h.workDirectory) {version : SecretVersion}
    {output : Path} {x : Failure} (hx : (s.unpack version output h w).1 = .error x) :
    w.files.Keeps (s.unpack version output h w).2.files := by
  unfold unpack at hx ⊢
  cases hf : version.format with
  | none =>
    have ha : Rotation.formatOf version h w = (.error (.crash .shape), w) := by
      rw [Rotation.formatOf, hf]
      rfl
    rw [Action.bind_of_error ha]
    exact .refl _
  | some format =>
    have ha : Rotation.formatOf version h w = (.ok format, w) := by
      rw [Rotation.formatOf, hf]
      rfl
    rw [Action.bind_of_ok ha] at hx ⊢
    have hd := s.tool.decrypt_files h w version.ciphertext format hs
    rcases hr : s.tool.decrypt version.ciphertext format h w with ⟨y | plaintext, v⟩
    · rw [hr] at hd
      rw [Action.bind_of_error hr]
      exact fun l n hl => hd.symm ▸ hl
    rw [hr] at hd
    rw [Action.bind_of_ok hr] at hx ⊢
    have hk : w.files.Keeps (Files.makeDirectories output.parent h v).2.files := by
      rw [← hd]
      exact Tree.makeDirectories_keeps h.workDirectory output.parent
    rcases hm : Files.makeDirectories output.parent h v with ⟨y | _, made⟩
    · rw [hm] at hk
      rwa [Action.bind_of_error hm]
    rw [hm] at hk
    rw [Action.bind_of_ok hm] at hx ⊢
    -- A file that is not written is as it was; one that is written ends the pull with success.
    obtain ⟨y, hw⟩ | ⟨u, -, hw⟩ := Files.writePrivate_cases output plaintext h made
    · rw [hw]
      exact hk
    · rw [hw] at hx
      cases hx

/-- How a pull ends for a sync: without a version or with one that cannot be taken, the sync is
over; where nothing is stored, it goes on from nothing. -/
theorem pullTo_ends (hs : w.files.Sound h.workDirectory) (output : Path) :
    (∃ x w', s.pullTo e output h w = (.error x, w') ∧ Rotation.isNotFound x = false ∧
      Quiet w w' ∧ w.files.Keeps w'.files ∧
      ((∀ v, VersionStore.told s.client s.project e
        (h.respond w.events (VersionStore.question s.client s.project e)) ≠ .ok v) →
        w'.files = w.files)) ∨
    (∃ x, s.pullTo e output h w =
        (.error x, w.sent (VersionStore.question s.client s.project e)) ∧
      Rotation.isNotFound x = true ∧
      (h.respond w.events (VersionStore.question s.client s.project e)).StoresNothing) ∨
    ∃ t : Taken s e output h w, s.pullTo e output h w = (.ok ⟨t.version, output⟩, t.taken) := by
  obtain ⟨x, w', hp, hq, hmissing⟩ | ⟨t, hp, -⟩ := s.pullTo_cases h w e output
  swap
  · exact .inr (.inr ⟨t, hp⟩)
  cases hn : Rotation.isNotFound x with
  | true =>
    obtain ⟨htold, rfl⟩ := hmissing hn
    exact .inr (.inl ⟨x, hp, hn, VersionStore.told_missing_iff.1 ⟨x, htold, hn⟩⟩)
  | false =>
    refine .inl ⟨x, w', hp, hn, hq, ?_⟩
    unfold pullTo at hp
    obtain hi | hi := s.tool.checkInstalled_cases h w
    swap
    · rw [Action.bind_of_error hi] at hp
      cases hp
      exact ⟨.refl _, fun _ => rfl⟩
    rw [Action.bind_of_ok hi] at hp
    have hpull := VersionStore.pull_apply s.client s.project e h w
    cases htold : VersionStore.told s.client s.project e
        (h.respond w.events (VersionStore.question s.client s.project e)) with
    | error y =>
      rw [htold] at hpull
      rw [Action.bind_of_error hpull] at hp
      cases hp
      exact ⟨.refl _, fun _ => rfl⟩
    | ok version =>
      rw [htold] at hpull
      rw [Action.bind_of_ok hpull] at hp
      refine ⟨?_, fun hno => absurd rfl (hno version)⟩
      have hsent : (w.sent (VersionStore.question s.client s.project e)).files.Sound
          h.workDirectory := hs
      rcases hu : s.unpack version output h
        (w.sent (VersionStore.question s.client s.project e)) with ⟨y | _, v⟩
      · have hk := unpack_keeps hsent (congrArg Prod.fst hu)
        rw [hu] at hk
        rw [Action.bind_of_error hu] at hp
        cases hp
        exact hk
      · rw [Action.bind_of_ok hu] at hp
        cases hp

variable (he : Environment.choose given (some s.binding.defaultEnvironment) = .ok e)
include he

theorem sync_eq (file : Option String) :
    s.sync given file h w = match s.pullIfAny e (fileOr file e) h w with
      | (.ok pulled, w') => s.pushBack e (fileOr file e) pulled h w'
      | (.error x, w') => (.error x, w') := by
  have henv : s.environment given h w = (.ok e, w) := by
    rw [environment, Action.ofExcept_apply, he]
    rfl
  unfold sync
  rw [Action.bind_of_ok henv, Action.bind_apply]
  rcases s.pullIfAny e (fileOr file e) h w with ⟨_ | _, _⟩ <;> rfl

def EndsUnchanged {α : Type} (w : World) (r : Except Failure α × World) : Prop :=
  (∃ x, r.1 = .error x) ∧ Quiet w r.2 ∧ r.2.files = w.files

theorem sync_ends (hs : w.files.Sound h.workDirectory) (file : Option String)
    (hstores : ¬ (h.respond w.events
      (VersionStore.question s.client s.project e)).StoresNothing) :
    (∃ x w', s.sync given file h w = (.error x, w') ∧ Quiet w w' ∧ w.files.Keeps w'.files ∧
      ((∀ v, VersionStore.told s.client s.project e
        (h.respond w.events (VersionStore.question s.client s.project e)) ≠ .ok v) →
        w'.files = w.files)) ∨
    ∃ t : Taken s e (fileOr file e) h w, s.sync given file h w =
      s.pushBack e (fileOr file e) (some ⟨t.version, fileOr file e⟩) h t.taken := by
  obtain ⟨x, w', hp, hn, hq, hk, hsame⟩ | ⟨x, hp, hn, hr⟩ | ⟨t, hp⟩ :=
    s.pullTo_ends (e := e) hs (fileOr file e)
  · have hany : s.pullIfAny e (fileOr file e) h w = (.error x, w') := by
      rw [pullIfAny, Action.recover_apply, Action.bind_of_error hp]
      simp [hn]
    exact .inl ⟨x, w', by rw [sync_eq he, hany], hq, hk, hsame⟩
  · exact absurd hr hstores
  · have hany : s.pullIfAny e (fileOr file e) h w =
        (.ok (some ⟨t.version, fileOr file e⟩), t.taken) := by
      rw [pullIfAny, Action.recover_apply, Action.bind_of_ok hp]
      rfl
    exact .inr ⟨t, by rw [sync_eq he, hany]⟩

theorem sync_of_storesNothing (file : Option String)
    (hstores : (h.respond w.events (VersionStore.question s.client s.project e)).StoresNothing)
    (hi : h.isInstalled s.tool.program = true) :
    s.sync given file h w = s.pushBack e (fileOr file e) none h
      (w.sent (VersionStore.question s.client s.project e)) := by
  obtain ⟨x, htold, hn⟩ := VersionStore.told_missing_iff.2 hstores
  have hpull := VersionStore.pull_apply s.client s.project e h w
  rw [htold] at hpull
  have hp : s.pullTo e (fileOr file e) h w =
      (.error x, w.sent (VersionStore.question s.client s.project e)) := by
    rw [pullTo, Action.bind_of_ok (Sops.Tool.checkInstalled_of_installed hi w),
      Action.bind_of_error hpull]
  have hany : s.pullIfAny e (fileOr file e) h w =
      (.ok none, w.sent (VersionStore.question s.client s.project e)) := by
    rw [pullIfAny, Action.recover_apply, Action.bind_of_error hp]
    simp [hn]
  rw [sync_eq he, hany]

theorem rotate_of_error {x : Failure}
    (htold : VersionStore.told s.client s.project e
      (h.respond w.events (VersionStore.question s.client s.project e)) = .error x) :
    if Rotation.isNotFound x then ∃ r, s.rotate given h w =
        (.ok r, w.sent (VersionStore.question s.client s.project e)) ∧ r.isRotated = false
    else EndsUnchanged w (s.rotate given h w) := by
  have henv : s.environment given h w = (.ok e, w) := by
    rw [environment, Action.ofExcept_apply, he]
    rfl
  have hp := Rotation.proceed_of_error s.tool none Rotation.start htold
  cases hn : Rotation.isNotFound x with
  | true =>
    rw [hn, if_pos rfl] at hp
    rw [if_pos rfl, rotate, Action.bind_of_ok henv, Action.bind_of_ok (Rotation.run_of_ok hp)]
    exact ⟨_, rfl, rfl⟩
  | false =>
    rw [hn, if_neg Bool.false_ne_true] at hp
    rw [if_neg Bool.false_ne_true, rotate, Action.bind_of_ok henv,
      Action.bind_of_ok (Rotation.run_of_error hp)]
    have hq : Quiet w (w.sent (VersionStore.question s.client s.project e)) := .of_get rfl
    exact ⟨⟨x, rfl⟩, hq.trans (.of_events rfl), rfl⟩

theorem isRotated_of_rotate
    (hstores : ¬ (h.respond w.events
      (VersionStore.question s.client s.project e)).StoresNothing) {r : Rotation}
    (hr : (s.rotate given h w).1 = .ok r) : r.isRotated = true := by
  obtain ⟨x, hx⟩ | ⟨e', r', w', he', hc, hrotate⟩ := s.rotate_cases h w given
  · rw [hx] at hr
    cases hr
  obtain rfl : e' = e := Except.ok.inj (he'.symm.trans he)
  rw [hrotate] at hr
  cases hc with
  | nothing told missing =>
    exact absurd (VersionStore.told_missing_iff.1 ⟨_, told, missing⟩) hstores
  | stopped => cases hr
  | completed d =>
    cases hr
    rfl

/-- Where nothing is stored, a sync goes on to push the local file and a rotation is done. Any other
answer ends the sync without a post and with every file as it was, or it is a version that the sync
has taken before it goes on; a rotation never tells that there was nothing to do. An answer without
a version ends both with nothing changed. -/
theorem first_only_if_nothing_stored (hs : w.files.Sound h.workDirectory)
    (file : Option String) :
    let question := VersionStore.question s.client s.project e
    let reply := h.respond w.events question
    (reply.StoresNothing →
      (h.isInstalled s.tool.program = true → s.sync given file h w =
        s.pushBack e (fileOr file e) none h (w.sent question)) ∧
      ∃ r, s.rotate given h w = (.ok r, w.sent question) ∧ r.isRotated = false) ∧
    (¬ reply.StoresNothing →
      ((∃ x w', s.sync given file h w = (.error x, w') ∧ Quiet w w' ∧
          w.files.Keeps w'.files) ∨
        ∃ t : Taken s e (fileOr file e) h w, s.sync given file h w =
          s.pushBack e (fileOr file e) (some ⟨t.version, fileOr file e⟩) h t.taken) ∧
      (∀ r, (s.rotate given h w).1 = .ok r → r.isRotated = true) ∧
      ((∀ v, VersionStore.told s.client s.project e reply ≠ .ok v) →
        EndsUnchanged w (s.sync given file h w) ∧ EndsUnchanged w (s.rotate given h w))) := by
  intro question reply
  refine ⟨fun hstores => ⟨fun hi => sync_of_storesNothing he file hstores hi, ?_⟩,
    fun hstores => ⟨?_, fun r hr => isRotated_of_rotate he hstores hr, fun hno => ⟨?_, ?_⟩⟩⟩
  · obtain ⟨x, htold, hn⟩ := VersionStore.told_missing_iff.2 hstores
    have hr := rotate_of_error he htold
    rwa [if_pos hn] at hr
  · obtain ⟨x, w', hx, hq, hk, -⟩ | ht := sync_ends he hs file hstores
    · exact .inl ⟨x, w', hx, hq, hk⟩
    · exact .inr ht
  · obtain ⟨x, w', hx, hq, -, hsame⟩ | ⟨t, -⟩ := sync_ends he hs file hstores
    · rw [hx]
      exact ⟨⟨x, rfl⟩, hq, hsame hno⟩
    · exact absurd t.told (hno t.version)
  · cases htold : VersionStore.told s.client s.project e reply with
    | ok v => exact absurd htold (hno v)
    | error x =>
      have hr := rotate_of_error he htold
      rwa [if_neg fun hn => hstores (VersionStore.told_missing_iff.1 ⟨x, htold, hn⟩)] at hr

end Secrets

/-! A service with a version of which it tells something else than the ciphertext. -/

namespace Sample

open Secrets (EndsUnchanged)

def bareHost (answer : String) : Host :=
  { host with
    respond := fun _ r =>
      if r.method = "POST" then saying version
      else if r.url = Desk.client.url (Endpoint.path (.projectMembers "p")) then saying roster
      else saying answer }

def unnumbered : String := "\x7b\"version_id\":\"v\",\"encrypted_data\":\"\x7b\x7d\"\x7d"

theorem told_unnumbered : ∃ x, VersionStore.told Desk.client "p" .development (saying unnumbered) =
    .error x ∧ Rotation.isNotFound x = false := by
  have hx : (match VersionStore.told Desk.client "p" .development (saying unnumbered) with
      | .error x => !Rotation.isNotFound x
      | .ok _ => false) = true := by decide +kernel
  split at hx
  next x ht => exact ⟨x, ht, by simpa using hx⟩
  · cases hx

theorem unnumbered_changes_nothing :
    EndsUnchanged Desk.world
        (Desk.secrets.sync .null (some "env") (bareHost unnumbered) Desk.world) ∧
      EndsUnchanged Desk.world (Desk.secrets.rotate .null (bareHost unnumbered) Desk.world) := by
  obtain ⟨x, ht, hn⟩ := told_unnumbered
  have hreply : (bareHost unnumbered).respond Desk.world.events
      (VersionStore.question Desk.client "p" .development) = saying unnumbered := by
    have hget : (VersionStore.question Desk.client "p" .development).method ≠ "POST" := by decide
    have hurl : (VersionStore.question Desk.client "p" .development).url ≠
        Desk.client.url (Endpoint.path (.projectMembers "p")) := by decide +kernel
    simp only [bareHost, if_neg hget, if_neg hurl]
  have he : Environment.choose .null (some Desk.secrets.binding.defaultEnvironment) =
      .ok .development := rfl
  have hmain := Secrets.first_only_if_nothing_stored he (h := bareHost unnumbered)
    (w := Desk.world) Desk.sound_tree (some "env")
  have hstores : ¬ ((bareHost unnumbered).respond Desk.world.events
      (VersionStore.question Desk.client "p" .development)).StoresNothing := by
    rw [hreply]
    intro hs
    obtain ⟨y, hy, hm⟩ := VersionStore.told_missing_iff.2 hs
    obtain rfl : x = y := Except.error.inj (ht.symm.trans hy)
    rw [hn] at hm
    cases hm
  refine (hmain.2 hstores).2.2 fun v hv => ?_
  have hno : VersionStore.told Desk.client "p" .development (saying unnumbered) = .ok v :=
    hreply ▸ hv
  rw [ht] at hno
  cases hno

/-- The first sync that is made over a version, and the rotation that finds none. -/
structure IsLost (answer : String) : Prop where
  told : ¬ (saying answer).Says Json.IsVoid
  synced : ∃ r w', Desk.secrets.sync .null (some "env") (bareHost answer) Desk.world = (.ok r, w') ∧
    r.isFirst = true
  rotated : ∃ r w', Desk.secrets.rotate .null (bareHost answer) Desk.world = (.ok r, w') ∧
    r.isRotated = false

def loses (answer : String) : Bool :=
  (match (Desk.secrets.sync .null (some "env") (bareHost answer) Desk.world).1 with
    | .ok r => r.isFirst
    | .error _ => false) &&
  (match (Desk.secrets.rotate .null (bareHost answer) Desk.world).1 with
    | .ok r => !r.isRotated
    | .error _ => false) &&
  (match Json.ofText? (Text.Utf8.decodeLenient (Text.Utf8.encode answer)) with
    | some .null | some (.list []) | some (.object []) => false
    | _ => !(Text.Utf8.encode answer).isEmpty)

theorem isLost_of_loses {answer : String} (hl : loses answer = true) : IsLost answer := by
  unfold loses at hl
  rw [Bool.and_eq_true, Bool.and_eq_true] at hl
  obtain ⟨⟨hsync, hrotate⟩, hvoid⟩ := hl
  refine ⟨fun hs => ?_, ?_, ?_⟩
  · unfold saying at hs
    cases hs with
    | noContent _ he =>
      obtain he | he := he
      · cases he
      · simp [he] at hvoid
        split at hvoid <;> simp at hvoid
    | value _ hv hp =>
      rw [hv] at hvoid
      obtain rfl | rfl | rfl := hp <;> cases hvoid
  · rcases hr : Desk.secrets.sync .null (some "env") (bareHost answer) Desk.world with ⟨_ | r, w'⟩
    · rw [hr] at hsync
      cases hsync
    · rw [hr] at hsync
      exact ⟨r, w', rfl, hsync⟩
  · rcases hr : Desk.secrets.rotate .null (bareHost answer) Desk.world with ⟨_ | r, w'⟩
    · rw [hr] at hrotate
      cases hrotate
    · rw [hr] at hrotate
      exact ⟨r, w', rfl, by simpa using hrotate⟩

/-- A version without ciphertext, one whose ciphertext is null, and a plain false. -/
theorem unreadable_version_is_lost :
    IsLost "\x7b\"version_id\":\"v\",\"version\":3\x7d" ∧
      IsLost "\x7b\"version_id\":\"v\",\"version\":3,\"encrypted_data\":null\x7d" ∧
      IsLost "false" :=
  ⟨isLost_of_loses (by decide +kernel), isLost_of_loses (by decide +kernel),
    isLost_of_loses (by decide +kernel)⟩

end Sample

end TeamVault
