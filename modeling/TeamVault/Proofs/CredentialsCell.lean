import TeamVault.Proofs.FileSteps
import TeamVault.Proofs.JsonText
import TeamVault.Proofs.StoredTime
import TeamVault.Proofs.VersionLog

/-!
The credentials of a home as one cell. A session is read back from its file field by field, so after
any sequence of saves, clears and loads the last save or clear alone says what is loaded. A session
with half of a surrogate pair in it has no text for the file: saving it fails when the file is empty
already, and then neither that session nor the one before it is loaded.
-/
namespace TeamVault

/-! ### Sessions in files -/

namespace Session

variable {x : Session}

def IsAccepted (x : Session) : Prop := ∃ fs, ofFields fs = .fits x

theorem exists_whole (hx : x.isWhole = true) : ∃ token user address,
    x = ⟨.whole token, .whole user, Option.map .whole address, x.expiresAt⟩ := by
  obtain ⟨token, user, address, expiry⟩ := x
  cases token with
  | halved codes => cases hx
  | whole token =>
  cases user with
  | halved codes => cases hx
  | whole user =>
  cases address with
  | none => exact ⟨token, user, none, rfl⟩
  | some address =>
  cases address with
  | halved codes => cases hx
  | whole address => exact ⟨token, user, some address, rfl⟩

theorem isPlain_fields (hx : x.isWhole = true) : ∀ f ∈ x.fields, f.2.IsPlain := by
  obtain ⟨token, user, address, hwhole⟩ := exists_whole hx
  rw [hwhole]
  intro f hf
  simp only [fields, List.mem_cons, List.not_mem_nil, or_false] at hf
  rcases hf with rfl | rfl | rfl | rfl
  · exact .text _
  · exact .text _
  · cases address with
    | none => exact .null
    | some s => exact .text s
  · cases x.expiresAt with
    | none => exact .null
    | some t => exact .text _

theorem ofText_storedText (hx : x.isWhole = true) :
    Json.ofText x.storedText = .ok (.object x.fields) := by
  have hnames : (x.fields.map Prod.fst).Nodup := by
    change ["access_token", "user_id", "email", "expires_at"].Nodup
    decide
  exact Json.ofText_indented (List.cons_ne_nil _ _) hnames (isPlain_fields hx)

theorem unifyBreaks_storedText (hx : x.isWhole = true) :
    Text.unifyBreaks x.storedText = x.storedText := by
  refine Text.unifyBreaks_of_not_mem fun hmem => ?_
  rcases Json.toNat_ge_of_mem_indented (isPlain_fields hx) hmem with hfeed | hlow
  · exact absurd hfeed (by decide)
  · exact absurd hlow (by decide)

theorem isWritable_of_accepted (hx : x.IsAccepted) {t : Timestamp} (ht : x.expiresAt = some t) :
    t.IsWritable := by
  obtain ⟨fs, hfs⟩ := hx
  have hexpiry : Checked.withDefault fs "expires_at" none
      (Checked.nullable Checked.timestamp) = .fits x.expiresAt := by
    simp only [ofFields, Checked.seq_eq_fits, Checked.map_eq_fits, ↓existsAndEq, and_true] at hfs
    obtain ⟨expiry, _, _, _, -, hexpiry, rfl⟩ := hfs
    exact hexpiry
  rw [ht] at hexpiry
  unfold Checked.withDefault at hexpiry
  cases hv : Json.Fields.get? fs "expires_at" with
  | none =>
    rw [hv] at hexpiry
    cases hexpiry
  | some v =>
    rw [hv] at hexpiry
    have hread : Checked.nullable Checked.timestamp v = .fits (some t) := by
      simpa using hexpiry
    have hjson : Timestamp.ofJson? v = some t := by
      unfold Checked.nullable at hread
      split at hread
      · cases hread
      · unfold Checked.timestamp at hread
        split at hread
        next u hu =>
          cases hread
          exact hu
        · cases hread
    exact Timestamp.isWritable_of_ofJson? hjson

theorem ofFields_fields (hx : x.IsAccepted) : ofFields x.fields = .fits x := by
  have hletters : ∀ s : Json.Letters, Checked.letters s.toJson = .fits s := fun s => by
    cases s <;> rfl
  have haddress : Checked.nullable Checked.letters
      ((x.address.map Json.Letters.toJson).getD .null) = .fits x.address := by
    rcases x.address with _ | ⟨_ | _⟩ <;> rfl
  have hexpiry : Checked.nullable Checked.timestamp
      ((x.expiresAt.map fun t => Json.text t.storedText).getD .null) = .fits x.expiresAt := by
    cases ht : x.expiresAt with
    | none => rfl
    | some t =>
      have hread := Timestamp.ofText?_storedText (isWritable_of_accepted hx ht)
      change Checked.map some (Checked.timestamp (.text t.storedText)) = .fits (some t)
      rw [Checked.timestamp, Timestamp.ofJson?, hread]
      rfl
  have hall : ofFields x.fields = Session.mk
      <$> Checked.under (.key "access_token") (Checked.letters x.token.toJson)
      <*> Checked.under (.key "user_id") (Checked.letters x.user.toJson)
      <*> Checked.under (.key "email") (Checked.nullable Checked.letters
        ((x.address.map Json.Letters.toJson).getD .null))
      <*> Checked.under (.key "expires_at") (Checked.nullable Checked.timestamp
        ((x.expiresAt.map fun t => Json.text t.storedText).getD .null)) := rfl
  rw [hall, hletters, hletters, haddress, hexpiry]
  rfl

end Session

namespace Tree

variable {t u v : Tree} {here l : Location} {d p : Path} {name : String} {data bytes : Bytes}

theorem find_private_write (hname : Path.IsName name) (hdots : name ≠ "..")
    (hu : t.setMode here d 0o700 = .ok u)
    (hv : u.write here (d.child name) (some 0o600) data = .ok v) :
    ∃ l, v.find here d = .ok (l, .directory 0o700) ∧
      v.find here (d.child name) = .ok (l ++ [name], .file 0o600 data) := by
  obtain ⟨l, n, hl, rfl⟩ := setMode_eq_ok hu
  obtain ⟨hlocate, hnode⟩ := locate_of_find hl
  have hkeeps := keepsDirectories_setMode hnode 0o700
  obtain ⟨k, hk, hfree, -, rfl⟩ := write_eq_ok hv
  have hdir := isDirectory_of_locate_child (locate_mono hkeeps hlocate) hname hk
  obtain rfl : k = l ++ [name] :=
    locate_child (locate_mono hkeeps hlocate) hdir hname hdots hk
  have hmode : (t.put l (n.withMode 0o700)).node? l = some (.directory 0o700) := by
    obtain ⟨m, hm⟩ := hdir
    rw [node?_put, if_pos rfl] at hm ⊢
    cases n with
    | file => cases hm
    | directory => rfl
  have hafter := keepsDirectories_put hfree (.file 0o600 data)
  refine ⟨l, ?_, ?_⟩
  · apply find_of_locate (locate_mono hafter (locate_mono hkeeps hlocate))
    rw [node?_put, if_neg (by simp), hmode]
  · apply find_of_locate (locate_mono hafter hk)
    rw [node?_put, if_pos rfl]

theorem find_rewritten {k : Location} {mode old : Nat}
    (hd : t.find here d = .ok (l, .directory mode))
    (hp : t.find here p = .ok (k, .file old bytes)) (data : Bytes) :
    (t.put k (.file 0o600 data)).find here d = .ok (l, .directory mode) ∧
      (t.put k (.file 0o600 data)).find here p = .ok (k, .file 0o600 data) := by
  obtain ⟨hlocate, hnode⟩ := locate_of_find hd
  obtain ⟨hplace, hfile⟩ := locate_of_find hp
  have hne : l ≠ k := by
    rintro rfl
    rw [hnode] at hfile
    cases hfile
  have hfree : ¬ t.IsDirectory k := by
    rintro ⟨m, hm⟩
    rw [hfile] at hm
    cases hm
  have hkeeps := keepsDirectories_put hfree (.file 0o600 data)
  refine ⟨find_of_locate (locate_mono hkeeps hlocate) ?_,
    find_of_locate (locate_mono hkeeps hplace) ?_⟩
  · rw [node?_put, if_neg hne, hnode]
  · rw [node?_put, if_pos rfl]

end Tree

/-- The session is over at the instant of its expiry; one that knows none is never over. -/
def Session.isOver (x : Session) (now : Timestamp) : Bool :=
  x.expiresAt.any fun expiry => expiry.instant ≤ now.instant

theorem Session.isExpired_of_known {now : Timestamp} (hnow : now.offset ≠ none) (x : Session) :
    x.isExpired now = .ok (x.isOver now) := by
  have hoffset : now.offset.isNone = false := Option.isNone_eq_false_iff.2
    (Option.isSome_iff_ne_none.2 hnow)
  unfold isExpired isOver
  cases x.expiresAt with
  | none => rfl
  | some expiry =>
    rw [hoffset]
    rfl

namespace Credentials

def judged (now : Timestamp) (x : Session) : Except Failure Session :=
  if x.isOver now then .error (.fault (.of .auth "Session expired.")) else .ok x

variable {x : Session} {home : Option Path} {h : Host} {w w' : World} {now : Timestamp}

theorem decode_storedText (hx : x.IsAccepted) (hwhole : x.isWhole = true) :
    decode x.storedText = .ok x := by
  unfold decode
  rw [Session.ofText_storedText hwhole]
  simp only [Session.ofFields_fields hx]

/-! ### Single calls -/

theorem path_of_isFile {p : Path} (hp : Local.IsFile h home fileName p) :
    path home h w = (.ok p, w) := by
  obtain ⟨d, hd, rfl⟩ := hp
  exact Action.bind_of_ok (Local.home_of_some hd)

theorem path_of_ok {p : Path} (hp : path home h w = (.ok p, w')) :
    Local.IsFile h home fileName p ∧ w' = w := by
  obtain ⟨d, u, hd, hrest⟩ := Action.ok_of_bind hp
  obtain ⟨hd', rfl⟩ := Action.expandHome_of_ok hd
  cases hrest
  exact ⟨⟨d, hd', rfl⟩, rfl⟩

def HasFile (h : Host) (home : Option Path) (t : Tree) (p : Path) (data : Bytes) : Prop :=
  ∃ d l, (home.getD Local.usualHome).expandHome? h.home = some d ∧
    t.find h.workDirectory d = .ok (l, .directory 0o700) ∧
    t.find h.workDirectory p = .ok (l ++ [fileName], .file 0o600 data)

theorem prepare_of_ok {p : Path} (hp : prepare home h w = (.ok p, w')) :
    Local.IsFile h home fileName p ∧ HasFile h home w'.files p [] := by
  obtain ⟨d, w₁, hd, hmake⟩ := Action.ok_of_bind hp
  obtain ⟨hd', -⟩ := Action.expandHome_of_ok hd
  obtain ⟨_, w₂, -, hprivate⟩ := Action.ok_of_bind hmake
  obtain ⟨_, w₃, hmode, hwrite⟩ := Action.ok_of_bind hprivate
  obtain ⟨t, ht, rfl⟩ := Files.change_of_ok hmode
  obtain ⟨_, w₄, hput, hend⟩ := Action.ok_of_bind hwrite
  obtain ⟨u, hu, rfl⟩ := Files.change_of_ok hput
  cases hend
  obtain ⟨l, hdir, hfile⟩ := Tree.find_private_write (by decide) (by decide) ht hu
  exact ⟨⟨d, hd', rfl⟩, d, l, hd', hdir, hfile⟩

theorem save_of_whole {p : Path} (hx : x.isWhole = true) (hp : prepare home h w = (.ok p, w')) :
    ∃ u, save x home h w = (.ok p, u) ∧
      HasFile h home u.files p (Text.Utf8.encode x.storedText) := by
  obtain ⟨-, d, l, hd, hdir, hfile⟩ := prepare_of_ok hp
  have hwrite := Files.writePrivate_of_write
    (Tree.write_of_find hfile 0o600 (Text.Utf8.encode x.storedText))
  have htext : x.text? = some x.storedText := by rw [Session.text?, if_pos hx]
  obtain ⟨hdir', hfile'⟩ := Tree.find_rewritten hdir hfile (Text.Utf8.encode x.storedText)
  have hsave : save x home h w = (.ok p, w'.withFiles (w'.files.put (l ++ [fileName])
      (.file 0o600 (Text.Utf8.encode x.storedText)))) := by
    unfold save
    rw [Action.bind_of_ok hp, htext]
    exact Action.bind_of_ok hwrite
  exact ⟨_, hsave, d, l, hd, hdir', hfile'⟩

theorem save_of_halved {p : Path} (hx : x.isWhole = false)
    (hp : prepare home h w = (.ok p, w')) :
    save x home h w = (.error (.crash .unwritable), w') := by
  have htext : x.text? = none := by rw [Session.text?, hx, if_neg Bool.false_ne_true]
  unfold save
  rw [Action.bind_of_ok hp, htext]
  rfl

theorem save_of_ok {p : Path} (hs : save x home h w = (.ok p, w')) :
    x.isWhole = true ∧ Local.IsFile h home fileName p ∧
      HasFile h home w'.files p (Text.Utf8.encode x.storedText) := by
  obtain ⟨q, u, hp, -⟩ := Action.ok_of_bind hs
  cases hx : x.isWhole with
  | false =>
    rw [save_of_halved hx hp] at hs
    cases hs
  | true =>
    obtain ⟨v, hv, hfile⟩ := save_of_whole hx hp
    rw [hv] at hs
    cases hs
    exact ⟨rfl, (prepare_of_ok hp).1, hfile⟩

theorem clear_of_ok {b : Bool} (hc : clear home h w = (.ok b, w')) :
    ∃ p, Local.IsFile h home fileName p ∧ w'.files.probe h.workDirectory p = .ok none ∧
      (b = true ↔ ∃ l mode data, w.files.find h.workDirectory p = .ok (l, .file mode data)) := by
  obtain ⟨p, w₁, hp, hlook⟩ := Action.ok_of_bind hc
  obtain ⟨hpath, rfl⟩ := path_of_ok hp
  obtain ⟨there, w₂, hthere, hact⟩ := Action.ok_of_bind hlook
  obtain ⟨rfl, n, hn, rfl⟩ := Files.isThere_of_ok hthere
  refine ⟨p, hpath, ?_⟩
  cases n with
  | none =>
    cases hact
    refine ⟨hn, nofun, ?_⟩
    rintro ⟨l, mode, data, hf⟩
    rw [Tree.probe_of_find hf] at hn
    cases hn
  | some n =>
    obtain ⟨_, w₃, hremove, hend⟩ := Action.ok_of_bind hact
    obtain ⟨t, ht, rfl⟩ := Files.change_of_ok hremove
    obtain ⟨l, mode, data, hf, rfl⟩ := Tree.removeFile_eq_ok ht
    cases hend
    exact ⟨Tree.probe_remove hf, fun _ => ⟨l, mode, data, hf⟩, fun _ => rfl⟩

section Loading

variable {p : Path} {s : String} (hfile : Local.IsFile h home fileName p)
  (hthere : Files.isThere p h w = (.ok true, w)) (htext : Files.readText p h w = (.ok s, w))

include hfile hthere htext

theorem load_of_error {f : Failure} (hd : decode s = .error f) : load home h w = (.error f, w) := by
  unfold load
  rw [Action.bind_of_ok (path_of_isFile hfile), Action.bind_of_ok hthere, if_pos rfl,
    Action.bind_of_ok htext, hd]
  rfl

theorem load_of_decoded (hnow : h.now.offset ≠ none) (hd : decode s = .ok x) :
    load home h w = (judged h.now x, w) := by
  unfold load
  rw [Action.bind_of_ok (path_of_isFile hfile), Action.bind_of_ok hthere, if_pos rfl,
    Action.bind_of_ok htext, hd]
  dsimp only
  rw [Action.bind_of_ok (Action.host_apply (h := h) (w := w)), Session.isExpired_of_known hnow x]
  unfold judged
  cases x.isOver h.now <;> rfl

end Loading

theorem load_leaves {β : Type} {f : World → β} (home : Option Path) : (load home).Leaves f := by
  refine .bind (path_leaves home) fun p => ?_
  refine .bind (Files.isThere_leaves p) fun there => ?_
  split
  · refine .bind (Files.readText_leaves p) fun text => ?_
    split
    · exact .ofResult _
    · refine .bind .host fun h => ?_
      split
      · exact .pure _
      · exact .ofResult _
      · exact .ofResult _
  · exact .ofResult _

theorem prepare_failsInFiles {d : Path} {f : Failure}
    (hd : (home.getD Local.usualHome).expandHome? h.home = some d)
    (hp : prepare home h w = (.error f, w')) : ∃ e, f = .crash (Files.failure e) := by
  unfold prepare at hp
  rw [Action.bind_of_ok (Local.home_of_some hd)] at hp
  refine Action.FailsInFiles.bind (Files.makeDirectories_failsInFiles d) (fun _ => ?_) h w f w' hp
  refine .bind (Files.change_failsInFiles _) fun _ => ?_
  exact .bind (Files.change_failsInFiles _) fun _ => .pure _

theorem save_failsInFiles {d : Path} {f : Failure}
    (hd : (home.getD Local.usualHome).expandHome? h.home = some d) (hx : x.isWhole = true)
    (hs : save x home h w = (.error f, w')) : ∃ e, f = .crash (Files.failure e) := by
  rcases hp : prepare home h w with ⟨f' | p, u⟩
  · have hsave : save x home h w = (.error f', u) := Action.bind_of_error hp
    rw [hsave] at hs
    cases hs
    exact prepare_failsInFiles hd hp
  · obtain ⟨v, hv, -⟩ := save_of_whole hx hp
    rw [hv] at hs
    cases hs

theorem clear_failsInFiles {d : Path} {f : Failure}
    (hd : (home.getD Local.usualHome).expandHome? h.home = some d)
    (hc : clear home h w = (.error f, w')) : ∃ e, f = .crash (Files.failure e) := by
  unfold clear at hc
  rw [Action.bind_of_ok (path_of_isFile ⟨d, hd, rfl⟩)] at hc
  refine Action.FailsInFiles.bind (Files.isThere_failsInFiles _) (fun there => ?_) h w f w' hc
  split
  · exact .bind (Files.change_failsInFiles _) fun _ => .pure _
  · exact .pure _

/-! ### Sequences of calls -/

inductive Call
  | save (x : Session)
  | clear
  | load

inductive Content
  | nothing
  | session (x : Session)
  | emptied

def Call.after : Call → Option Content → Option Content
  | save x, _ => some (if x.isWhole then .session x else .emptied)
  | clear, _ => some .nothing
  | load, c => c

def cell (turns : List (Timestamp × Call)) : Option Content :=
  turns.foldl (fun c turn => turn.2.after c) none

theorem saved_of_cell {turns : List (Timestamp × Call)} (hc : cell turns = some (.session x)) :
    ∃ now, (now, .save x) ∈ turns := by
  induction turns using List.reverseRecOn with
  | nil => cases hc
  | append_singleton turns turn ih =>
    obtain ⟨now, call⟩ := turn
    have hlast : cell (turns ++ [(now, call)]) = call.after (cell turns) := by
      simp [cell]
    rw [hlast] at hc
    cases call with
    | save y =>
      have hcontent : (if y.isWhole then Content.session y else .emptied) = .session x :=
        Option.some.inj hc
      split at hcontent
      · obtain rfl := Content.session.inj hcontent
        exact ⟨now, by simp⟩
      · cases hcontent
    | clear => cases hc
    | load =>
      obtain ⟨before, hm⟩ := ih hc
      exact ⟨before, List.mem_append_left _ hm⟩

/-- Calls on one home, each at a time of its own, of which every file operation succeeds. -/
inductive Runs (home : Option Path) (h : Host) : List (Timestamp × Call) → World → World → Prop
  | nil (w : World) : Runs home h [] w w
  | save {x : Session} {now : Timestamp} {rest : List (Timestamp × Call)} {w w' : World}
      (prepared : (((prepare home).atTime now) h w).1.isOk = true)
      (onward : Runs home h rest (((save x home).atTime now) h w).2 w') :
      Runs home h ((now, .save x) :: rest) w w'
  | clear {now : Timestamp} {rest : List (Timestamp × Call)} {w w' : World}
      (returned : (((clear home).atTime now) h w).1.isOk = true)
      (onward : Runs home h rest (((clear home).atTime now) h w).2 w') :
      Runs home h ((now, .clear) :: rest) w w'
  | load {now : Timestamp} {rest : List (Timestamp × Call)} {w w' : World}
      (onward : Runs home h rest (((load home).atTime now) h w).2 w') :
      Runs home h ((now, .load) :: rest) w w'

def Shows (h : Host) (home : Option Path) (t : Tree) : Option Content → Prop
  | none => True
  | some .nothing => ∃ p, Local.IsFile h home fileName p ∧ t.probe h.workDirectory p = .ok none
  | some (.session x) => x.isWhole = true ∧ ∃ p l, Local.IsFile h home fileName p ∧
      t.find h.workDirectory p = .ok (l, .file 0o600 (Text.Utf8.encode x.storedText))
  | some .emptied => ∃ p l, Local.IsFile h home fileName p ∧
      t.find h.workDirectory p = .ok (l, .file 0o600 [])

theorem load_atTime_world (now : Timestamp) : (((load home).atTime now) h w).2 = w :=
  load_leaves (f := id) home _ w

theorem Runs.loading {now : Timestamp} {rest : List (Timestamp × Call)}
    (onward : Runs home h rest w w') : Runs home h ((now, .load) :: rest) w w' :=
  .load (by rwa [load_atTime_world])

theorem shows_of_save (x : Session) (hp : (prepare home h w).1.isOk = true) :
    Shows h home (save x home h w).2.files
      (some (if x.isWhole then .session x else .emptied)) := by
  obtain ⟨p, hp⟩ := Action.exists_of_isOk hp
  obtain ⟨hfile, d, l, -, -, hempty⟩ := prepare_of_ok hp
  cases hx : x.isWhole with
  | true =>
    obtain ⟨u, hu, d', l', -, -, hfind⟩ := save_of_whole hx hp
    rw [hu, if_pos rfl]
    exact ⟨hx, p, _, hfile, hfind⟩
  | false =>
    rw [save_of_halved hx hp, if_neg Bool.false_ne_true]
    exact ⟨p, _, hfile, hempty⟩

theorem shows_of_runs {turns : List (Timestamp × Call)} (hr : Runs home h turns w w')
    {c : Option Content} (hc : Shows h home w.files c) :
    Shows h home w'.files (turns.foldl (fun c turn => turn.2.after c) c) := by
  -- a save and a clear make the cell known whatever was there; a load leaves all as it is
  induction hr generalizing c with
  | nil => exact hc
  | @save x now _ _ _ prepared _ ih =>
    exact ih (shows_of_save (h := { h with now := now }) x prepared)
  | clear returned _ ih =>
    obtain ⟨b, hc⟩ := Action.exists_of_isOk returned
    obtain ⟨p, hp, hnone, -⟩ := clear_of_ok hc
    exact ih ⟨p, hp, hnone⟩
  | load _ ih =>
    rw [load_atTime_world] at ih
    exact ih hc

def answer (now : Timestamp) : Content → Except Failure Session
  | .nothing => .error (.fault (.of .auth "Not logged in."))
  | .session x => judged now x
  | .emptied => .error (.fault (corrupted .notJson))

theorem load_of_shows {c : Content} (hnow : h.now.offset ≠ none)
    (hc : Shows h home w.files (some c)) (hx : ∀ x, c = .session x → x.IsAccepted) :
    load home h w = (answer h.now c, w) := by
  cases c with
  | nothing =>
    obtain ⟨p, hp, hnone⟩ := hc
    unfold load
    rw [Action.bind_of_ok (path_of_isFile hp), Action.bind_of_ok (Files.isThere_of_probe hnone)]
    rfl
  | session x =>
    obtain ⟨hwhole, p, l, hp, hfile⟩ := hc
    have htext := Files.readText_of_find hfile
    rw [Session.unifyBreaks_storedText hwhole] at htext
    exact load_of_decoded hp (Files.isThere_of_probe (Tree.probe_of_find hfile)) htext hnow
      (decode_storedText (hx x rfl) hwhole)
  | emptied =>
    obtain ⟨p, l, hp, hfile⟩ := hc
    have htext := Files.readText_of_find (s := "") hfile
    exact load_of_error hp (Files.isThere_of_probe (Tree.probe_of_find hfile)) htext rfl

/-- The credentials of a home are one cell. A save of a session of characters makes it hold the
session and nothing else, in a private file in a private directory; a clear empties it and tells
whether a file was there; a load gives what it holds, unless that is expired, and changes nothing. A
session with half of a surrogate pair in it is not saved, and what was held before is lost: the file
is empty then, and a load tells that it is corrupted. Any other save or clear that does not return
has failed in a file operation. -/
theorem credentials_are_one_cell (home : Option Path) (h : Host) :
    (∀ turns w w' c, Runs home h turns w w' → cell turns = some c →
      (∀ now x, (now, Call.save x) ∈ turns → x.IsAccepted) →
      ∀ now, now.offset ≠ none → (load home).atTime now h w' = (answer now c, w')) ∧
    (∀ now w, ((load home).atTime now h w).2 = w) ∧
    (∀ now w b w', (clear home).atTime now h w = (.ok b, w') →
      ∃ p, Local.IsFile h home fileName p ∧ w'.files.probe h.workDirectory p = .ok none ∧
        (b = true ↔ ∃ l mode data, w.files.find h.workDirectory p = .ok (l, .file mode data))) ∧
    (∀ now x w p w', (save x home).atTime now h w = (.ok p, w') →
      x.isWhole = true ∧ Local.IsFile h home fileName p ∧
        HasFile h home w'.files p (Text.Utf8.encode x.storedText)) ∧
    (∀ now x w p u, (prepare home).atTime now h w = (.ok p, u) →
      (x.isWhole = true → ((save x home).atTime now h w).1 = .ok p) ∧
      (x.isWhole = false → (save x home).atTime now h w = (.error (.crash .unwritable), u) ∧
        HasFile h home u.files p [])) ∧
    (∀ d, (home.getD Local.usualHome).expandHome? h.home = some d →
      (∀ now x w f w', x.isWhole = true → (save x home).atTime now h w = (.error f, w') →
        ∃ e, f = .crash (Files.failure e)) ∧
      (∀ now w f w', (clear home).atTime now h w = (.error f, w') →
        ∃ e, f = .crash (Files.failure e))) := by
  refine ⟨?_, ?_, ?_, ?_, ?_, ?_⟩
  · intro turns w w' c hruns hcell haccepted now hnow
    have hshows := shows_of_runs hruns (c := none) trivial
    change Shows h home w'.files (cell turns) at hshows
    rw [hcell] at hshows
    refine load_of_shows (h := { h with now := now }) hnow hshows fun x hx => ?_
    subst hx
    obtain ⟨saved, hsaved⟩ := saved_of_cell hcell
    exact haccepted saved x hsaved
  · exact fun now w => load_atTime_world now
  · exact fun now w b w' hc => clear_of_ok (h := { h with now := now }) hc
  · exact fun now x w p w' hs => save_of_ok (h := { h with now := now }) hs
  · intro now x w p u hp
    refine ⟨fun hx => ?_, fun hx => ?_⟩
    · obtain ⟨v, hv, -⟩ := save_of_whole (h := { h with now := now }) hx hp
      exact congrArg Prod.fst hv
    · exact ⟨save_of_halved (h := { h with now := now }) hx hp,
        (prepare_of_ok (h := { h with now := now }) hp).2⟩
  · intro d hd
    exact ⟨fun now x w f w' hx hs => save_failsInFiles (h := { h with now := now }) hd hx hs,
      fun now w f w' hc => clear_failsInFiles (h := { h with now := now }) hd hc⟩

/-! A long session, cleared, one that cannot be saved, and a short one in its place. -/

def longSession : Session :=
  ⟨.whole "\"quoted\"\\\n\r\t\x00é😀", .whole "user", some (.whole "a@b.c"),
    some ⟨⟨2024, 2, 29⟩, 5, 30, 0, 500000, some 19800⟩⟩

def shortSession : Session :=
  ⟨.whole "t", .whole "u", none, some ⟨⟨2024, 6, 1⟩, 0, 0, 0, 0, none⟩⟩

def halvedSession : Session := ⟨.halved [0xD800], .whole "u", none, none⟩

theorem isAccepted_longSession : longSession.IsAccepted :=
  ⟨[("access_token", longSession.token.toJson), ("user_id", .text "user"),
    ("email", .text "a@b.c"), ("expires_at", .text "2024-02-29 05:30:00.5+0530")], rfl⟩

theorem isAccepted_shortSession : shortSession.IsAccepted :=
  ⟨[("access_token", .text "t"), ("user_id", .text "u"), ("expires_at", .text "2024-06-01")], rfl⟩

theorem isAccepted_halvedSession : halvedSession.IsAccepted :=
  ⟨[("access_token", .halfText [0xD800]), ("user_id", .text "u")], rfl⟩

def turns (now : Timestamp) : List (Timestamp × Call) :=
  [(now, .save longSession), (now, .load), (now, .clear), (now, .save halvedSession),
    (now, .save shortSession)]

theorem short_session_is_loaded : ∃ w', Runs none Desk.host (turns Desk.host.now) Desk.world w' ∧
    ∀ now, now.offset ≠ none →
      (load none).atTime now Desk.host w' = (answer now (.session shortSession), w') := by
  have hruns : Runs none Desk.host (turns Desk.host.now) Desk.world _ :=
    .save (by decide +kernel) (.loading (.clear (by decide +kernel) (.save (by decide +kernel)
      (.save (by decide +kernel) (.nil _)))))
  refine ⟨_, hruns, ?_⟩
  refine (credentials_are_one_cell none Desk.host).1 _ _ _ _ hruns rfl ?_
  intro now x hx
  simp only [turns, List.mem_cons, Prod.mk.injEq, Call.save.injEq, List.not_mem_nil, or_false,
    reduceCtorEq, and_false, false_or] at hx
  rcases hx with ⟨-, rfl⟩ | ⟨-, rfl⟩ | ⟨-, rfl⟩
  · exact isAccepted_longSession
  · exact isAccepted_halvedSession
  · exact isAccepted_shortSession

/-- A session that never ends is not kept, and the one that was kept before it is lost. -/
theorem halved_session_is_lost : ∃ w',
    Runs none Desk.host [(Desk.host.now, .save shortSession), (Desk.host.now, .save halvedSession)]
      Desk.world w' ∧
    halvedSession.IsAccepted ∧ (∀ now, halvedSession.isOver now = false) ∧
    load none Desk.host w' = (.error (.fault (corrupted .notJson)), w') := by
  have hruns : Runs none Desk.host
      [(Desk.host.now, .save shortSession), (Desk.host.now, .save halvedSession)] Desk.world _ :=
    .save (by decide +kernel) (.save (by decide +kernel) (.nil _))
  have hshows : Shows Desk.host none _ (some .emptied) := shows_of_runs (c := none) hruns trivial
  exact ⟨_, hruns, isAccepted_halvedSession, fun _ => rfl,
    load_of_shows (by decide) hshows (fun _ hx => nomatch hx)⟩

end Credentials

end TeamVault
