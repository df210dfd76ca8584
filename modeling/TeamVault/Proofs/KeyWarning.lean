import TeamVault.Proofs.KeyRing
import TeamVault.Proofs.Reports
import TeamVault.Proofs.SessionGate

/-!
The warning that the local key does not match. A key file may hold several pairs, and the warning
goes by the first of them alone: it is never missing where no pair is the registered one, but it
also comes where the registered pair stands behind another.
-/
namespace TeamVault

/-! ### Keys that a file records -/

namespace KeyFile

variable {text : String} {saves : List (Timestamp × Keypair)}

def keyOf (line : String) : String :=
  Text.trim (String.ofList (line.toList.drop publicKeyMark.length))

def recordedKeys (text : String) : List String :=
  ((Text.splitLines text).filter isMarked).map keyOf

theorem head?_recordedKeys (text : String) : (recordedKeys text).head? = firstPublicKey? text := by
  rw [recordedKeys, List.head?_map, List.head?_filter]
  rfl

theorem keyOf_publicKey {k : Keypair} (hk : k.IsWhole) :
    keyOf (publicKeyMark ++ k.publicKey) = k.publicKey := by
  have hmark : publicKeyMark.toList.length = publicKeyMark.length := String.length_toList
  rw [keyOf, String.toList_append, List.drop_left' hmark, String.ofList_toList, Text.trim,
    hk.publicKey.1, String.ofList_toList]

theorem not_isMarked_secret {k : Keypair} (hk : k.IsWhole) : isMarked k.privateKey = false := by
  obtain ⟨rest, hrest⟩ :=
    List.isPrefixOf_iff_prefix.1 (hk.secret.resolve_left hk.hasPrivate)
  have hkey : k.privateKey = Keypair.secretKeyStart ++ String.ofList rest := by
    rw [← String.toList_inj, String.toList_append, String.toList_ofList, hrest]
  obtain ⟨more, hmore⟩ := isMarked_append Keypair.secretKeyStart (String.ofList rest)
    (List.all_iff_forall_prop.1 (by decide))
  rw [hkey, hmore]
  rfl

theorem marked_of_isBlock {s : Timestamp × Keypair} {block : List String} (hs : s.2.IsWhole)
    (hb : IsBlock s block) : (block.filter isMarked).map keyOf = [s.2.publicKey] := by
  obtain ⟨gap, hgap, rfl⟩ := hb
  have hnone : gap.filter isMarked = [] := by
    rcases hgap with rfl | rfl <;> rfl
  rw [List.filter_append, hnone, List.nil_append, entryLines,
    List.filter_cons_of_neg (by simp [isMarked_created]),
    List.filter_cons_of_pos (isMarked_publicKey _),
    List.filter_cons_of_neg (by simp [not_isMarked_secret hs]), List.filter_nil, List.map_singleton,
    keyOf_publicKey hs]

theorem recordedKeys_grown (hs : ∀ s ∈ saves, s.2.IsWhole) (ht : '\r' ∉ text.toList) :
    recordedKeys (grown text saves) = recordedKeys text ++ saves.map fun s => s.2.publicKey := by
  obtain ⟨blocks, hblocks, hlines⟩ := splitLines_grown hs ht
  have hkeys : (blocks.flatten.filter isMarked).map keyOf = saves.map fun s => s.2.publicKey := by
    clear hlines
    induction hblocks with
    | nil => rfl
    | cons hb _ ih =>
      rw [List.flatten_cons, List.filter_append, List.map_append, List.map_cons,
        marked_of_isBlock (hs _ List.mem_cons_self) hb,
        ih fun x hx => hs x (List.mem_cons_of_mem _ hx)]
      rfl
  rw [recordedKeys, hlines, List.filter_append, List.map_append, hkeys]
  rfl

/-- A file that pairs of the generator were saved to, one after another, with whatever else was done
in between. -/
inductive IsBuilt (p : Path) (initial : String) : Location → Tree → List Keypair → Prop
  | first {given : Path} {k : Keypair} {h : Host} {w w' : World}
      (path : given.expandHome? h.home = some p)
      (starts : Starts h.workDirectory w.files p initial) (told : k.IsGiven)
      (saved : save k given h w = (.ok p, w')) : IsBuilt p initial h.workDirectory w'.files [k]
  | next {given : Path} {k : Keypair} {ks : List Keypair} {h : Host} {w w' : World}
      (before : IsBuilt p initial h.workDirectory w.files ks)
      (path : given.expandHome? h.home = some p) (told : k.IsGiven)
      (saved : save k given h w = (.ok p, w')) :
      IsBuilt p initial h.workDirectory w'.files (ks ++ [k])
  | kept {here there : Location} {t u : Tree} {ks : List Keypair}
      (before : IsBuilt p initial here t ks) (same : u.find there p = t.find here p) :
      IsBuilt p initial there u ks

theorem IsBuilt.stored {p : Path} {initial : String} {here : Location} {t : Tree}
    {ks : List Keypair} (hb : IsBuilt p initial here t ks) :
    ∃ saves : List (Timestamp × Keypair), saves.map Prod.snd = ks ∧ (∀ s ∈ saves, s.2.IsWhole) ∧
      IsStored here t p (grown (Text.unifyBreaks initial) saves) := by
  induction hb with
  | @first given k h w w' path starts told saved =>
    obtain ⟨u, hu, hstored⟩ | ⟨-, e, u, hu⟩ := starts.save (k := k) path
    · obtain rfl : u = w' := congrArg Prod.snd (hu.symm.trans saved)
      exact ⟨[(h.now, k)], rfl, by simpa using told.isWhole, hstored⟩
    · cases hu.symm.trans saved
  | @next given k ks h w w' _ path told saved ih =>
    obtain ⟨saves, rfl, hwhole, hstored⟩ := ih
    obtain ⟨u, hu, hlater⟩ := save_of_contains (k := k) path hstored.contains
    obtain rfl : u = w' := congrArg Prod.snd (hu.symm.trans saved)
    rw [Text.unifyBreaks_of_not_mem (cr_not_mem_grown hwhole (Text.cr_not_mem_unifyBreaks initial)),
      ← grown_concat _ saves (h.now, k)] at hlater
    refine ⟨saves ++ [(h.now, k)], by simp, fun s hs => ?_, hlater⟩
    rcases List.mem_append.1 hs with hs | hs
    · exact hwhole s hs
    · rw [List.mem_singleton.1 hs]
      exact told.isWhole
  | kept _ same ih =>
    obtain ⟨saves, hsaves, hwhole, l, hl⟩ := ih
    exact ⟨saves, hsaves, hwhole, l, same.trans hl⟩

def builtKeys (initial : String) (ks : List Keypair) : List String :=
  recordedKeys initial ++ ks.map Keypair.publicKey

theorem IsBuilt.records {p : Path} {initial : String} {h : Host} {w : World} {ks : List Keypair}
    (hb : IsBuilt p initial h.workDirectory w.files ks) :
    ∃ text, Files.readText p h w = (.ok text, w) ∧
      Files.isThere p h w = (.ok true, w) ∧
      recordedKeys text = builtKeys initial ks := by
  obtain ⟨saves, rfl, hwhole, hstored⟩ := hb.stored
  have hcr := Text.cr_not_mem_unifyBreaks initial
  refine ⟨_, readText_of_isStored hstored (cr_not_mem_grown hwhole hcr),
    Files.isThere_of_contains hstored.contains, ?_⟩
  rw [recordedKeys_grown hwhole hcr, builtKeys, recordedKeys, Text.splitLines_unifyBreaks,
    List.map_map]
  rfl

theorem IsBuilt.ne_nil {p : Path} {initial : String} {here : Location} {t : Tree}
    {ks : List Keypair} (hb : IsBuilt p initial here t ks) : ks ≠ [] := by
  induction hb with
  | first => exact List.cons_ne_nil _ _
  | next => exact List.append_ne_nil_of_right_ne_nil _ (List.cons_ne_nil _ _)
  | kept _ _ ih => exact ih

theorem trim_of_mem_recordedKeys {key : String} (hk : key ∈ recordedKeys text) :
    Text.trim key = key := by
  obtain ⟨line, -, rfl⟩ := List.mem_map.1 hk
  exact Text.trim_trim _

theorem IsBuilt.trim_of_mem {p : Path} {initial key : String} {h : Host} {w : World}
    {ks : List Keypair} (hb : IsBuilt p initial h.workDirectory w.files ks)
    (hk : key ∈ builtKeys initial ks) : Text.trim key = key := by
  obtain ⟨text, -, -, hkeys⟩ := hb.records
  rw [← hkeys] at hk
  exact trim_of_mem_recordedKeys hk

theorem IsBuilt.publicKey {given p : Path} {initial : String} {h : Host} {w : World}
    {ks : List Keypair} (hp : given.expandHome? h.home = some p)
    (hb : IsBuilt p initial h.workDirectory w.files ks) :
    ∃ first, (builtKeys initial ks).head? = some first ∧
      publicKey given h w = (.ok first, w) := by
  obtain ⟨text, hread, hthere, hkeys⟩ := hb.records
  have hne : builtKeys initial ks ≠ [] := by simp [builtKeys, hb.ne_nil]
  obtain ⟨first, hfirst⟩ := Option.isSome_iff_exists.1 (List.isSome_head?.2 hne)
  have hfound : firstPublicKey? text = some first := by
    rw [← head?_recordedKeys, hkeys, hfirst]
  refine ⟨first, hfirst, ?_⟩
  unfold KeyFile.publicKey
  rw [Action.bind_of_ok (Action.expandHome_of_some hp), Action.bind_of_ok hthere, if_pos rfl,
    Action.bind_of_ok hread, hfound]
  rfl

end KeyFile

/-! ### Steps that find out -/

namespace Action

variable {α β : Type} {a : Action α} {k : α → Action β}

structure IsReading (a : Action α) : Prop where
  fst_eq : ∀ h u w, u.files = w.files → (a h u).1 = (a h w).1
  leaves : a.Leaves fun w => (w.files, w.printed)

namespace IsReading

theorem ofResult (r : Except Failure α) : (Action.ofResult r).IsReading :=
  ⟨fun _ _ _ _ => rfl, .ofResult r⟩

theorem pure (x : α) : (Pure.pure x : Action α).IsReading := ofResult (.ok x)

theorem fail (f : Failure) : (Action.fail f : Action α).IsReading := ofResult (.error f)

theorem host : Action.host.IsReading := ⟨fun _ _ _ _ => rfl, .host⟩

theorem warn (text : String) : (Action.warn text).IsReading :=
  ⟨fun _ _ _ _ => rfl, fun _ _ => rfl⟩

theorem lift (g : Host → Tree → Except FileError α) : (Files.lift g).IsReading := by
  refine ⟨fun h u w hu => ?_, Files.lift_leaves g⟩
  unfold Files.lift
  rw [hu]
  cases g h w.files <;> rfl

theorem files (ha : a.IsReading) (h : Host) (w : World) : (a h w).2.files = w.files :=
  congrArg Prod.fst (ha.leaves h w)

theorem printed (ha : a.IsReading) (h : Host) (w : World) : (a h w).2.printed = w.printed :=
  congrArg Prod.snd (ha.leaves h w)

theorem bind (ha : a.IsReading) (hk : ∀ x, (k x).IsReading) : (a >>= k).IsReading := by
  refine ⟨fun h u w hu => ?_, .bind ha.leaves fun x => (hk x).leaves⟩
  have hresult := ha.fst_eq h u w hu
  have hfiles : (a h u).2.files = (a h w).2.files := by rw [ha.files, ha.files, hu]
  rw [bind_apply, bind_apply]
  rcases hu' : a h u with ⟨r, u'⟩
  rcases hw' : a h w with ⟨r', w'⟩
  rw [hu', hw'] at hresult hfiles
  obtain rfl : r = r' := hresult
  cases r with
  | error f => rfl
  | ok x => exact (hk x).fst_eq h u' w' hfiles

theorem expandHome (p : Path) : (Action.expandHome p).IsReading := by
  refine bind host fun h => ?_
  split
  · exact pure _
  · exact ofResult _

theorem isThere (p : Path) : (Files.isThere p).IsReading := bind (lift _) fun _ => pure _

theorem readText (p : Path) : (Files.readText p).IsReading := by
  refine bind (lift _) fun bytes => ?_
  split
  · exact pure _
  · exact ofResult _

theorem again (ha : a.IsReading) {h : Host} {u w : World} {x : α} (hx : (a h w).1 = .ok x)
    (hu : u.files = w.files) :
    ∃ u', a h u = (.ok x, u') ∧ u'.files = w.files ∧ u'.printed = u.printed :=
  ⟨_, Prod.ext ((ha.fst_eq h u w hu).trans hx) rfl, (ha.files h u).trans hu, ha.printed h u⟩

end IsReading

end Action

open TeamVault.Action (IsReading)

theorem SettingsFile.load_isReading (home : Option Path) : (load home).IsReading := by
  have hrest : ∀ s : ClientSettings,
      (Action.host >>= fun h => pure (withSurroundings h.serviceUrl s)).IsReading :=
    fun s => .bind .host fun _ => .pure _
  refine .bind (.expandHome _) fun d => .bind (.isThere _) fun there => ?_
  cases there with
  | false => exact hrest _
  | true =>
    refine .bind (.readText _) fun text => ?_
    split
    · exact hrest _
    · exact .bind (.warn _) fun _ => hrest _
    · exact .fail _

theorem Credentials.load_isReading (home : Option Path) : (load home).IsReading := by
  have hpath : (path home).IsReading := .bind (.expandHome _) fun _ => .pure _
  refine .bind hpath fun p => .bind (.isThere p) fun there => ?_
  split
  · refine .bind (.readText p) fun text => ?_
    split
    · exact .fail _
    · refine .bind .host fun g => ?_
      split
      · exact .pure _
      · exact .ofResult _
      · exact .ofResult _
  · exact .ofResult _

/-! ### What stands on the screen -/

namespace Console

def screen : List String → String
  | [] => ""
  | s :: rest => (plainText? s).getD "" ++ "\n" ++ screen rest

theorem screen_append (before after : List String) :
    screen (before ++ after) = screen before ++ screen after := by
  induction before with
  | nil => simp [screen]
  | cons s rest ih => simp [screen, ih, String.append_assoc]

theorem tell_screen {lines : List String} (hs : ∀ s ∈ lines, (plainText? s).isSome) (h : Host)
    (w : World) : ∃ u, tell lines h w = (.ok (), u) ∧ u.files = w.files ∧
      u.printed = w.printed ++ screen lines := by
  induction lines generalizing w with
  | nil => exact ⟨w, rfl, rfl, String.append_empty.symm⟩
  | cons s rest ih =>
    obtain ⟨hs, hrest⟩ := List.forall_mem_cons.1 hs
    obtain ⟨t, ht⟩ := Option.isSome_iff_exists.1 hs
    have hprint : print s h w = (.ok (), { w with printed := w.printed ++ (t ++ "\n") }) :=
      Action.bind_of_ok (rendered_of_shown ht)
    obtain ⟨u, hu, hfiles, hprinted⟩ := ih hrest { w with printed := w.printed ++ (t ++ "\n") }
    refine ⟨u, (Action.bind_of_ok hprint).trans hu, hfiles, ?_⟩
    rw [hprinted, screen, ht, Option.getD_some, String.append_assoc]

end Console

/-! ### The warning -/

namespace Command.Auth

open Console (plainText?)

variable {v : Values} {h : Host} {w : World} {user : User} {file : Path} {first : String}

def facts (user : User) : List String :=
  ["", "  Email:          [bold]" ++ user.email ++ "[/]",
    "  Name:           " ++ user.name,
    "  User ID:        " ++ user.id,
    "  Age Public Key: " ++ Console.shortKey (user.publicKey.getD "") keyWidth]

def mismatch : String :=
  "  [yellow]Local age key does not match the registered key; you will not be able to decrypt.[/]"

def warning (user : User) (key : String) : List String :=
  if (filled? user.publicKey).any (· ≠ key) then [mismatch] else []

def ownSettings (v : Values) : Action ClientSettings := do
  SettingsFile.load (some (← homePath v))

def keyLines (user : User) (file : Path) : Option String → Action Unit
  | none => do
    Console.print ("  [yellow]No local age key at " ++ (← Action.expandHome file).toText ++ "[/]")
    Console.print ""
  | some key => Console.tell (warning user key ++ [""])

theorem whoami_run (v : Values) :
    whoami.run v = (client v >>= Client.currentUser) >>= fun user =>
      Console.tell (facts user) >>= fun _ => ownSettings v >>= fun s =>
        localKey? s.keyFile >>= keyLines user s.keyFile := by
  simp only [whoami, facts, ownSettings, Console.tell_cons, Console.tell_nil, bind_assoc,
    bind_pure_unit]
  refine bind_congr fun c => bind_congr fun user => ?_
  refine bind_congr fun _ => bind_congr fun _ => bind_congr fun _ => bind_congr fun _ =>
    bind_congr fun _ => bind_congr fun home => bind_congr fun s => bind_congr fun key => ?_
  cases key with
  | none => rfl
  | some key =>
    simp only [keyLines, warning]
    split <;> simp [mismatch]

theorem keyFile_eq (v : Values) :
    keyFile v = ownSettings v >>= fun s => Action.expandHome s.keyFile := by
  simp [keyFile, ownSettings]

theorem ownSettings_isReading (v : Values) : (ownSettings v).IsReading :=
  .bind (.expandHome _) fun home => SettingsFile.load_isReading (some home)

theorem client_isReading (v : Values) : (client v).IsReading := by
  refine .bind (.expandHome _) fun home => .bind (SettingsFile.load_isReading _) fun s => ?_
  exact .bind (Credentials.load_isReading _) fun x => .pure _

theorem asking_leaves (v : Values) :
    (client v >>= Client.currentUser).Leaves fun w => (w.files, w.printed) :=
  .bind (client_isReading v).leaves fun _ => .bind (fun _ _ => rfl) fun _ => .ofResult _

theorem localKey_of_publicKey (hk : KeyFile.publicKey file h w = (.ok first, w)) :
    localKey? file h w = (.ok (some first), w) := by
  unfold localKey?
  rw [Action.recover_apply, Action.bind_of_ok hk]
  rfl

theorem warning_ne_nil :
    warning user first ≠ [] ↔ ∃ key, filled? user.publicKey = some key ∧ key ≠ first := by
  unfold warning
  cases filled? user.publicKey with
  | none => simp
  | some key => by_cases hk : key = first <;> simp [hk]

theorem warning_shown : ∀ s ∈ warning user first ++ [""], (plainText? s).isSome := by
  have hlines : ∀ s ∈ [mismatch, ""], (plainText? s).isSome := by decide +kernel
  intro s hs
  refine hlines s ?_
  unfold warning at hs
  split at hs
  · exact hs
  · exact List.mem_cons_of_mem _ hs

/-- The user has a registered key, and none of the recorded keys is that one, blanks around them
apart. -/
def Mismatched (user : User) (recorded : List String) : Prop :=
  ∃ key, filled? user.publicKey = some key ∧ ∀ r ∈ recorded, Text.trim r ≠ Text.trim key

theorem Mismatched.warned {recorded : List String} (hm : Mismatched user recorded)
    (hfirst : first ∈ recorded) : warning user first ≠ [] := by
  obtain ⟨key, hkey, hnone⟩ := hm
  refine warning_ne_nil.2 ⟨key, hkey, ?_⟩
  rintro rfl
  exact hnone key hfirst rfl

/-- A warning without reason: the registered key is not the first, yet one that is recorded. -/
theorem warned_without_mismatch {recorded : List String} :
    warning user first ≠ [] ∧ ¬ Mismatched user recorded ↔
      ∃ key, filled? user.publicKey = some key ∧ key ≠ first ∧
        ∃ r ∈ recorded, Text.trim r = Text.trim key := by
  rw [warning_ne_nil]
  constructor
  · rintro ⟨⟨key, hkey, hne⟩, hm⟩
    refine ⟨key, hkey, hne, ?_⟩
    by_contra hnone
    exact hm ⟨key, hkey, fun r hr he => hnone ⟨r, hr, he⟩⟩
  · rintro ⟨key, hkey, hne, r, hr, he⟩
    refine ⟨⟨key, hkey, hne⟩, ?_⟩
    rintro ⟨key', hkey', hnone⟩
    obtain rfl : key' = key := Option.some.inj (hkey'.symm.trans hkey)
    exact hnone r hr he

theorem whoami_of_shown {key : String} {w₁ w₂ : World} {s : ClientSettings}
    (hanswer : (client v >>= Client.currentUser) h w = (.ok user, w₁))
    (hs : ownSettings v h w = (.ok s, w₂))
    (hkey : ∀ u : World, u.files = w.files → KeyFile.publicKey s.keyFile h u = (.ok key, u))
    (hshown : ∀ l ∈ facts user, (plainText? l).isSome) :
    ∃ u, whoami.run v h w = (.ok (), u) ∧
      u.printed = w.printed ++ Console.screen (facts user ++ warning user key ++ [""]) := by
  have hkept := asking_leaves v h w
  rw [hanswer] at hkept
  obtain ⟨hfiles, hprinted⟩ := Prod.mk.inj hkept
  obtain ⟨v₁, htold, hvfiles, hvprinted⟩ := Console.tell_screen hshown h w₁
  -- The settings are read a second time, and the files are what they were.
  obtain ⟨u, hagain, hufiles, huprinted⟩ :=
    (ownSettings_isReading v).again (congrArg Prod.fst hs) (hvfiles.trans hfiles)
  have hlines : ∀ l ∈ warning user key ++ [""], (plainText? l).isSome := warning_shown
  obtain ⟨u', hend, -, hprinted'⟩ := Console.tell_screen hlines h u
  refine ⟨u', ?_, ?_⟩
  · rw [whoami_run, Action.bind_of_ok hanswer, Action.bind_of_ok htold, Action.bind_of_ok hagain,
      Action.bind_of_ok (localKey_of_publicKey (hkey u hufiles)), keyLines]
    exact hend
  · rw [hprinted', huprinted, hvprinted, hprinted, List.append_assoc,
      Console.screen_append _ (_ ++ _), String.append_assoc]

theorem whoami_of_unshown {w₁ : World}
    (hanswer : (client v >>= Client.currentUser) h w = (.ok user, w₁))
    (hunshown : ∃ l ∈ facts user, plainText? l = none) :
    (whoami.run v h w).1 = .error (.crash .markup) := by
  obtain ⟨u, htold, -⟩ := Console.tell_of_unshown (h := h) (w := w₁) hunshown
  rw [whoami_run, Action.bind_of_ok hanswer, Action.bind_of_error htold]

theorem warned_iff_mismatched {recorded : List String} (hfirst : first ∈ recorded)
    (hall : ∀ r ∈ recorded, r = first) (htrim : Text.trim first = first)
    (hkey : ∀ key, user.publicKey = some key → Text.trim key = key) :
    warning user first ≠ [] ↔ Mismatched user recorded := by
  refine ⟨fun hw => ?_, fun hm => hm.warned hfirst⟩
  obtain ⟨key, hkeyed, hne⟩ := warning_ne_nil.1 hw
  refine ⟨key, hkeyed, fun r hr he => hne ?_⟩
  rw [hall r hr, htrim, hkey key (Option.filter_eq_some_iff.1 hkeyed).1] at he
  exact he.symm

/-- Of a key file that pairs were saved to, the warning sees the first key alone. It comes with
every user whose registered key is none of the recorded ones, but also where the registered key
stands behind another one, or has blanks around it. It tells the truth where all recorded keys are
one and the registered key is trimmed. -/
theorem warning_goes_by_first_key {p : Path} {initial : String} {ks : List Keypair} {w₁ : World}
    (hanswer : (client v >>= Client.currentUser) h w = (.ok user, w₁))
    (hfile : (keyFile v h w).1 = .ok p)
    (hbuilt : KeyFile.IsBuilt p initial h.workDirectory w.files ks) :
    ∃ first, (KeyFile.builtKeys initial ks).head? = some first ∧
      ((∃ l ∈ facts user, plainText? l = none) →
        (whoami.run v h w).1 = .error (.crash .markup)) ∧
      ((∀ l ∈ facts user, (plainText? l).isSome) → ∃ u, whoami.run v h w = (.ok (), u) ∧
        u.printed = w.printed ++ Console.screen (facts user ++ warning user first ++ [""])) ∧
      (warning user first ≠ [] ↔
        ∃ key, filled? user.publicKey = some key ∧ key ≠ first) ∧
      (Mismatched user (KeyFile.builtKeys initial ks) → warning user first ≠ []) ∧
      (warning user first ≠ [] ∧ ¬ Mismatched user (KeyFile.builtKeys initial ks) ↔
        ∃ key, filled? user.publicKey = some key ∧ key ≠ first ∧
          ∃ r ∈ KeyFile.builtKeys initial ks, Text.trim r = Text.trim key) ∧
      ((∀ r ∈ KeyFile.builtKeys initial ks, r = first) →
        (∀ key, user.publicKey = some key → Text.trim key = key) →
        (warning user first ≠ [] ↔ Mismatched user (KeyFile.builtKeys initial ks))) := by
  obtain ⟨q, hq⟩ : ∃ q, keyFile v h w = (.ok p, q) := ⟨_, Prod.ext hfile rfl⟩
  rw [keyFile_eq] at hq
  obtain ⟨s, w₂, hs, hexpand⟩ := Action.ok_of_bind hq
  obtain ⟨hp, -⟩ := Action.expandHome_of_ok hexpand
  obtain ⟨first, hfirst, -⟩ := hbuilt.publicKey hp
  have hkey : ∀ u : World, u.files = w.files →
      KeyFile.publicKey s.keyFile h u = (.ok first, u) := by
    intro u hu
    rw [← hu] at hbuilt
    obtain ⟨key, hhead, hread⟩ := hbuilt.publicKey hp
    obtain rfl : key = first := Option.some.inj (hhead.symm.trans hfirst)
    exact hread
  have hmem : first ∈ KeyFile.builtKeys initial ks := List.mem_of_head? hfirst
  exact ⟨first, hfirst, whoami_of_unshown hanswer, whoami_of_shown hanswer hs hkey,
    warning_ne_nil, fun hm => hm.warned hmem, warned_without_mismatch, fun hall htrim =>
    warned_iff_mismatched hmem hall (hbuilt.trim_of_mem hmem) htrim⟩

end Command.Auth

/-! Two pairs in one file: the registered key is that of the later one. -/

theorem Action.eq_of_toOption {α : Type} {a : Action α} {h : Host} {w : World} {x : α}
    (hx : (a h w).1.toOption = some x) : a h w = (.ok x, (a h w).2) := by
  rcases hr : a h w with ⟨f | y, u⟩
  · rw [hr] at hx
    cases hx
  · rw [hr] at hx
    cases hx
    rfl

namespace Renewed

open Command (keyFile)
open Command.Auth (whoami facts warning ownSettings Mismatched whoami_of_shown
  warning_goes_by_first_key)
open KeyFile (IsBuilt IsAbsent isGiven_of_mem_pairs)

def older : Keypair := ⟨"age1a", "AGE-SECRET-KEY-1A"⟩

def newer : Keypair := ⟨"age1b", "AGE-SECRET-KEY-1B"⟩

def user : User := ⟨"u", "e", "n", some "age1b", none⟩

def answer : String :=
  "\x7b\"id\":\"u\",\"email\":\"e\",\"name\":\"n\",\"age_public_key\":\"age1b\"\x7d"

def host : Host := { Desk.host with respond := fun _ _ => Sample.saying answer }

def given : Path := ClientSettings.default.keyFile

def keys : Path := ⟨.root, Twins.keys⟩

def once : World := (KeyFile.save older given host (Twins.world "A=1")).2

def twice : World := (KeyFile.save newer given host once).2

theorem expand_given : given.expandHome? host.home = some keys := by decide +kernel

theorem isBuilt : IsBuilt keys "" host.workDirectory twice.files [older, newer] := by
  have hprobe : ((Twins.world "A=1").files.makeDirectories host.workDirectory
      keys.parent).1.probe host.workDirectory keys = .ok none := by decide +kernel
  have hmissing : IsAbsent host.workDirectory (Twins.world "A=1").files keys := by
    intro n hn
    rw [hprobe] at hn
    cases hn
  have hfirst : IsBuilt keys "" host.workDirectory once.files [older] :=
    .first expand_given (.absent hmissing) (isGiven_of_mem_pairs _ List.mem_cons_self)
      (Action.eq_of_toOption (by decide +kernel))
  exact .next hfirst expand_given
    (isGiven_of_mem_pairs _ (List.mem_cons_of_mem _ List.mem_cons_self))
    (Action.eq_of_toOption (by decide +kernel))

theorem answered : ∃ w₁, (Command.client Twins.values >>= Client.currentUser) host twice =
    (.ok user, w₁) :=
  ⟨_, Action.eq_of_toOption (by decide +kernel)⟩

theorem settings_eq : ∃ w₁, ownSettings Twins.values host twice = (.ok .default, w₁) :=
  ⟨_, Action.eq_of_toOption (by decide +kernel)⟩

theorem keyFile_eq : (keyFile Twins.values host twice).1 = .ok keys := by
  obtain ⟨w₁, hsettings⟩ := settings_eq
  rw [Command.Auth.keyFile_eq, Action.bind_of_ok hsettings]
  exact congrArg Prod.fst (Action.expandHome_of_some expand_given)

def told : String :=
  "\n  Email:          e\n  Name:           n\n  User ID:        u\n" ++
    "  Age Public Key: age1b\n  Local age key does not match the registered key; " ++
    "you will not be able to decrypt.\n\n"

theorem told_eq :
    twice.printed ++ Console.screen (facts user ++ warning user "age1a" ++ [""]) = told := by
  decide +kernel

theorem facts_shown : ∀ l ∈ facts user, (Console.plainText? l).isSome := by decide +kernel

theorem later_key_is_warned_of :
    ∃ u, whoami.run Twins.values host twice = (.ok (), u) ∧ u.printed = told := by
  obtain ⟨w₁, hanswer⟩ := answered
  obtain ⟨first, hfirst, -, hrun, -⟩ := warning_goes_by_first_key hanswer keyFile_eq isBuilt
  obtain rfl : "age1a" = first := Option.some.inj hfirst
  obtain ⟨u, hu, hprinted⟩ := hrun facts_shown
  exact ⟨u, hu, hprinted.trans told_eq⟩

theorem warned_though_recorded :
    IsBuilt keys "" host.workDirectory twice.files [older, newer] ∧
      (keyFile Twins.values host twice).1 = .ok keys ∧
      (∃ w₁, (Command.client Twins.values >>= Client.currentUser) host twice = (.ok user, w₁)) ∧
      ¬ Mismatched user (KeyFile.builtKeys "" [older, newer]) ∧
      ∃ u, whoami.run Twins.values host twice = (.ok (), u) ∧
        "Local age key does not match the registered key; you will not be able to decrypt." ∈
          Console.lines u.printed := by
  refine ⟨isBuilt, keyFile_eq, answered, ?_, ?_⟩
  · rintro ⟨key, hkey, hnone⟩
    obtain rfl : "age1b" = key := Option.some.inj hkey
    exact hnone "age1b" (by decide) rfl
  · obtain ⟨w₁, hanswer⟩ := answered
    obtain ⟨w₂, hsettings⟩ := settings_eq
    have hkey : ∀ u : World, u.files = twice.files →
        KeyFile.publicKey given host u = (.ok "age1a", u) := by
      intro u hu
      obtain ⟨first, hfirst, hread⟩ :=
        KeyFile.IsBuilt.publicKey (w := u) expand_given (hu ▸ isBuilt)
      obtain rfl : "age1a" = first := Option.some.inj hfirst
      exact hread
    obtain ⟨u, hu, hprinted⟩ := whoami_of_shown hanswer hsettings hkey facts_shown
    refine ⟨u, hu, ?_⟩
    rw [hprinted, told_eq]
    decide +kernel

end Renewed

end TeamVault
