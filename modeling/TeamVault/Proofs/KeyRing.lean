import TeamVault.Proofs.FileSteps
import TeamVault.Proofs.KeyLines
import TeamVault.Proofs.NothingStored

/-!
Saving keys one after another. Whatever text the file has, a save keeps all of its lines and adds
those of its entry. A file that is there is always saved to; where none is there, its directory may
not be possible to make.
-/
namespace TeamVault

/-! ### Files that are not there -/

namespace Tree

variable {t u : Tree} {here spot l k : Location} {n : Node} {p : Path}

theorem Keeps.find (hk : t.Keeps u) (hf : t.find here p = .ok (l, n)) :
    u.find here p = .ok (l, n) := by
  obtain ⟨hl, hn⟩ := locate_of_find hf
  have hd : KeepsDirectories t u := fun k ⟨m, hm⟩ => ⟨m, hk k _ hm⟩
  exact find_of_locate (locate_mono hd hl) (hk l n hn)

theorem node?_makeAlong {names : List String} (hl : spot.length + names.length < l.length) :
    (t.makeAlong spot names).1.node? l = t.node? l := by
  induction names generalizing t spot with
  | nil => rfl
  | cons name rest ih =>
    rw [List.length_cons] at hl
    rw [makeAlong]
    cases checkName name with
    | error e => rfl
    | ok _ =>
      dsimp only
      generalize hnext : (if name = ".." then spot.dropLast else spot ++ [name]) = next
      have hlength : next.length ≤ spot.length + 1 := by
        rw [← hnext]
        split <;> simp
        omega
      cases t.node? next with
      | none =>
        have hne : l ≠ next := by
          rintro rfl
          omega
        dsimp only
        rw [ih (by omega), node?_put, if_neg hne]
      | some m =>
        cases m with
        | file => rfl
        | directory => exact ih (by omega)

theorem node?_makeDirectories_parent (t : Tree) (here : Location) (p : Path) :
    (t.makeDirectories here p.parent).1.node? (start here p ++ p.names) =
      t.node? (start here p ++ p.names) := by
  rcases List.eq_nil_or_concat' p.names with hnames | ⟨before, name, hnames⟩
  · have hsame : (t.makeDirectories here p.parent).1 = t := by
      simp [makeDirectories, Path.parent, hnames, makeAlong]
    rw [hsame]
  · have hparent : p.parent.names = before := by simp [Path.parent, hnames]
    unfold makeDirectories
    split
    · rfl
    · refine node?_makeAlong ?_
      have hstart : start here p.parent = start here p := rfl
      rw [hstart, hparent, hnames, List.length_append, List.length_append]
      exact Nat.lt_succ_self _

theorem eq_append_of_walk {names : List String} (hd : ".." ∉ names)
    (hw : t.walk spot names = .ok l) : l = spot ++ names := by
  induction names generalizing spot with
  | nil =>
    cases hw
    simp
  | cons name rest ih =>
    obtain ⟨-, -, hnext⟩ := ok_of_walk_cons hw
    rw [List.mem_cons, not_or] at hd
    rw [if_neg (Ne.symm hd.1)] at hnext
    simpa using ih hd.2 hnext

theorem Sound.walk_of_node (hs : t.Sound here) {names : List String} (hd : ".." ∉ names)
    (hn : t.node? (spot ++ names) = some n) (hu : u.walk spot names = .ok l) :
    t.walk spot names = .ok (spot ++ names) := by
  induction names generalizing spot with
  | nil => simp [walk]
  | cons name rest ih =>
    obtain ⟨-, hc, hnext⟩ := ok_of_walk_cons hu
    rw [List.mem_cons, not_or] at hd
    rw [if_neg (Ne.symm hd.1)] at hnext
    rw [walk_cons (hs.above hn (List.cons_ne_nil _ _)), hc, if_neg (Ne.symm hd.1)]
    have hrest : spot ++ name :: rest = spot ++ [name] ++ rest := by simp
    rw [hrest] at hn ⊢
    exact ih hd.2 hn hnext

end Tree

namespace KeyFile

variable {given p : Path} {k : Keypair} {h : Host} {w w' : World} {initial : String}

/-- No file is there, not even once the directory of the path is made. -/
def IsAbsent (here : Location) (t : Tree) (p : Path) : Prop :=
  ∀ n, (t.makeDirectories here p.parent).1.probe here p ≠ .ok (some n)

theorem isAbsent_of_probe {t : Tree} {here : Location} (hs : t.Sound here) (hd : ".." ∉ p.names)
    (hp : t.probe here p = .ok none) : IsAbsent here t p := by
  intro n hmade
  obtain ⟨l, hf⟩ := Tree.probe_eq_some hmade
  obtain ⟨hl, hn⟩ := Tree.locate_of_find hf
  unfold Tree.locate at hl
  split at hl
  · cases hl
  next hnul =>
    obtain rfl := Tree.eq_append_of_walk hd hl
    -- What is there now was there before, since only directories above it were made.
    rw [Tree.node?_makeDirectories_parent] at hn
    have hlocate : t.locate here p = .ok (Tree.start here p ++ p.names) := by
      unfold Tree.locate
      rw [if_neg hnul]
      exact hs.walk_of_node hd hn hl
    rw [Tree.probe_of_find (Tree.find_of_locate hlocate hn)] at hp
    cases hp

/-! ### Saving -/

inductive Starts (here : Location) (t : Tree) (p : Path) : String → Prop
  | file {text : String} (there : Files.Contains here t p (Text.Utf8.encode text)) :
    Starts here t p text
  | absent (missing : IsAbsent here t p) : Starts here t p ""

def IsStored (here : Location) (t : Tree) (p : Path) (text : String) : Prop :=
  ∃ l, t.find here p = .ok (l, .file 0o600 (Text.Utf8.encode text))

theorem IsStored.contains {here : Location} {t : Tree} {text : String}
    (hs : IsStored here t p text) : Files.Contains here t p (Text.Utf8.encode text) := by
  obtain ⟨l, hf⟩ := hs
  exact ⟨l, 0o600, hf⟩

theorem not_isAbsent_of_contains {here : Location} {t : Tree} {bytes : Bytes}
    (hc : Files.Contains here t p bytes) : ¬ IsAbsent here t p := by
  intro ha
  obtain ⟨l, mode, hf⟩ := hc
  refine ha (.file mode bytes) ?_
  rw [(Tree.makeDirectories_parent_of_find hf).1]
  exact Tree.probe_of_find hf

theorem save_of_contains (hp : given.expandHome? h.home = some p) {text : String}
    (hc : Files.Contains h.workDirectory w.files p (Text.Utf8.encode text)) :
    ∃ w', save k given h w = (.ok p, w') ∧
      IsStored h.workDirectory w'.files p (withEntry (Text.unifyBreaks text) (entry h.now k)) := by
  obtain ⟨l, mode, hf⟩ := hc
  obtain ⟨hmade, q, m, hparent⟩ := Tree.makeDirectories_parent_of_find hf
  have hu := Tree.setMode_of_find hparent 0o700
  generalize w.files.put q (m.withMode 0o700) = u at hu
  obtain ⟨new, hprivate⟩ := Tree.find_setMode hu hf
  have hv := Tree.write_of_find hprivate 0o600
    (Text.Utf8.encode (withEntry (Text.unifyBreaks text) (entry h.now k)))
  obtain ⟨spot, hfind⟩ := Tree.find_write hv
  have hmake : Files.makeDirectories p.parent h w = (.ok (), w) := by
    unfold Files.makeDirectories
    rw [hmade]
  have hmode : Files.setMode p.parent 0o700 h w = (.ok (), w.withFiles u) := Files.change_of_eq hu
  have hthere : Files.isThere p h (w.withFiles u) = (.ok true, w.withFiles u) :=
    Files.isThere_of_probe (Tree.probe_of_find hprivate)
  have hread : Files.readText p h (w.withFiles u) = (.ok (Text.unifyBreaks text), w.withFiles u) :=
    Files.readText_of_find hprivate
  refine ⟨w.withFiles _, ?_, spot, hfind⟩
  unfold save
  rw [Action.bind_of_ok (Action.expandHome_of_some hp), Action.bind_of_ok hmake,
    Action.bind_of_ok hmode, Action.bind_of_ok Action.host_apply, Action.bind_of_ok hthere,
    if_pos rfl, Action.bind_of_ok hread]
  exact Action.bind_of_ok (Files.writePrivate_of_write hv)

theorem save_of_isAbsent (hp : given.expandHome? h.home = some p)
    (ha : IsAbsent h.workDirectory w.files p) :
    (∃ w', save k given h w = (.ok p, w') ∧ IsStored h.workDirectory w'.files p (entry h.now k)) ∨
      ∃ e w', save k given h w = (.error (.crash (Files.failure e)), w') := by
  unfold save
  rw [Action.bind_of_ok (Action.expandHome_of_some hp)]
  -- operation by operation: each may fail, and none before the last brings the file to light
  obtain ⟨_, w₁, hmake⟩ | ⟨e, w₁, hmake⟩ :=
    (Files.makeDirectories_failsInFiles p.parent).cases h w
  swap
  · exact .inr ⟨e, w₁, Action.bind_of_error hmake⟩
  have hmade : w₁.files = (w.files.makeDirectories h.workDirectory p.parent).1 :=
    (congrArg (fun r => r.2.files) hmake).symm
  rw [Action.bind_of_ok hmake]
  obtain ⟨_, w₂, hmode⟩ | ⟨e, w₂, hmode⟩ :=
    (Files.change_failsInFiles fun h t => t.setMode h.workDirectory p.parent 0o700).cases h w₁
  swap
  · exact .inr ⟨e, w₂, Action.bind_of_error hmode⟩
  obtain ⟨u, hu, rfl⟩ := Files.change_of_ok hmode
  rw [Files.setMode, Action.bind_of_ok hmode, Action.bind_of_ok Action.host_apply]
  obtain ⟨there, w₃, hthere⟩ | ⟨e, w₃, hthere⟩ :=
    (Files.isThere_failsInFiles p).cases h (w₁.withFiles u)
  swap
  · exact .inr ⟨e, w₃, Action.bind_of_error hthere⟩
  obtain ⟨rfl, n, hprobe, rfl⟩ := Files.isThere_of_ok hthere
  rw [Action.bind_of_ok hthere]
  cases n with
  | some n =>
    obtain ⟨l, hf⟩ := Tree.probe_eq_some hprobe
    obtain ⟨old, hold⟩ := Tree.exists_of_find_setMode hu hf
    rw [hmade] at hold
    exact absurd (Tree.probe_of_find hold) (ha old)
  | none =>
    simp only [Option.isSome_none, Bool.false_eq_true, if_false, pure_bind, withEntry, if_true]
    unfold IsStored
    generalize Text.Utf8.encode (entry h.now k) = data
    have hfails : (Files.writePrivate p data).FailsInFiles := Files.change_failsInFiles _
    obtain ⟨_, w₄, hwrite⟩ | ⟨e, w₄, hwrite⟩ := hfails.cases h (w₁.withFiles u)
    · obtain ⟨v, hv, rfl⟩ := Files.change_of_ok hwrite
      obtain ⟨l, hfind⟩ := Tree.find_write hv
      exact .inl ⟨_, Action.bind_of_ok hwrite, l, hfind⟩
    · exact .inr ⟨e, w₄, Action.bind_of_error hwrite⟩

theorem Starts.save (hp : given.expandHome? h.home = some p)
    (hs : Starts h.workDirectory w.files p initial) :
    (∃ w', save k given h w = (.ok p, w') ∧
      IsStored h.workDirectory w'.files p (withEntry (Text.unifyBreaks initial) (entry h.now k))) ∨
    IsAbsent h.workDirectory w.files p ∧
      ∃ e w', save k given h w = (.error (.crash (Files.failure e)), w') := by
  cases hs with
  | file there => exact .inl (save_of_contains hp there)
  | absent missing => exact (save_of_isAbsent hp missing).imp_right fun hfail => ⟨missing, hfail⟩

/-! ### Reading -/

theorem readText_of_isStored {text : String} (hs : IsStored h.workDirectory w.files p text)
    (ht : '\r' ∉ text.toList) : Files.readText p h w = (.ok text, w) := by
  obtain ⟨l, hf⟩ := hs
  rw [Files.readText_of_find hf, Text.unifyBreaks_of_not_mem ht]

theorem publicKey_of_contains (hp : given.expandHome? h.home = some p) {text : String}
    (hc : Files.Contains h.workDirectory w.files p (Text.Utf8.encode text)) (key : String) :
    (publicKey given h w).1 = .ok key ↔ firstPublicKey? (Text.unifyBreaks text) = some key := by
  obtain ⟨l, mode, hf⟩ := hc
  unfold publicKey
  rw [Action.bind_of_ok (Action.expandHome_of_some hp),
    Action.bind_of_ok (Files.isThere_of_probe (Tree.probe_of_find hf)), if_pos Option.isSome_some,
    Action.bind_of_ok (Files.readText_of_find hf)]
  cases firstPublicKey? (Text.unifyBreaks text) with
  | none => exact ⟨fun hk => (nomatch hk), fun hk => (nomatch hk)⟩
  | some found =>
    dsimp only
    rw [Action.pure_apply, Except.ok.injEq, Option.some.injEq]

theorem publicKey_ne_of_isAbsent (hp : given.expandHome? h.home = some p)
    (ha : IsAbsent h.workDirectory w.files p) (key : String) :
    (publicKey given h w).1 ≠ .ok key := by
  intro hk
  obtain ⟨w', hread⟩ : ∃ w', publicKey given h w = (.ok key, w') := ⟨_, Prod.ext hk rfl⟩
  unfold publicKey at hread
  rw [Action.bind_of_ok (Action.expandHome_of_some hp)] at hread
  obtain ⟨there, w₁, hthere, hfound⟩ := Action.ok_of_bind hread
  obtain ⟨rfl, n, hn, rfl⟩ := Files.isThere_of_ok hthere
  cases n with
  | none => cases hfound
  | some n =>
    obtain ⟨l, hf⟩ := Tree.probe_eq_some hn
    have hkept := (Tree.makeDirectories_keeps h.workDirectory p.parent).find hf
    exact ha n (Tree.probe_of_find hkept)

theorem Starts.publicKey_iff (hp : given.expandHome? h.home = some p)
    (hs : Starts h.workDirectory w.files p initial) (key : String) :
    (publicKey given h w).1 = .ok key ↔ firstPublicKey? (Text.unifyBreaks initial) = some key := by
  cases hs with
  | file there => exact publicKey_of_contains hp there key
  | absent missing =>
    exact ⟨fun hk => absurd hk (publicKey_ne_of_isAbsent hp missing key), fun hk => nomatch hk⟩

/-! ### One save after another -/

def saveAll (given : Path) : List (Timestamp × Keypair) → Action Unit
  | [] => pure ()
  | s :: rest => do
    let _ ← (save s.2 given).atTime s.1
    saveAll given rest

variable {saves : List (Timestamp × Keypair)} {first last : Timestamp × Keypair}

theorem saveAll_cons {s : Timestamp × Keypair} (hs : save s.2 given { h with now := s.1 } w =
    (.ok p, w')) (rest : List (Timestamp × Keypair)) :
    saveAll given (s :: rest) h w = saveAll given rest h w' := by
  have htime : ((save s.2 given).atTime s.1) h w = (.ok p, w') := hs
  rw [saveAll, Action.bind_of_ok htime]

theorem saveAll_of_isStored (hp : given.expandHome? h.home = some p) {text : String}
    (hs : IsStored h.workDirectory w.files p text) (ht : '\r' ∉ text.toList)
    (hw : ∀ s ∈ saves, s.2.IsWhole) :
    ∃ w', saveAll given saves h w = (.ok (), w') ∧
      IsStored h.workDirectory w'.files p (grown text saves) := by
  induction saves generalizing w text with
  | nil => exact ⟨w, rfl, hs⟩
  | cons s rest ih =>
    obtain ⟨w₁, hsave, hstored⟩ := save_of_contains (k := s.2) (h := { h with now := s.1 }) hp
      hs.contains
    -- the text has one line end for all already, so it is read as it is
    rw [Text.unifyBreaks_of_not_mem ht] at hstored
    obtain ⟨w', hrest, hend⟩ := ih hstored (cr_not_mem_withEntry (hw s List.mem_cons_self) ht)
      fun x hx => hw x (List.mem_cons_of_mem _ hx)
    exact ⟨w', (saveAll_cons hsave rest).trans hrest, hend⟩

theorem saveAll_of_starts (hp : given.expandHome? h.home = some p)
    (hstart : Starts h.workDirectory w.files p initial) {rest : List (Timestamp × Keypair)}
    (hw : ∀ s ∈ first :: rest, s.2.IsWhole) :
    (∃ w', saveAll given (first :: rest) h w = (.ok (), w') ∧ IsStored h.workDirectory w'.files p
      (grown (Text.unifyBreaks initial) (first :: rest))) ∨
    IsAbsent h.workDirectory w.files p ∧ ∃ e w', (save first.2 given).atTime first.1 h w =
      (.error (.crash (Files.failure e)), w') := by
  obtain ⟨w₁, hsave, hstored⟩ | hfail :=
    Starts.save (k := first.2) (h := { h with now := first.1 }) hp hstart
  · obtain ⟨w', hrest, hend⟩ := saveAll_of_isStored hp hstored
      (cr_not_mem_withEntry (hw first List.mem_cons_self) (Text.cr_not_mem_unifyBreaks initial))
      fun s hs => hw s (List.mem_cons_of_mem _ hs)
    exact .inl ⟨w', (saveAll_cons hsave rest).trans hrest, hend⟩
  · exact .inr hfail

/-- Whatever text a key file starts from, saving pairs of the generator keeps all of its lines and
those of every entry, in order, and the file stays private. Its first public key stays the first,
and its text tells the last pair. A save may fail only where no file is there. -/
theorem key_file_keeps_identities (hp : given.expandHome? h.home = some p)
    (hstart : Starts h.workDirectory w.files p initial) (hgiven : ∀ s ∈ saves, s.2.IsGiven)
    (hfirst : saves.head? = some first) (hlast : saves.getLast? = some last) :
    (∃ w' text, saveAll given saves h w = (.ok (), w') ∧
      IsStored h.workDirectory w'.files p text ∧
      Files.readText p h w' = (.ok text, w') ∧
      lines text = lines (Text.unifyBreaks initial) ++
        saves.flatMap (fun s => entryLines s.1 s.2 ++ [""]) ∧
      (∃ blocks, List.Forall₂ IsBlock saves blocks ∧
        Text.splitLines text = Text.splitLines initial ++ blocks.flatten) ∧
      (∀ key, (publicKey given h w).1 = .ok key → (publicKey given h w').1 = .ok key) ∧
      ((∀ key, (publicKey given h w).1 ≠ .ok key) →
        (publicKey given h w').1 = .ok first.2.publicKey) ∧
      Keypair.ofOutput text = .ok last.2) ∨
    IsAbsent h.workDirectory w.files p ∧ ∃ e w', (save first.2 given).atTime first.1 h w =
      (.error (.crash (Files.failure e)), w') := by
  have hwhole : ∀ s ∈ saves, s.2.IsWhole := fun s hs => (hgiven s hs).isWhole
  have hcr := Text.cr_not_mem_unifyBreaks initial
  obtain ⟨rest, rfl⟩ := List.head?_eq_some_iff.1 hfirst
  refine (saveAll_of_starts hp hstart hwhole).imp_left fun ⟨w', hrun, hend⟩ => ?_
  have htext := cr_not_mem_grown hwhole hcr
  have hkey : ∀ key, (publicKey given h w').1 = .ok key ↔
      (firstPublicKey? (Text.unifyBreaks initial)).or (some first.2.publicKey) = some key := by
    intro key
    rw [publicKey_of_contains hp hend.contains, Text.unifyBreaks_of_not_mem htext,
      firstPublicKey?_grown hwhole hcr]
    rfl
  have hblocks := splitLines_grown hwhole hcr
  rw [Text.splitLines_unifyBreaks] at hblocks
  refine ⟨w', _, hrun, hend, readText_of_isStored hend htext, lines_grown hwhole, hblocks,
    fun key hk => ?_, fun hnone => ?_, ofOutput_grown hwhole hcr hlast⟩
  · rw [hkey, (hstart.publicKey_iff hp key).1 hk, Option.some_or]
  · rw [hkey]
    cases hfound : firstPublicKey? (Text.unifyBreaks initial) with
    | none => rfl
    | some key => exact absurd ((hstart.publicKey_iff hp key).2 hfound) (hnone key)

/-! A file with the line ends of another system and an unfinished last line, and no file. -/

def oldKeys : String := "# Public key: old\r\nAGE-SECRET-KEY-OLD"

def oldWorld : World := Desk.world.withFiles
  (Desk.tree.put ["work", "keys"] (.file 0o644 (Text.Utf8.encode oldKeys)))

def pairs : List (Timestamp × Keypair) :=
  [(⟨⟨2024, 1, 2⟩, 3, 4, 5, 0, some 0⟩, ⟨"age1a", "AGE-SECRET-KEY-1A"⟩),
    (⟨⟨2024, 1, 3⟩, 0, 0, 0, 70, some 0⟩, ⟨"age1b", "AGE-SECRET-KEY-1B"⟩)]

theorem isGiven_of_mem_pairs : ∀ s ∈ pairs, s.2.IsGiven := by
  have hgiven : ∀ output k, Keypair.scan output = k ∧ k.publicKey ≠ "" ∧ k.privateKey ≠ "" →
      k.IsGiven := fun output k hk => ⟨output, Keypair.ofOutput_eq_ok.2 hk⟩
  intro s hs
  simp only [pairs, List.mem_cons, List.not_mem_nil, or_false] at hs
  rcases hs with rfl | rfl
  · exact hgiven "# public key: age1a\nAGE-SECRET-KEY-1A\n" _ (by decide +kernel)
  · exact hgiven "AGE-SECRET-KEY-1B\nPublic key: age1b\n" _ (by decide +kernel)

theorem desk_identities_are_kept :
    (∃ w' text, saveAll (.ofText "keys") pairs Desk.host oldWorld = (.ok (), w') ∧
      lines text = ["# Public key: old", "AGE-SECRET-KEY-OLD",
        "# created: 2024-01-02T03:04:05+00:00", "# public key: age1a", "AGE-SECRET-KEY-1A", "",
        "# created: 2024-01-03T00:00:00.000070+00:00", "# public key: age1b",
        "AGE-SECRET-KEY-1B", ""] ∧
      IsStored ["work"] w'.files (.ofText "keys") text ∧
      (publicKey (.ofText "keys") Desk.host w').1 = .ok "old" ∧
      Keypair.ofOutput text = .ok ⟨"age1b", "AGE-SECRET-KEY-1B"⟩) ∧
    ∃ w' text, saveAll (.ofText "~/keys") pairs Desk.host Desk.world = (.ok (), w') ∧
      IsStored ["work"] w'.files (.ofText "/keys") text ∧
      (publicKey (.ofText "~/keys") Desk.host w').1 = .ok "age1a" ∧
      Keypair.ofOutput text = .ok ⟨"age1b", "AGE-SECRET-KEY-1B"⟩ := by
  constructor
  · have hp : (Path.ofText "keys").expandHome? Desk.host.home = some (.ofText "keys") := by
      decide +kernel
    have hfile : oldWorld.files.find ["work"] (.ofText "keys") =
        .ok (["work", "keys"], .file 0o644 (Text.Utf8.encode oldKeys)) := by decide +kernel
    have hstart : Starts Desk.host.workDirectory oldWorld.files (.ofText "keys") oldKeys :=
      .file ⟨["work", "keys"], 0o644, hfile⟩
    obtain ⟨w', text, hrun, hstored, -, hlines, -, hkey, -, hlast⟩ | ⟨hmissing, -⟩ :=
      key_file_keeps_identities hp hstart isGiven_of_mem_pairs rfl rfl
    · refine ⟨w', text, hrun, ?_, hstored, hkey "old" ?_, hlast⟩
      · rw [hlines]
        decide +kernel
      · exact (hstart.publicKey_iff hp "old").2 (by decide +kernel)
    · exact absurd hmissing (not_isAbsent_of_contains ⟨["work", "keys"], 0o644, hfile⟩)
  · have hp : (Path.ofText "~/keys").expandHome? Desk.host.home = some (.ofText "/keys") := by
      decide +kernel
    have hmissing : IsAbsent Desk.host.workDirectory Desk.world.files (.ofText "/keys") :=
      isAbsent_of_probe Desk.sound_tree (by decide +kernel) (by decide +kernel)
    have hsaves : ((save ⟨"age1a", "AGE-SECRET-KEY-1A"⟩ (.ofText "~/keys")).atTime
        ⟨⟨2024, 1, 2⟩, 3, 4, 5, 0, some 0⟩ Desk.host Desk.world).1.isOk = true := by
      decide +kernel
    obtain ⟨w', text, hrun, hstored, -, -, -, -, hkey, hlast⟩ | ⟨-, e, w', hfail⟩ :=
      key_file_keeps_identities hp (.absent hmissing) isGiven_of_mem_pairs rfl rfl
    · exact ⟨w', text, hrun, hstored, hkey (publicKey_ne_of_isAbsent hp hmissing), hlast⟩
    · rw [hfail] at hsaves
      cases hsaves

end KeyFile

end TeamVault
