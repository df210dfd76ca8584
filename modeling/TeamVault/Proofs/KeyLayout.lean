import TeamVault.KeyFile
import TeamVault.Proofs.KeyLines
import TeamVault.Proofs.Lifetime
import Mathlib.Logic.Relation

/-!
The layout of the generator's output. Of all lines only the last of each kind counts, and what it
tells does not change with blanks before it; so the order of the lines, other lines among them and
the stream that each of them comes from make no difference.
-/
namespace TeamVault.Keypair

/-! ### What lines tell -/

def isPublicLine (line : String) : Bool := tellsPublicKey (Text.trimChars line.toList)

def isSecretLine (line : String) : Bool := startsWith (Text.trimChars line.toList) secretKeyStart

def toldKey (line : String) : String :=
  String.ofList (Text.trimChars (afterColon (Text.trimChars line.toList)))

theorem ofText_eq (line : String) : Line.ofText line =
    if isPublicLine line then .publicKey (toldKey line)
    else if isSecretLine line then .secretKey (Text.trim line) else .other := rfl

theorem not_isPublicLine_of_isSecretLine {line : String} (hs : isSecretLine line = true) :
    isPublicLine line = false := by
  obtain ⟨rest, hrest⟩ := List.isPrefixOf_iff_prefix.1 hs
  obtain ⟨more, hmore⟩ := tellsPublicKey_lower secretKeyStart.toList rest
    (List.all_iff_forall_prop.1 (by decide))
  rw [isPublicLine, ← hrest, hmore]
  rfl

theorem trim_ne_empty_of_isSecretLine {line : String} (hs : isSecretLine line = true) :
    Text.trim line ≠ "" := by
  obtain ⟨rest, hrest⟩ := List.isPrefixOf_iff_prefix.1 hs
  rw [Text.trim, ← hrest]
  simp [secretKeyStart]

theorem exists_eq_append_afterColon {cs : List Char} (hc : ':' ∈ cs) :
    ∃ start, cs = start ++ ':' :: afterColon cs ∧ ':' ∉ start := by
  induction cs with
  | nil => exact absurd hc List.not_mem_nil
  | cons c rest ih =>
    by_cases he : c = ':'
    · subst he
      exact ⟨[], rfl, List.not_mem_nil⟩
    · have hskip : afterColon (c :: rest) = afterColon rest := by
        rw [afterColon, List.dropWhile_cons_of_pos (by simpa using he)]
        rfl
      obtain ⟨start, hstart, hnone⟩ := ih ((List.mem_cons.1 hc).resolve_left (Ne.symm he))
      refine ⟨c :: start, ?_, by simp [Ne.symm he, hnone]⟩
      rw [hskip, List.cons_append, ← hstart]

theorem exists_colon {line : String} (hl : isPublicLine line = true) :
    ∃ start rest, Text.trimChars line.toList = start ++ ':' :: rest ∧ ':' ∉ start ∧
      toldKey line = Text.trim (String.ofList rest) := by
  have hlower : ':' ∈ Text.LowerCase.chars [] (Text.trimChars line.toList) := by
    have hstart : ':' ∈ "public key:".toList := by decide
    exact (List.dropWhile_suffix _).subset
      ((List.isPrefixOf_iff_prefix.1 hl).subset hstart)
  obtain ⟨start, heq, hnone⟩ :=
    exists_eq_append_afterColon (Text.LowerCase.colon_mem_of_mem_chars hlower)
  refine ⟨start, _, heq, hnone, ?_⟩
  rw [toldKey, Text.trim, String.toList_ofList]

/-! ### The last line of each kind -/

def lastTold (kind : String → Bool) (tells : String → String) (lines : List String) : String :=
  ((lines.filter kind).getLast?.map tells).getD ""

theorem lastTold_concat (kind : String → Bool) (tells : String → String) (lines : List String)
    (line : String) : lastTold kind tells (lines ++ [line]) =
      if kind line then tells line else lastTold kind tells lines := by
  unfold lastTold
  by_cases hk : kind line = true
  · simp [List.filter_append, hk]
  · simp [List.filter_append, hk]

theorem lastTold_eq_empty {kind : String → Bool} {tells : String → String} {lines : List String} :
    lastTold kind tells lines = "" ↔ lines.filter kind = [] ∨
      ∃ line, (lines.filter kind).getLast? = some line ∧ tells line = "" := by
  unfold lastTold
  cases hlast : (lines.filter kind).getLast? with
  | none => simp [List.getLast?_eq_none_iff.1 hlast]
  | some line =>
    have hne : lines.filter kind ≠ [] := by
      rintro he
      rw [he] at hlast
      cases hlast
    simp [hne]

theorem scan_eq (output : String) : scan output =
    ⟨lastTold isPublicLine toldKey (Text.splitLines output),
      lastTold isSecretLine Text.trim (Text.splitLines output)⟩ := by
  unfold scan
  -- along the lines, the two parts found so far are what the last line of either kind told
  induction Text.splitLines output using List.reverseRecOn with
  | nil => rfl
  | append_singleton lines line ih =>
    rw [List.foldl_append, ih, lastTold_concat, lastTold_concat, List.foldl_cons, List.foldl_nil,
      ofText_eq]
    cases hs : isSecretLine line with
    | true =>
      rw [not_isPublicLine_of_isSecretLine hs]
      rfl
    | false =>
      cases isPublicLine line <;> rfl

theorem ofOutput_eq (output : String) : ofOutput output =
    if lastTold isPublicLine toldKey (Text.splitLines output) = "" ∨
        lastTold isSecretLine Text.trim (Text.splitLines output) = "" then
      .error (.of .engine "Failed to parse age-keygen output")
    else .ok ⟨lastTold isPublicLine toldKey (Text.splitLines output),
      lastTold isSecretLine Text.trim (Text.splitLines output)⟩ := by
  unfold ofOutput
  rw [scan_eq]

theorem lastTold_secret_eq_empty {lines : List String} :
    lastTold isSecretLine Text.trim lines = "" ↔ lines.filter isSecretLine = [] := by
  refine lastTold_eq_empty.trans (or_iff_left ?_)
  rintro ⟨line, hlast, htrim⟩
  have hline := List.of_mem_filter (List.mem_of_getLast? hlast)
  exact trim_ne_empty_of_isSecretLine hline htrim

/-! ### Layouts -/

/-- One change of the layout: another order of the lines, one more line that tells nothing, or
blanks before a line. -/
inductive Relays : List String → List String → Prop
  | reorder {a b : List String} (same : a.Perm b) : Relays a b
  | insert (a b : List String) {line : String} (notPublic : isPublicLine line = false)
      (notSecret : isSecretLine line = false) : Relays (a ++ b) (a ++ line :: b)
  | indent (a b : List String) (line : String) {blanks : String}
      (blank : ∀ c ∈ blanks.toList, Text.isBlank c = true) :
      Relays (a ++ line :: b) (a ++ (blanks ++ line) :: b)

def SameButLayout : List String → List String → Prop := Relation.EqvGen Relays

/-- A way of reading lines of one kind that sees neither other lines nor blanks before a line. -/
structure IsReading (kind : String → Bool) (tells : String → String) : Prop where
  skips : ∀ line, isPublicLine line = false → isSecretLine line = false → kind line = false
  trims : ∀ line line' : String, Text.trimChars line.toList = Text.trimChars line'.toList →
    kind line = kind line' ∧ tells line = tells line'

theorem isReading_public : IsReading isPublicLine toldKey where
  skips _ hp _ := hp
  trims line line' ht := by simp only [isPublicLine, toldKey, ht, and_self]

theorem isReading_secret : IsReading isSecretLine Text.trim where
  skips _ _ hs := hs
  trims line line' ht := by simp only [isSecretLine, Text.trim, ht, and_self]

section Reading

variable {kind : String → Bool} {tells : String → String} {a b : List String} {line : String}

theorem Relays.told_perm (hread : IsReading kind tells) (h : Relays a b) :
    ((a.filter kind).map tells).Perm ((b.filter kind).map tells) := by
  cases h with
  | reorder same => exact (same.filter kind).map tells
  | insert a b notPublic notSecret =>
    have hkind := hread.skips _ notPublic notSecret
    rw [List.filter_append, List.filter_append, List.filter_cons_of_neg (by simpa using hkind)]
  | @indent a b line blanks blank =>
    have htrim : Text.trimChars (blanks ++ line).toList = Text.trimChars line.toList := by
      rw [String.toList_append, Text.trimChars_blanks_append blank]
    obtain ⟨hkind, htells⟩ := hread.trims _ _ htrim
    rw [List.filter_append, List.filter_append, List.filter_cons, List.filter_cons, hkind]
    cases kind line <;> simp [htells]

theorem SameButLayout.told_perm (hread : IsReading kind tells) (h : SameButLayout a b) :
    ((a.filter kind).map tells).Perm ((b.filter kind).map tells) := by
  induction h with
  | rel a b hab => exact hab.told_perm hread
  | refl a => exact .refl _
  | symm a b _ ih => exact ih.symm
  | trans a b c _ _ ihab ihbc => exact ihab.trans ihbc

theorem SameButLayout.lastTold_eq (hread : IsReading kind tells) (hone : a.filter kind = [line])
    (h : SameButLayout a b) : lastTold kind tells b = tells line := by
  have hperm := h.told_perm hread
  rw [hone, List.map_singleton, List.singleton_perm] at hperm
  rw [lastTold, ← List.getLast?_map, ← hperm]
  rfl

end Reading

/-- Lines with one line of each kind, where the public key is not empty. -/
structure TellOnce (lines : List String) (publicLine secretLine : String) : Prop where
  publicLines : lines.filter isPublicLine = [publicLine]
  secretLines : lines.filter isSecretLine = [secretLine]
  hasKey : toldKey publicLine ≠ ""

theorem TellOnce.isPublic {lines : List String} {publicLine secretLine : String}
    (ht : TellOnce lines publicLine secretLine) : isPublicLine publicLine = true := by
  have hmem : publicLine ∈ lines.filter isPublicLine :=
    ht.publicLines ▸ List.mem_singleton_self _
  exact List.of_mem_filter hmem

theorem TellOnce.isSecret {lines : List String} {publicLine secretLine : String}
    (ht : TellOnce lines publicLine secretLine) : isSecretLine secretLine = true := by
  have hmem : secretLine ∈ lines.filter isSecretLine :=
    ht.secretLines ▸ List.mem_singleton_self _
  exact List.of_mem_filter hmem

theorem TellOnce.ofOutput_eq {lines : List String} {publicLine secretLine other : String}
    (ht : TellOnce lines publicLine secretLine)
    (hsame : SameButLayout lines (Text.splitLines other)) :
    ofOutput other = .ok ⟨toldKey publicLine, Text.trim secretLine⟩ := by
  have hpublic := hsame.lastTold_eq isReading_public ht.publicLines
  have hsecret := hsame.lastTold_eq isReading_secret ht.secretLines
  have hwhole := trim_ne_empty_of_isSecretLine ht.isSecret
  rw [Keypair.ofOutput_eq, hpublic, hsecret, if_neg (not_or.2 ⟨ht.hasKey, hwhole⟩)]

/-! ### The two streams -/

theorem sameButLayout_join (out err : String) :
    SameButLayout (Text.splitLines out ++ Text.splitLines err)
      (Text.splitLines (out ++ "\n" ++ err)) := by
  obtain ⟨gap, rfl | rfl, hlines⟩ := Text.splitLines_join out err
  · rw [hlines]
    exact .refl _
  · rw [hlines]
    exact .rel _ _ (.insert _ _ (by decide) (by decide))

def generatorRun (program : String) : Run := ⟨program, [], generatorTimeout, none, []⟩

theorem generate_of_exited {program out err : String} {output diagnostics : Bytes} {h : Host}
    {w : World} (hi : h.isInstalled program = true)
    (he : h.execute w.events (generatorRun program) = .exited 0 output diagnostics)
    (ho : Text.Utf8.decode? output = some out) (hd : Text.Utf8.decode? diagnostics = some err) :
    generate program h w = ((ofOutput (out ++ "\n" ++ err)).mapError .fault,
      w.log (.run ⟨generatorRun program, w.files⟩)) := by
  have hrun : Action.execute ⟨program, [], generatorTimeout, none, []⟩ h w =
      (.ok (.exited 0 output diagnostics), w.log (.run ⟨generatorRun program, w.files⟩)) := by
    rw [Action.execute, ← he]
    rfl
  unfold generate
  rw [Action.bind_of_ok Action.host_apply, if_pos hi, Action.bind_of_ok hrun]
  dsimp only
  rw [outputText_of_decode ho, outputText_of_decode hd, pure_bind, pure_bind,
    if_neg (by decide), ofOutput_unifyBreaks]
  rfl

/-- A text with one line of each kind tells that pair, and so does every text and every pair of
streams with these lines, in any order, after any blanks and among any lines that tell nothing. A
text is refused just where a kind has no line or the last public key is empty, and a pair that is
told has no line end in it and no blanks around it. -/
theorem layout_makes_no_difference (text : String) :
    (∀ publicLine secretLine, TellOnce (Text.splitLines text) publicLine secretLine →
      (∃ start rest, Text.trimChars publicLine.toList = start ++ ':' :: rest ∧ ':' ∉ start ∧
        toldKey publicLine = Text.trim (String.ofList rest)) ∧
      ofOutput text = .ok ⟨toldKey publicLine, Text.trim secretLine⟩ ∧
      (∀ other, SameButLayout (Text.splitLines text) (Text.splitLines other) →
        ofOutput other = .ok ⟨toldKey publicLine, Text.trim secretLine⟩) ∧
      ∀ program h w output diagnostics out err, h.isInstalled program = true →
        h.execute w.events (generatorRun program) = .exited 0 output diagnostics →
        Text.Utf8.decode? output = some out → Text.Utf8.decode? diagnostics = some err →
        SameButLayout (Text.splitLines text) (Text.splitLines out ++ Text.splitLines err) →
        generate program h w = (.ok ⟨toldKey publicLine, Text.trim secretLine⟩,
          w.log (.run ⟨generatorRun program, w.files⟩))) ∧
    (ofOutput text = .error (.of .engine "Failed to parse age-keygen output") ↔
      (Text.splitLines text).filter isPublicLine = [] ∨
      (Text.splitLines text).filter isSecretLine = [] ∨
      ∃ line, ((Text.splitLines text).filter isPublicLine).getLast? = some line ∧
        toldKey line = "") ∧
    (∀ f, ofOutput text = .error f → f = .of .engine "Failed to parse age-keygen output") ∧
    ∀ k, ofOutput text = .ok k → IsInLine k.publicKey ∧ IsInLine k.privateKey := by
  refine ⟨fun publicLine secretLine ht => ⟨exists_colon ht.isPublic, ht.ofOutput_eq (.refl _),
    fun other => ht.ofOutput_eq, ?_⟩, ?_, fun f hf => ?_, fun k hk => ?_⟩
  · intro program h w output diagnostics out err hi he ho hd hsame
    rw [generate_of_exited hi he ho hd,
      ht.ofOutput_eq (hsame.trans _ _ _ (sameButLayout_join out err))]
    rfl
  · rw [ofOutput_eq, ← or_assoc, or_right_comm, ← lastTold_eq_empty, ← lastTold_secret_eq_empty]
    split
    next hnone => exact ⟨fun _ => hnone, fun _ => rfl⟩
    next hnone => exact ⟨fun he => (nomatch he), fun he => absurd he hnone⟩
  · rw [ofOutput_eq] at hf
    split at hf
    · exact (Except.error.inj hf).symm
    · cases hf
  · obtain ⟨rfl, -⟩ := ofOutput_eq_ok.1 hk
    exact ⟨(isFound_scan text).publicKey, (isFound_scan text).privateKey⟩

/-! The lines of a key file, and a generator that tells them in another order on two streams. -/

def keyFileText : String := "# created: 2024\r\n# Public KEY: age1a:b\r\nAGE-SECRET-KEY-1A \r\n"

def toldOut : String := " \tAGE-SECRET-KEY-1A \r"

def toldErr : String := "# Public KEY: age1a:b"

def splittingHost : Host :=
  { Desk.host with
    execute := fun _ _ => .exited 0 (Text.Utf8.encode toldOut) (Text.Utf8.encode toldErr) }

theorem streams_tell_file :
    TellOnce (Text.splitLines keyFileText) "# Public KEY: age1a:b" "AGE-SECRET-KEY-1A " ∧
      (generate "age-keygen" splittingHost Desk.world).1 =
        .ok ⟨"age1a:b", "AGE-SECRET-KEY-1A"⟩ := by
  have hlines : Text.splitLines keyFileText =
      ["# created: 2024", "# Public KEY: age1a:b", "AGE-SECRET-KEY-1A "] := by decide +kernel
  have hstreams : Text.splitLines toldOut ++ Text.splitLines toldErr =
      [" \t" ++ "AGE-SECRET-KEY-1A ", "# Public KEY: age1a:b"] := by decide +kernel
  have htell : TellOnce (Text.splitLines keyFileText) "# Public KEY: age1a:b"
      "AGE-SECRET-KEY-1A " := by
    rw [hlines]
    exact ⟨by decide +kernel, by decide +kernel, by decide +kernel⟩
  have hsame : SameButLayout (Text.splitLines keyFileText)
      (Text.splitLines toldOut ++ Text.splitLines toldErr) := by
    have hblank : ∀ c ∈ " \t".toList, Text.isBlank c = true :=
      List.all_iff_forall_prop.1 (by decide)
    rw [hlines, hstreams]
    -- the line that tells nothing goes, the other two change places, and one of them is indented
    refine .trans _ _ _ (.symm _ _ (.rel _ _ (.insert [] _ ?_ ?_)))
      (.trans _ _ _ (.rel _ _ (.reorder (.swap _ _ [])))
        (.rel _ _ (.indent [] _ "AGE-SECRET-KEY-1A " hblank)))
    · decide +kernel
    · decide +kernel
  have hrun := ((layout_makes_no_difference keyFileText).1 _ _ htell).2.2.2 "age-keygen"
    splittingHost Desk.world (Text.Utf8.encode toldOut) (Text.Utf8.encode toldErr) toldOut toldErr
    rfl rfl (by decide +kernel) (by decide +kernel) hsame
  have hpair : (⟨toldKey "# Public KEY: age1a:b", Text.trim "AGE-SECRET-KEY-1A "⟩ : Keypair) =
      ⟨"age1a:b", "AGE-SECRET-KEY-1A"⟩ := by decide +kernel
  exact ⟨htell, by rw [hrun, hpair]⟩

end TeamVault.Keypair
