import TeamVault.KeyFile
import TeamVault.Proofs.StoredTime
import TeamVault.Proofs.TeamKeys
import TeamVault.Proofs.TextLines
import Mathlib.Data.Bool.AllAny
import Mathlib.Data.List.Forall2

/-!
The text of a key file. The generator's reader, the writer and the reader of the first key agree on
its lines: every entry adds three full lines, the last pair is the one that the whole text tells,
and the first public key stays the first.
-/
namespace TeamVault

/-! ### Keys as they are told -/

namespace Keypair

def IsGiven (k : Keypair) : Prop := ∃ output, ofOutput output = .ok k

def IsInLine (key : String) : Prop :=
  Text.trimChars key.toList = key.toList ∧ ∀ c ∈ key.toList, Text.isLineEnd c = false

theorem isInLine_trimmed {cs : List Char} (hcs : ∀ c ∈ cs, Text.isLineEnd c = false) :
    IsInLine (String.ofList (Text.trimChars cs)) := by
  rw [IsInLine, String.toList_ofList, Text.trimChars_trimChars]
  exact ⟨rfl, fun c hc => hcs c (Text.mem_of_mem_trimChars hc)⟩

theorem mem_of_mem_afterColon {cs : List Char} {c : Char} (hc : c ∈ afterColon cs) : c ∈ cs :=
  (List.dropWhile_suffix (· != ':')).subset (List.mem_of_mem_drop hc)

structure IsFound (k : Keypair) : Prop where
  publicKey : IsInLine k.publicKey
  privateKey : IsInLine k.privateKey
  secret : k.privateKey = "" ∨ startsWith k.privateKey.toList secretKeyStart = true

theorem isFound_empty : IsFound ⟨"", ""⟩ :=
  ⟨⟨rfl, by simp⟩, ⟨rfl, by simp⟩, .inl rfl⟩

theorem IsFound.record {k : Keypair} (hk : k.IsFound) {line : String}
    (hline : ∀ c ∈ line.toList, Text.isLineEnd c = false) :
    ((Line.ofText line).record k).IsFound := by
  have htold : ∀ c ∈ afterColon (Text.trimChars line.toList), Text.isLineEnd c = false :=
    fun c hc => hline c (Text.mem_of_mem_trimChars (mem_of_mem_afterColon hc))
  have hkey := isInLine_trimmed htold
  have hwhole := isInLine_trimmed hline
  unfold Line.ofText
  dsimp only
  generalize hpublic : tellsPublicKey (Text.trimChars line.toList) = isPublic
  cases isPublic with
  | true =>
    rw [if_pos rfl, Line.record]
    exact ⟨hkey, hk.privateKey, hk.secret⟩
  | false =>
    rw [if_neg Bool.false_ne_true]
    by_cases hstart : startsWith (Text.trimChars line.toList) secretKeyStart = true
    · rw [if_pos hstart]
      refine ⟨hk.publicKey, hwhole, .inr ?_⟩
      rwa [Line.record, String.toList_ofList]
    · rw [if_neg hstart]
      exact hk

theorem isFound_scan (output : String) : (scan output).IsFound := by
  have hlines : ∀ line ∈ Text.splitLines output, ∀ c ∈ line.toList, Text.isLineEnd c = false :=
    fun line hl => Text.not_isLineEnd_of_mem_splitLines hl
  -- along the lines, whatever was found so far is a trimmed part of one line
  have hrun : ∀ (lines : List String) (k : Keypair),
      (∀ line ∈ lines, ∀ c ∈ line.toList, Text.isLineEnd c = false) → k.IsFound →
      (lines.foldl (fun found line => (Line.ofText line).record found) k).IsFound := by
    intro lines
    induction lines with
    | nil => exact fun k _ hk => hk
    | cons line rest ih =>
      intro k hl hk
      rw [List.foldl_cons]
      exact ih _ (fun l hm => hl l (List.mem_cons_of_mem _ hm))
        (hk.record (hl line List.mem_cons_self))
  exact hrun _ _ hlines isFound_empty

structure IsWhole (k : Keypair) : Prop extends IsFound k where
  hasPublic : k.publicKey ≠ ""
  hasPrivate : k.privateKey ≠ ""

theorem ofOutput_eq_ok {output : String} {k : Keypair} :
    ofOutput output = .ok k ↔ scan output = k ∧ k.publicKey ≠ "" ∧ k.privateKey ≠ "" := by
  unfold ofOutput
  dsimp only
  constructor
  · intro hk
    split at hk
    · cases hk
    next hne =>
      cases hk
      exact ⟨rfl, not_or.1 hne⟩
  · rintro ⟨rfl, hne⟩
    rw [if_neg (not_or.2 hne)]

theorem IsGiven.isWhole {k : Keypair} (hk : k.IsGiven) : k.IsWhole := by
  obtain ⟨output, ho⟩ := hk
  obtain ⟨rfl, hpublic, hprivate⟩ := ofOutput_eq_ok.1 ho
  exact ⟨isFound_scan output, hpublic, hprivate⟩

/-! ### The two streams -/

theorem scan_join (out err : String) : scan (out ++ "\n" ++ err) =
    (Text.splitLines out ++ Text.splitLines err).foldl
      (fun found line => (Line.ofText line).record found) ⟨"", ""⟩ := by
  have hempty : ∀ k : Keypair, (Line.ofText "").record k = k := fun k => rfl
  obtain ⟨gap, rfl | rfl, hlines⟩ := Text.splitLines_join out err
  · rw [scan, hlines, List.nil_append]
  · rw [scan, hlines, List.foldl_append, List.foldl_append, List.foldl_append, List.foldl_cons,
      List.foldl_nil, hempty]

theorem ofOutput_unifyBreaks (out err : String) :
    ofOutput (Text.unifyBreaks out ++ "\n" ++ Text.unifyBreaks err) =
      ofOutput (out ++ "\n" ++ err) := by
  rw [ofOutput, ofOutput, scan_join, scan_join, Text.splitLines_unifyBreaks,
    Text.splitLines_unifyBreaks]

theorem outputText_of_decode {bs : Bytes} {s : String} (hd : Text.Utf8.decode? bs = some s) :
    outputText bs = pure (Text.unifyBreaks s) := by
  rw [outputText, hd]

/-! ### Lines of an entry -/

theorem tellsPublicKey_lower (start rest : List Char) (hs : ∀ c ∈ start, c.toNat < 0x80) :
    ∃ more, tellsPublicKey (start ++ rest) =
      startsWith ((start.map Char.toLower ++ more).dropWhile fun c => c == '#' || c == ' ')
        "public key:" := by
  obtain ⟨more, hmore⟩ := Text.LowerCase.chars_append_ascii hs [] rest
  exact ⟨more, by rw [tellsPublicKey, hmore]⟩

theorem ofText_publicKey {key : String} (hk : IsInLine key) (hne : key ≠ "") :
    Line.ofText (KeyFile.publicKeyMark ++ key) = .publicKey key := by
  have hchars : (KeyFile.publicKeyMark ++ key).toList =
      '#' :: " public key: ".toList ++ key.toList := by simp [KeyFile.publicKeyMark]
  have htrim : Text.trimChars (KeyFile.publicKeyMark ++ key).toList =
      '#' :: " public key: ".toList ++ key.toList := by
    rw [hchars]
    exact Text.trimChars_append (by decide) (by simpa using hne) hk.1
  obtain ⟨more, hmore⟩ := tellsPublicKey_lower ('#' :: " public key: ".toList) key.toList
    (List.all_iff_forall_prop.1 (by decide))
  have hafter : afterColon ('#' :: " public key: ".toList ++ key.toList) = ' ' :: key.toList := rfl
  have htold : tellsPublicKey ('#' :: " public key: ".toList ++ key.toList) = true := by
    rw [hmore]
    rfl
  unfold Line.ofText
  rw [htrim]
  dsimp only
  rw [htold, if_pos rfl, hafter, Text.trimChars_blank_cons (by decide), hk.1, String.ofList_toList]

theorem ofText_secretKey {key : String} (hk : IsInLine key)
    (hs : startsWith key.toList secretKeyStart = true) : Line.ofText key = .secretKey key := by
  obtain ⟨rest, hrest⟩ := List.isPrefixOf_iff_prefix.1 hs
  obtain ⟨more, hmore⟩ := tellsPublicKey_lower secretKeyStart.toList rest
    (List.all_iff_forall_prop.1 (by decide))
  have htold : tellsPublicKey key.toList = false := by
    rw [← hrest, hmore]
    rfl
  unfold Line.ofText
  rw [hk.1]
  dsimp only
  rw [htold, if_neg Bool.false_ne_true, if_pos hs, String.ofList_toList]

end Keypair

/-! ### Times as they are shown -/

namespace Timestamp

theorem not_isBlank_of_isDigit {c : Char} (hc : Json.Reader.isDigit c = true) :
    Text.isBlank c = false := by
  obtain ⟨hlow, hhigh⟩ := toNat_of_isDigit hc
  simp only [Text.isBlank, Bool.or_eq_false_iff, Bool.and_eq_false_iff,
    decide_eq_false_iff_not, beq_eq_false_iff_ne]
  omega

theorem padded_solid (width n : Nat) : ∀ c ∈ (padded width n).toList, Text.isBlank c = false :=
  fun _ hc => not_isBlank_of_isDigit (isDigit_of_mem_padded hc)

theorem colon_solid : ∀ c ∈ ":".toList, Text.isBlank c = false :=
  List.all_iff_forall_prop.1 (by decide)

theorem offsetText_solid (o : Int) : ∀ c ∈ (offsetText o).toList, Text.isBlank c = false := by
  simp only [offsetText, String.toList_append, List.forall_mem_append, and_assoc]
  refine ⟨?_, padded_solid _ _, colon_solid, padded_solid _ _, ?_⟩
  · split <;> exact List.all_iff_forall_prop.1 (by decide)
  · split
    · exact List.forall_mem_nil _
    · rw [String.toList_append, List.forall_mem_append]
      exact ⟨colon_solid, padded_solid _ _⟩

theorem plainText_solid (t : Timestamp) : ∀ c ∈ t.plainText.toList, Text.isBlank c = false := by
  have hhyphen : ∀ c ∈ "-".toList, Text.isBlank c = false :=
    List.all_iff_forall_prop.1 (by decide)
  simp only [plainText, String.toList_append, List.forall_mem_append, and_assoc]
  refine ⟨padded_solid _ _, hhyphen, padded_solid _ _, hhyphen, padded_solid _ _, ?_,
    padded_solid _ _, colon_solid, padded_solid _ _, colon_solid, padded_solid _ _, ?_⟩
  · exact List.all_iff_forall_prop.1 (by decide)
  · split
    · exact List.forall_mem_nil _
    · rw [String.toList_append, List.forall_mem_append]
      exact ⟨List.all_iff_forall_prop.1 (by decide), padded_solid _ _⟩

theorem toText_solid (t : Timestamp) : ∀ c ∈ t.toText.toList, Text.isBlank c = false := by
  rw [toText, String.toList_append, List.forall_mem_append]
  refine ⟨t.plainText_solid, ?_⟩
  cases t.offset with
  | none => exact List.forall_mem_nil _
  | some o => exact offsetText_solid o

theorem toText_ne_nil (t : Timestamp) : t.toText.toList ≠ [] := by
  have hmark : "-".toList.length = 1 := rfl
  refine List.length_pos_iff.1 ?_
  simp only [toText, plainText, String.toList_append, List.length_append]
  omega

end Timestamp

/-! ### Entries -/

namespace KeyFile

variable {created : Timestamp} {k : Keypair} {text : String}

def createdMark : String := "# created: "

def entryLines (created : Timestamp) (k : Keypair) : List String :=
  [createdMark ++ created.toText, publicKeyMark ++ k.publicKey, k.privateKey]

theorem toList_entry (created : Timestamp) (k : Keypair) : (entry created k).toList =
    (createdMark ++ created.toText).toList ++ '\n' :: ((publicKeyMark ++ k.publicKey).toList ++
      '\n' :: (k.privateKey.toList ++ ['\n'])) := by
  change (createdMark ++ created.toText ++ "\n" ++ publicKeyMark ++ k.publicKey ++ "\n" ++
    k.privateKey ++ "\n").toList = _
  simp [String.toList_append, List.append_assoc]

theorem not_isLineEnd_of_mem_entryLines (hk : k.IsWhole) {line : String}
    (hline : line ∈ entryLines created k) : ∀ c ∈ line.toList, Text.isLineEnd c = false := by
  have hcreated : ∀ c ∈ createdMark.toList, Text.isLineEnd c = false :=
    List.all_iff_forall_prop.1 (by decide)
  have hpublic : ∀ c ∈ publicKeyMark.toList, Text.isLineEnd c = false :=
    List.all_iff_forall_prop.1 (by decide)
  intro c hc
  simp only [entryLines, List.mem_cons, List.not_mem_nil, or_false] at hline
  rcases hline with rfl | rfl | rfl
  · rw [String.toList_append, List.mem_append] at hc
    exact hc.elim (hcreated c) fun hc =>
      Text.not_isLineEnd_of_not_isBlank (created.toText_solid c hc)
  · rw [String.toList_append, List.mem_append] at hc
    exact hc.elim (hpublic c) (hk.publicKey.2 c)
  · exact hk.privateKey.2 c hc

theorem splitLines_entry (hk : k.IsWhole) : Text.splitLines (entry created k) =
    entryLines created k := by
  have hends : ∀ line ∈ entryLines created k, ∀ c ∈ line.toList, Text.isLineEnd c = false :=
    fun line hl => not_isLineEnd_of_mem_entryLines hk hl
  simp only [entryLines, List.forall_mem_cons] at hends
  obtain ⟨hcreated, hpublic, hprivate, -⟩ := hends
  rw [Text.splitLines, toList_entry, Text.splitLinesFrom_line hcreated,
    Text.splitLinesFrom_line hpublic, Text.splitLinesFrom_line hprivate]
  simp [Text.splitLinesFrom, entryLines]

theorem feedLines_entry (hk : k.IsWhole) : Text.feedLines (entry created k) =
    entryLines created k ++ [""] := by
  have hfeed : ∀ line ∈ entryLines created k, ∀ c ∈ line.toList, (c == '\n') = false := by
    intro line hl c hc
    rw [beq_eq_false_iff_ne]
    rintro rfl
    exact absurd (not_isLineEnd_of_mem_entryLines hk hl _ hc) (by decide)
  simp only [entryLines, List.forall_mem_cons] at hfeed
  obtain ⟨hcreated, hpublic, hprivate, -⟩ := hfeed
  rw [Text.feedLines, toList_entry, Text.cut_append_mark rfl hcreated,
    Text.cut_append_mark rfl hpublic, Text.cut_append_mark rfl hprivate]
  simp [Text.cut, Text.partsOf, entryLines]

theorem cr_not_mem_entry (hk : k.IsWhole) : '\r' ∉ (entry created k).toList := by
  have hends : ∀ line ∈ entryLines created k, '\r' ∉ line.toList := fun line hl hc =>
    absurd (not_isLineEnd_of_mem_entryLines hk hl _ hc) (by decide)
  simp only [entryLines, List.forall_mem_cons] at hends
  obtain ⟨hcreated, hpublic, hprivate, -⟩ := hends
  rw [toList_entry]
  simp only [List.mem_append, List.mem_cons, List.not_mem_nil, not_or]
  exact ⟨hcreated, by decide, hpublic, by decide, hprivate, by decide, not_false⟩

theorem entry_ne_empty (created : Timestamp) (k : Keypair) : entry created k ≠ "" := by
  intro he
  have hchars := congrArg String.toList he
  rw [toList_entry] at hchars
  simp at hchars

/-! ### A text with one more entry -/

theorem cr_not_mem_withEntry (hk : k.IsWhole) (ht : '\r' ∉ text.toList) :
    '\r' ∉ (withEntry text (entry created k)).toList := by
  unfold withEntry
  split
  · exact cr_not_mem_entry hk
  · simp [String.toList_append, ht, cr_not_mem_entry hk]

def lines (text : String) : List String := if text = "" then [] else Text.feedLines text

theorem lines_withEntry (hk : k.IsWhole) : lines (withEntry text (entry created k)) =
    lines text ++ (entryLines created k ++ [""]) := by
  by_cases ht : text = ""
  · rw [withEntry, if_pos ht, lines, if_neg (entry_ne_empty created k), lines, if_pos ht,
      feedLines_entry hk, List.nil_append]
  · have hchars : (text ++ "\n" ++ entry created k).toList =
        text.toList ++ '\n' :: (entry created k).toList := by simp
    have hne : text ++ "\n" ++ entry created k ≠ "" := by
      intro he
      have hnil := congrArg String.toList he
      rw [hchars] at hnil
      simp at hnil
    rw [withEntry, if_neg ht, lines, if_neg hne, lines, if_neg ht, Text.feedLines, hchars,
      Text.cut_append_cons rfl, List.map_append]
    exact congrArg (Text.feedLines text ++ ·) (feedLines_entry hk)

theorem splitLines_withEntry (hk : k.IsWhole) (ht : '\r' ∉ text.toList) (created : Timestamp) :
    ∃ gap, (gap = [] ∨ gap = [""]) ∧ Text.splitLines (withEntry text (entry created k)) =
      Text.splitLines text ++ (gap ++ entryLines created k) := by
  unfold withEntry
  split
  next he =>
    rw [he]
    exact ⟨[], .inl rfl, splitLines_entry hk⟩
  · obtain ⟨gap, hgap, hlines⟩ := Text.splitLines_append_feed ht
    refine ⟨gap, hgap, ?_⟩
    rw [hlines, splitLines_entry hk]

/-! ### The pair that a text tells -/

open Keypair (Line)

theorem ofText_created (created : Timestamp) :
    Line.ofText (createdMark ++ created.toText) = .other := by
  have htrimmed : Text.trimChars created.toText.toList = created.toText.toList :=
    Text.trimChars_of_not_isBlank created.toText_solid
  have hchars : (createdMark ++ created.toText).toList =
      '#' :: " created: ".toList ++ created.toText.toList := by simp [createdMark]
  have htrim : Text.trimChars (createdMark ++ created.toText).toList =
      '#' :: " created: ".toList ++ created.toText.toList := by
    rw [hchars]
    exact Text.trimChars_append (by decide) created.toText_ne_nil htrimmed
  obtain ⟨more, hmore⟩ := Keypair.tellsPublicKey_lower ('#' :: " created: ".toList)
    created.toText.toList (List.all_iff_forall_prop.1 (by decide))
  have htold : Keypair.tellsPublicKey ('#' :: " created: ".toList ++ created.toText.toList) =
      false := by
    rw [hmore]
    rfl
  have hsecret : Keypair.startsWith ('#' :: " created: ".toList ++ created.toText.toList)
      Keypair.secretKeyStart = false := rfl
  unfold Line.ofText
  rw [htrim]
  dsimp only
  rw [htold, if_neg Bool.false_ne_true, hsecret, if_neg Bool.false_ne_true]

theorem found_of_entryLines (hk : k.IsWhole) (found : Keypair) :
    (entryLines created k).foldl (fun found line => (Line.ofText line).record found) found = k := by
  have hsecret := hk.secret.resolve_left hk.hasPrivate
  simp only [entryLines, List.foldl_cons, List.foldl_nil]
  rw [ofText_created, Keypair.ofText_publicKey hk.publicKey hk.hasPublic,
    Keypair.ofText_secretKey hk.privateKey hsecret]
  rfl

theorem ofOutput_withEntry (hk : k.IsWhole) (ht : '\r' ∉ text.toList) :
    Keypair.ofOutput (withEntry text (entry created k)) = .ok k := by
  obtain ⟨gap, hgap, hlines⟩ := splitLines_withEntry hk ht created
  have hscan : Keypair.scan (withEntry text (entry created k)) = k := by
    rw [Keypair.scan, hlines, List.foldl_append, List.foldl_append]
    exact found_of_entryLines hk _
  exact Keypair.ofOutput_eq_ok.2 ⟨hscan, hk.hasPublic, hk.hasPrivate⟩

/-! ### The first public key -/

def isMarked (line : String) : Bool :=
  publicKeyMark.toList.isPrefixOf (Text.lowerCase line).toList

theorem isMarked_append (start rest : String) (hs : ∀ c ∈ start.toList, c.toNat < 0x80) :
    ∃ more, isMarked (start ++ rest) =
      publicKeyMark.toList.isPrefixOf (start.toList.map Char.toLower ++ more) := by
  obtain ⟨more, hmore⟩ := Text.LowerCase.chars_append_ascii hs [] rest.toList
  refine ⟨more, ?_⟩
  rw [isMarked, Text.lowerCase, String.toList_ofList, String.toList_append, hmore]

theorem isMarked_created (created : Timestamp) :
    isMarked (createdMark ++ created.toText) = false := by
  obtain ⟨more, hmore⟩ := isMarked_append createdMark created.toText
    (List.all_iff_forall_prop.1 (by decide))
  rw [hmore]
  rfl

theorem isMarked_publicKey (key : String) : isMarked (publicKeyMark ++ key) = true := by
  obtain ⟨more, hmore⟩ := isMarked_append publicKeyMark key
    (List.all_iff_forall_prop.1 (by decide))
  rw [hmore]
  rfl

theorem firstPublicKey?_withEntry (hk : k.IsWhole) (ht : '\r' ∉ text.toList) :
    firstPublicKey? (withEntry text (entry created k)) =
      (firstPublicKey? text).or (some k.publicKey) := by
  obtain ⟨gap, hgap, hlines⟩ := splitLines_withEntry hk ht created
  -- in what an entry adds, the line of its own public key is the first that is marked
  have hgap : gap.find? isMarked = none := by
    rcases hgap with rfl | rfl <;> rfl
  have hentry : (entryLines created k).find? isMarked = some (publicKeyMark ++ k.publicKey) := by
    rw [entryLines, List.find?_cons_of_neg (by simp [isMarked_created]),
      List.find?_cons_of_pos (isMarked_publicKey _)]
  have hkey : Text.trim (String.ofList
      ((publicKeyMark ++ k.publicKey).toList.drop publicKeyMark.length)) = k.publicKey := by
    have hmark : publicKeyMark.toList.length = publicKeyMark.length := String.length_toList
    rw [String.toList_append, List.drop_left' hmark, String.ofList_toList, Text.trim,
      hk.publicKey.1, String.ofList_toList]
  change ((Text.splitLines _).find? isMarked).map _ =
    (((Text.splitLines text).find? isMarked).map _).or _
  rw [hlines, List.find?_append, List.find?_append, hgap, hentry]
  cases (Text.splitLines text).find? isMarked with
  | none => exact congrArg some hkey
  | some line => rfl

/-! ### A text that grows by several entries -/

def grown (text : String) (saves : List (Timestamp × Keypair)) : String :=
  saves.foldl (fun text s => withEntry text (entry s.1 s.2)) text

variable {s : Timestamp × Keypair} {saves : List (Timestamp × Keypair)}

theorem grown_concat (text : String) (saves : List (Timestamp × Keypair))
    (s : Timestamp × Keypair) :
    grown text (saves ++ [s]) = withEntry (grown text saves) (entry s.1 s.2) := by
  rw [grown, List.foldl_append]
  rfl

theorem cr_not_mem_grown (hs : ∀ s ∈ saves, s.2.IsWhole) (ht : '\r' ∉ text.toList) :
    '\r' ∉ (grown text saves).toList := by
  induction saves using List.reverseRecOn with
  | nil => exact ht
  | append_singleton saves s ih =>
    rw [grown_concat]
    exact cr_not_mem_withEntry (hs s (by simp)) (ih fun x hx => hs x (by simp [hx]))

theorem lines_grown (hs : ∀ s ∈ saves, s.2.IsWhole) : lines (grown text saves) =
    lines text ++ saves.flatMap fun s => entryLines s.1 s.2 ++ [""] := by
  induction saves using List.reverseRecOn with
  | nil => simp [grown]
  | append_singleton saves s ih =>
    rw [grown_concat, lines_withEntry (hs s (by simp)), ih fun x hx => hs x (by simp [hx])]
    simp

def IsBlock (s : Timestamp × Keypair) (block : List String) : Prop :=
  ∃ gap, (gap = [] ∨ gap = [""]) ∧ block = gap ++ entryLines s.1 s.2

theorem splitLines_grown (hs : ∀ s ∈ saves, s.2.IsWhole) (ht : '\r' ∉ text.toList) :
    ∃ blocks, List.Forall₂ IsBlock saves blocks ∧
      Text.splitLines (grown text saves) = Text.splitLines text ++ blocks.flatten := by
  induction saves using List.reverseRecOn with
  | nil => exact ⟨[], .nil, by simp [grown]⟩
  | append_singleton saves s ih =>
    have hbefore : ∀ x ∈ saves, x.2.IsWhole := fun x hx => hs x (by simp [hx])
    obtain ⟨blocks, hblocks, hlines⟩ := ih hbefore
    obtain ⟨gap, hgap, hentry⟩ :=
      splitLines_withEntry (hs s (by simp)) (cr_not_mem_grown hbefore ht) s.1
    refine ⟨blocks ++ [gap ++ entryLines s.1 s.2],
      List.rel_append hblocks (.cons ⟨gap, hgap, rfl⟩ .nil), ?_⟩
    rw [grown_concat, hentry, hlines]
    simp

theorem firstPublicKey?_grown (hs : ∀ s ∈ saves, s.2.IsWhole) (ht : '\r' ∉ text.toList) :
    firstPublicKey? (grown text saves) =
      (firstPublicKey? text).or (saves.head?.map fun s => s.2.publicKey) := by
  induction saves using List.reverseRecOn with
  | nil => simp [grown]
  | append_singleton saves s ih =>
    have hbefore : ∀ x ∈ saves, x.2.IsWhole := fun x hx => hs x (by simp [hx])
    rw [grown_concat, firstPublicKey?_withEntry (hs s (by simp)) (cr_not_mem_grown hbefore ht),
      ih hbefore]
    cases saves <;> simp

theorem ofOutput_grown (hs : ∀ s ∈ saves, s.2.IsWhole) (ht : '\r' ∉ text.toList)
    (hl : saves.getLast? = some s) : Keypair.ofOutput (grown text saves) = .ok s.2 := by
  obtain ⟨before, rfl⟩ := List.getLast?_eq_some_iff.1 hl
  rw [grown_concat]
  exact ofOutput_withEntry (hs s (by simp))
    (cr_not_mem_grown (fun x hx => hs x (by simp [hx])) ht)

end KeyFile

end TeamVault
