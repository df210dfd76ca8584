import TeamVault.Proofs.KeyWarning
import TeamVault.Proofs.Tables
import TeamVault.Proofs.TeamKeys

/-!
Who has no key, as the list of members tells it. The line below the table counts those whose key is
missing or blank, and they are the ones whom a policy leaves out. The table marks a key that is
missing or empty, so the two differ over a key that consists of blanks.
-/
namespace TeamVault

open Console (plainText?)

/-! ### Members and their keys -/

namespace Recipient

variable {r : Recipient} {rs : List Recipient}

def IsLeftOut (r : Recipient) (keys : List String) : Prop :=
  ∀ k, r.publicKey = some k → Text.trim k ∉ keys

theorem key?_eq_none : r.key? = none ↔ ∀ k, r.publicKey = some k → Text.hasInk k = false := by
  have hcarries : r.key? = none ↔ ∀ key, ¬ r.Carries key := by
    simp only [carries_iff, Option.eq_none_iff_forall_ne_some, ne_eq]
  rw [hcarries]
  constructor
  · intro hnone k hk
    by_contra hink
    exact hnone _ ⟨k, hk, Bool.not_eq_false _ ▸ hink, rfl⟩
  · rintro hblank key ⟨k, hk, hink, -⟩
    rw [hblank k hk] at hink
    cases hink

theorem isLeftOut_iff (hr : r ∈ rs) : r.IsLeftOut (keys rs) ↔ r.key? = none := by
  rw [key?_eq_none]
  constructor
  · intro hout k hk
    by_contra hink
    exact hout k hk (mem_keys_iff.2 ⟨r, hr, k, hk, Bool.not_eq_false _ ▸ hink, rfl⟩)
  · intro hblank k hk hmem
    obtain ⟨s, -, key, -, hink, htrim⟩ := mem_keys_iff.1 hmem
    have hempty : Text.trim key = "" := htrim.trans (Text.trim_eq_empty_iff.2 (hblank k hk))
    rw [Text.trim_eq_empty_iff, hink] at hempty
    cases hempty

end Recipient

namespace Console

def marker : String := "[yellow]none[/]"

theorem shortKey_eq_marker {key : String} :
    shortKey key shortKeyWidth = marker ↔ key = "" ∨ key = marker := by
  have hmarker : marker.length = 15 := by decide
  unfold shortKey
  split
  next he => simp [he, marker]
  next hne =>
    simp only [hne, false_or]
    split
    · rfl
    next hlong =>
      constructor
      · intro hm
        have hl := congrArg String.length hm
        have hcut : (takeSigned shortKeyWidth key).length = min 20 key.length := by
          simp [takeSigned, shortKeyWidth, String.length_toList]
        have hdots : "...".length = 3 := by decide
        have hwide : shortKeyWidth < key.length := Int.not_le.1 hlong
        rw [String.length_append, hcut, hmarker, hdots] at hl
        unfold shortKeyWidth at hwide
        omega
      · rintro rfl
        exact absurd (by decide) hlong

end Console

namespace Command.Project

open Console (marker tableText)
open Console.Markup (isPlain isPlain_nat literal_isPlain tagName)

variable {v : Values} {h : Host} {w w' : World} {all : List Recipient}

def roster (v : Values) : Action (List Recipient) := do
  let project ← projectOr (filled? (v.text? "project-id"))
  Roster.ofProject (← client v) project

def header : List String := ["Email", "Name", "Permission", "Age Public Key"]

def title (all : List Recipient) : String := "Project Members (" ++ toString all.length ++ ")"

def keylessText : String := " member(s) have no public key yet and cannot decrypt."

def footer (keyless : Nat) : String :=
  if keyless = 0 then "" else "  " ++ toString keyless ++ keylessText ++ "\n\n"

def ShownAs (cells row : List String) : Prop :=
  List.Forall₂ (fun cell text => plainText? cell = some text) cells row

/-- What is shown of members: a line, or a table with one row for each of them and a line that
counts those without a key. Where a cell cannot be shown, nothing is. -/
inductive Shows (all : List Recipient) (w : World) : Except Failure Unit × World → Prop
  | nobody (none : all = []) : Shows all w (.ok (), w.showing "\n  No members found.\n\n")
  | table {rows : List (List String)} (some : all ≠ [])
      (shown : List.Forall₂ (fun r row => ShownAs (memberRow r) row) all rows) :
      Shows all w (.ok (), w.showing (tableText (title all) (header :: rows) ++
        footer (keyless all).length))
  | broken {r : Recipient} {cell : String} (member : r ∈ all) (mem : cell ∈ memberRow r)
      (unshown : plainText? cell = none) : Shows all w (.error (.crash .markup), w)

def showMembers (all : List Recipient) : Action Unit :=
  if all.isEmpty then Console.print "\n  [dim]No members found.[/]\n"
  else do
    Console.printTable (title all) header (all.map memberRow)
    if (keyless all).length ≠ 0 then
      Console.print ("  [yellow]" ++ toString (keyless all).length ++
        " member(s) have no public key yet and cannot decrypt.[/]\n")

theorem members_run (v : Values) : members.run v = roster v >>= showMembers := by
  simp only [members, roster, bind_assoc]
  rfl

theorem mem_keyless {r : Recipient} : r ∈ keyless all ↔ r ∈ all ∧ r.key? = none := by
  rw [keyless, List.mem_filter, Recipient.hasKey, Bool.not_eq_true', Option.isSome_eq_false_iff,
    Option.isNone_iff_eq_none]

theorem title_shown (all : List Recipient) : plainText? (title all) = some (title all) := by
  have hstart : ∀ c ∈ "Project Members (".toList, isPlain c = true :=
    literal_isPlain (by decide +kernel)
  have hend : ∀ c ∈ ")".toList, isPlain c = true := literal_isPlain (by decide +kernel)
  refine Console.plainText?_plain fun c hc => ?_
  unfold title at hc
  rw [String.toList_append, List.mem_append, String.toList_append, List.mem_append] at hc
  rcases hc with (hc | hc) | hc
  · exact hstart c hc
  · exact isPlain_nat hc
  · exact hend c hc

theorem footer_shown (n : Nat) :
    plainText? ("  [yellow]" ++ toString n ++
        " member(s) have no public key yet and cannot decrypt.[/]\n") =
      some ("  " ++ toString n ++ keylessText ++ "\n") := by
  have hinner : ∀ c ∈ (toString n ++ keylessText).toList, isPlain c = true := by
    intro c hc
    rw [String.toList_append, List.mem_append] at hc
    obtain hc | hc := hc
    · exact isPlain_nat hc
    · exact literal_isPlain (by decide +kernel) c hc
  have hopen : ∀ name, tagName "yellow".toList ≠ '/' :: name := by simp [tagName]
  have hbefore : ∀ c ∈ "  ".toList, isPlain c = true := literal_isPlain (by decide +kernel)
  have hbehind : ∀ c ∈ "\n".toList, isPlain c = true := literal_isPlain (by decide +kernel)
  have hbody : Console.Markup.IsBody "yellow".toList :=
    ⟨List.all_eq_true.1 (by decide), 'y', rfl, by decide⟩
  have hs := Console.plainText?_styled hbefore hinner hbehind hbody hopen
  have hmarked : "  [yellow]" ++ toString n ++
      " member(s) have no public key yet and cannot decrypt.[/]\n" =
      "  " ++ "[" ++ "yellow" ++ "]" ++ (toString n ++ keylessText) ++ "[/]" ++ "\n" := by
    simp [keylessText, ← String.toList_inj]
  rw [hmarked, hs]
  simp [keylessText, ← String.toList_inj]

theorem showMembers_shows (all : List Recipient) (h : Host) (w : World) :
    Shows all w (showMembers all h w) := by
  unfold showMembers
  by_cases hall : all = []
  · have hnobody : plainText? "\n  [dim]No members found.[/]\n" =
        some "\n  No members found.\n" := by
      decide +kernel
    rw [if_pos (by simp [hall]), Console.print_apply hnobody]
    exact .nobody hall
  rw [if_neg (by simpa using hall)]
  rw [Action.bind_apply, Console.printTable_apply (title_shown all)]
  cases hrows : (all.map memberRow).mapM fun row => row.mapM plainText? with
  | none =>
    obtain ⟨row, hrow, hnone⟩ := Console.exists_of_mapM_none hrows
    obtain ⟨r, hr, rfl⟩ := List.mem_map.1 hrow
    obtain ⟨cell, hcell, hunshown⟩ := Console.exists_of_mapM_none hnone
    exact .broken hr hcell hunshown
  | some rows =>
    have hshown := (List.forall₂_map_left_iff.1 (Console.forall₂_of_mapM hrows)).imp
      fun r row hrow => Console.forall₂_of_mapM hrow
    have htable := Shows.table (w := w) hall hshown
    dsimp only
    split
    next hn =>
      rw [Console.print_apply (footer_shown _), World.showing_showing]
      rw [footer, if_neg hn] at htable
      convert htable using 3
      simp [← String.toList_inj]
    next hn =>
      rw [footer, if_pos (not_not.1 hn), String.append_empty] at htable
      exact htable

def keyCell (r : Recipient) : String := (memberRow r).getLastD ""

/-- A key that consists of blanks, or that reads like the marker. -/
def IsUnclear (r : Recipient) : Prop :=
  ∃ k, r.publicKey = some k ∧ k ≠ "" ∧ (Text.hasInk k = false ∨ k = marker)

theorem keyCell_eq_marker {r : Recipient} :
    keyCell r = marker ↔ (∀ k, r.publicKey = some k → k = "") ∨ r.publicKey = some marker := by
  have hcell : keyCell r = Console.shortKey (r.publicKey.getD "") Console.shortKeyWidth := rfl
  rw [hcell, Console.shortKey_eq_marker]
  cases r.publicKey with
  | none => simp
  | some k => simp

/-- The table and the count differ over unclear keys alone. -/
theorem marked_iff {r : Recipient} : (keyCell r = marker ↔ r.key? = none) ↔ ¬ IsUnclear r := by
  rw [keyCell_eq_marker, Recipient.key?_eq_none]
  have hmarker : Text.hasInk marker = true := by decide
  have hempty : Text.hasInk "" = false := by decide
  unfold IsUnclear
  cases r.publicKey with
  | none => simp
  | some k =>
    by_cases he : k = ""
    · subst he
      simp [hempty]
    by_cases hk : k = marker
    · subst hk
      simp [hmarker, he]
    · simp [he, hk]

/-- What the list of members says of keys. Below the table those are counted whose key is missing or
consists of blanks, and they are the ones whose keys a policy for these members leaves out. The
table marks a key that is missing or empty, so it agrees with the count where no key consists of
blanks, if the marker itself is nobody's key. -/
theorem members_are_shown (hm : roster v h w = (.ok all, w')) :
    Shows all w' (members.run v h w) ∧
    (∀ r, r ∈ keyless all ↔ r ∈ all ∧ ∀ k, r.publicKey = some k → Text.hasInk k = false) ∧
    (∀ r, r ∈ keyless all ↔ r ∈ all ∧ r.IsLeftOut (Recipient.keys all)) ∧
    (∀ r, keyCell r = marker ↔ (∀ k, r.publicKey = some k → k = "") ∨ r.publicKey = some marker) ∧
    ∀ r ∈ all, (keyCell r = marker ↔ r ∈ keyless all) ↔ ¬ IsUnclear r := by
  refine ⟨?_, fun r => ?_, fun r => ?_, fun r => keyCell_eq_marker, fun r hr => ?_⟩
  · rw [members_run, Action.bind_of_ok hm]
    exact showMembers_shows all h w'
  · rw [mem_keyless, Recipient.key?_eq_none]
  · rw [mem_keyless]
    exact and_congr_right fun hr => (Recipient.isLeftOut_iff hr).symm
  · rw [mem_keyless, and_iff_right hr]
    exact marked_iff

/-! A service that lists one member with a blank key, and one that lists a member without a key
before another who has one. -/

def telling (members : String) : Host :=
  { Desk.host with respond := fun _ _ => Sample.saying ("\x7b\"members\":[" ++ members ++ "]\x7d") }

def blankKey : Host := telling "\x7b\"identity\":\"ann\",\"public_key\":\" \"\x7d"

def noKey : Host :=
  telling "\x7b\"identity\":\"ann\"\x7d,\x7b\"identity\":\"bob\",\"public_key\":\"age1b\"\x7d"

def member (identity : String) (key : Option String) : Recipient :=
  ⟨identity, key, none, none, none, none⟩

/-- The table marks one of two members, and the same one is counted. -/
theorem keyless_member_is_marked :
    ∃ w', roster Twins.values noKey (Twins.world "A=1") =
        (.ok [member "ann" none, member "bob" (some "age1b")], w') ∧
      ∀ r ∈ [member "ann" none, member "bob" (some "age1b")],
        keyCell r = marker ↔ r ∈ keyless [member "ann" none, member "bob" (some "age1b")] := by
  have hroster : ∃ w', roster Twins.values noKey (Twins.world "A=1") =
      (.ok [member "ann" none, member "bob" (some "age1b")], w') :=
    ⟨_, Action.eq_of_toOption (by decide +kernel)⟩
  obtain ⟨w', hm⟩ := hroster
  refine ⟨w', hm, fun r hr => ((members_are_shown hm).2.2.2.2 r hr).2 ?_⟩
  rintro ⟨k, hk, -, hunclear⟩
  simp only [List.mem_cons, List.not_mem_nil, or_false] at hr
  obtain rfl | rfl := hr
  · cases hk
  · cases hk
    exact absurd hunclear (by decide)

/-- A blank key is counted and left out, but the table does not mark it. -/
theorem blank_key_is_not_marked :
    (∃ w', roster Twins.values blankKey (Twins.world "A=1") = (.ok [member "ann" (some " ")], w')) ∧
      member "ann" (some " ") ∈ keyless [member "ann" (some " ")] ∧
      (member "ann" (some " ")).IsLeftOut (Recipient.keys [member "ann" (some " ")]) ∧
      keyCell (member "ann" (some " ")) ≠ marker ∧
      Console.lines (members.run Twins.values blankKey (Twins.world "A=1")).2.printed =
        ["Project Members (1)", "| Email | Name | Permission | Age Public Key |", "| ann | | - | |",
          "1 member(s) have no public key yet and cannot decrypt."] := by
  refine ⟨⟨_, Action.eq_of_toOption (by decide +kernel)⟩, by decide, ?_, by decide,
    by decide +kernel⟩
  exact (Recipient.isLeftOut_iff List.mem_cons_self).2 (by decide)

end Command.Project

end TeamVault
