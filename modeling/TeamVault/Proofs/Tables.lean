import TeamVault.Proofs.Reports
import TeamVault.Proofs.StoredTime

/-!
What is shown of plain texts and of tables. A text without brackets, backslashes and control
characters is shown as it is, also where a part of it has a style. A table is shown cell by cell, or
not at all.
-/
namespace TeamVault

/-! ### Plain text -/

namespace Console

namespace Markup

variable {t : List Char}

def isPlain (c : Char) : Bool :=
  c != '\\' && c != '[' && (c.toNat = 10 || 13 < c.toNat)

theorem literal_isPlain {s : String} (hs : s.toList.all isPlain = true) :
    ∀ c ∈ s.toList, isPlain c = true :=
  List.all_eq_true.1 hs

theorem isPlain_nat {n : Nat} {c : Char} (hc : c ∈ (toString n).toList) : isPlain c = true := by
  have hdigit : c ∈ Nat.toDigits 10 n := by simpa using hc
  have hrange := Timestamp.toNat_of_isDigit (Timestamp.isDigit_of_mem_toDigits hdigit)
  have hslash : c ≠ '\\' := by
    rintro rfl
    exact absurd hrange.2 (by decide)
  have hbracket : c ≠ '[' := by
    rintro rfl
    exact absurd hrange.2 (by decide)
  simp only [isPlain, Bool.and_eq_true, bne_iff_ne, Bool.or_eq_true, decide_eq_true_eq]
  exact ⟨⟨hslash, hbracket⟩, .inr (by omega)⟩

theorem pieces_plain (ht : ∀ c ∈ t, isPlain c = true) (fuel : Nat) (seen cs : List Char) :
    pieces (t.length + fuel) seen (t ++ cs) = pieces fuel (t.reverse ++ seen) cs := by
  induction t generalizing seen with
  | nil => simp
  | cons c t ih =>
    obtain ⟨hc, ht⟩ := List.forall_mem_cons.1 ht
    simp only [isPlain, Bool.and_eq_true, bne_iff_ne] at hc
    have hlength : (c :: t).length + fuel = (t.length + fuel) + 1 := by
      simp only [List.length_cons]
      omega
    rw [hlength, List.cons_append, pieces, tagged?_other hc.1.1 hc.1.2, ih ht]
    simp

theorem shown_plain (ht : ∀ c ∈ t, isPlain c = true) : shown t = t := by
  induction t with
  | nil => rfl
  | cons c t ih =>
    obtain ⟨hc, ht⟩ := List.forall_mem_cons.1 ht
    simp only [isPlain, Bool.and_eq_true, bne_iff_ne, Bool.or_eq_true, decide_eq_true_eq] at hc
    have hcontrol : ¬ (c.toNat = 7 ∨ c.toNat = 8 ∨ c.toNat = 11 ∨ c.toNat = 12 ∨ c.toNat = 13) := by
      omega
    rw [shown, if_neg hcontrol, ih ht]
    exact fun rest h => absurd h hc.1.1

theorem shownBy?_flush (o : List String) {seen : List Char} (hs : ∀ c ∈ seen, isPlain c = true)
    (ps : List Piece) :
    shownBy? o (flush seen ++ ps) = (shownBy? o ps).map (seen.reverse ++ ·) := by
  cases seen with
  | nil => simp [flush]
  | cons c seen =>
    have hrev : shown (c :: seen).reverse = (c :: seen).reverse :=
      shown_plain fun d hd => hs d (List.mem_reverse.1 hd)
    rw [flush, if_neg (by simp), List.singleton_append, shownBy?, hrev]

theorem pieces_nil (fuel : Nat) (seen : List Char) : pieces (fuel + 1) seen [] = flush seen := by
  rw [pieces]
  exact Nat.succ_ne_zero fuel

theorem pieces_tag {inside : List Char} (hi : IsBody inside) (fuel : Nat) (seen rest : List Char) :
    pieces (fuel + 1) seen ('[' :: (inside ++ ']' :: rest)) =
      flush seen ++ .tag inside :: pieces fuel [] rest := by
  have ht : tagged? ('[' :: (inside ++ ']' :: rest)) = some (0, inside, rest) :=
    tagged?_eq_some.2 ⟨rfl, hi⟩
  rw [pieces, ht]
  simp [piecesOfTag]

end Markup

open Markup

theorem plainText?_plain {s : String} (hs : ∀ c ∈ s.toList, isPlain c = true) :
    plainText? s = some s := by
  have hall := pieces_plain hs 1 [] []
  rw [List.append_nil, List.append_nil, String.length_toList] at hall
  have hseen : ∀ c ∈ s.toList.reverse, isPlain c = true :=
    fun c hc => hs c (List.mem_reverse.1 hc)
  have hflush := shownBy?_flush [] hseen []
  rw [List.append_nil, List.reverse_reverse] at hflush
  rw [plainText?, hall, pieces_nil, hflush]
  simp [shownBy?]

theorem plainText?_styled {before style inner behind : String}
    (hb : ∀ c ∈ before.toList, isPlain c = true) (hi : ∀ c ∈ inner.toList, isPlain c = true)
    (he : ∀ c ∈ behind.toList, isPlain c = true) (hstyle : IsBody style.toList)
    (hopen : ∀ name, tagName style.toList ≠ '/' :: name) :
    plainText? (before ++ "[" ++ style ++ "]" ++ inner ++ "[/]" ++ behind) =
      some (before ++ inner ++ behind) := by
  have hlist : (before ++ "[" ++ style ++ "]" ++ inner ++ "[/]" ++ behind).toList =
      before.toList ++ '[' :: (style.toList ++ ']' :: (inner.toList ++ '[' :: (['/'] ++ ']' ::
        (behind.toList ++ [])))) := by
    simp
  have hlength : (before ++ "[" ++ style ++ "]" ++ inner ++ "[/]" ++ behind).length + 1 =
      before.toList.length + (inner.toList.length + (behind.toList.length +
        (style.toList.length + 3 + 1) + 1) + 1) := by
    rw [← String.length_toList, hlist]
    simp only [List.length_append, List.length_cons, List.length_nil]
    omega
  have hslash : IsBody ['/'] := ⟨List.all_eq_true.1 (by decide), '/', rfl, by decide⟩
  rw [plainText?, hlist, hlength, pieces_plain hb, pieces_tag hstyle, pieces_plain hi,
    pieces_tag hslash, pieces_plain he, pieces_nil]
  have hclose : openBehind? [styleName (tagName style.toList)] ['/'] = some [] := rfl
  have hlast := shownBy?_flush [] (fun c hc => he c (List.mem_reverse.1 hc)) []
  simp only [List.append_nil] at *
  rw [shownBy?_flush [] fun c hc => hb c (List.mem_reverse.1 hc), shownBy?_tag,
    openBehind?_opening hopen, Option.bind_some,
    shownBy?_flush _ fun c hc => hi c (List.mem_reverse.1 hc), shownBy?_tag, hclose,
    Option.bind_some, hlast]
  simp [shownBy?, ← String.toList_inj]

end Console

/-! ### Tables -/

def World.showing (w : World) (s : String) : World := { w with printed := w.printed ++ s }

theorem World.showing_showing (w : World) (s t : String) :
    (w.showing s).showing t = w.showing (s ++ t) := by
  simp [showing, String.append_assoc]

namespace Console

variable {h : Host} {w : World} {title : String} {header : List String} {rows : List (List String)}

theorem print_apply {s t : String} (hs : plainText? s = some t) :
    print s h w = (.ok (), w.showing (t ++ "\n")) :=
  Action.bind_of_ok (rendered_of_shown hs)

def orMarkup {α : Type} (shown : Option α) : Except Failure α :=
  shown.elim (.error (.crash .markup)) .ok

theorem rendered_apply (s : String) (h : Host) (w : World) :
    rendered s h w = (orMarkup (plainText? s), w) := by
  unfold rendered
  cases plainText? s <;> rfl

theorem mapM_orMarkup {α β : Type} {f : α → Action β} {g : α → Option β}
    (hf : ∀ x h w, f x h w = (orMarkup (g x), w)) (xs : List α) (h : Host) (w : World) :
    xs.mapM f h w = (orMarkup (xs.mapM g), w) := by
  induction xs with
  | nil => rfl
  | cons x xs ih =>
    rw [List.mapM_cons, List.mapM_cons, Action.bind_apply, hf]
    cases g x with
    | none => rfl
    | some y =>
      change (xs.mapM f >>= fun ys => pure (y :: ys)) h w = _
      rw [Action.bind_apply, ih]
      cases xs.mapM g <;> rfl

def tableText (title : String) (rows : List (List String)) : String :=
  title ++ "\n" ++ "\n".intercalate (rows.flatMap rowLines) ++ "\n"

/-- A table shows a row of shown cells for each row, or nothing at all. -/
theorem printTable_apply (ht : plainText? title = some title) :
    printTable title header rows h w =
      match rows.mapM fun row => row.mapM plainText? with
      | some shown => (.ok (), w.showing (tableText title (header :: shown)))
      | none => (.error (.crash .markup), w) := by
  unfold printTable
  rw [Action.bind_of_ok (rendered_of_shown ht), Action.bind_apply,
    mapM_orMarkup fun row => mapM_orMarkup rendered_apply row]
  cases rows.mapM fun row => row.mapM plainText? <;> rfl

theorem forall₂_of_mapM {α β : Type} {g : α → Option β} {xs : List α} {ys : List β}
    (hm : xs.mapM g = some ys) : List.Forall₂ (fun x y => g x = some y) xs ys := by
  induction xs generalizing ys with
  | nil =>
    cases hm
    exact .nil
  | cons x xs ih =>
    rw [List.mapM_cons] at hm
    obtain ⟨y, hy, hrest⟩ := Option.bind_eq_some_iff.1 hm
    obtain ⟨zs, hzs, hlast⟩ := Option.bind_eq_some_iff.1 hrest
    cases hlast
    exact .cons hy (ih hzs)

theorem exists_of_mapM_none {α β : Type} {g : α → Option β} {xs : List α}
    (hm : xs.mapM g = none) : ∃ x ∈ xs, g x = none := by
  induction xs with
  | nil => cases hm
  | cons x xs ih =>
    cases hx : g x with
    | none => exact ⟨x, List.mem_cons_self, hx⟩
    | some y =>
      cases hxs : xs.mapM g with
      | none =>
        obtain ⟨z, hz, hnone⟩ := ih hxs
        exact ⟨z, List.mem_cons_of_mem x hz, hnone⟩
      | some ys =>
        rw [List.mapM_cons, hx, hxs] at hm
        cases hm

end Console

end TeamVault
