import TeamVault.Console.Screen
import Mathlib.Data.List.Chain
import Mathlib.Data.List.TakeWhile

/-!
Which marked-up text can be shown. A text in which no bracket starts a tag can stand anywhere in it:
all that it can do to the tags around it is to keep a closing one from closing. So a line that is
sound by itself is shown whatever such texts are put in.
-/
namespace TeamVault.Console

namespace Markup

variable {o o' : List String} {cs rest more inside : List Char} {c : Char} {slashes : Nat}

/-! ### Tags in the text -/

theorem ne_of_startsTag (hc : startsTag c = true) : c ≠ '[' ∧ c ≠ ']' := by
  constructor <;> rintro rfl <;> exact absurd hc (by decide)

def isInner (c : Char) : Bool := c != '[' && c != ']'

def IsBody (inside : List Char) : Prop :=
  (∀ d ∈ inside, isInner d = true) ∧ ∃ d ∈ inside.head?, startsTag d = true

theorem tag?_cons (c : Char) (cs : List Char) :
    tag? (c :: cs) = if startsTag c then
      match (c :: cs).dropWhile isInner with
      | ']' :: rest => some ((c :: cs).takeWhile isInner, rest)
      | _ => none
    else none := by
  have hdrop : (c :: cs).drop ((c :: cs).takeWhile isInner).length =
      (c :: cs).dropWhile isInner := by
    have hsplit := List.takeWhile_append_dropWhile (p := isInner) (l := c :: cs)
    exact List.append_cancel_left ((List.prefix_iff_eq_append.1 ⟨_, hsplit⟩).trans hsplit.symm)
  rw [← hdrop]
  rfl

theorem tag?_eq_some : tag? cs = some (inside, rest) ↔
    cs = inside ++ ']' :: rest ∧ IsBody inside := by
  constructor
  · intro h
    cases cs with
    | nil => cases h
    | cons c cs =>
      rw [tag?_cons] at h
      split at h
      next hc =>
        split at h
        next after he =>
          cases h
          refine ⟨?_, fun d hd => List.mem_takeWhile_imp hd, c, ?_, hc⟩
          · rw [← he, List.takeWhile_append_dropWhile]
          · have hinner : isInner c = true := by
              obtain ⟨h1, h2⟩ := ne_of_startsTag hc
              simp [isInner, h1, h2]
            rw [List.takeWhile_cons_of_pos hinner]
            rfl
        · cases h
      · cases h
  · rintro ⟨rfl, hin, d, hd, hstart⟩
    cases inside with
    | nil => cases hd
    | cons c inside =>
      obtain rfl : c = d := Option.some.inj hd
      have htake : (c :: inside ++ ']' :: rest).takeWhile isInner = c :: inside := by
        rw [List.takeWhile_append_of_pos hin, List.takeWhile_cons_of_neg (by decide),
          List.append_nil]
      have hdrop : (c :: inside ++ ']' :: rest).dropWhile isInner = ']' :: rest := by
        rw [List.dropWhile_append_of_pos hin, List.dropWhile_cons_of_neg (by decide)]
      rw [List.cons_append] at htake hdrop
      rw [List.cons_append, tag?_cons, if_pos hstart, htake, hdrop]
      rfl

theorem tag?_of_head (h : ∀ d ∈ cs.head?, startsTag d = false) : tag? cs = none := by
  cases cs with
  | nil => rfl
  | cons d ds =>
    have hd : startsTag d = false := h d rfl
    simp only [tag?, hd, Bool.false_eq_true, if_false]

theorem tagged?_bracket (cs : List Char) :
    tagged? ('[' :: cs) = (tag? cs).map fun t => (0, t.1, t.2) := rfl

theorem tagged?_slash (cs : List Char) :
    tagged? ('\\' :: cs) = (tagged? cs).map fun t => (t.1 + 1, t.2) := by
  unfold tagged?
  have hrun : ('\\' :: cs).takeWhile (· == '\\') = '\\' :: cs.takeWhile (· == '\\') := rfl
  rw [hrun]
  simp only [List.length_cons, List.drop_succ_cons]
  split
  next rest he => simp only [Option.map_map]; rfl
  · rfl

theorem tagged?_other (hs : c ≠ '\\') (hb : c ≠ '[') : tagged? (c :: cs) = none := by
  have hrun : (c :: cs).takeWhile (· == '\\') = [] := by
    rw [List.takeWhile_cons_of_neg (by simpa using hs)]
  unfold tagged?
  rw [hrun]
  simp only [List.length_nil, List.drop_zero]
  split
  next rest he => exact absurd (List.cons.inj he).1 hb
  · rfl

theorem tagged?_replicate (n : Nat) (cs : List Char) :
    tagged? (List.replicate n '\\' ++ cs) = (tagged? cs).map fun t => (t.1 + n, t.2) := by
  induction n with
  | zero => simp
  | succ n ih =>
    rw [List.replicate_succ, List.cons_append, tagged?_slash, ih, Option.map_map]
    rfl

theorem tagged?_eq_some : tagged? cs = some (slashes, inside, rest) ↔
    cs = List.replicate slashes '\\' ++ '[' :: (inside ++ ']' :: rest) ∧ IsBody inside := by
  constructor
  · intro h
    induction cs generalizing slashes with
    | nil => cases h
    | cons c cs ih =>
      by_cases hb : c = '['
      · subst hb
        rw [tagged?_bracket, Option.map_eq_some_iff] at h
        obtain ⟨⟨i, r⟩, ht, he⟩ := h
        cases he
        obtain ⟨rfl, hbody⟩ := tag?_eq_some.1 ht
        exact ⟨rfl, hbody⟩
      by_cases hs : c = '\\'
      · subst hs
        rw [tagged?_slash, Option.map_eq_some_iff] at h
        obtain ⟨⟨n, i, r⟩, ht, he⟩ := h
        cases he
        obtain ⟨rfl, hbody⟩ := ih ht
        exact ⟨rfl, hbody⟩
      · rw [tagged?_other hs hb] at h
        cases h
  · rintro ⟨rfl, hbody⟩
    rw [tagged?_replicate, tagged?_bracket, tag?_eq_some.2 ⟨rfl, hbody⟩]
    simp

theorem length_of_tagged? (h : tagged? cs = some (slashes, inside, rest)) :
    rest.length < cs.length := by
  obtain ⟨rfl, -⟩ := tagged?_eq_some.1 h
  simp only [List.length_append, List.length_cons]
  omega

/-! ### What a tag does to the open ones -/

def openBehind? (o : List String) (inside : List Char) : Option (List String) :=
  match tagName inside with
  | '/' :: name =>
    if (Text.trimChars name).isEmpty then
      match o with
      | [] => none
      | _ :: others => some others
    else
      let name := styleName (Text.trimChars name)
      if name ∈ o then some (o.erase name) else none
  | name => some (styleName name :: o)

theorem openBehind?_opening (h : ∀ name, tagName inside ≠ '/' :: name) :
    openBehind? o inside = some (styleName (tagName inside) :: o) := by
  unfold openBehind?
  split
  next name hname => exact absurd hname (h name)
  · rfl

theorem shownBy?_tag (o : List String) (inside : List Char) (ps : List Piece) :
    shownBy? o (.tag inside :: ps) = (openBehind? o inside).bind fun o => shownBy? o ps := by
  by_cases hclosing : ∃ name, tagName inside = '/' :: name
  · obtain ⟨name, hname⟩ := hclosing
    rw [shownBy?.eq_def, openBehind?.eq_def]
    simp only [hname]
    by_cases he : (Text.trimChars name).isEmpty = true
    · simp only [he, if_true]
      cases o <;> rfl
    · simp only [he, Bool.false_eq_true, if_false]
      split <;> rfl
  · have hopening := not_exists.1 hclosing
    rw [openBehind?_opening hopening, shownBy?.eq_def]
    dsimp only
    split
    next name hname => exact absurd hname (hopening name)
    · rfl

theorem openBehind?_mono (h : o.Sublist o') {b : List String}
    (ho : openBehind? o inside = some b) :
    ∃ b', openBehind? o' inside = some b' ∧ b.Sublist b' := by
  unfold openBehind? at ho ⊢
  split at ho
  · split at ho
    · cases o with
      | nil => cases ho
      | cons x others =>
        cases ho
        cases o' with
        | nil => exact absurd h (by simp)
        | cons y more => exact ⟨more, by simp [*], h.tail⟩
    next hname =>
      dsimp only at ho
      split at ho
      next hmem =>
        cases ho
        exact ⟨_, by simp [hname, h.mem hmem], h.erase _⟩
      · cases ho
  next hname =>
    cases ho
    exact ⟨_, rfl, h.cons_cons _⟩

theorem shownBy?_mono {ps : List Piece} (h : o.Sublist o') (hp : (shownBy? o ps).isSome) :
    (shownBy? o' ps).isSome := by
  induction ps generalizing o o' with
  | nil => rfl
  | cons p ps ih =>
    cases p with
    | plain text =>
      rw [shownBy?, Option.isSome_map] at hp ⊢
      exact ih h hp
    | tag inside =>
      rw [shownBy?_tag] at hp ⊢
      cases ho : openBehind? o inside with
      | none => rw [ho] at hp; cases hp
      | some b =>
        rw [ho] at hp
        obtain ⟨b', hb', hsub⟩ := openBehind?_mono h ho
        rw [hb']
        exact ih hsub hp

/-! ### Texts that can be shown -/

/-- A text that can be shown behind open tags, whatever plain text was read before it. -/
def Shows (o : List String) (cs : List Char) : Prop :=
  ∀ fuel seen, cs.length < fuel → (shownBy? o (pieces fuel seen cs)).isSome

theorem isSome_flush (o : List String) (seen : List Char) (ps : List Piece) :
    (shownBy? o (flush seen ++ ps)).isSome = (shownBy? o ps).isSome := by
  unfold flush
  split
  · rfl
  · rw [List.singleton_append, shownBy?, Option.isSome_map]

theorem isSome_piecesOfTag (o : List String) (slashes : Nat) (inside : List Char)
    (ps : List Piece) :
    (shownBy? o (piecesOfTag slashes inside ++ ps)).isSome =
      if slashes % 2 = 1 then (shownBy? o ps).isSome
      else ((openBehind? o inside).bind fun o => shownBy? o ps).isSome := by
  have htag : (shownBy? o (piecesOfTag slashes inside ++ ps)).isSome =
      (shownBy? o ((if slashes % 2 = 1 then .plain ('[' :: inside ++ [']'])
        else .tag inside) :: ps)).isSome := by
    unfold piecesOfTag
    split
    · rfl
    · rw [List.singleton_append, List.cons_append, shownBy?, Option.isSome_map]
      rfl
  rw [htag]
  split
  · rw [shownBy?, Option.isSome_map]
  · rw [shownBy?_tag]

theorem shows_nil : Shows o [] := by
  intro fuel seen hf
  cases fuel with
  | zero => exact absurd hf (Nat.lt_irrefl 0)
  | succ fuel =>
    have hflush := isSome_flush o seen []
    rw [List.append_nil] at hflush
    exact hflush

theorem shows_cons (hn : tagged? (c :: cs) = none) (hs : Shows o cs) : Shows o (c :: cs) := by
  intro fuel seen hf
  cases fuel with
  | zero => exact absurd hf (Nat.not_lt_zero _)
  | succ fuel =>
    simp only [pieces, hn]
    exact hs fuel (c :: seen) (Nat.lt_of_succ_lt_succ hf)

theorem shows_tagged (ht : tagged? cs = some (slashes, inside, rest))
    (hodd : slashes % 2 = 1 → Shows o rest)
    (heven : slashes % 2 = 0 → ∃ b, openBehind? o inside = some b ∧ Shows b rest) : Shows o cs := by
  intro fuel seen hf
  have hlength := length_of_tagged? ht
  cases fuel with
  | zero => exact absurd hf (Nat.not_lt_zero _)
  | succ fuel =>
    cases cs with
    | nil => cases ht
    | cons c cs =>
      have hfuel : rest.length < fuel := by omega
      simp only [pieces, ht]
      rw [List.append_assoc, isSome_flush, isSome_piecesOfTag]
      split
      next hslashes => exact hodd hslashes fuel [] hfuel
      next hslashes =>
        obtain ⟨b, hb, hs⟩ := heven (by omega)
        rw [hb]
        exact hs fuel [] hfuel

theorem Shows.mono (h : o.Sublist o') (hs : Shows o cs) : Shows o' cs :=
  fun fuel seen hf => shownBy?_mono h (hs fuel seen hf)

theorem Shows.plainText? {s : String} (hs : Shows [] s.toList) : (plainText? s).isSome := by
  unfold Console.plainText?
  rw [Option.isSome_map]
  exact hs _ [] (by rw [String.length_toList]; omega)

def openAfter? : Nat → List String → List Char → Option (List String)
  | 0, _, _ => none
  | _, o, [] => some o
  | fuel + 1, o, c :: cs =>
    if c = '\\' then none
    else if c = '[' then match tag? cs with
      | some (inside, rest) => (openBehind? o inside).bind fun o => openAfter? fuel o rest
      | none => none
    else openAfter? fuel o cs

theorem shows_append {fuel : Nat} {b : List String} (ha : openAfter? fuel o cs = some b)
    (hs : Shows b rest) : Shows o (cs ++ rest) := by
  induction fuel generalizing o cs with
  | zero => cases ha
  | succ fuel ih =>
    cases cs with
    | nil =>
      cases ha
      exact hs
    | cons c cs =>
      unfold openAfter? at ha
      split at ha
      · cases ha
      next hslash =>
        split at ha
        next hbracket =>
          subst hbracket
          split at ha
          next inside after ht =>
            obtain ⟨rfl, hbody⟩ := tag?_eq_some.1 ht
            have htagged : tagged? ('[' :: (inside ++ ']' :: after) ++ rest) =
                some (0, inside, after ++ rest) := tagged?_eq_some.2 ⟨by simp, hbody⟩
            refine shows_tagged htagged (fun h => absurd h (by decide)) fun _ => ?_
            obtain ⟨b', hb', ha⟩ := Option.bind_eq_some_iff.1 ha
            exact ⟨b', hb', ih ha⟩
          · cases ha
        next hbracket => exact shows_cons (tagged?_other hslash hbracket) (ih ha)

/-! ### Texts without effect on what follows -/

/-- No tag starts in a text when `rest` stands behind it, other than one that is shown itself or the
one that `rest` starts with, behind the backslashes that the text ends with. -/
inductive Inert (rest : List Char) : List Char → Prop
  | slashes (n : Nat) : Inert rest (List.replicate n '\\')
  | plain {c : Char} {t : List Char} (none : tagged? (c :: t ++ rest) = none)
    (after : Inert rest t) : Inert rest (c :: t)
  | shown {t u inside : List Char} {slashes : Nat} (odd : slashes % 2 = 1)
    (tagged : tagged? (t ++ rest) = some (slashes, inside, u ++ rest)) (after : Inert rest u) :
    Inert rest t

variable {t : List Char}

theorem Inert.shows (hi : Inert rest t) (hn : tagged? rest = none) (hs : Shows o rest) :
    Shows o (t ++ rest) := by
  induction hi with
  | slashes n =>
    induction n with
    | zero => exact hs
    | succ n ih =>
      have hnone := tagged?_replicate (n + 1) rest
      rw [hn] at hnone
      exact shows_cons hnone ih
  | plain none _ ih => exact shows_cons none ih
  | shown odd tagged _ ih =>
    exact shows_tagged tagged (fun _ => ih) fun h => absurd odd (by omega)

/-- The tag that is closed behind a text may be left open instead, which does no harm. -/
theorem Inert.shows_closing {x : String} (hi : Inert ('[' :: '/' :: ']' :: rest) t)
    (hs : Shows o rest) : Shows (x :: o) (t ++ '[' :: '/' :: ']' :: rest) := by
  induction hi with
  | slashes n =>
    have htagged := tagged?_replicate n ('[' :: '/' :: ']' :: rest)
    have hclose : tagged? ('[' :: '/' :: ']' :: rest) = some (0, ['/'], rest) := rfl
    rw [hclose] at htagged
    exact shows_tagged htagged (fun _ => hs.mono (List.sublist_cons_self x o))
      fun _ => ⟨o, rfl, hs⟩
  | plain none _ ih => exact shows_cons none ih
  | shown odd tagged _ ih =>
    exact shows_tagged tagged (fun _ => ih) fun h => absurd odd (by omega)

def Untagged (cs : List Char) : Prop := cs.IsChain fun c d => c = '[' → startsTag d = false

instance (cs : List Char) : Decidable (Untagged cs) :=
  inferInstanceAs (Decidable (cs.IsChain _))

def IsBoundary (rest : List Char) : Prop := ∀ d ∈ rest.head?, startsTag d = false

theorem untagged_of_not_mem (h : '[' ∉ t) : Untagged t := by
  induction t with
  | nil => exact .nil
  | cons c t ih =>
    cases t with
    | nil => exact .singleton c
    | cons d t =>
      refine .cons_cons (fun hc => ?_) (ih fun hm => h (List.mem_cons_of_mem c hm))
      exact absurd (List.mem_cons.2 (.inl hc.symm)) h

theorem Untagged.tagged?_cases (ht : Untagged t) (hr : IsBoundary rest) :
    tagged? (t ++ rest) = none ∨ ∃ n, t = List.replicate n '\\' := by
  induction t with
  | nil => exact .inr ⟨0, rfl⟩
  | cons c t ih =>
    by_cases hb : c = '['
    · subst hb
      refine .inl ?_
      have hnone : tag? (t ++ rest) = none := by
        refine tag?_of_head fun d hd => ?_
        cases t with
        | nil => exact hr d hd
        | cons e t =>
          obtain rfl : e = d := Option.some.inj hd
          exact (List.isChain_cons_cons.1 ht).1 rfl
      rw [List.cons_append, tagged?_bracket, hnone]
      rfl
    by_cases hs : c = '\\'
    · subst hs
      obtain hnone | ⟨n, rfl⟩ := ih ht.tail
      · refine .inl ?_
        rw [List.cons_append, tagged?_slash, hnone]
        rfl
      · exact .inr ⟨n + 1, rfl⟩
    · exact .inl (tagged?_other hs hb)

theorem Untagged.inert (ht : Untagged t) (hr : IsBoundary rest) : Inert rest t := by
  induction t with
  | nil => exact .slashes 0
  | cons c t ih =>
    obtain hnone | ⟨n, hn⟩ := ht.tagged?_cases hr
    · exact .plain hnone (ih ht.tail)
    · rw [hn]
      exact .slashes n

/-! ### Escaped texts -/

def EndsNoTag (rest : List Char) : Prop := (rest.dropWhile isInner).head? ≠ some ']'

instance (rest : List Char) : Decidable (EndsNoTag rest) := inferInstanceAs (Decidable (_ ≠ _))

theorem not_endsNoTag (hin : ∀ d ∈ inside, isInner d = true) :
    ¬ EndsNoTag (inside ++ ']' :: rest) := by
  unfold EndsNoTag
  rw [List.dropWhile_append_of_pos hin, List.dropWhile_cons_of_neg (by decide)]
  exact fun h => h rfl

theorem exists_of_escapeFrom {fuel : Nat} {after : List Char} (hf : cs.length < fuel)
    (hr : EndsNoTag rest) (hin : ∀ d ∈ inside, isInner d = true)
    (he : escapeFrom fuel cs ++ rest = inside ++ ']' :: after) :
    ∃ r, cs = inside ++ ']' :: r := by
  induction fuel generalizing cs inside with
  | zero => exact absurd hf (Nat.not_lt_zero _)
  | succ fuel ih =>
    cases cs with
    | nil =>
      simp only [escapeFrom, List.nil_append] at he
      rw [he] at hr
      exact absurd hr (not_endsNoTag hin)
    | cons c cs =>
      rw [escapeFrom] at he
      split at he
      next n i r ht =>
        have hopen : EndsNoTag (List.replicate (2 * n + 1) '\\' ++
            '[' :: (i ++ ']' :: escapeFrom fuel r ++ rest)) := by
          unfold EndsNoTag
          rw [List.dropWhile_append_of_pos
            (fun d hd => by rw [List.eq_of_mem_replicate hd]; decide),
            List.dropWhile_cons_of_neg (by decide)]
          exact fun h => absurd (Option.some.inj h) (by decide)
        simp only [List.append_assoc, List.cons_append] at he hopen
        rw [he] at hopen
        exact absurd hopen (not_endsNoTag hin)
      · cases inside with
        | nil =>
          obtain ⟨rfl, -⟩ := List.cons.inj he
          exact ⟨cs, rfl⟩
        | cons d inside =>
          have hin' := (List.forall_mem_cons.1 hin).2
          obtain ⟨r, rfl⟩ := ih (Nat.lt_of_succ_lt_succ hf) hin' (List.cons.inj he).2
          obtain rfl := (List.cons.inj he).1
          exact ⟨r, rfl⟩

theorem tagged?_escapeFrom {fuel : Nat} (hf : cs.length < fuel) (hr : EndsNoTag rest)
    (hn : tagged? cs = none) : tagged? (escapeFrom fuel cs ++ rest) = none ∨
      ∃ n, escapeFrom fuel cs = List.replicate n '\\' := by
  induction fuel generalizing cs with
  | zero => exact absurd hf (Nat.not_lt_zero _)
  | succ fuel ih =>
    cases cs with
    | nil => exact .inr ⟨0, rfl⟩
    | cons c cs =>
      have hfuel := Nat.lt_of_succ_lt_succ hf
      have hescape : escapeFrom (fuel + 1) (c :: cs) = c :: escapeFrom fuel cs := by
        rw [escapeFrom, hn]
      rw [hescape]
      by_cases hb : c = '['
      · subst hb
        refine .inl ?_
        rw [tagged?_bracket, Option.map_eq_none_iff] at hn
        rw [List.cons_append, tagged?_bracket, Option.map_eq_none_iff]
        -- a tag that ends behind the text would need a bracket that ends no tag
        refine Option.eq_none_iff_forall_ne_some.2 fun ⟨inside, after⟩ ht => ?_
        obtain ⟨he, hbody⟩ := tag?_eq_some.1 ht
        obtain ⟨r, rfl⟩ := exists_of_escapeFrom hfuel hr hbody.1 he
        rw [tag?_eq_some.2 ⟨rfl, hbody⟩] at hn
        cases hn
      by_cases hs : c = '\\'
      · subst hs
        rw [tagged?_slash, Option.map_eq_none_iff] at hn
        obtain hnone | ⟨n, he⟩ := ih hfuel hn
        · refine .inl ?_
          rw [List.cons_append, tagged?_slash, hnone]
          rfl
        · exact .inr ⟨n + 1, congrArg ('\\' :: ·) he⟩
      · exact .inl (tagged?_other hs hb)

theorem inert_escapeFrom {fuel : Nat} (hf : cs.length < fuel) (hr : EndsNoTag rest) :
    Inert rest (escapeFrom fuel cs) := by
  induction fuel generalizing cs with
  | zero => exact absurd hf (Nat.not_lt_zero _)
  | succ fuel ih =>
    cases cs with
    | nil => exact .slashes 0
    | cons c cs =>
      cases ht : tagged? (c :: cs) with
      | some t =>
        obtain ⟨n, i, r⟩ := t
        have hlength := length_of_tagged? ht
        have hescape : escapeFrom (fuel + 1) (c :: cs) =
            List.replicate (2 * n + 1) '\\' ++ '[' :: i ++ ']' :: escapeFrom fuel r := by
          rw [escapeFrom, ht]
        have hshown : tagged? (escapeFrom (fuel + 1) (c :: cs) ++ rest) =
            some (2 * n + 1, i, escapeFrom fuel r ++ rest) := by
          rw [hescape]
          exact tagged?_eq_some.2 ⟨by simp, (tagged?_eq_some.1 ht).2⟩
        exact .shown (by omega) hshown (ih (by omega))
      | none =>
        have hescape : escapeFrom (fuel + 1) (c :: cs) = c :: escapeFrom fuel cs := by
          rw [escapeFrom, ht]
        obtain hnone | ⟨n, hn⟩ := tagged?_escapeFrom hf hr ht
        · rw [hescape] at hnone ⊢
          exact .plain hnone (ih (Nat.lt_of_succ_lt_succ hf))
        · rw [hn]
          exact .slashes n

theorem Inert.slash_behind (hi : Inert ('\\' :: rest) t) : Inert rest (t ++ ['\\']) := by
  induction hi with
  | slashes n =>
    rw [← List.replicate_succ']
    exact .slashes (n + 1)
  | plain none _ ih => exact .plain (by simpa using none) ih
  | shown odd tagged _ ih => exact .shown odd (by simpa using tagged) ih

theorem inert_escape (s : String) (hr : EndsNoTag rest) : Inert rest (escape s).toList := by
  have hf : s.toList.length < s.length + 1 := by
    rw [String.length_toList]
    exact Nat.lt_succ_self _
  have hslash : EndsNoTag ('\\' :: rest) := by
    unfold EndsNoTag
    rw [List.dropWhile_cons_of_pos (by decide)]
    exact hr
  unfold escape
  dsimp only
  rw [String.toList_ofList]
  split
  · exact inert_escapeFrom hf hr
  · exact (inert_escapeFrom hf hslash).slash_behind
  · exact inert_escapeFrom hf hr

theorem shown_escaped {start : String}
    (ha : openAfter? (start.toList.length + 1) [] start.toList = some o) (s : String) :
    (plainText? (start ++ escape s)).isSome := by
  refine Shows.plainText? ?_
  have hi : Shows o ((escape s).toList ++ []) :=
    (inert_escape s (by decide)).shows rfl shows_nil
  rw [List.append_nil] at hi
  rw [String.toList_append]
  exact shows_append ha hi

theorem shown_escaped_closing {start x : String}
    (ha : openAfter? (start.toList.length + 1) [] start.toList = some (x :: o)) (s : String) :
    (plainText? (start ++ escape s ++ "[/]")).isSome := by
  refine Shows.plainText? ?_
  have hi : Shows (x :: o) ((escape s).toList ++ ['[', '/', ']']) :=
    (inert_escape s (by decide)).shows_closing shows_nil
  rw [String.toList_append, String.toList_append, List.append_assoc]
  exact shows_append ha hi

/-! ### Literals around texts -/

def isNeutral (l : List Char) (more : List (List Char)) : Bool :=
  match l with
  | [] => more.isEmpty
  | c :: _ => c != '[' && c != '\\' && !startsTag c

/-- Literals that each stand behind a text close no tag that is not open in them or before them. One
that closes a tag at its start can be kept from that by the text. -/
def areSound : List String → List (List Char) → Bool
  | _, [] => true
  | _ :: o, ('[' :: '/' :: ']' :: l) :: more =>
    (openAfter? (l.length + 1) o l).any fun o => areSound o more
  | o, l :: more => isNeutral l more && (openAfter? (l.length + 1) o l).any fun o => areSound o more

theorem Shows.behind_untagged {l : List Char} {more : List (List Char)} (ht : Untagged t)
    (hl : isNeutral l more = true) (hrest : more = [] → rest = []) (hs : Shows o (l ++ rest)) :
    Shows o (t ++ (l ++ rest)) := by
  cases l with
  | nil =>
    obtain rfl := hrest (List.isEmpty_iff.1 hl)
    exact (ht.inert fun d hd => absurd hd (by simp)).shows rfl hs
  | cons c l =>
    simp only [isNeutral, Bool.and_eq_true, bne_iff_ne, Bool.not_eq_true'] at hl
    refine (ht.inert fun d hd => ?_).shows (tagged?_other hl.1.2 hl.1.1) hs
    obtain rfl : c = d := Option.some.inj hd
    exact hl.2

theorem exists_of_any {α : Type} {x : Option α} {p : α → Bool} (h : x.any p = true) :
    ∃ a, x = some a ∧ p a = true := by
  cases x with
  | none => cases h
  | some a => exact ⟨a, rfl, h⟩

theorem shows_fills {fills : List (List Char × List Char)}
    (hs : areSound o (fills.map Prod.snd) = true) (ht : ∀ f ∈ fills, Untagged f.1) :
    Shows o (fills.flatMap fun f => f.1 ++ f.2) := by
  induction fills generalizing o with
  | nil => exact shows_nil
  | cons f more ih =>
    obtain ⟨t, l⟩ := f
    obtain ⟨htext, hmore⟩ := List.forall_mem_cons.1 ht
    rw [List.map_cons] at hs
    rw [List.flatMap_cons, List.append_assoc]
    unfold areSound at hs
    split at hs
    next he => exact absurd he (by simp)
    next x o l' more' he =>
      obtain ⟨rfl, rfl⟩ := List.cons.inj he
      obtain ⟨b, hb, hs⟩ := exists_of_any hs
      have hrest := shows_append hb (ih hs hmore)
      exact (htext.inert fun d hd => by cases hd; rfl).shows_closing hrest
    next he =>
      obtain ⟨rfl, rfl⟩ := List.cons.inj he
      obtain ⟨hl, hs⟩ := Bool.and_eq_true_iff.1 hs
      obtain ⟨b, hb, hs⟩ := exists_of_any hs
      have hrest := shows_append hb (ih hs hmore)
      refine Shows.behind_untagged htext hl (fun hm => ?_) hrest
      rw [List.map_eq_nil_iff.1 hm]
      rfl

/-- Literals that leave every tag in order, whatever untagged texts stand between them. -/
def isSound (start : String) (behind : List String) : Bool :=
  (openAfter? (start.toList.length + 1) [] start.toList).any fun o =>
    areSound o (behind.map String.toList)

end Markup

open Markup

structure Line where
  start : String
  fills : List (String × String)
  sound : isSound start (fills.map Prod.snd) = true := by
    simp only [List.map_cons, List.map_nil]
    decide +kernel

namespace Line

def text (l : Line) : String := l.fills.foldl (fun s f => s ++ f.1 ++ f.2) l.start

theorem toList_foldl (start : String) (fills : List (String × String)) :
    (fills.foldl (fun s f => s ++ f.1 ++ f.2) start).toList =
      start.toList ++ fills.flatMap fun f => f.1.toList ++ f.2.toList := by
  induction fills generalizing start with
  | nil => simp
  | cons f more ih => simp [ih]

theorem shown (l : Line) (ht : ∀ f ∈ l.fills, Untagged f.1.toList) :
    (plainText? l.text).isSome := by
  obtain ⟨o, ho, hs⟩ := exists_of_any l.sound
  rw [List.map_map] at hs
  have hfills : Shows o ((l.fills.map fun f => (f.1.toList, f.2.toList)).flatMap
      fun f => f.1 ++ f.2) :=
    shows_fills (by rw [List.map_map]; exact hs) (List.forall_mem_map.2 ht)
  rw [List.flatMap_map] at hfills
  refine Shows.plainText? ?_
  rw [text, toList_foldl]
  exact shows_append ho hfills

end Line

end TeamVault.Console
