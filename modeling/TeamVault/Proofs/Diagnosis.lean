import TeamVault.Proofs.RoundTrip

/-!
What a decryption tells of its failure. Ciphertext is handed to the tool only if it is JSON with a
block of metadata; what is refused before tells whether the tool, the JSON or the block is missing,
in this order. A run that failed is a matter of permission exactly where its diagnostics hold one of
the marks in some case of the letters, and a matter of the ciphertext elsewhere.
-/
namespace TeamVault

/-! ### Letters in either case -/

namespace Text

namespace LowerCase

/-- The ASCII lower-case form of a character counts as much as the character itself. -/
def Alike (c : Char) : Prop :=
  single c.toLower = single c ∧ isCased c.toLower = isCased c ∧
    isIgnorable c.toLower = isIgnorable c ∧ (c.toLower = 'Σ' ↔ c = 'Σ')

instance (c : Char) : Decidable (Alike c) := inferInstanceAs (Decidable (_ ∧ _))

theorem alike_of_capital : ∀ n < 26, Alike (Char.ofNat ('A'.toNat + n)) := by decide +kernel

theorem alike (c : Char) : Alike c := by
  by_cases hc : c.val ≥ 'A'.val ∧ c.val ≤ 'Z'.val
  · have hlow : 'A'.toNat ≤ c.toNat := hc.1
    have hhigh : c.toNat ≤ 'A'.toNat + 25 := hc.2
    have ha := alike_of_capital (c.toNat - 'A'.toNat) (by omega)
    rwa [Nat.add_sub_cancel' hlow, Char.ofNat_toNat] at ha
  · have hsame : c.toLower = c := dif_neg hc
    rw [Alike, hsame]
    exact ⟨rfl, rfl, rfl, Iff.rfl⟩

theorem meetsCased_map_toLower (side : List Char) :
    meetsCased (side.map Char.toLower) = meetsCased side := by
  have hp : isIgnorable ∘ Char.toLower = isIgnorable := funext fun c => (alike c).2.2.1
  unfold meetsCased
  rw [List.dropWhile_map, hp]
  cases side.dropWhile isIgnorable with
  | nil => rfl
  | cons c rest => exact (alike c).2.1

theorem chars_map_toLower (before cs : List Char) :
    chars (before.map Char.toLower) (cs.map Char.toLower) = chars before cs := by
  induction cs generalizing before with
  | nil => rfl
  | cons c rest ih =>
    obtain ⟨hs, -, -, hsigma⟩ := alike c
    have hrest := ih (c :: before)
    rw [List.map_cons] at hrest
    rw [List.map_cons, chars, chars, hrest, meetsCased_map_toLower, meetsCased_map_toLower, hs]
    simp only [hsigma]

def foldSigma (c : Char) : Char := if c = 'ς' then 'σ' else c

/-- The lower-case form of a character up to the form of a sigma, which alone goes by its place. -/
def folded (c : Char) : List Char := if c = 'Σ' then ['σ'] else (single c).map foldSigma

theorem map_foldSigma_chars (before cs : List Char) :
    (chars before cs).map foldSigma = cs.flatMap folded := by
  induction cs generalizing before with
  | nil => rfl
  | cons c rest ih =>
    rw [chars, List.map_append, ih, List.flatMap_cons, folded]
    split
    · split <;> rfl
    · rfl

theorem infix_map_foldSigma {part cs : List Char} (hp : 'σ' ∉ part) (hf : 'ς' ∉ part) :
    part <:+: cs.map foldSigma ↔ part <:+: cs := by
  have hne : ∀ c, foldSigma c ∈ part → foldSigma c = c := by
    intro c hc
    unfold foldSigma at hc ⊢
    split at hc
    · exact absurd hc hp
    next hs => exact if_neg hs
  constructor
  · rintro ⟨front, rear, he⟩
    obtain ⟨first, last, rfl, hfirst, -⟩ := List.append_eq_map_iff.1 he
    obtain ⟨before, middle, rfl, -, hmiddle⟩ := List.append_eq_map_iff.1 hfirst.symm
    have hsame : middle = part := by
      rw [← hmiddle]
      refine (List.map_id middle).symm.trans (List.map_congr_left fun c hc => ?_)
      exact (hne c (hmiddle ▸ List.mem_map_of_mem hc)).symm
    exact ⟨before, last, by rw [hsame]⟩
  · intro hin
    have hsame : part.map foldSigma = part := by
      refine (List.map_congr_left fun c hc => ?_).trans (List.map_id part)
      have hc' : c ≠ 'ς' := by
        rintro rfl
        exact hf hc
      exact if_neg hc'
    rw [← hsame]
    exact hin.map foldSigma

end LowerCase

theorem lowerCase_eq_of_toLower {s t : String}
    (h : s.toList.map Char.toLower = t.toList.map Char.toLower) : lowerCase s = lowerCase t := by
  have hs := LowerCase.chars_map_toLower [] s.toList
  rw [h, List.map_nil] at hs
  rw [lowerCase, lowerCase, ← hs, ← LowerCase.chars_map_toLower [] t.toList, List.map_nil]

end Text

namespace Sops

theorem occursIn_iff {part cs : List Char} : occursIn part cs = true ↔ part <:+: cs := by
  induction cs with
  | nil => simp [occursIn]
  | cons c rest ih =>
    rw [occursIn, Bool.or_eq_true, List.isPrefixOf_iff_prefix, ih, List.infix_cons_iff]

def SaysDenied (diagnostics : String) : Prop :=
  ∃ m ∈ permissionMarks, m.toList <:+: (Text.lowerCase diagnostics).toList

theorem tellsPermission_iff {diagnostics : String} :
    tellsPermission diagnostics = true ↔ SaysDenied diagnostics := by
  simp only [tellsPermission, List.any_eq_true, occursIn_iff, SaysDenied]

theorem saysDenied_congr {s t : String}
    (h : s.toList.map Char.toLower = t.toList.map Char.toLower) : SaysDenied s ↔ SaysDenied t := by
  rw [SaysDenied, SaysDenied, Text.lowerCase_eq_of_toLower h]

theorem saysDenied_iff {diagnostics : String} : SaysDenied diagnostics ↔
    ∃ m ∈ permissionMarks, m.toList <:+: diagnostics.toList.flatMap Text.LowerCase.folded := by
  have hm : ∀ m ∈ permissionMarks, 'σ' ∉ m.toList ∧ 'ς' ∉ m.toList := by decide +kernel
  have hl : (Text.lowerCase diagnostics).toList = Text.LowerCase.chars [] diagnostics.toList := by
    rw [Text.lowerCase, String.toList_ofList]
  unfold SaysDenied
  rw [hl, ← Text.LowerCase.map_foldSigma_chars []]
  refine exists_congr fun m => and_congr_right fun hmem => ?_
  exact (Text.LowerCase.infix_map_foldSigma (hm m hmem).1 (hm m hmem).2).symm

theorem saysDenied_append {diagnostics : String} (hd : SaysDenied diagnostics)
    (before after : String) : SaysDenied (before ++ diagnostics ++ after) := by
  obtain ⟨m, hm, hin⟩ := saysDenied_iff.1 hd
  refine saysDenied_iff.2 ⟨m, hm, hin.trans ?_⟩
  rw [String.toList_append, String.toList_append, List.flatMap_append, List.flatMap_append]
  exact List.infix_append _ _ _

/-! ### From the ciphertext to the result -/

def HasBlock (v : Json) : Prop :=
  ∃ fields block, v = .object fields ∧
    Json.Fields.get? fields metadataKey = some (.object block)

theorem checkCiphertext_of_none {ciphertext : Bytes} (hj : Json.ofBytes? ciphertext = none) :
    Tool.checkCiphertext ciphertext =
      .error (.because .corruptCiphertext "Ciphertext is not valid JSON: " .notJson) := by
  unfold Tool.checkCiphertext
  rw [hj]

theorem checkCiphertext_of_block {ciphertext : Bytes} {v : Json}
    (hj : Json.ofBytes? ciphertext = some v) (hb : HasBlock v) :
    Tool.checkCiphertext ciphertext = .ok () := by
  obtain ⟨fields, block, rfl, hblock⟩ := hb
  have hm : metadata ciphertext = .ok block := by
    unfold metadata
    rw [hj]
    dsimp only
    rw [hblock]
  exact checkCiphertext_of_metadata hm

/-- What is JSON lacks the block, or has something else in its place; it never counts as text that
is not JSON. -/
theorem checkCiphertext_of_no_block {ciphertext : Bytes} {v : Json}
    (hj : Json.ofBytes? ciphertext = some v) (hb : ¬ HasBlock v) :
    Tool.checkCiphertext ciphertext =
        .error (.of .metadataMissing "No sops metadata found in encrypted data.") ∨
      Tool.checkCiphertext ciphertext =
        .error (.of .metadataMissing "Invalid sops metadata format.") := by
  unfold Tool.checkCiphertext metadata
  rw [hj]
  cases v with
  | object fields =>
    dsimp only
    cases hf : Json.Fields.get? fields metadataKey with
    | none => exact .inl rfl
    | some block =>
      cases block with
      | object block => exact absurd ⟨fields, block, rfl, hf⟩ hb
      | _ => exact .inr rfl
  | _ => exact .inl rfl

namespace Tool

inductive Diagnoses (t : Tool) : Outcome → Except Failure Bytes → Prop
  | missing {x : Fault} (kind : x.kind = .engineUnavailable t.program) :
    Diagnoses t .missing (.error (.fault x))
  | timedOut {x : Fault} (kind : x.kind = .engine) : Diagnoses t .timedOut (.error (.fault x))
  | opened {output diagnostics : Bytes} : Diagnoses t (.exited 0 output diagnostics) (.ok output)
  | denied {code : Int} {output diagnostics : Bytes} {x : Fault} (failed : code ≠ 0)
      (marked : SaysDenied (diagnosticsText diagnostics)) (kind : x.kind = .permissionDenied) :
    Diagnoses t (.exited code output diagnostics) (.error (.fault x))
  | corrupt {code : Int} {output diagnostics : Bytes} {x : Fault} (failed : code ≠ 0)
      (marked : ¬ SaysDenied (diagnosticsText diagnostics)) (kind : x.kind = .corruptCiphertext) :
    Diagnoses t (.exited code output diagnostics) (.error (.fault x))

theorem diagnoses_finished (t : Tool) (o : Outcome) :
    t.Diagnoses o (((t.finished o).bind opened).mapError .fault) := by
  cases o with
  | missing => exact .missing rfl
  | timedOut => exact .timedOut rfl
  | exited code output diagnostics =>
    by_cases hc : code = 0
    · subst hc
      exact .opened
    have hf : ((t.finished (.exited code output diagnostics)).bind opened).mapError Failure.fault =
        .error (.fault (decryptFault (diagnosticsText diagnostics))) := by
      simp only [finished, Except.bind, opened, ne_eq, hc, not_false_eq_true, if_true,
        Except.mapError]
    rw [hf]
    by_cases hd : SaysDenied (diagnosticsText diagnostics)
    · refine .denied hc hd ?_
      rw [decryptFault, if_pos (tellsPermission_iff.2 hd)]
      rfl
    · refine .corrupt hc hd ?_
      rw [decryptFault, if_neg (mt tellsPermission_iff.1 hd)]
      rfl

variable (t : Tool) (ciphertext : Bytes) (f : SecretFormat) {h : Host} {w : World}

theorem decrypt_of_check (hi : h.isInstalled t.program = true) :
    t.decrypt ciphertext f h w = (Action.ofExcept (checkCiphertext ciphertext) >>= fun _ =>
      t.perform (decryptJob ciphertext f) opened) h w := by
  rw [decrypt_eq, Action.bind_of_ok (checkInstalled_of_installed hi w)]

theorem decrypt_of_refused (hi : h.isInstalled t.program = true) {x : Fault}
    (hc : checkCiphertext ciphertext = .error x) :
    t.decrypt ciphertext f h w = (.error (.fault x), w) := by
  rw [t.decrypt_of_check ciphertext f hi, hc]
  exact Action.bind_of_error (Action.ofExcept_apply _)

theorem decrypt_of_checked (hi : h.isInstalled t.program = true)
    (hc : checkCiphertext ciphertext = .ok ()) :
    t.decrypt ciphertext f h w = t.perform (decryptJob ciphertext f) opened h w := by
  rw [t.decrypt_of_check ciphertext f hi, hc]
  exact Action.bind_of_ok (Action.ofExcept_apply _)

theorem decrypt_of_block (hi : h.isInstalled t.program = true)
    (hs : w.files.Sound h.workDirectory) {v : Json} (hj : Json.ofBytes? ciphertext = some v)
    (hb : HasBlock v) :
    (∃ c, Scratch.create "envv-decrypt-" none h w = (.error (.crash c), w) ∧
      t.decrypt ciphertext f h w = (.error (.crash c), w)) ∨
    ∃ r scene, IsOpening t.program f ciphertext r ∧
      (t.decrypt ciphertext f h w).2.events = w.events ++ [.run ⟨r, scene⟩] ∧
      t.Diagnoses (h.execute w.events r) (t.decrypt ciphertext f h w).1 := by
  rw [t.decrypt_of_checked ciphertext f hi (checkCiphertext_of_block hj hb)]
  obtain ⟨c, hc⟩ | ⟨p, l, -, -, hc⟩ := Scratch.create_cases h w "envv-decrypt-" none
  · refine .inl ⟨c, hc, ?_⟩
    unfold perform
    exact Action.bind_of_error (Scratch.within_of_failed hc)
  · have hmake : (Scratch.create (decryptJob ciphertext f).start none h w).1.isOk = true := by
      rw [decryptJob, hc]
      rfl
    have hnul : "secrets.enc.json".toList.contains '\x00' = false := by decide
    obtain ⟨directory, l, scene, hst, hresult, hev⟩ :=
      perform_of_make (t := t) opened hs hmake hnul rfl
    refine .inr ⟨_, scene, hst.isOpening, hev, ?_⟩
    rw [hresult]
    exact t.diagnoses_finished _

theorem decrypt_of_missing (hi : h.isInstalled t.program = false) :
    t.decrypt ciphertext f h w = (.error (.fault (.unavailable t.program source)), w) := by
  have hn : t.checkInstalled h w = (.error (.fault (.unavailable t.program source)), w) := by
    unfold checkInstalled
    rw [Action.bind_apply, Action.host_apply]
    dsimp only
    rw [hi]
    rfl
  rw [decrypt_eq]
  exact Action.bind_of_error hn

theorem cause_of_metadataMissing (hs : w.files.Sound h.workDirectory) {x : Fault} {w' : World}
    (hd : t.decrypt ciphertext f h w = (.error (.fault x), w'))
    (hk : x.kind = .metadataMissing) : x.cause = none := by
  cases hi : h.isInstalled t.program with
  | false =>
    rw [t.decrypt_of_missing ciphertext f hi] at hd
    cases hd
    cases hk
  | true =>
  cases hj : Json.ofBytes? ciphertext with
  | none =>
    rw [t.decrypt_of_refused ciphertext f hi (checkCiphertext_of_none hj)] at hd
    cases hd
    cases hk
  | some v =>
  by_cases hb : HasBlock v
  · obtain ⟨c, -, hc⟩ | ⟨r, scene, -, -, hx⟩ := t.decrypt_of_block ciphertext f hi hs hj hb
    · rw [hc] at hd
      cases hd
    · rw [hd] at hx
      generalize h.execute w.events r = o at hx
      cases hx with
      | missing kind | timedOut kind | denied _ _ kind | corrupt _ _ kind =>
        rw [kind] at hk
        cases hk
  · obtain hc | hc := checkCiphertext_of_no_block hj hb
    all_goals
      rw [t.decrypt_of_refused ciphertext f hi hc] at hd
      cases hd
      rfl

/-- A decryption first looks for the tool, then for JSON, then for the metadata in it, and fails by
the first of these that is not there, with nothing run. Only what has all of them is run on, once
and as it is, and the result goes by the end of the run alone. What is JSON is never taken for text
that is not. Whether permission is missing does not go by the case of letters, and words around
those that tell it change nothing. -/
theorem decrypt_is_diagnosed (hs : w.files.Sound h.workDirectory) :
    (t.decrypt ciphertext f h w).2.files = w.files ∧
    (h.isInstalled t.program = false →
      t.decrypt ciphertext f h w = (.error (.fault (.unavailable t.program source)), w)) ∧
    (h.isInstalled t.program = true →
      (Json.ofBytes? ciphertext = none → ∃ x, t.decrypt ciphertext f h w = (.error (.fault x), w) ∧
        x.kind = .corruptCiphertext ∧ x.cause = some .notJson) ∧
      ∀ v, Json.ofBytes? ciphertext = some v →
        (¬ HasBlock v → ∃ x, t.decrypt ciphertext f h w = (.error (.fault x), w) ∧
          x.kind = .metadataMissing ∧ x.cause = none) ∧
        (HasBlock v →
          (∃ c, Scratch.create "envv-decrypt-" none h w = (.error (.crash c), w) ∧
            t.decrypt ciphertext f h w = (.error (.crash c), w)) ∨
          ∃ r scene, IsOpening t.program f ciphertext r ∧
            (t.decrypt ciphertext f h w).2.events = w.events ++ [.run ⟨r, scene⟩] ∧
            t.Diagnoses (h.execute w.events r) (t.decrypt ciphertext f h w).1)) ∧
    (∀ x w', t.decrypt ciphertext f h w = (.error (.fault x), w') →
      x.kind = .metadataMissing → x.cause = none) ∧
    (∀ a b : String, a.toList.map Char.toLower = b.toList.map Char.toLower →
      (SaysDenied a ↔ SaysDenied b)) ∧
    ∀ before a after, SaysDenied a → SaysDenied (before ++ a ++ after) := by
  refine ⟨t.decrypt_files h w ciphertext f hs, t.decrypt_of_missing ciphertext f,
    fun hi => ⟨fun hj => ?_, fun v hj => ⟨fun hb => ?_, t.decrypt_of_block ciphertext f hi hs hj⟩⟩,
    fun x w' => t.cause_of_metadataMissing ciphertext f hs, fun a b => saysDenied_congr,
    fun before a after ha => saysDenied_append ha before after⟩
  · exact ⟨_, t.decrypt_of_refused ciphertext f hi (checkCiphertext_of_none hj), rfl, rfl⟩
  · obtain hc | hc := checkCiphertext_of_no_block hj hb
    · exact ⟨_, t.decrypt_of_refused ciphertext f hi hc, rfl, rfl⟩
    · exact ⟨_, t.decrypt_of_refused ciphertext f hi hc, rfl, rfl⟩

end Tool

end Sops

namespace Sample

theorem metadata_isOk : (Sops.metadata (Text.Utf8.encode ciphertext)).isOk = true := by
  decide +kernel

/-- The ciphertext of the sample is run on once, and no ciphertext at all is not run on. -/
theorem decrypt_runs_or_refuses :
    (∃ r scene, Sops.IsOpening "sops" .dotenv (Text.Utf8.encode ciphertext) r ∧
      (Desk.tool.decrypt (Text.Utf8.encode ciphertext) .dotenv host Desk.world).2.events =
        [.run ⟨r, scene⟩] ∧
      Desk.tool.Diagnoses (outcome r)
        (Desk.tool.decrypt (Text.Utf8.encode ciphertext) .dotenv host Desk.world).1) ∧
    ∃ x, Desk.tool.decrypt [] .dotenv host Desk.world = (.error (.fault x), Desk.world) ∧
      x.kind = .corruptCiphertext := by
  have hmain := fun bytes =>
    Desk.tool.decrypt_is_diagnosed bytes .dotenv (h := host) (w := Desk.world) Desk.sound_tree
  constructor
  · rcases hm : Sops.metadata (Text.Utf8.encode ciphertext) with x | block
    · have hok := metadata_isOk
      rw [hm] at hok
      cases hok
    obtain ⟨fields, hj, hb⟩ := Sops.metadata_eq_ok hm
    obtain ⟨c, hc, -⟩ | hrun := (((hmain _).2.2.1 rfl).2 _ hj).2 ⟨fields, block, rfl, hb⟩
    · have hmade : (Scratch.create "envv-decrypt-" none host Desk.world).1.isOk = true := by
        decide +kernel
      rw [hc] at hmade
      cases hmade
    · exact hrun
  · have hj : (Json.ofBytes? []).isNone = true := by decide +kernel
    obtain ⟨x, hx, hk, -⟩ := ((hmain []).2.2.1 rfl).1 (Option.isNone_iff_eq_none.1 hj)
    exact ⟨x, hx, hk⟩

end Sample

end TeamVault
