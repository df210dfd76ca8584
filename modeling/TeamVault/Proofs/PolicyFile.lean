import TeamVault.Proofs.Path
import TeamVault.Proofs.RotationTrace
import TeamVault.Yaml.Value

/-!
The policy as the tool reads it: the configuration is loaded as YAML, and the keys of a rule are
what stands between commas. Main statement: the tool reads each rule with the keys of the policy cut
at commas, so it reads the policy itself if and only if no key has a comma.
-/
namespace TeamVault

namespace Text

variable {isMark : Char → Bool} {mark : Char}

theorem cut_append_cons (hm : isMark mark = true) (part cs : List Char) :
    cut isMark (part ++ mark :: cs) = cut isMark part ++ cut isMark cs := by
  induction part with
  | nil =>
    rw [List.nil_append, cut, partsOf_cons, if_pos hm]
    rfl
  | cons c rest ih =>
    simp only [cut, List.cons_append, List.cons.injEq] at ih
    by_cases hc : isMark c = true
    · simp [cut, partsOf_cons, hc, ih.1, ih.2]
    · simp [cut, partsOf_cons, hc, ih.1, ih.2]

theorem cut_intercalate_eq_flatMap {parts : List (List Char)} (hp : parts ≠ []) :
    cut (· == mark) ([mark].intercalate parts) = parts.flatMap (cut (· == mark)) := by
  induction parts with
  | nil => exact absurd rfl hp
  | cons part rest ih =>
    cases rest with
    | nil => simp
    | cons next more =>
      rw [List.intercalate_cons_cons, List.append_assoc, List.singleton_append,
        cut_append_cons (by simp), ih (List.cons_ne_nil next more), List.flatMap_cons]
      rfl

end Text

/-! ### Keys between commas -/

namespace Sops

def splitKeys (text : String) : List String :=
  (Text.cut (· == ',') text.toList).map String.ofList

theorem comma_not_mem_of_mem_splitKeys {text key : String} (hk : key ∈ splitKeys text) :
    ',' ∉ key.toList := by
  obtain ⟨part, hp, rfl⟩ := List.mem_map.1 hk
  intro hc
  rw [String.toList_ofList] at hc
  simpa using Text.isMark_of_mem_cut hp hc

theorem splitKeys_of_not_mem {key : String} (hk : ',' ∉ key.toList) : splitKeys key = [key] := by
  have no_mark : ∀ c ∈ key.toList, (c == ',') = false := by
    intro c hc
    rw [beq_eq_false_iff_ne]
    intro he
    exact hk (he ▸ hc)
  rw [splitKeys, Text.cut_of_no_mark no_mark, List.map_singleton, String.ofList_toList]

theorem splitKeys_joinKeys {keys : List String} (hk : keys ≠ []) :
    splitKeys (Policy.joinKeys keys) = keys.flatMap splitKeys := by
  have hne : keys.map String.toList ≠ [] := mt List.map_eq_nil_iff.1 hk
  have hl : (Policy.joinKeys keys).toList = [','].intercalate (keys.map String.toList) := by
    simp [Policy.joinKeys]
  rw [splitKeys, hl, Text.cut_intercalate_eq_flatMap hne, List.flatMap_map, List.map_flatMap]
  rfl

theorem flatMap_splitKeys_of_not_mem {keys : List String} (h : ∀ key ∈ keys, ',' ∉ key.toList) :
    keys.flatMap splitKeys = keys := by
  induction keys with
  | nil => rfl
  | cons key rest ih =>
    rw [List.flatMap_cons, splitKeys_of_not_mem (h key List.mem_cons_self),
      ih fun k hk => h k (List.mem_cons_of_mem _ hk), List.singleton_append]

theorem flatMap_splitKeys_eq_iff {keys : List String} :
    keys.flatMap splitKeys = keys ↔ ∀ key ∈ keys, ',' ∉ key.toList := by
  refine ⟨fun h key hk => ?_, flatMap_splitKeys_of_not_mem⟩
  rw [← h] at hk
  obtain ⟨text, -, hk⟩ := List.mem_flatMap.1 hk
  exact comma_not_mem_of_mem_splitKeys hk

end Sops

/-! ### The value of a document -/

namespace Yaml

mutual

def Block.value : Block → Value
  | .text s => .text s
  | .mapping entries => .mapping (entryValues entries)
  | .sequence items => .sequence (itemValues items)

def entryValues : List (String × Block) → List (Value × Value)
  | [] => []
  | (k, v) :: rest => (.text k, v.value) :: entryValues rest

def itemValues : List Block → List Value
  | [] => []
  | item :: rest => item.value :: itemValues rest

end

mutual

def Block.standsFor : Block → Value → Bool
  | .text s, .text t => t = s
  | .mapping entries, .mapping es => entriesStandFor entries es
  | .sequence items, .sequence vs => itemsStandFor items vs
  | _, _ => false

def entriesStandFor : List (String × Block) → List (Value × Value) → Bool
  | [], [] => true
  | (k, b) :: rest, (.text l, v) :: more =>
    decide (l = k) && b.standsFor v && entriesStandFor rest more
  | _, _ => false

def itemsStandFor : List Block → List Value → Bool
  | [], [] => true
  | b :: rest, v :: more => b.standsFor v && itemsStandFor rest more
  | _, _ => false

end

mutual

theorem Block.standsFor_iff (b : Block) (v : Value) : b.standsFor v = true ↔ v = b.value := by
  cases b with
  | text s => cases v <;> simp [Block.standsFor, Block.value]
  | mapping entries =>
    cases v with
    | mapping es => simp [Block.standsFor, Block.value, entriesStandFor_iff entries es]
    | _ => simp [Block.standsFor, Block.value]
  | sequence items =>
    cases v with
    | sequence vs => simp [Block.standsFor, Block.value, itemsStandFor_iff items vs]
    | _ => simp [Block.standsFor, Block.value]

theorem entriesStandFor_iff (entries : List (String × Block)) (es : List (Value × Value)) :
    entriesStandFor entries es = true ↔ es = entryValues entries := by
  cases entries with
  | nil => cases es <;> simp [entriesStandFor, entryValues]
  | cons e rest =>
    obtain ⟨k, b⟩ := e
    rcases es with _ | ⟨⟨l, v⟩, more⟩
    · simp [entriesStandFor, entryValues]
    · cases l with
      | text l =>
        simp [entriesStandFor, entryValues, b.standsFor_iff v, entriesStandFor_iff rest more]
      | _ => simp [entriesStandFor, entryValues]

theorem itemsStandFor_iff (items : List Block) (vs : List Value) :
    itemsStandFor items vs = true ↔ vs = itemValues items := by
  cases items with
  | nil => cases vs <;> simp [itemsStandFor, itemValues]
  | cons b rest =>
    cases vs with
    | nil => simp [itemsStandFor, itemValues]
    | cons v more =>
      simp [itemsStandFor, itemValues, b.standsFor_iff v, itemsStandFor_iff rest more]

end

instance (v : Value) (b : Block) : Decidable (v = b.value) :=
  decidable_of_iff _ (b.standsFor_iff v)

end Yaml

namespace Sops

open Yaml (Value)

def entryAt? (key : String) : List (Value × Value) → Option Value
  | [] => none
  | (.text k, v) :: rest => if k = key then some v else entryAt? key rest
  | _ :: rest => entryAt? key rest

def ruleOf? : Value → Option (String × List String)
  | .mapping entries => match entryAt? "path_regex" entries, entryAt? "age" entries with
    | some (.text pattern), some (.text keys) => some (pattern, splitKeys keys)
    | _, _ => none
  | _ => none

def rulesOf? : Value → Option (List (String × List String))
  | .mapping entries => match entryAt? "creation_rules" entries with
    | some (.sequence items) => items.mapM ruleOf?
    | _ => none
  | _ => none

def readRules (load : String → Option Value) (text : String) :
    Option (List (String × List String)) := (load text).bind rulesOf?

def keysOf (rules : List (String × List String)) : List String :=
  (rules.flatMap Prod.snd).eraseDups.mergeSort (· ≤ ·)

def readKeys (load : String → Option Value) (text : String) : Option (List String) :=
  (readRules load text).map keysOf

end Sops

namespace Policy

open Sops (splitKeys ruleOf? rulesOf? readRules readKeys keysOf)

def value (p : Policy) : Yaml.Value := (Yaml.Block.mapping p.document).value

/-- YAML reads the text of a policy back as the document that was written. -/
def LoadsBack (load : String → Option Yaml.Value) (p : Policy) : Prop :=
  ∃ v ∈ load p.render, v = p.value

instance (load : String → Option Yaml.Value) (p : Policy) : Decidable (p.LoadsBack load) :=
  match hl : load p.render with
  | none => .isFalse fun ⟨v, hv, _⟩ => by simp [hl] at hv
  | some v => decidable_of_iff (v = (Yaml.Block.mapping p.document).value)
      ⟨fun h => ⟨v, hl, h⟩, fun ⟨u, hu, h⟩ => Option.some.inj (hl.symm.trans hu) ▸ h⟩

def pairs (p : Policy) : List (String × List String) :=
  p.rules.map fun r => (r.pathRegex, r.recipients)

def cutPairs (p : Policy) : List (String × List String) :=
  p.rules.map fun r => (r.pathRegex, r.recipients.flatMap splitKeys)

def IsSeparable (p : Policy) : Prop := ∀ key ∈ p.recipientKeys, ',' ∉ key.toList

instance (p : Policy) : Decidable p.IsSeparable := inferInstanceAs (Decidable (∀ _ ∈ _, _))

variable {load : String → Option Yaml.Value} {p q : Policy}

theorem mem_recipientKeys_iff {key : String} :
    key ∈ p.recipientKeys ↔ ∃ r ∈ p.rules, key ∈ r.recipients := by
  rw [recipientKeys, List.mem_mergeSort, List.mem_eraseDups, List.mem_flatMap]

theorem rulesOf?_value (p : Policy) : rulesOf? p.value = some p.cutPairs := by
  have items : ∀ rules : List PolicyRule,
      (Yaml.itemValues (rules.map fun r => .mapping [("path_regex", .text r.pathRegex),
        ("age", .text (joinKeys r.recipients))])).mapM ruleOf? =
      some (rules.map fun r => (r.pathRegex, r.recipients.flatMap splitKeys)) := by
    intro rules
    induction rules with
    | nil => rfl
    | cons r rest ih =>
      rw [List.map_cons, Yaml.itemValues, List.mapM_cons, ih, List.map_cons,
        ← Sops.splitKeys_joinKeys r.nonempty]
      rfl
  rw [cutPairs, ← items p.rules, value, document, entries, List.map_map]
  rfl

theorem readRules_render (hp : p.LoadsBack load) : readRules load p.render = some p.cutPairs := by
  obtain ⟨v, hv, rfl⟩ := hp
  rw [readRules, hv]
  exact p.rulesOf?_value

theorem cutPairs_eq_iff : p.cutPairs = p.pairs ↔ p.IsSeparable := by
  rw [cutPairs, pairs, List.map_inj_left]
  constructor
  · intro h key hk
    obtain ⟨r, hr, hk⟩ := mem_recipientKeys_iff.1 hk
    exact Sops.flatMap_splitKeys_eq_iff.1 (Prod.mk.inj (h r hr)).2 key hk
  · intro h r hr
    have hs : r.recipients.flatMap splitKeys = r.recipients :=
      Sops.flatMap_splitKeys_of_not_mem fun key hk => h key (mem_recipientKeys_iff.2 ⟨r, hr, hk⟩)
    rw [hs]

theorem keysOf_pairs (p : Policy) : keysOf p.pairs = p.recipientKeys := by
  rw [keysOf, pairs, List.flatMap_map, recipientKeys]

theorem keysOf_cutPairs_eq_iff : keysOf p.cutPairs = p.recipientKeys ↔ p.IsSeparable := by
  constructor
  · intro h key hk
    rw [← h, keysOf, List.mem_mergeSort, List.mem_eraseDups, cutPairs, List.flatMap_map] at hk
    obtain ⟨r, -, hk⟩ := List.mem_flatMap.1 hk
    obtain ⟨text, -, hk⟩ := List.mem_flatMap.1 hk
    exact Sops.comma_not_mem_of_mem_splitKeys hk
  · intro h
    rw [cutPairs_eq_iff.2 h, keysOf_pairs]

theorem readKeys_render_iff (hp : p.LoadsBack load) :
    readKeys load p.render = some p.recipientKeys ↔ p.IsSeparable := by
  rw [readKeys, readRules_render hp, Option.map_some, Option.some_inj, keysOf_cutPairs_eq_iff]

/-- The rendered text tells two teams apart. -/
theorem recipientKeys_eq_of_render (hp : p.LoadsBack load) (hq : q.LoadsBack load)
    (hps : p.IsSeparable) (hqs : q.IsSeparable) (h : p.render = q.render) :
    p.recipientKeys = q.recipientKeys := by
  have hpk := (readKeys_render_iff hp).2 hps
  have hqk := (readKeys_render_iff hq).2 hqs
  rw [h, hqk] at hpk
  exact (Option.some.inj hpk).symm

end Policy

/-! ### What a run is told -/

/-- A run of an encryption whose configuration has a text. -/
def Sops.IsToldBy (text : String) (r : Run) : Prop :=
  ∃ format plaintext config rest, r.arguments = Tool.encryptArguments format plaintext config.path ∧
    r.reads = config :: rest ∧ config.data = Text.Utf8.encode text

theorem Sops.Tool.told_of_runs {t : Tool} {h : Host} {w : World} {plaintext : Path} {p : Policy}
    {format : SecretFormat} {α : Type} {g : Int × Bytes × Bytes → Except Fault α}
    {r : Except Failure α} {es : List Event}
    (hr : t.Runs h w (encryptJob plaintext p format) g r es) :
    es = w.events ∨ ∃ s, es = w.events ++ [.run s] ∧ IsToldBy p.render s.toRun := by
  cases hr with
  | unrun f _ => exact .inl rfl
  | ran directory l scene hst =>
    obtain ⟨config, hview, hpath, hdata⟩ := hst.view_data
    refine .inr ⟨_, rfl, format, plaintext.toText, config, ?_⟩
    rw [t.reads_encryptJob, Files.viewsIn_cons hview, hpath]
    exact ⟨_, rfl, rfl, hdata⟩

/-- What is encrypted is encrypted under a policy for members, and these are its keys. -/
def Sops.TellsKeys (tool : Tool) (keys : List String) (_ : List Event) (e : Event) : Prop :=
  ∀ r, e = .run r → IsEncryption tool r.toRun → ∃ members p, Policy.build members = .ok p ∧
    p.recipientKeys = keys ∧ IsToldBy p.render r.toRun

namespace Rotation

open Sops (TellsKeys)

variable {c : Client} {tool : Sops.Tool} {project : String} {environment : Environment}
  {parent : Option Path} {h : Host} {w w' : World} {keys : List String}

theorem permitsReading_tellsKeys (c : Client) (tool : Sops.Tool) (project : String) (h : Host)
    (earlier : List Event) (keys : List String) :
    PermitsReading c tool project h earlier (TellsKeys tool keys) where
  fetch _ _ _ := nofun
  decrypt _ r hr := by
    intro s hs he
    cases hs
    exact absurd he (Sops.not_isEncryption hr)
  members _ _ _ _ := nofun

theorem Planned.tellsKeys (s : Planned c tool project environment parent h w)
    {r : Except Failure (Bytes × Json.Fields)}
    (he : tool.encrypt s.file s.policy s.format h s.listed = (r, w')) :
    Goes (TellsKeys tool s.policy.recipientKeys) w w' := by
  have hA := permitsReading_tellsKeys c tool project h w.events s.policy.recipientKeys
  obtain ⟨trace, ht, hf, -⟩ := s.toDecrypted.listed_goes hA
  have hr := tool.encrypt_runs h s.listed s.file s.policy s.format
  rw [he] at hr
  obtain hv | ⟨run, hv, htold⟩ := Sops.Tool.told_of_runs hr
  · exact Goes.of_events ⟨trace, ht, hf⟩ hv
  · refine Goes.snoc ⟨trace, ht, hf⟩ hv fun _ _ q hq _ => ?_
    cases hq
    exact ⟨s.recipients, s.policy, s.builds, rfl, htold⟩

theorem Halts.tellsKeys {s : Opened c project environment parent h w} {step : RotationStep}
    {own : Failure} (hh : Halts c tool project environment parent h w s step own keys w') :
    Goes (TellsKeys tool keys) w w' := by
  have hA := permitsReading_tellsKeys c tool project h w.events keys
  cases hh with
  | format => exact s.goes hA
  | decrypt _ fails => exact goes_decrypt hA (s.goes hA) fails
  | write _ decrypts fails =>
    exact (goes_decrypt hA (s.goes hA) decrypts).of_events (Scratch.events_of_write fails)
  | refresh d =>
    obtain ⟨trace, ht, hf, -⟩ := d.listed_goes hA
    exact ⟨trace, ht, hf⟩
  | build d =>
    obtain ⟨trace, ht, hf, -⟩ := d.toDecrypted.listed_goes hA
    exact ⟨trace, ht, hf⟩
  | encrypt d _ fails => exact d.tellsKeys fails

theorem Sealed.push_tellsKeys (s : Sealed c tool project environment parent h w)
    {r : Except Failure SecretVersion}
    (hp : VersionStore.push c project environment s.ciphertext s.format s.metadata h s.left =
      (r, w')) :
    Goes (TellsKeys tool s.policy.recipientKeys) w w' := by
  have hg : Goes (TellsKeys tool s.policy.recipientKeys) w s.left :=
    (s.toPlanned.tellsKeys s.encrypts).of_events (Scratch.left_events s.scratch)
  cases hd : Text.Utf8.decode? s.ciphertext with
  | none =>
    rw [VersionStore.push_of_no_text c project environment h s.left s.format s.metadata hd] at hp
    cases hp
    exact hg
  | some text =>
    rw [VersionStore.push_of_text c project environment h s.left s.format s.metadata hd] at hp
    cases hp
    exact hg.snoc (World.sent_events _ _) fun _ _ _ => nofun

theorem Stops.tellsKeys {step : RotationStep} {own : Failure} {previous : Option SecretVersion}
    (hs : Stops c tool project environment parent h w step own previous keys w') :
    Goes (TellsKeys tool keys) w w' := by
  have hA := permitsReading_tellsKeys c tool project h w.events keys
  cases hs with
  | fetch => exact askedFor_goes hA
  | scratch s fails => exact (askedFor_goes hA).of_events (Scratch.events_of_create fails)
  | inside s halts => exact halts.tellsKeys.of_events (Scratch.left_events s.scratch)
  | push s fails => exact s.push_tellsKeys fails

theorem Course.tellsKeys {r : Rotation}
    (hc : Course c tool project environment parent h w r w') :
    Goes (TellsKeys tool r.recipientKeys) w w' := by
  cases hc with
  | nothing => exact askedFor_goes (permitsReading_tellsKeys c tool project h w.events [])
  | stopped stops =>
    obtain ⟨trace, ht, hf⟩ := stops.tellsKeys
    exact ⟨trace, ht, hf⟩
  | completed s => exact s.toSealed.push_tellsKeys s.pushes

end Rotation

namespace Policy

open Sops (IsToldBy IsEncryption readRules readKeys)

/-- The tool reads the rules of a policy, in order, with their keys cut at commas; these are the
rules themselves if and only if no key has a comma, and then no other keys have the same text. The
text is what every encryption hands to the tool, and the keys in it are those that a rotation
reports. -/
theorem file_tells_rules (load : String → Option Yaml.Value) :
    (∀ p : Policy, p.LoadsBack load →
      readRules load p.render = some p.cutPairs ∧
      (readRules load p.render = some p.pairs ↔ p.IsSeparable)) ∧
    (∀ p q : Policy, p.LoadsBack load → q.LoadsBack load → p.IsSeparable → q.IsSeparable →
      p.recipientKeys ≠ q.recipientKeys → p.render ≠ q.render) ∧
    (∀ (t : Sops.Tool) (file : Path) (p : Policy) (format : SecretFormat) (h : Host) (w : World),
      Emitted (fun e => ∀ r, e = .run r → IsToldBy p.render r.toRun) w
        (t.encrypt file p format h w).2) ∧
    ∀ (c : Client) (tool : Sops.Tool) (project : String) (environment : Environment)
      (parent : Option Path) (earlier : Rotation) (h : Host) (w : World), ∃ r w',
      Rotation.run c tool project environment parent earlier h w = (.ok r, w') ∧
      Emitted (fun e => ∀ s, e = .run s → IsEncryption tool s.toRun → ∃ members p,
        build members = .ok p ∧ IsToldBy p.render s.toRun ∧ p.recipientKeys = r.recipientKeys ∧
        (p.LoadsBack load →
          (readKeys load p.render = some r.recipientKeys ↔ p.IsSeparable))) w w' := by
  refine ⟨fun p hp => ⟨readRules_render hp, ?_⟩, ?_, ?_, ?_⟩
  · rw [readRules_render hp, Option.some_inj, cutPairs_eq_iff]
  · intro p q hp hq hps hqs hk hr
    exact hk (recipientKeys_eq_of_render hp hq hps hqs hr)
  · intro t file p format h w
    obtain he | ⟨s, he, hs⟩ := Sops.Tool.told_of_runs (t.encrypt_runs h w file p format)
    · exact .of_events he
    · refine ⟨[.run s], he, fun e hm r hr => ?_⟩
      obtain rfl := List.mem_singleton.1 hm
      cases hr
      exact hs
  · intro c tool project environment parent earlier h w
    obtain ⟨r, w', hr, hc⟩ :=
      Rotation.run_course c tool project environment parent earlier h w
    obtain ⟨trace, ht, hf⟩ := hc.tellsKeys
    refine ⟨r, w', hr, trace, ht, fun e hm s hs he => ?_⟩
    obtain ⟨before, after, hb⟩ := List.append_of_mem hm
    obtain ⟨members, p, hp, hk, htold⟩ := hf before e after hb s hs he
    refine ⟨members, p, hp, htold, hk, fun hl => ?_⟩
    rw [← hk]
    exact readKeys_render_iff hl

def load? (text : String) : Option Yaml.Value := (Yaml.Value.ofText text).toOption

def quoted : Policy where
  rules := [⟨"prod/.*", ["age1q", "key: 'k' #2"], by simp⟩, ⟨".*", ["null"], by simp⟩]
  nonempty := by simp

theorem quoted_file_tells_rules :
    quoted.LoadsBack load? ∧
      readRules load? quoted.render =
        some [("prod/.*", ["age1q", "key: 'k' #2"]), (".*", ["null"])] := by
  have hl : quoted.LoadsBack load? := by decide +kernel
  have hs : quoted.IsSeparable := by
    intro key hk
    obtain ⟨r, hr, hk⟩ := mem_recipientKeys_iff.1 hk
    have hall : ∀ r ∈ quoted.rules, ∀ key ∈ r.recipients, ',' ∉ key.toList := by decide +kernel
    exact hall r hr key hk
  exact ⟨hl, (((file_tells_rules load?).1 quoted hl).2).2 hs⟩

def member (key : String) : Recipient := ⟨key, some key, none, none, none, none⟩

def ofKeys (keys : List String) (hk : keys ≠ []) : Policy :=
  ⟨[⟨anyPath, keys, hk⟩], List.cons_ne_nil _ _⟩

theorem build_of_keys {rs : List Recipient} {keys : List String} (hk : Recipient.keys rs = keys)
    (hne : keys ≠ []) : build rs = .ok (ofKeys keys hne) := by
  subst hk
  exact dif_neg hne

/-- A key with a comma is read as two keys, and its policy has the text of another team's. -/
theorem comma_key_reads_as_two :
    ∃ p q : Policy, build [member "a,b"] = .ok p ∧ build [member "a", member "b"] = .ok q ∧
      p.LoadsBack load? ∧ readRules load? p.render ≠ some p.pairs ∧
      p.recipientKeys ≠ q.recipientKeys ∧ p.render = q.render := by
  have hp : Recipient.keys [member "a,b"] = ["a,b"] := by decide +kernel
  have hq : Recipient.keys [member "a", member "b"] = ["a", "b"] := by
    have hf : ([member "a", member "b"].filterMap Recipient.key?).eraseDups = ["a", "b"] := by
      decide +kernel
    rw [Recipient.keys, hf]
    exact List.mergeSort_of_pairwise (by decide)
  refine ⟨_, _, build_of_keys hp (by simp), build_of_keys hq (by simp), by decide +kernel,
    by decide +kernel, fun hk => ?_, by decide +kernel⟩
  have ha : "a" ∈ (ofKeys ["a", "b"] (by simp)).recipientKeys :=
    mem_recipientKeys_iff.2 ⟨_, List.mem_singleton_self _, List.mem_cons_self⟩
  rw [← hk, mem_recipientKeys_iff] at ha
  simp [ofKeys] at ha

end Policy

end TeamVault
