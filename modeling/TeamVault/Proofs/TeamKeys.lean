import TeamVault.Proofs.Custody
import TeamVault.Proofs.PolicyFile
import Mathlib.Data.List.DropRight
import Mathlib.Data.List.Sort
import Mathlib.Data.String.Basic

/-!
The keys of a team. A policy has the distinct keys of the members it is built for, in ascending
order and without the blanks around them. A change encrypts for the keys of the member list that
the service has told, and ends where that list has no key.
-/
namespace TeamVault

namespace Text

theorem trimChars_eq_nil_iff {cs : List Char} :
    trimChars cs = [] ↔ ∀ c ∈ cs, isBlank c = true := by
  rw [trimChars, dropEndWhile, List.reverse_eq_nil_iff, List.dropWhile_eq_nil_iff]
  simp only [List.mem_reverse]
  -- What is left at the start of a text starts with no blank: if it is all blank, it is empty.
  rw [dropBlank, ← List.dropWhile_eq_nil_iff, List.dropWhile_idempotent,
    List.dropWhile_eq_nil_iff]

theorem trim_eq_empty_iff {s : String} : trim s = "" ↔ hasInk s = false := by
  rw [trim, hasInk, List.any_eq_false]
  have hchars : String.ofList (trimChars s.toList) = "" ↔ trimChars s.toList = [] := by
    rw [← String.toList_inj, String.toList_ofList, String.toList_empty]
  simp only [hchars, trimChars_eq_nil_iff, Bool.not_eq_true', Bool.not_eq_false]

theorem trimChars_trimChars (cs : List Char) : trimChars (trimChars cs) = trimChars cs := by
  have hstart : dropBlank (trimChars cs) = trimChars cs := by
    refine List.dropWhile_eq_self_iff.2 fun hl => ?_
    have hhead : (trimChars cs).head? = some ((trimChars cs)[0]) := by
      rw [List.head?_eq_getElem?, List.getElem?_eq_getElem hl]
    rw [not_isBlank_of_head? hhead]
    exact Bool.false_ne_true
  have hend : dropEndWhile isBlank (trimChars cs) = trimChars cs :=
    List.rdropWhile_idempotent isBlank (dropBlank cs)
  rw [trimChars, hstart, hend]

@[simp] theorem trim_trim (s : String) : trim (trim s) = trim s := by
  rw [trim, trim, String.toList_ofList, trimChars_trimChars]

end Text

theorem nodup_eraseDups : ∀ xs : List String, xs.eraseDups.Nodup
  | [] => List.nodup_nil
  | x :: xs => by
    rw [List.eraseDups_cons]
    refine List.nodup_cons.2 ⟨fun hx => ?_, nodup_eraseDups _⟩
    rw [List.mem_eraseDups, List.mem_filter] at hx
    simp at hx
  termination_by xs => xs.length
  decreasing_by
    have hl := List.length_filter_le (fun b => !b == x) xs
    simp only [List.length_cons]
    omega

namespace Recipient

variable {rs rs' : List Recipient}

/-- The member has a key of more than blanks; without the blanks around it, it is this one. -/
def Carries (r : Recipient) (key : String) : Prop :=
  ∃ k, r.publicKey = some k ∧ Text.hasInk k = true ∧ Text.trim k = key

theorem carries_iff {r : Recipient} {key : String} : r.Carries key ↔ r.key? = some key := by
  rw [key?_eq_some]
  refine exists_congr fun k => and_congr_right fun _ => ?_
  constructor
  · rintro ⟨hk, rfl⟩
    refine ⟨rfl, fun he => ?_⟩
    rw [Text.trim_eq_empty_iff, hk] at he
    cases he
  · rintro ⟨rfl, hne⟩
    refine ⟨?_, rfl⟩
    by_contra hk
    exact hne (Text.trim_eq_empty_iff.2 (Bool.not_eq_true _ ▸ hk))

theorem keys_pairwise (rs : List Recipient) : (keys rs).Pairwise (· < ·) := by
  have hsorted : (keys rs).Pairwise (· ≤ ·) := List.pairwise_mergeSort' (· ≤ ·) _
  have hnodup : (keys rs).Nodup :=
    (List.mergeSort_perm _ _).nodup_iff.2 (nodup_eraseDups _)
  exact (hsorted.and hnodup).imp fun h => lt_of_le_of_ne h.1 h.2

theorem mem_keys_iff {key : String} : key ∈ keys rs ↔ ∃ r ∈ rs, r.Carries key := by
  simp only [mem_keys, carries_iff]

/-- Which keys a team has does not depend on how often and in which order it is listed. -/
theorem keys_congr (h : ∀ r, r ∈ rs' ↔ r ∈ rs) : keys rs' = keys rs := by
  refine (keys_pairwise rs').eq_of_mem_iff (keys_pairwise rs) fun key => ?_
  simp only [mem_keys_iff, h]

/-- The keys in a member list. Of each member the first entry counts. -/
structure AreListed (entries : List Recipient) (keys : List String) : Prop where
  ascending : keys.Pairwise (· < ·)
  mem_iff : ∀ key, key ∈ keys ↔ ∃ before r rest, entries = before ++ r :: rest ∧
    (∀ other ∈ before, other.memberName ≠ r.memberName) ∧ r.Carries key

theorem areListed_keys (entries : List Recipient) :
    AreListed entries (keys (firstPerMember entries)) where
  ascending := keys_pairwise _
  mem_iff key := by
    rw [mem_keys_iff]
    constructor
    · rintro ⟨r, hr, hk⟩
      obtain ⟨-, before, rest, he, hb⟩ := mem_firstPerMemberAfter.1 hr
      exact ⟨before, r, rest, he, hb, hk⟩
    · rintro ⟨before, r, rest, he, hb, hk⟩
      exact ⟨r, mem_firstPerMemberAfter.2 ⟨List.not_mem_nil, before, rest, he, hb⟩, hk⟩

end Recipient

def LacksKeys {α : Type} (r : Except Failure α) : Prop :=
  ∃ f, r = .error (.fault f) ∧ f.kind = .noRecipients

namespace Policy

/-- All that is built for members: one rule with their keys, or nothing for want of keys. -/
structure IsBuiltFor (rs : List Recipient) (pathRegex : String) (keys : List String) : Prop where
  ascending : keys.Pairwise (· < ·)
  mem_iff : ∀ key, key ∈ keys ↔ ∃ r ∈ rs, r.Carries key
  bare : ∀ key ∈ keys, key ≠ "" ∧ Text.trim key = key
  builds : ∀ hk : keys ≠ [],
    build rs pathRegex = .ok ⟨[⟨pathRegex, keys, hk⟩], List.cons_ne_nil _ _⟩
  fails : keys = [] → ∃ f, build rs pathRegex = .error f ∧ f.kind = .noRecipients
  repeats : ∀ rs', (∀ r, r ∈ rs' ↔ r ∈ rs) →
    (build rs' pathRegex).toOption = (build rs pathRegex).toOption
  permutes : ∀ rs', rs'.Perm rs → build rs' pathRegex = build rs pathRegex

theorem build_eq (rs : List Recipient) (pathRegex : String) (hk : Recipient.keys rs ≠ []) :
    build rs pathRegex =
      .ok ⟨[⟨pathRegex, Recipient.keys rs, hk⟩], List.cons_ne_nil _ _⟩ :=
  dif_neg hk

theorem build_of_no_keys {rs : List Recipient} (pathRegex : String) (hk : Recipient.keys rs = []) :
    ∃ f, build rs pathRegex = .error f ∧ f.kind = .noRecipients :=
  ⟨_, dif_pos hk, rfl⟩

theorem isBuiltFor_keys (rs : List Recipient) (pathRegex : String) :
    IsBuiltFor rs pathRegex (Recipient.keys rs) where
  ascending := Recipient.keys_pairwise rs
  mem_iff _ := Recipient.mem_keys_iff
  bare key hk := by
    obtain ⟨r, -, k, -, hink, rfl⟩ := Recipient.mem_keys_iff.1 hk
    refine ⟨fun he => ?_, Text.trim_trim k⟩
    rw [Text.trim_eq_empty_iff, hink] at he
    cases he
  builds hk := build_eq rs pathRegex hk
  fails hk := build_of_no_keys pathRegex hk
  repeats rs' h := by
    have hkeys := Recipient.keys_congr h
    by_cases hk : Recipient.keys rs = []
    · obtain ⟨f, hf, -⟩ := build_of_no_keys pathRegex hk
      obtain ⟨f', hf', -⟩ := build_of_no_keys pathRegex (hkeys.trans hk)
      rw [hf, hf']
      rfl
    · rw [build_eq rs pathRegex hk, build_eq rs' pathRegex (hkeys ▸ hk)]
      simp only [hkeys]
  permutes rs' h := by
    have hkeys : Recipient.keys rs' = Recipient.keys rs := Recipient.keys_congr fun r => h.mem_iff
    have hempty : rs'.isEmpty = rs.isEmpty := h.isEmpty_eq
    unfold build
    simp only [hkeys, hempty, h.length_eq]

end Policy

/-! ### What is done for the members -/

def Event.IsPrelude (c : Client) (tool : Sops.Tool) (project : String) : Event → Prop
  | .run r => ¬ Sops.IsEncryption tool r.toRun
  | .request r => r.method = "GET" ∧ ¬ r.IsTo c (.projectMembers project)

def Event.IsFor (keys : List String) : Event → Prop
  | .run r => ∃ hk : keys ≠ [], Sops.IsToldBy (Policy.ofKeys keys hk).render r.toRun
  | .request r => r.method = "POST"

section Lacking

variable {α β : Type}

theorem lacksKeys_error_iff {x : Failure} :
    LacksKeys (.error x : Except Failure α) ↔ LacksKeys (.error x : Except Failure β) := by
  constructor <;> rintro ⟨f, hf, hk⟩ <;> cases hf <;> exact ⟨f, rfl, hk⟩

theorem lacksKeys_map_iff {r : Except Failure α} {f : α → β} :
    LacksKeys (r.map f) ↔ LacksKeys r := by
  cases r with
  | error x => exact lacksKeys_error_iff
  | ok a => constructor <;> rintro ⟨f, hf, -⟩ <;> cases hf

theorem not_lacksKeys_ok (a : α) : ¬ LacksKeys (.ok a : Except Failure α) := by
  rintro ⟨f, hf, -⟩
  cases hf

theorem not_lacksKeys_crash (x : Crash) : ¬ LacksKeys (.error (.crash x) : Except Failure α) := by
  rintro ⟨f, hf, -⟩
  cases hf

theorem not_lacksKeys_of_kind {f : Fault} (hf : f.kind ≠ .noRecipients) :
    ¬ LacksKeys (.error (.fault f) : Except Failure α) := by
  rintro ⟨g, hg, hk⟩
  cases hg
  exact hf hk

theorem not_lacksKeys_of_isLocal {x : Failure} (hx : x.IsLocal) :
    ¬ LacksKeys (.error x : Except Failure α) := by
  cases x with
  | crash c => exact not_lacksKeys_crash c
  | fault f =>
    refine not_lacksKeys_of_kind fun hk => ?_
    simp [Failure.IsLocal, hk, FaultKind.parent?] at hx

end Lacking

namespace Client

theorem refusal_kind_ne (status : Int) (reason : String) (body : Bytes) :
    (refusal status reason body).kind ≠ .noRecipients := by
  intro hk
  obtain ⟨-, hr⟩ | ⟨-, hr⟩ | ⟨-, hr⟩ | ⟨-, code, details, hr⟩ := refusal_kind status reason body
  all_goals rw [hk] at hr; cases hr

theorem reading_kind_ne {c : Client} {method path : String} {reply : Reply} {f : Fault}
    (hf : c.reading method path reply = .error f) : f.kind ≠ .noRecipients := by
  cases reply with
  | failed text =>
    cases hf
    simp [Fault.service, Fault.of]
  | answered status reason body =>
    unfold reading decode at hf
    dsimp only at hf
    split at hf
    · cases hf
      exact refusal_kind_ne status reason body
    · split at hf
      · cases hf
      · split at hf
        · cases hf
        · cases hf
          simp [Fault.service, Fault.of]

theorem answer_kind_ne {α : Type} {c : Client} {e : Endpoint} {what : String} {p : Json → Payload α}
    {reply : Reply} {f : Fault} (hf : c.answer e what p reply = .error f) :
    f.kind ≠ .noRecipients := by
  unfold answer at hf
  cases hr : c.reading e.method e.path reply with
  | error g =>
    rw [hr] at hf
    cases hf
    exact reading_kind_ne hr
  | ok v =>
    rw [hr] at hf
    change (p v).mapError (misunderstood what) = .error f at hf
    cases hp : p v with
    | error cause =>
      rw [hp] at hf
      cases hf
      simp [misunderstood, Fault.because]
    | ok a =>
      rw [hp] at hf
      cases hf

end Client

namespace VersionStore

variable (c : Client) (project : String) (e : Environment)

theorem told_not_lacksKeys (reply : Reply) : ¬ LacksKeys (told c project e reply) := by
  unfold told
  cases hr : c.reading (Endpoint.method (.pullSecrets project))
    (Endpoint.path (.pullSecrets project)) reply with
  | error f => exact not_lacksKeys_of_kind (Client.reading_kind_ne hr)
  | ok v =>
    change ¬ LacksKeys (latest project e v)
    unfold latest
    split
    · exact not_lacksKeys_of_kind (by simp [Fault.of])
    · split
      · exact not_lacksKeys_ok _
      · exact not_lacksKeys_of_kind (by simp [Client.misunderstood, Fault.because])
      · exact not_lacksKeys_crash _

theorem question_isPrelude (tool : Sops.Tool) (t : Tree) :
    Event.IsPrelude c tool project (.request ⟨question c project e, t⟩) :=
  ⟨rfl, (question_isTo c project e).not_of_path (Endpoint.path_secrets_ne_members project)⟩

theorem push_not_lacksKeys (ciphertext : Bytes) (format : SecretFormat) (metadata : Json.Fields)
    (h : Host) (w : World) :
    ¬ LacksKeys (push c project e ciphertext format metadata h w).1 := by
  cases ht : Text.Utf8.decode? ciphertext with
  | none =>
    rw [push_of_no_text c project e h w format metadata ht]
    exact not_lacksKeys_crash _
  | some text =>
    rw [push_of_text c project e h w format metadata ht]
    dsimp only
    generalize hreply : h.respond w.events _ = reply
    cases ha : c.answer (.pushSecrets project) "push"
        (pushed project e ciphertext format metadata) reply with
    | error f => exact not_lacksKeys_of_kind (Client.answer_kind_ne ha)
    | ok version => exact not_lacksKeys_ok version

theorem push_emitted (ciphertext : Bytes) (format : SecretFormat) (metadata : Json.Fields)
    (h : Host) (w : World) (keys : List String) :
    Emitted (Event.IsFor keys) w (push c project e ciphertext format metadata h w).2 := by
  cases ht : Text.Utf8.decode? ciphertext with
  | none =>
    rw [push_of_no_text c project e h w format metadata ht]
    exact .of_events rfl
  | some text =>
    rw [push_of_text c project e h w format metadata ht]
    exact .single (World.sent_events _ _) rfl

end VersionStore

namespace Sops.Tool

variable (t : Tool)

theorem sealed_isLocal {x : Int × Bytes × Bytes} {f : Fault} (hs : sealed x = .error f) :
    (Failure.fault f).IsLocal := by
  obtain ⟨code, ciphertext, diagnostics⟩ := x
  unfold sealed at hs
  dsimp only at hs
  split at hs
  · cases hs
    exact .inl rfl
  · cases hm : metadata ciphertext with
    | error e =>
      rw [hm] at hs
      cases hs
      exact metadata_isLocal ciphertext hm
    | ok block =>
      rw [hm] at hs
      cases hs

theorem decrypt_emitted_prelude (c : Client) (project : String) (ciphertext : Bytes)
    (format : SecretFormat) (h : Host) (w : World) :
    Emitted (Event.IsPrelude c t project) w (t.decrypt ciphertext format h w).2 := by
  obtain he | ⟨file, scene, he⟩ := (t.decrypt_runs h w ciphertext format).events_cases
  · exact .of_events he
  · exact .single he (not_isEncryption ⟨rfl, format, file.toText, rfl⟩)

theorem encrypt_not_lacksKeys (file : Path) (p : Policy) (f : SecretFormat) (h : Host)
    (w : World) : ¬ LacksKeys (t.encrypt file p f h w).1 := by
  have hr := t.encrypt_runs h w file p f
  cases hx : (t.encrypt file p f h w).1 with
  | ok x => exact not_lacksKeys_ok x
  | error x =>
    rw [hx] at hr
    exact not_lacksKeys_of_isLocal (hr.isLocal fun _ _ => sealed_isLocal)

theorem encrypt_isFor (file : Path) {keys : List String} (hk : keys ≠ []) (f : SecretFormat)
    (h : Host) (w : World) :
    Emitted (Event.IsFor keys) w (t.encrypt file (Policy.ofKeys keys hk) f h w).2 := by
  obtain he | ⟨s, he, hs⟩ := told_of_runs (t.encrypt_runs h w file (Policy.ofKeys keys hk) f)
  · exact .of_events he
  · exact .single he ⟨hk, hs⟩

end Sops.Tool

def Action.IsPrelude {α : Type} (c : Client) (tool : Sops.Tool) (project : String)
    (a : Action α) : Prop :=
  ∀ h w, Emitted (Event.IsPrelude c tool project) w (a h w).2 ∧ ¬ LacksKeys (a h w).1

namespace Action.IsPrelude

variable {α β : Type} {c : Client} {tool : Sops.Tool} {project : String} {a : Action α}
  {f : α → Action β}

theorem of_still (ha : ∀ h w, (a h w).2.events = w.events ∧ ¬ LacksKeys (a h w).1) :
    a.IsPrelude c tool project :=
  fun h w => ⟨.of_events (ha h w).1, (ha h w).2⟩

theorem pure (x : α) : (Pure.pure x : Action α).IsPrelude c tool project :=
  of_still fun _ _ => ⟨rfl, not_lacksKeys_ok x⟩

theorem raise {x : Fault} (hx : x.kind ≠ .noRecipients) :
    (Action.raise x : Action α).IsPrelude c tool project :=
  of_still fun _ _ => ⟨rfl, not_lacksKeys_of_kind hx⟩

theorem bind (ha : a.IsPrelude c tool project) (hf : ∀ x, (f x).IsPrelude c tool project) :
    (a >>= f).IsPrelude c tool project := by
  intro h w
  obtain ⟨he, hk⟩ := ha h w
  rw [Action.bind_apply]
  rcases hr : a h w with ⟨x | x, v⟩
  · rw [hr] at he hk
    exact ⟨he, fun hl => hk (lacksKeys_error_iff.1 hl)⟩
  · rw [hr] at he
    exact ⟨he.trans (hf x h v).1, (hf x h v).2⟩

end Action.IsPrelude

namespace Files

variable {c : Client} {tool : Sops.Tool} {project : String}

theorem isFile_isPrelude (p : Path) : (isFile p).IsPrelude c tool project := by
  refine .bind (.of_still fun h w => ?_) fun n => ?_
  · rw [node?, lift_apply]
    cases w.files.probe h.workDirectory p with
    | error e => exact ⟨rfl, not_lacksKeys_crash _⟩
    | ok n => exact ⟨rfl, not_lacksKeys_ok n⟩
  · split
    · exact .pure true
    · exact .pure false

theorem makeDirectories_isPrelude (p : Path) : (makeDirectories p).IsPrelude c tool project := by
  refine .of_still fun h w => ⟨rfl, ?_⟩
  rcases hm : makeDirectories p h w with ⟨x | u, w'⟩
  · obtain ⟨y, rfl⟩ := Secrets.crash_of_makeDirectories h w hm
    exact not_lacksKeys_crash y
  · exact not_lacksKeys_ok u

theorem writePrivate_isPrelude (p : Path) (data : Bytes) :
    (writePrivate p data).IsPrelude c tool project := by
  refine .of_still fun h w => ?_
  obtain ⟨x, hw⟩ | ⟨u, -, hw⟩ := writePrivate_cases p data h w
  · rw [hw]
    exact ⟨rfl, not_lacksKeys_crash x⟩
  · rw [hw]
    exact ⟨rfl, not_lacksKeys_ok ()⟩

end Files

theorem Roster.told_of_listed {c : Client} {project : String} {reply : Reply}
    {entries : List Recipient} (hl : listed c project reply = some entries) :
    told c project reply = .ok (Recipient.firstPerMember entries) := by
  unfold listed at hl
  split at hl
  next v hread =>
    cases he : Roster.entries v with
    | error x =>
      rw [he] at hl
      cases hl
    | ok es =>
      rw [he] at hl
      cases hl
      refine Client.answer_eq_ok.2 ⟨v, hread, ?_⟩
      rw [decode_eq, he]
      rfl
  next => cases hl

def Serves {α : Type} (c : Client) (project : String) (h : Host) (v : World)
    (x : Except Failure α × World) : Prop :=
  match Roster.listed c project (h.respond v.events (Roster.question c project)) with
  | none => ¬ LacksKeys x.1 ∧ x.2.events = (v.sent (Roster.question c project)).events
  | some entries =>
    let keys := Recipient.keys (Recipient.firstPerMember entries)
    (LacksKeys x.1 ↔ keys = []) ∧
      (keys = [] → x.2.events = (v.sent (Roster.question c project)).events) ∧
      Emitted (Event.IsFor keys) (v.sent (Roster.question c project)) x.2

def ServesAsked {α : Type} (c : Client) (tool : Sops.Tool) (project : String) (h : Host)
    (w : World) (x : Except Failure α × World) : Prop :=
  (Emitted (Event.IsPrelude c tool project) w x.2 ∧ ¬ LacksKeys x.1) ∨
    ∃ v, Emitted (Event.IsPrelude c tool project) w v ∧ Serves c project h v x

section Serves

variable {α β : Type} {c : Client} {tool : Sops.Tool} {project : String} {h : Host} {v w : World}
  {x : Except Failure α × World}

theorem Serves.of_error {f : Fault}
    (ht : Roster.told c project (h.respond v.events (Roster.question c project)) = .error f)
    (hx : x.1 = .error (.fault f)) (he : x.2.events = (v.sent (Roster.question c project)).events) :
    Serves c project h v x := by
  have hk : ¬ LacksKeys x.1 := hx ▸ not_lacksKeys_of_kind (Client.answer_kind_ne ht)
  unfold Serves
  cases hl : Roster.listed c project (h.respond v.events (Roster.question c project)) with
  | none => exact ⟨hk, he⟩
  | some entries =>
    rw [Roster.told_of_listed hl] at ht
    cases ht

theorem Serves.of_ok {members : List Recipient}
    (ht : Roster.told c project (h.respond v.events (Roster.question c project)) = .ok members)
    (hk : LacksKeys x.1 ↔ Recipient.keys members = [])
    (hn : Recipient.keys members = [] → x.2.events = (v.sent (Roster.question c project)).events)
    (he : Emitted (Event.IsFor (Recipient.keys members)) (v.sent (Roster.question c project)) x.2) :
    Serves c project h v x := by
  obtain ⟨entries, hl, rfl⟩ := Roster.listed_of_told ht
  unfold Serves
  rw [hl]
  exact ⟨hk, hn, he⟩

theorem Serves.of_no_policy {members : List Recipient} {f : Fault}
    (ht : Roster.told c project (h.respond v.events (Roster.question c project)) = .ok members)
    (hb : Policy.build members = .error f) (hx : x.1 = .error (.fault f))
    (he : x.2.events = (v.sent (Roster.question c project)).events) :
    Serves c project h v x := by
  have hk : Recipient.keys members = [] := by
    by_contra hk
    rw [Policy.build_eq members _ hk] at hb
    cases hb
  refine .of_ok ht ⟨fun _ => hk, fun _ => ?_⟩ (fun _ => he) (.of_events he)
  obtain ⟨g, hg, hkind⟩ := Policy.build_of_no_keys Policy.anyPath hk
  obtain rfl : f = g := Except.error.inj (hb.symm.trans hg)
  exact ⟨f, hx, hkind⟩

theorem Serves.of_policy {members : List Recipient} {p : Policy} {file : Path}
    {format : SecretFormat} {r : Except Failure (Bytes × Json.Fields)} {u : World}
    (ht : Roster.told c project (h.respond v.events (Roster.question c project)) = .ok members)
    (hb : Policy.build members = .ok p)
    (he : tool.encrypt file p format h (v.sent (Roster.question c project)) = (r, u))
    (hx : ¬ LacksKeys x.1) (hw : ∀ keys, Emitted (Event.IsFor keys) u x.2) :
    Serves c project h v x := by
  have hk : Recipient.keys members ≠ [] := Policy.keys_of_build hb
  obtain rfl : p = Policy.ofKeys (Recipient.keys members) hk := by
    rw [Policy.build_eq members _ hk] at hb
    exact (Except.ok.inj hb).symm
  refine .of_ok ht ⟨fun hl => absurd hl hx, fun hn => absurd hn hk⟩ (fun hn => absurd hn hk) ?_
  have hsealed := tool.encrypt_isFor file hk format h (v.sent (Roster.question c project))
  rw [he] at hsealed
  exact hsealed.trans (hw _)

theorem Serves.of_events {y : Except Failure β × World} (hs : Serves c project h v x)
    (hk : LacksKeys y.1 ↔ LacksKeys x.1) (he : y.2.events = x.2.events) :
    Serves c project h v y := by
  unfold Serves at hs ⊢
  split at hs
  · rw [hk, he]
    exact hs
  · obtain ⟨hl, hn, hp⟩ := hs
    exact ⟨hk.trans hl, fun hne => he.trans (hn hne), hp.trans (.of_events he)⟩

end Serves

section Asking

variable {α β : Type} {c : Client} {tool : Sops.Tool} {project : String} {h : Host} {v w : World}

theorem ServesAsked.of_prelude {a : Action α} (ha : a.IsPrelude c tool project) :
    ServesAsked c tool project h w (a h w) :=
  .inl (ha h w)

theorem ServesAsked.bind {a : Action α} {f : α → Action β} (ha : a.IsPrelude c tool project)
    (hf : ∀ x v, a h w = (.ok x, v) → ServesAsked c tool project h v (f x h v)) :
    ServesAsked c tool project h w ((a >>= f) h w) := by
  obtain ⟨he, hk⟩ := ha h w
  rw [Action.bind_apply]
  rcases hr : a h w with ⟨x | x, v⟩
  · rw [hr] at he hk
    exact .inl ⟨he, fun hl => hk (lacksKeys_error_iff.1 hl)⟩
  · rw [hr] at he
    obtain ⟨hp, hn⟩ | ⟨u, hp, hs⟩ := hf x v hr
    · exact .inl ⟨he.trans hp, hn⟩
    · exact .inr ⟨u, he.trans hp, hs⟩

theorem ServesAsked.of_events {x : Except Failure α × World} {y : Except Failure β × World}
    (hs : ServesAsked c tool project h w x) (hk : LacksKeys y.1 ↔ LacksKeys x.1)
    (he : y.2.events = x.2.events) : ServesAsked c tool project h w y := by
  obtain ⟨hp, hn⟩ | ⟨u, hp, hs⟩ := hs
  · exact .inl ⟨hp.trans (.of_events he), fun hl => hn (hk.1 hl)⟩
  · exact .inr ⟨u, hp, hs.of_events hk he⟩

end Asking

namespace Secrets

variable (s : Secrets) {h : Host} {w : World}

theorem environment_isPrelude (given : Json) :
    (s.environment given).IsPrelude s.client s.tool s.project := by
  refine .of_still fun h w => ⟨rfl, ?_⟩
  rw [environment, Action.ofExcept_apply]
  unfold Environment.choose
  split
  · exact not_lacksKeys_ok _
  · split
    · exact not_lacksKeys_ok _
    · exact not_lacksKeys_of_kind (by simp [allowed, Fault.of])

theorem format_isPrelude (given : Json) :
    (Action.ofExcept (SecretFormat.choose given)).IsPrelude s.client s.tool s.project := by
  refine .of_still fun h w => ⟨rfl, ?_⟩
  rw [Action.ofExcept_apply]
  unfold SecretFormat.choose
  split
  · exact not_lacksKeys_ok _
  · split
    · exact not_lacksKeys_ok _
    · exact not_lacksKeys_of_kind (by simp [allowed, Fault.of])

theorem checkInstalled_isPrelude : s.tool.checkInstalled.IsPrelude s.client s.tool s.project := by
  refine .of_still fun h w => ?_
  obtain hi | hi := s.tool.checkInstalled_cases h w
  · rw [hi]
    exact ⟨rfl, not_lacksKeys_ok ()⟩
  · rw [hi]
    exact ⟨rfl, not_lacksKeys_of_isLocal (.inr rfl)⟩

theorem decrypt_isPrelude (ciphertext : Bytes) (format : SecretFormat) :
    (s.tool.decrypt ciphertext format).IsPrelude s.client s.tool s.project := by
  intro h w
  refine ⟨s.tool.decrypt_emitted_prelude s.client s.project ciphertext format h w, ?_⟩
  cases hx : (s.tool.decrypt ciphertext format h w).1 with
  | ok x => exact not_lacksKeys_ok x
  | error x => exact not_lacksKeys_of_isLocal (s.tool.decrypt_isLocal h w ciphertext format hx)

theorem pull_isPrelude (e : Environment) :
    (VersionStore.pull s.client s.project e).IsPrelude s.client s.tool s.project := by
  intro h w
  rw [VersionStore.pull_apply]
  exact ⟨.single (World.sent_events _ _) (VersionStore.question_isPrelude _ _ e s.tool w.files),
    VersionStore.told_not_lacksKeys _ _ _ _⟩

theorem pullTo_isPrelude (e : Environment) (output : Path) :
    (s.pullTo e output).IsPrelude s.client s.tool s.project := by
  refine .bind s.checkInstalled_isPrelude fun _ => ?_
  refine .bind (s.pull_isPrelude e) fun version => ?_
  refine .bind ?_ fun _ => .pure _
  refine .bind ?_ fun format => ?_
  · unfold Rotation.formatOf
    split
    · exact .pure _
    · exact .of_still fun _ _ => ⟨rfl, not_lacksKeys_crash _⟩
  refine .bind (s.decrypt_isPrelude _ _) fun plaintext => ?_
  exact .bind (Files.makeDirectories_isPrelude _) fun _ => Files.writePrivate_isPrelude _ _

theorem pullIfAny_isPrelude (e : Environment) (file : Path) :
    (s.pullIfAny e file).IsPrelude s.client s.tool s.project := by
  intro h w
  have hp : (do return some (← s.pullTo e file) : Action (Option Pulled)).IsPrelude s.client
      s.tool s.project := .bind (s.pullTo_isPrelude e file) fun _ => .pure _
  obtain ⟨he, hk⟩ := hp h w
  rw [pullIfAny, Action.recover_apply]
  rcases hr : (do return some (← s.pullTo e file) : Action (Option Pulled)) h w with ⟨x | p, v⟩
  · rw [hr] at he hk
    dsimp only
    split
    · exact ⟨he, not_lacksKeys_ok none⟩
    · exact ⟨he, hk⟩
  · rw [hr] at he
    exact ⟨he, not_lacksKeys_ok p⟩

theorem pushFile_serves (file : Path) (e : Environment) (f : SecretFormat) :
    ServesAsked s.client s.tool s.project h w (s.pushFile file e f h w) := by
  unfold pushFile
  refine .bind (Files.isFile_isPrelude file) fun there v _ => ?_
  cases there with
  | false => exact .of_prelude (.raise (by simp [fileMissing, Fault.of]))
  | true =>
    rw [if_pos rfl]
    refine .bind s.checkInstalled_isPrelude fun _ v _ => ?_
    refine .inr ⟨v, .of_events rfl, ?_⟩
    have hl := Roster.ofProject_apply s.client s.project h v
    cases ht : Roster.told s.client s.project
      (h.respond v.events (Roster.question s.client s.project)) with
    | error x =>
      rw [ht] at hl
      rw [Action.bind_of_error hl]
      exact .of_error ht rfl rfl
    | ok members =>
      rw [ht] at hl
      rw [Action.bind_of_ok hl]
      cases hb : Policy.build members with
      | error x =>
        rw [Action.bind_of_error (Action.ofExcept_apply _)]
        exact .of_no_policy ht hb rfl rfl
      | ok policy =>
        rw [Action.bind_of_ok (Action.ofExcept_apply _)]
        have hx := s.tool.encrypt_not_lacksKeys file policy f h
          (v.sent (Roster.question s.client s.project))
        rcases he : s.tool.encrypt file policy f h
          (v.sent (Roster.question s.client s.project)) with ⟨x | ⟨ciphertext, block⟩, u⟩
        · rw [he] at hx
          rw [Action.bind_of_error he]
          exact .of_policy ht hb he (fun hl => hx (lacksKeys_error_iff.1 hl)) fun _ =>
            .of_events rfl
        · rw [Action.bind_of_ok he]
          exact .of_policy ht hb he (VersionStore.push_not_lacksKeys s.client s.project e _ _ _ _ _)
            fun _ => VersionStore.push_emitted s.client s.project e _ _ _ _ _ _

end Secrets

namespace Rotation

variable {c : Client} {tool : Sops.Tool} {project : String} {environment : Environment}
  {parent : Option Path} {h : Host} {w w' : World}

theorem raised_not_lacksKeys {α : Type} (step : RotationStep) {own : Failure}
    (ho : ¬ LacksKeys (.error own : Except Failure α)) :
    ¬ LacksKeys (.error (raised step own) : Except Failure α) := by
  cases step with
  | decrypt =>
    cases own with
    | crash x => exact not_lacksKeys_crash x
    | fault f =>
      unfold raised cannotDecrypt
      dsimp only
      split
      · exact not_lacksKeys_of_kind (by simp [Fault.of])
      · exact ho
  | _ => exact ho

theorem askedFor_isPrelude (c : Client) (tool : Sops.Tool) (project : String)
    (environment : Environment) (w : World) :
    Emitted (Event.IsPrelude c tool project) w (askedFor c project environment w) :=
  .single (World.sent_events _ _)
    (VersionStore.question_isPrelude c project environment tool w.files)

theorem Opened.isPrelude (s : Opened c project environment parent h w) :
    Emitted (Event.IsPrelude c tool project) w s.opened :=
  (askedFor_isPrelude c tool project environment w).trans
    (.of_events (Scratch.events_of_create s.creates))

theorem decrypted_isPrelude {v v' : World} {ciphertext : Bytes} {format : SecretFormat}
    {r : Except Failure Bytes} (hd : tool.decrypt ciphertext format h v = (r, v')) :
    Emitted (Event.IsPrelude c tool project) v v' := by
  have he := tool.decrypt_emitted_prelude c project ciphertext format h v
  rwa [hd] at he

theorem Decrypted.isPrelude (s : Decrypted c tool project environment parent h w) :
    Emitted (Event.IsPrelude c tool project) w s.written :=
  s.toOpened.isPrelude.trans
    ((decrypted_isPrelude s.decrypts).trans (.of_events (Scratch.events_of_write s.writes)))

theorem Halts.serves {s : Opened c project environment parent h w} {step : RotationStep}
    {own : Failure} {keys : List String}
    (hh : Halts c tool project environment parent h w s step own keys w') :
    ServesAsked c tool project h w
      ((.error (raised step own), w') : Except Failure Rotation × World) := by
  cases hh with
  | format => exact .inl ⟨s.isPrelude, not_lacksKeys_crash _⟩
  | decrypt _ fails =>
    refine .inl ⟨s.isPrelude.trans (decrypted_isPrelude fails), ?_⟩
    exact raised_not_lacksKeys .decrypt
      (not_lacksKeys_of_isLocal (tool.decrypt_isLocal h _ _ _ (by rw [fails])))
  | write _ decrypts fails =>
    refine .inl ⟨s.isPrelude.trans ((decrypted_isPrelude decrypts).trans
      (.of_events (Scratch.events_of_write fails))), ?_⟩
    obtain ⟨x, rfl⟩ := Scratch.crash_of_write fails
    exact not_lacksKeys_crash x
  | refresh d _ fails => exact .inr ⟨d.written, d.isPrelude, .of_error fails rfl rfl⟩
  | build d _ fails => exact .inr ⟨d.written, d.isPrelude, .of_no_policy d.lists fails rfl rfl⟩
  | encrypt d _ fails =>
    have hx := tool.encrypt_not_lacksKeys d.file d.policy d.format h d.listed
    rw [fails] at hx
    exact .inr ⟨d.written, d.isPrelude, .of_policy d.lists d.builds fails
      (fun hl => hx (lacksKeys_error_iff.1 hl)) fun _ => .of_events rfl⟩

theorem Sealed.serves (s : Sealed c tool project environment parent h w)
    {x : Except Failure SecretVersion}
    (hp : VersionStore.push c project environment s.ciphertext s.format s.metadata h s.left =
      (x, w')) : ServesAsked c tool project h w (x, w') := by
  have hx := VersionStore.push_not_lacksKeys c project environment s.ciphertext s.format s.metadata
    h s.left
  rw [hp] at hx
  refine .inr ⟨s.written, s.isPrelude, .of_policy s.lists s.builds s.encrypts hx fun keys => ?_⟩
  have hpush := VersionStore.push_emitted c project environment s.ciphertext s.format s.metadata h
    s.left keys
  rw [hp] at hpush
  exact (Emitted.of_events (Scratch.left_events s.scratch)).trans hpush

theorem Course.serves {r : Rotation}
    (hc : Course c tool project environment parent h w r w') :
    ServesAsked c tool project h w ((match r.failure with
      | some (_, x) => .error x
      | none => .ok r, w') : Except Failure Rotation × World) := by
  cases hc with
  | nothing told missing =>
    exact .inl ⟨askedFor_isPrelude c tool project environment w, not_lacksKeys_ok _⟩
  | stopped stops =>
    cases stops with
    | fetch fails found =>
      refine .inl ⟨(askedFor_isPrelude c tool project environment w).trans (.of_events rfl), ?_⟩
      have hx := VersionStore.told_not_lacksKeys c project environment
        (h.respond w.events (VersionStore.question c project environment))
      rw [fails] at hx
      exact fun hl => hx (lacksKeys_error_iff.1 hl)
    | scratch s fails =>
      have he := Scratch.events_of_create fails
      refine .inl ⟨(askedFor_isPrelude c tool project environment w).trans (.of_events he), ?_⟩
      obtain ⟨x, he⟩ | ⟨p, l, -, -, he⟩ :=
        Scratch.create_cases h (askedFor c project environment w) "envv-rotate-" parent
      · rw [he] at fails
        cases fails
        exact not_lacksKeys_crash x
      · rw [he] at fails
        cases fails
    | inside s halts => exact halts.serves.of_events Iff.rfl (Scratch.left_events s.scratch)
    | push s fails => exact (s.serves fails).of_events lacksKeys_error_iff rfl
  | completed s =>
    have hx : LacksKeys (.ok s.version : Except Failure SecretVersion) ↔
        LacksKeys (.ok (⟨some s.current, some s.version, s.policy.recipientKeys, order, none⟩ :
          Rotation) : Except Failure Rotation) :=
      iff_of_false (not_lacksKeys_ok _) (not_lacksKeys_ok _)
    exact (s.toSealed.serves s.pushes).of_events hx.symm rfl

end Rotation

namespace Change

theorem perform_serves (s : Secrets) (u : Change) (h : Host) (w : World) :
    ServesAsked s.client s.tool s.project h w (u.perform s h w) := by
  have hvoid : ∀ {α : Type} {a : Action α},
      ServesAsked s.client s.tool s.project h w (a h w) →
      ServesAsked s.client s.tool s.project h w ((a >>= fun _ => pure ()) h w) := by
    intro α a ha
    have hr := Action.bind_of_pure (a := a) (f := fun _ => pure ()) (h := h) (w := w)
      (g := fun _ => .ok ()) fun _ _ => rfl
    rw [hr]
    refine ha.of_events ?_ rfl
    cases (a h w).1 with
    | error x => exact lacksKeys_error_iff
    | ok y => exact iff_of_false (not_lacksKeys_ok _) (not_lacksKeys_ok _)
  cases u with
  | push file environment format =>
    refine hvoid ?_
    refine .bind (s.environment_isPrelude environment) fun e v _ => ?_
    exact .bind (s.format_isPrelude format) fun f v _ => s.pushFile_serves file e f
  | sync environment file =>
    refine hvoid ?_
    refine .bind (s.environment_isPrelude environment) fun e v _ => ?_
    refine .bind (s.pullIfAny_isPrelude e _) fun pulled v _ => ?_
    refine .bind (Files.isFile_isPrelude _) fun there v _ => ?_
    cases there with
    | false => exact .of_prelude (.raise (by simp [Secrets.fileMissing, Fault.of]))
    | true =>
      rw [if_pos rfl, Action.bind_of_pure (g := fun x => .ok ⟨pulled, x⟩) fun _ _ => rfl]
      refine (s.pushFile_serves _ e _).of_events ?_ rfl
      exact lacksKeys_map_iff (f := fun x => (⟨pulled, x⟩ : Secrets.Synced))
  | rotate environment =>
    refine hvoid ?_
    refine .bind (s.environment_isPrelude environment) fun e v _ => ?_
    obtain ⟨r, w', hr, hc⟩ :=
      Rotation.run_course s.client s.tool s.project e none Rotation.start h v
    have hs := hc.serves
    rw [Action.bind_of_ok hr]
    cases hf : r.failure <;> rw [hf] at hs <;> exact hs

/-- For any members, a policy has one rule with their keys, whichever way they are listed. A change
that asks for the members encrypts for the keys of the member list that it is told and for no
others; it fails for want of keys if and only if that list has none, and then it does nothing more.
Until it asks, it neither encrypts nor posts. -/
theorem encrypts_for_listed :
    (∀ rs pathRegex, Policy.IsBuiltFor rs pathRegex (Recipient.keys rs)) ∧
    ∀ (s : Secrets) (u : Change) (h : Host) (w : World), ∃ trace,
      (u.perform s h w).2.events = w.events ++ trace ∧
      (((∀ e ∈ trace, e.IsPrelude s.client s.tool s.project) ∧
          ¬ LacksKeys (u.perform s h w).1) ∨
        ∃ first q after, trace = first ++ .request q :: after ∧
          (∀ e ∈ first, e.IsPrelude s.client s.tool s.project) ∧
          q.IsTo s.client (.projectMembers s.project) ∧
          match Roster.listed s.client s.project
            (h.respond (w.events ++ first) q.toRequest) with
          | none => ¬ LacksKeys (u.perform s h w).1 ∧ after = []
          | some entries => ∃ keys, Recipient.AreListed entries keys ∧
              (LacksKeys (u.perform s h w).1 ↔ keys = []) ∧ (keys = [] → after = []) ∧
              ∀ e ∈ after, e.IsFor keys) := by
  refine ⟨Policy.isBuiltFor_keys, fun s u h w => ?_⟩
  obtain ⟨⟨trace, ht, hp⟩, hk⟩ | ⟨v, ⟨first, hv, hp⟩, hs⟩ := u.perform_serves s h w
  · exact ⟨trace, ht, .inl ⟨hp, hk⟩⟩
  let q : Request.Sent := ⟨Roster.question s.client s.project, v.files⟩
  have hasked : (v.sent (Roster.question s.client s.project)).events =
      w.events ++ (first ++ [.request q]) := by
    rw [World.sent_events, hv, List.append_assoc]
  have hq : q.IsTo s.client (.projectMembers s.project) :=
    Roster.question_isTo s.client s.project
  unfold Serves at hs
  rw [hv] at hs
  cases hl : Roster.listed s.client s.project (h.respond (w.events ++ first) q.toRequest) with
  | none =>
    have hnone : Roster.listed s.client s.project
      (h.respond (w.events ++ first) (Roster.question s.client s.project)) = none := hl
    rw [hnone] at hs
    obtain ⟨hk, he⟩ := hs
    refine ⟨_, he.trans hasked, .inr ⟨first, q, [], rfl, hp, hq, ?_⟩⟩
    rw [hl]
    exact ⟨hk, rfl⟩
  | some entries =>
    have hsome : Roster.listed s.client s.project
      (h.respond (w.events ++ first) (Roster.question s.client s.project)) = some entries := hl
    rw [hsome] at hs
    obtain ⟨hk, hn, after, he, hfor⟩ := hs
    refine ⟨first ++ .request q :: after, ?_, .inr ⟨first, q, after, rfl, hp, hq, ?_⟩⟩
    · rw [he, hasked]
      simp
    rw [hl]
    refine ⟨_, Recipient.areListed_keys entries, hk, fun hne => ?_, hfor⟩
    have hsame := he.symm.trans (hn hne)
    exact List.append_right_eq_self.1 hsame

end Change

end TeamVault
