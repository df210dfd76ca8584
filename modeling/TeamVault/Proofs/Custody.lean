import TeamVault.Proofs.Commit
import TeamVault.Proofs.Lifetime
import TeamVault.Proofs.VersionLog

/-!
What the latest version holds. Over any sequence of pushes, syncs and rotations, with any failures
and any changes of the team, the latest version holds the plaintext and the format of the last push
or first sync, for exactly those who were told as members when it was stored.
-/
namespace TeamVault

open Sops (Tool)

/-- What the tool does: the output of an encryption opens to the plaintext, and only for the keys of
the policy that is its configuration; a decryption yields what one of the keys opens. -/
structure Sops.IsFaithful (h : Host) (program : String) (mayUse : Policy → Prop)
    (opens : String → Bytes → Option Bytes) : Prop where
  encrypts : ∀ {es r format config plaintext policy output diagnostics}, r.program = program →
    r.arguments = Tool.encryptArguments format plaintext.path config.path →
    r.reads = [config, plaintext] → mayUse policy →
    config.data = Text.Utf8.encode policy.render →
    h.execute es r = .exited 0 output diagnostics →
    ∀ key, opens key output = if key ∈ policy.recipientKeys then some plaintext.data else none
  decrypts : ∀ {es r format encrypted output diagnostics}, r.program = program →
    r.arguments = Tool.decryptArguments format encrypted.path → r.reads = [encrypted] →
    h.execute es r = .exited 0 output diagnostics →
    ∃ key, opens key encrypted.data = some output

def Policy.MayArise (h : Host) (c : Client) (project : String) (p : Policy) : Prop :=
  ∃ es r members, r.IsTo c (.projectMembers project) ∧
    Roster.told c project (h.respond es r) = .ok members ∧ Policy.build members = .ok p

theorem Roster.told_eq_of_baseUrl {c d : Client} (hb : d.baseUrl = c.baseUrl) (project : String) :
    Roster.told d project = Roster.told c project := by
  funext reply
  have hr : ∀ method path, d.reading method path reply = c.reading method path reply := by
    intro method path
    cases reply with
    | failed text => rw [Client.reading, Client.reading, Client.url, Client.url, hb]
    | answered status reason body => rfl
  rw [told, told, Client.answer, Client.answer, hr]

theorem Recipient.mem_keys {rs : List Recipient} {key : String} :
    key ∈ keys rs ↔ ∃ r ∈ rs, r.key? = some key := by
  rw [keys, List.mem_mergeSort, List.mem_eraseDups, List.mem_filterMap]

theorem Recipient.mem_firstPerMemberAfter {seen : List String} {rs : List Recipient}
    {r : Recipient} : r ∈ firstPerMemberAfter seen rs ↔ r.memberName ∉ seen ∧
      ∃ before after, rs = before ++ r :: after ∧ ∀ s ∈ before, s.memberName ≠ r.memberName := by
  induction rs generalizing seen with
  | nil => simp [firstPerMemberAfter]
  | cons s rest ih =>
    rw [firstPerMemberAfter]
    constructor
    · intro h
      split at h
      next hs =>
        obtain ⟨hr, before, after, rfl, hb⟩ := ih.1 h
        refine ⟨hr, s :: before, after, rfl, List.forall_mem_cons.2 ⟨fun he => ?_, hb⟩⟩
        exact hr (he ▸ hs)
      next hs =>
        obtain rfl | h := List.mem_cons.1 h
        · exact ⟨hs, [], rest, rfl, List.forall_mem_nil _⟩
        · obtain ⟨hr, before, after, rfl, hb⟩ := ih.1 h
          rw [List.mem_cons, not_or] at hr
          exact ⟨hr.2, s :: before, after, rfl, List.forall_mem_cons.2 ⟨Ne.symm hr.1, hb⟩⟩
    · rintro ⟨hr, before, after, he, hb⟩
      cases before with
      | nil =>
        obtain ⟨rfl, rfl⟩ := List.cons.inj he
        rw [if_neg hr]
        exact List.mem_cons_self
      | cons t before =>
        obtain ⟨rfl, rfl⟩ := List.cons.inj he
        obtain ⟨hs, hb⟩ := List.forall_mem_cons.1 hb
        split
        · exact ih.2 ⟨hr, before, after, rfl, hb⟩
        · refine List.mem_cons_of_mem _ (ih.2 ⟨?_, before, after, rfl, hb⟩)
          rw [List.mem_cons, not_or]
          exact ⟨Ne.symm hs, hr⟩

/-- A key in a member list: the first entry of its member has it, with or without blanks around. -/
def Recipient.Listed (entries : List Recipient) (key : String) : Prop :=
  ∃ before r after k, entries = before ++ r :: after ∧
    (∀ s ∈ before, s.memberName ≠ r.memberName) ∧
    r.publicKey = some k ∧ Text.trim k = key ∧ key ≠ ""

theorem Recipient.key?_eq_some {r : Recipient} {key : String} :
    r.key? = some key ↔ ∃ k, r.publicKey = some k ∧ Text.trim k = key ∧ key ≠ "" := by
  rw [key?, Option.bind_eq_some_iff]
  refine exists_congr fun k => and_congr_right fun _ => ?_
  split
  next hk => exact ⟨nofun, fun ⟨he, hne⟩ => absurd (he.symm.trans hk) hne⟩
  next hk => exact ⟨fun he => ⟨Option.some.inj he, Option.some.inj he ▸ hk⟩, fun he => he.1 ▸ rfl⟩

theorem Recipient.listed_iff {entries : List Recipient} {key : String} :
    Listed entries key ↔ ∃ r ∈ firstPerMember entries, r.key? = some key := by
  constructor
  · rintro ⟨before, r, after, k, he, hb, hk⟩
    exact ⟨r, mem_firstPerMemberAfter.2 ⟨List.not_mem_nil, before, after, he, hb⟩,
      key?_eq_some.2 ⟨k, hk⟩⟩
  · rintro ⟨r, hr, hk⟩
    obtain ⟨-, before, after, he, hb⟩ := mem_firstPerMemberAfter.1 hr
    obtain ⟨k, hk⟩ := key?_eq_some.1 hk
    exact ⟨before, r, after, k, he, hb, hk⟩

theorem Policy.mem_recipientKeys {rs : List Recipient} {pathRegex : String} {p : Policy}
    (h : build rs pathRegex = .ok p) {key : String} :
    key ∈ p.recipientKeys ↔ ∃ r ∈ rs, r.key? = some key := by
  unfold build at h
  dsimp only at h
  split at h
  · cases h
  · cases h
    rw [recipientKeys, List.mem_mergeSort, List.mem_eraseDups, List.flatMap_singleton,
      Recipient.mem_keys]

theorem Text.Utf8.encode_of_decode {bs : Bytes} {s : String} (h : decode? bs = some s) :
    encode s = bs := by
  unfold decode? String.fromUTF8? at h
  split at h
  · cases h
    rfl
  · cases h

section Opening

variable {c : Client} {tool : Tool} {project : String} {h : Host} {file : Path}
  {format : SecretFormat} {w v : World} {mayUse : Policy → Prop}
  {opens : String → Bytes → Option Bytes}

theorem Sealing.opens_eq (z : Sealing c tool project h file format v)
    (ht : Sops.IsFaithful h tool.program mayUse opens) (hm : mayUse z.policy)
    (hs : v.files.Sound h.workDirectory) (hp : file.Proper) {l : Location} {mode : Nat}
    {data : Bytes} (hf : v.files.find h.workDirectory file = .ok (l, .file mode data))
    (key : String) :
    opens key z.ciphertext = if key ∈ z.policy.recipientKeys then some data else none := by
  obtain ⟨directory, k, scene, diagnostics, hst, -, hx, -⟩ := z.exists_run
  obtain ⟨config, plain, harguments, hreads, hconfig, rfl⟩ := hst.exists_reads hs hp hf rfl
  exact ht.encrypts rfl harguments hreads hm hconfig hx key

theorem Sops.IsFaithful.decrypt_opens (ht : Sops.IsFaithful h tool.program mayUse opens)
    {ciphertext plaintext : Bytes}
    (hd : tool.decrypt ciphertext format h w = (.ok plaintext, v)) :
    ∃ key, opens key ciphertext = some plaintext := by
  have hr := tool.decrypt_runs h w ciphertext format
  rw [hd] at hr
  obtain ⟨directory, k, scene, code, output, diagnostics, hst, -, hx, ho⟩ := hr.of_ok
  obtain ⟨rfl, rfl⟩ := Tool.opened_eq_ok ho
  obtain ⟨-, encrypted, harguments, hreads, rfl⟩ := hst.isOpening (t := tool)
  exact ht.decrypts rfl harguments hreads hx

end Opening

instance (r : Request) (c : Client) (e : Endpoint) : Decidable (r.IsTo c e) :=
  inferInstanceAs (Decidable (_ ∧ _))

namespace Roster

def entries (v : Json) : Payload (List Recipient) := do
  let fs ← if v.isPresent then Payload.fields v else .ok []
  Payload.records Recipient.ofFields (Json.Fields.presentOr fs "members" (.list []))

theorem decode_eq (v : Json) : decode v = (entries v).map Recipient.firstPerMember := by
  unfold decode entries
  dsimp only
  split
  · cases Payload.fields v with
    | error x => rfl
    | ok fs => cases Payload.records Recipient.ofFields (fs.presentOr "members" (.list [])) <;> rfl
  · cases Payload.records Recipient.ofFields (Json.Fields.presentOr [] "members" (.list [])) <;> rfl

def listed (c : Client) (project : String) (reply : Reply) : Option (List Recipient) :=
  match c.reading (Endpoint.method (.projectMembers project))
    (Endpoint.path (.projectMembers project)) reply with
  | .ok v => (entries v).toOption
  | .error _ => none

theorem listed_of_told {c : Client} {project : String} {reply : Reply} {members : List Recipient}
    (ht : told c project reply = .ok members) :
    ∃ es, listed c project reply = some es ∧ members = Recipient.firstPerMember es := by
  obtain ⟨v, hread, hv⟩ := Client.answer_eq_ok.1 ht
  rw [decode_eq] at hv
  unfold listed
  rw [hread]
  cases he : entries v with
  | error x =>
    rw [he] at hv
    cases hv
  | ok es =>
    rw [he] at hv
    cases hv
    exact ⟨es, congrArg Except.toOption he, rfl⟩

def hear (c : Client) (project : String) (h : Host) :
    List Event × List Recipient → Event → List Event × List Recipient
  | (seen, known), .run r => (seen ++ [.run r], known)
  | (seen, known), .request r => (seen ++ [.request r],
      if r.IsTo c (.projectMembers project) then
        (listed c project (h.respond seen r.toRequest)).getD known
      else known)

def heard (c : Client) (project : String) (h : Host) (earlier later : List Event) :
    List Recipient :=
  ((later.drop earlier.length).foldl (hear c project h) (earlier, [])).2

variable {c : Client} {project : String} {h : Host}

theorem foldl_hear_fst (trace seen : List Event) (known : List Recipient) :
    (trace.foldl (hear c project h) (seen, known)).1 = seen ++ trace := by
  induction trace generalizing seen known with
  | nil => simp
  | cons d rest ih => cases d <;> simp [hear, ih]

theorem foldl_hear_of_none {trace : List Event}
    (ht : ∀ r, .request r ∈ trace → ¬ r.IsTo c (.projectMembers project)) (seen : List Event)
    (known : List Recipient) : (trace.foldl (hear c project h) (seen, known)).2 = known := by
  induction trace generalizing seen with
  | nil => rfl
  | cons d rest ih =>
    have hrest := ih fun r hr => ht r (List.mem_cons_of_mem d hr)
    cases d with
    | run r => exact hrest (seen ++ [.run r])
    | request r =>
      rw [List.foldl_cons, hear, if_neg (ht r List.mem_cons_self)]
      exact hrest (seen ++ [.request r])

theorem heard_of_last {earlier later first rest : List Event} {q : Request.Sent}
    {roster : List Recipient} (hl : later = earlier ++ (first ++ .request q :: rest))
    (hq : q.IsTo c (.projectMembers project))
    (ht : listed c project (h.respond (earlier ++ first) q.toRequest) = some roster)
    (hr : ∀ r, .request r ∈ rest → ¬ r.IsTo c (.projectMembers project)) :
    heard c project h earlier later = roster := by
  rw [heard, hl, List.drop_left, List.foldl_append, List.foldl_cons]
  rcases hf : first.foldl (hear c project h) (earlier, []) with ⟨seen, known⟩
  obtain rfl : seen = earlier ++ first := by
    have hseen : (first.foldl (hear c project h) (earlier, [])).1 = earlier ++ first :=
      foldl_hear_fst first earlier []
    rwa [hf] at hseen
  rw [hear, if_pos hq, ht]
  exact foldl_hear_of_none hr _ roster

end Roster

theorem Sealing.heard {c : Client} {tool : Tool} {project : String} {h : Host} {file : Path}
    {format : SecretFormat} {v : World} (z : Sealing c tool project h file format v)
    {earlier first later : List Event} {post : Request.Sent}
    (hv : v.events = earlier ++ first) (hl : later = z.sealed.events ++ [.request post])
    (hp : post.method = "POST") :
    z.recipients = Recipient.firstPerMember (Roster.heard c project h earlier later) := by
  obtain ⟨roster, hroster, hrec⟩ := Roster.listed_of_told z.lists
  obtain ⟨r, hrun⟩ : ∃ r, z.sealed.events =
      v.events ++ [.request ⟨Roster.question c project, v.files⟩, .run r] := by
    obtain ⟨directory, k, scene, diagnostics, -, hrun, -⟩ := z.exists_run
    exact ⟨_, hrun⟩
  have hlater : later = earlier ++
      (first ++ .request ⟨Roster.question c project, v.files⟩ :: [.run r, .request post]) := by
    rw [hl, hrun, hv]
    simp only [List.append_assoc, List.cons_append, List.nil_append]
  rw [hrec]
  refine congrArg _ (Eq.symm ?_)
  refine Roster.heard_of_last hlater (Roster.question_isTo c project) (hv ▸ hroster) ?_
  intro q hq hto
  simp only [List.mem_cons, List.not_mem_nil, or_false, reduceCtorEq, false_or,
    Event.request.injEq] at hq
  subst hq
  exact absurd (hp.symm.trans hto.1) (by decide : "POST" ≠ "GET")

/-- What a version holds: the plaintext, its format and the member list that it is meant for. -/
structure Content where
  plaintext : Bytes
  format : SecretFormat
  roster : List Recipient

/-- A version holds a content: the listed keys open it, and no other key does. -/
def Content.IsIn (x : Content) (opens : String → Bytes → Option Bytes) (v : StoredVersion) :
    Prop :=
  v.body.get? "format" = some (.text x.format.name) ∧
    ∃ text, v.body.get? "encrypted_data" = some (.text text) ∧ ∀ key data,
      opens key (Text.Utf8.encode text) = some data ↔
        data = x.plaintext ∧ Recipient.Listed x.roster key

def HoldsLatest (opens : String → Bytes → Option Bytes) (content : Option Content)
    (versions : List StoredVersion) : Prop :=
  ∀ x, content = some x → ∃ last, versions.getLast? = some last ∧ x.IsIn opens last

/-- Between two worlds the latest version goes on from holding one content to holding another, and
there is no version in between. -/
def Passes (opens : String → Bytes → Option Bytes) (versions : List Event → List StoredVersion)
    (w w' : World) (content content' : Option Content) : Prop :=
  Steady versions w w' ∧
    (HoldsLatest opens content (versions w.events) →
      HoldsLatest opens content' (versions w'.events))

section Passing

variable {c d : Client} {tool : Tool} {project : String} {e : Environment} {h : Host}
  {file : Path} {format : SecretFormat} {w v w' : World} {mayUse : Policy → Prop}
  {opens : String → Bytes → Option Bytes} {versions : List Event → List StoredVersion}
  {content content' : Option Content}
  (hk : KeepsVersions h c project e versions)
  (ht : Sops.IsFaithful h tool.program (Policy.MayArise h c project) opens)
  (hb : d.baseUrl = c.baseUrl)
include hk

theorem passes_of_quiet (hq : Quiet w w') : Passes opens versions w w' content content :=
  ⟨hk.steady_of_quiet hq, fun hh => (hk.quiet hq).symm ▸ hh⟩

include ht hb

theorem HoldsLatest.eq_of_decrypts {x : Content} {es : List Event} {version : SecretVersion}
    {plaintext : Bytes} (hh : HoldsLatest opens (some x) (versions es))
    (hv : VersionStore.told d project e (h.respond es (VersionStore.question d project e)) =
      .ok version) (hf : version.format = some format)
    (hd : tool.decrypt version.ciphertext format h v = (.ok plaintext, w')) :
    x.plaintext = plaintext ∧ x.format = format := by
  obtain ⟨last, hlast, hformat, text, htext, hopens⟩ := hh x rfl
  have hto := (VersionStore.question_isTo d project e).of_baseUrl hb
  obtain hno | ⟨last', fs, hlast', hfs, -, hdata, hfmt⟩ := hk.get es _ hto rfl
  · obtain ⟨f, hr⟩ := hno.reading_eq d (Endpoint.method (.pullSecrets project))
      (Endpoint.path (.pullSecrets project))
    rw [VersionStore.told, hr] at hv
    cases hv
  · obtain rfl : last = last' := Option.some.inj (hlast.symm.trans hlast')
    obtain ⟨hc, hvf⟩ := VersionStore.told_of_tells hfs (hdata.trans htext) (hfmt.trans hformat) hv
    obtain ⟨key, hkey⟩ := ht.decrypt_opens hd
    rw [hc] at hkey
    rw [hvf] at hf
    exact ⟨((hopens key plaintext).1 hkey).1.symm, Option.some.inj hf⟩

theorem Sealing.passes (z : Sealing d tool project h file format v) (hq : Quiet w v)
    (hs : v.files.Sound h.workDirectory) (hp : file.Proper) {l : Location} {mode : Nat}
    {data : Bytes} (hfind : v.files.find h.workDirectory file = .ok (l, .file mode data))
    {left : World} (hl : left.events = z.sealed.events)
    {r : Except Failure SecretVersion} {v' : World}
    (hpush : VersionStore.push d project e z.ciphertext format z.metadata h left = (r, v'))
    (hw : w'.events = v'.events) (herror : r.isOk = false → content' = content)
    (hok : r.isOk = true → HoldsLatest opens content (versions w.events) → ∀ x,
      content' = some x → x = ⟨data, format, Roster.heard d project h w.events w'.events⟩) :
    Passes opens versions w w' content content' := by
  have hleft : Quiet w left := (hq.trans z.quiet).trans (.of_events hl)
  cases htext : Text.Utf8.decode? z.ciphertext with
  | none =>
    rw [VersionStore.push_of_no_text d project e h left format z.metadata htext] at hpush
    cases hpush
    rw [herror rfl]
    exact passes_of_quiet hk (hleft.trans (.of_events hw))
  | some text =>
    have hsent := congrArg (·.2.events) hpush
    have hcases := hk.push_cases hb z.ciphertext format z.metadata left
    rw [hpush] at hcases
    simp only [VersionStore.push_of_text d project e h left format z.metadata htext,
      World.sent_events] at hsent
    -- The post is the last event, so until then only reads have happened.
    refine ⟨hk.steady_of_last hleft (hw.trans hsent.symm), fun hold => ?_⟩
    rw [hw]
    obtain ⟨hno, hsame⟩ | ⟨text', hyes, htext', hnew⟩ := hcases
    · rw [herror hno, hsame, hk.quiet hleft]
      exact hold
    obtain rfl : text = text' := Option.some.inj (htext.symm.trans htext')
    intro x hx
    have hm : Policy.MayArise h c project z.policy :=
      ⟨v.events, _, z.recipients, (Roster.question_isTo d project).of_baseUrl hb,
        Roster.told_eq_of_baseUrl hb project ▸ z.lists, z.builds⟩
    have hheard : z.recipients =
        Recipient.firstPerMember (Roster.heard d project h w.events w'.events) := by
      obtain ⟨first, hv, -⟩ := hq
      exact z.heard hv (by rw [hw, ← hsent, hl]) rfl
    rw [hok hyes hold x hx, hnew]
    refine ⟨_, List.getLast?_concat, rfl, text, rfl, fun key bytes => ?_⟩
    rw [Text.Utf8.encode_of_decode htext, z.opens_eq ht hm hs hp hfind, Recipient.listed_iff,
      ← hheard, ← Policy.mem_recipientKeys z.builds]
    split
    next hmem => simp [hmem, eq_comm]
    next hmem => simp [hmem]

end Passing

end TeamVault
