import TeamVault.Proofs.Commit
import TeamVault.Proofs.NothingStored
import TeamVault.Proofs.Sending

/-!
What a reply is taken for, and how often it is asked for. A call sends one request and makes of the
reply a value or a fault of four kinds: the kind of a refusal goes by the status alone, and its
words by the first that says something. No operation on secrets sends a request for the second time.
-/
namespace TeamVault

/-! ### Replies -/

namespace FaultKind

def IsFor (status : Int) (k : FaultKind) : Prop :=
  if status = 401 then k = .auth
  else if status = 403 then k = .authz
  else if status = 404 then k = .notFound
  else ∃ code details, k = .service status code details

def IsOfCall (k : FaultKind) : Prop :=
  k = .auth ∨ k = .authz ∨ k = .notFound ∨ ∃ status code details, k = .service status code details

theorem IsFor.isOfCall {status : Int} {k : FaultKind} (hk : k.IsFor status) : k.IsOfCall := by
  unfold IsFor at hk
  split at hk
  · exact .inl hk
  split at hk
  · exact .inr (.inl hk)
  split at hk
  · exact .inr (.inr (.inl hk))
  · exact .inr (.inr (.inr ⟨status, hk⟩))

end FaultKind

namespace Reply

def json? (body : Bytes) : Option Json := Json.ofText? (Text.Utf8.decodeLenient body)

def Explains (body : Bytes) (v : Json) : Prop :=
  ∃ fs, json? body = some (.object fs) ∧ Json.Fields.get? fs "error" = some v ∧ ¬ v.IsBlank

/-- The words for a refusal: the first of those of the body, the reason and the status. -/
inductive Words (status : Int) (reason : String) (body : Bytes) : String → Prop
  | explained {v : Json} (he : Explains body v) : Words status reason body v.messageText
  | reason (hn : ∀ v, ¬ Explains body v) (hr : reason ≠ "") : Words status reason body reason
  | status (hn : ∀ v, ¬ Explains body v) (hr : reason = "") :
    Words status reason body ("HTTP " ++ toString status)

/-- A success gives nothing where it carries nothing or null, else the value that it carries; it is
not understood exactly where it carries something that is not JSON. -/
structure Succeeds (status : Int) (body : Bytes) (r : Except Failure Json) : Prop where
  nothing : r = .ok .null ↔ status = 204 ∨ body = [] ∨ json? body = some .null
  value : status ≠ 204 → body ≠ [] → ∀ v, json? body = some v → r = .ok v
  invalid : (∃ x, r = .error x) ↔ status ≠ 204 ∧ body ≠ [] ∧ json? body = none
  kind : ∀ x, r = .error x → ∃ f, x = .fault f ∧
    f.kind = .service status (.text "invalid_response") (.object [])

def Yields : Reply → Except Failure Json → Prop
  | .failed _, r => ∃ f, r = .error (.fault f) ∧
    f.kind = .service 0 (.text "network_error") (.object [])
  | .answered status reason body, r =>
    (400 ≤ status → ∃ f, r = .error (.fault f) ∧ f.kind.IsFor status ∧
      Words status reason body f.text) ∧
    (status < 400 → Succeeds status body r)

def envelope (body : Bytes) : Json.Fields :=
  match json? body with
  | some (.object fs) => fs
  | _ => []

theorem present?_envelope {body : Bytes} {v : Json} :
    (envelope body).present? "error" = some v ↔ Explains body v := by
  unfold envelope Explains
  split
  next fs hb =>
    rw [Json.Fields.present?, Option.filter_eq_some_iff, Json.isBlank_iff, Bool.not_eq_false]
    constructor
    · exact fun hv => ⟨fs, hb, hv⟩
    · rintro ⟨gs, hgs, hv⟩
      obtain rfl : fs = gs := by
        rw [hb] at hgs
        cases hgs
        rfl
      exact hv
  next hb =>
    constructor
    · intro hv
      cases hv
    · rintro ⟨fs, hfs, -⟩
      exact absurd hfs (hb fs)

theorem Yields.ends {reply : Reply} {r : Except Failure Json} (hr : reply.Yields r) :
    (∃ v, r = .ok v) ∨ ∃ f, r = .error (.fault f) ∧ f.kind.IsOfCall := by
  cases reply with
  | failed text =>
    obtain ⟨f, hf, hk⟩ := hr
    exact .inr ⟨f, hf, .inr (.inr (.inr ⟨_, _, _, hk⟩))⟩
  | answered status reason body =>
    by_cases hs : 400 ≤ status
    · obtain ⟨f, hf, hk, -⟩ := hr.1 hs
      exact .inr ⟨f, hf, hk.isOfCall⟩
    have hsucceeds := hr.2 (Int.not_le.1 hs)
    cases r with
    | ok v => exact .inl ⟨v, rfl⟩
    | error x =>
      obtain ⟨f, rfl, hk⟩ := hsucceeds.kind x rfl
      exact .inr ⟨f, rfl, .inr (.inr (.inr ⟨_, _, _, hk⟩))⟩

end Reply

namespace Client

open Reply (Words Explains json? Succeeds)

theorem isFor_refusal (status : Int) (reason : String) (body : Bytes) :
    (refusal status reason body).kind.IsFor status := by
  unfold refusal FaultKind.IsFor
  dsimp only
  split
  · rfl
  split
  · rfl
  split
  · rfl
  · exact ⟨_, _, rfl⟩

theorem refusal_text (status : Int) (reason : String) (body : Bytes) :
    (refusal status reason body).text =
      match (Reply.envelope body).present? "error" with
      | some v => v.messageText
      | none => if reason = "" then "HTTP " ++ toString status else reason := by
  unfold refusal
  dsimp only
  split
  · rfl
  split
  · rfl
  split
  · rfl
  · rfl

theorem words_refusal (status : Int) (reason : String) (body : Bytes) :
    Words status reason body (refusal status reason body).text := by
  rw [refusal_text]
  cases hp : (Reply.envelope body).present? "error" with
  | some v => exact .explained (Reply.present?_envelope.1 hp)
  | none =>
    have hn : ∀ v, ¬ Explains body v := fun v hv => by
      rw [Reply.present?_envelope.2 hv] at hp
      cases hp
    dsimp only
    split
    next hr => exact .status hn hr
    next hr => exact .reason hn hr

theorem decode_succeeds {status : Int} (hs : status < 400) (method path reason : String)
    (body : Bytes) :
    Succeeds status body ((decode method path status reason body).mapError .fault) := by
  have hn : ¬ 400 ≤ status := by omega
  unfold decode
  rw [if_neg hn]
  by_cases he : status = 204 ∨ body = []
  · rw [if_pos he]
    exact
      { nothing := ⟨fun _ => or_assoc.1 (.inl he), fun _ => rfl⟩
        value := fun hs hb => absurd he (not_or.2 ⟨hs, hb⟩)
        invalid := ⟨nofun, fun ⟨hs, hb, _⟩ => absurd he (not_or.2 ⟨hs, hb⟩)⟩
        kind := nofun }
  rw [if_neg he]
  obtain ⟨hstatus, hbody⟩ := not_or.1 he
  cases hv : json? body with
  | some v =>
    have hv' : Json.ofText? (Text.Utf8.decodeLenient body) = some v := hv
    rw [hv']
    exact
      { nothing := by simp [Except.mapError, hstatus, hbody, hv]
        value := fun _ _ u hu => by
          rw [hv] at hu
          cases hu
          rfl
        invalid := ⟨nofun, fun ⟨_, _, hnone⟩ => by simp [hv] at hnone⟩
        kind := nofun }
  | none =>
    have hv' : Json.ofText? (Text.Utf8.decodeLenient body) = none := hv
    rw [hv']
    exact
      { nothing := by simp [Except.mapError, hstatus, hbody, hv]
        value := fun _ _ u hu => by simp [hv] at hu
        invalid := ⟨fun _ => ⟨hstatus, hbody, hv⟩, fun _ => ⟨_, rfl⟩⟩
        kind := fun x hx => by
          cases hx
          exact ⟨_, rfl, rfl⟩ }

theorem reading_yields (c : Client) (method path : String) (reply : Reply) :
    reply.Yields ((c.reading method path reply).mapError .fault) := by
  cases reply with
  | failed text => exact ⟨_, rfl, rfl⟩
  | answered status reason body =>
    refine ⟨fun hs => ⟨refusal status reason body, ?_, isFor_refusal status reason body,
      words_refusal status reason body⟩, fun hs => decode_succeeds hs method path reason body⟩
    unfold reading decode
    dsimp only
    rw [if_pos hs]
    rfl

def line (c : Client) (e : Endpoint) : String × String := (e.method, c.url e.path)

def changeLines (c : Client) (project : String) : List (String × String) :=
  [c.line (.pullSecrets project), c.line (.projectMembers project), c.line (.pushSecrets project)]

theorem nodup_changeLines (c : Client) (project : String) : (c.changeLines project).Nodup := by
  have hmembers : c.line (.pullSecrets project) ≠ c.line (.projectMembers project) := fun he =>
    Endpoint.path_secrets_ne_members project (url_inj (congrArg Prod.snd he))
  have hpost : ∀ e : Endpoint, e.method = "GET" → c.line e ≠ c.line (.pushSecrets project) :=
    fun e hget he => by
      have hm : e.method = "POST" := congrArg Prod.fst he
      rw [hget] at hm
      exact absurd hm (by decide)
  simp [changeLines, hmembers, hpost (.pullSecrets project) rfl,
    hpost (.projectMembers project) rfl]

end Client

/-! ### Requests of an operation -/

def Event.line? : Event → Option (String × String)
  | .request r => some (r.method, r.url)
  | .run _ => none

/-- The requests between two worlds are some of these calls, in their order and each at most once.
-/
def Calls (lines : List (String × String)) (w w' : World) : Prop :=
  ∃ trace, w'.events = w.events ++ trace ∧ (trace.filterMap Event.line?).Sublist lines

namespace Calls

variable {lines more : List (String × String)} {u v w : World}

theorem of_events (he : w.events = v.events) : Calls lines v w :=
  ⟨[], by rw [he, List.append_nil], List.nil_sublist _⟩

theorem trans (hu : Calls lines u v) (hv : Calls more v w) : Calls (lines ++ more) u w := by
  obtain ⟨trace, ht, hl⟩ := hu
  obtain ⟨rest, hr, hm⟩ := hv
  refine ⟨trace ++ rest, by rw [hr, ht, List.append_assoc], ?_⟩
  rw [List.filterMap_append]
  exact hl.append hm

theorem mono (hw : Calls lines v w) (hs : lines.Sublist more) : Calls more v w := by
  obtain ⟨trace, ht, hl⟩ := hw
  exact ⟨trace, ht, hl.trans hs⟩

theorem rest (hu : Calls lines u v) (hv : Calls [] v w) : Calls lines u w := by
  have hw := hu.trans hv
  rwa [List.append_nil] at hw

theorem still (hu : Calls lines u v) (he : w.events = v.events) : Calls lines u w :=
  hu.rest (.of_events he)

theorem sent (w : World) (q : Request) : Calls [(q.method, q.url)] w (w.sent q) :=
  ⟨_, World.sent_events w q, .refl _⟩

theorem of_runs {α : Type} {t : Sops.Tool} {h : Host} {j : Sops.Job}
    {g : Int × Bytes × Bytes → Except Fault α} {r : Except Failure α}
    (hr : t.Runs h v j g r w.events) : Calls [] v w := by
  obtain he | ⟨file, scene, he⟩ := hr.events_cases
  · exact .of_events he
  · exact ⟨_, he, .refl _⟩

end Calls

namespace Action

variable {α β : Type} {lines more : List (String × String)} {a : Action α} {k : α → Action β}

def Sends (lines : List (String × String)) (a : Action α) : Prop :=
  ∀ h w, Calls lines w (a h w).2

namespace Sends

theorem of_silent (ha : a.IsSilent) : a.Sends lines := fun h w => .of_events (ha h w)

theorem bind (ha : a.Sends lines) (hk : ∀ x, (k x).Sends more) :
    (a >>= k).Sends (lines ++ more) := by
  intro h w
  have hv := ha h w
  rw [bind_apply]
  rcases hr : a h w with ⟨x | x, v⟩
  · rw [hr] at hv
    exact hv.mono (List.sublist_append_left lines more)
  · rw [hr] at hv
    exact hv.trans (hk x h v)

theorem after (ha : a.Sends []) (hk : ∀ x, (k x).Sends lines) : (a >>= k).Sends lines :=
  bind ha hk

theorem last (ha : a.Sends lines) (hk : ∀ x, (k x).IsSilent) : (a >>= k).Sends lines := by
  have hsilent : ∀ x, (k x).Sends [] := fun x => of_silent (hk x)
  have hs := bind ha hsilent
  rwa [List.append_nil] at hs

theorem recover {handle : Failure → Action α} (ha : a.Sends lines)
    (hh : ∀ x, (handle x).IsSilent) : (a.recover handle).Sends lines := by
  intro h w
  have hv := ha h w
  rw [recover_apply]
  rcases hr : a h w with ⟨x | x, v⟩
  · rw [hr] at hv
    have hs : Calls [] v (handle x h v).2 := .of_events (hh x h v)
    have hall := hv.trans hs
    rwa [List.append_nil] at hall
  · rw [hr] at hv
    exact hv

theorem call (c : Client) (e : Endpoint) (body params : Option Json) :
    (c.call e body params).Sends [c.line e] := by
  intro h w
  rw [Client.call_apply]
  exact .sent w _

end Sends

end Action

open TeamVault.Action (Sends)

namespace VersionStore

variable (c : Client) (project : String) (e : Environment)

theorem pull_sends : (pull c project e).Sends [c.line (.pullSecrets project)] :=
  .last (.call _ _ _ _) fun _ => .ofResult _

theorem push_sends (ciphertext : Bytes) (f : SecretFormat) (metadata : Json.Fields) :
    (push c project e ciphertext f metadata).Sends [c.line (.pushSecrets project)] := by
  unfold push
  split
  · exact .of_silent (.ofResult _)
  · exact .last (.call _ _ _ _) fun _ => .ofResult _

end VersionStore

namespace Sops.Tool

variable (t : Tool)

theorem encrypt_sends (file : Path) (p : Policy) (f : SecretFormat) :
    (t.encrypt file p f).Sends [] := fun h w => .of_runs (t.encrypt_runs h w file p f)

theorem decrypt_sends (ciphertext : Bytes) (f : SecretFormat) :
    (t.decrypt ciphertext f).Sends [] := fun h w => .of_runs (t.decrypt_runs h w ciphertext f)

end Sops.Tool

namespace Rotation

variable {c : Client} {tool : Sops.Tool} {project : String} {environment : Environment}
  {parent : Option Path} {h : Host} {w w' : World}

theorem calls_askedFor :
    Calls [c.line (.pullSecrets project)] w (askedFor c project environment w) :=
  .sent w _

theorem Opened.calls (s : Opened c project environment parent h w) :
    Calls [c.line (.pullSecrets project)] w s.opened :=
  calls_askedFor.still (Scratch.events_of_create s.creates)

theorem calls_decrypt {lines : List (String × String)} {v : World} {ciphertext : Bytes}
    {format : SecretFormat} {r : Except Failure Bytes} (hv : Calls lines w v)
    (hd : tool.decrypt ciphertext format h v = (r, w')) : Calls lines w w' := by
  have hs := tool.decrypt_sends ciphertext format h v
  rw [hd] at hs
  exact hv.rest hs

theorem Decrypted.calls_listed (s : Decrypted c tool project environment parent h w) :
    Calls [c.line (.pullSecrets project), c.line (.projectMembers project)] w s.listed := by
  have hd := calls_decrypt s.toOpened.calls s.decrypts
  exact (hd.still (Scratch.events_of_write s.writes)).trans (.sent s.written _)

theorem Planned.calls_encrypt (s : Planned c tool project environment parent h w)
    {r : Except Failure (Bytes × Json.Fields)}
    (he : tool.encrypt s.file s.policy s.format h s.listed = (r, w')) :
    Calls [c.line (.pullSecrets project), c.line (.projectMembers project)] w w' := by
  have hs := tool.encrypt_sends s.file s.policy s.format h s.listed
  rw [he] at hs
  exact s.toDecrypted.calls_listed.rest hs

theorem Halts.calls {s : Opened c project environment parent h w} {step : RotationStep}
    {own : Failure} {keys : List String}
    (hh : Halts c tool project environment parent h w s step own keys w') :
    Calls [c.line (.pullSecrets project), c.line (.projectMembers project)] w w' := by
  have hopened : Calls [c.line (.pullSecrets project), c.line (.projectMembers project)] w
      s.opened := s.calls.mono (by simp)
  cases hh with
  | format => exact hopened
  | decrypt _ fails => exact calls_decrypt hopened fails
  | write _ decrypts fails =>
    exact (calls_decrypt hopened decrypts).still (Scratch.events_of_write fails)
  | refresh d => exact d.calls_listed
  | build d => exact d.toDecrypted.calls_listed
  | encrypt d _ fails => exact d.calls_encrypt fails

theorem Sealed.calls_push (s : Sealed c tool project environment parent h w)
    {r : Except Failure SecretVersion}
    (hp : VersionStore.push c project environment s.ciphertext s.format s.metadata h s.left =
      (r, w')) :
    Calls (c.changeLines project) w w' := by
  have hleft : Calls _ w s.left :=
    (s.toPlanned.calls_encrypt s.encrypts).still (Scratch.left_events s.scratch)
  have hs := VersionStore.push_sends c project environment s.ciphertext s.format s.metadata h s.left
  rw [hp] at hs
  exact hleft.trans hs

theorem Stops.calls {step : RotationStep} {own : Failure} {previous : Option SecretVersion}
    {keys : List String}
    (hs : Stops c tool project environment parent h w step own previous keys w') :
    Calls (c.changeLines project) w w' := by
  have hasked : Calls (c.changeLines project) w (askedFor c project environment w) :=
    calls_askedFor.mono (by simp [Client.changeLines])
  cases hs with
  | fetch => exact hasked
  | scratch _ fails => exact hasked.still (Scratch.events_of_create fails)
  | inside s halts =>
    exact (halts.calls.still (Scratch.left_events s.scratch)).mono (by simp [Client.changeLines])
  | push s fails => exact s.calls_push fails

theorem Course.calls {r : Rotation} (hc : Course c tool project environment parent h w r w') :
    Calls (c.changeLines project) w w' := by
  cases hc with
  | nothing => exact calls_askedFor.mono (by simp [Client.changeLines])
  | stopped stops => exact stops.calls.still rfl
  | completed d => exact d.toSealed.calls_push d.pushes

end Rotation

namespace Secrets

variable (s : Secrets)

theorem pushFile_sends (file : Path) (e : Environment) (f : SecretFormat) :
    (s.pushFile file e f).Sends
      [s.client.line (.projectMembers s.project), s.client.line (.pushSecrets s.project)] := by
  refine .after (.of_silent (Files.isFile_leaves file)) fun there => ?_
  split
  · refine .after (.of_silent s.tool.checkInstalled_isIdle.silent) fun _ => ?_
    refine .bind (.last (.call _ _ _ _) fun _ => .ofResult _) fun recipients => ?_
    refine .after (.of_silent (.ofResult _)) fun policy => ?_
    exact .after (s.tool.encrypt_sends _ _ _) fun x => VersionStore.push_sends _ _ _ _ _ _
  · exact .of_silent (.ofResult _)

theorem pullTo_sends (e : Environment) (output : Path) :
    (s.pullTo e output).Sends [s.client.line (.pullSecrets s.project)] := by
  have hformat : ∀ v, (Rotation.formatOf v).IsSilent := fun v => by
    unfold Rotation.formatOf
    split
    · exact .pure _
    · exact .ofResult _
  have hrest : ∀ version, (s.unpack version output >>= fun _ =>
      pure (⟨version, output⟩ : Pulled)).Sends [] := fun version => by
    refine .last ?_ fun _ => .pure _
    refine .after (.of_silent (hformat version)) fun format => ?_
    refine .last (s.tool.decrypt_sends _ _) fun plaintext => ?_
    exact .bind (Files.makeDirectories_isSilent _) fun _ => Files.change_isSilent _
  have hpulled := Action.Sends.bind (VersionStore.pull_sends s.client s.project e) hrest
  exact .after (.of_silent s.tool.checkInstalled_isIdle.silent) fun _ => hpulled

theorem sync_sends (environment : Json) (file : Option String) :
    (s.sync environment file).Sends (s.client.changeLines s.project) := by
  refine .after (.of_silent (.ofResult _)) fun e => ?_
  refine .bind (.recover (.last (s.pullTo_sends e _) fun _ => .pure _) fun x => ?_) fun pulled => ?_
  · split
    · exact .pure none
    · exact .ofResult _
  · refine .after (.of_silent (Files.isFile_leaves _)) fun there => ?_
    split
    · exact .last (s.pushFile_sends _ _ _) fun _ => .pure _
    · exact .of_silent (.ofResult _)

theorem rotate_sends (environment : Json) :
    (s.rotate environment).Sends (s.client.changeLines s.project) := by
  intro h w
  obtain ⟨x, hx⟩ | ⟨e, r, w', -, hc, hr⟩ := s.rotate_cases h w environment
  · rw [hx]
    exact .of_events rfl
  · rw [hr]
    exact hc.calls

end Secrets

inductive Operation
  | change (u : Change)
  | pull (environment : Json) (output : Option String)
  | versions (environment : Json)
  | rollback (id : String)

namespace Operation

def perform (s : Secrets) : Operation → Action Unit
  | change u => u.perform s
  | pull environment output => do let _ ← s.pull environment output
  | versions environment => do let _ ← s.versions environment
  | rollback id => do let _ ← s.rollback id

def lines (s : Secrets) : Operation → List (String × String)
  | change _ => s.client.changeLines s.project
  | pull .. => [s.client.line (.pullSecrets s.project)]
  | versions _ => [s.client.line (.listVersions s.project)]
  | rollback _ => [s.client.line (.rollback s.project)]

theorem nodup_lines (s : Secrets) (o : Operation) : (o.lines s).Nodup := by
  cases o with
  | change _ => exact s.client.nodup_changeLines s.project
  | _ => exact List.pairwise_singleton _ _

theorem perform_sends (s : Secrets) (o : Operation) : (o.perform s).Sends (o.lines s) := by
  cases o with
  | change u =>
    cases u with
    | push file environment format =>
      have hpush : (s.push file environment format).Sends
          [s.client.line (.projectMembers s.project), s.client.line (.pushSecrets s.project)] :=
        .after (.of_silent (.ofResult _)) fun e => .after (.of_silent (.ofResult _)) fun f =>
          s.pushFile_sends file e f
      have hmore : (s.push file environment format).Sends (s.client.changeLines s.project) :=
        fun h w => (hpush h w).mono (List.sublist_cons_self _ _)
      exact .last hmore fun _ => .pure ()
    | sync environment file => exact .last (s.sync_sends environment file) fun _ => .pure ()
    | rotate environment => exact .last (s.rotate_sends environment) fun _ => .pure ()
  | pull environment output =>
    exact .last (.after (.of_silent (.ofResult _)) fun e => s.pullTo_sends e _) fun _ => .pure ()
  | versions environment =>
    refine .last (.after (.of_silent (.ofResult _)) fun e => ?_) fun _ => .pure ()
    exact .last (.call _ _ _ _) fun _ => .bind (.ofResult _) fun _ => .pure _
  | rollback id =>
    refine .last ?_ fun _ => .pure ()
    unfold Secrets.rollback
    split
    · exact .of_silent (.ofResult _)
    · exact .last (.call _ _ _ _) fun _ => .ofResult _

end Operation

/-- A call sends one request and gives what its reply yields: a value, or a fault of a kind that
goes by the status alone where there is a refusal. No operation on secrets makes a call twice. -/
theorem calls_are_classified :
    (∀ (c : Client) (method path : String) (body params : Option Json) (h : Host) (w : World),
      let question := c.message method path body params
      let reply := h.respond w.events question
      let ended := c.request method path body params h w
      ended.2 = w.sent question ∧ reply.Yields ended.1 ∧
        ((∃ v, ended.1 = .ok v) ∨ ∃ f, ended.1 = .error (.fault f) ∧ f.kind.IsOfCall)) ∧
    ∀ (s : Secrets) (o : Operation) (h : Host) (w : World),
      ∃ trace, (o.perform s h w).2.events = w.events ++ trace ∧
        (trace.filterMap Event.line?).Nodup := by
  constructor
  · intro c method path body params h w question reply ended
    have hyields : reply.Yields ended.1 := c.reading_yields method path reply
    exact ⟨rfl, hyields, hyields.ends⟩
  · intro s o h w
    obtain ⟨trace, ht, hl⟩ := o.perform_sends s h w
    exact ⟨trace, ht, (o.nodup_lines s).sublist hl⟩

end TeamVault
