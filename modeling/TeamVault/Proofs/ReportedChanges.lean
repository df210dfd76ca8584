import TeamVault.Proofs.Commit
import TeamVault.Proofs.Reports
import TeamVault.Proofs.ServiceAnswers

/-!
A change that is made is reported as made, unless a text in the report closes a tag that is not
open. A command sends the request that changes something as the last thing it does before it
reports; if the answer is understood the work returns, and then only the report can still fail. No
fault fails to be reported, since its text is escaped.
-/
namespace TeamVault

open TeamVault.Action (IsIdle still)
open Console (Line plainText?)
open Console.Markup (Untagged)

def Reply.Brings (P : Json → Prop) : Reply → Prop
  | failed _ => False
  | answered status _ body => status < 400 ∧ ∃ j, Reply.carried? status body = some j ∧ P j

/-- Either nothing is changed at the service, or the last event is a request for a change; if the
answer brings what it should, a value results. -/
def WritesLast {α : Type} (P : Json → Prop) (h : Host) (w : World)
    (r : Except Failure α × World) : Prop :=
  Quiet w r.2 ∨ ∃ (t : World) (q : Request.Sent), Quiet w t ∧
    r.2.events = t.events ++ [.request q] ∧
    ((h.respond t.events q.toRequest).Brings P → ∃ x, r.1 = .ok x)

namespace WritesLast

variable {α β : Type} {P : Json → Prop} {h : Host} {v w : World} {r : Except Failure α × World}

theorem behind (hq : Quiet w v) (hr : WritesLast P h v r) : WritesLast P h w r := by
  obtain hr | ⟨t, q, ht, he, hok⟩ := hr
  · exact .inl (hq.trans hr)
  · exact .inr ⟨t, q, hq.trans ht, he, hok⟩

theorem congr {s : Except Failure β × World} (hr : WritesLast P h w r)
    (he : s.2.events = r.2.events) (hok : ∀ x, r.1 = .ok x → ∃ y, s.1 = .ok y) :
    WritesLast P h w s := by
  obtain hr | ⟨t, q, ht, hlast, hr⟩ := hr
  · exact .inl (hr.trans (.of_events he))
  · refine .inr ⟨t, q, ht, he.trans hlast, fun hb => ?_⟩
    obtain ⟨x, hx⟩ := hr hb
    exact hok x hx

theorem returns {before after : List Event} {q : Request.Sent} (hr : WritesLast P h w r)
    (he : r.2.events = w.events ++ before ++ .request q :: after) (hq : q.method ≠ "GET")
    (hb : (h.respond (w.events ++ before) q.toRequest).Brings P) : ∃ x, r.1 = .ok x := by
  rw [List.append_assoc] at he
  obtain ⟨trace, ht, hread⟩ | ⟨t, q', ⟨trace, ht, hread⟩, hlast, hok⟩ := hr
  · obtain rfl := List.append_cancel_left (ht.symm.trans he)
    exact absurd (hread (.request q) (by simp)) hq
  · rw [hlast, ht, List.append_assoc] at he
    have hsame := List.append_cancel_left he
    rcases List.eq_nil_or_concat after with rfl | ⟨rest, e, rfl⟩
    · obtain ⟨rfl, hlast⟩ := List.append_inj' hsame rfl
      obtain rfl : q' = q := by simpa using hlast
      exact hok (ht ▸ hb)
    · have hs : trace ++ [.request q'] = (before ++ .request q :: rest) ++ [e] := by
        simpa using hsame
      obtain rfl := (List.append_inj' hs rfl).1
      exact absurd (hread (.request q) (by simp)) hq

end WritesLast

def Action.EndsInWrite {α : Type} (P : Json → Prop) (a : Action α) : Prop :=
  ∀ h w, WritesLast P h w (a h w)

namespace Action.EndsInWrite

variable {α β : Type} {P : Json → Prop}

theorem behind_idle {a : Action α} {k : α → Action β} (ha : a.IsIdle)
    (hk : ∀ x, (k x).EndsInWrite P) : (a >>= k).EndsInWrite P := by
  intro h w
  have hidle := events_of_still (ha h w)
  rcases hr : a h w with ⟨f | x, u⟩
  · rw [hr] at hidle
    rw [bind_of_error hr]
    exact .inl (.of_events hidle)
  · rw [hr] at hidle
    rw [bind_of_ok hr]
    exact (hk x h u).behind (.of_events hidle)

theorem map {a : Action α} (ha : a.EndsInWrite P) (f : α → β) :
    (a >>= fun x => pure (f x)).EndsInWrite P := by
  intro h w
  refine (ha h w).congr ?_ ?_
  · rw [bind_apply]
    rcases a h w with ⟨_ | _, _⟩ <;> rfl
  · intro x hx
    exact ⟨f x, by rw [bind_of_ok (Prod.ext hx rfl)]; rfl⟩

end Action.EndsInWrite

/-! ### Calls that change something -/

namespace Client

variable {α : Type} {P : Json → Prop} (c : Client)

theorem reading_of_brings {reply : Reply} (hr : reply.Brings P) (method path : String) :
    ∃ j, P j ∧ c.reading method path reply = .ok j := by
  cases reply with
  | failed text => exact absurd hr id
  | answered status reason body =>
    obtain ⟨hs, j, hj, hp⟩ := hr
    refine ⟨j, hp, ?_⟩
    unfold reading decode
    unfold Reply.carried? at hj
    dsimp only
    rw [if_neg (Int.not_le.2 hs)]
    split at hj
    next he =>
      cases hj
      exact if_pos he
    next he => rw [if_neg he, hj]

theorem answer_of_brings {reply : Reply} {p : Json → Payload α} (hr : reply.Brings P)
    (hp : ∀ j, P j → ∃ a, p j = .ok a) (e : Endpoint) (what : String) :
    ∃ a, c.answer e what p reply = .ok a := by
  obtain ⟨j, hj, hread⟩ := c.reading_of_brings hr e.method e.path
  obtain ⟨a, ha⟩ := hp j hj
  exact ⟨a, answer_eq_ok.2 ⟨j, hread, ha⟩⟩

variable {e : Endpoint} {body params : Option Json} {what : String} {p : Json → Payload α}

theorem ask_endsInWrite (hp : ∀ j, P j → ∃ a, p j = .ok a) :
    (c.call e body params >>= fun v => understand what (p v)).EndsInWrite P := by
  intro h w
  rw [ask_apply]
  refine .inr ⟨w, ⟨c.asking e body params, w.files⟩, .of_events rfl, World.sent_events _ _, ?_⟩
  intro hb
  obtain ⟨a, ha⟩ := c.answer_of_brings hb hp e what
  exact ⟨a, by rw [ha]; rfl⟩

theorem call_endsInWrite :
    (c.call e body params >>= fun _ => (pure () : Action Unit)).EndsInWrite fun _ => True := by
  intro h w
  refine .inr ⟨w, ⟨c.asking e body params, w.files⟩, .of_events rfl, ?_, fun hb => ?_⟩
  · rw [Action.bind_of_pure (g := fun _ => .ok ()) fun _ _ => rfl, call_apply]
    exact World.sent_events _ _
  · obtain ⟨j, -, hread⟩ := c.reading_of_brings hb e.method e.path
    refine ⟨(), ?_⟩
    rw [Action.bind_of_pure (g := fun _ => .ok ()) fun _ _ => rfl, call_apply]
    dsimp only
    rw [hread]
    rfl

end Client

namespace VersionStore

variable {project project' : String} {e e' : Environment} {ciphertext ciphertext' : Bytes}
  {format format' : SecretFormat} {metadata metadata' : Json.Fields} {j : Json}

def IsReceived (j : Json) : Prop :=
  ∃ project e ciphertext format metadata version,
    pushed project e ciphertext format metadata j = .ok version

theorem pushed_of_received (hj : IsReceived j) (project : String) (e : Environment)
    (ciphertext : Bytes) (format : SecretFormat) (metadata : Json.Fields) :
    ∃ version, pushed project e ciphertext format metadata j = .ok version := by
  obtain ⟨project', e', ciphertext', format', metadata', version, hv⟩ := hj
  unfold pushed at hv ⊢
  cases hf : fieldsOrNone j with
  | error x =>
    rw [hf] at hv
    cases hv
  | ok fs =>
    rw [hf] at hv
    obtain ⟨id, number, hid, hnumber, htext, henv, hcheck, -, -, hsize, hauthor, htime, -, -⟩ :=
      version_eq_ok.1 hv
    -- what the answer leaves out is known and fits
    obtain ⟨environment, henv⟩ : ∃ x, Checked.member Environment.ofName?
        (fs.presentOr "environment" (.text e.name)) = .fits x := by
      obtain ha | ⟨d, hd, ha⟩ := presentOr_cases fs "environment" (.text e.name)
      · exact ⟨e, by rw [ha, Checked.member, Environment.ofName?_name]⟩
      · rw [Json.presentOr_of_present? hd] at henv
        exact ⟨_, ha ▸ henv⟩
    obtain ⟨size, hsize⟩ : ∃ n, Checked.integer
        (fs.presentOr "size_bytes" (.int ciphertext.length)) = .fits n := by
      obtain ha | ⟨d, hd, ha⟩ := presentOr_cases fs "size_bytes" (.int ciphertext.length)
      · exact ⟨_, congrArg Checked.integer ha⟩
      · rw [Json.presentOr_of_present? hd] at hsize
        exact ⟨_, ha ▸ hsize⟩
    exact ⟨⟨version.versionId, project, environment, version.version, some format, ciphertext,
      metadata, size, version.createdBy, version.createdAt⟩, version_eq_ok.2 ⟨id, number, hid,
        hnumber, htext, henv, hcheck, rfl, rfl, hsize, hauthor, htime, rfl, rfl⟩⟩

def IsRestored (j : Json) : Prop := ∃ project version, rolledBack project j = .ok version

theorem rolledBack_of_restored (hj : IsRestored j) (project : String) :
    ∃ version, rolledBack project j = .ok version := by
  obtain ⟨project', version, hv⟩ := hj
  unfold rolledBack at hv ⊢
  cases hf : fieldsOrNone j with
  | error x =>
    rw [hf] at hv
    cases hv
  | ok fs =>
    rw [hf] at hv
    cases hid : fs.get? "version_id" with
    | none => simp [bind, Except.bind, Payload.get, hid] at hv
    | some given =>
      cases henv : fs.get? "environment" with
      | none => simp [bind, Except.bind, Payload.get, hid, henv] at hv
      | some environment =>
        simp only [bind, Except.bind, Payload.get, hid, henv] at hv ⊢
        obtain ⟨id, number, hid, hnumber, htext, henv, hcheck, hformat, hmeta, hsize, hauthor,
          htime, -, -⟩ := version_eq_ok.1 hv
        exact ⟨⟨version.versionId, project, version.environment, version.version, version.format,
          [], version.metadata, version.sizeBytes, version.createdBy, version.createdAt⟩,
          version_eq_ok.2 ⟨id, number, hid, hnumber, htext, henv, hcheck, hformat, hmeta, hsize,
            hauthor, htime, rfl, rfl⟩⟩

theorem push_endsInWrite (c : Client) :
    (push c project e ciphertext format metadata).EndsInWrite IsReceived := by
  unfold push
  cases ht : Text.Utf8.decode? ciphertext with
  | none => exact fun h w => .inl (.of_events rfl)
  | some text => exact c.ask_endsInWrite fun j hj => pushed_of_received hj _ _ _ _ _

end VersionStore

namespace Secrets

open VersionStore (IsReceived)

variable (s : Secrets) (h : Host) (w : World)

theorem pushFile_writesLast (file : Path) (e : Environment) (f : SecretFormat) :
    WritesLast IsReceived h w (s.pushFile file e f h w) := by
  obtain ⟨x, -, hq⟩ | ⟨z, -, hz⟩ := s.pushFile_cases h w file e f
  · exact .inl hq
  · rw [hz]
    exact (VersionStore.push_endsInWrite s.client h z.sealed).behind z.quiet

theorem push_endsInWrite (file : Path) (given format : Json) :
    (s.push file given format).EndsInWrite IsReceived := by
  intro h w
  obtain ⟨x, hx⟩ | ⟨e, f, -, -, hp⟩ := s.push_cases h w file given format
  · rw [hx]
    exact .inl (.of_events rfl)
  · rw [hp]
    exact s.pushFile_writesLast h w file e f

theorem sync_endsInWrite (given : Json) (file : Option String) :
    (s.sync given file).EndsInWrite IsReceived := by
  intro h w
  obtain ⟨x, -, hq⟩ | ⟨e, pulled, f, v, -, -, hq, hs⟩ := s.sync_cases h w given file
  · exact .inl hq
  · rw [hs]
    refine ((s.pushFile_writesLast h v _ e f).behind hq).congr rfl fun x hx => ⟨⟨pulled, x⟩, ?_⟩
    show Except.map _ _ = _
    rw [hx]
    rfl

theorem rotate_endsInWrite (given : Json) : (s.rotate given).EndsInWrite IsReceived := by
  intro h w
  obtain ⟨x, hx⟩ | ⟨e, r, w', -, hc, hw⟩ := s.rotate_cases h w given
  · rw [hx]
    exact .inl (.of_events rfl)
  rw [hw]
  have hpermits := Rotation.permits_quiet s.client s.tool s.project h w.events
  obtain ⟨hg, -⟩ | ⟨d, x, v, hp, he, hr⟩ := hc.goes hpermits
  · exact .inl (Rotation.quiet_of_goes hg)
  have hpush : WritesLast IsReceived h d.left (VersionStore.push s.client s.project e d.ciphertext
      d.format d.metadata h d.left) := VersionStore.push_endsInWrite s.client h d.left
  rw [hp] at hpush
  refine (hpush.behind (Rotation.quiet_of_goes (d.goes hpermits))).congr he fun y hy => ?_
  change x = .ok y at hy
  rw [hy] at hr
  rw [hc.failure_of_isRotated hr]
  exact ⟨r, rfl⟩

theorem rollback_endsInWrite (id : String) :
    (s.rollback id).EndsInWrite VersionStore.IsRestored := by
  unfold rollback
  split
  · exact fun h w => .inl (.of_events rfl)
  · exact s.client.ask_endsInWrite fun j hj => VersionStore.rolledBack_of_restored hj _

end Secrets

/-! ### Commands that change something -/

namespace Command

variable {v : Values} {h : Host} {w u : World} {c : Command}

namespace Deed

def Understands : Deed → Json → Prop
  | push | sync | rotate => VersionStore.IsReceived
  | rollback => VersionStore.IsRestored
  | createProject => fun j => ∃ p, Payload.record TeamVault.Project.ofFields j = .ok p
  | createOrganization => fun j => ∃ o, Payload.record Organization.ofFields j = .ok o
  | grant | revoke | invite | init => fun _ => True

/-- A change has been made: the service has answered a request for it with a success that can be
understood, or the binding of a directory has been written. -/
inductive IsMade (v : Values) (h : Host) (w u : World) : Deed → Prop
  | bound {b : ProjectBinding} (saves : (BindingFile.Attempt.init v).Saves h w b) :
    IsMade v h w u init
  | accepted {d : Deed} {before after : List Event} {q : Request.Sent} (sends : d ≠ init)
    (events : u.events = w.events ++ before ++ .request q :: after) (changes : q.method ≠ "GET")
    (brings : (h.respond (w.events ++ before) q.toRequest).Brings d.Understands) :
    IsMade v h w u d

theorem work_endsInWrite {d : Deed} (hd : d ≠ init) (v : Values) :
    (d.work v).EndsInWrite d.Understands := by
  cases d with
  | push =>
    refine .behind_idle (secrets_finds v).idle fun s => ?_
    refine .behind_idle (Console.printOpen_isIdle _) fun _ => ?_
    exact (s.push_endsInWrite _ _ _).map Report.ofPush
  | sync =>
    refine .behind_idle (secrets_finds v).idle fun s => ?_
    exact (s.sync_endsInWrite _ _).map Report.ofSync
  | rollback =>
    refine .behind_idle (secrets_finds v).idle fun s => ?_
    exact (s.rollback_endsInWrite _).map (Report.ofRollback _)
  | rotate =>
    refine .behind_idle (secrets_finds v).idle fun s => ?_
    refine .behind_idle (Console.printOpen_isIdle _) fun _ => ?_
    exact (s.rotate_endsInWrite _).map Report.ofRotation
  | createProject =>
    refine .behind_idle (client_finds v).idle fun c => ?_
    exact (c.ask_endsInWrite fun j hj => hj).map Report.ofProject
  | grant =>
    refine .behind_idle (BindingFile.load_isIdle none) fun b => ?_
    refine .behind_idle (client_finds v).idle fun c => ?_
    exact c.call_endsInWrite.map fun _ => Report.ofGrant _ _
  | revoke =>
    refine .behind_idle (BindingFile.load_isIdle none) fun b => ?_
    refine .behind_idle (client_finds v).idle fun c => ?_
    exact c.call_endsInWrite.map fun _ => Report.ofRevocation _
  | init => exact absurd rfl hd
  | createOrganization =>
    refine .behind_idle (client_finds v).idle fun c => ?_
    exact (c.ask_endsInWrite fun j hj => hj).map Report.ofOrganization
  | invite =>
    refine .behind_idle (client_finds v).idle fun c => ?_
    exact c.call_endsInWrite.map fun _ => Report.ofInvitation _ _

theorem work_of_made {d : Deed} (hm : d.IsMade v h w (d.work v h w).2) :
    ∃ r u, d.work v h w = (.ok r, u) := by
  cases hm with
  | bound saves =>
    cases saves with
    | init _ b t prepared returned =>
      obtain ⟨p, hp⟩ := Action.exists_of_isOk returned
      exact ⟨_, _, (Action.bind_of_ok prepared).trans (Action.bind_of_ok hp)⟩
  | accepted sends events changes brings =>
    obtain ⟨r, hr⟩ := (work_endsInWrite sends v h w).returns events changes brings
    exact ⟨r, _, Prod.ext hr rfl⟩

end Deed

/-! ### How a command ends -/

theorem runSettled_of_ok (hr : c.run v h w = (.ok (), u)) :
    ∃ e u', runSettled c v h w = (.ok e, u') ∧ e.code = 0 ∧ still u' = still u := by
  unfold runSettled
  rw [Action.recover_apply, Action.bind_of_ok hr]
  exact ⟨_, _, rfl, rfl, rfl⟩

theorem runSettled_of_crash {x : Crash} (hr : c.run v h w = (.error (.crash x), u)) :
    runSettled c v h w = (.error (.crash x), u) := by
  unfold runSettled
  rw [Action.recover_apply, Action.bind_of_error hr]
  rfl

theorem report_returns (f : Fault) :
    ∃ u, report f h w = (.ok (), u) ∧ still u = still w := by
  have hmessage : (plainText? ("\n[bold red]Error:[/] " ++ Console.escape f.message)).isSome :=
    Console.Markup.shown_escaped (o := []) (by decide +kernel) f.message
  have hhint : (plainText? ("  [dim]" ++ Console.escape f.hint ++ "[/]")).isSome :=
    Console.Markup.shown_escaped_closing (o := []) (x := "dim") (by decide +kernel)
      f.hint
  have hempty : (plainText? "").isSome := by decide +kernel
  obtain ⟨u, hu, hstill⟩ := Console.print_of_shown (h := h) (w := w) hmessage
  unfold report
  rw [Action.bind_of_ok hu]
  split
  · obtain ⟨t, ht, hsame⟩ := Console.print_of_shown (h := h) (w := u) hhint
    obtain ⟨s, hs, hend⟩ := Console.print_of_shown (h := h) (w := t) hempty
    exact ⟨s, (Action.bind_of_ok ht).trans hs, hend.trans (hsame.trans hstill)⟩
  · obtain ⟨s, hs, hend⟩ := Console.print_of_shown (h := h) (w := u) hempty
    exact ⟨s, hs, hend.trans hstill⟩

theorem runSettled_of_fault {f : Fault} (hr : c.run v h w = (.error (.fault f), u)) :
    ∃ e u', runSettled c v h w = (.ok e, u') ∧ e.code = 1 ∧ still u' = still u := by
  obtain ⟨t, ht, hstill⟩ := report_returns (h := h) (w := u) f
  unfold runSettled
  rw [Action.recover_apply, Action.bind_of_error hr]
  exact ⟨_, _, Action.bind_of_ok ht, rfl, hstill⟩

namespace Deed

variable {d : Deed}

theorem IsMade.congr {u' : World} (he : u'.events = u.events) (hm : d.IsMade v h w u) :
    d.IsMade v h w u' := by
  cases hm with
  | bound saves => exact .bound saves
  | accepted sends events changes brings => exact .accepted sends (he.trans events) changes brings

theorem runSettled_still_work (d : Deed) (v : Values) (h : Host) (w : World) :
    still (runSettled d.command v h w).2 = still (d.work v h w).2 := by
  rw [runSettled_still, run_eq, Action.bind_apply]
  rcases d.work v h w with ⟨f | r, u⟩
  · rfl
  · exact Console.tell_isIdle _ h u

theorem refused_of_opening {l : Line} (ho : d.opening v = some l) (hl : plainText? l.text = none) :
    IsRefused w (runSettled d.command v h w) := by
  obtain ⟨f, u, hwork, hstill⟩ : ∃ f u, d.work v h w = (.error f, u) ∧ still u = still w := by
    cases d with
    | push | rotate =>
      cases ho
      exact Console.printOpen_stops (secrets_finds v).idle hl _
    | _ => cases ho
  have hsame := runSettled_still_work d v h w
  rw [hwork] at hsame
  have hunchanged := hsame.trans hstill
  have hrun : d.command.run v h w = (.error f, u) := by
    rw [run_eq]
    exact Action.bind_of_error hwork
  exact ⟨fun e he => code_of_runSettled hrun he, Action.files_of_still hunchanged,
    Action.events_of_still hunchanged⟩

/-- A change that has been made is reported as made if no tag starts in the texts of the report: the
program ends with code 0. Where a line of the report cannot be shown it breaks down, and the change
stays made. A line that is said first is shown if no tag starts in its texts; otherwise it may stop
the command before it does anything. A fault is reported whatever its texts are. -/
theorem change_is_reported (d : Deed) (v : Values) (h : Host) (w : World) :
    (d.IsMade v h w (runSettled d.command v h w).2 →
      ∃ r u, d.work v h w = (.ok r, u) ∧
        ((∀ s ∈ r.texts, Untagged s.toList) →
          ∃ e u', runSettled d.command v h w = (.ok e, u') ∧ e.code = 0 ∧ still u' = still u) ∧
        ((∃ l ∈ r.lines, plainText? l.text = none) →
          ∃ u', runSettled d.command v h w = (.error (.crash .markup), u') ∧
            still u' = still u)) ∧
    (∀ l, d.opening v = some l →
      ((∀ f ∈ l.fills, Untagged f.1.toList) → (plainText? l.text).isSome) ∧
        (plainText? l.text = none → IsRefused w (runSettled d.command v h w))) ∧
    ∀ f u, d.command.run v h w = (.error (.fault f), u) →
      ∃ e u', runSettled d.command v h w = (.ok e, u') ∧ e.code = 1 ∧ still u' = still u := by
  refine ⟨fun hm => ?_, fun l hl => ⟨l.shown, refused_of_opening hl⟩, fun f u hf =>
    runSettled_of_fault hf⟩
  have hevents := Action.events_of_still (runSettled_still_work d v h w)
  obtain ⟨r, u, hw⟩ := work_of_made (hm.congr hevents.symm)
  have hrun : d.command.run v h w = r.tell h u := by
    rw [run_eq]
    exact Action.bind_of_ok hw
  refine ⟨r, u, hw, fun ht => ?_, fun hl => ?_⟩
  · obtain ⟨t, ht, hsame⟩ := Console.tell_of_shown (h := h) (w := u) (r.shown ht)
    obtain ⟨e, u', he, hcode, hstill⟩ := runSettled_of_ok (hrun.trans ht)
    exact ⟨e, u', he, hcode, hstill.trans hsame⟩
  · obtain ⟨l, hmem, hl⟩ := hl
    obtain ⟨t, ht, hsame⟩ := Console.tell_of_unshown (h := h) (w := u)
      ⟨l.text, List.mem_map_of_mem hmem, hl⟩
    exact ⟨t, runSettled_of_crash (hrun.trans ht), hsame⟩

/-! An organization is created under a name that the service tells. -/

def registry (name : String) : Host :=
  { Desk.host with
    respond := fun _ _ => .answered 200 ""
      (Text.Utf8.encode ("\x7b\"id\":\"i\",\"name\":\"" ++ name ++ "\"\x7d")) }

def isCreated (name : String) : Bool :=
  (match (runSettled Org.create Twins.values (registry name) (Twins.world "A=1")).2.events with
    | [.request q] => q.method = "POST"
    | _ => false) &&
    (Reply.carried? 200 (Text.Utf8.encode ("\x7b\"id\":\"i\",\"name\":\"" ++ name ++ "\"\x7d"))).any
      fun j => (Payload.record Organization.ofFields j).isOk

theorem isMade_of_isCreated {name : String} (hc : isCreated name = true) :
    createOrganization.IsMade Twins.values (registry name) (Twins.world "A=1")
      (runSettled Org.create Twins.values (registry name) (Twins.world "A=1")).2 := by
  obtain ⟨hlast, hread⟩ := Bool.and_eq_true_iff.1 hc
  obtain ⟨j, hj, hread⟩ := Console.Markup.exists_of_any hread
  split at hlast
  next q he =>
    have hpost := of_decide_eq_true hlast
    have hevents : (runSettled Org.create Twins.values (registry name)
        (Twins.world "A=1")).2.events = (Twins.world "A=1").events ++ [] ++ .request q :: [] := he
    refine .accepted nofun hevents (by rw [hpost]; decide) ⟨by decide, j, hj, ?_⟩
    cases ho : Payload.record Organization.ofFields j with
    | ok o => exact ⟨o, ho⟩
    | error x =>
      rw [ho] at hread
      cases hread
  · cases hlast

theorem texts_of_plain {r : Report}
    (hr : (createOrganization.work Twins.values (registry "n") (Twins.world "A=1")).1 = .ok r) :
    ∀ s ∈ r.texts, Untagged s.toList := by
  have hall : (match (createOrganization.work Twins.values (registry "n")
      (Twins.world "A=1")).1 with
      | .ok r => r.texts.all fun s => decide (Untagged s.toList)
      | .error _ => false) = true := by decide +kernel
  rw [hr] at hall
  exact fun s hs => of_decide_eq_true (List.all_eq_true.1 hall s hs)

theorem lines_of_closing {r : Report}
    (hr : (createOrganization.work Twins.values (registry "[/x]") (Twins.world "A=1")).1 = .ok r) :
    ∃ l ∈ r.lines, plainText? l.text = none := by
  have hany : (match (createOrganization.work Twins.values (registry "[/x]")
      (Twins.world "A=1")).1 with
      | .ok r => r.lines.any fun l => (plainText? l.text).isNone
      | .error _ => false) = true := by decide +kernel
  rw [hr] at hany
  obtain ⟨l, hl, hnone⟩ := List.any_eq_true.1 hany
  exact ⟨l, hl, Option.isNone_iff_eq_none.1 hnone⟩

theorem plain_name_is_reported :
    (∃ e u, runSettled Org.create Twins.values (registry "n") (Twins.world "A=1") = (.ok e, u) ∧
        e.code = 0) ∧
      ∃ u, runSettled Org.create Twins.values (registry "[/x]") (Twins.world "A=1") =
        (.error (.crash .markup), u) := by
  constructor
  · obtain ⟨r, u, hw, hok, -⟩ := (change_is_reported createOrganization Twins.values
      (registry "n") (Twins.world "A=1")).1 (isMade_of_isCreated (by decide +kernel))
    obtain ⟨e, u', he, hcode, -⟩ := hok (texts_of_plain (congrArg Prod.fst hw))
    exact ⟨e, u', he, hcode⟩
  · obtain ⟨r, u, hw, -, hbreaks⟩ := (change_is_reported createOrganization Twins.values
      (registry "[/x]") (Twins.world "A=1")).1 (isMade_of_isCreated (by decide +kernel))
    obtain ⟨u', hu, -⟩ := hbreaks (lines_of_closing (congrArg Prod.fst hw))
    exact ⟨u', hu⟩

def isBrokenMarkup {α : Type} : Except Failure α → Bool
  | .error (.crash .markup) => true
  | _ => false

/-- The name breaks the program down after the organization was created. -/
theorem closing_name_breaks_down :
    createOrganization.IsMade Twins.values (registry "[/x]") (Twins.world "A=1")
        (runSettled Org.create Twins.values (registry "[/x]") (Twins.world "A=1")).2 ∧
      isBrokenMarkup (runSettled Org.create Twins.values (registry "[/x]")
        (Twins.world "A=1")).1 = true :=
  ⟨isMade_of_isCreated (by decide +kernel), by decide +kernel⟩

end Deed

end Command

end TeamVault
