import TeamVault.Command.Line
import TeamVault.Proofs.SecretsCourse

/-!
What actions send. A step that leaves the record of events alone sends nothing, whatever it prints,
reads or writes; all requests of an operation on secrets come from the one client that it has.
-/
namespace TeamVault

namespace Action

variable {α β γ : Type}

def Leaves (f : World → β) (a : Action α) : Prop := ∀ h w, f (a h w).2 = f w

abbrev IsSilent (a : Action α) : Prop := a.Leaves World.events

def still (w : World) : Tree × List Event := (w.files, w.events)

abbrev IsIdle (a : Action α) : Prop := a.Leaves still

def Emits (P : Event → Prop) (a : Action α) : Prop := ∀ h w, Emitted P w (a h w).2

namespace Leaves

variable {f : World → β} {a : Action α} {k : α → Action γ}

theorem ofResult (r : Except Failure α) : (Action.ofResult r).Leaves f := fun _ _ => rfl

theorem pure (x : α) : (Pure.pure x : Action α).Leaves f := ofResult (.ok x)

theorem host : Action.host.Leaves f := fun _ _ => rfl

theorem world : Action.world.Leaves f := fun _ _ => rfl

theorem bind (ha : a.Leaves f) (hk : ∀ x, (k x).Leaves f) : (a >>= k).Leaves f := by
  intro h w
  have hv := ha h w
  rw [bind_apply]
  rcases hr : a h w with ⟨x | x, v⟩
  · rw [hr] at hv
    exact hv
  · rw [hr] at hv
    exact (hk x h v).trans hv

theorem recover {k : Failure → Action α} (ha : a.Leaves f) (hk : ∀ x, (k x).Leaves f) :
    (a.recover k).Leaves f := by
  intro h w
  have hv := ha h w
  rw [recover_apply]
  rcases hr : a h w with ⟨x | x, v⟩
  · rw [hr] at hv
    exact (hk x h v).trans hv
  · rw [hr] at hv
    exact hv

theorem mapM {k : α → Action γ} (hk : ∀ x, (k x).Leaves f) (xs : List α) :
    (xs.mapM k).Leaves f := by
  induction xs with
  | nil =>
    rw [List.mapM_nil]
    exact pure []
  | cons x xs ih =>
    rw [List.mapM_cons]
    exact bind (hk x) fun _ => bind ih fun _ => pure _

theorem silent (ha : a.IsIdle) : a.IsSilent := fun h w => congrArg Prod.snd (ha h w)

theorem expandHome (p : Path) : (Action.expandHome p).Leaves f := by
  refine bind host fun h => ?_
  split
  · exact pure _
  · exact ofResult _

end Leaves

section

variable {P : Event → Prop} {a : Action α} {k : α → Action β} {h : Host} {w : World}

theorem emitted_bind (ha : Emitted P w (a h w).2)
    (hk : ∀ x u, a h w = (.ok x, u) → Emitted P u (k x h u).2) :
    Emitted P w ((a >>= k) h w).2 := by
  rw [bind_apply]
  rcases hr : a h w with ⟨x | x, u⟩
  · rw [hr] at ha
    exact ha
  · rw [hr] at ha
    exact ha.trans (hk x u hr)

theorem emitted_silent_bind (ha : a.IsSilent)
    (hk : ∀ x u, u.events = w.events → Emitted P u (k x h u).2) :
    Emitted P w ((a >>= k) h w).2 := by
  refine emitted_bind (.of_events (ha h w)) fun x u hr => hk x u ?_
  have hevents := ha h w
  rwa [hr] at hevents

end

namespace Emits

variable {P : Event → Prop} {a : Action α} {k : α → Action β}

theorem of_silent (ha : a.IsSilent) : a.Emits P := fun h w => .of_events (ha h w)

theorem idle (ha : a.IsIdle) : a.Emits P := of_silent ha.silent

theorem pure (x : α) : (Pure.pure x : Action α).Emits P := of_silent (.pure x)

theorem ofResult (r : Except Failure α) : (Action.ofResult r).Emits P := of_silent (.ofResult r)

theorem bind (ha : a.Emits P) (hk : ∀ x, (k x).Emits P) : (a >>= k).Emits P :=
  fun h w => emitted_bind (ha h w) fun x u _ => hk x h u

theorem recover {k : Failure → Action α} (ha : a.Emits P) (hk : ∀ x, (k x).Emits P) :
    (a.recover k).Emits P := by
  intro h w
  have hv := ha h w
  rw [recover_apply]
  rcases hr : a h w with ⟨x | x, v⟩
  · rw [hr] at hv
    exact hv.trans (hk x h v)
  · rw [hr] at hv
    exact hv

end Emits

end Action

open TeamVault.Action (Leaves IsSilent IsIdle Emits)

/-! ### Files and the terminal -/

namespace Files

variable {α β : Type} {f : World → β}

theorem lift_leaves (g : Host → Tree → Except FileError α) : (lift g).Leaves f := by
  intro h w
  unfold lift
  cases g h w.files <;> rfl

theorem change_isSilent (g : Host → Tree → Except FileError Tree) : (change g).IsSilent := by
  intro h w
  unfold change
  cases g h w.files <;> rfl

theorem isThere_leaves (p : Path) : (isThere p).Leaves f :=
  .bind (lift_leaves _) fun _ => .pure _

theorem isFile_leaves (p : Path) : (isFile p).Leaves f := by
  refine .bind (lift_leaves _) fun n => ?_
  split
  · exact .pure true
  · exact .pure false

theorem readText_leaves (p : Path) : (readText p).Leaves f := by
  refine .bind (lift_leaves _) fun bytes => ?_
  split
  · exact .pure _
  · exact .ofResult _

theorem makeDirectories_isSilent (p : Path) : (makeDirectories p).IsSilent := fun _ _ => rfl

end Files

namespace Console

theorem put_isIdle (s : String) : (put s).IsIdle := fun _ _ => rfl

theorem rendered_leaves {β : Type} {f : World → β} (s : String) : (rendered s).Leaves f := by
  unfold rendered
  split
  · exact .pure _
  · exact .ofResult _

theorem print_isIdle (s : String) : (print s).IsIdle :=
  .bind (rendered_leaves s) fun _ => put_isIdle _

theorem print_then {α : Type} {s : String} {k : Unit → Action α} (hk : (k ()).IsIdle) :
    (print s >>= k).IsIdle :=
  .bind (print_isIdle s) fun _ => hk

theorem printOpen_isIdle (s : String) : (printOpen s).IsIdle :=
  .bind (rendered_leaves s) fun _ => put_isIdle _

theorem printTable_isIdle (title : String) (header : List String) (rows : List (List String)) :
    (printTable title header rows).IsIdle := by
  refine .bind (rendered_leaves title) fun title => ?_
  exact .bind (.mapM (fun row => .mapM rendered_leaves row) rows) fun _ => put_isIdle _

theorem printPanel_isIdle (title body : String) : (printPanel title body).IsIdle :=
  .bind (rendered_leaves body) fun _ => put_isIdle _

theorem askOnce_isIdle (text : String) (hidden : Bool) : (askOnce text hidden).IsIdle :=
  fun _ _ => rfl

theorem askTwice_isIdle (text : String) (hidden : Bool) (fuel : Nat) :
    (askTwice text hidden fuel).IsIdle := by
  induction fuel with
  | zero => exact .pure none
  | succ fuel ih =>
    refine .bind (askOnce_isIdle text hidden) fun first => ?_
    cases first with
    | none => exact .pure none
    | some first =>
      refine .bind (askOnce_isIdle repetition hidden) fun second => ?_
      cases second with
      | none => exact .pure none
      | some second =>
        dsimp only
        split
        · exact .pure _
        · exact .bind (fun _ _ => rfl) fun _ => ih

theorem ask_isIdle (q : Question) : (ask q).IsIdle := by
  unfold ask
  split
  · exact .bind .world fun _ => askTwice_isIdle _ _ _
  · exact askOnce_isIdle _ _

end Console

/-! ### The service and the tool -/

def Event.IfRequest (P : Request.Sent → Prop) : Event → Prop
  | .request r => P r
  | .run _ => True

theorem Emitted.mono_requests {P Q : Request.Sent → Prop} {w w' : World}
    (he : Emitted (Event.IfRequest P) w w') (hpq : ∀ r, P r → Q r) :
    Emitted (Event.IfRequest Q) w w' := by
  refine he.mono fun d hd => ?_
  cases d with
  | run r => trivial
  | request r => exact hpq r hd

def Event.IsFrom (c : Client) : Event → Prop :=
  IfRequest fun r => ∃ e body params, r.toRequest = c.asking e body params

namespace Client

variable {α β : Type} {c : Client}

theorem call_emits (e : Endpoint) (body params : Option Json) :
    (c.call e body params).Emits (Event.IsFrom c) := by
  intro h w
  rw [call_apply]
  exact .single (World.sent_events w _) ⟨e, body, params, rfl⟩

theorem ask_emits (e : Endpoint) (body params : Option Json) (what : String)
    (p : Json → Payload α) :
    (c.call e body params >>= fun v => understand what (p v)).Emits (Event.IsFrom c) :=
  .bind (call_emits e body params) fun _ => .ofResult _

/-- A call whose answer is taken apart sends one request; what follows is to send none. -/
theorem asked_once (e : Endpoint) (body params : Option Json) (what : String)
    (p : Json → Payload α) {rest : α → Action β}
    (hrest : ∀ x, (rest x).IsSilent) (h : Host) (w : World) :
    Emitted (· = .request ⟨c.asking e body params, w.files⟩) w
      (((c.call e body params >>= fun j => understand what (p j)) >>= rest) h w).2 := by
  refine Action.emitted_bind ?_ fun x u _ => .of_events (hrest x h u)
  rw [ask_apply]
  exact .single (World.sent_events w _) rfl

end Client

namespace Sops.Tool

variable {c : Client} (t : Tool)

theorem checkInstalled_isIdle : t.checkInstalled.IsIdle := by
  refine .bind .host fun h => ?_
  split
  · exact .pure ()
  · exact .ofResult _

theorem encrypt_emits (file : Path) (p : Policy) (f : SecretFormat) :
    (t.encrypt file p f).Emits (Event.IsFrom c) := by
  intro h w
  obtain he | ⟨path, scene, he⟩ := (t.encrypt_runs h w file p f).events_cases
  · exact .of_events he
  · exact .single he trivial

theorem decrypt_emits (ciphertext : Bytes) (f : SecretFormat) :
    (t.decrypt ciphertext f).Emits (Event.IsFrom c) := by
  intro h w
  obtain he | ⟨path, scene, he⟩ := (t.decrypt_runs h w ciphertext f).events_cases
  · exact .of_events he
  · exact .single he trivial

end Sops.Tool

namespace VersionStore

variable (c : Client) (project : String) (e : Environment)

theorem pull_emits : (pull c project e).Emits (Event.IsFrom c) :=
  .bind (Client.call_emits _ _ _) fun _ => .ofResult _

theorem push_emits_requests (ciphertext : Bytes) (f : SecretFormat) (metadata : Json.Fields) :
    (push c project e ciphertext f metadata).Emits (Event.IsFrom c) := by
  unfold push
  split
  · exact .ofResult _
  · exact Client.ask_emits _ _ _ _ _

theorem versions_emits : (versions c project e).Emits (Event.IsFrom c) :=
  .bind (Client.call_emits _ _ _) fun _ => .bind (.ofResult _) fun _ => .pure _

end VersionStore

theorem Rotation.formatOf_emits {c : Client} (v : SecretVersion) :
    (formatOf v).Emits (Event.IsFrom c) := by
  unfold formatOf
  split
  · exact .pure _
  · exact .ofResult _

namespace Rotation

variable {α β : Type} {P : Event → Prop}

theorem withScratch_of_broken {parent : Option Path} {body : Scratch → Part α} {s : Scratch}
    {h : Host} {w v u : World} {r : Rotation} {x : Failure}
    (hc : Scratch.create "envv-rotate-" parent h w = (.ok s, v))
    (hb : (body s).run.run r h v = (.error x, u)) :
    (withScratch parent body).run.run r h w = (.ok (.error x, r), s.left h u) := by
  have hr : body s r h v = (.error x, u) := hb
  show (caught (Scratch.within "envv-rotate-" parent fun s => body s r) >>= _) h w = _
  rw [Action.bind_apply, caught, Scratch.within_of_created hc, hr]
  rfl

/-- What a part of a rotation sends and runs, whatever was recorded before. -/
def Part.Emits (P : Event → Prop) (p : Part α) : Prop := ∀ r, (p.run.run r).Emits P

namespace Part.Emits

theorem act {a : Action α} (ha : a.Emits P) : Part.Emits P (Rotation.act a) := by
  intro r h w
  rw [act_apply]
  exact ha h w

theorem record (f : Rotation → Rotation) : Part.Emits P (Rotation.record f) :=
  fun _ _ _ => .of_events rfl

theorem pure (x : α) : Part.Emits P (Pure.pure x : Part α) := fun _ _ _ => .of_events rfl

theorem throw (x : Failure) : Part.Emits P (throw x : Part α) := fun _ _ _ => .of_events rfl

theorem bind {p : Part α} {f : α → Part β} (hp : Part.Emits P p)
    (hf : ∀ x, Part.Emits P (f x)) : Part.Emits P (p >>= f) := by
  intro r h w
  have hv := hp r h w
  rw [bind_apply]
  rcases hr : p.run.run r h w with ⟨x | ⟨x | x, r'⟩, v⟩
  · rw [hr] at hv
    exact hv
  · rw [hr] at hv
    exact hv
  · rw [hr] at hv
    exact hv.trans (hf x r' h v)

theorem withScratch {parent : Option Path} {body : Scratch → Part α}
    (hb : ∀ s, Part.Emits P (body s)) : Part.Emits P (Rotation.withScratch parent body) := by
  intro r h w
  rcases hc : Scratch.create "envv-rotate-" parent h w with ⟨x | s, v⟩
  · rw [withScratch_of_failed hc]
    exact .of_events (Scratch.events_of_create hc)
  have hmade : Emitted P w v := .of_events (Scratch.events_of_create hc)
  have hv := hb s r h v
  rcases hr : (body s).run.run r h v with ⟨x | y, u⟩
  · rw [hr] at hv
    rw [withScratch_of_broken hc hr]
    exact hmade.trans (hv.trans (.of_events (Scratch.left_events s)))
  · rw [hr] at hv
    rw [withScratch_of_created hc hr]
    exact hmade.trans (hv.trans (.of_events (Scratch.left_events s)))

end Part.Emits

variable (c : Client) (tool : Sops.Tool) (project : String)

theorem caught_emits {a : Action α} (ha : a.Emits P) : (caught a).Emits P := fun h w => ha h w

theorem recoverFile_emits (current : SecretVersion) (scratch : Scratch) :
    (recoverFile tool current scratch).Emits (Event.IsFrom c) := by
  refine .bind (.record _) fun _ => ?_
  refine .bind (.act (formatOf_emits current)) fun format => ?_
  refine .bind (.act (.recover (tool.decrypt_emits _ _) fun x => .ofResult _)) fun plaintext => ?_
  exact .bind (.act fun h w => .of_events (Scratch.events_of_write rfl)) fun _ => .pure _

theorem sealAnew_emits (file : Path) (format : SecretFormat) :
    (sealAnew c tool project file format).Emits (Event.IsFrom c) := by
  refine .bind (.record _) fun _ => ?_
  refine .bind (.act (Client.ask_emits _ _ _ _ _)) fun recipients => ?_
  refine .bind (.record _) fun _ => ?_
  refine .bind (.act (.ofResult _)) fun policy => ?_
  refine .bind (.record _) fun _ => ?_
  refine .bind (.record _) fun _ => ?_
  exact .act (tool.encrypt_emits _ _ _)

theorem renew_emits (e : Environment) (parent : Option Path) (current : SecretVersion) :
    (renew c tool project e parent current).Emits (Event.IsFrom c) := by
  refine .bind (.withScratch fun s => ?_) fun x => ?_
  · refine .bind (recoverFile_emits c tool current s) fun x => ?_
    exact .bind (sealAnew_emits c tool project _ _) fun _ => .pure _
  refine .bind (.record _) fun _ => ?_
  refine .bind (.act (VersionStore.push_emits_requests c project e _ _ _)) fun pushed => ?_
  exact .bind (.record _) fun _ => .record _

theorem run_emits (e : Environment) (parent : Option Path) (earlier : Rotation) :
    (run c tool project e parent earlier).Emits (Event.IsFrom c) := by
  refine .bind ?_ fun x => ?_
  · have hp : (proceed c tool project e parent).Emits (Event.IsFrom c) := by
      refine .bind (.record _) fun _ => ?_
      refine .bind (.record _) fun _ => ?_
      refine .bind (.act (caught_emits (VersionStore.pull_emits c project e))) fun x => ?_
      split
      · exact .bind (.record _) fun _ => renew_emits c tool project e parent _
      · split
        · exact .record _
        · exact .throw _
    exact hp earlier
  split
  · exact .pure _
  · exact .bind (.of_silent fun _ _ => rfl) fun _ => .pure _

end Rotation

namespace Secrets

variable (s : Secrets)

theorem pushFile_emits (file : Path) (e : Environment) (f : SecretFormat) :
    (s.pushFile file e f).Emits (Event.IsFrom s.client) := by
  refine .bind (.of_silent (Files.isFile_leaves file)) fun there => ?_
  split
  · refine .bind (.idle s.tool.checkInstalled_isIdle) fun _ => ?_
    refine .bind (Client.ask_emits _ _ _ _ _) fun recipients => ?_
    refine .bind (.ofResult _) fun policy => ?_
    refine .bind (s.tool.encrypt_emits _ _ _) fun x => ?_
    exact VersionStore.push_emits_requests _ _ _ _ _ _
  · exact .ofResult _

theorem pullTo_emits (e : Environment) (output : Path) :
    (s.pullTo e output).Emits (Event.IsFrom s.client) := by
  refine .bind (.idle s.tool.checkInstalled_isIdle) fun _ => ?_
  refine .bind (VersionStore.pull_emits _ _ _) fun version => ?_
  refine .bind ?_ fun _ => .pure _
  refine .bind (Rotation.formatOf_emits version) fun format => ?_
  refine .bind (s.tool.decrypt_emits _ _) fun plaintext => ?_
  refine .bind (.of_silent (Files.makeDirectories_isSilent _)) fun _ => ?_
  exact .of_silent (Files.change_isSilent _)

theorem push_emits (file : Path) (environment format : Json) :
    (s.push file environment format).Emits (Event.IsFrom s.client) :=
  .bind (.ofResult _) fun e => .bind (.ofResult _) fun f => s.pushFile_emits file e f

theorem pull_emits (environment : Json) (output : Option String) :
    (s.pull environment output).Emits (Event.IsFrom s.client) :=
  .bind (.ofResult _) fun e => s.pullTo_emits e _

theorem sync_emits (environment : Json) (file : Option String) :
    (s.sync environment file).Emits (Event.IsFrom s.client) := by
  refine .bind (.ofResult _) fun e => ?_
  refine .bind ?_ fun pulled => ?_
  · refine .recover (.bind (s.pullTo_emits e _) fun _ => .pure _) fun x => ?_
    split
    · exact .pure none
    · exact .ofResult _
  · refine .bind (.of_silent (Files.isFile_leaves _)) fun there => ?_
    split
    · exact .bind (s.pushFile_emits _ _ _) fun _ => .pure _
    · exact .ofResult _

theorem versions_emits (environment : Json) :
    (s.versions environment).Emits (Event.IsFrom s.client) :=
  .bind (.ofResult _) fun e => VersionStore.versions_emits _ _ e

theorem rollback_emits (id : String) : (s.rollback id).Emits (Event.IsFrom s.client) := by
  unfold rollback
  split
  · exact .ofResult _
  · exact Client.ask_emits _ _ _ _ _

theorem rotate_emits (environment : Json) :
    (s.rotate environment).Emits (Event.IsFrom s.client) := by
  refine .bind (.ofResult _) fun e => ?_
  refine .bind (Rotation.run_emits s.client s.tool s.project e none Rotation.start) fun r => ?_
  split
  · exact .ofResult _
  · exact .pure _

end Secrets

end TeamVault
