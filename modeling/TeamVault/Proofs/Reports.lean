import TeamVault.Proofs.BindingOnce
import TeamVault.Proofs.ShownText

/-!
What the user is told of a change. A command that changes something does all of its work before it
reports, so the report is a function of what the work yields, and nothing that is printed can undo
the work. A report fails where a text closes a tag that is not open; then the program breaks down
over a change that has been made.
-/
namespace TeamVault

open TeamVault.Action (IsIdle still)
open Console (Line plainText?)
open Console.Markup (Untagged)

/-! ### Printing -/

namespace Console

variable {s t : String} {lines : List String} {h : Host} {w : World}

theorem rendered_of_shown (hs : plainText? s = some t) : rendered s h w = (.ok t, w) := by
  unfold rendered
  rw [hs]
  rfl

theorem rendered_of_unshown (hs : plainText? s = none) :
    rendered s h w = (.error (.crash .markup), w) := by
  unfold rendered
  rw [hs]
  rfl

theorem print_of_shown (hs : (plainText? s).isSome) :
    ∃ u, print s h w = (.ok (), u) ∧ still u = still w := by
  obtain ⟨t, ht⟩ := Option.isSome_iff_exists.1 hs
  exact ⟨_, Action.bind_of_ok (rendered_of_shown ht), rfl⟩

theorem print_of_unshown (hs : plainText? s = none) :
    print s h w = (.error (.crash .markup), w) :=
  Action.bind_of_error (rendered_of_unshown hs)

theorem printOpen_stops {α β : Type} {a : Action α} (ha : a.IsIdle) (hs : plainText? s = none)
    (k : α → Action β) :
    ∃ f u, (a >>= fun x => printOpen s >>= fun _ => k x) h w = (.error f, u) ∧
      still u = still w := by
  have hidle := ha h w
  rcases hr : a h w with ⟨f | x, u⟩
  · rw [hr] at hidle
    exact ⟨f, u, Action.bind_of_error hr, hidle⟩
  · rw [hr] at hidle
    have hopen : printOpen s h u = (.error (.crash .markup), u) :=
      Action.bind_of_error (rendered_of_unshown hs)
    exact ⟨_, u, (Action.bind_of_ok hr).trans (Action.bind_of_error hopen), hidle⟩

def tell (lines : List String) : Action Unit := lines.forM print

@[simp] theorem tell_nil : tell [] = pure () := rfl

@[simp] theorem tell_cons (s : String) (rest : List String) :
    tell (s :: rest) = print s >>= fun _ => tell rest := rfl

theorem tell_of_shown (hs : ∀ s ∈ lines, (plainText? s).isSome) :
    ∃ u, tell lines h w = (.ok (), u) ∧ still u = still w := by
  induction lines generalizing w with
  | nil => exact ⟨w, rfl, rfl⟩
  | cons s rest ih =>
    obtain ⟨hs, hrest⟩ := List.forall_mem_cons.1 hs
    obtain ⟨v, hv, hstill⟩ := print_of_shown (h := h) (w := w) hs
    obtain ⟨u, hu, hend⟩ := ih hrest (w := v)
    exact ⟨u, (Action.bind_of_ok hv).trans hu, hend.trans hstill⟩

theorem tell_of_unshown (hs : ∃ s ∈ lines, plainText? s = none) :
    ∃ u, tell lines h w = (.error (.crash .markup), u) ∧ still u = still w := by
  induction lines generalizing w with
  | nil =>
    obtain ⟨s, hmem, -⟩ := hs
    cases hmem
  | cons s rest ih =>
    cases hshown : plainText? s with
    | none => exact ⟨w, Action.bind_of_error (print_of_unshown hshown), rfl⟩
    | some t =>
      obtain ⟨v, hv, hstill⟩ := print_of_shown (h := h) (w := w) (Option.isSome_of_eq_some hshown)
      have hrest : ∃ s ∈ rest, plainText? s = none := by
        obtain ⟨r, hmem, hr⟩ := hs
        obtain rfl | hmem := List.mem_cons.1 hmem
        · rw [hshown] at hr
          cases hr
        · exact ⟨r, hmem, hr⟩
      obtain ⟨u, hu, hend⟩ := ih hrest (w := v)
      exact ⟨u, (Action.bind_of_ok hv).trans hu, hend.trans hstill⟩

theorem tell_isIdle (lines : List String) : (tell lines).IsIdle := by
  induction lines with
  | nil => exact .pure ()
  | cons s rest ih => exact .bind (print_isIdle s) fun _ => ih

end Console

/-! ### Reports -/

namespace Command

/-- What is told of a change: lines, and the texts in them that are neither numbers nor the names of
environments. -/
structure Report where
  lines : List Line
  texts : List String
  filled : ∀ l ∈ lines, ∀ f ∈ l.fills, f.1 ∈ texts ∨ Untagged f.1.toList := by
    simp [List.forall_mem_cons, -Prod.forall]

namespace Report

@[simp] theorem untagged_environment (e : Environment) : Untagged e.name.toList := by
  cases e <;> decide

theorem bracket_not_mem_toDigits (n : Nat) : '[' ∉ Nat.toDigits 10 n := by
  intro hmem
  exact absurd (Nat.isDigit_of_mem_toDigits (by decide) (by decide) hmem) (by decide)

@[simp] theorem untagged_nat (n : Nat) : Untagged (Nat.toDigits 10 n) :=
  Console.Markup.untagged_of_not_mem (bracket_not_mem_toDigits n)

@[simp] theorem untagged_int (n : Int) : Untagged n.repr.toList := by
  refine Console.Markup.untagged_of_not_mem ?_
  cases n with
  | ofNat n => simpa [Int.repr] using bracket_not_mem_toDigits n
  | negSucc n => simpa [Int.repr] using bracket_not_mem_toDigits (n + 1)

def tell (r : Report) : Action Unit := Console.tell (r.lines.map Line.text)

theorem shown (r : Report) (ht : ∀ s ∈ r.texts, Untagged s.toList) :
    ∀ s ∈ r.lines.map Line.text, (plainText? s).isSome := by
  refine List.forall_mem_map.2 fun l hl => l.shown fun f hf => ?_
  exact (r.filled l hl f hf).elim (ht f.1) id

def ofPush (version : SecretVersion) : Report where
  lines := [.mk "[green]done[/]" [],
    .mk "  Environment: " [(version.environment.name, "")],
    .mk "  Version:     [bold]" [(toString version.version.1, "[/]")],
    .mk "  Size:        " [(toString version.sizeBytes, " bytes\n")]]
  texts := []

def ofSync (synced : TeamVault.Secrets.Synced) : Report where
  lines := [
    synced.pulled.elim (.mk "\n  [dim]No remote secrets found, created first version.[/]" [])
      fun pulled => .mk "\n  Pulled version " [(toString pulled.version.version.1, "")],
    .mk "  [green]Sync complete:[/] version [bold]" [(toString synced.pushed.version.1, "[/]\n")]]
  texts := []
  filled := by cases synced.pulled <;> simp

def ofRollback (id : String) (version : SecretVersion) : Report where
  lines := [.mk "\n  [green]Rolled back[/] " [(version.environment.name, " to "),
    (id, " as version [bold]"), (toString version.version.1, "[/]\n")]]
  texts := [id]

def rotated (r : Rotation) (previous current : SecretVersion) : List Line :=
  [.mk "[green]done[/]" [],
    .mk "  Previous Version: " [(toString previous.version.1, "")],
    .mk "  New Version:      [bold]" [(toString current.version.1, "[/]")],
    .mk "  Encrypted for:    " [(toString r.recipientKeys.length, " key(s)\n")]]

def ofRotation (r : Rotation) : Report where
  lines := (r.previous.bind fun previous => r.current.map (rotated r previous)).getD
    [.mk "[yellow]nothing to rotate[/]\n" []]
  texts := []
  filled := by cases r.previous <;> cases r.current <;> simp [rotated]

def ofProject (created : TeamVault.Project) : Report where
  lines := [.mk "\n  [green]Project created:[/] [bold]" [(created.name, "[/]")],
    .mk "  ID: [cyan]" [(created.id, "[/]\n")]]
  texts := [created.name, created.id]

def ofGrant (permission email : String) : Report where
  lines := [.mk "\n  [green]Granted[/] " [(permission, " to "), (email, "")],
    .mk "  Run [cyan]envv secrets rotate[/] so they can decrypt.\n" []]
  texts := [permission, email]

def ofRevocation (user : String) : Report where
  lines := [.mk "\n  [green]Revoked[/] access for " [(user, "")],
    .mk "  Run [cyan]envv secrets rotate[/] to re-encrypt without them.\n" []]
  texts := [user]

def ofBinding (environment : String) (b : ProjectBinding) (path : Path) : Report where
  lines := [.mk "\n  [green]Project initialized.[/]\n" [],
    .mk "  Organization: " [(b.organizationName, " ("), (b.organizationId, ")")],
    .mk "  Project:      " [(b.projectName, " ("), (b.projectId, ")")],
    .mk "  Default Env:  " [(environment, "")],
    .mk "  Config:       [dim]" [(path.toText, "[/]")],
    .mk "\n  Next: [cyan]envv secrets push .env." [(environment, "[/]\n")]]
  texts := [b.organizationName, b.organizationId, b.projectName, b.projectId, environment,
    path.toText]

def ofOrganization (created : Organization) : Report where
  lines := [.mk "\n  [green]Organization created:[/] [bold]" [(created.name, "[/]")],
    .mk "  ID: [cyan]" [(created.id, "[/]\n")]]
  texts := [created.name, created.id]

def ofInvitation (email role : String) : Report where
  lines := [.mk "\n  [green]Invited[/] " [(email, " as "), (role, "\n")]]
  texts := [email, role]

end Report

/-! ### Commands that change something -/

inductive Deed
  | push
  | sync
  | rollback
  | rotate
  | createProject
  | grant
  | revoke
  | init
  | createOrganization
  | invite

namespace Deed

def command : Deed → Command
  | push => Secrets.push
  | sync => Secrets.sync
  | rollback => Secrets.rollback
  | rotate => Secrets.rotate
  | createProject => Project.create
  | grant => Project.grant
  | revoke => Project.revoke
  | init => Project.init
  | createOrganization => Org.create
  | invite => Org.invite

def opening (v : Values) : Deed → Option Line
  | push => some (.mk "\n  Pushing secrets from [cyan]" [(v.text "file", "[/]...")])
  | rotate => some (.mk "\n  Rotating encryption keys..." [])
  | _ => none

def work (v : Values) : Deed → Action Report
  | push => do
    let s ← secrets v
    Console.printOpen ("\n  Pushing secrets from [cyan]" ++ v.text "file" ++ "[/]...")
    return .ofPush (← s.push (.ofText (v.text "file")) (Secrets.environment v)
      (.text (v.text "format")))
  | sync => do return .ofSync (← (← secrets v).sync (Secrets.environment v) (v.text? "file"))
  | rollback => do
    return .ofRollback (v.text "version_id") (← (← secrets v).rollback (v.text "version_id"))
  | rotate => do
    let s ← secrets v
    Console.printOpen "\n  Rotating encryption keys..."
    return .ofRotation (← s.rotate (Secrets.environment v))
  | createProject => do
    return .ofProject (← (← client v).createProject (v.text "org-id") (v.text "name")
      (v.text "slug") (v.text "description"))
  | grant => do
    let b ← BindingFile.load none
    (← client v).grantAccess b.projectId (v.text "email") (v.text "permission")
    return .ofGrant (v.text "permission") (v.text "email")
  | revoke => do
    let b ← BindingFile.load none
    (← client v).revokeAccess b.projectId (v.text "user_id")
    return .ofRevocation (v.text "user_id")
  | init => do
    let b ← Project.prepare v
    return .ofBinding (v.text "default-env") b (← BindingFile.save b none)
  | createOrganization => do
    return .ofOrganization (← (← client v).createOrganization (v.text "name")
      (v.text "description"))
  | invite => do
    (← client v).inviteMember (v.text "org_id") (v.text "email") (v.text "role")
    return .ofInvitation (v.text "email") (v.text "role")

theorem run_eq (d : Deed) (v : Values) : d.command.run v = d.work v >>= Report.tell := by
  cases d with
  | push => simp [command, Secrets.push, work, Report.ofPush, Report.tell, Line.text]
  | sync =>
    simp only [command, Secrets.sync, work, bind_assoc, pure_bind]
    refine bind_congr fun s => bind_congr fun synced => ?_
    simp only [Report.tell, Report.ofSync]
    cases synced.pulled <;> simp [Line.text]
  | rollback => simp [command, Secrets.rollback, work, Report.ofRollback, Report.tell, Line.text]
  | rotate =>
    simp only [command, Secrets.rotate, work, bind_assoc, pure_bind]
    refine bind_congr fun s => bind_congr fun _ => bind_congr fun r => ?_
    simp only [Report.tell, Report.ofRotation]
    cases r.previous <;> cases r.current <;> simp [Report.rotated, Line.text]
  | createProject => simp [command, Project.create, work, Report.ofProject, Report.tell, Line.text]
  | grant => simp [command, Project.grant, work, Report.ofGrant, Report.tell, Line.text]
  | revoke => simp [command, Project.revoke, work, Report.ofRevocation, Report.tell, Line.text]
  | init =>
    simp only [command, Project.init_run, work, bind_assoc, pure_bind]
    refine bind_congr fun b => bind_congr fun path => ?_
    simp [Project.told, Report.ofBinding, Report.tell, Line.text]
  | createOrganization =>
    simp [command, Org.create, work, Report.ofOrganization, Report.tell, Line.text]
  | invite => simp [command, Org.invite, work, Report.ofInvitation, Report.tell, Line.text]

end Deed

end Command

end TeamVault
