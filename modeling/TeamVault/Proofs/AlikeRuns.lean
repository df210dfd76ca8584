import TeamVault.Proofs.AlikeTrees
import TeamVault.Proofs.Exchange
import TeamVault.Proofs.ToolRun
import TeamVault.KeyFile
import Mathlib.Data.List.Forall2

/-!
Two runs of one program in worlds that differ in secrets only: in the content of hidden files, in
what decryptions yield, and in private keys. What the two runs do is related step by step, and the
relation is kept by every way of putting steps together.
-/
namespace TeamVault

def plaintextPath? (arguments : List String) : Option String :=
  if arguments.head? = some "--config" then arguments.getLast? else none

/-- Views of one file, which differ at most in its content, and only if that is secret. -/
structure FileView.Alike (secret : Option String) (v v' : FileView) : Prop where
  path : v.path = v'.path
  mode : v.mode = v'.mode
  directoryMode : v.directoryMode = v'.directoryMode
  data : secret ≠ some v.path → v.data = v'.data

structure Run.Alike (r r' : Run) : Prop where
  program : r.program = r'.program
  arguments : r.arguments = r'.arguments
  timeout : r.timeout = r'.timeout
  keyFile : r.keyFile = r'.keyFile
  reads : List.Forall₂ (FileView.Alike (plaintextPath? r.arguments)) r.reads r'.reads

inductive Event.Alike : Event → Event → Prop
  | request {r r' : Request.Sent} (h : r.toRequest = r'.toRequest) :
    Alike (.request r) (.request r')
  | run {r r' : Run.Started} (h : r.toRun.Alike r'.toRun) : Alike (.run r) (.run r')

def requests (es : List Event) : List Request :=
  es.filterMap fun
    | .request r => some r.toRequest
    | .run _ => none

theorem requests_eq {es es' : List Event} (h : List.Forall₂ Event.Alike es es') :
    requests es = requests es' := by
  induction h with
  | nil => rfl
  | cons he _ ih =>
    cases he with
    | request hr => simpa [requests, hr] using ih
    | run _ => simpa [requests] using ih

def Keypair.IsTold (output diagnostics : Bytes) (k : Keypair) : Prop :=
  ∃ s t, Text.Utf8.decode? output = some s ∧ Text.Utf8.decode? diagnostics = some t ∧
    ofOutput (s ++ "\n" ++ t) = .ok k

inductive Outcome.Alike (r : Run) : Outcome → Outcome → Prop
  | same (o : Outcome) : Alike r o o
  | decrypted (hr : r.arguments.head? = some "--decrypt") (plaintext plaintext' : Bytes)
    (diagnostics : Bytes) :
    Alike r (.exited 0 plaintext diagnostics) (.exited 0 plaintext' diagnostics)
  | generated (hr : r.arguments = []) {output diagnostics output' diagnostics' : Bytes}
    {k k' : Keypair} (told : k.IsTold output diagnostics) (told' : k'.IsTold output' diagnostics')
    (hk : k.publicKey = k'.publicKey) :
    Alike r (.exited 0 output diagnostics) (.exited 0 output' diagnostics')

/-- Hosts that answer alike where what happened before differs in secrets only. -/
structure Host.Alike (h h' : Host) : Prop where
  workDirectory : h.workDirectory = h'.workDirectory
  home : h.home = h'.home
  temporary : h.temporary = h'.temporary
  now : h.now = h'.now
  serviceUrl : h.serviceUrl = h'.serviceUrl
  isInstalled : h.isInstalled = h'.isInstalled
  freshName : h.freshName = h'.freshName
  respond : ∀ {es es'}, List.Forall₂ Event.Alike es es' → h.respond es = h'.respond es'
  execute : ∀ {es es' r r'}, List.Forall₂ Event.Alike es es' → r.Alike r' →
    Outcome.Alike r (h.execute es r) (h'.execute es' r')

/-- Worlds that differ in secrets only; the files at the places in `S` are hidden. -/
structure World.Alike (S : Set Location) (w w' : World) : Prop where
  files : Tree.Alike S w.files w'.files
  events : List.Forall₂ Event.Alike w.events w'.events
  warnings : w.warnings = w'.warnings
  printed : w.printed = w'.printed
  typed : w.typed = w'.typed

namespace World.Alike

variable {S T : Set Location} {w w' : World}

theorem refl (S : Set Location) (w : World) : w.Alike S w := by
  refine ⟨.refl S _, List.forall₂_same.2 fun e _ => ?_, rfl, rfl, rfl⟩
  cases e with
  | request r => exact .request rfl
  | run r =>
    have hviews := List.forall₂_same.2 fun v (_ : v ∈ r.reads) =>
      (⟨rfl, rfl, rfl, fun _ => rfl⟩ : v.Alike (plaintextPath? r.arguments) v)
    exact .run ⟨rfl, rfl, rfl, rfl, hviews⟩

theorem mono (hw : w.Alike S w') (h : S ⊆ T) : w.Alike T w' := { hw with files := hw.files.mono h }

theorem withFiles (hw : w.Alike S w') {t t' : Tree} (ht : t.Alike T t') :
    (w.withFiles t).Alike T (w'.withFiles t') :=
  ⟨ht, hw.events, hw.warnings, hw.printed, hw.typed⟩

theorem log (hw : w.Alike S w') {e e' : Event} (he : e.Alike e') :
    (w.log e).Alike S (w'.log e') :=
  { hw with events := List.rel_append hw.events (.cons he .nil) }

end World.Alike

namespace Action

variable {α β γ δ : Type} {h h' : Host} {S T : Set Location} {R : α → β → Prop} {Q : γ → δ → Prop}

def Matches (S : Set Location) (R : α → β → Prop) (x : Except Failure α × World)
    (y : Except Failure β × World) : Prop :=
  EndsAlike R x.1 y.1 ∧ x.2.Alike S y.2

theorem Matches.bind {a : Action α} {b : Action β} {f : α → Action γ} {g : β → Action δ}
    {w w' : World} (hab : Matches S R (a h w) (b h' w')) (hs : S ⊆ T)
    (hfg : ∀ x y v v', a h w = (.ok x, v) → b h' w' = (.ok y, v') → R x y → v.Alike S v' →
      Matches T Q (f x h v) (g y h' v')) :
    Matches T Q ((a >>= f) h w) ((b >>= g) h' w') := by
  obtain ⟨hr, hw⟩ := hab
  rcases ha : a h w with ⟨r, v⟩
  rcases hb : b h' w' with ⟨s, v'⟩
  rw [ha, hb] at hr hw
  dsimp only at hr hw
  obtain ⟨x, y, rfl, rfl, hxy⟩ | ⟨e, rfl, rfl⟩ := hr
  · rw [bind_of_ok ha, bind_of_ok hb]
    exact hfg x y v v' ha hb hxy hw
  · rw [bind_of_error ha, bind_of_error hb]
    exact ⟨.error, hw.mono hs⟩

/-- Steps that end alike, with the files at `T` hidden, wherever the worlds before them are alike
with those at `S` hidden. -/
def Leads (h h' : Host) (S T : Set Location) (R : α → β → Prop) (a : Action α) (b : Action β) :
    Prop :=
  ∀ w w', w.Alike S w' → Matches T R (a h w) (b h' w')

abbrev Agree (h h' : Host) (S : Set Location) (R : α → β → Prop) (a : Action α) (b : Action β) :
    Prop :=
  Leads h h' S S R a b

theorem Leads.mono {S' T' : Set Location} {a : Action α} {b : Action β}
    (ha : Leads h h' S T R a b) (hs : S' ⊆ S) (ht : T ⊆ T') : Leads h h' S' T' R a b := by
  intro w w' hw
  obtain ⟨hr, hv⟩ := ha w w' (hw.mono hs)
  exact ⟨hr, hv.mono ht⟩

theorem Leads.bind {U : Set Location} {a : Action α} {b : Action β} {f : α → Action γ}
    {g : β → Action δ} (ha : Leads h h' S T R a b) (ht : T ⊆ U)
    (hf : ∀ x y, R x y → Leads h h' T U Q (f x) (g y)) :
    Leads h h' S U Q (a >>= f) (b >>= g) :=
  fun w w' hw => (ha w w' hw).bind ht fun x y _ _ _ _ hxy hv => hf x y hxy _ _ hv

theorem Leads.bind_eq {U : Set Location} {a : Action α} {f : α → Action γ} {g : α → Action δ}
    (ha : Leads h h' S T Eq a a) (ht : T ⊆ U) (hf : ∀ x, Leads h h' T U Q (f x) (g x)) :
    Leads h h' S U Q (a >>= f) (a >>= g) := by
  refine ha.bind ht ?_
  rintro x _ rfl
  exact hf x

namespace Agree

variable {a : Action α} {b : Action β} {f : α → Action γ} {g : β → Action δ}

theorem ofResult {r : Except Failure α} {s : Except Failure β} (hr : EndsAlike R r s) :
    Agree h h' S R (Action.ofResult r) (Action.ofResult s) :=
  fun _ _ hw => ⟨hr, hw⟩

theorem ofExcept {r : Except Fault α} {s : Except Fault β} (hr : EndsAlike R r s) :
    Agree h h' S R (Action.ofExcept r) (Action.ofExcept s) :=
  ofResult (hr.mapError _)

theorem pure {x : α} {y : β} (hxy : R x y) : Agree h h' S R (Pure.pure x) (Pure.pure y) :=
  ofResult (.ok hxy)

theorem fail (x : Failure) : Agree h h' S R (Action.fail x) (Action.fail x) := ofResult .error

theorem raise (x : Fault) : Agree h h' S R (Action.raise x) (Action.raise x) := fail _

theorem crash (x : Crash) : Agree h h' S R (Action.crash x) (Action.crash x) := fail _

theorem bind (ha : Agree h h' S R a b) (hf : ∀ x y, R x y → Agree h h' S Q (f x) (g y)) :
    Agree h h' S Q (a >>= f) (b >>= g) :=
  Leads.bind ha subset_rfl hf

theorem bind_eq {a : Action α} {f : α → Action γ} {g : α → Action δ} (ha : Agree h h' S Eq a a)
    (hf : ∀ x, Agree h h' S Q (f x) (g x)) : Agree h h' S Q (a >>= f) (a >>= g) :=
  Leads.bind_eq ha subset_rfl hf

theorem recover {k : Failure → Action α} {l : Failure → Action β} (ha : Agree h h' S R a b)
    (hk : ∀ x, Agree h h' S R (k x) (l x)) : Agree h h' S R (a.recover k) (b.recover l) := by
  intro w w' hw
  obtain ⟨hr, hv⟩ := ha w w' hw
  rw [recover_apply, recover_apply]
  rcases hx : a h w with ⟨r, v⟩
  rcases hy : b h' w' with ⟨s, v'⟩
  rw [hx, hy] at hr hv
  dsimp only at hr hv
  obtain ⟨x, y, rfl, rfl, hxy⟩ | ⟨e, rfl, rfl⟩ := hr
  · exact ⟨.ok hxy, hv⟩
  · exact hk e _ _ hv

theorem always (ha : Agree h h' S R a b) {c d : Action Unit} (hc : Agree h h' S Eq c d) :
    Agree h h' S R (a.always c) (b.always d) :=
  fun _ _ hw => ⟨(ha _ _ hw).1, (hc _ _ (ha _ _ hw).2).2⟩

theorem warn (s : String) : Agree h h' S Eq (Action.warn s) (Action.warn s) :=
  fun _ _ hw => ⟨.ok rfl, { hw with warnings := congrArg (· ++ [s]) hw.warnings }⟩

theorem host (hh : h.Alike h') : Agree h h' S Host.Alike Action.host Action.host :=
  fun _ _ hw => ⟨.ok hh, hw⟩

theorem send (hh : h.Alike h') (r : Request) : Agree h h' S Eq (Action.send r) (Action.send r) := by
  intro w w' hw
  exact ⟨.ok (congrFun (hh.respond hw.events) r), hw.log (.request rfl)⟩

theorem execute (hh : h.Alike h') {r r' : Run} (hr : r.Alike r') :
    Agree h h' S (Outcome.Alike r) (Action.execute r) (Action.execute r') :=
  fun _ _ hw => ⟨.ok (hh.execute hw.events hr), hw.log (.run hr)⟩

theorem expandHome (hh : h.Alike h') (p : Path) :
    Agree h h' S (fun q q' => q' = q ∧ p.expandHome? h.home = some q) (Action.expandHome p)
      (Action.expandHome p) := by
  intro w w' hw
  unfold Action.expandHome
  rw [bind_apply, bind_apply, host_apply, host_apply]
  dsimp only
  rw [← hh.home]
  cases hp : p.expandHome? h.home with
  | none => exact ⟨.error, hw⟩
  | some q => exact ⟨.ok ⟨rfl, rfl⟩, hw⟩

end Agree

end Action

open TeamVault.Action (Agree Matches)

variable {h h' : Host} {S : Set Location}

namespace Files

variable {α β : Type} {R : α → β → Prop} {p : Path}

theorem lift_agree {f : Host → Tree → Except FileError α} {g : Host → Tree → Except FileError β}
    (hfg : ∀ t u, t.Alike S u → EndsAlike R (f h t) (g h' u)) :
    Agree h h' S R (lift f) (lift g) := by
  intro w w' hw
  rw [lift_apply, lift_apply]
  exact ⟨(hfg _ _ hw.files).mapError _, hw⟩

theorem change_agree {f g : Host → Tree → Except FileError Tree}
    (hfg : ∀ t u, t.Alike S u → EndsAlike (Tree.Alike S) (f h t) (g h' u)) :
    Agree h h' S Eq (change f) (change g) := by
  intro w w' hw
  unfold change
  obtain ⟨t, u, ht, hu, htu⟩ | ⟨e, ht, hu⟩ := hfg _ _ hw.files
  · rw [ht, hu]
    exact ⟨.ok rfl, hw.withFiles htu⟩
  · rw [ht, hu]
    exact ⟨.error, hw⟩

variable (hh : h.Alike h')
include hh

theorem node_agree (p : Path) :
    Agree h h' S (Option.Rel Node.Alike) (node? p) (node? p) := by
  refine lift_agree fun t u htu => ?_
  rw [hh.workDirectory]
  exact htu.probe _ p

theorem isThere_agree (p : Path) : Agree h h' S Eq (isThere p) (isThere p) := by
  refine (node_agree hh p).bind fun x y hxy => .pure ?_
  cases hxy <;> rfl

theorem isFile_agree (p : Path) : Agree h h' S Eq (isFile p) (isFile p) := by
  refine (node_agree hh p).bind fun x y hxy => ?_
  cases hxy with
  | none => exact .pure rfl
  | some ha =>
    cases ha with
    | file mode d d' => exact .pure rfl
    | directory mode => exact .pure rfl

theorem readText_agree (hp : Tree.destination h.workDirectory p ∉ S) :
    Agree h h' S Eq (readText p) (readText p) := by
  have hread : Agree h h' S Eq (read p) (read p) := by
    refine lift_agree fun t u htu => ?_
    rw [← hh.workDirectory]
    exact .of_eq (htu.read_eq hp)
  refine hread.bind_eq fun bs => ?_
  split
  · exact .pure rfl
  · exact .crash _

theorem writePrivate_agree {data data' : Bytes}
    (hd : data = data' ∨ Tree.destination h.workDirectory p ∈ S) :
    Agree h h' S Eq (writePrivate p data) (writePrivate p data') := by
  refine change_agree fun t u htu => ?_
  rw [← hh.workDirectory]
  exact htu.write _ hd

theorem setMode_agree (p : Path) (mode : Nat) :
    Agree h h' S Eq (setMode p mode) (setMode p mode) := by
  refine change_agree fun t u htu => ?_
  rw [hh.workDirectory]
  exact htu.setMode _ p mode

theorem makeDirectories_agree (p : Path) :
    Agree h h' S Eq (makeDirectories p) (makeDirectories p) := by
  intro w w' hw
  obtain ⟨hf, he⟩ := hw.files.makeDirectories h.workDirectory p
  unfold makeDirectories
  rw [← hh.workDirectory]
  refine ⟨.of_eq ?_, hw.withFiles hf⟩
  dsimp only
  rw [he]

end Files

namespace Scratch

variable {α β : Type} {R : α → β → Prop}

theorem firstFree_endsAlike {f : Nat → Except FileError α} {g : Nat → Except FileError β}
    (hfg : ∀ n, EndsAlike R (f n) (g n)) (fuel n : Nat) :
    EndsAlike R (firstFree f fuel n) (firstFree g fuel n) := by
  induction fuel generalizing n with
  | zero => exact .error
  | succ fuel ih =>
    rw [firstFree, firstFree]
    obtain ⟨x, y, hx, hy, hxy⟩ | ⟨e, hx, hy⟩ := hfg n
    · rw [hx, hy]
      exact .ok hxy
    · rw [hx, hy]
      cases e with
      | alreadyThere => exact ih (n + 1)
      | _ => exact .error

variable (hh : h.Alike h')
include hh

theorem create_agree (start : String) (parent : Option Path) :
    Agree h h' S (fun s s' => s' = s ∧ ∃ p : Path, s = .opened p ∧ p.Proper) (create start parent)
      (create start parent) := by
  intro w w' hw
  have hname : ∀ q n, nameIn h' start q n = nameIn h start q n := by
    intro q n
    rw [nameIn, nameIn, hh.freshName]
  have hmake : EndsAlike (fun x y => y.1 = x.1 ∧ x.1.Proper ∧ x.2.Alike S y.2)
      (make h w.files start (parent.getD h.temporary))
      (make h' w'.files start (parent.getD h'.temporary)) := by
    unfold make
    refine firstFree_endsAlike (fun n => ?_) attempts 0
    rw [← hh.temporary, ← hh.workDirectory, hname]
    obtain ⟨t, u, ht, hu, htu⟩ | ⟨e, ht, hu⟩ := hw.files.makeDirectory h.workDirectory
      (nameIn h start (parent.getD h.temporary) n) 0o700
    · rw [ht, hu]
      exact .ok ⟨rfl, proper_nameIn h start _ n, htu⟩
    · rw [ht, hu]
      exact .error
  unfold create
  obtain ⟨⟨p, t⟩, ⟨q, u⟩, ht, hu, hq, hp, htu⟩ | ⟨e, ht, hu⟩ := hmake
  · dsimp only at hq hp htu
    rw [ht, hu, hq]
    exact ⟨.ok ⟨rfl, p, rfl, hp⟩, hw.withFiles htu⟩
  · rw [ht, hu]
    exact ⟨.error, hw⟩

theorem clear_agree (s : Scratch) : Agree h h' S Eq s.clear s.clear := by
  intro w w' hw
  refine ⟨.ok rfl, ?_⟩
  cases s with
  | closed => exact hw
  | opened p =>
    unfold clear
    dsimp only
    rw [← hh.workDirectory]
    obtain ⟨⟨l, n⟩, ⟨k, m⟩, ht, hu, -, hk, ha, -⟩ | ⟨e, ht, hu⟩ :=
      hw.files.find h.workDirectory p
    · dsimp only at hk ha
      rw [ht, hu, hk]
      cases ha with
      | file mode d d' => exact hw
      | directory mode => exact hw.withFiles (hw.files.remove l)
    · rw [ht, hu]
      exact hw

theorem within_agree {start : String} {parent : Option Path} {body : Scratch → Action α}
    {body' : Scratch → Action β}
    (hb : ∀ p : Path, p.Proper → Agree h h' S R (body (.opened p)) (body' (.opened p))) :
    Agree h h' S R (within start parent body) (within start parent body') := by
  refine (create_agree hh start parent).bind ?_
  rintro _ _ ⟨rfl, p, rfl, hp⟩
  exact (hb p hp).always ((clear_agree hh _).bind_eq fun _ => .pure rfl)

end Scratch

namespace Files

theorem view_alike {t u : Tree} (htu : t.Alike S u) {here : Location} {secret : Option String}
    {p : String} (hd : ∀ v v', view? t here p = some v → view? u here p = some v' →
      secret ≠ some p → v.data = v'.data) :
    Option.Rel (FileView.Alike secret) (view? t here p) (view? u here p) := by
  unfold view? at hd ⊢
  obtain ⟨⟨l, n⟩, ⟨k, m⟩, ht, hu, -, hk, ha, -⟩ | ⟨e, ht, hu⟩ := htu.find here (.ofText p)
  · dsimp only at hk ha
    rw [ht, hu] at hd ⊢
    subst hk
    cases ha with
    | file mode d d' =>
      refine .some ⟨rfl, rfl, ?_, hd _ _ rfl rfl⟩
      obtain ⟨ht, hu⟩ | ⟨n, m, ht, hu, ha, -⟩ := htu.node_cases k.dropLast
      · rw [ht, hu]
      · rw [ht, hu]
        exact ha.mode_eq
    | directory mode => exact .none
  · rw [ht, hu]
    exact .none

theorem viewsIn_alike {paths : List String} {R : FileView → FileView → Prop} {t u : Tree}
    (h₁ h₂ : Host) (hr : ∀ p ∈ paths, Option.Rel R (view? t h₁.workDirectory p)
      (view? u h₂.workDirectory p)) :
    List.Forall₂ R (viewsIn h₁ t paths) (viewsIn h₂ u paths) := by
  induction paths with
  | nil => exact .nil
  | cons p rest ih =>
    have hrest := ih fun q hq => hr q (List.mem_cons_of_mem _ hq)
    have hp := hr p List.mem_cons_self
    unfold viewsIn at hrest ⊢
    rw [List.filterMap_cons, List.filterMap_cons]
    generalize view? t h₁.workDirectory p = x at hp
    generalize view? u h₂.workDirectory p = y at hp
    cases hp with
    | none => exact hrest
    | some hv => exact .cons hv hrest

end Files

theorem Scratch.write_agree (hh : h.Alike h') {data data' : Bytes} (s : Scratch) (name : String)
    (hd : data = data' ∨ ∀ l, l ∈ S) :
    Agree h h' S Eq (s.write name data) (s.write name data') := by
  cases s with
  | closed => exact .crash _
  | opened p =>
    have hwrite := Files.writePrivate_agree (p := p.child name) hh (hd.imp_right fun hl => hl _)
    exact hwrite.bind fun _ _ _ => .pure rfl

namespace Sops

def Job.Yields (j : Job) (x y : Int × Bytes × Bytes) : Prop :=
  ∃ r : Run, (∃ file, r.arguments = j.arguments file) ∧
    Outcome.Alike r (.exited x.1 x.2.1 x.2.2) (.exited y.1 y.2.1 y.2.2)

def Job.IsDiscreet (j : Job) : Prop :=
  ∀ file, ∀ p ∈ j.reads file, p = file ∨ plaintextPath? (j.arguments file) = some p

namespace Tool

variable (t : Tool)

theorem finished_endsAlike {j : Job} {file : String} {r : Run} (hr : r.arguments = j.arguments file)
    {o o' : Outcome} (ho : o.Alike r o') : EndsAlike j.Yields (t.finished o) (t.finished o') := by
  cases ho with
  | same o =>
    cases o with
    | missing => exact .error
    | timedOut => exact .error
    | exited code output diagnostics => exact .ok ⟨r, ⟨file, hr⟩, .same _⟩
  | decrypted hd p p' diagnostics => exact .ok ⟨r, ⟨file, hr⟩, .decrypted hd p p' diagnostics⟩
  | generated hg told told' hk => exact .ok ⟨r, ⟨file, hr⟩, .generated hg told told' hk⟩

theorem command_alike {arguments : List String} {vs vs' : List FileView}
    (hv : List.Forall₂ (FileView.Alike (plaintextPath? arguments)) vs vs') :
    (t.command arguments vs).Alike (t.command arguments vs') :=
  ⟨rfl, rfl, rfl, rfl, hv⟩

variable (hh : h.Alike h')
include hh

theorem checkInstalled_agree : Agree h h' S Eq t.checkInstalled t.checkInstalled := by
  refine (Agree.host hh).bind fun h₁ h₂ hh₁ => ?_
  rw [hh₁.isInstalled]
  split
  · exact .pure rfl
  · exact .raise _

theorem run_matches (j : Job) {file : String} {w w' : World} (hw : w.Alike S w')
    (hv : List.Forall₂ (FileView.Alike (plaintextPath? (j.arguments file)))
      (Files.viewsIn h w.files (j.reads file)) (Files.viewsIn h' w'.files (j.reads file))) :
    Matches S j.Yields (t.run (j.arguments file) (j.reads file) h w)
      (t.run (j.arguments file) (j.reads file) h' w') := by
  have hr := t.command_alike hv
  rw [run_apply, run_apply]
  have ho := hh.execute hw.events hr
  exact ⟨(t.finished_endsAlike rfl ho).mapError _, hw.log (.run hr)⟩

theorem runWith_agree (j : Job) (hj : j.IsDiscreet) :
    Agree h h' S j.Yields (t.runWith j.start j.name j.data j.arguments j.reads)
      (t.runWith j.start j.name j.data j.arguments j.reads) := by
  refine Scratch.within_agree hh fun p hp w w' hw => ?_
  have hwrite := Scratch.write_agree (S := S) hh (.opened p) j.name (.inl (rfl : j.data = j.data))
  refine (hwrite w w' hw).bind subset_rfl ?_
  rintro file _ v v' hx hy rfl hv
  obtain ⟨c, he⟩ | ⟨u, hu, he⟩ := Scratch.write_cases h w p j.name j.data
  · rw [he] at hx
    cases hx
  obtain ⟨c, he'⟩ | ⟨u', hu', he'⟩ := Scratch.write_cases h' w' p j.name j.data
  · rw [he'] at hy
    cases hy
  rw [he] at hx
  rw [he'] at hy
  cases hx
  cases hy
  obtain ⟨a, hview, -, hdata⟩ := Files.view?_of_write (hp.child j.name) hu
  obtain ⟨b, hview', -, hdata'⟩ := Files.view?_of_write (hp.child j.name) hu'
  refine t.run_matches hh j hv (Files.viewsIn_alike h h' fun q hq => ?_)
  rw [← hh.workDirectory] at hview' ⊢
  refine Files.view_alike hv.files fun c d hc hd hsecret => ?_
  -- The only file that is not secret is the one that was just written.
  rw [(hj _ q hq).resolve_right hsecret] at hc hd
  obtain rfl : a = c := Option.some.inj (hview.symm.trans hc)
  obtain rfl : b = d := Option.some.inj (hview'.symm.trans hd)
  exact hdata.trans hdata'.symm

section Results

variable {α β : Type} {R : α → β → Prop}

theorem perform_agree (j : Job) (hj : j.IsDiscreet) {f : Int × Bytes × Bytes → Except Fault α}
    {g : Int × Bytes × Bytes → Except Fault β}
    (hfg : ∀ x y, j.Yields x y → EndsAlike R (f x) (g y)) :
    Agree h h' S R (t.perform j f) (t.perform j g) :=
  (t.runWith_agree hh j hj).bind fun x y hxy => .ofExcept (hfg x y hxy)

theorem encrypt_agree (plaintext : Path) (p : Policy) (f : SecretFormat) :
    Agree h h' S Eq (t.encrypt plaintext p f) (t.encrypt plaintext p f) := by
  rw [encrypt_eq]
  refine (t.checkInstalled_agree hh).bind_eq fun _ => t.perform_agree hh _ ?_ ?_
  · intro file q hq
    obtain rfl | hq := List.mem_cons.1 hq
    · exact .inl rfl
    · rw [List.mem_singleton.1 hq]
      exact .inr rfl
  · -- An encryption yields the same, whatever it is given.
    rintro ⟨code, output, diagnostics⟩ ⟨code', output', diagnostics'⟩ ⟨r, ⟨file, hr⟩, ho⟩
    dsimp only at ho
    cases ho with
    | same => exact .of_eq rfl
    | decrypted hd => simp [hr, encryptJob, encryptArguments] at hd
    | generated hg => simp [hr, encryptJob, encryptArguments] at hg

theorem decrypt_agree (ciphertext : Bytes) (f : SecretFormat) :
    Agree h h' S (fun _ _ => True) (t.decrypt ciphertext f) (t.decrypt ciphertext f) := by
  rw [decrypt_eq]
  refine (t.checkInstalled_agree hh).bind_eq fun _ => ?_
  refine (Agree.ofExcept (.of_eq rfl)).bind_eq fun _ => t.perform_agree hh _ ?_ ?_
  · intro file q hq
    exact .inl (List.mem_singleton.1 hq)
  · rintro ⟨code, output, diagnostics⟩ ⟨code', output', diagnostics'⟩ ⟨r, ⟨file, hr⟩, ho⟩
    dsimp only at ho
    cases ho with
    | same => exact .refl (fun _ => trivial) _
    | decrypted => exact .ok trivial
    | generated hg => simp [hr, decryptJob, decryptArguments] at hg

end Results

end Tool

end Sops

namespace Client

variable {α : Type} (c : Client) (hh : h.Alike h')
include hh

theorem call_agree (e : Endpoint) (body params : Option Json) :
    Agree h h' S Eq (c.call e body params) (c.call e body params) :=
  (Agree.send hh _).bind_eq fun _ => .ofExcept (.of_eq rfl)

theorem ask_agree (e : Endpoint) (body params : Option Json) (what : String)
    (p : Json → Payload α) :
    Agree h h' S Eq (c.call e body params >>= fun v => understand what (p v))
      (c.call e body params >>= fun v => understand what (p v)) :=
  (c.call_agree hh e body params).bind_eq fun _ => .ofExcept (.of_eq rfl)

end Client

section Service

variable (c : Client) (project : String) (hh : h.Alike h')
include hh

theorem Roster.ofProject_agree :
    Agree h h' S Eq (Roster.ofProject c project) (Roster.ofProject c project) :=
  c.ask_agree hh _ none none _ _

theorem VersionStore.pull_agree (e : Environment) :
    Agree h h' S Eq (VersionStore.pull c project e) (VersionStore.pull c project e) :=
  (c.call_agree hh _ _ _).bind_eq fun _ => .ofResult (.of_eq rfl)

theorem VersionStore.push_agree (e : Environment) (ciphertext : Bytes) (f : SecretFormat)
    (block : Json.Fields) :
    Agree h h' S Eq (VersionStore.push c project e ciphertext f block)
      (VersionStore.push c project e ciphertext f block) := by
  unfold VersionStore.push
  split
  · exact .crash _
  · exact c.ask_agree hh _ _ none _ _

end Service

end TeamVault
