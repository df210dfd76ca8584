import TeamVault.Proofs.Action
import TeamVault.Proofs.Path
import TeamVault.Proofs.Tree
import TeamVault.Scratch

/-!
Scratch directories. One is made at a free location; whatever its block does below that location is
gone with it, and what the block writes there only its owner can read.
-/
namespace TeamVault

def World.withFiles (w : World) (t : Tree) : World := { w with files := t }

theorem Files.view?_of_find {t : Tree} {here l : Location} {p : Path} {mode : Nat} {data : Bytes}
    (hp : p.Proper) (hf : t.find here p = .ok (l, .file mode data)) :
    Files.view? t here p.toText = some
      ⟨p.toText, mode, ((t.node? l.dropLast).map Node.mode).getD 0, data⟩ := by
  rw [Files.view?, Path.ofText_toText hp, hf]

theorem Files.view?_of_write {t u : Tree} {here : Location} {p : Path} {mode : Nat} {data : Bytes}
    (hp : p.Proper) (hw : t.write here p (some mode) data = .ok u) :
    ∃ v, Files.view? u here p.toText = some v ∧ v.path = p.toText ∧ v.data = data := by
  obtain ⟨l, hl⟩ := Tree.find_write hw
  exact ⟨_, Files.view?_of_find hp hl, rfl, rfl⟩

theorem Files.lift_apply {α : Type} (f : Host → Tree → Except FileError α) (h : Host) (w : World) :
    Files.lift f h w = ((f h w.files).mapError fun e => .crash (Files.failure e), w) := by
  unfold Files.lift
  cases f h w.files <;> rfl

theorem Files.isFile_cases (p : Path) (h : Host) (w : World) :
    ∃ r, Files.isFile p h w = (r, w) ∧
      (r = .ok true → ∃ l m d, w.files.find h.workDirectory p = .ok (l, .file m d)) := by
  unfold Files.isFile Files.node?
  rw [Action.bind_apply, Files.lift_apply, Tree.probe]
  cases hf : w.files.find h.workDirectory p with
  | ok x =>
    obtain ⟨l, n⟩ := x
    cases n with
    | file m d => exact ⟨_, rfl, fun _ => ⟨l, m, d, rfl⟩⟩
    | directory m => exact ⟨_, rfl, fun ht => by cases ht⟩
  | error e =>
    cases e with
    | nameTooLong => exact ⟨_, rfl, fun ht => by cases ht⟩
    | _ => exact ⟨_, rfl, fun ht => by cases ht⟩

theorem Files.writePrivate_cases (p : Path) (data : Bytes) (h : Host) (w : World) :
    (∃ c, Files.writePrivate p data h w = (.error (.crash c), w)) ∨
      ∃ u, w.files.write h.workDirectory p (some 0o600) data = .ok u ∧
        Files.writePrivate p data h w = (.ok (), w.withFiles u) := by
  unfold Files.writePrivate Files.change
  dsimp only
  cases hw : w.files.write h.workDirectory p (some 0o600) data with
  | error e => exact .inl ⟨_, rfl⟩
  | ok u => exact .inr ⟨u, rfl, rfl⟩

namespace Tree

variable {t u v : Tree} {here spot l k : Location} {p : Path}

theorem walk_append (t : Tree) (spot : Location) (names more : List String) :
    t.walk spot (names ++ more) = (t.walk spot names).bind fun l => t.walk l more := by
  induction names generalizing spot with
  | nil => rfl
  | cons name rest ih =>
    rw [List.cons_append, walk, walk]
    cases t.node? spot with
    | none => rfl
    | some n =>
      cases n with
      | file => rfl
      | directory m =>
        cases hc : checkName name with
        | error e => rfl
        | ok _ => exact ih _

theorem walk_of_locate_join {q : Path} (hl : t.locate here p = .ok l) (hq : q.isAbsolute = false)
    (hk : t.locate here (p.join q) = .ok k) : t.walk l q.names = .ok k := by
  rw [Path.join, hq, if_neg Bool.false_ne_true] at hk
  unfold locate at hl hk
  split at hl
  · cases hl
  split at hk
  · cases hk
  change t.walk (start here p) (p.names ++ q.names) = .ok k at hk
  rw [walk_append, hl] at hk
  exact hk

theorem walk_of_locate_child {name : String} (hl : t.locate here p = .ok l)
    (hn : Path.IsName name) (hk : t.locate here (p.child name) = .ok k) :
    t.walk l [name] = .ok k := by
  rw [Path.child, Path.ofText_name hn] at hk
  exact walk_of_locate_join hl rfl hk

theorem locate_child {name : String} (hl : t.locate here p = .ok l) (hd : t.IsDirectory l)
    (hn : Path.IsName name) (hdots : name ≠ "..") (hk : t.locate here (p.child name) = .ok k) :
    k = l ++ [name] := by
  have hw := walk_of_locate_child hl hn hk
  rw [walk_cons hd, if_neg hdots] at hw
  cases hc : checkName name with
  | error e =>
    rw [hc] at hw
    cases hw
  | ok _ =>
    rw [hc] at hw
    cases hw
    rfl

/-- The trees differ only below a location, and no directory is lost. -/
structure Inside (spot : Location) (t u : Tree) : Prop where
  outside : u.remove spot = t.remove spot
  directories : KeepsDirectories t u

namespace Inside

theorem refl (spot : Location) (t : Tree) : Inside spot t t := ⟨rfl, .refl t⟩

theorem put (hp : spot <+: l) (hd : ¬ t.IsDirectory l) (n : Node) : Inside spot t (t.put l n) :=
  ⟨remove_put hp n, keepsDirectories_put hd n⟩

end Inside

end Tree

namespace Scratch

open TeamVault.Tree (Sound Inside AddsPrivately KeepsDirectories)

variable {α : Type} {h : Host} {w : World} {t u : Tree} {p : Path} {l : Location}

structure Fresh (h : Host) (t : Tree) (p : Path) (l : Location) : Prop where
  locate : t.locate h.workDirectory p = .ok l
  free : t.node? l = none

def opening (t : Tree) (l : Location) : Tree := t.put l (.directory 0o700)

theorem Fresh.not_isDirectory (hf : Fresh h t p l) : ¬ t.IsDirectory l := by
  rintro ⟨m, hm⟩
  rw [hf.free] at hm
  cases hm

theorem node?_opening (t : Tree) (l : Location) :
    (opening t l).node? l = some (.directory 0o700) := by
  rw [opening, Tree.node?_put, if_pos rfl]

theorem Fresh.locate_opening (hf : Fresh h t p l) :
    (opening t l).locate h.workDirectory p = .ok l :=
  Tree.locate_mono (Tree.keepsDirectories_put hf.not_isDirectory _) hf.locate

theorem makeDirectory_eq_ok (hm : t.makeDirectory h.workDirectory p 0o700 = .ok u) :
    ∃ l, Fresh h t p l ∧ u = opening t l := by
  unfold Tree.makeDirectory at hm
  cases hl : t.locate h.workDirectory p with
  | error e =>
    rw [hl] at hm
    cases hm
  | ok l =>
    rw [hl] at hm
    simp only [bind, Except.bind] at hm
    split at hm
    · cases hm
    · cases hm
      exact ⟨l, ⟨hl, ‹_›⟩, rfl⟩

theorem firstFree_eq_ok {attempt : Nat → Except FileError α} {fuel n : Nat} {x : α}
    (hx : firstFree attempt fuel n = .ok x) : ∃ m, attempt m = .ok x := by
  induction fuel generalizing n with
  | zero => cases hx
  | succ fuel ih =>
    rw [firstFree] at hx
    split at hx
    · exact ih hx
    · exact ⟨n, hx⟩

theorem make_eq_ok {start : String} {parent : Path}
    (hm : make h t start parent = .ok (p, u)) :
    (∃ n, p = nameIn h start parent n) ∧ ∃ l, Fresh h t p l ∧ u = opening t l := by
  obtain ⟨n, hn⟩ := firstFree_eq_ok hm
  cases hd : t.makeDirectory h.workDirectory (nameIn h start parent n) 0o700 with
  | error e =>
    rw [hd] at hn
    cases hn
  | ok v =>
    rw [hd] at hn
    cases hn
    exact ⟨⟨n, rfl⟩, makeDirectory_eq_ok hd⟩

theorem create_cases (h : Host) (w : World) (start : String) (parent : Option Path) :
    (∃ c, create start parent h w = (.error (.crash c), w)) ∨
      ∃ p l, (∃ m, p = nameIn h start (parent.getD h.temporary) m) ∧ Fresh h w.files p l ∧
        create start parent h w = (.ok (.opened p), w.withFiles (opening w.files l)) := by
  unfold create
  split
  next hm =>
    obtain ⟨hp, l, hf, rfl⟩ := make_eq_ok hm
    exact .inr ⟨_, l, hp, hf, rfl⟩
  · exact .inl ⟨_, rfl⟩

theorem events_of_create {start : String} {parent : Option Path} {r : Except Failure Scratch}
    {w' : World} (hc : create start parent h w = (r, w')) : w'.events = w.events := by
  obtain ⟨c, he⟩ | ⟨p, l, -, -, he⟩ := create_cases h w start parent <;>
  · rw [he] at hc
    cases hc
    rfl

theorem write_cases (h : Host) (w : World) (p : Path) (name : String) (data : Bytes) :
    (∃ c, (opened p).write name data h w = (.error (.crash c), w)) ∨
      ∃ u, w.files.write h.workDirectory (p.child name) (some 0o600) data = .ok u ∧
        (opened p).write name data h w = (.ok (p.child name), w.withFiles u) := by
  obtain ⟨c, hw⟩ | ⟨u, hu, hw⟩ := Files.writePrivate_cases (p.child name) data h w
  · exact .inl ⟨c, Action.bind_of_error hw⟩
  · exact .inr ⟨u, hu, Action.bind_of_ok hw⟩

theorem events_of_write {s : Scratch} {name : String} {data : Bytes} {r : Except Failure Path}
    {w' : World} (hw : s.write name data h w = (r, w')) : w'.events = w.events := by
  cases s with
  | closed =>
    cases hw
    rfl
  | opened p =>
    obtain ⟨c, he⟩ | ⟨u, -, he⟩ := write_cases h w p name data <;>
    · rw [he] at hw
      cases hw
      rfl

@[simp] theorem clear_events (s : Scratch) : (s.clear h w).2.events = w.events := by
  unfold clear
  cases s with
  | closed => rfl
  | opened p =>
    dsimp only
    split <;> rfl

def left (s : Scratch) (h : Host) (w : World) : World := (s.clear h w).2

@[simp] theorem left_events (s : Scratch) : (s.left h w).events = w.events := clear_events s

theorem within_of_created {start : String} {parent : Option Path} {body : Scratch → Action α}
    {s : Scratch} {w' : World} (hc : create start parent h w = (.ok s, w')) :
    within start parent body h w = ((body s h w').1, s.left h (body s h w').2) := by
  unfold within
  rw [Action.bind_of_ok hc]
  rfl

theorem within_of_failed {start : String} {parent : Option Path} {body : Scratch → Action α}
    {f : Failure} {w' : World} (hc : create start parent h w = (.error f, w')) :
    within start parent body h w = (.error f, w') :=
  Action.bind_of_error hc

section Restoring

variable (hs : t.Sound h.workDirectory) (hf : Fresh h t p l)
include hs hf

theorem Fresh.below {other : Location} (ho : l <+: other) : t.node? other = none :=
  hs.free_below hf.free ho

theorem Fresh.opening_sound : (opening t l).Sound h.workDirectory := by
  obtain hc | ⟨-, hp⟩ := hs.locate_isDirectory hf.locate
  · exact absurd hc hf.not_isDirectory
  · exact hs.put hf.not_isDirectory hp _

theorem Fresh.remove_opening : (opening t l).remove l = t := by
  rw [opening, Tree.remove_put List.prefix_rfl]
  exact Tree.remove_of_free fun other ho => hf.below hs ho

theorem Fresh.left_files (hi : Inside l (opening t l) w.files) :
    ((opened p).left h w).files = t := by
  have hk : KeepsDirectories t w.files :=
    (Tree.keepsDirectories_put hf.not_isDirectory _).trans hi.directories
  obtain ⟨m, hm⟩ := hi.directories l ⟨0o700, node?_opening t l⟩
  have hfind := Tree.find_of_locate (Tree.locate_mono hk hf.locate) hm
  have hrem : ((opened p).left h w).files = w.files.remove l := by
    simp only [left, clear, hfind]
  -- Nothing was below `l` before, so nothing is lost with what is removed there.
  rw [hrem, hi.outside, hf.remove_opening hs]

theorem Fresh.write {name : String} {data : Bytes} (hn : Path.IsName name) (hdots : name ≠ "..")
    (hw : (opening t l).write h.workDirectory (p.child name) (some 0o600) data = .ok u) :
    Inside l (opening t l) u ∧ AddsPrivately t u := by
  have hopen := node?_opening t l
  obtain ⟨k, hk, hd, -, rfl⟩ := Tree.write_eq_ok hw
  obtain rfl := Tree.locate_child hf.locate_opening ⟨_, hopen⟩ hn hdots hk
  have hbelow : l <+: l ++ [name] := List.prefix_append l [name]
  have hnew : (opening t l).node? (l ++ [name]) = none := by
    simpa [opening, Tree.node?_put] using hf.below hs hbelow
  refine ⟨Inside.put hbelow hd _, (AddsPrivately.put_directory hf.free).put_file hnew ?_ ?_ data⟩
  · rw [List.dropLast_concat, hf.free]
  · rw [List.dropLast_concat]
    exact hopen

end Restoring

theorem proper_nameIn (h : Host) (start : String) (parent : Path) (n : Nat) :
    (nameIn h start parent n).Proper :=
  Path.proper_ofText _

end Scratch

end TeamVault
