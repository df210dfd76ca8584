import TeamVault.Proofs.Sending

/-!
What the program finds of its own state: the settings, the address of the service and the session
that a home holds. Finding it leaves files and events as they are.
-/
namespace TeamVault

open TeamVault.Action (IsSilent IsIdle still)

/-! ### What is found without acting -/

namespace Action

variable {α β : Type}

structure Finds (P : Host → Tree → α → Prop) (a : Action α) : Prop where
  idle : a.IsIdle
  value : ∀ h w x w', a h w = (.ok x, w') → P h w.files x

theorem warn_isIdle (text : String) : (warn text).IsIdle := fun _ _ => rfl

theorem files_of_still {u w : World} (hs : still u = still w) : u.files = w.files :=
  congrArg Prod.fst hs

theorem events_of_still {u w : World} (hs : still u = still w) : u.events = w.events :=
  congrArg Prod.snd hs

theorem still_of_ok {a : Action α} (ha : a.IsIdle) {h : Host} {w u : World} {x : α}
    (hr : a h w = (.ok x, u)) : still u = still w := by
  have hidle := ha h w
  rwa [hr] at hidle

namespace Finds

variable {P : Host → Tree → α → Prop} {Q : Host → Tree → β → Prop} {a : Action α}
  {k : α → Action β}

theorem of_idle (ha : a.IsIdle) : a.Finds fun _ _ _ => True := ⟨ha, fun _ _ _ _ _ => trivial⟩

theorem bind (ha : a.Finds P) (hk : ∀ x, (k x).Finds fun h t y => P h t x → Q h t y) :
    (a >>= k).Finds Q := by
  refine ⟨.bind ha.idle fun x => (hk x).idle, fun h w y w' hy => ?_⟩
  rw [bind_apply] at hy
  rcases hr : a h w with ⟨f | x, u⟩
  · rw [hr] at hy
    cases hy
  · rw [hr] at hy
    have hq := (hk x).value h u y w' hy
    rw [files_of_still (still_of_ok ha.idle hr)] at hq
    exact hq (ha.value h w x u hr)

theorem mono {P' : Host → Tree → α → Prop} (ha : a.Finds P)
    (hp : ∀ h t x, P h t x → P' h t x) : a.Finds P' :=
  ⟨ha.idle, fun h w x w' hx => hp h w.files x (ha.value h w x w' hx)⟩

theorem pure {x : α} (hx : ∀ h t, P h t x) : (Pure.pure x : Action α).Finds P := by
  refine ⟨.pure x, fun h w y w' hy => ?_⟩
  cases hy
  exact hx h w.files

theorem fail (f : Failure) : (Action.fail f : Action α).Finds P := by
  refine ⟨.ofResult (.error f), fun h w y w' hy => ?_⟩
  cases hy

theorem ofExcept (r : Except Fault α) : (Action.ofExcept r).Finds fun _ _ x => r = .ok x := by
  refine ⟨.ofResult _, fun h w x w' hx => ?_⟩
  cases r with
  | error f => cases hx
  | ok y =>
    cases hx
    rfl

theorem host : Action.host.Finds fun h _ g => g = h := by
  refine ⟨.host, fun h w y w' hy => ?_⟩
  cases hy
  rfl

theorem expandHome (p : Path) :
    (Action.expandHome p).Finds fun h _ q => p.expandHome? h.home = some q := by
  refine bind host fun g => ?_
  cases hp : p.expandHome? g.home with
  | none => exact fail _
  | some q =>
    refine pure fun h t hg => ?_
    rw [← hg, hp]

end Finds

end Action

open TeamVault.Action (Finds)

namespace Files

def ReadsAs (h : Host) (t : Tree) (p : Path) (s : String) : Prop :=
  ∃ bytes text, t.read h.workDirectory p = .ok bytes ∧ Text.Utf8.decode? bytes = some text ∧
    s = Text.unifyBreaks text

theorem ReadsAs.unique {h : Host} {t : Tree} {p : Path} {s s' : String} (hs : ReadsAs h t p s)
    (hs' : ReadsAs h t p s') : s' = s := by
  obtain ⟨bytes, text, hread, hdecode, rfl⟩ := hs
  obtain ⟨bytes', text', hread', hdecode', rfl⟩ := hs'
  obtain rfl : bytes' = bytes := Except.ok.inj (hread'.symm.trans hread)
  obtain rfl : text' = text := Option.some.inj (hdecode'.symm.trans hdecode)
  rfl

theorem lift_finds {α : Type} (g : Host → Tree → Except FileError α) :
    (lift g).Finds fun h t x => g h t = .ok x := by
  refine ⟨lift_leaves g, fun h w x w' hx => ?_⟩
  unfold lift at hx
  cases hg : g h w.files with
  | error e =>
    rw [hg] at hx
    cases hx
  | ok y =>
    rw [hg] at hx
    cases hx
    rfl

theorem isThere_finds (p : Path) : (isThere p).Finds fun h t there =>
    there = false → t.probe h.workDirectory p = .ok none := by
  refine (lift_finds _).bind fun n => .pure fun h t hn hnone => ?_
  rw [hn, Option.not_isSome_iff_eq_none.1 (Bool.eq_false_iff.1 hnone)]

theorem readText_finds (p : Path) : (readText p).Finds fun h t s => ReadsAs h t p s := by
  refine (lift_finds _).bind fun bytes => ?_
  cases hd : Text.Utf8.decode? bytes with
  | none => exact .fail _
  | some text => exact .pure fun h t hread => ⟨bytes, text, hread, hd, rfl⟩

end Files

/-! ### The local state -/

inductive SettingsFile.Holds (h : Host) (t : Tree) (home : Path) : ClientSettings → Prop
  | missing (hp : t.probe h.workDirectory (home.child fileName) = .ok none) :
    Holds h t home .default
  | valid {s : String} {x : ClientSettings} (hs : Files.ReadsAs h t (home.child fileName) s)
    (hx : decode s = .ok (.ok x)) : Holds h t home x
  | invalid {s : String} {cause : Cause} (hs : Files.ReadsAs h t (home.child fileName) s)
    (hx : decode s = .ok (.error cause)) : Holds h t home .default

inductive ServiceAddress (h : Host) (t : Tree) (home : Path) : String → Prop
  | surroundings {url : String} (hu : h.serviceUrl = some url) (hne : url ≠ "") :
    ServiceAddress h t home url
  | settings {s : ClientSettings} (hu : h.serviceUrl = none ∨ h.serviceUrl = some "")
    (hs : SettingsFile.Holds h t home s) : ServiceAddress h t home s.apiUrl

structure Credentials.Holds (h : Host) (t : Tree) (home : Path) (x : Session) : Prop where
  stored : ∃ s fs, Files.ReadsAs h t (home.child fileName) s ∧ Json.ofText s = .ok (.object fs) ∧
    Session.ofFields fs = .fits x
  unexpired : ∀ expiry, x.expiresAt = some expiry → h.now.instant < expiry.instant

theorem Credentials.Holds.unique {h : Host} {t : Tree} {home : Path} {x y : Session}
    (hx : Holds h t home x) (hy : Holds h t home y) : y = x := by
  obtain ⟨s, fs, hs, hfs, hx⟩ := hx.stored
  obtain ⟨s', fs', hs', hfs', hy⟩ := hy.stored
  obtain rfl := hs.unique hs'
  obtain rfl : fs' = fs := Json.object.inj (Except.ok.inj (hfs'.symm.trans hfs))
  exact Checked.fits.inj (hy.symm.trans hx)

theorem Credentials.session_of_decode {s : String} {x : Session} (hd : decode s = .ok x) :
    ∃ fs, Json.ofText s = .ok (.object fs) ∧ Session.ofFields fs = .fits x := by
  unfold decode at hd
  split at hd
  · cases hd
  · cases hd
  next fs hfs =>
    cases hx : Session.ofFields fs with
    | fits y =>
      rw [hx] at hd
      cases hd
      exact ⟨fs, hfs, hx⟩
    | fails errors =>
      rw [hx] at hd
      cases hd
  · cases hd

theorem Session.lt_of_isExpired {x : Session} {now expiry : Timestamp}
    (he : x.isExpired now = .ok false) (hexpiry : x.expiresAt = some expiry) :
    now.instant < expiry.instant := by
  unfold isExpired at he
  rw [hexpiry] at he
  dsimp only at he
  split at he
  · cases he
  · exact Int.not_le.1 (of_decide_eq_false (Except.ok.inj he))

namespace SettingsFile

theorem serviceAddress_of_holds {h : Host} {t : Tree} {home : Path} {s : ClientSettings}
    (hs : Holds h t home s) :
    ServiceAddress h t home (withSurroundings h.serviceUrl s).apiUrl := by
  unfold withSurroundings
  cases hu : h.serviceUrl with
  | none => exact .settings (.inl hu) hs
  | some url =>
    dsimp only
    by_cases hne : url = ""
    · rw [if_pos hne]
      exact .settings (.inr (by rw [hu, hne])) hs
    · rw [if_neg hne]
      exact .surroundings hu hne

theorem load_finds (q : Path) : (load (some q)).Finds fun h t s =>
    ∃ home, q.expandHome? h.home = some home ∧ ServiceAddress h t home s.apiUrl := by
  refine (Finds.expandHome q).bind fun home => ?_
  -- Whatever the file says, the surroundings are looked at last.
  have hrest : ∀ s : ClientSettings,
      (Action.host >>= fun h => pure (withSurroundings h.serviceUrl s)).Finds fun h t s' =>
        Holds h t home s → ServiceAddress h t home s'.apiUrl := by
    intro s
    refine Finds.host.bind fun g => .pure fun h t hg hs => ?_
    rw [hg]
    exact serviceAddress_of_holds hs
  refine (Files.isThere_finds _).bind fun there => ?_
  cases there with
  | false =>
    simp only [Bool.false_eq_true, if_false, pure_bind]
    exact (hrest _).mono fun h t s hs hnone hq => ⟨home, hq, hs (.missing (hnone trivial))⟩
  | true =>
    refine (Files.readText_finds _).bind fun text => ?_
    cases hd : decode text with
    | error c => exact .fail _
    | ok r =>
      cases r with
      | ok x =>
        simp only [pure_bind]
        exact (hrest x).mono fun h t s hs htext _ hq => ⟨home, hq, hs (.valid htext hd)⟩
      | error cause =>
        refine (Finds.of_idle (Action.warn_isIdle _)).bind fun _ => ?_
        simp only [pure_bind]
        exact (hrest _).mono fun h t s hs _ htext _ hq => ⟨home, hq, hs (.invalid htext hd)⟩

end SettingsFile

theorem Credentials.load_finds (q : Path) : (load (some q)).Finds fun h t x =>
    ∃ home, q.expandHome? h.home = some home ∧ Holds h t home x := by
  have hpath : (path (some q)).Finds fun h t p =>
      ∃ home, q.expandHome? h.home = some home ∧ p = home.child fileName :=
    (Finds.expandHome q).bind fun home => .pure fun h t hq => ⟨home, hq, rfl⟩
  refine hpath.bind fun p => ?_
  refine (Files.isThere_finds p).bind fun there => ?_
  cases there with
  | false => exact .fail _
  | true =>
    refine (Files.readText_finds p).bind fun text => ?_
    cases hd : decode text with
    | error f => exact .fail f
    | ok x =>
      refine Finds.host.bind fun g => ?_
      cases he : x.isExpired g.now with
      | error c => exact .fail _
      | ok expired =>
        cases expired with
        | true => exact .fail _
        | false =>
          refine .pure fun h t hg htext _ hp => ?_
          obtain ⟨home, hq, rfl⟩ := hp
          refine ⟨home, hq, ?_, ?_⟩
          · obtain ⟨fs, hfs, hx⟩ := session_of_decode hd
            exact ⟨text, fs, htext, hfs, hx⟩
          · intro expiry hexpiry
            rw [← hg]
            exact Session.lt_of_isExpired he hexpiry

theorem BindingFile.path_isIdle (directory : Option Path) : (path directory).IsIdle :=
  .bind .host fun _ => .pure _

theorem BindingFile.isThere_isIdle (directory : Option Path) : (isThere directory).IsIdle :=
  .bind (path_isIdle directory) fun _ => Files.isThere_leaves _

theorem BindingFile.load_isIdle (directory : Option Path) : (load directory).IsIdle := by
  refine .bind (path_isIdle directory) fun p => ?_
  refine .bind (Files.isThere_leaves p) fun there => ?_
  split
  · refine .bind (Files.readText_leaves p) fun text => ?_
    split
    · exact .pure _
    · exact .ofResult _
    · exact .ofResult _
  · exact .ofResult _

theorem BindingFile.save_isSilent (b : ProjectBinding) (directory : Option Path) :
    (save b directory).IsSilent := by
  refine .bind (path_isIdle directory).silent fun p => ?_
  refine .bind (Files.isThere_leaves p) fun there => ?_
  split
  · exact .ofResult _
  · refine .bind (Files.makeDirectories_isSilent _) fun _ => ?_
    exact .bind (Files.change_isSilent _) fun _ => .pure _

theorem Credentials.path_leaves {β : Type} {f : World → β} (home : Option Path) :
    (path home).Leaves f :=
  .bind (.expandHome _) fun _ => .pure _

theorem Credentials.prepare_isSilent (home : Option Path) : (prepare home).IsSilent := by
  refine .bind (.expandHome _) fun directory => ?_
  refine .bind (Files.makeDirectories_isSilent _) fun _ => ?_
  refine .bind (Files.change_isSilent _) fun _ => ?_
  exact .bind (Files.change_isSilent _) fun _ => .pure _

theorem Credentials.save_isSilent (x : Session) (home : Option Path) :
    (save x home).IsSilent := by
  refine .bind (prepare_isSilent home) fun p => ?_
  split
  · exact .bind (Files.change_isSilent _) fun _ => .pure _
  · exact .ofResult _

theorem Credentials.clear_isSilent (home : Option Path) : (clear home).IsSilent := by
  refine .bind (path_leaves home) fun p => ?_
  refine .bind (Files.isThere_leaves p) fun there => ?_
  split
  · exact .bind (Files.change_isSilent _) fun _ => .pure _
  · exact .pure _

theorem KeyFile.save_isSilent (k : Keypair) (given : Path) : (save k given).IsSilent := by
  refine .bind (.expandHome given) fun p => ?_
  refine .bind (Files.makeDirectories_isSilent _) fun _ => ?_
  refine .bind (Files.change_isSilent _) fun _ => ?_
  refine .bind .host fun h => ?_
  refine .bind (Files.isThere_leaves p) fun there => ?_
  split
  · refine .bind (Files.readText_leaves p) fun text => ?_
    exact .bind (Files.change_isSilent _) fun _ => .pure _
  · exact .bind (.pure "") fun _ => .bind (Files.change_isSilent _) fun _ => .pure _

theorem KeyFile.publicKey_isIdle (given : Path) : (publicKey given).IsIdle := by
  refine .bind (.expandHome given) fun p => ?_
  refine .bind (Files.isThere_leaves p) fun there => ?_
  split
  · refine .bind (Files.readText_leaves p) fun text => ?_
    split
    · exact .pure _
    · exact .ofResult _
  · exact .ofResult _

end TeamVault
