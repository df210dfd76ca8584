import TeamVault.Proofs.AlikeRuns
import TeamVault.Secrets

/-!
The operations on secrets in two worlds that differ in secrets only. Plaintext passes through memory
and through files in all of them, and each ends in the same way in both worlds.
-/
namespace TeamVault

open TeamVault.Action (Agree Matches)

variable {h h' : Host} {S : Set Location}

namespace Rotation

variable {α β γ δ : Type} {R : α → β → Prop} {Q : γ → δ → Prop} {p : Part α} {q : Part β}

def PartsAgree (h h' : Host) (S : Set Location) (R : α → β → Prop) (p : Part α) (q : Part β) :
    Prop :=
  ∀ r, Agree h h' S (fun x y => EndsAlike R x.1 y.1 ∧ x.2 = y.2) (p.run.run r) (q.run.run r)

namespace PartsAgree

theorem act {a : Action α} {b : Action β} (ha : Agree h h' S R a b) :
    PartsAgree h h' S R (Rotation.act a) (Rotation.act b) := by
  intro r w w' hw
  obtain ⟨hx, hv⟩ := ha w w' hw
  exact ⟨.ok ⟨hx, rfl⟩, hv⟩

theorem record (f : Rotation → Rotation) :
    PartsAgree h h' S Eq (Rotation.record f) (Rotation.record f) :=
  fun _ _ _ hw => ⟨.ok ⟨.ok rfl, rfl⟩, hw⟩

theorem pure {x : α} {y : β} (hxy : R x y) : PartsAgree h h' S R (Pure.pure x) (Pure.pure y) :=
  fun _ _ _ hw => ⟨.ok ⟨.ok hxy, rfl⟩, hw⟩

theorem throw (x : Failure) :
    PartsAgree h h' S R (MonadExcept.throw x : Part α) (MonadExcept.throw x : Part β) :=
  fun _ _ _ hw => ⟨.ok ⟨.error, rfl⟩, hw⟩

theorem bind (hp : PartsAgree h h' S R p q) {f : α → Part γ} {g : β → Part δ}
    (hf : ∀ x y, R x y → PartsAgree h h' S Q (f x) (g y)) :
    PartsAgree h h' S Q (p >>= f) (q >>= g) := by
  intro r
  show Agree h h' S _ (p.run.run r >>= fun x => StateT.run (ExceptT.bindCont f x.1) x.2)
    (q.run.run r >>= fun y => StateT.run (ExceptT.bindCont g y.1) y.2)
  refine (hp r).bind ?_
  rintro ⟨x, r⟩ ⟨y, _⟩ ⟨hxy, rfl⟩
  obtain ⟨x, y, rfl, rfl, hxy⟩ | ⟨e, rfl, rfl⟩ := hxy
  · exact hf x y hxy r
  · exact .pure ⟨.error, rfl⟩

theorem bind_eq {p : Part α} (hp : PartsAgree h h' S Eq p p) {f : α → Part γ} {g : α → Part δ}
    (hf : ∀ x, PartsAgree h h' S Q (f x) (g x)) : PartsAgree h h' S Q (p >>= f) (p >>= g) := by
  refine hp.bind ?_
  rintro x _ rfl
  exact hf x

end PartsAgree

theorem caught_agree {a : Action α} {b : Action β} (ha : Agree h h' S R a b) :
    Agree h h' S (EndsAlike R) (caught a) (caught b) := by
  intro w w' hw
  obtain ⟨hx, hv⟩ := ha w w' hw
  exact ⟨.ok hx, hv⟩

theorem formatOf_agree (v : SecretVersion) : Agree h h' S Eq (formatOf v) (formatOf v) := by
  unfold formatOf
  split
  · exact .pure rfl
  · exact .crash _

variable (hh : h.Alike h')
include hh

theorem withScratch_agree (parent : Option Path) {body : Scratch → Part α}
    {body' : Scratch → Part β}
    (hb : ∀ s, PartsAgree h h' S R (body s) (body' s)) :
    PartsAgree h h' S R (withScratch parent body) (withScratch parent body') := by
  intro r
  have hbody : Agree h h' S (fun x y => EndsAlike R x.1 y.1 ∧ x.2 = y.2)
      (Scratch.within "envv-rotate-" parent fun s => body s r)
      (Scratch.within "envv-rotate-" parent fun s => body' s r) :=
    Scratch.within_agree hh fun p _ => hb (.opened p) r
  refine (caught_agree hbody).bind ?_
  rintro x y (⟨x, y, rfl, rfl, hxy⟩ | ⟨e, rfl, rfl⟩)
  · exact .pure hxy
  · exact .pure ⟨.error, rfl⟩

variable (c : Client) (tool : Sops.Tool) (project : String)

theorem recoverFile_agree (current : SecretVersion) (s : Scratch) :
    PartsAgree h h' Set.univ Eq (recoverFile tool current s) (recoverFile tool current s) := by
  refine (PartsAgree.record _).bind_eq fun _ => ?_
  refine (PartsAgree.act (formatOf_agree current)).bind_eq fun format => ?_
  have hdecrypt : Agree h h' Set.univ (fun _ _ => True)
      (decrypting tool current.ciphertext format) (decrypting tool current.ciphertext format) :=
    (tool.decrypt_agree hh current.ciphertext format).recover fun f => .fail _
  -- From here on the two hold different plaintext, in memory and then in the scratch directory.
  refine (PartsAgree.act hdecrypt).bind fun plaintext plaintext' _ => ?_
  have hwrite : Agree h h' Set.univ Eq (s.write ".env.rotate" plaintext)
      (s.write ".env.rotate" plaintext') :=
    s.write_agree hh _ (.inr fun _ => trivial)
  exact (PartsAgree.act hwrite).bind fun _ _ hxy => .pure (by rw [hxy])

theorem sealAnew_agree (file : Path) (format : SecretFormat) :
    PartsAgree h h' S Eq (sealAnew c tool project file format)
      (sealAnew c tool project file format) := by
  refine (PartsAgree.record _).bind_eq fun _ => ?_
  refine (PartsAgree.act (Roster.ofProject_agree c project hh)).bind_eq fun recipients => ?_
  refine (PartsAgree.record _).bind_eq fun _ => ?_
  refine (PartsAgree.act (.ofExcept (.of_eq rfl))).bind_eq fun policy => ?_
  refine (PartsAgree.record _).bind_eq fun _ => ?_
  refine (PartsAgree.record _).bind_eq fun _ => ?_
  exact .act (tool.encrypt_agree hh file policy format)

theorem renew_agree (e : Environment) (parent : Option Path) (current : SecretVersion) :
    PartsAgree h h' Set.univ Eq (renew c tool project e parent current)
      (renew c tool project e parent current) := by
  have hreseal : ∀ s, PartsAgree h h' Set.univ Eq (reseal c tool project current s)
      (reseal c tool project current s) := by
    intro s
    refine (recoverFile_agree hh tool current s).bind_eq fun x => ?_
    exact (sealAnew_agree hh c tool project x.1 x.2).bind_eq fun _ => .pure rfl
  refine (withScratch_agree hh parent hreseal).bind_eq fun x => ?_
  refine (PartsAgree.record _).bind_eq fun _ => ?_
  have hpush := VersionStore.push_agree (S := Set.univ) c project hh e x.1.1 x.2 x.1.2
  refine (PartsAgree.act hpush).bind_eq fun pushed => ?_
  exact (PartsAgree.record _).bind_eq fun _ => .record _

theorem proceed_agree (e : Environment) (parent : Option Path) :
    PartsAgree h h' Set.univ Eq (proceed c tool project e parent)
      (proceed c tool project e parent) := by
  refine (PartsAgree.record _).bind_eq fun _ => ?_
  refine (PartsAgree.record _).bind_eq fun _ => ?_
  refine (PartsAgree.act (caught_agree (VersionStore.pull_agree c project hh e))).bind ?_
  rintro x y (⟨current, _, rfl, rfl, rfl⟩ | ⟨f, rfl, rfl⟩)
  · exact (PartsAgree.record _).bind_eq fun _ => renew_agree hh c tool project e parent current
  · dsimp only
    split
    · exact .record _
    · exact .throw f

theorem run_agree (e : Environment) (parent : Option Path) (earlier : Rotation) :
    Agree h h' Set.univ Eq (run c tool project e parent earlier)
      (run c tool project e parent earlier) := by
  refine (proceed_agree hh c tool project e parent earlier).bind ?_
  rintro ⟨x, r⟩ ⟨y, _⟩ ⟨hxy, rfl⟩
  obtain ⟨_, _, rfl, rfl, -⟩ | ⟨f, rfl, rfl⟩ := hxy
  · exact .pure rfl
  · exact (Agree.warn _).bind_eq fun _ => .pure rfl

end Rotation

namespace Secrets

variable (s : Secrets) (hh : h.Alike h')
include hh

theorem pushFile_agree (file : Path) (e : Environment) (f : SecretFormat) :
    Agree h h' S Eq (s.pushFile file e f) (s.pushFile file e f) := by
  refine (Files.isFile_agree hh file).bind_eq fun there => ?_
  split
  · refine (s.tool.checkInstalled_agree hh).bind_eq fun _ => ?_
    refine (Roster.ofProject_agree s.client s.project hh).bind_eq fun recipients => ?_
    refine (Agree.ofExcept (.of_eq rfl)).bind_eq fun policy => ?_
    refine (s.tool.encrypt_agree hh file policy f).bind_eq fun x => ?_
    exact VersionStore.push_agree s.client s.project hh e x.1 f x.2
  · exact .raise _

theorem push_agree (file : Path) (environment format : Json) :
    Agree h h' S Eq (s.push file environment format) (s.push file environment format) := by
  refine (Agree.ofExcept (.of_eq rfl)).bind_eq fun e => ?_
  exact (Agree.ofExcept (.of_eq rfl)).bind_eq fun f => s.pushFile_agree hh file e f

theorem pullTo_agree (e : Environment) (output : Path) :
    Agree h h' Set.univ Eq (s.pullTo e output) (s.pullTo e output) := by
  refine (s.tool.checkInstalled_agree hh).bind_eq fun _ => ?_
  refine (VersionStore.pull_agree s.client s.project hh e).bind_eq fun version => ?_
  have hunpack : Agree h h' Set.univ Eq (s.unpack version output) (s.unpack version output) := by
    refine (Rotation.formatOf_agree version).bind_eq fun format => ?_
    refine (s.tool.decrypt_agree hh version.ciphertext format).bind fun plaintext plaintext' _ => ?_
    refine (Files.makeDirectories_agree hh output.parent).bind_eq fun _ => ?_
    exact Files.writePrivate_agree hh (.inr trivial)
  exact hunpack.bind_eq fun _ => .pure rfl

theorem pull_agree (environment : Json) (output : Option String) :
    Agree h h' Set.univ Eq (s.pull environment output) (s.pull environment output) :=
  (Agree.ofExcept (.of_eq rfl)).bind_eq fun e => s.pullTo_agree hh e _

theorem sync_agree (environment : Json) (file : Option String) :
    Agree h h' Set.univ Eq (s.sync environment file) (s.sync environment file) := by
  refine (Agree.ofExcept (.of_eq rfl)).bind_eq fun e => ?_
  have hpull : Agree h h' Set.univ Eq (s.pullIfAny e (fileOr file e))
      (s.pullIfAny e (fileOr file e)) := by
    refine ((s.pullTo_agree hh e _).bind_eq fun _ => .pure rfl).recover fun f => ?_
    split
    · exact .pure rfl
    · exact .fail f
  refine hpull.bind_eq fun pulled => ?_
  refine (Files.isFile_agree hh _).bind_eq fun there => ?_
  split
  · exact (s.pushFile_agree hh _ e _).bind_eq fun _ => .pure rfl
  · exact .raise _

theorem rotate_agree (environment : Json) :
    Agree h h' Set.univ Eq (s.rotate environment) (s.rotate environment) := by
  refine (Agree.ofExcept (.of_eq rfl)).bind_eq fun e => ?_
  refine (Rotation.run_agree hh s.client s.tool s.project e none _).bind_eq fun r => ?_
  split
  · exact .fail _
  · exact .pure rfl

end Secrets

end TeamVault
