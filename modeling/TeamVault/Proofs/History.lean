import TeamVault.Proofs.ServiceAnswers
import Mathlib.Data.List.Forall2
import Mathlib.Data.List.Nodup
import Mathlib.Data.List.Perm.Basic

/-!
The version history as the service lists it. The listed entries are read all or not at all, and they
come back in an order that their numbers decide: a permutation with the newest first, in which
entries of one number stay in the order of the answer.
-/
namespace TeamVault

namespace Payload

variable {α : Type} {ofFields : Json.Fields → Checked α} {v : Json} {a : α} {items : List Json}

theorem record_of_fits (hv : Fits ofFields v a) : record ofFields v = .ok a := by
  obtain ⟨fs, rfl, hfs⟩ := hv
  exact ofChecked_eq_ok.2 hfs

theorem mapM_of_forall₂ {as : List α} (hf : List.Forall₂ (Fits ofFields) items as) :
    items.mapM (record ofFields) = .ok as := by
  induction hf with
  | nil => rfl
  | cons hv _ ih =>
    rw [List.mapM_cons, record_of_fits hv, ih]
    rfl

theorem exists_forall₂ (hall : ∀ v ∈ items, ∃ a, Fits ofFields v a) :
    ∃ as, List.Forall₂ (Fits ofFields) items as := by
  induction items with
  | nil => exact ⟨[], .nil⟩
  | cons v rest ih =>
    obtain ⟨a, ha⟩ := hall v List.mem_cons_self
    obtain ⟨as, hrest⟩ := ih fun u hu => hall u (List.mem_cons_of_mem v hu)
    exact ⟨a :: as, .cons ha hrest⟩

theorem mapM_of_misfit (hv : v ∈ items) (hmisfit : ∀ a, ¬ Fits ofFields v a) :
    ∃ cause, items.mapM (record ofFields) = .error cause := by
  have all_fit : ∀ as, List.Forall₂ (Fits ofFields) items as → False := by
    intro as hf
    induction hf with
    | nil => exact absurd hv List.not_mem_nil
    | cons hu _ ih =>
      obtain rfl | hrest := List.mem_cons.1 hv
      · exact hmisfit _ hu
      · exact ih hrest
  cases hm : items.mapM (record ofFields) with
  | error cause => exact ⟨cause, rfl⟩
  | ok as => exact (all_fit as (forall₂_of_mapM hm)).elim

end Payload

/-! ### The order of a history -/

namespace VersionInfo

def IsDescending (entries : List VersionInfo) : Prop :=
  entries.Pairwise fun a b => b.version.1 ≤ a.version.1

/-- All entries, each once, the newest first; those of one number are in their old order. -/
structure IsNewestFirst (entries newest : List VersionInfo) : Prop where
  complete : newest.Perm entries
  descending : IsDescending newest
  stable : ∀ n, newest.filter (·.version.1 = n) = entries.filter (·.version.1 = n)

theorem isNewestFirst (entries : List VersionInfo) :
    IsNewestFirst entries (newestFirst entries) := by
  have trans : ∀ a b c : VersionInfo, decide (b.version.1 ≤ a.version.1) = true →
      decide (c.version.1 ≤ b.version.1) = true → decide (c.version.1 ≤ a.version.1) = true := by
    intro a b c hab hbc
    rw [decide_eq_true_eq] at *
    exact Int.le_trans hbc hab
  have total : ∀ a b : VersionInfo,
      (decide (b.version.1 ≤ a.version.1) || decide (a.version.1 ≤ b.version.1)) = true := by
    intro a b
    rw [Bool.or_eq_true, decide_eq_true_eq, decide_eq_true_eq]
    exact Int.le_total _ _
  have hperm : (newestFirst entries).Perm entries := List.mergeSort_perm _ _
  refine ⟨hperm, ?_, fun n => ?_⟩
  · exact (List.pairwise_mergeSort trans total entries).imp of_decide_eq_true
  -- the entries of one number are in order as they stand, so sorting keeps them a sublist
  · have hties : (entries.filter (·.version.1 = n)).Pairwise fun a b =>
        decide (b.version.1 ≤ a.version.1) = true := by
      refine List.pairwise_of_forall_mem_list fun a ha b hb => ?_
      simp only [List.mem_filter, decide_eq_true_eq] at ha hb
      exact decide_eq_true (Int.le_of_eq (hb.2.trans ha.2.symm))
    have hkept := (List.sublist_mergeSort trans total hties List.filter_sublist).filter
      (fun a => decide (a.version.1 = n))
    simp only [List.filter_filter, Bool.and_self] at hkept
    exact (hkept.eq_of_length (hperm.filter _).length_eq.symm).symm

theorem mem_iff_of_filter {as bs : List VersionInfo} {a : VersionInfo}
    (hf : ∀ n : Int, as.filter (·.version.1 = n) = bs.filter (·.version.1 = n)) :
    a ∈ as ↔ a ∈ bs := by
  have hmem := congrArg (a ∈ ·) (hf a.version.1)
  simpa using hmem

theorem IsDescending.le_head {a b : VersionInfo} {as : List VersionInfo}
    (hd : IsDescending (a :: as)) (hb : b ∈ a :: as) : b.version.1 ≤ a.version.1 := by
  obtain rfl | hb := List.mem_cons.1 hb
  · exact Int.le_refl _
  · exact (List.pairwise_cons.1 hd).1 b hb

theorem eq_of_descending {as bs : List VersionInfo} (ha : IsDescending as) (hb : IsDescending bs)
    (hf : ∀ n : Int, as.filter (·.version.1 = n) = bs.filter (·.version.1 = n)) : as = bs := by
  have mem : ∀ {a}, a ∈ as ↔ a ∈ bs := mem_iff_of_filter hf
  induction as generalizing bs with
  | nil => exact (List.eq_nil_iff_forall_not_mem.2 fun b hm => nomatch mem.2 hm).symm
  | cons a as ih =>
    cases bs with
    | nil => exact nomatch mem.1 List.mem_cons_self
    | cons b bs =>
      have hsame : a.version.1 = b.version.1 := Int.le_antisymm
        (hb.le_head (mem.1 List.mem_cons_self)) (ha.le_head (mem.2 List.mem_cons_self))
      have hheads := hf a.version.1
      simp only [List.filter_cons, hsame, decide_true, if_true, List.cons.injEq] at hheads
      obtain ⟨rfl, htails⟩ := hheads
      have hrest : ∀ n : Int, as.filter (·.version.1 = n) = bs.filter (·.version.1 = n) := by
        intro n
        by_cases hn : a.version.1 = n
        · rw [← hn, htails]
        · simpa [List.filter_cons, hn] using hf n
      rw [ih (List.pairwise_cons.1 ha).2 (List.pairwise_cons.1 hb).2 hrest
        (mem_iff_of_filter hrest)]

theorem IsNewestFirst.unique {entries newest other : List VersionInfo}
    (hn : IsNewestFirst entries newest) (ho : IsNewestFirst entries other) : newest = other :=
  eq_of_descending hn.descending ho.descending fun n => (hn.stable n).trans (ho.stable n).symm

theorem newestFirst_eq_of_perm {entries others : List VersionInfo} (hp : others.Perm entries)
    (hd : (entries.map fun a => a.version.1).Nodup) : newestFirst others = newestFirst entries := by
  have ho := isNewestFirst others
  have he := isNewestFirst entries
  refine (ho.complete.trans (hp.trans he.complete.symm)).eq_of_pairwise ?_ ho.descending
    he.descending
  intro a b ha hb hab hba
  have ha' : a ∈ entries := hp.mem_iff.1 (ho.complete.mem_iff.1 ha)
  exact List.inj_on_of_nodup_map hd ha' (he.complete.mem_iff.1 hb) (Int.le_antisymm hba hab)

end VersionInfo

/-! ### Answers -/

theorem Client.answer_of_carried {α : Type} {c : Client} {e : Endpoint} {what reason : String}
    {p : Json → Payload α} {status : Int} {body : Bytes} {v : Json} (hs : status < 400)
    (hv : Reply.carried? status body = some v) :
    c.answer e what p (.answered status reason body) = (p v).mapError (misunderstood what) := by
  have hread : c.reading e.method e.path (.answered status reason body) = .ok v := by
    have hn : ¬ 400 ≤ status := Int.not_le.2 hs
    unfold Reply.carried? at hv
    unfold reading decode
    dsimp only
    rw [if_neg hn]
    split at hv
    next he =>
      cases hv
      rw [if_pos he]
    next he => rw [if_neg he, hv]
  rw [answer, hread]
  rfl

namespace VersionStore

inductive Lists (items : List Json) : Json → Prop
  | bare : Lists items (.list items)
  | wrapped {fs : Json.Fields} (hv : fs.get? "versions" = some (.list items)) :
    Lists items (.object fs)

variable {c : Client} {project : String} {e : Environment} {h g : Host} {w v : World}
  {items : List Json}

theorem history_of_lists {j : Json} (hl : Lists items j) :
    history j = items.mapM (Payload.record VersionInfo.ofFields) := by
  have hlist : Payload.records VersionInfo.ofFields (.list items) =
      items.mapM (Payload.record VersionInfo.ofFields) := by
    cases items <;> rfl
  cases hl with
  | bare => exact hlist
  | @wrapped fs hv =>
    have hpresent : fs.presentOr "versions" (.list []) = .list items := by
      rw [Json.Fields.presentOr, Json.Fields.present?, hv]
      cases items <;> rfl
    rw [history, hpresent, hlist]

def historyQuestion (c : Client) (project : String) (e : Environment) : Request :=
  c.asking (.listVersions project) none (inEnvironment e)

def Tells (c : Client) (project : String) (e : Environment) (h : Host) (w : World)
    (items : List Json) : Prop :=
  ∃ status reason body j,
    h.respond w.events (historyQuestion c project e) = .answered status reason body ∧
      status < 400 ∧ Reply.carried? status body = some j ∧ Lists items j

theorem versions_of_told (ht : Tells c project e h w items) :
    versions c project e h w =
      ((((items.mapM (Payload.record VersionInfo.ofFields)).mapError
          (Client.misunderstood "version list")).map VersionInfo.newestFirst).mapError .fault,
        w.sent (historyQuestion c project e)) := by
  obtain ⟨status, reason, body, j, hreply, hs, hj, hl⟩ := ht
  unfold historyQuestion at *
  rw [versions_apply, hreply, Client.answer_of_carried hs hj, history_of_lists hl]

theorem versions_of_entries (ht : Tells c project e h w items) {entries : List VersionInfo}
    (hf : List.Forall₂ (Payload.Fits VersionInfo.ofFields) items entries) :
    (versions c project e h w).1 = .ok (VersionInfo.newestFirst entries) := by
  rw [versions_of_told ht, Payload.mapM_of_forall₂ hf]
  rfl

/-- A history that the service lists, as a list or in an object, is told as a whole: every entry
once, the newest first, and those of one number in the order of the answer. So the order of the
answer is of no account where the numbers are distinct. One entry that is no version is enough for a
fault. -/
theorem history_is_complete (ht : Tells c project e h w items) :
    (versions c project e h w).2 = w.sent (historyQuestion c project e) ∧
    ((∀ v ∈ items, ∃ a, Payload.Fits VersionInfo.ofFields v a) →
      ∃ entries newest, List.Forall₂ (Payload.Fits VersionInfo.ofFields) items entries ∧
        (versions c project e h w).1 = .ok newest ∧ VersionInfo.IsNewestFirst entries newest ∧
        ((entries.map (·.version.1)).Nodup → ∀ g v others, Tells c project e g v others →
          others.Perm items → (versions c project e g v).1 = .ok newest)) ∧
    ((∃ v ∈ items, ∀ a, ¬ Payload.Fits VersionInfo.ofFields v a) →
      ∃ f, (versions c project e h w).1 = .error (.fault f) ∧ f.IsInvalidResponse) := by
  refine ⟨by rw [versions_of_told ht], fun hall => ?_, ?_⟩
  · obtain ⟨entries, hf⟩ := Payload.exists_forall₂ hall
    refine ⟨entries, _, hf, versions_of_entries ht hf, VersionInfo.isNewestFirst entries, ?_⟩
    intro hd g v others hg hp
    obtain ⟨more, hmore, hperm⟩ := List.perm_comp_forall₂ hp hf
    rw [versions_of_entries hg hmore, VersionInfo.newestFirst_eq_of_perm hperm hd]
  · rintro ⟨v, hv, hmisfit⟩
    obtain ⟨cause, hc⟩ := Payload.mapM_of_misfit hv hmisfit
    refine ⟨Client.misunderstood "version list" cause, ?_, 0, Client.noDetails, rfl⟩
    rw [versions_of_told ht, hc]
    rfl

/-! A service that lists two entries of one number around a newer one. -/

def archive : Host :=
  { Desk.host with
    respond := fun _ _ => .answered 200 "" (Text.Utf8.encode
      ("[\x7b\"version_id\":\"a\",\"version\":1,\"environment\":\"development\"\x7d," ++
        "\x7b\"version_id\":\"b\",\"version\":3,\"environment\":\"development\"\x7d," ++
        "\x7b\"version_id\":\"c\",\"version\":1,\"environment\":\"development\"\x7d]")) }

def archived (id : String) (before : Nat) : VersionInfo :=
  ⟨id, ⟨before + 1, by omega⟩, .development, 0, none, none⟩

def holdsArchive : Json → Bool
  | .list items => match items.mapM (Payload.record VersionInfo.ofFields) with
    | .ok entries => entries = [archived "a" 0, archived "b" 2, archived "c" 0]
    | .error _ => false
  | _ => false

theorem archive_tells : ∃ items, Tells Desk.client "p" .development archive Desk.world items ∧
    List.Forall₂ (Payload.Fits VersionInfo.ofFields) items
      [archived "a" 0, archived "b" 2, archived "c" 0] := by
  have hholds : ∃ body, archive.respond Desk.world.events
      (historyQuestion Desk.client "p" .development) = .answered 200 "" body ∧
      (Reply.carried? 200 body).any holdsArchive = true := ⟨_, rfl, by decide +kernel⟩
  obtain ⟨body, hreply, hbody⟩ := hholds
  obtain ⟨j, hj, hlist⟩ := (Option.any_eq_true _ _).1 hbody
  unfold holdsArchive at hlist
  split at hlist
  next items =>
    split at hlist
    next entries hentries =>
      obtain rfl := of_decide_eq_true hlist
      exact ⟨items, ⟨200, "", body, _, hreply, by decide, hj, .bare⟩,
        Payload.forall₂_of_mapM hentries⟩
    · cases hlist
  · cases hlist

/-- The newer one comes first, the others as they were listed. -/
theorem ties_keep_their_order :
    ∃ newest, (versions Desk.client "p" .development archive Desk.world).1 = .ok newest ∧
      newest.map (·.versionId) = ["b", "a", "c"] := by
  obtain ⟨items, ht, hf⟩ := archive_tells
  have hall : ∀ v ∈ items, ∃ a, Payload.Fits VersionInfo.ofFields v a := by
    intro v hv
    obtain ⟨i, hi, rfl⟩ := List.getElem_of_mem hv
    exact ⟨_, (List.forall₂_iff_get.1 hf).2 i hi ((List.forall₂_iff_get.1 hf).1 ▸ hi)⟩
  obtain ⟨entries, newest, -, hr, -⟩ := (history_is_complete ht).2.1 hall
  obtain rfl := Except.ok.inj (hr.symm.trans (versions_of_entries ht hf))
  have hsorted : VersionInfo.IsNewestFirst [archived "a" 0, archived "b" 2, archived "c" 0]
      [archived "b" 2, archived "a" 0, archived "c" 0] := by
    refine ⟨.swap .., by simp [VersionInfo.IsDescending, archived], fun n => ?_⟩
    by_cases hn : 1 = n
    · subst hn
      rfl
    · simp [archived, List.filter_cons, hn]
  refine ⟨_, hr, ?_⟩
  rw [(VersionInfo.isNewestFirst _).unique hsorted]
  rfl

end VersionStore

end TeamVault
