import TeamVault.Team.Recipient
import Mathlib.Data.List.Induction

/-!
One entry for each member. What is kept of a list depends on the members seen before only through
their names, so a list and one behind it are told apart: the second adds its own first entries of
members that the first does not name.
-/
namespace TeamVault.Recipient

variable {seen more : List String} {rs : List Recipient}

/-- The entries that no earlier entry of the same member stands before, in their order. -/
def firstEntries (rs : List Recipient) : List Recipient :=
  (rs.zipIdx.filter fun (r, i) => r.memberName ∉ (rs.take i).map memberName).map Prod.fst

/-! ### Members seen before -/

theorem firstPerMemberAfter_congr (hsame : ∀ name, name ∈ seen ↔ name ∈ more)
    (rs : List Recipient) : firstPerMemberAfter seen rs = firstPerMemberAfter more rs := by
  induction rs generalizing seen more with
  | nil => rfl
  | cons r rest ih =>
    rw [firstPerMemberAfter, firstPerMemberAfter]
    by_cases hr : r.memberName ∈ seen
    · rw [if_pos hr, if_pos ((hsame _).1 hr), ih hsame]
    · have hcons : ∀ name, name ∈ r.memberName :: seen ↔ name ∈ r.memberName :: more := by
        intro name
        rw [List.mem_cons, List.mem_cons, hsame]
      rw [if_neg hr, if_neg (mt (hsame _).2 hr), ih hcons]

theorem firstPerMemberAfter_append_seen (seen more : List String) (rs : List Recipient) :
    firstPerMemberAfter (seen ++ more) rs =
      (firstPerMemberAfter seen rs).filter fun r => r.memberName ∉ more := by
  induction rs generalizing seen with
  | nil => rfl
  | cons r rest ih =>
    rw [firstPerMemberAfter, firstPerMemberAfter]
    by_cases hseen : r.memberName ∈ seen
    · rw [if_pos (List.mem_append_left _ hseen), if_pos hseen, ih]
    · rw [if_neg hseen]
      by_cases hmore : r.memberName ∈ more
      · rw [if_pos (List.mem_append_right _ hmore), List.filter_cons_of_neg (by simpa using hmore),
          ← ih]
        -- the member was seen already, so that its entry does not add to those seen
        refine firstPerMemberAfter_congr (fun name => ?_) rest
        simp only [List.cons_append, List.mem_cons, List.mem_append]
        exact ⟨.inr, fun h => h.elim (fun he => .inr (he ▸ hmore)) id⟩
      · have hnew : r.memberName ∉ seen ++ more := by simp [hseen, hmore]
        rw [if_neg hnew, List.filter_cons_of_pos (by simpa using hmore), ← ih, List.cons_append]

theorem firstPerMemberAfter_eq_filter (seen : List String) (rs : List Recipient) :
    firstPerMemberAfter seen rs = (firstPerMember rs).filter fun r => r.memberName ∉ seen :=
  firstPerMemberAfter_append_seen [] seen rs

/-! ### Lists behind each other -/

theorem firstPerMemberAfter_append (seen : List String) (a b : List Recipient) :
    firstPerMemberAfter seen (a ++ b) =
      firstPerMemberAfter seen a ++ firstPerMemberAfter (a.map memberName ++ seen) b := by
  induction a generalizing seen with
  | nil => rfl
  | cons r rest ih =>
    rw [List.cons_append, firstPerMemberAfter, firstPerMemberAfter, List.map_cons]
    by_cases hr : r.memberName ∈ seen
    · rw [if_pos hr, if_pos hr, ih]
      congr 1
      refine firstPerMemberAfter_congr (fun name => ?_) b
      simp only [List.cons_append, List.mem_cons, List.mem_append]
      exact ⟨.inr, fun h => h.elim (fun he => .inr (he ▸ hr)) id⟩
    · rw [if_neg hr, if_neg hr, ih, List.cons_append]
      congr 2
      refine firstPerMemberAfter_congr (fun name => ?_) b
      simp only [List.cons_append, List.mem_cons, List.mem_append]
      exact or_left_comm

theorem firstPerMember_append (a b : List Recipient) : firstPerMember (a ++ b) =
    firstPerMember a ++ (firstPerMember b).filter fun r => r.memberName ∉ a.map memberName := by
  have hb := firstPerMemberAfter_eq_filter (a.map memberName) b
  have hsplit := firstPerMemberAfter_append [] a b
  rw [List.append_nil, hb] at hsplit
  exact hsplit

theorem firstPerMember_concat (rs : List Recipient) (r : Recipient) : firstPerMember (rs ++ [r]) =
    firstPerMember rs ++ if r.memberName ∈ rs.map memberName then [] else [r] := by
  rw [firstPerMember_append]
  congr 1
  by_cases hr : r.memberName ∈ rs.map memberName
  · rw [if_pos hr]
    exact List.filter_cons_of_neg (by simpa using hr)
  · rw [if_neg hr]
    exact List.filter_cons_of_pos (by simpa using hr)

/-! ### Which entries are kept -/

theorem firstEntries_concat (rs : List Recipient) (r : Recipient) : firstEntries (rs ++ [r]) =
    firstEntries rs ++ if r.memberName ∈ rs.map memberName then [] else [r] := by
  have hbefore : ∀ x ∈ rs.zipIdx, (rs ++ [r]).take x.2 = rs.take x.2 := by
    intro x hx
    have hlt : x.2 < rs.length := by simpa using List.snd_lt_of_mem_zipIdx hx
    exact List.take_append_of_le_length (Nat.le_of_lt hlt)
  have hlast : (rs ++ [r]).take rs.length = rs := List.take_left
  unfold firstEntries
  rw [List.zipIdx_append, List.filter_append, List.map_append]
  congr 1
  · congr 1
    refine List.filter_congr fun x hx => ?_
    dsimp only
    rw [hbefore x hx]
  · rw [List.zipIdx_singleton, Nat.zero_add]
    by_cases hr : r.memberName ∈ rs.map memberName
    · rw [if_pos hr, List.filter_cons_of_neg (by simpa [hlast] using hr)]
      rfl
    · rw [if_neg hr, List.filter_cons_of_pos (by simpa [hlast] using hr)]
      rfl

theorem firstPerMember_eq_firstEntries (rs : List Recipient) :
    firstPerMember rs = firstEntries rs := by
  induction rs using List.reverseRecOn with
  | nil => rfl
  | append_singleton rs r ih => rw [firstPerMember_concat, firstEntries_concat, ih]

theorem firstPerMember_sublist (rs : List Recipient) : (firstPerMember rs).Sublist rs := by
  have hkept : (firstEntries rs).Sublist (rs.zipIdx.map Prod.fst) :=
    List.filter_sublist.map Prod.fst
  rwa [List.zipIdx_map_fst, ← firstPerMember_eq_firstEntries] at hkept

theorem find?_firstPerMember (name : String) (rs : List Recipient) :
    (firstPerMember rs).find? (fun r => r.memberName = name) =
      rs.find? fun r => r.memberName = name := by
  induction rs using List.reverseRecOn with
  | nil => rfl
  | append_singleton rs r ih =>
    rw [firstPerMember_concat, List.find?_append, List.find?_append, ih]
    split
    next hr =>
      -- an earlier entry of the same member is found before the one that is left out
      obtain ⟨s, hs, hname⟩ := List.mem_map.1 hr
      by_cases he : r.memberName = name
      · have hfound : (rs.find? fun r => r.memberName = name).isSome :=
          List.find?_isSome.2 ⟨s, hs, by simpa using hname.trans he⟩
        rw [Option.or_of_isSome hfound, Option.or_of_isSome hfound]
      · rw [List.find?_cons_of_neg (by simpa using he)]
    next => rfl

theorem firstPerMember_of_nodup (hrs : (rs.map memberName).Nodup) : firstPerMember rs = rs := by
  induction rs using List.reverseRecOn with
  | nil => rfl
  | append_singleton rs r ih =>
    rw [List.map_append, List.map_singleton, List.nodup_append] at hrs
    obtain ⟨hbefore, -, hnew⟩ := hrs
    have hr : r.memberName ∉ rs.map memberName := fun hm =>
      hnew _ hm _ (List.mem_singleton_self _) rfl
    rw [firstPerMember_concat, if_neg hr, ih hbefore]

/-- What is kept of a list are the entries that no earlier entry of their member stands before, in
their order and as they were: one for each member, whatever the letter case, and the first one.
Nothing is left out of what was kept, and of two lists behind each other the second adds its own
first entries of the members that the first does not name. -/
theorem first_entries_are_kept (rs a b : List Recipient) :
    firstPerMember rs = firstEntries rs ∧
    (firstPerMember rs).Sublist rs ∧
    (firstPerMember rs).Pairwise
      (fun r s => Text.lowerCase r.identity ≠ Text.lowerCase s.identity) ∧
    (∀ name, (firstPerMember rs).find? (fun r => Text.lowerCase r.identity = name) =
      rs.find? fun r => Text.lowerCase r.identity = name) ∧
    firstPerMember (firstPerMember rs) = firstPerMember rs ∧
    firstPerMember (a ++ b) = firstPerMember a ++ (firstPerMember b).filter fun r =>
      Text.lowerCase r.identity ∉ a.map fun s => Text.lowerCase s.identity :=
  ⟨firstPerMember_eq_firstEntries rs, firstPerMember_sublist rs,
    List.pairwise_map.1 (nodup_memberName [] rs), fun name => find?_firstPerMember name rs,
    firstPerMember_of_nodup (nodup_memberName [] rs), firstPerMember_append a b⟩

end TeamVault.Recipient
