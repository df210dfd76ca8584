import TeamVault.Proofs.Exchange
import TeamVault.Proofs.Lifetime

/-!
Which calls have the same address. Names of organizations, projects and users go into a path as they
are, so a name can go on through what stands behind a shorter name in another path; `Covers` lists
every way of this. Apart from it the method and the address of a request tell the call and its
names, and they always do where no name at the end of a path holds a slash.
-/
namespace TeamVault

theorem Text.append_cases {a b c d : String} (h : a ++ b = c ++ d) :
    (∃ m, c = a ++ m ∧ b = m ++ d) ∨ ∃ m, a = c ++ m ∧ d = m ++ b := by
  have hchars : a.toList ++ b.toList = c.toList ++ d.toList := by
    rw [← String.toList_append, h, String.toList_append]
  have text : ∀ {x y : String} {m : List Char}, x.toList = y.toList ++ m →
      x = y ++ String.ofList m := fun hx => by
    rw [← String.toList_inj, hx, String.toList_append, String.toList_ofList]
  have text' : ∀ {x y : String} {m : List Char}, x.toList = m ++ y.toList →
      x = String.ofList m ++ y := fun hx => by
    rw [← String.toList_inj, hx, String.toList_append, String.toList_ofList]
  obtain ⟨m, hc, hb⟩ | ⟨m, ha, hd⟩ := List.append_eq_append_iff.1 hchars
  · exact .inl ⟨String.ofList m, text hc, text' hb⟩
  · exact .inr ⟨String.ofList m, text ha, text' hd⟩

namespace Endpoint

/-- The name in the first path goes on through what stands behind the name in the second. -/
inductive Covers : Endpoint → Endpoint → Prop
  | memberKeys (o : String) : Covers (getOrganization (o ++ "/members/keys")) (memberKeys o)
  | members (p : String) : Covers (getProject (p ++ "/members")) (projectMembers p)
  | secrets (p : String) : Covers (getProject (p ++ "/secrets")) (pullSecrets p)
  | versions (p : String) : Covers (getProject (p ++ "/secrets/versions")) (listVersions p)
  | access (p m u : String) :
    Covers (revokeAccess (p ++ "/access/" ++ m) u) (revokeAccess p (m ++ "/access/" ++ u))
  | sharedSlash (p u : String) :
    Covers (revokeAccess (p ++ "/access") u) (revokeAccess p ("access/" ++ u))

theorem Covers.same_address {e d : Endpoint} (hc : e.Covers d) :
    e.method = d.method ∧ e.path = d.path := by
  refine ⟨by cases hc <;> rfl, ?_⟩
  cases hc with
  | memberKeys o => exact (String.append_assoc ..).symm
  | members p => exact (String.append_assoc ..).symm
  | secrets p => exact (String.append_assoc ..).symm
  | versions p => exact (String.append_assoc ..).symm
  | access p m u =>
    change "/projects/" ++ (p ++ "/access/" ++ m) ++ "/access/" ++ u =
      "/projects/" ++ p ++ "/access/" ++ (m ++ "/access/" ++ u)
    simp only [String.append_assoc]
  | sharedSlash p u =>
    change "/projects/" ++ (p ++ "/access") ++ "/access/" ++ u =
      "/projects/" ++ p ++ "/access/" ++ ("access/" ++ u)
    simp [← String.toList_inj]

/-- The same call with the same names, or one of two whose paths meet in a name. -/
def IsAlike (e d : Endpoint) : Prop := e = d ∨ e.Covers d ∨ d.Covers e

/-! ### Calls with one name -/

inductive Route
  | getOrganization
  | inviteMember
  | createProject
  | getProject
  | grantAccess
  | projectMembers
  | memberKeys
  | pushSecrets
  | pullSecrets
  | listVersions
  | rollback
  deriving DecidableEq

namespace Route

def endpoint (name : String) : Route → Endpoint
  | getOrganization => .getOrganization name
  | inviteMember => .inviteMember name
  | createProject => .createProject name
  | getProject => .getProject name
  | grantAccess => .grantAccess name
  | projectMembers => .projectMembers name
  | memberKeys => .memberKeys name
  | pushSecrets => .pushSecrets name
  | pullSecrets => .pullSecrets name
  | listVersions => .listVersions name
  | rollback => .rollback name

def area : Route → String
  | getOrganization | inviteMember | createProject | memberKeys => "/organizations/"
  | _ => "/projects/"

def tail : Route → String
  | getOrganization | getProject => ""
  | inviteMember => "/invites"
  | createProject => "/projects"
  | grantAccess => "/access"
  | projectMembers => "/members"
  | memberKeys => "/members/keys"
  | pushSecrets | pullSecrets => "/secrets"
  | listVersions => "/secrets/versions"
  | rollback => "/secrets/rollback"

def method (r : Route) : String := (r.endpoint "").method

theorem method_endpoint (r : Route) (name : String) : (r.endpoint name).method = r.method := by
  cases r <;> rfl

theorem path_endpoint (r : Route) (name : String) :
    (r.endpoint name).path = r.area ++ name ++ r.tail := by
  cases r with
  | getOrganization => exact String.append_empty.symm
  | getProject => exact String.append_empty.symm
  | _ => rfl

def covered : Route → List Route
  | getOrganization => [memberKeys]
  | getProject => [projectMembers, pullSecrets, listVersions]
  | _ => []

theorem mem_covered_of_suffix : ∀ {r s : Route}, r.method = s.method → r.area = s.area →
    r.tail.toList <:+ s.tail.toList → r = s ∨ s ∈ r.covered := by
  intro r s
  cases r <;> cases s <;> decide

theorem covers_of_tail {r s : Route} {name more : String} (hm : r.method = s.method)
    (ha : r.area = s.area) (ht : s.tail = more ++ r.tail) :
    r.endpoint (name ++ more) = s.endpoint name ∨
      (r.endpoint (name ++ more)).Covers (s.endpoint name) := by
  have hsuffix : r.tail.toList <:+ s.tail.toList :=
    ⟨more.toList, by rw [ht, String.toList_append]⟩
  obtain rfl | hs := mem_covered_of_suffix hm ha hsuffix
  · have hmore : "" ++ r.tail = more ++ r.tail := by rwa [String.empty_append]
    obtain rfl : "" = more := (String.append_left_inj _).1 hmore
    exact .inl (by rw [String.append_empty])
  · have hopen : r.tail = "" → more = s.tail := fun he => by rw [ht, he, String.append_empty]
    cases r <;> simp only [covered, List.mem_cons, List.not_mem_nil, or_false] at hs
    all_goals obtain rfl := hopen rfl
    case getOrganization =>
      subst hs
      exact .inr (.memberKeys name)
    case getProject =>
      obtain rfl | rfl | rfl := hs
      · exact .inr (.members name)
      · exact .inr (.secrets name)
      · exact .inr (.versions name)

theorem area_eq_of_path {r s : Route} {m n : String}
    (hp : (r.endpoint m).path = (s.endpoint n).path) : r.area = s.area := by
  have area_cases : ∀ q : Route, q.area = "/organizations/" ∨ q.area = "/projects/" := by
    intro q
    cases q <;> simp [area]
  rw [path_endpoint, path_endpoint] at hp
  have hchars := congrArg String.toList hp
  rcases area_cases r with hr | hr <;> rcases area_cases s with hs | hs
  · rw [hr, hs]
  · simp [hr, hs] at hchars
  · simp [hr, hs] at hchars
  · rw [hr, hs]

theorem same_address {r s : Route} {m n : String}
    (hm : (r.endpoint m).method = (s.endpoint n).method)
    (hp : (r.endpoint m).path = (s.endpoint n).path) :
    (r.endpoint m).IsAlike (s.endpoint n) := by
  have ha := area_eq_of_path hp
  rw [method_endpoint, method_endpoint] at hm
  rw [path_endpoint, path_endpoint, ha, String.append_assoc, String.append_assoc,
    String.append_right_inj] at hp
  obtain ⟨more, rfl, ht⟩ | ⟨more, rfl, ht⟩ := Text.append_cases hp
  · exact (covers_of_tail hm.symm ha.symm ht).elim (fun he => .inl he.symm) fun hc => .inr (.inr hc)
  · exact (covers_of_tail hm ha ht).imp_right .inl

end Route

/-! ### Access entries -/

theorem eq_of_access_split {before behind : List Char}
    (hs : "/access/".toList = before ++ '/' :: behind) :
    before = [] ∨ before = "/access".toList ∧ behind = [] := by
  have hcases := hs
  simp [List.cons_eq_append_iff] at hcases
  grind

theorem covers_of_access {p more u v : String}
    (ht : "/access/" ++ u = more ++ ("/access/" ++ v)) :
    revokeAccess (p ++ more) v = revokeAccess p u ∨
      (revokeAccess (p ++ more) v).Covers (revokeAccess p u) := by
  obtain ⟨m, rfl, rfl⟩ | ⟨m, hm, hu⟩ := Text.append_cases ht
  · rw [← String.append_assoc, ← String.append_assoc]
    exact .inr (.access p m v)
  -- what is left of the fixed part starts with a slash, so it is the whole of it or its last slash
  cases hl : m.toList with
  | nil =>
    obtain rfl := String.toList_eq_nil_iff.1 hl
    rw [String.append_empty] at hm
    rw [String.empty_append] at hu
    have hc := Covers.access p "" v
    rw [String.append_empty, String.empty_append, hu, hm] at hc
    exact .inr hc
  | cons c behind =>
    have hchars := congrArg String.toList hu
    rw [String.toList_append, String.toList_append, hl] at hchars
    obtain rfl : '/' = c := (List.cons.inj hchars).1
    have hsplit := congrArg String.toList hm
    rw [String.toList_append, hl] at hsplit
    obtain hmore | ⟨hmore, rfl⟩ := eq_of_access_split hsplit
    · obtain rfl := String.toList_eq_nil_iff.1 hmore
      rw [String.empty_append] at ht
      rw [String.append_empty, (String.append_right_inj _).1 ht]
      exact .inl rfl
    · obtain rfl := String.toList_inj.1 hmore
      have hv : "access/" ++ v = u := by
        rw [← String.toList_inj, String.toList_append]
        exact (List.cons.inj hchars).2
      rw [← hv]
      exact .inr (.sharedSlash p v)

theorem same_access {p q u v : String}
    (hp : (revokeAccess p u).path = (revokeAccess q v).path) :
    (revokeAccess p u).IsAlike (revokeAccess q v) := by
  change "/projects/" ++ p ++ "/access/" ++ u = "/projects/" ++ q ++ "/access/" ++ v at hp
  simp only [String.append_assoc, String.append_right_inj] at hp
  obtain ⟨more, rfl, ht⟩ | ⟨more, rfl, ht⟩ := Text.append_cases hp
  · exact (covers_of_access ht).elim (fun he => .inl he.symm) fun hc => .inr (.inr hc)
  · exact (covers_of_access ht).imp_right .inl

/-! ### All calls -/

def IsFixed (e : Endpoint) : Prop :=
  e ∈ [register, login, currentUser, createOrganization, listOrganizations, listProjects]

theorem sorts (e : Endpoint) :
    e.IsFixed ∨ (∃ (r : Route) (name : String), e = r.endpoint name) ∨
      ∃ p u, e = revokeAccess p u := by
  cases e with
  | getOrganization o => exact .inr (.inl ⟨.getOrganization, o, rfl⟩)
  | inviteMember o => exact .inr (.inl ⟨.inviteMember, o, rfl⟩)
  | createProject o => exact .inr (.inl ⟨.createProject, o, rfl⟩)
  | getProject p => exact .inr (.inl ⟨.getProject, p, rfl⟩)
  | grantAccess p => exact .inr (.inl ⟨.grantAccess, p, rfl⟩)
  | projectMembers p => exact .inr (.inl ⟨.projectMembers, p, rfl⟩)
  | memberKeys o => exact .inr (.inl ⟨.memberKeys, o, rfl⟩)
  | pushSecrets p => exact .inr (.inl ⟨.pushSecrets, p, rfl⟩)
  | pullSecrets p => exact .inr (.inl ⟨.pullSecrets, p, rfl⟩)
  | listVersions p => exact .inr (.inl ⟨.listVersions, p, rfl⟩)
  | rollback p => exact .inr (.inl ⟨.rollback, p, rfl⟩)
  | revokeAccess p u => exact .inr (.inr ⟨p, u, rfl⟩)
  | _ => exact .inl (by simp [IsFixed])

theorem path_ne_of_fixed {e : Endpoint} (he : e.IsFixed) (r : Route) (name : String) :
    e.path ≠ (r.endpoint name).path := by
  have outside : ∀ q : Route, ¬ q.area.toList <+: e.path.toList := by
    simp only [IsFixed, List.mem_cons, List.not_mem_nil, or_false] at he
    intro q
    rcases he with rfl | rfl | rfl | rfl | rfl | rfl <;> cases q <;> decide
  intro hp
  refine outside r ⟨name.toList ++ r.tail.toList, ?_⟩
  rw [hp, Route.path_endpoint, String.toList_append, String.toList_append, List.append_assoc]

theorem eq_revokeAccess {e : Endpoint} (hm : e.method = "DELETE") :
    ∃ p u, e = revokeAccess p u := by
  cases e with
  | revokeAccess p u => exact ⟨p, u, rfl⟩
  | _ => simp [method] at hm

theorem eq_of_fixed {e d : Endpoint} (he : e.IsFixed) (hd : d.IsFixed)
    (hm : e.method = d.method) (hp : e.path = d.path) : e = d := by
  simp only [IsFixed, List.mem_cons, List.not_mem_nil, or_false] at he hd
  rcases he with rfl | rfl | rfl | rfl | rfl | rfl <;>
    rcases hd with rfl | rfl | rfl | rfl | rfl | rfl <;>
      first
        | rfl
        | exact absurd hm (by decide)
        | exact absurd hp (by decide)

theorem IsAlike.same_address {e d : Endpoint} (h : e.IsAlike d) :
    e.method = d.method ∧ e.path = d.path := by
  obtain rfl | hc | hc := h
  · exact ⟨rfl, rfl⟩
  · exact hc.same_address
  · exact ⟨hc.same_address.1.symm, hc.same_address.2.symm⟩

/-- Two calls have the same method and path exactly where they are alike. -/
theorem same_address_iff {e d : Endpoint} :
    e.method = d.method ∧ e.path = d.path ↔ e.IsAlike d := by
  refine ⟨fun ⟨hm, hp⟩ => ?_, IsAlike.same_address⟩
  obtain he | ⟨r, m, rfl⟩ | ⟨p, u, rfl⟩ := sorts e
  · obtain hd | ⟨s, n, rfl⟩ | ⟨q, v, rfl⟩ := sorts d
    · exact .inl (eq_of_fixed he hd hm hp)
    · exact absurd hp (path_ne_of_fixed he s n)
    · obtain ⟨p, u, rfl⟩ := eq_revokeAccess hm
      exact same_access hp
  · obtain hd | ⟨s, n, rfl⟩ | ⟨q, v, rfl⟩ := sorts d
    · exact absurd hp.symm (path_ne_of_fixed hd r m)
    · exact Route.same_address hm hp
    · obtain ⟨p, u, he⟩ := eq_revokeAccess hm
      rw [he] at hp ⊢
      exact same_access hp
  · obtain ⟨q, v, rfl⟩ := eq_revokeAccess hm.symm
    exact same_access hp

def lastName? : Endpoint → Option String
  | getOrganization o => some o
  | getProject p => some p
  | revokeAccess _ u => some u
  | _ => none

/-- No name at the end of the path holds a slash. -/
def EndsPlain (e : Endpoint) : Prop := ∀ name ∈ e.lastName?, '/' ∉ name.toList

instance (e : Endpoint) : Decidable e.EndsPlain :=
  inferInstanceAs (Decidable (∀ name ∈ e.lastName?, _))

theorem Covers.not_plain {e d : Endpoint} (hc : e.Covers d) (he : e.EndsPlain)
    (hd : d.EndsPlain) : False := by
  have slash : ∀ {name : String}, '/' ∈ name.toList →
      (e.lastName? = some name ∨ d.lastName? = some name) → False := fun hm hn =>
    hn.elim (fun h => he _ h hm) fun h => hd _ h hm
  cases hc with
  | memberKeys o => exact slash (by simp) (.inl rfl)
  | members p => exact slash (by simp) (.inl rfl)
  | secrets p => exact slash (by simp) (.inl rfl)
  | versions p => exact slash (by simp) (.inl rfl)
  | access p m u => exact slash (by simp) (.inr rfl)
  | sharedSlash p u => exact slash (by simp) (.inr rfl)

theorem IsAlike.eq_of_plain {e d : Endpoint} (h : e.IsAlike d) (he : e.EndsPlain)
    (hd : d.EndsPlain) : e = d := by
  obtain rfl | hc | hc := h
  · rfl
  · exact (hc.not_plain he hd).elim
  · exact (hc.not_plain hd he).elim

end Endpoint

/-! ### Calls -/

inductive NamingCall
  | getOrganization (organization : String)
  | inviteMember (organization email role : String)
  | createProject (organization name slug description : String)
  | getProject (project : String)
  | grantAccess (project email permission : String)
  | revokeAccess (project user : String)
  | members (project : String)
  | memberKeys (organization : String)
  | push (project : String) (e : Environment) (ciphertext : Bytes) (format : SecretFormat)
      (metadata : Json.Fields)
  | pull (project : String) (e : Environment)
  | versions (project : String) (e : Environment)
  | rollback (project id : String)

theorem World.sent_injective {w : World} {q r : Request} (hs : w.sent q = w.sent r) : q = r := by
  have hevents := congrArg World.events hs
  simp only [World.sent_events, List.append_cancel_left_eq, List.cons.injEq, and_true,
    Event.request.injEq] at hevents
  exact congrArg Request.Sent.toRequest hevents

namespace NamingCall

def endpoint : NamingCall → Endpoint
  | getOrganization o => .getOrganization o
  | inviteMember o _ _ => .inviteMember o
  | createProject o _ _ _ => .createProject o
  | getProject p => .getProject p
  | grantAccess p _ _ => .grantAccess p
  | revokeAccess p u => .revokeAccess p u
  | members p => .projectMembers p
  | memberKeys o => .memberKeys o
  | push p _ _ _ _ => .pushSecrets p
  | pull p _ => .pullSecrets p
  | versions p _ => .listVersions p
  | rollback p _ => .rollback p

def perform (c : Client) : NamingCall → Action Unit
  | getOrganization o => do let _ ← c.getOrganization o
  | inviteMember o email role => do let _ ← c.inviteMember o email role
  | createProject o name slug description => do let _ ← c.createProject o name slug description
  | getProject p => do let _ ← c.getProject p
  | grantAccess p email permission => do let _ ← c.grantAccess p email permission
  | revokeAccess p u => do let _ ← c.revokeAccess p u
  | members p => do let _ ← Roster.ofProject c p
  | memberKeys o => do let _ ← Roster.ofOrganization c o
  | push p e ciphertext format metadata => do
    let _ ← VersionStore.push c p e ciphertext format metadata
  | pull p e => do let _ ← VersionStore.pull c p e
  | versions p e => do let _ ← VersionStore.versions c p e
  | rollback p id => do let _ ← VersionStore.rollback c p id

/-- A push of bytes that are no text; it sends nothing. -/
def IsUnsendable : NamingCall → Prop
  | push _ _ ciphertext _ _ => Text.Utf8.decode? ciphertext = none
  | _ => False

def Sends (x : NamingCall) (c : Client) (h : Host) (w : World) (q : Request) : Prop :=
  (x.perform c h w).2 = w.sent q

variable {c : Client} {x y : NamingCall} {h g : Host} {w v : World} {q r : Request}

theorem sent_of_call {α : Type} {e : Endpoint} {body params : Option Json} {k : Json → Action α}
    (hk : ∀ v w', (k v h w').2 = w') :
    ∃ q, (((c.call e body params >>= k) >>= fun _ => (pure () : Action Unit)) h w).2 = w.sent q ∧
      q.IsTo c e := by
  refine ⟨c.asking e body params, ?_, rfl, rfl⟩
  rw [Action.bind_of_pure fun _ _ => rfl, Action.bind_apply, Client.call_apply]
  cases c.reading e.method e.path (h.respond w.events (c.asking e body params)) with
  | error f => rfl
  | ok v => exact hk v _

theorem sends_or_unsendable (x : NamingCall) (c : Client) (h : Host) (w : World) :
    (∃ q, x.Sends c h w q ∧ q.IsTo c x.endpoint) ∨ x.IsUnsendable ∧ (x.perform c h w).2 = w := by
  cases x with
  | push p e ciphertext format metadata =>
    cases hd : Text.Utf8.decode? ciphertext with
    | none =>
      refine .inr ⟨hd, ?_⟩
      rw [perform, Action.bind_of_error (VersionStore.push_of_no_text c p e h w format metadata hd)]
    | some text =>
      refine .inl ⟨VersionStore.delivery c p e format metadata text, ?_,
        VersionStore.delivery_isTo c p e format metadata text⟩
      rw [Sends, perform, Action.bind_of_pure fun _ _ => rfl,
        VersionStore.push_of_text c p e h w format metadata hd]
  | versions p e =>
    refine .inl (sent_of_call fun v w' => ?_)
    rw [Action.bind_of_pure fun _ _ => rfl]
    rfl
  | _ => exact .inl (sent_of_call fun _ _ => rfl)

theorem Sends.isTo (hx : x.Sends c h w q) : q.IsTo c x.endpoint := by
  obtain ⟨r, hr, hto⟩ | ⟨-, hnothing⟩ := x.sends_or_unsendable c h w
  · exact World.sent_injective (hr.symm.trans hx) ▸ hto
  · have hevents : w.events = (w.sent q).events := by rw [← hx, hnothing]
    simp at hevents

/-- Two calls with the same method and address are the same call with the same names, or one of them
covers the other. Where no name at the end of their paths holds a slash, they are the same. -/
theorem address_tells_call (hx : x.Sends c h w q) (hy : y.Sends c g v r) :
    (q.method = r.method ∧ q.url = r.url ↔
      x.endpoint = y.endpoint ∨ x.endpoint.Covers y.endpoint ∨ y.endpoint.Covers x.endpoint) ∧
    (x.endpoint.EndsPlain → y.endpoint.EndsPlain → q.method = r.method → q.url = r.url →
      x.endpoint = y.endpoint) := by
  have hq := hx.isTo
  have hr := hy.isTo
  have hurl : q.url = r.url ↔ x.endpoint.path = y.endpoint.path := by
    rw [hq.2, hr.2]
    exact ⟨Client.url_inj, congrArg c.url⟩
  have halike : q.method = r.method ∧ q.url = r.url ↔ x.endpoint.IsAlike y.endpoint := by
    rw [hq.1, hr.1, hurl]
    exact Endpoint.same_address_iff
  exact ⟨halike, fun hpx hpy hm hu => (halike.1 ⟨hm, hu⟩).eq_of_plain hpx hpy⟩

/-- Plain names keep a project and its members apart. -/
theorem project_apart_from_members :
    ∃ q r, (getProject "p").Sends Desk.client Desk.host Desk.world q ∧
      (members "p").Sends Desk.client Desk.host Desk.world r ∧
      ¬ (q.method = r.method ∧ q.url = r.url) := by
  have hx : (getProject "p").Sends Desk.client Desk.host Desk.world
      (Desk.client.asking (.getProject "p") none none) := rfl
  have hy : (members "p").Sends Desk.client Desk.host Desk.world
      (Roster.question Desk.client "p") := rfl
  refine ⟨_, _, hx, hy, fun hs => ?_⟩
  have hsame := (address_tells_call hx hy).2 (by decide) (by decide) hs.1 hs.2
  cases hsame

/-- A name with a slash asks for the members of another project, and another one removes the access
of a member of another project. -/
theorem slash_reaches_other_call :
    (∃ q r, (getProject "p/members").Sends Desk.client Desk.host Desk.world q ∧
      (members "p").Sends Desk.client Desk.host Desk.world r ∧
      q.method = r.method ∧ q.url = r.url ∧
      (getProject "p/members").endpoint ≠ (members "p").endpoint) ∧
    ∃ q r, (revokeAccess "p/access/m" "u").Sends Desk.client Desk.host Desk.world q ∧
      (revokeAccess "p" "m/access/u").Sends Desk.client Desk.host Desk.world r ∧
      q.method = r.method ∧ q.url = r.url ∧
      (revokeAccess "p/access/m" "u").endpoint ≠ (revokeAccess "p" "m/access/u").endpoint :=
  ⟨⟨_, _, rfl, rfl, rfl, by decide, by decide⟩, _, _, rfl, rfl, rfl, by decide, by decide⟩

end NamingCall

end TeamVault
