import TeamVault.Proofs.LocalState
import TeamVault.Proofs.Secrecy

/-!
Who may call the service. A command of a logged-in user finds the stored session before it acts, and
all that it sends is sent under that session to the address of the service. Commands that open a
session send nothing that is stored.
-/
namespace TeamVault

open TeamVault.Action (IsSilent IsIdle Emits Finds still)

namespace Command

variable {α β : Type} {v : Values}

def IsAuthenticated (h : Host) (t : Tree) (v : Values) (x : Session) (c : Client) : Prop :=
  ∃ home url timeout, HomeIs h v home ∧ Credentials.Holds h t home x ∧
    ServiceAddress h t home url ∧ c = .make url (some x.accessToken) timeout

theorem HomeIs.unique {h : Host} {home home' : Path} (hp : HomeIs h v home)
    (hp' : HomeIs h v home') : home' = home := by
  obtain ⟨p, hp, hhome⟩ := hp
  obtain ⟨p', hp', hhome'⟩ := hp'
  obtain rfl : p' = p := Option.some.inj (hp'.symm.trans hp)
  exact Option.some.inj (hhome'.symm.trans hhome)

theorem isAuthenticated_of_loaded {h : Host} {t : Tree} {q : Path} {s : ClientSettings}
    {x : Session} (hq : (Path.ofText (v.text "home")).expandHome? h.home = some q)
    (hs : ∃ home, q.expandHome? h.home = some home ∧ ServiceAddress h t home s.apiUrl)
    (hx : ∃ home, q.expandHome? h.home = some home ∧ Credentials.Holds h t home x) :
    IsAuthenticated h t v x (.ofSettings s (some x)) := by
  obtain ⟨home, hhome, haddress⟩ := hs
  obtain ⟨home', hhome', hholds⟩ := hx
  obtain rfl : home' = home := Option.some.inj (hhome'.symm.trans hhome)
  exact ⟨home', s.apiUrl, s.timeout, ⟨q, hq, hhome⟩, hholds, haddress, rfl⟩

theorem client_finds (v : Values) :
    (client v).Finds fun h t c => ∃ x, IsAuthenticated h t v x c := by
  refine (Finds.expandHome _).bind fun q => ?_
  refine (SettingsFile.load_finds q).bind fun s => (Credentials.load_finds q).bind fun x => ?_
  exact .pure fun h t hx hs hq => ⟨x, isAuthenticated_of_loaded hq hs hx⟩

theorem secrets_finds (v : Values) :
    (secrets v).Finds fun h t s => ∃ x, IsAuthenticated h t v x s.client := by
  refine (Finds.expandHome _).bind fun q => ?_
  have hload : (Context.load (some q) none).Finds fun h t c =>
      (Path.ofText (v.text "home")).expandHome? h.home = some q →
        IsAuthenticated h t v c.session (.ofSettings c.settings (some c.session)) := by
    refine (Finds.of_idle (BindingFile.load_isIdle none)).bind fun binding => ?_
    refine (SettingsFile.load_finds q).bind fun s => (Credentials.load_finds q).bind fun x => ?_
    exact .pure fun h t hx hs _ hq => isAuthenticated_of_loaded hq hs hx
  have hmake : ∀ s : ClientSettings, (Sops.Tool.make s.sopsBinary (some s.keyFile)
      Sops.Tool.defaultTimeout).IsIdle := fun s => .bind (.expandHome _) fun _ => .pure _
  refine hload.bind fun c => (Finds.of_idle (hmake c.settings)).bind fun tool => ?_
  exact .pure fun h t _ hc hq => ⟨c.session, hc hq⟩

/-- A step that fails before it acts, or else acts for the stored session only. -/
def IsGated (v : Values) (a : Action α) : Prop := ∀ h w,
  (∃ f, (a h w).1 = .error f ∧ still (a h w).2 = still w) ∨
    ∃ x c, IsAuthenticated h w.files v x c ∧ Emitted (Event.IsFrom c) w (a h w).2

namespace IsGated

theorem fail (f : Failure) : IsGated v (Action.fail f : Action α) := fun _ _ => .inl ⟨f, rfl, rfl⟩

theorem bind {a : Action α} {k : α → Action β} (ha : a.IsIdle) (hk : ∀ x, IsGated v (k x)) :
    IsGated v (a >>= k) := by
  intro h w
  have hidle := ha h w
  rw [Action.bind_apply]
  rcases hr : a h w with ⟨f | x, u⟩
  · rw [hr] at hidle
    exact .inl ⟨f, rfl, hidle⟩
  · rw [hr] at hidle
    obtain ⟨f, hf, hstill⟩ | ⟨y, c, hc, hemitted⟩ := hk x h u
    · exact .inl ⟨f, hf, hstill.trans hidle⟩
    · rw [Action.files_of_still hidle] at hc
      exact .inr ⟨y, c, hc, .trans (.of_events (Action.events_of_still hidle)) hemitted⟩

theorem of_finds {a : Action β} {g : β → Client} {k : β → Action α}
    (ha : a.Finds fun h t y => ∃ x, IsAuthenticated h t v x (g y))
    (hk : ∀ y, (k y).Emits (Event.IsFrom (g y))) : IsGated v (a >>= k) := by
  intro h w
  have hidle := ha.idle h w
  rw [Action.bind_apply]
  rcases hr : a h w with ⟨f | y, u⟩
  · rw [hr] at hidle
    exact .inl ⟨f, rfl, hidle⟩
  · rw [hr] at hidle
    obtain ⟨x, hx⟩ := ha.value h w y u hr
    exact .inr ⟨x, g y, hx, .trans (.of_events (Action.events_of_still hidle)) (hk y h u)⟩

theorem client {k : Client → Action α} (hk : ∀ c, (k c).Emits (Event.IsFrom c)) :
    IsGated v (Command.client v >>= k) :=
  of_finds (client_finds v) hk

theorem secrets {k : TeamVault.Secrets → Action α}
    (hk : ∀ s, (k s).Emits (Event.IsFrom s.client)) : IsGated v (Command.secrets v >>= k) :=
  of_finds (secrets_finds v) hk

end IsGated

open Console (print_isIdle print_then printOpen_isIdle printTable_isIdle)

variable (v)

theorem listed_isIdle {p : Prop} [Decidable p] (note title : String) (header : List String)
    (rows : List (List String)) :
    (if p then Console.print note else Console.printTable title header rows).IsIdle := by
  split
  · exact print_isIdle note
  · exact printTable_isIdle title header rows

theorem localKey_isIdle (file : Path) : (Auth.localKey? file).IsIdle := by
  refine .recover (.bind (KeyFile.publicKey_isIdle file) fun _ => .pure _) fun f => ?_
  split
  · split
    · exact .pure none
    · exact .ofResult _
  · exact .ofResult _

theorem whoami_isGated : IsGated v (Auth.whoami.run v) := by
  refine .client fun c => ?_
  refine .bind (Client.ask_emits _ _ _ _ _) fun user => .idle ?_
  refine print_then (print_then (print_then (print_then (print_then ?_))))
  refine .bind (.expandHome _) fun q => ?_
  refine .bind (SettingsFile.load_finds q).idle fun settings => ?_
  refine .bind (localKey_isIdle _) fun key => ?_
  cases key with
  | none =>
    refine .bind (.expandHome _) fun file => ?_
    exact print_then (print_isIdle _)
  | some key =>
    dsimp only
    split
    · exact print_then (print_isIdle _)
    · exact print_isIdle _

theorem org_create_isGated : IsGated v (Org.create.run v) := by
  refine .client fun c => ?_
  refine .bind (Client.ask_emits _ _ _ _ _) fun created => .idle ?_
  exact print_then (print_isIdle _)

theorem org_list_isGated : IsGated v (Org.list.run v) := by
  refine .client fun c => ?_
  exact .bind (Client.ask_emits _ _ _ _ _) fun all => .idle (listed_isIdle _ _ _ _)

theorem org_members_isGated : IsGated v (Org.members.run v) := by
  refine .client fun c => ?_
  exact .bind (Client.ask_emits _ _ _ _ _) fun all => .idle (listed_isIdle _ _ _ _)

theorem org_invite_isGated : IsGated v (Org.invite.run v) := by
  refine .client fun c => ?_
  refine .bind (.bind (Client.call_emits _ _ _) fun _ => .pure _) fun _ => .idle ?_
  exact print_isIdle _

theorem project_create_isGated : IsGated v (Project.create.run v) := by
  refine .client fun c => ?_
  refine .bind (Client.ask_emits _ _ _ _ _) fun created => .idle ?_
  exact print_then (print_isIdle _)

theorem project_list_isGated : IsGated v (Project.list.run v) := by
  refine .client fun c => ?_
  exact .bind (Client.ask_emits _ _ _ _ _) fun all => .idle (listed_isIdle _ _ _ _)

theorem project_init_isGated : IsGated v (Project.init.run v) := by
  refine .bind (BindingFile.isThere_isIdle none) fun there => ?_
  cases there with
  | true => exact .bind (BindingFile.path_isIdle none) fun p => .fail _
  | false =>
    refine .client fun c => ?_
    refine .bind (Client.ask_emits _ _ _ _ _) fun remote => ?_
    refine .bind (Client.ask_emits _ _ _ _ _) fun organization => ?_
    refine .bind (.of_silent (BindingFile.save_isSilent _ _)) fun path => .idle ?_
    exact print_then (print_then (print_then (print_then (print_then (print_isIdle _)))))

theorem projectOr_isIdle (given : Option String) : (Project.projectOr given).IsIdle := by
  cases given with
  | none => exact .bind (BindingFile.load_isIdle none) fun _ => .pure _
  | some p => exact .pure p

theorem project_members_isGated : IsGated v (Project.members.run v) := by
  refine .bind (projectOr_isIdle _) fun project => .client fun c => ?_
  refine .bind (Client.ask_emits _ _ _ _ _) fun all => .idle ?_
  split
  · exact print_isIdle _
  · refine .bind (printTable_isIdle _ _ _) fun _ => ?_
    split
    · exact print_isIdle _
    · exact .pure ()

theorem grant_isGated : IsGated v (Project.grant.run v) := by
  refine .bind (BindingFile.load_isIdle none) fun b => .client fun c => ?_
  refine .bind (.bind (Client.call_emits _ _ _) fun _ => .pure _) fun _ => .idle ?_
  exact print_then (print_isIdle _)

theorem revoke_isGated : IsGated v (Project.revoke.run v) := by
  refine .bind (BindingFile.load_isIdle none) fun b => .client fun c => ?_
  refine .bind (.bind (Client.call_emits _ _ _) fun _ => .pure _) fun _ => .idle ?_
  exact print_then (print_isIdle _)

theorem push_isGated : IsGated v (Secrets.push.run v) := by
  refine .secrets fun s => ?_
  refine .bind (.idle (printOpen_isIdle _)) fun _ => ?_
  refine .bind (s.push_emits _ _ _) fun version => .idle ?_
  exact print_then (print_then (print_then (print_isIdle _)))

theorem pull_isGated : IsGated v (Secrets.pull.run v) := by
  refine .secrets fun s => ?_
  refine .bind (.idle (printOpen_isIdle _)) fun _ => ?_
  refine .bind (s.pull_emits _ _) fun pulled => .idle ?_
  refine print_then (print_then (print_then ?_))
  dsimp only
  split
  · exact print_then (print_isIdle _)
  · exact print_isIdle _

theorem sync_isGated : IsGated v (Secrets.sync.run v) := by
  refine .secrets fun s => ?_
  refine .bind (s.sync_emits _ _) fun synced => .idle ?_
  dsimp only
  split
  · exact print_then (print_isIdle _)
  · exact print_then (print_isIdle _)

theorem list_isGated : IsGated v (Secrets.list.run v) := by
  refine .secrets fun s => ?_
  exact .bind (s.versions_emits _) fun all => .idle (listed_isIdle _ _ _ _)

theorem rollback_isGated : IsGated v (Secrets.rollback.run v) := by
  refine .secrets fun s => ?_
  exact .bind (s.rollback_emits _) fun version => .idle (print_isIdle _)

theorem rotate_isGated : IsGated v (Secrets.rotate.run v) := by
  refine .secrets fun s => ?_
  refine .bind (.idle (printOpen_isIdle _)) fun _ => ?_
  refine .bind (s.rotate_emits _) fun r => .idle ?_
  split
  · exact print_then (print_then (print_then (print_isIdle _)))
  · exact print_isIdle _

def serviceCommands : List Command :=
  [Auth.whoami] ++ Org.commands ++ [Project.create, Project.list, Project.init, Project.members,
    Project.grant, Project.revoke] ++ Secrets.commands

theorem isGated_of_mem {c : Command} (hc : c ∈ serviceCommands) : IsGated v (c.run v) := by
  simp only [serviceCommands, Org.commands, Secrets.commands, List.mem_append, List.mem_cons,
    List.not_mem_nil, or_false] at hc
  obtain ((rfl | rfl | rfl | rfl | rfl) | rfl | rfl | rfl | rfl | rfl | rfl) |
    rfl | rfl | rfl | rfl | rfl | rfl := hc
  · exact whoami_isGated v
  · exact org_create_isGated v
  · exact org_list_isGated v
  · exact org_members_isGated v
  · exact org_invite_isGated v
  · exact project_create_isGated v
  · exact project_list_isGated v
  · exact project_init_isGated v
  · exact project_members_isGated v
  · exact grant_isGated v
  · exact revoke_isGated v
  · exact push_isGated v
  · exact pull_isGated v
  · exact sync_isGated v
  · exact list_isGated v
  · exact rollback_isGated v
  · exact rotate_isGated v

/-! ### How commands end -/

variable {v} {h : Host} {w : World} {c : Command}

theorem report_isIdle (f : Fault) : (report f).IsIdle := by
  refine print_then ?_
  split
  · exact print_then (print_isIdle _)
  · exact print_isIdle _

theorem ending_isIdle (code : Int) (cause : Option Cause) : (ending code cause).IsIdle :=
  .bind .world fun _ => .pure _

theorem runSettled_still : still (runSettled c v h w).2 = still (c.run v h w).2 := by
  unfold runSettled
  rw [Action.recover_apply, Action.bind_apply]
  rcases c.run v h w with ⟨f | x, u⟩
  · cases f with
    | crash e => rfl
    | fault g => exact Action.Leaves.bind (report_isIdle g) (fun _ => ending_isIdle 1 g.cause) h u
  · rfl

theorem code_of_runSettled {f : Failure} {u : World} {e : Ending}
    (hf : c.run v h w = (.error f, u)) (he : (runSettled c v h w).1 = .ok e) : e.code = 1 := by
  unfold runSettled at he
  rw [Action.recover_apply, Action.bind_of_error hf] at he
  -- A fault is reported first, and that may break down as well.
  cases f with
  | crash e => cases he
  | fault g =>
    change ((report g >>= fun _ => ending 1 g.cause) h u).1 = .ok e at he
    rw [Action.bind_apply] at he
    rcases hr : report g h u with ⟨f | x, t⟩
    · rw [hr] at he
      cases he
    · rw [hr] at he
      cases he
      rfl

/-- The program ends with code 1 or breaks down, having done nothing. -/
def IsRefused (w : World) (r : Except Failure Ending × World) : Prop :=
  (∀ e, r.1 = .ok e → e.code = 1) ∧ r.2.files = w.files ∧ r.2.events = w.events

def HasSession (h : Host) (t : Tree) (v : Values) (x : Session) : Prop :=
  ∃ home, HomeIs h v home ∧ Credentials.Holds h t home x

def served (url : String) (e : Endpoint) : String :=
  String.ofList (Text.dropEndWhile (· == '/') url.toList) ++ "/api/v1" ++ e.path

def contentHeader : String × String := ("Content-Type", "application/json")

def bearing (token : String) : List (String × String) :=
  contentHeader :: if token = "" then [] else [("Authorization", "Bearer " ++ token)]

def IsUnder (h : Host) (t : Tree) (v : Values) (x : Session) (r : Request.Sent) : Prop :=
  (∃ home url e, HomeIs h v home ∧ ServiceAddress h t home url ∧ r.url = served url e) ∧
    r.headers = bearing x.accessToken

theorem HasSession.unique {t : Tree} {x y : Session} (hx : HasSession h t v x)
    (hy : HasSession h t v y) : y = x := by
  obtain ⟨home, hhome, hx⟩ := hx
  obtain ⟨home', hhome', hy⟩ := hy
  obtain rfl := hhome.unique hhome'
  exact hx.unique hy

theorem IsAuthenticated.hasSession {t : Tree} {x : Session} {c : Client}
    (hc : IsAuthenticated h t v x c) : HasSession h t v x := by
  obtain ⟨home, url, timeout, hhome, hx, -, -⟩ := hc
  exact ⟨home, hhome, hx⟩

theorem IsAuthenticated.isUnder {t : Tree} {x : Session} {c : Client}
    (hc : IsAuthenticated h t v x c) {e : Event} (he : e.IsFrom c) :
    e.IfRequest (IsUnder h t v x) := by
  obtain ⟨home, url, timeout, hhome, -, haddress, rfl⟩ := hc
  cases e with
  | run r => trivial
  | request r =>
    obtain ⟨e, body, params, hr⟩ := he
    refine ⟨⟨home, url, e, hhome, haddress, congrArg Request.url hr⟩, ?_⟩
    exact congrArg Request.headers hr

theorem IsGated.refused (hc : IsGated v (c.run v)) (hx : ∀ x, ¬ HasSession h w.files v x) :
    IsRefused w (runSettled c v h w) := by
  obtain ⟨f, hf, hstill⟩ | ⟨x, client, hclient, -⟩ := hc h w
  · have hs := runSettled_still.trans hstill
    refine ⟨fun e he => ?_, Action.files_of_still hs, Action.events_of_still hs⟩
    exact code_of_runSettled (Prod.ext hf rfl) he
  · exact absurd hclient.hasSession (hx x)

theorem IsGated.emitted (hc : IsGated v (c.run v)) {x : Session} (hx : HasSession h w.files v x) :
    Emitted (Event.IfRequest (IsUnder h w.files v x)) w (runSettled c v h w).2 := by
  have hstill := runSettled_still (c := c) (v := v) (h := h) (w := w)
  obtain ⟨f, -, hs⟩ | ⟨y, client, hclient, hemitted⟩ := hc h w
  · exact .of_events (Action.events_of_still (hstill.trans hs))
  · obtain rfl := hx.unique hclient.hasSession
    have hunder := hemitted.mono fun e => hclient.isUnder
    exact hunder.trans (.of_events (Action.events_of_still hstill))

/-! ### Commands that open a session -/

inductive OpeningAddress (h : Host) (t : Tree) (v : Values) : String → Prop
  | given {url : String} (hu : v.text? "api-url" = some url) (hne : url ≠ "") :
    OpeningAddress h t v url
  | stored {home : Path} {url : String}
    (hu : v.text? "api-url" = none ∨ v.text? "api-url" = some "") (hhome : HomeIs h v home)
    (haddress : ServiceAddress h t home url) : OpeningAddress h t v url

/-- A request that opens a session. It tells `body`, and nobody's token. -/
structure IsOpening (h : Host) (v : Values) (e : Endpoint) (body : Json) (r : Request.Sent) :
    Prop where
  address : ∃ url, OpeningAddress h r.files v url ∧ r.url = served url e
  method : r.method = "POST"
  headers : r.headers = [contentHeader]
  body : r.body = some body
  params : r.params = none

theorem openClient_finds (v : Values) : (Auth.openClient v).Finds fun h t c =>
    ∃ url timeout, OpeningAddress h t v url ∧ c = .make url none timeout := by
  refine (Finds.expandHome _).bind fun q => ?_
  refine (SettingsFile.load_finds q).bind fun settings => .pure fun h t hsettings hq => ?_
  obtain ⟨home, hhome, haddress⟩ := hsettings
  have hstored := fun hu => OpeningAddress.stored (v := v) hu ⟨q, hq, hhome⟩ haddress
  unfold filled?
  cases hu : v.text? "api-url" with
  | none => exact ⟨settings.apiUrl, settings.timeout, hstored (.inl hu), rfl⟩
  | some url =>
    by_cases hne : url = ""
    · subst hne
      exact ⟨settings.apiUrl, settings.timeout, hstored (.inr hu), rfl⟩
    · rw [Option.filter_some, if_pos (decide_eq_true hne)]
      exact ⟨url, settings.timeout, .given hu hne, rfl⟩

theorem openClient_sends {γ : Type} {e : Endpoint} (hmethod : e.method = "POST") (body : Json)
    (what : String) (p : Json → Payload γ) {rest : γ → Action α}
    (hrest : ∀ x, (rest x).IsSilent) (h : Host) (w : World) :
    Emitted (Event.IfRequest (IsOpening h v e body)) w
      ((Auth.openClient v >>= fun c => (c.call e (some body) >>= fun j =>
        Client.understand what (p j)) >>= rest) h w).2 := by
  have hfinds := openClient_finds v
  refine Action.emitted_bind (.of_events (hfinds.idle.silent h w)) fun c u hr => ?_
  obtain ⟨url, timeout, haddress, rfl⟩ := hfinds.value h w c u hr
  rw [← Action.files_of_still (Action.still_of_ok hfinds.idle hr)] at haddress
  refine (Client.asked_once e (some body) none what p hrest h u).mono fun d hd => ?_
  subst hd
  exact ⟨⟨url, haddress, rfl⟩, hmethod, rfl, rfl, rfl⟩

def loginBody (v : Values) : Json :=
  .object [("email", .text (v.text "email")), ("password", .text (v.text "password"))]

def registerBody (v : Values) (k : Keypair) : Json :=
  .object [("email", .text (v.text "email")), ("password", .text (v.text "password")),
    ("name", .text (v.text "name")), ("age_public_key", .text k.publicKey)]

theorem login_sends (h : Host) (w : World) :
    Emitted (Event.IfRequest (IsOpening h v .login (loginBody v))) w (Auth.login.run v h w).2 := by
  refine openClient_sends rfl (loginBody v) "authentication" Client.authResult (fun x => ?_) h w
  refine .bind (.expandHome _) fun q => ?_
  refine .bind (Credentials.save_isSilent _ _) fun _ => ?_
  exact .bind (print_isIdle _).silent fun _ => (print_isIdle _).silent

def IsGenerated (h : Host) (before : List Event) (k : Keypair) : Prop :=
  ∃ output diagnostics, h.execute before ⟨Keypair.generatorName, [], Keypair.generatorTimeout, none,
    []⟩ = .exited 0 output diagnostics ∧ k.IsTold output diagnostics

theorem outputText_finds (bs : Bytes) :
    (Keypair.outputText bs).Finds fun _ _ s => ∃ told, Text.Utf8.decode? bs = some told ∧
      s = Text.unifyBreaks told := by
  unfold Keypair.outputText
  cases hd : Text.Utf8.decode? bs with
  | none => exact .fail _
  | some told => exact .pure fun _ _ => ⟨told, rfl, rfl⟩

theorem generate_cases (h : Host) (w : World) :
    Emitted (Event.IfRequest fun _ => False) w (Keypair.generate Keypair.generatorName h w).2 ∧
      ∀ k, (Keypair.generate Keypair.generatorName h w).1 = .ok k → IsGenerated h w.events k := by
  unfold Keypair.generate
  rw [Action.bind_of_ok Action.host_apply]
  split
  · rw [Action.bind_of_ok (rfl : Action.execute _ h w = (.ok _, _))]
    generalize ho : h.execute w.events ⟨Keypair.generatorName, [], Keypair.generatorTimeout, none,
      []⟩ = o
    -- The run is the only event, and what follows only reads its outcome.
    have hran : ∀ {a : Action Keypair}, a.Finds (fun _ _ k => ∃ output diagnostics,
        o = .exited 0 output diagnostics ∧ k.IsTold output diagnostics) → ∀ run,
        Emitted (Event.IfRequest fun _ => False) w (a h (w.log (.run run))).2 ∧
          ∀ k, (a h (w.log (.run run))).1 = .ok k → IsGenerated h w.events k := by
      intro a ha run
      have hrun : Emitted (Event.IfRequest fun _ => False) w (w.log (.run run)) :=
        .single rfl trivial
      refine ⟨hrun.trans (.of_events (Action.events_of_still (ha.idle h _))), fun k hk => ?_⟩
      obtain ⟨output, diagnostics, rfl, htold⟩ := ha.value h _ k _ (Prod.ext hk rfl)
      exact ⟨output, diagnostics, ho, htold⟩
    refine hran ?_ _
    cases o with
    | missing => exact .fail _
    | timedOut => exact .fail _
    | exited code output diagnostics =>
      refine (outputText_finds output).bind fun s => (outputText_finds diagnostics).bind fun t => ?_
      by_cases hcode : code = 0
      · subst hcode
        rw [if_neg (fun hn => hn rfl)]
        refine (Finds.ofExcept _).mono fun _ _ k hk ht hs => ?_
        obtain ⟨out, hout, rfl⟩ := hs
        obtain ⟨err, herr, rfl⟩ := ht
        rw [Keypair.ofOutput_unifyBreaks] at hk
        exact ⟨output, diagnostics, rfl, out, err, hout, herr, hk⟩
      · rw [if_pos hcode]
        exact .fail _
  · exact ⟨.of_events rfl, fun k hk => nomatch hk⟩

theorem register_sends (h : Host) (w : World) :
    Emitted (Event.IfRequest fun r => ∃ k, IsGenerated h w.events k ∧
      IsOpening h v .register (registerBody v k) r) w (Auth.register.run v h w).2 := by
  refine Action.emitted_silent_bind (.expandHome _) fun q u₁ h₁ => ?_
  refine Action.emitted_silent_bind (SettingsFile.load_finds q).idle.silent fun settings u₂ h₂ => ?_
  refine Action.emitted_silent_bind (printOpen_isIdle _).silent fun _ u₃ h₃ => ?_
  -- Nothing has happened so far, so the generator runs in the history of the start.
  obtain ⟨hran, hgenerated⟩ := generate_cases h u₃
  refine Action.emitted_bind (hran.mono_requests fun _ => False.elim) fun k u hk => ?_
  have hk : IsGenerated h w.events k := by
    rw [← h₁, ← h₂, ← h₃]
    exact hgenerated k (congrArg Prod.fst hk)
  -- With the pair known, the rest is silent up to the one request.
  refine Emitted.mono_requests ?_ fun r hr => ⟨k, hk, hr⟩
  refine Action.emitted_silent_bind (print_isIdle _).silent fun _ _ _ => ?_
  refine Action.emitted_silent_bind (print_isIdle _).silent fun _ _ _ => ?_
  refine Action.emitted_silent_bind (KeyFile.save_isSilent _ _) fun _ _ _ => ?_
  refine Action.emitted_silent_bind (print_isIdle _).silent fun _ _ _ => ?_
  refine Action.emitted_silent_bind (printOpen_isIdle _).silent fun _ _ _ => ?_
  refine openClient_sends rfl (registerBody v k) "authentication" Client.authResult (fun x => ?_)
    h _
  refine .bind (.expandHome _) fun q => ?_
  refine .bind (Credentials.save_isSilent _ _) fun _ => ?_
  refine .bind (print_isIdle _).silent fun _ => ?_
  exact .bind (print_isIdle _).silent fun _ => (print_isIdle _).silent

theorem runSettled_sends {P : Request.Sent → Prop}
    (hc : Emitted (Event.IfRequest P) w (c.run v h w).2) :
    Emitted (Event.IfRequest P) w (runSettled c v h w).2 :=
  hc.trans (.of_events (Action.events_of_still runSettled_still))

/-! ### Every command line -/

theorem settleMissing_isIdle (o : ValueOption) : (settleMissing o).IsIdle := by
  unfold settleMissing
  cases o.fallback with
  | absent => exact .pure _
  | value s => exact .pure _
  | required => exact .pure _
  | ask q =>
    refine .bind (Console.ask_isIdle q) fun s => ?_
    cases s with
    | some s => exact .pure _
    | none => exact .pure _

theorem settleAllMissing_isIdle (os : List ValueOption) : (settleAllMissing os).IsIdle := by
  induction os with
  | nil => exact .pure _
  | cons o os ih =>
    refine .bind (settleMissing_isIdle o) fun r => ?_
    cases r with
    | error s => exact .pure _
    | ok x => exact .bind ih fun _ => .pure _

theorem settle_isIdle (p : Parameters) (given : Given) : (settle p given).IsIdle := by
  unfold settle
  dsimp only
  split
  · exact .pure _
  · split
    · exact .pure _
    · refine .bind (settleAllMissing_isIdle _) fun r => ?_
      cases r with
      | error s => exact .pure _
      | ok rest =>
        dsimp only
        split
        · exact .pure _
        · exact .pure _

def RunsAtMostOne (h : Host) (w : World) (r : Except Failure Ending × World) : Prop :=
  still r.2 = still w ∨ ∃ group name c v u, command? group name = some c ∧ still u = still w ∧
    r = runSettled c v h u

theorem runCommand_runsAtMostOne {group name : String} (hc : command? group name = some c)
    (line : List String) : RunsAtMostOne h w (runCommand c line h w) := by
  unfold runCommand
  cases c.parameters.given? line with
  | none => exact .inl rfl
  | some given =>
    dsimp only
    have hidle := settle_isIdle c.parameters given h w
    rw [Action.bind_apply]
    rcases hr : settle c.parameters given h w with ⟨f | r, u⟩
    · rw [hr] at hidle
      exact .inl hidle
    · rw [hr] at hidle
      cases r with
      | ok v => exact .inr ⟨group, name, c, v, u, hc, hidle, rfl⟩
      | error s =>
        cases s with
        | usage => exact .inl hidle
        | noAnswer => exact .inl hidle

theorem runLine_runsAtMostOne (line : List String) (h : Host) (w : World) :
    RunsAtMostOne h w (runLine line h w) := by
  unfold runLine
  cases topParameters.given? line with
  | none => exact .inl rfl
  | some given =>
    dsimp only
    by_cases hversion : "version" ∈ given.flags
    · rw [if_pos hversion]
      exact .inl (Action.Leaves.bind (Console.put_isIdle _) (fun _ => ending_isIdle 0 none) h w)
    rw [if_neg hversion]
    cases given.words with
    | nil => exact .inl rfl
    | cons group rest =>
      dsimp only
      cases (groups.lookup group).bind fun _ => groupParameters.given? rest with
      | none => exact .inl rfl
      | some inner =>
        dsimp only
        cases inner.words with
        | nil => exact .inl rfl
        | cons name words =>
          dsimp only
          cases hc : command? group name with
          | none => exact .inl rfl
          | some c => exact runCommand_runsAtMostOne hc words

theorem logout_isSilent (v : Values) : (Auth.logout.run v).IsSilent := by
  refine .bind (.expandHome _) fun q => ?_
  refine .bind (Credentials.clear_isSilent _) fun there => ?_
  split
  · exact (print_isIdle _).silent
  · exact (print_isIdle _).silent

theorem status_isSilent (v : Values) : (Project.status.run v).IsSilent := by
  refine .bind (BindingFile.load_isIdle none).silent fun b => ?_
  refine .bind (print_isIdle _).silent fun _ => ?_
  refine .bind (BindingFile.path_isIdle none).silent fun p => ?_
  exact .bind (Console.printPanel_isIdle _ _).silent fun _ => (print_isIdle _).silent

theorem mem_groups_of_command? {group name : String} (hc : command? group name = some c) :
    ∃ commands, (group, commands) ∈ groups ∧ c ∈ commands := by
  obtain ⟨commands, hgroup, hfind⟩ := Option.bind_eq_some_iff.1 hc
  obtain ⟨before, after, hsplit, -⟩ := List.lookup_eq_some_iff.1 hgroup
  refine ⟨commands, ?_, List.mem_of_find?_eq_some hfind⟩
  rw [hsplit]
  exact List.mem_append_right before List.mem_cons_self

theorem command_cases {group name : String} (hc : command? group name = some c) :
    c ∈ serviceCommands ∨ c = Auth.login ∨ c = Auth.register ∨ ∀ v, (c.run v).IsSilent := by
  obtain ⟨commands, hgroup, hmem⟩ := mem_groups_of_command? hc
  simp only [groups, List.mem_cons, Prod.mk.injEq, List.not_mem_nil, or_false] at hgroup
  obtain ⟨-, rfl⟩ | ⟨-, rfl⟩ | ⟨-, rfl⟩ | ⟨-, rfl⟩ := hgroup
  · simp only [Auth.commands, List.mem_cons, List.not_mem_nil, or_false] at hmem
    obtain rfl | rfl | rfl | rfl := hmem
    · exact .inr (.inr (.inl rfl))
    · exact .inr (.inl rfl)
    · exact .inr (.inr (.inr logout_isSilent))
    · exact .inl (by simp [serviceCommands])
  · exact .inl (by simp [serviceCommands, hmem])
  · simp only [Project.commands, List.mem_cons, List.not_mem_nil, or_false] at hmem
    obtain rfl | rfl | rfl | rfl | rfl | rfl | rfl := hmem
    case inr.inr.inr.inl => exact .inr (.inr (.inr status_isSilent))
    all_goals exact .inl (by simp [serviceCommands])
  · exact .inl (by simp [serviceCommands, hmem])

/-- Commands for a user who is logged in are refused before they act if no session is stored that
is valid and not over; what they send goes to the address of the service, under that session.
Commands that open a session send what they are given and no token. There are no other commands
that send anything, and a command line only runs one of the commands. -/
theorem session_gates_service :
    (∀ c ∈ serviceCommands, ∀ v h w,
      ((∀ x, ¬ HasSession h w.files v x) → IsRefused w (runSettled c v h w)) ∧
        ∀ x, HasSession h w.files v x →
          Emitted (Event.IfRequest (IsUnder h w.files v x)) w (runSettled c v h w).2) ∧
    (∀ v h w, Emitted (Event.IfRequest (IsOpening h v .login (loginBody v))) w
      (runSettled Auth.login v h w).2) ∧
    (∀ v h w, Emitted (Event.IfRequest fun r => ∃ k, IsGenerated h w.events k ∧
      IsOpening h v .register (registerBody v k) r) w (runSettled Auth.register v h w).2) ∧
    (∀ line h w, RunsAtMostOne h w (runLine line h w)) ∧
    ∀ group name c, command? group name = some c →
      c ∈ serviceCommands ∨ c = Auth.login ∨ c = Auth.register ∨
        ∀ v, (runSettled c v).IsSilent := by
  refine ⟨fun c hc v h w => ⟨?_, fun x hx => ?_⟩, fun v h w => ?_, fun v h w => ?_,
    runLine_runsAtMostOne, fun group name c hc => ?_⟩
  · exact (isGated_of_mem v hc).refused
  · exact (isGated_of_mem v hc).emitted hx
  · exact runSettled_sends (login_sends h w)
  · exact runSettled_sends (register_sends h w)
  · obtain hmem | rfl | rfl | hsilent := command_cases hc
    · exact .inl hmem
    · exact .inr (.inl rfl)
    · exact .inr (.inr (.inl rfl))
    · refine .inr (.inr (.inr fun v h w => ?_))
      exact (Action.events_of_still runSettled_still).trans (hsilent v h w)

/-! Who is not logged in is refused, and tells no token to log in; after that the token is told. -/

def entered : World :=
  (runSettled Auth.login Twins.values (Twins.host "A=1" Twins.left) Desk.world).2

theorem not_hasSession_desk (x : Session) :
    ¬ HasSession (Twins.host "A=1" Twins.left) Desk.tree Twins.values x := by
  rintro ⟨home, hhome, hx⟩
  obtain ⟨s, fs, ⟨bytes, text, hread, -⟩, -⟩ := hx.stored
  obtain rfl := hhome.unique ⟨_, rfl, rfl⟩
  have hnone : (Desk.tree.read (Twins.host "A=1" Twins.left).workDirectory
      (Path.child ⟨.root, [".envv"]⟩ Credentials.fileName)).toOption = none := by decide +kernel
  cases (congrArg Except.toOption hread).symm.trans hnone

theorem login_opens_gate :
    IsRefused Desk.world
        (runSettled Auth.whoami Twins.values (Twins.host "A=1" Twins.left) Desk.world) ∧
      (requests (runSettled Auth.whoami Twins.values (Twins.host "A=1" Twins.left)
        entered).2.events).map Request.headers = [[contentHeader], bearing "t"] := by
  have hgate := session_gates_service.1 Auth.whoami (by simp [serviceCommands]) Twins.values
    (Twins.host "A=1" Twins.left) Desk.world
  exact ⟨hgate.1 not_hasSession_desk, by decide +kernel⟩

end Command

end TeamVault
