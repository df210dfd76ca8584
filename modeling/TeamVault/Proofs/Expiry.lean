import TeamVault.Proofs.CredentialsCell
import TeamVault.Proofs.SessionGate

/-!
The expiry that the service declares. The session of a login ends at the instant that is declared,
and what is saved of it is not loaded from then on. A declaration that stands for nothing is
dropped, the number zero with it, and the session of such a login never ends.
-/
namespace TeamVault

/-! ### Instants -/

namespace Date

theorem ordinal_ofOrdinal {n : Nat} (hn : 1 ≤ n) : (ofOrdinal n).ordinal = n := by
  rcases hy : splitYears 400 (1 + 400 * ((n - 1) / 146097)) ((n - 1) % 146097) with ⟨y, d⟩
  rcases hm : splitMonths y 11 1 d with ⟨m, e⟩
  obtain ⟨-, -, hyears, -⟩ := splitYears_spec (by omega) hy
  obtain ⟨-, -, hmonths, -⟩ := splitMonths_spec le_rfl hm
  have hstart : daysBeforeYear (1 + 400 * ((n - 1) / 146097)) = 146097 * ((n - 1) / 146097) := by
    simp only [daysBeforeYear]
    omega
  have hfirst : daysBeforeMonth y 1 = 0 := rfl
  have hdate : ofOrdinal n = ⟨y, m, e + 1⟩ := by simp only [ofOrdinal, hy, hm]
  rw [hdate]
  simp only [ordinal]
  omega

end Date

namespace Timestamp

theorem instant_ofInstant {micros : Int} (hm : 1 ≤ micros / microsPerDay + Date.epoch) :
    (ofInstant micros).instant = micros := by
  have hday : ((ofInstant micros).date.ordinal : Int) = micros / microsPerDay + Date.epoch := by
    have hn : 1 ≤ (micros / microsPerDay + Date.epoch).toNat := by omega
    have ho := Date.ordinal_ofOrdinal hn
    change ((Date.ofOrdinal (micros / microsPerDay + Date.epoch).toNat).ordinal : Int) = _
    omega
  have htime : ((ofInstant micros).timeOfDay : Int) = micros % microsPerDay := by
    have hpos : 0 ≤ micros % microsPerDay := Int.emod_nonneg _ (by decide)
    simp only [ofInstant, timeOfDay]
    omega
  have hoffset : (ofInstant micros).offset = some 0 := rfl
  have hsplit := Int.emod_add_mul_ediv micros microsPerDay
  rw [instant, hday, htime, hoffset, Int.add_sub_cancel]
  change micros / microsPerDay * microsPerDay + micros % microsPerDay - 0 * 1000000 = micros
  rw [Int.mul_comm]
  omega

theorem instant_ofUnixSeconds {seconds : Int} {micros : Nat} {t : Timestamp}
    (ht : ofUnixSeconds? seconds micros = some t) :
    t.instant = seconds * 1000000 + micros := by
  unfold ofUnixSeconds? at ht
  dsimp only at ht
  split at ht
  next hr =>
    cases ht
    rw [instant_ofInstant]
    · omega
    · simp only [microsPerDay, Date.epoch]
      omega
  · cases ht

/-- A whole number counts seconds up to twenty milliards either way, and milliseconds beyond. -/
theorem instant_ofUnix {n : Int} {t : Timestamp} (ht : ofUnix? n 0 = some t) :
    t.instant = if n.natAbs ≤ 20000000000 then n * 1000000 else n * 1000 := by
  have hw : watershed.toNat = 20000000000 := rfl
  unfold ofUnix? at ht
  rw [hw] at ht
  split at ht
  · cases ht
  · split at ht
    next hn =>
      have hs := instant_ofUnixSeconds ht
      rw [if_pos hn, hs]
      omega
    next hn =>
      have hs := instant_ofUnixSeconds ht
      rw [if_neg hn, hs]
      omega

end Timestamp

/-! ### The answer to a login -/

namespace Client

variable {α : Type} {c : Client} {e : Endpoint} {what : String} {p : Json → Payload α} {a : α}
  {reply : Reply}

theorem answered_of_answer (ha : c.answer e what p reply = .ok a) :
    ∃ status reason body v, reply = .answered status reason body ∧
      Reply.carried? status body = some v ∧ p v = .ok a := by
  unfold answer at ha
  cases reply with
  | failed text => cases ha
  | answered status reason body =>
    by_cases hs : status < 400
    · obtain ⟨v, b, hv, hp, hb⟩ | ⟨f, hf, -⟩ := answer_cases c reason body hs e what p
      · obtain rfl : b = a := Except.ok.inj (hb.symm.trans ha)
        exact ⟨status, reason, body, v, rfl, hv, hp⟩
      · cases hf.symm.trans ha
    · have hr : c.reading e.method e.path (.answered status reason body) =
          .error (refusal status reason body) := if_pos (by omega)
      rw [hr] at ha
      cases ha

theorem session_of_authResult {j : Json} {x : Session} {user : User}
    (ha : authResult j = .ok (x, user)) : x.IsAccepted ∧ ∃ fs, j = .object fs ∧
      Checked.nullable Checked.timestamp (Json.Fields.presentOr fs "expires_at" .null) =
        .fits x.expiresAt := by
  obtain ⟨fs, told, token, hj, -, -, -, hx⟩ := authResult_eq_ok ha
  exact ⟨⟨_, hx⟩, fs, hj, (session_of_fits hx).2.2.2⟩

end Client

/-! ### Enforcement -/

namespace Session

open Command (HomeIs IsRefused serviceCommands runSettled)

/-- Fields declare an expiry: a value that stands for something and denotes a time. -/
def Declares (fs : Json.Fields) (t : Timestamp) : Prop :=
  ∃ d, fs.get? "expires_at" = some d ∧ ¬ d.IsBlank ∧ Timestamp.ofJson? d = some t

theorem declared_cases {fs : Json.Fields} {expiry : Option Timestamp}
    (he : Checked.nullable Checked.timestamp (Json.Fields.presentOr fs "expires_at" .null) =
      .fits expiry) :
    (expiry = none ∧ ∀ d, fs.get? "expires_at" = some d → d.IsBlank) ∨
      ∃ t, expiry = some t ∧ Declares fs t := by
  cases hp : fs.present? "expires_at" with
  | none =>
    rw [Json.Fields.presentOr, hp] at he
    cases he
    exact .inl ⟨rfl, Json.present?_eq_none_iff.1 hp⟩
  | some d =>
    rw [Json.presentOr_of_present? hp] at he
    obtain ⟨hd, hpresent⟩ := Option.filter_eq_some_iff.1 hp
    have hblank : ¬ d.IsBlank := by
      rw [Json.isBlank_iff, hpresent]
      decide
    right
    unfold Checked.nullable at he
    split at he
    · exact absurd .null hblank
    · unfold Checked.timestamp at he
      split at he
      next t ht =>
        cases he
        exact ⟨t, rfl, d, hd, hblank, ht⟩
      · cases he

/-- From an instant on, nobody loads the session where it was saved, and no command acts under
it. -/
def EndsAt (x : Session) (instant : Int) : Prop :=
  ∀ home h w p u, Credentials.save x home h w = (.ok p, u) →
    ∀ now, now.offset ≠ none → instant ≤ now.instant →
      (Credentials.load home).atTime now h u =
        (.error (.fault (.of .auth "Session expired.")), u) ∧
      ∀ d v, (home.getD Local.usualHome).expandHome? h.home = some d →
        HomeIs { h with now := now } v d → ∀ c ∈ serviceCommands,
          IsRefused u (runSettled c v { h with now := now } u)

theorem holds_saved {x y : Session} (hx : x.IsAccepted) (hwhole : x.isWhole = true) {h : Host}
    {t : Tree} {d : Path} {l : Location} {mode : Nat}
    (hf : t.find h.workDirectory (d.child Credentials.fileName) =
      .ok (l, .file mode (Text.Utf8.encode x.storedText)))
    (hy : Credentials.Holds h t d y) : y = x := by
  obtain ⟨s, fs, hs, hj, hfits⟩ := hy.stored
  have hread : Files.ReadsAs h t (d.child Credentials.fileName) x.storedText :=
    ⟨_, _, Tree.read_of_find hf, Text.Utf8.decode_encode _,
      (unifyBreaks_storedText hwhole).symm⟩
  obtain rfl := hread.unique hs
  rw [ofText_storedText hwhole] at hj
  cases hj
  rw [ofFields_fields hx] at hfits
  exact (Checked.fits.inj hfits).symm

theorem endsAt_of_expiry {x : Session} (hx : x.IsAccepted) {t : Timestamp}
    (ht : x.expiresAt = some t) : x.EndsAt t.instant := by
  intro home h w p u hs now hnow hover
  obtain ⟨hwhole, hfile, d, l, hd, -, hfind⟩ := Credentials.save_of_ok hs
  have hjudged : Credentials.judged now x = .error (.fault (.of .auth "Session expired.")) := by
    have hisOver : x.isOver now = true := by
      rw [isOver, ht]
      exact decide_eq_true hover
    rw [Credentials.judged, if_pos hisOver]
  refine ⟨?_, fun d' v hd' hhome c hc => ?_⟩
  · have hload : Credentials.load home { h with now := now } u =
        (Credentials.answer now (.session x), u) := by
      refine Credentials.load_of_shows hnow
        ⟨hwhole, p, l ++ [Credentials.fileName], hfile, hfind⟩ ?_
      rintro y ⟨⟩
      exact hx
    rw [Credentials.answer, hjudged] at hload
    exact hload
  · refine (Command.isGated_of_mem v hc).refused fun y ⟨home', hhome', hholds⟩ => ?_
    obtain rfl := hhome.unique hhome'
    obtain rfl : d = home' := Option.some.inj (hd.symm.trans hd')
    obtain ⟨d'', hd'', rfl⟩ := hfile
    obtain rfl : d'' = d := Option.some.inj (hd''.symm.trans hd)
    obtain rfl := holds_saved (h := { h with now := now }) hx hwhole hfind hholds
    have hlater := hholds.unexpired t ht
    change now.instant < t.instant at hlater
    omega

end Session

inductive Login
  | login (email password : String)
  | register (email password name publicKey : String)

namespace Login

def perform (c : Client) : Login → Action (Session × User)
  | login email password => c.login email password
  | register email password name publicKey => c.register email password name publicKey

variable {c : Client} {call : Login} {h : Host} {w w' : World} {x : Session} {user : User}

theorem authResult_of_ok (hl : call.perform c h w = (.ok (x, user), w')) :
    ∃ q status reason body v, h.respond w.events q = .answered status reason body ∧
      w' = w.sent q ∧ Reply.carried? status body = some v ∧
      Client.authResult v = .ok (x, user) := by
  have hall : ∃ e body, call.perform c = c.call e body none >>= fun v =>
      Client.understand "authentication" (Client.authResult v) := by
    cases call with
    | login email password => exact ⟨.login, _, rfl⟩
    | register email password name publicKey => exact ⟨.register, _, rfl⟩
  obtain ⟨e, body, hcall⟩ := hall
  rw [hcall, Client.ask_apply] at hl
  obtain ⟨hr, rfl⟩ := Prod.mk.inj hl
  cases ha : c.answer e "authentication" Client.authResult
      (h.respond w.events (c.asking e body none)) with
  | error f =>
    rw [ha] at hr
    cases hr
  | ok a =>
    rw [ha] at hr
    cases hr
    obtain ⟨status, reason, bytes, v, hreply, hv, hp⟩ := Client.answered_of_answer ha
    exact ⟨_, status, reason, bytes, v, hreply, rfl, hv, hp⟩

/-- The session of a login ends at the instant that the answer declares, as a text or as seconds or
milliseconds since 1970. It never ends only where nothing is declared, or what is declared stands
for nothing. -/
theorem declared_expiry_is_enforced (hl : call.perform c h w = (.ok (x, user), w')) :
    (∃ (q : Request) (status : Int) (reason : String) (body : Bytes) (fs : Json.Fields),
      h.respond w.events q = .answered status reason body ∧ w' = w.sent q ∧
      Reply.carried? status body = some (.object fs) ∧
      ((x.expiresAt = none ∧ ∀ d, fs.get? "expires_at" = some d → d.IsBlank) ∨
        ∃ t, x.expiresAt = some t ∧ Session.Declares fs t ∧ x.EndsAt t.instant)) ∧
    ∀ n t, Timestamp.ofJson? (.int n) = some t →
      t.instant = if n.natAbs ≤ 20000000000 then n * 1000000 else n * 1000 := by
  refine ⟨?_, fun n t => Timestamp.instant_ofUnix⟩
  obtain ⟨q, status, reason, body, v, hreply, hsent, hv, ha⟩ := authResult_of_ok hl
  obtain ⟨haccepted, fs, rfl, hexpiry⟩ := Client.session_of_authResult ha
  refine ⟨q, status, reason, body, fs, hreply, hsent, hv, ?_⟩
  obtain hnone | ⟨t, ht, hdeclares⟩ := Session.declared_cases hexpiry
  · exact .inl hnone
  · exact .inr ⟨t, ht, hdeclares, Session.endsAt_of_expiry haccepted ht⟩

/-! A service that declares one expiry to everyone. -/

def answer (expiry : String) : Bytes :=
  Text.Utf8.encode ("\x7b\"access_token\":\"t\",\"user\":\x7b\"id\":\"u\",\"email\":\"e\"\x7d," ++
    "\"expires_at\":" ++ expiry ++ "\x7d")

def service (expiry : String) : Host :=
  { Desk.host with respond := fun _ _ => .answered 200 "" (answer expiry) }

def visit : Login := .login "e" "p"

def signIn : Action Path := visit.perform Desk.client >>= fun a => Credentials.save a.1 none

theorem expiry_in_milliseconds :
    ((visit.perform Desk.client (service "1600000000000") Desk.world).1.toOption.map
      fun a => a.1.expiresAt) = some (some ⟨⟨2020, 9, 13⟩, 12, 26, 40, 0, some 0⟩) := by
  decide +kernel

theorem signIn_isOk : (signIn (service "1600000000000") Desk.world).1.isOk = true := by
  decide +kernel

theorem past_session_is_over :
    ∃ x user w' p u, visit.perform Desk.client (service "1600000000000") Desk.world =
        (.ok (x, user), w') ∧
      Credentials.save x none (service "1600000000000") w' = (.ok p, u) ∧
      Credentials.load none (service "1600000000000") u =
        (.error (.fault (.of .auth "Session expired.")), u) := by
  obtain ⟨p, hp⟩ := Action.exists_of_isOk signIn_isOk
  generalize (signIn (service "1600000000000") Desk.world).2 = u at hp
  obtain ⟨⟨x, user⟩, w', hl, hs⟩ := Action.ok_of_bind hp
  have hx : x.expiresAt = some ⟨⟨2020, 9, 13⟩, 12, 26, 40, 0, some 0⟩ := by
    have hexpiry := expiry_in_milliseconds
    rw [hl] at hexpiry
    exact Option.some.inj hexpiry
  refine ⟨x, user, w', p, u, hl, hs, ?_⟩
  obtain ⟨_, _, _, _, _, -, -, -, hnone | ⟨t, ht, -, hends⟩⟩ := (declared_expiry_is_enforced hl).1
  · rw [hnone.1] at hx
    cases hx
  · obtain rfl := Option.some.inj (ht.symm.trans hx)
    exact (hends none _ w' p u hs Desk.host.now (by decide) (by decide +kernel)).1

def declaresZero (v : Json) : Bool :=
  match v with
  | .object fs => match Json.Fields.get? fs "expires_at" with
    | some (.int n) => n = 0
    | _ => false
  | _ => false

/-- The number zero denotes the first of January 1970, but who is told that is never signed out. -/
theorem zero_expiry_is_dropped :
    (Timestamp.ofJson? (.int 0)).any (·.instant ≤ Desk.host.now.instant) = true ∧
      (Reply.carried? 200 (answer "0")).any declaresZero = true ∧
      ((signIn >>= fun _ => Credentials.load none) (service "0") Desk.world).1.isOk = true := by
  decide +kernel

end Login

end TeamVault
