import TeamVault.Proofs.Action
import TeamVault.Service.Roster
import TeamVault.Service.VersionStore

/-!
Exchanges with the service. Every call is one request, and its result is a function of the reply to
it; nothing else of the world changes.
-/
namespace TeamVault

def Request.IsTo (r : Request) (c : Client) (e : Endpoint) : Prop :=
  r.method = e.method ∧ r.url = c.url e.path

def World.sent (w : World) (r : Request) : World := w.log (.request ⟨r, w.files⟩)

@[simp] theorem World.sent_files (w : World) (r : Request) : (w.sent r).files = w.files := rfl

@[simp] theorem World.sent_events (w : World) (r : Request) :
    (w.sent r).events = w.events ++ [.request ⟨r, w.files⟩] := rfl

namespace Client

variable {α : Type} (c : Client) (e : Endpoint) (h : Host) (w : World)

def asking (body params : Option Json) : Request := c.message e.method e.path body params

def answer (what : String) (p : Json → Payload α) (reply : Reply) : Except Fault α := do
  (p (← c.reading e.method e.path reply)).mapError (misunderstood what)

theorem call_apply (body params : Option Json) :
    c.call e body params h w =
      ((c.reading e.method e.path (h.respond w.events (c.asking e body params))).mapError .fault,
        w.sent (c.asking e body params)) := rfl

theorem understand_apply (what : String) (p : Payload α) :
    understand what p h w = ((p.mapError (misunderstood what)).mapError .fault, w) := rfl

theorem ask_apply (body params : Option Json) (what : String) (p : Json → Payload α) :
    (c.call e body params >>= fun v => understand what (p v)) h w =
      ((c.answer e what p (h.respond w.events (c.asking e body params))).mapError .fault,
        w.sent (c.asking e body params)) := by
  rw [Action.bind_of_pure fun v w' => understand_apply h w' what (p v), call_apply,
    Action.mapError_bind]
  rfl

theorem answer_eq_ok {c : Client} {e : Endpoint} {what : String} {p : Json → Payload α}
    {reply : Reply} {x : α} : c.answer e what p reply = .ok x ↔
      ∃ v, c.reading e.method e.path reply = .ok v ∧ p v = .ok x := by
  unfold answer
  cases c.reading e.method e.path reply with
  | error f => exact ⟨nofun, nofun⟩
  | ok v =>
    change (p v).mapError (misunderstood what) = .ok x ↔ _
    simp [Action.mapError_eq_ok]

theorem refusal_kind (status : Int) (reason : String) (body : Bytes) :
    (status = 401 ∧ (refusal status reason body).kind = .auth) ∨
      (status = 403 ∧ (refusal status reason body).kind = .authz) ∨
      (status = 404 ∧ (refusal status reason body).kind = .notFound) ∨
      status ≠ 404 ∧ ∃ code details,
        (refusal status reason body).kind = .service status code details := by
  unfold refusal
  dsimp only
  by_cases h1 : status = 401
  · exact .inl ⟨h1, by simp [h1, Fault.of]⟩
  by_cases h3 : status = 403
  · exact .inr (.inl ⟨h3, by simp [h3, Fault.of]⟩)
  by_cases h4 : status = 404
  · exact .inr (.inr (.inl ⟨h4, by simp [h4, Fault.of]⟩))
  · simp only [h1, h3, h4, if_false]
    exact .inr (.inr (.inr ⟨h4, _, _, rfl⟩))

theorem url_inj {c : Client} {p q : String} (hu : c.url p = c.url q) : p = q :=
  (String.append_right_inj _).1 hu

end Client

namespace Request.IsTo

variable {r : Request} {c : Client} {e d : Endpoint}

theorem not_of_path (hr : r.IsTo c e) (hp : e.path ≠ d.path) : ¬ r.IsTo c d :=
  fun hd => hp (Client.url_inj (hr.2.symm.trans hd.2))

end Request.IsTo

namespace Roster

variable (c : Client) (project : String) (h : Host) (w : World)

def question : Request := c.asking (.projectMembers project) none none

def told (reply : Reply) : Except Fault (List Recipient) :=
  c.answer (.projectMembers project) "member list" decode reply

theorem question_isTo : (question c project).IsTo c (.projectMembers project) := ⟨rfl, rfl⟩

theorem ofProject_apply :
    ofProject c project h w =
      ((told c project (h.respond w.events (question c project))).mapError .fault,
        w.sent (question c project)) :=
  Client.ask_apply c _ h w none none "member list" decode

end Roster

namespace VersionStore

variable (c : Client) (project : String) (environment : Environment) (h : Host) (w : World)

def question : Request := c.asking (.pullSecrets project) none (inEnvironment environment)

def told (reply : Reply) : Except Failure SecretVersion := do
  latest project environment
    (← (c.reading (Endpoint.method (.pullSecrets project)) (Endpoint.path (.pullSecrets project))
      reply).mapError .fault)

theorem question_isTo : (question c project environment).IsTo c (.pullSecrets project) :=
  ⟨rfl, rfl⟩

theorem pull_apply :
    pull c project environment h w =
      (told c project environment (h.respond w.events (question c project environment)),
        w.sent (question c project environment)) :=
  Action.bind_of_pure fun v _ => Action.ofResult_apply (latest project environment v)

theorem versions_apply :
    versions c project environment h w =
      (((c.answer (.listVersions project) "version list" history (h.respond w.events
          (c.asking (.listVersions project) none (inEnvironment environment)))).map
          VersionInfo.newestFirst).mapError .fault,
        w.sent (c.asking (.listVersions project) none (inEnvironment environment))) := by
  have ask := Client.ask_apply c (.listVersions project) h w none (inEnvironment environment)
    "version list" history
  unfold versions
  rw [← bind_assoc, Action.bind_of_pure (g := fun x => .ok (VersionInfo.newestFirst x))
    (fun _ _ => rfl), ask]
  cases c.answer (.listVersions project) "version list" history _ <;> rfl

theorem rollback_apply (id : String) :
    rollback c project id h w =
      ((c.answer (.rollback project) "rollback" (rolledBack project) (h.respond w.events
          (c.asking (.rollback project) (some (.object [("version_id", .text id)])) none))).mapError
          .fault,
        w.sent (c.asking (.rollback project) (some (.object [("version_id", .text id)])) none)) :=
  Client.ask_apply c _ h w _ none "rollback" (rolledBack project)

variable {ciphertext : Bytes} (format : SecretFormat) (metadata : Json.Fields)

def delivery (text : String) : Request :=
  c.asking (.pushSecrets project) (some (.object (parcel environment text format metadata))) none

theorem delivery_isTo (text : String) :
    (delivery c project environment format metadata text).IsTo c (.pushSecrets project) :=
  ⟨rfl, rfl⟩

theorem push_of_no_text (hd : Text.Utf8.decode? ciphertext = none) :
    push c project environment ciphertext format metadata h w =
      (.error (.crash .undecodable), w) := by
  unfold push
  rw [hd]
  rfl

theorem push_of_text {text : String} (hd : Text.Utf8.decode? ciphertext = some text) :
    push c project environment ciphertext format metadata h w =
      ((c.answer (.pushSecrets project) "push"
          (pushed project environment ciphertext format metadata)
          (h.respond w.events (delivery c project environment format metadata text))).mapError
          .fault,
        w.sent (delivery c project environment format metadata text)) := by
  unfold push
  rw [hd]
  exact Client.ask_apply c _ h w _ none "push"
    (pushed project environment ciphertext format metadata)

end VersionStore

namespace Endpoint

theorem path_secrets_ne_members (project : String) :
    (pullSecrets project).path ≠ (projectMembers project).path := by
  intro h
  have hend : "/secrets" = "/members" := (String.append_right_inj _).1 h
  exact absurd hend (by decide)

end Endpoint

end TeamVault
