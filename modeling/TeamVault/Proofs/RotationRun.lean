import TeamVault.Proofs.RotationTrace

/-!
What every rotation does, whatever the service and the tool answer and whatever was rotated before:
its steps, how it ends, and the order in which it turns to the service and to the tool.
-/
namespace TeamVault

def Failure.IsPermissionDenied : Failure → Prop
  | .fault f => f.kind = .permissionDenied
  | .crash _ => False

namespace Rotation

/-- What a rotation may do after what it has done: the members are asked for only when a decryption
has succeeded, and nothing is encrypted before they were asked for. -/
structure InOrder (c : Client) (tool : Sops.Tool) (project : String) (h : Host)
    (earlier before : List Event) (e : Event) : Prop where
  members : ∀ r, e = .request r → r.IsTo c (.projectMembers project) →
    HasDecrypted tool h earlier before
  encryption : ∀ r, e = .run r → Sops.IsEncryption tool r.toRun → HasAsked c project before

structure Orderly (c : Client) (tool : Sops.Tool) (project : String) (environment : Environment)
    (parent : Option Path) (h : Host) (w : World) (r : Rotation) (w' : World) : Prop where
  /-- Nothing is rotated, or all steps are done, or some of them and the abort. -/
  steps : r.steps = [.fetchCurrent, .done] ∨ r.steps = order ∨
    ∃ n, 0 < n ∧ n < order.length ∧ r.steps = order.take n ++ [.aborted]
  /-- A rotation fails if and only if it is aborted. -/
  fails : r.failure.isSome ↔ r.step? = some .aborted
  /-- The step that failed is the one before the abort. -/
  failedStep : ∀ s, r.failedStep? = some s ↔ ∃ before, r.steps = before ++ [s, .aborted]
  /-- Nothing is rotated exactly when there was no version to fetch. -/
  nothing : r.steps = [.fetchCurrent, .done] ↔
    ∃ f, (VersionStore.pull c project environment h w).1 = .error f ∧ isNotFound f = true
  /-- The failure is the step's own, unless the caller may not decrypt. -/
  failure : ∀ step f, r.failure = some (step, f) → ∃ s own v, step = some s ∧
    Stops c tool project environment parent h w s own r.previous r.recipientKeys v ∧
    (s = .decrypt ∧ own.IsPermissionDenied → f = .fault (.of .permissionDenied
      "You cannot rotate secrets you cannot decrypt yourself.")) ∧
    (¬ (s = .decrypt ∧ own.IsPermissionDenied) → f = own)
  trace : ∃ trace, w'.events = w.events ++ trace ∧
    Follows (InOrder c tool project h w.events) trace

section Raised

theorem raised_of_permissionDenied {own : Failure} (ho : own.IsPermissionDenied) :
    raised .decrypt own = .fault (.of .permissionDenied
      "You cannot rotate secrets you cannot decrypt yourself.") := by
  cases own with
  | crash c => exact absurd ho id
  | fault f =>
    have hk : f.kind = .permissionDenied := ho
    simp only [raised, cannotDecrypt, hk]

theorem raised_of_not {s : RotationStep} {own : Failure}
    (ho : ¬ (s = .decrypt ∧ own.IsPermissionDenied)) : raised s own = own := by
  unfold raised
  split
  · cases own with
    | crash c => rfl
    | fault f =>
      unfold cannotDecrypt
      dsimp only
      split
      next hk => exact absurd ⟨rfl, hk⟩ ho
      · rfl
  · rfl

end Raised

section Events

variable {c : Client} {tool : Sops.Tool} {project : String} {environment : Environment}
  {parent : Option Path} {h : Host} {w w' : World} {earlier before : List Event}

theorem InOrder.of_request {r : Request.Sent}
    (hr : r.IsTo c (.projectMembers project) → HasDecrypted tool h earlier before) :
    InOrder c tool project h earlier before (.request r) := by
  refine ⟨?_, ?_⟩
  · intro q hq
    cases hq
    exact hr
  · intro q hq
    cases hq

theorem InOrder.of_run {r : Run.Started}
    (hr : Sops.IsEncryption tool r.toRun → HasAsked c project before) :
    InOrder c tool project h earlier before (.run r) := by
  refine ⟨?_, ?_⟩
  · intro q hq
    cases hq
  · intro q hq
    cases hq
    exact hr

theorem permits_inOrder (c : Client) (tool : Sops.Tool) (project : String) (h : Host)
    (earlier : List Event) :
    Permits c tool project h earlier (InOrder c tool project h earlier) where
  fetch _ _ hq := .of_request fun hm =>
    absurd hm (hq.not_of_path (Endpoint.path_secrets_ne_members project))
  decrypt _ _ hr := .of_run fun he => absurd he (Sops.not_isEncryption hr)
  members _ _ hd _ := .of_request fun _ => hd
  encrypt _ _ ha _ := .of_run fun _ => ha

theorem Course.inOrder {r : Rotation} (hc : Course c tool project environment parent h w r w') :
    Goes (InOrder c tool project h w.events) w w' := by
  have hA := permits_inOrder c tool project h w.events
  obtain ⟨hg, -⟩ | ⟨s, x, v, hp, he, -⟩ := hc.goes hA
  · exact hg
  have hs := s.goes hA
  cases hd : Text.Utf8.decode? s.ciphertext with
  | none =>
    rw [VersionStore.push_of_no_text c project environment h s.left s.format s.metadata hd] at hp
    cases hp
    exact hs.of_events he
  | some text =>
    rw [VersionStore.push_of_text c project environment h s.left s.format s.metadata hd] at hp
    cases hp
    refine (hs.snoc (World.sent_events _ _) fun trace _ => .of_request fun hm => ?_).of_events he
    exact absurd hm ((VersionStore.delivery_isTo c project environment s.format s.metadata
      text).not_of_path (Endpoint.path_secrets_ne_members project))

end Events

section Steps

variable {c : Client} {tool : Sops.Tool} {project : String} {environment : Environment}
  {parent : Option Path} {h : Host} {w w' : World}

theorem Stops.step_mem {step : RotationStep} {own : Failure} {previous : Option SecretVersion}
    {keys : List String}
    (hs : Stops c tool project environment parent h w step own previous keys w') :
    step ≠ .done ∧ step ≠ .aborted := by
  cases hs with
  | fetch => decide
  | scratch => decide
  | inside s halts => cases halts <;> decide
  | push => decide

theorem upTo_eq_take {s : RotationStep} (hd : s ≠ .done) (ha : s ≠ .aborted) :
    ∃ n, 0 < n ∧ n < order.length ∧ upTo s = order.take n := by
  cases s with
  | fetchCurrent => exact ⟨1, by decide⟩
  | decrypt => exact ⟨2, by decide⟩
  | refreshRecipients => exact ⟨3, by decide⟩
  | buildPolicy => exact ⟨4, by decide⟩
  | encrypt => exact ⟨5, by decide⟩
  | push => exact ⟨6, by decide⟩
  | done => exact absurd rfl hd
  | aborted => exact absurd rfl ha

theorem Stops.found {step : RotationStep} {own : Failure} {previous : Option SecretVersion}
    {keys : List String}
    (hs : Stops c tool project environment parent h w step own previous keys w') :
    ¬ ∃ f, (VersionStore.pull c project environment h w).1 = .error f ∧ isNotFound f = true := by
  rintro ⟨f, ht, hf⟩
  rw [VersionStore.pull_apply] at ht
  cases hs with
  | fetch fails found =>
    rw [fails] at ht
    cases ht
    simp [found] at hf
  | scratch s =>
    rw [s.told] at ht
    cases ht
  | inside s =>
    rw [s.told] at ht
    cases ht
  | push s =>
    rw [s.told] at ht
    cases ht

theorem upTo_aborted_eq {before : List RotationStep} {s t : RotationStep}
    (he : upTo s ++ [.aborted] = before ++ [t, .aborted]) : s = t := by
  have hb : before ++ [t, .aborted] = (before ++ [t]) ++ [.aborted] := by simp
  rw [hb] at he
  have hu : order.takeWhile (· ≠ s) ++ [s] = before ++ [t] := List.append_cancel_right he
  exact (List.append_singleton_inj.1 hu).2

theorem ends_aborted {steps before : List RotationStep} {s : RotationStep}
    (he : steps = before ++ [s, .aborted]) : steps.getLast? = some .aborted := by
  simp [he]

theorem failedStep_of_not_aborted {r : Rotation} (hf : r.failure = none)
    (hl : r.steps.getLast? ≠ some .aborted) (s : RotationStep) :
    r.failedStep? = some s ↔ ∃ before, r.steps = before ++ [s, .aborted] := by
  refine ⟨fun hs => ?_, fun ⟨before, he⟩ => absurd (ends_aborted he) hl⟩
  rw [failedStep?, hf] at hs
  cases hs

theorem Course.orderly {r : Rotation} (hc : Course c tool project environment parent h w r w') :
    Orderly c tool project environment parent h w r w' := by
  have hg := hc.inOrder
  cases hc with
  | nothing told missing =>
    refine ⟨.inl rfl, by decide, failedStep_of_not_aborted rfl (by decide),
      ⟨fun _ => ⟨_, ?_, missing⟩, fun _ => rfl⟩, ?_, hg⟩
    · rw [VersionStore.pull_apply, told]
    · intro step f hf
      cases hf
  | @stopped step own previous keys v stops =>
    obtain ⟨n, hpos, hlt, hn⟩ := upTo_eq_take stops.step_mem.1 stops.step_mem.2
    refine ⟨.inr (.inr ⟨n, hpos, hlt, by rw [hn]⟩), by simp [step?], fun s => ⟨?_, ?_⟩,
      ⟨fun he => ?_, fun hf => absurd hf stops.found⟩, ?_, hg⟩
    · intro hs
      obtain rfl : step = s := by simpa [failedStep?] using hs
      exact ⟨order.takeWhile (· ≠ step), by simp [upTo]⟩
    · rintro ⟨before, he⟩
      rw [failedStep?, upTo_aborted_eq he]
      rfl
    · have hl := congrArg List.getLast? he
      simp at hl
    · intro s f hf
      cases hf
      refine ⟨step, own, v, rfl, stops, ?_, raised_of_not⟩
      rintro ⟨rfl, ho⟩
      exact raised_of_permissionDenied ho
  | completed s =>
    have hlast : order.getLast? ≠ some .aborted := by decide
    have hlong : order ≠ [.fetchCurrent, .done] := by decide
    refine ⟨.inr (.inl rfl), by simp [step?, hlast], failedStep_of_not_aborted rfl hlast,
      ⟨fun he => absurd he hlong, ?_⟩, ?_, hg⟩
    · rintro ⟨f, hf, -⟩
      rw [VersionStore.pull_apply, s.told] at hf
      cases hf
    · intro step f hf
      cases hf

end Steps

structure Call where
  host : Host
  world : World
  project : String
  environment : Environment

def series (c : Client) (tool : Sops.Tool) (parent : Option Path) (earlier : Rotation) :
    List Call → List (Except Failure Rotation × World)
  | [] => []
  | k :: rest =>
    let outcome := run c tool k.project k.environment parent earlier k.host k.world
    outcome :: series c tool parent (outcome.1.toOption.getD earlier) rest

/-- Each rotation of a series ends with an orderly record, which is the one it would have without
the rotations before it. -/
theorem series_orderly (c : Client) (tool : Sops.Tool) (parent : Option Path) (earlier : Rotation)
    (calls : List Call) :
    List.Forall₂
      (fun k outcome =>
        outcome = run c tool k.project k.environment parent start k.host k.world ∧
        ∃ r w', outcome = (.ok r, w') ∧
          Orderly c tool k.project k.environment parent k.host k.world r w')
      calls (series c tool parent earlier calls) := by
  induction calls generalizing earlier with
  | nil => exact .nil
  | cons k rest ih =>
    obtain ⟨r, w', hr, hc⟩ :=
      run_course c tool k.project k.environment parent earlier k.host k.world
    exact .cons ⟨congrFun (congrFun (run_eq_start earlier) k.host) k.world, r, w', hr, hc.orderly⟩
      (ih _)

end Rotation

end TeamVault
