import TeamVault.Files.Access

/-!
How actions run. A step is known by its result and by the world after it; these equations are the
only place where the layers of `Action` are opened. What happens is told by traces of events, which
grow at their end.
-/
namespace TeamVault

/-- Every event of a trace is allowed by what the trace holds before it. -/
def Follows (allows : List Event → Event → Prop) (trace : List Event) : Prop :=
  ∀ before e after, trace = before ++ e :: after → allows before e

namespace Follows

variable {allows : List Event → Event → Prop} {trace : List Event} {e : Event}

theorem nil : Follows allows [] := by
  intro before e after h
  simp at h

theorem snoc (ht : Follows allows trace) (he : allows trace e) : Follows allows (trace ++ [e]) := by
  intro before d after h
  rcases List.eq_nil_or_concat after with rfl | ⟨rest, x, rfl⟩
  · obtain ⟨rfl, hd⟩ := List.append_inj' h rfl
    rw [← List.singleton_inj.1 hd]
    exact he
  · have hs : trace ++ [e] = (before ++ d :: rest) ++ [x] := by simpa using h
    exact ht before d rest (List.append_inj' hs rfl).1

end Follows

def Emitted (P : Event → Prop) (w w' : World) : Prop :=
  ∃ trace, w'.events = w.events ++ trace ∧ ∀ e ∈ trace, P e

namespace Emitted

variable {P Q : Event → Prop} {u v w : World}

theorem of_events (h : w.events = v.events) : Emitted P v w :=
  ⟨[], by rw [h, List.append_nil], by simp⟩

theorem mono (h : Emitted P v w) (hpq : ∀ e, P e → Q e) : Emitted Q v w := by
  obtain ⟨trace, he, hp⟩ := h
  exact ⟨trace, he, fun e hm => hpq e (hp e hm)⟩

theorem trans (h : Emitted P u v) (k : Emitted P v w) : Emitted P u w := by
  obtain ⟨trace, ht, hp⟩ := h
  obtain ⟨more, hm, hq⟩ := k
  refine ⟨trace ++ more, by rw [hm, ht, List.append_assoc], fun e he => ?_⟩
  exact (List.mem_append.1 he).elim (hp e) (hq e)

theorem single {e : Event} (h : w.events = v.events ++ [e]) (he : P e) : Emitted P v w :=
  ⟨[e], h, fun _ hd => List.mem_singleton.1 hd ▸ he⟩

end Emitted

namespace Action

variable {α β : Type} {a : Action α} {f : α → Action β} {h : Host} {w w' : World}

@[simp] theorem pure_apply (x : α) : (pure x : Action α) h w = (.ok x, w) := rfl

@[simp] theorem ofResult_apply (r : Except Failure α) : ofResult r h w = (r, w) := rfl

@[simp] theorem ofExcept_apply (r : Except Fault α) :
    ofExcept r h w = (r.mapError .fault, w) := rfl

@[simp] theorem fail_apply (x : Failure) : (fail x : Action α) h w = (.error x, w) := rfl

@[simp] theorem raise_apply (x : Fault) : (raise x : Action α) h w = (.error (.fault x), w) := rfl

@[simp] theorem crash_apply (x : Crash) : (crash x : Action α) h w = (.error (.crash x), w) := rfl

@[simp] theorem host_apply : host h w = (.ok h, w) := rfl

theorem bind_apply (a : Action α) (f : α → Action β) (h : Host) (w : World) :
    (a >>= f) h w = match a h w with
      | (.ok x, w') => f x h w'
      | (.error x, w') => (.error x, w') := by
  show ExceptT.bindCont (fun x => f x h) (a h w).1 (a h w).2 = _
  rcases a h w with ⟨_ | _, _⟩ <;> rfl

theorem bind_of_ok {x : α} (ha : a h w = (.ok x, w')) : (a >>= f) h w = f x h w' := by
  rw [bind_apply, ha]

theorem bind_of_error {x : Failure} (ha : a h w = (.error x, w')) :
    (a >>= f) h w = (.error x, w') := by
  rw [bind_apply, ha]

theorem bind_of_pure {g : α → Except Failure β} (hf : ∀ x w', f x h w' = (g x, w')) :
    (a >>= f) h w = ((a h w).1 >>= g, (a h w).2) := by
  rw [bind_apply]
  rcases a h w with ⟨_ | _, _⟩
  · rfl
  · exact hf _ _

theorem mapError_bind {ε ε' : Type} (f : ε → ε') (r : Except ε α) (g : α → Except ε β) :
    (r.mapError f >>= fun x => (g x).mapError f) = (r.bind g).mapError f := by
  cases r <;> rfl

theorem mapError_eq_ok {ε ε' : Type} {f : ε → ε'} {r : Except ε α} {x : α} :
    r.mapError f = .ok x ↔ r = .ok x := by
  constructor
  · intro hr
    cases r with
    | error e => cases hr
    | ok y => exact congrArg Except.ok (Except.ok.inj hr)
  · rintro rfl
    rfl

theorem recover_apply (body : Action α) (handle : Failure → Action α) (h : Host) (w : World) :
    body.recover handle h w = match body h w with
      | (.ok x, w') => (.ok x, w')
      | (.error x, w') => handle x h w' := rfl

end Action

end TeamVault
