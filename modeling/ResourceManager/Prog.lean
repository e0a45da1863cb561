import ResourceManager.Store

/-!
Straight-line code that talks to the store, as a tree of requests branching on the
replies: the closures that the helpers hand to their retry loops are such programs. A
client's trace is a list of events; `run` feeds a step function its events one at a time.
-/

set_option autoImplicit false
set_option warningAsError true

namespace ResourceManager

/-- What a client does at one step: a request and the reply it got; `exponentialBackoff`
calls `condition()`; `condition()` returned `(ok, err)`; the `select` finds `ctx.Done()`
closed or open; `time.Sleep(adjusted)`; `i < backoff.Steps` fails and the loop ends. -/
inductive Event (α : Type) where
  | call (c : Call α) (r : Reply α)
  | attempt
  | returned (ok : Bool) (err : Option Error)
  | ctxDone (done : Bool)
  | sleep
  | exit
  deriving DecidableEq, Repr

inductive Prog (α β : Type) where
  | pure (b : β)
  | call (c : Call α) (k : Reply α → Prog α β)

namespace Prog

variable {α β : Type} [DecidableEq α]

def step : Prog α β → Event α → Option (Prog α β)
  | .call c k, .call c' r => if c' = c then some (k r) else none
  | _, _ => none

@[simp] theorem step_call (c : Call α) (k : Reply α → Prog α β) (r : Reply α) :
    (Prog.call c k).step (.call c r) = some (k r) := by simp [step]

theorem step_eq_some {p p' : Prog α β} {e : Event α} (h : p.step e = some p') :
    ∃ c k r, p = .call c k ∧ e = .call c r ∧ p' = k r := by
  unfold step at h
  split at h
  · split at h
    · cases h; subst_vars; exact ⟨_, _, _, rfl, rfl, rfl⟩
    · cases h
  · cases h

def runOn : Prog α β → Store α → β × Store α
  | .pure b, st => (b, st)
  | .call c k, st => (k (st.handle c).1).runOn (st.handle c).2

end Prog

def run {S E : Type} (step : S → E → Option S) : S → List E → Option S
  | s, [] => some s
  | s, e :: es => (step s e).bind fun s' => run step s' es

section Run

variable {S E : Type} {step : S → E → Option S}

@[simp] theorem run_nil (s : S) : run step s [] = some s := rfl

theorem run_append (s : S) (es es' : List E) :
    run step s (es ++ es') = (run step s es).bind fun s' => run step s' es' := by
  induction es generalizing s with
  | nil => rfl
  | cons e es ih =>
    simp only [List.cons_append, run]
    cases step s e <;> simp [ih]

theorem run_snoc (s : S) (es : List E) (e : E) :
    run step s (es ++ [e]) = (run step s es).bind fun s' => step s' e := by
  rw [run_append]
  cases run step s es <;> simp [run]

theorem run_append_eq_some {s t : S} {es es' : List E} (h : run step s (es ++ es') = some t) :
    ∃ m, run step s es = some m ∧ run step m es' = some t := by
  rw [run_append] at h
  cases hm : run step s es with
  | none => simp [hm] at h
  | some m => exact ⟨m, rfl, by simpa [hm] using h⟩

theorem run_cons_eq_some {s t : S} {e : E} {es : List E} (h : run step s (e :: es) = some t) :
    ∃ m, step s e = some m ∧ run step m es = some t := by
  simp only [run] at h
  cases hm : step s e with
  | none => simp [hm] at h
  | some m => exact ⟨m, rfl, by simpa [hm] using h⟩

/-- Induction over runs: a property of a trace and the state it leads to that holds of the
empty run and survives one more step holds of every run. -/
theorem run_induction (P : List E → S → Prop) {s : S} (h0 : P [] s)
    (hstep : ∀ tr t e t', run step s tr = some t → P tr t → step t e = some t' → P (tr ++ [e]) t')
    {tr : List E} {t : S} (h : run step s tr = some t) : P tr t := by
  induction tr using List.reverseRecOn generalizing t with
  | nil => cases h; exact h0
  | append_singleton tr e ih =>
    obtain ⟨m, hm, he⟩ := run_append_eq_some h
    exact hstep tr m e t hm (ih hm) (by simpa [run] using he)

end Run

end ResourceManager
