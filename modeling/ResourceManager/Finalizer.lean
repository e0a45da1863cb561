import ResourceManager.Clients

/-!
`EnsureFinalizer` and `DeleteFinalizer`. Each runs its closure under
`retry.RetryOnConflict(retry.DefaultRetry, ...)`: client-go's `retry.OnError` with
`apierrors.IsConflict` over `wait.ExponentialBackoff`, which makes at most `Steps` attempts,
retries on a Conflict, and once the steps run out returns the last Conflict in place of
`wait.ErrWaitTimeout`. The closure reads the object into `obj` with `Get`, then adds or
removes the finalizer with a merge patch from what it read, under that object's resource
version (`MergeFromWithOptimisticLock`).
-/

set_option autoImplicit false
set_option warningAsError true

namespace ResourceManager

def defaultRetrySteps : Nat := 5

/-- Where a `retry.OnError` call stands; `s` is the state its closure works on. -/
inductive Retry (α σ : Type) where
  | head (steps : Nat) (lastErr : Option Error) (s : σ)
  | fn (steps : Nat) (lastErr : Option Error) (p : Prog α (σ × Option Error))
  | done (err : Option Error) (s : σ)

namespace Retry

variable {α σ : Type}

def start (steps : Nat) (s : σ) : Retry α σ := .head steps none s

def result : Retry α σ → Option (Option Error)
  | .done err _ => some err
  | _ => none

end Retry

variable {α σ : Type}

def onErrorCondition (retriable : Error → Bool) : Option Error → Bool × Option Error
  | none => (true, none)
  | some err => if retriable err then (false, none) else (false, some err)

/-- One step of `retry.OnError(backoff, retriable, fn)`. -/
def onError [DecidableEq α] (retriable : Error → Bool) (fn : σ → Prog α (σ × Option Error)) :
    Retry α σ → Event α → Option (Retry α σ)
  | .head (k + 1) lastErr s, .attempt => some (.fn k lastErr (fn s))
  | .head 0 lastErr s, .exit => some (.done lastErr s)
  | .fn k lastErr (.call c f), .call c' r => if c' = c then some (.fn k lastErr (f r)) else none
  | .fn k lastErr (.pure (s, err)), .returned ok err' =>
    if (ok, err') = onErrorCondition retriable err then
      some (if ok || err'.isSome then .done (if err' = some .waitTimeout then lastErr else err') s
        else .head k err s)
    else none
  | _, _ => none

def retryOnConflict [DecidableEq α] (fn : σ → Prog α (σ × Option Error)) :
    Retry α σ → Event α → Option (Retry α σ) :=
  onError Error.isConflict fn

section Steps

variable [DecidableEq α] {retriable : Error → Bool} {fn : σ → Prog α (σ × Option Error)}
  {l l' : Retry α σ} {e : Event α}

theorem onError_eq_some (h : onError retriable fn l e = some l') :
    (∃ k lastErr s, l = .head (k + 1) lastErr s ∧ e = .attempt ∧ l' = .fn k lastErr (fn s)) ∨
    (∃ lastErr s, l = .head 0 lastErr s ∧ e = .exit ∧ l' = .done lastErr s) ∨
    (∃ k lastErr c f r, l = .fn k lastErr (.call c f) ∧ e = .call c r ∧
      l' = .fn k lastErr (f r)) ∨
    (∃ k lastErr s err ok err', l = .fn k lastErr (.pure (s, err)) ∧ e = .returned ok err' ∧
      (ok, err') = onErrorCondition retriable err ∧
      l' = if ok || err'.isSome then .done (if err' = some .waitTimeout then lastErr else err') s
        else .head k err s) := by
  unfold onError at h
  split at h
  · cases h; exact .inl ⟨_, _, _, rfl, rfl, rfl⟩
  · cases h; exact .inr (.inl ⟨_, _, rfl, rfl, rfl⟩)
  · split at h
    · cases h; subst_vars; exact .inr (.inr (.inl ⟨_, _, _, _, _, rfl, rfl, rfl⟩))
    · cases h
  · split at h
    · cases h; exact .inr (.inr (.inr ⟨_, _, _, _, _, _, rfl, rfl, ‹_›, rfl⟩))
    · cases h
  · cases h

theorem onError_attempt (k : Nat) (lastErr : Option Error) (s : σ) :
    onError retriable fn (.head (k + 1) lastErr s) .attempt = some (.fn k lastErr (fn s)) := rfl

theorem onError_call (k : Nat) (lastErr : Option Error) (c : Call α)
    (f : Reply α → Prog α (σ × Option Error)) (r : Reply α) :
    onError retriable fn (.fn k lastErr (.call c f)) (.call c r) = some (.fn k lastErr (f r)) :=
  if_pos rfl

theorem onError_returned_error (k : Nat) (lastErr : Option Error) (s : σ) {err : Error}
    (hr : retriable err = false) (hw : err ≠ .waitTimeout) :
    onError retriable fn (.fn k lastErr (.pure (s, some err))) (.returned false (some err)) =
      some (.done (some err) s) := by
  simp [onError, onErrorCondition, hr, hw]

@[simp] theorem onError_done (err : Option Error) (s : σ) :
    onError retriable fn (.done err s) e = none := by
  cases e <;> rfl

theorem run_onError_of_nil {k : Nat} {lastErr : Option Error} {s : σ} {es : List (Event α)}
    (h : run (onError retriable fn) (.fn k lastErr (.pure (s, none))) es = some l) :
    es = [] ∨ es = [.returned true none] := by
  rcases es with _ | ⟨e, es⟩
  · exact .inl rfl
  obtain ⟨m, hm, hrest⟩ := run_cons_eq_some h
  rcases onError_eq_some hm with ⟨_, _, _, ⟨⟩, -⟩ | ⟨_, _, ⟨⟩, -⟩ | ⟨_, _, _, _, _, ⟨⟩, -⟩ |
    ⟨_, _, _, _, ok, err', ⟨⟩, rfl, hc, rfl⟩
  simp only [onErrorCondition, Prod.mk.injEq] at hc
  obtain ⟨rfl, rfl⟩ := hc
  rcases es with _ | ⟨e', es⟩
  · exact .inr rfl
  · simp [run] at hrest

end Steps

section Attempts

variable [DecidableEq α] {retriable : Error → Bool} {fn : σ → Prog α (σ × Option Error)}
  {l l' : Retry α σ} {e : Event α} {tr : List (Event α)}

def RetryInv (retriable : Error → Bool) (steps a : Nat) : Retry α σ → Prop
  | .head k lastErr _ => k + a = steps ∧
      (a = 0 ∧ lastErr = none ∨ ∃ err, lastErr = some err ∧ retriable err)
  | .fn k lastErr _ => k + a = steps ∧ 0 < a ∧
      (a = 1 ∧ lastErr = none ∨ ∃ err, lastErr = some err ∧ retriable err)
  | .done _ _ => a ≤ steps

omit [DecidableEq α] in
theorem retryInv_start (steps : Nat) (s : σ) :
    RetryInv retriable steps 0 (Retry.start steps s : Retry α σ) :=
  ⟨rfl, .inl ⟨rfl, rfl⟩⟩

theorem onErrorCondition_retry {err : Option Error}
    (h : (false, none) = onErrorCondition retriable err) : ∃ e, err = some e ∧ retriable e := by
  rcases err with _ | e
  · cases h
  · by_cases hr : retriable e
    · exact ⟨e, rfl, hr⟩
    · simp [onErrorCondition, hr] at h

theorem retryInv_step {steps : Nat} (hl : RetryInv retriable steps (tr.count .attempt) l)
    (h : onError retriable fn l e = some l') :
    RetryInv retriable steps ((tr ++ [e]).count .attempt) l' := by
  rcases onError_eq_some h with ⟨k, le, s, rfl, rfl, rfl⟩ | ⟨le, s, rfl, rfl, rfl⟩ |
    ⟨k, le, c, f, r, rfl, rfl, rfl⟩ | ⟨k, le, s, err, ok, err', rfl, rfl, hc, rfl⟩
  · obtain ⟨hk, ⟨ha, rfl⟩ | hle⟩ := hl
    · simp [RetryInv, List.count_append, ha]; omega
    · simp only [RetryInv, List.count_append, List.count_singleton_self]
      exact ⟨by omega, by omega, .inr hle⟩
  · simp only [RetryInv] at hl ⊢
    simp [List.count_append]; omega
  · simpa [RetryInv, List.count_append] using hl
  · obtain ⟨hk, -, -⟩ := hl
    split
    · simp [RetryInv, List.count_append]; omega
    · rename_i hne
      obtain ⟨rfl, rfl⟩ : ok = false ∧ err' = none := by
        cases ok <;> cases err' <;> simp_all
      simp only [RetryInv, List.count_append]
      exact ⟨by simp [hk], .inr (onErrorCondition_retry hc)⟩

theorem retryInv_run {steps : Nat} {s : σ}
    (h : run (onError retriable fn) (Retry.start steps s) tr = some l) :
    RetryInv retriable steps (tr.count .attempt) l :=
  run_induction
    (fun (tr : List (Event α)) (l : Retry α σ) =>
      RetryInv retriable steps (tr.count Event.attempt) l)
    (retryInv_start steps s) (fun _ _ _ _ _ hl h => retryInv_step hl h) h

/-- `retry.OnError` makes at most `Steps` attempts, whatever `fn` and the server do. -/
theorem onError_attempts_le {steps : Nat} {s : σ}
    (h : run (onError retriable fn) (Retry.start steps s) tr = some l) :
    tr.count .attempt ≤ steps := by
  have := retryInv_run h
  cases l <;> simp only [RetryInv] at this <;> omega

theorem onError_attempts_two :
    run (onError Error.isConflict fun s : Unit =>
        (.pure (s, some .conflict) : Prog Nat (Unit × Option Error))) (Retry.start 2 ())
      [.attempt, .returned false none, .attempt, .returned false none, .exit] =
      some (.done (some .conflict) ()) ∧
    [Event.attempt, .returned false none, .attempt, .returned false none, (.exit : Event Nat)].count
      .attempt ≤ 2 :=
  have h : run (onError Error.isConflict fun s : Unit =>
      (.pure (s, some .conflict) : Prog Nat (Unit × Option Error))) (Retry.start 2 ())
      [.attempt, .returned false none, .attempt, .returned false none, .exit] =
      some (.done (some .conflict) ()) := rfl
  ⟨h, onError_attempts_le h⟩

theorem exhausted_step {steps : Nat} (hl : RetryInv retriable steps (tr.count .attempt) l)
    (h : onError retriable fn l .exit = some l') :
    ∃ err s, l' = .done err s ∧ (steps = 0 ∨ ∃ e, err = some e ∧ retriable e) := by
  rcases onError_eq_some h with ⟨_, _, _, -, ⟨⟩, -⟩ | ⟨le, s, rfl, -, rfl⟩ |
    ⟨_, _, _, _, _, -, ⟨⟩, -⟩ | ⟨_, _, _, _, _, _, -, ⟨⟩, -⟩
  obtain ⟨hk, ⟨ha, rfl⟩ | hle⟩ := hl
  · exact ⟨none, s, rfl, .inl (by omega)⟩
  · exact ⟨le, s, rfl, .inr hle⟩

/-- Once its steps run out, `retry.RetryOnConflict` returns the Conflict of its last attempt
in place of `wait.ErrWaitTimeout`. -/
theorem retryOnConflict_exhausted {steps : Nat} (hsteps : 0 < steps) {s s' : σ}
    {err : Option Error}
    (h : run (retryOnConflict fn) (Retry.start steps s) tr = some (.done err s'))
    (hx : .exit ∈ tr) : err = some .conflict := by
  obtain ⟨pre, post, rfl⟩ := List.append_of_mem hx
  obtain ⟨m, hm, hrest⟩ := run_append_eq_some h
  obtain ⟨m', hm', hpost⟩ := run_cons_eq_some hrest
  obtain ⟨err', s'', rfl, hs | ⟨e, rfl, hc⟩⟩ := exhausted_step (retryInv_run hm) hm'
  · omega
  · -- the returned call takes no further step
    obtain rfl : post = [] := by
      rcases post with _ | ⟨e', post⟩
      · rfl
      · simp [run, retryOnConflict] at hpost
    cases hpost
    simpa using hc

theorem retryOnConflict_exhausted_two :
    run (retryOnConflict fun s : Unit =>
        (.pure (s, some .conflict) : Prog Nat (Unit × Option Error))) (Retry.start 2 ())
      [.attempt, .returned false none, .attempt, .returned false none, .exit] =
      some (.done (some .conflict) ()) ∧ some Error.conflict = some .conflict :=
  have h : run (retryOnConflict fun s : Unit =>
      (.pure (s, some .conflict) : Prog Nat (Unit × Option Error))) (Retry.start 2 ())
      [.attempt, .returned false none, .attempt, .returned false none, .exit] =
      some (.done (some .conflict) ()) := rfl
  ⟨h, retryOnConflict_exhausted (by decide) h (by simp)⟩

end Attempts

def decode (obj : Object α) : Reply α → Object α × Option Error
  | .ok o => (o, none)
  | .error err => (obj, some err)

def patchWithLock (obj beforePatch : Object α) : Prog α (Object α × Option Error) :=
  .call (.patch obj beforePatch) fun r => .pure (decode obj r)

def ensureFinalizerFn (finalizerName : String) (obj : Object α) :
    Prog α (Object α × Option Error) :=
  .call .get fun r =>
    let (obj, err) := decode obj r
    if err.isSome then .pure (obj, err)
    else if containsFinalizer obj finalizerName then .pure (obj, none)
    else
      let beforePatch := obj
      patchWithLock (addFinalizer obj finalizerName) beforePatch

/-- The closure of `DeleteFinalizer`: a NotFound from `Get` is ignored. -/
def deleteFinalizerFn (finalizerName : String) (obj : Object α) :
    Prog α (Object α × Option Error) :=
  .call .get fun r =>
    let (obj, err) := decode obj r
    if (ignoreNotFound err).isSome then .pure (obj, err)
    else if !containsFinalizer obj finalizerName then .pure (obj, none)
    else
      let beforePatch := obj
      patchWithLock (removeFinalizer obj finalizerName) beforePatch

variable [DecidableEq α]

def ensureFinalizer (finalizerName : String) :
    Retry α (Object α) → Event α → Option (Retry α (Object α)) :=
  retryOnConflict (ensureFinalizerFn finalizerName)

def deleteFinalizer (finalizerName : String) :
    Retry α (Object α) → Event α → Option (Retry α (Object α)) :=
  retryOnConflict (deleteFinalizerFn finalizerName)

/-- Once the object is gone, `DeleteFinalizer` ignores its `Get`'s NotFound but goes on with
the caller's copy: if that copy still has the finalizer, it patches the missing object and
returns the Patch's NotFound. -/
theorem deleteFinalizer_patches_missing {st : Store α} (hst : st.object = none)
    {finalizerName : String} {obj : Object α} (hm : finalizerName ∈ obj.finalizers) :
    run (System.step fun _ : Fin 1 => deleteFinalizer finalizerName)
      ⟨st, fun _ => Retry.start defaultRetrySteps obj⟩
      [(0, .attempt), (0, .call .get (.error .notFound)),
        (0, .call (.patch (removeFinalizer obj finalizerName) obj) (.error .notFound)),
        (0, .returned false (some .notFound))] =
      some ⟨st, fun _ => .done (some .notFound) (removeFinalizer obj finalizerName)⟩ := by
  have hc : containsFinalizer obj finalizerName = true := (containsFinalizer_iff _ _).2 hm
  have hstart : (Retry.start defaultRetrySteps obj : Retry α (Object α)) = .head (4 + 1) none obj :=
    rfl
  simp [run, System.step, Store.answer, Store.handle, Store.casWrite, hst, hc, hstart,
    deleteFinalizer, retryOnConflict, onError_attempt, deleteFinalizerFn, onError_call, decode,
    ignoreNotFound, patchWithLock, onError_returned_error, Error.isConflict]
  funext i
  rw [Subsingleton.elim i 0, Function.update_same]

theorem deleteFinalizer_patches_missing_copy :
    run (System.step fun _ : Fin 1 => deleteFinalizer "m")
      ⟨⟨none, 0, fun _ h => Option.noConfusion h⟩,
        fun _ => Retry.start defaultRetrySteps (⟨1, ["m"], 0, 0⟩ : Object Nat)⟩
      [(0, .attempt), (0, .call .get (.error .notFound)),
        (0, .call (.patch (removeFinalizer ⟨1, ["m"], 0, 0⟩ "m") ⟨1, ["m"], 0, 0⟩) (.error .notFound)),
        (0, .returned false (some .notFound))] =
      some ⟨⟨none, 0, fun _ h => Option.noConfusion h⟩,
        fun _ => .done (some .notFound) (removeFinalizer ⟨1, ["m"], 0, 0⟩ "m")⟩ :=
  deleteFinalizer_patches_missing rfl (List.mem_singleton_self _)

end ResourceManager
