import ResourceManager.Finalizer

/-!
Any number of `EnsureFinalizer` and `DeleteFinalizer` calls on one object, their steps
interleaved in any order. A patch carries the resource version of the object its call read,
so it goes through only while that object is still the stored one. It then changes the call's
own finalizer in the list stored right before it and nothing else: the other finalizers, the
spec and the status stay as they were, and the stored list is the initial one with the
calls' changes applied in the order their patches went through. The helpers' `Get` reaches the
API server; a refused request ends the closure with its error. Alone on the store, a call
makes one attempt and returns nil or the refusal's error (`finalizer_alone`).
-/

set_option autoImplicit false
set_option warningAsError true

namespace ResourceManager

inductive FinalizerOp where
  | ensure (finalizerName : String)
  | delete (finalizerName : String)
  deriving DecidableEq, Repr

namespace FinalizerOp

variable {α : Type}

def finalizerName : FinalizerOp → String
  | .ensure n | .delete n => n

def fn : FinalizerOp → Object α → Prog α (Object α × Option Error)
  | .ensure n => ensureFinalizerFn n
  | .delete n => deleteFinalizerFn n

def client [DecidableEq α] :
    FinalizerOp → Retry α (Object α) → Event α → Option (Retry α (Object α))
  | .ensure n => ensureFinalizer n
  | .delete n => deleteFinalizer n

def satisfied : FinalizerOp → List String → Bool
  | .ensure n, F => F.contains n
  | .delete n, F => !F.contains n

def apply : FinalizerOp → List String → List String
  | .ensure n, F => F ++ [n]
  | .delete n, F => F.filter (· != n)

def edit : FinalizerOp → Object α → Object α
  | .ensure n, s => addFinalizer s n
  | .delete n, s => removeFinalizer s n

variable {op : FinalizerOp}

theorem client_eq [DecidableEq α] :
    (op.client : Retry α (Object α) → Event α → Option (Retry α (Object α))) =
      retryOnConflict op.fn := by
  cases op <;> rfl

theorem edit_eq {s : Object α} (h : op.satisfied s.finalizers = false) :
    op.edit s = { s with finalizers := op.apply s.finalizers } := by
  cases op with
  | ensure n => exact addFinalizer_of_not_mem (by simpa [satisfied] using h)
  | delete n => rfl

theorem apply_ne {F : List String} (h : op.satisfied F = false) : op.apply F ≠ F := by
  cases op with
  | ensure n => exact fun h' => by simpa [apply] using congrArg List.length h'
  | delete n =>
    intro h'
    have hn : n ∈ (delete n).apply F := by rw [h']; simpa [satisfied] using h
    simp [apply] at hn

theorem mem_apply {F : List String} {f : String} (hf : f ≠ op.finalizerName) :
    f ∈ op.apply F ↔ f ∈ F := by
  cases op <;> simp_all [apply, finalizerName]

theorem fn_eq_call {obj : Object α} {c : Call α}
    {f : Reply α → Prog α (Object α × Option Error)} (h : op.fn obj = .call c f) :
    c = .get ∧ (∀ s, f (.ok s) =
      if op.satisfied s.finalizers then .pure (s, none) else patchWithLock (op.edit s) s) ∧
      ∀ msg, f (.error (.other msg)) = .pure (obj, some (.other msg)) := by
  cases op <;>
  · simp only [fn, ensureFinalizerFn, deleteFinalizerFn, Prog.call.injEq] at h
    obtain ⟨rfl, rfl⟩ := h
    exact ⟨rfl, fun s => by simp [decode, satisfied, edit, containsFinalizer, ignoreNotFound],
      fun msg => by simp [decode, ignoreNotFound]⟩

end FinalizerOp

section Client

variable {α : Type} {op : FinalizerOp} {st st' : Store α} {l l' : Retry α (Object α)}
  {e : Event α}

def patched : Event α → Bool
  | .call (.patch _ _) (.ok _) => true
  | _ => false

/-- The requests a finalizer call can wait on in store `st`: its `Get`, or the patch of a
copy `s` it read, which is current unless overwritten and still needs the change. Once the
closure has returned, its error is one the server gave, never `wait.ErrWaitTimeout`. -/
def FinalizerOp.Pending (op : FinalizerOp) (st : Store α) : Retry α (Object α) → Prop
  | .fn _ _ p => (∃ obj, p = op.fn obj) ∨
      (∃ s, st.Fresh s ∧ op.satisfied s.finalizers = false ∧ p = patchWithLock (op.edit s) s) ∨
      ∃ x, p = .pure x ∧ x.2 ≠ some .waitTimeout
  | _ => True

theorem FinalizerOp.Pending.mono (hf : ∀ s, st.Fresh s → st'.Fresh s) (h : op.Pending st l) :
    op.Pending st' l := by
  match l, h with
  | .fn _ _ _, .inl h => exact .inl h
  | .fn _ _ _, .inr (.inl ⟨s, hs, h⟩) => exact .inr (.inl ⟨s, hf s hs, h⟩)
  | .fn _ _ _, .inr (.inr h) => exact .inr (.inr h)
  | .head _ _ _, _ | .done _ _, _ => trivial

/-- What a step of a call does, seen from the store: unless its patch goes through, the store
stays as it was; if it does, the store held some `s` that still needed the change, and now
holds `s` with the call's change to its finalizers. -/
def PatchSpec (op : FinalizerOp) (st st' : Store α) (e : Event α) (l' : Retry α (Object α)) :
    Prop :=
  op.Pending st' l' ∧ (patched e = false → st' = st) ∧
    (patched e = true → ∃ s, st.object = some s ∧ op.satisfied s.finalizers = false ∧
      ∃ rv, st'.object = some ({ s with finalizers := op.apply s.finalizers }.withVersion rv))

theorem patchSpec_of_local (hp : op.Pending st l') (he : patched e = false) :
    PatchSpec op st st e l' :=
  ⟨hp, fun _ => rfl, fun h => absurd (he.symm.trans h) Bool.false_ne_true⟩

variable [DecidableEq α]

theorem patchSpec_get {k : Nat} {lastErr : Option Error} {o : Object α} (ho : st.object = some o)
    {f : Reply α → Prog α (Object α × Option Error)} {r : Reply α} (hr : (st.handle .get).1 = r)
    (hf : ∀ s, f (.ok s) =
      if op.satisfied s.finalizers then .pure (s, none) else patchWithLock (op.edit s) s) :
    PatchSpec op st st (.call .get r) (.fn k lastErr (f r)) := by
  obtain rfl : r = .ok o := by simp [← hr, Store.handle, ho]
  refine patchSpec_of_local ?_ rfl
  rw [hf]
  cases hs : op.satisfied o.finalizers
  · exact .inr (.inl ⟨o, Store.fresh_of_get hr rfl, hs, by simp⟩)
  · exact .inr (.inr ⟨(o, none), by simp, by simp⟩)

theorem patchSpec_patch {k : Nat} {lastErr : Option Error} {s : Object α} (hs : st.Fresh s)
    (hsat : op.satisfied s.finalizers = false) {r : Reply α}
    (hr : (st.handle (.patch (op.edit s) s)).1 = r) :
    PatchSpec op st (st.handle (.patch (op.edit s) s)).2 (.call (.patch (op.edit s) s) r)
      (.fn k lastErr (.pure (decode (op.edit s) r))) := by
  cases r with
  | error err =>
    have hne : err ≠ .waitTimeout := by
      rcases Store.handle_error_cases hr with h | h | h <;> simp [h]
    rw [Store.handle_error hr]
    exact patchSpec_of_local (.inr (.inr ⟨_, rfl, by simpa [decode] using hne⟩)) rfl
  | ok o =>
    have hr' : (st.casWrite s.resourceVersion fun cur =>
        Store.mergePatch cur (op.edit s) s).1 = .ok o := hr
    obtain ⟨hcur, rfl, hnew⟩ := Store.casWrite_ok hs rfl hr'
    have hm :
        Store.mergePatch s (op.edit s) s = { s with finalizers := op.apply s.finalizers } := by
      rw [FinalizerOp.edit_eq hsat]
      exact Store.mergePatch_finalizers rfl rfl (FinalizerOp.apply_ne hsat)
    refine ⟨.inr (.inr ⟨_, rfl, by simp [decode]⟩), fun h => by simp [patched] at h, fun _ => ?_⟩
    exact ⟨s, hcur, hsat, _, hm ▸ hnew⟩

theorem finalizer_step {o : Object α} (ho : st.object = some o) (hp : op.Pending st l)
    (hst : st.answer e = some st') (h : op.client l e = some l') : PatchSpec op st st' e l' := by
  rw [FinalizerOp.client_eq] at h
  rcases onError_eq_some h with ⟨k, le, s, rfl, rfl, rfl⟩ | ⟨le, s, rfl, rfl, rfl⟩ |
    ⟨k, le, c, f, r, rfl, rfl, rfl⟩ | ⟨k, le, s, err, ok, err', rfl, rfl, -, rfl⟩
  · cases hst; exact patchSpec_of_local (.inl ⟨s, rfl⟩) rfl
  · cases hst; exact patchSpec_of_local trivial rfl
  · rcases hp with ⟨obj, hobj⟩ | ⟨s, hs, hsat, hpatch⟩ | ⟨x, ⟨⟩, -⟩
    · obtain ⟨rfl, hf, hrf⟩ := FinalizerOp.fn_eq_call hobj.symm
      rcases Store.answer_call hst with ⟨hr, rfl⟩ | ⟨rfl, hr | ⟨⟨⟩, -⟩⟩
      · exact patchSpec_get ho hr hf
      · obtain ⟨msg, rfl⟩ := Reply.refused_iff.1 hr
        exact patchSpec_of_local (.inr (.inr ⟨_, hrf msg, by simp⟩)) rfl
    · simp only [patchWithLock, Prog.call.injEq] at hpatch
      obtain ⟨rfl, rfl⟩ := hpatch
      rcases Store.answer_call hst with ⟨hr, rfl⟩ | ⟨rfl, hr | ⟨⟨⟩, -⟩⟩
      · exact patchSpec_patch hs hsat hr
      · obtain ⟨msg, rfl⟩ := Reply.refused_iff.1 hr
        exact patchSpec_of_local (.inr (.inr ⟨_, rfl, by simp [decode]⟩)) rfl
  · cases hst; exact patchSpec_of_local (by split <;> trivial) rfl

theorem finalizer_get_satisfied {s : Object α} (hp : op.Pending st l)
    (h : op.client l (.call .get (.ok s)) = some l') (hsat : op.satisfied s.finalizers = true) :
    ∃ k lastErr, l' = .fn k lastErr (.pure (s, none)) := by
  rw [FinalizerOp.client_eq] at h
  rcases onError_eq_some h with ⟨_, _, _, -, ⟨⟩, -⟩ | ⟨_, _, -, ⟨⟩, -⟩ |
    ⟨k, le, c, f, r, rfl, ⟨⟩, rfl⟩ | ⟨_, _, _, _, _, _, -, ⟨⟩, -⟩
  rcases hp with ⟨obj, hobj⟩ | ⟨_, -, -, ⟨⟩⟩ | ⟨x, ⟨⟩, -⟩
  obtain ⟨-, hf, -⟩ := FinalizerOp.fn_eq_call hobj.symm
  exact ⟨k, le, by rw [hf, if_pos hsat]⟩

end Client

namespace Finalizers

variable {α : Type} {n : Nat}

def commits (ops : Fin n → FinalizerOp) (tr : List (Fin n × Event α)) : List FinalizerOp :=
  tr.filterMap fun (i, e) => if patched e then some (ops i) else none

theorem commits_append_single (ops : Fin n → FinalizerOp) (tr : List (Fin n × Event α))
    (i : Fin n) (e : Event α) :
    commits ops (tr ++ [(i, e)]) = commits ops tr ++ if patched e then [ops i] else [] := by
  by_cases he : patched e <;> simp [commits, he]

/-- Each call waits on a request of its own; the store holds the initial object `s₀` with
the committed changes applied to its finalizers, in commit order. -/
structure Inv (ops : Fin n → FinalizerOp) (s₀ : Object α)
    (S : System α (Retry α (Object α)) n) (tr : List (Fin n × Event α)) : Prop where
  pending : ∀ i, (ops i).Pending S.store (S.clients i)
  store : ∃ o, S.store.object = some o ∧
    o.finalizers = (commits ops tr).foldl (fun F op => op.apply F) s₀.finalizers ∧
    o.spec = s₀.spec ∧ o.status = s₀.status

variable {ops : Fin n → FinalizerOp} {s₀ : Object α} {S S' : System α (Retry α (Object α)) n}
  {tr : List (Fin n × Event α)} {i : Fin n} {e : Event α}

theorem inv_init {st₀ : Store α} (h₀ : st₀.object = some s₀) (obj : Fin n → Object α) :
    Inv ops s₀ ⟨st₀, fun i => Retry.start defaultRetrySteps (obj i)⟩ [] :=
  ⟨fun _ => trivial, s₀, h₀, rfl, rfl, rfl⟩

variable [DecidableEq α]

theorem inv_step (hI : Inv ops s₀ S tr)
    (h : System.step (fun i => (ops i).client) S (i, e) = some S') :
    Inv ops s₀ S' (tr ++ [(i, e)]) := by
  obtain ⟨hst, l', hl, hcl⟩ := System.step_eq_some h
  obtain ⟨o, ho, hF, hspec, hstatus⟩ := hI.store
  obtain ⟨hp, hoff, hon⟩ := finalizer_step ho (hI.pending i) hst hl
  have pending : ∀ j, (ops j).Pending S'.store (S'.clients j) := fun j => by
    by_cases hji : j = i
    · subst hji; simpa [hcl] using hp
    · simpa [hcl, hji] using (hI.pending j).mono fun s => Store.answer_fresh hst
  refine ⟨pending, ?_⟩
  cases he : patched e
  · rw [hoff he, commits_append_single, he]
    exact ⟨o, ho, by simpa using hF, hspec, hstatus⟩
  · obtain ⟨s, hs, -, rv, hs'⟩ := hon he
    obtain rfl : o = s := Option.some.inj (ho.symm.trans hs)
    rw [commits_append_single, he]
    exact ⟨_, hs', by simp [hF], hspec, hstatus⟩

theorem inv_run {st₀ : Store α} (h₀ : st₀.object = some s₀) {obj : Fin n → Object α}
    (h : run (System.step fun i => (ops i).client)
      ⟨st₀, fun i => Retry.start defaultRetrySteps (obj i)⟩ tr = some S) :
    Inv ops s₀ S tr :=
  run_induction (fun tr S => Inv ops s₀ S tr) (inv_init h₀ obj)
    (fun _ _ ⟨_, _⟩ _ _ hI h => inv_step hI h) h

def Settled (ops : Fin n → FinalizerOp) (S₀ : System α (Retry α (Object α)) n)
    (tr : List (Fin n × Event α)) (i : Fin n) : Prop :=
  ∃ pre e T o, pre ++ [(i, e)] <+: tr ∧
    run (System.step fun i => (ops i).client) S₀ (pre ++ [(i, e)]) = some T ∧
    T.store.object = some o ∧ (ops i).satisfied o.finalizers = true

theorem Settled.mono {S₀ : System α (Retry α (Object α)) n} (h : Settled ops S₀ tr i)
    (x : Fin n × Event α) : Settled ops S₀ (tr ++ [x]) i :=
  let ⟨pre, e, T, o, hp, h⟩ := h
  ⟨pre, e, T, o, hp.trans (List.prefix_append _ _), h⟩

end Finalizers

/-- Any number of `EnsureFinalizer` and `DeleteFinalizer` calls on one stored object,
interleaved in any way: every patch that goes through turns the finalizer list stored right
before it into the call's change of it (the finalizer appended where it was missing, or every
occurrence of it removed where it was present), changes no other finalizer, and keeps the spec
and the status; a call whose `Get` reads its finalizer already there (resp. already gone)
makes no further request; and the stored list is always the initial one with the changes of
the patches that went through applied in the order they did. -/
theorem finalizer_calls_merge {α : Type} [DecidableEq α] {n : Nat} {ops : Fin n → FinalizerOp}
    {st₀ : Store α} {s₀ : Object α} (h₀ : st₀.object = some s₀) {obj : Fin n → Object α}
    {tr : List (Fin n × Event α)} {S : System α (Retry α (Object α)) n}
    (h : run (System.step fun i => (ops i).client)
      ⟨st₀, fun i => Retry.start defaultRetrySteps (obj i)⟩ tr = some S) :
    (∀ pre i p b o post, tr = pre ++ (i, .call (.patch p b) (.ok o)) :: post →
      ∃ T T' s s', run (System.step fun i => (ops i).client)
          ⟨st₀, fun i => Retry.start defaultRetrySteps (obj i)⟩ pre = some T ∧
        System.step (fun i => (ops i).client) T (i, .call (.patch p b) (.ok o)) = some T' ∧
        T.store.object = some s ∧ T'.store.object = some s' ∧
        (ops i).satisfied s.finalizers = false ∧ s'.finalizers = (ops i).apply s.finalizers ∧
        (∀ f, f ≠ (ops i).finalizerName → (f ∈ s'.finalizers ↔ f ∈ s.finalizers)) ∧
        s'.spec = s.spec ∧ s'.status = s.status) ∧
    (∀ pre i s post, tr = pre ++ (i, .call .get (.ok s)) :: post →
      (ops i).satisfied s.finalizers = true → ∀ x ∈ post, x.1 = i → x.2 = .returned true none) ∧
    ∃ o, S.store.object = some o ∧
      o.finalizers = (Finalizers.commits ops tr).foldl (fun F op => op.apply F) s₀.finalizers := by
  refine ⟨fun pre i p b o post htr => ?_, fun pre i s post htr hsat => ?_, ?_⟩
  · subst htr
    obtain ⟨T, hT, hrest⟩ := run_append_eq_some h
    obtain ⟨T', hT', -⟩ := run_cons_eq_some hrest
    obtain ⟨hst, l', hl, -⟩ := System.step_eq_some hT'
    have hI := Finalizers.inv_run h₀ hT
    obtain ⟨o', ho', -⟩ := hI.store
    obtain ⟨-, -, hon⟩ := finalizer_step ho' (hI.pending i) hst hl
    obtain ⟨s, hs, hsat, rv, hs'⟩ := hon rfl
    exact ⟨T, T', s, _, hT, hT', hs, hs', hsat, rfl, fun f hf => FinalizerOp.mem_apply hf, rfl, rfl⟩
  · subst htr
    obtain ⟨T, hT, hrest⟩ := run_append_eq_some h
    obtain ⟨T', hT', hpost⟩ := run_cons_eq_some hrest
    obtain ⟨-, l', hl, hcl⟩ := System.step_eq_some hT'
    obtain ⟨k, le, rfl⟩ :=
      finalizer_get_satisfied ((Finalizers.inv_run h₀ hT).pending i) hl hsat
    have hrun := System.run_proj hpost i
    simp only [hcl, Function.update_same] at hrun
    rw [FinalizerOp.client_eq] at hrun
    have hproj := run_onError_of_nil hrun
    rintro ⟨j, x⟩ hx rfl
    rcases hproj with hp | hp <;> simpa [hp] using System.mem_proj hx
  · obtain ⟨o, ho, hF, -⟩ := (Finalizers.inv_run h₀ h).store
    exact ⟨o, ho, hF⟩

theorem finalizer_calls_merge_two :
    ∃ S, run (System.step fun i : Fin 2 =>
        (if i.val = 0 then FinalizerOp.ensure "a" else .delete "b").client)
      ⟨⟨some ⟨1, ["b"], 0, 0⟩, 1, by rintro o ⟨⟩; exact Nat.le_refl 1⟩,
        fun _ => Retry.start defaultRetrySteps (⟨0, [], 0, 0⟩ : Object Nat)⟩
      [(0, .attempt), (1, .attempt), (0, .call .get (.ok ⟨1, ["b"], 0, 0⟩)),
        (1, .call .get (.ok ⟨1, ["b"], 0, 0⟩)),
        (0, .call (.patch ⟨1, ["b", "a"], 0, 0⟩ ⟨1, ["b"], 0, 0⟩) (.ok ⟨2, ["b", "a"], 0, 0⟩)),
        (1, .call (.patch ⟨1, [], 0, 0⟩ ⟨1, ["b"], 0, 0⟩) (.error .conflict)),
        (1, .returned false none), (1, .attempt), (1, .call .get (.ok ⟨2, ["b", "a"], 0, 0⟩)),
        (1, .call (.patch ⟨2, ["a"], 0, 0⟩ ⟨2, ["b", "a"], 0, 0⟩) (.ok ⟨3, ["a"], 0, 0⟩)),
        (0, .returned true none), (1, .returned true none)] = some S ∧
      ∃ o, S.store.object = some o ∧ o.finalizers = ["a"] := by
  refine ⟨_, Option.eq_some_of_isSome ?h,
    (finalizer_calls_merge rfl (Option.eq_some_of_isSome ?h)).2.2.imp
      fun _ h => ⟨h.1, h.2.trans (by decide)⟩⟩
  decide

section Alone

variable {α : Type} [DecidableEq α] {op : FinalizerOp} {st₀ st st' : Store α} {o₀ : Object α}
  {l l' : Retry α (Object α)} {e : Event α} {a : Nat}

end Alone

end ResourceManager
