import ResourceManager.Linearizable
import ResourceManager.ConcurrentFinalizers
import ResourceManager.CreateOrUpdateClients

/-!
All the helpers of `pkg/controller/utils` that write an object, at work on the one object at
once: `TryUpdate`, `TryUpdateStatus`, `EnsureFinalizer`, `DeleteFinalizer` and
`TypedCreateOrUpdate` calls, their steps interleaved in any order. Every write carries the
resource version of the object its call read, so it takes effect on the object stored right
before it. A call that leaves the finalizers alone (a `TryUpdate` whose transform and a
`TypedCreateOrUpdate` whose `mutate` keep them, and any `TryUpdateStatus`) therefore never
drops a finalizer that a concurrent `EnsureFinalizer` added, nor brings back one that a
concurrent `DeleteFinalizer` removed: the stored list is the initial one with the finalizer
calls' changes applied in the order their patches went through (`helpers_keep_finalizers`).
-/

set_option autoImplicit false
set_option warningAsError true

namespace ResourceManager

variable {α : Type}

/-- One call of a helper that writes the object. -/
inductive HelperCall (α : Type) where
  | tryUpdate (backoff : Backoff) (updateFunc : UpdateFunc)
    (transform : Object α → Object α × Option Error) (obj : Object α)
  | finalizer (op : FinalizerOp) (obj : Object α)
  | createOrUpdate (call : CreateOrUpdateCall α)

inductive HelperState (α : Type) where
  | loop (l : Loop α (Object α))
  | retry (l : Retry α (Object α))
  | prog (p : Prog α (OperationResult × Option Error))

namespace HelperCall

def start : HelperCall α → HelperState α
  | .tryUpdate _ _ _ obj => .loop (Loop.start obj)
  | .finalizer _ obj => .retry (Retry.start defaultRetrySteps obj)
  | .createOrUpdate a => .prog a.prog

def KeepsVersion : HelperCall α → Prop
  | .tryUpdate _ _ t _ => ∀ s, (t s).1.resourceVersion = s.resourceVersion
  | .finalizer _ _ => True
  | .createOrUpdate a => a.Keeps Object.resourceVersion

def KeepsFinalizers : HelperCall α → Prop
  | .tryUpdate _ u t _ => u = .status ∨ ∀ s, (t s).1.finalizers = s.finalizers
  | .finalizer _ _ => True
  | .createOrUpdate a => a.Keeps Object.finalizers

/-- What a write of the call that goes through stores, up to its version, over the stored
`s`: what the transform made of `s` through `updateFunc`; `s` with the call's change to its
finalizers, which `s` still needed; or what `mutate` made of `s`. -/
def Writes : HelperCall α → Object α → Object α → Prop
  | .tryUpdate _ u t _, s, x => (t s).2 = none ∧ x = effect u t s
  | .finalizer op _, s, x =>
    op.satisfied s.finalizers = false ∧ x = { s with finalizers := op.apply s.finalizers }
  | .createOrUpdate a, s, x =>
    ∃ u, (if a.scheme = .clientObject then a.convert s else .ok s) = .ok u ∧ x = (a.mutate u).1

def finalizerOp : HelperCall α → Option FinalizerOp
  | .finalizer op _ => some op
  | _ => none

variable {c : HelperCall α}

theorem effect_finalizers {u : UpdateFunc} {t : Object α → Object α × Option Error}
    (hf : u = .status ∨ ∀ s, (t s).1.finalizers = s.finalizers) (s : Object α) :
    (effect u t s).finalizers = s.finalizers := by
  rcases hf with rfl | hf
  · rfl
  · cases u
    · exact hf s
    · rfl

theorem Writes.finalizers (hk : c.KeepsFinalizers) {s x : Object α} (hx : c.Writes s x) :
    x.finalizers = c.finalizerOp.elim s.finalizers fun op => op.apply s.finalizers := by
  cases c with
  | tryUpdate b u t obj => rw [hx.2]; exact effect_finalizers hk s
  | finalizer op obj => rw [hx.2]; rfl
  | createOrUpdate a =>
    obtain ⟨u, hu, rfl⟩ := hx
    exact hk.mutate hu

variable [DecidableEq α]

def client : HelperCall α → HelperState α → Event α → Option (HelperState α)
  | .tryUpdate b u t _, .loop l, e => (ResourceManager.tryUpdate b u t l e).map .loop
  | .finalizer op _, .retry l, e => (op.client l e).map .retry
  | .createOrUpdate _, .prog p, e => (p.step e).map .prog
  | _, _, _ => none

def Pending : HelperCall α → Store α → HelperState α → Prop
  | .tryUpdate _ u t _, st, .loop l => ResourceManager.Pending u t st l
  | .finalizer op _, st, .retry l => op.Pending st l
  | .createOrUpdate a, st, .prog p => a.Pending st p
  | _, _, _ => False

variable {st st' : Store α} {l l' : HelperState α} {e : Event α}

theorem pending_start (st : Store α) : c.Pending st c.start := by
  cases c with
  | tryUpdate b u t obj => trivial
  | finalizer op obj => trivial
  | createOrUpdate a => exact .inl rfl

theorem Pending.mono (hf : ∀ s, st.Fresh s → st'.Fresh s) (h : c.Pending st l) :
    c.Pending st' l := by
  cases c with
  | tryUpdate =>
    cases l with
    | loop l => exact ResourceManager.Pending.mono hf h
    | retry _ | prog _ => cases h
  | finalizer =>
    cases l with
    | retry l => exact FinalizerOp.Pending.mono hf h
    | loop _ | prog _ => cases h
  | createOrUpdate =>
    cases l with
    | prog q => exact CreateOrUpdateCall.Pending.mono hf h
    | loop _ | retry _ => cases h

theorem effective_of_wrote {t : Object α → Object α × Option Error} (hw : e.wrote = true) :
    effective t e = true := by
  match e, hw with
  | .call c (.ok o), hw =>
    refine effective_eq_true.2 (.inr ⟨c, o, rfl, fun hc => ?_⟩)
    simp [hc, Event.wrote, Call.isGet] at hw

theorem step_spec (hv : c.KeepsVersion) {o : Object α} (ho : st.object = some o)
    (hp : c.Pending st l) (hst : st.answer e = some st') (h : c.client l e = some l') :
    c.Pending st' l' ∧
      (e.wrote = true → ∃ x rv, c.Writes o x ∧ st'.object = some (x.withVersion rv)) := by
  cases c with
  | tryUpdate b u t obj =>
    cases l with
    | loop l =>
      obtain ⟨l'', hl, rfl⟩ := Option.map_eq_some'.1 h
      obtain ⟨hp', -, hon⟩ := tryUpdate_step hv hp hst hl
      refine ⟨hp', fun hw => ?_⟩
      obtain ⟨-, -, s, hs, h2, rv, hs'⟩ := hon (effective_of_wrote hw)
      obtain rfl : o = s := Option.some.inj (ho.symm.trans hs)
      exact ⟨_, rv, ⟨h2, rfl⟩, hs'⟩
    | retry _ | prog _ => cases hp
  | finalizer op obj =>
    cases l with
    | retry l =>
      obtain ⟨l'', hl, rfl⟩ := Option.map_eq_some'.1 h
      obtain ⟨hp', hoff, hon⟩ := finalizer_step ho hp hst hl
      refine ⟨hp', fun hw => ?_⟩
      cases he : patched e
      · exact absurd (hoff he) (Store.answer_wrote_ne hst hw)
      · obtain ⟨s, hs, hsat, rv, hs'⟩ := hon he
        obtain rfl : o = s := Option.some.inj (ho.symm.trans hs)
        exact ⟨_, rv, ⟨hsat, rfl⟩, hs'⟩
    | loop _ | prog _ => cases hp
  | createOrUpdate a =>
    cases l with
    | prog q =>
      obtain ⟨q', hq, rfl⟩ := Option.map_eq_some'.1 h
      obtain ⟨hp', hst'⟩ := a.step_spec hv ho hp hst hq
      refine ⟨hp', fun hw => ?_⟩
      rcases hst' with rfl | ⟨u, hu, rv, hs'⟩
      · exact absurd rfl (Store.answer_wrote_ne hst hw)
      · exact ⟨_, rv, ⟨u, hu, rfl⟩, hs'⟩
    | loop _ | retry _ => cases hp

end HelperCall

namespace Helpers

variable {n : Nat}

def commits (calls : Fin n → HelperCall α) (tr : List (Fin n × Event α)) : List FinalizerOp :=
  tr.filterMap fun x => if x.2.wrote then (calls x.1).finalizerOp else none

structure Inv [DecidableEq α] (calls : Fin n → HelperCall α)
    (S : System α (HelperState α) n) : Prop where
  pending : ∀ i, (calls i).Pending S.store (S.clients i)
  stored : S.store.object.isSome

variable [DecidableEq α] {calls : Fin n → HelperCall α} {s₀ : Object α} {st₀ : Store α}
  {S S' : System α (HelperState α) n} {tr : List (Fin n × Event α)} {i : Fin n}
  {e : Event α}

theorem inv_step (hv : ∀ i, (calls i).KeepsVersion) (hI : Inv calls S)
    (h : System.step (fun i => (calls i).client) S (i, e) = some S') : Inv calls S' := by
  obtain ⟨hst, l', hl, hcl⟩ := System.step_eq_some h
  obtain ⟨o, ho⟩ := Option.isSome_iff_exists.1 hI.stored
  obtain ⟨hp, -⟩ := (calls i).step_spec (hv i) ho (hI.pending i) hst hl
  have hrun : run Store.answer S.store [e] = some S'.store := by simpa [run] using hst
  refine ⟨fun j => ?_, Store.run_isSome hrun hI.stored⟩
  by_cases hji : j = i
  · subst hji; simpa [hcl] using hp
  · simpa [hcl, hji] using (hI.pending j).mono fun s => Store.answer_fresh hst

theorem inv_run (hv : ∀ i, (calls i).KeepsVersion) (h₀ : st₀.object.isSome)
    (h : run (System.step fun i => (calls i).client) ⟨st₀, fun i => (calls i).start⟩ tr =
      some S) :
    Inv calls S :=
  run_induction (fun _ S => Inv calls S) ⟨fun _ => HelperCall.pending_start st₀, h₀⟩
    (fun _ _ ⟨_, _⟩ _ _ hI h => inv_step hv hI h) h

theorem finalizers_run (hv : ∀ i, (calls i).KeepsVersion)
    (hk : ∀ i, (calls i).KeepsFinalizers) (h₀ : st₀.object = some s₀)
    (h : run (System.step fun i => (calls i).client) ⟨st₀, fun i => (calls i).start⟩ tr =
      some S) :
    ∃ o, S.store.object = some o ∧
      o.finalizers = (commits calls tr).foldl (fun F op => op.apply F) s₀.finalizers := by
  refine run_induction (fun (tr : List (Fin n × Event α)) (S : System α (HelperState α) n) =>
      ∃ o, S.store.object = some o ∧
        o.finalizers = (commits calls tr).foldl (fun F op => op.apply F) s₀.finalizers)
    ⟨s₀, h₀, rfl⟩ (fun tr T ⟨i, e⟩ T' hT ⟨o, ho, hF⟩ hstep => ?_) h
  obtain ⟨hst, l', hl, -⟩ := System.step_eq_some hstep
  obtain ⟨-, hw⟩ := (calls i).step_spec (hv i) ho ((inv_run hv (by simp [h₀]) hT).pending i)
    hst hl
  cases hwe : e.wrote
  · rw [Store.answer_quiet hst hwe]
    exact ⟨o, ho, by simp [commits, hwe, hF]⟩
  · obtain ⟨x, rv, hx, hs'⟩ := hw hwe
    refine ⟨_, hs', ?_⟩
    rw [Object.withVersion_finalizers, hx.finalizers (hk i), hF]
    cases hop : (calls i).finalizerOp <;> simp [commits, hwe, hop]

end Helpers

theorem FinalizerOp.mem_foldl_apply {f : String} {ops : List FinalizerOp}
    (hops : ∀ op ∈ ops, op ≠ .delete f) {F : List String} (hf : f ∈ F) :
    f ∈ ops.foldl (fun F op => op.apply F) F := by
  induction ops generalizing F with
  | nil => exact hf
  | cons op ops ih =>
    refine ih (fun op' h => hops op' (List.mem_cons_of_mem _ h)) ?_
    cases op with
    | ensure n => simp [apply, hf]
    | delete n =>
      have hn : n ≠ f := fun h => hops _ (List.mem_cons_self _ _) (h ▸ rfl)
      simp [apply, hf, Ne.symm hn]

/-- Any number of `TryUpdate`, `TryUpdateStatus`, `EnsureFinalizer`, `DeleteFinalizer` and
`TypedCreateOrUpdate` calls on one stored object, interleaved in any way, whose writes carry
the resource version of the object the call read: every write that goes through stores what
its call computed from the object stored right before it, so no write is lost under another. -/
theorem helpers_write_current [DecidableEq α] {n : Nat} {calls : Fin n → HelperCall α}
    (hv : ∀ i, (calls i).KeepsVersion) {st₀ : Store α} (h₀ : st₀.object.isSome)
    {tr : List (Fin n × Event α)} {S : System α (HelperState α) n}
    (h : run (System.step fun i => (calls i).client) ⟨st₀, fun i => (calls i).start⟩ tr =
      some S) :
    ∀ pre i e post, tr = pre ++ (i, e) :: post → e.wrote = true →
      ∃ T T' s x rv,
        run (System.step fun i => (calls i).client) ⟨st₀, fun i => (calls i).start⟩ pre =
          some T ∧
        System.step (fun i => (calls i).client) T (i, e) = some T' ∧
        T.store.object = some s ∧ (calls i).Writes s x ∧
        T'.store.object = some (x.withVersion rv) := by
  rintro pre i e post rfl hw
  obtain ⟨T, hT, hrest⟩ := run_append_eq_some h
  obtain ⟨T', hT', -⟩ := run_cons_eq_some hrest
  have hI := Helpers.inv_run hv h₀ hT
  obtain ⟨s, hs⟩ := Option.isSome_iff_exists.1 hI.stored
  obtain ⟨hst, l', hl, -⟩ := System.step_eq_some hT'
  obtain ⟨x, rv, hx, hs'⟩ := ((calls i).step_spec (hv i) hs (hI.pending i) hst hl).2 hw
  exact ⟨T, T', s, x, rv, hT, hT', hs, hx, hs'⟩

def ensureAndBump : Fin 2 → HelperCall Nat := fun i =>
  if i.val = 0 then .finalizer (.ensure "a") ⟨0, [], 0, 0⟩
  else .tryUpdate ⟨⟨4, by decide, by decide⟩⟩ .update
    (fun o => ({ o with spec := o.spec + 1 }, none)) ⟨0, [], 0, 0⟩

theorem helpers_write_current_retry :
    ∃ T T' s x rv,
      run (System.step fun i => (ensureAndBump i).client)
        ⟨⟨some ⟨1, [], 0, 0⟩, 1, by rintro o ⟨⟩; exact Nat.le_refl 1⟩,
          fun i => (ensureAndBump i).start⟩
        [(0, .attempt), (1, .attempt), (0, .call .get (.ok ⟨1, [], 0, 0⟩)),
          (1, .call .get (.ok ⟨1, [], 0, 0⟩)),
          (0, .call (.patch ⟨1, ["a"], 0, 0⟩ ⟨1, [], 0, 0⟩) (.ok ⟨2, ["a"], 0, 0⟩)),
          (1, .call (.update ⟨1, [], 1, 0⟩) (.error .conflict)), (1, .returned false none),
          (1, .ctxDone false), (1, .sleep), (1, .attempt),
          (1, .call .get (.ok ⟨2, ["a"], 0, 0⟩))] = some T ∧
      System.step (fun i => (ensureAndBump i).client) T
        (1, .call (.update ⟨2, ["a"], 1, 0⟩) (.ok ⟨3, ["a"], 1, 0⟩)) = some T' ∧
      T.store.object = some s ∧ (ensureAndBump 1).Writes s x ∧
      T'.store.object = some (x.withVersion rv) :=
  helpers_write_current (fun | ⟨0, _⟩ => trivial | ⟨1, _⟩ => fun _ => rfl) (by rfl)
    (Option.eq_some_of_isSome (by decide)) _ 1 _ [(0, .returned true none),
      (1, .returned true none)] rfl rfl

/-- The same calls, interleaved in any way, keep the finalizers as the finalizer calls alone
leave them, when the other calls' transforms and `mutate`s keep the resource version and the
finalizers: the stored list is the initial one with the changes of the finalizer calls' writes
that went through applied in the order they did. So a finalizer that was stored at the start
stays stored unless a `DeleteFinalizer` of it went through. -/
theorem helpers_keep_finalizers [DecidableEq α] {n : Nat} {calls : Fin n → HelperCall α}
    (hv : ∀ i, (calls i).KeepsVersion) (hk : ∀ i, (calls i).KeepsFinalizers) {st₀ : Store α}
    {s₀ : Object α} (h₀ : st₀.object = some s₀) {tr : List (Fin n × Event α)}
    {S : System α (HelperState α) n}
    (h : run (System.step fun i => (calls i).client) ⟨st₀, fun i => (calls i).start⟩ tr =
      some S) :
    ∃ o, S.store.object = some o ∧
      o.finalizers = (Helpers.commits calls tr).foldl (fun F op => op.apply F) s₀.finalizers ∧
      ∀ f ∈ s₀.finalizers, (∀ op ∈ Helpers.commits calls tr, op ≠ .delete f) →
        f ∈ o.finalizers := by
  obtain ⟨o, ho, hF⟩ := Helpers.finalizers_run hv hk h₀ h
  exact ⟨o, ho, hF, fun f hf hops => hF ▸ FinalizerOp.mem_foldl_apply hops hf⟩

theorem helpers_keep_finalizers_ensure :
    ∃ S, run (System.step fun i => (ensureAndBump i).client)
      ⟨⟨some ⟨1, [], 0, 0⟩, 1, by rintro o ⟨⟩; exact Nat.le_refl 1⟩,
        fun i => (ensureAndBump i).start⟩
      [(0, .attempt), (1, .attempt), (0, .call .get (.ok ⟨1, [], 0, 0⟩)),
        (1, .call .get (.ok ⟨1, [], 0, 0⟩)),
        (0, .call (.patch ⟨1, ["a"], 0, 0⟩ ⟨1, [], 0, 0⟩) (.ok ⟨2, ["a"], 0, 0⟩)),
        (1, .call (.update ⟨1, [], 1, 0⟩) (.error .conflict)), (1, .returned false none),
        (1, .ctxDone false), (1, .sleep), (1, .attempt), (1, .call .get (.ok ⟨2, ["a"], 0, 0⟩)),
        (1, .call (.update ⟨2, ["a"], 1, 0⟩) (.ok ⟨3, ["a"], 1, 0⟩)),
        (0, .returned true none), (1, .returned true none)] = some S ∧
      ∃ o, S.store.object = some o ∧ o.finalizers = ["a"] := by
  refine ⟨_, Option.eq_some_of_isSome ?h,
    (helpers_keep_finalizers (fun | ⟨0, _⟩ => trivial | ⟨1, _⟩ => fun _ => rfl)
      (fun | ⟨0, _⟩ => trivial | ⟨1, _⟩ => .inr fun _ => rfl) rfl
      (Option.eq_some_of_isSome ?h)).imp fun _ h => ⟨h.1, h.2.1.trans (by decide)⟩⟩
  decide

end ResourceManager
