import ResourceManager.Object

/-!
The API server as the helpers meet it through the controller-runtime client, for the one
key they work on: the stored object, if any, and etcd's revision counter. Every write
stores the object under the next revision. The writes that carry a resource version
(`Update`, `Status().Update`, `Patch` with `MergeFromWithOptimisticLock`) succeed only when
it equals the stored one, and answer `Conflict` otherwise. `handle` is the API server's own
answer to a request that reaches it; what else a client may get back (a refusal, or a typed
`Get` answered from its cache) is `Store.answer`.
-/

set_option autoImplicit false
set_option warningAsError true

namespace ResourceManager

/-- One request of the client: `c.Get(ctx, key, obj)` answered by the API server; the typed
`c.Get(ctx, key, current)` of `TypedCreateOrUpdate`, which `client.DelegatingReader` serves
from the client's informer cache; `c.Update`; `c.Status().Update`; `c.Patch(ctx, obj,
client.MergeFromWithOptions(base, client.MergeFromWithOptimisticLock{}))`; `c.Create`. -/
inductive Call (α : Type) where
  | get
  | getCached
  | update (obj : Object α)
  | updateStatus (obj : Object α)
  | patch (obj base : Object α)
  | create (obj : Object α)
  deriving DecidableEq, Repr

inductive Reply (α : Type) where
  | ok (obj : Object α)
  | error (err : Error)
  deriving DecidableEq, Repr

variable {α : Type}

def Call.isGet : Call α → Bool
  | .get | .getCached => true
  | _ => false

/-- A request refused with an error that is not the store's own (spec §6 OtherError: the
API server is unavailable, or an admission check rejects the request); nothing is stored. -/
def Reply.refused : Reply α → Bool
  | .error (.other _) => true
  | _ => false

theorem Reply.refused_iff {r : Reply α} :
    r.refused = true ↔ ∃ msg, r = .error (.other msg) := by
  cases r with
  | ok => simp [Reply.refused]
  | error err => cases err <;> simp [Reply.refused]

structure Store (α : Type) where
  object : Option (Object α)
  revision : Nat
  version_le : ∀ o, object = some o → o.resourceVersion ≤ revision

namespace Store

def commit (st : Store α) (o : Object α) : Reply α × Store α :=
  (.ok (o.withVersion (st.revision + 1)),
    ⟨some (o.withVersion (st.revision + 1)), st.revision + 1, by intro o h; cases h; simp⟩)

def casWrite (st : Store α) (rv : Nat) (f : Object α → Object α) : Reply α × Store α :=
  match st.object with
  | none => (.error .notFound, st)
  | some cur => if rv = cur.resourceVersion then st.commit (f cur) else (.error .conflict, st)

def mergePatch [DecidableEq α] (cur obj base : Object α) : Object α :=
  { cur with
    finalizers := if obj.finalizers = base.finalizers then cur.finalizers else obj.finalizers
    spec := if obj.spec = base.spec then cur.spec else obj.spec
    status := if obj.status = base.status then cur.status else obj.status }

theorem mergePatch_finalizers [DecidableEq α] {cur obj base : Object α}
    (hspec : obj.spec = base.spec) (hstatus : obj.status = base.status)
    (hf : obj.finalizers ≠ base.finalizers) :
    mergePatch cur obj base = { cur with finalizers := obj.finalizers } := by
  simp [mergePatch, hspec, hstatus, hf]

def handle [DecidableEq α] (st : Store α) : Call α → Reply α × Store α
  | .get | .getCached => ((st.object.map .ok).getD (.error .notFound), st)
  | .update obj => st.casWrite obj.resourceVersion fun _ => obj
  | .updateStatus obj =>
    st.casWrite obj.resourceVersion fun cur => { cur with status := obj.status }
  | .patch obj base => st.casWrite base.resourceVersion fun cur => mergePatch cur obj base
  | .create obj =>
    match st.object with
    | some _ => (.error .alreadyExists, st)
    | none => st.commit obj

/-- A copy `s` read from the store is current whenever the stored version equals its
version: versions are never handed out twice. -/
def Fresh (st : Store α) (s : Object α) : Prop :=
  s.resourceVersion ≤ st.revision ∧
    ∀ cur, st.object = some cur → cur.resourceVersion = s.resourceVersion → cur = s

instance [DecidableEq α] (st : Store α) (s : Object α) : Decidable (st.Fresh s) :=
  decidable_of_iff (s.resourceVersion ≤ st.revision ∧
    ∀ cur ∈ st.object, cur.resourceVersion = s.resourceVersion → cur = s) Iff.rfl

/-- What the informer cache may answer a typed `Get` with: NotFound, when it has not seen the
object yet, or, once an object is stored, a version it holds, which the store handed out and
which is the stored object if it carries the stored version. -/
def Cached (st : Store α) : Reply α → Prop
  | .ok s => st.object.isSome ∧ st.Fresh s
  | .error err => err = .notFound

instance [DecidableEq α] (st : Store α) (r : Reply α) : Decidable (st.Cached r) := by
  cases r <;> unfold Cached <;> infer_instance

variable {st : Store α} {s o : Object α}

theorem commit_fresh (h : st.Fresh s) : (st.commit o).2.Fresh s := by
  refine ⟨Nat.le_succ_of_le h.1, ?_⟩
  rintro cur ⟨⟩ hv
  simp at hv
  have := h.1
  omega

theorem casWrite_fresh {rv : Nat} {f : Object α → Object α} (h : st.Fresh s) :
    (st.casWrite rv f).2.Fresh s := by
  unfold casWrite
  split
  · exact h
  · split
    · exact commit_fresh h
    · exact h

/-- The optimistic-concurrency core: a guarded write that succeeds with the version of a
current copy `s` replaces exactly `s`. -/
theorem casWrite_ok {rv : Nat} {f : Object α → Object α} (hs : st.Fresh s)
    (hrv : rv = s.resourceVersion) (h : (st.casWrite rv f).1 = .ok o) :
    st.object = some s ∧ o = (f s).withVersion (st.revision + 1) ∧
      (st.casWrite rv f).2.object = some o := by
  cases hcur : st.object with
  | none => simp [casWrite, hcur] at h
  | some cur =>
    by_cases hv : rv = cur.resourceVersion
    · obtain rfl : cur = s := hs.2 cur hcur (by omega)
      simp_all [casWrite, commit]
    · simp [casWrite, hcur, hv] at h

theorem casWrite_error {rv : Nat} {f : Object α → Object α} {err : Error}
    (h : (st.casWrite rv f).1 = .error err) : (st.casWrite rv f).2 = st := by
  cases hs : st.object with
  | none => simp [casWrite, hs]
  | some cur => by_cases hv : rv = cur.resourceVersion <;> simp_all [casWrite, commit]

theorem casWrite_error_cases {rv : Nat} {f : Object α → Object α} {err : Error}
    (h : (st.casWrite rv f).1 = .error err) : err = .notFound ∨ err = .conflict := by
  cases hs : st.object with
  | none => simp_all [casWrite]
  | some cur => by_cases hv : rv = cur.resourceVersion <;> simp_all [casWrite, commit]

variable [DecidableEq α] {c : Call α}

theorem handle_fresh (c : Call α) (h : st.Fresh s) : (st.handle c).2.Fresh s := by
  cases c with
  | get | getCached => exact h
  | update obj | updateStatus obj | patch obj base => exact casWrite_fresh h
  | create obj =>
    simp only [handle]
    split
    · exact h
    · exact commit_fresh h

theorem handle_get_store (c : Call α) (hc : c.isGet = true) : (st.handle c).2 = st := by
  cases c <;> first | rfl | cases hc

theorem handle_get_ok (h : (st.handle c).1 = .ok o) (hc : c.isGet = true) :
    st.object = some o := by
  cases c <;> simp only [Call.isGet, reduceCtorEq] at hc <;>
    cases hs : st.object <;> simp_all [handle]

theorem fresh_of_get (h : (st.handle c).1 = .ok o) (hc : c.isGet = true) : st.Fresh o := by
  have hs := handle_get_ok h hc
  exact ⟨st.version_le o hs, fun cur hc _ => Option.some.inj (hc.symm.trans hs)⟩

theorem handle_error {err : Error} (h : (st.handle c).1 = .error err) :
    (st.handle c).2 = st := by
  cases c with
  | get | getCached => rfl
  | update obj | updateStatus obj | patch obj base => exact casWrite_error h
  | create obj => cases hs : st.object <;> simp_all [handle, commit]

theorem handle_error_cases {err : Error} (h : (st.handle c).1 = .error err) :
    err = .notFound ∨ err = .conflict ∨ err = .alreadyExists := by
  cases c with
  | get | getCached => cases hs : st.object <;> simp_all [handle]
  | create obj => cases hs : st.object <;> simp_all [handle, commit]
  | update obj | updateStatus obj | patch obj base =>
    exact (casWrite_error_cases h).imp_right .inl

end Store

end ResourceManager
