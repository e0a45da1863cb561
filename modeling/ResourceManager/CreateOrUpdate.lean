import ResourceManager.Object

/-!
`TypedCreateOrUpdate`. It reads the object with a typed `Get` when the scheme knows a typed
`client.Object` for obj's kind (and converts what it read back to unstructured), and with an
unstructured `Get` into obj when the kind is not registered. A registered type that is not a
`client.Object` is refused before any request. The API server is given by its answers to
the requests; `T` is the typed representation and `U` the unstructured one.
-/

set_option autoImplicit false
set_option warningAsError true

namespace ResourceManager

/-- What `scheme.New(gvk)` makes of obj's kind. -/
inductive SchemeNew where
  | notRegistered
  | notClientObject
  | clientObject
  deriving DecidableEq, Repr

inductive Request (U : Type) where
  | getTyped
  | getUnstructured
  | create (obj : U)
  | update (obj : U)
  deriving DecidableEq, Repr

def Request.isGet {U : Type} : Request U → Bool
  | .getTyped | .getUnstructured => true
  | _ => false

@[simp] theorem Request.isGet_create {U : Type} (obj : U) : (Request.create obj).isGet = false :=
  rfl

@[simp] theorem Request.isGet_update {U : Type} (obj : U) : (Request.update obj).isGet = false :=
  rfl

structure Server (T U : Type) where
  getTyped : Except Error T
  getUnstructured : Except Error U
  create : U → Option Error
  update : U → Option Error

inductive OperationResult where
  | none
  | created
  | updated
  deriving DecidableEq, Repr

structure CreateOrUpdateOutcome (U : Type) where
  result : OperationResult
  err : Option Error
  requests : List (Request U)
  obj : U
  deriving DecidableEq, Repr

def CreateOrUpdateOutcome.writes {U : Type} (out : CreateOrUpdateOutcome U) : List (Request U) :=
  out.requests.filter fun r => !r.isGet

variable {T U : Type}

def createIfNotFound (server : Server T U) (get : Request U) (obj : U)
    (mutate : U → U × Option Error) (err : Error) : CreateOrUpdateOutcome U :=
  if err ≠ .notFound then ⟨.none, some err, [get], obj⟩
  else
    match mutate obj with
    | (obj, some err) => ⟨.none, some err, [get], obj⟩
    | (obj, none) => ⟨.created, server.create obj, [get, .create obj], obj⟩

def updateIfChanged (server : Server T U) (get : Request U) (existing : U) (alwaysUpdate : Bool)
    (mutate : U → U × Option Error) (semanticDeepEqual : U → U → Bool) : CreateOrUpdateOutcome U :=
  match mutate existing with
  | (obj, some err) => ⟨.none, some err, [get], obj⟩
  | (obj, none) =>
    if !alwaysUpdate && semanticDeepEqual existing obj then ⟨.none, none, [get], obj⟩
    else ⟨.updated, server.update obj, [get, .update obj], obj⟩

/-- `TypedCreateOrUpdate(ctx, c, scheme, obj, alwaysUpdate, mutate)`; `gvk` is
`obj.GetObjectKind().GroupVersionKind().String()`, `convert` is `scheme.Convert` into a new
unstructured object, and `semanticDeepEqual` is `apiequality.Semantic.DeepEqual`. -/
def typedCreateOrUpdate (scheme : SchemeNew) (gvk : String) (convert : T → Except Error U)
    (server : Server T U) (obj : U) (alwaysUpdate : Bool) (mutate : U → U × Option Error)
    (semanticDeepEqual : U → U → Bool) : CreateOrUpdateOutcome U :=
  match scheme with
  | .notClientObject =>
    ⟨.none, some (.other ("object type \"" ++ gvk ++ "\" is unsupported")), [], obj⟩
  | .clientObject =>
    match server.getTyped with
    | .error err => createIfNotFound server .getTyped obj mutate err
    | .ok current =>
      match convert current with
      | .error err => ⟨.none, some err, [.getTyped], obj⟩
      | .ok u => updateIfChanged server .getTyped u alwaysUpdate mutate semanticDeepEqual
  | .notRegistered =>
    match server.getUnstructured with
    | .error err => createIfNotFound server .getUnstructured obj mutate err
    | .ok u => updateIfChanged server .getUnstructured u alwaysUpdate mutate semanticDeepEqual

def Server.Agrees (server : Server T U) (convert : T → Except Error U) : Prop :=
  (∀ err, server.getTyped = .error err ↔ server.getUnstructured = .error err) ∧
    ∀ t, server.getTyped = .ok t → ∃ u, convert t = .ok u ∧ server.getUnstructured = .ok u

def CreateOrUpdateOutcome.summary (out : CreateOrUpdateOutcome U) :
    OperationResult × Option Error × List (Request U) × U :=
  (out.result, out.err, out.writes, out.obj)

/-- What a call may do, from what its `Get` read (`fetched`): at most one write; a `Create`
of `mutate` applied to obj, with result Created, exactly when the `Get` reported NotFound and
`mutate` succeeded; an `Update` of `mutate` applied to the object read, with result Updated,
exactly when the object exists, `mutate` succeeded, and `alwaysUpdate` is set or the mutated
object is not semantically equal to the one read; otherwise no write and result None. -/
structure Sound (fetched : Except Error U) (obj : U) (alwaysUpdate : Bool)
    (mutate : U → U × Option Error) (semanticDeepEqual : U → U → Bool)
    (out : CreateOrUpdateOutcome U) :
    Prop where
  atMostOne : out.writes.length ≤ 1
  create : ∀ o, out.writes = [.create o] ↔ fetched = .error .notFound ∧ mutate obj = (o, none)
  update : ∀ o, out.writes = [.update o] ↔ ∃ u, fetched = .ok u ∧ mutate u = (o, none) ∧
    (alwaysUpdate = true ∨ semanticDeepEqual u o = false)
  created : out.result = .created ↔ ∃ o, out.writes = [.create o]
  updated : out.result = .updated ↔ ∃ o, out.writes = [.update o]

section Paths

variable {fetched : Except Error U} {obj o : U} {alwaysUpdate : Bool}
  {mutate : U → U × Option Error} {semanticDeepEqual : U → U → Bool} {out : CreateOrUpdateOutcome U}

theorem sound_none (hw : out.writes = []) (hr : out.result = .none)
    (hc : ∀ o, ¬ (fetched = .error .notFound ∧ mutate obj = (o, none)))
    (hu : ∀ o u, fetched = .ok u → mutate u = (o, none) →
      alwaysUpdate = false ∧ semanticDeepEqual u o = true) :
    Sound fetched obj alwaysUpdate mutate semanticDeepEqual out where
  atMostOne := by simp [hw]
  create o := by rw [hw]; exact ⟨fun h => (by cases h), fun h => (hc o h).elim⟩
  update o := by
    rw [hw]
    refine ⟨fun h => (by cases h), fun ⟨u, hf, hm, hor⟩ => ?_⟩
    obtain ⟨h1, h2⟩ := hu o u hf hm
    rcases hor with h | h <;> simp_all
  created := by rw [hr, hw]; exact ⟨fun h => (by cases h), fun ⟨_, h⟩ => (by cases h)⟩
  updated := by rw [hr, hw]; exact ⟨fun h => (by cases h), fun ⟨_, h⟩ => (by cases h)⟩

theorem sound_create (hw : out.writes = [.create o]) (hr : out.result = .created)
    (hf : fetched = .error .notFound) (hm : mutate obj = (o, none)) :
    Sound fetched obj alwaysUpdate mutate semanticDeepEqual out where
  atMostOne := by simp [hw]
  create o' := by simp [hw, hf, hm]
  update o' := by simp [hw, hf]
  created := by simp [hr, hw]
  updated := by simp [hr, hw]

theorem sound_update {u : U} (hw : out.writes = [.update o]) (hr : out.result = .updated)
    (hf : fetched = .ok u) (hm : mutate u = (o, none))
    (hc : alwaysUpdate = true ∨ semanticDeepEqual u o = false) :
    Sound fetched obj alwaysUpdate mutate semanticDeepEqual out where
  atMostOne := by simp [hw]
  create o' := by simp [hw, hf]
  update o' := by
    simp only [hw, hf, List.cons.injEq, Request.update.injEq, and_true, Except.ok.injEq,
      exists_eq_left', hm, Prod.mk.injEq]
    constructor
    · rintro rfl; exact ⟨rfl, hc⟩
    · rintro ⟨rfl, -⟩; rfl
  created := by simp [hr, hw]
  updated := by simp [hr, hw]

variable {T : Type} {server : Server T U}

@[simp] theorem writes_get (get : Request U) (hget : get.isGet = true) (result : OperationResult)
    (err : Option Error) (w : List (Request U)) (obj : U) :
    (CreateOrUpdateOutcome.mk result err (get :: w) obj).writes = w.filter fun r => !r.isGet := by
  simp [CreateOrUpdateOutcome.writes, hget]

theorem sound_createIfNotFound (get : Request U) (hget : get.isGet = true) (err : Error) :
    Sound (.error err) obj alwaysUpdate mutate semanticDeepEqual
      (createIfNotFound server get obj mutate err) := by
  by_cases he : err = .notFound
  · subst he
    rcases hm : mutate obj with ⟨o, _ | merr⟩
    · exact sound_create (by simp [createIfNotFound, hm, hget])
        (by simp [createIfNotFound, hm]) rfl hm
    · refine sound_none (by simp [createIfNotFound, hm, hget]) (by simp [createIfNotFound, hm])
        (fun o' ⟨_, h⟩ => by simp [hm] at h) (fun _ _ h => by cases h)
  · exact sound_none (by simp [createIfNotFound, he, hget]) (by simp [createIfNotFound, he])
      (fun _ ⟨h, _⟩ => he (by cases h; rfl)) (fun _ _ h => by cases h)

theorem sound_updateIfChanged (get : Request U) (hget : get.isGet = true) (u : U) :
    Sound (.ok u) obj alwaysUpdate mutate semanticDeepEqual
      (updateIfChanged server get u alwaysUpdate mutate semanticDeepEqual) := by
  rcases hm : mutate u with ⟨o, _ | merr⟩
  · by_cases hc : (!alwaysUpdate && semanticDeepEqual u o) = true
    · simp only [Bool.and_eq_true, Bool.not_eq_true'] at hc
      refine sound_none (by simp [updateIfChanged, hm, hc, hget])
        (by simp [updateIfChanged, hm, hc]) (fun _ ⟨h, _⟩ => by cases h) ?_
      rintro o' u' ⟨⟩ h
      obtain rfl : o = o' := by simpa [hm] using h
      exact hc
    · refine sound_update (by simp [updateIfChanged, hm, hc, hget])
        (by simp [updateIfChanged, hm, hc]) rfl hm ?_
      cases alwaysUpdate <;> simp_all
  · exact sound_none (by simp [updateIfChanged, hm, hget]) (by simp [updateIfChanged, hm])
      (fun _ ⟨h, _⟩ => by cases h)
      (fun o' u' h h' => by cases h; simp [hm] at h')

end Paths

/-- When the typed `Get`, converted, reads what the unstructured one reads, a kind that is
registered as a `client.Object` and a kind that is not registered lead to the same result,
error, writes and final obj; and that behaviour is the one `Sound` describes, from what the
unstructured `Get` read. -/
theorem typedCreateOrUpdate_paths {server : Server T U} {convert : T → Except Error U}
    (hagree : server.Agrees convert) (gvk : String) (obj : U) (alwaysUpdate : Bool)
    (mutate : U → U × Option Error) (semanticDeepEqual : U → U → Bool) :
    (typedCreateOrUpdate .clientObject gvk convert server obj alwaysUpdate mutate
        semanticDeepEqual).summary =
      (typedCreateOrUpdate .notRegistered gvk convert server obj alwaysUpdate mutate
        semanticDeepEqual).summary ∧
    Sound server.getUnstructured obj alwaysUpdate mutate semanticDeepEqual
      (typedCreateOrUpdate .notRegistered gvk convert server obj alwaysUpdate mutate
        semanticDeepEqual) := by
  refine ⟨?_, ?_⟩
  · rcases ht : server.getTyped with err | t
    · have hu := (hagree.1 err).1 ht
      simp only [typedCreateOrUpdate, ht, hu, createIfNotFound, CreateOrUpdateOutcome.summary]
      split <;> [rfl; split <;> rfl]
    · obtain ⟨u, hc, hu⟩ := hagree.2 t ht
      simp only [typedCreateOrUpdate, ht, hc, hu, updateIfChanged, CreateOrUpdateOutcome.summary]
      split <;> [rfl; split <;> rfl]
  · rcases hu : server.getUnstructured with err | u
    · simpa only [typedCreateOrUpdate, hu] using sound_createIfNotFound .getUnstructured rfl err
    · simpa only [typedCreateOrUpdate, hu] using sound_updateIfChanged .getUnstructured rfl u

theorem typedCreateOrUpdate_paths_update :
    (typedCreateOrUpdate .notRegistered "apps/v1, Kind=Deployment" .ok
      (⟨.ok 1, .ok 1, fun _ => none, fun _ => none⟩ : Server Nat Nat) 0 false
      (fun u => (u + 1, none)) (· == ·)).writes = [.update 2] :=
  ((typedCreateOrUpdate_paths ⟨fun _ => Iff.rfl, fun t h => ⟨t, rfl, h⟩⟩
    "apps/v1, Kind=Deployment" 0 false (fun u => (u + 1, none)) (· == ·)).2.update 2).2
      ⟨1, rfl, rfl, .inr rfl⟩

/-- A kind registered with a type that is not a `client.Object` is refused before any
request, where an unregistered kind is read and updated. -/
theorem typedCreateOrUpdate_unsupported_kind :
    typedCreateOrUpdate .notClientObject "apps/v1, Kind=DeploymentList" .ok
        (⟨.ok 1, .ok 1, fun _ => none, fun _ => none⟩ : Server Nat Nat) 0 false
        (fun u => (u + 1, none)) (· == ·) =
      ⟨.none, some (.other "object type \"apps/v1, Kind=DeploymentList\" is unsupported"), [], 0⟩ ∧
    typedCreateOrUpdate .notRegistered "apps/v1, Kind=DeploymentList" .ok
        (⟨.ok 1, .ok 1, fun _ => none, fun _ => none⟩ : Server Nat Nat) 0 false
        (fun u => (u + 1, none)) (· == ·) =
      ⟨.updated, none, [.getUnstructured, .update 2], 2⟩ := by
  decide

end ResourceManager
