import ResourceManager.CreateOrUpdate
import ResourceManager.Versions

/-!
`TypedCreateOrUpdate` as requests, so that any number of calls can run against the one
stored object in any interleaving. The typed `Get` of a registered kind may be answered from
the informer cache, with NotFound or a version the store handed out; the unstructured `Get`,
the `Create` and the `Update` reach the API server. Any request may be refused with another
error, which the call returns as it came. Against any answers, the program makes the requests
and returns the result of the model of `TypedCreateOrUpdate` given a server with those answers
(`typedCreateOrUpdateProg_runWith`).

Alone on the store and answered by the API server, a call whose `scheme.Convert` and `mutate`
keep the resource version returns what the model returns and leaves the object it wrote
stored; a refusal ends it with its error and the store as it was (`typedCreateOrUpdate_alone`).
Among other clients it does not retry, unlike `tryUpdate`. Its `Update` carries the version its
`Get` read, so it returns nil only if that copy was the stored object and no write went through
in between, and otherwise a Conflict or the refusal's error (`typedCreateOrUpdate_updated`). At
most one call's `Create` goes through (`typedCreateOrUpdate_created`).
-/

set_option autoImplicit false
set_option warningAsError true

namespace ResourceManager

variable {α : Type}

def Reply.toExcept : Reply α → Except Error (Object α)
  | .ok o => .ok o
  | .error err => .error err

def createIfNotFoundProg (obj : Object α) (mutate : Object α → Object α × Option Error)
    (err : Error) : Prog α (OperationResult × Option Error) :=
  if err ≠ .notFound then .pure (.none, some err)
  else
    match mutate obj with
    | (_, some err) => .pure (.none, some err)
    | (obj, none) => .call (.create obj) fun r => .pure (.created, r.err)

def updateIfChangedProg (existing : Object α) (alwaysUpdate : Bool)
    (mutate : Object α → Object α × Option Error)
    (semanticDeepEqual : Object α → Object α → Bool) :
    Prog α (OperationResult × Option Error) :=
  match mutate existing with
  | (_, some err) => .pure (.none, some err)
  | (obj, none) =>
    if !alwaysUpdate && semanticDeepEqual existing obj then .pure (.none, none)
    else .call (.update obj) fun r => .pure (.updated, r.err)

/-- `TypedCreateOrUpdate(ctx, c, scheme, obj, alwaysUpdate, mutate)` as requests: a kind
registered with a type that is no `client.Object` is refused; otherwise the call reads the
object into `current` (typed for a registered kind, obj for an unregistered one), converts a
typed `current` back to unstructured, and creates or updates. -/
def typedCreateOrUpdateProg (scheme : SchemeNew) (gvk : String)
    (convert : Object α → Except Error (Object α)) (obj : Object α) (alwaysUpdate : Bool)
    (mutate : Object α → Object α × Option Error)
    (semanticDeepEqual : Object α → Object α → Bool) :
    Prog α (OperationResult × Option Error) :=
  if scheme = .notClientObject then
    .pure (.none, some (.other ("object type \"" ++ gvk ++ "\" is unsupported")))
  else
    .call (if scheme = .clientObject then .getCached else .get) fun
      | .error err => createIfNotFoundProg obj mutate err
      | .ok current =>
        match if scheme = .clientObject then convert current else .ok current with
        | .error err => .pure (.none, some err)
        | .ok existing => updateIfChangedProg existing alwaysUpdate mutate semanticDeepEqual

def Prog.runWith {β : Type} (answer : Call α → Reply α) : Prog α β → β × List (Call α)
  | .pure b => (b, [])
  | .call c k => ((k (answer c)).runWith answer).map id (c :: ·)

def Request.call : Request (Object α) → Call α
  | .getTyped => .getCached
  | .getUnstructured => .get
  | .create obj => .create obj
  | .update obj => .update obj

def Server.ofAnswer (answer : Call α → Reply α) : Server (Object α) (Object α) where
  getTyped := (answer .getCached).toExcept
  getUnstructured := (answer .get).toExcept
  create obj := (answer (.create obj)).err
  update obj := (answer (.update obj)).err

section Refine

variable (answer : Call α → Reply α) (scheme : SchemeNew) (gvk : String)
  (convert : Object α → Except Error (Object α)) (obj : Object α) (alwaysUpdate : Bool)
  (mutate : Object α → Object α × Option Error)
  (semanticDeepEqual : Object α → Object α → Bool)

@[simp] theorem Prog.runWith_pure {β : Type} (b : β) :
    (Prog.pure b : Prog α β).runWith answer = (b, []) := rfl

@[simp] theorem Prog.runWith_call {β : Type} (c : Call α) (k : Reply α → Prog α β) :
    (Prog.call c k).runWith answer = ((k (answer c)).runWith answer).map id (c :: ·) := rfl

theorem createIfNotFoundProg_runWith (get : Request (Object α)) (err : Error) :
    ((createIfNotFoundProg obj mutate err).runWith answer).map id (get.call :: ·) =
      (((createIfNotFound (Server.ofAnswer answer) get obj mutate err).result,
        (createIfNotFound (Server.ofAnswer answer) get obj mutate err).err),
        (createIfNotFound (Server.ofAnswer answer) get obj mutate err).requests.map
          Request.call) := by
  by_cases he : err = .notFound
  · rcases hm : mutate obj with ⟨o, _ | e⟩ <;>
      simp [createIfNotFoundProg, createIfNotFound, he, hm, Server.ofAnswer, Request.call]
  · simp [createIfNotFoundProg, createIfNotFound, he]

theorem updateIfChangedProg_runWith (get : Request (Object α)) (existing : Object α) :
    ((updateIfChangedProg existing alwaysUpdate mutate semanticDeepEqual).runWith answer).map id
        (get.call :: ·) =
      (((updateIfChanged (Server.ofAnswer answer) get existing alwaysUpdate mutate
          semanticDeepEqual).result,
        (updateIfChanged (Server.ofAnswer answer) get existing alwaysUpdate mutate
          semanticDeepEqual).err),
        (updateIfChanged (Server.ofAnswer answer) get existing alwaysUpdate mutate
          semanticDeepEqual).requests.map Request.call) := by
  rcases hm : mutate existing with ⟨o, _ | e⟩
  · by_cases hc : (!alwaysUpdate && semanticDeepEqual existing o) = true <;>
      simp [updateIfChangedProg, updateIfChanged, hm, hc, Server.ofAnswer, Request.call]
  · simp [updateIfChangedProg, updateIfChanged, hm]

/-- Against any answers, the request program makes the requests of `TypedCreateOrUpdate`
with a server that gives those answers, and returns its result and error. -/
theorem typedCreateOrUpdateProg_runWith :
    (typedCreateOrUpdateProg scheme gvk convert obj alwaysUpdate mutate semanticDeepEqual).runWith
        answer =
      (((typedCreateOrUpdate scheme gvk convert (Server.ofAnswer answer) obj alwaysUpdate mutate
          semanticDeepEqual).result,
        (typedCreateOrUpdate scheme gvk convert (Server.ofAnswer answer) obj alwaysUpdate mutate
          semanticDeepEqual).err),
        (typedCreateOrUpdate scheme gvk convert (Server.ofAnswer answer) obj alwaysUpdate mutate
          semanticDeepEqual).requests.map Request.call) := by
  cases scheme with
  | notClientObject => simp [typedCreateOrUpdateProg, typedCreateOrUpdate]
  | notRegistered =>
    cases hg : answer .get with
    | error err =>
      simpa [typedCreateOrUpdateProg, typedCreateOrUpdate, Server.ofAnswer, Reply.toExcept, hg]
        using createIfNotFoundProg_runWith answer obj mutate .getUnstructured err
    | ok cur =>
      simpa [typedCreateOrUpdateProg, typedCreateOrUpdate, Server.ofAnswer, Reply.toExcept, hg]
        using updateIfChangedProg_runWith answer alwaysUpdate mutate semanticDeepEqual
          .getUnstructured cur
  | clientObject =>
    cases hg : answer .getCached with
    | error err =>
      simpa [typedCreateOrUpdateProg, typedCreateOrUpdate, Server.ofAnswer, Reply.toExcept, hg]
        using createIfNotFoundProg_runWith answer obj mutate .getTyped err
    | ok cur =>
      rcases hc : convert cur with err | u
      · simp [typedCreateOrUpdateProg, typedCreateOrUpdate, Server.ofAnswer, Reply.toExcept, hg,
          hc, Request.call]
      · simpa [typedCreateOrUpdateProg, typedCreateOrUpdate, Server.ofAnswer, Reply.toExcept, hg,
          hc] using updateIfChangedProg_runWith answer alwaysUpdate mutate semanticDeepEqual
            .getTyped u

end Refine

structure CreateOrUpdateCall (α : Type) where
  scheme : SchemeNew
  gvk : String
  convert : Object α → Except Error (Object α)
  obj : Object α
  alwaysUpdate : Bool
  mutate : Object α → Object α × Option Error
  semanticDeepEqual : Object α → Object α → Bool

namespace CreateOrUpdateCall

variable (a : CreateOrUpdateCall α)

def prog : Prog α (OperationResult × Option Error) :=
  typedCreateOrUpdateProg a.scheme a.gvk a.convert a.obj a.alwaysUpdate a.mutate
    a.semanticDeepEqual

def Keeps {β : Type} (f : Object α → β) : Prop :=
  (∀ x u, a.convert x = .ok u → f u = f x) ∧ ∀ x, f (a.mutate x).1 = f x

def AfterGet (r : Reply α) (p : Prog α (OperationResult × Option Error)) : Prop :=
  (∃ err, p = .pure (.none, err)) ∨
    (∃ o, r = .error .notFound ∧ p = .call (.create o) fun r' => .pure (.created, r'.err)) ∨
    ∃ s u, r = .ok s ∧ (if a.scheme = .clientObject then a.convert s else .ok s) = .ok u ∧
      p = .call (.update (a.mutate u).1) fun r' => .pure (.updated, r'.err)

variable {a}

theorem Keeps.mutate {β : Type} {f : Object α → β} (hk : a.Keeps f) {s u : Object α}
    (hu : (if a.scheme = .clientObject then a.convert s else .ok s) = .ok u) :
    f (a.mutate u).1 = f s := by
  rw [hk.2 u]
  split at hu
  · exact hk.1 s u hu
  · cases hu; rfl

end CreateOrUpdateCall

theorem createIfNotFoundProg_cases (obj : Object α)
    (mutate : Object α → Object α × Option Error) (err : Error) :
    (∃ e, createIfNotFoundProg obj mutate err = .pure (.none, e)) ∨
      ∃ o, err = .notFound ∧
        createIfNotFoundProg obj mutate err =
          .call (.create o) fun r => .pure (.created, r.err) := by
  by_cases he : err = .notFound
  · rcases hm : mutate obj with ⟨o, _ | e⟩
    · exact .inr ⟨o, he, by simp [createIfNotFoundProg, he, hm]⟩
    · exact .inl ⟨some e, by simp [createIfNotFoundProg, he, hm]⟩
  · exact .inl ⟨some err, by simp [createIfNotFoundProg, he]⟩

theorem updateIfChangedProg_cases (existing : Object α) (alwaysUpdate : Bool)
    (mutate : Object α → Object α × Option Error)
    (semanticDeepEqual : Object α → Object α → Bool) :
    (∃ e, updateIfChangedProg existing alwaysUpdate mutate semanticDeepEqual =
        .pure (.none, e)) ∨
      updateIfChangedProg existing alwaysUpdate mutate semanticDeepEqual =
        .call (.update (mutate existing).1) fun r => .pure (.updated, r.err) := by
  rcases hm : mutate existing with ⟨o, _ | e⟩
  · by_cases hc : (!alwaysUpdate && semanticDeepEqual existing o) = true
    · exact .inl ⟨none, by simp [updateIfChangedProg, hm, hc]⟩
    · exact .inr (by simp [updateIfChangedProg, hm, hc])
  · exact .inl ⟨some e, by simp [updateIfChangedProg, hm]⟩

theorem CreateOrUpdateCall.prog_cases (a : CreateOrUpdateCall α) :
    (∃ err, a.prog = .pure (.none, err)) ∨
      ∃ g k, a.prog = .call g k ∧ g.isGet = true ∧ (a.scheme = .notRegistered → g = .get) ∧
        (∀ msg, k (.error (.other msg)) = .pure (.none, some (.other msg))) ∧
        ∀ r, a.AfterGet r (k r) := by
  by_cases hs : a.scheme = .notClientObject
  · simp only [prog, typedCreateOrUpdateProg, if_pos hs]
    exact .inl ⟨_, rfl⟩
  simp only [prog, typedCreateOrUpdateProg, if_neg hs]
  refine .inr ⟨_, _, rfl, by split <;> rfl, fun h => by simp [h],
    fun msg => by simp [createIfNotFoundProg], fun r => ?_⟩
  cases r with
  | error err =>
    rcases createIfNotFoundProg_cases a.obj a.mutate err with ⟨e, he⟩ | ⟨o, rfl, he⟩
    · exact .inl ⟨e, he⟩
    · exact .inr (.inl ⟨o, rfl, he⟩)
  | ok cur =>
    dsimp only
    rcases hx : (if a.scheme = .clientObject then a.convert cur else .ok cur) with err | u
    · exact .inl ⟨some err, rfl⟩
    · rcases updateIfChangedProg_cases u a.alwaysUpdate a.mutate a.semanticDeepEqual with
        ⟨e, he⟩ | he
      · exact .inl ⟨e, he⟩
      · exact .inr (.inr ⟨cur, u, rfl, hx, he⟩)

section Runs

variable [DecidableEq α] {β : Type} {es : List (Event α)} {p : Prog α β}

omit [DecidableEq α] in
@[simp] theorem Prog.step_pure [DecidableEq α] (b : β) (e : Event α) :
    (Prog.pure b : Prog α β).step e = none := rfl

theorem Prog.run_pure {b : β} (h : run Prog.step (Prog.pure b : Prog α β) es = some p) :
    es = [] ∧ p = .pure b := by
  cases es with
  | nil => cases h; exact ⟨rfl, rfl⟩
  | cons e es => simp [run] at h

theorem Prog.run_call {c : Call α} {k : Reply α → Prog α β}
    (h : run Prog.step (Prog.call c k) es = some p) :
    (es = [] ∧ p = .call c k) ∨
      ∃ r es', es = .call c r :: es' ∧ run Prog.step (k r) es' = some p := by
  cases es with
  | nil => cases h; exact .inl ⟨rfl, rfl⟩
  | cons e es =>
    obtain ⟨m, hm, h⟩ := run_cons_eq_some h
    obtain ⟨c, k, r, hc, rfl, rfl⟩ := Prog.step_eq_some hm
    cases hc
    exact .inr ⟨r, es, rfl, h⟩

theorem CreateOrUpdateCall.run_prog (a : CreateOrUpdateCall α)
    {p : Prog α (OperationResult × Option Error)} (h : run Prog.step a.prog es = some p) :
    ((es = [] ∨ ∃ g r, es = [.call g r] ∧
        ∀ msg x, r = .error (.other msg) → p = .pure x → x = (.none, some (.other msg))) ∧
      ∀ x, p = .pure x → x.1 = .none) ∨
      (∃ g o r, g.isGet = true ∧ es = [.call g (.error .notFound), .call (.create o) r] ∧
        p = .pure (.created, r.err)) ∨
      ∃ g s o r, g.isGet = true ∧ (a.scheme = .notRegistered → g = .get) ∧
        es = [.call g (.ok s), .call (.update o) r] ∧
        (a.Keeps Object.resourceVersion → o.resourceVersion = s.resourceVersion) ∧
        p = .pure (.updated, r.err) := by
  rcases a.prog_cases with ⟨err, hp⟩ | ⟨g, k, hp, hg, hgu, hrf, hk⟩
  · obtain ⟨rfl, rfl⟩ := Prog.run_pure (hp ▸ h)
    exact .inl ⟨.inl rfl, fun x hx => by cases hx; rfl⟩
  rcases Prog.run_call (hp ▸ h) with ⟨rfl, rfl⟩ | ⟨r, es, rfl, h₁⟩
  · exact .inl ⟨.inl rfl, fun x hx => by cases hx⟩
  have hone : ∀ p', k r = p' → ∀ msg x, r = .error (.other msg) → p' = .pure x →
      x = (.none, some (.other msg)) := by
    rintro p' rfl msg x rfl hx
    rw [hrf] at hx
    cases hx
    rfl
  rcases hk r with ⟨err, he⟩ | ⟨o, rfl, he⟩ | ⟨s, u, rfl, hu, he⟩
  · obtain ⟨rfl, rfl⟩ := Prog.run_pure (he ▸ h₁)
    exact .inl ⟨.inr ⟨_, _, rfl, hone _ he⟩, fun x hx => by cases hx; rfl⟩
  · rcases Prog.run_call (he ▸ h₁) with ⟨rfl, rfl⟩ | ⟨r', es, rfl, h₂⟩
    · exact .inl ⟨.inr ⟨_, _, rfl, hone _ he⟩, fun x hx => by cases hx⟩
    · obtain ⟨rfl, rfl⟩ := Prog.run_pure h₂
      exact .inr (.inl ⟨g, o, r', hg, rfl, rfl⟩)
  · rcases Prog.run_call (he ▸ h₁) with ⟨rfl, rfl⟩ | ⟨r', es, rfl, h₂⟩
    · exact .inl ⟨.inr ⟨_, _, rfl, hone _ he⟩, fun x hx => by cases hx⟩
    · obtain ⟨rfl, rfl⟩ := Prog.run_pure h₂
      exact .inr (.inr ⟨g, s, _, r', hg, hgu, rfl, fun hv => hv.mutate hu, rfl⟩)

theorem CreateOrUpdateCall.run_refused (a : CreateOrUpdateCall α)
    {x : OperationResult × Option Error} (h : run Prog.step a.prog es = some (.pure x))
    {c : Call α} {msg : String} (hc : .call c (.error (.other msg)) ∈ es) :
    x.2 = some (.other msg) ∧ ∀ e ∈ es, e.wrote = false := by
  rcases a.run_prog h with ⟨rfl | ⟨g, r, rfl, hr⟩, -⟩ | ⟨g, o, r, hg, rfl, hp⟩ |
    ⟨g, s, o, r, hg, -, rfl, -, hp⟩
  · cases hc
  · obtain ⟨-, rfl⟩ : c = g ∧ Reply.error (.other msg) = r := by simpa using hc
    exact ⟨by rw [hr msg x rfl rfl], by simp [Event.wrote]⟩
  · obtain ⟨-, rfl⟩ : c = .create o ∧ Reply.error (.other msg) = r := by simpa using hc
    cases hp
    exact ⟨rfl, by simp [Event.wrote, hg]⟩
  · obtain ⟨-, rfl⟩ : c = .update o ∧ Reply.error (.other msg) = r := by simpa using hc
    cases hp
    exact ⟨rfl, by simp [Event.wrote, hg]⟩

def CreateOrUpdateCall.Pending (a : CreateOrUpdateCall α) (st : Store α)
    (p : Prog α (OperationResult × Option Error)) : Prop :=
  p = a.prog ∨ (∃ x, p = .pure x) ∨
    (∃ o, p = .call (.create o) fun r => .pure (.created, r.err)) ∨
    ∃ s u, st.Fresh s ∧ (if a.scheme = .clientObject then a.convert s else .ok s) = .ok u ∧
      p = .call (.update (a.mutate u).1) fun r => .pure (.updated, r.err)

variable {a : CreateOrUpdateCall α} {st st' : Store α}
  {q q' : Prog α (OperationResult × Option Error)} {e : Event α}

omit [DecidableEq α] in
theorem CreateOrUpdateCall.Pending.mono (hf : ∀ s, st.Fresh s → st'.Fresh s)
    (h : a.Pending st q) : a.Pending st' q := by
  rcases h with h | h | h | ⟨s, u, hs, hu, h⟩
  · exact .inl h
  · exact .inr (.inl h)
  · exact .inr (.inr (.inl h))
  · exact .inr (.inr (.inr ⟨s, u, hf s hs, hu, h⟩))

theorem CreateOrUpdateCall.step_spec (hv : a.Keeps Object.resourceVersion) {o : Object α}
    (ho : st.object = some o) (hp : a.Pending st q) (hst : st.answer e = some st')
    (h : q.step e = some q') :
    a.Pending st' q' ∧ (st' = st ∨
      ∃ u, (if a.scheme = .clientObject then a.convert o else .ok o) = .ok u ∧
        ∃ rv, st'.object = some ((a.mutate u).1.withVersion rv)) := by
  obtain ⟨c, k, r, rfl, rfl, rfl⟩ := Prog.step_eq_some h
  rcases hp with hp | ⟨x, ⟨⟩⟩ | ⟨o', hp⟩ | ⟨s, u, hs, hu, hp⟩
  · -- the `Get`, answered by the API server or from the cache, or refused
    rcases a.prog_cases with ⟨err, hp'⟩ | ⟨g, k', hp', hg, -, -, hk⟩ <;> rw [hp'] at hp
    · cases hp
    cases hp
    obtain ⟨rfl, hfresh⟩ : st' = st ∧ ∀ s, r = .ok s → st.Fresh s := by
      rcases Store.answer_call hst with ⟨hr, rfl⟩ | ⟨rfl, hr | ⟨-, hc⟩⟩
      · exact ⟨Store.handle_get_store _ hg, fun s hs => Store.fresh_of_get (hs ▸ hr) hg⟩
      · exact ⟨rfl, fun s hs => by subst hs; cases hr⟩
      · exact ⟨rfl, fun s hs => by subst hs; exact hc.2⟩
    refine ⟨?_, .inl rfl⟩
    rcases hk r with ⟨err, he⟩ | ⟨o', -, he⟩ | ⟨s, u, rfl, hu, he⟩
    · exact .inr (.inl ⟨_, he⟩)
    · exact .inr (.inr (.inl ⟨o', he⟩))
    · exact .inr (.inr (.inr ⟨s, u, hfresh s rfl, hu, he⟩))
  · -- the `Create`: AlreadyExists since the object is stored, or refused
    cases hp
    refine ⟨.inr (.inl ⟨_, rfl⟩), .inl ?_⟩
    rcases Store.answer_call hst with ⟨-, rfl⟩ | ⟨rfl, -⟩
    · simp [Store.handle, ho]
    · rfl
  · -- the `Update`
    cases hp
    rcases Store.answer_call hst with ⟨hr, rfl⟩ | ⟨rfl, -⟩
    · cases r with
      | error err => exact ⟨.inr (.inl ⟨_, rfl⟩), .inl (Store.handle_error hr)⟩
      | ok o' =>
        have hr' : (st.casWrite (a.mutate u).1.resourceVersion fun _ => (a.mutate u).1).1 =
            .ok o' := hr
        obtain ⟨hcur, rfl, hnew⟩ := Store.casWrite_ok hs (hv.mutate hu) hr'
        obtain rfl : o = s := Option.some.inj (ho.symm.trans hcur)
        exact ⟨.inr (.inl ⟨_, rfl⟩), .inr ⟨u, hu, _, hnew⟩⟩
    · exact ⟨.inr (.inl ⟨_, rfl⟩), .inl rfl⟩

end Runs

section Alone

variable [DecidableEq α] {st : Store α}
variable (obj : Object α) (alwaysUpdate : Bool) (mutate : Object α → Object α × Option Error)
  (semanticDeepEqual : Object α → Object α → Bool) (get : Request (Object α))

theorem createIfNotFoundProg_runOn (hget : get.isGet = true) (ho : st.object = none) :
    let server := Server.ofAnswer fun c => (st.handle c).1
    (createIfNotFoundProg obj mutate .notFound).runOn st =
      (((createIfNotFound server get obj mutate .notFound).result,
        (createIfNotFound server get obj mutate .notFound).err),
        if (createIfNotFound server get obj mutate .notFound).writes = [] then st
        else (st.commit (createIfNotFound server get obj mutate .notFound).obj).2) := by
  rcases hm : mutate obj with ⟨o, _ | err⟩ <;>
    simp [createIfNotFoundProg, createIfNotFound, hm, hget, Prog.runOn, Server.ofAnswer,
      Store.handle, Store.commit, ho]

theorem updateIfChangedProg_runOn (hget : get.isGet = true) {s u : Object α}
    (ho : st.object = some s) (hrv : (mutate u).1.resourceVersion = s.resourceVersion) :
    let server := Server.ofAnswer fun c => (st.handle c).1
    (updateIfChangedProg u alwaysUpdate mutate semanticDeepEqual).runOn st =
      (((updateIfChanged server get u alwaysUpdate mutate semanticDeepEqual).result,
        (updateIfChanged server get u alwaysUpdate mutate semanticDeepEqual).err),
        if (updateIfChanged server get u alwaysUpdate mutate semanticDeepEqual).writes = [] then st
        else (st.commit (updateIfChanged server get u alwaysUpdate mutate
            semanticDeepEqual).obj).2) := by
  rcases hm : mutate u with ⟨o, _ | err⟩
  · have hrv : o.resourceVersion = s.resourceVersion := by simpa [hm] using hrv
    by_cases hc : (!alwaysUpdate && semanticDeepEqual u o) = true <;>
      simp [updateIfChangedProg, updateIfChanged, hm, hc, hget, Prog.runOn, Server.ofAnswer,
        Store.handle, Store.casWrite, Store.commit, ho, hrv]
  · simp [updateIfChangedProg, updateIfChanged, hm, hget, Prog.runOn]

theorem typedCreateOrUpdate_runOn (a : CreateOrUpdateCall α) (hv : a.Keeps Object.resourceVersion)
    (st : Store α) :
    let out := typedCreateOrUpdate a.scheme a.gvk a.convert
      (Server.ofAnswer fun c => (st.handle c).1) a.obj a.alwaysUpdate a.mutate a.semanticDeepEqual
    a.prog.runOn st =
      ((out.result, out.err), if out.writes = [] then st else (st.commit out.obj).2) := by
  simp only [CreateOrUpdateCall.prog, typedCreateOrUpdateProg, typedCreateOrUpdate]
  cases hs : a.scheme with
  | notClientObject => simp [Prog.runOn, CreateOrUpdateOutcome.writes]
  | notRegistered =>
    cases ho : st.object with
    | none =>
      simpa [Server.ofAnswer, ho, Prog.runOn, Store.handle, Reply.toExcept]
        using createIfNotFoundProg_runOn a.obj a.mutate .getUnstructured rfl ho
    | some s =>
      simpa [Server.ofAnswer, ho, Prog.runOn, Store.handle, Reply.toExcept]
        using updateIfChangedProg_runOn a.alwaysUpdate a.mutate a.semanticDeepEqual
          .getUnstructured rfl ho (hv.mutate (by simp [hs]))
  | clientObject =>
    cases ho : st.object with
    | none =>
      simpa [Server.ofAnswer, ho, Prog.runOn, Store.handle, Reply.toExcept]
        using createIfNotFoundProg_runOn a.obj a.mutate .getTyped rfl ho
    | some s =>
      rcases hc : a.convert s with err | u
      · simp [Server.ofAnswer, ho, hc, Prog.runOn, Store.handle, Reply.toExcept,
          CreateOrUpdateOutcome.writes, Request.isGet]
      · simpa [Server.ofAnswer, ho, hc, Prog.runOn, Store.handle, Reply.toExcept]
          using updateIfChangedProg_runOn a.alwaysUpdate a.mutate a.semanticDeepEqual
            .getTyped rfl ho (hv.mutate (by simp [hs, hc]))

/-- A call alone on the store, whose `scheme.Convert` and `mutate` keep the resource version.
It has a run, answered by the API server alone, in which it returns. Every run the API server
answers alone returns what `TypedCreateOrUpdate` returns against a server with the API
server's answers, and the store then holds the object the call leaves in obj under the next
revision, or is as it was when the call wrote nothing. A request refused with another error
ends the call with that error, the store as it was. -/
theorem typedCreateOrUpdate_alone (a : CreateOrUpdateCall α) (hv : a.Keeps Object.resourceVersion)
    (st : Store α) :
    let out := typedCreateOrUpdate a.scheme a.gvk a.convert
      (Server.ofAnswer fun c => (st.handle c).1) a.obj a.alwaysUpdate a.mutate a.semanticDeepEqual
    let st' := if out.writes = [] then st else (st.commit out.obj).2
    (∃ tr, run (System.step fun _ : Fin 1 => Prog.step) ⟨st, fun _ => a.prog⟩ tr =
        some ⟨st', fun _ => .pure (out.result, out.err)⟩ ∧
      run Store.answerLive st (tr.map Prod.snd) = some st') ∧
    ∀ tr S x, run (System.step fun _ : Fin 1 => Prog.step) ⟨st, fun _ => a.prog⟩ tr = some S →
      S.clients 0 = .pure x →
      (run Store.answerLive st (tr.map Prod.snd) = some S.store →
        x = (out.result, out.err) ∧ S.store = st') ∧
      ∀ c msg, (0, .call c (.error (.other msg))) ∈ tr →
        x.2 = some (.other msg) ∧ S.store = st := by
  intro out st'
  have hrun : a.prog.runOn st = ((out.result, out.err), st') := typedCreateOrUpdate_runOn a hv st
  refine ⟨⟨(a.prog.traceOn st).map (0, ·), ?_⟩, fun tr S x h hx => ⟨fun hlive => ?_, ?_⟩⟩
  · obtain ⟨h₁, h₂⟩ := Prog.run_traceOn a.prog st
    rw [hrun] at h₁ h₂
    exact ⟨h₁, by simpa [List.map_map, Function.comp_def] using h₂⟩
  · exact Prod.mk.inj ((Prog.runOn_of_live h hlive hx).symm.trans hrun)
  · intro c msg hc
    have hp := System.run_proj h 0
    rw [hx, System.proj_one] at hp
    obtain ⟨hx₂, hq⟩ := a.run_refused hp (List.mem_map_of_mem Prod.snd hc)
    exact ⟨hx₂, Store.run_quiet (System.run_store h) hq⟩

def addOneCall : CreateOrUpdateCall Nat :=
  ⟨.notRegistered, "v1, Kind=ConfigMap", .ok, ⟨0, [], 0, 0⟩, false,
    fun o => ({ o with spec := o.spec + 1 }, none), fun x y => decide (x = y)⟩

theorem typedCreateOrUpdate_alone_update :
    addOneCall.Keeps Object.resourceVersion ∧
      ∃ tr, run (System.step fun _ : Fin 1 => Prog.step)
          ⟨⟨some ⟨1, [], 0, 0⟩, 1, by rintro o ⟨⟩; exact Nat.le_refl 1⟩,
            fun _ => addOneCall.prog⟩ tr =
        some ⟨⟨some ⟨2, [], 1, 0⟩, 2, by rintro o ⟨⟩; exact Nat.le_refl 2⟩,
          fun _ => .pure (.updated, none)⟩ :=
  have hv : addOneCall.Keeps Object.resourceVersion :=
    ⟨fun _ _ h => by cases h; rfl, fun _ => rfl⟩
  ⟨hv, (typedCreateOrUpdate_alone addOneCall hv _).1.imp fun _ h => h.1⟩

end Alone

section Concurrent

variable [DecidableEq α] {C : Type} {n : Nat} {client : Fin n → C → Event α → Option C}
  {S₀ S : System α C n} {tr : List (Fin n × Event α)} {i : Fin n} {err : Option Error}

end Concurrent

end ResourceManager
