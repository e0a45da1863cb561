import ResourceManager.Backoff

/-!
`tryUpdate`, behind `TryUpdate` and `TryUpdateStatus`. The condition it hands to
`exponentialBackoff` fetches the object into `obj`, runs the transform on it, and writes it
back with `updateFunc` unless the transform left it `reflect.DeepEqual` to what was fetched.
A write refused with a Conflict asks for another round; any other error ends the call.
-/

set_option autoImplicit false
set_option warningAsError true

namespace ResourceManager

/-- The write `tryUpdate` is given: `c.Update` for `TryUpdate`, `c.Status().Update` for
`TryUpdateStatus`. -/
inductive UpdateFunc where
  | update
  | status
  deriving DecidableEq, Repr

variable {α : Type}

def UpdateFunc.call : UpdateFunc → Object α → Call α
  | .update, obj => .update obj
  | .status, obj => .updateStatus obj

@[simp] theorem UpdateFunc.call_ne_get (u : UpdateFunc) (obj : Object α) : u.call obj ≠ .get := by
  cases u <;> simp [call]

@[simp] theorem UpdateFunc.get_ne_call (u : UpdateFunc) (obj : Object α) : .get ≠ u.call obj :=
  (u.call_ne_get obj).symm

@[simp] theorem UpdateFunc.call_inj (u : UpdateFunc) (o o' : Object α) :
    u.call o = u.call o' ↔ o = o' := by
  cases u <;> simp [call]

def UpdateFunc.write : UpdateFunc → Object α → Object α → Object α
  | .update, _, obj => obj
  | .status, cur, obj => { cur with status := obj.status }

@[simp] theorem UpdateFunc.write_self (u : UpdateFunc) (s : Object α) : u.write s s = s := by
  cases u <;> rfl

theorem UpdateFunc.handle_call [DecidableEq α] (u : UpdateFunc) (st : Store α) (obj : Object α) :
    st.handle (u.call obj) = st.casWrite obj.resourceVersion fun cur => u.write cur obj := by
  cases u <;> rfl

section Code

variable [DecidableEq α]

def updateReply (obj : Object α) : Reply α → Prog α (Object α × Bool × Option Error)
  | .ok obj => .pure (obj, true, none)
  | .error err => if err.isConflict then .pure (obj, false, none) else .pure (obj, false, some err)

/-- The condition once `c.Get` has filled `obj`. The transform mutates `obj` and returns an
error: it is modelled by the object it leaves and that error. -/
def transformAndUpdate (updateFunc : UpdateFunc) (transform : Object α → Object α × Option Error)
    (obj : Object α) : Prog α (Object α × Bool × Option Error) :=
  let beforeTransform := obj
  match transform obj with
  | (obj, some err) => .pure (obj, false, some err)
  | (obj, none) =>
    if obj = beforeTransform then .pure (obj, true, none)
    else .call (updateFunc.call obj) (updateReply obj)

def getReply (updateFunc : UpdateFunc) (transform : Object α → Object α × Option Error)
    (obj : Object α) : Reply α → Prog α (Object α × Bool × Option Error)
  | .ok obj => transformAndUpdate updateFunc transform obj
  | .error err => .pure (obj, false, some err)

def tryUpdateCondition (updateFunc : UpdateFunc) (transform : Object α → Object α × Option Error)
    (obj : Object α) : Prog α (Object α × Bool × Option Error) :=
  .call .get (getReply updateFunc transform obj)

def tryUpdate (backoff : Backoff) (updateFunc : UpdateFunc)
    (transform : Object α → Object α × Option Error) :
    Loop α (Object α) → Event α → Option (Loop α (Object α)) :=
  exponentialBackoff backoff (tryUpdateCondition updateFunc transform)

def exportedTryUpdate (backoff : Backoff) (transform : Object α → Object α × Option Error) :
    Loop α (Object α) → Event α → Option (Loop α (Object α)) :=
  tryUpdate backoff .update transform

def tryUpdateStatus (backoff : Backoff) (transform : Object α → Object α × Option Error) :
    Loop α (Object α) → Event α → Option (Loop α (Object α)) :=
  tryUpdate backoff .status transform

end Code

section Attempt

variable (updateFunc : UpdateFunc) (transform : Object α → Object α × Option Error)

def Succeeds (e : Event α) : Prop :=
  (∃ s, e = .call .get (.ok s) ∧ transform s = (s, none)) ∨
    ∃ o o', e = .call (updateFunc.call o) (.ok o')

def Fails (e : Event α) (err : Error) : Prop :=
  e = .call .get (.error err) ∨ (∃ s o, e = .call .get (.ok s) ∧ transform s = (o, some err)) ∨
    ∃ o, e = .call (updateFunc.call o) (.error err) ∧ err ≠ .conflict

def Conflicts (e : Event α) : Prop := ∃ o, e = .call (updateFunc.call o) (.error .conflict)

def Outcome (e : Event α) (ok : Bool) (err : Option Error) : Prop :=
  (Succeeds updateFunc transform e ∧ ok = true ∧ err = none) ∨
    (∃ err', Fails updateFunc transform e err' ∧ ok = false ∧ err = some err') ∨
    (Conflicts updateFunc e ∧ ok = false ∧ err = none)

def Quiet (tr : List (Event α)) : Prop :=
  ∀ e ∈ tr, ¬ Succeeds updateFunc transform e ∧ ∀ err, ¬ Fails updateFunc transform e err

def Conflicted (tr : List (Event α)) : Prop :=
  ∀ pre ok err post, tr = pre ++ .returned ok err :: post →
    ok = false ∧ err = none ∧ ∃ pre' o, pre = pre' ++ [.call (updateFunc.call o) (.error .conflict)]

end Attempt

theorem snoc_eq_append_cons {β : Type} {tr pre post : List β} {e x : β}
    (h : tr ++ [e] = pre ++ x :: post) :
    (pre = tr ∧ x = e ∧ post = []) ∨ ∃ post', post = post' ++ [e] ∧ tr = pre ++ x :: post' := by
  rcases List.eq_nil_or_concat post with rfl | ⟨post', y, rfl⟩
  · have := List.append_inj' h rfl
    simp_all
  · have h' : tr ++ [e] = (pre ++ x :: post') ++ [y] := by simpa using h
    obtain ⟨h1, h2⟩ := List.append_inj' h' rfl
    simp_all

section Trace

variable {updateFunc : UpdateFunc} {transform : Object α → Object α × Option Error}
  {tr : List (Event α)} {e : Event α}

theorem quiet_append {tr' : List (Event α)} :
    Quiet updateFunc transform (tr ++ tr') ↔
      Quiet updateFunc transform tr ∧ Quiet updateFunc transform tr' := by
  simp only [Quiet, List.mem_append]
  exact ⟨fun h => ⟨fun e he => h e (.inl he), fun e he => h e (.inr he)⟩,
    fun h e he => he.elim (h.1 e) (h.2 e)⟩

theorem quiet_single (he : ∀ c r, e ≠ .call c r) : Quiet updateFunc transform [e] := by
  simp only [Quiet, List.mem_singleton, forall_eq, Succeeds, Fails]
  refine ⟨?_, fun err => ?_⟩ <;> aesop

theorem quiet_get {s o : Object α} (ht : transform s = (o, none)) (ho : o ≠ s) :
    Quiet updateFunc transform [.call .get (.ok s)] := by
  simp only [Quiet, List.mem_singleton, forall_eq, Succeeds, Fails]
  refine ⟨?_, fun err => ?_⟩ <;> aesop

theorem quiet_conflicts (h : Conflicts updateFunc e) : Quiet updateFunc transform [e] := by
  obtain ⟨o, rfl⟩ := h
  simp only [Quiet, List.mem_singleton, forall_eq, Succeeds, Fails]
  refine ⟨?_, fun err => ?_⟩ <;> aesop

theorem conflicted_snoc (h : Conflicted updateFunc tr) (he : ∀ ok err, e ≠ .returned ok err) :
    Conflicted updateFunc (tr ++ [e]) := by
  intro pre ok err post hp
  rcases snoc_eq_append_cons hp with ⟨rfl, rfl, rfl⟩ | ⟨post', rfl, rfl⟩
  · exact absurd rfl (he ok err)
  · exact h pre ok err post' rfl

theorem conflicted_snoc_returned {o : Object α}
    (h : Conflicted updateFunc (tr ++ [.call (updateFunc.call o) (.error .conflict)])) :
    Conflicted updateFunc
      (tr ++ [.call (updateFunc.call o) (.error .conflict), .returned false none]) := by
  intro pre ok err post hp
  rw [← List.singleton_append, ← List.append_assoc] at hp
  rcases snoc_eq_append_cons hp with ⟨rfl, he, rfl⟩ | ⟨post', rfl, hpre⟩
  · cases he; exact ⟨rfl, rfl, tr, o, rfl⟩
  · exact h pre ok err post' hpre

end Trace

section Condition

variable [DecidableEq α] {updateFunc : UpdateFunc} {transform : Object α → Object α × Option Error}

theorem getReply_cases (updateFunc : UpdateFunc)
    (transform : Object α → Object α × Option Error) (obj : Object α) (r : Reply α) :
    (∃ s o, r = .ok s ∧ transform s = (o, none) ∧ o ≠ s ∧
      getReply updateFunc transform obj r = .call (updateFunc.call o) (updateReply o)) ∨
    ∃ s' ok err, getReply updateFunc transform obj r = .pure (s', ok, err) ∧
      Outcome updateFunc transform (.call .get r) ok err := by
  cases r with
  | error err => exact .inr ⟨obj, false, some err, rfl, .inr (.inl ⟨err, .inl rfl, rfl, rfl⟩)⟩
  | ok s =>
    rcases ht : transform s with ⟨o, _ | err⟩
    · by_cases ho : o = s
      · subst ho
        exact .inr ⟨o, true, none, by simp [getReply, transformAndUpdate, ht],
          .inl ⟨.inl ⟨o, rfl, ht⟩, rfl, rfl⟩⟩
      · exact .inl ⟨s, o, rfl, ht, ho, by simp [getReply, transformAndUpdate, ht, ho]⟩
    · exact .inr ⟨o, false, some err, by simp [getReply, transformAndUpdate, ht],
        .inr (.inl ⟨err, .inr (.inl ⟨s, o, rfl, ht⟩), rfl, rfl⟩)⟩

omit [DecidableEq α] in
theorem updateReply_outcome (updateFunc : UpdateFunc)
    (transform : Object α → Object α × Option Error) (o : Object α) (r : Reply α) :
    ∃ s' ok err, updateReply o r = .pure (s', ok, err) ∧
      Outcome updateFunc transform (.call (updateFunc.call o) r) ok err := by
  cases r with
  | ok o' => exact ⟨o', true, none, rfl, .inl ⟨.inr ⟨o, o', rfl⟩, rfl, rfl⟩⟩
  | error err =>
    by_cases hc : err = .conflict
    · subst hc
      exact ⟨o, false, none, rfl, .inr (.inr ⟨⟨o, rfl⟩, rfl, rfl⟩)⟩
    · exact ⟨o, false, some err, by simp [updateReply, hc],
        .inr (.inl ⟨err, .inr (.inr ⟨o, rfl, hc⟩), rfl, rfl⟩)⟩

end Condition

section Runs

variable [DecidableEq α] {backoff : Backoff} {updateFunc : UpdateFunc}
  {transform : Object α → Object α × Option Error}

/-- What a trace of `tryUpdate` looks like at each state it can lead to. -/
def TryInv (updateFunc : UpdateFunc) (transform : Object α → Object α × Option Error)
    (tr : List (Event α)) : Loop α (Object α) → Prop
  | .head _ _ => Quiet updateFunc transform tr ∧ Conflicted updateFunc tr ∧
    (tr = [] ∨ ∃ pre o, tr = pre ++ [.call (updateFunc.call o) (.error .conflict),
      .returned false none, .ctxDone false, .sleep])
  | .condition _ p => Conflicted updateFunc tr ∧
    ((Quiet updateFunc transform tr ∧
        ∃ pre s, tr = pre ++ [.attempt] ∧ p = tryUpdateCondition updateFunc transform s) ∨
      (Quiet updateFunc transform tr ∧ ∃ pre s o, tr = pre ++ [.call .get (.ok s)] ∧
        transform s = (o, none) ∧ o ≠ s ∧ p = .call (updateFunc.call o) (updateReply o)) ∨
      (∃ pre e s ok err, tr = pre ++ [e] ∧ Quiet updateFunc transform pre ∧
        Outcome updateFunc transform e ok err ∧ p = .pure (s, ok, err)))
  | .select _ _ => Quiet updateFunc transform tr ∧ Conflicted updateFunc tr ∧
    ∃ pre o, tr = pre ++ [.call (updateFunc.call o) (.error .conflict), .returned false none]
  | .sleep _ _ => Quiet updateFunc transform tr ∧ Conflicted updateFunc tr ∧
    ∃ pre o, tr = pre ++ [.call (updateFunc.call o) (.error .conflict), .returned false none,
      .ctxDone false]
  | .done err _ =>
    (err = none ∧ ∃ pre e, tr = pre ++ [e, .returned true none] ∧
      Quiet updateFunc transform pre ∧ Succeeds updateFunc transform e) ∨
    (∃ err', err = some err' ∧ ∃ pre e, tr = pre ++ [e, .returned false (some err')] ∧
      Quiet updateFunc transform pre ∧ Fails updateFunc transform e err') ∨
    ((err = some .waitTimeout ∨ err = some .ctxErr) ∧ Quiet updateFunc transform tr ∧
      Conflicted updateFunc tr)

theorem tryInv_step {tr : List (Event α)} {l l' : Loop α (Object α)} {e : Event α}
    (hl : TryInv updateFunc transform tr l)
    (h : tryUpdate backoff updateFunc transform l e = some l') :
    TryInv updateFunc transform (tr ++ [e]) l' := by
  have hq : ∀ e, (∀ c r, e ≠ .call c r) → (Quiet updateFunc transform (tr ++ [e]) ↔
      Quiet updateFunc transform tr) := fun e he => by simp [quiet_append, quiet_single he]
  rcases exponentialBackoff_eq_some h with
    ⟨i, s, rfl, -, rfl, rfl⟩ | ⟨i, s, rfl, -, rfl, rfl⟩ | ⟨i, c, k, r, rfl, rfl, rfl⟩ |
    ⟨i, s, ok, err, rfl, rfl, rfl⟩ | ⟨i, s, rfl, rfl, rfl⟩ | ⟨i, s, rfl, rfl, rfl⟩ |
    ⟨i, s, rfl, rfl, rfl⟩
  · obtain ⟨hqt, hct, -⟩ := hl
    exact ⟨conflicted_snoc hct (by simp), .inl ⟨(hq _ (by simp)).2 hqt, tr, s, rfl, rfl⟩⟩
  · obtain ⟨hqt, hct, -⟩ := hl
    exact .inr (.inr ⟨.inl rfl, (hq _ (by simp)).2 hqt, conflicted_snoc hct (by simp)⟩)
  · obtain ⟨hct, ⟨hqt, pre, s, -, hp⟩ | ⟨hqt, pre, s, o, -, -, -, hp⟩ |
      ⟨_, _, _, _, _, -, -, -, hp⟩⟩ := hl
    · simp only [tryUpdateCondition, Prog.call.injEq] at hp
      obtain ⟨rfl, rfl⟩ := hp
      refine ⟨conflicted_snoc hct (by simp), ?_⟩
      rcases getReply_cases updateFunc transform s r with
        ⟨s', o, rfl, ht, ho, hk⟩ | ⟨s', ok, err, hk, hout⟩
      · exact .inr (.inl ⟨quiet_append.2 ⟨hqt, quiet_get ht ho⟩, tr, s', o, rfl, ht, ho, hk⟩)
      · exact .inr (.inr ⟨tr, _, s', ok, err, rfl, hqt, hout, hk⟩)
    · simp only [Prog.call.injEq] at hp
      obtain ⟨rfl, rfl⟩ := hp
      refine ⟨conflicted_snoc hct (by simp), .inr (.inr ?_)⟩
      obtain ⟨s', ok, err, hk, hout⟩ := updateReply_outcome updateFunc transform o r
      exact ⟨tr, _, s', ok, err, rfl, hqt, hout, hk⟩
    · cases hp
  · obtain ⟨hct, ⟨-, _, _, -, hp⟩ | ⟨-, _, _, _, -, -, -, hp⟩ |
      ⟨pre, e, s', ok', err', rfl, hqp, hout, hp⟩⟩ := hl
    · simp [tryUpdateCondition] at hp
    · cases hp
    · simp only [Prog.pure.injEq, Prod.mk.injEq] at hp
      obtain ⟨rfl, rfl, rfl⟩ := hp
      rcases hout with ⟨hs, rfl, rfl⟩ | ⟨err', hf, rfl, rfl⟩ | ⟨⟨o, rfl⟩, rfl, rfl⟩
      · exact .inl ⟨rfl, pre, e, by simp, hqp, hs⟩
      · exact .inr (.inl ⟨err', rfl, pre, e, by simp, hqp, hf⟩)
      · simp only [Option.isSome_none, Bool.or_self, Bool.false_eq_true, ↓reduceIte]
        refine ⟨?_, ?_, pre, o, by simp⟩
        · exact (hq _ (by simp)).2 (quiet_append.2 ⟨hqp, quiet_conflicts ⟨o, rfl⟩⟩)
        · simpa using conflicted_snoc_returned hct
  · obtain ⟨hqt, hct, -⟩ := hl
    exact .inr (.inr ⟨.inr rfl, (hq _ (by simp)).2 hqt, conflicted_snoc hct (by simp)⟩)
  · obtain ⟨hqt, hct, pre, o, rfl⟩ := hl
    exact ⟨(hq _ (by simp)).2 hqt, conflicted_snoc hct (by simp), pre, o, by simp⟩
  · obtain ⟨hqt, hct, pre, o, rfl⟩ := hl
    exact ⟨(hq _ (by simp)).2 hqt, conflicted_snoc hct (by simp), .inr ⟨pre, o, by simp⟩⟩

theorem tryInv_run {obj : Object α} {tr : List (Event α)} {l : Loop α (Object α)}
    (h : run (tryUpdate backoff updateFunc transform) (Loop.start obj) tr = some l) :
    TryInv updateFunc transform tr l :=
  run_induction (fun tr l => TryInv updateFunc transform tr l)
    (by simp only [Loop.start, TryInv]; exact ⟨by simp [Quiet], by simp [Conflicted], .inl trivial⟩)
    (fun _ _ _ _ _ hl hs => tryInv_step hl hs) h

omit [DecidableEq α] in
theorem succeeds_not_fails {e : Event α} {err : Error}
    (hs : Succeeds updateFunc transform e) : ¬ Fails updateFunc transform e err := by
  rintro (rfl | ⟨s, o, rfl, ht⟩ | ⟨o, rfl, -⟩) <;>
    rcases hs with ⟨s', he, ht'⟩ | ⟨o', o'', he⟩ <;> simp_all

theorem step_of_pure {i : GoInt} {x : Object α × Bool × Option Error} {e : Event α}
    {l' : Loop α (Object α)}
    (h : tryUpdate backoff updateFunc transform (.condition i (.pure x)) e = some l') :
    ∃ ok err, e = .returned ok err ∧ x = (x.1, ok, err) ∧
      l' = if err.isSome || ok then .done err x.1 else .select i x.1 := by
  rcases exponentialBackoff_eq_some h with
    ⟨_, _, h1, -⟩ | ⟨_, _, h1, -⟩ | ⟨_, _, _, _, h1, -⟩ | ⟨i', s, ok, err, h1, rfl, rfl⟩ |
    ⟨_, _, h1, -⟩ | ⟨_, _, h1, -⟩ | ⟨_, _, h1, -⟩ <;>
    simp only [Loop.condition.injEq, Prog.pure.injEq, reduceCtorEq, and_false] at h1
  obtain ⟨rfl, rfl⟩ := h1
  exact ⟨ok, err, rfl, rfl, rfl⟩

theorem call_stage {tr : List (Event α)} {i : GoInt} {c : Call α}
    {k : Reply α → Prog α (Object α × Bool × Option Error)}
    (hl : TryInv updateFunc transform tr (.condition i (.call c k))) :
    (∃ pre s, tr = pre ++ [.attempt] ∧ c = .get ∧ k = getReply updateFunc transform s) ∨
    (∃ pre s o, tr = pre ++ [.call .get (.ok s)] ∧ transform s = (o, none) ∧ o ≠ s ∧
      c = updateFunc.call o ∧ k = updateReply o) := by
  obtain ⟨-, ⟨-, pre, s, htr, hp⟩ | ⟨-, pre, s, o, htr, ht, ho, hp⟩ |
    ⟨_, _, _, _, _, -, -, -, hp⟩⟩ := hl
  · simp only [tryUpdateCondition, Prog.call.injEq] at hp
    exact .inl ⟨pre, s, htr, hp.1, hp.2⟩
  · simp only [Prog.call.injEq] at hp
    exact .inr ⟨pre, s, o, htr, ht, ho, hp.1, hp.2⟩
  · cases hp

theorem failed_step {tr : List (Event α)} {l l' : Loop α (Object α)} {e : Event α} {err : Error}
    (hl : TryInv updateFunc transform tr l)
    (h : tryUpdate backoff updateFunc transform l e = some l')
    (hf : Fails updateFunc transform e err) :
    ∃ i x, l' = .condition i (.pure (x, false, some err)) := by
  obtain ⟨c₀, r₀, rfl⟩ : ∃ c r, e = .call c r := by
    rcases hf with rfl | ⟨_, _, rfl, -⟩ | ⟨_, rfl, -⟩ <;> exact ⟨_, _, rfl⟩
  rcases exponentialBackoff_eq_some h with
    ⟨_, _, -, -, h1, -⟩ | ⟨_, _, -, -, h1, -⟩ | ⟨i, c, k, r, rfl, h1, rfl⟩ |
    ⟨_, _, _, _, -, h1, -⟩ | ⟨_, _, -, h1, -⟩ | ⟨_, _, -, h1, -⟩ | ⟨_, _, -, h1, -⟩ <;>
    simp only [reduceCtorEq, Event.call.injEq] at h1
  obtain ⟨rfl, rfl⟩ := h1
  rcases call_stage hl with ⟨pre, s, -, rfl, rfl⟩ | ⟨pre, s, o, -, -, -, rfl, rfl⟩ <;>
    rcases hf with h1 | ⟨s', o', h1, ht⟩ | ⟨o', h1, hc⟩ <;>
    simp only [Event.call.injEq, UpdateFunc.call_inj, UpdateFunc.get_ne_call,
      UpdateFunc.call_ne_get, false_and] at h1
  · obtain ⟨-, rfl⟩ := h1; exact ⟨i, s, rfl⟩
  · obtain ⟨-, rfl⟩ := h1; exact ⟨i, o', by simp [getReply, transformAndUpdate, ht]⟩
  · obtain ⟨rfl, rfl⟩ := h1; exact ⟨i, o, by simp [updateReply, hc]⟩

theorem next_of_pure {i : GoInt} {x : Object α × Bool × Option Error} {post : List (Event α)}
    {l : Loop α (Object α)}
    (h : run (tryUpdate backoff updateFunc transform) (.condition i (.pure x)) post = some l) :
    ∀ e ∈ post.head?, ∃ ok err, e = .returned ok err := by
  cases post with
  | nil => simp
  | cons e post =>
    obtain ⟨m, hm, -⟩ := run_cons_eq_some h
    obtain ⟨ok, err, rfl, -⟩ := step_of_pure hm
    simp

theorem run_of_failed {i : GoInt} {x : Object α} {err : Error} {post : List (Event α)}
    {l : Loop α (Object α)}
    (h : run (tryUpdate backoff updateFunc transform) (.condition i (.pure (x, false, some err)))
      post = some l) :
    (post = [] ∨ post = [.returned false (some err)]) ∧ (post ≠ [] → l = .done (some err) x) := by
  cases post with
  | nil => exact ⟨.inl rfl, fun h => absurd rfl h⟩
  | cons e post =>
    obtain ⟨m, hm, hrest⟩ := run_cons_eq_some h
    obtain ⟨ok, err', rfl, hx, rfl⟩ := step_of_pure hm
    simp only [Prod.mk.injEq, true_and] at hx
    obtain ⟨rfl, rfl⟩ := hx
    obtain ⟨rfl, rfl⟩ := run_done hrest
    exact ⟨.inr rfl, fun _ => rfl⟩

theorem run_split {obj : Object α} {pre post : List (Event α)} {e : Event α}
    {l : Loop α (Object α)}
    (h : run (tryUpdate backoff updateFunc transform) (Loop.start obj) (pre ++ e :: post) =
      some l) :
    ∃ m m', TryInv updateFunc transform pre m ∧
      tryUpdate backoff updateFunc transform m e = some m' ∧
      run (tryUpdate backoff updateFunc transform) m' post = some l := by
  obtain ⟨m, hm, hrest⟩ := run_append_eq_some h
  obtain ⟨m', hm', hpost⟩ := run_cons_eq_some hrest
  exact ⟨m, m', tryInv_run hm, hm', hpost⟩

theorem write_after_get {obj o : Object α} {pre post : List (Event α)} {r : Reply α}
    {l : Loop α (Object α)}
    (h : run (tryUpdate backoff updateFunc transform) (Loop.start obj)
      (pre ++ .call (updateFunc.call o) r :: post) = some l) :
    (∃ pre' s, pre = pre' ++ [.call .get (.ok s)] ∧ transform s = (o, none) ∧ o ≠ s) ∧
      ∀ e ∈ post.head?, ∃ ok err, e = .returned ok err := by
  obtain ⟨m, m', hm, hstep, hpost⟩ := run_split h
  rcases exponentialBackoff_eq_some hstep with
    ⟨_, _, -, -, h1, -⟩ | ⟨_, _, -, -, h1, -⟩ | ⟨i, c, k, r', rfl, h1, rfl⟩ |
    ⟨_, _, _, _, -, h1, -⟩ | ⟨_, _, -, h1, -⟩ | ⟨_, _, -, h1, -⟩ | ⟨_, _, -, h1, -⟩ <;>
    simp only [reduceCtorEq, Event.call.injEq] at h1
  obtain ⟨rfl, rfl⟩ := h1
  rcases call_stage hm with ⟨_, _, -, hc, -⟩ | ⟨pre', s, o', rfl, ht, ho, hc, rfl⟩
  · exact absurd hc.symm (by simp)
  · obtain rfl : o' = o := ((UpdateFunc.call_inj _ _ _).1 hc).symm
    obtain ⟨x, ok, err, hk, -⟩ := updateReply_outcome updateFunc transform o' r
    rw [hk] at hpost
    exact ⟨⟨pre', s, rfl, ht, ho⟩, next_of_pure hpost⟩

theorem failed_ends {obj : Object α} {pre post : List (Event α)} {e : Event α} {err : Error}
    {l : Loop α (Object α)}
    (h : run (tryUpdate backoff updateFunc transform) (Loop.start obj) (pre ++ e :: post) =
      some l)
    (hf : Fails updateFunc transform e err) :
    (post = [] ∨ post = [.returned false (some err)]) ∧
      (post ≠ [] → ∃ s, l = .done (some err) s) := by
  obtain ⟨m, m', hm, hstep, hpost⟩ := run_split h
  obtain ⟨i, x, rfl⟩ := failed_step hm hstep hf
  obtain ⟨hp, hl⟩ := run_of_failed hpost
  exact ⟨hp, fun hne => ⟨x, hl hne⟩⟩

theorem attempt_after_conflict {obj : Object α} {pre post : List (Event α)}
    {l : Loop α (Object α)}
    (h : run (tryUpdate backoff updateFunc transform) (Loop.start obj)
      (pre ++ .attempt :: post) = some l) (hpre : pre ≠ []) :
    ∃ pre' o, pre = pre' ++ [.call (updateFunc.call o) (.error .conflict), .returned false none,
      .ctxDone false, .sleep] := by
  obtain ⟨m, m', hm, hstep, -⟩ := run_split h
  rcases exponentialBackoff_eq_some hstep with
    ⟨i, s, rfl, -, -, -⟩ | ⟨_, _, -, -, h1, -⟩ | ⟨_, _, _, _, -, h1, -⟩ |
    ⟨_, _, _, _, -, h1, -⟩ | ⟨_, _, -, h1, -⟩ | ⟨_, _, -, h1, -⟩ | ⟨_, _, -, h1, -⟩
  · exact hm.2.2.resolve_left hpre
  all_goals cases h1

section Done

variable {tr : List (Event α)} {s : Object α}

theorem TryInv.done_none_iff {err : Option Error}
    (hinv : TryInv updateFunc transform tr (.done err s)) :
    err = none ↔ ∃ e ∈ tr, Succeeds updateFunc transform e := by
  rcases hinv with ⟨rfl, pre, e, rfl, -, hs⟩ | ⟨err', rfl, pre, e, rfl, hq, hf⟩ | ⟨herr, hq, -⟩
  · exact ⟨fun _ => ⟨e, List.mem_append_right _ (List.mem_cons_self _ _), hs⟩, fun _ => rfl⟩
  · refine ⟨fun h => (by cases h), fun ⟨e', he', hs⟩ => ?_⟩
    simp only [List.mem_append, List.mem_cons, List.not_mem_nil, or_false] at he'
    rcases he' with he' | rfl | rfl
    · exact absurd hs (hq e' he').1
    · exact absurd hf (succeeds_not_fails hs)
    · rcases hs with ⟨_, h1, -⟩ | ⟨_, _, h1⟩ <;> cases h1
  · refine ⟨fun h => (by rcases herr with rfl | rfl <;> cases h), fun ⟨e', he', hs⟩ => ?_⟩
    exact absurd hs (hq e' he').1

theorem TryInv.done_error {err : Error}
    (hinv : TryInv updateFunc transform tr (.done (some err) s)) :
    (∃ e ∈ tr, Fails updateFunc transform e err) ∨
      ((err = .waitTimeout ∨ err = .ctxErr) ∧ Quiet updateFunc transform tr ∧
        Conflicted updateFunc tr) := by
  rcases hinv with ⟨h1, -⟩ | ⟨err', h1, pre, e, rfl, -, hf⟩ | ⟨herr, hq, hc⟩
  · cases h1
  · cases h1; exact .inl ⟨e, List.mem_append_right _ (List.mem_cons_self _ _), hf⟩
  · exact .inr ⟨by rcases herr with h1 | h1 <;> cases h1 <;> simp, hq, hc⟩

theorem TryInv.done_conflict (hinv : TryInv updateFunc transform tr (.done (some .conflict) s)) :
    ∃ e ∈ tr, e = .call .get (.error .conflict) ∨
      ∃ s' o, e = .call .get (.ok s') ∧ transform s' = (o, some .conflict) := by
  rcases hinv.done_error with ⟨e, he, hf⟩ | ⟨herr, -⟩
  · refine ⟨e, he, ?_⟩
    rcases hf with rfl | ⟨s', o, rfl, ht⟩ | ⟨o, -, hc⟩
    · exact .inl rfl
    · exact .inr ⟨s', o, rfl, ht⟩
    · exact absurd rfl hc
  · rcases herr with h1 | h1 <;> cases h1

end Done

/-- Every run of `tryUpdate` (so of `TryUpdate` and of `TryUpdateStatus`), whatever the
store answers:
(a) a write follows right after the `Get` of its attempt, whose transform changed the
object, and the attempt returns right after it;
(b) the call returns nil exactly when an attempt was a no-op or its write went through;
(c) after a `Get`, transform or write that fails with an error other than a Conflict, the
condition returns that error and the call returns it, with no further request;
(d) a new attempt starts only after a write refused with a Conflict;
(e) an error that no request returned is `wait.ErrWaitTimeout` or `ctx.Err()`, and then
every attempt ended in a Conflict;
(f) it returns a Conflict only when `Get` or the transform returned that Conflict. -/
theorem tryUpdate_outcomes {obj : Object α} {tr : List (Event α)} {l : Loop α (Object α)}
    (h : run (tryUpdate backoff updateFunc transform) (Loop.start obj) tr = some l) :
    (∀ pre o r post, tr = pre ++ .call (updateFunc.call o) r :: post →
      (∃ pre' s, pre = pre' ++ [.call .get (.ok s)] ∧ transform s = (o, none) ∧ o ≠ s) ∧
      ∀ e ∈ post.head?, ∃ ok err, e = .returned ok err) ∧
    (∀ err s, l = .done err s → (err = none ↔ ∃ e ∈ tr, Succeeds updateFunc transform e)) ∧
    (∀ pre e post err, tr = pre ++ e :: post → Fails updateFunc transform e err →
      (post = [] ∨ post = [.returned false (some err)]) ∧
      (post ≠ [] → ∃ s, l = .done (some err) s)) ∧
    (∀ pre post, tr = pre ++ .attempt :: post → pre ≠ [] →
      ∃ pre' o, pre = pre' ++ [.call (updateFunc.call o) (.error .conflict), .returned false none,
        .ctxDone false, .sleep]) ∧
    (∀ err s, l = .done (some err) s →
      (∃ e ∈ tr, Fails updateFunc transform e err) ∨
      ((err = .waitTimeout ∨ err = .ctxErr) ∧ Quiet updateFunc transform tr ∧
        Conflicted updateFunc tr)) ∧
    (∀ s, l = .done (some .conflict) s → ∃ e ∈ tr, e = .call .get (.error .conflict) ∨
      ∃ s' o, e = .call .get (.ok s') ∧ transform s' = (o, some .conflict)) := by
  have hinv := tryInv_run h
  refine ⟨?_, ?_, ?_, ?_, ?_, ?_⟩
  · rintro pre o r post rfl; exact write_after_get h
  · rintro err s rfl; exact hinv.done_none_iff
  · rintro pre e post err rfl hf; exact failed_ends h hf
  · rintro pre post rfl; exact attempt_after_conflict h
  · rintro err s rfl; exact hinv.done_error
  · rintro s rfl; exact hinv.done_conflict

theorem tryUpdate_outcomes_noop :
    ∃ e ∈ [.attempt, .call .get (.ok ⟨1, [], 0, 0⟩), .returned true none],
      Succeeds .update (fun o : Object Nat => (o, none)) e := by
  have h : run (tryUpdate ⟨⟨1, by decide, by decide⟩⟩ .update fun o : Object Nat => (o, none))
      (Loop.start ⟨1, [], 0, 0⟩) [.attempt, .call .get (.ok ⟨1, [], 0, 0⟩), .returned true none] =
      some (.done none ⟨1, [], 0, 0⟩) := rfl
  exact ((tryUpdate_outcomes h).2.1 none _ rfl).1 rfl

end Runs

/-- `Get` and the transform pass their errors through, a Conflict or `ctx.Err()` included:
a transform that fails with a Conflict makes `TryUpdate` return that Conflict after one
attempt, and a `Get` that fails with `ctx.Err()` makes it return `ctx.Err()` although no
attempt ended in a Conflict. -/
theorem tryUpdate_passes_errors_through :
    (run (exportedTryUpdate ⟨⟨1, by decide, by decide⟩⟩ fun o : Object Nat => (o, some .conflict))
      (Loop.start ⟨1, [], 0, 0⟩) [.attempt, .call .get (.ok ⟨1, [], 0, 0⟩),
        .returned false (some .conflict)]).bind Loop.result = some (some .conflict) ∧
    (run (exportedTryUpdate ⟨⟨1, by decide, by decide⟩⟩ fun o : Object Nat => (o, none))
      (Loop.start ⟨1, [], 0, 0⟩) [.attempt, .call .get (.error .ctxErr),
        .returned false (some .ctxErr)]).bind Loop.result = some (some .ctxErr) := by
  decide

end ResourceManager
