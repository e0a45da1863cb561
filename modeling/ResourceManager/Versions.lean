import ResourceManager.Clients

/-!
The API server over a whole run, whoever sends the requests. An answered event either leaves
the store as it was (a `Get`, a refused request, an event that is no request) or is a write
that goes through and stores the object it answers with under the next revision, having found
no object exactly when it is a `Create`. So an object once stored is never removed, at most
one `Create` goes through, and a write guarded by the version a `Get` returned goes through
only if that copy was the stored object and no write went through in between, and then unless
it is refused: the optimistic concurrency the helpers rely on.
-/

set_option autoImplicit false
set_option warningAsError true

namespace ResourceManager

variable {α : Type}

def Reply.err : Reply α → Option Error
  | .ok _ => none
  | .error err => some err

@[simp] theorem Reply.err_ok (o : Object α) : (Reply.ok o).err = none := rfl

@[simp] theorem Reply.err_error (err : Error) : (Reply.error err : Reply α).err = some err := rfl

def Event.wrote : Event α → Bool
  | .call c (.ok _) => !c.isGet
  | _ => false

def Event.created : Event α → Bool
  | .call (.create _) (.ok _) => true
  | _ => false

theorem Event.wrote_of_created {e : Event α} (h : e.created = true) : e.wrote = true := by
  match e, h with
  | .call (.create _) (.ok _), _ => rfl

namespace Store

variable [DecidableEq α] {st st' : Store α} {c : Call α} {o : Object α} {e : Event α}

omit [DecidableEq α] in
theorem casWrite_eq_commit {rv : Nat} {f : Object α → Object α}
    (h : (st.casWrite rv f).1 = .ok o) :
    ∃ cur, st.object = some cur ∧ rv = cur.resourceVersion ∧
      st.casWrite rv f = st.commit (f cur) := by
  cases hs : st.object with
  | none => simp [casWrite, hs] at h
  | some cur =>
    by_cases hv : rv = cur.resourceVersion
    · exact ⟨cur, rfl, hv, by simp [casWrite, hs, hv]⟩
    · simp [casWrite, hs, hv] at h

theorem handle_eq_commit (hc : c.isGet = false) (h : (st.handle c).1 = .ok o) :
    ∃ x, st.handle c = st.commit x ∧
      (st.object = none ↔ (Event.call c (.ok o)).created = true) := by
  cases c with
  | get | getCached => cases hc
  | create obj =>
    cases hs : st.object with
    | none => exact ⟨obj, by simp [handle, hs], by simp [Event.created]⟩
    | some _ => simp [handle, hs] at h
  | update obj | updateStatus obj | patch obj _ =>
    obtain ⟨cur, hcur, -, heq⟩ := casWrite_eq_commit h
    exact ⟨_, heq, by simp [hcur, Event.created]⟩

theorem answer_cases (h : st.answer e = some st') :
    (e.wrote = false ∧ st' = st) ∨
      ∃ c o, e = .call c (.ok o) ∧ c.isGet = false ∧ st'.object = some o ∧
        o.resourceVersion = st.revision + 1 ∧ st'.revision = st.revision + 1 ∧
        (st.object = none ↔ e.created = true) := by
  cases e with
  | call c r =>
    rcases answer_call h with ⟨hr, rfl⟩ | ⟨rfl, hr | ⟨rfl, -⟩⟩
    · cases r with
      | error err => exact .inl ⟨rfl, handle_error hr⟩
      | ok o =>
        cases hg : c.isGet
        · obtain ⟨x, hx, hcr⟩ := handle_eq_commit hg hr
          rw [hx] at hr ⊢
          cases hr
          exact .inr ⟨c, _, rfl, hg, rfl, rfl, rfl, hcr⟩
        · exact .inl ⟨by simp [Event.wrote, hg], handle_get_store c hg⟩
    · obtain ⟨msg, rfl⟩ := Reply.refused_iff.1 hr
      exact .inl ⟨rfl, rfl⟩
    · cases r <;> exact .inl ⟨rfl, rfl⟩
  | _ => cases h; exact .inl ⟨rfl, rfl⟩

theorem answer_quiet (h : st.answer e = some st') (hw : e.wrote = false) : st' = st := by
  rcases answer_cases h with ⟨-, rfl⟩ | ⟨c, o, rfl, hg, -⟩
  · rfl
  · simp [Event.wrote, hg] at hw

theorem answer_wrote_ne (h : st.answer e = some st') (hw : e.wrote = true) : st' ≠ st := by
  rcases answer_cases h with ⟨hw', -⟩ | ⟨-, -, -, -, -, -, hr, -⟩
  · rw [hw] at hw'; cases hw'
  · intro heq
    rw [heq] at hr
    omega

variable {es mid : List (Event α)}

theorem run_quiet (h : run Store.answer st es = some st') (hq : ∀ e ∈ es, e.wrote = false) :
    st' = st := by
  refine run_induction (fun (es : List (Event α)) (st' : Store α) =>
      (∀ e ∈ es, e.wrote = false) → st' = st) (fun _ => rfl)
    (fun es m e m' _ ih hs hq => ?_) h hq
  have hes : ∀ x ∈ es, x.wrote = false := fun x hx => hq x (List.mem_append_left _ hx)
  rcases answer_cases hs with ⟨-, rfl⟩ | ⟨c, o, rfl, hg, -⟩
  · exact ih hes
  · have := hq _ (List.mem_append_right _ (List.mem_singleton_self _))
    simp [Event.wrote, hg] at this

theorem run_created (h : run Store.answer st es = some st') :
    es.countP Event.created + (if st.object.isSome then 1 else 0) =
      if st'.object.isSome then 1 else 0 := by
  refine run_induction (fun (es : List (Event α)) (st' : Store α) =>
      es.countP Event.created + (if st.object.isSome then 1 else 0) =
        if st'.object.isSome then 1 else 0) (by simp) (fun es m e m' _ ih hs => ?_) h
  rcases answer_cases hs with ⟨he, rfl⟩ | ⟨c, o, rfl, -, ho, -, -, hcr⟩
  · have hc : e.created = false := Bool.eq_false_iff.2 fun hce => by
      rw [Event.wrote_of_created hce] at he; cases he
    simpa [List.countP_append, hc] using ih
  · rw [List.countP_append, ho]
    cases hce : (Event.call c (.ok o)).created
    · have hm : m.object.isSome = true := Option.isSome_iff_ne_none.2 fun hn => by
        simpa [hce] using hcr.1 hn
      simpa [hce, hm] using ih
    · have hm : m.object = none := hcr.2 hce
      simp only [hm, Option.isSome_none, Bool.false_eq_true, ↓reduceIte] at ih
      simp [hce]
      omega

theorem run_isSome (h : run Store.answer st es = some st') (hs : st.object.isSome) :
    st'.object.isSome := by
  have hc := run_created h
  by_contra hn
  simp [hs, hn] at hc

end Store

theorem System.run_store [DecidableEq α] {C : Type} {n : Nat}
    {client : Fin n → C → Event α → Option C} {S₀ S : System α C n}
    {tr : List (Fin n × Event α)} (h : run (System.step client) S₀ tr = some S) :
    run Store.answer S₀.store (tr.map Prod.snd) = some S.store := by
  refine run_induction (fun tr (S : System α C n) =>
      run Store.answer S₀.store (tr.map Prod.snd) = some S.store) rfl
    (fun tr T ⟨i, e⟩ T' _ ih hT => ?_) h
  beta_reduce at ih ⊢
  rw [List.map_append, List.map_singleton, run_snoc, ih]
  exact (System.step_eq_some hT).1

end ResourceManager
