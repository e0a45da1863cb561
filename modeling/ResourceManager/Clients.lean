import ResourceManager.Prog

/-!
Several clients working on the one key at once. Each client is a machine over its own
events, and a trace interleaves the events of all of them. Every request is answered
atomically, at the point where its `call` event stands in the trace: by the API server, by a
refusal with another error, or, for a typed `Get`, from the informer cache. A client alone,
every request of it answered by the API server, runs as `Prog.runOn` says.
-/

set_option autoImplicit false
set_option warningAsError true

namespace ResourceManager

variable {α C : Type} [DecidableEq α]

/-- The API server answers every request itself: the store's side of an event when no
request is refused and no `Get` is answered from the cache. -/
def Store.answerLive (st : Store α) : Event α → Option (Store α)
  | .call c r => if (st.handle c).1 = r then some (st.handle c).2 else none
  | _ => some st

/-- The store's side of an event as the client sees it: the API server's own answer, a
refusal with another error, or a typed `Get` answered from the informer cache. A refusal or
a cached answer leaves the store as it was, and so do the events that are no request. -/
def Store.answer (st : Store α) : Event α → Option (Store α)
  | .call c r =>
    if (st.handle c).1 = r then some (st.handle c).2
    else if r.refused ∨ (c = .getCached ∧ st.Cached r) then some st
    else none
  | _ => some st

namespace Store

variable {st st' : Store α} {e : Event α}

theorem answer_call {c : Call α} {r : Reply α} (h : st.answer (.call c r) = some st') :
    ((st.handle c).1 = r ∧ st' = (st.handle c).2) ∨
      (st' = st ∧ (r.refused = true ∨ c = .getCached ∧ st.Cached r)) := by
  simp only [answer] at h
  split at h
  · cases h; exact .inl ⟨‹_›, rfl⟩
  · split at h
    · cases h; exact .inr ⟨rfl, ‹_›⟩
    · cases h

theorem answer_fresh {s : Object α} (h : st.answer e = some st') (hs : st.Fresh s) :
    st'.Fresh s := by
  cases e with
  | call c r =>
    rcases answer_call h with ⟨-, rfl⟩ | ⟨rfl, -⟩
    · exact handle_fresh c hs
    · exact hs
  | _ => cases h; exact hs

end Store

structure System (α C : Type) (n : Nat) where
  store : Store α
  clients : Fin n → C

namespace System

variable {n : Nat}

/-- Client `i` takes event `e`, and the store answers it if it is a request. -/
def step (client : Fin n → C → Event α → Option C) (S : System α C n) :
    Fin n × Event α → Option (System α C n)
  | (i, e) => (S.store.answer e).bind fun st =>
    (client i (S.clients i) e).map fun c => ⟨st, Function.update S.clients i c⟩

variable {client : Fin n → C → Event α → Option C} {S S' : System α C n} {i : Fin n}
  {e : Event α}

theorem step_eq_some (h : step client S (i, e) = some S') :
    S.store.answer e = some S'.store ∧ ∃ c, client i (S.clients i) e = some c ∧
      S'.clients = Function.update S.clients i c := by
  simp only [step, Option.bind_eq_some, Option.map_eq_some'] at h
  obtain ⟨st, hst, c, hc, rfl⟩ := h
  exact ⟨hst, c, hc, rfl⟩

theorem step_clients (h : step client S (i, e) = some S') (j : Fin n) :
    (j = i ∧ client j (S.clients j) e = some (S'.clients j)) ∨
      (j ≠ i ∧ S'.clients j = S.clients j) := by
  obtain ⟨-, c, hc, hcl⟩ := step_eq_some h
  by_cases hj : j = i
  · subst hj; exact .inl ⟨rfl, by simpa [hcl] using hc⟩
  · exact .inr ⟨hj, by simp [hcl, hj]⟩

def proj (i : Fin n) (tr : List (Fin n × Event α)) : List (Event α) :=
  tr.filterMap fun x => if x.1 = i then some x.2 else none

omit [DecidableEq α] in
theorem mem_proj {tr : List (Fin n × Event α)} (h : (i, e) ∈ tr) : e ∈ proj i tr :=
  List.mem_filterMap.2 ⟨(i, e), h, by simp⟩

theorem run_proj {S₀ : System α C n} {tr : List (Fin n × Event α)}
    (h : run (step client) S₀ tr = some S) (j : Fin n) :
    run (client j) (S₀.clients j) (proj j tr) = some (S.clients j) := by
  refine run_induction
    (fun tr (S : System α C n) => run (client j) (S₀.clients j) (proj j tr) = some (S.clients j))
    rfl (fun tr T ⟨i, e⟩ T' _ ih hT => ?_) h
  beta_reduce at ih ⊢
  have hp : proj j (tr ++ [(i, e)]) = proj j tr ++ if i = j then [e] else [] := by
    by_cases hij : i = j <;> simp [proj, hij]
  rw [hp, run_append, ih]
  rcases step_clients hT j with ⟨rfl, hc⟩ | ⟨hij, hc⟩
  · simpa [run] using hc
  · simp [Ne.symm hij, hc]

theorem update_one (f : Fin 1 → C) (c : C) : Function.update f 0 c = fun _ => c := by
  funext i
  rw [Subsingleton.elim i 0, Function.update_same]

omit [DecidableEq α] in
theorem proj_one (tr : List (Fin 1 × Event α)) : proj 0 tr = tr.map Prod.snd := by
  induction tr with
  | nil => rfl
  | cons x tr ih => simp [proj, Subsingleton.elim x.1 0] at ih ⊢; exact ih

end System

section Alone

variable {β : Type}

def Prog.traceOn : Prog α β → Store α → List (Event α)
  | .pure _, _ => []
  | .call c k, st => .call c (st.handle c).1 :: (k (st.handle c).1).traceOn (st.handle c).2

theorem Prog.run_traceOn (p : Prog α β) (st : Store α) :
    run (System.step fun _ : Fin 1 => Prog.step) ⟨st, fun _ => p⟩ ((p.traceOn st).map (0, ·)) =
        some ⟨(p.runOn st).2, fun _ => .pure (p.runOn st).1⟩ ∧
      run Store.answerLive st (p.traceOn st) = some (p.runOn st).2 := by
  induction p generalizing st with
  | pure b => exact ⟨rfl, rfl⟩
  | call c k ih =>
    obtain ⟨h1, h2⟩ := ih (st.handle c).1 (st.handle c).2
    exact ⟨by simpa [traceOn, runOn, run, System.step, Store.answer, System.update_one] using h1,
      by simpa [traceOn, runOn, run, Store.answerLive] using h2⟩

theorem Prog.runOn_of_live {p : Prog α β} {st : Store α} {tr : List (Fin 1 × Event α)}
    {S : System α (Prog α β) 1}
    (h : run (System.step fun _ => Prog.step) ⟨st, fun _ => p⟩ tr = some S)
    (hlive : run Store.answerLive st (tr.map Prod.snd) = some S.store) {x : β}
    (hx : S.clients 0 = .pure x) : p.runOn st = (x, S.store) := by
  induction tr generalizing p st with
  | nil => cases h; cases hlive; cases hx; rfl
  | cons y tr ih =>
    obtain ⟨j, e⟩ := y
    obtain rfl : j = 0 := Subsingleton.elim j 0
    obtain ⟨⟨Tst, Tcl⟩, hT, hrest⟩ := run_cons_eq_some h
    obtain ⟨m, hm, hlrest⟩ := run_cons_eq_some hlive
    obtain ⟨hst, q, hq, hcl⟩ := System.step_eq_some hT
    obtain ⟨c, k, r, rfl, rfl, rfl⟩ := Prog.step_eq_some hq
    simp only [Store.answerLive, Option.ite_none_right_eq_some, Option.some.injEq] at hm
    obtain ⟨rfl, rfl⟩ := hm
    simp only [Store.answer, ↓reduceIte, Option.some.injEq] at hst
    dsimp only at hst hcl
    rw [System.update_one] at hcl
    subst hcl hst
    have := ih hrest hlrest
    exact this

end Alone

end ResourceManager
