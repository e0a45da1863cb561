import ResourceManager.GoInt
import ResourceManager.Prog

/-!
`exponentialBackoff` as a machine. Its states are the points of the loop where it waits for
the outside: a request of its condition, the `select` on `ctx.Done()`, the sleep. How long
it sleeps (`Duration`, `Factor`, `Jitter`) is real time and is not modelled.
-/

set_option autoImplicit false
set_option warningAsError true

namespace ResourceManager

structure Backoff where
  steps : GoInt

/-- Where an `exponentialBackoff` call stands; `s` is the state its condition closes over. -/
inductive Loop (α σ : Type) where
  | head (i : GoInt) (s : σ)
  | condition (i : GoInt) (p : Prog α (σ × Bool × Option Error))
  | select (i : GoInt) (s : σ)
  | sleep (i : GoInt) (s : σ)
  | done (err : Option Error) (s : σ)

namespace Loop

variable {α σ : Type}

def start (s : σ) : Loop α σ := .head GoInt.zero s

def result : Loop α σ → Option (Option Error)
  | .done err _ => some err
  | _ => none

end Loop

variable {α σ : Type} [DecidableEq α]

/-- One step of `exponentialBackoff(ctx, backoff, condition)`. A round increments the counter
twice: by the `i++` that ends the loop body and by the `for` statement's own `i++`. -/
def exponentialBackoff (backoff : Backoff) (condition : σ → Prog α (σ × Bool × Option Error)) :
    Loop α σ → Event α → Option (Loop α σ)
  | .head i s, .attempt => if i < backoff.steps then some (.condition i (condition s)) else none
  | .head i s, .exit => if i < backoff.steps then none else some (.done (some .waitTimeout) s)
  | .condition i (.call c k), .call c' r => if c' = c then some (.condition i (k r)) else none
  | .condition i (.pure (s, ok, err)), .returned ok' err' =>
    if ok' = ok ∧ err' = err then
      some (if err.isSome || ok then .done err s else .select i s)
    else none
  | .select _ s, .ctxDone true => some (.done (some .ctxErr) s)
  | .select i s, .ctxDone false => some (.sleep i s)
  | .sleep i s, .sleep => some (.head i.inc.inc s)
  | _, _ => none

section Steps

variable {backoff : Backoff} {condition : σ → Prog α (σ × Bool × Option Error)}
  {l l' : Loop α σ} {e : Event α}

theorem exponentialBackoff_eq_some (h : exponentialBackoff backoff condition l e = some l') :
    (∃ i s, l = .head i s ∧ i < backoff.steps ∧ e = .attempt ∧ l' = .condition i (condition s)) ∨
    (∃ i s, l = .head i s ∧ ¬ i < backoff.steps ∧ e = .exit ∧ l' = .done (some .waitTimeout) s) ∨
    (∃ i c k r, l = .condition i (.call c k) ∧ e = .call c r ∧ l' = .condition i (k r)) ∨
    (∃ i s ok err, l = .condition i (.pure (s, ok, err)) ∧ e = .returned ok err ∧
      l' = if err.isSome || ok then .done err s else .select i s) ∨
    (∃ i s, l = .select i s ∧ e = .ctxDone true ∧ l' = .done (some .ctxErr) s) ∨
    (∃ i s, l = .select i s ∧ e = .ctxDone false ∧ l' = .sleep i s) ∨
    (∃ i s, l = .sleep i s ∧ e = .sleep ∧ l' = .head i.inc.inc s) := by
  unfold exponentialBackoff at h
  split at h
  · split at h
    · cases h; exact .inl ⟨_, _, rfl, ‹_›, rfl, rfl⟩
    · cases h
  · split at h
    · cases h
    · cases h; exact .inr (.inl ⟨_, _, rfl, ‹_›, rfl, rfl⟩)
  · split at h
    · cases h; subst_vars; exact .inr (.inr (.inl ⟨_, _, _, _, rfl, rfl, rfl⟩))
    · cases h
  · split at h
    · obtain ⟨rfl, rfl⟩ := ‹_ ∧ _›
      cases h; exact .inr (.inr (.inr (.inl ⟨_, _, _, _, rfl, rfl, rfl⟩)))
    · cases h
  · cases h; exact .inr (.inr (.inr (.inr (.inl ⟨_, _, rfl, rfl, rfl⟩))))
  · cases h; exact .inr (.inr (.inr (.inr (.inr (.inl ⟨_, _, rfl, rfl, rfl⟩)))))
  · cases h; exact .inr (.inr (.inr (.inr (.inr (.inr ⟨_, _, rfl, rfl, rfl⟩)))))
  · cases h

@[simp] theorem exponentialBackoff_done (err : Option Error) (s : σ) :
    exponentialBackoff backoff condition (.done err s) e = none := by
  cases e <;> rfl

theorem run_done {err : Option Error} {s : σ} {tr : List (Event α)}
    (h : run (exponentialBackoff backoff condition) (.done err s) tr = some l) :
    tr = [] ∧ l = .done err s := by
  cases tr with
  | nil => cases h; exact ⟨rfl, rfl⟩
  | cons e tr => simp [run] at h

end Steps

def retryRound : List (Event α) := [.attempt, .returned false none, .ctxDone false, .sleep]

def retryAtOnce (s : Unit) : Prog Unit (Unit × Bool × Option Error) := .pure (s, false, none)

section Count

variable {backoff : Backoff} {condition : σ → Prog α (σ × Bool × Option Error)}
  {l l' : Loop α σ} {e : Event α} {tr : List (Event α)}

def CountInv (n : GoInt) (a : Nat) : Loop α σ → Prop
  | .head i _ => i.val = 2 * (a : Int) ∧ (a = 0 ∨ 2 * (a : Int) ≤ n.val + 1)
  | .condition i _ | .select i _ | .sleep i _ => i.val + 2 = 2 * (a : Int) ∧ i.val < n.val
  | .done _ _ => a = 0 ∨ 2 * (a : Int) ≤ n.val + 1

theorem countInv_step (hn : backoff.steps.val < 2^63 - 1)
    (hl : CountInv backoff.steps (tr.count .attempt) l)
    (h : exponentialBackoff backoff condition l e = some l') :
    CountInv backoff.steps ((tr ++ [e]).count .attempt) l' := by
  rcases exponentialBackoff_eq_some h with
    ⟨i, s, rfl, hi, rfl, rfl⟩ | ⟨i, s, rfl, -, rfl, rfl⟩ | ⟨i, c, k, r, rfl, rfl, rfl⟩ |
    ⟨i, s, ok, err, rfl, rfl, rfl⟩ | ⟨i, s, rfl, rfl, rfl⟩ | ⟨i, s, rfl, rfl, rfl⟩ |
    ⟨i, s, rfl, rfl, rfl⟩
  · rw [GoInt.lt_iff] at hi
    simp only [CountInv] at hl ⊢
    simp [List.count_append]; omega
  · simpa [CountInv, List.count_append] using hl.2
  · simpa [CountInv, List.count_append] using hl
  · simp only [CountInv] at hl
    split <;> simp [CountInv, List.count_append] <;> omega
  · simp only [CountInv] at hl ⊢
    simp [List.count_append]; omega
  · simpa [CountInv, List.count_append] using hl
  · simp only [CountInv] at hl ⊢
    have h1 := GoInt.inc_val (show i.val < 2^63 - 1 by omega)
    have h2 := GoInt.inc_val (show i.inc.val < 2^63 - 1 by omega)
    simp [List.count_append]; omega

theorem countInv_run (hn : backoff.steps.val < 2^63 - 1) {s : σ}
    (h : run (exponentialBackoff backoff condition) (Loop.start s) tr = some l) :
    CountInv backoff.steps (tr.count .attempt) l :=
  run_induction
    (fun (tr : List (Event α)) (l : Loop α σ) => CountInv backoff.steps (tr.count Event.attempt) l)
    (by simp [Loop.start, CountInv, GoInt.zero]) (fun _ _ _ _ _ hl h => countInv_step hn hl h) h

/-- Below `math.MaxInt`, a call makes at most `⌈n/2⌉` attempts, whatever its condition and
its context do. -/
theorem attempts_le (hn : backoff.steps.val < 2^63 - 1) {s : σ}
    (h : run (exponentialBackoff backoff condition) (Loop.start s) tr = some l) :
    tr.count .attempt ≤ (backoff.steps.val.toNat + 1) / 2 := by
  have hc := countInv_run hn h
  cases l <;> simp only [CountInv] at hc <;> omega

theorem attempts_le_two_steps :
    run (exponentialBackoff ⟨⟨2, by decide, by decide⟩⟩ retryAtOnce) (Loop.start ())
        (retryRound ++ [.exit]) = some (.done (some .waitTimeout) ()) ∧
      (retryRound ++ [.exit] : List (Event Unit)).count .attempt ≤ (2 + 1) / 2 :=
  have h : run (exponentialBackoff ⟨⟨2, by decide, by decide⟩⟩ retryAtOnce) (Loop.start ())
      (retryRound ++ [.exit]) = some (.done (some .waitTimeout) ()) := rfl
  ⟨h, attempts_le (by decide) h⟩

/-- The condition kept returning `(false, nil)` and the context was never done. -/
def KeepsRetrying (tr : List (Event α)) : Prop :=
  ∀ e ∈ tr, e ≠ .ctxDone true ∧ ∀ ok err, e = .returned ok err → ok = false ∧ err = none

theorem run_retryRound {backoff : Backoff} {i : GoInt} {s : σ} (hi : i < backoff.steps) :
    run (exponentialBackoff backoff fun s => (.pure (s, false, none) :
      Prog α (σ × Bool × Option Error))) (.head i s) retryRound = some (.head i.inc.inc s) := by
  simp only [retryRound, run, exponentialBackoff, if_pos hi, Option.some_bind]
  rfl

omit [DecidableEq α] in
theorem keepsRetrying_retryRound {tr : List (Event α)} (h : KeepsRetrying tr) :
    KeepsRetrying (retryRound ++ tr) := by
  intro e he
  rcases List.mem_append.1 he with he | he
  · simp only [retryRound, List.mem_cons, List.mem_singleton, List.not_mem_nil, or_false] at he
    rcases he with rfl | rfl | rfl | rfl <;> simp
  · exact h e he

theorem run_rounds (hn : backoff.steps.val < 2^63 - 1) (s : σ) (k : Nat) (i : GoInt)
    (hk : (backoff.steps.val - i.val).toNat ≤ k) :
    ∃ tr, run (exponentialBackoff backoff fun s => (.pure (s, false, none) :
        Prog α (σ × Bool × Option Error))) (.head i s) tr = some (.done (some .waitTimeout) s) ∧
      KeepsRetrying tr ∧ tr.count .attempt = ((backoff.steps.val - i.val).toNat + 1) / 2 := by
  have hexit : ∀ i : GoInt, ¬ i < backoff.steps → ∃ tr, run (exponentialBackoff backoff
      fun s => (.pure (s, false, none) : Prog α (σ × Bool × Option Error))) (.head i s) tr =
        some (.done (some .waitTimeout) s) ∧
      KeepsRetrying tr ∧ tr.count .attempt = ((backoff.steps.val - i.val).toNat + 1) / 2 :=
    fun i hi => ⟨[.exit], by simp [run, exponentialBackoff, hi], by simp [KeepsRetrying], by
      rw [GoInt.lt_iff] at hi; simp; omega⟩
  induction k generalizing i with
  | zero => exact hexit i (by rw [GoInt.lt_iff]; omega)
  | succ k ih =>
    by_cases hi : i < backoff.steps
    · rw [GoInt.lt_iff] at hi
      have h1 := GoInt.inc_val (show i.val < 2^63 - 1 by omega)
      have h2 := GoInt.inc_val (show i.inc.val < 2^63 - 1 by omega)
      obtain ⟨tr, hrun, hkeep, hcount⟩ := ih i.inc.inc (by omega)
      refine ⟨retryRound ++ tr, ?_, keepsRetrying_retryRound hkeep, ?_⟩
      · rw [run_append, run_retryRound ((GoInt.lt_iff _ _).2 hi)]
        exact hrun
      · simp only [List.count_append, hcount, retryRound]
        simp; omega
    · exact hexit i hi

/-- When every attempt asks for a retry and the context stays open, the call ends only by
exhausting the counter, after `⌈n/2⌉` attempts, whatever the condition; and with a condition
that asks for a retry at once, the call does end so. -/
theorem attempts_of_keepsRetrying (hn : backoff.steps.val < 2^63 - 1) (s : σ) :
    (∃ tr, run (exponentialBackoff backoff fun s => (.pure (s, false, none) :
        Prog α (σ × Bool × Option Error))) (Loop.start s) tr = some (.done (some .waitTimeout) s) ∧
      KeepsRetrying tr ∧ tr.count .attempt = (backoff.steps.val.toNat + 1) / 2) ∧
    ∀ {condition : σ → Prog α (σ × Bool × Option Error)} {tr : List (Event α)} {s' : σ}
      {err : Option Error},
      run (exponentialBackoff backoff condition) (Loop.start s) tr = some (.done err s') →
      KeepsRetrying tr →
      err = some .waitTimeout ∧ tr.count .attempt = (backoff.steps.val.toNat + 1) / 2 := by
  refine ⟨by simpa [GoInt.zero] using run_rounds hn s _ GoInt.zero le_rfl,
    fun {_ tr _ _} h hk => ?_⟩
  -- the call ends at its last event
  obtain ⟨tr, e, rfl⟩ : ∃ tr' e, tr = tr' ++ [e] := by
    rcases List.eq_nil_or_concat tr with rfl | ⟨tr', e, rfl⟩
    · cases h
    · exact ⟨tr', e, List.concat_eq_append _ _⟩
  obtain ⟨m, hm, hs⟩ := run_append_eq_some h
  have hc := countInv_run hn hm
  have hdone := countInv_run hn h
  have he := hk e (by simp)
  rcases exponentialBackoff_eq_some (show _ = some (Loop.done _ _) by simpa [run] using hs) with
    ⟨_, _, -, -, -, h1⟩ | ⟨i, s, rfl, hi, rfl, h1⟩ | ⟨_, _, _, _, -, -, h1⟩ |
    ⟨i, s, ok, err, rfl, rfl, h1⟩ | ⟨_, _, -, rfl, -⟩ | ⟨_, _, -, -, h1⟩ | ⟨_, _, -, -, h1⟩
  · cases h1
  · cases h1
    refine ⟨rfl, ?_⟩
    simp only [CountInv, GoInt.lt_iff] at hc hi hdone
    simp only [List.count_append, List.count_singleton_self] at hdone ⊢
    omega
  · cases h1
  · obtain ⟨rfl, rfl⟩ := he.2 ok err rfl
    cases h1
  · exact absurd rfl he.1
  · cases h1
  · cases h1

theorem attempts_of_keepsRetrying_three_steps :
    (⟨⟨3, by decide, by decide⟩⟩ : Backoff).steps.val < 2^63 - 1 ∧
      run (exponentialBackoff ⟨⟨3, by decide, by decide⟩⟩ retryAtOnce) (Loop.start ())
        (retryRound ++ retryRound ++ [.exit]) = some (.done (some .waitTimeout) ()) ∧
      (retryRound ++ retryRound ++ [.exit] : List (Event Unit)).count .attempt = (3 + 1) / 2 ∧
      ∃ tr, run (exponentialBackoff ⟨⟨3, by decide, by decide⟩⟩ retryAtOnce) (Loop.start ()) tr =
          some (.done (some .waitTimeout) ()) ∧
        KeepsRetrying tr ∧ tr.count .attempt = (3 + 1) / 2 :=
  have hn : (⟨⟨3, by decide, by decide⟩⟩ : Backoff).steps.val < 2^63 - 1 := by decide
  have h : run (exponentialBackoff ⟨⟨3, by decide, by decide⟩⟩ retryAtOnce) (Loop.start ())
      (retryRound ++ retryRound ++ [.exit]) = some (.done (some .waitTimeout) ()) := rfl
  ⟨hn, h, ((attempts_of_keepsRetrying hn ()).2 h (by simp [KeepsRetrying, retryRound])).2,
    (attempts_of_keepsRetrying hn ()).1⟩

end Count

section MaxInt

variable {condition : σ → Prog α (σ × Bool × Option Error)} {l : Loop α σ} {tr : List (Event α)}

def EvenInv : Loop α σ → Prop
  | .head i _ | .condition i _ | .select i _ | .sleep i _ => i.val % 2 = 0
  | .done _ _ => True

theorem inc_inc_even {i : GoInt} (h : i.val % 2 = 0) : i.inc.inc.val % 2 = 0 := by
  simp only [GoInt.inc, GoInt.ofInt]; omega

theorem maxInt_step {l' : Loop α σ} {e : Event α} (hev : EvenInv l)
    (h : exponentialBackoff ⟨GoInt.maxInt⟩ condition l e = some l') : EvenInv l' ∧ e ≠ .exit := by
  rcases exponentialBackoff_eq_some h with
    ⟨i, s, rfl, -, rfl, rfl⟩ | ⟨i, s, rfl, hi, rfl, rfl⟩ | ⟨i, c, k, r, rfl, rfl, rfl⟩ |
    ⟨i, s, ok, err, rfl, rfl, rfl⟩ | ⟨i, s, rfl, rfl, rfl⟩ | ⟨i, s, rfl, rfl, rfl⟩ |
    ⟨i, s, rfl, rfl, rfl⟩
  · exact ⟨hev, nofun⟩
  · simp only [EvenInv, GoInt.lt_iff, GoInt.maxInt] at hev hi
    have := i.lt_max
    omega
  · exact ⟨hev, nofun⟩
  · refine ⟨?_, nofun⟩
    split <;> simp only [EvenInv] at hev ⊢
    exact hev
  · exact ⟨trivial, nofun⟩
  · exact ⟨hev, nofun⟩
  · exact ⟨inc_inc_even hev, nofun⟩

/-- With `Steps = math.MaxInt` the even counter never reaches the odd budget: the loop never
leaves through its `for` condition, and wraps to `math.MinInt` instead. -/
theorem maxInt_never_exits {s : σ}
    (h : run (exponentialBackoff ⟨GoInt.maxInt⟩ condition) (Loop.start s) tr = some l) :
    .exit ∉ tr := by
  have key := run_induction (fun (tr : List (Event α)) (l : Loop α σ) => EvenInv l ∧ .exit ∉ tr)
    (by simp [Loop.start, EvenInv, GoInt.zero])
    (fun _ _ _ _ _ ⟨hev, hx⟩ hs =>
      have ⟨hev', he⟩ := maxInt_step hev hs
      ⟨hev', by simp [hx, Ne.symm he]⟩) h
  exact key.2

theorem maxInt_never_exits_two_rounds :
    run (exponentialBackoff ⟨GoInt.maxInt⟩ retryAtOnce) (Loop.start ())
        (retryRound ++ retryRound) = some (.head GoInt.zero.inc.inc.inc.inc ()) ∧
      (.exit : Event Unit) ∉ retryRound ++ retryRound :=
  have h : run (exponentialBackoff ⟨GoInt.maxInt⟩ retryAtOnce) (Loop.start ())
      (retryRound ++ retryRound) = some (.head GoInt.zero.inc.inc.inc.inc ()) := rfl
  ⟨h, maxInt_never_exits h⟩

/-- ... and with `Steps = math.MaxInt` such rounds go on for ever: there is a run with any
number of attempts, still at the loop head. -/
theorem maxInt_attempts_unbounded (s : σ) (k : Nat) :
    ∃ tr i, run (exponentialBackoff ⟨GoInt.maxInt⟩ fun s => (.pure (s, false, none) :
        Prog α (σ × Bool × Option Error))) (Loop.start s) tr = some (.head i s) ∧
      tr.count .attempt = k := by
  suffices ∃ tr i, run (exponentialBackoff ⟨GoInt.maxInt⟩ fun s => (.pure (s, false, none) :
        Prog α (σ × Bool × Option Error))) (Loop.start s) tr = some (.head i s) ∧
      tr.count .attempt = k ∧ i.val % 2 = 0 by
    obtain ⟨tr, i, h, hk, -⟩ := this
    exact ⟨tr, i, h, hk⟩
  induction k with
  | zero => exact ⟨[], GoInt.zero, rfl, rfl, rfl⟩
  | succ k ih =>
    obtain ⟨tr, i, h, hk, hev⟩ := ih
    have hi : i < GoInt.maxInt := by
      rw [GoInt.lt_iff]; have := i.lt_max; simp only [GoInt.maxInt]; omega
    refine ⟨tr ++ retryRound, i.inc.inc, ?_, by simp [hk, retryRound, List.count_append],
      inc_inc_even hev⟩
    rw [run_append, h]
    exact run_retryRound hi

end MaxInt

/-- With `Steps = 2` the loop calls its condition once and then returns `wait.ErrWaitTimeout`:
a second attempt is refused. -/
theorem steps_two_attempts_once :
    (run (exponentialBackoff ⟨⟨2, by decide, by decide⟩⟩ retryAtOnce) (Loop.start ())
        (retryRound ++ [.exit])).bind Loop.result = some (some .waitTimeout) ∧
    (run (exponentialBackoff ⟨⟨2, by decide, by decide⟩⟩ retryAtOnce) (Loop.start ())
        (retryRound ++ [.attempt])).isNone := by
  decide

inductive CtxEvent (α : Type) where
  | cancel
  | loop (e : Event α)
  deriving DecidableEq

/-- A loop under its context: `cancel` closes `ctx.Done()` for good, and the `select` sees
whether it is closed. -/
def underContext (step : Loop α σ → Event α → Option (Loop α σ)) :
    Loop α σ × Bool → CtxEvent α → Option (Loop α σ × Bool)
  | (l, _), .cancel => some (l, true)
  | (l, done), .loop e =>
    match e with
    | .ctxDone b => if b = done then (step l e).map (·, done) else none
    | _ => (step l e).map (·, done)

section Context

variable {backoff : Backoff} {condition : σ → Prog α (σ × Bool × Option Error)}

omit [DecidableEq α] in
theorem underContext_eq_some {step : Loop α σ → Event α → Option (Loop α σ)}
    {x x' : Loop α σ × Bool} {e : CtxEvent α} (h : underContext step x e = some x') :
    (e = .cancel ∧ x' = (x.1, true)) ∨
    (∃ ev l', e = .loop ev ∧ step x.1 ev = some l' ∧ x' = (l', x.2) ∧ ev ≠ .ctxDone (!x.2)) := by
  obtain ⟨l, d⟩ := x
  cases e with
  | cancel => simp only [underContext, Option.some.injEq] at h; exact .inl ⟨rfl, h.symm⟩
  | loop ev =>
    refine .inr ?_
    cases ev <;> simp only [underContext, Option.map_eq_some'] at h
    case ctxDone b =>
      split at h
      · obtain ⟨l', hl', rfl⟩ := Option.map_eq_some'.mp h
        subst_vars
        exact ⟨_, l', rfl, hl', rfl, by cases b <;> simp⟩
      · cases h
    all_goals obtain ⟨l', hl', rfl⟩ := h; exact ⟨_, l', rfl, hl', rfl, by simp⟩

def Loop.budget : Loop α σ → Nat
  | .head _ _ | .sleep _ _ => 1
  | _ => 0

theorem budget_step {l l' : Loop α σ} {e : Event α}
    (h : exponentialBackoff backoff condition l e = some l') (he : e ≠ .ctxDone false) :
    (if e = .attempt then 1 else 0) + l'.budget ≤ l.budget := by
  rcases exponentialBackoff_eq_some h with
    ⟨i, s, rfl, -, rfl, rfl⟩ | ⟨i, s, rfl, -, rfl, rfl⟩ | ⟨i, c, k, r, rfl, rfl, rfl⟩ |
    ⟨i, s, ok, err, rfl, rfl, rfl⟩ | ⟨i, s, rfl, rfl, rfl⟩ | ⟨i, s, rfl, rfl, rfl⟩ |
    ⟨i, s, rfl, rfl, rfl⟩
  · simp [Loop.budget]
  · simp [Loop.budget]
  · simp [Loop.budget]
  · by_cases hc : (err.isSome || ok) = true <;> simp [hc, Loop.budget]
  · simp [Loop.budget]
  · exact absurd rfl he
  · simp [Loop.budget]

theorem attempts_after_cancel {l : Loop α σ} {tr : List (CtxEvent α)} {x : Loop α σ × Bool}
    (h : run (underContext (exponentialBackoff backoff condition)) (l, true) tr = some x) :
    tr.count (.loop .attempt) ≤ 1 := by
  have key := run_induction
    (fun tr x => x.2 = true ∧ tr.count (.loop .attempt) + x.1.budget ≤ l.budget) (by simp)
    (fun tr x e x' _ ih hs => by
      obtain ⟨hd, hc⟩ := ih
      rcases underContext_eq_some hs with ⟨rfl, rfl⟩ | ⟨ev, l', rfl, hl', rfl, hne⟩
      · exact ⟨rfl, by simpa [List.count_append] using hc⟩
      · rw [hd] at hne
        have hb := budget_step hl' hne
        refine ⟨hd, ?_⟩
        simp only [List.count_append, List.count_singleton, beq_iff_eq, CtxEvent.loop.injEq]
        split <;> split at hb <;> simp_all <;> omega) h
  have hl : l.budget ≤ 1 := by cases l <;> simp [Loop.budget]
  omega

theorem cancelled_step {i : GoInt} {s : σ} {x x' : Loop α σ × Bool} {e : CtxEvent α}
    (hx : x = (.select i s, true) ∨ x = (.done (some .ctxErr) s, true))
    (h : underContext (exponentialBackoff backoff condition) x e = some x') :
    (e = .cancel ∨ e = .loop (.ctxDone true)) ∧
      (x' = (.select i s, true) ∨ x' = (.done (some .ctxErr) s, true)) := by
  rcases underContext_eq_some h with ⟨rfl, rfl⟩ | ⟨ev, l', rfl, hl', rfl, hne⟩
  · rcases hx with rfl | rfl <;> simp
  · rcases hx with rfl | rfl <;> cases ev <;> simp_all [exponentialBackoff]

theorem cancelled_at_select {i : GoInt} {s : σ} {tr : List (CtxEvent α)} {x : Loop α σ × Bool}
    (h : run (underContext (exponentialBackoff backoff condition)) (.select i s, true) tr =
      some x) :
    (∀ e ∈ tr, e = .cancel ∨ e = .loop (.ctxDone true)) ∧
      (x = (.select i s, true) ∨ x = (.done (some .ctxErr) s, true)) :=
  run_induction (fun tr x => (∀ e ∈ tr, e = .cancel ∨ e = .loop (.ctxDone true)) ∧
      (x = (.select i s, true) ∨ x = (.done (some .ctxErr) s, true)))
    ⟨by simp, .inl rfl⟩
    (fun tr x e x' _ ih hs => by
      obtain ⟨he, hx'⟩ := cancelled_step ih.2 hs
      refine ⟨fun e' h' => ?_, hx'⟩
      rcases List.mem_append.mp h' with h' | h'
      · exact ih.1 e' h'
      · rw [List.mem_singleton.mp h']; exact he) h

def SleepInv (backoff : Backoff) (i : GoInt) (s : σ) (a : Nat) (x : Loop α σ × Bool) : Prop :=
  x.2 = true ∧ a + x.1.budget ≤ 1 ∧ (¬ i.inc.inc < backoff.steps → a = 0) ∧
    (a = 0 → x.1 = .sleep i s ∨ x.1 = .head i.inc.inc s ∨
      ¬ i.inc.inc < backoff.steps ∧ x.1 = .done (some .waitTimeout) s)

theorem sleepInv_step {i : GoInt} {s : σ} {tr : List (CtxEvent α)} {x x' : Loop α σ × Bool}
    {e : CtxEvent α} (hI : SleepInv backoff i s (tr.count (.loop .attempt)) x)
    (h : underContext (exponentialBackoff backoff condition) x e = some x') :
    SleepInv backoff i s ((tr ++ [e]).count (.loop .attempt)) x' := by
  rw [List.count_append, List.count_singleton]
  generalize tr.count (.loop .attempt) = a at hI
  obtain ⟨hd, hb, hlt, h0⟩ := hI
  rcases underContext_eq_some h with ⟨rfl, rfl⟩ | ⟨ev, l', rfl, hl', rfl, hne⟩
  · exact ⟨rfl, by simpa using hb, by simpa using hlt, by simpa using h0⟩
  rw [hd] at hne
  have hbs := budget_step hl' hne
  by_cases hev : ev = .attempt
  · -- the one attempt, from the head with a step left
    subst hev
    rcases exponentialBackoff_eq_some hl' with ⟨j, s', hx, hj, -, rfl⟩ | ⟨_, _, -, -, ⟨⟩, -⟩ |
      ⟨_, _, _, _, -, ⟨⟩, -⟩ | ⟨_, _, _, _, -, ⟨⟩, -⟩ | ⟨_, _, -, ⟨⟩, -⟩ | ⟨_, _, -, ⟨⟩, -⟩ |
      ⟨_, _, -, ⟨⟩, -⟩
    rw [hx] at hb h0
    simp only [Loop.budget] at hb
    obtain rfl : a = 0 := by omega
    rcases h0 rfl with h' | h' | ⟨-, h'⟩ <;> cases h'
    exact ⟨hd, by simp [Loop.budget], fun hn => absurd hj hn, by simp⟩
  · simp only [beq_iff_eq, CtxEvent.loop.injEq, hev, ↓reduceIte, Nat.add_zero] at hbs ⊢
    refine ⟨hd, by dsimp only; omega, hlt, fun ha => ?_⟩
    rcases h0 ha with hx | hx | ⟨hn, hx⟩ <;> rw [hx] at hl'
    · -- the sleep ends: back at the loop head
      rcases exponentialBackoff_eq_some hl' with ⟨_, _, ⟨⟩, -⟩ | ⟨_, _, ⟨⟩, -⟩ |
        ⟨_, _, _, _, ⟨⟩, -⟩ | ⟨_, _, _, _, ⟨⟩, -⟩ | ⟨_, _, ⟨⟩, -⟩ | ⟨_, _, ⟨⟩, -⟩ |
        ⟨_, _, ⟨⟩, -, rfl⟩
      exact .inr (.inl rfl)
    · -- the `for` condition: no step left, the loop returns `wait.ErrWaitTimeout`
      rcases exponentialBackoff_eq_some hl' with ⟨_, _, -, -, rfl, -⟩ | ⟨_, _, ⟨⟩, hi, -, rfl⟩ |
        ⟨_, _, _, _, ⟨⟩, -⟩ | ⟨_, _, _, _, ⟨⟩, -⟩ | ⟨_, _, ⟨⟩, -⟩ | ⟨_, _, ⟨⟩, -⟩ | ⟨_, _, ⟨⟩, -⟩
      · exact absurd rfl hev
      · exact .inr (.inr ⟨hi, rfl⟩)
    · simp at hl'

theorem cancelled_at_sleep {i : GoInt} {s : σ} {tr : List (CtxEvent α)} {x : Loop α σ × Bool}
    (h : run (underContext (exponentialBackoff backoff condition)) (.sleep i s, true) tr =
      some x) :
    (¬ i.inc.inc < backoff.steps → tr.count (.loop .attempt) = 0 ∧
      (∀ err s', x.1 = .done err s' → err = some .waitTimeout) ∧
      run (underContext (exponentialBackoff backoff condition)) (.sleep i s, true)
        [.loop .sleep, .loop .exit] = some (.done (some .waitTimeout) s, true)) ∧
    (i.inc.inc < backoff.steps → (∀ err s', x.1 = .done err s' → tr.count (.loop .attempt) = 1) ∧
      run (underContext (exponentialBackoff backoff condition)) (.sleep i s, true)
        [.loop .sleep, .loop .attempt] = some (.condition i.inc.inc (condition s), true)) := by
  have hI := run_induction (fun (tr : List (CtxEvent α)) (x : Loop α σ × Bool) =>
      SleepInv backoff i s (tr.count (CtxEvent.loop Event.attempt)) x) ?_
    (fun _ _ _ _ _ hI hs => sleepInv_step hI hs) h
  swap
  · exact ⟨rfl, by simp [Loop.budget], fun _ => rfl, fun _ => .inl rfl⟩
  obtain ⟨-, hb, hlt, h0⟩ := hI
  refine ⟨fun hn => ⟨hlt hn, fun err s' hx => ?_, ?_⟩, fun hi => ⟨fun err s' hx => ?_, ?_⟩⟩
  · rcases h0 (hlt hn) with h' | h' | ⟨-, h'⟩ <;> rw [hx] at h' <;> cases h'
    rfl
  · simp [run, underContext, exponentialBackoff, hn]
  · by_contra ha
    rcases h0 (by rw [hx] at hb; simp only [Loop.budget] at hb; omega) with h' | h' | ⟨hn, -⟩
    · rw [hx] at h'; cases h'
    · rw [hx] at h'; cases h'
    · exact hn hi
  · simp [run, underContext, exponentialBackoff, hi]

/-- After the context is done, a call starts at most one more attempt. It starts none when
the context is already done at the `select` that follows an attempt returning `(false, nil)`:
there it can only return `ctx.Err()`. A cancellation during the sleep is not seen until the
next `select`: with no step left the call returns `wait.ErrWaitTimeout`, and otherwise it
returns only after one more attempt. -/
theorem ctx_done_stops_attempts {l : Loop α σ} {tr : List (CtxEvent α)} {x : Loop α σ × Bool}
    (h : run (underContext (exponentialBackoff backoff condition)) (l, true) tr = some x) :
    tr.count (.loop .attempt) ≤ 1 ∧
      (∀ i s, l = .select i s → (∀ e ∈ tr, e = .cancel ∨ e = .loop (.ctxDone true)) ∧
        (x = (.select i s, true) ∨ x = (.done (some .ctxErr) s, true))) ∧
      ∀ i s, l = .sleep i s →
        (¬ i.inc.inc < backoff.steps → tr.count (.loop .attempt) = 0 ∧
          ∀ err s', x.1 = .done err s' → err = some .waitTimeout) ∧
        (i.inc.inc < backoff.steps →
          ∀ err s', x.1 = .done err s' → tr.count (.loop .attempt) = 1) :=
  ⟨attempts_after_cancel h, fun _ _ hl => by subst hl; exact cancelled_at_select h,
    fun _ _ hl => by
      subst hl
      obtain ⟨h1, h2⟩ := cancelled_at_sleep h
      exact ⟨fun hn => ⟨(h1 hn).1, (h1 hn).2.1⟩, fun hi => (h2 hi).1⟩⟩

theorem ctx_done_stops_attempts_at_select :
    run (exponentialBackoff ⟨⟨3, by decide, by decide⟩⟩ retryAtOnce) (Loop.start ())
        [.attempt, .returned false none] = some (.select GoInt.zero ()) ∧
      run (underContext (exponentialBackoff ⟨⟨3, by decide, by decide⟩⟩ retryAtOnce))
        (.select GoInt.zero (), true) [.cancel, .loop (.ctxDone true)] =
        some (.done (some .ctxErr) (), true) ∧
      [CtxEvent.cancel, (CtxEvent.loop (.ctxDone true) : CtxEvent Unit)].count (.loop .attempt) ≤ 1 ∧
      (∀ e ∈ [CtxEvent.cancel, (CtxEvent.loop (.ctxDone true) : CtxEvent Unit)],
        e = .cancel ∨ e = .loop (.ctxDone true)) :=
  have h : run (underContext (exponentialBackoff ⟨⟨3, by decide, by decide⟩⟩ retryAtOnce))
      (.select GoInt.zero (), true) [.cancel, .loop (.ctxDone true)] =
      some (.done (some .ctxErr) (), true) := rfl
  ⟨rfl, h, (ctx_done_stops_attempts h).1, ((ctx_done_stops_attempts h).2.1 _ _ rfl).1⟩

end Context

/-- A cancellation during the sleep goes unnoticed until the next `select`: with `Steps = 3`
the loop starts another attempt after it, and with `Steps = 1` it returns
`wait.ErrWaitTimeout`. -/
theorem cancelled_during_sleep :
    (run (underContext (exponentialBackoff ⟨⟨3, by decide, by decide⟩⟩ retryAtOnce))
      (Loop.start (), false) [.loop .attempt, .loop (.returned false none), .loop (.ctxDone false),
        .cancel, .loop .sleep, .loop .attempt]).isSome ∧
    (run (underContext (exponentialBackoff ⟨⟨1, by decide, by decide⟩⟩ retryAtOnce))
      (Loop.start (), false) [.loop .attempt, .loop (.returned false none), .loop (.ctxDone false),
        .cancel, .loop .sleep, .loop .exit]).bind (fun x => x.1.result) =
      some (some .waitTimeout) := by
  decide

end ResourceManager
