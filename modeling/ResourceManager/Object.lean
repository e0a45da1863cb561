import Mathlib.Data.List.Basic

/-!
Objects as the helpers of `pkg/controller/utils` see them: the resource version that
carries optimistic concurrency, the finalizer list, and the rest of the object (spec and
status) as opaque values. Errors are classified as `apierrors`, `wait` and `context`
classify them.
-/

set_option autoImplicit false
set_option warningAsError true

namespace ResourceManager

/-- The errors the helpers tell apart. -/
inductive Error where
  | notFound
  | conflict
  | alreadyExists
  | waitTimeout
  | ctxErr
  | other (msg : String)
  deriving DecidableEq, Repr

def Error.isConflict : Error → Bool
  | .conflict => true
  | _ => false

@[simp] theorem Error.isConflict_iff (err : Error) : err.isConflict = true ↔ err = .conflict := by
  cases err <;> simp [isConflict]

def ignoreNotFound : Option Error → Option Error
  | some .notFound => none
  | err => err

structure Object (α : Type) where
  resourceVersion : Nat
  finalizers : List String
  spec : α
  status : α
  deriving DecidableEq, Repr

variable {α : Type}

def Object.withVersion (o : Object α) (rv : Nat) : Object α := { o with resourceVersion := rv }

@[simp] theorem Object.withVersion_resourceVersion (o : Object α) (rv : Nat) :
    (o.withVersion rv).resourceVersion = rv := rfl

@[simp] theorem Object.withVersion_withVersion (o : Object α) (r r' : Nat) :
    (o.withVersion r).withVersion r' = o.withVersion r' := rfl

@[simp] theorem Object.withVersion_self (o : Object α) : o.withVersion o.resourceVersion = o := rfl

@[simp] theorem Object.withVersion_finalizers (o : Object α) (rv : Nat) :
    (o.withVersion rv).finalizers = o.finalizers := rfl

def containsFinalizer (o : Object α) (finalizer : String) : Bool := o.finalizers.contains finalizer

@[simp] theorem containsFinalizer_iff (o : Object α) (finalizer : String) :
    containsFinalizer o finalizer = true ↔ finalizer ∈ o.finalizers := by
  simp [containsFinalizer]

def addFinalizer (o : Object α) (finalizer : String) : Object α :=
  if containsFinalizer o finalizer then o else { o with finalizers := o.finalizers ++ [finalizer] }

def removeFinalizer (o : Object α) (finalizer : String) : Object α :=
  { o with finalizers := o.finalizers.filter (· != finalizer) }

theorem addFinalizer_of_not_mem {o : Object α} {finalizer : String}
    (h : finalizer ∉ o.finalizers) :
    addFinalizer o finalizer = { o with finalizers := o.finalizers ++ [finalizer] } := by
  simp [addFinalizer, h]

/-- `EvalGenericPredicate`: the predicates are asked in order about the object's generic
event, and the first that rejects it ends the loop with false. -/
def evalGenericPredicate (obj : Object α) : List (Object α → Bool) → Bool
  | [] => true
  | p :: predicates => if !p obj then false else evalGenericPredicate obj predicates

/-- `EvalGenericPredicate` returns true exactly when every predicate matches the object. -/
theorem evalGenericPredicate_iff (obj : Object α) (predicates : List (Object α → Bool)) :
    evalGenericPredicate obj predicates = true ↔ ∀ p ∈ predicates, p obj = true := by
  induction predicates with
  | nil => simp [evalGenericPredicate]
  | cons p predicates ih => cases hp : p obj <;> simp [evalGenericPredicate, hp, ih]

end ResourceManager
