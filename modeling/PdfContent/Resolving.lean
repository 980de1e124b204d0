import PdfContent.Resources
import PdfContent.Warning

/-!
Computations that look resources up and note issues. An issue is what a warning will say; which
operator it is about is known only to the caller.
-/

namespace PdfContent

structure Issue where
  code : WarningCode
  description : String
  deriving DecidableEq, Inhabited

def Issue.at (issue : Issue) (site : Site) : Warning := ⟨issue.code, issue.description, some site⟩

/-- A value, the issues noted on the way to it, and the memory after it. -/
structure Outcome (σ α : Type) where
  value : α
  issues : List Issue
  memory : σ

def Resolving (σ α : Type) := σ → Outcome σ α

namespace Resolving

variable {σ α β : Type}

protected def pure (a : α) : Resolving σ α := fun memory => ⟨a, [], memory⟩

protected def bind (x : Resolving σ α) (f : α → Resolving σ β) : Resolving σ β := fun memory =>
  let first := x memory
  let second := f first.value first.memory
  ⟨second.value, first.issues ++ second.issues, second.memory⟩

instance : Monad (Resolving σ) where
  pure := Resolving.pure
  bind := Resolving.bind

def note (code : WarningCode) (description : String) : Resolving σ Unit := fun memory =>
  ⟨(), [⟨code, description⟩], memory⟩

def malformed (description : String) : Resolving σ Unit := note .malformedOperand description

def ask (find : σ → Found α × σ) : Resolving σ (Found α) := fun memory =>
  let result := find memory
  ⟨result.1, [], result.2⟩

/-- Looks a name up. What is not found, or fails, is an issue and counts as absent. -/
def lookup (what : String) (find : Lookup σ α) (name : String) : Resolving σ (Option α) := do
  match ← ask (find name) with
  | .ok (some value) => return some value
  | .ok none =>
    note .resourceNotFound s!"{what} /{name} not found"
    return none
  | .error failure =>
    let cause := failure.message
    note .resourceNotFound s!"{what} /{name} could not be resolved: {cause}"
    return none

end Resolving

end PdfContent
