import PdfContent.Proofs.OperatorNodes
import PdfContent.Proofs.StateParts

/-!
How many states are saved. The number is counted by `q` and `Q` alone, and stays at zero where
there is nothing to restore; such a `Q` does nothing but take its place among the operators.
-/

namespace PdfContent

variable {σ : Type}

namespace StateStack

def depthAfter (depth : Nat) (name : String) : Nat :=
  if name = "q" then depth + 1 else if name = "Q" then depth - 1 else depth

end StateStack

namespace Interpreter

open StateStack

theorem step_depth (r : Resources σ) (i : Interpreter) (name : String) (operands : List Operand)
    (m : σ) : (i.step r name operands m).1.2.depth = depthAfter i.depth name := by
  have saved := congrArg List.length (step_saved r i name operands m)
  by_cases save : name = "q"
  · rw [if_pos save] at saved
    rw [depthAfter, if_pos save]
    exact saved
  · by_cases restore : name = "Q"
    · rw [if_neg save, if_pos restore, List.length_tail] at saved
      rw [depthAfter, if_neg save, if_pos restore]
      exact saved
    · rw [if_neg save, if_neg restore] at saved
      rw [depthAfter, if_neg save, if_neg restore]
      exact saved

theorem step_kind_save (r : Resources σ) (i : Interpreter) (operands : List Operand) (m : σ) :
    (i.step r "q" operands m).1.1.kind = .saveState (i.step r "q" operands m).1.2.depth := rfl

theorem step_kind_restore (r : Resources σ) (i : Interpreter) (operands : List Operand) (m : σ) :
    (i.step r "Q" operands m).1.1.kind = .restoreState (i.step r "Q" operands m).1.2.depth := rfl

theorem step_restore_empty (r : Resources σ) {i : Interpreter} (empty : i.depth = 0)
    (operands : List Operand) (m : σ) :
    (i.step r "Q" operands m).1.2 = { i with index := i.index + 1 } := by
  have none : i.context.stack.saved = [] := List.eq_nil_of_length_eq_zero empty
  have stack : i.context.stack.restore = i.context.stack := by rw [StateStack.restore, none]
  have context : (i.step r "Q" operands m).1.2.context = i.context :=
    congrArg (fun stack => { i.context with stack }) stack
  have warnings : (i.step r "Q" operands m).1.2.warnings = i.warnings := ite_self i.warnings
  rw [← context, ← warnings]
  rfl

end Interpreter

namespace Token

def savedStates (tokens : List Token) : Nat :=
  (operators tokens).foldl StateStack.depthAfter 0

theorem savedStates_concat_operator (tokens : List Token) (name : String) :
    savedStates (tokens ++ [.operator name]) = StateStack.depthAfter (savedStates tokens) name := by
  rw [savedStates, operators_append, List.foldl_append]
  rfl

end Token

namespace Reading

variable (r : Resources σ) (collectsWarnings : Bool) (m : σ)

theorem depth_ofTokens (tokens : List Token) :
    (ofTokens r collectsWarnings m tokens).1.interpreter.depth = Token.savedStates tokens :=
  context_ofTokens_names r collectsWarnings m (fun c => c.stack.depth) StateStack.depthAfter
    (Interpreter.step_depth r) tokens

theorem getElem?_kind_ofTokens (before : List Token) {name : String} (after : List Token)
    {kind : Nat → NodeKind}
    (tells : ∀ (i : Interpreter) (operands : List Operand) (m : σ),
      (i.step r name operands m).1.1.kind = kind (i.step r name operands m).1.2.depth) :
    ((ofTokens r collectsWarnings m (before ++ .operator name :: after)).1.nodes.toList[
        (Token.operators before).length]?).map Node.kind =
      some (kind (Token.savedStates (before ++ [.operator name]))) := by
  rw [getElem?_nodes_ofTokens, Option.map_some, tells, Interpreter.step_depth, depth_ofTokens,
    Token.savedStates_concat_operator]

theorem interpreter_concat_restore {before : List Token} (empty : Token.savedStates before = 0) :
    (ofTokens r collectsWarnings m (before ++ [.operator "Q"])).1.interpreter =
      { (ofTokens r collectsWarnings m before).1.interpreter with
        index := (ofTokens r collectsWarnings m before).1.interpreter.index + 1 } := by
  rw [← depth_ofTokens r collectsWarnings m] at empty
  rw [ofTokens_concat]
  exact Interpreter.step_restore_empty r empty _ _

end Reading

namespace Model

theorem glyphWarnings_concat_restore (r : Resources σ) (collectsWarnings : Bool) (m : σ)
    (before : List Token) :
    (ofTokens r collectsWarnings (before ++ [.operator "Q"]) m).1.glyphWarnings =
      (ofTokens r collectsWarnings before m).1.glyphWarnings := by
  have nodes := congrArg (fun reading => reading.1.nodes.toList)
    (Reading.ofTokens_concat r collectsWarnings m before (.operator "Q"))
  have pushed := nodes.trans Array.toList_push
  have whole := (congrArg (List.flatMap Node.glyphWarnings) pushed).trans List.flatMap_append
  exact whole.trans (List.append_nil _)

/-- The states saved at the end are those that `q` adds and `Q` takes away again, as long as there
are any. Every `q` and `Q` tells their number right behind it. A `Q` where there are none passes the
interpreter on as it was, one operator further, and gives no warning. -/
theorem ofTokens_stackDepth (r : Resources σ) (collectsWarnings : Bool) (m : σ) :
    (∀ tokens, (ofTokens r collectsWarnings tokens m).1.stackDepth = Token.savedStates tokens) ∧
    (∀ before after,
      ((ofTokens r collectsWarnings (before ++ .operator "q" :: after) m).1.nodes[
          (Token.operators before).length]?).map Node.kind =
        some (.saveState (Token.savedStates (before ++ [.operator "q"])))) ∧
    (∀ before after,
      ((ofTokens r collectsWarnings (before ++ .operator "Q" :: after) m).1.nodes[
          (Token.operators before).length]?).map Node.kind =
        some (.restoreState (Token.savedStates (before ++ [.operator "Q"])))) ∧
    ∀ before, Token.savedStates before = 0 →
      (Reading.ofTokens r collectsWarnings m (before ++ [.operator "Q"])).1.interpreter =
        { (Reading.ofTokens r collectsWarnings m before).1.interpreter with
          index := (Reading.ofTokens r collectsWarnings m before).1.interpreter.index + 1 } ∧
      (ofTokens r collectsWarnings (before ++ [.operator "Q"]) m).1.allWarnings =
        (ofTokens r collectsWarnings before m).1.allWarnings := by
  refine ⟨?_, ?_, ?_, ?_⟩
  · intro tokens
    exact Reading.depth_ofTokens r collectsWarnings m tokens
  · intro before after
    exact Reading.getElem?_kind_ofTokens r collectsWarnings m before after
      (Interpreter.step_kind_save r)
  · intro before after
    exact Reading.getElem?_kind_ofTokens r collectsWarnings m before after
      (Interpreter.step_kind_restore r)
  · intro before empty
    have passed := Reading.interpreter_concat_restore r collectsWarnings m empty
    refine ⟨passed, ?_⟩
    have own : (ofTokens r collectsWarnings (before ++ [.operator "Q"]) m).1.warnings =
        (ofTokens r collectsWarnings before m).1.warnings :=
      congrArg (fun i => i.warnings.toList) passed
    rw [allWarnings, own, glyphWarnings_concat_restore]
    rfl

def overdrawn : List Token := .operator "Q" :: .operator "q" :: blendedFill ++ [.operator "Q"]

theorem ofTokens_stackDepth_overdrawn :
    (ofTokens blendingTable.resources true overdrawn ()).1.stackDepth = 0 ∧
      ((ofTokens blendingTable.resources true (overdrawn ++ .operator "Q" :: [.operator "q"])
        ()).1.nodes[5]?).map Node.kind = some (.restoreState 0) ∧
      Token.savedStates overdrawn = 0 ∧
      (ofTokens blendingTable.resources true (overdrawn ++ [.operator "Q"]) ()).1.allWarnings =
        (ofTokens blendingTable.resources true overdrawn ()).1.allWarnings := by
  have empty : Token.savedStates overdrawn = 0 := by decide
  obtain ⟨depth, -, restored, kept⟩ := ofTokens_stackDepth blendingTable.resources true ()
  exact ⟨depth overdrawn, restored overdrawn [.operator "q"], empty, (kept overdrawn empty).2⟩

end Model

end PdfContent
