import Mathlib.Data.List.DropRight
import PdfContent.Proofs.EndedRuns
import PdfContent.Proofs.PageTokens

/-!
The nodes of a stream against its tokens. Every operator gives one node, with the operands that
stand between it and the operator before it, and so takes them from the operators behind it. Tokens
behind the last operator leave no trace in the nodes, and a stream that goes on keeps the nodes that
it had.
-/

namespace PdfContent

variable {σ : Type}

namespace Token

theorem operators_append (front rest : List Token) :
    operators (front ++ rest) = operators front ++ operators rest := List.filterMap_append

theorem operators_append_of_free (front : List Token) {between : List Token}
    (free : ∀ token ∈ between, token.operator? = none) :
    operators (front ++ between) = operators front := by
  have none : operators between = [] := List.filterMap_eq_nil_iff.2 free
  rw [operators_append, none, List.append_nil]

def operand? : Token → Option Operand
  | operand value => some value
  | _ => none

def waiting (tokens : List Token) : List Operand :=
  (tokens.rtakeWhile fun token => token.operator?.isNone).filterMap operand?

theorem waiting_concat_operator (tokens : List Token) (name : String) :
    waiting (tokens ++ [.operator name]) = [] := by
  rw [waiting, List.rtakeWhile_concat_neg _ _ _ (by simp [operator?])]
  rfl

theorem waiting_concat_operand (tokens : List Token) (value : Operand) :
    waiting (tokens ++ [.operand value]) = waiting tokens ++ [value] := by
  rw [waiting, List.rtakeWhile_concat_pos _ _ _ rfl, List.filterMap_append]
  rfl

theorem waiting_concat_stray (tokens : List Token) (text : String) :
    waiting (tokens ++ [.stray text]) = waiting tokens := by
  rw [waiting, List.rtakeWhile_concat_pos _ _ _ rfl, List.filterMap_append]
  exact List.append_nil _

def EndsOperator (front : List Token) : Prop :=
  front = [] ∨ ∃ earlier previous, front = earlier ++ [.operator previous]

theorem waiting_append {front between : List Token} (ends : EndsOperator front)
    (free : ∀ token ∈ between, token.operator? = none) :
    waiting (front ++ between) = between.filterMap operand? := by
  induction between using List.reverseRecOn with
  | nil =>
    rw [List.append_nil]
    obtain rfl | ⟨earlier, previous, rfl⟩ := ends
    · rfl
    · exact waiting_concat_operator earlier previous
  | append_singleton between token ih =>
    rw [List.forall_mem_append, List.forall_mem_singleton] at free
    rw [← List.append_assoc, List.filterMap_append, ← ih free.1]
    cases token with
    | operand value => exact waiting_concat_operand _ value
    | stray text =>
      rw [waiting_concat_stray]
      exact (List.append_nil _).symm
    | operator name => cases free.2

end Token

namespace Reading

variable (r : Resources σ) (collectsWarnings : Bool) (m : σ)

def ofTokens (tokens : List Token) : Reading × σ :=
  tokens.foldl (feed r) ({ interpreter := { collectsWarnings } }, m)

theorem ofTokens_append (front rest : List Token) :
    ofTokens r collectsWarnings m (front ++ rest) =
      rest.foldl (feed r) (ofTokens r collectsWarnings m front) :=
  List.foldl_append

theorem ofTokens_concat (tokens : List Token) (token : Token) :
    ofTokens r collectsWarnings m (tokens ++ [token]) =
      feed r (ofTokens r collectsWarnings m tokens) token :=
  ofTokens_append r collectsWarnings m tokens [token]

theorem operands_ofTokens (tokens : List Token) :
    (ofTokens r collectsWarnings m tokens).1.operands.toList = Token.waiting tokens := by
  induction tokens using List.reverseRecOn with
  | nil => rfl
  | append_singleton tokens token ih =>
    rw [ofTokens_concat]
    cases token with
    | operand value => rw [feed, Array.toList_push, ih, Token.waiting_concat_operand]
    | stray text => rw [feed, ih, Token.waiting_concat_stray]
    | operator name => rw [feed, Token.waiting_concat_operator]

theorem names_ofTokens (tokens : List Token) :
    (ofTokens r collectsWarnings m tokens).1.nodes.toList.map Node.name =
      Token.operators tokens := by
  induction tokens using List.reverseRecOn with
  | nil => rfl
  | append_singleton tokens token ih =>
    rw [ofTokens_concat, Token.operators_append, ← ih]
    cases token with
    | operand value => exact (List.append_nil _).symm
    | stray text => exact (List.append_nil _).symm
    | operator name =>
      rw [feed, Array.toList_push, List.map_append]
      rfl

theorem length_nodes_ofTokens (tokens : List Token) :
    (ofTokens r collectsWarnings m tokens).1.nodes.toList.length =
      (Token.operators tokens).length := by
  rw [← names_ofTokens r collectsWarnings m tokens, List.length_map]

/-- What every operator changes as its node tells is told by the nodes so far. -/
theorem context_ofTokens {α : Type} (view : Context → α) (change : α → Node → α)
    (step : ∀ (i : Interpreter) (name : String) (operands : List Operand) (m : σ),
      view (i.step r name operands m).1.2.context =
        change (view i.context) (i.step r name operands m).1.1) (tokens : List Token) :
    view (ofTokens r collectsWarnings m tokens).1.interpreter.context =
      (ofTokens r collectsWarnings m tokens).1.nodes.toList.foldl change (view {}) := by
  induction tokens using List.reverseRecOn with
  | nil => rfl
  | append_singleton tokens token ih =>
    rw [ofTokens_concat]
    cases token with
    | operand value => exact ih
    | stray text => simpa only [feed, skipStray_context] using ih
    | operator name => rw [feed, Array.toList_push, List.foldl_concat, ← ih, step]

theorem context_ofTokens_names {α : Type} (view : Context → α) (change : α → String → α)
    (step : ∀ (i : Interpreter) (name : String) (operands : List Operand) (m : σ),
      view (i.step r name operands m).1.2.context = change (view i.context) name)
    (tokens : List Token) :
    view (ofTokens r collectsWarnings m tokens).1.interpreter.context =
      (Token.operators tokens).foldl change (view {}) := by
  rw [context_ofTokens r collectsWarnings m view (fun a n => change a n.name) step,
    ← names_ofTokens r collectsWarnings m tokens, List.foldl_map]

theorem nodes_foldl_of_free {tokens : List Token}
    (free : ∀ token ∈ tokens, token.operator? = none) (reading : Reading × σ) :
    (tokens.foldl (feed r) reading).1.nodes = reading.1.nodes := by
  induction tokens generalizing reading with
  | nil => rfl
  | cons token tokens ih =>
    rw [List.forall_mem_cons] at free
    rw [List.foldl_cons, ih free.2]
    cases token with
    | operand value => rfl
    | stray text => rfl
    | operator name => cases free.1

theorem getElem?_nodes_ofTokens (before : List Token) (name : String) (after : List Token) :
    (ofTokens r collectsWarnings m (before ++ .operator name :: after)).1.nodes.toList[
        (Token.operators before).length]? =
      some ((ofTokens r collectsWarnings m before).1.interpreter.step r name
        (Token.waiting before) (ofTokens r collectsWarnings m before).2).1.1 := by
  obtain ⟨more, whole⟩ := nodes_prefix_foldl r after
    (ofTokens r collectsWarnings m (before ++ [.operator name]))
  rw [← ofTokens_append, List.append_assoc, List.singleton_append] at whole
  have place := length_nodes_ofTokens r collectsWarnings m before
  rw [← whole, ofTokens_concat, feed, Array.toList_push, operands_ofTokens, ← place,
    List.append_assoc, List.getElem?_append_right (Nat.le_refl _), Nat.sub_self]
  rfl

end Reading

namespace Model

/-- A stream has one node for each operator, in order and under its name. The operands of a node are
those between its operator and the one before it, or the start, whatever stray tokens stand among
them; what stands behind the last operator is in no node. So a stream that goes on begins with the
nodes it had, and stays transparent if it was. -/
theorem ofTokens_nodes (r : Resources σ) (collectsWarnings : Bool) (m : σ) :
    (∀ tokens, (ofTokens r collectsWarnings tokens m).1.nodes.map Node.name =
      Token.operators tokens) ∧
    (∀ front between name rest, Token.EndsOperator front →
      (∀ token ∈ between, token.operator? = none) →
      ∃ n, (ofTokens r collectsWarnings (front ++ between ++ .operator name :: rest) m).1.nodes[
          (Token.operators front).length]? = some n ∧
        n.name = name ∧ n.operands = between.filterMap Token.operand?) ∧
    (∀ front rest, (∀ token ∈ rest, token.operator? = none) →
      (ofTokens r collectsWarnings (front ++ rest) m).1.nodes =
        (ofTokens r collectsWarnings front m).1.nodes) ∧
    (∀ a b, (ofTokens r collectsWarnings a m).1.nodes <+:
      (ofTokens r collectsWarnings (a ++ b) m).1.nodes) ∧
    ∀ a b, (ofTokens r collectsWarnings a m).1.containsTransparency = true →
      (ofTokens r collectsWarnings (a ++ b) m).1.containsTransparency = true := by
  have longer (a b : List Token) : (ofTokens r collectsWarnings a m).1.nodes <+:
      (ofTokens r collectsWarnings (a ++ b) m).1.nodes := by
    have begins := Reading.nodes_prefix_foldl r b (Reading.ofTokens r collectsWarnings m a)
    rw [← Reading.ofTokens_append] at begins
    exact begins
  refine ⟨?_, ?_, ?_, longer, ?_⟩
  · exact fun tokens => Reading.names_ofTokens r collectsWarnings m tokens
  · intro front between name rest ends free
    have found := Reading.getElem?_nodes_ofTokens r collectsWarnings m (front ++ between) name rest
    rw [Token.operators_append_of_free front free, Token.waiting_append ends free] at found
    exact ⟨_, found, rfl, rfl⟩
  · intro front rest free
    have kept := Reading.nodes_foldl_of_free r free (Reading.ofTokens r collectsWarnings m front)
    rw [← Reading.ofTokens_append] at kept
    exact congrArg Array.toList kept
  · intro a b flag
    rw [ofTokens_flag, List.any_eq_true] at flag ⊢
    obtain ⟨n, mem, shows⟩ := flag
    exact ⟨n, (longer a b).subset mem, shows⟩

def blendedFill : List Token :=
  [.operand (.name "GS"), .operator "gs", .operator "f"]

def blendingTable : ResourceTable where
  extGStates := [("GS", { blendMode := some (.name "Multiply") })]

def looseOperands : List Token :=
  [.operand (.integer 1), .stray "]", .operand (.name "A")]

theorem ofTokens_nodes_looseOperands :
    Token.EndsOperator blendedFill ∧ (∀ token ∈ looseOperands, token.operator? = none) ∧
      (∃ n, (ofTokens blendingTable.resources true
          (blendedFill ++ looseOperands ++ .operator "ZZ" :: []) ()).1.nodes[2]? = some n ∧
        n.name = "ZZ" ∧ n.operands = [.integer 1, .name "A"]) ∧
      (ofTokens blendingTable.resources true (blendedFill ++ looseOperands) ()).1.nodes =
        (ofTokens blendingTable.resources true blendedFill ()).1.nodes ∧
      (ofTokens blendingTable.resources true blendedFill ()).1.containsTransparency = true ∧
      (ofTokens blendingTable.resources true (blendedFill ++ looseOperands)
        ()).1.containsTransparency = true := by
  have ends : Token.EndsOperator blendedFill :=
    .inr ⟨[.operand (.name "GS"), .operator "gs"], "f", rfl⟩
  have free : ∀ token ∈ looseOperands, token.operator? = none := by
    simp [looseOperands, Token.operator?]
  have flag : (ofTokens blendingTable.resources true blendedFill ()).1.containsTransparency =
      true := rfl
  obtain ⟨-, operands, kept, -, goesOn⟩ := ofTokens_nodes blendingTable.resources true ()
  exact ⟨ends, free, operands blendedFill looseOperands "ZZ" [] ends free,
    kept blendedFill looseOperands free, flag, goesOn blendedFill looseOperands flag⟩

end Model

end PdfContent
