import PdfContent.Model

/-!
The transparency flag of a stream and the nodes it leaves behind. Every operator that may paint
leaves a node with the state it ran under, so the flag can be recomputed from the nodes alone.
What holds of a whole run is proved over the nodes left so far.
-/

namespace PdfContent

def Node.isTransparent (n : Node) : Bool :=
  n.state.any fun s =>
    (TransparencyPolicy.ofOperator? n.name s.renderingMode).any fun policy => policy.holds s

theorem Node.isTransparent_iff (n : Node) :
    n.isTransparent = true ↔ ∃ s, n.state = some s ∧
      ∃ policy, TransparencyPolicy.ofOperator? n.name s.renderingMode = some policy ∧
        policy.holds s = true := by
  simp only [isTransparent, Option.any_eq_true]

namespace Operation

theorem policy?_eq_none {op : Operation} (h : Interpreter.takesSnapshot op = false)
    (mode : RenderingMode) : op.policy? mode = none := by
  cases op <;> simp_all [Interpreter.takesSnapshot, policy?]

end Operation

namespace Interpreter

variable {σ : Type}

theorem step_name (r : Resources σ) (i : Interpreter) (name : String) (operands : List Operand)
    (m : σ) : (i.step r name operands m).1.1.name = name := rfl

theorem step_operands (r : Resources σ) (i : Interpreter) (name : String)
    (operands : List Operand) (m : σ) :
    (i.step r name operands m).1.1.operands = operands := rfl

theorem step_state (r : Resources σ) (i : Interpreter) (name : String) (operands : List Operand)
    (m : σ) : (i.step r name operands m).1.1.state =
      if takesSnapshot (Operation.ofName name) then some (i.step r name operands m).1.2.state
      else none := rfl

theorem paintsTransparency_step (r : Resources σ) (i : Interpreter) (name : String)
    (operands : List Operand) (m : σ) :
    Reading.paintsTransparency (i.step r name operands m).1.2 (i.step r name operands m).1.1 =
      (i.step r name operands m).1.1.isTransparent := by
  simp only [Reading.paintsTransparency, Node.isTransparent, step_name, step_state,
    TransparencyPolicy.ofOperator?]
  cases h : takesSnapshot (Operation.ofName name) with
  | true =>
    simp only [if_true, Option.any_some, Option.getD_some]
    cases (Operation.ofName name).policy? (i.step r name operands m).1.2.state.renderingMode <;> rfl
  | false => simp [Operation.policy?_eq_none h]

end Interpreter

namespace Reading

variable {σ : Type}

def FlagAgrees (reading : Reading) : Prop :=
  reading.containsTransparency = reading.nodes.toList.any Node.isTransparent

theorem feed_flagAgrees (r : Resources σ) {reading : Reading × σ} (h : reading.1.FlagAgrees)
    (token : Token) : (feed r reading token).1.FlagAgrees := by
  cases token with
  | operand value => exact h
  | stray text => exact h
  | operator name =>
    simp only [FlagAgrees, feed, Interpreter.paintsTransparency_step, Array.toList_push,
      List.any_append, List.any_cons, List.any_nil, Bool.or_false]
    rw [h]

theorem foldl_flagAgrees (r : Resources σ) (tokens : List Token) {reading : Reading × σ}
    (h : reading.1.FlagAgrees) : (tokens.foldl (feed r) reading).1.FlagAgrees := by
  induction tokens generalizing reading with
  | nil => exact h
  | cons token tokens ih => exact ih (feed_flagAgrees r h token)

theorem mem_foldl_nodes (r : Resources σ) (tokens : List Token) {reading : Reading × σ} {n : Node}
    (h : n ∈ reading.1.nodes.toList) : n ∈ (tokens.foldl (feed r) reading).1.nodes.toList := by
  induction tokens generalizing reading with
  | nil => exact h
  | cons token tokens ih =>
    apply ih
    cases token with
    | operand value => exact h
    | stray text => exact h
    | operator name =>
      simp only [feed, Array.toList_push]
      exact List.mem_append_left _ h

/-- What one operator keeps, of the nodes so far and the memory, a whole run keeps. The node of an
operator may be taken to be among those of the run. -/
theorem foldl_induction (r : Resources σ) (tokens : List Token) {P : List Node → σ → Prop}
    (reading : Reading × σ) (start : P reading.1.nodes.toList reading.2)
    (step : ∀ nodes (i : Interpreter) name operands m, P nodes m →
      (i.step r name operands m).1.1 ∈ (tokens.foldl (feed r) reading).1.nodes.toList →
      P (nodes ++ [(i.step r name operands m).1.1]) (i.step r name operands m).2) :
    P (tokens.foldl (feed r) reading).1.nodes.toList (tokens.foldl (feed r) reading).2 := by
  induction tokens generalizing reading with
  | nil => exact start
  | cons token tokens ih =>
    refine ih _ ?_ step
    cases token with
    | operand value => exact start
    | stray text => exact start
    | operator name =>
      have hs := step _ reading.1.interpreter name reading.1.operands.toList reading.2 start
      have hm : (reading.1.interpreter.step r name reading.1.operands.toList reading.2).1.1 ∈
          (feed r reading (.operator name)).1.nodes.toList := by
        simp [feed]
      have hp := hs (mem_foldl_nodes r tokens hm)
      simpa only [feed, Array.toList_push] using hp

end Reading

namespace Model

variable {σ : Type}

theorem ofTokens_flag (r : Resources σ) (collectsWarnings : Bool) (tokens : List Token) (m : σ) :
    (ofTokens r collectsWarnings tokens m).1.containsTransparency =
      (ofTokens r collectsWarnings tokens m).1.nodes.any Node.isTransparent :=
  Reading.foldl_flagAgrees r tokens rfl

theorem ofTokens_induction (r : Resources σ) (collectsWarnings : Bool) (tokens : List Token)
    (m : σ) {P : List Node → σ → Prop} (start : P [] m)
    (step : ∀ nodes (i : Interpreter) name operands m', P nodes m' →
      (i.step r name operands m').1.1 ∈ (ofTokens r collectsWarnings tokens m).1.nodes →
      P (nodes ++ [(i.step r name operands m').1.1]) (i.step r name operands m').2) :
    P (ofTokens r collectsWarnings tokens m).1.nodes (ofTokens r collectsWarnings tokens m).2 :=
  Reading.foldl_induction r tokens ({ interpreter := { collectsWarnings } }, m) start step

/-- A stream is flagged exactly when one of its nodes says so: a node that carries a state, whose
operator has a policy under the rendering mode of that state, where the policy holds of it. -/
theorem containsTransparency_iff_exists_node (r : Resources σ) (collectsWarnings : Bool)
    (tokens : List Token) (m : σ) :
    (ofTokens r collectsWarnings tokens m).1.containsTransparency = true ↔
      ∃ n ∈ (ofTokens r collectsWarnings tokens m).1.nodes, ∃ s, n.state = some s ∧
        ∃ policy, TransparencyPolicy.ofOperator? n.name s.renderingMode = some policy ∧
          policy.holds s = true := by
  rw [ofTokens_flag, List.any_eq_true]
  exact exists_congr fun n => and_congr_right fun _ => n.isTransparent_iff

end Model

end PdfContent
