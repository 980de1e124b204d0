import PdfContent.Interpreter
import PdfContent.Token

/-!
The model of a content stream: its operator nodes in order, the warnings, and whether anything is
painted with transparency. Operands wait for the operator after them; those after the last operator
belong to none.
-/

namespace PdfContent

structure Model where
  nodes : List Node
  containsTransparency : Bool
  stackDepth : Nat
  warnings : List Warning

structure Reading where
  interpreter : Interpreter := {}
  operands : Array Operand := #[]
  nodes : Array Node := #[]
  containsTransparency : Bool := false

namespace Reading

variable {σ : Type}

/-- Whether an operator paints with transparency: its policy holds of the node's own state, or of
the live one. -/
def paintsTransparency (i : Interpreter) (node : Node) : Bool :=
  match TransparencyPolicy.ofOperator? node.name i.state.renderingMode with
  | some policy => policy.holds (node.state.getD i.state)
  | none => false

def feed (r : Resources σ) (reading : Reading × σ) (token : Token) : Reading × σ :=
  match token with
  | .operand value =>
    ({ reading.1 with operands := reading.1.operands.push value }, reading.2)
  | .stray text =>
    ({ reading.1 with interpreter := reading.1.interpreter.skipStray text }, reading.2)
  | .operator name =>
    let step := reading.1.interpreter.step r name reading.1.operands.toList reading.2
    let node := step.1.1
    let interpreter := step.1.2
    ({ interpreter
       operands := #[]
       nodes := reading.1.nodes.push node
       containsTransparency :=
         reading.1.containsTransparency || paintsTransparency interpreter node }, step.2)

def feedWhile (goes : σ → Bool) (r : Resources σ) (reading : Reading × σ) (token : Token) :
    Reading × σ :=
  if goes reading.2 then feed r reading token else reading

def model (reading : Reading) : Model where
  nodes := reading.nodes.toList
  containsTransparency := reading.containsTransparency
  stackDepth := reading.interpreter.depth
  warnings := reading.interpreter.warnings.toList

end Reading

namespace Model

variable {σ : Type}

def ofTokens (r : Resources σ) (collectsWarnings : Bool) (tokens : List Token) (memory : σ) :
    Model × σ :=
  let start : Reading := { interpreter := { collectsWarnings } }
  let finish := tokens.foldl (Reading.feed r) (start, memory)
  (finish.1.model, finish.2)

/-- A stream read for as long as the memory says so. -/
def ofTokensWhile (goes : σ → Bool) (r : Resources σ) (collectsWarnings : Bool)
    (tokens : List Token) (memory : σ) : Model × σ :=
  let start : Reading := { interpreter := { collectsWarnings } }
  let finish := tokens.foldl (Reading.feedWhile goes r) (start, memory)
  (finish.1.model, finish.2)

def glyphWarnings (m : Model) : List Warning := m.nodes.flatMap Node.glyphWarnings

def allWarnings (m : Model) : List Warning := m.warnings ++ m.glyphWarnings

def textNodes (m : Model) : List Node := m.nodes.filter Node.isTextShow

end Model

end PdfContent
