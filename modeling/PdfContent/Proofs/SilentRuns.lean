import PdfContent.Proofs.EndedRuns

/-!
Runs without their warnings. What an operator does depends on the context of the interpreter and on
its place in the stream, neither on the warnings that are held nor on whether any are. So a run that
collects none gives the same nodes, and it does not matter when warnings are taken or where stray
tokens stand between the operators.
-/

namespace PdfContent

variable {σ : Type}

namespace Interpreter

/-- Two interpreters that differ at most in the warnings they hold and in whether they hold any. -/
structure SameCourse (i j : Interpreter) : Prop where
  context : i.context = j.context
  index : i.index = j.index

theorem skipStray_sameCourse (i : Interpreter) (text : String) :
    SameCourse (i.skipStray text) i := by
  unfold skipStray
  by_cases collects : i.collectsWarnings = true
  · rw [if_pos collects]
    exact ⟨rfl, rfl⟩
  · rw [if_neg collects]
    exact ⟨rfl, rfl⟩

theorem takeWarnings_sameCourse (i : Interpreter) : SameCourse i.takeWarnings.2 i := ⟨rfl, rfl⟩

namespace SameCourse

variable {i j k : Interpreter}

theorem trans (h : SameCourse i j) (h' : SameCourse j k) : SameCourse i k :=
  ⟨h.context.trans h'.context, h.index.trans h'.index⟩

theorem symm (h : SameCourse i j) : SameCourse j i := ⟨h.context.symm, h.index.symm⟩

theorem state (h : SameCourse i j) : i.state = j.state := congrArg Context.live h.context

theorem depth (h : SameCourse i j) : i.depth = j.depth :=
  congrArg (fun c => c.stack.depth) h.context

theorem skipStray (h : SameCourse i j) (text : String) :
    SameCourse (i.skipStray text) (j.skipStray text) :=
  ((skipStray_sameCourse i text).trans h).trans (skipStray_sameCourse j text).symm

theorem step (h : SameCourse i j) (r : Resources σ) (name : String) (operands : List Operand)
    (m : σ) :
    (i.step r name operands m).1.1 = (j.step r name operands m).1.1 ∧
      SameCourse (i.step r name operands m).1.2 (j.step r name operands m).1.2 ∧
      (i.step r name operands m).2 = (j.step r name operands m).2 := by
  have context := h.context
  have index := h.index
  refine ⟨?_, ⟨?_, ?_⟩, ?_⟩ <;> simp only [Interpreter.step, context, index]

theorem paintsTransparency (h : SameCourse i j) (n : Node) :
    Reading.paintsTransparency i n = Reading.paintsTransparency j n := by
  simp only [Reading.paintsTransparency, h.state]

end SameCourse

structure Silent (i : Interpreter) : Prop where
  off : i.collectsWarnings = false
  empty : i.warnings = #[]

theorem Silent.skipStray {i : Interpreter} (h : i.Silent) (text : String) :
    i.skipStray text = i := by
  simp only [Interpreter.skipStray, h.off, Bool.false_eq_true, if_false]

theorem Silent.step {i : Interpreter} (h : i.Silent) (r : Resources σ) (name : String)
    (operands : List Operand) (m : σ) : (i.step r name operands m).1.2.Silent where
  off := h.off
  empty := by simp only [Interpreter.step, h.off, Bool.false_eq_true, if_false, h.empty]

end Interpreter

namespace Reading

structure SameCourse (reading other : Reading × σ) : Prop where
  interpreter : reading.1.interpreter.SameCourse other.1.interpreter
  operands : reading.1.operands = other.1.operands
  nodes : reading.1.nodes = other.1.nodes
  flag : reading.1.containsTransparency = other.1.containsTransparency
  memory : reading.2 = other.2

namespace SameCourse

variable {reading other : Reading × σ}

theorem feed (h : SameCourse reading other) (r : Resources σ) (token : Token) :
    SameCourse (Reading.feed r reading token) (Reading.feed r other token) := by
  cases token with
  | operand value =>
    exact ⟨h.interpreter, congrArg (·.push value) h.operands, h.nodes, h.flag, h.memory⟩
  | stray text => exact ⟨h.interpreter.skipStray text, h.operands, h.nodes, h.flag, h.memory⟩
  | operator name =>
    have step := h.interpreter.step r name reading.1.operands.toList reading.2
    rw [h.operands, h.memory] at step
    obtain ⟨node, interpreter, memory⟩ := step
    have paints := interpreter.paintsTransparency
      (other.1.interpreter.step r name other.1.operands.toList other.2).1.1
    simp only [Reading.feed, h.operands, h.memory]
    refine ⟨interpreter, rfl, ?_, ?_, memory⟩
    · simp only [h.nodes, node]
    · simp only [h.flag, node, paints]

end SameCourse

theorem silent_feed {reading : Reading × σ} (h : reading.1.interpreter.Silent) (r : Resources σ)
    (token : Token) : (feed r reading token).1.interpreter.Silent := by
  cases token with
  | operand value => exact h
  | stray text => simpa only [feed, h.skipStray] using h
  | operator name => exact h.step r name reading.1.operands.toList reading.2

end Reading

namespace Model

def silent (model : Model) : Model := { model with warnings := [] }

/-- Collecting no warnings is dropping them: nothing else of a model, and nothing in the memory
behind the resources, depends on it. -/
theorem ofTokensWhile_silent (goes : σ → Bool) (r : Resources σ) (collectsWarnings : Bool)
    (tokens : List Token) (m : σ) :
    ofTokensWhile goes r false tokens m =
      ((ofTokensWhile goes r collectsWarnings tokens m).1.silent,
        (ofTokensWhile goes r collectsWarnings tokens m).2) := by
  have start : Reading.SameCourse ({ interpreter := { collectsWarnings := false } }, m)
      ({ interpreter := { collectsWarnings } }, m) := ⟨⟨rfl, rfl⟩, rfl, rfl, rfl, rfl⟩
  let alike (reading other : Reading × σ) : Prop :=
    Reading.SameCourse reading other ∧ reading.1.interpreter.Silent
  have together : ∀ reading other, alike reading other → goes reading.2 = goes other.2 :=
    fun _ _ h => congrArg goes h.1.memory
  have feeds : ∀ reading other, alike reading other →
      ∀ token, alike (Reading.feed r reading token) (Reading.feed r other token) :=
    fun _ _ h token => ⟨h.1.feed r token, Reading.silent_feed h.2 r token⟩
  obtain ⟨finish, quiet⟩ :=
    Reading.foldl_feedWhile_of_alike together feeds tokens ⟨start, rfl, rfl⟩
  refine Prod.ext ?_ finish.memory
  simp only [ofTokensWhile, Reading.model, silent, finish.nodes, finish.flag,
    finish.interpreter.depth, quiet.empty, Array.toList_empty]

theorem ofTokens_silent (r : Resources σ) (collectsWarnings : Bool) (tokens : List Token) (m : σ) :
    ofTokens r false tokens m =
      ((ofTokens r collectsWarnings tokens m).1.silent,
        (ofTokens r collectsWarnings tokens m).2) :=
  ofTokensWhile_silent (fun _ => true) r collectsWarnings tokens m

end Model

/-- What an interpreter may be asked amid a stream. Operators may come with resources of their
own. -/
inductive Request (σ : Type)
  | operator (r : Resources σ) (name : String) (operands : List Operand)
  | skipStray (text : String)
  | takeWarnings

def Request.isOperator : Request σ → Bool
  | operator .. => true
  | _ => false

namespace Interpreter

def serve (i : Interpreter) (m : σ) : Request σ → Option Node × Interpreter × σ
  | .operator r name operands =>
    let step := i.step r name operands m
    (some step.1.1, step.1.2, step.2)
  | .skipStray text => (none, i.skipStray text, m)
  | .takeWarnings => (none, i.takeWarnings.2, m)

def serveAll (i : Interpreter) (m : σ) : List (Request σ) → List Node × Interpreter × σ
  | [] => ([], i, m)
  | request :: rest =>
    let first := i.serve m request
    let later := serveAll first.2.1 first.2.2 rest
    (first.1.toList ++ later.1, later.2)

theorem serve_of_not_isOperator (i : Interpreter) (m : σ) {request : Request σ}
    (h : request.isOperator = false) :
    (i.serve m request).1 = none ∧ SameCourse (i.serve m request).2.1 i ∧
      (i.serve m request).2.2 = m := by
  cases request with
  | operator r name operands => cases h
  | skipStray text => exact ⟨rfl, skipStray_sameCourse i text, rfl⟩
  | takeWarnings => exact ⟨rfl, takeWarnings_sameCourse i, rfl⟩

theorem SameCourse.serve {i j : Interpreter} (h : SameCourse i j) (m : σ) (request : Request σ) :
    (i.serve m request).1 = (j.serve m request).1 ∧
      SameCourse (i.serve m request).2.1 (j.serve m request).2.1 ∧
      (i.serve m request).2.2 = (j.serve m request).2.2 := by
  cases request with
  | operator r name operands =>
    obtain ⟨node, course, memory⟩ := h.step r name operands m
    exact ⟨congrArg some node, course, memory⟩
  | skipStray text => exact ⟨rfl, h.skipStray text, rfl⟩
  | takeWarnings => exact ⟨rfl, ⟨h.context, h.index⟩, rfl⟩

theorem SameCourse.serveAll_operators {i j : Interpreter} (h : SameCourse i j) (m : σ)
    (requests : List (Request σ)) :
    (i.serveAll m requests).1 = (j.serveAll m (requests.filter Request.isOperator)).1 ∧
      SameCourse (i.serveAll m requests).2.1
        (j.serveAll m (requests.filter Request.isOperator)).2.1 ∧
      (i.serveAll m requests).2.2 = (j.serveAll m (requests.filter Request.isOperator)).2.2 := by
  induction requests generalizing i j m with
  | nil => exact ⟨rfl, h, rfl⟩
  | cons request requests ih =>
    by_cases operator : request.isOperator = true
    · obtain ⟨node, course, memory⟩ := h.serve m request
      obtain ⟨nodes, courses, memories⟩ := ih course (j.serve m request).2.2
      rw [List.filter_cons_of_pos operator]
      simp only [serveAll, node, memory]
      exact ⟨congrArg _ nodes, courses, memories⟩
    · obtain ⟨node, course, memory⟩ :=
        i.serve_of_not_isOperator m (Bool.eq_false_iff.2 operator)
      rw [List.filter_cons_of_neg operator]
      simp only [serveAll, node, memory, Option.toList_none, List.nil_append]
      exact ih (course.trans h) m

end Interpreter

end PdfContent
