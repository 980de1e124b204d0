import PdfContent.Proofs.CursorLexer
import PdfContent.Proofs.NameSpelling
import PdfContent.Proofs.NestedOperands

/-!
What a cursor reads. A routine that starts inside the input, with enough time on the clock, ends
with what the reader of the bytes ahead gives: on success the cursor stands where the rest begins,
and without success it stands no further back than where it was. It never looks for a byte or a
slice beyond the end, and each call it makes is a sound one.
-/

namespace PdfContent.Lexer

variable {α β : Type} {input : Bytes} {s t : State} {least : Nat}

def State.rest (input : Bytes) (s : State) : Bytes := input.drop s.position

namespace State

theorem length_rest (input : Bytes) (s : State) :
    (s.rest input).length = input.length - s.position :=
  List.length_drop

theorem rest_move (n : Nat) : (s.move n).rest input = (s.rest input).drop n := List.drop_drop.symm

theorem rest_move_one {b : UInt8} {r : Bytes} (h : s.rest input = b :: r) :
    (s.move 1).rest input = r := by
  rw [rest_move, h]
  rfl

theorem lt_of_rest {b : UInt8} {r : Bytes} (h : s.rest input = b :: r) :
    s.position < input.length := by
  have length := congrArg List.length h
  rw [length_rest, List.length_cons] at length
  omega

theorem getElem?_input (k : Nat) : input[s.position + k]? = (s.rest input)[k]? :=
  List.getElem?_drop.symm

end State

def Routine.Expects (ahead : Bytes) : Routine → Prop
  | .blank | .value | .image => True
  | .keyword => ∃ b ∈ ahead.head?, Operand.isWordStart b = true
  | .literal => ahead.head? = some Byte.openParen
  | .hex => ahead.head? = some Byte.less ∧ ahead[1]? ≠ some Byte.less
  | .array => ahead.head? = some Byte.openBracket
  | .dictionary => ahead.head? = some Byte.less ∧ ahead[1]? = some Byte.less
  | .name => ahead.head? = some Byte.slash
  | .number => ∃ b ∈ ahead.head?, Operand.isNumberStart b = true
  | .step => ∃ b ∈ ahead.head?, Byte.isGap b = false

def startsOperand (b : UInt8) : Bool := Operand.isStart b || Operand.isWordStart b

def Routine.MayStay (ahead : Bytes) (completed : Bool) : Routine → Prop
  | .blank => True
  | .value => completed = false ∧ ∀ b ∈ ahead.head?, startsOperand b = false
  | .image => completed = false ∧ ∀ b ∈ ahead.head?, Byte.isGap b = false ∧ b ≠ Byte.slash
  | _ => False

/-- A call where the routine may be called, that ends inside the input and further on. -/
structure Call.Sound (input : Bytes) (call : Call) : Prop where
  expected : call.routine.Expects (input.drop call.start)
  inside : call.stop ≤ input.length
  onward : call.start < call.stop ∨
    call.start = call.stop ∧ call.routine.MayStay (input.drop call.start) call.completed

structure Moved (input : Bytes) (least : Nat) (s t : State) : Prop where
  least : least ≤ t.position
  inside : t.position ≤ input.length
  calls : ∀ call ∈ t.calls, call ∈ s.calls ∨ call.Sound input

/-- From a state, a routine ends with what a reader gives. -/
inductive Follows (input : Bytes) (least : Nat) (x : Lex α) (s : State) :
    Except SyntaxFault (α × Bytes) → Prop
  | done {a : α} {t : State} (run : x s = some (.ok a, t)) (moved : Moved input least s t) :
      Follows input least x s (.ok (a, t.rest input))
  | stopped {cause : SyntaxFault} {t : State} (run : x s = some (.error (.wrong cause), t))
      (moved : Moved input least s t) : Follows input least x s (.error cause)

theorem bind_run {x : Lex α} {a : α} (run : x s = some (.ok a, t)) (f : α → Lex β) :
    (x >>= f) s = f a t := by
  change Lex.bind x f s = _
  rw [Lex.bind, run]

theorem Moved.refl (inside : s.position ≤ input.length) : Moved input s.position s s :=
  ⟨Nat.le_refl _, inside, fun _ mem => .inl mem⟩

theorem Moved.weaken {more : Nat} (h : Moved input more s t) (le : least ≤ more) :
    Moved input least s t :=
  ⟨Nat.le_trans le h.least, h.inside, h.calls⟩

theorem Moved.trans {u : State} {more : Nat} (h : Moved input least s t)
    (next : Moved input more t u) : Moved input more s u := by
  refine ⟨next.least, next.inside, fun call mem => ?_⟩
  cases next.calls call mem with
  | inl earlier => exact h.calls call earlier
  | inr sound => exact .inr sound

namespace Follows

variable {x : Lex α} {f : α → Lex β} {m : Except SyntaxFault (α × Bytes)}
  {m' : Except SyntaxFault (β × Bytes)}

theorem weaken {more : Nat} (h : Follows input more x s m) (le : least ≤ more) :
    Follows input least x s m := by
  cases h with
  | done run moved => exact .done run (moved.weaken le)
  | stopped run moved => exact .stopped run (moved.weaken le)

theorem pure {r : Bytes} (a : α) (inside : s.position ≤ input.length)
    (ahead : s.rest input = r) : Follows input s.position (Pure.pure a) s (.ok (a, r)) :=
  ahead ▸ .done rfl (.refl inside)

theorem fail (cause : SyntaxFault) (inside : s.position ≤ input.length) :
    Follows input s.position (Lexer.fail (α := α) cause) s (.error cause) :=
  .stopped rfl (.refl inside)

theorem of_ok {a : α} {r : Bytes} (h : Follows input least x s (.ok (a, r))) :
    ∃ t, x s = some (.ok a, t) ∧ Moved input least s t ∧ t.rest input = r := by
  cases h with
  | done run moved => exact ⟨_, run, moved, rfl⟩

theorem of_error {cause : SyntaxFault} (h : Follows input least x s (.error cause)) :
    ∃ t, x s = some (.error (.wrong cause), t) ∧ Moved input least s t := by
  cases h with
  | stopped run moved => exact ⟨_, run, moved⟩

theorem bind {g : α × Bytes → Except SyntaxFault (β × Bytes)} (h : Follows input least x s m)
    (next : ∀ a t, Moved input least s t → m = .ok (a, t.rest input) →
      Follows input t.position (f a) t (g (a, t.rest input))) :
    Follows input least (x >>= f) s (m.bind g) := by
  cases h with
  | stopped run moved =>
    refine .stopped ?_ moved
    change Lex.bind x f s = _
    rw [Lex.bind, run]
  | @done a t run moved =>
    have goesOn := bind_run run f
    have onward : ∀ {u}, Moved input t.position t u → Moved input least s u := fun onward =>
      (moved.trans onward).weaken moved.least
    change Follows input least (x >>= f) s (g (a, t.rest input))
    have rest := next a t moved rfl
    generalize g (a, t.rest input) = result at rest ⊢
    cases rest with
    | done run moved' => exact .done (goesOn.trans run) (onward moved')
    | stopped run moved' => exact .stopped (goesOn.trans run) (onward moved')

theorem andThen_to {a : α} {r : Bytes} {more : Nat} (h : Follows input least x s (.ok (a, r)))
    (next : ∀ t, Moved input least s t → t.rest input = r → Follows input more (f a) t m') :
    Follows input more (x >>= f) s m' := by
  obtain ⟨t, run, moved, rest⟩ := h.of_ok
  have goesOn := bind_run run f
  cases next t moved rest with
  | done run' moved' => exact .done (goesOn.trans run') (moved.trans moved')
  | stopped run' moved' => exact .stopped (goesOn.trans run') (moved.trans moved')

theorem andThen {a : α} {r : Bytes} (h : Follows input least x s (.ok (a, r)))
    (next : ∀ t, Moved input least s t → t.rest input = r → Follows input t.position (f a) t m') :
    Follows input least (x >>= f) s m' :=
  h.andThen_to fun t moved rest => (next t moved rest).weaken moved.least

theorem ran {a : α} (run : x s = some (.ok a, t)) (calls : t.calls = s.calls)
    (h : Follows input least (f a) t m') : Follows input least (x >>= f) s m' := by
  have goesOn := bind_run run f
  cases h with
  | done run moved =>
    exact .done (goesOn.trans run) ⟨moved.least, moved.inside, calls ▸ moved.calls⟩
  | stopped run moved =>
    exact .stopped (goesOn.trans run) ⟨moved.least, moved.inside, calls ▸ moved.calls⟩

theorem further {read : α × Bytes} (h : Follows input least x s (.ok read))
    (shorter : read.2.length < (s.rest input).length) :
    Follows input (s.position + 1) x s (.ok read) := by
  rw [State.length_rest] at shorter
  cases h with
  | done run moved =>
    rw [State.length_rest] at shorter
    exact .done run ⟨by omega, moved.inside, moved.calls⟩

theorem peekAt {f : Option UInt8 → Lex β} (k : Nat)
    (h : Follows input least (f (s.rest input)[k]?) s m') :
    Follows input least (Lexer.peekAt input k >>= f) s m' :=
  ran (congrArg (fun b => some (Except.ok b, s)) (State.getElem?_input k)) rfl h

theorem peek {f : Option UInt8 → Lex β}
    (h : Follows input least (f (s.rest input).head?) s m') :
    Follows input least (Lexer.peek input >>= f) s m' :=
  peekAt 0 (List.head?_eq_getElem? ▸ h)

theorem advance {f : Unit → Lex β} {n : Nat} (h : Follows input least (f ()) (s.move n) m') :
    Follows input least (Lexer.advance n >>= f) s m' :=
  ran rfl rfl h

theorem advance_one {f : Unit → Lex β} {b : UInt8} {r : Bytes} (h : s.rest input = b :: r)
    (next : (s.move 1).position ≤ input.length → (s.move 1).rest input = r →
      Follows input (s.move 1).position (f ()) (s.move 1) m') :
    Follows input (s.position + 1) (Lexer.advance 1 >>= f) s m' :=
  advance (next (State.lt_of_rest h) (State.rest_move_one h))

theorem advanced {b : UInt8} {r : Bytes} (h : s.rest input = b :: r) :
    Follows input (s.position + 1) (Lexer.advance 1) s (.ok ((), r)) :=
  State.rest_move_one h ▸ .done rfl ⟨Nat.le_refl _, State.lt_of_rest h, fun _ => .inl⟩

theorem advance_two {f : Unit → Lex β} {b c : UInt8} {r : Bytes} (h : s.rest input = b :: c :: r)
    (next : (s.move 2).position ≤ input.length → (s.move 2).rest input = r →
      Follows input (s.move 2).position (f ()) (s.move 2) m') :
    Follows input (s.position + 1) (Lexer.advance 2 >>= f) s m' := by
  have length := congrArg List.length h
  rw [State.length_rest, List.length_cons, List.length_cons] at length
  have inside : s.position + 2 ≤ input.length := by omega
  have rest : (s.move 2).rest input = r := by
    rw [State.rest_move, h]
    rfl
  exact advance ((next inside rest).weaken (Nat.le_succ _))

theorem position {f : Nat → Lex β} (h : Follows input least (f s.position) s m') :
    Follows input least (Lexer.position >>= f) s m' :=
  ran rfl rfl h

theorem map {g : α → β} (h : Follows input least x s m) :
    Follows input least (x >>= fun a => Pure.pure (g a)) s (m.map fun r => (g r.1, r.2)) := by
  have applied := h.bind (f := fun a => Pure.pure (g a)) (g := fun r => .ok (g r.1, r.2))
    fun a t moved _ => .pure (g a) moved.inside rfl
  cases m <;> exact applied

theorem called (h : Follows input least x s m) (routine : Routine)
    (expected : routine.Expects (s.rest input))
    (onward : s.position < least ∨ s.position = least ∧
      ∀ completed stop, (completed = true → ∃ a, m = .ok (a, input.drop stop)) →
        s.position < stop ∨ routine.MayStay (s.rest input) completed) :
    Follows input least (Lexer.called routine x) s m := by
  have sound : ∀ {completed t}, Moved input least s t →
      (completed = true → ∃ a, m = .ok (a, t.rest input)) →
      Moved input least s
        { t with calls := ⟨routine, s.position, t.position, completed⟩ :: t.calls } := by
    intro completed t moved result
    refine ⟨moved.least, moved.inside, fun call mem => ?_⟩
    cases List.mem_cons.1 mem with
    | inr earlier => exact moved.calls call earlier
    | inl latest =>
      subst latest
      have least := moved.least
      refine .inr ⟨expected, moved.inside, ?_⟩
      rcases onward with further | ⟨same, onward⟩
      · exact .inl (by dsimp only; omega)
      · rcases onward completed t.position result with further | stay
        · exact .inl further
        · dsimp only
          rcases Nat.lt_or_ge s.position t.position with further | back
          · exact .inl further
          · exact .inr ⟨by omega, stay⟩
  cases h with
  | @done a t run moved =>
    refine .done (t := { t with calls := ⟨routine, s.position, t.position, true⟩ :: t.calls }) ?_
      (sound moved fun _ => ⟨a, rfl⟩)
    rw [Lexer.called, run]
    rfl
  | @stopped cause t run moved =>
    refine .stopped
      (t := { t with calls := ⟨routine, s.position, t.position, false⟩ :: t.calls }) ?_
      (sound moved nofun)
    rw [Lexer.called, run]
    rfl

theorem called_onward (h : Follows input (s.position + 1) x s m) (routine : Routine)
    (expected : routine.Expects (s.rest input)) :
    Follows input (s.position + 1) (Lexer.called routine x) s m :=
  h.called routine expected (.inl (Nat.lt_succ_self _))

theorem called_shorter (h : Follows input s.position x s m) (routine : Routine)
    (expected : routine.Expects (s.rest input)) (stays : routine.MayStay (s.rest input) false)
    (shorter : ∀ a r, m = .ok (a, r) → r.length < (s.rest input).length) :
    Follows input s.position (Lexer.called routine x) s m := by
  refine h.called routine expected (.inr ⟨rfl, fun completed stop result => ?_⟩)
  cases completed with
  | false => exact .inr stays
  | true =>
    obtain ⟨a, same⟩ := result rfl
    have length := shorter a _ same
    rw [List.length_drop, State.length_rest] at length
    exact .inl (by omega)

end Follows

theorem passed_run {start : State} {text : Bytes} (split : start.rest input = text ++ t.rest input)
    (onward : start.position ≤ t.position) (inside : t.position ≤ input.length) :
    Lexer.passed input start.position t = some (.ok text, t) := by
  have length := congrArg List.length split
  rw [List.length_append, State.length_rest, State.length_rest] at length
  have taken : (input.drop start.position).take (t.position - start.position) = text := by
    have width : t.position - start.position = text.length := by omega
    rw [width]
    exact (congrArg (List.take text.length) split).trans List.take_left
  change (if _ then _ else _) = _
  rw [if_pos ⟨onward, inside⟩, taken]

theorem passWhile_follows (p : UInt8 → Bool) {clock : Nat} (inside : s.position ≤ input.length)
    (enough : (s.rest input).length < clock) :
    Follows input s.position (passWhile input p clock) s
      (.ok ((), (s.rest input).dropWhile p)) := by
  induction clock generalizing s with
  | zero => exact absurd enough (Nat.not_lt_zero _)
  | succ clock ih =>
    refine .peek ?_
    cases ahead : s.rest input with
    | nil => exact .pure () inside ahead
    | cons b r =>
      rw [ahead, List.length_cons] at enough
      by_cases hb : p b = true
      · rw [List.dropWhile_cons_of_pos hb]
        simp only [List.head?_cons, if_pos hb]
        refine (Follows.advance_one ahead fun inside rest => ?_).weaken (Nat.le_succ _)
        have on := ih inside (by rw [rest]; omega)
        rwa [rest] at on
      · rw [List.dropWhile_cons_of_neg hb]
        simp only [List.head?_cons, if_neg hb]
        exact .pure () inside ahead

theorem passBlank_follows {clock : Nat} (inside : s.position ≤ input.length)
    (enough : (s.rest input).length < clock) :
    Follows input s.position (passBlank input clock) s (.ok ((), skipBlank (s.rest input))) := by
  induction clock generalizing s with
  | zero => exact absurd enough (Nat.not_lt_zero _)
  | succ clock ih =>
    refine .peek ?_
    cases ahead : s.rest input with
    | nil => exact .pure () inside (ahead.trans skipBlank_nil.symm)
    | cons b r =>
      rw [ahead, List.length_cons] at enough
      rw [skipBlank]
      simp only [List.head?_cons]
      by_cases blank : Byte.isBlank b = true
      · simp only [if_pos blank]
        refine (Follows.advance_one ahead fun inside rest => ?_).weaken (Nat.le_succ _)
        have on := ih inside (by rw [rest]; omega)
        rwa [rest] at on
      · by_cases comment : (b == Byte.percent) = true
        · simp only [if_neg blank, if_pos comment]
          -- The run of the comment takes in its percent sign.
          have run := passWhile_follows (fun c => !Byte.isLineEnd c) inside
            (by rw [ahead, List.length_cons]; exact enough)
          have sign : (!Byte.isLineEnd b) = true := by
            rw [beq_iff_eq.1 comment]
            rfl
          rw [ahead, List.dropWhile_cons_of_pos (p := fun c => !Byte.isLineEnd c) sign] at run
          refine run.andThen fun t moved rest => ?_
          have shorter := skipComment_length_le r
          have on := ih moved.inside (by rw [rest]; exact Nat.lt_of_le_of_lt shorter (by omega))
          rwa [rest] at on
        · simp only [if_neg blank, if_neg comment]
          exact .pure () inside ahead

theorem keyword_follows {clock : Nat} (inside : s.position ≤ input.length)
    (enough : (s.rest input).length < clock) :
    Follows input s.position (keyword input clock) s
      (.ok (Operand.spanRegular (s.rest input))) := by
  refine .position ?_
  refine (passWhile_follows Byte.isRegular inside enough).andThen fun t moved rest => ?_
  have split : s.rest input = (s.rest input).takeWhile Byte.isRegular ++ t.rest input := by
    rw [rest, List.takeWhile_append_dropWhile]
  have run := passed_run split moved.least moved.inside
  rw [Operand.spanRegular, ← rest]
  exact .done run (.refl moved.inside)

theorem byteAt_run {bytes : Bytes} {i : Nat} {b : UInt8} (h : bytes[i]? = some b) (s : State) :
    byteAt bytes i s = some (.ok b, s) := by
  rw [byteAt, h]

theorem unescape_run {raw : Bytes} {clock i : Nat} (decoded : Bytes)
    (enough : raw.length - i < clock) (s : State) :
    unescape raw clock i decoded s =
      some (.ok (decoded ++ Operand.unescapeName (raw.drop i)), s) := by
  induction clock generalizing i decoded with
  | zero => exact absurd enough (Nat.not_lt_zero _)
  | succ clock ih =>
    rw [unescape]
    by_cases more : i < raw.length
    · have here := List.drop_eq_getElem_cons more
      have plain : (raw[i] = Byte.hash → Operand.startsWithHexPair (raw.drop (i + 1)) = false) →
          unescape raw clock (i + 1) (decoded ++ [raw[i]]) s =
            some (.ok (decoded ++ Operand.unescapeName (raw.drop i)), s) := by
        intro sign
        rw [ih _ (by omega), here, Operand.unescapeName_plain sign, List.append_assoc]
        rfl
      rw [if_pos more, bind_run (byteAt_run (List.getElem?_eq_getElem more) s)]
      by_cases sign : (raw[i] == Byte.hash && decide (i + 2 < raw.length)) = true
      · rw [if_pos sign]
        simp only [Bool.and_eq_true, beq_iff_eq, decide_eq_true_eq] at sign
        obtain ⟨sign, pair⟩ := sign
        have second : i + 1 < raw.length := by omega
        have behind : raw.drop (i + 1) = raw[i + 1] :: raw[i + 2] :: raw.drop (i + 3) := by
          rw [List.drop_eq_getElem_cons second, List.drop_eq_getElem_cons pair]
        rw [bind_run (byteAt_run (List.getElem?_eq_getElem second) s),
          bind_run (byteAt_run (List.getElem?_eq_getElem pair) s)]
        cases high : Byte.hexValue raw[i + 1] with
        | none => exact plain fun _ => by rw [behind, Operand.startsWithHexPair, high]; rfl
        | some h =>
          cases low : Byte.hexValue raw[i + 2] with
          | none =>
            refine plain fun _ => ?_
            rw [behind, Operand.startsWithHexPair, low, Option.isSome_none, Bool.and_false]
          | some l =>
            dsimp only
            rw [ih _ (by omega), here, behind, sign, Operand.unescapeName_escaped high low,
              List.append_assoc]
            rfl
      · rw [if_neg sign]
        refine plain fun hash => ?_
        have short : (raw.drop (i + 1)).length < 2 := by
          simp only [hash, BEq.rfl, Bool.true_and, decide_eq_true_eq] at sign
          rw [List.length_drop]
          omega
        generalize raw.drop (i + 1) = rest at short ⊢
        rcases rest with _ | ⟨b, _ | ⟨c, rest⟩⟩
        · rfl
        · rfl
        · exact absurd short (by simp)
    · rw [if_neg more, List.drop_eq_nil_of_le (Nat.le_of_not_lt more)]
      exact congrArg (fun d => some (Except.ok d, s)) (List.append_nil decoded).symm

theorem name_follows {clock : Nat} {r : Bytes} (ahead : s.rest input = Byte.slash :: r)
    (enough : (s.rest input).length ≤ clock) :
    Follows input (s.position + 1) (name input clock) s (.ok (Operand.readName r)) := by
  rw [ahead, List.length_cons] at enough
  refine .advance_one ahead fun inside rest => ?_
  refine .position ?_
  refine (passWhile_follows Byte.isRegular inside (rest ▸ enough)).andThen fun t moved behind => ?_
  rw [rest] at behind
  have split : (s.move 1).rest input = r.takeWhile Byte.isRegular ++ t.rest input := by
    rw [rest, behind, List.takeWhile_append_dropWhile]
  have taken := (List.takeWhile_prefix Byte.isRegular (l := r)).length_le
  have decoded : unescape (r.takeWhile Byte.isRegular) clock 0 [] t = _ :=
    unescape_run [] (by omega) t
  refine .ran (passed_run split moved.least moved.inside) rfl (.ran decoded rfl ?_)
  exact .pure _ moved.inside behind

theorem readUnsigned_snd (negative : Bool) (r : Bytes) :
    (Operand.readUnsigned negative r).2 =
      ((Bytes.after? Byte.dot (r.dropWhile Byte.isDigit)).map (List.dropWhile Byte.isDigit)).getD
        (r.dropWhile Byte.isDigit) := by
  simp only [Operand.readUnsigned]
  split <;> simp only [*, Option.map_some, Option.map_none, Option.getD_some, Option.getD_none]

def digitsEnd (pointed : Bool) (r : Bytes) : Bytes :=
  if pointed then r.dropWhile Byte.isDigit else (Operand.readUnsigned false r).2

theorem passDigits_follows {clock : Nat} (pointed : Bool) (inside : s.position ≤ input.length)
    (enough : (s.rest input).length < clock) :
    Follows input s.position (passDigits input clock pointed) s
      (.ok ((), digitsEnd pointed (s.rest input))) := by
  induction clock generalizing s pointed with
  | zero => exact absurd enough (Nat.not_lt_zero _)
  | succ clock ih =>
    refine .peek ?_
    cases ahead : s.rest input with
    | nil => cases pointed <;> exact .pure () inside ahead
    | cons b r =>
      rw [ahead, List.length_cons] at enough
      simp only [List.head?_cons]
      have onward : ∀ {more}, digitsEnd more r = digitsEnd pointed (b :: r) →
          Follows input s.position
            (advance 1 >>= fun _ => passDigits input clock more) s
            (.ok ((), digitsEnd pointed (b :: r))) := by
        intro more same
        refine (Follows.advance_one ahead fun inside rest => ?_).weaken (Nat.le_succ _)
        have on := ih more inside (by rw [rest]; omega)
        rwa [rest, same] at on
      by_cases point : (b == Byte.dot && !pointed) = true
      · rw [if_pos point]
        simp only [Bool.and_eq_true, beq_iff_eq, Bool.not_eq_true'] at point
        obtain ⟨rfl, rfl⟩ := point
        exact onward rfl
      · rw [if_neg point]
        by_cases digit : Byte.isDigit b = true
        · rw [if_pos digit]
          refine onward ?_
          simp only [digitsEnd, readUnsigned_snd, List.dropWhile_cons_of_pos digit]
        · rw [if_neg digit]
          have stop : digitsEnd pointed (b :: r) = b :: r := by
            simp only [digitsEnd, readUnsigned_snd, List.dropWhile_cons_of_neg digit]
            cases pointed with
            | true => rfl
            | false =>
              have other : Bytes.after? Byte.dot (b :: r) = none :=
                Bytes.after?_eq_none_iff.2 (by simpa using point)
              rw [other]
              rfl
          rw [stop]
          exact .pure () inside ahead

theorem passSign_follows {b : UInt8} {r : Bytes} (ahead : s.rest input = b :: r) :
    Follows input s.position (passSign input) s
      (.ok ((), if b == Byte.plus || b == Byte.minus then r else b :: r)) := by
  have inside := State.lt_of_rest ahead
  refine .peek ?_
  rw [ahead]
  by_cases sign : (b == Byte.plus || b == Byte.minus) = true
  · simp only [List.head?_cons, if_pos sign]
    exact (Follows.advanced ahead).weaken (Nat.le_succ _)
  · simp only [List.head?_cons, if_neg sign]
    exact .pure () (Nat.le_of_lt inside) ahead

theorem readNumber_snd (b : UInt8) (r : Bytes) :
    (Operand.readNumber (b :: r)).2 = digitsEnd false
      (if b == Byte.plus || b == Byte.minus then r else b :: r) := by
  rw [Operand.readNumber]
  by_cases minus : (b == Byte.minus) = true
  · rw [if_pos minus, minus, Bool.or_true, if_pos rfl]
    simp only [digitsEnd, readUnsigned_snd, Bool.false_eq_true, if_false]
  · rw [if_neg minus]
    by_cases plus : (b == Byte.plus) = true
    · rw [if_pos plus, plus, Bool.true_or, if_pos rfl]
      rfl
    · rw [if_neg plus, if_neg (by simp [plus, minus])]
      rfl

theorem number_follows {clock : Nat} {b : UInt8} {r : Bytes} (ahead : s.rest input = b :: r)
    (start : Operand.isNumberStart b = true) (enough : (s.rest input).length < clock) :
    Follows input s.position (number input clock) s (.ok (Operand.readNumber (b :: r))) := by
  rw [ahead] at enough
  have inside := Nat.le_of_lt (State.lt_of_rest ahead)
  refine .position ?_
  refine (passSign_follows ahead).andThen fun t moved rest => ?_
  have shorter : (t.rest input).length ≤ (b :: r).length := by
    rw [rest]
    split <;> simp
  refine (passDigits_follows false moved.inside (Nat.lt_of_le_of_lt shorter enough)).andThen
    fun u moved' rest' => ?_
  rw [rest, ← readNumber_snd] at rest'
  obtain ⟨x, split, read⟩ := Operand.readNumber_lexeme (s := r) start
  rw [← rest'] at split
  have text : s.rest input = (b :: x) ++ u.rest input := by rw [ahead, split]; rfl
  refine .ran (passed_run text (Nat.le_trans moved.least moved'.least) moved'.inside) rfl ?_
  have alone := read [] (.inr nofun)
  rw [List.append_nil] at alone
  rw [alone]
  exact .pure _ moved'.inside rest'

end PdfContent.Lexer
