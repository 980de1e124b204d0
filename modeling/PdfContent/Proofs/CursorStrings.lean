import PdfContent.Proofs.CursorReaders

/-!
What a cursor reads of strings. The bytes of a string are held while the cursor moves on, so each
loop is compared with the reader of what is still ahead, put behind what is held.
-/

namespace PdfContent.Lexer

variable {input : Bytes} {s : State}

theorem octal_follows (digits value : Nat) (inside : s.position ≤ input.length) :
    Follows input s.position (octal input digits value) s
      (.ok (Operand.readOctal digits value (s.rest input))) := by
  induction digits generalizing s value with
  | zero => exact .pure value inside rfl
  | succ digits ih =>
    refine .peek ?_
    cases ahead : s.rest input with
    | nil => exact .pure value inside ahead
    | cons d r =>
      rw [Operand.readOctal]
      simp only [List.head?_cons]
      by_cases octal : Byte.isOctal d = true
      · simp only [if_pos octal]
        refine (Follows.advance_one ahead fun inside rest => ?_).weaken (Nat.le_succ _)
        have on := ih (value * 8 + Byte.digitValue d) inside
        rwa [rest] at on
      · simp only [if_neg octal]
        exact .pure value inside ahead

theorem escape_follows (e : UInt8) (inside : s.position ≤ input.length) :
    Follows input s.position (escape input e) s (.ok (Operand.readEscape e (s.rest input))) := by
  unfold escape Operand.readEscape
  split_ifs
  -- Only a carriage return and an octal digit look at what follows them.
  all_goals first | exact .pure _ inside rfl | skip
  · refine .peek ?_
    cases ahead : s.rest input with
    | nil => exact .pure [] inside ahead
    | cons c r =>
      by_cases lineFeed : c = Byte.lineFeed
      · subst lineFeed
        exact (Follows.advance_one ahead fun inside rest => .pure [] inside rest).weaken
          (Nat.le_succ _)
      · have other : Bytes.after? Byte.lineFeed (c :: r) = none :=
          Bytes.after?_eq_none_iff.2 (by simpa using lineFeed)
        simp only [List.head?_cons, Option.some_beq_some, beq_iff_eq, if_neg lineFeed, other]
        exact .pure [] inside ahead
  · exact (octal_follows 2 (Byte.digitValue e) inside).map

def heldLiteral (held : Bytes) : Option (Bytes × Bytes) → Except SyntaxFault (Bytes × Bytes)
  | none => .error .unclosedString
  | some r => .ok (held ++ r.1, r.2)

theorem heldLiteral_map (held more : Bytes) (rest : Option (Bytes × Bytes)) :
    heldLiteral held (rest.map fun r => (more ++ r.1, r.2)) = heldLiteral (held ++ more) rest := by
  cases rest with
  | none => rfl
  | some r => exact congrArg (fun v => Except.ok (v, r.2)) (List.append_assoc ..).symm

theorem literalRest_follows {clock : Nat} (depth : Nat) (held : Bytes)
    (inside : s.position ≤ input.length) (enough : (s.rest input).length < clock) :
    Follows input s.position (literalRest input clock depth held) s
      (heldLiteral held (Operand.readLiteral depth (s.rest input))) := by
  induction clock generalizing s depth held with
  | zero => exact absurd enough (Nat.not_lt_zero _)
  | succ clock ih =>
    refine .peek ?_
    cases ahead : s.rest input with
    | nil =>
      rw [Operand.readLiteral]
      exact .fail .unclosedString inside
    | cons b r =>
      rw [ahead, List.length_cons] at enough
      simp only [List.head?_cons]
      refine (Follows.advance_one ahead fun inside rest => ?_).weaken (Nat.le_succ _)
      have on := fun depth held => ih depth held inside (by rw [rest]; omega)
      rw [rest] at on
      by_cases opening : (b == Byte.openParen) = true
      · rw [if_pos opening, beq_iff_eq.1 opening, Operand.readLiteral_open]
        exact heldLiteral_map held [Byte.openParen] _ ▸ on (depth + 1) _
      by_cases closing : (b == Byte.closeParen) = true
      · rw [if_neg opening, if_pos closing, beq_iff_eq.1 closing]
        cases depth with
        | zero =>
          rw [Operand.readLiteral_close, heldLiteral, List.append_nil]
          exact .pure held inside rest
        | succ depth =>
          rw [Operand.readLiteral_close_inner]
          exact heldLiteral_map held [Byte.closeParen] _ ▸ on depth _
      by_cases escaping : (b == Byte.backslash) = true
      · rw [if_neg opening, if_neg closing, if_pos escaping, beq_iff_eq.1 escaping]
        refine .peek ?_
        rw [rest]
        cases r with
        | nil =>
          rw [Operand.readLiteral.eq_def]
          exact .fail .unclosedString inside
        | cons e r =>
          simp only [List.head?_cons]
          refine (Follows.advance_one rest fun inside rest => ?_).weaken (Nat.le_succ _)
          rw [Operand.readLiteral_escape, heldLiteral_map]
          have escape : Follows input (s.move 1 |>.move 1).position (escape input e) _
              (.ok ((Operand.readEscape e r).1, (Operand.readEscape e r).2)) :=
            rest ▸ escape_follows e inside
          refine escape.andThen fun t moved rest => ?_
          have shorter := Operand.readEscape_length_le e r
          rw [List.length_cons] at enough
          have on := ih depth (held ++ (Operand.readEscape e r).1) moved.inside
            (by rw [rest]; omega)
          rwa [rest] at on
      · rw [if_neg opening, if_neg closing, if_neg escaping,
          Operand.readLiteral_plain opening closing escaping]
        exact heldLiteral_map held [b] _ ▸ on depth _

theorem literal_follows {clock : Nat} {r : Bytes} (ahead : s.rest input = Byte.openParen :: r)
    (enough : (s.rest input).length ≤ clock) :
    Follows input (s.position + 1) (literal input clock) s
      (heldLiteral [] (Operand.readLiteral 0 r)) := by
  rw [ahead, List.length_cons] at enough
  refine .advance_one ahead fun inside rest => ?_
  have on := literalRest_follows 0 [] inside (rest ▸ enough)
  rwa [rest] at on

def heldHex (held : Bytes) (rest : Except SyntaxFault (Bytes × Bytes)) :
    Except SyntaxFault (Bytes × Bytes) :=
  rest.map fun r => (held ++ r.1, r.2)

theorem heldHex_map (held more : Bytes) (rest : Except SyntaxFault (Bytes × Bytes)) :
    heldHex held (rest.map fun r => (more ++ r.1, r.2)) = heldHex (held ++ more) rest := by
  cases rest with
  | error fault => rfl
  | ok r => exact congrArg (fun v => Except.ok (v, r.2)) (List.append_assoc ..).symm

theorem hexRest_follows {clock : Nat} (high : Option Nat) (held : Bytes)
    (inside : s.position ≤ input.length) (enough : (s.rest input).length < clock) :
    Follows input s.position (hexRest input clock high held) s
      (heldHex held (Operand.readHex high (s.rest input))) := by
  induction clock generalizing s high held with
  | zero => exact absurd enough (Nat.not_lt_zero _)
  | succ clock ih =>
    refine .peek ?_
    cases ahead : s.rest input with
    | nil => exact .fail .unclosedHex inside
    | cons b r =>
      rw [ahead, List.length_cons] at enough
      simp only [List.head?_cons]
      refine (Follows.advance_one ahead fun inside rest => ?_).weaken (Nat.le_succ _)
      have on := fun high held => ih high held inside (by rw [rest]; omega)
      rw [rest] at on
      by_cases closing : (b == Byte.greater) = true
      · rw [if_pos closing, beq_iff_eq.1 closing, Operand.readHex_close]
        cases high with
        | none =>
          have whole : heldHex held (.ok ([], r)) = .ok (held, r) :=
            congrArg (fun v => Except.ok (v, r)) (List.append_nil held)
          exact whole.symm ▸ .pure held inside rest
        | some h => exact .pure _ inside rest
      by_cases blank : Byte.isBlank b = true
      · rw [if_neg closing, if_pos blank, Operand.readHex_blank closing blank]
        exact on high held
      rw [if_neg closing, if_neg blank]
      cases digit : Byte.hexValue b with
      | none =>
        rw [Operand.readHex.eq_def]
        simp only [if_neg closing, if_neg blank, digit]
        exact .fail (.badHexDigit b) inside
      | some v =>
        cases high with
        | none =>
          rw [Operand.readHex_first closing blank digit]
          exact on (some v) held
        | some h =>
          rw [Operand.readHex_second closing blank digit]
          exact heldHex_map held [(h * 16 + v).toUInt8] _ ▸ on none _

theorem hex_follows {clock : Nat} {r : Bytes} (ahead : s.rest input = Byte.less :: r)
    (enough : (s.rest input).length ≤ clock) :
    Follows input (s.position + 1) (hex input clock) s (Operand.readHex none r) := by
  rw [ahead, List.length_cons] at enough
  refine .advance_one ahead fun inside rest => ?_
  have on := hexRest_follows none [] inside (rest ▸ enough)
  have plain : heldHex [] (Operand.readHex none r) = Operand.readHex none r := by
    cases Operand.readHex none r <;> rfl
  rwa [rest, plain] at on

end PdfContent.Lexer
