import PdfContent.Bytes

/-!
Blanks and comments between tokens. A comment runs from a percent sign to the end of its line and
counts as a blank.
-/

namespace PdfContent

def skipComment (s : Bytes) : Bytes := s.dropWhile fun b => !Byte.isLineEnd b

theorem dropWhile_length_le (p : UInt8 → Bool) (s : Bytes) :
    (s.dropWhile p).length ≤ s.length := by
  have := congrArg List.length (List.takeWhile_append_dropWhile (p := p) (l := s))
  simp only [List.length_append] at this
  omega

theorem skipComment_length_le (s : Bytes) : (skipComment s).length ≤ s.length :=
  dropWhile_length_le _ s

def skipBlank : Bytes → Bytes
  | [] => []
  | b :: s =>
    if Byte.isBlank b then skipBlank s
    else if b == Byte.percent then skipBlank (skipComment s)
    else b :: s
termination_by s => s.length
decreasing_by
  · simp
  · have := skipComment_length_le s
    simp only [List.length_cons]
    omega

theorem skipBlank_length_le (s : Bytes) : (skipBlank s).length ≤ s.length := by
  fun_induction skipBlank s with
  | case1 => simp
  | case2 b s _ ih => simp only [List.length_cons]; omega
  | case3 b s _ _ ih =>
    have := skipComment_length_le s
    simp only [List.length_cons]
    omega
  | case4 => simp

end PdfContent
