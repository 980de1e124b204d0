/-!
Searching and cutting lists of characters: a word in a text, the lines of a text, what follows the
last mark.
-/

namespace PdfContent.Text

def cut? (word : List Char) : List Char → Option (List Char × List Char)
  | [] => if word.isEmpty then some ([], []) else none
  | c :: cs =>
    if word.isPrefixOf (c :: cs) then some ([], (c :: cs).drop word.length)
    else (cut? word cs).map fun r => (c :: r.1, r.2)

theorem cut?_eq_some {word cs a b : List Char} (h : cut? word cs = some (a, b)) :
    cs = a ++ word ++ b := by
  induction cs generalizing a b with
  | nil =>
    simp only [cut?, List.isEmpty_iff] at h
    split at h
    · simp_all
    · simp at h
  | cons c cs ih =>
    simp only [cut?] at h
    split at h
    · rename_i hp
      simp only [Option.some.injEq, Prod.mk.injEq] at h
      obtain ⟨t, ht⟩ := List.isPrefixOf_iff_prefix.1 hp
      rw [← h.1, ← h.2, ← ht]
      simp
    · obtain ⟨⟨a', b'⟩, hc, he⟩ := Option.map_eq_some_iff.1 h
      obtain ⟨rfl, rfl⟩ := Prod.mk.inj he
      rw [ih hc]
      simp

theorem cut?_length {word cs a b : List Char} (h : cut? word cs = some (a, b)) :
    a.length + word.length + b.length = cs.length := by
  simp [cut?_eq_some h, Nat.add_assoc]

def pieces (mark : Char) : List Char → List (List Char)
  | [] => [[]]
  | c :: cs =>
    if c == mark then [] :: pieces mark cs
    else
      match pieces mark cs with
      | [] => [[c]]
      | piece :: rest => (c :: piece) :: rest

def afterLast (mark : Char) (cs : List Char) : List Char :=
  (cs.reverse.takeWhile (· != mark)).reverse

def beforeLast? (mark : Char) (cs : List Char) : Option (List Char) :=
  if mark ∈ cs then some ((cs.reverse.dropWhile (· != mark)).drop 1).reverse else none

def dropReturn (line : List Char) : List Char :=
  if line.getLast? == some '\r' then line.dropLast else line

/-- The lines of a text. A line ends with a line feed, which a carriage return may precede; the
last line may lack its end. -/
def linesFrom (line : List Char) : List Char → List (List Char)
  | [] => if line.isEmpty then [] else [line.reverse]
  | c :: cs =>
    if c == '\n' then dropReturn line.reverse :: linesFrom [] cs else linesFrom (c :: line) cs

def lines (cs : List Char) : List (List Char) := linesFrom [] cs

end PdfContent.Text
