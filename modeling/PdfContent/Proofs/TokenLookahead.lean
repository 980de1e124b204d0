import PdfContent.Proofs.Lookahead

/-!
How far the tokens of a stream look, and what a byte string adds to the tokens in front of it. A
stream read to its end leaves nothing behind but a gap, and the last line of that gap may be a
comment without an end: only then does what is appended after a space read differently from how it
reads alone. Behind a line end it never does.
-/

namespace PdfContent.Token

open Bytes (GoesOnAs)

theorem afterDataMark?_blank {b : UInt8} (h : Byte.isBlank b = true) (s : Bytes) :
    afterDataMark? (0x49 :: 0x44 :: b :: s) = some s := by
  have hw : Bytes.afterWord? (Bytes.ofLatin "ID") (0x49 :: 0x44 :: b :: s) = some (b :: s) :=
    Bytes.afterWord?_eq_some.2 rfl
  rw [afterDataMark?, hw]
  exact if_pos h

theorem afterDataMark?_split {s r : Bytes} (h : afterDataMark? s = some r) (hr : r ≠ []) :
    ∃ b, s = 0x49 :: 0x44 :: b :: r ∧ Byte.isBlank b = true := by
  unfold afterDataMark? at h
  split at h
  · rename_i b t ht
    split_ifs at h with hb
    cases h
    exact ⟨b, Bytes.afterWord?_eq_some.1 ht, hb⟩
  · cases h
    exact absurd rfl hr
  · cases h

theorem afterDataMark?_slash (s : Bytes) : afterDataMark? (Byte.slash :: s) = none := rfl

def endsMark (b : UInt8) : Bool := Byte.isBlank b || Byte.isDelimiter b

theorem endsMark_of_isGap : ∀ b, Byte.isGap b = true → endsMark b = true :=
  Byte.forall_of_fin (by decide +kernel)

theorem afterEndMark?_word {r : Bytes} (h : ∀ b ∈ r.head?, endsMark b = true) :
    afterEndMark? (0x45 :: 0x49 :: r) = some r := by
  have hw : Bytes.afterWord? (Bytes.ofLatin "EI") (0x45 :: 0x49 :: r) = some r :=
    Bytes.afterWord?_eq_some.2 rfl
  rw [afterEndMark?, hw]
  cases r with
  | nil => rfl
  | cons b r => exact if_pos (h b rfl)

theorem afterEndMark?_split {s r : Bytes} (h : afterEndMark? s = some r) :
    s = 0x45 :: 0x49 :: r ∧ ∀ b ∈ r.head?, endsMark b = true := by
  unfold afterEndMark? at h
  split at h
  · rename_i b t ht
    split_ifs at h with hb
    cases h
    refine ⟨Bytes.afterWord?_eq_some.1 ht, ?_⟩
    rintro c ⟨⟩
    exact hb
  · rename_i ht
    cases h
    refine ⟨Bytes.afterWord?_eq_some.1 ht, ?_⟩
    rintro c ⟨⟩
  · cases h

theorem afterEndMark?_eq_none {a b c : UInt8} {s : Bytes}
    (h : afterEndMark? (a :: b :: c :: s) = none) (t : Bytes) :
    afterEndMark? (a :: b :: c :: t) = none := by
  cases ht : afterEndMark? (a :: b :: c :: t) with
  | none => rfl
  | some r =>
    obtain ⟨heq, hends⟩ := afterEndMark?_split ht
    obtain ⟨rfl, rfl, rfl⟩ : a = 0x45 ∧ b = 0x49 ∧ c :: t = r := by simpa using heq
    have hword : afterEndMark? (0x45 :: 0x49 :: c :: s) = some (c :: s) :=
      afterEndMark?_word hends
    rw [hword] at h
    cases h

theorem spanData_end {s r : Bytes} (h : afterEndMark? s = some r) :
    spanData true s = some ([], r) := by
  obtain ⟨rfl, -⟩ := afterEndMark?_split h
  rw [spanData.eq_def]
  simp only [if_true, h]

theorem spanData_cons {atMark : Bool} {b : UInt8} {s : Bytes}
    (h : (if atMark then afterEndMark? (b :: s) else none) = none) :
    spanData atMark (b :: s) = (spanData (Byte.isBlank b) s).map fun r => (b :: r.1, r.2) := by
  rw [spanData.eq_def]
  simp only [h]

theorem spanData_lexeme {atMark : Bool} {s data r : Bytes}
    (h : spanData atMark s = some (data, r)) :
    ∃ a b x, s = a :: b :: (x ++ r) ∧
      ∀ t, GoesOnAs r t → spanData atMark (a :: b :: (x ++ t)) = some (data, t) := by
  fun_induction spanData atMark s generalizing data r with
  | case1 => cases h
  | case2 atMark b s r' hmark =>
    cases h
    cases atMark with
    | false => cases hmark
    | true =>
      obtain ⟨heq, hends⟩ := afterEndMark?_split (by simpa using hmark)
      refine ⟨0x45, 0x49, [], heq, fun t ht => spanData_end (afterEndMark?_word fun c hc => ?_)⟩
      rcases ht with ht | ht
      · exact hends c (ht ▸ hc)
      · exact endsMark_of_isGap c (ht c hc)
  | case3 atMark b s hmark ih =>
    obtain ⟨⟨data', r'⟩, hr, he⟩ := Option.map_eq_some_iff.1 h
    obtain ⟨rfl, rfl⟩ := Prod.mk.inj he
    obtain ⟨c, d, x, rfl, hx⟩ := ih hr
    refine ⟨b, c, d :: x, rfl, fun t ht => ?_⟩
    have hnone : (if atMark then afterEndMark? (b :: c :: d :: (x ++ t)) else none) = none := by
      cases atMark with
      | false => rfl
      | true => exact afterEndMark?_eq_none hmark _
    rw [List.cons_append, spanData_cons hnone, hx t ht]
    rfl

theorem readImage_eq (entries : List (String × Operand)) (s : Bytes) :
    readImage entries s =
      match skipBlank s with
      | [] => .error .imageWithoutData
      | b :: r =>
        match afterDataMark? (b :: r) with
        | some r =>
          match spanData true r with
          | some (data, r) => .ok ((entries.reverse, trimData data), r)
          | none => .error .imageWithoutEnd
        | none =>
          if b == Byte.slash then
            (Operand.read (skipBlank (Operand.readName r).2)).bind fun read =>
              readImage (((Operand.readName r).1, read.1) :: entries) read.2
          else .error .imageKeyExpected := by
  rw [readImage.eq_def]
  split
  · rename_i hs
    rw [hs]
  · rename_i b r hs
    rw [hs]
    dsimp only
    cases afterDataMark? (b :: r) with
    | some u => rfl
    | none =>
      dsimp only
      split_ifs with hb
      · split
        · rename_i fault h
          rw [h]
          rfl
        · rename_i value u h
          rw [h]
          rfl
      · rfl

theorem readImage_congr {s t : Bytes} (h : skipBlank s = skipBlank t)
    (held : List (String × Operand)) : readImage held s = readImage held t := by
  rw [readImage_eq, readImage_eq, h]

theorem readImage_data {entries : List (String × Operand)} {s r u data v : Bytes} {b : UInt8}
    (hs : skipBlank s = b :: r) (hmark : afterDataMark? (b :: r) = some u)
    (hdata : spanData true u = some (data, v)) :
    readImage entries s = .ok ((entries.reverse, trimData data), v) := by
  rw [readImage_eq, hs]
  simp only [hmark, hdata]

theorem readImage_entry (entries : List (String × Operand)) {s r u : Bytes} {value : Operand}
    (hs : skipBlank s = Byte.slash :: r)
    (hvalue : Operand.read (skipBlank (Operand.readName r).2) = .ok (value, u)) :
    readImage entries s = readImage (((Operand.readName r).1, value) :: entries) u := by
  rw [readImage_eq, hs]
  simp only [afterDataMark?_slash, BEq.rfl, if_true, hvalue]
  rfl

theorem read_skipBlank_lexeme {s r : Bytes} {value : Operand}
    (h : Operand.read (skipBlank s) = .ok (value, r)) :
    ∃ x, s = x ++ r ∧ x ≠ [] ∧
      ∀ t, GoesOnAs r t → Operand.read (skipBlank (x ++ t)) = .ok (value, t) := by
  have hlt := Operand.read_length h
  cases hs : skipBlank s with
  | nil =>
    rw [hs] at hlt
    exact absurd hlt (Nat.not_lt_zero _)
  | cons b s' =>
    rw [hs] at h hlt
    obtain ⟨y, rfl, hy⟩ := skipBlank_lexeme hs
    obtain ⟨x, hx, hread⟩ := Operand.read_lexeme h
    rw [hx] at hlt
    obtain ⟨b', x, rfl⟩ := List.exists_cons_of_ne_nil (Bytes.ne_nil_of_length_lt hlt)
    obtain ⟨rfl, rfl⟩ := List.cons.inj hx
    refine ⟨y ++ b :: x, by simp, by simp, fun t ht => ?_⟩
    have := hread t ht
    rw [List.append_assoc, List.cons_append, hy]
    exact this

theorem readImage_lexeme {entries : List (String × Operand)} {s r : Bytes}
    {image : List (String × Operand) × Bytes} (h : readImage entries s = .ok (image, r)) :
    ∃ x, s = x ++ r ∧ ∀ t, GoesOnAs r t → readImage entries (x ++ t) = .ok (image, t) := by
  fun_induction readImage entries s with
  | case1 => cases h
  | case2 entries s b s' hs u hmark data v hdata =>
    cases h
    obtain ⟨y, rfl, hy⟩ := skipBlank_lexeme hs
    obtain ⟨c, d, x, rfl, hx⟩ := spanData_lexeme hdata
    obtain ⟨w, heq, hw⟩ := afterDataMark?_split hmark (by simp)
    obtain ⟨rfl, rfl⟩ := List.cons.inj heq
    refine ⟨y ++ 0x49 :: 0x44 :: w :: c :: d :: x, by simp, fun t ht => ?_⟩
    rw [List.append_assoc]
    exact readImage_data (hy _) (afterDataMark?_blank hw _) (hx t ht)
  | case3 => cases h
  | case4 => cases h
  | case5 entries s b s' hs _ hb name value u hvalue ih =>
    obtain rfl : b = Byte.slash := by simpa using hb
    obtain ⟨y, rfl, hy⟩ := skipBlank_lexeme hs
    obtain ⟨n, hn, hname⟩ := Operand.readName_lexeme s'
    obtain ⟨z, rfl, hz⟩ := ih h
    obtain ⟨x, hx, hne, hread⟩ := read_skipBlank_lexeme hvalue
    refine ⟨y ++ Byte.slash :: (n ++ (x ++ z)), ?_, fun t ht => ?_⟩
    · rw [hn]
      change y ++ Byte.slash :: (n ++ name.2) = _
      rw [hx]
      simp
    · have hkey := hname (x ++ (z ++ t)) (by
        change GoesOnAs name.2 _
        rw [hx]
        exact GoesOnAs.of_ne_nil hne _ _)
      have hnext := readImage_entry entries (hy (n ++ (x ++ (z ++ t)))) (by
        rw [hkey]
        exact hread (z ++ t) (ht.append z))
      rw [hkey] at hnext
      simp only [List.append_assoc, List.cons_append]
      rw [hnext]
      exact hz t ht
  | case6 => cases h

theorem isStrayByte_of_isGap : ∀ b, Byte.isGap b = true → isStrayByte b = false :=
  Byte.forall_of_fin (by decide +kernel)

theorem readTokens_lexeme {b : UInt8} {s r : Bytes} {ts : List Token}
    (h : readTokens b s = .ok (ts, r)) :
    ∃ x, s = x ++ r ∧ ∀ t, GoesOnAs r t → readTokens b (x ++ t) = .ok (ts, t) := by
  simp only [readTokens] at h ⊢
  split_ifs at h ⊢ with h₁ h₂ h₃ h₄ h₅
  · cases h
    exact ⟨[], rfl, fun t _ => rfl⟩
  · split at h
    · rename_i r' hr
      cases h
      refine ⟨[Byte.greater], Bytes.after?_eq_some.1 hr, fun t _ => ?_⟩
      rw [List.singleton_append, Bytes.after?_self]
    · rename_i hn
      cases h
      refine ⟨[], rfl, fun t ht => ?_⟩
      have hn' : Bytes.after? Byte.greater t = none := by
        rw [Bytes.after?_eq_none_iff] at hn ⊢
        refine ht.head_not (fun c hc => ?_) hn
        by_contra hne
        obtain rfl : c = Byte.greater := by simpa using hne
        exact absurd hc (by decide)
      rw [List.nil_append, hn']
  · have hb : Byte.isRegular b = true := Operand.isRegular_of_isWordStart h₃
    rw [Operand.spanRegular_cons hb] at h h₄
    obtain ⟨⟨image, r'⟩, hr, he⟩ := map_eq_ok h
    obtain ⟨rfl, rfl⟩ := Prod.mk.inj he
    have hlt := readImage_length hr
    obtain ⟨x, hx, himage⟩ := readImage_lexeme hr
    dsimp only at hx hlt
    rw [hx] at hlt
    have hne : x ≠ [] := Bytes.ne_nil_of_length_lt hlt
    refine ⟨(Operand.spanRegular s).1 ++ x, ?_, fun t ht => ?_⟩
    · rw [List.append_assoc, ← hx]
      exact List.takeWhile_append_dropWhile.symm
    · have hspan := Operand.spanRegular_lexeme s (t := x ++ t) (by
        rw [hx]
        exact GoesOnAs.of_ne_nil hne _ _)
      rw [List.append_assoc, Operand.spanRegular_cons hb, hspan, if_pos h₄, himage t ht]
      rfl
  · have hb : Byte.isRegular b = true := Operand.isRegular_of_isWordStart h₃
    rw [Operand.spanRegular_cons hb] at h h₄
    cases h
    refine ⟨(Operand.spanRegular s).1, List.takeWhile_append_dropWhile.symm, fun t ht => ?_⟩
    rw [Operand.spanRegular_cons hb, Operand.spanRegular_lexeme s ht, if_neg h₄]
  · obtain ⟨⟨v, r'⟩, hr, he⟩ := map_eq_ok h
    obtain ⟨rfl, rfl⟩ := Prod.mk.inj he
    have hlt := Operand.read_length hr
    obtain ⟨x, hx, hread⟩ := Operand.read_lexeme hr
    rw [hx] at hlt
    obtain ⟨b', x, rfl⟩ := List.exists_cons_of_ne_nil (Bytes.ne_nil_of_length_lt hlt)
    obtain ⟨rfl, rfl⟩ := List.cons.inj hx
    refine ⟨x, rfl, fun t ht => ?_⟩
    have := hread t ht
    rw [List.cons_append] at this
    rw [this]
    rfl
  · cases h
    refine ⟨s.takeWhile isStrayByte, List.takeWhile_append_dropWhile.symm, fun t ht => ?_⟩
    obtain ⟨h₆, h₇⟩ := Bytes.span_lexeme isStrayByte_of_isGap s ht
    rw [h₆, h₇]

theorem readTokens_start {b : UInt8} (h : Operand.isStart b = true) (s : Bytes) :
    readTokens b s = (Operand.read (b :: s)).map fun r => ([.operand r.1], r.2) := by
  have all : ∀ b, Operand.isStart b = true → isLoneDelimiter b = false ∧
      (b == Byte.greater) = false ∧ Operand.isWordStart b = false :=
    Byte.forall_of_fin (by decide +kernel)
  obtain ⟨h₁, h₂, h₃⟩ := all b h
  simp only [readTokens, h₁, h₂, h₃, h]
  rfl

theorem ofBytes_eq (s : Bytes) :
    ofBytes s =
      match skipBlank s with
      | [] => .ok []
      | b :: r => (readTokens b r).bind fun read => (ofBytes read.2).map (read.1 ++ ·) := by
  rw [ofBytes.eq_def]
  split
  · rename_i hs
    rw [hs]
  · rename_i b r hs
    rw [hs]
    dsimp only
    split
    · rename_i fault h
      rw [h]
      rfl
    · rename_i ts u h
      rw [h]
      rfl

theorem ofBytes_nil {s : Bytes} (h : skipBlank s = []) : ofBytes s = .ok [] := by
  rw [ofBytes_eq, h]

theorem ofBytes_cons {s r u : Bytes} {b : UInt8} {ts : List Token} (hs : skipBlank s = b :: r)
    (h : readTokens b r = .ok (ts, u)) : ofBytes s = (ofBytes u).map (ts ++ ·) := by
  rw [ofBytes_eq, hs]
  dsimp only
  rw [h]
  rfl

theorem ofBytes_congr {s t : Bytes} (h : skipBlank s = skipBlank t) : ofBytes s = ofBytes t := by
  rw [ofBytes_eq, ofBytes_eq, h]

theorem map_append_nil (x : Except SyntaxFault (List Token)) :
    x.map (([] : List Token) ++ ·) = x := by
  cases x <;> rfl

theorem map_append_append (x : Except SyntaxFault (List Token)) (ts us : List Token) :
    (x.map (us ++ ·)).map (ts ++ ·) = x.map ((ts ++ us) ++ ·) := by
  cases x with
  | error fault => rfl
  | ok vs => simp [Except.map]

/-- A stream is its tokens and a gap at the end; the tokens are read whatever takes the place of
the gap. -/
theorem ofBytes_lexeme {a : Bytes} {ts : List Token} (h : ofBytes a = .ok ts) :
    ∃ x y, a = x ++ y ∧ skipBlank y = [] ∧
      ∀ t, GoesOnAs y t → ofBytes (x ++ t) = (ofBytes t).map (ts ++ ·) := by
  fun_induction ofBytes a generalizing ts with
  | case1 a ha =>
    cases h
    exact ⟨[], a, rfl, ha, fun t _ => (map_append_nil _).symm⟩
  | case2 => cases h
  | case3 a b r ha us u hu ih =>
    obtain ⟨vs, hv, rfl⟩ := map_eq_ok h
    obtain ⟨g, rfl, hg⟩ := skipBlank_lexeme ha
    obtain ⟨w, rfl, hw⟩ := readTokens_lexeme hu
    obtain ⟨x, y, rfl, hy, hx⟩ := ih hv
    refine ⟨g ++ b :: (w ++ x), y, by simp, hy, fun t ht => ?_⟩
    have hread : readTokens b (w ++ (x ++ t)) = .ok (us, x ++ t) := hw _ (ht.append x)
    have hskip : skipBlank (g ++ b :: (w ++ x) ++ t) = b :: (w ++ (x ++ t)) := by
      rw [List.append_assoc, List.cons_append, List.append_assoc]
      exact hg _
    rw [ofBytes_cons hskip hread, hx t ht, map_append_append]

/-- The last line of a stream holds a comment, and no line end closes it. -/
def EndsInComment (a : Bytes) : Prop :=
  ∃ before comment ts, a = before ++ Byte.percent :: comment ∧
    (∀ b ∈ comment, Byte.isLineEnd b = false) ∧ ofBytes before = .ok ts

def lastLine (a : Bytes) : Bytes := a.reverse.takeWhile fun b => !Byte.isLineEnd b

theorem percent_mem_lastLine {a : Bytes} (h : EndsInComment a) : Byte.percent ∈ lastLine a := by
  obtain ⟨before, comment, -, rfl, hc, -⟩ := h
  have hline : ∀ b ∈ comment.reverse ++ [Byte.percent], (!Byte.isLineEnd b) = true := by
    intro b hb
    rw [List.mem_append, List.mem_reverse, List.mem_singleton] at hb
    rcases hb with hb | rfl
    · rw [hc b hb]
      rfl
    · decide
  have hsplit : (before ++ Byte.percent :: comment).reverse =
      (comment.reverse ++ [Byte.percent]) ++ before.reverse := by simp
  rw [lastLine, hsplit, List.takeWhile_append_of_pos hline]
  simp

theorem skipBlank_append_comment {y c : Bytes} (hy : skipBlank y = [])
    (hc : ∀ b ∈ c, Byte.isLineEnd b = false) (t : Bytes) :
    skipBlank (y ++ Byte.percent :: (c ++ t)) = skipBlank (skipComment t) := by
  rcases skipBlank_split y with ⟨g, hg, hgap⟩ | ⟨-, g, d, ho⟩
  · rw [hy, List.append_nil] at hg
    rw [hg, hgap, skipBlank_comment, skipComment_append hc]
  · have hline : ∀ b ∈ d ++ Byte.percent :: c, Byte.isLineEnd b = false := by
      intro b hb
      rw [List.mem_append, List.mem_cons] at hb
      rcases hb with hb | rfl | hb
      · exact ho.comment b hb
      · decide
      · exact hc b hb
    have hassoc : y ++ Byte.percent :: (c ++ t) =
        g ++ Byte.percent :: ((d ++ Byte.percent :: c) ++ t) := by simp [ho.split]
    rw [hassoc, ho.before, skipBlank_comment, skipComment_append hline]

theorem ofBytes_append_comment {a : Bytes} {ts : List Token} (h : ofBytes a = .ok ts)
    (hc : EndsInComment a) (t : Bytes) :
    ofBytes (a ++ t) = (ofBytes (skipComment t)).map (ts ++ ·) := by
  obtain ⟨before, comment, us, rfl, hline, hb⟩ := hc
  obtain ⟨x, y, rfl, hy, hx⟩ := ofBytes_lexeme hb
  have hread : ∀ t, ofBytes (x ++ y ++ Byte.percent :: comment ++ t) =
      (ofBytes (skipComment t)).map (us ++ ·) := by
    intro t
    have hgoes : GoesOnAs y (y ++ Byte.percent :: (comment ++ t)) := by
      cases y with
      | nil =>
        right
        rintro b ⟨⟩
        decide
      | cons b y => exact .inl rfl
    have hassoc : x ++ y ++ Byte.percent :: comment ++ t =
        x ++ (y ++ Byte.percent :: (comment ++ t)) := by simp
    rw [hassoc, hx _ hgoes, ofBytes_congr (skipBlank_append_comment hy hline t)]
  have hsame : ts = us := by
    have := hread []
    have hend : skipComment [] = [] := rfl
    rw [List.append_nil, h, hend, ofBytes_nil skipBlank_nil] at this
    simpa [Except.map] using this
  rw [hread, hsame]

theorem ofBytes_append_blank {a : Bytes} {ts : List Token} (h : ofBytes a = .ok ts)
    (hc : ¬ EndsInComment a) {w : UInt8} (hw : Byte.isBlank w = true) (t : Bytes) :
    ofBytes (a ++ w :: t) = (ofBytes t).map (ts ++ ·) := by
  obtain ⟨x, y, rfl, hy, hx⟩ := ofBytes_lexeme h
  rcases skipBlank_split y with ⟨g, hg, hgap⟩ | ⟨-, g, d, ho⟩
  · rw [hy, List.append_nil] at hg
    have hgoes : GoesOnAs y (y ++ w :: t) := by
      cases y with
      | nil =>
        right
        rintro b ⟨⟩
        simp [Byte.isGap, hw]
      | cons b y => exact .inl rfl
    have hskip : skipBlank (y ++ w :: t) = skipBlank t := by
      rw [hg, hgap, skipBlank_of_isBlank hw]
    rw [List.append_assoc, hx _ hgoes, ofBytes_congr hskip]
  · refine absurd ?_ hc
    have hgoes : GoesOnAs y g := by
      rw [ho.split]
      cases g with
      | nil =>
        right
        rintro b ⟨⟩
      | cons b g => exact .inl rfl
    have hgnil : ofBytes g = .ok [] := by
      have := ho.before []
      rw [List.append_nil] at this
      exact ofBytes_nil (this.trans skipBlank_nil)
    refine ⟨x ++ g, d, ts, by simp [ho.split], ho.comment, ?_⟩
    rw [hx g hgoes, hgnil]
    simp [Except.map]

/-- A line end sets apart every stream behind it, also when the last line is a comment: the stream
behind adds the tokens it has alone, or fails as it does alone. -/
theorem ofBytes_append_lineEnd {a : Bytes} {ts : List Token} (h : ofBytes a = .ok ts) {e : UInt8}
    (he : Byte.isLineEnd e = true) (b : Bytes) :
    ofBytes (a ++ e :: b) = (ofBytes b).map (ts ++ ·) := by
  have hblank : Byte.isBlank e = true := isBlank_of_isLineEnd he
  by_cases hc : EndsInComment a
  · have hskip : skipBlank (e :: b) = skipBlank b := skipBlank_of_isBlank hblank b
    rw [ofBytes_append_comment h hc, skipComment_lineEnd he, ofBytes_congr hskip]
  · exact ofBytes_append_blank h hc hblank b

theorem ofBytes_append_lineEnd_openComment :
    ∃ ts us fault, ofBytes (Bytes.ofLatin "/GS gs % multiply") = .ok ts ∧
      ofBytes (Bytes.ofLatin "BI /W 1 ID x EI") = .ok us ∧
      ofBytes (Bytes.ofLatin "(f") = .error fault ∧
      ofBytes (Bytes.ofLatin "/GS gs % multiply\nBI /W 1 ID x EI") = .ok (ts ++ us) ∧
      ofBytes (Bytes.ofLatin "/GS gs % multiply\n(f") = .error fault := by
  have reads : ∀ s : Bytes, (ofBytes s).toOption.isSome = true → ∃ ts, ofBytes s = .ok ts := by
    intro s hs
    cases h : ofBytes s with
    | error fault => simp [h, Except.toOption] at hs
    | ok ts => exact ⟨ts, rfl⟩
  have fails : ∀ s : Bytes, (ofBytes s).toOption.isSome = false →
      ∃ fault, ofBytes s = .error fault := by
    intro s hs
    cases h : ofBytes s with
    | error fault => exact ⟨fault, rfl⟩
    | ok ts => simp [h, Except.toOption] at hs
  obtain ⟨ts, ht⟩ := reads (Bytes.ofLatin "/GS gs % multiply") (by decide +kernel)
  obtain ⟨us, hu⟩ := reads (Bytes.ofLatin "BI /W 1 ID x EI") (by decide +kernel)
  obtain ⟨fault, hf⟩ := fails (Bytes.ofLatin "(f") (by decide +kernel)
  have hline : Byte.isLineEnd Byte.lineFeed = true := by decide
  have image := ofBytes_append_lineEnd ht hline (Bytes.ofLatin "BI /W 1 ID x EI")
  have string := ofBytes_append_lineEnd ht hline (Bytes.ofLatin "(f")
  rw [hu] at image
  rw [hf] at string
  exact ⟨ts, us, fault, ht, hu, hf, image, string⟩

theorem ofBytes_append_space_iff {a : Bytes} {ts : List Token} (h : ofBytes a = .ok ts) :
    (∀ t, ofBytes (a ++ Byte.space :: t) = (ofBytes t).map (ts ++ ·)) ↔ ¬ EndsInComment a := by
  constructor
  · intro hall hc
    have hgap : Byte.isGap Byte.closeBracket = false := by decide
    have hread : readTokens Byte.closeBracket [] =
        .ok ([.stray (Bytes.toText [Byte.closeBracket])], []) := rfl
    have hone := ofBytes_cons (skipBlank_of_not_isGap hgap []) hread
    have hline : skipComment [Byte.space, Byte.closeBracket] = [] := rfl
    -- The comment swallows a stray bracket behind the space.
    have hlost := ofBytes_append_comment h hc [Byte.space, Byte.closeBracket]
    rw [hall, hone, hline, ofBytes_nil skipBlank_nil] at hlost
    simp [Except.map] at hlost
  · intro hc t
    exact ofBytes_append_blank h hc (by decide) t

end PdfContent.Token
