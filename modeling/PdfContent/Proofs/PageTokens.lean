import PdfContent.Document.PageTree
import PdfContent.Proofs.TokenLookahead
import PdfContent.Proofs.Traversals

/-!
The tokens of a page whose content is split over several streams. The streams are joined by
spaces, and a space ends every token but not a comment. So the streams are read one after the
other as long as none but the last of them leaves a comment open.
-/

namespace PdfContent

namespace Token

def operator? : Token → Option String
  | operator name => some name
  | _ => none

def operators (tokens : List Token) : List String := tokens.filterMap operator?

theorem operators_flatten (tokens : List (List Token)) :
    operators tokens.flatten = (tokens.map operators).flatten :=
  List.filterMap_flatten

end Token

namespace Document

theorem joinPart_nil (part : Bytes) : joinPart [] part = part := rfl

theorem joinPart_of_ne_nil {content : Bytes} (h : content ≠ []) (part : Bytes) :
    joinPart content part = content ++ Byte.space :: part := by
  cases content with
  | nil => exact absurd rfl h
  | cons b content => rfl

theorem foldl_joinPart {content : Bytes} (h : content ≠ []) (parts : List Bytes) :
    parts.foldl joinPart content = content ++ parts.flatMap (Byte.space :: ·) := by
  induction parts generalizing content with
  | nil => simp
  | cons part parts ih =>
    have hne : content ++ Byte.space :: part ≠ [] := by simp
    rw [List.foldl_cons, joinPart_of_ne_nil h, ih hne, List.flatMap_cons, List.append_assoc]

/-- Behind a stream every further one begins with a space. -/
theorem ofBytes_spaced {parts : List Bytes} {tokens : List (List Token)} {part : Bytes}
    {ts : List Token} (first : Token.ofBytes part = .ok ts)
    (rest : parts.mapM Token.ofBytes = .ok tokens)
    (closed : ∀ p ∈ (part :: parts).dropLast, ¬ Token.EndsInComment p) :
    Token.ofBytes (part ++ parts.flatMap (Byte.space :: ·)) = .ok (ts ++ tokens.flatten) := by
  induction parts generalizing part ts tokens with
  | nil =>
    cases rest
    simpa using first
  | cons p parts ih =>
    obtain ⟨us, tokens, hp, hrest, rfl⟩ := mapM_cons_eq_ok rest
    rw [List.dropLast_cons_cons, List.forall_mem_cons] at closed
    have htail := ih hp hrest closed.2
    rw [List.flatMap_cons, List.cons_append,
      Token.ofBytes_append_blank first closed.1 (by decide), htail]
    rfl

theorem ofBytes_joined {parts : List Bytes} {tokens : List (List Token)}
    (read : parts.mapM Token.ofBytes = .ok tokens)
    (closed : ∀ p ∈ parts.dropLast, ¬ Token.EndsInComment p) :
    Token.ofBytes (parts.foldl joinPart []) = .ok tokens.flatten := by
  induction parts generalizing tokens with
  | nil =>
    cases read
    exact Token.ofBytes_nil skipBlank_nil
  | cons part parts ih =>
    obtain ⟨ts, tokens, hp, hrest, rfl⟩ := mapM_cons_eq_ok read
    rw [List.foldl_cons, joinPart_nil]
    by_cases hnil : part = []
    · -- Nothing stands before the first stream that is not empty, not even a space.
      subst hnil
      rw [Token.ofBytes_nil skipBlank_nil] at hp
      cases hp
      have hclosed : ∀ p ∈ parts.dropLast, ¬ Token.EndsInComment p := by
        intro p hm
        cases parts with
        | nil => cases hm
        | cons q parts => exact closed p (List.mem_cons_of_mem _ hm)
      rw [List.flatten_cons, List.nil_append]
      exact ih hrest hclosed
    · rw [foldl_joinPart hnil]
      exact ofBytes_spaced hp hrest closed

/-- The joined streams of a page read as the tokens of each stream in turn. -/
theorem pageContent_tokens {doc : Document} {page : Dictionary} {items : List PdfObject}
    {parts : List Bytes} {tokens : List (List Token)}
    (contents : doc.get? page "Contents" = some (.array items))
    (decoded : items.mapM doc.contentPart = .ok parts)
    (read : parts.mapM Token.ofBytes = .ok tokens)
    (closed : ∀ part ∈ parts.dropLast, ¬ Token.EndsInComment part) :
    ∃ content, doc.pageContent page = .ok content ∧
      Token.ofBytes content = .ok tokens.flatten := by
  have hjoin : doc.pageContent page = .ok (parts.foldl joinPart []) := by
    simp only [pageContent, contents, decoded]
    rfl
  exact ⟨_, hjoin, ofBytes_joined read closed⟩

def ofParts (parts : List Bytes) : Document where
  objects := parts.zipIdx.map fun part => (⟨part.2, 0⟩, .stream [] part.1)

def itemsOf (parts : List Bytes) : List PdfObject :=
  parts.zipIdx.map fun part => .reference ⟨part.2, 0⟩

def pageOf (parts : List Bytes) : Dictionary :=
  [(Bytes.ofUtf8 "Contents", .array (itemsOf parts))]

theorem contents_pageOf (parts : List Bytes) :
    (ofParts parts).get? (pageOf parts) "Contents" = some (.array (itemsOf parts)) := by
  simp [get?, Dictionary.entry?, pageOf, resolve]

theorem exists_tokens {parts : List Bytes} {names : List (List String)}
    (h : (parts.mapM Token.ofBytes).toOption.map (·.map Token.operators) = some names) :
    ∃ tokens, parts.mapM Token.ofBytes = .ok tokens ∧ tokens.map Token.operators = names := by
  cases hr : parts.mapM Token.ofBytes with
  | error fault =>
    rw [hr] at h
    cases h
  | ok tokens =>
    rw [hr] at h
    exact ⟨tokens, rfl, Option.some.inj h⟩

def closedParts : List Bytes := [Bytes.ofUtf8 "q % saved\n/CS0 cs", Bytes.ofUtf8 "f Q % done"]

theorem pageContent_tokens_closedParts :
    ∃ tokens content, closedParts.mapM Token.ofBytes = .ok tokens ∧
      tokens.map Token.operators = [["q", "cs"], ["f", "Q"]] ∧
      (ofParts closedParts).pageContent (pageOf closedParts) = .ok content ∧
      Token.ofBytes content = .ok tokens.flatten := by
  have decoded : (itemsOf closedParts).mapM (ofParts closedParts).contentPart =
      .ok closedParts := rfl
  have closed : ∀ part ∈ closedParts.dropLast, ¬ Token.EndsInComment part := by
    intro part hm hc
    rw [closedParts, List.dropLast_cons_cons, List.dropLast_singleton, List.mem_singleton] at hm
    subst hm
    exact absurd (Token.percent_mem_lastLine hc) (by decide +kernel)
  have names : (closedParts.mapM Token.ofBytes).toOption.map (·.map Token.operators) =
      some [["q", "cs"], ["f", "Q"]] := by
    decide +kernel
  obtain ⟨tokens, read, hn⟩ := exists_tokens names
  obtain ⟨content, hc, ht⟩ := pageContent_tokens (contents_pageOf closedParts) decoded read closed
  exact ⟨tokens, content, read, hn, hc, ht⟩

def openParts : List Bytes := [Bytes.ofUtf8 "/GS gs % multiply", Bytes.ofUtf8 "0 0 9 9 re f"]

/-- Over the space the comment runs on into the next stream. -/
theorem pageContent_tokens_ne :
    (ofParts openParts).get? (pageOf openParts) "Contents" = some (.array (itemsOf openParts)) ∧
      (itemsOf openParts).mapM (ofParts openParts).contentPart = .ok openParts ∧
      ∃ tokens, openParts.mapM Token.ofBytes = .ok tokens ∧
        ¬ ∃ content, (ofParts openParts).pageContent (pageOf openParts) = .ok content ∧
          Token.ofBytes content = .ok tokens.flatten := by
  have decoded : (itemsOf openParts).mapM (ofParts openParts).contentPart = .ok openParts := rfl
  have names : (openParts.mapM Token.ofBytes).toOption.map (·.map Token.operators) =
      some [["gs"], ["re", "f"]] := by
    decide +kernel
  obtain ⟨tokens, read, hn⟩ := exists_tokens names
  refine ⟨contents_pageOf openParts, decoded, tokens, read, ?_⟩
  rintro ⟨content, hc, ht⟩
  have joined : ((ofParts openParts).pageContent (pageOf openParts)).toOption.bind
      (fun content => (Token.ofBytes content).toOption.map Token.operators) = some ["gs"] := by
    decide +kernel
  rw [hc] at joined
  dsimp only [Except.toOption, Option.bind_some] at joined
  rw [ht] at joined
  dsimp only [Except.toOption, Option.map_some] at joined
  rw [Token.operators_flatten, hn] at joined
  cases joined

end Document

end PdfContent
