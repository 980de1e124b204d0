import PdfContent.Proofs.FormNesting

/-!
Runs that do not come down. Reading comes down only where a font does, and a font is read only where
a content asks for it. Where the fonts asked for on the way from a content are sound, its tokens
give a model, whatever is kept and however deep forms are followed.
-/

namespace PdfContent.Document

variable {doc : Document} {c : Content}

theorem noting_crash_eq_none {α : Type} {result : Except Failure α × Memory}
    (calm : result.2.crash = none)
    (sound : ∀ cause, result.1 ≠ .error (.font (.crash cause))) :
    (Memory.noting result).2.crash = none := by
  rcases result with ⟨failure | a, m⟩
  · cases hf : failure.crash? with
    | none => simpa only [Memory.noting, hf, Option.or_none] using calm
    | some cause =>
      refine absurd ?_ (sound cause)
      unfold Failure.crash? at hf
      split at hf
      · exact congrArg _ (congrArg _ (congrArg _ (Option.some.inj hf)))
      · cases hf
  · exact calm

theorem font_calm (sound : doc.OwnFontsSound c) {name : String} (asks : doc.AsksFont c name)
    (opened : List (Option ObjectId)) {m : Memory} (calm : m.crash = none) :
    ((c.scope opened).font doc name m).2.crash = none := by
  have entry : Scope.fontEntry? doc (c.scope opened) name =
      Scope.fontEntry? doc { resources := c.resources } name := rfl
  unfold Scope.font
  rw [entry]
  cases he : Scope.fontEntry? doc { resources := c.resources } name with
  | none => exact calm
  | some found =>
    obtain ⟨id, o⟩ := found
    dsimp only
    cases hd : o.dictionary? with
    | none => exact calm
    | some d =>
      have whole : ∀ cause, doc.readFont d ≠ .error (.font (.crash cause)) :=
        fun cause => sound name id o d cause asks he hd
      refine noting_crash_eq_none ?_ fun cause => ?_
      · have kept := congrArg Frame.crash (loadKeptFont_frame doc id d m)
        exact kept.trans calm
      · exact loadKeptFont_cases
          (motive := fun result => result.1 ≠ .error (.font (.crash cause))) doc id d m
          (fun _ => whole cause) (fun _ _ _ _ => nofun) fun _ _ _ _ _ => nofun

theorem readContent_calm_of (sound : doc.OwnFontsSound c) {depth : Nat}
    {opened : List (Option ObjectId)} {m : Memory} (calm : m.crash = none)
    (find : ∀ name m, doc.Names c name → m.crash = none →
      (doc.findXObject depth opened c name m).2.crash = none) :
    (doc.readContent depth opened c m).2.crash = none := by
  rcases doc.readContent_memory depth opened c m with same | ⟨tokens, read, ht, front, same⟩
  · rw [same]
    exact calm
  · rw [same]
    exact readTokens_induction ht front doc.lasting_trivial trivial
      (P := fun _ f => f.crash = none) calm (fun _ _ _ calm _ _ _ => calm)
      (fun _ _ _ _ _ calm _ _ _ asks => font_calm sound asks opened calm)
      fun _ _ name m' _ calm _ names _ => find name m' names calm

theorem findXObject_calm (sound : doc.FontsSound c) {depth : Nat} {opened : List (Option ObjectId)}
    {name : String} {m : Memory} (names : doc.Names c name) (calm : m.crash = none) :
    (doc.findXObject depth opened c name m).2.crash = none := by
  induction depth using Nat.strongRecOn generalizing c opened name m with
  | ind depth ih =>
    -- What is entered is reached, so its fonts are sound as well.
    have inside : ∀ {below id entries data inner},
        doc.EntersForm opened c m id entries data inner → depth = below + 1 →
        (doc.readContent below (id :: opened) inner { m with truncated := false }).2.crash =
          none := by
      intro below id entries data inner he hd
      have sound' := sound.of_reaches (.enter .refl he.paints he.content)
      exact readContent_calm_of (sound' inner .refl) calm
        fun name m' hn hc => ih below (by omega) sound' hn hc
    refine findXObject_enters (motive := fun _ f => f.crash = none) names (fun _ _ _ => calm)
      (fun _ _ _ _ _ _ _ => calm) (fun _ _ _ _ _ _ _ => calm) (fun _ _ _ _ _ _ _ _ => calm)
      (fun _ _ _ _ _ _ _ _ => calm) (fun _ _ _ _ _ _ _ => calm) ?crash ?run
    case crash =>
      intro below id entries data inner cause after hd _ he hrun _
      have inside := inside he hd
      rw [hrun] at inside
      exact inside
    case run =>
      intro below id entries data inner model after hd _ hr
      have inside := inside hr.toEntersForm hd
      rw [hr.run] at inside
      exact ⟨inside, fun _ _ _ _ => inside⟩

theorem readContent_calm (sound : doc.FontsSound c) (depth : Nat)
    (opened : List (Option ObjectId)) {m : Memory} (calm : m.crash = none) :
    (doc.readContent depth opened c m).2.crash = none :=
  readContent_calm_of (sound c .refl) calm fun _ _ names calm => findXObject_calm sound names calm

theorem exists_readContent_eq_ok (sound : doc.FontsSound c) {tokens : List Token}
    (ht : Token.ofBytes c.data = .ok tokens) (depth : Nat) (opened : List (Option ObjectId))
    {m : Memory} (calm : m.crash = none) :
    ∃ model after, doc.readContent depth opened c m = (.ok model, after) := by
  have calm := readContent_calm sound depth opened calm
  cases hr : doc.readContent depth opened c m with
  | mk result after =>
    cases result with
    | ok model => exact ⟨model, after, rfl⟩
    | error failure =>
      rw [hr] at calm
      rcases readContent_eq_error hr with ⟨fault, hf, -⟩ | ⟨_, cause, -, -, crashed⟩
      · cases ht.symm.trans hf
      · cases crashed.symm.trans calm

end PdfContent.Document
