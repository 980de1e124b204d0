import PdfContent.Proofs.WrittenSpaces

/-!
How deep decoding a color space goes. Color space arrays, and the alternates of ICC profiles, may
refer to one another in any way. Decoding one object asks for at most one other, and what stands
below a nesting of eight is not looked at. Where the others fail with what stands below them, an ICC
based space does without its alternate.
-/

namespace PdfContent

theorem ColorSpace.levels_of_ofFamilyName? {name : String} {space : ColorSpace}
    (h : ofFamilyName? name = some space) : space.levels ≤ 1 := by
  unfold ofFamilyName? at h
  split_ifs at h <;> cases h <;> exact le_rfl

namespace Document

def attempt {α : Type} (load : SpaceLoading α) : SpaceLoading (Except ResourceFault α) :=
  fun separations =>
    let result := load.run separations
    (.ok result.1, result.2)

/-- What decoding comes to at one object: a result, or another object that is to be decoded and what
to make of the outcome. -/
inductive SpaceStep where
  | done (load : SpaceLoading ColorSpace)
  | asks (under : PdfObject)
      (finish : Except ResourceFault ColorSpace → SpaceLoading ColorSpace)

namespace SpaceStep

def given {α : Type} (value : Option α) (fault : ResourceFault) (next : α → SpaceStep) :
    SpaceStep :=
  match value with
  | some v => next v
  | none => .done (throw fault)

def needing (under : PdfObject) (finish : ColorSpace → SpaceLoading ColorSpace) : SpaceStep :=
  .asks under fun outcome => MonadExcept.ofExcept outcome >>= finish

def load (step : SpaceStep) (read : PdfObject → SpaceLoading ColorSpace) :
    SpaceLoading ColorSpace :=
  match step with
  | done load => load
  | asks under finish => attempt (read under) >>= finish

end SpaceStep

def profileIn? (doc : Document) (entries : Dictionary) (data : Bytes) : Option IccProfile :=
  (doc.streamData entries data).toOption.bind IccProfile.ofBytes?

def finishIcc (doc : Document) (entries : Dictionary) (data : Bytes)
    (alternate : Option ColorSpace) : SpaceLoading ColorSpace := do
  let profile := doc.profileIn? entries data
  let components ← orFail (doc.iccComponents? entries profile alternate) .componentsMissing
  return .iccBased components alternate profile

def iccStep (doc : Document) (entries : Dictionary) (data : Bytes) : SpaceStep :=
  match doc.get? entries "Alternate" with
  | some under => .asks under fun outcome => doc.finishIcc entries data outcome.toOption
  | none => .done (doc.finishIcc entries data none)

def familyStep (doc : Document) (items : List PdfObject) (family : String) : SpaceStep :=
  let item (index : Nat) (next : PdfObject → SpaceStep) : SpaceStep :=
    .given (items[index]?.map doc.resolve) (.colorSpaceTooShort family) next
  if family ∈ ["DeviceGray", "DeviceRGB", "DeviceCMYK"] then
    .done (return (ColorSpace.ofFamilyName? family).getD .deviceGray)
  else if family == "CalGray" then .done (return .calGray)
  else if family == "CalRGB" then .done (return .calRgb)
  else if family == "Lab" then .done (return .lab)
  else if family == "ICCBased" then
    item 1 fun
      | .stream entries data => doc.iccStep entries data
      | _ => .done (throw .profileMissing)
  else if family == "Indexed" || family == "I" then
    item 1 fun under => .needing under fun base => do
      return .indexed base (highestIndex (← doc.item items 2 family))
  else if family == "Separation" then
    item 1 fun name => .given name.name? .colorantMissing fun colorant =>
      item 2 fun under => .needing under fun alternate => do
        let space := ColorSpace.separation colorant alternate
        remember colorant space
        return space
  else if family == "DeviceN" then
    item 1 fun array => .given array.array? .colorantsMissing fun colorants =>
      item 2 fun under => .needing under fun alternate =>
        return .deviceN (doc.names colorants) alternate
  else if family == "Pattern" then
    match items[1]? with
    | some under => .needing under fun base => return .pattern (some base)
    | none => .done (return .pattern none)
  else .done (throw (.colorSpaceUnsupported family))

def spaceStep (doc : Document) (o : PdfObject) : SpaceStep :=
  match doc.resolve o with
  | .name n => .done (orFail (ColorSpace.ofFamilyName? n.toText) (.colorSpaceUnknown n.toText))
  | .array items =>
    match (items.head?.map doc.resolve).bind PdfObject.name? with
    | some family => doc.familyStep items family
    | none => .done (throw .colorSpaceWithoutFamily)
  | _ => .done (throw .colorSpaceNotObject)

section Loading

variable {α β : Type}

theorem attempt_bind_ofExcept (load : SpaceLoading α) (next : α → SpaceLoading β) :
    (attempt load >>= fun outcome => MonadExcept.ofExcept outcome >>= next) = load >>= next := by
  funext s
  change (ExceptT.run _ : StateM _ _) s = (ExceptT.run _ : StateM _ _) s
  rw [run_bind, run_bind]
  change (MonadExcept.ofExcept (load.run s).1 >>= next : SpaceLoading β).run _ = _
  cases load.run s with
  | mk result after => cases result <;> rfl

theorem attempt_bind_toOption (load : SpaceLoading α) (next : Option α → SpaceLoading β) :
    (attempt load >>= fun outcome => next outcome.toOption) = ifUsable load >>= next := rfl

variable {read : PdfObject → SpaceLoading ColorSpace}

theorem load_needing (under : PdfObject) (finish : ColorSpace → SpaceLoading ColorSpace) :
    (SpaceStep.needing under finish).load read = read under >>= finish :=
  attempt_bind_ofExcept (read under) finish

theorem load_given {value : Option α} {fault : ResourceFault} {next : α → SpaceStep} :
    (SpaceStep.given value fault next).load read =
      orFail value fault >>= fun v => (next v).load read := by
  cases value <;> rfl

theorem eq_load_ite {c : Prop} [Decidable c] {yes no : SpaceLoading ColorSpace}
    {yes' no' : SpaceStep} (h : yes = yes'.load read) (h' : no = no'.load read) :
    (if c then yes else no) = (if c then yes' else no').load read := by
  split_ifs
  · exact h
  · exact h'

end Loading

theorem eq_load_iccStep (doc : Document) (entries : Dictionary) (data : Bytes)
    (read : PdfObject → SpaceLoading ColorSpace) :
    (match doc.get? entries "Alternate" with
      | some o => ifUsable (read o) >>= doc.finishIcc entries data
      | none => pure none >>= doc.finishIcc entries data) =
      (doc.iccStep entries data).load read := by
  unfold iccStep
  cases doc.get? entries "Alternate" with
  | none => rfl
  | some under => exact (attempt_bind_toOption (read under) (doc.finishIcc entries data)).symm

theorem readColorSpace_succ (doc : Document) (levels : Nat) (o : PdfObject) :
    doc.readColorSpace (levels + 1) o = (doc.spaceStep o).load (doc.readColorSpace levels) := by
  rw [readColorSpace, spaceStep]
  cases doc.resolve o with
  | array items =>
    dsimp only
    cases (items.head?.map doc.resolve).bind PdfObject.name? with
    | none => rfl
    | some family =>
      unfold familyStep
      refine eq_load_ite rfl (eq_load_ite rfl (eq_load_ite rfl (eq_load_ite rfl
        (eq_load_ite ?icc (eq_load_ite ?indexed (eq_load_ite ?separation
          (eq_load_ite ?deviceN (eq_load_ite ?pattern rfl))))))))
      case icc =>
        rw [load_given]
        refine bind_congr fun o => ?_
        cases o with
        | stream entries data => exact doc.eq_load_iccStep entries data _
        | _ => rfl
      case indexed => simp only [load_given, load_needing, item]
      case separation => simp only [load_given, load_needing, item]
      case deviceN => simp only [load_given, load_needing, item]
      case pattern =>
        cases items[1]? with
        | none => rfl
        | some under => exact (load_needing under _).symm
  | _ => rfl

theorem run_attempt_bind {α β : Type} (load : SpaceLoading α)
    (next : Except ResourceFault α → SpaceLoading β) (s : Cache String ColorSpace) :
    (attempt load >>= next).run s = (next (load.run s).1).run (load.run s).2 := rfl

/-- Decoding an object at a nesting looks at these objects, each at its nesting, and comes to a
loading. Nothing bounds beforehand how far it goes: only what is nested deeper than eight is refused
unseen. -/
inductive Decodes (doc : Document) :
    Nat → PdfObject → List (Nat × PdfObject) → SpaceLoading ColorSpace → Prop
  | tooDeep {nesting : Nat} {o : PdfObject} (deep : 8 < nesting) :
      Decodes doc nesting o [] (throw .colorSpaceTooDeep)
  | done {nesting : Nat} {o : PdfObject} {load : SpaceLoading ColorSpace} (level : nesting ≤ 8)
      (step : doc.spaceStep o = .done load) : Decodes doc nesting o [(nesting, o)] load
  | asks {nesting : Nat} {o under : PdfObject} {calls : List (Nat × PdfObject)}
      {finish : Except ResourceFault ColorSpace → SpaceLoading ColorSpace}
      {load : SpaceLoading ColorSpace} (level : nesting ≤ 8)
      (step : doc.spaceStep o = .asks under finish)
      (below : Decodes doc (nesting + 1) under calls load) :
      Decodes doc nesting o ((nesting, o) :: calls) (attempt load >>= finish)

theorem decodes_readColorSpace (doc : Document) (levels nesting : Nat) (o : PdfObject)
    (sum : nesting + levels = nestingLimit) :
    ∃ calls, doc.Decodes nesting o calls (doc.readColorSpace levels o) := by
  induction levels generalizing nesting o with
  | zero => exact ⟨[], .tooDeep (by simp only [nestingLimit] at sum; omega)⟩
  | succ levels ih =>
    have level : nesting ≤ 8 := by simp only [nestingLimit] at sum; omega
    rw [readColorSpace_succ]
    cases step : doc.spaceStep o with
    | done load => exact ⟨_, .done level step⟩
    | asks under finish =>
      obtain ⟨calls, below⟩ := ih (nesting + 1) under (by omega)
      exact ⟨_, .asks level step below⟩

namespace Decodes

variable {doc : Document} {nesting : Nat} {o : PdfObject} {calls calls' : List (Nat × PdfObject)}
  {load load' : SpaceLoading ColorSpace}

theorem unique (h : doc.Decodes nesting o calls load) (h' : doc.Decodes nesting o calls' load') :
    calls = calls' ∧ load = load' := by
  induction h generalizing calls' load' with
  | tooDeep deep =>
    cases h' with
    | tooDeep _ => exact ⟨rfl, rfl⟩
    | done level _ => omega
    | asks level _ _ => omega
  | done level step =>
    cases h' with
    | tooDeep deep => omega
    | done _ step' =>
      cases step.symm.trans step'
      exact ⟨rfl, rfl⟩
    | asks _ step' _ => cases step.symm.trans step'
  | asks level step _ ih =>
    cases h' with
    | tooDeep deep => omega
    | done _ step' => cases step.symm.trans step'
    | asks _ step' below =>
      cases step.symm.trans step'
      obtain ⟨rfl, rfl⟩ := ih below
      exact ⟨rfl, rfl⟩

theorem nestings (h : doc.Decodes nesting o calls load) :
    calls.map Prod.fst = List.range' nesting calls.length := by
  induction h with
  | tooDeep _ => rfl
  | done _ _ => rfl
  | asks _ _ _ ih => rw [List.map_cons, ih, List.length_cons, List.range'_succ]

theorem le_of_mem (h : doc.Decodes nesting o calls load) {call : Nat × PdfObject}
    (mem : call ∈ calls) : call.1 ≤ 8 := by
  induction h with
  | tooDeep _ => cases mem
  | done level _ =>
    cases List.mem_singleton.1 mem
    exact level
  | asks level _ _ ih =>
    cases mem with
    | head => exact level
    | tail _ mem => exact ih mem

end Decodes

section Bind

variable {α β : Type}

theorem exists_of_run_bind {load : SpaceLoading α} {next : α → SpaceLoading β}
    {s : Cache String ColorSpace} {b : β} (h : ((load >>= next).run s).1 = .ok b) :
    ∃ a middle, ((next a).run middle).1 = .ok b := by
  rw [run_bind] at h
  cases loaded : load.run s with
  | mk result middle =>
    rw [loaded] at h
    cases result with
    | error fault => cases h
    | ok a => exact ⟨a, middle, h⟩

def Fails (load : SpaceLoading α) : Prop := ∀ s, ∃ fault, (load.run s).1 = .error fault

theorem Fails.bind {load : SpaceLoading α} (h : Fails load) (next : α → SpaceLoading β) :
    Fails (load >>= next) := by
  intro s
  obtain ⟨fault, failed⟩ := h s
  rw [run_bind]
  cases loaded : load.run s with
  | mk result middle =>
    rw [loaded] at failed
    cases failed
    exact ⟨fault, rfl⟩

end Bind

def AtMost (levels : Nat) (load : SpaceLoading ColorSpace) : Prop :=
  ∀ s space, (load.run s).1 = .ok space → space.levels ≤ levels

namespace AtMost

variable {levels : Nat}

theorem pure {space : ColorSpace} (h : space.levels ≤ levels) :
    AtMost levels (Pure.pure space) := by
  intro s space' loaded
  cases loaded
  exact h

theorem fault (fault : ResourceFault) : AtMost levels (throw fault) := by
  intro s space loaded
  cases loaded

theorem bind {α : Type} {load : SpaceLoading α} {next : α → SpaceLoading ColorSpace}
    (h : ∀ a, AtMost levels (next a)) : AtMost levels (load >>= next) := by
  intro s space loaded
  obtain ⟨a, middle, rest⟩ := exists_of_run_bind loaded
  exact h a middle space rest

theorem orFail {value : Option ColorSpace} (h : ∀ space, value = some space → space.levels ≤ levels)
    (missing : ResourceFault) : AtMost levels (Document.orFail value missing) := by
  cases value with
  | none => exact .fault missing
  | some space => exact .pure (h space rfl)

end AtMost

def levelsBelow (outcome : Except ResourceFault ColorSpace) : Nat :=
  outcome.toOption.elim 0 ColorSpace.levels

def SpaceStep.Shallow : SpaceStep → Prop
  | .done load => AtMost 1 load
  | .asks _ finish => ∀ outcome, AtMost (levelsBelow outcome + 1) (finish outcome)

theorem SpaceStep.Shallow.given {α : Type} {value : Option α} {fault : ResourceFault}
    {next : α → SpaceStep} (h : ∀ v, (next v).Shallow) : (given value fault next).Shallow := by
  cases value with
  | none => exact AtMost.fault fault
  | some v => exact h v

theorem SpaceStep.Shallow.needing {under : PdfObject}
    {finish : ColorSpace → SpaceLoading ColorSpace}
    (h : ∀ base, AtMost (base.levels + 1) (finish base)) : (needing under finish).Shallow := by
  intro outcome
  cases outcome with
  | error fault => exact AtMost.fault fault
  | ok base => exact h base

theorem SpaceStep.Shallow.ite {c : Prop} [Decidable c] {yes no : SpaceStep} (h : yes.Shallow)
    (h' : no.Shallow) : (if c then yes else no).Shallow := by
  by_cases holds : c
  · rwa [if_pos holds]
  · rwa [if_neg holds]

theorem SpaceStep.Shallow.load {step : SpaceStep} (h : step.Shallow) {levels : Nat}
    {read : PdfObject → SpaceLoading ColorSpace} (below : ∀ o, AtMost levels (read o)) :
    AtMost (levels + 1) (step.load read) := by
  intro s space loaded
  cases step with
  | done load => exact (h s space loaded).trans (Nat.le_add_left 1 levels)
  | asks under finish =>
    rw [SpaceStep.load, run_attempt_bind] at loaded
    have few : levelsBelow ((read under).run s).1 ≤ levels := by
      cases outcome : ((read under).run s).1 with
      | error fault => exact Nat.zero_le levels
      | ok base => exact below under s base outcome
    exact (h _ _ space loaded).trans (Nat.add_le_add_right few 1)

theorem finishIcc_atMost (doc : Document) (entries : Dictionary) (data : Bytes)
    (alternate : Option ColorSpace) :
    AtMost (alternate.elim 0 ColorSpace.levels + 1) (doc.finishIcc entries data alternate) := by
  refine .bind fun components => .pure ?_
  cases alternate <;> exact le_rfl

theorem familyStep_shallow (doc : Document) (items : List PdfObject) (family : String) :
    (doc.familyStep items family).Shallow := by
  unfold familyStep
  refine .ite ?device (.ite (AtMost.pure le_rfl) (.ite (AtMost.pure le_rfl)
    (.ite (AtMost.pure le_rfl) (.ite ?icc (.ite ?indexed (.ite ?separation (.ite ?deviceN
      (.ite ?pattern (AtMost.fault _)))))))))
  case device =>
    refine AtMost.pure ?_
    cases known : ColorSpace.ofFamilyName? family with
    | none => exact le_rfl
    | some space => exact ColorSpace.levels_of_ofFamilyName? known
  case icc =>
    refine .given fun o => ?_
    cases o with
    | stream entries data =>
      change (doc.iccStep entries data).Shallow
      unfold iccStep
      cases doc.get? entries "Alternate" with
      | none => exact doc.finishIcc_atMost entries data none
      | some under =>
        exact fun outcome => doc.finishIcc_atMost entries data outcome.toOption
    | _ => exact AtMost.fault _
  case indexed => exact .given fun under => .needing fun base => .bind fun count => .pure le_rfl
  case separation =>
    exact .given fun name => .given fun colorant => .given fun under => .needing fun alternate =>
      .bind fun _ => .pure le_rfl
  case deviceN =>
    exact .given fun array => .given fun colorants => .given fun under => .needing fun alternate =>
      .pure le_rfl
  case pattern =>
    cases items[1]? with
    | none => exact AtMost.pure le_rfl
    | some under => exact .needing fun base => .pure le_rfl

theorem spaceStep_shallow (doc : Document) (o : PdfObject) : (doc.spaceStep o).Shallow := by
  unfold spaceStep
  cases doc.resolve o with
  | name n => exact AtMost.orFail (fun _ => ColorSpace.levels_of_ofFamilyName?) _
  | array items =>
    dsimp only
    cases (items.head?.map doc.resolve).bind PdfObject.name? with
    | none => exact AtMost.fault _
    | some family => exact doc.familyStep_shallow items family
  | _ => exact AtMost.fault _

theorem readColorSpace_atMost (doc : Document) (levels : Nat) (o : PdfObject) :
    AtMost levels (doc.readColorSpace levels o) := by
  induction levels generalizing o with
  | zero => exact AtMost.fault _
  | succ levels ih =>
    rw [readColorSpace_succ]
    exact (doc.spaceStep_shallow o).load ih

def baseIndex? (family : String) : Option Nat :=
  if family ∈ ["Indexed", "I", "Pattern"] then some 1
  else if family ∈ ["Separation", "DeviceN"] then some 2
  else none

/-- An indexed, separation, device or pattern space whose array names the space below it. -/
def RestsOn (doc : Document) (o under : PdfObject) : Prop :=
  ∃ items family index, doc.resolve o = .array items ∧
    (items.head?.map doc.resolve).bind PdfObject.name? = some family ∧
    baseIndex? family = some index ∧ items[index]? = some under

/-- Each space on a chain rests on the next, without end. -/
def Endless (doc : Document) (o : PdfObject) : Prop :=
  ∃ chain : Nat → PdfObject, chain 0 = o ∧ ∀ n, doc.RestsOn (chain n) (chain (n + 1))

def SpaceStep.Needs (doc : Document) (under : PdfObject) : SpaceStep → Prop
  | .done load => Fails load
  | .asks o finish => doc.resolve o = doc.resolve under ∧ ∀ fault, Fails (finish (.error fault))

namespace SpaceStep.Needs

variable {doc : Document} {under : PdfObject}

theorem given {α : Type} {value : Option α} {fault : ResourceFault} {next : α → SpaceStep}
    (h : ∀ v, value = some v → (next v).Needs doc under) :
    (SpaceStep.given value fault next).Needs doc under := by
  cases value with
  | none => exact fun s => ⟨fault, rfl⟩
  | some v => exact h v rfl

theorem needing {o : PdfObject} (same : doc.resolve o = doc.resolve under)
    (finish : ColorSpace → SpaceLoading ColorSpace) :
    (SpaceStep.needing o finish).Needs doc under :=
  ⟨same, fun fault _ => ⟨fault, rfl⟩⟩

end SpaceStep.Needs

theorem spaceStep_needs {doc : Document} {o under : PdfObject} (h : doc.RestsOn o under) :
    (doc.spaceStep o).Needs doc under := by
  obtain ⟨items, family, index, array, named, base, below⟩ := h
  have resolved : ∀ v, items[index]?.map doc.resolve = some v →
      doc.resolve v = doc.resolve under := by
    rw [below]
    rintro v ⟨⟩
    exact doc.resolve_resolve under
  unfold spaceStep
  rw [array]
  dsimp only
  rw [named]
  dsimp only
  unfold baseIndex? at base
  split_ifs at base with one two
  · cases base
    simp only [List.mem_cons, List.not_mem_nil, or_false] at one
    rcases one with rfl | rfl | rfl
    · exact .given fun v hv => .needing (resolved v hv) _
    · exact .given fun v hv => .needing (resolved v hv) _
    · rw [show doc.familyStep items "Pattern" = _ from by rw [familyStep]]
      simp +decide only [if_false, if_true]
      rw [below]
      exact .needing rfl _
  · cases base
    simp only [List.mem_cons, List.not_mem_nil, or_false] at two
    rcases two with rfl | rfl
    · exact .given fun _ _ => .given fun _ _ => .given fun v hv => .needing (resolved v hv) _
    · exact .given fun _ _ => .given fun _ _ => .given fun v hv => .needing (resolved v hv) _

theorem readColorSpace_fails {doc : Document} {o : PdfObject} (h : doc.Endless o) (levels : Nat) :
    Fails (doc.readColorSpace levels o) := by
  obtain ⟨chain, rfl, rests⟩ := h
  induction levels generalizing chain with
  | zero => exact fun s => ⟨_, rfl⟩
  | succ levels ih =>
    have needs := spaceStep_needs (rests 0)
    rw [readColorSpace_succ]
    cases step : doc.spaceStep (chain 0) with
    | done load =>
      rw [step] at needs
      exact needs
    | asks under finish =>
      rw [step] at needs
      intro s
      obtain ⟨fault, failed⟩ := ih (fun n => chain (n + 1)) (fun n => rests (n + 1)) s
      rw [← readColorSpace_resolve, ← needs.1, readColorSpace_resolve] at failed
      rw [SpaceStep.load, run_attempt_bind, failed]
      exact needs.2 fault _

def knownComponents? (doc : Document) (entries : Dictionary) (data : Bytes) : Option Nat :=
  (doc.size? entries "N").or ((doc.profileIn? entries data).bind IccProfile.components)

theorem run_finishIcc {doc : Document} {entries : Dictionary} {data : Bytes} {n : Nat}
    (known : doc.knownComponents? entries data = some n) (alternate : Option ColorSpace)
    (s : Cache String ColorSpace) :
    (doc.finishIcc entries data alternate).run s =
      (.ok (.iccBased n alternate (doc.profileIn? entries data)), s) := by
  have components :
      doc.iccComponents? entries (doc.profileIn? entries data) alternate = some n := by
    rw [knownComponents?] at known
    rw [iccComponents?, known, Option.some_or]
  unfold finishIcc
  dsimp only
  rw [components]
  rfl

section IccBased

variable {doc : Document} {o first profile under : PdfObject} {rest : List PdfObject}
  {entries : Dictionary} {data : Bytes} {n : Nat}
  (array : doc.resolve o = .array (first :: profile :: rest))
  (family : (doc.resolve first).name? = some "ICCBased")
  (held : doc.resolve profile = .stream entries data)
  (found : doc.get? entries "Alternate" = some under)
  (known : doc.knownComponents? entries data = some n)

include array family held in
theorem spaceStep_iccBased : doc.spaceStep o = doc.iccStep entries data := by
  unfold spaceStep
  rw [array]
  dsimp only
  rw [List.head?_cons, Option.map_some, Option.bind_some, family]
  dsimp only
  unfold familyStep
  simp +decide only [if_false, if_true]
  rw [List.getElem?_cons_succ, List.getElem?_cons_zero, Option.map_some, held]
  rfl

include array family held found known

theorem run_readColorSpace_iccBased (levels : Nat) (s : Cache String ColorSpace) :
    let below := (doc.readColorSpace levels under).run s
    (doc.readColorSpace (levels + 1) o).run s =
      (.ok (.iccBased n below.1.toOption (doc.profileIn? entries data)), below.2) := by
  intro below
  rw [readColorSpace_succ, spaceStep_iccBased array family held, iccStep, found, SpaceStep.load,
    run_attempt_bind]
  exact run_finishIcc known below.1.toOption below.2

theorem readColorSpace_iccBased {levels : Nat} {s after : Cache String ColorSpace}
    {fault : ResourceFault}
    (unusable : (doc.readColorSpace levels under).run s = (.error fault, after)) :
    (doc.readColorSpace (levels + 1) o).run s =
      (.ok (.iccBased n none (doc.profileIn? entries data)), after) := by
  have read := run_readColorSpace_iccBased array family held found known levels s
  rwa [unusable] at read

theorem levels_of_ownAlternate (own : doc.resolve under = doc.resolve o) (levels : Nat)
    (s : Cache String ColorSpace) :
    ∃ space, ((doc.readColorSpace (levels + 1) o).run s).1 = .ok space ∧
      space.levels = levels + 1 := by
  have same : ∀ levels, doc.readColorSpace levels under = doc.readColorSpace levels o := by
    intro levels
    rw [← readColorSpace_resolve, own, readColorSpace_resolve]
  induction levels with
  | zero =>
    have tooDeep : (doc.readColorSpace 0 under).run s = (.error .colorSpaceTooDeep, s) := rfl
    have read := readColorSpace_iccBased array family held found known tooDeep
    exact ⟨_, congrArg Prod.fst read, rfl⟩
  | succ levels ih =>
    obtain ⟨space, below, deep⟩ := ih
    have read := run_readColorSpace_iccBased array family held found known (levels + 1) s
    dsimp only at read
    rw [same, below] at read
    exact ⟨_, congrArg Prod.fst read, congrArg (· + 1) deep⟩

end IccBased

/-- However color spaces refer to one another, decoding one looks at one object on each level, at
nine at most, and comes to a result; a space has nine levels at most. A space that rests on others
without end is refused. An ICC based space whose alternate cannot be decoded, as when it stands too
deep, is decoded without it if its component count is known. -/
theorem loadColorSpace_bounded (doc : Document) (o : PdfObject) :
    (∃ calls, doc.Decodes 0 o calls (doc.loadColorSpace o)) ∧
    (∀ calls load, doc.Decodes 0 o calls load → load = doc.loadColorSpace o ∧
      calls.map Prod.fst = List.range calls.length ∧ ∀ call ∈ calls, call.1 ≤ 8) ∧
    (∀ s space, ((doc.loadColorSpace o).run s).1 = .ok space → space.levels ≤ 9) ∧
    (doc.Endless o → ∀ levels s, ∃ fault, ((doc.readColorSpace levels o).run s).1 = .error fault) ∧
    ∀ levels s after fault first profile rest entries data under n,
      doc.resolve o = .array (first :: profile :: rest) →
      (doc.resolve first).name? = some "ICCBased" → doc.resolve profile = .stream entries data →
      doc.get? entries "Alternate" = some under → doc.knownComponents? entries data = some n →
      (doc.readColorSpace levels under).run s = (.error fault, after) →
      (doc.readColorSpace (levels + 1) o).run s =
        (.ok (.iccBased n none (doc.profileIn? entries data)), after) := by
  obtain ⟨calls, decodes⟩ := doc.decodes_readColorSpace nestingLimit 0 o (Nat.zero_add _)
  refine ⟨⟨calls, decodes⟩, ?_, doc.readColorSpace_atMost nestingLimit o,
    readColorSpace_fails, ?_⟩
  · intro calls' load decodes'
    refine ⟨(decodes'.unique decodes).2, ?_, fun call => decodes'.le_of_mem⟩
    rw [decodes'.nestings, List.range_eq_range']
  · intro levels s after fault first profile rest entries data under n array family held found known
    exact readColorSpace_iccBased array family held found known

def loopDocument : Document where
  objects :=
    [(⟨1, 0⟩, .array [nameObject "Indexed", .reference ⟨1, 0⟩, .integer 255, .string []]),
     (⟨2, 0⟩, .array [nameObject "ICCBased", .reference ⟨3, 0⟩]),
     (⟨3, 0⟩, .stream [(Bytes.ofUtf8 "N", .integer 3),
       (Bytes.ofUtf8 "Alternate", .reference ⟨1, 0⟩)] []),
     (⟨4, 0⟩, .array [nameObject "ICCBased", .reference ⟨5, 0⟩]),
     (⟨5, 0⟩, .stream [(Bytes.ofUtf8 "N", .integer 4),
       (Bytes.ofUtf8 "Alternate", .reference ⟨4, 0⟩)] [])]

theorem endless_loopDocument : loopDocument.Endless (.reference ⟨1, 0⟩) :=
  ⟨fun _ => .reference ⟨1, 0⟩, rfl,
    fun _ => ⟨_, "Indexed", 1, rfl, name?_nameObject "Indexed", rfl, rfl⟩⟩

theorem loadColorSpace_loopDocument :
    (∀ s, ∃ fault, ((loopDocument.loadColorSpace (.reference ⟨1, 0⟩)).run s).1 = .error fault) ∧
    ((loopDocument.loadColorSpace (.reference ⟨2, 0⟩)).run {}).1 = .ok (.iccBased 3 none none) ∧
    ((loopDocument.loadColorSpace (.reference ⟨4, 0⟩)).run {}).1.toOption.map ColorSpace.levels =
      some 9 := by
  obtain ⟨-, -, -, endless, -⟩ := loadColorSpace_bounded loopDocument (.reference ⟨1, 0⟩)
  obtain ⟨-, -, -, -, alternate⟩ := loadColorSpace_bounded loopDocument (.reference ⟨2, 0⟩)
  have refused := endless endless_loopDocument
  have own : loopDocument.resolve (.reference ⟨4, 0⟩) =
    .array [nameObject "ICCBased", .reference ⟨5, 0⟩] := rfl
  obtain ⟨space, deepest, levels⟩ := levels_of_ownAlternate own (name?_nameObject "ICCBased") rfl
    rfl (by decide +kernel : _ = some 4) rfl 8 {}
  have cut : ((loopDocument.loadColorSpace (.reference ⟨4, 0⟩)).run {}).1.toOption.map
      ColorSpace.levels = some 9 := by
    change ((loopDocument.readColorSpace (8 + 1) _).run {}).1.toOption.map _ = _
    rw [deepest]
    exact congrArg some levels
  refine ⟨refused nestingLimit, ?_, cut⟩
  obtain ⟨fault, failed⟩ := refused 8 {}
  have unusable : (loopDocument.readColorSpace 8 (.reference ⟨1, 0⟩)).run {} =
      (.error fault, ((loopDocument.readColorSpace 8 (.reference ⟨1, 0⟩)).run {}).2) :=
    Prod.ext failed rfl
  have read := alternate 8 {} _ fault _ _ _ _ _ _ 3 rfl (name?_nameObject "ICCBased") rfl rfl
    (by decide +kernel) unusable
  have none : loopDocument.profileIn? [(Bytes.ofUtf8 "N", .integer 3),
    (Bytes.ofUtf8 "Alternate", .reference ⟨1, 0⟩)] [] = none := by decide +kernel
  rw [none] at read
  exact congrArg Prod.fst read

end Document

end PdfContent
