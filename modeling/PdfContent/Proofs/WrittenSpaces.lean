import Mathlib.Data.List.Forall2
import PdfContent.Proofs.IntegerDoubles
import PdfContent.Proofs.SessionHistory
import PdfContent.Proofs.TextBytes

/-!
Color spaces as documents write them. A device space, and the space of patterns over none, is a
bare name; every other space is an array behind its family name. Any object inside may stand there
as a reference. Reading gives back the space that was written as long as no more spaces stand
inside one another than are read, and a session that has a history reads no other.
-/

namespace PdfContent

namespace ColorSpace

def levels : ColorSpace → Nat
  | iccBased _ none _ => 1
  | iccBased _ (some alternate) _ => alternate.levels + 1
  | indexed base _ => base.levels + 1
  | separation _ alternate => alternate.levels + 1
  | deviceN _ alternate => alternate.levels + 1
  | pattern none => 1
  | pattern (some under) => under.levels + 1
  | _ => 1

/-- A space whose numbers are in range and that carries no profile at any level. -/
def Plain : ColorSpace → Prop
  | iccBased n none profile => n ≤ Numeral.greatest32 ∧ profile = none
  | iccBased n (some alternate) profile =>
    n ≤ Numeral.greatest32 ∧ profile = none ∧ alternate.Plain
  | indexed base highest => highest ≤ 255 ∧ base.Plain
  | separation _ alternate => alternate.Plain
  | deviceN _ alternate => alternate.Plain
  | pattern (some under) => under.Plain
  | _ => True

theorem levels_pos (space : ColorSpace) : 0 < space.levels := by
  fun_cases levels space <;> omega

end ColorSpace

namespace Document

def nameObject (text : String) : PdfObject := .name (Bytes.ofUtf8 text)

inductive Stands (doc : Document) (target : PdfObject) : PdfObject → Prop
  | itself (direct : target.reference? = none) : Stands doc target target
  | reference {id : ObjectId} (leads : doc.object id = .ok target) :
      Stands doc target (.reference id)

def FamilyArray (doc : Document) (family : String) (rest : List PdfObject) (o : PdfObject) : Prop :=
  ∃ first, Stands doc (.array (first :: rest)) o ∧ Stands doc (nameObject family) first

structure IccStream (doc : Document) (components : Nat) (entries : Dictionary) (data : Bytes) :
    Prop where
  count : ∃ o, entries.entry? "N" = some o ∧ Stands doc (.integer components) o
  profile : (doc.streamData entries data).toOption.bind IccProfile.ofBytes? = none

/-- An object that writes a color space. Items of an array behind those that matter are free. -/
inductive Written (doc : Document) : PdfObject → ColorSpace → Prop
  | device {o : PdfObject} (family : DeviceFamily)
      (h : Stands doc (nameObject family.colorSpace.family) o) : Written doc o family.colorSpace
  | barePattern {o : PdfObject} (h : Stands doc (nameObject "Pattern") o) :
      Written doc o (.pattern none)
  | cie {o : PdfObject} {rest : List PdfObject} {space : ColorSpace}
      (listed : space ∈ [.calGray, .calRgb, .lab]) (h : FamilyArray doc space.family rest o) :
      Written doc o space
  | iccBased {o stream : PdfObject} {rest : List PdfObject} {entries : Dictionary} {data : Bytes}
      {components : Nat} (h : FamilyArray doc "ICCBased" (stream :: rest) o)
      (held : Stands doc (.stream entries data) stream)
      (icc : IccStream doc components entries data) (alone : entries.entry? "Alternate" = none) :
      Written doc o (.iccBased components none none)
  | iccBasedOver {o stream under : PdfObject} {rest : List PdfObject} {entries : Dictionary}
      {data : Bytes} {components : Nat} {alternate : ColorSpace}
      (h : FamilyArray doc "ICCBased" (stream :: rest) o)
      (held : Stands doc (.stream entries data) stream)
      (icc : IccStream doc components entries data)
      (found : entries.entry? "Alternate" = some under) (inner : Written doc under alternate) :
      Written doc o (.iccBased components (some alternate) none)
  | indexed {o under count : PdfObject} {rest : List PdfObject} {base : ColorSpace} {highest : Nat}
      (h : FamilyArray doc "Indexed" (under :: count :: rest) o) (inner : Written doc under base)
      (held : Stands doc (.integer highest) count) : Written doc o (.indexed base highest)
  | separation {o name under : PdfObject} {rest : List PdfObject} {colorant : String}
      {alternate : ColorSpace} (h : FamilyArray doc "Separation" (name :: under :: rest) o)
      (held : Stands doc (nameObject colorant) name) (inner : Written doc under alternate) :
      Written doc o (.separation colorant alternate)
  | deviceN {o array under : PdfObject} {names rest : List PdfObject} {colorants : List String}
      {alternate : ColorSpace} (h : FamilyArray doc "DeviceN" (array :: under :: rest) o)
      (held : Stands doc (.array names) array)
      (each : List.Forall₂ (fun name colorant => Stands doc (nameObject colorant) name)
        names colorants)
      (inner : Written doc under alternate) : Written doc o (.deviceN colorants alternate)
  | pattern {o under : PdfObject} {rest : List PdfObject} {space : ColorSpace}
      (h : FamilyArray doc "Pattern" (under :: rest) o) (inner : Written doc under space) :
      Written doc o (.pattern (some space))

def objectOf : ColorSpace → PdfObject
  | .deviceGray => nameObject "DeviceGray"
  | .deviceRgb => nameObject "DeviceRGB"
  | .deviceCmyk => nameObject "DeviceCMYK"
  | .calGray => .array [nameObject "CalGray", .dictionary []]
  | .calRgb => .array [nameObject "CalRGB", .dictionary []]
  | .lab => .array [nameObject "Lab", .dictionary []]
  | .iccBased n none _ =>
    .array [nameObject "ICCBased", .stream [(Bytes.ofUtf8 "N", .integer n)] []]
  | .iccBased n (some alternate) _ =>
    .array [nameObject "ICCBased", .stream [(Bytes.ofUtf8 "N", .integer n),
      (Bytes.ofUtf8 "Alternate", objectOf alternate)] []]
  | .indexed base highest =>
    .array [nameObject "Indexed", objectOf base, .integer highest, .string []]
  | .separation colorant alternate =>
    .array [nameObject "Separation", nameObject colorant, objectOf alternate, .null]
  | .deviceN colorants alternate =>
    .array [nameObject "DeviceN", .array (colorants.map nameObject), objectOf alternate, .null]
  | .pattern none => nameObject "Pattern"
  | .pattern (some under) => .array [nameObject "Pattern", objectOf under]

theorem familyArray_direct (doc : Document) (family : String) (rest : List PdfObject) :
    FamilyArray doc family rest (.array (nameObject family :: rest)) :=
  ⟨_, .itself rfl, .itself rfl⟩

theorem written_objectOf (doc : Document) {space : ColorSpace} (plain : space.Plain) :
    Written doc (objectOf space) space := by
  fun_induction objectOf space with
  | case1 => exact .device .gray (.itself rfl)
  | case2 => exact .device .rgb (.itself rfl)
  | case3 => exact .device .cmyk (.itself rfl)
  | case4 => exact .cie (by simp) (familyArray_direct ..)
  | case5 => exact .cie (by simp) (familyArray_direct ..)
  | case6 => exact .cie (by simp) (familyArray_direct ..)
  | case7 n profile =>
    rw [plain.2]
    exact .iccBased (familyArray_direct ..) (.itself rfl) ⟨⟨_, rfl, .itself rfl⟩, rfl⟩ rfl
  | case8 n profile alternate ih =>
    rw [plain.2.1]
    exact .iccBasedOver (familyArray_direct ..) (.itself rfl) ⟨⟨_, rfl, .itself rfl⟩, rfl⟩ rfl
      (ih plain.2.2)
  | case9 base highest ih =>
    exact .indexed (familyArray_direct ..) (ih plain.2) (.itself rfl)
  | case10 colorant alternate ih =>
    exact .separation (familyArray_direct ..) (.itself rfl) (ih plain)
  | case11 colorants alternate ih =>
    refine .deviceN (familyArray_direct ..) (.itself rfl) ?_ (ih plain)
    rw [List.forall₂_map_left_iff]
    exact List.forall₂_same.2 fun _ _ => .itself rfl
  | case12 => exact .barePattern (.itself rfl)
  | case13 under ih => exact .pattern (familyArray_direct ..) (ih plain)

section Loads

variable {α β : Type}

theorem run_bind (load : SpaceLoading α) (next : α → SpaceLoading β)
    (s : Cache String ColorSpace) :
    (load >>= next).run s = match load.run s with
      | (.ok a, after) => (next a).run after
      | (.error fault, after) => (.error fault, after) := by
  rw [ExceptT.run_bind]
  change StateT.bind load.run _ s = _
  unfold StateT.bind
  cases load.run s with
  | mk result after => cases result <;> rfl

def Loads (load : SpaceLoading α) (value : α) : Prop :=
  ∀ separations, ∃ after, load.run separations = (.ok value, after)

theorem Loads.pure (value : α) : Loads (Pure.pure value) value := fun s => ⟨s, rfl⟩

theorem Loads.bind {load : SpaceLoading α} {next : α → SpaceLoading β} {a : α} {b : β}
    (h : Loads load a) (rest : Loads (next a) b) : Loads (load >>= next) b := by
  intro s
  obtain ⟨middle, hm⟩ := h s
  obtain ⟨after, ha⟩ := rest middle
  refine ⟨after, ?_⟩
  rw [run_bind, hm]
  exact ha

theorem Loads.orFail {value : Option α} {a : α} (h : value = some a) (fault : ResourceFault) :
    Loads (orFail value fault) a := by
  rw [h]
  exact .pure a

theorem Loads.remember (colorant : String) (space : ColorSpace) :
    Loads (Document.remember colorant space) () := fun _ => ⟨_, rfl⟩

theorem Loads.ifUsable {load : SpaceLoading α} {a : α} (h : Loads load a) :
    Loads (Document.ifUsable load) (some a) := by
  intro s
  obtain ⟨after, ha⟩ := h s
  refine ⟨after, ?_⟩
  change (Except.ok (load.run s).1.toOption, (load.run s).2) = _
  rw [ha]
  rfl

theorem Loads.item {doc : Document} {items : List PdfObject} {index : Nat} {o : PdfObject}
    (h : items[index]? = some o) (family : String) :
    Loads (doc.item items index family) (doc.resolve o) := by
  refine .orFail ?_ _
  rw [h]
  rfl

end Loads

theorem eq_of_reference? {o : PdfObject} {id : ObjectId} (h : o.reference? = some id) :
    o = .reference id := by
  cases o with
  | reference other => exact congrArg _ (Option.some.inj h)
  | _ => cases h

theorem follow_direct {doc : Document} {steps : Nat} {o target : PdfObject}
    (h : doc.follow steps o = .ok target) : target.reference? = none := by
  fun_induction follow doc steps o with
  | case1 => cases h
  | case2 => cases h
  | case3 _ _ _ _ ih => exact ih h
  | case4 =>
    cases h
    rename_i direct
    cases hr : target.reference? with
    | none => rfl
    | some id => exact absurd (eq_of_reference? hr) (direct id)

theorem object_direct {doc : Document} {id : ObjectId} {target : PdfObject}
    (h : doc.object id = .ok target) : target.reference? = none := by
  unfold object at h
  split at h
  · cases h
  · exact follow_direct h

theorem resolve_of_direct (doc : Document) {o : PdfObject} (h : o.reference? = none) :
    doc.resolve o = o := by
  cases o with
  | reference id => cases h
  | _ => rfl

theorem Stands.resolve {doc : Document} {target o : PdfObject} (h : doc.Stands target o) :
    doc.resolve o = target := by
  cases h with
  | itself direct => exact doc.resolve_of_direct direct
  | reference leads => rw [Document.resolve, leads]; rfl

theorem resolve_resolve (doc : Document) (o : PdfObject) :
    doc.resolve (doc.resolve o) = doc.resolve o := by
  cases o with
  | reference id =>
    cases h : doc.object id with
    | ok target => rw [(Stands.reference h).resolve, doc.resolve_of_direct (object_direct h)]
    | error fault =>
      have stays : doc.resolve (.reference id) = .reference id := by rw [resolve, h]; rfl
      rw [stays, stays]
  | _ => rfl

theorem name?_nameObject (text : String) : (nameObject text).name? = some text :=
  congrArg some (Bytes.toText_ofUtf8 text)

theorem Stands.name? {doc : Document} {text : String} {o : PdfObject}
    (h : doc.Stands (nameObject text) o) : (doc.resolve o).name? = some text :=
  (congrArg PdfObject.name? h.resolve).trans (name?_nameObject text)

theorem Stands.array? {doc : Document} {items : List PdfObject} {o : PdfObject}
    (h : doc.Stands (.array items) o) : (doc.resolve o).array? = some items :=
  congrArg PdfObject.array? h.resolve

section Reading

variable {doc : Document}

theorem FamilyArray.resolve {family : String} {rest : List PdfObject} {o : PdfObject}
    (h : doc.FamilyArray family rest o) :
    ∃ first, doc.resolve o = .array (first :: rest) ∧
      (((first :: rest).head?.map doc.resolve).bind PdfObject.name?) = some family := by
  obtain ⟨first, array, name⟩ := h
  refine ⟨first, array.resolve, ?_⟩
  rw [List.head?_cons, Option.map_some, Option.bind_some, name.name?]

theorem readColorSpace_resolve (levels : Nat) (o : PdfObject) :
    doc.readColorSpace levels (doc.resolve o) = doc.readColorSpace levels o := by
  cases levels with
  | zero => rfl
  | succ levels => rw [readColorSpace, readColorSpace, doc.resolve_resolve]

theorem highestIndex_integer {n : Nat} (h : n ≤ 255) : highestIndex (.integer n) = n := by
  unfold highestIndex
  simp only [PdfObject.number?, Double.toNat_toUInt32_ofInt, Int.toNat_natCast, Numeral.greatest32]
  omega

theorem names_of_stands {names : List PdfObject} {colorants : List String}
    (h : List.Forall₂ (fun name colorant => doc.Stands (nameObject colorant) name)
      names colorants) : doc.names names = colorants := by
  induction h with
  | nil => rfl
  | cons first _ ih =>
    unfold Document.names
    rw [List.filterMap_cons, first.name?]
    exact congrArg _ ih

theorem IccStream.size? {components : Nat} {entries : Dictionary} {data : Bytes}
    (h : doc.IccStream components entries data) (small : components ≤ Numeral.greatest32) :
    doc.size? entries "N" = some components := by
  obtain ⟨o, found, held⟩ := h.count
  unfold Document.size? Document.integer? Document.get?
  rw [found, Option.map_some, held.resolve]
  simp [PdfObject.integer?, Numeral.unsigned32?, small]

theorem loads_iccBased {o stream : PdfObject} {rest : List PdfObject} {entries : Dictionary}
    {data : Bytes} {components levels : Nat} {alternate : Option ColorSpace}
    (h : doc.FamilyArray "ICCBased" (stream :: rest) o)
    (held : doc.Stands (.stream entries data) stream)
    (icc : doc.IccStream components entries data) (small : components ≤ Numeral.greatest32)
    (inner : ∀ {next : Option ColorSpace → SpaceLoading ColorSpace} {space : ColorSpace},
      Loads (next alternate) space → Loads (match doc.get? entries "Alternate" with
        | some under => ifUsable (doc.readColorSpace levels under) >>= next
        | none => Pure.pure none >>= next) space) :
    Loads (doc.readColorSpace (levels + 1) o) (.iccBased components alternate none) := by
  obtain ⟨first, array, family⟩ := h.resolve
  rw [readColorSpace, array]
  refine .bind (.orFail family _) ?_
  simp +decide only [if_true, if_false]
  refine .bind (.item rfl _) ?_
  rw [held.resolve]
  have count : doc.iccComponents? entries none alternate = some components := by
    unfold iccComponents?
    rw [icc.size? small]
    rfl
  refine inner ?_
  rw [icc.profile]
  exact .bind (.orFail count _) (.pure _)

theorem readColorSpace_of_written {o : PdfObject} {space : ColorSpace} (h : doc.Written o space)
    (plain : space.Plain) {levels : Nat} (hl : space.levels ≤ levels) :
    Loads (doc.readColorSpace levels o) space := by
  -- No space has no levels, so one is left for this space and the rest is for those inside.
  induction h generalizing levels with
    obtain ⟨levels, rfl⟩ := Nat.exists_eq_add_one.2 ((ColorSpace.levels_pos _).trans_le hl)
  | device family held =>
    rw [readColorSpace, held.resolve]
    refine .orFail ?_ _
    rw [Bytes.toText_ofUtf8]
    cases family <;> rfl
  | barePattern held =>
    rw [readColorSpace, held.resolve]
    refine .orFail ?_ _
    rw [Bytes.toText_ofUtf8]
    rfl
  | cie listed held =>
    obtain ⟨first, array, family⟩ := held.resolve
    rw [readColorSpace, array]
    refine .bind (.orFail family _) ?_
    simp only [List.mem_cons, List.not_mem_nil, or_false] at listed
    rcases listed with rfl | rfl | rfl
    all_goals
      simp +decide only [ColorSpace.family, if_true, if_false]
      exact .pure _
  | iccBased held stream icc alone =>
    have none : doc.get? _ "Alternate" = none := congrArg (Option.map doc.resolve) alone
    refine loads_iccBased held stream icc plain.1 fun rest => ?_
    rw [none]
    exact .bind (.pure _) rest
  | iccBasedOver held stream icc found _ ih =>
    have some : doc.get? _ "Alternate" = some _ := congrArg (Option.map doc.resolve) found
    refine loads_iccBased held stream icc plain.1 fun rest => ?_
    rw [some]
    refine .bind (.ifUsable ?_) rest
    rw [readColorSpace_resolve]
    exact ih plain.2.2 (Nat.le_of_succ_le_succ hl)
  | indexed held _ count ih =>
    obtain ⟨first, array, family⟩ := held.resolve
    have base := ih plain.2 (Nat.le_of_succ_le_succ hl)
    rw [← readColorSpace_resolve] at base
    rw [readColorSpace, array]
    refine .bind (.orFail family _) ?_
    simp +decide only [if_true, if_false]
    refine .bind (.item rfl _) (.bind base (.bind (.item rfl _) ?_))
    rw [count.resolve, highestIndex_integer plain.1]
    exact .pure _
  | separation held name _ ih =>
    obtain ⟨first, array, family⟩ := held.resolve
    have alternate := ih plain (Nat.le_of_succ_le_succ hl)
    rw [← readColorSpace_resolve] at alternate
    rw [readColorSpace, array]
    refine .bind (.orFail family _) ?_
    simp +decide only [if_true, if_false]
    exact .bind (.item rfl _) (.bind (.orFail name.name? _) (.bind (.item rfl _)
      (.bind alternate (.bind (.remember _ _) (.pure _)))))
  | deviceN held names each _ ih =>
    obtain ⟨first, array, family⟩ := held.resolve
    have alternate := ih plain (Nat.le_of_succ_le_succ hl)
    rw [← readColorSpace_resolve] at alternate
    rw [readColorSpace, array]
    refine .bind (.orFail family _) ?_
    simp +decide only [if_true, if_false]
    refine .bind (.item rfl _) (.bind (.orFail names.array? _) (.bind (.item rfl _)
      (.bind alternate ?_)))
    rw [names_of_stands each]
    exact .pure _
  | pattern held _ ih =>
    obtain ⟨first, array, family⟩ := held.resolve
    rw [readColorSpace, array]
    refine .bind (.orFail family _) ?_
    simp +decide only [if_true, if_false]
    exact .bind (ih plain (Nat.le_of_succ_le_succ hl)) (.pure _)

end Reading

/-- Every space that is kept under a number is what reading the object of that number gives. -/
def SpacesRead (doc : Document) (s : Session) : Prop :=
  ∀ id space, s.colorSpaces.get? id = some space →
    ∃ separations,
      ((doc.loadColorSpace (doc.resolve (.reference id))).run separations).1 = .ok space

theorem loadSpace_eq {α : Type} {load : SpaceLoading α} {m : Memory}
    {result : Except ResourceFault α} {after : Cache String ColorSpace}
    (h : load.run m.session.separations = (result, after)) :
    m.loadSpace load = (result.mapError .resource,
      { m with session := { m.session with separations := after } }) := by
  unfold Memory.loadSpace
  rw [h]

theorem loadKeptSpace_spacesRead {doc : Document} {id : Option ObjectId} {o : PdfObject}
    (same : ∀ number, id = some number → doc.resolve (.reference number) = o) {m : Memory}
    (h : doc.SpacesRead m.session) :
    doc.SpacesRead (Scope.loadKeptSpace doc id o m).2.session := by
  refine loadKeptSpace_cases (motive := fun result => doc.SpacesRead result.2.session) doc id o m
    (fun _ => h) (fun _ _ _ _ => h) ?_
  intro number space numbered unkept loaded
  cases read : (doc.loadColorSpace o).run m.session.separations with
  | mk result after =>
    rw [loadSpace_eq read] at loaded
    cases result with
    | error fault => cases loaded
    | ok other =>
      cases loaded
      refine Cache.forall_getOrInsert h unkept ⟨m.session.separations, ?_⟩
      rw [same number numbered, read]

theorem lasting_spacesRead (doc : Document) : doc.Lasting doc.SpacesRead where
  colorSpace scope name m h := by
    unfold Scope.colorSpace
    split
    · rename_i id o found
      refine loadKeptSpace_spacesRead (fun number hn => ?_) h
      subst hn
      exact entry?_reference found
    · exact h
  font scope name m h := by
    unfold Scope.font
    split
    · exact h
    · split
      · exact h
      · rename_i id _ _ _ d _
        change doc.SpacesRead (Memory.noting (Scope.loadKeptFont doc id d m)).2.session
        rw [noting_session]
        exact loadKeptFont_cases (motive := fun result => doc.SpacesRead result.2.session)
          doc id d m (fun _ => h) (fun _ _ _ _ => h) (fun _ _ _ _ _ => h)
  separations _ _ h := h
  forms _ _ h := h

theorem SpacesRead.loadKeptSpace {doc : Document} {m : Memory} (h : doc.SpacesRead m.session)
    {o : PdfObject} {space : ColorSpace} (loads : Loads (doc.loadColorSpace o) space)
    {id : Option ObjectId}
    (same : ∀ number, id = some number → doc.resolve (.reference number) = o) :
    (Scope.loadKeptSpace doc id o m).1 = .ok space := by
  obtain ⟨after, read⟩ := loads m.session.separations
  have fresh : (m.loadSpace (doc.loadColorSpace o)).1 = .ok space := by rw [loadSpace_eq read]; rfl
  refine loadKeptSpace_cases (motive := fun result => result.1 = .ok space) doc id o m
    (fun _ => fresh) ?_ fun _ _ _ _ loaded => loaded.symm.trans fresh
  intro number other numbered kept
  -- What is kept was read from the same object, with other separations remembered.
  obtain ⟨separations, again⟩ := h number other kept
  obtain ⟨_, read⟩ := loads separations
  rw [same number numbered, read] at again
  cases again
  rfl

theorem Written.reference {doc : Document} {o : PdfObject} {space : ColorSpace}
    (h : doc.Written o space) {id : ObjectId} (leads : doc.object id = .ok o) :
    doc.Written (.reference id) space := by
  have direct := object_direct leads
  -- What a number leads to is no reference, so it stands for itself alone.
  have behind : ∀ {target}, doc.Stands target o → doc.Stands target (.reference id) := by
    intro target held
    cases held with
    | itself _ => exact .reference leads
    | reference _ => cases direct
  have array : ∀ {family rest}, doc.FamilyArray family rest o →
      doc.FamilyArray family rest (.reference id) :=
    fun ⟨first, held, name⟩ => ⟨first, behind held, name⟩
  cases h with
  | device family held => exact .device family (behind held)
  | barePattern held => exact .barePattern (behind held)
  | cie listed held => exact .cie listed (array held)
  | iccBased held stream icc alone => exact .iccBased (array held) stream icc alone
  | iccBasedOver held stream icc found inner =>
    exact .iccBasedOver (array held) stream icc found inner
  | indexed held inner count => exact .indexed (array held) inner count
  | separation held name inner => exact .separation (array held) name inner
  | deviceN held names each inner => exact .deviceN (array held) names each inner
  | pattern held inner => exact .pattern (array held) inner

/-- A space of at most nine levels can be written, each object of it can be put behind a reference,
and a resource entry that holds it is read as that space, whatever was analyzed before. -/
theorem colorSpace_written {space : ColorSpace} (plain : space.Plain) (few : space.levels ≤ 9)
    (doc : Document) :
    doc.Written (objectOf space) space ∧
      (∀ o id, doc.Written o space → doc.object id = .ok o → doc.Written (.reference id) space) ∧
      ∀ (scope : Scope) resources entries name o, scope.resources = some resources →
        doc.dictionary? resources "ColorSpace" = some entries → entries.entry? name = some o →
        doc.Written o space → ∀ (options : Options) (history : List Call) (m : Memory),
          m.session = doc.after history { options } →
          (scope.colorSpace doc name m).1 = .ok (some space) := by
  refine ⟨doc.written_objectOf plain, fun o id h leads => h.reference leads, ?_⟩
  intro scope resources entries name o hr he ho written options history m hm
  have entry : scope.entry? doc "ColorSpace" name = some (o.reference?, doc.resolve o) := by
    simp only [Scope.entry?, hr, he, ho, Option.bind_eq_bind, Option.bind_some, Option.pure_def]
  have fresh : doc.SpacesRead { options } := fun id kept h => by cases h
  have kept : doc.SpacesRead m.session := hm ▸ doc.lasting_spacesRead.after history fresh
  have loads : Loads (doc.loadColorSpace (doc.resolve o)) space := by
    unfold loadColorSpace
    rw [readColorSpace_resolve]
    exact readColorSpace_of_written written plain few
  have same : ∀ number, o.reference? = some number → doc.resolve (.reference number) =
      doc.resolve o := fun number hn => by rw [eq_of_reference? hn]
  unfold Scope.colorSpace
  rw [entry]
  exact congrArg (Except.map some) (kept.loadKeptSpace loads same)

def spotSpace : ColorSpace :=
  .separation "Gold" (.separation "Silver" (.separation "Copper" (.separation "Ärger" .deviceCmyk)))

def deepSpace : ColorSpace :=
  .pattern (some (.indexed (.iccBased 3 (some (.deviceN ["Gold", "Ñandú"] spotSpace)) none) 255))

def deepDocument : Document where
  objects :=
    [(⟨1, 0⟩, .array [nameObject "Pattern", .reference ⟨2, 0⟩]),
     (⟨2, 0⟩, .array [.reference ⟨3, 0⟩, .reference ⟨4, 0⟩, .reference ⟨5, 0⟩, .string [1, 2, 3]]),
     (⟨3, 0⟩, nameObject "Indexed"),
     (⟨4, 0⟩, .array [nameObject "ICCBased", .reference ⟨6, 0⟩]),
     (⟨5, 0⟩, .integer 255),
     (⟨6, 0⟩, .stream [(Bytes.ofUtf8 "N", .reference ⟨7, 0⟩),
       (Bytes.ofUtf8 "Alternate", .reference ⟨8, 0⟩)] (Bytes.ofUtf8 "no profile")),
     (⟨7, 0⟩, .integer 3),
     (⟨8, 0⟩, .array [nameObject "DeviceN", .array [nameObject "Gold", .reference ⟨9, 0⟩],
       .reference ⟨10, 0⟩, .null]),
     (⟨9, 0⟩, nameObject "Ñandú"),
     (⟨10, 0⟩, objectOf spotSpace)]

theorem written_deepDocument : deepDocument.Written (.reference ⟨1, 0⟩) deepSpace := by
  refine .pattern ⟨_, .reference rfl, .itself rfl⟩ (.indexed ⟨_, .reference rfl, .reference rfl⟩ ?_
    (.reference rfl))
  refine .iccBasedOver ⟨_, .reference rfl, .itself rfl⟩ (.reference rfl)
    ⟨⟨_, rfl, .reference rfl⟩, by decide +kernel⟩ rfl ?_
  refine .deviceN ⟨_, .reference rfl, .itself rfl⟩ (.itself rfl)
    (.cons (.itself rfl) (.cons (.reference rfl) .nil)) ?_
  exact (deepDocument.written_objectOf (show spotSpace.Plain from trivial)).reference rfl

theorem colorSpace_written_deepDocument :
    let entries : Dictionary := [(Bytes.ofUtf8 "P", .reference ⟨1, 0⟩)]
    let resources : Dictionary := [(Bytes.ofUtf8 "ColorSpace", .dictionary entries)]
    let s := deepDocument.after [.content (Bytes.ofUtf8 "/P cs") (some resources)] {}
    deepSpace.levels = 9 ∧ deepDocument.Written (.reference ⟨1, 0⟩) deepSpace ∧
      (Scope.colorSpace deepDocument { resources := some resources } "P" { session := s }).1 =
        .ok (some deepSpace) := by
  intro entries resources s
  refine ⟨rfl, written_deepDocument, ?_⟩
  have plain : deepSpace.Plain := by simp +decide [deepSpace, spotSpace, ColorSpace.Plain]
  obtain ⟨-, -, reads⟩ := colorSpace_written plain (by decide) deepDocument
  exact reads _ resources entries "P" _ rfl rfl rfl written_deepDocument {} _ _ rfl

end Document

end PdfContent
