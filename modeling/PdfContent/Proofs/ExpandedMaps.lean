import PdfContent.Proofs.CidMeaning
import PdfContent.Proofs.Numerals
import PdfContent.Proofs.RangeBounds
import PdfContent.Proofs.ToUnicodeMeaning

/-!
Maps from ranges that are written out in words. What an expansion has written is entered into a map
one mapping after the other; for each kind of entry that gives what applying the entry gives, and
for a whole input the map that is read from it.
-/

namespace PdfContent

open Expansion

namespace Word

theorem span?_toNat (low high : UInt32) :
    CMap.span? low.toNat high.toNat = (reach? low high).map UInt32.toNat := by
  rw [CMap.span?_eq]
  cases reach : reach? low high with
  | some span =>
    obtain ⟨ordered, near, width⟩ := reach?_eq_some.1 reach
    rw [if_pos ⟨ordered, near⟩, Option.map_some, width]
  | none =>
    refine if_neg fun ⟨ordered, near⟩ => ?_
    have some : reach? low high = some (high - low) := reach?_eq_some.2
      ⟨ordered, near, UInt32.toNat_sub_of_le _ _ (UInt32.le_iff_toNat_le.2 ordered)⟩
    rw [reach] at some
    cases some

theorem bind_scalar? {offset : UInt32} (c : Char) :
    (sum? c.val offset).bind scalar? =
      if (c.toNat + offset.toNat).isValidChar then some (Char.ofNat (c.toNat + offset.toNat))
      else none := by
  cases sum : sum? c.val offset with
  | some code =>
    have value : code.toNat = c.toNat + offset.toNat := sum?_eq_some.1 sum
    rw [Option.bind_some, scalar?, value]
  | none =>
    have large : UInt32.size ≤ c.toNat + offset.toNat := sum?_eq_none.1 sum
    have invalid : ¬ (c.toNat + offset.toNat).isValidChar := by
      rw [UInt32.size] at large
      rw [Nat.isValidChar]
      omega
    rw [if_neg invalid]
    rfl

end Word

namespace Expansion

variable {ω α β ε σ : Type} (enter : σ → UInt32 × ω → σ)

def run (x : Expansion ω α) (m : σ) : Except Stop (α × σ) :=
  x.outcome.map fun a => (a, x.writes.foldl enter m)

variable {enter} {x : Expansion ω α} {f : α → Expansion ω β} {m m' : σ}

theorem run_bind (m : σ) :
    (x >>= f).run enter m = (x.run enter m).bind fun r => (f r.1).run enter r.2 := by
  cases result : x.outcome with
  | error stop => rw [bind_of_error result, run, run, result]; rfl
  | ok a =>
    rw [bind_of_ok result, run, run, result]
    change ((f a).outcome.map fun b => (b, (x.writes ++ (f a).writes).foldl enter m)) = _
    rw [List.foldl_append]
    rfl

theorem run_bind_of_ok {a : α} (h : x.run enter m = .ok (a, m')) :
    (x >>= f).run enter m = (f a).run enter m' := by
  rw [run_bind, h]
  rfl

def result (enter : σ → UInt32 × ω → σ) (start : α → σ) (x : Expansion ω α) : Except Stop σ :=
  x.outcome.map fun a => x.writes.foldl enter (start a)

theorem run_read_bind (r : Except FontFault α) (m : σ) :
    (read r >>= f).run enter m =
      (r.mapError Stop.fault).bind fun a => (f a).run enter m := by
  cases r <;> rfl

theorem result_eq_run (m : σ) : x.result enter (fun _ => m) = (x.run enter m).map Prod.snd := by
  rw [result, run]
  cases x.outcome <;> rfl

theorem result_read_bind {r : Except FontFault α} {start : β → σ} :
    (read r >>= f).result enter start =
      (r.mapError Stop.fault).bind fun a => (f a).result enter start := by
  cases r <;> rfl

theorem result_bind_pure {b : β} {start : β → σ} {y : α → Expansion ω Unit} :
    (x >>= fun a => y a >>= fun _ => pure b).result enter start =
      ((x >>= y).run enter (start b)).map Prod.snd := by
  cases h : x.outcome with
  | error stop =>
    rw [bind_of_error h, bind_of_error h]
    rfl
  | ok a =>
    rw [bind_of_ok h, bind_of_ok h]
    cases h' : (y a).outcome with
    | error stop =>
      rw [bind_of_error h']
      rfl
    | ok u =>
      rw [bind_of_ok h']
      exact congrArg (fun all => Except.ok ((x.writes ++ all).foldl enter (start b)))
        (List.append_nil (y a).writes)

theorem run_turns {body : UInt32 → Expansion ω Bool} {left : Nat} {value : UInt32}
    (step : σ → Nat → σ) (room : Nat) (fits : value.toNat + left < UInt32.size)
    (goes : ∀ (v : UInt32) (k : Nat) (m : σ), k ≤ left → v.toNat = value.toNat + k → k < room →
      (body v).run enter m = .ok (true, step m k))
    (ends : ∀ (v : UInt32) (k : Nat) (m : σ), k ≤ left → v.toNat = value.toNat + k → room ≤ k →
      (body v).run enter m = .ok (false, m)) (m : σ) :
    (turns body left value).run enter m =
      .ok ((), (List.range (min (left + 1) room)).foldl step m) := by
  induction left generalizing value step room m with
  | zero =>
    rw [turns]
    cases room with
    | zero => exact run_bind_of_ok (ends value 0 m (Nat.zero_le _) rfl (Nat.le_refl 0))
    | succ room => exact run_bind_of_ok (goes value 0 m (Nat.le_refl 0) rfl (Nat.succ_pos _))
  | succ left ih =>
    rw [turns]
    cases room with
    | zero => exact run_bind_of_ok (ends value 0 m (Nat.zero_le _) rfl (Nat.le_refl 0))
    | succ room =>
      have next := Word.toNat_succ (v := value) (by omega)
      rw [run_bind_of_ok (goes value 0 m (Nat.zero_le _) rfl (Nat.succ_pos _)), if_pos rfl,
        add_eq next, pure_bind]
      rw [UInt32.toNat_one] at next
      rw [Nat.add_min_add_right, List.range_succ_eq_map, List.foldl_cons, List.foldl_map]
      refine ih _ room (by omega) (fun v k m near same less => ?_) (fun v k m near same more => ?_)
        (step m 0)
      · exact goes v (k + 1) m (by omega) (by omega) (by omega)
      · exact ends v (k + 1) m (by omega) (by omega) (by omega)

theorem run_eachUpTo {body : UInt32 → Expansion ω Bool} {first last : UInt32}
    (step : σ → Nat → σ) (room : Nat) (ordered : first.toNat ≤ last.toNat)
    (goes : ∀ (v : UInt32) (k : Nat) (m : σ), v.toNat = first.toNat + k → v.toNat ≤ last.toNat →
      k < room → (body v).run enter m = .ok (true, step m k))
    (ends : ∀ (v : UInt32) (k : Nat) (m : σ), v.toNat = first.toNat + k → v.toNat ≤ last.toNat →
      room ≤ k → (body v).run enter m = .ok (false, m)) (m : σ) :
    (eachUpTo first last body).run enter m =
      .ok ((), (List.range (min (last.toNat - first.toNat + 1) room)).foldl step m) := by
  have small : last.toNat < UInt32.size := last.toNat_lt
  rw [eachUpTo, if_pos (UInt32.le_iff_toNat_le.2 ordered)]
  exact run_turns step room (by omega) (fun v k m near same => goes v k m same (by omega))
    (fun v k m near same => ends v k m same (by omega)) m

theorem run_offsets {body : UInt32 → Expansion ω Bool} {span : UInt32} (step : σ → Nat → σ)
    (room : Nat)
    (goes : ∀ (offset : UInt32) (m : σ), offset.toNat ≤ span.toNat → offset.toNat < room →
      (body offset).run enter m = .ok (true, step m offset.toNat))
    (ends : ∀ (offset : UInt32) (m : σ), offset.toNat ≤ span.toNat → room ≤ offset.toNat →
      (body offset).run enter m = .ok (false, m)) (m : σ) :
    (eachUpTo 0 span body).run enter m =
      .ok ((), (List.range (min (span.toNat + 1) room)).foldl step m) := by
  refine run_eachUpTo step room (Nat.zero_le _) (fun offset k m same within less => ?_)
    (fun offset k m same within more => ?_) m
  · obtain rfl : k = offset.toNat := by rw [same, UInt32.toNat_zero, Nat.zero_add]
    exact goes offset m within less
  · obtain rfl : k = offset.toNat := by rw [same, UInt32.toNat_zero, Nat.zero_add]
    exact ends offset m within more

def applied {entry : Type} (apply : σ → entry → σ) (m : σ)
    (r : Except FontFault (Option entry)) : Except Stop (Unit × σ) :=
  (r.map fun e => ((), e.toList.foldl apply m)).mapError Stop.fault

theorem run_forM {line entry : Type} {expand : line → Expansion ω Unit}
    {readLine : line → Except FontFault (Option entry)} {apply : σ → entry → σ}
    (each : ∀ l m, (expand l).run enter m = applied apply m (readLine l))
    (lines : List line) (m : σ) :
    (lines.forM expand).run enter m =
      ((lines.mapM readLine).map fun es => ((), (es.filterMap id).foldl apply m)).mapError
        Stop.fault := by
  induction lines generalizing m with
  | nil => rfl
  | cons l lines ih =>
    change (expand l >>= fun _ => lines.forM expand).run enter m = _
    rw [run_bind, each, List.mapM_cons]
    cases readLine l with
    | error fault => rfl
    | ok e =>
      change (lines.forM expand).run enter (e.toList.foldl apply m) = _
      rw [ih]
      cases lines.mapM readLine with
      | error fault => rfl
      | ok es => cases e <;> rfl

end Expansion

theorem CMap.hexCode_lt {hex : List Char} {code : Nat} (h : hexCode hex = .ok code) :
    code < UInt32.size := by
  rw [hexCode] at h
  cases parsed : Numeral.parse 16 Numeral.greatest32 hex with
  | error cause =>
    rw [parsed] at h
    cases h
  | ok n =>
    rw [parsed] at h
    cases h
    exact Nat.lt_succ_of_le ((Numeral.parse_eq_ok_iff (by decide)).1 parsed).2

theorem Expansion.run_hexWord_bind {ω β σ : Type} {enter : σ → UInt32 × ω → σ}
    {f : UInt32 → Expansion ω β} (hex : List Char) (m : σ) :
    (read (CMap.hexWord hex) >>= f).run enter m =
      ((CMap.hexCode hex).mapError Stop.fault).bind fun code => (f code.toUInt32).run enter m := by
  rw [run_read_bind, CMap.hexWord]
  cases CMap.hexCode hex <;> rfl

theorem Expansion.run_bounds {ω σ entry : Type} {enter : σ → UInt32 × ω → σ}
    {apply : σ → entry → σ} {f : UInt32 → UInt32 → Expansion ω Unit}
    {g : Nat → Nat → Except FontFault (Option entry)} {m : σ}
    (each : ∀ low high : UInt32,
      (f low high).run enter m = applied apply m (g low.toNat high.toNat))
    (low high : List Char) :
    (do
      let low ← read (CMap.hexWord low)
      let high ← read (CMap.hexWord high)
      f low high).run enter m = applied apply m (do
        let low ← CMap.hexCode low
        let high ← CMap.hexCode high
        g low high) := by
  rw [run_hexWord_bind]
  cases lowRead : CMap.hexCode low with
  | error fault => rfl
  | ok a =>
    change Expansion.run enter (read (CMap.hexWord high) >>= f a.toUInt32) m = _
    rw [run_hexWord_bind]
    cases highRead : CMap.hexCode high with
    | error fault => rfl
    | ok b =>
      change (f a.toUInt32 b.toUInt32).run enter m = _
      rw [each, Word.toNat_toUInt32 (CMap.hexCode_lt lowRead),
        Word.toNat_toUInt32 (CMap.hexCode_lt highRead)]
      rfl

namespace ToUnicodeCMap

def enter (m : ToUnicodeCMap) (w : UInt32 × List Char) : ToUnicodeCMap := m.insert w.1.toNat w.2

theorem run_expandListed (low high : UInt32) (i : Nat) (targets : List (List Char))
    (m : ToUnicodeCMap) :
    (expandListed low high i targets).run enter m =
      (((targets.take (high.toNat + 1 - low.toNat - i)).mapM CMap.destination).map fun texts =>
        ((), (texts.zipIdx (low.toNat + i)).foldl (fun m entry => m.insert entry.2 entry.1)
          m)).mapError Stop.fault := by
  induction targets generalizing i m with
  | nil =>
    rw [List.take_nil]
    rfl
  | cons target targets ih =>
    have small : high.toNat < UInt32.size := high.toNat_lt
    rw [expandListed]
    cases sum : (Word.ofIndex? i).bind (Word.sum? low) with
    | none =>
      have large := Word.bind_ofIndex?_eq_none.1 sum
      have behind : high.toNat + 1 - low.toNat - i = 0 := by omega
      rw [behind]
      rfl
    | some code =>
      have value := Word.bind_ofIndex?_eq_some.1 sum
      dsimp only
      split_ifs with beyond
      · rw [gt_iff_lt, UInt32.lt_iff_toNat_lt] at beyond
        have behind : high.toNat + 1 - low.toNat - i = 0 := by omega
        rw [behind]
        rfl
      · rw [gt_iff_lt, UInt32.lt_iff_toNat_lt] at beyond
        have here : high.toNat + 1 - low.toNat - i = high.toNat + 1 - low.toNat - (i + 1) + 1 := by
          omega
        rw [here, List.take_succ_cons, List.mapM_cons, run_read_bind]
        cases CMap.destination target with
        | error fault => rfl
        | ok text =>
          change (expandListed low high (i + 1) targets).run enter (m.insert code.toNat text) = _
          rw [ih, value]
          cases (targets.take (high.toNat + 1 - low.toNat - (i + 1))).mapM CMap.destination <;> rfl

theorem run_writeAdvanced {low high offset : UInt32} {text : List Char} {last : Char}
    (lastIs : text.getLast? = some last) (within : low.toNat + offset.toNat ≤ high.toNat)
    (m : ToUnicodeCMap) :
    (writeAdvanced low text last offset).run enter m =
      .ok (true, insertAdvanced low.toNat text m offset.toNat) := by
  have small : high.toNat < UInt32.size := high.toNat_lt
  have sum : (low + offset).toNat = low.toNat + offset.toNat :=
    Word.sum?_eq_some.1 (if_pos (by omega))
  rw [writeAdvanced, Word.bind_scalar?, insertAdvanced, advance?, lastIs]
  dsimp only
  split_ifs with valid
  · simp only [add_eq sum]
    change Except.ok (true, m.insert (low + offset).toNat _) = _
    rw [sum]
  · rfl

theorem run_expandIncreasing (low high : UInt32) (target : List Char) (m : ToUnicodeCMap) :
    (expandIncreasing low high target).run enter m =
      applied apply m ((CMap.span? low.toNat high.toNat).elim (.ok none) fun span =>
        (CMap.destination target).map fun text =>
          some (.increasing low.toNat span text)) := by
  rw [expandIncreasing, Word.span?_toNat]
  cases reach : Word.reach? low high with
  | none => rfl
  | some span =>
    obtain ⟨ordered, -, width⟩ := Word.reach?_eq_some.1 reach
    dsimp only [Option.map_some]
    rw [run_read_bind]
    cases CMap.destination target with
    | error fault => rfl
    | ok text =>
      dsimp only [Except.mapError, Except.bind]
      cases lastIs : text.getLast? with
      | none =>
        obtain rfl := List.getLast?_eq_none_iff.1 lastIs
        exact congrArg (fun m => Except.ok ((), m)) (List.foldl_fixed (List.range _)).symm
      | some last =>
        refine (run_offsets (insertAdvanced low.toNat text) (span.toNat + 1)
          (fun offset m within _ => ?_) (fun offset m within beyond => absurd beyond (by omega))
          m).trans (by rw [Nat.min_self]; rfl)
        have reached : low.toNat + offset.toNat ≤ high.toNat := by omega
        exact run_writeAdvanced lastIs reached m

theorem run_expandSingle (line : List Char) (m : ToUnicodeCMap) :
    (expandSingle line).run enter m = applied apply m (readSingle line) := by
  rw [expandSingle, readSingle]
  rcases CMap.hexTokens line with _ | ⟨source, _ | ⟨target, _⟩⟩
  · rfl
  · rfl
  · dsimp only
    rw [run_hexWord_bind]
    cases read : CMap.hexCode source with
    | error fault => rfl
    | ok code =>
      have value := Word.toNat_toUInt32 (CMap.hexCode_lt read)
      change Expansion.run enter (Expansion.read _ >>= fun text => write code.toUInt32 text) m = _
      rw [run_read_bind]
      cases CMap.destination target with
      | error fault => rfl
      | ok text =>
        change Except.ok ((), m.insert code.toUInt32.toNat text) = _
        rw [value]
        rfl

theorem run_expandRange (line : List Char) (m : ToUnicodeCMap) :
    (expandRange line).run enter m = applied apply m (readRange line) := by
  rw [expandRange, readRange]
  cases Text.cut? ['['] line with
  | some parts =>
    obtain ⟨before, body⟩ := parts
    dsimp only
    rw [readListed]
    rcases CMap.hexTokens before with _ | ⟨low, _ | ⟨high, _⟩⟩
    · rfl
    · rfl
    · cases Text.beforeLast? ']' body with
      | none =>
        dsimp only
        split_ifs
        · exact run_bounds (fun _ _ => rfl) low high
        · rfl
      | some inner =>
        refine run_bounds (fun low high => ?_) low high
        refine (run_expandListed low high 0 (CMap.hexTokens inner) m).trans ?_
        rw [Nat.sub_zero]
        cases ((CMap.hexTokens inner).take (high.toNat + 1 - low.toNat)).mapM CMap.destination <;>
          rfl
  | none =>
    dsimp only
    rw [readIncreasing]
    rcases CMap.hexTokens line with _ | ⟨low, _ | ⟨high, _ | ⟨target, _⟩⟩⟩
    · rfl
    · rfl
    · rfl
    · refine run_bounds (fun low high => ?_) low high
      rw [run_expandIncreasing]
      cases CMap.span? low.toNat high.toNat with
      | none => rfl
      | some span => cases CMap.destination target <;> rfl

theorem result_expand (data : Bytes) :
    (expand (Text.Utf8.decode data)).result enter (fun _ => {}) =
      (parse data).mapError Stop.fault := by
  rw [result_eq_run, expand, run_bind, run_forM run_expandSingle, parse, entries]
  cases (CMap.entryLines "bfchar" (Text.Utf8.decode data)).mapM readSingle with
  | error fault => rfl
  | ok singles =>
    change ((List.forM _ expandRange).run enter _).map Prod.snd = _
    rw [run_forM run_expandRange]
    cases (CMap.entryLines "bfrange" (Text.Utf8.decode data)).mapM readRange with
    | error fault => rfl
    | ok ranges =>
      change Except.ok _ = Except.ok (((singles ++ ranges).filterMap id).foldl apply {})
      rw [List.filterMap_append, List.foldl_append]

end ToUnicodeCMap

namespace CidCMap

def enter (m : CidCMap) (w : UInt32 × UInt32) : CidCMap := m.insert w.1.toNat w.2.toNat

theorem trailingNumber?_lt {line : List Char} {n : Nat} (h : CMap.trailingNumber? line = some n) :
    n < UInt32.size := by
  unfold CMap.trailingNumber? at h
  split_ifs at h
  exact Nat.lt_succ_of_le ((Numeral.parse?_eq_some_iff (by decide)).1 h).2

theorem run_expandIncreasing (low high start : UInt32) (m : CidCMap) :
    (expandIncreasing low high start).run enter m =
      .ok ((), (((CMap.span? low.toNat high.toNat).map fun span =>
        Entry.range low.toNat span start.toNat).toList).foldl apply m) := by
  rw [expandIncreasing, Word.span?_toNat]
  cases reach : Word.reach? low high with
  | none => rfl
  | some span =>
    obtain ⟨ordered, -, width⟩ := Word.reach?_eq_some.1 reach
    have small : high.toNat < UInt32.size := high.toNat_lt
    refine run_offsets (fun m offset => m.insert (low.toNat + offset) (start.toNat + offset))
      (room start.toNat) (fun offset m within less => ?_) (fun offset m within more => ?_) m
    · rw [room, Numeral.greatest32] at less
      have fits : start.toNat + offset.toNat < UInt32.size := by
        rw [UInt32.size]
        omega
      have cid : (start + offset).toNat = start.toNat + offset.toNat :=
        Word.sum?_eq_some.1 (if_pos fits)
      have key : (low + offset).toNat = low.toNat + offset.toNat :=
        Word.sum?_eq_some.1 (if_pos (by omega))
      simp only [Word.sum?_eq_some.2 cid, add_eq key]
      change Except.ok (true, m.insert (low + offset).toNat (start + offset).toNat) = _
      rw [key, cid]
    · rw [room, Numeral.greatest32] at more
      have large : Word.sum? start offset = none := Word.sum?_eq_none.2 (by
        rw [UInt32.size]
        omega)
      rw [large]
      rfl

theorem run_expandSingle (line : List Char) (m : CidCMap) :
    (expandSingle line).run enter m = applied apply m (readSingle line) := by
  rw [expandSingle, readSingle]
  rcases CMap.hexTokens line with _ | ⟨source, _⟩
  · rfl
  · cases number : CMap.trailingNumber? line with
    | none => rfl
    | some cid =>
      dsimp only
      rw [run_hexWord_bind]
      cases read : CMap.hexCode source with
      | error fault => rfl
      | ok code =>
        change Except.ok ((), m.insert code.toUInt32.toNat cid.toUInt32.toNat) = _
        rw [Word.toNat_toUInt32 (CMap.hexCode_lt read),
          Word.toNat_toUInt32 (trailingNumber?_lt number)]
        rfl

theorem run_expandRange (line : List Char) (m : CidCMap) :
    (expandRange line).run enter m = applied apply m (readRange line) := by
  rw [expandRange, readRange]
  rcases CMap.hexTokens line with _ | ⟨low, _ | ⟨high, _⟩⟩
  · rfl
  · rfl
  · cases number : CMap.trailingNumber? line with
    | none => rfl
    | some start =>
      refine run_bounds (fun low high => ?_) low high
      rw [run_expandIncreasing, Word.toNat_toUInt32 (trailingNumber?_lt number)]
      rfl

theorem result_expand (data : Bytes) :
    (expand (Text.Utf8.decode data)).result enter (header (Text.Utf8.decode data)) =
      (parse data).mapError Stop.fault := by
  rw [parse]
  generalize Text.Utf8.decode data = text
  rw [expand, result_read_bind, parseText]
  cases (CMap.entryLines "codespacerange" text).mapM fun line =>
    pairRanges (CMap.hexTokens line) with
  | error fault => rfl
  | ok spaces =>
    refine result_bind_pure.trans ?_
    rw [run_bind, run_forM run_expandSingle]
    cases (CMap.entryLines "cidchar" text).mapM readSingle with
    | error fault => rfl
    | ok singles =>
      change ((List.forM _ expandRange).run enter _).map Prod.snd = _
      rw [run_forM run_expandRange]
      cases (CMap.entryLines "cidrange" text).mapM readRange with
      | error fault => rfl
      | ok ranges =>
        change Except.ok _ =
          Except.ok (((singles ++ ranges).filterMap id).foldl apply (header text spaces.flatten))
        rw [List.filterMap_append, List.foldl_append]

end CidCMap

namespace Document

def enterWidth (m : Std.TreeMap Nat Float) (w : UInt32 × Float) : Std.TreeMap Nat Float :=
  m.insert w.1.toNat w.2

theorem insertWidth_some {cid : UInt32} {n : Nat} (same : cid.toNat = n)
    (m : Std.TreeMap Nat Float) (width : Float) :
    insertWidth m (some width, n) = enterWidth m (cid, width) := by
  have small : n ≤ Numeral.greatest32 := same ▸ Nat.le_of_lt_succ cid.toNat_lt
  rw [insertWidth, enterWidth]
  simp only [if_pos small, same]

theorem foldl_insertWidth_large {first : Nat} (large : UInt32.size ≤ first)
    (widths : List (Option Float)) (m : Std.TreeMap Nat Float) :
    (widths.zipIdx first).foldl insertWidth m = m := by
  induction widths generalizing first with
  | nil => rfl
  | cons width widths ih =>
    have out : insertWidth m (width, first) = m := by
      cases width with
      | none => rfl
      | some width => exact if_neg (Nat.not_le_of_lt large)
    rw [List.zipIdx_cons, List.foldl_cons, out]
    exact ih (Nat.le_succ_of_le large)

theorem run_expandListed (first : UInt32) (i : Nat) (widths : List (Option Float))
    (m : Std.TreeMap Nat Float) :
    (expandListed first i widths).run enterWidth m =
      .ok ((), (widths.zipIdx (first.toNat + i)).foldl insertWidth m) := by
  induction widths generalizing i m with
  | nil => rfl
  | cons width widths ih =>
    rw [expandListed]
    cases sum : (Word.ofIndex? i).bind (Word.sum? first) with
    | none => rw [foldl_insertWidth_large (Word.bind_ofIndex?_eq_none.1 sum)]; rfl
    | some cid =>
      have value := Word.bind_ofIndex?_eq_some.1 sum
      rw [List.zipIdx_cons, List.foldl_cons]
      cases width with
      | none => exact ih (i + 1) m
      | some width =>
        rw [insertWidth_some value]
        exact ih (i + 1) (enterWidth m (cid, width))

theorem run_expandShared (first last : UInt32) (width : Float) (m : Std.TreeMap Nat Float) :
    (expandShared first last width).run enterWidth m =
      .ok ((), ((widthRange? first.toNat last.toNat (some width)).toList).foldl applyWidths m) := by
  rw [expandShared, widthRange?, Option.bind_some, Word.span?_toNat]
  cases reach : Word.reach? first last with
  | none => rfl
  | some span =>
    obtain ⟨ordered, -, reached⟩ := Word.reach?_eq_some.1 reach
    have keys : (List.replicate (span.toNat + 1) (some width)).zipIdx first.toNat =
        (List.range (span.toNat + 1)).map fun k => (some width, first.toNat + k) := by
      refine List.ext_getElem (by simp) fun k _ _ => ?_
      simp
    have turns : last.toNat - first.toNat + 1 = span.toNat + 1 := by rw [reached]
    refine (run_eachUpTo (fun m k => insertWidth m (some width, first.toNat + k))
      (span.toNat + 1) ordered (fun cid k m same _ _ => ?_)
      (fun cid k m same within beyond => absurd beyond (by omega)) m).trans ?_
    · exact congrArg (fun m => Except.ok (true, m)) (insertWidth_some same m width).symm
    · rw [turns, Nat.min_self]
      change _ = Except.ok ((), List.foldl insertWidth m (List.zipIdx _ _))
      rw [keys, List.foldl_map]

theorem run_expandWidths (doc : Document) (items : List PdfObject) (m : Std.TreeMap Nat Float) :
    (doc.expandWidths items).run enterWidth m =
      .ok ((), (doc.widthEntries items).foldl applyWidths m) := by
  fun_induction widthEntries doc items generalizing m with
  | case1 =>
    rw [expandWidths]
    rfl
  | case2 =>
    rw [expandWidths]
    rfl
  | case3 first next rest none ih =>
    rw [expandWidths, none]
    exact ih m
  | case4 first next rest start number items array ih =>
    rw [expandWidths, number]
    dsimp only
    rw [array]
    dsimp only
    rw [run_bind_of_ok (run_expandListed ..), Nat.add_zero]
    exact ih _
  | case5 first next rest start number plain none ih =>
    rw [expandWidths, number]
    dsimp only
    split
    · exact absurd ‹_› (plain _)
    · rw [none]
      exact ih m
  | case6 first next rest start number last plain also ih =>
    rw [expandWidths, number]
    dsimp only
    split
    · exact absurd ‹_› (plain _)
    · rw [also]
      dsimp only
      cases (rest.head?.map doc.resolve).bind PdfObject.number? with
      | none => exact ih m
      | some width =>
        rw [List.foldl_append]
        exact (run_bind_of_ok (run_expandShared ..)).trans (ih _)

end Document

/-- Written out in words, the entries of any input to the three readers give the map that is read,
or the fault that it is read with: no sum has too many bits. Every range, whatever its bounds are,
writes keys between them only. A range that counts up writes at most 65536 of them, and a range that
lists what it maps to writes at most as many as it lists. -/
theorem ranges_bounded :
    ((∀ data, (ToUnicodeCMap.expand (Text.Utf8.decode data)).result ToUnicodeCMap.enter
        (fun _ => {}) = (ToUnicodeCMap.parse data).mapError Stop.fault) ∧
      (∀ data, (CidCMap.expand (Text.Utf8.decode data)).result CidCMap.enter
        (CidCMap.header (Text.Utf8.decode data)) = (CidCMap.parse data).mapError Stop.fault) ∧
      ∀ (doc : Document) (items : List PdfObject),
        (doc.expandWidths items).result Document.enterWidth (fun _ => ∅) =
          .ok (doc.cidWidths items)) ∧
    (∀ low high target, (ToUnicodeCMap.expandIncreasing low high target).Bounded low high 65536) ∧
    (∀ low high start, (CidCMap.expandIncreasing low high start).Bounded low high 65536) ∧
    (∀ first last width, (Document.expandShared first last width).Bounded first last 65536) ∧
    (∀ low high targets,
      (ToUnicodeCMap.expandListed low high 0 targets).Bounded low high targets.length) ∧
    ∀ first widths,
      (Document.expandListed first 0 widths).Bounded first 0xFFFFFFFF widths.length := by
  refine ⟨⟨ToUnicodeCMap.result_expand, CidCMap.result_expand, fun doc items => ?_⟩,
    ToUnicodeCMap.expandIncreasing_bounded, CidCMap.expandIncreasing_bounded,
    Document.expandShared_bounded, fun low high => ToUnicodeCMap.expandListed_bounded low high 0,
    fun first => Document.expandListed_bounded first 0⟩
  rw [result_eq_run, Document.run_expandWidths]
  rfl

end PdfContent
