import Seisin.Lib.Returns
import Seisin.Storage.BTree.Refinement
import Seisin.Types.Temporal

/-!
# Temporal histories as functions of time

The tree of an entity holds spans that are in order and do not overlap: for every sub-key a partial
function from instants to values.  The order of the bytes of keys is that of sub-keys and instants, so
that ranks in the tree are positions among the spans, and the queries read the function.
-/

namespace Seisin

open ByteString Timeline Stateful

/-! ## Instants as bytes -/

theorem xor_signBit {value : ℕ} (fits : value < 2 ^ 64) :
    value ^^^ 2 ^ 63 = if value < 2 ^ 63 then value + 2 ^ 63 else value - 2 ^ 63 := by
  have low : (value ^^^ 2 ^ 63) % 2 ^ 63 = value % 2 ^ 63 := by
    rw [Nat.xor_mod_two_pow, Nat.mod_self, Nat.xor_zero]
  have high : (value ^^^ 2 ^ 63) / 2 ^ 63 = value / 2 ^ 63 ^^^ 1 := by
    rw [Nat.xor_div_two_pow, Nat.div_self (Nat.two_pow_pos 63)]
  have small : value / 2 ^ 63 < 2 := by omega
  have bit : value / 2 ^ 63 ^^^ 1 = 1 - value / 2 ^ 63 := by
    generalize value / 2 ^ 63 = bit at small
    interval_cases bit <;> rfl
  rw [bit] at high
  have split := Nat.div_add_mod (value ^^^ 2 ^ 63) (2 ^ 63)
  rw [low, high] at split
  generalize value ^^^ 2 ^ 63 = flipped at split
  split <;> omega

/-- With its sign bit the other way round, a number is moved into the unsigned range. -/
theorem toNat_signFlip (t : Int64) :
    ((t.toUInt64 ^^^ 0x8000000000000000).toNat : ℤ) = t.toInt + 2 ^ 63 := by
  have flipped : (t.toUInt64 ^^^ 0x8000000000000000).toNat = t.toUInt64.toNat ^^^ 2 ^ 63 :=
    UInt64.toNat_xor _ _
  have signed : t.toInt = t.toBitVec.toInt := rfl
  have same : t.toBitVec.toNat = t.toUInt64.toNat := rfl
  have fits := t.toUInt64.toNat_lt
  rw [flipped, xor_signBit fits, signed, BitVec.toInt_eq_toNat_cond, same]
  split <;> split <;> omega

@[simp]
theorem length_encodeTs (t : Int64) : (encodeTs t).length = 8 := by
  rw [encodeTs, List.length_reverse, length_leBytes]

theorem beNat_encodeTs (t : Int64) :
    beNat (encodeTs t) = (t.toUInt64 ^^^ 0x8000000000000000).toNat :=
  beNat_reverse_leBytes (UInt64.toNat_lt _)

@[simp]
theorem decodeTs_encodeTs (t : Int64) : decodeTs (encodeTs t) = t := by
  rw [decodeTs, beNat_encodeTs, UInt64.ofNat_toNat, UInt64.xor_assoc, UInt64.xor_self,
    UInt64.xor_zero]
  rfl

/-- Instants are ordered as their bytes. -/
theorem encodeTs_lt_iff {first second : Int64} :
    encodeTs first < encodeTs second ↔ first < second := by
  have firstFlip := toNat_signFlip first
  have secondFlip := toNat_signFlip second
  rw [lt_iff_beNat_lt (by simp), beNat_encodeTs, beNat_encodeTs, Int64.lt_iff_toInt_lt]
  omega

theorem encodeTs_inj {first second : Int64} : encodeTs first = encodeTs second ↔ first = second := by
  constructor
  · intro same
    rw [← decodeTs_encodeTs first, same, decodeTs_encodeTs]
  · exact congrArg encodeTs

theorem composite_lt_iff {subKey other : Bytes} (same : subKey.length = other.length)
    {t instant : Int64} : composite subKey t < composite other instant ↔
      subKey < other ∨ subKey = other ∧ t < instant := by
  rw [composite, composite, append_lt_append_iff same, encodeTs_lt_iff]

theorem composite_inj {subKey other : Bytes} (same : subKey.length = other.length)
    {t instant : Int64} : composite subKey t = composite other instant ↔
      subKey = other ∧ t = instant := by
  constructor
  · intro equal
    rcases List.append_inj equal same with ⟨subKeys, instants⟩
    exact ⟨subKeys, encodeTs_inj.mp instants⟩
  · rintro ⟨rfl, rfl⟩
    rfl

theorem composite_le_iff {subKey other : Bytes} (same : subKey.length = other.length)
    {t instant : Int64} : composite subKey t ≤ composite other instant ↔
      subKey < other ∨ subKey = other ∧ t ≤ instant := by
  rw [le_iff_lt_or_eq, composite_lt_iff same, composite_inj same, or_assoc, ← and_or_left,
    le_iff_lt_or_eq]

/-! ## Spans as entries -/

theorem slice_ok {bytes : Bytes} {first last : ℕ} (inside : last ≤ bytes.length) :
    slice bytes first last = .ok ((bytes.drop first).take (last - first)) :=
  if_pos inside

theorem slice_middle (before middle after : Bytes) {first last : ℕ}
    (firstIs : first = before.length) (lastIs : last = before.length + middle.length) :
    slice (before ++ middle ++ after) first last = .ok middle := by
  rw [slice_ok (by simp only [List.length_append]; omega), firstIs, lastIs,
    Nat.add_sub_cancel_left, window_middle]

namespace TkClassDef

variable (classDef : TkClassDef)

/-- The sub-key and the value have the widths of the class. -/
structure Fits (span : TkSpan) : Prop where
  subKey : span.subKey.length = classDef.subW
  value : span.value.length ≤ classDef.valueWidth.toNat

/-- The entry of the tree that a span is stored as. -/
def entryOf (span : TkSpan) : Bytes × Bytes :=
  (composite span.subKey span.lower,
    upperBytes span.upper ++ leBytes 2 span.value.length ++ span.value ++
      List.replicate (classDef.valueWidth.toNat - span.value.length) 0)

variable {classDef} {span : TkSpan}

@[simp]
theorem length_upperBytes (upper : Option Int64) : (upperBytes upper).length = 9 := by
  cases upper with
  | none => rfl
  | some upper => simp [upperBytes]

theorem record_ok {upper : Option Int64} {value : Bytes}
    (fits : value.length ≤ classDef.valueWidth.toNat) (subKey : Bytes) (lower : Int64) :
    classDef.record upper value = .ok (classDef.entryOf ⟨subKey, lower, upper, value⟩).2 :=
  if_neg (Nat.not_lt.mpr fits)

theorem length_entryOf (fits : classDef.Fits span) :
    (classDef.entryOf span).1.length = classDef.subW + 8 ∧
      (classDef.entryOf span).2.length = 11 + classDef.valueWidth.toNat := by
  have value := fits.value
  constructor
  · rw [entryOf, composite, List.length_append, length_encodeTs, fits.subKey]
  · simp only [entryOf, List.length_append, length_upperBytes, length_leBytes,
      List.length_replicate]
    omega

theorem slice_subKey {subKey : Bytes} (width : subKey.length = classDef.subW) (t : Int64) :
    slice (composite subKey t) 0 classDef.subW = .ok subKey :=
  slice_middle [] subKey (encodeTs t) rfl (by simp [width])

theorem slice_lower {subKey : Bytes} (width : subKey.length = classDef.subW) (t : Int64) :
    slice (composite subKey t) classDef.subW (classDef.subW + 8) = .ok (encodeTs t) := by
  have middle := slice_middle subKey (encodeTs t) [] width.symm
    (by rw [length_encodeTs, width] : classDef.subW + 8 = _)
  rwa [List.append_nil] at middle

theorem slice_entryOf (fits : classDef.Fits span) :
    slice (classDef.entryOf span).1 0 classDef.subW = .ok span.subKey :=
  slice_subKey fits.subKey span.lower

theorem upperFrom_entryOf (span : TkSpan) :
    upperFrom (classDef.entryOf span).2 = .ok span.upper := by
  cases bound : span.upper with
  | none =>
      have flag : slice (classDef.entryOf span).2 0 1 = .ok [0] := by
        simp [entryOf, bound, upperBytes, slice]
      simp only [upperFrom, flag]
      rfl
  | some upper =>
      have flag : slice (classDef.entryOf span).2 0 1 = .ok [1] := by
        simp [entryOf, bound, upperBytes, slice]
      have bytes : slice (classDef.entryOf span).2 1 9 = .ok (encodeTs upper) := by
        simp only [entryOf, bound, upperBytes, List.append_assoc]
        refine slice_middle [1] (encodeTs upper) _ rfl ?_
        simp
      simp only [upperFrom, flag, bytes]
      change Except.ok (some (decodeTs (encodeTs upper))) = _
      rw [decodeTs_encodeTs]

/-- A span is read back from its entry. -/
theorem spanFrom_entryOf (fits : classDef.Fits span) :
    classDef.spanFrom (classDef.entryOf span) = .ok span := by
  have lower : slice (classDef.entryOf span).1 classDef.subW (classDef.subW + 8) =
      .ok (encodeTs span.lower) := slice_lower fits.subKey span.lower
  have len : slice (classDef.entryOf span).2 9 11 = .ok (leBytes 2 span.value.length) := by
    simp only [entryOf, List.append_assoc]
    rw [← List.append_assoc]
    refine slice_middle (upperBytes span.upper) (leBytes 2 span.value.length) _ ?_ ?_
    · rw [length_upperBytes]
    · rw [length_upperBytes, length_leBytes]
  have small : span.value.length < 256 ^ 2 :=
    lt_of_le_of_lt fits.value classDef.valueWidth.toNat_lt
  have value : slice (classDef.entryOf span).2 11 (11 + span.value.length) = .ok span.value := by
    refine slice_middle (upperBytes span.upper ++ leBytes 2 span.value.length) span.value _ ?_ ?_
    · rw [List.length_append, length_upperBytes, length_leBytes]
    · rw [List.length_append, length_upperBytes, length_leBytes]
  simp only [spanFrom, lower, upperFrom_entryOf, len, slice_entryOf fits, leNat_leBytes small,
    value, decodeTs_encodeTs, ok_bind]
  rfl

theorem checkSubKey_ok {subKey : Bytes} (width : subKey.length = classDef.subW) :
    classDef.checkSubKey subKey = .ok () :=
  if_neg (not_not.mpr width)

theorem all_lt_iff {t : Int64} {upper : Option Int64} :
    (upper.all fun upper => t < upper) = true ↔ Before t upper := by
  cases upper with
  | none => simp [Before]
  | some upper => simp [Before]

/-! ## What a tree holds -/

/-- The tree has the entries of the spans. -/
structure Holds (classDef : TkClassDef) (tree : BPlusTree) (spans : List TkSpan) : Prop where
  represented : ∃ (depth : ℕ) (shape : Shape depth), BPlusTree.Represents tree shape ∧
    shape.entries = spans.map classDef.entryOf
  keySize : tree.keySize = classDef.subW + 8
  valueSize : tree.valueSize = 11 + classDef.valueWidth.toNat
  fits : ∀ span ∈ spans, classDef.Fits span

namespace Holds

variable {tree : BPlusTree} {spans : List TkSpan} {subKey : Bytes} {t : Int64}

variable (holds : Holds classDef tree spans)

include holds

theorem count : tree.totalCount = spans.length := by
  rcases holds.represented with ⟨depth, shape, represents, entries⟩
  rw [represents.count, Shape.size, entries, List.length_map]

theorem spansOf : classDef.spansOf tree = .ok spans := by
  rcases holds.represented with ⟨depth, shape, represents, entries⟩
  have all : tree.allEntries = .ok shape.entries := by
    rw [BPlusTree.allEntries, represents.root]
    exact BPlusTree.collectAll_eq represents.deep represents.stored
  have each : (spans.map classDef.entryOf).mapM classDef.spanFrom = .ok spans := by
    have fits := holds.fits
    clear entries holds
    induction spans with
    | nil => rfl
    | cons span spans ih =>
        rw [List.map_cons, List.mapM_cons, spanFrom_entryOf (fits span List.mem_cons_self),
          ih fun other otherMem => fits other (List.mem_cons_of_mem _ otherMem)]
        rfl
  rw [TkClassDef.spansOf, all, entries]
  exact each

theorem entryAt (rank : ℕ) : Seisin.entryAt tree rank = .ok (spans[rank]?.map classDef.entryOf) := by
  rcases holds.represented with ⟨depth, shape, represents, entries⟩
  rw [Seisin.entryAt, BPlusTree.scanFromRank_ok represents.arranged _ (by decide), entries, ok_bind,
    List.head?_take, if_neg Nat.one_ne_zero, List.head?_drop, List.getElem?_map]
  rfl

variable (width : subKey.length = classDef.subW)

include width

theorem rankOfFloor : tree.rankOfFloor (composite subKey t) =
    .ok (BPlusTree.lastRank (cut spans subKey t)) := by
  rcases holds.represented with ⟨depth, shape, represents, entries⟩
  rw [BPlusTree.rankOfFloor_ok represents, BPlusTree.floorIndex, entries, List.countP_map]
  · refine congrArg (fun count => Except.ok (BPlusTree.lastRank count)) ?_
    refine List.countP_congr fun span spanMem => ?_
    simp only [Function.comp_apply, decide_eq_true_eq]
    exact composite_le_iff ((holds.fits span spanMem).subKey.trans width.symm)
  · rw [holds.keySize, composite, List.length_append, length_encodeTs, width]

theorem rawFloor : Seisin.rawFloor tree subKey t =
    .ok ((spans.take (cut spans subKey t)).getLast?.map fun span =>
      (cut spans subKey t - 1, classDef.entryOf span)) := by
  have most : cut spans subKey t ≤ spans.length := List.countP_le_length
  rw [Seisin.rawFloor, holds.rankOfFloor width, ok_bind]
  cases counted : cut spans subKey t with
  | zero => rfl
  | succ count =>
      rw [counted] at most
      have inside : count < spans.length := most
      simp only [BPlusTree.lastRank, holds.entryAt, List.getElem?_eq_getElem inside,
        List.getLast?_take,
        Nat.add_sub_cancel, Nat.succ_ne_zero, if_false, ok_bind]
      rfl

theorem successorRank : Seisin.successorRank tree subKey t = .ok (cut spans subKey t) := by
  have most : cut spans subKey t ≤ spans.length := List.countP_le_length
  rw [Seisin.successorRank, holds.rawFloor width, ok_bind]
  cases last : (spans.take (cut spans subKey t)).getLast? with
  | none =>
      rw [List.getLast?_eq_none_iff, List.take_eq_nil_iff] at last
      change Except.ok 0 = _
      rcases last with zero | rfl
      · rw [zero]
      · rfl
  | some span =>
      have positive := (drop_of_getLast?_take most last).1
      change Except.ok (cut spans subKey t - 1 + 1) = _
      rw [Nat.sub_add_cancel positive]

variable (wellFormed : WellFormed spans)

include wellFormed

theorem covering : classDef.covering tree subKey t =
    .ok ((Timeline.covering spans subKey t).map fun span => (cut spans subKey t - 1, span)) := by
  rw [TkClassDef.covering, holds.rawFloor width, wellFormed.covering_eq, ok_bind]
  cases last : (spans.take (cut spans subKey t)).getLast? with
  | none => rfl
  | some span =>
      have lastMem := wellFormed.mem_take_cut.mp (List.mem_of_getLast? last)
      have fits := holds.fits span lastMem.1
      simp only [Option.map_some, slice_entryOf fits, spanFrom_entryOf fits, ok_bind]
      by_cases same : span.subKey = subKey
      · have covers : span.Covers subKey t ↔ Before t span.upper := by
          rcases lastMem.2 with below | ⟨_, lower⟩
          · exact absurd same below.ne
          · exact ⟨fun covers => covers.2.2, fun before => ⟨same, lower, before⟩⟩
        simp only [same, if_true, Option.filter_some, covers, all_lt_iff]
        by_cases before : Before t span.upper
        · simp only [before, if_true, decide_true, Option.map_some]
          rfl
        · simp only [before, if_false, decide_false, Bool.false_eq_true, Option.map_none]
          rfl
      · have uncovered : ¬span.Covers subKey t := fun covers => same covers.1
        simp only [same, if_false, Option.filter_some, uncovered, decide_false, Bool.false_eq_true,
          Option.map_none]
        rfl

theorem successorLower : classDef.successorLower tree subKey t =
    .ok (nextLower spans subKey t) := by
  rw [TkClassDef.successorLower, holds.successorRank width, ok_bind, holds.entryAt, ok_bind,
    wellFormed.nextLower_eq, List.head?_drop]
  cases next : spans[cut spans subKey t]? with
  | none => rfl
  | some span =>
      have fits := holds.fits span (List.mem_of_getElem? next)
      have lower : slice (classDef.entryOf span).1 classDef.subW (classDef.subW + 8) =
          .ok (encodeTs span.lower) := slice_lower fits.subKey span.lower
      simp only [Option.map_some, slice_entryOf fits, ok_bind, Option.filter_some]
      by_cases same : span.subKey = subKey
      · simp only [same, if_true, decide_true, Option.map_some, lower, ok_bind, decodeTs_encodeTs]
        rfl
      · simp only [same, if_false, decide_false, Bool.false_eq_true, Option.map_none]
        rfl

/-! ## Queries -/

theorem query_asOf : classDef.query tree (.asOf subKey t) =
    .ok (spans.filter fun span => span.Covers subKey t) := by
  simp only [TkClassDef.query, checkSubKey_ok width, holds.covering width wellFormed,
    ok_bind, Option.map_map]
  rw [← wellFormed.toList_covering]
  change Except.ok (Option.map id _).toList = _
  rw [Option.map_id]
  rfl

theorem query_current : classDef.query tree (.current subKey) =
    .ok (spans.filter fun span => span.Open subKey) := by
  rw [← wellFormed.toList_open Int64.le_maxValue, wellFormed.covering_eq]
  simp only [TkClassDef.query, checkSubKey_ok width, TkClassDef.currentSpan,
    holds.rawFloor width, ok_bind]
  cases last : (spans.take (cut spans subKey Int64.maxValue)).getLast? with
  | none => rfl
  | some span =>
      have lastMem := (wellFormed.mem_take_cut.mp (List.mem_of_getLast? last)).1
      have fits := holds.fits span lastMem
      simp only [Option.map_some, slice_entryOf fits, spanFrom_entryOf fits, ok_bind,
        Option.filter_some]
      by_cases same : span.subKey = subKey
      · cases ends : span.upper with
        | none =>
            have covers : span.Covers subKey Int64.maxValue :=
              ⟨same, Int64.le_maxValue _, by rw [ends]; nofun⟩
            simp only [same, covers, decide_true, if_true, Option.filter_some, ends,
              Option.isNone_none]
            rfl
        | some upper =>
            have uncovered : ¬span.Covers subKey Int64.maxValue :=
              fun covers => (covers.2.2 upper ends).not_ge (Int64.le_maxValue upper)
            simp only [same, uncovered, decide_false, if_true, Bool.false_eq_true, if_false,
              Option.isNone_some]
            rfl
      · have uncovered : ¬span.Covers subKey Int64.maxValue := fun covers => same covers.1
        simp only [same, uncovered, decide_false, Bool.false_eq_true, if_false]
        rfl

omit width wellFormed in
/-- The loop takes spans from a rank on, as long as they are to be kept. -/
theorem collectWhile (keep : TkSpan → Bool) {bound rank : ℕ} (enough : spans.length - rank < bound) :
    classDef.collectWhile tree keep bound rank = .ok ((spans.drop rank).takeWhile keep) := by
  induction bound generalizing rank with
  | zero => cases enough
  | succ bound ih =>
      rw [TkClassDef.collectWhile, holds.entryAt, ok_bind]
      cases here : spans[rank]? with
      | none =>
          rw [List.drop_eq_nil_of_le (List.getElem?_eq_none_iff.mp here)]
          rfl
      | some span =>
          rcases List.getElem?_eq_some_iff.mp here with ⟨inside, isSpan⟩
          have fits := holds.fits span (List.mem_of_getElem? here)
          have rest := ih (by omega : spans.length - (rank + 1) < bound)
          rw [List.drop_eq_getElem_cons inside, isSpan, List.takeWhile_cons]
          simp only [Option.map_some, spanFrom_entryOf fits, ok_bind, rest]
          cases keep span with
          | true => rfl
          | false => rfl

theorem firstRankOf : Seisin.TkClassDef.firstRankOf tree subKey =
    .ok (firstFrom spans subKey Int64.minValue) := by
  rw [TkClassDef.firstRankOf, holds.rawFloor width, firstFrom, wellFormed.covering_eq, ok_bind]
  cases last : (spans.take (cut spans subKey Int64.minValue)).getLast? with
  | none =>
      rw [List.getLast?_eq_none_iff, List.take_eq_nil_iff] at last
      change Except.ok 0 = Except.ok (cut spans subKey Int64.minValue)
      rcases last with zero | rfl
      · rw [zero]
      · rfl
  | some span =>
      have lastMem := wellFormed.mem_take_cut.mp (List.mem_of_getLast? last)
      have positive : 0 < cut spans subKey Int64.minValue :=
        (drop_of_getLast?_take List.countP_le_length last).1
      have sameLength := (holds.fits span lastMem.1).subKey.trans width.symm
      have covers : span.Covers subKey Int64.minValue ↔
          (classDef.entryOf span).1 = composite subKey Int64.minValue := by
        rw [entryOf, composite_inj sameLength]
        constructor
        · exact fun covers => ⟨covers.1, le_antisymm covers.2.1 (Int64.minValue_le _)⟩
        · rintro ⟨same, lower⟩
          have proper := wellFormed.proper span lastMem.1
          rw [lower] at proper
          exact ⟨same, lower.le, proper⟩
      simp only [Option.map_some, Option.filter_some, ← covers]
      by_cases here : span.Covers subKey Int64.minValue
      · simp only [here, if_true, decide_true, Option.isSome_some]
        rfl
      · simp only [here, if_false, decide_false, Bool.false_eq_true, Option.isSome_none,
          Nat.sub_add_cancel positive]
        rfl

theorem query_history : classDef.query tree (.history subKey) =
    .ok (spans.filter fun span => span.subKey = subKey) := by
  simp only [TkClassDef.query, checkSubKey_ok width, holds.firstRankOf width wellFormed, ok_bind,
    holds.count, holds.collectWhile _ (Nat.lt_succ_of_le (Nat.sub_le spans.length _))]
  refine congrArg Except.ok (wellFormed.takeWhile_firstFrom (fun _ => True)
    (fun _ _ _ => id) trivial ?_ ?_)
  · simp
  · intro span spanMem
    have begun : Before Int64.minValue span.upper := fun upper isUpper =>
      (Int64.minValue_le span.lower).trans_lt (wellFormed.proper span spanMem upper isUpper)
    simp [begun]

theorem rangeStart : classDef.rangeStart tree subKey t = .ok (firstFrom spans subKey t) := by
  rw [TkClassDef.rangeStart, holds.covering width wellFormed, ok_bind, firstFrom]
  cases Timeline.covering spans subKey t with
  | none => exact holds.successorRank width
  | some span => rfl

theorem query_range (lower upper : Int64) : classDef.query tree (.range subKey lower upper) =
    .ok (spans.filter fun span => span.Overlaps subKey lower upper) := by
  simp only [TkClassDef.query, checkSubKey_ok width, ok_bind, TkClassDef.rangeSpans]
  by_cases empty : upper ≤ lower
  · have nothing : (spans.filter fun span => span.Overlaps subKey lower upper) = [] := by
      rw [List.filter_eq_nil_iff]
      intro span _ overlaps
      exact (of_decide_eq_true overlaps : span.Overlaps subKey lower upper).2.1.not_ge empty
    rw [if_pos empty, nothing]
    rfl
  · have ordered : lower < upper := not_le.mp empty
    simp only [empty, if_false, holds.rangeStart width wellFormed, ok_bind, holds.count,
      holds.collectWhile _ (Nat.lt_succ_of_le (Nat.sub_le spans.length _))]
    refine congrArg Except.ok (wellFormed.takeWhile_firstFrom (· < upper)
      (fun _ _ first second => lt_of_le_of_lt first second) ordered ?_ ?_)
    · simp
    · intro span _
      simp [Span.Overlaps, ordered]

omit width in
/-- The walk jumps from sub-key to sub-key; all spans of one are before those of the next. -/
theorem snapshotFrom {bound rank : ℕ} (enough : spans.length - rank < bound)
    (fresh : ∀ earlier ∈ spans.take rank, ∀ later ∈ spans.drop rank,
      earlier.subKey < later.subKey) :
    classDef.snapshotFrom tree t bound rank =
      .ok ((spans.drop rank).filter fun span => span.Covers span.subKey t) := by
  induction bound generalizing rank with
  | zero => cases enough
  | succ bound ih =>
      rw [TkClassDef.snapshotFrom, holds.entryAt, ok_bind]
      cases here : spans[rank]? with
      | none =>
          rw [List.drop_eq_nil_of_le (List.getElem?_eq_none_iff.mp here)]
          rfl
      | some first =>
          rcases List.getElem?_eq_some_iff.mp here with ⟨inside, isFirst⟩
          have fits := holds.fits first (List.mem_of_getElem? here)
          have firstMem : first ∈ spans.drop rank := by
            rw [List.drop_eq_getElem_cons inside, isFirst]
            exact List.mem_cons_self
          rcases wellFormed.filter_drop Int64.le_maxValue here
            (fun earlier earlierMem => fresh earlier earlierMem first firstMem) t with
            ⟨ahead, found⟩
          have jump : BPlusTree.lastRank (cut spans first.subKey Int64.maxValue) =
              some (cut spans first.subKey Int64.maxValue - 1) := by
            generalize cut spans first.subKey Int64.maxValue = count at ahead
            cases count with
            | zero => cases ahead
            | succ last => rfl
          have rest := ih
            (by omega : spans.length - cut spans first.subKey Int64.maxValue < bound) (by
              intro earlier earlierMem later laterMem
              have before := (wellFormed.mem_take_cut.mp earlierMem).2
              have after := (wellFormed.mem_drop_cut.mp laterMem).2
              rw [Span.AtMost, not_or, not_and] at after
              have above : first.subKey < later.subKey :=
                lt_of_le_of_ne (not_lt.mp after.1)
                  fun same => after.2 same.symm (Int64.le_maxValue _)
              rcases before with below | ⟨same, _⟩
              · exact below.trans above
              · rw [same]
                exact above)
          simp only [Option.map_some, slice_entryOf fits, holds.covering fits.subKey wellFormed,
            holds.rankOfFloor fits.subKey, jump, ok_bind, Option.map_map,
            Nat.sub_add_cancel (Nat.one_le_of_lt ahead), rest, found]
          change Except.ok ((Option.map id _).toList ++ _) = _
          rw [Option.map_id]
          rfl

omit width in
theorem query_snapshotAt : classDef.query tree (.snapshotAt t) =
    .ok (spans.filter fun span => span.Covers span.subKey t) :=
  holds.snapshotFrom wellFormed (by rw [holds.count]; omega) nofun

end Holds

end TkClassDef

end Seisin
