import Seisin.Types.Histories

/-!
# Writes to temporal histories

A write changes at most two entries of the tree: it closes the span it falls into, and puts a new one
from its instant on or takes one out.  Over a whole run the spans stay in order and do not overlap.
-/

namespace Seisin

open SortedList Timeline Stateful

namespace TkClassDef

variable {classDef : TkClassDef}

/-! ## Writes -/

section Writes

variable {tree : BPlusTree} {spans : List TkSpan} {subKey value : Bytes} {t : Int64}

theorem TkM.write_ok {writes : BPlusTree → Except TreeFailure BPlusTree} {written : BPlusTree}
    (succeeds : writes tree = .ok written) : TkM.write writes tree = (.ok ⟨⟩, written) := by
  simp only [TkM.write, succeeds]

theorem TkM.read_bind {Result Next : Type} {reads : BPlusTree → Except TreeFailure Result}
    {result : Result} {rest : Result → TkM Next} {post : Next → BPlusTree → Prop}
    (succeeds : reads tree = .ok result) (later : Returns (rest result) tree post) :
    Returns (TkM.read reads >>= rest) tree post := by
  have read : Returns (TkM.read reads) tree fun read last => read = result ∧ last = tree :=
    ⟨result, tree, by rw [TkM.read, succeeds], rfl, rfl⟩
  refine read.bind ?_
  rintro _ _ ⟨rfl, rfl⟩
  exact later

theorem TkM.read_failed {Result Next : Type} {reads : BPlusTree → Except TreeFailure Result}
    {failure : TreeFailure} {rest : Result → TkM Next} (fails : reads tree = .error failure) :
    (TkM.read reads >>= rest) tree = (.error failure, tree) := by
  change ExceptT.bindCont rest (reads tree) tree = _
  rw [fails]
  rfl

theorem less_of_entryOf {first second : TkSpan} (firstFits : classDef.Fits first)
    (secondFits : classDef.Fits second)
    (less : (classDef.entryOf first).1 < (classDef.entryOf second).1) : first.Less second :=
  (composite_lt_iff (firstFits.subKey.trans secondFits.subKey.symm)).mp less

/-- A tree whose entries are those of some spans holds these. -/
theorem exists_holds {depth : ℕ} {shape : Shape depth} (represents : BPlusTree.Represents tree shape)
    (keySize : tree.keySize = classDef.subW + 8)
    (valueSize : tree.valueSize = 11 + classDef.valueWidth.toNat) (member : TkSpan → Prop)
    (fits : ∀ span, member span → classDef.Fits span)
    (mem : ∀ entry, entry ∈ shape.entries ↔ ∃ span, member span ∧ entry = classDef.entryOf span) :
    ∃ changed, Holds classDef tree changed ∧ changed.Pairwise Span.Less ∧
      ∀ span, span ∈ changed ↔ member span := by
  rcases exists_map_eq fun entry entryMem => (mem entry).mp entryMem with ⟨changed, all, entries⟩
  have ascending := represents.ordered.ascending
  rw [entries, Ascending, List.pairwise_map] at ascending
  refine ⟨changed, ⟨⟨depth, shape, represents, entries⟩, keySize, valueSize,
    fun span spanMem => fits span (all span spanMem)⟩, ?_, ?_⟩
  · refine ascending.imp_of_mem fun firstMem secondMem less => ?_
    exact less_of_entryOf (fits _ (all _ firstMem)) (fits _ (all _ secondMem)) less
  · intro span
    refine ⟨all span, fun isMember => ?_⟩
    have stored := (mem (classDef.entryOf span)).mpr ⟨span, isMember, rfl⟩
    rw [entries, List.mem_map] at stored
    rcases stored with ⟨other, otherMem, same⟩
    have read := spanFrom_entryOf (fits other (all other otherMem))
    rw [same, spanFrom_entryOf (fits span isMember), Except.ok.injEq] at read
    rw [read]
    exact otherMem

namespace Holds

variable (holds : Holds classDef tree spans)

include holds

theorem mem_entries {depth : ℕ} {shape : Shape depth}
    (entries : shape.entries = spans.map classDef.entryOf) {key : Bytes} {lower : Int64}
    (width : subKey.length = classDef.subW) (isKey : key = composite subKey lower)
    (entry : Bytes × Bytes) : entry ∈ shape.entries ∧ entry.1 ≠ key ↔
      ∃ span, (span ∈ spans ∧ ¬(span.subKey = subKey ∧ span.lower = lower)) ∧
        entry = classDef.entryOf span := by
  rw [entries, List.mem_map, isKey]
  constructor
  · rintro ⟨⟨span, spanMem, rfl⟩, differ⟩
    refine ⟨span, ⟨spanMem, ?_⟩, rfl⟩
    rintro ⟨rfl, rfl⟩
    exact differ rfl
  · rintro ⟨span, ⟨spanMem, differ⟩, rfl⟩
    refine ⟨⟨span, spanMem, rfl⟩, fun same => differ ?_⟩
    exact (composite_inj ((holds.fits span spanMem).subKey.trans width.symm)).mp same

theorem insert {new : TkSpan} (fits : classDef.Fits new) :
    Returns (classDef.insert new.subKey new.lower new.upper new.value) tree fun _ last =>
      ∃ changed, Holds classDef last changed ∧ Put spans new changed := by
  rcases holds.represented with ⟨depth, shape, represents, entries⟩
  rcases length_entryOf fits with ⟨keyLength, valueLength⟩
  rcases BPlusTree.insert_ok represents (keyLength.trans holds.keySize.symm)
    (valueLength.trans holds.valueSize.symm) with
    ⟨newTree, newDepth, newShape, inserted, final, sameKey, sameValue, newEntries⟩
  have written : classDef.insert new.subKey new.lower new.upper new.value tree =
      (.ok ⟨⟩, newTree) := by
    refine TkM.write_ok ?_
    rw [record_ok fits.value new.subKey new.lower, ok_bind]
    exact inserted
  refine ⟨⟨⟩, newTree, written, ?_⟩
  rcases exists_holds final (sameKey.trans holds.keySize) (sameValue.trans holds.valueSize)
    (fun span => span = new ∨
      span ∈ spans ∧ ¬(span.subKey = new.subKey ∧ span.lower = new.lower))
    (by
      rintro span (rfl | ⟨spanMem, _⟩)
      · exact fits
      · exact holds.fits span spanMem)
    (by
      intro entry
      have key : (classDef.entryOf new).1 = composite new.subKey new.lower := rfl
      rw [newEntries, mem_upsert represents.ordered.ascending,
        holds.mem_entries entries fits.subKey key]
      constructor
      · rintro (rfl | ⟨span, old, rfl⟩)
        · exact ⟨new, Or.inl rfl, rfl⟩
        · exact ⟨span, Or.inr old, rfl⟩
      · rintro ⟨span, rfl | old, rfl⟩
        · exact Or.inl rfl
        · exact Or.inr ⟨span, old, rfl⟩) with
    ⟨changed, holdsChanged, sorted, mem⟩
  exact ⟨changed, holdsChanged, sorted, mem⟩

/-- The span over an instant is closed there. -/
theorem close {span : TkSpan} (found : Timeline.covering spans subKey t = some span) :
    Returns (classDef.insert subKey span.lower (some t) span.value) tree fun _ last =>
      ∃ changed, Holds classDef last changed ∧ Put spans { span with upper := some t } changed := by
  rcases mem_of_covering found with ⟨spanMem, covers⟩
  have spanFits := holds.fits span spanMem
  have fits : classDef.Fits { span with upper := some t } := ⟨spanFits.subKey, spanFits.value⟩
  rw [← covers.1]
  exact holds.insert fits

theorem remove (width : subKey.length = classDef.subW) (lower : Int64) :
    Returns (TkClassDef.remove subKey lower) tree fun _ last =>
      ∃ changed, Holds classDef last changed ∧ Removed spans subKey lower changed := by
  rcases holds.represented with ⟨depth, shape, represents, entries⟩
  have keyLength : (composite subKey lower).length = tree.keySize := by
    rw [holds.keySize, composite, List.length_append, length_encodeTs, width]
  rcases BPlusTree.remove_ok represents keyLength with
    ⟨newTree, newShape, removed, final, sameKey, sameValue, newEntries⟩
  have written : TkClassDef.remove subKey lower tree = (.ok ⟨⟩, newTree) := by
    refine TkM.write_ok ?_
    rw [removed, ok_bind]
    rfl
  refine ⟨⟨⟩, newTree, written, ?_⟩
  rcases exists_holds final (sameKey.trans holds.keySize) (sameValue.trans holds.valueSize)
    (fun span => span ∈ spans ∧ ¬(span.subKey = subKey ∧ span.lower = lower))
    (fun span isMember => holds.fits span isMember.1)
    (by
      intro entry
      rw [newEntries, mem_removeKey represents.ordered.ascending]
      exact holds.mem_entries entries width rfl entry) with
    ⟨changed, holdsChanged, sorted, mem⟩
  exact ⟨changed, holdsChanged, sorted, mem⟩

end Holds

/-- Under one sub-key the function is assigned a value, or none, from an instant up to a bound; the
spans of other sub-keys stay. -/
structure Wrote (spans : List TkSpan) (subKey : Bytes) (t : Int64) (bound : Option Int64)
    (value : Option Bytes) (changed : List TkSpan) : Prop where
  wellFormed : WellFormed changed
  assigned : Assigned spans subKey t bound value changed
  others : ∀ span, span.subKey ≠ subKey → (span ∈ changed ↔ span ∈ spans)

namespace Holds

variable (holds : Holds classDef tree spans) (wellFormed : WellFormed spans)
  (width : subKey.length = classDef.subW)

include holds wellFormed width

theorem doSet (small : value.length ≤ classDef.valueWidth.toNat) :
    Returns (classDef.doSet subKey t value) tree fun reply last =>
      reply = [⟨subKey, t, assignBound spans subKey t, value⟩] ∧
      ∃ changed, Holds classDef last changed ∧
        Wrote spans subKey t (assignBound spans subKey t) (some value) changed := by
  refine TkM.read_bind (holds.covering width wellFormed) ?_
  cases found : Timeline.covering spans subKey t with
  | none =>
      refine TkM.read_bind (holds.successorLower width wellFormed) ?_
      have bound : assignBound spans subKey t = nextLower spans subKey t := by
        rw [assignBound, found]
      have fits : classDef.Fits ⟨subKey, t, nextLower spans subKey t, value⟩ := ⟨width, small⟩
      refine (holds.insert fits).bind fun _ last inserted => Returns.pure ?_
      rcases inserted with ⟨changed, holdsChanged, put⟩
      rcases wellFormed.filled found put with ⟨wellFormedChanged, assigned⟩
      exact ⟨by rw [bound], changed, holdsChanged, wellFormedChanged, assigned,
        fun span differ => put.other differ⟩
  | some span =>
      have covers := (mem_of_covering found).2
      have bound : assignBound spans subKey t = span.upper := by rw [assignBound, found]
      have fits : classDef.Fits ⟨subKey, t, span.upper, value⟩ := ⟨width, small⟩
      simp only [Option.map_some]
      by_cases begins : span.lower = t
      · rw [if_pos begins]
        refine (holds.insert fits).bind fun _ last inserted => Returns.pure ?_
        rcases inserted with ⟨changed, holdsChanged, put⟩
        rcases wellFormed.corrected found begins put with ⟨wellFormedChanged, assigned⟩
        refine ⟨?_, changed, holdsChanged, wellFormedChanged, assigned,
          fun span differ => put.other differ⟩
        rw [bound, covers.1, begins]
      · rw [if_neg begins]
        refine (holds.close found).bind fun _ middle closed => ?_
        rcases closed with ⟨middleSpans, holdsMiddle, close⟩
        refine (holdsMiddle.insert fits).bind fun _ last inserted => Returns.pure ?_
        rcases inserted with ⟨changed, holdsChanged, put⟩
        rcases wellFormed.replaced found begins close put with ⟨wellFormedChanged, assigned⟩
        refine ⟨by rw [bound], changed, holdsChanged, wellFormedChanged, assigned, ?_⟩
        intro other differ
        rw [put.other differ, close.other (by rw [covers.1]; exact differ)]

/-- Over a gap nothing is cleared. -/
theorem doClear : Returns (classDef.doClear subKey t) tree fun _ last =>
    match Timeline.covering spans subKey t with
    | none => last = tree
    | some span => ∃ changed, Holds classDef last changed ∧
        Wrote spans subKey t span.upper none changed := by
  refine TkM.read_bind (holds.covering width wellFormed) ?_
  cases found : Timeline.covering spans subKey t with
  | none => exact Returns.pure rfl
  | some span =>
      have covers := (mem_of_covering found).2
      simp only [Option.map_some]
      by_cases begins : span.lower = t
      · rw [if_pos begins]
        refine (holds.remove width span.lower).bind fun _ last removed => Returns.pure ?_
        rcases removed with ⟨changed, holdsChanged, removed⟩
        rcases wellFormed.cleared found begins removed with ⟨wellFormedChanged, assigned⟩
        exact ⟨changed, holdsChanged, wellFormedChanged, assigned,
          fun span differ => removed.other differ⟩
      · rw [if_neg begins]
        refine (holds.close found).bind fun _ last closed => Returns.pure ?_
        rcases closed with ⟨changed, holdsChanged, close⟩
        rcases wellFormed.truncated found begins close with ⟨wellFormedChanged, assigned⟩
        refine ⟨changed, holdsChanged, wellFormedChanged, assigned, ?_⟩
        intro other differ
        exact close.other (by rw [covers.1]; exact differ)

end Holds

end Writes

/-! ## Runs -/

section Runs

variable {tree : BPlusTree} {spans : List TkSpan}

theorem validateSet_ok {subKey value : Bytes} (valid : classDef.validateSet subKey value = .ok ()) :
    subKey.length = classDef.subW ∧ value.length ≤ classDef.valueWidth.toNat := by
  by_cases width : subKey.length = classDef.subW
  · rw [validateSet, checkSubKey_ok width, ok_bind] at valid
    split at valid
    · cases valid
    · split at valid
      · cases valid
      · split at valid
        · cases valid
        · rename_i small
          exact ⟨width, Nat.not_lt.mp small⟩
  · rw [validateSet, checkSubKey, if_pos width] at valid
    cases valid

/-- What requests do to the function.  Those that the class refuses change nothing. -/
structure Writes (classDef : TkClassDef) (tree : BPlusTree) (spans : List TkSpan) : Prop where
  set : ∀ now subKey asOf value, classDef.validateSet subKey value = .ok () →
    ∃ last changed,
      classDef.execute now (.set subKey asOf value) tree =
        (.ok [⟨subKey, asOf.getD now, assignBound spans subKey (asOf.getD now), value⟩], last) ∧
      classDef.spansOf last = .ok changed ∧
      Wrote spans subKey (asOf.getD now) (assignBound spans subKey (asOf.getD now)) (some value)
        changed
  clear : ∀ now subKey asOf, classDef.checkSubKey subKey = .ok () →
    ∃ reply last, classDef.execute now (.clear subKey asOf) tree = (.ok reply, last) ∧
      match Timeline.covering spans subKey (asOf.getD now) with
      | none => last = tree
      | some span => ∃ changed, classDef.spansOf last = .ok changed ∧
          Wrote spans subKey (asOf.getD now) span.upper none changed
  refusedSet : ∀ now subKey asOf value failure, classDef.validateSet subKey value = .error failure →
    classDef.execute now (.set subKey asOf value) tree = (.error failure, tree)
  refusedClear : ∀ now subKey asOf failure, classDef.checkSubKey subKey = .error failure →
    classDef.execute now (.clear subKey asOf) tree = (.error failure, tree)

/-- What queries answer, as spans and as the function that these are. -/
structure Answers (classDef : TkClassDef) (tree : BPlusTree) (spans : List TkSpan) : Prop where
  asOf : ∀ subKey t, subKey.length = classDef.subW →
    ∃ reply, classDef.query tree (.asOf subKey t) = .ok reply ∧
      reply = (spans.filter fun span => span.Covers subKey t) ∧
      reply.map Span.value = (valueAt spans subKey t).toList
  current : ∀ subKey, subKey.length = classDef.subW →
    ∃ reply, classDef.query tree (.current subKey) = .ok reply ∧
      reply = (spans.filter fun span => span.Open subKey) ∧
      reply.map Span.value = (valueAt spans subKey Int64.maxValue).toList
  history : ∀ subKey, subKey.length = classDef.subW →
    ∃ reply, classDef.query tree (.history subKey) = .ok reply ∧
      reply = (spans.filter fun span => span.subKey = subKey) ∧
      ∀ instant value, valueAt spans subKey instant = some value ↔
        ∃ span ∈ reply, span.Covers subKey instant ∧ span.value = value
  range : ∀ subKey lower upper, subKey.length = classDef.subW →
    ∃ reply, classDef.query tree (.range subKey lower upper) = .ok reply ∧
      reply = (spans.filter fun span => span.Overlaps subKey lower upper) ∧
      ∀ instant value, lower ≤ instant → instant < upper →
        (valueAt spans subKey instant = some value ↔
          ∃ span ∈ reply, span.Covers subKey instant ∧ span.value = value)
  snapshotAt : ∀ t, ∃ reply, classDef.query tree (.snapshotAt t) = .ok reply ∧
    reply = (spans.filter fun span => span.Covers span.subKey t) ∧
    ∀ subKey value, valueAt spans subKey t = some value ↔
      ∃ span ∈ reply, span.subKey = subKey ∧ span.value = value

namespace Holds

variable (holds : Holds classDef tree spans) (wellFormed : WellFormed spans)

include holds wellFormed

theorem executeSet {now : Int64} {subKey value : Bytes} {asOf : Option Int64}
    (valid : classDef.validateSet subKey value = .ok ()) :
    Returns (classDef.execute now (.set subKey asOf value)) tree fun reply last =>
      reply = [⟨subKey, asOf.getD now, assignBound spans subKey (asOf.getD now), value⟩] ∧
      ∃ changed, Holds classDef last changed ∧
        Wrote spans subKey (asOf.getD now) (assignBound spans subKey (asOf.getD now)) (some value)
          changed := by
  rcases validateSet_ok valid with ⟨width, small⟩
  exact TkM.read_bind valid (holds.doSet wellFormed width small)

theorem executeClear {now : Int64} {subKey : Bytes} {asOf : Option Int64}
    (valid : classDef.checkSubKey subKey = .ok ()) :
    Returns (classDef.execute now (.clear subKey asOf)) tree fun _ last =>
      match Timeline.covering spans subKey (asOf.getD now) with
      | none => last = tree
      | some span => ∃ changed, Holds classDef last changed ∧
          Wrote spans subKey (asOf.getD now) span.upper none changed := by
  have width : subKey.length = classDef.subW := by
    by_contra wrong
    rw [checkSubKey, if_pos wrong] at valid
    cases valid
  exact TkM.read_bind valid (holds.doClear wellFormed width)

theorem writes : Writes classDef tree spans where
  set := by
    intro now subKey asOf value valid
    rcases holds.executeSet wellFormed valid with
      ⟨reply, last, ran, rfl, changed, holdsChanged, wrote⟩
    exact ⟨last, changed, ran, holdsChanged.spansOf, wrote⟩
  clear := by
    intro now subKey asOf valid
    rcases holds.executeClear wellFormed valid with ⟨reply, last, ran, done⟩
    refine ⟨reply, last, ran, ?_⟩
    cases found : Timeline.covering spans subKey (asOf.getD now) with
    | none =>
        rw [found] at done
        exact done
    | some span =>
        rw [found] at done
        rcases done with ⟨changed, holdsChanged, wrote⟩
        exact ⟨changed, holdsChanged.spansOf, wrote⟩
  refusedSet := fun _ _ _ _ _ fails => TkM.read_failed fails
  refusedClear := fun _ _ _ _ fails => TkM.read_failed fails

theorem answers : Answers classDef tree spans where
  asOf := by
    intro subKey t width
    refine ⟨_, holds.query_asOf width wellFormed, rfl, ?_⟩
    rw [← wellFormed.toList_covering, ← Option.toList_map]
    rfl
  current := by
    intro subKey width
    refine ⟨_, holds.query_current width wellFormed, rfl, ?_⟩
    have open_iff : ∀ span : TkSpan, span.Open subKey ↔ span.Covers subKey Int64.maxValue := by
      intro span
      refine and_congr_right fun _ => ?_
      constructor
      · intro ends
        exact ⟨Int64.le_maxValue _, by rw [ends]; nofun⟩
      · intro covers
        rw [Option.eq_none_iff_forall_ne_some]
        intro upper isUpper
        exact (covers.2 upper isUpper).not_ge (Int64.le_maxValue upper)
    simp only [open_iff]
    rw [← wellFormed.toList_covering, ← Option.toList_map]
    rfl
  history := by
    intro subKey width
    refine ⟨_, holds.query_history width wellFormed, rfl, ?_⟩
    intro instant value
    rw [wellFormed.valueAt_eq_some_iff]
    refine exists_congr fun span => ?_
    rw [List.mem_filter, decide_eq_true_eq, and_assoc]
    exact and_congr_right fun _ => (and_iff_right_of_imp fun holds => holds.1.1).symm
  range := by
    intro subKey lower upper width
    refine ⟨_, holds.query_range width wellFormed lower upper, rfl, ?_⟩
    intro instant value notBefore before
    rw [wellFormed.valueAt_eq_some_iff]
    refine exists_congr fun span => ?_
    rw [List.mem_filter, decide_eq_true_eq, and_assoc]
    refine and_congr_right fun _ => (and_iff_right_of_imp fun holds => ?_).symm
    refine ⟨holds.1.1, notBefore.trans_lt before, holds.1.2.1.trans_lt before, ?_⟩
    exact fun end_ isEnd => notBefore.trans_lt (holds.1.2.2 end_ isEnd)
  snapshotAt := by
    intro t
    refine ⟨_, holds.query_snapshotAt wellFormed, rfl, ?_⟩
    intro subKey value
    rw [wellFormed.valueAt_eq_some_iff]
    refine exists_congr fun span => ?_
    rw [List.mem_filter, decide_eq_true_eq, and_assoc]
    refine and_congr_right fun _ => ?_
    constructor
    · rintro ⟨covers, same⟩
      exact ⟨⟨rfl, covers.2⟩, covers.1, same⟩
    · rintro ⟨covers, same, isValue⟩
      exact ⟨⟨same, covers.2⟩, isValue⟩

/-- A request keeps what the tree is, whether it succeeds or is refused. -/
theorem step (request : Int64 × TkOp) :
    ∃ changed, Holds classDef (classDef.step tree request) changed ∧ WellFormed changed := by
  rcases request with ⟨now, op⟩
  have keeps : ∀ {reply last}, classDef.execute now op tree = (reply, last) →
      classDef.step tree (now, op) = last := fun ran => congrArg Prod.snd ran
  cases op with
  | set subKey asOf value =>
      cases valid : classDef.validateSet subKey value with
      | error failure =>
          rw [keeps (TkM.read_failed valid)]
          exact ⟨spans, holds, wellFormed⟩
      | ok _ =>
          rcases holds.executeSet wellFormed valid with
            ⟨reply, last, ran, _, changed, holdsChanged, wrote⟩
          rw [keeps ran]
          exact ⟨changed, holdsChanged, wrote.wellFormed⟩
  | clear subKey asOf =>
      cases valid : classDef.checkSubKey subKey with
      | error failure =>
          rw [keeps (TkM.read_failed valid)]
          exact ⟨spans, holds, wellFormed⟩
      | ok _ =>
          rcases holds.executeClear wellFormed valid with ⟨reply, last, ran, done⟩
          rw [keeps ran]
          cases found : Timeline.covering spans subKey (asOf.getD now) with
          | none =>
              rw [found] at done
              exact ⟨spans, done ▸ holds, wellFormed⟩
          | some span =>
              rw [found] at done
              rcases done with ⟨changed, holdsChanged, wrote⟩
              exact ⟨changed, holdsChanged, wrote.wellFormed⟩

theorem run (requests : List (Int64 × TkOp)) :
    ∃ changed, Holds classDef (classDef.run tree requests) changed ∧ WellFormed changed := by
  induction requests generalizing tree spans with
  | nil => exact ⟨spans, holds, wellFormed⟩
  | cons request requests ih =>
      rcases holds.step wellFormed request with ⟨middle, holdsMiddle, wellFormedMiddle⟩
      exact ih holdsMiddle wellFormedMiddle

end Holds

theorem holds_create (created : classDef.create = .ok tree) : Holds classDef tree [] := by
  rcases BPlusTree.create_ok created with ⟨represents, keySize, valueSize⟩
  exact ⟨⟨0, _, represents, rfl⟩, keySize, valueSize, nofun⟩

/-- Whatever is set and cleared and when, the spans of a history are in order and do not overlap, and
are a function of time for every sub-key: a value that is set is assigned up to where the span it
falls into ends or the gap does, a clearing removes the rest of the span it falls into, and the
queries read the function. -/
theorem refines_time_function (created : classDef.create = .ok tree)
    (requests : List (Int64 × TkOp)) :
    classDef.spansOf tree = .ok [] ∧
      ∃ spans, classDef.spansOf (classDef.run tree requests) = .ok spans ∧ WellFormed spans ∧
        Writes classDef (classDef.run tree requests) spans ∧
        Answers classDef (classDef.run tree requests) spans := by
  have start := holds_create created
  rcases start.run wellFormed_nil requests with ⟨spans, holds, wellFormed⟩
  exact ⟨start.spansOf, spans, holds.spansOf, wellFormed, holds.writes wellFormed,
    holds.answers wellFormed⟩

/-- A class of truth values under sub-keys of one byte. -/
def sampleClass : TkClassDef := ⟨"\"holdings\"", .bool, 1, 1⟩

/-- Two spans, one split in the past and one cleared, and a request that is refused. -/
def sampleRequests : List (Int64 × TkOp) :=
  [(5, .set [1] none [1]), (6, .set [1] (some (-3)) [0]), (7, .set [1] (some 2) [1]),
    (8, .clear [1] (some 4)), (9, .set [2, 3] none [1]), (10, .set [2] none [0])]

theorem refines_time_function_sample :
    ∃ tree, sampleClass.create = .ok tree ∧ sampleClass.spansOf tree = .ok [] ∧
      ∃ spans, sampleClass.spansOf (sampleClass.run tree sampleRequests) = .ok spans ∧
        WellFormed spans ∧ Writes sampleClass (sampleClass.run tree sampleRequests) spans ∧
        Answers sampleClass (sampleClass.run tree sampleRequests) spans := by
  rcases BPlusTree.exists_create (rfl : validatePageSize tkPageSize = .ok ())
    (by decide : 0 < sampleClass.subKeyWidth.toNat + 8 +
      (1 + 8 + 2 + sampleClass.valueWidth.toNat)) (by decide) (by decide) with ⟨tree, created⟩
  exact ⟨tree, created, refines_time_function created sampleRequests⟩

end Runs

end TkClassDef

end Seisin
