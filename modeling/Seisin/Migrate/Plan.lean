import Mathlib
import Seisin.Lib.Paging
import Seisin.Storage.RemoteStore

/-!
# Planning a migration

The driver of a storage migration lists the datums of every current member, and from the old and
the new ring derives which datums have to be copied where, and which copies are superseded
afterwards.  The listing of a node is read in pages.  The source keeps listings and pairs in hash
maps; nothing here depends on the order of their entries.
-/

namespace Seisin

namespace Migrate

/-! ## Listing a node -/

def pageLen : ℕ := 1024

/-- All datums of a node that does not change meanwhile, with their replication factors. -/
def listAllIds (content : Content) : List (DatumId × ℕ) :=
  Paging.collect (fun after => content.listIds after pageLen) Prod.fst pageLen
    (content.keys.length + 1) none

theorem indexedIds_eq_window {Entry : Type} (index : AList (fun _ : DatumId => Entry))
    (factor : Entry → ℕ) (after : Option DatumId) (limit : ℕ) :
    indexedIds index factor after limit =
      (Paging.window (index.keys.insertionSort (· ≤ ·)) after limit).map
        fun id => (id, ((index.lookup id).map factor).getD 0) := by
  cases after with
  | none => simp only [indexedIds, Paging.window, Paging.insertionSort_filter]; rfl
  | some last => simp only [indexedIds, Paging.window, Paging.insertionSort_filter]; rfl

theorem listAllIds_eq (content : Content) :
    listAllIds content = (content.keys.insertionSort (· ≤ ·)).map
      fun id => (id, ((content.lookup id).map Prod.snd).getD 0) := by
  simp only [listAllIds, Content.listIds, indexedIds_eq_window]
  apply Paging.collect_window
  · exact Paging.insertionSort_ascending content.keys_nodup
  · decide
  · exact fun _ => rfl
  · rw [List.length_insertionSort]
    exact Nat.lt_succ_self _

theorem mem_map_lookup {Entry : Type} {index : AList (fun _ : DatumId => Entry)}
    {factor : Entry → ℕ} {id : DatumId} {n : ℕ} :
    (id, n) ∈ (index.keys.insertionSort (· ≤ ·)).map
        (fun id => (id, ((index.lookup id).map factor).getD 0)) ↔
      (index.lookup id).map factor = some n := by
  rw [List.mem_map]
  constructor
  · rintro ⟨key, keyMem, entryEq⟩
    rw [List.mem_insertionSort, ← AList.mem_keys, ← AList.lookup_isSome,
      Option.isSome_iff_exists] at keyMem
    rcases keyMem with ⟨entry, found⟩
    simp only [found, Option.map_some, Option.getD_some, Prod.mk.injEq] at entryEq
    rcases entryEq with ⟨rfl, rfl⟩
    rw [found, Option.map_some]
  · intro found
    refine ⟨id, ?_, by rw [found, Option.getD_some]⟩
    rw [List.mem_insertionSort, ← AList.mem_keys, ← AList.lookup_isSome, ← Option.isSome_map,
      found]
    rfl

/-- A node lists exactly the datums it has, with the factors it has for them. -/
theorem mem_listAllIds {content : Content} {id : DatumId} {n : ℕ} :
    (id, n) ∈ listAllIds content ↔ ∃ bytes, content.lookup id = some (bytes, n) := by
  rw [listAllIds_eq, mem_map_lookup, Option.map_eq_some_iff]
  constructor
  · rintro ⟨⟨bytes, factor⟩, found, rfl⟩
    exact ⟨bytes, found⟩
  · rintro ⟨bytes, found⟩
    exact ⟨(bytes, n), found, rfl⟩

/-! ## Enumerating the current members -/

/-- What the driver has gathered: a replication factor for every datum listed, the last listing
winning, and the nodes that answered. -/
structure Enumeration where
  idFactors : AList (fun _ : DatumId => ℕ)
  reachable : List NodeId

namespace Enumeration

def empty : Enumeration := ⟨∅, []⟩

def extend (factors : AList (fun _ : DatumId => ℕ)) (page : List (DatumId × ℕ)) :
    AList (fun _ : DatumId => ℕ) :=
  page.foldl (fun factors entry => factors.insert entry.1 entry.2) factors

/-- Records the listing of a node, or that the node could not be reached. -/
def record (enumeration : Enumeration) (node : NodeId) :
    Option (List (DatumId × ℕ)) → Enumeration
  | none => enumeration
  | some page => ⟨extend enumeration.idFactors page, enumeration.reachable ++ [node]⟩

def allIds (enumeration : Enumeration) : List (DatumId × ℕ) :=
  enumeration.idFactors.entries.map fun entry => (entry.1, entry.2)

end Enumeration

/-- Lists one member after another, skipping those that do not answer. -/
def enumerate (members : List NodeId) (content : NodeId → Content) (answers : NodeId → Bool) :
    Enumeration :=
  members.foldl
    (fun enumeration node => enumeration.record node
      (if answers node then some (listAllIds (content node)) else none)) .empty

/-! ## The moves and drops of a plan -/

structure Move where
  id : DatumId
  source : NodeId
  dest : NodeId
  deriving DecidableEq

variable (hash : ℕ → ℕ → ℕ)

/-- One copy per node that becomes a replica, from the datum's current primary. -/
def planMoves (old new : Ring) (ids : List (DatumId × ℕ)) : List Move :=
  ids.flatMap fun entry =>
    let oldSet := old.replicas hash entry.1 entry.2
    match oldSet.head? with
    | none => []
    | some source =>
        ((new.replicas hash entry.1 entry.2).filter fun dest => dest ∉ oldSet).map
          fun dest => ⟨entry.1, source, dest⟩

/-- The superseded copies: one per node that stops being a replica. -/
def planDrops (old new : Ring) (ids : List (DatumId × ℕ)) : List (NodeId × DatumId) :=
  ids.flatMap fun entry =>
    let newSet := new.replicas hash entry.1 entry.2
    ((old.replicas hash entry.1 entry.2).filter fun node => node ∉ newSet).map
      fun node => (node, entry.1)

/-- Moves the source of a copy off a node that did not answer, onto the first old replica that
did. -/
def reroute (old : Ring) (enumeration : Enumeration) (move : Move) : Option Move :=
  if move.source ∈ enumeration.reachable then some move
  else
    let n := (enumeration.idFactors.lookup move.id).getD 1
    ((old.replicas hash move.id n).find? fun node => node ∈ enumeration.reachable).map
      fun source => { move with source := source }

def moves (old new : Ring) (enumeration : Enumeration) : List Move :=
  (planMoves hash old new enumeration.allIds).filterMap (reroute hash old enumeration)

def drops (old new : Ring) (enumeration : Enumeration) : List (NodeId × DatumId) :=
  planDrops hash old new enumeration.allIds

/-- The ids to copy, by source and destination. -/
def byPair (moves : List Move) : AList (fun _ : NodeId × NodeId => List DatumId) :=
  moves.foldl
    (fun pairs move => pairs.insert (move.source, move.dest)
      ((pairs.lookup (move.source, move.dest)).getD [] ++ [move.id])) ∅

end Migrate

/-- What a compute node reports of its storage ring to the driver. -/
def ClusterState.getClusterConfig (state : ClusterState) : List StorageMember :=
  state.storageRing.weights.map fun member =>
    ⟨member.1, member.2, (state.storeAddresses member.1).getD "",
      (state.identityBook member.1).getD 0⟩

namespace Migrate

/-! ## What an enumeration has -/

section Enumeration

variable {content : NodeId → Content} {answers : NodeId → Bool} {id : DatumId} {n : ℕ}

theorem mem_allIds {enumeration : Enumeration} :
    (id, n) ∈ enumeration.allIds ↔ enumeration.idFactors.lookup id = some n := by
  rw [Enumeration.allIds, List.mem_map, ← Option.mem_def, AList.mem_lookup_iff]
  constructor
  · rintro ⟨⟨key, factor⟩, entryMem, entryEq⟩
    cases entryEq
    exact entryMem
  · intro entryMem
    exact ⟨⟨id, n⟩, entryMem, rfl⟩

/-- What is known after a page was either on it or known before. -/
theorem lookup_extend {factors : AList (fun _ : DatumId => ℕ)} {page : List (DatumId × ℕ)}
    (found : (Enumeration.extend factors page).lookup id = some n) :
    (id, n) ∈ page ∨ factors.lookup id = some n := by
  induction page generalizing factors with
  | nil => exact Or.inr found
  | cons entry page ih =>
      rcases ih found with later | now
      · exact Or.inl (List.mem_cons_of_mem _ later)
      · by_cases same : id = entry.1
        · subst same
          rw [AList.lookup_insert, Option.some.injEq] at now
          subst now
          exact Or.inl List.mem_cons_self
        · rw [AList.lookup_insert_ne same] at now
          exact Or.inr now

theorem isSome_extend {factors : AList (fun _ : DatumId => ℕ)} {page : List (DatumId × ℕ)}
    (known : (factors.lookup id).isSome ∨ ∃ n, (id, n) ∈ page) :
    ((Enumeration.extend factors page).lookup id).isSome := by
  induction page generalizing factors with
  | nil =>
      rcases known with before | ⟨n, impossible⟩
      · exact before
      · cases impossible
  | cons entry page ih =>
      apply ih
      by_cases same : id = entry.1
      · subst same
        rw [AList.lookup_insert]
        exact Or.inl rfl
      · rw [AList.lookup_insert_ne same]
        rcases known with before | ⟨n, listed⟩
        · exact Or.inl before
        · rcases List.mem_cons.mp listed with first | later
          · exact absurd (congrArg Prod.fst first) same
          · exact Or.inr ⟨n, later⟩

theorem enumerate_snoc (members : List NodeId) (node : NodeId) :
    enumerate (members ++ [node]) content answers = (enumerate members content answers).record node
      (if answers node then some (listAllIds (content node)) else none) := by
  simp only [enumerate, List.foldl_append, List.foldl_cons, List.foldl_nil]

/-- A datum is known with a factor that one of the members that answered has for it. -/
theorem lookup_enumerate {members : List NodeId}
    (found : (enumerate members content answers).idFactors.lookup id = some n) :
    ∃ node ∈ members, answers node = true ∧
      ∃ bytes, (content node).lookup id = some (bytes, n) := by
  induction members using List.reverseRecOn with
  | nil => cases found
  | append_singleton members node ih =>
      rw [enumerate_snoc] at found
      have inside : node ∈ members ++ [node] :=
        List.mem_append_right members (List.mem_singleton_self node)
      by_cases answered : answers node = true
      · rw [if_pos answered] at found
        rcases lookup_extend found with listed | before
        · exact ⟨node, inside, answered, mem_listAllIds.mp listed⟩
        · rcases ih before with ⟨other, otherMem, rest⟩
          exact ⟨other, List.mem_append_left _ otherMem, rest⟩
      · rw [if_neg answered] at found
        rcases ih found with ⟨other, otherMem, rest⟩
        exact ⟨other, List.mem_append_left _ otherMem, rest⟩

/-- Every datum of a member that answered is known. -/
theorem isSome_enumerate {members : List NodeId} {node : NodeId} {bytes : Bytes}
    (member : node ∈ members) (answered : answers node = true)
    (held : (content node).lookup id = some (bytes, n)) :
    ((enumerate members content answers).idFactors.lookup id).isSome := by
  induction members using List.reverseRecOn with
  | nil => cases member
  | append_singleton members last ih =>
      rw [enumerate_snoc]
      rcases List.mem_append.mp member with earlier | same
      · by_cases lastAnswered : answers last = true
        · rw [if_pos lastAnswered]
          exact isSome_extend (Or.inl (ih earlier))
        · rw [if_neg lastAnswered]
          exact ih earlier
      · rw [List.mem_singleton] at same
        subst same
        rw [if_pos answered]
        exact isSome_extend (Or.inr ⟨n, mem_listAllIds.mpr ⟨bytes, held⟩⟩)

theorem mem_reachable_enumerate {members : List NodeId} {node : NodeId} :
    node ∈ (enumerate members content answers).reachable ↔
      node ∈ members ∧ answers node = true := by
  induction members using List.reverseRecOn with
  | nil => simp [enumerate, Enumeration.empty]
  | append_singleton members last ih =>
      rw [enumerate_snoc]
      by_cases lastAnswered : answers last = true
      · rw [if_pos lastAnswered]
        simp only [Enumeration.record, List.mem_append, List.mem_singleton, ih]
        grind
      · rw [if_neg lastAnswered]
        simp only [Enumeration.record, List.mem_append, List.mem_singleton, ih]
        grind

end Enumeration

/-! ## What a plan has -/

section Plan

variable {hash : ℕ → ℕ → ℕ} {old new : Ring} {enumeration : Enumeration}

theorem mem_planMoves {ids : List (DatumId × ℕ)} {move : Move} :
    move ∈ planMoves hash old new ids ↔ ∃ n, (move.id, n) ∈ ids ∧
      (old.replicas hash move.id n).head? = some move.source ∧
      move.dest ∈ new.replicas hash move.id n ∧ move.dest ∉ old.replicas hash move.id n := by
  simp only [planMoves, List.mem_flatMap]
  constructor
  · rintro ⟨⟨id, n⟩, listed, planned⟩
    cases primary : (old.replicas hash id n).head? with
    | none => simp [primary] at planned
    | some source =>
        simp only [primary, List.mem_map, List.mem_filter, decide_eq_true_eq] at planned
        rcases planned with ⟨dest, ⟨inNew, notOld⟩, rfl⟩
        exact ⟨n, listed, primary, inNew, notOld⟩
  · rintro ⟨n, listed, primary, inNew, notOld⟩
    refine ⟨(move.id, n), listed, ?_⟩
    simp only [primary, List.mem_map, List.mem_filter, decide_eq_true_eq]
    exact ⟨move.dest, ⟨inNew, notOld⟩, rfl⟩

/-- A copy is planned for every node that becomes a replica, from the first old replica in rank
order that answered. -/
theorem mem_moves {move : Move} :
    move ∈ moves hash old new enumeration ↔ ∃ n,
      enumeration.idFactors.lookup move.id = some n ∧
      (old.replicas hash move.id n).find? (fun node => node ∈ enumeration.reachable) =
        some move.source ∧
      move.dest ∈ new.replicas hash move.id n ∧ move.dest ∉ old.replicas hash move.id n := by
  simp only [moves, List.mem_filterMap, mem_planMoves, mem_allIds]
  constructor
  · rintro ⟨planned, ⟨n, known, primary, inNew, notOld⟩, rerouted⟩
    rcases List.head?_eq_some_iff.mp primary with ⟨others, ranked⟩
    unfold reroute at rerouted
    split at rerouted
    · rename_i answered
      cases rerouted
      refine ⟨n, known, ?_, inNew, notOld⟩
      rw [ranked, List.find?_cons_of_pos (by simpa using answered)]
    · simp only [known, Option.getD_some, Option.map_eq_some_iff] at rerouted
      rcases rerouted with ⟨source, found, rfl⟩
      exact ⟨n, known, found, inNew, notOld⟩
  · rintro ⟨n, known, found, inNew, notOld⟩
    cases ranked : old.replicas hash move.id n with
    | nil => simp [ranked] at found
    | cons primary others =>
        refine ⟨⟨move.id, primary, move.dest⟩, ⟨n, known, by simp [ranked], inNew, notOld⟩, ?_⟩
        unfold reroute
        split
        · rename_i answered
          rw [ranked, List.find?_cons_of_pos (by simpa using answered)] at found
          cases found
          rfl
        · simp only [known, Option.getD_some, found, Option.map_some]

theorem mem_planDrops {ids : List (DatumId × ℕ)} {node : NodeId} {id : DatumId} :
    (node, id) ∈ planDrops hash old new ids ↔ ∃ n, (id, n) ∈ ids ∧
      node ∈ old.replicas hash id n ∧ node ∉ new.replicas hash id n := by
  simp only [planDrops, List.mem_flatMap, List.mem_map, List.mem_filter, decide_eq_true_eq]
  constructor
  · rintro ⟨⟨id, n⟩, listed, dropped, ⟨inOld, notNew⟩, same⟩
    cases same
    exact ⟨n, listed, inOld, notNew⟩
  · rintro ⟨n, listed, inOld, notNew⟩
    exact ⟨(id, n), listed, node, ⟨inOld, notNew⟩, rfl⟩

theorem mem_drops {node : NodeId} {id : DatumId} :
    (node, id) ∈ drops hash old new enumeration ↔ ∃ n,
      enumeration.idFactors.lookup id = some n ∧
      node ∈ old.replicas hash id n ∧ node ∉ new.replicas hash id n := by
  simp only [drops, mem_planDrops, mem_allIds]

/-- No move of a plan ends where another move of the same datum starts, and all moves of a datum to
one node start at the same source. -/
structure Separate (moves : List Move) : Prop where
  apart : ∀ first ∈ moves, ∀ second ∈ moves, first.id = second.id → first.dest ≠ second.source
  source : ∀ first ∈ moves, ∀ second ∈ moves, first.id = second.id → first.dest = second.dest →
    first.source = second.source

theorem separate_moves (hash : ℕ → ℕ → ℕ) (old new : Ring) (enumeration : Enumeration) :
    Separate (moves hash old new enumeration) := by
  constructor
  · intro first firstMem second secondMem sameId
    rcases mem_moves.mp firstMem with ⟨n, known, _, _, notOld⟩
    rcases mem_moves.mp secondMem with ⟨m, knownToo, found, _, _⟩
    rw [← sameId, known, Option.some.injEq] at knownToo
    subst knownToo
    have ranked := List.mem_of_find?_eq_some found
    rw [← sameId] at ranked
    intro same
    exact notOld (same ▸ ranked)
  · intro first firstMem second secondMem sameId _
    rcases mem_moves.mp firstMem with ⟨n, known, found, _, _⟩
    rcases mem_moves.mp secondMem with ⟨m, knownToo, foundToo, _, _⟩
    rw [← sameId, known, Option.some.injEq] at knownToo
    subst knownToo
    rw [← sameId, found, Option.some.injEq] at foundToo
    exact foundToo

theorem byPair_snoc (moves : List Move) (move : Move) :
    byPair (moves ++ [move]) = (byPair moves).insert (move.source, move.dest)
      (((byPair moves).lookup (move.source, move.dest)).getD [] ++ [move.id]) := by
  simp only [byPair, List.foldl_append, List.foldl_cons, List.foldl_nil]

/-- The pairs have exactly the moves of the plan. -/
theorem mem_lookup_byPair {moves : List Move} {source dest : NodeId} {id : DatumId} :
    id ∈ ((byPair moves).lookup (source, dest)).getD [] ↔ ⟨id, source, dest⟩ ∈ moves := by
  induction moves using List.reverseRecOn with
  | nil => simp [byPair]
  | append_singleton moves move ih =>
      rw [byPair_snoc]
      by_cases same : (source, dest) = (move.source, move.dest)
      · cases same
        rw [AList.lookup_insert, Option.getD_some, List.mem_append, ih, List.mem_append,
          List.mem_singleton, List.mem_singleton]
        constructor
        · rintro (before | rfl)
          · exact Or.inl before
          · exact Or.inr rfl
        · rintro (before | last)
          · exact Or.inl before
          · exact Or.inr (congrArg Move.id last)
      · rw [AList.lookup_insert_ne same, ih, List.mem_append, List.mem_singleton]
        constructor
        · exact Or.inl
        · rintro (before | rfl)
          · exact before
          · exact absurd rfl same

theorem mem_byPair {moves : List Move} {move : Move} :
    move ∈ moves ↔ ∃ entry ∈ (byPair moves).entries,
      entry.1 = (move.source, move.dest) ∧ move.id ∈ entry.2 := by
  have found : move.id ∈ ((byPair moves).lookup (move.source, move.dest)).getD [] ↔
      move ∈ moves := mem_lookup_byPair
  constructor
  · intro planned
    have listed := found.mpr planned
    cases looked : (byPair moves).lookup (move.source, move.dest) with
    | none =>
        rw [looked] at listed
        cases listed
    | some ids =>
        rw [looked] at listed
        exact ⟨⟨_, ids⟩, AList.mem_lookup_iff.mp looked, rfl, listed⟩
  · rintro ⟨⟨pair, ids⟩, entryMem, rfl, listed⟩
    have looked := AList.mem_lookup_iff.mpr entryMem
    rw [Option.mem_def] at looked
    rw [looked] at found
    exact found.mp listed

/-- No pair is without a move. -/
theorem exists_mem_of_mem_byPair {moves : List Move} :
    ∀ entry ∈ (byPair moves).entries, ∃ id, ⟨id, entry.1.1, entry.1.2⟩ ∈ moves := by
  rintro ⟨pair, ids⟩ entryMem
  have looked := AList.mem_lookup_iff.mpr entryMem
  rw [Option.mem_def] at looked
  have nonempty : ids ≠ [] := by
    clear entryMem
    induction moves using List.reverseRecOn generalizing ids with
    | nil => cases looked
    | append_singleton moves move ih =>
        rw [byPair_snoc] at looked
        by_cases same : pair = (move.source, move.dest)
        · subst same
          rw [AList.lookup_insert, Option.some.injEq] at looked
          rw [← looked]
          exact List.append_ne_nil_of_right_ne_nil _ (List.cons_ne_nil _ _)
        · rw [AList.lookup_insert_ne same] at looked
          exact ih ids looked
  rcases List.exists_mem_of_ne_nil ids nonempty with ⟨id, idMem⟩
  exact ⟨id, mem_byPair.mpr ⟨⟨pair, ids⟩, entryMem, rfl, idMem⟩⟩

/-- All current members answered, and the hash picks one of the slots. -/
theorem find?_primary {members : List NodeId} {content : NodeId → Content}
    (inRange : ∀ key slots, 0 < slots → hash key slots < slots)
    (known : ∀ node ∈ old.nodeIds, node ∈ members) {id : DatumId} {n : ℕ} {source : NodeId} :
    (old.replicas hash id n).find? (fun node =>
        node ∈ (enumerate members content fun _ => true).reachable) = some source ↔
      old.replicas hash id n ≠ [] ∧ source = old.nodeAt hash (hashKey id) := by
  by_cases present : old.replicas hash id n = []
  · simp [present]
  · rcases List.head?_eq_some_iff.mp (Ring.head?_replicas present) with ⟨others, ranked⟩
    have answered : old.nodeAt hash (hashKey id) ∈
        (enumerate members content fun _ => true).reachable := by
      rw [mem_reachable_enumerate]
      exact ⟨known _ (Ring.mem_nodeIds_of_mem_replicas inRange (Ring.nodeAt_mem_replicas present)),
        rfl⟩
    rw [ranked, List.find?_cons_of_pos (by simpa using answered)]
    simp only [Option.some.injEq, ne_eq, List.cons_ne_nil, not_false_eq_true, true_and]
    exact eq_comm

end Plan

/-! ## What a plan amounts to

Here the ids are any list that has none twice; the driver takes them from a map. -/

namespace Enumeration

/-- The factors of a list of ids, and some nodes that answered. -/
def ofIds (ids : List (DatumId × ℕ)) (distinct : (ids.map Prod.fst).Nodup)
    (reachable : List NodeId) : Enumeration :=
  ⟨⟨ids.map fun entry => ⟨entry.1, entry.2⟩, by
    simpa [List.NodupKeys, List.keys, Function.comp_def] using distinct⟩, reachable⟩

theorem allIds_ofIds (ids : List (DatumId × ℕ)) (distinct : (ids.map Prod.fst).Nodup)
    (reachable : List NodeId) : (ofIds ids distinct reachable).allIds = ids := by
  simp [ofIds, allIds, Function.comp_def]

end Enumeration

def destsOf (moves : List Move) (id : DatumId) : List NodeId :=
  (moves.filter fun move => move.id = id).map Move.dest

def droppedFrom (drops : List (NodeId × DatumId)) (id : DatumId) : List NodeId :=
  (drops.filter fun drop => drop.2 = id).map Prod.fst

section Amounts

variable {hash : ℕ → ℕ → ℕ} {old new : Ring} {ids : List (DatumId × ℕ)} {id : DatumId} {n : ℕ}

theorem factor_unique (distinct : (ids.map Prod.fst).Nodup) {m : ℕ} (listed : (id, n) ∈ ids)
    (listedToo : (id, m) ∈ ids) : m = n :=
  congrArg Prod.snd (List.inj_on_of_nodup_map distinct listedToo listed rfl)

theorem mem_destsOf (distinct : (ids.map Prod.fst).Nodup) (listed : (id, n) ∈ ids)
    {dest : NodeId} :
    dest ∈ destsOf (planMoves hash old new ids) id ↔ old.replicas hash id n ≠ [] ∧
      dest ∈ new.replicas hash id n ∧ dest ∉ old.replicas hash id n := by
  simp only [destsOf, List.mem_map, List.mem_filter, decide_eq_true_eq, mem_planMoves]
  constructor
  · rintro ⟨move, ⟨⟨m, listedToo, primary, inNew, notOld⟩, rfl⟩, rfl⟩
    have same := factor_unique distinct listed listedToo
    subst same
    exact ⟨List.ne_nil_of_mem (List.mem_of_mem_head? primary), inNew, notOld⟩
  · rintro ⟨present, inNew, notOld⟩
    rcases List.exists_cons_of_ne_nil present with ⟨source, others, ranked⟩
    refine ⟨⟨id, source, dest⟩, ⟨⟨n, listed, ?_, inNew, notOld⟩, rfl⟩, rfl⟩
    rw [ranked, List.head?_cons]

theorem mem_droppedFrom (distinct : (ids.map Prod.fst).Nodup) (listed : (id, n) ∈ ids)
    {node : NodeId} :
    node ∈ droppedFrom (planDrops hash old new ids) id ↔
      node ∈ old.replicas hash id n ∧ node ∉ new.replicas hash id n := by
  simp only [droppedFrom, List.mem_map, List.mem_filter, decide_eq_true_eq]
  constructor
  · rintro ⟨⟨node, id⟩, ⟨dropped, rfl⟩, rfl⟩
    rcases mem_planDrops.mp dropped with ⟨m, listedToo, inOld, notNew⟩
    have same := factor_unique distinct listed listedToo
    subst same
    exact ⟨inOld, notNew⟩
  · rintro ⟨inOld, notNew⟩
    exact ⟨(node, id), ⟨mem_planDrops.mpr ⟨n, listed, inOld, notNew⟩, rfl⟩, rfl⟩

/-- Copies and drops turn the old replicas into the new ones, unless there is none to copy from. -/
theorem replicas_of_plan (distinct : (ids.map Prod.fst).Nodup) (listed : (id, n) ∈ ids) :
    ((old.replicas hash id n).toFinset ∪ (destsOf (planMoves hash old new ids) id).toFinset) \
        (droppedFrom (planDrops hash old new ids) id).toFinset =
          (new.replicas hash id n).toFinset ↔
      (old.replicas hash id n = [] → new.replicas hash id n = []) := by
  simp only [Finset.ext_iff, Finset.mem_sdiff, Finset.mem_union, List.mem_toFinset,
    mem_destsOf distinct listed, mem_droppedFrom distinct listed]
  constructor
  · intro turned absent
    rw [List.eq_nil_iff_forall_not_mem]
    intro node inNew
    rcases (turned node).mpr inNew with ⟨inOld | copied, _⟩
    · rw [absent] at inOld
      exact List.not_mem_nil inOld
    · exact copied.1 absent
  · intro emptied node
    constructor
    · rintro ⟨inOld | copied, kept⟩
      · exact by_contra fun notNew => kept ⟨inOld, notNew⟩
      · exact copied.2.1
    · intro inNew
      refine ⟨?_, fun dropped => dropped.2 inNew⟩
      have present : old.replicas hash id n ≠ [] := by
        intro absent
        rw [emptied absent] at inNew
        exact List.not_mem_nil inNew
      by_cases inOld : node ∈ old.replicas hash id n
      · exact Or.inl inOld
      · exact Or.inr ⟨present, inNew, inOld⟩

theorem nodup_planMoves (distinct : (ids.map Prod.fst).Nodup) :
    ((planMoves hash old new ids).map fun move => (move.id, move.dest)).Nodup := by
  induction ids with
  | nil => exact List.nodup_nil
  | cons entry ids ih =>
      rw [List.map_cons, List.nodup_cons] at distinct
      have planned : planMoves hash old new (entry :: ids) =
          planMoves hash old new [entry] ++ planMoves hash old new ids := by
        simp only [planMoves, List.flatMap_cons, List.flatMap_nil, List.append_nil]
      rw [planned, List.map_append, List.nodup_append']
      refine ⟨?_, ih distinct.2, ?_⟩
      · cases primary : (old.replicas hash entry.1 entry.2).head? with
        | none => simp [planMoves, primary]
        | some source =>
            have once := (Ring.replicas_nodup hash new entry.1 entry.2).filter
              fun dest => dest ∉ old.replicas hash entry.1 entry.2
            simp only [planMoves, List.flatMap_cons, List.flatMap_nil, List.append_nil, primary,
              List.map_map]
            exact once.map fun dest other same => congrArg Prod.snd same
      · intro pair here later
        rcases List.mem_map.mp here with ⟨first, firstMem, rfl⟩
        rcases List.mem_map.mp later with ⟨second, secondMem, same⟩
        rcases mem_planMoves.mp firstMem with ⟨n, listed, _⟩
        rcases mem_planMoves.mp secondMem with ⟨m, listedToo, _⟩
        have sameId : second.id = first.id := congrArg Prod.fst same
        rw [sameId] at listedToo
        have head : first.id = entry.1 := congrArg Prod.fst (List.mem_singleton.mp listed)
        rw [head] at listedToo
        exact distinct.1 (List.mem_map.mpr ⟨(entry.1, m), listedToo, rfl⟩)

/-- A plan between equal rings has nothing to do. -/
theorem plan_self (ring : Ring) (ids : List (DatumId × ℕ)) :
    planMoves hash ring ring ids = [] ∧ planDrops hash ring ring ids = [] := by
  constructor
  · rw [List.eq_nil_iff_forall_not_mem]
    intro move planned
    rcases mem_planMoves.mp planned with ⟨n, _, _, inNew, notOld⟩
    exact notOld inNew
  · rw [List.eq_nil_iff_forall_not_mem]
    rintro ⟨node, id⟩ dropped
    rcases mem_planDrops.mp dropped with ⟨n, _, inOld, notNew⟩
    exact notNew inOld

theorem reroute_source {enumeration : Enumeration} {move rerouted : Move}
    (found : reroute hash old enumeration move = some rerouted) :
    rerouted.source ∈ enumeration.reachable := by
  unfold reroute at found
  split at found
  · rename_i answered
    cases found
    exact answered
  · rcases Option.map_eq_some_iff.mp found with ⟨source, first, rfl⟩
    simpa using List.find?_some first

theorem reroute_none {enumeration : Enumeration} {move : Move}
    (known : enumeration.idFactors.lookup move.id = some n)
    (lost : reroute hash old enumeration move = none) :
    ∀ node ∈ old.replicas hash move.id n, node ∉ enumeration.reachable := by
  unfold reroute at lost
  split at lost
  · cases lost
  · simpa [known] using lost

/-- For every datum with an old replica, the plan's copies and drops turn the old replicas into the
new ones; a datum without one is left where it is, nowhere.  No copy is planned twice or onto an old
replica, each is taken from an old replica that answered, and only a copy without one is given up. -/
theorem plan_correct (hash : ℕ → ℕ → ℕ) (old new : Ring) (ids : List (DatumId × ℕ))
    (distinct : (ids.map Prod.fst).Nodup) (reachable : List NodeId) :
    let enumeration := Enumeration.ofIds ids distinct reachable
    let planned := planMoves hash old new ids
    (∀ id n, (id, n) ∈ ids →
      (((old.replicas hash id n).toFinset ∪ (destsOf planned id).toFinset) \
          (droppedFrom (planDrops hash old new ids) id).toFinset =
            (new.replicas hash id n).toFinset ↔
        (old.replicas hash id n = [] → new.replicas hash id n = []))) ∧
      (∀ move ∈ planned, ∀ n, (move.id, n) ∈ ids → move.dest ∉ old.replicas hash move.id n) ∧
      (planned.map fun move => (move.id, move.dest)).Nodup ∧
      moves hash old new enumeration = planned.filterMap (reroute hash old enumeration) ∧
      (∀ move ∈ moves hash old new enumeration, move.source ∈ reachable ∧
        ∃ n, (move.id, n) ∈ ids ∧ move.source ∈ old.replicas hash move.id n) ∧
      (∀ move ∈ planned, reroute hash old enumeration move = none →
        ∀ n, (move.id, n) ∈ ids → ∀ node ∈ old.replicas hash move.id n, node ∉ reachable) ∧
      (old = new → planned = [] ∧ planDrops hash old new ids = []) := by
  intro enumeration planned
  have factors {id n} : enumeration.idFactors.lookup id = some n ↔ (id, n) ∈ ids := by
    rw [← mem_allIds, Enumeration.allIds_ofIds]
  refine ⟨?_, ?_, nodup_planMoves distinct, ?_, ?_, ?_, ?_⟩
  · exact fun id n listed => replicas_of_plan distinct listed
  · intro move moveMem n listed
    rcases mem_planMoves.mp moveMem with ⟨m, listedToo, _, _, notOld⟩
    rwa [factor_unique distinct listed listedToo] at notOld
  · rw [moves, Enumeration.allIds_ofIds]
  · intro move moveMem
    rcases mem_moves.mp moveMem with ⟨n, known, found, _⟩
    rcases List.mem_filterMap.mp moveMem with ⟨_, _, rerouted⟩
    exact ⟨reroute_source rerouted, n, factors.mp known, List.mem_of_find?_eq_some found⟩
  · exact fun move _ lost n listed => reroute_none (factors.mpr listed) lost
  · intro same
    subst same
    exact plan_self old ids

/-- Node 1 leaves and does not answer: its copies are taken from node 2. -/
theorem plan_correct_rerouted :
    let old := Ring.fromMembers [(1, 1), (2, 1)]
    let new := Ring.fromMembers [(2, 1), (3, 1)]
    let ids : List (DatumId × ℕ) := [(0, 2), (2 ^ 56, 2)]
    let enumeration := Enumeration.ofIds ids (by decide) [2]
    ((old.replicas JumpBackHasher.hash 0 2).toFinset ∪
        (destsOf (planMoves JumpBackHasher.hash old new ids) 0).toFinset) \
        (droppedFrom (planDrops JumpBackHasher.hash old new ids) 0).toFinset =
      (new.replicas JumpBackHasher.hash 0 2).toFinset ∧
      ∀ move ∈ moves JumpBackHasher.hash old new enumeration, move.source ∈ [2] ∧
        ∃ n, (move.id, n) ∈ ids ∧ move.source ∈ old.replicas JumpBackHasher.hash move.id n := by
  intro old new ids enumeration
  have correct := plan_correct JumpBackHasher.hash old new ids (by decide) [2]
  exact ⟨(correct.1 0 2 (by decide)).mpr (by decide +kernel), correct.2.2.2.2.1⟩

/-- Nothing is planned for a datum that has no old replica, and a datum that is listed with two
factors is planned twice. -/
theorem plan_not_turned :
    let empty := Ring.fromMembers []
    let one := Ring.fromMembers [(1, 1)]
    let two := Ring.fromMembers [(2, 1), (3, 1)]
    (((empty.replicas JumpBackHasher.hash 0 1).toFinset ∪
          (destsOf (planMoves JumpBackHasher.hash empty one [(0, 1)]) 0).toFinset) \
        (droppedFrom (planDrops JumpBackHasher.hash empty one [(0, 1)]) 0).toFinset ≠
      (one.replicas JumpBackHasher.hash 0 1).toFinset) ∧
      ([(0, 1), (0, 2)] : List (DatumId × ℕ)).Nodup ∧
      ¬((planMoves JumpBackHasher.hash one two [(0, 1), (0, 2)]).map
        fun move => (move.id, move.dest)).Nodup := by
  decide +kernel

end Amounts

end Migrate

end Seisin
