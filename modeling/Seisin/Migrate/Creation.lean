import Seisin.Migrate.Collections
import Seisin.Storage.BTree.Parameters

/-!
# Creating collections

A request to create a collection brings the sizes of its keys and values with it, and the storage
node makes a tree of them while it holds the registry of its collections.  Records of no bytes make
it panic there, and the registry is lost to every later request.
-/

namespace Seisin

namespace StorageNode

/-- The answer to a request to create a collection: an error, or an acknowledgement with a tree that
can be used. -/
def Answered (collectionId : DatumId) : Option (CollectionResponse × StorageNode) → Prop
  | none => False
  | some (.error _, _) => True
  | some (.ack, node) => ∃ tree, node.collections collectionId = some tree ∧ tree.Usable

theorem create_answered_iff (dataDir : String) {node : StorageNode} {collectionId : DatumId}
    (absent : node.collections collectionId = none) (keySize valueSize : ℕ) :
    Answered collectionId
        (node.serveCollection dataDir (.create collectionId keySize valueSize)) ↔
      0 < keySize + valueSize := by
  have valid : validatePageSize collectionPageSize = .ok () := rfl
  have validated := BPlusTree.create_validated_iff keySize valueSize collectionPageSize
  rw [forall_prop_of_true valid] at validated
  rw [← validated]
  simp only [serveCollection, withCollection, openCollection, absent]
  cases created : BPlusTree.create keySize valueSize collectionPageSize with
  | ok tree =>
      simp only [Answered, BPlusTree.Validated]
      rw [Function.update_self]
      constructor
      · rintro ⟨other, same, usable⟩
        cases same
        exact usable
      · exact fun usable => ⟨tree, rfl, usable⟩
  | error failure =>
      cases failure with
      | error message => exact Iff.rfl
      | panic => exact Iff.rfl

end StorageNode

namespace BPlusTree

/-- When the sizes of a tree are checked: on creating it, on opening its file, and on a request for
a collection that a storage node does not have yet. -/
theorem tree_parameters_validated_iff (keySize valueSize pageSize : ℕ) :
    (Validated (create keySize valueSize pageSize) ↔
      (validatePageSize pageSize = .ok () → 0 < keySize + valueSize)) ∧
    (∀ (store : PageStore) (rootPageId : PageId) (totalCount : ℕ) (nextPageId : PageId) (depth : ℕ)
      (shape : Shape depth),
      Laid (described store ⟨pageSize, keySize, valueSize, rootPageId, totalCount, nextPageId⟩)
        shape →
      (Validated (openFile store) ↔
        (validatePageSize pageSize = .ok () → RecordFits keySize valueSize pageSize))) ∧
    ∀ (dataDir : String) (node : StorageNode) (collectionId : DatumId),
      node.collections collectionId = none →
      (StorageNode.Answered collectionId
          (node.serveCollection dataDir (.create collectionId keySize valueSize)) ↔
        0 < keySize + valueSize) :=
  ⟨create_validated_iff keySize valueSize pageSize,
    fun _ _ _ _ _ _ laid => openFile_validated_iff laid,
    fun dataDir _ _ absent => StorageNode.create_answered_iff dataDir absent keySize valueSize⟩

/-- An empty tree of records of eight and eight bytes is opened and can be used. -/
theorem tree_parameters_validated_iff_sample :
    Validated (openFile (emptyFile 8 8 4096)) :=
  ((tree_parameters_validated_iff 8 8 4096).2.1 _ _ _ _ 0 _ (laid_emptyFile 8 8 4096)).mpr
    fun _ => by
      rw [RecordFits]
      decide

/-- Records of no bytes are divided by, in a request to create a collection as well, and a file of
records longer than a page is opened as a tree without room. -/
theorem tree_parameters_not_validated :
    ¬Validated (create 0 0 4096) ∧ ¬Validated (openFile (emptyFile 0 0 4096)) ∧
      ¬Validated (openFile (emptyFile 5000 0 4096)) ∧
      ∀ (dataDir : String) (node : StorageNode) (collectionId : DatumId),
        node.collections collectionId = none →
        node.serveCollection dataDir (.create collectionId 0 0) = none := by
  refine ⟨id, id, ?_, ?_⟩
  · rw [openFile_validated_iff (laid_emptyFile 5000 0 4096)]
    intro fits
    have record : 5000 + 0 ≤ 4096 - nodeHeaderLen := (fits rfl).2.1
    exact absurd record (by decide)
  · intro dataDir node collectionId absent
    simp only [StorageNode.serveCollection, StorageNode.withCollection,
      StorageNode.openCollection, absent]
    rfl

end BPlusTree

end Seisin
