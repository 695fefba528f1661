import Mathlib
import Seisin.Lib.Joined
import Seisin.Types.Indexes

/-!
# Which derived ids are distinct

Every derived id is made of a name in one namespace: a word for the kind, then the components joined
by separators.  The words tell the kinds apart.  Within a kind, components that have the separator in
them can be told apart only up to where it was put.
-/

namespace Seisin

open ByteString Joined

/-! ## Hexadecimal digits -/

theorem digitChar_inj : ∀ first < 16, ∀ second < 16,
    Nat.digitChar first = Nat.digitChar second → first = second := by decide

theorem hexDigits_inj {first second : DatumId}
    (same : first.hexDigits 0 32 = second.hexDigits 0 32) : first = second := by
  have digits : ∀ position < 32, first.val / 2 ^ (4 * (31 - position)) % 16 =
      second.val / 2 ^ (4 * (31 - position)) % 16 := by
    intro position inside
    have chars := List.map_inj_left.mp (String.ofList_injective same) position
      (List.mem_range.mpr inside)
    rw [Nat.zero_add] at chars
    exact digitChar_inj _ (Nat.mod_lt _ (by decide)) _ (Nat.mod_lt _ (by decide)) chars
  apply Fin.ext
  apply Nat.eq_of_testBit_eq
  intro bit
  rcases Nat.lt_or_ge bit 128 with inside | beyond
  · have nibble := digits (31 - bit / 4) (by omega)
    have bits := congrArg (fun value => value.testBit (bit % 4)) nibble
    have place : 4 * (31 - (31 - bit / 4)) + bit % 4 = bit := by omega
    have low : bit % 4 < 4 := by omega
    change (first.val / _ % 2 ^ 4).testBit _ = (second.val / _ % 2 ^ 4).testBit _ at bits
    simpa only [Nat.testBit_mod_two_pow, low, decide_true, Bool.true_and, Nat.testBit_div_two_pow,
      Nat.add_comm (bit % 4), place] using bits
  · have large : 2 ^ 128 ≤ 2 ^ bit := Nat.pow_le_pow_right (by decide) beyond
    rw [Nat.testBit_lt_two_pow (first.isLt.trans_le large),
      Nat.testBit_lt_two_pow (second.isLt.trans_le large)]

/-! ## The derivations -/

/-- `fromName` is the name-based id derivation in the types' namespace. -/
def lbBoardKey {Id : Type} (fromName : Bytes → Id) (class_ leaderboardId areaConfigId : String) : Id :=
  fromName (ofString ("lb:" ++ class_ ++ ":" ++ leaderboardId ++ ":" ++ areaConfigId))

def tkEntityKey {Id : Type} (fromName : Bytes → Id) (class_ : String) (entity : DatumId) : Id :=
  fromName (ofString ("tk:" ++ class_ ++ ":" ++ entity.hexDigits 0 32))

def enumPkId {Id : Type} (fromName : Bytes → Id) (typeName mnemonic : String) : Id :=
  fromName (enumPkName typeName mnemonic)

/-- What an id is derived from.  The value of a secondary key is the bytes it is keyed by. -/
inductive DerivedKey where
  | sk (typeName fieldName : String) (value : Bytes)
  | rk (typeName fieldName : String)
  | lbBoard (class_ leaderboardId areaConfigId : String)
  | tkEntity (class_ : String) (entity : DatumId)
  | partition (typeName partitionName : String)
  | fkPending (typeName field : String)
  | fkDeleted (typeName field : String)
  | enumPk (typeName mnemonic : String)
  deriving DecidableEq

namespace DerivedKey

variable {Id : Type}

def id (fromName : Bytes → Id) : DerivedKey → Id
  | .sk typeName fieldName value =>
      fromName (ofString ("sk:" ++ typeName ++ "." ++ fieldName ++ ":") ++ value)
  | .rk typeName fieldName => rkKey fromName typeName fieldName
  | .lbBoard class_ leaderboardId areaConfigId =>
      lbBoardKey fromName class_ leaderboardId areaConfigId
  | .tkEntity class_ entity => tkEntityKey fromName class_ entity
  | .partition typeName partitionName => partitionKey fromName typeName partitionName
  | .fkPending typeName field => fkPendingKey fromName typeName field
  | .fkDeleted typeName field => fkDeletedKey fromName typeName field
  | .enumPk typeName mnemonic => enumPkId fromName typeName mnemonic

/-- The bytes that the id is derived from. -/
def name (key : DerivedKey) : Bytes := key.id fun bytes => bytes

theorem id_eq (fromName : Bytes → Id) (key : DerivedKey) : key.id fromName = fromName key.name := by
  cases key <;> rfl

/-! ## Names -/

/-- `.` and `:` -/
def dot : UInt8 := 46

def colon : UInt8 := 58

/-- What every name of the kind begins with. -/
def mark : DerivedKey → String
  | .sk .. => "sk:"
  | .rk .. => "rk:"
  | .lbBoard .. => "lb:"
  | .tkEntity .. => "tk:"
  | .partition .. => "partition:"
  | .fkPending .. => "fk_pending:"
  | .fkDeleted .. => "deleted_refs:"
  | .enumPk .. => "pk:"

def word : DerivedKey → String
  | .sk .. => "sk"
  | .rk .. => "rk"
  | .lbBoard .. => "lb"
  | .tkEntity .. => "tk"
  | .partition .. => "partition"
  | .fkPending .. => "fk_pending"
  | .fkDeleted .. => "deleted_refs"
  | .enumPk .. => "pk"

/-- The components with their separators. -/
def body : DerivedKey → Bytes
  | .sk typeName fieldName value =>
      join dot (ofString typeName) (join colon (ofString fieldName) value)
  | .rk typeName fieldName => join dot (ofString typeName) (ofString fieldName)
  | .lbBoard class_ leaderboardId areaConfigId =>
      join colon (ofString class_) (join colon (ofString leaderboardId) (ofString areaConfigId))
  | .tkEntity class_ entity => join colon (ofString class_) (ofString (entity.hexDigits 0 32))
  | .partition typeName partitionName =>
      join colon (ofString typeName) (ofString partitionName)
  | .fkPending typeName field => join dot (ofString typeName) (ofString field)
  | .fkDeleted typeName field => join dot (ofString typeName) (ofString field)
  | .enumPk typeName mnemonic => join colon (ofString typeName) (ofString mnemonic)

theorem ofString_dot : ofString "." = [dot] := by
  rw [ofString, byteArray_toList_eq]
  rfl

theorem ofString_colon : ofString ":" = [colon] := by
  rw [ofString, byteArray_toList_eq]
  rfl

theorem name_eq_append (key : DerivedKey) : key.name = ofString key.mark ++ key.body := by
  cases key <;>
    simp only [name, id, rkKey, lbBoardKey, tkEntityKey, partitionKey, fkPendingKey, fkDeletedKey,
      enumPkId, enumPkName, mark, body, join, ofString_append, ofString_dot, ofString_colon,
      List.append_assoc, List.cons_append, List.nil_append]

theorem name_eq (key : DerivedKey) : key.name = join colon (ofString key.word) key.body := by
  have marked : key.mark = key.word ++ ":" := by cases key <;> rfl
  rw [name_eq_append, marked, ofString_append, ofString_colon, List.append_assoc, join,
    List.singleton_append]

theorem colon_not_mem_word (key : DerivedKey) : colon ∉ ofString key.word := by
  cases key <;> rw [word, ofString, byteArray_toList_eq] <;> decide

/-- The kinds are told apart by their words, whatever the components. -/
theorem name_eq_iff {first second : DerivedKey} :
    first.name = second.name ↔ first.word = second.word ∧ first.body = second.body := by
  rw [name_eq, name_eq, join_inj_of_not_mem first.colon_not_mem_word second.colon_not_mem_word,
    ofString_inj]

/-- Entities are written with as many digits, so their names do not run together. -/
theorem join_hexDigits_iff {class_ other : String} {first second : DatumId} :
    join colon (ofString class_) (ofString (first.hexDigits 0 32)) =
        join colon (ofString other) (ofString (second.hexDigits 0 32)) ↔
      class_ = other ∧ first = second := by
  have spelled : ∀ (text : String) (entity : DatumId),
      join colon (ofString text) (ofString (entity.hexDigits 0 32)) =
        ofString (text ++ ":" ++ entity.hexDigits 0 32) := by
    intro text entity
    rw [ofString_append, ofString_append, ofString_colon, List.append_assoc]
    rfl
  rw [spelled, spelled, ofString_inj]
  constructor
  · intro same
    have chars := congrArg String.toList same
    simp only [String.toList_append] at chars
    rcases List.append_inj' chars (by simp [DatumId.hexDigits]) with ⟨marked, digits⟩
    rcases List.append_inj' marked rfl with ⟨classes, _⟩
    exact ⟨String.toList_inj.mp classes, hexDigits_inj (String.toList_inj.mp digits)⟩
  · rintro ⟨rfl, rfl⟩
    rfl

/-! ## Which ids are the same -/

/-- The components of two keys of one kind differ only in where a separator was put. -/
def Confusable : DerivedKey → DerivedKey → Prop
  | .sk typeName fieldName value, .sk typeName' fieldName' value' =>
      ResplitOver dot colon (ofString typeName, ofString fieldName, value)
        (ofString typeName', ofString fieldName', value')
  | .lbBoard class_ leaderboardId areaConfigId, .lbBoard class_' leaderboardId' areaConfigId' =>
      ResplitOver colon colon
        (ofString class_, ofString leaderboardId, ofString areaConfigId)
        (ofString class_', ofString leaderboardId', ofString areaConfigId')
  | .rk typeName field, .rk typeName' field' =>
      Resplit dot (ofString typeName, ofString field) (ofString typeName', ofString field')
  | .fkPending typeName field, .fkPending typeName' field' =>
      Resplit dot (ofString typeName, ofString field) (ofString typeName', ofString field')
  | .fkDeleted typeName field, .fkDeleted typeName' field' =>
      Resplit dot (ofString typeName, ofString field) (ofString typeName', ofString field')
  | .partition typeName name, .partition typeName' name' =>
      Resplit colon (ofString typeName, ofString name) (ofString typeName', ofString name')
  | .enumPk typeName mnemonic, .enumPk typeName' mnemonic' =>
      Resplit colon (ofString typeName, ofString mnemonic) (ofString typeName', ofString mnemonic')
  | _, _ => False

theorem join_ofString_iff {separator : UInt8} {first second first' second' : String} :
    join separator (ofString first) (ofString second) =
        join separator (ofString first') (ofString second') ↔
      (first = first' ∧ second = second') ∨ Resplit separator (ofString first, ofString second)
        (ofString first', ofString second') := by
  rw [join_eq_iff, Prod.mk.injEq, ofString_inj, ofString_inj]

theorem join_three_iff {outer inner : UInt8} {first second first' second' : String}
    {third third' : Bytes} :
    join outer (ofString first) (join inner (ofString second) third) =
        join outer (ofString first') (join inner (ofString second') third') ↔
      (first = first' ∧ second = second' ∧ third = third') ∨
        ResplitOver outer inner (ofString first, ofString second, third)
          (ofString first', ofString second', third') := by
  rw [join_join_eq_iff, Prod.mk.injEq, Prod.mk.injEq, ofString_inj, ofString_inj]

/-- Two keys have one name if they are the same or differ in where a separator was put. -/
theorem name_inj_iff (first second : DerivedKey) :
    first.name = second.name ↔ first = second ∨ first.Confusable second := by
  rw [name_eq_iff]
  cases first with
  | sk typeName fieldName value =>
      cases second with
      | sk typeName' fieldName' value' => simp [word, body, Confusable, join_three_iff]
      | _ => simp [word, Confusable]
  | rk typeName field =>
      cases second with
      | rk typeName' field' => simp [word, body, Confusable, join_ofString_iff]
      | _ => simp [word, Confusable]
  | lbBoard class_ leaderboardId areaConfigId =>
      cases second with
      | lbBoard class_' leaderboardId' areaConfigId' =>
          simp [word, body, Confusable, join_three_iff, ofString_inj]
      | _ => simp [word, Confusable]
  | tkEntity class_ entity =>
      cases second with
      | tkEntity class_' entity' => simp [word, body, Confusable, join_hexDigits_iff]
      | _ => simp [word, Confusable]
  | partition typeName name =>
      cases second with
      | partition typeName' name' => simp [word, body, Confusable, join_ofString_iff]
      | _ => simp [word, Confusable]
  | fkPending typeName field =>
      cases second with
      | fkPending typeName' field' => simp [word, body, Confusable, join_ofString_iff]
      | _ => simp [word, Confusable]
  | fkDeleted typeName field =>
      cases second with
      | fkDeleted typeName' field' => simp [word, body, Confusable, join_ofString_iff]
      | _ => simp [word, Confusable]
  | enumPk typeName mnemonic =>
      cases second with
      | enumPk typeName' mnemonic' => simp [word, body, Confusable, join_ofString_iff]
      | _ => simp [word, Confusable]

theorem not_confusable_self (key : DerivedKey) : ¬key.Confusable key := by
  cases key with
  | sk typeName fieldName value => exact not_resplitOver_self _
  | lbBoard class_ leaderboardId areaConfigId => exact not_resplitOver_self _
  | rk typeName field => exact not_resplit_self _
  | tkEntity class_ entity => exact not_false
  | partition typeName name => exact not_resplit_self _
  | fkPending typeName field => exact not_resplit_self _
  | fkDeleted typeName field => exact not_resplit_self _
  | enumPk typeName mnemonic => exact not_resplit_self _

/-- No component has the separator in it that follows it. -/
def Plain : DerivedKey → Prop
  | .sk typeName fieldName _ => dot ∉ ofString typeName ∧ colon ∉ ofString fieldName
  | .lbBoard class_ leaderboardId _ => colon ∉ ofString class_ ∧ colon ∉ ofString leaderboardId
  | .rk typeName _ | .fkPending typeName _ | .fkDeleted typeName _ => dot ∉ ofString typeName
  | .partition typeName _ | .enumPk typeName _ => colon ∉ ofString typeName
  | .tkEntity .. => True

/-- Plain names cannot be confused. -/
theorem Plain.not_confusable {first second : DerivedKey} (plain : first.Plain)
    (plainToo : second.Plain) : ¬first.Confusable second := by
  cases first <;> cases second <;> first
    | exact not_false
    | exact not_resplit_of_not_mem plain plainToo
    | exact not_resplitOver_of_not_mem plain.1 plainToo.1 plain.2 plainToo.2

/-- As long as names are told apart by their ids, the ids of different keys differ exactly if the keys
do not just differ in where a separator was put.  Keys of different kinds never have one id, nor have
keys whose components are free of separators. -/
theorem ids_distinct_iff {fromName : Bytes → Id} (injective : Function.Injective fromName)
    (first second : DerivedKey) :
    ((first ≠ second → first.id fromName ≠ second.id fromName) ↔ ¬first.Confusable second) ∧
      (first.Plain → second.Plain → ¬first.Confusable second) ∧
      (first.word ≠ second.word → ¬first.Confusable second) := by
  have same_id : first.id fromName = second.id fromName ↔
      first = second ∨ first.Confusable second := by
    rw [id_eq, id_eq, injective.eq_iff, name_inj_iff]
  refine ⟨?_, Plain.not_confusable, ?_⟩
  · rw [ne_eq, ne_eq, same_id]
    constructor
    · intro distinct confusable
      have different : first ≠ second := by
        rintro rfl
        exact first.not_confusable_self confusable
      exact distinct different (Or.inr confusable)
    · rintro told different (same | confusable)
      · exact different same
      · exact told confusable
  · intro apart confusable
    exact apart (name_eq_iff.mp ((name_inj_iff first second).mpr (Or.inr confusable))).1

/-- The value may have both separators in it. -/
theorem ids_distinct_iff_plain :
    let first := sk "user" "name" (ofString "a:b.c")
    let second := sk "user" "nickname" (ofString "a:b.c")
    first.id (fun bytes => bytes) ≠ second.id fun bytes => bytes := by
  intro first second
  have distinct := ids_distinct_iff (fun _ _ same => same) first second
  have user : dot ∉ ofString "user" := by
    rw [ofString, byteArray_toList_eq]
    decide
  have name : colon ∉ ofString "name" := by
    rw [ofString, byteArray_toList_eq]
    decide
  have nickname : colon ∉ ofString "nickname" := by
    rw [ofString, byteArray_toList_eq]
    decide
  exact distinct.1.mpr (distinct.2.1 ⟨user, name⟩ ⟨user, nickname⟩) (by decide)

/-- Two boards, and two secondary keys, that have one id each, however ids are derived from names. -/
theorem separators_run_together :
    let desert := lbBoard "racing" "season:1" "desert"
    let season := lbBoard "racing" "season" "1:desert"
    desert ≠ season ∧ (∀ (Id : Type) (fromName : Bytes → Id), desert.id fromName = season.id fromName) ∧
      ("user", "home.name") ≠ ("user.home", "name") ∧
      ∀ (Id : Type) (fromName : Bytes → Id),
        skKey fromName "user" "home.name" (.string "x") =
          skKey fromName "user.home" "name" (.string "x") := by
  intro desert season
  refine ⟨by decide, ?_, by decide, ?_⟩
  · intro Id fromName
    exact congrArg (fun text => fromName (ofString text))
      (show "lb:" ++ "racing" ++ ":" ++ "season:1" ++ ":" ++ "desert" =
        "lb:" ++ "racing" ++ ":" ++ "season" ++ ":" ++ "1:desert" by decide)
  · intro Id fromName
    exact congrArg (fun text => some (fromName (ofString text ++ ofString "x")))
      (show "sk:" ++ "user" ++ "." ++ "home.name" ++ ":" =
        "sk:" ++ "user.home" ++ "." ++ "name" ++ ":" by decide)

end DerivedKey

end Seisin
