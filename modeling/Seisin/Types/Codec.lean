import Seisin.Types.Schema

/-!
# Reading encoded datums back

A decoder reads back an encoding if, wherever the encoding stands in a buffer, it returns the value
and the offset after it.  Lengths and counts are 32-bit fields, so this holds for values all of whose
lengths fit them.
-/

namespace Seisin

open ByteString

/-- The decoder returns `value` wherever `bytes` stand, and stops after them. -/
def ReadsBack {α : Type} (decode : Bytes → ℕ → Except String (α × ℕ)) (bytes : Bytes)
    (value : α) : Prop :=
  ∀ before after : Bytes,
    decode (before ++ bytes ++ after) before.length = .ok (value, before.length + bytes.length)

/-- Reads that come one after another. -/
theorem ReadsBack.next {α : Type} {decode : Bytes → ℕ → Except String (α × ℕ)} {value : α}
    {bytes : Bytes} (reads : ReadsBack decode bytes value) (before first after : Bytes) :
    decode (before ++ (first ++ bytes) ++ after) (before.length + first.length) =
      .ok (value, before.length + (first ++ bytes).length) := by
  have second := reads (before ++ first) after
  rw [List.length_append] at second
  rw [List.length_append, ← Nat.add_assoc, ← second]
  simp only [List.append_assoc]

/-- Reads with more to come. -/
theorem ReadsBack.first {α : Type} {decode : Bytes → ℕ → Except String (α × ℕ)} {value : α}
    {bytes : Bytes} (reads : ReadsBack decode bytes value) (before rest after : Bytes) :
    decode (before ++ (bytes ++ rest) ++ after) before.length =
      .ok (value, before.length + bytes.length) := by
  rw [← reads before (rest ++ after)]
  simp only [List.append_assoc]

theorem readBytes_readsBack (bytes : Bytes) {length : ℕ} (lengthIs : bytes.length = length) :
    ReadsBack (fun buf offset => readBytes buf offset length) bytes bytes := by
  intro before after
  subst lengthIs
  simp only [readBytes]
  rw [if_neg (by simp only [List.length_append]; omega), window_middle]

theorem readU32_readsBack {number : ℕ} (fits : number < 2 ^ 32) :
    ReadsBack readU32 (leBytes 4 number) number := by
  intro before after
  have read : readBytes (before ++ leBytes 4 number ++ after) before.length 4 = _ :=
    readBytes_readsBack (leBytes 4 number) (length_leBytes 4 number) before after
  simp only [readU32, read, leNat_leBytes_four fits]

theorem decodeLenPrefixed_readsBack {bytes : Bytes} (fits : bytes.length < 2 ^ 32) :
    ReadsBack decodeLenPrefixed (encodeLenPrefixed bytes) bytes := by
  intro before after
  simp only [decodeLenPrefixed, encodeLenPrefixed]
  rw [(readU32_readsBack fits).first before bytes after]
  exact (readBytes_readsBack bytes rfl).next before (leBytes 4 bytes.length) after

/-! ## Values -/

namespace FieldValue

mutual

/-- Every length and count in the value is a 32-bit number. -/
def Sized : FieldValue → Prop
  | .bool _ | .i64 _ | .f64 _ => True
  | .string value => (ofString value).length < 2 ^ 32
  | .bytes value => value.length < 2 ^ 32
  | .array items => items.length < 2 ^ 32 ∧ ItemsSized items
  | .dict entries => entries.length < 2 ^ 32 ∧ EntriesSized entries

def ItemsSized : List FieldValue → Prop
  | [] => True
  | item :: items => item.Sized ∧ ItemsSized items

def EntriesSized : List (FieldValue × FieldValue) → Prop
  | [] => True
  | (key, value) :: entries => key.Sized ∧ value.Sized ∧ EntriesSized entries

end

end FieldValue

theorem decodePrimitive_readsBack (ty : PrimitiveFieldType) {value : FieldValue}
    (typed : value.matchesType ty.toFieldType = true) (sized : value.Sized) :
    ReadsBack (fun buf => decodePrimitive buf ty) (encodeFieldValue value) value := by
  intro before after
  cases ty with
  | bool =>
      cases value with
      | bool value =>
          have read : readBytes _ before.length 1 = _ :=
            readBytes_readsBack [if value then (1 : UInt8) else 0] rfl before after
          simp only [decodePrimitive, encodeFieldValue, read]
          cases value <;> rfl
      | _ => cases typed
  | i64 =>
      cases value with
      | i64 value =>
          have read : readBytes _ before.length 8 = _ :=
            readBytes_readsBack (leBytes 8 value.toUInt64.toNat) (length_leBytes _ _) before after
          have number : leNat (leBytes 8 value.toUInt64.toNat) = value.toUInt64.toNat :=
            leNat_leBytes value.toUInt64.toNat_lt
          simp only [decodePrimitive, encodeFieldValue, read, number, UInt64.ofNat_toNat]
          rfl
      | _ => cases typed
  | f64 =>
      cases value with
      | f64 value =>
          have read : readBytes _ before.length 8 = _ :=
            readBytes_readsBack (leBytes 8 value.bits.toNat) (length_leBytes _ _) before after
          have number : leNat (leBytes 8 value.bits.toNat) = value.bits.toNat :=
            leNat_leBytes value.bits.toNat_lt
          simp only [decodePrimitive, encodeFieldValue, read, number, UInt64.ofNat_toNat]
      | _ => cases typed
  | string =>
      cases value with
      | string value =>
          have read := decodeLenPrefixed_readsBack sized before after
          simp only [decodePrimitive, encodeFieldValue, read, toString?_ofString]
      | _ => cases typed
  | bytes =>
      cases value with
      | bytes value =>
          have read := decodeLenPrefixed_readsBack sized before after
          simp only [decodePrimitive, encodeFieldValue, read]
      | _ => cases typed

theorem decodeItems_readsBack {inner : FieldType}
    (each : ∀ value : FieldValue, value.matchesType inner = true → value.Sized →
      ReadsBack (fun buf => decodeFieldValue buf inner) (encodeFieldValue value) value)
    {items : List FieldValue} (typed : FieldValue.itemsMatch items inner = true)
    (sized : FieldValue.ItemsSized items) :
    ReadsBack (fun buf => decodeItems (decodeFieldValue buf inner) items.length)
      (encodeItems items) items := by
  induction items with
  | nil =>
      intro before after
      rfl
  | cons item items ih =>
      intro before after
      simp only [FieldValue.itemsMatch, Bool.and_eq_true] at typed
      simp only [FieldValue.ItemsSized] at sized
      have first := (each item typed.1 sized.1).first before (encodeItems items) after
      have rest := (ih typed.2 sized.2).next before (encodeFieldValue item) after
      simp only [encodeItems, List.length_cons, decodeItems, first, rest]

theorem decodeEntries_readsBack {keys : PrimitiveFieldType} {values : FieldType}
    (each : ∀ value : FieldValue, value.matchesType values = true → value.Sized →
      ReadsBack (fun buf => decodeFieldValue buf values) (encodeFieldValue value) value)
    {entries : List (FieldValue × FieldValue)}
    (typed : FieldValue.entriesMatch entries keys.toFieldType values = true)
    (sized : FieldValue.EntriesSized entries) :
    ReadsBack (fun buf => decodeEntries (decodePrimitive buf keys) (decodeFieldValue buf values)
      entries.length) (encodeEntries entries) entries := by
  induction entries with
  | nil =>
      intro before after
      rfl
  | cons entry entries ih =>
      rcases entry with ⟨key, value⟩
      intro before after
      simp only [FieldValue.entriesMatch, Bool.and_eq_true] at typed
      simp only [FieldValue.EntriesSized] at sized
      have keyRead := (decodePrimitive_readsBack keys typed.1.1 sized.1).first before
        (encodeFieldValue value ++ encodeEntries entries) after
      have valueRead := (each value typed.1.2 sized.2.1).first (before ++ encodeFieldValue key)
        (encodeEntries entries) after
      have rest := (ih typed.2 sized.2.2).next before
        (encodeFieldValue key ++ encodeFieldValue value) after
      simp only [List.append_assoc, List.length_append, Nat.add_assoc] at keyRead valueRead rest
      simp only [encodeEntries, List.length_cons, decodeEntries, List.append_assoc,
        List.length_append, keyRead, valueRead, rest]

/-- A value of a type is read back as a value of that type. -/
theorem decodeFieldValue_readsBack (ty : FieldType) :
    ∀ value : FieldValue, value.matchesType ty = true → value.Sized →
      ReadsBack (fun buf => decodeFieldValue buf ty) (encodeFieldValue value) value := by
  induction ty with
  | bool => exact fun value typed sized => decodePrimitive_readsBack .bool typed sized
  | i64 => exact fun value typed sized => decodePrimitive_readsBack .i64 typed sized
  | f64 => exact fun value typed sized => decodePrimitive_readsBack .f64 typed sized
  | string => exact fun value typed sized => decodePrimitive_readsBack .string typed sized
  | bytes => exact fun value typed sized => decodePrimitive_readsBack .bytes typed sized
  | array inner ih =>
      intro value typed sized before after
      cases value with
      | array items =>
          simp only [FieldValue.matchesType] at typed
          simp only [FieldValue.Sized] at sized
          have count := (readU32_readsBack sized.1).first before (encodeItems items) after
          have rest := (decodeItems_readsBack ih typed sized.2).next before
            (leBytes 4 items.length) after
          rw [length_leBytes] at count rest
          simp only [decodeFieldValue, encodeFieldValue, count, rest]
      | _ => cases typed
  | dict keys values ih =>
      intro value typed sized before after
      cases value with
      | dict entries =>
          simp only [FieldValue.matchesType] at typed
          simp only [FieldValue.Sized] at sized
          have count := (readU32_readsBack sized.1).first before (encodeEntries entries) after
          have rest := (decodeEntries_readsBack ih typed sized.2).next before
            (leBytes 4 entries.length) after
          rw [length_leBytes] at count rest
          simp only [decodeFieldValue, encodeFieldValue, count, rest]
      | _ => cases typed

/-! ## Datums -/

/-- What a set of field values that encodes reads back as. -/
theorem decodeFields_readsBack {typeName : String} {fields : List (String × FieldType)}
    {values : List FieldValue} {bytes : Bytes} (length : values.length = fields.length)
    (sized : ∀ value ∈ values, value.Sized)
    (encoded : encodeFields typeName fields values = .ok bytes) :
    ReadsBack (fun buf => decodeFields buf fields) bytes values := by
  induction fields generalizing values bytes with
  | nil =>
      intro before after
      cases values with
      | nil =>
          cases encoded
          rfl
      | cons value values => cases length
  | cons field fields ih =>
      rcases field with ⟨field, ty⟩
      intro before after
      cases values with
      | nil => cases length
      | cons value values =>
          simp only [encodeFields] at encoded
          split at encoded
          · rename_i typed
            cases restEncoded : encodeFields typeName fields values with
            | error failure => simp [restEncoded] at encoded
            | ok rest =>
                simp only [restEncoded, Except.ok.injEq] at encoded
                subst encoded
                have first := (decodeFieldValue_readsBack ty value typed
                  (sized value List.mem_cons_self)).first before rest after
                have later := (ih (Nat.succ.inj length)
                  (fun other otherMem => sized other (List.mem_cons_of_mem _ otherMem))
                  restEncoded).next before (encodeFieldValue value) after
                simp only [decodeFields, first, later]
          · cases encoded

/-- A datum that encodes is decoded to the values it was made of. -/
theorem decodeDatum_encodeDatum {typeDef : DatumTypeDef} {values : List FieldValue} {bytes : Bytes}
    (version : typeDef.version < 2 ^ 16) (sized : ∀ value ∈ values, value.Sized)
    (encoded : encodeDatum typeDef values = .ok bytes) :
    decodeDatum typeDef bytes = .ok values := by
  unfold encodeDatum at encoded
  split at encoded
  · cases encoded
  · rename_i length
    rw [not_not] at length
    cases fieldsEncoded : encodeFields typeDef.name typeDef.fields values with
    | error failure => simp [fieldsEncoded] at encoded
    | ok rest =>
        simp only [fieldsEncoded, Except.ok.injEq] at encoded
        subst encoded
        have stamp : (leBytes 2 typeDef.version ++ rest).take 2 = leBytes 2 typeDef.version :=
          List.take_left' (length_leBytes 2 _)
        have number : leNat (leBytes 2 typeDef.version) = typeDef.version := leNat_leBytes version
        have read : decodeFields (leBytes 2 typeDef.version ++ rest ++ []) typeDef.fields _ = _ :=
          decodeFields_readsBack length sized fieldsEncoded (leBytes 2 typeDef.version) []
        rw [List.append_nil, length_leBytes] at read
        have total : (leBytes 2 typeDef.version ++ rest).length = 2 + rest.length := by
          rw [List.length_append, length_leBytes]
        unfold decodeDatum
        rw [if_neg (by omega), stamp, number, if_neg (not_not.mpr rfl), read]
        simp only [total, ne_eq, not_true_eq_false, if_false]

/-! ## What a decoder accepts -/

theorem readBytes_ok {buf bytes : Bytes} {offset length next : ℕ}
    (read : readBytes buf offset length = .ok (bytes, next)) :
    bytes.length = length ∧ next = offset + length ∧ next ≤ buf.length := by
  unfold readBytes at read
  split at read
  · cases read
  · rename_i inside
    simp only [Except.ok.injEq, Prod.mk.injEq] at read
    rcases read with ⟨rfl, rfl⟩
    rw [List.length_take, List.length_drop]
    omega

theorem readU32_ok {buf : Bytes} {offset number next : ℕ}
    (read : readU32 buf offset = .ok (number, next)) :
    number < 2 ^ 32 ∧ next = offset + 4 ∧ next ≤ buf.length := by
  unfold readU32 at read
  split at read
  · cases read
  · rename_i bytes after found
    cases read
    rcases readBytes_ok found with ⟨length, moved, inside⟩
    have bound := leNat_lt bytes
    rw [length] at bound
    exact ⟨bound, moved, inside⟩

theorem decodeLenPrefixed_ok {buf bytes : Bytes} {offset next : ℕ}
    (read : decodeLenPrefixed buf offset = .ok (bytes, next)) :
    bytes.length < 2 ^ 32 ∧ next = offset + (encodeLenPrefixed bytes).length ∧
      next ≤ buf.length := by
  unfold decodeLenPrefixed at read
  split at read
  · cases read
  · rename_i length after counted
    rcases readU32_ok counted with ⟨bound, moved, _⟩
    rcases readBytes_ok read with ⟨total, last, inside⟩
    rw [encodeLenPrefixed, List.length_append, length_leBytes]
    omega

/-- A decoded value has the declared type and 32-bit lengths, and the bytes read for it are as many
as its encoding has. -/
structure Accepted (buf : Bytes) (ty : FieldType) (offset : ℕ) (value : FieldValue) (next : ℕ) :
    Prop where
  typed : value.matchesType ty = true
  sized : value.Sized
  span : next = offset + (encodeFieldValue value).length
  inside : next ≤ buf.length

theorem decodePrimitive_accepted {buf : Bytes} {ty : PrimitiveFieldType} {offset next : ℕ}
    {value : FieldValue} (decoded : decodePrimitive buf ty offset = .ok (value, next)) :
    Accepted buf ty.toFieldType offset value next := by
  cases ty with
  | bool =>
      simp only [decodePrimitive] at decoded
      split at decoded
      · cases decoded
      · rename_i read
        cases decoded
        rcases readBytes_ok read with ⟨_, moved, inside⟩
        exact ⟨rfl, trivial, moved, inside⟩
  | i64 =>
      simp only [decodePrimitive] at decoded
      split at decoded
      · cases decoded
      · rename_i read
        cases decoded
        rcases readBytes_ok read with ⟨_, moved, inside⟩
        refine ⟨rfl, trivial, ?_, inside⟩
        rw [encodeFieldValue, length_leBytes, moved]
  | f64 =>
      simp only [decodePrimitive] at decoded
      split at decoded
      · cases decoded
      · rename_i read
        cases decoded
        rcases readBytes_ok read with ⟨_, moved, inside⟩
        refine ⟨rfl, trivial, ?_, inside⟩
        rw [encodeFieldValue, length_leBytes, moved]
  | string =>
      simp only [decodePrimitive] at decoded
      split at decoded
      · cases decoded
      · rename_i read
        split at decoded
        · cases decoded
        · rename_i text
          cases decoded
          rw [toString?_eq_some_iff] at text
          subst text
          rcases decodeLenPrefixed_ok read with ⟨bound, moved, inside⟩
          exact ⟨rfl, bound, moved, inside⟩
  | bytes =>
      simp only [decodePrimitive] at decoded
      split at decoded
      · cases decoded
      · rename_i read
        cases decoded
        rcases decodeLenPrefixed_ok read with ⟨bound, moved, inside⟩
        exact ⟨rfl, bound, moved, inside⟩

theorem decodeItems_accepted {buf : Bytes} {inner : FieldType}
    (each : ∀ offset value next, decodeFieldValue buf inner offset = .ok (value, next) →
      Accepted buf inner offset value next)
    {count offset last : ℕ} {items : List FieldValue} (start : offset ≤ buf.length)
    (decoded : decodeItems (decodeFieldValue buf inner) count offset = .ok (items, last)) :
    items.length = count ∧ FieldValue.itemsMatch items inner = true ∧
      FieldValue.ItemsSized items ∧ last = offset + (encodeItems items).length ∧
      last ≤ buf.length := by
  induction count generalizing offset items with
  | zero =>
      cases decoded
      exact ⟨rfl, rfl, trivial, rfl, start⟩
  | succ count ih =>
      simp only [decodeItems] at decoded
      split at decoded
      · cases decoded
      · rename_i item next first
        split at decoded
        · cases decoded
        · rename_i rest after later
          cases decoded
          have accepted := each _ _ _ first
          rcases ih accepted.inside later with ⟨length, typed, sized, span, inside⟩
          refine ⟨congrArg Nat.succ length, ?_, ⟨accepted.sized, sized⟩, ?_, inside⟩
          · rw [FieldValue.itemsMatch, accepted.typed, typed]
            rfl
          · rw [encodeItems, List.length_append, span, accepted.span, Nat.add_assoc]

theorem decodeEntries_accepted {buf : Bytes} {keys : PrimitiveFieldType} {values : FieldType}
    (each : ∀ offset value next, decodeFieldValue buf values offset = .ok (value, next) →
      Accepted buf values offset value next)
    {count offset last : ℕ} {entries : List (FieldValue × FieldValue)}
    (start : offset ≤ buf.length)
    (decoded : decodeEntries (decodePrimitive buf keys) (decodeFieldValue buf values) count
      offset = .ok (entries, last)) :
    entries.length = count ∧ FieldValue.entriesMatch entries keys.toFieldType values = true ∧
      FieldValue.EntriesSized entries ∧ last = offset + (encodeEntries entries).length ∧
      last ≤ buf.length := by
  induction count generalizing offset entries with
  | zero =>
      cases decoded
      exact ⟨rfl, rfl, trivial, rfl, start⟩
  | succ count ih =>
      simp only [decodeEntries] at decoded
      split at decoded
      · cases decoded
      · rename_i key afterKey keyRead
        split at decoded
        · cases decoded
        · rename_i value afterValue valueRead
          split at decoded
          · cases decoded
          · rename_i rest after later
            cases decoded
            have keyAccepted := decodePrimitive_accepted keyRead
            have valueAccepted := each _ _ _ valueRead
            rcases ih valueAccepted.inside later with ⟨length, typed, sized, span, inside⟩
            refine ⟨congrArg Nat.succ length, ?_,
              ⟨keyAccepted.sized, valueAccepted.sized, sized⟩, ?_, inside⟩
            · rw [FieldValue.entriesMatch, keyAccepted.typed, valueAccepted.typed, typed]
              rfl
            · rw [encodeEntries, List.length_append, List.length_append, span,
                valueAccepted.span, keyAccepted.span]
              omega

theorem decodeFieldValue_accepted (buf : Bytes) (ty : FieldType) :
    ∀ offset value next, decodeFieldValue buf ty offset = .ok (value, next) →
      Accepted buf ty offset value next := by
  induction ty with
  | bool => exact fun _ _ _ decoded => decodePrimitive_accepted decoded
  | i64 => exact fun _ _ _ decoded => decodePrimitive_accepted decoded
  | f64 => exact fun _ _ _ decoded => decodePrimitive_accepted decoded
  | string => exact fun _ _ _ decoded => decodePrimitive_accepted decoded
  | bytes => exact fun _ _ _ decoded => decodePrimitive_accepted decoded
  | array inner ih =>
      intro offset value next decoded
      simp only [decodeFieldValue] at decoded
      split at decoded
      · cases decoded
      · rename_i count start counted
        split at decoded
        · cases decoded
        · rename_i items last read
          cases decoded
          rcases readU32_ok counted with ⟨bound, moved, inBuf⟩
          rcases decodeItems_accepted ih inBuf read with ⟨length, typed, sized, span, inside⟩
          refine ⟨typed, ⟨length ▸ bound, sized⟩, ?_, inside⟩
          rw [encodeFieldValue, List.length_append, length_leBytes, span, moved]
          omega
  | dict keys values ih =>
      intro offset value next decoded
      simp only [decodeFieldValue] at decoded
      split at decoded
      · cases decoded
      · rename_i count start counted
        split at decoded
        · cases decoded
        · rename_i entries last read
          cases decoded
          rcases readU32_ok counted with ⟨bound, moved, inBuf⟩
          rcases decodeEntries_accepted ih inBuf read with ⟨length, typed, sized, span, inside⟩
          refine ⟨typed, ⟨length ▸ bound, sized⟩, ?_, inside⟩
          rw [encodeFieldValue, List.length_append, length_leBytes, span, moved]
          omega

/-! ## Datums of a type -/

/-- One value for every declared field, each of the field's type. -/
def WellTyped (fields : List (String × FieldType)) (values : List FieldValue) : Prop :=
  List.Forall₂ (fun field value => value.matchesType field.2 = true) fields values

theorem encodeFields_ok_iff (typeName : String) {fields : List (String × FieldType)}
    {values : List FieldValue} (length : values.length = fields.length) :
    (∃ bytes, encodeFields typeName fields values = .ok bytes) ↔ WellTyped fields values := by
  induction fields generalizing values with
  | nil =>
      cases values with
      | nil => exact ⟨fun _ => .nil, fun _ => ⟨[], rfl⟩⟩
      | cons value values => cases length
  | cons field fields ih =>
      rcases field with ⟨field, ty⟩
      cases values with
      | nil => cases length
      | cons value values =>
          have rest := ih (Nat.succ.inj length)
          rw [WellTyped, List.forall₂_cons, ← WellTyped, ← rest]
          simp only [encodeFields]
          constructor
          · rintro ⟨bytes, encoded⟩
            split at encoded
            · rename_i typed
              cases restEncoded : encodeFields typeName fields values with
              | error failure => simp [restEncoded] at encoded
              | ok rest => exact ⟨typed, rest, rfl⟩
            · cases encoded
          · rintro ⟨typed, rest, restEncoded⟩
            rw [if_pos typed, restEncoded]
            exact ⟨_, rfl⟩

/-- The encoding of well-typed fields is that of their values, one after another. -/
theorem encodeFields_eq {typeName : String} {fields : List (String × FieldType)}
    {values : List FieldValue} {bytes : Bytes} (typed : WellTyped fields values)
    (encoded : encodeFields typeName fields values = .ok bytes) :
    bytes = encodeItems values := by
  induction typed generalizing bytes with
  | nil =>
      cases encoded
      rfl
  | cons first rest ih =>
      simp only [encodeFields, if_pos first] at encoded
      split at encoded
      · cases encoded
      · rename_i restEncoded
        cases encoded
        rw [ih restEncoded, encodeItems]

theorem encodeDatum_ok_iff {typeDef : DatumTypeDef} {values : List FieldValue} :
    (∃ bytes, encodeDatum typeDef values = .ok bytes) ↔ WellTyped typeDef.fields values := by
  unfold encodeDatum
  by_cases length : values.length = typeDef.fields.length
  · rw [if_neg (not_not.mpr length), ← encodeFields_ok_iff typeDef.name length]
    constructor
    · rintro ⟨bytes, encoded⟩
      split at encoded
      · cases encoded
      · rename_i rest restEncoded
        exact ⟨rest, restEncoded⟩
    · rintro ⟨rest, restEncoded⟩
      rw [restEncoded]
      exact ⟨_, rfl⟩
  · rw [if_pos length]
    constructor
    · rintro ⟨bytes, encoded⟩
      cases encoded
    · intro typed
      exact absurd typed.length_eq.symm length

theorem decodeFields_accepted {buf : Bytes} {fields : List (String × FieldType)}
    {offset last : ℕ} {values : List FieldValue} (start : offset ≤ buf.length)
    (decoded : decodeFields buf fields offset = .ok (values, last)) :
    WellTyped fields values ∧ (∀ value ∈ values, value.Sized) ∧
      last = offset + (encodeItems values).length := by
  induction fields generalizing offset values with
  | nil =>
      cases decoded
      exact ⟨.nil, List.forall_mem_nil _, rfl⟩
  | cons field fields ih =>
      rcases field with ⟨field, ty⟩
      simp only [decodeFields] at decoded
      split at decoded
      · cases decoded
      · rename_i value next first
        split at decoded
        · cases decoded
        · rename_i rest after later
          cases decoded
          have accepted := decodeFieldValue_accepted _ _ _ _ _ first
          rcases ih accepted.inside later with ⟨typed, sized, span⟩
          refine ⟨.cons accepted.typed typed, List.forall_mem_cons.mpr ⟨accepted.sized, sized⟩, ?_⟩
          rw [encodeItems, List.length_append, span, accepted.span, Nat.add_assoc]

/-- What a datum is decoded to is well typed, the decoder stops at the end of the datum, and the
values are encoded in as many bytes. -/
theorem decodeDatum_accepted {typeDef : DatumTypeDef} {values : List FieldValue} {bytes : Bytes}
    (decoded : decodeDatum typeDef bytes = .ok values) :
    WellTyped typeDef.fields values ∧ (∀ value ∈ values, value.Sized) ∧
      decodeFields bytes typeDef.fields 2 = .ok (values, bytes.length) ∧
      ∃ again, encodeDatum typeDef values = .ok again ∧ again.length = bytes.length := by
  unfold decodeDatum at decoded
  split at decoded
  · cases decoded
  · rename_i stamped
    split at decoded
    · cases decoded
    · split at decoded
      · cases decoded
      · rename_i read
        split at decoded
        · cases decoded
        · rename_i consumed
          cases decoded
          rw [not_not] at consumed
          subst consumed
          rcases decodeFields_accepted (not_lt.mp stamped) read with ⟨typed, sized, span⟩
          rcases (encodeFields_ok_iff typeDef.name typed.length_eq.symm).mpr typed
            with ⟨rest, restEncoded⟩
          refine ⟨typed, sized, read, leBytes 2 typeDef.version ++ rest, ?_, ?_⟩
          · rw [encodeDatum, if_neg (not_not.mpr typed.length_eq.symm), restEncoded]
          · rw [List.length_append, length_leBytes, encodeFields_eq typed restEncoded, span]

/-- Encoding succeeds exactly on well-typed values, decoding is its inverse on all whose lengths fit
their fields, and whatever is decoded is well typed and uses up its bytes. -/
theorem datum_codec {typeDef : DatumTypeDef} (version : typeDef.version < 2 ^ 16) :
    (∀ values, (∃ bytes, encodeDatum typeDef values = .ok bytes) ↔
      WellTyped typeDef.fields values) ∧
    (∀ values bytes, (∀ value ∈ values, FieldValue.Sized value) →
      encodeDatum typeDef values = .ok bytes → decodeDatum typeDef bytes = .ok values) ∧
    ∀ bytes values, decodeDatum typeDef bytes = .ok values →
      WellTyped typeDef.fields values ∧
        decodeFields bytes typeDef.fields 2 = .ok (values, bytes.length) ∧
        ∃ again, encodeDatum typeDef values = .ok again ∧ again.length = bytes.length := by
  refine ⟨fun values => encodeDatum_ok_iff, ?_, ?_⟩
  · intro values bytes sized encoded
    exact decodeDatum_encodeDatum version sized encoded
  · intro bytes values decoded
    rcases decodeDatum_accepted decoded with ⟨typed, _, consumed, again⟩
    exact ⟨typed, consumed, again⟩

/-- A list of dictionaries, one of them empty, goes through the codec. -/
theorem datum_codec_nested :
    let typeDef : DatumTypeDef :=
      { DatumTypeDef.new "post" with fields := [("tags", .array (.dict .bytes .bool))] }
    let values : List FieldValue := [.array [.dict [(.bytes [1], .bool true)], .dict []]]
    ∃ bytes, encodeDatum typeDef values = .ok bytes ∧ decodeDatum typeDef bytes = .ok values := by
  intro typeDef values
  have codec := datum_codec (show typeDef.version < 2 ^ 16 by decide)
  have typed : WellTyped typeDef.fields values := .cons rfl .nil
  have sized : ∀ value ∈ values, FieldValue.Sized value := by
    simp [values, FieldValue.Sized, FieldValue.ItemsSized, FieldValue.EntriesSized]
  rcases (codec.1 values).mpr typed with ⟨bytes, encoded⟩
  exact ⟨bytes, encoded, codec.2.1 values bytes sized encoded⟩

end Seisin
