import Mathlib
import Seisin.Core

/-!
# Frames

Every message travels as a four-byte length and the message.  Streams are byte strings here: a write
appends, a read takes from the front, also when it fails.
-/

namespace Seisin.Protocol

open ByteString

inductive IoErrorKind where
  | invalidInput
  | invalidData
  | unexpectedEof
  deriving DecidableEq

structure IoError where
  kind : IoErrorKind
  message : String
  deriving DecidableEq

def maxFrameLen : ℕ := 64 * 1024 * 1024

def writeFrame (written payload : Bytes) : Except IoError Bytes :=
  if payload.length < 2 ^ 32 then .ok (written ++ leBytes 4 payload.length ++ payload)
  else .error ⟨.invalidInput, "payload too large for a u32 frame length"⟩

/-- A read that runs out has taken what there was. -/
def readExact (width : ℕ) (stream : Bytes) : Except IoError Bytes × Bytes :=
  if stream.length < width then (.error ⟨.unexpectedEof, "failed to fill whole buffer"⟩, [])
  else (.ok (stream.take width), stream.drop width)

def readFrame (stream : Bytes) : Except IoError Bytes × Bytes :=
  match readExact 4 stream with
  | (.error failure, rest) => (.error failure, rest)
  | (.ok lenBuf, rest) =>
      let len := leNat lenBuf
      if maxFrameLen < len then
        (.error ⟨.invalidData, "frame length " ++ toString len ++ " exceeds MAX_FRAME_LEN (" ++
          toString maxFrameLen ++ ")"⟩, rest)
      else readExact len rest

/-- Frames written one after another to an empty stream. -/
def writeFrames (payloads : List Bytes) : Except IoError Bytes := payloads.foldlM writeFrame []

/-- What as many reads as are asked for return, and what they leave. -/
def readFrames : ℕ → Bytes → List (Except IoError Bytes) × Bytes
  | 0, stream => ([], stream)
  | count + 1, stream =>
      let first := readFrame stream
      let others := readFrames count first.2
      (first.1 :: others.1, others.2)

/-! ## Reading what was written -/

def frame (payload : Bytes) : Bytes := leBytes 4 payload.length ++ payload

theorem writeFrame_eq_ok {written payload out : Bytes} :
    writeFrame written payload = .ok out ↔
      payload.length < 2 ^ 32 ∧ out = written ++ frame payload := by
  constructor
  · intro wrote
    unfold writeFrame at wrote
    split at wrote
    · rename_i fits
      cases wrote
      exact ⟨fits, List.append_assoc ..⟩
    · cases wrote
  · rintro ⟨fits, rfl⟩
    rw [writeFrame, if_pos fits, frame, List.append_assoc]

theorem foldlM_writeFrame_eq_ok {payloads : List Bytes} {written out : Bytes} :
    payloads.foldlM writeFrame written = .ok out ↔
      (∀ payload ∈ payloads, payload.length < 2 ^ 32) ∧
        out = written ++ payloads.flatMap frame := by
  induction payloads generalizing written with
  | nil => simp [List.foldlM, pure, Except.pure, eq_comm]
  | cons payload payloads ih =>
      rw [List.foldlM_cons, List.forall_mem_cons, List.flatMap_cons]
      by_cases fits : payload.length < 2 ^ 32
      · rw [writeFrame_eq_ok.mpr ⟨fits, rfl⟩]
        change payloads.foldlM writeFrame (written ++ frame payload) = _ ↔ _
        rw [ih, List.append_assoc, and_iff_right fits]
      · rw [writeFrame, if_neg fits]
        constructor
        · intro wrote
          cases wrote
        · rintro ⟨⟨small, -⟩, -⟩
          exact (fits small).elim

theorem readExact_append (front rest : Bytes) :
    readExact front.length (front ++ rest) = (.ok front, rest) := by
  rw [readExact, if_neg (by rw [List.length_append]; omega), List.take_left, List.drop_left]

/-- One frame comes back if the reader's limit allows it, and is refused otherwise. -/
theorem readFrame_frame {payload : Bytes} (fits : payload.length < 2 ^ 32) (rest : Bytes) :
    readFrame (frame payload ++ rest) =
      if payload.length ≤ maxFrameLen then (.ok payload, rest)
      else (.error ⟨.invalidData, "frame length " ++ toString payload.length ++
        " exceeds MAX_FRAME_LEN (" ++ toString maxFrameLen ++ ")"⟩, payload ++ rest) := by
  have length : readExact 4 (frame payload ++ rest) =
      (.ok (leBytes 4 payload.length), payload ++ rest) := by
    have read := readExact_append (leBytes 4 payload.length) (payload ++ rest)
    rwa [length_leBytes, ← List.append_assoc] at read
  simp only [readFrame, length, leNat_leBytes_four fits]
  by_cases small : payload.length ≤ maxFrameLen
  · rw [if_neg (Nat.not_lt.mpr small), if_pos small, readExact_append]
  · rw [if_pos (Nat.lt_of_not_le small), if_neg small]

theorem readFrames_flatMap {payloads : List Bytes}
    (fit : ∀ payload ∈ payloads, payload.length < 2 ^ 32) :
    readFrames payloads.length (payloads.flatMap frame) = (payloads.map .ok, []) ↔
      ∀ payload ∈ payloads, payload.length ≤ maxFrameLen := by
  induction payloads with
  | nil => simp [readFrames]
  | cons payload payloads ih =>
      rw [List.forall_mem_cons] at fit ⊢
      rw [List.length_cons, List.flatMap_cons, readFrames, readFrame_frame fit.1]
      by_cases small : payload.length ≤ maxFrameLen
      · rw [if_pos small, ← ih fit.2]
        simp [small, Prod.ext_iff]
      · rw [if_neg small]
        simp [small]

/-- Successive reads return what successive writes accepted, and leave nothing over, exactly if no
payload is above the reader's limit. -/
theorem frames_lossless_iff {payloads : List Bytes} {out : Bytes}
    (wrote : writeFrames payloads = .ok out) :
    readFrames payloads.length out = (payloads.map .ok, []) ↔
      ∀ payload ∈ payloads, payload.length ≤ maxFrameLen := by
  rcases foldlM_writeFrame_eq_ok.mp wrote with ⟨fit, rfl⟩
  exact readFrames_flatMap fit

theorem frames_lossless_two :
    writeFrames [[1, 2], []] = .ok [2, 0, 0, 0, 1, 2, 0, 0, 0, 0] ∧
      readFrames 2 [2, 0, 0, 0, 1, 2, 0, 0, 0, 0] = ([.ok [1, 2], .ok []], []) := by
  have wrote : writeFrames [[1, 2], []] = .ok [2, 0, 0, 0, 1, 2, 0, 0, 0, 0] := rfl
  exact ⟨wrote, (frames_lossless_iff wrote).mpr (by simp [maxFrameLen])⟩

/-- A payload one byte above the limit is written and not read back. -/
theorem frame_written_not_read :
    writeFrames [List.replicate (64 * 1024 * 1024 + 1) 0] =
        .ok (frame (List.replicate (64 * 1024 * 1024 + 1) 0)) ∧
      readFrames 1 (frame (List.replicate (64 * 1024 * 1024 + 1) 0)) ≠
        ([.ok (List.replicate (64 * 1024 * 1024 + 1) 0)], []) := by
  have length : (List.replicate (64 * 1024 * 1024 + 1) (0 : UInt8)).length =
      64 * 1024 * 1024 + 1 := List.length_replicate
  have wrote : writeFrames [List.replicate (64 * 1024 * 1024 + 1) 0] =
      .ok (frame (List.replicate (64 * 1024 * 1024 + 1) 0)) := by
    refine foldlM_writeFrame_eq_ok.mpr ⟨?_, ?_⟩
    · rw [List.forall_mem_singleton, length]
      norm_num
    · rw [List.flatMap_singleton, List.nil_append]
  refine ⟨wrote, fun read => ?_⟩
  have small := (readFrames_flatMap (foldlM_writeFrame_eq_ok.mp wrote).1).mp
    (by rw [List.flatMap_singleton]; exact read)
  rw [List.forall_mem_singleton, length, maxFrameLen] at small
  omega

end Seisin.Protocol
