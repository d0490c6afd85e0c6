import Mathlib.Algebra.Ring.Nat
import FileDepot.Frame

/-! # Frames read at once

What the frames of a whole byte string are, without a reader: headers and payloads in turn, up to
a length that is refused or the end of the bytes. The lengths to refuse are a parameter. -/

namespace FileDepot

/-- What there is in some bytes: the payloads of whole frames, the refusal that ended them, if any,
and the number of bytes up to there. -/
structure Parsed where
  payloads : List Bytes := []
  fault : Option FrameFault := none
  absorbed : Nat := 0
deriving DecidableEq

/-- What there is in two strings of bytes, of which the first is not refused. -/
def Parsed.andThen (first second : Parsed) : Parsed where
  payloads := first.payloads ++ second.payloads
  fault := second.fault
  absorbed := first.absorbed + second.absorbed

namespace Frame

/-- The refusal of a length over the limit. -/
def excess? (limit declared : Nat) : Option FrameFault :=
  if limit < declared then some (.tooLarge declared limit) else none

/-- The refusal of a length over the limit, or within it and over what a buffer can hold. -/
def refusal? (limit declared : Nat) : Option FrameFault :=
  (excess? limit declared).or
    (if Bytes.maxSize < declared then some (.overCapacity declared) else none)

/-- Reads frames until a length is refused or the bytes run out. -/
def parse (refuse : Nat → Option FrameFault) (bytes : Bytes) : Parsed :=
  if bytes.length < headerSize then { absorbed := bytes.length }
  else
    let declared := Bytes.ofWord (bytes.take headerSize)
    let rest := bytes.drop headerSize
    match refuse declared with
    | some e => { fault := some e, absorbed := headerSize }
    | none =>
      if rest.length < declared then { absorbed := bytes.length }
      else
        { payloads := [rest.take declared], absorbed := headerSize + declared : Parsed }.andThen
          (parse refuse (rest.drop declared))
termination_by bytes.length
decreasing_by
  simp only [List.length_drop, headerSize, Bytes.wordSize] at *
  omega

variable {refuse : Nat → Option FrameFault}

theorem length_encode (payload : Bytes) : (encode payload).length = headerSize + payload.length := by
  rw [encode, List.length_append, Bytes.length_word, headerSize]

theorem parse_of_lt {bytes : Bytes} (h : bytes.length < headerSize) :
    parse refuse bytes = { absorbed := bytes.length } := by
  rw [parse, if_pos h]

/-- A header that is refused ends the parse, whatever comes after it. -/
theorem parse_refused {header : Bytes} (hl : header.length = headerSize) {e : FrameFault}
    (he : refuse (Bytes.ofWord header) = some e) (rest : Bytes) :
    parse refuse (header ++ rest) = { fault := some e, absorbed := headerSize } := by
  have hlt : ¬ (header ++ rest).length < headerSize := by
    rw [List.length_append]
    omega
  rw [parse, if_neg hlt]
  simp only [← hl, List.take_left, he]

theorem parse_word {length : Nat} (hlt : length < 2 ^ 64) (hn : refuse length = none)
    (rest : Bytes) : parse refuse (Bytes.word length ++ rest) =
      if rest.length < length then { absorbed := headerSize + rest.length }
      else { payloads := [rest.take length], absorbed := headerSize + length : Parsed }.andThen
        (parse refuse (rest.drop length)) := by
  have hl : (Bytes.word length).length = headerSize := Bytes.length_word _
  have hlong : ¬ (Bytes.word length ++ rest).length < headerSize := by
    rw [List.length_append]
    omega
  rw [parse, if_neg hlong]
  simp only [← hl, List.take_left, List.drop_left, Bytes.ofWord_word hlt, hn, List.length_append]

theorem parse_encode {payload : Bytes} (hlt : payload.length < 2 ^ 64)
    (hn : refuse payload.length = none) (rest : Bytes) :
    parse refuse (encode payload ++ rest) =
      { payloads := [payload], absorbed := (encode payload).length : Parsed }.andThen
        (parse refuse rest) := by
  have hlong : ¬ (payload ++ rest).length < payload.length := by
    rw [List.length_append]
    omega
  rw [length_encode, encode, List.append_assoc, parse_word hlt hn, if_neg hlong, List.take_left,
    List.drop_left]

theorem parse_flatMap_encode {payloads : List Bytes}
    (h : ∀ m ∈ payloads, m.length < 2 ^ 64 ∧ refuse m.length = none) (rest : Bytes) :
    parse refuse (payloads.flatMap encode ++ rest) =
      { payloads, absorbed := (payloads.flatMap encode).length : Parsed }.andThen
        (parse refuse rest) := by
  induction payloads with
  | nil => simp [Parsed.andThen]
  | cons m payloads ih =>
      obtain ⟨⟨hlt, hn⟩, h⟩ := List.forall_mem_cons.mp h
      rw [List.flatMap_cons, List.append_assoc, parse_encode hlt hn, ih h]
      simp [Parsed.andThen, Nat.add_assoc]

/-- The frames of some payloads hold just these payloads. -/
theorem parse_frames {payloads : List Bytes}
    (h : ∀ m ∈ payloads, m.length < 2 ^ 64 ∧ refuse m.length = none) :
    parse refuse (payloads.flatMap encode) =
      { payloads, absorbed := (payloads.flatMap encode).length } := by
  have hp := parse_flatMap_encode h []
  rw [List.append_nil, parse_of_lt (by decide : ([] : Bytes).length < headerSize)] at hp
  simpa [Parsed.andThen] using hp

end Frame

end FileDepot
