import Mathlib.Algebra.Ring.Nat
import FileDepot.Request

/-! # The grammar of payloads

The payloads that spell a request, and those that spell none, are given as rules on bytes. Reading a
payload follows them: it gives the request that is spelt, or the first fault there is. -/

namespace FileDepot

namespace Opcode

@[simp] theorem ofByte?_toByte (opcode : Opcode) : ofByte? opcode.toByte = some opcode := by
  cases opcode <;> rfl

theorem toByte_of_ofByte? {byte : UInt8} {opcode : Opcode} (h : ofByte? byte = some opcode) :
    opcode.toByte = byte := by
  simpa using List.find?_some h

end Opcode

/-- Some bytes are the length of others, as a word. -/
structure Declares (length bytes : Bytes) : Prop where
  length_eq : length.length = Bytes.wordSize
  ofWord_eq : Bytes.ofWord length = bytes.length

theorem declares_word {bytes : Bytes} (h : bytes.length < 2 ^ 64) :
    Declares (Bytes.word bytes.length) bytes :=
  ⟨Bytes.length_word _, Bytes.ofWord_word h⟩

theorem Declares.word_eq {length bytes : Bytes} (h : Declares length bytes) :
    Bytes.word bytes.length = length := by
  rw [← h.ofWord_eq, Bytes.word_ofWord h.length_eq]

namespace Request

/-! ## The rules -/

/-- The request of an opcode that a path follows. -/
def onPath? : Opcode → Option (String → Request)
  | .openFile => some (.openFile · false false)
  | .openFileCreate => some (.openFile · true false)
  | .openFileLock => some (.openFile · false true)
  | .openFileCreateLock => some (.openFile · true true)
  | .readFile => some .read
  | .lockFile => some .lock
  | .unlockFile => some .unlock
  | .closeFile => some .close
  | .removeFile => some .remove
  | .readNFiles | .writeFile | .appendToFile => none

/-- The request of an opcode that a path and contents follow. -/
def onPair? : Opcode → Option (String → Bytes → Request)
  | .writeFile => some .write
  | .appendToFile => some .append
  | _ => none

/-- The payloads of the grammar, each with the request that it spells. -/
inductive Spells : Bytes → Request → Prop where
  | nop : Spells [] .nop
  | path {opcode make path} : onPath? opcode = some make → path ≠ "" →
      Spells (opcode.toByte :: Bytes.ofText path) (make path)
  | pair {opcode make pathLength contentsLength path contents} : onPair? opcode = some make →
      Declares pathLength (Bytes.ofText path) → Declares contentsLength contents → path ≠ "" →
      Spells (opcode.toByte :: (pathLength ++ (contentsLength ++ (Bytes.ofText path ++ contents))))
        (make path contents)
  | listing {count : Bytes} : count.length = Bytes.wordSize →
      Spells (Opcode.readNFiles.toByte :: count) (.readN (UInt64.ofNat (Bytes.ofWord count)))

/-- Some bytes are no path: they are empty or not valid UTF-8. -/
def NoPath (bytes : Bytes) : Prop :=
  ∀ path, path ≠ "" → Bytes.ofText path ≠ bytes

/-- The payloads outside the grammar, each with its fault. The two lengths of a pair are added as
they are, however large. -/
inductive Misspelt : Bytes → RequestError → Prop where
  | unknownOpcode {byte bytes} : (∀ opcode : Opcode, opcode.toByte ≠ byte) →
      Misspelt (byte :: bytes) (.unknownOpcode byte)
  | path {opcode make bytes} : onPath? opcode = some make → NoPath bytes →
      Misspelt (opcode.toByte :: bytes) .badPath
  | short {opcode make bytes} : onPair? opcode = some make → bytes.length < 2 * Bytes.wordSize →
      Misspelt (opcode.toByte :: bytes) (.malformed opcode)
  | lengths {opcode make} {pathLength contentsLength rest : Bytes} : onPair? opcode = some make →
      pathLength.length = Bytes.wordSize → contentsLength.length = Bytes.wordSize →
      Bytes.ofWord pathLength + Bytes.ofWord contentsLength ≠ rest.length →
      Misspelt (opcode.toByte :: (pathLength ++ (contentsLength ++ rest))) (.malformed opcode)
  | pair {opcode make pathLength contentsLength path contents} : onPair? opcode = some make →
      Declares pathLength path → Declares contentsLength contents → NoPath path →
      Misspelt (opcode.toByte :: (pathLength ++ (contentsLength ++ (path ++ contents)))) .badPath
  | listing {count : Bytes} : count.length ≠ Bytes.wordSize →
      Misspelt (Opcode.readNFiles.toByte :: count) (.malformed .readNFiles)

/-! ## Reading paths and pairs -/

theorem decodePath_eq_ok_iff {bytes : Bytes} {path : String} :
    decodePath bytes = .ok path ↔ path ≠ "" ∧ Bytes.ofText path = bytes := by
  constructor
  · intro h
    unfold decodePath at h
    split at h
    · cases h
    · rename_i hne
      split at h
      · rename_i hp
        obtain rfl := Except.ok.inj h
        have ht := Bytes.ofText_of_toText? hp
        refine ⟨?_, ht⟩
        rintro rfl
        exact hne (by rw [← ht]; rfl)
      · cases h
  · rintro ⟨hne, rfl⟩
    simp [decodePath, Bytes.ofText_ne_nil hne, Bytes.toText?_ofText]

/-- Bytes that are no path have one fault. -/
theorem decodePath_eq_error_iff {bytes : Bytes} {e : RequestError} :
    decodePath bytes = .error e ↔ NoPath bytes ∧ e = .badPath := by
  cases hd : decodePath bytes with
  | ok path =>
      obtain ⟨hne, hp⟩ := decodePath_eq_ok_iff.mp hd
      exact ⟨nofun, fun ⟨hno, _⟩ => absurd hp (hno path hne)⟩
  | error fault =>
      have hfault : fault = .badPath := by
        unfold decodePath at hd
        split at hd
        · exact (Except.error.inj hd).symm
        · split at hd
          · cases hd
          · exact (Except.error.inj hd).symm
      have hno : NoPath bytes := by
        intro path hne hp
        rw [decodePath_eq_ok_iff.mpr ⟨hne, hp⟩] at hd
        cases hd
      constructor
      · rintro h
        exact ⟨hno, (Except.error.inj h).symm.trans hfault⟩
      · rintro ⟨-, rfl⟩
        rw [hfault]

/-- What is read of two words and the bytes after them. -/
theorem decodePair_words (opcode : Opcode) {pathLength contentsLength : Bytes}
    (hp : pathLength.length = Bytes.wordSize) (hc : contentsLength.length = Bytes.wordSize)
    (rest : Bytes) : decodePair opcode (pathLength ++ (contentsLength ++ rest)) =
      if Bytes.ofWord pathLength + Bytes.ofWord contentsLength = rest.length then
        (decodePath (rest.take (Bytes.ofWord pathLength))).map
          (·, rest.drop (Bytes.ofWord pathLength))
      else .error (.malformed opcode) := by
  have hlong : ¬ (pathLength ++ (contentsLength ++ rest)).length < 2 * Bytes.wordSize := by
    simp only [List.length_append, hp, hc]
    omega
  have hdrop : (pathLength ++ (contentsLength ++ rest)).drop Bytes.wordSize =
      contentsLength ++ rest := List.drop_left' hp
  have hrest : (pathLength ++ (contentsLength ++ rest)).drop (2 * Bytes.wordSize) = rest := by
    rw [Nat.two_mul, ← List.drop_drop, hdrop, List.drop_left' hc]
  rw [decodePair, if_neg hlong, hdrop, hrest, List.take_left' hp, List.take_left' hc]

/-- Bytes enough for two words start with them. -/
theorem exists_words {bytes : Bytes} (h : 2 * Bytes.wordSize ≤ bytes.length) :
    ∃ first second rest : Bytes, bytes = first ++ (second ++ rest) ∧
      first.length = Bytes.wordSize ∧ second.length = Bytes.wordSize := by
  refine ⟨bytes.take Bytes.wordSize, (bytes.drop Bytes.wordSize).take Bytes.wordSize,
    (bytes.drop Bytes.wordSize).drop Bytes.wordSize, ?_, ?_, ?_⟩
  · rw [List.take_append_drop, List.take_append_drop]
  · rw [List.length_take]
    omega
  · rw [List.length_take, List.length_drop]
    omega

/-- Lengths that add up cut the bytes after them into a path and contents. -/
theorem declares_take_drop {pathLength contentsLength rest : Bytes}
    (hp : pathLength.length = Bytes.wordSize) (hc : contentsLength.length = Bytes.wordSize)
    (h : Bytes.ofWord pathLength + Bytes.ofWord contentsLength = rest.length) :
    Declares pathLength (rest.take (Bytes.ofWord pathLength)) ∧
      Declares contentsLength (rest.drop (Bytes.ofWord pathLength)) := by
  refine ⟨⟨hp, ?_⟩, ⟨hc, ?_⟩⟩
  · rw [List.length_take]
    omega
  · rw [List.length_drop]
    omega

theorem decodePair_of_declares (opcode : Opcode) {pathLength contentsLength path contents : Bytes}
    (hp : Declares pathLength path) (hc : Declares contentsLength contents) :
    decodePair opcode (pathLength ++ (contentsLength ++ (path ++ contents))) =
      (decodePath path).map (·, contents) := by
  have hsum : Bytes.ofWord pathLength + Bytes.ofWord contentsLength =
      (path ++ contents).length := by
    rw [hp.ofWord_eq, hc.ofWord_eq, List.length_append]
  rw [decodePair_words opcode hp.length_eq hc.length_eq, if_pos hsum, hp.ofWord_eq, List.take_left,
    List.drop_left]

/-! ## Reading requests -/

theorem decode_toByte (opcode : Opcode) (bytes : Bytes) :
    decode (opcode.toByte :: bytes) = decodeArguments opcode bytes := by
  simp [decode]

theorem decode_onPath {opcode : Opcode} {make : String → Request} (h : onPath? opcode = some make)
    (bytes : Bytes) : decode (opcode.toByte :: bytes) = (decodePath bytes).map make := by
  rw [decode_toByte]
  cases opcode <;> cases h <;> rfl

theorem decode_onPair {opcode : Opcode} {make : String → Bytes → Request}
    (h : onPair? opcode = some make) (bytes : Bytes) :
    decode (opcode.toByte :: bytes) =
      (decodePair opcode bytes).map fun pair => make pair.1 pair.2 := by
  rw [decode_toByte]
  cases opcode <;> cases h <;> rfl

/-- An opcode is followed by a path, by a path and contents, or by a count. -/
theorem onPath?_or_onPair? (opcode : Opcode) : (∃ make, onPath? opcode = some make) ∨
    (∃ make, onPair? opcode = some make) ∨ opcode = .readNFiles := by
  cases opcode with
  | readNFiles => exact .inr (.inr rfl)
  | writeFile | appendToFile => exact .inr (.inl ⟨_, rfl⟩)
  | _ => exact .inl ⟨_, rfl⟩

theorem decode_of_spells {payload : Bytes} {request : Request} (h : Spells payload request) :
    decode payload = .ok request := by
  cases h with
  | nop => rfl
  | path hm hne => rw [decode_onPath hm, decodePath_eq_ok_iff.mpr ⟨hne, rfl⟩]; rfl
  | pair hm hp hc hne =>
      rw [decode_onPair hm, decodePair_of_declares _ hp hc, decodePath_eq_ok_iff.mpr ⟨hne, rfl⟩]
      rfl
  | listing hl => rw [decode_toByte, decodeArguments, if_pos hl]

theorem decode_of_misspelt {payload : Bytes} {e : RequestError} (h : Misspelt payload e) :
    decode payload = .error e := by
  cases h with
  | @unknownOpcode byte bytes hno =>
      have hn : Opcode.ofByte? byte = none := by
        cases ho : Opcode.ofByte? byte with
        | none => rfl
        | some opcode => exact absurd (Opcode.toByte_of_ofByte? ho) (hno opcode)
      simp only [decode, hn]
  | path hm hno => rw [decode_onPath hm, decodePath_eq_error_iff.mpr ⟨hno, rfl⟩]; rfl
  | short hm hl => rw [decode_onPair hm, decodePair, if_pos hl]; rfl
  | lengths hm hp hc hne => rw [decode_onPair hm, decodePair_words _ hp hc, if_neg hne]; rfl
  | pair hm hp hc hno =>
      rw [decode_onPair hm, decodePair_of_declares _ hp hc, decodePath_eq_error_iff.mpr ⟨hno, rfl⟩]
      rfl
  | listing hl => rw [decode_toByte, decodeArguments, if_neg hl]

/-- Every payload spells a request or is misspelt. -/
theorem spells_or_misspelt (payload : Bytes) :
    (∃ request, Spells payload request) ∨ ∃ e, Misspelt payload e := by
  have hpath : ∀ bytes, (∃ path, path ≠ "" ∧ Bytes.ofText path = bytes) ∨ NoPath bytes := by
    intro bytes
    by_cases h : ∃ path, path ≠ "" ∧ Bytes.ofText path = bytes
    · exact .inl h
    · exact .inr fun path hne he => h ⟨path, hne, he⟩
  cases payload with
  | nil => exact .inl ⟨_, .nop⟩
  | cons byte bytes =>
      cases ho : Opcode.ofByte? byte with
      | none =>
          refine .inr ⟨_, .unknownOpcode ?_⟩
          rintro opcode rfl
          simp at ho
      | some opcode =>
          obtain rfl := Opcode.toByte_of_ofByte? ho
          rcases onPath?_or_onPair? opcode with ⟨make, hm⟩ | ⟨make, hm⟩ | rfl
          · rcases hpath bytes with ⟨path, hne, rfl⟩ | hno
            · exact .inl ⟨_, .path hm hne⟩
            · exact .inr ⟨_, .path hm hno⟩
          · by_cases hl : bytes.length < 2 * Bytes.wordSize
            · exact .inr ⟨_, .short hm hl⟩
            obtain ⟨pathLength, contentsLength, rest, rfl, hp, hc⟩ :=
              exists_words (Nat.not_lt.mp hl)
            by_cases hsum : Bytes.ofWord pathLength + Bytes.ofWord contentsLength = rest.length
            · obtain ⟨hdp, hdc⟩ := declares_take_drop hp hc hsum
              rw [← List.take_append_drop (Bytes.ofWord pathLength) rest]
              rcases hpath (rest.take (Bytes.ofWord pathLength)) with ⟨path, hne, he⟩ | hno
              · rw [← he] at hdp ⊢
                exact .inl ⟨_, .pair hm hdp hdc hne⟩
              · exact .inr ⟨_, .pair hm hdp hdc hno⟩
            · exact .inr ⟨_, .lengths hm hp hc hsum⟩
          · by_cases hl : bytes.length = Bytes.wordSize
            · exact .inl ⟨_, .listing hl⟩
            · exact .inr ⟨_, .listing hl⟩

theorem decode_eq_ok_iff {payload : Bytes} {request : Request} :
    decode payload = .ok request ↔ Spells payload request := by
  refine ⟨fun h => ?_, decode_of_spells⟩
  rcases spells_or_misspelt payload with ⟨r, hr⟩ | ⟨e, he⟩
  · obtain rfl := Except.ok.inj (h.symm.trans (decode_of_spells hr))
    exact hr
  · cases h.symm.trans (decode_of_misspelt he)

theorem decode_eq_error_iff {payload : Bytes} {e : RequestError} :
    decode payload = .error e ↔ Misspelt payload e := by
  refine ⟨fun h => ?_, decode_of_misspelt⟩
  rcases spells_or_misspelt payload with ⟨r, hr⟩ | ⟨e', he⟩
  · cases h.symm.trans (decode_of_spells hr)
  · obtain rfl := Except.error.inj (h.symm.trans (decode_of_misspelt he))
    exact he

end Request

end FileDepot
