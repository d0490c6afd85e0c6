import FileDepot.Call
import FileDepot.Proofs.Wire.Grammar

/-! # The responses that a client accepts

Listings and reports of evictions are given as rules on bytes, which the server's writer follows. On
any stream the client's readers return files exactly if it starts with the bytes of a response, and
take these bytes and no more; on every other stream they stop with a fault, however many files and
bytes the stream announces. -/

namespace FileDepot

/-! ## The rules -/

namespace SentFile

/-- The block of a file: two words declare the lengths of its path and its contents, which follow. -/
inductive Block : Bytes → SentFile → Prop where
  | block {pathLength contentsLength : Bytes} {f : SentFile} :
      Declares pathLength (Bytes.ofText f.path) → Declares contentsLength f.contents →
      Block (pathLength ++ (contentsLength ++ (Bytes.ofText f.path ++ f.contents))) f

/-- The blocks of some files one after the other. -/
inductive Blocks : Bytes → List SentFile → Prop where
  | nil : Blocks [] []
  | cons {bytes later f files} : Block bytes f → Blocks later files →
      Blocks (bytes ++ later) (f :: files)

end SentFile

namespace Response

/-- A listing: blocks of files that all have a path, and eight zero bytes. -/
inductive Listing : Bytes → List SentFile → Prop where
  | listing {bytes files} : SentFile.Blocks bytes files → (∀ f ∈ files, f.path ≠ "") →
      Listing (bytes ++ List.replicate 8 0) files

/-- The report of a write or an append: a status, a word for the number of files, and their
blocks. -/
inductive Report : Bytes → Status × List SentFile → Prop where
  | report {count bytes : Bytes} {status files} : count.length = Bytes.wordSize →
      Bytes.ofWord count = files.length → SentFile.Blocks bytes files →
      Report (status.toByte :: (count ++ bytes)) (status, files)

end Response

/-! ## The writer follows the rules -/

theorem Declares.length_lt {length bytes : Bytes} (h : Declares length bytes) :
    bytes.length < 2 ^ 64 :=
  h.ofWord_eq ▸ Bytes.ofWord_lt h.length_eq

namespace SentFile

/-- The lengths of a file fit into words. -/
def Declarable (f : SentFile) : Prop :=
  (Bytes.ofText f.path).length < 2 ^ 64 ∧ f.contents.length < 2 ^ 64

theorem block_iff {bytes : Bytes} {f : SentFile} :
    Block bytes f ↔ f.Declarable ∧ bytes = f.pieces.flatten := by
  constructor
  · rintro ⟨hp, hc⟩
    refine ⟨⟨hp.length_lt, hc.length_lt⟩, ?_⟩
    simp [pieces, hp.word_eq, hc.word_eq]
  · rintro ⟨⟨hp, hc⟩, rfl⟩
    have hb := Block.block (declares_word hp) (declares_word hc)
    simpa [pieces] using hb

theorem blocks_iff {bytes : Bytes} {files : List SentFile} :
    Blocks bytes files ↔
      (∀ f ∈ files, f.Declarable) ∧ bytes = (files.flatMap pieces).flatten := by
  induction files generalizing bytes with
  | nil =>
      constructor
      · rintro ⟨⟩
        simp
      · rintro ⟨-, rfl⟩
        exact .nil
  | cons f files ih =>
      rw [List.forall_mem_cons, List.flatMap_cons, List.flatten_append]
      constructor
      · rintro (_ | ⟨hb, hbs⟩)
        obtain ⟨hf, rfl⟩ := block_iff.mp hb
        obtain ⟨hfs, rfl⟩ := ih.mp hbs
        exact ⟨⟨hf, hfs⟩, rfl⟩
      · rintro ⟨⟨hf, hfs⟩, rfl⟩
        exact .cons (block_iff.mpr ⟨hf, rfl⟩) (ih.mpr ⟨hfs, rfl⟩)

theorem Block.two_words_le {bytes : Bytes} {f : SentFile} (h : Block bytes f) :
    2 * Bytes.wordSize ≤ bytes.length := by
  obtain ⟨hp, hc⟩ := h
  simp only [List.length_append, hp.length_eq, hc.length_eq]
  omega

end SentFile

namespace Response

theorem listing_iff {bytes : Bytes} {files : List SentFile} :
    Listing bytes files ↔ (∀ f ∈ files, f.Declarable ∧ f.path ≠ "") ∧
      bytes = (Response.listing files).encode := by
  have he : (Response.listing files).encode =
      (files.flatMap SentFile.pieces).flatten ++ List.replicate 8 0 := by
    rw [encode, pieces, List.flatten_append, List.flatten_singleton]
    rfl
  rw [he, forall₂_and]
  constructor
  · rintro ⟨hb, hp⟩
    obtain ⟨hd, rfl⟩ := SentFile.blocks_iff.mp hb
    exact ⟨⟨hd, hp⟩, rfl⟩
  · rintro ⟨⟨hd, hp⟩, rfl⟩
    exact .listing (SentFile.blocks_iff.mpr ⟨hd, rfl⟩) hp

theorem report_iff {bytes : Bytes} {status : Status} {files : List SentFile} :
    Report bytes (status, files) ↔
      files.length < 2 ^ 64 ∧ (∀ f ∈ files, f.Declarable) ∧
        bytes = status.toByte :: (Bytes.word files.length ++
          (files.flatMap SentFile.pieces).flatten) := by
  constructor
  · rintro ⟨hl, hc, hb⟩
    obtain ⟨hd, rfl⟩ := SentFile.blocks_iff.mp hb
    exact ⟨hc ▸ Bytes.ofWord_lt hl, hd, by rw [← hc, Bytes.word_ofWord hl]⟩
  · rintro ⟨hl, hd, rfl⟩
    exact .report (Bytes.length_word _) (Bytes.ofWord_word hl) (SentFile.blocks_iff.mpr ⟨hd, rfl⟩)

theorem report_ok_iff {bytes : Bytes} {files : List SentFile} :
    Report bytes (.ok, files) ↔ files.length < 2 ^ 64 ∧ (∀ f ∈ files, f.Declarable) ∧
      bytes = (Response.evicted files).encode := by
  simp [report_iff, encode, pieces]

theorem report_err_nil_iff {bytes : Bytes} :
    Report bytes (.err, []) ↔ bytes = Response.noEvictions.encode := by
  simp [report_iff, encode, pieces]

end Response

/-! ## Readers of some form -/

/-- What goes wrong on a stream that is cut short. -/
def WireFault.OnReading (fault : WireFault) : Prop :=
  fault = .cutShort ∨ fault = .ended

/-- What goes wrong on a stream that is no response. -/
inductive CallError.OnReading : CallError → Prop where
  | wire {fault} : fault.OnReading → OnReading (.wire fault)
  | badResponse : OnReading .badResponse

/-- A reader of the bytes of some form: it takes just these off the stream, and where the stream
does not start with any it fails for one of some reasons. -/
structure Reads {ε α : Type} (reason : ε → Prop) (form : Bytes → α → Prop) (read : Reader ε α) :
    Prop where
  ok_iff : ∀ {input a rest}, read input = (.ok a, rest) ↔ ∃ w, input = w ++ rest ∧ form w a
  reason : ∀ {input e rest}, read input = (.error e, rest) → reason e

namespace Reads

variable {ε α β : Type} {reason : ε → Prop} {form form' : Bytes → α → Prop} {read : Reader ε α}

theorem congr (h : Reads reason form read) (he : ∀ w a, form w a ↔ form' w a) :
    Reads reason form' read where
  ok_iff := h.ok_iff.trans (exists_congr fun w => and_congr_right' (he w _))
  reason := h.reason

/-- Where a stream starts with bytes of the form, these are what is read. -/
theorem of_form (h : Reads reason form read) {w : Bytes} {a : α} (hw : form w a) (rest : Bytes) :
    read (w ++ rest) = (.ok a, rest) :=
  h.ok_iff.mpr ⟨w, rfl, hw⟩

/-- A reader of a form finds its bytes or gives a reason. -/
theorem form_or_reason (h : Reads reason form read) (input : Bytes) :
    (∃ a w rest, input = w ++ rest ∧ form w a) ∨
      ∃ e rest, read input = (.error e, rest) ∧ reason e := by
  rcases hr : read input with ⟨e | a, rest⟩
  · exact .inr ⟨e, rest, rfl, h.reason hr⟩
  · obtain ⟨w, hi, hw⟩ := h.ok_iff.mp hr
    exact .inl ⟨a, w, rest, hi, hw⟩

/-! ### Fields -/

theorem sized {size : Nat} {fault : WireFault} (hf : fault.OnReading) {read : Reader WireFault Bytes}
    (hr : ∀ input, read input =
      if size ≤ input.length then (.ok (input.take size), input.drop size) else (.error fault, [])) :
    Reads WireFault.OnReading (fun w bytes => w = bytes ∧ bytes.length = size) read where
  ok_iff := by
    intro input bytes rest
    rw [hr]
    constructor
    · split
      · rename_i hl
        rintro ⟨⟩
        exact ⟨_, (List.take_append_drop size input).symm, rfl, List.length_take_of_le hl⟩
      · rintro ⟨⟩
    · rintro ⟨w, rfl, rfl, rfl⟩
      simp
  reason := by
    intro input e rest
    rw [hr]
    split
    · rintro ⟨⟩
    · rintro ⟨⟩
      exact hf

theorem exactly (size : Nat) : Reads WireFault.OnReading
    (fun w bytes => w = bytes ∧ bytes.length = size) (Reader.exactly size) :=
  sized (.inl rfl) fun _ => rfl

theorem declared (size : Nat) : Reads WireFault.OnReading
    (fun w bytes => w = bytes ∧ bytes.length = size) (Reader.declared size) :=
  sized (.inr rfl) fun _ => rfl

theorem word : Reads WireFault.OnReading
    (fun w n => w.length = Bytes.wordSize ∧ Bytes.ofWord w = n) Reader.word where
  ok_iff := by
    intro input n rest
    rw [Reader.word]
    constructor
    · rcases hr : Reader.exactly Bytes.wordSize input with ⟨e | bytes, later⟩
      · rintro ⟨⟩
      · rintro ⟨⟩
        obtain ⟨w, hi, rfl, hl⟩ := (exactly _).ok_iff.mp hr
        exact ⟨w, hi, hl, rfl⟩
    · rintro ⟨w, rfl, hl, rfl⟩
      rw [(exactly _).of_form ⟨rfl, hl⟩]
      rfl
  reason := by
    intro input e rest
    rw [Reader.word]
    rcases hr : Reader.exactly Bytes.wordSize input with ⟨e | bytes, later⟩
    · rintro ⟨⟩
      exact (exactly _).reason hr
    · rintro ⟨⟩

/-! ### Nothing -/

theorem done (a : α) : Reads reason (fun w b => w = [] ∧ b = a) fun input => (.ok a, input) where
  ok_iff := by
    intro input b rest
    constructor
    · rintro ⟨⟩
      exact ⟨[], rfl, rfl, rfl⟩
    · rintro ⟨w, rfl, rfl, rfl⟩
      rfl
  reason := nofun

theorem fails {e : ε} (he : reason e) :
    Reads reason (fun _ (_ : α) => False) fun input => (.error e, input) where
  ok_iff := ⟨nofun, fun ⟨_, _, h⟩ => h.elim⟩
  reason := by
    rintro input e rest ⟨⟩
    exact he

/-! ### One after the other -/

theorem andThen {form : Bytes → α → Prop} {read : Reader WireFault α}
    {next : α → Reader CallError β} {later : α → Bytes → β → Prop}
    (hr : Reads WireFault.OnReading form read)
    (hn : ∀ a, Reads CallError.OnReading (later a) (next a)) :
    Reads CallError.OnReading (fun w b => ∃ u a v, form u a ∧ later a v b ∧ w = u ++ v)
      (Call.andThen read next) where
  ok_iff := by
    intro input b rest
    rw [Call.andThen]
    constructor
    · rcases ha : read input with ⟨e | a, mid⟩
      · rintro ⟨⟩
      · intro hb
        obtain ⟨u, rfl, hu⟩ := hr.ok_iff.mp ha
        obtain ⟨v, rfl, hv⟩ := (hn a).ok_iff.mp hb
        exact ⟨u ++ v, (List.append_assoc ..).symm, u, a, v, hu, hv, rfl⟩
    · rintro ⟨_, rfl, u, a, v, hu, hv, rfl⟩
      rw [List.append_assoc, hr.of_form hu]
      exact (hn a).of_form hv rest
  reason := by
    intro input e rest
    rw [Call.andThen]
    rcases ha : read input with ⟨fault | a, mid⟩
    · rintro ⟨⟩
      exact .wire (hr.reason ha)
    · exact (hn a).reason

/-- What comes next depends on a value that the bytes read so far may not have. -/
theorem ofOption {γ : Type} {later : γ → Bytes → α → Prop} {next : γ → Reader CallError α}
    (hn : ∀ c, Reads CallError.OnReading (later c) (next c)) (value : Option γ) :
    Reads CallError.OnReading (fun w a => ∃ c, value = some c ∧ later c w a)
      fun input => value.elim (.error .badResponse, input) (next · input) := by
  cases value with
  | none => exact (fails .badResponse).congr fun w a => by simp
  | some c => exact (hn c).congr fun w a => by simp

theorem map (h : Reads reason form read) (f : α → β) :
    Reads reason (fun w b => ∃ a, form w a ∧ b = f a)
      (fun input => (read input).map (Except.map f) id) where
  ok_iff := by
    intro input b rest
    constructor
    · rcases hr : read input with ⟨e | a, rest'⟩
      · rintro ⟨⟩
      · rintro ⟨⟩
        obtain ⟨w, rfl, hw⟩ := h.ok_iff.mp hr
        exact ⟨w, rfl, a, hw, rfl⟩
    · rintro ⟨w, rfl, a, hw, rfl⟩
      rw [h.of_form hw]
      rfl
  reason := by
    intro input e rest
    rcases hr : read input with ⟨e' | a, rest'⟩
    · rintro ⟨⟩
      exact h.reason hr
    · rintro ⟨⟩

/-- A list read by its first file and the rest of it. -/
theorem cons {first : Bytes → SentFile → Prop} {later : Bytes → List SentFile → Prop}
    {read : Reader CallError SentFile} {next : Reader CallError (List SentFile)}
    (hr : Reads CallError.OnReading first read) (hn : Reads CallError.OnReading later next) :
    Reads CallError.OnReading
      (fun w files => ∃ u f v fs, first u f ∧ later v fs ∧ w = u ++ v ∧ files = f :: fs)
      (fun input =>
        match read input with
        | (.error e, rest) => (.error e, rest)
        | (.ok file, rest) => (next rest).map (Except.map (file :: ·)) id) where
  ok_iff := by
    intro input files rest
    constructor
    · rcases hf : read input with ⟨e | f, mid⟩
      · rintro ⟨⟩
      · rcases hfs : next mid with ⟨e | fs, rest'⟩
        · simp only [hfs]
          rintro ⟨⟩
        · simp only [hfs]
          rintro ⟨⟩
          obtain ⟨u, rfl, hu⟩ := hr.ok_iff.mp hf
          obtain ⟨v, rfl, hv⟩ := hn.ok_iff.mp hfs
          exact ⟨u ++ v, (List.append_assoc ..).symm, u, f, v, fs, hu, hv, rfl, rfl⟩
    · rintro ⟨_, rfl, u, f, v, fs, hu, hv, rfl, rfl⟩
      rw [List.append_assoc, hr.of_form hu]
      simp only [hn.of_form hv]
      rfl
  reason := by
    intro input e rest
    rcases hf : read input with ⟨e' | f, mid⟩
    · rintro ⟨⟩
      exact hr.reason hf
    · rcases hfs : next mid with ⟨e' | fs, rest'⟩
      · simp only [hfs]
        rintro ⟨⟩
        exact hn.reason hfs
      · simp only [hfs]
        rintro ⟨⟩

end Reads

namespace Call

/-! ## Files -/

theorem readFileBody_eq (pathLength : Nat) : readFileBody pathLength =
    andThen Reader.word fun contentsLength => andThen (Reader.declared pathLength) fun path =>
      andThen (Reader.declared contentsLength) fun contents input =>
        (Bytes.toText? path).elim (.error .badResponse, input)
          fun text => (.ok ⟨text, contents⟩, input) := by
  unfold readFileBody
  congr
  funext contentsLength
  congr
  funext path
  congr
  funext contents input
  cases Bytes.toText? path <;> rfl

/-- The rest of a block whose first length has been read. -/
theorem reads_readFileBody (pathLength : Nat) : Reads CallError.OnReading
    (fun w f => ∃ contentsLength, Declares contentsLength f.contents ∧
      (Bytes.ofText f.path).length = pathLength ∧
      w = contentsLength ++ (Bytes.ofText f.path ++ f.contents))
    (readFileBody pathLength) := by
  rw [readFileBody_eq]
  refine (Reads.word.andThen fun contentsLength => (Reads.declared pathLength).andThen fun path =>
    (Reads.declared contentsLength).andThen fun contents =>
      Reads.ofOption (fun text => Reads.done (⟨text, contents⟩ : SentFile))
        (Bytes.toText? path)).congr ?_
  intro w f
  constructor
  · rintro ⟨u, n, _, ⟨hu, hn⟩, ⟨_, path, _, ⟨rfl, hp⟩, ⟨_, contents, _, ⟨rfl, hc⟩,
      ⟨text, ht, rfl, rfl⟩, rfl⟩, rfl⟩, rfl⟩
    obtain rfl := Bytes.ofText_of_toText? ht
    exact ⟨u, ⟨hu, hn.trans hc.symm⟩, hp, by rw [List.append_nil]⟩
  · rintro ⟨u, hd, hp, rfl⟩
    exact ⟨u, _, _, ⟨hd.length_eq, rfl⟩, ⟨_, _, _, ⟨rfl, hp⟩, ⟨_, _, [], ⟨rfl, hd.ofWord_eq.symm⟩,
      ⟨f.path, Bytes.toText?_ofText f.path, rfl, rfl⟩, (List.append_nil _).symm⟩, rfl⟩, rfl⟩

theorem reads_readSentFile : Reads CallError.OnReading SentFile.Block readSentFile := by
  refine (Reads.word.andThen reads_readFileBody).congr fun w f => ?_
  constructor
  · rintro ⟨u, n, -, ⟨hu, hn⟩, ⟨c, hc, hp, rfl⟩, rfl⟩
    exact .block ⟨hu, hn.trans hp.symm⟩ hc
  · rintro ⟨hp, hc⟩
    exact ⟨_, _, _, ⟨hp.length_eq, rfl⟩, ⟨_, hc, hp.ofWord_eq.symm, rfl⟩, rfl⟩

theorem reads_readSentFiles (count : Nat) : Reads CallError.OnReading
    (fun w files => SentFile.Blocks w files ∧ files.length = count) (readSentFiles count) := by
  induction count with
  | zero =>
      refine (Reads.done []).congr fun w files => ?_
      constructor
      · rintro ⟨rfl, rfl⟩
        exact ⟨.nil, rfl⟩
      · rintro ⟨hb, hl⟩
        obtain rfl := List.eq_nil_of_length_eq_zero hl
        cases hb
        exact ⟨rfl, rfl⟩
  | succ count ih =>
      refine (reads_readSentFile.cons ih).congr fun w files => ?_
      constructor
      · rintro ⟨u, f, v, fs, hu, ⟨hv, hl⟩, rfl, rfl⟩
        exact ⟨.cons hu hv, congrArg (· + 1) hl⟩
      · rintro ⟨_ | ⟨hu, hv⟩, hl⟩
        · cases hl
        · exact ⟨_, _, _, _, hu, ⟨hv, Nat.succ.inj hl⟩, rfl, rfl⟩

/-! ## Listings -/

end Call

namespace Response

theorem listing_nil_iff {bytes : Bytes} : Listing bytes [] ↔ bytes = List.replicate 8 0 := by
  constructor
  · rintro ⟨⟨⟩, -⟩
    rfl
  · rintro rfl
    exact .listing .nil (by simp)

theorem listing_cons_iff {bytes : Bytes} {f : SentFile} {files : List SentFile} :
    Listing bytes (f :: files) ↔
      f.path ≠ "" ∧ ∃ u v, SentFile.Block u f ∧ Listing v files ∧ bytes = u ++ v := by
  constructor
  · rintro ⟨_ | ⟨hu, hv⟩, hp⟩
    obtain ⟨hf, hp⟩ := List.forall_mem_cons.mp hp
    exact ⟨hf, _, _, hu, .listing hv hp, List.append_assoc ..⟩
  · rintro ⟨hf, u, v, hu, ⟨hv, hp⟩, rfl⟩
    rw [← List.append_assoc]
    exact .listing (.cons hu hv) (List.forall_mem_cons.mpr ⟨hf, hp⟩)

theorem Listing.length_le {bytes : Bytes} {files : List SentFile} (h : Listing bytes files) :
    files.length ≤ bytes.length := by
  induction files generalizing bytes with
  | nil => exact Nat.zero_le _
  | cons f files ih =>
      obtain ⟨-, u, v, hu, hv, rfl⟩ := listing_cons_iff.mp h
      have h₁ := hu.two_words_le
      have h₂ := ih hv
      rw [List.length_append, List.length_cons]
      simp only [Bytes.wordSize] at h₁
      omega

end Response

theorem Bytes.eq_zeros_iff {w : Bytes} :
    w.length = wordSize ∧ ofWord w = 0 ↔ w = List.replicate 8 0 := by
  constructor
  · rintro ⟨hl, h0⟩
    rw [← word_ofWord hl, h0]
    rfl
  · rintro rfl
    exact ⟨rfl, rfl⟩

namespace Call

/-- As many rounds as there are files, and one more, read a listing. -/
theorem reads_readListingUpTo (fuel : Nat) : Reads CallError.OnReading
    (fun w files => Response.Listing w files ∧ files.length < fuel) (readListingUpTo fuel) := by
  induction fuel with
  | zero => exact (Reads.fails (.wire (.inl rfl))).congr fun w files => by simp
  | succ fuel ih =>
      have hnext : ∀ n, Reads CallError.OnReading
          (fun w files => (n = 0 ∧ w = [] ∧ files = []) ∨ n ≠ 0 ∧ ∃ u f v fs,
            (∃ c, Declares c f.contents ∧ (Bytes.ofText f.path).length = n ∧
              u = c ++ (Bytes.ofText f.path ++ f.contents)) ∧
            (Response.Listing v fs ∧ fs.length < fuel) ∧ w = u ++ v ∧ files = f :: fs)
          fun input => if n = 0 then (.ok [], input) else
            match readFileBody n input with
            | (.error e, rest) => (.error e, rest)
            | (.ok file, rest) => (readListingUpTo fuel rest).map (Except.map (file :: ·)) id := by
        intro n
        rcases Nat.eq_zero_or_pos n with rfl | hn
        · exact (Reads.done []).congr fun w files => by simp
        · have hn := Nat.ne_of_gt hn
          simpa only [hn, if_false, false_and, false_or, ne_eq, not_false_eq_true, true_and] using
            (reads_readFileBody n).cons ih
      refine (Reads.word.andThen hnext).congr fun w files => ?_
      constructor
      · rintro ⟨u, n, -, ⟨hu, hn⟩, ⟨rfl, rfl, rfl⟩ | ⟨hne, -, f, v, fs, ⟨c, hc, hp, rfl⟩, ⟨hv, hl⟩,
          rfl, rfl⟩, rfl⟩
        · rw [Bytes.eq_zeros_iff.mp ⟨hu, hn⟩, List.append_nil]
          exact ⟨Response.listing_nil_iff.mpr rfl, Nat.succ_pos fuel⟩
        · refine ⟨Response.listing_cons_iff.mpr ⟨?_, _, v, .block ⟨hu, hn.trans hp.symm⟩ hc, hv, ?_⟩,
            Nat.succ_lt_succ hl⟩
          · intro he
            exact hne (by rw [← hp, he]; rfl)
          · simp only [List.append_assoc]
      · rintro ⟨hw, hl⟩
        cases files with
        | nil =>
            obtain ⟨hz, h0⟩ := Bytes.eq_zeros_iff.mpr (Response.listing_nil_iff.mp hw)
            exact ⟨w, 0, [], ⟨hz, h0⟩, .inl ⟨rfl, rfl, rfl⟩, (List.append_nil w).symm⟩
        | cons f files =>
            obtain ⟨hf, _, v, ⟨hp, hc⟩, hv, rfl⟩ := Response.listing_cons_iff.mp hw
            -- A path has at least one byte, so its length does not end the listing.
            have hpos : (Bytes.ofText f.path).length ≠ 0 :=
              fun h => Bytes.ofText_ne_nil hf (List.eq_nil_of_length_eq_zero h)
            refine ⟨_, _, _, ⟨hp.length_eq, rfl⟩, .inr ⟨hp.ofWord_eq ▸ hpos, _, f, v, files,
              ⟨_, hc, hp.ofWord_eq.symm, rfl⟩, ⟨hv, Nat.lt_of_succ_lt_succ hl⟩, rfl, rfl⟩, ?_⟩
            simp only [List.append_assoc]

/-- The rounds that a stream leaves room for are enough to read any listing on it. -/
theorem reads_readListing : Reads CallError.OnReading
    (fun w reply => ∃ files, Response.Listing w files ∧ reply = .files files) readListing := by
  have hall : Reads CallError.OnReading Response.Listing
      fun input => readListingUpTo (input.length + 1) input := by
    refine ⟨?_, fun h => (reads_readListingUpTo _).reason h⟩
    intro input files rest
    rw [(reads_readListingUpTo _).ok_iff]
    refine exists_congr fun w => and_congr_right fun hi => and_iff_left_of_imp fun hw => ?_
    have hl := hw.length_le
    rw [hi, List.length_append]
    omega
  exact hall.map Reply.files

/-! ## Reports -/

theorem readStatus_eq {α : Type} (next : Status → Reader CallError α) : readStatus next =
    andThen (Reader.exactly 1) fun bytes input =>
      (bytes.head?.bind Status.ofByte?).elim (.error .badResponse, input) (next · input) := by
  unfold readStatus
  congr
  funext bytes input
  cases bytes.head?.bind Status.ofByte? <;> rfl

theorem reads_readStatus {α : Type} {next : Status → Reader CallError α}
    {form : Status → Bytes → α → Prop}
    (hn : ∀ status, Reads CallError.OnReading (form status) (next status)) :
    Reads CallError.OnReading
      (fun w a => ∃ status v, form status v a ∧ w = status.toByte :: v) (readStatus next) := by
  rw [readStatus_eq]
  refine ((Reads.exactly 1).andThen fun bytes =>
    Reads.ofOption hn (bytes.head?.bind Status.ofByte?)).congr fun w a => ?_
  constructor
  · rintro ⟨u, bytes, v, ⟨rfl, hl⟩, ⟨status, hs, hv⟩, rfl⟩
    obtain ⟨b, rfl⟩ := List.length_eq_one_iff.mp hl
    have hb : status.toByte = b := by simpa [Status.ofByte?] using List.find?_some hs
    exact ⟨status, v, hv, by rw [hb]; rfl⟩
  · rintro ⟨status, v, hv, rfl⟩
    exact ⟨[status.toByte], _, v, ⟨rfl, rfl⟩, ⟨status, by cases status <;> rfl, hv⟩, rfl⟩

/-- Reads what the server reports of a write or an append, a refusal too. -/
def readReport : Reader CallError (Status × List SentFile) :=
  readStatus fun status => andThen Reader.word fun count input =>
    (readSentFiles count input).map (Except.map (status, ·)) id

theorem reads_readReport : Reads CallError.OnReading Response.Report readReport := by
  refine (reads_readStatus fun status => Reads.word.andThen fun count =>
    (reads_readSentFiles count).map (status, ·)).congr fun w report => ?_
  constructor
  · rintro ⟨status, -, ⟨u, n, v, ⟨hu, rfl⟩, ⟨files, ⟨hv, hl⟩, rfl⟩, rfl⟩, rfl⟩
    exact .report hu hl.symm hv
  · rintro ⟨hl, hc, hb⟩
    exact ⟨_, _, ⟨_, _, _, ⟨hl, rfl⟩, ⟨_, ⟨hb, hc.symm⟩, rfl⟩, rfl⟩, rfl⟩

/-- The reply to a write or an append is what is reported, and a refusal is told as one. -/
theorem readEvicted_eq (input : Bytes) : readEvicted input =
    match readReport input with
    | (.ok (.ok, files), rest) => (.ok (.evicted files), rest)
    | (.ok (.err, _), rest) => (.error .rejected, rest)
    | (.error e, rest) => (.error e, rest) := by
  unfold readEvicted readReport readStatus andThen
  rcases Reader.exactly 1 input with ⟨fault | bytes, input⟩
  · rfl
  dsimp only
  cases bytes.head?.bind Status.ofByte? with
  | none => rfl
  | some status =>
      dsimp only
      rcases Reader.word input with ⟨fault | count, input⟩
      · rfl
      dsimp only
      rcases readSentFiles count input with ⟨e | files, rest⟩
      · rfl
      · cases status <;> rfl

theorem readEvicted_eq_ok_iff {input rest : Bytes} {files : List SentFile} :
    readEvicted input = (.ok (.evicted files), rest) ↔
      ∃ w, input = w ++ rest ∧ Response.Report w (.ok, files) := by
  rw [← reads_readReport.ok_iff, readEvicted_eq]
  rcases readReport input with ⟨e | ⟨status, reported⟩, later⟩
  · simp
  · cases status <;> simp

theorem readEvicted_eq_rejected_iff {input rest : Bytes} :
    readEvicted input = (.error .rejected, rest) ↔
      ∃ files w, input = w ++ rest ∧ Response.Report w (.err, files) := by
  simp only [← reads_readReport.ok_iff, readEvicted_eq]
  rcases hr : readReport input with ⟨e | ⟨status, reported⟩, later⟩
  · have he : e ≠ .rejected := by
      rintro rfl
      cases reads_readReport.reason hr
    simp [he]
  · cases status <;> simp

theorem report_or_reason (input : Bytes) :
    (∃ report w rest, input = w ++ rest ∧ Response.Report w report) ∨
      ∃ e rest, readEvicted input = (.error e, rest) ∧ e.OnReading := by
  refine (reads_readReport.form_or_reason input).imp_right ?_
  rintro ⟨e, rest, hr, he⟩
  exact ⟨e, rest, by rw [readEvicted_eq, hr], he⟩

theorem readListing_eq_ok_iff {input rest : Bytes} {files : List SentFile} :
    readListing input = (.ok (.files files), rest) ↔
      ∃ w, input = w ++ rest ∧ Response.Listing w files := by
  refine reads_readListing.ok_iff.trans (exists_congr fun w => and_congr_right' ?_)
  constructor
  · rintro ⟨files, hw, ⟨⟩⟩
    exact hw
  · exact fun hw => ⟨files, hw, rfl⟩

theorem listing_or_reason (input : Bytes) :
    (∃ files w rest, input = w ++ rest ∧ Response.Listing w files) ∨
      ∃ e rest, readListing input = (.error e, rest) ∧ e.OnReading := by
  refine (reads_readListing.form_or_reason input).imp_left ?_
  rintro ⟨_, w, rest, hi, files, hw, rfl⟩
  exact ⟨files, w, rest, hi, hw⟩

/-! ## Rounds -/

theorem length_of_word {input rest : Bytes} {n : Nat} (h : Reader.word input = (.ok n, rest)) :
    input.length = Bytes.wordSize + rest.length := by
  obtain ⟨w, rfl, hl, -⟩ := Reads.word.ok_iff.mp h
  rw [List.length_append, hl]

theorem length_of_readFileBody {pathLength : Nat} {input rest : Bytes} {f : SentFile}
    (h : readFileBody pathLength input = (.ok f, rest)) :
    Bytes.wordSize + rest.length ≤ input.length := by
  obtain ⟨w, rfl, c, hc, -, rfl⟩ := (reads_readFileBody _).ok_iff.mp h
  simp only [List.length_append, hc.length_eq]
  omega

/-- Every round takes at least two words off the stream, so rounds that the stream has no room for
make no difference. -/
theorem readListingUpTo_eq {rounds fuel : Nat} {input : Bytes}
    (h : input.length < 2 * Bytes.wordSize * rounds) (hf : rounds ≤ fuel) :
    readListingUpTo fuel input = readListingUpTo rounds input := by
  induction rounds generalizing fuel input with
  | zero => simp at h
  | succ rounds ih =>
      obtain ⟨fuel, rfl⟩ := Nat.exists_eq_add_one_of_ne_zero (Nat.ne_zero_of_lt hf)
      rw [readListingUpTo, readListingUpTo, andThen, andThen]
      rcases hw : Reader.word input with ⟨fault | n, body⟩
      · rfl
      dsimp only
      split
      · rfl
      rcases hb : readFileBody n body with ⟨e | f, later⟩
      · rfl
      dsimp only
      rw [ih _ (Nat.le_of_succ_le_succ hf)]
      have h₁ := length_of_word hw
      have h₂ := length_of_readFileBody hb
      simp only [Bytes.wordSize] at h h₁ h₂ ⊢
      omega

/-- A count of files that the stream has no room for makes no difference beyond the first of them
that is missing. -/
theorem readSentFiles_eq {rounds count : Nat} {input : Bytes}
    (h : input.length < 2 * Bytes.wordSize * rounds) (hc : rounds ≤ count) :
    readSentFiles count input = readSentFiles rounds input := by
  induction rounds generalizing count input with
  | zero => simp at h
  | succ rounds ih =>
      obtain ⟨count, rfl⟩ := Nat.exists_eq_add_one_of_ne_zero (Nat.ne_zero_of_lt hc)
      rw [readSentFiles, readSentFiles]
      dsimp only
      rcases hf : readSentFile input with ⟨e | f, later⟩
      · rfl
      dsimp only
      rw [ih _ (Nat.le_of_succ_le_succ hc)]
      obtain ⟨w, rfl, hw⟩ := reads_readSentFile.ok_iff.mp hf
      have hl := hw.two_words_le
      simp only [Bytes.wordSize, List.length_append] at h hl ⊢
      omega

/-- The rounds that a stream has room for: one for every two words, and one more. -/
def rounds (input : Bytes) : Nat :=
  input.length / (2 * Bytes.wordSize) + 1

theorem length_lt_rounds (input : Bytes) : input.length < 2 * Bytes.wordSize * rounds input := by
  have := Nat.div_add_mod input.length (2 * Bytes.wordSize)
  have := Nat.mod_lt input.length (show 0 < 2 * Bytes.wordSize by decide)
  simp only [rounds, Nat.mul_add]
  omega

/-- No more rounds are needed than the stream has room for, and any more come to the same. -/
theorem readListing_eq (input : Bytes) (more : Nat) : readListing input =
    (readListingUpTo (rounds input + more) input).map (Except.map .files) id := by
  have hf : rounds input ≤ input.length + 1 := Nat.succ_le_succ (Nat.div_le_self ..)
  rw [readListing, readListingUpTo_eq (length_lt_rounds input) hf,
    readListingUpTo_eq (length_lt_rounds input) (Nat.le_add_right ..)]

theorem readSentFiles_eq_min (count : Nat) (input : Bytes) :
    readSentFiles count input = readSentFiles (min count (rounds input)) input := by
  rcases Nat.le_total count (rounds input) with hc | hc
  · rw [Nat.min_eq_left hc]
  · rw [Nat.min_eq_right hc, readSentFiles_eq (length_lt_rounds input) hc]

/-! ## What is accepted -/

/-- Whatever a server sends: a fetch of files returns files exactly if the stream starts with the
listing of these, a write or an append returns files exactly if it starts with a report of these as
evicted, and is told of a rejection exactly if it starts with a report of any files with the other
status; they take these bytes off the stream and no more. On every other stream they fail, as the
stream ends too early or has an unknown status or a path that is no text. They are done after at
most as many rounds as the stream has room for, whatever numbers are announced on it. Listings and
reports are just what the server writes of files whose lengths fit into words. -/
theorem read_accepts_responses (input : Bytes) :
    (∀ count,
      (∀ files rest, (Call.fetchN count).read input = (.ok (.files files), rest) ↔
        ∃ w, input = w ++ rest ∧ Response.Listing w files) ∧
      ((∃ files w rest, input = w ++ rest ∧ Response.Listing w files) ∨
        ∃ e rest, (Call.fetchN count).read input = (.error e, rest) ∧ e.OnReading)) ∧
    (∀ path contents,
      (Call.append path contents).read = (Call.write path contents).read ∧
      (∀ files rest, (Call.write path contents).read input = (.ok (.evicted files), rest) ↔
        ∃ w, input = w ++ rest ∧ Response.Report w (.ok, files)) ∧
      (∀ rest, (Call.write path contents).read input = (.error .rejected, rest) ↔
        ∃ files w, input = w ++ rest ∧ Response.Report w (.err, files)) ∧
      ((∃ report w rest, input = w ++ rest ∧ Response.Report w report) ∨
        ∃ e rest, (Call.write path contents).read input = (.error e, rest) ∧ e.OnReading)) ∧
    ((∀ more, readListing input =
        (readListingUpTo (rounds input + more) input).map (Except.map .files) id) ∧
      ∀ count, readSentFiles count input = readSentFiles (min count (rounds input)) input) ∧
    (∀ w files, Response.Listing w files ↔
      (∀ f ∈ files, f.Declarable ∧ f.path ≠ "") ∧ w = (Response.listing files).encode) ∧
    (∀ w files, Response.Report w (.ok, files) ↔
      files.length < 2 ^ 64 ∧ (∀ f ∈ files, f.Declarable) ∧ w = (Response.evicted files).encode) ∧
    ∀ w, Response.Report w (.err, []) ↔ w = Response.noEvictions.encode := by
  refine ⟨fun count => ⟨fun files rest => readListing_eq_ok_iff, listing_or_reason input⟩, ?_,
    ⟨fun more => readListing_eq input more, fun count => readSentFiles_eq_min count input⟩,
    fun w files => Response.listing_iff, fun w files => Response.report_ok_iff,
    fun w => Response.report_err_nil_iff⟩
  intro path contents
  exact ⟨rfl, fun files rest => readEvicted_eq_ok_iff, fun rest => readEvicted_eq_rejected_iff,
    report_or_reason input⟩

/-- A report that announces more files than any stream has room for is read up to its end. -/
example : (Call.write "a" []).read (0 :: Bytes.word (2 ^ 64 - 1)) = (.error (.wire .cutShort), []) := by
  rfl

end Call

end FileDepot
