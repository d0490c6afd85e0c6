import FileDepot.Call
import FileDepot.Proofs.Store.Walk

/-! # Responses read back

The client reads back from a response what the operation on the store has returned, and reads no
further. -/

namespace FileDepot

namespace Reader

variable {bytes : Bytes} {size : Nat}

theorem exactly_append (h : bytes.length = size) (later : Bytes) :
    exactly size (bytes ++ later) = (.ok bytes, later) := by
  simp [exactly, ← h]

theorem declared_append (h : bytes.length = size) (later : Bytes) :
    declared size (bytes ++ later) = (.ok bytes, later) := by
  simp [declared, ← h]

theorem word_append {n : Nat} (h : n ≤ Bytes.maxSize) (later : Bytes) :
    word (Bytes.word n ++ later) = (.ok n, later) := by
  have hw : Bytes.ofWord (Bytes.word n) = n := Bytes.ofWord_word (Nat.lt_of_le_of_lt h (by decide))
  simp [word, exactly_append (Bytes.length_word n), Except.map, hw]

end Reader

theorem Sink.putAll_eq {sink : Sink} (h : sink.capacity = none) (pieces : List Bytes) :
    sink.putAll pieces = (.ok (), { sink with written := sink.written ++ pieces.flatten }) := by
  induction pieces generalizing sink with
  | nil => simp [putAll]
  | cons piece pieces ih =>
      have hput : sink.put piece = (.ok (), { sink with written := sink.written ++ piece }) := by
        simp [put, h]
      simp only [putAll, hput]
      simpa using @ih { sink with written := sink.written ++ piece } h

theorem Status.ofByte?_toByte (s : Status) : ofByte? s.toByte = some s := by
  cases s <;> rfl

/-- What a client is told of a result: an error of any kind is a rejection. -/
def Reply.ofResult {α : Type} (reply : α → Reply) : Except StoreError α → Except CallError Reply
  | .ok a => .ok (reply a)
  | .error _ => .error .rejected

/-- What a call comes to that is carried out on the store itself, and the store after it. A fetch
of `count` files has the first ones of the store, or all of them if `count` is 0. -/
def Call.outcome (s : Store) (client : ClientId) : Call → Except CallError Reply × Store
  | .openFile path true locked =>
    (s.create path client locked).map (Reply.ofResult fun _ => .done) id
  | .openFile path false locked =>
    (s.openFile path client locked).map (Reply.ofResult fun _ => .done) id
  | .fetch path => (Reply.ofResult .contents (s.read path), s)
  | .fetchN count =>
    let size := if count = 0 then s.files.length else min count.toNat s.files.length
    (.ok (.files ((s.files.take size).map File.sent)), s)
  | .write path contents =>
    (s.replace path client contents).map (Reply.ofResult fun fs => .evicted (fs.map File.sent)) id
  | .append path contents =>
    (s.append path client contents).map (Reply.ofResult fun fs => .evicted (fs.map File.sent)) id
  | .lock path => (s.lock path client).map (Reply.ofResult fun _ => .done) id
  | .unlock path => (s.unlock path client).map (Reply.ofResult fun _ => .done) id
  | .close path => (s.close path client).map (Reply.ofResult fun _ => .done) id
  | .remove path => (s.remove path client).map (Reply.ofResult fun _ => .done) id

/-- The lengths of a sent file are those of buffers. -/
def SentFile.Sendable (f : SentFile) : Prop :=
  (Bytes.ofText f.path).length ≤ Bytes.maxSize ∧ f.contents.length ≤ Bytes.maxSize

/-- All lengths in a reply are those of buffers. -/
def Reply.Sendable : Reply → Prop
  | .done => True
  | .contents bytes => bytes.length ≤ Bytes.maxSize
  | .files fs => ∀ f ∈ fs, f.Sendable
  | .evicted fs => fs.length ≤ Bytes.maxSize ∧ ∀ f ∈ fs, f.Sendable

namespace Call

/-! ## Reading what has been written -/

theorem andThen_of_ok {α β : Type} {read : Reader WireFault α} {input rest : Bytes} {a : α}
    (h : read input = (.ok a, rest)) (next : α → Reader CallError β) :
    andThen read next input = next a rest := by
  simp [andThen, h]

theorem readStatus_cons {α : Type} (next : Status → Reader CallError α) (s : Status)
    (later : Bytes) : readStatus next (s.toByte :: later) = next s later := by
  have he : Reader.exactly 1 (s.toByte :: later) = (.ok [s.toByte], later) :=
    Reader.exactly_append (rfl : [s.toByte].length = 1) later
  rw [readStatus, andThen_of_ok he]
  simp [Status.ofByte?_toByte]

theorem readFileBody_append {f : SentFile} (hf : f.Sendable) (later : Bytes) :
    readFileBody (Bytes.ofText f.path).length
      (Bytes.word f.contents.length ++ (Bytes.ofText f.path ++ (f.contents ++ later))) =
      (.ok f, later) := by
  rw [readFileBody, andThen_of_ok (Reader.word_append hf.2 _),
    andThen_of_ok (Reader.declared_append rfl _), andThen_of_ok (Reader.declared_append rfl _),
    Bytes.toText?_ofText]

theorem flatten_pieces (f : SentFile) : f.pieces.flatten =
    Bytes.word (Bytes.ofText f.path).length ++
      (Bytes.word f.contents.length ++ (Bytes.ofText f.path ++ f.contents)) := by
  simp [SentFile.pieces]

theorem readSentFile_append {f : SentFile} (hf : f.Sendable) (later : Bytes) :
    readSentFile (f.pieces.flatten ++ later) = (.ok f, later) := by
  rw [flatten_pieces, readSentFile]
  simp only [List.append_assoc]
  rw [andThen_of_ok (Reader.word_append hf.1 _), readFileBody_append hf]

theorem readSentFiles_append {files : List SentFile} (hf : ∀ f ∈ files, f.Sendable)
    (later : Bytes) :
    readSentFiles files.length ((files.flatMap SentFile.pieces).flatten ++ later) =
      (.ok files, later) := by
  induction files with
  | nil => rfl
  | cons f files ih =>
      obtain ⟨hhead, htail⟩ := List.forall_mem_cons.mp hf
      simp only [List.flatMap_cons, List.flatten_append, List.append_assoc, List.length_cons,
        readSentFiles, readSentFile_append hhead, ih htail]
      rfl

theorem readListingUpTo_append {files : List SentFile} (hf : ∀ f ∈ files, f.Sendable)
    (hp : ∀ f ∈ files, f.path ≠ "") {fuel : Nat} (hl : files.length < fuel) (later : Bytes) :
    readListingUpTo fuel ((files.flatMap SentFile.pieces).flatten ++ (Bytes.word 0 ++ later)) =
      (.ok files, later) := by
  induction files generalizing fuel with
  | nil =>
      obtain ⟨fuel, rfl⟩ := Nat.exists_eq_add_one_of_ne_zero (Nat.ne_zero_of_lt hl)
      rw [readListingUpTo]
      exact andThen_of_ok (Reader.word_append (Nat.zero_le _) later) _
  | cons f files ih =>
      obtain ⟨hhead, htail⟩ := List.forall_mem_cons.mp hf
      obtain ⟨hne, hp⟩ := List.forall_mem_cons.mp hp
      obtain ⟨fuel, rfl⟩ := Nat.exists_eq_add_one_of_ne_zero (Nat.ne_zero_of_lt hl)
      -- A path has at least one byte, so its length does not end the listing.
      have hpos : (Bytes.ofText f.path).length ≠ 0 :=
        fun h => Bytes.ofText_ne_nil hne (List.eq_nil_of_length_eq_zero h)
      simp only [List.flatMap_cons, List.flatten_append, flatten_pieces, List.append_assoc,
        readListingUpTo, andThen_of_ok (Reader.word_append hhead.1 _), if_neg hpos,
        readFileBody_append hhead, ih htail hp (Nat.lt_of_succ_lt_succ hl)]
      rfl

theorem length_le_flatten_pieces (files : List SentFile) :
    files.length ≤ (files.flatMap SentFile.pieces).flatten.length := by
  induction files with
  | nil => exact Nat.zero_le _
  | cons f files ih =>
      simp only [List.flatMap_cons, List.flatten_append, List.length_append, List.length_cons,
        flatten_pieces, Bytes.length_word, Bytes.wordSize]
      omega

/-! ## One kind of response after the other -/

theorem readSimple_encode {α : Type} (result : Except StoreError α) (later : Bytes) :
    readSimple ((Response.status (.ofResult result)).encode ++ later) =
      (Reply.ofResult (fun _ => .done) result, later) := by
  cases result <;> exact readStatus_cons _ _ _

theorem readContents_encode {bytes : Bytes} (hb : bytes.length ≤ Bytes.maxSize) (later : Bytes) :
    readContents ((Response.contents bytes).encode ++ later) = (.ok (.contents bytes), later) := by
  have he : (Response.contents bytes).encode ++ later =
      Status.ok.toByte :: (Bytes.word bytes.length ++ (bytes ++ later)) := by
    simp [Response.encode, Response.pieces]
  rw [he, readContents, readStatus_cons]
  simp only
  rw [andThen_of_ok (Reader.word_append hb _), andThen_of_ok (Reader.declared_append rfl _)]

theorem readContents_encode_err (later : Bytes) :
    readContents ((Response.status .err).encode ++ later) = (.error .rejected, later) :=
  readStatus_cons _ _ _

theorem readListing_encode {files : List SentFile} (hf : ∀ f ∈ files, f.Sendable)
    (hp : ∀ f ∈ files, f.path ≠ "") (later : Bytes) :
    readListing ((Response.listing files).encode ++ later) = (.ok (.files files), later) := by
  have he : (Response.listing files).encode ++ later =
      (files.flatMap SentFile.pieces).flatten ++ (Bytes.word 0 ++ later) := by
    simp [Response.encode, Response.pieces]
  have hl := length_le_flatten_pieces files
  rw [he, readListing, readListingUpTo_append hf hp]
  · rfl
  · rw [List.length_append]
    omega

theorem readEvicted_encode {files : List SentFile} (hf : ∀ f ∈ files, f.Sendable)
    (hl : files.length ≤ Bytes.maxSize) (later : Bytes) :
    readEvicted ((Response.evicted files).encode ++ later) = (.ok (.evicted files), later) := by
  have he : (Response.evicted files).encode ++ later = Status.ok.toByte ::
      (Bytes.word files.length ++ ((files.flatMap SentFile.pieces).flatten ++ later)) := by
    simp [Response.encode, Response.pieces]
  rw [he, readEvicted, readStatus_cons, andThen_of_ok (Reader.word_append hl _)]
  simp only [readSentFiles_append hf]

theorem readEvicted_encode_noEvictions (later : Bytes) :
    readEvicted (Response.noEvictions.encode ++ later) = (.error .rejected, later) := by
  have he : Response.noEvictions.encode ++ later =
      Status.err.toByte :: (Bytes.word 0 ++ later) := by
    simp [Response.encode, Response.pieces]
  rw [he, readEvicted, readStatus_cons, andThen_of_ok (Reader.word_append (Nat.zero_le _) _)]
  rfl

theorem readEvicted_encode_ofEviction {result : Except StoreError (List File)}
    (hs : ∀ reply, Reply.ofResult (fun fs => .evicted (fs.map File.sent)) result = .ok reply →
      reply.Sendable) (later : Bytes) :
    readEvicted ((Response.ofEviction result).encode ++ later) =
      (Reply.ofResult (fun fs => .evicted (fs.map File.sent)) result, later) := by
  cases result with
  | error e => exact readEvicted_encode_noEvictions later
  | ok files =>
      obtain ⟨hl, hf⟩ := hs _ rfl
      exact readEvicted_encode hf hl later

/-! ## Calls -/

variable {s : Store} {client : ClientId} {c : Call}

/-- The client reads what the call comes to on the store, and leaves all that follows. -/
theorem read_respond (hp : ∀ f ∈ s.files, f.path ≠ "")
    (hs : ∀ reply, (c.outcome s client).1 = .ok reply → reply.Sendable) (later : Bytes) :
    c.read ((s.respond client c.request).1.encode ++ later) = ((c.outcome s client).1, later) := by
  cases c with
  | openFile path create lock => cases create <;> exact readSimple_encode _ later
  | lock | unlock | close | remove => exact readSimple_encode _ later
  | write | append => exact readEvicted_encode_ofEviction hs later
  | fetch path =>
      simp only [request, Store.respond, outcome, read] at hs ⊢
      cases hr : s.read path with
      | error e => exact readContents_encode_err later
      | ok bytes =>
          rw [hr] at hs
          exact readContents_encode (hs _ rfl) later
  | fetchN count =>
      have hlist : s.list count.toNat = s.files.take
          (if count = 0 then s.files.length else min count.toNat s.files.length) := by
        rw [Store.list_eq]
        by_cases hz : count = 0
        · simp [hz]
        · have hn : count.toNat ≠ 0 := fun h => hz (UInt64.toNat_inj.mp h)
          rw [if_neg hn, if_neg hz, ← List.take_eq_take_min]
      simp only [request, Store.respond, outcome, read, hlist] at hs ⊢
      refine readListing_encode (hs _ rfl) (fun f hf => ?_) later
      obtain ⟨g, hg, rfl⟩ := List.mem_map.mp hf
      exact hp g (List.mem_of_mem_take hg)

theorem outcome_snd (s : Store) (client : ClientId) (c : Call) :
    (c.outcome s client).2 = (s.respond client c.request).2 := by
  cases c with
  | openFile path create lock => cases create <;> rfl
  | fetch path =>
      simp only [request, Store.respond]
      split <;> rfl
  | _ => rfl

end Call

end FileDepot
