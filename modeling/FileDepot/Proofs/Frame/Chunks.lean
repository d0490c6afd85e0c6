import FileDepot.Proofs.Frame.Parse

/-! # Frames read in chunks

A reader keeps the bytes of an unfinished frame. Each offer adds as many as are wanted, and either
leaves the frame unfinished, or finishes it, or completes a header that is refused. So however a
stream is cut, the payloads, the unfinished rest and the refusal are those of the stream read at
once. -/

namespace FileDepot

namespace FrameReader

/-! ## Driving a reader -/

/-- What the answer to an offer gives. -/
def given (count : Nat) : Progress → Parsed
  | .needs _ => { absorbed := count }
  | .message payload => { payloads := [payload], absorbed := count }

/-- Offers a chunk, and then what was not consumed of it, until nothing is left or an offer is
refused; in at most `fuel` offers. A refused offer has absorbed what was wanted. -/
def offerAll : Nat → FrameReader → Bytes → Parsed × FrameReader
  | 0, r, _ => ({}, r)
  | fuel + 1, r, chunk =>
    match r.offer chunk with
    | (.error e, r') => ({ fault := some e, absorbed := min chunk.length r.wanted }, r')
    | (.ok (count, progress), r') =>
      if chunk.length ≤ count then (given count progress, r')
      else
        let (later, r'') := offerAll fuel r' (chunk.drop count)
        ((given count progress).andThen later, r'')

/-- Offers chunks in turn, each of them until it is consumed, and stops at a refusal. An offer that
does not consume all of its chunk consumes a byte of it, so one more offer than there are bytes is
never exceeded. -/
def drive (r : FrameReader) : List Bytes → Parsed × FrameReader
  | [] => ({}, r)
  | chunk :: chunks =>
    let (parsed, r') := r.offerAll (chunk.length + 1) chunk
    if parsed.fault.isSome then (parsed, r')
    else
      let (later, r'') := drive r' chunks
      (parsed.andThen later, r'')

/-! ## The unfinished frame -/

/-- The bytes of the unfinished frame. -/
def pending (r : FrameReader) : Bytes :=
  match r.received with
  | .header bytes => bytes
  | .payload length bytes => Bytes.word length ++ bytes

/-- The frame is unfinished: its header is, or its payload is and the length was not refused. -/
def Midway (r : FrameReader) : Prop :=
  match r.received with
  | .header bytes => bytes.length < Frame.headerSize
  | .payload length bytes => bytes.length < length ∧ Frame.refusal? r.limit length = none

end FrameReader

namespace Frame

theorem refusal?_eq_none {limit declared : Nat} :
    refusal? limit declared = none ↔ declared ≤ limit ∧ declared ≤ Bytes.maxSize := by
  unfold refusal? excess?
  by_cases hl : limit < declared
  · simp [hl, Nat.not_le.mpr hl]
  · by_cases hm : Bytes.maxSize < declared
    · simp [hl, hm, Nat.not_le.mpr hm]
    · simp [hl, hm, Nat.le_of_not_lt hl, Nat.le_of_not_lt hm]

/-- A length is refused because it is over the limit, or within it and over what a buffer can
hold. -/
theorem refusal?_eq_some {limit declared : Nat} {e : FrameFault}
    (h : refusal? limit declared = some e) :
    (limit < declared ∧ e = .tooLarge declared limit) ∨
      Bytes.maxSize < declared ∧ declared ≤ limit ∧ e = .overCapacity declared := by
  unfold refusal? excess? at h
  by_cases hlimit : limit < declared
  · rw [if_pos hlimit] at h
    exact .inl ⟨hlimit, (Option.some.inj h).symm⟩
  · by_cases hmax : Bytes.maxSize < declared
    · rw [if_neg hlimit, if_pos hmax] at h
      exact .inr ⟨hmax, Nat.le_of_not_lt hlimit, (Option.some.inj h).symm⟩
    · simp [hlimit, hmax] at h

/-- What ends the reading of some bytes is the refusal of a length. -/
theorem refusal?_of_parse {refuse : Nat → Option FrameFault} {bytes : Bytes} {e : FrameFault}
    (h : (parse refuse bytes).fault = some e) : ∃ declared, refuse declared = some e := by
  fun_induction parse refuse bytes with
  | case1 bytes hshort => simp at h
  | case2 bytes hlong declared e' he => exact ⟨declared, he.trans h⟩
  | case3 bytes hlong declared rest hn hshort => simp at h
  | case4 bytes hlong declared rest hn hwhole ih => exact ih h

/-- A limit that a buffer can hold is the only one there is. -/
theorem refusal?_eq_excess? {limit : Nat} (h : limit ≤ Bytes.maxSize) :
    refusal? limit = excess? limit := by
  funext declared
  unfold refusal? excess?
  by_cases hl : limit < declared
  · simp [hl]
  · have hm : ¬ Bytes.maxSize < declared := by omega
    simp [hl, hm]

theorem lt_of_refusal?_eq_none {limit declared : Nat} (h : refusal? limit declared = none) :
    declared < 2 ^ 64 := by
  have hm := (refusal?_eq_none.mp h).2
  unfold Bytes.maxSize at hm
  omega

end Frame

namespace FrameReader

variable {r : FrameReader}

theorem Midway.wanted_pos (h : r.Midway) : 0 < r.wanted := by
  unfold wanted
  cases hr : r.received with
  | header bytes =>
      simp only [Midway, hr] at h
      exact Nat.sub_pos_of_lt h
  | payload length bytes =>
      simp only [Midway, hr] at h
      exact Nat.sub_pos_of_lt h.1

theorem midway_reset (r : FrameReader) : r.reset.Midway :=
  Nat.zero_lt_succ _

/-- What an offer can do, in terms of the frame's bytes so far and those added. -/
inductive Offered (limit : Nat) (bytes : Bytes) (count : Nat) :
    Except FrameFault (Nat × Progress) × FrameReader → Prop where
  | unfinished {missing : Nat} {t : FrameReader} : t.Midway → t.limit = limit →
      t.pending = bytes → missing = t.wanted → Offered limit bytes count (.ok (count, .needs missing), t)
  | finished {payload : Bytes} {t : FrameReader} : bytes = Frame.encode payload →
      Frame.refusal? limit payload.length = none → t.Midway → t.limit = limit → t.pending = [] →
      Offered limit bytes count (.ok (count, .message payload), t)
  | refused {e : FrameFault} {t : FrameReader} : bytes.length = Frame.headerSize →
      Frame.refusal? limit (Bytes.ofWord bytes) = some e → t.pending = bytes →
      Offered limit bytes count (.error e, t)

/-- What has been written is at the start of the sink. -/
theorem sinkPrefix_write (r : FrameReader) (bytes : Bytes) :
    (r.write bytes).sinkPrefix (min bytes.length r.wanted) = bytes.take r.wanted := by
  have hl : (bytes.take r.wanted).length = min bytes.length r.wanted := by
    rw [List.length_take, Nat.min_comm]
  simp only [sinkPrefix, write, ← hl, List.take_left, List.length_append]
  simp

theorem offered_offer (h : r.Midway) (chunk : Bytes) :
    Offered r.limit (r.pending ++ chunk.take r.wanted) (min chunk.length r.wanted)
      (r.offer chunk) := by
  have hfed := r.sinkPrefix_write chunk
  have hwanted : (r.write chunk).wanted = r.wanted := rfl
  have hreceived : (r.write chunk).received = r.received := rfl
  have hlimit : (r.write chunk).limit = r.limit := rfl
  have hnot : ¬ r.wanted < min chunk.length r.wanted := by omega
  have hlen : (chunk.take r.wanted).length = min chunk.length r.wanted := by
    rw [List.length_take, Nat.min_comm]
  unfold offer advance
  simp only [hfed, hwanted, hreceived, hlimit, if_neg hnot]
  cases hr : r.received with
  | header bytes =>
      simp only [Midway, hr] at h
      have hw : r.wanted = Frame.headerSize - bytes.length := by simp [wanted, hr]
      simp only [pending, hr]
      have hsize : (bytes ++ chunk.take r.wanted).length ≤ Frame.headerSize := by
        rw [List.length_append, hlen]
        omega
      split
      · rename_i hlt
        exact .unfinished (t := ⟨_, .header _, _⟩) hlt rfl rfl rfl
      · rename_i hge
        have hwhole : (bytes ++ chunk.take r.wanted).length = Frame.headerSize := by omega
        have hword := Bytes.word_ofWord hwhole
        split
        · rename_i hover
          exact .refused hwhole (by simp [Frame.refusal?, Frame.excess?, hover]) rfl
        · rename_i hover
          split
          · rename_i hmax
            exact .refused hwhole (by simp [Frame.refusal?, Frame.excess?, hover, hmax]) rfl
          · rename_i hmax
            have hnone : Frame.refusal? r.limit (Bytes.ofWord (bytes ++ chunk.take r.wanted)) = none :=
              Frame.refusal?_eq_none.mpr ⟨Nat.le_of_not_lt hover, Nat.le_of_not_lt hmax⟩
            split
            · rename_i hz
              rw [hz] at hword hnone
              exact .finished (by rw [← hword]; rfl) hnone (midway_reset _) rfl rfl
            · rename_i hz
              exact .unfinished (t := ⟨_, .payload _ [], _⟩) ⟨Nat.pos_of_ne_zero hz, hnone⟩ rfl
                ((List.append_nil _).trans hword) rfl
  | payload length bytes =>
      simp only [Midway, hr] at h
      obtain ⟨hlt, hnone⟩ := h
      have hw : r.wanted = length - bytes.length := by simp [wanted, hr]
      simp only [pending, hr, List.append_assoc]
      split
      · rename_i hshort
        exact .unfinished (t := ⟨_, .payload _ _, _⟩) ⟨hshort, hnone⟩ rfl rfl rfl
      · rename_i hge
        have hwhole : (bytes ++ chunk.take r.wanted).length = length := by
          rw [List.length_append, hlen] at hge ⊢
          omega
        refine .finished ?_ (hwhole.symm ▸ hnone) (midway_reset _) rfl rfl
        rw [Frame.encode, hwhole]

/-! ## Following a stream -/

/-- From an unfinished frame `bytes`, a reader has made `parsed` of the bytes `s` and is `r` now:
the absorbed bytes are those of whole frames and of an unfinished one, which is all there was of
`s`, or of a header that is refused. -/
structure Follows (limit : Nat) (bytes s : Bytes) (parsed : Parsed) (r : FrameReader) : Prop where
  absorbed_le : parsed.absorbed ≤ s.length
  eq : bytes ++ s.take parsed.absorbed = parsed.payloads.flatMap Frame.encode ++ r.pending
  sized : ∀ m ∈ parsed.payloads, Frame.refusal? limit m.length = none
  going : parsed.fault = none → r.Midway ∧ r.limit = limit ∧ parsed.absorbed = s.length
  ended : ∀ e, parsed.fault = some e → r.pending.length = Frame.headerSize ∧
    Frame.refusal? limit (Bytes.ofWord r.pending) = some e

variable {limit : Nat} {bytes s s' : Bytes} {parsed later : Parsed} {r' : FrameReader}

theorem follows_nil (h : r.Midway) : Follows r.limit r.pending [] {} r :=
  ⟨Nat.le_refl _, by simp, by simp, fun _ => ⟨h, rfl, rfl⟩, by simp⟩

theorem Follows.append (h : Follows limit bytes s parsed r) (hf : parsed.fault = none)
    (h' : Follows limit r.pending s' later r') :
    Follows limit bytes (s ++ s') (parsed.andThen later) r' := by
  obtain ⟨-, -, hall⟩ := h.going hf
  refine ⟨?_, ?_, ?_, ?_, h'.ended⟩
  · rw [Parsed.andThen, hall, List.length_append]
    exact Nat.add_le_add_left h'.absorbed_le _
  · have he := h.eq
    rw [hall, List.take_length] at he
    simp only [Parsed.andThen, hall, List.take_length_add_append, List.flatMap_append]
    rw [← List.append_assoc, he, List.append_assoc, h'.eq, List.append_assoc]
  · intro m hm
    exact (List.mem_append.mp hm).elim (h.sized m) (h'.sized m)
  · intro hn
    obtain ⟨hmid, hl, hall'⟩ := h'.going hn
    exact ⟨hmid, hl, by rw [Parsed.andThen, hall, hall', List.length_append]⟩

/-- What comes after a refusal is not looked at. -/
theorem Follows.extend (h : Follows limit bytes s parsed r) (hf : parsed.fault ≠ none)
    (s' : Bytes) : Follows limit bytes (s ++ s') parsed r := by
  refine ⟨?_, ?_, h.sized, fun hn => absurd hn hf, h.ended⟩
  · rw [List.length_append]
    exact Nat.le_add_right_of_le h.absorbed_le
  · rw [List.take_append_of_le_length h.absorbed_le]
    exact h.eq

theorem take_min_length (chunk : Bytes) (n : Nat) : chunk.take (min chunk.length n) = chunk.take n := by
  rw [Nat.min_comm, ← List.take_take, List.take_length]

/-- An offer that is not refused takes a stretch as long as what is wanted. -/
theorem Offered.follows {chunk : Bytes} {wanted count : Nat} {progress : Progress}
    (h : Offered limit (bytes ++ chunk.take wanted) (min chunk.length wanted)
      (.ok (count, progress), r)) :
    count = min chunk.length wanted ∧
      Follows limit bytes (chunk.take wanted) (given count progress) r := by
  have hl : (chunk.take wanted).length = min chunk.length wanted := by
    rw [List.length_take, Nat.min_comm]
  have ht : (chunk.take wanted).take (min chunk.length wanted) = chunk.take wanted := by
    rw [← hl, List.take_length]
  cases h with
  | unfinished hmid hlim hp =>
      refine ⟨rfl, Nat.le_of_eq hl.symm, ?_, by simp [given], fun _ => ⟨hmid, hlim, hl.symm⟩, by simp [given]⟩
      simp [given, ht, hp]
  | @finished payload _ he hn hmid hlim hp =>
      refine ⟨rfl, Nat.le_of_eq hl.symm, ?_, by simpa [given] using hn,
        fun _ => ⟨hmid, hlim, hl.symm⟩, by simp [given]⟩
      simp [given, ht, hp, he]

/-- A refused offer takes the rest of the header and nothing after it. -/
theorem Offered.follows_refused {chunk : Bytes} {wanted : Nat} {e : FrameFault}
    (h : Offered limit (bytes ++ chunk.take wanted) (min chunk.length wanted) (.error e, r)) :
    Follows limit bytes chunk { fault := some e, absorbed := min chunk.length wanted } r := by
  have ht := take_min_length chunk wanted
  cases h with
  | refused hwhole he hp =>
      refine ⟨Nat.min_le_left .., by simp [ht, hp], by simp, by simp, ?_⟩
      intro e' he'
      obtain rfl : e = e' := Option.some.inj he'
      rw [hp]
      exact ⟨hwhole, he⟩

theorem follows_offerAll (h : r.Midway) {fuel : Nat} {chunk : Bytes} (hl : chunk.length < fuel) :
    Follows r.limit r.pending chunk (r.offerAll fuel chunk).1 (r.offerAll fuel chunk).2 := by
  -- The induction is on the offers allowed, which are more than there are bytes in the chunk.
  induction fuel generalizing r chunk with
  | zero => simp at hl
  | succ fuel ih =>
      have ho := r.offered_offer h chunk
      have hpos := h.wanted_pos
      unfold offerAll
      generalize r.offer chunk = out at ho ⊢
      rcases out with ⟨e | ⟨count, progress⟩, t⟩
      · exact ho.follows_refused
      · obtain ⟨hc, hf⟩ := ho.follows
        by_cases hle : chunk.length ≤ count
        · have hall : chunk.take r.wanted = chunk := List.take_of_length_le (by omega)
          rw [hall] at hf
          simp only [if_pos hle]
          exact hf
        · obtain rfl : count = r.wanted := by omega
          obtain ⟨hmid, hlim, -⟩ := hf.going (by cases progress <;> rfl)
          have hrest : (chunk.drop r.wanted).length < fuel := by
            rw [List.length_drop]
            omega
          have hlater := ih hmid hrest
          rw [hlim] at hlater
          have happ := hf.append (by cases progress <;> rfl) hlater
          rw [List.take_append_drop] at happ
          simp only [if_neg hle]
          exact happ

theorem follows_drive (h : r.Midway) (chunks : List Bytes) :
    Follows r.limit r.pending chunks.flatten (r.drive chunks).1 (r.drive chunks).2 := by
  induction chunks generalizing r with
  | nil => exact follows_nil h
  | cons chunk chunks ih =>
      have hc := follows_offerAll h (Nat.lt_succ_self chunk.length)
      rw [List.flatten_cons]
      unfold drive
      cases ho : r.offerAll (chunk.length + 1) chunk with
      | mk parsed r' =>
          rw [ho] at hc
          cases hf : parsed.fault with
          | some e =>
              simp only [hf, Option.isSome_some, if_true]
              exact hc.extend (by simp [hf]) _
          | none =>
              obtain ⟨hmid, hlim, -⟩ := hc.going hf
              simp only [hf, Option.isSome_none, Bool.false_eq_true, if_false]
              exact hc.append hf (hlim ▸ ih hmid)

theorem parse_pending (h : r.Midway) :
    Frame.parse (Frame.refusal? r.limit) r.pending = { absorbed := r.pending.length } := by
  unfold pending
  cases hr : r.received with
  | header bytes =>
      simp only [Midway, hr] at h
      exact Frame.parse_of_lt h
  | payload length bytes =>
      simp only [Midway, hr] at h
      obtain ⟨hlt, hn⟩ := h
      simp only
      rw [Frame.parse_word (Frame.lt_of_refusal?_eq_none hn) hn, if_pos hlt, List.length_append,
        Bytes.length_word, Frame.headerSize]

/-- What a reader makes of a stream from its start is what there is in it. -/
theorem Follows.eq_parse (h : Follows limit [] s parsed r) :
    parsed = Frame.parse (Frame.refusal? limit) s := by
  have hsized : ∀ m ∈ parsed.payloads, m.length < 2 ^ 64 ∧ Frame.refusal? limit m.length = none :=
    fun m hm => ⟨Frame.lt_of_refusal?_eq_none (h.sized m hm), h.sized m hm⟩
  have hs : s = parsed.payloads.flatMap Frame.encode ++ (r.pending ++ s.drop parsed.absorbed) := by
    rw [← List.append_assoc, ← h.eq, List.nil_append, List.take_append_drop]
  have habsorbed : parsed.absorbed =
      (parsed.payloads.flatMap Frame.encode).length + r.pending.length := by
    have hl := congrArg List.length h.eq
    rw [List.nil_append, List.length_append, List.length_take_of_le h.absorbed_le] at hl
    exact hl
  have hparse : Frame.parse (Frame.refusal? limit) (r.pending ++ s.drop parsed.absorbed) =
      { fault := parsed.fault, absorbed := r.pending.length } := by
    cases hf : parsed.fault with
    | none =>
        obtain ⟨hmid, rfl, hall⟩ := h.going hf
        rw [hall, List.drop_length, List.append_nil, parse_pending hmid]
    | some e =>
        obtain ⟨hwhole, he⟩ := h.ended e hf
        rw [Frame.parse_refused hwhole he, hwhole]
  rw [hs, Frame.parse_flatMap_encode hsized, hparse, Parsed.andThen, List.append_nil, ← habsorbed]

theorem isIdle_of_pending_eq_nil (h : r.pending = []) : r.isIdle = true := by
  unfold pending at h
  unfold isIdle
  cases hr : r.received with
  | header bytes =>
      simp only [hr] at h
      simp [h]
  | payload length bytes =>
      simp only [hr] at h
      have hl := congrArg List.length h
      rw [List.length_append, Bytes.length_word] at hl
      simp [Bytes.wordSize] at hl

/-- A reader that holds nothing after whole frames is between messages. -/
theorem Follows.isIdle (h : Follows limit [] s parsed r)
    (ha : parsed.absorbed = (parsed.payloads.flatMap Frame.encode).length) : r.isIdle = true := by
  have hl := congrArg List.length h.eq
  rw [List.nil_append, List.length_append, List.length_take_of_le h.absorbed_le] at hl
  exact isIdle_of_pending_eq_nil (List.eq_nil_of_length_eq_zero (by omega))

/-- However a stream is cut into chunks, a new reader makes of them what there is in the stream read
at once: the same payloads, the same refusal, and as many bytes absorbed. Lengths over the limit are
refused, and within it those that no buffer can hold, if any. The absorbed bytes are those of the
payloads' frames and of the unfinished frame in the reader, or of the header refused.
No offer takes a byte past the end of the message that it completes, and the frames of payloads
that are not refused give these payloads and leave the reader between messages. -/
theorem drive_eq_parse (limit : Nat) (chunks : List Bytes) :
    let (parsed, r) := drive { limit } chunks
    parsed = Frame.parse (Frame.refusal? limit) chunks.flatten ∧
      (limit ≤ Bytes.maxSize → parsed = Frame.parse (Frame.excess? limit) chunks.flatten) ∧
      parsed.payloads.flatMap Frame.encode ++ r.pending = chunks.flatten.take parsed.absorbed ∧
      (parsed.fault ≠ none → r.pending.length = Frame.headerSize) ∧
      (parsed.fault = none → ∀ chunk count payload r',
        r.offer chunk = (.ok (count, .message payload), r') →
          r.pending ++ chunk.take count = Frame.encode payload) ∧
      ∀ payloads, (∀ m ∈ payloads, m.length ≤ limit ∧ m.length ≤ Bytes.maxSize) →
        chunks.flatten = payloads.flatMap Frame.encode →
          parsed.payloads = payloads ∧ parsed.fault = none ∧ r.isIdle = true := by
  have hf : Follows limit [] chunks.flatten (drive { limit } chunks).1 (drive { limit } chunks).2 :=
    follows_drive (r := { limit }) (Nat.zero_lt_succ _) chunks
  generalize drive { limit } chunks = driven at hf ⊢
  obtain ⟨parsed, r⟩ := driven
  refine ⟨hf.eq_parse, ?_, hf.eq.symm, ?_, ?_, ?_⟩
  · intro hlimit
    rw [← Frame.refusal?_eq_excess? hlimit]
    exact hf.eq_parse
  · intro hfault
    obtain ⟨e, he⟩ := Option.ne_none_iff_exists'.mp hfault
    exact (hf.ended e he).1
  · intro hfault chunk count payload r' hoffer
    obtain ⟨hmid, -, -⟩ := hf.going hfault
    have ho := r.offered_offer hmid chunk
    rw [hoffer] at ho
    cases ho with
    | finished he => rwa [take_min_length]
  · intro payloads hsized hflat
    have hp := hf.eq_parse
    rw [hflat, Frame.parse_frames] at hp
    · subst hp
      exact ⟨rfl, rfl, hf.isIdle rfl⟩
    · intro m hm
      have hn := Frame.refusal?_eq_none.mpr (hsized m hm)
      exact ⟨Frame.lt_of_refusal?_eq_none hn, hn⟩

/-- A length within the limit is refused all the same where no buffer can hold so many bytes. -/
theorem drive_ne_parse_excess :
    (drive { limit := 2 ^ 64 - 1 } [List.replicate 8 255]).1 ≠
      Frame.parse (Frame.excess? (2 ^ 64 - 1)) (List.replicate 8 255) := by
  have hd : (drive { limit := 2 ^ 64 - 1 } [List.replicate 8 255]).1 =
      { fault := some (.overCapacity (2 ^ 64 - 1)), absorbed := 8 } := by decide +kernel
  have hs : List.replicate 8 255 = Bytes.word (2 ^ 64 - 1) ++ [] := by decide +kernel
  rw [hd, hs, Frame.parse_word (by decide) (by decide), if_pos (by decide)]
  decide

end FrameReader

end FileDepot
