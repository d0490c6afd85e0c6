import FileDepot.Proofs.Frame.Chunks

/-! # The sink of a reader

A caller writes into the sink and reports how much, or has the reader fill it. However these acts
follow one another, the sink is as long as what is wanted, and something is wanted until a header is
refused; from then on the reader gives the same refusal and takes nothing. Within a payload the
number wanted is exact: its last byte completes the message, and none before it does. -/

namespace FileDepot

/-- The bytes received of the part at hand. -/
def Received.bytes : Received → Bytes
  | .header bytes => bytes
  | .payload _ bytes => bytes

/-- The size of the part at hand. -/
def Received.size : Received → Nat
  | .header _ => Frame.headerSize
  | .payload length _ => length

namespace FrameReader

/-- What a caller does with a reader. -/
inductive Act where
  /-- Writes to the start of the sink. -/
  | write (bytes : Bytes)
  /-- Reports that so many bytes of the sink have been written. -/
  | feed (count : Nat)
  /-- Has the sink filled from some bytes, and reported. -/
  | fill (bytes : Bytes)

/-- Whether an act reports no more than is wanted. -/
def Act.Fits (r : FrameReader) : Act → Prop
  | .feed count => count ≤ r.wanted
  | _ => True

/-- The bytes that an act takes into the message. -/
def Act.taken (r : FrameReader) : Act → Bytes
  | .write _ => []
  | .feed count => r.sinkPrefix count
  | .fill bytes => bytes.take r.wanted

/-- A reader, and its last answer. -/
structure Handled where
  reader : FrameReader
  last : Option (Except FrameFault Progress) := none
deriving DecidableEq

namespace Handled

/-- The reader is offered some bytes. -/
def offered (s : Handled) (bytes : Bytes) : Handled :=
  ⟨(s.reader.offer bytes).2, some ((s.reader.offer bytes).1.map Prod.snd)⟩

/-- What an act does. Writing has no answer. -/
def step (s : Handled) : Act → Handled
  | .write bytes => { s with reader := s.reader.write bytes }
  | .feed count => ⟨(s.reader.advance count).2, some (s.reader.advance count).1⟩
  | .fill bytes => s.offered bytes

/-- What some acts do, one after the other. -/
def run (s : Handled) (acts : List Act) : Handled :=
  acts.foldl step s

/-- Whether none of some acts reports more than is wanted at its time. -/
def Fits (s : Handled) : List Act → Prop
  | [] => True
  | a :: acts => a.Fits s.reader ∧ (s.step a).Fits acts

/-- The bytes that some acts take. -/
def taken (s : Handled) : List Act → Bytes
  | [] => []
  | a :: acts => a.taken s.reader ++ (s.step a).taken acts

theorem run_append (s : Handled) (acts later : List Act) :
    s.run (acts ++ later) = (s.run acts).run later :=
  List.foldl_append ..

theorem taken_append (s : Handled) (acts later : List Act) :
    s.taken (acts ++ later) = s.taken acts ++ (s.run acts).taken later := by
  induction acts generalizing s with
  | nil => rfl
  | cons a acts ih => exact (congrArg _ (ih _)).trans (List.append_assoc ..).symm

end Handled

/-! ## One act -/

variable {r : FrameReader}

theorem length_sinkPrefix (r : FrameReader) (count : Nat) : (r.sinkPrefix count).length = count := by
  rw [sinkPrefix, List.length_append, List.length_take, List.length_replicate]
  omega

theorem length_sink (r : FrameReader) : r.sink.length = r.wanted :=
  r.length_sinkPrefix r.wanted

/-- To report some bytes of the sink is to have it filled from them. -/
theorem advance_eq_offer {count : Nat} (h : count ≤ r.wanted) : r.advance count =
    ((r.offer (r.sinkPrefix count)).1.map Prod.snd, (r.offer (r.sinkPrefix count)).2) := by
  have hl := r.length_sinkPrefix count
  have hmin : min (r.sinkPrefix count).length r.wanted = count := by omega
  have htake : (r.sinkPrefix count).take r.wanted = r.sinkPrefix count :=
    List.take_of_length_le (by omega)
  have hfed := r.sinkPrefix_write (r.sinkPrefix count)
  have hdraft : (r.write (r.sinkPrefix count)).draft.drop count = r.draft.drop count := by
    simp only [write, htake, hl]
    exact List.drop_left' hl
  have hwanted : (r.write (r.sinkPrefix count)).wanted = r.wanted := rfl
  have hreceived : (r.write (r.sinkPrefix count)).received = r.received := rfl
  have hlimit : (r.write (r.sinkPrefix count)).limit = r.limit := rfl
  rw [hmin, htake] at hfed
  unfold offer advance
  simp only [hmin, hwanted, hreceived, hlimit, hfed, hdraft, if_neg (Nat.not_lt.mpr h)]
  cases r.received with
  | header bytes =>
      simp only
      split_ifs <;> rfl
  | payload length bytes =>
      simp only
      split_ifs <;> rfl

/-- Within a payload an offer adds what it takes, and completes the message with the last byte. -/
theorem offer_payload {length : Nat} {got : Bytes} (hr : r.received = .payload length got)
    (hlt : got.length < length) (chunk : Bytes) :
    let taken := chunk.take r.wanted
    (taken.length < r.wanted →
      (r.offer chunk).1 = .ok (taken.length, .needs (r.wanted - taken.length)) ∧
      (r.offer chunk).2.received = .payload length (got ++ taken)) ∧
    (taken.length = r.wanted →
      (r.offer chunk).1 = .ok (r.wanted, .message (got ++ taken)) ∧
      (r.offer chunk).2 = r.reset) := by
  intro taken
  have hw : r.wanted = length - got.length := by simp [wanted, hr]
  have hl : taken.length = min chunk.length r.wanted := by
    rw [List.length_take, Nat.min_comm]
  have hfed : (r.write chunk).sinkPrefix taken.length = taken := by
    rw [hl]
    exact r.sinkPrefix_write chunk
  have hwanted : (r.write chunk).wanted = r.wanted := rfl
  have hreceived : (r.write chunk).received = r.received := rfl
  have hnot : ¬ r.wanted < taken.length := by omega
  have hrest : length - (got ++ taken).length = r.wanted - taken.length := by
    rw [List.length_append]
    omega
  unfold offer advance
  simp only [← hl, hwanted, hreceived, hr, hfed, if_neg hnot, hrest]
  constructor
  · intro hshort
    have hpart : (got ++ taken).length < length := by
      rw [List.length_append]
      omega
    rw [if_pos hpart]
    exact ⟨rfl, rfl⟩
  · intro hwhole
    have hall : ¬ (got ++ taken).length < length := by
      rw [List.length_append]
      omega
    rw [if_neg hall, hwhole]
    exact ⟨rfl, rfl⟩

/-! ### Refusing -/

/-- The reader holds a whole header, and refuses the length in it. -/
def Refusing (r : FrameReader) (e : FrameFault) : Prop :=
  ∃ header, r.received = .header header ∧ header.length = Frame.headerSize ∧
    Frame.refusal? r.limit (Bytes.ofWord header) = some e

theorem limit_advance (r : FrameReader) (count : Nat) : (r.advance count).2.limit = r.limit := by
  unfold advance
  cases r.received with
  | header bytes =>
      simp only
      split_ifs <;> rfl
  | payload length bytes =>
      simp only
      split_ifs <;> rfl

theorem limit_offer (r : FrameReader) (bytes : Bytes) : (r.offer bytes).2.limit = r.limit :=
  limit_advance (r.write bytes) _

/-- A part that is refused is a header. -/
theorem received_of_error {chunk : Bytes} {e : FrameFault} (h : (r.offer chunk).1 = .error e) :
    ∃ header, (r.offer chunk).2.received = .header header := by
  have hwanted : (r.write chunk).wanted = r.wanted := rfl
  have hnot : ¬ r.wanted < min chunk.length r.wanted := by omega
  unfold offer advance at h ⊢
  simp only [hwanted, if_neg hnot] at h ⊢
  cases hr : (r.write chunk).received with
  | header bytes =>
      simp only [hr] at h ⊢
      split_ifs at h ⊢
      all_goals first | exact ⟨_, rfl⟩ | simp [Except.map] at h
  | payload length bytes =>
      simp only [hr] at h
      split_ifs at h <;> simp [Except.map] at h

/-- A reader in the middle of a frame that refuses an offer refuses from then on. -/
theorem Midway.refusing (h : r.Midway) {chunk : Bytes} {e : FrameFault}
    (he : (r.offer chunk).1 = .error e) : (r.offer chunk).2.Refusing e := by
  obtain ⟨header, hheader⟩ := received_of_error he
  have hlimit := r.limit_offer chunk
  have ho := r.offered_offer h chunk
  generalize r.offer chunk = out at *
  cases ho with
  | refused hl hrefused hpending =>
      obtain rfl : _ = e := by simpa using he
      simp only at hheader hlimit
      simp only [pending, hheader] at hpending
      exact ⟨header, hheader, hpending ▸ hl, hlimit ▸ hpending ▸ hrefused⟩
  | unfinished => simp at he
  | finished => simp at he

variable {e : FrameFault}

theorem Refusing.wanted_eq (h : r.Refusing e) : r.wanted = 0 := by
  obtain ⟨header, hr, hl, -⟩ := h
  simp [wanted, hr, hl]

theorem Refusing.write_eq (h : r.Refusing e) (bytes : Bytes) : r.write bytes = r := by
  simp [write, h.wanted_eq]

theorem Refusing.advance_eq (h : r.Refusing e) : r.advance 0 = (.error e, r) := by
  obtain ⟨header, hr, hl, he⟩ := h
  have hnot : ¬ header.length < Frame.headerSize := Nat.not_lt.mpr (Nat.le_of_eq hl.symm)
  have hself : { r with received := .header header } = r := by rw [← hr]
  unfold advance sinkPrefix
  simp only [Nat.not_lt_zero, if_false, hr, List.take_zero, Nat.zero_sub, List.replicate_zero,
    List.append_nil, if_neg hnot, List.drop_zero, hself]
  rcases Frame.refusal?_eq_some he with ⟨hlimit, rfl⟩ | ⟨hmax, hle, rfl⟩
  · rw [if_pos hlimit]
  · rw [if_neg (Nat.not_lt.mpr hle), if_pos hmax]

theorem Refusing.offer_eq (h : r.Refusing e) (bytes : Bytes) : r.offer bytes = (.error e, r) := by
  rw [offer, h.write_eq, h.wanted_eq, Nat.min_zero, h.advance_eq]
  rfl

/-! ## Acts in sequence -/

namespace Handled

variable {s : Handled} {a : Act}

/-- An act writes into the sink, or it is an offer of the bytes that it takes. -/
theorem step_cases (h : a.Fits s.reader) :
    (∃ bytes, s.step a = { s with reader := s.reader.write bytes } ∧ a.taken s.reader = []) ∨
    ∃ bytes, s.step a = s.offered bytes ∧ a.taken s.reader = bytes.take s.reader.wanted := by
  cases a with
  | write bytes => exact .inl ⟨bytes, rfl, rfl⟩
  | feed count =>
      have hl := s.reader.length_sinkPrefix count
      have hle : (s.reader.sinkPrefix count).length ≤ s.reader.wanted := hl.symm ▸ h
      refine .inr ⟨s.reader.sinkPrefix count, ?_, (List.take_of_length_le hle).symm⟩
      rw [step, advance_eq_offer h, offered]
  | fill bytes => exact .inr ⟨bytes, rfl, rfl⟩

/-- How a reader and its last answer go together. -/
inductive Sound (limit : Nat) : Handled → Prop where
  /-- Nothing is refused. What the last answer asked for, if anything, is still wanted, and within
  a payload it was asked for. -/
  | midway {r : FrameReader} {last : Option (Except FrameFault Progress)} : r.limit = limit →
      r.Midway → (∀ e, last ≠ some (.error e)) →
      (∀ n, last = some (.ok (.needs n)) → n = r.wanted) →
      (∀ length got, r.received = .payload length got → last = some (.ok (.needs r.wanted))) →
      Sound limit ⟨r, last⟩
  /-- The last answer refused the header at hand. -/
  | refused {r : FrameReader} {e : FrameFault} : r.limit = limit → r.Refusing e →
      Sound limit ⟨r, some (.error e)⟩

variable {limit : Nat}

theorem Sound.write (h : s.Sound limit) (bytes : Bytes) :
    Sound limit { s with reader := s.reader.write bytes } := by
  cases h with
  | midway hlimit hmid hok hneeds hpayload => exact .midway hlimit hmid hok hneeds hpayload
  | refused hlimit hr => exact (hr.write_eq bytes).symm ▸ .refused hlimit hr

theorem not_payload_of_pending_eq_nil {r : FrameReader} (h : r.pending = []) {length : Nat}
    {got : Bytes} : r.received ≠ .payload length got := by
  have hidle := isIdle_of_pending_eq_nil h
  intro hr
  simp [isIdle, hr] at hidle

theorem Sound.offered (h : s.Sound limit) (bytes : Bytes) : (s.offered bytes).Sound limit := by
  cases h with
  | refused hlimit hr =>
      have ho := hr.offer_eq bytes
      simp only [Handled.offered, ho]
      exact .refused hlimit hr
  | @midway r last hlimit hmid =>
      have hrefusing : ∀ {e}, (r.offer bytes).1 = .error e → (r.offer bytes).2.Refusing e :=
        hmid.refusing
      have hlim := (r.limit_offer bytes).trans hlimit
      have ho := r.offered_offer hmid bytes
      simp only [Handled.offered]
      generalize r.offer bytes = out at *
      cases ho with
      | unfinished hm _ _ hmissing =>
          subst hmissing
          exact .midway hlim hm (by simp [Except.map]) (by simp [Except.map]) fun _ _ _ => rfl
      | finished _ _ hm _ hp =>
          exact .midway hlim hm (by simp [Except.map]) (by simp [Except.map])
            fun _ _ hr => absurd hr (not_payload_of_pending_eq_nil hp)
      | refused => exact .refused hlim (hrefusing rfl)

/-- Every act keeps the reader and its answer together. -/
theorem Sound.step (h : s.Sound limit) (ha : a.Fits s.reader) : (s.step a).Sound limit := by
  rcases step_cases ha with ⟨bytes, hs, -⟩ | ⟨bytes, hs, -⟩
  · exact hs ▸ h.write bytes
  · exact hs ▸ h.offered bytes

theorem Sound.run (h : s.Sound limit) {acts : List Act} (ha : s.Fits acts) :
    (s.run acts).Sound limit := by
  induction acts generalizing s with
  | nil => exact h
  | cons a acts ih => exact ih (h.step ha.1) ha.2

theorem sound_start (limit : Nat) : Sound limit ⟨{ limit }, none⟩ :=
  .midway rfl (Nat.zero_lt_succ _) (by simp) (by simp) (by simp)

/-! ### After a refusal -/

theorem step_of_refusing {e : FrameFault} (h : s.reader.Refusing e)
    (hl : s.last = some (.error e)) (ha : a.Fits s.reader) : s.step a = s := by
  rcases step_cases ha with ⟨bytes, hs, -⟩ | ⟨bytes, hs, -⟩
  · rw [hs, h.write_eq]
  · rw [hs, offered, h.offer_eq]
    exact congrArg (Handled.mk s.reader) hl.symm

/-- Once a header has been refused, nothing changes any more. -/
theorem run_of_refusing {e : FrameFault} (h : s.reader.Refusing e)
    (hl : s.last = some (.error e)) {acts : List Act} (ha : s.Fits acts) : s.run acts = s := by
  induction acts with
  | nil => rfl
  | cons a acts ih =>
      have hs := step_of_refusing h hl ha.1
      obtain ⟨-, hrest⟩ := ha
      rw [hs] at hrest
      exact (congrArg (Handled.run · acts) hs).trans (ih hrest)

/-! ### Within a payload -/

variable {length : Nat} {got : Bytes}

theorem wanted_payload {r : FrameReader} (h : r.received = .payload length got) :
    r.wanted = length - got.length := by
  simp [wanted, h]

theorem wanted_payload_append {r r' : FrameReader} {bytes : Bytes}
    (h : r.received = .payload length got) (h' : r'.received = .payload length (got ++ bytes)) :
    r'.wanted = r.wanted - bytes.length := by
  rw [wanted_payload h', wanted_payload h, List.length_append, Nat.sub_sub]

/-- An act within a payload adds what it takes, and completes the message with the last byte. -/
theorem step_payload (hr : s.reader.received = .payload length got) (hlt : got.length < length)
    (hl : s.last = some (.ok (.needs s.reader.wanted))) (ha : a.Fits s.reader) :
    ((a.taken s.reader).length < s.reader.wanted →
      (s.step a).reader.received = .payload length (got ++ a.taken s.reader) ∧
      (s.step a).last = some (.ok (.needs (s.reader.wanted - (a.taken s.reader).length)))) ∧
    (s.reader.wanted ≤ (a.taken s.reader).length →
      (a.taken s.reader).length = s.reader.wanted ∧
      (s.step a).last = some (.ok (.message (got ++ a.taken s.reader))) ∧
      (s.step a).reader = s.reader.reset) := by
  have hw := wanted_payload hr
  rcases step_cases ha with ⟨bytes, hs, ht⟩ | ⟨bytes, hs, ht⟩
  · rw [hs, ht, List.append_nil, List.length_nil, Nat.sub_zero]
    refine ⟨fun _ => ⟨hr, hl⟩, fun hle => ?_⟩
    omega
  · have hle : (bytes.take s.reader.wanted).length ≤ s.reader.wanted := List.length_take_le ..
    obtain ⟨hpart, hwhole⟩ := offer_payload hr hlt bytes
    rw [hs, ht, offered]
    constructor
    · intro hshort
      obtain ⟨ho, hreceived⟩ := hpart hshort
      exact ⟨hreceived, by rw [ho]; rfl⟩
    · intro hge
      obtain ⟨ho, hreset⟩ := hwhole (Nat.le_antisymm hle hge)
      exact ⟨Nat.le_antisymm hle hge, by rw [ho]; rfl, hreset⟩

/-- Acts that take fewer bytes than are wanted leave the payload unfinished, and ask for the rest. -/
theorem run_payload (hr : s.reader.received = .payload length got)
    (hl : s.last = some (.ok (.needs s.reader.wanted))) {acts : List Act} (ha : s.Fits acts)
    (ht : (s.taken acts).length < s.reader.wanted) :
    (s.run acts).reader.received = .payload length (got ++ s.taken acts) ∧
      (s.run acts).last = some (.ok (.needs (s.reader.wanted - (s.taken acts).length))) := by
  induction acts generalizing s got with
  | nil =>
      simp only [taken, List.append_nil, List.length_nil, Nat.sub_zero]
      exact ⟨hr, hl⟩
  | cons a acts ih =>
      have hw := wanted_payload hr
      simp only [taken, List.length_append] at ht
      have hfirst : (a.taken s.reader).length < s.reader.wanted := by omega
      obtain ⟨hstep, hlast⟩ := (step_payload hr (by omega) hl ha.1).1 hfirst
      have hrest : (s.step a).reader.wanted = s.reader.wanted - (a.taken s.reader).length :=
        wanted_payload_append hr hstep
      have hrun := ih hstep (hrest ▸ hlast) ha.2 (by omega)
      rw [hrest, List.append_assoc, Nat.sub_sub] at hrun
      simp only [taken, List.length_append]
      exact hrun

/-! ## What every sequence of acts ensures -/

/-- What holds of a reader with a limit after any acts, and whatever acts come next. -/
structure Exact (limit : Nat) (s : Handled) : Prop where
  /-- The sink has room for the bytes that are wanted. -/
  length_sink : s.reader.sink.length = s.reader.wanted
  /-- They are the rest of the part at hand. -/
  length_add_wanted : s.reader.received.bytes.length + s.reader.wanted = s.reader.received.size
  /-- Something is wanted, unless the last answer was a refusal. -/
  wanted_pos : (∀ e, s.last ≠ some (.error e)) → 0 < s.reader.wanted
  /-- A refusal is of a length over the limit, or of one that no buffer can hold. -/
  refusal : ∀ e, s.last = some (.error e) →
    (∃ declared, limit < declared ∧ e = .tooLarge declared limit) ∨
    ∃ declared, Bytes.maxSize < declared ∧ declared ≤ limit ∧ e = .overCapacity declared
  /-- After it nothing is wanted, nothing is taken, and the answer stays the same. -/
  refused : ∀ e, s.last = some (.error e) → s.reader.wanted = 0 ∧
    s.reader.advance 0 = (.error e, s.reader) ∧
    (∀ bytes, s.reader.offer bytes = (.error e, s.reader)) ∧
    ∀ acts, s.Fits acts → s.run acts = s
  /-- The number of bytes that the last answer asked for is what is wanted. -/
  needs_eq : ∀ n, s.last = some (.ok (.needs n)) → n = s.reader.wanted
  /-- Within a payload that number is exact: acts that take fewer bytes leave the rest to be asked
  for, and the act that takes the last byte completes the message and nothing more. -/
  payload : ∀ length got, s.reader.received = .payload length got →
    s.last = some (.ok (.needs s.reader.wanted)) ∧
    ∀ acts, s.Fits acts → (s.taken acts).length < s.reader.wanted →
      (s.run acts).reader.received = .payload length (got ++ s.taken acts) ∧
      (s.run acts).last = some (.ok (.needs (s.reader.wanted - (s.taken acts).length))) ∧
      ∀ a, a.Fits (s.run acts).reader → s.reader.wanted ≤ (s.taken (acts ++ [a])).length →
        (s.taken (acts ++ [a])).length = s.reader.wanted ∧
        (s.run (acts ++ [a])).last = some (.ok (.message (got ++ s.taken (acts ++ [a])))) ∧
        (s.run (acts ++ [a])).reader.isIdle = true

theorem length_add_wanted_of_midway {r : FrameReader} (h : r.Midway) :
    r.received.bytes.length + r.wanted = r.received.size := by
  have hpos := h.wanted_pos
  unfold wanted at hpos ⊢
  cases hr : r.received with
  | header bytes =>
      simp only [hr, Received.bytes, Received.size] at hpos ⊢
      omega
  | payload length bytes =>
      simp only [hr, Received.bytes, Received.size] at hpos ⊢
      omega

/-- The act that takes the last byte of a payload completes the message. -/
theorem run_payload_whole (hr : s.reader.received = .payload length got)
    (hl : s.last = some (.ok (.needs s.reader.wanted))) {acts : List Act} (ha : s.Fits acts)
    (ht : (s.taken acts).length < s.reader.wanted) (hfits : a.Fits (s.run acts).reader)
    (hle : s.reader.wanted ≤ (s.taken (acts ++ [a])).length) :
    (s.taken (acts ++ [a])).length = s.reader.wanted ∧
      (s.run (acts ++ [a])).last = some (.ok (.message (got ++ s.taken (acts ++ [a])))) ∧
      (s.run (acts ++ [a])).reader.isIdle = true := by
  have hw := wanted_payload hr
  obtain ⟨hreceived, hlast⟩ := run_payload hr hl ha ht
  have hrest : (s.run acts).reader.wanted = s.reader.wanted - (s.taken acts).length :=
    wanted_payload_append hr hreceived
  have htaken : s.taken (acts ++ [a]) = s.taken acts ++ a.taken (s.run acts).reader := by
    rw [taken_append, taken, taken, List.append_nil]
  rw [htaken, List.length_append] at hle
  have hunfinished : (got ++ s.taken acts).length < length := by
    rw [List.length_append]
    omega
  obtain ⟨heq, hmessage, hreset⟩ :=
    (step_payload hreceived hunfinished (hrest ▸ hlast) hfits).2 (by omega)
  rw [run_append, htaken, List.length_append, ← List.append_assoc]
  refine ⟨by omega, hmessage, ?_⟩
  have hidle : ((s.run acts).step a).reader.isIdle = true := by
    rw [hreset]
    rfl
  exact hidle

theorem Sound.exact (h : s.Sound limit) : s.Exact limit := by
  cases h with
  | @midway r last hlimit hmid hok hneeds hpayload =>
      exact {
        length_sink := r.length_sink
        length_add_wanted := length_add_wanted_of_midway hmid
        wanted_pos := fun _ => hmid.wanted_pos
        refusal := fun e he => absurd he (hok e)
        refused := fun e he => absurd he (hok e)
        needs_eq := hneeds
        payload := fun length got hr => ⟨hpayload length got hr, fun acts ha ht =>
          ⟨(run_payload hr (hpayload length got hr) ha ht).1,
            (run_payload hr (hpayload length got hr) ha ht).2,
            fun a hfits hle => run_payload_whole hr (hpayload length got hr) ha ht hfits hle⟩⟩ }
  | @refused r e hlimit hr =>
      obtain ⟨header, hheader, hl, he⟩ := id hr
      have hwanted := hr.wanted_eq
      exact {
        length_sink := r.length_sink
        length_add_wanted := by simp [hwanted, hheader, Received.bytes, Received.size, hl]
        wanted_pos := fun hok => absurd rfl (hok e)
        refusal := by
          rintro e' he'
          obtain rfl : e = e' := by simpa using he'
          rw [hlimit] at he
          exact (Frame.refusal?_eq_some he).imp (fun h => ⟨_, h⟩) fun h => ⟨_, h⟩
        refused := by
          rintro e' he'
          obtain rfl : e = e' := by simpa using he'
          exact ⟨hwanted, hr.advance_eq, hr.offer_eq, fun acts ha => run_of_refusing hr rfl ha⟩
        needs_eq := by simp
        payload := fun length got hp => by simp [hheader] at hp }

/-- However a new reader is written to, fed and filled, it wants exactly what it says. -/
theorem exact_run {acts : List Act} (h : Fits ⟨{ limit }, none⟩ acts) :
    Exact limit (run ⟨{ limit }, none⟩ acts) :=
  ((sound_start limit).run h).exact

/-- A length that no buffer can hold leaves nothing wanted as well, though the limit allows it. -/
theorem wanted_eq_zero_of_over_capacity :
    Fits ⟨{ limit := 2 ^ 64 - 1 }, none⟩ [.fill (List.replicate 8 255)] ∧
      let s := run ⟨{ limit := 2 ^ 64 - 1 }, none⟩ [.fill (List.replicate 8 255)]
      (∀ declared limit, s.last ≠ some (.error (.tooLarge declared limit))) ∧
        ¬ 0 < s.reader.wanted := by
  have hr : run ⟨{ limit := 2 ^ 64 - 1 }, none⟩ [.fill (List.replicate 8 255)] =
      ⟨{ limit := 2 ^ 64 - 1, received := .header (List.replicate 8 255) },
        some (.error (.overCapacity (2 ^ 64 - 1)))⟩ := by decide +kernel
  refine ⟨⟨trivial, trivial⟩, ?_⟩
  simp only [hr]
  refine ⟨by simp, ?_⟩
  decide

end Handled

end FrameReader

end FileDepot
