import FileDepot.Proofs.Frame.Chunks

/-! # Frames of a stream that grows

More bytes add frames and take none away. A reader that is offered no more than it wants absorbs
all of it, so it follows the stream piece by piece, and it never takes a byte after a length that
it refuses. -/

namespace FileDepot

namespace Frame

variable {refuse : Nat → Option FrameFault}

/-- The payloads of some bytes come first, whatever bytes come later. -/
theorem payloads_parse_append (bytes later : Bytes) :
    (parse refuse bytes).payloads <+: (parse refuse (bytes ++ later)).payloads := by
  fun_induction parse refuse bytes with
  | case1 bytes hshort => exact List.nil_prefix
  | case2 bytes hlong declared e he => exact List.nil_prefix
  | case3 bytes hlong declared rest hn hshort => exact List.nil_prefix
  | case4 bytes hlong declared rest hn hwhole ih =>
      have hheader : headerSize ≤ bytes.length := Nat.le_of_not_lt hlong
      have hdeclared : declared ≤ rest.length := Nat.le_of_not_lt hwhole
      have hp : parse refuse (bytes ++ later) =
          { payloads := [rest.take declared], absorbed := headerSize + declared : Parsed }.andThen
            (parse refuse (rest.drop declared ++ later)) := by
        have hlong' : ¬ (bytes ++ later).length < headerSize := by
          rw [List.length_append]
          omega
        have hwhole' : ¬ (rest ++ later).length < declared := by
          rw [List.length_append]
          omega
        rw [parse, if_neg hlong', List.take_append_of_le_length hheader,
          List.drop_append_of_le_length hheader]
        simp only [declared, rest] at hn hwhole' hdeclared ⊢
        rw [hn]
        simp only [if_neg hwhole', List.take_append_of_le_length hdeclared,
          List.drop_append_of_le_length hdeclared]
      rw [hp]
      exact (List.prefix_append_right_inj _).mpr ih

theorem excess?_of_refusal? {limit declared : Nat} (h : refusal? limit declared = none) :
    excess? limit declared = none :=
  (Option.or_eq_none_iff.mp h).1

/-- Where nothing has been read after a refusal, it makes no difference to the payloads whether a
length that no buffer can hold is refused or waited for. -/
theorem payloads_parse_excess? {limit : Nat} {bytes : Bytes}
    (h : (parse (refusal? limit) bytes).absorbed = bytes.length) :
    (parse (excess? limit) bytes).payloads = (parse (refusal? limit) bytes).payloads := by
  fun_induction parse (refusal? limit) bytes with
  | case1 bytes hshort => rw [parse_of_lt hshort]
  | case2 bytes hlong declared e he =>
      have hrest : bytes.drop headerSize = [] := List.drop_eq_nil_of_le (Nat.le_of_eq h.symm)
      have hpos : 0 < declared := by
        refine Nat.pos_of_ne_zero fun hz => ?_
        rw [hz, refusal?_eq_none.mpr ⟨Nat.zero_le _, Nat.zero_le _⟩] at he
        exact absurd he (by simp)
      rw [parse, if_neg hlong, hrest]
      simp only [declared] at hpos
      cases hx : excess? limit (Bytes.ofWord (bytes.take headerSize)) with
      | some e => simp only [hx]
      | none =>
          simp only [hx]
          rw [if_pos (by simpa using hpos)]
  | case3 bytes hlong declared rest hn hshort =>
      rw [parse, if_neg hlong]
      simp only [declared, rest] at hn hshort ⊢
      simp only [excess?_of_refusal? hn, if_pos hshort]
  | case4 bytes hlong declared rest hn hwhole ih =>
      rw [parse, if_neg hlong]
      simp only [declared, rest] at hn hwhole ih h ⊢
      simp only [excess?_of_refusal? hn, if_neg hwhole, Parsed.andThen] at h ⊢
      rw [ih]
      rw [List.length_drop, List.length_drop]
      rw [List.length_drop] at hwhole
      omega

end Frame

namespace FrameReader

/-- The payloads that an offer completes: at most one. -/
def completed : Except FrameFault (Nat × Progress) → List Bytes
  | .ok (_, .message payload) => [payload]
  | _ => []

/-- The refusal that answers an offer, if it is refused. -/
def refused? : Except FrameFault (Nat × Progress) → Option FrameFault
  | .error e => some e
  | .ok _ => none

variable {limit : Nat} {s chunk : Bytes} {parsed : Parsed} {r : FrameReader}

/-- An offer of no more than is wanted follows the stream by the whole chunk, refused or not. -/
theorem Follows.offer (h : Follows limit [] s parsed r) (hf : parsed.fault = none)
    (hc : chunk.length ≤ r.wanted) :
    ∃ later, Follows limit [] (s ++ chunk) later (r.offer chunk).2 ∧
      later.payloads = parsed.payloads ++ completed (r.offer chunk).1 ∧
      later.absorbed = (s ++ chunk).length ∧
      later.fault = refused? (r.offer chunk).1 := by
  obtain ⟨hmid, hlim, hall⟩ := h.going hf
  have ho := r.offered_offer hmid chunk
  rw [hlim] at ho
  generalize r.offer chunk = out at ho ⊢
  rcases out with ⟨e | ⟨count, progress⟩, t⟩
  · have hr := ho.follows_refused
    refine ⟨_, h.append hf hr, ?_, ?_, rfl⟩
    · simp [Parsed.andThen, completed]
    · rw [Parsed.andThen, hall, Nat.min_eq_left hc, List.length_append]
  · obtain ⟨hcount, hr⟩ := ho.follows
    rw [List.take_of_length_le hc] at hr
    refine ⟨_, h.append hf hr, ?_, ?_, ?_⟩
    · cases progress <;> simp [Parsed.andThen, completed, given]
    · rw [Parsed.andThen, hall, List.length_append]
      cases progress <;> simp [given, hcount, Nat.min_eq_left hc]
    · cases progress <;> rfl

end FrameReader

end FileDepot
