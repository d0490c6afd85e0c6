import FileDepot.Proofs.Store.Locks
import FileDepot.Proofs.Wire.Grammar

/-! # Requests read back

A request is read back from its payload, unless it names an empty path, and from no other payload:
what spells a request is its written form. No request that is read from a payload names an empty
path, and so no file of a store that such requests lead to has one. -/

namespace FileDepot

namespace Request

/-- The path that a request names. -/
def path? : Request → Option String
  | .nop | .readN _ => none
  | .openFile path .. | .read path | .write path _ | .append path _ | .lock path | .unlock path
  | .close path | .remove path => some path

/-- The lengths written with a request fit in their words, as those of all that a buffer can hold
do. -/
def Sized : Request → Prop
  | .write path contents | .append path contents =>
    (Bytes.ofText path).length < 2 ^ 64 ∧ contents.length < 2 ^ 64
  | _ => True

/-- The written form of a request spells it. -/
theorem spells_encode {request : Request} (hp : request.path? ≠ some "") (hs : request.Sized) :
    Spells request.encode request := by
  have hne : ∀ {path}, request.path? = some path → path ≠ "" := by
    rintro path hpath rfl
    exact hp hpath
  have hpath : ∀ {opcode make path}, onPath? opcode = some make → request = make path →
      request.path? = some path → request.encode = opcode.toByte :: Bytes.ofText path →
      Spells request.encode request := by
    rintro opcode make path hm rfl hsome he
    exact he ▸ .path hm (hne hsome)
  have hpair : ∀ {opcode make path contents}, onPair? opcode = some make →
      request = make path contents → request.path? = some path →
      (Bytes.ofText path).length < 2 ^ 64 ∧ contents.length < 2 ^ 64 →
      request.encode = opcode.toByte :: encodePair path contents →
      Spells request.encode request := by
    rintro opcode make path contents hm rfl hsome ⟨hl, hcl⟩ he
    rw [he, encodePair, List.append_assoc, List.append_assoc]
    exact .pair hm (declares_word hl) (declares_word hcl) (hne hsome)
  cases request with
  | nop => exact .nop
  | openFile path create lock => cases create <;> cases lock <;> exact hpath rfl rfl rfl rfl
  | readN count =>
      have hc : UInt64.ofNat (Bytes.ofWord (Bytes.word count.toNat)) = count := by
        rw [Bytes.ofWord_word count.toNat_lt, UInt64.ofNat_toNat]
      have hspells := Spells.listing (Bytes.length_word count.toNat)
      rw [hc] at hspells
      exact hspells
  | write path contents | append path contents =>
      exact hpair rfl rfl rfl hs rfl
  | read path | lock path | unlock path | close path | remove path =>
      exact hpath rfl rfl rfl rfl

/-- Only its written form spells a request. -/
theorem encode_of_spells {payload : Bytes} {request : Request} (h : Spells payload request) :
    request.encode = payload := by
  cases h with
  | nop => rfl
  | @path opcode make path hm => cases opcode <;> cases hm <;> rfl
  | @pair opcode make pathLength contentsLength path contents hm hp hc =>
      rw [← hp.word_eq, ← hc.word_eq, ← List.append_assoc, ← List.append_assoc]
      cases opcode <;> cases hm <;> rfl
  | @listing count hl =>
      have hw : (UInt64.ofNat (Bytes.ofWord count)).toNat = Bytes.ofWord count :=
        UInt64.toNat_ofNat_of_lt' (Bytes.ofWord_lt hl)
      rw [encode, encodeArguments, hw, Bytes.word_ofWord hl]
      rfl

theorem path?_ne_of_spells {payload : Bytes} {request : Request} (h : Spells payload request) :
    request.path? ≠ some "" := by
  have hne : ∀ {path : String}, path ≠ "" → some path ≠ some "" :=
    fun h he => h (Option.some.inj he)
  cases h with
  | nop | listing => nofun
  | @path opcode make path hm hp => cases opcode <;> cases hm <;> exact hne hp
  | @pair opcode make _ _ path contents hm _ _ hp => cases opcode <;> cases hm <;> exact hne hp

/-- A request is read back from its payload. -/
theorem decode_encode {request : Request} (hp : request.path? ≠ some "") (hs : request.Sized) :
    decode request.encode = .ok request :=
  decode_of_spells (spells_encode hp hs)

theorem sized_of_length_encode {request : Request} (h : request.encode.length < 2 ^ 64) :
    request.Sized := by
  cases request with
  | write path contents | append path contents =>
      simp only [encode, encodeArguments, encodePair, List.length_append] at h
      exact ⟨by omega, by omega⟩
  | _ => trivial

/-- Requests and the payloads of the grammar are in one-to-one correspondence: a request without an
empty path is read back from its written form, and what is read from a payload has that payload as
its written form and no empty path. What is read is just what the grammar spells, no two payloads
are read as one request, and every payload outside the grammar is refused for its fault. -/
theorem written_form_unique :
    (∀ request, request.path? ≠ some "" → request.Sized → decode request.encode = .ok request) ∧
    (∀ payload request, decode payload = .ok request →
      request.encode = payload ∧ request.path? ≠ some "") ∧
    (∀ payload request, decode payload = .ok request ↔ Spells payload request) ∧
    (∀ payload other request, decode payload = .ok request → decode other = .ok request →
      payload = other) ∧
    (∀ payload, (∀ request, ¬ Spells payload request) ↔ ∃ e, Misspelt payload e) ∧
    ∀ payload e, decode payload = .error e ↔ Misspelt payload e := by
  have hencode : ∀ payload request, decode payload = .ok request → request.encode = payload :=
    fun _ _ h => encode_of_spells (decode_eq_ok_iff.mp h)
  refine ⟨fun _ => decode_encode, ?_, fun _ _ => decode_eq_ok_iff, ?_, ?_,
    fun _ _ => decode_eq_error_iff⟩
  · intro payload request h
    exact ⟨hencode _ _ h, path?_ne_of_spells (decode_eq_ok_iff.mp h)⟩
  · intro payload other request h h'
    exact (hencode _ _ h).symm.trans (hencode _ _ h')
  · intro payload
    constructor
    · intro hno
      exact (spells_or_misspelt payload).resolve_left fun ⟨request, h⟩ => hno request h
    · rintro ⟨e, he⟩ request h
      cases (decode_of_spells h).symm.trans (decode_of_misspelt he)

/-- An append is read back, and one whose two lengths come to nothing in 64 bits is refused. -/
theorem written_form_unique_append :
    (append "a" [7]).path? ≠ some "" ∧ (append "a" [7]).Sized ∧
      decode (append "a" [7]).encode = .ok (append "a" [7]) ∧
      decode (Opcode.appendToFile.toByte :: (Bytes.word (2 ^ 63) ++ (Bytes.word (2 ^ 63) ++ []))) =
        .error (.malformed .appendToFile) := by
  have hp : (append "a" [7]).path? ≠ some "" := by simp [path?]
  have hs : (append "a" [7]).Sized := ⟨by decide, by decide⟩
  obtain ⟨hread, -, -, -, -, hrefused⟩ := written_form_unique
  refine ⟨hp, hs, hread _ hp hs, (hrefused _ _).mpr (.lengths rfl rfl rfl ?_)⟩
  rw [Bytes.ofWord_word (by decide)]
  decide

end Request

/-! ## Stores without empty paths -/

namespace Store

/-- The store after a payload from any client. -/
def after (s : Store) (owner : ClientId) (payload : Bytes) : Store :=
  match Request.decode payload with
  | .error _ => s
  | .ok request => (s.respond owner request).2

/-- A store whose files a listing can name: it tracks a list, and no path is empty. -/
def Listable (s : Store) : Prop :=
  ∃ fs, s.Tracks fs ∧ ∀ f ∈ fs, f.path ≠ ""

variable {s : Store}

theorem listable_empty (maxFiles maxBytes : UInt64) (placement : Placement) (policy : Policy)
    (dice : Dice) : (empty maxFiles maxBytes placement policy dice).Listable :=
  ⟨[], tracks_empty .., by simp⟩

theorem Listable.path_ne (h : s.Listable) : ∀ f ∈ s.files, f.path ≠ "" := by
  obtain ⟨fs, hs, hp⟩ := h
  exact fun f hf => hp f (hs.files_perm.mem_iff.mp hf)

theorem Listable.perform (h : s.Listable) (op : Operation)
    (hop : ∀ owner lock, op ≠ .create "" owner lock) : (s.perform op).2.Listable := by
  obtain ⟨fs, hs, hfs⟩ := h
  obtain ⟨peak, gs, hp⟩ := hs.perform op
  refine ⟨gs, hp.tracks, fun g hg he => ?_⟩
  rcases hp.effect.origin hs.nodup (hp.effect.left_sublist.subset hg) with
    ⟨owner, lock, rfl, -⟩ | ⟨f, hf, hfg, -⟩
  · exact hop owner lock (by rw [he])
  · exact hfs f hf ((congrArg Ticket.path hfg).trans he)

theorem Listable.respond (h : s.Listable) (owner : ClientId) {request : Request}
    (hr : request.path? ≠ some "") : (s.respond owner request).2.Listable := by
  rw [respond_snd]
  cases ho : request.operation? owner with
  | none => exact h
  | some op =>
      refine h.perform op fun client lock he => ?_
      subst he
      rcases request with _ | ⟨path, create | create, lock⟩ | _ | _ | _ | _ | _ | _ | _ | _ <;>
        simp_all [Request.operation?, Request.path?]

theorem Listable.after (h : s.Listable) (owner : ClientId) (payload : Bytes) :
    (s.after owner payload).Listable := by
  unfold Store.after
  split
  · exact h
  · rename_i hd
    exact h.respond owner (Request.path?_ne_of_spells (Request.decode_eq_ok_iff.mp hd))

theorem Listable.release (h : s.Listable) (owner : ClientId) : (s.release owner).2.Listable :=
  h.perform (.release owner) (by simp)

end Store

end FileDepot
