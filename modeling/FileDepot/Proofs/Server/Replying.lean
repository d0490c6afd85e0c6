import Mathlib.Data.List.Infix
import FileDepot.Proofs.Server.Serving

/-! # What clients are sent

A client is sent the responses to its own requests, in their order, and nothing after a payload
that is no request. While its stream is open at both ends, all of them have been sent. -/

namespace FileDepot

/-- What some answers come to: the responses up to the first payload that was no request. -/
def replies : List (Option Bytes) → Bytes
  | some bytes :: rest => bytes ++ replies rest
  | _ => []

section Replies

variable {rs : List (Option Bytes)}

theorem replies_concat_some (h : none ∉ rs) (bytes : Bytes) :
    replies (rs ++ [some bytes]) = replies rs ++ bytes := by
  induction rs with
  | nil => simp [replies]
  | cons r rs ih =>
      obtain ⟨hr, hrs⟩ := not_or.mp (mt List.mem_cons.mpr h)
      cases r with
      | none => exact absurd rfl hr
      | some first => simp [replies, ih hrs]

theorem replies_concat_of_mem (h : none ∈ rs) (r : Option Bytes) :
    replies (rs ++ [r]) = replies rs := by
  induction rs with
  | nil => simp at h
  | cons first rs ih =>
      cases first with
      | none => rfl
      | some bytes => simp [replies, ih (by simpa using h)]

theorem replies_concat_none (rs : List (Option Bytes)) : replies (rs ++ [none]) = replies rs := by
  induction rs with
  | nil => rfl
  | cons first rs ih =>
      cases first with
      | none => rfl
      | some bytes => simp [replies, ih]

theorem replies_prefix_concat (rs : List (Option Bytes)) (r : Option Bytes) :
    replies rs <+: replies (rs ++ [r]) := by
  by_cases h : none ∈ rs
  · rw [replies_concat_of_mem h]
  · cases r with
    | none => rw [replies_concat_none]
    | some bytes =>
        rw [replies_concat_some h]
        exact List.prefix_append ..

end Replies

namespace Ledger

/-- The answers to a client: a response for each request served. -/
def responses (L : Ledger) (c : ClientId) : List (Option Bytes) :=
  (L.answers c).map Prod.snd

/-- What holds of the streams between any two actions of a run. -/
structure Delivered (L : Ledger) : Prop where
  stranger : ∀ i, i ∉ L.accepted.map Hold.stream →
    (L.traffic i).down = [] ∧ (L.traffic i).hungUp = false
  sent : ∀ x ∈ L.accepted, (L.traffic x.stream).down <+: replies (L.responses x.client)
  live : ∀ x ∈ L.accepted, (L.traffic x.stream).live = true →
    (L.traffic x.stream).down = replies (L.responses x.client) ∧ none ∉ L.responses x.client

variable {L L' : Ledger} {a : Action}

/-- Nothing is sent by a step that answers nothing, and no stream of a stranger is hung up on. -/
theorem Delivered.quiet (h : L.Delivered) (hacc : L'.accepted = L.accepted)
    (hans : L'.answered = L.answered) (hdown : ∀ i, (L'.traffic i).down = (L.traffic i).down)
    (hlive : ∀ i, (L'.traffic i).live = true → (L.traffic i).live = true)
    (hup : ∀ i, i ∉ L.accepted.map Hold.stream → (L'.traffic i).hungUp = (L.traffic i).hungUp) :
    L'.Delivered := by
  have hresp : ∀ c, L'.responses c = L.responses c := by
    intro c
    rw [responses, responses, answers, answers, hans]
  refine ⟨?_, ?_, ?_⟩
  · intro i hi
    rw [hacc] at hi
    rw [hdown, hup i hi]
    exact h.stranger i hi
  · intro x hx
    rw [hacc] at hx
    rw [hdown, hresp]
    exact h.sent x hx
  · intro x hx hl
    rw [hacc] at hx
    rw [hdown, hresp]
    exact h.live x hx (hlive _ hl)

theorem Delivered.onStream (h : L.Delivered) {i : StreamId} {f : Traffic → Traffic}
    (hdown : ∀ l, (f l).down = l.down) (hlive : ∀ l, (f l).live = true → l.live = true)
    (hup : i ∈ L.accepted.map Hold.stream ∨ ∀ l, (f l).hungUp = l.hungUp) :
    (L.onStream i f).Delivered := by
  refine h.quiet rfl rfl ?_ ?_ ?_
  · intro j
    rcases L.traffic_onStream i j f with ht | ⟨-, ht⟩
    · rw [ht]
    · rw [ht, hdown]
  · intro j
    rcases L.traffic_onStream i j f with ht | ⟨-, ht⟩
    · rw [ht]
      exact id
    · rw [ht]
      exact hlive _
  · intro j hj
    rcases L.traffic_onStream i j f with ht | ⟨he, ht⟩
    · rw [ht]
    · rw [ht]
      exact hup.elim (fun hi => absurd (he ▸ hi) hj) fun hf => hf _

theorem Held.responses_eq_nil (h : L.Held) {c : ClientId} (hc : c ∉ L.accepted.map Hold.client) :
    L.responses c = [] := by
  rw [responses, List.map_eq_nil_iff, answers, List.filter_eq_nil_iff]
  intro p hp he
  exact hc (List.mem_map.mpr ⟨p.1.hold, h.answered p hp, of_decide_eq_true he⟩)

theorem Delivered.accept (h : L.Delivered) (hk : L.Kept) (hh : L.Held) {i : StreamId}
    {waiting : List StreamId} (hw : L.waiting = i :: waiting) (connections : List Connection)
    (nextId : Nat) : Delivered { L with
      waiting, connections, nextId, accepted := L.accepted ++ [⟨⟨L.nextId⟩, i⟩] } := by
  obtain ⟨hdown, -⟩ := h.stranger i (hk.stream_not_mem hw)
  have hresp := hh.responses_eq_nil hk.client_not_mem
  refine ⟨?_, ?_, ?_⟩
  · intro j hj
    rw [List.map_append, List.mem_append, not_or] at hj
    exact h.stranger j hj.1
  · intro x hx
    rcases List.mem_append.mp hx with hx | hx
    · exact h.sent x hx
    · rw [List.mem_singleton.mp hx]
      exact hdown ▸ List.nil_prefix
  · intro x hx hl
    rcases List.mem_append.mp hx with hx | hx
    · exact h.live x hx hl
    · rw [List.mem_singleton.mp hx]
      change (L.traffic i).down = replies (L.responses ⟨L.nextId⟩) ∧ none ∉ L.responses ⟨L.nextId⟩
      rw [hdown, hresp]
      exact ⟨rfl, List.not_mem_nil⟩

/-! ### Answering -/

theorem responses_answer_own (L : Ledger) (m : Message) (r : Option Bytes) :
    (L.answer m r).responses m.sender = L.responses m.sender ++ [r] := by
  simp [responses, answers, answer]

theorem responses_answer_other (L : Ledger) {m : Message} (r : Option Bytes) {c : ClientId}
    (hc : m.sender ≠ c) : (L.answer m r).responses c = L.responses c := by
  simp [responses, answers, answer, hc]

theorem Kept.traffic_answer_own (h : L.Kept) {m : Message} (hm : m.hold ∈ L.accepted)
    (r : Option Bytes) :
    (L.answer m r).traffic m.stream = (L.traffic m.stream).answer r := by
  have hin : m.stream < L.streams := h.accepted_lt hm
  simp [answer, Ledger.onStream, hin]

theorem traffic_answer_other (L : Ledger) {m : Message} (r : Option Bytes) {i : StreamId}
    (hi : i ≠ m.stream) : (L.answer m r).traffic i = L.traffic i := by
  simp [answer, Ledger.onStream, hi]

/-- An accepted connection is the one that is answered, or another one by client and by stream. -/
theorem Kept.eq_hold_or (h : L.Kept) {x : Hold} {m : Message} (hx : x ∈ L.accepted)
    (hm : m.hold ∈ L.accepted) : x = m.hold ∨ m.sender ≠ x.client ∧ x.stream ≠ m.stream := by
  by_cases he : x.client = m.sender
  · exact .inl (h.eq_of_client hx hm he)
  · refine .inr ⟨Ne.symm he, fun hs => he ?_⟩
    exact congrArg Hold.client (h.eq_of_stream hx hm hs)

/-- A client that can be sent more is sent the response, or is hung up on where there is none. -/
theorem Delivered.reply (h : L.Delivered) {m : Message} (hm : m.hold ∈ L.accepted)
    (hl : (L.traffic m.stream).live = true) (r : Option Bytes) :
    ((L.traffic m.stream).answer r).down = replies (L.responses m.sender ++ [r]) ∧
      (((L.traffic m.stream).answer r).hungUp = true ↔ none ∈ L.responses m.sender ++ [r]) := by
  obtain ⟨hd, hn⟩ := h.live m.hold hm hl
  have hd : (L.traffic m.stream).down = replies (L.responses m.sender) := hd
  have hn : none ∉ L.responses m.sender := hn
  have hup : (L.traffic m.stream).hungUp = false := by
    simpa using (Bool.and_eq_true_iff.mp hl).2
  cases r with
  | none =>
      rw [replies_concat_none]
      exact ⟨hd, by simp [Traffic.answer, Traffic.hangUp]⟩
  | some bytes =>
      rw [Traffic.answer_some hl, replies_concat_some hn, hd]
      exact ⟨rfl, by simp [hup, hn]⟩

theorem Delivered.answer (h : L.Delivered) (hk : L.Kept) {m : Message} (hm : m.hold ∈ L.accepted)
    (r : Option Bytes) : (L.answer m r).Delivered := by
  refine ⟨?_, ?_, ?_⟩
  · intro i hi
    have hne : i ≠ m.stream := by
      rintro rfl
      exact hi (List.mem_map.mpr ⟨m.hold, hm, rfl⟩)
    rw [L.traffic_answer_other r hne]
    exact h.stranger i hi
  · intro x hx
    rcases hk.eq_hold_or hx hm with rfl | ⟨hc, hs⟩
    · change ((L.answer m r).traffic m.stream).down <+: replies ((L.answer m r).responses m.sender)
      rw [hk.traffic_answer_own hm, responses_answer_own]
      cases hl : (L.traffic m.stream).live with
      | false =>
          rw [(Traffic.answer_of_not_live hl r).1]
          exact (h.sent m.hold hm).trans (replies_prefix_concat ..)
      | true => rw [(h.reply hm hl r).1]
    · rw [L.traffic_answer_other r hs, L.responses_answer_other r hc]
      exact h.sent x hx
  · intro x hx hl
    rcases hk.eq_hold_or hx hm with rfl | ⟨hc, hs⟩
    · change ((L.answer m r).traffic m.stream).live = true at hl
      change ((L.answer m r).traffic m.stream).down = replies ((L.answer m r).responses m.sender) ∧
        none ∉ (L.answer m r).responses m.sender
      rw [hk.traffic_answer_own hm] at hl ⊢
      rw [responses_answer_own]
      cases hlive : (L.traffic m.stream).live with
      | false => exact absurd hl (by simp [Traffic.answer_of_not_live hlive r])
      | true =>
          obtain ⟨hd, hup⟩ := h.reply hm hlive r
          exact ⟨hd, fun hn => by simp [Traffic.live, hup.mpr hn] at hl⟩
    · rw [L.traffic_answer_other r hs] at hl ⊢
      rw [L.responses_answer_other r hc]
      exact h.live x hx hl

theorem Delivered.step (h : L.Delivered) (hk : L.Kept) (hh : L.Held) (hs : L.Step a L') :
    L'.Delivered := by
  cases hs with
  | mark | stop | connect | turnAway | reap | pull | heed | letGo =>
      exact ⟨h.stranger, h.sent, h.live⟩
  | @sever traffic htraffic =>
      refine h.quiet rfl rfl (fun i => ?_) (fun i hl => ?_) fun i hi => ?_
      · change (traffic i).down = (L.traffic i).down
        rcases htraffic i with ht | ⟨-, ht⟩
        · rw [ht]
        · rw [ht, Traffic.hangUp]
      · change (traffic i).live = true at hl
        rcases htraffic i with ht | ⟨-, ht⟩
        · exact ht ▸ hl
        · rw [ht, Traffic.live_hangUp] at hl
          exact absurd hl (by simp)
      · rcases htraffic i with ht | ⟨⟨k, hk', rfl⟩, -⟩
        · exact congrArg Traffic.hungUp ht
        · exact absurd (List.mem_map.mpr ⟨k.hold, hk.connection_accepted k hk', rfl⟩) hi
  | close =>
      exact h.onStream (f := Traffic.close) (fun _ => rfl) (by simp [Traffic.close, Traffic.live])
        (.inr fun _ => rfl)
  | @cutOff w m queue hv =>
      have hm : m.hold ∈ L.accepted := hh.in_hand hv (List.mem_singleton_self m)
      exact h.onStream (f := Traffic.hangUp) (fun _ => rfl) (by simp [Traffic.live_hangUp])
        (.inl (List.mem_map.mpr ⟨m.hold, hm, rfl⟩))
  | @send i bytes =>
      exact h.onStream (f := fun l => { l with up := l.up.send bytes }) (fun _ => rfl) (fun _ => id)
        (.inr fun _ => rfl)
  | accept hw => exact h.accept hk hh hw _ _
  | @read k w c bytes up =>
      have hr := h.onStream (i := c.stream) (f := ({ · with up })) (fun _ => rfl) (fun _ => id)
        (.inr fun _ => rfl)
      exact ⟨hr.stranger, hr.sent, hr.live⟩
  | @answer v m queue payload response hv =>
      have hm : m.hold ∈ L.accepted := hh.in_hand hv (List.mem_singleton_self m)
      have ha := h.answer hk hm response
      exact ⟨ha.stranger, ha.sent, ha.live⟩

/-- A stream that no more can be sent on stays as it is. -/
theorem Step.not_live (h : L.Step a L') {i : StreamId} (hl : (L.traffic i).live = false) :
    (L'.traffic i).down = (L.traffic i).down ∧ (L'.traffic i).live = false := by
  have hstream : ∀ {L : Ledger} (j : StreamId) (f : Traffic → Traffic),
      (L.traffic i).live = false →
      (∀ l, l.live = false → (f l).down = l.down ∧ (f l).live = false) →
      ((L.onStream j f).traffic i).down = (L.traffic i).down ∧
        ((L.onStream j f).traffic i).live = false := by
    intro L j f hl hf
    rcases L.traffic_onStream j i f with ht | ⟨-, ht⟩
    · rw [ht]
      exact ⟨rfl, hl⟩
    · rw [ht]
      exact hf _ hl
  cases h with
  | mark | stop | connect | turnAway | accept | reap | pull | heed | letGo => exact ⟨rfl, hl⟩
  | @sever traffic htraffic =>
      change (traffic i).down = (L.traffic i).down ∧ (traffic i).live = false
      rcases htraffic i with ht | ⟨-, ht⟩
      · rw [ht]
        exact ⟨rfl, hl⟩
      · rw [ht]
        exact ⟨rfl, Traffic.live_hangUp _⟩
  | close =>
      exact hstream _ Traffic.close hl fun l _ => ⟨rfl, by simp [Traffic.close, Traffic.live]⟩
  | cutOff => exact hstream _ Traffic.hangUp hl fun l _ => ⟨rfl, Traffic.live_hangUp l⟩
  | @send j bytes =>
      exact hstream j (fun l => { l with up := l.up.send bytes }) hl fun _ h => ⟨rfl, h⟩
  | @read k w c bytes up => exact hstream c.stream ({ · with up }) hl fun _ h => ⟨rfl, h⟩
  | @answer v m queue payload r =>
      exact hstream m.stream (Traffic.answer r) hl fun _ h => Traffic.answer_of_not_live h r

/-! ## Clients that are not hung up on -/

/-- Whether an action may happen where the receiver hangs up on its clients only after a hard
request, or when it has none, and no write fails while the stream is open at both ends. -/
def Allows (L : Ledger) : Action → Prop
  | .sever => L.hard = true ∨ L.connections = []
  | .failWrite w => ∀ queue m, L.workers[w]? = some ⟨queue, .served m⟩ →
      (L.traffic m.stream).live = false
  | _ => True

/-- Before a hard request, a client that still has its end is hung up on only for a payload that was
no request, and all responses up to that one have been sent. -/
def Spared (L : Ledger) : Prop :=
  L.hard = false → ∀ x ∈ L.accepted, (L.traffic x.stream).clientOpen = true →
    (L.traffic x.stream).hungUp = true →
      (L.traffic x.stream).down = replies (L.responses x.client) ∧ none ∈ L.responses x.client

/-- A change that hangs up on nobody who is spared. -/
theorem Spared.onStream (h : L.Spared) {i : StreamId} {f : Traffic → Traffic}
    (hdown : ∀ l, (f l).down = l.down)
    (hup : (f (L.traffic i)).clientOpen = true → (f (L.traffic i)).hungUp = true →
      (L.traffic i).clientOpen = true ∧ (L.traffic i).hungUp = true) : (L.onStream i f).Spared := by
  intro hhard x hx hopen hhung
  rcases L.traffic_onStream i x.stream f with ht | ⟨he, ht⟩
  · rw [ht] at hopen hhung ⊢
    exact h hhard x hx hopen hhung
  · rw [ht] at hopen hhung ⊢
    rw [hdown]
    rw [he] at hopen hhung
    obtain ⟨hopen, hhung⟩ := hup hopen hhung
    rw [← he] at hopen hhung
    exact h hhard x hx hopen hhung

theorem Spared.answer (h : L.Spared) (hd : L.Delivered) (hk : L.Kept) {m : Message}
    (hm : m.hold ∈ L.accepted) (r : Option Bytes) : (L.answer m r).Spared := by
  intro hhard x hx hopen hhung
  rcases hk.eq_hold_or hx hm with rfl | ⟨hc, hs⟩
  · change ((L.answer m r).traffic m.stream).clientOpen = true at hopen
    change ((L.answer m r).traffic m.stream).hungUp = true at hhung
    change ((L.answer m r).traffic m.stream).down = replies ((L.answer m r).responses m.sender) ∧
      none ∈ (L.answer m r).responses m.sender
    rw [hk.traffic_answer_own hm] at hopen hhung ⊢
    rw [responses_answer_own]
    cases hl : (L.traffic m.stream).live with
    | true =>
        obtain ⟨hdown, hup⟩ := hd.reply hm hl r
        exact ⟨hdown, hup.mp hhung⟩
    | false =>
        rw [Traffic.clientOpen_answer] at hopen
        have hwas : (L.traffic m.stream).hungUp = true := by simpa [Traffic.live, hopen] using hl
        obtain ⟨hdown, hnone⟩ := h hhard m.hold hm hopen hwas
        have hnone : none ∈ L.responses m.sender := hnone
        rw [(Traffic.answer_of_not_live hl r).1, replies_concat_of_mem hnone]
        exact ⟨hdown, List.mem_append_left _ hnone⟩
  · rw [L.traffic_answer_other r hs] at hopen hhung ⊢
    rw [L.responses_answer_other r hc]
    exact h hhard x hx hopen hhung

theorem Spared.step (h : L.Spared) (hd : L.Delivered) (hk : L.Kept) (hh : L.Held)
    (ha : L.Allows a) (hs : L.Step a L') : L'.Spared := by
  cases hs with
  | mark | connect | turnAway | reap | pull | heed | letGo => exact h
  | stop => exact fun hhard => absurd hhard (by simp)
  | @sever traffic htraffic =>
      intro hhard x hx hopen hhung
      have hnone : L.connections = [] := ha.resolve_left (by simp [show L.hard = false from hhard])
      have ht : traffic x.stream = L.traffic x.stream :=
        (htraffic x.stream).resolve_right (by simp [hnone])
      change (traffic x.stream).clientOpen = true at hopen
      change (traffic x.stream).hungUp = true at hhung
      change (traffic x.stream).down = replies (L.responses x.client) ∧ none ∈ L.responses x.client
      rw [ht] at hopen hhung ⊢
      exact h hhard x hx hopen hhung
  | close =>
      refine h.onStream (f := Traffic.close) (fun _ => rfl) fun hopen => ?_
      exact absurd hopen (by simp [Traffic.close])
  | @cutOff w m queue hv =>
      refine h.onStream (f := Traffic.hangUp) (fun _ => rfl) fun hopen _ => ⟨hopen, ?_⟩
      have hl := ha queue m hv
      have hopen : (L.traffic m.stream).clientOpen = true := hopen
      simpa [Traffic.live, hopen] using hl
  | @send i bytes =>
      exact h.onStream (f := fun l => { l with up := l.up.send bytes }) (fun _ => rfl)
        fun ho hu => ⟨ho, hu⟩
  | @accept i waiting hw =>
      intro hhard x hx hopen hhung
      rcases List.mem_append.mp hx with hx | hx
      · exact h hhard x hx hopen hhung
      · rw [List.mem_singleton.mp hx] at hhung
        have hnew := (hd.stranger i (hk.stream_not_mem hw)).2
        exact absurd (hhung : (L.traffic i).hungUp = true) (by simp [hnew])
  | @read k w c bytes up =>
      exact h.onStream (i := c.stream) (f := ({ · with up })) (fun _ => rfl) fun ho hu => ⟨ho, hu⟩
  | @answer v m queue payload response hv =>
      have hm : m.hold ∈ L.accepted := hh.in_hand hv (List.mem_singleton_self m)
      exact h.answer hd hk hm response

end Ledger

end FileDepot
