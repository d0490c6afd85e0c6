import FileDepot.Proofs.Server.Holds
import FileDepot.Proofs.Store.Locks

/-! # Locks are released once, after the last hold

A client is busy while there is a hold on its behalf. The invariant of a run says of each accepted
client that it is busy, or that its locks are about to be released, or that they have been, and
that just one of the three is the case. Only busy clients can be given locks. The one exception is a
client whose last hold was that of a receiver that has fallen: it is never released. -/

namespace FileDepot

/-- Whether an event is the release of a client's locks. -/
def Event.releases (c : ClientId) : Event → Bool
  | .released id => id = c
  | _ => false

namespace Server

/-- How many times the locks of a client have been released. -/
def releases (s : Server) (c : ClientId) : Nat :=
  s.journal.countP (Event.releases c)

theorem releases_note (s : Server) (e : Event) (c : ClientId) :
    (s.note e).releases c = s.releases c + if e.releases c then 1 else 0 := by
  rw [releases, releases, note, List.countP_append, List.countP_singleton]

theorem mem_note {s : Server} {e e' : Event} :
    e' ∈ (s.note e).journal ↔ e' ∈ s.journal ∨ e' = e := by
  simp [note]

/-- The clients whose connections a fallen receiver has let go of. -/
def lost (s : Server) : List ClientId :=
  (s.connections.map Connection.id).take (s.fallen.getD 0)

theorem lost_of_standing {s : Server} (h : s.fallen = none) : s.lost = [] := by
  rw [lost, h]
  rfl

/-- A fallen receiver has let go of a client, and its locks are not released. -/
def Forsaken (s : Server) (leaving : List ClientId) (c : ClientId) : Prop :=
  c ∈ s.lost ∧ s.releases c = 0 ∧ c ∉ leaving

/-- Only clients that are busy, about to be released or forsaken hold locks. -/
def Locks (s : Server) (leaving : List ClientId) (store : Store) : Prop :=
  ∃ fs, store.Tracks fs ∧
    ∀ f ∈ fs, ∀ c, f.lockOwner = some c → s.Busy c ∨ c ∈ leaving ∨ s.Forsaken leaving c

/-- What holds between any two actions of a run. -/
structure Sound (s : Server) (leaving : List ClientId) : Prop where
  staffed : 0 < s.workers.length
  accounted : Accounted s.streams s.waiting s.holds s.nextId
  connections_nodup : (s.connections.map Connection.id).Nodup
  reaped : ∀ c, .reaped c ∈ s.journal →
    c.number < s.nextId ∧ c ∉ s.connections.map Connection.id
  busy : ∀ c, s.Busy c → s.releases c = 0 ∧ c ∉ leaving
  gone : ∀ c : ClientId, c.number < s.nextId → ¬ s.Busy c →
    s.releases c + leaving.count c = 1 ∨ s.Forsaken leaving c
  unknown : ∀ c : ClientId, s.nextId ≤ c.number → s.releases c = 0 ∧ c ∉ leaving
  locks : s.Locks leaving s.store

variable {s t : Server} {leaving : List ClientId}

theorem Forsaken.mono {leaving' : List ClientId} {c : ClientId} (h : s.Forsaken leaving c)
    (hlost : ∀ c ∈ s.lost, c ∈ t.lost) (hr : t.releases c = s.releases c)
    (hl : c ∈ leaving' → c ∈ leaving) : t.Forsaken leaving' c :=
  ⟨hlost c h.1, hr.trans h.2.1, mt hl h.2.2⟩

/-- Where the same clients are busy and lost and as many releases have been noted, all accounts of
clients are as before. -/
theorem Sound.of_busy_iff (h : s.Sound leaving) (hw : 0 < t.workers.length)
    (ha : Accounted t.streams t.waiting t.holds t.nextId)
    (hn : (t.connections.map Connection.id).Nodup)
    (hreap : ∀ c, .reaped c ∈ t.journal →
      c.number < s.nextId ∧ c ∉ t.connections.map Connection.id)
    (hid : t.nextId = s.nextId) (hb : ∀ c, t.Busy c ↔ s.Busy c) (hlost : t.lost = s.lost)
    (hr : ∀ c, t.releases c = s.releases c) (hl : t.store = s.store) : t.Sound leaving where
  staffed := hw
  accounted := ha
  connections_nodup := hn
  reaped := by rwa [hid]
  busy c hc := by
    rw [hr]
    exact h.busy c ((hb c).mp hc)
  gone c hlt hc := by
    rw [hr, Forsaken, hlost, hr]
    exact h.gone c (hid ▸ hlt) (mt (hb c).mpr hc)
  unknown c hle := by
    rw [hr]
    exact h.unknown c (hid ▸ hle)
  locks := by
    obtain ⟨fs, ht, hf⟩ := h.locks
    rw [hl]
    refine ⟨fs, ht, fun f hm c ho => ?_⟩
    rw [hb, Forsaken, hlost, hr]
    exact hf f hm c ho

/-! ## Streams, connections and notes -/

theorem Sound.of_accounted (h : s.Sound leaving) {streams : List Duplex} {waiting : List StreamId}
    (ha : Accounted streams waiting s.holds s.nextId) : { s with streams, waiting }.Sound leaving :=
  ⟨h.staffed, ha, h.connections_nodup, h.reaped, h.busy, h.gone, h.unknown, h.locks⟩

theorem Sound.stir (h : s.Sound leaving) (i : StreamId) {change : Duplex → Duplex}
    (hc : ∀ d, s.streams[i]? = some d → (change d).holders = d.holders) :
    (s.onStream i change).Sound leaving :=
  h.of_accounted (h.accounted.stir hc)

theorem Sound.connect (h : s.Sound leaving) : s.connect.2.Sound leaving :=
  h.of_accounted h.accounted.connect

theorem Sound.clientSend (h : s.Sound leaving) {i : StreamId} {bytes : Bytes} {t : Server}
    (ht : s.clientSend i bytes = some t) : t.Sound leaving := by
  obtain ⟨d, hd, rfl⟩ := Option.map_eq_some_iff.mp ht
  obtain ⟨old, ho, hs⟩ := Option.bind_eq_some_iff.mp hd
  apply h.stir
  intro e he
  obtain rfl : old = e := Option.some.inj (ho.symm.trans he)
  unfold Duplex.clientSend at hs
  split at hs
  · rw [← Option.some.inj hs]
  · simp at hs

theorem Sound.clientReceive (h : s.Sound leaving) (i : StreamId) :
    (s.clientReceive i).2.2.Sound leaving := by
  unfold Server.clientReceive
  cases hd : s.stream? i with
  | none => exact h
  | some d =>
      apply h.stir
      intro e he
      obtain rfl : d = e := Option.some.inj (hd.symm.trans he)
      rfl

/-- Connections may change in everything but their holds. -/
theorem Sound.withConnections (h : s.Sound leaving) {cs : List Connection}
    (hh : cs.map Connection.hold = s.connections.map Connection.hold) :
    (s.withConnections cs).Sound leaving := by
  have hids : cs.map Connection.id = s.connections.map Connection.id := by
    have hc := congrArg (List.map Hold.client) hh
    rwa [List.map_map, List.map_map] at hc
  have hholds : (s.withConnections cs).holds = s.holds := by
    have hheld : (cs.drop (s.fallen.getD 0)).map Connection.hold =
        (s.connections.drop (s.fallen.getD 0)).map Connection.hold := by
      rw [List.map_drop, hh, List.map_drop]
    exact congrArg (· ++ _) hheld
  have hlost : (s.withConnections cs).lost = s.lost :=
    congrArg (List.take (s.fallen.getD 0)) hids
  have hp := List.Perm.of_eq hholds
  refine h.of_busy_iff h.staffed (h.accounted.perm hp) ?_ ?_ rfl (busy_of_perm hp) hlost
    (fun _ => rfl) rfl
  · exact hids ▸ h.connections_nodup
  · intro c hc
    rw [connections_withConnections, hids]
    exact h.reaped c hc

theorem Sound.killAt (h : s.Sound leaving) (k : Nat) : (s.killAt k).Sound leaving := by
  apply h.withConnections
  exact map_modify_eq fun _ _ => rfl

theorem Sound.sever (h : s.Sound leaving) : s.sever.Sound leaving := by
  refine sever_ind (P := fun t => t.Sound leaving) h (fun _ i h => h.stir i fun _ _ => rfl) ?_
  intro s h
  apply h.withConnections
  rw [List.map_map]
  rfl

/-- A note that neither reaps nor releases. -/
theorem Sound.note (h : s.Sound leaving) (e : Event) (hr : ∀ c, e ≠ .reaped c)
    (hn : ∀ c, e.releases c = false) : (s.note e).Sound leaving := by
  refine h.of_busy_iff h.staffed h.accounted h.connections_nodup ?_ rfl (fun _ => .rfl) rfl ?_ rfl
  · intro c hc
    exact h.reaped c ((mem_note.mp hc).resolve_right (hr c).symm)
  · intro c
    rw [releases_note, hn]
    rfl

/-! ## The receiver -/

theorem holds_dispatch (hw : 0 < s.workers.length) (m : Message) :
    (s.dispatch m).holds.Perm (m.hold :: s.holds) := by
  obtain ⟨w, dice, hlt, he⟩ := dispatch_eq_post hw m
  have hp := (messages_post (s := { s with dice }) hlt m).map Message.hold
  rw [he]
  exact (hp.append_left _).trans List.perm_middle

/-- Dispatching a message accounts for its hold, and for nothing else. -/
theorem Sound.of_dispatch {m : Message} (h : s.Sound leaving) (ht : 0 < t.workers.length)
    (ha : Accounted t.streams t.waiting (m.hold :: t.holds) t.nextId)
    (hn : (t.connections.map Connection.id).Nodup)
    (hreap : ∀ c, .reaped c ∈ t.journal →
      c.number < s.nextId ∧ c ∉ t.connections.map Connection.id)
    (hid : t.nextId = s.nextId) (hb : ∀ c, t.Busy c ∨ m.sender = c ↔ s.Busy c)
    (hlost : t.lost = s.lost) (hr : ∀ c, t.releases c = s.releases c) (hl : t.store = s.store) :
    (t.dispatch m).Sound leaving := by
  have hp := holds_dispatch ht m
  have hbusy : ∀ c, (t.dispatch m).Busy c ↔ s.Busy c := by
    intro c
    rw [← hb, or_comm]
    simp only [Busy, hp.mem_iff, List.mem_cons, exists_eq_or_imp]
    rfl
  obtain ⟨w, dice, hlt, he⟩ := dispatch_eq_post ht m
  rw [he] at hp hbusy ⊢
  refine h.of_busy_iff ?_ (ha.perm hp) hn ?_ hid hbusy hlost ?_ hl
  · exact (length_workers_onWorker { t with dice } w _).symm ▸ ht
  · intro c hc
    exact hreap c ((mem_note.mp hc).resolve_right (by simp))
  · intro c
    rw [post, releases_note, ← hr]
    rfl

/-- A connection passes one more hold on with a request. -/
theorem Sound.holdAndDispatch (h : s.Sound leaving) {m : Message} (hm : m.hold ∈ s.holds) :
    ((s.onStream m.stream Duplex.hold).dispatch m).Sound leaving := by
  refine h.of_dispatch h.staffed (h.accounted.hold hm) h.connections_nodup h.reaped rfl ?_ rfl
    (fun _ => rfl) rfl
  intro c
  exact or_iff_left_of_imp fun hc => ⟨m.hold, hm, hc⟩

/-- A receiver that falls has not let go of anything yet. -/
theorem Sound.fall (h : s.Sound leaving) (hf : s.fallen = none) : s.fall.Sound leaving := by
  have hholds : s.fall.holds = s.holds := (holds_of_standing hf).symm
  have hp := List.Perm.of_eq hholds
  exact h.of_busy_iff h.staffed (h.accounted.perm hp) h.connections_nodup h.reaped rfl
    (busy_of_perm hp) (lost_of_standing hf).symm (fun _ => rfl) rfl

theorem Sound.readAt (h : s.Sound leaving) (hf : s.fallen = none) (k : Nat) :
    (s.readAt k).Sound leaving := by
  unfold Server.readAt
  cases hk : s.connections[k]? with
  | none => exact h
  | some c =>
      simp only
      split
      · obtain ⟨hhold, hcases⟩ := read_cases s c
        have hsame : (s.connections.set k (s.read c).1).map Connection.hold =
            s.connections.map Connection.hold := map_set_eq hk hhold
        rcases hcases with he | ⟨change, hc, he | he | ⟨payload, he⟩⟩
        · rw [he]
          exact h.withConnections hsame
        · rw [he]
          exact (h.stir c.stream fun d _ => hc d).withConnections hsame
        · rw [he]
          exact ((h.stir c.stream fun d _ => hc d).fall hf).withConnections hsame
        · have hm : c.hold ∈ s.holds := by
            rw [holds_of_standing hf]
            exact List.mem_append_left _ (List.mem_map_of_mem (List.mem_of_getElem? hk))
          have hd := (h.stir c.stream fun d _ => hc d).holdAndDispatch
            (m := ⟨c.id, c.stream, .request payload⟩) hm
          rw [he]
          apply hd.withConnections
          rw [hsame, connections_dispatch]
          rfl
      · exact h

theorem Sound.reapAt (h : s.Sound leaving) (hf : s.fallen = none) (k : Nat) :
    (s.reapAt k).Sound leaving := by
  unfold Server.reapAt
  cases hk : s.connections[k]? with
  | none => exact h
  | some c =>
      simp only
      split
      · -- The hold passes from the connection to its hang-up: the same clients stay busy.
        have hperm : (c :: s.connections.eraseIdx k).Perm s.connections := cons_eraseIdx_perm hk
        have hids := hperm.map Connection.id
        have hholds : (c.hold :: { s with connections := s.connections.eraseIdx k }.holds).Perm
            s.holds := by
          have hrest :=
            holds_of_standing (s := { s with connections := s.connections.eraseIdx k }) hf
          rw [hrest, holds_of_standing hf]
          exact (hperm.map Connection.hold).append_right _
        have hnodup : (c.id :: (s.connections.eraseIdx k).map Connection.id).Nodup :=
          hids.nodup_iff.mpr h.connections_nodup
        obtain ⟨hnot, hn⟩ := List.nodup_cons.mp hnodup
        have hlost : ({ s with connections := s.connections.eraseIdx k }.note
            (.reaped c.id)).lost = s.lost := by
          rw [lost_of_standing hf]
          exact lost_of_standing hf
        refine h.of_dispatch h.staffed (h.accounted.perm hholds) hn ?_ rfl ?_ hlost ?_ rfl
        · intro d hd
          rcases mem_note.mp hd with hd | hd
          · obtain ⟨hlt, hmem⟩ := h.reaped d hd
            exact ⟨hlt, fun hm => hmem (hids.subset (List.mem_cons_of_mem _ hm))⟩
          · obtain rfl : d = c.id := Event.reaped.inj hd
            exact ⟨h.accounted.client_lt c.hold (hholds.subset (by simp)), hnot⟩
        · intro d
          rw [or_comm]
          simp only [Busy, ← hholds.mem_iff, List.mem_cons, exists_eq_or_imp]
          rfl
        · intro d
          rw [releases_note]
          rfl
      · exact h

/-- A client that waited is let go, and had no hold that counts. -/
theorem Sound.turnAway (h : s.Sound leaving) : s.turnAway.Sound leaving := by
  unfold Server.turnAway
  cases hw : s.waiting with
  | nil => exact h
  | cons i waiting =>
      have ha := h.accounted
      rw [hw] at ha
      exact h.of_accounted ha.turnAway

/-- The server with one more connection. -/
def welcome (s : Server) (c : Connection) : Server :=
  { s with connections := s.connections ++ [c], nextId := s.nextId + 1 }.note
    (.accepted c.id c.stream)

/-- The number of an accepted client is new, so nothing is known of it. -/
theorem Sound.welcome {i : StreamId} {waiting : List StreamId} (h : s.Sound leaving)
    (hstands : s.fallen = none) (hw : s.waiting = i :: waiting) {c : Connection}
    (hc : c.hold = ⟨⟨s.nextId⟩, i⟩) :
    ((s.withWaiting waiting).welcome c).Sound leaving := by
  have hid : c.id = ⟨s.nextId⟩ := congrArg Hold.client hc
  have hconn : ((s.withWaiting waiting).welcome c).connections = s.connections ++ [c] := rfl
  have hmsgs : ((s.withWaiting waiting).welcome c).messages = s.messages := rfl
  have hholds : ((s.withWaiting waiting).welcome c).holds.Perm (⟨⟨s.nextId⟩, i⟩ :: s.holds) := by
    rw [holds_of_standing hstands,
      holds_of_standing (s := (s.withWaiting waiting).welcome c) hstands, hconn, hmsgs,
      List.map_append, List.append_assoc, ← hc]
    exact List.perm_middle
  have hbusy : ∀ d, ((s.withWaiting waiting).welcome c).Busy d ↔ c.id = d ∨ s.Busy d := by
    intro d
    simp only [Busy, hholds.mem_iff, List.mem_cons, exists_eq_or_imp, hid]
  have hreleases : ∀ d, ((s.withWaiting waiting).welcome c).releases d = s.releases d := by
    intro d
    rw [Server.welcome, releases_note]
    rfl
  have ha := h.accounted
  rw [hw] at ha
  have hnew : ∀ d ∈ s.connections.map Connection.id, d.number < s.nextId := by
    intro d hd
    obtain ⟨k, hk, rfl⟩ := List.mem_map.mp hd
    refine h.accounted.client_lt k.hold ?_
    rw [holds_of_standing hstands]
    exact List.mem_append_left _ (List.mem_map_of_mem hk)
  have hforsaken : ∀ d, ¬ s.Forsaken leaving d := by
    intro d hd
    exact absurd hd.1 (lost_of_standing hstands ▸ List.not_mem_nil)
  refine ⟨h.staffed, ha.accept.perm hholds, ?_, ?_, ?_, ?_, ?_, ?_⟩
  · rw [hconn, List.map_append, List.nodup_append]
    refine ⟨h.connections_nodup, by simp, ?_⟩
    intro d hd e he hde
    have hlt := hnew d hd
    rw [hde, List.mem_singleton.mp he, hid] at hlt
    exact Nat.lt_irrefl _ hlt
  · intro d hd
    obtain ⟨hlt, hnot⟩ := h.reaped d ((mem_note.mp hd).resolve_right (by simp))
    refine ⟨Nat.lt_succ_of_lt hlt, ?_⟩
    rw [hconn, List.map_append, List.mem_append, not_or]
    refine ⟨hnot, ?_⟩
    intro hd
    rw [List.mem_singleton.mp hd, hid] at hlt
    exact Nat.lt_irrefl _ hlt
  · intro d hd
    rw [hreleases]
    rcases (hbusy d).mp hd with rfl | hd
    · exact hid ▸ h.unknown _ (Nat.le_refl _)
    · exact h.busy d hd
  · intro d hlt hd
    rw [hreleases]
    obtain ⟨hne, hnb⟩ := not_or.mp (mt (hbusy d).mpr hd)
    refine .inl ((h.gone d (Nat.lt_of_le_of_ne (Nat.le_of_lt_succ hlt) ?_) hnb).resolve_right
      (hforsaken d))
    intro he
    exact hne (hid.trans (congrArg ClientId.mk he.symm))
  · intro d hle
    rw [hreleases]
    exact h.unknown d (Nat.le_of_succ_le hle)
  · obtain ⟨fs, ht, hf⟩ := h.locks
    refine ⟨fs, ht, fun f hm d hd => ?_⟩
    rcases hf f hm d hd with hb | hl | hd
    · exact .inl ((hbusy d).mpr (.inr hb))
    · exact .inr (.inl hl)
    · exact absurd hd (hforsaken d)

theorem Sound.acceptNext (h : s.Sound leaving) (hf : s.fallen = none) :
    s.acceptNext.Sound leaving := by
  have hturn := h.turnAway
  unfold Server.acceptNext Server.accept
  unfold Server.turnAway at hturn
  cases hw : s.waiting with
  | nil => exact h
  | cons i waiting =>
      simp only [hw] at hturn ⊢
      split
      · exact hturn
      · exact h.welcome hf hw rfl

/-- A hold goes with a fallen receiver. If it was the last one, its client is forsaken. -/
theorem Sound.of_lost (h : s.Sound leaving) {c : ClientId} (ht : 0 < t.workers.length)
    (ha : Accounted t.streams t.waiting t.holds t.nextId) (hc : t.connections = s.connections)
    (hj : t.journal = s.journal) (hid : t.nextId = s.nextId) (hs : t.store = s.store)
    (hb : ∀ d, s.Busy d ↔ c = d ∨ t.Busy d) (hlost : t.lost = s.lost ++ [c]) : t.Sound leaving := by
  have hreleases : ∀ d, t.releases d = s.releases d := by
    intro d
    rw [releases, hj]
    rfl
  have hkeep : ∀ d, s.Forsaken leaving d → t.Forsaken leaving d := fun d hd =>
    hd.mono (fun d hd => hlost ▸ List.mem_append_left _ hd) (hreleases d) id
  have hgone : ∀ d, s.Busy d → ¬ t.Busy d → t.Forsaken leaving d := by
    intro d hd hnd
    obtain ⟨hr, hl⟩ := h.busy d hd
    obtain rfl := ((hb d).mp hd).resolve_right hnd
    exact ⟨hlost ▸ List.mem_append_right _ (by simp), (hreleases _).trans hr, hl⟩
  refine ⟨ht, ha, hc ▸ h.connections_nodup, by rw [hc, hj, hid]; exact h.reaped, ?_, ?_, ?_, ?_⟩
  · intro d hd
    rw [hreleases]
    exact h.busy d ((hb d).mpr (.inr hd))
  · intro d hlt hnd
    rw [hreleases]
    by_cases hd : s.Busy d
    · exact .inr (hgone d hd hnd)
    · exact (h.gone d (hid ▸ hlt) hd).imp_right (hkeep d)
  · intro d hle
    rw [hreleases]
    exact h.unknown d (hid ▸ hle)
  · obtain ⟨fs, htr, hf⟩ := h.locks
    rw [hs]
    refine ⟨fs, htr, fun f hm d ho => ?_⟩
    rcases hf f hm d ho with hd | hl | hd
    · by_cases hnd : t.Busy d
      · exact .inl hnd
      · exact .inr (.inr (hgone d hd hnd))
    · exact .inr (.inl hl)
    · exact .inr (.inr (hkeep d hd))

theorem Sound.forsakeNext (h : s.Sound leaving) : s.forsakeNext.Sound leaving := by
  rcases s.forsakeNext_cases with he | ⟨n, c, hf, hc, he⟩
  · rw [he]
    exact h
  · have hholds : s.holds = c.hold :: s.forsakeNext.holds := by
      obtain ⟨hlt, hget⟩ := List.getElem?_eq_some_iff.mp hc
      rw [he, holds, held, hf, Option.getD_some, List.drop_eq_getElem_cons hlt, hget]
      rfl
    have hlost : s.forsakeNext.lost = s.lost ++ [c.id] := by
      have hnext : (s.connections.map Connection.id).take (n + 1) =
          (s.connections.map Connection.id).take n ++ [c.id] := by
        rw [List.take_add_one, List.getElem?_map, hc]
        rfl
      rw [he, lost, lost, hf, Option.getD_some]
      exact hnext
    have hbusy : ∀ d, s.Busy d ↔ c.id = d ∨ s.forsakeNext.Busy d := by
      intro d
      simp only [Busy, hholds, List.mem_cons, exists_eq_or_imp]
      rfl
    have ha := h.accounted
    rw [hholds] at ha
    rw [he] at ha hlost hbusy ⊢
    exact h.of_lost h.staffed ha.letGo rfl rfl rfl rfl hbusy hlost

/-! ## The workers -/

/-- Moving a message from a queue to a hand, or within one, lets go of nothing. -/
theorem Sound.onWorker (h : s.Sound leaving) {w : Nat} {x : Worker} (hx : s.workers[w]? = some x)
    (change : Worker → Worker) (hm : (change x).messages = x.messages) :
    (s.onWorker w change).Sound leaving := by
  have hp : (s.onWorker w change).holds.Perm s.holds :=
    ((messages_onWorker_same hx change hm).map Message.hold).append_left _
  refine h.of_busy_iff ?_ (h.accounted.perm hp) h.connections_nodup h.reaped rfl (busy_of_perm hp)
    rfl (fun _ => rfl) rfl
  rw [length_workers_onWorker]
  exact h.staffed

theorem Sound.look (h : s.Sound leaving) (w : Nat) : (s.look w).2.Sound leaving := by
  unfold Server.look Server.pull?
  cases s.hard with
  | true => exact h
  | false =>
      rcases hw : s.workers[w]? with _ | ⟨_ | ⟨m, queue⟩, _ | m' | m'⟩
      case false.some.cons.idle => exact h.onWorker hw (fun _ => ⟨queue, .serving m⟩) rfl
      all_goals exact h

/-- Only a busy client is given locks. -/
theorem Sound.withStore (h : s.Sound leaving) {c : ClientId} (hc : s.Busy c) (request : Request) :
    { s with store := (s.store.respond c request).2 }.Sound leaving := by
  refine ⟨h.staffed, h.accounted, h.connections_nodup, h.reaped, h.busy, h.gone, h.unknown, ?_⟩
  obtain ⟨fs, ht, hf⟩ := h.locks
  obtain ⟨gs, hg, hl⟩ := ht.respond c request
  refine ⟨gs, hg, ?_⟩
  intro g hgm d hd
  rcases hl g hgm d hd with ⟨f, hfm, hfd⟩ | rfl
  · exact hf f hfm d hfd
  · exact .inl hc

theorem Sound.answer (h : s.Sound leaving) {m : Message} (hm : s.Busy m.sender) (payload : Bytes) :
    (s.answer m payload).Sound leaving := by
  unfold Server.answer
  cases Request.decode payload with
  | error why =>
      have hs : (s.onStream m.stream Duplex.hangUp).Sound leaving := h.stir _ fun _ _ => rfl
      exact hs.note (.rejected m why) (by simp) fun _ => rfl
  | ok request =>
      have hn := (h.withStore hm request).note
        (.applied m request (s.store.respond m.sender request).1.encode) (by simp) fun _ => rfl
      simp only
      split
      · exact hn
      · apply hn.stir
        intro d _
        unfold Duplex.serverSend
        split <;> rfl

theorem workers_answer (s : Server) (m : Message) (payload : Bytes) :
    (s.answer m payload).workers = s.workers := by
  unfold Server.answer
  cases Request.decode payload with
  | error why => rfl
  | ok request =>
      simp only
      split <;> rfl

theorem busy_of_hand {w : Nat} {queue : List Message} {hand : Hand} {m : Message}
    (hw : s.workers[w]? = some ⟨queue, hand⟩) (hm : hand.messages = [m]) : s.Busy m.sender := by
  refine busy_iff.mpr (.inr ⟨m, ?_, rfl⟩)
  exact List.mem_flatMap.mpr ⟨_, List.mem_of_getElem? hw, by simp [Worker.messages, hm]⟩

theorem Sound.apply (h : s.Sound leaving) (w : Nat) : (s.apply w).Sound leaving := by
  unfold Server.apply
  rcases hw : s.workers[w]? with _ | ⟨queue, _ | m | m⟩
  case some.serving =>
    cases hk : m.work with
    | hangUp =>
        simp only [hk]
        exact h.onWorker hw (fun _ => ⟨queue, .served m⟩) rfl
    | request payload =>
        simp only [hk]
        have ha := h.answer (busy_of_hand hw rfl) payload
        have hx : (s.answer m payload).workers[w]? = some ⟨queue, .serving m⟩ := by
          rw [workers_answer]
          exact hw
        exact ha.onWorker hx (fun _ => ⟨queue, .served m⟩) rfl
  all_goals exact h

theorem Sound.cutOff (h : s.Sound leaving) (w : Nat) : (s.cutOff w).Sound leaving := by
  unfold Server.cutOff
  split
  · exact h.stir _ fun _ _ => rfl
  · exact h

theorem holds_letGo {w : Nat} {queue : List Message} {m : Message}
    (hw : s.workers[w]? = some ⟨queue, .served m⟩) :
    (m.hold :: (s.letGo w).2.holds).Perm s.holds := by
  have hp : ([m] ++ (Worker.mk queue .idle).messages).Perm
      ([] ++ (Worker.mk queue (.served m)).messages) := .refl _
  have hm := (messages_onWorker hw (fun _ => ⟨queue, .idle⟩) hp).map Message.hold
  rw [Server.letGo, hw]
  exact List.perm_middle.symm.trans (hm.append_left _)

/-- A last hold goes: its client is not busy any more, and leaves. -/
theorem Sound.of_last (h : s.Sound leaving) {k : Hold} (hk : k ∈ s.holds)
    (ht : 0 < t.workers.length) (ha : Accounted t.streams t.waiting t.holds t.nextId)
    (hc : t.connections = s.connections) (hfallen : t.fallen = s.fallen)
    (hj : t.journal = s.journal) (hid : t.nextId = s.nextId) (hs : t.store = s.store)
    (hb : ∀ c, s.Busy c ↔ k.client = c ∨ t.Busy c)
    (hlast : ¬ t.Busy k.client) : t.Sound (leaving ++ [k.client]) := by
  have hreleases : ∀ c, t.releases c = s.releases c := by
    intro c
    rw [releases, hj]
    rfl
  have hlost : t.lost = s.lost := by rw [lost, hc, hfallen, lost]
  have hforsaken : ∀ c, c ≠ k.client → s.Forsaken leaving c →
      t.Forsaken (leaving ++ [k.client]) c :=
    fun c hne hc => hc.mono (fun _ => hlost.symm ▸ id) (hreleases c) (by simp [hne])
  obtain ⟨hzero, hnot⟩ := h.busy k.client ⟨k, hk, rfl⟩
  refine ⟨ht, ha, hc ▸ h.connections_nodup, by rw [hc, hj, hid]; exact h.reaped, ?_, ?_, ?_, ?_⟩
  · intro c hbc
    have hne : c ≠ k.client := by
      rintro rfl
      exact hlast hbc
    obtain ⟨hr, hl⟩ := h.busy c ((hb c).mpr (.inr hbc))
    exact ⟨(hreleases c).trans hr, by simp [hl, hne]⟩
  · intro c hlt hnb
    rw [hreleases, List.count_append, List.count_singleton]
    by_cases he : k.client = c
    · subst he
      rw [hzero, List.count_eq_zero.mpr hnot]
      simp
    · have hnbs : ¬ s.Busy c := fun hbs => hnb (((hb c).mp hbs).resolve_left he)
      refine (h.gone c (hid ▸ hlt) hnbs).imp ?_ (hforsaken c (Ne.symm he))
      intro hone
      simpa [he] using hone
  · intro c hle
    obtain ⟨hr, hl⟩ := h.unknown c (hid ▸ hle)
    have hne : c ≠ k.client := by
      rintro rfl
      exact Nat.not_lt.mpr hle (hid ▸ h.accounted.client_lt k hk)
    exact ⟨(hreleases c).trans hr, by simp [hl, hne]⟩
  · obtain ⟨fs, htr, hf⟩ := h.locks
    rw [hs]
    refine ⟨fs, htr, ?_⟩
    intro f hm c ho
    rcases hf f hm c ho with hbs | hl | hc
    · rcases (hb c).mp hbs with rfl | hbt
      · exact .inr (.inl (by simp))
      · exact .inl hbt
    · exact .inr (.inl (List.mem_append_left _ hl))
    · by_cases he : c = k.client
      · exact .inr (.inl (by simp [he]))
      · exact .inr (.inr (hforsaken c he hc))

theorem Sound.letGo (h : s.Sound leaving) (w : Nat) :
    (s.letGo w).2.Sound (leaving ++ (s.letGo w).1.toList) := by
  rcases hw : s.workers[w]? with _ | ⟨queue, _ | m | m⟩
  case some.served =>
    have hp := holds_letGo hw
    have ha := h.accounted.perm hp
    have hbusy : ∀ c, s.Busy c ↔ m.sender = c ∨ (s.letGo w).2.Busy c := by
      intro c
      simp only [Busy, ← hp.mem_iff, List.mem_cons, exists_eq_or_imp]
      rfl
    -- All holds of a client are on its stream, so the stream's last is the client's last.
    have hlast : s.lastHold m.stream ↔ ¬ (s.letGo w).2.Busy m.sender := by
      rw [Busy, not_exists]
      simp only [not_and]
      exact ha.holders_eq_one_iff
    have hlen := length_workers_onWorker (s.onStream m.stream Duplex.drop) w fun _ => ⟨queue, .idle⟩
    have ht : 0 < ((s.onStream m.stream Duplex.drop).onWorker w
        fun _ => ⟨queue, .idle⟩).workers.length := hlen.symm ▸ h.staffed
    have hmem : m.hold ∈ s.holds := hp.subset (List.mem_cons_self ..)
    simp only [Server.letGo, hw] at hbusy hlast ha ⊢
    cases hl : s.lastHold m.stream with
    | true => exact h.of_last hmem ht ha.letGo rfl rfl rfl rfl rfl hbusy (hlast.mp hl)
    | false =>
        have hstill := not_not.mp (mt hlast.mpr (by simp [hl]))
        simp only [Bool.false_eq_true, if_false, Option.toList_none, List.append_nil]
        refine h.of_busy_iff ht ha.letGo h.connections_nodup h.reaped rfl ?_ rfl (fun _ => rfl) rfl
        intro c
        rw [hbusy]
        exact (or_iff_right_of_imp fun he => he ▸ hstill).symm
  all_goals
    simp only [Server.letGo, hw, Option.toList_none, List.append_nil]
    exact h

theorem releases_release (s : Server) (c d : ClientId) :
    (s.release c).releases d = s.releases d + if c = d then 1 else 0 := by
  rw [release, releases_note]
  simp [Event.releases]
  rfl

/-- Whoever leaves is released, and is not about to be any more. -/
theorem Sound.release (h : s.Sound leaving) {k : Nat} {c : ClientId} (hk : leaving[k]? = some c) :
    (s.release c).Sound (leaving.eraseIdx k) := by
  have hperm : (c :: leaving.eraseIdx k).Perm leaving := cons_eraseIdx_perm hk
  have hmem : c ∈ leaving := hperm.subset (List.mem_cons_self ..)
  have hnb : ¬ s.Busy c := fun hb => (h.busy c hb).2 hmem
  have hsub : ∀ d, d ∉ leaving → d ∉ leaving.eraseIdx k :=
    fun d hd hm => hd (hperm.subset (List.mem_cons_of_mem _ hm))
  have hforsaken : ∀ d, s.Forsaken leaving d → (s.release c).Forsaken (leaving.eraseIdx k) d := by
    intro d hd
    have hne : c ≠ d := by
      rintro rfl
      exact hd.2.2 hmem
    exact hd.mono (fun _ => id) (by simp [releases_release, hne]) (not_imp_not.mp (hsub d))
  refine ⟨h.staffed, h.accounted, h.connections_nodup, ?_, ?_, ?_, ?_, ?_⟩
  · intro d hd
    exact h.reaped d ((mem_note.mp hd).resolve_right (by simp))
  · intro d hb
    have hne : c ≠ d := by
      rintro rfl
      exact hnb hb
    obtain ⟨hr, hl⟩ := h.busy d hb
    rw [releases_release, if_neg hne]
    exact ⟨hr, hsub d hl⟩
  · intro d hlt hb
    refine (h.gone d hlt hb).imp ?_ (hforsaken d)
    intro hone
    rw [← hperm.count_eq, List.count_cons] at hone
    rw [releases_release]
    simp only [beq_iff_eq] at hone
    omega
  · intro d hle
    have hne : c ≠ d := by
      rintro rfl
      exact (h.unknown c hle).2 hmem
    obtain ⟨hr, hl⟩ := h.unknown d hle
    rw [releases_release, if_neg hne]
    exact ⟨hr, hsub d hl⟩
  · obtain ⟨fs, ht, hf⟩ := h.locks
    obtain ⟨gs, hg, hl⟩ := ht.release c
    refine ⟨gs, hg, ?_⟩
    intro g hgm d hd
    obtain ⟨⟨f, hfm, hfd⟩, hne⟩ := hl g hgm d hd
    refine (hf f hfm d hfd).imp_right (Or.imp ?_ (hforsaken d))
    intro hdl
    exact (List.mem_cons.mp (hperm.mem_iff.mpr hdl)).resolve_left hne

/-- A client of whom a release has been noted holds no lock: it is neither busy nor leaving. -/
theorem Sound.lockOwner_ne (h : s.Sound leaving) {c : ClientId} (hc : 0 < s.releases c) :
    ∀ f ∈ s.store.files, f.lockOwner ≠ some c := by
  intro f hf hlock
  obtain ⟨fs, ht, hlocks⟩ := h.locks
  rcases hlocks f (ht.files_perm.mem_iff.mp hf) c hlock with hb | hl | hforsaken
  · exact Nat.ne_of_gt hc (h.busy c hb).1
  · have hlt : c.number < s.nextId := Nat.lt_of_not_le fun hle => (h.unknown c hle).2 hl
    have hnot : ¬ s.Forsaken leaving c := fun hd => hd.2.2 hl
    have hone := (h.gone c hlt fun hb => (h.busy c hb).2 hl).resolve_right hnot
    have hcount := List.count_pos_iff.mpr hl
    omega
  · exact Nat.ne_of_gt hc hforsaken.2.1

theorem sound_start (settings : Settings) (maxFiles maxBytes : UInt64) (placement : Placement)
    (policy : Policy) (storeDice dice : Dice) {workers : Nat} (hw : 0 < workers) :
    (Scene.start settings (.empty maxFiles maxBytes placement policy storeDice) workers
      dice).server.Sound [] := by
  have hholds : (Scene.start settings (.empty maxFiles maxBytes placement policy storeDice) workers
      dice).server.holds = [] := by
    have hm : (List.replicate workers ({} : Worker)).flatMap Worker.messages = [] :=
      List.flatMap_eq_nil_iff.mpr fun w hw => by rw [List.eq_of_mem_replicate hw]; rfl
    simp [holds, held, messages, Scene.start, start, hm]
  have ha : Accounted [] [] [] 0 := ⟨by simp, by simp, by simp, by simp, by simp, .nil, by simp⟩
  refine ⟨?_, ha.perm (.of_eq hholds), .nil, ?_, ?_, ?_, ?_, ?_⟩
  · simpa [Scene.start, start] using hw
  · intro c hc
    simp [Scene.start, start] at hc
  · rintro c ⟨k, hk, -⟩
    simp [hholds] at hk
  · intro c hlt
    exact absurd hlt (Nat.not_lt_zero _)
  · exact fun c _ => ⟨rfl, by simp⟩
  · exact ⟨[], Store.tracks_empty .., by simp⟩

/-! ## Who notes releases -/

theorem releases_dispatch (s : Server) (m : Message) (c : ClientId) :
    (s.dispatch m).releases c = s.releases c := by
  unfold dispatch workerFor
  cases s.settings.selection <;> exact releases_note ..

theorem releases_readAt (s : Server) (k : Nat) (c : ClientId) :
    (s.readAt k).releases c = s.releases c := by
  unfold readAt
  cases s.connections[k]? with
  | none => rfl
  | some d =>
      simp only
      split
      · change (s.read d).2.releases c = s.releases c
        rcases (read_cases s d).2 with he | ⟨change, -, he | he | ⟨payload, he⟩⟩
        · rw [he]
        · rw [he]
          rfl
        · rw [he]
          rfl
        · rw [he, releases_dispatch]
          rfl
      · rfl

theorem releases_reapAt (s : Server) (k : Nat) (c : ClientId) :
    (s.reapAt k).releases c = s.releases c := by
  unfold reapAt
  cases s.connections[k]? with
  | none => rfl
  | some d =>
      simp only
      split
      · rw [releases_dispatch, releases_note]
        rfl
      · rfl

theorem releases_acceptNext (s : Server) (c : ClientId) :
    s.acceptNext.releases c = s.releases c := by
  unfold acceptNext accept
  cases s.waiting with
  | nil => rfl
  | cons i waiting =>
      simp only
      split
      · rfl
      · exact releases_note ..

theorem releases_sever (s : Server) (c : ClientId) : s.sever.releases c = s.releases c :=
  sever_ind (P := fun t => t.releases c = s.releases c) rfl (fun _ _ h => h) fun _ h => h

/-- What the receiver does notes no release, if it does not while it stands. -/
theorem releases_receiving {act : Server → Server} {c : ClientId}
    (h : (act s).releases c = s.releases c) : (s.receiving act).releases c = s.releases c :=
  receiving_ind (P := fun t => t.releases c = s.releases c) rfl fun _ => h

theorem releases_forsakeNext (s : Server) (c : ClientId) :
    s.forsakeNext.releases c = s.releases c := by
  rcases s.forsakeNext_cases with he | ⟨n, d, -, -, he⟩ <;> rw [he]
  rfl

theorem releases_answer (s : Server) (m : Message) (payload : Bytes) (c : ClientId) :
    (s.answer m payload).releases c = s.releases c := by
  unfold answer
  cases Request.decode payload with
  | error why => exact releases_note ..
  | ok request =>
      simp only
      split <;> exact releases_note ..

theorem releases_apply (s : Server) (w : Nat) (c : ClientId) :
    (s.apply w).releases c = s.releases c := by
  unfold apply
  split
  · rename_i queue m hw
    cases hk : m.work with
    | hangUp => rfl
    | request payload => exact releases_answer ..
  · rfl

end Server

namespace Scene

variable {r : Scene}

/-- Only a release is noted as one, and only of a client that is leaving. -/
theorem releases_step (r : Scene) (a : Action) (c : ClientId) :
    (r.step a).server.releases c = r.server.releases c ∨
      c ∈ r.leaving ∧ (r.step a).server.releases c = r.server.releases c + 1 := by
  cases a with
  | connect | halfClose | close | closeDoor | stopAll => exact .inl rfl
  | send i bytes =>
      left
      simp only [step]
      cases ht : r.server.clientSend i bytes with
      | none => rfl
      | some t =>
          obtain ⟨d, -, rfl⟩ := Option.map_eq_some_iff.mp ht
          rfl
  | receive i =>
      left
      simp only [step, Server.clientReceive]
      cases r.server.stream? i <;> rfl
  | reap k => exact .inl (Server.releases_receiving (Server.releases_reapAt ..))
  | read k => exact .inl (Server.releases_receiving (Server.releases_readAt ..))
  | accept => exact .inl (Server.releases_receiving (Server.releases_acceptNext ..))
  | sever => exact .inl (Server.releases_receiving (Server.releases_sever ..))
  | failRead => exact .inl (Server.releases_receiving rfl)
  | forsake => exact .inl (Server.releases_forsakeNext ..)
  | pull w =>
      left
      simp only [step, Server.look, Server.pull?]
      split
      · rfl
      · rcases r.server.workers[w]? with _ | ⟨_ | ⟨m, queue⟩, _ | m' | m'⟩ <;> rfl
  | apply w => exact .inl (Server.releases_apply ..)
  | letGo w =>
      left
      simp only [step, Server.letGo]
      rcases r.server.workers[w]? with _ | ⟨queue, _ | m | m⟩ <;> rfl
  | release k =>
      simp only [step]
      cases hk : r.leaving[k]? with
      | none => exact .inl rfl
      | some d =>
          by_cases hd : d = c
          · subst hd
            exact .inr ⟨List.mem_of_getElem? hk, by simp [Server.releases_release]⟩
          · exact .inl (by simp [Server.releases_release, hd])
  | failSetup =>
      left
      simp only [step, Server.turnAway]
      cases r.server.waiting <;> rfl
  | failWrite w =>
      left
      simp only [step, Server.cutOff]
      rcases r.server.workers[w]? with _ | ⟨queue, _ | m | m⟩ <;> rfl

theorem sound_step (h : r.server.Sound r.leaving) (a : Action) :
    (r.step a).server.Sound (r.step a).leaving := by
  have hreceiving : ∀ act : Server → Server, (r.server.fallen = none →
      (act r.server).Sound r.leaving) → (r.server.receiving act).Sound r.leaving :=
    fun _ => Server.receiving_ind (P := fun t => t.Sound r.leaving) h
  cases a with
  | connect => exact h.connect
  | send i bytes =>
      simp only [step]
      cases ht : r.server.clientSend i bytes with
      | none => exact h
      | some t => exact h.clientSend ht
  | halfClose i => exact h.stir i fun _ _ => rfl
  | close i => exact h.stir i fun _ _ => rfl
  | receive i => exact h.clientReceive i
  | closeDoor | stopAll =>
      exact ⟨h.staffed, h.accounted, h.connections_nodup, h.reaped, h.busy, h.gone, h.unknown,
        h.locks⟩
  | reap k => exact hreceiving (·.reapAt k) fun hf => h.reapAt hf k
  | read k => exact hreceiving (·.readAt k) fun hf => h.readAt hf k
  | accept => exact hreceiving _ fun hf => h.acceptNext hf
  | sever => exact hreceiving _ fun _ => h.sever
  | forsake => exact h.forsakeNext
  | pull w => exact h.look w
  | apply w => exact h.apply w
  | letGo w => exact h.letGo w
  | release k =>
      simp only [step]
      cases hk : r.leaving[k]? with
      | none => exact h
      | some c => exact h.release hk
  | failSetup => exact h.turnAway
  | failRead k => exact hreceiving (·.killAt k) fun _ => h.killAt k
  | failWrite w => exact h.cutOff w

theorem sound_run (h : r.server.Sound r.leaving) (actions : List Action) :
    (r.run actions).server.Sound (r.run actions).leaving := by
  induction actions generalizing r with
  | nil => exact h
  | cons a actions ih => exact ih (sound_step h a)

theorem releases_le_run (r : Scene) (actions : List Action) (c : ClientId) :
    r.server.releases c ≤ (r.run actions).server.releases c := by
  induction actions generalizing r with
  | nil => exact Nat.le_refl _
  | cons a actions ih =>
      refine Nat.le_trans ?_ (ih (r.step a))
      rcases releases_step r a c with he | ⟨-, he⟩ <;> omega

/-- In every run, whatever the workers, the selection of them and the order of all actions: no
action notes a release of a client that the receiver still holds, fallen or not, or that has a
message queued or not let go of; and once a client has been reaped and all its messages have been
handled, its locks have been released just once, and no file is locked by it then or later. -/
theorem released_once_after_last_hold (settings : Settings) (maxFiles maxBytes : UInt64)
    (placement : Placement) (policy : Policy) (storeDice dice : Dice) (workers : Nat)
    (hw : 0 < workers) (actions : List Action) :
    let store := Store.empty maxFiles maxBytes placement policy storeDice
    let r := (start settings store workers dice).run actions
    (∀ a c, (r.step a).server.releases c ≠ r.server.releases c →
      (∀ k ∈ r.server.held, k.id ≠ c) ∧ ∀ m ∈ r.server.messages, m.sender ≠ c) ∧
    ∀ c, .reaped c ∈ r.server.journal → (∀ m ∈ r.server.messages, m.sender ≠ c) → c ∉ r.leaving →
      r.server.releases c = 1 ∧
        ∀ later, ∀ f ∈ (r.run later).server.store.files, f.lockOwner ≠ some c := by
  intro store r
  have hsound : r.server.Sound r.leaving := sound_run
    (Server.sound_start settings maxFiles maxBytes placement policy storeDice dice hw) actions
  constructor
  · intro a c hne
    have hl : c ∈ r.leaving := ((releases_step r a c).resolve_left hne).1
    have hb : ¬ r.server.Busy c := fun hb => (hsound.busy c hb).2 hl
    rw [Server.busy_iff, not_or] at hb
    exact ⟨fun k hk he => hb.1 ⟨k, hk, he⟩, fun m hm he => hb.2 ⟨m, hm, he⟩⟩
  · intro c hreaped hmessages hleaving
    obtain ⟨hlt, hnot⟩ := hsound.reaped c hreaped
    have hb : ¬ r.server.Busy c := by
      rw [Server.busy_iff]
      rintro (⟨k, hk, rfl⟩ | ⟨m, hm, he⟩)
      · exact hnot (List.mem_map_of_mem (List.mem_of_mem_drop hk))
      · exact hmessages m hm he
    have hkept : ¬ r.server.Forsaken r.leaving c := fun hc => hnot (List.mem_of_mem_take hc.1)
    have hone := (hsound.gone c hlt hb).resolve_right hkept
    rw [List.count_eq_zero.mpr hleaving, Nat.add_zero] at hone
    refine ⟨hone, ?_⟩
    intro later
    have hle := releases_le_run r later c
    exact (sound_run hsound later).lockOwner_ne (by omega)

/-- A run in which a client's request to create a locked file is served after its hang-up. -/
def lateRequest : Scene :=
  (start { selection := .random } (.empty 2 9 .single .fifo ⟨fun _ => 0, 0⟩) 2 ⟨id, 0⟩).run
    [.connect, .accept, .send 0 (Frame.encode [5, 97]), .read 0, .read 0, .close 0, .read 0,
      .reap 0, .pull 1, .apply 1, .letGo 1, .pull 0, .apply 0, .letGo 0, .release 0]

/-- The late request's lock is released all the same, and only then. -/
theorem released_once_after_late_request :
    0 < 2 ∧ .reaped ⟨0⟩ ∈ lateRequest.server.journal ∧
      (∀ m ∈ lateRequest.server.messages, m.sender ≠ ⟨0⟩) ∧ ⟨0⟩ ∉ lateRequest.leaving ∧
        lateRequest.server.releases ⟨0⟩ = 1 ∧
          ∀ later, ∀ f ∈ (lateRequest.run later).server.store.files, f.lockOwner ≠ some ⟨0⟩ := by
  have hr : .reaped ⟨0⟩ ∈ lateRequest.server.journal := by
    have hj : (lateRequest.server.journal.any fun | .reaped id => id = ⟨0⟩ | _ => false) = true := by
      decide +kernel
    obtain ⟨e, he, hid⟩ := List.any_eq_true.mp hj
    cases e with
    | reaped id => exact of_decide_eq_true hid ▸ he
    | _ => simp at hid
  have hms : ∀ m ∈ lateRequest.server.messages, m.sender ≠ ⟨0⟩ := by decide +kernel
  have hls : ⟨0⟩ ∉ lateRequest.leaving := by decide +kernel
  exact ⟨by decide, hr, hms, hls, (released_once_after_last_hold { selection := .random } 2 9
    .single .fifo ⟨fun _ => 0, 0⟩ ⟨id, 0⟩ 2 (by decide) _).2 ⟨0⟩ hr hms hls⟩

end Scene

end FileDepot
