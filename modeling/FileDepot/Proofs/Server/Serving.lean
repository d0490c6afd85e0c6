import FileDepot.Proofs.Server.Posting

/-! # Messages are served in the order of posting

Under sticky selection one worker gets all messages of a connection, and its queue keeps their
order. So the messages answered to a client are those posted for it, less the ones that its worker
has yet to apply. -/

namespace FileDepot

/-- The messages that a worker has yet to apply. -/
def Worker.unserved (x : Worker) : List Message :=
  match x.hand with
  | .serving m => m :: x.queue
  | _ => x.queue

theorem Worker.unserved_append (x : Worker) (ms : List Message) :
    Worker.unserved { x with queue := x.queue ++ ms } = x.unserved ++ ms := by
  unfold unserved
  cases x.hand <;> rfl

theorem Worker.unserved_serving (m : Message) (queue : List Message) :
    (⟨queue, .serving m⟩ : Worker).unserved = [m] ++ (⟨queue, .served m⟩ : Worker).unserved :=
  rfl

/-- Whether a message asks to serve a payload. -/
def Message.isRequest (m : Message) : Bool :=
  m.work ≠ .hangUp

namespace Ledger

/-- The messages of a client that the worker with its number has yet to apply. -/
def unserved (L : Ledger) (c : ClientId) : List Message :=
  (L.workers[c.number % L.workers.length]?.elim [] Worker.unserved).filter (·.sender = c)

/-- Workers have only messages that are theirs, and of each client the last ones posted; the
requests before those have been answered. -/
structure Ordered (L : Ledger) : Prop where
  placed : ∀ w x, L.workers[w]? = some x → ∀ m ∈ x.unserved,
    m.sender.number % L.workers.length = w
  split : ∀ c, ∃ done, L.posts c = done ++ L.unserved c ∧
    done.filter Message.isRequest = (L.answers c).map Prod.fst

variable {L L' : Ledger} {a : Action}

theorem unserved_post {c : ClientId} {ms : List Message} (hw : 0 < L.workers.length)
    (hm : ∀ m ∈ ms, m.sender = c) (d : ClientId) :
    (L.post (c.number % L.workers.length) ms).unserved d =
      L.unserved d ++ ms.filter (·.sender = d) := by
  have hlen : (L.post (c.number % L.workers.length) ms).workers.length = L.workers.length :=
    List.length_modify ..
  have hget : (L.post (c.number % L.workers.length) ms).workers =
      L.workers.modify (c.number % L.workers.length) fun x => { x with queue := x.queue ++ ms } :=
    rfl
  unfold unserved
  rw [hlen, hget]
  by_cases he : c.number % L.workers.length = d.number % L.workers.length
  · have hlt : d.number % L.workers.length < L.workers.length := Nat.mod_lt _ hw
    rw [he, List.getElem?_modify_eq, List.getElem?_eq_getElem hlt]
    simp [Worker.unserved_append]
  · have hnone : ms.filter (·.sender = d) = [] := by
      rw [List.filter_eq_nil_iff]
      intro m hmem hd
      exact he (by rw [← hm m hmem, of_decide_eq_true hd])
    rw [hnone, List.append_nil, List.getElem?_modify_ne _ _ he]

theorem Ordered.post (h : L.Ordered) (hw : 0 < L.workers.length) {c : ClientId}
    {ms : List Message} (hm : ∀ m ∈ ms, m.sender = c) :
    (L.post (c.number % L.workers.length) ms).Ordered where
  placed w x hx m hmem := by
    have hlen : (L.post (c.number % L.workers.length) ms).workers.length = L.workers.length :=
      List.length_modify ..
    obtain ⟨y, hy, rfl⟩ := exists_of_onWorker (L := L) hx
    rw [hlen]
    split at hmem
    · rename_i he
      rw [Worker.unserved_append] at hmem
      rcases List.mem_append.mp hmem with hmem | hmem
      · exact h.placed w y hy m hmem
      · rw [hm m hmem, he]
    · exact h.placed w y hy m hmem
  split d := by
    obtain ⟨done, hp, ha⟩ := h.split d
    refine ⟨done, ?_, ha⟩
    rw [posts_post, unserved_post hw hm, hp, List.append_assoc]

/-- A worker that has taken some messages off those it has yet to apply. -/
theorem unserved_onWorker {v : Nat} {x y : Worker} {taken : List Message}
    (hv : L.workers[v]? = some x) (hu : x.unserved = taken ++ y.unserved)
    (hp : ∀ m ∈ taken, m.sender.number % L.workers.length = v) (d : ClientId) :
    L.unserved d = taken.filter (·.sender = d) ++ (L.onWorker v fun _ => y).unserved d := by
  have hlen : (L.onWorker v fun _ => y).workers.length = L.workers.length := List.length_modify ..
  have hget : (L.onWorker v fun _ => y).workers = L.workers.modify v fun _ => y := rfl
  unfold unserved
  rw [hlen, hget]
  by_cases he : v = d.number % L.workers.length
  · subst he
    simp [hv, hu]
  · have hnone : taken.filter (·.sender = d) = [] := by
      rw [List.filter_eq_nil_iff]
      intro m hmem hd
      exact he (by rw [← hp m hmem, of_decide_eq_true hd])
    rw [hnone, List.nil_append, List.getElem?_modify_ne _ _ he]

theorem Ordered.onWorker (h : L.Ordered) {v : Nat} {x y : Worker} {taken : List Message}
    (hv : L.workers[v]? = some x) (hu : x.unserved = taken ++ y.unserved)
    {answered : List (Message × Option Bytes)}
    (ha : answered.map Prod.fst = taken.filter Message.isRequest) :
    Ordered { L.onWorker v fun _ => y with answered := L.answered ++ answered } where
  placed w z hz m hmem := by
    have hlen : (L.onWorker v fun _ => y).workers.length = L.workers.length := List.length_modify ..
    obtain ⟨z', hz', rfl⟩ := exists_of_onWorker (L := L) hz
    rw [hlen]
    split at hmem
    · rename_i he
      subst he
      exact h.placed v x hv m (hu ▸ List.mem_append_right _ hmem)
    · exact h.placed w z' hz' m hmem
  split d := by
    obtain ⟨done, hp, hd⟩ := h.split d
    have htaken : ∀ m ∈ taken, m.sender.number % L.workers.length = v :=
      fun m hm => h.placed v x hv m (hu ▸ List.mem_append_left _ hm)
    refine ⟨done ++ taken.filter (·.sender = d), ?_, ?_⟩
    · rw [List.append_assoc]
      exact hp.trans (congrArg _ (unserved_onWorker hv hu htaken d))
    · have hnew : (answered.filter (·.1.sender = d)).map Prod.fst =
          (taken.filter (·.sender = d)).filter Message.isRequest := by
        rw [List.filter_comm, ← ha, List.filter_map]
        rfl
      rw [List.filter_append, hd, ← hnew, ← List.map_append, answers, ← List.filter_append]
      rfl

/-- Taking messages that are no requests off is nothing to answer. -/
theorem Ordered.serve (h : L.Ordered) {v : Nat} {x y : Worker} {taken : List Message}
    (hv : L.workers[v]? = some x) (hu : x.unserved = taken ++ y.unserved)
    (hn : taken.filter Message.isRequest = []) : (L.onWorker v fun _ => y).Ordered := by
  have hnil : ([] : List (Message × Option Bytes)).map Prod.fst =
      taken.filter Message.isRequest := hn.symm
  have ho := h.onWorker hv hu hnil
  rw [List.append_nil] at ho
  exact ho

/-- A worker that has as much to apply as before. -/
theorem Ordered.move (h : L.Ordered) {v : Nat} {x y : Worker} (hv : L.workers[v]? = some x)
    (hu : x.unserved = y.unserved) : (L.onWorker v fun _ => y).Ordered := by
  have hnone : x.unserved = [] ++ y.unserved := hu
  exact h.serve hv hnone rfl

/-- A step under sticky selection keeps the order. -/
theorem Ordered.step (h : L.Ordered) (hw : 0 < L.workers.length)
    (hsticky : L.settings.selection = .sticky) (hs : L.Step a L') : L'.Ordered := by
  have hpick : ∀ {c w}, L.Picks c w → w = c.number % L.workers.length := by
    rintro c w ⟨n, rfl, hn⟩
    rw [hn hsticky]
  cases hs with
  | mark | stop | sever | close | cutOff | connect | send | turnAway | accept =>
      exact ⟨h.placed, h.split⟩
  | @read k w c bytes up hf hk hd ht hp =>
      have hread : (L.hear k c bytes up).Ordered := ⟨h.placed, h.split⟩
      rw [hpick hp]
      exact hread.post (c := c.id) hw (by simp [Hold.request, Connection.hold])
  | @reap k w c hk hd hp =>
      have hreaped : Ordered { L with connections := L.connections.eraseIdx k } :=
        ⟨h.placed, h.split⟩
      rw [hpick hp]
      exact hreaped.post (c := c.id) hw (by simp [Hold.hangUp, Connection.hold])
  | pull hv => exact h.move hv rfl
  | @answer v m queue payload response hv hwork =>
      have hstream : (L.onStream m.stream (Traffic.answer response)).Ordered := ⟨h.placed, h.split⟩
      exact hstream.onWorker hv (Worker.unserved_serving m queue) (by simp [Message.isRequest, hwork])
  | @heed v m queue hv hwork =>
      exact h.serve hv (Worker.unserved_serving m queue) (by simp [Message.isRequest, hwork])
  | letGo hv => exact h.move hv rfl

/-! ## Only what was posted is served -/

/-- Workers have only messages of accepted connections, and only those have been answered. -/
structure Held (L : Ledger) : Prop where
  messages : ∀ (w : Nat) (x : Worker), L.workers[w]? = some x →
    ∀ m ∈ x.messages, m.hold ∈ L.accepted
  answered : ∀ p ∈ L.answered, p.1.hold ∈ L.accepted

/-- A worker has a message of an accepted connection in its hand. -/
theorem Held.in_hand (h : L.Held) {w : Nat} {x : Worker} (hv : L.workers[w]? = some x) {m : Message}
    (hm : m ∈ x.hand.messages) : m.hold ∈ L.accepted :=
  h.messages w x hv m (List.mem_append_left _ hm)

theorem Held.post (h : L.Held) {ms : List Message} (hm : ∀ m ∈ ms, m.hold ∈ L.accepted) (v : Nat) :
    (L.post v ms).Held where
  messages w x hx m hmem := by
    obtain ⟨y, hy, rfl⟩ := exists_of_onWorker (L := L) hx
    split at hmem
    · rw [Worker.messages, ← List.append_assoc] at hmem
      rcases List.mem_append.mp hmem with hmem | hmem
      · exact h.messages w y hy m hmem
      · exact hm m hmem
    · exact h.messages w y hy m hmem
  answered := h.answered

theorem Held.onWorker (h : L.Held) {v : Nat} {x y : Worker} (hv : L.workers[v]? = some x)
    (hsub : ∀ m ∈ y.messages, m ∈ x.messages) : (L.onWorker v fun _ => y).Held where
  messages w z hz m hmem := by
    obtain ⟨z', hz', rfl⟩ := exists_of_onWorker (L := L) hz
    split at hmem
    · exact h.messages v x hv m (hsub m hmem)
    · exact h.messages w z' hz' m hmem
  answered := h.answered

theorem Held.answer (h : L.Held) {m : Message} (hm : m.hold ∈ L.accepted)
    (response : Option Bytes) : (L.answer m response).Held where
  messages := h.messages
  answered p hp := by
    rcases List.mem_append.mp hp with hp | hp
    · exact h.answered p hp
    · rw [List.mem_singleton.mp hp]
      exact hm

theorem Held.step (h : L.Held) (hk : L.Kept) (hs : L.Step a L') : L'.Held := by
  cases hs with
  | mark | stop | sever | close | cutOff | connect | send | turnAway =>
      exact ⟨h.messages, h.answered⟩
  | accept =>
      exact ⟨fun w x hx m hm => List.mem_append_left _ (h.messages w x hx m hm),
        fun p hp => List.mem_append_left _ (h.answered p hp)⟩
  | @read k w c bytes up hf hk' hd ht hp =>
      have hread : (L.hear k c bytes up).Held := ⟨h.messages, h.answered⟩
      refine hread.post ?_ w
      intro m hm
      obtain ⟨payload, -, rfl⟩ := List.mem_map.mp hm
      exact hk.connection_accepted c (List.mem_of_getElem? hk')
  | @reap k w c hk' hd hp =>
      have hreaped : Held { L with connections := L.connections.eraseIdx k } :=
        ⟨h.messages, h.answered⟩
      refine hreaped.post ?_ w
      intro m hm
      rw [List.mem_singleton.mp hm]
      exact hk.connection_accepted c (List.mem_of_getElem? hk')
  | pull hv => exact h.onWorker hv fun m hm => hm
  | @answer v m queue payload response hv hwork =>
      have ha := h.answer (h.in_hand hv (List.mem_singleton_self m)) response
      exact ha.onWorker hv fun m hm => hm
  | heed hv => exact h.onWorker hv fun m hm => hm
  | letGo hv => exact h.onWorker hv fun m hm => List.mem_cons_of_mem _ hm

/-! ## The order of answers -/

variable {x : Hold}

theorem hangUp_not_mem_requests (x : Hold) (limit : Nat) (bytes : Bytes) :
    x.hangUp ∉ x.requests limit bytes := by
  intro hm
  obtain ⟨payload, -, he⟩ := List.mem_map.mp hm
  simp [Hold.request, Hold.hangUp] at he

theorem filter_requests (x : Hold) (limit : Nat) (bytes : Bytes) :
    (x.requests limit bytes).filter Message.isRequest = x.requests limit bytes := by
  rw [List.filter_eq_self]
  intro m hm
  obtain ⟨payload, -, rfl⟩ := List.mem_map.mp hm
  rfl

/-- The requests in the bytes read from a client are those posted for it. -/
theorem Kept.filter_posts (h : L.Kept) (hx : x ∈ L.accepted) :
    (L.posts x.client).filter Message.isRequest =
      x.requests L.settings.maxMessage (L.bytesRead x.stream) := by
  rw [h.posts_eq_requests hx, List.filter_append, filter_requests]
  split
  · exact List.append_nil _
  · exact List.append_nil _

/-- What has been answered to a client are the first of the requests read from it. -/
theorem Ordered.answers_prefix (h : L.Ordered) (hk : L.Kept) (hx : x ∈ L.accepted) :
    (L.answers x.client).map Prod.fst <+:
      x.requests L.settings.maxMessage (L.bytesRead x.stream) := by
  obtain ⟨done, hp, hd⟩ := h.split x.client
  rw [← hk.filter_posts hx, ← hd, hp]
  exact (List.prefix_append done _).filter _

/-- Where the hang-up of a client has been posted, it is the last message posted for it. -/
theorem Kept.posts_eq_of_hangUp (h : L.Kept) (hx : x ∈ L.accepted)
    (hup : x.hangUp ∈ L.posts x.client) : L.posts x.client =
      x.requests L.settings.maxMessage (L.bytesRead x.stream) ++ [x.hangUp] := by
  have hp := h.posts_eq_requests hx
  split at hp
  · rw [List.append_nil] at hp
    exact absurd (hp ▸ hup) (hangUp_not_mem_requests _ _ _)
  · exact hp

/-- Nothing is posted for a client after its hang-up. -/
theorem Kept.posts_eq_of_prefix (h : L'.Kept) (hx : x ∈ L'.accepted)
    (hup : x.hangUp ∈ L.posts x.client) (hle : L.posts x.client <+: L'.posts x.client) :
    L'.posts x.client = L.posts x.client := by
  obtain ⟨rest, he⟩ := hle
  rcases List.eq_nil_or_concat' rest with rfl | ⟨more, m, rfl⟩
  · rw [← he, List.append_nil]
  · rw [h.posts_eq_of_hangUp hx (he ▸ List.mem_append_left _ hup), ← List.append_assoc] at he
    have hreq := (List.append_inj' he rfl).1
    have hm : x.hangUp ∈ x.requests L'.settings.maxMessage (L'.bytesRead x.stream) :=
      hreq ▸ List.mem_append_left _ hup
    exact absurd hm (hangUp_not_mem_requests _ _ _)

/-- A client whose hang-up has been handled has nothing left to serve. -/
theorem Ordered.unserved_eq_nil (h : L.Ordered) (hk : L.Kept) (hx : x ∈ L.accepted)
    (hup : x.hangUp ∈ L.posts x.client) (hdone : ∀ y ∈ L.workers, x.hangUp ∉ y.unserved) :
    L.unserved x.client = [] := by
  obtain ⟨done, hp, -⟩ := h.split x.client
  rcases List.eq_nil_or_concat' (L.unserved x.client) with hn | ⟨more, m, hm⟩
  · exact hn
  · rw [hk.posts_eq_of_hangUp hx hup, hm, ← List.append_assoc] at hp
    -- The last message left would be the last one posted, which has been handled.
    have hlast : m = x.hangUp := by
      have hs := (List.append_inj' hp rfl).2
      exact (List.singleton_inj.mp hs).symm
    have hmem : x.hangUp ∈ L.unserved x.client := by simp [hm, hlast]
    obtain ⟨hin, -⟩ := List.mem_filter.mp hmem
    cases hw : L.workers[x.client.number % L.workers.length]? with
    | none => simp [hw] at hin
    | some y =>
        rw [hw] at hin
        exact absurd hin (hdone y (List.mem_of_getElem? hw))

/-- Nothing is answered to a client after its hang-up has been handled. -/
theorem Ordered.answers_eq_of_prefix (h : L.Ordered) (hk : L.Kept) (h' : L'.Ordered) (hk' : L'.Kept)
    (hx : x ∈ L.accepted) (hx' : x ∈ L'.accepted) (hup : x.hangUp ∈ L.posts x.client)
    (hdone : ∀ y ∈ L.workers, x.hangUp ∉ y.unserved)
    (hposted : L.posts x.client <+: L'.posts x.client)
    (hanswered : L.answers x.client <+: L'.answers x.client) :
    L'.answers x.client = L.answers x.client := by
  have hle := h'.answers_prefix hk' hx'
  rw [← hk'.filter_posts hx', hk'.posts_eq_of_prefix hx' hup hposted] at hle
  obtain ⟨done, hp, hd⟩ := h.split x.client
  rw [h.unserved_eq_nil hk hx hup hdone, List.append_nil] at hp
  rw [hp, hd] at hle
  have hlen := hle.length_le
  rw [List.length_map, List.length_map] at hlen
  exact (hanswered.eq_of_length (Nat.le_antisymm hanswered.length_le hlen)).symm

end Ledger

end FileDepot
