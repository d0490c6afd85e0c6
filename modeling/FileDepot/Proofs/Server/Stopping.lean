import FileDepot.Proofs.Server.Release
import FileDepot.Proofs.Server.Serving

/-! # What is lost when a server stops

A receiver that stops because its last client has left raises the hard flag for its workers, which
look at the flag before they look at their queues. They finish the messages in their hands and pull
no more. So of the requests that the receiver has enqueued exactly those are lost that are in the
queues at that moment, and their clients have all hung up before. -/

namespace FileDepot

/-- Changing one element changes what comes of a list by what comes of that element. -/
theorem count_flatMap_modify {α β : Type} [DecidableEq β] {xs : List α} {k : Nat} {x : α}
    (hk : xs[k]? = some x) (change : α → α) (f : α → List β) (b : β) :
    ((xs.modify k change).flatMap f).count b + (f x).count b =
      (xs.flatMap f).count b + (f (change x)).count b := by
  induction xs generalizing k with
  | nil => simp at hk
  | cons y ys ih =>
      cases k with
      | zero =>
          obtain rfl : y = x := by simpa using hk
          simp only [List.modify_zero_cons, List.flatMap_cons, List.count_append]
          omega
      | succ k =>
          have hi := ih (by simpa using hk)
          simp only [List.modify_succ_cons, List.flatMap_cons, List.count_append]
          omega

namespace Ledger

/-! ## Requests on their way -/

/-- The requests that the receiver has enqueued. -/
def enqueued (L : Ledger) : List Message :=
  (L.posted.map Prod.snd).filter Message.isRequest

/-- The requests that workers have handled: applied to the store, or found to be none. -/
def handled (L : Ledger) : List Message :=
  L.answered.map Prod.fst

/-- The messages in the queues, worker by worker. -/
def queues (L : Ledger) : List (List Message) :=
  L.workers.map Worker.queue

/-- The requests that no worker has pulled. -/
def queued (L : Ledger) : List Message :=
  L.queues.flatten.filter Message.isRequest

/-- The messages that no worker has handled. -/
def pending (L : Ledger) : List Message :=
  L.workers.flatMap Worker.unserved

/-- Requests are all that is handled, and each that is posted is handled or still to be, once. -/
structure Balanced (L : Ledger) : Prop where
  requests : ∀ m ∈ L.handled, m.isRequest = true
  count_eq : ∀ m, m.isRequest = true →
    L.handled.count m + L.pending.count m = (L.posted.map Prod.snd).count m

variable {L L' : Ledger} {a : Action}

theorem balanced_start (settings : Settings) (workers : Nat) :
    (start settings workers).Balanced where
  requests _ hm := absurd hm List.not_mem_nil
  count_eq m _ := by
    have hp : (start settings workers).pending = [] := by
      simp [pending, start, Worker.unserved]
    rw [hp]
    rfl

theorem Balanced.post (h : L.Balanced) {w : Nat} (hw : w < L.workers.length) (ms : List Message) :
    (L.post w ms).Balanced where
  requests := h.requests
  count_eq m hm := by
    have hc := count_flatMap_modify (List.getElem?_eq_getElem hw)
      (fun x => { x with queue := x.queue ++ ms }) Worker.unserved m
    have hold : L.handled.count m + (L.workers.flatMap Worker.unserved).count m =
        (L.posted.map Prod.snd).count m := h.count_eq m hm
    have hposted : ((L.post w ms).posted.map Prod.snd).count m =
        (L.posted.map Prod.snd).count m + ms.count m := by
      simp [Ledger.post, Function.comp_def]
    rw [Worker.unserved_append, List.count_append] at hc
    change L.handled.count m + ((L.workers.modify w _).flatMap Worker.unserved).count m = _
    omega

/-- A worker takes some messages off those it has to handle, and answers the requests of them. -/
theorem Balanced.serve (h : L.Balanced) {w : Nat} {x y : Worker} (hw : L.workers[w]? = some x)
    {taken : List Message} (hu : x.unserved = taken ++ y.unserved)
    {answered : List (Message × Option Bytes)}
    (ha : answered.map Prod.fst = taken.filter Message.isRequest) :
    Balanced { L.onWorker w fun _ => y with answered := L.answered ++ answered } where
  requests m hm := by
    have hm : m ∈ (L.answered ++ answered).map Prod.fst := hm
    rw [List.map_append, ha] at hm
    rcases List.mem_append.mp hm with hm | hm
    · exact h.requests m hm
    · exact (List.mem_filter.mp hm).2
  count_eq m hm := by
    have hc := count_flatMap_modify hw (fun _ => y) Worker.unserved m
    have hold : L.handled.count m + (L.workers.flatMap Worker.unserved).count m =
        (L.posted.map Prod.snd).count m := h.count_eq m hm
    have hnew : ((L.answered ++ answered).map Prod.fst).count m = L.handled.count m + taken.count m := by
      rw [List.map_append, ha, List.count_append, List.count_filter hm]
      rfl
    rw [hu, List.count_append] at hc
    change ((L.answered ++ answered).map Prod.fst).count m +
      ((L.workers.modify w _).flatMap Worker.unserved).count m = (L.posted.map Prod.snd).count m
    omega

/-- Taking messages that are no requests off is nothing to answer. -/
theorem Balanced.quiet (h : L.Balanced) {w : Nat} {x y : Worker} (hw : L.workers[w]? = some x)
    {taken : List Message} (hu : x.unserved = taken ++ y.unserved)
    (ht : taken.filter Message.isRequest = []) : (L.onWorker w fun _ => y).Balanced := by
  have hnil : ([] : List (Message × Option Bytes)).map Prod.fst =
      taken.filter Message.isRequest := ht.symm
  have hb := h.serve hw hu hnil
  rw [List.append_nil] at hb
  exact hb

/-- Every step keeps the balance. -/
theorem Balanced.step (h : L.Balanced) (hn : 0 < L.workers.length) (hs : L.Step a L') :
    L'.Balanced := by
  have hpick : ∀ {c w}, L.Picks c w → w < L.workers.length := by
    rintro c w ⟨n, rfl, -⟩
    exact Nat.mod_lt _ hn
  cases hs with
  | mark | stop | sever | close | cutOff | connect | send | turnAway | accept =>
      exact ⟨h.requests, h.count_eq⟩
  | @read k w c bytes up hf hk hd ht hp =>
      have hread : (L.hear k c bytes up).Balanced := ⟨h.requests, h.count_eq⟩
      exact hread.post (hpick hp) _
  | @reap k w c hk hd hp =>
      have hreaped : Balanced { L with connections := L.connections.eraseIdx k } :=
        ⟨h.requests, h.count_eq⟩
      exact hreaped.post (hpick hp) _
  | pull hw => exact h.quiet hw (List.nil_append _).symm rfl
  | @answer w m queue payload response hw hwork =>
      have hstream : Balanced (L.onStream m.stream (Traffic.answer response)) :=
        ⟨h.requests, h.count_eq⟩
      exact hstream.serve hw (Worker.unserved_serving m queue)
        (by simp [Message.isRequest, hwork])
  | @heed w m queue hw hwork =>
      exact h.quiet hw (Worker.unserved_serving m queue) (by simp [Message.isRequest, hwork])
  | letGo hw => exact h.quiet hw (List.nil_append _).symm rfl

/-! ## Once everything stops -/

theorem queues_onWorker {w : Nat} {x y : Worker} (hw : L.workers[w]? = some x)
    (hq : y.queue = x.queue) : (L.onWorker w fun _ => y).queues = L.queues := by
  refine map_modify_eq fun z hz => ?_
  rw [hq, Option.some.inj (hw.symm.trans hz)]

/-- Only a request for it stops everything. -/
theorem Step.hard_eq (hs : L.Step a L') (ha : a ≠ .stopAll) : L'.hard = L.hard := by
  cases hs with
  | stop => exact absurd rfl ha
  | mark | sever | close | cutOff | connect | send | turnAway | accept | read | reap | pull | answer
  | heed | letGo => rfl

/-- Where the receiver does nothing and no worker pulls, nothing gets in or out of the queues. -/
theorem Step.queues_eq (hs : L.Step a L') (ha : a.isReceiver = false) (hp : ∀ w, a ≠ .pull w) :
    L'.posted = L.posted ∧ L'.queues = L.queues := by
  cases hs with
  | mark | stop | close | cutOff | connect | send | turnAway => exact ⟨rfl, rfl⟩
  | sever | accept | read | reap => cases ha
  | pull => exact absurd rfl (hp _)
  | answer hw => exact ⟨rfl, queues_onWorker hw rfl⟩
  | heed hw | letGo hw => exact ⟨rfl, queues_onWorker hw rfl⟩

theorem Step.hard_mono (hs : L.Step a L') (hh : L.hard = true) : L'.hard = true := by
  cases hs with
  | stop => rfl
  | mark | sever | close | cutOff | connect | send | turnAway | accept | read | reap | pull | answer
  | heed | letGo => exact hh

/-- When all workers are idle, the requests that are not handled are those in the queues. -/
theorem Balanced.perm_of_idle (h : L.Balanced) (hi : ∀ x ∈ L.workers, x.hand = .idle) :
    (L.handled ++ L.queued).Perm L.enqueued := by
  have hpending : L.pending = L.queues.flatten := by
    rw [pending, queues, ← List.flatMap_def]
    exact List.flatMap_congr fun x hx => by rw [Worker.unserved, hi x hx]
  refine List.perm_iff_count.mpr fun m => ?_
  rw [List.count_append, queued, enqueued]
  cases hm : m.isRequest with
  | true =>
      rw [List.count_filter hm, List.count_filter hm, ← hpending]
      exact h.count_eq m hm
  | false =>
      have hn : ∀ ms : List Message, (ms.filter Message.isRequest).count m = 0 := fun ms =>
        List.count_eq_zero.mpr fun hmem => by simp [hm] at hmem
      have hh : L.handled.count m = 0 :=
        List.count_eq_zero.mpr fun hmem => by simp [h.requests m hmem] at hm
      rw [hn, hn, hh]

/-- What is in a queue has been posted. -/
theorem Balanced.mem_posted_of_queued (h : L.Balanced) {m : Message} (hm : m ∈ L.queued) :
    m ∈ L.posted.map Prod.snd := by
  obtain ⟨hm, hr⟩ := List.mem_filter.mp hm
  obtain ⟨queue, hq, hm⟩ := List.mem_flatten.mp hm
  obtain ⟨x, hx, rfl⟩ := List.mem_map.mp hq
  have hu : m ∈ x.unserved := by
    rw [Worker.unserved]
    split
    · exact List.mem_cons_of_mem _ hm
    · exact hm
  have hp : m ∈ L.pending := List.mem_flatMap.mpr ⟨x, hx, hu⟩
  have hc := h.count_eq m hr
  have hpos := List.count_pos_iff.mpr hp
  exact List.count_pos_iff.mp (by omega)

end Ledger

namespace Scene

variable {r : Scene}

theorem balanced_run (settings : Settings) (store : Store) {workers : Nat} (hw : 0 < workers)
    (dice : Dice) (actions : List Action) :
    ((start settings store workers dice).run actions).server.ledger.Balanced := by
  have hstart : 0 < (start settings store workers dice).server.ledger.workers.length := by
    rw [ledger_start, Ledger.start, List.length_replicate]
    exact hw
  exact (ledger_run (P := fun L => 0 < L.workers.length ∧ L.Balanced)
    (fun h hs => ⟨hs.length_workers.symm ▸ h.1, h.2.step h.1 hs⟩)
    ⟨hstart, Ledger.balanced_start settings workers⟩ actions).2

theorem hard_run {actions : List Action} (ha : .stopAll ∉ actions) :
    (r.run actions).server.hard = r.server.hard := by
  induction actions generalizing r with
  | nil => rfl
  | cons a actions ih =>
      obtain ⟨hne, ha⟩ := not_or.mp (mt List.mem_cons.mpr ha)
      exact (ih ha).trans ((r.step_ledger a).hard_eq (Ne.symm hne))

/-- Workers look at the flag before they look at their queues. -/
theorem step_pull_of_hard (hh : r.server.hard = true) (w : Nat) : r.step (.pull w) = r := by
  simp only [step, Server.look, hh, if_true]

/-- Once everything stops, what no worker has pulled stays in the queues. -/
theorem queues_run (hh : r.server.hard = true) {after : List Action}
    (ha : ∀ a ∈ after, a.isReceiver = false) :
    (r.run after).server.ledger.posted = r.server.ledger.posted ∧
      (r.run after).server.ledger.queues = r.server.ledger.queues := by
  induction after generalizing r with
  | nil => exact ⟨rfl, rfl⟩
  | cons a after ih =>
      obtain ⟨ha, has⟩ := List.forall_mem_cons.mp ha
      have hs := r.step_ledger a
      obtain ⟨hp, hq⟩ := ih (hs.hard_mono hh) has
      by_cases hpull : ∃ w, a = .pull w
      · obtain ⟨w, rfl⟩ := hpull
        rw [step_pull_of_hard hh] at hp hq
        rw [run, List.foldl_cons, step_pull_of_hard hh]
        exact ⟨hp, hq⟩
      · obtain ⟨hp', hq'⟩ := hs.queues_eq ha fun w he => hpull ⟨w, he⟩
        exact ⟨hp.trans hp', hq.trans hq'⟩

/-! ## A soft shutdown -/

/-- A receiver without connections has none to wind up. -/
theorem windUp_eq {s : Server} (hs : s.fallen = none) (hc : s.connections = []) : s.windUp = s := by
  rw [Server.windUp, Server.receiving_of_standing hs]
  simp only [Server.reapDead, hc, List.foldl_nil, List.map_nil, List.filter_nil]
  exact Server.withConnections_self hc

/-- After a soft request alone the receiver stops when it has reaped all connections. -/
theorem connections_of_isDone {before : List Action} (hsoft : .stopAll ∉ before)
    (hstart : r.server.hard = false) (hdone : (r.run before).server.isDone = true) :
    (r.run before).server.connections = [] := by
  have hh := (hard_run hsoft).trans hstart
  have hd : (r.run before).server.fallen = none ∧ (r.run before).server.soft = true ∧
      (r.run before).server.connections = [] := by
    simpa [Server.isDone, hh] using hdone
  exact hd.2.2

/-- What becomes of a server after its receiver has stopped. -/
def afterStop (r : Scene) (after : List Action) : Scene :=
  run { r with server := r.server.shutDown } after

/-- All workers come back with empty hands, and the receiver does nothing any more. -/
structure Returns (r : Scene) (after : List Action) : Prop where
  gone : ∀ a ∈ after, a.isReceiver = false
  idle : ∀ x ∈ (r.afterStop after).server.workers, x.hand = .idle

/-- Applying the message in a worker's hand leaves it as served there. -/
theorem workers_apply {s : Server} {w : Nat} {queue : List Message} {m : Message}
    (hw : s.workers[w]? = some ⟨queue, .serving m⟩) :
    (s.apply w).workers = s.workers.set w ⟨queue, .served m⟩ := by
  cases hm : m.work <;>
    simp [Server.apply, Server.onWorker, hw, hm, Server.workers_answer, List.modify_eq_set_getElem?]

/-- Letting go of the message in a worker's hand leaves the hand empty. -/
theorem workers_letGo {s : Server} {w : Nat} {queue : List Message} {m : Message}
    (hw : s.workers[w]? = some ⟨queue, .served m⟩) :
    (s.letGo w).2.workers = s.workers.set w ⟨queue, .idle⟩ := by
  simp [Server.letGo, Server.onWorker, Server.onStream, hw, List.modify_eq_set_getElem?]

/-- A worker that is given the time finishes the message in its hand. -/
theorem workers_finish (r : Scene) (w : Nat) :
    (r.run [.apply w, .letGo w]).server.workers =
      r.server.workers.modify w ({ · with hand := .idle }) := by
  change ((r.server.apply w).letGo w).2.workers = _
  rw [List.modify_eq_set_getElem?]
  rcases hw : r.server.workers[w]? with _ | ⟨queue, _ | m | m⟩
  · simp [Server.apply, Server.letGo, hw]
  · obtain ⟨hlt, hget⟩ := List.getElem?_eq_some_iff.mp hw
    have hsame : r.server.workers.set w ⟨queue, .idle⟩ = r.server.workers :=
      hget ▸ List.set_getElem_self hlt
    simp [Server.apply, Server.letGo, hw, hsame]
  · have hserved : (r.server.apply w).workers[w]? = some ⟨queue, .served m⟩ := by
      rw [workers_apply hw, List.getElem?_set_self (List.getElem?_eq_some_iff.mp hw).1]
    rw [workers_letGo hserved, workers_apply hw, List.set_set]
    rfl
  · have hsame : r.server.apply w = r.server := by simp [Server.apply, hw]
    rw [hsame, workers_letGo hw]
    rfl

/-- All workers that have the time come back with empty hands. -/
theorem exists_returns (r : Scene) : ∃ after, r.Returns after := by
  -- One worker after the other finishes; those before it stay idle.
  have hfinish (n : Nat) (t : Scene) : ∀ w < n, ∀ x,
      (t.run ((List.range n).flatMap fun w => [.apply w, .letGo w])).server.workers[w]? = some x →
        x.hand = .idle := by
    induction n with
    | zero => exact fun w hw => absurd hw (Nat.not_lt_zero w)
    | succ n ih =>
        intro w hw x hx
        rw [List.range_succ, List.flatMap_append, List.flatMap_singleton, run_append,
          workers_finish, List.getElem?_modify] at hx
        obtain ⟨y, hy, rfl⟩ := Option.map_eq_some_iff.mp hx
        by_cases hn : n = w
        · rw [if_pos hn]
        · rw [if_neg hn]
          exact ih w (by omega) y hy
  refine ⟨(List.range r.server.shutDown.workers.length).flatMap fun w => [.apply w, .letGo w],
    ?_, ?_⟩
  · intro a ha
    obtain ⟨w, -, ha⟩ := List.mem_flatMap.mp ha
    rcases List.mem_pair.mp ha with rfl | rfl <;> rfl
  · intro x hx
    obtain ⟨w, hw, hx⟩ := List.getElem_of_mem hx
    have hlt : w < r.server.shutDown.workers.length :=
      Nat.lt_of_lt_of_eq hw (length_workers_run _ _)
    exact hfinish _ _ w hlt x (List.getElem?_eq_some_iff.mpr ⟨hw, hx⟩)

/-- What is posted and what is queued stays as it was when the receiver stopped, and the rest has
been handled when the workers come back. -/
theorem Returns.queues_eq {settings : Settings} {store : Store} {workers : Nat} (hw : 0 < workers)
    {dice : Dice} {before after : List Action} (hsoft : .stopAll ∉ before)
    (hr : r = (start settings store workers dice).run before)
    (hdone : r.server.isDone = true) (h : r.Returns after) :
    (r.afterStop after).server.ledger.posted = r.server.ledger.posted ∧
      (r.afterStop after).server.ledger.queues = r.server.ledger.queues ∧
        ((r.afterStop after).server.ledger.handled ++ r.server.ledger.queued).Perm
          r.server.ledger.enqueued := by
  have hc : r.server.connections = [] := by
    subst hr
    exact connections_of_isDone hsoft rfl hdone
  have ht : r.afterStop after = (r.step .stopAll).run after := by
    rw [afterStop, Server.shutDown, windUp_eq (Server.fallen_of_isDone hdone) hc]
    rfl
  obtain ⟨hposted, hqueues⟩ := queues_run (r := r.step .stopAll) rfl h.gone
  rw [← ht] at hposted hqueues
  have hb : (r.afterStop after).server.ledger.Balanced := by
    rw [ht, hr, show ((start settings store workers dice).run before |>.step .stopAll).run after =
      (start settings store workers dice).run (before ++ .stopAll :: after) by
        rw [run_append]; rfl]
    exact balanced_run settings store hw dice _
  refine ⟨hposted, hqueues, ?_⟩
  have henqueued : (r.afterStop after).server.ledger.enqueued = r.server.ledger.enqueued :=
    congrArg (fun posted => (posted.map Prod.snd).filter Message.isRequest) hposted
  have hqueued : (r.afterStop after).server.ledger.queued = r.server.ledger.queued :=
    congrArg (fun queues => queues.flatten.filter Message.isRequest) hqueues
  rw [← henqueued, ← hqueued]
  exact hb.perm_of_idle h.idle

/-- A server to which only a soft request to stop is made, and whose receiver has stopped, returns.
By then it has handled the requests that it has enqueued, except for those that were in the queues
when its receiver stopped. These are still there, each of a client whose hang-up is posted. -/
theorem soft_stop_loses_queued (settings : Settings) (store : Store) (workers : Nat)
    (hw : 0 < workers) (dice : Dice) (before : List Action) (hsoft : .stopAll ∉ before) :
    let r := (start settings store workers dice).run before
    r.server.isDone = true → (∃ after, r.Returns after) ∧ ∀ after, r.Returns after →
      let t := r.afterStop after
      t.server.ledger.enqueued = r.server.ledger.enqueued ∧
      t.server.ledger.queues = r.server.ledger.queues ∧
      (t.server.ledger.handled ++ r.server.ledger.queued).Perm r.server.ledger.enqueued ∧
      ∀ m ∈ r.server.ledger.queued, m.hold.hangUp ∈ r.server.ledger.posts m.sender := by
  intro r hdone
  refine ⟨exists_returns r, ?_⟩
  intro after hafter t
  obtain ⟨hposted, hqueues, hperm⟩ := hafter.queues_eq hw hsoft rfl hdone
  refine ⟨congrArg (fun posted => (posted.map Prod.snd).filter Message.isRequest) hposted, hqueues,
    hperm, ?_⟩
  intro m hm
  have hkept : r.server.ledger.Kept := kept_run settings store workers dice before
  have hm : m ∈ r.server.ledger.posted.map Prod.snd :=
    (balanced_run settings store hw dice before).mem_posted_of_queued hm
  obtain ⟨p, hp, rfl⟩ := List.mem_map.mp hm
  change p.2.hold.hangUp ∈ r.server.ledger.posts p.2.hold.client
  have hnone : p.2.hold.client ∉ r.server.ledger.connections.map Connection.id := by
    rw [show r.server.ledger.connections = [] from connections_of_isDone hsoft rfl hdone]
    exact List.not_mem_nil
  rw [hkept.posts_eq_requests (hkept.posted_accepted p hp), if_neg hnone]
  exact List.mem_append_right _ (List.mem_singleton_self _)

/-- A client sends two requests to create a file and leaves, while the only worker has the first
one in its hand. -/
def departure : List Action :=
  [.connect, .accept, .send 0 (Frame.encode [3, 97] ++ Frame.encode [3, 98]), .read 0, .read 0,
    .read 0, .read 0, .pull 0, .close 0, .closeDoor, .read 0, .reap 0]

/-- A run whose receiver has stopped because its only client left. -/
def leftEarly : Scene :=
  (start {} (.empty 2 9 .single .fifo ⟨fun _ => 0, 0⟩) 1 ⟨id, 0⟩).run departure

/-- The second request is not handled, whatever happens while the worker comes back. -/
theorem leftEarly_loses_request :
    .stopAll ∉ departure ∧ leftEarly.server.isDone = true ∧ (∃ after, leftEarly.Returns after) ∧
      ∀ after, leftEarly.Returns after →
        ⟨⟨0⟩, 0, .request [3, 98]⟩ ∈ (leftEarly.afterStop after).server.ledger.enqueued ∧
          ⟨⟨0⟩, 0, .request [3, 98]⟩ ∉ (leftEarly.afterStop after).server.ledger.handled := by
  have hsoft : .stopAll ∉ departure := by simp [departure]
  have hdone : leftEarly.server.isDone = true := by decide +kernel
  have henqueued : leftEarly.server.ledger.enqueued =
      [⟨⟨0⟩, 0, .request [3, 97]⟩, ⟨⟨0⟩, 0, .request [3, 98]⟩] := by decide +kernel
  have hqueued : leftEarly.server.ledger.queued = [⟨⟨0⟩, 0, .request [3, 98]⟩] := by
    decide +kernel
  refine ⟨hsoft, hdone, exists_returns leftEarly, ?_⟩
  intro after hafter
  obtain ⟨hposted, -, hperm⟩ :=
    Returns.queues_eq (r := leftEarly) (by decide) hsoft rfl hdone hafter
  rw [hqueued, henqueued] at hperm
  refine ⟨?_, ?_⟩
  · have he : (leftEarly.afterStop after).server.ledger.enqueued =
        leftEarly.server.ledger.enqueued :=
      congrArg (fun posted => (posted.map Prod.snd).filter Message.isRequest) hposted
    rw [he, henqueued]
    decide
  · intro hm
    have hc := hperm.count_eq ⟨⟨0⟩, 0, .request [3, 98]⟩
    rw [List.count_append] at hc
    have hpos := List.count_pos_iff.mpr hm
    simp at hc
    omega

/-- With the first request handled, the second one and the hang-up stay in the queue. -/
theorem soft_stop_loses_queued_second :
    0 < 1 ∧ .stopAll ∉ departure ∧ leftEarly.server.isDone = true ∧
      leftEarly.Returns [.apply 0, .letGo 0] ∧
      (leftEarly.afterStop [.apply 0, .letGo 0]).server.ledger.queues =
        [[⟨⟨0⟩, 0, .request [3, 98]⟩, ⟨⟨0⟩, 0, .hangUp⟩]] := by
  have hsoft : .stopAll ∉ departure := by simp [departure]
  have hdone : leftEarly.server.isDone = true := by decide +kernel
  have hreturns : leftEarly.Returns [.apply 0, .letGo 0] :=
    ⟨by simp [Action.isReceiver], by decide +kernel⟩
  have hqueues : leftEarly.server.ledger.queues =
      [[⟨⟨0⟩, 0, .request [3, 98]⟩, ⟨⟨0⟩, 0, .hangUp⟩]] := by decide +kernel
  have hlost := (soft_stop_loses_queued {} (.empty 2 9 .single .fifo ⟨fun _ => 0, 0⟩) 1 (by decide)
    ⟨id, 0⟩ departure hsoft hdone).2 _ hreturns
  exact ⟨by decide, hsoft, hdone, hreturns, hlost.2.1.trans hqueues⟩

end Scene

end FileDepot
