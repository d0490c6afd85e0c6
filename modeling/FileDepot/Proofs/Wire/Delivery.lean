import FileDepot.Response

/-! # Delivery

A response is sent in many small writes, and any of them may find the sink full. What has been
written then is the first part of the response, and what has been done to the store is complete: a
handler does to the store all that it will do before it sends the first byte. -/

namespace FileDepot

namespace Sink

/-! ## Writing in pieces -/

/-- After a write that fits, the sink takes what follows as if both had been written at once. -/
theorem put_append_of_ok {sink rest : Sink} {first : Bytes} (h : sink.put first = (.ok (), rest))
    (later : Bytes) : sink.put (first ++ later) = rest.put later := by
  unfold put at h ⊢
  cases hc : sink.capacity with
  | none =>
      obtain rfl : { sink with written := sink.written ++ first } = rest := by simpa [hc] using h
      simp [hc]
  | some capacity =>
      by_cases hf : first.length ≤ capacity - sink.written.length
      · obtain rfl : { sink with written := sink.written ++ first } = rest := by
          simpa [hc, hf] using h
        have hroom : capacity - (sink.written ++ first).length =
            capacity - sink.written.length - first.length := by
          rw [List.length_append, Nat.sub_add_eq]
        have hall : (first ++ later).length ≤ capacity - sink.written.length ↔
            later.length ≤ capacity - sink.written.length - first.length := by
          rw [List.length_append]
          omega
        simp only [hc, hroom, hall, List.append_assoc, List.take_append,
          List.take_of_length_le hf]
      · simp [hc, hf] at h

/-- What follows a write that does not fit makes no difference. -/
theorem put_append_of_error {sink rest : Sink} {first : Bytes} {fault : WireFault}
    (h : sink.put first = (.error fault, rest)) (later : Bytes) :
    sink.put (first ++ later) = (.error fault, rest) := by
  unfold put at h ⊢
  cases hc : sink.capacity with
  | none => simp [hc] at h
  | some capacity =>
      by_cases hf : first.length ≤ capacity - sink.written.length
      · simp [hc, hf] at h
      · have hall : ¬ (first ++ later).length ≤ capacity - sink.written.length := by
          rw [List.length_append]
          omega
        have htake : (first ++ later).take (capacity - sink.written.length) =
            first.take (capacity - sink.written.length) :=
          List.take_append_of_le_length (Nat.le_of_not_le hf)
        simpa only [hc, hf, hall, if_false, htake] using h

theorem put_nil (sink : Sink) : sink.put [] = (.ok (), sink) := by
  rcases sink with ⟨_ | capacity, written⟩ <;> simp [put]

/-- How a response is cut into pieces does not matter: they end up as one write of them all. -/
theorem putAll_eq_put (sink : Sink) (pieces : List Bytes) :
    sink.putAll pieces = sink.put pieces.flatten := by
  induction pieces generalizing sink with
  | nil => exact sink.put_nil.symm
  | cons piece pieces ih =>
      rw [putAll, List.flatten_cons]
      rcases hp : sink.put piece with ⟨fault | _, rest⟩
      · exact (put_append_of_error hp _).symm
      · exact (ih rest).trans (put_append_of_ok hp _).symm

/-- A sink with room for `capacity` bytes takes the first ones, and says so if these are not all. -/
theorem put_of_capacity (capacity : Nat) (bytes : Bytes) :
    put { capacity := some capacity } bytes =
      (if bytes.length ≤ capacity then .ok () else .error .full,
        { capacity := some capacity, written := bytes.take capacity }) := by
  by_cases hb : bytes.length ≤ capacity
  · simp [put, hb, List.take_of_length_le hb]
  · simp [put, hb]

end Sink

/-! ## Handling step by step -/

/-- The steps of a handler: it acts on the store or looks files up, and goes on from the answer, or
it sends some bytes. -/
inductive Handling where
  | done
  | send (bytes : Bytes) (next : Handling)
  | perform (op : Operation) (next : Answer → Handling)
  | list (max : Nat) (next : List File → Handling)

namespace Handling

/-- Takes the steps one by one; a send that fails is the last one. -/
def run : Handling → Store → Sink → Except WireFault Unit × Sink × Store
  | .done, s, sink => (.ok (), sink, s)
  | .send bytes next, s, sink =>
    match sink.put bytes with
    | (.ok (), sink) => next.run s sink
    | (.error e, sink) => (.error e, sink, s)
  | .perform op next, s, sink => (next (s.perform op).1).run (s.perform op).2 sink
  | .list max next, s, sink => (next (s.list max)).run s sink

/-- A handler that only sends, and what it sends. -/
inductive Sends : Handling → List Bytes → Prop where
  | done : Sends .done []
  | send {bytes next pieces} : Sends next pieces → Sends (.send bytes next) (bytes :: pieces)

/-- A handler that does not go back to the store once it has sent something. -/
inductive ActsFirst : Handling → Prop where
  | sends {h pieces} : Sends h pieces → ActsFirst h
  | perform {op next} : (∀ answer, ActsFirst (next answer)) → ActsFirst (.perform op next)
  | list {max next} : (∀ files, ActsFirst (next files)) → ActsFirst (.list max next)

theorem Sends.run_eq {h : Handling} {pieces : List Bytes} (hs : h.Sends pieces) (s : Store)
    (sink : Sink) : h.run s sink = ((sink.putAll pieces).1, (sink.putAll pieces).2, s) := by
  induction hs generalizing sink with
  | done => rfl
  | @send bytes next pieces _ ih =>
      rw [run, Sink.putAll]
      rcases sink.put bytes with ⟨_ | _, sink⟩
      · rfl
      · exact ih sink

/-- A handler that acts first has one effect on a store and offers the same bytes to every sink. -/
theorem ActsFirst.run_eq {h : Handling} (ha : h.ActsFirst) (s : Store) :
    ∃ bytes t, ∀ sink : Sink, h.run s sink = ((sink.put bytes).1, (sink.put bytes).2, t) := by
  induction ha generalizing s with
  | @sends h pieces hs =>
      refine ⟨pieces.flatten, s, fun sink => ?_⟩
      rw [hs.run_eq, Sink.putAll_eq_put]
  | @perform op next _ ih => exact ih (s.perform op).1 (s.perform op).2
  | @list max next _ ih => exact ih (s.list max) s

/-- The room for what it sends changes neither what such a handler does to the store nor what it
sends, only how much of that arrives. -/
theorem ActsFirst.run_of_capacity {h : Handling} (ha : h.ActsFirst) (s : Store) (capacity : Nat) :
    let whole := h.run s {}
    let cut := h.run s { capacity := some capacity }
    let response := whole.2.1.written
    whole.1 = .ok () ∧ cut.2.2 = whole.2.2 ∧ (cut.1 = .ok () ↔ response.length ≤ capacity) ∧
      cut.2.1.written = response.take (min capacity response.length) := by
  obtain ⟨bytes, t, hrun⟩ := ha.run_eq s
  have hwhole : h.run s {} = (.ok (), { written := bytes }, t) := hrun {}
  have hcut := hrun { capacity := some capacity }
  rw [Sink.put_of_capacity] at hcut
  simp only [hwhole, hcut, true_and, ← List.take_eq_take_min, and_true]
  by_cases hl : bytes.length ≤ capacity <;> simp [hl]

/-- A handler that sends first acts only if it has been heard. -/
example :
    let h : Handling := .send [0] (.perform (.create "a" ⟨1⟩ false) fun _ => .done)
    let s := Store.empty 3 9 ⟨1, fun _ => 0⟩ .fifo
    (h.run s {}).2.2.stats.files = 1 ∧ (h.run s { capacity := some 0 }).2.2.stats.files = 0 := by
  constructor <;> with_unfolding_all rfl

end Handling

/-! ## The handlers of requests -/

namespace Answer

/-- The response of one status. -/
def asStatus : Answer → Response
  | .refused _ => .status .err
  | _ => .status .ok

/-- The response to a read. -/
def asContents : Answer → Response
  | .contents bytes => .contents bytes
  | _ => .status .err

/-- The response to a write or an append. -/
def asEvicted : Answer → Response
  | .evicted files => .evicted (files.map File.sent)
  | _ => .noEvictions

end Answer

namespace Handling

def sendStatus : Answer → Handling
  | .refused _ => .send [Status.err.toByte] .done
  | _ => .send [Status.ok.toByte] .done

def sendContents : Answer → Handling
  | .contents bytes => .send [Status.ok.toByte] (.send (Bytes.word bytes.length) (.send bytes .done))
  | _ => .send [Status.err.toByte] .done

/-- Sends files one after the other, each as its two lengths, its path and its contents. -/
def sendFiles : List File → Handling → Handling
  | [], next => next
  | f :: files, next =>
    .send (Bytes.word (Bytes.ofText f.path).length) (.send (Bytes.word f.contents.length)
      (.send (Bytes.ofText f.path) (.send f.contents (sendFiles files next))))

def sendListing (files : List File) : Handling :=
  sendFiles files (.send (Bytes.word 0) .done)

def sendEvicted : Answer → Handling
  | .evicted files =>
    .send [Status.ok.toByte] (.send (Bytes.word files.length) (sendFiles files .done))
  | _ => .send [Status.err.toByte] (.send (Bytes.word 0) .done)

theorem sends_sendStatus (answer : Answer) : (sendStatus answer).Sends answer.asStatus.pieces := by
  cases answer <;> exact .send .done

theorem sends_sendContents (answer : Answer) :
    (sendContents answer).Sends answer.asContents.pieces := by
  cases answer with
  | contents bytes => exact .send (.send (.send .done))
  | _ => exact .send .done

theorem Sends.sendFiles {next : Handling} {pieces : List Bytes} (h : next.Sends pieces)
    (files : List File) :
    (sendFiles files next).Sends ((files.map File.sent).flatMap SentFile.pieces ++ pieces) := by
  induction files with
  | nil => exact h
  | cons f files ih => exact .send (.send (.send (.send ih)))

theorem sends_sendListing (files : List File) :
    (sendListing files).Sends (Response.listing (files.map File.sent)).pieces :=
  (Sends.send .done).sendFiles files

theorem sends_sendEvicted (answer : Answer) :
    (sendEvicted answer).Sends answer.asEvicted.pieces := by
  cases answer with
  | evicted files =>
      have hf := Sends.done.sendFiles files
      rw [List.append_nil] at hf
      have hl : (files.map File.sent).length = files.length := List.length_map _
      rw [Answer.asEvicted, Response.pieces, hl]
      exact .send (.send hf)
  | _ => exact .send (.send .done)

end Handling

namespace Request

/-- The handler of a client's request. -/
def handling (owner : ClientId) : Request → Handling
  | .nop => .done
  | .openFile path true locking => .perform (.create path owner locking) .sendStatus
  | .openFile path false locking => .perform (.openFile path owner locking) .sendStatus
  | .read path => .perform (.read path) .sendContents
  | .readN count => .list count.toNat .sendListing
  | .write path contents => .perform (.replace path owner contents) .sendEvicted
  | .append path contents => .perform (.append path owner contents) .sendEvicted
  | .lock path => .perform (.lock path owner) .sendStatus
  | .unlock path => .perform (.unlock path owner) .sendStatus
  | .close path => .perform (.close path owner) .sendStatus
  | .remove path => .perform (.remove path owner) .sendStatus

theorem actsFirst_handling (owner : ClientId) (request : Request) :
    (request.handling owner).ActsFirst := by
  rcases request with _ | ⟨path, create | create, lock⟩ | _ | _ | _ | _ | _ | _ | _ | _
  case nop => exact .sends .done
  case read => exact .perform fun answer => .sends (Handling.sends_sendContents answer)
  case readN => exact .list fun files => .sends (Handling.sends_sendListing files)
  case write | append => exact .perform fun answer => .sends (Handling.sends_sendEvicted answer)
  all_goals exact .perform fun answer => .sends (Handling.sends_sendStatus answer)

/-! ## Responses are those of the answers -/

theorem asStatus_ofResult {α : Type} (answer : α → Answer)
    (ha : ∀ a, (answer a).asStatus = .status .ok) (result : Except StoreError α) :
    (Answer.ofResult answer result).asStatus = .status (.ofResult result) := by
  cases result with
  | ok a => exact ha a
  | error e => rfl

theorem asEvicted_ofResult (result : Except StoreError (List File)) :
    (Answer.ofResult .evicted result).asEvicted = Response.ofEviction result := by
  cases result <;> rfl

/-- Step by step the handler comes to what the store responds, sent as far as the sink takes it. -/
theorem run_handling (owner : ClientId) (request : Request) (s : Store) (sink : Sink) :
    (request.handling owner).run s sink = s.serve owner request sink := by
  rcases request with _ | ⟨path, create | create, lock⟩ | path | _ | _ | _ | _ | _ | _ | _
  case nop => rfl
  case read =>
    rw [handling, Handling.run, (Handling.sends_sendContents _).run_eq]
    simp only [Store.serve, Store.respond, Store.perform]
    cases s.read path <;> rfl
  case readN =>
    rw [handling, Handling.run, (Handling.sends_sendListing _).run_eq]
    rfl
  case write | append =>
    rw [handling, Handling.run, (Handling.sends_sendEvicted _).run_eq, Store.perform, Prod.map_fst,
      asEvicted_ofResult]
    rfl
  all_goals
    rw [handling, Handling.run, (Handling.sends_sendStatus _).run_eq, Store.perform, Prod.map_fst,
      asStatus_ofResult _ fun _ => rfl]
    rfl

end Request

namespace Store

theorem serve_eq_put (s : Store) (owner : ClientId) (request : Request) (sink : Sink) :
    s.serve owner request sink =
      ((sink.put (s.respond owner request).1.encode).1,
        (sink.put (s.respond owner request).1.encode).2, (s.respond owner request).2) := by
  simp only [serve, Sink.putAll_eq_put, Response.encode]

/-- Whatever the store, the client, the request and the room there is for the response: what is done
to the store does not depend on the room. The response is sent in full exactly if there is room for
all its bytes, and in any case the bytes sent are the first ones, as many as there is room for. So
it is too where a handler takes steps, and each of its writes may be cut short. -/
theorem serve_whatever_room (s : Store) (owner : ClientId) (request : Request) (capacity : Nat) :
    let whole := s.serve owner request {}
    let cut := s.serve owner request { capacity := some capacity }
    let response := whole.2.1.written
    (∀ sink, s.serve owner request sink = (request.handling owner).run s sink) ∧
    response = (s.respond owner request).1.encode ∧ whole.1 = .ok () ∧
    cut.2.2 = whole.2.2 ∧
    (cut.1 = .ok () ↔ response.length ≤ capacity) ∧
    cut.2.1.written = response.take (min capacity response.length) := by
  intro whole cut response
  have hresponse : response = (s.respond owner request).1.encode :=
    congrArg (·.2.1.written) (s.serve_eq_put owner request {})
  refine ⟨fun sink => (request.run_handling owner s sink).symm, hresponse, ?_⟩
  simpa only [whole, cut, response, Request.run_handling] using
    (request.actsFirst_handling owner).run_of_capacity s capacity

end Store

end FileDepot
