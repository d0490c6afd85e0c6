import FileDepot.Proofs.Store.Refinement
import FileDepot.Proofs.Store.Refusal
import FileDepot.Proofs.Wire.Requests

/-! # Clients that keep apart

Clients share buckets, budgets and the queue of the eviction policy. Those that name no path of
another see nothing of this as long as nothing is evicted: a request then depends on the file under
its path alone, and leaves all other files alone. What one client does in a shared store goes on
alongside a store of its own, whose files are among the shared ones; so no budget is exceeded there
either. -/

namespace FileDepot

/-- The files that a response hands over. -/
def Response.evictions : Response → List SentFile
  | .evicted files => files
  | _ => []

namespace Store

/-- Carries out requests of clients in turn, and collects the responses, each with its client. -/
def respondAll (s : Store) : List (ClientId × Request) → List (ClientId × Response) × Store
  | [] => ([], s)
  | (owner, request) :: turns =>
    let (response, s) := s.respond owner request
    let (responses, s) := s.respondAll turns
    ((owner, response) :: responses, s)

end Store

/-- What a client has been sent, response by response. -/
def sentTo (c : ClientId) (responses : List (ClientId × Response)) : List Bytes :=
  (responses.filter (·.1 = c)).map (·.2.encode)

/-- No path is named by two clients. -/
def Apart (turns : List (ClientId × Request)) : Prop :=
  ∀ turn ∈ turns, ∀ other ∈ turns, ∀ path ∈ turn.2.path?, path ∈ other.2.path? → turn.1 = other.1

instance (turns : List (ClientId × Request)) : Decidable (Apart turns) :=
  inferInstanceAs (Decidable (∀ turn ∈ turns, _))

/-! ## All but one file stay as they are -/

theorem find?_map_changedAt {change : File → File} (hc : ∀ f, (change f).path = f.path)
    (path q : String) (fs : List File) :
    (fs.map (File.changedAt path change)).find? (·.path = q) =
      (fs.find? (·.path = q)).map (File.changedAt path change) := by
  rw [List.find?_map]
  congr 2
  funext f
  rw [Function.comp_apply, File.path_changedAt hc]

theorem find?_filter_path_ne {path q : String} (hq : path ≠ q) (fs : List File) :
    (fs.filter (·.path ≠ path)).find? (·.path = q) = fs.find? (·.path = q) := by
  rw [List.find?_filter]
  congr 1
  funext f
  by_cases hf : f.path = q <;> simp [hf, Ne.symm hq]

/-- An operation that evicts nothing and releases no locks leaves the files of other paths. -/
theorem Effect.find?_of_ne {s : Store} {fs peak gs : List File} {op : Operation} {answer : Answer}
    (h : Effect s fs op answer peak gs) (hn : (fs.map File.path).Nodup)
    (hv : answer.victims = []) (hop : ∀ owner, op ≠ .release owner) {q : String}
    (hq : op.changes? ≠ some q) : gs.find? (·.path = q) = fs.find? (·.path = q) := by
  cases hc : op.changes? with
  | none =>
      cases h with
      | refused | read | stats => rfl
      | released => exact absurd rfl (hop _)
      | _ => cases hc
  | some path =>
      have hpq : path ≠ q := by
        rintro rfl
        exact hq hc
      have hothers : gs.filter (·.path ≠ path) = fs.filter (·.path ≠ path) := by
        simpa [hv] using h.filter_path_ne hn hc
      rw [← find?_filter_path_ne hpq gs, hothers, find?_filter_path_ne hpq]

theorem Request.operation?_spec {owner : ClientId} {request : Request} {op : Operation}
    (h : request.operation? owner = some op) :
    (∀ client, op ≠ .release client) ∧ ∀ path, op.changes? = some path → request.path? = some path := by
  rcases request with _ | ⟨path, create | create, lock⟩ | _ | _ | _ | _ | _ | _ | _ | _ <;>
    simp [operation?] at h <;> subst h <;> simp [Operation.changes?, path?]

theorem Answer.victims_ofResult {α : Type} {answer : α → Answer} (h : ∀ a, (answer a).victims = [])
    (r : Except StoreError α) : (Answer.ofResult answer r).victims = [] := by
  cases r with
  | ok a => exact h a
  | error e => rfl

theorem Response.evictions_status {α : Type} (r : Except StoreError α) :
    ((Response.status ∘ Status.ofResult) r).evictions = [] :=
  rfl

theorem Response.evictions_ofEviction (r : Except StoreError (List File)) :
    (Response.ofEviction r).evictions = (Answer.ofResult .evicted r).victims.map File.sent := by
  cases r <;> rfl

theorem File.allows_eq_of_record_eq {f g : File} (h : g.record = f.record) (owner : ClientId) :
    g.allows owner = f.allows owner := by
  rw [← allows_record, ← allows_record, h]

namespace Store

variable {s t : Store} {fs us : List File}

/-- A response hands over what the operation evicts. -/
theorem evictions_respond (s : Store) {owner : ClientId} {request : Request} {op : Operation}
    (h : request.operation? owner = some op) :
    (s.respond owner request).1.evictions = (s.perform op).1.victims.map File.sent := by
  rcases request with _ | ⟨path, create | create, lock⟩ | path | _ | _ | _ | _ | _ | _ | _ <;>
    simp only [Request.operation?, Option.some.injEq, reduceCtorEq] at h <;> subst h
  case read =>
    simp only [respond, perform]
    cases s.read path <;> rfl
  case write | append => exact Response.evictions_ofEviction _
  all_goals
    simp only [respond, perform, Prod.map_fst]
    rw [Answer.victims_ofResult fun _ => rfl, Response.evictions_status, List.map_nil]

/-- A request that evicts nothing leaves the files of other paths. -/
theorem Tracks.find?_respond_of_ne (h : s.Tracks fs) {owner : ClientId} {request : Request}
    (hv : (s.respond owner request).1.evictions = []) {q : String} (hq : request.path? ≠ some q) :
    (s.respond owner request).2.find? q = s.find? q := by
  rw [respond_snd]
  cases ho : request.operation? owner with
  | none => rfl
  | some op =>
      obtain ⟨peak, gs, hp⟩ := h.perform op
      obtain ⟨hop, hpath⟩ := Request.operation?_spec ho
      rw [evictions_respond s ho, List.map_eq_nil_iff] at hv
      rw [Option.elim_some, hp.tracks.find?_eq, h.find?_eq]
      exact hp.effect.find?_of_ne h.nodup hv hop fun hc => hq (hpath q hc)

theorem Tracks.sameSettings_respond (h : s.Tracks fs) (owner : ClientId) (request : Request) :
    s.SameSettings (s.respond owner request).2 := by
  rw [respond_snd]
  cases ho : request.operation? owner with
  | none => exact .refl s
  | some op =>
      obtain ⟨peak, gs, hp⟩ := h.perform op
      exact hp.sameSettings

/-! ## The file of one path -/

theorem Tracks.find?_created (h : s.Tracks fs) {path : String} (hn : s.find? path = none)
    (owner : ClientId) (lock : Bool) : (s.create path owner lock).2.find? path =
      some (.create path owner lock s.nextGeneration) := by
  have hh := h.holds.push (File.create path owner lock s.nextGeneration)
  have hfs : fs.find? (·.path = path) = none := (h.find?_eq path).symm.trans hn
  simp only [create, hn]
  refine (hh.find?_eq path).trans ?_
  rw [List.find?_append, hfs, Option.none_or, List.find?_cons_of_pos (by simp [File.create])]

theorem Tracks.remove_allowed (h : s.Tracks fs) {path : String} {f : File}
    (hf : s.find? path = some f) {owner : ClientId} (ha : f.allows owner = true) :
    (s.remove path owner).1 = .ok true ∧ (s.remove path owner).2.find? path = none := by
  obtain ⟨rest, ht, -, hh⟩ := h.holds.take?_eq_some h.nodup ((h.find?_eq path).symm.trans hf)
  simp only [remove, hf, ha, ht, if_true, true_and]
  refine (hh.find?_eq path).trans (List.find?_eq_none.mpr fun g hg => ?_)
  simpa using (List.mem_filter.mp hg).2

/-- Two stores show the same under a path. -/
def SameAt (path : String) (s t : Store) : Prop :=
  (t.find? path).map File.record = (s.find? path).map File.record

/-- Outcomes of one answer that leave the same under a path. -/
structure Agree {α : Type} (path : String) (a b : Outcome α) : Prop where
  answer_eq : b.1 = a.1
  same : SameAt path a.2 b.2

namespace SameAt

variable {path : String}

theorem cases (h : SameAt path s t) : (s.find? path = none ∧ t.find? path = none) ∨
    ∃ f g, s.find? path = some f ∧ t.find? path = some g ∧ g.record = f.record := by
  unfold SameAt at h
  cases hf : s.find? path <;> cases hg : t.find? path <;> simp_all

theorem refuse {α : Type} (h : SameAt path s t) (e : StoreError) :
    Agree path (s.refuse (α := α) e) (t.refuse e) :=
  ⟨rfl, h⟩

/-- A change of what there is to see keeps it the same. -/
theorem modify (h : SameAt path s t) (hs : s.Keeps fs) (ht : t.Keeps us) {change : File → File}
    (hc : ∀ f, (change f).ticket = f.ticket) (φ : Record → Record)
    (hφ : ∀ f, (change f).record = φ f.record) :
    SameAt path (s.modify path change) (t.modify path change) := by
  have hp : ∀ f, (change f).path = f.path := fun f => congrArg Ticket.path (hc f)
  have hfind : ∀ {u : Store} {gs : List File}, u.Keeps gs →
      ((u.modify path change).find? path).map File.record =
        ((u.find? path).map File.record).map φ := by
    intro u gs hu
    rw [(hu.modify path hc).find?_eq, hu.find?_eq, find?_map_changedAt hp]
    cases hf : gs.find? (·.path = path) with
    | none => rfl
    | some f =>
        have hfp : f.path = path := by simpa using List.find?_some hf
        simp only [Option.map_some, File.changedAt_of_eq hfp, hφ]
  rw [SameAt, hfind hs, hfind ht, h]

theorem openFile (h : SameAt path s t) (hs : s.Tracks fs) (ht : t.Tracks us) (owner : ClientId)
    (lock : Bool) : Agree path (s.openFile path owner lock) (t.openFile path owner lock) := by
  rcases h.cases with ⟨hf, hg⟩ | ⟨f, g, hf, hg, hr⟩
  · simp only [Store.openFile, hf, hg]
    exact h.refuse _
  · have ho : g.isOpen = f.isOpen := congrArg Record.isOpen hr
    simp only [Store.openFile, hf, hg, ho, File.allows_eq_of_record_eq hr]
    split
    · exact h.refuse _
    · split
      · exact ⟨rfl, h.modify hs.toKeeps ht.toKeeps (fun _ => rfl)
          (fun r => { r with isOpen := true, lockOwner := if lock then some owner else r.lockOwner })
          fun _ => rfl⟩
      · exact h.refuse _

theorem close (h : SameAt path s t) (hs : s.Tracks fs) (ht : t.Tracks us) (owner : ClientId) :
    Agree path (s.close path owner) (t.close path owner) := by
  rcases h.cases with ⟨hf, hg⟩ | ⟨f, g, hf, hg, hr⟩
  · simp only [Store.close, hf, hg]
    exact h.refuse _
  · have ho : g.isOpen = f.isOpen := congrArg Record.isOpen hr
    simp only [Store.close, hf, hg, ho, File.allows_eq_of_record_eq hr]
    split
    · exact h.refuse _
    · split
      · exact ⟨rfl, h.modify hs.toKeeps ht.toKeeps (fun _ => rfl)
          (fun r => { r with isOpen := false }) fun _ => rfl⟩
      · exact h.refuse _

theorem lock (h : SameAt path s t) (hs : s.Tracks fs) (ht : t.Tracks us) (owner : ClientId) :
    Agree path (s.lock path owner) (t.lock path owner) := by
  rcases h.cases with ⟨hf, hg⟩ | ⟨f, g, hf, hg, hr⟩
  · simp only [Store.lock, hf, hg]
    exact h.refuse _
  · have hl : g.isLocked = f.isLocked := congrArg (fun r => r.lockOwner.isSome) hr
    simp only [Store.lock, hf, hg, hl]
    split
    · exact h.refuse _
    · exact ⟨rfl, h.modify hs.toKeeps ht.toKeeps (fun _ => rfl)
        (fun r => { r with lockOwner := some owner }) fun _ => rfl⟩

theorem unlock (h : SameAt path s t) (hs : s.Tracks fs) (ht : t.Tracks us) (owner : ClientId) :
    Agree path (s.unlock path owner) (t.unlock path owner) := by
  rcases h.cases with ⟨hf, hg⟩ | ⟨f, g, hf, hg, hr⟩
  · simp only [Store.unlock, hf, hg]
    exact h.refuse _
  · have hl : g.lockOwner = f.lockOwner := congrArg Record.lockOwner hr
    simp only [Store.unlock, hf, hg, hl]
    cases f.lockOwner with
    | none => exact h.refuse _
    | some holder =>
        dsimp only
        split
        · exact ⟨rfl, h.modify hs.toKeeps ht.toKeeps (fun _ => rfl)
            (fun r => { r with lockOwner := none }) fun _ => rfl⟩
        · exact h.refuse _

theorem create (h : SameAt path s t) (hs : s.Tracks fs) (ht : t.Tracks us) (owner : ClientId)
    (lock : Bool) : Agree path (s.create path owner lock) (t.create path owner lock) := by
  rcases h.cases with ⟨hf, hg⟩ | ⟨f, g, hf, hg, -⟩
  · refine ⟨by simp only [Store.create, hf, hg], ?_⟩
    rw [SameAt, hs.find?_created hf, ht.find?_created hg]
    rfl
  · simp only [Store.create, hf, hg]
    exact h.refuse _

theorem remove (h : SameAt path s t) (hs : s.Tracks fs) (ht : t.Tracks us) (owner : ClientId) :
    Agree path (s.remove path owner) (t.remove path owner) := by
  rcases h.cases with ⟨hf, hg⟩ | ⟨f, g, hf, hg, hr⟩
  · simp only [Store.remove, hf, hg]
    exact h.refuse _
  · have hag := File.allows_eq_of_record_eq hr owner
    cases ha : f.allows owner with
    | false =>
        simp only [Store.remove, hf, hg, hag, ha]
        exact ⟨rfl, h⟩
    | true =>
        obtain ⟨hsa, hsf⟩ := hs.remove_allowed hf ha
        obtain ⟨hta, htf⟩ := ht.remove_allowed hg (hag.trans ha)
        refine ⟨hta.trans hsa.symm, ?_⟩
        rw [SameAt, hsf, htf]

end SameAt

/-! ## Passes that have nothing to do -/

theorem evict_of_not_overBudget (h : ¬ s.OverBudget) (protect : String) :
    s.evict protect = ([], s) := by
  simp only [evict, evictUpTo, h, if_false]

theorem Tracks.not_overBudget_of_evict (h : s.Tracks fs) (hne : fs ≠ []) {protect : String}
    (he : (s.evict protect).1 = []) : ¬ s.OverBudget := by
  obtain ⟨left, hev⟩ := h.evict protect
  have hevicts := hev.evicts
  rw [h.overBudget_iff]
  rw [he] at hevicts
  cases hevicts with
  | within hx => exact hx
  | exhausted => exact absurd rfl hne

/-! ## A store of one's own -/

/-- Files whose records are among those of others are over no budget that these are within. -/
theorem exceeds_of_subperm {maxFiles maxBytes : UInt64}
    (h : (us.map File.record).Subperm (fs.map File.record)) (hx : Exceeds maxFiles maxBytes us) :
    Exceeds maxFiles maxBytes fs := by
  obtain ⟨records, hp, hsub⟩ := h
  have hl : us.length ≤ fs.length := by
    simpa [hp.length_eq] using hsub.length_le
  have hb : bytesOf us ≤ bytesOf fs := by
    rw [← bytes_map_record, ← bytes_map_record, FlatStore.bytes, FlatStore.bytes,
      ← (hp.map Record.size).sum_nat]
    exact (hsub.map Record.size).sum_le_sum fun _ _ => Nat.zero_le _
  exact hx.imp (fun hx => by omega) fun hx => by omega

/-- A store beside a shared one, of the same budgets: the files under some paths are as in the
shared one, and there are no others. -/
structure Alongside (mine : String → Prop) (s t : Store) : Prop where
  shared : ∃ fs, s.Tracks fs
  own : ∃ us, t.Tracks us
  maxFiles_eq : t.maxFiles = s.maxFiles
  maxBytes_eq : t.maxBytes = s.maxBytes
  same : ∀ path, mine path → SameAt path s t
  only : ∀ path, ¬ mine path → t.find? path = none

namespace Alongside

variable {mine : String → Prop}

theorem records_subperm (h : Alongside mine s t) (hs : s.Tracks fs) (ht : t.Tracks us) :
    (us.map File.record).Subperm (fs.map File.record) := by
  refine List.subperm_of_subset ?_ ?_
  · have hn := ht.nodup
    rw [show File.path = Record.path ∘ File.record from rfl, ← List.map_map] at hn
    exact hn.of_map
  · intro r hr
    obtain ⟨g, hg, rfl⟩ := List.mem_map.mp hr
    have hfind := ht.find?_path hg
    have hm : mine g.path := by
      by_contra hm
      simp [h.only _ hm] at hfind
    rcases (h.same _ hm).cases with ⟨-, hn⟩ | ⟨f, k, hf, hk, he⟩
    · simp [hn] at hfind
    · obtain rfl : g = k := Option.some.inj (hfind.symm.trans hk)
      exact List.mem_map.mpr ⟨f, (hs.mem_of_find? hf).1, he.symm⟩

/-- What does not exceed a budget of the shared store once a file has grown, does not exceed it
in the store beside it. -/
theorem not_overBudget_grown (h : Alongside mine s t) (hs : s.Tracks fs) (ht : t.Tracks us)
    {f g : File} (hf : f ∈ fs) (hg : g ∈ us) (hp : g.path = f.path) {change : Bytes → Bytes}
    (hx : ¬ (s.grown f change).OverBudget) : ¬ (t.grown g change).OverBudget := by
  rw [(hs.grown hf change).overBudget_iff] at hx
  rw [(ht.grown hg change).overBudget_iff]
  have hmf : (t.grown g change).maxFiles = (s.grown f change).maxFiles := h.maxFiles_eq
  have hmb : (t.grown g change).maxBytes = (s.grown f change).maxBytes := h.maxBytes_eq
  rw [hmf, hmb, hp]
  refine mt (exceeds_of_subperm ?_) hx
  let grown (r : Record) : Record := { r with contents := change r.contents }
  have hc : ∀ k : File, (k.edited change).record = grown k.record := fun _ => rfl
  obtain ⟨records, hperm, hsub⟩ := h.records_subperm hs ht
  rw [← map_changedAt_record hc, ← map_changedAt_record hc]
  exact ⟨_, hperm.map _, hsub.map _⟩

/-- A write or an append that evicts nothing from the shared store does the same to both. -/
theorem edit (h : Alongside mine s t) {path : String} (hp : mine path) (owner : ClientId)
    (change : Bytes → Bytes)
    (hv : ∀ victims, (s.edit path owner change).1 = .ok victims → victims = []) :
    Agree path (s.edit path owner change) (t.edit path owner change) := by
  obtain ⟨fs, hs⟩ := h.shared
  obtain ⟨us, ht⟩ := h.own
  have hsame := h.same path hp
  rcases hsame.cases with ⟨hf, hg⟩ | ⟨f, g, hf, hg, hr⟩
  · rw [edit_of_missing hf, edit_of_missing hg]
    exact ⟨rfl, hsame⟩
  · obtain ⟨hfm, rfl⟩ := hs.mem_of_find? hf
    obtain ⟨hgm, hgp⟩ := ht.mem_of_find? hg
    have hag := File.allows_eq_of_record_eq hr owner
    have hg' : t.find? g.path = some g := hgp.symm ▸ hg
    cases ha : f.allows owner with
    | false =>
        rw [edit_of_not_allows hf ha, ← hgp, edit_of_not_allows hg' (hag.trans ha)]
        exact ⟨rfl, hgp ▸ hsame⟩
    | true =>
        have hte : t.edit f.path owner change = _ := hgp ▸ edit_eq hg' (hag.trans ha) change
        rw [edit_eq hf ha] at hv ⊢
        have hx := (hs.grown hfm change).not_overBudget_of_evict
          (by simpa using List.ne_nil_of_mem hfm) (hv _ rfl)
        have hy := h.not_overBudget_grown hs ht hfm hgm hgp hx
        rw [hte, evict_of_not_overBudget hx, evict_of_not_overBudget hy]
        have hm : SameAt f.path (s.modify f.path (File.edited change))
            (t.modify f.path (File.edited change)) :=
          hsame.modify hs.toKeeps ht.toKeeps (fun _ => rfl)
            (fun r => { r with contents := change r.contents }) fun _ => rfl
        have hgrown : t.grown g change = (t.modify f.path (File.edited change)).count 0 0
            ((change g.contents).length - g.contents.length) := by
          rw [grown, hgp]
        refine ⟨rfl, ?_⟩
        rw [hgrown]
        exact hm

/-! ## One request -/

/-- A request for a path of one's own is answered alike and leaves the same under it. -/
theorem respond_sameAt (h : Alongside mine s t) {owner : ClientId} {request : Request}
    (hl : request.opcode? ≠ some .readNFiles)
    (hm : ∀ path, request.path? = some path → mine path)
    (hv : (s.respond owner request).1.evictions = []) :
    (t.respond owner request).1 = (s.respond owner request).1 ∧
      ∀ path, request.path? = some path →
        SameAt path (s.respond owner request).2 (t.respond owner request).2 := by
  obtain ⟨fs, hs⟩ := h.shared
  obtain ⟨us, ht⟩ := h.own
  have hsame := fun path hp => h.same path (hm path hp)
  have hagree : ∀ {α : Type} {path : String} {a b : Outcome α} (send : Except StoreError α → Response),
      Agree path a b → (b.map send id).1 = (a.map send id).1 ∧
        ∀ q, some path = some q → SameAt q (a.map send id).2 (b.map send id).2 := by
    rintro α path a b send ⟨ha, hq⟩
    refine ⟨congrArg send ha, ?_⟩
    rintro q he
    exact Option.some.inj he ▸ hq
  have hvictims : ∀ {r : Except StoreError (List File)}, (Response.ofEviction r).evictions = [] →
      ∀ victims, r = .ok victims → victims = [] := by
    rintro _ hv victims rfl
    exact List.map_eq_nil_iff.mp hv
  cases request with
  | nop => exact ⟨rfl, by simp [Request.path?]⟩
  | readN count => exact absurd rfl hl
  | openFile path create lock =>
      cases create with
      | false => exact hagree _ ((hsame path rfl).openFile hs ht owner lock)
      | true => exact hagree _ ((hsame path rfl).create hs ht owner lock)
  | read path =>
      refine ⟨?_, fun q hq => ?_⟩
      · rcases (hsame path rfl).cases with ⟨hf, hg⟩ | ⟨f, g, hf, hg, hr⟩
        · simp only [respond, Store.read, hf, hg]
        · have hc : g.contents = f.contents := congrArg Record.contents hr
          simp only [respond, Store.read, hf, hg, hc]
      · simp only [respond_snd, Request.operation?, Option.elim_some, perform]
        exact hsame q hq
  | write path contents =>
      exact hagree .ofEviction (h.edit (hm path rfl) owner (fun _ => contents) (hvictims hv))
  | append path contents =>
      exact hagree .ofEviction (h.edit (hm path rfl) owner (· ++ contents) (hvictims hv))
  | lock path => exact hagree _ ((hsame path rfl).lock hs ht owner)
  | unlock path => exact hagree _ ((hsame path rfl).unlock hs ht owner)
  | close path => exact hagree _ ((hsame path rfl).close hs ht owner)
  | remove path => exact hagree _ ((hsame path rfl).remove hs ht owner)

/-- A request of one's own is carried out alike in both stores. -/
theorem respond (h : Alongside mine s t) {owner : ClientId} {request : Request}
    (hl : request.opcode? ≠ some .readNFiles)
    (hm : ∀ path, request.path? = some path → mine path)
    (hv : (s.respond owner request).1.evictions = []) :
    (t.respond owner request).1 = (s.respond owner request).1 ∧
      Alongside mine (s.respond owner request).2 (t.respond owner request).2 := by
  obtain ⟨fs, hs⟩ := h.shared
  obtain ⟨us, ht⟩ := h.own
  obtain ⟨ha, hsame⟩ := h.respond_sameAt hl hm hv
  have hv' : (t.respond owner request).1.evictions = [] := ha ▸ hv
  have hss := hs.sameSettings_respond owner request
  have hts := ht.sameSettings_respond owner request
  obtain ⟨gs, hgs, -⟩ := hs.respond owner request
  obtain ⟨ks, hks, -⟩ := ht.respond owner request
  refine ⟨ha, ⟨gs, hgs⟩, ⟨ks, hks⟩, ?_, ?_, ?_, ?_⟩
  · rw [hts.maxFiles_eq, hss.maxFiles_eq, h.maxFiles_eq]
  · rw [hts.maxBytes_eq, hss.maxBytes_eq, h.maxBytes_eq]
  · intro path hp
    by_cases hr : request.path? = some path
    · exact hsame path hr
    · rw [SameAt, hs.find?_respond_of_ne hv hr, ht.find?_respond_of_ne hv' hr]
      exact h.same path hp
  · intro path hp
    have hr : request.path? ≠ some path := fun hr => hp (hm path hr)
    rw [ht.find?_respond_of_ne hv' hr]
    exact h.only path hp

/-- The request of another client passes the store beside the shared one by. -/
theorem respond_other (h : Alongside mine s t) {owner : ClientId} {request : Request}
    (hm : ∀ path, request.path? = some path → ¬ mine path)
    (hv : (s.respond owner request).1.evictions = []) :
    Alongside mine (s.respond owner request).2 t := by
  obtain ⟨fs, hs⟩ := h.shared
  have hss := hs.sameSettings_respond owner request
  obtain ⟨gs, hgs, -⟩ := hs.respond owner request
  refine ⟨⟨gs, hgs⟩, h.own, ?_, ?_, ?_, h.only⟩
  · rw [hss.maxFiles_eq, h.maxFiles_eq]
  · rw [hss.maxBytes_eq, h.maxBytes_eq]
  · intro path hp
    have hr : request.path? ≠ some path := fun hr => hm path hr hp
    rw [SameAt, hs.find?_respond_of_ne hv hr]
    exact h.same path hp

/-- A client's turns go alike in both stores, whatever turns others take in the shared one. -/
theorem respondAll (h : Alongside mine s t) {c : ClientId} {turns : List (ClientId × Request)}
    (hl : ∀ turn ∈ turns, turn.2.opcode? ≠ some .readNFiles)
    (hm : ∀ turn ∈ turns, ∀ path, turn.2.path? = some path → (mine path ↔ turn.1 = c))
    (hv : ∀ sent ∈ (s.respondAll turns).1, sent.2.evictions = []) :
    sentTo c (s.respondAll turns).1 =
        (t.respondAll (turns.filter (·.1 = c))).1.map (·.2.encode) ∧
      Alongside mine (s.respondAll turns).2 (t.respondAll (turns.filter (·.1 = c))).2 := by
  -- The induction is on the shared run; only the client's turns are taken in both stores.
  induction turns generalizing s t with
  | nil => exact ⟨rfl, h⟩
  | cons turn turns ih =>
      obtain ⟨owner, request⟩ := turn
      obtain ⟨hl, hls⟩ := List.forall_mem_cons.mp hl
      obtain ⟨hm, hms⟩ := List.forall_mem_cons.mp hm
      obtain ⟨hv, hvs⟩ := List.forall_mem_cons.mp hv
      by_cases ho : owner = c
      · obtain ⟨ha, hnext⟩ := h.respond hl (fun path hp => (hm path hp).mpr ho) hv
        obtain ⟨hsent, hrest⟩ := ih hnext hls hms hvs
        rw [List.filter_cons_of_pos (by simpa using ho)]
        refine ⟨?_, hrest⟩
        simp only [Store.respondAll, List.map_cons, ha, ← hsent, sentTo]
        rw [List.filter_cons_of_pos (by simpa using ho), List.map_cons]
      · have hnext := h.respond_other (fun path hp hmine => ho ((hm path hp).mp hmine)) hv
        obtain ⟨hsent, hrest⟩ := ih hnext hls hms hvs
        rw [List.filter_cons_of_neg (by simpa using ho)]
        refine ⟨?_, hrest⟩
        rw [← hsent, sentTo, sentTo, Store.respondAll, List.filter_cons_of_neg (by simpa using ho)]

end Alongside

/-- Turns that evict nothing leave alone what none of them names. -/
theorem Tracks.find?_respondAll (h : s.Tracks fs) {turns : List (ClientId × Request)}
    (hv : ∀ sent ∈ (s.respondAll turns).1, sent.2.evictions = []) {q : String}
    (hq : ∀ turn ∈ turns, turn.2.path? ≠ some q) :
    (∃ gs, (s.respondAll turns).2.Tracks gs) ∧ (s.respondAll turns).2.find? q = s.find? q := by
  induction turns generalizing s fs with
  | nil => exact ⟨⟨fs, h⟩, rfl⟩
  | cons turn turns ih =>
      obtain ⟨hq, hqs⟩ := List.forall_mem_cons.mp hq
      obtain ⟨hv, hvs⟩ := List.forall_mem_cons.mp hv
      obtain ⟨gs, hgs, -⟩ := h.respond turn.1 turn.2
      obtain ⟨hrest, hfind⟩ := ih hgs hvs hqs
      exact ⟨hrest, hfind.trans (h.find?_respond_of_ne hv hq)⟩

theorem Tracks.find?_of_mem_files (h : s.Tracks fs) {f : File} (hf : f ∈ s.files) :
    s.find? f.path = some f :=
  h.find?_path (h.files_perm.mem_iff.mp hf)

theorem find?_empty (maxFiles maxBytes : UInt64) (placement : Placement) (policy : Policy)
    (dice : Dice) (path : String) :
    (empty maxFiles maxBytes placement policy dice).find? path = none :=
  (tracks_empty maxFiles maxBytes placement policy dice).find?_eq path

theorem alongside_empty (mine : String → Prop) (maxFiles maxBytes : UInt64)
    (placement : Placement) (policy : Policy) (dice dice' : Dice) :
    Alongside mine (empty maxFiles maxBytes placement policy dice)
      (empty maxFiles maxBytes placement policy dice') := by
  refine ⟨⟨_, tracks_empty ..⟩, ⟨_, tracks_empty ..⟩, rfl, rfl, ?_, ?_⟩
  · intro path _
    rw [SameAt, find?_empty, find?_empty]
  · exact fun path _ => find?_empty ..

/-- Clients that name no path of another do not notice one another. Whatever the settings of a
store, its dice and the order in which the clients take turns: when none of the turns is a listing
and none evicts a file, each client is sent, byte for byte and response by response, what it would
be sent if it alone took its turns on a store of the same settings, and its files end up as they
would there. All files of the shared store are the clients'. -/
theorem respondAll_apart (maxFiles maxBytes : UInt64) (placement : Placement) (policy : Policy)
    (dice dice' : Dice) (turns : List (ClientId × Request)) (ha : Apart turns)
    (hl : ∀ turn ∈ turns, turn.2.opcode? ≠ some .readNFiles) :
    let shared := (empty maxFiles maxBytes placement policy dice).respondAll turns
    (∀ sent ∈ shared.1, sent.2.evictions = []) →
      (∀ f ∈ shared.2.files, ∃ turn ∈ turns, turn.2.path? = some f.path) ∧
      ∀ c : ClientId,
        let own := turns.filter (·.1 = c)
        let alone := (empty maxFiles maxBytes placement policy dice').respondAll own
        sentTo c shared.1 = alone.1.map (·.2.encode) ∧
        (∀ f ∈ alone.2.files, ∃ turn ∈ own, turn.2.path? = some f.path) ∧
        ∀ turn ∈ own, ∀ path, turn.2.path? = some path →
          (alone.2.find? path).map File.record = (shared.2.find? path).map File.record := by
  intro shared hv
  have hempty := tracks_empty maxFiles maxBytes placement policy dice
  refine ⟨?_, ?_⟩
  · intro f hf
    by_contra hn
    have hq : ∀ turn ∈ turns, turn.2.path? ≠ some f.path := fun turn ht hp => hn ⟨turn, ht, hp⟩
    obtain ⟨⟨gs, hgs⟩, hfind⟩ := hempty.find?_respondAll hv hq
    rw [hgs.find?_of_mem_files hf, find?_empty] at hfind
    cases hfind
  · intro c own alone
    let mine (path : String) : Prop := ∃ turn ∈ own, turn.2.path? = some path
    have hmine : ∀ turn ∈ turns, ∀ path, turn.2.path? = some path → (mine path ↔ turn.1 = c) := by
      intro turn ht path hp
      constructor
      · rintro ⟨other, ho, hop⟩
        obtain ⟨ho, hc⟩ := List.mem_filter.mp ho
        exact (ha turn ht other ho path hp hop).trans (by simpa using hc)
      · intro hc
        exact ⟨turn, List.mem_filter.mpr ⟨ht, by simpa using hc⟩, hp⟩
    obtain ⟨hsent, halong⟩ := (alongside_empty mine maxFiles maxBytes placement policy dice
      dice').respondAll hl hmine hv
    refine ⟨hsent, ?_, ?_⟩
    · intro f hf
      by_contra hn
      obtain ⟨us, hus⟩ := halong.own
      have hfind := hus.find?_of_mem_files hf
      rw [halong.only f.path hn] at hfind
      cases hfind
    · exact fun turn ht path hp => halong.same path ⟨turn, ht, hp⟩

/-- Two clients whose files share a bucket and fill the store to its limits. -/
theorem respondAll_apart_one_bucket :
    let turns : List (ClientId × Request) := [(⟨1⟩, .openFile "a" true true),
      (⟨2⟩, .openFile "b" true false), (⟨1⟩, .write "a" [1, 2]), (⟨2⟩, .remove "b"),
      (⟨2⟩, .openFile "b" true true), (⟨1⟩, .append "a" [3]), (⟨2⟩, .append "b" [7]),
      (⟨2⟩, .close "b"), (⟨1⟩, .read "a")]
    let s := Store.empty 2 4 ⟨2, fun path => Fin.ofNat 2 path.length⟩ .fifo
    let shared := s.respondAll turns
    let alone := s.respondAll (turns.filter (·.1 = ⟨2⟩))
    Apart turns ∧ (∀ turn ∈ turns, turn.2.opcode? ≠ some .readNFiles) ∧
      (∀ sent ∈ shared.1, sent.2.evictions = []) ∧
      sentTo ⟨2⟩ shared.1 = alone.1.map (·.2.encode) ∧
      (shared.2.find? "b").map File.record = some ⟨"b", [7], false, some ⟨2⟩⟩ ∧
      (alone.2.find? "b").map File.record = (shared.2.find? "b").map File.record := by
  have ha : Apart [(⟨1⟩, .openFile "a" true true), (⟨2⟩, .openFile "b" true false),
      (⟨1⟩, .write "a" [1, 2]), (⟨2⟩, .remove "b"), (⟨2⟩, .openFile "b" true true),
      (⟨1⟩, .append "a" [3]), (⟨2⟩, .append "b" [7]), (⟨2⟩, .close "b"), (⟨1⟩, .read "a")] := by
    decide
  obtain ⟨-, hc⟩ := respondAll_apart 2 4 ⟨2, fun path => Fin.ofNat 2 path.length⟩ .fifo
    ⟨fun _ => 0, 0⟩ ⟨fun _ => 0, 0⟩ _ ha (by decide) (by decide +kernel)
  obtain ⟨hsent, -, hfind⟩ := hc ⟨2⟩
  exact ⟨ha, by decide, by decide +kernel, hsent, by decide +kernel,
    hfind (⟨2⟩, .remove "b") (by decide) "b" rfl⟩

end Store

end FileDepot
