import FileDepot.Response
import FileDepot.Proofs.Store.Effect

/-! # Who holds locks

No operation gives a lock to anybody but the client that asks for it, and after a release the
client holds none. A request is carried out as one operation at most. -/

namespace FileDepot

/-- The client that an operation is for. -/
def Operation.client? : Operation → Option ClientId
  | .create _ owner _ | .openFile _ owner _ | .close _ owner | .lock _ owner | .unlock _ owner
  | .remove _ owner | .replace _ owner _ | .append _ owner _ | .release owner => some owner
  | .read _ | .stats => none

/-- The operation that carries out a request. -/
def Request.operation? (owner : ClientId) : Request → Option Operation
  | .nop | .readN _ => none
  | .openFile path true locking => some (.create path owner locking)
  | .openFile path false locking => some (.openFile path owner locking)
  | .read path => some (.read path)
  | .write path contents => some (.replace path owner contents)
  | .append path contents => some (.append path owner contents)
  | .lock path => some (.lock path owner)
  | .unlock path => some (.unlock path owner)
  | .close path => some (.close path owner)
  | .remove path => some (.remove path owner)

theorem client?_of_operation? {owner : ClientId} {request : Request} {op : Operation}
    (h : request.operation? owner = some op) {c : ClientId} (hc : op.client? = some c) :
    c = owner := by
  have ho : ∀ o ∈ op.client?, o = owner := by
    rcases request with _ | ⟨path, create | create, lock⟩ | _ | _ | _ | _ | _ | _ | _ | _ <;>
      simp [Request.operation?] at h <;> subst h <;> simp [Operation.client?]
  exact ho c hc

namespace File

theorem lockOwner_changedAt {path : String} {change : File → File} {f : File} {c : ClientId}
    (hl : (changedAt path change f).lockOwner = some c) :
    f.lockOwner = some c ∨ (change f).lockOwner = some c := by
  unfold changedAt at hl
  split at hl
  · exact .inr hl
  · exact .inl hl

/-- A release takes away one client's lock and keeps everybody else's. -/
theorem releasedBy_eq (owner : ClientId) (f : File) :
    f.releasedBy owner = { f with lockOwner := f.lockOwner.filter (· ≠ owner) } := by
  obtain ⟨path, contents, isOpen, holder, generation⟩ := f
  cases holder with
  | none => rfl
  | some holder =>
      by_cases h : holder = owner <;> simp [releasedBy, unlocked, setLockOwner, Option.filter, h]

theorem lockOwner_releasedBy_iff {owner c : ClientId} {f : File} :
    (f.releasedBy owner).lockOwner = some c ↔ f.lockOwner = some c ∧ c ≠ owner := by
  rw [releasedBy_eq, Option.filter_eq_some_iff]
  simp

theorem releasedBy_releasedBy (owner : ClientId) (f : File) :
    (f.releasedBy owner).releasedBy owner = f.releasedBy owner := by
  simp only [releasedBy_eq, Option.filter_filter, Bool.and_self]

theorem releasedBy_comm (owner other : ClientId) (f : File) :
    (f.releasedBy owner).releasedBy other = (f.releasedBy other).releasedBy owner := by
  simp only [releasedBy_eq, Option.filter_filter, Bool.and_comm]

end File

/-- A lock held after an operation was held before, or is that of the client it was for. -/
theorem Effect.lockOwner_cases {s : Store} {fs peak gs : List File} {op : Operation}
    {answer : Answer} (h : Effect s fs op answer peak gs) {g : File} (hg : g ∈ gs) {c : ClientId}
    (hl : g.lockOwner = some c) : (∃ f ∈ fs, f.lockOwner = some c) ∨ op.client? = some c := by
  have hchanged : ∀ {path : String} {change : File → File}, g ∈ fs.map (File.changedAt path change) →
      ∃ f ∈ fs, f.lockOwner = some c ∨ (change f).lockOwner = some c := by
    intro path change hg
    obtain ⟨f, hf, rfl⟩ := List.mem_map.mp hg
    exact ⟨f, hf, File.lockOwner_changedAt hl⟩
  cases h with
  | refused | spared | read | stats => exact .inl ⟨g, hg, hl⟩
  | @created path owner lock =>
      rcases List.mem_append.mp hg with hg | hg
      · exact .inl ⟨g, hg, hl⟩
      · right
        rw [List.mem_singleton.mp hg] at hl
        cases lock <;> simp_all [File.create, Operation.client?]
  | @opened f owner lock =>
      obtain ⟨f, hf, hl | hl⟩ := hchanged hg
      · exact .inl ⟨f, hf, hl⟩
      · cases lock with
        | false => exact .inl ⟨f, hf, hl⟩
        | true => exact .inr hl
  | closed =>
      obtain ⟨f, hf, hl | hl⟩ := hchanged hg <;> exact .inl ⟨f, hf, hl⟩
  | locked =>
      obtain ⟨f, hf, hl | hl⟩ := hchanged hg
      · exact .inl ⟨f, hf, hl⟩
      · exact .inr hl
  | unlocked =>
      obtain ⟨f, hf, hl | hl⟩ := hchanged hg
      · exact .inl ⟨f, hf, hl⟩
      · simp at hl
  | removed => exact .inl ⟨g, (List.mem_filter.mp hg).1, hl⟩
  | replaced _ _ he =>
      obtain ⟨f, hf, hl | hl⟩ := hchanged (he.left_sublist.subset hg) <;> exact .inl ⟨f, hf, hl⟩
  | appended _ _ he =>
      obtain ⟨f, hf, hl | hl⟩ := hchanged (he.left_sublist.subset hg) <;> exact .inl ⟨f, hf, hl⟩
  | released =>
      obtain ⟨f, hf, rfl⟩ := List.mem_map.mp hg
      exact .inl ⟨f, hf, (File.lockOwner_releasedBy_iff.mp hl).1⟩

/-- A file of the list at its largest has been created by the operation, or it goes back to one
from before whose lock has not passed from hand to hand. -/
theorem Effect.origin {s : Store} {fs peak gs : List File} {op : Operation} {answer : Answer}
    (h : Effect s fs op answer peak gs) (hn : (fs.map File.path).Nodup) {g : File} (hg : g ∈ peak) :
    (∃ owner lock, op = .create g.path owner lock ∧ g.generation = s.nextGeneration) ∨
      ∃ f ∈ fs, f.ticket = g.ticket ∧
        ∀ a b, f.lockOwner = some a → g.lockOwner = some b → a = b := by
  have hsame : ∀ {f : File}, f ∈ fs → f = g → ∃ f ∈ fs, f.ticket = g.ticket ∧
      ∀ a b, f.lockOwner = some a → g.lockOwner = some b → a = b := by
    rintro f hf rfl
    exact ⟨f, hf, rfl, fun a b ha hb => Option.some.inj (ha.symm.trans hb)⟩
  have hchanged : ∀ {f : File} {change : File → File}, g ∈ fs.map (File.changedAt f.path change) →
      f ∈ fs → (∀ f, (change f).ticket = f.ticket) →
      (∀ a b, f.lockOwner = some a → (change f).lockOwner = some b → a = b) →
      ∃ f ∈ fs, f.ticket = g.ticket ∧
        ∀ a b, f.lockOwner = some a → g.lockOwner = some b → a = b := by
    intro f change hg hf hc hl
    obtain ⟨k, hk, rfl⟩ := List.mem_map.mp hg
    by_cases hp : k.path = f.path
    · obtain rfl := File.eq_of_path_eq hn hk hf hp
      rw [File.changedAt_of_eq rfl]
      exact ⟨k, hk, (hc k).symm, hl⟩
    · rw [File.changedAt_of_ne hp] at hsame ⊢
      exact hsame hk rfl
  cases h with
  | refused | spared | read | stats => exact .inr (hsame hg rfl)
  | created =>
      rcases List.mem_append.mp hg with hg | hg
      · exact .inr (hsame hg rfl)
      · rw [List.mem_singleton.mp hg]
        exact .inl ⟨_, _, rfl, rfl⟩
  | @opened f owner lock hf _ ha =>
      refine .inr (hchanged hg hf (fun _ => rfl) fun a b hla hlb => ?_)
      cases lock with
      | false => exact Option.some.inj (hla.symm.trans hlb)
      | true =>
          obtain rfl : owner = b := Option.some.inj hlb
          simpa [File.allows, hla] using ha
  | closed hf | replaced hf | appended hf =>
      exact .inr (hchanged hg hf (fun _ => rfl)
        fun a b hla hlb => Option.some.inj (hla.symm.trans hlb))
  | locked hf hu =>
      refine .inr (hchanged hg hf (fun _ => rfl) fun a b hla _ => ?_)
      simp [File.isLocked, hla] at hu
  | unlocked hf => exact .inr (hchanged hg hf (fun _ => rfl) fun a b _ hlb => nomatch hlb)
  | removed => exact .inr (hsame (List.mem_filter.mp hg).1 rfl)
  | @released owner =>
      obtain ⟨f, hf, rfl⟩ := List.mem_map.mp hg
      refine .inr ⟨f, hf, (File.ticket_releasedBy owner f).symm, fun a b ha hb => ?_⟩
      exact Option.some.inj (ha.symm.trans (File.lockOwner_releasedBy_iff.mp hb).1)

theorem Effect.lockOwner_ne_of_release {s : Store} {fs peak gs : List File} {owner : ClientId}
    {answer : Answer} (h : Effect s fs (.release owner) answer peak gs) :
    ∀ g ∈ gs, g.lockOwner ≠ some owner := by
  cases h with
  | refused hr => cases hr; contradiction
  | released =>
      intro g hg hl
      obtain ⟨f, -, rfl⟩ := List.mem_map.mp hg
      exact (File.lockOwner_releasedBy_iff.mp hl).2 rfl

namespace Store

variable {s : Store} {fs : List File}

theorem files_release (s : Store) (owner : ClientId) :
    (s.release owner).2.files = s.files.map (File.releasedBy owner) :=
  s.buckets.files_map _

theorem respond_snd (s : Store) (owner : ClientId) (request : Request) :
    (s.respond owner request).2 =
      (request.operation? owner).elim s fun op => (s.perform op).2 := by
  rcases request with _ | ⟨path, create | create, lock⟩ | path | _ | _ | _ | _ | _ | _ | _
  case read =>
    simp only [respond, Request.operation?, Option.elim_some, perform]
    cases s.read path <;> rfl
  all_goals rfl

/-- Carrying out a request gives locks to nobody but the client. -/
theorem Tracks.respond (h : s.Tracks fs) (owner : ClientId) (request : Request) :
    ∃ gs, (s.respond owner request).2.Tracks gs ∧ ∀ g ∈ gs, ∀ c, g.lockOwner = some c →
      (∃ f ∈ fs, f.lockOwner = some c) ∨ c = owner := by
  rw [respond_snd]
  cases ho : request.operation? owner with
  | none => exact ⟨fs, h, fun g hg c hl => .inl ⟨g, hg, hl⟩⟩
  | some op =>
      obtain ⟨peak, gs, hp⟩ := h.perform op
      refine ⟨gs, hp.tracks, ?_⟩
      intro g hg c hl
      exact (hp.effect.lockOwner_cases hg hl).imp_right (client?_of_operation? ho)

/-- Releasing takes the client's locks and gives none. -/
theorem Tracks.release (h : s.Tracks fs) (owner : ClientId) :
    ∃ gs, (s.release owner).2.Tracks gs ∧ ∀ g ∈ gs, ∀ c, g.lockOwner = some c →
      (∃ f ∈ fs, f.lockOwner = some c) ∧ c ≠ owner := by
  obtain ⟨peak, gs, hp⟩ := h.perform (.release owner)
  refine ⟨gs, hp.tracks, ?_⟩
  intro g hg c hl
  have hne : c ≠ owner := by
    rintro rfl
    exact hp.effect.lockOwner_ne_of_release g hg hl
  refine ⟨(hp.effect.lockOwner_cases hg hl).resolve_right ?_, hne⟩
  intro hc
  exact hne (Option.some.inj hc).symm

end Store

end FileDepot
