import FileDepot.Proofs.Store.Eviction

/-! # What an operation can do

Refusals and effects are given as rules over the tracked list, without buckets, chooser or totals.
Performing an operation follows the rules, and the store then tracks the list they give. -/

namespace FileDepot

/-- The path that an operation other than a creation looks up. -/
def Operation.target? : Operation → Option String
  | .openFile path .. | .close path _ | .lock path _ | .unlock path _ | .remove path _ | .read path
  | .replace path .. | .append path .. => some path
  | .create .. | .release _ | .stats => none

/-- The path whose contents a write or an append changes, and how it changes them. -/
def Operation.edit? : Operation → Option (String × (Bytes → Bytes))
  | .replace path _ contents => some (path, fun _ => contents)
  | .append path _ contents => some (path, (· ++ contents))
  | _ => none

/-- An operation that looks up a path finds a file under it, or is refused. -/
theorem Store.perform_of_missing {s : Store} {op : Operation} {path : String}
    (ht : op.target? = some path) (hf : s.find? path = none) :
    s.perform op = (.refused .notFound, s) := by
  cases op with
  | create | release | stats => cases ht
  | openFile | close | lock | unlock | remove =>
      cases ht
      simp only [perform, openFile, close, lock, unlock, remove, hf]
      rfl
  | read =>
      cases ht
      simp only [perform, read, hf]
      rfl
  | replace | append =>
      cases ht
      simp only [perform, replace, append, edit, hf]
      rfl

/-- When an operation is refused, and why. -/
inductive Refuses (fs : List File) : Operation → StoreError → Prop where
  | missing {op path} : op.target? = some path → (∀ f ∈ fs, f.path ≠ path) → Refuses fs op .notFound
  | created {f owner lock} : f ∈ fs → Refuses fs (.create f.path owner lock) .alreadyExists
  | opened {f owner lock} : f ∈ fs → f.isOpen = true →
      Refuses fs (.openFile f.path owner lock) .alreadyOpen
  | openForbidden {f owner lock} : f ∈ fs → f.isOpen = false → f.allows owner = false →
      Refuses fs (.openFile f.path owner lock) .forbidden
  | closed {f owner} : f ∈ fs → f.isOpen = false → Refuses fs (.close f.path owner) .alreadyClosed
  | closeForbidden {f owner} : f ∈ fs → f.isOpen = true → f.allows owner = false →
      Refuses fs (.close f.path owner) .forbidden
  | locked {f owner} : f ∈ fs → f.isLocked = true → Refuses fs (.lock f.path owner) .alreadyLocked
  | unlocked {f owner} : f ∈ fs → f.lockOwner = none →
      Refuses fs (.unlock f.path owner) .alreadyUnlocked
  | unlockForbidden {f owner holder} : f ∈ fs → f.lockOwner = some holder → holder ≠ owner →
      Refuses fs (.unlock f.path owner) .forbidden
  | replaceForbidden {f owner contents} : f ∈ fs → f.allows owner = false →
      Refuses fs (.replace f.path owner contents) .forbidden
  | appendForbidden {f owner contents} : f ∈ fs → f.allows owner = false →
      Refuses fs (.append f.path owner contents) .forbidden

namespace File

theorem ticket_releasedBy (owner : ClientId) (f : File) : (f.releasedBy owner).ticket = f.ticket := by
  unfold releasedBy
  split <;> rfl

theorem isOpen_releasedBy (owner : ClientId) (f : File) : (f.releasedBy owner).isOpen = f.isOpen := by
  unfold releasedBy
  split <;> rfl

theorem size_releasedBy (owner : ClientId) (f : File) : (f.releasedBy owner).size = f.size := by
  unfold releasedBy
  split <;> rfl

end File

theorem Totals.Counts.releasedBy {t : Totals} {fs : List File} (h : t.Counts fs) (owner : ClientId) :
    t.Counts (fs.map (File.releasedBy owner)) := by
  refine ⟨?_, ?_, ?_, h.files_le, h.bytes_le⟩
  · rw [h.openFiles_eq, List.countP_map]
    simp [Function.comp_def, File.isOpen_releasedBy]
  · rw [h.files_eq, List.length_map]
  · rw [h.bytes_eq, bytesOf_map (File.size_releasedBy owner)]

/-- What an operation that is not refused answers, the list of files at its largest, before any
eviction, and the list left. -/
inductive Effect (s : Store) (fs : List File) : Operation → Answer → List File → List File → Prop where
  | refused {op e} : Refuses fs op e → Effect s fs op (.refused e) fs fs
  | spared {f owner} : f ∈ fs → f.allows owner = false →
      Effect s fs (.remove f.path owner) (.removed false) fs fs
  | read {f} : f ∈ fs → Effect s fs (.read f.path) (.contents f.contents) fs fs
  | stats : Effect s fs .stats (.stats s.stats) fs fs
  | created {path owner lock} : (∀ f ∈ fs, f.path ≠ path) →
      Effect s fs (.create path owner lock) .done
        (fs ++ [.create path owner lock s.nextGeneration])
        (fs ++ [.create path owner lock s.nextGeneration])
  | opened {f owner lock} : f ∈ fs → f.isOpen = false → f.allows owner = true →
      Effect s fs (.openFile f.path owner lock) .done
        (fs.map (File.changedAt f.path (File.opened owner lock)))
        (fs.map (File.changedAt f.path (File.opened owner lock)))
  | closed {f owner} : f ∈ fs → f.isOpen = true → f.allows owner = true →
      Effect s fs (.close f.path owner) .done
        (fs.map (File.changedAt f.path (File.setOpen false)))
        (fs.map (File.changedAt f.path (File.setOpen false)))
  | locked {f owner} : f ∈ fs → f.isLocked = false →
      Effect s fs (.lock f.path owner) .done
        (fs.map (File.changedAt f.path (File.setLockOwner (some owner))))
        (fs.map (File.changedAt f.path (File.setLockOwner (some owner))))
  | unlocked {f owner} : f ∈ fs → f.lockOwner = some owner →
      Effect s fs (.unlock f.path owner) .done
        (fs.map (File.changedAt f.path File.unlocked))
        (fs.map (File.changedAt f.path File.unlocked))
  | removed {f owner} : f ∈ fs → f.allows owner = true →
      Effect s fs (.remove f.path owner) (.removed true)
        (fs.filter (·.path ≠ f.path)) (fs.filter (·.path ≠ f.path))
  | replaced {f owner contents victims left} : f ∈ fs → f.allows owner = true →
      Evicts s.maxFiles s.maxBytes s.chooser.policy f.path
        (fs.map (File.changedAt f.path (File.edited fun _ => contents))) victims left →
      Effect s fs (.replace f.path owner contents) (.evicted victims)
        (fs.map (File.changedAt f.path (File.edited fun _ => contents))) left
  | appended {f owner contents victims left} : f ∈ fs → f.allows owner = true →
      Evicts s.maxFiles s.maxBytes s.chooser.policy f.path
        (fs.map (File.changedAt f.path (File.edited (· ++ contents)))) victims left →
      Effect s fs (.append f.path owner contents) (.evicted victims)
        (fs.map (File.changedAt f.path (File.edited (· ++ contents)))) left
  | released {owner} : Effect s fs (.release owner) (.released (fs.countP (·.lockOwner = some owner)))
      (fs.map (File.releasedBy owner)) (fs.map (File.releasedBy owner))

/-- A write or an append that is not refused changes the contents of one file and then evicts. -/
theorem Effect.of_edit? {s : Store} {fs peak gs victims : List File} {op : Operation}
    {path : String} {change : Bytes → Bytes} (h : Effect s fs op (.evicted victims) peak gs)
    (hop : op.edit? = some (path, change)) :
    peak = fs.map (File.changedAt path (File.edited change)) ∧
      Evicts s.maxFiles s.maxBytes s.chooser.policy path peak victims gs := by
  cases h with
  | replaced _ _ he | appended _ _ he =>
      obtain ⟨rfl, rfl⟩ := Prod.mk.inj (Option.some.inj hop)
      exact ⟨rfl, he⟩

/-- Eviction only takes files off the list at its largest. -/
theorem Effect.left_sublist {s : Store} {fs peak gs : List File} {op : Operation} {answer : Answer}
    (h : Effect s fs op answer peak gs) : gs.Sublist peak := by
  cases h with
  | replaced _ _ he | appended _ _ he => exact he.left_sublist
  | _ => exact .refl _

/-- The files that an answer hands over. -/
def Answer.victims : Answer → List File
  | .evicted files => files
  | _ => []

/-- The outcome of an operation on a store that tracks a list: an effect by the rules, and a store
of the same settings that tracks the list left and has kept its history. -/
structure Performed (s : Store) (fs : List File) (op : Operation) (answer : Answer) (t : Store)
    (peak gs : List File) : Prop where
  effect : Effect s fs op answer peak gs
  tracks : t.Tracks gs
  sameSettings : s.SameSettings t
  maxFilesSeen_eq : t.totals.maxFilesSeen = max s.totals.maxFilesSeen peak.length
  maxBytesSeen_eq : t.totals.maxBytesSeen = max s.totals.maxBytesSeen (bytesOf peak)
  evictions_eq : t.totals.evictions = s.totals.evictions + answer.victims.length

namespace Store

variable {s : Store} {fs : List File}

/-! ## Outcomes of the few kinds there are -/

theorem Tracks.max_files (h : s.Tracks fs) :
    s.totals.maxFilesSeen = max s.totals.maxFilesSeen fs.length := by
  have hf := h.counts.files_le
  have hl := h.counts.files_eq
  omega

theorem Tracks.max_bytes (h : s.Tracks fs) :
    s.totals.maxBytesSeen = max s.totals.maxBytesSeen (bytesOf fs) := by
  have hb := h.counts.bytes_le
  have hl := h.counts.bytes_eq
  omega

theorem Tracks.performed_same (h : s.Tracks fs) {op : Operation} {answer : Answer}
    (he : Effect s fs op answer fs fs) (hv : answer.victims = []) :
    Performed s fs op answer s fs fs :=
  ⟨he, h, .refl s, h.max_files, h.max_bytes, by simp [hv]⟩

theorem Tracks.performed_refused (h : s.Tracks fs) {op : Operation} {e : StoreError}
    (he : Refuses fs op e) : Performed s fs op (.refused e) s fs fs :=
  h.performed_same (.refused he) rfl

theorem sameSettings_modify_count (s : Store) (path : String) (change : File → File) (a b c : Int) :
    s.SameSettings ((s.modify path change).count a b c) :=
  ⟨rfl, rfl, Buckets.placement_modify .., rfl⟩

theorem Tracks.modify_count (h : s.Tracks fs) {f : File} (hf : f ∈ fs) (change : File → File)
    (hc : ∀ f, (change f).ticket = f.ticket) {d growth : Int}
    (hd : d = (if (change f).isOpen then 1 else 0) - if f.isOpen then 1 else 0)
    (hg : growth = (change f).size - f.size) :
    ((s.modify f.path change).count d 0 growth).Tracks (fs.map (File.changedAt f.path change)) := by
  have hk := h.toKeeps.modify f.path hc
  have ht := h.counts.changedAt h.nodup hf change
  rw [← hd, ← hg] at ht
  exact ⟨⟨hk.1, hk.2, hk.3, hk.4, hk.5⟩, ht⟩

/-- An operation that changes one file, counts the difference, and evicts nothing. -/
theorem Tracks.performed_changed (h : s.Tracks fs) {f : File} (hf : f ∈ fs) (change : File → File)
    (hc : ∀ f, (change f).ticket = f.ticket) {d : Int}
    (hd : d = (if (change f).isOpen then 1 else 0) - if f.isOpen then 1 else 0)
    (hsz : (change f).size = f.size) {op : Operation} {answer : Answer} (hv : answer.victims = [])
    (he : Effect s fs op answer (fs.map (File.changedAt f.path change))
      (fs.map (File.changedAt f.path change))) :
    Performed s fs op answer ((s.modify f.path change).count d 0 0)
      (fs.map (File.changedAt f.path change)) (fs.map (File.changedAt f.path change)) := by
  have hg : (0 : Int) = (change f).size - f.size := by rw [hsz, Int.sub_self]
  have ht := h.modify_count hf change hc hd hg
  exact ⟨he, ht, sameSettings_modify_count .., ht.counts.maxFilesSeen_add,
    ht.counts.maxBytesSeen_add, by rw [hv]; rfl⟩

/-- The same without counting, where the file stays open or closed. -/
theorem Tracks.performed_modified (h : s.Tracks fs) {f : File} (hf : f ∈ fs) (change : File → File)
    (hc : ∀ f, (change f).ticket = f.ticket) (ho : (change f).isOpen = f.isOpen)
    (hsz : (change f).size = f.size) {op : Operation} {answer : Answer} (hv : answer.victims = [])
    (he : Effect s fs op answer (fs.map (File.changedAt f.path change))
      (fs.map (File.changedAt f.path change))) :
    Performed s fs op answer (s.modify f.path change)
      (fs.map (File.changedAt f.path change)) (fs.map (File.changedAt f.path change)) := by
  have hz : (s.modify f.path change).count 0 0 0 = s.modify f.path change := by
    rw [count]
    congr 1
    exact h.counts.add_zero
  rw [← hz]
  exact h.performed_changed hf change hc (by rw [ho, Int.sub_self]) hsz hv he

/-- The store after a file has been changed and counted, and before any eviction. -/
def grown (s : Store) (f : File) (change : Bytes → Bytes) : Store :=
  (s.modify f.path (File.edited change)).count 0 0
    ((change f.contents).length - f.contents.length)

theorem Tracks.grown (h : s.Tracks fs) {f : File} (hf : f ∈ fs) (change : Bytes → Bytes) :
    (s.grown f change).Tracks (fs.map (File.changedAt f.path (File.edited change))) :=
  h.modify_count hf (File.edited change) (fun _ => rfl) (Int.sub_self _).symm rfl

theorem Tracks.performed_edited (h : s.Tracks fs) {f : File} (hf : f ∈ fs) (change : Bytes → Bytes)
    {op : Operation} (he : ∀ victims left,
      Evicts s.maxFiles s.maxBytes s.chooser.policy f.path
        (fs.map (File.changedAt f.path (File.edited change))) victims left →
      Effect s fs op (.evicted victims) (fs.map (File.changedAt f.path (File.edited change))) left) :
    ∃ peak left, Performed s fs op (.evicted ((s.grown f change).evict f.path).1)
      ((s.grown f change).evict f.path).2 peak left := by
  have ht := h.grown hf change
  obtain ⟨left, hev⟩ := ht.evict f.path
  exact ⟨_, left, he _ _ hev.evicts, hev.tracks,
    (sameSettings_modify_count ..).trans hev.sameSettings,
    hev.maxFilesSeen_eq.trans ht.counts.maxFilesSeen_add,
    hev.maxBytesSeen_eq.trans ht.counts.maxBytesSeen_add, hev.evictions_eq⟩

/-! ## Looking up first -/

theorem Tracks.find?_cases (h : s.Tracks fs) (path : String) :
    (s.find? path = none ∧ ∀ f ∈ fs, f.path ≠ path) ∨
      ∃ f ∈ fs, f.path = path ∧ s.find? path = some f := by
  cases hf : s.find? path with
  | none =>
      rw [h.find?_eq] at hf
      exact .inl ⟨rfl, fun f hm => by simpa using List.find?_eq_none.mp hf f hm⟩
  | some f =>
      obtain ⟨hm, hp⟩ := h.mem_of_find? hf
      exact .inr ⟨f, hm, hp, rfl⟩

theorem Tracks.find?_path (h : s.Tracks fs) {f : File} (hf : f ∈ fs) : s.find? f.path = some f := by
  rw [h.find?_eq]
  exact File.find?_path_eq_some h.nodup hf

theorem Tracks.performed_missing (h : s.Tracks fs) {op : Operation} {path : String}
    (ht : op.target? = some path) (hf : s.find? path = none) (hne : ∀ f ∈ fs, f.path ≠ path) :
    ∃ peak gs, Performed s fs op (s.perform op).1 (s.perform op).2 peak gs := by
  rw [perform_of_missing ht hf]
  exact ⟨fs, fs, h.performed_refused (.missing ht hne)⟩

/-! ## The operations -/

theorem Tracks.perform_create (h : s.Tracks fs) (path : String) (owner : ClientId) (lock : Bool) :
    ∃ peak gs, Performed s fs (.create path owner lock) (s.perform (.create path owner lock)).1
      (s.perform (.create path owner lock)).2 peak gs := by
  rcases h.find?_cases path with ⟨hf, hne⟩ | ⟨f, hm, rfl, hf⟩
  · simp only [perform, create, hf]
    have ht : Totals.Counts (s.totals.add 1 1 0)
        (fs ++ [File.create path owner lock s.nextGeneration]) := by
      apply Totals.counts_add
      · rw [h.counts.openFiles_eq, List.countP_append]
        rfl
      · rw [h.counts.files_eq, List.length_append]
        rfl
      · rw [h.counts.bytes_eq, bytesOf, bytesOf, List.map_append, List.sum_append]
        rfl
    have hk : Keeps { s with
        buckets := s.buckets.push (File.create path owner lock s.nextGeneration)
        chooser := s.chooser.enter (File.create path owner lock s.nextGeneration)
        totals := s.totals.add 1 1 0
        nextGeneration := s.nextGeneration + 1 }
        (fs ++ [File.create path owner lock s.nextGeneration]) := by
      refine ⟨h.holds.push _, ?_, ?_, ?_, h.covers.enter rfl⟩
      · rw [List.map_append, List.nodup_append]
        refine ⟨h.nodup, by simp, ?_⟩
        intro p hp q hq hpq
        obtain ⟨g, hg, rfl⟩ := List.mem_map.mp hp
        exact hne g hg (hpq.trans (by simpa [File.create] using hq))
      · refine List.pairwise_append.mpr ⟨h.increasing, by simp, ?_⟩
        intro g hg k hk
        rw [List.mem_singleton.mp hk]
        exact h.fresh g hg
      · intro g hg
        rcases List.mem_append.mp hg with hg | hg
        · exact Nat.lt_succ_of_lt (h.fresh g hg)
        · rw [List.mem_singleton.mp hg]
          exact Nat.lt_succ_self _
    exact ⟨_, _, .created hne, ⟨hk, ht⟩, ⟨rfl, rfl, rfl, Chooser.policy_enter ..⟩,
      ht.maxFilesSeen_add, ht.maxBytesSeen_add, rfl⟩
  · simp only [perform, create, hf]
    exact ⟨fs, fs, h.performed_refused (.created hm)⟩

theorem Tracks.perform_openFile (h : s.Tracks fs) (path : String) (owner : ClientId) (lock : Bool) :
    ∃ peak gs, Performed s fs (.openFile path owner lock) (s.perform (.openFile path owner lock)).1
      (s.perform (.openFile path owner lock)).2 peak gs := by
  rcases h.find?_cases path with ⟨hf, hne⟩ | ⟨f, hm, rfl, hf⟩
  · exact h.performed_missing rfl hf hne
  · simp only [perform, openFile, hf]
    cases ho : f.isOpen with
    | true => exact ⟨fs, fs, h.performed_refused (.opened hm ho)⟩
    | false =>
        cases ha : f.allows owner with
        | false => exact ⟨fs, fs, h.performed_refused (.openForbidden hm ho ha)⟩
        | true => exact ⟨_, _, h.performed_changed hm (File.opened owner lock)
            (fun _ => rfl) (by simp [File.opened, ho]) rfl rfl (.opened hm ho ha)⟩

theorem Tracks.perform_close (h : s.Tracks fs) (path : String) (owner : ClientId) :
    ∃ peak gs, Performed s fs (.close path owner) (s.perform (.close path owner)).1
      (s.perform (.close path owner)).2 peak gs := by
  rcases h.find?_cases path with ⟨hf, hne⟩ | ⟨f, hm, rfl, hf⟩
  · exact h.performed_missing rfl hf hne
  · simp only [perform, close, hf]
    cases ho : f.isOpen with
    | false => exact ⟨fs, fs, h.performed_refused (.closed hm ho)⟩
    | true =>
        cases ha : f.allows owner with
        | false => exact ⟨fs, fs, h.performed_refused (.closeForbidden hm ho ha)⟩
        | true => exact ⟨_, _, h.performed_changed hm (File.setOpen false) (fun _ => rfl)
            (by simp [ho]) rfl rfl (.closed hm ho ha)⟩

theorem Tracks.perform_lock (h : s.Tracks fs) (path : String) (owner : ClientId) :
    ∃ peak gs, Performed s fs (.lock path owner) (s.perform (.lock path owner)).1
      (s.perform (.lock path owner)).2 peak gs := by
  rcases h.find?_cases path with ⟨hf, hne⟩ | ⟨f, hm, rfl, hf⟩
  · exact h.performed_missing rfl hf hne
  · simp only [perform, lock, hf]
    cases hl : f.isLocked with
    | true => exact ⟨fs, fs, h.performed_refused (.locked hm hl)⟩
    | false => exact ⟨_, _, h.performed_modified hm (File.setLockOwner (some owner))
        (fun _ => rfl) rfl rfl rfl (.locked hm hl)⟩

theorem Tracks.perform_unlock (h : s.Tracks fs) (path : String) (owner : ClientId) :
    ∃ peak gs, Performed s fs (.unlock path owner) (s.perform (.unlock path owner)).1
      (s.perform (.unlock path owner)).2 peak gs := by
  rcases h.find?_cases path with ⟨hf, hne⟩ | ⟨f, hm, rfl, hf⟩
  · exact h.performed_missing rfl hf hne
  · simp only [perform, unlock, hf]
    cases hl : f.lockOwner with
    | none => exact ⟨fs, fs, h.performed_refused (.unlocked hm hl)⟩
    | some holder =>
        by_cases ho : holder = owner
        · subst ho
          simp only [if_true]
          exact ⟨_, _, h.performed_modified hm File.unlocked (fun _ => rfl) rfl rfl
            rfl (.unlocked hm hl)⟩
        · simp only [ho, if_false]
          exact ⟨fs, fs, h.performed_refused (.unlockForbidden hm hl ho)⟩

theorem Tracks.perform_remove (h : s.Tracks fs) (path : String) (owner : ClientId) :
    ∃ peak gs, Performed s fs (.remove path owner) (s.perform (.remove path owner)).1
      (s.perform (.remove path owner)).2 peak gs := by
  rcases h.find?_cases path with ⟨hf, hne⟩ | ⟨f, hm, rfl, hf⟩
  · exact h.performed_missing rfl hf hne
  · simp only [perform, remove, hf]
    cases ha : f.allows owner with
    | false => exact ⟨fs, fs, h.performed_same (.spared hm ha) rfl⟩
    | true =>
        obtain ⟨rest, htake, hpl, hh⟩ := h.holds.take?_eq_some h.nodup
          (File.find?_path_eq_some h.nodup hm)
        obtain ⟨hc, hmf, hmb⟩ := h.counts.without h.nodup hm
        simp only [if_true, htake]
        refine ⟨_, _, .removed hm ha, ⟨h.toKeeps.filter hh (h.covers.filter _) _, hc⟩,
          ⟨rfl, rfl, hpl, rfl⟩, ?_, ?_, rfl⟩
        · exact hc.maxFilesSeen_add
        · exact hc.maxBytesSeen_add

theorem Tracks.perform_read (h : s.Tracks fs) (path : String) :
    ∃ peak gs, Performed s fs (.read path) (s.perform (.read path)).1
      (s.perform (.read path)).2 peak gs := by
  rcases h.find?_cases path with ⟨hf, hne⟩ | ⟨f, hm, rfl, hf⟩
  · exact h.performed_missing rfl hf hne
  · simp only [perform, read, hf]
    exact ⟨fs, fs, h.performed_same (.read hm) rfl⟩

/-- A change of contents by a client that the file allows is counted and followed by an eviction
pass. -/
theorem edit_eq {f : File} {owner : ClientId} (hf : s.find? f.path = some f)
    (ha : f.allows owner = true) (change : Bytes → Bytes) :
    s.edit f.path owner change =
      (.ok ((s.grown f change).evict f.path).1, ((s.grown f change).evict f.path).2) := by
  simp only [edit, hf, ha, if_true]
  rfl

theorem edit_of_not_allows {f : File} {owner : ClientId} (hf : s.find? f.path = some f)
    (ha : f.allows owner = false) (change : Bytes → Bytes) :
    s.edit f.path owner change = (.error .forbidden, s) := by
  simp [edit, hf, ha, refuse]

theorem edit_of_missing {path : String} (hf : s.find? path = none) (owner : ClientId)
    (change : Bytes → Bytes) : s.edit path owner change = (.error .notFound, s) := by
  simp [edit, hf, refuse]

theorem Tracks.perform_replace (h : s.Tracks fs) (path : String) (owner : ClientId)
    (contents : Bytes) : ∃ peak gs, Performed s fs (.replace path owner contents)
      (s.perform (.replace path owner contents)).1 (s.perform (.replace path owner contents)).2
      peak gs := by
  rcases h.find?_cases path with ⟨hf, hne⟩ | ⟨f, hm, rfl, hf⟩
  · exact h.performed_missing rfl hf hne
  · cases ha : f.allows owner with
    | false =>
        simp only [perform, replace, edit_of_not_allows hf ha]
        exact ⟨fs, fs, h.performed_refused (.replaceForbidden hm ha)⟩
    | true =>
        simp only [perform, replace, edit_eq hf ha]
        exact h.performed_edited hm _ fun _ _ he => .replaced hm ha he

theorem Tracks.perform_append (h : s.Tracks fs) (path : String) (owner : ClientId)
    (contents : Bytes) : ∃ peak gs, Performed s fs (.append path owner contents)
      (s.perform (.append path owner contents)).1 (s.perform (.append path owner contents)).2
      peak gs := by
  rcases h.find?_cases path with ⟨hf, hne⟩ | ⟨f, hm, rfl, hf⟩
  · exact h.performed_missing rfl hf hne
  · cases ha : f.allows owner with
    | false =>
        simp only [perform, append, edit_of_not_allows hf ha]
        exact ⟨fs, fs, h.performed_refused (.appendForbidden hm ha)⟩
    | true =>
        simp only [perform, append, edit_eq hf ha]
        exact h.performed_edited hm _ fun _ _ he => .appended hm ha he

theorem Tracks.tracks_release (h : s.Tracks fs) (owner : ClientId) :
    (s.release owner).2.Tracks (fs.map (File.releasedBy owner)) :=
  ⟨h.toKeeps.map (File.ticket_releasedBy owner), h.counts.releasedBy owner⟩

theorem Tracks.perform_release (h : s.Tracks fs) (owner : ClientId) :
    ∃ peak gs, Performed s fs (.release owner) (s.perform (.release owner)).1
      (s.perform (.release owner)).2 peak gs := by
  have hn : (s.release owner).1 = fs.countP (·.lockOwner = some owner) :=
    h.files_perm.countP_eq _
  have he : Effect s fs (.release owner) (.released (s.release owner).1)
      (fs.map (File.releasedBy owner)) (fs.map (File.releasedBy owner)) := hn ▸ .released
  have ht := h.tracks_release owner
  exact ⟨_, _, he, ht, ⟨rfl, rfl, rfl, rfl⟩, ht.max_files, ht.max_bytes, rfl⟩

/-- Whatever is performed on a store that tracks a list follows the rules. -/
theorem Tracks.perform (h : s.Tracks fs) (op : Operation) :
    ∃ peak gs, Performed s fs op (s.perform op).1 (s.perform op).2 peak gs := by
  cases op with
  | create path owner lock => exact h.perform_create path owner lock
  | openFile path owner lock => exact h.perform_openFile path owner lock
  | close path owner => exact h.perform_close path owner
  | lock path owner => exact h.perform_lock path owner
  | unlock path owner => exact h.perform_unlock path owner
  | remove path owner => exact h.perform_remove path owner
  | read path => exact h.perform_read path
  | replace path owner contents => exact h.perform_replace path owner contents
  | append path owner contents => exact h.perform_append path owner contents
  | release owner => exact h.perform_release owner
  | stats => exact ⟨fs, fs, h.performed_same .stats rfl⟩

end Store

end FileDepot
