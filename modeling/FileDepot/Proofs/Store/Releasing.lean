import FileDepot.Proofs.Store.Exclusion
import FileDepot.Proofs.Store.Layout

/-! # Letting go of all locks

A client's locks are taken off in one pass over the buckets, cell by cell along the links, in the
buckets that the pass is changing. It unlocks the client's files and leaves everything else; the
order in which clients are released does not matter, and what was locked is free to everybody. -/

namespace FileDepot

namespace File

variable {owner : ClientId} {f : File}

theorem releasedBy_of_eq (h : f.lockOwner = some owner) : f.releasedBy owner = f.unlocked :=
  if_pos h

theorem releasedBy_of_ne (h : f.lockOwner ≠ some owner) : f.releasedBy owner = f :=
  if_neg h

end File

/-! ## The pass over the buckets -/

/-- Takes a client's locks off in a bucket from a cell on. A cell is read and changed in the bucket
as it is by then, and so is the link to the next cell. The number is that of the locks. -/
inductive Bucket.Unlocks (owner : ClientId) : Bucket → Option Nat → Nat → Bucket → Prop where
  | ended {b} : Unlocks owner b none 0 b
  | held {b b' cell f n} : b.get? cell = some f → f.lockOwner = some owner →
      Unlocks owner (b.modify cell File.unlocked) ((b.modify cell File.unlocked).next? cell) n b' →
      Unlocks owner b (some cell) (n + 1) b'
  | passed {b b' cell f n} : b.get? cell = some f → f.lockOwner ≠ some owner →
      Unlocks owner b (b.next? cell) n b' → Unlocks owner b (some cell) n b'

/-- Takes a client's locks off in one bucket after the other, in each from its first cell on. -/
inductive Bucket.Sweeps (owner : ClientId) : List Bucket → Nat → List Bucket → Prop where
  | nil : Sweeps owner [] 0 []
  | cons {b b' bs bs' n m} : Unlocks owner b b.first n b' → Sweeps owner bs m bs' →
      Sweeps owner (b :: bs) (n + m) (b' :: bs')

namespace Bucket

variable {owner : ClientId} {b b' : Bucket} {n : Nat}

/-- One step of the pass, whether or not the client holds the lock. -/
theorem unlocks_some_iff {i : Nat} {f : File} (hf : b.get? i = some f) :
    Unlocks owner b (some i) n b' ↔
      ∃ m, n = m + (if f.lockOwner = some owner then 1 else 0) ∧
        Unlocks owner (b.modify i (File.releasedBy owner))
          ((b.modify i (File.releasedBy owner)).next? i) m b' := by
  by_cases ho : f.lockOwner = some owner
  · have hu : b.modify i (File.releasedBy owner) = b.modify i File.unlocked := by
      refine Chain.modify_congr fun g hg => File.releasedBy_of_eq ?_
      rwa [Option.some.inj (hg.symm.trans hf)]
    rw [hu, if_pos ho]
    constructor
    · intro h
      cases h with
      | held _ _ h => exact ⟨_, rfl, h⟩
      | passed hg hne _ => exact absurd (Option.some.inj (hf.symm.trans hg) ▸ ho) hne
    · rintro ⟨m, rfl, h⟩
      exact .held hf ho h
  · have hu : b.modify i (File.releasedBy owner) = b := by
      refine (Chain.modify_congr fun g hg => File.releasedBy_of_ne ?_).trans (b.modify_id i)
      rwa [Option.some.inj (hg.symm.trans hf)]
    rw [hu, if_neg ho]
    constructor
    · intro h
      cases h with
      | held hg he _ => exact absurd (Option.some.inj (hg.symm.trans hf) ▸ he) ho
      | passed _ _ h => exact ⟨n, rfl, h⟩
    · rintro ⟨m, rfl, h⟩
      exact .passed hf ho h

/-- When no cell passed holds a lock of the client, the rest of the pass comes to a change of all
files, and counts the locks ahead. -/
theorem unlocks_iff {front back : List Nat} (hb : b.forward = front ++ back)
    (hp : ∀ i ∈ front, ∀ f, b.get? i = some f → f.lockOwner ≠ some owner) :
    Unlocks owner b back.head? n b' ↔
      n = (back.filterMap b.get?).countP (·.lockOwner = some owner) ∧
        b' = b.map (File.releasedBy owner) := by
  induction back generalizing b front n with
  | nil =>
      have hsame : b.map (File.releasedBy owner) = b := by
        refine (Chain.map_congr fun i f hf => File.releasedBy_of_ne (hp i ?_ f hf)).trans b.map_id
        simpa [hb] using Chain.mem_forward_iff.mpr ⟨f, hf⟩
      rw [hsame]
      constructor
      · rintro ⟨⟩
        exact ⟨rfl, rfl⟩
      · rintro ⟨rfl, rfl⟩
        exact .ended
  | cons i back ih =>
      -- The step leaves the bucket `u`, and the pass goes on in it with the cells of `back`.
      obtain ⟨f, hf⟩ := Chain.mem_forward_iff.mp (by simp [hb] : i ∈ b.forward)
      let u := b.modify i (File.releasedBy owner)
      have hu : u.forward = (front ++ [i]) ++ back := by simp [u, hb]
      have hget : ∀ j, j ≠ i → u.get? j = b.get? j := fun j hj => by
        rw [Chain.get?_modify, if_neg hj]
      have hpu : ∀ j ∈ front ++ [i], ∀ g, u.get? j = some g → g.lockOwner ≠ some owner := by
        intro j hj g hg
        by_cases hji : j = i
        · rw [Chain.get?_modify, if_pos hji, hji, hf] at hg
          obtain rfl : f.releasedBy owner = g := Option.some.inj hg
          exact fun he => (File.lockOwner_releasedBy_iff.mp he).2 rfl
        · rw [hget j hji] at hg
          exact hp j (by simpa [hji] using hj) g hg
      have hnext : u.next? i = back.head? := Chain.next?_of_forward_eq (by simpa using hu)
      have hcount : back.filterMap u.get? = back.filterMap b.get? :=
        List.filterMap_congr fun j hj => hget j ((Chain.ne_of_forward_eq hb).2 j hj)
      have hmap : u.map (File.releasedBy owner) = b.map (File.releasedBy owner) :=
        b.map_modify i (File.releasedBy_releasedBy owner)
      rw [List.head?_cons, unlocks_some_iff hf]
      change (∃ m, n = m + _ ∧ Unlocks owner u (u.next? i) m b') ↔ _
      simp only [hnext, ih hu hpu, hcount, hmap, List.filterMap_cons, hf, List.countP_cons,
        decide_eq_true_eq]
      constructor
      · rintro ⟨m, rfl, rfl, rfl⟩
        exact ⟨rfl, rfl⟩
      · rintro ⟨rfl, rfl⟩
        exact ⟨_, rfl, rfl, rfl⟩

theorem unlocks_first_iff :
    Unlocks owner b b.first n b' ↔
      n = b.toList.countP (·.lockOwner = some owner) ∧ b' = b.map (File.releasedBy owner) := by
  rw [b.first_eq_head?_forward]
  exact unlocks_iff (List.nil_append _).symm (by simp)

/-- The pass over all buckets comes to a change of all files, and counts the client's locks. -/
theorem sweeps_iff {bs bs' : List Bucket} :
    Sweeps owner bs n bs' ↔
      n = (bs.flatMap Chain.toList).countP (·.lockOwner = some owner) ∧
        bs' = bs.map fun b => b.map (File.releasedBy owner) := by
  induction bs generalizing n bs' with
  | nil =>
      constructor
      · rintro ⟨⟩
        exact ⟨rfl, rfl⟩
      · rintro ⟨rfl, rfl⟩
        exact .nil
  | cons b bs ih =>
      rw [List.flatMap_cons, List.countP_append, List.map_cons]
      constructor
      · rintro (_ | ⟨hu, hs⟩)
        obtain ⟨rfl, rfl⟩ := unlocks_first_iff.mp hu
        obtain ⟨rfl, rfl⟩ := ih.mp hs
        exact ⟨rfl, rfl⟩
      · rintro ⟨rfl, rfl⟩
        exact .cons (unlocks_first_iff.mpr ⟨rfl, rfl⟩) (ih.mpr ⟨rfl, rfl⟩)

end Bucket

/-! ## What a release leaves -/

/-- A client's release takes its locks off the files and leaves the rest of a store: the files in
their cells, the cells in their order, and all that is kept beside the files. -/
structure Store.Releases (owner : ClientId) (s t : Store) : Prop where
  beside : { t with buckets := s.buckets } = s
  placement_eq : t.buckets.placement = s.buckets.placement
  forward_eq : t.buckets.chains.toList.map Chain.forward = s.buckets.chains.toList.map Chain.forward
  backward_eq :
    t.buckets.chains.toList.map Chain.backward = s.buckets.chains.toList.map Chain.backward
  get?_eq : ∀ (k cell : Nat), (t.buckets.chains.toList[k]?.bind (·.get? cell)) =
    (s.buckets.chains.toList[k]?.bind (·.get? cell)).map (File.releasedBy owner)
  files_eq : t.files = s.files.map (File.releasedBy owner)
  find?_eq : ∀ path, t.find? path = (s.find? path).map (File.releasedBy owner)

namespace Store

variable {s : Store} {fs : List File}

theorem sweeps_release_iff (s : Store) (owner : ClientId) {n : Nat} {chains : List Bucket} :
    Bucket.Sweeps owner s.buckets.chains.toList n chains ↔
      n = (s.release owner).1 ∧ chains = (s.release owner).2.buckets.chains.toList := by
  rw [Bucket.sweeps_iff, ← Buckets.chains_map]
  rfl

theorem Tracks.releases (h : s.Tracks fs) (owner : ClientId) :
    s.Releases owner (s.release owner).2 := by
  have hchains : (s.release owner).2.buckets.chains.toList =
      s.buckets.chains.toList.map fun b => b.map (File.releasedBy owner) := Buckets.chains_map ..
  refine ⟨rfl, rfl, ?_, ?_, ?_, s.files_release owner, ?_⟩
  · rw [hchains, List.map_map]
    exact List.map_congr_left fun b _ => b.forward_map _
  · rw [hchains, List.map_map]
    refine List.map_congr_left fun b _ => ?_
    rw [Function.comp_apply, Chain.backward_eq_reverse_forward, Chain.forward_map,
      Chain.backward_eq_reverse_forward]
  · intro k cell
    rw [hchains, List.getElem?_map]
    cases s.buckets.chains.toList[k]? with
    | none => rfl
    | some b => exact b.get?_map _ cell
  · intro path
    rw [(h.tracks_release owner).find?_eq, h.find?_eq, List.find?_map]
    congr 2
    funext f
    rw [Function.comp_apply, show (f.releasedBy owner).path = f.path from
      congrArg Ticket.path (File.ticket_releasedBy owner f)]

theorem release_release_snd (s : Store) (owner other : ClientId) :
    ((s.release owner).2.release other).2 =
      { s with buckets := s.buckets.map fun f => (f.releasedBy owner).releasedBy other } :=
  congrArg (fun buckets => { s with buckets }) (s.buckets.map_map ..)

/-- A second release finds nothing of the client that has been released. -/
theorem release_release_fst (s : Store) (owner other : ClientId) :
    ((s.release owner).2.release other).1 = if other = owner then 0 else (s.release other).1 := by
  have hcount : ((s.release owner).2.release other).1 =
      s.files.countP fun f => f.lockOwner = some other ∧ other ≠ owner := by
    rw [release, files_release, List.countP_map]
    refine List.countP_congr fun f _ => ?_
    simp [File.lockOwner_releasedBy_iff]
  rw [hcount]
  by_cases h : other = owner
  · simp [h]
  · simp [h, release]

/-- Released once, a client has no lock left for a second release to take. -/
theorem release_release_self (s : Store) (owner : ClientId) :
    (s.release owner).2.release owner = (0, (s.release owner).2) := by
  refine Prod.ext ?_ ?_
  · rw [release_release_fst, if_pos rfl]
  · simp only [release_release_snd, File.releasedBy_releasedBy]
    rfl

theorem release_comm (s : Store) (owner other : ClientId) :
    ((s.release owner).2.release other).2 = ((s.release other).2.release owner).2 := by
  simp only [release_release_snd, File.releasedBy_comm owner other]

end Store

/-! ## Files that nobody has locked -/

/-- What an operation on a file comes to when no client is compared with another: it is the same
whoever asks for it. -/
inductive Freely (s : Store) (f : File) : Operation → Answer → Store → Prop where
  | alreadyExists {owner lock} :
      Freely s f (.create f.path owner lock) (.refused .alreadyExists) s
  | alreadyOpen {owner lock} : f.isOpen = true →
      Freely s f (.openFile f.path owner lock) (.refused .alreadyOpen) s
  | opened {owner lock} : f.isOpen = false →
      Freely s f (.openFile f.path owner lock) .done
        ((s.modify f.path (.opened owner lock)).count 1 0 0)
  | alreadyClosed {owner} : f.isOpen = false →
      Freely s f (.close f.path owner) (.refused .alreadyClosed) s
  | closed {owner} : f.isOpen = true →
      Freely s f (.close f.path owner) .done
        ((s.modify f.path (File.setOpen false)).count (-1) 0 0)
  | locked {owner} :
      Freely s f (.lock f.path owner) .done (s.modify f.path (File.setLockOwner (some owner)))
  | alreadyUnlocked {owner} : Freely s f (.unlock f.path owner) (.refused .alreadyUnlocked) s
  | removed {owner rest} : s.buckets.take? f.path = some (f, rest) →
      Freely s f (.remove f.path owner) (.removed true)
        { s with buckets := rest, totals := s.totals.without f }
  | read : Freely s f (.read f.path) (.contents f.contents) s
  | replaced {owner contents} :
      Freely s f (.replace f.path owner contents)
        (.evicted ((s.grown f fun _ => contents).evict f.path).1)
        ((s.grown f fun _ => contents).evict f.path).2
  | appended {owner contents} :
      Freely s f (.append f.path owner contents)
        (.evicted ((s.grown f (· ++ contents)).evict f.path).1)
        ((s.grown f (· ++ contents)).evict f.path).2

namespace Store

variable {s : Store} {fs : List File}

/-- A stored file that nobody has locked is at everybody's disposal. -/
theorem Tracks.perform_freely (h : s.Tracks fs) {f : File} (hf : f ∈ fs) (hl : f.lockOwner = none)
    {op : Operation} (hop : op = .read f.path ∨ op.changes? = some f.path) :
    Freely s f op (s.perform op).1 (s.perform op).2 := by
  have hfind := h.find?_path hf
  have hallows : ∀ owner, f.allows owner = true := fun owner => by simp [File.allows, hl]
  rcases hop with rfl | hop
  · simp only [Store.perform, Store.read, hfind]
    exact .read
  cases op with
  | read | release | stats => cases hop
  | create path owner lock =>
      obtain rfl : path = f.path := Option.some.inj hop
      simp only [Store.perform, create, hfind]
      exact .alreadyExists
  | openFile path owner lock =>
      obtain rfl : path = f.path := Option.some.inj hop
      cases ho : f.isOpen with
      | true =>
          simp only [Store.perform, openFile, hfind, ho, if_true]
          exact .alreadyOpen ho
      | false =>
          simp only [Store.perform, openFile, hfind, ho, hallows, if_true]
          exact .opened ho
  | close path owner =>
      obtain rfl : path = f.path := Option.some.inj hop
      cases ho : f.isOpen with
      | true =>
          simp only [Store.perform, close, hfind, ho, hallows, if_true]
          exact .closed ho
      | false =>
          simp only [Store.perform, close, hfind, ho]
          exact .alreadyClosed ho
  | lock path owner =>
      obtain rfl : path = f.path := Option.some.inj hop
      simp only [Store.perform, lock, hfind, File.isLocked, hl]
      exact .locked
  | unlock path owner =>
      obtain rfl : path = f.path := Option.some.inj hop
      simp only [Store.perform, unlock, hfind, hl]
      exact .alreadyUnlocked
  | remove path owner =>
      obtain rfl : path = f.path := Option.some.inj hop
      obtain ⟨rest, htake, -, -⟩ :=
        h.holds.take?_eq_some h.nodup (File.find?_path_eq_some h.nodup hf)
      simp only [Store.perform, remove, hfind, hallows, if_true, htake]
      exact .removed htake
  | replace path owner contents =>
      obtain rfl : path = f.path := Option.some.inj hop
      simp only [Store.perform, replace, edit_eq hfind (hallows owner)]
      exact .replaced
  | append path owner contents =>
      obtain rfl : path = f.path := Option.some.inj hop
      simp only [Store.perform, append, edit_eq hfind (hallows owner)]
      exact .appended

/-- Nothing tells a stored file from one that is at everybody's disposal but a lock on it. -/
theorem Tracks.perform_freely_iff (h : s.Tracks fs) {f : File} (hf : f ∈ fs) :
    (∀ op, op = .read f.path ∨ op.changes? = some f.path →
      Freely s f op (s.perform op).1 (s.perform op).2) ↔ f.lockOwner = none := by
  constructor
  · intro hfree
    cases hl : f.lockOwner with
    | none => rfl
    | some holder =>
        -- The holder's own unlock is the operation that finds the lock.
        have hu := hfree (.unlock f.path holder) (.inr rfl)
        simp only [Store.perform, unlock, h.find?_path hf, hl, if_true] at hu
        cases hu
  · exact fun hl op hop => h.perform_freely hf hl hop

end Store

/-! ## Unlocking file by file -/

/-- The file without its lock if it is stored under one of some paths. -/
def File.unlockedAmong (paths : List String) (f : File) : File :=
  if f.path ∈ paths then f.unlocked else f

theorem File.unlockedAmong_changedAt (path : String) (paths : List String) (f : File) :
    unlockedAmong paths (changedAt path unlocked f) = unlockedAmong (path :: paths) f := by
  by_cases hp : f.path = path
  · subst hp
    by_cases hm : f.path ∈ paths <;> simp [unlockedAmong, changedAt, unlocked, setLockOwner, hm]
  · simp [unlockedAmong, changedAt, hp]

namespace Store

variable {s : Store} {fs : List File}

/-- A client that unlocks files of its own one by one is never refused. -/
theorem Tracks.run_unlocks (h : s.Tracks fs) {owner : ClientId} {gs : List File}
    (hg : ∀ f ∈ gs, f ∈ fs ∧ f.lockOwner = some owner) (hn : (gs.map File.path).Nodup) :
    s.run (gs.map fun f => .unlock f.path owner) = (List.replicate gs.length .done,
      { s with buckets := s.buckets.map (File.unlockedAmong (gs.map File.path)) }) := by
  induction gs generalizing s fs with
  | nil =>
      have hid : File.unlockedAmong [] = id := by
        funext f
        simp [File.unlockedAmong]
      simp [Store.run, hid, Buckets.map_id]
  | cons f gs ih =>
      obtain ⟨⟨hf, hl⟩, hgs⟩ := List.forall_mem_cons.mp hg
      obtain ⟨hfn, hns⟩ := List.nodup_cons.mp hn
      let t := s.modify f.path File.unlocked
      have ht : t.Tracks (fs.map (File.changedAt f.path File.unlocked)) :=
        (h.performed_modified hf File.unlocked (fun _ => rfl) rfl rfl rfl (.unlocked hf hl)).tracks
      have hgt : ∀ g ∈ gs, g ∈ fs.map (File.changedAt f.path File.unlocked) ∧
          g.lockOwner = some owner := by
        intro g hm
        have hp : g.path ≠ f.path := fun he => hfn (he ▸ List.mem_map_of_mem hm)
        exact ⟨List.mem_map.mpr ⟨g, (hgs g hm).1, File.changedAt_of_ne hp⟩, (hgs g hm).2⟩
      have hstep : s.perform (.unlock f.path owner) = (.done, t) := by
        simp only [Store.perform, unlock, h.find?_path hf, hl, if_true]
        rfl
      have hbuckets : t.buckets = s.buckets.map (File.changedAt f.path File.unlocked) :=
        h.holds.modify_eq_map h.nodup f.path File.unlocked
      rw [List.map_cons, Store.run, hstep]
      simp only [ih ht hgt hns, hbuckets, Buckets.map_map, File.unlockedAmong_changedAt]
      rfl

/-- To release a client is to unlock its files one by one. -/
theorem Tracks.run_unlocks_eq_release (h : s.Tracks fs) (owner : ClientId) :
    s.run ((s.files.filter (·.lockOwner = some owner)).map fun f => .unlock f.path owner) =
      (List.replicate (s.release owner).1 .done, (s.release owner).2) := by
  have hn : (s.files.map File.path).Nodup := h.toKeeps.laidOut.nodup
  let held := s.files.filter (·.lockOwner = some owner)
  have hheld : ∀ f ∈ held, f ∈ fs ∧ f.lockOwner = some owner := fun f hf =>
    ⟨h.files_perm.mem_iff.mp (List.mem_filter.mp hf).1, by simpa using (List.mem_filter.mp hf).2⟩
  have hall : s.buckets.map (File.unlockedAmong (held.map File.path)) =
      s.buckets.map (File.releasedBy owner) := by
    refine Buckets.map_congr fun f hf => ?_
    have hm : f.path ∈ held.map File.path ↔ f.lockOwner = some owner := by
      constructor
      · intro hp
        obtain ⟨g, hg, hp⟩ := List.mem_map.mp hp
        rw [← File.eq_of_path_eq hn (List.mem_filter.mp hg).1 hf hp]
        exact (hheld g hg).2
      · intro hl
        exact List.mem_map_of_mem (List.mem_filter.mpr ⟨hf, by simpa using hl⟩)
    simp only [File.unlockedAmong, File.releasedBy, hm]
  have hcount : (s.release owner).1 = held.length := List.countP_eq_length_filter
  rw [h.run_unlocks hheld (hn.sublist (List.filter_sublist.map _)), hall, hcount]
  rfl

/-- After every run and for every client: the pass over the buckets comes to the release, whichever
steps it takes, and counts the files that the client had locked. These are unlocked and everything
else is left. Repeated, a release finds nothing; those of two clients go in either order. Whatever
anybody asks of a file that was locked is done as on an unlocked one, for the release has done no
more and no less than the client's own unlocks would have. -/
theorem release_unlocks_exactly_held (maxFiles maxBytes : UInt64) (placement : Placement)
    (policy : Policy) (dice : Dice) (ops : List Operation) (owner : ClientId) :
    let s := ((empty maxFiles maxBytes placement policy dice).run ops).2
    let held := s.files.filter (·.lockOwner = some owner)
    let t := (s.release owner).2
    (∀ n chains, Bucket.Sweeps owner s.buckets.chains.toList n chains ↔
      n = (s.release owner).1 ∧ chains = t.buckets.chains.toList) ∧
    (s.release owner).1 = held.length ∧
    s.Releases owner t ∧
    t.release owner = (0, t) ∧
    (∀ other, other ≠ owner →
      (t.release other).1 = (s.release other).1 ∧
      ((s.release other).2.release owner).1 = (s.release owner).1 ∧
      (t.release other).2 = ((s.release other).2.release owner).2) ∧
    (∀ f ∈ held, ∀ op, op = .read f.path ∨ op.changes? = some f.path →
      Freely t { f with lockOwner := none } op (t.perform op).1 (t.perform op).2) ∧
    s.run (held.map fun f => .unlock f.path owner) =
      (List.replicate held.length .done, t) := by
  intro s held t
  obtain ⟨fs, hs⟩ := (tracks_empty maxFiles maxBytes placement policy dice).run ops
  have hcount : (s.release owner).1 = held.length := List.countP_eq_length_filter
  refine ⟨fun n chains => s.sweeps_release_iff owner, hcount, hs.releases owner,
    s.release_release_self owner, ?_, ?_, hcount ▸ hs.run_unlocks_eq_release owner⟩
  · intro other hne
    refine ⟨?_, ?_, s.release_comm owner other⟩
    · rw [release_release_fst, if_neg hne]
    · rw [release_release_fst, if_neg hne.symm]
  · intro f hf op hop
    obtain ⟨hf, hl⟩ := List.mem_filter.mp hf
    have hm : f.unlocked ∈ fs.map (File.releasedBy owner) :=
      List.mem_map.mpr ⟨f, hs.files_perm.mem_iff.mp hf, File.releasedBy_of_eq (by simpa using hl)⟩
    exact ((hs.tracks_release owner).perform_freely_iff hm).mpr rfl op hop

/-- A release in two buckets, past a file that another client has locked. -/
example :
    let ops : List Operation :=
      [.create "a" ⟨1⟩ true, .create "b" ⟨2⟩ true, .create "c" ⟨1⟩ true, .create "dd" ⟨1⟩ true]
    let s := ((empty 10 100 ⟨2, fun path => Fin.ofNat 2 path.length⟩ .fifo).run ops).2
    (s.release ⟨1⟩).1 = 3 ∧
      (s.release ⟨1⟩).2.files.map File.lockOwner = [none, none, some ⟨2⟩, none] := by
  decide +kernel

end Store

end FileDepot
