import FileDepot.Proofs.Store.Effect

/-! # Budgets along a run

A write or an append leaves the store within both budgets. Between writes no operation adds a
byte and only a creation adds a file, so the bytes are always within their budget and the files
exceed theirs by no more than have been created since. -/

namespace FileDepot

/-- How many files have been created since the last write or append, after one more operation. -/
def createdAfter (created : Nat) : Operation → Answer → Nat
  | .create .., .done => created + 1
  | _, .evicted _ => 0
  | _, _ => created

/-- How many files some operations have created after the last write or append among them. -/
def createdSinceWrite (ops : List Operation) (answers : List Answer) : Nat :=
  (ops.zip answers).foldl (fun created (op, answer) => createdAfter created op answer) 0

theorem createdAfter_evicted (created : Nat) (op : Operation) (victims : List File) :
    createdAfter created op (.evicted victims) = 0 := by
  cases op <;> rfl

theorem createdAfter_refused (created : Nat) (op : Operation) (e : StoreError) :
    createdAfter created op (.refused e) = created := by
  cases op <;> rfl

/-! ## What one operation adds -/

theorem size_changedAt {path : String} {change : File → File}
    (hs : ∀ f, (change f).size = f.size) (f : File) :
    (File.changedAt path change f).size = f.size := by
  unfold File.changedAt
  split
  · exact hs f
  · rfl

/-- Either eviction has brought the list within the budgets, or there are no more bytes than before
and no more files than the creations add. -/
theorem Effect.within_or_le {s : Store} {fs gs peak : List File} {op : Operation} {answer : Answer}
    (h : Effect s fs op answer peak gs) (hf : s.maxFiles.toNat < 2 ^ 63)
    (hb : s.maxBytes.toNat < 2 ^ 63) (created : Nat) :
    (gs.length ≤ s.maxFiles.toNat ∧ bytesOf gs ≤ s.maxBytes.toNat) ∨
      (gs.length + created ≤ fs.length + createdAfter created op answer ∧
        bytesOf gs ≤ bytesOf fs) := by
  have hwithin : ∀ {path : String} {gs victims left : List File},
      Evicts s.maxFiles s.maxBytes s.chooser.policy path gs victims left →
      left.length ≤ s.maxFiles.toNat ∧ bytesOf left ≤ s.maxBytes.toNat := by
    intro path gs victims left he
    have hx := he.not_exceeds hf hb
    rw [exceeds_iff hf hb] at hx
    omega
  have hsame : ∀ (path : String) {change : File → File}, (∀ f, (change f).size = f.size) →
      bytesOf (fs.map (File.changedAt path change)) ≤ bytesOf fs := by
    intro path change hs
    exact Nat.le_of_eq (bytesOf_map (size_changedAt hs) fs)
  cases h with
  | refused => exact .inr ⟨by rw [createdAfter_refused], Nat.le_refl _⟩
  | spared => exact .inr ⟨Nat.le_refl _, Nat.le_refl _⟩
  | read => exact .inr ⟨Nat.le_refl _, Nat.le_refl _⟩
  | stats => exact .inr ⟨Nat.le_refl _, Nat.le_refl _⟩
  | created =>
      right
      constructor
      · simp only [List.length_append, List.length_singleton, createdAfter]
        omega
      · simp [bytesOf, File.size, File.create]
  | opened | closed | locked | unlocked =>
      exact .inr ⟨by rw [List.length_map]; exact Nat.le_refl _, hsame _ fun _ => rfl⟩
  | removed =>
      right
      constructor
      · exact Nat.add_le_add_right (List.length_filter_le ..) _
      · exact bytesOf_le_of_sublist List.filter_sublist
  | replaced _ _ he => exact .inl (hwithin he)
  | appended _ _ he => exact .inl (hwithin he)
  | released =>
      exact .inr ⟨by rw [List.length_map]; exact Nat.le_refl _,
        Nat.le_of_eq (bytesOf_map (File.size_releasedBy _) fs)⟩

/-! ## Passes that get stuck -/

namespace Store

/-- A pass comes to be over budget with nothing to evict. -/
inductive Stranded (protect : String) : Store → Prop where
  | here {s t} : s.OverBudget → s.takeVictim protect = (none, t) → Stranded protect s
  | later {s f t} : s.OverBudget → s.takeVictim protect = (some f, t) →
      Stranded protect (t.dropped f) → Stranded protect s

/-- The pass that ends a write or an append: the path it protects, and the store it starts from. -/
inductive Passes (s : Store) : Operation → String → Store → Prop where
  | replaced {f owner contents} : s.find? f.path = some f → f.allows owner = true →
      Passes s (.replace f.path owner contents) f.path (s.grown f fun _ => contents)
  | appended {f owner contents} : s.find? f.path = some f → f.allows owner = true →
      Passes s (.append f.path owner contents) f.path (s.grown f (· ++ contents))

variable {s : Store} {fs : List File}

theorem perform_of_passes {op : Operation} {path : String} {t : Store} (h : s.Passes op path t) :
    s.perform op = (.evicted (t.evict path).1, (t.evict path).2) := by
  cases h with
  | replaced hf ha =>
      simp only [perform, replace, edit_eq hf ha]
      rfl
  | appended hf ha =>
      simp only [perform, append, edit_eq hf ha]
      rfl

/-- Only writes and appends answer with evicted files. -/
theorem Tracks.passes_of_evicted (h : s.Tracks fs) {op : Operation} {victims : List File}
    (ha : (s.perform op).1 = .evicted victims) : ∃ path t, s.Passes op path t := by
  obtain ⟨peak, gs, hp⟩ := h.perform op
  have he := hp.effect
  rw [ha] at he
  cases he with
  | replaced hf hallow _ => exact ⟨_, _, .replaced (h.find?_path hf) hallow⟩
  | appended hf hallow _ => exact ⟨_, _, .appended (h.find?_path hf) hallow⟩

/-- A store that finds no victim has no file left, and no budget is over without files. -/
theorem Tracks.not_stranded (h : s.Tracks fs) (hf : s.maxFiles.toNat < 2 ^ 63)
    (hb : s.maxBytes.toNat < 2 ^ 63) (protect : String) : ¬ Stranded protect s := by
  intro hs
  induction hs generalizing fs with
  | @here s t ho ht =>
      have hv := h.toKeeps.takeVictim protect
      rw [ht] at hv
      obtain ⟨rfl, -⟩ := hv.none rfl
      have hx := h.overBudget_iff.mp ho
      simp [exceeds_iff hf hb, bytesOf] at hx
  | later _ ht _ ih =>
      obtain ⟨-, hd, hss, -⟩ := h.round ht
      exact ih hd (by rw [hss.maxFiles_eq]; exact hf) (by rw [hss.maxBytes_eq]; exact hb)

theorem Tracks.not_stranded_of_passes (h : s.Tracks fs) (hf : s.maxFiles.toNat < 2 ^ 63)
    (hb : s.maxBytes.toNat < 2 ^ 63) {op : Operation} {path : String} {t : Store}
    (hp : s.Passes op path t) : ¬ t.Stranded path := by
  cases hp with
  | replaced hfind _ => exact (h.grown (h.mem_of_find? hfind).1 _).not_stranded hf hb _
  | appended hfind _ => exact (h.grown (h.mem_of_find? hfind).1 _).not_stranded hf hb _

/-! ## Runs -/

/-- A store of given budgets whose bytes are within theirs, and whose files are but for those
created since the last write. -/
structure Within (maxFiles maxBytes : UInt64) (s : Store) (fs : List File) (created : Nat) :
    Prop where
  tracks : s.Tracks fs
  maxFiles_eq : s.maxFiles = maxFiles
  maxBytes_eq : s.maxBytes = maxBytes
  files_le : fs.length ≤ maxFiles.toNat + created
  bytes_le : bytesOf fs ≤ maxBytes.toNat

theorem within_empty (maxFiles maxBytes : UInt64) (placement : Placement) (policy : Policy)
    (dice : Dice) : Within maxFiles maxBytes (empty maxFiles maxBytes placement policy dice) [] 0 :=
  ⟨tracks_empty .., rfl, rfl, Nat.zero_le _, Nat.zero_le _⟩

section

variable {maxFiles maxBytes : UInt64} (hf : maxFiles.toNat < 2 ^ 63) (hb : maxBytes.toNat < 2 ^ 63)
  {created : Nat}
include hf hb

theorem Within.perform (h : Within maxFiles maxBytes s fs created) (op : Operation) :
    ∃ gs, Within maxFiles maxBytes (s.perform op).2 gs (createdAfter created op (s.perform op).1) := by
  obtain ⟨peak, gs, hp⟩ := h.tracks.perform op
  obtain ⟨ht, rfl, rfl, hl, hz⟩ := h
  refine ⟨gs, hp.tracks, hp.sameSettings.maxFiles_eq, hp.sameSettings.maxBytes_eq, ?_, ?_⟩
  · rcases hp.effect.within_or_le hf hb created with hw | hw <;> omega
  · rcases hp.effect.within_or_le hf hb created with hw | hw <;> omega

theorem Within.run (h : Within maxFiles maxBytes s fs created) (ops : List Operation) :
    ∃ gs, Within maxFiles maxBytes (s.run ops).2 gs ((ops.zip (s.run ops).1).foldl
      (fun created (op, answer) => createdAfter created op answer) created) := by
  -- The induction is on the operations; the count of creations goes along.
  induction ops generalizing s fs created with
  | nil => exact ⟨fs, h⟩
  | cons op ops ih =>
      obtain ⟨gs, hw⟩ := h.perform hf hb op
      exact ih hw

end

/-- After every run, whatever the policy, its dice and the buckets: the bytes are within their
budget, and the files are but for those created since the last write or append. Right after a
write or an append the files are, too, and its pass was never over budget with nothing to evict. -/
theorem run_within_budgets (maxFiles maxBytes : UInt64) (hf : maxFiles.toNat < 2 ^ 63)
    (hb : maxBytes.toNat < 2 ^ 63) (placement : Placement) (policy : Policy) (dice : Dice)
    (ops : List Operation) :
    let s := ((empty maxFiles maxBytes placement policy dice).run ops).2
    let answers := ((empty maxFiles maxBytes placement policy dice).run ops).1
    bytesOf s.files ≤ maxBytes.toNat ∧
      s.files.length ≤ maxFiles.toNat + createdSinceWrite ops answers ∧
      ∀ op victims, (s.perform op).1 = .evicted victims →
        (s.perform op).2.files.length ≤ maxFiles.toNat ∧
          ∃ path t, s.Passes op path t ∧ ¬ t.Stranded path := by
  obtain ⟨fs, hw⟩ := (within_empty maxFiles maxBytes placement policy dice).run hf hb ops
  intro s answers
  have hmf : s.maxFiles = maxFiles := hw.maxFiles_eq
  have hmb : s.maxBytes = maxBytes := hw.maxBytes_eq
  refine ⟨?_, ?_, ?_⟩
  · rw [bytesOf_eq_of_perm hw.tracks.files_perm]
    exact hw.bytes_le
  · rw [hw.tracks.files_perm.length_eq]
    exact hw.files_le
  · intro op victims ha
    obtain ⟨gs, hg⟩ := hw.perform hf hb op
    obtain ⟨path, t, hp⟩ := hw.tracks.passes_of_evicted ha
    have hl := hg.files_le
    rw [ha, createdAfter_evicted] at hl
    refine ⟨?_, path, t, hp, ?_⟩
    · rw [hg.tracks.files_perm.length_eq]
      exact hl
    · exact hw.tracks.not_stranded_of_passes (by rw [hmf]; exact hf) (by rw [hmb]; exact hb) hp

/-- Two writes over two files of which the budgets let one stay, at two picks by the dice. -/
theorem run_within_budgets_two_buckets :
    (1 : UInt64).toNat < 2 ^ 63 ∧ (3 : UInt64).toNat < 2 ^ 63 ∧
      let ops : List Operation := [.create "a" ⟨1⟩ false, .replace "a" ⟨1⟩ [1, 2],
        .create "b" ⟨2⟩ true, .append "b" ⟨2⟩ [3, 4]]
      let run := (empty 1 3 ⟨2, fun path => Fin.ofNat 2 path.length⟩ .segmentedFifo
        ⟨fun n => 7 * n, 0⟩).run ops
      bytesOf run.2.files ≤ 3 ∧ run.2.files.length ≤ 1 + createdSinceWrite ops run.1 ∧
        ∀ op victims, (run.2.perform op).1 = .evicted victims →
          (run.2.perform op).2.files.length ≤ 1 ∧
            ∃ path t, run.2.Passes op path t ∧ ¬ t.Stranded path :=
  ⟨by decide, by decide, run_within_budgets 1 3 (by decide) (by decide) _ _ _ _⟩

end Store

end FileDepot
