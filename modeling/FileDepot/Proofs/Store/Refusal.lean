import FileDepot.Proofs.Store.Exclusion

/-! # Refusals leave no trace

Every operation checks all that may speak against it before it changes anything. What is refused
returns the very store it was asked of, with its files and cells, its totals and highest values, its
queue and its next generation. What succeeds changes no file but the one it names, and takes others
out of their buckets only by evicting them. -/

namespace FileDepot

/-- The answers that say that nothing has been done: an operation is refused, or a removal leaves
the file to the client that has locked it. -/
inductive Answer.Failed : Answer → Prop where
  | refused (e : StoreError) : Failed (.refused e)
  | spared : Failed (.removed false)

/-- The status that a response starts with. A listing has none, and where there is no response there
is none either. -/
def Response.status? : Response → Option Status
  | .silent | .listing _ => none
  | .status s => some s
  | .contents _ | .evicted _ => some .ok
  | .noEvictions => some .err

theorem Answer.failed_ofResult {α : Type} {answer : α → Answer} {r : Except StoreError α}
    (h : (ofResult answer r).Failed) : (∃ e, r = .error e) ∨ ∃ a, r = .ok a ∧ (answer a).Failed := by
  cases r with
  | error e => exact .inl ⟨e, rfl⟩
  | ok a => exact .inr ⟨a, rfl, h⟩

theorem Status.ofResult_eq_err {α : Type} {r : Except StoreError α} (h : ofResult r = .err) :
    ∃ e, r = .error e := by
  cases r with
  | error e => exact ⟨e, rfl⟩
  | ok a => cases h

namespace Store

variable {s : Store} {α : Type}

/-! ## Nothing is done before everything has been checked -/

/-- An outcome that comes with the store as it was, if it is a refusal. -/
structure KeptIfRefused (s : Store) (o : Outcome α) : Prop where
  kept : ∀ e, o.1 = .error e → o.2 = s

theorem keptIfRefused_refuse (s : Store) (e : StoreError) :
    s.KeptIfRefused (s.refuse e : Outcome α) :=
  ⟨fun _ _ => rfl⟩

theorem keptIfRefused_ok (s t : Store) (a : α) : s.KeptIfRefused (.ok a, t) :=
  ⟨nofun⟩

theorem keptIfRefused_create (s : Store) (path : String) (owner : ClientId) (lock : Bool) :
    s.KeptIfRefused (s.create path owner lock) := by
  unfold create
  split
  · exact s.keptIfRefused_refuse _
  · exact s.keptIfRefused_ok _ _

theorem keptIfRefused_openFile (s : Store) (path : String) (owner : ClientId) (lock : Bool) :
    s.KeptIfRefused (s.openFile path owner lock) := by
  unfold openFile
  split
  · exact s.keptIfRefused_refuse _
  · split
    · exact s.keptIfRefused_refuse _
    · split
      · exact s.keptIfRefused_ok _ _
      · exact s.keptIfRefused_refuse _

theorem keptIfRefused_close (s : Store) (path : String) (owner : ClientId) :
    s.KeptIfRefused (s.close path owner) := by
  unfold close
  split
  · exact s.keptIfRefused_refuse _
  · split
    · exact s.keptIfRefused_refuse _
    · split
      · exact s.keptIfRefused_ok _ _
      · exact s.keptIfRefused_refuse _

theorem keptIfRefused_lock (s : Store) (path : String) (owner : ClientId) :
    s.KeptIfRefused (s.lock path owner) := by
  unfold lock
  split
  · exact s.keptIfRefused_refuse _
  · split
    · exact s.keptIfRefused_refuse _
    · exact s.keptIfRefused_ok _ _

theorem keptIfRefused_unlock (s : Store) (path : String) (owner : ClientId) :
    s.KeptIfRefused (s.unlock path owner) := by
  unfold unlock
  split
  · exact s.keptIfRefused_refuse _
  · split
    · exact s.keptIfRefused_refuse _
    · split
      · exact s.keptIfRefused_ok _ _
      · exact s.keptIfRefused_refuse _

theorem keptIfRefused_remove (s : Store) (path : String) (owner : ClientId) :
    s.KeptIfRefused (s.remove path owner) := by
  unfold remove
  split
  · exact s.keptIfRefused_refuse _
  · split
    · split
      · exact s.keptIfRefused_ok _ _
      · exact s.keptIfRefused_ok _ _
    · exact s.keptIfRefused_ok _ _

theorem keptIfRefused_edit (s : Store) (path : String) (owner : ClientId)
    (change : Bytes → Bytes) : s.KeptIfRefused (s.edit path owner change) := by
  unfold edit
  split
  · exact s.keptIfRefused_refuse _
  · split
    · exact s.keptIfRefused_ok _ _
    · exact s.keptIfRefused_refuse _

/-- A removal that leaves the file to the client that has locked it leaves everything else too. -/
theorem remove_spared {path : String} {owner : ClientId}
    (h : (s.remove path owner).1 = .ok false) : (s.remove path owner).2 = s := by
  cases hf : s.find? path with
  | none => simp [remove, hf, refuse] at h
  | some f =>
      cases ha : f.allows owner with
      | false => simp [remove, hf, ha]
      | true =>
          cases ht : s.buckets.take? path with
          | none => simp [remove, hf, ha, ht]
          | some taken => simp [remove, hf, ha, ht] at h

/-! ## Operations and requests that fail -/

theorem KeptIfRefused.snd_of_failed {o : Outcome α} (h : s.KeptIfRefused o) {answer : α → Answer}
    (hf : (Answer.ofResult answer o.1).Failed) (hok : ∀ a, ¬ (answer a).Failed) : o.2 = s := by
  rcases Answer.failed_ofResult hf with ⟨e, he⟩ | ⟨a, -, hf⟩
  · exact h.kept e he
  · exact absurd hf (hok a)

/-- An operation that fails leaves the store as it was. -/
theorem perform_snd_of_failed {op : Operation} (h : (s.perform op).1.Failed) :
    (s.perform op).2 = s := by
  cases op with
  | create path owner lock =>
      exact (s.keptIfRefused_create path owner lock).snd_of_failed h fun _ => nofun
  | openFile path owner lock =>
      exact (s.keptIfRefused_openFile path owner lock).snd_of_failed h fun _ => nofun
  | close path owner => exact (s.keptIfRefused_close path owner).snd_of_failed h fun _ => nofun
  | lock path owner => exact (s.keptIfRefused_lock path owner).snd_of_failed h fun _ => nofun
  | unlock path owner => exact (s.keptIfRefused_unlock path owner).snd_of_failed h fun _ => nofun
  | remove path owner =>
      rcases Answer.failed_ofResult h with ⟨e, he⟩ | ⟨gone, hgone, hf⟩
      · exact (s.keptIfRefused_remove path owner).kept e he
      · cases hf with
        | spared => exact remove_spared hgone
  | replace path owner contents =>
      exact (s.keptIfRefused_edit path owner fun _ => contents).snd_of_failed h fun _ => nofun
  | append path owner contents =>
      exact (s.keptIfRefused_edit path owner (· ++ contents)).snd_of_failed h fun _ => nofun
  | release => cases h
  | read | stats => rfl

theorem KeptIfRefused.snd_of_status {o : Outcome α} (h : s.KeptIfRefused o)
    (hs : ((o.map (Response.status ∘ Status.ofResult) id).1).status? = some .err) : o.2 = s := by
  obtain ⟨e, he⟩ := Status.ofResult_eq_err (Option.some.inj hs)
  exact h.kept e he

theorem KeptIfRefused.snd_of_noEvictions {o : Outcome (List File)} (h : s.KeptIfRefused o)
    (hs : (Response.ofEviction o.1).status? = some .err) : o.2 = s := by
  cases he : o.1 with
  | error e => exact h.kept e he
  | ok files => simp [he, Response.ofEviction, Response.status?] at hs

/-- A request that is answered with an error leaves the store as it was. -/
theorem respond_snd_of_err {owner : ClientId} {request : Request}
    (h : (s.respond owner request).1.status? = some .err) : (s.respond owner request).2 = s := by
  rcases request with _ | ⟨path, create | create, lock⟩ | path | _ | _ | _ | _ | _ | _ | _
  case nop | readN => rfl
  case read =>
    simp only [respond]
    cases s.read path <;> rfl
  case openFile.true => exact (s.keptIfRefused_create path owner lock).snd_of_status h
  case openFile.false => exact (s.keptIfRefused_openFile path owner lock).snd_of_status h
  case write path contents =>
    exact (s.keptIfRefused_edit path owner fun _ => contents).snd_of_noEvictions h
  case append path contents =>
    exact (s.keptIfRefused_edit path owner (· ++ contents)).snd_of_noEvictions h
  case lock path => exact (s.keptIfRefused_lock path owner).snd_of_status h
  case unlock path => exact (s.keptIfRefused_unlock path owner).snd_of_status h
  case close path => exact (s.keptIfRefused_close path owner).snd_of_status h
  case remove path => exact (s.keptIfRefused_remove path owner).snd_of_status h

end Store

/-! ## Other files -/

theorem File.filter_path_map_changedAt {path : String} {change : File → File}
    (hc : ∀ f, (change f).path = f.path) (fs : List File) :
    (fs.map (changedAt path change)).filter (·.path ≠ path) = fs.filter (·.path ≠ path) := by
  rw [List.filter_map]
  have hp : (fun f : File => decide (f.path ≠ path)) ∘ changedAt path change =
      fun f => decide (f.path ≠ path) := by
    funext f
    rw [Function.comp_apply, path_changedAt hc]
  rw [hp]
  refine (List.map_congr_left fun f hf => changedAt_of_ne ?_).trans (List.map_id _)
  simpa using (List.mem_filter.mp hf).2

/-- The files of other paths are those from before, without the evicted ones, in their order. -/
theorem Effect.filter_path_ne {s : Store} {fs peak gs : List File} {op : Operation}
    {answer : Answer} (h : Effect s fs op answer peak gs) (hn : (fs.map File.path).Nodup)
    {path : String} (hop : op.changes? = some path) :
    gs.filter (·.path ≠ path) = (fs.filter (·.path ≠ path)).filter (· ∉ answer.victims) := by
  have hnone : ∀ gs : List File, gs.filter (· ∉ ([] : List File)) = gs := by simp
  have hevicted : ∀ {change victims left}, Evicts s.maxFiles s.maxBytes s.chooser.policy path
      (fs.map (File.changedAt path (File.edited change))) victims left →
      left.filter (·.path ≠ path) = (fs.filter (·.path ≠ path)).filter (· ∉ victims) := by
    intro change victims left he
    have hp : ∀ f, (File.edited change f).path = f.path := fun _ => rfl
    rw [he.left_eq_filter (File.nodup_changedAt_edited hn _ _), List.filter_filter,
      ← File.filter_path_map_changedAt hp fs, List.filter_filter]
    exact List.filter_congr fun f _ => Bool.and_comm _ _
  cases h with
  | refused | spared | read | stats => exact (hnone _).symm
  | created =>
      obtain rfl := Option.some.inj hop
      rw [List.filter_append, List.filter_cons_of_neg (by simp [File.create]), List.filter_nil,
        List.append_nil]
      exact (hnone _).symm
  | opened | closed | locked | unlocked =>
      obtain rfl := Option.some.inj hop
      exact (File.filter_path_map_changedAt (fun _ => by rfl) fs).trans (hnone _).symm
  | removed =>
      obtain rfl := Option.some.inj hop
      rw [List.filter_filter]
      simp only [Bool.and_self]
      exact (hnone _).symm
  | replaced _ _ he | appended _ _ he =>
      obtain rfl := Option.some.inj hop
      exact hevicted he
  | released => cases hop

/-- Only a write or an append evicts. -/
theorem Effect.edit?_of_victims {s : Store} {fs peak gs : List File} {op : Operation}
    {answer : Answer} (h : Effect s fs op answer peak gs) {path : String}
    (hop : op.changes? = some path) (hv : answer.victims ≠ []) :
    ∃ change, op.edit? = some (path, change) := by
  cases h with
  | replaced | appended =>
      obtain rfl := Option.some.inj hop
      exact ⟨_, rfl⟩
  | _ => exact absurd rfl hv

namespace Store

/-- After every run, whatever the policy, its dice, the buckets and the limits: an operation that is
refused, or a removal that leaves its file to another client, leaves the whole store as it was, and
so does every request that is answered with an error, whether or not the answer can be sent. Reading
never changes anything. Any other operation on a path leaves the files of all other paths as they
were, in their buckets and in their order, but for those that a write or an append has evicted. -/
theorem failure_leaves_no_trace (maxFiles maxBytes : UInt64) (placement : Placement)
    (policy : Policy) (dice : Dice) (before : List Operation) :
    let s := ((empty maxFiles maxBytes placement policy dice).run before).2
    (∀ op, (s.perform op).1.Failed → (s.perform op).2 = s) ∧
    (∀ owner request sink, (s.respond owner request).1.status? = some .err →
      (s.serve owner request sink).2.2 = s) ∧
    (∀ path, (s.perform (.read path)).2 = s) ∧
    ∀ op path, op.changes? = some path →
      let victims := (s.perform op).1.victims
      let t := (s.perform op).2
      (victims ≠ [] → ∃ change, op.edit? = some (path, change)) ∧
      t.buckets.placement = s.buckets.placement ∧
      t.buckets.chains.toList.map (fun b => b.toList.filter (·.path ≠ path)) =
        s.buckets.chains.toList.map fun b =>
          (b.toList.filter (·.path ≠ path)).filter (· ∉ victims) := by
  intro s
  refine ⟨fun op => perform_snd_of_failed, fun owner request sink => respond_snd_of_err,
    fun path => rfl, ?_⟩
  intro op path hop victims t
  obtain ⟨fs, hs⟩ := (tracks_empty maxFiles maxBytes placement policy dice).run before
  obtain ⟨peak, gs, hp⟩ := hs.perform op
  have hplacement : t.buckets.placement = s.buckets.placement := hp.sameSettings.placement_eq
  refine ⟨hp.effect.edit?_of_victims hop, hplacement, ?_⟩
  refine hs.holds.map_chains_congr hp.tracks.holds hplacement
    (fun l => (l.filter (·.path ≠ path)).filter (· ∉ victims))
    (fun l => l.filter (·.path ≠ path)) fun i => ?_
  rw [← Placement.share_filter, hp.effect.filter_path_ne hs.nodup hop, Placement.share_filter,
    Placement.share_filter]

end Store

end FileDepot
