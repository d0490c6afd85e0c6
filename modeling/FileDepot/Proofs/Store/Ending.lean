import FileDepot.Proofs.Policy.Choice
import FileDepot.Store.Basic

/-! # The eviction pass ends

It does from every store, also where the totals and the queue disagree with the files in the
buckets. The pass and the search of the queue are set down as rules, one for each way through the
body of a loop, and with no bound on the rounds. Files bound the pass: every round but the last takes
one out. Tickets bound the search: what it passes is put back only when it is over. -/

namespace FileDepot

/-! ## Searching the queue -/

namespace Chooser

/-- A search of the queue, with the tickets that it pops. The protected ones are set aside, and put
back in front of the queue once the search is over. -/
inductive Pops (protect : String) (bs : Buckets) :
    List Ticket → List Ticket → List Ticket → Option File → List Ticket → Buckets → Prop where
  | ended {aside} : Pops protect bs [] aside [] none aside bs
  | setAside {t queue aside popped victim left rest} : t.path = protect →
      Pops protect bs queue (aside ++ [t]) popped victim left rest →
      Pops protect bs (t :: queue) aside (t :: popped) victim left rest
  | dropped {t queue aside popped victim left rest} : t.path ≠ protect → Stale bs t →
      Pops protect bs queue aside popped victim left rest →
      Pops protect bs (t :: queue) aside (t :: popped) victim left rest
  | redeemed {t queue aside f rest} : t.path ≠ protect → bs.take? t.path = some (f, rest) →
      f.generation = t.generation →
      Pops protect bs (t :: queue) aside [t] (some f) (aside ++ queue) rest

variable {protect : String} {bs : Buckets}

/-- The search ends, with what `takeFirst` gives. -/
theorem exists_pops (protect : String) (queue aside : List Ticket) (bs : Buckets) :
    ∃ popped, Pops protect bs queue aside popped (takeFirst protect queue bs).1
      (aside ++ (takeFirst protect queue bs).2.1) (takeFirst protect queue bs).2.2 := by
  induction queue generalizing aside with
  | nil => exact ⟨[], by simpa [takeFirst] using Pops.ended⟩
  | cons t queue ih =>
      rcases takeFirst_cons protect t queue bs with ⟨hp, he⟩ | ⟨hp, hs, he⟩ | ⟨f, rest, hp, hf, hg, he⟩
      · obtain ⟨popped, h⟩ := ih (aside ++ [t])
        rw [List.append_assoc] at h
        rw [he]
        exact ⟨t :: popped, .setAside hp h⟩
      · obtain ⟨popped, h⟩ := ih aside
        rw [he]
        exact ⟨t :: popped, .dropped hp hs h⟩
      · rw [he]
        exact ⟨[t], .redeemed hp hf hg⟩

namespace Pops

variable {queue aside popped popped' left left' : List Ticket} {victim victim' : Option File}
  {rest rest' : Buckets}

/-- There is one way only to go through the queue. -/
theorem unique (h : Pops protect bs queue aside popped victim left rest)
    (h' : Pops protect bs queue aside popped' victim' left' rest') :
    popped' = popped ∧ victim' = victim ∧ left' = left ∧ rest' = rest := by
  induction h generalizing popped' with
  | ended =>
      cases h'
      exact ⟨rfl, rfl, rfl, rfl⟩
  | setAside ht _ ih =>
      cases h' with
      | setAside _ hrest => exact (ih hrest).imp_left (congrArg _)
      | dropped hp | redeemed hp => exact absurd ht hp
  | dropped hp hs _ ih =>
      cases h' with
      | setAside ht => exact absurd ht hp
      | dropped _ _ hrest => exact (ih hrest).imp_left (congrArg _)
      | redeemed _ htake hg => exact absurd hg (hs _ _ htake)
  | redeemed hp htake hg =>
      cases h' with
      | setAside ht => exact absurd ht hp
      | dropped _ hs => exact absurd hg (hs _ _ htake)
      | redeemed _ htake' =>
          obtain ⟨rfl, rfl⟩ := Prod.mk.inj (Option.some.inj (htake.symm.trans htake'))
          exact ⟨rfl, rfl, rfl, rfl⟩

/-- The pops take the tickets off the front of the queue, one after the other. -/
theorem parted (h : Pops protect bs queue aside popped victim left rest) :
    ∃ unread, queue = popped ++ unread ∧
      left = aside ++ popped.filter (·.path = protect) ++ unread := by
  induction h with
  | ended => exact ⟨[], by simp⟩
  | setAside ht _ ih =>
      obtain ⟨unread, rfl, rfl⟩ := ih
      exact ⟨unread, rfl, by simp [ht]⟩
  | dropped hp _ _ ih =>
      obtain ⟨unread, rfl, rfl⟩ := ih
      exact ⟨unread, rfl, by simp [hp]⟩
  | @redeemed _ queue _ _ _ hp => exact ⟨queue, rfl, by simp [hp]⟩

end Pops

/-- A search of the queue ends, and in one way only. Its pops take the tickets off the front of the
queue one after the other, so none is popped twice, those put back included. -/
structure SearchEnds (protect : String) (bs : Buckets) (queue popped unread : List Ticket) :
    Prop where
  queue_eq : queue = popped ++ unread
  runs_iff : ∀ ts victim left rest, Pops protect bs queue [] ts victim left rest ↔
    ts = popped ∧ (fifo queue).choose bs protect = (victim, .fifo left, rest)
  left_eq : ((fifo queue).choose bs protect).2.1 =
    .fifo (popped.filter (·.path = protect) ++ unread)

theorem searchEnds (protect : String) (bs : Buckets) (queue : List Ticket) :
    ∃ popped unread, SearchEnds protect bs queue popped unread := by
  obtain ⟨popped, h⟩ := exists_pops protect queue [] bs
  obtain ⟨unread, hqueue, hleft⟩ := h.parted
  refine ⟨popped, unread, hqueue, fun ts victim left rest => ⟨fun h' => ?_, ?_⟩, ?_⟩
  · obtain ⟨rfl, rfl, rfl, rfl⟩ := h.unique h'
    exact ⟨rfl, rfl⟩
  · rintro ⟨rfl, he⟩
    simp only [choose, Prod.mk.injEq, fifo.injEq] at he
    obtain ⟨rfl, rfl, rfl⟩ := he
    exact h
  · exact congrArg fifo hleft

end Chooser

/-! ## One attempt at a file -/

/-- The buckets are without the victim, or as they were when there is none. -/
def Buckets.Yields (bs : Buckets) (victim : Option File) (rest : Buckets) : Prop :=
  match victim with
  | some f => bs.Loses f rest
  | none => rest = bs

theorem Chooser.Searched.yields {protect : String} {bs rest : Buckets} {queue left : List Ticket}
    {victim : Option File} (h : Searched protect bs queue victim left rest) :
    bs.Yields victim rest := by
  cases h with
  | exhausted => exact rfl
  | redeemed _ _ ht => exact Buckets.loses_of_take? ht

theorem Chooser.yields_choose (c : Chooser) (bs : Buckets) (protect : String) :
    bs.Yields (c.choose bs protect).1 (c.choose bs protect).2.2 := by
  cases c with
  | fifo queue => exact (searched_takeFirst protect queue bs).yields
  | segmented dice =>
      simp only [choose]
      cases ht : (takeScattered protect bs picks dice).1 with
      | none => exact rfl
      | some taken =>
          obtain ⟨i, hi⟩ := exists_of_takeScattered ht
          exact Buckets.loses_of_takeNewest? hi

namespace Store

/-- An attempt takes exactly one file out of the buckets, or leaves them as they are. -/
theorem yields_takeVictim (s : Store) (protect : String) :
    s.buckets.Yields (s.takeVictim protect).1 (s.takeVictim protect).2.buckets := by
  have hc := s.chooser.yields_choose s.buckets protect
  unfold takeVictim
  cases hv : s.chooser.choose s.buckets protect with
  | mk victim after =>
      obtain ⟨chooser, rest⟩ := after
      rw [hv] at hc
      cases victim with
      | some f => exact hc
      | none =>
          obtain rfl : rest = s.buckets := hc
          simp only
          cases ht : s.buckets.take? protect with
          | none => exact rfl
          | some taken => exact Buckets.loses_of_take? ht

/-! ## The pass -/

/-- How an eviction is entered in the totals. Their words may wrap around, or overflow and break the
pass off with the totals as they are then. -/
abbrev Tally := Totals → File → Except Totals Totals

/-- Totals that no word bounds. -/
def Tally.unbounded : Tally := fun totals victim => .ok (totals.withoutEvicted victim)

/-- A round of the pass: the store that it finds, the file that it takes out if it finds one, and what
is left, with the totals as they were. -/
structure Attempt where
  before : Store
  victim : Option File
  after : Store

/-- An eviction pass: attempts for as long as a total is over its budget, up to one that fails. -/
inductive Attempts (tally : Tally) (protect : String) : Store → List Attempt → Store → Prop where
  | within {s} : ¬ s.OverBudget → Attempts tally protect s [] s
  | failed {s t} : s.OverBudget → s.takeVictim protect = (none, t) →
      Attempts tally protect s [⟨s, none, t⟩] t
  | brokenOff {s f t totals} : s.OverBudget → s.takeVictim protect = (some f, t) →
      tally t.totals f = .error totals →
      Attempts tally protect s [⟨s, some f, t⟩] { t with totals }
  | evicted {s f t totals attempts u} : s.OverBudget → s.takeVictim protect = (some f, t) →
      tally t.totals f = .ok totals → Attempts tally protect { t with totals } attempts u →
      Attempts tally protect s (⟨s, some f, t⟩ :: attempts) u

variable {s t u : Store} {protect : String} {f : File}

theorem loses_of_takeVictim (h : s.takeVictim protect = (some f, t)) :
    s.buckets.Loses f t.buckets := by
  have hy := s.yields_takeVictim protect
  rw [h] at hy
  exact hy

theorem buckets_of_takeVictim (h : s.takeVictim protect = (none, t)) : t.buckets = s.buckets := by
  have hy := s.yields_takeVictim protect
  rw [h] at hy
  exact hy

/-- The pass ends: every round but the last leaves fewer files. -/
theorem exists_attempts (tally : Tally) (s : Store) (protect : String) :
    ∃ attempts t, Attempts tally protect s attempts t := by
  -- The guard looks at the totals alone, so the induction is on the files and for all totals at once.
  induction hn : s.buckets.size using Nat.strongRecOn generalizing s with
  | ind n ih =>
      by_cases ho : s.OverBudget
      · cases hv : s.takeVictim protect with
        | mk victim t =>
            cases victim with
            | none => exact ⟨_, _, .failed ho hv⟩
            | some f =>
                cases ht : tally t.totals f with
                | error totals => exact ⟨_, _, .brokenOff ho hv ht⟩
                | ok totals =>
                    have hlt : t.buckets.size < n := by
                      have hsize := (loses_of_takeVictim hv).size_eq
                      omega
                    obtain ⟨attempts, u, h⟩ := ih _ hlt { t with totals } rfl
                    exact ⟨_, _, .evicted ho hv ht h⟩
      · exact ⟨[], s, .within ho⟩

namespace Attempts

variable {tally : Tally} {attempts attempts' : List Attempt}

theorem unique (h : Attempts tally protect s attempts t)
    (h' : Attempts tally protect s attempts' u) : attempts' = attempts ∧ u = t := by
  induction h generalizing attempts' with
  | within hn =>
      cases h' with
      | within => exact ⟨rfl, rfl⟩
      | failed ho | brokenOff ho | evicted ho => exact absurd ho hn
  | failed ho hv =>
      cases h' with
      | within hn => exact absurd ho hn
      | failed _ hv' =>
          cases hv.symm.trans hv'
          exact ⟨rfl, rfl⟩
      | brokenOff _ hv' | evicted _ hv' => cases hv.symm.trans hv'
  | brokenOff ho hv ht =>
      cases h' with
      | within hn => exact absurd ho hn
      | failed _ hv' => cases hv.symm.trans hv'
      | brokenOff _ hv' ht' =>
          cases hv.symm.trans hv'
          cases ht.symm.trans ht'
          exact ⟨rfl, rfl⟩
      | evicted _ hv' ht' =>
          cases hv.symm.trans hv'
          cases ht.symm.trans ht'
  | evicted ho hv ht _ ih =>
      cases h' with
      | within hn => exact absurd ho hn
      | failed _ hv' => cases hv.symm.trans hv'
      | brokenOff _ hv' ht' =>
          cases hv.symm.trans hv'
          cases ht.symm.trans ht'
      | evicted _ hv' ht' h' =>
          cases hv.symm.trans hv'
          cases ht.symm.trans ht'
          exact (ih h').imp_left (congrArg _)

/-- The stored files are those evicted and those left. -/
theorem files_perm (h : Attempts tally protect s attempts t) :
    s.files.Perm (attempts.filterMap Attempt.victim ++ t.files) := by
  induction h with
  | within => exact .refl _
  | failed _ hv =>
      rw [files, ← buckets_of_takeVictim hv]
      exact .refl _
  | brokenOff _ hv => exact (loses_of_takeVictim hv).files_perm
  | evicted _ hv _ _ ih => exact (loses_of_takeVictim hv).files_perm.trans (ih.cons _)

theorem length_le (h : Attempts tally protect s attempts t) :
    attempts.length ≤ s.buckets.size + 1 := by
  induction h with
  | within => exact Nat.zero_le _
  | failed | brokenOff => exact Nat.le_add_left _ _
  | evicted _ hv _ _ ih =>
      rw [(loses_of_takeVictim hv).size_eq]
      exact Nat.succ_le_succ ih

/-- Only the last attempt may find no file. -/
theorem victim_ne_none (h : Attempts tally protect s attempts t) :
    ∀ a ∈ attempts.dropLast, a.victim ≠ none := by
  induction h with
  | within | failed | brokenOff => simp
  | @evicted _ _ _ _ attempts _ _ _ _ _ ih =>
      cases attempts with
      | nil => simp
      | cons a attempts => exact List.forall_mem_cons.mpr ⟨nofun, ih⟩

theorem yields (h : Attempts tally protect s attempts t) :
    ∀ a ∈ attempts, a.before.buckets.Yields a.victim a.after.buckets := by
  induction h with
  | within => simp
  | failed _ hv => exact List.forall_mem_singleton.mpr (buckets_of_takeVictim hv)
  | brokenOff _ hv => exact List.forall_mem_singleton.mpr (loses_of_takeVictim hv)
  | evicted _ hv _ _ ih => exact List.forall_mem_cons.mpr ⟨loses_of_takeVictim hv, ih⟩

/-- Rounds enough for the attempts are enough for the pass. -/
theorem evictUpTo_eq (h : Attempts .unbounded protect s attempts t) {fuel : Nat}
    (hl : attempts.length ≤ fuel) :
    evictUpTo protect fuel s = (attempts.filterMap Attempt.victim, t) := by
  induction h generalizing fuel with
  | within hn =>
      cases fuel with
      | zero => rfl
      | succ fuel => rw [evictUpTo, if_neg hn]; rfl
  | failed ho hv =>
      cases fuel with
      | zero => simp at hl
      | succ fuel => rw [evictUpTo, if_pos ho, hv]; rfl
  | brokenOff _ _ ht => cases ht
  | evicted ho hv ht _ ih =>
      cases fuel with
      | zero => simp at hl
      | succ fuel =>
          cases ht
          rw [evictUpTo, if_pos ho, hv]
          simp only [ih (Nat.le_of_succ_le_succ hl)]
          rfl

theorem evict_eq (h : Attempts .unbounded protect s attempts t) :
    s.evict protect = (attempts.filterMap Attempt.victim, t) :=
  h.evictUpTo_eq h.length_le

end Attempts

/-- What a pass does in its rounds. No more files are evicted than are stored, and none is lost; every
round but the last takes out exactly one, and the last one at most one; and no search of the queue
pops an entry of it twice. -/
structure PassEnds (protect : String) (s : Store) (attempts : List Attempt) (t : Store) : Prop where
  evictions_le : (attempts.filterMap Attempt.victim).length ≤ s.buckets.size
  files_perm : s.files.Perm (attempts.filterMap Attempt.victim ++ t.files)
  victim_ne_none : ∀ a ∈ attempts.dropLast, a.victim ≠ none
  yields : ∀ a ∈ attempts, a.before.buckets.Yields a.victim a.after.buckets
  searches : ∀ a ∈ attempts, ∀ queue, a.before.chooser = .fifo queue →
    ∃ popped unread, Chooser.SearchEnds protect a.before.buckets queue popped unread

theorem Attempts.passEnds {tally : Tally} {attempts : List Attempt}
    (h : Attempts tally protect s attempts t) : PassEnds protect s attempts t := by
  refine ⟨?_, h.files_perm, h.victim_ne_none, h.yields, fun a _ queue _ => ?_⟩
  · have hl := h.files_perm.length_eq
    rw [List.length_append] at hl
    exact Nat.le.intro hl.symm
  · exact Chooser.searchEnds protect a.before.buckets queue

/-- The pass ends from every store, however its files, queue, totals and limits disagree, whatever
the dice throw and however the totals are kept; and in one way only. -/
theorem evict_ends (s : Store) (protect : String) :
    (∃ attempts, Attempts .unbounded protect s attempts (s.evict protect).2 ∧
      attempts.filterMap Attempt.victim = (s.evict protect).1) ∧
    ∀ tally : Tally, ∃ attempts t,
      (∀ as u, Attempts tally protect s as u ↔ as = attempts ∧ u = t) ∧
        PassEnds protect s attempts t := by
  refine ⟨?_, fun tally => ?_⟩
  · obtain ⟨attempts, t, h⟩ := exists_attempts .unbounded s protect
    rw [h.evict_eq]
    exact ⟨attempts, h, rfl⟩
  · obtain ⟨attempts, t, h⟩ := exists_attempts tally s protect
    refine ⟨attempts, t, fun as u => ⟨h.unique, ?_⟩, h.passEnds⟩
    rintro ⟨rfl, rfl⟩
    exact h

/-- The totals count ten files where there are two, and one of these has lost its ticket: the pass
takes out the protected one, finds nothing more, and gives up over its budgets. -/
example :
    let a : File := ⟨"a", [], true, none, 0⟩
    let b : File := ⟨"b", [], true, none, 1⟩
    let s := empty 1 9 ⟨2, fun path => Fin.ofNat 2 path.length⟩ .fifo
    let s := { s with
      buckets := (s.buckets.push a).push b, chooser := .fifo [b.ticket], totals := { files := 10 } }
    (s.evict "b").1 = [b] ∧ (s.evict "b").2.files = [a] ∧ (s.evict "b").2.OverBudget := by
  decide +kernel

end Store

end FileDepot
