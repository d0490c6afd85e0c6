import FileDepot.Policy
import FileDepot.Proofs.Buckets.Spread

/-! # What the policies choose

The list that buckets hold is in the order of creation. First in, first out takes the first file of
it that is not protected, and the segmented policy some such file; either takes none only when
every file left is protected. Stale tickets need no invariant of their own: the tickets of the
stored files lie in the queue in the order of the list, and the others match no stored file. -/

namespace FileDepot

open List

/-- The ticket that a file received at its creation. -/
def File.ticket (f : File) : Ticket :=
  ⟨f.path, f.generation⟩

/-- The queue has the tickets of the listed files in the order of the list, and its generations
increase towards `next`. -/
structure Queued (queue : List Ticket) (fs : List File) (next : Nat) : Prop where
  sublist : fs.map File.ticket <+ queue
  increasing : queue.Pairwise (·.generation < ·.generation)
  fresh : ∀ t ∈ queue, t.generation < next

namespace Ticket

variable {front back : List Ticket} {t : Ticket}

/-- In a list of increasing generations, the tickets before one are those of lower generations. -/
theorem filter_generation_lt
    (h : (front ++ t :: back).Pairwise (·.generation < ·.generation)) :
    (front ++ t :: back).filter (·.generation < t.generation) = front := by
  obtain ⟨-, hb, hlt⟩ := List.pairwise_append.mp h
  have hfront : front.filter (·.generation < t.generation) = front :=
    List.filter_eq_self.mpr fun u hu => by simpa using hlt u hu t (by simp)
  have hback : (t :: back).filter (·.generation < t.generation) = [] := by
    refine List.filter_eq_nil_iff.mpr (List.forall_mem_cons.mpr ⟨by simp, fun u hu => ?_⟩)
    simpa using Nat.le_of_lt (List.rel_of_pairwise_cons hb hu)
  rw [List.filter_append, hfront, hback, List.append_nil]

/-- In such a list, the tickets after one are those of higher generations. -/
theorem filter_lt_generation
    (h : (front ++ t :: back).Pairwise (·.generation < ·.generation)) :
    (front ++ t :: back).filter (t.generation < ·.generation) = back := by
  obtain ⟨-, hb, hlt⟩ := List.pairwise_append.mp h
  have hfront : front.filter (t.generation < ·.generation) = [] :=
    List.filter_eq_nil_iff.mpr fun u hu => by simpa using Nat.le_of_lt (hlt u hu t (by simp))
  have hback : back.filter (t.generation < ·.generation) = back :=
    List.filter_eq_self.mpr fun u hu => by simpa using List.rel_of_pairwise_cons hb hu
  rw [List.filter_append, hfront, List.filter_cons_of_neg (by simp), hback, List.nil_append]

end Ticket

namespace Queued

variable {queue : List Ticket} {fs : List File} {next : Nat}

theorem nil (next : Nat) : Queued [] [] next :=
  ⟨.slnil, .nil, by simp⟩

/-- Leaving files and tickets out keeps a queue, as long as every file left keeps its ticket. -/
theorem of_sublist (h : Queued queue fs next) {queue' : List Ticket} {fs' : List File}
    (hs : fs'.map File.ticket <+ queue') (hq : queue' <+ queue) : Queued queue' fs' next :=
  ⟨hs, h.increasing.sublist hq, fun t ht => h.fresh t (hq.subset ht)⟩

theorem concat (h : Queued queue fs next) {f : File} (hf : f.generation = next) :
    Queued (queue ++ [f.ticket]) (fs ++ [f]) (next + 1) := by
  refine ⟨?_, ?_, ?_⟩
  · rw [List.map_append]
    exact h.sublist.append (.refl _)
  · refine List.pairwise_append.mpr ⟨h.increasing, by simp, ?_⟩
    intro t ht u hu
    rw [List.mem_singleton.mp hu]
    exact Nat.lt_of_lt_of_eq (h.fresh t ht) hf.symm
  · intro t ht
    rcases List.mem_append.mp ht with ht | ht
    · exact Nat.lt_succ_of_lt (h.fresh t ht)
    · rw [List.mem_singleton.mp ht]
      exact Nat.lt_succ_of_le (Nat.le_of_eq hf)

theorem map (h : Queued queue fs next) {change : File → File}
    (hc : ∀ f, (change f).ticket = f.ticket) : Queued queue (fs.map change) next := by
  refine ⟨?_, h.increasing, h.fresh⟩
  rw [List.map_map, show File.ticket ∘ change = File.ticket from funext hc]
  exact h.sublist

/-- The ticket of a listed file parts the queue as the file parts the list. -/
theorem parted {front back : List Ticket} {older newer : List File} {f : File}
    (h : Queued (front ++ f.ticket :: back) (older ++ f :: newer) next) :
    older.map File.ticket <+ front ∧ newer.map File.ticket <+ back := by
  have hs := h.sublist
  rw [List.map_append, List.map_cons] at hs
  have hi := h.increasing.sublist hs
  constructor
  · have ho := hs.filter (·.generation < f.ticket.generation)
    rwa [Ticket.filter_generation_lt hi, Ticket.filter_generation_lt h.increasing] at ho
  · have hn := hs.filter (f.ticket.generation < ·.generation)
    rwa [Ticket.filter_lt_generation hi, Ticket.filter_lt_generation h.increasing] at hn

end Queued

namespace Chooser

variable {bs : Buckets} {fs : List File} {protect : String}

/-! ## First in, first out -/

/-- A ticket under whose path there is no file, or one of another generation. -/
def Stale (bs : Buckets) (t : Ticket) : Prop :=
  ∀ f rest, bs.take? t.path = some (f, rest) → f.generation ≠ t.generation

theorem Stale.ticket_ne {t : Ticket} (h : Stale bs t) (hh : bs.Holds fs)
    (hn : (fs.map File.path).Nodup) : ∀ f ∈ fs, f.ticket ≠ t := by
  rintro f hf rfl
  obtain ⟨rest, ht, -, -⟩ := hh.take?_eq_some hn (File.find?_path_eq_some hn hf)
  exact h f rest ht rfl

/-- What a search through the queue takes and leaves. The tickets before the one redeemed, or all
of them where none is, are stale or protected, and only the protected ones stay. -/
inductive Searched (protect : String) (bs : Buckets) :
    List Ticket → Option File → List Ticket → Buckets → Prop where
  | exhausted {queue} : (∀ t ∈ queue, t.path ≠ protect → Stale bs t) →
      Searched protect bs queue none (queue.filter (·.path = protect)) bs
  | redeemed {front t back f rest} : (∀ u ∈ front, u.path ≠ protect → Stale bs u) →
      t.path ≠ protect → bs.take? t.path = some (f, rest) → f.generation = t.generation →
      Searched protect bs (front ++ t :: back) (some f) (front.filter (·.path = protect) ++ back)
        rest

section

variable {queue left : List Ticket} {victim : Option File} {rest : Buckets} {t : Ticket}

theorem Searched.keep (h : Searched protect bs queue victim left rest) (ht : t.path = protect) :
    Searched protect bs (t :: queue) victim (t :: left) rest := by
  cases h with
  | exhausted hq =>
      have hl : t :: queue.filter (·.path = protect) = (t :: queue).filter (·.path = protect) :=
        (List.filter_cons_of_pos (by simpa using ht)).symm
      rw [hl]
      exact .exhausted (List.forall_mem_cons.mpr ⟨fun hne => absurd ht hne, hq⟩)
  | @redeemed front u back f _ hfront hu hf hg =>
      have hl : t :: (front.filter (·.path = protect) ++ back) =
          (t :: front).filter (·.path = protect) ++ back := by
        rw [List.filter_cons_of_pos (by simpa using ht), List.cons_append]
      rw [hl]
      change Searched protect bs ((t :: front) ++ u :: back) _ _ _
      exact .redeemed (List.forall_mem_cons.mpr ⟨fun hne => absurd ht hne, hfront⟩) hu hf hg

theorem Searched.drop (h : Searched protect bs queue victim left rest) (ht : t.path ≠ protect)
    (hs : Stale bs t) : Searched protect bs (t :: queue) victim left rest := by
  cases h with
  | exhausted hq =>
      have hl : queue.filter (·.path = protect) = (t :: queue).filter (·.path = protect) :=
        (List.filter_cons_of_neg (by simpa using ht)).symm
      rw [hl]
      exact .exhausted (List.forall_mem_cons.mpr ⟨fun _ => hs, hq⟩)
  | @redeemed front u back f _ hfront hu hf hg =>
      have hl : front.filter (·.path = protect) = (t :: front).filter (·.path = protect) :=
        (List.filter_cons_of_neg (by simpa using ht)).symm
      rw [hl]
      change Searched protect bs ((t :: front) ++ u :: back) _ _ _
      exact .redeemed (List.forall_mem_cons.mpr ⟨fun _ => hs, hfront⟩) hu hf hg

end

/-- What the search does with the ticket in front: it goes past a protected one, which stays, and
past a stale one, which is dropped, and takes out the file of any other. -/
theorem takeFirst_cons (protect : String) (t : Ticket) (queue : List Ticket) (bs : Buckets) :
    (t.path = protect ∧ takeFirst protect (t :: queue) bs =
      ((takeFirst protect queue bs).1, t :: (takeFirst protect queue bs).2.1,
        (takeFirst protect queue bs).2.2)) ∨
    (t.path ≠ protect ∧ Stale bs t ∧
      takeFirst protect (t :: queue) bs = takeFirst protect queue bs) ∨
    ∃ f rest, t.path ≠ protect ∧ bs.take? t.path = some (f, rest) ∧ f.generation = t.generation ∧
      takeFirst protect (t :: queue) bs = (some f, queue, rest) := by
  by_cases hp : t.path = protect
  · exact .inl ⟨hp, by simp only [takeFirst, hp, if_true]⟩
  · simp only [takeFirst, hp, if_false]
    cases hf : bs.take? t.path with
    | none => exact .inr (.inl ⟨hp, fun f rest he => by simp [hf] at he, rfl⟩)
    | some taken =>
        obtain ⟨f, rest⟩ := taken
        by_cases hg : f.generation = t.generation
        · exact .inr (.inr ⟨f, rest, hp, rfl, hg, by simp only [hg, if_true]⟩)
        · refine .inr (.inl ⟨hp, fun g rest' he => ?_, by simp only [hg, if_false]⟩)
          obtain ⟨rfl, rfl⟩ := Prod.mk.inj (Option.some.inj (hf.symm.trans he))
          exact hg

/-- The search follows its rules, whatever the queue and the buckets. -/
theorem searched_takeFirst (protect : String) (queue : List Ticket) (bs : Buckets) :
    Searched protect bs queue (takeFirst protect queue bs).1 (takeFirst protect queue bs).2.1
      (takeFirst protect queue bs).2.2 := by
  induction queue with
  | nil => exact .exhausted (by simp)
  | cons t queue ih =>
      rcases takeFirst_cons protect t queue bs with ⟨hp, he⟩ | ⟨hp, hs, he⟩ | ⟨f, rest, hp, hf, hg, he⟩
      · rw [he]
        exact ih.keep hp
      · rw [he]
        exact ih.drop hp hs
      · rw [he]
        change Searched protect bs ([] ++ t :: queue) _ ([].filter (·.path = protect) ++ queue) _
        exact .redeemed (by simp) hp hf hg

/-- The tickets of protected files are among the protected ones of a queue. -/
theorem sublist_filter_of_protected {queue : List Ticket} (h : fs.map File.ticket <+ queue)
    (hp : ∀ f ∈ fs, f.path = protect) :
    fs.map File.ticket <+ queue.filter (·.path = protect) := by
  have hself : (fs.map File.ticket).filter (·.path = protect) = fs.map File.ticket :=
    List.filter_eq_self.mpr (by simpa [File.ticket] using hp)
  rw [← hself]
  exact h.filter _

/-! ## Segmented -/

theorem mem_sweep (p : Placement) (start : Nat) (i : Fin p.count) : i ∈ sweep p start := by
  have hs : start % p.count < p.count := Nat.mod_lt _ p.count_pos
  have hi := i.isLt
  refine List.mem_map.mpr ⟨(i + p.count - start % p.count) % p.count, ?_, ?_⟩
  · exact List.mem_range.mpr (Nat.mod_lt _ p.count_pos)
  · apply Fin.ext
    change (start % p.count + (i + p.count - start % p.count) % p.count) % p.count = i
    rw [Nat.add_mod_mod, show start % p.count + (i + p.count - start % p.count) = i + p.count by omega,
      Nat.add_mod_right, Nat.mod_eq_of_lt hi]

/-- Whatever is taken is the newest unprotected file of some bucket. -/
theorem exists_of_takeScattered {picks : Nat} {dice : Dice} {taken : File × Buckets}
    (h : (takeScattered protect bs picks dice).1 = some taken) :
    ∃ i, bs.takeNewest? protect i = some taken := by
  induction picks generalizing dice with
  | zero =>
      obtain ⟨_, i, _, -, hi, -⟩ := List.findSome?_eq_some_iff.mp h
      exact ⟨i, hi⟩
  | succ picks ih =>
      simp only [takeScattered] at h
      cases ht : bs.takeNewest? protect (bs.placement.wrap dice.roll.1) with
      | none =>
          rw [ht] at h
          exact ih h
      | some found =>
          rw [ht] at h
          exact ⟨_, ht.trans h⟩

/-- Nothing is taken only when no bucket has an unprotected file: the sweep tries every bucket. -/
theorem takeScattered_eq_none {picks : Nat} {dice : Dice}
    (h : (takeScattered protect bs picks dice).1 = none) (i : Fin bs.placement.count) :
    bs.takeNewest? protect i = none := by
  induction picks generalizing dice with
  | zero => exact List.findSome?_eq_none_iff.mp h i (mem_sweep _ _ i)
  | succ picks ih =>
      simp only [takeScattered] at h
      cases ht : bs.takeNewest? protect (bs.placement.wrap dice.roll.1) with
      | none =>
          rw [ht] at h
          exact ih h
      | some found =>
          rw [ht] at h
          cases h

theorem path_eq_of_takeScattered {picks : Nat} {dice : Dice}
    (h : (takeScattered protect bs picks dice).1 = none) : ∀ f ∈ bs.files, f.path = protect := by
  intro f hf
  obtain ⟨i, hi⟩ := Buckets.mem_files_iff.mp hf
  exact Buckets.takeNewest?_eq_none_iff.mp (takeScattered_eq_none h i) f hi

end Chooser

/-! ## Both policies -/

/-- The file that goes first: the oldest one that is not protected, or the oldest of all when every
file is protected. -/
def oldestVictim? (protect : String) (fs : List File) : Option File :=
  (fs.find? (·.path ≠ protect)).or fs.head?

/-- A listed file that may go: a protected one only when no other is left. -/
def MayGo (protect : String) (fs : List File) (f : File) : Prop :=
  f ∈ fs ∧ (f.path = protect → ∀ g ∈ fs, g.path = protect)

/-- The files that a policy may evict from a list in the order of creation. -/
def Policy.Picks (policy : Policy) (protect : String) (fs : List File) (f : File) : Prop :=
  match policy with
  | .fifo => oldestVictim? protect fs = some f
  | .segmentedFifo => MayGo protect fs f

theorem mayGo_of_oldestVictim? {protect : String} {fs : List File} {f : File}
    (h : oldestVictim? protect fs = some f) : MayGo protect fs f := by
  rcases Option.or_eq_some_iff.mp h with h | ⟨hn, h⟩
  · have hp : f.path ≠ protect := by simpa using List.find?_some h
    exact ⟨List.mem_of_find?_eq_some h, fun he => absurd he hp⟩
  · exact ⟨List.mem_of_head? h, fun _ g hg => by simpa using List.find?_eq_none.mp hn g hg⟩

theorem Policy.Picks.mayGo {policy : Policy} {protect : String} {fs : List File} {f : File}
    (h : policy.Picks protect fs f) : MayGo protect fs f := by
  cases policy with
  | fifo => exact mayGo_of_oldestVictim? h
  | segmentedFifo => exact h

namespace Chooser

/-- The policy at work. -/
def policy : Chooser → Policy
  | .fifo _ => .fifo
  | .segmented _ => .segmentedFifo

/-- What a chooser knows about the listed files: under first in, first out, their tickets. -/
def Covers (c : Chooser) (fs : List File) (next : Nat) : Prop :=
  match c with
  | .fifo queue => Queued queue fs next
  | .segmented _ => True

theorem covers_start (policy : Policy) (dice : Dice) (next : Nat) :
    (start policy dice).Covers [] next := by
  cases policy with
  | fifo => exact .nil next
  | segmentedFifo => trivial

@[simp] theorem policy_enter (c : Chooser) (f : File) : (c.enter f).policy = c.policy := by
  cases c <;> rfl

variable {c : Chooser} {bs : Buckets} {fs : List File} {next : Nat} {protect : String}

theorem Covers.enter (h : c.Covers fs next) {f : File} (hf : f.generation = next) :
    (c.enter f).Covers (fs ++ [f]) (next + 1) := by
  cases c with
  | fifo queue => exact Queued.concat h hf
  | segmented dice => trivial

theorem Covers.map (h : c.Covers fs next) {change : File → File}
    (hc : ∀ f, (change f).ticket = f.ticket) : c.Covers (fs.map change) next := by
  cases c with
  | fifo queue => exact Queued.map h hc
  | segmented dice => trivial

theorem Covers.filter (h : c.Covers fs next) (keep : File → Bool) : c.Covers (fs.filter keep) next := by
  cases c with
  | fifo queue => exact Queued.of_sublist h ((List.filter_sublist.map _).trans h.sublist) (.refl _)
  | segmented dice => trivial

/-- The outcome of a choice: none only when every listed file is protected, else one that the
policy picks, and what is left holds and covers the others. -/
structure Chosen (c : Chooser) (protect : String) (bs : Buckets) (fs : List File) (next : Nat)
    (victim : Option File) (c' : Chooser) (rest : Buckets) : Prop where
  policy_eq : c'.policy = c.policy
  placement_eq : rest.placement = bs.placement
  none : victim = none → rest = bs ∧ c'.Covers fs next ∧ ∀ f ∈ fs, f.path = protect
  some : ∀ f, victim = some f → f.path ≠ protect ∧ c.policy.Picks protect fs f ∧
    rest.Holds (fs.filter (·.path ≠ f.path)) ∧ c'.Covers (fs.filter (·.path ≠ f.path)) next

/-- First in, first out takes the first unprotected file of the list. -/
theorem chosen_of_searched {queue left : List Ticket} {victim : Option File} {rest : Buckets}
    (h : bs.Holds fs) (hn : (fs.map File.path).Nodup) (hq : Queued queue fs next)
    (hs : Searched protect bs queue victim left rest) :
    Chosen (.fifo queue) protect bs fs next victim (.fifo left) rest := by
  cases hs with
  | exhausted hstale =>
      have hall : ∀ f ∈ fs, f.path = protect := by
        intro f hf
        by_contra hp
        have hm : f.ticket ∈ queue := hq.sublist.subset (List.mem_map_of_mem hf)
        exact (hstale _ hm hp).ticket_ne h hn f hf rfl
      have hleft := sublist_filter_of_protected hq.sublist hall
      exact ⟨rfl, rfl, fun _ => ⟨rfl, hq.of_sublist hleft List.filter_sublist, hall⟩, by simp⟩
  | @redeemed front t back f rest hfront hp ht hg =>
      obtain ⟨hf, hfp, hpl, hh⟩ := h.of_take? hn ht
      have hft : f.ticket = t := by simp [File.ticket, hfp, hg]
      subst hft
      obtain ⟨older, newer, rfl⟩ := List.append_of_mem hf
      obtain ⟨ho, hnew⟩ := hq.parted
      have hprot : ∀ g ∈ older, g.path = protect := by
        intro g hg
        by_contra hgp
        have hm : g.ticket ∈ front := ho.subset (List.mem_map_of_mem hg)
        exact (hfront _ hm hgp).ticket_ne h hn g (List.mem_append_left _ hg) rfl
      refine ⟨rfl, hpl, by simp, ?_⟩
      intro g hg
      obtain rfl : f = g := Option.some.inj hg
      refine ⟨hp, ?_, hh, ?_⟩
      · have hfirst : (older ++ f :: newer).find? (·.path ≠ protect) = some f :=
          List.find?_eq_some_iff_append.mpr
            ⟨decide_eq_true hp, older, newer, rfl, by simpa using hprot⟩
        change ((older ++ f :: newer).find? (·.path ≠ protect)).or _ = some f
        rw [hfirst, Option.some_or]
      · rw [File.filter_path_ne_of_nodup hn]
        refine hq.of_sublist ?_ (List.filter_sublist.append (List.sublist_cons_self _ _))
        rw [List.map_append]
        exact (sublist_filter_of_protected ho hprot).append hnew

theorem chosen_choose (h : bs.Holds fs) (hn : (fs.map File.path).Nodup) (hc : c.Covers fs next)
    (protect : String) : Chosen c protect bs fs next (c.choose bs protect).1
      (c.choose bs protect).2.1 (c.choose bs protect).2.2 := by
  cases c with
  | fifo queue => exact chosen_of_searched h hn hc (searched_takeFirst protect queue bs)
  | segmented dice =>
      simp only [choose]
      cases ht : (takeScattered protect bs picks dice).1 with
      | none =>
          refine ⟨rfl, rfl, fun _ => ⟨rfl, trivial, fun f hf => ?_⟩, by simp⟩
          exact path_eq_of_takeScattered ht f (h.files_perm.mem_iff.mpr hf)
      | some taken =>
          obtain ⟨f, rest⟩ := taken
          obtain ⟨i, hi⟩ := exists_of_takeScattered ht
          obtain ⟨hf, hp, hpl, hh⟩ := h.takeNewest?_eq_some hn hi
          refine ⟨rfl, hpl, by simp, ?_⟩
          intro g hg
          obtain rfl : f = g := Option.some.inj hg
          exact ⟨hp, ⟨hf, fun he => absurd he hp⟩, hh, trivial⟩

end Chooser

end FileDepot
