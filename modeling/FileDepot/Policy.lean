import FileDepot.Buckets

/-!
# Eviction policies

A policy picks the file to drop when a store is over budget, and never the protected one, whose
growth made room necessary.

* First in, first out: a queue of tickets in creation order. Files that clients remove leave their
  tickets behind; a ticket carries the generation of its file, so a stale one never drops a newer
  file created under the same path.
* Segmented: the newest file of a bucket picked by dice, with a sweep over all buckets when three
  picks find none.
-/

namespace FileDepot

/-- The eviction policies a store may follow. -/
inductive Policy where
  | fifo
  | segmentedFifo
deriving DecidableEq, Repr

/-- A file's place in the order of creation. -/
structure Ticket where
  path : String
  generation : Nat
deriving DecidableEq

/-- An endless sequence of throws, and how many have been used. -/
structure Dice where
  throw : Nat → Nat
  used : Nat := 0

namespace Dice

/-- The next throw. -/
def roll (d : Dice) : Nat × Dice :=
  (d.throw d.used, { d with used := d.used + 1 })

end Dice

/-- A policy at work. -/
inductive Chooser where
  | fifo (queue : List Ticket)
  | segmented (dice : Dice)

namespace Chooser

/-- A policy before the first file; only the segmented one throws dice. -/
def start (policy : Policy) (dice : Dice) : Chooser :=
  match policy with
  | .fifo => .fifo []
  | .segmentedFifo => .segmented dice

/-- Takes note of a new file. -/
def enter (c : Chooser) (f : File) : Chooser :=
  match c with
  | .fifo queue => .fifo (queue ++ [⟨f.path, f.generation⟩])
  | .segmented dice => .segmented dice

/-- Takes out the file of the first ticket that is neither protected nor stale. The stale tickets
before it are dropped and the protected ones keep their places. -/
def takeFirst (protect : String) : List Ticket → Buckets → Option File × List Ticket × Buckets
  | [], buckets => (none, [], buckets)
  | ticket :: queue, buckets =>
    if ticket.path = protect then
      let (victim, queue, buckets) := takeFirst protect queue buckets
      (victim, ticket :: queue, buckets)
    else
      match buckets.take? ticket.path with
      | some (f, rest) =>
        if f.generation = ticket.generation then (some f, queue, rest)
        else takeFirst protect queue buckets
      | none => takeFirst protect queue buckets

/-- The buckets in order from a starting point, around to the one before it. -/
def sweep (p : Placement) (start : Nat) : List (Fin p.count) :=
  (List.range p.count).map fun offset => p.wrap (start % p.count + offset)

/-- Takes the newest file out of one of `picks` buckets thrown by the dice, or of the first bucket
of a sweep from a thrown starting point that has one. -/
def takeScattered (protect : String) (buckets : Buckets) :
    Nat → Dice → Option (File × Buckets) × Dice
  | 0, dice =>
    let (start, dice) := dice.roll
    ((sweep buckets.placement start).findSome? (buckets.takeNewest? protect), dice)
  | picks + 1, dice =>
    let (pick, dice) := dice.roll
    match buckets.takeNewest? protect (buckets.placement.wrap pick) with
    | some taken => (some taken, dice)
    | none => takeScattered protect buckets picks dice

/-- How many buckets are picked before the sweep. -/
def picks : Nat := 3

/-- Takes one file out of the store, never one under the path `protect`. -/
def choose (c : Chooser) (buckets : Buckets) (protect : String) :
    Option File × Chooser × Buckets :=
  match c with
  | .fifo queue =>
    let (victim, queue, buckets) := takeFirst protect queue buckets
    (victim, .fifo queue, buckets)
  | .segmented dice =>
    let (taken, dice) := takeScattered protect buckets picks dice
    (taken.map Prod.fst, .segmented dice, (taken.map Prod.snd).getD buckets)

end Chooser

end FileDepot
