import Mathlib.Algebra.Order.Floor.Div
import Mathlib.Data.Nat.ModEq
import Mathlib.Data.Nat.Prime.Basic
import Mathlib.Data.Set.Card
import Mathlib.Order.Interval.Finset.Nat
import FileDepot.Placement

/-! # How evenly hashes are spread

Remixing permutes the words, and scaling cuts them into one interval for each bucket. The ends of
the intervals are the multiples of the same fraction, rounded up, so their lengths differ by at most
one. -/

namespace FileDepot.PathHash

/-- The hashes that belong to a bucket among `count`. -/
def share (k : PathHash) (count bucket : Nat) : Set UInt64 :=
  {h | scale (k.remix h) count = bucket}

/-! ## Remixing -/

/-- The multiplier drawn from a seed is odd. -/
theorem odd_multiplier (seed : Bytes) : (ofSeed seed).multiplier.toNat % 2 = 1 := by
  have hodd : ∀ w : UInt64, (w ||| 1).toNat % 2 = 1 := by
    intro w
    rw [UInt64.toNat_or, UInt64.toNat_one, Nat.or_mod_two_eq_one]
    exact .inr rfl
  exact hodd _

theorem toNat_remix (k : PathHash) (h : UInt64) :
    (k.remix h).toNat = (h.toNat * k.multiplier.toNat + k.addend.toNat) % UInt64.size := by
  rw [remix, UInt64.toNat_add, UInt64.toNat_mul, Nat.mod_add_mod]

theorem remix_injective {k : PathHash} (hk : k.multiplier.toNat % 2 = 1) :
    Function.Injective k.remix := by
  intro g h he
  have hn := congrArg UInt64.toNat he
  rw [toNat_remix, toNat_remix] at hn
  have hsum : g.toNat * k.multiplier.toNat + k.addend.toNat ≡
      h.toNat * k.multiplier.toNat + k.addend.toNat [MOD UInt64.size] := hn
  have hproduct := Nat.ModEq.add_right_cancel' _ hsum
  have hcoprime : Nat.gcd UInt64.size k.multiplier.toNat = 1 :=
    Nat.Coprime.pow_left 64 ((Nat.coprime_two_left.mpr (Nat.odd_iff.mpr hk)))
  have hword := Nat.ModEq.cancel_right_of_coprime hcoprime hproduct
  exact UInt64.toNat_inj.mp (Nat.ModEq.eq_of_lt_of_lt hword g.toNat_lt h.toNat_lt)

/-- An odd multiplier makes remixing a permutation of the words. -/
theorem remix_bijective {k : PathHash} (hk : k.multiplier.toNat % 2 = 1) :
    Function.Bijective k.remix := by
  have hfinite : Finite UInt64 := Finite.of_injective UInt64.toFin fun g h he =>
    UInt64.toNat_inj.mp (congrArg Fin.val he)
  exact Finite.injective_iff_bijective.mp (remix_injective hk)

/-! ## Scaling -/

variable {count bucket : Nat}

/-- The first word that is scaled to a bucket: a multiple of a fraction, rounded up. -/
def start (count bucket : Nat) : Nat :=
  (bucket * UInt64.size) ⌈/⌉ count

theorem start_succ (count bucket : Nat) : start count (bucket + 1) =
    (bucket * UInt64.size + UInt64.size) ⌈/⌉ count := by
  rw [start, Nat.succ_mul]

/-- The words of a bucket are those from its start to the next one's. -/
theorem scale_eq_iff (hc : 0 < count) (x : UInt64) : scale x count = bucket ↔
    x.toNat ∈ Finset.Ico (start count bucket) (start count (bucket + 1)) := by
  have hdiv : scale x count = bucket ↔ bucket * UInt64.size ≤ count * x.toNat ∧
      count * x.toNat < bucket * UInt64.size + UInt64.size := by
    rw [scale, Nat.div_eq_iff (by decide)]
    have hw : 0 < UInt64.size := by decide
    omega
  rw [hdiv, Finset.mem_Ico, start_succ, start, ceilDiv_le_iff_le_mul hc, ← not_le (b := x.toNat),
    ceilDiv_le_iff_le_mul hc, not_le]

/-- Rounded up, two ends that are `length` apart are so many steps of `count` apart as that is,
rounded down or up. -/
theorem ceilDiv_sub_ceilDiv (hc : 0 < count) (start length : Nat) :
    (start + length) ⌈/⌉ count - start ⌈/⌉ count = length / count ∨
      (start + length) ⌈/⌉ count - start ⌈/⌉ count = length ⌈/⌉ count := by
  have hup : ∀ n, n ≤ count * (n ⌈/⌉ count) ∧ count * (n ⌈/⌉ count) < n + count := by
    intro n
    refine ⟨(ceilDiv_le_iff_le_mul hc).mp le_rfl, ?_⟩
    rw [Nat.ceilDiv_eq_add_pred_div]
    have := Nat.mul_div_le (n + count - 1) count
    omega
  obtain ⟨hs, hs'⟩ := hup start
  obtain ⟨he, he'⟩ := hup (start + length)
  obtain ⟨hl, hl'⟩ := hup length
  have hd := Nat.mul_div_le length count
  have hd' := Nat.lt_mul_div_succ length hc
  generalize (start + length) ⌈/⌉ count = e at he he' ⊢
  generalize start ⌈/⌉ count = s at hs hs' ⊢
  generalize length ⌈/⌉ count = u at hl hl' ⊢
  generalize length / count = d at hd hd' ⊢
  -- All that is left is to compare multiples of `count` that are less than two steps apart.
  have hse : s ≤ e := by
    refine Nat.le_of_lt_succ (Nat.lt_of_mul_lt_mul_left (a := count) ?_)
    rw [Nat.mul_succ]
    omega
  obtain ⟨t, rfl⟩ := Nat.exists_eq_add_of_le hse
  rw [Nat.mul_add] at he he'
  rw [Nat.add_sub_cancel_left]
  have hdt : d ≤ t := by
    refine Nat.le_of_lt_succ (Nat.lt_of_mul_lt_mul_left (a := count) ?_)
    rw [Nat.mul_succ]
    omega
  have htu : t ≤ u := by
    refine Nat.le_of_lt_succ (Nat.lt_of_mul_lt_mul_left (a := count) ?_)
    rw [Nat.mul_succ]
    omega
  have hud : u ≤ d + 1 := by
    refine Nat.le_of_lt_succ (Nat.lt_of_mul_lt_mul_left (a := count) ?_)
    rw [Nat.mul_succ, Nat.mul_succ] at *
    omega
  omega

/-! ## The spread -/

/-- As many hashes belong to a bucket as there are words from its start to the next one's. -/
theorem ncard_share {k : PathHash} (hk : k.multiplier.toNat % 2 = 1) (hb : bucket < count) :
    (k.share count bucket).ncard = start count (bucket + 1) - start count bucket := by
  have hc : 0 < count := Nat.zero_lt_of_lt hb
  let interval := Finset.Ico (start count bucket) (start count (bucket + 1))
  let number (h : UInt64) : Nat := (k.remix h).toNat
  have hshare : k.share count bucket = Set.preimage number interval :=
    Set.ext fun h => scale_eq_iff hc (k.remix h)
  have hinj : Function.Injective number := fun g h he =>
    remix_injective hk (UInt64.toNat_inj.mp he)
  have hrange : (interval : Set Nat) ⊆ Set.range number := by
    intro n hn
    have hlt : n < UInt64.size := by
      refine Nat.lt_of_lt_of_le (Finset.mem_Ico.mp hn).2 ((ceilDiv_le_iff_le_mul hc).mpr ?_)
      exact Nat.mul_le_mul_right _ hb
    obtain ⟨h, hh⟩ := (remix_bijective hk).2 (UInt64.ofNat n)
    exact ⟨h, (congrArg UInt64.toNat hh).trans (UInt64.toNat_ofNat_of_lt' hlt)⟩
  rw [hshare, Set.ncard_preimage_of_injective_subset_range hinj hrange, Set.ncard_coe_finset,
    Nat.card_Ico]

/-- For every seed and every number of buckets that is a word, the bucket of a remixed hash is
computed without overflow in 128 bits, is one of the buckets, and each bucket has as many of the
hashes as there are on average, rounded down or up. -/
theorem share_even (seed : Bytes) (count : Nat) (hc : 0 < count) (hw : count < 2 ^ 64) :
    let k := ofSeed seed
    (∀ h, count * (k.remix h).toNat < 2 ^ 128 ∧ scale (k.remix h) count < count ∧
      ((BitVec.ofNat 128 count * (k.remix h).toBitVec.setWidth 128) >>> 64).toNat =
        scale (k.remix h) count) ∧
    ∀ bucket < count, (k.share count bucket).ncard = 2 ^ 64 / count ∨
      (k.share count bucket).ncard = 2 ^ 64 ⌈/⌉ count := by
  intro k
  refine ⟨fun h => ?_, fun bucket hb => ?_⟩
  · have hword := (k.remix h).toNat_lt
    have hproduct :=
      calc count * (k.remix h).toNat
        _ ≤ count * 2 ^ 64 := Nat.mul_le_mul_left _ (Nat.le_of_lt hword)
        _ < 2 ^ 64 * 2 ^ 64 := Nat.mul_lt_mul_of_pos_right hw (by decide)
        _ = 2 ^ 128 := by decide
    refine ⟨hproduct, scale_lt hc _, ?_⟩
    have hcount : count < 2 ^ 128 := Nat.lt_trans hw (by decide)
    have hwide : (k.remix h).toBitVec.toNat < 2 ^ 128 := Nat.lt_trans hword (by decide)
    rw [BitVec.toNat_ushiftRight, BitVec.toNat_mul, BitVec.toNat_ofNat, BitVec.toNat_setWidth,
      Nat.mod_eq_of_lt hcount, Nat.mod_eq_of_lt hwide, UInt64.toNat_toBitVec,
      Nat.mod_eq_of_lt hproduct, Nat.shiftRight_eq_div_pow]
    rfl
  · rw [ncard_share (odd_multiplier seed) hb, start_succ]
    exact ceilDiv_sub_ceilDiv hc _ UInt64.size

/-- Three buckets do not divide the hashes: each has the one or the other number of them. -/
theorem share_even_thirds : 0 < 3 ∧ 3 < 2 ^ 64 ∧ ∀ bucket < 3,
    ((ofSeed (Bytes.ofText "spread")).share 3 bucket).ncard = 6148914691236517205 ∨
      ((ofSeed (Bytes.ofText "spread")).share 3 bucket).ncard = 6148914691236517206 := by
  have hup : 2 ^ 64 ⌈/⌉ 3 = 6148914691236517206 := by
    rw [Nat.ceilDiv_eq_add_pred_div]
    rfl
  refine ⟨by decide, by decide, fun bucket hb => ?_⟩
  have hs := (share_even (Bytes.ofText "spread") 3 (by decide) (by decide)).2 bucket hb
  rwa [hup] at hs

end FileDepot.PathHash
