/-!
# Bytes

Byte strings are lists. Text is stored and sent as UTF-8, and lengths and counts as eight bytes,
most significant first.
-/

namespace FileDepot

/-- A string of bytes. -/
abbrev Bytes := List UInt8

namespace Bytes

-- The power of the core library, whatever else is in scope.
attribute [local instance (high)] instPowNat

/-- The UTF-8 bytes of a text. -/
def ofText (s : String) : Bytes :=
  s.toUTF8.data.toList

/-- The text whose UTF-8 bytes these are, if they are valid UTF-8. -/
def toText? (bs : Bytes) : Option String :=
  String.fromUTF8? ⟨bs.toArray⟩

/-- The most bytes that one buffer can hold. -/
def maxSize : Nat := 2 ^ (63 : Nat) - 1

/-- What is said where a buffer would have to be larger. -/
def overflowMessage : String :=
  "capacity overflow"

/-- The number of bytes in an encoded word. -/
def wordSize : Nat := 8

/-- The bytes of a number below `256 ^ width`, most significant first. -/
def ofNatBE : Nat → Nat → Bytes
  | 0, _ => []
  | width + 1, n => UInt8.ofNat (n / 256 ^ width) :: ofNatBE width n

/-- The number written by some bytes, most significant first. -/
def toNatBE (bs : Bytes) : Nat :=
  bs.foldl (fun n b => 256 * n + b.toNat) 0

/-- A number below `2 ^ 64` as eight bytes. -/
def word (n : Nat) : Bytes :=
  ofNatBE wordSize n

/-- The number written by eight bytes. -/
def ofWord (bs : Bytes) : Nat :=
  toNatBE bs

/-- The number written by some bytes, least significant first. -/
def toNatLE (bs : Bytes) : Nat :=
  bs.foldr (fun b n => b.toNat + 256 * n) 0

@[simp] theorem length_ofNatBE (width n : Nat) : (ofNatBE width n).length = width := by
  induction width with
  | zero => rfl
  | succ width ih => simp [ofNatBE, ih]

@[simp] theorem length_word (n : Nat) : (word n).length = wordSize :=
  length_ofNatBE _ _

theorem foldl_shift (bs : Bytes) (n : Nat) :
    bs.foldl (fun n b => 256 * n + b.toNat) n = 256 ^ bs.length * n + toNatBE bs := by
  unfold toNatBE
  induction bs generalizing n with
  | nil => simp
  | cons b bs ih =>
    simp only [List.foldl_cons, List.length_cons]
    rw [ih, ih (256 * 0 + b.toNat)]
    rw [Nat.pow_succ, Nat.mul_add, Nat.mul_zero, Nat.zero_add, ← Nat.mul_assoc, Nat.add_assoc]

theorem toNatBE_cons (b : UInt8) (bs : Bytes) :
    toNatBE (b :: bs) = 256 ^ bs.length * b.toNat + toNatBE bs := by
  rw [toNatBE, List.foldl_cons, foldl_shift]
  simp

theorem toNatBE_lt (bs : Bytes) : toNatBE bs < 256 ^ bs.length := by
  induction bs with
  | nil => simp [toNatBE]
  | cons b bs ih =>
    rw [toNatBE_cons, List.length_cons, Nat.pow_succ]
    have hb : b.toNat ≤ 255 := by have := b.toNat_lt; omega
    have hm : 256 ^ bs.length * b.toNat ≤ 256 ^ bs.length * 255 := Nat.mul_le_mul_left _ hb
    omega

theorem toNatBE_ofNatBE (width n : Nat) : toNatBE (ofNatBE width n) = n % 256 ^ width := by
  induction width with
  | zero => simp [ofNatBE, toNatBE, Nat.mod_one]
  | succ width ih =>
    have hp : 256 ^ (width + 1) = 256 ^ width * 256 := Nat.pow_succ ..
    rw [ofNatBE, toNatBE_cons, length_ofNatBE, ih, UInt8.toNat_ofNat', hp, Nat.mod_mul, Nat.add_comm]

theorem ofNatBE_toNatBE (bs : Bytes) (m : Nat) :
    ofNatBE bs.length (256 ^ bs.length * m + toNatBE bs) = bs := by
  induction bs generalizing m with
  | nil => rfl
  | cons b bs ih =>
    have hlt := toNatBE_lt bs
    have hpos : 0 < 256 ^ bs.length := Nat.pow_pos (by omega)
    have he : 256 ^ (b :: bs).length * m + toNatBE (b :: bs)
        = 256 ^ bs.length * (256 * m + b.toNat) + toNatBE bs := by
      rw [toNatBE_cons, List.length_cons, Nat.pow_succ, Nat.mul_add, Nat.mul_assoc, Nat.add_assoc]
    rw [he, List.length_cons, ofNatBE, ih]
    congr 1
    rw [Nat.mul_add_div hpos, Nat.div_eq_of_lt hlt]
    apply UInt8.toNat_inj.mp
    have hb := b.toNat_lt
    rw [UInt8.toNat_ofNat']
    omega

/-- Eight bytes read back the number they were written for. -/
theorem ofWord_word {n : Nat} (h : n < 2 ^ (64 : Nat)) : ofWord (word n) = n := by
  rw [ofWord, word, toNatBE_ofNatBE]
  exact Nat.mod_eq_of_lt h

/-- Eight bytes are the written form of the number they stand for. -/
theorem word_ofWord {bs : Bytes} (h : bs.length = wordSize) : word (ofWord bs) = bs := by
  have he := ofNatBE_toNatBE bs 0
  rwa [Nat.mul_zero, Nat.zero_add, h] at he

theorem ofWord_lt {bs : Bytes} (h : bs.length = wordSize) : ofWord bs < 2 ^ (64 : Nat) := by
  have := toNatBE_lt bs
  rwa [h] at this

/-- A text is read back from its bytes. -/
theorem toText?_ofText (s : String) : toText? (ofText s) = some s := by
  rw [toText?, ofText, String.toUTF8_eq_toByteArray, Array.toArray_toList, String.fromUTF8?,
    dif_pos s.isValidUTF8]
  rfl

/-- Bytes that are a text are the bytes of that text. -/
theorem ofText_of_toText? {bs : Bytes} {s : String} (h : toText? bs = some s) : ofText s = bs := by
  rw [toText?, String.fromUTF8?] at h
  split at h
  · rw [← Option.some.inj h]
    rfl
  · cases h

theorem ofText_ne_nil {s : String} (h : s ≠ "") : ofText s ≠ [] := by
  intro he
  have ht := toText?_ofText s
  rw [he] at ht
  exact h (Option.some.inj ht).symm

end Bytes

end FileDepot
