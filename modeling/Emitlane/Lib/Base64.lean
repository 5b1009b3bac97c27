import Mathlib.Data.List.Basic
import Mathlib.Data.Option.Basic

/-!
# Base64 — the URL alphabet without padding

`encode` writes three bytes as four digits; the last one or two bytes as two or three.  `decode` skips line breaks, as
Go's decoder does, and does not look at the spare bits of the last digit.

* `decode_encode`: what is written is read back.
* `length_encode`: `⌈4 n / 3⌉` digits for `n` bytes.
-/

namespace Base64

/-- The digit of a value below 64. -/
def digit (n : Nat) : UInt8 :=
  if n < 26 then UInt8.ofNat (n + 0x41)
  else if n < 52 then UInt8.ofNat (n - 26 + 0x61)
  else if n < 62 then UInt8.ofNat (n - 52 + 0x30)
  else if n = 62 then 0x2d
  else 0x5f

/-- The value of a digit. -/
def value (b : UInt8) : Option Nat :=
  if 0x41 ≤ b ∧ b ≤ 0x5a then some (b.toNat - 0x41)
  else if 0x61 ≤ b ∧ b ≤ 0x7a then some (b.toNat - 0x61 + 26)
  else if 0x30 ≤ b ∧ b ≤ 0x39 then some (b.toNat - 0x30 + 52)
  else if b = 0x2d then some 62
  else if b = 0x5f then some 63
  else none

theorem value_digit : ∀ n < 64, value (digit n) = some n := by decide

/-- The first digit of a group is decided by the first byte, and so on. -/
def d₁ (a : UInt8) : Nat := a.toNat / 4
def d₂ (a b : UInt8) : Nat := a.toNat % 4 * 16 + b.toNat / 16
def d₃ (b c : UInt8) : Nat := b.toNat % 16 * 4 + c.toNat / 64
def d₄ (c : UInt8) : Nat := c.toNat % 64

def encode : List UInt8 → List UInt8
  | a :: b :: c :: rest => digit (d₁ a) :: digit (d₂ a b) :: digit (d₃ b c) :: digit (d₄ c) :: encode rest
  | [a, b] => [digit (d₁ a), digit (d₂ a b), digit (d₃ b 0)]
  | [a] => [digit (d₁ a), digit (d₂ a 0)]
  | [] => []

/-- The bytes of a group of values. -/
def b₁ (x y : Nat) : UInt8 := UInt8.ofNat (x * 4 + y / 16)
def b₂ (y z : Nat) : UInt8 := UInt8.ofNat (y % 16 * 16 + z / 4)
def b₃ (z w : Nat) : UInt8 := UInt8.ofNat (z % 4 * 64 + w)

def decodeValues : List Nat → Option (List UInt8)
  | x :: y :: z :: w :: rest => (decodeValues rest).map fun bs => b₁ x y :: b₂ y z :: b₃ z w :: bs
  | [x, y, z] => some [b₁ x y, b₂ y z]
  | [x, y] => some [b₁ x y]
  | [_] => none
  | [] => some []

def decode (s : List UInt8) : Option (List UInt8) :=
  ((s.filter fun b => b ≠ 0x0a ∧ b ≠ 0x0d).mapM value).bind decodeValues

/-- The values of the digits `encode` writes. -/
def values : List UInt8 → List Nat
  | a :: b :: c :: rest => d₁ a :: d₂ a b :: d₃ b c :: d₄ c :: values rest
  | [a, b] => [d₁ a, d₂ a b, d₃ b 0]
  | [a] => [d₁ a, d₂ a 0]
  | [] => []

theorem encode_eq (s : List UInt8) : encode s = (values s).map digit := by
  fun_induction encode s with
  | case1 a b c rest ih => simp [values, ih]
  | case2 a b => rfl
  | case3 a => rfl
  | case4 => rfl

theorem values_lt (s : List UInt8) : ∀ n ∈ values s, n < 64 := by
  have h₁ : ∀ a : UInt8, d₁ a < 64 := fun a => by have := a.toNat_lt; unfold d₁; omega
  have h₂ : ∀ a b : UInt8, d₂ a b < 64 := fun a b => by have := b.toNat_lt; unfold d₂; omega
  have h₃ : ∀ b c : UInt8, d₃ b c < 64 := fun b c => by have := c.toNat_lt; unfold d₃; omega
  have h₄ : ∀ c : UInt8, d₄ c < 64 := fun c => by unfold d₄; omega
  fun_induction values s with
  | case1 a b c rest ih => simpa [h₁, h₂, h₃, h₄] using ih
  | case2 a b => simp [h₁, h₂, h₃]
  | case3 a => simp [h₁, h₂]
  | case4 => simp

theorem decodeValues_values (s : List UInt8) : decodeValues (values s) = some s := by
  have h₁ : ∀ a b : UInt8, b₁ (d₁ a) (d₂ a b) = a := fun a b => by
    have hval : d₁ a * 4 + d₂ a b / 16 = a.toNat := by have := b.toNat_lt; unfold d₁ d₂; omega
    rw [b₁, hval, UInt8.ofNat_toNat]
  have h₂ : ∀ a b c : UInt8, b₂ (d₂ a b) (d₃ b c) = b := fun a b c => by
    have hval : d₂ a b % 16 * 16 + d₃ b c / 4 = b.toNat := by
      have := b.toNat_lt
      have := c.toNat_lt
      unfold d₂ d₃
      omega
    rw [b₂, hval, UInt8.ofNat_toNat]
  have h₃ : ∀ b c : UInt8, b₃ (d₃ b c) (d₄ c) = c := fun b c => by
    have hval : d₃ b c % 4 * 64 + d₄ c = c.toNat := by have := c.toNat_lt; unfold d₃ d₄; omega
    rw [b₃, hval, UInt8.ofNat_toNat]
  fun_induction values s with
  | case1 a b c rest ih => simp [decodeValues, ih, h₁, h₂, h₃]
  | case2 a b => simp [decodeValues, h₁, h₂]
  | case3 a => simp [decodeValues, h₁]
  | case4 => rfl

theorem digit_printable : ∀ n < 64, 0x2d ≤ digit n ∧ digit n ≤ 0x7a := by decide

/-- The digits are printable, so none is a line break or a blank. -/
theorem encode_printable {s : List UInt8} {b : UInt8} (h : b ∈ encode s) : 0x2d ≤ b ∧ b ≤ 0x7a := by
  rw [encode_eq] at h
  obtain ⟨n, hn, rfl⟩ := List.mem_map.mp h
  exact digit_printable n (values_lt s n hn)

theorem mapM_value (ns : List Nat) (h : ∀ n ∈ ns, n < 64) : (ns.map digit).mapM value = some ns := by
  induction ns with
  | nil => rfl
  | cons n ns ih =>
    rw [List.map_cons, List.mapM_cons, value_digit n (h n (by simp)), ih fun m hm => h m (List.mem_cons_of_mem _ hm)]
    rfl

/-- **What is written is read back.** -/
theorem decode_encode (s : List UInt8) : decode (encode s) = some s := by
  have hkeep : (encode s).filter (fun b => b ≠ 0x0a ∧ b ≠ 0x0d) = encode s := by
    refine List.filter_eq_self.mpr fun b hb => ?_
    obtain ⟨hlow, -⟩ := encode_printable hb
    refine decide_eq_true ⟨?_, ?_⟩ <;> rintro rfl <;> exact absurd hlow (by decide)
  rw [decode, hkeep, encode_eq, mapM_value _ (values_lt s)]
  exact decodeValues_values s

theorem length_encode (s : List UInt8) : (encode s).length = (4 * s.length + 2) / 3 := by
  fun_induction encode s with
  | case1 a b c rest ih =>
    simp only [List.length_cons, ih]
    omega
  | case2 a b => simp
  | case3 a => simp
  | case4 => simp

end Base64
