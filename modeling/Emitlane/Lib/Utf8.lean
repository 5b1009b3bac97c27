import Mathlib.Data.List.Basic

/-!
# Utf8 — byte strings that may not be UTF-8

A byte string is read rune by rune: a position either begins the encoding of a character, which is consumed whole, or
it is a byte of no character, which is consumed alone (`runes`).  The valid byte strings are the encodings of texts
(`runes_encode`, `encode_of_runes`), and `repair` writes U+FFFD for every byte of no character.

No encoding begins another one (`eq_of_prefix`), and none ends another one (`eq_of_suffix`).
-/

namespace Utf8

open String (utf8EncodeChar)

def encode (text : List Char) : List UInt8 := text.flatMap utf8EncodeChar

theorem utf8EncodeChar_ne_nil (c : Char) : utf8EncodeChar c ≠ [] := by
  intro h
  have hlen := String.length_utf8EncodeChar c
  rw [h] at hlen
  exact absurd (Char.utf8Size_pos c) (by rw [← hlen]; decide)

theorem length_le_length_encode (text : List Char) : text.length ≤ (encode text).length := by
  induction text with
  | nil => exact Nat.le.refl
  | cons c text ih =>
    have hpos := List.length_pos_iff.mpr (utf8EncodeChar_ne_nil c)
    rw [encode, List.flatMap_cons, List.length_append, List.length_cons, ← encode]
    omega

/-! ## The first rune -/

/-- The character a byte string begins with. -/
def first (s : List UInt8) : Option Char := s.toByteArray.utf8DecodeChar? 0

theorem first_append (c : Char) (s : List UInt8) : first (utf8EncodeChar c ++ s) = some c := by
  have hone : (utf8EncodeChar c).toByteArray.utf8DecodeChar? 0 = some c := by
    have h := List.utf8DecodeChar?_utf8Encode_singleton (c := c)
    rwa [List.utf8Encode_singleton] at h
  unfold first
  rw [List.toByteArray_append]
  exact ByteArray.utf8DecodeChar?_append_eq_some hone _

theorem eq_of_first {s : List UInt8} {c : Char} (h : first s = some c) :
    s = utf8EncodeChar c ++ s.drop c.utf8Size := by
  have heq := congrArg (fun b => b.data.toList) (ByteArray.eq_of_utf8DecodeChar?_eq_some h)
  simpa [List.take_of_length_le] using heq

/-! ## Runes -/

/-- The runes of a byte string; `none` is a byte of no character.  `skip` bytes still belong to the last rune. -/
def runesFrom : Nat → List UInt8 → List (Option Char)
  | _, [] => []
  | skip + 1, _ :: s => runesFrom skip s
  | 0, b :: s =>
    match first (b :: s) with
    | some c => some c :: runesFrom (c.utf8Size - 1) s
    | none => none :: runesFrom 0 s

def runes (s : List UInt8) : List (Option Char) := runesFrom 0 s

theorem runesFrom_append (r s : List UInt8) : runesFrom r.length (r ++ s) = runes s := by
  induction r with
  | nil => rfl
  | cons b r ih => exact ih

theorem runes_append (c : Char) (s : List UInt8) : runes (utf8EncodeChar c ++ s) = some c :: runes s := by
  have hlen := String.length_utf8EncodeChar c
  have hfirst := first_append c s
  cases hc : utf8EncodeChar c with
  | nil => exact absurd hc (utf8EncodeChar_ne_nil c)
  | cons b r =>
    rw [hc] at hfirst hlen
    rw [List.cons_append] at hfirst ⊢
    have hsize : c.utf8Size - 1 = r.length := by
      rw [← hlen]
      rfl
    rw [runes, runesFrom, hfirst]
    simp only [hsize, runesFrom_append]

theorem runes_encode (text : List Char) : runes (encode text) = text.map some := by
  induction text with
  | nil => rfl
  | cons c text ih => rw [encode, List.flatMap_cons, runes_append, ← encode, ih, List.map_cons]

/-- Reading a byte string rune by rune. -/
theorem runesInduction {P : List UInt8 → Prop} (nil : P []) (rune : ∀ c s, P s → P (utf8EncodeChar c ++ s))
    (junk : ∀ b s, first (b :: s) = none → P s → P (b :: s)) (s : List UInt8) : P s := by
  induction hn : s.length using Nat.strongRecOn generalizing s with
  | _ n ih =>
    cases s with
    | nil => exact nil
    | cons b s =>
      cases hfirst : first (b :: s) with
      | none => exact junk b s hfirst (ih _ (by simp at hn; omega) s rfl)
      | some c =>
        rw [eq_of_first hfirst]
        refine rune c _ (ih _ ?_ _ rfl)
        have hpos := Char.utf8Size_pos c
        rw [List.length_drop]
        simp at hn ⊢
        omega

/-- The valid byte strings. -/
def valid (s : List UInt8) : Bool := (runes s).all Option.isSome

theorem encode_of_valid {s : List UInt8} (h : valid s = true) : ∃ text, s = encode text := by
  induction s using runesInduction with
  | nil => exact ⟨[], rfl⟩
  | rune c s ih =>
    rw [valid, runes_append, List.all_cons, Bool.and_eq_true] at h
    obtain ⟨text, htext⟩ := ih h.2
    exact ⟨c :: text, by rw [encode, List.flatMap_cons, ← encode, ← htext]⟩
  | junk b s hb _ =>
    rw [valid, runes, runesFrom, hb] at h
    cases h

theorem valid_encode (text : List Char) : valid (encode text) = true := by
  rw [valid, runes_encode, List.all_map, List.all_eq_true]
  exact fun c _ => rfl

/-- U+FFFD for every byte of no character. -/
def repair (s : List UInt8) : List Char := (runes s).map (·.getD '\uFFFD')

theorem repair_encode (text : List Char) : repair (encode text) = text := by
  rw [repair, runes_encode, List.map_map]
  exact List.map_id text

/-- What is valid, and nothing else, stays as it is. -/
theorem encode_repair_eq_self {s : List UInt8} : encode (repair s) = s ↔ valid s = true := by
  constructor
  · intro h
    rw [← h]
    exact valid_encode _
  · intro h
    obtain ⟨text, rfl⟩ := encode_of_valid h
    rw [repair_encode]

/-! ## Encodings within encodings -/

theorem eq_of_prefix {c d : Char} {s : List UInt8} (h : utf8EncodeChar c <+: utf8EncodeChar d ++ s) : c = d := by
  obtain ⟨t, ht⟩ := h
  have hfirst := first_append c t
  rw [ht, first_append] at hfirst
  exact (Option.some.inj hfirst).symm

theorem encode_injective : Function.Injective encode := by
  intro a b h
  rw [← repair_encode a, h, repair_encode]

/-- Of the bytes of an encoding only the first can begin one, so a longer encoding ends in no shorter one. -/
theorem length_le_of_suffix {c d : Char} {s t : List UInt8} (h : s ++ utf8EncodeChar c = t ++ utf8EncodeChar d) :
    (utf8EncodeChar c).length ≤ (utf8EncodeChar d).length := by
  refine Nat.le_of_not_lt fun hlt => ?_
  have hpos : 0 < (utf8EncodeChar d).length := List.length_pos_iff.mpr (utf8EncodeChar_ne_nil d)
  have hi : (utf8EncodeChar c).length - (utf8EncodeChar d).length < (utf8EncodeChar c).length := by omega
  have hsum := congrArg List.length h
  rw [List.length_append, List.length_append] at hsum
  have hbyte : (utf8EncodeChar c)[(utf8EncodeChar c).length - (utf8EncodeChar d).length] = (utf8EncodeChar d)[0] := by
    have hget := congrArg (·[t.length]?) h
    rw [List.getElem?_append_right (by omega), List.getElem?_append_right Nat.le.refl] at hget
    have hidx : t.length - s.length = (utf8EncodeChar c).length - (utf8EncodeChar d).length := by omega
    rw [hidx, Nat.sub_self, List.getElem?_eq_getElem hi, List.getElem?_eq_getElem hpos] at hget
    exact Option.some.inj hget
  have hfirst : (utf8EncodeChar d)[0].IsUTF8FirstByte := UInt8.isUTF8FirstByte_getElem_zero_utf8EncodeChar
  rw [← hbyte, UInt8.isUTF8FirstByte_getElem_utf8EncodeChar] at hfirst
  omega

theorem eq_of_suffix {c d : Char} {s : List UInt8} (h : utf8EncodeChar c <:+ s ++ utf8EncodeChar d) : c = d := by
  obtain ⟨t, ht⟩ := h
  have hlen := Nat.le_antisymm (length_le_of_suffix ht) (length_le_of_suffix ht.symm)
  have heq : utf8EncodeChar c = utf8EncodeChar d := (List.append_inj' ht hlen).2
  exact eq_of_prefix (s := []) ⟨[], congrArg (· ++ []) heq⟩

/-- Only the character NUL has a zero byte. -/
theorem zero_mem_encode {text : List Char} : 0 ∈ encode text ↔ '\x00' ∈ text := by
  have hnul : utf8EncodeChar '\x00' = [0] := by decide
  unfold encode
  rw [List.mem_flatMap]
  constructor
  · rintro ⟨c, hc, hzero⟩
    obtain ⟨i, hi, hget⟩ := List.getElem_of_mem hzero
    have hfirst : (utf8EncodeChar c)[i].IsUTF8FirstByte := by
      rw [hget]
      exact .inl rfl
    obtain rfl := UInt8.isUTF8FirstByte_getElem_utf8EncodeChar.mp hfirst
    have heq : '\x00' = c := by
      refine eq_of_prefix (s := []) ?_
      rw [hnul, List.append_nil]
      cases hbytes : utf8EncodeChar c with
      | nil => exact absurd hbytes (utf8EncodeChar_ne_nil c)
      | cons b s =>
        simp only [hbytes, List.getElem_cons_zero] at hget
        rw [hget]
        exact List.prefix_append [0] s
    exact heq ▸ hc
  · intro h
    exact ⟨_, h, by simp [hnul]⟩

end Utf8
