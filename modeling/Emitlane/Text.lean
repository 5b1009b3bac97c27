import Emitlane.Basic
import Emitlane.Lib.Utf8

/-!
# Text — error texts and identifiers as the store writes them

Go strings are byte strings, and an error text may hold any bytes.  `sanitizeError` is what the store writes to
`last_error`: NUL bytes and invalid runs become U+FFFD, and the result is cut to `maxErrorBytes` between two runes.
-/

namespace Emitlane

abbrev Bytes := List UInt8

/-! ## UTF-8 -/

/-- A continuation byte. -/
def isCont (b : UInt8) : Bool := 0x80 ≤ b && b ≤ 0xbf

/-- The second bytes that may follow a lead byte of three or four. -/
def secondOk (lead b : UInt8) : Bool :=
  if lead = 0xe0 then 0xa0 ≤ b && b ≤ 0xbf
  else if lead = 0xed then 0x80 ≤ b && b ≤ 0x9f
  else if lead = 0xf0 then 0x90 ≤ b && b ≤ 0xbf
  else if lead = 0xf4 then 0x80 ≤ b && b ≤ 0x8f
  else isCont b

/-- The length of the rune a byte string starts with; `none` if it starts with no valid rune. -/
def runeLen : Bytes → Option Nat
  | [] => none
  | b :: s =>
    if b < 0x80 then some 1
    else if 0xc2 ≤ b && b ≤ 0xdf then
      match s with
      | c :: _ => if isCont c then some 2 else none
      | _ => none
    else if 0xe0 ≤ b && b ≤ 0xef then
      match s with
      | c :: d :: _ => if secondOk b c && isCont d then some 3 else none
      | _ => none
    else if 0xf0 ≤ b && b ≤ 0xf4 then
      match s with
      | c :: d :: e :: _ => if secondOk b c && isCont d && isCont e then some 4 else none
      | _ => none
    else none

/-- U+FFFD. -/
def replacement : Bytes := [0xef, 0xbf, 0xbd]

/-- `strings.ToValidUTF8` with U+FFFD.  `skip` bytes still belong to the rune being copied; `invalid` says that the
last byte was replaced, so that a run of invalid bytes gives one replacement. -/
def toValidUTF8 : Nat → Bool → Bytes → Bytes
  | _, _, [] => []
  | skip + 1, _, b :: s => b :: toValidUTF8 skip false s
  | 0, invalid, b :: s =>
    match runeLen (b :: s) with
    | some n => b :: toValidUTF8 (n - 1) false s
    | none => (if invalid then [] else replacement) ++ toValidUTF8 0 true s

/-- `utf8.ValidString`. -/
def validString : Nat → Bytes → Bool
  | 0, [] => true
  | _ + 1, [] => false
  | skip + 1, _ :: s => validString skip s
  | 0, b :: s =>
    match runeLen (b :: s) with
    | some n => validString (n - 1) s
    | none => false

/-! ## sanitizeError -/

def maxErrorBytes : Nat := 4096

/-- The loop that decrements `end` until `msg[:end]` is valid. -/
def trimEnd (msg : Bytes) : Nat → Nat
  | 0 => 0
  | e + 1 => if validString 0 (msg.take (e + 1)) then e + 1 else trimEnd msg e

def sanitizeError (msg : Bytes) : Bytes :=
  let msg := toValidUTF8 0 false (msg.flatMap fun b => if b = 0 then replacement else [b])
  if msg.length ≤ maxErrorBytes then msg else msg.take (trimEnd msg maxErrorBytes)

/-! ## uuid.UUID.String -/

def hexDigit (n : Nat) : Char := "0123456789abcdef".toList.getD n '0'

/-- The last `d` hexadecimal digits of `v`. -/
def hex : Nat → Nat → List Char
  | 0, _ => []
  | d + 1, v => hex d (v / 16) ++ [hexDigit (v % 16)]

def Uuid.text (u : Uuid) : String :=
  let h := hex 32 u.val
  String.ofList (h.take 8 ++ '-' :: (h.drop 8).take 4 ++ '-' :: (h.drop 12).take 4 ++
    '-' :: (h.drop 16).take 4 ++ '-' :: h.drop 20)

/-! ## strconv.Quote -/

/-- A character of a quoted text.  What `unicode.IsPrint` says of characters beyond ASCII is not modelled: they stand as
they are. -/
def quoteChar (c : Char) : List Char :=
  if c = '"' ∨ c = '\\' then ['\\', c]
  else if c = '\x07' then ['\\', 'a']
  else if c = '\x08' then ['\\', 'b']
  else if c = '\x0c' then ['\\', 'f']
  else if c = '\n' then ['\\', 'n']
  else if c = '\r' then ['\\', 'r']
  else if c = '\t' then ['\\', 't']
  else if c = '\x0b' then ['\\', 'v']
  else if c < ' ' ∨ c = '\x7f' then '\\' :: 'x' :: hex 2 c.toNat
  else [c]

/-- The loop of `strconv.Quote`; `skip` bytes still belong to the last rune, and a byte of no character is written in
hexadecimal. -/
def quoteFrom : Nat → Bytes → List Char
  | _, [] => []
  | skip + 1, _ :: s => quoteFrom skip s
  | 0, b :: s =>
    match Utf8.first (b :: s) with
    | some c => quoteChar c ++ quoteFrom (c.utf8Size - 1) s
    | none => '\\' :: 'x' :: hex 2 b.toNat ++ quoteFrom 0 s

/-- `strconv.Quote`, the verb `%q`. -/
def quote (s : Bytes) : String := String.ofList ('"' :: quoteFrom 0 s ++ ['"'])

/-! ## uuid.Parse -/

/-- The value of a hexadecimal digit. -/
def hexValue (b : UInt8) : Option Nat :=
  if 0x30 ≤ b && b ≤ 0x39 then some (b.toNat - 0x30)
  else if 0x61 ≤ b && b ≤ 0x66 then some (b.toNat - 0x61 + 10)
  else if 0x41 ≤ b && b ≤ 0x46 then some (b.toNat - 0x41 + 10)
  else none

/-- Read 32 hexadecimal digits. -/
def parseHex (s : Bytes) : Except String Uuid :=
  match s.foldl (fun acc b => acc.bind fun n => (hexValue b).map (16 * n + ·)) (some 0) with
  | some n => if h : n < 2 ^ 128 then .ok ⟨n, h⟩ else .error "invalid UUID format"
  | none => .error "invalid UUID format"

/-- Read the form with hyphens; bytes behind the first 36 are ignored. -/
def parseHyphens (s : Bytes) : Except String Uuid :=
  if s[8]? = some 0x2d ∧ s[13]? = some 0x2d ∧ s[18]? = some 0x2d ∧ s[23]? = some 0x2d then
    parseHex (s.take 8 ++ (s.drop 9).take 4 ++ (s.drop 14).take 4 ++ (s.drop 19).take 4 ++ (s.drop 24).take 12)
  else .error "invalid UUID format"

/-- `strings.EqualFold` with an ASCII text. -/
def equalFoldASCII (s : Bytes) (t : String) : Bool :=
  s.map (fun b => if 0x41 ≤ b && b ≤ 0x5a then b + 0x20 else b) = bytes t

/-- `uuid.Parse` accepts the plain form, the `urn:uuid:` form, a form in braces and 32 digits. -/
def uuidParseBytes (s : Bytes) : Except String Uuid :=
  match s.length with
  | 36 => parseHyphens s
  | 45 =>
    if equalFoldASCII (s.take 9) "urn:uuid:" then parseHyphens (s.drop 9)
    else .error s!"invalid urn prefix: {quote (s.take 9)}"
  | 38 => parseHyphens (s.drop 1)
  | 32 => parseHex s
  | n => .error s!"invalid UUID length: {n}"

def uuidParse (text : String) : Except String Uuid := uuidParseBytes (bytes text)

/-! ## The canonical form is parsed back -/

/-- The byte of an ASCII character. -/
def charByte (c : Char) : UInt8 := UInt8.ofNat c.toNat

theorem utf8EncodeChar_hexDigit : ∀ n < 16, String.utf8EncodeChar (hexDigit n) = [charByte (hexDigit n)] := by decide

theorem hexValue_hexDigit : ∀ n < 16, hexValue (charByte (hexDigit n)) = some n := by decide

@[simp] theorem length_hex (d v : Nat) : (hex d v).length = d := by
  induction d generalizing v with
  | zero => rfl
  | succ d ih => simp [hex, ih]

theorem mem_hex (d v : Nat) : ∀ c ∈ hex d v, ∃ n < 16, c = hexDigit n := by
  induction d generalizing v with
  | zero => simp [hex]
  | succ d ih =>
    intro c hc
    rcases List.mem_append.mp hc with h | h
    · exact ih _ c h
    · exact ⟨v % 16, Nat.mod_lt _ (by omega), List.mem_singleton.mp h⟩

theorem foldl_hex (d v a : Nat) :
    ((hex d v).map charByte).foldl (fun acc b => acc.bind fun n => (hexValue b).map (16 * n + ·)) (some a) =
      some (a * 16 ^ d + v % 16 ^ d) := by
  induction d generalizing v with
  | zero => simp [hex, Nat.mod_one]
  | succ d ih =>
    have hdigit := hexValue_hexDigit (v % 16) (Nat.mod_lt _ (by omega))
    have hmod : v % 16 ^ (d + 1) = v % 16 + 16 * (v / 16 % 16 ^ d) := by
      rw [pow_succ', Nat.mod_mul]
    have hpow : a * 16 ^ (d + 1) = 16 * (a * 16 ^ d) := by
      rw [pow_succ, ← Nat.mul_assoc, Nat.mul_comm]
    rw [hex, List.map_append, List.foldl_append, ih]
    simp only [List.map_cons, List.map_nil, List.foldl_cons, List.foldl_nil, Option.bind_some, hdigit,
      Option.map_some, hmod, hpow, Option.some.injEq]
    omega

theorem parseHex_hex (u : Uuid) : parseHex ((hex 32 u.val).map charByte) = .ok u := by
  have hfold := foldl_hex 32 u.val 0
  have hval : 0 * 16 ^ 32 + u.val % 16 ^ 32 = u.val := by
    rw [Nat.mod_eq_of_lt (lt_of_lt_of_eq u.isLt (by norm_num))]
    omega
  rw [hval] at hfold
  unfold parseHex
  rw [hfold]
  exact dif_pos u.isLt

/-- Separators between the groups of 32 digits. -/
def hyphenate {α : Type} (sep : α) (h : List α) : List α :=
  h.take 8 ++ sep :: (h.drop 8).take 4 ++ sep :: (h.drop 12).take 4 ++ sep :: (h.drop 16).take 4 ++ sep :: h.drop 20

theorem text_eq (u : Uuid) : u.text = String.ofList (hyphenate '-' (hex 32 u.val)) := rfl

theorem mem_hyphenate {α : Type} {sep c : α} {h : List α} (hc : c ∈ hyphenate sep h) : c = sep ∨ c ∈ h := by
  simp only [hyphenate, List.append_assoc, List.cons_append, List.mem_append, List.mem_cons] at hc
  grind [List.mem_of_mem_take, List.mem_of_mem_drop]

theorem map_hyphenate {α β : Type} (f : α → β) (sep : α) (h : List α) :
    (hyphenate sep h).map f = hyphenate (f sep) (h.map f) := by
  simp [hyphenate, List.map_take, List.map_drop]

theorem groups_append {α : Type} (h : List α) :
    h.take 8 ++ ((h.drop 8).take 4 ++ ((h.drop 12).take 4 ++ ((h.drop 16).take 4 ++ h.drop 20))) = h := by
  have step : ∀ n, (h.drop n).take 4 ++ h.drop (n + 4) = h.drop n := fun n => by
    rw [← List.drop_drop, List.take_append_drop]
  rw [step 16, step 12, step 8, List.take_append_drop]

theorem parseHyphens_hyphenate {s : Bytes} (h : s.length = 32) : parseHyphens (hyphenate 0x2d s) = parseHex s := by
  unfold parseHyphens hyphenate
  simp [h, List.drop_append, List.drop_eq_nil_of_le, List.take_of_length_le, groups_append]

theorem bytes_text (u : Uuid) : bytes u.text = hyphenate 0x2d ((hex 32 u.val).map charByte) := by
  have hsingle : ∀ c ∈ hyphenate '-' (hex 32 u.val), String.utf8EncodeChar c = [charByte c] := by
    intro c hc
    rcases mem_hyphenate hc with rfl | hc
    · decide
    · obtain ⟨n, hn, rfl⟩ := mem_hex 32 u.val c hc
      exact utf8EncodeChar_hexDigit n hn
  have hmap := map_hyphenate charByte '-' (hex 32 u.val)
  rw [bytes, text_eq, String.toList_ofList, List.flatMap_congr hsingle, ← List.map_eq_flatMap, hmap]
  rfl

/-- `uuid.Parse` reads what `UUID.String` writes. -/
theorem uuidParse_text (u : Uuid) : uuidParse u.text = .ok u := by
  have hlen : (hyphenate (0x2d : UInt8) ((hex 32 u.val).map charByte)).length = 36 := by simp [hyphenate]
  unfold uuidParse uuidParseBytes
  simp only [bytes_text, hlen]
  rw [parseHyphens_hyphenate (by simp), parseHex_hex]

theorem Uuid.text_injective {a b : Uuid} (h : a.text = b.text) : a = b := by
  have ha := uuidParse_text a
  rw [h, uuidParse_text b] at ha
  exact (Except.ok.inj ha).symm

/-! ## strings.TrimSpace on bytes -/

/-- The runes of `unicode.IsSpace`. -/
def spaceRunes : List Char :=
  ['\t', '\n', '\x0b', '\x0c', '\r', ' ', '\u0085', '\u00a0', '\u1680', '\u2000', '\u2001', '\u2002', '\u2003',
   '\u2004', '\u2005', '\u2006', '\u2007', '\u2008', '\u2009', '\u200a', '\u2028', '\u2029', '\u202f', '\u205f',
   '\u3000']

/-- Drop the words `ws` from the front, one after another. -/
def dropWords (ws : List Bytes) : Nat → Bytes → Bytes
  | 0, s => s
  | fuel + 1, s =>
    match ws.find? (·.isPrefixOf s) with
    | some w => dropWords ws fuel (s.drop w.length)
    | none => s

/-- `strings.TrimSpace` of a byte string, which need not be valid UTF-8: the runes at its two ends are decoded one by
one, and an invalid one ends the trim. -/
def trimSpaceBytes (s : Bytes) : Bytes :=
  let ws := spaceRunes.map String.utf8EncodeChar
  let s := dropWords ws s.length s
  (dropWords (ws.map List.reverse) s.length s.reverse).reverse

theorem dropWords_eq_self {ws : List Bytes} {s : Bytes} (n : Nat) (h : ∀ w ∈ ws, w.isPrefixOf s = false) :
    dropWords ws n s = s := by
  cases n with
  | zero => rfl
  | succ n =>
    have hnone : ws.find? (·.isPrefixOf s) = none := List.find?_eq_none.mpr fun w hw => by simp [h w hw]
    rw [dropWords, hnone]

theorem space_not_printable : ∀ w ∈ spaceRunes.map String.utf8EncodeChar,
    w ≠ [] ∧ ∀ b ∈ w, ¬((0x2d : UInt8) ≤ b ∧ b ≤ 0x7a) := by decide +kernel

/-- No word of unprintable bytes is in front of a printable one. -/
theorem isPrefixOf_printable {w s : Bytes} (hw : w ≠ [] ∧ ∀ b ∈ w, ¬((0x2d : UInt8) ≤ b ∧ b ≤ 0x7a))
    (hs : s ≠ []) (hprint : ∀ b ∈ s, (0x2d : UInt8) ≤ b ∧ b ≤ 0x7a) : w.isPrefixOf s = false := by
  cases w with
  | nil => exact absurd rfl hw.1
  | cons a w =>
    cases s with
    | nil => exact absurd rfl hs
    | cons b s =>
      have hab : a ≠ b := fun h => hw.2 a (by simp) (h ▸ hprint b (by simp))
      simp [List.isPrefixOf, hab]

/-- A byte string without blanks is left as it is. -/
theorem trimSpaceBytes_printable {s : Bytes} (h : ∀ b ∈ s, (0x2d : UInt8) ≤ b ∧ b ≤ 0x7a) :
    trimSpaceBytes s = s := by
  rcases eq_or_ne s [] with rfl | hne
  · rfl
  have hleft : dropWords (spaceRunes.map String.utf8EncodeChar) s.length s = s :=
    dropWords_eq_self _ fun w hw => isPrefixOf_printable (space_not_printable w hw) hne h
  have hright : dropWords ((spaceRunes.map String.utf8EncodeChar).map List.reverse) s.length s.reverse = s.reverse := by
    refine dropWords_eq_self _ fun w hw => ?_
    obtain ⟨v, hv, rfl⟩ := List.mem_map.mp hw
    obtain ⟨hvne, hvb⟩ := space_not_printable v hv
    refine isPrefixOf_printable ⟨by simpa using hvne, fun b hb => hvb b (List.mem_reverse.mp hb)⟩
      (by simpa using hne) ?_
    exact fun b hb => h b (List.mem_reverse.mp hb)
  unfold trimSpaceBytes
  simp only [hleft, hright, List.reverse_reverse]

theorem hexDigit_printable : ∀ n < 16, (0x2d : UInt8) ≤ charByte (hexDigit n) ∧
    charByte (hexDigit n) ≤ 0x7a := by decide

theorem trimSpaceBytes_text (u : Uuid) : trimSpaceBytes (bytes u.text) = bytes u.text := by
  refine trimSpaceBytes_printable fun b hb => ?_
  rw [bytes_text] at hb
  rcases mem_hyphenate hb with rfl | hb
  · decide
  · obtain ⟨c, hc, rfl⟩ := List.mem_map.mp hb
    obtain ⟨n, hn, rfl⟩ := mem_hex 32 u.val c hc
    exact hexDigit_printable n hn

/-! ### The two forms of strings.TrimSpace agree -/

theorem isSpace_iff {c : Char} : isSpace c = true ↔ c ∈ spaceRunes := by
  have hrange : ∀ i < 11, Char.ofNat (0x2000 + i) ∈ spaceRunes ∧
    (i < 5 → Char.ofNat (9 + i) ∈ spaceRunes) := by decide
  have hall : spaceRunes.all isSpace = true := by decide
  refine ⟨fun h => ?_, List.all_eq_true.mp hall c⟩
  simp only [isSpace, Bool.or_eq_true, Bool.and_eq_true, decide_eq_true_eq] at h
  rcases h with ((((((((((rfl | h) | rfl) | rfl) | rfl) | h) | rfl) | rfl) | rfl) | rfl) | rfl)
  case inl.inl.inl.inl.inl.inl.inl.inl.inl.inr =>
    have hlow : 9 ≤ c.toNat := h.1
    have hhigh : c.toNat ≤ 13 := h.2
    have hmem := (hrange (c.toNat - 9) (by omega)).2 (by omega)
    rwa [Nat.add_sub_cancel' hlow, Char.ofNat_toNat] at hmem
  case inl.inl.inl.inl.inl.inr =>
    have hlow : 0x2000 ≤ c.toNat := h.1
    have hhigh : c.toNat ≤ 0x200a := h.2
    have hmem := (hrange (c.toNat - 0x2000) (by omega)).1
    rwa [Nat.add_sub_cancel' hlow, Char.ofNat_toNat] at hmem
  all_goals decide

theorem dropWhile_spaceRunes (text : List Char) : text.dropWhile (· ∈ spaceRunes) = text.dropWhile isSpace := by
  congr 1
  funext c
  rw [Bool.eq_iff_iff, isSpace_iff, decide_eq_true_eq]

/-- If no code begins another one, dropping the codes of `cs` drops the characters in `cs`. -/
theorem dropWords_flatMap {f : Char → Bytes} (hne : ∀ c, f c ≠ []) (hcode : ∀ c d s, f c <+: f d ++ s → c = d)
    (cs : List Char) {text : List Char} {n : Nat} (hn : text.length ≤ n) :
    dropWords (cs.map f) n (text.flatMap f) = (text.dropWhile (· ∈ cs)).flatMap f := by
  induction text generalizing n with
  | nil =>
    refine dropWords_eq_self n fun w hw => ?_
    obtain ⟨c, -, rfl⟩ := List.mem_map.mp hw
    rw [Bool.eq_false_iff, ne_eq, List.isPrefixOf_iff_prefix]
    exact fun h => hne c (List.prefix_nil.mp h)
  | cons d text ih =>
    by_cases hd : d ∈ cs
    · obtain ⟨n, rfl⟩ : ∃ m, n = m + 1 := ⟨n - 1, by simp at hn; omega⟩
      have hfind : (cs.map f).find? (·.isPrefixOf (f d ++ text.flatMap f)) = some (f d) := by
        cases hfound : (cs.map f).find? (·.isPrefixOf (f d ++ text.flatMap f)) with
        | none =>
          have hno := List.find?_eq_none.mp hfound (f d) (List.mem_map_of_mem hd)
          exact absurd (List.isPrefixOf_iff_prefix.mpr (List.prefix_append _ _)) hno
        | some w =>
          obtain ⟨c, -, rfl⟩ := List.mem_map.mp (List.mem_of_find?_eq_some hfound)
          have hprefix := List.find?_some hfound
          rw [hcode c d _ (List.isPrefixOf_iff_prefix.mp hprefix)]
      rw [List.flatMap_cons, dropWords, hfind]
      simp only [List.drop_left]
      rw [ih (by simpa using hn), List.dropWhile_cons_of_pos (by simpa using hd)]
    · rw [List.dropWhile_cons_of_neg (by simpa using hd)]
      refine dropWords_eq_self n fun w hw => ?_
      obtain ⟨c, hc, rfl⟩ := List.mem_map.mp hw
      rw [Bool.eq_false_iff, ne_eq, List.isPrefixOf_iff_prefix, List.flatMap_cons]
      exact fun hprefix => hd (hcode c d _ hprefix ▸ hc)

theorem dropSpaces_front (text : List Char) :
    dropWords (spaceRunes.map String.utf8EncodeChar) (Utf8.encode text).length (Utf8.encode text) =
      Utf8.encode (text.dropWhile isSpace) := by
  rw [← dropWhile_spaceRunes]
  exact dropWords_flatMap Utf8.utf8EncodeChar_ne_nil (fun _ _ _ => Utf8.eq_of_prefix) spaceRunes
    (Utf8.length_le_length_encode text)

theorem dropSpaces_back (text : List Char) :
    (dropWords ((spaceRunes.map String.utf8EncodeChar).map List.reverse) (Utf8.encode text).length
        (Utf8.encode text).reverse).reverse = Utf8.encode (text.reverse.dropWhile isSpace).reverse := by
  have hlen : text.reverse.length ≤ (Utf8.encode text).length := by
    rw [List.length_reverse]
    exact Utf8.length_le_length_encode text
  have hdrop := dropWords_flatMap (f := fun c => (String.utf8EncodeChar c).reverse)
    (fun c h => Utf8.utf8EncodeChar_ne_nil c (List.reverse_eq_nil_iff.mp h)) (fun c d s h => by
      rw [← List.reverse_suffix, List.reverse_append, List.reverse_reverse, List.reverse_reverse] at h
      exact Utf8.eq_of_suffix h) spaceRunes hlen
  have hback : ∀ l : List Char, (l.flatMap fun c => (String.utf8EncodeChar c).reverse).reverse =
      Utf8.encode l.reverse := fun l => by
    rw [Utf8.encode, List.flatMap_reverse]
    rfl
  rw [dropWhile_spaceRunes] at hdrop
  rw [← hback, ← hdrop, List.map_map]
  have hfront := hback text.reverse
  rw [List.reverse_reverse] at hfront
  rw [← hfront, List.reverse_reverse, List.length_reverse]
  rfl

theorem trimSpaceBytes_bytes (s : String) : trimSpaceBytes (bytes s) = bytes (trimSpace s) := by
  have hbytes : ∀ t : String, bytes t = Utf8.encode t.toList := fun _ => rfl
  unfold trimSpaceBytes
  dsimp only
  rw [hbytes, dropSpaces_front, dropSpaces_back, hbytes, trimSpace, trimBy, String.toList_ofList]

theorem bytes_injective {s t : String} (h : bytes s = bytes t) : s = t := String.toList_inj.mp (Utf8.encode_injective h)

end Emitlane
