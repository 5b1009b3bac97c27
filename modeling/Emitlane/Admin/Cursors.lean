import Emitlane.Lib.Base64
import Emitlane.Admin.Service

/-!
# Admin.Cursors — the cursors of the listings (`internal/admin/types.go`)

A cursor is the JSON of a key in base64.  The decoder refuses a long text: 1024 bytes for the cursor of events and
audit records, 4096 for the one of ordered streams.

The JSON decoder is a parameter, and so is the text of a timestamp; `CursorJson.Faithful` and `StreamCursorJson` say
that what is written is read back.  The text of a string (`jsonString`) is modelled, since its length matters.
-/

namespace Emitlane

/-! ## Cursors of events and audit records -/

/-- `time.Time{}`, in microseconds of the Unix epoch. -/
def zeroTime : Int := -62135596800000000

/-- The instants of a database clock: later than the zero time, and in a year RFC 3339 can write. -/
def Shown (t : Int) : Prop := zeroTime < t ∧ t < 253402300800000000

instance decidableShown (t : Int) : Decidable (Shown t) := inferInstanceAs (Decidable (_ ∧ _))

/-- What encoding/json does with a cursor: the text of a timestamp, and the decoder. -/
structure CursorJson where
  stamp : Int → Option Bytes
  unmarshal : Bytes → Option (Int × Uuid)

/-- The JSON of a cursor whose timestamp is written `stamp`. -/
def cursorText (stamp : Bytes) (id : Uuid) : Bytes :=
  bytes "\x7b\"created_at\":\"" ++ stamp ++ bytes "\",\"id\":\"" ++ bytes id.text ++ bytes "\"\x7d"

/-- Timestamps are written in at most 35 bytes, and cursors are read back. -/
structure CursorJson.Faithful (json : CursorJson) : Prop where
  written : ∀ t, Shown t → ∃ stamp, json.stamp t = some stamp ∧ stamp.length ≤ 35
  read : ∀ t id stamp, Shown t → json.stamp t = some stamp → json.unmarshal (cursorText stamp id) = some (t, id)

def encodeCursor (json : CursorJson) (c : Int × Uuid) : Except StoreError Bytes :=
  if c.1 = zeroTime ∨ c.2 = 0 then .error (.invalid "cursor is incomplete")
  else
    match json.stamp c.1 with
    | none => .error ⟨none, "encode cursor"⟩
    | some stamp => .ok (Base64.encode (cursorText stamp c.2))

def decodeCursor (json : CursorJson) (value : Bytes) : Except StoreError (Option (Int × Uuid)) :=
  if trimSpaceBytes value = [] then .ok none
  else if 1024 < value.length then .error (.invalid "cursor is too long")
  else
    match (Base64.decode value).bind json.unmarshal with
    | none => .error (.invalid "malformed cursor")
    | some c => if c.1 = zeroTime ∨ c.2 = 0 then .error (.invalid "malformed cursor") else .ok (some c)

theorem trimSpaceBytes_encode {raw : Bytes} (h : raw ≠ []) : trimSpaceBytes (Base64.encode raw) ≠ [] := by
  rw [trimSpaceBytes_printable fun b hb => Base64.encode_printable hb]
  intro hnil
  have hlen := Base64.length_encode raw
  have hpos : 0 < raw.length := List.length_pos_iff.mpr h
  rw [hnil, List.length_nil] at hlen
  omega

theorem length_text (id : Uuid) : (bytes id.text).length = 36 := by
  rw [bytes_text]
  simp [hyphenate]

theorem length_cursorText (stamp : Bytes) (id : Uuid) : (cursorText stamp id).length = stamp.length + 61 := by
  have hparts : (bytes "\x7b\"created_at\":\"").length = 15 ∧ (bytes "\",\"id\":\"").length = 8 ∧
      (bytes "\"\x7d").length = 2 := by decide
  unfold cursorText
  simp only [List.length_append, hparts, length_text]
  omega

/-- A cursor with a timestamp and an id is written and read back. -/
theorem decode_encodeCursor {json : CursorJson} (hjson : json.Faithful) {c : Int × Uuid} (ht : Shown c.1)
    (hid : c.2 ≠ 0) : ∃ text, encodeCursor json c = .ok text ∧ decodeCursor json text = .ok (some c) := by
  obtain ⟨stamp, hstamp, hlen⟩ := hjson.written c.1 ht
  have hcomplete : ¬(c.1 = zeroTime ∨ c.2 = 0) := by
    rintro (h | h)
    · exact absurd ht.1 (by omega)
    · exact hid h
  have hread := hjson.read c.1 c.2 stamp ht hstamp
  have htext := length_cursorText stamp c.2
  have hne : cursorText stamp c.2 ≠ [] := fun h => by
    rw [h, List.length_nil] at htext
    omega
  refine ⟨Base64.encode (cursorText stamp c.2), ?_, ?_⟩
  · rw [encodeCursor, if_neg hcomplete, hstamp]
  · have hshort : ¬1024 < (Base64.encode (cursorText stamp c.2)).length := by
      rw [Base64.length_encode]
      omega
    rw [decodeCursor, if_neg (trimSpaceBytes_encode hne), if_neg hshort, Base64.decode_encode, Option.bind_some, hread]
    exact if_neg hcomplete

/-- A JSON with timestamps in hexadecimal. -/
def hexCursorJson : CursorJson where
  stamp t := some ((hex 32 (t - zeroTime).toNat).map charByte)
  unmarshal raw := (parseHex ((raw.drop 15).take 32)).toOption.bind fun n =>
    (uuidParseBytes ((raw.drop 55).take 36)).toOption.map fun id => (n.val + zeroTime, id)

theorem hexCursorJson_faithful : hexCursorJson.Faithful where
  written t _ := ⟨_, rfl, by simp⟩
  read t id stamp ht hstamp := by
    obtain rfl := Option.some.inj hstamp
    obtain ⟨hlow, hhigh⟩ := ht
    unfold zeroTime at hlow
    have hn : (t - zeroTime).toNat < 2 ^ 128 := by
      unfold zeroTime
      omega
    have hparts : (bytes "\x7b\"created_at\":\"").length = 15 ∧ (bytes "\",\"id\":\"").length = 8 := by decide
    have hstamp : ((cursorText ((hex 32 (t - zeroTime).toNat).map charByte) id).drop 15).take 32 =
        (hex 32 (t - zeroTime).toNat).map charByte := by simp [cursorText, hparts]
    have hid : ((cursorText ((hex 32 (t - zeroTime).toNat).map charByte) id).drop 55).take 36 = bytes id.text := by
      simp [cursorText, List.drop_append, hparts, length_text, List.drop_eq_nil_of_le]
    have hread : uuidParseBytes (bytes id.text) = .ok id := uuidParse_text id
    have hval : ((t - zeroTime).toNat : Int) + zeroTime = t := by
      unfold zeroTime
      omega
    simp only [hexCursorJson, hstamp, hid, parseHex_hex ⟨(t - zeroTime).toNat, hn⟩, hread, Except.toOption,
      Option.bind_some, Option.map_some, hval]

/-! ## Cursors of ordered streams -/

/-- `adminapi.OrderingStreamCursor`.  Its Go strings may be any bytes. -/
structure OrderingStreamCursor where
  destination : Bytes
  orderingKey : Bytes
  deriving DecidableEq

/-- One character in a string of encoding/json, which escapes for HTML. -/
def jsonChar (c : Char) : List Char :=
  if c = '"' ∨ c = '\\' then ['\\', c]
  else if c = '\x08' then ['\\', 'b']
  else if c = '\x0c' then ['\\', 'f']
  else if c = '\n' then ['\\', 'n']
  else if c = '\r' then ['\\', 'r']
  else if c = '\t' then ['\\', 't']
  else if c.toNat < 0x20 ∨ c = '<' ∨ c = '>' ∨ c = '&' ∨ c = '\u2028' ∨ c = '\u2029' then
    '\\' :: 'u' :: hex 4 c.toNat
  else [c]

/-- One rune of a Go string; encoding/json writes U+FFFD for a byte of no rune. -/
def jsonRune : Option Char → List Char
  | some c => jsonChar c
  | none => "\\ufffd".toList

def jsonString (s : Bytes) : List Char := '"' :: (Utf8.runes s).flatMap jsonRune ++ ['"']

/-- `json.Marshal` of the cursor of a stream. -/
def streamCursorText (c : OrderingStreamCursor) : Bytes :=
  bytes (String.ofList ("\x7b\"destination\":".toList ++ jsonString c.destination ++ ",\"ordering_key\":".toList ++
    jsonString c.orderingKey ++ ['\x7d']))

/-- The cursor in valid UTF-8. -/
def OrderingStreamCursor.repaired (c : OrderingStreamCursor) : OrderingStreamCursor :=
  ⟨Utf8.encode (Utf8.repair c.destination), Utf8.encode (Utf8.repair c.orderingKey)⟩

/-- Both strings of the cursor are UTF-8. -/
def OrderingStreamCursor.Valid (c : OrderingStreamCursor) : Prop :=
  Utf8.valid c.destination = true ∧ Utf8.valid c.orderingKey = true

/-- The JSON text of the cursor is short enough to be read back. -/
def OrderingStreamCursor.Short (c : OrderingStreamCursor) : Prop := (streamCursorText c).length ≤ 3072

theorem OrderingStreamCursor.repaired_eq_self {c : OrderingStreamCursor} : c.repaired = c ↔ c.Valid := by
  cases c
  simp only [OrderingStreamCursor.repaired, OrderingStreamCursor.mk.injEq, Utf8.encode_repair_eq_self]
  rfl

/-- The decoder reads what was written. -/
def StreamCursorJson (unmarshal : Bytes → Option OrderingStreamCursor) : Prop :=
  ∀ c, unmarshal (streamCursorText c) = some c.repaired

def encodeOrderingStreamCursor (c : OrderingStreamCursor) : Except StoreError Bytes :=
  if trimSpaceBytes c.destination = [] ∨ trimSpaceBytes c.orderingKey = [] then
    .error (.invalid "ordering stream cursor is incomplete")
  else .ok (Base64.encode (streamCursorText c))

def decodeOrderingStreamCursor (unmarshal : Bytes → Option OrderingStreamCursor) (value : Bytes) :
    Except StoreError (Option OrderingStreamCursor) :=
  if trimSpaceBytes value = [] then .ok none
  else if 4096 < value.length then .error (.invalid "ordering stream cursor is too long")
  else
    match (Base64.decode value).bind unmarshal with
    | none => .error (.invalid "malformed ordering stream cursor")
    | some c =>
      if trimSpaceBytes c.destination = [] ∨ trimSpaceBytes c.orderingKey = [] then
        .error (.invalid "malformed ordering stream cursor")
      else .ok (some c)

/-! ### The cursor of a stream is read back if it is valid and short enough -/

section Stream

variable {unmarshal : Bytes → Option OrderingStreamCursor} {c : OrderingStreamCursor}
  (hdest : trimSpaceBytes c.destination ≠ []) (hkey : trimSpaceBytes c.orderingKey ≠ [])

include hdest hkey

theorem encodeOrderingStreamCursor_eq : encodeOrderingStreamCursor c = .ok (Base64.encode (streamCursorText c)) :=
  if_neg (by simp [hdest, hkey])

/-- A cursor is read back or refused, or its invalid bytes were replaced. -/
theorem decode_encodeOrderingStreamCursor (hjson : StreamCursorJson unmarshal) :
    (c.Short → c.Valid → decodeOrderingStreamCursor unmarshal (Base64.encode (streamCursorText c)) =
      .ok (some c)) ∧
    (¬c.Short → decodeOrderingStreamCursor unmarshal (Base64.encode (streamCursorText c)) =
      .error (.invalid "ordering stream cursor is too long")) ∧
    (¬c.Valid → decodeOrderingStreamCursor unmarshal (Base64.encode (streamCursorText c)) ≠ .ok (some c)) := by
  have hne : streamCursorText c ≠ [] := by simp [streamCursorText, bytes, String.utf8EncodeChar]
  have hread : (Base64.decode (Base64.encode (streamCursorText c))).bind unmarshal = some c.repaired := by
    rw [Base64.decode_encode, Option.bind_some, hjson c]
  unfold OrderingStreamCursor.Short
  rw [decodeOrderingStreamCursor, if_neg (trimSpaceBytes_encode hne), Base64.length_encode, hread]
  refine ⟨fun hshort hvalid => ?_, fun hlong => if_pos (by omega), fun hinvalid => ?_⟩
  · rw [if_neg (by omega), OrderingStreamCursor.repaired_eq_self.mpr hvalid]
    exact if_neg (by simp [hdest, hkey])
  · dsimp only
    split_ifs with hlong hblank
    · exact fun h => by cases h
    · exact fun h => by cases h
    · intro h
      exact hinvalid (OrderingStreamCursor.repaired_eq_self.mp (Option.some.inj (Except.ok.inj h)))

theorem decode_encodeOrderingStreamCursor_iff (hjson : StreamCursorJson unmarshal) :
    decodeOrderingStreamCursor unmarshal (Base64.encode (streamCursorText c)) = .ok (some c) ↔
    c.Valid ∧ c.Short := by
  obtain ⟨hread, hlong, hinvalid⟩ := decode_encodeOrderingStreamCursor hdest hkey hjson
  refine ⟨fun h => ?_, fun h => hread h.2 h.1⟩
  refine ⟨not_not.mp fun hv => hinvalid hv h, not_not.mp fun hs => ?_⟩
  rw [hlong hs] at h
  cases h

end Stream

/-! ### A decoder for the texts of stream cursors -/

/-- The text behind `w`. -/
def expect (w l : List Char) : Option (List Char) := if w.isPrefixOf l then some (l.drop w.length) else none

theorem expect_append (w l : List Char) : expect w (w ++ l) = some l := by simp [expect]

/-- The character of an escape. -/
def unescape (c : Char) : Char :=
  if c = 'b' then '\x08' else if c = 'f' then '\x0c' else if c = 'n' then '\n' else if c = 'r' then '\r'
  else if c = 't' then '\t' else c

def hexChar (ds : List Char) : Char :=
  Char.ofNat (ds.foldl (fun n d => 16 * n + (hexValue (charByte d)).getD 0) 0)

/-- A string literal behind its opening quote: its characters, and the text behind its closing quote. -/
def readString : List Char → Option (List Char × List Char)
  | '"' :: rest => some ([], rest)
  | '\\' :: 'u' :: a :: b :: c :: d :: rest => (readString rest).map fun x => (hexChar [a, b, c, d] :: x.1, x.2)
  | '\\' :: c :: rest => (readString rest).map fun x => (unescape c :: x.1, x.2)
  | c :: rest => (readString rest).map fun x => (c :: x.1, x.2)
  | [] => none

theorem hex_four (n : Nat) : hex 4 n =
    [hexDigit (n / 16 / 16 / 16 % 16), hexDigit (n / 16 / 16 % 16), hexDigit (n / 16 % 16), hexDigit (n % 16)] := rfl

theorem hexChar_hex {n : Nat} (h : n < 0x10000) : hexChar (hex 4 n) = Char.ofNat n := by
  have hval : ∀ m, (hexValue (charByte (hexDigit (m % 16)))).getD 0 = m % 16 := fun m => by
    rw [hexValue_hexDigit _ (Nat.mod_lt _ (by omega))]
    rfl
  rw [hex_four, hexChar]
  simp only [List.foldl_cons, List.foldl_nil, hval]
  congr 1
  omega

theorem readString_jsonChar (c : Char) (l : List Char) :
    readString (jsonChar c ++ l) = (readString l).map fun x => (c :: x.1, x.2) := by
  unfold jsonChar
  split_ifs with hquote hb hf hn hr ht hescape
  · rcases hquote with rfl | rfl <;> rfl
  · subst hb
    rfl
  · subst hf
    rfl
  · subst hn
    rfl
  · subst hr
    rfl
  · subst ht
    rfl
  · have hsmall : c.toNat < 0x10000 := by
      rcases hescape with h | rfl | rfl | rfl | rfl | rfl
      · omega
      all_goals decide
    have hread : readString ('\\' :: 'u' :: hex 4 c.toNat ++ l) =
        (readString l).map fun x => (hexChar (hex 4 c.toNat) :: x.1, x.2) := rfl
    rw [hread, hexChar_hex hsmall, Char.ofNat_toNat]
  · have hplain : c ≠ '"' ∧ c ≠ '\\' := not_or.mp hquote
    rw [List.singleton_append, readString]
    · exact hplain.1
    · intro _ _ _ _ _ h
      exact absurd h hplain.2
    · intro _ _ h
      exact absurd h hplain.2

theorem readString_jsonRune (rune : Option Char) (l : List Char) :
    readString (jsonRune rune ++ l) = (readString l).map fun x => (rune.getD '\uFFFD' :: x.1, x.2) := by
  cases rune with
  | some c => exact readString_jsonChar c l
  | none =>
    have hchar : hexChar ['f', 'f', 'f', 'd'] = '\uFFFD' := by decide
    rw [Option.getD_none, ← hchar]
    rfl

theorem readString_jsonString (s : List (Option Char)) (l : List Char) :
    readString (s.flatMap jsonRune ++ '"' :: l) = some (s.map (·.getD '\uFFFD'), l) := by
  induction s with
  | nil => rfl
  | cons c s ih =>
    rw [List.flatMap_cons, List.append_assoc, readString_jsonRune, ih]
    rfl

def readStreamCursor (text : List Char) : Option OrderingStreamCursor :=
  (expect "\x7b\"destination\":\"".toList text).bind fun l => (readString l).bind fun x =>
    (expect ",\"ordering_key\":\"".toList x.2).bind fun l => (readString l).bind fun y =>
      if y.2 = ['\x7d'] then some ⟨Utf8.encode x.1, Utf8.encode y.1⟩ else none

def unmarshalStreamCursor (raw : Bytes) : Option OrderingStreamCursor :=
  (String.fromUTF8? raw.toByteArray).bind fun text => readStreamCursor text.toList

theorem fromUTF8_bytes (s : String) : String.fromUTF8? (bytes s).toByteArray = some s := by
  have hbytes : (bytes s).toByteArray = s.toByteArray := by
    conv_rhs => rw [← String.ofList_toList (s := s), String.toByteArray_ofList]
    rfl
  rw [hbytes, String.fromUTF8?, dif_pos s.isValidUTF8]
  rfl

theorem unmarshalStreamCursor_reads : StreamCursorJson unmarshalStreamCursor := by
  intro c
  have hparts : "\x7b\"destination\":\"".toList = "\x7b\"destination\":".toList ++ ['"'] ∧
      ",\"ordering_key\":\"".toList = ",\"ordering_key\":".toList ++ ['"'] := by decide
  have htext : "\x7b\"destination\":".toList ++ jsonString c.destination ++ ",\"ordering_key\":".toList ++
      jsonString c.orderingKey ++ ['\x7d'] = "\x7b\"destination\":\"".toList ++
        ((Utf8.runes c.destination).flatMap jsonRune ++ '"' :: (",\"ordering_key\":\"".toList ++
          ((Utf8.runes c.orderingKey).flatMap jsonRune ++ '"' :: ['\x7d']))) := by
    rw [hparts.1, hparts.2]
    simp only [jsonString, List.append_assoc, List.cons_append, List.nil_append]
  unfold unmarshalStreamCursor streamCursorText
  rw [fromUTF8_bytes, Option.bind_some, String.toList_ofList, htext]
  simp only [readStreamCursor, expect_append, readString_jsonString, Option.bind_some, if_true]
  rfl

end Emitlane
