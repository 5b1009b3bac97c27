import Mathlib.Data.Fintype.Basic
import Mathlib.Data.List.TakeWhile
import Mathlib.Data.String.Basic
import Mathlib.Tactic.Linarith

/-!
# Basic — time, machine integers, text and identifiers

Both are integers here: an instant of the database clock is a count of microseconds, the resolution of
`timestamptz`; a Go `time.Duration` is a count of nanoseconds.  A Go instant that is written to a column loses what
is below a microsecond (`addDuration`), a duration that is passed to SQL goes through `intervalMS`, which rounds up
to milliseconds (`addMS`).
-/

namespace Emitlane

def maxInt32 : Int := 2 ^ 31 - 1
def maxInt64 : Int := 2 ^ 63 - 1

def millisecond : Int := 1000000
def second : Int := 1000000000

/-- Addition of two `int64` values wraps around. -/
def addInt64 (a b : Int) : Int := Int.bmod (a + b) (2 ^ 64)

theorem addInt64_eq {a b : Int} (h0 : 0 ≤ a + b) (h : a + b ≤ maxInt64) : addInt64 a b = a + b := by
  unfold addInt64
  unfold maxInt64 at h
  rw [Int.bmod_def]
  omega

/-- So does multiplication. -/
def mulInt64 (a b : Int) : Int := Int.bmod (a * b) (2 ^ 64)

theorem mulInt64_eq {a b : Int} (h0 : 0 ≤ a * b) (h : a * b ≤ maxInt64) : mulInt64 a b = a * b := by
  unfold mulInt64
  unfold maxInt64 at h
  rw [Int.bmod_def]
  omega

/-- `intervalMS` of `storage/postgres/store.go`. -/
def intervalMS (d : Int) : Int :=
  if d ≤ 0 then 0
  else if d % millisecond ≠ 0 then d / millisecond + 1
  else d / millisecond

theorem intervalMS_nonneg (d : Int) : 0 ≤ intervalMS d := by
  unfold intervalMS millisecond
  split_ifs <;> omega

/-- `intervalMS` never rounds down. -/
theorem le_intervalMS (d : Int) : d ≤ intervalMS d * millisecond := by
  unfold intervalMS millisecond
  split_ifs <;> omega

/-- A whole number of milliseconds. -/
def WholeMS (d : Int) : Prop := d % millisecond = 0

instance (d : Int) : Decidable (WholeMS d) := inferInstanceAs (Decidable (_ = _))

theorem intervalMS_whole {d : Int} (h0 : 0 ≤ d) (h : WholeMS d) : intervalMS d * millisecond = d := by
  unfold WholeMS millisecond at h
  unfold intervalMS millisecond
  split_ifs <;> omega

/-- `t.Add(d)` as a `timestamptz` column stores it. -/
def addDuration (t d : Int) : Int := t + d / 1000

/-- `t + ms * INTERVAL '1 millisecond'`. -/
def addMS (t ms : Int) : Int := t + ms * 1000

theorem addDuration_le_addMS {t d ms : Int} (h : d ≤ ms * millisecond) :
    addDuration t d ≤ addMS t ms := by
  unfold addDuration addMS
  unfold millisecond at h
  omega

theorem addDuration_mono {t t' d d' : Int} (ht : t ≤ t') (hd : d ≤ d') :
    addDuration t d ≤ addDuration t' d' := by
  unfold addDuration
  omega

/-! ## Calls that may fail -/

theorem bind_eq_ok {ε α β : Type} {x : Except ε α} {f : α → Except ε β} {b : β} :
    x.bind f = .ok b ↔ ∃ a, x = .ok a ∧ f a = .ok b := by
  cases x <;> simp [Except.bind]

theorem map_eq_ok {ε α β : Type} {x : Except ε α} {f : α → β} {b : β} :
    x.map f = .ok b ↔ ∃ a, x = .ok a ∧ f a = b := by
  cases x <;> simp [Except.map]

/-! ## Text -/

/-- `unicode.IsSpace`. -/
def isSpace (c : Char) : Bool :=
  c = ' ' || ('\t' ≤ c && c ≤ '\x0d') || c = '\u0085' || c = '\u00a0' || c = '\u1680' ||
    ('\u2000' ≤ c && c ≤ '\u200a') || c = '\u2028' || c = '\u2029' || c = '\u202f' ||
    c = '\u205f' || c = '\u3000'

/-- Drop the characters in `p` from both ends. -/
def trimBy (p : Char → Bool) (s : String) : String :=
  String.ofList (((s.toList.dropWhile p).reverse.dropWhile p).reverse)

/-- `strings.TrimSpace`. -/
def trimSpace : String → String := trimBy isSpace

/-- SQL `BTRIM`, which drops blanks only. -/
def btrim : String → String := trimBy (· = ' ')

@[simp] theorem btrim_empty : btrim "" = "" := by decide

theorem trimBy_eq_empty {p : Char → Bool} {s : String} : trimBy p s = "" ↔ ∀ c ∈ s.toList, p c = true := by
  have hempty : trimBy p s = "" ↔ (s.toList.dropWhile p).reverse.dropWhile p = [] := by
    unfold trimBy
    rw [← String.toList_inj, String.toList_ofList, String.toList_empty, List.reverse_eq_nil_iff]
  rw [hempty, List.dropWhile_eq_nil_iff]
  constructor
  · intro h c hc
    rw [← List.takeWhile_append_dropWhile (p := p) (l := s.toList)] at hc
    rcases List.mem_append.mp hc with hc | hc
    · exact List.mem_takeWhile_imp hc
    · exact h c (List.mem_reverse.mpr hc)
  · intro h c hc
    exact h c ((List.dropWhile_sublist p).mem (List.mem_reverse.mp hc))

/-- What `strings.TrimSpace` leaves is not blank for `BTRIM`. -/
theorem btrim_ne_empty {s : String} (h : trimSpace s ≠ "") : btrim s ≠ "" := by
  intro hb
  refine h (trimBy_eq_empty.mpr fun c hc => ?_)
  have hblank : c = ' ' := of_decide_eq_true (trimBy_eq_empty.mp hb c hc)
  rw [hblank]
  decide

/-- Trimming keeps what it does not trim. -/
theorem mem_trimBy {p : Char → Bool} {s : String} {c : Char} (hc : c ∈ s.toList) (hp : p c = false) :
    c ∈ (trimBy p s).toList := by
  have hdrop : ∀ l : List Char, c ∈ l → c ∈ l.dropWhile p := by
    intro l hl
    rw [← List.takeWhile_append_dropWhile (p := p) (l := l)] at hl
    rcases List.mem_append.mp hl with hl | hl
    · rw [List.mem_takeWhile_imp hl] at hp
      cases hp
    · exact hl
  unfold trimBy
  rw [String.toList_ofList, List.mem_reverse]
  exact hdrop _ (List.mem_reverse.mpr (hdrop _ hc))

theorem trimBy_trimBy_ne_empty {p : Char → Bool} {s : String} (h : trimBy p s ≠ "") :
    trimBy p (trimBy p s) ≠ "" := by
  intro hempty
  refine h (trimBy_eq_empty.mpr fun c hc => ?_)
  by_contra hp
  exact hp (trimBy_eq_empty.mp hempty c (mem_trimBy hc (Bool.eq_false_iff.mpr hp)))

/-- The bytes of a Go string. -/
def bytes (s : String) : List UInt8 := s.toList.flatMap String.utf8EncodeChar

/-- A UUID, ordered as PostgreSQL orders its 16 bytes. -/
abbrev Uuid := Fin (2 ^ 128)

instance Uuid.neZero : NeZero ((2 : Nat) ^ 128) := ⟨by decide⟩

instance Uuid.lawfulBEq : LawfulBEq Uuid := inferInstance

/-- `deref` of `storage/postgres/store.go`: NULL reads as the empty string. -/
def deref (s : Option String) : String := s.getD ""

/-- `nullString` of `outbox/writer.go`: the empty string is stored as NULL. -/
def nullString (s : String) : Option String := if s = "" then none else some s

end Emitlane
