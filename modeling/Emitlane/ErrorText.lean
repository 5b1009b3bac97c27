import Emitlane.Text

/-!
# ErrorText — what sanitizeError writes

A byte string is read rune by rune (`bytesInduction`): it is empty, starts with a rune, or starts with a byte that
begins no rune.  `Utf8` are the concatenations of runes, and `Normal s t` says that `t` is `s` with every maximal run of
bytes outside of runes replaced by one U+FFFD.

`trimEnd` finds the longest valid prefix below the limit.  A rune has at most four bytes, so it is found after at most
three steps, and at most three bytes are lost.
-/

namespace Emitlane

/-! ## Runes -/

/-- `r` is one rune, whatever follows it. -/
structure Rune (r : Bytes) : Prop where
  pos : 0 < r.length
  le : r.length ≤ 4
  runeLen : ∀ t, runeLen (r ++ t) = some r.length

variable {r s t : Bytes} {b : UInt8}

/-- The length of a rune is decided by its own bytes. -/
theorem rune_of_runeLen {n : Nat} (h : runeLen s = some n) : ∃ r t, s = r ++ t ∧ Rune r := by
  revert h
  fun_cases runeLen s with
  | case2 b s hb =>
    intro _
    exact ⟨[b], s, rfl, by simp, by simp, fun t => by simp [runeLen, hb]⟩
  | case3 b hb hlead c s hc =>
    intro _
    refine ⟨[b, c], s, rfl, by simp, by simp, fun t => ?_⟩
    show runeLen (b :: c :: t) = some 2
    rw [runeLen, if_neg hb, if_pos hlead]
    exact if_pos hc
  | case6 b hb htwo hlead c d s hc =>
    intro _
    refine ⟨[b, c, d], s, rfl, by simp, by simp, fun t => ?_⟩
    show runeLen (b :: c :: d :: t) = some 3
    rw [runeLen, if_neg hb, if_neg htwo, if_pos hlead]
    exact if_pos hc
  | case9 b hb htwo hthree hlead c d e s hc =>
    intro _
    refine ⟨[b, c, d, e], s, rfl, by simp, by simp, fun t => ?_⟩
    show runeLen (b :: c :: d :: e :: t) = some 4
    rw [runeLen, if_neg hb, if_neg htwo, if_neg hthree, if_pos hlead]
    exact if_pos hc
  | _ =>
    intro h
    cases h

theorem rune_replacement : Rune replacement := ⟨by decide, by decide, fun _ => rfl⟩

/-- Reading a byte string rune by rune. -/
theorem bytesInduction {P : Bytes → Prop} (nil : P []) (rune : ∀ r t, Rune r → P t → P (r ++ t))
    (junk : ∀ b s, runeLen (b :: s) = none → P s → P (b :: s)) (s : Bytes) : P s := by
  induction hn : s.length using Nat.strong_induction_on generalizing s with
  | _ n ih =>
    cases s with
    | nil => exact nil
    | cons b s =>
      cases hlen : runeLen (b :: s) with
      | none => exact junk b s hlen (ih _ (by simp at hn; omega) s rfl)
      | some k =>
        obtain ⟨r, t, heq, hr⟩ := rune_of_runeLen hlen
        rw [heq] at hn ⊢
        refine rune r t hr (ih _ ?_ t rfl)
        have hpos := hr.pos
        simp at hn
        omega

/-! ## Valid texts -/

/-- The concatenations of runes. -/
inductive Utf8 : Bytes → Prop
  | nil : Utf8 []
  | rune {r t : Bytes} (hr : Rune r) (ht : Utf8 t) : Utf8 (r ++ t)

theorem validString_skip (r t : Bytes) : validString r.length (r ++ t) = validString 0 t := by
  induction r with
  | nil => rfl
  | cons b r ih => exact ih

theorem Rune.validString_eq (hr : Rune r) (t : Bytes) : validString 0 (r ++ t) = validString 0 t := by
  cases r with
  | nil => exact absurd hr.pos (by simp)
  | cons b r =>
    have hlen := hr.runeLen t
    rw [List.cons_append] at hlen ⊢
    rw [validString, hlen]
    exact validString_skip r t

theorem validString_iff : validString 0 s = true ↔ Utf8 s := by
  constructor
  · induction s using bytesInduction with
    | nil => exact fun _ => .nil
    | rune r t hr ih =>
      intro h
      rw [hr.validString_eq] at h
      exact .rune hr (ih h)
    | junk b s hb ih =>
      intro h
      rw [validString, hb] at h
      cases h
  · intro h
    induction h with
    | nil => rfl
    | rune hr _ ih => rw [hr.validString_eq, ih]

/-! ## The normalised text -/

theorem toValidUTF8_skip (r t : Bytes) (invalid : Bool) :
    r ≠ [] → toValidUTF8 r.length invalid (r ++ t) = r ++ toValidUTF8 0 false t := by
  induction r generalizing invalid with
  | nil => exact fun h => absurd rfl h
  | cons b r ih =>
    intro _
    cases r with
    | nil => rfl
    | cons c r =>
      have hrest := ih false (by simp)
      simp only [List.length_cons, List.cons_append, toValidUTF8] at hrest ⊢
      rw [hrest]

theorem Rune.toValidUTF8_eq (hr : Rune r) (t : Bytes) (invalid : Bool) :
    toValidUTF8 0 invalid (r ++ t) = r ++ toValidUTF8 0 false t := by
  cases r with
  | nil => exact absurd hr.pos (by simp)
  | cons b r =>
    have hlen := hr.runeLen t
    rw [List.cons_append] at hlen ⊢
    rw [toValidUTF8, hlen]
    simp only [List.length_cons, Nat.add_sub_cancel, List.cons_append, List.cons.injEq, true_and]
    cases r with
    | nil => rfl
    | cons c r => exact toValidUTF8_skip (c :: r) t false (by simp)

theorem toValidUTF8_junk (hb : runeLen (b :: s) = none) (invalid : Bool) :
    toValidUTF8 0 invalid (b :: s) = (if invalid then [] else replacement) ++ toValidUTF8 0 true s := by
  rw [toValidUTF8, hb]

/-- `t` is `s` with each maximal run of bytes that begin no rune replaced by one U+FFFD. -/
inductive Normal : Bytes → Bytes → Prop
  | nil : Normal [] []
  | rune {r s t : Bytes} (hr : Rune r) (h : Normal s t) : Normal (r ++ s) (r ++ t)
  | junk {run s t : Bytes} (hne : run ≠ []) (hrun : ∀ i < run.length, runeLen (run.drop i ++ s) = none)
      (hmax : s ≠ [] → runeLen s ≠ none) (h : Normal s t) : Normal (run ++ s) (replacement ++ t)

/-- The flag of the loop says that a run has begun. -/
theorem normal_toValidUTF8 (s : Bytes) : Normal s (toValidUTF8 0 false s) ∧
    ∀ run, run ≠ [] → (∀ i < run.length, runeLen (run.drop i ++ s) = none) →
      Normal (run ++ s) (replacement ++ toValidUTF8 0 true s) := by
  induction s using bytesInduction with
  | nil => exact ⟨.nil, fun run hne hrun => .junk hne hrun (fun h => absurd rfl h) .nil⟩
  | rune r t hr ih =>
    rw [hr.toValidUTF8_eq, hr.toValidUTF8_eq]
    refine ⟨.rune hr ih.1, fun run hne hrun => .junk hne hrun (fun _ => ?_) (.rune hr ih.1)⟩
    rw [hr.runeLen]
    simp
  | junk b s hb ih =>
    rw [toValidUTF8_junk hb, toValidUTF8_junk hb]
    constructor
    · refine ih.2 [b] (by simp) fun i hi => ?_
      obtain rfl : i = 0 := by simpa using hi
      exact hb
    · intro run _ hrun
      have hlonger := ih.2 (run ++ [b]) (by simp) fun i hi => by
        rw [List.length_append, List.length_singleton] at hi
        rcases Nat.lt_or_eq_of_le (Nat.le_of_lt_succ hi) with hlt | rfl
        · rw [List.drop_append_of_le_length hlt.le, List.append_assoc]
          exact hrun i hlt
        · rw [List.drop_left]
          exact hb
      rw [List.append_assoc] at hlonger
      exact hlonger

theorem utf8_toValidUTF8 (s : Bytes) (invalid : Bool) : Utf8 (toValidUTF8 0 invalid s) := by
  induction s using bytesInduction generalizing invalid with
  | nil => exact .nil
  | rune r t hr ih =>
    rw [hr.toValidUTF8_eq]
    exact .rune hr (ih false)
  | junk b s hb ih =>
    rw [toValidUTF8_junk hb]
    cases invalid with
    | true => exact ih true
    | false => exact .rune rune_replacement (ih true)

/-- A valid text is left as it is. -/
theorem Utf8.toValidUTF8_eq (h : Utf8 s) (invalid : Bool) : toValidUTF8 0 invalid s = s := by
  induction h generalizing invalid with
  | nil => rfl
  | rune hr _ ih => rw [hr.toValidUTF8_eq, ih false]

theorem not_mem_toValidUTF8 (h : (0 : UInt8) ∉ s) (invalid : Bool) : (0 : UInt8) ∉ toValidUTF8 0 invalid s := by
  induction s using bytesInduction generalizing invalid with
  | nil => simp [toValidUTF8]
  | rune r t hr ih =>
    rw [List.mem_append, not_or] at h
    rw [hr.toValidUTF8_eq, List.mem_append, not_or]
    exact ⟨h.1, ih h.2 false⟩
  | junk b s hb ih =>
    rw [List.mem_cons, not_or] at h
    rw [toValidUTF8_junk hb, List.mem_append, not_or]
    refine ⟨?_, ih h.2 true⟩
    cases invalid <;> decide

/-- `strings.ReplaceAll` of NUL by U+FFFD. -/
def replaceNul (msg : Bytes) : Bytes := msg.flatMap fun b => if b = 0 then replacement else [b]

theorem not_mem_replaceNul (msg : Bytes) : (0 : UInt8) ∉ replaceNul msg := by
  unfold replaceNul
  rw [List.mem_flatMap]
  rintro ⟨b, -, hb⟩
  split_ifs at hb with h0
  · exact absurd hb (by decide)
  · exact h0 (List.mem_singleton.mp hb).symm

theorem replaceNul_eq {msg : Bytes} (h : (0 : UInt8) ∉ msg) : replaceNul msg = msg := by
  induction msg with
  | nil => rfl
  | cons b msg ih =>
    rw [List.mem_cons, not_or] at h
    show (if b = 0 then replacement else [b]) ++ replaceNul msg = b :: msg
    rw [if_neg (Ne.symm h.1), ih h.2]
    rfl

/-! ## The cut -/

/-- A cut between two runes at most three bytes before any position. -/
theorem Utf8.cut (h : Utf8 s) (e : Nat) : ∃ e', e' ≤ e ∧ e ≤ e' + 3 ∧ Utf8 (s.take e') := by
  induction h generalizing e with
  | nil => exact ⟨e, le_rfl, by omega, by simpa using Utf8.nil⟩
  | @rune r t hr _ ih =>
    by_cases hin : r.length ≤ e
    · obtain ⟨e', hle, hlost, ht⟩ := ih (e - r.length)
      refine ⟨r.length + e', by omega, by omega, ?_⟩
      rw [List.take_length_add_append]
      exact .rune hr ht
    · have hlen := hr.le
      exact ⟨0, by omega, by omega, by simpa using Utf8.nil⟩

/-- The loop stops at the longest valid prefix. -/
theorem trimEnd_spec (msg : Bytes) (e : Nat) :
    trimEnd msg e ≤ e ∧ Utf8 (msg.take (trimEnd msg e)) ∧ ∀ e' ≤ e, Utf8 (msg.take e') →
    e' ≤ trimEnd msg e := by
  induction e with
  | zero => exact ⟨le_rfl, by simpa [trimEnd] using Utf8.nil, fun e' he' _ => he'⟩
  | succ e ih =>
    rw [trimEnd]
    split_ifs with hvalid
    · exact ⟨le_rfl, validString_iff.mp hvalid, fun e' he' _ => he'⟩
    · obtain ⟨hle, hutf8, hmax⟩ := ih
      refine ⟨by omega, hutf8, fun e' he' h => ?_⟩
      rcases Nat.lt_or_eq_of_le he' with hlt | rfl
      · exact hmax e' (by omega) h
      · exact absurd (validString_iff.mpr h) hvalid

theorem trimEnd_lost (h : Utf8 s) (e : Nat) : e ≤ trimEnd s e + 3 := by
  obtain ⟨e', hle, hlost, hvalid⟩ := h.cut e
  have hmax := (trimEnd_spec s e).2.2 e' hle hvalid
  omega

/-! ## sanitizeError -/

/-- The text before it is cut. -/
def normalized (msg : Bytes) : Bytes := toValidUTF8 0 false (replaceNul msg)

theorem sanitizeError_eq (msg : Bytes) : sanitizeError msg =
    if (normalized msg).length ≤ maxErrorBytes then normalized msg
    else (normalized msg).take (trimEnd (normalized msg) maxErrorBytes) := rfl

/-- A text that is already clean and short is written as it is. -/
theorem sanitizeError_of_clean {msg : Bytes} (hutf8 : Utf8 msg) (hnul : (0 : UInt8) ∉ msg)
    (hlen : msg.length ≤ maxErrorBytes) : sanitizeError msg = msg := by
  have hnormal : normalized msg = msg := by
    unfold normalized
    rw [replaceNul_eq hnul, hutf8.toValidUTF8_eq]
  rw [sanitizeError_eq, hnormal, if_pos hlen]

theorem sanitizeError_clean (msg : Bytes) : Utf8 (sanitizeError msg) ∧ (0 : UInt8) ∉ sanitizeError msg ∧
    (sanitizeError msg).length ≤ maxErrorBytes ∧ sanitizeError msg <+: normalized msg := by
  have hutf8 : Utf8 (normalized msg) := utf8_toValidUTF8 _ false
  have hnul : (0 : UInt8) ∉ normalized msg := not_mem_toValidUTF8 (not_mem_replaceNul msg) false
  rw [sanitizeError_eq]
  split_ifs with hfits
  · exact ⟨hutf8, hnul, hfits, List.prefix_rfl⟩
  · obtain ⟨hle, hcut, -⟩ := trimEnd_spec (normalized msg) maxErrorBytes
    refine ⟨hcut, fun hmem => hnul (List.mem_of_mem_take hmem), ?_, List.take_prefix _ _⟩
    rw [List.length_take]
    omega

/-- **Error texts are safe, bounded, and lose as little as possible.** -/
theorem sanitizeError_exact (msg : Bytes) :
    (validString 0 (sanitizeError msg) = true ∧ (0 : UInt8) ∉ sanitizeError msg ∧
      (sanitizeError msg).length ≤ maxErrorBytes) ∧
    (∃ text, Normal (replaceNul msg) text ∧ sanitizeError msg <+: text ∧
      (text.length ≤ maxErrorBytes → sanitizeError msg = text) ∧
      (maxErrorBytes < text.length → maxErrorBytes ≤ (sanitizeError msg).length + 3 ∧
        sanitizeError msg = text.take (trimEnd text maxErrorBytes) ∧
        maxErrorBytes - trimEnd text maxErrorBytes ≤ 3)) ∧
    sanitizeError (sanitizeError msg) = sanitizeError msg := by
  obtain ⟨hutf8, hnul, hlen, hpre⟩ := sanitizeError_clean msg
  refine ⟨⟨validString_iff.mpr hutf8, hnul, hlen⟩, ?_, sanitizeError_of_clean hutf8 hnul hlen⟩
  refine ⟨normalized msg, (normal_toValidUTF8 _).1, hpre, fun hfits => ?_, fun hlong => ?_⟩
  · rw [sanitizeError_eq, if_pos hfits]
  · have heq : sanitizeError msg = (normalized msg).take (trimEnd (normalized msg) maxErrorBytes) := by
      rw [sanitizeError_eq, if_neg (not_le.mpr hlong)]
    have hlost : maxErrorBytes ≤ trimEnd (normalized msg) maxErrorBytes + 3 :=
      trimEnd_lost (utf8_toValidUTF8 (replaceNul msg) false) maxErrorBytes
    have hle := (trimEnd_spec (normalized msg) maxErrorBytes).1
    refine ⟨?_, heq, by omega⟩
    rw [heq, List.length_take]
    omega

end Emitlane
