import Emitlane.Relay.Message
import Emitlane.Consumer.Worker

/-!
# Consumer.Message — the identity of a record (`consumer/message.go`)

`ResolveEventID` is the resolver a managed consumer uses by default.  It reads the headers of the record, which are
those the relay's message carried, in any order: the publisher ranges over a map.
-/

namespace Emitlane.Consumer

def eventIDHeader : String := "emitlane-event-id"

/-- `strings.EqualFold(s, t)` for a `t` whose letters no character but their own two cases folds to (all ASCII letters
but k and s). -/
def equalFold (s t : String) : Bool := s.toList.map Char.toLower = t.toList.map Char.toLower

/-- The loop of ResolveEventID; `resolved` is `none` until a header is found. -/
def resolveHeaders : List Header → Option Uuid → Except String (Option Uuid)
  | [], resolved => .ok resolved
  | header :: rest, resolved =>
    if equalFold (trimSpace header.key) eventIDHeader then
      match uuidParseBytes (trimSpaceBytes header.value) with
      | .error err => .error s!"consumer: invalid {eventIDHeader} header: {err}"
      | .ok parsed =>
        if resolved.any (parsed ≠ ·) then .error s!"consumer: conflicting {eventIDHeader} headers"
        else resolveHeaders rest (some parsed)
    else resolveHeaders rest resolved

def resolveEventID (message : Message) : Except String Uuid :=
  match resolveHeaders message.headers none with
  | .error err => .error err
  | .ok none => .error s!"consumer: missing {eventIDHeader} header"
  | .ok (some id) => .ok id

/-- The record headers of a message, in one order of the map. -/
def recordHeaders (m : Emitlane.Message) : List Header := m.headers.map fun h => ⟨h.1, bytes h.2⟩

/-! ## What the loop finds -/

/-- If every matching header has the value `id`, the loop ends with `id`, unless there is no match. -/
theorem resolveHeaders_eq {id : Uuid} {headers : List Header} {resolved : Option Uuid}
    (hval : ∀ h ∈ headers, equalFold (trimSpace h.key) eventIDHeader = true →
      uuidParseBytes (trimSpaceBytes h.value) = .ok id)
    (hresolved : resolved = none ∨ resolved = some id) :
    resolveHeaders headers resolved =
      .ok (if headers.any (fun h => equalFold (trimSpace h.key) eventIDHeader) then some id else resolved) := by
  induction headers generalizing resolved with
  | nil => rfl
  | cons h headers ih =>
    have hvals := fun x hx => hval x (List.mem_cons_of_mem h hx)
    unfold resolveHeaders
    by_cases hmatch : equalFold (trimSpace h.key) eventIDHeader = true
    · have hany : resolved.any (id ≠ ·) = false := by
        rcases hresolved with rfl | rfl <;> simp
      rw [if_pos hmatch, hval h List.mem_cons_self hmatch]
      simp only [hany, Bool.false_eq_true, if_false, List.any_cons, hmatch, Bool.true_or, if_true]
      rw [ih hvals (.inr rfl), ite_self]
    · rw [if_neg hmatch, ih hvals hresolved, List.any_cons, Bool.eq_false_iff.mpr hmatch, Bool.false_or]

/-- A name the consumer takes for the event id is one the relay reserves: neither of the two characters beyond ASCII
that are lower-cased to an ASCII letter folds to a letter of the name. -/
theorem toLower_of_equalFold {s : String} (h : equalFold s eventIDHeader = true) : toLower s = headerEventID := by
  have hchars : s.toList.map Char.toLower = eventIDHeader.toList := by
    rw [of_decide_eq_true h]
    decide
  have hsame : ∀ c ∈ s.toList, toLowerChar c = c.toLower := by
    intro c hc
    have hmem : c.toLower ∈ eventIDHeader.toList := by
      rw [← hchars]
      exact List.mem_map_of_mem hc
    unfold toLowerChar
    by_cases hdot : c = '\u0130'
    · subst hdot
      exact absurd hmem (by decide)
    by_cases hkelvin : c = '\u212a'
    · subst hkelvin
      exact absurd hmem (by decide)
    rw [if_neg hdot, if_neg hkelvin]
  rw [toLower_eq, List.map_congr_left hsame, hchars]
  rfl

theorem equalFold_header : equalFold (trimSpace headerEventID) eventIDHeader = true := by decide

theorem uuidParseBytes_trim (u : Uuid) : uuidParseBytes (trimSpaceBytes (bytes u.text)) = .ok u := by
  rw [trimSpaceBytes_text]
  exact uuidParse_text u

/-- The only header of a message that the consumer takes for the event id is the durable one. -/
theorem value_of_equalFold {ev : RelayEvent} {name value : String} (h : (name, value) ∈ (toMessage ev).headers)
    (hname : equalFold (trimSpace name) eventIDHeader = true) : value = ev.id.text := by
  have hlower := toLower_of_equalFold hname
  have hres : toLower (trimSpace name) ∈ reservedHeaders := by
    rw [hlower]
    decide
  rw [mem_toMessage_headers, if_pos hres] at h
  have hkey : name = headerEventID := by
    have hmem : name ∈ reservedHeaders := by
      rw [← durableHeaders_names ev]
      exact List.mem_map_of_mem (f := (·.1)) h
    rw [← normalize_reserved name hmem, hlower]
  subst hkey
  have hother : ∀ k ∈ reservedHeaders.tail, headerEventID ≠ k := by decide
  rcases List.mem_cons.mp h with h | h
  · exact Option.some.inj (Prod.mk.inj h).2
  · exact absurd rfl (hother _ (List.mem_map_of_mem (f := (·.1)) h))

theorem resolveEventID_toMessage {ev : RelayEvent} {message : Message}
    (h : message.headers.Perm (recordHeaders (toMessage ev))) : resolveEventID message = .ok ev.id := by
  have hval : ∀ x ∈ message.headers, equalFold (trimSpace x.key) eventIDHeader = true →
      uuidParseBytes (trimSpaceBytes x.value) = .ok ev.id := by
    intro x hx hname
    obtain ⟨⟨name, value⟩, hmem, rfl⟩ := List.mem_map.mp (h.mem_iff.mp hx)
    have hvalue : value = ev.id.text := value_of_equalFold hmem hname
    dsimp only
    rw [hvalue, uuidParseBytes_trim]
  have hid : (headerEventID, ev.id.text) ∈ (toMessage ev).headers := by
    rw [mem_toMessage_headers, if_pos (by rw [normalize_reserved _ (by decide)]; decide)]
    exact List.mem_cons_self
  have hany : message.headers.any (fun x => equalFold (trimSpace x.key) eventIDHeader) = true :=
    List.any_eq_true.mpr ⟨_, h.mem_iff.mpr (List.mem_map_of_mem hid), equalFold_header⟩
  unfold resolveEventID
  rw [resolveHeaders_eq hval (.inl rfl), hany]
  rfl

/-- Whatever headers the application stored, and in whatever order the headers of the message are emitted: the
consumer resolves the id of the event, the reserved names carry the durable metadata and nothing else, and all other
headers pass unchanged.  For an event read from the table the durable metadata are the columns of its row. -/
theorem metadata_survives_user_headers (ev : RelayEvent) :
    (∀ message : Message, message.headers.Perm (recordHeaders (toMessage ev)) →
      resolveEventID message = .ok ev.id) ∧
    (∀ name value, toLower (trimSpace name) ∈ reservedHeaders →
      ((name, value) ∈ (toMessage ev).headers ↔ (name, some value) ∈ durableHeaders ev)) ∧
    (∀ name value, toLower (trimSpace name) ∉ reservedHeaders →
      ((name, value) ∈ (toMessage ev).headers ↔ (name, value) ∈ ev.headers)) ∧
    (durableHeaders ev).map (·.1) = reservedHeaders ∧
    ∀ r epoch, r.check = true → ev = scanEvent r epoch → durableHeaders ev = r.durableColumns := by
  refine ⟨fun message h => resolveEventID_toMessage h, fun name value hres => ?_, fun name value hres => ?_,
    durableHeaders_names ev, ?_⟩
  · rw [mem_toMessage_headers, if_pos hres]
  · rw [mem_toMessage_headers, if_neg hres]
  · rintro r epoch hcheck rfl
    exact durableHeaders_scanEvent hcheck epoch

end Emitlane.Consumer
