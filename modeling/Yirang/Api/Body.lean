/-
# `Yirang.Api.Body` — one document, and what follows it

The body of a request, and the list of the devices in the environment, are
read by a decoder for streams: it takes the first value and leaves the rest
where it is.

    decodeJSON           looks at the next byte, and refuses it unless it is
                         a bracket that closes
    parseDeviceQueues    does not look

`whole_document_iff` says of what is accepted when it is a document and
nothing else.
-/
import Yirang.Scanner
import Yirang.Api.Model

namespace Yirang.Api

open Scanner

/-! ## The decoder -/

/-- What is wrong with a value that is not one of the type. -/
inductive UnmarshalError where
  | wrongType (field type : String)
  | other (what : String)
deriving DecidableEq

inductive DecodeError (ε : Type) where
  | read (e : ReadError ε)
  | unmarshal (e : UnmarshalError)

section Decode

variable {ε α : Type}

/-- `decoder.Decode(&value)`: the value, and how many bytes it took. -/
def decode (unmarshal : Bytes → Except UnmarshalError α) (input : Input ε) :
    Except (DecodeError ε) (α × Nat) :=
  match readValue input with
  | .error e => .error (.read e)
  | .ok n =>
      match unmarshal (input.bytes.take n) with
      | .error e => .error (.unmarshal e)
      | .ok value => .ok (value, n)

/-- What the decoder leaves of what it is given. -/
def leftover (input : Input ε) : Bytes :=
  match readValue input with
  | .ok n => input.bytes.drop n
  | .error _ => []

theorem decode_ok {unmarshal : Bytes → Except UnmarshalError α} {input : Input ε} {value : α}
    {n : Nat} (h : decode unmarshal input = .ok (value, n)) :
    readValue input = .ok n ∧ leftover input = input.bytes.drop n := by
  unfold decode at h
  split at h
  · cases h
  · rename_i m hread
    split at h
    · cases h
    · cases h
      refine ⟨hread, ?_⟩
      rw [leftover, hread]

end Decode

/-! ## Requests -/

structure HttpRequest where
  /-- The header, as it came; empty if there is none. -/
  contentType : String
  body : Bytes
  /-- The connection failed after these bytes. -/
  broken : Option String := none

inductive BodyError where
  | tooLarge
  | other (what : String)

/-- `http.MaxBytesReader(w, r.Body, maxRequestBytes)` -/
def limited (r : HttpRequest) : Input BodyError :=
  if r.body.length ≤ maxRequestBytes then { bytes := r.body, fault := r.broken.map .other }
  else { bytes := r.body.take maxRequestBytes, fault := some .tooLarge }

def decodeError : DecodeError BodyError → ApiError
  | .read (.failed .tooLarge) => .tooLarge maxRequestBytes
  | .read .eof => .badRequest "request body is empty"
  | .read (.malformed offset) =>
      .badRequest s!"request body is not valid JSON (at byte {offset})"
  | .unmarshal (.wrongType field type) =>
      .badRequest s!"field {repr field} must be of type {type}"
  | .read (.failed (.other what)) => .badRequest s!"cannot decode request body: {what}"
  | .read .unexpectedEof => .badRequest "cannot decode request body: unexpected EOF"
  | .unmarshal (.other what) => .badRequest s!"cannot decode request body: {what}"

section DecodeJSON

variable {α : Type} (parseMediaType : String → Option String)
  (unmarshal : Bytes → Except UnmarshalError α)

def requireJSONContentType (r : HttpRequest) : Except ApiError Unit :=
  if parseMediaType r.contentType = some "application/json" then .ok ()
  else .error (.unsupportedMedia r.contentType)

def decodeJSON (r : HttpRequest) : Except ApiError α := do
  requireJSONContentType parseMediaType r
  match decode unmarshal (limited r) with
  | .error e => .error (decodeError e)
  | .ok (value, n) =>
      if more (limited r) n then
        .error (.badRequest "request body must contain exactly one JSON object")
      else .ok value

variable {parseMediaType unmarshal} {r : HttpRequest} {value : α}

theorem decodeJSON_ok (h : decodeJSON parseMediaType unmarshal r = .ok value) :
    ∃ n, decode unmarshal (limited r) = .ok (value, n) ∧ more (limited r) n = false := by
  unfold decodeJSON requireJSONContentType at h
  split at h
  · cases hd : decode unmarshal (limited r) with
    | error e =>
        rw [hd] at h
        cases h
    | ok p =>
        obtain ⟨v, n⟩ := p
        rw [hd] at h
        cases hm : more (limited r) n with
        | true =>
            simp only [hm] at h
            cases h
        | false =>
            simp only [hm] at h
            cases h
            exact ⟨n, rfl, hm⟩
  · cases h

end DecodeJSON

/-! ## The devices -/

/-- What becomes of an error on the way. -/
structure Wrapped (ε : Type) where
  context : String
  cause : DecodeError ε

/-- `strings.NewReader(raw)` -/
def ofText (raw : Bytes) : Input Empty := { bytes := raw }

/-- No text is the variable that is not set. -/
def parseDeviceQueues (unmarshal : Bytes → Except UnmarshalError (List DeviceQueue))
    (raw : Bytes) : Except (Wrapped Empty) (List DeviceQueue) :=
  if raw = [] then .ok []
  else
    match decode unmarshal (ofText raw) with
    | .error cause =>
        .error ⟨"DEVICE_QUEUES must be a JSON array of \x7bname,url,group\x7d", cause⟩
    | .ok (queues, _) => .ok queues

theorem parseDeviceQueues_ok {unmarshal : Bytes → Except UnmarshalError (List DeviceQueue)}
    {raw : Bytes} {queues : List DeviceQueue} (h : parseDeviceQueues unmarshal raw = .ok queues) :
    raw = [] ∨ ∃ n, decode unmarshal (ofText raw) = .ok (queues, n) := by
  unfold parseDeviceQueues at h
  split at h
  · rename_i hraw
    exact Or.inl hraw
  · split at h
    · cases h
    · rename_i n hd
      cases h
      exact Or.inr ⟨n, hd⟩

/-! ## What is left out -/

/-- The first byte of a text that is not white space. -/
def opening (text : Bytes) : Option UInt8 := text.find? (!isSpace ·)

/-- What follows the first value of a body does not begin like the end of
another, and beyond what is read there is nothing. -/
structure Unfollowed (r : HttpRequest) : Prop where
  closing : ∀ c, opening (leftover (limited r)) = some c → c ≠ byte ']' ∧ c ≠ byte '}'
  beyond : Scan.blank (r.body.drop maxRequestBytes) = true

/-- A text that is a list, and after its first value only white space. -/
structure ListOnly (raw : Bytes) : Prop where
  list : opening raw = some (byte '[')
  only : Scan.blank (leftover (ofText raw)) = true

theorem limited_whole (r : HttpRequest) :
    (limited r).bytes ++ r.body.drop maxRequestBytes = r.body := by
  unfold limited
  split
  · rename_i hlen
    rw [List.drop_eq_nil_of_le hlen, List.append_nil]
  · exact List.take_append_drop maxRequestBytes r.body

theorem nothing_beyond {r : HttpRequest} (h : (limited r).fault = none) :
    r.body.drop maxRequestBytes = [] := by
  unfold limited at h
  split at h
  · rename_i hlen
    exact List.drop_eq_nil_of_le hlen
  · cases h

/-- Where nothing more is seen, there is nothing exactly if it is not a
closing bracket that is seen. -/
theorem blank_iff_of_more {ε : Type} {input : Input ε} {n : Nat} (h : more input n = false) :
    Scan.blank (input.bytes.drop n) = true ↔
      ∀ c, opening (input.bytes.drop n) = some c → c ≠ byte ']' ∧ c ≠ byte '}' := by
  constructor
  · intro hblank c hc
    have hnone : opening (input.bytes.drop n) = none := peek_none_of_blank hblank
    rw [hnone] at hc
    cases hc
  · intro hclosing
    apply blank_of_peek_none
    cases hp : peek input n with
    | none => rfl
    | some c =>
        obtain ⟨harray, hobject⟩ := hclosing c hp
        rw [more, hp] at h
        simp [harray, hobject] at h

theorem body_whole_iff {α : Type} {parseMediaType : String → Option String}
    {unmarshal : Bytes → Except UnmarshalError α} {r : HttpRequest} {value : α}
    (h : decodeJSON parseMediaType unmarshal r = .ok value) :
    valid r.body = true ↔ Unfollowed r := by
  obtain ⟨n, hd, hmore⟩ := decodeJSON_ok h
  obtain ⟨hread, hleft⟩ := decode_ok hd
  obtain ⟨hlen, hvalid⟩ := valid_iff_of_readValue nothing_beyond hread
  rw [limited_whole] at hvalid
  have hsplit : r.body.drop n = (limited r).bytes.drop n ++ r.body.drop maxRequestBytes := by
    rw [← List.drop_append_of_le_length hlen, limited_whole]
  rw [hvalid, hsplit, Scan.blank, List.all_append, Bool.and_eq_true]
  constructor
  · rintro ⟨hnext, hbeyond⟩
    refine ⟨?_, hbeyond⟩
    rw [hleft]
    exact (blank_iff_of_more hmore).mp hnext
  · intro hu
    refine ⟨(blank_iff_of_more hmore).mpr ?_, hu.beyond⟩
    rw [← hleft]
    exact hu.closing

theorem list_whole_iff {unmarshal : Bytes → Except UnmarshalError (List DeviceQueue)}
    {raw : Bytes} {queues : List DeviceQueue} (h : parseDeviceQueues unmarshal raw = .ok queues) :
    valid raw = true ∧ opening raw = some (byte '[') ↔ ListOnly raw := by
  rcases parseDeviceQueues_ok h with rfl | ⟨n, hd⟩
  · -- the variable is not set: there is no list
    constructor
    · rintro ⟨-, hlist⟩
      cases hlist
    · intro hl
      cases hl.list
  · obtain ⟨hread, hleft⟩ := decode_ok hd
    obtain ⟨-, hvalid⟩ := valid_iff_of_readValue (fun _ => rfl) hread
    rw [List.append_nil] at hvalid
    have honly : valid raw = true ↔ Scan.blank (leftover (ofText raw)) = true := by
      rw [hleft]
      exact hvalid
    constructor
    · rintro ⟨hv, hlist⟩
      exact ⟨hlist, honly.mp hv⟩
    · rintro ⟨hlist, hl⟩
      exact ⟨honly.mpr hl, hlist⟩

/-- What is accepted is one document and nothing else: of a request, if what
follows the first value does not begin with a closing bracket and does not
reach beyond the limit; of the list of the devices, if it is a list that
nothing follows. -/
theorem whole_document_iff {α : Type} (parseMediaType : String → Option String)
    (unmarshal : Bytes → Except UnmarshalError α)
    (unmarshalQueues : Bytes → Except UnmarshalError (List DeviceQueue)) :
    (∀ r value, decodeJSON parseMediaType unmarshal r = .ok value →
      (valid r.body = true ↔ Unfollowed r)) ∧
    (∀ raw queues, parseDeviceQueues unmarshalQueues raw = .ok queues →
      (valid raw = true ∧ opening raw = some (byte '[') ↔ ListOnly raw)) :=
  ⟨fun _ _ h => body_whole_iff h, fun _ _ h => list_whole_iff h⟩

/-! ## At an example -/

section Example

def plainType (header : String) : Option String := some header

/-- Two texts that fit. -/
def unmarshalEmpty (value : Bytes) : Except UnmarshalError DeployRequest :=
  if value = ascii "{}" then .ok ⟨"", "", []⟩ else .error (.other "unknown field")

def unmarshalNone (value : Bytes) : Except UnmarshalError (List DeviceQueue) :=
  if value = ascii "[]" then .ok [] else .error (.wrongType "" "[]config.DeviceQueue")

def posted (body : Bytes) : HttpRequest := { contentType := "application/json", body }

theorem whole_document_iff_empty :
    (valid (ascii "\x7b\x7d ") = true ↔ Unfollowed (posted (ascii "\x7b\x7d "))) ∧
      (valid (ascii "[]") = true ∧ opening (ascii "[]") = some (byte '[') ↔
        ListOnly (ascii "[]")) := by
  have hboth := whole_document_iff plainType unmarshalEmpty unmarshalNone
  refine ⟨hboth.1 (posted (ascii "\x7b\x7d ")) ⟨"", "", []⟩ ?_, hboth.2 (ascii "[]") [] ?_⟩
  · rfl
  · rfl

/-- A second document behind a closing bracket, and a second list. -/
theorem second_is_dropped :
    (decodeJSON plainType unmarshalEmpty (posted (ascii "\x7b\x7d]\x7b\x7d")) =
        .ok ⟨"", "", []⟩ ∧ valid (ascii "\x7b\x7d]\x7b\x7d") = false) ∧
      parseDeviceQueues unmarshalNone (ascii "[][]") = .ok [] ∧ valid (ascii "[][]") = false := by
  refine ⟨⟨?_, ?_⟩, ?_, ?_⟩
  · rfl
  · decide
  · rfl
  · decide

end Example

end Yirang.Api
