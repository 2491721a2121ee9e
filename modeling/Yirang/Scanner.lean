/-
# `Yirang.Scanner` — JSON, byte by byte

The scanner of `encoding/json`: a state, and what is open around it.  Each
byte makes a step, and the step says what it has come to.  A text is read in
two ways.

    valid        the whole text is a value, and white space around it
    readValue    the first value of a stream, and nothing of what follows
    more         whether another value seems to follow, from one byte

`valid_iff_of_readValue` says what the two have to do with each other: a text
is valid exactly if nothing but white space comes after its first value.
-/
import Yirang.Bytes

namespace Yirang.Scanner

/-! ## Steps -/

/-- What is open: an object before or after the colon, or an array. -/
inductive ParseState where
  | parseObjectKey
  | parseObjectValue
  | parseArrayValue

/-- What a byte has come to. -/
inductive Code where
  | scanContinue
  | scanBeginLiteral
  | scanBeginObject
  | scanObjectKey
  | scanObjectValue
  | scanEndObject
  | scanBeginArray
  | scanArrayValue
  | scanEndArray
  | scanSkipSpace
  | scanEnd
  | scanError
deriving DecidableEq

/-- What is expected next. -/
inductive Step where
  | stateBeginValueOrEmpty
  | stateBeginValue
  | stateBeginStringOrEmpty
  | stateBeginString
  | stateEndValue
  | stateEndTop
  | stateInString
  | stateInStringEsc
  /-- Of the four digits of an escape, this many after the next. -/
  | stateInStringEscU (left : Nat)
  | stateNeg
  | state1
  | state0
  | stateDot
  | stateDot0
  | stateE
  | stateESign
  | stateE0
  /-- In `true`, `false` or `null`, before these bytes. -/
  | stateLiteral (rest : Bytes)
  | stateError

structure Scan where
  step : Step := .stateBeginValue
  /-- The innermost first. -/
  parseState : List ParseState := []

def maxNestingDepth : Nat := 10000

def isSpace (c : UInt8) : Bool := c = byte ' ' || c = byte '\t' || c = byte '\r' || c = byte '\n'

def isDigit (c : UInt8) : Bool := byte '0' ≤ c && c ≤ byte '9'

def isHex (c : UInt8) : Bool :=
  isDigit c || (byte 'a' ≤ c && c ≤ byte 'f') || (byte 'A' ≤ c && c ≤ byte 'F')

namespace Scan

def error (s : Scan) : Scan × Code := ({ s with step := .stateError }, .scanError)

/-- Stay at this level. -/
def goOn (s : Scan) (step : Step) (code : Code) : Scan × Code := ({ s with step }, code)

def pushParseState (s : Scan) (step : Step) (newState : ParseState) (code : Code) : Scan × Code :=
  if s.parseState.length + 1 ≤ maxNestingDepth then
    ({ step, parseState := newState :: s.parseState }, code)
  else error { step, parseState := newState :: s.parseState }

def popParseState (s : Scan) (code : Code) : Scan × Code :=
  match s.parseState.tail with
  | [] => ({ step := .stateEndTop, parseState := [] }, code)
  | rest => ({ step := .stateEndValue, parseState := rest }, code)

/-- After the value at the top. -/
def endTop (s : Scan) (c : UInt8) : Scan × Code :=
  if isSpace c then ({ s with step := .stateEndTop }, .scanEnd)
  else ({ s with step := .stateError }, .scanEnd)

/-- After a value. -/
def endValue (s : Scan) (c : UInt8) : Scan × Code :=
  match s.parseState with
  | [] => endTop s c
  | state :: rest =>
      if isSpace c then s.goOn .stateEndValue .scanSkipSpace
      else
        match state with
        | .parseObjectKey =>
            if c = byte ':' then
              ({ step := .stateBeginValue, parseState := .parseObjectValue :: rest }, .scanObjectKey)
            else s.error
        | .parseObjectValue =>
            if c = byte ',' then
              ({ step := .stateBeginString, parseState := .parseObjectKey :: rest },
                .scanObjectValue)
            else if c = byte '}' then s.popParseState .scanEndObject
            else s.error
        | .parseArrayValue =>
            if c = byte ',' then s.goOn .stateBeginValue .scanArrayValue
            else if c = byte ']' then s.popParseState .scanEndArray
            else s.error

def beginValue (s : Scan) (c : UInt8) : Scan × Code :=
  if isSpace c then s.goOn .stateBeginValue .scanSkipSpace
  else if c = byte '{' then
    s.pushParseState .stateBeginStringOrEmpty .parseObjectKey .scanBeginObject
  else if c = byte '[' then
    s.pushParseState .stateBeginValueOrEmpty .parseArrayValue .scanBeginArray
  else if c = byte '"' then s.goOn .stateInString .scanBeginLiteral
  else if c = byte '-' then s.goOn .stateNeg .scanBeginLiteral
  else if c = byte '0' then s.goOn .state0 .scanBeginLiteral
  else if c = byte 't' then s.goOn (.stateLiteral (ascii "rue")) .scanBeginLiteral
  else if c = byte 'f' then s.goOn (.stateLiteral (ascii "alse")) .scanBeginLiteral
  else if c = byte 'n' then s.goOn (.stateLiteral (ascii "ull")) .scanBeginLiteral
  else if isDigit c then s.goOn .state1 .scanBeginLiteral
  else s.error

def beginString (s : Scan) (c : UInt8) : Scan × Code :=
  if isSpace c then s.goOn .stateBeginString .scanSkipSpace
  else if c = byte '"' then s.goOn .stateInString .scanBeginLiteral
  else s.error

def afterZero (s : Scan) (c : UInt8) : Scan × Code :=
  if c = byte '.' then s.goOn .stateDot .scanContinue
  else if c = byte 'e' || c = byte 'E' then s.goOn .stateE .scanContinue
  else s.endValue c

def afterSign (s : Scan) (c : UInt8) : Scan × Code :=
  if isDigit c then s.goOn .stateE0 .scanContinue else s.error

/-- `scan.step(scan, c)` -/
def next (s : Scan) (c : UInt8) : Scan × Code :=
  match s.step with
  | .stateBeginValueOrEmpty =>
      if isSpace c then s.goOn .stateBeginValueOrEmpty .scanSkipSpace
      else if c = byte ']' then s.endValue c
      else s.beginValue c
  | .stateBeginValue => s.beginValue c
  | .stateBeginStringOrEmpty =>
      if isSpace c then s.goOn .stateBeginStringOrEmpty .scanSkipSpace
      else if c = byte '}' then
        endValue { s with parseState := .parseObjectValue :: s.parseState.tail } c
      else s.beginString c
  | .stateBeginString => s.beginString c
  | .stateEndValue => s.endValue c
  | .stateEndTop => s.endTop c
  | .stateInString =>
      if c = byte '"' then s.goOn .stateEndValue .scanContinue
      else if c = byte '\\' then s.goOn .stateInStringEsc .scanContinue
      else if c < 0x20 then s.error
      else s.goOn .stateInString .scanContinue
  | .stateInStringEsc =>
      if (ascii "bfnrt\\/\"").contains c then s.goOn .stateInString .scanContinue
      else if c = byte 'u' then s.goOn (.stateInStringEscU 3) .scanContinue
      else s.error
  | .stateInStringEscU left =>
      if isHex c then
        s.goOn (if left = 0 then .stateInString else .stateInStringEscU (left - 1)) .scanContinue
      else s.error
  | .stateNeg =>
      if c = byte '0' then s.goOn .state0 .scanContinue
      else if isDigit c then s.goOn .state1 .scanContinue
      else s.error
  | .state1 => if isDigit c then s.goOn .state1 .scanContinue else s.afterZero c
  | .state0 => s.afterZero c
  | .stateDot => if isDigit c then s.goOn .stateDot0 .scanContinue else s.error
  | .stateDot0 =>
      if isDigit c then s.goOn .stateDot0 .scanContinue
      else if c = byte 'e' || c = byte 'E' then s.goOn .stateE .scanContinue
      else s.endValue c
  | .stateE =>
      if c = byte '+' || c = byte '-' then s.goOn .stateESign .scanContinue else s.afterSign c
  | .stateESign => s.afterSign c
  | .stateE0 => if isDigit c then s.goOn .stateE0 .scanContinue else s.endValue c
  | .stateLiteral rest =>
      match rest with
      | [] => s.error
      | [last] => if c = last then s.goOn .stateEndValue .scanContinue else s.error
      | b :: more => if c = b then s.goOn (.stateLiteral more) .scanContinue else s.error
  | .stateError => s.error

/-! ## Whole texts -/

/-- `eof` -/
def ends (s : Scan) : Bool :=
  match s.step with
  | .stateError => false
  | .stateEndTop => true
  | _ => (s.next (byte ' ')).2 = .scanEnd

/-- What is left of a text is what has to follow. -/
def accepts : Scan → Bytes → Bool
  | s, [] => s.ends
  | s, c :: rest => (s.next c).1.accepts rest

end Scan

/-- `json.Valid` -/
def valid (text : Bytes) : Bool := Scan.accepts {} text

/-! ## Streams -/

/-- What a reader delivers, and the error that it then has, if it is not the
end. -/
structure Input (ε : Type) where
  bytes : Bytes
  fault : Option ε := none

inductive ReadError (ε : Type) where
  | failed (e : ε)
  /-- A syntax error, and how many bytes were read. -/
  | malformed (offset : Nat)
  | eof
  | unexpectedEof

section Stream

variable {ε : Type} (input : Input ε)

def readFrom (s : Scan) (n : Nat) : Bytes → Except (ReadError ε) Nat
  | [] =>
      match input.fault with
      | some e => .error (.failed e)
      | none =>
          if (s.next (byte ' ')).2 = .scanEnd then .ok n
          else if input.bytes.any (!isSpace ·) then .error .unexpectedEof
          else .error .eof
  | c :: rest =>
      match (s.next c).2 with
      | .scanEnd => .ok n
      | .scanEndObject | .scanEndArray =>
          if (s.next c).1.parseState.isEmpty then .ok (n + 1)
          else readFrom (s.next c).1 (n + 1) rest
      | .scanError => .error (.malformed (n + 1))
      | _ => readFrom (s.next c).1 (n + 1) rest

/-- How many bytes the first value takes, and the white space before it. -/
def readValue : Except (ReadError ε) Nat := readFrom input {} 0 input.bytes

/-- The next byte that is not white space. -/
def peek (n : Nat) : Option UInt8 := (input.bytes.drop n).find? (!isSpace ·)

/-- `decoder.More()`: a byte follows that does not close anything. -/
def more (n : Nat) : Bool :=
  match peek input n with
  | none => false
  | some c => c ≠ byte ']' && c ≠ byte '}'

end Stream

/-! ## Where a value ends -/

namespace Scan

variable {s : Scan} {c : UInt8}

/-- What a step that ends or closes something leaves behind. -/
structure Ends (c : UInt8) (r : Scan × Code) : Prop where
  /-- The byte after the value at the top is white space, or is complained
  about at the next. -/
  top : r.2 = .scanEnd → r.1.step = if isSpace c then .stateEndTop else .stateError
  close : r.2 = .scanEndObject ∨ r.2 = .scanEndArray → r.1.parseState = [] →
    r.1.step = .stateEndTop

/-- The code of a step within a value. -/
def inner : Code → Bool
  | .scanEnd | .scanEndObject | .scanEndArray => false
  | _ => true

variable {a b r : Scan × Code}

theorem Ends.of_inner (h : inner r.2 = true) : Ends c r := by
  constructor
  · intro he
    rw [he] at h
    cases h
  · rintro (he | he) _
    · rw [he] at h
      cases h
    · rw [he] at h
      cases h

theorem Ends.ite {p : Prop} [Decidable p] (ha : Ends c a) (hb : Ends c b) :
    Ends c (if p then a else b) := by
  split
  · exact ha
  · exact hb

theorem ends_error : Ends c s.error := .of_inner rfl

theorem ends_push {step : Step} {state : ParseState} {code : Code} (h : inner code = true) :
    Ends c (s.pushParseState step state code) := .ite (.of_inner h) ends_error

theorem ends_pop {code : Code} (h : code ≠ .scanEnd) : Ends c (s.popParseState code) := by
  unfold popParseState
  split
  · exact ⟨fun he => absurd he h, fun _ _ => rfl⟩
  · rename_i rest hrest
    exact ⟨fun he => absurd he h, fun _ he => absurd he hrest⟩

theorem ends_endTop : Ends c (s.endTop c) := by
  unfold endTop
  split
  · rename_i hc
    exact ⟨fun _ => (if_pos hc).symm, fun h => by rcases h with h | h <;> cases h⟩
  · rename_i hc
    exact ⟨fun _ => (if_neg hc).symm, fun h => by rcases h with h | h <;> cases h⟩

theorem ends_endValue : Ends c (s.endValue c) := by
  unfold endValue
  split
  · exact ends_endTop
  · refine .ite (.of_inner rfl) ?_
    split
    · exact .ite (.of_inner rfl) ends_error
    · exact .ite (.of_inner rfl) (.ite (ends_pop (by decide)) ends_error)
    · exact .ite (.of_inner rfl) (.ite (ends_pop (by decide)) ends_error)

theorem ends_beginValue : Ends c (s.beginValue c) := by
  unfold beginValue
  refine .ite (.of_inner rfl) (.ite (ends_push rfl) (.ite (ends_push rfl) ?_))
  refine .ite (.of_inner rfl) (.ite (.of_inner rfl) (.ite (.of_inner rfl) ?_))
  exact .ite (.of_inner rfl) (.ite (.of_inner rfl) (.ite (.of_inner rfl)
    (.ite (.of_inner rfl) ends_error)))

theorem ends_beginString : Ends c (s.beginString c) :=
  .ite (.of_inner rfl) (.ite (.of_inner rfl) ends_error)

theorem ends_afterZero : Ends c (s.afterZero c) :=
  .ite (.of_inner rfl) (.ite (.of_inner rfl) ends_endValue)

theorem ends_afterSign : Ends c (s.afterSign c) := .ite (.of_inner rfl) ends_error

theorem ends_next : Ends c (s.next c) := by
  unfold next
  split
  · exact .ite (.of_inner rfl) (.ite ends_endValue ends_beginValue)
  · exact ends_beginValue
  · exact .ite (.of_inner rfl) (.ite ends_endValue ends_beginString)
  · exact ends_beginString
  · exact ends_endValue
  · exact ends_endTop
  · exact .ite (.of_inner rfl) (.ite (.of_inner rfl) (.ite ends_error (.of_inner rfl)))
  · exact .ite (.of_inner rfl) (.ite (.of_inner rfl) ends_error)
  · exact .ite (.of_inner rfl) ends_error
  · exact .ite (.of_inner rfl) (.ite (.of_inner rfl) ends_error)
  · exact .ite (.of_inner rfl) ends_afterZero
  · exact ends_afterZero
  · exact .ite (.of_inner rfl) ends_error
  · exact .ite (.of_inner rfl) (.ite (.of_inner rfl) ends_endValue)
  · exact .ite (.of_inner rfl) ends_afterSign
  · exact ends_afterSign
  · exact .ite (.of_inner rfl) ends_endValue
  · split
    · exact ends_error
    · exact .ite (.of_inner rfl) ends_error
    · exact .ite (.of_inner rfl) ends_error
  · exact ends_error

/-! ## What follows -/

/-- Only white space. -/
def blank (text : Bytes) : Bool := text.all isSpace

theorem accepts_error (h : s.step = .stateError) {text : Bytes} : s.accepts text = false := by
  induction text generalizing s with
  | nil => rw [accepts, ends, h]
  | cons c rest ih =>
      have hnext : (s.next c).1.step = .stateError := by
        unfold next
        rw [h]
        rfl
      exact ih hnext

theorem accepts_endTop (h : s.step = .stateEndTop) {text : Bytes} :
    s.accepts text = blank text := by
  induction text generalizing s with
  | nil => rw [accepts, ends, h]; rfl
  | cons c rest ih =>
      have hnext : s.next c = s.endTop c := by
        unfold next
        rw [h]
      rw [accepts, hnext, endTop, blank, List.all_cons]
      split
      · rename_i hc
        rw [hc, Bool.true_and]
        exact ih rfl
      · rename_i hc
        rw [Bool.eq_false_iff.mpr hc, Bool.false_and]
        exact accepts_error rfl

theorem ends_of_end (h : (s.next (byte ' ')).2 = .scanEnd) : s.ends = true := by
  unfold ends
  split
  · rename_i herror
    unfold next at h
    rw [herror] at h
    cases h
  · rfl
  · rw [h]
    rfl

/-- After the value at the top only white space is accepted. -/
theorem accepts_of_end {rest : Bytes} (h : (s.next c).2 = .scanEnd) :
    s.accepts (c :: rest) = blank (c :: rest) := by
  have hstep := ends_next.top h
  rw [accepts, blank, List.all_cons]
  by_cases hc : isSpace c = true
  · rw [if_pos hc] at hstep
    rw [accepts_endTop hstep, hc, Bool.true_and, blank]
  · rw [if_neg hc] at hstep
    rw [accepts_error hstep, Bool.eq_false_iff.mpr hc, Bool.false_and]

end Scan

open Scan

variable {ε : Type} {input : Input ε}

/-- What comes after the first value, `later` included, which the reader does
not deliver. -/
theorem accepts_of_readFrom {later : Bytes} (hlater : input.fault = none → later = []) :
    ∀ {rest : Bytes} {s : Scan} {k n : Nat}, readFrom input s k rest = .ok n →
      k ≤ n ∧ n ≤ k + rest.length ∧
        s.accepts (rest ++ later) = blank ((rest ++ later).drop (n - k))
  | [], s, k, n, h => by
      unfold readFrom at h
      cases hf : input.fault with
      | some e =>
          rw [hf] at h
          cases h
      | none =>
          rw [hf] at h
          dsimp only at h
          split at h
          · rename_i hend
            cases h
            refine ⟨Nat.le_refl k, Nat.le_refl k, ?_⟩
            rw [hlater hf, Nat.sub_self]
            exact ends_of_end hend
          · split at h <;> cases h
  | c :: rest, s, k, n, h => by
      have hgoes : readFrom input (s.next c).1 (k + 1) rest = .ok n →
          k ≤ n ∧ n ≤ k + (c :: rest).length ∧ s.accepts (c :: rest ++ later) =
            blank ((c :: rest ++ later).drop (n - k)) := by
        intro hn
        obtain ⟨hk, hlen, hrest⟩ := accepts_of_readFrom hlater hn
        have hdrop : n - k = n - (k + 1) + 1 := by omega
        refine ⟨by omega, by rw [List.length_cons]; omega, ?_⟩
        rw [hdrop, List.cons_append, List.drop_succ_cons]
        exact hrest
      have hcloses : (s.next c).2 = .scanEndObject ∨ (s.next c).2 = .scanEndArray →
          (s.next c).1.parseState = [] → n = k + 1 →
          k ≤ n ∧ n ≤ k + (c :: rest).length ∧ s.accepts (c :: rest ++ later) =
            blank ((c :: rest ++ later).drop (n - k)) := by
        rintro hcode hopen rfl
        refine ⟨by omega, by rw [List.length_cons]; omega, ?_⟩
        rw [Nat.add_sub_cancel_left, List.cons_append, List.drop_succ_cons, List.drop_zero]
        exact accepts_endTop (ends_next.close hcode hopen)
      unfold readFrom at h
      split at h
      · rename_i hend
        cases h
        rw [Nat.sub_self, List.drop_zero]
        exact ⟨Nat.le_refl k, Nat.le_add_right k _, accepts_of_end hend⟩
      · rename_i hcode
        split at h
        · rename_i hopen
          exact hcloses (Or.inl hcode) (List.isEmpty_iff.mp hopen) (Except.ok.inj h).symm
        · exact hgoes h
      · rename_i hcode
        split at h
        · rename_i hopen
          exact hcloses (Or.inr hcode) (List.isEmpty_iff.mp hopen) (Except.ok.inj h).symm
        · exact hgoes h
      · cases h
      · exact hgoes h

/-- A text of which a reader delivers the beginning, and the rest is `later`,
is valid exactly if nothing but white space comes after its first value. -/
theorem valid_iff_of_readValue {later : Bytes} {n : Nat}
    (hlater : input.fault = none → later = []) (h : readValue input = .ok n) :
    n ≤ input.bytes.length ∧
      (valid (input.bytes ++ later) = true ↔ blank ((input.bytes ++ later).drop n) = true) := by
  obtain ⟨-, hlen, haccepts⟩ := accepts_of_readFrom hlater h
  refine ⟨by omega, ?_⟩
  rw [valid, haccepts, Nat.sub_zero]

/-- If no next byte is found, what is left is white space. -/
theorem blank_of_peek_none {n : Nat} (h : peek input n = none) :
    blank (input.bytes.drop n) = true := by
  rw [blank, List.all_eq_true]
  intro c hc
  simpa using List.find?_eq_none.mp h c hc

theorem peek_none_of_blank {n : Nat} (h : blank (input.bytes.drop n) = true) :
    peek input n = none := by
  rw [peek, List.find?_eq_none]
  intro c hc
  simpa using List.all_eq_true.mp h c hc

end Yirang.Scanner
