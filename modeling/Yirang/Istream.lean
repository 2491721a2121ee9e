/-
# `Yirang.Istream` — reading bytes as `<istream>` and `<string>` do

    rfind      the last place of a byte
    getline    what comes before the first newline
    extract    `stream >> field`: white space is skipped, and the field is
               what comes before the next
    stoull     the number at the front of a text, in 64 bits

A text in which every field has a blank in front of it gives its fields back,
one at a time (`readFields_fields`), and a number written in decimal gives
the number (`stoull_decimal`).
-/
import Yirang.Bytes
import Mathlib.Data.List.TakeWhile

namespace Yirang

/-! ## Finding the last of a kind -/

section Rfind

variable {α : Type} [DecidableEq α]

/-- `text.rfind(a)`; `none` is `npos`. -/
def rfind (text : List α) (a : α) : Option Nat :=
  (text.reverse.idxOf? a).map fun k => text.length - 1 - k

/-- What follows the last `a` does not matter, as long as no `a` is in it. -/
theorem rfind_append_cons {xs ys : List α} {a : α} (h : a ∉ ys) :
    rfind (xs ++ a :: ys) a = some xs.length := by
  have hfirst : (xs ++ a :: ys).reverse.idxOf? a = some ys.length := by
    have hsplit : (xs ++ a :: ys).reverse = ys.reverse ++ a :: xs.reverse := by simp
    rw [hsplit, List.idxOf?, List.findIdx?_eq_some_iff_getElem]
    rw [← List.length_reverse]
    refine ⟨by simp, by simp, ?_⟩
    intro j hj he
    have hat : ys.reverse[j] = a := by
      rw [List.getElem_append_left hj] at he
      exact eq_of_beq he
    exact h (List.mem_reverse.mp (hat ▸ List.getElem_mem hj))
  rw [rfind, hfirst, Option.map_some]
  simp

end Rfind

namespace Istream

def newline : UInt8 := byte '\n'

/-- White space in the C locale. -/
def isspace (c : UInt8) : Bool := c = byte ' ' || (byte '\t' ≤ c && c ≤ byte '\r')

def isdigit (c : UInt8) : Bool := byte '0' ≤ c && c ≤ byte '9'

/-! ## Lines -/

/-- `std::getline` -/
def getline (source : Bytes) : Bytes := source.takeWhile (· ≠ newline)

/-- The first line, whether or not a newline ends it. -/
theorem getline_append {line rest : Bytes} (hline : newline ∉ line)
    (hrest : rest = [] ∨ rest.head? = some newline) : getline (line ++ rest) = line := by
  have hnone : rest.takeWhile (· ≠ newline) = [] := by
    rcases hrest with rfl | hhead
    · rfl
    · obtain ⟨tail, rfl⟩ := List.head?_eq_some_iff.mp hhead
      exact List.takeWhile_cons_of_neg (by simp)
  have hall : ∀ c ∈ line, decide (c ≠ newline) = true := fun c hc =>
    decide_eq_true fun he => hline (he ▸ hc)
  rw [getline, List.takeWhile_append_of_pos hall, hnone, List.append_nil]

/-! ## Fields -/

/-- The next field and what follows it; `none` where the extraction fails. -/
def extract (stream : Bytes) : Option (Bytes × Bytes) :=
  match stream.dropWhile isspace with
  | [] => none
  | c :: rest =>
      some ((c :: rest).takeWhile (!isspace ·), (c :: rest).dropWhile (!isspace ·))

/-- The field after `n` extractions, `field` before the first. -/
def readFields : Nat → Bytes → Bytes → Option Bytes
  | 0, field, _ => some field
  | n + 1, _, stream =>
      match extract stream with
      | none => none
      | some (field, rest) => readFields n field rest

/-- A text without white space. -/
def IsWord (f : Bytes) : Prop := f ≠ [] ∧ ∀ c ∈ f, isspace c = false

/-- Fields with a blank in front of each. -/
def blanked (fields : List Bytes) : Bytes := fields.flatMap (byte ' ' :: ·)

/-- Where the first field ends, the next blank stands, or nothing. -/
theorem extract_blanked {f : Bytes} {fields : List Bytes} (hf : IsWord f) :
    extract (blanked (f :: fields)) = some (f, blanked fields) := by
  obtain ⟨c, rest, rfl⟩ := List.exists_cons_of_ne_nil hf.1
  have hall : ∀ x ∈ c :: rest, (!isspace x) = true := fun x hx => by rw [hf.2 x hx]; rfl
  have hends : (blanked fields).takeWhile (!isspace ·) = [] ∧
      (blanked fields).dropWhile (!isspace ·) = blanked fields := by
    cases fields with
    | nil => exact ⟨rfl, rfl⟩
    | cons g more =>
        exact ⟨List.takeWhile_cons_of_neg (by decide), List.dropWhile_cons_of_neg (by decide)⟩
  have hstart : (blanked ((c :: rest) :: fields)).dropWhile isspace =
      c :: (rest ++ blanked fields) := by
    show (byte ' ' :: c :: (rest ++ blanked fields)).dropWhile isspace = _
    rw [List.dropWhile_cons_of_pos (by decide), List.dropWhile_cons_of_neg]
    rw [hf.2 c List.mem_cons_self]
    exact Bool.false_ne_true
  have htake : (c :: (rest ++ blanked fields)).takeWhile (!isspace ·) = c :: rest := by
    rw [← List.cons_append, List.takeWhile_append_of_pos hall, hends.1, List.append_nil]
  have hdrop : (c :: (rest ++ blanked fields)).dropWhile (!isspace ·) = blanked fields := by
    rw [← List.cons_append, List.dropWhile_append_of_pos hall, hends.2]
  rw [extract, hstart]
  simp only [htake, hdrop]

/-- The `n`-th extraction gives the `n`-th field, and fails where there is
none. -/
theorem readFields_blanked {n : Nat} {field : Bytes} {fields : List Bytes}
    (h : ∀ f ∈ fields, IsWord f) : readFields (n + 1) field (blanked fields) = fields[n]? := by
  induction n generalizing field fields with
  | zero =>
      cases fields with
      | nil => rfl
      | cons f more =>
          rw [readFields, extract_blanked (h f List.mem_cons_self)]
          rfl
  | succ n ih =>
      cases fields with
      | nil => rfl
      | cons f more =>
          rw [readFields, extract_blanked (h f List.mem_cons_self), List.getElem?_cons_succ]
          exact ih fun g hg => h g (List.mem_cons_of_mem f hg)

/-! ## Numbers -/

inductive StoullError where
  | invalidArgument
  | outOfRange
deriving DecidableEq

/-- Both exceptions name the function. -/
def StoullError.what : StoullError → String
  | invalidArgument | outOfRange => "stoull"

/-- The number that digits stand for. -/
def decimal (digits : Bytes) : Nat :=
  digits.foldl (fun n c => 10 * n + (c.toNat - (byte '0').toNat)) 0

/-- A sign in front of the digits, and the rest. -/
def sign : Bytes → Bool × Bytes
  | [] => (false, [])
  | c :: rest =>
      if c = byte '-' then (true, rest)
      else if c = byte '+' then (false, rest)
      else (false, c :: rest)

/-- `std::stoull`: white space, a sign, digits; a number that is out of range
is refused before it is negated. -/
def stoull (s : Bytes) : Except StoullError (BitVec 64) :=
  let signed := sign (s.dropWhile isspace)
  let digits := signed.2.takeWhile isdigit
  if digits = [] then .error .invalidArgument
  else if UInt64.size ≤ decimal digits then .error .outOfRange
  else .ok (if signed.1 then -BitVec.ofNat 64 (decimal digits) else BitVec.ofNat 64 (decimal digits))

theorem isspace_of_isdigit {c : UInt8} (h : isdigit c = true) : isspace c = false := by
  simp only [isdigit, Bool.and_eq_true, decide_eq_true_eq, UInt8.le_iff_toNat_le] at h
  simp only [isspace, Bool.or_eq_false_iff, Bool.and_eq_false_iff, decide_eq_false_iff_not,
    UInt8.le_iff_toNat_le]
  have hzero : (byte '0').toNat = 48 := rfl
  have hreturn : (byte '\r').toNat = 13 := rfl
  have hblank : (byte ' ').toNat = 32 := rfl
  refine ⟨fun he => ?_, Or.inr ?_⟩
  · rw [he] at h
    omega
  · omega

theorem stoull_decimal {s : Bytes} (hne : s ≠ []) (hdigits : ∀ c ∈ s, isdigit c = true)
    (hrange : decimal s < UInt64.size) : stoull s = .ok (BitVec.ofNat 64 (decimal s)) := by
  obtain ⟨c, rest, rfl⟩ := List.exists_cons_of_ne_nil hne
  have hc := hdigits c List.mem_cons_self
  have hstart : (c :: rest).dropWhile isspace = c :: rest :=
    List.dropWhile_cons_of_neg (by rw [isspace_of_isdigit hc]; exact Bool.false_ne_true)
  have hsign : sign (c :: rest) = (false, c :: rest) := by
    have hminus : c ≠ byte '-' := fun he => by rw [he] at hc; exact absurd hc (by decide)
    have hplus : c ≠ byte '+' := fun he => by rw [he] at hc; exact absurd hc (by decide)
    rw [sign, if_neg hminus, if_neg hplus]
  have htake : (c :: rest).takeWhile isdigit = c :: rest := List.takeWhile_eq_self_iff.mpr hdigits
  rw [stoull, hstart, hsign]
  simp only [htake]
  rw [if_neg (List.cons_ne_nil c rest), if_neg (Nat.not_le.mpr hrange), if_neg Bool.false_ne_true]

/-- The text of a number, in bytes. -/
def printed (n : Nat) : Bytes := ascii (toString n)

/-- A digit is one byte. -/
theorem byte_digit {c : Char} (h : c.isDigit = true) :
    (byte c).toNat = c.toNat ∧ 48 ≤ c.toNat ∧ c.toNat ≤ 57 := by
  have hbounds : 48 ≤ c.toNat ∧ c.toNat ≤ 57 := Char.isDigit_iff_toNat.mp h
  refine ⟨?_, hbounds⟩
  rw [byte, Nat.toUInt8, UInt8.toNat_ofNat']
  omega

theorem isdigit_of_mem_printed {n : Nat} {b : UInt8} (h : b ∈ printed n) : isdigit b = true := by
  obtain ⟨c, hc, rfl⟩ := List.mem_map.mp h
  rw [Nat.toString_eq_repr, Nat.toList_repr] at hc
  obtain ⟨hbyte, hlow, hhigh⟩ := byte_digit (Nat.isDigit_of_mem_toDigits (by decide) (by decide) hc)
  have hzero : (byte '0').toNat = 48 := rfl
  have hnine : (byte '9').toNat = 57 := rfl
  simp only [isdigit, Bool.and_eq_true, decide_eq_true_eq, UInt8.le_iff_toNat_le]
  omega

theorem printed_ne_nil (n : Nat) : printed n ≠ [] := by
  rw [printed, ascii, Nat.toString_eq_repr, Nat.toList_repr]
  exact fun h => Nat.toDigits_ne_nil (List.map_eq_nil_iff.mp h)

theorem decimal_printed (n : Nat) : decimal (printed n) = n := by
  have hread : ∀ (cs : List Char) (k : Nat), (∀ c ∈ cs, c.isDigit = true) →
      (cs.map byte).foldl (fun n c => 10 * n + (c.toNat - (byte '0').toNat)) k =
        Nat.ofDigitChars 10 cs k := by
    intro cs
    induction cs with
    | nil => exact fun _ _ => rfl
    | cons c rest ih =>
        intro k hall
        have hc := (byte_digit (hall c List.mem_cons_self)).1
        rw [List.map_cons, List.foldl_cons, Nat.ofDigitChars_cons, hc]
        exact ih _ fun x hx => hall x (List.mem_cons_of_mem c hx)
  rw [printed, ascii, Nat.toString_eq_repr, Nat.toList_repr, decimal, hread]
  · exact Nat.ofDigitChars_ten_toDigits
  · exact fun c hc => Nat.isDigit_of_mem_toDigits (by decide) (by decide) hc

end Istream

end Yirang
