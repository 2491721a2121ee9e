/-
# `Yirang.Json` — JSON values, and files that hold them

The program keeps its state in small JSON files and takes its commands as
JSON texts.  It reads them defensively: a field that is missing or of
another kind is as if it were not there, and the default stays.  The
readers below are that pattern (`contains(key) && at(key).is_string()`), one
per kind.

A file is read as a text and parsed.  What matters of a text is only the
value it parses to, so a `Content` is a value, or a text that does not
parse; the piece of a value that an interrupted write leaves is one of the
latter.
-/
import Yirang.Fs.Ops
import Mathlib.Data.List.Perm.Subperm
import Mathlib.Data.List.TakeWhile
import Mathlib.Data.List.Forall2

namespace Yirang

open Fs

/-- `boost::json::value`.  A number is signed where it fits in 64 bits,
unsigned where only that fits, and else a `double`, kept as the text that
`serialize` makes of it. -/
inductive Json where
  | null
  | bool (b : Bool)
  | int64 (i : Int)
  | uint64 (n : Nat)
  | double (text : String)
  | string (s : String)
  | array (items : List Json)
  | object (fields : List (String × Json))

namespace Json

/-- The members of an object; its keys are unique. -/
abbrev Fields := List (String × Json)

def string? : Json → Option String
  | .string s => some s
  | _ => none

def int64? : Json → Option Int
  | .int64 i => some i
  | _ => none

def object? : Json → Option Fields
  | .object fields => some fields
  | _ => none

def array? : Json → Option (List Json)
  | .array items => some items
  | _ => none

/-- `if (root.contains(key) && root.at(key).is_string()) { … }` -/
def readString (root : Fields) (key : String) : Option String :=
  (root.lookup key).bind string?

/-- `if (root.contains(key) && root.at(key).is_int64()) { … }` -/
def readInt64 (root : Fields) (key : String) : Option Int :=
  (root.lookup key).bind int64?

def readArray (root : Fields) (key : String) : Option (List Json) :=
  (root.lookup key).bind array?

def readObject (root : Fields) (key : String) : Option Fields :=
  (root.lookup key).bind object?

/-- `std::string(value.c_str())`: what stands before the first NUL. -/
def cString (s : String) : String := String.ofList (s.toList.takeWhile (· ≠ '\x00'))

/-- `as_string().c_str()` where a string stands. -/
def readText (root : Fields) (key : String) : Option String :=
  (readString root key).map cString

/-! ## Comparing and merging -/

/-- `==` of two doubles: only zero has two texts. -/
def sameDouble (a b : String) : Bool :=
  a = b || (["0E0", "-0E0"].contains a && ["0E0", "-0E0"].contains b)

mutual

/-- `operator==` of `boost::json::value`: numbers are compared across their
kinds, and objects without regard to order. -/
def same : Json → Json → Bool
  | .null, .null => true
  | .bool a, .bool b => a = b
  | .int64 a, .int64 b => a = b
  | .int64 a, .uint64 b => a = (b : Int)
  | .uint64 a, .int64 b => (a : Int) = b
  | .uint64 a, .uint64 b => a = b
  | .double a, .double b => sameDouble a b
  | .string a, .string b => a = b
  | .array a, .array b => sameItems a b
  | .object a, .object b => a.length = b.length && sameFields a b
  | _, _ => false

def sameItems : List Json → List Json → Bool
  | [], [] => true
  | a :: as, b :: bs => same a b && sameItems as bs
  | _, _ => false

/-- Each member has its like in the other object. -/
def sameFields : List (String × Json) → List (String × Json) → Bool
  | [], _ => true
  | (key, value) :: rest, b =>
      (match b.lookup key with
        | some other => same value other
        | none => false) && sameFields rest b

end

/-- `target[key] = value` -/
def setField (key : String) (value : Json) : Fields → Fields
  | [] => [(key, value)]
  | (k, v) :: rest => if k = key then (k, value) :: rest else (k, v) :: setField key value rest

mutual

/-- What stands under a key after the merge, and how many keys changed. -/
def mergeValue : Json → Option Json → Json × UInt32
  | .object changes, some (.object existing) =>
      let merged := mergeObject changes existing
      (.object merged.1, merged.2)
  | value, some existing => if same existing value then (existing, 0) else (value, 1)
  | value, none => (value, 1)

def mergeObject : List (String × Json) → Fields → Fields × UInt32
  | [], target => (target, 0)
  | (key, value) :: rest, target =>
      let under := mergeValue value (target.lookup key)
      let merged := mergeObject rest (setField key under.1 target)
      (merged.1, under.2 + merged.2)

end

/-! ## Objects that are the same -/

theorem same_string {s : String} {v : Json} : same (.string s) v = true ↔ v = .string s := by
  cases v <;> simp [same, eq_comm]

theorem string_of_same {s : String} {v : Json} (h : same v (.string s) = true) :
    v = .string s := by
  cases v <;> simp_all [same]

theorem same_object {a : Fields} {v : Json} (h : same (.object a) v = true) :
    ∃ b, v = .object b ∧ a.length = b.length ∧ sameFields a b = true := by
  cases v with
  | object b => exact ⟨b, rfl, by simpa [same] using h⟩
  | _ => simp [same] at h

theorem lookup_of_sameFields {key : String} {v : Json} {b : Fields} :
    ∀ {a : Fields}, sameFields a b = true → a.lookup key = some v →
      ∃ v', b.lookup key = some v' ∧ same v v' = true
  | [], _, hl => by cases hl
  | (k, x) :: rest, h, hl => by
      rw [sameFields, Bool.and_eq_true] at h
      rw [List.lookup_cons] at hl
      split at hl
      · rename_i hk
        cases hl
        rw [eq_of_beq hk]
        cases hb : b.lookup k with
        | none => simp [hb] at h
        | some v' => exact ⟨v', rfl, by simpa [hb] using h.1⟩
      · exact lookup_of_sameFields h.2 hl

/-- An object that is the same has the same keys. -/
theorem keys_perm_of_sameFields {a b : Fields} (h : sameFields a b = true)
    (hlen : a.length = b.length) (hnd : (a.map Prod.fst).Nodup) :
    (a.map Prod.fst).Perm (b.map Prod.fst) := by
  have hsub : a.map Prod.fst ⊆ b.map Prod.fst := by
    intro k hk
    obtain ⟨v, hv⟩ : ∃ v, a.lookup k = some v := by
      cases hv : a.lookup k with
      | some v => exact ⟨v, rfl⟩
      | none =>
          obtain ⟨⟨k', v⟩, hm, rfl⟩ := List.mem_map.mp hk
          exact absurd (List.lookup_eq_none_iff.mp hv _ hm) (by simp)
    obtain ⟨v', hv', -⟩ := lookup_of_sameFields h hv
    obtain ⟨l₁, l₂, rfl, -⟩ := List.lookup_eq_some_iff.mp hv'
    simp
  exact (hnd.subperm hsub).perm_of_length_le (by simp [hlen])

theorem lookup_none_of_sameFields {key : String} {a b : Fields} (h : sameFields a b = true)
    (hlen : a.length = b.length) (hnd : (a.map Prod.fst).Nodup) (hl : a.lookup key = none) :
    b.lookup key = none := by
  have hperm := keys_perm_of_sameFields h hlen hnd
  rw [List.lookup_eq_none_iff] at hl ⊢
  intro e he
  obtain ⟨e', he', hk⟩ := List.mem_map.mp (hperm.mem_iff.mpr (List.mem_map_of_mem he))
  rw [← hk]
  exact hl e' he'

theorem same_array {a : List Json} {v : Json} (h : same (.array a) v = true) :
    ∃ b, v = .array b ∧ List.Forall₂ (fun x y => same x y = true) a b := by
  have hitems : ∀ {a b : List Json}, sameItems a b = true →
      List.Forall₂ (fun x y => same x y = true) a b := by
    intro a
    induction a with
    | nil =>
        intro b h
        cases b with
        | nil => exact .nil
        | cons y ys => simp [sameItems] at h
    | cons x xs ih =>
        intro b h
        cases b with
        | nil => simp [sameItems] at h
        | cons y ys =>
            rw [sameItems, Bool.and_eq_true] at h
            exact .cons h.1 (ih h.2)
  cases v with
  | array b => exact ⟨b, rfl, hitems (by simpa [same] using h)⟩
  | _ => simp [same] at h

/-- The strings of objects that are the same are the same. -/
theorem readString_of_sameFields {a b : Fields} (h : sameFields a b = true)
    (hlen : a.length = b.length) (hnd : (a.map Prod.fst).Nodup) (key : String) :
    readString b key = readString a key := by
  unfold readString
  cases hl : a.lookup key with
  | none => rw [lookup_none_of_sameFields h hlen hnd hl]
  | some v =>
      obtain ⟨v', hv', hs⟩ := lookup_of_sameFields h hl
      rw [hv']
      show string? v' = string? v
      cases v' with
      | string s => rw [string_of_same hs]
      | _ =>
          cases v with
          | string s => cases same_string.mp hs
          | _ => rfl

/-! ## Being the same is transitive -/

theorem sameDouble_trans {a b c : String} (h : sameDouble a b = true) (h' : sameDouble b c = true) :
    sameDouble a c = true := by
  simp only [sameDouble, Bool.or_eq_true, Bool.and_eq_true, decide_eq_true_eq] at h h' ⊢
  rcases h with rfl | ⟨ha, hb⟩
  · exact h'
  · rcases h' with rfl | ⟨-, hc⟩
    · exact Or.inr ⟨ha, hb⟩
    · exact Or.inr ⟨ha, hc⟩

mutual

theorem same_trans : ∀ {a b c : Json}, same a b = true → same b c = true → same a c = true
  | .null, b, c, h, h' => by
      cases b with
      | null => exact h'
      | _ => simp [same] at h
  | .bool x, b, c, h, h' => by
      cases b with
      | bool y =>
          have hx : x = y := by simpa [same] using h
          exact hx ▸ h'
      | _ => simp [same] at h
  | .int64 x, b, c, h, h' => by
      cases b with
      | int64 y =>
          have hx : x = y := by simpa [same] using h
          exact hx ▸ h'
      | uint64 y =>
          have hx : x = (y : Int) := by simpa [same] using h
          cases c with
          | int64 z => simpa [same, hx] using h'
          | uint64 z =>
              have hy : y = z := by simpa [same] using h'
              simp [same, hx, hy]
          | _ => simp [same] at h'
      | _ => simp [same] at h
  | .uint64 x, b, c, h, h' => by
      cases b with
      | int64 y =>
          have hx : (x : Int) = y := by simpa [same] using h
          cases c with
          | int64 z => simpa [same, hx] using h'
          | uint64 z =>
              have hy : y = (z : Int) := by simpa [same] using h'
              have hz : x = z := by omega
              simpa [same] using hz
          | _ => simp [same] at h'
      | uint64 y =>
          have hx : x = y := by simpa [same] using h
          exact hx ▸ h'
      | _ => simp [same] at h
  | .double x, b, c, h, h' => by
      cases b with
      | double y =>
          cases c with
          | double z => exact sameDouble_trans h h'
          | _ => simp [same] at h'
      | _ => simp [same] at h
  | .string x, b, c, h, h' => by
      rw [same_string] at h
      exact h ▸ h'
  | .array as, b, c, h, h' => by
      cases b with
      | array bs =>
          cases c with
          | array cs => exact sameItems_trans h h'
          | _ => simp [same] at h'
      | _ => simp [same] at h
  | .object as, b, c, h, h' => by
      obtain ⟨bs, rfl, hlen, hb⟩ := same_object h
      obtain ⟨cs, rfl, hlen', hc⟩ := same_object h'
      simp [same, hlen, hlen', sameFields_trans hb hc]

theorem sameItems_trans : ∀ {as bs cs : List Json}, sameItems as bs = true →
    sameItems bs cs = true → sameItems as cs = true
  | [], [], [], _, _ => rfl
  | a :: as, b :: bs, c :: cs, h, h' => by
      rw [sameItems, Bool.and_eq_true] at h h' ⊢
      exact ⟨same_trans h.1 h'.1, sameItems_trans h.2 h'.2⟩

theorem sameFields_trans : ∀ {as bs cs : List (String × Json)}, sameFields as bs = true →
    sameFields bs cs = true → sameFields as cs = true
  | [], _, _, _, _ => rfl
  | (key, value) :: rest, bs, cs, h, h' => by
      rw [sameFields, Bool.and_eq_true] at h ⊢
      cases hb : bs.lookup key with
      | none => simp [hb] at h
      | some other =>
          obtain ⟨last, hl, hs⟩ := lookup_of_sameFields h' hb
          rw [hb] at h
          rw [hl]
          exact ⟨same_trans h.1 hs, sameFields_trans h.2 h'⟩

end

/-! ## Texts without a NUL -/

/-- Without a NUL a text is read whole. -/
theorem cString_of_not_mem {s : String} (h : '\x00' ∉ s.toList) : cString s = s := by
  have hall : s.toList.takeWhile (· ≠ '\x00') = s.toList := by
    rw [List.takeWhile_eq_self_iff]
    intro c hc
    simp only [decide_eq_true_eq]
    rintro rfl
    exact h hc
  rw [cString, hall, String.ofList_toList]

theorem readText_of_lookup {root : Fields} {key s : String}
    (h : root.lookup key = some (.string s)) (hnul : '\x00' ∉ s.toList) :
    readText root key = some s := by
  rw [readText, readString, h]
  exact congrArg some (cString_of_not_mem hnul)

/-- A text that was read carries no NUL. -/
theorem not_mem_cString (s : String) : '\x00' ∉ (cString s).toList := by
  rw [cString, String.toList_ofList]
  intro h
  simpa using List.mem_takeWhile_imp h

end Json

/-- What a file holds. -/
inductive Content where
  /-- A text that parses to this value. -/
  | json (value : Json)
  /-- A text that does not parse. -/
  | text (s : String)
  /-- The beginning of another content. -/
  | piece (whole : Content) (length : Nat)

namespace Content

/-- `boost::json::parse` -/
def parse : Content → Option Json
  | .json v => some v
  | _ => none

instance : Cuttable Content where
  cut := .piece

end Content

end Yirang
