/-
# `Yirang.Fs.Native` — `std::filesystem::path` on POSIX, of any bytes

A path as the program holds it is a string of bytes.  It is cut at every
`/`; an empty piece says nothing, `.` stays, `..` goes up, and any other
piece is a name.

    append            the `/` operator
    lexicallyNormal   what the path says before a directory is looked at
    first             its first element, as it is written
-/
import Yirang.Bytes
import Yirang.Fs.Lexical

namespace Yirang.Native

open Lexical

def slash : UInt8 := byte '/'

def dot : Bytes := ascii "."

def dotDot : Bytes := ascii ".."

/-- A piece of a path that is a name. -/
structure Name where
  bytes : Bytes
  proper : bytes ≠ [] ∧ bytes ≠ dot ∧ bytes ≠ dotDot

def step (piece : Bytes) : Option (Step Name) :=
  if hempty : piece = [] then none
  else if hdot : piece = dot then some .here
  else if hup : piece = dotDot then some .up
  else some (.name ⟨piece, hempty, hdot, hup⟩)

/-- The steps of a path, the root directory left out. -/
def steps (path : Bytes) : List (Step Name) := (path.splitOn slash).filterMap step

/-- `is_absolute`, and `has_root_path`. -/
def isAbsolute (path : Bytes) : Bool := path.head? = some slash

/-- `base / path`: an absolute path replaces the base. -/
def append (base path : Bytes) : Bytes :=
  if isAbsolute path then path
  else if base = [] ∨ base.getLast? = some slash then base ++ path
  else base ++ slash :: path

def lexicallyNormal (path : Bytes) : Normal Name := normal (isAbsolute path) (steps path)

/-- `*begin()` of a path in normal form. -/
def first (d : Normal Name) : Bytes :=
  if d.rooted then [slash]
  else if 0 < d.ups then dotDot
  else
    match d.names with
    | [] => dot
    | n :: _ => n.bytes

variable {base path piece : Bytes} {n : Name}

/-! ## Steps -/

theorem step_eq_up : step piece = some .up ↔ piece = dotDot := by
  unfold step
  constructor
  · intro h
    split at h
    · cases h
    · split at h
      · cases h
      · split at h
        · assumption
        · cases h
  · rintro rfl
    rfl

theorem up_mem_steps : Step.up ∈ steps path ↔ dotDot ∈ path.splitOn slash := by
  simp only [steps, List.mem_filterMap, step_eq_up, exists_eq_right]

theorem step_name (n : Name) : step n.bytes = some (.name n) := by
  obtain ⟨hempty, hdot, hup⟩ := n.proper
  rw [step, dif_neg hempty, dif_neg hdot, dif_neg hup]

theorem steps_nil : steps [] = [] := rfl

/-- A name is one step. -/
theorem steps_name (n : Name) (h : slash ∉ n.bytes) : steps n.bytes = [.name n] := by
  rw [steps, List.splitOn_eq_singleton h, List.filterMap_cons_some (step_name n)]
  rfl

theorem steps_slash : steps (base ++ slash :: path) = steps base ++ steps path := by
  rw [steps, List.splitOn_append_cons_self, List.filterMap_append]
  rfl

/-! ## Joining -/

theorem isAbsolute_append (h : base ≠ []) : isAbsolute (base ++ path) = isAbsolute base := by
  cases base with
  | nil => exact absurd rfl h
  | cons b base => rfl

/-- The steps of a relative path come after those of the base. -/
theorem lexicallyNormal_append (h : isAbsolute path = false) :
    lexicallyNormal (append base path) = normal (isAbsolute base) (steps base ++ steps path) := by
  unfold append
  rw [if_neg (by simp [h])]
  split
  · rename_i hbase
    rcases hbase with rfl | hlast
    · rw [List.nil_append, lexicallyNormal, h]
      rfl
    · obtain ⟨base, rfl⟩ := List.getLast?_eq_some_iff.mp hlast
      rw [lexicallyNormal, isAbsolute_append (by simp), List.append_assoc, List.singleton_append,
        steps_slash, steps_slash, steps_nil, List.append_nil]
  · rename_i hbase
    rw [lexicallyNormal, isAbsolute_append (fun he => hbase (Or.inl he)), steps_slash]

/-- A path that never climbs leads below every directory it is joined to. -/
theorem below_append (h : isAbsolute path = false) (hwalk : (walk [] (steps path)).isSome)
    (base : Bytes) : Below (lexicallyNormal base) (lexicallyNormal (append base path)) := by
  rw [lexicallyNormal_append h]
  exact below_join hwalk

/-- A name leads to an entry of the directory. -/
theorem lexicallyNormal_name (n : Name) (h : slash ∉ n.bytes) (base : Bytes) :
    lexicallyNormal (append base n.bytes) =
      (lexicallyNormal base).down ((lexicallyNormal base).names ++ [n]) := by
  have habs : isAbsolute n.bytes = false := by
    rw [isAbsolute, decide_eq_false_iff_not]
    exact fun he => h (List.mem_of_mem_head? he)
  rw [lexicallyNormal_append habs, steps_name n h]
  exact below_of_walk rfl

/-! ## The first element -/

theorem first_eq_dotDot {d : Normal Name} : first d = dotDot ↔ d.ups ≠ 0 := by
  unfold first
  split
  · rename_i hrooted
    exact iff_of_false (by decide) (by simp [d.grounded hrooted])
  · split
    · rename_i hups
      exact iff_of_true rfl (Nat.ne_of_gt hups)
    · rename_i hups
      refine iff_of_false ?_ (by omega)
      cases d.names with
      | nil => decide
      | cons n names => exact n.proper.2.2

end Yirang.Native
