/-
# `Yirang.Process.Identity` — the start token of a process

A process is told from a later one with its pid by the time it was started.
Linux says so in `/proc/<pid>/stat`, one line for a process: the pid, the
name of the command in parentheses, and fields between blanks, of which the
22nd is that time.  The name is what the process calls itself; it may have
blanks and parentheses of its own, and none of them is to be taken for the
delimiters of the line.

    startToken           the reading of the token
    Stat                 a file of that form
    startToken_stat      only the 22nd field counts
    startToken_prints    so the supervisor reads what the process table holds
-/
import Yirang.Istream
import Yirang.Process.Kernel

namespace Yirang.Posix

open Istream

def kStatStartTimeField : Nat := 22

def statPath (id : Int) : String := s!"/proc/{id}/stat"

def cannotParse (id : Int) : String := s!"cannot parse /proc/{id}/stat"

/-- The last of the fields that were extracted, as a number. -/
def startTime (id : Int) : Option Bytes → Except String (BitVec 64)
  | none => .error (cannotParse id)
  | some field =>
      (stoull field).mapError fun e =>
        s!"cannot parse the start time of process {id}: {e.what}"

/-- `start_token` on Linux.  A path that `files` does not know cannot be
opened. -/
def startToken (files : String → Option Bytes) (id : Int) : Except String (BitVec 64) :=
  if id ≤ 0 then .error "invalid process id"
  else
    match files (statPath id) with
    | none => .error s!"process {id} does not exist"
    | some source =>
        match rfind (getline source) (byte ')') with
        | none => .error (cannotParse id)
        | some commandEnd =>
            -- the fields are counted from the third, the one after the name
            startTime id (readFields (kStatStartTimeField + 1 - 3) []
              ((getline source).drop (commandEnd + 1)))

/-! ## The line of a process -/

/-- `pid (comm) f3 f4 ...` -/
def statLine (pid comm : Bytes) (fields : List Bytes) : Bytes :=
  pid ++ ascii " (" ++ comm ++ byte ')' :: blanked fields

/-- The field of this number; the name is the second. -/
def statField (fields : List Bytes) (number : Nat) : Option Bytes := fields[number - 3]?

/-- A file that begins with such a line.  Of the name nothing is asked but
that it stays on the line. -/
structure Stat (pid comm : Bytes) (fields : List Bytes) (source : Bytes) : Prop where
  text : ∃ rest, source = statLine pid comm fields ++ rest ∧
    (rest = [] ∨ rest.head? = some newline)
  pid : newline ∉ pid
  comm : newline ∉ comm
  fields : ∀ f ∈ fields, IsWord f ∧ byte ')' ∉ f

variable {files : String → Option Bytes} {id : Int} {pid comm source : Bytes}
  {fields : List Bytes}

/-- Blanks are all that is between the fields. -/
theorem mem_blanked {c : UInt8} (h : c ∈ blanked fields) : c = byte ' ' ∨ ∃ f ∈ fields, c ∈ f := by
  obtain ⟨f, hf, hc⟩ := List.mem_flatMap.mp h
  rcases List.mem_cons.mp hc with rfl | hc
  · exact Or.inl rfl
  · exact Or.inr ⟨f, hf, hc⟩

namespace Stat

variable (h : Stat pid comm fields source)

include h

/-- After the name no parenthesis comes. -/
theorem last : byte ')' ∉ blanked fields := by
  intro hmem
  rcases mem_blanked hmem with hblank | ⟨f, hf, hc⟩
  · exact absurd hblank (by decide)
  · exact (h.fields f hf).2 hc

theorem line : newline ∉ statLine pid comm fields := by
  intro hmem
  have hcases : newline ∈ pid ∨ newline ∈ ascii " (" ∨ newline ∈ comm ∨ newline = byte ')' ∨
      newline ∈ blanked fields := by
    simpa [statLine, or_assoc] using hmem
  rcases hcases with hc | hc | hc | hc | hc
  · exact h.pid hc
  · exact absurd hc (by decide)
  · exact h.comm hc
  · exact absurd hc (by decide)
  · rcases mem_blanked hc with hblank | ⟨f, hf, hin⟩
    · exact absurd hblank (by decide)
    · have hspace := (h.fields f hf).1.2 newline hin
      exact absurd hspace (by decide)

theorem getline : Istream.getline source = statLine pid comm fields := by
  obtain ⟨rest, rfl, hrest⟩ := h.text
  exact getline_append h.line hrest

end Stat

/-- Whatever stands in front of the last parenthesis, the 22nd field is read
as the token. -/
theorem startToken_stat (hid : 0 < id) (hfile : files (statPath id) = some source)
    (h : Stat pid comm fields source) :
    startToken files id = startTime id (statField fields kStatStartTimeField) := by
  have hend : rfind (statLine pid comm fields) (byte ')') =
      some (pid ++ ascii " (" ++ comm).length := rfind_append_cons h.last
  have hafter : (statLine pid comm fields).drop ((pid ++ ascii " (" ++ comm).length + 1) =
      blanked fields := by
    rw [statLine, List.drop_append]
    simp
  have hread : readFields (kStatStartTimeField + 1 - 3) [] (blanked fields) =
      statField fields kStatStartTimeField :=
    readFields_blanked fun f hf => (h.fields f hf).1
  rw [startToken, if_neg (Int.not_le.mpr hid), hfile]
  simp only [h.getline, hend, hafter, hread]

/-- The token is the 22nd field, if that is a number of 64 bits, and there is
none if the line is too short; nothing else of the line counts, the name of
the process least of all. -/
theorem token_ignores_name (hid : 0 < id) (hfile : files (statPath id) = some source)
    (h : Stat pid comm fields source) :
    (∀ field, statField fields 22 = some field → (∀ c ∈ field, isdigit c = true) →
      decimal field < UInt64.size →
      startToken files id = .ok (BitVec.ofNat 64 (decimal field))) ∧
    (fields.length + 2 < 22 → ∃ e, startToken files id = .error e) ∧
    ∀ files' pid' comm' fields' source', files' (statPath id) = some source' →
      Stat pid' comm' fields' source' → statField fields' 22 = statField fields 22 →
      startToken files' id = startToken files id := by
  refine ⟨?_, ?_, ?_⟩
  · intro field hfield hdigits hrange
    have hmem : field ∈ fields := List.mem_of_getElem? hfield
    have hne : field ≠ [] := (h.fields field hmem).1.1
    rw [startToken_stat hid hfile h]
    show startTime id (statField fields 22) = _
    rw [hfield, startTime, stoull_decimal hne hdigits hrange]
    rfl
  · intro hshort
    have hnone : statField fields kStatStartTimeField = none := by
      refine List.getElem?_eq_none ?_
      show fields.length ≤ 22 - 3
      omega
    refine ⟨cannotParse id, ?_⟩
    rw [startToken_stat hid hfile h, hnone]
    rfl
  · intro files' pid' comm' fields' source' hfile' h' hsame
    rw [startToken_stat hid hfile h, startToken_stat hid hfile' h']
    exact congrArg (startTime id) hsame

namespace Sample

/-- A name that imitates the rest of the line. -/
def disguise : Bytes := ascii "a) S 1 1 1 (b"

def values : List Bytes := ascii "S" :: (List.range 21).map fun n => printed (n + 100)

def stat : Bytes := statLine (printed 7) disguise values ++ [newline]

def proc (path : String) : Option Bytes := if path = "/proc/7/stat" then some stat else none

end Sample

theorem token_ignores_name_disguise : startToken Sample.proc 7 = .ok 118#64 := by
  have hstat : Stat (printed 7) Sample.disguise Sample.values Sample.stat :=
    ⟨⟨[newline], rfl, Or.inr rfl⟩, by decide, by decide, by unfold IsWord; decide +kernel⟩
  have hfile : Sample.proc (statPath 7) = some Sample.stat := rfl
  exact (token_ignores_name (by decide) hfile hstat).1 (printed 118) (by decide)
    (by decide +kernel) (by decide +kernel)

/-! ## The process table -/

/-- Who is in the table has a file with the time of its start, under whatever
name; for nobody else there is one. -/
structure Prints (w : Kernel) (files : String → Option Bytes) : Prop where
  somebody : ∀ q ∈ w.procs, ∃ pid comm fields source, files (statPath q.pid) = some source ∧
    Stat pid comm fields source ∧
    statField fields kStatStartTimeField = some (printed q.token.toNat)
  nobody : ∀ id, (∀ q ∈ w.procs, q.pid ≠ id) → files (statPath id) = none

/-- What is read from the files is what the kernel is asked for. -/
theorem startToken_prints {w : Kernel} (h : Prints w files) (id : Int) :
    startToken files id = w.startToken id none := by
  rw [Kernel.startToken]
  split
  · rename_i hid
    rw [startToken, if_pos hid]
  · rename_i hid
    cases hfind : w.procs.find? fun q => q.pid = id with
    | none =>
        have hnone : ∀ q ∈ w.procs, q.pid ≠ id := fun q hq => by
          simpa using List.find?_eq_none.mp hfind q hq
        rw [startToken, if_neg hid, h.nobody id hnone]
        rfl
    | some q =>
        have hpid : q.pid = id := by simpa using List.find?_some hfind
        subst hpid
        obtain ⟨pid, comm, fields, source, hfile, hstat, hfield⟩ :=
          h.somebody q (List.mem_of_find?_eq_some hfind)
        have hrange : decimal (printed q.token.toNat) < UInt64.size := by
          rw [decimal_printed]
          exact q.token.isLt
        rw [startToken_stat (Int.not_le.mp hid) hfile hstat, hfield, startTime,
          stoull_decimal (printed_ne_nil _) (fun c => isdigit_of_mem_printed) hrange,
          decimal_printed, BitVec.ofNat_toNat, BitVec.setWidth_eq]
        rfl

end Yirang.Posix
