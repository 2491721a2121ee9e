/-
# `Yirang.Fs.Path` — absolute paths, and the texts that name them

A path is the list of its component names, outermost first; the root
directory is `[]`.  Three things live here: which names a directory entry
can have at all (`ProperName`), how a text is joined to a directory
(`Path.join`, the `/` operator of `std::filesystem::path` followed by the
resolution of `.` and `..`), and the lexical normal form of a relative text
(`lexicallyNormal`).

Texts are read through `c_str()` wherever the program takes one from
outside, so no text carries a NUL, and none is treated here.  `..` is
resolved on the text, as on a disk without symbolic links.
-/
import Mathlib.Data.List.Basic
import Mathlib.Data.List.Infix

namespace Yirang.Fs

/-- The component names from the root directory down. -/
abbrev Path := List String

/-- A name that an entry of a directory can have. -/
def ProperName (n : String) : Bool :=
  n ≠ "" && n ≠ "." && n ≠ ".." && !n.toList.contains '/'

/-- Every component of `p` is a possible name. -/
def ProperPath (p : Path) : Bool := p.all ProperName

theorem properPath_append {p q : Path} :
    ProperPath (p ++ q) = true ↔ ProperPath p = true ∧ ProperPath q = true := by
  simp [ProperPath, List.all_append]

theorem properPath_singleton {n : String} :
    ProperPath [n] = true ↔ ProperName n = true := by
  simp [ProperPath]

namespace Path

/-- The text of a path, as it stands in messages. -/
def text (p : Path) : String :=
  match p with
  | [] => "/"
  | _ => String.join (p.map fun n => "/" ++ n)

/-- Split at every `/`; the pieces may be empty. -/
def splitSlash : List Char → List (List Char)
  | [] => [[]]
  | c :: cs =>
      match splitSlash cs with
      | [] => [[c]]
      | piece :: rest => if c = '/' then [] :: piece :: rest else (c :: piece) :: rest

/-- The non-empty pieces of a text between its slashes. -/
def components (s : String) : List String :=
  (splitSlash s.toList).filterMap fun cs =>
    if cs = [] then none else some (String.ofList cs)

def isAbsolute (s : String) : Bool := s.toList.head? = some '/'

/-- `text.size() >= 2 && text[1] == ':'`; the second byte of a text is a
colon where its second character is and the first takes one byte. -/
def namesDrive (s : String) : Bool :=
  match s.toList with
  | c :: ':' :: _ => c.utf8Size = 1
  | _ => false

/-- A text that ends in a separator, or in `.`, names a directory only. -/
def namesDirectory (s : String) : Bool :=
  match (splitSlash s.toList).getLast? with
  | some [] | some ['.'] => true
  | _ => false

/-- The path whose text is that of `p` followed by `s`. -/
def suffixed (p : Path) (s : String) : Path := p.dropLast ++ [p.getLastD "" ++ s]

/-- One component taken from the directory reached so far. -/
def enter (p : Path) (n : String) : Path :=
  if n = "." then p else if n = ".." then p.dropLast else p ++ [n]

/-- `path(base) / text`, with `.` and `..` resolved; an absolute text
replaces the base. -/
def join (base : Path) (s : String) : Path :=
  (components s).foldl enter (if isAbsolute s then [] else base)

end Path

/-- One component taken into a lexically normal list. -/
def cancel (acc : List String) (n : String) : List String :=
  if n = "." then acc
  else if n = ".." then
    match acc.getLast? with
    | some last => if last = ".." then acc ++ [".."] else acc.dropLast
    | none => [".."]
  else acc ++ [n]

/-- `lexically_normal` of a relative text, as its list of components: `.`
goes, a name followed by `..` goes with it, and a `..` with nothing before
it to cancel stays. -/
def lexicallyNormal (s : String) : List String := (Path.components s).foldl cancel []

namespace Path

/-! ## Joining a single name -/

theorem splitSlash_of_not_mem :
    ∀ {cs : List Char}, '/' ∉ cs → splitSlash cs = [cs]
  | [], _ => rfl
  | c :: cs, h => by
      have hc : c ≠ '/' := fun e => h (e ▸ List.mem_cons_self)
      have hcs : '/' ∉ cs := fun e => h (List.mem_cons_of_mem _ e)
      simp [splitSlash, splitSlash_of_not_mem hcs, hc]

theorem properName_iff {n : String} :
    ProperName n = true ↔ n ≠ "" ∧ n ≠ "." ∧ n ≠ ".." ∧ '/' ∉ n.toList := by
  simp [ProperName, and_assoc]

theorem components_of_proper {n : String} (h : ProperName n = true) :
    components n = [n] := by
  obtain ⟨hne, _, _, hs⟩ := properName_iff.mp h
  have hl : n.toList ≠ [] := by simpa using hne
  simp [components, splitSlash_of_not_mem hs, hl]

/-- A proper name joined to a directory is the entry of that name. -/
theorem join_of_proper {n : String} (h : ProperName n = true) (base : Path) :
    join base n = base ++ [n] := by
  obtain ⟨_, hd, hdd, hs⟩ := properName_iff.mp h
  have habs : isAbsolute n = false := by
    simp only [isAbsolute, decide_eq_false_iff_not]
    intro hh
    exact hs (List.mem_of_mem_head? hh)
  simp [join, components_of_proper h, habs, enter, hd, hdd]

/-! ## Joining any text -/

theorem slash_not_mem_splitSlash :
    ∀ {cs piece : List Char}, piece ∈ splitSlash cs → '/' ∉ piece
  | [], piece, h => by
      rw [splitSlash, List.mem_singleton] at h
      simp [h]
  | c :: cs, piece, h => by
      have ih : ∀ {piece}, piece ∈ splitSlash cs → '/' ∉ piece := slash_not_mem_splitSlash
      rw [splitSlash] at h
      cases hs : splitSlash cs with
      | nil =>
          -- there is always a piece
          cases cs with
          | nil => simp [splitSlash] at hs
          | cons d ds =>
              rw [splitSlash] at hs
              split at hs
              · cases hs
              · split at hs <;> cases hs
      | cons first rest =>
          rw [hs] at h
          simp only at h
          have hfirst := ih (hs ▸ List.mem_cons_self)
          split at h
          · rcases List.mem_cons.mp h with rfl | h
            · simp
            · exact ih (hs ▸ h)
          · rename_i hc
            rcases List.mem_cons.mp h with rfl | h
            · exact fun hm => (List.mem_cons.mp hm).elim (fun e => hc e.symm) hfirst
            · exact ih (hs ▸ List.mem_cons_of_mem _ h)

/-- A component is not empty and has no slash in it. -/
theorem of_mem_components {s n : String} (h : n ∈ components s) :
    n ≠ "" ∧ '/' ∉ n.toList := by
  simp only [components, List.mem_filterMap, Option.ite_none_left_eq_some,
    Option.some.injEq] at h
  obtain ⟨piece, hmem, hne, rfl⟩ := h
  rw [String.toList_ofList]
  refine ⟨fun e => hne ?_, slash_not_mem_splitSlash hmem⟩
  simpa using congrArg String.toList e

theorem properPath_dropLast {p : Path} (h : ProperPath p = true) :
    ProperPath p.dropLast = true := by
  simp only [ProperPath, List.all_eq_true] at h ⊢
  exact fun n hn => h n (List.dropLast_subset p hn)

/-- Whatever the text, its components lead to a possible path. -/
theorem properPath_join {base : Path} (s : String) (h : ProperPath base = true) :
    ProperPath (join base s) = true := by
  have hfold : ∀ (names : List String) (p : Path), (∀ n ∈ names, n ≠ "" ∧ '/' ∉ n.toList) →
      ProperPath p = true → ProperPath (names.foldl enter p) = true := by
    intro names
    induction names with
    | nil => exact fun p _ hp => hp
    | cons n names ih =>
        intro p hn hp
        refine ih _ (fun m hm => hn m (List.mem_cons_of_mem _ hm)) ?_
        obtain ⟨hne, hslash⟩ := hn n List.mem_cons_self
        unfold enter
        split
        · exact hp
        · rename_i hd
          split
          · exact properPath_dropLast hp
          · rename_i hdd
            exact properPath_append.mpr
              ⟨hp, properPath_singleton.mpr (properName_iff.mpr ⟨hne, hd, hdd, hslash⟩)⟩
  refine hfold _ _ (fun n hn => of_mem_components hn) ?_
  split
  · rfl
  · exact h

/-- A relative text without `..` names what its components name. -/
theorem join_of_no_parent {base : Path} {s : String} (habs : isAbsolute s = false)
    (h : ".." ∉ components s) :
    join base s = base ++ (components s).filter (· ≠ ".") := by
  have hfold : ∀ (names : List String) (p : Path), ".." ∉ names →
      names.foldl enter p = p ++ names.filter (· ≠ ".") := by
    intro names
    induction names with
    | nil => simp
    | cons n names ih =>
        intro p hn
        have hne : n ≠ ".." := fun e => hn (e ▸ List.mem_cons_self)
        rw [List.foldl_cons, ih _ fun hm => hn (List.mem_cons_of_mem _ hm)]
        by_cases hd : n = "."
        · simp [enter, hd]
        · simp [enter, hd, hne]
  rw [join, habs, if_neg (by decide), hfold _ _ h]

/-! ## Joining a text that stays below

A text whose normal form does not begin with `..` never leaves the directory
it is joined to: while it has not, joining and normalising go in step. -/

/-- A `..` at the front is never cancelled. -/
theorem head_foldl_cancel {l acc : List String} (h : acc.head? = some "..") :
    (l.foldl cancel acc).head? = some ".." := by
  induction l generalizing acc with
  | nil => exact h
  | cons n l ih =>
      refine ih ?_
      obtain ⟨rest, rfl⟩ : ∃ rest, acc = ".." :: rest := by
        cases acc with
        | nil => cases h
        | cons a rest => exact ⟨rest, by rw [Option.some.inj h]⟩
      unfold cancel
      split
      · rfl
      · split
        · cases hl : (".." :: rest).getLast? with
          | none => simp at hl
          | some last =>
              simp only
              split
              · rfl
              · rename_i hlast
                -- the last component is another one, so the first stays
                cases rest with
                | nil => exact absurd (Option.some.inj hl).symm hlast
                | cons b rest => rfl
        · rfl

theorem foldl_enter_of_cancel (base : Path) (l : List String) {acc : List String} (h : ".." ∉ acc) :
    (l.foldl cancel acc).head? = some ".." ∨ l.foldl enter (base ++ acc) =
      base ++ l.foldl cancel acc := by
  induction l generalizing acc with
  | nil => exact Or.inr rfl
  | cons n l ih =>
      simp only [List.foldl_cons]
      by_cases hd : n = "."
      · simpa [cancel, enter, hd] using ih h
      · by_cases hdd : n = ".."
        · cases hl : acc.getLast? with
          | none =>
              refine Or.inl (head_foldl_cancel ?_)
              simp [cancel, hdd, hl]
          | some last =>
              have hlast : last ≠ ".." := fun e => h (e ▸ List.mem_of_getLast? hl)
              have hne : acc ≠ [] := fun e => by simp [e] at hl
              have hcancel : cancel acc n = acc.dropLast := by
                simp [cancel, hdd, hl, hlast]
              have henter : enter (base ++ acc) n = base ++ acc.dropLast := by
                simp [enter, hdd, List.dropLast_append_of_ne_nil hne]
              rw [hcancel, henter]
              exact ih fun hm => h (List.dropLast_subset acc hm)
        · have hcancel : cancel acc n = acc ++ [n] := by simp [cancel, hd, hdd]
          have henter : enter (base ++ acc) n = base ++ (acc ++ [n]) := by
            simp [enter, hd, hdd]
          rw [hcancel, henter]
          refine ih fun hm => ?_
          rcases List.mem_append.mp hm with hm | hm
          · exact h hm
          · exact hdd (List.mem_singleton.mp hm).symm

theorem under_join {base : Path} {s : String} (habs : isAbsolute s = false)
    (h : (lexicallyNormal s).head? ≠ some "..") : base <+: join base s := by
  have hfold := (foldl_enter_of_cancel base (components s)
    List.not_mem_nil).resolve_left h
  rw [List.append_nil] at hfold
  rw [join, habs, if_neg (by decide), hfold]
  exact List.prefix_append _ _

/-! ## Prefixes of paths that share a base -/

theorem under_base_iff {base p q : Path} : base ++ p <+: base ++ q ↔ p <+: q :=
  List.prefix_append_right_inj base

/-- What lies under both of two paths makes the one lie under the other. -/
theorem under_total {p q r : Path} (hp : p <+: r) (hq : q <+: r) : p <+: q ∨ q <+: p :=
  List.prefix_or_prefix_of_prefix hp hq

end Path

end Yirang.Fs
