/-
# `Yirang.Fs.Tree` — file trees

A file tree is a finite partial function from paths to entries.  It carries
its own well-formedness: an entry stands in a directory, every name is one a
directory can hold, and the paths listed cover all entries.  So no
operation can build a file without its directory, and listings are
computable.

The primitives are pointwise: each says what `get` is afterwards, at every
path.

    put       one new entry, or a file's content replaced
    prune     only the paths of a prefix-closed set stay
    move      a subtree goes under another path
    mkdirs    a path and all its directories

The content of a file is a parameter.
-/
import Yirang.Fs.Path
import Mathlib.Data.List.Dedup

namespace Yirang.Fs

/-- What a path names. -/
inductive Entry (κ : Type) where
  | dir
  | file (content : κ)
  | link (target : String)
deriving DecidableEq

/-- A file tree.  `names` covers the paths that have an entry; it may list
others. -/
structure FileTree (κ : Type) where
  get : Path → Option (Entry κ)
  names : List Path
  covered : ∀ {p : Path}, get p ≠ none → p ∈ names
  rooted : ∀ {p : Path} {n : String}, get (p ++ [n]) ≠ none → get p = some .dir
  proper : ∀ {p : Path}, get p ≠ none → ProperPath p = true

namespace FileTree

variable {κ : Type}

/-- The tree with a root directory and nothing in it. -/
def bare : FileTree κ where
  get p := if p = [] then some .dir else none
  names := [[]]
  covered {p} h := by by_cases hp : p = [] <;> simp_all
  rooted {p n} h := by simp at h
  proper {p} h := by by_cases hp : p = [] <;> simp_all [ProperPath]

/-! ## Reading -/

def isDir (t : FileTree κ) (p : Path) : Bool :=
  match t.get p with
  | some .dir => true
  | _ => false

def isFile (t : FileTree κ) (p : Path) : Bool :=
  match t.get p with
  | some (.file _) => true
  | _ => false

theorem isDir_iff {t : FileTree κ} {p : Path} : t.isDir p = true ↔ t.get p = some .dir := by
  cases h : t.get p with
  | none => simp [isDir, h]
  | some e => cases e <;> simp [isDir, h]

theorem isFile_iff {t : FileTree κ} {p : Path} :
    t.isFile p = true ↔ ∃ c, t.get p = some (.file c) := by
  cases h : t.get p with
  | none => simp [isFile, h]
  | some e => cases e <;> simp [isFile, h]

/-- The paths below `p`, relative to it. -/
def below (t : FileTree κ) (p : Path) : List Path :=
  (t.names.filterMap fun q =>
    if p <+: q ∧ q ≠ p ∧ (t.get q).isSome then some (q.drop p.length) else none).dedup

/-- The names in the directory `p`. -/
def children (t : FileTree κ) (p : Path) : List String :=
  ((t.below p).filterMap fun r =>
    match r with
    | [n] => some n
    | _ => none).dedup

theorem mem_below {t : FileTree κ} {p r : Path} :
    r ∈ t.below p ↔ r ≠ [] ∧ t.get (p ++ r) ≠ none := by
  simp only [below, List.mem_dedup, List.mem_filterMap, Option.ite_none_right_eq_some,
    Option.some.injEq]
  constructor
  · rintro ⟨q, _, ⟨⟨s, rfl⟩, hne, hsome⟩, rfl⟩
    rw [List.drop_left]
    exact ⟨fun e => hne (by simp [e]), Option.isSome_iff_ne_none.mp hsome⟩
  · rintro ⟨hr, hg⟩
    exact ⟨p ++ r, t.covered hg, ⟨List.prefix_append p r, by simpa using hr,
      Option.isSome_iff_ne_none.mpr hg⟩, List.drop_left⟩

theorem mem_children {t : FileTree κ} {p : Path} {n : String} :
    n ∈ t.children p ↔ t.get (p ++ [n]) ≠ none := by
  simp only [children, List.mem_dedup, List.mem_filterMap]
  constructor
  · rintro ⟨r, hr, h⟩
    match r, h with
    | [x], h => cases h; exact (mem_below.mp hr).2
  · intro h
    exact ⟨[n], mem_below.mpr ⟨by simp, h⟩, rfl⟩

theorem nodup_children (t : FileTree κ) (p : Path) : (t.children p).Nodup :=
  List.nodup_dedup _

/-- What lies under an existing path lies under directories. -/
theorem get_ne_none_of_append {t : FileTree κ} {p r : Path} (h : t.get (p ++ r) ≠ none) :
    t.get p ≠ none := by
  induction r using List.reverseRecOn with
  | nil => simpa using h
  | append_singleton r n ih =>
      rw [← List.append_assoc] at h
      exact ih (by rw [t.rooted h]; simp)

theorem get_dir_of_under {t : FileTree κ} {p q : Path} (hpq : p <+: q) (hne : p ≠ q)
    (h : t.get q ≠ none) : t.get p = some .dir := by
  obtain ⟨r, rfl⟩ := hpq
  match r, hne with
  | [], hne => exact absurd (List.append_nil p).symm hne
  | n :: r, _ =>
      have h' : t.get ((p ++ [n]) ++ r) ≠ none := by simpa using h
      exact t.rooted (get_ne_none_of_append h')

/-! ## `put` -/

/-- `e` may be put at `p ++ [n]`: the name is possible, the directory is
there, and no directory is replaced by a file or a file by a directory. -/
def CanPut (t : FileTree κ) (p : Path) (n : String) (e : Entry κ) : Prop :=
  ProperName n = true ∧ t.get p = some .dir ∧
    match e with
    | .dir => t.get (p ++ [n]) = none
    | _ => t.get (p ++ [n]) ≠ some .dir

instance (t : FileTree κ) (p : Path) (n : String) (e : Entry κ) :
    Decidable (CanPut t p n e) := by
  unfold CanPut
  have dirs : ∀ q, Decidable (t.get q = some .dir) := fun q =>
    decidable_of_iff _ isDir_iff
  have nones : ∀ q, Decidable (t.get q = none) := fun q =>
    decidable_of_iff _ Option.isNone_iff_eq_none
  cases e <;> infer_instance

def put (t : FileTree κ) (p : Path) (n : String) (e : Entry κ) (h : CanPut t p n e) :
    FileTree κ where
  get q := if q = p ++ [n] then some e else t.get q
  names := (p ++ [n]) :: t.names
  covered {q} hq := by
    by_cases hqp : q = p ++ [n]
    · simp [hqp]
    · rw [if_neg hqp] at hq
      exact List.mem_cons_of_mem _ (t.covered hq)
  rooted {q x} hq := by
    have hdir : t.get q = some .dir := by
      by_cases hqp : q ++ [x] = p ++ [n]
      · have hqe : q = p := (List.append_inj' hqp rfl).1
        exact hqe ▸ h.2.1
      · rw [if_neg hqp] at hq
        exact t.rooted hq
    by_cases hqe : q = p ++ [n]
    · -- the new entry cannot have anything below it unless it is a directory
      have hc := h.2.2
      rw [← hqe] at hc
      cases e with
      | dir => simp [hqe]
      | file c => exact absurd hdir hc
      | link s => exact absurd hdir hc
    · rw [if_neg hqe]
      exact hdir
  proper {q} hq := by
    by_cases hqp : q = p ++ [n]
    · have hp : ProperPath p = true := t.proper (by rw [h.2.1]; simp)
      rw [hqp]
      exact properPath_append.mpr ⟨hp, properPath_singleton.mpr h.1⟩
    · rw [if_neg hqp] at hq
      exact t.proper hq

/-! ## `prune` -/

/-- Only the entries of a prefix-closed set stay. -/
def prune (t : FileTree κ) (keep : Path → Bool)
    (closed : ∀ p n, keep (p ++ [n]) = true → keep p = true) : FileTree κ where
  get q := if keep q then t.get q else none
  names := t.names
  covered {q} hq := by
    by_cases hk : keep q = true
    · rw [if_pos hk] at hq
      exact t.covered hq
    · rw [if_neg hk] at hq
      exact absurd rfl hq
  rooted {q n} hq := by
    by_cases hk : keep (q ++ [n]) = true
    · rw [if_pos hk] at hq
      rw [if_pos (closed q n hk)]
      exact t.rooted hq
    · rw [if_neg hk] at hq
      exact absurd rfl hq
  proper {q} hq := by
    by_cases hk : keep q = true
    · rw [if_pos hk] at hq
      exact t.proper hq
    · rw [if_neg hk] at hq
      exact absurd rfl hq

/-- `remove_all`: `p` and everything below it goes. -/
def removeAll (t : FileTree κ) (p : Path) : FileTree κ :=
  t.prune (fun q => !decide (p <+: q)) (by
    intro q n hq
    simp only [Bool.not_eq_true', decide_eq_false_iff_not] at hq ⊢
    exact fun h => hq (h.trans (List.prefix_append q [n])))

/-- A `remove_all` that stopped midway: `p` is still there, and of what was
below it the paths above some survivor. -/
def removePart (t : FileTree κ) (p : Path) (survivors : List Path) : FileTree κ :=
  t.prune (fun q => !decide (p <+: q) || decide (q = p) || survivors.any fun s => decide (q <+: s))
    (by
      intro q n hq
      simp only [Bool.or_eq_true, Bool.not_eq_true', decide_eq_false_iff_not, decide_eq_true_eq,
        List.any_eq_true] at hq ⊢
      have hqn : q <+: q ++ [n] := List.prefix_append q [n]
      rcases hq with (h | h) | ⟨s, hs, h⟩
      · exact Or.inl (Or.inl fun hp => h (hp.trans hqn))
      · refine Or.inl (Or.inl fun hp => ?_)
        have hlen := hp.length_le
        rw [← h, List.length_append, List.length_singleton] at hlen
        omega
      · exact Or.inr ⟨s, hs, hqn.trans h⟩)

theorem get_removeAll (t : FileTree κ) (p q : Path) :
    (t.removeAll p).get q = if p <+: q then none else t.get q := by
  by_cases h : p <+: q <;> simp [removeAll, prune, h]

theorem get_removePart_of_not_under {t : FileTree κ} {p q : Path} {s : List Path}
    (h : ¬ p <+: q) : (t.removePart p s).get q = t.get q := by
  simp [removePart, prune, h]

/-! ## `mkdirs` -/

/-- The path and all its directories can be made: nothing else is in the way. -/
def CanMkdirs (t : FileTree κ) (p : Path) : Prop :=
  ProperPath p = true ∧ ∀ q ∈ p.inits, t.get q = none ∨ t.get q = some .dir

instance (t : FileTree κ) (p : Path) : Decidable (CanMkdirs t p) := by
  unfold CanMkdirs
  have dirs : ∀ q, Decidable (t.get q = some .dir) := fun q =>
    decidable_of_iff _ isDir_iff
  have nones : ∀ q, Decidable (t.get q = none) := fun q =>
    decidable_of_iff _ Option.isNone_iff_eq_none
  infer_instance

def mkdirs (t : FileTree κ) (p : Path) (h : CanMkdirs t p) : FileTree κ where
  get q := if q <+: p then some .dir else t.get q
  names := p.inits ++ t.names
  covered {q} hq := by
    by_cases hqp : q <+: p
    · exact List.mem_append_left _ ((List.mem_inits q p).mpr hqp)
    · rw [if_neg hqp] at hq
      exact List.mem_append_right _ (t.covered hq)
  rooted {q n} hq := by
    by_cases hqp : q <+: p
    · rw [if_pos hqp]
    · rw [if_neg hqp]
      rw [if_neg (fun hn => hqp ((List.prefix_append q [n]).trans hn))] at hq
      exact t.rooted hq
  proper {q} hq := by
    by_cases hqp : q <+: p
    · obtain ⟨r, rfl⟩ := hqp
      exact (properPath_append.mp h.1).1
    · rw [if_neg hqp] at hq
      exact t.proper hq

/-! ## `move` -/

/-- `rename(a, b)` is possible: `a` is there, `b` is not under it, the
directory of `b` exists, and `b` is free — or an empty directory that a
directory replaces, or a file that a file replaces. -/
def CanMove (t : FileTree κ) (a p : Path) (n : String) : Prop :=
  t.get a ≠ none ∧ ¬ a <+: p ++ [n] ∧ ProperName n = true ∧ t.get p = some .dir ∧
    t.below (p ++ [n]) = [] ∧ (t.get (p ++ [n]) = none ∨ t.isDir (p ++ [n]) = t.isDir a)

instance (t : FileTree κ) (a p : Path) (n : String) : Decidable (CanMove t a p n) := by
  unfold CanMove
  have dirs : ∀ q, Decidable (t.get q = some .dir) := fun q =>
    decidable_of_iff _ isDir_iff
  have nones : ∀ q, Decidable (t.get q = none) := fun q =>
    decidable_of_iff _ Option.isNone_iff_eq_none
  infer_instance

/-- The path whose entry the moved tree shows at `q`, if `q` is under the
new place. -/
def movedFrom (a b q : Path) : Path := a ++ q.drop b.length

theorem movedFrom_append {a b r : Path} : movedFrom a b (b ++ r) = a ++ r := by
  simp [movedFrom]

def move (t : FileTree κ) (a p : Path) (n : String) (h : CanMove t a p n) : FileTree κ where
  get q :=
    if p ++ [n] <+: q then t.get (movedFrom a (p ++ [n]) q)
    else if a <+: q then none else t.get q
  names := (t.names.map fun q => (p ++ [n]) ++ q.drop a.length) ++ t.names
  covered {q} hq := by
    by_cases hb : p ++ [n] <+: q
    · obtain ⟨r, rfl⟩ := hb
      rw [if_pos (List.prefix_append _ r), movedFrom_append] at hq
      exact List.mem_append_left _
        (List.mem_map.mpr ⟨a ++ r, t.covered hq, by simp⟩)
    · by_cases ha : a <+: q
      · simp [hb, ha] at hq
      · rw [if_neg hb, if_neg ha] at hq
        exact List.mem_append_right _ (t.covered hq)
  rooted {q x} hq := by
    have hqx : q <+: q ++ [x] := List.prefix_append q [x]
    by_cases hb : p ++ [n] <+: q
    · obtain ⟨r, rfl⟩ := hb
      have e : (p ++ [n]) ++ r ++ [x] = (p ++ [n]) ++ (r ++ [x]) := by simp
      rw [e, if_pos (List.prefix_append _ _), movedFrom_append, ← List.append_assoc] at hq
      rw [if_pos (List.prefix_append _ r), movedFrom_append]
      exact t.rooted hq
    · by_cases hbx : p ++ [n] <+: q ++ [x]
      · -- `q` is the directory the subtree moved into
        have hbe : p ++ [n] = q ++ [x] := by
          rcases List.prefix_concat_iff.mp hbx with e | e
          · exact e
          · exact absurd e hb
        have hqp : q = p := (List.append_inj' hbe rfl).1.symm
        have ha : ¬ a <+: q := fun ha =>
          h.2.1 ((hqp ▸ ha).trans (List.prefix_append p [n]))
        rw [if_neg hb, if_neg ha, hqp]
        exact h.2.2.2.1
      · have ha : ¬ a <+: q := fun ha => by
          simp [hbx, ha.trans hqx] at hq
        rw [if_neg hb, if_neg ha]
        by_cases hax : a <+: q ++ [x]
        · simp [hbx, hax] at hq
        · rw [if_neg hbx, if_neg hax] at hq
          exact t.rooted hq
  proper {q} hq := by
    by_cases hb : p ++ [n] <+: q
    · obtain ⟨r, rfl⟩ := hb
      rw [if_pos (List.prefix_append _ r), movedFrom_append] at hq
      have hp : ProperPath p = true := t.proper (by rw [h.2.2.2.1]; simp)
      exact properPath_append.mpr
        ⟨properPath_append.mpr ⟨hp, properPath_singleton.mpr h.2.2.1⟩,
          (properPath_append.mp (t.proper hq)).2⟩
    · by_cases ha : a <+: q
      · simp [hb, ha] at hq
      · rw [if_neg hb, if_neg ha] at hq
        exact t.proper hq

end FileTree

end Yirang.Fs
