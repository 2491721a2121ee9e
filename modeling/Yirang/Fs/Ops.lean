/-
# `Yirang.Fs.Ops` — the file-system calls and how each may fail

One constructor per call of `<filesystem>` and `<fstream>` that the program
makes.  `answer` says what a call returns and leaves, given the tree and a
`Chance`: the part of the outcome that the program does not decide.

The overloads with an `std::error_code` are modelled as they behave, not as
one would wish them: `exists` and `is_directory` answer `false` when the
underlying `stat` fails, a `remove_all` that fails has removed some of the
tree, a write that fails may have left a piece of the text, and a directory
iterator may stop with an error after some of its entries.  Nothing else is
left half done: `rename` is atomic.

`writes` is the footprint of a call, and `answer_frame` the one fact every
other module needs: outside the footprint the tree is as before.
-/
import Yirang.Fs.Tree

namespace Yirang.Fs

/-- What is left of a content when the transfer is cut. -/
class Cuttable (κ : Type) where
  cut : κ → Nat → κ

/-- The part of an outcome that the program does not decide. -/
structure Chance where
  /-- The call fails with this message. -/
  fault : Option String := none
  /-- How far an interrupted transfer, creation or iteration got. -/
  cut : Option Nat := none
  /-- What a failed `remove_all` leaves. -/
  survivors : List Path := []
  /-- The order in which a directory is listed. -/
  names : List String := []
  /-- The order in which a tree is walked. -/
  paths : List Path := []
  /-- A time, before or after the epoch of the file clock. -/
  number : Int := 0
  /-- A permission bit. -/
  flag : Bool := true
deriving DecidableEq

/-- The entries an iterator delivered, and the error that ended it early. -/
structure Listing (α : Type) where
  items : List α
  broken : Option String
deriving DecidableEq

inductive FileOp (κ : Type) where
  | exists_ (p : Path)
  | isDirectory (p : Path)
  | isRegularFile (p : Path)
  | createDirectories (p : Path)
  | remove (p : Path)
  | removeAll (p : Path)
  | rename (a b : Path)
  | copyFile (a b : Path)
  | read (p : Path)
  | write (p : Path) (c : κ)
  | list (p : Path)
  | walk (p : Path)
  | relative (p base : Path)
  | lastWriteTime (p : Path)
  | canonical (p : Path)
  | ownerExec (p : Path)
  | addExec (p : Path)
  | symlink (target : String) (p : Path)

namespace FileOp

variable {κ : Type}

abbrev Res : FileOp κ → Type
  | exists_ _ | isDirectory _ | isRegularFile _ => Bool
  | createDirectories _ | remove _ | removeAll _ | rename _ _ | copyFile _ _ | write _ _
  | addExec _ | symlink _ _ => Except String Unit
  | read _ => Option κ
  | list _ => Except String (Listing String)
  | walk _ => Except String (Listing Path)
  | relative _ _ => Except String Path
  | lastWriteTime _ => Option Int
  | canonical _ => Option Path
  | ownerExec _ => Option Bool

/-- The paths a call may change. -/
def writes : FileOp κ → Path → Prop
  | createDirectories p, q => q <+: p
  | remove p, q => q = p
  | removeAll p, q => p <+: q
  | rename a b, q => a <+: q ∨ b <+: q
  | copyFile _ b, q => q = b
  | write p _, q => q = p
  | symlink _ p, q => q = p
  | _, _ => False

end FileOp

namespace FileTree

variable {κ : Type}

/-! ## The primitives at a path -/

def putAt (t : FileTree κ) (q : Path) (e : Entry κ) : Option (FileTree κ) :=
  match q.getLast? with
  | none => none
  | some n => if h : CanPut t q.dropLast n e then some (t.put q.dropLast n e h) else none

def mkdirsAt (t : FileTree κ) (q : Path) : Option (FileTree κ) :=
  if h : CanMkdirs t q then some (t.mkdirs q h) else none

def moveAt (t : FileTree κ) (a b : Path) : Option (FileTree κ) :=
  match b.getLast? with
  | none => none
  | some n => if h : CanMove t a b.dropLast n then some (t.move a b.dropLast n h) else none

theorem dropLast_append_of_getLast? {b : Path} {n : String} (h : b.getLast? = some n) :
    b.dropLast ++ [n] = b :=
  List.dropLast_append_getLast? n h

theorem get_putAt {t t' : FileTree κ} {q : Path} {e : Entry κ} (h : t.putAt q e = some t')
    (x : Path) : t'.get x = if x = q then some e else t.get x := by
  unfold putAt at h
  cases hl : q.getLast? with
  | none => simp [hl] at h
  | some n =>
      simp only [hl, Option.dite_none_right_eq_some, Option.some.injEq] at h
      obtain ⟨_, rfl⟩ := h
      simp only [put, dropLast_append_of_getLast? hl]

theorem get_mkdirsAt {t t' : FileTree κ} {q : Path} (h : t.mkdirsAt q = some t') (x : Path) :
    t'.get x = if x <+: q then some .dir else t.get x := by
  simp only [mkdirsAt, Option.dite_none_right_eq_some, Option.some.injEq] at h
  obtain ⟨_, rfl⟩ := h
  rfl

theorem get_moveAt {t t' : FileTree κ} {a b : Path} (h : t.moveAt a b = some t') (x : Path) :
    t'.get x =
      if b <+: x then t.get (movedFrom a b x) else if a <+: x then none else t.get x := by
  unfold moveAt at h
  cases hl : b.getLast? with
  | none => simp [hl] at h
  | some n =>
      simp only [hl, Option.dite_none_right_eq_some, Option.some.injEq] at h
      obtain ⟨_, rfl⟩ := h
      simp only [move, dropLast_append_of_getLast? hl]

/-! ### Directories and files -/

theorem isDir_putAt {t t' : FileTree κ} {p q : Path} {c : κ}
    (h : t.putAt p (.file c) = some t') (hq : t.isDir q = true) : t'.isDir q = true := by
  have hne : q ≠ p := by
    rintro rfl
    unfold putAt at h
    cases hl : q.getLast? with
    | none => simp [hl] at h
    | some n =>
        simp only [hl, Option.dite_none_right_eq_some] at h
        obtain ⟨hc, _⟩ := h
        have hnot := hc.2.2
        rw [dropLast_append_of_getLast? hl] at hnot
        exact hnot (isDir_iff.mp hq)
  rw [isDir_iff, get_putAt h, if_neg hne]
  exact isDir_iff.mp hq

theorem isDir_mkdirsAt {t t' : FileTree κ} {p q : Path} (h : t.mkdirsAt p = some t')
    (hq : t.isDir q = true) : t'.isDir q = true := by
  rw [isDir_iff, get_mkdirsAt h]
  split
  · rfl
  · exact isDir_iff.mp hq

/-- A directory that is there can be made. -/
theorem mkdirsAt_of_isDir {t : FileTree κ} {p : Path} (h : t.get p = some .dir) :
    ∃ t', t.mkdirsAt p = some t' := by
  have hcan : CanMkdirs t p := by
    refine ⟨t.proper (by rw [h]; simp), fun q hq => Or.inr ?_⟩
    by_cases hqp : q = p
    · exact hqp ▸ h
    · exact get_dir_of_under ((List.mem_inits q p).mp hq) hqp (by rw [h]; simp)
  exact ⟨t.mkdirs p hcan, dif_pos hcan⟩

/-- No file is in the way of the directories that were made. -/
theorem file_mkdirsAt {t t' : FileTree κ} {p q : Path} {c : κ} (h : t.mkdirsAt p = some t') :
    t'.get q = some (.file c) ↔ t.get q = some (.file c) := by
  rw [get_mkdirsAt h]
  split
  · rename_i hq
    simp only [mkdirsAt, Option.dite_none_right_eq_some] at h
    obtain ⟨hc, _⟩ := h
    rcases hc.2 q ((List.mem_inits q p).mpr hq) with hn | hd
    · simp [hn]
    · simp [hd]
  · exact Iff.rfl

/-- Of the files, only the new one is another. -/
theorem file_putAt {t t' : FileTree κ} {p q : Path} {e : Entry κ} {c : κ}
    (h : t.putAt p e = some t') (hq : q ≠ p) :
    t'.get q = some (.file c) ↔ t.get q = some (.file c) := by
  rw [get_putAt h, if_neg hq]

/-- The tree with these files, and the directories they need. -/
def ofFiles (files : List (Path × κ)) : FileTree κ :=
  files.foldl
    (fun t f =>
      ((t.mkdirsAt f.1.dropLast).bind fun t' => t'.putAt f.1 (.file f.2)).getD t)
    bare

end FileTree

/-! ## Listings in any order -/

/-- The items in the order a chance gives, the ones it does not name last. -/
def arrange {α : Type} [DecidableEq α] (order items : List α) : List α :=
  (order.dedup.filter fun x => decide (x ∈ items)) ++
    items.filter fun x => decide (x ∉ order)

theorem mem_arrange {α : Type} [DecidableEq α] {order items : List α} {x : α} :
    x ∈ arrange order items ↔ x ∈ items := by
  by_cases h : x ∈ order <;> simp [arrange, h]

theorem nodup_arrange {α : Type} [DecidableEq α] {order items : List α}
    (h : items.Nodup) : (arrange order items).Nodup := by
  unfold arrange
  refine List.Nodup.append ((List.nodup_dedup order).filter _) (h.filter _) ?_
  intro x hx hx'
  simp only [List.mem_filter, List.mem_dedup, decide_eq_true_eq] at hx hx'
  exact hx'.2 hx.1

namespace Chance

/-- An iteration over `items`: whole, or cut with an error. -/
def listing {α : Type} (c : Chance) (items : List α) : Listing α :=
  match c.cut with
  | none => ⟨items, none⟩
  | some n => ⟨items.take n, some (c.fault.getD "Input/output error")⟩

theorem mem_listing {α : Type} {c : Chance} {items : List α} {x : α}
    (h : x ∈ (c.listing items).items) : x ∈ items := by
  unfold listing at h
  cases hc : c.cut with
  | none => simpa [hc] using h
  | some n =>
      rw [hc] at h
      exact List.mem_of_mem_take h

theorem listing_whole {α : Type} {c : Chance} {items : List α}
    (h : (c.listing items).broken = none) : (c.listing items).items = items := by
  unfold listing at h ⊢
  cases hc : c.cut with
  | none => rfl
  | some n => simp [hc] at h

end Chance

namespace FileOp

variable {κ : Type}

/-- A call that changes the tree: it fails with the chance's message, or
because the tree does not admit it. -/
def attempt (c : Chance) (t : FileTree κ) (done : Option (FileTree κ)) (failed : FileTree κ) :
    Except String Unit × FileTree κ :=
  match c.fault with
  | some e => (.error e, failed)
  | none =>
      match done with
      | some t' => (.ok (), t')
      | none => (.error "No such file or directory", t)

theorem attempt_ok {c : Chance} {t failed : FileTree κ} {done : Option (FileTree κ)}
    (h : (attempt c t done failed).1 = .ok ()) :
    c.fault = none ∧ done = some (attempt c t done failed).2 := by
  unfold attempt at h ⊢
  cases hc : c.fault with
  | some e => simp [hc] at h
  | none =>
      cases hd : done with
      | none => simp [hc, hd] at h
      | some t' => exact ⟨rfl, rfl⟩

theorem attempt_error {c : Chance} {t failed : FileTree κ} {done : Option (FileTree κ)} {e : String}
    (h : (attempt c t done failed).1 = .error e) :
    (attempt c t done failed).2 = failed ∨ (attempt c t done failed).2 = t := by
  unfold attempt at h ⊢
  cases hc : c.fault with
  | some e => exact Or.inl rfl
  | none =>
      cases hd : done with
      | none => exact Or.inr rfl
      | some t' => simp [hc, hd] at h

theorem attempt_frame {c : Chance} {t failed : FileTree κ} {done : Option (FileTree κ)} {q : Path}
    (hd : ∀ t', done = some t' → t'.get q = t.get q) (hf : failed.get q = t.get q) :
    (attempt c t done failed).2.get q = t.get q := by
  unfold attempt
  cases c.fault with
  | some e => exact hf
  | none =>
      cases hd' : done with
      | some t' => exact hd t' hd'
      | none => rfl

theorem getD_frame {t : FileTree κ} {o : Option (FileTree κ)} {q : Path}
    (h : ∀ t', o = some t' → t'.get q = t.get q) : (o.getD t).get q = t.get q := by
  cases ho : o with
  | none => rfl
  | some t' => exact h t' ho

theorem putAt_frame {t : FileTree κ} {p q : Path} {e : Entry κ} (h : q ≠ p) :
    ∀ t', t.putAt p e = some t' → t'.get q = t.get q := by
  intro t' ht
  rw [FileTree.get_putAt ht, if_neg h]

theorem mkdirsAt_frame {t : FileTree κ} {p q : Path} (h : ¬ q <+: p) :
    ∀ t', t.mkdirsAt p = some t' → t'.get q = t.get q := by
  intro t' ht
  rw [FileTree.get_mkdirsAt ht, if_neg h]

variable [Cuttable κ]

/-- What the call returns and leaves. -/
def answer (c : Chance) : (o : FileOp κ) → FileTree κ → Res o × FileTree κ
  | exists_ p, t => (c.fault.isNone && (t.get p).isSome, t)
  | isDirectory p, t => (c.fault.isNone && t.isDir p, t)
  | isRegularFile p, t => (c.fault.isNone && t.isFile p, t)
  | createDirectories p, t =>
      attempt c t (t.mkdirsAt p)
        (match c.cut with
        | none => t
        | some n => (t.mkdirsAt (p.take n)).getD t)
  | remove p, t => attempt c t (if t.below p = [] then some (t.removeAll p) else none) t
  | removeAll p, t => attempt c t (some (t.removeAll p)) (t.removePart p c.survivors)
  | rename a b, t => attempt c t (t.moveAt a b) t
  | copyFile a b, t =>
      match t.get a with
      | some (.file x) =>
          attempt c t (t.putAt b (.file x))
            (match c.cut with
            | none => t
            | some n => (t.putAt b (.file (Cuttable.cut x n))).getD t)
      | _ => (.error "Invalid argument", t)
  | read p, t =>
      match c.fault, t.get p with
      | none, some (.file x) =>
          (match c.cut with
          | none => some x
          | some n => some (Cuttable.cut x n), t)
      | _, _ => (none, t)
  | write p x, t =>
      attempt c t (t.putAt p (.file x))
        (match c.cut with
        | none => t
        | some n => (t.putAt p (.file (Cuttable.cut x n))).getD t)
  | list p, t =>
      if t.isDir p && (c.cut.isSome || c.fault.isNone) then
        (.ok (c.listing (arrange c.names (t.children p))), t)
      else (.error (c.fault.getD "Not a directory"), t)
  | walk p, t =>
      if t.isDir p && (c.cut.isSome || c.fault.isNone) then
        (.ok (c.listing (arrange c.paths (t.below p))), t)
      else (.error (c.fault.getD "Not a directory"), t)
  | relative p base, t =>
      match c.fault with
      | some e => (.error e, t)
      | none => (.ok (p.drop base.length), t)
  | lastWriteTime _, t => (if c.fault.isNone then some c.number else none, t)
  | canonical p, t => (if c.fault.isNone then some p else none, t)
  | ownerExec _, t => (if c.fault.isNone then some c.flag else none, t)
  | addExec _, t =>
      match c.fault with
      | some e => (.error e, t)
      | none => (.ok (), t)
  | symlink s p, t => attempt c t (t.putAt p (.link s)) t

/-! ## Calls that succeeded, and calls that failed -/

section Results

variable {c : Chance} {t : FileTree κ} {p a b : Path} {x : κ} {e : String}

theorem rename_ok (h : (answer c (rename a b) t).1 = .ok ()) :
    t.moveAt a b = some (answer c (rename a b) t).2 :=
  (attempt_ok h).2

theorem rename_error (h : (answer c (rename a b) t).1 = .error e) :
    (answer c (rename a b) t).2 = t :=
  (attempt_error h).elim id id

theorem write_ok (h : (answer c (write p x) t).1 = .ok ()) :
    t.putAt p (.file x) = some (answer c (write p x) t).2 :=
  (attempt_ok h).2

theorem remove_error (h : (answer c (remove p) t).1 = .error e) :
    (answer c (remove p : FileOp κ) t).2 = t :=
  (attempt_error h).elim id id

theorem remove_ok (h : (answer c (remove p) t).1 = .ok ()) :
    (answer c (remove p : FileOp κ) t).2 = t.removeAll p := by
  have hd := (attempt_ok h).2
  simp only [Option.ite_none_right_eq_some, Option.some.injEq] at hd
  exact hd.2.symm

theorem removeAll_ok (h : (answer c (removeAll p) t).1 = .ok ()) :
    (answer c (removeAll p : FileOp κ) t).2 = t.removeAll p :=
  (Option.some.inj (attempt_ok h).2).symm

/-- What a `remove_all` that does not fail leaves; one of nothing leaves
nothing, whether it fails or not. -/
theorem removeAll_gone {q : Path} (hq : p <+: q) (h : c.fault = none ∨ t.get p = none) :
    (answer c (removeAll p : FileOp κ) t).2.get q = none := by
  have hclean : ∀ hf : c.fault = none,
      (answer c (removeAll p : FileOp κ) t).2.get q = none := fun hf => by
    simp only [answer, attempt, hf, FileTree.get_removeAll, if_pos hq]
  rcases h with hf | hp
  · exact hclean hf
  · cases hf : c.fault with
    | none => exact hclean hf
    | some e =>
        have hnone : t.get q = none := by
          obtain ⟨r, rfl⟩ := hq
          by_contra hne
          exact FileTree.get_ne_none_of_append hne hp
        simp only [answer, attempt, hf, FileTree.removePart, FileTree.prune, hnone, ite_self]

theorem createDirectories_ok (h : (answer c (createDirectories p) t).1 = .ok ()) :
    t.mkdirsAt p = some (answer c (createDirectories p : FileOp κ) t).2 :=
  (attempt_ok h).2

theorem copyFile_ok (h : (answer c (copyFile a b) t).1 = .ok ()) :
    ∃ x, t.get a = some (.file x) ∧
      t.putAt b (.file x) = some (answer c (copyFile a b : FileOp κ) t).2 := by
  simp only [answer] at h ⊢
  split at h
  · rename_i x hx
    simp only [hx]
    exact ⟨x, rfl, (attempt_ok h).2⟩
  · simp at h

end Results

/-! ## The frame -/

/-- Outside its footprint a call leaves the tree as it was. -/
theorem answer_frame (c : Chance) (o : FileOp κ) (t : FileTree κ) {q : Path} (h : ¬ o.writes q) :
    (answer c o t).2.get q = t.get q := by
  cases o with
  | createDirectories p =>
      refine attempt_frame (mkdirsAt_frame h) ?_
      cases c.cut with
      | none => rfl
      | some n =>
          exact getD_frame (mkdirsAt_frame fun hq => h (hq.trans (List.take_prefix n p)))
  | remove p =>
      refine attempt_frame ?_ rfl
      intro t' ht
      simp only [Option.ite_none_right_eq_some, Option.some.injEq] at ht
      obtain ⟨hb, rfl⟩ := ht
      rw [FileTree.get_removeAll]
      by_cases hpq : p <+: q
      · -- nothing was below `p`, so the entry could only have been `p` itself
        obtain ⟨r, rfl⟩ := hpq
        have hr : r ≠ [] := fun e => h (by simp [writes, e])
        have hnone : t.get (p ++ r) = none := by
          by_contra hne
          have := FileTree.mem_below.mpr ⟨hr, hne⟩
          simp [hb] at this
        simp [hnone]
      · rw [if_neg hpq]
  | removeAll p =>
      refine attempt_frame ?_ (FileTree.get_removePart_of_not_under h)
      intro t' ht
      cases ht
      exact (FileTree.get_removeAll t p q).trans (if_neg h)
  | rename a b =>
      simp only [writes, not_or] at h
      refine attempt_frame ?_ rfl
      intro t' ht
      rw [FileTree.get_moveAt ht, if_neg h.2, if_neg h.1]
  | copyFile a b =>
      simp only [answer]
      split
      · refine attempt_frame (putAt_frame h) ?_
        cases c.cut with
        | none => rfl
        | some n => exact getD_frame (putAt_frame h)
      · rfl
  | write p x =>
      refine attempt_frame (putAt_frame h) ?_
      cases c.cut with
      | none => rfl
      | some n => exact getD_frame (putAt_frame h)
  | symlink s p => exact attempt_frame (putAt_frame h) rfl
  | read p => simp only [answer]; split <;> rfl
  | list p => simp only [answer]; split <;> rfl
  | walk p => simp only [answer]; split <;> rfl
  | relative p base => simp only [answer]; split <;> rfl
  | addExec p => simp only [answer]; split <;> rfl
  | exists_ p => rfl
  | isDirectory p => rfl
  | isRegularFile p => rfl
  | lastWriteTime p => rfl
  | canonical p => rfl
  | ownerExec p => rfl

end FileOp

end Yirang.Fs
