/-
# `Yirang.Fs.Patch` — what is written, whatever was there

A patch says of each path that nothing is written there, or else what is there
afterwards.  It knows nothing of the tree it is laid on.  That is why the same
patch, laid on once more, changes nothing.

    Patched         one tree is another with a patch on it
    Patched.trans   one patch after another is a patch
    Patched.again   the second time
-/
import Yirang.Fs.Ops

namespace Yirang.Fs

variable {κ : Type} {t t₁ t₂ : FileTree κ}

/-- For each path what is there afterwards (an entry, or none), if it is
written at all. -/
abbrev Patch (κ : Type) := Path → Option (Option (Entry κ))

namespace Patch

def nothing : Patch κ := fun _ => none

/-- First `f`, and then `g`. -/
def andThen (f g : Patch κ) : Patch κ := fun q => (g q).or (f q)

def put (p : Path) (e : Entry κ) : Patch κ := fun q => if q = p then some (some e) else none

/-- The path and all its directories. -/
def mkdirs (p : Path) : Patch κ := fun q => if q <+: p then some (some .dir) else none

/-- The file `a` with this content takes the place of `b`. -/
def replace (a b : Path) (x : κ) : Patch κ := fun q =>
  if q = b then some (some (.file x)) else if b <+: q ∨ a <+: q then some none else none

end Patch

variable {f g : Patch κ} {p a b : Path} {e : Entry κ} {x : κ}

def Patched (f : Patch κ) (t t' : FileTree κ) : Prop := ∀ q, t'.get q = (f q).getD (t.get q)

theorem Patched.of_same (h : ∀ q, t₁.get q = t.get q) : Patched .nothing t t₁ := h

theorem Patched.trans (h : Patched f t t₁) (h' : Patched g t₁ t₂) :
    Patched (f.andThen g) t t₂ := by
  intro q
  rw [h' q, h q, Patch.andThen]
  cases g q with
  | none => rfl
  | some e => rfl

/-- What the patch writes is there already. -/
theorem Patched.again (h : Patched f t t₁) (h' : Patched f t₁ t₂) (q : Path) :
    t₂.get q = t₁.get q := by
  rw [h' q, h q]
  cases f q with
  | none => rfl
  | some e => rfl

theorem patched_putAt (h : t.putAt p e = some t₁) : Patched (.put p e) t t₁ := by
  intro q
  rw [FileTree.get_putAt h, Patch.put]
  split
  · rfl
  · rfl

theorem patched_mkdirsAt (h : t.mkdirsAt p = some t₁) : Patched (.mkdirs p) t t₁ := by
  intro q
  rw [FileTree.get_mkdirsAt h, Patch.mkdirs]
  split
  · rfl
  · rfl

/-- Nothing is below a file, so nothing but the file is moved. -/
theorem patched_moveAt (hx : t.get a = some (.file x)) (h : t.moveAt a b = some t₁) :
    Patched (.replace a b x) t t₁ := by
  intro q
  rw [FileTree.get_moveAt h, Patch.replace]
  by_cases hb : b <+: q
  · rw [if_pos hb]
    obtain ⟨r, rfl⟩ := hb
    rw [FileTree.movedFrom_append]
    by_cases hr : r = []
    · simp [hr, hx]
    · have hnone : t.get (a ++ r) = none := by
        by_contra hne
        have hdir := FileTree.get_dir_of_under (List.prefix_append a r) (by simpa using hr) hne
        rw [hx] at hdir
        cases hdir
      simp [hr, hnone]
  · have hne : q ≠ b := fun he => hb (he ▸ List.prefix_rfl)
    rw [if_neg hb, if_neg hne]
    by_cases ha : a <+: q
    · rw [if_pos ha, if_pos (Or.inr ha)]
      rfl
    · rw [if_neg ha, if_neg (not_or.mpr ⟨hb, ha⟩)]
      rfl

end Yirang.Fs
