/-
# `Yirang.Deploy.Inside` — paths that stay inside a release

The executable of a service and the configuration file that an update is for
are named by paths relative to a release.  The program looks at the first
element of their normal form only.

    validateReleaseRelativePath   the check
    relative_iff_never_leaves     it takes the paths that never climb out
-/
import Yirang.Fs.Native

namespace Yirang.Native

open Lexical

variable {path label dir : Bytes}

def validateReleaseRelativePath (path label : Bytes) : Except Bytes Unit :=
  if path = [] then .error (label ++ ascii " is empty")
  else
    let normalized := lexicallyNormal path
    if normalized.rooted || first normalized = dotDot then
      .error (label ++ ascii " '" ++ path ++
        ascii "' must be a relative path inside the release directory")
    else .ok ()

/-- Where the executable is that `launch` starts. -/
def executable (releaseRoot executable : Bytes) : Bytes := append releaseRoot executable

/-- The file that `update_configuration` is for. -/
def configuration (releaseRoot relative : Bytes) : Bytes := append releaseRoot relative

theorem validateReleaseRelativePath_ok :
    validateReleaseRelativePath path label = .ok () ↔
      path ≠ [] ∧ isAbsolute path = false ∧ (walk [] (steps path)).isSome := by
  unfold validateReleaseRelativePath
  split
  · rename_i hempty
    exact iff_of_false (by simp) fun h => h.1 hempty
  rename_i hne
  rw [and_iff_right hne]
  dsimp only
  have hrooted : (lexicallyNormal path).rooted = isAbsolute path := normal_rooted
  split
  · rename_i hout
    refine iff_of_false (by simp) fun ⟨habs, hwalk⟩ => ?_
    rw [hrooted, habs, Bool.false_or, decide_eq_true_eq, first_eq_dotDot] at hout
    rw [lexicallyNormal, habs] at hout
    exact hout (ups_normal_iff.mpr hwalk)
  · rename_i hin
    rw [hrooted, Bool.or_eq_true, not_or, Bool.not_eq_true, decide_eq_true_eq,
      first_eq_dotDot, not_not] at hin
    refine iff_of_true rfl ⟨hin.1, ups_normal_iff.mp ?_⟩
    rw [lexicallyNormal, hin.1] at hin
    exact hin.2

/-- The check takes exactly the paths that are there, do not begin with `/`
and go up no more often than they have come down, at every step; and so
whatever they are joined to, they lead to it or below it. -/
theorem relative_iff_never_leaves :
    (∀ path label, validateReleaseRelativePath path label = .ok () ↔
      path ≠ [] ∧ path.head? ≠ some slash ∧ (walk [] (steps path)).isSome) ∧
    ∀ path label, validateReleaseRelativePath path label = .ok () → ∀ releaseRoot,
      Below (lexicallyNormal releaseRoot) (lexicallyNormal (executable releaseRoot path)) ∧
      Below (lexicallyNormal releaseRoot) (lexicallyNormal (configuration releaseRoot path)) := by
  constructor
  · intro path label
    rw [validateReleaseRelativePath_ok, isAbsolute, decide_eq_false_iff_not]
  · intro path label hok releaseRoot
    obtain ⟨-, habs, hwalk⟩ := validateReleaseRelativePath_ok.mp hok
    exact ⟨below_append habs hwalk releaseRoot, below_append habs hwalk releaseRoot⟩

/-- A path that goes up and comes back. -/
theorem relative_iff_never_leaves_back :
    validateReleaseRelativePath (ascii "bin/../app") (ascii "path") = .ok () ∧
    Below (lexicallyNormal (ascii "/srv/releases/r1"))
      (lexicallyNormal (executable (ascii "/srv/releases/r1") (ascii "bin/../app"))) := by
  have hok : validateReleaseRelativePath (ascii "bin/../app") (ascii "path") = .ok () :=
    (relative_iff_never_leaves.1 _ _).mpr ⟨by decide, by decide, by decide⟩
  exact ⟨hok, (relative_iff_never_leaves.2 _ _ hok _).1⟩

end Yirang.Native
