/-
# `Yirang.Install.Session` — the installer, call after call

The installer has no memory: a run of it is one call after another on the
same disk, and it may be killed in front of any call of its own.

    Call         what it is asked for
    installer    the installer as a service
    Restoring    the rename that puts a copy back does not fail
    Unbroken     no kill comes in front of a rename that puts a release in its
                 place
-/
import Yirang.Install.Pointer
import Yirang.Install.Publish

namespace Yirang

open Fs Effect Device

namespace Install

inductive Call where
  | install (releaseId : String) (source : Path)
  | activate (releaseId : String)
  | rollback
  | prune (keepPreviousReleases : Int)

variable (o : InstallOptions)

def serve : Call → Step Unit
  | .install releaseId source => install o releaseId source
  | .activate releaseId => activate o releaseId
  | .rollback => do
      let _ ← rollback o
      pure ()
  | .prune keepPreviousReleases => do
      let _ ← prune { o with keepPreviousReleases }
      pure ()

def installer : Service device Unit Call (Except InstallError Unit) where
  fresh := ()
  boot := .pure (.ok ())
  serve c := (serve o c).run

/-- Whatever is set aside can be put back. -/
def Restoring (A : World → Op → Choice → Prop) : Prop := ∀ r, ValidId r → Restores o r A

/-- No release is put in its place by the next call. -/
def Unbroken (op : Op) : Prop := ∀ r, ValidId r → ¬ Onto (o.releaseDirectory r) op

end Install

end Yirang
