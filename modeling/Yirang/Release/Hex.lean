/-
# `Yirang.Release.Hex` — digests as texts

A digest is announced, stored and compared as the text of its bytes in
hexadecimal digits.  It has two of them for each byte, all in lower case, and
says which digest it is of.
-/
import Yirang.Cli.Model
import Mathlib.Data.List.GetD

namespace Yirang.Release

theorem hexDigit_mem (n : UInt8) : hexDigit n ∈ "0123456789abcdef".toList := by
  unfold hexDigit
  by_cases h : n.toNat < "0123456789abcdef".toList.length
  · rw [List.getD_eq_getElem _ _ h]
    exact List.getElem_mem h
  · rw [List.getD_eq_default _ _ (Nat.le_of_not_lt h)]
    decide

theorem mem_toHex {bytes : List UInt8} {c : Char} (h : c ∈ (toHex bytes).toList) :
    c ∈ "0123456789abcdef".toList := by
  rw [toHex, String.toList_ofList, List.mem_flatMap] at h
  obtain ⟨b, -, hc⟩ := h
  simp only [List.mem_cons, List.not_mem_nil, or_false] at hc
  rcases hc with rfl | rfl
  · exact hexDigit_mem _
  · exact hexDigit_mem _

theorem length_toHex (bytes : List UInt8) : (toHex bytes).toList.length = 2 * bytes.length := by
  rw [toHex, String.toList_ofList]
  induction bytes with
  | nil => rfl
  | cons b rest ih =>
      rw [List.flatMap_cons, List.length_append, ih]
      simp only [List.length_cons, List.length_nil]
      omega

/-- The value of a digit. -/
def hexValue (c : Char) : Nat := "0123456789abcdef".toList.idxOf c

theorem hexValue_digits (b : UInt8) :
    hexValue (hexDigit (b >>> 4)) * 16 + hexValue (hexDigit (b &&& 0x0F)) = b.toNat := by
  have hall : ∀ n < 256, hexValue (hexDigit (UInt8.ofNat n >>> 4)) * 16 +
      hexValue (hexDigit (UInt8.ofNat n &&& 0x0F)) = n := by decide +kernel
  have hb := hall b.toNat b.toNat_lt
  rwa [UInt8.ofNat_toNat] at hb

theorem toHex_injective {xs ys : List UInt8} (h : toHex xs = toHex ys) : xs = ys := by
  replace h : (xs.flatMap fun b : UInt8 => [hexDigit (b >>> 4), hexDigit (b &&& 0x0F)]) =
      ys.flatMap fun b : UInt8 => [hexDigit (b >>> 4), hexDigit (b &&& 0x0F)] :=
    String.ofList_injective h
  induction xs generalizing ys with
  | nil =>
      cases ys with
      | nil => rfl
      | cons y ys => cases h
  | cons x xs ih =>
      cases ys with
      | nil => cases h
      | cons y ys =>
          simp only [List.flatMap_cons, List.cons_append, List.nil_append, List.cons.injEq] at h
          obtain ⟨hhigh, hlow, hrest⟩ := h
          have hxy : x.toNat = y.toNat := by
            rw [← hexValue_digits x, ← hexValue_digits y, hhigh, hlow]
          rw [UInt8.toNat_inj.mp hxy, ih hrest]

theorem Digest.text_injective {d d' : Digest} (h : d.text = d'.text) : d = d' :=
  Vector.toList_inj.mp (toHex_injective h)

theorem Digest.readable (d : Digest) : '\x00' ∉ d.text.toList := by
  intro h
  exact absurd (mem_toHex h) (by decide)

/-- The SHA-256 of nothing. -/
def Digest.ofNothing : Digest :=
  #v[0xe3, 0xb0, 0xc4, 0x42, 0x98, 0xfc, 0x1c, 0x14, 0x9a, 0xfb, 0xf4, 0xc8, 0x99, 0x6f, 0xb9, 0x24,
    0x27, 0xae, 0x41, 0xe4, 0x64, 0x9b, 0x93, 0x4c, 0xa4, 0x95, 0x99, 0x1b, 0x78, 0x52, 0xb8, 0x55]

end Yirang.Release
