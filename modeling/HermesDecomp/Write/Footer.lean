import HermesDecomp.Library.Bytes

/-!
# The file footer

An image ends with the SHA-1 of everything before the footer. The hash function
comes from outside the repository: it is a parameter here, of which only the
length of its result is known.
-/

namespace HermesDecomp

/-- A hash of twenty bytes. -/
abbrev Digest := { bytes : Bytes // bytes.length = 20 }

/-- A hash function with results of twenty bytes. -/
abbrev Sha1 := Bytes → Digest

namespace Footer

/-- Length of the footer. -/
def footerLen : Nat := 20

/-- Append the hash of a laid-out image. -/
def appendFooter (sha1 : Sha1) (buf : Bytes) : Bytes := buf ++ (sha1 buf).val

/-- Recompute and replace the trailing footer. An image shorter than a footer
gets one appended. -/
def rehashFooter (sha1 : Sha1) (buf : Bytes) : Bytes :=
  appendFooter sha1 (if footerLen ≤ buf.length then buf.take (buf.length - footerLen) else buf)

/-- The last bytes are the hash of the bytes before them. -/
def verifyFooter (sha1 : Sha1) (buf : Bytes) : Bool :=
  if buf.length < footerLen then false
  else (sha1 (buf.take (buf.length - footerLen))).val == buf.drop (buf.length - footerLen)

theorem rehashFooter_eq (sha1 : Sha1) {buf : Bytes} (large : footerLen ≤ buf.length) :
    rehashFooter sha1 buf =
      buf.take (buf.length - footerLen) ++ (sha1 (buf.take (buf.length - footerLen))).val := by
  rw [rehashFooter, if_pos large, appendFooter]

/-- Replacing a footer keeps the length of the image. -/
theorem rehashFooter_length (sha1 : Sha1) {buf : Bytes} (large : footerLen ≤ buf.length) :
    (rehashFooter sha1 buf).length = buf.length := by
  rw [rehashFooter_eq sha1 large, List.length_append, (sha1 _).property, List.length_take]
  unfold footerLen at *
  omega

end Footer

end HermesDecomp
