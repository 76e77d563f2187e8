import BeagleKernel.Proofs.Path

/-!
# The parser as a split

Where a path has no more components than the structure has rows, and none too long for one, the
parser keeps them all, and so splits the path.
-/

namespace BeagleKernel.Fat32

/-- The non-empty components between slashes. -/
def splitComponents (s : List UInt8) : List (List UInt8) := (s.splitOn slash).filter (· ≠ [])

/-- The parser counts the components of the path, less its leading dot, and stores each of them in
a row of its own. -/
theorem parse_splits (path : CString) (prior : ℕ → UInt8) {s : List UInt8}
    (hs : charAt path.chars 0 ≠ dot ∧ s = path.chars ∨
      charAt path.chars 0 = dot ∧ s = path.chars.tail)
    (hcount : (splitComponents s).length ≤ 16) (hlen : ∀ c ∈ splitComponents s, c.length ≤ 63) :
    (parseFat32Path path prior).numComponents = (splitComponents s).length ∧
      ∀ i (h : i < (splitComponents s).length),
        Row (parseFat32Path path prior).components i (splitComponents s)[i] := by
  have hskip : skipLeadingDot path.chars = s := by
    rcases hs with ⟨hne, rfl⟩ | ⟨heq, rfl⟩
    · exact if_neg hne
    · exact if_pos heq
  have hcomp : components path = splitComponents s := by rw [components, hskip, splitComponents]
  have hkept : keptComponents path = splitComponents s := by
    rw [← hcomp] at hcount hlen ⊢
    exact keptComponents_of_short hcount fun c hc => Nat.lt_succ_of_le (hlen c hc)
  obtain ⟨st, heq, hcap⟩ := parse_captured path prior
  rw [heq, ← hkept]
  exact ⟨hcap.count, hcap.rows⟩

/-- `//a/bc/`. -/
def slashedPath : CString := ⟨[0x2F, 0x2F, 0x61, 0x2F, 0x62, 0x63, 0x2F], by decide⟩

theorem parse_splits_two : (parseFat32Path slashedPath fun _ => 0).numComponents = 2 ∧
    ∀ i (h : i < (splitComponents slashedPath.chars).length),
      Row (parseFat32Path slashedPath fun _ => 0).components i
        (splitComponents slashedPath.chars)[i] :=
  parse_splits slashedPath _ (.inl ⟨by decide, rfl⟩) (by decide) (by decide)

end BeagleKernel.Fat32
