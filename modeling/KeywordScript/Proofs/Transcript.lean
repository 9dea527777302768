import KeywordScript.Machine
import Mathlib.Order.Defs.PartialOrder

/-! Transcripts: one written after another, and the order in which a transcript only grows. -/

namespace KeywordScript.Transcript

def append (c c' : Transcript) : Transcript :=
  { lines := c.lines ++ c'.lines, diagnostics := c.diagnostics ++ c'.diagnostics }

instance : Append Transcript :=
  ⟨append⟩

theorem append_empty (c : Transcript) : c ++ ({} : Transcript) = c := by
  change append c {} = c
  simp [append]

theorem append_assoc (c c' c'' : Transcript) : c ++ c' ++ c'' = c ++ (c' ++ c'') := by
  change append (append c c') c'' = append c (append c' c'')
  simp [append, Array.append_assoc]

theorem append_print (c c' : Transcript) (line : String) :
    (c ++ c').print line = c ++ c'.print line := by
  change (append c c').print line = append c (c'.print line)
  simp [append, print]

theorem append_report (c c' : Transcript) (d : Diagnostic) :
    (c ++ c').report d = c ++ c'.report d := by
  change (append c c').report d = append c (c'.report d)
  simp [append, report]

theorem mem_diagnostics_append {c c' : Transcript} {d : Diagnostic} :
    d ∈ (c ++ c').diagnostics ↔ d ∈ c.diagnostics ∨ d ∈ c'.diagnostics :=
  Array.mem_append

/-- The second transcript is the first and what was written after it. -/
instance : Preorder Transcript where
  le c c' := ∃ written, c' = c ++ written
  le_refl c := ⟨{}, (append_empty c).symm⟩
  le_trans c c' c'' := by
    rintro ⟨written, rfl⟩ ⟨written', rfl⟩
    exact ⟨written ++ written', append_assoc c written written'⟩

theorem print_eq_append (c : Transcript) (line : String) : c.print line = c ++ print {} line := by
  rw [← append_print, append_empty]

theorem report_eq_append (c : Transcript) (d : Diagnostic) : c.report d = c ++ report {} d := by
  rw [← append_report, append_empty]

end KeywordScript.Transcript
