import Callout.Proofs.RenamedRows
import Callout.Proofs.RenderOutcome
import Callout.Proofs.ShiftedLine

namespace Callout

/-- The same row of a line further down. -/
def Role.shift (k : Nat) : Role → Role
  | .code line => .code (line + k)
  | .underlines line => .underlines (line + k)
  | .message line label => .message (line + k) label
  | .spacer line => .spacer (line + k)
  | .closing line label => .closing (line + k) label
  | role => role

def Row.shift (k : Nat) (row : Row) : Row :=
  { row with role := row.role.shift k }

theorem Role.shift_zero (role : Role) : role.shift 0 = role := by
  cases role <;> rfl

theorem Row.shift_zero (row : Row) : row.shift 0 = row := by
  rw [Row.shift, Role.shift_zero]

theorem Row.shift_eq_rename (k : Nat) : Row.shift k = Row.rename (.down k) := by
  funext row
  obtain ⟨role, body⟩ := row
  cases role <;> rfl

theorem Row.shift_of_line? {row : Row} (k : Nat) (h : row.role.line? = none) : row.shift k = row := by
  rw [Row.shift_eq_rename, Row.rename_of_line? _ h]

theorem Target.renames_shift (n k : Nat) (t : Target) : Target.Renames (.down k) t (t.shift n) :=
  ⟨rfl, rfl, rfl, rfl, rfl, rfl⟩

namespace Placement

variable {p q : Placement} {n k i : Nat} {config : Config}

section Rows

variable (h : IsShift n k p q)
include h

theorem IsShift.renames : Renames (.down k) p q :=
  ⟨h.relabels, h.marginWidth_eq⟩

theorem IsShift.gapRow_eq (active : List OpenLabel) :
    q.gapRow (active.map (OpenLabel.shift k)) = p.gapRow active :=
  h.renames.gapRow_eq active

/-- The block of a line further down has the same rows, for all parts that it is drawn from are the
same. -/
theorem IsShift.block_rows (hi : i ∈ p.relevantLines) (b : LineBlock p config i)
    (b' : LineBlock q config (i + k)) : b'.rows = b.rows.map (Row.shift k) := by
  have hfragments : b'.fragments = b.fragments := by
    have heq := b'.fragments_eq
    rw [h.fragments_eq hi, b.fragments_eq] at heq
    exact (Except.ok.inj heq).symm
  have htargets : b'.targets = b.targets.map (Target.shift n) := by
    have heq := b'.targets_eq
    rw [h.targets_eq hi, b.targets_eq] at heq
    exact (Except.ok.inj heq).symm
  rw [Row.shift_eq_rename]
  exact h.renames.block_rows b b' (Target.renames_shift n k) (congrArg codeCells hfragments) htargets

/-- A line further down is drawn as the line itself, or refused as the line itself is. -/
theorem IsShift.block_eq (config : Config) (hi : i ∈ p.relevantLines) :
    (∃ rows, p.block config i (p.openBy i) = ⟨p.openPast i, .ok rows⟩ ∧
      q.block config (i + k : Nat) (q.openBy (i + k)) =
        ⟨q.openPast (i + k), .ok (rows.map (Row.shift k))⟩) ∨
    ∃ e, (p.block config i (p.openBy i)).rows = .error e ∧
      (q.block config (i + k : Nat) (q.openBy (i + k))).rows = .error (e.shift n) := by
  have hlt := lt_length_of_mem_relevantLines hi
  have hlt' : i + k < q.source.lines.length := by
    rw [h.source.length_eq]
    omega
  have hfragments' := h.fragments_eq hi
  cases hfragments : p.fragments i with
  | error e =>
    rw [hfragments, carry_error] at hfragments'
    exact .inr ⟨e, block_of_fragments_error config hfragments,
      block_of_fragments_error config hfragments'⟩
  | ok fragments =>
    rw [hfragments, carry_ok] at hfragments'
    obtain ⟨b, hb⟩ := block_of_alignedOn config hlt (alignedOn_of_fragments hlt hfragments)
    obtain ⟨b', hb'⟩ := block_of_alignedOn config hlt' (alignedOn_of_fragments hlt' hfragments')
    refine .inl ⟨b.rows, hb, ?_⟩
    rw [hb', h.block_rows hi b b']

end Rows

end Placement

end Callout
