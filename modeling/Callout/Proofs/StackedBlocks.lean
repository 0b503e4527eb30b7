import Callout.Proofs.DrawnLines

namespace Callout

namespace Placement

/-- The rows of the block of a line. -/
def blockRows (p : Placement) (config : Config) (line : Nat) : List Row :=
  (p.block config line (p.openBy line)).rows.toOption.getD []

/-- The gap row before a line, if the line does not follow the one that is drawn before it. -/
def gapRows (p : Placement) (config : Config) (previous : Option Nat) (line : Nat) : List Row :=
  if config.ellipsis && previous.any fun l => line != l + 1 then
    (p.gapRow (p.openBy line)).toOption.toList
  else []

/-- The blocks of some lines below that of `previous`. -/
def stack (p : Placement) (config : Config) (previous : Option Nat) : List Nat → List Row
  | [] => []
  | line :: rest =>
    p.gapRows config previous line ++ p.blockRows config line ++ p.stack config (some line) rest

variable {p q : Placement} {config : Config} {i : Nat}

theorem blockRows_of_alignedOn (config : Config) (hi : i < p.source.lines.length)
    (haligned : p.AlignedOn i) : ∃ b : LineBlock p config i, p.blockRows config i = b.rows ∧
      p.block config i (p.openBy i) = ⟨p.openPast i, .ok (p.blockRows config i)⟩ := by
  obtain ⟨b, hb⟩ := block_of_alignedOn config hi haligned
  have hrows : p.blockRows config i = b.rows := by
    rw [blockRows, hb]
    rfl
  exact ⟨b, hrows, by rw [hb, hrows]⟩

theorem gapRows_eq (p : Placement) (config : Config) (previous : Option Nat) (line : Nat) :
    (if config.ellipsis && previous.any fun l => line != l + 1 then
      (p.gapRow (p.openBy line)).map fun row => [row] else .ok []) =
      .ok (p.gapRows config previous line) := by
  obtain ⟨row, hrow, _⟩ := p.gapRow_shown line
  rw [gapRows, hrow]
  split <;> rfl

theorem gapRows_shown (p : Placement) (config : Config) (previous : Option Nat) (line : Nat) :
    ∀ row ∈ p.gapRows config previous line, row.IsBare .gap := by
  obtain ⟨gap, hgap, hbare⟩ := p.gapRow_shown line
  intro row hrow
  rw [gapRows, hgap] at hrow
  split at hrow
  next =>
    rw [List.mem_singleton.mp hrow]
    exact hbare
  next => cases hrow

/-- Relevant lines are drawn as their blocks below one another. -/
theorem blocks_eq_stack (config : Config) (previous : Option Nat) {done lines : List Nat}
    (h : p.relevantLines = done ++ lines) (haligned : ∀ line ∈ lines, p.AlignedOn line) :
    (p.blocks config previous lines (p.reached lines)).rows = .ok (p.stack config previous lines) := by
  induction lines generalizing done previous with
  | nil => rfl
  | cons line lines ih =>
    have hline : line < p.source.lines.length := lt_length_of_mem_relevantLines (by simp [h])
    have hnext : p.relevantLines = done ++ [line] ++ lines := by
      rw [h, List.append_assoc, List.cons_append, List.nil_append]
    obtain ⟨_, _, hb⟩ := blockRows_of_alignedOn config hline (haligned line (by simp))
    have hrest := ih (some line) hnext fun next hnext => haligned next (by simp [hnext])
    rw [blocks, reached, gapRows_eq, hb, openPast_eq_reached h, stack]
    simp only [hrest, Except.map]

theorem content_eq_stack (config : Config) (haligned : p.Aligned) :
    (p.content config []).rows = .ok (p.stack config none p.relevantLines) := by
  have hblocks := blocks_eq_stack config none (List.nil_append p.relevantLines).symm
    (aligned_iff.mp haligned)
  rwa [reached_relevantLines] at hblocks

theorem stack_append (previous : Option Nat) (lines more : List Nat) :
    p.stack config previous (lines ++ more) =
      p.stack config previous lines ++ p.stack config (lines.getLast?.or previous) more := by
  induction lines generalizing previous with
  | nil => rfl
  | cons line lines ih =>
    have hlast : (line :: lines).getLast?.or previous = lines.getLast?.or (some line) := by
      rw [List.getLast?_cons]
      cases lines.getLast? <;> rfl
    simp only [List.cons_append, stack, ih, hlast, List.append_assoc]

theorem gapRows_none (p : Placement) (config : Config) (line : Nat) :
    p.gapRows config none line = [] := by
  rw [gapRows, Option.any_none, Bool.and_false, if_neg (by simp)]

/-- The line above the first one tells only whether a gap row stands between them. -/
theorem stack_eq_append (previous : Option Nat) (lines : List Nat) :
    p.stack config previous lines =
      (lines.head?.elim [] (p.gapRows config previous)) ++ p.stack config none lines := by
  cases lines with
  | nil => rfl
  | cons line rest =>
    rw [stack, stack, gapRows_none, List.head?_cons, Option.elim_some, List.nil_append, List.append_assoc]

/-- Lines whose gap rows and blocks are others under a map of rows are drawn as others. -/
theorem stack_map {f : Row → Row} {lines : List Nat} (previous : Option Nat)
    (hgap : ∀ line ∈ lines, ∀ previous,
      q.gapRows config previous line = (p.gapRows config previous line).map f)
    (hblock : ∀ line ∈ lines, q.blockRows config line = (p.blockRows config line).map f) :
    q.stack config previous lines = (p.stack config previous lines).map f := by
  induction lines generalizing previous with
  | nil => rfl
  | cons line lines ih =>
    rw [stack, stack, hgap line (by simp), hblock line (by simp),
      ih (some line) (fun next hnext => hgap next (by simp [hnext]))
        fun next hnext => hblock next (by simp [hnext]), List.map_append, List.map_append]

end Placement

end Callout
