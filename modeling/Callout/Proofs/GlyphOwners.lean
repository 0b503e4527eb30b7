import Callout.Proofs.CellColors
import Callout.Proofs.ConnectorRows

namespace Callout

namespace Placement

/-- Whether a label of several lines, of which `keep` holds, has its slot in a column. -/
def Runs (p : Placement) (i column : Nat) (keep : Placed → Prop) : Prop :=
  ∃ l, p.labels[i]? = some l ∧ l.isMultiline = true ∧ keep l ∧ column = 2 * p.slotOf i

/-- Whether a label of several lines starts or ends on a line. -/
def Joins (p : Placement) (line i : Nat) : Prop :=
  ∃ l, p.labels[i]? = some l ∧ l.isMultiline = true ∧ (l.startLine = line ∨ l.endLine = line)

/-- Whether the connector of a label runs beside the rows below the code of a line. -/
def RunsBeside (p : Placement) (line : Nat) (glyph : Glyph) (column i : Nat) : Prop :=
  glyph = .vbar ∧ p.Runs i column fun l => l.startLine ≤ line ∧ line ≤ l.endLine

/-- Whether a character beside the code of a line is for a label. A bar is for the nearest label to its
left that is joined to the code. -/
def DrawnAtCode (p : Placement) (line : Nat) (glyph : Glyph) (column i : Nat) : Prop :=
  match glyph with
  | .ltop => p.Runs i column fun l => l.startLine = line
  | .lcross => p.Runs i column fun l => l.endLine = line
  | .vbar | .xbar => p.Runs i column fun l => l.startLine < line ∧ line < l.endLine
  | .hbar | .rarrow =>
    p.Joins line i ∧ 2 * p.slotOf i ≤ column ∧
      ∀ j, p.Joins line j → 2 * p.slotOf j ≤ column → p.slotOf j ≤ p.slotOf i
  | _ => False

/-- Whether a character below the code of a line is for a label that lies on the line. An underline is for
the innermost of the labels above it. -/
def DrawnBelow (p : Placement) (attach : Attach) (targets : List Target) (glyph : Glyph)
    (column i : Nat) : Prop :=
  match glyph with
  | .underline => ∃ c, column = p.marginWidth + c ∧ ∃ t ∈ targets, t.index = i ∧ t.Covers c ∧
      ∀ u ∈ targets, u.Covers c → t.IsInner u
  | .underbar =>
    ∃ a ∈ anchors attach targets, a.target.index = i ∧ column = p.marginWidth + a.column
  | _ => False

/-- Whether a character before the message of label `k` is for a label: for `k` itself, or for one whose
message is still to come. -/
def DrawnAtMessage (p : Placement) (attach : Attach) (targets : List Target) (k : Nat) (glyph : Glyph)
    (column i : Nat) : Prop :=
  match glyph with
  | .vbar => ∃ drawn a waiting, (anchors attach targets).reverse = drawn ++ a :: waiting ∧
      a.target.index = k ∧ ∃ w ∈ waiting, w.target.index = i ∧ column = p.marginWidth + w.column
  | .lbot =>
    i = k ∧ ∃ a ∈ anchors attach targets, a.target.index = k ∧ column = p.marginWidth + a.column
  | .hbar =>
    i = k ∧ ∃ a ∈ anchors attach targets, a.target.index = k ∧ p.marginWidth + a.column < column
  | _ => False

/-- Whether a character of the row in which label `k` ends is for a label: for `k` itself, or for one that
is still open. -/
def DrawnAtClosing (p : Placement) (line k : Nat) (glyph : Glyph) (column i : Nat) : Prop :=
  match glyph with
  | .vbar | .xbar =>
    p.Runs i column fun l => l.startLine ≤ line ∧ (line < l.endLine ∨ l.endLine = line ∧ i < k)
  | .lbot => i = k ∧ column = 2 * p.slotOf k
  | .hbar => i = k ∧ 2 * p.slotOf k < column
  | _ => False

/-- Whether a character that is drawn in a row of a line, or in the gap row above it, is for a label. -/
def DrawnFor (p : Placement) (attach : Attach) (line : Nat) (targets : List Target) (role : Role)
    (glyph : Glyph) (column i : Nat) : Prop :=
  match role with
  | .gap => glyph = .vbar ∧ p.Runs i column fun l => l.startLine < line ∧ line ≤ l.endLine
  | .code _ => p.DrawnAtCode line glyph column i
  | .underlines _ => p.RunsBeside line glyph column i ∨ p.DrawnBelow attach targets glyph column i
  | .message _ k =>
    p.RunsBeside line glyph column i ∨ p.DrawnAtMessage attach targets k glyph column i
  | .spacer _ => p.RunsBeside line glyph column i
  | .closing _ k => p.DrawnAtClosing line k glyph column i
  | _ => False

variable {p : Placement} {config : Config} {line i j column : Nat} {targets : List Target}

/-- Labels that reach one line have slots of their own. -/
theorem Runs.unique {keep keep' : Placed → Prop} (hi : p.Runs i column keep)
    (hj : p.Runs j column keep')
    (hkeep : ∀ l ∈ p.labels, keep l → l.startLine ≤ line ∧ line ≤ l.endLine)
    (hkeep' : ∀ l ∈ p.labels, keep' l → l.startLine ≤ line ∧ line ≤ l.endLine) : i = j := by
  obtain ⟨l, hl, hlm, hkl, rfl⟩ := hi
  obtain ⟨m, hm, hmm, hkm, hslot⟩ := hj
  have hreaches : l.reaches line = true := by
    simpa [Placed.reaches] using hkeep l (List.mem_of_getElem? hl) hkl
  have hreaches' : m.reaches line = true := by
    simpa [Placed.reaches] using hkeep' m (List.mem_of_getElem? hm) hkm
  exact slotOf_injective_on_line hl hm hlm hmm hreaches hreaches' (by omega)

theorem Runs.lt_marginWidth {keep : Placed → Prop} (h : p.Runs i column keep) :
    column < p.marginWidth := by
  obtain ⟨l, hl, hm, _, rfl⟩ := h
  have := slotOf_lt_arrow hl hm
  omega

variable {attach : Attach} {glyph : Glyph} {k : Nat}

theorem RunsBeside.unique (hi : p.RunsBeside line glyph column i)
    (hj : p.RunsBeside line glyph column j) : i = j :=
  hi.2.unique hj.2 (fun _ _ => id) fun _ _ => id

theorem Joins.runs (h : p.Joins line i) :
    p.Runs i (2 * p.slotOf i) fun l => l.startLine = line ∨ l.endLine = line := by
  obtain ⟨l, hl, hm, hline⟩ := h
  exact ⟨l, hl, hm, hline, rfl⟩

theorem DrawnAtCode.unique (hi : p.DrawnAtCode line glyph column i)
    (hj : p.DrawnAtCode line glyph column j) : i = j := by
  have hends : ∀ l ∈ p.labels, l.startLine = line ∨ l.endLine = line →
      l.startLine ≤ line ∧ line ≤ l.endLine := by
    intro l hl hline
    have := startLine_le_endLine hl
    omega
  have hpasses : ∀ l ∈ p.labels, l.startLine < line ∧ line < l.endLine →
      l.startLine ≤ line ∧ line ≤ l.endLine := fun _ _ h => ⟨Nat.le_of_lt h.1, Nat.le_of_lt h.2⟩
  have hbar : ∀ {i j}, (p.Joins line i ∧ 2 * p.slotOf i ≤ column ∧
      ∀ j, p.Joins line j → 2 * p.slotOf j ≤ column → p.slotOf j ≤ p.slotOf i) →
      (p.Joins line j ∧ 2 * p.slotOf j ≤ column ∧
        ∀ i, p.Joins line i → 2 * p.slotOf i ≤ column → p.slotOf i ≤ p.slotOf j) → i = j := by
    rintro i j ⟨hi, hbefore, hnearest⟩ ⟨hj, hbefore', hnearest'⟩
    have hle := hnearest j hj hbefore'
    have hge := hnearest' i hi hbefore
    have hruns := hj.runs
    rw [Nat.le_antisymm hle hge] at hruns
    exact hi.runs.unique hruns hends hends
  unfold DrawnAtCode at hi hj
  split at hi
  · exact hi.unique hj (fun l hl h => hends l hl (.inl h)) fun l hl h => hends l hl (.inl h)
  · exact hi.unique hj (fun l hl h => hends l hl (.inr h)) fun l hl h => hends l hl (.inr h)
  · exact hi.unique hj hpasses hpasses
  · exact hi.unique hj hpasses hpasses
  · exact hbar hi hj
  · exact hbar hi hj
  · exact hi.elim

theorem anchor_unique {a b : Anchor} (ha : a ∈ anchors attach targets)
    (hb : b ∈ anchors attach targets) (h : a.column = b.column) : a = b :=
  List.inj_on_of_nodup_map (anchors_columns_nodup attach targets) ha hb h

theorem DrawnBelow.unique (hi : p.DrawnBelow attach targets glyph column i)
    (hj : p.DrawnBelow attach targets glyph column j) : i = j := by
  unfold DrawnBelow at hi hj
  split at hi
  · obtain ⟨c, rfl, t, ht, rfl, hcovers, hinner⟩ := hi
    obtain ⟨c', hc, u, hu, rfl, hcovers', hinner'⟩ := hj
    obtain rfl : c = c' := by omega
    have htu := hinner u hu hcovers'
    have hut := hinner' t ht hcovers
    unfold Target.IsInner at htu hut
    omega
  · obtain ⟨a, ha, rfl, rfl⟩ := hi
    obtain ⟨b, hb, rfl, hcolumn⟩ := hj
    rw [anchor_unique ha hb (by omega)]
  · exact hi.elim

theorem mem_waiting {drawn waiting : List Anchor} {a w : Anchor}
    (h : (anchors attach targets).reverse = drawn ++ a :: waiting) (hw : w ∈ waiting) :
    w ∈ anchors attach targets := by
  rw [← List.mem_reverse, h]
  exact List.mem_append_right _ (List.mem_cons_of_mem _ hw)

theorem DrawnAtMessage.unique (hi : p.DrawnAtMessage attach targets k glyph column i)
    (hj : p.DrawnAtMessage attach targets k glyph column j) : i = j := by
  unfold DrawnAtMessage at hi hj
  split at hi
  · obtain ⟨_, _, _, horder, _, w, hw, rfl, rfl⟩ := hi
    obtain ⟨_, _, _, horder', _, w', hw', rfl, hcolumn⟩ := hj
    rw [anchor_unique (mem_waiting horder hw) (mem_waiting horder' hw') (by omega)]
  · exact hi.1.trans hj.1.symm
  · exact hi.1.trans hj.1.symm
  · exact hi.elim

theorem DrawnAtClosing.unique (hi : p.DrawnAtClosing line k glyph column i)
    (hj : p.DrawnAtClosing line k glyph column j) : i = j := by
  have hopen : ∀ i, ∀ l ∈ p.labels,
      l.startLine ≤ line ∧ (line < l.endLine ∨ l.endLine = line ∧ i < k) →
      l.startLine ≤ line ∧ line ≤ l.endLine := by
    intro i l _ h
    omega
  unfold DrawnAtClosing at hi hj
  split at hi
  · exact hi.unique hj (hopen i) (hopen j)
  · exact hi.unique hj (hopen i) (hopen j)
  · exact hi.1.trans hj.1.symm
  · exact hi.1.trans hj.1.symm
  · exact hi.elim

/-- A connector that runs beside a message is left of what is drawn for the messages. -/
theorem RunsBeside.not_message (hi : p.RunsBeside line glyph column i)
    (hj : p.DrawnAtMessage attach targets k glyph column j) : False := by
  obtain ⟨rfl, hruns⟩ := hi
  obtain ⟨_, _, _, _, _, w, _, _, rfl⟩ := hj
  have := hruns.lt_marginWidth
  omega

/-- No drawn character is for two labels. -/
theorem DrawnFor.unique {role : Role} (hi : p.DrawnFor attach line targets role glyph column i)
    (hj : p.DrawnFor attach line targets role glyph column j) : i = j := by
  unfold DrawnFor at hi hj
  cases role with
  | gap =>
    have hopen : ∀ l ∈ p.labels, l.startLine < line ∧ line ≤ l.endLine →
        l.startLine ≤ line ∧ line ≤ l.endLine := fun _ _ h => ⟨Nat.le_of_lt h.1, h.2⟩
    exact hi.2.unique hj.2 hopen hopen
  | code => exact DrawnAtCode.unique hi hj
  | spacer => exact RunsBeside.unique hi hj
  | closing => exact DrawnAtClosing.unique hi hj
  | underlines =>
    rcases hi with hi | hi
    · rcases hj with hj | hj
      · exact hi.unique hj
      · obtain ⟨rfl, _⟩ := hi
        exact hj.elim
    · rcases hj with hj | hj
      · obtain ⟨rfl, _⟩ := hj
        exact hi.elim
      · exact hi.unique hj
  | message =>
    rcases hi with hi | hi
    · rcases hj with hj | hj
      · exact hi.unique hj
      · exact (hi.not_message hj).elim
    · rcases hj with hj | hj
      · exact (hj.not_message hi).elim
      · exact hi.unique hj
  | header => exact hi.elim
  | border => exact hi.elim
  | empty => exact hi.elim
  | note => exact hi.elim
  | bareNote => exact hi.elim
  | footer => exact hi.elim

/-- Whether a drawn character has the color of a label that it is for. -/
def ColoredFor (p : Placement) (attach : Attach) (line : Nat) (targets : List Target) (role : Role)
    (glyph : Glyph) (column : Nat) (color : Color) : Prop :=
  ∃ i l, p.labels[i]? = some l ∧ color = l.label.color ∧
    p.DrawnFor attach line targets role glyph column i

theorem entry_of_mem {keep : Nat → Placed → Bool} {e : OpenLabel} (he : e ∈ p.openList keep)
    (hcolumn : 2 * e.slot = column) : ∃ i l, p.labels[i]? = some l ∧ e.color = l.label.color ∧
      p.Runs i column fun l => keep i l = true := by
  obtain ⟨i, l, hl, hm, hkeep, rfl⟩ := mem_openList_iff.mp he
  exact ⟨i, l, hl, rfl, l, hl, hm, hkeep, hcolumn.symm⟩

theorem Runs.imp {keep keep' : Placed → Prop} (h : p.Runs i column keep)
    (hkeep : ∀ l, keep l → keep' l) : p.Runs i column keep' := by
  obtain ⟨l, hl, hm, hk, hcolumn⟩ := h
  exact ⟨l, hl, hm, hkeep l hk, hcolumn⟩

theorem gap_colored {color : Color} (h : marginCell (p.openBy line) column = .drawn glyph color) :
    p.ColoredFor attach line targets .gap glyph column color := by
  obtain ⟨rfl, e, he, hcolumn, rfl⟩ := marginCell_eq_drawn h
  obtain ⟨i, l, hl, hcolor, hruns⟩ := entry_of_mem he hcolumn
  refine ⟨i, l, hl, hcolor, rfl, hruns.imp fun l hkeep => ?_⟩
  simpa using hkeep

theorem beside_colored {color : Color} (h : marginCell (p.openOn line) column = .drawn glyph color) :
    ∃ i l, p.labels[i]? = some l ∧ color = l.label.color ∧ p.RunsBeside line glyph column i := by
  obtain ⟨rfl, e, he, hcolumn, rfl⟩ := marginCell_eq_drawn h
  obtain ⟨i, l, hl, hcolor, hruns⟩ := entry_of_mem he hcolumn
  refine ⟨i, l, hl, hcolor, rfl, hruns.imp fun l hkeep => ?_⟩
  simpa using hkeep

theorem slot_of_mem_joints {j : Joint} (hj : j ∈ joints line (p.openBy line) (p.openOn line)) :
    ∃ i l, p.labels[i]? = some l ∧ j.slot = p.slotOf i ∧ j.color = l.label.color ∧ p.Joins line i := by
  obtain ⟨i, l, hl, hm, ⟨hline, rfl⟩ | ⟨hline, rfl⟩⟩ := mem_joints_iff.mp hj
  · exact ⟨i, l, hl, rfl, rfl, l, hl, hm, .inr hline⟩
  · exact ⟨i, l, hl, rfl, rfl, l, hl, hm, .inl hline⟩

theorem joint_of_joins (h : p.Joins line i) :
    ∃ j ∈ joints line (p.openBy line) (p.openOn line), j.slot = p.slotOf i := by
  obtain ⟨l, hl, hm, hline | hline⟩ := h
  · exact ⟨_, mem_joints_iff.mpr ⟨i, l, hl, hm, .inr ⟨hline, rfl⟩⟩, rfl⟩
  · exact ⟨_, mem_joints_iff.mpr ⟨i, l, hl, hm, .inl ⟨hline, rfl⟩⟩, rfl⟩

theorem code_colored {color : Color} (h : p.codeMargin line column = .drawn glyph color) :
    p.ColoredFor attach line targets (.code line) glyph column color := by
  have hactive : ∀ e ∈ p.openOn line, 2 * e.slot + 2 < p.marginWidth :=
    fun e he => slot_lt_marginWidth (slot_lt_depth he)
  have hjoints : ∀ j ∈ joints line (p.openBy line) (p.openOn line), 2 * j.slot + 2 < p.marginWidth := by
    intro j hj
    obtain ⟨i, l, hl, hm, ⟨_, rfl⟩ | ⟨_, rfl⟩⟩ := mem_joints_iff.mp hj <;>
      exact slotOf_lt_arrow hl hm
  rcases codeCell_eq_drawn hactive hjoints h with
    ⟨j, hj, hcolumn, rfl, rfl⟩ | ⟨hglyph, e, he, hcolumn, hnone, rfl⟩ |
      ⟨hglyph, j, hj, hbefore, hnearest, rfl⟩
  · obtain ⟨i, l, hl, hm, ⟨hline, rfl⟩ | ⟨hline, rfl⟩⟩ := mem_joints_iff.mp hj
    · exact ⟨i, l, hl, rfl, l, hl, hm, hline, hcolumn.symm⟩
    · exact ⟨i, l, hl, rfl, l, hl, hm, hline, hcolumn.symm⟩
  · obtain ⟨i, l, hl, hm, hkeep, rfl⟩ := mem_openList_iff.mp he
    have hjoined : ¬p.Joins line i := by
      intro hjoins
      obtain ⟨j, hj, hslot⟩ := joint_of_joins hjoins
      exact hnone j hj hslot
    have hpasses : l.startLine < line ∧ line < l.endLine := by
      simp only [Bool.and_eq_true, decide_eq_true_eq] at hkeep
      have hstart : l.startLine ≠ line := fun heq => hjoined ⟨l, hl, hm, .inl heq⟩
      have hend : l.endLine ≠ line := fun heq => hjoined ⟨l, hl, hm, .inr heq⟩
      omega
    have hruns : p.Runs i column fun l => l.startLine < line ∧ line < l.endLine :=
      ⟨l, hl, hm, hpasses, hcolumn.symm⟩
    refine ⟨i, l, hl, rfl, ?_⟩
    rcases hglyph with rfl | rfl
    · exact hruns
    · exact hruns
  · obtain ⟨i, l, hl, hslot, hcolor, hjoins⟩ := slot_of_mem_joints hj
    have hbar : p.Joins line i ∧ 2 * p.slotOf i ≤ column ∧
        ∀ k, p.Joins line k → 2 * p.slotOf k ≤ column → p.slotOf k ≤ p.slotOf i := by
      refine ⟨hjoins, by omega, fun k hk hle => ?_⟩
      obtain ⟨j', hj', hslot'⟩ := joint_of_joins hk
      have := hnearest j' hj' (by omega)
      omega
    refine ⟨i, l, hl, hcolor, ?_⟩
    rcases hglyph with rfl | rfl
    · exact hbar
    · exact hbar

theorem closing_colored {color : Color} {e : OpenLabel} (he : e ∈ p.openOn line)
    (h : p.closingMarginOf line e column = .drawn glyph color) :
    p.ColoredFor attach line targets (.closing line e.index) glyph column color := by
  obtain ⟨k, m, hm, hmm, _, rfl⟩ := mem_openList_iff.mp he
  rcases closingCell_eq_drawn h with
    ⟨rfl, hcolumn, rfl⟩ | ⟨hglyph, o, ho, hcolumn, rfl⟩ | ⟨rfl, hright, rfl⟩
  · exact ⟨k, m, hm, rfl, rfl, hcolumn⟩
  · obtain ⟨i, l, hl, hlm, hopen, rfl⟩ := mem_openBelow_iff.mp ho
    have hruns : p.Runs i column fun l =>
        l.startLine ≤ line ∧ (line < l.endLine ∨ l.endLine = line ∧ i < k) :=
      ⟨l, hl, hlm, hopen, hcolumn.symm⟩
    refine ⟨i, l, hl, rfl, ?_⟩
    rcases hglyph with rfl | rfl
    · exact hruns
    · exact hruns
  · exact ⟨k, m, hm, rfl, rfl, hright⟩

end Placement

end Callout
