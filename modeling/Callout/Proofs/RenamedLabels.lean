import Callout.Proofs.OpenLabels

namespace Callout

/-- Other names for lines and for the indices of labels, in their old order. -/
structure Renaming where
  line : Nat → Nat
  label : Nat → Nat
  line_strictMono : StrictMono line
  label_strictMono : StrictMono label

namespace Renaming

/-- Lines further down. -/
def down (k : Nat) : Renaming where
  line := (· + k)
  label := id
  line_strictMono := fun _ _ hlt => Nat.add_lt_add_right hlt k
  label_strictMono := strictMono_id

/-- One more label, which takes the index `k`. -/
def past (k : Nat) : Renaming where
  line := id
  label i := if i < k then i else i + 1
  line_strictMono := strictMono_id
  label_strictMono := by
    intro i j hlt
    dsimp only
    split <;> split <;> omega

theorem past_of_lt {k i : Nat} (h : i < k) : (past k).label i = i :=
  if_pos h

theorem past_of_le {k i : Nat} (h : k ≤ i) : (past k).label i = i + 1 :=
  if_neg (Nat.not_lt.mpr h)

/-- Every index but that of the added label is the new index of a label. -/
theorem exists_past {k i : Nat} (h : i ≠ k) : ∃ j, (past k).label j = i := by
  rcases Nat.lt_or_gt_of_ne h with hlt | hgt
  · exact ⟨i, past_of_lt hlt⟩
  · exact ⟨i - 1, by rw [past_of_le (by omega)]; omega⟩

end Renaming

variable (r : Renaming)

def OpenLabel.rename (e : OpenLabel) : OpenLabel :=
  { e with index := r.label e.index, endLine := r.line e.endLine }

theorem OpenLabel.rename_injective : Function.Injective (OpenLabel.rename r) := by
  intro a b hab
  obtain ⟨index, slot, color, last⟩ := a
  obtain ⟨index', slot', color', last'⟩ := b
  obtain ⟨hindex, rfl, rfl, hend⟩ := OpenLabel.mk.inj hab
  cases r.label_strictMono.injective hindex
  cases r.line_strictMono.injective hend
  rfl

/-- The same label on lines of other names. -/
structure Placed.Renames (l l' : Placed) : Prop where
  startLine_eq : l'.startLine = r.line l.startLine
  endLine_eq : l'.endLine = r.line l.endLine
  color_eq : l'.label.color = l.label.color
  message_eq : l'.label.message = l.label.message

variable {r}

theorem Placed.Renames.isMultiline_eq {l l' : Placed} (h : Placed.Renames r l l') :
    l'.isMultiline = l.isMultiline := by
  rw [Bool.eq_iff_iff, Placed.isMultiline, Placed.isMultiline, bne_iff_ne, bne_iff_ne, h.startLine_eq,
    h.endLine_eq, r.line_strictMono.injective.ne_iff]

namespace Placement

/-- A placement with the labels of another one under other names. It has no further label of several
lines. -/
structure Relabels (r : Renaming) (p q : Placement) : Prop where
  labels_rel : ∀ i, Option.Rel (Placed.Renames r) p.labels[i]? q.labels[r.label i]?
  exists_label : ∀ j m, q.labels[j]? = some m → m.isMultiline = true → ∃ i, r.label i = j

variable {p q : Placement} (h : Relabels r p q)
include h

theorem Relabels.labels_cases (i : Nat) :
    (p.labels[i]? = none ∧ q.labels[r.label i]? = none) ∨
      ∃ l l', p.labels[i]? = some l ∧ q.labels[r.label i]? = some l' ∧ Placed.Renames r l l' := by
  have hrel := h.labels_rel i
  cases hp : p.labels[i]? with
  | none =>
    cases hq : q.labels[r.label i]? with
    | none => exact .inl ⟨rfl, rfl⟩
    | some l' =>
      rw [hp, hq] at hrel
      cases hrel
  | some l =>
    cases hq : q.labels[r.label i]? with
    | none =>
      rw [hp, hq] at hrel
      cases hrel
    | some l' =>
      rw [hp, hq] at hrel
      cases hrel with
      | some hsame => exact .inr ⟨l, l', rfl, rfl, hsame⟩

theorem Relabels.some_of_label {i : Nat} {l : Placed} (hl : p.labels[i]? = some l) :
    ∃ l', q.labels[r.label i]? = some l' ∧ Placed.Renames r l l' := by
  rcases h.labels_cases i with ⟨hnone, _⟩ | ⟨m, l', hm, hl', hsame⟩
  · cases hnone.symm.trans hl
  · cases hm.symm.trans hl
    exact ⟨l', hl', hsame⟩

theorem Relabels.label_of_some {i : Nat} {l' : Placed} (hl' : q.labels[r.label i]? = some l') :
    ∃ l, p.labels[i]? = some l ∧ Placed.Renames r l l' := by
  rcases h.labels_cases i with ⟨_, hnone⟩ | ⟨l, m', hl, hm', hsame⟩
  · cases hnone.symm.trans hl'
  · cases hm'.symm.trans hl'
    exact ⟨l, hl, hsame⟩

theorem Relabels.openBefore_eq (i line : Nat) :
    q.openBefore (r.label i) (r.line line) = (p.openBefore i line).map r.label := by
  apply eq_of_increasing (f := id)
  · exact List.pairwise_lt_range.filter _
  · exact List.pairwise_map.mpr ((List.pairwise_lt_range.filter _).imp fun hlt => r.label_strictMono hlt)
  · intro j
    simp only [List.mem_map, mem_openBefore_iff]
    constructor
    · rintro ⟨hlt, m, hm, hmulti, hle⟩
      obtain ⟨j, rfl⟩ := h.exists_label j m hm hmulti
      obtain ⟨l, hl, hsame⟩ := h.label_of_some hm
      rw [hsame.isMultiline_eq] at hmulti
      rw [hsame.endLine_eq, r.line_strictMono.le_iff_le] at hle
      exact ⟨j, ⟨r.label_strictMono.lt_iff_lt.mp hlt, l, hl, hmulti, hle⟩, rfl⟩
    · rintro ⟨j, ⟨hlt, l, hl, hmulti, hle⟩, rfl⟩
      obtain ⟨m, hm, hsame⟩ := h.some_of_label hl
      refine ⟨r.label_strictMono hlt, m, hm, by rw [hsame.isMultiline_eq, hmulti], ?_⟩
      rw [hsame.endLine_eq, r.line_strictMono.le_iff_le]
      exact hle

/-- Every label has the slot that it had. -/
theorem Relabels.slotOf_eq (i : Nat) : q.slotOf (r.label i) = p.slotOf i := by
  induction i using Nat.strong_induction_on with
  | h i ih =>
    rcases h.labels_cases i with ⟨hp, hq⟩ | ⟨l, l', hp, hq, hsame⟩
    · rw [slotOf, slotOf, hp, hq]
    · rw [Placement.slotOf_eq hp, Placement.slotOf_eq hq, hsame.startLine_eq, h.openBefore_eq,
        List.map_map]
      congr 1
      exact List.map_congr_left fun j hj => ih j (mem_openBefore_iff.mp hj).1

theorem Relabels.openList_eq {keep keep' : Nat → Placed → Bool}
    (hkeep : ∀ i l l', Placed.Renames r l l' → keep' (r.label i) l' = keep i l) :
    q.openList keep' = (p.openList keep).map (OpenLabel.rename r) := by
  have hentry : ∀ i l l', Placed.Renames r l l' → q.entry (r.label i) l' = (p.entry i l).rename r := by
    intro i l l' hsame
    rw [entry, entry, h.slotOf_eq, hsame.color_eq, hsame.endLine_eq]
    rfl
  apply eq_of_increasing (f := OpenLabel.index) (q.openList_increasing keep')
  · exact List.pairwise_map.mpr
      ((p.openList_increasing keep).imp fun hlt => r.label_strictMono hlt)
  · intro e
    simp only [List.mem_map, mem_openList_iff]
    constructor
    · rintro ⟨j, m, hm, hmulti, hk, rfl⟩
      obtain ⟨i, rfl⟩ := h.exists_label j m hm hmulti
      obtain ⟨l, hl, hsame⟩ := h.label_of_some hm
      rw [hsame.isMultiline_eq] at hmulti
      rw [hkeep i l m hsame] at hk
      exact ⟨p.entry i l, ⟨i, l, hl, hmulti, hk, rfl⟩, (hentry i l m hsame).symm⟩
    · rintro ⟨_, ⟨i, l, hl, hmulti, hk, rfl⟩, rfl⟩
      obtain ⟨m, hm, hsame⟩ := h.some_of_label hl
      exact ⟨r.label i, m, hm, by rw [hsame.isMultiline_eq, hmulti],
        by rw [hkeep i l m hsame, hk], (hentry i l m hsame).symm⟩

theorem Relabels.openBy_eq (line : Nat) :
    q.openBy (r.line line) = (p.openBy line).map (OpenLabel.rename r) := by
  apply h.openList_eq
  intro i l l' hsame
  simp only [hsame.startLine_eq, hsame.endLine_eq, r.line_strictMono.lt_iff_lt,
    r.line_strictMono.le_iff_le]

theorem Relabels.openOn_eq (line : Nat) :
    q.openOn (r.line line) = (p.openOn line).map (OpenLabel.rename r) := by
  apply h.openList_eq
  intro i l l' hsame
  simp only [hsame.startLine_eq, hsame.endLine_eq, r.line_strictMono.le_iff_le]

theorem Relabels.openPast_eq (line : Nat) :
    q.openPast (r.line line) = (p.openPast line).map (OpenLabel.rename r) := by
  apply h.openList_eq
  intro i l l' hsame
  simp only [hsame.startLine_eq, hsame.endLine_eq, r.line_strictMono.lt_iff_lt,
    r.line_strictMono.le_iff_le]

theorem Relabels.messageOf_eq (i : Nat) : q.messageOf (r.label i) = p.messageOf i := by
  rcases h.labels_cases i with ⟨hp, hq⟩ | ⟨l, l', hp, hq, hsame⟩
  · rw [messageOf, messageOf, hp, hq]
  · rw [messageOf, messageOf, hp, hq]
    exact hsame.message_eq

end Placement

end Callout
