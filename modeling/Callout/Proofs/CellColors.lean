import Callout.Proofs.BlockRows
import Callout.Proofs.MarginColumns

namespace Callout

section Margin

variable {width column : Nat} {active : List OpenLabel} {entry : OpenLabel} {glyph : Glyph}
  {color : Color}

theorem Cell.drawn_inj {glyph' : Glyph} {color' : Color} :
    drawn glyph color = drawn glyph' color' ↔ glyph = glyph' ∧ color = color' := by
  simp [drawn]

theorem connectorAt_eq_some {e : OpenLabel} (h : connectorAt active column = some e) :
    e ∈ active ∧ 2 * e.slot = column := by
  have hslot := List.find?_some h
  exact ⟨List.mem_of_find?_eq_some h, eq_of_beq hslot⟩

theorem marginCell_eq_drawn (h : marginCell active column = .drawn glyph color) :
    glyph = .vbar ∧ ∃ e ∈ active, 2 * e.slot = column ∧ color = e.color := by
  unfold marginCell at h
  split at h
  next e hfound =>
    obtain ⟨he, hslot⟩ := connectorAt_eq_some hfound
    obtain ⟨rfl, rfl⟩ := Cell.drawn_inj.mp h
    exact ⟨rfl, e, he, hslot, rfl⟩
  next => exact absurd h.symm (Cell.drawn_ne_blank glyph color)

theorem closingCell_eq_drawn (h : closingCell width active entry column = .drawn glyph color) :
    (glyph = .lbot ∧ column = 2 * entry.slot ∧ color = entry.color) ∨
      ((glyph = .vbar ∨ glyph = .xbar) ∧ ∃ e ∈ active, 2 * e.slot = column ∧ color = e.color) ∨
      (glyph = .hbar ∧ 2 * entry.slot < column ∧ color = entry.color) := by
  unfold closingCell at h
  split at h
  next hcolumn =>
    obtain ⟨rfl, rfl⟩ := Cell.drawn_inj.mp h
    exact .inl ⟨rfl, hcolumn, rfl⟩
  next hcolumn =>
    split at h
    next =>
      obtain ⟨hglyph, howner⟩ := marginCell_eq_drawn h
      exact .inr (.inl ⟨.inl hglyph, howner⟩)
    next =>
      split at h
      next e hfound =>
        obtain ⟨he, hslot⟩ := connectorAt_eq_some hfound
        obtain ⟨rfl, rfl⟩ := Cell.drawn_inj.mp h
        exact .inr (.inl ⟨.inr rfl, e, he, hslot, rfl⟩)
      next =>
        obtain ⟨rfl, rfl⟩ := Cell.drawn_inj.mp h
        exact .inr (.inr ⟨rfl, by omega, rfl⟩)

/-- A fold that picks one of two each time ends with one of those that it was given. -/
theorem foldl_pick_mem {α : Type} {pick : α → α → α} (h : ∀ a b, pick a b = a ∨ pick a b = b)
    (first : α) (xs : List α) : xs.foldl pick first ∈ first :: xs := by
  induction xs generalizing first with
  | nil => exact List.mem_singleton_self first
  | cons x xs ih =>
    rw [List.foldl_cons]
    rcases List.mem_cons.mp (ih (pick first x)) with heq | hmem
    · rw [heq]
      rcases h first x with hfirst | hx
      · rw [hfirst]
        exact List.mem_cons_self
      · rw [hx]
        exact List.mem_cons_of_mem _ List.mem_cons_self
    · exact List.mem_cons_of_mem _ (List.mem_cons_of_mem _ hmem)

theorem leftmost_mem (first : Joint) (rest : List Joint) : leftmost first rest ∈ first :: rest :=
  foldl_pick_mem (fun a b => by split <;> simp) first rest

variable {joints : List Joint} {first : Joint}

/-- The last joint at or before a column is the one with the greatest slot there. -/
theorem jointBefore_spec (column : Nat) (hfirst : first ∈ joints) (hle : 2 * first.slot ≤ column) :
    jointBefore first joints column ∈ joints ∧ 2 * (jointBefore first joints column).slot ≤ column ∧
      ∀ k ∈ joints, 2 * k.slot ≤ column → k.slot ≤ (jointBefore first joints column).slot := by
  have hgreatest : ∀ (xs : List Joint) (best : Joint), ∀ k ∈ best :: xs,
      k.slot ≤ (xs.foldl (fun best j => if best.slot < j.slot then j else best) best).slot := by
    intro xs
    induction xs with
    | nil =>
      intro best k hk
      rw [List.mem_singleton.mp hk]
      exact Nat.le_refl _
    | cons j xs ih =>
      intro best k hk
      have hnext := ih (if best.slot < j.slot then j else best)
      have hbest := hnext _ List.mem_cons_self
      have hstep : best.slot ≤ (if best.slot < j.slot then j else best).slot ∧
          j.slot ≤ (if best.slot < j.slot then j else best).slot := by
        split <;> omega
      rw [List.foldl_cons]
      rcases List.mem_cons.mp hk with rfl | hk
      · omega
      rcases List.mem_cons.mp hk with rfl | hk
      · omega
      · exact hnext k (List.mem_cons_of_mem _ hk)
  have hmem : jointBefore first joints column ∈
      first :: joints.filter fun j => 2 * j.slot ≤ column :=
    foldl_pick_mem (fun a b => by split <;> simp) first _
  have hfound : ∀ k ∈ first :: joints.filter fun j => 2 * j.slot ≤ column,
      k ∈ joints ∧ 2 * k.slot ≤ column := by
    intro k hk
    rcases List.mem_cons.mp hk with rfl | hk
    · exact ⟨hfirst, hle⟩
    · obtain ⟨hk, hcolumn⟩ := List.mem_filter.mp hk
      exact ⟨hk, of_decide_eq_true hcolumn⟩
  obtain ⟨hjoint, hbefore⟩ := hfound _ hmem
  refine ⟨hjoint, hbefore, fun k hk hcolumn => ?_⟩
  exact hgreatest _ first k
    (List.mem_cons_of_mem _ (List.mem_filter.mpr ⟨hk, decide_eq_true hcolumn⟩))

/-- What is drawn beside the code of a line: the joints, the connectors that pass, and between the
joints and the arrow a bar in the color of the joint before it. -/
theorem codeCell_eq_drawn (hactive : ∀ e ∈ active, 2 * e.slot + 2 < width)
    (hjoints : ∀ j ∈ joints, 2 * j.slot + 2 < width)
    (h : codeCell width active joints column = .drawn glyph color) :
    (∃ j ∈ joints, 2 * j.slot = column ∧ glyph = j.glyph ∧ color = j.color) ∨
      ((glyph = .vbar ∨ glyph = .xbar) ∧
        ∃ e ∈ active, 2 * e.slot = column ∧ (∀ j ∈ joints, j.slot ≠ e.slot) ∧ color = e.color) ∨
      ((glyph = .hbar ∨ glyph = .rarrow) ∧ ∃ j ∈ joints, 2 * j.slot ≤ column ∧
        (∀ k ∈ joints, 2 * k.slot ≤ column → k.slot ≤ j.slot) ∧ color = j.color) := by
  cases joints with
  | nil =>
    obtain ⟨hglyph, e, he, hslot, hcolor⟩ := marginCell_eq_drawn h
    exact .inr (.inl ⟨.inl hglyph, e, he, hslot, by simp, hcolor⟩)
  | cons j rest =>
    have hfirst := leftmost_mem j rest
    have hleft := hjoints _ hfirst
    rw [codeCell, jointCell] at h
    split at h
    next harrow =>
      obtain ⟨rfl, rfl⟩ := Cell.drawn_inj.mp h
      obtain ⟨hmem, _, hgreatest⟩ := jointBefore_spec (width - 3) hfirst (by omega)
      have hslot := hjoints _ hmem
      refine .inr (.inr ⟨.inr rfl, _, hmem, by omega, fun k hk _ => ?_, rfl⟩)
      have := hjoints k hk
      exact hgreatest k hk (by omega)
    next =>
      split at h
      next houtside =>
        obtain ⟨hglyph, e, he, hslot, hcolor⟩ := marginCell_eq_drawn h
        refine .inr (.inl ⟨.inl hglyph, e, he, hslot, fun k hk heq => ?_, hcolor⟩)
        have hle := leftmost_le hk
        have := hactive e he
        omega
      next hinside =>
        split at h
        next k hfound =>
          obtain ⟨rfl, rfl⟩ := Cell.drawn_inj.mp h
          have hslot := List.find?_some hfound
          exact .inl ⟨k, List.mem_of_find?_eq_some hfound, eq_of_beq hslot, rfl, rfl⟩
        next hnone =>
          split at h
          next e hfound =>
            obtain ⟨he, hslot⟩ := connectorAt_eq_some hfound
            obtain ⟨rfl, rfl⟩ := Cell.drawn_inj.mp h
            refine .inr (.inl ⟨.inr rfl, e, he, hslot, fun k hk heq => ?_, rfl⟩)
            exact List.find?_eq_none.mp hnone k hk (beq_iff_eq.mpr (by omega))
          next =>
            obtain ⟨rfl, rfl⟩ := Cell.drawn_inj.mp h
            obtain ⟨hmem, hbefore, hgreatest⟩ := jointBefore_spec column hfirst (by omega)
            exact .inr (.inr ⟨.inl rfl, _, hmem, hbefore, hgreatest, rfl⟩)

end Margin

section Pointer

variable {c : Nat} {row row' : List Cell} {cell : Cell}

theorem putCell_cases {column : Nat} {put : Cell} (h : putCell row column put = .ok row')
    (hc : row'[c]? = some cell) : c = column ∧ cell = put ∨ c ≠ column ∧ row[c]? = some cell := by
  unfold putCell at h
  split at h
  next hlt =>
    cases h
    by_cases hcolumn : c = column
    · subst hcolumn
      rw [List.getElem?_set_self hlt, Option.some_inj] at hc
      exact .inl ⟨rfl, hc.symm⟩
    · rw [List.getElem?_set_ne (Ne.symm hcolumn)] at hc
      exact .inr ⟨hcolumn, hc⟩
  next => cases h

theorem getElem?_widen {n : Nat} (h : (widen n row)[c]? = some cell) (hcell : cell ≠ .blank) :
    row[c]? = some cell := by
  rcases Nat.lt_or_ge c row.length with hlt | hge
  · rwa [widen, List.getElem?_append_left hlt] at h
  · rw [widen, List.getElem?_append_right hge] at h
    exact absurd (List.eq_of_mem_replicate (List.mem_of_getElem? h)) hcell

/-- After cells are painted one after the other, a column shows one of them or what it showed before. -/
theorem foldlM_painted {β : Type} {f : List Cell → β → Except Error (List Cell)}
    (covers : β → Nat → Prop) (paint : β → Cell) {xs : List β}
    (step : ∀ x ∈ xs, ∀ row row', f row x = .ok row' → row'[c]? = some cell →
      covers x c ∧ cell = paint x ∨ row[c]? = some cell)
    (h : xs.foldlM f row = .ok row') (hc : row'[c]? = some cell) :
    (∃ x ∈ xs, covers x c ∧ cell = paint x) ∨ row[c]? = some cell := by
  induction xs generalizing row with
  | nil =>
    cases h
    exact .inr hc
  | cons x xs ih =>
    rw [List.foldlM_cons] at h
    obtain ⟨next, hnext, h⟩ := bind_eq_ok_iff.mp h
    rcases ih (fun y hy => step y (List.mem_cons_of_mem _ hy)) h with ⟨y, hy, hpaint⟩ | hkept
    · exact .inl ⟨y, List.mem_cons_of_mem _ hy, hpaint⟩
    · exact (step x List.mem_cons_self row next hnext hkept).imp
        (fun hpaint => ⟨x, List.mem_cons_self, hpaint⟩) id

/-- When cells are painted over one another, a column shows the last that was painted there. -/
theorem foldlM_last {β : Type} {f : List Cell → β → Except Error (List Cell)}
    (covers : β → Nat → Prop) (paint : β → Cell) {xs : List β}
    (step : ∀ x ∈ xs, ∀ row row', f row x = .ok row' → row'[c]? = some cell →
      covers x c ∧ cell = paint x ∨ ¬covers x c ∧ row[c]? = some cell)
    (h : xs.foldlM f row = .ok row') (hc : row'[c]? = some cell) :
    (∃ front x back, xs = front ++ x :: back ∧ covers x c ∧ (∀ y ∈ back, ¬covers y c) ∧
      cell = paint x) ∨ (∀ x ∈ xs, ¬covers x c) ∧ row[c]? = some cell := by
  induction xs generalizing row with
  | nil =>
    cases h
    exact .inr ⟨by simp, hc⟩
  | cons x xs ih =>
    rw [List.foldlM_cons] at h
    obtain ⟨next, hnext, h⟩ := bind_eq_ok_iff.mp h
    rcases ih (fun y hy => step y (List.mem_cons_of_mem _ hy)) h with
      ⟨front, y, back, rfl, hlast⟩ | ⟨hrest, hkept⟩
    · exact .inl ⟨x :: front, y, back, rfl, hlast⟩
    · rcases step x List.mem_cons_self row next hnext hkept with ⟨hcovers, hpaint⟩ | ⟨hnot, hkept⟩
      · exact .inl ⟨[], x, xs, rfl, hcovers, hrest, hpaint⟩
      · refine .inr ⟨fun y hy => ?_, hkept⟩
        rcases List.mem_cons.mp hy with rfl | hy
        · exact hnot
        · exact hrest y hy

/-- Whether a target is underlined in a column. -/
def Target.Covers (t : Target) (c : Nat) : Prop :=
  t.startColumn ≤ c ∧ c < t.endColumn

theorem drawUnderline_cases {t : Target} (h : drawUnderline row t = .ok row')
    (hc : row'[c]? = some cell) (hcell : cell ≠ .blank) :
    t.Covers c ∧ cell = .drawn .underline t.label.color ∨ ¬t.Covers c ∧ row[c]? = some cell := by
  have hcolumn : c ∈ List.range' t.startColumn (t.endColumn - t.startColumn) ↔ t.Covers c := by
    rw [List.mem_range'_1, Target.Covers]
    omega
  rcases foldlM_last (fun column c => c = column) (fun _ => .drawn .underline t.label.color)
      (fun column _ row row' hput hc => putCell_cases hput hc) h hc with
    ⟨front, column, back, hsplit, rfl, _, rfl⟩ | ⟨hnot, hkept⟩
  · exact .inl ⟨hcolumn.mp (by rw [hsplit]; simp), rfl⟩
  · exact .inr ⟨fun hcovers => hnot c (hcolumn.mpr hcovers) rfl, getElem?_widen hkept hcell⟩

/-- Whether a target comes before another where both could be underlined: the shorter one, and of
equally long ones the one of the earlier label. -/
def Target.IsInner (t u : Target) : Prop :=
  t.span.length < u.span.length ∨ t.span.length = u.span.length ∧ t.index ≤ u.index

theorem drawnBefore_iff {t u : Target} : u.drawnBefore t = true ↔ t.IsInner u := by
  simp only [Target.drawnBefore, Target.IsInner, Bool.or_eq_true, Bool.and_eq_true, decide_eq_true_eq,
    beq_iff_eq]
  omega

theorem pairwise_drawnBefore (targets : List Target) :
    (targets.mergeSort Target.drawnBefore).Pairwise fun u t => t.IsInner u := by
  have htrans : ∀ a b c : Target, a.drawnBefore b = true → b.drawnBefore c = true →
      a.drawnBefore c = true := by
    intro a b c
    simp only [drawnBefore_iff, Target.IsInner]
    omega
  have htotal : ∀ a b : Target, (a.drawnBefore b || b.drawnBefore a) = true := by
    intro a b
    rw [Bool.or_eq_true, drawnBefore_iff, drawnBefore_iff, Target.IsInner, Target.IsInner]
    omega
  exact (List.pairwise_mergeSort htrans htotal targets).imp drawnBefore_iff.mp

/-- What stands below the code: the anchors of the messages, and elsewhere underlines, each in the color
of the innermost of the targets above it. -/
theorem underlineCells_cases {underlines : Bool} {targets : List Target} {anchors : List Anchor}
    (h : underlineCells underlines targets anchors = .ok row) (hc : row[c]? = some cell)
    (hcell : cell ≠ .blank) :
    (∃ a ∈ anchors, a.column = c ∧ cell = .drawn .underbar a.target.label.color) ∨
      ∃ t ∈ targets, t.Covers c ∧ (∀ u ∈ targets, u.Covers c → t.IsInner u) ∧
        cell = .drawn .underline t.label.color := by
  have hempty : ¬(widen (lastColumn anchors + 1) [])[c]? = some cell := by
    intro hblank
    cases getElem?_widen hblank hcell
  have hlined : ∃ lined, drawAnchors lined anchors = .ok row ∧ (lined[c]? = some cell →
      ∃ t ∈ targets, t.Covers c ∧ (∀ u ∈ targets, u.Covers c → t.IsInner u) ∧
        cell = .drawn .underline t.label.color) := by
    cases underlines with
    | false => exact ⟨_, h, fun hblank => absurd hblank hempty⟩
    | true =>
      rw [underlineCells, if_pos rfl] at h
      obtain ⟨lined, hlined, h⟩ := bind_eq_ok_iff.mp h
      refine ⟨lined, h, fun hc => ?_⟩
      rcases foldlM_last Target.Covers (fun t => .drawn .underline t.label.color)
          (fun t _ row row' hdraw hc => drawUnderline_cases hdraw hc hcell) hlined hc with
        ⟨front, t, back, hsplit, hcovers, hlast, hpaint⟩ | ⟨_, hkept⟩
      · have hmem : ∀ u, u ∈ targets ↔ u ∈ front ++ t :: back := by
          intro u
          rw [← hsplit, List.mem_mergeSort]
        have hsorted := pairwise_drawnBefore targets
        rw [hsplit, List.pairwise_append] at hsorted
        refine ⟨t, (hmem t).mpr (by simp), hcovers, fun u hu hcu => ?_, hpaint⟩
        rcases List.mem_append.mp ((hmem u).mp hu) with hfront | hback
        · exact hsorted.2.2 u hfront t List.mem_cons_self
        rcases List.mem_cons.mp hback with rfl | hback
        · exact .inr ⟨rfl, Nat.le_refl _⟩
        · exact absurd hcu (hlast u hback)
      · exact absurd hkept hempty
  obtain ⟨lined, hanchors, hlined⟩ := hlined
  rcases foldlM_painted (fun (a : Anchor) c => c = a.column)
      (fun a => .drawn .underbar a.target.label.color)
      (fun a _ row row' hput hc => (putCell_cases hput hc).imp id And.right) hanchors hc with
    ⟨a, ha, hcolumn, hpaint⟩ | hkept
  · exact .inl ⟨a, ha, hcolumn.symm, hpaint⟩
  · exact .inr (hlined hkept)

/-- A connector is drawn in columns that are free. -/
theorem drawStretch_cases {color : Color} {column : Nat} (h : drawStretch color row column = .ok row')
    (hc : row'[c]? = some cell) : c = column ∧ cell = .drawn .hbar color ∨ row[c]? = some cell := by
  unfold drawStretch at h
  split at h
  next => exact (putCell_cases h hc).imp id And.right
  next =>
    split at h
    next =>
      cases h
      exact .inr hc
    next => cases h

/-- What is drawn before a message: the messages that are still to come, and the connector of this
one. -/
theorem messageCells_eq_drawn {anchor : Anchor} {waiting : List Anchor} {cells : List Cell}
    {glyph : Glyph} {color : Color} (h : messageCells anchor waiting = .ok cells)
    (hc : cells[c]? = some (.drawn glyph color)) :
    (glyph = .vbar ∧ ∃ w ∈ waiting, w.column = c ∧ color = w.target.label.color) ∨
      (glyph = .lbot ∧ c = anchor.column ∧ color = anchor.target.label.color) ∨
      (glyph = .hbar ∧ anchor.column < c ∧ color = anchor.target.label.color) := by
  obtain ⟨barred, hbarred, h⟩ := bind_eq_ok_iff.mp h
  obtain ⟨turned, hturned, h⟩ := bind_eq_ok_iff.mp h
  obtain ⟨row, hrow, h⟩ := bind_eq_ok_iff.mp h
  cases h
  have hmessage : row[c]? = some (.drawn glyph color) := by
    rcases Nat.lt_or_ge c row.length with hlt | hge
    · rwa [List.getElem?_append_left hlt] at hc
    · rw [List.getElem?_append_right hge] at hc
      rcases List.mem_cons.mp (List.mem_of_getElem? hc) with hblank | htext
      · exact absurd hblank (Cell.drawn_ne_blank glyph color)
      · obtain ⟨_, _, heq⟩ := List.mem_map.mp htext
        cases heq
  rcases foldlM_painted (fun column c => c = column) (fun _ => .drawn .hbar anchor.target.label.color)
      (fun column _ row row' hdraw hc => drawStretch_cases hdraw hc) hrow hmessage with
    ⟨column, hcolumn, rfl, hpaint⟩ | hkept
  · obtain ⟨rfl, rfl⟩ := Cell.drawn_inj.mp hpaint
    have := List.mem_range'_1.mp hcolumn
    exact .inr (.inr ⟨rfl, by omega, rfl⟩)
  rcases putCell_cases hturned hkept with ⟨hcolumn, hpaint⟩ | ⟨_, hkept⟩
  · obtain ⟨rfl, rfl⟩ := Cell.drawn_inj.mp hpaint
    exact .inr (.inl ⟨rfl, hcolumn, rfl⟩)
  rcases foldlM_painted (fun (w : Anchor) c => c = w.column)
      (fun w => .drawn .vbar w.target.label.color)
      (fun w _ row row' hput hc => (putCell_cases hput hc).imp id And.right) hbarred hkept with
    ⟨w, hw, hcolumn, hpaint⟩ | hkept
  · obtain ⟨rfl, rfl⟩ := Cell.drawn_inj.mp hpaint
    exact .inl ⟨rfl, w, hw, hcolumn.symm, rfl⟩
  · cases getElem?_widen hkept (Cell.drawn_ne_blank glyph color)

/-- Every message hangs from a column of its own. -/
theorem anchorFrom_columns_nodup (attach : Attach) (taken : List Nat) (targets : List Target) :
    ((anchorFrom attach taken targets).map Anchor.column).Nodup ∧
      ∀ a ∈ anchorFrom attach taken targets, a.column ∉ taken := by
  induction targets generalizing taken with
  | nil => simp [anchorFrom]
  | cons t rest ih =>
    rw [anchorFrom]
    obtain ⟨hnodup, hfree⟩ := ih (leastFree taken (t.attachment attach) :: taken)
    have hown := leastFree_not_mem taken (t.attachment attach)
    constructor
    · rw [List.map_cons, List.nodup_cons]
      refine ⟨fun hmem => ?_, hnodup⟩
      obtain ⟨a, ha, hcolumn⟩ := List.mem_map.mp hmem
      exact hfree a ha (by rw [hcolumn]; exact List.mem_cons_self)
    · intro a ha
      rcases List.mem_cons.mp ha with rfl | ha
      · exact hown
      · exact fun hmem => hfree a ha (List.mem_cons_of_mem _ hmem)

theorem anchors_columns_nodup (attach : Attach) (targets : List Target) :
    ((anchors attach targets).map Anchor.column).Nodup :=
  (anchorFrom_columns_nodup attach [] _).1

end Pointer

end Callout
