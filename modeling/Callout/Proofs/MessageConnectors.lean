import Callout.Proofs.UnderlinedCharacters

namespace Callout

/-- How the row of a message hangs from its anchor while others wait, with a connector that ends in the
column `stop`. Columns are counted from the end of the margin. -/
structure Anchor.HangsIn (a : Anchor) (waiting : List Anchor) (width : Nat) (cells : List Cell)
    (stop : Nat) : Prop where
  turns : cellAt cells (width + a.column) = .drawn .lbot a.target.label.color
  waits : ∀ w ∈ waiting, cellAt cells (width + w.column) = .drawn .vbar w.target.label.color
  runs : ∀ c, a.column < c → c ≤ stop → (∀ w ∈ waiting, w.column ≠ c) →
    cellAt cells (width + c) = .drawn .hbar a.target.label.color
  blank : ∀ c < a.column, (∀ w ∈ waiting, w.column ≠ c) → cellAt cells (width + c) = .blank
  room : a.column + 2 ≤ stop
  past : ∀ w ∈ waiting, w.column < stop
  parted : cellAt cells (width + (stop + 1)) = .blank
  message : ∀ k, cellAt cells (width + (stop + 2 + k)) =
    cellAt (Cell.plain a.target.label.message) k

/-- The rows below the code of a line: one with a bar below each label, and then one for each message in
the order in which they are drawn. Above its own row, the anchor of a message shows a bar. -/
structure MessagesHang (width line : Nat) (order : List Anchor) (under : Row) (messages : List Row) :
    Prop where
  under_role : under.role = .underlines line
  underbars : ∀ a ∈ order,
    cellAt under.body (width + a.column) = .drawn .underbar a.target.label.color
  length_eq : messages.length = order.length
  hangs : ∀ drawn a waiting, order = drawn ++ a :: waiting →
    ∃ above row below stop, messages = above ++ row :: below ∧ above.length = drawn.length ∧
      row.role = .message line a.target.index ∧ a.HangsIn waiting width row.body stop ∧
      ∀ r ∈ above, cellAt r.body (width + a.column) = .drawn .vbar a.target.label.color

section Cells

variable {β : Type} {row row' : List Cell} {column c : Nat} {color : Color}

theorem cellAt_append_left (more : List Cell) (h : c < row.length) :
    cellAt (row ++ more) c = cellAt row c := by
  rw [cellAt, List.getElem?_append_left h, cellAt]

theorem cellAt_widen_nil (n c : Nat) : cellAt (widen n []) c = .blank :=
  cellAt_append_blanks [] _ c

theorem cellAt_putCell {cell : Cell} (h : putCell row column cell = .ok row') (c : Nat) :
    cellAt row' c = if c = column then cell else cellAt row c := by
  unfold putCell at h
  split at h
  next hlt =>
    cases h
    split
    next hcolumn => rw [hcolumn, cellAt, List.getElem?_set_self hlt, Option.getD_some]
    next hcolumn => rw [cellAt, List.getElem?_set_ne (Ne.symm hcolumn), cellAt]
  next => cases h

theorem length_putCell {cell : Cell} (h : putCell row column cell = .ok row') :
    row'.length = row.length := by
  unfold putCell at h
  split at h
  next =>
    cases h
    exact List.length_set
  next => cases h

/-- A stretch of a connector is drawn only where nothing stands. -/
theorem cellAt_drawStretch (h : drawStretch color row column = .ok row') (c : Nat) :
    cellAt row' c = if c = column ∧ cellAt row c = .blank then .drawn .hbar color
      else cellAt row c := by
  unfold drawStretch at h
  split at h
  next hblank =>
    rw [cellAt_putCell h c]
    by_cases hcolumn : c = column
    · rw [if_pos hcolumn, if_pos ⟨hcolumn, hcolumn ▸ cellAt_of_getElem? hblank⟩]
    · rw [if_neg hcolumn, if_neg fun hboth => hcolumn hboth.1]
  next hstands =>
    split at h
    next hlt =>
      cases h
      refine (if_neg ?_).symm
      rintro ⟨rfl, hblank⟩
      rw [cellAt, List.getElem?_eq_getElem hlt, Option.getD_some] at hblank
      exact hstands (List.getElem?_eq_some_iff.mpr ⟨hlt, hblank⟩)
    next => cases h

theorem length_drawStretch (h : drawStretch color row column = .ok row') :
    row'.length = row.length := by
  unfold drawStretch at h
  split at h
  next => exact length_putCell h
  next =>
    split at h
    next =>
      cases h
      rfl
    next => cases h

theorem foldlM_length {f : List Cell → β → Except Error (List Cell)} {xs : List β}
    (step : ∀ row x row', f row x = .ok row' → row'.length = row.length)
    (h : xs.foldlM f row = .ok row') : row'.length = row.length := by
  induction xs generalizing row with
  | nil =>
    cases h
    rfl
  | cons x xs ih =>
    obtain ⟨next, hnext, h⟩ := bind_eq_ok_iff.mp h
    exact (ih h).trans (step row x next hnext)

/-- Cells that are put in columns of their own all stay, and no other column changes. -/
theorem cellAt_foldlM_put (place : β → Nat) (paint : β → Cell) {xs : List β}
    (hnodup : (xs.map place).Nodup)
    (h : xs.foldlM (fun row x => putCell row (place x) (paint x)) row = .ok row') :
    (∀ x ∈ xs, cellAt row' (place x) = paint x) ∧
      ∀ c, (∀ x ∈ xs, place x ≠ c) → cellAt row' c = cellAt row c := by
  induction xs generalizing row with
  | nil =>
    cases h
    exact ⟨by simp, fun c _ => rfl⟩
  | cons x xs ih =>
    obtain ⟨next, hnext, h⟩ := bind_eq_ok_iff.mp h
    obtain ⟨hx, hnodup⟩ := List.nodup_cons.mp hnodup
    obtain ⟨hput, hkept⟩ := ih hnodup h
    have hafter : ∀ y ∈ xs, place y ≠ place x :=
      fun y hy heq => hx (List.mem_map.mpr ⟨y, hy, heq⟩)
    refine ⟨fun y hy => ?_, fun c hc => ?_⟩
    · rcases List.mem_cons.mp hy with rfl | hy
      · rw [hkept _ hafter, cellAt_putCell hnext, if_pos rfl]
      · exact hput y hy
    · rw [hkept c fun y hy => hc y (List.mem_cons_of_mem x hy), cellAt_putCell hnext,
        if_neg (Ne.symm (hc x List.mem_cons_self))]

theorem cellAt_foldlM_stretch {columns : List Nat}
    (h : columns.foldlM (drawStretch color) row = .ok row') (c : Nat) :
    cellAt row' c = if c ∈ columns ∧ cellAt row c = .blank then .drawn .hbar color
      else cellAt row c := by
  induction columns generalizing row with
  | nil =>
    cases h
    simp
  | cons column columns ih =>
    obtain ⟨next, hnext, h⟩ := bind_eq_ok_iff.mp h
    rw [ih h, cellAt_drawStretch hnext c]
    by_cases hhere : c = column ∧ cellAt row c = .blank
    · rw [if_pos hhere, if_neg fun hboth => Cell.drawn_ne_blank _ _ hboth.2,
        if_pos ⟨hhere.1 ▸ List.mem_cons_self, hhere.2⟩]
    · have hlater : c ∈ columns ∧ cellAt row c = .blank ↔
          c ∈ column :: columns ∧ cellAt row c = .blank := by
        rw [List.mem_cons]
        tauto
      rw [if_neg hhere]
      simp only [hlater]

end Cells

section Messages

variable {a b w : Anchor} {waiting drawn : List Anchor} {cells : List Cell} {line : Nat}

/-- The row of a message up to its text, column by column. -/
theorem messageCells_cells (h : messageCells a waiting = .ok cells)
    (hnodup : ((a :: waiting).map Anchor.column).Nodup) :
    ∃ row, cells = row ++ .blank :: Cell.plain a.target.label.message ∧
      row.length = connectorStop a waiting + 1 ∧
      cellAt row a.column = .drawn .lbot a.target.label.color ∧
      (∀ w ∈ waiting, cellAt row w.column = .drawn .vbar w.target.label.color) ∧
      ∀ c ≠ a.column, (∀ w ∈ waiting, w.column ≠ c) → cellAt row c =
        if a.column < c ∧ c ≤ connectorStop a waiting then .drawn .hbar a.target.label.color
        else .blank := by
  obtain ⟨barred, hbarred, h⟩ := bind_eq_ok_iff.mp h
  obtain ⟨turned, hturned, h⟩ := bind_eq_ok_iff.mp h
  obtain ⟨row, hrow, h⟩ := bind_eq_ok_iff.mp h
  cases h
  obtain ⟨hown, hnodup⟩ := List.nodup_cons.mp hnodup
  have hapart : ∀ w ∈ waiting, w.column ≠ a.column :=
    fun w hw heq => hown (List.mem_map.mpr ⟨w, hw, heq⟩)
  obtain ⟨hbars, hrest⟩ := cellAt_foldlM_put Anchor.column
    (fun w => .drawn .vbar w.target.label.color) hnodup hbarred
  have hbefore := cellAt_putCell hturned
  have hafter := cellAt_foldlM_stretch hrow
  have hstays : ∀ c, cellAt turned c ≠ .blank → cellAt row c = cellAt turned c :=
    fun c hc => (hafter c).trans (if_neg fun hboth => hc hboth.2)
  have hturn : cellAt turned a.column = .drawn .lbot a.target.label.color := by
    rw [hbefore, if_pos rfl]
  have hbar : ∀ w ∈ waiting, cellAt turned w.column = .drawn .vbar w.target.label.color := by
    intro w hw
    rw [hbefore, if_neg (hapart w hw), hbars w hw]
  refine ⟨row, rfl, ?_, ?_, fun w hw => ?_, fun c hc hfree => ?_⟩
  · rw [foldlM_length (fun _ _ _ => length_drawStretch) hrow, length_putCell hturned,
      foldlM_length (fun _ _ _ => length_putCell) hbarred, widen]
    simp
  · rw [hstays _ (by rw [hturn]; exact Cell.drawn_ne_blank _ _), hturn]
  · rw [hstays _ (by rw [hbar w hw]; exact Cell.drawn_ne_blank _ _), hbar w hw]
  · have hempty : cellAt turned c = .blank := by
      rw [hbefore, if_neg hc, hrest c hfree, cellAt_widen_nil]
    have hcolumns : c ∈ List.range' (a.column + 1) (connectorStop a waiting - a.column) ↔
        a.column < c ∧ c ≤ connectorStop a waiting := by
      have := lt_connectorStop a waiting
      rw [List.mem_range'_1]
      omega
    rw [hafter, hempty]
    simp only [hcolumns, and_true]

theorem hangsIn_of_messageCells {width : Nat} {lead : List Cell} (hlead : lead.length = width)
    (h : messageCells a waiting = .ok cells) (hnodup : ((a :: waiting).map Anchor.column).Nodup) :
    a.HangsIn waiting width (trimBlanks (lead ++ cells)) (connectorStop a waiting) := by
  obtain ⟨shown, rfl, hlength, hturn, hbars, hothers⟩ := messageCells_cells h hnodup
  generalize hbody : trimBlanks (lead ++ (shown ++ .blank :: Cell.plain a.target.label.message)) =
    body
  have hat : ∀ c, cellAt body (width + c) =
      cellAt (shown ++ .blank :: Cell.plain a.target.label.message) c := by
    intro c
    rw [← hbody, cellAt_trimBlanks, ← hlead, cellAt_append]
  have hinside : ∀ c ≤ connectorStop a waiting, cellAt body (width + c) = cellAt shown c :=
    fun c hc => (hat c).trans (cellAt_append_left _ (by omega))
  have hbehind : ∀ k, cellAt body (width + (connectorStop a waiting + 1 + k)) =
      cellAt (.blank :: Cell.plain a.target.label.message) k := by
    intro k
    rw [hat, ← hlength, cellAt_append]
  have hanchor := lt_connectorStop a waiting
  refine ⟨?_, fun w hw => ?_, fun c hlt hle hfree => ?_, fun c hlt hfree => ?_,
    le_foldr_max (.inl rfl), fun w hw => waiting_lt_connectorStop hw, hbehind 0, fun k => ?_⟩
  · rw [hinside _ (Nat.le_of_lt hanchor), hturn]
  · rw [hinside _ (Nat.le_of_lt (waiting_lt_connectorStop hw)), hbars w hw]
  · rw [hinside c hle, hothers c (Nat.ne_of_gt hlt) hfree, if_pos ⟨hlt, hle⟩]
  · rw [hinside c (by omega), hothers c (Nat.ne_of_lt hlt) hfree, if_neg (by omega)]
  · rw [show connectorStop a waiting + 2 + k = connectorStop a waiting + 1 + (k + 1) by omega,
      hbehind]
    rfl

/-- The row of a message stands below those of the messages drawn before, which all waited for it. -/
theorem messageRows_split {rows : List (Anchor × List Cell)}
    (h : messageRows (drawn ++ a :: waiting) = .ok rows) :
    ∃ above cells below, rows = above ++ (a, cells) :: below ∧ above.length = drawn.length ∧
      messageCells a waiting = .ok cells ∧ ∀ m ∈ above, ∃ front back,
        drawn = front ++ m.1 :: back ∧ messageCells m.1 (back ++ a :: waiting) = .ok m.2 := by
  induction drawn generalizing rows with
  | nil =>
    obtain ⟨cells, hcells, h⟩ := bind_eq_ok_iff.mp h
    obtain ⟨below, _, h⟩ := bind_eq_ok_iff.mp h
    cases h
    exact ⟨[], cells, below, rfl, rfl, hcells, by simp⟩
  | cons b drawn ih =>
    obtain ⟨first, hfirst, h⟩ := bind_eq_ok_iff.mp h
    obtain ⟨more, hmore, h⟩ := bind_eq_ok_iff.mp h
    cases h
    obtain ⟨above, cells, below, rfl, hlength, hcells, habove⟩ := ih hmore
    refine ⟨(b, first) :: above, cells, below, rfl, by simp [hlength], hcells, fun m hm => ?_⟩
    rcases List.mem_cons.mp hm with rfl | hm
    · exact ⟨[], drawn, rfl, hfirst⟩
    · obtain ⟨front, back, rfl, hm⟩ := habove m hm
      exact ⟨b :: front, back, rfl, hm⟩

/-- Below each label stands a bar, whatever else is underlined there. -/
theorem underbar_of_anchor {underlines : Bool} {targets : List Target} {anchors : List Anchor}
    (h : underlineCells underlines targets anchors = .ok cells)
    (hnodup : (anchors.map Anchor.column).Nodup) (ha : a ∈ anchors) :
    cellAt cells a.column = .drawn .underbar a.target.label.color := by
  obtain ⟨cell, hcell, hmark⟩ :=
    Option.map_eq_some_iff.mp ((underlineCells_glyphs h a.column).1.mpr ⟨a, ha, rfl⟩)
  have hblank : cell ≠ .blank := by
    rintro rfl
    cases hmark
  rw [cellAt_of_getElem? hcell]
  rcases underlineCells_cases h hcell hblank with ⟨b, hb, hcolumn, rfl⟩ | ⟨t, _, _, _, rfl⟩
  · rw [List.inj_on_of_nodup_map hnodup hb ha hcolumn]
  · cases hmark

end Messages

namespace Placement

variable {width : Nat} {active : List OpenLabel} {targets : List Target}

/-- The messages of any targets are drawn, and hang from their anchors. -/
theorem pointerRows_hang (config : Config) (line : Nat) (hfits : ∀ e ∈ active, 2 * e.slot < width)
    (hne : targets ≠ []) : ∃ under messages,
      pointerRows config width active line targets = .ok (under :: messages) ∧
      MessagesHang width line (anchors config.attach targets).reverse under messages := by
  obtain ⟨lead, hlead, hlength, _⟩ := margin_painted hfits
  obtain ⟨cells, hcells, _⟩ :=
    underlineCells_painted config.underlines targets (anchors config.attach targets)
  obtain ⟨rows, hrows, hshown⟩ := messageRows_shown (anchors config.attach targets).reverse
  have hnodup := anchors_columns_nodup config.attach targets
  let rowOf (m : Anchor × List Cell) : Row :=
    ⟨.message line m.1.target.index, trimBlanks (lead ++ m.2)⟩
  refine ⟨⟨.underlines line, trimBlanks (lead ++ cells)⟩, rows.map rowOf, ?_, rfl, fun a ha => ?_,
    ?_, ?_⟩
  · simp only [pointerRows, List.isEmpty_iff, hne, if_false, hcells, hlead, hrows]
    rfl
  · rw [cellAt_trimBlanks, ← hlength, cellAt_append,
      underbar_of_anchor hcells hnodup (List.mem_reverse.mp ha)]
  · rw [List.length_map, hshown.length_eq]
  · intro drawn a waiting horder
    rw [← List.nodup_reverse, ← List.map_reverse, horder] at hnodup
    rw [horder] at hrows
    have hown : ∀ front b back, drawn ++ a :: waiting = front ++ b :: back →
        ((b :: back).map Anchor.column).Nodup := by
      intro front b back hsplit
      rw [hsplit, List.map_append] at hnodup
      exact hnodup.of_append_right
    obtain ⟨above, own, below, rfl, habove, hcells', hwaited⟩ := messageRows_split hrows
    refine ⟨above.map rowOf, rowOf (a, own), below.map rowOf, connectorStop a waiting,
      List.map_append, by rw [List.length_map, habove], rfl,
      hangsIn_of_messageCells hlength hcells' (hown drawn a waiting rfl), fun r hr => ?_⟩
    obtain ⟨m, hm, rfl⟩ := List.mem_map.mp hr
    obtain ⟨front, back, rfl, hm⟩ := hwaited m hm
    have hhangs := hangsIn_of_messageCells hlength hm
      (hown front m.1 (back ++ a :: waiting) (by simp))
    exact hhangs.waits a (by simp)

theorem label_of_target {p : Placement} {source : Source} {labels : List Label} {i : Nat}
    {marks : List (Nat × Span)} {t : Target} (hp : ofLabels source labels = .ok p)
    (h : p.targets i marks = .ok targets) (ht : t ∈ targets) :
    (sortLabels labels)[t.index]? = some t.label := by
  obtain ⟨_, _, h⟩ := bind_eq_ok_iff.mp h
  obtain ⟨_, _, h⟩ := bind_eq_ok_iff.mp h
  obtain ⟨⟨⟨j, mark⟩, label⟩, hsingle, ht⟩ := exists_of_mem_mapM h ht
  obtain ⟨_, _, ht⟩ := bind_eq_ok_iff.mp ht
  obtain ⟨_, _, ht⟩ := bind_eq_ok_iff.mp ht
  cases ht
  obtain ⟨_, l, hl, _, rfl⟩ := mem_singles.mp hsingle
  rw [← (ofLabels_eq_ok hp).2, List.getElem?_map, hl, Option.map_some]

end Placement

/-- Any of the labels that lie on one line, if they cut no character of it, have their messages below the
line, each below the bar of its label. The bars of the messages still to come are in every row above
their own, and the connector and the text of another message leave them alone: the connector runs behind
them, and ends right of all of them before the text starts. -/
theorem message_connectors {source : Source} {labels : List Label} {i : Nat} {line : Line}
    (hfit : ∀ label ∈ labels, label.span.stop ≤ source.byteLen)
    (hline : source.lines[i]? = some line) :
    ∃ p slice, Placement.ofLabels source labels = .ok p ∧ source.lineSlice i = .ok slice ∧
      ∀ marks, marks.Sublist (p.touching i) →
        ((∃ targets, p.targets i marks = .ok targets) ↔ ∀ m ∈ marks, ∀ label,
          (sortLabels labels)[m.1]? = some label → source.spanLines label.span = .ok (i, i) →
            label.span.FitsIn source) ∧
        ∀ targets, p.targets i marks = .ok targets →
          TargetsOf source labels i slice marks targets ∧
          (∀ t ∈ targets, (sortLabels labels)[t.index]? = some t.label) ∧
          (targets ≠ [] → ∀ (config : Config) (width : Nat) (active : List OpenLabel),
            (∀ e ∈ active, 2 * e.slot < width) → ∃ under messages,
              Placement.pointerRows config width active i targets = .ok (under :: messages) ∧
              HangInOrder config.attach targets (anchors config.attach targets) ∧
              MessagesHang width i (anchors config.attach targets).reverse under messages) := by
  obtain ⟨p, hp⟩ := Placement.exists_ofLabels_iff.mpr hfit
  obtain ⟨slice, hslice, _⟩ := Source.exists_lineSlice hline
  refine ⟨p, slice, hp, hslice, fun marks hmarks => ⟨?_, fun targets htargets => ?_⟩⟩
  · exact Placement.exists_targets_iff_fitsIn hp hline fun m hm => hmarks.subset hm
  · have htargetsOf := Placement.targetsOf_targets hp hline hslice hmarks htargets
    refine ⟨htargetsOf, fun t => Placement.label_of_target hp htargets,
      fun hne config width active hfits => ?_⟩
    obtain ⟨under, messages, hrows, hhang⟩ := Placement.pointerRows_hang config i hfits hne
    exact ⟨under, messages, hrows, anchors_hangInOrder config.attach htargetsOf.increasing, hhang⟩

/-- A wide label and a narrow one, which ends before it and further right than its middle. -/
def overlapping : List Label :=
  [⟨.between 0 8, "wide", .default⟩, ⟨.between 6 7, "narrow", .default⟩]

/-- The connector of the wide label's message crosses the bar of the narrow one's. -/
theorem overlapping_connectors : (∀ label ∈ overlapping, label.span.stop ≤ tenLetters.byteLen) ∧
    tenLetters.lines[0]? = some ⟨0, 10, 0, 10⟩ ∧ ∃ p targets,
      Placement.ofLabels tenLetters overlapping = .ok p ∧
      p.targets 0 (p.touching 0) = .ok targets ∧
      ∀ config : Config, ∃ under messages,
        Placement.pointerRows config 0 [] 0 targets = .ok (under :: messages) ∧
        MessagesHang 0 0 (anchors config.attach targets).reverse under messages := by
  have hfit : ∀ label ∈ overlapping, label.span.stop ≤ tenLetters.byteLen := by decide
  have hline : tenLetters.lines[0]? = some ⟨0, 10, 0, 10⟩ := by decide
  have hfits : ∀ label ∈ overlapping, label.span.FitsIn tenLetters := by decide
  have hwide : ⟨.between 0 8, "wide", .default⟩ ∈ overlapping := List.mem_cons_self
  obtain ⟨j, hj⟩ := List.mem_iff_getElem?.mp (Placement.mem_sortLabels.mpr hwide)
  have hmark : tenLetters.IsMarkWithin overlapping 0 j (.between 0 8) :=
    ⟨_, hj, by decide, by decide⟩
  obtain ⟨p, slice, hp, _, hconnectors⟩ := message_connectors hfit hline
  obtain ⟨hexists, hall⟩ := hconnectors _ (List.Sublist.refl _)
  obtain ⟨targets, htargets⟩ := hexists.mpr fun m _ label hlabel _ =>
    hfits label (Placement.mem_sortLabels.mp (List.mem_of_getElem? hlabel))
  obtain ⟨htargetsOf, _, hhang⟩ := hall targets htargets
  obtain ⟨t, ht, _⟩ := (htargetsOf.exists_iff j _).mpr
    ⟨(Placement.isMark_iff hp).mp (Placement.isMark_of_isMarkWithin hmark), hmark⟩
  refine ⟨hfit, hline, p, targets, hp, htargets, fun config => ?_⟩
  obtain ⟨under, messages, hrows, _, hmessages⟩ :=
    hhang (List.ne_nil_of_mem ht) config 0 [] (by simp)
  exact ⟨under, messages, hrows, hmessages⟩

variable {catalog : Catalog} {d : Diagnostic} {text : String} {p : Placement}

/-- In a report, the messages of all labels that lie on a line hang below its code. -/
theorem messages_hang_in_report (h : render catalog d = .ok text)
    (hcanvas : Canvas.ofDiagnostic catalog d = .ok ⟨d, some p⟩) :
    ∃ rows, (⟨d, some p⟩ : Canvas).rows = .ok rows ∧
      ∀ line, (∃ label ∈ d.labels, p.source.spanLines label.span = .ok (line, line)) →
        ∃ targets front code under messages back,
          rows = front ++ code :: under :: messages ++ back ∧ code.role = .code line ∧
          p.targets line (p.touching line) = .ok targets ∧
          MessagesHang p.marginWidth line (anchors d.config.attach targets).reverse under
            messages := by
  obtain ⟨hne, haligned, _⟩ := placement_of_render h hcanvas
  obtain ⟨_, _, hp⟩ := Canvas.placed hcanvas
  obtain ⟨above, chunks, below, hrows, hchunks, _⟩ := Canvas.report_rows d hne haligned
  refine ⟨_, hrows, fun line ⟨label, hlabel, hspan⟩ => ?_⟩
  obtain ⟨j, l, hl, hone, hstart⟩ := Placement.exists_single hp hlabel hspan
  have hrelevant :=
    Placement.mem_relevantLines_iff.mpr ⟨l, List.mem_of_getElem? hl, .inl hstart⟩
  obtain ⟨chunk, hmem, ⟨hlength, halignedOn⟩, gap, b, rfl, _⟩ :=
    forall₂_mem_right hchunks.flip hrelevant
  obtain ⟨before, after, rfl⟩ := List.append_of_mem hmem
  obtain ⟨t, ht, _⟩ :=
    Placement.exists_target (b.targets_eq_singles hlength halignedOn) hl hone hstart
  obtain ⟨under, messages, hpointers, hhang⟩ :=
    Placement.pointerRows_hang d.config line Placement.openList_fits (List.ne_nil_of_mem ht)
  have hrowsOf : b.pointers = under :: messages :=
    Except.ok.inj (b.pointers_eq.symm.trans hpointers)
  refine ⟨b.targets, above ++ before.flatten ++ gap,
    ⟨.code line, trimBlanks (b.lead ++ Placement.codeCells b.fragments)⟩, under, messages,
    b.spacer ++ b.closing ++ after.flatten ++ below, ?_, rfl, b.targets_eq, hhang⟩
  rw [List.flatten_append, List.flatten_cons, Placement.LineBlock.rows, hrowsOf]
  simp only [List.append_assoc, List.cons_append]

end Callout
