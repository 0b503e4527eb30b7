import Callout.Layout.Report
import Callout.Proofs.DrawnBlock

namespace Callout

def SlotsDistinct (active : List OpenLabel) : Prop :=
  (active.map OpenLabel.slot).Nodup

/-- Whether an open label has the least slot that none of the others has. -/
def OpenLabel.TakesLeast (e : OpenLabel) (others : List OpenLabel) : Prop :=
  e.slot ∉ others.map OpenLabel.slot ∧ ∀ s < e.slot, s ∈ others.map OpenLabel.slot

theorem openLabel_takesLeast (active : List OpenLabel) (index : Nat) (color : Color) (endLine : Nat) :
    (openLabel active index color endLine).TakesLeast active :=
  ⟨leastFree_not_mem _ 0, fun _ hs => mem_of_lt_leastFree (Nat.zero_le _) hs⟩

theorem SlotsDistinct.sublist {active kept : List OpenLabel} (h : SlotsDistinct active)
    (hkept : kept.Sublist active) : SlotsDistinct kept :=
  (hkept.map OpenLabel.slot).nodup h

theorem SlotsDistinct.concat {active : List OpenLabel} {e : OpenLabel} (h : SlotsDistinct active)
    (he : e.TakesLeast active) : SlotsDistinct (active ++ [e]) := by
  rw [SlotsDistinct, List.map_append, List.map_singleton, List.nodup_append]
  refine ⟨h, List.nodup_singleton _, ?_⟩
  intro s hs t ht heq
  rw [List.mem_singleton.mp ht] at heq
  exact he.1 (heq ▸ hs)

theorem SlotsDistinct.nodup {active : List OpenLabel} (h : SlotsDistinct active) : active.Nodup :=
  List.Nodup.of_map OpenLabel.slot h

/-- Removing some of the open labels one by one, each by being equal, removes just those. -/
theorem SlotsDistinct.foldl_erase {active : List OpenLabel} (h : SlotsDistinct active)
    (removed : List OpenLabel) :
    removed.foldl List.erase active = active.filter (· ∉ removed) := by
  rw [← List.diff_eq_foldl, h.nodup.sdiff_eq_filter]

theorem fits_of_checkMargin {width : Nat} {active : List OpenLabel}
    (h : checkMargin width active = .ok ()) : ∀ e ∈ active, 2 * e.slot < width := by
  intro e he
  unfold checkMargin at h
  split at h
  next => cases h
  next hnone =>
    have hout := List.find?_eq_none.mp hnone e he
    rw [decide_eq_true_iff] at hout
    omega

theorem fits_of_jointMargin {width : Nat} {active : List OpenLabel} {joints : List Joint}
    {lead : List Cell} (h : jointMargin width active joints = .ok lead) :
    ∀ e ∈ active, 2 * e.slot < width := by
  apply fits_of_checkMargin
  cases joints with
  | nil =>
    obtain ⟨_, hcheck, _⟩ := bind_eq_ok_iff.mp h
    exact hcheck
  | cons j rest =>
    obtain ⟨_, hcheck, _⟩ := bind_eq_ok_iff.mp h
    exact hcheck

namespace Placement

variable {p : Placement}

/-- The open labels that are made when labels are opened one after the other. -/
def openings (active : List OpenLabel) : List (Nat × Placed) → List OpenLabel
  | [] => []
  | m :: rest =>
    let e := openLabel active m.1 m.2.label.color m.2.endLine
    e :: openings (active ++ [e]) rest

theorem foldl_push_eq (active : List OpenLabel) (ms : List (Nat × Placed)) :
    ms.foldl push active = active ++ openings active ms := by
  induction ms generalizing active with
  | nil => rw [List.foldl_nil, openings, List.append_nil]
  | cons m ms ih => rw [List.foldl_cons, ih, push, openings, List.append_assoc, List.singleton_append]

theorem openings_take (active : List OpenLabel) (ms : List (Nat × Placed)) (k : Nat) :
    openings active (ms.take k) = (openings active ms).take k := by
  induction ms generalizing active k with
  | nil => rw [List.take_nil, openings, List.take_nil]
  | cons m ms ih =>
    cases k with
    | zero => rfl
    | succ k => rw [List.take_succ_cons, openings, openings, ih, List.take_succ_cons]

theorem openings_map (active : List OpenLabel) (ms : List (Nat × Placed)) :
    (openings active ms).map (fun e => (e.index, e.color, e.endLine)) =
      ms.map fun m => (m.1, m.2.label.color, m.2.endLine) := by
  induction ms generalizing active with
  | nil => rfl
  | cons m ms ih =>
    rw [openings, List.map_cons, List.map_cons, ih]
    rfl

theorem openings_takeLeast {active : List OpenLabel} {ms : List (Nat × Placed)} {k : Nat}
    {e : OpenLabel} (h : (openings active ms)[k]? = some e) :
    e.TakesLeast (active ++ (openings active ms).take k) := by
  induction ms generalizing active k with
  | nil => cases h
  | cons m ms ih =>
    rw [openings] at h ⊢
    cases k with
    | zero =>
      cases h
      rw [List.take_zero, List.append_nil]
      exact openLabel_takesLeast _ _ _ _
    | succ k =>
      have hlater := ih h
      rwa [List.append_assoc, List.singleton_append] at hlater

theorem slotsDistinct_foldl_push {active : List OpenLabel} (h : SlotsDistinct active)
    (ms : List (Nat × Placed)) : SlotsDistinct (ms.foldl push active) := by
  induction ms generalizing active with
  | nil => exact h
  | cons m ms ih => exact ih (h.concat (openLabel_takesLeast _ _ _ _))

/-- The labels of several lines that start on a line, by sorted index. -/
def startsAt (p : Placement) (index : Int) : List (Nat × Placed) :=
  p.labels.zipIdx.filterMap fun (l, i) =>
    if l.isMultiline && (l.startLine : Int) == index then some (i, l) else none

theorem starting_eq_startsAt (p : Placement) (index : Int) :
    p.starting index (p.touching index) = p.startsAt index := by
  rw [starting, touching_eq, startsAt, List.filterMap_filterMap]
  apply List.filterMap_congr
  rintro ⟨l, i⟩ hmem
  have hl : p.labels[i]? = some l := List.mem_zipIdx_iff_getElem?.mp hmem
  by_cases hstart : l.isMultiline = true ∧ (l.startLine : Int) = index
  · obtain ⟨hm, rfl⟩ := hstart
    have hmark := (markOf_isSome_iff (i := l.startLine) (List.mem_of_getElem? hl)).mpr (.inl rfl)
    obtain ⟨mark, hmark⟩ := Option.isSome_iff_exists.mp hmark
    simp [hmark, hl, hm]
  · have hnot : (l.isMultiline && (l.startLine : Int) == index) = false := by
      rw [Bool.and_eq_false_iff, Bool.eq_false_iff, beq_eq_false_iff_ne]
      tauto
    cases p.markOf index l with
    | none => simp [hnot]
    | some mark => simp [hl, hstart, hnot]

/-- The open labels that end on a line, from the last opened to the first. -/
def closingAt (index : Int) (active : List OpenLabel) : List OpenLabel :=
  (endingAt index active).reverse

/-- What drawing a line does to the labels in `before`: it opens the labels in `opened`, and closes those
that end on the line if it succeeds. -/
structure Steps (p : Placement) (index : Int) (before opened : List OpenLabel) (drawn : Drawn) :
    Prop where
  opened_eq : opened.map (fun e => (e.index, e.color, e.endLine)) =
    (p.startsAt index).map fun m => (m.1, m.2.label.color, m.2.endLine)
  takesLeast : ∀ (k : Nat) (e : OpenLabel), opened[k]? = some e →
    e.TakesLeast (before ++ opened.take k)
  opening : ∀ k, ((p.startsAt index).take k).foldl push before = before ++ opened.take k ∧
    SlotsDistinct (before ++ opened.take k)
  closing : ∀ k, SlotsDistinct
    (p.closeAll index.toNat (before ++ opened) ((closingAt index (before ++ opened)).take k)).active
  succeeds : ∀ rows, drawn.rows = .ok rows →
    drawn.active = (before ++ opened).filter (fun e => (e.endLine : Int) ≠ index) ∧
    ∀ k, (p.closeAll index.toNat (before ++ opened)
        ((closingAt index (before ++ opened)).take k)).active =
      (before ++ opened).filter (· ∉ (closingAt index (before ++ opened)).take k)
  fails : ∀ cause, drawn.rows = .error cause → drawn.active = before ++ opened

theorem filter_not_mem_closingAt (index : Int) (active : List OpenLabel) :
    active.filter (· ∉ closingAt index active) =
      active.filter fun e => (e.endLine : Int) ≠ index := by
  apply List.filter_congr
  intro e he
  have hmem : e ∈ closingAt index active ↔ (e.endLine : Int) = index := by
    rw [closingAt, List.mem_reverse, endingAt, List.mem_filter, beq_iff_eq]
    exact and_iff_right he
  simp only [hmem, ne_eq]

/-- No line fails once it has begun to close labels: the margin of its code had a column for every
label open there. -/
theorem block_cases (p : Placement) (config : Config) (index : Int) {before active : List OpenLabel}
    (h : p.openAt index (p.touching index) before = active) :
    (∃ cause, p.block config index before = ⟨active, .error cause⟩) ∨
      ((∀ e ∈ active, 2 * e.slot < p.marginWidth) ∧ ∃ rows, p.block config index before =
        ⟨(closingAt index active).foldl List.erase active, .ok rows⟩) := by
  cases hupper : p.upperRows config index (p.touching index) before active with
  | error cause => exact .inl ⟨cause, by simp only [block, marks_eq_touching, h, hupper]⟩
  | ok upper =>
    obtain ⟨lead, hlead, _⟩ := bind_eq_ok_iff.mp hupper
    have hfits := fits_of_jointMargin hlead
    obtain ⟨closing, hclosing, _⟩ := closeAll_shown index.toNat hfits (endingAt_fits index hfits)
    refine .inr ⟨hfits, upper ++ closing, ?_⟩
    simp only [block, marks_eq_touching, h, hupper, hclosing, Except.map, closingAt]

theorem steps_block (p : Placement) (config : Config) (index : Int) {before : List OpenLabel}
    (h : SlotsDistinct before) :
    p.Steps index before (openings before (p.startsAt index)) (p.block config index before) := by
  have hopen : p.openAt index (p.touching index) before =
      before ++ openings before (p.startsAt index) := by
    rw [openAt, starting_eq_startsAt, foldl_push_eq]
  have hopened : ∀ k, ((p.startsAt index).take k).foldl push before =
      before ++ (openings before (p.startsAt index)).take k := by
    intro k
    rw [foldl_push_eq, openings_take]
  have hdistinct : SlotsDistinct (before ++ openings before (p.startsAt index)) := by
    rw [← foldl_push_eq]
    exact slotsDistinct_foldl_push h _
  have hcases := p.block_cases config index hopen
  refine ⟨openings_map _ _, fun _ _ => openings_takeLeast, ?_, ?_, ?_, ?_⟩
  · intro k
    refine ⟨hopened k, ?_⟩
    rw [← hopened]
    exact slotsDistinct_foldl_push h _
  · exact fun k => hdistinct.sublist (p.closeAll_active_sublist _ _ _)
  · intro rows hrows
    rcases hcases with ⟨cause, hblock⟩ | ⟨hfits, drawn, hblock⟩
    · rw [hblock] at hrows
      cases hrows
    · refine ⟨?_, fun k => ?_⟩
      · rw [hblock]
        exact (hdistinct.foldl_erase _).trans (filter_not_mem_closingAt index _)
      · have hending : ∀ e ∈ (closingAt index (before ++ openings before (p.startsAt index))).take k,
            2 * e.slot < p.marginWidth :=
          fun e he => endingAt_fits index hfits e (List.mem_of_mem_take he)
        obtain ⟨closed, hclosed, _⟩ := closeAll_shown index.toNat hfits hending
        rw [hclosed]
        exact hdistinct.foldl_erase _
  · intro cause hrows
    rcases hcases with ⟨_, hblock⟩ | ⟨_, drawn, hblock⟩
    · rw [hblock]
    · rw [hblock] at hrows
      cases hrows

theorem slotsDistinct_block (p : Placement) (config : Config) (index : Int) {before : List OpenLabel}
    (h : SlotsDistinct before) : SlotsDistinct (p.block config index before).active := by
  have hsteps := p.steps_block config index h
  have hopened : SlotsDistinct (before ++ openings before (p.startsAt index)) := by
    rw [← foldl_push_eq]
    exact slotsDistinct_foldl_push h _
  cases hrows : (p.block config index before).rows with
  | error cause => rwa [hsteps.fails cause hrows]
  | ok rows =>
    rw [(hsteps.succeeds rows hrows).1]
    exact hopened.sublist List.filter_sublist

end Placement

namespace Canvas

/-- What is open after some lines, which may or may not have been drawn. -/
def openAfter (c : Canvas) (lines : List Int) : List OpenLabel :=
  lines.foldl (fun active index => (c.line index active).active) []

theorem slotsDistinct_openAfter (d : Diagnostic) (p : Placement) (lines : List Int) :
    SlotsDistinct ((⟨d, some p⟩ : Canvas).openAfter lines) := by
  induction lines using List.reverseRecOn with
  | nil => exact List.nodup_nil
  | append_singleton lines index ih =>
    rw [openAfter, List.foldl_append]
    exact p.slotsDistinct_block d.config index ih

end Canvas

/-- Lines drawn in any order, any number of times, and whether or not they succeed. No two open labels
ever share a slot. A line opens the labels of several lines that start on it, each in the least slot that is
free then. If it succeeds it closes just the open labels that end on it and leaves all others as they were,
and if it fails it closes none. -/
theorem open_labels_in_any_order (d : Diagnostic) (p : Placement) (done : List Int) (index : Int) :
    let before := (⟨d, some p⟩ : Canvas).openAfter done
    SlotsDistinct before ∧
      ∃ opened, p.Steps index before opened ((⟨d, some p⟩ : Canvas).line index before) := by
  have hdistinct := Canvas.slotsDistinct_openAfter d p done
  exact ⟨hdistinct, _, p.steps_block d.config index hdistinct⟩

end Callout
