import Callout.Proofs.RenderOutcome
import Callout.Proofs.ShiftedSource

namespace Callout

/-- Whether some labels are others in another order, in which labels that start together stand as they
stood before. -/
def Reorders (labels labels' : List Label) : Prop :=
  ∃ move : Fin labels.length ≃ Fin labels'.length, (∀ i, labels'[move i] = labels[i]) ∧
    ∀ i j, i < j → labels[i].span.start = labels[j].span.start → move i < move j

/-- The labels that start at a position, in their order. -/
def startingAt (start : Nat) (labels : List Label) : List Label :=
  labels.filter fun l => l.span.start == start

/-- The labels whose starts are among some positions, in their order. -/
def startingIn (keep : Nat → Bool) (labels : List Label) : List Label :=
  labels.filter fun l => keep l.span.start

section Order

variable {labels labels' : List Label}

theorem mem_iff_of_startingAt (h : ∀ start, startingAt start labels = startingAt start labels')
    (l : Label) : l ∈ labels ↔ l ∈ labels' := by
  have hstart : l ∈ startingAt l.span.start labels ↔ l ∈ startingAt l.span.start labels' := by
    rw [h l.span.start]
  simpa [startingAt] using hstart

/-- Labels in the order of their starts are told by those that start together. -/
theorem eq_of_startingAt (hsorted : labels.Pairwise fun a b => a.span.start ≤ b.span.start)
    (hsorted' : labels'.Pairwise fun a b => a.span.start ≤ b.span.start)
    (h : ∀ start, startingAt start labels = startingAt start labels') : labels = labels' := by
  have hmem := mem_iff_of_startingAt h
  induction labels generalizing labels' with
  | nil =>
    refine (List.eq_nil_iff_forall_not_mem.mpr fun l hl => ?_).symm
    exact List.not_mem_nil ((hmem l).mpr hl)
  | cons a rest ih =>
    obtain ⟨b, rest', rfl⟩ := List.exists_cons_of_ne_nil
      (List.ne_nil_of_mem ((hmem a).mp List.mem_cons_self))
    obtain ⟨hfirst, hrest⟩ := List.pairwise_cons.mp hsorted
    obtain ⟨hfirst', hrest'⟩ := List.pairwise_cons.mp hsorted'
    have hle : a.span.start ≤ b.span.start := by
      rcases List.mem_cons.mp ((hmem b).mpr List.mem_cons_self) with rfl | hb
      · exact Nat.le_refl _
      · exact hfirst b hb
    have hge : b.span.start ≤ a.span.start := by
      rcases List.mem_cons.mp ((hmem a).mp List.mem_cons_self) with rfl | ha
      · exact Nat.le_refl _
      · exact hfirst' a ha
    have hfirsts := h a.span.start
    simp only [startingAt, List.filter_cons, Nat.le_antisymm hge hle, beq_self_eq_true, if_true] at hfirsts
    obtain ⟨rfl, _⟩ := List.cons.inj hfirsts
    have htails : ∀ start, startingAt start rest = startingAt start rest' := by
      intro start
      have hboth := h start
      simp only [startingAt, List.filter_cons] at hboth
      split at hboth
      · exact (List.cons.inj hboth).2
      · exact hboth
    rw [ih hrest hrest' htails (mem_iff_of_startingAt htails)]

/-- Sorting leaves labels that start together in their order. -/
theorem startingAt_sortLabels (start : Nat) (labels : List Label) :
    startingAt start (sortLabels labels) = startingAt start labels := by
  have htogether : (startingAt start labels).Pairwise fun a b : Label =>
      decide (a.span.start ≤ b.span.start) = true := by
    refine List.pairwise_of_forall_mem_list fun a ha b hb => ?_
    simp only [startingAt, List.mem_filter, beq_iff_eq] at ha hb
    rw [decide_eq_true_eq]
    omega
  have hsublist : (startingAt start labels).Sublist (sortLabels labels) := List.sublist_mergeSort
    (fun a b c => by simp only [decide_eq_true_eq]; omega)
    (fun a b => by simp only [Bool.or_eq_true, decide_eq_true_eq]; omega) htogether List.filter_sublist
  have hfiltered := hsublist.filter fun l : Label => l.span.start == start
  rw [startingAt, List.filter_filter] at hfiltered
  simp only [Bool.and_self] at hfiltered
  have hlength := ((List.mergeSort_perm labels fun a b => decide (a.span.start ≤ b.span.start)).filter
    fun l : Label => l.span.start == start).length_eq
  exact (hfiltered.eq_of_length hlength.symm).symm

theorem sortLabels_eq_of_startingAt (h : ∀ start, startingAt start labels = startingAt start labels') :
    sortLabels labels = sortLabels labels' := by
  apply eq_of_startingAt (sortLabels_sorted labels) (sortLabels_sorted labels')
  intro start
  rw [startingAt_sortLabels, startingAt_sortLabels, h start]

theorem startingAt_eq_map (start : Nat) (labels : List Label) : startingAt start labels =
    ((List.finRange labels.length).filter fun i => labels[i].span.start == start).map
      fun i => labels[i] := by
  conv_lhs => rw [startingAt, ← List.map_getElem_finRange labels]
  rw [List.filter_map]
  rfl

theorem Reorders.startingAt_eq (h : Reorders labels labels') (start : Nat) :
    startingAt start labels = startingAt start labels' := by
  obtain ⟨move, hmove, horder⟩ := h
  have hplaces : ((List.finRange labels.length).filter fun i => labels[i].span.start == start).map move =
      (List.finRange labels'.length).filter fun i => labels'[i].span.start == start := by
    apply eq_of_increasing (f := Fin.val)
    · refine List.pairwise_map.mpr (((List.pairwise_lt_finRange _).filter _).imp_of_mem ?_)
      intro i j hi hj hlt
      rw [List.mem_filter, beq_iff_eq] at hi hj
      exact horder i j hlt (hi.2.trans hj.2.symm)
    · exact (List.pairwise_lt_finRange _).filter _
    · intro j
      simp only [List.mem_map, List.mem_filter, List.mem_finRange, true_and, beq_iff_eq]
      constructor
      · rintro ⟨i, hi, rfl⟩
        rw [hmove, hi]
      · intro hj
        obtain ⟨i, rfl⟩ := move.surjective j
        exact ⟨i, by rw [← hmove, hj], rfl⟩
  rw [startingAt_eq_map, startingAt_eq_map, ← hplaces, List.map_map]
  exact List.map_congr_left fun i _ => (hmove i).symm

theorem startingAt_startingIn (keep : Nat → Bool) (start : Nat) (labels : List Label) :
    startingAt start (startingIn keep labels) = if keep start then startingAt start labels else [] := by
  have hkeep : ∀ l ∈ labels, (l.span.start == start && keep l.span.start) =
      (keep start && l.span.start == start) := by
    intro l _
    by_cases hl : l.span.start = start
    · rw [hl, Bool.and_comm]
    · rw [beq_false_of_ne hl, Bool.false_and, Bool.and_false]
  rw [startingAt, startingAt, startingIn, List.filter_filter, List.filter_congr hkeep]
  cases keep start with
  | true => simp only [Bool.true_and, if_true]
  | false => simp only [Bool.false_and, List.filter_false, Bool.false_eq_true, if_false]

theorem startingAt_append (start : Nat) (labels more : List Label) :
    startingAt start (labels ++ more) = startingAt start labels ++ startingAt start more :=
  List.filter_append _ _

/-- One more label leaves the sorted order of the others: it stands behind those that start before it
and behind those that start with it and are supplied before it. -/
theorem exists_sortLabels_insert (front back : List Label) (extra : Label) : ∃ before behind,
    sortLabels (front ++ back) = before ++ behind ∧
      sortLabels (front ++ extra :: back) = before ++ extra :: behind := by
  let start := extra.span.start
  let before := sortLabels (startingIn (· ≤ start) front ++ startingIn (· < start) back)
  let behind := sortLabels (startingIn (start < ·) front ++ startingIn (start ≤ ·) back)
  have hbefore : ∀ l ∈ before, l.span.start ≤ start := by
    intro l hl
    rcases List.mem_append.mp (Placement.mem_sortLabels.mp hl) with hl | hl
    · exact of_decide_eq_true (List.mem_filter.mp hl).2
    · exact Nat.le_of_lt (of_decide_eq_true (List.mem_filter.mp hl).2)
  have hbehind : ∀ l ∈ behind, start ≤ l.span.start := by
    intro l hl
    rcases List.mem_append.mp (Placement.mem_sortLabels.mp hl) with hl | hl
    · exact Nat.le_of_lt (of_decide_eq_true (List.mem_filter.mp hl).2)
    · exact of_decide_eq_true (List.mem_filter.mp hl).2
  have hsorted : (before ++ behind).Pairwise fun a b => a.span.start ≤ b.span.start :=
    List.pairwise_append.mpr ⟨sortLabels_sorted _, sortLabels_sorted _,
      fun a ha b hb => Nat.le_trans (hbefore a ha) (hbehind b hb)⟩
  have hsorted' : (before ++ extra :: behind).Pairwise fun a b => a.span.start ≤ b.span.start := by
    refine List.pairwise_append.mpr ⟨sortLabels_sorted _,
      List.pairwise_cons.mpr ⟨hbehind, sortLabels_sorted _⟩, fun a ha b hb => ?_⟩
    rcases List.mem_cons.mp hb with rfl | hb
    · exact hbefore a ha
    · exact Nat.le_trans (hbefore a ha) (hbehind b hb)
  have hstart : ∀ n, startingAt n (front ++ back) = startingAt n (before ++ behind) ∧
      startingAt n (front ++ [extra] ++ back) = startingAt n (before ++ [extra] ++ behind) := by
    intro n
    have hone : startingAt n [extra] = if start = n then [extra] else [] := by
      simp [startingAt, start, List.filter_cons]
    simp only [startingAt_append, before, behind, startingAt_sortLabels, startingAt_startingIn, hone,
      decide_eq_true_eq]
    rcases Nat.lt_trichotomy n start with hlt | rfl | hlt
    · simp [hlt, hlt.le, hlt.not_ge, hlt.ne', hlt.le.not_gt]
    · simp
    · simp [hlt, hlt.le, hlt.not_ge, hlt.ne, hlt.le.not_gt]
  refine ⟨before, behind, ?_, ?_⟩
  · refine eq_of_startingAt (sortLabels_sorted _) hsorted fun n => ?_
    rw [startingAt_sortLabels, (hstart n).1]
  · refine eq_of_startingAt (sortLabels_sorted _) hsorted' fun n => ?_
    have hboth := (hstart n).2
    rw [List.append_assoc, List.append_assoc] at hboth
    rw [startingAt_sortLabels]
    exact hboth

end Order

/-- A diagnostic with other labels. -/
def Diagnostic.withLabels (d : Diagnostic) (labels : List Label) : Diagnostic :=
  { d with labels }

/-- Labels are placed, or refused, as they stand once they are sorted. -/
theorem Placement.ofLabels_congr (source : Source) {labels labels' : List Label}
    (h : sortLabels labels = sortLabels labels') : ofLabels source labels = ofLabels source labels' := by
  cases hp : ofLabels source labels with
  | error e =>
    rw [ofLabels_eq_error_iff, h] at hp
    exact (ofLabels_eq_error_iff.mpr hp).symm
  | ok p =>
    have hplaced := mapM_place_of_ofLabels hp
    rw [h] at hplaced
    obtain ⟨q, hq, hlabels⟩ := exists_ofLabels hplaced
    have hsource := (ofLabels_eq_ok hp).1.trans (ofLabels_eq_ok hq).1.symm
    obtain ⟨_, _, _, _⟩ := p
    obtain ⟨_, _, _, _⟩ := q
    cases hlabels
    cases hsource
    exact hq.symm

/-- Nothing but the sorted labels tells how the labels were supplied. -/
theorem render_withLabels (catalog : Catalog) {d : Diagnostic} {labels : List Label}
    (h : sortLabels labels = sortLabels d.labels) :
    render catalog (d.withLabels labels) = render catalog d := by
  have hperm : labels.Perm d.labels := by
    have hsorted := (List.mergeSort_perm labels fun a b => decide (a.span.start ≤ b.span.start)).symm
    have hsorted' := List.mergeSort_perm d.labels fun a b => decide (a.span.start ≤ b.span.start)
    exact hsorted.trans ((List.Perm.of_eq h).trans hsorted')
  by_cases hlabels : d.labels = []
  · rw [hlabels] at hperm
    obtain rfl := hperm.eq_nil
    rw [Diagnostic.withLabels, ← hlabels]
  have hlabels' : (d.withLabels labels).labels ≠ [] := fun hnil => by
    cases (hnil : labels = [])
    exact hlabels hperm.symm.eq_nil
  cases hsource : catalog.find? d.sourceId with
  | none => rw [render_of_unknown_source hlabels hsource, render_of_unknown_source hlabels' hsource]; rfl
  | some source =>
    have hplaced : Placement.ofLabels source (d.withLabels labels).labels =
      Placement.ofLabels source d.labels := Placement.ofLabels_congr source h
    cases hp : Placement.ofLabels source d.labels with
    | error e =>
      rw [render_of_refused hlabels hsource hp, render_of_refused hlabels' hsource (hplaced.trans hp)]
    | ok p =>
      rw [render_of_rows hlabels hsource hp, render_of_rows hlabels' hsource (hplaced.trans hp)]
      rfl

/-- A diagnostic has the same report, or is refused for the same cause, whatever the order in which its
labels are supplied, as long as labels that start together keep their order. So it does when they are
supplied in the order of their starts. -/
theorem render_of_reordered_labels (catalog : Catalog) (d : Diagnostic) :
    (∀ labels, Reorders d.labels labels →
      render catalog (d.withLabels labels) = render catalog d) ∧
    render catalog (d.withLabels (sortLabels d.labels)) = render catalog d := by
  constructor
  · intro labels hmoved
    exact render_withLabels catalog
      (sortLabels_eq_of_startingAt fun start => (hmoved.startingAt_eq start).symm)
  · exact render_withLabels catalog
      (sortLabels_eq_of_startingAt fun start => startingAt_sortLabels start d.labels)

/-- Two labels that start together, and one before them that is supplied in between. -/
def together : Diagnostic where
  sourceId := .name "letters"
  severity := .error
  message := "together"
  labels := [⟨⟨4, 7, by omega⟩, "long", .default⟩, ⟨⟨0, 3, by omega⟩, "early", .default⟩,
    ⟨⟨4, 4, by omega⟩, "empty", .default⟩]

theorem together_reordered :
    let moved := [⟨⟨0, 3, by omega⟩, "early", .default⟩, ⟨⟨4, 7, by omega⟩, "long", .default⟩,
      ⟨⟨4, 4, by omega⟩, "empty", .default⟩]
    Reorders together.labels moved ∧ ∃ text,
      render ⟨[(.name "letters", letters)]⟩ together = .ok text ∧
      render ⟨[(.name "letters", letters)]⟩ (together.withLabels moved) = .ok text := by
  intro moved
  have hmoved : Reorders together.labels moved :=
    ⟨(Equiv.swap 0 1 : Equiv.Perm (Fin 3)), by decide, by decide⟩
  have hsource : Catalog.find? ⟨[(.name "letters", letters)]⟩ together.sourceId = some letters := rfl
  have hfit : together.FitsIn letters := by decide
  obtain ⟨text, _, htext, _⟩ := exists_render_of_fitsIn (by decide) hsource hfit
  refine ⟨hmoved, text, htext, ?_⟩
  rw [(render_of_reordered_labels _ together).1 moved hmoved, htext]

end Callout
