import Callout.Layout.Block
import Callout.Proofs.SlotAllocation
import Mathlib.Data.List.Nodup
import Mathlib.Data.List.Sort

namespace Callout

/-- Lists in the order of a key are equal when they have the same members. -/
theorem eq_of_increasing {α : Type} {f : α → Nat} {xs ys : List α}
    (hx : xs.Pairwise fun a b => f a < f b) (hy : ys.Pairwise fun a b => f a < f b)
    (h : ∀ a, a ∈ xs ↔ a ∈ ys) : xs = ys := by
  have nodup : ∀ {zs : List α}, (zs.Pairwise fun a b => f a < f b) → zs.Nodup :=
    fun hz => hz.imp fun hlt he => by subst he; exact Nat.lt_irrefl _ hlt
  refine List.Perm.eq_of_pairwise ?_ hx hy ((List.perm_ext_iff_of_nodup (nodup hx) (nodup hy)).mpr h)
  intro a b _ _ hab hba
  omega

namespace Placement

variable {p : Placement}

/-- A label as an open one, in its slot. -/
def entry (p : Placement) (i : Nat) (l : Placed) : OpenLabel :=
  ⟨i, p.slotOf i, l.label.color, l.endLine⟩

/-- The labels of several lines that `keep` selects, as open ones. -/
def openList (p : Placement) (keep : Nat → Placed → Bool) : List OpenLabel :=
  p.labels.zipIdx.filterMap fun (l, i) =>
    if l.isMultiline && keep i l then some (p.entry i l) else none

/-- What is open when a line is reached. -/
def openBy (p : Placement) (line : Nat) : List OpenLabel :=
  p.openList fun _ l => l.startLine < line && line ≤ l.endLine

/-- What is open while a line is drawn. -/
def openOn (p : Placement) (line : Nat) : List OpenLabel :=
  p.openList fun _ l => l.startLine ≤ line && line ≤ l.endLine

/-- What is open once a line is drawn. -/
def openPast (p : Placement) (line : Nat) : List OpenLabel :=
  p.openList fun _ l => l.startLine ≤ line && line < l.endLine

theorem mem_openList_iff {keep : Nat → Placed → Bool} {e : OpenLabel} :
    e ∈ p.openList keep ↔ ∃ i l, p.labels[i]? = some l ∧ l.isMultiline = true ∧
      keep i l = true ∧ e = p.entry i l := by
  simp only [openList, List.mem_filterMap, Prod.exists, List.mem_zipIdx_iff_getElem?,
    Option.ite_none_right_eq_some, Bool.and_eq_true, Option.some.injEq]
  constructor
  · rintro ⟨l, i, hl, ⟨hm, hk⟩, rfl⟩
    exact ⟨i, l, hl, hm, hk, rfl⟩
  · rintro ⟨i, l, hl, hm, hk, rfl⟩
    exact ⟨l, i, hl, ⟨hm, hk⟩, rfl⟩

theorem openList_increasing (p : Placement) (keep : Nat → Placed → Bool) :
    (p.openList keep).Pairwise fun a b => a.index < b.index := by
  rw [openList, List.pairwise_filterMap]
  refine (zipIdx_increasing p.labels).imp ?_
  rintro ⟨l, i⟩ ⟨m, j⟩ hlt x hx y hy
  simp only [Option.ite_none_right_eq_some, Option.some.injEq] at hx hy
  obtain ⟨_, rfl⟩ := hx
  obtain ⟨_, rfl⟩ := hy
  exact hlt

theorem openList_nodup (p : Placement) (keep : Nat → Placed → Bool) : (p.openList keep).Nodup :=
  (p.openList_increasing keep).imp fun hlt he => by subst he; exact Nat.lt_irrefl _ hlt

theorem openList_congr {keep keep' : Nat → Placed → Bool}
    (h : ∀ i l, p.labels[i]? = some l → l.isMultiline = true → (keep i l = true ↔ keep' i l = true)) :
    p.openList keep = p.openList keep' := by
  apply eq_of_increasing (p.openList_increasing _) (p.openList_increasing _)
  intro e
  simp only [mem_openList_iff]
  constructor
  · rintro ⟨i, l, hl, hm, hk, rfl⟩
    exact ⟨i, l, hl, hm, (h i l hl hm).mp hk, rfl⟩
  · rintro ⟨i, l, hl, hm, hk, rfl⟩
    exact ⟨i, l, hl, hm, (h i l hl hm).mpr hk, rfl⟩

theorem mem_starting_iff {line i : Nat} {l : Placed} :
    (i, l) ∈ p.starting line (p.touching line) ↔
      p.labels[i]? = some l ∧ l.isMultiline = true ∧ l.startLine = line := by
  simp only [starting, List.mem_filterMap, Prod.exists, mem_touching_iff, Option.bind_eq_some_iff,
    Option.ite_none_right_eq_some, Option.some.injEq, Prod.mk.injEq, Int.ofNat_inj]
  constructor
  · rintro ⟨_, _, _, l, hl, ⟨hm, hs⟩, rfl, rfl⟩
    exact ⟨hl, hm, hs⟩
  · rintro ⟨hl, hm, hs⟩
    have hmark := (markOf_isSome_iff (i := line) (List.mem_of_getElem? hl)).mpr (.inl hs.symm)
    obtain ⟨mark, hmark⟩ := Option.isSome_iff_exists.mp hmark
    exact ⟨i, mark, ⟨l, hl, hmark⟩, l, hl, ⟨hm, hs⟩, rfl, rfl⟩

theorem starting_increasing (p : Placement) (line : Nat) :
    (p.starting line (p.touching line)).Pairwise fun a b => a.1 < b.1 := by
  rw [starting, List.pairwise_filterMap]
  refine (p.touching_increasing line).imp ?_
  rintro ⟨i, _⟩ ⟨j, _⟩ hlt x hx y hy
  obtain ⟨l, _, hx⟩ := Option.bind_eq_some_iff.mp hx
  obtain ⟨m, _, hy⟩ := Option.bind_eq_some_iff.mp hy
  simp only [Option.ite_none_right_eq_some, Option.some.injEq] at hx hy
  obtain ⟨_, rfl⟩ := hx
  obtain ⟨_, rfl⟩ := hy
  exact hlt

/-- A label takes its own slot when the labels that are open are those before it that reach its
start. -/
theorem openLabel_openList {keep : Nat → Placed → Bool} {i : Nat} {l : Placed}
    (hl : p.labels[i]? = some l)
    (hkeep : ∀ j m, p.labels[j]? = some m → m.isMultiline = true →
      (keep j m = true ↔ j < i ∧ l.startLine ≤ m.endLine)) :
    openLabel (p.openList keep) i l.label.color l.endLine = p.entry i l := by
  have hindex : (p.openList keep).map OpenLabel.index = p.openBefore i l.startLine := by
    apply eq_of_increasing (f := id)
    · exact List.pairwise_map.mpr (p.openList_increasing keep)
    · exact List.pairwise_lt_range.filter _
    · intro j
      simp only [List.mem_map, mem_openList_iff, mem_openBefore_iff]
      constructor
      · rintro ⟨_, ⟨j, m, hj, hmm, hk, rfl⟩, rfl⟩
        obtain ⟨hlt, hle⟩ := (hkeep j m hj hmm).mp hk
        exact ⟨hlt, m, hj, hmm, hle⟩
      · rintro ⟨hlt, m, hj, hmm, hle⟩
        exact ⟨p.entry j m, ⟨j, m, hj, hmm, (hkeep j m hj hmm).mpr ⟨hlt, hle⟩, rfl⟩, rfl⟩
  have hslots : (p.openList keep).map OpenLabel.slot =
      (p.openBefore i l.startLine).map p.slotOf := by
    rw [← hindex, List.map_map]
    apply List.map_congr_left
    intro e he
    obtain ⟨j, m, _, _, _, rfl⟩ := mem_openList_iff.mp he
    rfl
  rw [openLabel, hslots, ← slotOf_eq hl]
  rfl

theorem push_openList {keep keep' : Nat → Placed → Bool} {i : Nat} {l : Placed}
    (hl : p.labels[i]? = some l) (hm : l.isMultiline = true)
    (hkeep : ∀ j m, p.labels[j]? = some m → m.isMultiline = true →
      (keep j m = true ↔ j < i ∧ l.startLine ≤ m.endLine))
    (hkeep' : ∀ j m, p.labels[j]? = some m → m.isMultiline = true →
      (keep' j m = true ↔ keep j m = true ∨ j = i)) :
    push (p.openList keep) (i, l) = p.openList keep' := by
  rw [push, openLabel_openList hl hkeep]
  apply eq_of_increasing (f := OpenLabel.index) _ (p.openList_increasing keep')
  · intro e
    simp only [List.mem_append, List.mem_singleton, mem_openList_iff]
    constructor
    · rintro (⟨j, m, hj, hmm, hk, rfl⟩ | rfl)
      · exact ⟨j, m, hj, hmm, (hkeep' j m hj hmm).mpr (.inl hk), rfl⟩
      · exact ⟨i, l, hl, hm, (hkeep' i l hl hm).mpr (.inr rfl), rfl⟩
    · rintro ⟨j, m, hj, hmm, hk, rfl⟩
      rcases (hkeep' j m hj hmm).mp hk with hk | rfl
      · exact .inl ⟨j, m, hj, hmm, hk, rfl⟩
      · cases hl.symm.trans hj
        exact .inr rfl
  · refine List.pairwise_append.mpr ⟨p.openList_increasing keep, List.pairwise_singleton _ _, ?_⟩
    intro a ha b hb
    obtain ⟨j, m, hj, hmm, hk, rfl⟩ := mem_openList_iff.mp ha
    obtain rfl := List.mem_singleton.mp hb
    exact ((hkeep j m hj hmm).mp hk).1

/-- Labels are opened in the order of their indices. -/
theorem mem_opened_iff {line i j : Nat} {l m : Placed} {opened rest : List (Nat × Placed)}
    (h : p.starting line (p.touching line) = opened ++ (i, l) :: rest)
    (hj : p.labels[j]? = some m) (hmm : m.isMultiline = true) :
    j ∈ opened.map Prod.fst ↔ m.startLine = line ∧ j < i := by
  have hincreasing := p.starting_increasing line
  rw [h, List.pairwise_append, List.pairwise_cons] at hincreasing
  obtain ⟨_, ⟨hrest, _⟩, hacross⟩ := hincreasing
  constructor
  · intro hmem
    obtain ⟨⟨k, n⟩, hopened, rfl⟩ := List.mem_map.mp hmem
    have hstarting : (k, n) ∈ p.starting line (p.touching line) := by
      rw [h]
      exact List.mem_append_left _ hopened
    obtain ⟨hk, _, hs⟩ := mem_starting_iff.mp hstarting
    cases hj.symm.trans hk
    exact ⟨hs, hacross _ hopened (i, l) List.mem_cons_self⟩
  · rintro ⟨hs, hlt⟩
    have hstarting := mem_starting_iff.mpr ⟨hj, hmm, hs⟩
    rw [h, List.mem_append, List.mem_cons] at hstarting
    rcases hstarting with hopened | heq | hlater
    · exact List.mem_map.mpr ⟨_, hopened, rfl⟩
    · cases heq
      omega
    · have := hrest (j, m) hlater
      omega

/-- Labels are sorted by start, so those before a label that reach its line are open when it is. -/
theorem foldl_push_starting {line : Nat} {opened rest : List (Nat × Placed)}
    (h : p.starting line (p.touching line) = opened ++ rest) :
    opened.foldl push (p.openBy line) = p.openList fun i l =>
      line ≤ l.endLine && (l.startLine < line || decide (i ∈ opened.map Prod.fst)) := by
  induction opened using List.reverseRecOn generalizing rest with
  | nil =>
    rw [List.foldl_nil, openBy]
    apply openList_congr
    intro i l _ _
    simp only [List.map_nil, List.not_mem_nil, decide_false, Bool.or_false, Bool.and_comm]
  | append_singleton opened m ih =>
    obtain ⟨i, l⟩ := m
    rw [List.append_assoc] at h
    obtain ⟨hl, hm, hs⟩ := mem_starting_iff.mp
      (show (i, l) ∈ p.starting line (p.touching line) by rw [h]; simp)
    rw [List.foldl_append, ih h, List.foldl_cons, List.foldl_nil]
    refine push_openList hl hm ?_ ?_
    · intro j m hj hmm
      have hopened := mem_opened_iff h hj hmm
      have hbefore : j < i → m.startLine ≤ l.startLine :=
        fun hlt => startLine_mono hj hl (Nat.le_of_lt hlt)
      have hafter : i ≤ j → l.startLine ≤ m.startLine := startLine_mono hl hj
      simp only [Bool.and_eq_true, Bool.or_eq_true, decide_eq_true_eq, hopened]
      omega
    · intro j m hj hmm
      have hend : j = i → line ≤ m.endLine := by
        rintro rfl
        cases hl.symm.trans hj
        have := startLine_le_endLine (List.mem_of_getElem? hl)
        omega
      simp only [Bool.and_eq_true, Bool.or_eq_true, decide_eq_true_eq, List.map_append,
        List.mem_append, List.map_cons, List.map_nil, List.mem_singleton]
      tauto

theorem openAt_openBy (p : Placement) (line : Nat) :
    p.openAt line (p.touching line) (p.openBy line) = p.openOn line := by
  rw [openAt, foldl_push_starting (List.append_nil _).symm]
  apply openList_congr
  intro i l hl hm
  have hstart : i ∈ (p.starting line (p.touching line)).map Prod.fst ↔ l.startLine = line := by
    constructor
    · intro hi
      obtain ⟨⟨_, m⟩, hmem, rfl⟩ := List.mem_map.mp hi
      obtain ⟨hm', _, hs⟩ := mem_starting_iff.mp hmem
      cases hl.symm.trans hm'
      exact hs
    · intro hs
      exact List.mem_map.mpr ⟨(i, l), mem_starting_iff.mpr ⟨hl, hm, hs⟩, rfl⟩
  simp only [Bool.and_eq_true, Bool.or_eq_true, decide_eq_true_eq, hstart]
  omega

theorem isPrefix_openAt (active : List OpenLabel) (opened : List (Nat × Placed)) :
    active <+: opened.foldl push active := by
  induction opened generalizing active with
  | nil => exact List.prefix_refl _
  | cons m opened ih => exact (List.prefix_append _ _).trans (ih (push active m))

theorem mem_endingAt_iff {line : Nat} {active : List OpenLabel} {e : OpenLabel} :
    e ∈ endingAt line active ↔ e ∈ active ∧ e.endLine = line := by
  rw [endingAt, List.mem_filter, beq_iff_eq, Int.ofNat_inj]

theorem foldl_erase_endingAt (p : Placement) (line : Nat) :
    (endingAt line (p.openOn line)).reverse.foldl List.erase (p.openOn line) = p.openPast line := by
  have hnodup : (p.openOn line).Nodup := p.openList_nodup _
  rw [← List.diff_eq_foldl, hnodup.sdiff_eq_filter]
  apply eq_of_increasing (f := OpenLabel.index)
  · exact (p.openList_increasing _).filter _
  · exact p.openList_increasing _
  · intro e
    rw [List.mem_filter, decide_eq_true_iff, List.mem_reverse, mem_endingAt_iff]
    simp only [openOn, openPast, mem_openList_iff, Bool.and_eq_true, decide_eq_true_eq]
    constructor
    · rintro ⟨⟨i, l, hl, hm, ⟨hs, he⟩, rfl⟩, hnot⟩
      refine ⟨i, l, hl, hm, ⟨hs, ?_⟩, rfl⟩
      rcases Nat.lt_or_eq_of_le he with hlt | heq
      · exact hlt
      · exact absurd ⟨⟨i, l, hl, hm, ⟨hs, he⟩, rfl⟩, heq.symm⟩ hnot
    · rintro ⟨i, l, hl, hm, ⟨hs, he⟩, rfl⟩
      refine ⟨⟨i, l, hl, hm, ⟨hs, Nat.le_of_lt he⟩, rfl⟩, ?_⟩
      rintro ⟨_, heq⟩
      change l.endLine = line at heq
      omega

/-- Between neighbouring relevant lines nothing opens or closes. -/
theorem openPast_eq_openBy {done rest : List Nat} {line next : Nat}
    (h : p.relevantLines = done ++ line :: next :: rest) : p.openPast line = p.openBy next := by
  have hincreasing := p.relevantLines_increasing
  rw [h, List.pairwise_append] at hincreasing
  obtain ⟨_, hrest, hacross⟩ := hincreasing
  obtain ⟨hline, hrest⟩ := List.pairwise_cons.mp hrest
  have hnext := List.pairwise_cons.mp hrest
  have hbetween : ∀ x ∈ p.relevantLines, x ≤ line ∨ next ≤ x := by
    intro x hx
    rw [h] at hx
    rcases List.mem_append.mp hx with hx | hx
    · exact .inl (Nat.le_of_lt (hacross x hx line (by simp)))
    · rcases List.mem_cons.mp hx with rfl | hx
      · exact .inl (Nat.le_refl _)
      · rcases List.mem_cons.mp hx with rfl | hx
        · exact .inr (Nat.le_refl _)
        · exact .inr (Nat.le_of_lt (hnext.1 x hx))
  have hlt := hline next (by simp)
  apply openList_congr
  intro i l hl _
  have hmem := List.mem_of_getElem? hl
  have hstart := hbetween l.startLine (mem_relevantLines_iff.mpr ⟨l, hmem, .inl rfl⟩)
  have hend := hbetween l.endLine (mem_relevantLines_iff.mpr ⟨l, hmem, .inr rfl⟩)
  simp only [Bool.and_eq_true, decide_eq_true_eq]
  omega

theorem openBy_first {line : Nat} {rest : List Nat} (h : p.relevantLines = line :: rest) :
    p.openBy line = [] := by
  have hincreasing := p.relevantLines_increasing
  rw [h, List.pairwise_cons] at hincreasing
  rw [List.eq_nil_iff_forall_not_mem]
  intro e he
  obtain ⟨i, l, hl, _, hk, _⟩ := mem_openList_iff.mp he
  simp only [Bool.and_eq_true, decide_eq_true_eq] at hk
  have hstart : l.startLine ∈ p.relevantLines :=
    mem_relevantLines_iff.mpr ⟨l, List.mem_of_getElem? hl, .inl rfl⟩
  rw [h] at hstart
  rcases List.mem_cons.mp hstart with heq | hstart
  · omega
  · have := hincreasing.1 _ hstart
    omega

theorem openPast_last {line : Nat} {done : List Nat} (h : p.relevantLines = done ++ [line]) :
    p.openPast line = [] := by
  have hincreasing := p.relevantLines_increasing
  rw [h, List.pairwise_append] at hincreasing
  rw [List.eq_nil_iff_forall_not_mem]
  intro e he
  obtain ⟨i, l, hl, _, hk, _⟩ := mem_openList_iff.mp he
  simp only [Bool.and_eq_true, decide_eq_true_eq] at hk
  have hend : l.endLine ∈ p.relevantLines :=
    mem_relevantLines_iff.mpr ⟨l, List.mem_of_getElem? hl, .inr rfl⟩
  rw [h] at hend
  rcases List.mem_append.mp hend with hend | hend
  · have := hincreasing.2.2 _ hend line (by simp)
    omega
  · have := List.mem_singleton.mp hend
    omega

/-- What is open when the first of some lines is reached, nothing when there is none. -/
def reached (p : Placement) : List Nat → List OpenLabel
  | [] => []
  | line :: _ => p.openBy line

theorem openPast_eq_reached {done rest : List Nat} {line : Nat}
    (h : p.relevantLines = done ++ line :: rest) : p.openPast line = p.reached rest := by
  cases rest with
  | nil => exact openPast_last h
  | cons next rest => exact openPast_eq_openBy h

theorem reached_relevantLines (p : Placement) : p.reached p.relevantLines = [] := by
  cases h : p.relevantLines with
  | nil => rfl
  | cons line rest => exact openBy_first h

theorem openList_slots_nodup {keep : Nat → Placed → Bool} (line : Nat)
    (h : ∀ i l, keep i l = true → l.reaches line = true) :
    ((p.openList keep).map OpenLabel.slot).Nodup := by
  apply List.Nodup.map_on _ (p.openList_nodup _)
  intro a ha b hb heq
  obtain ⟨i, l, hl, hml, hkl, rfl⟩ := mem_openList_iff.mp ha
  obtain ⟨j, m, hm, hmm, hkm, rfl⟩ := mem_openList_iff.mp hb
  have hij := slotOf_injective_on_line hl hm hml hmm (h i l hkl) (h j m hkm) heq
  subst hij
  cases hl.symm.trans hm
  rfl

theorem openOn_slots_nodup (p : Placement) (line : Nat) :
    ((p.openOn line).map OpenLabel.slot).Nodup :=
  openList_slots_nodup line fun _ _ hkeep => hkeep

theorem slot_lt_depth {keep : Nat → Placed → Bool} {e : OpenLabel} (h : e ∈ p.openList keep) :
    e.slot < p.depth := by
  obtain ⟨i, l, hl, hm, _, rfl⟩ := mem_openList_iff.mp h
  exact slotOf_lt_depth hl hm

theorem slot_lt_marginWidth {e : OpenLabel} (h : e.slot < p.depth) :
    2 * e.slot + 2 < p.marginWidth := by
  rw [marginWidth, if_neg (by omega)]
  omega

theorem openOn_length (p : Placement) (line : Nat) : (p.openOn line).length = p.countAt line := by
  have hzip : p.labels = p.labels.zipIdx.map Prod.fst := (List.zipIdx_map_fst 0 p.labels).symm
  rw [countAt, multiline, List.countP_filter, openOn, openList, List.length_filterMap_eq_countP, hzip,
    List.countP_map, ← hzip]
  apply List.countP_congr
  rintro ⟨l, i⟩ _
  cases hm : l.isMultiline <;> simp [Placed.reaches, hm]

/-- On a line with as many open labels as the margin has slots, every slot is in use. -/
theorem exists_slot_of_countAt_eq_depth {line s : Nat} (h : p.countAt line = p.depth)
    (hs : s < p.depth) : ∃ e ∈ p.openOn line, e.slot = s := by
  have hsub : (p.openOn line).map OpenLabel.slot ⊆ List.range p.depth := by
    intro n hn
    obtain ⟨e, he, rfl⟩ := List.mem_map.mp hn
    exact List.mem_range.mpr (slot_lt_depth he)
  have hperm := (List.subperm_of_subset (p.openOn_slots_nodup line) hsub).perm_of_length_le
    (by rw [List.length_range, List.length_map, openOn_length, h])
  exact List.mem_map.mp (hperm.mem_iff.mpr (List.mem_range.mpr hs))

end Placement

end Callout
