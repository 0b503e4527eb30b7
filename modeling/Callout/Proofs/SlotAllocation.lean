import Callout.Layout.Margin
import Callout.Proofs.PlacedLabels
import Mathlib.Data.List.Perm.Subperm
import Mathlib.Data.List.Range
import Mathlib.Order.Bounds.Basic

namespace Callout

theorem seekFree_spec (taken : List Nat) (low fuel : Nat) :
    low ≤ seekFree taken low fuel ∧ seekFree taken low fuel ≤ low + fuel ∧
      (∀ n, low ≤ n → n < seekFree taken low fuel → n ∈ taken) ∧
      (seekFree taken low fuel < low + fuel → seekFree taken low fuel ∉ taken) := by
  induction fuel generalizing low with
  | zero => exact ⟨Nat.le_refl _, Nat.le_refl _, fun n _ _ => by simp [seekFree] at *; omega,
      fun h => by simp [seekFree] at h⟩
  | succ fuel ih =>
    rw [seekFree]
    split
    next hm =>
      obtain ⟨hlow, hhigh, hbelow, hfree⟩ := ih (low + 1)
      refine ⟨by omega, by omega, ?_, fun h => hfree (by omega)⟩
      intro n hn hlt
      rcases Nat.lt_or_eq_of_le hn with hn | rfl
      · exact hbelow n hn hlt
      · exact hm
    next hm => exact ⟨Nat.le_refl _, by omega, fun n _ _ => by omega, fun _ => hm⟩

theorem le_leastFree (taken : List Nat) (low : Nat) : low ≤ leastFree taken low :=
  (seekFree_spec taken low taken.length).1

theorem leastFree_le (taken : List Nat) (low : Nat) : leastFree taken low ≤ low + taken.length :=
  (seekFree_spec taken low taken.length).2.1

theorem mem_of_lt_leastFree {taken : List Nat} {low n : Nat} (hlow : low ≤ n)
    (hlt : n < leastFree taken low) : n ∈ taken :=
  (seekFree_spec taken low taken.length).2.2.1 n hlow hlt

/-- The search never runs out: that many numbers cannot all be taken. -/
theorem leastFree_not_mem (taken : List Nat) (low : Nat) : leastFree taken low ∉ taken := by
  obtain ⟨_, hhigh, hbelow, hfree⟩ := seekFree_spec taken low taken.length
  rcases Nat.lt_or_eq_of_le hhigh with hlt | heq
  · exact hfree hlt
  · intro hmem
    have hsub : List.range' low (taken.length + 1) ⊆ taken := by
      intro n hn
      rw [List.mem_range'_1] at hn
      rcases Nat.lt_or_ge n (low + taken.length) with hlt | hge
      · exact hbelow n hn.1 (by omega)
      · rw [show n = leastFree taken low by rw [leastFree, heq]; omega]
        exact hmem
    have hlen := (List.subperm_of_subset List.nodup_range' hsub).length_le
    rw [List.length_range'] at hlen
    omega

theorem leastFree_isLeast (taken : List Nat) (low : Nat) :
    IsLeast {n | low ≤ n ∧ n ∉ taken} (leastFree taken low) := by
  refine ⟨⟨le_leastFree taken low, leastFree_not_mem taken low⟩, fun n ⟨hlow, hfree⟩ => ?_⟩
  by_contra hlt
  exact hfree (mem_of_lt_leastFree hlow (Nat.lt_of_not_le hlt))

theorem leastFree_congr {taken taken' : List Nat} (h : ∀ n, n ∈ taken ↔ n ∈ taken') (low : Nat) :
    leastFree taken low = leastFree taken' low := by
  have hleast := leastFree_isLeast taken low
  simp only [h] at hleast
  exact hleast.unique (leastFree_isLeast taken' low)

theorem le_foldr_max {xs : List Nat} {first x : Nat} (h : x = first ∨ x ∈ xs) :
    x ≤ xs.foldr max first := by
  induction xs with
  | nil =>
    rcases h with rfl | h
    · exact Nat.le_refl x
    · cases h
  | cons y xs ih =>
    rw [List.foldr_cons]
    rcases h with rfl | h
    · exact Nat.le_trans (ih (.inl rfl)) (Nat.le_max_right _ _)
    · rcases List.mem_cons.mp h with rfl | h
      · exact Nat.le_max_left _ _
      · exact Nat.le_trans (ih (.inr h)) (Nat.le_max_right _ _)

theorem foldr_max_mem {xs : List Nat} (h : 0 < xs.foldr max 0) : xs.foldr max 0 ∈ xs := by
  induction xs with
  | nil => simp at h
  | cons x xs ih =>
    rw [List.foldr_cons] at h ⊢
    rcases Nat.le_total (xs.foldr max 0) x with hle | hle
    · rw [Nat.max_eq_left hle]
      exact List.mem_cons_self
    · rw [Nat.max_eq_right hle] at h ⊢
      exact List.mem_cons_of_mem _ (ih h)

namespace Placement

/-- The labels of several lines before label `i` that are still open on a line. -/
def openBefore (p : Placement) (i line : Nat) : List Nat :=
  (List.range i).filter fun j => (p.labels[j]?).any fun m => m.isMultiline && line ≤ m.endLine

/-- The slot of a label: the least one that no label still open where it starts has. -/
def slotOf (p : Placement) (i : Nat) : Nat :=
  match p.labels[i]? with
  | none => 0
  | some l => leastFree ((p.openBefore i l.startLine).attach.map fun j => p.slotOf j.1) 0
termination_by i
decreasing_by exact List.mem_range.mp (List.mem_of_mem_filter j.2)

theorem slotOf_eq {p : Placement} {i : Nat} {l : Placed} (h : p.labels[i]? = some l) :
    p.slotOf i = leastFree ((p.openBefore i l.startLine).map p.slotOf) 0 := by
  rw [slotOf, h]
  simp only [List.map_attach_eq_pmap, List.pmap_eq_map]

theorem mem_openBefore_iff {p : Placement} {i j line : Nat} :
    j ∈ p.openBefore i line ↔
      j < i ∧ ∃ m, p.labels[j]? = some m ∧ m.isMultiline = true ∧ line ≤ m.endLine := by
  simp only [openBefore, List.mem_filter, List.mem_range, Option.any_eq_true, Bool.and_eq_true,
    decide_eq_true_eq]

theorem slotOf_ne {p : Placement} {i j : Nat} {l m : Placed} (hi : p.labels[i]? = some l)
    (hj : p.labels[j]? = some m) (hm : m.isMultiline = true) (hlt : j < i)
    (hle : l.startLine ≤ m.endLine) : p.slotOf i ≠ p.slotOf j := by
  intro heq
  apply leastFree_not_mem ((p.openBefore i l.startLine).map p.slotOf) 0
  rw [← slotOf_eq hi, heq]
  exact List.mem_map.mpr ⟨j, mem_openBefore_iff.mpr ⟨hlt, m, hj, hm, hle⟩, rfl⟩

theorem slotOf_injective_on_line {p : Placement} {i j line : Nat} {l m : Placed}
    (hi : p.labels[i]? = some l) (hj : p.labels[j]? = some m) (hl : l.isMultiline = true)
    (hm : m.isMultiline = true) (hli : l.reaches line = true) (hmj : m.reaches line = true)
    (heq : p.slotOf i = p.slotOf j) : i = j := by
  simp only [Placed.reaches, Bool.and_eq_true, decide_eq_true_eq] at hli hmj
  rcases Nat.lt_trichotomy i j with hlt | rfl | hlt
  · exact absurd heq.symm (slotOf_ne hj hi hl hlt (by omega))
  · rfl
  · exact absurd heq (slotOf_ne hi hj hm hlt (by omega))

/-- The number of labels of several lines on a line. -/
def countAt (p : Placement) (line : Nat) : Nat :=
  p.multiline.countP fun m => m.reaches line

theorem mem_multiline_iff {p : Placement} {l : Placed} :
    l ∈ p.multiline ↔ l ∈ p.labels ∧ l.isMultiline = true :=
  List.mem_filter

theorem countAt_le_depth {p : Placement} {l : Placed} (h : l ∈ p.multiline) :
    p.countAt l.startLine ≤ p.depth :=
  le_foldr_max (.inr (List.mem_map.mpr ⟨l, h, rfl⟩))

theorem exists_countAt_eq_depth {p : Placement} (h : 0 < p.depth) :
    ∃ l ∈ p.multiline, p.countAt l.startLine = p.depth := by
  obtain ⟨l, hl, hcount⟩ := List.mem_map.mp (foldr_max_mem h)
  exact ⟨l, hl, hcount⟩

theorem length_filter_range_any {α : Type} (xs : List α) (q : α → Bool) (i : Nat) :
    ((List.range i).filter fun j => (xs[j]?).any q).length = (xs.take i).countP q := by
  induction i with
  | zero => simp
  | succ i ih =>
    rw [List.range_succ, List.filter_append, List.length_append, ih, List.take_add_one,
      List.countP_append]
    congr 1
    cases hx : xs[i]? with
    | none => simp [hx]
    | some x => cases hq : q x <;> simp [hx, hq]

/-- The labels open where a label starts are counted in the depth, and so is that label. -/
theorem openBefore_length_lt_countAt {p : Placement} {i : Nat} {l : Placed}
    (h : p.labels[i]? = some l) (hm : l.isMultiline = true) :
    (p.openBefore i l.startLine).length < p.countAt l.startLine := by
  obtain ⟨hi, hget⟩ := List.getElem?_eq_some_iff.mp h
  have hopen : (p.openBefore i l.startLine).length =
      (p.labels.take i).countP fun m => m.reaches l.startLine && m.isMultiline := by
    rw [openBefore, length_filter_range_any]
    apply List.countP_congr
    intro m hmem
    obtain ⟨j, hj, rfl⟩ := List.mem_iff_getElem.mp hmem
    rw [List.length_take] at hj
    rw [List.getElem_take]
    have hstart := startLine_mono (List.getElem?_eq_getElem (show j < p.labels.length by omega)) h
      (by omega)
    simp only [Placed.reaches, Bool.and_eq_true, decide_eq_true_eq]
    constructor
    · rintro ⟨hmulti, hend⟩
      exact ⟨⟨hstart, hend⟩, hmulti⟩
    · rintro ⟨⟨_, hend⟩, hmulti⟩
      exact ⟨hmulti, hend⟩
  have hsplit : p.labels = p.labels.take i ++ l :: p.labels.drop (i + 1) := by
    rw [← hget, List.getElem_cons_drop, List.take_append_drop]
  have hreach : (l.reaches l.startLine && l.isMultiline) = true := by
    rw [reaches_startLine (List.mem_of_getElem? h), hm, Bool.and_self]
  have hall : p.countAt l.startLine =
      (p.labels.take i ++ l :: p.labels.drop (i + 1)).countP fun m =>
        m.reaches l.startLine && m.isMultiline := by
    rw [← hsplit, countAt, multiline, List.countP_filter]
  have hcons := List.countP_cons_of_pos (p := fun m : Placed => m.reaches l.startLine &&
    m.isMultiline) (l := p.labels.drop (i + 1)) hreach
  rw [hall, hopen, List.countP_append, hcons]
  omega

theorem slotOf_lt_depth {p : Placement} {i : Nat} {l : Placed} (h : p.labels[i]? = some l)
    (hm : l.isMultiline = true) : p.slotOf i < p.depth := by
  have hmem : l ∈ p.multiline := mem_multiline_iff.mpr ⟨List.mem_of_getElem? h, hm⟩
  have hslot := leastFree_le ((p.openBefore i l.startLine).map p.slotOf) 0
  have hopen := openBefore_length_lt_countAt h hm
  have hdepth := countAt_le_depth hmem
  rw [← slotOf_eq h, List.length_map] at hslot
  omega

end Placement

end Callout
