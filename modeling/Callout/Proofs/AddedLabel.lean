import Callout.Proofs.DrawnLines
import Callout.Proofs.RenamedRows

namespace Callout

def Target.rename (r : Renaming) (t : Target) : Target :=
  { t with index := r.label t.index }

def Fragment.rename (r : Renaming) (f : Fragment) : Fragment :=
  { f with owner := f.owner.map r.label }

theorem Target.renames_rename (r : Renaming) (t : Target) : Target.Renames r t (t.rename r) :=
  ⟨rfl, rfl, rfl, rfl, rfl, rfl⟩

/-- The same mark, of a label of another index. -/
def renameMark (r : Renaming) (m : Nat × Span) : Nat × Span :=
  (r.label m.1, m.2)

theorem cuts_rename (r : Renaming) (byteLen : Nat) (marks : List (Nat × Span)) :
    cuts byteLen (marks.map (renameMark r)) = cuts byteLen marks := by
  simp only [cuts, List.any_map]
  rfl

theorem shorter_rename (r : Renaming) (best : Option (Nat × Span)) (mark : Nat × Span) :
    shorter (best.map (renameMark r)) (renameMark r mark) = (shorter best mark).map (renameMark r) := by
  cases best with
  | none => rfl
  | some b =>
    change (if mark.2.length < b.2.length then some (renameMark r mark) else some (renameMark r b)) =
      (if mark.2.length < b.2.length then some mark else some b).map (renameMark r)
    split <;> rfl

theorem innermost_rename (r : Renaming) (marks : List (Nat × Span)) (piece : Nat × Nat) :
    innermost (marks.map (renameMark r)) piece = (innermost marks piece).map (renameMark r) := by
  have hfold : ∀ marks : List (Nat × Span),
      marks.foldl (fun best mark => shorter best (renameMark r mark)) (Option.map (renameMark r) none) =
        (marks.foldl shorter none).map (renameMark r) :=
    fun _ => List.foldl_hom _ (shorter_rename r)
  rw [innermost, innermost, List.filter_map, List.foldl_map]
  exact hfold _

namespace Placement

/-- A placement on the same source with one more label, which lies on one line. -/
structure Adds (front : List Placed) (extra : Placed) (back : List Placed) (p q : Placement) :
    Prop where
  source_eq : q.source = p.source
  labels_eq : p.labels = front ++ back
  added_eq : q.labels = front ++ extra :: back
  single : extra.startLine = extra.endLine

variable {p q : Placement} {front back : List Placed} {extra : Placed}

section Labels

variable (h : Adds front extra back p q)
include h

theorem Adds.isMultiline_eq : extra.isMultiline = false := by
  rw [Placed.isMultiline, h.single, bne_self_eq_false]

theorem Adds.getElem? (i : Nat) : q.labels[(Renaming.past front.length).label i]? = p.labels[i]? := by
  rw [h.labels_eq, h.added_eq]
  rcases Nat.lt_or_ge i front.length with hlt | hge
  · rw [Renaming.past_of_lt hlt, List.getElem?_append_left hlt, List.getElem?_append_left hlt]
  · rw [Renaming.past_of_le hge, List.getElem?_append_right hge, List.getElem?_append_right (by omega),
      Nat.sub_add_comm hge, List.getElem?_cons_succ]

theorem Adds.getElem?_added : q.labels[front.length]? = some extra := by
  rw [h.added_eq, List.getElem?_append_right (Nat.le_refl _), Nat.sub_self, List.getElem?_cons_zero]

theorem Adds.mem_labels {l : Placed} : l ∈ q.labels ↔ l = extra ∨ l ∈ p.labels := by
  rw [h.labels_eq, h.added_eq]
  simp only [List.mem_append, List.mem_cons]
  tauto

theorem Adds.multiline_eq : q.multiline = p.multiline := by
  rw [multiline, multiline, h.labels_eq, h.added_eq, List.filter_append, List.filter_append,
    List.filter_cons, h.isMultiline_eq, if_neg (by simp)]

theorem Adds.marginWidth_eq : q.marginWidth = p.marginWidth := by
  rw [marginWidth, marginWidth, depth, depth, h.multiline_eq]

theorem Adds.relabels : Relabels (.past front.length) p q where
  labels_rel i := by
    rw [h.getElem?]
    cases p.labels[i]? with
    | none => exact .none
    | some l => exact .some ⟨rfl, rfl, rfl, rfl⟩
  exists_label j m hm hmulti := by
    apply Renaming.exists_past
    rintro rfl
    cases h.getElem?_added.symm.trans hm
    rw [h.isMultiline_eq] at hmulti
    cases hmulti

theorem Adds.renames : Renames (.past front.length) p q :=
  ⟨h.relabels, h.marginWidth_eq⟩

theorem Adds.mem_relevantLines {i : Nat} :
    i ∈ q.relevantLines ↔ i = extra.startLine ∨ i ∈ p.relevantLines := by
  simp only [mem_relevantLines_iff, h.mem_labels]
  constructor
  · rintro ⟨l, rfl | hl, hi⟩
    · exact .inl (by rcases hi with rfl | rfl <;> simp [h.single])
    · exact .inr ⟨l, hl, hi⟩
  · rintro (rfl | ⟨l, hl, hi⟩)
    · exact ⟨extra, .inl rfl, .inl rfl⟩
    · exact ⟨l, .inr hl, hi⟩

end Labels

section Line

variable {i : Nat} (h : Adds front extra back p q) (hi : i ≠ extra.startLine)
include h hi

theorem Adds.touching_eq :
    q.touching i = (p.touching i).map (renameMark (.past front.length)) := by
  have hmark : ∀ l, q.markOf i l = p.markOf i l := by
    intro l
    rw [markOf, markOf, h.source_eq]
  have hend : i ≠ extra.endLine := h.single ▸ hi
  have hoff : p.markOf i extra = none :=
    markOf_off_line (fun heq => hi (Int.ofNat_inj.mp heq)) fun heq => hend (Int.ofNat_inj.mp heq)
  apply eq_of_increasing (f := Prod.fst) (q.touching_increasing i)
  · exact List.pairwise_map.mpr ((p.touching_increasing i).imp fun hlt =>
      (Renaming.past front.length).label_strictMono hlt)
  · rintro ⟨j, mark⟩
    simp only [List.mem_map, Prod.exists, mem_touching_iff, renameMark, Prod.mk.injEq]
    constructor
    · rintro ⟨l, hl, hm⟩
      rw [hmark] at hm
      have hne : j ≠ front.length := by
        rintro rfl
        cases h.getElem?_added.symm.trans hl
        cases hoff.symm.trans hm
      obtain ⟨j, rfl⟩ := Renaming.exists_past hne
      exact ⟨j, mark, ⟨l, (h.getElem? j).symm.trans hl, hm⟩, rfl, rfl⟩
    · rintro ⟨j, mark, ⟨l, hl, hm⟩, rfl, rfl⟩
      exact ⟨l, (h.getElem? j).trans hl, (hmark l).trans hm⟩

theorem Adds.fragment_eq (line : Line) (piece : Nat × Nat) :
    q.fragment i line (q.touching i) piece =
      (p.fragment i line (p.touching i) piece).map (Fragment.rename (.past front.length)) := by
  rw [fragment, fragment, h.source_eq, h.touching_eq hi, innermost_rename]
  have hplaced : (((innermost (p.touching i) piece).map (renameMark (.past front.length))).map
      Prod.fst).bind (fun j => q.labels[j]?) =
        ((innermost (p.touching i) piece).map Prod.fst).bind fun j => p.labels[j]? := by
    cases innermost (p.touching i) piece with
    | none => rfl
    | some mark => exact h.getElem? mark.1
  rw [hplaced]
  cases p.source.textBetween (line.byteOffset + piece.1 : Nat) (line.byteOffset + piece.2 : Nat) with
  | error e => rfl
  | ok text =>
    cases Span.ofBounds piece.1 piece.2 with
    | error e => rfl
    | ok span =>
      cases innermost (p.touching i) piece <;> rfl

theorem Adds.fragments_eq :
    q.fragments i = (p.fragments i).map (List.map (Fragment.rename (.past front.length))) := by
  have hcuts : ∀ byteLen, cuts byteLen (q.touching i) = cuts byteLen (p.touching i) := by
    intro byteLen
    rw [h.touching_eq hi, cuts_rename]
  rw [fragments, fragments, marks_eq_touching, marks_eq_touching, h.source_eq]
  cases p.source.line i with
  | error e => rfl
  | ok line =>
    change (pieces (cuts line.byteLen (q.touching i))).mapM _ = Except.map _
      ((pieces (cuts line.byteLen (p.touching i))).mapM (p.fragment i line (p.touching i)))
    rw [hcuts]
    exact mapM_eq_map fun piece _ => h.fragment_eq hi line piece

theorem Adds.singles_eq : q.singles (q.touching i) =
    (p.singles (p.touching i)).map fun s => (renameMark (.past front.length) s.1, s.2) := by
  rw [h.touching_eq hi, singles, singles, List.filterMap_map, List.map_filterMap]
  congr 1
  funext m
  rw [Function.comp_apply, renameMark, h.getElem?]
  cases p.labels[m.1]? with
  | none => rfl
  | some l =>
    simp only [Option.bind_some]
    split <;> rfl

theorem Adds.targets_eq : q.targets i (q.touching i) =
    (p.targets i (p.touching i)).map (List.map (Target.rename (.past front.length))) := by
  have hcolumn : ∀ line offset, q.columnAt line offset = p.columnAt line offset := by
    intro line offset
    rw [columnAt, columnAt, h.source_eq]
  rw [targets, targets, h.singles_eq hi, h.source_eq]
  cases p.source.line i with
  | error e => rfl
  | ok line =>
    cases p.source.lineSlice i with
    | error e => rfl
    | ok slice =>
      change List.mapM _ (List.map _ _) = Except.map _ ((p.singles (p.touching i)).mapM _)
      rw [List.mapM_map]
      apply mapM_eq_map
      rintro ⟨⟨j, mark⟩, label⟩ _
      simp only [Function.comp_apply, renameMark, target, hcolumn]
      cases p.columnAt line mark.start with
      | error e => rfl
      | ok first => cases p.columnAt line mark.stop <;> rfl

/-- The block of any other line has the same rows, but for the indices of labels. -/
theorem Adds.block_rows {config : Config} (b : LineBlock p config i) (b' : LineBlock q config i) :
    b'.rows = b.rows.map (Row.rename (.past front.length)) := by
  have hfragments : b'.fragments = b.fragments.map (Fragment.rename (.past front.length)) := by
    have heq := b'.fragments_eq
    rw [h.fragments_eq hi, b.fragments_eq] at heq
    exact (Except.ok.inj heq).symm
  have htargets : b'.targets = b.targets.map (Target.rename (.past front.length)) := by
    have heq := b'.targets_eq
    rw [h.targets_eq hi, b.targets_eq] at heq
    exact (Except.ok.inj heq).symm
  have hcode : codeCells b'.fragments = codeCells b.fragments := by
    rw [hfragments, codeCells, List.flatMap_map]
    rfl
  exact h.renames.block_rows b b' (Target.renames_rename _) hcode htargets

end Line

end Placement

end Callout
