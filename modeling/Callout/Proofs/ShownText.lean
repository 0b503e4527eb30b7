import Callout.Proofs.DrawnBlock
import Mathlib.Data.List.DropRight

namespace Callout

theorem dropTerminators_eq (text : List Char) : dropTerminators text = text.rdropWhile isTerminator :=
  rfl

theorem dropTerminators_eq_nil_iff {text : List Char} :
    dropTerminators text = [] ↔ ∀ c ∈ text, isTerminator c = true := by
  rw [dropTerminators_eq, List.rdropWhile_eq_nil_iff]

/-- The end of a text is dropped from its last part, and from the part before only when nothing is left of
the last one. -/
theorem dropEndWhile_append {α : Type} (p : α → Bool) (left right : List α) :
    Text.dropEndWhile p (left ++ right) =
      if Text.dropEndWhile p right = [] then Text.dropEndWhile p left
      else left ++ Text.dropEndWhile p right := by
  have hempty : (right.reverse.dropWhile p).isEmpty = true ↔ Text.dropEndWhile p right = [] := by
    rw [List.isEmpty_iff, ← List.reverse_eq_nil_iff]
    rfl
  rw [Text.dropEndWhile, List.reverse_append, List.dropWhile_append]
  simp only [hempty]
  split
  next => rfl
  next =>
    rw [List.reverse_append, List.reverse_reverse]
    rfl

theorem dropTerminators_append (left right : List Char) : dropTerminators (left ++ right) =
    if dropTerminators right = [] then dropTerminators left else left ++ dropTerminators right :=
  dropEndWhile_append isTerminator left right

theorem isPrefix_dropTerminators (text : List Char) : dropTerminators text <+: text :=
  List.rdropWhile_prefix _ text

theorem dropTerminators_concat_eq_iff {text : List Char} {c : Char} :
    dropTerminators (text ++ [c]) = text ++ [c] ↔ isTerminator c = false := by
  rw [dropTerminators_eq, List.rdropWhile_eq_self_iff]
  simp

/-- The pieces of a text as they are shown, one after the other. -/
def shownPieces (texts : List (List Char)) : List Char :=
  (texts.map dropTerminators).flatten

theorem length_shownPieces_le (texts : List (List Char)) :
    (shownPieces texts).length ≤ (dropTerminators texts.flatten).length := by
  induction texts with
  | nil => exact Nat.le_refl _
  | cons text texts ih =>
    have htext := (isPrefix_dropTerminators text).length_le
    rw [shownPieces, List.map_cons, List.flatten_cons, ← shownPieces, List.length_append,
      List.flatten_cons, dropTerminators_append]
    split
    next hnil =>
      rw [hnil, List.length_nil] at ih
      omega
    next =>
      rw [List.length_append]
      omega

theorem dropTerminators_flatten_eq_nil {front back : List (List Char)}
    (h : dropTerminators (front ++ back).flatten = []) : dropTerminators back.flatten = [] := by
  rw [dropTerminators_eq_nil_iff] at h ⊢
  intro c hc
  apply h
  rw [List.flatten_append]
  exact List.mem_append_right _ hc

/-- Pieces show the text that they make up when none of them ends in a terminator, apart from those
behind which nothing is shown. -/
theorem shownPieces_eq_iff {texts : List (List Char)} :
    shownPieces texts = dropTerminators texts.flatten ↔ ∀ front text back,
      texts = front ++ text :: back → dropTerminators back.flatten ≠ [] →
        dropTerminators text = text := by
  induction texts with
  | nil =>
    refine iff_of_true rfl ?_
    intro front text back h
    simp at h
  | cons text texts ih =>
    have hlength := length_shownPieces_le texts
    have hpiece := (isPrefix_dropTerminators text).length_le
    rw [shownPieces, List.map_cons, List.flatten_cons, ← shownPieces, List.flatten_cons,
      dropTerminators_append]
    by_cases hnil : dropTerminators texts.flatten = []
    · rw [if_pos hnil]
      rw [hnil, List.length_nil] at hlength
      refine iff_of_true ?_ ?_
      · rw [List.length_eq_zero_iff.mp (Nat.le_zero.mp hlength), List.append_nil]
      · intro front piece back h hback
        cases front with
        | nil =>
          cases h
          exact absurd hnil hback
        | cons first front =>
          rw [List.cons_append] at h
          rw [(List.cons.inj h).2, List.append_cons] at hnil
          exact absurd (dropTerminators_flatten_eq_nil hnil) hback
    · rw [if_neg hnil]
      constructor
      · intro heq
        obtain ⟨hpiece, hrest⟩ : dropTerminators text = text ∧
            shownPieces texts = dropTerminators texts.flatten := by
          refine List.append_inj heq ?_
          have := congrArg List.length heq
          rw [List.length_append, List.length_append] at this
          omega
        intro front piece back h hback
        cases front with
        | nil =>
          cases h
          exact hpiece
        | cons first front =>
          cases h
          exact ih.mp hrest front piece back rfl hback
      · intro hall
        rw [hall [] text texts rfl hnil, ih.mpr]
        intro front piece back h hback
        exact hall (text :: front) piece back (by rw [h]; rfl) hback

/-- The pieces of a text end at the cuts, and at nothing else. -/
theorem piece_ends {slice : List Char} {first : Nat} {rest : List Nat} {texts : List (List Char)}
    (hinc : (first :: rest).Pairwise (· < ·))
    (h : List.Forall₂ (IsPieceOf slice) (pieces (first :: rest)) texts) :
    (∀ front text back, texts = front ++ text :: back → text ≠ [] ∧
      first + byteWidth (front.flatten ++ text) ∈ rest) ∧
    ∀ cut ∈ rest, ∃ front text back, texts = front ++ text :: back ∧
      first + byteWidth (front.flatten ++ text) = cut := by
  induction rest generalizing first texts with
  | nil =>
    cases h
    refine ⟨fun front text back h => ?_, fun cut hcut => ?_⟩
    · simp at h
    · cases hcut
  | cons second rest ih =>
    obtain ⟨hfirst, hrest⟩ := List.pairwise_cons.mp hinc
    obtain ⟨text, texts, ⟨_, _, _, _, hwidth⟩, hpieces, rfl⟩ := List.forall₂_cons_left_iff.mp h
    have hlt := hfirst second (by simp)
    have hwidth : first + byteWidth text = second := hwidth
    obtain ⟨hends, hcuts⟩ := ih hrest hpieces
    refine ⟨?_, ?_⟩
    · intro front piece back heq
      cases front with
      | nil =>
        cases heq
        refine ⟨?_, by simp [hwidth]⟩
        rintro rfl
        rw [byteWidth_nil] at hwidth
        omega
      | cons head front =>
        cases heq
        obtain ⟨hne, hmem⟩ := hends front piece back rfl
        refine ⟨hne, List.mem_cons_of_mem _ ?_⟩
        rwa [List.flatten_cons, List.append_assoc, byteWidth_append, ← Nat.add_assoc, hwidth]
    · intro cut hcut
      rcases List.mem_cons.mp hcut with rfl | hcut
      · exact ⟨[], text, texts, rfl, by simp [hwidth]⟩
      · obtain ⟨front, piece, back, rfl, hend⟩ := hcuts cut hcut
        refine ⟨text :: front, piece, back, rfl, ?_⟩
        rwa [List.flatten_cons, List.append_assoc, byteWidth_append, ← Nat.add_assoc, hwidth]

namespace Placement

variable {p : Placement} {i : Nat} {line : Line} {slice : List Char}

/-- A label starts or stops on a line behind a carriage return that is not at the end of the line. -/
def HidesReturn (p : Placement) (i : Nat) : Prop :=
  ∃ head tail, p.source.lineSlice i = .ok (head ++ '\r' :: tail) ∧ dropTerminators tail ≠ [] ∧
    ∃ m ∈ p.touching i, m.2.start = byteWidth (head ++ ['\r']) ∨
      m.2.stop = byteWidth (head ++ ['\r'])

/-- A terminator with text behind it in the same line is a carriage return. -/
theorem eq_return_of_terminator {head tail : List Char} {c : Char}
    (hseparator : ∀ c ∈ slice.dropLast, isSeparator c = false) (hslice : slice = head ++ c :: tail)
    (htail : tail ≠ []) (hc : isTerminator c = true) : c = '\r' := by
  have hmem : c ∈ slice.dropLast := by
    rw [hslice, List.dropLast_append_cons, List.dropLast_cons_of_ne_nil htail]
    simp
  simpa [isTerminator, hseparator c hmem] using hc

/-- A hidden carriage return ends a piece that has shown text behind it. -/
theorem exists_cut_piece {texts : List (List Char)}
    (hpieces : ∀ cut ∈ cuts line.byteLen (p.touching i), cut = 0 ∨ ∃ front text back,
      texts = front ++ text :: back ∧ byteWidth (front.flatten ++ text) = cut)
    (hslice : p.source.lineSlice i = .ok slice) (hwidth : byteWidth slice = line.byteLen)
    (hflatten : texts.flatten = slice) (h : p.HidesReturn i) :
    ∃ front text back, texts = front ++ text :: back ∧ dropTerminators back.flatten ≠ [] ∧
      ∃ before, front.flatten ++ text = before ++ ['\r'] := by
  obtain ⟨head, tail, hsplit, htail, m, hm, hbound⟩ := h
  have hsplit : slice = (head ++ ['\r']) ++ tail := by
    rw [Except.ok.inj (hslice.symm.trans hsplit), List.append_assoc]
    rfl
  have hwidths := congrArg byteWidth hsplit
  rw [byteWidth_append, hwidth] at hwidths
  have hpos := byteWidth_pos (List.append_ne_nil_of_right_ne_nil head (List.cons_ne_nil '\r' []))
  obtain hzero | ⟨front, text, back, heq, hend⟩ := hpieces (byteWidth (head ++ ['\r']))
    (mem_cuts_iff.mpr ⟨by omega, .inr (.inr ⟨m, hm, hbound⟩)⟩)
  · omega
  · have hwhole : (front.flatten ++ text) ++ back.flatten = (head ++ ['\r']) ++ tail := by
      rw [← hsplit, ← hflatten, heq]
      simp
    obtain ⟨hhead, rfl⟩ := head_eq_of_byteWidth_eq hwhole hend
    exact ⟨front, text, back, heq, htail, head, hhead⟩

/-- Where a piece ends between the ends of its line, a label starts or stops. -/
theorem exists_mark_of_cut {before after : List Char} (hwidth : byteWidth slice = line.byteLen)
    (hsplit : slice = before ++ after) (hbefore : before ≠ []) (hafter : after ≠ [])
    (hcut : byteWidth before ∈ cuts line.byteLen (p.touching i)) :
    ∃ m ∈ p.touching i, m.2.start = byteWidth before ∨ m.2.stop = byteWidth before := by
  have hwidths := congrArg byteWidth hsplit
  rw [byteWidth_append, hwidth] at hwidths
  have hpos := byteWidth_pos hbefore
  have hpos' := byteWidth_pos hafter
  obtain ⟨_, hzero | hlast | hmark⟩ := mem_cuts_iff.mp hcut
  · omega
  · omega
  · exact hmark

/-- The pieces of a line show it as it is exactly when no carriage return is hidden. -/
theorem shownPieces_slice_iff {texts : List (List Char)} (hline : p.source.lines[i]? = some line)
    (hslice : p.source.lineSlice i = .ok slice) (hflatten : texts.flatten = slice)
    (htexts : List.Forall₂ (IsPieceOf slice) (pieces (cuts line.byteLen (p.touching i))) texts) :
    shownPieces texts = dropTerminators slice ↔ ¬p.HidesReturn i := by
  obtain ⟨slice', hslice', hwidth, hseparator⟩ := Source.exists_lineSlice hline
  cases hslice'.symm.trans hslice
  obtain ⟨rest, hcuts, _⟩ := cuts_eq_cons line.byteLen (p.touching i)
  obtain ⟨hends, hpieces⟩ := piece_ends (hcuts ▸ cuts_increasing _ _) (hcuts ▸ htexts)
  simp only [Nat.zero_add] at hends hpieces
  rw [← hflatten, shownPieces_eq_iff]
  constructor
  · intro hall hhides
    obtain ⟨front, text, back, heq, hback, before, hbefore⟩ := exists_cut_piece
      (fun cut hcut => (List.mem_cons.mp (hcuts ▸ hcut)).imp_right (hpieces cut)) hslice hwidth
      hflatten hhides
    obtain ⟨init, c, rfl⟩ :=
      (List.eq_nil_or_concat' text).resolve_left (hends front text back heq).1
    have hkept := hall front _ back heq hback
    rw [← List.append_assoc] at hbefore
    obtain rfl : c = '\r' := by simpa using (List.append_inj' hbefore rfl).2
    rw [dropTerminators_concat_eq_iff] at hkept
    cases hkept
  · intro hnone front text back heq hback
    obtain ⟨hne, hend⟩ := hends front text back heq
    obtain ⟨init, c, rfl⟩ := (List.eq_nil_or_concat' text).resolve_left hne
    rw [dropTerminators_concat_eq_iff]
    by_contra hterminator
    have hsplit : slice = (front.flatten ++ init) ++ c :: back.flatten := by
      rw [← hflatten, heq]
      simp
    have hbackNe : back.flatten ≠ [] := by
      intro hnil
      rw [hnil] at hback
      exact hback rfl
    obtain rfl := eq_return_of_terminator hseparator hsplit hbackNe (by simpa using hterminator)
    rw [← List.append_assoc] at hend
    have hcut : byteWidth ((front.flatten ++ init) ++ ['\r']) ∈
        cuts line.byteLen (p.touching i) := by
      rw [hcuts]
      exact List.mem_cons_of_mem _ hend
    have hmark := exists_mark_of_cut hwidth (by rw [hsplit]; simp) (by simp) hbackNe hcut
    exact hnone ⟨front.flatten ++ init, back.flatten, by rw [hslice, hsplit], hback, hmark⟩

end Placement

end Callout
