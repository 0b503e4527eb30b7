import Callout.Fragment
import Callout.Proofs.PlacedLabels

namespace Callout

theorem mem_cuts_iff {byteLen cut : Nat} {marks : List (Nat × Span)} :
    cut ∈ cuts byteLen marks ↔ cut ≤ byteLen ∧
      (cut = 0 ∨ cut = byteLen ∨ ∃ m ∈ marks, m.2.start = cut ∨ m.2.stop = cut) := by
  simp only [cuts, List.mem_filter, List.mem_range, Nat.lt_succ_iff, Bool.or_eq_true, beq_iff_eq,
    List.any_eq_true, or_assoc]

theorem cuts_increasing (byteLen : Nat) (marks : List (Nat × Span)) :
    (cuts byteLen marks).Pairwise (· < ·) :=
  List.pairwise_lt_range.filter _

theorem cuts_eq_cons (byteLen : Nat) (marks : List (Nat × Span)) :
    ∃ rest, cuts byteLen marks = 0 :: rest ∧ (0 :: rest).getLast? = some byteLen := by
  have hincreasing := cuts_increasing byteLen marks
  have hfirst : 0 ∈ cuts byteLen marks := mem_cuts_iff.mpr ⟨Nat.zero_le _, .inl rfl⟩
  have hlast : byteLen ∈ cuts byteLen marks := mem_cuts_iff.mpr ⟨Nat.le_refl _, .inr (.inl rfl)⟩
  have hbound : ∀ cut ∈ cuts byteLen marks, cut ≤ byteLen := fun _ h => (mem_cuts_iff.mp h).1
  obtain ⟨first, rest, heq⟩ := List.exists_cons_of_ne_nil (List.ne_nil_of_mem hfirst)
  rw [heq] at hincreasing hfirst hlast hbound
  obtain rfl : first = 0 := by
    rcases List.mem_cons.mp hfirst with rfl | hmem
    · rfl
    · have := (List.pairwise_cons.mp hincreasing).1 0 hmem
      omega
  refine ⟨rest, heq, ?_⟩
  obtain ⟨front, last, hsplit⟩ := List.eq_nil_or_concat (0 :: rest) |>.resolve_left (by simp)
  rw [List.concat_eq_append] at hsplit
  rw [hsplit] at hincreasing hlast hbound ⊢
  rw [List.getLast?_concat, Option.some_inj]
  rcases List.mem_append.mp hlast with hmem | hmem
  · have hlt := (List.pairwise_append.mp hincreasing).2.2 byteLen hmem last (by simp)
    have := hbound last (by simp)
    omega
  · exact (List.mem_singleton.mp hmem).symm

theorem mem_pieces {cuts : List Nat} {piece : Nat × Nat} (hinc : cuts.Pairwise (· < ·))
    (h : piece ∈ pieces cuts) : piece.1 ∈ cuts ∧ piece.2 ∈ cuts ∧ piece.1 < piece.2 := by
  induction cuts with
  | nil => cases h
  | cons first rest ih =>
    cases rest with
    | nil => cases h
    | cons second rest =>
      obtain ⟨hfirst, hrest⟩ := List.pairwise_cons.mp hinc
      rcases List.mem_cons.mp h with rfl | h
      · exact ⟨by simp, by simp, hfirst second (by simp)⟩
      · obtain ⟨hstart, hstop, hlt⟩ := ih hrest h
        exact ⟨List.mem_cons_of_mem _ hstart, List.mem_cons_of_mem _ hstop, hlt⟩

theorem piece_bounds {piece : Nat × Nat} {byteLen : Nat} {marks : List (Nat × Span)}
    (h : piece ∈ pieces (cuts byteLen marks)) : piece.1 < piece.2 ∧ piece.2 ≤ byteLen := by
  obtain ⟨_, hstop, hlt⟩ := mem_pieces (cuts_increasing _ _) h
  exact ⟨hlt, (mem_cuts_iff.mp hstop).1⟩

/-- Where there are two cuts, every cut bounds a piece. -/
theorem exists_piece_of_mem {first second cut : Nat} {rest : List Nat}
    (h : cut ∈ first :: second :: rest) :
    ∃ piece ∈ pieces (first :: second :: rest), piece.1 = cut ∨ piece.2 = cut := by
  induction rest generalizing first second with
  | nil =>
    refine ⟨(first, second), List.mem_cons_self, ?_⟩
    rcases List.mem_cons.mp h with rfl | h
    · exact .inl rfl
    · exact .inr (List.mem_singleton.mp h).symm
  | cons third rest ih =>
    rcases List.mem_cons.mp h with rfl | h
    · exact ⟨(cut, second), List.mem_cons_self, .inl rfl⟩
    · obtain ⟨piece, hpiece, hcut⟩ := ih h
      exact ⟨piece, List.mem_cons_of_mem _ hpiece, hcut⟩

/-- The text of a piece is what stands between its bounds. -/
def IsPieceOf (slice : List Char) (piece : Nat × Nat) (text : List Char) : Prop :=
  ∃ left right, slice = left ++ text ++ right ∧ byteWidth left = piece.1 ∧
    piece.1 + byteWidth text = piece.2

/-- Texts between neighbouring cuts make up what stands from the first cut on. -/
theorem exists_piece_texts {slice left right : List Char} {first : Nat} {rest : List Nat}
    (hslice : slice = left ++ right) (hleft : byteWidth left = first)
    (hinc : (first :: rest).Pairwise (· < ·)) (hcuts : ∀ cut ∈ rest, IsBoundary slice cut)
    (hlast : (first :: rest).getLast? = some (byteWidth slice)) :
    ∃ texts, List.Forall₂ (IsPieceOf slice) (pieces (first :: rest)) texts ∧
      texts.flatten = right := by
  induction rest generalizing left right first with
  | nil =>
    refine ⟨[], .nil, ?_⟩
    rw [List.getLast?_singleton, Option.some_inj, hslice, byteWidth_append] at hlast
    by_contra hne
    have := byteWidth_pos (Ne.symm hne)
    omega
  | cons second rest ih =>
    obtain ⟨hfirst, hrest⟩ := List.pairwise_cons.mp hinc
    have hlt := hfirst second (by simp)
    obtain ⟨left', text, after, hsplit, hleft', htext⟩ := split_of_boundaries (Nat.le_of_lt hlt)
      ⟨left, right, hslice, hleft⟩ (hcuts second (by simp))
    have heq : left' ++ (text ++ after) = left ++ right := by
      rw [← List.append_assoc, ← hsplit, hslice]
    obtain ⟨rfl, rfl⟩ := head_eq_of_byteWidth_eq heq (by omega)
    obtain ⟨texts, htexts, hflatten⟩ := ih hsplit (by rw [byteWidth_append]; omega) hrest
      (fun cut hcut => hcuts cut (by simp [hcut])) (by rw [← hlast, List.getLast?_cons_cons])
    refine ⟨text :: texts, .cons ⟨left', after, hsplit, hleft, by omega⟩ htexts, ?_⟩
    rw [List.flatten_cons, hflatten]

namespace Placement

variable {p : Placement} {i : Nat} {line : Line} {slice : List Char}

/-- The bounds that labels have on a line are boundaries of characters. -/
def AlignedOn (p : Placement) (line : Nat) : Prop :=
  ∀ l ∈ p.labels, (l.startLine = line → IsBoundary p.source.text l.label.span.start) ∧
    (l.endLine = line → IsBoundary p.source.text l.label.span.stop)

theorem isBoundary_mark_iff {l : Placed} {mark : Span} (hline : p.source.lines[i]? = some line)
    (hslice : p.source.lineSlice i = .ok slice) (hl : l ∈ p.labels)
    (hmark : p.markOf i l = some mark) :
    (IsBoundary slice mark.start ∧ IsBoundary slice mark.stop) ↔
      (l.startLine = i → IsBoundary p.source.text l.label.span.start) ∧
        (l.endLine = i → IsBoundary p.source.text l.label.span.stop) := by
  obtain ⟨slice', hslice', hwidth, _⟩ := Source.exists_lineSlice hline
  cases hslice'.symm.trans hslice
  have hi := (markOf_isSome_iff hl).mp (by rw [hmark]; rfl)
  obtain ⟨mark', hmark', hstart, hstop⟩ := markOf_on_line hl hline hi
  cases hmark.symm.trans hmark'
  have hle := markOf_stop_le hl hline hmark
  have hends : IsBoundary p.source.text line.byteOffset ∧ IsBoundary p.source.text line.byteEnd :=
    ⟨(Source.isBoundary_slice_iff hline hslice (Nat.zero_le _)).mp (isBoundary_zero slice),
      (Source.isBoundary_slice_iff hline hslice (Nat.le_refl _)).mp
        (hwidth ▸ isBoundary_byteWidth slice)⟩
  rw [Source.isBoundary_slice_iff hline hslice hle,
    Source.isBoundary_slice_iff hline hslice (Nat.le_trans mark.start_le_stop hle), hstart, hstop]
  constructor
  · rintro ⟨hbstart, hbstop⟩
    exact ⟨fun he => by rwa [if_pos he.symm] at hbstart, fun he => by rwa [if_pos he.symm] at hbstop⟩
  · rintro ⟨hbstart, hbstop⟩
    constructor
    · split
      next he => exact hbstart he.symm
      next => exact hends.1
    · split
      next he => exact hbstop he.symm
      next => exact hends.2

/-- The labels on a line are aligned exactly when their marks are. -/
theorem alignedOn_iff_marks (hline : p.source.lines[i]? = some line)
    (hslice : p.source.lineSlice i = .ok slice) : p.AlignedOn i ↔
      ∀ l ∈ p.labels, ∀ mark, p.markOf i l = some mark →
        IsBoundary slice mark.start ∧ IsBoundary slice mark.stop := by
  constructor
  · exact fun haligned l hl mark hmark =>
      (isBoundary_mark_iff hline hslice hl hmark).mpr (haligned l hl)
  · intro hmarks l hl
    cases hmark : p.markOf i l with
    | some mark => exact (isBoundary_mark_iff hline hslice hl hmark).mp (hmarks l hl mark hmark)
    | none =>
      have hoff : ¬(i = l.startLine ∨ i = l.endLine) := by
        rw [← markOf_isSome_iff hl, hmark]
        simp
      exact ⟨fun he => absurd (.inl he.symm) hoff, fun he => absurd (.inr he.symm) hoff⟩

/-- The labels on a line are aligned exactly when all cuts of the line are. -/
theorem alignedOn_iff (hline : p.source.lines[i]? = some line)
    (hslice : p.source.lineSlice i = .ok slice) :
    p.AlignedOn i ↔ ∀ cut ∈ cuts line.byteLen (p.touching i), IsBoundary slice cut := by
  obtain ⟨slice', hslice', hwidth, _⟩ := Source.exists_lineSlice hline
  cases hslice'.symm.trans hslice
  rw [alignedOn_iff_marks hline hslice]
  constructor
  · intro hmarks cut hcut
    obtain ⟨_, rfl | rfl | ⟨⟨j, mark⟩, hmem, hcut⟩⟩ := mem_cuts_iff.mp hcut
    · exact isBoundary_zero slice
    · exact hwidth ▸ isBoundary_byteWidth slice
    · obtain ⟨l, hl, hmark⟩ := mem_touching_iff.mp hmem
      have hb := hmarks l (List.mem_of_getElem? hl) mark hmark
      rcases hcut with rfl | rfl
      · exact hb.1
      · exact hb.2
  · intro hcuts l hl mark hmark
    obtain ⟨j, hj⟩ := List.mem_iff_getElem?.mp hl
    have hmem : (j, mark) ∈ p.touching i := mem_touching_iff.mpr ⟨l, hj, hmark⟩
    have hstop := markOf_stop_le hl hline hmark
    have hstart := Nat.le_trans mark.start_le_stop hstop
    exact ⟨hcuts _ (mem_cuts_iff.mpr ⟨hstart, .inr (.inr ⟨_, hmem, .inl rfl⟩)⟩),
      hcuts _ (mem_cuts_iff.mpr ⟨hstop, .inr (.inr ⟨_, hmem, .inr rfl⟩)⟩)⟩

theorem fragment_eq_ok (index : Int) (marks : List (Nat × Span)) {piece : Nat × Nat}
    {text : List Char} (hle : piece.1 ≤ piece.2)
    (htext : p.source.textBetween (line.byteOffset + piece.1 : Nat)
      (line.byteOffset + piece.2 : Nat) = .ok text) :
    ∃ f, p.fragment index line marks piece = .ok f ∧ f.text = text := by
  have hspan : Span.ofBounds piece.1 piece.2 = .ok ⟨piece.1, piece.2, hle⟩ :=
    Span.ofBounds_eq_ok rfl rfl
  rw [fragment, htext, hspan]
  exact ⟨_, rfl, rfl⟩

theorem mapM_fragment (marks : List (Nat × Span)) {pieces : List (Nat × Nat)}
    {texts : List (List Char)} (hline : p.source.lines[i]? = some line)
    (hslice : p.source.lineSlice i = .ok slice) (hle : ∀ piece ∈ pieces, piece.1 ≤ piece.2)
    (htexts : List.Forall₂ (IsPieceOf slice) pieces texts) :
    ∃ fragments, pieces.mapM (p.fragment i line marks) = .ok fragments ∧
      fragments.map Fragment.text = texts := by
  induction htexts with
  | nil => exact ⟨[], rfl, rfl⟩
  | @cons piece text rest texts hpiece hrest ih =>
    obtain ⟨left, right, rfl, hleft, hright⟩ := hpiece
    obtain ⟨f, hf, htext⟩ := fragment_eq_ok i marks (hle piece (by simp))
      (Source.textBetween_slice hline hslice hleft hright)
    obtain ⟨fragments, hfragments, hmap⟩ := ih fun piece hpiece => hle piece (by simp [hpiece])
    refine ⟨f :: fragments, ?_, by rw [List.map_cons, htext, hmap]⟩
    rw [List.mapM_cons, hf, hfragments]
    rfl

/-- On a line whose labels are aligned, the texts of the pieces make up the line. -/
theorem fragments_of_alignedOn (hline : p.source.lines[i]? = some line)
    (hslice : p.source.lineSlice i = .ok slice) (haligned : p.AlignedOn i) :
    ∃ fragments, p.fragments i = .ok fragments ∧ (fragments.map Fragment.text).flatten = slice ∧
      List.Forall₂ (IsPieceOf slice) (pieces (cuts line.byteLen (p.touching i)))
        (fragments.map Fragment.text) := by
  obtain ⟨slice', hslice', hwidth, _⟩ := Source.exists_lineSlice hline
  cases hslice'.symm.trans hslice
  have hcuts := (alignedOn_iff hline hslice).mp haligned
  have hincreasing := cuts_increasing line.byteLen (p.touching i)
  obtain ⟨rest, heq, hlast⟩ := cuts_eq_cons line.byteLen (p.touching i)
  obtain ⟨texts, htexts, hflatten⟩ := exists_piece_texts (List.nil_append slice).symm byteWidth_nil
    (heq ▸ hincreasing) (fun cut hcut => hcuts cut (by simp [heq, hcut])) (by rw [hlast, hwidth])
  rw [← heq] at htexts
  obtain ⟨fragments, hfragments, rfl⟩ := mapM_fragment (p.touching i) hline hslice
    (fun piece hpiece => Nat.le_of_lt (piece_bounds hpiece).1) htexts
  refine ⟨fragments, ?_, hflatten, htexts⟩
  rw [Placement.fragments, Source.line_eq_ok_iff.mpr hline, marks_eq_touching]
  exact hfragments

theorem fragment_misaligned (marks : List (Nat × Span)) {piece : Nat × Nat}
    (hline : p.source.lines[i]? = some line) (hslice : p.source.lineSlice i = .ok slice)
    (hlt : piece.1 < piece.2) (hle : piece.2 ≤ line.byteLen)
    (h : ¬(IsBoundary slice piece.1 ∧ IsBoundary slice piece.2)) :
    ∃ span, p.fragment i line marks piece = .error (.spanOutside span .misaligned) := by
  have hend := Source.lines_byteEnd_le_byteLen hline
  have hbyteEnd : line.byteEnd = line.byteOffset + line.byteLen := rfl
  rw [Source.isBoundary_slice_iff hline hslice (by omega),
    Source.isBoundary_slice_iff hline hslice hle] at h
  have htext := Source.textBetween_misaligned (Nat.add_lt_add_left hlt line.byteOffset)
    (by omega) h
  exact ⟨_, by rw [fragment, htext]; rfl⟩

theorem exists_misaligned_piece (hline : p.source.lines[i]? = some line)
    (hslice : p.source.lineSlice i = .ok slice) (h : ¬p.AlignedOn i) :
    ∃ piece ∈ pieces (cuts line.byteLen (p.touching i)),
      ¬(IsBoundary slice piece.1 ∧ IsBoundary slice piece.2) := by
  obtain ⟨cut, hcut, hcutb⟩ : ∃ cut ∈ cuts line.byteLen (p.touching i), ¬IsBoundary slice cut := by
    by_contra hnone
    refine h ((alignedOn_iff hline hslice).mpr fun cut hcut => ?_)
    by_contra hcutb
    exact hnone ⟨cut, hcut, hcutb⟩
  obtain ⟨rest, heq, _⟩ := cuts_eq_cons line.byteLen (p.touching i)
  rw [heq] at hcut ⊢
  cases rest with
  | nil =>
    obtain rfl := List.mem_singleton.mp hcut
    exact absurd (isBoundary_zero slice) hcutb
  | cons second rest =>
    obtain ⟨piece, hpiece, hbound⟩ := exists_piece_of_mem hcut
    refine ⟨piece, hpiece, ?_⟩
    rintro ⟨hstart, hstop⟩
    rcases hbound with rfl | rfl
    · exact hcutb hstart
    · exact hcutb hstop

theorem fragment_error (hline : p.source.lines[i]? = some line)
    (hslice : p.source.lineSlice i = .ok slice) {piece : Nat × Nat}
    (hpiece : piece ∈ pieces (cuts line.byteLen (p.touching i))) {e : Error}
    (h : p.fragment i line (p.touching i) piece = .error e) :
    ∃ span, e = .spanOutside span .misaligned := by
  obtain ⟨hlt, hle⟩ := piece_bounds hpiece
  by_cases hb : IsBoundary slice piece.1 ∧ IsBoundary slice piece.2
  · obtain ⟨left, mid, right, rfl, hleft, hmid⟩ :=
      split_of_boundaries (Nat.le_of_lt hlt) hb.1 hb.2
    obtain ⟨f, hok, _⟩ := fragment_eq_ok i (p.touching i) (Nat.le_of_lt hlt)
      (Source.textBetween_slice hline hslice hleft (by omega))
    cases hok.symm.trans h
  · obtain ⟨span, hspan⟩ := fragment_misaligned (p.touching i) hline hslice hlt hle hb
    cases hspan.symm.trans h
    exact ⟨span, rfl⟩

/-- Some piece of a line with a label off the boundaries fails, and the first to fail does so for the
same cause. -/
theorem fragments_of_not_alignedOn (hline : p.source.lines[i]? = some line)
    (hslice : p.source.lineSlice i = .ok slice) (h : ¬p.AlignedOn i) :
    ∃ span, p.fragments i = .error (.spanOutside span .misaligned) := by
  obtain ⟨piece, hpiece, hmisaligned⟩ := exists_misaligned_piece hline hslice h
  rw [Placement.fragments, Source.line_eq_ok_iff.mpr hline, marks_eq_touching]
  change ∃ span, (pieces (cuts line.byteLen (p.touching i))).mapM
    (p.fragment i line (p.touching i)) = .error (.spanOutside span .misaligned)
  cases hresult : (pieces (cuts line.byteLen (p.touching i))).mapM
      (p.fragment i line (p.touching i)) with
  | ok fragments =>
    obtain ⟨hlt, hle⟩ := piece_bounds hpiece
    obtain ⟨span, hspan⟩ :=
      fragment_misaligned (p.touching i) hline hslice hlt hle hmisaligned
    obtain ⟨f, hf⟩ := mapM_mem_ok hresult hpiece
    cases hspan.symm.trans hf
  | error e =>
    obtain ⟨failing, hfailing, hf⟩ := mapM_eq_error hresult
    obtain ⟨span, rfl⟩ := fragment_error hline hslice hfailing hf
    exact ⟨span, rfl⟩

theorem alignedOn_of_fragments {fragments : List Fragment} (hi : i < p.source.lines.length)
    (h : p.fragments i = .ok fragments) : p.AlignedOn i := by
  obtain ⟨line, hline⟩ := Source.exists_line hi
  obtain ⟨slice, hslice, _⟩ := Source.exists_lineSlice hline
  by_contra hnot
  obtain ⟨span, hspan⟩ := fragments_of_not_alignedOn hline hslice hnot
  cases hspan.symm.trans h

end Placement

end Callout
