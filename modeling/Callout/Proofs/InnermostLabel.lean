import Callout.Proofs.LinePartition

namespace Callout

/-- Whether a mark, with the index of its label, comes before another where both could be shown: the
shorter one, and of equally long ones that of the earlier label. -/
def IsInner (m k : Nat × Span) : Prop :=
  m.2.length < k.2.length ∨ m.2.length = k.2.length ∧ m.1 ≤ k.1

/-- Whether a mark is the innermost of those that hold a byte. -/
structure IsInnermost (IsMark : Nat → Span → Prop) (b j : Nat) (mark : Span) : Prop where
  isMark : IsMark j mark
  holds : mark.Holds b
  inner : ∀ k other, IsMark k other → other.Holds b → IsInner (j, mark) (k, other)

/-- Whether a mark on a line is that of the label with index `j` in sorted order. -/
def Source.IsMark (s : Source) (labels : List Label) (index : Int) (j : Nat) (mark : Span) : Prop :=
  ∃ label, (sortLabels labels)[j]? = some label ∧ s.localSpan index label.span = .ok (some mark)

/-- Whether a piece of a line has the color of a label and tells on which lines the label lies. -/
structure Fragment.Presents (f : Fragment) (source : Source) (index : Int) (label : Label) : Prop where
  color_eq : f.color = label.color
  lines : ∃ startLine endLine, source.spanLines label.span = .ok (startLine, endLine) ∧
    (f.isMultiline = true ↔ startLine ≠ endLine) ∧
    (f.isMultilineStart = true ↔ startLine ≠ endLine ∧ (startLine : Int) = index)

theorem Source.exists_line_of_ok {s : Source} {index : Int} {line : Line} (h : s.line index = .ok line) :
    ∃ i : Nat, index = i ∧ s.lines[i]? = some line := by
  have hindex : 0 ≤ index := by
    by_contra hneg
    rw [Source.line, if_neg hneg] at h
    cases h
  obtain ⟨i, rfl⟩ := Int.eq_ofNat_of_zero_le hindex
  exact ⟨i, rfl, line_eq_ok_iff.mp h⟩

section Selection

variable {marks : List (Nat × Span)} {piece : Nat × Nat} {m k : Nat × Span}

theorem IsInner.refl (m : Nat × Span) : IsInner m m :=
  .inr ⟨rfl, Nat.le_refl _⟩

theorem IsInner.trans {n : Nat × Span} (h : IsInner m k) (h' : IsInner k n) : IsInner m n := by
  unfold IsInner at *
  omega

theorem IsInner.antisymm (h : IsInner m k) (h' : IsInner k m) : m.1 = k.1 := by
  unfold IsInner at *
  omega

/-- No byte has two innermost marks. -/
theorem IsInnermost.unique {IsMark : Nat → Span → Prop} {b j k : Nat} {mark other : Span}
    (h : IsInnermost IsMark b j mark) (h' : IsInnermost IsMark b k other) : j = k :=
  (h.inner k other h'.isMark h'.holds).antisymm (h'.inner j mark h.isMark h.holds)

/-- The search leaves the mark it has found only for a shorter one, so it ends with the innermost. -/
theorem foldl_shorter {best : Nat × Span} (h : (best :: marks).Pairwise fun a b => a.1 < b.1) :
    ∃ m ∈ best :: marks, marks.foldl shorter (some best) = some m ∧
      ∀ k ∈ best :: marks, IsInner m k := by
  induction marks generalizing best with
  | nil => exact ⟨best, by simp, rfl, by simp [IsInner.refl]⟩
  | cons mark rest ih =>
    obtain ⟨hbest, hrest⟩ := List.pairwise_cons.mp h
    have hfirst := hbest mark List.mem_cons_self
    rw [List.foldl_cons, shorter]
    split
    next hlt =>
      obtain ⟨m, hm, hfold, hinner⟩ := ih hrest
      have hmark := hinner mark List.mem_cons_self
      refine ⟨m, List.mem_cons_of_mem _ hm, hfold, List.forall_mem_cons.mpr ⟨?_, hinner⟩⟩
      exact hmark.trans (.inl hlt)
    next hge =>
      have hskip : (best :: rest).Pairwise fun a b => a.1 < b.1 :=
        List.pairwise_cons.mpr ⟨fun k hk => hbest k (List.mem_cons_of_mem _ hk),
          (List.pairwise_cons.mp hrest).2⟩
      obtain ⟨m, hm, hfold, hinner⟩ := ih hskip
      obtain ⟨hown, hlater⟩ := List.forall_mem_cons.mp hinner
      refine ⟨m, ?_, hfold, List.forall_mem_cons.mpr ⟨hown, List.forall_mem_cons.mpr ⟨?_, hlater⟩⟩⟩
      · rcases List.mem_cons.mp hm with rfl | hm
        · exact List.mem_cons_self
        · exact List.mem_cons_of_mem _ (List.mem_cons_of_mem _ hm)
      · have hmark : IsInner best mark := by
          unfold IsInner
          omega
        exact hown.trans hmark

/-- A piece has no label when no mark covers it, and else the innermost of those that do. -/
theorem innermost_cases (piece : Nat × Nat) (h : marks.Pairwise fun a b => a.1 < b.1) :
    innermost marks piece = none ∧ (∀ k ∈ marks, k.2.covers piece.1 piece.2 = false) ∨
      ∃ m ∈ marks, innermost marks piece = some m ∧ m.2.covers piece.1 piece.2 = true ∧
        ∀ k ∈ marks, k.2.covers piece.1 piece.2 = true → IsInner m k := by
  have hcovering := h.filter fun m => m.2.covers piece.1 piece.2
  rw [innermost]
  cases hfound : marks.filter fun m => m.2.covers piece.1 piece.2 with
  | nil =>
    refine .inl ⟨rfl, fun k hk => ?_⟩
    exact Bool.eq_false_iff.mpr (List.filter_eq_nil_iff.mp hfound k hk)
  | cons best rest =>
    rw [hfound] at hcovering
    obtain ⟨m, hm, hfold, hinner⟩ := foldl_shorter hcovering
    rw [← hfound] at hm hinner
    obtain ⟨hm, hcovers⟩ := List.mem_filter.mp hm
    refine .inr ⟨m, hm, ?_, hcovers, fun k hk hk' => hinner k (List.mem_filter.mpr ⟨hk, hk'⟩)⟩
    rw [List.foldl_cons]
    exact hfold

end Selection

section Chain

variable {fragments : List Fragment} {first last b : Nat}

theorem start_ge_of_chain (hchain : first :: fragments.map (fun f => f.span.stop) =
    fragments.map (fun f => f.span.start) ++ [last]) :
    ∀ f ∈ fragments, first ≤ f.span.start := by
  induction fragments generalizing first with
  | nil => simp
  | cons f rest ih =>
    rw [List.map_cons, List.map_cons, List.cons_append, List.cons.injEq] at hchain
    obtain ⟨hfirst, hrest⟩ := hchain
    refine List.forall_mem_cons.mpr ⟨Nat.le_of_eq hfirst, fun g hg => ?_⟩
    have hnext := ih hrest g hg
    have hspan := f.span.start_le_stop
    omega

/-- Of pieces that lie side by side, one holds a byte between their ends, and no other does. -/
theorem exists_piece_of_byte (hchain : first :: fragments.map (fun f => f.span.stop) =
    fragments.map (fun f => f.span.start) ++ [last]) (hfirst : first ≤ b) (hlast : b < last) :
    ∃ front f back, fragments = front ++ f :: back ∧ f.span.Holds b ∧
      ∀ g ∈ front ++ back, ¬g.span.Holds b := by
  induction fragments generalizing first with
  | nil =>
    have heq := (List.cons.inj hchain).1
    omega
  | cons f rest ih =>
    rw [List.map_cons, List.map_cons, List.cons_append, List.cons.injEq] at hchain
    obtain ⟨hstart, hrest⟩ := hchain
    rcases Nat.lt_or_ge b f.span.stop with hlt | hge
    · refine ⟨[], f, rest, rfl, ⟨by omega, hlt⟩, fun g hg hholds => ?_⟩
      have hafter := start_ge_of_chain hrest g hg
      have := hholds.1
      omega
    · obtain ⟨front, g, back, rfl, hholds, hothers⟩ := ih hrest hge
      refine ⟨f :: front, g, back, rfl, hholds, List.forall_mem_cons.mpr ⟨?_, hothers⟩⟩
      intro hown
      have := hown.2
      omega

end Chain

namespace Placement

variable {p : Placement} {source : Source} {labels : List Label} {index : Int} {i b j : Nat}
  {line : Line} {mark : Span} {fragments : List Fragment} {f : Fragment}

theorem isMark_iff (hp : ofLabels source labels = .ok p) :
    source.IsMark labels index j mark ↔ (j, mark) ∈ p.touching index := by
  obtain ⟨rfl, hlabels⟩ := ofLabels_eq_ok hp
  simp only [Source.IsMark, ← hlabels, List.getElem?_map, Option.map_eq_some_iff, mem_touching_iff]
  constructor
  · rintro ⟨_, ⟨l, hl, rfl⟩, hmark⟩
    rw [localSpan_eq_markOf (List.mem_of_getElem? hl)] at hmark
    exact ⟨l, hl, Except.ok.inj hmark⟩
  · rintro ⟨l, hl, hmark⟩
    exact ⟨_, ⟨l, hl, rfl⟩, by rw [localSpan_eq_markOf (List.mem_of_getElem? hl), hmark]⟩

theorem exists_piece_of_fragment (hline : p.source.lines[i]? = some line)
    (h : p.fragments i = .ok fragments) (hf : f ∈ fragments) :
    p.fragment i line (p.touching i) (f.span.start, f.span.stop) = .ok f := by
  rw [Placement.fragments, Source.line_eq_ok_iff.mpr hline, marks_eq_touching] at h
  obtain ⟨piece, _, hpiece⟩ := exists_of_mem_mapM (f := p.fragment i line (p.touching i)) h hf
  rw [(fragment_bounds hpiece).1]
  exact hpiece

/-- A mark covers a piece exactly when it holds one of its bytes. -/
theorem covers_iff_holds (hline : p.source.lines[i]? = some line) (h : p.fragments i = .ok fragments)
    (hf : f ∈ fragments) (hb : f.span.Holds b) (hmark : (j, mark) ∈ p.touching i) :
    mark.covers f.span.start f.span.stop = true ↔ mark.Holds b := by
  obtain ⟨l, hl, hmark⟩ := mem_touching_iff.mp hmark
  have hsides := fragments_inOrOut hline h hf (List.mem_of_getElem? hl) hmark
  simp only [Span.covers, Bool.and_eq_true, decide_eq_true_eq]
  unfold Span.InOrOut at hsides
  unfold Span.Holds at hb ⊢
  omega

theorem fragment_owner {marks : List (Nat × Span)} {piece : Nat × Nat}
    (h : p.fragment index line marks piece = .ok f) :
    f.owner = (innermost marks piece).map Prod.fst := by
  obtain ⟨_, _, h⟩ := bind_eq_ok_iff.mp h
  obtain ⟨_, _, h⟩ := bind_eq_ok_iff.mp h
  cases h
  rfl

theorem fragment_presents {marks : List (Nat × Span)} {piece : Nat × Nat} {l : Placed}
    (h : p.fragment index line marks piece = .ok f) (hj : f.owner = some j)
    (hl : p.labels[j]? = some l) : f.Presents p.source index l.label := by
  obtain ⟨_, _, h⟩ := bind_eq_ok_iff.mp h
  obtain ⟨_, _, h⟩ := bind_eq_ok_iff.mp h
  cases h
  have hplaced : (((innermost marks piece).map Prod.fst).bind fun i => p.labels[i]?) = some l := by
    rw [show (innermost marks piece).map Prod.fst = some j from hj]
    exact hl
  refine ⟨by simp [hplaced], l.startLine, l.endLine, p.lines_eq l (List.mem_of_getElem? hl), ?_, ?_⟩
  · simp [hplaced, Placed.isMultiline]
  · simp [hplaced, Placed.isMultiline]

theorem fragment_unlabelled {marks : List (Nat × Span)} {piece : Nat × Nat}
    (h : p.fragment index line marks piece = .ok f) (hnone : f.owner = none) :
    f.color = .default ∧ f.isMultiline = false ∧ f.isMultilineStart = false := by
  obtain ⟨_, _, h⟩ := bind_eq_ok_iff.mp h
  obtain ⟨_, _, h⟩ := bind_eq_ok_iff.mp h
  cases h
  have howner : (innermost marks piece).map Prod.fst = none := hnone
  simp [howner]

/-- No mark holds a byte of a piece without a label, and every byte of a piece with a label has that
label as its innermost. -/
theorem owner_cases (hp : ofLabels source labels = .ok p) (hline : p.source.lines[i]? = some line)
    (h : p.fragments i = .ok fragments) (hf : f ∈ fragments) (hb : f.span.Holds b) :
    f.owner = none ∧ (∀ j mark, source.IsMark labels i j mark → ¬mark.Holds b) ∨
      ∃ j mark, f.owner = some j ∧ IsInnermost (source.IsMark labels i) b j mark := by
  have hcovers : ∀ {k mark}, (k, mark) ∈ p.touching i →
      (mark.covers f.span.start f.span.stop = true ↔ mark.Holds b) :=
    fun hmark => covers_iff_holds hline h hf hb hmark
  rw [fragment_owner (exists_piece_of_fragment hline h hf)]
  rcases innermost_cases (f.span.start, f.span.stop) (p.touching_increasing i) with
    ⟨hnone, hout⟩ | ⟨⟨j, mark⟩, hmem, hsome, hcover, hinner⟩
  · refine .inl ⟨by rw [hnone]; rfl, fun k other hother hholds => ?_⟩
    have hother := (isMark_iff hp).mp hother
    exact Bool.eq_false_iff.mp (hout _ hother) ((hcovers hother).mpr hholds)
  · refine .inr ⟨j, mark, by rw [hsome]; rfl, (isMark_iff hp).mpr hmem, (hcovers hmem).mp hcover, ?_⟩
    intro k other hother hholds
    have hother := (isMark_iff hp).mp hother
    exact hinner _ hother ((hcovers hother).mpr hholds)

theorem owner_eq_some_iff (hp : ofLabels source labels = .ok p)
    (hline : p.source.lines[i]? = some line) (h : p.fragments i = .ok fragments) (hf : f ∈ fragments)
    (hb : f.span.Holds b) :
    f.owner = some j ↔ ∃ mark, IsInnermost (source.IsMark labels i) b j mark := by
  rcases owner_cases hp hline h hf hb with ⟨hnone, hout⟩ | ⟨k, mark, hsome, hmark⟩
  · refine iff_of_false (by simp [hnone]) ?_
    rintro ⟨mark, hmark⟩
    exact hout j mark hmark.isMark hmark.holds
  · rw [hsome, Option.some_inj]
    constructor
    · rintro rfl
      exact ⟨mark, hmark⟩
    · rintro ⟨other, hother⟩
      exact hmark.unique hother

theorem owner_eq_none_iff (hp : ofLabels source labels = .ok p)
    (hline : p.source.lines[i]? = some line) (h : p.fragments i = .ok fragments) (hf : f ∈ fragments)
    (hb : f.span.Holds b) :
    f.owner = none ↔ ∀ j mark, source.IsMark labels i j mark → ¬mark.Holds b := by
  rcases owner_cases hp hline h hf hb with ⟨hnone, hout⟩ | ⟨k, mark, hsome, hmark⟩
  · exact iff_of_true hnone hout
  · exact iff_of_false (by simp [hsome]) fun hout => hout k mark hmark.isMark hmark.holds

end Placement

/-- Every byte of a line that can be cut is in one piece. The piece has the label whose mark is the innermost
of those that hold the byte, with its color and its lines, and no label if there is no such mark. -/
theorem label_of_byte {source : Source} {labels : List Label} {p : Placement} {index : Int}
    {line : Line} {fragments : List Fragment} {b : Nat}
    (hp : Placement.ofLabels source labels = .ok p) (hfound : source.line index = .ok line)
    (hfragments : p.fragments index = .ok fragments) (hb : b < line.byteLen) :
    ∃ front f back, fragments = front ++ f :: back ∧ f.span.Holds b ∧
      (∀ g ∈ front ++ back, ¬g.span.Holds b) ∧
      (∀ j, f.owner = some j ↔ ∃ mark, IsInnermost (source.IsMark labels index) b j mark) ∧
      (∀ j, f.owner = some j →
        ∃ label, (sortLabels labels)[j]? = some label ∧ f.Presents source index label) ∧
      (f.owner = none ∧ f.color = .default ↔
        ∀ j mark, source.IsMark labels index j mark → ¬mark.Holds b) ∧
      (f.owner = none → f.isMultiline = false ∧ f.isMultilineStart = false) := by
  obtain ⟨rfl, hlabels⟩ := Placement.ofLabels_eq_ok hp
  obtain ⟨i, rfl, hline⟩ := Source.exists_line_of_ok hfound
  obtain ⟨slice, hslice, _⟩ := Source.exists_lineSlice hline
  have hpartition := Placement.fragments_partition hline hslice hfragments
  obtain ⟨front, f, back, rfl, hholds, hothers⟩ :=
    exists_piece_of_byte hpartition.contiguous (Nat.zero_le b) hb
  have hf : f ∈ front ++ f :: back := by simp
  have hpiece := Placement.exists_piece_of_fragment hline hfragments hf
  have hsome := fun j => Placement.owner_eq_some_iff (j := j) hp hline hfragments hf hholds
  have hnone := Placement.owner_eq_none_iff hp hline hfragments hf hholds
  refine ⟨front, f, back, rfl, hholds, hothers, hsome, ?_, ?_, ?_⟩
  · intro j hj
    obtain ⟨mark, hmark⟩ := (hsome j).mp hj
    obtain ⟨label, hlabel, _⟩ := hmark.isMark
    rw [← hlabels, List.getElem?_map] at hlabel
    obtain ⟨l, hl, rfl⟩ := Option.map_eq_some_iff.mp hlabel
    refine ⟨l.label, ?_, Placement.fragment_presents hpiece hj hl⟩
    rw [← hlabels, List.getElem?_map, hl, Option.map_some]
  · rw [← hnone]
    exact ⟨And.left, fun h => ⟨h, (Placement.fragment_unlabelled hpiece h).1⟩⟩
  · exact fun h => (Placement.fragment_unlabelled hpiece h).2

/-- Two lines, the second of them with two characters. -/
def stacked : Source :=
  Source.ofText ['a', '\n', 'b', 'c']

/-- A label on the last character, one on both lines, and one on the second line. -/
def stackedLabels : List Label :=
  [⟨.between 3 4, "last", .default⟩, ⟨.between 0 4, "both", .default⟩,
    ⟨.between 2 4, "second", .default⟩]

theorem stacked_label : ∃ p fragments,
    Placement.ofLabels stacked stackedLabels = .ok p ∧ stacked.line 1 = .ok ⟨2, 2, 2, 2⟩ ∧
      p.fragments 1 = .ok fragments ∧ ∃ f ∈ fragments, f.span.Holds 1 ∧
        ∀ j, f.owner = some j ↔ ∃ mark, IsInnermost (stacked.IsMark stackedLabels 1) 1 j mark := by
  have hline : stacked.line 1 = .ok ⟨2, 2, 2, 2⟩ := by decide
  have hfit : ∀ label ∈ stackedLabels, label.span.stop ≤ stacked.byteLen := by decide
  have haligned : stacked.MarksAligned stackedLabels 1 ⟨2, 2, 2, 2⟩ := by decide
  obtain ⟨p, fragments, hp, hfragments⟩ :=
    Placement.exists_fragments hfit (show stacked.lines[1]? = some ⟨2, 2, 2, 2⟩ by decide) haligned
  obtain ⟨front, f, back, rfl, hholds, _, howner, _⟩ :=
    label_of_byte hp hline hfragments (show 1 < 2 by decide)
  exact ⟨p, _, hp, hline, hfragments, f, by simp, hholds, howner⟩

end Callout
