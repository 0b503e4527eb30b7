import Callout.Proofs.ByteBoundary

namespace Callout

/-- The texts of the lines of a text: each ends with its separator, the last with the text. -/
def lineTexts : List Char → List (List Char)
  | [] => [[]]
  | c :: rest =>
    if isSeparator c then [c] :: lineTexts rest
    else
      match lineTexts rest with
      | [] => [[c]]
      | t :: ts => (c :: t) :: ts

/-- The lines with the given texts, from a place in characters and in bytes on. -/
def lineTable (charOffset byteOffset : Nat) : List (List Char) → List Line
  | [] => []
  | t :: ts =>
    ⟨charOffset, t.length, byteOffset, byteWidth t⟩ ::
      lineTable (charOffset + t.length) (byteOffset + byteWidth t) ts

theorem lineTexts_ne_nil (text : List Char) : lineTexts text ≠ [] := by
  cases text with
  | nil => simp [lineTexts]
  | cons c rest =>
    rw [lineTexts]
    split
    · simp
    · split <;> simp

theorem lineTexts_cons_of_not_separator {c : Char} {rest : List Char} {t : List Char}
    {ts : List (List Char)} (hc : isSeparator c = false) (h : lineTexts rest = t :: ts) :
    lineTexts (c :: rest) = (c :: t) :: ts := by
  simp [lineTexts, hc, h]

theorem lineTexts_flatten (text : List Char) : (lineTexts text).flatten = text := by
  induction text with
  | nil => rfl
  | cons c rest ih =>
    cases hc : isSeparator c with
    | true => simp [lineTexts, hc, ih]
    | false =>
      obtain ⟨t, ts, ht⟩ := List.exists_cons_of_ne_nil (lineTexts_ne_nil rest)
      rw [lineTexts_cons_of_not_separator hc ht]
      rw [ht] at ih
      simpa using ih

theorem lineTexts_separator_last {text t : List Char} (ht : t ∈ lineTexts text) :
    ∀ c ∈ t.dropLast, isSeparator c = false := by
  induction text generalizing t with
  | nil => simp_all [lineTexts]
  | cons c rest ih =>
    cases hc : isSeparator c with
    | true =>
      simp only [lineTexts, hc, if_true, List.mem_cons] at ht
      rcases ht with rfl | ht
      · simp
      · exact ih ht
    | false =>
      obtain ⟨u, us, hu⟩ := List.exists_cons_of_ne_nil (lineTexts_ne_nil rest)
      rw [lineTexts_cons_of_not_separator hc hu] at ht
      rcases List.mem_cons.mp ht with rfl | ht
      · intro d hd
        cases u with
        | nil => simp at hd
        | cons b bs =>
          rcases List.mem_cons.mp hd with rfl | hd
          · exact hc
          · exact ih (by simp [hu]) d hd
      · exact ih (by simp [hu, ht])

/-- Every line but the last has a separator, so it is not empty. -/
theorem lineTexts_dropLast_ne_nil {text t : List Char} (ht : t ∈ (lineTexts text).dropLast) :
    t ≠ [] := by
  induction text generalizing t with
  | nil => simp [lineTexts] at ht
  | cons c rest ih =>
    obtain ⟨u, us, hu⟩ := List.exists_cons_of_ne_nil (lineTexts_ne_nil rest)
    cases hc : isSeparator c with
    | true =>
      simp only [lineTexts, hc, if_true, hu, List.dropLast_cons_cons, List.mem_cons] at ht
      rcases ht with rfl | ht
      · simp
      · exact ih (by rw [hu]; exact ht)
    | false =>
      rw [lineTexts_cons_of_not_separator hc hu] at ht
      cases us with
      | nil => simp at ht
      | cons v vs =>
        simp only [List.dropLast_cons_cons, List.mem_cons] at ht
        rcases ht with rfl | ht
        · simp
        · exact ih (by rw [hu]; simp [ht])

/-- The table built in one pass is the table of the texts; `line` holds the part already read. -/
theorem linesFrom_eq_lineTable (line : Line) (read text : List Char)
    (hchars : line.charLen = read.length) (hbytes : line.byteLen = byteWidth read)
    {t : List Char} {ts : List (List Char)} (ht : lineTexts text = t :: ts) :
    linesFrom line text = lineTable line.charOffset line.byteOffset ((read ++ t) :: ts) := by
  induction text generalizing line read t ts with
  | nil =>
    cases ht
    cases line
    simp_all [linesFrom, lineTable]
  | cons c rest ih =>
    obtain ⟨u, us, hu⟩ := List.exists_cons_of_ne_nil (lineTexts_ne_nil rest)
    have hpushed : byteWidth (read ++ [c]) = line.byteLen + c.utf8Size := by
      rw [byteWidth_append, hbytes, byteWidth_cons, byteWidth_nil, Nat.add_zero]
    cases hc : isSeparator c with
    | true =>
      simp only [lineTexts, hc, if_true] at ht
      obtain ⟨rfl, rfl⟩ := List.cons.inj ht
      have hnext := ih (line.push c).next [] rfl rfl hu
      rw [linesFrom, if_pos hc, hnext, hu, List.nil_append]
      simp only [lineTable, hpushed, Line.push, Line.next, Line.byteEnd, hchars,
        List.length_append, List.length_singleton]
    | false =>
      rw [lineTexts_cons_of_not_separator hc hu] at ht
      obtain ⟨rfl, rfl⟩ := List.cons.inj ht
      have hnext := ih (line.push c) (read ++ [c])
        (by simp [Line.push, hchars]) (by simp only [Line.push, hpushed]) hu
      rw [linesFrom, if_neg (by simp [hc]), hnext]
      simp [Line.push]

theorem Source.lines_eq_lineTable (s : Source) : s.lines = lineTable 0 0 (lineTexts s.text) := by
  obtain ⟨t, ts, ht⟩ := List.exists_cons_of_ne_nil (lineTexts_ne_nil s.text)
  rw [s.lines_eq, linesFrom_eq_lineTable .first [] s.text rfl rfl ht, ht]
  rfl

theorem lineTable_length (charOffset byteOffset : Nat) (texts : List (List Char)) :
    (lineTable charOffset byteOffset texts).length = texts.length := by
  induction texts generalizing charOffset byteOffset with
  | nil => rfl
  | cons t ts ih => simp [lineTable, ih]

theorem lineTable_getElem? (charOffset byteOffset i : Nat) (texts : List (List Char)) :
    (lineTable charOffset byteOffset texts)[i]? = texts[i]?.map fun t =>
      ⟨charOffset + (texts.take i).flatten.length, t.length,
        byteOffset + byteWidth (texts.take i).flatten, byteWidth t⟩ := by
  induction texts generalizing charOffset byteOffset i with
  | nil => rfl
  | cons t ts ih =>
    cases i with
    | zero => simp [lineTable, byteWidth_nil]
    | succ i => simp [lineTable, ih, Nat.add_assoc]

namespace Source

theorem lines_length (s : Source) : s.lines.length = (lineTexts s.text).length := by
  rw [s.lines_eq_lineTable, lineTable_length]

theorem lines_length_pos (s : Source) : 0 < s.lines.length := by
  rw [lines_length]
  exact List.length_pos_iff.mpr (lineTexts_ne_nil s.text)

theorem getElem?_lines (s : Source) (i : Nat) :
    s.lines[i]? = (lineTexts s.text)[i]?.map fun t =>
      ⟨((lineTexts s.text).take i).flatten.length, t.length,
        byteWidth ((lineTexts s.text).take i).flatten, byteWidth t⟩ := by
  rw [s.lines_eq_lineTable, lineTable_getElem?]
  simp only [Nat.zero_add]

/-- The text stands before, in and behind each of its lines. -/
theorem text_split {s : Source} {i : Nat} {t : List Char} (h : (lineTexts s.text)[i]? = some t) :
    s.text = ((lineTexts s.text).take i).flatten ++ t ++
      ((lineTexts s.text).drop (i + 1)).flatten := by
  obtain ⟨hi, rfl⟩ := List.getElem?_eq_some_iff.mp h
  rw [← List.flatten_concat, ← List.take_succ_eq_append_getElem hi, ← List.flatten_append,
    List.take_append_drop, lineTexts_flatten]

/-- Each line is a part of the text, and its numbers are those of its part. -/
theorem line_split {s : Source} {i : Nat} {line : Line} (h : s.lines[i]? = some line) :
    ∃ head mid tail, s.text = head ++ mid ++ tail ∧
      line = ⟨head.length, mid.length, byteWidth head, byteWidth mid⟩ ∧
      ∀ c ∈ mid.dropLast, isSeparator c = false := by
  rw [getElem?_lines] at h
  obtain ⟨mid, hmid, rfl⟩ := Option.map_eq_some_iff.mp h
  exact ⟨_, mid, _, text_split hmid, rfl, lineTexts_separator_last (List.mem_of_getElem? hmid)⟩

/-- A line starts where the lines before it end, and ends where they and its own text end. -/
theorem line_bounds {s : Source} {i : Nat} {line : Line} (h : s.lines[i]? = some line) :
    (line.charOffset = ((lineTexts s.text).take i).flatten.length ∧
      line.byteOffset = byteWidth ((lineTexts s.text).take i).flatten) ∧
    line.charOffset + line.charLen = ((lineTexts s.text).take (i + 1)).flatten.length ∧
      line.byteEnd = byteWidth ((lineTexts s.text).take (i + 1)).flatten := by
  rw [getElem?_lines] at h
  obtain ⟨t, ht, rfl⟩ := Option.map_eq_some_iff.mp h
  obtain ⟨hi, rfl⟩ := List.getElem?_eq_some_iff.mp ht
  simp only [Line.byteEnd, List.take_succ_eq_append_getElem hi, List.flatten_concat,
    List.length_append, byteWidth_append, and_self]

theorem lines_zero_byteOffset {s : Source} {line : Line} (h : s.lines[0]? = some line) :
    line.byteOffset = 0 :=
  (line_bounds h).1.2

theorem lines_next_byteOffset {s : Source} {i : Nat} {line next : Line}
    (h : s.lines[i]? = some line) (hn : s.lines[i + 1]? = some next) :
    next.byteOffset = line.byteEnd :=
  (line_bounds hn).1.2.trans (line_bounds h).2.2.symm

theorem lines_last_byteEnd {s : Source} {i : Nat} {line : Line} (h : s.lines[i]? = some line)
    (hlast : s.lines.length ≤ i + 1) : line.byteEnd = s.byteLen := by
  have hall : (lineTexts s.text).take (i + 1) = lineTexts s.text :=
    List.take_of_length_le (s.lines_length ▸ hlast)
  rw [(line_bounds h).2.2, hall, lineTexts_flatten, s.byteLen_eq]

theorem lines_byteLen_pos {s : Source} {i : Nat} {line : Line} (h : s.lines[i]? = some line)
    (hi : i + 1 < s.lines.length) : 0 < line.byteLen := by
  rw [lines_length] at hi
  rw [getElem?_lines] at h
  obtain ⟨t, ht, rfl⟩ := Option.map_eq_some_iff.mp h
  have hmem : t ∈ (lineTexts s.text).dropLast := by
    apply List.mem_of_getElem? (i := i)
    rw [List.dropLast_eq_take, List.getElem?_take, if_pos (by omega), ht]
  exact byteWidth_pos (lineTexts_dropLast_ne_nil hmem)

theorem exists_line {s : Source} {i : Nat} (h : i < s.lines.length) :
    ∃ line, s.lines[i]? = some line :=
  ⟨s.lines[i], List.getElem?_eq_getElem h⟩

theorem lines_byteEnd_le {s : Source} {i j : Nat} {line later : Line}
    (h : s.lines[i]? = some line) (hl : s.lines[j]? = some later) (hlt : i < j) :
    line.byteEnd ≤ later.byteOffset := by
  induction j generalizing later with
  | zero => omega
  | succ j ih =>
    have hj : j < s.lines.length := by
      have := (List.getElem?_eq_some_iff.mp hl).1
      omega
    obtain ⟨previous, hp⟩ := exists_line hj
    have hnext := lines_next_byteOffset hp hl
    rcases Nat.lt_or_ge i j with hij | hij
    · have := ih hp hij
      have : previous.byteOffset ≤ previous.byteEnd := Nat.le_add_right _ _
      omega
    · obtain rfl : i = j := by omega
      cases h.symm.trans hp
      omega

theorem lines_byteEnd_le_byteLen {s : Source} {i : Nat} {line : Line}
    (h : s.lines[i]? = some line) : line.byteEnd ≤ s.byteLen := by
  obtain ⟨head, mid, tail, ht, rfl, _⟩ := line_split h
  rw [s.byteLen_eq, ht, Line.byteEnd]
  simp

theorem lines_byteOffset_lt {s : Source} {i j : Nat} {line later : Line}
    (h : s.lines[i]? = some line) (hl : s.lines[j]? = some later) (hlt : i < j) :
    line.byteOffset < later.byteOffset := by
  have hj := (List.getElem?_eq_some_iff.mp hl).1
  have hpos := lines_byteLen_pos h (by omega)
  have hle := lines_byteEnd_le h hl hlt
  rw [Line.byteEnd] at hle
  omega

end Source

/-- In an increasing list exactly the entries up to a bound come first. -/
theorem lt_countP_iff_of_increasing {α : Type} {f : α → Nat} {xs : List α}
    (hs : xs.Pairwise fun a b => f a < f b) {i b : Nat} {x : α} (hx : xs[i]? = some x) :
    i < xs.countP (fun a => f a ≤ b) ↔ f x ≤ b := by
  induction xs generalizing i with
  | nil => simp at hx
  | cons a xs ih =>
    obtain ⟨ha, hs⟩ := List.pairwise_cons.mp hs
    by_cases hb : f a ≤ b
    · rw [List.countP_cons_of_pos (by simpa using hb)]
      cases i with
      | zero =>
        cases hx
        simp [hb]
      | succ i =>
        rw [Nat.add_lt_add_iff_right]
        exact ih hs hx
    · have hnone : (a :: xs).countP (fun a => f a ≤ b) = 0 := by
        rw [List.countP_eq_zero]
        intro y hy
        rcases List.mem_cons.mp hy with rfl | hy
        · simpa using hb
        · have := ha y hy
          simp only [decide_eq_true_eq]
          omega
      have hax : f a ≤ f x := by
        rcases List.mem_cons.mp (List.mem_of_getElem? hx) with rfl | hm
        · exact Nat.le_refl _
        · exact Nat.le_of_lt (ha x hm)
      rw [hnone]
      omega

namespace Source

theorem lines_increasing (s : Source) :
    s.lines.Pairwise fun a b => a.byteOffset < b.byteOffset := by
  rw [List.pairwise_iff_getElem]
  intro i j hi hj hlt
  exact lines_byteOffset_lt (List.getElem?_eq_getElem hi) (List.getElem?_eq_getElem hj) hlt

/-- A position is on a line: it is the place of one of its bytes, or the end of the source and the
line is the last. -/
def OnLine (s : Source) (position i : Nat) : Prop :=
  ∃ line, s.lines[i]? = some line ∧ line.byteOffset ≤ position ∧
    (position < line.byteEnd ∨ i + 1 = s.lines.length ∧ position = s.byteLen)

theorem OnLine.lt_length {s : Source} {position i : Nat} (h : s.OnLine position i) :
    i < s.lines.length := by
  obtain ⟨line, hline, _⟩ := h
  exact (List.getElem?_eq_some_iff.mp hline).1

theorem OnLine.byteOffset_le {s : Source} {position i : Nat} {line : Line}
    (h : s.OnLine position i) (hline : s.lines[i]? = some line) : line.byteOffset ≤ position := by
  obtain ⟨found, hfound, hlow, _⟩ := h
  cases hline.symm.trans hfound
  exact hlow

theorem OnLine.le_byteEnd {s : Source} {position i : Nat} {line : Line}
    (h : s.OnLine position i) (hline : s.lines[i]? = some line) : position ≤ line.byteEnd := by
  obtain ⟨found, hfound, _, hhigh⟩ := h
  cases hline.symm.trans hfound
  rcases hhigh with hlt | ⟨hlast, rfl⟩
  · exact Nat.le_of_lt hlt
  · exact Nat.le_of_eq (lines_last_byteEnd hline (by omega)).symm

theorem OnLine.lt_byteEnd {s : Source} {position i : Nat} {line : Line}
    (h : s.OnLine position i) (hline : s.lines[i]? = some line) (hlt : position < s.byteLen) :
    position < line.byteEnd := by
  obtain ⟨found, hfound, _, hhigh⟩ := h
  cases hline.symm.trans hfound
  rcases hhigh with hlt | ⟨_, rfl⟩
  · exact hlt
  · omega

theorem OnLine.le_of_le {s : Source} {p q i j : Nat} (hp : s.OnLine p i) (hq : s.OnLine q j)
    (hle : p ≤ q) : i ≤ j := by
  by_contra hlt
  obtain ⟨line, hline, hlow, _⟩ := hp
  have hi := (List.getElem?_eq_some_iff.mp hline).1
  obtain ⟨earlier, hearlier, _, hhigh⟩ := hq
  have hend := lines_byteEnd_le hearlier hline (by omega)
  omega

theorem OnLine.unique {s : Source} {p i j : Nat} (hi : s.OnLine p i) (hj : s.OnLine p j) : i = j :=
  Nat.le_antisymm (hi.le_of_le hj (Nat.le_refl p)) (hj.le_of_le hi (Nat.le_refl p))

/-- Every position up to the end of the source is looked up on the line that it is on. -/
theorem exists_lineAt {s : Source} {position : Nat} (h : position ≤ s.byteLen) :
    ∃ i, s.lineAt position = .ok i ∧ s.OnLine position i := by
  have hcast : (s.lines.countP fun l => decide ((l.byteOffset : Int) ≤ (position : Int))) =
      s.lines.countP fun l => decide (l.byteOffset ≤ position) := by
    simp only [Int.ofNat_le]
  have hat : s.lineAt position =
      .ok ((s.lines.countP fun l => decide (l.byteOffset ≤ position)) - 1) := by
    rw [lineAt, if_pos (by omega), hcast]
  obtain ⟨first, hfirst⟩ := exists_line s.lines_length_pos
  have hcount : 0 < s.lines.countP fun l => decide (l.byteOffset ≤ position) := by
    rw [lt_countP_iff_of_increasing s.lines_increasing hfirst, lines_zero_byteOffset hfirst]
    exact Nat.zero_le _
  have hbound := List.countP_le_length (p := fun l : Line => decide (l.byteOffset ≤ position))
    (l := s.lines)
  generalize hn : (s.lines.countP fun l => decide (l.byteOffset ≤ position)) = count at *
  obtain ⟨line, hline⟩ := exists_line (show count - 1 < s.lines.length by omega)
  have hlow : line.byteOffset ≤ position := by
    rw [← lt_countP_iff_of_increasing s.lines_increasing hline, hn]
    omega
  refine ⟨count - 1, hat, line, hline, hlow, ?_⟩
  by_cases hlast : count = s.lines.length
  · have hend := lines_last_byteEnd hline (by omega)
    omega
  · obtain ⟨next, hnext⟩ := exists_line (show count - 1 + 1 < s.lines.length by omega)
    have hstart := lines_next_byteOffset hline hnext
    have hnot := lt_countP_iff_of_increasing (b := position) s.lines_increasing hnext
    rw [hn] at hnot
    omega

theorem lineAt_eq_ok_iff {s : Source} {position i : Nat} :
    s.lineAt position = .ok i ↔ s.OnLine position i := by
  constructor
  · intro h
    have hle : position ≤ s.byteLen := by
      by_contra hlt
      rw [lineAt, if_neg (by omega)] at h
      cases h
    obtain ⟨j, hj, hon⟩ := exists_lineAt hle
    rw [hj] at h
    cases h
    exact hon
  · intro h
    obtain ⟨line, hline⟩ := exists_line h.lt_length
    have hle := h.le_byteEnd hline
    have hend := lines_byteEnd_le_byteLen hline
    obtain ⟨j, hj, hon⟩ := exists_lineAt (show position ≤ s.byteLen by omega)
    rw [hj, hon.unique h]

/-- A span that ends in the source is looked up by its first and its last byte. -/
theorem spanLines_eq_ok_iff {s : Source} {span : Span} {startLine endLine : Nat} :
    s.spanLines span = .ok (startLine, endLine) ↔ span.stop ≤ s.byteLen ∧
      s.OnLine span.start startLine ∧ s.OnLine (max span.start (span.stop - 1)) endLine := by
  rw [← lineAt_eq_ok_iff, ← lineAt_eq_ok_iff]
  by_cases hlt : s.byteLen < span.stop
  · have herror : s.spanLines span = .error (.spanOutside span (.pastEnd s.byteLen)) := by
      simp only [spanLines, hlt, if_true]
      rfl
    rw [herror]
    simp [Nat.not_le.mpr hlt]
  · have hok : s.spanLines span = do
        let startLine ← s.lineAt span.start
        let endLine ← s.lineAt (max span.start (span.stop - 1) : Nat)
        return (startLine, endLine) := by
      simp only [spanLines, hlt, if_false]
    rw [hok]
    cases hs : s.lineAt span.start with
    | error e => simp [bind, Except.bind]
    | ok i =>
      cases he : s.lineAt (max span.start (span.stop - 1) : Nat) with
      | error e => simp [bind, Except.bind]
      | ok j =>
        simp only [bind, Except.bind, pure, Except.pure, Except.ok.injEq, Prod.mk.injEq,
          Nat.not_lt.mp hlt, true_and]

theorem spanLines_error {s : Source} {span : Span} (h : s.byteLen < span.stop) :
    s.spanLines span = .error (.spanOutside span (.pastEnd s.byteLen)) := by
  simp only [spanLines, h, if_true]
  rfl

theorem exists_spanLines {s : Source} {span : Span} (h : span.stop ≤ s.byteLen) :
    ∃ startLine endLine, s.spanLines span = .ok (startLine, endLine) := by
  have hle := span.start_le_stop
  obtain ⟨i, _, hi⟩ := exists_lineAt (show span.start ≤ s.byteLen by omega)
  obtain ⟨j, _, hj⟩ := exists_lineAt (show max span.start (span.stop - 1) ≤ s.byteLen by omega)
  exact ⟨i, j, spanLines_eq_ok_iff.mpr ⟨h, hi, hj⟩⟩

theorem line_eq_ok_iff {s : Source} {i : Nat} {line : Line} :
    s.line i = .ok line ↔ s.lines[i]? = some line := by
  rw [Source.line, if_pos (by omega), Int.toNat_natCast]
  cases s.lines[i]? <;> simp

theorem lineSlice_of_split {s : Source} {i : Nat} {line : Line} {head mid tail : List Char}
    (h : s.lines[i]? = some line) (ht : s.text = head ++ mid ++ tail)
    (hl : line = ⟨head.length, mid.length, byteWidth head, byteWidth mid⟩) :
    s.lineSlice i = .ok mid := by
  have hline : s.line i = .ok line := line_eq_ok_iff.mpr h
  have htext : s.textBetween line.byteOffset line.byteEnd = .ok mid :=
    textBetween_of_split ht (by rw [hl]) (by rw [hl]; rfl)
  rw [lineSlice, hline]
  exact htext

theorem exists_lineSlice {s : Source} {i : Nat} {line : Line} (h : s.lines[i]? = some line) :
    ∃ slice, s.lineSlice i = .ok slice ∧ byteWidth slice = line.byteLen ∧
      ∀ c ∈ slice.dropLast, isSeparator c = false := by
  obtain ⟨head, mid, tail, ht, hl, hseparator⟩ := line_split h
  exact ⟨mid, lineSlice_of_split h ht hl, by rw [hl], hseparator⟩

theorem isBoundary_slice_iff {s : Source} {i x : Nat} {line : Line} {slice : List Char}
    (h : s.lines[i]? = some line) (hslice : s.lineSlice i = .ok slice) (hx : x ≤ line.byteLen) :
    IsBoundary slice x ↔ IsBoundary s.text (line.byteOffset + x) := by
  obtain ⟨head, mid, tail, ht, hl, _⟩ := line_split h
  cases hslice.symm.trans (lineSlice_of_split h ht hl)
  have hoffset : line.byteOffset = byteWidth head := by rw [hl]
  have hlen : line.byteLen = byteWidth slice := by rw [hl]
  rw [ht, hoffset, isBoundary_append_right_iff, isBoundary_append_left_iff (by omega)]

theorem textBetween_slice {s : Source} {i : Nat} {line : Line} {left mid right : List Char}
    (h : s.lines[i]? = some line) (hslice : s.lineSlice i = .ok (left ++ mid ++ right))
    {start stop : Nat} (hstart : byteWidth left = start) (hstop : start + byteWidth mid = stop) :
    s.textBetween (line.byteOffset + start : Nat) (line.byteOffset + stop : Nat) = .ok mid := by
  obtain ⟨head, slice, tail, ht, hl, _⟩ := line_split h
  cases hslice.symm.trans (lineSlice_of_split h ht hl)
  have hsplit : s.text = (head ++ left) ++ mid ++ (right ++ tail) := by
    rw [ht]
    simp only [List.append_assoc]
  refine textBetween_of_split hsplit ?_ ?_
  · rw [byteWidth_append, hl, hstart]
  · rw [← hstop, Nat.add_assoc]

theorem textBetween_slice_start {s : Source} {i x : Nat} {line : Line} {left right : List Char}
    (h : s.lines[i]? = some line) (hslice : s.lineSlice i = .ok (left ++ right))
    (hx : byteWidth left = x) :
    s.textBetween line.byteOffset (line.byteOffset + x : Nat) = .ok left := by
  rw [← List.nil_append left] at hslice
  have htext := textBetween_slice h hslice byteWidth_nil (by rw [Nat.zero_add, hx])
  rwa [Nat.add_zero] at htext

end Source

end Callout
