import Callout.Proofs.PlacedLabels

namespace Callout

/-- A span further down. -/
def Span.shift (n : Nat) (s : Span) : Span :=
  ⟨s.start + n, s.stop + n, Nat.add_le_add_right s.start_le_stop n⟩

def Label.shift (n : Nat) (l : Label) : Label :=
  { l with span := l.span.shift n }

/-- A diagnostic whose labels all stand further down. -/
def Diagnostic.shift (n : Nat) (d : Diagnostic) : Diagnostic :=
  { d with labels := d.labels.map (Label.shift n) }

def Placed.shift (n k : Nat) (l : Placed) : Placed :=
  ⟨l.label.shift n, l.startLine + k, l.endLine + k⟩

/-- A cause of failure whose positions are moved along. -/
def Error.shift (n : Nat) : Error → Error
  | .spanOutside span (.pastEnd byteLen) => .spanOutside (span.shift n) (.pastEnd (byteLen + n))
  | .spanOutside span .misaligned => .spanOutside (span.shift n) .misaligned
  | e => e

theorem Error.shift_zero (e : Error) : e.shift 0 = e := by
  unfold Error.shift
  split <;> rfl

/-- An outcome moved along: what was found by `f`, a cause of failure by its positions. -/
def carry {α β : Type} (n : Nat) (f : α → β) (x : Except Error α) : Except Error β :=
  (x.map f).mapError (Error.shift n)

section Carry

variable {α β γ δ : Type} {n : Nat}

theorem carry_ok (f : α → β) (a : α) : carry n f (.ok a) = .ok (f a) := rfl

theorem carry_error (f : α → β) (e : Error) : carry n f (.error e) = .error (e.shift n) := rfl

/-- Steps that are moved along one by one are moved along as a whole. -/
theorem bind_carry {f : α → β} {g : γ → δ} {x : Except Error α} {x' : Except Error β}
    {next : α → Except Error γ} {next' : β → Except Error δ} (hx : x' = carry n f x)
    (hnext : ∀ a, x = .ok a → next' (f a) = carry n g (next a)) :
    x' >>= next' = carry n g (x >>= next) := by
  subst hx
  cases x with
  | error e => rfl
  | ok a => exact hnext a rfl

theorem mapM_carry {f : α → β} {g : γ → δ} {step : α → Except Error γ} {step' : β → Except Error δ}
    {xs : List α} (h : ∀ x ∈ xs, step' (f x) = carry n g (step x)) :
    (xs.map f).mapM step' = carry n (List.map g) (xs.mapM step) := by
  induction xs with
  | nil => rfl
  | cons x xs ih =>
    rw [List.map_cons, List.mapM_cons, List.mapM_cons]
    refine bind_carry (h x List.mem_cons_self) fun y _ => ?_
    refine bind_carry (ih fun z hz => h z (List.mem_cons_of_mem _ hz)) fun ys _ => ?_
    rfl

end Carry

namespace Source

/-- Every line of a source is found in another one some lines and bytes further down, in the same
width; behind the last of them there are no more. -/
structure IsShift (n k : Nat) (s t : Source) : Prop where
  length_eq : t.lines.length = s.lines.length + k
  line : ∀ (i : Nat) (line : Line), s.lines[i]? = some line → ∃ line', t.lines[i + k]? = some line' ∧
    line'.byteOffset = line.byteOffset + n ∧ line'.byteLen = line.byteLen

variable {s t : Source} {n k i : Nat}

theorem IsShift.byteLen_eq (h : s.IsShift n k t) : t.byteLen = s.byteLen + n := by
  have hpos := s.lines_length_pos
  have hlength := h.length_eq
  obtain ⟨line, hline⟩ := exists_line (show s.lines.length - 1 < s.lines.length by omega)
  obtain ⟨line', hline', hoffset, hlen⟩ := h.line _ line hline
  rw [← lines_last_byteEnd hline (by omega), ← lines_last_byteEnd hline' (by omega), Line.byteEnd,
    Line.byteEnd, hoffset, hlen]
  omega

theorem IsShift.onLine {position : Nat} (h : s.IsShift n k t) (hon : s.OnLine position i) :
    t.OnLine (position + n) (i + k) := by
  obtain ⟨line, hline, hlow, hhigh⟩ := hon
  obtain ⟨line', hline', hoffset, hlen⟩ := h.line i line hline
  have hbyteLen := h.byteLen_eq
  have hlength := h.length_eq
  refine ⟨line', hline', by omega, ?_⟩
  rw [Line.byteEnd] at hhigh ⊢
  omega

/-- A span that is moved along covers the lines that are moved along. -/
theorem IsShift.spanLines (h : s.IsShift n k t) (span : Span) :
    t.spanLines (span.shift n) =
      carry n (fun lines => (lines.1 + k, lines.2 + k)) (s.spanLines span) := by
  have hbyteLen := h.byteLen_eq
  rcases Nat.lt_or_ge s.byteLen span.stop with hlt | hle
  · rw [spanLines_error hlt, spanLines_error (by simp only [Span.shift]; omega), hbyteLen]
    rfl
  · obtain ⟨startLine, endLine, hlines⟩ := exists_spanLines hle
    obtain ⟨_, hstart, hend⟩ := spanLines_eq_ok_iff.mp hlines
    rw [hlines, carry_ok]
    refine spanLines_eq_ok_iff.mpr ⟨by simp only [Span.shift]; omega, h.onLine hstart, ?_⟩
    have hmax : max (span.shift n).start ((span.shift n).stop - 1) =
        max span.start (span.stop - 1) + n := by
      have horder := span.start_le_stop
      simp only [Span.shift]
      omega
    rw [hmax]
    exact h.onLine hend

theorem IsShift.place (h : s.IsShift n k t) (label : Label) :
    place t (label.shift n) = carry n (Placed.shift n k) (place s label) :=
  bind_carry (h.spanLines label.span) fun _ _ => rfl

/-- What stands between two places of a line is told by the text of the line. -/
theorem between?_line {line : Line} {slice : List Char} {a b : Nat} (hline : s.lines[i]? = some line)
    (hslice : s.lineSlice i = .ok slice) (hb : b ≤ line.byteLen) :
    s.between? (line.byteOffset + a) (line.byteOffset + b) =
      (Utf8.decode (((Utf8.encode slice).drop a).take (b - a))).toOption := by
  obtain ⟨head, mid, tail, ht, hl, _⟩ := line_split hline
  cases hslice.symm.trans (lineSlice_of_split hline ht hl)
  have hoffset : line.byteOffset = (Utf8.encode head).length := by rw [hl, Utf8.length_encode]
  have hlen : line.byteLen = (Utf8.encode slice).length := by rw [hl, Utf8.length_encode]
  have hstop : line.byteOffset + b - (line.byteOffset + a) = b - a := by omega
  rw [between?, hstop, s.bytes_eq, ht, List.append_assoc, Utf8.encode_append, hoffset,
    List.drop_length_add_append, Utf8.encode_append]
  rcases Nat.le_total a b with hle | hle
  · rw [List.drop_append_of_le_length (by omega),
      List.take_append_of_le_length (by rw [List.length_drop]; omega)]
  · rw [show b - a = 0 by omega, List.take_zero, List.take_zero]

/-- Lines of the same text are cut into the same texts, or cannot be cut there. -/
theorem textBetween_carry {j a b : Nat} {line line' : Line} (hline : s.lines[i]? = some line)
    (hline' : t.lines[j]? = some line') (hoffset : line'.byteOffset = line.byteOffset + n)
    (hlen : line'.byteLen = line.byteLen) (hslice : t.lineSlice j = s.lineSlice i) (hab : a ≤ b)
    (hb : b ≤ line.byteLen) :
    t.textBetween (line'.byteOffset + a : Nat) (line'.byteOffset + b : Nat) =
      carry n id (s.textBetween (line.byteOffset + a : Nat) (line.byteOffset + b : Nat)) := by
  obtain ⟨slice, htext, _⟩ := exists_lineSlice hline
  have hbetween := between?_line (a := a) hline htext hb
  have hbetween' := between?_line (a := a) hline' (hslice.trans htext) (hlen ▸ hb)
  have hspan : Span.ofBounds (line.byteOffset + a : Nat) (line.byteOffset + b : Nat) =
      .ok ⟨line.byteOffset + a, line.byteOffset + b, by omega⟩ := Span.ofBounds_eq_ok rfl rfl
  have hspan' : Span.ofBounds (line'.byteOffset + a : Nat) (line'.byteOffset + b : Nat) =
      .ok (Span.shift n ⟨line.byteOffset + a, line.byteOffset + b, by omega⟩) :=
    Span.ofBounds_eq_ok (by simp only [Span.shift]; omega) (by simp only [Span.shift]; omega)
  rw [textBetween, textBetween, offset_natCast, offset_natCast, offset_natCast, offset_natCast,
    hbetween, hbetween', hspan, hspan']
  cases (Utf8.decode (((Utf8.encode slice).drop a).take (b - a))).toOption with
  | none => rfl
  | some text => rfl

end Source

theorem sortLabels_shift (n : Nat) (labels : List Label) :
    sortLabels (labels.map (Label.shift n)) = (sortLabels labels).map (Label.shift n) := by
  refine (List.map_mergeSort ?_).symm
  intro a _ b _
  rw [decide_eq_decide]
  simp only [Label.shift, Span.shift, Nat.add_le_add_iff_right]

namespace Placement

theorem mapM_place_of_ofLabels {source : Source} {labels : List Label} {p : Placement}
    (h : ofLabels source labels = .ok p) : (sortLabels labels).mapM (place source) = .ok p.labels := by
  unfold ofLabels at h
  split at h
  next => cases h
  next placed hplaced =>
    cases h
    exact hplaced

theorem ofLabels_eq_error_iff {source : Source} {labels : List Label} {e : Error} :
    ofLabels source labels = .error e ↔ (sortLabels labels).mapM (place source) = .error e := by
  unfold ofLabels
  split
  next cause hcause => rw [hcause, Except.error.injEq, Except.error.injEq]
  next placed hplaced => simp [hplaced]

theorem exists_ofLabels {source : Source} {labels : List Label} {placed : List Placed}
    (h : (sortLabels labels).mapM (place source) = .ok placed) :
    ∃ p, ofLabels source labels = .ok p ∧ p.labels = placed := by
  cases hp : ofLabels source labels with
  | error e => cases h.symm.trans (ofLabels_eq_error_iff.mp hp)
  | ok p => exact ⟨p, rfl, Except.ok.inj ((mapM_place_of_ofLabels hp).symm.trans h)⟩

/-- Labels that are moved along are placed on the lines that are moved along, or refused likewise. -/
theorem ofLabels_shift {s t : Source} {n k : Nat} (h : s.IsShift n k t) (labels : List Label) :
    (∃ p q, ofLabels s labels = .ok p ∧ ofLabels t (labels.map (Label.shift n)) = .ok q ∧
      q.labels = p.labels.map (Placed.shift n k)) ∨
    ∃ e, ofLabels s labels = .error e ∧
      ofLabels t (labels.map (Label.shift n)) = .error (e.shift n) := by
  have hplaced : (sortLabels (labels.map (Label.shift n))).mapM (place t) =
      carry n (List.map (Placed.shift n k)) ((sortLabels labels).mapM (place s)) := by
    rw [sortLabels_shift]
    exact mapM_carry fun label _ => h.place label
  cases hp : ofLabels s labels with
  | error e =>
    right
    rw [ofLabels_eq_error_iff.mp hp, carry_error] at hplaced
    exact ⟨e, rfl, ofLabels_eq_error_iff.mpr hplaced⟩
  | ok p =>
    left
    rw [mapM_place_of_ofLabels hp, carry_ok] at hplaced
    obtain ⟨q, hq, hlabels⟩ := exists_ofLabels hplaced
    exact ⟨p, q, rfl, hq, hlabels⟩

end Placement

end Callout
