import Callout.Proofs.ByteBoundary

namespace Callout

theorem encode_cons_first (c : Char) (text : List Char) :
    ∃ b rest, Utf8.encode (c :: text) = b :: rest ∧ ¬Utf8.IsContinuation b := by
  obtain ⟨first, tail, bounds, he, hf, _, _⟩ := Utf8.isShaped c
  refine ⟨first, tail ++ Utf8.encode text, by rw [Utf8.encode_cons, he, List.cons_append], fun hb => ?_⟩
  rw [Utf8.continuation_not_first hb] at hf
  cases hf

/-- The bytes of a text tell where its characters begin. -/
theorem isBoundary_iff_byte {text : List Char} {position : Nat} (h : position ≤ byteWidth text) :
    IsBoundary text position ↔
      ∀ b, (Utf8.encode text)[position]? = some b → ¬Utf8.IsContinuation b := by
  constructor
  · rintro ⟨head, tail, rfl, rfl⟩ b hb
    rw [Utf8.encode_append, ← Utf8.length_encode head, List.getElem?_append_right (Nat.le_refl _),
      Nat.sub_self] at hb
    cases tail with
    | nil => cases hb
    | cons c tail =>
      obtain ⟨first, rest, he, hfirst⟩ := encode_cons_first c tail
      rw [he] at hb
      cases hb
      exact hfirst
  · intro hbyte
    rcases isBoundary_or_inside h with hb | ⟨head, c, tail, n, rfl, rfl, hpos, hn⟩
    · exact hb
    · obtain ⟨b, rest, hdrop, hb⟩ := drop_encode_inside head tail hpos hn
      have hget := congrArg List.head? hdrop
      rw [List.head?_drop] at hget
      exact absurd hb (hbyte b hget)

namespace Source

/-- Whether a run of characters is what stands between two positions of a source. -/
structure IsRun (s : Source) (start stop : Nat) (run : List Char) : Prop where
  bytes_eq : Utf8.encode run = (s.bytes.drop start).take (stop - start)
  contiguous : start = stop ∧ run = [] ∨ ∃ head tail, s.text = head ++ run ++ tail ∧
    Utf8.encode head = s.bytes.take start ∧ Utf8.encode tail = s.bytes.drop stop

variable {s : Source} {a b c : Nat} {run : List Char}

theorem textBetween_self (s : Source) (a : Nat) : s.textBetween a a = .ok [] := by
  have hslice : s.between? a a = some [] := by
    rw [between?, Nat.sub_self, List.take_zero]
    rfl
  rw [textBetween, offset_natCast, hslice]

theorem textBetween_of_boundaries (hle : a ≤ b) (ha : IsBoundary s.text a) (hb : IsBoundary s.text b) :
    ∃ head run tail, s.text = head ++ run ++ tail ∧ byteWidth head = a ∧ a + byteWidth run = b ∧
      s.textBetween a b = .ok run := by
  obtain ⟨head, run, tail, htext, hhead, hrun⟩ := split_of_boundaries hle ha hb
  rw [hhead] at hrun
  exact ⟨head, run, tail, htext, hhead, hrun, textBetween_of_split htext hhead hrun⟩

theorem isRun_of_split {head tail : List Char} (htext : s.text = head ++ run ++ tail)
    (hhead : byteWidth head = a) (hrun : a + byteWidth run = b) : s.IsRun a b run := by
  have hbytes : s.bytes = Utf8.encode head ++ (Utf8.encode run ++ Utf8.encode tail) := by
    rw [s.bytes_eq, htext, Utf8.encode_append, Utf8.encode_append, List.append_assoc]
  have ha : a = (Utf8.encode head).length := by rw [Utf8.length_encode, hhead]
  have hwidth : b - a = (Utf8.encode run).length := by rw [Utf8.length_encode]; omega
  have hb : b = (Utf8.encode head).length + (Utf8.encode run).length := by omega
  refine ⟨?_, .inr ⟨head, tail, htext, ?_, ?_⟩⟩
  · rw [hwidth, hbytes, ha, List.drop_left, List.take_left]
  · rw [hbytes, ha, List.take_left]
  · rw [hbytes, hb, List.drop_length_add_append, List.drop_left]

theorem isRun_of_textBetween (hle : a ≤ b) (hstop : b ≤ s.byteLen)
    (h : s.textBetween a b = .ok run) : s.IsRun a b run := by
  rcases Nat.lt_or_eq_of_le hle with hlt | rfl
  · obtain ⟨head, tail, htext, hhead, hrun⟩ := (textBetween_eq_ok_iff hlt hstop).mp h
    exact isRun_of_split htext hhead hrun
  · obtain rfl : [] = run := Except.ok.inj ((textBetween_self s a).symm.trans h)
    exact ⟨by rw [Nat.sub_self, List.take_zero]; rfl, .inl ⟨rfl, rfl⟩⟩

/-- Slices that meet between two characters are slices of one run. -/
theorem textBetween_append (hab : a ≤ b) (hbc : b ≤ c) (ha : IsBoundary s.text a)
    (hb : IsBoundary s.text b) (hc : IsBoundary s.text c) : ∃ left right,
      s.textBetween a b = .ok left ∧ s.textBetween b c = .ok right ∧
        s.textBetween a c = .ok (left ++ right) := by
  obtain ⟨head, left, rest, htext, hhead, hleft, hfirst⟩ := textBetween_of_boundaries hab ha hb
  obtain ⟨front, right, tail, htext', hfront, hright, hsecond⟩ := textBetween_of_boundaries hbc hb hc
  have hmeet : byteWidth front = byteWidth (head ++ left) := by rw [byteWidth_append]; omega
  have hsame : front ++ (right ++ tail) = head ++ left ++ rest := by
    rw [← htext, htext', List.append_assoc]
  obtain ⟨rfl, hrest⟩ := head_eq_of_byteWidth_eq hsame hmeet
  have hjoined : s.text = head ++ (left ++ right) ++ tail := by
    rw [htext, ← hrest]
    simp only [List.append_assoc]
  refine ⟨left, right, hfirst, hsecond, textBetween_of_split hjoined hhead ?_⟩
  rw [byteWidth_append]
  omega

end Source

/-- A slice of a source is a text when it is empty or starts and stops between characters, and no other slice
is; the byte at a position tells whether it is between characters. The text is the run of characters that the
bytes of the slice encode. A slice that cuts a character fails with its bounds. Slices that meet between
characters make up one. -/
theorem slice_at_boundaries {s : Source} {a b : Nat} (hle : a ≤ b) (hstop : b ≤ s.byteLen) :
    (∀ p ≤ s.byteLen,
      IsBoundary s.text p ↔ ∀ byte, s.bytes[p]? = some byte → ¬Utf8.IsContinuation byte) ∧
    ((∃ run, s.textBetween a b = .ok run) ↔ a = b ∨ IsBoundary s.text a ∧ IsBoundary s.text b) ∧
    (∀ run, s.textBetween a b = .ok run → s.IsRun a b run) ∧
    (¬(a = b ∨ IsBoundary s.text a ∧ IsBoundary s.text b) →
      s.textBetween a b = .error (.spanOutside ⟨a, b, hle⟩ .misaligned)) ∧
    ∀ c, b ≤ c → IsBoundary s.text a → IsBoundary s.text b → IsBoundary s.text c →
      ∃ left right, s.textBetween a b = .ok left ∧ s.textBetween b c = .ok right ∧
        s.textBetween a c = .ok (left ++ right) := by
  have hcut : ¬(a = b ∨ IsBoundary s.text a ∧ IsBoundary s.text b) →
      s.textBetween a b = .error (.spanOutside ⟨a, b, hle⟩ .misaligned) := by
    intro hnot
    obtain ⟨hne, hboundaries⟩ := not_or.mp hnot
    exact Source.textBetween_misaligned (Nat.lt_of_le_of_ne hle hne) hstop hboundaries
  refine ⟨fun p hp => ?_, ⟨?_, ?_⟩, fun run => Source.isRun_of_textBetween hle hstop, hcut,
    fun c hbc => Source.textBetween_append hle hbc⟩
  · rw [s.bytes_eq]
    exact isBoundary_iff_byte (s.byteLen_eq ▸ hp)
  · rintro ⟨run, hrun⟩
    by_contra hnot
    cases hrun.symm.trans (hcut hnot)
  · rintro (rfl | ⟨ha, hb⟩)
    · exact ⟨[], Source.textBetween_self s a⟩
    · obtain ⟨_, run, _, _, _, _, hrun⟩ := Source.textBetween_of_boundaries hle ha hb
      exact ⟨run, hrun⟩

/-- A digit, a character of three bytes and a letter. -/
def price : Source := Source.ofText ['5', '€', 'a']

theorem price_slices :
    price.textBetween (1 : Nat) (3 : Nat) =
      .error (.spanOutside ⟨1, 3, Nat.le_add_right 1 2⟩ .misaligned) ∧
    price.IsRun 1 5 ['€', 'a'] ∧ ∃ left right, price.textBetween (0 : Nat) (1 : Nat) = .ok left ∧
      price.textBetween (1 : Nat) (4 : Nat) = .ok right ∧
      price.textBetween (0 : Nat) (4 : Nat) = .ok (left ++ right) := by
  obtain ⟨_, _, _, hcut, _⟩ :=
    slice_at_boundaries (s := price) (Nat.le_add_right 1 2) (by decide)
  obtain ⟨_, _, hrun, _⟩ :=
    slice_at_boundaries (s := price) (Nat.le_add_right 1 4) (by decide)
  obtain ⟨_, _, _, _, happend⟩ :=
    slice_at_boundaries (s := price) (Nat.zero_le 1) (by decide)
  exact ⟨hcut (by decide), hrun _ (by decide), happend 4 (by decide) (by decide) (by decide) (by decide)⟩

end Callout
