import Callout.Source.Lookup
import Callout.Proofs.EncodedCharacter

namespace Callout

theorem byteWidth_nil : byteWidth [] = 0 := rfl

theorem byteWidth_cons (c : Char) (text : List Char) :
    byteWidth (c :: text) = c.utf8Size + byteWidth text := rfl

@[simp]
theorem byteWidth_append (left right : List Char) :
    byteWidth (left ++ right) = byteWidth left + byteWidth right := by
  induction left with
  | nil => rw [List.nil_append, byteWidth_nil, Nat.zero_add]
  | cons c left ih => rw [List.cons_append, byteWidth_cons, byteWidth_cons, ih, Nat.add_assoc]

theorem byteWidth_pos {text : List Char} (h : text ≠ []) : 0 < byteWidth text := by
  cases text with
  | nil => exact absurd rfl h
  | cons c text =>
    have := c.utf8Size_pos
    rw [byteWidth_cons]
    omega

theorem byteWidth_take_le_iff {text : List Char} {n m : Nat} (hn : n ≤ text.length)
    (hm : m ≤ text.length) : byteWidth (text.take n) ≤ byteWidth (text.take m) ↔ n ≤ m := by
  have hmono : ∀ {i j : Nat}, j ≤ text.length → i < j →
      byteWidth (text.take i) < byteWidth (text.take j) := by
    intro i j hj hij
    have hsplit : text.take j = text.take i ++ (text.drop i).take (j - i) := by
      rw [← List.take_add, Nat.add_sub_cancel' (Nat.le_of_lt hij)]
    have hne : (text.drop i).take (j - i) ≠ [] := by
      apply List.ne_nil_of_length_pos
      rw [List.length_take, List.length_drop]
      omega
    have := byteWidth_pos hne
    rw [hsplit, byteWidth_append]
    omega
  constructor
  · intro hle
    by_contra hlt
    have := hmono hn (Nat.lt_of_not_le hlt)
    omega
  · intro hle
    rcases Nat.lt_or_eq_of_le hle with hlt | rfl
    · exact Nat.le_of_lt (hmono hm hlt)
    · exact Nat.le_refl _

namespace Utf8

theorem encode_cons (c : Char) (text : List Char) :
    encode (c :: text) = String.utf8EncodeChar c ++ encode text := rfl

@[simp]
theorem encode_append (left right : List Char) :
    encode (left ++ right) = encode left ++ encode right :=
  List.flatMap_append

@[simp]
theorem length_encode (text : List Char) : (encode text).length = byteWidth text := by
  induction text with
  | nil => rfl
  | cons c text ih =>
    rw [encode_cons, List.length_append, ih, byteWidth_cons, String.length_utf8EncodeChar]

/-- The machine takes the bytes that it awaits and goes on after the character. -/
theorem decodeFrom_awaited {bounds : List (UInt8 × UInt8)} {tail : List UInt8}
    (fits : List.Forall₂ Fits bounds tail) (position : Nat) (begun rest : List UInt8)
    (hne : bounds ≠ []) :
    decodeFrom position begun bounds (tail ++ rest) =
      (character (begun ++ tail) :: ·) <$>
        decodeFrom (position + begun.length + tail.length) [] [] rest := by
  induction fits generalizing begun with
  | nil => exact absurd rfl hne
  | @cons bound b bounds tail hb fits ih =>
    rw [List.cons_append, decodeFrom, if_pos (And.intro hb.1 hb.2)]
    cases bounds with
    | nil => cases fits; rfl
    | cons next bounds =>
      rw [if_neg (by simp), ih _ (by simp)]
      simp only [List.append_assoc, List.singleton_append, List.length_append, List.length_cons,
        List.length_nil, Nat.add_assoc, Nat.add_comm 1]

theorem decodeFrom_truncated {bounds : List (UInt8 × UInt8)} {tail : List UInt8}
    (fits : List.Forall₂ Fits bounds tail) (position : Nat) (begun : List UInt8) {n : Nat}
    (hbegun : begun ≠ []) (hn : n < tail.length) :
    decodeFrom position begun bounds (tail.take n) =
      .error ⟨position, begun ++ tail.take n, .truncated⟩ := by
  induction fits generalizing begun n with
  | nil => simp at hn
  | @cons bound b bounds tail hb fits ih =>
    cases n with
    | zero => simp [decodeFrom, hbegun]
    | succ n =>
      have hlen := fits.length_eq
      have hbounds : bounds ≠ [] := by
        intro he
        simp [he] at hlen
        simp [← hlen] at hn
      rw [List.take_succ_cons, decodeFrom, if_pos (And.intro hb.1 hb.2), if_neg (by simpa using hbounds),
        ih _ (by simp) (by simpa using hn)]
      simp

theorem decodeFrom_char (position : Nat) (c : Char) (rest : List UInt8) :
    decodeFrom position [] [] (String.utf8EncodeChar c ++ rest) =
      (c :: ·) <$> decodeFrom (position + c.utf8Size) [] [] rest := by
  obtain ⟨first, tail, bounds, he, hf, fits, hc⟩ := isShaped c
  have hlen : tail.length + 1 = c.utf8Size := by
    rw [← String.length_utf8EncodeChar, he, List.length_cons]
  rw [he, List.cons_append, decodeFrom, hf]
  cases fits with
  | nil => simp [hc, ← hlen]
  | cons hb fits =>
    dsimp only
    rw [decodeFrom_awaited (.cons hb fits) _ _ _ (by simp), List.singleton_append, hc, ← hlen]
    simp only [List.length_singleton, Nat.add_assoc, Nat.add_comm 1]

theorem decodeFrom_encode (position : Nat) (text : List Char) (rest : List UInt8) :
    decodeFrom position [] [] (encode text ++ rest) =
      (text ++ ·) <$> decodeFrom (position + byteWidth text) [] [] rest := by
  induction text generalizing position with
  | nil => cases h : decodeFrom position [] [] rest <;> simp [encode, byteWidth_nil, h]
  | cons c text ih =>
    rw [encode_cons, List.append_assoc, decodeFrom_char, ih, byteWidth_cons, ← Nat.add_assoc]
    cases decodeFrom (position + c.utf8Size + byteWidth text) [] [] rest <;> rfl

theorem decode_encode (text : List Char) : decode (encode text) = .ok text := by
  have h := decodeFrom_encode 0 text []
  rw [List.append_nil] at h
  rw [decode, h]
  simp [decodeFrom]

theorem decodeFrom_partial_char (position : Nat) (c : Char) {n : Nat} (hpos : 0 < n)
    (hn : n < c.utf8Size) :
    ∃ fault, decodeFrom position [] [] ((String.utf8EncodeChar c).take n) = .error fault := by
  obtain ⟨first, tail, bounds, he, hf, fits, _⟩ := isShaped c
  have hlen : tail.length + 1 = c.utf8Size := by
    rw [← String.length_utf8EncodeChar, he, List.length_cons]
  obtain ⟨n, rfl⟩ : ∃ m, n = m + 1 := ⟨n - 1, by omega⟩
  rw [he, List.take_succ_cons, decodeFrom, hf]
  cases fits with
  | nil => simp at hlen; omega
  | cons hb fits =>
    exact ⟨_, decodeFrom_truncated (.cons hb fits) _ _ (by simp) (by omega)⟩

theorem utf8EncodeChar_continuation {c : Char} {n : Nat} (hpos : 0 < n) (hn : n < c.utf8Size) :
    ∃ b rest, (String.utf8EncodeChar c).drop n = b :: rest ∧ IsContinuation b := by
  obtain ⟨first, tail, bounds, he, hf, fits, _⟩ := isShaped c
  have hlen : tail.length + 1 = c.utf8Size := by
    rw [← String.length_utf8EncodeChar, he, List.length_cons]
  obtain ⟨n, rfl⟩ : ∃ m, n = m + 1 := ⟨n - 1, by omega⟩
  have hb : n < tail.length := by omega
  refine ⟨tail[n], tail.drop (n + 1), ?_, ?_⟩
  · rw [he, List.drop_succ_cons, List.drop_eq_getElem_cons hb]
  · have hbound : n < bounds.length := by have := fits.length_eq; omega
    exact fits_continuation hf (List.getElem_mem hbound) (fits.get hbound hb)

theorem decodeFrom_continuation (position : Nat) {b : UInt8} (h : IsContinuation b)
    (rest : List UInt8) :
    decodeFrom position [] [] (b :: rest) = .error ⟨position, [b], .startByte⟩ := by
  rw [decodeFrom, continuation_not_first h]

end Utf8

/-- A byte position at which a character of a text begins, or the text ends. -/
def IsBoundary (text : List Char) (position : Nat) : Prop :=
  ∃ head tail, text = head ++ tail ∧ byteWidth head = position

theorem isBoundary_zero (text : List Char) : IsBoundary text 0 :=
  ⟨[], text, rfl, rfl⟩

theorem isBoundary_byteWidth (text : List Char) : IsBoundary text (byteWidth text) :=
  ⟨text, [], by simp, rfl⟩

theorem isBoundary_iff_take {text : List Char} {position : Nat} :
    IsBoundary text position ↔ ∃ n < text.length + 1, byteWidth (text.take n) = position := by
  constructor
  · rintro ⟨head, tail, rfl, hw⟩
    exact ⟨head.length, by rw [List.length_append]; omega, by rwa [List.take_left]⟩
  · rintro ⟨n, _, hw⟩
    exact ⟨text.take n, text.drop n, (List.take_append_drop n text).symm, hw⟩

instance (text : List Char) (position : Nat) : Decidable (IsBoundary text position) :=
  decidable_of_iff _ isBoundary_iff_take.symm

theorem head_eq_of_byteWidth_eq {left left' right right' : List Char}
    (h : left ++ right = left' ++ right') (hw : byteWidth left = byteWidth left') :
    left = left' ∧ right = right' := by
  rcases List.append_eq_append_iff.mp h with ⟨mid, rfl, rfl⟩ | ⟨mid, rfl, rfl⟩ <;>
    rw [byteWidth_append] at hw
  · have hmid : mid = [] := by
      by_contra hne
      have := byteWidth_pos hne
      omega
    simp [hmid]
  · have hmid : mid = [] := by
      by_contra hne
      have := byteWidth_pos hne
      omega
    simp [hmid]

theorem split_of_boundaries {text : List Char} {start stop : Nat} (hle : start ≤ stop)
    (hstart : IsBoundary text start) (hstop : IsBoundary text stop) :
    ∃ head mid tail, text = head ++ mid ++ tail ∧ byteWidth head = start ∧
      byteWidth head + byteWidth mid = stop := by
  obtain ⟨head, rest, rfl, hhead⟩ := hstart
  obtain ⟨front, tail, heq, hfront⟩ := hstop
  rcases List.append_eq_append_iff.mp heq with ⟨mid, rfl, rfl⟩ | ⟨mid, rfl, rfl⟩
  · exact ⟨head, mid, tail, by simp, hhead, by simpa using hfront⟩
  · have hmid : mid = [] := by
      by_contra hne
      have := byteWidth_pos hne
      rw [byteWidth_append] at hhead
      omega
    subst hmid
    rw [List.append_nil] at hhead
    exact ⟨front, [], rest, by simp, hhead, by simp [byteWidth_nil, hfront]⟩

theorem isBoundary_append_left_iff {text tail : List Char} {x : Nat} (hx : x ≤ byteWidth text) :
    IsBoundary (text ++ tail) x ↔ IsBoundary text x := by
  constructor
  · intro hb
    obtain ⟨head, mid, rest, heq, hhead, hmid⟩ :=
      split_of_boundaries hx hb ⟨text, tail, rfl, rfl⟩
    obtain ⟨rfl, _⟩ := head_eq_of_byteWidth_eq heq (by rw [byteWidth_append]; omega)
    exact ⟨head, mid, rfl, hhead⟩
  · rintro ⟨head, mid, rfl, hhead⟩
    exact ⟨head, mid ++ tail, List.append_assoc _ _ _, hhead⟩

theorem isBoundary_append_right_iff {head text tail : List Char} {x : Nat} :
    IsBoundary (head ++ text ++ tail) (byteWidth head + x) ↔ IsBoundary (text ++ tail) x := by
  rw [List.append_assoc]
  constructor
  · intro hb
    obtain ⟨head', mid, rest, heq, hhead, hmid⟩ :=
      split_of_boundaries (Nat.le_add_right _ x) ⟨head, text ++ tail, rfl, rfl⟩ hb
    rw [List.append_assoc] at heq
    obtain ⟨rfl, hrest⟩ := head_eq_of_byteWidth_eq heq hhead.symm
    exact ⟨mid, rest, hrest, by omega⟩
  · rintro ⟨mid, rest, heq, hmid⟩
    exact ⟨head ++ mid, rest, by rw [heq, List.append_assoc], by rw [byteWidth_append, hmid]⟩

/-- A position that is no boundary lies inside a character. -/
theorem isBoundary_or_inside {text : List Char} {position : Nat} (h : position ≤ byteWidth text) :
    IsBoundary text position ∨ ∃ head c tail n, text = head ++ c :: tail ∧
      position = byteWidth head + n ∧ 0 < n ∧ n < c.utf8Size := by
  induction text generalizing position with
  | nil =>
    obtain rfl : position = 0 := by simpa [byteWidth] using h
    exact .inl (isBoundary_zero [])
  | cons c text ih =>
    rw [byteWidth_cons] at h
    by_cases hz : position = 0
    · exact .inl (hz ▸ isBoundary_zero _)
    by_cases hc : position < c.utf8Size
    · exact .inr ⟨[], c, text, position, rfl, by simp [byteWidth], by omega, hc⟩
    rcases ih (show position - c.utf8Size ≤ byteWidth text by omega) with
      ⟨head, tail, ht, hw⟩ | ⟨head, d, tail, n, ht, hp, hpos, hn⟩
    · exact .inl ⟨c :: head, tail, by simp [ht], by rw [byteWidth_cons]; omega⟩
    · exact .inr ⟨c :: head, d, tail, n, by simp [ht], by rw [byteWidth_cons]; omega, hpos, hn⟩

/-- Inside a character the bytes go on with one that begins none. -/
theorem drop_encode_inside (head : List Char) {c : Char} (tail : List Char) {n : Nat} (hpos : 0 < n)
    (hn : n < c.utf8Size) : ∃ b rest,
      (Utf8.encode (head ++ c :: tail)).drop (byteWidth head + n) = b :: rest ∧
        Utf8.IsContinuation b := by
  obtain ⟨b, rest, hdrop, hb⟩ := Utf8.utf8EncodeChar_continuation hpos hn
  refine ⟨b, rest ++ Utf8.encode tail, ?_, hb⟩
  rw [Utf8.encode_append, ← Utf8.length_encode head, List.drop_length_add_append, Utf8.encode_cons,
    List.drop_append_of_le_length (by rw [String.length_utf8EncodeChar]; omega), hdrop,
    List.cons_append]

theorem decode_slice_of_split (head mid tail : List Char) :
    Utf8.decode (((Utf8.encode (head ++ mid ++ tail)).drop (byteWidth head)).take
      (byteWidth mid)) = .ok mid := by
  rw [List.append_assoc, Utf8.encode_append, ← Utf8.length_encode head, List.drop_left,
    Utf8.encode_append, ← Utf8.length_encode mid, List.take_left, Utf8.decode_encode]

/-- Bytes that begin or end inside a character are not read as a text. -/
theorem decode_slice_misaligned {text : List Char} {start stop : Nat} (hlt : start < stop)
    (hstop : stop ≤ byteWidth text) (h : ¬(IsBoundary text start ∧ IsBoundary text stop)) :
    ∃ fault, Utf8.decode (((Utf8.encode text).drop start).take (stop - start)) = .error fault := by
  rcases isBoundary_or_inside (show start ≤ byteWidth text by omega) with
    ⟨head, rest, rfl, hhead⟩ | ⟨head, c, tail, n, rfl, rfl, hpos, hn⟩
  · rw [byteWidth_append] at hstop
    rcases isBoundary_or_inside (show stop - start ≤ byteWidth rest by omega) with
      ⟨mid, tail, rfl, hmid⟩ | ⟨mid, c, tail, n, rfl, hn', hpos, hn⟩
    · refine absurd ⟨⟨head, mid ++ tail, rfl, hhead⟩, ⟨head ++ mid, tail, by simp, ?_⟩⟩ h
      rw [byteWidth_append]
      omega
    · obtain ⟨fault, hfault⟩ :=
        Utf8.decodeFrom_partial_char (0 + byteWidth mid) c hpos hn
      refine ⟨fault, ?_⟩
      have htake : (String.utf8EncodeChar c ++ Utf8.encode tail).take n =
          (String.utf8EncodeChar c).take n :=
        List.take_append_of_le_length (by rw [String.length_utf8EncodeChar]; omega)
      rw [Utf8.encode_append, ← hhead, ← Utf8.length_encode head, List.drop_left, Utf8.length_encode,
        hhead, hn', Utf8.encode_append, ← Utf8.length_encode mid, List.take_length_add_append,
        Utf8.encode_cons, htake, Utf8.decode, Utf8.decodeFrom_encode, hfault]
      rfl
  · obtain ⟨b, rest, hbytes, hb⟩ := drop_encode_inside head tail hpos hn
    obtain ⟨n', hn'⟩ : ∃ m, stop - (byteWidth head + n) = m + 1 :=
      ⟨stop - (byteWidth head + n) - 1, by omega⟩
    rw [hbytes, hn', List.take_succ_cons, Utf8.decode, Utf8.decodeFrom_continuation _ hb]
    exact ⟨_, rfl⟩

namespace Source

theorem offset_natCast (s : Source) (bound : Nat) : s.offset bound = bound := by
  rw [offset, if_neg (by omega), Int.toNat_natCast]

theorem textBetween_of_split {s : Source} {head mid tail : List Char}
    (h : s.text = head ++ mid ++ tail) {start stop : Nat} (hstart : byteWidth head = start)
    (hstop : start + byteWidth mid = stop) : s.textBetween start stop = .ok mid := by
  have hslice : s.between? start stop = some mid := by
    rw [between?, s.bytes_eq, h, ← hstop, Nat.add_sub_cancel_left, ← hstart,
      decode_slice_of_split]
    rfl
  rw [textBetween, offset_natCast, offset_natCast, hslice]

/-- A slice that cuts a character fails, and names its bounds. -/
theorem textBetween_misaligned {s : Source} {start stop : Nat} (hlt : start < stop)
    (hstop : stop ≤ s.byteLen) (h : ¬(IsBoundary s.text start ∧ IsBoundary s.text stop)) :
    s.textBetween start stop = .error (.spanOutside ⟨start, stop, Nat.le_of_lt hlt⟩ .misaligned) := by
  rw [s.byteLen_eq] at hstop
  obtain ⟨fault, hfault⟩ := decode_slice_misaligned hlt hstop h
  have hslice : s.between? start stop = none := by
    rw [between?, s.bytes_eq, hfault]
    rfl
  have hspan : Span.ofBounds start stop = .ok ⟨start, stop, Nat.le_of_lt hlt⟩ := by
    exact Span.ofBounds_eq_ok rfl rfl
  rw [textBetween, offset_natCast, offset_natCast, hslice, hspan]
  rfl

/-- A slice that is not empty has a text exactly when it cuts no character. -/
theorem textBetween_eq_ok_iff {s : Source} {start stop : Nat} {text : List Char}
    (hlt : start < stop) (hstop : stop ≤ s.byteLen) :
    s.textBetween start stop = .ok text ↔ ∃ head tail, s.text = head ++ text ++ tail ∧
      byteWidth head = start ∧ start + byteWidth text = stop := by
  constructor
  · intro hok
    by_cases hb : IsBoundary s.text start ∧ IsBoundary s.text stop
    · obtain ⟨head, mid, tail, ht, hhead, hmid⟩ := split_of_boundaries (Nat.le_of_lt hlt) hb.1 hb.2
      have hmid' := textBetween_of_split ht hhead (by omega : start + byteWidth mid = stop)
      rw [hok] at hmid'
      cases hmid'
      exact ⟨head, tail, ht, hhead, by omega⟩
    · rw [textBetween_misaligned hlt hstop hb] at hok
      cases hok
  · rintro ⟨head, tail, ht, hhead, hmid⟩
    exact textBetween_of_split ht hhead hmid

end Source

end Callout
