import Callout.Proofs.PlainText
import Callout.Proofs.RowTexts
import Callout.Proofs.ShownText
import Mathlib.Data.Nat.Digits.Defs

namespace Callout

theorem mem_lineParts {text part : List Char} {c : Char} (h : part ∈ lineParts text) (hc : c ∈ part) :
    c ∈ text ∧ c ≠ '\n' := by
  induction text generalizing part with
  | nil =>
    rw [lineParts, List.splitOn_nil, List.mem_singleton] at h
    rw [h] at hc
    cases hc
  | cons first rest ih =>
    rw [lineParts, List.splitOn_cons_eq_if_modifyHead] at h
    split at h
    next =>
      rcases List.mem_cons.mp h with rfl | h
      · cases hc
      · exact ⟨List.mem_cons_of_mem _ (ih h hc).1, (ih h hc).2⟩
    next hne =>
      obtain ⟨head, tail, hparts⟩ := List.exists_cons_of_ne_nil (List.splitOn_ne_nil '\n' rest)
      rw [hparts, List.modifyHead_cons] at h
      have hrest : ∀ part ∈ head :: tail, c ∈ part → c ∈ rest ∧ c ≠ '\n' := by
        intro part hpart hc
        rw [← hparts] at hpart
        exact ih hpart hc
      rcases List.mem_cons.mp h with rfl | h
      · rcases List.mem_cons.mp hc with rfl | hc
        · exact ⟨List.mem_cons_self, by simpa using hne⟩
        · have hhead := hrest head List.mem_cons_self hc
          exact ⟨List.mem_cons_of_mem _ hhead.1, hhead.2⟩
      · have htail := hrest part (List.mem_cons_of_mem _ h) hc
        exact ⟨List.mem_cons_of_mem _ htail.1, htail.2⟩

section Control

theorem blank_lt_of_isDigit {c : Char} (h : c.isDigit = true) : ' ' < c := by
  rw [Char.isDigit, Bool.and_eq_true, decide_eq_true_eq, decide_eq_true_eq] at h
  exact UInt32.lt_of_lt_of_le (by decide) h.1

theorem isDigit_of_mem_toString {n : Nat} {c : Char} (h : c ∈ (toString n).toList) :
    c.isDigit = true := by
  have hdigits : (toString n).toList = Nat.toDigits 10 n := by simp
  rw [hdigits] at h
  exact Nat.isDigit_of_mem_toDigits (by omega) (by omega) h

variable {c : Char} (hc : c < ' ')
include hc

theorem not_mem_toString (n : Nat) : c ∉ (toString n).toList := by
  intro hmem
  exact Char.lt_irrefl _ (Char.lt_trans hc (blank_lt_of_isDigit (isDigit_of_mem_toString hmem)))

theorem not_mem_gutterText (gutter : Nat) (number : Option Nat) : c ∉ gutterText gutter number := by
  have hblank : c ≠ ' ' := Char.ne_of_lt hc
  have hreplicate : ∀ k, c ∉ List.replicate k ' ' :=
    fun k hmem => hblank (List.eq_of_mem_replicate hmem)
  cases number with
  | none => exact hreplicate gutter
  | some n =>
    simp only [gutterText, List.mem_append, List.mem_singleton, not_or]
    exact ⟨⟨hreplicate _, not_mem_toString hc n⟩, hblank⟩

theorem not_mem_locus {id : SourceId} (locus : Locus) (h : c ∉ id.shown.toList) :
    c ∉ s!"{id.shown}:{locus.line}:{locus.column}".toList := by
  have hcolon : c ≠ ':' := by
    rintro rfl
    exact absurd hc (by decide)
  have hcolons : c ∉ [':'] := by simpa using hcolon
  have hline := not_mem_toString hc locus.line
  have hcolumn := not_mem_toString hc locus.column
  simp only [String.toList_append, List.mem_append, not_or]
  exact ⟨⟨⟨⟨h, hcolons⟩, hline⟩, hcolons⟩, hcolumn⟩

end Control

section Shown

theorem CharSet.blank_lt_glyph (chars : CharSet) (role : Glyph) : ' ' < chars.glyph role := by
  cases chars <;> cases role <;> decide

theorem control_ne_glyph {c : Char} (hc : c < ' ') (chars : CharSet) (role : Glyph) :
    c ≠ chars.glyph role := by
  intro heq
  have hlt := chars.blank_lt_glyph role
  rw [← heq] at hlt
  exact Char.lt_irrefl _ (Char.lt_trans hc hlt)

variable (chars : CharSet)

theorem Row.text_inside {row : Row} (gutter : Nat) (h : row.role.isInside = true) :
    row.text chars false gutter = gutterText gutter row.role.number? ++ chars.glyph row.role.bar ::
      ((if row.body.isEmpty then [] else ' ' :: row.body.map (Cell.shown chars)) ++ ['\n']) := by
  have hempty : (row.body.map (Cell.shown chars)).isEmpty = row.body.isEmpty := by
    rw [List.isEmpty_map]
  rw [Row.text_plain]
  obtain ⟨role, body⟩ := row
  cases role with
  | header => cases h
  | border => cases h
  | bareNote index => cases h
  | footer => cases h
  | _ => simp only [gutterShown, bodyShown, hempty, List.append_assoc, List.cons_append]

theorem map_shown_codeCells (fragments : List Fragment) :
    (Placement.codeCells fragments).map (Cell.shown chars) =
      shownPieces (fragments.map Fragment.text) := by
  rw [Placement.codeCells, List.map_flatMap, shownPieces, List.map_map, ← List.flatMap_def]
  simp only [map_shown_ofText]
  rfl

theorem Cell.IsFrame.shown_eq {cell : Cell} (h : cell.IsFrame) :
    cell.shown chars = ' ' ∨ ∃ role, cell.shown chars = chars.glyph role := by
  rcases h with rfl | ⟨role, color, rfl⟩
  · exact .inl rfl
  · exact .inr ⟨role, rfl⟩

theorem not_mem_shown_of_frame {cells : List Cell} {c : Char} (hc : c < ' ')
    (h : ∀ cell ∈ cells, Cell.IsFrame cell) : c ∉ cells.map (Cell.shown chars) := by
  intro hmem
  obtain ⟨cell, hcell, rfl⟩ := List.mem_map.mp hmem
  rcases (h cell hcell).shown_eq chars with heq | ⟨role, heq⟩
  · rw [heq] at hc
    exact absurd hc (by decide)
  · exact control_ne_glyph hc chars role heq

theorem mem_shown_of_trimBlanks {cells : List Cell} {c : Char}
    (h : c ∈ (trimBlanks cells).map (Cell.shown chars)) : c ∈ cells.map (Cell.shown chars) := by
  obtain ⟨cell, hcell, rfl⟩ := List.mem_map.mp h
  exact List.mem_map_of_mem (mem_trimBlanks hcell)

/-- A row of a note shows a part of its message behind its category, or behind blanks. -/
theorem noteRows_shown {role : Role} {lead : List Char} {note : Note} {row : Row}
    (h : row ∈ noteRows role lead note) : ∃ front part, part ∈ lineParts note.message.toList ∧
      row.body.map (Cell.shown chars) = front ++ part ∧
      ∀ c ∈ front, c ∈ lead ∨ c ∈ note.category.toList ∨ c = ':' ∨ c = ' ' := by
  unfold noteRows at h
  split at h
  next => cases h
  next first rest hparts =>
    rcases List.mem_cons.mp h with rfl | h
    · refine ⟨lead ++ note.category.toList ++ [':', ' '], first, ?_, ?_, ?_⟩
      · rw [hparts]
        exact List.mem_cons_self
      · simp only [List.map_append, map_shown_ofText, List.append_assoc]
      · intro c hc
        simp only [List.mem_append, List.mem_cons, List.not_mem_nil, or_false] at hc
        tauto
    · obtain ⟨part, hpart, rfl⟩ := List.mem_map.mp h
      refine ⟨List.replicate (lead.length + note.category.toList.length + 2) ' ', part, ?_, ?_, ?_⟩
      · rw [hparts]
        exact List.mem_cons_of_mem _ hpart
      · rw [map_shown_ofText]
      · intro c hc
        exact .inr (.inr (.inr (List.eq_of_mem_replicate hc)))

theorem not_mem_noteRows {role : Role} {lead : List Char} {note : Note} {row : Row} {c : Char}
    (hc : c < ' ') (hlead : c ∉ lead) (hcategory : c ∉ note.category.toList)
    (hparts : ∀ part ∈ lineParts note.message.toList, c ∉ part) (h : row ∈ noteRows role lead note) :
    c ∉ row.body.map (Cell.shown chars) := by
  obtain ⟨front, part, hpart, heq, hfront⟩ := noteRows_shown chars h
  rw [heq, List.mem_append, not_or]
  refine ⟨?_, hparts part hpart⟩
  intro hmem
  rcases hfront c hmem with hmem | hmem | rfl | rfl
  · exact hlead hmem
  · exact hcategory hmem
  · exact absurd hc (by decide)
  · exact absurd hc (by decide)

theorem mem_of_mem_shownPieces {texts : List (List Char)} {c : Char} (h : c ∈ shownPieces texts) :
    c ∈ texts.flatten := by
  obtain ⟨shown, hshown, hc⟩ := List.mem_flatten.mp h
  obtain ⟨text, htext, rfl⟩ := List.mem_map.mp hshown
  exact List.mem_flatten.mpr ⟨text, htext, (isPrefix_dropTerminators text).subset hc⟩

/-- A piece is shown up to a character that is no terminator, so a separator in it would have text
behind it. -/
theorem separator_not_shown {texts : List (List Char)}
    (h : ∀ c ∈ texts.flatten.dropLast, isSeparator c = false) {c : Char} (hc : c ∈ shownPieces texts) :
    isSeparator c = false := by
  induction texts with
  | nil => cases hc
  | cons text texts ih =>
    rw [shownPieces, List.map_cons, List.flatten_cons, ← shownPieces, List.mem_append] at hc
    rw [List.flatten_cons] at h
    rcases hc with hc | hc
    · obtain ⟨init, last, hlast⟩ :=
        (List.eq_nil_or_concat' (dropTerminators text)).resolve_left (List.ne_nil_of_mem hc)
      obtain ⟨tail, htail⟩ := isPrefix_dropTerminators text
      have hkept : dropTerminators (dropTerminators text) = dropTerminators text :=
        List.rdropWhile_idempotent isTerminator text
      rw [hlast] at hc htail hkept
      rcases List.mem_append.mp hc with hc | hc
      · apply h
        rw [← htail, List.append_assoc, List.append_assoc, List.dropLast_append_of_ne_nil (by simp)]
        exact List.mem_append_left _ hc
      · rw [List.mem_singleton.mp hc]
        have hterminator := dropTerminators_concat_eq_iff.mp hkept
        rw [isTerminator, Bool.or_eq_false_iff] at hterminator
        exact hterminator.1
    · apply ih _ hc
      intro d hd
      have hne : texts.flatten ≠ [] := by
        intro hnil
        rw [hnil] at hd
        cases hd
      apply h
      rw [List.dropLast_append_of_ne_nil hne]
      exact List.mem_append_right _ hd

namespace Placement

variable {p : Placement} {d : Diagnostic}

theorem fragments_cover {line : Nat} {fragments : List Fragment} (hline : line ∈ p.relevantLines)
    (h : p.fragments line = .ok fragments) : ∃ head tail,
      p.source.text = head ++ (fragments.map Fragment.text).flatten ++ tail ∧
      ∀ c ∈ (fragments.map Fragment.text).flatten.dropLast, isSeparator c = false := by
  have hlength := lt_length_of_mem_relevantLines hline
  have haligned := alignedOn_of_fragments hlength h
  obtain ⟨found, hfound⟩ := Source.exists_line hlength
  obtain ⟨head, slice, tail, htext, hfits, hseparator⟩ := Source.line_split hfound
  have hslice := Source.lineSlice_of_split hfound htext hfits
  obtain ⟨fragments', hfragments', hflatten, _⟩ := fragments_of_alignedOn hfound hslice haligned
  cases h.symm.trans hfragments'
  rw [hflatten]
  exact ⟨head, tail, htext, hseparator⟩

/-- A control character stands in a row only when the code, the notes or the message in it has one. -/
theorem Stands.control_free {row : Row} {c : Char} (hc : c < ' ')
    (hcode : ∀ line ∈ p.relevantLines, ∀ fragments, p.fragments line = .ok fragments →
      c ∉ shownPieces (fragments.map Fragment.text))
    (hnotes : ∀ note ∈ d.notes, c ∉ note.category.toList ∧
      ∀ part ∈ lineParts note.message.toList, c ∉ part)
    (h : p.Stands d row) : c ∉ row.body.map (Cell.shown chars) ∨
      ∃ label ∈ d.labels, row.IsMessage label.message := by
  cases h with
  | @code line lead fragments relevant drawn cut =>
    left
    intro hmem
    have hcells := mem_shown_of_trimBlanks chars hmem
    rw [List.map_append, List.mem_append, map_shown_codeCells] at hcells
    rcases hcells with hcells | hcells
    · exact not_mem_shown_of_frame chars hc drawn hcells
    · exact hcode line relevant fragments cut hcells
  | bare _ _ drawn _ => exact .inl (not_mem_shown_of_frame chars hc drawn)
  | message given shown => exact .inr ⟨_, given, shown⟩
  | note given drawn =>
    obtain ⟨hcategory, hparts⟩ := hnotes _ given
    exact .inl (not_mem_noteRows chars hc List.not_mem_nil hcategory hparts drawn)

end Placement

end Shown

end Callout
