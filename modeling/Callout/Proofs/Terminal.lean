import Callout.Proofs.Decoration
import Callout.Text.ControlSequence

namespace Callout

/-- What a terminal shows characters in. By default nothing is selected. -/
structure Rendition where
  foreground : Color := .default
  background : Color := .default
  attributes : List Modifier := []
  deriving DecidableEq

namespace Rendition

abbrev default : Rendition := {}

/-- The basic color that a number selects for the foreground. For the background the number is ten
greater. -/
def basicColor? : Nat → Option BasicColor
  | 30 => some .black
  | 31 => some .red
  | 32 => some .green
  | 33 => some .yellow
  | 34 => some .blue
  | 35 => some .magenta
  | 36 => some .cyan
  | 37 => some .white
  | 39 => some .default
  | 90 => some .brightBlack
  | 91 => some .brightRed
  | 92 => some .brightGreen
  | 93 => some .brightYellow
  | 94 => some .brightBlue
  | 95 => some .brightMagenta
  | 96 => some .brightCyan
  | 97 => some .brightWhite
  | _ => none

def attribute? : Nat → Option Modifier
  | 1 => some .bold
  | 2 => some .faint
  | 3 => some .italic
  | 4 => some .underline
  | 5 => some .blinking
  | 7 => some .reverse
  | 8 => some .hidden
  | 9 => some .strikethrough
  | _ => none

/-- A rendition after one number of a selection. Zero takes everything back, and a number without a
meaning is passed over. -/
def apply (r : Rendition) (n : Nat) : Rendition :=
  if n = 0 then default
  else
    match attribute? n, basicColor? n, basicColor? (n - 10) with
    | some m, _, _ => { r with attributes := r.attributes ++ [m] }
    | none, some color, _ => { r with foreground := .basic color }
    | none, none, some color => { r with background := .basic color }
    | none, none, none => r

/-- A color mixed from three amounts. An amount takes one byte. -/
def mixedColor? (red green blue : Nat) : Option Color :=
  if red ≤ 255 ∧ green ≤ 255 ∧ blue ≤ 255 then some (.rgb red green blue) else none

/-- A rendition after all numbers of a selection. A mixed color takes five of them, and is passed over
if it has an amount that is too great. -/
def select (r : Rendition) : List Nat → Rendition
  | [] => r
  | 38 :: 2 :: red :: green :: blue :: rest =>
    { r with foreground := (mixedColor? red green blue).getD r.foreground : Rendition }.select rest
  | 48 :: 2 :: red :: green :: blue :: rest =>
    { r with background := (mixedColor? red green blue).getD r.background : Rendition }.select rest
  | n :: rest => (r.apply n).select rest

theorem select_singleton (r : Rendition) (n : Nat) : r.select [n] = r.apply n := by
  simp [select]

end Rendition

/-- Whether parameters are those of a selection: decimal numbers and semicolons between them. -/
def isSelection (parameters : List Char) : Bool :=
  parameters.all fun c => c.isDigit || c == ';'

/-- The numbers of a selection. One without digits is zero. -/
def readNumbers (parameters : List Char) : List Nat :=
  (parameters.splitOn ';').map fun digits => Nat.ofDigitChars 10 digits 0

/-- A terminal that has read no part of a control sequence, and that nothing was selected on, unless said
otherwise. -/
structure Terminal where
  reader : Text.SequenceReader := {}
  rendition : Rendition := .default

namespace Terminal

/-- The parameters of the control sequence that is being read, behind the escape and the bracket. -/
def parameters (t : Terminal) : List Char :=
  t.reader.held.reverse.drop 2

/-- What characters are shown in after a character. Of the control sequences only selections have an
effect: they end with an m right behind their parameters. -/
def selected (t : Terminal) (c : Char) : Rendition :=
  if t.reader.phase = .parameters ∧ c = 'm' ∧ isSelection t.parameters then
    t.rendition.select (readNumbers t.parameters)
  else t.rendition

def next (t : Terminal) (c : Char) : Terminal :=
  ⟨(t.reader.step c).2, t.selected c⟩

/-- What is shown once a character has been read: what turns out to be no part of a control sequence. -/
def emit (t : Terminal) (c : Char) : List (Char × Rendition) :=
  (t.reader.step c).1.map fun seen => (seen, t.rendition)

/-- The characters that are shown of a text, each with what it is shown in. -/
def shown (t : Terminal) : List Char → List (Char × Rendition)
  | [] => []
  | c :: rest => t.emit c ++ (t.next c).shown rest

def after (t : Terminal) (text : List Char) : Terminal :=
  text.foldl next t

theorem after_append (t : Terminal) (front back : List Char) :
    t.after (front ++ back) = (t.after front).after back :=
  List.foldl_append

theorem shown_append (t : Terminal) (front back : List Char) :
    t.shown (front ++ back) = t.shown front ++ (t.after front).shown back := by
  induction front generalizing t with
  | nil => rfl
  | cons c front ih =>
    rw [List.cons_append, shown, shown, ih, List.append_assoc]
    rfl

/-- A terminal shows what is left of a text when its control sequences are dropped, up to one that is not
completed yet. -/
theorem shown_characters (t : Terminal) (text : List Char) :
    (t.shown text).map Prod.fst ++ (t.after text).reader.release = t.reader.run text := by
  induction text generalizing t with
  | nil => rfl
  | cons c text ih =>
    have hemit : (t.emit c).map Prod.fst = (t.reader.step c).1 := by
      rw [emit, List.map_map]
      exact List.map_id'' (fun _ => rfl) _
    have hrest := ih (t.next c)
    rw [shown, List.map_append, hemit, List.append_assoc, Text.SequenceReader.run]
    exact congrArg ((t.reader.step c).1 ++ ·) hrest

example : Terminal.shown {} "\x1b[38;2;-1;0;0mx".toList =
    "\x1b[38;2;-1;0;0mx".toList.map fun c => (c, .default) := by
  decide

end Terminal

/-- Whether a color is basic, or mixed from amounts of one byte each. -/
def Color.InRange : Color → Prop
  | .basic _ => True
  | .rgb red green blue =>
    (0 ≤ red ∧ red ≤ 255) ∧ (0 ≤ green ∧ green ≤ 255) ∧ 0 ≤ blue ∧ blue ≤ 255

instance (color : Color) : Decidable color.InRange :=
  match color with
  | .basic _ => inferInstanceAs (Decidable True)
  | .rgb _ _ _ => inferInstanceAs (Decidable (_ ∧ _))

theorem Color.InRange.exists_mixed {red green blue : Int} (h : (Color.rgb red green blue).InRange) :
    ∃ r g b : Nat, red = r ∧ green = g ∧ blue = b ∧
      Rendition.mixedColor? r g b = some (.rgb r g b) := by
  obtain ⟨⟨hred, hredMax⟩, ⟨hgreen, hgreenMax⟩, hblue, hblueMax⟩ := h
  obtain ⟨r, rfl⟩ := Int.eq_ofNat_of_zero_le hred
  obtain ⟨g, rfl⟩ := Int.eq_ofNat_of_zero_le hgreen
  obtain ⟨b, rfl⟩ := Int.eq_ofNat_of_zero_le hblue
  exact ⟨r, g, b, rfl, rfl, rfl, if_pos (by omega)⟩

/-- A terminal that reads a text in `r`, not behind a part of a control sequence, shows `seen` of it and is
left in `r'`, again not behind such a part. -/
structure Reads (r : Rendition) (text : List Char) (seen : List (Char × Rendition)) (r' : Rendition) :
    Prop where
  shown_eq : Terminal.shown ⟨{}, r⟩ text = seen
  after_eq : Terminal.after ⟨{}, r⟩ text = ⟨{}, r'⟩

section Selections

variable {r : Rendition}

theorem Reads.nil : Reads r [] [] r :=
  ⟨rfl, rfl⟩

theorem Reads.append {r' r'' : Rendition} {front back : List Char}
    {seen more : List (Char × Rendition)} (h : Reads r front seen r') (h' : Reads r' back more r'') :
    Reads r (front ++ back) (seen ++ more) r'' := by
  constructor
  · rw [Terminal.shown_append, h.shown_eq, h.after_eq, h'.shown_eq]
  · rw [Terminal.after_append, h.after_eq, h'.after_eq]

theorem reads_text {text : List Char} (h : '\x1b' ∉ text) :
    Reads r text (text.map fun c => (c, r)) r := by
  induction text with
  | nil => exact .nil
  | cons c text ih =>
    rw [List.mem_cons, not_or] at h
    obtain ⟨hc, htext⟩ := h
    have hstep := Text.SequenceReader.step_outside (Ne.symm hc)
    have hfirst : Reads r [c] [(c, r)] r := by
      constructor
      · rw [Terminal.shown, Terminal.emit, hstep]
        rfl
      · rw [Terminal.after, List.foldl_cons, Terminal.next, hstep]
        rfl
    exact hfirst.append (ih htext)

theorem parameter_bounds {c : Char} (h : (c.isDigit || c == ';') = true) :
    '0' ≤ c ∧ c ≤ '?' := by
  rcases Bool.or_eq_true_iff.mp h with hdigit | hsemicolon
  · rw [Char.isDigit, Bool.and_eq_true, decide_eq_true_eq, decide_eq_true_eq] at hdigit
    exact ⟨hdigit.1, UInt32.le_trans hdigit.2 (by decide)⟩
  · rw [eq_of_beq hsemicolon]
    decide

theorem next_parameter {c : Char} (h : (c.isDigit || c == ';') = true) (held : List Char)
    (r : Rendition) : (Terminal.mk ⟨.parameters, held⟩ r).emit c = [] ∧
      (Terminal.mk ⟨.parameters, held⟩ r).next c = ⟨⟨.parameters, c :: held⟩, r⟩ := by
  have hescape : c ≠ '\x1b' := by
    rintro rfl
    exact absurd h (by decide)
  have hm : c ≠ 'm' := by
    rintro rfl
    exact absurd h (by decide)
  have hstep : Text.SequenceReader.step ⟨.parameters, held⟩ c = ([], ⟨.parameters, c :: held⟩) := by
    rw [Text.SequenceReader.step, if_neg hescape, Text.SequenceReader.advance?,
      if_pos (parameter_bounds h)]
  have hselected : (Terminal.mk ⟨.parameters, held⟩ r).selected c = r :=
    if_neg fun hboth => hm hboth.2.1
  constructor
  · rw [Terminal.emit, hstep]
    rfl
  · rw [Terminal.next, hstep, hselected]

theorem after_parameters (r : Rendition) (held : List Char) {parameters : List Char}
    (h : isSelection parameters = true) :
    Terminal.shown ⟨⟨.parameters, held⟩, r⟩ parameters = [] ∧
      Terminal.after ⟨⟨.parameters, held⟩, r⟩ parameters =
        ⟨⟨.parameters, parameters.reverse ++ held⟩, r⟩ := by
  induction parameters generalizing held with
  | nil => exact ⟨rfl, rfl⟩
  | cons c parameters ih =>
    rw [isSelection, List.all_cons, Bool.and_eq_true] at h
    obtain ⟨hemit, hnext⟩ := next_parameter h.1 held r
    obtain ⟨hshown, hafter⟩ := ih (c :: held) h.2
    constructor
    · rw [Terminal.shown, hemit, hnext, hshown]
      rfl
    · rw [Terminal.after, List.foldl_cons, hnext, ← Terminal.after, hafter, List.reverse_cons,
        List.append_assoc]
      rfl

theorem reads_selectRendition (r : Rendition) {parameters : String}
    (h : isSelection parameters.toList = true) :
    Reads r (selectRendition parameters) [] (r.select (readNumbers parameters.toList)) := by
  obtain ⟨hshown, hafter⟩ := after_parameters r ['[', '\x1b'] h
  have hbegin : Terminal.after ⟨{}, r⟩ ['\x1b', '['] = ⟨⟨.parameters, ['[', '\x1b']⟩, r⟩ := rfl
  have hparameters : (Terminal.mk ⟨.parameters, parameters.toList.reverse ++ ['[', '\x1b']⟩ r).parameters =
      parameters.toList := by
    rw [Terminal.parameters, List.reverse_append, List.reverse_reverse]
    rfl
  have hselected : (Terminal.mk ⟨.parameters, parameters.toList.reverse ++ ['[', '\x1b']⟩ r).selected 'm' =
      r.select (readNumbers parameters.toList) := by
    rw [Terminal.selected, hparameters, if_pos ⟨rfl, rfl, h⟩]
  rw [selectRendition]
  constructor
  · rw [Terminal.shown_append, Terminal.shown_append, Terminal.after_append, hbegin, hshown, hafter]
    rfl
  · rw [Terminal.after_append, Terminal.after_append, hbegin, hafter, Terminal.after, List.foldl_cons,
      Terminal.next, hselected]
    rfl

theorem isSelection_append {front back : List Char} :
    isSelection (front ++ back) = (isSelection front && isSelection back) :=
  List.all_append

theorem isSelection_toString (n : Nat) : isSelection (toString n).toList = true := by
  rw [isSelection, List.all_eq_true]
  intro c hc
  rw [isDigit_of_mem_toString hc]
  rfl

theorem semicolon_not_in_nat (n : Nat) : ';' ∉ (toString n).toList :=
  fun hmem => absurd (isDigit_of_mem_toString hmem) (by decide)

theorem ofDigitChars_toString (n : Nat) : Nat.ofDigitChars 10 (toString n).toList 0 = n := by
  have hdigits : (toString n).toList = Nat.toDigits 10 n := by simp
  rw [hdigits, Nat.ofDigitChars_toDigits (by omega) (by omega)]

theorem readNumbers_toString (n : Nat) : readNumbers (toString n).toList = [n] := by
  rw [readNumbers, List.splitOn_eq_singleton (semicolon_not_in_nat n), List.map_singleton,
    ofDigitChars_toString]

theorem readNumbers_cons (n : Nat) (rest : List Char) :
    readNumbers ((toString n).toList ++ ';' :: rest) = n :: readNumbers rest := by
  rw [readNumbers, List.splitOn_append_cons_self, List.splitOn_eq_singleton (semicolon_not_in_nat n),
    List.map_append, List.map_singleton, ofDigitChars_toString, ← readNumbers, List.singleton_append]

/-- The parameters of a mixed color are read as the five numbers that they are made of. -/
theorem reads_rgb (r : Rendition) (ground red green blue : Nat) {head : String}
    (hhead : (toString head).toList = (toString ground).toList ++ [';', '2', ';']) :
    Reads r (selectRendition s!"{head}{(red : Int)};{(green : Int)};{(blue : Int)}") []
      (r.select [ground, 2, red, green, blue]) := by
  have hsemicolon : (toString ";").toList = [';'] := rfl
  have htwo : (toString 2).toList = ['2'] := rfl
  have hint : ∀ n : Nat, toString (n : Int) = toString n := fun _ => rfl
  have hparameters : s!"{head}{(red : Int)};{(green : Int)};{(blue : Int)}".toList =
      (toString ground).toList ++ ';' :: ((toString 2).toList ++ ';' :: ((toString red).toList ++ ';' ::
        ((toString green).toList ++ ';' :: (toString blue).toList))) := by
    rw [htwo]
    simp only [String.toList_append, hhead, hsemicolon, hint, List.append_assoc, List.cons_append,
      List.nil_append]
  have hcons : ∀ (n : Nat) {rest : List Char}, isSelection rest = true →
      isSelection ((toString n).toList ++ ';' :: rest) = true := by
    intro n rest hrest
    rw [isSelection_append, isSelection_toString, Bool.true_and]
    exact hrest
  have hselection : isSelection s!"{head}{(red : Int)};{(green : Int)};{(blue : Int)}".toList = true := by
    rw [hparameters]
    exact hcons _ (hcons _ (hcons _ (hcons _ (isSelection_toString blue))))
  have hread := reads_selectRendition r hselection
  rwa [hparameters, readNumbers_cons, readNumbers_cons, readNumbers_cons, readNumbers_cons,
    readNumbers_toString] at hread

/-- A number alone selects what it means. -/
theorem reads_number (r : Rendition) (n : Nat) :
    Reads r (selectRendition (toString n)) [] (r.apply n) := by
  have hread := reads_selectRendition r (isSelection_toString n)
  rwa [readNumbers_toString, Rendition.select_singleton] at hread

theorem apply_code (r : Rendition) (b : BasicColor) :
    r.apply b.code = { r with foreground := .basic b } := by
  cases b <;> rfl

theorem apply_code_add_ten (r : Rendition) (b : BasicColor) :
    r.apply (b.code + 10) = { r with background := .basic b } := by
  cases b <;> rfl

theorem reads_foreground (r : Rendition) {color : Color} (h : color.InRange) :
    Reads r (color.select .foreground) [] { r with foreground := color } := by
  cases color with
  | basic b =>
    rw [← apply_code]
    exact reads_number r b.code
  | rgb red green blue =>
    obtain ⟨red, green, blue, rfl, rfl, rfl, hmixed⟩ := h.exists_mixed
    have hread := reads_rgb r 38 red green blue (show (toString "38;2;").toList = _ from rfl)
    rw [Rendition.select, hmixed] at hread
    exact hread

theorem reads_background (r : Rendition) {color : Color} (h : color.InRange) :
    Reads r (color.select .background) [] { r with background := color } := by
  cases color with
  | basic b =>
    rw [← apply_code_add_ten]
    exact reads_number r (b.code + 10)
  | rgb red green blue =>
    obtain ⟨red, green, blue, rfl, rfl, rfl, hmixed⟩ := h.exists_mixed
    have hread := reads_rgb r 48 red green blue (show (toString "48;2;").toList = _ from rfl)
    rw [Rendition.select, hmixed] at hread
    exact hread

end Selections

section Painted

/-- The default style takes everything back. -/
theorem reads_reset {style : Style} (h : style.enabled = true) (r : Rendition) :
    Reads r style.reset [] .default := by
  have hdefault : Color.default.InRange := trivial
  have hzero : Reads r (selectRendition (toString 0)) [] .default := reads_number r 0
  have hforeground := reads_foreground .default hdefault
  have hbackground := reads_background .default hdefault
  have hall := (hzero.append hforeground).append hbackground
  rw [Style.reset, if_pos h]
  exact hall

/-- A text that is painted in a color is shown in that color, and nothing stays selected. -/
theorem reads_paint {color : Color} (hcolor : color.InRange) {text : List Char} (h : '\x1b' ∉ text) :
    Reads .default (Style.paint { foreground := color } text)
      (text.map fun c => (c, { foreground := color })) .default := by
  have hdefault : Color.default.InRange := trivial
  have hselect : Reads .default (Style.select { foreground := color }) [] { foreground := color } :=
    (reads_foreground .default hcolor).append (reads_background _ hdefault)
  have hreset : Reads { foreground := color } (Style.reset { foreground := color }) [] .default :=
    reads_reset rfl _
  unfold Style.paint
  split
  next hempty =>
    rw [List.isEmpty_iff.mp hempty]
    exact .nil
  next =>
    have hall := (hselect.append (reads_text h)).append hreset
    rwa [List.nil_append, List.append_nil] at hall

def Cell.InRange (cell : Cell) : Prop :=
  ∀ color, cell.color = some color → color.InRange

variable (chars : CharSet)

/-- What a terminal is to show of a cell: its character in its color, on the default background. -/
def Cell.inColor (cell : Cell) : Char × Rendition :=
  (cell.shown chars, { foreground := cell.color.getD .default })

variable {chars}

theorem reads_paintRun {run : List Cell} (hcolor : ∀ a ∈ run, ∀ b ∈ run, a.color = b.color)
    (hrange : ∀ cell ∈ run, cell.InRange) (h : '\x1b' ∉ run.map (Cell.shown chars)) :
    Reads .default (paintRun chars true run) (run.map (Cell.inColor chars)) .default := by
  cases run with
  | nil => exact .nil
  | cons first run =>
    have hseen : (first :: run).map (Cell.inColor chars) =
        ((first :: run).map (Cell.shown chars)).map
          fun c => (c, { foreground := first.color.getD .default }) := by
      rw [List.map_map]
      apply List.map_congr_left
      intro cell hcell
      rw [Cell.inColor, hcolor cell hcell first List.mem_cons_self]
      rfl
    have hfirst := hrange first List.mem_cons_self
    rw [hseen, paintRun, List.head?_cons, Option.bind_some]
    cases hpaint : first.color with
    | none => exact reads_text h
    | some color => exact reads_paint (hfirst color hpaint) h

theorem color_eq_of_mem_splitBy {cells run : List Cell}
    (h : run ∈ cells.splitBy fun a b => a.color == b.color) :
    ∀ a ∈ run, ∀ b ∈ run, a.color = b.color := by
  have hchain := List.isChain_of_mem_splitBy h
  have hcolors : (run.map Cell.color).IsChain (· = ·) := by
    rw [List.isChain_map]
    exact hchain.imp fun a b hab => eq_of_beq hab
  intro a ha b hb
  exact hcolors.pairwise.forall_of_forall (fun _ _ => rfl) (List.mem_map_of_mem ha)
    (List.mem_map_of_mem hb)

theorem reads_runs {runs : List (List Cell)}
    (hcolors : ∀ run ∈ runs, ∀ a ∈ run, ∀ b ∈ run, a.color = b.color)
    (hrange : ∀ cell ∈ runs.flatten, cell.InRange)
    (h : '\x1b' ∉ runs.flatten.map (Cell.shown chars)) :
    Reads .default (runs.flatMap (paintRun chars true)) (runs.flatten.map (Cell.inColor chars))
      .default := by
  induction runs with
  | nil => exact .nil
  | cons run runs ih =>
    rw [List.flatten_cons, List.map_append, List.mem_append, not_or] at h
    rw [List.flatten_cons, List.forall_mem_append] at hrange
    rw [List.flatMap_cons, List.flatten_cons, List.map_append]
    have hrun := reads_paintRun (hcolors run List.mem_cons_self) hrange.1 h.1
    exact hrun.append (ih (fun run hrun => hcolors run (List.mem_cons_of_mem _ hrun)) hrange.2 h.2)

/-- However cells fall into runs, each is shown in its own color. -/
theorem reads_paintCells {cells : List Cell} (hrange : ∀ cell ∈ cells, cell.InRange)
    (h : '\x1b' ∉ cells.map (Cell.shown chars)) :
    Reads .default (paintCells chars true cells) (cells.map (Cell.inColor chars)) .default := by
  have hruns : (cells.splitBy fun a b => a.color == b.color).flatten = cells := List.flatten_splitBy _ _
  rw [← hruns] at hrange h
  have hcells := reads_runs (fun run hrun => color_eq_of_mem_splitBy hrun) hrange h
  rwa [hruns] at hcells

/-- What a terminal is to show of a row, without the line feed that ends it. -/
def Row.inColor (chars : CharSet) (gutter : Nat) (row : Row) : List (Char × Rendition) :=
  (row.cells gutter).map (Cell.inColor chars)

theorem inRange_plain (text : List Char) : ∀ cell ∈ Cell.ofText none text, cell.InRange := by
  intro cell hcell
  obtain ⟨_, _, rfl⟩ := List.mem_map.mp hcell
  exact nofun

theorem inRange_ofText {color : Color} (h : color.InRange) (text : List Char) :
    ∀ cell ∈ Cell.ofText (some color) text, cell.InRange := by
  intro cell hcell
  obtain ⟨_, _, rfl⟩ := List.mem_map.mp hcell
  intro found heq
  cases heq
  exact h

theorem inRange_frameGlyphs (roles : List Glyph) : ∀ cell ∈ frameGlyphs roles, cell.InRange := by
  intro cell hcell
  obtain ⟨_, _, rfl⟩ := List.mem_map.mp hcell
  intro color hcolor
  cases hcolor
  trivial

theorem inRange_cells {row : Row} (gutter : Nat) (h : ∀ cell ∈ row.body, cell.InRange) :
    ∀ cell ∈ row.cells gutter, cell.InRange := by
  have hblank : Cell.blank.InRange := nofun
  have hgutter : gutterColor.InRange := trivial
  obtain ⟨role, body⟩ := row
  cases role with
  | header => exact h
  | bareNote index => exact h
  | border =>
    intro cell hcell
    simp only [Row.cells, List.mem_append] at hcell
    rcases hcell with ((hcell | hcell) | hcell) | hcell
    · rw [List.eq_of_mem_replicate hcell]
      exact hblank
    · exact inRange_frameGlyphs _ cell hcell
    · exact h cell hcell
    · exact inRange_frameGlyphs _ cell hcell
  | footer => exact inRange_frameGlyphs _
  | _ =>
    intro cell hcell
    simp only [Row.cells, List.mem_append] at hcell
    rcases hcell with (hcell | hcell) | hcell
    · exact inRange_ofText hgutter _ cell hcell
    · exact inRange_frameGlyphs _ cell hcell
    · split at hcell
      next => cases hcell
      next =>
        rcases List.mem_cons.mp hcell with rfl | hcell
        · exact hblank
        · exact h cell hcell

/-- A row shows its cells, each in its own color, and a line feed when nothing is selected any more. -/
theorem reads_row {row : Row} (gutter : Nat) (hrange : ∀ cell ∈ row.body, cell.InRange)
    (h : '\x1b' ∉ row.body.map (Cell.shown chars)) :
    Reads .default (row.text chars true gutter) (row.inColor chars gutter ++ [('\n', .default)])
      .default := by
  have hcells := not_mem_cells (show '\x1b' < ' ' by decide) gutter h
  have hfeed : Reads .default ['\n'] [('\n', .default)] .default := reads_text (by decide)
  exact (reads_paintCells (inRange_cells gutter hrange) hcells).append hfeed

theorem reads_rows {rows : List Row} (gutter : Nat)
    (hrange : ∀ row ∈ rows, ∀ cell ∈ row.body, cell.InRange)
    (h : ∀ row ∈ rows, '\x1b' ∉ row.body.map (Cell.shown chars)) :
    Reads .default (rowsText chars true gutter rows)
      (rows.flatMap fun row => row.inColor chars gutter ++ [('\n', .default)]) .default := by
  induction rows with
  | nil => exact .nil
  | cons row rows ih =>
    rw [rowsText, List.flatMap_cons, List.flatMap_cons]
    have hrow := reads_row gutter (hrange row List.mem_cons_self) (h row List.mem_cons_self)
    have hrows := ih (fun row hrow => hrange row (List.mem_cons_of_mem _ hrow))
      fun row hrow => h row (List.mem_cons_of_mem _ hrow)
    exact hrow.append hrows

end Painted

end Callout
