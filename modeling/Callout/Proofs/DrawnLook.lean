import Callout.Proofs.ShiftedReport

namespace Callout

/-- A diagnostic that is drawn with colors or without, with the characters of a set. -/
def Diagnostic.inLook (d : Diagnostic) (colors : Bool) (charSet : CharSet) : Diagnostic :=
  { d with config := { d.config with colors, charSet } }

variable {catalog : Catalog} {d : Diagnostic}

theorem Placement.blocks_inLook (p : Placement) (d : Diagnostic) (colors : Bool) (chars : CharSet)
    (previous : Option Nat) (lines : List Nat) (active : List OpenLabel) :
    p.blocks (d.inLook colors chars).config previous lines active =
      p.blocks d.config previous lines active := by
  induction lines generalizing previous active with
  | nil => rfl
  | cons line lines ih =>
    have hblock : p.block (d.inLook colors chars).config line active =
      p.block d.config line active := rfl
    have hellipsis : (d.inLook colors chars).config.ellipsis = d.config.ellipsis := rfl
    simp only [Placement.blocks, hblock, hellipsis, ih]

/-- A report has the same rows in every look. -/
theorem Canvas.rows_inLook (d : Diagnostic) (placement : Option Placement) (colors : Bool)
    (chars : CharSet) :
    (⟨d.inLook colors chars, placement⟩ : Canvas).rows = (⟨d, placement⟩ : Canvas).rows := by
  cases placement with
  | none => rfl
  | some p =>
    have hcontent : p.content (d.inLook colors chars).config [] = p.content d.config [] :=
      p.blocks_inLook d colors chars none p.relevantLines []
    rw [Canvas.rows_eq_frame, Canvas.rows_eq_frame, hcontent]
    rfl

/-- Labels are placed on a source without regard to anything else in a diagnostic. -/
theorem Canvas.ofDiagnostic_congr (catalog : Catalog) {d d' : Diagnostic} (hid : d'.sourceId = d.sourceId)
    (hlabels : d'.labels = d.labels) : Canvas.ofDiagnostic catalog d' =
      (Canvas.ofDiagnostic catalog d).map fun c => ⟨d', c.placement⟩ := by
  rw [Canvas.ofDiagnostic, Canvas.ofDiagnostic, hid, hlabels]
  split
  next => rfl
  next =>
    cases catalog.get d.sourceId with
    | error e => rfl
    | ok source =>
      cases hplacement : Placement.ofLabels source d.labels with
      | error e => simp [hplacement, bind, Except.bind, Except.map]
      | ok p => simp [hplacement, bind, Except.bind, Except.map, pure, Except.pure]

theorem Canvas.ofDiagnostic_inLook (catalog : Catalog) (d : Diagnostic) (colors : Bool)
    (chars : CharSet) : Canvas.ofDiagnostic catalog (d.inLook colors chars) =
      (Canvas.ofDiagnostic catalog d).map fun c => ⟨d.inLook colors chars, c.placement⟩ :=
  Canvas.ofDiagnostic_congr catalog rfl rfl

theorem Canvas.diagnostic_eq {c : Canvas} (h : Canvas.ofDiagnostic catalog d = .ok c) :
    c.diagnostic = d := by
  unfold Canvas.ofDiagnostic at h
  split at h
  next =>
    cases h
    rfl
  next =>
    obtain ⟨source, _, h⟩ := bind_eq_ok_iff.mp h
    obtain ⟨placement, _, h⟩ := bind_eq_ok_iff.mp h
    cases h
    rfl

/-- In every look a report is made of the same rows, or refused for the same cause. -/
theorem render_inLook (catalog : Catalog) (d : Diagnostic) (colors : Bool) (chars : CharSet) :
    render catalog (d.inLook colors chars) = Canvas.ofDiagnostic catalog d >>= fun c =>
      c.rows.map fun rows => String.ofList (rowsText chars colors c.gutter rows) := by
  rw [render, Canvas.ofDiagnostic_inLook]
  cases hcanvas : Canvas.ofDiagnostic catalog d with
  | error e => rfl
  | ok c =>
    have hrows := Canvas.rows_inLook d c.placement colors chars
    have hd := Canvas.diagnostic_eq hcanvas
    obtain ⟨diagnostic, placement⟩ := c
    cases hd
    simp only [Except.map, bind, Except.bind, hrows]
    cases (⟨diagnostic, placement⟩ : Canvas).rows with
    | error e => rfl
    | ok rows => rfl

end Callout
