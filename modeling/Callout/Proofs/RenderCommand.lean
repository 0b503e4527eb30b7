import Callout.Command.Run
import Callout.Proofs.SessionSteps

namespace Callout

namespace Text

theorem SequenceReader.run_append_plain {plain : List Char} (h : '\x1b' ∉ plain) (rest : List Char) :
    run {} (plain ++ rest) = plain ++ run {} rest := by
  induction plain with
  | nil => rfl
  | cons c plain ih =>
    obtain ⟨hc, hplain⟩ := not_or.mp (mt List.mem_cons.mpr h)
    rw [List.cons_append, run, step_outside (Ne.symm hc), ih hplain]
    rfl

/-- A line feed goes on with no sequence and completes none. -/
theorem SequenceReader.run_concat_lineFeed (r : SequenceReader) (text : List Char) :
    r.run (text ++ ['\n']) = r.run text ++ ['\n'] := by
  induction text generalizing r with
  | nil =>
    obtain ⟨phase, held⟩ := r
    have hstep : step ⟨phase, held⟩ '\n' = (held.reverse ++ ['\n'], {}) := by
      cases phase <;> rfl
    change (step ⟨phase, held⟩ '\n').1 ++ (step ⟨phase, held⟩ '\n').2.run [] = _
    rw [hstep]
    exact List.append_nil _
  | cons c text ih => rw [List.cons_append, run, run, ih, List.append_assoc]

end Text

namespace Command

theorem errorLine_eq (message : String) :
    errorLine message = "error: " ++ Text.dropSequences message ++ "\n" := by
  have htext : s!"error: {message}\n".toList = "error: ".toList ++ (message.toList ++ ['\n']) := by
    change ("error: " ++ message ++ "\n").toList = _
    rw [String.toList_append, String.toList_append, List.append_assoc]
    rfl
  apply String.toList_injective
  rw [errorLine, Text.dropSequences, htext, String.toList_ofList,
    Text.SequenceReader.run_append_plain (by decide), Text.SequenceReader.run_concat_lineFeed]
  simp [String.toList_append, Text.dropSequences]

theorem logText_quiet {verbosity : Nat} (h : verbosity < 2) (events : List Event) :
    logText verbosity events = "" :=
  if_neg (Nat.not_le.mpr h)

/-- The values of the label switches, in the order in which the switches stand. -/
def labelValues (found : List RenderSwitch) : List (List String) :=
  found.filterMap fun | .label values => some values | _ => none

/-- Whether the bounds of a label are in order and not negative. -/
def LabelRequest.IsSpan (a : LabelRequest) : Prop :=
  0 ≤ a.start ∧ a.start ≤ a.stop

/-- The label of a request at a place, in the color of the place: six colors in turn. -/
structure LabelRequest.Makes (a : LabelRequest) (i : Nat) (l : Label) : Prop where
  start_eq : (l.span.start : Int) = a.start
  stop_eq : (l.span.stop : Int) = a.stop
  message_eq : l.message = a.message
  color_eq : palette[i % 6]? = some l.color

/-- The diagnostic of a request under some settings. Its labels stand in the order of the request. -/
structure RenderRequest.Makes (r : RenderRequest) (settings : Settings) (d : Diagnostic) : Prop where
  labels : List.Forall₂ (fun a l => LabelRequest.Makes a.1 a.2 l) r.labels.zipIdx d.labels
  sourceId_eq : d.sourceId = .name (normalPath r.file)
  severity_eq : d.severity = r.severity
  code_eq : d.code = r.code
  message_eq : d.message = r.message
  notes_eq : d.notes = r.notes
  config_eq : d.config = r.overrides.apply settings.config

theorem palette_color (i : Nat) (color : Color) :
    palette[i % 6]? = some color ↔ palette.getD (i % palette.length) .default = color := by
  have hlt : i % 6 < palette.length := Nat.mod_lt i (by decide)
  have hlength : palette.length = 6 := rfl
  rw [hlength, List.getD_eq_getElem?_getD, List.getElem?_eq_getElem hlt, Option.getD_some,
    Option.some_inj]

theorem label_eq_ok_iff {a : LabelRequest} {i : Nat} {l : Label} :
    (Span.ofBounds a.start a.stop >>= fun span =>
      pure (⟨span, a.message, palette.getD (i % palette.length) .default⟩ : Label)) = .ok l ↔
      a.Makes i l := by
  rw [bind_eq_ok_iff]
  constructor
  · rintro ⟨span, hspan, h⟩
    obtain ⟨hstart, hstop⟩ := Span.ofBounds_eq_ok_iff.mp hspan
    cases h
    exact ⟨hstart, hstop, rfl, (palette_color i _).mpr rfl⟩
  · rintro ⟨hstart, hstop, hmessage, hcolor⟩
    refine ⟨l.span, Span.ofBounds_eq_ok_iff.mpr ⟨hstart, hstop⟩, ?_⟩
    rw [(palette_color i l.color).mp hcolor, ← hmessage]
    rfl

theorem paletteLabels_eq_ok_iff {requests : List LabelRequest} {labels : List Label} :
    paletteLabels requests = .ok labels ↔
      List.Forall₂ (fun a l => LabelRequest.Makes a.1 a.2 l) requests.zipIdx labels := by
  rw [paletteLabels, mapM_eq_ok_iff]
  constructor
  · exact fun h => h.imp fun _ _ hl => label_eq_ok_iff.mp hl
  · exact fun h => h.imp fun _ _ hl => label_eq_ok_iff.mpr hl

theorem label_eq_error_iff {a : LabelRequest} {color : Color} {e : Error} :
    (Span.ofBounds a.start a.stop >>= fun span => pure (⟨span, a.message, color⟩ : Label)) = .error e ↔
      ¬a.IsSpan ∧ e = .invalidSpan a.start a.stop := by
  rw [bind_eq_error_iff, Span.ofBounds_eq_error_iff]
  constructor
  · rintro (h | ⟨_, _, h⟩)
    · exact h
    · cases h
  · exact .inl

theorem exists_label_iff {a : LabelRequest} {color : Color} :
    (∃ l, (Span.ofBounds a.start a.stop >>= fun span => pure (⟨span, a.message, color⟩ : Label)) =
      .ok l) ↔ a.IsSpan := by
  constructor
  · rintro ⟨l, h⟩
    by_contra hnot
    rw [label_eq_error_iff.mpr ⟨hnot, rfl⟩] at h
    cases h
  · intro h
    cases hl : Span.ofBounds a.start a.stop >>= fun span => pure (⟨span, a.message, color⟩ : Label) with
    | error e => exact absurd h (label_eq_error_iff.mp hl).1
    | ok l => exact ⟨l, rfl⟩

/-- The first label of a request whose bounds make no span is the one that is told of. -/
theorem paletteLabels_eq_error_iff {requests : List LabelRequest} {e : Error} :
    paletteLabels requests = .error e ↔ ∃ before a after, requests = before ++ a :: after ∧
      (∀ b ∈ before, b.IsSpan) ∧ ¬a.IsSpan ∧ e = .invalidSpan a.start a.stop := by
  rw [paletteLabels, mapM_eq_error_iff]
  constructor
  · rintro ⟨before, ⟨a, i⟩, after, hsplit, hbefore, ha⟩
    have hrequests := congrArg (List.map Prod.fst) hsplit
    rw [List.zipIdx_map_fst, List.map_append, List.map_cons] at hrequests
    refine ⟨_, a, _, hrequests, fun b hb => ?_, label_eq_error_iff.mp ha⟩
    obtain ⟨⟨_, j⟩, hmem, rfl⟩ := List.mem_map.mp hb
    exact exists_label_iff.mp (hbefore _ hmem)
  · rintro ⟨before, a, after, rfl, hbefore, ha⟩
    refine ⟨before.zipIdx, (a, before.length), after.zipIdx (before.length + 1), ?_, ?_,
      label_eq_error_iff.mpr ha⟩
    · rw [List.zipIdx_append, List.zipIdx_cons, Nat.zero_add]
    · rintro ⟨b, j⟩ hb
      exact exists_label_iff.mpr (hbefore b (List.fst_mem_of_mem_zipIdx hb))

section Steps

variable {files : Files} {request : RenderRequest} {settings : Settings} {bytes : List UInt8}
  {verbosity : Nat} {wording : String}

theorem diagnosticOf_eq_ok_iff {d : Diagnostic} :
    diagnosticOf request (request.overrides.apply settings.config) = .ok d ↔
      request.Makes settings d := by
  rw [diagnosticOf, bind_eq_ok_iff]
  constructor
  · rintro ⟨labels, hlabels, h⟩
    cases h
    exact ⟨paletteLabels_eq_ok_iff.mp hlabels, rfl, rfl, rfl, rfl, rfl, rfl⟩
  · obtain ⟨sourceId, severity, message, code, labels, notes, config⟩ := d
    rintro ⟨hlabels, rfl, rfl, rfl, rfl, rfl, rfl⟩
    exact ⟨labels, paletteLabels_eq_ok_iff.mpr hlabels, rfl⟩

theorem diagnosticOf_eq_error_iff {config : Config} {e : Error} :
    diagnosticOf request config = .error e ↔ ∃ before a after,
      request.labels = before ++ a :: after ∧ (∀ b ∈ before, b.IsSpan) ∧ ¬a.IsSpan ∧
        e = .invalidSpan a.start a.stop := by
  rw [diagnosticOf, bind_eq_error_iff, paletteLabels_eq_error_iff]
  constructor
  · rintro (h | ⟨_, _, h⟩)
    · exact h
    · cases h
  · exact .inl

/-- What the library answers to a request: its file is analyzed, its diagnostic is made and rendered. -/
def answer (request : RenderRequest) (config : Config) (bytes : List UInt8) : Except Error String := do
  let source ← Source.analyze (.bytes bytes)
  let d ← diagnosticOf request config
  render (Catalog.only d.sourceId (some source)) d

/-- The command writes what the library answers. -/
theorem renderBytes_eq (hquiet : verbosity < 2) (config : Config) :
    renderBytes verbosity request config bytes =
      match answer request config bytes with
      | .ok text => .finished 0 (reportText config text) ""
      | .error e => .finished 1 "" (errorLine e.message) := by
  have hempty : ∀ id, Catalog.find? {} id = none := fun _ => rfl
  rw [renderBytes, answer, Catalog.add_unknown _ (hempty _)]
  simp only [logText_quiet hquiet, String.empty_append]
  cases Source.analyze (.bytes bytes) with
  | error e => rfl
  | ok source =>
    cases hd : diagnosticOf request config with
    | error e => simp only [bind, Except.bind]
    | ok d =>
      have hid : d.sourceId = .name (normalPath request.file) := by
        obtain ⟨_, _, hd⟩ := bind_eq_ok_iff.mp hd
        cases hd
        rfl
      have hrender : render (Catalog.insert {} (.name (normalPath request.file)) source) d =
          render (Catalog.only d.sourceId (some source)) d := by
        apply render_congr
        rw [hid, Catalog.find?_insert, Catalog.find?_only]
      simp only [bind, Except.bind, hrender]
      cases render (Catalog.only d.sourceId (some source)) d <;> rfl

theorem runRender_of_loaded (hquiet : verbosity < 2) (loaded : settingsOf files request = .ok settings) :
    runRender files verbosity request bytes wording =
      match answer request (request.overrides.apply settings.config) bytes with
      | .ok text => .finished 0 (reportText (request.overrides.apply settings.config) text) ""
      | .error e => .finished 1 "" (errorLine e.message) := by
  rw [runRender, loaded]
  exact renderBytes_eq hquiet _

theorem answer_of_decoded {content : List Char} (config : Config)
    (decoded : Utf8.decode bytes = .ok content) : answer request config bytes =
      diagnosticOf request config >>= fun d =>
        render (Catalog.only d.sourceId (some (.ofText content))) d := by
  rw [answer, Source.analyze, RawText.characters, decoded]
  rfl

theorem answer_of_not_decoded {fault : Utf8.Fault} (config : Config)
    (failed : Utf8.decode bytes = .error fault) :
    answer request config bytes = .error (.invalidEncoding (.bytes fault)) := by
  rw [answer, Source.analyze, RawText.characters, failed]
  rfl

/-- A request is rendered: its settings are loaded, its file is a text, its labels have spans, and the
library has a report for the diagnostic that it makes. -/
inductive Renders (files : Files) (request : RenderRequest) (bytes : List UInt8) :
    Diagnostic → String → Prop where
  | intro {settings : Settings} {content : List Char} {d : Diagnostic} {text : String}
    (loaded : settingsOf files request = .ok settings)
    (decoded : Utf8.decode bytes = .ok content)
    (made : request.Makes settings d)
    (rendered : render (Catalog.only d.sourceId (some (.ofText content))) d = .ok text) :
    Renders files request bytes d text

/-- A request is refused, by the first step that fails, with the message of its cause. -/
inductive Fails (files : Files) (request : RenderRequest) (bytes : List UInt8) (wording : String) :
    String → Prop where
  | settings {fault : SettingsFault} (failed : settingsOf files request = .error fault)
    (reported : fault.isReported = true) : Fails files request bytes wording (fault.message wording)
  | encoding {settings : Settings} {fault : Utf8.Fault}
    (loaded : settingsOf files request = .ok settings)
    (failed : Utf8.decode bytes = .error fault) :
    Fails files request bytes wording (Error.invalidEncoding (.bytes fault)).message
  | span {settings : Settings} {content : List Char} {before after : List LabelRequest}
    {a : LabelRequest} (loaded : settingsOf files request = .ok settings)
    (decoded : Utf8.decode bytes = .ok content) (labels : request.labels = before ++ a :: after)
    (spans : ∀ b ∈ before, b.IsSpan) (failed : ¬a.IsSpan) :
    Fails files request bytes wording (Error.invalidSpan a.start a.stop).message
  | report {settings : Settings} {content : List Char} {d : Diagnostic} {e : Error}
    (loaded : settingsOf files request = .ok settings)
    (decoded : Utf8.decode bytes = .ok content) (made : request.Makes settings d)
    (failed : render (Catalog.only d.sourceId (some (.ofText content))) d = .error e) :
    Fails files request bytes wording e.message

theorem runRender_of_renders {d : Diagnostic} {text : String} (hquiet : verbosity < 2)
    (h : Renders files request bytes d text) :
    runRender files verbosity request bytes wording = .finished 0 (reportText d.config text) "" := by
  obtain ⟨loaded, decoded, made, rendered⟩ := h
  rw [runRender_of_loaded hquiet loaded, answer_of_decoded _ decoded, diagnosticOf_eq_ok_iff.mpr made]
  simp only [bind, Except.bind, rendered, made.config_eq]

theorem runRender_of_fails {message : String} (hquiet : verbosity < 2)
    (h : Fails files request bytes wording message) :
    runRender files verbosity request bytes wording = .finished 1 "" (errorLine message) := by
  cases h with
  | settings failed reported =>
    rw [runRender, failed]
    exact if_pos reported
  | encoding loaded failed => rw [runRender_of_loaded hquiet loaded, answer_of_not_decoded _ failed]
  | span loaded decoded labels spans failed =>
    rw [runRender_of_loaded hquiet loaded, answer_of_decoded _ decoded,
      diagnosticOf_eq_error_iff.mpr ⟨_, _, _, labels, spans, failed, rfl⟩]
    rfl
  | report loaded decoded made failed =>
    rw [runRender_of_loaded hquiet loaded, answer_of_decoded _ decoded,
      diagnosticOf_eq_ok_iff.mpr made]
    simp only [bind, Except.bind, failed]

/-- Every request is rendered or refused, unless its settings stop the program. -/
theorem request_cases (files : Files) (request : RenderRequest) (bytes : List UInt8) (wording : String) :
    (∃ d text, Renders files request bytes d text) ∨
      (∃ message, Fails files request bytes wording message) ∨
      ∃ fault, settingsOf files request = .error fault ∧ fault.isReported = false := by
  cases loaded : settingsOf files request with
  | error fault =>
    cases hreported : fault.isReported with
    | true => exact .inr (.inl ⟨_, .settings loaded hreported⟩)
    | false => exact .inr (.inr ⟨fault, rfl, hreported⟩)
  | ok settings =>
    cases decoded : Utf8.decode bytes with
    | error fault => exact .inr (.inl ⟨_, .encoding loaded decoded⟩)
    | ok content =>
      cases made : diagnosticOf request (request.overrides.apply settings.config) with
      | error e =>
        obtain ⟨before, a, after, labels, spans, failed, rfl⟩ := diagnosticOf_eq_error_iff.mp made
        exact .inr (.inl ⟨_, .span loaded decoded labels spans failed⟩)
      | ok d =>
        have made := diagnosticOf_eq_ok_iff.mp made
        cases rendered : render (Catalog.only d.sourceId (some (.ofText content))) d with
        | error e => exact .inr (.inl ⟨_, .report loaded decoded made rendered⟩)
        | ok text => exact .inl ⟨d, text, .intro loaded decoded made rendered⟩

end Steps

/-- What the switches and the operands of a command line ask for. -/
structure RenderRequest.IsAsked (request : RenderRequest) (files : Files) (found : List RenderSwitch)
    (operands : List String) (bytes : List UInt8) : Prop where
  request_eq : renderRequest? found request.file = some request
  labels : List.Forall₂ (fun values a => labelRequest? values = some a) (labelValues found) request.labels
  operands_eq : operands = [request.file]
  bytes_eq : files.read? request.file = some bytes

section Run

variable {files : Files} {words : List String} {verbosity : Nat} {found : List RenderSwitch}
  {operands : List String} {request : RenderRequest} {bytes : List UInt8} {wording : String}

theorem forall₂_of_mapM_eq_some {α β : Type} {f : α → Option β} {xs : List α} {ys : List β}
    (h : xs.mapM f = some ys) : List.Forall₂ (fun x y => f x = some y) xs ys := by
  induction xs generalizing ys with
  | nil =>
    cases h
    exact .nil
  | cons x xs ih =>
    rw [List.mapM_cons] at h
    obtain ⟨first, hfirst, h⟩ := Option.bind_eq_some_iff.mp h
    obtain ⟨rest, hrest, h⟩ := Option.bind_eq_some_iff.mp h
    cases h
    exact .cons hfirst (ih hrest)

theorem renderRequest?_eq_some {file : String} (h : renderRequest? found file = some request) :
    request.file = file ∧ labelRequests? found = some request.labels := by
  obtain ⟨labels, hlabels, h⟩ := Option.bind_eq_some_iff.mp h
  obtain ⟨notes, _, h⟩ := Option.bind_eq_some_iff.mp h
  obtain ⟨severity, _, h⟩ := Option.bind_eq_some_iff.mp h
  obtain ⟨charSet, _, h⟩ := Option.bind_eq_some_iff.mp h
  obtain ⟨attach, _, h⟩ := Option.bind_eq_some_iff.mp h
  cases h
  exact ⟨rfl, hlabels⟩

theorem requireFile_eq_ok_iff {path : String} :
    requireFile files path = .ok bytes ↔ '\x00' ∉ path.toList ∧ files.read? path = some bytes := by
  unfold requireFile
  split
  next hnul => exact ⟨nofun, fun h => absurd hnul h.1⟩
  next hnul =>
    split
    next found hfound => simp [hnul, hfound]
    next hfound => simp [hfound]

/-- A command line that is carried out names one file, which is there, and its switches make one request. -/
theorem prepareRender_eq_ok (h : prepareRender files found operands = .ok (request, bytes)) :
    operands = [request.file] ∧ requireFile files request.file = .ok bytes ∧
      renderRequest? found request.file = some request := by
  obtain ⟨_, _, h⟩ := bind_eq_ok_iff.mp h
  cases operands with
  | nil => cases h
  | cons file others =>
    obtain ⟨read, hread, h⟩ := bind_eq_ok_iff.mp h
    cases others with
    | cons other others => cases h
    | nil =>
      obtain ⟨made, hmade, h⟩ := bind_eq_ok_iff.mp h
      cases h
      have hrequest : renderRequest? found file = some request := by
        unfold require at hmade
        split at hmade
        next value hvalue =>
          cases hmade
          exact hvalue
        next => cases hmade
      obtain ⟨rfl, _⟩ := renderRequest?_eq_some hrequest
      exact ⟨rfl, hread, hrequest⟩

theorem isAsked_of_prepareRender (h : prepareRender files found operands = .ok (request, bytes)) :
    request.IsAsked files found operands bytes := by
  obtain ⟨hoperands, hread, hrequest⟩ := prepareRender_eq_ok h
  obtain ⟨_, hlabels⟩ := renderRequest?_eq_some hrequest
  exact ⟨hrequest, forall₂_of_mapM_eq_some hlabels, hoperands, (requireFile_eq_ok_iff.mp hread).2⟩

theorem run_eq_runRender (hwords : invocation? words = some (verbosity, .render found operands))
    (hrequest : prepareRender files found operands = .ok (request, bytes)) :
    run files words wording = runRender files verbosity request bytes wording := by
  rw [run, hwords]
  simp only [runInvocation, hrequest, bind, Except.bind, pure, Except.pure]

/-- A command line that asks for a report gets the one that the library has for its diagnostic, and
nothing else is written; or it is told the cause of the first step that fails, and nothing else. Its labels
take their colors in the order in which they are asked for. In what words a settings file is told to be no
TOML document is left open. -/
theorem render_command (hwords : invocation? words = some (verbosity, .render found operands))
    (hquiet : verbosity < 2)
    (hrequest : prepareRender files found operands = .ok (request, bytes)) :
    request.IsAsked files found operands bytes ∧
    (∀ d text, Renders files request bytes d text →
      run files words wording = .finished 0 (if d.config.colors then text else Text.dropSequences text) "") ∧
    (∀ message, Fails files request bytes wording message →
      run files words wording = .finished 1 "" ("error: " ++ Text.dropSequences message ++ "\n")) ∧
    ((∃ d text, Renders files request bytes d text) ∨
      (∃ message, Fails files request bytes wording message) ∨
      ∃ fault, settingsOf files request = .error fault ∧ fault.isReported = false ∧
        run files words wording = .stopped fault "") := by
  rw [run_eq_runRender hwords hrequest]
  refine ⟨isAsked_of_prepareRender hrequest, fun d text h => runRender_of_renders hquiet h,
    fun message h => ?_, ?_⟩
  · rw [runRender_of_fails hquiet h, errorLine_eq]
  · rcases request_cases files request bytes wording with h | h | ⟨fault, failed, hreported⟩
    · exact .inl h
    · exact .inr (.inl h)
    · refine .inr (.inr ⟨fault, failed, hreported, ?_⟩)
      rw [runRender, failed]
      exact if_neg (by simp [hreported])

end Run

/-- One file, with two lines of letters. -/
def letterFiles : Files :=
  ⟨.directory [("a.txt", .file [97, 98, 10, 99])], []⟩

/-- A command line that asks for a label before one that starts earlier. -/
def lateFirst : List String :=
  ["render", "a.txt", "-l", "1", "2", "late", "-l", "0", "1", "early"]

def lateFirstRequest : RenderRequest where
  file := "a.txt"
  labels := [⟨1, 2, "late"⟩, ⟨0, 1, "early"⟩]
  severity := .error
  code := none
  message := ""
  notes := []
  overrides := {}
  config := none

def lateFirstDiagnostic : Diagnostic where
  sourceId := .name "a.txt"
  severity := .error
  message := ""
  labels := [⟨.between 1 2, "late", .basic .brightBlue⟩, ⟨.between 0 1, "early", .basic .magenta⟩]

theorem lateFirst_rendered : ∃ text,
    Renders letterFiles lateFirstRequest [97, 98, 10, 99] lateFirstDiagnostic text ∧
      run letterFiles lateFirst = .finished 0 text "" := by
  have hmade : lateFirstRequest.Makes {} lateFirstDiagnostic :=
    ⟨.cons ⟨rfl, rfl, rfl, rfl⟩ (.cons ⟨rfl, rfl, rfl, rfl⟩ .nil), rfl, rfl, rfl, rfl, rfl, rfl⟩
  have hfit : lateFirstDiagnostic.FitsIn (.ofText ['a', 'b', '\n', 'c']) := by decide
  obtain ⟨text, _, htext, _⟩ := exists_render_of_fitsIn (d := lateFirstDiagnostic) (by decide)
    (Catalog.find?_only (.name "a.txt") (some (.ofText ['a', 'b', '\n', 'c']))) hfit
  have hrenders : Renders letterFiles lateFirstRequest [97, 98, 10, 99] lateFirstDiagnostic text :=
    .intro rfl rfl hmade htext
  have hwords : invocation? lateFirst =
    some (0, .render [.label ["1", "2", "late"], .label ["0", "1", "early"]] ["a.txt"]) := rfl
  obtain ⟨_, hdone, _⟩ := render_command hwords (by decide)
    (show prepareRender letterFiles _ _ = .ok (lateFirstRequest, [97, 98, 10, 99]) from rfl)
  exact ⟨text, hrenders, hdone _ _ hrenders⟩

end Command

end Callout
