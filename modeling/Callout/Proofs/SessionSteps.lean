import Callout.Proofs.RenderOutcome
import Callout.Session

namespace Callout

namespace Catalog

/-- The identifiers of a catalog. -/
def ids (c : Catalog) : List SourceId :=
  c.entries.map Prod.fst

theorem lookup_filter_ne {id other : SourceId} (h : other ≠ id) (entries : List (SourceId × Source)) :
    (entries.filter fun e => e.1 ≠ id).lookup other = entries.lookup other := by
  induction entries with
  | nil => rfl
  | cons e entries ih =>
    obtain ⟨key, source⟩ := e
    by_cases hkey : key = id
    · have hskip : (other == key) = false := by simpa [hkey] using h
      rw [List.filter_cons_of_neg (by simpa using hkey), ih, List.lookup_cons, hskip]
    · rw [List.filter_cons_of_pos (by simpa using hkey), List.lookup_cons, List.lookup_cons, ih]

theorem find?_insert (c : Catalog) (id : SourceId) (source : Source) :
    (c.insert id source).find? id = some source := by
  simp [insert, find?]

theorem find?_insert_ne (c : Catalog) {id other : SourceId} (source : Source) (h : other ≠ id) :
    (c.insert id source).find? other = c.find? other := by
  have hskip : (other == id) = false := by simpa using h
  rw [insert, find?, List.lookup_cons, hskip]
  exact lookup_filter_ne h c.entries

theorem insert_ids_nodup {c : Catalog} (h : c.ids.Nodup) (id : SourceId) (source : Source) :
    (c.insert id source).ids.Nodup := by
  have hids : (c.insert id source).ids = id :: (c.entries.filter fun e => e.1 ≠ id).map Prod.fst := rfl
  have hsublist : ((c.entries.filter fun e => e.1 ≠ id).map Prod.fst).Sublist c.ids :=
    List.filter_sublist.map Prod.fst
  rw [hids, List.nodup_cons]
  refine ⟨?_, hsublist.nodup h⟩
  intro hmem
  obtain ⟨e, he, heq⟩ := List.mem_map.mp hmem
  have hne := (List.mem_filter.mp he).2
  simp [heq] at hne

/-- A catalog with a source under one identifier, or with none. -/
def only (id : SourceId) (source? : Option Source) : Catalog :=
  ⟨(source?.map fun source => (id, source)).toList⟩

theorem find?_only (id : SourceId) (source? : Option Source) :
    (only id source?).find? id = source? := by
  cases source? with
  | none => rfl
  | some source => simp [only, find?]

end Catalog

/-- A report depends on what the catalog holds under the identifier of its diagnostic, and on nothing
else in it. -/
theorem render_congr {catalog catalog' : Catalog} {d : Diagnostic}
    (h : catalog.find? d.sourceId = catalog'.find? d.sourceId) :
    render catalog d = render catalog' d := by
  rw [render, render, Canvas.ofDiagnostic, Canvas.ofDiagnostic, Catalog.get, Catalog.get, h]

/-- Whether a request asks only for what is there. -/
def Request.isReading : Request → Bool
  | .add .. | .replace .. | .write _ => false
  | _ => true

namespace Session

variable {s : Session}

/-- What a request can do to a session: a known identifier is left alone, a new one is stored, a
replacement is stored, a report is appended to the output. Nothing else changes the session. -/
inductive Does (s : Session) : Request → Except Error Reply → Session → Prop
  | known {id : SourceId} {raw : RawText} {source : Source} (found : s.catalog.find? id = some source) :
    Does s (.add id raw) (.ok (.added true source)) s
  | added {id : SourceId} {raw : RawText} {source : Source} (missing : s.catalog.find? id = none)
    (analyzed : Source.analyze raw = .ok source) : Does s (.add id raw) (.ok (.added false source))
      { s with catalog := s.catalog.insert id source }
  | replaced {id : SourceId} {raw : RawText} {source : Source}
    (analyzed : Source.analyze raw = .ok source) : Does s (.replace id raw) (.ok .done)
      { s with catalog := s.catalog.insert id source }
  | wrote {d : Diagnostic} {text : String} (rendered : render s.catalog d = .ok text) :
    Does s (.write d) (.ok (.output (s.output ++ text))) { s with output := s.output ++ text }
  | read {r : Request} {reply : Reply} (reading : r.isReading = true) : Does s r (.ok reply) s
  | failed {r : Request} {e : Error} : Does s r (.error e) s

theorem step_add (s : Session) (id : SourceId) (raw : RawText) : s.step (.add id raw) =
    (((Catalog.add id raw).from s.catalog).1.map (.added (s.catalog.contains id)),
      { s with catalog := ((Catalog.add id raw).from s.catalog).2 }) := by
  have hcatalog : (onCatalog (Catalog.add id raw)).from s =
      (((Catalog.add id raw).from s.catalog).1,
        { s with catalog := ((Catalog.add id raw).from s.catalog).2 }) := rfl
  simp only [step, perform, Action.from_bind, Action.from_get, hcatalog]
  cases ((Catalog.add id raw).from s.catalog).1 <;> rfl

theorem step_add_known {id : SourceId} {source : Source} (raw : RawText)
    (h : s.catalog.find? id = some source) :
    s.step (.add id raw) = (.ok (.added true source), s) := by
  have hcontains : s.catalog.contains id = true := by rw [Catalog.contains, h, Option.isSome_some]
  rw [step_add, Catalog.add_known raw h, hcontains]
  rfl

theorem step_add_unknown {id : SourceId} (raw : RawText) (h : s.catalog.find? id = none) :
    s.step (.add id raw) =
      match Source.analyze raw with
      | .ok source => (.ok (.added false source), { s with catalog := s.catalog.insert id source })
      | .error e => (.error e, s) := by
  have hcontains : s.catalog.contains id = false := by rw [Catalog.contains, h, Option.isSome_none]
  rw [step_add, Catalog.add_unknown raw h, hcontains]
  cases Source.analyze raw <;> rfl

theorem step_replace (s : Session) (id : SourceId) (raw : RawText) : s.step (.replace id raw) =
    match Source.analyze raw with
    | .ok source => (.ok .done, { s with catalog := s.catalog.insert id source })
    | .error e => (.error e, s) := by
  simp only [step, perform, Action.from_bind, Action.from_ofExcept, Action.from_modify]
  cases Source.analyze raw <;> rfl

theorem step_write (s : Session) (d : Diagnostic) : s.step (.write d) =
    match render s.catalog d with
    | .ok text => (.ok (.output (s.output ++ text)), { s with output := s.output ++ text })
    | .error e => (.error e, s) := by
  simp only [step, perform, report, Action.from_bind, Action.from_get, Action.from_ofExcept,
    Action.from_modify, Action.from_pure]
  cases render s.catalog d <;> rfl

theorem step_get (s : Session) (id : SourceId) : s.step (.get id) =
    match s.catalog.find? id with
    | some source => (.ok (.source source), s)
    | none => (.error (.unknownSource id), s) := by
  simp only [step, perform, Action.from_bind, Action.from_get, Action.from_ofExcept, Catalog.get,
    Action.from_pure]
  cases s.catalog.find? id <;> rfl

theorem step_reading (s : Session) {r : Request} (h : r.isReading = true) : (s.step r).2 = s := by
  cases r with
  | add | replace | write => cases h
  | get id => rw [step_get]; split <;> rfl
  | contains id => rfl
  | size => rfl
  | render d =>
    simp only [step, perform, report, Action.from_bind, Action.from_get, Action.from_ofExcept]
    cases render s.catalog d <;> rfl
  | writeAside d =>
    simp only [step, perform, report, Action.from_bind, Action.from_get, Action.from_ofExcept]
    cases render s.catalog d <;> rfl
  | written => rfl
  | locus d =>
    simp only [step, perform, Action.from_bind, Action.from_get, Action.from_ofExcept]
    cases Canvas.ofDiagnostic s.catalog d with
    | error e => rfl
    | ok canvas =>
      dsimp only
      cases canvas.locus <;> rfl

theorem does_step (s : Session) (r : Request) : s.Does r (s.step r).1 (s.step r).2 := by
  cases hr : r.isReading with
  | true =>
    rw [step_reading s hr]
    cases (s.step r).1 with
    | ok reply => exact .read hr
    | error e => exact .failed
  | false =>
    cases r with
    | add id raw =>
      cases hfound : s.catalog.find? id with
      | some source =>
        rw [step_add_known raw hfound]
        exact .known hfound
      | none =>
        rw [step_add_unknown raw hfound]
        cases hsource : Source.analyze raw with
        | ok source => exact .added hfound hsource
        | error e => exact .failed
    | replace id raw =>
      rw [step_replace]
      cases hsource : Source.analyze raw with
      | ok source => exact .replaced hsource
      | error e => exact .failed
    | write d =>
      rw [step_write]
      cases htext : render s.catalog d with
      | ok text => exact .wrote htext
      | error e => exact .failed
    | _ => cases hr

end Session

end Callout
