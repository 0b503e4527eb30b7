import Callout.Proofs.SessionSteps

namespace Callout

/-- A request together with what it was answered. -/
structure Exchange where
  request : Request
  reply : Except Error Reply

namespace Exchange

/-- The text that came with a request to add an identifier, if the request succeeded. -/
def addition? (id : SourceId) : Exchange → Option RawText
  | ⟨.add key raw, .ok _⟩ => if key = id then some raw else none
  | _ => none

/-- The text that came with a request to replace an identifier, if the request succeeded. -/
def replacement? (id : SourceId) : Exchange → Option RawText
  | ⟨.replace key raw, .ok _⟩ => if key = id then some raw else none
  | _ => none

/-- The diagnostic of a request to write, if the request succeeded. -/
def written? : Exchange → Option Diagnostic
  | ⟨.write d, .ok _⟩ => some d
  | _ => none

end Exchange

/-- The text that an identifier stands for: that of its last replacement, or, when nothing replaced
it, that of its first addition. -/
def textOf (log : List Exchange) (id : SourceId) : Option RawText :=
  (log.reverse.findSome? (Exchange.replacement? id)).or (log.findSome? (Exchange.addition? id))

/-- The analysis of the text that an identifier stands for. -/
def sourceOf (log : List Exchange) (id : SourceId) : Option Source :=
  (textOf log id).bind fun raw => (Source.analyze raw).toOption

/-- The diagnostics that were written, each with all exchanges before it. -/
def writes (before : List Exchange) : List Exchange → List (List Exchange × Diagnostic)
  | [] => []
  | x :: rest => (x.written?.map fun d => (before, d)).toList ++ writes (before ++ [x]) rest

theorem textOf_concat (log : List Exchange) (x : Exchange) (id : SourceId) :
    textOf (log ++ [x]) id = (x.replacement? id).or ((textOf log id).or (x.addition? id)) := by
  have hlast : ((log ++ [x]).reverse.findSome? (Exchange.replacement? id)) =
      (x.replacement? id).or (log.reverse.findSome? (Exchange.replacement? id)) := by
    rw [List.reverse_append, List.findSome?_append]
    simp
  rw [textOf, hlast, List.findSome?_append, textOf, Option.or_assoc, Option.or_assoc]
  simp

theorem writes_concat (before log : List Exchange) (x : Exchange) : writes before (log ++ [x]) =
    writes before log ++ (x.written?.map fun d => (before ++ log, d)).toList := by
  induction log generalizing before with
  | nil => simp [writes]
  | cons y log ih =>
    rw [List.cons_append, writes, writes, ih, List.append_assoc, List.append_assoc]
    rfl

/-- Whether a report is that of a diagnostic, on the source that its identifier stood for. -/
def IsReportOf (w : List Exchange × Diagnostic) (report : String) : Prop :=
  render (.only w.2.sourceId (sourceOf w.1 w.2.sourceId)) w.2 = .ok report

theorem join_concat (texts : List String) (text : String) :
    String.join (texts ++ [text]) = String.join texts ++ text := by
  simp only [String.join, List.foldl_append, List.foldl_cons, List.foldl_nil]

namespace Session

variable {s t : Session} {log : List Exchange} {x : Exchange}

/-- A session after some requests. -/
def after (s : Session) (requests : List Request) : Session :=
  requests.foldl (fun s r => (s.step r).2) s

/-- What a session is asked, with what it answers. -/
def exchanges (s : Session) : List Request → List Exchange
  | [] => []
  | r :: rest => ⟨r, (s.step r).1⟩ :: (s.step r).2.exchanges rest

/-- A session that holds what its exchanges tell. -/
structure Follows (s : Session) (log : List Exchange) : Prop where
  stored : ∀ id, Option.Rel (fun raw source => Source.analyze raw = .ok source)
    (textOf log id) (s.catalog.find? id)
  ids_nodup : s.catalog.ids.Nodup
  written : ∃ reports, List.Forall₂ IsReportOf (writes [] log) reports ∧
    s.output = String.join reports

theorem Follows.sourceOf_eq (h : s.Follows log) (id : SourceId) :
    sourceOf log id = s.catalog.find? id := by
  have hrel := h.stored id
  rw [sourceOf]
  generalize textOf log id = raw? at hrel
  generalize s.catalog.find? id = source? at hrel
  cases hrel with
  | none => rfl
  | some hsource => rw [Option.bind_some, hsource]; rfl

theorem Follows.isSome_eq (h : s.Follows log) (id : SourceId) :
    (textOf log id).isSome = (s.catalog.find? id).isSome := by
  have hrel := h.stored id
  generalize textOf log id = raw? at hrel
  generalize s.catalog.find? id = source? at hrel
  cases hrel with
  | none => rfl
  | some _ => rfl

theorem writes_of_not_written (hwritten : x.written? = none) (log : List Exchange) :
    writes [] (log ++ [x]) = writes [] log := by
  rw [writes_concat, hwritten, Option.map_none, Option.toList_none, List.append_nil]

/-- An exchange that stores nothing new and writes nothing. -/
theorem Follows.quiet (h : s.Follows log) (hreplaces : ∀ id, x.replacement? id = none)
    (hadds : ∀ id, x.addition? id = none ∨ (s.catalog.find? id).isSome = true)
    (hwritten : x.written? = none) : s.Follows (log ++ [x]) := by
  refine ⟨?_, h.ids_nodup, ?_⟩
  · intro id
    have htext : textOf (log ++ [x]) id = textOf log id := by
      rw [textOf_concat, hreplaces, Option.none_or]
      rcases hadds id with hnone | hsome
      · rw [hnone, Option.or_none]
      · rw [← h.isSome_eq] at hsome
        obtain ⟨raw, hraw⟩ := Option.isSome_iff_exists.mp hsome
        rw [hraw, Option.some_or]
    rw [htext]
    exact h.stored id
  · rw [writes_of_not_written hwritten]
    exact h.written

/-- An exchange that stores the analysis of a text. -/
theorem Follows.store (h : s.Follows log) {id : SourceId} {raw : RawText} {source : Source}
    (hsource : Source.analyze raw = .ok source) (htext : textOf (log ++ [x]) id = some raw)
    (hothers : ∀ other, other ≠ id → textOf (log ++ [x]) other = textOf log other)
    (hwritten : x.written? = none) :
    Follows { s with catalog := s.catalog.insert id source } (log ++ [x]) := by
  refine ⟨?_, Catalog.insert_ids_nodup h.ids_nodup id source, ?_⟩
  · intro other
    by_cases hother : other = id
    · subst hother
      rw [htext, Catalog.find?_insert]
      exact .some hsource
    · rw [hothers other hother, Catalog.find?_insert_ne s.catalog source hother]
      exact h.stored other
  · rw [writes_of_not_written hwritten]
    exact h.written

/-- What one request does is told by its exchange. -/
theorem Follows.does (h : s.Follows log) {r : Request} {reply : Except Error Reply}
    (hdoes : s.Does r reply t) : t.Follows (log ++ [⟨r, reply⟩]) := by
  cases hdoes with
  | @known key raw source found =>
    apply h.quiet
    · exact fun _ => rfl
    · intro id
      by_cases hkey : key = id
      · subst hkey
        exact .inr (by rw [found]; rfl)
      · exact .inl (if_neg hkey)
    · rfl
  | @added key raw source missing analyzed =>
    have hnone : textOf log key = none := by
      have hsome := h.isSome_eq key
      rw [missing, Option.isSome_none] at hsome
      exact Option.not_isSome_iff_eq_none.mp (by simp [hsome])
    apply h.store analyzed
    · rw [textOf_concat, hnone]
      simp [Exchange.replacement?, Exchange.addition?]
    · intro other hother
      rw [textOf_concat]
      simp [Exchange.replacement?, Exchange.addition?, Ne.symm hother]
    · rfl
  | @replaced key raw source analyzed =>
    apply h.store analyzed
    · rw [textOf_concat]
      simp [Exchange.replacement?]
    · intro other hother
      rw [textOf_concat]
      simp [Exchange.replacement?, Exchange.addition?, Ne.symm hother]
    · rfl
  | @wrote d text rendered =>
    have htext : ∀ id, textOf (log ++ [⟨.write d, .ok (.output (s.output ++ text))⟩]) id =
        textOf log id := by
      intro id
      rw [textOf_concat]
      simp [Exchange.replacement?, Exchange.addition?]
    obtain ⟨reports, hreports, houtput⟩ := h.written
    refine ⟨fun id => by rw [htext]; exact h.stored id, h.ids_nodup, reports ++ [text], ?_, ?_⟩
    · have hreport : IsReportOf (log, d) text := by
        rw [IsReportOf, ← rendered, h.sourceOf_eq]
        exact render_congr (Catalog.find?_only _ _)
      rw [writes_concat]
      exact List.rel_append hreports (.cons hreport .nil)
    · rw [join_concat, ← houtput]
  | @read r reply reading =>
    apply h.quiet
    · intro id
      cases r <;> first | rfl | cases reading
    · intro id
      left
      cases r <;> first | rfl | cases reading
    · cases r <;> first | rfl | cases reading
  | @failed r e =>
    apply h.quiet
    · intro id
      cases r <;> rfl
    · intro id
      left
      cases r <;> rfl
    · cases r <;> rfl

/-- What all requests do is told by their exchanges. -/
theorem Follows.after (h : s.Follows log) (requests : List Request) :
    (s.after requests).Follows (log ++ s.exchanges requests) := by
  induction requests generalizing s log with
  | nil =>
    have hlog : log ++ s.exchanges [] = log := List.append_nil log
    rw [hlog]
    exact h
  | cons r requests ih =>
    have hnext := ih (h.does (s.does_step r))
    rwa [List.append_assoc] at hnext

end Session

end Callout
