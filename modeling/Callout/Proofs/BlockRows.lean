import Callout.Proofs.DrawnBlock

namespace Callout

namespace Role

/-- The label whose message a row is for. -/
def label? : Role → Option Nat
  | message _ label | closing _ label => some label
  | _ => none

/-- The line whose block a row is part of. -/
def line? : Role → Option Nat
  | code line | underlines line | message line _ | spacer line | closing line _ => some line
  | _ => none

end Role

theorem zipIdxLE_key_iff {α : Type} (key : α → Nat) {a b : α} {i j : Nat} :
    List.zipIdxLE (fun a b => decide (key a ≤ key b)) (a, i) (b, j) = true ↔
      key a < key b ∨ key a = key b ∧ i ≤ j := by
  simp only [List.zipIdxLE, decide_eq_true_eq]
  split
  next hle =>
    split
    next hge =>
      rw [decide_eq_true_eq]
      omega
    next hlt => exact iff_of_true rfl (.inl (by omega))
  next hgt => exact iff_of_false (by simp) (by omega)

/-- Sorting by a key leaves members of equal keys in the order in which they stood. -/
theorem mergeSort_stable {α : Type} (key : α → Nat) {S : α → α → Prop} {xs : List α}
    (h : xs.Pairwise S) : (xs.mergeSort fun a b => key a ≤ key b).Pairwise fun a b =>
      key a < key b ∨ key a = key b ∧ S a b := by
  let le : α → α → Bool := fun a b => key a ≤ key b
  have htrans : ∀ a b c, le a b = true → le b c = true → le a c = true := by
    intro a b c hab hbc
    simp only [le, decide_eq_true_eq] at hab hbc ⊢
    omega
  have htotal : ∀ a b, (le a b || le b a) = true := by
    intro a b
    simp only [le, Bool.or_eq_true, decide_eq_true_eq]
    omega
  have hsorted : (xs.zipIdx.mergeSort (List.zipIdxLE le)).Pairwise
      fun a b => List.zipIdxLE le a b = true :=
    List.pairwise_mergeSort (List.zipIdxLE_trans htrans) (List.zipIdxLE_total htotal) _
  have hnodup : (xs.zipIdx.mergeSort (List.zipIdxLE le)).Nodup := by
    rw [(List.mergeSort_perm _ _).nodup_iff]
    exact (Placement.zipIdx_increasing xs).imp fun hlt he => by
      subst he
      exact Nat.lt_irrefl _ hlt
  change (xs.mergeSort le).Pairwise _
  rw [← List.mergeSort_zipIdx, List.pairwise_map]
  refine (hsorted.and hnodup).imp_of_mem ?_
  rintro ⟨a, i⟩ ⟨b, j⟩ ha hb ⟨hle, hne⟩
  have ha : xs[i]? = some a := List.mem_zipIdx_iff_getElem?.mp (List.mem_mergeSort.mp ha)
  have hb : xs[j]? = some b := List.mem_zipIdx_iff_getElem?.mp (List.mem_mergeSort.mp hb)
  rcases (zipIdxLE_key_iff key).mp hle with hlt | ⟨heq, hij⟩
  · exact .inl hlt
  · have hij : i < j := by
      rcases Nat.lt_or_eq_of_le hij with hlt | rfl
      · exact hlt
      · cases ha.symm.trans hb
        exact absurd rfl hne
    obtain ⟨hi, rfl⟩ := List.getElem?_eq_some_iff.mp ha
    obtain ⟨hj, rfl⟩ := List.getElem?_eq_some_iff.mp hb
    exact .inr ⟨heq, List.pairwise_iff_getElem.mp h i j hi hj hij⟩

theorem anchorFrom_targets (attach : Attach) (taken : List Nat) (targets : List Target) :
    (anchorFrom attach taken targets).map Anchor.target = targets := by
  induction targets generalizing taken with
  | nil => rfl
  | cons t rest ih =>
    rw [anchorFrom, List.map_cons, ih]

theorem anchors_targets (attach : Attach) (targets : List Target) :
    (anchors attach targets).map Anchor.target =
      targets.mergeSort fun a b => a.span.stop ≤ b.span.stop :=
  anchorFrom_targets attach [] _

theorem forall₂_mem_right {α β : Type} {R : α → β → Prop} {xs : List α} {ys : List β} {y : β}
    (h : List.Forall₂ R xs ys) (hy : y ∈ ys) : ∃ x ∈ xs, R x y := by
  induction h with
  | nil => cases hy
  | @cons a b as bs hab _ ih =>
    rcases List.mem_cons.mp hy with rfl | hy
    · exact ⟨a, List.mem_cons_self, hab⟩
    · obtain ⟨x, hx, hR⟩ := ih hy
      exact ⟨x, List.mem_cons_of_mem _ hx, hR⟩

theorem forall₂_map_eq {α β γ : Type} {R : α → β → Prop} {f : α → γ} {g : β → γ} {xs : List α}
    {ys : List β} (h : List.Forall₂ R xs ys) (hfg : ∀ x y, R x y → g y = f x) :
    ys.map g = xs.map f := by
  induction h with
  | nil => rfl
  | cons hab _ ih => rw [List.map_cons, List.map_cons, hfg _ _ hab, ih]

namespace Placement

variable {p : Placement} {config : Config} {line : Nat}

/-- Whether a row is that of a label: on the line where the label is to be read, with its message. -/
def ShowsLabel (p : Placement) (i : Nat) (row : Row) : Prop :=
  ∃ l, p.labels[i]? = some l ∧
    row.Shows (if l.isMultiline then .closing l.endLine i else .message l.startLine i)
      l.label.message

/-- Whether one label ends after another on a line, or with it as the later one. -/
def EndsAfter (p : Placement) (line i j : Nat) : Prop :=
  ∃ a b, (i, a) ∈ p.touching line ∧ (j, b) ∈ p.touching line ∧
    (b.stop < a.stop ∨ b.stop = a.stop ∧ j < i)

/-- A block with the messages of the given labels, in the given order. -/
structure IsBlock (p : Placement) (line : Nat) (rows : List Row) (messages closings : List Nat) :
    Prop where
  roles_eq : rows.map Row.role = .code line ::
    ((if messages = [] then [] else .underlines line :: messages.map (.message line)) ++
      if closings = [] then [] else .spacer line :: closings.map (.closing line))
  shown : ∀ row ∈ rows, ∀ i, row.role.label? = some i → p.ShowsLabel i row
  bare : ∀ row ∈ rows, row.role.label? = none → ∀ c ∈ row.body, c.color = none → c = .blank
  mem_messages : ∀ i, i ∈ messages ↔ ∃ l, p.labels[i]? = some l ∧ l.isMultiline = false ∧
    l.startLine = line
  messages_order : messages.Pairwise (p.EndsAfter line)
  mem_closings : ∀ i, i ∈ closings ↔ ∃ l, p.labels[i]? = some l ∧ l.isMultiline = true ∧
    l.endLine = line
  closings_order : closings.Pairwise (· > ·)

theorem messageOf_eq {i : Nat} {l : Placed} (h : p.labels[i]? = some l) :
    p.messageOf i = l.label.message := by
  rw [messageOf, h]
  rfl

theorem LineBlock.targets_eq_singles (b : LineBlock p config line)
    (hline : line < p.source.lines.length) (haligned : p.AlignedOn line) :
    b.targets.map (fun t => ((t.index, t.span), t.label)) = p.singles (p.touching line) := by
  obtain ⟨found, hfound⟩ := Source.exists_line hline
  obtain ⟨slice, hslice, _⟩ := Source.exists_lineSlice hfound
  obtain ⟨targets, htargets, hall⟩ := targets_of_alignedOn hfound hslice haligned
  cases b.targets_eq.symm.trans htargets
  exact (forall₂_map_eq hall fun s t h => h.1).trans (List.map_id _)

theorem mem_targets {b : LineBlock p config line} {t : Target}
    (heq : b.targets.map (fun t => ((t.index, t.span), t.label)) = p.singles (p.touching line))
    (ht : t ∈ b.targets) : ∃ l, p.labels[t.index]? = some l ∧ l.isMultiline = false ∧
      l.startLine = line ∧ l.label = t.label ∧ (t.index, t.span) ∈ p.touching line := by
  have hs : ((t.index, t.span), t.label) ∈ p.singles (p.touching line) :=
    heq ▸ List.mem_map.mpr ⟨t, ht, rfl⟩
  obtain ⟨l, hl, hm, hlabel, hmark⟩ := mem_singles_iff.mp hs
  refine ⟨l, hl, hm, ?_, hlabel, mem_touching_iff.mpr ⟨l, hl, hmark⟩⟩
  have hon := (markOf_isSome_iff (List.mem_of_getElem? hl)).mp (by rw [hmark]; rfl)
  have := isMultiline_eq_false_iff.mp hm
  omega

theorem exists_target {b : LineBlock p config line} {i : Nat} {l : Placed}
    (heq : b.targets.map (fun t => ((t.index, t.span), t.label)) = p.singles (p.touching line))
    (hl : p.labels[i]? = some l) (hm : l.isMultiline = false) (hline : l.startLine = line) :
    ∃ t ∈ b.targets, t.index = i := by
  have hsome := (markOf_isSome_iff (i := line) (List.mem_of_getElem? hl)).mpr (.inl hline.symm)
  obtain ⟨mark, hmark⟩ := Option.isSome_iff_exists.mp hsome
  have hs : ((i, mark), l.label) ∈ b.targets.map fun t => ((t.index, t.span), t.label) :=
    heq ▸ mem_singles_iff.mpr ⟨l, hl, hm, rfl, hmark⟩
  obtain ⟨t, ht, hti⟩ := List.mem_map.mp hs
  exact ⟨t, ht, congrArg (fun s => s.1.1) hti⟩

/-- The labels whose messages a block has, in the order of the messages. -/
def LineBlock.messages (b : LineBlock p config line) : List Nat :=
  (anchors config.attach b.targets).reverse.map fun a => a.target.index

theorem mem_anchors_target {attach : Attach} {targets : List Target} {a : Anchor}
    (h : a ∈ anchors attach targets) : a.target ∈ targets := by
  have := List.mem_map_of_mem (f := Anchor.target) h
  rwa [anchors_targets, List.mem_mergeSort] at this

theorem LineBlock.messages_eq_nil_iff (b : LineBlock p config line) :
    b.messages = [] ↔ b.targets = [] := by
  have hlength := congrArg List.length (anchors_targets config.attach b.targets)
  rw [List.length_map, List.length_mergeSort] at hlength
  rw [LineBlock.messages, List.map_eq_nil_iff, List.reverse_eq_nil_iff, ← List.length_eq_zero_iff,
    hlength, List.length_eq_zero_iff]

theorem LineBlock.mem_messages_iff (b : LineBlock p config line)
    (hline : line < p.source.lines.length) (haligned : p.AlignedOn line) (i : Nat) :
    i ∈ b.messages ↔ ∃ l, p.labels[i]? = some l ∧ l.isMultiline = false ∧ l.startLine = line := by
  have heq := b.targets_eq_singles hline haligned
  constructor
  · intro hi
    obtain ⟨a, ha, rfl⟩ := List.mem_map.mp hi
    obtain ⟨l, hl, hm, hs, _⟩ := mem_targets heq (mem_anchors_target (List.mem_reverse.mp ha))
    exact ⟨l, hl, hm, hs⟩
  · rintro ⟨l, hl, hm, hs⟩
    obtain ⟨t, ht, rfl⟩ := exists_target heq hl hm hs
    have hanchor : t ∈ (anchors config.attach b.targets).map Anchor.target := by
      rwa [anchors_targets, List.mem_mergeSort]
    obtain ⟨a, ha, rfl⟩ := List.mem_map.mp hanchor
    exact List.mem_map.mpr ⟨a, List.mem_reverse.mpr ha, rfl⟩

theorem LineBlock.messages_order (b : LineBlock p config line)
    (hline : line < p.source.lines.length) (haligned : p.AlignedOn line) :
    b.messages.Pairwise (p.EndsAfter line) := by
  have heq := b.targets_eq_singles hline haligned
  have hincreasing : b.targets.Pairwise fun s t => s.index < t.index := by
    have := p.singles_increasing line
    rwa [← heq, List.pairwise_map] at this
  have hsorted := mergeSort_stable (fun t : Target => t.span.stop) hincreasing
  rw [← anchors_targets config.attach, List.pairwise_map] at hsorted
  rw [LineBlock.messages, List.map_reverse, List.pairwise_reverse, List.pairwise_map]
  refine hsorted.imp_of_mem ?_
  intro a c ha hc hac
  obtain ⟨_, _, _, _, _, ha⟩ := mem_targets heq (mem_anchors_target ha)
  obtain ⟨_, _, _, _, _, hc⟩ := mem_targets heq (mem_anchors_target hc)
  exact ⟨_, _, hc, ha, hac⟩

theorem mem_closings_iff {i : Nat} : i ∈ (endingAt line (p.openOn line)).reverse.map OpenLabel.index ↔
    ∃ l, p.labels[i]? = some l ∧ l.isMultiline = true ∧ l.endLine = line := by
  simp only [List.mem_map, List.mem_reverse, mem_endingAt_iff, openOn, mem_openList_iff,
    Bool.and_eq_true, decide_eq_true_eq]
  constructor
  · rintro ⟨_, ⟨⟨j, l, hl, hm, _, rfl⟩, hend⟩, rfl⟩
    exact ⟨l, hl, hm, hend⟩
  · rintro ⟨l, hl, hm, hend⟩
    have hle := startLine_le_endLine (List.mem_of_getElem? hl)
    exact ⟨p.entry i l, ⟨⟨i, l, hl, hm, ⟨by omega, by omega⟩, rfl⟩, hend⟩, rfl⟩

theorem closings_descending (p : Placement) (line : Nat) :
    ((endingAt line (p.openOn line)).reverse.map OpenLabel.index).Pairwise (· > ·) := by
  rw [List.map_reverse, List.pairwise_reverse, List.pairwise_map]
  exact (p.openList_increasing _).filter _

/-- Drawn cells and source text have colors, so what is not colored is blank. -/
theorem blank_of_isFrame {c : Cell} (h : c.IsFrame) (hcolor : c.color = none) : c = .blank := by
  rcases h with rfl | ⟨role, color, rfl⟩
  · rfl
  · cases hcolor

theorem codeCells_color {fragments : List Fragment} {c : Cell} (h : c ∈ codeCells fragments) :
    c.color ≠ none := by
  obtain ⟨f, _, hc⟩ := List.mem_flatMap.mp h
  obtain ⟨_, _, rfl⟩ := List.mem_map.mp hc
  exact Option.some_ne_none _

theorem LineBlock.pointers_shown (b : LineBlock p config line)
    (hline : line < p.source.lines.length) (haligned : p.AlignedOn line) :
    b.pointers.map Row.role =
      (if b.messages = [] then [] else .underlines line :: b.messages.map (.message line)) ∧
    ∀ row ∈ b.pointers, row.IsBare (.underlines line) ∨
      ∃ i ∈ b.messages, row.role = .message line i ∧ p.ShowsLabel i row := by
  have heq := b.targets_eq_singles hline haligned
  have hfits : ∀ e ∈ p.openOn line, 2 * e.slot < p.marginWidth := openList_fits
  obtain ⟨rows, hrows, hshown⟩ := pointerRows_shown config line b.targets hfits
  cases b.pointers_eq.symm.trans hrows
  rcases hshown with ⟨htargets, hpointers⟩ | ⟨htargets, underlines, messages, hpointers, hbare, _, hall⟩
  · rw [if_pos (b.messages_eq_nil_iff.mpr htargets), hpointers]
    simp
  · have hroles : messages.map Row.role = b.messages.map (.message line) := by
      rw [LineBlock.messages, List.map_map]
      exact forall₂_map_eq hall fun a row h => h.role_eq
    rw [if_neg fun hnil => htargets (b.messages_eq_nil_iff.mp hnil), hpointers]
    refine ⟨by rw [List.map_cons, hbare.role_eq, hroles], ?_⟩
    intro row hrow
    rcases List.mem_cons.mp hrow with rfl | hrow
    · exact .inl hbare
    · obtain ⟨a, ha, hshows⟩ := forall₂_mem_right hall hrow
      obtain ⟨l, hl, hm, hs, hlabel, _⟩ :=
        mem_targets heq (mem_anchors_target (List.mem_reverse.mp ha))
      refine .inr ⟨a.target.index, List.mem_map.mpr ⟨a, ha, rfl⟩, hshows.role_eq, l, hl, ?_⟩
      rw [if_neg (by simp [hm]), hs, hlabel]
      exact hshows

theorem LineBlock.closing_shown (b : LineBlock p config line) :
    b.closing.map Row.role =
      ((endingAt line (p.openOn line)).reverse.map OpenLabel.index).map (.closing line) ∧
    ∀ row ∈ b.closing, ∃ i, row.role = .closing line i ∧ p.ShowsLabel i row := by
  have hfits : ∀ e ∈ p.openOn line, 2 * e.slot < p.marginWidth := openList_fits
  obtain ⟨rows, hrows, hall⟩ := closeAll_shown line hfits (endingAt_fits line hfits)
  have hclosing := b.closing_eq
  rw [hrows] at hclosing
  cases hclosing
  refine ⟨by rw [List.map_map]; exact forall₂_map_eq hall fun e row h => h.role_eq, ?_⟩
  intro row hrow
  obtain ⟨e, he, hshows⟩ := forall₂_mem_right hall hrow
  obtain ⟨he, hend⟩ := mem_endingAt_iff.mp (List.mem_reverse.mp he)
  obtain ⟨i, l, hl, hm, _, rfl⟩ := mem_openList_iff.mp he
  refine ⟨i, hshows.role_eq, l, hl, ?_⟩
  rw [if_pos hm, show l.endLine = line from hend, ← messageOf_eq hl]
  exact hshows

theorem LineBlock.spacer_shown (b : LineBlock p config line) :
    b.spacer.map Row.role = (if endingAt line (p.openOn line) = [] then [] else [.spacer line]) ∧
      ∀ row ∈ b.spacer, row.IsBare (.spacer line) := by
  have hfits : ∀ e ∈ p.openOn line, 2 * e.slot < p.marginWidth := openList_fits
  obtain ⟨rows, hrows, hshown⟩ := spacerRow_shown line hfits
  cases b.spacer_eq.symm.trans hrows
  rcases hshown with ⟨hending, hspacer⟩ | ⟨hending, spacer, hspacer, hbare⟩
  · simp [hending, hspacer]
  · simp [hending, hspacer, hbare.role_eq, hbare]

theorem LineBlock.mem_rows_cases (b : LineBlock p config line)
    (hline : line < p.source.lines.length) (haligned : p.AlignedOn line) {row : Row}
    (hrow : row ∈ b.rows) :
    row = ⟨.code line, trimBlanks (b.lead ++ codeCells b.fragments)⟩ ∨
      (row ∈ b.pointers ∧ row.IsBare (.underlines line)) ∨ row.IsBare (.spacer line) ∨
      ∃ i, (row.role = .message line i ∨ row.role = .closing line i) ∧ p.ShowsLabel i row := by
  rcases List.mem_cons.mp hrow with rfl | hrow
  · exact .inl rfl
  rcases List.mem_append.mp hrow with hrow | hrow
  · rcases List.mem_append.mp hrow with hrow | hrow
    · rcases (b.pointers_shown hline haligned).2 row hrow with hbare | ⟨i, _, hrole, hshows⟩
      · exact .inr (.inl ⟨hrow, hbare⟩)
      · exact .inr (.inr (.inr ⟨i, .inl hrole, hshows⟩))
    · exact .inr (.inr (.inl (b.spacer_shown.2 row hrow)))
  · obtain ⟨i, hrole, hshows⟩ := b.closing_shown.2 row hrow
    exact .inr (.inr (.inr ⟨i, .inr hrole, hshows⟩))

theorem LineBlock.roles_eq (b : LineBlock p config line) (hline : line < p.source.lines.length)
    (haligned : p.AlignedOn line) {closings : List Nat}
    (hclosings : closings = (endingAt line (p.openOn line)).reverse.map OpenLabel.index) :
    b.rows.map Row.role = .code line ::
      ((if b.messages = [] then [] else .underlines line :: b.messages.map (.message line)) ++
        if closings = [] then [] else .spacer line :: closings.map (.closing line)) := by
  obtain ⟨hpointers, _⟩ := b.pointers_shown hline haligned
  obtain ⟨hspacer, _⟩ := b.spacer_shown
  obtain ⟨hclosing, _⟩ := b.closing_shown
  rw [LineBlock.rows, List.map_cons, List.map_append, List.map_append, hpointers, hspacer,
    hclosing, List.append_assoc, ← hclosings]
  by_cases hending : endingAt line (p.openOn line) = []
  · simp [hclosings, hending]
  · simp [hclosings, hending]

/-- A drawn line has a block with the messages of its labels. -/
theorem LineBlock.isBlock (b : LineBlock p config line) (hline : line < p.source.lines.length)
    (haligned : p.AlignedOn line) :
    ∃ messages closings, p.IsBlock line b.rows messages closings := by
  refine ⟨b.messages, _, b.roles_eq hline haligned rfl, ?_, ?_, b.mem_messages_iff hline haligned,
    b.messages_order hline haligned, fun i => mem_closings_iff, p.closings_descending line⟩
  · intro row hrow i hi
    rcases b.mem_rows_cases hline haligned hrow with
      rfl | ⟨_, hbare⟩ | hbare | ⟨j, hrole | hrole, hshows⟩
    · cases hi
    · rw [hbare.role_eq] at hi
      cases hi
    · rw [hbare.role_eq] at hi
      cases hi
    · rw [hrole] at hi
      cases hi
      exact hshows
    · rw [hrole] at hi
      cases hi
      exact hshows
  · intro row hrow hnone c hc hcolor
    rcases b.mem_rows_cases hline haligned hrow with
      rfl | ⟨_, hbare⟩ | hbare | ⟨j, hrole | hrole, _⟩
    · rcases List.mem_append.mp (mem_trimBlanks hc) with hc | hc
      · exact blank_of_isFrame (b.lead_frame c hc) hcolor
      · exact absurd hcolor (codeCells_color hc)
    · exact blank_of_isFrame (hbare.frame c hc) hcolor
    · exact blank_of_isFrame (hbare.frame c hc) hcolor
    · rw [hrole] at hnone
      cases hnone
    · rw [hrole] at hnone
      cases hnone

end Placement

end Callout
