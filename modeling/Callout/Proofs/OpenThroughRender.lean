import Callout.Proofs.RenderOutcome

namespace Callout

namespace Placement

variable {p : Placement}

/-- The open labels are those of several lines that `keep` selects, by ascending index, each in the
slot that it has for good. -/
structure Holds (p : Placement) (slot : Nat → Nat) (keep : Placed → Prop)
    (active : List OpenLabel) : Prop where
  ascending : (active.map OpenLabel.index).Pairwise (· < ·)
  mem_iff : ∀ e, e ∈ active ↔ ∃ i l, p.labels[i]? = some l ∧ l.isMultiline = true ∧ keep l ∧
    e = ⟨i, slot i, l.label.color, l.endLine⟩

/-- No two open labels share a slot, and every slot is left of the arrow in the margin. -/
structure HasRoom (p : Placement) (slot : Nat → Nat) (active : List OpenLabel) : Prop where
  distinct : (active.map OpenLabel.slot).Nodup
  kept : ∀ e ∈ active, e.slot = slot e.index
  lt_depth : ∀ e ∈ active, e.slot < p.depth
  lt_arrow : ∀ e ∈ active, 2 * e.slot + 2 < p.marginWidth

theorem holds_openList {keep : Nat → Placed → Bool} {keep' : Placed → Prop}
    (h : ∀ i l, keep i l = true ↔ keep' l) : p.Holds p.slotOf keep' (p.openList keep) := by
  refine ⟨List.pairwise_map.mpr (p.openList_increasing keep), ?_⟩
  intro e
  rw [mem_openList_iff]
  constructor
  · rintro ⟨i, l, hl, hm, hk, rfl⟩
    exact ⟨i, l, hl, hm, (h i l).mp hk, rfl⟩
  · rintro ⟨i, l, hl, hm, hk, rfl⟩
    exact ⟨i, l, hl, hm, (h i l).mpr hk, rfl⟩

theorem hasRoom_of_sublist {line : Nat} {active : List OpenLabel}
    (h : active.Sublist (p.openOn line)) : p.HasRoom p.slotOf active := by
  have hdepth : ∀ e ∈ active, e.slot < p.depth := fun e he => slot_lt_depth (h.subset he)
  refine ⟨(h.map OpenLabel.slot).nodup (p.openOn_slots_nodup line), ?_, hdepth,
    fun e he => slot_lt_marginWidth (hdepth e he)⟩
  intro e he
  obtain ⟨i, l, _, _, _, rfl⟩ := mem_openList_iff.mp (h.subset he)
  rfl

/-- While labels are being opened on a line, those that are open already will all be open. -/
theorem foldl_push_sublist (p : Placement) (line k : Nat) :
    (((p.starting line (p.touching line)).take k).foldl push (p.openBy line)).Sublist
      (p.openOn line) := by
  have hprefix := isPrefix_openAt
    (((p.starting line (p.touching line)).take k).foldl push (p.openBy line))
    ((p.starting line (p.touching line)).drop k)
  rw [← List.foldl_append, List.take_append_drop] at hprefix
  rw [← openAt_openBy]
  exact hprefix.sublist

theorem blocks_done (config : Config) (h : p.Aligned) {done rest : List Nat}
    (hsplit : p.relevantLines = done ++ rest) :
    (p.blocks config none done []).active = p.reached rest := by
  have hreached : p.reached (done ++ rest) = [] := by
    rw [← hsplit, reached_relevantLines]
  obtain ⟨chunks, hchunks, _⟩ := blocks_of_alignedOn config none
    (show p.relevantLines = [] ++ done ++ rest by rw [hsplit, List.nil_append])
    fun line hline => aligned_iff.mp h line (by rw [hsplit]; exact List.mem_append_left _ hline)
  rw [hreached] at hchunks
  rw [hchunks]

theorem exists_full_line (h : p.labels ≠ []) : ∃ line ∈ p.relevantLines,
    ∀ s < p.depth, ∃ e ∈ p.openOn line, e.slot = s := by
  by_cases hdepth : 0 < p.depth
  · obtain ⟨l, hl, hcount⟩ := exists_countAt_eq_depth hdepth
    refine ⟨l.startLine, mem_relevantLines_iff.mpr ⟨l, (mem_multiline_iff.mp hl).1, .inl rfl⟩, ?_⟩
    exact fun s hs => exists_slot_of_countAt_eq_depth hcount hs
  · obtain ⟨l, rest, hlabels⟩ := List.exists_cons_of_ne_nil h
    refine ⟨l.startLine, mem_relevantLines_iff.mpr ⟨l, by simp [hlabels], .inl rfl⟩, ?_⟩
    intro s hs
    omega

end Placement

/-- A render goes through its relevant lines with the labels of several lines open that lie on the
line, each in one slot from its first line to its last. Slots never clash and never reach the arrow,
some line needs all of them, and nothing is open at the end. The lines before a line, the labels
opened on it so far and the labels closed on it so far make up every moment of the render. -/
theorem open_labels_through_render {catalog : Catalog} {d : Diagnostic} {text : String}
    {p : Placement} (h : render catalog d = .ok text)
    (hcanvas : Canvas.ofDiagnostic catalog d = .ok ⟨d, some p⟩) :
    ∃ slot : Nat → Nat,
      (∀ (done : List Nat) (line : Nat) (rest : List Nat), p.relevantLines =
          done ++ line :: rest →
        let reached := (p.blocks d.config none done []).active
        let opened := p.openAt line (p.touching line) reached
        let past := (p.blocks d.config none (done ++ [line]) []).active
        p.Holds slot (fun l => l.startLine ≤ line ∧ line ≤ l.endLine) opened ∧
        p.Holds slot (fun l => l.startLine ≤ line ∧ line < l.endLine) past ∧
        (∀ k, p.HasRoom slot
          (((p.starting line (p.touching line)).take k).foldl Placement.push reached)) ∧
        ∀ k, p.HasRoom slot
          (p.closeAll line opened ((Placement.endingAt line opened).reverse.take k)).active) ∧
      (∃ (done : List Nat) (line : Nat) (rest : List Nat), p.relevantLines =
          done ++ line :: rest ∧ ∀ s < p.depth,
        ∃ e ∈ p.openAt line (p.touching line) (p.blocks d.config none done []).active,
          e.slot = s) ∧
      (p.content d.config []).active = [] := by
  obtain ⟨hne, haligned, -⟩ := placement_of_render h hcanvas
  have hreached : ∀ (done : List Nat) (line : Nat) (rest : List Nat),
      p.relevantLines = done ++ line :: rest →
      (p.blocks d.config none done []).active = p.openBy line :=
    fun done line rest hsplit => Placement.blocks_done d.config haligned hsplit
  refine ⟨p.slotOf, ?_, ?_, ?_⟩
  · intro done line rest hsplit
    have hpast : (p.blocks d.config none (done ++ [line]) []).active = p.openPast line := by
      rw [Placement.openPast_eq_reached hsplit]
      apply Placement.blocks_done d.config haligned
      rw [hsplit, List.append_assoc, List.cons_append, List.nil_append]
    simp only [hreached done line rest hsplit, Placement.openAt_openBy, hpast]
    refine ⟨?_, ?_, ?_, ?_⟩
    · exact Placement.holds_openList fun i l => by simp
    · exact Placement.holds_openList fun i l => by simp
    · exact fun k => Placement.hasRoom_of_sublist (p.foldl_push_sublist line k)
    · exact fun k => Placement.hasRoom_of_sublist (p.closeAll_active_sublist line _ _)
  · obtain ⟨line, hline, hfull⟩ := Placement.exists_full_line hne
    obtain ⟨done, rest, hsplit⟩ := List.append_of_mem hline
    refine ⟨done, line, rest, hsplit, ?_⟩
    rw [hreached done line rest hsplit, Placement.openAt_openBy]
    exact hfull
  · exact Placement.blocks_done d.config haligned (List.append_nil _).symm

theorem open_labels_crossing : ∃ p,
    Canvas.ofDiagnostic ⟨[(.name "letters", letters)]⟩ crossing = .ok ⟨crossing, some p⟩ ∧
      (p.content crossing.config []).active = [] := by
  obtain ⟨text, p, htext, hcanvas⟩ := crossing_rendered
  obtain ⟨slot, _, _, hempty⟩ := open_labels_through_render htext hcanvas
  exact ⟨p, hcanvas, hempty⟩

end Callout
