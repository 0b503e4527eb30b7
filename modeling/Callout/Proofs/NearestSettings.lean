import Callout.Settings
import Mathlib.Algebra.GroupWithZero.Nat

namespace Callout

namespace FileTree

/-- The entry `name` of the nearest directory that has one, among a directory and those above it. -/
inductive IsNearest (tree : FileTree) (name : String) (directory : List String) : List String → Prop where
  | intro {owner : List String} (above : owner <+: directory)
    (has : (tree.at? (owner ++ [name])).isSome = true)
    (nearest : ∀ other, other <+: directory → owner.length < other.length →
      tree.at? (other ++ [name]) = none) :
    IsNearest tree name directory (owner ++ [name])

variable {tree : FileTree} {name last : String} {directory place : List String}

theorem isNearest_of_has (h : (tree.at? (directory ++ [name])).isSome = true) :
    tree.IsNearest name directory place ↔ directory ++ [name] = place := by
  constructor
  · rintro ⟨above, has, nearest⟩
    rcases Nat.lt_or_eq_of_le above.length_le with hlt | heq
    · rw [nearest directory (List.prefix_refl _) hlt] at h
      cases h
    · rw [above.eq_of_length heq]
  · rintro rfl
    exact ⟨List.prefix_refl _, h, fun other hother hlt => absurd hother.length_le (Nat.not_le.mpr hlt)⟩

theorem isNearest_of_lacks (h : tree.at? (directory ++ [last] ++ [name]) = none) :
    tree.IsNearest name (directory ++ [last]) place ↔ tree.IsNearest name directory place := by
  constructor
  · rintro ⟨above, has, nearest⟩
    rcases List.prefix_concat_iff.mp above with rfl | above
    · rw [h] at has
      cases has
    · exact ⟨above, has, fun other hother => nearest other (hother.trans (List.prefix_append _ _))⟩
  · rintro ⟨above, has, nearest⟩
    refine ⟨above.trans (List.prefix_append _ _), has, fun other hother hlt => ?_⟩
    rcases List.prefix_concat_iff.mp hother with rfl | hother
    · exact h
    · exact nearest other hother hlt

theorem nearestUpward_nil (tree : FileTree) (name : String) : tree.nearestUpward name [] =
    if (tree.at? ([] ++ [name])).isSome then some ([] ++ [name]) else none :=
  rfl

theorem nearestUpward_cons (tree : FileTree) (name last : String) (upward : List String) :
    tree.nearestUpward name (last :: upward) =
      if (tree.at? (upward.reverse ++ [last] ++ [name])).isSome
      then some (upward.reverse ++ [last] ++ [name]) else tree.nearestUpward name upward := by
  rw [nearestUpward, List.reverse_cons]

theorem nearestUpward_eq_some_iff {upward : List String} :
    tree.nearestUpward name upward = some place ↔ tree.IsNearest name upward.reverse place := by
  induction upward with
  | nil =>
    rw [nearestUpward_nil, List.reverse_nil]
    split
    next h => rw [Option.some_inj, isNearest_of_has h]
    next h =>
      refine ⟨nofun, ?_⟩
      rintro ⟨above, has, -⟩
      rw [List.prefix_nil.mp above] at has
      exact absurd has h
  | cons last upward ih =>
    rw [nearestUpward_cons, List.reverse_cons]
    split
    next h => rw [Option.some_inj, isNearest_of_has h]
    next h => rw [ih, isNearest_of_lacks (Option.not_isSome_iff_eq_none.mp h)]

theorem nearestUpward_eq_none_iff {upward : List String} :
    tree.nearestUpward name upward = none ↔
      ∀ owner, owner <+: upward.reverse → tree.at? (owner ++ [name]) = none := by
  induction upward with
  | nil =>
    simp only [nearestUpward_nil, List.reverse_nil, List.prefix_nil, forall_eq]
    split
    next h => exact ⟨nofun, fun hnone => by rw [hnone] at h; cases h⟩
    next h => exact ⟨fun _ => Option.not_isSome_iff_eq_none.mp h, fun _ => rfl⟩
  | cons last upward ih =>
    simp only [nearestUpward_cons, List.reverse_cons, List.prefix_concat_iff, forall_eq_or_imp]
    split
    next h => exact ⟨nofun, fun hnone => by rw [hnone.1] at h; cases h⟩
    next h =>
      rw [ih]
      exact ⟨fun hall => ⟨Option.not_isSome_iff_eq_none.mp h, hall⟩, fun hall => hall.2⟩

/-- Names that lead somewhere lead to the place that they stand for as written. -/
theorem resolve_of_follow {here names : List String} (h : tree.follow here names = some place) :
    resolve here names = place := by
  induction names generalizing here with
  | nil => exact Option.some_inj.mp h
  | cons name rest ih =>
    unfold follow at h
    unfold resolve
    split at h
    next =>
      split at h
      next hsame => rw [if_pos hsame]; exact ih h
      next hsame =>
        rw [if_neg hsame]
        split at h
        next hup => rw [if_pos hup]; exact ih h
        next hup =>
          rw [if_neg hup]
          dsimp only at h
          split at h
          next => exact ih h
          next => cases h
    next => cases h

/-- Names that are neither empty nor dots lead on one by one. -/
theorem resolve_eq_append {here names : List String}
    (h : ∀ name ∈ names, name ≠ "" ∧ name ≠ "." ∧ name ≠ "..") : resolve here names = here ++ names := by
  induction names generalizing here with
  | nil => exact (List.append_nil here).symm
  | cons name rest ih =>
    obtain ⟨⟨hempty, hdot, hup⟩, hrest⟩ := List.forall_mem_cons.mp h
    rw [resolve, if_neg (not_or.mpr ⟨hempty, hdot⟩), if_neg hup, ih hrest, List.append_assoc]
    rfl

end FileTree

theorem pathNames_intercalate {names : List String} (hne : names ≠ [])
    (h : ∀ name ∈ names, '/' ∉ name.toList) : pathNames ("/".intercalate names) = names := by
  have hsplit : (['/'].intercalate (names.map String.toList)).splitOn '/' = names.map String.toList :=
    List.splitOn_intercalate '/' (List.forall_mem_map.mpr h) (mt List.map_eq_nil_iff.mp hne)
  have hslash : "/".toList = ['/'] := rfl
  rw [pathNames, String.toList_intercalate, hslash, hsplit, List.map_map]
  exact List.map_id'' (fun name => String.ofList_toList) names

/-- Each name of a place has a slash before it in the path. -/
theorem utf8ByteSize_pathOf {place : List String} (h : place ≠ []) :
    (pathOf place).utf8ByteSize = (place.map fun name => name.utf8ByteSize + 1).sum := by
  have hslash : "/".utf8ByteSize = 1 := rfl
  induction place with
  | nil => exact absurd rfl h
  | cons name rest ih =>
    rw [List.map_cons, List.sum_cons, pathOf, String.utf8ByteSize_append, hslash]
    cases rest with
    | nil =>
      rw [String.intercalate_singleton]
      exact Nat.add_comm _ _
    | cons next rest =>
      rw [← ih (List.cons_ne_nil _ _), pathOf, String.intercalate_cons_of_ne_nil (List.cons_ne_nil _ _)]
      simp only [String.utf8ByteSize_append, hslash]
      omega

/-- The directory that a start path is looked up from: its own, or the one that it is a file of. -/
def Files.directory (files : Files) (start : String) : List String :=
  files.tree.directoryOf (files.place start)

/-- Whether the system looks a start path up, and a settings file in its directory. -/
structure Files.LooksUp (files : Files) (start : String) : Prop where
  no_nul : '\x00' ∉ start.toList
  names_fit : files.tree.hasLongName (files.place start) = false
  place_fits : (pathOf (files.place start)).utf8ByteSize < maxPathBytes
  settings_fit : (pathOf (files.directory start ++ [Settings.fileName])).utf8ByteSize < maxPathBytes

namespace Settings

variable {files : Files} {start : String} {place : List String}

theorem isTooLong_eq_false_iff (tree : FileTree) : isTooLong tree place = false ↔
    tree.hasLongName place = false ∧ (pathOf place).utf8ByteSize < maxPathBytes ∧
      (pathOf (tree.directoryOf place ++ [fileName])).utf8ByteSize < maxPathBytes := by
  simp only [isTooLong, Bool.or_eq_false_iff, decide_eq_false_iff_not, Nat.not_le, and_assoc]

theorem looksUp_iff :
    files.LooksUp start ↔ '\x00' ∉ start.toList ∧ isTooLong files.tree (files.place start) = false := by
  rw [isTooLong_eq_false_iff]
  exact ⟨fun h => ⟨h.1, h.2, h.3, h.4⟩, fun h => ⟨h.1, h.2.1, h.2.2.1, h.2.2.2⟩⟩

theorem find_of_looksUp (h : files.LooksUp start) :
    find files start =
      match files.tree.nearestUpward fileName (files.directory start).reverse with
      | some found => .ok found
      | none => .error .notFound := by
  obtain ⟨hnul, hfit⟩ := looksUp_iff.mp h
  rw [find, if_neg hnul, hfit, if_neg Bool.false_ne_true]
  rfl

theorem find_eq_ok_iff (h : files.LooksUp start) :
    find files start = .ok place ↔ files.tree.IsNearest fileName (files.directory start) place := by
  rw [← List.reverse_reverse (files.directory start), ← FileTree.nearestUpward_eq_some_iff,
    find_of_looksUp h]
  cases files.tree.nearestUpward fileName (files.directory start).reverse with
  | none => exact ⟨nofun, nofun⟩
  | some found => exact ⟨fun hok => by cases hok; rfl, fun hsome => by cases hsome; rfl⟩

theorem find_eq_notFound_iff (h : files.LooksUp start) :
    find files start = .error .notFound ↔
      ∀ owner, owner <+: files.directory start → files.tree.at? (owner ++ [fileName]) = none := by
  rw [← List.reverse_reverse (files.directory start), ← FileTree.nearestUpward_eq_none_iff,
    find_of_looksUp h]
  cases files.tree.nearestUpward fileName (files.directory start).reverse with
  | none => exact ⟨fun _ => rfl, fun _ => rfl⟩
  | some found => exact ⟨nofun, nofun⟩

theorem find_of_not_looksUp (h : ¬files.LooksUp start) :
    find files start = .error (if '\x00' ∈ start.toList then .nulInPath else .nameTooLong) := by
  rw [looksUp_iff, not_and_or, not_not, Bool.not_eq_false] at h
  unfold find
  split
  next => rfl
  next hnul => rw [if_pos (h.resolve_left hnul)]

end Settings

end Callout
