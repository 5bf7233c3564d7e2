import Mathlib.Data.List.Infix
import LineCalculator.CommandLine.Disk

/- What making a file changes on a disk: nothing but what stands at its place, so a path that does not lead
   there leads where it did. -/
namespace LineCalculator.Disk
variable {disk made : Disk} {path : List Char} {front place : List (List Char)} {name : List Char}

theorem isProperFront_iff {front place : List (List Char)} :
    isProperFront front place = true ↔ front <+: place ∧ front ≠ place := by
  simp [isProperFront]

/-- The last name on a path, and the directory that the others lead to. -/
structure Makes (disk : Disk) (path : List Char) (front : List (List Char)) (name : List Char) : Prop where
  short : isTooLong path = false
  last : (names path).getLast? = some name
  leads : disk.follow? path (names path).dropLast = some front
  plain : isStep name = false
  directory : disk.find? front = some .directory
  free : disk.find? (front ++ [name]) ≠ some .directory

theorem makes_of_create? (creates : disk.create? path = some made) :
    ∃ front name, disk.Makes path front name ∧ made = disk.clear (front ++ [name]) := by
  obtain ⟨place, new, rfl⟩ := Option.map_eq_some_iff.mp creates
  unfold newPlace? at new
  split at new
  · contradiction
  · next long =>
    split at new
    · next front name leads last =>
      split at new
      · next fits =>
        obtain ⟨plain, directory, free⟩ := fits
        obtain rfl := Option.some.inj new
        exact ⟨front, name, ⟨by simpa using long, last, leads, plain, directory, free⟩, rfl⟩
      · contradiction
    · contradiction

theorem any_below_of_directory (directory : disk.find? front = some .directory) (above : place <+: front)
    (outside : ¬ place.isPrefixOf disk.home = true) (missing : disk.entries.find? (·.1 = place) = none) :
    disk.entries.any (isProperFront place ·.1) = true := by
  unfold find? at directory
  split at directory
  · next home =>
    exact absurd (List.isPrefixOf_iff_prefix.mpr (above.trans (List.isPrefixOf_iff_prefix.mp home))) outside
  · split at directory
    · next found =>
      have mem := List.mem_of_find?_eq_some found
      have here := List.find?_some found
      have apart := List.find?_eq_none.mp missing _ mem
      simp only [decide_eq_true_eq] at here apart
      subst here
      exact List.any_eq_true.mpr ⟨_, mem, isProperFront_iff.mpr ⟨above, Ne.symm apart⟩⟩
    · split at directory
      · next below =>
        obtain ⟨entry, mem, further⟩ := List.any_eq_true.mp below
        have apart := List.find?_eq_none.mp missing _ mem
        simp only [decide_eq_true_eq] at apart
        have within := above.trans (isProperFront_iff.mp further).1
        exact List.any_eq_true.mpr ⟨entry, mem, isProperFront_iff.mpr ⟨within, Ne.symm apart⟩⟩
      · contradiction

section
variable (free : disk.find? place ≠ some .directory)
include free

theorem find?_clear_self : (disk.clear place).find? place = some (.file []) := by
  have outside : ¬ place.isPrefixOf disk.home = true := fun home => free (if_pos home)
  simp [find?, clear, outside]

theorem enter?_clear_self (next : List Char) : (disk.clear place).enter? place next = none := by
  apply if_pos
  rw [find?_clear_self free]
  simp

end

section
variable (directory : disk.find? front = some .directory)
include directory

theorem find?_clear_other (other : place ≠ front ++ [name]) :
    (disk.clear (front ++ [name])).find? place = disk.find? place := by
  have found : (disk.clear (front ++ [name])).entries.find? (·.1 = place) =
      disk.entries.find? (·.1 = place) := by
    rw [clear, List.find?_cons_of_neg (by simpa using Ne.symm other), List.find?_filter]
    congr 1
    funext entry
    grind
  unfold find?
  rw [found, home_clear]
  split
  · rfl
  · next outside =>
    split
    · rfl
    · next missing =>
      -- only a directory above the new file could be there because of it, and that was there before
      have below : (disk.clear (front ++ [name])).entries.any (isProperFront place ·.1) =
          disk.entries.any (isProperFront place ·.1) := by
        rw [clear, List.any_cons, List.any_filter]
        cases above : isProperFront place (front ++ [name]) with
        | true =>
          have within := (List.prefix_concat_iff.mp (isProperFront_iff.mp above).1).resolve_left other
          rw [any_below_of_directory directory within outside missing, Bool.true_or]
        | false =>
          rw [Bool.false_or]
          congr 1
          funext entry
          by_cases same : entry.1 = front ++ [name]
          · simp [same, above]
          · simp [same]
      rw [below]

end

section
variable (directory : disk.find? front = some .directory) (free : disk.find? (front ++ [name]) ≠ some .directory)
include directory free

theorem enter?_clear (place : List (List Char)) (next : List Char) :
    (disk.clear (front ++ [name])).enter? place next = disk.enter? place next ∨
      (disk.clear (front ++ [name])).enter? place next = some (front ++ [name]) ∧
        disk.enter? place next = none := by
  by_cases here : place = front ++ [name]
  · left
    rw [here, enter?_clear_self free, enter?, if_pos free]
  · simp only [enter?, find?_clear_other directory here]
    by_cases entered : place ++ [next] = front ++ [name]
    · simp only [entered, find?_clear_self free]
      cases disk.find? (front ++ [name]) with
      | some entry => exact Or.inl rfl
      | none =>
        simp only [Option.isSome_some, Option.isSome_none, if_true, Bool.false_eq_true, if_false]
        repeat' split
        all_goals simp
    · left
      simp only [find?_clear_other directory entered]

theorem foldlM_enter?_clear (names : List (List Char)) (place : List (List Char)) :
    names.foldlM (disk.clear (front ++ [name])).enter? place = names.foldlM disk.enter? place ∨
      names.foldlM (disk.clear (front ++ [name])).enter? place = some (front ++ [name]) ∧
        names.foldlM disk.enter? place = none := by
  induction names generalizing place with
  | nil => exact Or.inl rfl
  | cons next rest ih =>
    rw [List.foldlM_cons, List.foldlM_cons]
    rcases enter?_clear directory free place next with same | ⟨entered, missing⟩
    · rw [same]
      cases disk.enter? place next with
      | none => exact Or.inl rfl
      | some further => exact ih further
    · rw [entered, missing]
      cases rest with
      | nil => exact Or.inr ⟨rfl, rfl⟩
      | cons beyond rest =>
        left
        change (beyond :: rest).foldlM _ (front ++ [name]) = none
        rw [List.foldlM_cons, enter?_clear_self free]
        rfl

end

section
variable (makes : disk.Makes path front name)
include makes

theorem Makes.locate? : (disk.clear (front ++ [name])).locate? path = some (front ++ [name]) := by
  have apart : front ≠ front ++ [name] := by simp
  have there := (find?_clear_other makes.directory apart).trans makes.directory
  have entered : (disk.clear (front ++ [name])).enter? front name = some (front ++ [name]) := by
    have plain : ¬(name = [] ∨ name = ['.']) ∧ name ≠ ['.', '.'] := by
      simpa [isStep, and_assoc] using makes.plain
    simp [enter?, there, plain.1, plain.2, find?_clear_self makes.free]
  have led : (disk.clear (front ++ [name])).follow? path (names path).dropLast = some front := by
    have cases := foldlM_enter?_clear makes.directory makes.free (names path).dropLast
      (if path.head? = some '/' then [] else disk.home)
    rcases cases with same | ⟨_, missing⟩
    · exact same.trans makes.leads
    · exact absurd (missing.symm.trans makes.leads) (by simp)
  obtain ⟨fronts, parts⟩ := List.getLast?_eq_some_iff.mp makes.last
  rw [parts, List.dropLast_concat] at led
  rw [Disk.locate?, if_neg (by simp [makes.short]), parts, follow?, List.foldlM_append]
  rw [follow?] at led
  rw [led]
  simp [entered]

theorem Makes.locate?_cases (other : List Char) :
    (disk.clear (front ++ [name])).locate? other = disk.locate? other ∨
      (disk.clear (front ++ [name])).locate? other = some (front ++ [name]) := by
  unfold Disk.locate?
  split
  · exact Or.inl rfl
  · exact (foldlM_enter?_clear makes.directory makes.free _ _).imp_right And.left

end

instance : LawfulFileSystem Disk where
  open?_of_created := by
    intro disk made path creates
    obtain ⟨front, name, makes, rfl⟩ := makes_of_create? creates
    calc FileSystem.open? (disk.clear (front ++ [name])) path
        = (some (front ++ [name])).bind (disk.clear (front ++ [name])).find? :=
          congrArg (Option.bind · _) makes.locate?
      _ = some (.file []) := find?_clear_self makes.free
  open?_of_apart := by
    intro disk made path other creates apart
    obtain ⟨front, name, makes, rfl⟩ := makes_of_create? creates
    have elsewhere : (disk.clear (front ++ [name])).locate? other ≠ some (front ++ [name]) :=
      fun leads => apart ⟨_, creates, leads.trans makes.locate?.symm⟩
    have same := (makes.locate?_cases other).resolve_right elsewhere
    change ((disk.clear (front ++ [name])).locate? other).bind (disk.clear (front ++ [name])).find? =
      (disk.locate? other).bind disk.find?
    rw [← same]
    cases led : (disk.clear (front ++ [name])).locate? other with
    | none => rfl
    | some place =>
      have away : place ≠ front ++ [name] := by
        rintro rfl
        exact elsewhere led
      exact find?_clear_other makes.directory away

/-- A path may lead to the file by another spelling of its name. -/
example : FileSystem.LeadsTo (ofLists [] ["sub".toList]) "a.log".toList "sub/.././a.log".toList :=
  ⟨_, rfl, rfl⟩

end LineCalculator.Disk
