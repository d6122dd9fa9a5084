import Mathlib.Data.List.Basic

/-!
# Relative paths that stay below the project root

A file id from the network is a path relative to the project root. It is turned
into a local path only if it has no empty, `.` or `..` segment, no character
that another platform would read as a separator or a drive, and does not begin
with the project's metadata directory.
-/

namespace Synergos.SafePath

open List

/-- The metadata directory at the project root. -/
def metaDir : String := ".synergos"

/-- The characters of the Unicode category of control characters. -/
def isControl (char : Char) : Bool :=
  char.toNat ≤ 0x1f || (0x7f ≤ char.toNat && char.toNat ≤ 0x9f)

/-- The segments of a path, in order, if each may stand where it does. -/
def checkSegments (first : Bool) : List (List Char) → Option (List String)
  | [] => some []
  | segment :: rest =>
    if segment = [] ∨ segment = ".".toList ∨ segment = "..".toList then none
    else if ':' ∈ segment ∨ (first = true ∧ segment = metaDir.toList) then none
    else (checkSegments false rest).map (String.ofList segment :: ·)

/-- The components of the local path that a relative path from the network
stands for, or none if it is rejected. -/
def safeRelToLocal (rel : String) : Option (List String) :=
  if rel.toList = [] ∨ rel.toList.head? = some '/' ∨ '\\' ∈ rel.toList ∨
      rel.toList.any isControl = true then none
  else checkSegments true (rel.toList.splitOn '/')

/-! ### Names and the text of a path -/

theorem mem_splitOn {separator : Char} {text segment : List Char}
    (found : segment ∈ text.splitOn separator) :
    separator ∉ segment ∧ ∀ char ∈ segment, char ∈ text := by
  induction text generalizing segment with
  | nil =>
    obtain rfl : segment = [] := by simpa using found
    simp
  | cons first rest ih =>
    rw [List.splitOn, splitOnP_cons_eq_if_modifyHead] at found
    split_ifs at found with separates
    · rcases mem_cons.mp found with rfl | later
      · simp
      · obtain ⟨without, inside⟩ := ih later
        exact ⟨without, fun char present => mem_cons_of_mem _ (inside char present)⟩
    · obtain ⟨head, tail, split⟩ := exists_cons_of_ne_nil (splitOn_ne_nil separator rest)
      rw [show List.splitOnP (· == separator) rest = head :: tail from split,
        modifyHead_cons] at found
      have member : ∀ other ∈ head :: tail, separator ∉ other ∧ ∀ char ∈ other, char ∈ rest :=
        fun other present => ih (split ▸ present)
      rcases mem_cons.mp found with rfl | later
      · obtain ⟨without, inside⟩ := member head mem_cons_self
        have different : separator ≠ first := fun same => separates (by simp [same])
        exact ⟨by simp [different, without],
          fun char present => (mem_cons.mp present).elim (fun same => by simp [same])
            fun later => mem_cons_of_mem _ (inside char later)⟩
      · obtain ⟨without, inside⟩ := member segment (mem_cons_of_mem _ later)
        exact ⟨without, fun char present => mem_cons_of_mem _ (inside char present)⟩

/-- The text of a path: its names with slashes between them. -/
def pathText (segments : List (List Char)) : List Char := ['/'].intercalate segments

theorem pathText_singleton (segment : List Char) : pathText [segment] = segment := by
  simp [pathText]

theorem pathText_cons (first : List Char) {rest : List (List Char)} (more : rest ≠ []) :
    pathText (first :: rest) = first ++ '/' :: pathText rest := by
  simp [pathText, intercalate_cons_of_ne_nil more]

theorem not_mem_pathText {segments : List (List Char)} {char : Char} (notSlash : char ≠ '/')
    (without : ∀ segment ∈ segments, char ∉ segment) : char ∉ pathText segments := by
  induction segments with
  | nil => simp [pathText]
  | cons first rest ih =>
    have here := without first mem_cons_self
    have later := ih fun other present =>
      without other (mem_cons_of_mem _ present)
    cases rest with
    | nil => rwa [pathText_singleton]
    | cons second others =>
      rw [pathText_cons first (by simp)]
      simp [here, notSlash, later]

theorem pathText_splitOn (text : List Char) : pathText (text.splitOn '/') = text :=
  intercalate_splitOn '/'

/-- Every segment that passes is a name without a colon. -/
theorem checkSegments_names {first : Bool} {segments : List (List Char)}
    (passed : (checkSegments first segments).isSome = true) :
    ∀ segment ∈ segments, segment ≠ [] ∧ segment ≠ ".".toList ∧ segment ≠ "..".toList ∧
      ':' ∉ segment := by
  induction segments generalizing first with
  | nil => simp
  | cons head rest ih =>
    unfold checkSegments at passed
    split_ifs at passed with dots colon
    · cases passed
    · cases passed
    · push Not at dots colon
      rw [Option.isSome_map] at passed
      intro segment present
      rcases mem_cons.mp present with rfl | later
      · exact ⟨dots.1, dots.2.1, dots.2.2, colon.1⟩
      · exact ih passed segment later

end Synergos.SafePath
