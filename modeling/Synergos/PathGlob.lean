import Mathlib
import Synergos.PrefixRows

/-!
# Patterns for paths

Hooks and ignore files choose paths by patterns. A pattern is cut into tokens,
and a row of bits for the path is swept once for each token.

The slash of a `**` that is followed by one is swallowed with it, so that `a/**/b`
also matches `a/b`. The matcher forgets that slash, and the two stars then
match part of a name as well: `**/build` matches `rebuild`. The other elements mean
what the documentation says.
-/

namespace Synergos.PathGlob

open PrefixRows List

/-! ### The matcher -/

inductive Token where
  | literal (char : Char)
  | one
  | star
  | globStar
  deriving DecidableEq, Repr

def tokenize : List Char → List Token
  | [] => []
  | '*' :: '*' :: '/' :: rest => .globStar :: tokenize rest
  | '*' :: '*' :: rest => .globStar :: tokenize rest
  | '*' :: rest => .star :: tokenize rest
  | '?' :: rest => .one :: tokenize rest
  | char :: rest => .literal char :: tokenize rest

/-- The row after one more token. -/
def nextRow (path : List Char) (previous : List Bool) : Token → List Bool
  | .literal expected =>
      fill (fun before _ char _ => before && char == expected) false previous path
  | .one => fill (fun before _ char _ => before && char != '/') false previous path
  | .star =>
      fill (fun _ above char last => above || (char != '/' && last)) (previous.getD 0 false)
        previous path
  | .globStar => fill (fun _ above _ last => above || last) (previous.getD 0 false) previous path

def globMatch (pattern path : String) : Bool :=
  ((tokenize pattern.toList).foldl (nextRow path.toList) (startRow path.toList)).getD
    path.toList.length false

/-! ### What a pattern stands for -/

/-- The elements of a pattern; `levels` is a `**` with the slash behind it. -/
inductive Element where
  | literal (char : Char)
  | one
  | star
  | anything
  | levels
  deriving DecidableEq, Repr

def elements : List Char → List Element
  | [] => []
  | '*' :: '*' :: '/' :: rest => .levels :: elements rest
  | '*' :: '*' :: rest => .anything :: elements rest
  | '*' :: rest => .star :: elements rest
  | '?' :: rest => .one :: elements rest
  | char :: rest => .literal char :: elements rest

/-- The pieces that an element matches; `**` with a slash matches whole levels. -/
def Element.language : Element → Language Char
  | .literal expected => each (· = expected)
  | .one => each (· ≠ '/')
  | .star => every (· ≠ '/')
  | .anything => every fun _ => True
  | .levels => {piece | piece = [] ∨ piece.getLast? = some '/'}

/-- The same with a `**` that takes any piece, be there a slash behind it or not. -/
def Element.loosely : Element → Language Char
  | .levels => every fun _ => True
  | element => element.language

/-- The path can be split into pieces that match the elements in order. -/
def Documented (pattern path : String) : Prop :=
  path.toList ∈ ((elements pattern.toList).map Element.language).prod

/-- The path can be split so that each element but a `**` matches its piece. -/
def Loosely (pattern path : String) : Prop :=
  path.toList ∈ ((elements pattern.toList).map Element.loosely).prod

/-- The path can be split, but only so that a `**` with a slash behind it takes a piece that
ends within a name. -/
def EndsWithinName (pattern path : String) : Prop :=
  Loosely pattern path ∧ ¬ Documented pattern path

/-! ### The matcher against the pieces -/

def Element.token : Element → Token
  | .literal expected => .literal expected
  | .one => .one
  | .star => .star
  | .anything | .levels => .globStar

theorem tokenize_eq (pattern : List Char) :
    tokenize pattern = (elements pattern).map Element.token := by
  fun_induction elements pattern with
  | case1 => rfl
  | case2 rest ih => simp [tokenize, Element.token, ih]
  | case3 rest noSlash ih =>
    rw [tokenize, map_cons, ih, Element.token]
    exact noSlash
  | case4 rest _ _ ih => simp_all [tokenize, Element.token]
  | case5 rest ih => simp [tokenize, Element.token, ih]
  | case6 char rest _ _ _ _ ih => simp_all [tokenize, Element.token]

variable {list : List Element} {pattern : String} {path : List Char} {language : Language Char}

/-- One sweep appends the pieces of one element. -/
theorem marks_next {row : List Bool} (marks : Marks language path row) (element : Element) :
    Marks (language * element.loosely) path (nextRow path row element.token) := by
  cases element with
  | literal expected =>
    have swept := marks_each marks (· == expected)
    simp only [beq_iff_eq] at swept
    exact swept
  | one =>
    have swept := marks_each marks (· != '/')
    simp only [bne_iff_ne] at swept
    exact swept
  | star =>
    have swept := marks_every marks (· != '/')
    simp only [bne_iff_ne] at swept
    exact swept
  | anything | levels =>
    have swept := marks_every marks fun _ => true
    simp only [Bool.true_and] at swept
    exact swept

/-- The sweeps for a list of elements append their pieces in order. -/
theorem marks_elements (list : List Element) {row : List Bool} (marks : Marks language path row) :
    Marks (language * (list.map Element.loosely).prod) path
      ((list.map Element.token).foldl (nextRow path) row) := by
  induction list generalizing language row with
  | nil => simpa using marks
  | cons element rest ih =>
    rw [map_cons, map_cons, prod_cons, foldl_cons, ← mul_assoc]
    exact ih (marks_next marks element)

/-- The matcher decides whether the path can be split, with a `**` that takes any piece. -/
theorem globMatch_iff_loosely (pattern path : String) :
    globMatch pattern path = true ↔ Loosely pattern path := by
  rw [globMatch, Loosely, tokenize_eq, (marks_elements (elements pattern.toList) (marks_start path.toList)).decides,
    one_mul]

/-! ### Whole levels -/

theorem language_le_loosely (element : Element) : element.language ≤ element.loosely := by
  cases element with
  | levels => exact fun _ _ _ _ => trivial
  | _ => exact le_refl _

theorem prod_language_le : (list.map Element.language).prod ≤ (list.map Element.loosely).prod := by
  induction list with
  | nil => exact le_refl _
  | cons element rest ih =>
    rw [map_cons, map_cons, prod_cons, prod_cons]
    exact mul_le_mul' (language_le_loosely element) ih

/-- A path that the documentation lets match is matched. -/
theorem globMatch_of_documented {path : String} (documented : Documented pattern path) :
    globMatch pattern path = true :=
  (globMatch_iff_loosely pattern path).mpr (prod_language_le documented)

/-- The matcher decides the documented language on a path exactly if the path cannot be split
only with a `**` that ends within a name. -/
theorem globMatch_documented_iff (pattern path : String) :
    (globMatch pattern path = true ↔ Documented pattern path) ↔
      ¬ EndsWithinName pattern path := by
  rw [globMatch_iff_loosely, EndsWithinName, not_and_not_right]
  exact ⟨fun agree => agree.mp,
    fun strict => ⟨strict, fun documented => prod_language_le documented⟩⟩

theorem mem_literals (chars word : List Char) :
    word ∈ (chars.map fun char => (Element.literal char).language).prod ↔ word = chars := by
  induction chars generalizing word with
  | nil => exact Language.mem_one word
  | cons char rest ih =>
    rw [map_cons, prod_cons, Language.mem_mul]
    constructor
    · rintro ⟨_, ⟨first, rfl, rfl⟩, last, others, rfl⟩
      rw [(ih last).mp others]
      rfl
    · rintro rfl
      exact ⟨[char], ⟨char, rfl, rfl⟩, rest, (ih rest).mpr rfl, rfl⟩

/-- A pattern for a directory at any level matches a name that only ends like it. -/
theorem build_matches_rebuild :
    globMatch "**/build" "rebuild" = true ∧ ¬ Documented "**/build" "rebuild" := by
  refine ⟨by decide +kernel, ?_⟩
  intro documented
  obtain ⟨levels, whole, name, literal, joined⟩ := Language.mem_mul.mp documented
  obtain rfl : name = "build".toList := (mem_literals "build".toList name).mp literal
  obtain rfl : levels = "re".toList := (append_inj' joined rfl).1
  rcases whole with empty | slash
  · exact absurd empty (by decide)
  · exact absurd slash (by decide)

/-! ### Patterns as in the documentation -/

/-- Every `**` with a slash behind it is followed by a star, as in `assets/**/*.png`. -/
def starFollows : List Element → Bool
  | [] => true
  | [.levels] => false
  | .levels :: next :: rest => (next = .star || next = .anything) && starFollows (next :: rest)
  | _ :: rest => starFollows rest

/-- Any text is whole levels and then part of one name. -/
theorem exists_levels (text : List Char) :
    ∃ levels name, text = levels ++ name ∧ (levels = [] ∨ levels.getLast? = some '/') ∧
      ∀ char ∈ name, char ≠ '/' := by
  induction text using List.reverseRecOn with
  | nil => exact ⟨[], [], rfl, .inl rfl, by simp⟩
  | append_singleton text last ih =>
    by_cases slash : last = '/'
    · exact ⟨text ++ [last], [], (append_nil _).symm, .inr (by simp [slash]), by simp⟩
    · obtain ⟨levels, name, rfl, whole, within⟩ := ih
      refine ⟨levels, name ++ [last], append_assoc .., whole, ?_⟩
      intro char present
      rcases mem_append.mp present with earlier | final
      · exact within char earlier
      · exact mem_singleton.mp final ▸ slash

/-- Before a star, whole levels are as good as any text. -/
theorem anything_mul_le {next : Element} (star : next = .star ∨ next = .anything) :
    Element.levels.loosely * next.language ≤ Element.levels.language * next.language := by
  rintro _ ⟨text, _, rest, within, rfl⟩
  rcases star with rfl | rfl
  · obtain ⟨levels, name, rfl, whole, noSlash⟩ := exists_levels text
    refine ⟨levels, whole, name ++ rest, ?_, (append_assoc ..).symm⟩
    intro char present
    exact (mem_append.mp present).elim (noSlash char) (within char)
  · exact ⟨[], .inl rfl, text ++ rest, fun _ _ => trivial, rfl⟩

theorem prod_loosely_le (follows : starFollows list = true) :
    (list.map Element.loosely).prod ≤ (list.map Element.language).prod := by
  fun_induction starFollows list with
  | case1 => exact le_refl _
  | case2 => cases follows
  | case3 next rest ih =>
    simp only [Bool.and_eq_true, Bool.or_eq_true, decide_eq_true_eq] at follows
    obtain ⟨star, later⟩ := follows
    have smaller := ih later
    simp only [map_cons, prod_cons] at smaller ⊢
    calc Element.levels.loosely * (next.loosely * (rest.map Element.loosely).prod)
        ≤ Element.levels.loosely * (next.language * (rest.map Element.language).prod) :=
          mul_le_mul' (le_refl _) smaller
      _ = Element.levels.loosely * next.language * (rest.map Element.language).prod :=
          (mul_assoc ..).symm
      _ ≤ Element.levels.language * next.language * (rest.map Element.language).prod :=
          mul_le_mul' (anything_mul_le star) (le_refl _)
      _ = Element.levels.language * (next.language * (rest.map Element.language).prod) :=
          mul_assoc ..
  | case4 element rest notLast notLevels ih =>
    have same : element.loosely = element.language := by
      cases element with
      | levels =>
        cases rest with
        | nil => exact (notLast rfl rfl).elim
        | cons next later => exact (notLevels next later rfl rfl).elim
      | _ => rfl
    rw [map_cons, map_cons, prod_cons, prod_cons, same]
    exact mul_le_mul' (le_refl _) (ih follows)

/-- With a star after each `**` that has a slash, the matcher decides the documented language. -/
theorem globMatch_iff_documented (follows : starFollows (elements pattern.toList) = true)
    (path : String) :
    globMatch pattern path = true ↔ Documented pattern path := by
  rw [globMatch_iff_loosely]
  exact ⟨fun loosely => prod_loosely_le follows loosely,
    fun documented => prod_language_le documented⟩

theorem png_as_documented : globMatch "assets/**/*.png" "assets/a/b.png" = true ↔
    Documented "assets/**/*.png" "assets/a/b.png" :=
  globMatch_iff_documented (by decide +kernel) _

end Synergos.PathGlob
