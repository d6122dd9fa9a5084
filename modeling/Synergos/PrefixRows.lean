import Mathlib.Computability.Language

/-!
# Rows of prefixes

A matcher may keep one row of bits for a word: bit `n` says whether the first
`n` letters belong to a language. The row for a longer pattern is filled from
left to right out of the row before, one bit for each letter.

Appending one letter of a kind, or any number of them, is one such sweep. After
the last sweep the last bit decides the word.
-/

namespace Synergos.PrefixRows

open List

universe u
variable {α : Type u}

/-! ### Languages -/

/-- One letter of a kind. -/
def each (kind : α → Prop) : Language α := {word | ∃ letter, kind letter ∧ word = [letter]}

/-- Any number of letters of a kind. -/
def every (kind : α → Prop) : Language α := {word | ∀ letter ∈ word, kind letter}

variable (language : Language α) (kind : α → Prop) (word : List α) (letter : α)

theorem nil_mem_every : [] ∈ every kind :=
  fun _ present => absurd present not_mem_nil

theorem append_mem_mul_each :
    word ++ [letter] ∈ language * each kind ↔ word ∈ language ∧ kind letter := by
  rw [Language.mem_mul]
  constructor
  · rintro ⟨start, inside, _, ⟨last, ofKind, rfl⟩, joined⟩
    obtain ⟨rfl, same⟩ := append_inj' joined rfl
    obtain rfl : last = letter := by simpa using same
    exact ⟨inside, ofKind⟩
  · rintro ⟨inside, ofKind⟩
    exact ⟨word, inside, [letter], ⟨letter, ofKind, rfl⟩, rfl⟩

theorem nil_mem_mul_each {kind : α → Prop} :
    [] ∉ language * each kind := by
  rw [Language.mem_mul]
  rintro ⟨start, _, _, ⟨last, _, rfl⟩, joined⟩
  simp at joined

theorem append_mem_mul_every :
    word ++ [letter] ∈ language * every kind ↔
      word ++ [letter] ∈ language ∨ kind letter ∧ word ∈ language * every kind := by
  simp only [Language.mem_mul]
  constructor
  · rintro ⟨start, inside, rest, ofKind, joined⟩
    rcases eq_nil_or_concat' rest with rfl | ⟨init, last, rfl⟩
    · rw [append_nil] at joined
      exact .inl (joined ▸ inside)
    · rw [← append_assoc] at joined
      obtain ⟨rfl, same⟩ := append_inj' joined rfl
      obtain rfl : last = letter := by simpa using same
      refine .inr ⟨ofKind last (by simp), start, inside, init, ?_, rfl⟩
      exact fun other present => ofKind other (mem_append_left _ present)
  · rintro (inside | ⟨ofKind, start, inside, rest, others, rfl⟩)
    · exact ⟨_, inside, [], nil_mem_every kind, append_nil _⟩
    · refine ⟨start, inside, rest ++ [letter], ?_, (append_assoc ..).symm⟩
      intro other present
      rcases mem_append.mp present with earlier | last
      · exact others other earlier
      · exact mem_singleton.mp last ▸ ofKind

theorem nil_mem_mul_every :
    [] ∈ language * every kind ↔ [] ∈ language := by
  rw [Language.mem_mul]
  constructor
  · rintro ⟨start, inside, rest, _, joined⟩
    obtain ⟨rfl, _⟩ := append_eq_nil_iff.mp joined
    exact inside
  · intro inside
    exact ⟨[], inside, [], nil_mem_every kind, rfl⟩

/-! ### Rows -/

/-- A bit of the next row: from the two bits of the row before around a letter, the letter,
and the bit that was set last. -/
def sweep (rule : Bool → Bool → α → Bool → Bool) (before last : Bool) :
    List Bool → List α → List Bool
  | above :: row, letter :: word =>
      rule before above letter last :: sweep rule above (rule before above letter last) row word
  | _, _ => []

/-- The next row, with its first bit. -/
def fill (rule : Bool → Bool → α → Bool → Bool) (first : Bool) (row : List Bool)
    (word : List α) : List Bool :=
  first :: sweep rule (row.headD false) first row.tail word

theorem length_sweep (rule : Bool → Bool → α → Bool → Bool) (before last : Bool)
    (row : List Bool) (word : List α) :
    (sweep rule before last row word).length = min row.length word.length := by
  induction row generalizing before last word with
  | nil => simp [sweep]
  | cons above row ih =>
    cases word with
    | nil => simp [sweep]
    | cons letter word => simp [sweep, ih]

theorem getD_sweep (rule : Bool → Bool → α → Bool → Bool) (before last : Bool)
    (row : List Bool) (word : List α) (sized : row.length = word.length) {n : Nat}
    (inside : n < word.length) :
    (last :: sweep rule before last row word).getD (n + 1) false =
      rule ((before :: row).getD n false) ((before :: row).getD (n + 1) false) word[n]
        ((last :: sweep rule before last row word).getD n false) := by
  induction n generalizing before last row word with
  | zero =>
    match row, word with
    | above :: row, letter :: word => rfl
    | [], letter :: word => simp at sized
  | succ n ih =>
    match row, word with
    | above :: row, letter :: word =>
      exact ih above _ row word (by simpa using sized) (by simpa using inside)
    | [], letter :: word => simp at sized

/-- The row tells for each prefix of the word whether it belongs to the language. -/
structure Marks (language : Language α) (word : List α) (row : List Bool) : Prop where
  sized : row.length = word.length + 1
  marked : ∀ n ≤ word.length, row.getD n false = true ↔ word.take n ∈ language

/-- After the last sweep the last bit decides. -/
theorem Marks.decides {language : Language α} {word : List α} {row : List Bool}
    (marks : Marks language word row) : row.getD word.length false = true ↔ word ∈ language := by
  rw [marks.marked word.length (le_refl _), take_length]

/-- The row before the first sweep. -/
def startRow (word : List α) : List Bool := true :: List.replicate word.length false

theorem marks_start : Marks 1 word (startRow word) := by
  refine ⟨by simp [startRow], ?_⟩
  intro n inside
  rw [Language.mem_one]
  cases n with
  | zero => simp [startRow]
  | succ n =>
    have nonempty : word.take (n + 1) ≠ [] := by
      apply ne_nil_of_length_pos
      rw [length_take]
      omega
    have bit : n < word.length := inside
    simp [startRow, nonempty, bit]

section Fill

variable {language next : Language α} {word : List α} {row : List Bool}

/-- A sweep keeps the marks if its rule says how the language goes on letter by letter. -/
theorem marks_fill (marks : Marks language word row) {rule : Bool → Bool → α → Bool → Bool}
    {first : Bool} (initial : first = true ↔ [] ∈ next)
    (step : ∀ n (inside : n < word.length) before above last,
      (before = true ↔ word.take n ∈ language) →
      (above = true ↔ word.take n ++ [word[n]] ∈ language) →
      (last = true ↔ word.take n ∈ next) →
      (rule before above word[n] last = true ↔ word.take n ++ [word[n]] ∈ next)) :
    Marks next word (fill rule first row word) := by
  obtain ⟨bit, row, rfl⟩ := exists_cons_of_length_eq_add_one marks.sized
  have sized : row.length = word.length := by simpa using marks.sized
  refine ⟨by simp [fill, length_sweep, sized], ?_⟩
  intro n
  induction n with
  | zero =>
    intro _
    exact initial
  | succ n ih =>
    intro bound
    have inside : n < word.length := bound
    rw [fill, headD_cons, tail_cons, getD_sweep rule bit first row word sized inside,
      take_succ_eq_append_getElem inside]
    refine step n inside _ _ _ (marks.marked n inside.le) ?_ (ih inside.le)
    rw [← take_succ_eq_append_getElem inside]
    exact marks.marked (n + 1) bound

/-- One more letter of a kind. -/
theorem marks_each (marks : Marks language word row) (kind : α → Bool) :
    Marks (language * each fun letter => kind letter = true) word
      (fill (fun before _ letter _ => before && kind letter) false row word) := by
  refine marks_fill marks ?_ ?_
  · simpa using nil_mem_mul_each language
  · intro n inside before above last earlier _ _
    rw [append_mem_mul_each, Bool.and_eq_true, earlier]

/-- Any number of letters of a kind. -/
theorem marks_every (marks : Marks language word row) (kind : α → Bool) :
    Marks (language * every fun letter => kind letter = true) word
      (fill (fun _ above letter last => above || (kind letter && last)) (row.getD 0 false) row
        word) := by
  refine marks_fill marks ?_ ?_
  · rw [nil_mem_mul_every]
    exact marks.marked 0 (Nat.zero_le _)
  · intro n inside before above last _ same earlier
    rw [append_mem_mul_every, Bool.or_eq_true, Bool.and_eq_true, same, earlier]

end Fill

end Synergos.PrefixRows
