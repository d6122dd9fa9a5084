import Mathlib

/-!
# JSON values and their compact text

A JSON value keeps the members of an object in the order in which they were
written. The writer emits the compact form: no white space, the two-character
escapes where they exist, the six-character escape for every other control
character, and integers in decimal. The reader is a recursive descent over the
characters with an explicit bound on the descent; a bound larger than the text
is always enough.

The round trip says that reading the compact text of a value gives back that
value, for every value without a fractional number. Fractional numbers carry no
payload: their text is not modelled and they are excluded where it matters.
-/

namespace Synergos.JsonText

open List
open String (ofList utf8Len utf8Len_append utf8Len_cons utf8ByteSize_ofList)

/-- A JSON document. A number with a fraction or an exponent is kept only as
the fact that one was read. -/
inductive Json where
  | null
  | bool (value : Bool)
  | int (value : Int)
  | real
  | str (text : String)
  | arr (items : List Json)
  | obj (members : List (String × Json))

namespace Json

/-- The first member with the given name; anything but an object has none. -/
def get? (name : String) : Json → Option Json
  | .obj members => (members.find? (fun member => member.1 = name)).map Prod.snd
  | _ => none

/-- Number of members of an object, zero for every other value. -/
def size : Json → Nat
  | .obj members => members.length
  | _ => 0

end Json

/-- A member that is found stands in the list. -/
theorem mem_of_get? {members : List (String × Json)} {name : String} {value : Json}
    (found : (Json.obj members).get? name = some value) : (name, value) ∈ members := by
  simp only [Json.get?, Option.map_eq_some_iff] at found
  obtain ⟨member, located, rfl⟩ := found
  have named : member.1 = name := by simpa using List.find?_some located
  rw [← named]
  exact mem_of_find?_eq_some located

theorem obj_of_get? {value member : Json} {name : String}
    (found : value.get? name = some member) : ∃ members, value = .obj members := by
  cases value with
  | obj members => exact ⟨members, rfl⟩
  | null | bool | int | real | str | arr => simp [Json.get?] at found

mutual

/-- No fractional number occurs anywhere in the value. -/
def integral : Json → Bool
  | .real => false
  | .arr items => integralItems items
  | .obj members => integralMembers members
  | _ => true

def integralItems : List Json → Bool
  | [] => true
  | item :: rest => integral item && integralItems rest

def integralMembers : List (String × Json) → Bool
  | [] => true
  | (_, value) :: rest => integral value && integralMembers rest

end

/-- One lowercase hexadecimal digit. -/
def hexDigit (n : Nat) : Char := Nat.digitChar n

/-- The escape of one character inside a string. -/
def escape (c : Char) : List Char :=
  if c = '"' then ['\\', '"']
  else if c = '\\' then ['\\', '\\']
  else if c.toNat = 0x08 then ['\\', 'b']
  else if c.toNat = 0x09 then ['\\', 't']
  else if c.toNat = 0x0a then ['\\', 'n']
  else if c.toNat = 0x0c then ['\\', 'f']
  else if c.toNat = 0x0d then ['\\', 'r']
  else if c.toNat < 0x20 then
    ['\\', 'u', '0', '0', hexDigit (c.toNat / 16), hexDigit (c.toNat % 16)]
  else [c]

/-- A quoted string. -/
def quoted (text : String) : List Char :=
  '"' :: (text.toList.flatMap escape ++ ['"'])

mutual

/-- The compact text of a value, members in their stored order. -/
def render : Json → List Char
  | .null => ['n', 'u', 'l', 'l']
  | .bool true => ['t', 'r', 'u', 'e']
  | .bool false => ['f', 'a', 'l', 's', 'e']
  | .int value => (toString value).toList
  | .real => []
  | .str text => quoted text
  | .arr items => '[' :: (renderItems items ++ [']'])
  | .obj members => '{' :: (renderMembers members ++ ['}'])

def renderItems : List Json → List Char
  | [] => []
  | item :: rest => render item ++ renderMoreItems rest

def renderMoreItems : List Json → List Char
  | [] => []
  | item :: rest => ',' :: (render item ++ renderMoreItems rest)

def renderMembers : List (String × Json) → List Char
  | [] => []
  | (name, value) :: rest => quoted name ++ ':' :: (render value ++ renderMoreMembers rest)

def renderMoreMembers : List (String × Json) → List Char
  | [] => []
  | (name, value) :: rest =>
    ',' :: (quoted name ++ ':' :: (render value ++ renderMoreMembers rest))

end

/-- The value of one hexadecimal digit in either case. -/
def hexValue (c : Char) : Option Nat :=
  if '0' ≤ c ∧ c ≤ '9' then some (c.toNat - '0'.toNat)
  else if 'a' ≤ c ∧ c ≤ 'f' then some (c.toNat - 'a'.toNat + 10)
  else if 'A' ≤ c ∧ c ≤ 'F' then some (c.toNat - 'A'.toNat + 10)
  else none

/-- The character named by a two-character escape. -/
def unescape (c : Char) : Option Char :=
  if c = '"' ∨ c = '\\' ∨ c = '/' then some c
  else if c = 'b' then some (Char.ofNat 0x08)
  else if c = 't' then some (Char.ofNat 0x09)
  else if c = 'n' then some (Char.ofNat 0x0a)
  else if c = 'f' then some (Char.ofNat 0x0c)
  else if c = 'r' then some (Char.ofNat 0x0d)
  else none

/-- The character named by four hexadecimal digits outside the surrogates. -/
def fourHex (a b c d : Char) : Option Char := do
  let a ← hexValue a
  let b ← hexValue b
  let c ← hexValue c
  let d ← hexValue d
  let code := ((a * 16 + b) * 16 + c) * 16 + d
  if 0xd800 ≤ code ∧ code ≤ 0xdfff then none else some (Char.ofNat code)

/-- The characters of a string up to its closing quotation mark. -/
def parseChars : List Char → Option (List Char × List Char)
  | '"' :: rest => some ([], rest)
  | '\\' :: 'u' :: a :: b :: c :: d :: rest => do
    let first ← fourHex a b c d
    let (chars, rest) ← parseChars rest
    some (first :: chars, rest)
  | '\\' :: c :: rest => do
    let first ← unescape c
    let (chars, rest) ← parseChars rest
    some (first :: chars, rest)
  | c :: rest =>
    if c.toNat < 0x20 ∨ c = '\\' then none
    else do
      let (chars, rest) ← parseChars rest
      some (c :: chars, rest)
  | [] => none

/-- A decimal number: an optional sign and at least one digit. -/
def parseInt (text : List Char) : Option (Int × List Char) :=
  match text with
  | '-' :: rest =>
    if (rest.takeWhile Char.isDigit).isEmpty then none
    else some (-(Nat.ofDigitChars 10 (rest.takeWhile Char.isDigit) 0 : Int),
      rest.dropWhile Char.isDigit)
  | _ =>
    if (text.takeWhile Char.isDigit).isEmpty then none
    else some ((Nat.ofDigitChars 10 (text.takeWhile Char.isDigit) 0 : Int),
      text.dropWhile Char.isDigit)

mutual

/-- Read one value from the front of the text. -/
def parseValue : Nat → List Char → Option (Json × List Char)
  | 0, _ => none
  | fuel + 1, text =>
    match text with
    | 'n' :: 'u' :: 'l' :: 'l' :: rest => some (.null, rest)
    | 't' :: 'r' :: 'u' :: 'e' :: rest => some (.bool true, rest)
    | 'f' :: 'a' :: 'l' :: 's' :: 'e' :: rest => some (.bool false, rest)
    | '"' :: rest => (parseChars rest).map (fun read => (.str (ofList read.1), read.2))
    | '[' :: ']' :: rest => some (.arr [], rest)
    | '[' :: rest => (parseItems fuel rest).map (fun read => (.arr read.1, read.2))
    | '{' :: '}' :: rest => some (.obj [], rest)
    | '{' :: rest => (parseMembers fuel rest).map (fun read => (.obj read.1, read.2))
    | _ => (parseInt text).map (fun read => (.int read.1, read.2))

/-- Read the remaining items of an array and its closing bracket. -/
def parseItems : Nat → List Char → Option (List Json × List Char)
  | 0, _ => none
  | fuel + 1, text => do
    let (item, rest) ← parseValue fuel text
    match rest with
    | ',' :: rest => do
      let (items, rest) ← parseItems fuel rest
      some (item :: items, rest)
    | ']' :: rest => some ([item], rest)
    | _ => none

/-- Read the remaining members of an object and its closing brace. -/
def parseMembers : Nat → List Char → Option (List (String × Json) × List Char)
  | 0, _ => none
  | fuel + 1, text => do
    match text with
    | '"' :: rest => do
      let (name, rest) ← parseChars rest
      match rest with
      | ':' :: rest => do
        let (value, rest) ← parseValue fuel rest
        match rest with
        | ',' :: rest => do
          let (members, rest) ← parseMembers fuel rest
          some ((ofList name, value) :: members, rest)
        | '}' :: rest => some ([(ofList name, value)], rest)
        | _ => none
      | _ => none
    | _ => none

end

/-- Read a whole text; trailing characters are refused. -/
def read (text : String) : Option Json :=
  match parseValue (text.toList.length + 1) text.toList with
  | some (value, []) => some value
  | _ => none

/-- Every control character survives its escape. -/
theorem fourHex_control {n : Nat} (control : n < 0x20) :
    fourHex '0' '0' (hexDigit (n / 16)) (hexDigit (n % 16)) = some (Char.ofNat n) := by
  have all : ∀ n : Fin 0x20, fourHex '0' '0' (hexDigit (n.val / 16)) (hexDigit (n.val % 16)) =
      some (Char.ofNat n.val) := by decide
  exact all ⟨n, control⟩

variable (c : Char) (fuel : Nat) (n : Int) (tail rest : List Char)

/-- Reading back the escape of one character gives that character; what follows
is read independently. -/
theorem parseChars_escape :
    parseChars (escape c ++ rest) =
      (parseChars rest).bind (fun read => some (c :: read.1, read.2)) := by
  have same (n : Nat) (code : c.toNat = n) : c = Char.ofNat n := by
    rw [← code, Char.ofNat_toNat]
  unfold escape
  split_ifs with quote backslash b t n f r control
  · subst quote
    rfl
  · subst backslash
    rfl
  · obtain rfl := same 0x08 b
    rfl
  · obtain rfl := same 0x09 t
    rfl
  · obtain rfl := same 0x0a n
    rfl
  · obtain rfl := same 0x0c f
    rfl
  · obtain rfl := same 0x0d r
    rfl
  · have decoded := fourHex_control control
    rw [Char.ofNat_toNat] at decoded
    simp [parseChars, decoded]
  · simp [parseChars, backslash, control]

/-- A quoted string is read back up to its closing quotation mark. -/
theorem parseChars_quoted (chars rest : List Char) :
    parseChars (chars.flatMap escape ++ '"' :: rest) = some (chars, rest) := by
  induction chars with
  | nil => rfl
  | cons c chars ih =>
    rw [flatMap_cons, append_assoc, parseChars_escape, ih]
    rfl

/-- What may follow a value inside a document: nothing, or a delimiter. -/
def Delimited (rest : List Char) : Prop :=
  ∀ c tail, rest = c :: tail → c.isDigit = false

theorem delimited_nil : Delimited [] := by
  intro c tail impossible
  simp at impossible

theorem delimited_cons (delimiter : c.isDigit = false) :
    Delimited (c :: tail) := by
  intro first rest same
  obtain ⟨rfl, rfl⟩ := cons.inj same
  exact delimiter

/-- A run of digits before a delimiter is taken whole. -/
theorem takeWhile_digits (digits rest : List Char) (all : ∀ c ∈ digits, c.isDigit = true)
    (delimited : Delimited rest) :
    (digits ++ rest).takeWhile Char.isDigit = digits ∧
      (digits ++ rest).dropWhile Char.isDigit = rest := by
  induction digits with
  | nil =>
    cases rest with
    | nil => simp
    | cons c tail => simp [delimited c tail rfl]
  | cons c digits ih =>
    have first : c.isDigit = true := all c (by simp)
    have tail := ih fun d member => all d (by simp [member])
    simpa [first] using tail

/-- Decimal digits are read back. -/
theorem natDigits (n : Nat) :
    (∀ c ∈ n.repr.toList, c.isDigit = true) ∧ n.repr.toList ≠ [] ∧
      Nat.ofDigitChars 10 n.repr.toList 0 = n := by
  have digits : n.repr.toList = Nat.toDigits 10 n := by simp [Nat.repr]
  rw [digits]
  refine ⟨fun c member => Nat.isDigit_of_mem_toDigits (by decide) (by decide) member, ?_, ?_⟩
  · exact Nat.toDigits_ne_nil
  · exact Nat.ofDigitChars_toDigits (by decide) (by decide)

/-- A decimal number before a delimiter is read back. -/
theorem parseInt_toString (delimited : Delimited rest) :
    parseInt ((toString n).toList ++ rest) = some (n, rest) := by
  cases n with
  | ofNat m =>
    obtain ⟨digits, nonempty, value⟩ := natDigits m
    have text : (toString (Int.ofNat m)).toList = m.repr.toList := rfl
    obtain ⟨taken, dropped⟩ := takeWhile_digits m.repr.toList rest digits delimited
    have unsigned : parseInt (m.repr.toList ++ rest) =
        if ((m.repr.toList ++ rest).takeWhile Char.isDigit).isEmpty then none
        else some ((Nat.ofDigitChars 10 ((m.repr.toList ++ rest).takeWhile Char.isDigit) 0 : Int),
          (m.repr.toList ++ rest).dropWhile Char.isDigit) := by
      cases shape : m.repr.toList with
      | nil => exact False.elim (nonempty shape)
      | cons c tail =>
        have notMinus : c ≠ '-' := by
          rintro rfl
          have := digits '-' (by simp [shape])
          exact absurd this (by decide)
        unfold parseInt
        split
        · rename_i found
          simp only [cons_append, cons.injEq] at found
          exact False.elim (notMinus found.1)
        · rfl
    rw [text, unsigned, taken, dropped, value]
    simp
  | negSucc m =>
    obtain ⟨digits, nonempty, value⟩ := natDigits (m + 1)
    have text : (toString (Int.negSucc m)).toList = '-' :: (m + 1).repr.toList := by
      change ("-" ++ (m + 1).repr).toList = _
      rw [String.toList_append]
      rfl
    obtain ⟨taken, dropped⟩ := takeWhile_digits (m + 1).repr.toList rest digits delimited
    rw [text]
    simp only [cons_append, parseInt, taken, dropped, value]
    simp only [nonempty, List.isEmpty_iff, if_false]
    rfl

/-- A number's text starts with a digit or a sign. -/
theorem toString_first :
    ∃ c tail, (toString n).toList = c :: tail ∧ (c.isDigit = true ∨ c = '-') := by
  cases n with
  | ofNat m =>
    obtain ⟨digits, nonempty, _⟩ := natDigits m
    obtain ⟨c, tail, shape⟩ := exists_cons_of_ne_nil nonempty
    exact ⟨c, tail, shape, .inl (digits c (by simp [shape]))⟩
  | negSucc m =>
    refine ⟨'-', (m + 1).repr.toList, ?_, .inr rfl⟩
    change ("-" ++ (m + 1).repr).toList = _
    rw [String.toList_append]
    rfl

/-- A number is not mistaken for any other kind of value. -/
theorem parseValue_int (delimited : Delimited rest) :
    parseValue (fuel + 1) ((toString n).toList ++ rest) = some (.int n, rest) := by
  have read := parseInt_toString n rest delimited
  obtain ⟨c, tail, shape, numeric⟩ := toString_first n
  rw [shape] at read ⊢
  have other (d : Char) (digit : d.isDigit = false) (sign : d ≠ '-') : c ≠ d := by
    rintro rfl
    rcases numeric with isDigit | isSign
    · simp [digit] at isDigit
    · exact sign isSign
  simp only [cons_append] at read ⊢
  unfold parseValue
  split <;> simp_all

/-- No value's text starts with the bracket that closes an array. -/
theorem render_first {value : Json} (whole : integral value = true) :
    ∃ c tail, render value = c :: tail ∧ c ≠ ']' := by
  match value with
  | .null => exact ⟨_, _, rfl, by decide⟩
  | .bool true => exact ⟨_, _, rfl, by decide⟩
  | .bool false => exact ⟨_, _, rfl, by decide⟩
  | .int n =>
    obtain ⟨c, tail, shape, numeric⟩ := toString_first n
    refine ⟨c, tail, shape, ?_⟩
    rintro rfl
    rcases numeric with isDigit | isSign
    · exact absurd isDigit (by decide)
    · exact absurd isSign (by decide)
  | .real => simp [integral] at whole
  | .str text => exact ⟨_, _, rfl, by decide⟩
  | .arr items => exact ⟨_, _, rfl, by decide⟩
  | .obj members => exact ⟨_, _, rfl, by decide⟩

/-- Skipping the empty array: a bracket followed by anything but its closing
bracket opens a list of items. -/
theorem parseValue_items {c : Char} {tail : List Char} (nonempty : c ≠ ']') :
    parseValue (fuel + 1) ('[' :: c :: tail) =
      (parseItems fuel (c :: tail)).map (fun read => (.arr read.1, read.2)) := by
  unfold parseValue
  split <;> simp_all

/-- An opening brace followed by a quotation mark opens a list of members. -/
theorem parseValue_members :
    parseValue (fuel + 1) ('{' :: '"' :: tail) =
      (parseMembers fuel ('"' :: tail)).map (fun read => (.obj read.1, read.2)) := by
  unfold parseValue
  split <;> simp_all

mutual

/-- Reading the compact text of a value gives the value back, with whatever
follows it left unread. Every nested value is strictly shorter than the text it
stands in, so a bound above the text's length is enough. -/
theorem parseValue_render (value : Json) (whole : integral value = true) (fuel : Nat)
    (enough : (render value).length < fuel) (rest : List Char) (delimited : Delimited rest) :
    parseValue fuel (render value ++ rest) = some (value, rest) := by
  obtain ⟨fuel, rfl⟩ : ∃ more, fuel = more + 1 := ⟨fuel - 1, by omega⟩
  match value with
  | .null => rfl
  | .bool true => rfl
  | .bool false => rfl
  | .int n => exact parseValue_int fuel n rest delimited
  | .real => simp [integral] at whole
  | .str text =>
    simp [render, quoted, parseValue, parseChars_quoted, String.ofList_toList]
  | .arr [] => rfl
  | .arr (item :: items) =>
    simp only [integral, integralItems, Bool.and_eq_true] at whole
    simp only [render, renderItems, length_cons, length_append, length_nil] at enough
    have tail := parseItems_render item items whole.1 whole.2 fuel
      (by simp only [length_append]; omega) rest
    obtain ⟨c, text, first, nonempty⟩ := render_first whole.1
    have shape : render (.arr (item :: items)) ++ rest =
        '[' :: c :: (text ++ (renderMoreItems items ++ ']' :: rest)) := by
      simp [render, renderItems, first]
    rw [first] at tail
    simp only [cons_append] at tail
    rw [shape, parseValue_items fuel nonempty, tail]
    rfl
  | .obj [] => rfl
  | .obj ((name, value) :: members) =>
    simp only [integral, integralMembers, Bool.and_eq_true] at whole
    simp only [render, renderMembers, length_cons, length_append, length_nil] at enough
    have tail := parseMembers_render name value members whole.1 whole.2 fuel
      (by simp only [length_append, length_cons]; omega) rest
    have shape : render (.obj ((name, value) :: members)) ++ rest =
        '{' :: '"' :: (name.toList.flatMap escape ++ '"' :: ':' ::
          (render value ++ (renderMoreMembers members ++ '}' :: rest))) := by
      simp [render, renderMembers, quoted]
    simp only [quoted, cons_append, append_assoc, nil_append] at tail
    rw [shape, parseValue_members, tail]
    rfl
termination_by fuel
decreasing_by all_goals omega

theorem parseItems_render (item : Json) (items : List Json) (whole : integral item = true)
    (others : integralItems items = true) (fuel : Nat)
    (enough : (render item ++ renderMoreItems items).length + 1 < fuel) (rest : List Char) :
    parseItems fuel (render item ++ (renderMoreItems items ++ ']' :: rest)) =
      some (item :: items, rest) := by
  obtain ⟨fuel, rfl⟩ : ∃ more, fuel = more + 1 := ⟨fuel - 1, by omega⟩
  simp only [length_append] at enough
  match items with
  | [] =>
    have first := parseValue_render item whole fuel (by omega) (']' :: rest)
      (delimited_cons ']' rest (by decide))
    simp [parseItems, renderMoreItems, first]
  | next :: items =>
    simp only [integralItems, Bool.and_eq_true] at others
    simp only [renderMoreItems, length_cons, length_append] at enough
    have tail := parseItems_render next items others.1 others.2 fuel
      (by simp only [length_append]; omega) rest
    have first := parseValue_render item whole fuel (by omega)
      (',' :: (render next ++ (renderMoreItems items ++ ']' :: rest)))
      (delimited_cons ',' _ (by decide))
    simp [parseItems, renderMoreItems, first, tail]
termination_by fuel
decreasing_by all_goals omega

theorem parseMembers_render (name : String) (value : Json) (members : List (String × Json))
    (whole : integral value = true) (others : integralMembers members = true) (fuel : Nat)
    (enough : (quoted name ++ ':' :: (render value ++ renderMoreMembers members)).length + 1 < fuel)
    (rest : List Char) :
    parseMembers fuel (quoted name ++ ':' :: (render value ++
        (renderMoreMembers members ++ '}' :: rest))) =
      some ((name, value) :: members, rest) := by
  obtain ⟨fuel, rfl⟩ : ∃ more, fuel = more + 1 := ⟨fuel - 1, by omega⟩
  simp only [length_append, length_cons] at enough
  match members with
  | [] =>
    have first := parseValue_render value whole fuel (by omega) ('}' :: rest)
      (delimited_cons '}' rest (by decide))
    simp [parseMembers, renderMoreMembers, quoted, parseChars_quoted, first]
  | (next, nextValue) :: members =>
    simp only [integralMembers, Bool.and_eq_true] at others
    simp only [renderMoreMembers, length_cons, length_append] at enough
    have tail := parseMembers_render next nextValue members others.1 others.2 fuel
      (by simp only [length_append, length_cons]; omega) rest
    have first := parseValue_render value whole fuel (by omega)
      (',' :: (quoted next ++ ':' :: (render nextValue ++ (renderMoreMembers members ++ '}' :: rest))))
      (delimited_cons ',' _ (by decide))
    simp only [quoted, cons_append, append_assoc, nil_append] at tail first ⊢
    simp [parseMembers, renderMoreMembers, quoted, parseChars_quoted, first, tail]
termination_by fuel
decreasing_by all_goals omega

end

/-- The reader inverts the writer on every value without fractional numbers. -/
theorem read_render (value : Json) (whole : integral value = true) :
    read (ofList (render value)) = some value := by
  have parsed := parseValue_render value whole ((render value).length + 1) (by omega) []
    delimited_nil
  simp only [append_nil] at parsed
  simp [read, String.toList_ofList, parsed]

/-! ## Size -/

mutual

/-- A bound on the bytes of the compact text, from the sizes of the strings. -/
def weight : Json → Nat
  | .int value => (toString value).utf8ByteSize
  | .str text => 6 * text.utf8ByteSize + 2
  | .arr items => weightItems items + 2
  | .obj members => weightMembers members + 2
  | _ => 5

def weightItems : List Json → Nat
  | [] => 0
  | item :: rest => weight item + 1 + weightItems rest

def weightMembers : List (String × Json) → Nat
  | [] => 0
  | (name, value) :: rest => 6 * name.utf8ByteSize + 4 + weight value + weightMembers rest

end

theorem utf8Size_ascii (c : Char) (small : c.toNat < 128) : c.utf8Size = 1 := by
  have value : c.val.toNat ≤ 127 := Nat.le_of_lt_succ small
  unfold Char.utf8Size
  exact if_pos (UInt32.le_iff_toNat_le.mpr value)

/-- An escape has at most six characters, all of them ASCII. -/
theorem utf8Len_escape (c : Char) : utf8Len (escape c) ≤ 6 * c.utf8Size := by
  have least := c.utf8Size_pos
  have digit (n : Nat) (small : n < 16) : (hexDigit n).utf8Size = 1 := by
    have table : ∀ i : Fin 16, (hexDigit i).utf8Size = 1 := by decide
    exact table ⟨n, small⟩
  have short (first second : Char) (a : first.toNat < 128) (b : second.toNat < 128) :
      utf8Len [first, second] ≤ 6 * c.utf8Size := by
    simp only [utf8Len, utf8Size_ascii first a, utf8Size_ascii second b]
    omega
  unfold escape
  split_ifs with quote slash back tab feed form line control
  · exact short _ _ (by decide) (by decide)
  · exact short _ _ (by decide) (by decide)
  · exact short _ _ (by decide) (by decide)
  · exact short _ _ (by decide) (by decide)
  · exact short _ _ (by decide) (by decide)
  · exact short _ _ (by decide) (by decide)
  · exact short _ _ (by decide) (by decide)
  · have high := digit (c.toNat / 16) (by omega)
    have low := digit (c.toNat % 16) (by omega)
    simp only [utf8Len, high, low, utf8Size_ascii _ (by decide : '\\'.toNat < 128),
      utf8Size_ascii _ (by decide : 'u'.toNat < 128), utf8Size_ascii _ (by decide : '0'.toNat < 128)]
    omega
  · simp only [utf8Len]
    omega

theorem utf8Len_quoted (text : String) :
    utf8Len (quoted text) ≤ 6 * text.utf8ByteSize + 2 := by
  have chars (letters : List Char) :
      utf8Len (letters.flatMap escape) ≤ 6 * utf8Len letters := by
    induction letters with
    | nil => simp [utf8Len]
    | cons c rest ih =>
      have one := utf8Len_escape c
      simp only [flatMap_cons, utf8Len_append, utf8Len]
      omega
  have size : utf8Len text.toList = text.utf8ByteSize := by
    rw [← utf8ByteSize_ofList, String.ofList_toList]
  have inner := chars text.toList
  have quote : ('"' : Char).utf8Size = 1 := by decide
  simp only [quoted, utf8Len, utf8Len_append, quote]
  omega

mutual

theorem utf8Len_render (value : Json) : utf8Len (render value) ≤ weight value := by
  match value with
  | .null | .bool true | .bool false | .real =>
    simp (disch := decide) [render, weight, utf8Len, utf8Size_ascii]
  | .int n =>
    rw [render, weight, ← utf8ByteSize_ofList, String.ofList_toList]
  | .str text => exact utf8Len_quoted text
  | .arr items =>
    have inner := utf8Len_renderItems items
    simp (disch := decide) [render, weight, utf8Len, utf8Size_ascii]
    omega
  | .obj members =>
    have inner := utf8Len_renderMembers members
    simp (disch := decide) [render, weight, utf8Len, utf8Size_ascii]
    omega

theorem utf8Len_renderItems (items : List Json) :
    utf8Len (renderItems items) ≤ weightItems items := by
  match items with
  | [] => simp [renderItems]
  | item :: rest =>
    have first := utf8Len_render item
    have more := utf8Len_renderMoreItems rest
    simp only [renderItems, weightItems, utf8Len_append]
    omega

theorem utf8Len_renderMoreItems (items : List Json) :
    utf8Len (renderMoreItems items) ≤ weightItems items := by
  match items with
  | [] => simp [renderMoreItems]
  | item :: rest =>
    have first := utf8Len_render item
    have more := utf8Len_renderMoreItems rest
    simp (disch := decide) [renderMoreItems, weightItems, utf8Size_ascii]
    omega

theorem utf8Len_renderMembers (members : List (String × Json)) :
    utf8Len (renderMembers members) ≤ weightMembers members := by
  match members with
  | [] => simp [renderMembers]
  | (name, value) :: rest =>
    have key := utf8Len_quoted name
    have first := utf8Len_render value
    have more := utf8Len_renderMoreMembers rest
    simp (disch := decide) [renderMembers, weightMembers, utf8Len, utf8Size_ascii]
    omega

theorem utf8Len_renderMoreMembers (members : List (String × Json)) :
    utf8Len (renderMoreMembers members) ≤ weightMembers members := by
  match members with
  | [] => simp [renderMoreMembers]
  | (name, value) :: rest =>
    have key := utf8Len_quoted name
    have first := utf8Len_render value
    have more := utf8Len_renderMoreMembers rest
    simp (disch := decide) [renderMoreMembers, weightMembers, utf8Len, utf8Size_ascii]
    omega

end

/-- The compact text of a value of small strings is small. -/
theorem render_size (value : Json) (bound : Nat) (light : weight value ≤ bound) :
    (ofList (render value)).utf8ByteSize ≤ bound := by
  rw [utf8ByteSize_ofList]
  exact (utf8Len_render value).trans light

/-! ## No control characters -/

theorem hexDigit_printable {n : Nat} (small : n < 16) : 0x20 ≤ (hexDigit n).toNat := by
  have table : ∀ i : Fin 16, 0x20 ≤ (hexDigit i).toNat := by decide
  exact table ⟨n, small⟩

theorem escape_printable {c d : Char} (present : d ∈ escape c) : 0x20 ≤ d.toNat := by
  have short (first second : Char) (a : 0x20 ≤ first.toNat) (b : 0x20 ≤ second.toNat)
      (inside : d ∈ [first, second]) : 0x20 ≤ d.toNat := by
    simp only [mem_cons, not_mem_nil, or_false] at inside
    rcases inside with rfl | rfl
    · exact a
    · exact b
  unfold escape at present
  split_ifs at present with quote slash back tab feed form line control
  · exact short _ _ (by decide) (by decide) present
  · exact short _ _ (by decide) (by decide) present
  · exact short _ _ (by decide) (by decide) present
  · exact short _ _ (by decide) (by decide) present
  · exact short _ _ (by decide) (by decide) present
  · exact short _ _ (by decide) (by decide) present
  · exact short _ _ (by decide) (by decide) present
  · simp only [mem_cons, not_mem_nil, or_false] at present
    rcases present with rfl | rfl | rfl | rfl | rfl | rfl
    · decide
    · decide
    · decide
    · decide
    · exact hexDigit_printable (by omega)
    · exact hexDigit_printable (by omega)
  · rw [mem_singleton.mp present]
    omega

theorem quoted_printable {text : String} {d : Char} (present : d ∈ quoted text) :
    0x20 ≤ d.toNat := by
  simp only [quoted, mem_cons, mem_append, mem_flatMap, not_mem_nil,
    or_false] at present
  rcases present with rfl | ⟨c, _, inside⟩ | rfl
  · decide
  · exact escape_printable inside
  · decide

theorem isDigit_printable {d : Char} (isDigit : d.isDigit = true) : 0x20 ≤ d.toNat := by
  have low := (Char.isDigit_iff_toNat.mp isDigit).1
  have : 0x30 ≤ d.toNat := low
  omega

theorem toString_printable {n : Int} {d : Char} (present : d ∈ (toString n).toList) :
    0x20 ≤ d.toNat := by
  cases n with
  | ofNat m => exact isDigit_printable ((natDigits m).1 d present)
  | negSucc m =>
    have shape : (toString (Int.negSucc m)).toList = '-' :: (m + 1).repr.toList := by
      show ("-" ++ (m + 1).repr).toList = _
      simp
    rw [shape] at present
    rcases mem_cons.mp present with rfl | inside
    · decide
    · exact isDigit_printable ((natDigits _).1 d inside)

mutual

theorem render_printable {value : Json} {d : Char} (present : d ∈ render value) :
    0x20 ≤ d.toNat := by
  match value with
  | .null | .bool true | .bool false =>
    simp only [render, mem_cons, not_mem_nil, or_false] at present
    rcases present with rfl | rfl | rfl | rfl | rfl <;> decide
  | .real => simp [render] at present
  | .int n => exact toString_printable present
  | .str text => exact quoted_printable present
  | .arr items =>
    simp only [render, mem_cons, mem_append, not_mem_nil, or_false] at present
    rcases present with rfl | inside | rfl
    · decide
    · exact renderItems_printable items d inside
    · decide
  | .obj members =>
    simp only [render, mem_cons, mem_append, not_mem_nil, or_false] at present
    rcases present with rfl | inside | rfl
    · decide
    · exact renderMembers_printable inside
    · decide

theorem renderItems_printable (items : List Json) (d : Char) (present : d ∈ renderItems items) :
    0x20 ≤ d.toNat := by
  match items with
  | [] => simp [renderItems] at present
  | item :: rest =>
    rcases mem_append.mp present with first | more
    · exact render_printable first
    · exact renderMoreItems_printable more

theorem renderMoreItems_printable {items : List Json} {d : Char}
    (present : d ∈ renderMoreItems items) : 0x20 ≤ d.toNat := by
  match items with
  | [] => simp [renderMoreItems] at present
  | item :: rest =>
    simp only [renderMoreItems, mem_cons, mem_append] at present
    rcases present with rfl | first | more
    · decide
    · exact render_printable first
    · exact renderMoreItems_printable more

theorem renderMembers_printable {members : List (String × Json)} {d : Char}
    (present : d ∈ renderMembers members) : 0x20 ≤ d.toNat := by
  match members with
  | [] => simp [renderMembers] at present
  | (name, value) :: rest =>
    simp only [renderMembers, mem_cons, mem_append] at present
    rcases present with label | rfl | first | more
    · exact quoted_printable label
    · decide
    · exact render_printable first
    · exact renderMoreMembers_printable more

theorem renderMoreMembers_printable {members : List (String × Json)} {d : Char}
    (present : d ∈ renderMoreMembers members) : 0x20 ≤ d.toNat := by
  match members with
  | [] => simp [renderMoreMembers] at present
  | (name, value) :: rest =>
    simp only [renderMoreMembers, mem_cons, mem_append] at present
    rcases present with rfl | label | rfl | first | more
    · decide
    · exact quoted_printable label
    · decide
    · exact render_printable first
    · exact renderMoreMembers_printable more

end

end Synergos.JsonText
