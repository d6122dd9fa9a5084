import Synergos.JsonText

/-!
# What a JSON text denotes

The grammar of JSON texts whose numbers are integers, as relations from a text to a
value and the text that is left after it. White space, the spelling of escapes and
pairs of surrogates are part of it; leading zeros, unescaped control characters and
half a pair are not. Members are kept in the order of the text.

A text denotes at most one value, the compact text of a value denotes it, and no text
of a value is shorter than the compact one.
-/

namespace Synergos.JsonGrammar

open JsonText List
open String (ofList utf8Len utf8Len_append utf8Len_cons utf8ByteSize_ofList)

/-! ## Leaves -/

def isSpace (c : Char) : Bool := c == ' ' || c == '\t' || c == '\n' || c == '\r'

/-- The code named by four hexadecimal digits. -/
def hexCode (a b c d : Char) : Option Nat := do
  let a ← hexValue a
  let b ← hexValue b
  let c ← hexValue c
  let d ← hexValue d
  some (((a * 16 + b) * 16 + c) * 16 + d)

/-- The character of a pair of surrogates. -/
def paired (high low : Nat) : Char :=
  Char.ofNat (0x10000 + (high - 0xd800) * 1024 + (low - 0xdc00))

/-- The characters up to a closing quotation mark. -/
inductive CharsAt : List Char → List Char → List Char → Prop
  | close (rest : List Char) : CharsAt ('"' :: rest) [] rest
  | plain {c : Char} {text chars rest : List Char} (printable : 0x20 ≤ c.toNat) (quote : c ≠ '"')
      (backslash : c ≠ '\\') (more : CharsAt text chars rest) :
      CharsAt (c :: text) (c :: chars) rest
  | short {e c : Char} {text chars rest : List Char} (escaped : unescape e = some c)
      (more : CharsAt text chars rest) : CharsAt ('\\' :: e :: text) (c :: chars) rest
  | single {a b c d : Char} {code : Nat} {text chars rest : List Char}
      (digits : hexCode a b c d = some code) (whole : ¬ (0xd800 ≤ code ∧ code ≤ 0xdfff))
      (more : CharsAt text chars rest) :
      CharsAt ('\\' :: 'u' :: a :: b :: c :: d :: text) (Char.ofNat code :: chars) rest
  | pair {a b c d e f g h : Char} {high low : Nat} {text chars rest : List Char}
      (first : hexCode a b c d = some high) (isHigh : 0xd800 ≤ high ∧ high ≤ 0xdbff)
      (second : hexCode e f g h = some low) (isLow : 0xdc00 ≤ low ∧ low ≤ 0xdfff)
      (more : CharsAt text chars rest) :
      CharsAt ('\\' :: 'u' :: a :: b :: c :: d :: '\\' :: 'u' :: e :: f :: g :: h :: text)
        (paired high low :: chars) rest

/-- What may follow an integer. -/
def NumberEnds (rest : List Char) : Prop :=
  ∀ c tail, rest = c :: tail → c.isDigit = false ∧ c ≠ '.' ∧ c ≠ 'e' ∧ c ≠ 'E'

/-- Decimal digits without a leading zero. -/
structure Digits (digits : List Char) : Prop where
  digit : ∀ c ∈ digits, c.isDigit = true
  nonempty : digits ≠ []
  plain : digits.head? = some '0' → digits = ['0']

inductive IntAt : List Char → Int → List Char → Prop
  | natural {digits rest : List Char} (isDigits : Digits digits) (ends : NumberEnds rest) :
      IntAt (digits ++ rest) (Nat.ofDigitChars 10 digits 0 : Int) rest
  | negative {digits rest : List Char} (isDigits : Digits digits) (ends : NumberEnds rest) :
      IntAt ('-' :: (digits ++ rest)) (-(Nat.ofDigitChars 10 digits 0 : Int)) rest

def Blank (space : List Char) : Prop := ∀ c ∈ space, isSpace c = true

/-- The text does not go on with white space. -/
def SpaceEnds (rest : List Char) : Prop := ∀ c tail, rest = c :: tail → isSpace c = false

/-! ## Values -/

mutual

inductive ValueAt : List Char → Json → List Char → Prop
  | null (rest : List Char) : ValueAt ('n' :: 'u' :: 'l' :: 'l' :: rest) .null rest
  | yes (rest : List Char) : ValueAt ('t' :: 'r' :: 'u' :: 'e' :: rest) (.bool true) rest
  | no (rest : List Char) : ValueAt ('f' :: 'a' :: 'l' :: 's' :: 'e' :: rest) (.bool false) rest
  | int {text rest : List Char} {n : Int} (number : IntAt text n rest) :
      ValueAt text (.int n) rest
  | str {text chars rest : List Char} (inside : CharsAt text chars rest) :
      ValueAt ('"' :: text) (.str (ofList chars)) rest
  | emptyArr {space rest : List Char} (blank : Blank space) :
      ValueAt ('[' :: (space ++ ']' :: rest)) (.arr []) rest
  | arr {text rest : List Char} {items : List Json} (inside : ItemsAt text items rest) :
      ValueAt ('[' :: text) (.arr items) rest
  | emptyObj {space rest : List Char} (blank : Blank space) :
      ValueAt ('{' :: (space ++ '}' :: rest)) (.obj []) rest
  | obj {text rest : List Char} {members : List (String × Json)}
      (inside : MembersAt text members rest) : ValueAt ('{' :: text) (.obj members) rest

/-- A value with white space around it. -/
inductive ElementAt : List Char → Json → List Char → Prop
  | mk {before text after rest : List Char} {value : Json} (blankBefore : Blank before)
      (inside : ValueAt text value (after ++ rest)) (blankAfter : Blank after)
      (ends : SpaceEnds rest) : ElementAt (before ++ text) value rest

/-- The items of an array up to its closing bracket. -/
inductive ItemsAt : List Char → List Json → List Char → Prop
  | last {text rest : List Char} {value : Json} (item : ElementAt text value (']' :: rest)) :
      ItemsAt text [value] rest
  | more {text next rest : List Char} {value : Json} {items : List Json}
      (item : ElementAt text value (',' :: next)) (others : ItemsAt next items rest) :
      ItemsAt text (value :: items) rest

/-- The members of an object up to its closing brace. -/
inductive MembersAt : List Char → List (String × Json) → List Char → Prop
  | last {before text name after value rest : List Char} {json : Json} (blankBefore : Blank before)
      (label : CharsAt text name (after ++ ':' :: value)) (blankAfter : Blank after)
      (member : ElementAt value json ('}' :: rest)) :
      MembersAt (before ++ '"' :: text) [(ofList name, json)] rest
  | more {before text name after value next rest : List Char} {json : Json}
      {members : List (String × Json)} (blankBefore : Blank before)
      (label : CharsAt text name (after ++ ':' :: value)) (blankAfter : Blank after)
      (member : ElementAt value json (',' :: next)) (others : MembersAt next members rest) :
      MembersAt (before ++ '"' :: text) ((ofList name, json) :: members) rest

end

/-- The whole text is one value. -/
def Denotes (text : String) (value : Json) : Prop := ElementAt text.toList value []

/-! ## A text denotes one value -/

theorem spaceEnds_nil : SpaceEnds [] := nofun

variable {before space before' chars rest rest' text' next : List Char} {c : Char}
  {value json : Json} {n : Int} {items : List Json} (tail : List Char)

theorem spaceEnds_cons (ends : isSpace c = false) :
    SpaceEnds (c :: tail) := by
  intro first rest same
  cases same
  exact ends

/-- White space before a text that does not start with any is determined. -/
theorem blank_unique {text : List Char} (blank : Blank before)
    (blank' : Blank before') (ends : SpaceEnds text) (ends' : SpaceEnds text')
    (same : before ++ text = before' ++ text') : before = before' ∧ text = text' := by
  induction before generalizing before' with
  | nil =>
    cases before' with
    | nil => exact ⟨rfl, same⟩
    | cons c rest =>
      have isBlank := blank' c mem_cons_self
      simp [ends c (rest ++ text') same] at isBlank
  | cons c rest ih =>
    have isBlank := blank c mem_cons_self
    cases before' with
    | nil =>
      simp [ends' c (rest ++ text) same.symm] at isBlank
    | cons other more =>
      rw [cons_append, cons_append, cons.injEq] at same
      obtain ⟨rfl, same⟩ := same
      obtain ⟨rfl, equal⟩ := ih
        (fun d member => blank d (mem_cons_of_mem c member))
        (fun d member => blank' d (mem_cons_of_mem c member)) same
      exact ⟨rfl, equal⟩

theorem charsAt_unique {text chars' : List Char}
    (first : CharsAt text chars rest) (second : CharsAt text chars' rest') :
    chars = chars' ∧ rest = rest' := by
  induction first generalizing chars' rest' with
  | close rest =>
    cases second with
    | close => exact ⟨rfl, rfl⟩
    | plain printable quote => exact absurd rfl quote
  | plain printable quote backslash more ih =>
    cases second with
    | close => exact absurd rfl quote
    | plain _ _ _ others =>
      obtain ⟨rfl, rfl⟩ := ih others
      exact ⟨rfl, rfl⟩
    | short | single | pair => exact absurd rfl backslash
  | short escaped more ih =>
    cases second with
    | plain _ _ backslash => exact absurd rfl backslash
    | short escaped' others =>
      rw [escaped] at escaped'
      cases escaped'
      obtain ⟨rfl, rfl⟩ := ih others
      exact ⟨rfl, rfl⟩
    | single | pair => cases escaped
  | single digits whole more ih =>
    cases second with
    | plain _ _ backslash => exact absurd rfl backslash
    | short escaped => cases escaped
    | single digits' _ others =>
      rw [digits] at digits'
      cases digits'
      obtain ⟨rfl, rfl⟩ := ih others
      exact ⟨rfl, rfl⟩
    | pair first isHigh =>
      rw [digits] at first
      cases first
      omega
  | pair first isHigh second' isLow more ih =>
    cases second with
    | plain _ _ backslash => exact absurd rfl backslash
    | short escaped => cases escaped
    | single digits whole =>
      rw [first] at digits
      cases digits
      omega
    | pair first' _ second'' _ others =>
      rw [first] at first'
      rw [second'] at second''
      cases first'
      cases second''
      obtain ⟨rfl, rfl⟩ := ih others
      exact ⟨rfl, rfl⟩

theorem NumberEnds.delimited (ends : NumberEnds rest) : Delimited rest :=
  fun c tail same => (ends c tail same).1

theorem Digits.split {digits digits' : List Char} (isDigits : Digits digits)
    (isDigits' : Digits digits') (ends : NumberEnds rest) (ends' : NumberEnds rest')
    (same : digits ++ rest = digits' ++ rest') : digits = digits' ∧ rest = rest' := by
  obtain ⟨taken, dropped⟩ := takeWhile_digits digits rest isDigits.digit ends.delimited
  obtain ⟨taken', dropped'⟩ := takeWhile_digits digits' rest' isDigits'.digit ends'.delimited
  rw [same] at taken dropped
  exact ⟨taken.symm.trans taken', dropped.symm.trans dropped'⟩

theorem Digits.cons {digits : List Char} (isDigits : Digits digits) :
    ∃ c tail, digits = c :: tail ∧ c.isDigit = true := by
  cases digits with
  | nil => exact absurd rfl isDigits.nonempty
  | cons c tail => exact ⟨c, tail, rfl, isDigits.digit c mem_cons_self⟩

theorem intAt_unique {text : List Char} {n' : Int} (first : IntAt text n rest)
    (second : IntAt text n' rest') : n = n' ∧ rest = rest' := by
  cases first with
  | natural isDigits ends =>
    generalize same : _ ++ rest = whole at second
    cases second with
    | natural isDigits' ends' =>
      obtain ⟨rfl, rfl⟩ := isDigits.split isDigits' ends ends' same
      exact ⟨rfl, rfl⟩
    | negative =>
      obtain ⟨c, tail, rfl, digit⟩ := isDigits.cons
      rw [(cons.inj same).1] at digit
      exact absurd digit (by decide)
  | negative isDigits ends =>
    generalize same : '-' :: (_ ++ rest) = whole at second
    cases second with
    | natural isDigits' ends' =>
      obtain ⟨c, tail, rfl, digit⟩ := isDigits'.cons
      rw [← (cons.inj same).1] at digit
      exact absurd digit (by decide)
    | negative isDigits' ends' =>
      obtain ⟨rfl, rfl⟩ := isDigits.split isDigits' ends ends' (cons.inj same).2
      exact ⟨rfl, rfl⟩

/-- The text of an integer starts with a sign or a digit. -/
theorem intAt_first {text : List Char} (number : IntAt text n rest) :
    ∃ c tail, text = c :: tail ∧ (c.isDigit = true ∨ c = '-') := by
  cases number with
  | natural isDigits =>
    obtain ⟨c, tail, rfl, digit⟩ := isDigits.cons
    exact ⟨c, tail ++ rest, rfl, .inl digit⟩
  | negative => exact ⟨'-', _, rfl, .inr rfl⟩

theorem not_intAt {tail : List Char} (digit : c.isDigit = false)
    (sign : c ≠ '-') : ¬ IntAt (c :: tail) n rest := by
  intro number
  obtain ⟨first, _, same, numeric⟩ := intAt_first number
  obtain ⟨rfl, _⟩ := cons.inj same
  rcases numeric with isDigit | isSign
  · simp [digit] at isDigit
  · exact sign isSign

/-- No value starts with white space or with a bracket that closes an array. -/
theorem valueAt_first {text : List Char} (inside : ValueAt text value rest) :
    ∃ c tail, text = c :: tail ∧ isSpace c = false ∧ c ≠ ']' := by
  cases inside with
  | int number =>
    obtain ⟨c, tail, rfl, numeric⟩ := intAt_first number
    refine ⟨c, tail, rfl, ?_, ?_⟩
    · rcases numeric with digit | rfl
      · have other (d : Char) (notDigit : d.isDigit = false) : c ≠ d := by
          rintro rfl
          simp [notDigit] at digit
        simp [isSpace, other]
      · decide
    · rintro rfl
      rcases numeric with digit | sign
      · exact absurd digit (by decide)
      · exact absurd sign (by decide)
  | _ => exact ⟨_, _, rfl, by decide, by decide⟩

theorem ValueAt.spaceEnds {text : List Char} (inside : ValueAt text value rest) :
    SpaceEnds text := by
  obtain ⟨c, tail, rfl, ends, _⟩ := valueAt_first inside
  exact spaceEnds_cons tail ends

/-- An array with items does not close at once. -/
theorem not_itemsAt_closed (blank : Blank space) : ¬ ItemsAt
    (space ++ ']' :: rest) items rest' := by
  have closed : ∀ value rest', ¬ ElementAt (space ++ ']' :: rest) value rest' := by
    intro value rest' element
    generalize same : space ++ ']' :: rest = whole at element
    obtain ⟨blankBefore, inside, _, _⟩ := element
    obtain ⟨c, tail, rfl, ends, different⟩ := valueAt_first inside
    obtain ⟨_, equal⟩ := blank_unique blank blankBefore (spaceEnds_cons rest (by decide))
      (spaceEnds_cons tail ends) same
    exact different (cons.inj equal).1.symm
  intro inside
  cases inside with
  | last item | more item => exact closed _ _ item

/-- An object with members does not close at once. -/
theorem not_membersAt_closed {members : List (String × Json)}
    (blank : Blank space) : ¬ MembersAt (space ++ '}' :: rest) members rest' := by
  have closed : ∀ before text, Blank before → space ++ '}' :: rest ≠ before ++ '"' :: text := by
    intro before text blankBefore same
    obtain ⟨_, equal⟩ := blank_unique blank blankBefore (spaceEnds_cons rest (by decide))
      (spaceEnds_cons text (by decide)) same
    cases equal
  intro inside
  generalize same : space ++ '}' :: rest = whole at inside
  cases inside with
  | last blankBefore | more blankBefore => exact closed _ _ blankBefore same

/-- Only one value can be read from the text, and it leaves the given rest. -/
def OneValue (text : List Char) (value : Json) (rest : List Char) : Prop :=
  ∀ value' rest', ValueAt text value' rest' → value = value' ∧ rest = rest'

def OneElement (text : List Char) (value : Json) (rest : List Char) : Prop :=
  ∀ value' rest', ElementAt text value' rest' → value = value' ∧ rest = rest'

def OneItems (text : List Char) (items : List Json) (rest : List Char) : Prop :=
  ∀ items' rest', ItemsAt text items' rest' → items = items' ∧ rest = rest'

def OneMembers (text : List Char) (members : List (String × Json)) (rest : List Char) : Prop :=
  ∀ members' rest', MembersAt text members' rest' → members = members' ∧ rest = rest'

theorem oneValue_int {text : List Char} (number : IntAt text n rest) :
    OneValue text (.int n) rest := by
  intro value' rest' second
  cases second with
  | int number' =>
    obtain ⟨rfl, rfl⟩ := intAt_unique number number'
    exact ⟨rfl, rfl⟩
  | _ => exact absurd number (not_intAt (by decide) (by decide))

theorem oneValue_emptyArr (blank : Blank space) :
    OneValue ('[' :: (space ++ ']' :: rest)) (.arr []) rest := by
  intro value' rest' second
  generalize same : '[' :: (space ++ ']' :: rest) = whole at second
  cases second with
  | emptyArr blank' =>
    obtain ⟨_, equal⟩ := blank_unique blank blank' (spaceEnds_cons rest (by decide))
      (spaceEnds_cons rest' (by decide)) (cons.inj same).2
    exact ⟨rfl, (cons.inj equal).2⟩
  | arr inside =>
    rw [← (cons.inj same).2] at inside
    exact absurd inside (not_itemsAt_closed blank)
  | int number =>
    rw [← same] at number
    exact absurd number (not_intAt (by decide) (by decide))
  | _ => cases same

theorem oneValue_emptyObj (blank : Blank space) :
    OneValue ('{' :: (space ++ '}' :: rest)) (.obj []) rest := by
  intro value' rest' second
  generalize same : '{' :: (space ++ '}' :: rest) = whole at second
  cases second with
  | emptyObj blank' =>
    obtain ⟨_, equal⟩ := blank_unique blank blank' (spaceEnds_cons rest (by decide))
      (spaceEnds_cons rest' (by decide)) (cons.inj same).2
    exact ⟨rfl, (cons.inj equal).2⟩
  | obj inside =>
    rw [← (cons.inj same).2] at inside
    exact absurd inside (not_membersAt_closed blank)
  | int number =>
    rw [← same] at number
    exact absurd number (not_intAt (by decide) (by decide))
  | _ => cases same

theorem oneValue_arr {text : List Char} (inside : ItemsAt text items rest)
    (one : OneItems text items rest) : OneValue ('[' :: text) (.arr items) rest := by
  intro value' rest' second
  cases second with
  | emptyArr blank => exact absurd inside (not_itemsAt_closed blank)
  | arr inside' =>
    obtain ⟨rfl, rfl⟩ := one _ _ inside'
    exact ⟨rfl, rfl⟩
  | int number => exact absurd number (not_intAt (by decide) (by decide))

theorem oneValue_obj {text : List Char} {members : List (String × Json)}
    (inside : MembersAt text members rest) (one : OneMembers text members rest) :
    OneValue ('{' :: text) (.obj members) rest := by
  intro value' rest' second
  cases second with
  | emptyObj blank => exact absurd inside (not_membersAt_closed blank)
  | obj inside' =>
    obtain ⟨rfl, rfl⟩ := one _ _ inside'
    exact ⟨rfl, rfl⟩
  | int number => exact absurd number (not_intAt (by decide) (by decide))

theorem oneElement {text after : List Char} (blankBefore : Blank before)
    (inside : ValueAt text value (after ++ rest)) (blankAfter : Blank after)
    (ends : SpaceEnds rest) (one : OneValue text value (after ++ rest)) :
    OneElement (before ++ text) value rest := by
  intro value' rest' second
  generalize same : before ++ text = whole at second
  cases second with
  | mk blankBefore' inside' blankAfter' ends' =>
    obtain ⟨rfl, rfl⟩ := blank_unique blankBefore blankBefore' inside.spaceEnds
      inside'.spaceEnds same
    obtain ⟨rfl, left⟩ := one _ _ inside'
    exact ⟨rfl, (blank_unique blankAfter blankAfter' ends ends' left).2⟩

theorem oneItems_last {text : List Char}
    (one : OneElement text value (']' :: rest)) : OneItems text [value] rest := by
  intro items' rest' second
  cases second with
  | last item' =>
    obtain ⟨rfl, equal⟩ := one _ _ item'
    exact ⟨rfl, (cons.inj equal).2⟩
  | more item' =>
    cases (one _ _ item').2

theorem oneItems_more {text : List Char} (one : OneElement text value (',' :: next))
    (others : OneItems next items rest) :
    OneItems text (value :: items) rest := by
  intro items' rest' second
  cases second with
  | last item' =>
    cases (one _ _ item').2
  | more item' others' =>
    obtain ⟨rfl, equal⟩ := one _ _ item'
    obtain ⟨_, rfl⟩ := cons.inj equal
    obtain ⟨rfl, rfl⟩ := others _ _ others'
    exact ⟨rfl, rfl⟩

/-- Up to the value of the first member there is one way to read an object. -/
theorem label_unique {text name name' after after' value value' : List Char}
    (blankBefore : Blank before) (chars : CharsAt text name (after ++ ':' :: value))
    (blankAfter : Blank after) (blankBefore' : Blank before')
    (chars' : CharsAt text' name' (after' ++ ':' :: value')) (blankAfter' : Blank after')
    (same : before ++ '"' :: text = before' ++ '"' :: text') : name = name' ∧ value = value' := by
  obtain ⟨_, equal⟩ := blank_unique blankBefore blankBefore' (spaceEnds_cons text (by decide))
    (spaceEnds_cons text' (by decide)) same
  obtain ⟨_, rfl⟩ := cons.inj equal
  obtain ⟨rfl, left⟩ := charsAt_unique chars chars'
  obtain ⟨_, colon⟩ := blank_unique blankAfter blankAfter' (spaceEnds_cons value (by decide))
    (spaceEnds_cons value' (by decide)) left
  exact ⟨rfl, (cons.inj colon).2⟩

theorem oneMembers_last {text name after value : List Char} (blankBefore : Blank before)
    (label : CharsAt text name (after ++ ':' :: value))
    (blankAfter : Blank after) (one : OneElement value json ('}' :: rest)) :
    OneMembers (before ++ '"' :: text) [(ofList name, json)] rest := by
  intro members' rest' second
  generalize same : before ++ '"' :: text = whole at second
  cases second with
  | last blankBefore' label' blankAfter' member' =>
    obtain ⟨rfl, rfl⟩ := label_unique blankBefore label blankAfter blankBefore' label'
      blankAfter' same
    obtain ⟨rfl, equal⟩ := one _ _ member'
    exact ⟨rfl, (cons.inj equal).2⟩
  | more blankBefore' label' blankAfter' member' =>
    obtain ⟨rfl, rfl⟩ := label_unique blankBefore label blankAfter blankBefore' label'
      blankAfter' same
    cases (one _ _ member').2

theorem oneMembers_more {text name after value : List Char} {members : List (String × Json)}
    (blankBefore : Blank before)
    (label : CharsAt text name (after ++ ':' :: value)) (blankAfter : Blank after)
    (one : OneElement value json (',' :: next)) (others : OneMembers next members rest) :
    OneMembers (before ++ '"' :: text) ((ofList name, json) :: members) rest := by
  intro members' rest' second
  generalize same : before ++ '"' :: text = whole at second
  cases second with
  | last blankBefore' label' blankAfter' member' =>
    obtain ⟨rfl, rfl⟩ := label_unique blankBefore label blankAfter blankBefore' label'
      blankAfter' same
    cases (one _ _ member').2
  | more blankBefore' label' blankAfter' member' others' =>
    obtain ⟨rfl, rfl⟩ := label_unique blankBefore label blankAfter blankBefore' label'
      blankAfter' same
    obtain ⟨rfl, equal⟩ := one _ _ member'
    obtain ⟨_, rfl⟩ := cons.inj equal
    obtain ⟨rfl, rfl⟩ := others _ _ others'
    exact ⟨rfl, rfl⟩

theorem elementAt_unique {text : List Char} (first : ElementAt text value rest) :
    OneElement text value rest := by
  refine @ElementAt.rec (fun text value rest _ => OneValue text value rest)
    (fun text value rest _ => OneElement text value rest)
    (fun text items rest _ => OneItems text items rest)
    (fun text members rest _ => OneMembers text members rest)
    ?null ?yes ?no ?int ?str ?emptyArr ?arr ?emptyObj ?obj ?element ?lastItem ?moreItems
    ?lastMember ?moreMembers text value rest first
  case null | yes | no =>
    intro rest value' rest' second
    cases second with
    | int number => exact absurd number (not_intAt (by decide) (by decide))
    | _ => exact ⟨rfl, rfl⟩
  case int => exact oneValue_int
  case str =>
    intro text chars rest inside value' rest' second
    cases second with
    | int number => exact absurd number (not_intAt (by decide) (by decide))
    | str inside' =>
      obtain ⟨rfl, rfl⟩ := charsAt_unique inside inside'
      exact ⟨rfl, rfl⟩
  case emptyArr => exact oneValue_emptyArr
  case arr => exact oneValue_arr
  case emptyObj => exact oneValue_emptyObj
  case obj => exact oneValue_obj
  case element =>
    exact fun blankBefore inside blankAfter ends one =>
      oneElement blankBefore inside blankAfter ends one
  case lastItem => exact fun _ one => oneItems_last one
  case moreItems => exact fun _ _ one others => oneItems_more one others
  case lastMember =>
    exact fun blankBefore label blankAfter _ one => oneMembers_last blankBefore label blankAfter one
  case moreMembers =>
    exact fun blankBefore label blankAfter _ _ one others =>
      oneMembers_more blankBefore label blankAfter one others

theorem denotes_unique {text : String} {value' : Json} (first : Denotes text value)
    (second : Denotes text value') : value = value' :=
  (elementAt_unique first _ _ second).1

/-! ## No text is shorter than the compact one -/

theorem escape_plain (printable : 0x20 ≤ c.toNat) (quote : c ≠ '"')
    (backslash : c ≠ '\\') : escape c = [c] := by
  rw [escape, if_neg quote, if_neg backslash, if_neg (by omega), if_neg (by omega), if_neg (by omega),
    if_neg (by omega), if_neg (by omega), if_neg (by omega)]

theorem utf8Len_escape_le (c : Char) : utf8Len (escape c) ≤ 6 := by
  by_cases small : c.toNat < 128
  · have one := utf8Size_ascii c small
    have bound := utf8Len_escape c
    omega
  · have plain : escape c = [c] := by
      refine escape_plain (by omega) ?_ ?_
      · rintro rfl
        exact small (by decide)
      · rintro rfl
        exact small (by decide)
    have four := c.utf8Size_le_four
    simp only [plain, utf8Len_cons, String.utf8Len_nil]
    omega

theorem utf8Len_unescape {e : Char} (escaped : unescape e = some c) :
    utf8Len (escape c) ≤ 2 := by
  unfold unescape at escaped
  split_ifs at escaped with itself
  · cases escaped
    rcases itself with rfl | rfl | rfl <;> decide
  all_goals
    cases escaped
    decide

theorem charsAt_size {text : List Char} (inside : CharsAt text chars rest) :
    utf8Len (chars.flatMap escape) + 1 + utf8Len rest ≤ utf8Len text := by
  induction inside with
  | close rest =>
    have quote : '"'.utf8Size = 1 := by decide
    simp only [flatMap_nil, utf8Len_cons, String.utf8Len_nil, quote]
    omega
  | @plain c _ _ _ printable quote backslash more ih =>
    simp only [flatMap_cons, escape_plain printable quote backslash, utf8Len_append,
      utf8Len_cons, String.utf8Len_nil]
    omega
  | @short e c _ _ _ escaped more ih =>
    have two := utf8Len_unescape escaped
    have slash : '\\'.utf8Size = 1 := by decide
    have least := e.utf8Size_pos
    simp only [flatMap_cons, utf8Len_append, utf8Len_cons, slash]
    omega
  | @single a b c d code _ _ _ digits whole more ih =>
    have six := utf8Len_escape_le (Char.ofNat code)
    have slash : '\\'.utf8Size = 1 := by decide
    have letter : 'u'.utf8Size = 1 := by decide
    have first := a.utf8Size_pos
    have second := b.utf8Size_pos
    have third := c.utf8Size_pos
    have fourth := d.utf8Size_pos
    simp only [flatMap_cons, utf8Len_append, utf8Len_cons, slash, letter]
    omega
  | @pair a b c d e f g h high low _ _ _ _ _ _ _ more ih =>
    have six := utf8Len_escape_le (paired high low)
    have slash : '\\'.utf8Size = 1 := by decide
    have letter : 'u'.utf8Size = 1 := by decide
    have first := a.utf8Size_pos
    have second := b.utf8Size_pos
    have third := c.utf8Size_pos
    have fourth := d.utf8Size_pos
    simp only [flatMap_cons, utf8Len_append, utf8Len_cons, slash, letter]
    omega

theorem ofDigitChars_lt {digits : List Char} (digit : ∀ c ∈ digits, c.isDigit = true) :
    Nat.ofDigitChars 10 digits 0 < 10 ^ digits.length := by
  induction digits using List.reverseRecOn with
  | nil => simp
  | append_singleton earlier last ih =>
    have early := ih fun c member => digit c (mem_append_left _ member)
    have small := Char.isDigit_iff_toNat.mp (digit last (mem_append_right _ mem_cons_self))
    rw [Nat.ofDigitChars_append, Nat.ofDigitChars_cons, Nat.ofDigitChars_nil, length_append,
      length_singleton, pow_succ]
    have zero : '0'.toNat = 48 := by decide
    have nine : '9'.toNat = 57 := by decide
    omega

/-- The decimal text of a number has no more characters than any digits that denote it. -/
theorem length_repr_le {digits : List Char} (isDigits : Digits digits) :
    (Nat.ofDigitChars 10 digits 0).repr.toList.length ≤ digits.length := by
  have shape : (Nat.ofDigitChars 10 digits 0).repr.toList =
      Nat.toDigits 10 (Nat.ofDigitChars 10 digits 0) := by simp [Nat.repr]
  rw [shape]
  refine (Nat.length_toDigits_le_iff (by decide) ?_).mpr (ofDigitChars_lt isDigits.digit)
  exact length_pos_iff.mpr isDigits.nonempty

theorem utf8Len_digits {digits : List Char} (digit : ∀ c ∈ digits, c.isDigit = true) :
    utf8Len digits = digits.length := by
  induction digits with
  | nil => rfl
  | cons c rest ih =>
    have small := (Char.isDigit_iff_toNat.mp (digit c mem_cons_self)).2
    have nine : '9'.toNat = 57 := by decide
    have one := utf8Size_ascii c (by omega)
    have more := ih fun d member => digit d (mem_cons_of_mem c member)
    simp only [utf8Len_cons, length_cons]
    omega

theorem intAt_size {text : List Char} (number : IntAt text n rest) :
    utf8Len (toString n).toList + utf8Len rest ≤ utf8Len text := by
  cases number with
  | @natural digits _ isDigits _ =>
    have short := length_repr_le isDigits
    have left := utf8Len_digits (natDigits (Nat.ofDigitChars 10 digits 0)).1
    have right := utf8Len_digits isDigits.digit
    have shape : (toString (Nat.ofDigitChars 10 digits 0 : Int)).toList =
        (Nat.ofDigitChars 10 digits 0).repr.toList := rfl
    rw [shape, utf8Len_append]
    omega
  | @negative digits _ isDigits _ =>
    have short := length_repr_le isDigits
    have left := utf8Len_digits (natDigits (Nat.ofDigitChars 10 digits 0)).1
    have right := utf8Len_digits isDigits.digit
    have sign : '-'.utf8Size = 1 := by decide
    have bound : utf8Len (toString (-(Nat.ofDigitChars 10 digits 0 : Int))).toList ≤
        1 + utf8Len (Nat.ofDigitChars 10 digits 0).repr.toList := by
      cases Nat.ofDigitChars 10 digits 0 with
      | zero => decide
      | succ m =>
        have shape : (toString (-((m + 1 : Nat) : Int))).toList =
            '-' :: (m + 1).repr.toList := by
          change ("-" ++ (m + 1).repr).toList = _
          rw [String.toList_append]
          rfl
        rw [shape, utf8Len_cons, sign]
        omega
    simp only [utf8Len_cons, utf8Len_append, sign]
    omega

theorem members_size {before text name after value : List Char} {json : Json} {bound : Nat}
    (label : CharsAt text name (after ++ ':' :: value))
    (member : utf8Len (render json) + bound ≤ utf8Len value) :
    utf8Len (quoted (ofList name)) + 1 + utf8Len (render json) + bound ≤
      utf8Len (before ++ '"' :: text) := by
  have chars := charsAt_size label
  have quote : '"'.utf8Size = 1 := by decide
  have colon : ':'.utf8Size = 1 := by decide
  simp only [quoted, String.toList_ofList, utf8Len_cons, String.utf8Len_nil,
    utf8Len_append, quote, colon] at chars ⊢
  omega

theorem elementAt_size {text : List Char} (element : ElementAt text value rest) :
    utf8Len (render value) + utf8Len rest ≤ utf8Len text := by
  have comma : ','.utf8Size = 1 := by decide
  have bracket : '['.utf8Size = 1 := by decide
  have closing : ']'.utf8Size = 1 := by decide
  have brace : '{'.utf8Size = 1 := by decide
  have ending : '}'.utf8Size = 1 := by decide
  have quote : '"'.utf8Size = 1 := by decide
  refine @ElementAt.rec
    (fun text value rest _ =>
      utf8Len (render value) + utf8Len rest ≤ utf8Len text)
    (fun text value rest _ =>
      utf8Len (render value) + utf8Len rest ≤ utf8Len text)
    (fun text items rest _ =>
      utf8Len (renderItems items) + 1 + utf8Len rest ≤ utf8Len text)
    (fun text members rest _ =>
      utf8Len (renderMembers members) + 1 + utf8Len rest ≤ utf8Len text)
    ?null ?yes ?no ?int ?str ?emptyArr ?arr ?emptyObj ?obj ?element ?lastItem ?moreItems
    ?lastMember ?moreMembers text value rest element
  case null | yes | no =>
    intro rest
    simp only [render, utf8Len_cons, String.utf8Len_nil]
    omega
  case int => exact intAt_size
  case str =>
    intro text chars rest inside
    have size := charsAt_size inside
    simp only [render, quoted, String.toList_ofList, utf8Len_cons, String.utf8Len_nil,
      utf8Len_append, quote]
    omega
  case emptyArr =>
    intro space rest blank
    simp only [render, renderItems, utf8Len_cons, String.utf8Len_nil,
      utf8Len_append, bracket, closing, nil_append]
    omega
  case arr =>
    intro text rest items inside size
    simp only [render, utf8Len_cons, String.utf8Len_nil, utf8Len_append, bracket,
      closing]
    omega
  case emptyObj =>
    intro space rest blank
    simp only [render, renderMembers, utf8Len_cons, String.utf8Len_nil,
      utf8Len_append, brace, ending, nil_append]
    omega
  case obj =>
    intro text rest members inside size
    simp only [render, utf8Len_cons, String.utf8Len_nil, utf8Len_append, brace,
      ending]
    omega
  case element =>
    intro before text after rest value _ _ _ _ size
    simp only [utf8Len_append] at size ⊢
    omega
  case lastItem =>
    intro text rest value _ size
    simp only [renderItems, renderMoreItems, append_nil, utf8Len_cons, closing] at size ⊢
    omega
  case moreItems =>
    intro text next rest value items _ others size more
    have shape : utf8Len (renderMoreItems items) ≤ 1 + utf8Len (renderItems items) := by
      cases items with
      | nil => simp [renderMoreItems]
      | cons item rest =>
        simp only [renderMoreItems, renderItems, utf8Len_cons, comma]
        omega
    simp only [renderItems, utf8Len_cons, utf8Len_append, comma] at size ⊢
    omega
  case lastMember =>
    intro before text name after value rest json _ label _ _ size
    simp only [utf8Len_cons, ending] at size
    have whole := @members_size before text name after value json _ label size
    have colon : ':'.utf8Size = 1 := by decide
    simp only [renderMembers, renderMoreMembers, append_nil, utf8Len_cons,
      utf8Len_append, colon] at whole ⊢
    omega
  case moreMembers =>
    intro before text name after value next rest json members _ label _ _ others size more
    have shape : utf8Len (renderMoreMembers members) ≤
        1 + utf8Len (renderMembers members) := by
      cases members with
      | nil => simp [renderMoreMembers]
      | cons member rest =>
        simp only [renderMoreMembers, renderMembers, utf8Len_cons, comma]
        omega
    simp only [utf8Len_cons, comma] at size
    have whole := @members_size before text name after value json _ label size
    have colon : ':'.utf8Size = 1 := by decide
    simp only [renderMembers, utf8Len_cons, utf8Len_append, colon] at whole ⊢
    omega

/-- No text of a value is shorter than its compact text. -/
theorem denotes_size {text : String} (denotes : Denotes text value) :
    (ofList (render value)).utf8ByteSize ≤ text.utf8ByteSize := by
  have size := elementAt_size denotes
  have whole : utf8Len text.toList = text.utf8ByteSize := by
    rw [← utf8ByteSize_ofList, String.ofList_toList]
  rw [utf8ByteSize_ofList, ← whole]
  exact Nat.le_of_add_right_le size

/-! ## The compact text denotes its value -/

theorem charsAt_escape (c : Char) {text : List Char} (more : CharsAt text chars rest) :
    CharsAt (escape c ++ text) (c :: chars) rest := by
  have same (n : Nat) (code : c.toNat = n) : c = Char.ofNat n := by
    rw [← code, Char.ofNat_toNat]
  unfold escape
  split_ifs with quote backslash b t n f r control
  · subst quote
    exact .short rfl more
  · subst backslash
    exact .short rfl more
  · obtain rfl := same 0x08 b
    exact .short rfl more
  · obtain rfl := same 0x09 t
    exact .short rfl more
  · obtain rfl := same 0x0a n
    exact .short rfl more
  · obtain rfl := same 0x0c f
    exact .short rfl more
  · obtain rfl := same 0x0d r
    exact .short rfl more
  · have code : ∀ n : Fin 0x20, hexCode '0' '0' (hexDigit (n.val / 16)) (hexDigit (n.val % 16)) =
        some n.val := by decide
    have read := CharsAt.single (code ⟨c.toNat, control⟩) (by simp only; omega) more
    rw [Char.ofNat_toNat] at read
    exact read
  · exact .plain (by omega) quote backslash more

theorem charsAt_quoted (chars rest : List Char) :
    CharsAt (chars.flatMap escape ++ '"' :: rest) chars rest := by
  induction chars with
  | nil => exact .close rest
  | cons c chars ih =>
    rw [flatMap_cons, append_assoc]
    exact charsAt_escape c ih

theorem head_toDigits {n : Nat} (leading : (Nat.toDigits 10 n).head? = some '0') : n = 0 := by
  induction n using Nat.strongRecOn with
  | ind n ih =>
    rw [Nat.toDigits_eq_if (by decide)] at leading
    split_ifs at leading with small
    · have digit : ∀ n : Fin 10, Nat.digitChar n.val = '0' → n.val = 0 := by decide
      exact digit ⟨n, small⟩ (by simpa using leading)
    · rw [List.head?_append_of_ne_nil _ Nat.toDigits_ne_nil] at leading
      have quotient := ih (n / 10) (by omega) leading
      omega

theorem digits_repr (n : Nat) : Digits n.repr.toList := by
  obtain ⟨digit, nonempty, value⟩ := natDigits n
  have shape : n.repr.toList = Nat.toDigits 10 n := by simp [Nat.repr]
  refine ⟨digit, nonempty, fun leading => ?_⟩
  rw [shape] at leading
  rw [head_toDigits leading]
  decide

theorem intAt_toString (n : Int) (ends : NumberEnds rest) :
    IntAt ((toString n).toList ++ rest) n rest := by
  cases n with
  | ofNat m =>
    have read := IntAt.natural (digits_repr m) ends
    rw [(natDigits m).2.2] at read
    exact read
  | negSucc m =>
    have text : (toString (Int.negSucc m)).toList = '-' :: (m + 1).repr.toList := by
      change ("-" ++ (m + 1).repr).toList = _
      rw [String.toList_append]
      rfl
    have read := IntAt.negative (digits_repr (m + 1)) ends
    rw [(natDigits (m + 1)).2.2] at read
    rw [text]
    exact read

theorem numberEnds_cons (ends : c.isDigit = false ∧ c ≠ '.' ∧ c ≠ 'e' ∧ c ≠ 'E') : NumberEnds
    (c :: tail) := by
  intro first rest same
  cases same
  exact ends

/-- A value without white space around it. -/
theorem ValueAt.element {text : List Char} (inside : ValueAt text value rest)
    (ends : SpaceEnds rest) : ElementAt text value rest :=
  @ElementAt.mk [] text [] rest value (nofun) inside
    (nofun) ends

theorem blank_nil : Blank [] := nofun

mutual

theorem valueAt_render (value : Json) (whole : integral value = true) (rest : List Char)
    (ends : NumberEnds rest) : ValueAt (render value ++ rest) value rest := by
  match value with
  | .null => exact .null rest
  | .bool true => exact .yes rest
  | .bool false => exact .no rest
  | .int n => exact .int (intAt_toString n ends)
  | .real => simp [integral] at whole
  | .str text =>
    have read := ValueAt.str (charsAt_quoted text.toList rest)
    rw [String.ofList_toList] at read
    simpa [render, quoted] using read
  | .arr [] => exact .emptyArr blank_nil
  | .arr (item :: items) =>
    simp only [integral, integralItems, Bool.and_eq_true] at whole
    have read := ValueAt.arr (itemsAt_render whole.1 whole.2 rest)
    simpa [render, renderItems] using read
  | .obj [] => exact .emptyObj blank_nil
  | .obj ((name, value) :: members) =>
    simp only [integral, integralMembers, Bool.and_eq_true] at whole
    have read := ValueAt.obj (membersAt_render name whole.1 whole.2 rest)
    simpa [render, renderMembers, quoted] using read
termination_by sizeOf value
decreasing_by
  · simp only [Json.arr.sizeOf_spec, List.cons.sizeOf_spec]
    omega
  · simp only [Json.obj.sizeOf_spec, List.cons.sizeOf_spec, Prod.mk.sizeOf_spec]
    omega

theorem itemsAt_render {item : Json} {items : List Json} (whole : integral item = true)
    (others : integralItems items = true) (rest : List Char) :
    ItemsAt (render item ++ (renderMoreItems items ++ ']' :: rest)) (item :: items) rest := by
  match items with
  | [] =>
    have first := valueAt_render item whole (']' :: rest) (numberEnds_cons rest (by decide))
    exact .last (first.element (spaceEnds_cons rest (by decide)))
  | next :: items =>
    simp only [integralItems, Bool.and_eq_true] at others
    have tail := itemsAt_render others.1 others.2 rest
    have first := valueAt_render item whole
      (',' :: (render next ++ (renderMoreItems items ++ ']' :: rest)))
      (numberEnds_cons _ (by decide))
    simpa [renderMoreItems] using
      ItemsAt.more (first.element (spaceEnds_cons _ (by decide))) tail
termination_by sizeOf item + sizeOf items + 1
decreasing_by all_goals
  simp only [List.cons.sizeOf_spec, List.nil.sizeOf_spec]
  omega

theorem membersAt_render (name : String) {value : Json} {members : List (String × Json)}
    (whole : integral value = true) (others : integralMembers members = true) (rest : List Char) :
    MembersAt ('"' :: (name.toList.flatMap escape ++ '"' :: ':' :: (render value ++
      (renderMoreMembers members ++ '}' :: rest)))) ((name, value) :: members) rest := by
  match members with
  | [] =>
    have first := valueAt_render value whole ('}' :: rest) (numberEnds_cons rest (by decide))
    have read := @MembersAt.last [] _ _ [] _ _ _ blank_nil (charsAt_quoted name.toList _) blank_nil
      (first.element (spaceEnds_cons rest (by decide)))
    rw [String.ofList_toList] at read
    exact read
  | (next, nextValue) :: members =>
    simp only [integralMembers, Bool.and_eq_true] at others
    have tail := membersAt_render next others.1 others.2 rest
    have first := valueAt_render value whole
      (',' :: '"' :: (next.toList.flatMap escape ++ '"' :: ':' :: (render nextValue ++
        (renderMoreMembers members ++ '}' :: rest)))) (numberEnds_cons _ (by decide))
    have read := @MembersAt.more [] _ _ [] _ _ _ _ _ blank_nil (charsAt_quoted name.toList _)
      blank_nil (first.element (spaceEnds_cons _ (by decide))) tail
    rw [String.ofList_toList] at read
    simpa [renderMoreMembers, quoted] using read
termination_by sizeOf value + sizeOf members + 1
decreasing_by all_goals
  simp only [List.cons.sizeOf_spec, List.nil.sizeOf_spec, Prod.mk.sizeOf_spec]
  omega

end

/-- The compact text of a value denotes it. -/
theorem denotes_render {value : Json} (whole : integral value = true) :
    Denotes (ofList (render value)) value := by
  have read := valueAt_render value whole [] nofun
  rw [append_nil] at read
  rw [Denotes, String.toList_ofList]
  exact read.element spaceEnds_nil

/-! ## A correct reader -/

/-- The reader returns the value that a text denotes, wherever it is one whose numbers the
reader takes for integers. What it does with other texts is left open. -/
def ReadsDenoted (takes : Json → Bool) (reader : String → Option Json) : Prop :=
  ∀ text value, takes value = true → (reader text = some value ↔ Denotes text value)

open Classical in
/-- The value that a text denotes. -/
noncomputable def denoted (text : String) : Option Json :=
  if denotes : ∃ value, Denotes text value then some denotes.choose else none

theorem denoted_eq_some {text : String} :
    denoted text = some value ↔ Denotes text value := by
  unfold denoted
  split_ifs with denotes
  · rw [Option.some.injEq]
    constructor
    · intro same
      exact same ▸ denotes.choose_spec
    · exact denotes_unique denotes.choose_spec
  · constructor
    · exact nofun
    · intro found
      exact absurd ⟨value, found⟩ denotes

theorem readsDenoted_denoted (takes : Json → Bool) : ReadsDenoted takes denoted :=
  fun _ _ _ => denoted_eq_some

end Synergos.JsonGrammar
