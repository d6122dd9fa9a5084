import Synergos.Caveat

/-!
# Caveats as text

A caveat set is written as one JSON object and canonicalised. The gate of a
service reads that text again, and every block of a token carries it, so it has
to say the same as the set it was written from.

What reading checks of each caveat is kept as one invariant, `Sound`. Every set
that was read has it, narrowing keeps it, and a set that has it is read back
unchanged from the members it is written as, in whatever order they stand.
-/

namespace Synergos.CaveatText

open JsonText Jcs Caveat List

/-- The elements of a set in ascending order. -/
def ascending {α : Type} [LinearOrder α] (items : Finset α) : List α := items.sort (· ≤ ·)

def setJson (items : Finset String) : Json := .arr ((ascending items).map .str)

def projectJson (entry : String × String) : Json :=
  .obj [("project_ref", .str entry.1), ("role", .str entry.2)]

/-- Pairs are listed by their first component, then by their second. -/
def projectsJson (entries : Finset (String × String)) : Json :=
  .arr ((ascending (entries.map toLex.toEmbedding)).map (fun entry => projectJson (ofLex entry)))

/-- How a caveat that is not a string is written. -/
def otherValue (c : Caveats) : OtherCaveat → Option Json
  | .nbf => c.nbf.map .int
  | .exp => c.exp.map .int
  | .rosterEpoch => c.rosterEpoch.map .int
  | .maxUses => c.maxUses.map .int
  | .maxBytes => c.maxBytes.map .int
  | .maxBytesPerHour => c.maxBytesPerHour.map .int
  | .ops => c.ops.map setJson
  | .orgs => c.orgs.map setJson
  | .objectKeys => c.objectKeys.map setJson
  | .projects => c.projects.map projectsJson
  | .byteRange => c.byteRange.map (fun range => .arr [.int range.1, .int range.2])

def stringMember (c : Caveats) (caveat : StringCaveat) : Option (String × Json) :=
  (c.strings caveat).map (fun v => (caveat.name, .str v))

def otherMember (c : Caveats) (caveat : OtherCaveat) : Option (String × Json) :=
  (otherValue c caveat).map (fun value => (caveat.name, value))

/-- The members of the object that a caveat set is written as, in the order in
which they are appended. -/
def members (c : Caveats) : List (String × Json) :=
  StringCaveat.all.filterMap (stringMember c) ++
    [OtherCaveat.nbf, .exp, .maxUses, .maxBytes, .maxBytesPerHour, .rosterEpoch, .ops, .objectKeys,
      .orgs, .projects, .byteRange].filterMap (otherMember c)

/-- The canonical JSON of a caveat set. -/
def toJson (reader : String → Option Json) (c : Caveats) : Checked String :=
  canonicalize reader (String.ofList (render (.obj (members c))))

/-- Read caveats from a text that need not be canonical. -/
def parseCaveatsText (reader : String → Option Json) (caveatsJson : String) : Checked Caveats := do
  let canonical ← canonicalize reader caveatsJson
  match reader canonical with
  | some value => parseCaveats value
  | none => fail .lctMalformed "caveats must be an object"

/-! ## What reading checks -/

/-- What is checked of the value of a string caveat. -/
def ValidString (caveat : StringCaveat) (v : String) : Prop :=
  v ≠ "" ∧ (caveat = .downloadName → safeName v = true) ∧ (caveat = .keyPrefix → storageKey v = true)

/-- What is checked of a number; the upper bound is that of canonical JSON. -/
def ValidNumber (n : Int) : Prop := 0 ≤ n ∧ n ≤ maxSafeInteger

/-- What is checked of a list of strings. -/
def ValidSet (name : String) (items : Finset String) : Prop :=
  items.card ≤ maxCaveatItems ∧ ∀ text ∈ items, text ≠ "" ∧
    (name = "object_keys" → storageKey text = true)

/-- What is checked of the values of a caveat set. -/
structure ValidValues (c : Caveats) : Prop where
  strings : ∀ caveat, ∀ v ∈ c.strings caveat, ValidString caveat v
  nbf : ∀ n ∈ c.nbf, ValidNumber n
  exp : ∀ n ∈ c.exp, ValidNumber n
  maxUses : ∀ n ∈ c.maxUses, ValidNumber n
  maxBytes : ∀ n ∈ c.maxBytes, ValidNumber n
  maxBytesPerHour : ∀ n ∈ c.maxBytesPerHour, ValidNumber n
  rosterEpoch : ∀ n ∈ c.rosterEpoch, ValidNumber n
  ops : ∀ items ∈ c.ops, ValidSet "ops" items
  orgs : ∀ items ∈ c.orgs, ValidSet "orgs" items
  objectKeys : ∀ items ∈ c.objectKeys, ValidSet "object_keys" items
  projects : ∀ items ∈ c.projects, items.card ≤ maxCaveatItems ∧ ∀ entry ∈ items, entry.2 ∈ roles
  byteRange : ∀ range ∈ c.byteRange,
    ValidNumber range.1 ∧ ValidNumber range.2 ∧ range.1 ≤ range.2

/-- A caveat set as reading and narrowing produce it. -/
structure Sound (c : Caveats) : Prop where
  values : ValidValues c
  exclusive : c.objectKeys.isSome = true → c.strings .keyPrefix = none
  org : ∀ org ∈ c.strings .org, ∀ orgs ∈ c.orgs, org ∈ orgs
  label : ∀ jti ∈ c.strings .jti, jti ∈ c.chainJti

variable {α β : Type} {items : List Json} {reader : String → Option Json} {item value : Json}
  {entry : String × String} {entries : Finset (String × String)} {range : Int × Int} {n : Int}
  {c' : Caveats} {seen : Finset String} {member : String × Json} {v : String} (c : Caveats)
  (caveat : OtherCaveat)

theorem nonNegative_ok {name : String} (inside : safe value = true)
    (read : nonNegative value name = .ok n) : ValidNumber n := by
  cases value with
  | int m =>
    by_cases negative : m < 0
    · simp [nonNegative, negative, fail] at read
    · simp only [nonNegative, if_neg negative, Except.ok.injEq] at read
      subst read
      simp only [within, decide_eq_true_eq] at inside
      exact ⟨by omega, inside.2⟩
  | null | bool | real | str | arr | obj => simp [nonNegative, fail] at read

theorem parseEntry_ok {name : String} {text : String} (read : parseEntry name item = .ok text) :
    text ≠ "" ∧ (name = "object_keys" → storageKey text = true) := by
  cases item with
  | str t =>
    simp only [parseEntry, fail, ite_eq_iff, reduceCtorEq, and_false, false_or, Bool.and_eq_true,
      decide_eq_true_eq, Bool.not_eq_true', Except.ok.injEq] at read
    obtain ⟨nonempty, stored, rfl⟩ := read
    refine ⟨nonempty, fun isKeys => ?_⟩
    by_contra other
    exact stored ⟨isKeys, by simpa using other⟩
  | null | bool | int | real | arr | obj => simp [parseEntry, fail] at read

/-- Every result of a checked traversal is the result of one of its items. -/
theorem mapM_ok {step : α → Checked β} {items : List α} (results : List β)
    (mapped : items.mapM step = .ok results) :
    results.length = items.length ∧ ∀ result ∈ results, ∃ item ∈ items, step item = .ok result := by
  induction items generalizing results with
  | nil =>
    obtain rfl : [] = results := by simpa [pure_ok] using mapped
    simp
  | cons item rest ih =>
    simp only [mapM_cons, bind_ok, pure_ok] at mapped
    obtain ⟨first, stepped, more, mapped, rfl⟩ := mapped
    obtain ⟨length, each⟩ := ih more mapped
    refine ⟨by simp [length], ?_⟩
    intro result present
    rcases mem_cons.mp present with rfl | present
    · exact ⟨item, by simp, stepped⟩
    · obtain ⟨source, member, produced⟩ := each result present
      exact ⟨source, by simp [member], produced⟩

theorem itemsBounded_ok {name : String} {result : Unit}
    (bounded : itemsBounded items name = .ok result) : items.length ≤ maxCaveatItems := by
  by_contra large
  simp [itemsBounded, Nat.lt_of_not_le large, fail] at bounded

/-- The set that a bounded list is read as. -/
theorem bounded_mapM_ok [DecidableEq β] {name : String} {result : Unit} {step : Json → Checked β}
    {results : List β} (bounded : itemsBounded items name = .ok result)
    (mapped : items.mapM step = .ok results) {valid : β → Prop}
    (read : ∀ item result, step item = .ok result → valid result) :
    results.toFinset.card ≤ maxCaveatItems ∧ ∀ result ∈ results.toFinset, valid result := by
  obtain ⟨length, each⟩ := mapM_ok _ mapped
  constructor
  · have small := itemsBounded_ok bounded
    have dedup := toFinset_card_le results
    omega
  · intro result present
    obtain ⟨item, _, produced⟩ := each result (mem_toFinset.mp present)
    exact read item result produced

theorem parseStrings_ok {name : String} {items : Finset String}
    (read : parseStrings value name = .ok items) : ValidSet name items := by
  cases value with
  | arr entries =>
    simp only [parseStrings, bind_ok, pure_ok] at read
    obtain ⟨_, bounded, texts, mapped, rfl⟩ := read
    exact bounded_mapM_ok bounded mapped fun _ _ produced => parseEntry_ok produced
  | null | bool | int | real | str | obj => simp [parseStrings, fail] at read

theorem parseProject_ok (read : parseProject item = .ok entry) : entry.2 ∈ roles := by
  unfold parseProject at read
  split at read
  · split_ifs at read with known
    · obtain rfl := Except.ok.inj read
      exact known
    · simp [fail] at read
  · simp [fail] at read

theorem parseProjects_ok (read : parseProjects value = .ok entries) :
    entries.card ≤ maxCaveatItems ∧ ∀ entry ∈ entries, entry.2 ∈ roles := by
  cases value with
  | arr items =>
    simp only [parseProjects, bind_ok, pure_ok] at read
    obtain ⟨_, bounded, found, mapped, rfl⟩ := read
    exact bounded_mapM_ok bounded mapped fun _ _ produced => parseProject_ok produced
  | null | bool | int | real | str | obj => simp [parseProjects, fail] at read

theorem parseByteRange_ok (inside : safe value = true) (read : parseByteRange value = .ok range) :
    ValidNumber range.1 ∧ ValidNumber range.2 ∧ range.1 ≤ range.2 := by
  unfold parseByteRange at read
  split at read
  · simp only [bind_ok] at read
    obtain ⟨first, firstRead, last, lastRead, read⟩ := read
    simp only [within, withinItems, Bool.and_true, Bool.and_eq_true] at inside
    have validFirst := nonNegative_ok inside.1 firstRead
    have validLast := nonNegative_ok inside.2 lastRead
    by_cases reversed : last < first
    · simp [reversed, fail] at read
    · simp only [if_neg reversed] at read
      obtain rfl : (first, last) = range := by simpa [pure_ok, bind_ok] using read
      exact ⟨validFirst, validLast, by omega⟩
  · simp [fail] at read

/-- The label of a set is among the labels of its chain. -/
def Labelled (c : Caveats) : Prop := ∀ jti ∈ c.strings .jti, jti ∈ c.chainJti

theorem parseString_keeps {c : Caveats} {caveat : StringCaveat}
    (read : parseString c caveat value = .ok c') (valid : ValidValues c) (labelled : Labelled c) :
    ValidValues c' ∧ Labelled c' := by
  cases value with
  | str text =>
    simp only [parseString, fail, ite_eq_iff, reduceCtorEq, and_false, false_or, Bool.and_eq_true,
      decide_eq_true_eq, Bool.not_eq_true', Except.ok.injEq] at read
    obtain ⟨nonempty, named, stored, rfl⟩ := read
    have validText : ValidString caveat text :=
      ⟨nonempty, fun same => by simpa [same] using named, fun same => by simpa [same] using stored⟩
    refine ⟨{ valid with strings := ?_ }, ?_⟩
    · intro other v held
      obtain rfl | same := eq_or_ne other caveat
      · have stays : (c.strings other).getD text = v := by simpa using held
        cases present : c.strings other with
        | none => simpa [present, ← stays] using validText
        | some previous =>
          obtain rfl : previous = v := by simpa [present] using stays
          exact valid.strings other previous present
      · exact valid.strings other v (by simpa [Strings.set_of_ne _ _ same] using held)
    · intro jti held
      obtain rfl | same := eq_or_ne caveat .jti
      · cases present : c.strings .jti with
        | none => simp_all
        | some previous =>
          have member := labelled previous present
          simp_all
      · have different : StringCaveat.jti ≠ caveat := fun equal => same equal.symm
        have before := labelled jti (by simpa [Strings.set_of_ne _ _ different] using held)
        simpa [same] using before
  | null | bool | int | real | arr | obj => simp [parseString, fail] at read

theorem parseOther_keeps {c : Caveats} {caveat : OtherCaveat} (inside : safe value = true)
    (read : parseOther c caveat value = .ok c') (valid : ValidValues c) (labelled : Labelled c) :
    ValidValues c' ∧ Labelled c' := by
  cases caveat <;> simp only [parseOther, bind_ok, pure_ok] at read <;>
    obtain ⟨result, parsed, rfl⟩ := read <;> refine ⟨?_, labelled⟩
  case nbf => exact { valid with nbf := by simpa using nonNegative_ok inside parsed }
  case exp => exact { valid with exp := by simpa using nonNegative_ok inside parsed }
  case rosterEpoch =>
    exact { valid with rosterEpoch := by simpa using nonNegative_ok inside parsed }
  case maxUses => exact { valid with maxUses := by simpa using nonNegative_ok inside parsed }
  case maxBytes => exact { valid with maxBytes := by simpa using nonNegative_ok inside parsed }
  case maxBytesPerHour =>
    exact { valid with maxBytesPerHour := by simpa using nonNegative_ok inside parsed }
  case ops => exact { valid with ops := by simpa using parseStrings_ok parsed }
  case orgs => exact { valid with orgs := by simpa using parseStrings_ok parsed }
  case objectKeys => exact { valid with objectKeys := by simpa using parseStrings_ok parsed }
  case projects =>
    have entries := parseProjects_ok parsed
    exact { valid with projects := by rintro _ ⟨⟩; exact entries }
  case byteRange =>
    have range := parseByteRange_ok inside parsed
    exact { valid with byteRange := by rintro _ ⟨⟩; exact range }

theorem parseMember_keeps {c : Caveats} (inside : safe member.2 = true)
    (read : parseMember c member = .ok c') (valid : ValidValues c) (labelled : Labelled c) :
    ValidValues c' ∧ Labelled c' := by
  unfold parseMember at read
  split at read
  · exact parseString_keeps read valid labelled
  · split at read
    · exact parseOther_keeps inside read valid labelled
    · simp [fail] at read

theorem parseMembers_keeps (members : List (String × Json)) (c c' : Caveats)
    (inside : withinMembers (-maxSafeInteger) maxSafeInteger members = true)
    (read : members.foldlM parseMember c = .ok c') (valid : ValidValues c) (labelled : Labelled c) :
    ValidValues c' ∧ Labelled c' := by
  refine foldlM_keeps (fun c => ValidValues c ∧ Labelled c) ⟨valid, labelled⟩ ?_ read
  rintro member present middle next first ⟨validMiddle, labelledMiddle⟩
  exact parseMember_keeps (withinMembers_iff.mp inside member present) first validMiddle
    labelledMiddle

theorem validValues_empty : ValidValues {} := by
  constructor <;> simp [Strings.none]

/-- Every caveat set that was read is sound. -/
theorem parseCaveats_sound {c : Caveats} (inside : safe value = true)
    (read : parseCaveats value = .ok c) : Sound c := by
  cases value with
  | obj members =>
    simp only [parseCaveats, bind_ok] at read
    obtain ⟨folded, first, read⟩ := read
    obtain ⟨valid, labelled⟩ := parseMembers_keeps members {} folded (by simpa [within] using inside)
      first validValues_empty (by simp [Labelled, Strings.none])
    by_cases both : (folded.objectKeys.isSome && (folded.strings .keyPrefix).isSome) = true
    · simp [both, fail] at read
    · simp only [both, Bool.false_eq_true, if_false] at read
      have exclusive : folded.objectKeys.isSome = true → folded.strings .keyPrefix = none := by
        intro listed
        simpa [listed] using both
      split at read
      · rename_i org orgs held listed
        split_ifs at read with inside
        · obtain rfl : folded = c := by simpa [pure_ok] using read
          refine ⟨valid, exclusive, ?_, labelled⟩
          intro other held' others listed'
          rw [Option.mem_def, held] at held'
          rw [Option.mem_def, listed] at listed'
          obtain rfl := Option.some.inj held'
          obtain rfl := Option.some.inj listed'
          exact inside
        · simp [fail] at read
      · rename_i absent
        obtain rfl : folded = c := by simpa [pure_ok] using read
        exact ⟨valid, exclusive, fun org held orgs listed => absurd listed (absent org orgs held), labelled⟩
  | null | bool | int | real | str | arr => simp [parseCaveats, fail] at read

/-! ## Reading back -/

theorem ofName?_name (caveat : StringCaveat) : StringCaveat.ofName? caveat.name = some caveat := by
  cases caveat <;> decide

theorem ofName?_otherName : StringCaveat.ofName? caveat.name = none := by
  cases caveat <;> decide

theorem otherOfName?_name : OtherCaveat.ofName? caveat.name = some caveat := by
  cases caveat <;> decide

@[simp] theorem stringName_inj {left right : StringCaveat} :
    left.name = right.name ↔ left = right := by
  constructor
  · intro same
    have found := congrArg StringCaveat.ofName? same
    rw [ofName?_name, ofName?_name] at found
    exact Option.some.inj found
  · rintro rfl
    rfl

@[simp] theorem otherName_inj {left right : OtherCaveat} :
    left.name = right.name ↔ left = right := by
  constructor
  · intro same
    have found := congrArg OtherCaveat.ofName? same
    rw [otherOfName?_name, otherOfName?_name] at found
    exact Option.some.inj found
  · rintro rfl
    rfl

@[simp] theorem stringName_ne_otherName (text : StringCaveat) (other : OtherCaveat) :
    text.name ≠ other.name := by
  intro same
  have found := ofName?_name text
  rw [same, ofName?_otherName] at found
  cases found

@[simp] theorem otherName_ne_stringName (text : StringCaveat) (other : OtherCaveat) :
    other.name ≠ text.name :=
  (stringName_ne_otherName text other).symm

/-- The caveats with the seen names only; the labels are those of a single
block. -/
def restrict (c : Caveats) (seen : Finset String) : Caveats where
  strings := fun caveat => if caveat.name ∈ seen then c.strings caveat else none
  nbf := if OtherCaveat.nbf.name ∈ seen then c.nbf else none
  exp := if OtherCaveat.exp.name ∈ seen then c.exp else none
  maxUses := if OtherCaveat.maxUses.name ∈ seen then c.maxUses else none
  maxBytes := if OtherCaveat.maxBytes.name ∈ seen then c.maxBytes else none
  maxBytesPerHour := if OtherCaveat.maxBytesPerHour.name ∈ seen then c.maxBytesPerHour else none
  rosterEpoch := if OtherCaveat.rosterEpoch.name ∈ seen then c.rosterEpoch else none
  ops := if OtherCaveat.ops.name ∈ seen then c.ops else none
  orgs := if OtherCaveat.orgs.name ∈ seen then c.orgs else none
  projects := if OtherCaveat.projects.name ∈ seen then c.projects else none
  objectKeys := if OtherCaveat.objectKeys.name ∈ seen then c.objectKeys else none
  byteRange := if OtherCaveat.byteRange.name ∈ seen then c.byteRange else none
  chainJti := if StringCaveat.jti.name ∈ seen then (c.strings .jti).elim ∅ singleton else ∅

theorem parseString_restrict {c : Caveats} (valid : ValidValues c) {caveat : StringCaveat}
    (held : c.strings caveat = some v) (new : caveat.name ∉ seen) :
    parseString (restrict c seen) caveat (.str v) =
      .ok (restrict c (insert caveat.name seen)) := by
  obtain ⟨nonempty, named, stored⟩ := valid.strings caveat v held
  have unseen : (restrict c seen).strings caveat = none := by simp [restrict, new]
  have first : ¬ ((caveat = .downloadName && !safeName v) = true) := by
    by_cases same : caveat = .downloadName <;> simp_all
  have second : ¬ ((caveat = .keyPrefix && !storageKey v) = true) := by
    by_cases same : caveat = .keyPrefix <;> simp_all
  simp only [parseString, if_neg nonempty, if_neg first, if_neg second, unseen, Option.getD_none]
  have strings : (restrict c seen).strings.set caveat v =
      (restrict c (insert caveat.name seen)).strings := by
    funext other
    obtain rfl | same := eq_or_ne other caveat
    · simp [restrict, held]
    · rw [Strings.set_of_ne _ _ same]
      simp [restrict, same]
  have labels : (if caveat = .jti then insert v (restrict c seen).chainJti
      else (restrict c seen).chainJti) = (restrict c (insert caveat.name seen)).chainJti := by
    obtain rfl | same := eq_or_ne caveat .jti
    · simp [restrict, held, new]
    · have different : StringCaveat.jti ≠ caveat := fun equal => same equal.symm
      simp [restrict, same, different]
  rw [strings, labels]
  simp [restrict]

theorem nonNegative_int {name : String} (valid : ValidNumber n) :
    nonNegative (.int n) name = .ok n := by
  simp [nonNegative, Int.not_lt.mpr valid.1]

/-- A traversal of encoded items reads back what was encoded. -/
theorem mapM_encoded {encode : β → α} {step : α → Checked β} {items : List β}
    (each : ∀ item ∈ items, step (encode item) = .ok item) :
    (items.map encode).mapM step = .ok items := by
  induction items with
  | nil => rfl
  | cons item rest ih =>
    have more := ih fun other present => each other (by simp [present])
    rw [map_cons, mapM_cons, each item (by simp), more]
    rfl

theorem itemsBounded_small (name : String)
    (small : items.length ≤ maxCaveatItems) : itemsBounded items name = .ok () := by
  simp [itemsBounded, Nat.not_lt.mpr small]

theorem parseStrings_setJson {name : String} {items : Finset String} (valid : ValidSet name items) :
    parseStrings (setJson items) name = .ok items := by
  have each : ∀ text ∈ ascending items, parseEntry name (.str text) = .ok text := by
    intro text member
    obtain ⟨nonempty, stored⟩ := valid.2 text (by simpa [ascending] using member)
    have accepted : ¬ ((name = "object_keys" && !storageKey text) = true) := by
      by_cases same : name = "object_keys" <;> simp_all
    simp [parseEntry, nonempty, accepted]
  have small : ((ascending items).map Json.str).length ≤ maxCaveatItems := by
    simpa [ascending] using valid.1
  simp only [parseStrings, setJson, itemsBounded_small name small, mapM_encoded each]
  simp [ascending]

theorem parseProject_projectJson (known : entry.2 ∈ roles) :
    parseProject (projectJson entry) = .ok entry := by
  simp [parseProject, projectJson, Json.size, Json.get?, known]

theorem parseProjects_projectsJson (small : entries.card ≤ maxCaveatItems)
    (known : ∀ entry ∈ entries, entry.2 ∈ roles) :
    parseProjects (projectsJson entries) = .ok entries := by
  let listed := (ascending (entries.map toLex.toEmbedding)).map ofLex
  have same : listed.toFinset = entries := by
    ext entry
    simp [listed, ascending]
  have each : ∀ entry ∈ listed, parseProject (projectJson entry) = .ok entry := by
    intro entry member
    have present : entry ∈ entries := by
      rw [← same]
      simpa using member
    exact parseProject_projectJson (known entry present)
  have text : projectsJson entries = .arr (listed.map projectJson) := by
    simp [projectsJson, listed]
  have short : (listed.map projectJson).length ≤ maxCaveatItems := by
    simpa [listed, ascending] using small
  simp only [text, parseProjects, itemsBounded_small "projects" short, mapM_encoded each]
  simp [same]

theorem parseByteRange_pair
    (valid : ValidNumber range.1 ∧ ValidNumber range.2 ∧ range.1 ≤ range.2) :
    parseByteRange (.arr [.int range.1, .int range.2]) = .ok range := by
  simp only [parseByteRange, nonNegative_int valid.1, nonNegative_int valid.2.1]
  simp [Int.not_lt.mpr valid.2.2]

theorem parseOther_restrict {c : Caveats} (valid : ValidValues c) {caveat : OtherCaveat}
    (held : otherValue c caveat = some value) (new : caveat.name ∉ seen) :
    parseOther (restrict c seen) caveat value = .ok (restrict c (insert caveat.name seen)) := by
  cases caveat <;>
    (simp only [otherValue, Option.map_eq_some_iff] at held; obtain ⟨field, present, rfl⟩ := held) <;>
    refine (bind_ok _ _ _).mpr ⟨field, ?_, by simp [restrict, present]⟩
  case nbf => exact nonNegative_int (valid.nbf _ present)
  case exp => exact nonNegative_int (valid.exp _ present)
  case rosterEpoch => exact nonNegative_int (valid.rosterEpoch _ present)
  case maxUses => exact nonNegative_int (valid.maxUses _ present)
  case maxBytes => exact nonNegative_int (valid.maxBytes _ present)
  case maxBytesPerHour => exact nonNegative_int (valid.maxBytesPerHour _ present)
  case ops => exact parseStrings_setJson (valid.ops _ present)
  case orgs => exact parseStrings_setJson (valid.orgs _ present)
  case objectKeys => exact parseStrings_setJson (valid.objectKeys _ present)
  case projects =>
    obtain ⟨small, known⟩ := valid.projects _ present
    exact parseProjects_projectsJson small known
  case byteRange => exact parseByteRange_pair (valid.byteRange _ present)

/-- A member that is written is that of a caveat that is held. -/
theorem mem_members : member ∈ members c ↔
    (∃ caveat v, c.strings caveat = some v ∧ (caveat.name, Json.str v) = member) ∨
      ∃ caveat value, otherValue c caveat = some value ∧ (caveat.name, value) = member := by
  have listed (caveat : OtherCaveat) : caveat ∈ [OtherCaveat.nbf, .exp, .maxUses, .maxBytes,
      .maxBytesPerHour, .rosterEpoch, .ops, .objectKeys, .orgs, .projects, .byteRange] := by
    cases caveat <;> decide
  simp [members, mem_filterMap, stringMember, otherMember, StringCaveat.mem_all, listed]

/-- Each member of a written set is read back into its own place. -/
theorem parseMember_restrict {c : Caveats} (valid : ValidValues c) (written : member ∈ members c)
    (new : member.1 ∉ seen) :
    parseMember (restrict c seen) member = .ok (restrict c (insert member.1 seen)) := by
  rcases (mem_members c).mp written with ⟨caveat, v, held, rfl⟩ | ⟨caveat, value, held, rfl⟩
  · simp only [parseMember, ofName?_name]
    exact parseString_restrict valid held new
  · simp only [parseMember, ofName?_otherName, otherOfName?_name]
    exact parseOther_restrict valid held new

theorem parseMembers_restrict (valid : ValidValues c) (remaining : List (String × Json))
    (seen : Finset String) (written : ∀ member ∈ remaining, member ∈ members c)
    (distinct : (remaining.map Prod.fst).Nodup) (new : ∀ member ∈ remaining, member.1 ∉ seen) :
    remaining.foldlM parseMember (restrict c seen) =
      .ok (restrict c ((remaining.map Prod.fst).toFinset ∪ seen)) := by
  induction remaining generalizing seen with
  | nil => simp
  | cons member rest ih =>
    simp only [map_cons, nodup_cons] at distinct
    have next := ih (insert member.1 seen)
      (fun other present => written other (by simp [present])) distinct.2 (by
        intro other present
        have different : other.1 ≠ member.1 := by
          intro same
          exact distinct.1 (same ▸ mem_map_of_mem present)
        simp [different, new other (by simp [present])])
    rw [foldlM_cons, parseMember_restrict valid (written member (by simp))
      (new member (by simp))]
    simp only [ok_bind]
    rw [next]
    congr 2
    ext name
    simp

/-- The set as a single block with the same caveats carries it. -/
def single (c : Caveats) : Caveats := { c with chainJti := (c.strings .jti).elim ∅ singleton }

theorem mem_names_string {c : Caveats} {caveat : StringCaveat} (held : c.strings caveat = some v) :
    caveat.name ∈ ((members c).map Prod.fst).toFinset := by
  refine mem_toFinset.mpr (mem_map.mpr ⟨(caveat.name, .str v), ?_, rfl⟩)
  exact (mem_members c).mpr (.inl ⟨caveat, v, held, rfl⟩)

theorem mem_names_other (value : Json) (held : otherValue c caveat = some value) :
    caveat.name ∈ ((members c).map Prod.fst).toFinset := by
  refine mem_toFinset.mpr (mem_map.mpr ⟨(caveat.name, value), ?_, rfl⟩)
  exact (mem_members c).mpr (.inr ⟨caveat, value, held, rfl⟩)

/-- A field that is written is kept, one that is not is absent anyway. -/
theorem kept_field {field : Option α}
    {encode : α → Json} (written : otherValue c caveat = field.map encode) :
    (if caveat.name ∈ ((members c).map Prod.fst).toFinset then field else none) = field := by
  cases present : field with
  | none => simp
  | some value =>
    rw [if_pos]
    exact mem_names_other c caveat (encode value) (by simp [written, present])

theorem restrict_members :
    restrict c ((members c).map Prod.fst).toFinset = single c := by
  have strings : (restrict c ((members c).map Prod.fst).toFinset).strings = c.strings := by
    funext caveat
    cases held : c.strings caveat with
    | none => simp [restrict, held]
    | some v => simp [restrict, if_pos (mem_names_string held), held]
  have labels : (restrict c ((members c).map Prod.fst).toFinset).chainJti =
      (c.strings .jti).elim ∅ singleton := by
    cases held : c.strings .jti with
    | none => simp [restrict, held]
    | some v => simp [restrict, if_pos (mem_names_string held), held]
  simp only [restrict] at strings labels
  simp [restrict, single, strings, labels, kept_field c .nbf rfl, kept_field c .exp rfl,
    kept_field c .maxUses rfl, kept_field c .maxBytes rfl, kept_field c .maxBytesPerHour rfl,
    kept_field c .rosterEpoch rfl, kept_field c .ops rfl, kept_field c .orgs rfl,
    kept_field c .objectKeys rfl, kept_field c .projects rfl, kept_field c .byteRange rfl]

theorem names_sublist (name : α → String) (make : α → Option (String × Json))
    (named : ∀ item member, make item = some member → member.1 = name item) (items : List α) :
    ((items.filterMap make).map Prod.fst).Sublist (items.map name) := by
  induction items with
  | nil => simp
  | cons item rest ih =>
    cases made : make item with
    | none =>
      simp only [filterMap_cons, made, map_cons]
      exact ih.cons _
    | some member =>
      simp only [filterMap_cons, made, map_cons, named item member made]
      exact ih.cons_cons _

theorem names_nodup : ((members c).map Prod.fst).Nodup := by
  have strings := names_sublist StringCaveat.name (stringMember c) (by
    intro caveat member made
    simp only [stringMember, Option.map_eq_some_iff] at made
    obtain ⟨_, _, rfl⟩ := made
    rfl) StringCaveat.all
  have others := names_sublist OtherCaveat.name (otherMember c) (by
    intro caveat member made
    simp only [otherMember, Option.map_eq_some_iff] at made
    obtain ⟨_, _, rfl⟩ := made
    rfl) [OtherCaveat.nbf, .exp, .maxUses, .maxBytes, .maxBytesPerHour, .rosterEpoch, .ops,
      .objectKeys, .orgs, .projects, .byteRange]
  rw [members, map_append]
  refine (strings.append others).nodup ?_
  decide

theorem sorted_strings (texts : List String) : sortedItems
    (texts.map Json.str) = texts.map Json.str := by
  rw [sortedItems_eq_map, map_map]
  rfl

theorem sorted_projectJson (entry : String × String) : sorted
    (projectJson entry) = projectJson entry := by
  have before : Before (α := Json) ("project_ref", .str entry.1) ("role", .str entry.2) := by
    change utf16 "project_ref" ≤ utf16 "role"
    decide
  simp [projectJson, sorted, sortedMembers, before]

/-- The values that caveats are written as are in canonical order. -/
theorem sorted_otherValue {c : Caveats} {caveat : OtherCaveat}
    (held : otherValue c caveat = some value) : sorted value = value := by
  cases caveat <;>
    (simp only [otherValue, Option.map_eq_some_iff] at held; obtain ⟨field, _, rfl⟩ := held)
  case ops | orgs | objectKeys => simp [setJson, sorted, sorted_strings]
  case projects =>
    simp [projectsJson, sorted, sortedItems_eq_map, map_map, sorted_projectJson]
  case byteRange => simp [sorted, sortedItems]
  all_goals rfl

theorem sortedMembers_members : sortedMembers (members c) = members c := by
  rw [sortedMembers_eq_map]
  have each : ∀ member ∈ members c, (member.1, sorted member.2) = member := by
    intro member written
    rcases (mem_members c).mp written with ⟨caveat, v, _, rfl⟩ | ⟨caveat, value, held, rfl⟩
    · rfl
    · simp [sorted_otherValue held]
  calc (members c).map (fun member => (member.1, sorted member.2))
      = (members c).map id := map_congr_left each
    _ = members c := map_id _

/-- A sound caveat set is read back from what it is written as, up to the labels
of earlier blocks. -/
theorem parseCaveats_written (sound : Sound c) :
    parseCaveats (sorted (.obj (members c))) = .ok (single c) := by
  let ordered := (members c).insertionSort Before
  have permuted : ordered.Perm (members c) := perm_insertionSort Before (members c)
  have names : (ordered.map Prod.fst).toFinset = ((members c).map Prod.fst).toFinset := by
    ext name
    simp [(permuted.map Prod.fst).mem_iff]
  have folded : ordered.foldlM parseMember {} = .ok (single c) := by
    have start : restrict c ∅ = {} := by
      simp only [restrict, Finset.notMem_empty, if_false]
      rfl
    rw [← start, parseMembers_restrict c sound.values ordered ∅
      (fun member present => permuted.mem_iff.mp present)
      ((permuted.map Prod.fst).nodup_iff.mpr (names_nodup c)) (by simp),
      Finset.union_empty, names, restrict_members]
  have canonical : sorted (.obj (members c)) = .obj ordered := by
    simp [sorted, sortedMembers_members, ordered]
  have exclusive : ¬ ((single c).objectKeys.isSome && ((single c).strings .keyPrefix).isSome) = true := by
    intro both
    simp only [single, Bool.and_eq_true] at both
    rw [sound.exclusive both.1] at both
    exact Bool.noConfusion both.2
  simp only [canonical, parseCaveats, folded, ok_bind, exclusive]
  cases org : (single c).strings .org with
  | none => simp
  | some org' =>
    cases orgs : (single c).orgs with
    | none => simp
    | some orgs' =>
      have inside := sound.org org' org orgs' orgs
      simp [inside]

theorem safe_number (valid : ValidNumber n) : safe (.int n) = true := by
  obtain ⟨nonnegative, small⟩ := valid
  simp only [safe, within, decide_eq_true_eq]
  omega

theorem safe_setJson (items : Finset String) : safe (setJson items) = true := by
  simp only [safe, setJson, within, withinItems_iff]
  intro item present
  obtain ⟨text, _, rfl⟩ := mem_map.mp present
  rfl

theorem safe_otherValue {c : Caveats} (valid : ValidValues c) {caveat : OtherCaveat}
    (held : otherValue c caveat = some value) : safe value = true := by
  cases caveat <;>
    (simp only [otherValue, Option.map_eq_some_iff] at held; obtain ⟨field, present, rfl⟩ := held)
  case nbf => exact safe_number (valid.nbf field present)
  case exp => exact safe_number (valid.exp field present)
  case rosterEpoch => exact safe_number (valid.rosterEpoch field present)
  case maxUses => exact safe_number (valid.maxUses field present)
  case maxBytes => exact safe_number (valid.maxBytes field present)
  case maxBytesPerHour => exact safe_number (valid.maxBytesPerHour field present)
  case ops | orgs | objectKeys => exact safe_setJson field
  case projects =>
    simp only [safe, projectsJson, within, withinItems_iff]
    intro item present
    obtain ⟨entry, _, rfl⟩ := mem_map.mp present
    rfl
  case byteRange =>
    obtain ⟨first, last, _⟩ := valid.byteRange field present
    change (safe (.int field.1) && (safe (.int field.2) && true)) = true
    rw [safe_number first, safe_number last]
    rfl

theorem safe_members (valid : ValidValues c) : safe (.obj (members c)) = true := by
  simp only [safe, within, withinMembers_iff]
  intro member written
  rcases (mem_members c).mp written with ⟨caveat, v, _, rfl⟩ | ⟨caveat, value, held, rfl⟩
  · rfl
  · exact safe_otherValue valid held

/-- A sound caveat set is written as the compact text of its members in
canonical order. -/
theorem toJson_ok (law : ReadsCompact reader) {c : Caveats}
    (sound : Sound c) {text : String} (written : toJson reader c = .ok text) :
    Canonical (sorted (.obj (members c))) ∧
      text = String.ofList (render (sorted (.obj (members c)))) :=
  canonicalize_render law (machine_of_safe (safe_members c sound.values)) written

/-- The caveats of a canonical value are read from its compact text. -/
theorem parseCaveatsText_done (law : ReadsCompact reader)
    (settled : Canonical value) (light : weight value ≤ maxBytes) {c : Caveats}
    (read : parseCaveats value = .ok c) :
    parseCaveatsText reader (String.ofList (render value)) = .ok c := by
  simp [parseCaveatsText, canonicalize_of_canonical law settled (render_size _ _ light),
    read_of_canonical law settled, read]

/-- Caveats that were read from a text are sound. -/
theorem parseCaveatsText_sound (law : ReadsCompact reader)
    {caveatsJson : String} {c : Caveats} (read : parseCaveatsText reader caveatsJson = .ok c) :
    Sound c := by
  simp only [parseCaveatsText, bind_ok] at read
  obtain ⟨canonical, canonicalized, read⟩ := read
  obtain ⟨_, value, _, settled, rfl⟩ := canonicalize_ok canonicalized
  rw [read_of_canonical law settled] at read
  exact parseCaveats_sound settled.2.2 read

/-! ## Narrowing keeps what reading checks -/

/-- A string caveat of the result comes from the held set or from the new block. -/
theorem narrowStrings_source {objectKeys : Option (Finset String)} {theirs : Strings}
    {names : List StringCaveat} (mine : Strings) {result : Strings}
    (narrowed : names.foldlM (narrowString objectKeys theirs) mine = .ok result)
    (caveat : StringCaveat) (v : String) (held : result caveat = some v) :
    mine caveat = some v ∨ (theirs caveat = some v ∧ (caveat = .keyPrefix → objectKeys = none)) := by
  refine foldlM_keeps (fun held => ∀ caveat v, held caveat = some v → mine caveat = some v ∨
    (theirs caveat = some v ∧ (caveat = .keyPrefix → objectKeys = none)))
    (fun _ _ held => .inl held) ?_ narrowed caveat v held
  intro name _ middle next first earlier caveat v inNext
  rcases narrowString_ok first with rfl | ⟨new, given, rfl, _, keys⟩
  · exact earlier caveat v inNext
  · obtain rfl | same := eq_or_ne caveat name
    · rw [Strings.set_self] at inNext
      exact .inr ⟨given.trans inNext, keys⟩
    · exact earlier caveat v ((Strings.set_of_ne middle new same).symm.trans inNext)

/-- What is checked of a field of both sets is true of the narrowed one. -/
theorem narrowField_valid {within : α → α → Prop} [DecidableRel within] {what : String}
    {mine theirs result : Option α} (narrowed : narrowField within what mine theirs = .ok result)
    {valid : α → Prop} (held : ∀ v ∈ mine, valid v) (new : ∀ v ∈ theirs, valid v) :
    ∀ v ∈ result, valid v := by
  obtain ⟨rfl, _⟩ := narrowField_ok narrowed
  cases theirs with
  | none => simpa using held
  | some value => simpa using new

theorem narrow_sound {e n e' : Caveats} (soundHeld : Sound e) (soundNew : Sound n)
    (narrowing : narrow e n = .ok e') : Sound e' := by
  obtain ⟨folded, narrowed⟩ := narrow_ok narrowing
  have mine := soundHeld.values
  have theirs := soundNew.values
  have source := narrowStrings_source e.strings narrowed.strings
  have kept (caveat : StringCaveat) (v : String) (held : e'.strings caveat = some v) :
      folded caveat = some v := by
    obtain rfl | isPrefix := eq_or_ne caveat .keyPrefix
    · cases listed : n.objectKeys with
      | none => exact (narrowed.keys.unlisted listed).2 ▸ held
      | some keys =>
        simp [(narrowed.keys.listed keys listed).2.1] at held
    · exact (narrowed.keys.others caveat isPrefix).symm.trans held
  constructor
  case values =>
    constructor
    case strings =>
      intro caveat v held
      rcases source caveat v (kept caveat v held) with held | ⟨given, _⟩
      · exact mine.strings caveat v held
      · exact theirs.strings caveat v given
    case nbf => exact narrowField_valid narrowed.nbf mine.nbf theirs.nbf
    case exp => exact narrowField_valid narrowed.exp mine.exp theirs.exp
    case maxUses => exact narrowField_valid narrowed.maxUses mine.maxUses theirs.maxUses
    case maxBytes => exact narrowField_valid narrowed.maxBytes mine.maxBytes theirs.maxBytes
    case maxBytesPerHour => exact narrowField_valid narrowed.maxBytesPerHour mine.maxBytesPerHour theirs.maxBytesPerHour
    case rosterEpoch => exact narrowField_valid narrowed.rosterEpoch mine.rosterEpoch theirs.rosterEpoch
    case ops => exact narrowField_valid narrowed.ops mine.ops theirs.ops
    case orgs => exact narrowField_valid narrowed.orgs mine.orgs theirs.orgs
    case objectKeys =>
      cases listed : n.objectKeys with
      | none => exact (narrowed.keys.unlisted listed).1 ▸ mine.objectKeys
      | some keys =>
        rw [(narrowed.keys.listed keys listed).1, ← listed]
        exact theirs.objectKeys
    case projects => exact narrowField_valid narrowed.projects mine.projects theirs.projects
    case byteRange => exact narrowField_valid narrowed.byteRange mine.byteRange theirs.byteRange
  case exclusive =>
    intro listed
    cases given : n.objectKeys with
    | some keys => exact (narrowed.keys.listed keys given).2.1
    | none =>
      obtain ⟨same, unchanged⟩ := narrowed.keys.unlisted given
      rw [same] at listed
      rw [unchanged]
      by_contra held
      obtain ⟨v, found⟩ := Option.ne_none_iff_exists'.mp held
      rcases source .keyPrefix v found with mine | ⟨_, keys⟩
      · simp [soundHeld.exclusive listed] at mine
      · simp [keys rfl] at listed
  case org =>
    intro org held orgs listed
    have inFolded := kept .org org held
    have within := narrowed.org
    rw [inFolded, listed] at within
    by_contra outside
    simp [orgWithin, outside, widened, fail] at within
  case label =>
    intro jti held
    rw [narrowed.chainJti]
    rcases source .jti jti (kept .jti jti held) with mine | ⟨theirs, _⟩
    · exact Finset.mem_union_left _ (soundHeld.label jti mine)
    · exact Finset.mem_union_right _ (soundNew.label jti theirs)

theorem narrow_all_sound {blocks : List Caveats} {e e' : Caveats} (soundHeld : Sound e)
    (soundNew : ∀ block ∈ blocks, Sound block) (narrowed : blocks.foldlM narrow e = .ok e') :
    Sound e' :=
  foldlM_keeps Sound soundHeld
    (fun block present _ _ first held => narrow_sound held (soundNew block present) first) narrowed

/-! ## Finding one caveat in the text -/

/-- With different names, a member is found exactly where it stands. -/
theorem get?_iff {entries : List (String × Json)} (different : (entries.map Prod.fst).Nodup)
    (name : String) (value : Json) :
    (Json.obj entries).get? name = some value ↔ (name, value) ∈ entries := by
  constructor
  · exact mem_of_get?
  · intro present
    have located : (entries.find? (fun member => member.1 = name)).isSome = true := by
      rw [List.find?_isSome]
      exact ⟨(name, value), present, by simp⟩
    obtain ⟨member, found⟩ := Option.isSome_iff_exists.mp located
    have named : member.1 = name := by simpa using List.find?_some found
    have same : member = (name, value) :=
      inj_on_of_nodup_map different (mem_of_find?_eq_some found) present named
    simp [Json.get?, found, same]

theorem get?_sorted_members (name : String) (value : Json) :
    (sorted (.obj (members c))).get? name = some value ↔ (name, value) ∈ members c := by
  have permuted := perm_insertionSort Before (members c)
  have canonical : sorted (.obj (members c)) = .obj ((members c).insertionSort Before) := by
    simp [sorted, sortedMembers_members]
  rw [canonical, get?_iff ((permuted.map Prod.fst).nodup_iff.mpr (names_nodup c)),
    permuted.mem_iff]

/-- A string caveat is found under its name. -/
theorem get?_string (caveat : StringCaveat) :
    (sorted (.obj (members c))).get? caveat.name = (c.strings caveat).map .str := by
  ext value
  rw [get?_sorted_members, mem_members, Option.map_eq_some_iff]
  simp

/-- A caveat that is not a string is found under its name. -/
theorem get?_other : (sorted (.obj (members c))).get? caveat.name = otherValue c caveat := by
  ext value
  rw [get?_sorted_members, mem_members]
  simp

end Synergos.CaveatText
