import Synergos.Jcs

/-!
# Caveats of a capability token

The closed vocabulary of caveats, their reading from JSON, and the intersection
that every later block of a token is folded into. Each kind of caveat has its
own narrowing rule: labels may be renamed, a path-like subject and a storage-key
prefix may be extended, sets may shrink, limits may decrease, and everything
else must stay. A prefix is replaced by explicit object keys that all lie below
it, and one organisation must be among the listed ones.

A caveat set permits a request when every caveat present in it is satisfied.
Narrowing never permits more, one block at a time and over whole chains. The
label of a block is no constraint on a request: a later block may carry its own
label, and revocation looks at all labels of the chain.
-/

namespace Synergos.Caveat

open JsonText Jcs Function

/-- The caveats whose value is a string, in the order in which a map of their
names is traversed. -/
inductive StringCaveat where
  | deviceId | devicePub | digest | downloadName | iss | jti | nodeId | org | peerId
  | keyPrefix | principal | projectRef | sessionId | sub | subPeerId
  deriving DecidableEq, Repr

namespace StringCaveat

def name : StringCaveat → String
  | deviceId => "device_id"
  | devicePub => "device_pub"
  | digest => "digest"
  | downloadName => "download_name"
  | iss => "iss"
  | jti => "jti"
  | nodeId => "node_id"
  | org => "org"
  | peerId => "peer_id"
  | keyPrefix => "prefix"
  | principal => "principal"
  | projectRef => "project_ref"
  | sessionId => "session_id"
  | sub => "sub"
  | subPeerId => "sub_peer_id"

def all : List StringCaveat :=
  [deviceId, devicePub, digest, downloadName, iss, jti, nodeId, org, peerId, keyPrefix,
    principal, projectRef, sessionId, sub, subPeerId]

theorem mem_all (caveat : StringCaveat) : caveat ∈ all := by
  cases caveat <;> decide

instance : Fintype StringCaveat := ⟨⟨all, by decide⟩, mem_all⟩

/-- The string caveat of a given name, if the name belongs to one. -/
def ofName? (text : String) : Option StringCaveat := all.find? (fun caveat => caveat.name = text)

end StringCaveat

/-- The caveats whose value is not a string. -/
inductive OtherCaveat where
  | nbf | exp | rosterEpoch | maxUses | maxBytes | maxBytesPerHour | ops | orgs | objectKeys
  | projects | byteRange
  deriving DecidableEq, Repr

namespace OtherCaveat

def name : OtherCaveat → String
  | nbf => "nbf"
  | exp => "exp"
  | rosterEpoch => "roster_epoch"
  | maxUses => "max_uses"
  | maxBytes => "max_bytes"
  | maxBytesPerHour => "max_bytes_per_hour"
  | ops => "ops"
  | orgs => "orgs"
  | objectKeys => "object_keys"
  | projects => "projects"
  | byteRange => "byte_range"

def all : List OtherCaveat :=
  [nbf, exp, rosterEpoch, maxUses, maxBytes, maxBytesPerHour, ops, orgs, objectKeys, projects,
    byteRange]

/-- The caveat of a given name that is not a string, if there is one. -/
def ofName? (text : String) : Option OtherCaveat := all.find? (fun caveat => caveat.name = text)

end OtherCaveat

/-- The values of the string caveats that are present. -/
abbrev Strings : Type := StringCaveat → Option String

namespace Strings

def none : Strings := fun _ => Option.none

def set (strings : Strings) (caveat : StringCaveat) (v : String) : Strings :=
  update strings caveat (some v)

def erase (strings : Strings) (caveat : StringCaveat) : Strings :=
  update strings caveat Option.none

variable {other : StringCaveat} (strings : Strings) (caveat : StringCaveat) (v : String)

@[simp] theorem set_self :
    strings.set caveat v caveat = some v :=
  update_self caveat _ strings

theorem set_of_ne {caveat : StringCaveat} (different : other ≠ caveat) :
    strings.set caveat v other = strings other :=
  update_of_ne different _ strings

@[simp] theorem erase_self :
    strings.erase caveat caveat = Option.none :=
  update_self caveat _ strings

theorem erase_of_ne {caveat : StringCaveat}
    (different : other ≠ caveat) : strings.erase caveat other = strings other :=
  update_of_ne different _ strings

end Strings

/-- The caveats of one block, or of the intersection of several. `chainJti`
holds the label of every block that contributed. -/
structure Caveats where
  strings : Strings := Strings.none
  nbf : Option Int := none
  exp : Option Int := none
  maxUses : Option Int := none
  maxBytes : Option Int := none
  maxBytesPerHour : Option Int := none
  rosterEpoch : Option Int := none
  ops : Option (Finset String) := none
  orgs : Option (Finset String) := none
  projects : Option (Finset (String × String)) := none
  objectKeys : Option (Finset String) := none
  byteRange : Option (Int × Int) := none
  chainJti : Finset String := ∅
  deriving DecidableEq

/-- A text starts with another one. -/
def startsWith (text head : String) : Bool := head.toList.isPrefixOf text.toList

/-! ## Reading -/

/-- A file name that is safe as an ASCII base name. -/
def safeName (text : String) : Bool :=
  text ≠ "" && decide (text.utf8ByteSize ≤ 255) && text ≠ "." && text ≠ ".." &&
    text.toList.all (fun c => decide (('A' ≤ c ∧ c ≤ 'Z') ∨ ('a' ≤ c ∧ c ≤ 'z') ∨
      ('0' ≤ c ∧ c ≤ '9') ∨ c = '.' ∨ c = '_' ∨ c = '-'))

/-- A storage key, or a leading part of one. -/
def storageKey (text : String) : Bool :=
  text ≠ "" && decide (text.utf8ByteSize ≤ 1024) && text ≠ "upload:" &&
    text.toList.all (fun c => decide (0x20 < c.toNat ∧ c.toNat < 0x7f))

def roles : List String := ["read", "publish", "history"]

/-- Elements of one list caveat; more are refused before any is read. -/
def maxCaveatItems : Nat := 256

def nonNegative (value : Json) (name : String) : Checked Int :=
  match value with
  | .int n =>
    if n < 0 then fail .lctBadCaveat (name ++ " must be a non-negative integer") else .ok n
  | _ => fail .lctBadCaveat (name ++ " must be a non-negative integer")

def itemsBounded (items : List Json) (name : String) : Checked Unit :=
  if maxCaveatItems < items.length then
    fail .decodeTooLarge ("trust.lct " ++ name ++ ": " ++ toString items.length ++ " > " ++
      toString maxCaveatItems)
  else .ok ()

/-- One entry of `ops`, `orgs` or `object_keys`. -/
def parseEntry (name : String) (item : Json) : Checked String :=
  match item with
  | .str text =>
    if text = "" then fail .lctBadCaveat (name ++ " entries must be strings")
    else if name = "object_keys" && !storageKey text then
      fail .lctBadCaveat "object_keys entry is not a storage key"
    else .ok text
  | _ => fail .lctBadCaveat (name ++ " entries must be strings")

def parseStrings (value : Json) (name : String) : Checked (Finset String) :=
  match value with
  | .arr items => do
    itemsBounded items name
    let texts ← items.mapM (parseEntry name)
    pure texts.toFinset
  | _ => fail .lctBadCaveat (name ++ " must be an array")

/-- One entry of `projects`. -/
def parseProject (item : Json) : Checked (String × String) :=
  match item.size, item.get? "project_ref", item.get? "role" with
  | 2, some (.str project), some (.str role) =>
    if role ∈ roles then .ok (project, role)
    else fail .lctBadCaveat "projects entries are \x7bproject_ref, role\x7d"
  | _, _, _ => fail .lctBadCaveat "projects entries are \x7bproject_ref, role\x7d"

def parseProjects (value : Json) : Checked (Finset (String × String)) :=
  match value with
  | .arr items => do
    itemsBounded items "projects"
    let entries ← items.mapM parseProject
    pure entries.toFinset
  | _ => fail .lctBadCaveat "projects must be an array"

def parseByteRange (value : Json) : Checked (Int × Int) :=
  match value with
  | .arr [first, last] => do
    let first ← nonNegative first "byte_range"
    let last ← nonNegative last "byte_range"
    if last < first then fail .lctBadCaveat "byte_range start exceeds end"
    pure (first, last)
  | _ => fail .lctBadCaveat "byte_range is [start, end]"

/-- Read one string caveat. The first value of a name is kept. -/
def parseString (c : Caveats) (caveat : StringCaveat) (value : Json) : Checked Caveats :=
  match value with
  | .str text =>
    if text = "" then fail .lctBadCaveat (caveat.name ++ " must be a non-empty string")
    else if caveat = .downloadName && !safeName text then
      fail .lctBadCaveat "download_name must be a safe ASCII basename"
    else if caveat = .keyPrefix && !storageKey text then
      fail .lctBadCaveat "prefix must be a storage key prefix"
    else
      .ok { c with
        strings := c.strings.set caveat ((c.strings caveat).getD text)
        chainJti := if caveat = .jti then insert text c.chainJti else c.chainJti }
  | _ => fail .lctBadCaveat (caveat.name ++ " must be a non-empty string")

/-- Read one caveat that is not a string. -/
def parseOther (c : Caveats) (caveat : OtherCaveat) (value : Json) : Checked Caveats :=
  match caveat with
  | .nbf => do pure { c with nbf := some (← nonNegative value "nbf") }
  | .exp => do pure { c with exp := some (← nonNegative value "exp") }
  | .rosterEpoch => do pure { c with rosterEpoch := some (← nonNegative value "roster_epoch") }
  | .maxUses => do pure { c with maxUses := some (← nonNegative value "max_uses") }
  | .maxBytes => do pure { c with maxBytes := some (← nonNegative value "max_bytes") }
  | .maxBytesPerHour => do
    pure { c with maxBytesPerHour := some (← nonNegative value "max_bytes_per_hour") }
  | .ops => do pure { c with ops := some (← parseStrings value "ops") }
  | .orgs => do pure { c with orgs := some (← parseStrings value "orgs") }
  | .objectKeys => do pure { c with objectKeys := some (← parseStrings value "object_keys") }
  | .projects => do pure { c with projects := some (← parseProjects value) }
  | .byteRange => do pure { c with byteRange := some (← parseByteRange value) }

/-- Read one member of a caveat object. -/
def parseMember (c : Caveats) (member : String × Json) : Checked Caveats :=
  match StringCaveat.ofName? member.1 with
  | some caveat => parseString c caveat member.2
  | none =>
    match OtherCaveat.ofName? member.1 with
    | some caveat => parseOther c caveat member.2
    | none => fail .lctUnknownCaveat ("unknown caveat " ++ member.1)

/-- Read the caveats of one block. -/
def parseCaveats (value : Json) : Checked Caveats :=
  match value with
  | .obj members => do
    let c ← members.foldlM parseMember {}
    if c.objectKeys.isSome && (c.strings .keyPrefix).isSome then
      fail .lctBadCaveat "object_keys and prefix are exclusive"
    match c.strings .org, c.orgs with
    | some org, some orgs =>
      if org ∈ orgs then pure c else fail .lctBadCaveat "org must be one of orgs"
    | _, _ => pure c
  | _ => fail .lctMalformed "caveats must be an object"

/-! ## Narrowing -/

def widened {α : Type} (what : String) : Checked α := fail .lctWidened what

/-- Fold one string caveat of a new block into the held ones. -/
def narrowString (objectKeys : Option (Finset String)) (theirs mine : Strings)
    (caveat : StringCaveat) : Checked Strings :=
  match theirs caveat with
  | none => .ok mine
  | some v =>
    match caveat with
    | .jti => .ok (mine.set .jti v)
    | .keyPrefix =>
      if objectKeys.isSome then widened "prefix cannot replace object_keys"
      else
        match mine .keyPrefix with
        | some previous =>
          if startsWith v previous then .ok (mine.set .keyPrefix v)
          else widened "prefix must extend the previous prefix"
        | none => .ok (mine.set .keyPrefix v)
    | .sub =>
      match mine .sub with
      | some previous =>
        if v = previous || startsWith v (previous ++ "/") then .ok (mine.set .sub v)
        else widened "sub must extend the previous sub with /<child>"
      | none => .ok (mine.set .sub v)
    | other =>
      match mine other with
      | some previous =>
        if previous = v then .ok (mine.set other v) else widened "string caveat changed"
      | none => .ok (mine.set other v)

/-- A caveat present in the new block replaces the held one, which it must lie
within; a caveat absent from it leaves the held one. -/
def narrowField {α : Type} (within : α → α → Prop) [DecidableRel within] (what : String)
    (mine theirs : Option α) : Checked (Option α) :=
  match theirs, mine with
  | none, _ => .ok mine
  | some new, some old => if within new old then .ok theirs else widened what
  | some _, none => .ok theirs

def narrowNotBefore : Option Int → Option Int → Checked (Option Int) :=
  narrowField (fun new old => ¬ new < old) "nbf moved earlier"

/-- A roster epoch names the authority snapshot and cannot be replaced. -/
def narrowEpoch : Option Int → Option Int → Checked (Option Int) :=
  narrowField (fun new old => new = old) "roster_epoch changed"

def narrowLimit : Option Int → Option Int → Checked (Option Int) :=
  narrowField (fun new old => ¬ old < new) "limit increased"

def narrowSet {α : Type} [DecidableEq α] (what : String) :
    Option (Finset α) → Option (Finset α) → Checked (Option (Finset α)) :=
  narrowField (fun new old => new ⊆ old) what

def narrowRange : Option (Int × Int) → Option (Int × Int) → Checked (Option (Int × Int)) :=
  narrowField (fun new old => ¬ (new.1 < old.1 ∨ old.2 < new.2))
    "byte_range outside previous range"

/-- One organisation must be among the listed ones. -/
def orgWithin (org : Option String) (orgs : Option (Finset String)) : Checked Unit :=
  match org, orgs with
  | some org, some orgs => if org ∈ orgs then .ok () else widened "org outside orgs"
  | _, _ => .ok ()

/-- Explicit object keys replace a prefix that they all lie below. -/
def narrowObjectKeys (mine : Option (Finset String)) (strings : Strings)
    (theirs : Option (Finset String)) : Checked (Option (Finset String) × Strings) :=
  match theirs with
  | none => .ok (mine, strings)
  | some new => do
    let objectKeys ← narrowSet "object_keys not a subset" mine theirs
    match strings .keyPrefix with
    | some head =>
      if ∀ key ∈ new, startsWith key head = true then
        pure (objectKeys, strings.erase .keyPrefix)
      else widened "object key outside prefix"
    | none => pure (objectKeys, strings)

/-- The intersection `e` of the blocks so far, narrowed by the new block `n`. -/
def narrow (e n : Caveats) : Checked Caveats := do
  let strings ← StringCaveat.all.foldlM (narrowString e.objectKeys n.strings) e.strings
  let nbf ← narrowNotBefore e.nbf n.nbf
  let rosterEpoch ← narrowEpoch e.rosterEpoch n.rosterEpoch
  let exp ← narrowLimit e.exp n.exp
  let maxUses ← narrowLimit e.maxUses n.maxUses
  let maxBytes ← narrowLimit e.maxBytes n.maxBytes
  let maxBytesPerHour ← narrowLimit e.maxBytesPerHour n.maxBytesPerHour
  let ops ← narrowSet "ops not a subset" e.ops n.ops
  let orgs ← narrowSet "orgs not a subset" e.orgs n.orgs
  orgWithin (strings .org) orgs
  let projects ← narrowSet "projects not a subset" e.projects n.projects
  let (objectKeys, strings) ← narrowObjectKeys e.objectKeys strings n.objectKeys
  let byteRange ← narrowRange e.byteRange n.byteRange
  pure { strings, nbf, exp, maxUses, maxBytes, maxBytesPerHour, rosterEpoch, ops, orgs, projects,
         objectKeys, byteRange, chainJti := e.chainJti ∪ n.chainJti }

/-! ## What narrowing keeps -/

theorem startsWith_refl (text : String) : startsWith text text = true := by
  simp [startsWith, List.isPrefixOf_iff_prefix]

theorem startsWith_trans {longer middle head : String} (first : startsWith longer middle = true)
    (second : startsWith middle head = true) : startsWith longer head = true := by
  simp only [startsWith, List.isPrefixOf_iff_prefix] at *
  exact second.trans first

theorem startsWith_append (head tail : String) : startsWith (head ++ tail) head = true := by
  simp [startsWith, List.isPrefixOf_iff_prefix]

/-- How a later value of a string caveat may relate to an earlier one. -/
def Extends : StringCaveat → String → String → Prop
  | .jti, _, _ => True
  | .keyPrefix, previous, v => startsWith v previous = true
  | .sub, previous, v => v = previous ∨ startsWith v (previous ++ "/") = true
  | _, previous, v => v = previous

variable {α : Type} {objectKeys : Option (Finset String)} {e n e' : Caveats}
  {theirs mine result : Strings} {what : String} {blocks : List Caveats} (caveat : StringCaveat)

theorem extends_refl (text : String) : Extends caveat text text := by
  cases caveat <;> simp [Extends, startsWith_refl]

theorem extends_trans {first second third : String}
    (earlier : Extends caveat first second) (later : Extends caveat second third) :
    Extends caveat first third := by
  cases caveat
  case jti => trivial
  case keyPrefix => exact startsWith_trans later earlier
  case sub =>
    rcases earlier with rfl | earlier
    · exact later
    · rcases later with rfl | later
      · exact .inr earlier
      · exact .inr (startsWith_trans (startsWith_trans later (startsWith_append _ _)) earlier)
  all_goals exact Eq.trans later earlier

/-- Every string caveat held before is held afterwards with a value that
extends it. -/
def StringsNarrowed (before after : Strings) : Prop :=
  ∀ caveat previous, before caveat = some previous →
    ∃ v, after caveat = some v ∧ Extends caveat previous v

theorem stringsNarrowed_refl (strings : Strings) : StringsNarrowed strings strings :=
  fun caveat previous held => ⟨previous, held, extends_refl caveat previous⟩

theorem stringsNarrowed_trans {first second third : Strings}
    (earlier : StringsNarrowed first second) (later : StringsNarrowed second third) :
    StringsNarrowed first third := by
  intro caveat previous held
  obtain ⟨middle, middleHeld, extended⟩ := earlier caveat previous held
  obtain ⟨last, lastHeld, further⟩ := later caveat middle middleHeld
  exact ⟨last, lastHeld, extends_trans caveat extended further⟩

/-- One string caveat of the new block is absent, or it replaces the held value
and extends it; a prefix is taken only where no object keys are listed. -/
theorem narrowString_ok {caveat : StringCaveat}
    (narrowed : narrowString objectKeys theirs mine caveat = .ok result) :
    result = mine ∨ ∃ v, theirs caveat = some v ∧ result = mine.set caveat v ∧
      (∀ previous, mine caveat = some previous → Extends caveat previous v) ∧
      (caveat = .keyPrefix → objectKeys = none) := by
  unfold narrowString at narrowed
  cases given : theirs caveat with
  | none =>
    simp only [given, Except.ok.injEq] at narrowed
    exact .inl narrowed.symm
  | some v =>
    simp only [given] at narrowed
    refine .inr ⟨v, rfl, ?_⟩
    cases held : mine caveat <;> cases caveat <;>
      simp only [held, widened, fail, ite_eq_iff, reduceCtorEq, and_false, or_false, false_or,
        Except.ok.injEq, Bool.or_eq_true, decide_eq_true_eq] at narrowed <;>
      simp_all [Extends]

theorem narrowString_narrowed {caveat : StringCaveat}
    (narrowed : narrowString objectKeys theirs mine caveat = .ok result) :
    StringsNarrowed mine result := by
  rcases narrowString_ok narrowed with
    rfl | ⟨v, _, rfl, extending, _⟩
  · exact stringsNarrowed_refl result
  · intro other previous held
    obtain rfl | same := eq_or_ne other caveat
    · exact ⟨v, Strings.set_self mine other v, extending previous held⟩
    · exact ⟨previous, (Strings.set_of_ne mine v same).trans held, extends_refl other previous⟩

theorem narrowStrings_narrowed {names : List StringCaveat}
    (narrowed : names.foldlM (narrowString objectKeys theirs) mine = .ok result) :
    StringsNarrowed mine result :=
  foldlM_keeps (StringsNarrowed mine) (stringsNarrowed_refl mine)
    (fun _ _ _ _ first earlier => stringsNarrowed_trans earlier (narrowString_narrowed first))
    narrowed

theorem narrowField_ok {within : α → α → Prop} [DecidableRel within] {mine theirs result : Option α}
    (narrowed : narrowField within what mine theirs = .ok result) :
    result = theirs.or mine ∧ ∀ new old, theirs = some new → mine = some old → within new old := by
  cases theirs with
  | none => simp_all [narrowField]
  | some new =>
    cases mine with
    | none => simp_all [narrowField]
    | some old =>
      simp only [narrowField, widened, fail, ite_eq_iff, reduceCtorEq, and_false, or_false,
        Except.ok.injEq] at narrowed
      obtain ⟨inside, rfl⟩ := narrowed
      refine ⟨rfl, ?_⟩
      rintro _ _ ⟨⟩ ⟨⟩
      exact inside

/-- Listed object keys lie below the held ones and below a held prefix, which
they replace. -/
structure KeysNarrowed (mine : Option (Finset String)) (strings : Strings)
    (theirs result : Option (Finset String)) (kept : Strings) : Prop where
  others : ∀ caveat, caveat ≠ .keyPrefix → kept caveat = strings caveat
  unlisted : theirs = none → result = mine ∧ kept = strings
  listed : ∀ new, theirs = some new → result = some new ∧ kept .keyPrefix = none ∧
    (∀ old, mine = some old → new ⊆ old) ∧
    (∀ head, strings .keyPrefix = some head → ∀ key ∈ new, startsWith key head = true)

theorem narrowObjectKeys_ok {mine : Option (Finset String)} {strings : Strings}
    {theirs result : Option (Finset String)} {kept : Strings}
    (narrowed : narrowObjectKeys mine strings theirs = .ok (result, kept)) :
    KeysNarrowed mine strings theirs result kept := by
  unfold narrowObjectKeys at narrowed
  cases theirs with
  | none =>
    obtain ⟨rfl, rfl⟩ : mine = result ∧ strings = kept := by simpa using narrowed
    exact ⟨fun _ _ => rfl, fun _ => ⟨rfl, rfl⟩, by simp⟩
  | some new =>
    simp only [bind_ok] at narrowed
    obtain ⟨keys, set, narrowed⟩ := narrowed
    obtain ⟨rfl, within⟩ := narrowField_ok set
    cases held : strings .keyPrefix with
    | none =>
      simp only [held, pure_ok, Prod.mk.injEq] at narrowed
      obtain ⟨rfl, rfl⟩ := narrowed
      exact ⟨fun _ _ => rfl, by simp, by simp_all⟩
    | some head =>
      simp only [held] at narrowed
      by_cases below : ∀ key ∈ new, startsWith key head = true
      · simp only [if_pos below, pure_ok, Prod.mk.injEq] at narrowed
        obtain ⟨rfl, rfl⟩ := narrowed
        exact ⟨fun _ other => Strings.erase_of_ne strings other, by simp, by simp_all⟩
      · simp [if_neg below, widened, fail] at narrowed

/-- What a successful narrowing did to each caveat. `folded` are the strings
before a prefix gave way to object keys. -/
structure Narrowed (e n : Caveats) (folded : Strings) (e' : Caveats) : Prop where
  strings : StringCaveat.all.foldlM (narrowString e.objectKeys n.strings) e.strings = .ok folded
  chainJti : e'.chainJti = e.chainJti ∪ n.chainJti
  nbf : narrowNotBefore e.nbf n.nbf = .ok e'.nbf
  rosterEpoch : narrowEpoch e.rosterEpoch n.rosterEpoch = .ok e'.rosterEpoch
  exp : narrowLimit e.exp n.exp = .ok e'.exp
  maxUses : narrowLimit e.maxUses n.maxUses = .ok e'.maxUses
  maxBytes : narrowLimit e.maxBytes n.maxBytes = .ok e'.maxBytes
  maxBytesPerHour : narrowLimit e.maxBytesPerHour n.maxBytesPerHour = .ok e'.maxBytesPerHour
  ops : narrowSet "ops not a subset" e.ops n.ops = .ok e'.ops
  orgs : narrowSet "orgs not a subset" e.orgs n.orgs = .ok e'.orgs
  org : orgWithin (folded .org) e'.orgs = .ok ()
  projects : narrowSet "projects not a subset" e.projects n.projects = .ok e'.projects
  keys : KeysNarrowed e.objectKeys folded n.objectKeys e'.objectKeys e'.strings
  byteRange : narrowRange e.byteRange n.byteRange = .ok e'.byteRange

theorem narrow_ok (narrowed : narrow e n = .ok e') :
    ∃ folded, Narrowed e n folded e' := by
  simp only [narrow, bind_ok, pure_ok] at narrowed
  obtain ⟨folded, strings, nbf, nbfOk, epoch, epochOk, exp, expOk, uses, usesOk, bytes, bytesOk,
    perHour, perHourOk, ops, opsOk, orgs, orgsOk, _, orgOk, projects, projectsOk,
    ⟨keys, kept⟩, keysOk, range, rangeOk, rfl⟩ := narrowed
  exact ⟨folded, strings, rfl, nbfOk, epochOk, expOk, usesOk, bytesOk, perHourOk, opsOk, orgsOk,
    orgOk, projectsOk, narrowObjectKeys_ok keysOk, rangeOk⟩

/-- What later blocks leave of a caveat set: every string caveat other than the
prefix is extended, and no label is lost. -/
structure Kept (e e' : Caveats) : Prop where
  strings : ∀ caveat previous, caveat ≠ .keyPrefix → e.strings caveat = some previous →
    ∃ v, e'.strings caveat = some v ∧ Extends caveat previous v
  chainJti : e.chainJti ⊆ e'.chainJti

theorem narrow_keeps (narrowing : narrow e n = .ok e') : Kept e e' := by
  obtain ⟨folded, narrowed⟩ := narrow_ok narrowing
  constructor
  case strings =>
    intro caveat previous isOther held
    rw [narrowed.keys.others caveat isOther]
    exact narrowStrings_narrowed narrowed.strings caveat
      previous held
  case chainJti =>
    rw [narrowed.chainJti]
    exact Finset.subset_union_left

theorem narrow_all_keeps (narrowed : blocks.foldlM narrow e = .ok e') : Kept e e' := by
  refine foldlM_keeps (Kept e) ?_ ?_ narrowed
  · exact ⟨fun caveat previous _ held => ⟨previous, held, extends_refl caveat previous⟩, le_rfl⟩
  · intro block _ between next first earlier
    have later := narrow_keeps first
    constructor
    case strings =>
      intro caveat previous isOther held
      obtain ⟨middle, heldBetween, extended⟩ := earlier.strings caveat previous isOther held
      obtain ⟨last, heldLast, further⟩ := later.strings caveat middle isOther heldBetween
      exact ⟨last, heldLast, extends_trans caveat extended further⟩
    case chainJti => exact earlier.chainJti.trans later.chainJti

/-! ## Requests -/

/-- What a request offers for each kind of caveat. `text` is its value for the
string caveats that are compared as such, the organisation and the subject
among them. -/
structure Request where
  text : StringCaveat → String
  operation : String
  project : String
  role : String
  objectKey : String
  firstByte : Int
  lastByte : Int
  time : Int
  uses : Int
  bytes : Int
  bytesPerHour : Int
  rosterEpoch : Int

/-- A request satisfies one string caveat. -/
def Satisfies (request : Request) : StringCaveat → String → Prop
  | .keyPrefix, head => startsWith request.objectKey head = true
  | .sub, v => request.text .sub = v ∨ startsWith (request.text .sub) (v ++ "/") = true
  | caveat, v => request.text caveat = v

instance (request : Request) (v : String) : (caveat : StringCaveat) →
    Decidable (Satisfies request caveat v)
  | .keyPrefix => inferInstanceAs (Decidable (_ = _))
  | .sub => inferInstanceAs (Decidable (_ ∨ _))
  | .deviceId | .devicePub | .digest | .downloadName | .iss | .jti | .nodeId | .org | .peerId
  | .principal | .projectRef | .sessionId | .subPeerId => inferInstanceAs (Decidable (_ = _))

/-- The string caveats that constrain a request: all but the label of a block. -/
def Constrains (caveat : StringCaveat) : Prop := caveat ≠ .jti

instance : DecidablePred Constrains := fun _ => inferInstanceAs (Decidable (_ ≠ _))

/-- Every caveat that is present is satisfied; of the string caveats only the
`compared` ones are looked at. -/
@[mk_iff]
structure Permits (compared : StringCaveat → Prop) (c : Caveats) (request : Request) : Prop where
  strings : ∀ caveat, ∀ v ∈ c.strings caveat, compared caveat → Satisfies request caveat v
  nbf : ∀ time ∈ c.nbf, time ≤ request.time
  exp : ∀ time ∈ c.exp, request.time < time
  maxUses : ∀ limit ∈ c.maxUses, request.uses ≤ limit
  maxBytes : ∀ limit ∈ c.maxBytes, request.bytes ≤ limit
  maxBytesPerHour : ∀ limit ∈ c.maxBytesPerHour, request.bytesPerHour ≤ limit
  rosterEpoch : ∀ epoch ∈ c.rosterEpoch, request.rosterEpoch = epoch
  ops : ∀ ops ∈ c.ops, request.operation ∈ ops
  orgs : ∀ orgs ∈ c.orgs, request.text .org ∈ orgs
  projects : ∀ projects ∈ c.projects, (request.project, request.role) ∈ projects
  objectKeys : ∀ keys ∈ c.objectKeys, request.objectKey ∈ keys
  byteRange : ∀ range ∈ c.byteRange, range.1 ≤ request.firstByte ∧ request.lastByte ≤ range.2

instance (compared : StringCaveat → Prop) [DecidablePred compared] (c : Caveats)
    (request : Request) : Decidable (Permits compared c request) :=
  decidable_of_iff' _ (permits_iff compared c request)

/-- A value that extends a held one is satisfied by fewer requests. -/
theorem satisfies_of_extends {request : Request} {caveat : StringCaveat}
    (constrains : Constrains caveat) {previous v : String} (extended : Extends caveat previous v)
    (satisfied : Satisfies request caveat v) : Satisfies request caveat previous := by
  cases caveat
  case jti => exact absurd rfl constrains
  case keyPrefix => exact startsWith_trans satisfied extended
  case sub => exact extends_trans .sub extended satisfied
  all_goals exact Eq.trans satisfied extended

/-- A field that is present before and after a narrowing: whatever holds within
the new value holds within the old one. -/
theorem narrowField_keeps {within : α → α → Prop} [DecidableRel within]
    {mine theirs result : Option α}
    (narrowed : narrowField within what mine theirs = .ok result) (Inside : α → Prop)
    (shrinks : ∀ new old, within new old → Inside new → Inside old)
    (after : ∀ value ∈ result, Inside value) : ∀ value ∈ mine, Inside value := by
  obtain ⟨rfl, within⟩ := narrowField_ok narrowed
  intro old held
  cases given : theirs with
  | none => exact after old (by simpa [given] using held)
  | some new => exact shrinks new old (within new old given held) (after new (by simp [given]))

/-- The object key and every string caveat satisfied after a narrowing were
satisfied before it. A prefix that gave way to explicit keys is satisfied by
each of them. -/
theorem narrowed_strings_satisfied {folded : Strings}
    (narrowed : Narrowed e n folded e') (request : Request)
    (permitted : Permits Constrains e' request) (caveat : StringCaveat) :
    ∀ previous ∈ e.strings caveat, Constrains caveat → Satisfies request caveat previous := by
  intro previous held constrains
  obtain ⟨v, foldedHeld, extended⟩ :=
    narrowStrings_narrowed narrowed.strings caveat previous held
  refine satisfies_of_extends constrains extended ?_
  obtain rfl | isPrefix := eq_or_ne caveat .keyPrefix
  · cases given : n.objectKeys with
    | none =>
      have same := (narrowed.keys.unlisted given).2
      exact permitted.strings .keyPrefix v (same ▸ foldedHeld) constrains
    | some new =>
      obtain ⟨listed, _, _, below⟩ := narrowed.keys.listed new given
      exact below v foldedHeld request.objectKey (permitted.objectKeys new listed)
  · refine permitted.strings caveat v ?_ constrains
    exact (narrowed.keys.others caveat isPrefix).trans foldedHeld

/-- One narrowing permits no request that was not permitted before. -/
theorem permits_of_narrow (narrowed : narrow e n = .ok e') (request : Request)
    (permitted : Permits Constrains e' request) : Permits Constrains e request := by
  obtain ⟨folded, narrowed⟩ := narrow_ok narrowed
  constructor
  case strings => exact narrowed_strings_satisfied narrowed request permitted
  case nbf =>
    exact narrowField_keeps narrowed.nbf (· ≤ request.time) (fun _ _ _ _ => by omega) permitted.nbf
  case exp =>
    exact narrowField_keeps narrowed.exp (request.time < ·) (fun _ _ _ _ => by omega) permitted.exp
  case maxUses =>
    exact narrowField_keeps narrowed.maxUses (request.uses ≤ ·) (fun _ _ _ _ => by omega)
      permitted.maxUses
  case maxBytes =>
    exact narrowField_keeps narrowed.maxBytes (request.bytes ≤ ·) (fun _ _ _ _ => by omega)
      permitted.maxBytes
  case maxBytesPerHour =>
    exact narrowField_keeps narrowed.maxBytesPerHour (request.bytesPerHour ≤ ·)
      (fun _ _ _ _ => by omega) permitted.maxBytesPerHour
  case rosterEpoch =>
    exact narrowField_keeps narrowed.rosterEpoch (request.rosterEpoch = ·)
      (fun _ _ same inside => inside.trans same) permitted.rosterEpoch
  case ops =>
    exact narrowField_keeps narrowed.ops (request.operation ∈ ·)
      (fun _ _ within inside => within inside) permitted.ops
  case orgs =>
    exact narrowField_keeps narrowed.orgs (request.text .org ∈ ·)
      (fun _ _ within inside => within inside) permitted.orgs
  case projects =>
    exact narrowField_keeps narrowed.projects ((request.project, request.role) ∈ ·)
      (fun _ _ within inside => within inside) permitted.projects
  case objectKeys =>
    intro old held
    cases given : n.objectKeys with
    | none => exact permitted.objectKeys old ((narrowed.keys.unlisted given).1.trans held)
    | some new =>
      obtain ⟨listed, _, within, _⟩ := narrowed.keys.listed new given
      exact within old held (permitted.objectKeys new listed)
  case byteRange =>
    exact narrowField_keeps narrowed.byteRange
      (fun range => range.1 ≤ request.firstByte ∧ request.lastByte ≤ range.2)
      (fun _ _ within inside => by omega) permitted.byteRange

theorem permits_of_narrow_all (narrowed : blocks.foldlM narrow e = .ok e') (request : Request)
    (permitted : Permits Constrains e' request) : Permits Constrains e request :=
  foldlM_keeps (fun held => Permits Constrains held request → Permits Constrains e request) id
    (fun _ _ _ _ first earlier later => earlier (permits_of_narrow first request later)) narrowed
    permitted

/-- Narrowing is monotone, by one block or by any list of blocks: a request
permitted afterwards was permitted before. -/
theorem narrowing_monotone (e : Caveats) (request : Request) :
    (∀ n e', narrow e n = .ok e' →
      Permits Constrains e' request → Permits Constrains e request) ∧
    ∀ (blocks : List Caveats) (e' : Caveats), blocks.foldlM narrow e = .ok e' →
      Permits Constrains e' request → Permits Constrains e request :=
  ⟨fun _ _ narrowed => permits_of_narrow narrowed request,
    fun _ _ narrowed => permits_of_narrow_all narrowed request⟩

/-- A request that offers the same text for every string caveat. -/
def Request.plain (text : String) : Request where
  text := fun _ => text
  operation := "get"
  project := "p"
  role := "read"
  objectKey := "x/1"
  firstByte := 0
  lastByte := 9
  time := 5
  uses := 1
  bytes := 10
  bytesPerHour := 10
  rosterEpoch := 0

/-- A delegation narrowed to one subject below its own and to one key below its
prefix. -/
theorem narrowing_monotone_delegation :
    ∃ e n e', parseCaveats (.obj [("sub", .str "d"), ("prefix", .str "x/"),
        ("ops", .arr [.str "get", .str "put"]), ("exp", .int 9)]) = .ok e ∧
      parseCaveats (.obj [("sub", .str "d/a"), ("object_keys", .arr [.str "x/1"]),
        ("ops", .arr [.str "get"])]) = .ok n ∧
      [n].foldlM narrow e = .ok e' ∧ Permits Constrains e (Request.plain "d/a") := by
  let e : Caveats :=
    { strings := (Strings.none.set .sub "d").set .keyPrefix "x/", ops := some {"get", "put"}, exp := some 9 }
  let n : Caveats :=
    { strings := Strings.none.set .sub "d/a", objectKeys := some {"x/1"}, ops := some {"get"} }
  let e' : Caveats :=
    { strings := ((Strings.none.set .sub "d").set .keyPrefix "x/" |>.set .sub "d/a").erase .keyPrefix, ops := some {"get"}, objectKeys := some {"x/1"}, exp := some 9 }
  have narrowed : [n].foldlM narrow e = .ok e' := by rfl
  refine ⟨e, n, e', by rfl, by rfl, narrowed, ?_⟩
  exact (narrowing_monotone e (Request.plain "d/a")).2 [n] e' narrowed (by decide)

/-- The label of a block is replaced, not narrowed: compared like the other
strings it would let a later block admit what the earlier one did not. -/
theorem label_replaced :
    ∃ e n e', parseCaveats (.obj [("jti", .str "a")]) = .ok e ∧
      parseCaveats (.obj [("jti", .str "b")]) = .ok n ∧ narrow e n = .ok e' ∧
      Permits (fun _ => True) e' (Request.plain "b") ∧
      ¬ Permits (fun _ => True) e (Request.plain "b") := by
  refine ⟨{ strings := Strings.none.set .jti "a", chainJti := {"a"} },
    { strings := Strings.none.set .jti "b", chainJti := {"b"} },
    { strings := (Strings.none.set .jti "a").set .jti "b", chainJti := {"a"} ∪ {"b"} },
    by rfl, by rfl, by rfl, by decide, by decide⟩

end Synergos.Caveat
