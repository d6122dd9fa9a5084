import Synergos.Envelope
import Synergos.JsonGrammar

/-!
# Canonical texts and JSON values

Two JSON values are the same when they differ only in the order of the members of
their objects. Canonicalisation accepts or refuses the texts of one value together,
gives them one text and gives the texts of different values different ones, so the
canonical text stands for the value and a signed message for its context, its version
and the value of its payload.

The reader is a parameter that is asked to be correct for the grammar of JSON texts.
-/

namespace Synergos.CanonicalForm

open JsonText JsonGrammar Jcs Envelope List

/-! ## The same value -/

/-- The values differ only in the order of members, at any depth. -/
inductive SameValue : Json → Json → Prop
  | refl (value : Json) : SameValue value value
  | trans {first second third : Json} (left : SameValue first second)
      (right : SameValue second third) : SameValue first third
  | order {members members' : List (String × Json)} (permuted : members.Perm members') :
      SameValue (.obj members) (.obj members')
  | member {before after : List (String × Json)} {name : String} {value value' : Json}
      (inner : SameValue value value') :
      SameValue (.obj (before ++ (name, value) :: after)) (.obj (before ++ (name, value') :: after))
  | item {before after : List Json} {value value' : Json} (inner : SameValue value value') :
      SameValue (.arr (before ++ value :: after)) (.arr (before ++ value' :: after))

theorem SameValue.symm {value value' : Json} (same : SameValue value value') :
    SameValue value' value := by
  induction same with
  | refl value => exact .refl value
  | trans _ _ left right => exact .trans right left
  | order permuted => exact .order permuted.symm
  | member _ inner => exact .member inner
  | item _ inner => exact .item inner

/-- Values of members may be replaced one after another. -/
theorem SameValue.members {change : Json → Json} (before members : List (String × Json))
    (each : ∀ member ∈ members, SameValue member.2 (change member.2)) :
    SameValue (.obj (before ++ members))
      (.obj (before ++ members.map fun member => (member.1, change member.2))) := by
  induction members generalizing before with
  | nil => exact .refl _
  | cons member rest ih =>
    have first : SameValue (.obj (before ++ member :: rest))
        (.obj (before ++ (member.1, change member.2) :: rest)) :=
      .member (each member mem_cons_self)
    have others := ih (before ++ [(member.1, change member.2)])
      fun other present => each other (mem_cons_of_mem member present)
    simp only [append_assoc, singleton_append] at others
    exact first.trans others

theorem SameValue.items {change : Json → Json} (before items : List Json)
    (each : ∀ item ∈ items, SameValue item (change item)) :
    SameValue (.arr (before ++ items)) (.arr (before ++ items.map change)) := by
  induction items generalizing before with
  | nil => exact .refl _
  | cons item rest ih =>
    have first : SameValue (.arr (before ++ item :: rest)) (.arr (before ++ change item :: rest)) :=
      .item (each item mem_cons_self)
    have others := ih (before ++ [change item])
      fun other present => each other (mem_cons_of_mem item present)
    simp only [append_assoc, singleton_append] at others
    exact first.trans others

mutual

/-- Sorting members does not change the value. -/
theorem sameValue_sorted (value : Json) : SameValue value (sorted value) := by
  match value with
  | .obj members =>
    have inner := SameValue.members [] members (sameValue_members)
    have ordered := SameValue.order
      (perm_insertionSort Before (sortedMembers members)).symm
    rw [sorted]
    rw [sortedMembers_eq_map] at ordered ⊢
    exact inner.trans ordered
  | .arr items =>
    have inner := SameValue.items [] items (sameValue_items)
    rw [sorted, sortedItems_eq_map]
    exact inner
  | .null | .bool _ | .int _ | .real | .str _ => exact .refl _

theorem sameValue_members {members : List (String × Json)} :
    ∀ member ∈ members, SameValue member.2 (sorted member.2) := by
  match members with
  | [] => simp
  | (name, value) :: rest =>
    intro other present
    rcases mem_cons.mp present with same | later
    · rw [same]
      exact sameValue_sorted value
    · exact sameValue_members other later

theorem sameValue_items {items : List Json} : ∀ item ∈ items, SameValue item (sorted item) := by
  match items with
  | [] => simp
  | item :: rest =>
    intro other present
    rcases mem_cons.mp present with same | later
    · rw [same]
      exact sameValue_sorted item
    · exact sameValue_items other later

end

/-! ## One text for one value -/

/-- Members that could be joined have different names and texts. -/
theorem joinMembers_inside {previous : Option (List Nat)}
    {members : List (String × Checked (List Char))} {body : List Char}
    (joined : joinMembers previous members = .ok body) (ordered : members.Pairwise Before)
    (after : ∀ name ∈ previous, ∀ member ∈ members, name ≤ utf16 member.1) :
    (members.Pairwise fun a b => utf16 a.1 < utf16 b.1) ∧
      (∀ member ∈ members, ∃ text, member.2 = .ok text) ∧
      ∀ name ∈ previous, ∀ member ∈ members, name < utf16 member.1 := by
  induction members generalizing previous body with
  | nil => simp
  | cons member rest ih =>
    obtain ⟨name, value⟩ := member
    by_cases duplicate : previous = some (utf16 name)
    · simp [joinMembers, duplicate, fail] at joined
    simp only [joinMembers, if_neg duplicate, bind_ok, pure_ok] at joined
    obtain ⟨text, written, more, tail, _⟩ := joined
    obtain ⟨least, later⟩ := pairwise_cons.mp ordered
    obtain ⟨strict, inside, above⟩ := ih tail later (by
      intro found same other present
      cases same
      exact least other present)
    refine ⟨pairwise_cons.mpr ⟨above (utf16 name) rfl, strict⟩, ?_, ?_⟩
    · intro other present
      rcases mem_cons.mp present with same | present
      · rw [same]
        exact ⟨text, written⟩
      · exact inside other present
    · intro found same other present
      have first : found < utf16 name := by
        refine lt_of_le_of_ne (after found same (name, value) mem_cons_self) ?_
        rintro rfl
        exact duplicate same
      rcases mem_cons.mp present with equal | present
      · rw [equal]
        exact first
      · exact first.trans (above (utf16 name) rfl other present)

theorem joinItems_inside {separated : Bool} {items : List (Checked (List Char))} {body : List Char}
    (joined : joinItems separated items = .ok body) :
    ∀ item ∈ items, ∃ text, item = .ok text := by
  induction items generalizing separated body with
  | nil => simp
  | cons item rest ih =>
    simp only [joinItems, bind_ok, pure_ok] at joined
    obtain ⟨text, written, more, tail, _⟩ := joined
    intro other present
    rcases mem_cons.mp present with same | later
    · exact ⟨text, same.trans written⟩
    · exact ih tail other later

/-- Whatever text one value gets, the other gets too. -/
def Follows (value value' : Json) : Prop :=
  ∀ depth text, append depth value = .ok text → append depth value' = .ok text

theorem follows_order {members members' : List (String × Json)} (permuted : members.Perm members') :
    Follows (.obj members) (.obj members') := by
  intro depth text appended
  by_cases deep : maxDepth ≤ depth
  · simp [append, deep, fail] at appended
  simp only [append, if_neg deep, bind_ok, pure_ok] at appended ⊢
  obtain ⟨body, joined, rfl⟩ := appended
  have moved : (appendMembers (depth + 1) members).Perm (appendMembers (depth + 1) members') := by
    rw [appendMembers_eq_map, appendMembers_eq_map]
    exact permuted.map _
  have strict := (joinMembers_inside joined (pairwise_insertionSort Before _) (by simp)).1
  -- Different names leave only one sorted order.
  have same : (appendMembers (depth + 1) members').insertionSort Before =
      (appendMembers (depth + 1) members).insertionSort Before := by
    have sorting := ((perm_insertionSort Before (appendMembers (depth + 1) members)).trans
      moved).trans (perm_insertionSort Before (appendMembers (depth + 1) members')).symm
    refine (sorting.eq_of_pairwise ?_ (strict.imp fun less => le_of_lt less)
      (pairwise_insertionSort Before _)).symm
    intro a b present present' before after
    have distinct : (((appendMembers (depth + 1) members).insertionSort Before).map
        fun member => utf16 member.1).Nodup :=
      pairwise_map.mpr (strict.imp fun less => ne_of_lt less)
    exact inj_on_of_nodup_map distinct present (sorting.mem_iff.mpr present')
      (le_antisymm before after)
  exact ⟨body, by rw [same]; exact joined, rfl⟩

variable {value value' : Json}

theorem follows_member {before after : List (String × Json)} {name : String}
    (inner : Follows value value') :
    Follows (.obj (before ++ (name, value) :: after)) (.obj (before ++ (name, value') :: after)) := by
  intro depth text appended
  by_cases deep : maxDepth ≤ depth
  · simp [append, deep, fail] at appended
  simp only [append, if_neg deep, bind_ok, pure_ok] at appended ⊢
  obtain ⟨body, joined, rfl⟩ := appended
  have written := (joinMembers_inside joined (pairwise_insertionSort Before _) (by simp)).2.1
  have present : (name, append (depth + 1) value) ∈
      (appendMembers (depth + 1) (before ++ (name, value) :: after)).insertionSort Before := by
    rw [mem_insertionSort, appendMembers_eq_map]
    simp
  obtain ⟨chars, found⟩ := written _ present
  have same : appendMembers (depth + 1) (before ++ (name, value') :: after) =
      appendMembers (depth + 1) (before ++ (name, value) :: after) := by
    simp only [appendMembers_eq_map, map_append, map_cons]
    rw [inner (depth + 1) chars found, show append (depth + 1) value = .ok chars from found]
  exact ⟨body, by rw [same]; exact joined, rfl⟩

theorem follows_item {before after : List Json} (inner : Follows value value') :
    Follows (.arr (before ++ value :: after)) (.arr (before ++ value' :: after)) := by
  intro depth text appended
  by_cases deep : maxDepth ≤ depth
  · simp [append, deep, fail] at appended
  simp only [append, if_neg deep, bind_ok, pure_ok] at appended ⊢
  obtain ⟨body, joined, rfl⟩ := appended
  have present : append (depth + 1) value ∈
      appendItems (depth + 1) (before ++ value :: after) := by
    rw [appendItems_eq_map]
    simp
  obtain ⟨chars, found⟩ := joinItems_inside joined _ present
  have same : appendItems (depth + 1) (before ++ value' :: after) =
      appendItems (depth + 1) (before ++ value :: after) := by
    simp only [appendItems_eq_map, map_append, map_cons]
    rw [inner (depth + 1) chars found, found]
  exact ⟨body, by rw [same]; exact joined, rfl⟩

theorem SameValue.follows (same : SameValue value value') :
    Follows value value' := by
  induction same with
  | refl value => exact fun _ _ => id
  | trans _ _ left right => exact fun depth text appended => right depth text (left depth text appended)
  | order permuted => exact follows_order permuted
  | member _ inner => exact follows_member inner
  | item _ inner => exact follows_item inner

/-- Values with one canonical text are the same. -/
theorem sameValue_of_append {text : List Char}
    (first : append 0 value = .ok text) (second : append 0 value' = .ok text) :
    SameValue value value' := by
  have settled := append_injective first second
  exact (sameValue_sorted value).trans (settled ▸ (sameValue_sorted value').symm)

/-! ## Canonicalisation with a correct reader -/

section Reader

variable {reader : String → Option Json}

variable (correct : ReadsDenoted machine reader)

include correct

theorem readsCompact_of_readsDenoted :
    ReadsCompact reader := by
  intro value inside
  exact (correct _ value inside).mpr (denotes_render (integral_of_within inside))

omit correct in
theorem machine_of_append {text : List Char} (appended : append 0 value = .ok text) :
    machine value = true := by
  obtain ⟨_, inside, _⟩ := faithful value 0 text appended
  exact within_of_sorted (machine_of_safe inside)

/-- An accepted text denotes a value that can be written. -/
theorem denotes_of_canonicalize {json text : String}
    (canonical : canonicalize reader json = .ok text) :
    ∃ value chars, Denotes json value ∧ append 0 value = .ok chars ∧ text = String.ofList chars :=
    by
  unfold canonicalize at canonical
  split_ifs at canonical
  · cases canonical
  · split at canonical
    · cases canonical
    · rename_i value found
      obtain ⟨chars, appended, rfl⟩ := map_ok canonical
      exact ⟨value, chars, (correct json value (machine_of_append appended)).mp found, appended,
        rfl⟩

/-- A text within the limit gets the text of the value that it denotes. -/
theorem canonicalize_of_denotes {json : String}
    {chars : List Char} (denotes : Denotes json value)
    (appended : append 0 value = .ok chars) (small : json.utf8ByteSize ≤ maxBytes) :
    canonicalize reader json = .ok (String.ofList chars) := by
  rw [canonicalize, if_neg (Nat.not_lt.mpr small),
    (correct json value (machine_of_append appended)).mpr denotes]
  simp [appended, Except.map]

theorem sameValue_of_canonicalize {json json' text : String}
    (first : canonicalize reader json = .ok text) (second : canonicalize reader json' = .ok text) :
    ∃ value value', Denotes json value ∧ Denotes json' value' ∧ SameValue value value' := by
  obtain ⟨value, chars, denotes, appended, shape⟩ := denotes_of_canonicalize correct first
  obtain ⟨value', chars', denotes', appended', shape'⟩ := denotes_of_canonicalize correct second
  have same : chars = chars' := String.ofList_injective (shape.symm.trans shape')
  subst same
  exact ⟨value, value', denotes, denotes', sameValue_of_append appended appended'⟩

end Reader

/-- Canonicalisation is a canonical form of JSON values, and signed messages stand for
their parts. -/
structure IsCanonicalForm (reader : String → Option Json) : Prop where
  /-- A canonical text is its own canonical form. -/
  idempotent : ∀ json text, canonicalize reader json = .ok text →
    canonicalize reader text = .ok text
  /-- Texts of one value have one canonical form, if they are within the limit of size. -/
  same : ∀ json json' value value' text, Denotes json value → Denotes json' value' →
    SameValue value value' → canonicalize reader json = .ok text →
    json'.utf8ByteSize ≤ maxBytes → canonicalize reader json' = .ok text
  /-- Texts of different values have different ones. -/
  different : ∀ json json' value value' text text', Denotes json value → Denotes json' value' →
    ¬ SameValue value value' → canonicalize reader json = .ok text →
    canonicalize reader json' = .ok text' → text ≠ text'
  /-- What is accepted denotes a value. -/
  accepted : ∀ json text, canonicalize reader json = .ok text → ∃ value, Denotes json value
  /-- The canonical form is not longer than the text. -/
  short : ∀ json text, canonicalize reader json = .ok text →
    text.utf8ByteSize ≤ json.utf8ByteSize
  /-- Equal messages have the same context, version and payload. -/
  messages : ∀ ctx ctx' ver ver' payload payload' signed,
    message reader ctx ver payload = .ok signed → message reader ctx' ver' payload' = .ok signed →
    ctx = ctx' ∧ ver = ver' ∧ ∃ value value', Denotes payload value ∧ Denotes payload' value' ∧
      SameValue value value'

/-- With a correct reader, canonicalisation is a canonical form. -/
theorem canonicalize_isCanonicalForm (reader : String → Option Json)
    (correct : ReadsDenoted machine reader) : IsCanonicalForm reader := by
  have short : ∀ json text, canonicalize reader json = .ok text →
      text.utf8ByteSize ≤ json.utf8ByteSize := by
    intro json text canonical
    obtain ⟨value, chars, denotes, appended, rfl⟩ := denotes_of_canonicalize correct canonical
    have least := denotes_size denotes
    rw [(faithful value 0 chars appended).1]
    simp only [String.utf8ByteSize_ofList] at least ⊢
    rw [render_sorted_size]
    exact least
  refine ⟨?_, ?_, ?_, ?_, short, ?_⟩
  · intro json text canonical
    obtain ⟨limit, value, found, settled, rfl⟩ := canonicalize_ok canonical
    exact canonicalize_of_canonical (readsCompact_of_readsDenoted correct) settled
      ((short json _ canonical).trans limit)
  · intro json json' value value' text denotes denotes' same canonical small
    obtain ⟨read, chars, denoted, appended, rfl⟩ := denotes_of_canonicalize correct canonical
    obtain rfl := denotes_unique denotes denoted
    exact canonicalize_of_denotes correct denotes' (same.follows 0 chars appended) small
  · intro json json' value value' text text' denotes denotes' differ canonical canonical' equal
    subst equal
    obtain ⟨read, read', denoted, denoted', same⟩ :=
      sameValue_of_canonicalize correct canonical canonical'
    obtain rfl := denotes_unique denotes denoted
    obtain rfl := denotes_unique denotes' denoted'
    exact differ same
  · intro json text canonical
    obtain ⟨value, _, denotes, _⟩ := denotes_of_canonicalize correct canonical
    exact ⟨value, denotes⟩
  · intro ctx ctx' ver ver' payload payload' signed first second
    obtain ⟨sameCtx, sameVer, canonical, canonicalized, canonicalized'⟩ :=
      message_injective first second
    exact ⟨sameCtx, sameVer, sameValue_of_canonicalize correct canonicalized canonicalized'⟩

/-- Two members out of order. -/
def unordered : Json := .obj [("b", .int 1), ("a", .int 2)]

/-- The grammar itself is a correct reader, and it reads the members out of order. -/
theorem unordered_canonicalized :
    canonicalize denoted "\x7b\"b\":1,\"a\":2\x7d" = .ok "\x7b\"a\":2,\"b\":1\x7d" ∧
      IsCanonicalForm denoted := by
  refine ⟨?_, canonicalize_isCanonicalForm denoted (readsDenoted_denoted machine)⟩
  have text : "\x7b\"b\":1,\"a\":2\x7d" = String.ofList (render unordered) := by decide
  have denotes : Denotes "\x7b\"b\":1,\"a\":2\x7d" unordered := by
    rw [text]
    exact denotes_render (by decide)
  have written : append 0 unordered = .ok "\x7b\"a\":2,\"b\":1\x7d".toList := by decide
  exact canonicalize_of_denotes (readsDenoted_denoted machine) denotes written (by decide)

end Synergos.CanonicalForm
