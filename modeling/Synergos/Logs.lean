import Mathlib.Data.List.Basic
import Mathlib.Data.List.Infix

/-!
# Logs of terminated records

A log is read item by item: a separator ends a record, which is then checked
against the state the records before it led to; a record longer than the limit
stops the reading. This module says which logs are read to the end, and that a
log of linked records is determined by where it ends when no two of its links
lead to one state.
-/

namespace Synergos.Logs

open List

universe u v w

variable {α : Type u} {σ ε : Type v}

/-- Up to the first separator two splits of a list agree. -/
theorem split_unique {separator : α} {head head' : List α} (tail tail' : List α)
    (absent : separator ∉ head) (absent' : separator ∉ head')
    (same : head ++ separator :: tail = head' ++ separator :: tail') :
    head = head' ∧ tail = tail' := by
  induction head generalizing head' with
  | nil =>
    cases head' with
    | nil => exact ⟨rfl, (cons.inj same).2⟩
    | cons first rest =>
      obtain ⟨rfl, _⟩ := cons.inj same
      exact absurd mem_cons_self absent'
  | cons item rest ih =>
    cases head' with
    | nil =>
      obtain ⟨rfl, _⟩ := cons.inj same
      exact absurd mem_cons_self absent
    | cons first rest' =>
      obtain ⟨rfl, others⟩ := cons.inj same
      obtain ⟨rfl, rfl⟩ := ih (fun present => absent (.tail _ present))
        (fun present => absent' (.tail _ present)) others
      exact ⟨rfl, rfl⟩

/-! ## Reading -/

section Reading

variable (separator : α) (limit : Nat) (overflow : ε) (accept : σ → List α → Except ε σ)

/-- One item: the record read so far is accepted or grows. -/
def feed [DecidableEq α] (state : σ × List α) (item : α) : Except ε (σ × List α) :=
  if item = separator then (accept state.1 state.2).map (fun next => (next, []))
  else if limit ≤ state.2.length then .error overflow
  else .ok (state.1, state.2 ++ [item])

/-- Records, each with the separator after it. -/
def log (records : List (List α)) : List α := records.flatMap (fun record => record ++ [separator])

/-- A record that can be read: without separator and within the limit. -/
def Readable (record : List α) : Prop := separator ∉ record ∧ record.length ≤ limit

variable {separator limit overflow accept}

theorem log_cons (record : List α) (rest : List (List α)) :
    log separator (record :: rest) = record ++ separator :: log separator rest := by
  simp [log]

theorem log_append (left right : List (List α)) :
    log separator (left ++ right) = log separator left ++ log separator right := by
  simp [log]

theorem feed_separator [DecidableEq α] (state : σ) (record : List α) :
    feed separator limit overflow accept (state, record) separator =
      (accept state record).map (fun next => (next, [])) :=
  if_pos rfl

variable {last : σ} {item : α} {begun items : List α}

theorem feed_item [DecidableEq α] (other : item ≠ separator) (state : σ) (record : List α)
    (room : record.length < limit) :
    feed separator limit overflow accept (state, record) item = .ok (state, record ++ [item]) := by
  rw [feed, if_neg other, if_neg (Nat.not_le.mpr room)]

/-- Records found in what is left to read, the first of which has begun. -/
def Continues (separator : α) (limit : Nat) (accept : σ → List α → Except ε σ) (start : σ)
    (begun items : List α) (last : σ) : Prop :=
  ∃ records, log separator records = begun ++ items ∧
    (∀ record ∈ records, Readable separator limit record) ∧
    records.foldlM accept start = .ok last

theorem continues_nil {start : σ} (free : separator ∉ begun) :
    Continues separator limit accept start begun [] last ↔ begun = [] ∧ start = last := by
  constructor
  · rintro ⟨records, shape, _, accepted⟩
    cases records with
    | nil =>
      rw [append_nil] at shape
      exact ⟨shape.symm, Except.ok.inj accepted⟩
    | cons record rest =>
      rw [log_cons, append_nil] at shape
      rw [← shape] at free
      exact absurd (by simp) free
  · rintro ⟨rfl, rfl⟩
    exact ⟨[], rfl, by simp, rfl⟩

theorem continues_separator {start : σ} (begins : Readable separator limit begun) :
    Continues separator limit accept start begun (separator :: items) last ↔
      ∃ next, accept start begun = .ok next ∧
        Continues separator limit accept next [] items last := by
  constructor
  · rintro ⟨records, shape, readable, accepted⟩
    cases records with
    | nil => simp [log] at shape
    | cons record rest =>
      rw [log_cons] at shape
      obtain ⟨rfl, others⟩ := split_unique _ _ (readable record (by simp)).1 begins.1 shape
      cases first : accept start record with
      | error failure => simp [foldlM_cons, first, bind, Except.bind] at accepted
      | ok next =>
        simp only [foldlM_cons, first, bind, Except.bind] at accepted
        exact ⟨next, rfl, rest, others, fun other present => readable other (by simp [present]),
          accepted⟩
  · rintro ⟨next, first, records, shape, readable, accepted⟩
    refine ⟨begun :: records, ?_, ?_, ?_⟩
    · rw [log_cons, shape, nil_append]
    · intro record present
      rcases mem_cons.mp present with rfl | later
      · exact begins
      · exact readable record later
    · simp only [foldlM_cons, first, bind, Except.bind]
      exact accepted

/-- The first record of what continues a begun one is at least as long. -/
theorem continues_room {start : σ} (other : item ≠ separator) (free : separator ∉ begun)
    (continues : Continues separator limit accept start begun (item :: items) last) :
    begun.length < limit := by
  obtain ⟨records, shape, readable, _⟩ := continues
  cases records with
  | nil => simp [log] at shape
  | cons record rest =>
    rw [log_cons] at shape
    obtain ⟨absent, short⟩ := readable record (by simp)
    have first := append_eq_append_iff.mp shape
    rcases first with ⟨more, grown, tail⟩ | ⟨more, grown, tail⟩
    · cases more with
      | nil =>
        simp only [nil_append] at tail
        exact absurd (cons.inj tail).1.symm other
      | cons next more =>
        obtain ⟨rfl, _⟩ := cons.inj tail
        rw [grown] at free
        exact absurd (by simp) free
    · cases more with
      | nil =>
        simp only [nil_append] at tail
        exact absurd (cons.inj tail).1 other
      | cons next more =>
        rw [grown, length_append, length_cons] at short
        omega

theorem foldlM_feed [DecidableEq α] (items begun : List α) (start last : σ)
    (begins : Readable separator limit begun) :
    items.foldlM (feed separator limit overflow accept) (start, begun) = .ok (last, []) ↔
      Continues separator limit accept start begun items last := by
  induction items generalizing start begun with
  | nil =>
    rw [continues_nil begins.1]
    simp [pure, Except.pure, and_comm]
  | cons item rest ih =>
    rw [foldlM_cons]
    obtain rfl | ends := eq_or_ne item separator
    · rw [feed_separator, continues_separator begins]
      cases accept start begun with
      | error failure => simp [bind, Except.bind, Except.map]
      | ok next =>
        have empty : Readable item limit ([] : List α) := ⟨by simp, by simp⟩
        simpa [bind, Except.bind, Except.map] using ih [] next empty
    · by_cases room : begun.length < limit
      · have grows : Readable separator limit (begun ++ [item]) := by
          refine ⟨?_, by rw [length_append]; exact room⟩
          simp [begins.1, Ne.symm ends]
        rw [feed_item ends start begun room]
        have shift := ih (begun ++ [item]) start grows
        rw [Continues, append_assoc, singleton_append] at shift
        exact shift
      · constructor
        · intro read
          simp [feed, ends, Nat.not_lt.mp room, bind, Except.bind] at read
        · intro continues
          exact absurd (continues_room ends begins.1 continues) room

/-- What is read to the end is a log of readable records, accepted one after
the other. -/
theorem read_iff [DecidableEq α] (items : List α) (start last : σ) :
    items.foldlM (feed separator limit overflow accept) (start, []) = .ok (last, []) ↔
      ∃ records, log separator records = items ∧
        (∀ record ∈ records, Readable separator limit record) ∧
        records.foldlM accept start = .ok last :=
  foldlM_feed items [] start last ⟨by simp, by simp⟩

/-- A log determines its records. -/
theorem log_injective (records records' : List (List α))
    (readable : ∀ record ∈ records, Readable separator limit record)
    (readable' : ∀ record ∈ records', Readable separator limit record)
    (same : log separator records = log separator records') : records = records' := by
  induction records generalizing records' with
  | nil =>
    cases records' with
    | nil => rfl
    | cons record rest => simp [log] at same
  | cons record rest ih =>
    cases records' with
    | nil => simp [log] at same
    | cons record' rest' =>
      rw [log_cons, log_cons] at same
      obtain ⟨rfl, others⟩ := split_unique _ _ (readable record (by simp)).1
        (readable' record' (by simp)).1 same
      rw [ih rest' (fun other present => readable other (by simp [present]))
        (fun other present => readable' other (by simp [present])) others]

end Reading

/-! ## Linked records -/

section Links

variable {accept : σ → α → Except ε σ}

/-- A record is accepted after the ones before it, and leads to a state. -/
def Linked (accept : σ → α → Except ε σ) (start : σ) (records : List α) (previous : σ) (record : α)
    (next : σ) : Prop :=
  ∃ before, before ++ [record] <+: records ∧ before.foldlM accept start = .ok previous ∧
    accept previous record = .ok next

theorem foldlM_snoc (records : List α) (record : α) (start last : σ) :
    (records ++ [record]).foldlM accept start = .ok last ↔
      ∃ previous, records.foldlM accept start = .ok previous ∧
        accept previous record = .ok last := by
  rw [foldlM_append]
  cases records.foldlM accept start with
  | error failure => simp [bind, Except.bind]
  | ok previous =>
    simp only [foldlM_cons, foldlM_nil, bind, Except.bind, pure, Except.pure,
      Except.ok.injEq, exists_eq_left']
    cases accept previous record <;> rfl

theorem Linked.weaken {start previous next : σ} {records : List α} {record last : α}
    (linked : Linked accept start records previous record next) :
    Linked accept start (records ++ [last]) previous record next := by
  obtain ⟨before, begins, reached, accepted⟩ := linked
  exact ⟨before, begins.trans (prefix_append _ _), reached, accepted⟩

/-- A chain is determined by its length and where it ends, if links that lead to
one state are the same. -/
theorem chain_unique (left right : List α) (start last : σ)
    (distinct : ∀ previous previous' record record' next,
      Linked accept start left previous record next →
      Linked accept start right previous' record' next → previous = previous' ∧ record = record')
    (length : left.length = right.length) (ends : left.foldlM accept start = .ok last)
    (ends' : right.foldlM accept start = .ok last) : left = right := by
  induction left using List.reverseRecOn generalizing right last with
  | nil => exact (length_eq_zero_iff.mp length.symm).symm
  | append_singleton rest record ih =>
    cases right using List.reverseRecOn with
    | nil => simp at length
    | append_singleton rest' record' =>
      obtain ⟨previous, reached, accepted⟩ := (foldlM_snoc _ _ _ _).mp ends
      obtain ⟨previous', reached', accepted'⟩ := (foldlM_snoc _ _ _ _).mp ends'
      obtain ⟨rfl, rfl⟩ := distinct previous previous' record record' last
        ⟨rest, prefix_refl _, reached, accepted⟩
        ⟨rest', prefix_refl _, reached', accepted'⟩
      have same := ih rest' previous
        (fun _ _ _ _ _ linked linked' => distinct _ _ _ _ _ linked.weaken linked'.weaken)
        (by simpa using length) reached reached'
      rw [same]

end Links

end Synergos.Logs
