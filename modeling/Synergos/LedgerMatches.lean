import Synergos.FileExchange

/-!
# Matches in the transfer ledger

The ledger matches wants with offers, in whichever order they arrive and however
often gossip repeats them. A tally beside the ledger counts how often each want has
been reported as a match since it was last cancelled.

A match leaves no mark. A want that waits is reported for every offer of its file and
version; a want that finds an offer is reported and not entered, so that it is
reported again when it is repeated. A want is reported at most once exactly where
offers are not repeated while a want waits for them, and wants are not repeated while
an offer waits for them.

The same silence is found at the end of a transfer: the wants of the sending peer are
marked as fulfilled, and this node's own want stays as it is.
-/

namespace Synergos.LedgerMatches

open Identity Envelope Gossip FileExchange FileExchange.TransferLedger Function List

/-! ### Operations and what they report -/

inductive Operation where
  | want (want : WantEntry)
  | offer (offer : OfferEntry)
  | cancel (fileId : FileId) (version : UInt64) (requester : PeerId)
  | fulfil (fileId : FileId) (version : UInt64) (peer : PeerId)

/-- A requester with the file and version it wants. -/
abbrev Want := PeerId × LedgerKey

abbrev wantOf (entry : WantEntry) : Want := (entry.requester, (entry.fileId, entry.version))

def perform (ledger : TransferLedger) : Operation → List LedgerAction × TransferLedger
  | .want want =>
    let answer := ledger.registerWant want
    ([answer.1], answer.2)
  | .offer offer => ledger.registerOffer offer
  | .cancel fileId version requester => ([], ledger.cancelWant fileId version requester)
  | .fulfil fileId version peer => ([], ledger.markFulfilled fileId version peer)

/-- The entries that a match would be reported for. -/
def waiting (ledger : TransferLedger) (want : Want) : List WantEntry :=
  (ledger.wants want.2).filter fun entry => entry.state = .pending ∧ entry.requester = want.1

/-- Whether the ledger would call the want a duplicate. -/
def known (ledger : TransferLedger) (want : Want) : Bool :=
  (ledger.wants want.2).any fun entry => entry.requester = want.1 ∧ entry.state ≠ .cancelled

/-- The wants that the matches of an answer stand for, in the order of the matches. -/
def matchedWants (ledger : TransferLedger) : Operation → List Want
  | .want want =>
    let key := (want.fileId, want.version)
    if ledger.wanted want = true ∨ ledger.pendingOffer key = none then []
    else [(want.requester, key)]
  | .offer offer =>
    let key := (offer.fileId, offer.version)
    ((ledger.wants key).filter fun want => want.state = .pending).map fun want =>
      (want.requester, key)
  | .cancel _ _ _ | .fulfil _ _ _ => []

/-! ### The tally -/

structure Tally where
  ledger : TransferLedger
  /-- How often a want was reported as a match since it was last cancelled. -/
  reported : Want → Nat
  /-- Whether a want was registered since it was last cancelled. -/
  issued : Want → Bool

namespace Tally

def start : Tally := ⟨.new, fun _ => 0, fun _ => false⟩

def count (tally : Tally) : Operation → Want → Nat
  | .cancel fileId version requester =>
    update tally.reported (requester, (fileId, version)) 0
  | operation => fun want =>
    tally.reported want + (matchedWants tally.ledger operation).count want

def issue (tally : Tally) : Operation → Want → Bool
  | .want want => update tally.issued (want.requester, (want.fileId, want.version)) true
  | .cancel fileId version requester =>
    update tally.issued (requester, (fileId, version)) false
  | _ => tally.issued

def step (tally : Tally) (operation : Operation) : Tally :=
  ⟨(perform tally.ledger operation).2, tally.count operation, tally.issue operation⟩

/-- No want has been reported twice. -/
def Once (tally : Tally) : Prop := ∀ want, tally.reported want ≤ 1

/-- An offer is not repeated while a want waits for it; a want is not repeated while an
offer waits for it. -/
def Unrepeated (tally : Tally) : Operation → Prop
  | .offer offer =>
    tally.ledger.offers (offer.fileId, offer.version) = none ∨
      ∀ entry ∈ tally.ledger.wants (offer.fileId, offer.version), entry.state ≠ .pending
  | .want want =>
    tally.issued (want.requester, (want.fileId, want.version)) = false ∨
      tally.ledger.wanted want = true ∨
      tally.ledger.pendingOffer (want.fileId, want.version) = none
  | .cancel _ _ _ | .fulfil _ _ _ => True

/-- No want has been reported twice at any point of the sequence. -/
def OnceAlong : Tally → List Operation → Prop
  | tally, [] => tally.Once
  | tally, operation :: rest => tally.Once ∧ OnceAlong (tally.step operation) rest

def UnrepeatedAlong : Tally → List Operation → Prop
  | _, [] => True
  | tally, operation :: rest =>
    tally.Unrepeated operation ∧ UnrepeatedAlong (tally.step operation) rest

end Tally

/-- The entry that is given to the ledger waits, as every caller's does. -/
def Operation.waits : Operation → Prop
  | .want entry => entry.state = .pending
  | .offer entry => entry.state = .pending
  | .cancel _ _ _ | .fulfil _ _ _ => True

/-! ### What the operations change -/

section Ledger

variable {ledger : TransferLedger}

variable {fileId : FileId} {version : UInt64} {want : Want}

/-- A want that waits is known. -/
theorem waiting_eq_nil_of_unknown (unknown : known ledger want = false) :
    waiting ledger want = [] := by
  refine filter_eq_nil_iff.mpr ?_
  intro entry listed its
  obtain ⟨pending, requester⟩ := of_decide_eq_true its
  have absent := any_eq_false.mp unknown entry listed
  refine absent (decide_eq_true ⟨requester, ?_⟩)
  rw [pending]
  decide

theorem waiting_settleWants (key : LedgerKey) (requester : PeerId) {state : LedgerEntryState}
    (settled : state ≠ .pending) (want : Want) :
    waiting (ledger.settleWants key requester state) want =
      if want = (requester, key) then [] else waiting ledger want := by
  obtain ⟨who, itsKey⟩ := want
  obtain rfl | sameKey := eq_or_ne itsKey key
  · simp only [waiting, settleWants, update_self, Prod.mk.injEq, and_true]
    induction ledger.wants itsKey with
    | nil => split_ifs <;> rfl
    | cons entry rest ih =>
      rw [map_cons, filter_cons, filter_cons, ih]
      by_cases itsRequester : entry.requester = requester
      · by_cases sameWho : who = requester
        · simp [itsRequester, sameWho, settled]
        · simp [itsRequester, sameWho, settled, Ne.symm sameWho]
      · obtain rfl | sameWho := eq_or_ne who requester
        · simp [itsRequester]
        · simp [itsRequester, sameWho]
  · have other : (who, itsKey) ≠ (requester, key) := fun same => sameKey (Prod.mk.inj same).2
    rw [if_neg other]
    simp [waiting, settleWants, update_of_ne sameKey]

/-- A want that is known stays so when wants are fulfilled. -/
theorem known_markFulfilled {peer : PeerId} (before : known ledger want = true) :
    known (ledger.markFulfilled fileId version peer) want = true := by
  obtain ⟨entry, listed, its⟩ := any_eq_true.mp before
  obtain ⟨requester, live⟩ := of_decide_eq_true its
  by_cases sameKey : want.2 = (fileId, version)
  · have changed : (if entry.requester = peer then { entry with state := .fulfilled } else entry) ∈
        (ledger.markFulfilled fileId version peer).wants want.2 := by
      simp only [markFulfilled, settleWants, sameKey, update_self]
      exact mem_map.mpr ⟨entry, sameKey ▸ listed, rfl⟩
    refine any_eq_true.mpr ⟨_, changed, decide_eq_true ?_⟩
    split_ifs
    · exact ⟨requester, LedgerEntryState.noConfusion⟩
    · exact ⟨requester, live⟩
  · simp only [known, markFulfilled, settleWants, update_of_ne sameKey]
    exact before

theorem known_cancelWant_of_ne {requester : PeerId}
    (other : want ≠ (requester, (fileId, version))) :
    known (ledger.cancelWant fileId version requester) want = known ledger want := by
  obtain ⟨who, itsKey⟩ := want
  obtain rfl | sameKey := eq_or_ne itsKey (fileId, version)
  · have otherWho : who ≠ requester := fun same => other (by rw [same])
    simp only [known, cancelWant, settleWants, update_self, any_map]
    congr 1
    funext entry
    by_cases its : entry.requester = requester
    · simp [its, otherWho.symm]
    · simp [its]
  · simp [known, cancelWant, settleWants, update_of_ne sameKey]

/-- A want changes the ledger only where it is new and no offer waits for it. -/
theorem registerWant_cases (ledger : TransferLedger) (want : WantEntry) :
    (¬ (known ledger (wantOf want) = false ∧
      ledger.pendingOffer (want.fileId, want.version) = none) ∧
      (ledger.registerWant want).2 = ledger) ∨
    (known ledger (wantOf want) = false ∧ ledger.pendingOffer (want.fileId, want.version) = none ∧
      (ledger.registerWant want).2 =
        { ledger with
          wants := update ledger.wants (want.fileId, want.version)
            (ledger.wants (want.fileId, want.version) ++ [want]) }) := by
  have wanted : ledger.wanted want = known ledger (wantOf want) := rfl
  cases duplicate : known ledger (wantOf want) with
  | true => exact .inl ⟨by simp, by simp [registerWant, wanted, duplicate]⟩
  | false =>
    cases found : ledger.pendingOffer (want.fileId, want.version) with
    | some offer => exact .inl ⟨by simp, by simp [registerWant, wanted, duplicate, found]⟩
    | none => exact .inr ⟨rfl, rfl, by simp [registerWant, wanted, duplicate, found]⟩

theorem waiting_entered (entry : WantEntry) (want : Want) :
    waiting { ledger with
        wants := update ledger.wants (entry.fileId, entry.version)
          (ledger.wants (entry.fileId, entry.version) ++ [entry]) } want =
      if want = wantOf entry ∧ entry.state = .pending then
        waiting ledger want ++ [entry]
      else waiting ledger want := by
  obtain ⟨who, itsKey⟩ := want
  obtain rfl | sameKey := eq_or_ne itsKey (entry.fileId, entry.version)
  · simp only [waiting, update_self, filter_append, Prod.mk.injEq, and_true]
    by_cases its : entry.state = .pending ∧ entry.requester = who
    · rw [if_pos ⟨its.2.symm, its.1⟩]
      simp [its]
    · rw [if_neg fun same => its ⟨same.2, same.1.symm⟩]
      have left : decide (entry.state = .pending ∧ entry.requester = who) = false :=
        decide_eq_false its
      simp only [filter_cons, left, Bool.false_eq_true, if_false, filter_nil,
        append_nil]
  · rw [if_neg fun same => sameKey (Prod.mk.inj same.1).2]
    simp [waiting, update_of_ne sameKey]

theorem known_entered {entry : WantEntry} (before : known ledger want = true) :
    known { ledger with
        wants := update ledger.wants (entry.fileId, entry.version)
          (ledger.wants (entry.fileId, entry.version) ++ [entry]) } want = true := by
  by_cases sameKey : want.2 = (entry.fileId, entry.version)
  · simp only [known, sameKey, update_self, any_append] at before ⊢
    rw [before, Bool.true_or]
  · simp only [known, update_of_ne sameKey]
    exact before

/-- An offer is reported once for each entry that waits for it. -/
theorem count_matchedWants_offer (ledger : TransferLedger) (offer : OfferEntry) (want : Want) :
    (matchedWants ledger (.offer offer)).count want =
      if want.2 = (offer.fileId, offer.version) then (waiting ledger want).length else 0 := by
  obtain ⟨who, itsKey⟩ := want
  simp only [matchedWants]
  split_ifs with sameKey
  · subst sameKey
    rw [count_eq_countP, countP_map, countP_eq_length_filter, filter_filter]
    congr 1
    refine filter_congr fun entry _ => ?_
    by_cases its : entry.requester = who
    · simp [its]
    · simp [its]
  · refine count_eq_zero.mpr ?_
    intro listed
    obtain ⟨entry, _, same⟩ := mem_map.mp listed
    exact sameKey (Prod.mk.inj same).2.symm

end Ledger

/-! ### At most one report -/

namespace Tally

variable {tally : Tally} {operation : Operation}

/-- What is known of the counts where nothing was repeated. -/
structure Counted (tally : Tally) : Prop where
  single : ∀ want, (waiting tally.ledger want).length ≤ 1
  once : tally.Once
  unissued : ∀ want, tally.issued want = false →
    tally.reported want = 0 ∧ waiting tally.ledger want = []
  unoffered : ∀ want, tally.ledger.offers want.2 = none → tally.reported want = 0

theorem counted_start : Counted start := by
  constructor
  · intro want
    exact Nat.zero_le 1
  · intro want
    exact Nat.zero_le 1
  · intro want _
    exact ⟨rfl, rfl⟩
  · intro want _
    rfl

theorem pendingOffer_of_absent {ledger : TransferLedger} {key : LedgerKey}
    (absent : ledger.offers key = none) : ledger.pendingOffer key = none := by
  rw [pendingOffer, absent, Option.filter_none]

theorem offers_want (entry : WantEntry) :
    (tally.step (.want entry)).ledger.offers = tally.ledger.offers := by
  rcases registerWant_cases tally.ledger entry with ⟨_, same⟩ | ⟨_, _, entered⟩
  · exact congrArg TransferLedger.offers same
  · exact (congrArg TransferLedger.offers entered :)

/-- A want that is new and that no offer waits for is the only one that starts to wait. -/
theorem waiting_want (entry : WantEntry) (want : Want) :
    waiting (tally.step (.want entry)).ledger want = waiting tally.ledger want ∨
      want = wantOf entry ∧ tally.ledger.pendingOffer want.2 = none ∧
        waiting (tally.step (.want entry)).ledger want = [entry] := by
  rcases registerWant_cases tally.ledger entry with ⟨_, same⟩ | ⟨new, unoffered, entered⟩
  · exact .inl (congrArg (waiting · want) same)
  · have ledger : (tally.step (.want entry)).ledger = _ := entered
    rw [ledger, waiting_entered]
    split_ifs with its
    · obtain ⟨rfl, _⟩ := its
      rw [waiting_eq_nil_of_unknown new]
      exact .inr ⟨rfl, unoffered, rfl⟩
    · exact .inl rfl

/-- A want that is new and that an offer waits for is the only one that is reported. -/
theorem reported_want (entry : WantEntry) (want : Want) :
    (tally.step (.want entry)).reported want = tally.reported want ∨
      want = wantOf entry ∧ tally.ledger.wanted entry = false ∧
        tally.ledger.pendingOffer want.2 ≠ none ∧
        (tally.step (.want entry)).reported want = tally.reported want + 1 := by
  obtain rfl | other := eq_or_ne want (wantOf entry)
  · by_cases idle : tally.ledger.wanted entry = true ∨
        tally.ledger.pendingOffer (entry.fileId, entry.version) = none
    · exact .inl (by simp [step, count, matchedWants, idle])
    · obtain ⟨new, offered⟩ := not_or.mp idle
      exact .inr ⟨rfl, by simpa using new, offered,
        by simp [step, count, matchedWants, new, offered]⟩
  · refine .inl ?_
    simp only [step, count, matchedWants]
    split_ifs <;> simp [other.symm]

/-- A want is registered. -/
theorem Counted.want (counted : Counted tally) (entry : WantEntry)
    (unrepeated : tally.Unrepeated (.want entry)) : Counted (tally.step (.want entry)) := by
  constructor
  · intro want
    rcases waiting_want entry want with same | ⟨_, _, one⟩
    · rw [same]
      exact counted.single want
    · rw [one]
      exact Nat.le_refl 1
  · intro want
    rcases reported_want entry want with same | ⟨rfl, new, offered, more⟩
    · rw [same]
      exact counted.once want
    · have first : tally.issued (wantOf entry) = false := by
        rcases unrepeated with free | duplicate | none
        · exact free
        · simp [new] at duplicate
        · exact absurd none offered
      rw [more, (counted.unissued _ first).1]
  · intro want free
    have other : want ≠ wantOf entry := by
      rintro rfl
      simp [step, issue] at free
    rw [(waiting_want entry want).resolve_right fun its => other its.1,
      (reported_want entry want).resolve_right fun its => other its.1]
    exact counted.unissued want (by simpa [step, issue, other] using free)
  · intro want none
    rw [offers_want] at none
    rw [(reported_want entry want).resolve_right fun its => its.2.2.1 (pendingOffer_of_absent none)]
    exact counted.unoffered want none

theorem reported_offer (entry : OfferEntry) (want : Want) :
    (tally.step (.offer entry)).reported want = tally.reported want +
      if want.2 = (entry.fileId, entry.version) then (waiting tally.ledger want).length else 0 := by
  rw [← count_matchedWants_offer]
  rfl

/-- An offer is registered. -/
theorem Counted.offer (counted : Counted tally) (entry : OfferEntry)
    (unrepeated : tally.Unrepeated (.offer entry)) : Counted (tally.step (.offer entry)) := by
  have waits : ∀ want, waiting (tally.step (.offer entry)).ledger want = waiting tally.ledger want :=
    fun _ => rfl
  constructor
  · exact counted.single
  · intro want
    rw [reported_offer]
    split_ifs with its
    · rcases unrepeated with first | idle
      · rw [counted.unoffered want (its ▸ first), Nat.zero_add]
        exact counted.single want
      · have none : waiting tally.ledger want = [] := by
          refine filter_eq_nil_iff.mpr fun listed member its' => ?_
          exact idle listed (its ▸ member) (of_decide_eq_true its').1
        rw [none]
        exact counted.once want
    · exact counted.once want
  · intro want free
    obtain ⟨zero, none⟩ := counted.unissued want free
    rw [reported_offer, waits, zero, none]
    refine ⟨?_, rfl⟩
    split_ifs <;> rfl
  · intro want none
    have other : want.2 ≠ (entry.fileId, entry.version) := by
      intro its
      simp [step, perform, registerOffer, its] at none
    have before : tally.ledger.offers want.2 = .none := by
      simpa [step, perform, registerOffer, update_of_ne other] using none
    rw [reported_offer, if_neg other, counted.unoffered want before]

/-- The wants of a requester for a key are put into a state in which they do not wait. -/
theorem Counted.settled (counted : Counted tally) {after : Tally} {key : LedgerKey}
    {requester : PeerId} {state : LedgerEntryState} (settled : state ≠ .pending)
    (ledger : after.ledger = tally.ledger.settleWants key requester state)
    (reported : ∀ want, after.reported want = tally.reported want ∨ after.reported want = 0)
    (issued : ∀ want, after.issued want = false → tally.issued want = false ∨
      want = (requester, key) ∧ after.reported want = 0) : Counted after := by
  constructor
  · intro want
    rw [ledger, waiting_settleWants key requester settled]
    split_ifs
    · exact Nat.zero_le 1
    · exact counted.single want
  · intro want
    rcases reported want with same | zero
    · rw [same]
      exact counted.once want
    · rw [zero]
      exact Nat.zero_le 1
  · intro want free
    rw [ledger, waiting_settleWants key requester settled]
    rcases issued want free with before | ⟨its, zero⟩
    · obtain ⟨zero, none⟩ := counted.unissued want before
      refine ⟨?_, ?_⟩
      · rcases reported want with same | cleared
        · rw [same, zero]
        · exact cleared
      · split_ifs
        · rfl
        · exact none
    · exact ⟨zero, if_pos its⟩
  · intro want none
    rw [ledger] at none
    rcases reported want with same | zero
    · rw [same]
      exact counted.unoffered want none
    · exact zero

theorem Counted.step (counted : Counted tally) (unrepeated : tally.Unrepeated operation) :
    Counted (tally.step operation) := by
  cases operation with
  | want entry => exact counted.want entry unrepeated
  | offer entry => exact counted.offer entry unrepeated
  | cancel fileId version requester =>
    have ledger : (tally.step (.cancel fileId version requester)).ledger =
        tally.ledger.settleWants (fileId, version) requester .cancelled := rfl
    refine counted.settled (by decide) ledger ?_ ?_
    · intro want
      by_cases its : want = (requester, (fileId, version))
      · exact .inr (by simp [Tally.step, count, its])
      · exact .inl (by simp [Tally.step, count, its])
    · intro want free
      by_cases its : want = (requester, (fileId, version))
      · exact .inr ⟨its, by simp [Tally.step, count, its]⟩
      · exact .inl (by simpa [Tally.step, issue, its] using free)
  | fulfil fileId version peer =>
    have ledger : (tally.step (.fulfil fileId version peer)).ledger =
        tally.ledger.settleWants (fileId, version) peer .fulfilled := rfl
    refine counted.settled (by decide) ledger ?_ ?_
    · intro want
      exact .inl (by simp [Tally.step, count, matchedWants])
    · intro want free
      exact .inl free

/-! ### Where a repetition is reported -/

/-- What the counts owe to the entries, where all entries are given to the ledger as
waiting. -/
structure Attentive (tally : Tally) : Prop where
  offered : ∀ key offer, tally.ledger.offers key = some offer → offer.state = .pending
  waited : ∀ want, tally.ledger.offers want.2 ≠ none → waiting tally.ledger want ≠ [] →
    1 ≤ tally.reported want
  taken : ∀ want, tally.issued want = true → known tally.ledger want = false →
    1 ≤ tally.reported want

theorem attentive_start : Attentive start := by
  constructor
  · intro key offer given
    cases given
  · intro want given
    exact absurd rfl given
  · intro want issued
    cases issued

theorem Attentive.none_of_pendingOffer (attentive : Attentive tally) {key : LedgerKey}
    (none : tally.ledger.pendingOffer key = none) : tally.ledger.offers key = .none := by
  cases given : tally.ledger.offers key with
  | none => rfl
  | some offer =>
    have pending := attentive.offered key offer given
    simp [pendingOffer, given, pending] at none

theorem le_reported {want : Want} (kept : ∀ fileId version requester,
    operation = .cancel fileId version requester → want ≠ (requester, (fileId, version))) :
    tally.reported want ≤ (tally.step operation).reported want := by
  cases operation with
  | want entry | offer entry | fulfil fileId version peer => exact Nat.le_add_right _ _
  | cancel fileId version requester =>
    have other := kept fileId version requester rfl
    simp [Tally.step, count, other]

theorem known_want (entry : WantEntry) {want : Want} (before : known tally.ledger want = true) :
    known (tally.step (.want entry)).ledger want = true := by
  rcases registerWant_cases tally.ledger entry with ⟨_, same⟩ | ⟨_, _, entered⟩
  · exact (congrArg (known · want) same).trans before
  · exact (congrArg (known · want) entered).trans (known_entered before)

theorem Attentive.want (attentive : Attentive tally) (entry : WantEntry)
    (waits : entry.state = .pending) : Attentive (tally.step (.want entry)) := by
  have grows : ∀ want, tally.reported want ≤ (tally.step (.want entry)).reported want :=
    fun _ => le_reported nofun
  constructor
  · rw [offers_want]
    exact attentive.offered
  · intro want given waiting
    rw [offers_want] at given
    rw [(waiting_want entry want).resolve_right fun its =>
      given (attentive.none_of_pendingOffer its.2.1)] at waiting
    exact (attentive.waited want given waiting).trans (grows want)
  · intro want issued unknown
    have before : known tally.ledger want = false := by
      by_contra notUnknown
      simp [known_want entry (by simpa using notUnknown)] at unknown
    obtain rfl | other := eq_or_ne want (wantOf entry)
    · have new : tally.ledger.wanted entry = false := before
      by_cases unoffered : tally.ledger.pendingOffer (entry.fileId, entry.version) = none
      · simp [known, step, perform, registerWant, new, unoffered, waits] at unknown
      · simp [step, count, matchedWants, new, unoffered]
    · have issuedBefore : tally.issued want = true := by simpa [step, issue, other] using issued
      exact (attentive.taken want issuedBefore before).trans (grows want)

theorem Attentive.offer (attentive : Attentive tally) (entry : OfferEntry)
    (waits : entry.state = .pending) : Attentive (tally.step (.offer entry)) := by
  constructor
  · intro key offer given
    by_cases its : key = (entry.fileId, entry.version)
    · have same : some entry = some offer := by
        simpa [step, perform, registerOffer, its] using given
      cases same
      exact waits
    · exact attentive.offered key offer
        (by simpa [step, perform, registerOffer, update_of_ne its] using given)
  · intro want given waiting
    rw [reported_offer]
    split_ifs with its
    · have filled := length_pos_of_ne_nil waiting
      exact Nat.le_trans filled (Nat.le_add_left _ _)
    · have before : tally.ledger.offers want.2 ≠ none := by
        simpa [step, perform, registerOffer, update_of_ne its] using given
      exact attentive.waited want before waiting
  · intro want issued unknown
    rw [reported_offer]
    exact (attentive.taken want issued unknown).trans (Nat.le_add_right _ _)

/-- The wants of a requester for a key no longer wait. -/
theorem Attentive.settled (attentive : Attentive tally) {after : Tally} {key : LedgerKey}
    {requester : PeerId} {state : LedgerEntryState} (settled : state ≠ .pending)
    (ledger : after.ledger = tally.ledger.settleWants key requester state)
    (grows : ∀ want, want ≠ (requester, key) → tally.reported want ≤ after.reported want)
    (taken : ∀ want, after.issued want = true → known after.ledger want = false →
      tally.issued want = true ∧ known tally.ledger want = false ∧
        tally.reported want ≤ after.reported want) : Attentive after := by
  constructor
  · rw [ledger]
    exact attentive.offered
  · intro want given waiting
    rw [ledger] at given
    rw [ledger, waiting_settleWants key requester settled] at waiting
    split_ifs at waiting with its
    · exact absurd rfl waiting
    · exact (attentive.waited want given waiting).trans (grows want its)
  · intro want issued unknown
    obtain ⟨issuedBefore, before, more⟩ := taken want issued unknown
    exact (attentive.taken want issuedBefore before).trans more

theorem Attentive.step (attentive : Attentive tally) (waits : operation.waits) :
    Attentive (tally.step operation) := by
  cases operation with
  | want entry => exact attentive.want entry waits
  | offer entry => exact attentive.offer entry waits
  | cancel fileId version requester =>
    have grows : ∀ want, want ≠ (requester, (fileId, version)) →
        tally.reported want ≤ (tally.step (.cancel fileId version requester)).reported want := by
      intro want other
      exact le_reported fun _ _ _ same => by cases same; exact other
    refine attentive.settled (by decide) rfl grows fun want issued unknown => ?_
    have other : want ≠ (requester, (fileId, version)) := by
      rintro rfl
      simp [Tally.step, issue] at issued
    exact ⟨by simpa [Tally.step, issue, other] using issued,
      (known_cancelWant_of_ne other).symm.trans unknown, grows want other⟩
  | fulfil fileId version peer =>
    refine attentive.settled (by decide) rfl (fun _ _ => le_reported nofun) ?_
    intro want issued unknown
    refine ⟨issued, ?_, le_reported nofun⟩
    by_contra notUnknown
    have still : known (tally.step (.fulfil fileId version peer)).ledger want = true :=
      known_markFulfilled (by simpa using notUnknown)
    simp [still] at unknown

/-- A repetition is reported a second time. -/
theorem Attentive.unrepeated (attentive : Attentive tally) (once : (tally.step operation).Once) :
    tally.Unrepeated operation := by
  cases operation with
  | want entry =>
    by_contra repeated
    simp only [Unrepeated, not_or] at repeated
    obtain ⟨issued, new, offered⟩ := repeated
    have unknown : known tally.ledger (wantOf entry) = false :=
      eq_false_of_ne_true new
    have before := attentive.taken _ (by simpa using issued) unknown
    have after := once (wantOf entry)
    simp [Tally.step, count, matchedWants, new, offered] at after
    omega
  | offer entry =>
    by_contra repeated
    simp only [Unrepeated, not_or, not_forall, not_not] at repeated
    obtain ⟨offered, listed, member, pending⟩ := repeated
    have waits : waiting tally.ledger (listed.requester, (entry.fileId, entry.version)) ≠ [] :=
      ne_nil_of_mem (mem_filter.mpr ⟨member, decide_eq_true ⟨pending, rfl⟩⟩)
    have before := attentive.waited (listed.requester, (entry.fileId, entry.version)) offered waits
    have after := once (listed.requester, (entry.fileId, entry.version))
    have filled := length_pos_of_ne_nil waits
    have counted := count_matchedWants_offer tally.ledger entry
      (listed.requester, (entry.fileId, entry.version))
    simp only [if_true] at counted
    simp only [Tally.step, count, counted] at after
    omega
  | cancel fileId version requester | fulfil fileId version peer => trivial

end Tally

/-! ### Sequences -/

open Tally in
theorem onceAlong_of_unrepeated {tally : Tally} {operations : List Operation}
    (counted : Counted tally) (unrepeated : UnrepeatedAlong tally operations) :
    OnceAlong tally operations := by
  induction operations generalizing tally with
  | nil => exact counted.once
  | cons operation rest ih =>
    exact ⟨counted.once, ih (counted.step unrepeated.1) unrepeated.2⟩

open Tally in
theorem unrepeated_of_onceAlong {tally : Tally} {operations : List Operation}
    (attentive : Attentive tally) (waits : ∀ operation ∈ operations, operation.waits)
    (once : OnceAlong tally operations) : UnrepeatedAlong tally operations := by
  induction operations generalizing tally with
  | nil => trivial
  | cons operation rest ih =>
    obtain ⟨_, later⟩ := once
    have next : (tally.step operation).Once := by
      cases rest with
      | nil => exact later
      | cons _ _ => exact later.1
    refine ⟨attentive.unrepeated next, ?_⟩
    exact ih (attentive.step (waits operation mem_cons_self))
      (fun other member => waits other (mem_cons_of_mem operation member)) later

/-- A sequence in which no offer is repeated while a want waits for it, and no want while
an offer waits for it, reports each want at most once between two of its cancellations.
Where all entries are given to the ledger as waiting there are no other such sequences. -/
theorem reported_once_iff_unrepeated (operations : List Operation) :
    (Tally.UnrepeatedAlong .start operations → Tally.OnceAlong .start operations) ∧
      ((∀ operation ∈ operations, operation.waits) → Tally.OnceAlong .start operations →
        Tally.UnrepeatedAlong .start operations) :=
  ⟨onceAlong_of_unrepeated Tally.counted_start,
    unrepeated_of_onceAlong Tally.attentive_start⟩

/-- An offer that gossip repeats is matched with the same want again. -/
theorem repeated_offer_reported_twice :
    (([.want ⟨"b", "f", 3, 1000, .pending⟩, .offer ⟨"a", "f", 3, 1024, 7, 1000, .pending⟩,
        .offer ⟨"a", "f", 3, 1024, 7, 1000, .pending⟩] : List Operation).foldl Tally.step
      .start).reported ("b", ("f", 3)) = 2 := by
  decide

/-! ### The ledger of an exchange -/

/-- What a call gives to the ledger. -/
def operations (exchange : Exchange) (now : Moment) : Call → List Operation
  | .fetchFile request _ =>
    [.want ⟨exchange.localPeerId, request.fileId, request.version, now.ms, .pending⟩]
  | .shareFile request _ =>
    [.offer ⟨exchange.localPeerId, request.fileId, request.version, request.fileSize, request.crc,
      now.ms, .pending⟩]
  | .publishUpdates _ files _ => files.map fun file =>
    .offer ⟨exchange.localPeerId, file.fileId, file.version, file.fileSize, file.crc, now.ms,
      .pending⟩
  | .fileOffer _ _ sender fileId version size crc =>
    if version = 0 ∨ version = 0xffffffffffffffff ∨ sender = exchange.localPeerId then []
    else [.offer ⟨sender, fileId, version, size, crc, now.ms, .pending⟩]
  | .finishReceived header sender _ => [.fulfil header.fileId header.effectiveVersion sender]
  | .cancelTransfer id =>
    match exchange.transfers id with
    | none => []
    | some transfer =>
      if transfer.direction = .receive then
        [.cancel transfer.fileId transfer.version exchange.localPeerId]
      else []
  | .completeTransfer id =>
    match exchange.transfers id with
    | none => []
    | some transfer => [.fulfil transfer.fileId transfer.version transfer.peerId]
  | _ => []

def ledgerAfter (ledger : TransferLedger) (operation : Operation) : TransferLedger :=
  (perform ledger operation).2

section Exchange

variable (blake3 : List UInt8 → Base64url.Bytes 32) (scheme : Scheme) (crc32 : List UInt8 → UInt32)

theorem ledger_enterFetch (exchange : Exchange) (request : FetchRequest) (id : TransferId)
    (now : Moment) : (enterFetch exchange request id now).ledger =
      (exchange.ledger.registerWant
        ⟨exchange.localPeerId, request.fileId, request.version, now.ms, .pending⟩).2 := by
  obtain ⟨_, same⟩ := enterFetch_frame exchange request id now
  rw [same]
  rfl

theorem ledger_publishUpdates (exchange : Exchange) (notifications : List PublishNotification)
    (catalogCid : Option Cid) (now : Moment) :
    (publishUpdates blake3 scheme crc32 exchange notifications catalogCid now).2.ledger =
      (notifications.map fun notif => Operation.offer ⟨exchange.localPeerId, notif.fileId,
        notif.version, notif.fileSize, notif.crc, now.ms, .pending⟩).foldl ledgerAfter
          exchange.ledger := by
  have each : ∀ (files : List PublishNotification) (progress : Exchange × UInt32),
      progress.1.localPeerId = exchange.localPeerId →
        (files.foldl (publishUpdate blake3 scheme crc32 now) progress).1.ledger =
          (files.map fun notif => Operation.offer ⟨exchange.localPeerId, notif.fileId,
            notif.version, notif.fileSize, notif.crc, now.ms, .pending⟩).foldl ledgerAfter
              progress.1.ledger := by
    intro files
    induction files with
    | nil => exact fun _ _ => rfl
    | cons file rest ih =>
      intro progress same
      have later := ih (publishUpdate blake3 scheme crc32 now progress file) same
      rw [foldl_cons, map_cons, foldl_cons, later]
      simp [publishUpdate, offerLocally, clearFetchPin, insertShared, broadcastOffer, broadcast,
        ledgerAfter, perform, same]
  obtain ⟨_, whole⟩ := publishUpdates_fold blake3 scheme crc32 exchange notifications catalogCid now
  rw [whole]
  exact each notifications (exchange, 0) rfl

theorem ledger_completeTransfer (exchange : Exchange) (id : TransferId) (now : Moment) :
    (completeTransfer exchange id).ledger =
      (operations exchange now (.completeTransfer id)).foldl ledgerAfter exchange.ledger := by
  cases found : exchange.transfers id with
  | none => simp only [completeTransfer, operations, found, foldl_nil]
  | some transfer =>
    simp [completeTransfer, operations, found, modifyTransfer, ledgerAfter, perform]

theorem ledger_cancelTransfer (exchange : Exchange) (id : TransferId) (now : Moment) :
    (cancelTransfer exchange id).2.ledger =
      (operations exchange now (.cancelTransfer id)).foldl ledgerAfter exchange.ledger := by
  cases found : exchange.transfers id with
  | none => simp only [cancelTransfer, operations, found, foldl_nil]
  | some transfer =>
    simp only [cancelTransfer, operations, found]
    split <;> rfl

theorem ledger_finishReceived (exchange : Exchange) (header : TransferHeader) (sender : PeerId)
    (finalPath : PathBuf) : (finishReceived exchange header sender finalPath).ledger =
      exchange.ledger.markFulfilled header.fileId header.effectiveVersion sender := by
  simp [finishReceived, completeTransfer, setTransfer, TransferHeader.transfer, modifyTransfer]

theorem ledger_onFileOffer (projectOpen : Bool) (exchange : Exchange) (projectId : ProjectId)
    (sender : PeerId) (fileId : FileId) (version size : UInt64) (crc : UInt32) (now : Moment) :
    (onFileOffer projectOpen exchange projectId sender fileId version size crc now).2.ledger =
      (operations exchange now (.fileOffer projectId projectOpen sender fileId version size
        crc)).foldl ledgerAfter exchange.ledger := by
  by_cases refused : version = 0 ∨ version = 0xffffffffffffffff
  · have none : operations exchange now (.fileOffer projectId projectOpen sender fileId version size
        crc) = [] := if_pos (by tauto)
    rw [none, onFileOffer, if_pos refused, foldl_nil]
  · by_cases own : sender = exchange.localPeerId
    · have none : operations exchange now (.fileOffer projectId projectOpen sender fileId version
          size crc) = [] := if_pos (by tauto)
      rw [none, onFileOffer, if_neg refused, handleFileOffer, if_pos own, foldl_nil]
    · have one : operations exchange now (.fileOffer projectId projectOpen sender fileId version
          size crc) = [.offer ⟨sender, fileId, version, size, crc, now.ms, .pending⟩] :=
        if_neg (by tauto)
      rw [one, onFileOffer, if_neg refused, handleFileOffer, if_neg own]
      rfl

/-- The ledger after a call. -/
theorem ledger_call (exchange : Exchange) (now : Moment) (made : Call) :
    (call blake3 scheme crc32 exchange now made).2.ledger =
      (operations exchange now made).foldl ledgerAfter exchange.ledger := by
  cases made with
  | fetchFile request id => exact ledger_enterFetch exchange request id now
  | shareFile request id => rfl
  | publishUpdates projectId files catalogCid =>
    simp only [call, ledger_publishUpdates, operations, map_map]
    rfl
  | fileOffer projectId projectOpen sender fileId version size crc =>
    exact ledger_onFileOffer projectOpen exchange projectId sender fileId version size crc now
  | finishReceived header sender finalPath =>
    exact ledger_finishReceived exchange header sender finalPath
  | cancelTransfer id => exact ledger_cancelTransfer exchange id now
  | completeTransfer id => exact ledger_completeTransfer exchange id now
  | _ => exact (call_frame blake3 scheme crc32 exchange now _).ledger rfl

/-! ### The want of a fetch -/

/-- A want of this node for the file in this version waits in the ledger. -/
def OwnWaiting (exchange : Exchange) (fileId : FileId) (version : UInt64) : Prop :=
  waiting exchange.ledger (exchange.localPeerId, (fileId, version)) ≠ []

/-- No want of the requester waits. -/
def Idle (ledger : TransferLedger) (requester : PeerId) : Prop :=
  ∀ key, waiting ledger (requester, key) = []

/-- The operation is no want, or it is one that finds its offer. -/
def Operation.Served (ledger : TransferLedger) : Operation → Prop
  | .want entry => ledger.pendingOffer (entry.fileId, entry.version) ≠ none
  | _ => True

theorem Idle.after {ledger : TransferLedger} {requester : PeerId} (idle : Idle ledger requester)
    {operation : Operation} (served : operation.Served ledger) :
    Idle (ledgerAfter ledger operation) requester := by
  intro key
  cases operation with
  | want entry =>
    have answer : ledgerAfter ledger (.want entry) = (ledger.registerWant entry).2 := rfl
    rcases registerWant_cases ledger entry with ⟨_, same⟩ | ⟨_, unoffered, _⟩
    · rw [answer, same]
      exact idle key
    · exact absurd unoffered served
  | offer entry => exact idle key
  | cancel fileId version other =>
    have cancelled : waiting (ledgerAfter ledger (.cancel fileId version other)) (requester, key) =
        _ := waiting_settleWants (fileId, version) other (by decide) (requester, key)
    rw [cancelled, idle key, ite_self]
  | fulfil fileId version peer =>
    have fulfilled : waiting (ledgerAfter ledger (.fulfil fileId version peer)) (requester, key) =
        _ := waiting_settleWants (fileId, version) peer (by decide) (requester, key)
    rw [fulfilled, idle key, ite_self]

/-- Every fetch finds an offer of exactly its version. -/
def Offered (exchange : Exchange) : Call → Prop
  | .fetchFile request _ =>
    exchange.ledger.pendingOffer (request.fileId, request.version) ≠ none
  | _ => True

/-- Offers, cancellations and fulfilments leave nobody waiting. -/
theorem Idle.along {requester : PeerId} {given : List Operation}
    (wantless : ∀ operation ∈ given, ∀ ledger, operation.Served ledger) {ledger : TransferLedger}
    (idle : Idle ledger requester) : Idle (given.foldl ledgerAfter ledger) requester := by
  induction given generalizing ledger with
  | nil => exact idle
  | cons operation rest ih =>
    refine ih (fun other member => wantless other (mem_cons_of_mem _ member)) ?_
    exact idle.after (wantless operation mem_cons_self ledger)

/-- In a state where none of this node's wants waits, a call leaves none waiting unless it is
a fetch that finds no offer of its version. -/
theorem Idle.call {exchange : Exchange} (idle : Idle exchange.ledger exchange.localPeerId)
    (now : Moment) (made : Call) (offered : Offered exchange made) :
    Idle (call blake3 scheme crc32 exchange now made).2.ledger exchange.localPeerId := by
  rw [ledger_call]
  cases made with
  | fetchFile request id => exact idle.after offered
  | publishUpdates projectId files catalogCid =>
    refine idle.along ?_
    intro operation listed ledger
    obtain ⟨file, _, rfl⟩ := mem_map.mp listed
    trivial
  | fileOffer projectId projectOpen sender fileId version size crc =>
    refine idle.along ?_
    intro operation listed ledger
    simp only [operations] at listed
    split_ifs at listed
    · cases listed
    · cases mem_singleton.mp listed
      trivial
  | cancelTransfer id =>
    refine idle.along ?_
    intro operation listed ledger
    simp only [operations] at listed
    split at listed
    · cases listed
    · split_ifs at listed
      · cases mem_singleton.mp listed
        trivial
      · cases listed
  | completeTransfer id =>
    refine idle.along ?_
    intro operation listed ledger
    simp only [operations] at listed
    split at listed
    · cases listed
    · cases mem_singleton.mp listed
      trivial
  | shareFile request id | finishReceived header sender finalPath => exact idle.after trivial
  | _ => exact idle

/-- Every fetch of a run finds an offer of exactly its version. -/
def OfferedAlong (exchange : Exchange) : List (Call × Moment) → Prop
  | [] => True
  | input :: rest => Offered exchange input.1 ∧
    OfferedAlong (call blake3 scheme crc32 exchange input.2 input.1).2 rest

theorem Idle.run {exchange : Exchange} (inputs : List (Call × Moment))
    (idle : Idle exchange.ledger exchange.localPeerId)
    (offered : OfferedAlong blake3 scheme crc32 exchange inputs) :
    Idle ((machine blake3 scheme crc32).run exchange inputs).2.ledger
      ((machine blake3 scheme crc32).run exchange inputs).2.localPeerId := by
  induction inputs generalizing exchange with
  | nil => exact idle
  | cons input rest ih =>
    have next := idle.call blake3 scheme crc32 input.2 input.1 offered.1
    rw [← (call_frame blake3 scheme crc32 exchange input.2 input.1).settings.1] at next
    exact ih next offered.2

/-- This node's want is settled: it does not wait, so an offer is not matched with it. -/
def Settled (exchange : Exchange) (fileId : FileId) (version : UInt64) : Prop :=
  ¬ OwnWaiting exchange fileId version ∧
    ∀ offer : OfferEntry, (offer.fileId, offer.version) = (fileId, version) →
      (exchange.localPeerId, (fileId, version)) ∉ matchedWants exchange.ledger (.offer offer)

end Exchange

end Synergos.LedgerMatches
