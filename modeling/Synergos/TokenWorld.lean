import Synergos.LctVerify

/-!
# Who can make which token

The issuers and the holders of tokens act by the four operations, each with a
fresh key for the next block; some of their tokens are given to an adversary.
The adversary attenuates and seals with fresh keys of its own, and puts together
any other string at all: cut, spliced, reordered or encoded anew. Ideal
signatures mean that a signature which an honest key accepts is one that its
owner made, shown in a given token or made in another context, unless a given
unsealed token reveals the seed of that key.

Every token made that way which verification accepts extends the chain of a
given token, and it is that very token if the given one is sealed. The argument
walks along chain: as long as the next key is secret the next block is a
shown one, and the first key that is not secret was revealed by a token that
ends there.
-/

namespace Synergos.TokenWorld

open JsonText Jcs Base64url Envelope Caveat CaveatText ProfileRules Lct LctText LctVerify List

section World

variable (reader : String → Option Json) (scheme : Scheme) (issuers : Set Seed)

/-- The membership authority is outside this code. It signs in a context of its
own and otherwise makes a first block like any other. -/
def issueMembership (kid : String) (issuer : Seed) (iat : Int) (caveats : Caveats)
    (nextSeed : Seed) : Checked String := do
  let b ← body reader caveats (scheme.publicKey nextSeed) (some (kid, .membership, iat))
  let sig ← sign reader scheme .membership 1 b .cernere issuer
  encodeToken reader [(b, sig)] (unsealedProof nextSeed)

/-- The tokens that honest issuers and holders have made, with the public keys
in use. Each new block gets a fresh key. -/
inductive History : Set String → Set PublicKey → Prop
  | start : History ∅ (scheme.publicKey '' issuers)
  | mint {tokens : Set String} {used : Set PublicKey} (past : History tokens used)
      (kid : String) (issuer : Seed) (honest : issuer ∈ issuers) (profile : Profile) (iat : Int)
      (range : machine (.int iat) = true) (caveatsJson : String) (nextSeed : Seed)
      (fresh : scheme.publicKey nextSeed ∉ used) (token : String)
      (minted : Lct.mint reader scheme kid issuer profile iat caveatsJson nextSeed = .ok token) :
      History (insert token tokens) (insert (scheme.publicKey nextSeed) used)
  | membership {tokens : Set String} {used : Set PublicKey} (past : History tokens used)
      (kid : String) (issuer : Seed) (honest : issuer ∈ issuers) (iat : Int)
      (range : machine (.int iat) = true) (caveats : Caveats) (sound : Sound caveats)
      (nextSeed : Seed) (fresh : scheme.publicKey nextSeed ∉ used) (token : String)
      (made : issueMembership reader scheme kid issuer iat caveats nextSeed = .ok token) :
      History (insert token tokens) (insert (scheme.publicKey nextSeed) used)
  | attenuate {tokens : Set String} {used : Set PublicKey} (past : History tokens used)
      (token : String) (held : token ∈ tokens) (caveatsJson : String) (nextSeed : Seed)
      (fresh : scheme.publicKey nextSeed ∉ used) (token' : String)
      (made : Lct.attenuate reader scheme token caveatsJson nextSeed = .ok token') :
      History (insert token' tokens) (insert (scheme.publicKey nextSeed) used)
  | sealing {tokens : Set String} {used : Set PublicKey} (past : History tokens used)
      (token : String) (held : token ∈ tokens) (token' : String)
      (made : sealToken reader scheme token = .ok token') :
      History (insert token' tokens) used

/-- The first block was signed by the given issuer. -/
def IssuedBy (issuer : Seed) (parsed : Parsed) : Prop :=
  ∃ head rest profile signed, parsed.blocks = head :: rest ∧ head.profile = some profile ∧
    message reader (issuerCtx profile).1 1 head.bodyJson = .ok signed ∧
    head.sig = scheme.sign issuer signed

/-- The signatures of a token: under which key, on which message. -/
inductive Signs (root : PublicKey) (parsed : Parsed) :
    PublicKey → List UInt8 → Signature → Prop
  | head (head : Block) (rest : List Block) (profile : Profile) (signed : List UInt8)
      (blocks : parsed.blocks = head :: rest) (issued : head.profile = some profile)
      (covered : message reader (issuerCtx profile).1 1 head.bodyJson = .ok signed) :
      Signs root parsed root signed head.sig
  | block (before : List Block) (previous blk : Block) (after : List Block) (signed : List UInt8)
      (blocks : parsed.blocks = before ++ previous :: blk :: after)
      (covered : message reader .lct 1 blk.bodyJson = .ok signed) :
      Signs root parsed previous.nextPub signed blk.sig
  | sealing (before : List Block) (last : Block) (signature : Signature) (signed : List UInt8)
      (blocks : parsed.blocks = before ++ [last]) (proof : parsed.proof = .sealed signature)
      (covered : message reader .lct 1 (sealPayload (chainOf parsed.blocks)) = .ok signed) :
      Signs root parsed last.nextPub signed signature

section Adversary

variable (used : Set PublicKey) (given : Set String)

/-- A given unsealed token reveals the seed of this key. -/
def Revealed (key : PublicKey) : Prop :=
  ∃ token ∈ given, ∃ parsed seed, parseToken reader token false = .ok parsed ∧
    parsed.proof = .nextSecret seed ∧ scheme.publicKey seed = key

/-- A given token shows this signature of this key on this message. -/
def Shown (key : PublicKey) (signed : List UInt8) (signature : Signature) : Prop :=
  ∃ token ∈ given, ∃ parsed issuer, parseToken reader token false = .ok parsed ∧
    issuer ∈ issuers ∧ IssuedBy reader scheme issuer parsed ∧
    Signs reader (scheme.publicKey issuer) parsed key signed signature

/-- Messages of the contexts in which no token is signed; their signatures may
be known to anyone. -/
def Elsewhere (signed : List UInt8) : Prop :=
  ∃ ctx ver payload, ctx ≠ .lct ∧ ctx ≠ .membership ∧ message reader ctx ver payload = .ok signed

/-- What ideal signatures and unguessable seeds leave to the adversary: a
signature that an honest key accepts was shown, or is one of another context, or
the seed of the key is revealed; and a seed of an honest key is a revealed one. -/
structure Producible (token : String) : Prop where
  signatures : ∀ parsed root key signed signature, parseToken reader token false = .ok parsed →
    Signs reader root parsed key signed signature → key ∈ used →
    scheme.check key signed signature = true →
    Revealed reader scheme given key ∨ Shown reader scheme issuers given key signed signature ∨
      Elsewhere reader signed
  secret : ∀ parsed seed, parseToken reader token false = .ok parsed →
    parsed.proof = .nextSecret seed → scheme.publicKey seed ∈ used →
    Revealed reader scheme given (scheme.publicKey seed)

/-- The tokens that the adversary can present. -/
inductive Derives : String → Prop
  | given (token : String) (shown : token ∈ given) : Derives token
  | attenuate (token caveatsJson : String) (nextSeed : Seed) (token' : String)
      (derived : Derives token) (own : scheme.publicKey nextSeed ∉ used)
      (made : Lct.attenuate reader scheme token caveatsJson nextSeed = .ok token') : Derives token'
  | sealing (token token' : String) (derived : Derives token)
      (made : sealToken reader scheme token = .ok token') : Derives token'
  | assemble (token : String)
      (ideal : Producible reader scheme issuers used given token) : Derives token

end Adversary

end World

/-- A signature is accepted by the key it was made with and by no other. -/
def Exclusive (scheme : Scheme) : Prop :=
  ∀ seed signed key, scheme.check key signed (scheme.sign seed signed) = true →
    key = scheme.publicKey seed

section Proofs

variable {reader : String → Option Json} {scheme : Scheme} {issuers : Set Seed}

/-! ## Honest tokens -/

/-- What is true of every token that honest parties made. -/
structure Genuine (reader : String → Option Json) (scheme : Scheme) (issuers : Set Seed)
    (used : Set PublicKey) (parsed : Parsed) : Prop where
  issued : ∃ issuer ∈ issuers, IssuedBy reader scheme issuer parsed
  keys : ∀ blk ∈ parsed.blocks, blk.nextPub ∈ used ∧ blk.nextPub ∉ scheme.publicKey '' issuers
  secret : ∀ seed, parsed.proof = .nextSecret seed →
    parsed.blocks.getLast?.map Block.nextPub = some (scheme.publicKey seed)

/-- Chains that name the same key are the same up to there. -/
def Separated (first second : Parsed) : Prop :=
  ∀ before blk after before' blk' after', first.blocks = before ++ blk :: after →
    second.blocks = before' ++ blk' :: after' → blk.nextPub = blk'.nextPub →
    before = before' ∧ blk = blk'

/-- The invariant of honest histories. -/
structure Settled (reader : String → Option Json) (scheme : Scheme) (issuers : Set Seed)
    (tokens : Set String) (used : Set PublicKey) : Prop where
  issuersUsed : scheme.publicKey '' issuers ⊆ used
  genuine : ∀ token ∈ tokens, ∃ parsed, parseToken reader token false = .ok parsed ∧
    Genuine reader scheme issuers used parsed
  separated : ∀ token ∈ tokens, ∀ token' ∈ tokens, ∀ parsed parsed',
    parseToken reader token false = .ok parsed → parseToken reader token' false = .ok parsed' →
    Separated parsed parsed'

variable {tokens : Set String} {used used' : Set PublicKey} (blocks : List Block) (blk : Block)

theorem Genuine.mono {parsed : Parsed}
    (genuine : Genuine reader scheme issuers used parsed) (grown : used ⊆ used') :
    Genuine reader scheme issuers used' parsed :=
  { genuine with keys := fun blk present =>
      ⟨grown (genuine.keys blk present).1, (genuine.keys blk present).2⟩ }

variable {blocks blk} in
/-- A block of a longer chain is the last one or stands before it. -/
theorem snoc_split {before after : List Block} {found : Block}
    (shape : blocks ++ [blk] = before ++ found :: after) :
    (before = blocks ∧ found = blk) ∨ ∃ init, blocks = before ++ found :: init := by
  rcases eq_nil_or_concat after with rfl | ⟨init, last, rfl⟩
  · obtain ⟨heads, last⟩ := append_inj' shape rfl
    exact .inl ⟨heads.symm, by simpa using last.symm⟩
  · have regrouped : blocks ++ [blk] = (before ++ found :: init) ++ [last] := by simpa using shape
    exact .inr ⟨init, (append_inj' regrouped rfl).1⟩

/-- A chain that extends a separated one by a block with a fresh key. -/
theorem separated_snoc {proof : Proof} {other : Parsed}
    {proof' : Proof} (separated : Separated ⟨blocks, proof'⟩ other)
    (fresh : ∀ existing ∈ other.blocks, existing.nextPub ≠ blk.nextPub) :
    Separated ⟨blocks ++ [blk], proof⟩ other := by
  intro before found after before' found' after' left right same
  rcases snoc_split left with ⟨rfl, rfl⟩ | ⟨init, shorter⟩
  · exact absurd same.symm (fresh found' (by simp [right]))
  · exact separated before found init before' found' after' shorter right same

/-- A chain is separated from itself if its last key is new in it. -/
theorem separated_self (proof proof' : Proof)
    (separated : Separated ⟨blocks, proof'⟩ ⟨blocks, proof'⟩)
    (fresh : ∀ existing ∈ blocks, existing.nextPub ≠ blk.nextPub) :
    Separated ⟨blocks ++ [blk], proof⟩ ⟨blocks ++ [blk], proof⟩ := by
  intro before found after before' found' after' left right same
  rcases snoc_split left with ⟨rfl, rfl⟩ | ⟨init, inside⟩ <;>
    rcases snoc_split right with ⟨rfl, rfl⟩ | ⟨init', inside'⟩
  · exact ⟨rfl, rfl⟩
  · exact absurd same.symm (fresh found' (by simp [inside']))
  · exact absurd same (fresh found (by simp [inside]))
  · exact separated before found init before' found' init' inside inside' same

section Settled

variable (settled : Settled reader scheme issuers tokens used)

include settled

/-- What is read from an honest token is genuine. -/
theorem Settled.of_read {token : String} (present : token ∈ tokens) {parsed : Parsed}
    (read : parseToken reader token false = .ok parsed) :
    Genuine reader scheme issuers used parsed := by
  obtain ⟨found, readFound, genuine⟩ := settled.genuine token present
  obtain rfl := Except.ok.inj (readFound.symm.trans read)
  exact genuine

/-- No honest chain names a fresh key. -/
theorem Settled.unnamed {key : PublicKey} (fresh : key ∉ used) {token : String}
    (present : token ∈ tokens) {parsed : Parsed}
    (read : parseToken reader token false = .ok parsed) (existing : Block)
    (member : existing ∈ parsed.blocks) : existing.nextPub ≠ key :=
  fun same => fresh (same ▸ ((settled.of_read present read).keys existing member).1)

/-- Adding a token whose chain is new only at its end. -/
theorem settled_insert (grown : used ⊆ used') {token : String}
    {parsed : Parsed} (read : parseToken reader token false = .ok parsed)
    (genuine : Genuine reader scheme issuers used' parsed) (own : Separated parsed parsed)
    (apart : ∀ other ∈ tokens, ∀ parsed', parseToken reader other false = .ok parsed' →
      Separated parsed parsed') :
    Settled reader scheme issuers (insert token tokens) used' := by
  have flip {first second : Parsed} (separated : Separated first second) :
      Separated second first := by
    intro before blk after before' blk' after' left right same
    obtain ⟨heads, blocks⟩ := separated before' blk' after' before blk after right left same.symm
    exact ⟨heads.symm, blocks.symm⟩
  refine ⟨settled.issuersUsed.trans grown, ?_, ?_⟩
  · rintro other (rfl | present)
    · exact ⟨parsed, read, genuine⟩
    · obtain ⟨found, readFound, old⟩ := settled.genuine other present
      exact ⟨found, readFound, old.mono grown⟩
  · rintro left (rfl | leftOld) right (rfl | rightOld) first second readFirst readSecond
    · obtain rfl := Except.ok.inj (read.symm.trans readFirst)
      obtain rfl := Except.ok.inj (read.symm.trans readSecond)
      exact own
    · obtain rfl := Except.ok.inj (read.symm.trans readFirst)
      exact apart right rightOld second readSecond
    · obtain rfl := Except.ok.inj (read.symm.trans readSecond)
      exact flip (apart left leftOld first readFirst)
    · exact settled.separated left leftOld right rightOld first second readFirst readSecond

/-- A first block with a fresh key. -/
theorem settled_issued {nextSeed : Seed}
    (fresh : scheme.publicKey nextSeed ∉ used) {token : String} {blk : Block}
    (read : parseToken reader token false = .ok ⟨[blk], .nextSecret nextSeed⟩)
    (key : blk.nextPub = scheme.publicKey nextSeed)
    (issued : ∃ issuer ∈ issuers, IssuedBy reader scheme issuer ⟨[blk], .nextSecret nextSeed⟩) :
    Settled reader scheme issuers (insert token tokens)
      (insert (scheme.publicKey nextSeed) used) := by
  have nothing (other : Parsed) : Separated ⟨[], .nextSecret nextSeed⟩ other := by
    intro before blk' after _ _ _ left
    simp at left
  refine settled_insert settled (Set.subset_insert _ _) read ⟨issued, ?_, ?_⟩ ?_ ?_
  · intro found present
    obtain rfl := mem_singleton.mp present
    rw [key]
    exact ⟨Set.mem_insert _ _, fun isIssuer => fresh (settled.issuersUsed isIssuer)⟩
  · intro seed proof
    obtain rfl := Proof.nextSecret.inj proof
    simp [key]
  · exact separated_self [] blk _ (.nextSecret nextSeed) (nothing _) (by simp)
  · intro other present parsed' readOther
    exact separated_snoc [] blk (nothing _) (settled.unnamed (key ▸ fresh) present readOther)

/-- A further block with a fresh key. -/
theorem settled_attenuated {token : String} (held : token ∈ tokens)
    {parsed : Parsed} (read : parseToken reader token false = .ok parsed) {nextSeed : Seed}
    (fresh : scheme.publicKey nextSeed ∉ used) {token' : String} {blk : Block}
    (read' : parseToken reader token' false = .ok ⟨parsed.blocks ++ [blk], .nextSecret nextSeed⟩)
    (key : blk.nextPub = scheme.publicKey nextSeed) :
    Settled reader scheme issuers (insert token' tokens)
      (insert (scheme.publicKey nextSeed) used) := by
  have genuine := settled.of_read held read
  have unused : blk.nextPub ∉ used := key ▸ fresh
  refine settled_insert settled (Set.subset_insert _ _) read' ⟨?_, ?_, ?_⟩ ?_ ?_
  · obtain ⟨issuer, honest, head, rest, profile, signed, blocks, facts⟩ := genuine.issued
    exact ⟨issuer, honest, head, rest ++ [blk], profile, signed, by simp [blocks], facts⟩
  · intro existing present
    rcases mem_append.mp present with old | new
    · have known := genuine.keys existing old
      exact ⟨Set.mem_insert_of_mem _ known.1, known.2⟩
    · obtain rfl := mem_singleton.mp new
      rw [key]
      exact ⟨Set.mem_insert _ _, fun isIssuer => fresh (settled.issuersUsed isIssuer)⟩
  · intro seed proof
    obtain rfl := Proof.nextSecret.inj proof
    simp [key]
  · exact separated_self _ blk _ parsed.proof
      (settled.separated token held token held parsed parsed read read)
      (settled.unnamed unused held read)
  · intro other present parsed' readOther
    exact separated_snoc _ blk
      (settled.separated token held other present parsed parsed' read readOther)
      (settled.unnamed unused present readOther)

theorem settled_sealed {token : String} (held : token ∈ tokens)
    {parsed : Parsed} (read : parseToken reader token false = .ok parsed) {token' : String}
    {signature : Signature}
    (read' : parseToken reader token' false = .ok ⟨parsed.blocks, .sealed signature⟩) :
    Settled reader scheme issuers (insert token' tokens) used := by
  have genuine := settled.of_read held read
  refine settled_insert settled le_rfl read' ⟨genuine.issued, genuine.keys, by simp⟩ ?_ ?_
  · exact settled.separated token held token held parsed parsed read read
  · intro other present parsed' readOther
    exact settled.separated token held other present parsed parsed' read readOther

end Settled

section

variable (law : ReadsCompact reader)

include law

/-- Every history keeps the invariant. -/
theorem history_settled (history : History reader scheme issuers tokens used) :
    Settled reader scheme issuers tokens used := by
  induction history with
  | start => exact ⟨le_rfl, by simp, by simp⟩
  | mint past kid issuer honest profile iat range caveatsJson nextSeed fresh token minted settled =>
    obtain ⟨blk, signed, read, key, issued, notMembership, covered, made⟩ :=
      mint_ok scheme law range minted
    refine settled_issued settled fresh read key ⟨issuer, honest, ?_⟩
    refine ⟨blk, [], profile, signed, rfl, issued, ?_, made⟩
    simpa [issuerCtx, notMembership] using covered
  | membership past kid issuer honest iat range caveats sound nextSeed fresh token made settled =>
    simp only [issueMembership, bind_ok] at made
    obtain ⟨b, written, sig, signing, encoded⟩ := made
    have read := issued_parses law caveats sound (scheme.publicKey nextSeed) (kid, .membership, iat)
      range b sig (.nextSecret nextSeed) token written encoded
    obtain ⟨_, signed, covered, signature⟩ := (sign_ok scheme _ _ _ _ _ _).mp signing
    exact settled_issued settled fresh read rfl
      ⟨issuer, honest, _, [], .membership, signed, rfl, rfl, covered, signature.symm⟩
  | attenuate past token held caveatsJson nextSeed fresh token' made settled =>
    obtain ⟨parsed, holder, blk, signed, read, _, _, read', key, _⟩ :=
      attenuate_ok scheme law made
    exact settled_attenuated settled held read fresh read' key
  | sealing past token held token' made settled =>
    obtain ⟨parsed, holder, signature, signed, read, _, _, read', _⟩ :=
      sealToken_ok scheme law made
    exact settled_sealed settled held read (read' false)

/-! ## Which bytes are signed -/

/-- A canonical text is signed as it stands. -/
theorem message_canonical {ctx : Ctx} {value : Json}
    (inside : machine value = true) (settled : sorted value = value) {signed : List UInt8}
    (covered : message reader ctx 1 (String.ofList (render value)) = .ok signed) :
    canonicalize reader (String.ofList (render value)) = .ok (String.ofList (render value)) := by
  obtain ⟨canonical, canonicalized, _⟩ := (message_ok ctx 1 _ signed).mp covered
  obtain ⟨_, shape⟩ := canonicalize_render law inside canonicalized
  rw [canonicalized, shape, settled]

/-- Two canonical values that are signed as the same bytes are equal. -/
theorem message_value {ctx ctx' : Ctx} {value value' : Json}
    (inside : machine value = true) (settled : sorted value = value)
    (inside' : machine value' = true) (settled' : sorted value' = value') {signed : List UInt8}
    (first : message reader ctx 1 (String.ofList (render value)) = .ok signed)
    (second : message reader ctx' 1 (String.ofList (render value')) = .ok signed) :
    value = value' := by
  obtain ⟨_, _, canonical, left, right⟩ := message_injective first second
  have own := message_canonical law inside settled first
  have own' := message_canonical law inside' settled' second
  have texts : String.ofList (render value) = String.ofList (render value') :=
    (Except.ok.inj (own.symm.trans left)).trans (Except.ok.inj (own'.symm.trans right)).symm
  have found := law value inside
  rw [texts, law value' inside'] at found
  exact (Option.some.inj found).symm

/-- A block is determined by the bytes that its signature covers, the signature
and its place. -/
theorem block_unique {ctx ctx' : Ctx} {first : Bool}
    {blk blk' : Block} (readLeft : ReadBlock reader first blk)
    (readRight : ReadBlock reader first blk') {signed : List UInt8}
    (covered : message reader ctx 1 blk.bodyJson = .ok signed)
    (covered' : message reader ctx' 1 blk'.bodyJson = .ok signed) (sig : blk.sig = blk'.sig) :
    blk = blk' := by
  obtain ⟨value, canonical, shape, _⟩ := readLeft.canonical
  obtain ⟨value', canonical', shape', _⟩ := readRight.canonical
  have values := message_value law (machine_of_safe canonical.2.2)
    canonical.2.1 (machine_of_safe canonical'.2.2) canonical'.2.1 (shape ▸ covered)
    (shape' ▸ covered')
  have bodies : blk.bodyJson = blk'.bodyJson := by rw [shape, shape', values]
  have parses := readLeft.parses
  rw [bodies, sig, readRight.parses] at parses
  exact (Except.ok.inj parses).symm

/-- No seal covers the bytes of a block. -/
theorem seal_not_block {ctx : Ctx} {first : Bool} {blk : Block}
    (readBlk : ReadBlock reader first blk) {chain : Chain} {signed : List UInt8}
    (covered : message reader ctx 1 blk.bodyJson = .ok signed)
    (sealed : message reader .lct 1 (sealPayload chain) = .ok signed) : False := by
  obtain ⟨value, canonical, shape, size⟩ := readBlk.canonical
  obtain ⟨inside, settled⟩ := sealJson_plain chain
  rw [sealPayload_render] at sealed
  have values := message_value law
    (machine_of_safe canonical.2.2) canonical.2.1 inside settled (shape ▸ covered) sealed
  rw [values] at size
  cases first <;> simp [sealJson, Json.size] at size

end

/-! ## What the adversary has -/

section Walk

variable {used : Set PublicKey} {tokens given : Set String}

/-- Bytes of a token's context belong to no other context. -/
theorem not_elsewhere {ctx : Ctx} (token : ctx = .lct ∨ ctx = .membership) {payload : String}
    {signed : List UInt8} (covered : message reader ctx 1 payload = .ok signed) :
    ¬ Elsewhere reader signed := by
  rintro ⟨other, ver, payload', notLct, notMembership, covered'⟩
  obtain ⟨rfl, _⟩ := message_injective covered covered'
  rcases token with rfl | rfl
  · exact notLct rfl
  · exact notMembership rfl

theorem issuerCtx_token (profile : Profile) :
    (issuerCtx profile).1 = .lct ∨ (issuerCtx profile).1 = .membership := by
  cases profile <;> simp [issuerCtx]

/-- A token that was attenuated with an own key shows nothing new, except what a
revealed seed signs. -/
theorem attenuate_producible (law : ReadsCompact reader) {token caveatsJson : String}
    {nextSeed : Seed} {token' : String} (own : scheme.publicKey nextSeed ∉ used)
    (made : Lct.attenuate reader scheme token caveatsJson nextSeed = .ok token')
    (producible : Producible reader scheme issuers used given token) :
    Producible reader scheme issuers used given token' := by
  obtain ⟨parsed, holder, blk, _, read, proof, last, read', _⟩ :=
    attenuate_ok scheme law made
  constructor
  · intro parsed' root key signed signature readAgain signs honest accepted
    obtain rfl := Except.ok.inj (read'.symm.trans readAgain)
    cases signs with
    | head head rest profile _ blocks kind covered =>
      cases shape : parsed.blocks with
      | nil => simp [shape] at last
      | cons first more =>
        have heads : first = head := by
          simp only [shape, cons_append] at blocks
          exact (cons.inj blocks).1
        exact producible.signatures parsed root root signed _ read
          (.head head more profile signed (heads ▸ shape) kind covered) honest accepted
    | block before previous found after _ blocks covered =>
      rcases snoc_split (blocks.trans (append_cons ..)) with ⟨shape, _⟩ | ⟨init, shape⟩
      · have holderKey : previous.nextPub = scheme.publicKey holder := by simpa [← shape] using last
        rw [holderKey] at honest ⊢
        exact .inl (producible.secret parsed holder read proof honest)
      · exact producible.signatures parsed root _ signed _ read
          (.block before previous found init signed (by simpa using shape) covered) honest accepted
    | sealing before last _ _ blocks proof covered => simp at proof
  · intro parsed' seed readAgain proof' honest
    obtain rfl := Except.ok.inj (read'.symm.trans readAgain)
    obtain rfl := Proof.nextSecret.inj proof'
    exact absurd honest own

theorem seal_producible (law : ReadsCompact reader) {token token' : String}
    (made : sealToken reader scheme token = .ok token')
    (producible : Producible reader scheme issuers used given token) :
    Producible reader scheme issuers used given token' := by
  obtain ⟨parsed, holder, _, _, read, proof, ending, read', _⟩ :=
    sealToken_ok scheme law made
  constructor
  · intro parsed' root key signed signature readAgain signs honest accepted
    obtain rfl := Except.ok.inj ((read' false).symm.trans readAgain)
    cases signs with
    | head head rest profile _ blocks kind covered =>
      exact producible.signatures parsed root root signed _ read
        (.head head rest profile signed blocks kind covered) honest accepted
    | block before previous found after _ blocks covered =>
      exact producible.signatures parsed root _ signed _ read
        (.block before previous found after signed blocks covered) honest accepted
    | sealing before last _ _ blocks _ covered =>
      have holderKey : last.nextPub = scheme.publicKey holder := by
        simp only at blocks
        simpa [blocks] using ending
      rw [holderKey] at honest ⊢
      exact .inl (producible.secret parsed holder read proof honest)
  · intro parsed' seed readAgain proof'
    obtain rfl := Except.ok.inj ((read' false).symm.trans readAgain)
    simp at proof'

variable (settled : Settled reader scheme issuers tokens used) (shared : given ⊆ tokens)

include settled shared

/-- Given tokens whose chains name the same key agree up to there. -/
theorem given_separated {token token' : String} (member : token ∈ given) (member' : token' ∈ given)
    {parsed parsed' : Parsed} (read : parseToken reader token false = .ok parsed)
    (read' : parseToken reader token' false = .ok parsed') : Separated parsed parsed' :=
  settled.separated token (shared member) token' (shared member') parsed parsed' read read'

theorem given_keys {token : String} (member : token ∈ given) {parsed : Parsed}
    (read : parseToken reader token false = .ok parsed) (blk : Block)
    (present : blk ∈ parsed.blocks) :
    blk.nextPub ∈ used ∧ blk.nextPub ∉ scheme.publicKey '' issuers :=
  (settled.of_read (shared member) read).keys blk present

/-- A key that honest parties use for tokens and that a given token reveals is
the last one of that token. -/
theorem revealed_last (key : PublicKey) (revealed : Revealed reader scheme given key) :
    ∃ token ∈ given, ∃ parsed before last, parseToken reader token false = .ok parsed ∧
      isSealed parsed.proof = false ∧ parsed.blocks = before ++ [last] ∧ last.nextPub = key := by
  obtain ⟨token, member, parsed, seed, read, proof, rfl⟩ := revealed
  have ending := (settled.of_read (shared member) read).secret seed proof
  rw [Option.map_eq_some_iff] at ending
  obtain ⟨last, isLast, key⟩ := ending
  obtain ⟨before, shape⟩ := List.getLast?_eq_some_iff.mp isLast
  exact ⟨token, member, parsed, before, last, read, by simp [proof, isSealed], shape, key⟩

/-- The keys of issuers are never revealed. -/
theorem issuer_unrevealed (issuer : Seed) (honest : issuer ∈ issuers) :
    ¬ Revealed reader scheme given (scheme.publicKey issuer) := by
  intro revealed
  obtain ⟨token, member, parsed, before, last, read, _, shape, key⟩ :=
    revealed_last settled shared _ revealed
  exact (given_keys settled shared member read last (by simp [shape])).2 ⟨issuer, honest, key.symm⟩

/-- A given token shows all of its signatures. -/
theorem given_producible (exclusive : Exclusive scheme) (token : String) (member : token ∈ given) :
    Producible reader scheme issuers used given token := by
  obtain ⟨found, readFound, genuine⟩ := settled.genuine token (shared member)
  obtain ⟨issuer, honest, issued⟩ := genuine.issued
  constructor
  · intro parsed root key signed signature read signs _ accepted
    obtain rfl := Except.ok.inj (readFound.symm.trans read)
    refine .inr (.inl ⟨token, member, found, issuer, read, honest, issued, ?_⟩)
    cases signs with
    | head head rest profile _ blocks kind covered =>
      obtain ⟨head', rest', profile', signed', blocks', kind', covered', made⟩ := issued
      obtain ⟨rfl, rfl⟩ := cons.inj (blocks.symm.trans blocks')
      obtain rfl := Option.some.inj (kind.symm.trans kind')
      obtain rfl := Except.ok.inj (covered.symm.trans covered')
      rw [made] at accepted
      obtain rfl := exclusive issuer signed root accepted
      exact .head head rest profile signed blocks kind covered
    | block before previous blk after _ blocks covered =>
      exact .block before previous blk after signed blocks covered
    | sealing before last _ _ blocks proof covered =>
      exact .sealing before last signature signed blocks proof covered
  · intro parsed seed read proof _
    exact ⟨token, member, parsed, seed, read, proof, rfl⟩

/-- Everything the adversary can present keeps to what was revealed and shown. -/
theorem derives_producible (law : ReadsCompact reader) (exclusive : Exclusive scheme)
    (token : String) (derived : Derives reader scheme issuers used given token) :
    Producible reader scheme issuers used given token := by
  induction derived with
  | given token member => exact given_producible settled shared exclusive token member
  | attenuate token caveatsJson nextSeed token' derived own made producible =>
    exact attenuate_producible law own made producible
  | sealing token token' derived made producible =>
    exact seal_producible law made producible
  | assemble token ideal => exact ideal

/-! ## Along the chain -/

section Chain

variable (law : ReadsCompact reader) (token : String) (parsed : Parsed)
  (read : parseToken reader token false = .ok parsed)
  (producible : Producible reader scheme issuers used given token) (key : PublicKey)
  (checks : Checks reader scheme key parsed)

include law read producible checks

/-- One step along chain: the key of a block of a given chain is revealed by
a given token that ends there, or the next block is one of a given chain too. -/
theorem next_shown {before : List Block} {previous blk : Block}
    {after : List Block} (blocks : parsed.blocks = before ++ previous :: blk :: after)
    {shown : String} (member : shown ∈ given) {found : Parsed}
    (readFound : parseToken reader shown false = .ok found) {after' : List Block}
    (blocks' : found.blocks = before ++ previous :: after') :
    (∃ last ∈ given, ∃ ended, parseToken reader last false = .ok ended ∧
        isSealed ended.proof = false ∧ ended.blocks = before ++ [previous]) ∨
      ∃ other ∈ given, ∃ found', parseToken reader other false = .ok found' ∧
        ∃ after'', found'.blocks = before ++ previous :: blk :: after'' := by
  obtain ⟨signed, covered, accepted⟩ := checks.links before previous blk after blocks
  obtain ⟨inUse, notIssuer⟩ :=
    given_keys settled shared member readFound previous (by simp [blocks'])
  have verdict := producible.signatures parsed key _ signed blk.sig read
    (.block before previous blk after signed blocks covered) inUse accepted
  rcases verdict with revealed | ⟨other, member', found', issuer, readOther, honest, _, signs⟩ |
    elsewhere
  · obtain ⟨ending, memberEnd, ended, init, last, readEnd, unsealed, shape, same⟩ :=
      revealed_last settled shared _ revealed
    obtain ⟨rfl, rfl⟩ := given_separated settled shared memberEnd member readEnd readFound
      init last [] before previous after' shape blocks' same
    exact .inl ⟨ending, memberEnd, ended, readEnd, unsealed, shape⟩
  · generalize previousKey : previous.nextPub = nextKey at signs
    generalize sameSig : blk.sig = signature at signs
    cases signs with
    | head => exact absurd ⟨issuer, honest, previousKey.symm⟩ notIssuer
    | block init previous' blk' tail _ shape covered' =>
      obtain ⟨rfl, rfl⟩ := given_separated settled shared member member' readFound readOther
        before previous after' init previous' (blk' :: tail) blocks' shape previousKey
      have left := parsed_readBlock law read (before ++ [previous]) blk after (by simp [blocks])
      have right := parsed_readBlock law readOther (before ++ [previous]) blk' tail (by simp [shape])
      have later : (before ++ [previous]).isEmpty = false := by simp
      rw [later] at left right
      obtain rfl := block_unique law left right covered covered' sameSig
      exact .inr ⟨other, member', found', readOther, tail, shape⟩
    | sealing init last _ _ shape _ sealed =>
      have left := parsed_readBlock law read (before ++ [previous]) blk after (by simp [blocks])
      exact (seal_not_block law left covered sealed).elim
  · exact absurd elsewhere (not_elsewhere (.inl rfl) covered)

variable (known : key ∈ scheme.publicKey '' issuers)

include known

/-- The head of an accepted chain is the head of a given one, whose issuer has
the key that the verifier used. -/
theorem head_shown :
    ∃ issuer ∈ issuers, scheme.publicKey issuer = key ∧ IssuedBy reader scheme issuer parsed ∧
      ∃ shown ∈ given, ∃ found, parseToken reader shown false = .ok found ∧
        ∃ head rest rest', parsed.blocks = head :: rest ∧ found.blocks = head :: rest' := by
  obtain ⟨head, rest, profile, signed, blocks, kind, covered, accepted⟩ := checks.head
  obtain ⟨owner, honestOwner, rfl⟩ := known
  have verdict := producible.signatures parsed _ _ signed head.sig read
    (.head head rest profile signed blocks kind covered)
    (settled.issuersUsed ⟨owner, honestOwner, rfl⟩) accepted
  rcases verdict with revealed | ⟨shown, member, found, issuer, readFound, honest, issued, signs⟩ |
    elsewhere
  · exact absurd revealed (issuer_unrevealed settled shared owner honestOwner)
  · generalize ownerKey : scheme.publicKey owner = key at signs accepted ⊢
    generalize sameSig : head.sig = signature at signs
    cases signs with
    | head head' rest' profile' _ blocks' kind' covered' =>
      have left := parsed_readBlock law read [] head rest blocks
      have right := parsed_readBlock law readFound [] head' rest' blocks'
      obtain rfl := block_unique law left right covered covered' sameSig
      obtain ⟨head'', rest'', profile'', signed'', blocks'', kind'', covered'', made⟩ := issued
      obtain ⟨rfl, rfl⟩ := cons.inj (blocks'.symm.trans blocks'')
      refine ⟨issuer, honest, rfl, ⟨head, rest, profile'', signed'', blocks, kind'', covered'', made⟩,
        shown, member, found, readFound, head, rest, rest', blocks, blocks'⟩
    | block before previous blk after _ blocks' _ =>
      have keys := given_keys settled shared member readFound previous (by simp [blocks'])
      exact absurd ⟨owner, honestOwner, ownerKey⟩ keys.2
    | sealing before last _ _ blocks' _ _ =>
      have keys := given_keys settled shared member readFound last (by simp [blocks'])
      exact absurd ⟨owner, honestOwner, ownerKey⟩ keys.2
  · exact absurd elsewhere (not_elsewhere (issuerCtx_token profile) covered)

/-- Every place of an accepted chain: a given unsealed token ends before it, or
a given chain is the same up to there. -/
theorem along_chain (before : List Block) (blk : Block) (after : List Block)
    (blocks : parsed.blocks = before ++ blk :: after) :
    (∃ last ∈ given, ∃ ended, parseToken reader last false = .ok ended ∧
        isSealed ended.proof = false ∧ ended.blocks <+: before) ∨
      ∃ shown ∈ given, ∃ found, parseToken reader shown false = .ok found ∧
        ∃ after', found.blocks = before ++ blk :: after' := by
  induction before using List.reverseRecOn generalizing blk after with
  | nil =>
    obtain ⟨_, _, _, _, shown, member, found, readFound, head, rest, rest', own, theirs⟩ :=
      head_shown settled shared law token parsed read producible key checks known
    obtain ⟨rfl, rfl⟩ := cons.inj (own.symm.trans blocks)
    exact .inr ⟨shown, member, found, readFound, rest', theirs⟩
  | append_singleton before previous ih =>
    have regrouped : parsed.blocks = before ++ previous :: blk :: after := by simpa using blocks
    rcases ih previous (blk :: after) regrouped with
      ⟨last, member, ended, readEnd, unsealed, earlier⟩ |
      ⟨shown, member, found, readFound, after', theirs⟩
    · exact .inl ⟨last, member, ended, readEnd, unsealed,
        earlier.trans (prefix_append before [previous])⟩
    · rcases next_shown settled shared law token parsed read producible key checks
        regrouped member readFound theirs with
        ⟨last, memberEnd, ended, readEnd, unsealed, shape⟩ |
        ⟨other, memberOther, found', readOther, after'', shape⟩
      · exact .inl ⟨last, memberEnd, ended, readEnd, unsealed, by rw [shape]⟩
      · exact .inr ⟨other, memberOther, found', readOther, after'', by simp [shape]⟩

/-- The end of the chain: the proof shows that a given unsealed token ends no
later, or the token is a given sealed one. -/
theorem chain_end :
    ∃ shown ∈ given, ∃ held, parseToken reader shown false = .ok held ∧
      held.blocks <+: parsed.blocks ∧ (isSealed held.proof = true → token = shown) := by
  obtain ⟨_, _, _, nonempty, _⟩ := parseToken_ok law token false parsed read
  obtain ⟨before, last, blocks⟩ : ∃ before last, parsed.blocks = before ++ [last] := by
    simpa using (eq_nil_or_concat parsed.blocks).resolve_left nonempty
  have ended (revealed : Revealed reader scheme given last.nextPub) (shown : String)
      (member : shown ∈ given) (found : Parsed)
      (readFound : parseToken reader shown false = .ok found) (after' : List Block)
      (theirs : found.blocks = before ++ last :: after') :
      ∃ shown ∈ given, ∃ held, parseToken reader shown false = .ok held ∧
        held.blocks <+: parsed.blocks ∧ (isSealed held.proof = true → token = shown) := by
    obtain ⟨ending, memberEnd, held, init, final, readEnd, unsealed, shape, same⟩ :=
      revealed_last settled shared _ revealed
    obtain ⟨rfl, rfl⟩ := given_separated settled shared memberEnd member readEnd readFound
      init final [] before last after' shape theirs same
    exact ⟨ending, memberEnd, held, readEnd, by rw [shape, blocks], by simp [unsealed]⟩
  rcases along_chain settled shared law token parsed read producible key checks known before
    last [] blocks with ⟨shown, member, held, readHeld, unsealed, earlier⟩ |
    ⟨shown, member, found, readFound, after', theirs⟩
  · exact ⟨shown, member, held, readHeld, blocks ▸ earlier.trans (prefix_append before [last]),
      by simp [unsealed]⟩
  obtain ⟨inUse, notIssuer⟩ :=
    given_keys settled shared member readFound last (by simp [theirs])
  cases proof : parsed.proof with
  | nextSecret seed =>
    have same := checks.secret before last seed blocks proof
    have revealed := producible.secret parsed seed read proof (same ▸ inUse)
    exact ended (same ▸ revealed) shown member found readFound after' theirs
  | sealed signature =>
    obtain ⟨signed, covered, accepted⟩ := checks.sealing before last signature blocks proof
    have verdict := producible.signatures parsed key _ signed signature read
      (.sealing before last signature signed blocks proof covered) inUse accepted
    rcases verdict with revealed | ⟨other, member', found', issuer, readOther, honest, _, signs⟩ |
      elsewhere
    · exact ended revealed shown member found readFound after' theirs
    · generalize lastKey : last.nextPub = nextKey at signs
      cases signs with
      | head => exact absurd ⟨issuer, honest, lastKey.symm⟩ notIssuer
      | block init previous' blk' tail _ shape covered' =>
        have right := parsed_readBlock law readOther (init ++ [previous']) blk' tail (by simp [shape])
        exact (seal_not_block law right covered' covered).elim
      | sealing init final _ _ shape proof' _ =>
        obtain ⟨rfl, rfl⟩ := given_separated settled shared member member' readFound readOther
          before last after' init final [] theirs shape lastKey
        refine ⟨other, member', found', readOther, by rw [shape, blocks], fun _ => ?_⟩
        exact parseToken_injective law read readOther
          (by rw [blocks, shape]) (by rw [proof, proof'])
    · exact absurd elsewhere (not_elsewhere (.inl rfl) covered)

end Chain

end Walk

/-- A token that the adversary presents and that verification accepts was issued
by the issuer whose key was used. It extends the chain of a given token, whose
caveats it only narrows, and it is that token unchanged if that one is sealed. -/
theorem accepted_extends_given (law : ReadsCompact reader) (exclusive : Exclusive scheme)
    {tokens : Set String} {used : Set PublicKey}
    (history : History reader scheme issuers tokens used) (given : Set String)
    (shared : given ⊆ tokens) (keys : String → Option IssuerKey)
    (known : ∀ kid entry, keys kid = some entry → entry.key ∈ scheme.publicKey '' issuers)
    (token : String) (derived : Derives reader scheme issuers used given token)
    (revocation : RevocationView) (now : Int) (presented : Presented) (verified : Verified)
    (accepted : Lct.verify reader scheme token keys revocation now presented = .ok verified) :
    ∃ parsed entry issuer, parseToken reader token presented.requireSealed = .ok parsed ∧
      keys verified.kid = some entry ∧ issuer ∈ issuers ∧ scheme.publicKey issuer = entry.key ∧
      IssuedBy reader scheme issuer parsed ∧
      ∃ shown ∈ given, ∃ held added heldCaveats effective,
        parseToken reader shown false = .ok held ∧ parsed.blocks = held.blocks ++ added ∧
        intersection held.blocks = .ok heldCaveats ∧
        (added.map Block.caveats).foldlM narrow heldCaveats = .ok effective ∧
        toJson reader effective = .ok verified.caveatsJson ∧
        (isSealed held.proof = true → token = shown) := by
  obtain ⟨parsed, entry, effective, readPresented, read, found, checks, whole, json⟩ :=
    verify_checks token keys revocation now presented verified accepted
  have settled := history_settled law history
  have producible := derives_producible settled shared law exclusive token derived
  have honestKey := known verified.kid entry found
  obtain ⟨issuer, honest, owner, issued, _⟩ :=
    head_shown settled shared law token parsed read producible entry.key checks honestKey
  obtain ⟨shown, member, held, readHeld, ⟨added, shape⟩, unchanged⟩ :=
    chain_end settled shared law token parsed read producible entry.key checks honestKey
  obtain ⟨_, _, _, nonempty, _⟩ := parseToken_ok law shown false held readHeld
  obtain ⟨heldCaveats, before, narrowed⟩ :=
    intersection_append held.blocks added nonempty effective (shape ▸ whole)
  exact ⟨parsed, entry, issuer, readPresented, found, honest, owner, issued, shown, member, held, added,
    heldCaveats, effective, readHeld, shape.symm, before, narrowed, json, unchanged⟩

end Proofs

theorem mirror_exclusive : Exclusive mirror := by
  intro seed signed key accepted
  have same : seed.val ++ seed.val = key.val ++ key.val := of_decide_eq_true accepted
  have lengths : seed.val.length = key.val.length := seed.property.trans key.property.symm
  exact Subtype.ext (append_inj same lengths).1.symm

/-- The only token so far is the download. -/
theorem download_history : History JsonText.read mirror {seedOf 1} {downloadToken}
    (insert (seedOf 2) {seedOf 1}) := by
  have fresh : seedOf 2 ∉ mirror.publicKey '' {seedOf 1} := by
    rintro ⟨seed, rfl, same⟩
    exact absurd same (by decide)
  have history := History.mint (.start) "k" (seedOf 1) (Set.mem_singleton _) .custodyCapability 0
    (by decide) _ (seedOf 2) fresh downloadToken download_minted
  have issuers : mirror.publicKey '' {seedOf 1} = {seedOf 1} := Set.image_singleton
  rw [issuers, insert_empty_eq] at history
  exact history

theorem download_extends_given : ∃ verified parsed issuer,
    Lct.verify JsonText.read mirror downloadToken downloadKeys {} 7
      ⟨.custodyCapability, false, false⟩ = .ok verified ∧
    parseToken JsonText.read downloadToken false = .ok parsed ∧
    IssuedBy JsonText.read mirror issuer parsed := by
  obtain ⟨verified, accepted⟩ := downloadToken_verifies
  have known : ∀ kid entry, downloadKeys kid = some entry →
      entry.key ∈ mirror.publicKey '' {seedOf 1} := by
    rintro kid entry found
    obtain rfl := Option.some.inj found
    exact ⟨seedOf 1, rfl, rfl⟩
  obtain ⟨parsed, _, issuer, read, _, _, _, issued, _⟩ :=
    accepted_extends_given readsCompact_read mirror_exclusive download_history {downloadToken} le_rfl
      downloadKeys known downloadToken (.given _ rfl) {} 7 ⟨.custodyCapability, false, false⟩ verified
      accepted
  exact ⟨verified, parsed, issuer, accepted, read, issued⟩

end Synergos.TokenWorld
