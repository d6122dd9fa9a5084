import Synergos.LctText

/-!
# What verification establishes

An accepted token has a chain of valid signatures that starts at the issuer's
key, and its effective caveats are those of the first block narrowed by every
later one.
-/

namespace Synergos.LctVerify

open JsonText Jcs Base64url Envelope Caveat CaveatText ProfileRules Lct LctText List

variable {reader : String → Option Json} {scheme : Scheme}

/-- The signatures of a chain that verification has checked. -/
structure Checks (reader : String → Option Json) (scheme : Scheme) (key : PublicKey)
    (parsed : Parsed) : Prop where
  head : ∃ head rest profile signed, parsed.blocks = head :: rest ∧ head.profile = some profile ∧
    message reader (issuerCtx profile).1 1 head.bodyJson = .ok signed ∧
    scheme.check key signed head.sig = true
  links : ∀ before previous blk after, parsed.blocks = before ++ previous :: blk :: after →
    ∃ signed, message reader .lct 1 blk.bodyJson = .ok signed ∧
      scheme.check previous.nextPub signed blk.sig = true
  secret : ∀ before last seed, parsed.blocks = before ++ [last] →
    parsed.proof = .nextSecret seed → scheme.publicKey seed = last.nextPub
  sealing : ∀ before last signature, parsed.blocks = before ++ [last] →
    parsed.proof = .sealed signature →
    ∃ signed, message reader .lct 1 (sealPayload (chainOf parsed.blocks)) = .ok signed ∧
      scheme.check last.nextPub signed signature = true

/-- Every later block is checked with the key that its predecessor names, and
its caveats are folded in. -/
theorem verifyBlocks_ok (head : Block) (rest : List Block) (effective result : Caveats)
    (checked : verifyBlocks reader scheme head.nextPub effective rest = .ok result) :
    (rest.map Block.caveats).foldlM narrow effective = .ok result ∧
      ∀ before previous blk after, head :: rest = before ++ previous :: blk :: after →
        ∃ signed, message reader .lct 1 blk.bodyJson = .ok signed ∧
          scheme.check previous.nextPub signed blk.sig = true := by
  induction rest generalizing head effective with
  | nil =>
    obtain rfl : effective = result := by simpa [verifyBlocks] using checked
    refine ⟨rfl, ?_⟩
    intro before previous blk after shape
    have length := congrArg List.length shape
    simp at length
    omega
  | cons next rest ih =>
    simp only [verifyBlocks, bind_ok] at checked
    obtain ⟨_, checkedNext, middle, narrowed, checked⟩ := checked
    obtain ⟨_, signed, covered, accepted⟩ := (verify_ok _ _ _ _ _ _ _).mp checkedNext
    obtain ⟨folded, links⟩ := ih next middle checked
    constructor
    · simp only [map_cons, foldlM_cons, bind_ok]
      exact ⟨middle, narrowed, folded⟩
    · intro before previous blk after shape
      cases before with
      | nil =>
        simp only [nil_append, cons.injEq] at shape
        obtain ⟨rfl, rfl, rfl⟩ := shape
        exact ⟨signed, covered, accepted⟩
      | cons first before =>
        exact links before previous blk after (cons.inj shape).2

/-- A token that may be read sealed only is read the same way without that
demand. -/
theorem parseToken_any {token : String} {requireSealed : Bool} {parsed : Parsed}
    (read : parseToken reader token requireSealed = .ok parsed) :
    parseToken reader token false = .ok parsed := by
  cases requireSealed with
  | false => exact read
  | true =>
    simp only [parseToken, bind_ok, recast_ok] at read ⊢
    obtain ⟨_, bound, raw, decoded, read⟩ := read
    refine ⟨_, bound, raw, decoded, ?_⟩
    split at read
    · simp [fail] at read
    · simp only [bind_ok, recast_ok] at read ⊢
      obtain ⟨canonical, canonicalized, _, same, read⟩ := read
      refine ⟨canonical, canonicalized, _, same, ?_⟩
      split at read
      · rename_i root _
        unfold parseRoot at read ⊢
        split at read
        · simp only [bind_ok, ensure_ok] at read ⊢
          obtain ⟨_, short, blocks, readBlocks, _, _, proof, readProof, done⟩ := read
          exact ⟨_, short, blocks, readBlocks, (), by simp, proof, readProof, done⟩
        · simp [fail] at read
      · simp [fail] at read

/-- What a chain went through that passed, apart from revocation. -/
theorem verifyChain_checks {parsed : Parsed} {keys : String → Option IssuerKey} {now : Int}
    {presented : Presented} {head : Block} {profile : Profile} {effective : Caveats} {exp : Int}
    (checked : verifyChain reader scheme parsed keys now presented =
      .ok (head, profile, effective, exp)) :
    ∃ entry rest, keys head.kid = some entry ∧ parsed.blocks = head :: rest ∧
      Checks reader scheme entry.key parsed ∧ intersection parsed.blocks = .ok effective := by
  unfold verifyChain at checked
  split at checked
  · simp [fail] at checked
  rename_i head' rest blocks
  split at checked
  case h_2 => simp [fail] at checked
  case h_1 issuer kind issuerFound kindFound =>
    simp only [bind_ok, pure_ok, Prod.mk.injEq] at checked
    obtain ⟨_, _, _, _, _, _, _, checkedHead, effective', folded, _, proved, _, _, _, _, _, _, rfl, rfl,
      rfl, rfl⟩ := checked
    obtain ⟨_, signed, covered, accepted⟩ := (verify_ok _ _ _ _ _ _ _).mp checkedHead
    obtain ⟨narrowed, links⟩ := verifyBlocks_ok head' rest head'.caveats effective' folded
    have lastKey (before : List Block) (last : Block) (shape : parsed.blocks = before ++ [last]) :
        (head' :: rest).getLast (by simp) = last := by
      have same : head' :: rest = before ++ [last] := blocks.symm.trans shape
      simp [same]
    refine ⟨issuer, rest, issuerFound, blocks, ?_, ?_⟩
    · constructor
      case head => exact ⟨head', rest, kind, signed, blocks, kindFound, covered, accepted⟩
      case links => exact blocks ▸ links
      case secret =>
        intro before last seed shape proof
        simpa only [verifyProof, proof, ensure_ok, lastKey before last shape] using proved
      case sealing =>
        intro before last signature shape proof
        simp only [verifyProof, proof, lastKey before last shape] at proved
        exact ((verify_ok _ _ _ _ _ _ _).mp proved).2
    · simpa only [intersection, blocks] using narrowed

/-- What an accepted token went through. -/
theorem verify_checks (token : String) (keys : String → Option IssuerKey)
    (revocation : RevocationView) (now : Int) (presented : Presented) (verified : Verified)
    (accepted : Lct.verify reader scheme token keys revocation now presented = .ok verified) :
    ∃ parsed entry effective, parseToken reader token presented.requireSealed = .ok parsed ∧
      parseToken reader token false = .ok parsed ∧ keys verified.kid = some entry ∧
      Checks reader scheme entry.key parsed ∧ intersection parsed.blocks = .ok effective ∧
      toJson reader effective = .ok verified.caveatsJson := by
  simp only [Lct.verify, bind_ok, pure_ok] at accepted
  obtain ⟨parsed, read, ⟨head, profile, effective, exp⟩, checked, _, _, caveatsJson, json, rfl⟩ :=
    accepted
  obtain ⟨entry, _, known, _, checks, narrowed⟩ :=
    verifyChain_checks checked
  exact ⟨parsed, entry, effective, read, parseToken_any read, known, checks, narrowed,
    json⟩

/-- The effective caveats of a token that was read are sound. -/
theorem intersection_sound (law : ReadsCompact reader) {token : String} {parsed : Parsed}
    (read : parseToken reader token false = .ok parsed) {effective : Caveats}
    (whole : intersection parsed.blocks = .ok effective) : Sound effective := by
  have each : ∀ blk ∈ parsed.blocks, Sound blk.caveats := by
    intro blk present
    obtain ⟨before, after, shape⟩ := append_of_mem present
    exact (parsed_readBlock law read before blk after shape).caveats
  obtain ⟨_, _, _, nonempty, _⟩ := parseToken_ok law token false parsed read
  obtain ⟨head, rest, shape⟩ := exists_cons_of_ne_nil nonempty
  rw [shape] at each whole
  refine narrow_all_sound (each head (by simp)) ?_ whole
  intro caveats present
  obtain ⟨blk, member, rfl⟩ := mem_map.mp present
  exact each blk (by simp [member])

/-- The caveats of a longer chain narrow those of a shorter one. -/
theorem intersection_append (blocks added : List Block) (nonempty : blocks ≠ [])
    (effective : Caveats) (whole : intersection (blocks ++ added) = .ok effective) :
    ∃ held, intersection blocks = .ok held ∧
      (added.map Block.caveats).foldlM narrow held = .ok effective := by
  obtain ⟨head, rest, rfl⟩ := exists_cons_of_ne_nil nonempty
  simpa only [intersection, cons_append, map_append, foldlM_append, bind_ok] using whole

/-! ## Tokens that pass -/

/-- A chain whose checks all pass. -/
theorem verifyChain_done (scheme : Scheme) (parsed : Parsed) (head : Block) (rest : List Block)
    (keys : String → Option IssuerKey) (now : Int) (presented : Presented) (issuer : IssuerKey)
    (profile : Profile) (effective : Caveats) (last : Block) (exp : Int)
    (blocks : parsed.blocks = head :: rest) (ending : (head :: rest).getLast? = some last)
    (known : keys head.kid = some issuer) (kind : head.profile = some profile)
    (allowed : issuer.profile = profile) (shown : presentable profile presented.profile = true)
    (form : (!presented.urlForm || presented.profile = .custodyCapability) = true)
    (accepted : Envelope.verify reader scheme (issuerCtx profile).1 1 head.bodyJson
      (issuerCtx profile).2 issuer.key head.sig = .ok ())
    (folded : verifyBlocks reader scheme head.nextPub head.caveats rest = .ok effective)
    (proved : verifyProof reader scheme parsed last.nextPub = .ok ())
    (times : verifyTimes effective now presented = .ok exp)
    (issued : checkIssued profile head.caveats = .ok ())
    (passed : checkPresented presented.profile effective = .ok ()) :
    verifyChain reader scheme parsed keys now presented = .ok (head, profile, effective, exp) := by
  obtain ⟨chain, proof⟩ := parsed
  obtain rfl : chain = head :: rest := blocks
  have final : (head :: rest).getLast (by simp) = last := by
    rw [List.getLast?_eq_some_getLast (by simp)] at ending
    exact Option.some.inj ending
  simp [verifyChain, known, kind, ensure, if_pos allowed, shown, form, accepted, folded, final,
    proved, times, issued, passed]

theorem verify_done (scheme : Scheme) (token : String) (keys : String → Option IssuerKey)
    (revocation : RevocationView) (now : Int) (presented : Presented) (parsed : Parsed)
    (head : Block) (profile : Profile) (effective : Caveats) (exp : Int) (caveatsJson : String)
    (read : parseToken reader token presented.requireSealed = .ok parsed)
    (checked : verifyChain reader scheme parsed keys now presented =
      .ok (head, profile, effective, exp))
    (current : verifyRevocation effective head.iat revocation = .ok ())
    (json : toJson reader effective = .ok caveatsJson) :
    ∃ verified, Lct.verify reader scheme token keys revocation now presented = .ok verified := by
  simp only [Lct.verify, read, checked, current, json, ok_bind, pure_eq]
  exact ⟨_, rfl⟩

/-! ## A token that is accepted -/

/-- A scheme in which a signature is the seed, written twice. -/
def mirror : Scheme where
  publicKey seed := seed
  sign seed _ := ⟨seed.val ++ seed.val, by simp [seed.property]⟩
  check key _ signature := decide (signature.val = key.val ++ key.val)

theorem mirror_sign (seed : Seed) (signed signed' : List UInt8) :
    mirror.sign seed signed = mirror.sign seed signed' := rfl

theorem mirror_message {value : Json} (canonical : Canonical value)
    (light : weight value ≤ maxBytes) :
    ∃ signed, message JsonText.read .lct 1 (String.ofList (render value)) = .ok signed :=
  ⟨_, (message_ok .lct 1 _ _).mpr ⟨_, canonicalize_of_canonical readsCompact_read canonical
    (render_size _ _ light), rfl⟩⟩

theorem mirror_signs (value : Json) (canonical : Canonical value) (light : weight value ≤ maxBytes)
    (signer : Signer) (allowed : signerAllowed .lct signer = true) (seed : Seed) :
    Envelope.sign JsonText.read mirror .lct 1 (String.ofList (render value)) signer seed =
      .ok (mirror.sign seed []) := by
  obtain ⟨signed, covered⟩ := mirror_message canonical light
  exact (sign_ok mirror _ _ _ _ _ _).mpr ⟨allowed, signed, covered, mirror_sign seed _ _⟩

theorem mirror_verifies {value : Json} (canonical : Canonical value)
    (light : weight value ≤ maxBytes) {signer : Signer} (allowed : signerAllowed .lct signer = true)
    (seed : Seed) :
    Envelope.verify JsonText.read mirror .lct 1 (String.ofList (render value)) signer seed
      (mirror.sign seed []) = .ok () := by
  obtain ⟨signed, covered⟩ := mirror_message canonical light
  exact (verify_ok mirror _ _ _ _ _ _).mpr ⟨allowed, signed, covered, decide_eq_true rfl⟩

/-- A seed of equal bytes. -/
def seedOf (byte : UInt8) : Seed := ⟨List.replicate 32 byte, by simp⟩

/-- A value is far from the limits, on its own and as the body of a block. -/
def slim (value : Json) : Bool :=
  decide (weight value ≤ 2000) && (append 0 value).toBool && (append 3 value).toBool

theorem slim_iff (value : Json) : slim value = true ↔
    weight value ≤ 2000 ∧ (append 0 value).toBool = true ∧ (append 3 value).toBool = true := by
  simp [slim, and_assoc]

theorem slim_light {value : Json} (small : slim value = true) : weight value ≤ maxBytes :=
  ((slim_iff value).mp small).1.trans (by decide)

theorem slim_writes {value : Json} (small : slim value = true) : Writes 0 value :=
  writes_of_toBool ((slim_iff value).mp small).2.1

theorem slim_writes_body {value : Json} (small : slim value = true) : Writes 3 value :=
  writes_of_toBool ((slim_iff value).mp small).2.2

/-- One or two slim bodies fit into a token. -/
theorem slim_chain {bodies : List (Json × Signature)} (small : ∀ part ∈ bodies, slim part.1 = true)
    (few : bodies.length ≤ 2) : (bodies.map (fun part => weight part.1 + 900)).sum ≤ 6000 := by
  have each : ∀ size ∈ bodies.map (fun part => weight part.1 + 900), size ≤ 2900 := by
    intro size present
    obtain ⟨part, member, rfl⟩ := mem_map.mp present
    have light := ((slim_iff part.1).mp (small part member)).1
    omega
  have total := sum_le_card_nsmul _ 2900 each
  rw [length_map, smul_eq_mul] at total
  omega

/-- The caveats of a download by a subject. -/
def downloadMembers (subject : String) : List (String × Json) :=
  [("exp", .int 50), ("jti", .str "j"), ("object_keys", .arr [.str "x/1"]),
    ("ops", .arr [.str "get"]), ("org", .str "o"), ("project_ref", .str "p"),
    ("session_id", .str "s"), ("sub", .str subject)]

def downloadCaveats (subject : String) : Caveats where
  strings := (((((Strings.none.set .jti "j").set .org "o").set .projectRef "p").set .sessionId
    "s").set .sub subject)
  exp := some 50
  objectKeys := some {"x/1"}
  ops := some {"get"}
  chainJti := {"j"}

/-- The same caveats in the order in which they are written. -/
def downloadListed (subject : String) : List (String × Json) :=
  [("jti", .str "j"), ("org", .str "o"), ("project_ref", .str "p"), ("session_id", .str "s"),
    ("sub", .str subject), ("exp", .int 50), ("ops", .arr [.str "get"]),
    ("object_keys", .arr [.str "x/1"])]

theorem download_members (subject : String) :
    members (downloadCaveats subject) = downloadListed subject := by
  have ops : ascending {"get"} = ["get"] := by simp [ascending]
  have keys : ascending {"x/1"} = ["x/1"] := by simp [ascending]
  have texts : StringCaveat.all.filterMap (stringMember (downloadCaveats subject)) =
      [("jti", .str "j"), ("org", .str "o"), ("project_ref", .str "p"), ("session_id", .str "s"),
        ("sub", .str subject)] := by
    rfl
  rw [members, texts]
  simp [filterMap_cons, OtherCaveat.name, otherMember, downloadCaveats, otherValue, setJson,
    ops, keys, downloadListed]

theorem download_written (subject : String)
    (order : sorted (.obj (downloadListed subject)) = .obj (downloadMembers subject))
    (light : weight (.obj (downloadListed subject)) ≤ maxBytes)
    (writes : Writes 0 (.obj (downloadListed subject))) :
    toJson JsonText.read (downloadCaveats subject) =
      .ok (String.ofList (render (.obj (downloadMembers subject)))) := by
  have plain := canonicalize_plain readsCompact_read (by rfl)
    (render_size _ _ light) writes
  rw [order] at plain
  rw [toJson, download_members]
  exact plain

theorem download_presented (subject : String) :
    checkPresented .custodyCapability (downloadCaveats subject) = .ok () := by
  have ops : (downloadCaveats subject).ops = some {"get"} := rfl
  have other : (downloadCaveats subject).ops ≠ some {"put"} := by
    rw [ops]
    decide
  have required : require (downloadCaveats subject)
      [.org, .projectRef, .jti, .sub, .sessionId] = .ok () := rfl
  have keys : (downloadCaveats subject).objectKeys.isSome = true := rfl
  simp [checkPresented, checkCapability, required, rule, ensure, if_pos (Or.inl ops), if_neg other,
    keys]

theorem download_times (subject : String) (requireSealed : Bool) :
    verifyTimes (downloadCaveats subject) 7 ⟨.custodyCapability, false, requireSealed⟩ = .ok 50 := by
  rfl

/-- The body of the first block, its signature and the token. -/
def downloadBody : Json :=
  .obj (bodySorted (.obj (downloadMembers "d")) (seedOf 2) (some ("k", .custodyCapability, 0)))

def downloadSig : Signature := mirror.sign (seedOf 1) []

def downloadToken : String := tokenOf [(downloadBody, downloadSig)] (.nextSecret (seedOf 2))

/-- All values of the example are slim; one evaluation for the group. -/
theorem download_slim : slim (.obj (downloadListed "d")) = true ∧
    slim (.obj (downloadMembers "d")) = true ∧
    slim (.obj (bodyMembers (.obj (downloadMembers "d")) (seedOf 2)
      (some ("k", .custodyCapability, 0)))) = true ∧
    slim downloadBody = true := by decide +kernel

theorem download_written_d : toJson JsonText.read (downloadCaveats "d") =
    .ok (String.ofList (render (.obj (downloadMembers "d")))) :=
  download_written "d" (by rfl) (slim_light download_slim.1) (slim_writes download_slim.1)

theorem downloadBody_written : body JsonText.read (downloadCaveats "d") (seedOf 2)
    (some ("k", .custodyCapability, 0)) = .ok (String.ofList (render downloadBody)) :=
  body_done readsCompact_read (downloadCaveats "d") (.obj (downloadMembers "d"))
    download_written_d (by rfl) (seedOf 2) _ (by decide) (slim_light download_slim.2.2.1)
    (slim_writes download_slim.2.2.1)

theorem downloadBody_slim : slim downloadBody = true := download_slim.2.2.2

theorem downloadBody_canonical : Canonical downloadBody :=
  canonical_of_writes (slim_writes downloadBody_slim) (by rfl)

theorem downloadBody_light : weight downloadBody ≤ maxBytes := slim_light downloadBody_slim

theorem download_encoded : encodeToken JsonText.read [(String.ofList (render downloadBody),
    downloadSig)] (proofText (.nextSecret (seedOf 2))) = .ok downloadToken :=
  encodeToken_bodies readsCompact_read [(downloadBody, downloadSig)] (.nextSecret (seedOf 2))
    (by simpa using downloadBody_canonical) (by simpa using slim_writes_body downloadBody_slim)
    (slim_chain (by simpa using downloadBody_slim) (by decide))

theorem download_parsed : parseCaveatsText JsonText.read
    (String.ofList (render (.obj (downloadMembers "d")))) = .ok (downloadCaveats "d") :=
  parseCaveatsText_done readsCompact_read
    (canonical_of_writes (slim_writes download_slim.2.1) (by rfl)) (slim_light download_slim.2.1)
    (by rfl)

theorem download_minted : mint JsonText.read mirror "k" (seedOf 1) .custodyCapability 0
    (String.ofList (render (.obj (downloadMembers "d")))) (seedOf 2) = .ok downloadToken :=
  (mint_done mirror "k" (seedOf 1) .custodyCapability 0 _ (seedOf 2) (downloadCaveats "d") _
    downloadSig (by decide) (by decide) download_parsed rfl rfl (download_presented "d")
    downloadBody_written (mirror_signs downloadBody downloadBody_canonical downloadBody_light .custody
      (by decide) (seedOf 1))).trans download_encoded

/-- The key of the issuer. -/
def downloadKeys : String → Option IssuerKey := fun _ => some ⟨seedOf 1, .custodyCapability⟩

def downloadBlock : Block :=
  blockOf (String.ofList (render downloadBody)) (downloadCaveats "d") (seedOf 2) downloadSig
    (some ("k", .custodyCapability, 0))

theorem downloadToken_parses : parseToken JsonText.read downloadToken false =
    .ok ⟨[downloadBlock], .nextSecret (seedOf 2)⟩ :=
  issued_parses readsCompact_read (downloadCaveats "d")
    (parseCaveatsText_sound readsCompact_read download_parsed) (seedOf 2)
    ("k", .custodyCapability, 0) (by decide) _ downloadSig (.nextSecret (seedOf 2)) downloadToken
    downloadBody_written download_encoded

/-- The first block was signed by the issuer. -/
theorem downloadBlock_verifies : Envelope.verify JsonText.read mirror .lct 1 downloadBlock.bodyJson
    .custody (seedOf 1) downloadBlock.sig = .ok () :=
  mirror_verifies downloadBody_canonical downloadBody_light (by decide) (seedOf 1)

theorem downloadToken_verifies :
    ∃ verified, Lct.verify JsonText.read mirror downloadToken downloadKeys
    {} 7 ⟨.custodyCapability, false, false⟩ = .ok verified := by
  have checked := verifyChain_done mirror ⟨[downloadBlock], .nextSecret (seedOf 2)⟩ downloadBlock []
    downloadKeys 7 ⟨.custodyCapability, false, false⟩ ⟨seedOf 1, .custodyCapability⟩
    .custodyCapability (downloadCaveats "d") downloadBlock 50 rfl rfl rfl rfl rfl (by decide)
    (by decide) downloadBlock_verifies rfl (by rfl) (download_times "d" false) rfl
    (download_presented "d")
  exact verify_done mirror downloadToken downloadKeys {} 7 ⟨.custodyCapability, false, false⟩ _ _ _ _ _
    _ downloadToken_parses checked (by rfl) download_written_d

end Synergos.LctVerify
