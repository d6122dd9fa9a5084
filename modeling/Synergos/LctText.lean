import Synergos.Lct

/-!
# Tokens as text

A token that can be read is the text of what was read: the chain of block bodies
and signatures and the proof determine it. Conversely the text that is written
for a chain of canonical bodies is read as that chain. Together the two say that
re-encoding changes nothing and that every token the operations make can be
read.
-/

namespace Synergos.LctText

open JsonText Jcs Base64url Envelope Caveat CaveatText ProfileRules Lct List
open String (ofList utf8Len utf8Len_append utf8Len_cons utf8ByteSize_ofList)

/-- One block of a token as JSON. -/
def blockJson (body : Json) (sig : Signature) : Json :=
  .obj [("body", body), ("sig", .str (encode sig.val))]

def proofJson : Proof → Json
  | .nextSecret seed => .obj [("next_secret", .str (encode seed.val))]
  | .sealed signature => .obj [("seal", .str (encode signature.val))]

def proofText : Proof → String
  | .nextSecret seed => unsealedProof seed
  | .sealed signature => sealedProof signature

def tokenJson (items : List Json) (proof : Proof) : Json :=
  .obj [("blocks", .arr items), ("proof", proofJson proof), ("v", .int 1)]

/-- A text is the compact form of a canonical value. -/
def CanonicalText (text : String) : Prop :=
  ∃ value, Canonical value ∧ text = ofList (render value)

/-- The texts of some values, separated by commas. -/
theorem joinTexts_render (items : List Json) :
    (joinTexts (items.map (fun item => ofList (render item)))).toList = renderItems items := by
  have more (rest : List Json) :
      (moreTexts (rest.map (fun item => ofList (render item)))).toList =
        renderMoreItems rest := by
    induction rest with
    | nil => rfl
    | cons item rest ih =>
      simp [moreTexts, renderMoreItems, ih]
  cases items with
  | nil => rfl
  | cons item rest => simp [joinTexts, renderItems, more]

/-- The value that a seal covers. -/
def sealJson (chain : Chain) : Json :=
  .obj [("seal", .arr (chain.map (fun part => .str (encode part.2.val))))]

theorem sealPayload_render (chain : Chain) :
    sealPayload chain = ofList (render (sealJson chain)) := by
  have opening : "\x7b\"seal\":[".toList = '{' :: (quoted "seal" ++ [':', '[']) := by decide
  have closing : "]\x7d".toList = [']', '}'] := by decide
  have items : chain.map (fun part => quoteBytes part.2.val) =
      (chain.map (fun part => Json.str (encode part.2.val))).map
        (fun item => ofList (render item)) := by
    simp [quoteBytes, quote, render, Function.comp_def]
  apply String.toList_inj.mp
  simp only [sealPayload, items, String.toList_append, joinTexts_render, String.toList_ofList,
    opening, closing, sealJson, render, renderMembers, renderMoreMembers]
  simp

theorem sealJson_plain (chain : Chain) :
    machine (sealJson chain) = true ∧ sorted (sealJson chain) = sealJson chain := by
  have items : ∀ item ∈ chain.map (fun part => Json.str (encode part.2.val)),
      machine item = true := by
    intro item present
    obtain ⟨part, _, rfl⟩ := mem_map.mp present
    rfl
  constructor
  · simp only [machine] at items
    simp only [machine, sealJson, within, withinMembers, Bool.and_true]
    exact (withinItems_iff).mpr items
  · simp [sealJson, sorted, sortedMembers, sortedItems_eq_map, Function.comp_def]

/-- What a seal covers is canonical and small. -/
theorem sealJson_canonical {chain : Chain} (short : chain.length ≤ maxBlocks) :
    Canonical (sealJson chain) ∧ weight (sealJson chain) ≤ maxBytes := by
  constructor
  · refine canonical_of_writes ?_ (sealJson_plain chain).2
    have items : Writes 1 (.arr (chain.map (fun part => .str (encode part.2.val)))) := by
      refine writes_arr 1 (by decide) ?_
      intro item present
      obtain ⟨part, _, rfl⟩ := mem_map.mp present
      exact writes_str (by decide)
    refine writes_obj 0 (by decide) (pairwise_singleton _ _) ?_
    simpa using items
  · have name : "seal".utf8ByteSize = 4 := by decide
    have items : weightItems (chain.map (fun part => .str (encode part.2.val))) ≤
        1000 * chain.length := by
      induction chain with
      | nil => simp [weightItems]
      | cons part rest ih =>
        have size := encode_size part.2.val
        rw [part.2.property] at size
        have more := ih (by simp only [length_cons] at short; omega)
        simp only [map_cons, weightItems, weight, length_cons]
        omega
    simp only [maxBlocks] at short
    simp only [sealJson, weight, weightMembers, name, maxBytes]
    omega

section Laws

variable {reader : String → Option Json}

/-- The block that a body text and a signature are written as. -/
def itemOf (reader : String → Option Json) (part : String × Signature) : Json :=
  blockJson ((reader part.1).getD .null) part.2

def rootOf (reader : String → Option Json) (chain : Chain) (proof : Proof) : Json :=
  tokenJson (chain.map (itemOf reader)) proof

theorem blockText_render (law : ReadsCompact reader) (part : String × Signature)
    (canonical : CanonicalText part.1) :
    blockText part = ofList (render (itemOf reader part)) := by
  obtain ⟨value, settled, shape⟩ := canonical
  have found : reader part.1 = some value := shape ▸ read_of_canonical law settled
  have opening : "\x7b\"body\":".toList = '{' :: (quoted "body" ++ [':']) := by decide
  have middle : ",\"sig\":".toList = ',' :: (quoted "sig" ++ [':']) := by decide
  have closing : "\x7d".toList = ['}'] := by decide
  apply String.toList_inj.mp
  simp only [blockText, itemOf, found, Option.getD_some, blockJson, quoteBytes, quote,
    String.toList_append, String.toList_ofList, opening, middle, closing, render, renderMembers,
    renderMoreMembers]
  simp [shape]

variable {items : List Json} {item : Json} {blocks : List Block} {blk : Block}
  (bodies : List (Json × Signature)) (proof : Proof)

theorem proofText_render :
    proofText proof = ofList (render (proofJson proof)) := by
  have secret : "\x7b\"next_secret\":".toList = '{' :: (quoted "next_secret" ++ [':']) := by decide
  have sealing : "\x7b\"seal\":".toList = '{' :: (quoted "seal" ++ [':']) := by decide
  have closing : "\x7d".toList = ['}'] := by decide
  apply String.toList_inj.mp
  cases proof with
  | nextSecret seed =>
    simp only [proofText, unsealedProof, proofJson, quoteBytes, quote, String.toList_append,
      String.toList_ofList, secret, closing, render, renderMembers, renderMoreMembers]
    simp
  | sealed signature =>
    simp only [proofText, sealedProof, proofJson, quoteBytes, quote, String.toList_append,
      String.toList_ofList, sealing, closing, render, renderMembers, renderMoreMembers]
    simp

/-- The text written for a chain of canonical bodies. -/
theorem tokenText_render (law : ReadsCompact reader) (chain : Chain) (proof : Proof)
    (canonical : ∀ part ∈ chain, CanonicalText part.1) :
    tokenText chain (proofText proof) = ofList (render (rootOf reader chain proof)) := by
  have opening : "\x7b\"blocks\":[".toList = '{' :: (quoted "blocks" ++ [':', '[']) := by decide
  have middle : "],\"proof\":".toList = ']' :: ',' :: (quoted "proof" ++ [':']) := by decide
  have closing : ",\"v\":1\x7d".toList =
      ',' :: (quoted "v" ++ ':' :: ((toString (1 : Int)).toList ++ ['}'])) := by decide
  have blocks : chain.map blockText =
      (chain.map (itemOf reader)).map (fun item => ofList (render item)) := by
    rw [map_map]
    exact map_congr_left fun part present => blockText_render law part (canonical part present)
  apply String.toList_inj.mp
  simp only [tokenText, blocks, String.toList_append, joinTexts_render, proofText_render,
    String.toList_ofList, opening, middle, closing, rootOf, tokenJson, render, renderMembers,
    renderMoreMembers]
  simp

/-! ## Canonical order of tokens -/

theorem sorted_blockJson {body : Json} (sig : Signature) (settled : sorted body = body) :
    sorted (blockJson body sig) = blockJson body sig := by
  have before : Before (α := Json) ("body", body) ("sig", .str (encode sig.val)) := by
    change utf16 "body" ≤ utf16 "sig"
    decide
  simp [blockJson, sorted, sortedMembers, settled, before]

theorem sorted_proofJson : sorted (proofJson proof) = proofJson proof := by
  cases proof <;> simp [proofJson, sorted, sortedMembers]

theorem sorted_tokenJson (settled : ∀ item ∈ items, sorted item = item) :
    sorted (tokenJson items proof) = tokenJson items proof := by
  have inside : sortedItems items = items := by
    rw [sortedItems_eq_map]
    exact (map_congr_left settled).trans (map_id items)
  have first (left : Json) (right : Json) : Before ("blocks", left) ("proof", right) := by
    change utf16 "blocks" ≤ utf16 "proof"
    decide
  have second (left : Json) (right : Json) : Before ("proof", left) ("v", right) := by
    change utf16 "proof" ≤ utf16 "v"
    decide
  simp [tokenJson, sorted, sortedMembers, inside, sorted_proofJson, first, second]

theorem sorted_rootOf (law : ReadsCompact reader) (chain : Chain) (proof : Proof)
    (canonical : ∀ part ∈ chain, CanonicalText part.1) :
    sorted (rootOf reader chain proof) = rootOf reader chain proof := by
  refine sorted_tokenJson proof ?_
  intro item present
  obtain ⟨part, member, rfl⟩ := mem_map.mp present
  obtain ⟨value, settled, shape⟩ := canonical part member
  have found : reader part.1 = some value := shape ▸ read_of_canonical law settled
  simp only [itemOf, found, Option.getD_some]
  exact sorted_blockJson part.2 settled.2.1

/-! ## What was read -/

theorem recast_ok {α : Type} (checked : Checked α) (code : Code) (detail : Fault → String)
    (result : α) : recast checked code detail = .ok result ↔ checked = .ok result := by
  cases checked <;> simp [recast, fail]

/-- The parts of a body that reading fixes. -/
theorem parseBody_ok {first : Bool} {body : Json} {sigText : String}
    (read : parseBody reader first body sigText = .ok blk) :
    encode blk.sig.val = sigText ∧ write reader body = .ok blk.bodyJson ∧
      body.get? "next_pub" = some (.str (encode blk.nextPub.val)) ∧
      body.size = (if first then 6 else 3) ∧ bodyCaveats body = .ok blk.caveats ∧
      blk.profile.isSome = first := by
  unfold parseBody at read
  split at read
  case h_2 => simp [fail] at read
  case h_1 next version key =>
    simp only [bind_ok, ensure_ok, recast_ok, exists_const] at read
    obtain ⟨size, bodyJson, written, caveats, readCaveats, nextPub, nextDecoded, sig, sigDecoded,
      read⟩ := read
    have nextText := encode_of_decodeFixed nextDecoded
    have sigText := encode_of_decodeFixed sigDecoded
    cases first with
    | true =>
      simp only [if_true, bind_ok, pure_ok] at read
      obtain ⟨head, _, rfl⟩ := read
      exact ⟨sigText, written, by rw [key, nextText], by simpa using size, readCaveats, rfl⟩
    | false =>
      simp only [Bool.false_eq_true, if_false, pure_ok] at read
      subst read
      exact ⟨sigText, written, by rw [key, nextText], by simpa using size, readCaveats, rfl⟩

/-- A block that was read is written with its canonical body and signature. -/
theorem parseBlock_ok (law : ReadsCompact reader) {first : Bool} (settled : sorted item = item)
    (inside : safe item = true) (read : parseBlock reader first item = .ok blk) :
    item = itemOf reader (blk.bodyJson, blk.sig) ∧ CanonicalText blk.bodyJson := by
  unfold parseBlock at read
  split at read
  case h_2 => simp [fail] at read
  case h_1 size members sig count bodyFound sigFound =>
    obtain ⟨sigText, written, _⟩ := parseBody_ok read
    obtain ⟨entries, rfl⟩ := obj_of_get? bodyFound
    obtain ⟨inOrder, fixed⟩ := sorted_obj settled
    have strict : [("body", Json.obj members), ("sig", Json.str sig)].Pairwise
        (fun a b => utf16 a.1 < utf16 b.1) := by
      simp only [pairwise_cons, mem_singleton, forall_eq, not_mem_nil,
        false_implies, implies_true, List.Pairwise.nil, and_true]
      decide
    have same : entries = [("body", .obj members), ("sig", .str sig)] := by
      refine members_eq inOrder strict (by simpa [Json.size] using count) ?_
      simp only [mem_cons, not_mem_nil, or_false, forall_eq_or_imp, forall_eq]
      exact ⟨mem_of_get? bodyFound, mem_of_get? sigFound⟩
    subst same
    have bodySettled : sorted (.obj members) = .obj members := fixed ("body", _) (by simp)
    have bodyInside : safe (.obj members) = true := by
      simp only [safe, within, withinMembers_iff] at inside ⊢
      have member := inside ("body", .obj members) (by simp)
      simpa [within, withinMembers_iff] using member
    obtain ⟨canonical, shape⟩ :=
      canonicalize_render law (machine_of_safe bodyInside) written
    rw [bodySettled] at canonical shape
    have found : reader blk.bodyJson = some (.obj members) :=
      shape ▸ read_of_canonical law canonical
    refine ⟨?_, _, canonical, shape⟩
    simp [itemOf, found, blockJson, sigText]

theorem parseBlocks_ok (law : ReadsCompact reader) (first : Bool) (blocks : List Block)
    (settled : ∀ item ∈ items, sorted item = item) (inside : ∀ item ∈ items, safe item = true)
    (read : parseBlocks reader first items = .ok blocks) :
    items = (chainOf blocks).map (itemOf reader) ∧
      ∀ part ∈ chainOf blocks, CanonicalText part.1 := by
  induction items generalizing first blocks with
  | nil =>
    obtain rfl : [] = blocks := by simpa [parseBlocks] using read
    simp [chainOf]
  | cons item rest ih =>
    simp only [parseBlocks, bind_ok, pure_ok] at read
    obtain ⟨blk, readFirst, more, readRest, rfl⟩ := read
    obtain ⟨shape, canonical⟩ := parseBlock_ok law (settled item (by simp))
      (inside item (by simp)) readFirst
    obtain ⟨shapes, canonicals⟩ := ih false more
      (fun other present => settled other (by simp [present]))
      (fun other present => inside other (by simp [present])) readRest
    refine ⟨?_, ?_⟩
    · simp only [chainOf, map_cons] at shapes ⊢
      rw [← shape, ← shapes]
    · intro part present
      simp only [chainOf, map_cons, mem_cons] at present
      rcases present with rfl | present
      · exact canonical
      · exact canonicals part present

theorem parseProof_ok {entry : String × Json} {proof : Proof}
    (read : parseProof (.obj [entry]) = .ok proof) : Json.obj [entry] = proofJson proof := by
  unfold parseProof at read
  split at read
  · rename_i secret found
    have member := mem_of_get? found
    obtain ⟨seed, decoded, rfl⟩ := map_ok read
    rw [recast_ok] at decoded
    rw [mem_singleton] at member
    rw [← member, proofJson, encode_of_decodeFixed decoded]
  · rename_i signature found _
    have member := mem_of_get? found
    obtain ⟨sig, decoded, rfl⟩ := map_ok read
    rw [recast_ok] at decoded
    rw [mem_singleton] at member
    rw [← member, proofJson, encode_of_decodeFixed decoded]
  · simp [fail] at read

theorem textOf_iff (bytes : List UInt8) (text : String) :
    textOf bytes = some text ↔ utf8 text = bytes := by
  unfold textOf utf8
  constructor
  · intro found
    unfold String.fromUTF8? at found
    split at found
    · obtain rfl := Option.some.inj found
      simp [String.fromUTF8]
    · simp at found
  · rintro rfl
    have valid := text.isValidUTF8
    simp only [String.fromUTF8?, Array.toArray_toList]
    rw [dif_pos valid]
    rfl

/-- The root of a token that was read. -/
theorem parseRoot_ok (law : ReadsCompact reader) {root : Json} {requireSealed : Bool}
    {parsed : Parsed} (canonical : Canonical root)
    (read : parseRoot reader root requireSealed = .ok parsed) :
    root = rootOf reader (chainOf parsed.blocks) parsed.proof ∧
      (∀ part ∈ chainOf parsed.blocks, CanonicalText part.1) ∧
      parseBlocks reader true ((chainOf parsed.blocks).map (itemOf reader)) = .ok parsed.blocks ∧
      parsed.blocks ≠ [] ∧ parsed.blocks.length ≤ maxBlocks := by
  unfold parseRoot at read
  split at read
  case h_2 => simp [fail] at read
  case h_1 count item rest entry size version blocksFound proofFound =>
    simp only [bind_ok, pure_ok, ensure_ok, exists_const, bounded] at read
    obtain ⟨bounded, blocks, readBlocks, _, proof, readProof, rfl⟩ := read
    obtain ⟨members, rfl⟩ := obj_of_get? blocksFound
    obtain ⟨inOrder, fixed⟩ := sorted_obj canonical.2.1
    let expected : List (String × Json) :=
      [("blocks", .arr (item :: rest)), ("proof", .obj [entry]), ("v", .int 1)]
    have strict : expected.Pairwise (fun a b => utf16 a.1 < utf16 b.1) := by
      have first : utf16 "blocks" < utf16 "proof" := by decide
      have second : utf16 "proof" < utf16 "v" := by decide
      simp [expected, first, second, first.trans second]
    have same : members = expected := by
      refine members_eq inOrder strict (by simpa [Json.size, expected] using size) ?_
      simp only [expected, mem_cons, not_mem_nil, or_false, forall_eq_or_imp, forall_eq]
      exact ⟨mem_of_get? blocksFound, mem_of_get? proofFound, mem_of_get? version⟩
    subst same
    have settled := sorted_arr (fixed ("blocks", .arr (item :: rest)) (by simp [expected]))
    have inside : ∀ other ∈ item :: rest, safe other = true := by
      have members := canonical.2.2
      simp only [safe, within, withinMembers_iff] at members
      have array := members ("blocks", .arr (item :: rest)) (by simp [expected])
      simpa [within, withinItems_iff] using array
    obtain ⟨shape, canonicals⟩ := parseBlocks_ok law true blocks settled inside readBlocks
    have length : blocks.length = (item :: rest).length := by
      rw [shape, length_map, chainOf, length_map]
    refine ⟨?_, canonicals, shape ▸ readBlocks, ?_, length ▸ bounded⟩
    · simp [rootOf, tokenJson, expected, ← shape, parseProof_ok readProof]
    · rintro rfl
      simp at length

/-- A token that was read is the text of what was read. -/
theorem parseToken_ok (law : ReadsCompact reader) (token : String) (requireSealed : Bool)
    (parsed : Parsed) (read : parseToken reader token requireSealed = .ok parsed) :
    token = encode (utf8 (ofList
        (render (rootOf reader (chainOf parsed.blocks) parsed.proof)))) ∧
      (∀ part ∈ chainOf parsed.blocks, CanonicalText part.1) ∧
      parseBlocks reader true ((chainOf parsed.blocks).map (itemOf reader)) = .ok parsed.blocks ∧
      parsed.blocks ≠ [] ∧ parsed.blocks.length ≤ maxBlocks := by
  simp only [parseToken, bind_ok, recast_ok, bounded, ensure_ok, exists_const] at read
  obtain ⟨_, raw, decoded, read⟩ := read
  split at read
  · simp [fail] at read
  · rename_i json text
    simp only [bind_ok, recast_ok, ensure_ok, exists_const] at read
    obtain ⟨canonical, canonicalized, rfl, read⟩ := read
    obtain ⟨_, value, found, settled, shape⟩ := canonicalize_ok canonicalized
    have root : reader canonical = some (sorted value) := by
      rw [shape]
      exact read_of_canonical law settled
    rw [root] at read
    obtain ⟨written, rest⟩ := parseRoot_ok law settled read
    refine ⟨?_, rest⟩
    rw [← written, ← shape, (textOf_iff raw canonical).mp text, encode_of_decode decoded]

/-- The chain and the proof determine the token. -/
theorem parseToken_injective (law : ReadsCompact reader) {left right : String}
    {leftSealed rightSealed : Bool} {first second : Parsed}
    (leftRead : parseToken reader left leftSealed = .ok first)
    (rightRead : parseToken reader right rightSealed = .ok second)
    (chain : chainOf first.blocks = chainOf second.blocks) (proof : first.proof = second.proof) :
    left = right := by
  rw [(parseToken_ok law left leftSealed first leftRead).1,
    (parseToken_ok law right rightSealed second rightRead).1, chain, proof]

/-- The caveats of a canonical body are sound. -/
theorem bodyCaveats_sound {body : Json} (inside : safe body = true) {c : Caveats}
    (read : bodyCaveats body = .ok c) : Sound c := by
  unfold bodyCaveats at read
  split at read
  · rename_i value found
    refine parseCaveats_sound ?_ read
    obtain ⟨entries, rfl⟩ := obj_of_get? found
    simp only [within, withinMembers_iff] at inside
    exact inside _ (mem_of_get? found)
  · simp [fail] at read

/-- What reading fixes about one block of a token. -/
structure ReadBlock (reader : String → Option Json) (first : Bool) (blk : Block) : Prop where
  parses : parseBlock reader first (itemOf reader (blk.bodyJson, blk.sig)) = .ok blk
  canonical : ∃ value, Canonical value ∧ blk.bodyJson = ofList (render value) ∧
    value.size = (if first then 6 else 3)
  caveats : Sound blk.caveats

theorem readBlock (law : ReadsCompact reader) {first : Bool} (blk : Block)
    (canonical : CanonicalText blk.bodyJson)
    (parses : parseBlock reader first (itemOf reader (blk.bodyJson, blk.sig)) = .ok blk) :
    ReadBlock reader first blk := by
  obtain ⟨value, settled, shape⟩ := canonical
  have read := parses
  have found : reader blk.bodyJson = some value := shape ▸ read_of_canonical law settled
  simp only [parseBlock, itemOf, blockJson, found, Option.getD_some] at parses
  split at parses
  · rename_i members sig _ body _
    have same : value = .obj members := by simpa [Json.get?] using body
    obtain ⟨_, _, _, size, caveats, _⟩ := parseBody_ok parses
    refine ⟨read, ⟨value, settled, shape, same ▸ size⟩, ?_⟩
    exact bodyCaveats_sound (settled.2.2) (same ▸ caveats)
  · simp [fail] at parses

/-- Reading goes block by block. -/
theorem parseBlocks_each (first : Bool)
    (read : parseBlocks reader first ((chainOf blocks).map (itemOf reader)) = .ok blocks) :
    ∀ before blk after, blocks = before ++ blk :: after →
      parseBlock reader (first && before.isEmpty) (itemOf reader (blk.bodyJson, blk.sig)) =
        .ok blk := by
  induction blocks generalizing first with
  | nil => simp
  | cons head rest ih =>
    simp only [chainOf, map_cons, parseBlocks, bind_ok, pure_ok, cons.injEq] at read
    obtain ⟨_, readHead, _, readRest, rfl, rfl⟩ := read
    intro before blk after shape
    cases before with
    | nil =>
      obtain ⟨rfl, rfl⟩ := cons.inj shape
      simpa using readHead
    | cons earlier before =>
      have later := (cons.inj shape).2
      simpa using ih false readRest before blk after later

theorem parsed_readBlock (law : ReadsCompact reader) {token : String} {parsed : Parsed}
    (read : parseToken reader token false = .ok parsed) (before : List Block) (blk : Block)
    (after : List Block) (shape : parsed.blocks = before ++ blk :: after) :
    ReadBlock reader before.isEmpty blk := by
  obtain ⟨_, canonicals, blocks, _⟩ := parseToken_ok law token false parsed read
  refine readBlock law blk (canonicals (blk.bodyJson, blk.sig) ?_) ?_
  · simp [chainOf, shape]
  · simpa using parseBlocks_each true blocks before blk after shape

/-! ## What is written can be read -/

theorem safe_rootOf (law : ReadsCompact reader) (chain : Chain) (proof : Proof)
    (canonical : ∀ part ∈ chain, CanonicalText part.1) : safe
    (rootOf reader chain proof) = true := by
  have items : ∀ item ∈ chain.map (itemOf reader), safe item = true := by
    intro item present
    obtain ⟨part, member, rfl⟩ := mem_map.mp present
    obtain ⟨value, settled, shape⟩ := canonical part member
    have found : reader part.1 = some value := shape ▸ read_of_canonical law settled
    have inside := settled.2.2
    simp only [safe] at inside
    simp [safe, itemOf, found, blockJson, within, withinMembers, inside]
  have proofs : safe (proofJson proof) = true := by
    cases proof <;> simp [safe, proofJson, within, withinMembers]
  simp only [safe, rootOf, tokenJson, within, withinMembers] at items proofs ⊢
  rw [(withinItems_iff).mpr items, proofs]
  decide

theorem parseProof_proofJson : parseProof (proofJson proof) = .ok proof := by
  cases proof <;> simp [parseProof, proofJson, Json.get?, decodeFixed_encode, recast, Except.map]

/-- Whether a proof is a seal. -/
def isSealed : Proof → Bool
  | .nextSecret _ => false
  | .sealed _ => true

theorem isText_seal : isText ((proofJson proof).get? "seal") = isSealed proof := by
  cases proof <;> simp [proofJson, Json.get?, isText, isSealed]

theorem parseRoot_rootOf {chain : Chain} {proof : Proof}
    {requireSealed : Bool} (nonempty : chain ≠ []) (short : chain.length ≤ maxBlocks)
    (sealing : requireSealed = true → isSealed proof = true)
    (read : parseBlocks reader true (chain.map (itemOf reader)) = .ok blocks) :
    parseRoot reader (rootOf reader chain proof) requireSealed = .ok ⟨blocks, proof⟩ := by
  obtain ⟨part, rest, rfl⟩ := exists_cons_of_ne_nil nonempty
  obtain ⟨entry, single⟩ : ∃ entry, proofJson proof = .obj [entry] := by
    cases proof <;> exact ⟨_, rfl⟩
  have accepted : (!requireSealed || isText ((Json.obj [entry]).get? "seal")) = true := by
    rw [← single, isText_seal]
    cases requireSealed <;> simp_all
  have blocksFound : (rootOf reader (part :: rest) proof).get? "blocks" =
      some (.arr (itemOf reader part :: rest.map (itemOf reader))) := by
    simp [rootOf, tokenJson, Json.get?]
  have proofFound : (rootOf reader (part :: rest) proof).get? "proof" = some (.obj [entry]) := by
    simp [rootOf, tokenJson, Json.get?, single]
  have version : (rootOf reader (part :: rest) proof).get? "v" = some (.int 1) := by
    simp [rootOf, tokenJson, Json.get?]
  have size : (rootOf reader (part :: rest) proof).size = 3 := rfl
  have count : (itemOf reader part :: rest.map (itemOf reader)).length ≤ maxBlocks := by
    simpa using short
  have readProof : parseProof (.obj [entry]) = .ok proof := single ▸ parseProof_proofJson proof
  simp only [parseRoot, size, version, blocksFound, proofFound]
  rw [map_cons] at read
  simp only [bounded, ensure, if_pos count, read, if_pos accepted, readProof, ok_bind, pure_eq]

theorem encodeToken_ok (law : ReadsCompact reader) {chain : Chain} {proof : Proof} {token : String}
    (canonical : ∀ part ∈ chain, CanonicalText part.1)
    (encoded : encodeToken reader chain (proofText proof) = .ok token) :
    token = encode (utf8 (ofList (render (rootOf reader chain proof)))) ∧
      token.utf8ByteSize ≤ maxTokenBytes ∧
      Canonical (rootOf reader chain proof) ∧
      (ofList (render (rootOf reader chain proof))).utf8ByteSize ≤ maxBytes := by
  simp only [encodeToken, bind_ok, pure_ok, bounded, ensure_ok, exists_const] at encoded
  obtain ⟨text, canonicalized, small, rfl⟩ := encoded
  rw [tokenText_render law chain proof canonical] at canonicalized
  have size := (canonicalize_ok canonicalized).1
  obtain ⟨settled, shape⟩ := canonicalize_render law
    (machine_of_safe (safe_rootOf law chain proof canonical)) canonicalized
  rw [sorted_rootOf law chain proof canonical] at settled shape
  subst shape
  exact ⟨rfl, small, settled, size⟩

/-- The token of some bodies with their signatures. -/
def tokenOf (bodies : List (Json × Signature)) (proof : Proof) : String :=
  encode (utf8 (ofList (render
    (tokenJson (bodies.map (fun part => blockJson part.1 part.2)) proof))))

theorem writes_proofJson (depth : Nat) (shallow : depth + 1 < maxDepth) (proof : Proof) :
    Writes depth (proofJson proof) := by
  cases proof <;> refine writes_obj depth (by omega) (pairwise_singleton _ _) ?_ <;>
    simpa using writes_str shallow

/-- A token can be written if its bodies can, three levels down. -/
theorem writes_tokenJson (each : ∀ part ∈ bodies, Writes 3 part.1) :
    Writes 0 (tokenJson (bodies.map (fun part => blockJson part.1 part.2)) proof) := by
  have first : utf16 "blocks" < utf16 "proof" := by decide
  have second : utf16 "proof" < utf16 "v" := by decide
  have inner : utf16 "body" < utf16 "sig" := by decide
  have number : Writes 1 (.int 1) := writes_of_toBool (by decide)
  have blocks : Writes 1 (.arr (bodies.map (fun part => blockJson part.1 part.2))) := by
    refine writes_arr 1 (by decide) ?_
    intro item present
    obtain ⟨part, member, rfl⟩ := mem_map.mp present
    refine writes_obj 2 (by decide) (by simp [inner]) ?_
    simpa using ⟨each part member, writes_str (by decide)⟩
  refine writes_obj 0 (by decide) (by simp [first, second, first.trans second]) ?_
  simpa using ⟨blocks, writes_proofJson 1 (by decide) proof, number⟩

/-- A token is at most 2000 bytes longer than its bodies, and 900 for each. -/
theorem weight_tokenJson :
    weight (tokenJson (bodies.map (fun part => blockJson part.1 part.2)) proof) ≤
      (bodies.map (fun part => weight part.1 + 900)).sum + 2000 := by
  have names : "blocks".utf8ByteSize = 6 ∧ "proof".utf8ByteSize = 5 ∧ "v".utf8ByteSize = 1 ∧
      "body".utf8ByteSize = 4 ∧ "sig".utf8ByteSize = 3 ∧ "next_secret".utf8ByteSize = 11 ∧
      "seal".utf8ByteSize = 4 ∧ (toString (1 : Int)).utf8ByteSize = 1 := by decide
  obtain ⟨blocks, proofName, version, body, sig, secret, seal', one⟩ := names
  have signature (bytes : Signature) : (encode bytes.val).utf8ByteSize ≤ 128 := by
    have size := encode_size bytes.val
    rwa [bytes.property] at size
  have proofs : weight (proofJson proof) ≤ 900 := by
    cases proof with
    | nextSecret seed =>
      have size := encode_size seed.val
      rw [seed.property] at size
      simp only [proofJson, weight, weightMembers, secret]
      omega
    | sealed bytes =>
      have size := signature bytes
      simp only [proofJson, weight, weightMembers, seal']
      omega
  have items : weightItems (bodies.map (fun part => blockJson part.1 part.2)) ≤
      (bodies.map (fun part => weight part.1 + 900)).sum := by
    induction bodies with
    | nil => simp [weightItems]
    | cons part rest ih =>
      have size := signature part.2
      simp only [map_cons, weightItems, blockJson, weight, weightMembers, body, sig,
        sum_cons] at ih ⊢
      omega
  simp only [tokenJson, weight, weightMembers, blocks, proofName, version, one]
  omega

/-- Bodies that can be written and are together at most 6000 bytes long make a
token. -/
theorem encodeToken_bodies (law : ReadsCompact reader) (bodies : List (Json × Signature))
    (proof : Proof) (canonical : ∀ part ∈ bodies, Canonical part.1)
    (each : ∀ part ∈ bodies, Writes 3 part.1)
    (light : (bodies.map (fun part => weight part.1 + 900)).sum ≤ 6000) :
    encodeToken reader (bodies.map (fun part => (ofList (render part.1), part.2)))
      (proofText proof) = .ok (tokenOf bodies proof) := by
  have texts : ∀ part ∈ bodies.map (fun part => (ofList (render part.1), part.2)),
      CanonicalText part.1 := by
    intro part present
    obtain ⟨body, member, rfl⟩ := mem_map.mp present
    exact ⟨body.1, canonical body member, rfl⟩
  have items : (bodies.map (fun part => (ofList (render part.1), part.2))).map
      (itemOf reader) = bodies.map (fun part => blockJson part.1 part.2) := by
    rw [map_map]
    refine map_congr_left fun body member => ?_
    simp [itemOf, read_of_canonical law (canonical body member)]
  have settled : Canonical (tokenJson (bodies.map (fun part => blockJson part.1 part.2)) proof) := by
    refine canonical_of_writes (writes_tokenJson bodies proof each) (sorted_tokenJson proof ?_)
    intro item present
    obtain ⟨part, member, rfl⟩ := mem_map.mp present
    exact sorted_blockJson part.2 (canonical part member).2.1
  have text := tokenText_render law _ proof texts
  rw [rootOf, items] at text
  have small := render_size _ 8192 ((weight_tokenJson bodies proof).trans (by omega))
  have size := encode_size (utf8 (ofList (render
    (tokenJson (bodies.map (fun part => blockJson part.1 part.2)) proof))))
  rw [utf8_length] at size
  have short : (tokenOf bodies proof).utf8ByteSize ≤ maxTokenBytes :=
    size.trans (Nat.mul_le_mul_left 2 small)
  have written := canonicalize_of_canonical law settled (small.trans (by decide))
  rw [encodeToken, text, written]
  refine (bind_ok _ _ _).mpr ⟨_, rfl, (bind_ok _ _ _).mpr ⟨(), ?_, rfl⟩⟩
  exact (ensure_ok _ _ _ _).mpr short

/-- A written token is read as the chain it was written for. -/
theorem encodeToken_parses (law : ReadsCompact reader) {chain : Chain} {proof : Proof}
    {requireSealed : Bool} {token : String}
    (canonical : ∀ part ∈ chain, CanonicalText part.1) (nonempty : chain ≠ [])
    (short : chain.length ≤ maxBlocks) (sealing : requireSealed = true → isSealed proof = true)
    (read : parseBlocks reader true (chain.map (itemOf reader)) = .ok blocks)
    (encoded : encodeToken reader chain (proofText proof) = .ok token) :
    parseToken reader token requireSealed = .ok ⟨blocks, proof⟩ := by
  obtain ⟨shape, small, settled, size⟩ := encodeToken_ok law canonical encoded
  have decoded : decode token = .ok (utf8 (ofList (render (rootOf reader chain proof)))) := by
    rw [shape]
    exact decode_encode
  have text := (textOf_iff (utf8 (ofList (render (rootOf reader chain proof)))) _).mpr rfl
  have root := parseRoot_rootOf nonempty short sealing read
  simp [parseToken, bounded, ensure, if_pos small, decoded, recast, text,
    canonicalize_of_canonical law settled size, read_of_canonical law settled, root]

/-! ## Bodies -/

/-- The members of a body in the order in which they are appended. -/
def bodyMembers (caveats : Json) (nextPub : PublicKey) :
    Option (String × Profile × Int) → List (String × Json)
  | some (kid, profile, iat) =>
    [("caveats", caveats), ("iat", .int iat), ("kid", .str kid),
      ("profile", .str (profileName profile)), ("next_pub", .str (encode nextPub.val)), ("v", .int 1)]
  | none => [("caveats", caveats), ("next_pub", .str (encode nextPub.val)), ("v", .int 1)]

/-- The members of a body in canonical order. -/
def bodySorted (caveats : Json) (nextPub : PublicKey) :
    Option (String × Profile × Int) → List (String × Json)
  | some (kid, profile, iat) =>
    [("caveats", caveats), ("iat", .int iat), ("kid", .str kid),
      ("next_pub", .str (encode nextPub.val)), ("profile", .str (profileName profile)),
      ("v", .int 1)]
  | none => [("caveats", caveats), ("next_pub", .str (encode nextPub.val)), ("v", .int 1)]

theorem bodyText_render (caveats : Json) (nextPub : PublicKey)
    (head : Option (String × Profile × Int)) :
    "\x7b\"caveats\":" ++ ofList (render caveats) ++ headText head ++ ",\"next_pub\":" ++
        quoteBytes nextPub.val ++ ",\"v\":1\x7d" =
      ofList (render (.obj (bodyMembers caveats nextPub head))) := by
  have opening : "\x7b\"caveats\":".toList = '{' :: (quoted "caveats" ++ [':']) := by decide
  have issued : ",\"iat\":".toList = ',' :: (quoted "iat" ++ [':']) := by decide
  have issuer : ",\"kid\":".toList = ',' :: (quoted "kid" ++ [':']) := by decide
  have kind : ",\"profile\":".toList = ',' :: (quoted "profile" ++ [':']) := by decide
  have next : ",\"next_pub\":".toList = ',' :: (quoted "next_pub" ++ [':']) := by decide
  have closing : ",\"v\":1\x7d".toList =
      ',' :: (quoted "v" ++ ':' :: ((toString (1 : Int)).toList ++ ['}'])) := by decide
  apply String.toList_inj.mp
  cases head with
  | none =>
    simp only [bodyMembers, headText, String.toList_append, String.toList_ofList, quoteBytes, quote,
      opening, next, closing, render, renderMembers, renderMoreMembers]
    simp
  | some head =>
    obtain ⟨kid, profile, iat⟩ := head
    simp only [bodyMembers, headText, String.toList_append, String.toList_ofList, quoteBytes, quote,
      opening, issued, issuer, kind, next, closing, render, renderMembers, renderMoreMembers]
    simp

theorem sorted_body {caveats : Json} (settled : sorted caveats = caveats) (nextPub : PublicKey)
    (head : Option (String × Profile × Int)) :
    sorted (.obj (bodyMembers caveats nextPub head)) = .obj (bodySorted caveats nextPub head) := by
  cases head with
  | none =>
    have order : (bodyMembers caveats nextPub none).insertionSort Before =
        bodySorted caveats nextPub none :=
      insertionSort_members ["caveats", "next_pub", "v"] rfl (by decide) (List.Perm.refl _)
    simp only [sorted, sortedMembers, bodyMembers, settled] at order ⊢
    rw [order]
  | some head =>
    obtain ⟨kid, profile, iat⟩ := head
    have order : (bodyMembers caveats nextPub (some (kid, profile, iat))).insertionSort Before =
        bodySorted caveats nextPub (some (kid, profile, iat)) :=
      insertionSort_members ["caveats", "iat", "kid", "next_pub", "profile", "v"] rfl (by decide)
        (((List.Perm.swap _ _ _).cons _).cons _ |>.cons _)
    simp only [sorted, sortedMembers, bodyMembers, settled] at order ⊢
    rw [order]

/-- A body that was written is the compact text of its members in canonical
order. -/
theorem body_ok (law : ReadsCompact reader) {caveats : Caveats} (sound : Sound caveats)
    {nextPub : PublicKey} {head : Option (String × Profile × Int)}
    (issued : ∀ entry ∈ head, machine (.int entry.2.2) = true) {b : String}
    (written : body reader caveats nextPub head = .ok b) :
    Canonical (.obj (bodySorted (sorted (.obj (members caveats))) nextPub head)) ∧
      b = ofList
        (render (.obj (bodySorted (sorted (.obj (members caveats))) nextPub head))) := by
  simp only [body, bind_ok] at written
  obtain ⟨caveatsJson, json, canonicalized⟩ := written
  obtain ⟨settled, rfl⟩ := toJson_ok law sound json
  rw [bodyText_render] at canonicalized
  rw [← sorted_body settled.2.1 nextPub head]
  refine canonicalize_render law ?_ canonicalized
  have inner := machine_of_safe settled.2.2
  simp only [machine] at inner issued ⊢
  cases head with
  | none => simp [within, bodyMembers, withinMembers, inner]
  | some head =>
    have time := issued head rfl
    simp only [within] at time
    simp [within, bodyMembers, withinMembers, inner, time]

/-- A body that can be written is the compact text of its members in canonical
order. -/
theorem body_done (law : ReadsCompact reader) (caveats : Caveats) (value : Json)
    (written : toJson reader caveats = .ok (ofList (render value)))
    (settled : sorted value = value) (nextPub : PublicKey) (head : Option (String × Profile × Int))
    (inside : machine (.obj (bodyMembers value nextPub head)) = true)
    (light : weight (.obj (bodyMembers value nextPub head)) ≤ maxBytes)
    (writes : Writes 0 (.obj (bodyMembers value nextPub head))) :
    body reader caveats nextPub head =
      .ok (ofList (render (.obj (bodySorted value nextPub head)))) := by
  simp only [body, written, ok_bind, bodyText_render]
  rw [← sorted_body settled nextPub head]
  exact canonicalize_plain law inside (render_size _ _ light) writes

theorem parseProfile_profileName (profile : Profile) :
    parseProfile (profileName profile) = some profile := by
  cases profile <;> decide

/-- The block that a body is written for. -/
def blockOf (b : String) (caveats : Caveats) (nextPub : PublicKey) (sig : Signature) :
    Option (String × Profile × Int) → Block
  | some (kid, profile, iat) =>
    { bodyJson := b, caveats, nextPub, sig, kid, profile := some profile, iat }
  | none => { bodyJson := b, caveats, nextPub, sig }

/-- A block with a written body is read with the caveats and the key it was
written for. -/
theorem body_parses (law : ReadsCompact reader) {caveats : Caveats} (sound : Sound caveats)
    {nextPub : PublicKey} {head : Option (String × Profile × Int)}
    (issued : ∀ entry ∈ head, machine (.int entry.2.2) = true) {b : String}
    (written : body reader caveats nextPub head = .ok b) (small : b.utf8ByteSize ≤ maxBytes)
    (sig : Signature) :
    parseBlock reader head.isSome (itemOf reader (b, sig)) =
      .ok (blockOf b (single caveats) nextPub sig head) := by
  obtain ⟨canonical, shape⟩ := body_ok law sound issued written
  generalize form : Json.obj (bodySorted (sorted (.obj (members caveats))) nextPub head) = value
    at canonical shape
  have found := shape ▸ read_of_canonical law canonical
  have rewritten : write reader value = .ok b := by
    rw [write, canonicalize_of_canonical law canonical (shape ▸ small), ← shape]
  have readCaveats : bodyCaveats value = .ok (single caveats) := by
    rw [← parseCaveats_written caveats sound, ← form]
    cases head <;> simp [bodyCaveats, bodySorted, Json.get?]
  have item : itemOf reader (b, sig) = blockJson value sig := by
    simp [itemOf, found]
  have outer : parseBlock reader head.isSome (itemOf reader (b, sig)) =
      parseBody reader head.isSome value (encode sig.val) := by
    rw [item, ← form]
    simp [parseBlock, blockJson, Json.size, Json.get?]
  rw [outer]
  have version : value.get? "v" = some (.int 1) := by
    rw [← form]
    cases head <;> simp [bodySorted, Json.get?]
  have key : value.get? "next_pub" = some (.str (encode nextPub.val)) := by
    rw [← form]
    cases head <;> simp [bodySorted, Json.get?]
  have size : value.size = if head.isSome then 6 else 3 := by
    rw [← form]
    cases head <;> rfl
  simp only [parseBody, version, key, ensure, if_pos size, rewritten, readCaveats,
    decodeFixed_encode, recast, ok_bind, pure_eq]
  cases head with
  | none => rfl
  | some head =>
    have fields : parseHead value = .ok head := by
      rw [← form]
      simp [parseHead, bodySorted, Json.get?, parseProfile_profileName]
    simp [fields, blockOf]

/-! ## Tokens that the operations make -/

theorem moreTexts_size {texts : List String} {text : String} (present : text ∈ texts) :
    text.utf8ByteSize ≤ (moreTexts texts).utf8ByteSize := by
  induction texts with
  | nil => simp at present
  | cons first rest ih =>
    simp only [moreTexts, String.utf8ByteSize_append]
    rcases mem_cons.mp present with rfl | present
    · omega
    · have bound := ih present
      omega

theorem joinTexts_size (texts : List String) (text : String) (present : text ∈ texts) :
    text.utf8ByteSize ≤ (joinTexts texts).utf8ByteSize := by
  cases texts with
  | nil => simp at present
  | cons first rest =>
    simp only [joinTexts, String.utf8ByteSize_append]
    rcases mem_cons.mp present with rfl | present
    · omega
    · have bound := moreTexts_size present
      omega

/-- Every body of a written token is within the size limit of JSON texts. -/
theorem encodeToken_small {chain : Chain} {proofJson token : String}
    (encoded : encodeToken reader chain proofJson = .ok token) (part : String × Signature)
    (present : part ∈ chain) : part.1.utf8ByteSize ≤ maxBytes := by
  simp only [encodeToken, bind_ok] at encoded
  obtain ⟨text, canonicalized, _⟩ := encoded
  have whole := (canonicalize_ok canonicalized).1
  have joined := joinTexts_size (chain.map blockText) (blockText part) (mem_map_of_mem present)
  simp only [blockText, String.utf8ByteSize_append] at joined
  simp only [tokenText, String.utf8ByteSize_append] at whole
  omega

/-- A new block is read after the blocks before it. -/
theorem parseBlocks_snoc {first : Bool} (read : parseBlocks reader first items = .ok blocks)
    (last : parseBlock reader (first && items.isEmpty) item = .ok blk) :
    parseBlocks reader first (items ++ [item]) = .ok (blocks ++ [blk]) := by
  induction items generalizing first blocks with
  | nil =>
    obtain rfl : [] = blocks := by simpa [parseBlocks] using read
    simp only [isEmpty_nil, Bool.and_true] at last
    simp [parseBlocks, last]
  | cons head rest ih =>
    simp only [parseBlocks, bind_ok, pure_ok] at read
    obtain ⟨headBlock, readHead, more, readMore, rfl⟩ := read
    have later := ih readMore (by simpa using last)
    simp [parseBlocks, readHead, later]

/-- One more block after those that were read is read with the body and the key it was made
with. -/
theorem written_parses (law : ReadsCompact reader) (earlier : List Block)
    (canonicals : ∀ part ∈ chainOf earlier, CanonicalText part.1)
    (read : parseBlocks reader true ((chainOf earlier).map (itemOf reader)) = .ok earlier)
    (short : earlier.length + 1 ≤ maxBlocks) {added : Caveats} (sound : Sound added)
    {nextPub : PublicKey} {head : Option (String × Profile × Int)}
    (start : head.isSome = earlier.isEmpty)
    (issued : ∀ entry ∈ head, machine (.int entry.2.2) = true) {b : String} {sig : Signature}
    {proof : Proof} {token : String} (written : body reader added nextPub head = .ok b)
    (encoded : encodeToken reader (chainOf earlier ++ [(b, sig)]) (proofText proof) = .ok token) :
    parseToken reader token false =
      .ok ⟨earlier ++ [blockOf b (single added) nextPub sig head], proof⟩ := by
  have small := encodeToken_small encoded (b, sig) (by simp)
  have block := body_parses law sound issued written small sig
  obtain ⟨canonical, shape⟩ := body_ok law sound issued written
  refine encodeToken_parses law ?_ (by simp)
    (by simpa [chainOf] using short) (by simp) ?_ encoded
  · intro part present
    rcases mem_append.mp present with present | present
    · exact canonicals part present
    · obtain rfl := mem_singleton.mp present
      exact ⟨_, canonical, shape⟩
  · rw [map_append]
    refine parseBlocks_snoc read ?_
    simpa [chainOf, start] using block

/-- A token of one block is read with the body and the key it was made with. -/
theorem issued_parses (law : ReadsCompact reader) (caveats : Caveats) (sound : Sound caveats)
    (nextPub : PublicKey) (head : String × Profile × Int)
    (issued : machine (.int head.2.2) = true) (b : String) (sig : Signature) (proof : Proof)
    (token : String) (written : body reader caveats nextPub (some head) = .ok b)
    (encoded : encodeToken reader [(b, sig)] (proofText proof) = .ok token) :
    parseToken reader token false =
      .ok ⟨[blockOf b (single caveats) nextPub sig (some head)], proof⟩ := by
  have range : ∀ entry ∈ some head, machine (.int entry.2.2) = true := by
    rintro _ ⟨⟩
    exact issued
  exact written_parses law [] (by simp [chainOf]) rfl (by simp [maxBlocks]) sound rfl range written
    encoded

/-- The secret of a token that its holder may use. -/
theorem holderOf_ok {scheme : Scheme} {parsed : Parsed} {isSealed : String} {holder : Seed} :
    holderOf scheme parsed isSealed = .ok holder ↔ parsed.proof = .nextSecret holder ∧
      parsed.blocks.getLast?.map Block.nextPub = some (scheme.publicKey holder) := by
  unfold holderOf
  cases parsed.proof with
  | sealed signature => simp [fail]
  | nextSecret secret =>
    simp only [bind_ok, ensure_ok, pure_ok, exists_const, Proof.nextSecret.injEq]
    constructor
    · rintro ⟨last, rfl⟩
      exact ⟨rfl, last⟩
    · rintro ⟨rfl, last⟩
      exact ⟨last, rfl⟩

variable (scheme : Scheme)

/-- A minted token is read as one block signed by the issuer. -/
theorem mint_ok (law : ReadsCompact reader) {kid : String} {issuer : Seed} {profile : Profile}
    {iat : Int} (issued : machine (.int iat) = true) {caveatsJson : String} {nextSeed : Seed}
    {token : String}
    (minted : mint reader scheme kid issuer profile iat caveatsJson nextSeed = .ok token) :
    ∃ blk signed, parseToken reader token false = .ok ⟨[blk], .nextSecret nextSeed⟩ ∧
      blk.nextPub = scheme.publicKey nextSeed ∧ blk.profile = some profile ∧
      profile ≠ .membership ∧ message reader .lct 1 blk.bodyJson = .ok signed ∧
      blk.sig = scheme.sign issuer signed := by
  simp only [mint, bind_ok, ensure_ok, exists_const] at minted
  obtain ⟨allowed, _, caveats, read, _, _, _, _, _, b, written, sig, signing, encoded⟩ := minted
  have sound := parseCaveatsText_sound law read
  obtain ⟨_, signed, found, made⟩ := (sign_ok scheme .lct 1 b .custody issuer sig).mp signing
  exact ⟨_, signed, issued_parses law caveats sound _ _ issued b sig (.nextSecret nextSeed) token
    written encoded, rfl, rfl, allowed, found, made.symm⟩

/-- A minting whose checks all pass writes one block. -/
theorem mint_done (kid : String) (issuer : Seed) (profile : Profile) (iat : Int)
    (caveatsJson : String) (nextSeed : Seed) (caveats : Caveats) (b : String) (sig : Signature)
    (kind : profile ≠ .membership) (named : kid ≠ "")
    (read : parseCaveatsText reader caveatsJson = .ok caveats) (exp : caveats.exp.isSome = true)
    (issued : checkIssued profile caveats = .ok ()) (minted : checkMinted profile caveats = .ok ())
    (written : body reader caveats (scheme.publicKey nextSeed) (some (kid, profile, iat)) = .ok b)
    (signing : sign reader scheme .lct 1 b .custody issuer = .ok sig) :
    mint reader scheme kid issuer profile iat caveatsJson nextSeed =
      encodeToken reader [(b, sig)] (proofText (.nextSecret nextSeed)) := by
  simp [mint, ensure, if_pos kind, if_pos named, read, exp, issued, minted, written, signing,
    proofText]

/-- A token with one more block is read with the body and the key it was made
with. -/
theorem extended_parses (law : ReadsCompact reader) {token : String} {parsed : Parsed}
    (read : parseToken reader token false = .ok parsed) {added : Caveats} (sound : Sound added)
    {nextPub : PublicKey} {b : String} {sig : Signature} {proof : Proof} {token' : String}
    (written : body reader added nextPub none = .ok b)
    (short : parsed.blocks.length + 1 ≤ maxBlocks)
    (encoded : encodeToken reader (chainOf parsed.blocks ++ [(b, sig)]) (proofText proof) =
      .ok token') :
    parseToken reader token' false =
      .ok ⟨parsed.blocks ++ [blockOf b (single added) nextPub sig none], proof⟩ := by
  obtain ⟨_, canonicals, blocks, nonempty, _⟩ := parseToken_ok law token false parsed read
  exact written_parses law parsed.blocks canonicals blocks short sound (by simpa using nonempty)
    (by simp) written encoded

/-- An attenuated token is the old chain with one block signed by the holder. -/
theorem attenuate_ok (law : ReadsCompact reader) {token caveatsJson : String} {nextSeed : Seed}
    {token' : String}
    (attenuated : attenuate reader scheme token caveatsJson nextSeed = .ok token') :
    ∃ parsed holder blk signed, parseToken reader token false = .ok parsed ∧
      parsed.proof = .nextSecret holder ∧
      parsed.blocks.getLast?.map Block.nextPub = some (scheme.publicKey holder) ∧
      parseToken reader token' false = .ok ⟨parsed.blocks ++ [blk], .nextSecret nextSeed⟩ ∧
      blk.nextPub = scheme.publicKey nextSeed ∧ message reader .lct 1 blk.bodyJson = .ok signed ∧
      blk.sig = scheme.sign holder signed := by
  simp only [attenuate, bind_ok, bounded, ensure_ok, exists_const] at attenuated
  obtain ⟨parsed, read, holder, held, short, effective, _, added, readAdded, _, _, b, written, sig,
    signing, encoded⟩ := attenuated
  obtain ⟨proof, last⟩ := holderOf_ok.mp held
  have sound := parseCaveatsText_sound law readAdded
  obtain ⟨_, signed, found, made⟩ := (sign_ok scheme .lct 1 b .holder holder sig).mp signing
  exact ⟨parsed, holder, blockOf b (single added) (scheme.publicKey nextSeed) sig none, signed, read,
    proof, last, extended_parses law read sound
      written short encoded, rfl, found, made.symm⟩

/-- A sealed token is the old chain with a seal made by the holder. -/
theorem sealToken_ok (law : ReadsCompact reader) {token token' : String}
    (done : sealToken reader scheme token = .ok token') :
    ∃ parsed holder signature signed, parseToken reader token false = .ok parsed ∧
      parsed.proof = .nextSecret holder ∧
      parsed.blocks.getLast?.map Block.nextPub = some (scheme.publicKey holder) ∧
      (∀ requireSealed, parseToken reader token' requireSealed =
        .ok ⟨parsed.blocks, .sealed signature⟩) ∧
      message reader .lct 1 (sealPayload (chainOf parsed.blocks)) = .ok signed ∧
      signature = scheme.sign holder signed := by
  simp only [sealToken, bind_ok] at done
  obtain ⟨parsed, read, holder, held, sig, signing, encoded⟩ := done
  obtain ⟨proof, last⟩ := holderOf_ok.mp held
  obtain ⟨_, canonicals, blocks, nonempty, short⟩ := parseToken_ok law token false parsed read
  obtain ⟨_, signed, found, made⟩ := (sign_ok scheme .lct 1 _ .holder holder sig).mp signing
  refine ⟨parsed, holder, sig, signed, read, proof, last, ?_, found, made.symm⟩
  intro requireSealed
  exact encodeToken_parses law
    canonicals (by simpa [chainOf] using nonempty) (by simpa [chainOf] using short)
    (fun _ => rfl) blocks encoded

/-- An attenuation whose checks all pass writes one more block. -/
theorem attenuate_done (token caveatsJson : String) (nextSeed holder : Seed) (parsed : Parsed)
    (effective added narrowed : Caveats) (b : String) (sig : Signature)
    (read : parseToken reader token false = .ok parsed) (proof : parsed.proof = .nextSecret holder)
    (last : parsed.blocks.getLast?.map Block.nextPub = some (scheme.publicKey holder))
    (short : parsed.blocks.length + 1 ≤ maxBlocks)
    (whole : intersection parsed.blocks = .ok effective)
    (readAdded : parseCaveatsText reader caveatsJson = .ok added)
    (narrowing : narrow effective added = .ok narrowed)
    (written : body reader added (scheme.publicKey nextSeed) none = .ok b)
    (signing : sign reader scheme .lct 1 b .holder holder = .ok sig) :
    attenuate reader scheme token caveatsJson nextSeed =
      encodeToken reader (chainOf parsed.blocks ++ [(b, sig)]) (proofText (.nextSecret nextSeed)) := by
  have held (isSealed : String) : holderOf scheme parsed isSealed = .ok holder :=
    holderOf_ok.mpr ⟨proof, last⟩
  simp only [attenuate, read, held, bounded, ensure, if_pos short, whole, readAdded, narrowing,
    written, signing, ok_bind, proofText]

/-- A sealing whose checks all pass writes the same blocks. -/
theorem seal_done {token : String} {holder : Seed} {parsed : Parsed} {sig : Signature}
    (read : parseToken reader token false = .ok parsed) (proof : parsed.proof = .nextSecret holder)
    (last : parsed.blocks.getLast?.map Block.nextPub = some (scheme.publicKey holder))
    (signing : sign reader scheme .lct 1 (sealPayload (chainOf parsed.blocks)) .holder holder =
      .ok sig) :
    sealToken reader scheme token =
      encodeToken reader (chainOf parsed.blocks) (proofText (.sealed sig)) := by
  have held (isSealed : String) : holderOf scheme parsed isSealed = .ok holder :=
    holderOf_ok.mpr ⟨proof, last⟩
  simp [sealToken, read, held, signing, proofText]

end Laws

end Synergos.LctText
