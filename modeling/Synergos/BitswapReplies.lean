import Synergos.Gossip

/-!
# The replies of a bitswap server

A reply is a magic and a sequence of frames, each with its length in four bytes,
up to the end of the stream. The client reads one frame after another and keeps
every response until the stream ends; it does not count them against the blocks
it has asked for.

The bytes of a reply arrive in any pieces: a read gets what is there, up to the
room it has. What is sent to the server is left out.
-/

namespace Synergos.BitswapReplies

open Envelope ByteText Identity Gossip List

/-! ### Reading pieces -/

/-- Read into a buffer until it is full or nothing is left; each piece is what one read
finds, which is nothing only at the end. -/
def fill (room : Nat) : List (List UInt8) → List UInt8 × List (List UInt8)
  | [] => ([], [])
  | piece :: rest =>
    if room ≤ piece.length then (piece.take room, piece.drop room :: rest)
    else
      let more := fill (room - piece.length) rest
      (piece ++ more.1, more.2)

/-- How the bytes are split among the reads makes no difference. -/
theorem fill_eq (room : Nat) (pieces : List (List UInt8)) :
    (fill room pieces).1 = pieces.flatten.take room ∧
      (fill room pieces).1 ++ (fill room pieces).2.flatten = pieces.flatten := by
  induction pieces generalizing room with
  | nil => simp [fill]
  | cons piece rest ih =>
    by_cases enough : room ≤ piece.length
    · simp [fill, enough, take_append_of_le_length, ← append_assoc]
    · obtain ⟨taken, whole⟩ := ih (room - piece.length)
      have short : piece.length ≤ room := by omega
      simp [fill, if_neg enough, flatten_cons, take_append, take_of_length_le short, whole, ← taken]

/-- A buffer for the first part of what is left gets exactly that part. -/
theorem fill_part {part more : List UInt8} {pieces : List (List UInt8)}
    (bytes : pieces.flatten = part ++ more) :
    ∃ rest, fill part.length pieces = (part, rest) ∧ rest.flatten = more := by
  obtain ⟨taken, whole⟩ := fill_eq part.length pieces
  rw [bytes, take_left] at taken
  rw [bytes, taken] at whole
  exact ⟨_, Prod.ext taken rfl, append_cancel_left whole⟩

/-! ### The client -/

def bitswapStreamMagic : List UInt8 := utf8 "BSW1"

def maxBitswapFrame : Nat := 16 * 1024 * 1024

def maxWantlistLen : Nat := 1024

inductive BitswapResponse where
  | block (cid : Cid) (bytes : List UInt8)
  | notFound (cid : Cid)
  | hasBlock (cid : Cid)
  | dontHave (cid : Cid)

/-- The number that the four bytes of a length stand for. -/
def frameLen (len : List UInt8) : Nat := len.foldl (fun n byte => n * 256 + byte.toNat) 0

/-- A frame with its length as it was read. -/
structure Frame where
  len : List UInt8
  body : List UInt8
  four : len.length = 4
  sized : body.length = frameLen len
  small : body.length ≤ maxBitswapFrame

def Frame.bytes (frame : Frame) : List UInt8 := frame.len ++ frame.body

/-- The next frame, or none where the stream ends. After its last piece a stream ends or
fails with an error. -/
def readFrameBody (ending : Option String) (pieces : List (List UInt8)) :
    Except SynergosNetError (Option (Frame × List (List UInt8))) :=
  let len := fill 4 pieces
  if four : len.1.length = 4 then
    if large : maxBitswapFrame < frameLen len.1 then
      .error (.serialization ("bitswap response frame too large: " ++ toString (frameLen len.1)))
    else
      let body := fill (frameLen len.1) len.2
      if sized : body.1.length = frameLen len.1 then
        .ok (some (⟨len.1, body.1, four, sized, sized.trans_le (Nat.not_lt.mp large)⟩, body.2))
      else .error (.quic ("bitswap read response body: " ++ ending.getD "stream finished early"))
  else match ending with
    | some error => .error (.quic ("bitswap read response len: " ++ error))
    | none =>
      if len.1.length = 0 then .ok none
      else .error (.quic ("bitswap truncated response len (read " ++ toString len.1.length ++
        "/4 before EOF)"))

theorem readFrameBody_ok {ending : Option String} {pieces rest : List (List UInt8)} {frame : Frame}
    (read : readFrameBody ending pieces = .ok (some (frame, rest))) :
    pieces.flatten = frame.bytes ++ rest.flatten := by
  have first := (fill_eq 4 pieces).2
  have second := (fill_eq (frameLen (fill 4 pieces).1) (fill 4 pieces).2).2
  unfold readFrameBody at read
  dsimp only at read
  split_ifs at read with four large sized
  · obtain ⟨rfl, rfl⟩ := Prod.mk.inj (Option.some.inj (Except.ok.inj read))
    change _ = (_ ++ _) ++ _
    rw [append_assoc, second, first]
  all_goals split at read <;> cases read

theorem readFrameBody_of_bytes (ending : Option String) {pieces : List (List UInt8)} {frame : Frame}
    {more : List UInt8} (bytes : pieces.flatten = frame.bytes ++ more) :
    ∃ rest, readFrameBody ending pieces = .ok (some (frame, rest)) ∧ rest.flatten = more := by
  obtain ⟨len, body, four, sized, small⟩ := frame
  rw [Frame.bytes, append_assoc] at bytes
  obtain ⟨pieces', first, bytes'⟩ := fill_part bytes
  obtain ⟨rest, second, left⟩ := fill_part bytes'
  rw [four] at first
  rw [sized] at second small
  refine ⟨rest, ?_, left⟩
  simp [readFrameBody, first, second, dif_pos four, dif_neg (Nat.not_lt.mpr small), dif_pos sized]

section Client

variable (decode : List UInt8 → Except String BitswapResponse)

/-- What became of a request: the answer, the frames that were read, and the most frames
held at once. -/
structure Reading where
  result : Except SynergosNetError (List BitswapResponse)
  frames : List Frame
  peak : Nat

/-- The loop of the client; the responses so far are kept. -/
def receive (ending : Option String) (pieces : List (List UInt8)) (out : List BitswapResponse) :
    Reading :=
  match _read : readFrameBody ending pieces with
  | .error error => ⟨.error error, [], out.length⟩
  | .ok none => ⟨.ok out, [], out.length⟩
  | .ok (some (frame, rest)) =>
    match decode frame.body with
    | .error text =>
      ⟨.error (.serialization ("bitswap resp decode: " ++ text)), [frame], out.length + 1⟩
    | .ok resp =>
      let later := receive ending rest (out ++ [resp])
      ⟨later.result, frame :: later.frames, max (out.length + 1) later.peak⟩
termination_by pieces.flatten.length
decreasing_by
  rw [readFrameBody_ok _read, length_append, Frame.bytes, length_append, frame.four]
  omega

/-- Ask for the blocks; the request has been sent or not. -/
def requestMany (cids : List Cid) (sent : Except SynergosNetError Unit) (ending : Option String)
    (pieces : List (List UInt8)) : Reading :=
  if cids = [] then ⟨.ok [], [], 0⟩
  else if maxWantlistLen < cids.length then
    ⟨.error (.serialization ("bitswap wantlist too large: " ++ toString cids.length ++ " > 1024")),
      [], 0⟩
  else match sent with
    | .error error => ⟨.error error, [], 0⟩
    | .ok () =>
      let magic := fill 4 pieces
      if magic.1.length < 4 then
        ⟨.error (.quic ("bitswap read magic: " ++ ending.getD "stream finished early")), [], 0⟩
      else if magic.1 ≠ bitswapStreamMagic then
        ⟨.error (.serialization "bitswap response magic mismatch"), [], 0⟩
      else receive decode ending magic.2 []

/-! ### How much is read -/

/-- The bytes start with at least that many frames, and all but the last of them can be
decoded. -/
def Starts (bytes : List UInt8) (count : Nat) : Prop :=
  ∃ frames : List Frame, ∃ rest, count ≤ frames.length ∧
    (∀ frame ∈ frames.dropLast, (decode frame.body).isOk = true) ∧
    bytes = frames.flatMap Frame.bytes ++ rest

/-- The request goes out and its reply has the right magic; the frames follow. -/
def Answered (cids : List Cid) (sent : Except SynergosNetError Unit) (bytes reply : List UInt8) :
    Prop :=
  cids ≠ [] ∧ cids.length ≤ maxWantlistLen ∧ sent = .ok () ∧ bytes = bitswapStreamMagic ++ reply

variable {decode}

theorem starts_receive (ending : Option String) (pieces : List (List UInt8))
    (out : List BitswapResponse) :
    Starts decode pieces.flatten (receive decode ending pieces out).frames.length := by
  fun_induction receive decode ending pieces out with
  | case1 | case2 => exact ⟨[], _, Nat.le_refl 0, by simp, rfl⟩
  | case3 pieces out frame rest read text bad =>
    exact ⟨[frame], rest.flatten, Nat.le_refl 1, by simp, by simpa using readFrameBody_ok read⟩
  | case4 pieces out frame rest read resp good later ih =>
    obtain ⟨frames, more, count, goods, bytes⟩ := ih
    refine ⟨frame :: frames, more, Nat.succ_le_succ count, ?_, by simp [readFrameBody_ok read, bytes]⟩
    cases frames with
    | nil => simp
    | cons next others => simpa [good, Except.isOk, Except.toBool] using goods

/-- No frame that the reply starts with is left out. -/
theorem length_le_receive (ending : Option String) (frames : List Frame) {rest : List UInt8}
    (good : ∀ frame ∈ frames.dropLast, (decode frame.body).isOk = true)
    {pieces : List (List UInt8)} (bytes : pieces.flatten = frames.flatMap Frame.bytes ++ rest)
    (out : List BitswapResponse) :
    frames.length ≤ (receive decode ending pieces out).frames.length := by
  induction frames generalizing pieces out with
  | nil => exact Nat.zero_le _
  | cons frame frames ih =>
    rw [flatMap_cons, append_assoc] at bytes
    obtain ⟨left, read, bytes'⟩ := readFrameBody_of_bytes ending bytes
    unfold receive
    split
    case h_1 failed =>
      simp [read] at failed
    case h_2 ended =>
      simp [read] at ended
    case h_3 found =>
      rw [read] at found
      obtain ⟨rfl, rfl⟩ := Prod.mk.inj (Option.some.inj (Except.ok.inj found))
      cases frames with
      | nil => split <;> exact Nat.le_add_left 1 _
      | cons next others =>
        have decoded := good frame (by simp)
        split
        case h_1 bad => simp [bad, Except.isOk, Except.toBool] at decoded
        case h_2 resp _ =>
          refine Nat.succ_le_succ (ih (fun other member => good other ?_) bytes' (out ++ [resp]))
          exact mem_cons_of_mem _ member

theorem receive_peak (ending : Option String) (pieces : List (List UInt8))
    (out : List BitswapResponse) : (receive decode ending pieces out).peak =
      out.length + (receive decode ending pieces out).frames.length := by
  fun_induction receive decode ending pieces out with
  | case1 | case2 | case3 => rfl
  | case4 pieces out frame rest read resp good later ih =>
    have kept : later.peak = out.length + 1 + later.frames.length := by simpa [later] using ih
    simp only [length_cons, kept]
    omega

theorem requestMany_cases (cids : List Cid) (sent : Except SynergosNetError Unit)
    (ending : Option String) (pieces : List (List UInt8)) :
    (∃ rest, requestMany decode cids sent ending pieces = receive decode ending rest [] ∧
      Answered cids sent pieces.flatten rest.flatten) ∨
    (requestMany decode cids sent ending pieces).frames = [] ∧
      (requestMany decode cids sent ending pieces).peak = 0 ∧
      ∀ reply, ¬ Answered cids sent pieces.flatten reply := by
  obtain ⟨taken, whole⟩ := fill_eq 4 pieces
  unfold requestMany
  split_ifs with none long
  · exact .inr ⟨rfl, rfl, fun _ answered => answered.1 none⟩
  · exact .inr ⟨rfl, rfl, fun _ answered => absurd answered.2.1 (by omega)⟩
  cases sent with
  | error error => exact .inr ⟨rfl, rfl, fun _ answered => nomatch answered.2.2.1⟩
  | ok =>
    have magic : ∀ reply, Answered cids (.ok ()) pieces.flatten reply →
        (fill 4 pieces).1 = bitswapStreamMagic := by
      rintro reply ⟨_, _, _, bytes⟩
      rw [taken, bytes]
      exact take_left' rfl
    dsimp only
    split_ifs with short wrong
    · refine .inr ⟨rfl, rfl, fun reply answered => ?_⟩
      rw [magic reply answered] at short
      exact absurd short (by decide)
    · exact .inr ⟨rfl, rfl, fun reply answered => wrong (magic reply answered)⟩
    · rw [not_not] at wrong
      exact .inl ⟨_, rfl, none, Nat.not_lt.mp long, rfl, by rw [← whole, wrong]⟩

/-- The client reads as many frames as follow the magic. -/
theorem le_frames_iff (cids : List Cid) (sent : Except SynergosNetError Unit)
    (ending : Option String) (pieces : List (List UInt8)) (count : Nat) :
    count ≤ (requestMany decode cids sent ending pieces).frames.length ↔ count = 0 ∨
      ∃ reply, Answered cids sent pieces.flatten reply ∧ Starts decode reply count := by
  rcases @requestMany_cases decode cids sent ending pieces with ⟨rest, same, answered⟩ |
    ⟨none, _, unanswered⟩
  · rw [same]
    constructor
    · intro le
      obtain ⟨frames, more, read, starts⟩ := @starts_receive decode ending rest []
      exact .inr ⟨_, answered, frames, more, le.trans read, starts⟩
    · rintro (rfl | ⟨reply, ⟨_, _, _, bytes⟩, frames, more, sent, good, rfl⟩)
      · exact Nat.zero_le _
      · have left := append_cancel_left (answered.2.2.2.symm.trans bytes)
        exact sent.trans (length_le_receive ending frames good left [])
  · rw [none, length_nil, Nat.le_zero]
    refine ⟨.inl, fun either => either.resolve_right ?_⟩
    exact fun ⟨reply, answered, _⟩ => unanswered reply answered

/-- The client reads the frames that follow the magic up to the first that cannot be decoded,
however many there are, and holds them all; each has at most the length of a frame. -/
theorem frames_read_iff_sent (cids : List Cid) (sent : Except SynergosNetError Unit)
    (ending : Option String) (pieces : List (List UInt8)) (count : Nat) :
    let reading := requestMany decode cids sent ending pieces
    (count ≤ reading.frames.length ↔ count = 0 ∨
      ∃ reply, Answered cids sent pieces.flatten reply ∧ Starts decode reply count) ∧
    reading.peak = reading.frames.length ∧
    ∀ frame ∈ reading.frames, frame.body.length ≤ maxBitswapFrame := by
  refine ⟨le_frames_iff cids sent ending pieces count, ?_, fun frame _ => frame.small⟩
  rcases @requestMany_cases decode cids sent ending pieces with ⟨rest, same, _⟩ | ⟨none, peak, _⟩
  · simp [same, receive_peak]
  · simp [none, peak]

end Client

/-- A response about one block that could not be found. -/
def emptyFrame : Frame := ⟨[0, 0, 0, 0], [], rfl, rfl, Nat.zero_le _⟩

/-- For one block a server can make the client read and hold any number of frames. -/
theorem replies_unbounded : ∃ cids : List Cid, ¬ ∃ constant, ∀ pieces,
    let reading := requestMany (fun _ => .ok (.notFound "c")) cids (.ok ()) none pieces
    reading.frames.length ≤ cids.length + constant ∧ reading.peak ≤ cids.length + 1 := by
  refine ⟨["c"], fun ⟨constant, bounded⟩ => ?_⟩
  let frames := List.replicate (constant + 2) emptyFrame
  have starts : Starts (fun _ => .ok (.notFound "c")) (frames.flatMap Frame.bytes)
      (constant + 2) := ⟨frames, [], by simp [frames], fun _ _ => rfl, by simp⟩
  have read := (@le_frames_iff (fun _ => .ok (.notFound "c")) ["c"] (.ok ()) none
    [bitswapStreamMagic ++ frames.flatMap Frame.bytes] (constant + 2)).mpr
    (.inr ⟨_, ⟨by simp, by decide, rfl, by simp⟩, starts⟩)
  have short := (bounded [bitswapStreamMagic ++ frames.flatMap Frame.bytes]).1
  simp only [length_singleton] at short
  omega

end Synergos.BitswapReplies
