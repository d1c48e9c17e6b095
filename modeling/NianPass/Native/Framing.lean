import NianPass.Native.Protocol
import NianPass.Lib.Endian
import NianPass.Lib.Loop
import NianPass.Lib.Reader

/-
  The frames of `framing.rs` as bytes: four bytes with the length, in the byte order
  of the machine, and the payload.

  `Protocol` reads a frame that is already cut out of the stream. Here `read_frame`
  cuts it out of a `Reader`, which hands its bytes out in pieces of its own choice and
  may fail at any point. Messages are of any type with a `validate`, as in the source;
  `SerdeJson` is what `serde_json` makes of them, with the one law that it reads what
  it wrote.

  `readFrame_front` and `readFrame_ok` say that reading a frame off the front of the
  stream succeeds exactly if one is there. From this `framing_round_trip`: a sequence of
  messages arrives as it was written, however the bytes are cut, and a stream that is cut
  off inside a frame or announces an impossible length brings no message.
-/
namespace NianPass.NativeProtocol

abbrev Bytes := List UInt8

/-- `trait Validate`. -/
class Validate (α : Type) where
  validate : α → Except ProtocolError Unit

instance : Validate BrowserRequest := ⟨BrowserRequest.validate⟩
instance : Validate BrowserResponse := ⟨BrowserResponse.validate⟩

/-- `serde_json::to_vec` and `serde_json::from_slice` for one type of message. -/
structure SerdeJson (α : Type) where
  toVec : α → Option Bytes
  fromSlice : Bytes → Option α
  fromSlice_toVec : ∀ message payload, toVec message = some payload →
    fromSlice payload = some message

/-- What `to_ne_bytes` depends on. -/
inductive ByteOrder where
  | big
  | little
deriving DecidableEq

namespace ByteOrder

/-- `u32::to_ne_bytes`. -/
def toNeBytes : ByteOrder → Nat → Bytes
  | big, value => Endian.toBytes 4 value
  | little, value => (Endian.toBytes 4 value).reverse

/-- `u32::from_ne_bytes`. -/
def fromNeBytes : ByteOrder → Bytes → Nat
  | big, bytes => Endian.ofBytes bytes
  | little, bytes => Endian.ofBytes bytes.reverse

@[simp] theorem length_toNeBytes (order : ByteOrder) (value : Nat) :
    (order.toNeBytes value).length = 4 := by
  cases order <;> simp [toNeBytes]

theorem fromNeBytes_toNeBytes {order : ByteOrder} {value : Nat} (h : value < 256 ^ 4) :
    order.fromNeBytes (order.toNeBytes value) = value := by
  cases order with
  | big => exact Endian.ofBytes_toBytes_of_lt h
  | little => rw [toNeBytes, fromNeBytes, List.reverse_reverse, Endian.ofBytes_toBytes_of_lt h]

theorem toNeBytes_fromNeBytes {order : ByteOrder} {bytes : Bytes} (h : bytes.length = 4) :
    order.toNeBytes (order.fromNeBytes bytes) = bytes := by
  cases order with
  | big =>
    have := Endian.toBytes_ofBytes bytes
    rwa [h] at this
  | little =>
    have := Endian.toBytes_ofBytes bytes.reverse
    rw [List.length_reverse, h] at this
    rw [fromNeBytes, toNeBytes, this, List.reverse_reverse]

end ByteOrder

namespace Framing

inductive StreamError where
  | io (error : ReadError)
  | frame (error : FrameError)
deriving DecidableEq

/-! ## Reading and writing -/

def readFrame (order : ByteOrder) (reader : Reader) :
    Except StreamError (Option Bytes) × Reader :=
  match reader.read 1 with
  | (.ok [], reader) => (.ok none, reader)
  | (.error error, reader) => (.error (.io error), reader)
  | (.ok first, reader) =>
    match reader.readExact 3 with
    | (.error error, reader) => (.error (.io error), reader)
    | (.ok rest, reader) =>
      let declared := order.fromNeBytes (first ++ rest)
      if declared = 0 then (.error (.frame .empty), reader)
      else if MAX_FRAME_BYTES < declared then (.error (.frame .oversized), reader)
      else match reader.readExact declared with
        | (.error error, reader) => (.error (.io error), reader)
        | (.ok payload, reader) => (.ok (some payload), reader)

section Messages
variable {α : Type} [Validate α] (serde : SerdeJson α) (order : ByteOrder)

def readMessage (reader : Reader) : Except StreamError (Option α) × Reader :=
  match readFrame order reader with
  | (.error error, reader) => (.error error, reader)
  | (.ok none, reader) => (.ok none, reader)
  | (.ok (some payload), reader) =>
    match serde.fromSlice payload with
    | none => (.error (.frame .invalidJson), reader)
    | some message =>
      match Validate.validate message with
      | .error _ => (.error (.frame .invalidProtocol), reader)
      | .ok _ => (.ok (some message), reader)

omit [Validate α] in
/-- The bytes that `write_message` puts out, on a writer that takes them. -/
def writeMessage (message : α) : Except FrameError Bytes :=
  match serde.toVec message with
  | none => .error .invalidJson
  | some payload =>
    if payload.isEmpty then .error .empty
    else if MAX_FRAME_BYTES < payload.length then .error .oversized
    -- `u32::try_from`
    else if 2 ^ 32 ≤ payload.length then .error .oversized
    else .ok (order.toNeBytes payload.length ++ payload)

/-- Reading again and again gives these messages, and then the end of the stream. -/
def Delivers : Reader → List α → Prop
  | reader, [] => ∃ last, readMessage serde order reader = (.ok none, last)
  | reader, message :: rest => ∃ later, readMessage serde order reader = (.ok (some message), later) ∧
    Delivers later rest

/-- No message and no clean end either. -/
def Refuses (reader : Reader) : Prop :=
  ∃ error later, readMessage serde order reader = (.error error, later)

end Messages

/-! ## One frame -/

section Frames
variable {order : ByteOrder} {reader later : Reader} {payload : Bytes}

/-- The first byte of a reader that does not fail. -/
theorem read_quiet {byte : UInt8} {rest : Bytes} (hquiet : reader.Quiet)
    (hbytes : reader.bytes = byte :: rest) :
    ∃ later, reader.read 1 = (.ok [byte], later) ∧ later.bytes = rest ∧ later.Quiet := by
  cases reader with
  | nil => cases hbytes
  | cons piece tail =>
    cases piece with
    | data first more =>
      obtain ⟨rfl, hrest⟩ := List.cons.inj hbytes
      exact ⟨Reader.before more tail, rfl, by rw [Reader.bytes_before]; exact hrest,
        hquiet.tail.before⟩
    | failed error => exact absurd List.mem_cons_self (hquiet error)

/-- A frame at the front of the stream is read, and the stream goes on behind it. -/
theorem readFrame_front {rest : Bytes} (hquiet : reader.Quiet) (hpos : 0 < payload.length)
    (hmax : payload.length ≤ MAX_FRAME_BYTES)
    (hbytes : reader.bytes = order.toNeBytes payload.length ++ (payload ++ rest)) :
    ∃ later, readFrame order reader = (.ok (some payload), later) ∧ later.bytes = rest ∧
      later.Quiet := by
  have hfits : payload.length < 256 ^ 4 := lt_of_le_of_lt hmax (by decide)
  obtain ⟨byte, header, hheader⟩ : ∃ byte header, order.toNeBytes payload.length = byte :: header :=
    List.exists_cons_of_length_eq_add_one (order.length_toNeBytes payload.length)
  have hlength : header.length = 3 := by
    have := congrArg List.length hheader
    rw [ByteOrder.length_toNeBytes, List.length_cons] at this
    omega
  rw [hheader, List.cons_append] at hbytes
  obtain ⟨reader₁, hfirst, hbytes₁, hquiet₁⟩ := read_quiet hquiet hbytes
  obtain ⟨reader₂, hprefix, hbytes₂, hquiet₂⟩ :=
    @Reader.readExact_quiet reader₁ 3 hquiet₁ (by rw [hbytes₁]; simp [hlength])
  rw [hbytes₁, List.take_left' hlength] at hprefix
  rw [hbytes₁, List.drop_left' hlength] at hbytes₂
  obtain ⟨reader₃, hpayload, hbytes₃, hquiet₃⟩ :=
    @Reader.readExact_quiet reader₂ payload.length hquiet₂ (by rw [hbytes₂]; simp)
  rw [hbytes₂, List.take_left' rfl] at hpayload
  rw [hbytes₂, List.drop_left' rfl] at hbytes₃
  have hdeclared : order.fromNeBytes ([byte] ++ header) = payload.length := by
    rw [List.singleton_append, ← hheader, ByteOrder.fromNeBytes_toNeBytes hfits]
  refine ⟨reader₃, ?_, hbytes₃, hquiet₃⟩
  unfold readFrame
  simp only [hfirst, hprefix, hdeclared, hpayload]
  rw [if_neg (by omega), if_neg (by omega)]

/-- What is read as a frame is the frame at the front of the stream. -/
theorem readFrame_ok (h : readFrame order reader = (.ok (some payload), later)) :
    reader.bytes = order.toNeBytes payload.length ++ (payload ++ later.bytes) ∧
      0 < payload.length ∧ payload.length ≤ MAX_FRAME_BYTES := by
  unfold readFrame at h
  split at h
  · cases (Prod.mk.inj h).1
  · cases (Prod.mk.inj h).1
  · case h_3 first reader₁ hne hfirst =>
    split at h
    · cases (Prod.mk.inj h).1
    · case h_2 rest reader₂ hrest =>
      dsimp only at h
      split at h
      · cases (Prod.mk.inj h).1
      split at h
      · cases (Prod.mk.inj h).1
      split at h
      · cases (Prod.mk.inj h).1
      · case h_2 hzero hmax found reader₃ hpayload =>
        obtain ⟨hfound, rfl⟩ := Prod.mk.inj h
        cases hfound
        obtain ⟨hbytes₁, hle⟩ := Reader.read_ok hfirst
        obtain ⟨hbytes₂, hthree⟩ := Reader.readExact_ok hrest
        obtain ⟨hbytes₃, hlength⟩ := Reader.readExact_ok hpayload
        have hfour : (first ++ rest).length = 4 := by
          have : first ≠ [] := fun hnil => hne hnil
          have : 0 < first.length := List.length_pos_iff.mpr this
          rw [List.length_append]
          omega
        have hheader : order.toNeBytes payload.length = first ++ rest := by
          rw [hlength, ByteOrder.toNeBytes_fromNeBytes hfour]
        refine ⟨?_, by omega, by omega⟩
        rw [hheader, hbytes₁, hbytes₂, hbytes₃, List.append_assoc]

/-- The clean end is the end of the stream. -/
theorem readFrame_none (h : readFrame order reader = (.ok none, later)) : reader = [] := by
  unfold readFrame at h
  split at h
  · case h_1 last hend =>
    cases reader with
    | nil => rfl
    | cons piece rest => cases piece <;> cases (Prod.mk.inj hend).1
  · cases (Prod.mk.inj h).1
  · split at h
    · cases (Prod.mk.inj h).1
    · dsimp only at h
      split at h
      · cases (Prod.mk.inj h).1
      split at h
      · cases (Prod.mk.inj h).1
      split at h <;> cases (Prod.mk.inj h).1

end Frames

/-! ## The stream -/

section Messages
variable {α : Type} [Validate α] {serde : SerdeJson α} {order : ByteOrder} {reader : Reader}
  {payload rest : Bytes}

omit [Validate α] in
/-- What is written is a frame. -/
theorem writeMessage_ok {message : α} {frame : Bytes} (h : writeMessage serde order message = .ok frame) :
    ∃ payload, serde.toVec message = some payload ∧ 0 < payload.length ∧
      payload.length ≤ MAX_FRAME_BYTES ∧ frame = order.toNeBytes payload.length ++ payload := by
  unfold writeMessage at h
  split at h
  · cases h
  · case h_2 payload hpayload =>
    split at h
    · cases h
    · case isFalse hempty =>
      split at h
      · cases h
      · case isFalse hmax =>
        split at h
        · cases h
        · cases h
          have hpos : 0 < payload.length :=
            List.length_pos_iff.mpr fun hnil => hempty (by rw [hnil]; rfl)
          exact ⟨payload, hpayload, hpos, by omega, rfl⟩

/-- A valid message that was written is read, and the stream goes on behind it. -/
theorem readMessage_writeMessage {message : α} {frame : Bytes} (hquiet : reader.Quiet)
    (hvalid : Validate.validate message = .ok ())
    (hwritten : writeMessage serde order message = .ok frame)
    (hbytes : reader.bytes = frame ++ rest) :
    ∃ later, readMessage serde order reader = (.ok (some message), later) ∧ later.bytes = rest ∧
      later.Quiet := by
  obtain ⟨payload, hpayload, hpos, hmax, rfl⟩ := writeMessage_ok hwritten
  rw [List.append_assoc] at hbytes
  obtain ⟨later, hread, hlater, hquiet'⟩ := readFrame_front hquiet hpos hmax hbytes
  refine ⟨later, ?_, hlater, hquiet'⟩
  unfold readMessage
  simp only [hread, serde.fromSlice_toVec message payload hpayload, hvalid]

theorem delivers_of_written {messages : List α} {frames : List Bytes} (hquiet : reader.Quiet)
    (hvalid : ∀ message ∈ messages, Validate.validate message = .ok ())
    (hwritten : messages.mapM (writeMessage serde order) = .ok frames)
    (hbytes : reader.bytes = frames.flatten) : Delivers serde order reader messages := by
  induction messages generalizing frames reader with
  | nil =>
    cases hwritten
    have hend : reader = [] := by
      cases reader with
      | nil => rfl
      | cons piece later =>
        cases piece with
        | data first more => cases hbytes
        | failed error => exact absurd List.mem_cons_self (hquiet error)
    subst hend
    exact ⟨[], rfl⟩
  | cons message messages ih =>
    rw [List.mapM_cons] at hwritten
    obtain ⟨frame, hframe, hwritten⟩ := Loop.bind_eq_ok hwritten
    obtain ⟨others, hothers, hwritten⟩ := Loop.bind_eq_ok hwritten
    cases hwritten
    rw [List.flatten_cons] at hbytes
    obtain ⟨later, hread, hlater, hquiet'⟩ :=
      readMessage_writeMessage hquiet (hvalid message (by simp)) hframe hbytes
    exact ⟨later, hread, ih hquiet' (fun other h => hvalid other (by simp [h])) hothers hlater⟩

/-- A stream with something on it brings an error, unless there is a frame at its front. -/
theorem refuses_of_no_frame (hbytes : reader.bytes ≠ [])
    (hframe : ∀ payload rest : Bytes, 0 < payload.length → payload.length ≤ MAX_FRAME_BYTES →
      reader.bytes ≠ order.toNeBytes payload.length ++ (payload ++ rest)) :
    Refuses serde order reader := by
  unfold Refuses readMessage
  split
  · exact ⟨_, _, rfl⟩
  · case h_2 later hread =>
    obtain rfl := readFrame_none hread
    exact absurd rfl hbytes
  · case h_3 payload later hread =>
    obtain ⟨hfront, hpos, hmax⟩ := readFrame_ok hread
    exact absurd hfront (hframe payload later.bytes hpos hmax)

/-- Two frames at the front of one stream announce the same length. -/
theorem header_unique {n m : Nat} {first second : Bytes} (hn : n < 256 ^ 4) (hm : m < 256 ^ 4)
    (h : order.toNeBytes n ++ first = order.toNeBytes m ++ second) : n = m ∧ first = second := by
  obtain ⟨hheader, hrest⟩ := List.append_inj h (by simp)
  refine ⟨?_, hrest⟩
  rw [← @ByteOrder.fromNeBytes_toNeBytes order n hn, hheader, ByteOrder.fromNeBytes_toNeBytes hm]

theorem lt_of_maxFrameBytes {n : Nat} (h : n ≤ MAX_FRAME_BYTES) : n < 256 ^ 4 :=
  lt_of_le_of_lt h (by decide)

end Messages

/-- **What is written is read.** For a type of messages that `serde_json` reads as it wrote them and
either byte order:
    1. valid messages that `write_message` accepts are read from the concatenated frames as that
       sequence, with a clean end behind it, whatever pieces the stream comes in;
    2. a stream that ends inside its first frame brings no message;
    3. nor does a stream whose first four bytes announce no byte or more than the limit.
In 2 and 3 the reader may fail at any point. -/
theorem framing_round_trip {α : Type} [Validate α] (serde : SerdeJson α) (order : ByteOrder) :
    (∀ (messages : List α) (frames : List Bytes) (reader : Reader), reader.Quiet →
      (∀ message ∈ messages, Validate.validate message = .ok ()) →
      messages.mapM (writeMessage serde order) = .ok frames → reader.bytes = frames.flatten →
        Delivers serde order reader messages) ∧
    (∀ (payload suffix : Bytes) (reader : Reader), payload.length < 256 ^ 4 → suffix ≠ [] →
      reader.bytes ≠ [] → reader.bytes ++ suffix = order.toNeBytes payload.length ++ payload →
        Refuses serde order reader) ∧
    ∀ (declared : Nat) (rest : Bytes) (reader : Reader), declared < 256 ^ 4 →
      declared = 0 ∨ MAX_FRAME_BYTES < declared →
      reader.bytes = order.toNeBytes declared ++ rest → Refuses serde order reader := by
  refine ⟨?_, ?_, ?_⟩
  · intro messages frames reader hquiet hvalid hwritten hbytes
    exact delivers_of_written hquiet hvalid hwritten hbytes
  · intro payload suffix reader hlength hsuffix hbytes hcut
    refine refuses_of_no_frame hbytes ?_
    intro found rest hpos hmax hfront
    rw [hfront, List.append_assoc] at hcut
    obtain ⟨hsame, hrest⟩ := header_unique (lt_of_maxFrameBytes hmax) hlength hcut
    -- The frame that was read would be as long as the one that is cut off.
    have htotal := congrArg List.length hrest
    simp only [List.length_append] at htotal
    have : 0 < suffix.length := List.length_pos_iff.mpr hsuffix
    omega
  · intro declared rest reader hdeclared hbad hbytes
    refine refuses_of_no_frame ?_ ?_
    · intro hnil
      rw [hnil] at hbytes
      have := congrArg List.length hbytes
      simp only [List.length_nil, List.length_append, ByteOrder.length_toNeBytes] at this
      omega
    · intro found later hpos hmax hfront
      rw [hbytes] at hfront
      obtain ⟨rfl, -⟩ := header_unique hdeclared (lt_of_maxFrameBytes hmax) hfront
      omega

/-! ## Messages as JSON -/

/-- A reader and writer of JSON text in UTF-8, for messages that are read from their documents. -/
def serdeOf {α : Type} (toJson : α → Json) (fromJson : Json → Option α)
    (hjson : ∀ message, fromJson (toJson message) = some message) : SerdeJson α where
  toVec message := some (String.ofList (toJson message).render).toByteArray.data.toList
  fromSlice payload := (ByteArray.mk payload.toArray).utf8Decode?.bind fun text =>
    (Json.read text.toList).bind fromJson
  fromSlice_toVec message payload h := by
    obtain rfl := Option.some.inj h
    have htext : (String.ofList (toJson message).render).toByteArray.utf8Decode? =
        some (toJson message).render.toArray := by
      rw [String.toByteArray_ofList, List.utf8Decode?_utf8Encode]
    rw [Array.toArray_toList]
    show ((String.ofList (toJson message).render).toByteArray.utf8Decode?.bind _) = _
    rw [htext, Option.bind_some, Json.read_render]
    exact hjson message

def requestJson : SerdeJson BrowserRequest :=
  serdeOf BrowserRequest.toJson BrowserRequest.fromJson BrowserRequest.fromJson_toJson

/-- A stream of one byte at a time. -/
def drip (bytes : Bytes) : Reader := bytes.map fun byte => .data byte []

theorem bytes_drip (bytes : Bytes) : (drip bytes).bytes = bytes := by
  induction bytes with
  | nil => rfl
  | cons byte bytes ih => rw [drip, List.map_cons, Reader.bytes_cons, ← drip, ih]; rfl

theorem quiet_drip (bytes : Bytes) : (drip bytes).Quiet := by
  intro error hmem
  obtain ⟨byte, -, heq⟩ := List.mem_map.mp hmem
  cases heq

def sampleId : String := "00112233445566778899aabbccddeeff"

def sampleRequests : List BrowserRequest :=
  [.connect 1 sampleId, .candidates 1 sampleId "https://example.com",
    .credential 1 sampleId "https://example.com" sampleId sampleId]

def sampleFrames : List Bytes :=
  match sampleRequests.mapM (writeMessage requestJson .little) with
  | .ok frames => frames
  | .error _ => []

set_option maxRecDepth 100000 in
theorem sampleFrames_written :
    sampleRequests.mapM (writeMessage requestJson .little) = .ok sampleFrames := by
  have hok : (sampleRequests.mapM (writeMessage requestJson .little)).isOk = true := by decide +kernel
  unfold sampleFrames
  split
  · assumption
  · next error herror =>
    rw [herror] at hok
    cases hok

/-- Three requests, one byte at a time; a stream that ends in the header, one that ends or fails in
the payload; a header that announces nothing and one that announces too much. -/
theorem framing_round_trip_drip :
    Delivers requestJson .little (drip sampleFrames.flatten) sampleRequests ∧
    Refuses requestJson .little (drip [2, 0]) ∧
    Refuses requestJson .little [.data 2 [0, 0], .data 0 [123], .failed .other] ∧
    Refuses requestJson .big (drip [0, 0, 0, 0, 123]) ∧
    Refuses requestJson .big (drip [0, 4, 0, 1, 123]) := by
  obtain ⟨hround, hcut, -⟩ := framing_round_trip requestJson .little
  obtain ⟨-, -, hheader⟩ := framing_round_trip requestJson .big
  refine ⟨?_, ?_, ?_, ?_, ?_⟩
  · refine hround _ _ _ (quiet_drip _) ?_ sampleFrames_written (bytes_drip _)
    decide +kernel
  · exact hcut [123, 125] [0, 0, 123, 125] _ (by decide) (by decide) (by decide) rfl
  · exact hcut [123, 125] [125] _ (by decide) (by decide) (by decide) rfl
  · exact hheader 0 [123] _ (by decide) (.inl rfl) rfl
  · exact hheader 262145 [123] _ (by decide) (.inr (by decide)) rfl

end Framing

end NianPass.NativeProtocol
