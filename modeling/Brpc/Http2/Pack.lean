/-
# Frames of HTTP/2

The head of a frame in `brpc/policy/http2_rpc_protocol.cpp`: length, type, flags and stream in
network order.  A head that was written is read again (`consumeFrameHead_serialize`); reading where
no bytes are left is undefined, and `none` here.  `PackH2Message` cuts header block and body into
frames of at most `max_frame_size` bytes.  Trailers are written in one frame, and of the body as
many bytes as a 32-bit counter says.
-/

import Brpc.Hpack.Integer
import Brpc.Messenger.Frame

namespace Brpc.Http2

open List
open Hpack (Bytes)
open Messenger (ParseError)

/-! ### Numbers -/

variable (h : FrameHead) (v : ℕ)

def saveUint16 : Bytes := [UInt8.ofNat (v / 256), UInt8.ofNat v]

def saveUint32 : Bytes :=
  [UInt8.ofNat (v / 16777216), UInt8.ofNat (v / 65536), UInt8.ofNat (v / 256), UInt8.ofNat v]

def loadUint8 : Bytes → Option (ℕ × Bytes)
  | a :: bs => some (a.toNat, bs)
  | _ => none

def loadUint16 : Bytes → Option (ℕ × Bytes)
  | a :: b :: bs => some (a.toNat * 256 + b.toNat, bs)
  | _ => none

def loadUint32 : Bytes → Option (ℕ × Bytes)
  | a :: b :: c :: d :: bs => some (a.toNat * 16777216 + b.toNat * 65536 + c.toNat * 256 + d.toNat, bs)
  | _ => none

theorem toNat_ofNat : (UInt8.ofNat v).toNat = v % 256 := rfl

theorem loadUint16_save {v : ℕ} (hv : v < 65536) (bs : Bytes) : loadUint16 (saveUint16 v ++ bs) = some (v, bs) := by
  simp only [saveUint16, cons_append, nil_append, loadUint16, toNat_ofNat, Option.some.injEq, Prod.mk.injEq, and_true]
  omega

theorem loadUint32_save {v : ℕ} (hv : v < 4294967296) (bs : Bytes) :
    loadUint32 (saveUint32 v ++ bs) = some (v, bs) := by
  simp only [saveUint32, cons_append, nil_append, loadUint32, toNat_ofNat, Option.some.injEq, Prod.mk.injEq, and_true]
  omega

variable {bs : Bytes}

theorem loadUint32_rest {rest : Bytes} {v : ℕ} (h : loadUint32 bs = some (v, rest)) : rest = bs.drop 4 := by
  match bs, h with
  | a :: b :: c :: d :: bs, h =>
    obtain ⟨-, rfl⟩ := Prod.mk.inj (Option.some.inj h)
    rfl

/-! ### Heads -/

/-- `H2FrameType` -/
inductive FrameType where
  | data
  | headers
  | priority
  | rstStream
  | settings
  | pushPromise
  | ping
  | goaway
  | windowUpdate
  | continuation
deriving DecidableEq

/-- The number of a type. -/
def FrameType.toNat : FrameType → ℕ
  | .data => 0
  | .headers => 1
  | .priority => 2
  | .rstStream => 3
  | .settings => 4
  | .pushPromise => 5
  | .ping => 6
  | .goaway => 7
  | .windowUpdate => 8
  | .continuation => 9

/-- `FindFrameHandler`: the type has a handler of its name, or there is none. -/
def findFrameHandler : ℕ → Option FrameType
  | 0 => some .data
  | 1 => some .headers
  | 2 => some .priority
  | 3 => some .rstStream
  | 4 => some .settings
  | 5 => some .pushPromise
  | 6 => some .ping
  | 7 => some .goaway
  | 8 => some .windowUpdate
  | 9 => some .continuation
  | _ => none

/-- `H2FrameHead`; a type that is read may be any byte. -/
structure FrameHead where
  payloadSize : ℕ
  type : ℕ
  flags : ℕ
  streamId : ℕ
deriving DecidableEq

/-- `H2_FLAGS_END_STREAM` and `H2_FLAGS_ACK` -/
def FrameHead.endStream : Bool := h.flags.testBit 0

def FrameHead.endHeaders : Bool := h.flags.testBit 2

def FrameHead.padded : Bool := h.flags.testBit 3

def FrameHead.hasPriority : Bool := h.flags.testBit 5

def frameHeadSize : ℕ := 9

def serializeFrameHead : Bytes :=
  [UInt8.ofNat (h.payloadSize / 65536), UInt8.ofNat (h.payloadSize / 256), UInt8.ofNat h.payloadSize,
    UInt8.ofNat h.type, UInt8.ofNat h.flags] ++ saveUint32 h.streamId

/-- `ConsumeFrameHead`: an error, or the head and the bytes behind it. -/
def consumeFrameHead (maxFrameSize : ℕ) (bs : Bytes) : Except ParseError (FrameHead × Bytes) :=
  match bs with
  | a :: b :: c :: bs =>
    let length := a.toNat * 65536 + b.toNat * 256 + c.toNat
    if maxFrameSize < length then .error .absolutelyWrong
    else if bs.length < frameHeadSize - 3 + length then .error .notEnoughData
    else
      match bs with
      | type :: flags :: bs =>
        match loadUint32 bs with
        | some (streamId, bs) =>
          if 2147483648 ≤ streamId then .error .absolutelyWrong
          else .ok ({ payloadSize := length, type := type.toNat, flags := flags.toNat, streamId := streamId }, bs)
        | none => .error .notEnoughData
      | _ => .error .notEnoughData
  | _ => .error .notEnoughData

/-- The fields of a head fit their places. -/
structure FrameHead.Fits (h : FrameHead) : Prop where
  payloadSize : h.payloadSize < 16777216
  type : h.type < 256
  flags : h.flags < 256
  streamId : h.streamId < 2147483648

variable {maxFrameSize : ℕ}

/-- **A head is read as it was written**, if the payload is there and not too long. -/
theorem consumeFrameHead_serialize {h : FrameHead} (hfits : h.Fits)
    (hmax : h.payloadSize ≤ maxFrameSize) (hlen : h.payloadSize ≤ bs.length) :
    consumeFrameHead maxFrameSize (serializeFrameHead h ++ bs) = .ok (h, bs) := by
  obtain ⟨hp, ht, hf, hs⟩ := hfits
  have hlength : (UInt8.ofNat (h.payloadSize / 65536)).toNat * 65536 +
      (UInt8.ofNat (h.payloadSize / 256)).toNat * 256 + (UInt8.ofNat h.payloadSize).toNat = h.payloadSize := by
    simp only [toNat_ofNat]
    omega
  have htype : (UInt8.ofNat h.type).toNat = h.type := by
    rw [toNat_ofNat]
    omega
  have hflags : (UInt8.ofNat h.flags).toNat = h.flags := by
    rw [toNat_ofNat]
    omega
  unfold serializeFrameHead consumeFrameHead
  simp only [cons_append, nil_append, hlength, htype, hflags, loadUint32_save (show h.streamId < 4294967296 by omega)]
  have hroom : ¬ (UInt8.ofNat h.type :: UInt8.ofNat h.flags :: (saveUint32 h.streamId ++ bs)).length <
      frameHeadSize - 3 + h.payloadSize := by
    simp only [length_cons, length_append, saveUint32, length_nil, frameHeadSize]
    omega
  rw [if_neg (by omega), if_neg hroom, if_neg (by omega)]

theorem consumeFrameHead_ok {rest : Bytes} {h : FrameHead}
    (hok : consumeFrameHead maxFrameSize bs = .ok (h, rest)) :
    rest = bs.drop frameHeadSize ∧ h.payloadSize ≤ rest.length ∧ h.payloadSize < 16777216 ∧
      h.payloadSize ≤ maxFrameSize ∧ h.streamId < 2147483648 := by
  match bs, hok with
  | a :: b :: c :: bs, hok =>
    unfold consumeFrameHead at hok
    simp only at hok
    have ha := a.toNat_lt
    have hb := b.toNat_lt
    have hc := c.toNat_lt
    split_ifs at hok with hmax hlen
    match bs, hok, hlen with
    | type :: flags :: bs, hok, hlen =>
      simp only at hok
      cases hload : loadUint32 bs with
      | none =>
        rw [hload] at hok
        cases hok
      | some =>
        rw [hload] at hok
        simp only at hok
        split_ifs at hok with hs
        obtain ⟨rfl, rfl⟩ := Prod.mk.inj (Except.ok.inj hok)
        have hrest := loadUint32_rest hload
        have hl := congrArg List.length hrest
        simp only [length_cons, length_drop, frameHeadSize] at hlen hl ⊢
        refine ⟨hrest, by omega, by omega, by omega, by omega⟩

/-! ## Packing a message -/

/-- A frame that is written. -/
structure Frame where
  head : FrameHead
  payload : Bytes

def Frame.bytes (f : Frame) : Bytes := serializeFrameHead f.head ++ f.payload

/-- A loop that cuts bytes into frames, at most `n` rounds.  The flags are carried over, and
`lastFlag` is set where the rest fits one frame. -/
def cutFrames (maxFrameSize streamId type lastFlag : ℕ) : ℕ → ℕ → Bytes → List Frame
  | 0, _, _ => []
  | n + 1, flags, bs =>
    if bs = [] then []
    else
      let flags := if bs.length ≤ maxFrameSize then flags ||| lastFlag else flags
      let payloadSize := if bs.length ≤ maxFrameSize then bs.length else maxFrameSize
      { head := { payloadSize := payloadSize, type := type, flags := flags, streamId := streamId }
        payload := bs.take payloadSize } ::
        cutFrames maxFrameSize streamId type lastFlag n flags (bs.drop payloadSize)

/-- The loop over the CONTINUATION frames. -/
def continuations (maxFrameSize streamId : ℕ) (headers : Bytes) : List Frame :=
  cutFrames maxFrameSize streamId FrameType.continuation.toNat 0x4 headers.length 0 headers

/-- The loop over the DATA frames.  `IOBufBytesIterator` has the bytes left in a `uint32_t`. -/
def dataFrames (maxFrameSize streamId : ℕ) (noTrailers : Bool) (data : Bytes) : List Frame :=
  let data := data.take (data.length % 4294967296)
  cutFrames maxFrameSize streamId FrameType.data.toNat (if noTrailers then 0x1 else 0) data.length 0 data

/-- The HEADERS frame and the CONTINUATION frames. -/
def headerFrames (maxFrameSize : ℕ) (headers : Bytes) (streamId flags : ℕ) : List Frame :=
  let payloadSize := headers.length % 4294967296
  if payloadSize ≤ maxFrameSize then
    [{ head := { payloadSize := payloadSize, type := FrameType.headers.toNat, flags := flags ||| 0x4
                 streamId := streamId }
       payload := headers }]
  else
    { head := { payloadSize := maxFrameSize, type := FrameType.headers.toNat, flags := flags
                streamId := streamId }
      payload := headers.take maxFrameSize } ::
      continuations maxFrameSize streamId (headers.drop maxFrameSize)

def trailerFrames (trailers : Bytes) (streamId : ℕ) : List Frame :=
  if trailers = [] then []
  else [{ head := { payloadSize := trailers.length % 4294967296, type := FrameType.headers.toNat, flags := 0x5
                    streamId := streamId }
          payload := trailers }]

/-- The WINDOW_UPDATE of the connection, if there is one to send. -/
def windowUpdateFrames (connWu : ℤ) : List Frame :=
  if 0 < connWu then
    [{ head := { payloadSize := 4, type := FrameType.windowUpdate.toNat, flags := 0, streamId := 0 }
       payload := saveUint32 (connWu % 4294967296).toNat }]
  else []

/-- `PackH2Message`; `connWu` is what `ReleaseDeferredWindowUpdate` returns. -/
def packH2Message (maxFrameSize : ℕ) (headers trailers data : Bytes) (streamId : ℕ) (connWu : ℤ) : List Frame :=
  headerFrames maxFrameSize headers streamId (if data = [] ∧ trailers = [] then 0x1 else 0) ++
    dataFrames maxFrameSize streamId (trailers = []) data ++
    trailerFrames trailers streamId ++ windowUpdateFrames connWu

/-! ### Reading frames -/

/-- The frames at the head of some bytes, as `ConsumeFrameHead` reads them, at most `n`. -/
def readFrames (maxFrameSize : ℕ) : ℕ → Bytes → Option (List Frame)
  | _, [] => some []
  | 0, _ :: _ => none
  | n + 1, b :: bs =>
    match consumeFrameHead maxFrameSize (b :: bs) with
    | .error _ => none
    | .ok (h, rest) =>
      (readFrames maxFrameSize n (rest.drop h.payloadSize)).map
        ({ head := h, payload := rest.take h.payloadSize } :: ·)

/-- What is written with its head can be read. -/
structure Frame.Fits (maxFrameSize : ℕ) (f : Frame) : Prop where
  head : f.head.Fits
  size : f.head.payloadSize = f.payload.length
  max : f.payload.length ≤ maxFrameSize

/-- **Frames are read as they were written.** -/
theorem readFrames_bytes (frames : List Frame) (hfits : ∀ f ∈ frames, f.Fits maxFrameSize) :
    readFrames maxFrameSize frames.length (frames.flatMap Frame.bytes) = some frames := by
  induction frames with
  | nil => rfl
  | cons f frames ih =>
    have hf := hfits f mem_cons_self
    have hne : ∃ b bs, f.bytes ++ frames.flatMap Frame.bytes = b :: bs := ⟨_, _, rfl⟩
    have hhead : consumeFrameHead maxFrameSize (f.bytes ++ frames.flatMap Frame.bytes) =
        .ok (f.head, f.payload ++ frames.flatMap Frame.bytes) := by
      rw [Frame.bytes, append_assoc]
      exact consumeFrameHead_serialize hf.head (hf.size ▸ hf.max) (by rw [hf.size, length_append]; omega)
    obtain ⟨b, bs, hb⟩ := hne
    rw [flatMap_cons, length_cons, hb, readFrames, ← hb, hhead]
    simp only
    rw [hf.size, drop_left, take_left, ih fun g hg => hfits g (mem_cons_of_mem _ hg)]
    rfl

/-! ### What is written -/

/-- What a loop over frames writes. -/
structure Cut (maxFrameSize streamId type lastFlag flags : ℕ) (bs : Bytes) (frames : List Frame) : Prop where
  payload : (frames.map Frame.payload).flatten = bs
  head : ∀ f ∈ frames, f.head.type = type ∧ f.head.streamId = streamId ∧ f.head.payloadSize = f.payload.length ∧
    f.payload.length ≤ maxFrameSize
  flags : ∀ i f, frames[i]? = some f → f.head.flags = if i + 1 = frames.length then flags ||| lastFlag else flags

theorem eq_of_getElem?_singleton {α : Type*} {a b : α} {i : ℕ} (h : [a][i]? = some b) : i = 0 ∧ a = b := by
  cases i with
  | zero => exact ⟨rfl, Option.some.inj h⟩
  | succ => simp at h

/-- **A loop over frames** writes all the bytes, and sets the last flag on the last frame only. -/
theorem cutFrames_cut (hmax : 0 < maxFrameSize) (streamId type lastFlag flags : ℕ) {n : ℕ} (hn : bs.length ≤ n) :
    Cut maxFrameSize streamId type lastFlag flags bs (cutFrames maxFrameSize streamId type lastFlag n flags bs) := by
  induction n generalizing bs with
  | zero =>
    obtain rfl := length_eq_zero_iff.1 (Nat.le_zero.1 hn)
    exact ⟨rfl, by simp [cutFrames], by simp [cutFrames]⟩
  | succ n ih =>
    rw [cutFrames]
    by_cases hnil : bs = []
    · rw [if_pos hnil]
      exact ⟨hnil.symm, by simp, by simp⟩
    rw [if_neg hnil]
    by_cases hfits : bs.length ≤ maxFrameSize
    · simp only [if_pos hfits, take_length, drop_length]
      have hend : ∀ m flags, cutFrames maxFrameSize streamId type lastFlag m flags [] = [] := by
        intro m flags
        cases m <;> simp [cutFrames]
      rw [hend]
      refine ⟨by simp, ?_, ?_⟩
      · exact forall_mem_singleton.2 ⟨rfl, rfl, rfl, hfits⟩
      · intro i f hf
        obtain ⟨rfl, rfl⟩ := eq_of_getElem?_singleton hf
        simp
    · simp only [if_neg hfits]
      have hrest := @ih (bs.drop maxFrameSize) (by rw [length_drop]; omega)
      have hne : cutFrames maxFrameSize streamId type lastFlag n flags (bs.drop maxFrameSize) ≠ [] := by
        intro hc
        have := hrest.payload
        rw [hc] at this
        have := congrArg List.length this
        rw [map_nil, flatten_nil, length_nil, length_drop] at this
        omega
      have hlen := length_pos_iff.2 hne
      refine ⟨by rw [map_cons, flatten_cons, hrest.payload, take_append_drop], ?_, ?_⟩
      · intro f hf
        rcases mem_cons.1 hf with rfl | hf
        · have : (bs.take maxFrameSize).length = maxFrameSize := by
            rw [length_take]
            omega
          exact ⟨rfl, rfl, this.symm, this.le⟩
        · exact hrest.head f hf
      · intro i f hf
        cases i with
        | zero =>
          cases hf
          rw [length_cons, if_neg (by omega)]
        | succ i =>
          rw [hrest.flags i f hf, length_cons]
          simp only [Nat.add_right_cancel_iff]

end Brpc.Http2
