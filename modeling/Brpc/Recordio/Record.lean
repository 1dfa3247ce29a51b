/-
# RecordIO

`butil/recordio.cc`: records (a payload and named metas) in a stream of bytes.  `ReadNext` is a
machine whose inputs are the reads of the `IReader`: each call of `CutRecord` and of
`CutUntilNextRecordCandidate` is one step, and so is each read.
-/

import Brpc.Lib.Loop
import Brpc.Lib.Run
import Brpc.Recordio.Cutter

namespace Brpc.Recordio

open Messenger (Bytes pack32 unpack32)

/-- BRPC_RECORDIO_MAGIC -/
def magic : Bytes := [82, 68, 73, 79]

def maxNameSize : ℕ := 256

def crc8Table : List UInt8 :=
  [0xea, 0xd4, 0x96, 0xa8, 0x12, 0x2c, 0x6e, 0x50, 0x7f, 0x41, 0x03, 0x3d, 0x87, 0xb9, 0xfb, 0xc5,
   0xa5, 0x9b, 0xd9, 0xe7, 0x5d, 0x63, 0x21, 0x1f, 0x30, 0x0e, 0x4c, 0x72, 0xc8, 0xf6, 0xb4, 0x8a,
   0x74, 0x4a, 0x08, 0x36, 0x8c, 0xb2, 0xf0, 0xce, 0xe1, 0xdf, 0x9d, 0xa3, 0x19, 0x27, 0x65, 0x5b,
   0x3b, 0x05, 0x47, 0x79, 0xc3, 0xfd, 0xbf, 0x81, 0xae, 0x90, 0xd2, 0xec, 0x56, 0x68, 0x2a, 0x14,
   0xb3, 0x8d, 0xcf, 0xf1, 0x4b, 0x75, 0x37, 0x09, 0x26, 0x18, 0x5a, 0x64, 0xde, 0xe0, 0xa2, 0x9c,
   0xfc, 0xc2, 0x80, 0xbe, 0x04, 0x3a, 0x78, 0x46, 0x69, 0x57, 0x15, 0x2b, 0x91, 0xaf, 0xed, 0xd3,
   0x2d, 0x13, 0x51, 0x6f, 0xd5, 0xeb, 0xa9, 0x97, 0xb8, 0x86, 0xc4, 0xfa, 0x40, 0x7e, 0x3c, 0x02,
   0x62, 0x5c, 0x1e, 0x20, 0x9a, 0xa4, 0xe6, 0xd8, 0xf7, 0xc9, 0x8b, 0xb5, 0x0f, 0x31, 0x73, 0x4d,
   0x58, 0x66, 0x24, 0x1a, 0xa0, 0x9e, 0xdc, 0xe2, 0xcd, 0xf3, 0xb1, 0x8f, 0x35, 0x0b, 0x49, 0x77,
   0x17, 0x29, 0x6b, 0x55, 0xef, 0xd1, 0x93, 0xad, 0x82, 0xbc, 0xfe, 0xc0, 0x7a, 0x44, 0x06, 0x38,
   0xc6, 0xf8, 0xba, 0x84, 0x3e, 0x00, 0x42, 0x7c, 0x53, 0x6d, 0x2f, 0x11, 0xab, 0x95, 0xd7, 0xe9,
   0x89, 0xb7, 0xf5, 0xcb, 0x71, 0x4f, 0x0d, 0x33, 0x1c, 0x22, 0x60, 0x5e, 0xe4, 0xda, 0x98, 0xa6,
   0x01, 0x3f, 0x7d, 0x43, 0xf9, 0xc7, 0x85, 0xbb, 0x94, 0xaa, 0xe8, 0xd6, 0x6c, 0x52, 0x10, 0x2e,
   0x4e, 0x70, 0x32, 0x0c, 0xb6, 0x88, 0xca, 0xf4, 0xdb, 0xe5, 0xa7, 0x99, 0x23, 0x1d, 0x5f, 0x61,
   0x9f, 0xa1, 0xe3, 0xdd, 0x67, 0x59, 0x1b, 0x25, 0x0a, 0x34, 0x76, 0x48, 0xf2, 0xcc, 0x8e, 0xb0,
   0xd0, 0xee, 0xac, 0x92, 0x28, 0x16, 0x54, 0x6a, 0x45, 0x7b, 0x39, 0x07, 0xbd, 0x83, 0xc1, 0xff]

def sizeChecksum (input : ℕ) : UInt8 :=
  let next (crc : UInt8) (shift : ℕ) : UInt8 :=
    crc8Table[(crc ^^^ UInt8.ofNat (input / 2 ^ shift)).toNat]!
  next (next (next (next 0 0) 8) 16) 24

/-! ## Records -/

structure NamedMeta where
  name : Bytes
  data : Bytes
  deriving DecidableEq

structure Record where
  metas : List NamedMeta
  payload : Bytes
  deriving DecidableEq

/-- `MutableMeta(name, true)`, with what is then put into the meta. -/
def Record.mutableMeta (record : Record) (name data : Bytes) : Option Record :=
  if record.metas.any fun m => m.name = name then none
  else if maxNameSize < name.length then none
  else if name = [] then none
  else some { record with metas := record.metas ++ [⟨name, data⟩] }

/-! ## `RecordWriter` -/

def popBack (buf : Bytes) (n : ℕ) : Bytes := buf.take (buf.length - n)

/-- The loop over the metas: whether all of them have been written, and the buffer. -/
def writeMetas : List NamedMeta → Bytes → Bool × Bytes
  | [], buf => (true, buf)
  | m :: ms, buf =>
    if maxNameSize < m.name.length then (false, buf)
    else if 0x7FFFFFFF < m.data.length then (false, buf)
    else
      -- the first bit says that another meta follows
      let tmp := m.data.length + if ms = [] then 0 else 2 ^ 31
      writeMetas ms (buf ++ (UInt8.ofNat m.name.length :: m.name ++ pack32 tmp) ++ m.data)

/-- `WriteWithoutFlush` on a buffer: what it returns, and the buffer. -/
def writeWithoutFlush (buf : Bytes) (record : Record) : ℤ × Bytes :=
  let oldSize := buf.length
  -- the head is reserved here and assigned at the end
  let metas := writeMetas record.metas (buf ++ List.replicate 9 0)
  if metas.1 = false then (-1, popBack metas.2 (metas.2.length - oldSize))
  else
    let body := metas.2 ++ record.payload
    let dataSize := body.length - oldSize - 9
    if 0x7FFFFFFF < dataSize then (-1, popBack body (body.length - oldSize))
    else
      let tmp := dataSize + if record.metas = [] then 0 else 2 ^ 31
      let head := magic ++ pack32 tmp ++ [sizeChecksum tmp]
      (0, body.take oldSize ++ head ++ body.drop (oldSize + 9))

/-- What `CutRecord` returns. -/
inductive Cut
  | ok (record : Record)
  | notEnoughData
  | bad

/-- The variables of the loop over the metas in `CutRecord`.  `short` says that some bytes
of a meta header had not arrived. -/
structure MetaLoop where
  cutter : Cutter
  ncut : ℕ
  record : Record
  consumed : ℕ
  tmp : ℕ
  short : Bool

/-- One meta: the loop goes on, or the record is bad. -/
def cutMeta (dataSize : ℕ) (l : MetaLoop) : Except MetaLoop MetaLoop :=
  -- without a byte CHECK(_cutter.cut1(&name_size_buf)) logs, and the buffer stays 0
  let one := l.cutter.cut1
  let nameSize := (one.1.getD 0).toNat
  let name := one.2.cutnString nameSize
  let four := name.2.cutn 4
  -- bytes of `tmp` that are not overwritten stay as they are, in host order
  let tmp := unpack32 (four.1 ++ (pack32 l.tmp).reverse.drop four.1.length)
  let metaSize := tmp % 2 ^ 31
  let short := l.short || decide (one.1 = none) || decide (name.1.length < nameSize) || decide (four.1.length < 4)
  let read := { l with cutter := four.2, ncut := l.ncut + 5 + nameSize, tmp := tmp, short := short }
  if dataSize < l.consumed + 5 + nameSize + metaSize then .error read
  else
    let data := four.2.cutn metaSize
    match l.record.mutableMeta name.1 data.1 with
    | none => .error read
    | some record =>
      .ok { read with cutter := data.2, ncut := read.ncut + metaSize, record := record,
                      consumed := l.consumed + 5 + nameSize + metaSize }

def MetaLoop.hasMeta (l : MetaLoop) : Bool := decide (2 ^ 31 ≤ l.tmp)

/-- The loop, with a number of turns. -/
def cutMetas (dataSize : ℕ) : ℕ → MetaLoop → Except MetaLoop MetaLoop :=
  Lib.whileLoop MetaLoop.hasMeta (cutMeta dataSize)

/-- A call of `CutRecord`: what it returns, the cutter and `_ncut`, and whether it has run over
the end of what has arrived. -/
structure CutRecord where
  rc : Cut
  cutter : Cutter
  ncut : ℕ
  short : Bool

/-- What follows the loop over the metas. -/
def cutPayload (dataSize : ℕ) : Except MetaLoop MetaLoop → CutRecord
  | .error l => ⟨.bad, l.cutter, l.ncut, l.short⟩
  | .ok l =>
    let payload := l.cutter.cutn (dataSize - l.consumed)
    ⟨.ok { l.record with payload := payload.1 }, payload.2, l.ncut + payload.1.length, l.short⟩

/-- `CutRecord`, with `maxSize` for -recordio_max_record_size. -/
def cutRecord (maxSize : ℕ) (cutter : Cutter) (ncut : ℕ) : CutRecord :=
  let head := cutter.copyTo 9
  if head.1.length ≠ 9 then ⟨.notEnoughData, head.2, ncut, false⟩
  else if head.1.take 4 ≠ magic then ⟨.bad, head.2, ncut, false⟩
  else
    let tmp := unpack32 (head.1.drop 4)
    let dataSize := tmp % 2 ^ 31
    if some (sizeChecksum tmp) ≠ head.1[8]? then ⟨.bad, head.2, ncut, false⟩
    else if maxSize < dataSize then ⟨.bad, head.2, ncut, false⟩
    else if head.2.remainingBytes < dataSize + 9 then ⟨.notEnoughData, head.2, ncut, false⟩
    else
      cutPayload dataSize (cutMetas dataSize (dataSize + 1) ⟨head.2.popFront 9, ncut + 9, ⟨[], []⟩, 0, tmp, false⟩)

/-- The first place in `bs` where the magic stands. -/
def findMagic : Bytes → Option ℕ
  | [] => none
  | b :: bs => if (b :: bs).take 4 = magic then some 0 else (findMagic bs).map (· + 1)

/-- The loop of `CutUntilNextRecordCandidate` over windows of 512 bytes: whether the magic has
been found, the cutter and `_ncut`. -/
def scanWindows : ℕ → Cutter → ℕ → Bool × Cutter × ℕ
  | 0, cutter, ncut => (false, cutter, ncut)
  | n + 1, cutter, ncut =>
    let buf := cutter.copyTo 512
    let nc := buf.1.length
    if nc < 4 then (false, buf.2, ncut)
    else
      match findMagic buf.1 with
      | some i => (true, buf.2.popFront i, ncut + i)
      | none =>
        let m := nc + 1 - 4
        if nc < 512 then (false, buf.2.popFront m, ncut + m)
        else scanWindows n (buf.2.popFront m) (ncut + m)

/-- How `CutUntilNextRecordCandidate` ends: at its first test for want of four bytes, with
a candidate, or without one. -/
inductive Scan
  | tooShort
  | found
  | notFound

def cutUntilNextRecordCandidate (cutter : Cutter) (ncut : ℕ) : Scan × Cutter × ℕ :=
  let four := cutter.copyTo 4
  if four.1.length ≠ 4 then (.tooShort, four.2, ncut)
  else
    let skip := if four.1 = magic then 4 else 0
    let out := scanWindows (four.2.remainingBytes + 1) (four.2.popFront skip) (ncut + skip)
    (if out.1 then .found else .notFound, out.2)

/-! ## `ReadNext` -/

/-- What `ReadNext` calls next: `CutRecord`, or `CutUntilNextRecordCandidate`, for the first time
or again. -/
inductive Phase
  | record
  | candidate
  | rescan
  deriving DecidableEq

/-- A `RecordReader`, called again after each record.  `waiting`: it is about to read from the
`IReader`, and if this fails, `ReadNext` returns false. -/
structure Reader where
  cutter : Cutter
  ncut : ℕ
  phase : Phase
  waiting : Bool
  /-- What `ReadNext` has returned. -/
  records : List Record
  /-- What the `IReader` has delivered. -/
  received : Bytes

inductive Input
  | call
  | read (acquired : List Block) (data : Bytes)

namespace Reader

def init : Reader := ⟨.init, 0, .record, false, [], []⟩

def callRecord (maxSize : ℕ) (s : Reader) : Reader :=
  let out := cutRecord maxSize s.cutter s.ncut
  let s := { s with cutter := out.cutter, ncut := out.ncut }
  match out.rc with
  | .ok record => { s with records := s.records ++ [record] }
  | .notEnoughData => { s with waiting := true }
  | .bad => { s with phase := .candidate }

def callScan (s : Reader) : Reader :=
  let out := cutUntilNextRecordCandidate s.cutter s.ncut
  let s := { s with cutter := out.2.1, ncut := out.2.2 }
  match out.1 with
  | .tooShort => { s with waiting := true }
  | .found => { s with phase := .record }
  | .notFound => { s with phase := .rescan, waiting := true }

def step (maxSize : ℕ) (s : Reader) : Input → Reader
  | .call =>
    if s.waiting then s
    else if s.phase = .record then s.callRecord maxSize
    else s.callScan
  | .read acquired data =>
    if s.waiting then
      { s with cutter := s.cutter.appendFromReader acquired data, waiting := false,
               received := s.received ++ data }
    else s

/-- Reads as they can be. -/
def Possible (s : Reader) : Input → Prop
  | .call => True
  | .read acquired data => Cutter.Readable (s.cutter.blocks ++ acquired) data

/-- A read does not extend the reference that the cutter has loaded. -/
def ReadFits (s : Reader) : Input → Prop
  | .call => True
  | .read acquired _ => ¬ s.cutter.ExtendsFront acquired

end Reader
end Brpc.Recordio
