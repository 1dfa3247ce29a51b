/-
# A message and its frames

What `PackH2Message` writes is made of legal frames iff the trailers fit one frame, the body has
less than 2^32 bytes, and the size of the header block, cast to 32 bits, is not taken for a smaller
one (`packed_iff`).
-/

import Brpc.Http2.Pack

namespace Brpc.Http2

open List FrameType FrameHead
open Hpack (Bytes)

/-- The frames of a message: `hs` has the header block, `ds` the body, `ts` the trailers, and `ws` is for the
connection. -/
structure Packed (maxFrameSize : ℕ) (headers trailers data : Bytes) (streamId : ℕ) (hs ds ts ws : List Frame) :
    Prop where
  size : ∀ f ∈ hs ++ ds ++ ts ++ ws, f.payload.length ≤ maxFrameSize
  read : readFrames maxFrameSize (hs ++ ds ++ ts ++ ws).length ((hs ++ ds ++ ts ++ ws).flatMap Frame.bytes) =
    some (hs ++ ds ++ ts ++ ws)
  stream : ∀ f ∈ hs ++ ds ++ ts, f.head.streamId = streamId
  headerTypes : hs.map (·.head.type) =
    FrameType.headers.toNat :: replicate (hs.length - 1) FrameType.continuation.toNat
  headerBlock : (hs.map Frame.payload).flatten = headers
  endHeaders : ∀ i f, hs[i]? = some f → (f.head.endHeaders = true ↔ i + 1 = hs.length)
  dataTypes : ∀ f ∈ ds, f.head.type = FrameType.data.toNat
  body : (ds.map Frame.payload).flatten = data
  trailers : ts = [] ∧ trailers = [] ∨
    ∃ f, ts = [f] ∧ f.head.type = FrameType.headers.toNat ∧ f.head.endHeaders = true ∧ f.payload = trailers
  others : ∀ f ∈ ws, f.head.type = windowUpdate.toNat ∧ f.head.streamId = 0
  endStream : ∀ i f, (hs ++ ds ++ ts)[i]? = some f →
    (f.head.endStream = true ↔ i = if ds = [] ∧ ts = [] then 0 else (hs ++ ds ++ ts).length - 1)

/-- The header block. -/
structure HeaderFrames (maxFrameSize : ℕ) (headers : Bytes) (streamId flags : ℕ) (hs : List Frame) : Prop where
  ne_nil : hs ≠ []
  head : ∀ f ∈ hs, f.Fits maxFrameSize ∧ f.head.streamId = streamId
  types : hs.map (·.head.type) = FrameType.headers.toNat :: replicate (hs.length - 1) FrameType.continuation.toNat
  block : (hs.map Frame.payload).flatten = headers
  endHeaders : ∀ i f, hs[i]? = some f → (f.head.endHeaders = true ↔ i + 1 = hs.length)
  endStream : ∀ i f, hs[i]? = some f → (f.head.endStream = true ↔ i = 0 ∧ flags = 1)

variable {maxFrameSize streamId : ℕ}

theorem Cut.fits {type lastFlag : ℕ} {bs : Bytes} {frames : List Frame}
    (hcut : Cut maxFrameSize streamId type lastFlag 0 bs frames) (hmax : maxFrameSize < 16777216)
    (hid : streamId < 2147483648) (htype : type < 256) (hlast : lastFlag < 256) :
    ∀ f ∈ frames, f.Fits maxFrameSize ∧ f.head.streamId = streamId := by
  intro f hmem
  obtain ⟨ht, hs, hp, hm⟩ := hcut.head f hmem
  obtain ⟨i, hi⟩ := mem_iff_getElem?.1 hmem
  refine ⟨⟨⟨by omega, by omega, ?_, by omega⟩, hp, hm⟩, hs⟩
  rw [hcut.flags i f hi]
  split_ifs
  · simpa using hlast
  · decide

theorem headerFrames_spec (hmin : 0 < maxFrameSize) (hmax : maxFrameSize < 16777216)
    {headers : Bytes} (hlen : headers.length ≤ maxFrameSize ∨ maxFrameSize < headers.length % 4294967296)
    {flags : ℕ} (hid : streamId < 2147483648) (hflags : flags = 0 ∨ flags = 1) :
    HeaderFrames maxFrameSize headers streamId flags (headerFrames maxFrameSize headers streamId flags) := by
  have hbit : ∀ {x : ℕ}, x = 0 ∨ x = 1 → x < 256 ∧ x ||| 4 < 256 ∧ (x ||| 4).testBit 2 = true ∧
      x.testBit 2 = false ∧ ((x ||| 4).testBit 0 = true ↔ x = 1) ∧ (x.testBit 0 = true ↔ x = 1) := by
    rintro x (rfl | rfl) <;> decide
  obtain ⟨hf, hf4, hf4end, hfend, hf4str, hfstr⟩ := hbit hflags
  unfold headerFrames
  by_cases hone : headers.length % 4294967296 ≤ maxFrameSize
  · have hsmall : headers.length ≤ maxFrameSize := by omega
    have hmod : headers.length % 4294967296 = headers.length := Nat.mod_eq_of_lt (by omega)
    rw [if_pos hone, hmod]
    refine ⟨by simp, ?_, by simp, by simp, ?_, ?_⟩
    · exact forall_mem_singleton.2 ⟨⟨⟨by simp only; omega, by simp only; decide, hf4, hid⟩, rfl, hsmall⟩, rfl⟩
    · intro i f hget
      obtain ⟨rfl, rfl⟩ := eq_of_getElem?_singleton hget
      simpa [endHeaders] using hf4end
    · intro i f hget
      obtain ⟨rfl, rfl⟩ := eq_of_getElem?_singleton hget
      simpa [endStream] using hf4str
  · rw [if_neg hone, continuations]
    have hcut := cutFrames_cut hmin streamId continuation.toNat 0x4 0
      (le_refl (headers.drop maxFrameSize).length)
    generalize cutFrames maxFrameSize streamId continuation.toNat 0x4
      (headers.drop maxFrameSize).length 0 (headers.drop maxFrameSize) = cs at hcut
    have htake : (headers.take maxFrameSize).length = maxFrameSize := by
      rw [length_take]
      omega
    have hcs : 0 < cs.length := by
      rw [length_pos_iff]
      rintro rfl
      have := congrArg length hcut.payload
      rw [map_nil, flatten_nil, length_nil, length_drop] at this
      omega
    have hcflags : ∀ i f, cs[i]? = some f → f.head.flags = if i + 1 = cs.length then 4 else 0 := hcut.flags
    refine ⟨by simp, ?_, ?_, ?_, ?_, ?_⟩
    · exact forall_mem_cons.2 ⟨⟨⟨⟨hmax, by simp only; decide, hf, hid⟩, htake.symm, htake.le⟩, rfl⟩,
        hcut.fits hmax hid (by decide) (by decide)⟩
    · rw [map_cons, length_cons, Nat.add_sub_cancel]
      congr 1
      exact eq_replicate_iff.2 ⟨by simp, by
        intro t ht
        obtain ⟨f, hf, rfl⟩ := mem_map.1 ht
        exact (hcut.head f hf).1⟩
    · rw [map_cons, flatten_cons, hcut.payload, take_append_drop]
    · intro i f hget
      cases i with
      | zero =>
        cases hget
        simp only [endHeaders, hfend, length_cons]
        simp only [Bool.false_eq_true, false_iff]
        omega
      | succ i =>
        rw [endHeaders, hcflags i f hget, length_cons]
        split_ifs with hlast
        · exact ⟨fun _ => by rw [hlast], fun _ => rfl⟩
        · simpa using hlast
    · intro i f hget
      cases i with
      | zero =>
        cases hget
        simpa [endStream] using hfstr
      | succ i =>
        rw [endStream, hcflags i f hget]
        split_ifs <;> simp

/-- The condition under which a message is packed as it should be. -/
def Packable (maxFrameSize : ℕ) (headers trailers data : Bytes) : Prop :=
  trailers.length ≤ maxFrameSize ∧ data.length < 4294967296 ∧
    (headers.length ≤ maxFrameSize ∨ maxFrameSize < headers.length % 4294967296)

variable {i : ℕ}

theorem Cut.endStream {type lastFlag : ℕ} {bs : Bytes} {frames : List Frame}
    (hcut : Cut maxFrameSize streamId type lastFlag 0 bs frames) {f : Frame} (hf : frames[i]? = some f) :
    f.head.endStream = true ↔ i + 1 = frames.length ∧ lastFlag.testBit 0 = true := by
  rw [FrameHead.endStream, hcut.flags i f hf]
  split_ifs with hlast
  · simp [hlast]
  · simp [hlast]

variable {trailers : Bytes}

theorem trailerFrames_eq (streamId : ℕ) (hlen : trailers.length < 16777216) :
    trailerFrames trailers streamId = [] ∧ trailers = [] ∨ trailers ≠ [] ∧ trailerFrames trailers streamId =
        [{ head := { payloadSize := trailers.length, type := headers.toNat, flags := 0x5
                     streamId := streamId }
           payload := trailers }] := by
  unfold trailerFrames
  split_ifs with h
  · exact .inl ⟨rfl, h⟩
  · rw [Nat.mod_eq_of_lt (by omega)]
    exact .inr ⟨h, rfl⟩

theorem getElem?_three {α : Type*} {hs ds ts : List α} {f : α} (h : (hs ++ ds ++ ts)[i]? = some f) :
    hs[i]? = some f ∧ i < hs.length ∨ (∃ j, i = hs.length + j ∧ ds[j]? = some f ∧ j < ds.length) ∨
      ∃ j, i = hs.length + ds.length + j ∧ ts[j]? = some f ∧ j < ts.length := by
  rw [append_assoc, getElem?_append, getElem?_append] at h
  split_ifs at h with h₁ h₂
  · exact .inl ⟨h, h₁⟩
  · exact .inr (.inl ⟨i - hs.length, by omega, h, h₂⟩)
  · exact .inr (.inr ⟨i - hs.length - ds.length, by omega, h, (List.getElem?_eq_some_iff.1 h).1⟩)

theorem windowUpdateFrames_fits (hmin : 4 ≤ maxFrameSize) (connWu : ℤ) :
    ∀ f ∈ windowUpdateFrames connWu, f.Fits maxFrameSize ∧ f.head.type = windowUpdate.toNat ∧
      f.head.streamId = 0 := by
  unfold windowUpdateFrames
  split_ifs
  · exact forall_mem_singleton.2
      ⟨⟨⟨by simp only; decide, by simp only; decide, by simp only; decide, by simp only; decide⟩, rfl, hmin⟩, rfl, rfl⟩
  · exact forall_mem_nil _

theorem dataFrames_cut (hmin : 0 < maxFrameSize) (streamId : ℕ) (noTrailers : Bool) (data : Bytes) :
    Cut maxFrameSize streamId FrameType.data.toNat (if noTrailers then 0x1 else 0) 0
      (data.take (data.length % 4294967296)) (dataFrames maxFrameSize streamId noTrailers data) :=
  cutFrames_cut hmin _ _ _ _ le_rfl

theorem endStream_iff {hs ds ts : List Frame} {data : Bytes} {flags : ℕ}
    (hh : ∀ i f, hs[i]? = some f → (f.head.endStream = true ↔ i = 0 ∧ flags = 1)) (hne : hs ≠ [])
    (hflags : flags = if data = [] ∧ trailers = [] then 1 else 0)
    (hd : Cut maxFrameSize streamId FrameType.data.toNat (if decide (trailers = []) then 0x1 else 0) 0 data ds)
    (hds : ds = [] ↔ data = [])
    (ht : ts = [] ∧ trailers = [] ∨ ∃ f, ts = [f] ∧ trailers ≠ [] ∧ f.head.endStream = true) {f : Frame}
    (hf : (hs ++ ds ++ ts)[i]? = some f) :
    f.head.endStream = true ↔ i = if ds = [] ∧ ts = [] then 0 else (hs ++ ds ++ ts).length - 1 := by
  have hpos := length_pos_iff.2 hne
  rw [length_append, length_append]
  rcases ht with ⟨rfl, htr⟩ | ⟨t, rfl, htr, htend⟩
  · by_cases hdata : data = []
    · obtain rfl := hds.2 hdata
      rw [if_pos ⟨hdata, htr⟩] at hflags
      rw [append_nil, append_nil] at hf
      rw [hh i f hf]
      exact ⟨fun h => h.1, fun h => ⟨h, hflags⟩⟩
    · have hdne : ds ≠ [] := fun hc => hdata (hds.1 hc)
      have hdpos := length_pos_iff.2 hdne
      rw [if_neg fun hc => hdne hc.1, length_nil]
      rw [if_neg fun hc => hdata hc.1] at hflags
      rcases getElem?_three hf with ⟨hf, hi⟩ | ⟨j, rfl, hf, hj⟩ | ⟨j, -, -, hj⟩
      · rw [hh i f hf]
        omega
      · rw [hd.endStream hf, htr]
        simp only [decide_true, if_true, Nat.testBit_one_zero, and_true]
        omega
      · exact absurd hj (Nat.not_lt_zero j)
  · rw [if_neg (by simp), length_singleton]
    rw [if_neg fun hc => htr hc.2] at hflags
    rcases getElem?_three hf with ⟨hf, hi⟩ | ⟨j, rfl, hf, hj⟩ | ⟨j, rfl, hf, hj⟩
    · rw [hh i f hf]
      omega
    · rw [hd.endStream hf]
      simp only [htr, decide_false, Bool.false_eq_true, if_false, Nat.zero_testBit, and_false, false_iff]
      omega
    · obtain ⟨rfl, rfl⟩ := eq_of_getElem?_singleton hf
      simp [htend]

/-- **A message that is packed as it should be.** -/
theorem packed_of_packable (hmin : 16384 ≤ maxFrameSize) (hmax : maxFrameSize < 16777216)
    {headers data : Bytes} (hid : streamId < 2147483648) (connWu : ℤ)
    (h : Packable maxFrameSize headers trailers data) :
    ∃ hs ds ts ws, packH2Message maxFrameSize headers trailers data streamId connWu = hs ++ ds ++ ts ++ ws ∧
      Packed maxFrameSize headers trailers data streamId hs ds ts ws := by
  obtain ⟨htlen, hdlen, hhlen⟩ := h
  have hh := headerFrames_spec (by omega) hmax hhlen hid
    (show (if data = [] ∧ trailers = [] then 0x1 else 0) = 0 ∨ _ = 1 by split_ifs <;> simp)
  have hd := dataFrames_cut (show 0 < maxFrameSize by omega) streamId (decide (trailers = [])) data
  rw [Nat.mod_eq_of_lt hdlen, take_length] at hd
  have hw := windowUpdateFrames_fits (show 4 ≤ maxFrameSize by omega) connWu
  have hds : dataFrames maxFrameSize streamId (decide (trailers = [])) data = [] ↔ data = [] := by
    constructor
    · intro hc
      have := hd.payload
      rw [hc] at this
      exact this.symm
    · rintro rfl
      rfl
  have ht := trailerFrames_eq streamId (show trailers.length < 16777216 by omega)
  refine ⟨_, _, _, _, rfl, ?_⟩
  generalize headerFrames maxFrameSize headers streamId (if data = [] ∧ trailers = [] then 0x1 else 0) = hs at *
  generalize dataFrames maxFrameSize streamId (decide (trailers = [])) data = ds at *
  generalize trailerFrames trailers streamId = ts at *
  generalize windowUpdateFrames connWu = ws at *
  have hdfits := hd.fits hmax hid (by decide) (by split_ifs <;> decide)
  have htfits : ∀ f ∈ ts, f.Fits maxFrameSize ∧ f.head.streamId = streamId := by
    rcases ht with ⟨rfl, -⟩ | ⟨-, rfl⟩
    · exact forall_mem_nil _
    · exact forall_mem_singleton.2
        ⟨⟨⟨by simp only; omega, by simp only; decide, by simp only; decide, hid⟩, rfl, htlen⟩, rfl⟩
  have hfits : ∀ f ∈ hs ++ ds ++ ts ++ ws, f.Fits maxFrameSize := by
    simp only [forall_mem_append]
    exact ⟨⟨⟨fun f hf => (hh.head f hf).1, fun f hf => (hdfits f hf).1⟩, fun f hf => (htfits f hf).1⟩,
      fun f hf => (hw f hf).1⟩
  refine ⟨fun f hf => (hfits f hf).max, readFrames_bytes _ hfits, ?_, hh.types, hh.block, hh.endHeaders,
    fun f hf => (hd.head f hf).1, hd.payload, ?_, fun f hf => (hw f hf).2, fun i f hf => ?_⟩
  · simp only [forall_mem_append]
    exact ⟨⟨fun f hf => (hh.head f hf).2, fun f hf => (hdfits f hf).2⟩, fun f hf => (htfits f hf).2⟩
  · rcases ht with ht | ⟨-, rfl⟩
    · exact .inl ht
    · exact .inr ⟨_, rfl, rfl, show Nat.testBit 5 2 = true by decide, rfl⟩
  · refine endStream_iff hh.endStream hh.ne_nil rfl hd hds ?_ hf
    rcases ht with ht | ⟨hne, rfl⟩
    · exact .inl ht
    · exact .inr ⟨_, rfl, hne, show Nat.testBit 5 0 = true by decide⟩

theorem exists_trailerFrame (maxFrameSize : ℕ) (headers : Bytes) (hne : trailers ≠ [])
    (data : Bytes) (streamId : ℕ) (connWu : ℤ) :
    ∃ f ∈ packH2Message maxFrameSize headers trailers data streamId connWu, f.payload = trailers := by
  have hmem : ∃ f ∈ trailerFrames trailers streamId, f.payload = trailers := by
    rw [trailerFrames, if_neg hne]
    exact ⟨_, mem_singleton_self _, rfl⟩
  obtain ⟨f, hf, hpayload⟩ := hmem
  exact ⟨f, mem_append_left _ (mem_append_right _ hf), hpayload⟩

/-- The frames of the body can be told from the others. -/
theorem filter_data {hs ds ts ws : List Frame} (hhs : ∀ f ∈ hs, f.head.type ≠ FrameType.data.toNat)
    (hds : ∀ f ∈ ds, f.head.type = FrameType.data.toNat) (hts : ∀ f ∈ ts, f.head.type = FrameType.headers.toNat)
    (hws : ∀ f ∈ ws, f.head.type = windowUpdate.toNat) :
    (hs ++ ds ++ ts ++ ws).filter (·.head.type = FrameType.data.toNat) = ds := by
  have hts' : ts.filter (·.head.type = FrameType.data.toNat) = [] :=
    filter_eq_nil_iff.2 fun f hf => by rw [hts f hf]; decide
  have hws' : ws.filter (·.head.type = FrameType.data.toNat) = [] :=
    filter_eq_nil_iff.2 fun f hf => by rw [hws f hf]; decide
  rw [filter_append, filter_append, filter_append, filter_eq_nil_iff.2 (by simpa using hhs),
    filter_eq_self.2 (by simpa using hds), hts', hws', append_nil, append_nil, nil_append]

theorem headerFrames_types (hmin : 0 < maxFrameSize) (headers : Bytes) (streamId flags : ℕ) :
    ∀ f ∈ headerFrames maxFrameSize headers streamId flags, f.head.type ≠ FrameType.data.toNat := by
  unfold headerFrames
  simp only
  split_ifs
  · exact forall_mem_singleton.2 (by simp only; decide)
  · refine forall_mem_cons.2 ⟨by simp only; decide, fun f hf => ?_⟩
    rw [((cutFrames_cut hmin streamId continuation.toNat 0x4 0 le_rfl).head f hf).1]
    decide

/-- **The frames of a packed body** are those the loop over the DATA frames has written. -/
theorem Packed.body_lt (hmin : 16384 ≤ maxFrameSize) {headers data : Bytes} {connWu : ℤ} {hs ds ts ws : List Frame}
    (h : Packed maxFrameSize headers trailers data streamId hs ds ts ws)
    (heq : packH2Message maxFrameSize headers trailers data streamId connWu = hs ++ ds ++ ts ++ ws) :
    data.length < 4294967296 := by
  have hcut := dataFrames_cut (show 0 < maxFrameSize by omega) streamId (decide (trailers = [])) data
  have hhs : ∀ f ∈ hs, f.head.type ≠ FrameType.data.toNat := by
    intro f hf
    have hmem : f.head.type ∈ hs.map (·.head.type) := mem_map_of_mem hf
    rw [h.headerTypes, mem_cons, mem_replicate] at hmem
    rcases hmem with htype | ⟨-, htype⟩ <;> rw [htype] <;> decide
  have hts : ∀ f ∈ ts, f.head.type = FrameType.headers.toNat := by
    rcases h.trailers with ⟨rfl, -⟩ | ⟨g, rfl, htype, -⟩
    · exact forall_mem_nil _
    · exact forall_mem_singleton.2 htype
  have hwritten : ∀ f ∈ trailerFrames trailers streamId, f.head.type = FrameType.headers.toNat := by
    unfold trailerFrames
    split_ifs
    · exact forall_mem_nil _
    · exact forall_mem_singleton.2 rfl
  have hds : dataFrames maxFrameSize streamId (decide (trailers = [])) data = ds := by
    rw [← filter_data hhs h.dataTypes hts fun f hf => (h.others f hf).1, ← heq, packH2Message,
      filter_data (headerFrames_types (by omega) _ _ _) (fun f hf => (hcut.head f hf).1) hwritten
        fun f hf => (windowUpdateFrames_fits (show 4 ≤ maxFrameSize by omega) connWu f hf).2.1]
  have hlen := congrArg length hcut.payload
  rw [hds, h.body, length_take] at hlen
  omega

/-- **Packing a message** gives legal frames that are read as they were written, with the flags on
the right ones, iff the trailers fit one frame, the size of the body fits 32 bits and the size of
the header block is not taken for a smaller one. -/
theorem packed_iff {maxFrameSize : ℕ} (hmin : 16384 ≤ maxFrameSize) (hmax : maxFrameSize < 16777216)
    (headers trailers data : Bytes) {streamId : ℕ} (hid : streamId < 2147483648) (connWu : ℤ) :
    (∃ hs ds ts ws, packH2Message maxFrameSize headers trailers data streamId connWu = hs ++ ds ++ ts ++ ws ∧
      Packed maxFrameSize headers trailers data streamId hs ds ts ws) ↔
    Packable maxFrameSize headers trailers data := by
  refine ⟨?_, packed_of_packable hmin hmax hid connWu⟩
  rintro ⟨hs, ds, ts, ws, heq, hpacked⟩
  have hsize := hpacked.size
  rw [← heq] at hsize
  refine ⟨?_, hpacked.body_lt hmin heq, ?_⟩
  · by_cases hnil : trailers = []
    · simp [hnil]
    · obtain ⟨f, hf, hpayload⟩ := exists_trailerFrame maxFrameSize headers hnil data streamId connWu
      exact hpayload ▸ hsize f hf
  · by_cases hone : headers.length % 4294967296 ≤ maxFrameSize
    · refine .inl (hsize _ (mem_append_left _ (mem_append_left _ (mem_append_left _ (by
        rw [headerFrames, if_pos hone]
        exact mem_singleton_self _)))))
    · exact .inr (not_le.1 hone)

/-- A header block, a body and trailers of one byte. -/
theorem small_message_packed : ∃ hs ds ts ws, packH2Message 16384 [1] [2] [3] 1 0 = hs ++ ds ++ ts ++ ws ∧
      Packed 16384 [1] [2] [3] 1 hs ds ts ws :=
  (packed_iff (by decide) (by decide) [1] [2] [3] (by decide) 0).2 ⟨by decide, by decide, by decide⟩

/-- **Trailers that are too long for a frame** are written in one all the same. -/
theorem trailers_too_long :
    ∃ f ∈ packH2Message 16384 [1] (replicate 16385 2) [3] 1 0, f.payload.length = 16385 := by
  have hne : replicate 16385 (2 : UInt8) ≠ [] := length_pos_iff.1 (by rw [length_replicate]; decide)
  obtain ⟨f, hf, hpayload⟩ := exists_trailerFrame 16384 [1] hne [3] 1 0
  exact ⟨f, hf, by rw [hpayload, length_replicate]⟩

end Brpc.Http2
