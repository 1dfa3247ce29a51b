/-
# Responses and stream frames on one client connection

A client connection carries responses (`baidu_std`) and stream frames (`streaming_rpc`), and each
cut makes the protocol of what was cut the preferred one.  A client falls from `baidu_std` to
`streaming_rpc` but not the other way round, so a response behind a stream frame fails the socket
unless an RPC was issued in between (`client_cuts_every_frame`).
-/

import Brpc.Messenger.Serve

namespace Brpc.Messenger

open List Conn Scan

/-- What happens to a client connection. -/
inductive Event
  /-- `DoRead` returns these bytes. -/
  | read (bs : Bytes)
  /-- `Controller::IssueRPC` of a `baidu_std` channel picks the connection. -/
  | issueRPC

def Conn.step (hs : Handlers) (c : Conn) : Event → Conn
  | .read bs => c.read hs bs
  | .issueRPC =>
    { c with socket := { c.socket with preferredIndex := some Kind.baiduStd.index } }

/-- A client connection whose preferred protocol is `baidu_std`. -/
def Conn.client : Conn :=
  { socket := { createdByConnect := true, readBuf := [], preferredIndex := some Kind.baiduStd.index }
    cut := []
    consumed := 0
    verdict := .more }

/-- The bytes of these frames. -/
def stream (fs : List Frame) : Bytes := fs.flatMap Frame.encode

@[simp] theorem stream_cons (f : Frame) (fs : List Frame) : stream (f :: fs) = f.encode ++ stream fs := flatMap_cons

@[simp] theorem stream_append (fs gs : List Frame) : stream (fs ++ gs) = stream fs ++ stream gs := flatMap_append

/-- The bytes read. -/
def received : List Event → Bytes
  | [] => []
  | .read bs :: es => bs ++ received es
  | .issueRPC :: es => received es

/-- The offsets, counted from `n`, at which a response follows a stream frame; the frame
before `fs` is of the protocol `k`. -/
def switches (k : Kind) (n : ℕ) : List Frame → List ℕ
  | [] => []
  | f :: fs =>
    (if k = .streamingRpc ∧ f.kind = .baiduStd then [n] else []) ++
      switches f.kind (n + f.encode.length) fs

/-- The numbers of bytes read, counted from `n`, at which an RPC is issued. -/
def issuedAt (n : ℕ) : List Event → List ℕ
  | [] => []
  | .read bs :: es => issuedAt (n + bs.length) es
  | .issueRPC :: es => n :: issuedAt n es

variable {n : ℕ}

theorem le_of_mem_issuedAt {x : ℕ} {es : List Event} (h : x ∈ issuedAt n es) : n ≤ x := by
  induction es generalizing n with
  | nil => cases h
  | cons e es ih =>
    cases e with
    | read => exact Nat.le_of_add_right_le (ih h)
    | issueRPC =>
      rcases mem_cons.mp h with rfl | h
      · exact Nat.le_refl x
      · exact ih h

theorem Frame.length_encode_pos (f : Frame) : 0 < f.encode.length := by
  rw [f.length_encode]
  exact Nat.add_pos_left (by decide) _

variable {fs : List Frame}

theorem lt_of_mem_switches {k : Kind} {x : ℕ} (h : x ∈ switches k n fs) : n ≤ x := by
  induction fs generalizing k n with
  | nil => cases h
  | cons f fs ih =>
    rcases mem_append.mp h with h | h
    · split at h
      · exact Nat.le_of_eq (mem_singleton.mp h).symm
      · cases h
    · exact Nat.le_of_add_right_le (ih h)

/-! ### The cuts of a client -/

variable {m : ℕ}

variable {f : Frame}

theorem scan_encode (hf : f.WellFormed m) (v : Bytes) : scan m (f.encode ++ v) = .frame f v := by
  have hne : f.encode ≠ [] := ne_nil_of_length_pos f.length_encode_pos
  have hhead : f.kind.Heads (f.encode ++ v) :=
    (Kind.heads_append_iff (by rw [f.length_encode, headerSize]; omega) v).mpr f.heads_encode
  rw [scan_of_heads (append_ne_nil_of_left_ne_nil hne v) hhead, scanAs, parseFrame_encode hf, ofAnswer]

theorem scan_part (hf : f.WellFormed m) {u v : Bytes} (hu : u ≠ []) (hv : v ≠ [])
    (h : u ++ v = f.encode) : scan m u = .more (some f.kind) := by
  have hscan : scan m (u ++ v) = .frame f [] := by
    rw [h]
    simpa using scan_encode hf []
  rw [scan_of_append_eq hu hv (by rw [hscan, rest]), hscan, kind]

/-- A client that prefers `p` can cut `f`. -/
def Accepts (p : Kind) (f : Frame) : Prop := ¬ (p = .streamingRpc ∧ f.kind = .baiduStd)

variable {p : Kind} {s : Bytes}

theorem cutFrom_accepts (hp : Accepts p f) (h : (scan m s).kind = some f.kind)
    (hne : (parseFrame f.kind m s).1 ≠ .error .tryOthers) :
    cutFrom m true p s = .settle f.kind (parseFrame f.kind m s) := by
  by_cases hk : f.kind = p
  · subst hk
    exact cutFrom_of_ne hne
  · refine cutFrom_of_next h hk ?_
    cases p with
    | baiduStd => rw [Kind.next, Kind.eq_other_of_ne hk]; rfl
    | streamingRpc => exact absurd ⟨rfl, Kind.eq_other_of_ne hk⟩ hp

theorem cutFrom_frame (hf : f.WellFormed m) (hp : Accepts p f) (v : Bytes) :
    cutFrom m true p (f.encode ++ v) = .msg f f.kind v := by
  rw [cutFrom_accepts hp (by rw [scan_encode hf, kind]) (by rw [parseFrame_encode hf]; simp),
    parseFrame_encode hf, Cut.settle]

theorem cutFrom_part (hf : f.WellFormed m) (hp : Accepts p f) {u v : Bytes}
    (hu : u ≠ []) (hv : v ≠ []) (h : u ++ v = f.encode) : cutFrom m true p u = .more f.kind u := by
  have hscan := scan_part hf hu hv h
  have hparse : parseFrame f.kind m u = (.error .notEnoughData, u) := by
    rw [parseFrame_eq_answer, hscan, answer, if_pos rfl]
  rw [cutFrom_accepts hp (by rw [hscan, kind]) (by rw [hparse]; simp), hparse, Cut.settle]

/-- **The other direction is not coded**: a response after a stream frame fails. -/
theorem cutFrom_blocked (h : (scan m s).kind = some .baiduStd) : cutFrom m true .streamingRpc s = .fail s := by
  have hp : parseFrame .streamingRpc m s = (.error .tryOthers, s) := by
    rw [parseFrame_eq_answer, answer_of_kind_ne h (by decide)]
  rw [cutFrom_of_eq hp]
  rfl

/-! ### A read -/

/-- `b` is what was read of the next frame of `fs`; a socket that prefers `p` has accepted
it. -/
def Inside (p : Kind) (b : Bytes) (fs : List Frame) : Prop :=
  b = [] ∨ ∃ f fs' v, fs = f :: fs' ∧ v ≠ [] ∧ b ≠ [] ∧ b ++ v = f.encode ∧ Accepts p f

theorem switches_cons_of_accepts (h : Accepts p f) (n : ℕ) (fs : List Frame) :
    switches p n (f :: fs) = switches f.kind (n + f.encode.length) fs := by
  rw [switches, if_neg h, nil_append]

theorem accepts_self (f : Frame) : Accepts f.kind f := fun h => by simp [h.2] at h

variable {t : Bytes}

theorem part_or_whole (h : s ++ t = stream (f :: fs)) :
    (∃ v, v ≠ [] ∧ s ++ v = f.encode) ∨ ∃ s', s = f.encode ++ s' ∧ s' ++ t = stream fs := by
  rw [stream_cons] at h
  rcases append_eq_append_iff.mp h with ⟨v, hv, ht⟩ | ⟨s', hs, ht⟩
  · by_cases hnil : v = []
    · subst hnil
      exact .inr ⟨[], by simpa using hv.symm, by simpa using ht⟩
    · exact .inl ⟨v, hnil, hv.symm⟩
  · exact .inr ⟨s', hs, ht.symm⟩

theorem scan_kind_of_append_eq (hf : f.WellFormed m)
    (hs : s ≠ []) (h : s ++ t = stream (f :: fs)) : (scan m s).kind = some f.kind := by
  rcases part_or_whole h with ⟨v, hv, hpart⟩ | ⟨s', rfl, -⟩
  · rw [scan_part hf hs hv hpart, kind]
  · rw [scan_encode hf, kind]

/-- **A read cuts frames up to where the bytes end, or fails at a switch.**  By induction on the
frames of the stream; `n` is the offset of the first. -/
theorem serves_stream (hwf : ∀ f ∈ fs, f.WellFormed m)
    {gs : List Frame} {e : End} (h : s ++ t = stream fs) (hserve : Serves m true p s gs e) :
    (∃ k b fs', e = .more k b ∧ fs = gs ++ fs' ∧ b ++ t = stream fs' ∧ Inside k b fs' ∧
      switches p n fs = switches k (n + (stream gs).length) fs') ∨
    (∃ b, e = .fail b) ∧ ∃ x ∈ switches p n fs, x < n + s.length := by
  induction fs generalizing p s gs e n with
  | nil =>
    obtain ⟨rfl, rfl⟩ := append_eq_nil_iff.mp h
    obtain ⟨rfl, rfl⟩ := hserve.unique (.more (cutFrom_nil p))
    exact .inl ⟨p, [], [], rfl, rfl, rfl, .inl rfl, rfl⟩
  | cons f fs ih =>
    have hf := hwf f (mem_cons_self ..)
    by_cases hs : s = []
    · subst hs
      obtain ⟨rfl, rfl⟩ := hserve.unique (.more (cutFrom_nil p))
      exact .inl ⟨p, [], f :: fs, rfl, rfl, h, .inl rfl, rfl⟩
    by_cases hp : Accepts p f
    · rw [switches_cons_of_accepts hp]
      rcases part_or_whole h with ⟨v, hv, hpart⟩ | ⟨s', rfl, ht⟩
      · obtain ⟨rfl, rfl⟩ := hserve.unique (.more (cutFrom_part hf hp hs hv hpart))
        refine .inl ⟨f.kind, s, f :: fs, rfl, rfl, h, .inr ⟨f, fs, v, rfl, hv, hs, hpart, accepts_self f⟩, ?_⟩
        exact (switches_cons_of_accepts (accepts_self f) n fs).symm
      · obtain ⟨gs', e', hserve'⟩ := @exists_serves m true f.kind s'
        obtain ⟨rfl, rfl⟩ := hserve.unique (.msg (cutFrom_frame hf hp s') hserve')
        rcases ih (fun g hg => hwf g (mem_cons_of_mem f hg)) ht hserve' with
          ⟨k, b, fs', rfl, rfl, hb, hin, hsw⟩ | ⟨hfail, x, hx, hlt⟩
        · refine .inl ⟨k, b, fs', rfl, rfl, hb, hin, ?_⟩
          rw [hsw, stream_cons, length_append, Nat.add_assoc]
        · refine .inr ⟨hfail, x, hx, ?_⟩
          rw [length_append]
          omega
    · have hk : p = .streamingRpc ∧ f.kind = .baiduStd := not_not.mp hp
      have hkind := scan_kind_of_append_eq hf hs h
      rw [hk.2] at hkind
      rw [hk.1] at hserve
      obtain ⟨rfl, rfl⟩ := hserve.unique (.fail (cutFrom_blocked hkind))
      refine .inr ⟨⟨s, rfl⟩, n, ?_, Nat.lt_add_of_pos_right (length_pos_of_ne_nil hs)⟩
      rw [switches, if_pos hk]
      exact mem_cons_self ..

/-! ### The whole connection -/

theorem mem_switches_baiduStd_iff {b : Bytes} (hin : Inside p b fs) (n x : ℕ) :
    x ∈ switches .baiduStd n fs ↔ x ∈ switches p n fs ∧ x ≠ n + b.length := by
  cases fs with
  | nil => simp [switches]
  | cons f fs =>
    have hbaidu : Accepts .baiduStd f := by simp [Accepts]
    have hlt : n + b.length < n + f.encode.length := by
      rcases hin with rfl | ⟨f', _, v, hfs, hv, -, hb, -⟩
      · exact Nat.add_lt_add_left f.length_encode_pos n
      · cases hfs
        have := length_pos_of_ne_nil hv
        rw [← hb, length_append]
        omega
    rw [switches_cons_of_accepts hbaidu]
    constructor
    · intro hx
      have := lt_of_mem_switches hx
      exact ⟨mem_append_right _ hx, by omega⟩
    · rintro ⟨hx, hne⟩
      rcases mem_append.mp hx with h | h
      · -- the switch at the head of `fs` is where the socket stands
        split at h
        · next hsw =>
          rcases hin with rfl | ⟨f', _, v, hfs, -, -, -, hacc⟩
          · exact absurd (mem_singleton.mp h) hne
          · cases hfs
            exact absurd hsw hacc
        · cases h
      · exact h

variable {c : Conn}

theorem Conn.run_of_failed (hs : Handlers) (es : List Event) (h : c.verdict = .failed) :
    (Lib.run (step hs) c es).verdict = .failed := by
  refine Lib.run_invariant' (I := fun c : Conn => c.verdict = .failed) ?_ es h
  intro c e h
  cases e with
  | read => rw [step, read, if_neg (by simp [h])]; exact h
  | issueRPC => exact h

/-- Everything of `fs` has been cut from `c`. -/
structure Conn.Done (c : Conn) (fs : List Frame) (c' : Conn) : Prop where
  cut : c'.cut = c.cut ++ fs
  consumed : c'.consumed = c.consumed + (stream fs).length
  readBuf : c'.socket.readBuf = []
  verdict : c'.verdict = .more

theorem Conn.done_with_socket (c : Conn) (sock : Socket) (fs : List Frame) (c' : Conn) :
    Done { c with socket := sock } fs c' ↔ c.Done fs c' :=
  ⟨fun h => { h with }, fun h => { h with }⟩

theorem Conn.Becomes.done_iff {c' c'' : Conn} {gs : List Frame} {e : End}
    (h : c.Becomes gs e c') (hlen : c.socket.readBuf.length = (stream gs).length + e.buf.length) :
    c.Done (gs ++ fs) c'' ↔ c'.Done fs c'' := by
  have hcons : c'.consumed = c.consumed + (stream gs).length := by
    have := h.consumed
    omega
  constructor
  all_goals
    rintro ⟨h₁, h₂, h₃, h₄⟩
    refine ⟨?_, ?_, h₃, h₄⟩
    · rw [h₁, h.cut, append_assoc]
    · rw [h₂, hcons, stream_append, length_append, Nat.add_assoc]

theorem Inside.eq_nil (h : Inside p (stream fs) fs) : fs = [] := by
  cases fs with
  | nil => rfl
  | cons f =>
    have hpos := f.length_encode_pos
    rcases h with h | ⟨f', _, v, hfs, hv, -, hb, -⟩
    · simp only [stream_cons, append_eq_nil_iff] at h
      simp [h.1] at hpos
    · cases hfs
      have := congrArg List.length hb
      have := length_pos_of_ne_nil hv
      simp only [stream_cons, length_append] at *
      omega

/-- The run from any moment on.  The induction is on the events; `n` is the offset of the
next frame. -/
theorem run_done_iff {hs : Handlers} (es : List Event) (hwf : ∀ f ∈ fs, f.WellFormed hs.maxBodySize)
    (hv : c.verdict = .more) (hc : c.socket.createdByConnect = true)
    (hp : c.socket.preferredIndex = some p.index) (hin : Inside p c.socket.readBuf fs)
    (hrec : c.socket.readBuf ++ received es = stream fs) : c.Done fs (Lib.run (step hs) c es) ↔
      ∀ x ∈ switches p n fs, x ∈ issuedAt (n + c.socket.readBuf.length) es := by
  induction es generalizing fs p c n with
  | nil =>
    rw [received, append_nil] at hrec
    obtain rfl := (hrec ▸ hin).eq_nil
    exact ⟨fun _ _ hx => (by cases hx), fun _ => ⟨(append_nil _).symm, rfl, hrec, hv⟩⟩
  | cons e es ih =>
    cases e with
    | read bs =>
      rw [Lib.run_cons, step, issuedAt]
      obtain ⟨gs, e, hserve⟩ := @exists_serves hs.maxBodySize true p (c.socket.readBuf ++ bs)
      have hb := read_spec hserve hv hc (.inl rfl) (.inl hp)
      rw [received, ← append_assoc] at hrec
      rcases serves_stream (n := n) hwf hrec hserve with
        ⟨k, b, fs', rfl, rfl, ht, hin', hsw⟩ | ⟨⟨b, rfl⟩, x, hx, hlt⟩
      · have hsplit : c.socket.readBuf ++ bs = stream gs ++ b := by
          rw [stream_append, ← ht, ← append_assoc] at hrec
          exact append_cancel_right hrec
        have hlen := congrArg List.length hsplit
        rw [length_append, length_append] at hlen
        have hbuf : (c.read hs bs).socket.readBuf = b := hb.readBuf
        have hih := ih (fun f hf => hwf f (mem_append_right _ hf)) (n := n + (stream gs).length)
          hb.ended.1 (hb.client.trans hc) hb.ended.2 (hbuf ▸ hin') (hbuf ▸ ht)
        rw [hbuf, show n + (stream gs).length + b.length = n + c.socket.readBuf.length + bs.length by
          omega, ← hsw] at hih
        rw [← hih, ← hb.done_iff (by simpa [End.buf] using hlen)]
        exact (done_with_socket ..).symm
      · refine iff_of_false (fun h => ?_) fun h => ?_
        · have := run_of_failed hs es hb.ended
          rw [h.verdict] at this
          cases this
        · have := le_of_mem_issuedAt (h x hx)
          rw [length_append] at hlt
          omega
    | issueRPC =>
      have hin' : Inside .baiduStd c.socket.readBuf fs := by
        rcases hin with h | ⟨f, fs', v, h₁, h₂, h₃, h₄, -⟩
        · exact .inl h
        · exact .inr ⟨f, fs', v, h₁, h₂, h₃, h₄, by simp [Accepts]⟩
      have hih := ih (n := n) (c := { c with
        socket := { c.socket with preferredIndex := some Kind.baiduStd.index } })
        hwf hv hc rfl hin' hrec
      refine (done_with_socket c _ fs _).symm.trans (hih.trans ?_)
      constructor
      · intro h x hx
        by_cases hxn : x = n + c.socket.readBuf.length
        · exact hxn ▸ mem_cons_self ..
        · exact mem_cons_of_mem _ (h x ((mem_switches_baiduStd_iff hin n x).mpr ⟨hx, hxn⟩))
      · intro h x hx
        obtain ⟨hx, hxn⟩ := (mem_switches_baiduStd_iff hin n x).mp hx
        exact (mem_cons.mp (h x hx)).resolve_left hxn

/-- **Every frame is cut exactly when an RPC is issued at each switch**: all frames are cut, in
order and each once, and the socket does not fail, exactly when between each stream frame and a
response right behind it, the reads pause and an RPC is issued. -/
theorem client_cuts_every_frame (hs : Handlers) (fs : List Frame)
    (hwf : ∀ f ∈ fs, f.WellFormed hs.maxBodySize) (es : List Event)
    (hrec : received es = stream fs) : client.Done fs (Lib.run (step hs) .client es) ↔
      ∀ x ∈ switches .baiduStd 0 fs, x ∈ issuedAt 0 es :=
  run_done_iff es hwf rfl rfl rfl (.inl rfl) hrec

def emptyFrame (k : Kind) : Frame := { kind := k, metaBuf := [], payload := [] }

/-- The reads pause behind the stream frame and an RPC is issued there. -/
theorem response_after_issue_is_cut : let hs : Handlers := { maxBodySize := 64, others := [] }
    let fs := [emptyFrame .streamingRpc, emptyFrame .baiduStd]
    let es := [Event.read (emptyFrame .streamingRpc).encode, .issueRPC, .read (emptyFrame .baiduStd).encode]
    client.Done fs (Lib.run (step hs) .client es) := by
  intro hs fs es
  refine (client_cuts_every_frame hs fs ?_ es rfl).mpr (by decide)
  intro f hf
  rcases mem_pair.mp hf with rfl | rfl
  all_goals exact ⟨by decide, by decide⟩

/-- A stream frame and a response that arrive in one read: the socket fails with the
response in the buffer. -/
theorem response_behind_stream_frame_fails : let hs : Handlers := { maxBodySize := 64, others := [] }
    let fs := [emptyFrame .streamingRpc, emptyFrame .baiduStd]
    let c := Lib.run (step hs) .client [.read (stream fs)]
    c.verdict = .failed ∧ c.cut = [emptyFrame .streamingRpc] ∧ c.socket.readBuf = (emptyFrame .baiduStd).encode := by
  decide

end Brpc.Messenger
