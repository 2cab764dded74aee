/-
A stream of packets: the octets a connection receives, cut into packets by
`MqttFixedHeader.decode`.

The reactor that reads packets off a socket is not in the source; `readPackets` is the read
discipline of the spec (§4.3) over the codec.  It decodes a fixed header, takes the
`remaining_len` octets after it as the packet's body, and goes on; it stops on
`UnderflowDecodeError`, or on a body not all there yet, and keeps the octets from there for
the next `read()`; any other error of `decode` is its error.  `readChunks` is a run of
`read()`s, each appending the octets `recv()` returned to those pending.

A `Packet` is what the packet classes write: a fixed header, the body writer of its class, and
the body that writer writes, whose length is `remaining_len`.  `bufferPacket` is the tests'
`buffer_packet(packet)`, the octets `packet.encode` writes into a fresh `BytesIO`.

* `readChunks_eq_readAll` — however a byte stream is cut into the chunks `recv()` returns,
  reading it chunk by chunk gives what reading it whole gives: the same packets, the same
  pending octets, or the same error;
* `readAll_eq_ok_iff`, `readAll_eq_error_iff` — what one pass returns: the whole packets at
  the front, each a fixed header that `decode` reads and its body, with exactly the front of a
  packet not all received left pending; or the error `decode` raises after the whole packets,
  when it is not an underflow;
* `readChunks_pending_lt` — after any run of `read()`s, what is pending is the front of a
  packet not all received, shorter than the longest packet;
* `readAll_bufferPacket` — the octets `buffer_packet` returns for a list of packets, sent one
  after another, are read back as exactly those packets, in order, with nothing pending (and
  so, by the first, however they are cut).
-/
import HakaMqtt.Connack

namespace HakaMqtt

open MqttFixedHeader

/-- What the reader returns: the packets read, each a header and its body, and the octets
pending after them. -/
abbrev ReadResult := Except PyException (List (MqttFixedHeader × List UInt8) × List UInt8)

/-- Modelled from the spec: the packets at the front of `buf` and the octets after them,
reading `fuel` packets at most. -/
def readPackets : Nat → List UInt8 → ReadResult
  | 0, buf => .ok ([], buf)
  | fuel + 1, buf =>
    match decode buf with
    | .ok (n, h) =>
      if n + h.remainingLen.toNat ≤ buf.length then do
        let (ps, rest) ← readPackets fuel (buf.drop (n + h.remainingLen.toNat))
        pure ((h, (buf.drop n).take h.remainingLen.toNat) :: ps, rest)
      else .ok ([], buf)
    | .error .underflowDecodeError => .ok ([], buf)
    | .error e => .error e

/-- Modelled from the spec: the reader over `buf`.  A packet takes an octet at least, so
`len(buf)` rounds read them all. -/
def readAll (buf : List UInt8) : ReadResult := readPackets buf.length buf

/-- Modelled from the spec: one `read()`.  The octets received are appended to those pending,
and the packets at the front are read. -/
def readChunk (st : List (MqttFixedHeader × List UInt8) × List UInt8) (chunk : List UInt8) :
    ReadResult := do
  let (ps, rest) ← readAll (st.2 ++ chunk)
  pure (st.1 ++ ps, rest)

/-- Modelled from the spec: a run of `read()`s over the chunks `recv()` returns. -/
def readChunks (chunks : List (List UInt8)) : ReadResult := chunks.foldlM readChunk ([], [])

/-! ### One step of the reader -/

theorem readPackets_of_underflow {buf : List UInt8} (hd : decode buf = .error .underflowDecodeError)
    (fuel : Nat) : readPackets fuel buf = .ok ([], buf) := by
  cases fuel <;> simp [readPackets, hd]

theorem readPackets_of_error {buf : List UInt8} {msg : String}
    (hd : decode buf = .error (.decodeError msg)) (fuel : Nat) :
    readPackets (fuel + 1) buf = .error (.decodeError msg) := by
  simp [readPackets, hd]

/-- A header whose body is not all there yet: the reader waits for more octets. -/
theorem readPackets_of_short {buf : List UInt8} {n : Nat} {h : MqttFixedHeader}
    (hd : decode buf = .ok (n, h)) (hl : buf.length < n + h.remainingLen.toNat) (fuel : Nat) :
    readPackets fuel buf = .ok ([], buf) := by
  cases fuel <;> simp [readPackets, hd, show ¬ n + h.remainingLen.toNat ≤ buf.length by omega]

/-- A whole packet: the reader takes its body and goes on after it. -/
theorem readPackets_of_whole {buf : List UInt8} {n : Nat} {h : MqttFixedHeader}
    (hd : decode buf = .ok (n, h)) (hl : n + h.remainingLen.toNat ≤ buf.length) (fuel : Nat) :
    readPackets (fuel + 1) buf = (readPackets fuel (buf.drop (n + h.remainingLen.toNat))).map
      fun r => ((h, (buf.drop n).take h.remainingLen.toNat) :: r.1, r.2) := by
  simp only [readPackets, hd, if_pos hl]
  cases readPackets fuel (buf.drop (n + h.remainingLen.toNat)) <;> rfl

theorem readPackets_nil (fuel : Nat) : readPackets fuel [] = .ok ([], []) :=
  readPackets_of_underflow decode_nil fuel

/-- The reader reads the same with any number of rounds past the length of the buffer. -/
theorem readPackets_fuel {buf : List UInt8} {f₁ f₂ : Nat} (h₁ : buf.length ≤ f₁)
    (h₂ : buf.length ≤ f₂) : readPackets f₁ buf = readPackets f₂ buf := by
  induction f₁ generalizing buf f₂ with
  | zero => rw [List.length_eq_zero.mp (Nat.le_zero.mp h₁), readPackets_nil, readPackets_nil]
  | succ f ih =>
    rcases decode_cases buf with ⟨⟨n, h⟩, hd⟩ | hd | ⟨msg, hd⟩
    · by_cases hl : n + h.remainingLen.toNat ≤ buf.length
      · obtain ⟨k, -, -, rfl, -⟩ := (decode_eq_ok_iff buf _ h).mp hd
        obtain ⟨g, rfl⟩ : ∃ g, f₂ = g + 1 := ⟨f₂ - 1, by omega⟩
        rw [readPackets_of_whole hd hl, readPackets_of_whole hd hl,
          @ih _ g (by simp; omega) (by simp; omega)]
      · rw [readPackets_of_short hd (by omega), readPackets_of_short hd (by omega)]
    · rw [readPackets_of_underflow hd, readPackets_of_underflow hd]
    · have hne : buf ≠ [] := by rintro rfl; cases hd
      obtain ⟨g, rfl⟩ : ∃ g, f₂ = g + 1 :=
        ⟨f₂ - 1, by have := List.length_pos.mpr hne; omega⟩
      rw [readPackets_of_error hd, readPackets_of_error hd]

theorem readPackets_eq_readAll {buf : List UInt8} {fuel : Nat} (hf : buf.length ≤ fuel) :
    readPackets fuel buf = readAll buf :=
  readPackets_fuel hf le_rfl

/-! ### What a stream is read as -/

/-- The front of a packet not all received: `decode` underflows, or it reads a fixed header
whose body is not all there. -/
def Incomplete (buf : List UInt8) : Prop :=
  decode buf = .error .underflowDecodeError ∨
    ∃ n h, decode buf = .ok (n, h) ∧ buf.length < n + h.remainingLen.toNat

/-- `buf` is the packets `ps`, each the octets of a fixed header, which `decode` reads alone,
and the `remaining_len` octets of its body, followed by the octets `rest`. -/
inductive Frames : List UInt8 → List (MqttFixedHeader × List UInt8) → List UInt8 → Prop
  | nil (rest : List UInt8) : Frames rest [] rest
  | cons {hb body buf : List UInt8} {h : MqttFixedHeader} {ps rest}
      (hd : decode hb = .ok (hb.length, h)) (hl : body.length = h.remainingLen.toNat)
      (t : Frames buf ps rest) : Frames (hb ++ body ++ buf) ((h, body) :: ps) rest

theorem readAll_of_incomplete {buf : List UInt8} (hi : Incomplete buf) :
    readAll buf = .ok ([], buf) := by
  rcases hi with hd | ⟨n, h, hd, hl⟩
  · exact readPackets_of_underflow hd _
  · exact readPackets_of_short hd hl _

theorem readAll_of_error {buf : List UInt8} {e : PyException} (hd : decode buf = .error e)
    (he : e ≠ .underflowDecodeError) : readAll buf = .error e := by
  rcases decode_cases buf with ⟨r, hr⟩ | hr | ⟨msg, hr⟩ <;> rw [hd] at hr
  · cases hr
  · cases hr; exact absurd rfl he
  · cases hr
    rcases buf with _ | ⟨b, bs⟩
    · cases hd
    · exact readPackets_of_error hd bs.length

/-- A whole packet at the front: the reader takes it and reads on after it. -/
theorem readAll_frame {hb body : List UInt8} {h : MqttFixedHeader}
    (hd : decode hb = .ok (hb.length, h)) (hl : body.length = h.remainingLen.toNat)
    (s : List UInt8) :
    readAll (hb ++ body ++ s) = (readAll s).map fun r => ((h, body) :: r.1, r.2) := by
  have hd' : decode (hb ++ body ++ s) = .ok (hb.length, h) := by
    rw [List.append_assoc, decode_append (by simp [hd]), hd]
  have hpos : 0 < hb.length := List.length_pos.mpr (by rintro rfl; cases hd)
  obtain ⟨f, hf⟩ : ∃ f, (hb ++ body ++ s).length = f + 1 :=
    ⟨hb.length - 1 + body.length + s.length, by simp; omega⟩
  rw [readAll, hf, readPackets_of_whole hd' (by simp; omega), ← hl,
    List.drop_left' (List.length_append hb body), List.append_assoc, List.drop_left,
    List.take_left, readPackets_eq_readAll (by simp at hf; omega)]

theorem Frames.readAll_eq {buf rest : List UInt8} {ps : List (MqttFixedHeader × List UInt8)}
    (hf : Frames buf ps rest) : readAll buf = (readAll rest).map fun r => (ps ++ r.1, r.2) := by
  induction hf with
  | nil rest => cases readAll rest <;> rfl
  | cons hd hl _ ih =>
    rw [readAll_frame hd hl, ih]
    cases readAll _ <;> rfl

theorem Frames.append {buf rest : List UInt8} {ps : List (MqttFixedHeader × List UInt8)}
    (hf : Frames buf ps rest) (y : List UInt8) : Frames (buf ++ y) ps (rest ++ y) := by
  induction hf with
  | nil rest => exact .nil _
  | cons hd hl _ ih =>
    rw [List.append_assoc]
    exact .cons hd hl ih

/-- Every buffer is whole packets followed by the front of one more, which the reader keeps
pending, or by octets `decode` refuses, whose error the reader raises. -/
theorem readAll_cases (buf : List UInt8) : ∃ ps rest, Frames buf ps rest ∧
    (Incomplete rest ∧ readAll buf = .ok (ps, rest) ∨
      ∃ e, e ≠ .underflowDecodeError ∧ decode rest = .error e ∧ readAll buf = .error e) := by
  obtain ⟨m, hm⟩ : ∃ m, buf.length = m := ⟨_, rfl⟩
  induction m using Nat.strong_induction_on generalizing buf with
  | _ m ih =>
  rcases decode_cases buf with ⟨⟨n, h⟩, hd⟩ | hd | ⟨msg, hd⟩
  · by_cases hl : n + h.remainingLen.toNat ≤ buf.length
    · obtain ⟨hb, body, s, rfl, hhd, hbody⟩ : ∃ hb body s, buf = hb ++ body ++ s ∧
          decode hb = .ok (hb.length, h) ∧ body.length = h.remainingLen.toNat := by
        refine ⟨buf.take n, (buf.drop n).take h.remainingLen.toNat,
          buf.drop (n + h.remainingLen.toNat), ?_, ?_, by simp; omega⟩
        · rw [List.append_assoc, ← List.drop_drop, List.take_append_drop, List.take_append_drop]
        · rw [List.length_take, min_eq_left (decode_ok_le hd).1]
          exact decode_take hd
      have hpos : 0 < hb.length := List.length_pos.mpr (by rintro rfl; cases hhd)
      obtain ⟨ps, rest, hf, hr⟩ := ih s.length (by simp at hm; omega) s rfl
      refine ⟨_, rest, .cons hhd hbody hf, ?_⟩
      rw [readAll_frame hhd hbody]
      rcases hr with ⟨hi, hr⟩ | ⟨e, he, hde, hr⟩
      · exact .inl ⟨hi, by rw [hr]; rfl⟩
      · exact .inr ⟨e, he, hde, by rw [hr]; rfl⟩
    · have hi : Incomplete buf := .inr ⟨n, h, hd, by omega⟩
      exact ⟨[], buf, .nil buf, .inl ⟨hi, readAll_of_incomplete hi⟩⟩
  · exact ⟨[], buf, .nil buf, .inl ⟨.inl hd, readAll_of_incomplete (.inl hd)⟩⟩
  · exact ⟨[], buf, .nil buf, .inr ⟨_, by simp, hd, readAll_of_error hd (by simp)⟩⟩

theorem frames_of_readAll_eq_ok {buf rest : List UInt8} {ps : List (MqttFixedHeader × List UInt8)}
    (h : readAll buf = .ok (ps, rest)) : Frames buf ps rest ∧ Incomplete rest := by
  obtain ⟨ps', rest', hf, ⟨hi, h'⟩ | ⟨e, -, -, h'⟩⟩ := readAll_cases buf <;> rw [h'] at h
  · cases h
    exact ⟨hf, hi⟩
  · cases h

/-- **What the reader returns.**  It returns the packets `ps` with the octets `rest` pending
exactly when the buffer is those packets, each a fixed header and its body, followed by
`rest`, and `rest` is the front of a packet not all received. -/
theorem readAll_eq_ok_iff (buf rest : List UInt8) (ps : List (MqttFixedHeader × List UInt8)) :
    readAll buf = .ok (ps, rest) ↔ Frames buf ps rest ∧ Incomplete rest := by
  refine ⟨frames_of_readAll_eq_ok, fun ⟨hf, hi⟩ => ?_⟩
  simp [hf.readAll_eq, readAll_of_incomplete hi, Except.map]

/-- **When the reader fails.**  It raises `e` exactly when the buffer is whole packets
followed by octets on which `decode` raises `e`, an error other than an underflow. -/
theorem readAll_eq_error_iff (buf : List UInt8) (e : PyException) :
    readAll buf = .error e ↔
      ∃ ps rest, Frames buf ps rest ∧ e ≠ .underflowDecodeError ∧ decode rest = .error e := by
  constructor
  · intro h
    obtain ⟨ps, rest, hf, ⟨-, h'⟩ | ⟨e', he, hd, h'⟩⟩ := readAll_cases buf <;> rw [h'] at h
    · cases h
    · cases h
      exact ⟨ps, rest, hf, he, hd⟩
  · rintro ⟨ps, rest, hf, he, hd⟩
    rw [hf.readAll_eq, readAll_of_error hd he]
    rfl

/-! ### Reading in two steps -/

theorem readChunk_nil (buf : List UInt8) (y : List UInt8) :
    readChunk ([], buf) y = readAll (buf ++ y) := by
  simp only [readChunk, List.nil_append]
  cases readAll (buf ++ y) <;> rfl

theorem readChunk_append_left (ps qs : List (MqttFixedHeader × List UInt8)) (r y : List UInt8) :
    readChunk (ps ++ qs, r) y = (readChunk (qs, r) y).map fun s => (ps ++ s.1, s.2) := by
  simp only [readChunk]
  cases readAll (r ++ y) <;> simp [Except.map]

/-- **Reading `x ++ y` is reading `x`, then the octets it leaves pending followed by `y`.** -/
theorem readAll_append (x y : List UInt8) : readAll (x ++ y) = readAll x >>= (readChunk · y) := by
  obtain ⟨ps, rest, hf, ⟨-, hx⟩ | ⟨e, he, hd, hx⟩⟩ := readAll_cases x <;>
    rw [(hf.append y).readAll_eq, hx]
  · show _ = readChunk (ps, rest) y
    unfold readChunk
    cases readAll (rest ++ y) <;> rfl
  · rw [readAll_of_error ((decode_append (by rw [hd]; simpa using he) y).trans hd) he]
    rfl

/-- One `read()` of `x ++ y` is one of `x`, then one of `y`. -/
theorem readChunk_append (st : List (MqttFixedHeader × List UInt8) × List UInt8)
    (x y : List UInt8) : readChunk st (x ++ y) = readChunk st x >>= (readChunk · y) := by
  obtain ⟨ps, r⟩ := st
  show readAll (r ++ (x ++ y)) >>= _ = (readAll (r ++ x) >>= _) >>= _
  rw [← List.append_assoc, readAll_append]
  cases readAll (r ++ x) with
  | error => rfl
  | ok q =>
    obtain ⟨qs, r'⟩ := q
    show readChunk (qs, r') y >>= _ = readChunk (ps ++ qs, r') y
    rw [readChunk_append_left]
    cases readChunk (qs, r') y <;> rfl

/-- A run of `read()`s from any state reads what one `read()` of all its chunks reads. -/
theorem foldlM_readChunk (cs : List (List UInt8)) (hcs : cs ≠ [])
    (st : List (MqttFixedHeader × List UInt8) × List UInt8) :
    cs.foldlM readChunk st = readChunk st cs.flatten := by
  induction cs generalizing st with
  | nil => exact absurd rfl hcs
  | cons c cs ih =>
    rcases cs with _ | ⟨c', cs⟩
    · simp only [List.foldlM_cons, List.foldlM_nil, List.flatten_cons, List.flatten_nil,
        List.append_nil]
      cases readChunk st c <;> rfl
    · rw [List.foldlM_cons, List.flatten_cons, readChunk_append]
      congr 1
      funext st'
      exact ih (List.cons_ne_nil _ _) st'

/-- **However the stream is cut, the reader reads the same.**  A run of `read()`s over the
chunks `recv()` returns reads the packets, leaves the octets pending, or raises the error that
one pass over all the octets does. -/
theorem readChunks_eq_readAll (cs : List (List UInt8)) : readChunks cs = readAll cs.flatten := by
  by_cases hcs : cs = []
  · subst hcs
    rfl
  · rw [readChunks, foldlM_readChunk cs hcs, readChunk_nil, List.nil_append]

/- Two CONNACKs, `20 02 00 00` and `20 02 01 05`, received as three chunks cut inside the
second fixed header; the last read leaves nothing pending. -/
example : readChunks [[0x20], [0x02, 0x00, 0x00, 0x20, 0x02], [0x01, 0x05]] =
    .ok ([(⟨.connack, 0, 2, rfl⟩, [0x00, 0x00]), (⟨.connack, 0, 2, rfl⟩, [0x01, 0x05])], []) := rfl

/-! ### What the reader keeps pending -/

/-- The front of a packet not all received is shorter than the longest packet, of
`1 + 4 + 268435455` octets. -/
theorem Incomplete.length_lt {buf : List UInt8} (hi : Incomplete buf) : buf.length < 268435460 := by
  rcases hi with hd | ⟨n, h, hd, hl⟩
  · rcases (decode_eq_underflow_iff buf).mp hd with rfl | ⟨-, h4, -⟩
    · simp
    · simp at h4; omega
  · obtain ⟨k, -, hk, rfl, -⟩ := (decode_eq_ok_iff buf _ h).mp hd
    have := (decode_ok_le hd).2
    have := hk.2.1
    omega

/-- One `read()` leaves pending the front of a packet not all received. -/
theorem readChunk_pending {st st' : List (MqttFixedHeader × List UInt8) × List UInt8}
    {c : List UInt8} (h : readChunk st c = .ok st') : Incomplete st'.2 := by
  unfold readChunk at h
  cases hr : readAll (st.2 ++ c) with
  | error => rw [hr] at h; cases h
  | ok r =>
    obtain ⟨ps, rest⟩ := r
    rw [hr] at h
    cases h
    exact (frames_of_readAll_eq_ok hr).2

theorem foldlM_readChunk_pending {cs : List (List UInt8)} :
    ∀ {st st' : List (MqttFixedHeader × List UInt8) × List UInt8}, Incomplete st.2 →
      cs.foldlM readChunk st = .ok st' → Incomplete st'.2 := by
  induction cs with
  | nil => rintro st st' hi ⟨⟩; exact hi
  | cons c cs ih =>
    intro st st' _ h
    rw [List.foldlM_cons] at h
    cases hr : readChunk st c <;> rw [hr] at h
    · cases h
    · exact ih (readChunk_pending hr) h

/-- **The reader keeps less than one packet pending.**  After any run of `read()`s, the octets
pending are the front of a packet not all received, fewer than the `268435460` octets of the
longest packet. -/
theorem readChunks_pending_lt (cs : List (List UInt8)) {ps : List (MqttFixedHeader × List UInt8)}
    {rest : List UInt8} (h : readChunks cs = .ok (ps, rest)) :
    Incomplete rest ∧ rest.length < 268435460 := by
  have hi := foldlM_readChunk_pending (.inl decode_nil) h
  exact ⟨hi, hi.length_lt⟩

theorem readChunks_pending_lt_connack :
    readChunks [[0x20], [0x02, 0x00]] = .ok ([], [0x20, 0x02, 0x00]) ∧
      (Incomplete [0x20, 0x02, 0x00] ∧ [0x20, 0x02, 0x00].length < 268435460) :=
  ⟨rfl, readChunks_pending_lt [[0x20], [0x02, 0x00]] rfl⟩

/-! ### The packets the codec writes -/

/-- A packet of one of the classes: its fixed header, the body writer of its class, and the
body that writer writes, of `remaining_len` octets. -/
structure Packet where
  header : MqttFixedHeader
  encodeBody : Sink → Except PyException (Nat × Sink)
  body : List UInt8
  encodeBody_file : ∀ w, encodeBody (.file w) = .ok (body.length, .file (w ++ body))
  remainingLen_eq : header.remainingLen = body.length
  length_le : body.length ≤ 268435455

/-- The method `encode(f)` of the packet's class, given `fuel` rounds of the loop of
`encode_varint`. -/
def Packet.encode (p : Packet) (fuel : Nat) (f : Sink) : Option (Except PyException (Nat × Sink)) :=
  p.header.encodeWith p.encodeBody fuel f

/-- A CONNECT that `MqttConnect(...)` builds, without a will, as a packet: its `encode` is
`MqttConnect.encode`. -/
def MqttConnect.toPacket (c : ConnectFields) (hc : c.Valid) (hw : c.will = none) : Packet where
  header := ⟨.connect, 0, c.bodyOctets.length, rfl⟩
  encodeBody := c.encodeConnectBody
  body := c.bodyOctets
  encodeBody_file := c.encodeConnectBody_file hc hw
  remainingLen_eq := rfl
  length_le := by have := c.length_bodyOctets_le hc; omega

/-- A CONNACK with `remaining_len = 2` and a return code below `256`, as a packet: its
`encode` is `MqttConnack.encode`.  The constructor never returns, so such a value is built field
by field, as the tests mean `MqttConnack(session_present, return_code)` to be. -/
def MqttConnack.toPacket (p : MqttConnack) (hv : p.remainingLen = 2) (h : p.returnCode ≤ 255) :
    Packet where
  header := p.toMqttFixedHeader
  encodeBody := p.encodeBody
  body := [UInt8.ofNat (if p.sessionPresent then 1 else 0), UInt8.ofNat p.returnCode]
  encodeBody_file := p.encodeBody_file (by omega)
  remainingLen_eq := by rw [hv]; rfl
  length_le := by simp

/-- The test helper `buffer_packet(packet)`: the octets `packet.encode` writes into a fresh
`BytesIO`. -/
def bufferPacket (encode : Sink → Option (Except PyException (Nat × Sink))) :
    Option (Except PyException (List UInt8)) :=
  (encode (.file [])).map fun r => do
    let (_, bio) ← r
    bio.getvalue

/-- `buffer_packet` returns the octets `encode` writes, and the reader reads the packet from
their front, whatever follows. -/
theorem Packet.bufferPacket_readAll (p : Packet) :
    ∃ w : List UInt8, (∀ fuel, 4 ≤ fuel → bufferPacket (p.encode fuel) = some (.ok w)) ∧
      ∀ s, readAll (w ++ s) = (readAll s).map fun r => ((p.header, p.body) :: r.1, r.2) := by
  obtain ⟨w, n, henc, hdec, hn, hslice⟩ :=
    p.header.encodeWith_decode p.remainingLen_eq p.length_le p.encodeBody_file [] []
  rw [List.append_nil] at hdec hslice
  have hrl : p.body.length = p.header.remainingLen.toNat := by rw [p.remainingLen_eq]; rfl
  have hbody : w.drop n = p.body := by
    rw [← hslice, List.take_of_length_le (by simp; omega)]
  have hhd : decode (w.take n) = .ok ((w.take n).length, p.header) := by
    rw [List.length_take, min_eq_left (decode_ok_le hdec).1]
    exact decode_take hdec
  refine ⟨w, fun fuel hf => by simp [bufferPacket, Packet.encode, henc fuel hf, Sink.getvalue],
    fun s => ?_⟩
  rw [← List.take_append_drop n w, hbody, readAll_frame hhd hrl]

/-- **A stream of packets is read back.**  For packets of any of the classes, the octets
`buffer_packet` returns for each, sent one after another, are read back as exactly those
packets, each a header and its body, in order, with nothing pending. -/
theorem readAll_bufferPacket (ps : List Packet) :
    ∃ ws : List (List UInt8),
      List.Forall₂ (fun p w => ∀ fuel, 4 ≤ fuel → bufferPacket (p.encode fuel) = some (.ok w))
        ps ws ∧
      readAll ws.flatten = .ok (ps.map fun p => (p.header, p.body), []) := by
  induction ps with
  | nil => exact ⟨[], .nil, rfl⟩
  | cons p ps ih =>
    obtain ⟨ws, hws, hread⟩ := ih
    obtain ⟨w, hw, hrd⟩ := p.bufferPacket_readAll
    refine ⟨w :: ws, .cons hw hws, ?_⟩
    rw [List.flatten_cons, hrd, hread]
    rfl

end HakaMqtt
