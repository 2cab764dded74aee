/-
The MQTT fixed header: `MqttControlPacketType`, `is_valid_flags` and `MqttFixedHeader`.

`MqttFixedHeader` carries the assertion of its `__init__` as a field, so a header with flags
that `is_valid_flags` refuses cannot be built; `__init__` itself is `MqttFixedHeader.init`,
which raises `AssertionError` there.  `remaining_len` is an unbounded `Int`, as in Python:
`__init__` does not check it.

* `mqttFixedHeader_encode_decode` — a header with `0 ≤ remaining_len ≤ 268435455` is written
  as `1 + k` octets, `k` the length of the shortest varint, and read back from them whatever
  follows;
* `mqttFixedHeader_decode_grammar` — `decode` accepts exactly the fixed-header grammar,
  underflows exactly on its proper prefixes, raises `DecodeError` on everything else, and is
  stable under extension of the buffer;
* `decode_encode_iff` — re-encoding a header `decode` read writes the octets it read back
  exactly when their varint is the shortest one;
* `encode_of_large`, `encode_of_neg` — out of range, `encode` writes a varint of five octets
  or more, or never returns;
* `encodeWith_decode` — a packet, a fixed header then a body of `remaining_len` octets, is
  framed by its header: a reader that decodes the header finds the body right after it.
-/
import HakaMqtt.Varint

namespace HakaMqtt

/-- The fourteen control packet types. -/
inductive MqttControlPacketType where
  | connect | connack | publish | puback | pubrec | pubrel | pubcomp
  | subscribe | suback | unsubscribe | unsuback | pingreq | pingresp | disconnect
  deriving DecidableEq, Repr

namespace MqttControlPacketType

/-- The enum value, `int(packet_type)`. -/
def toNat : MqttControlPacketType → Nat
  | connect => 1 | connack => 2 | publish => 3 | puback => 4 | pubrec => 5 | pubrel => 6
  | pubcomp => 7 | subscribe => 8 | suback => 9 | unsubscribe => 10 | unsuback => 11
  | pingreq => 12 | pingresp => 13 | disconnect => 14

/-- The call `MqttControlPacketType(n)`; `none` where it raises `ValueError`. -/
def ofNat? : Nat → Option MqttControlPacketType
  | 1 => some connect | 2 => some connack | 3 => some publish | 4 => some puback
  | 5 => some pubrec | 6 => some pubrel | 7 => some pubcomp | 8 => some subscribe
  | 9 => some suback | 10 => some unsubscribe | 11 => some unsuback | 12 => some pingreq
  | 13 => some pingresp | 14 => some disconnect | _ => none

@[simp] theorem ofNat?_toNat (t : MqttControlPacketType) : ofNat? t.toNat = some t := by
  cases t <;> rfl

theorem toNat_le (t : MqttControlPacketType) : t.toNat ≤ 14 := by
  cases t <;> decide

/-- `MqttControlPacketType(n)` raises `ValueError` exactly on `0` and from `15` on. -/
theorem ofNat?_eq_none_iff (n : Nat) : ofNat? n = none ↔ n = 0 ∨ 15 ≤ n := by
  rcases Nat.lt_or_ge n 15 with h | h
  · have : ∀ m < 15, (ofNat? m = none ↔ m = 0 ∨ 15 ≤ m) := by decide
    exact this n h
  · obtain ⟨m, rfl⟩ : ∃ m, n = m + 15 := ⟨n - 15, by omega⟩
    exact iff_of_true rfl (.inr (by omega))

theorem toNat_of_ofNat?_eq_some {n : Nat} {t : MqttControlPacketType} (h : ofNat? n = some t) :
    t.toNat = n := by
  rcases Nat.lt_or_ge n 15 with hn | hn
  · have : ∀ m < 15, ∀ t ∈ ofNat? m, t.toNat = m := by decide
    exact this n hn t h
  · rw [(ofNat?_eq_none_iff n).mpr (.inr hn)] at h
    cases h

end MqttControlPacketType

open MqttControlPacketType in
/-- Python's `is_valid_flags(packet_type, flags)` [MQTT-2.2.2-1].  Its last branch,
`raise NotImplementedError()`, is unreachable: the three tests cover all fourteen types. -/
def isValidFlags (packetType : MqttControlPacketType) (flags : Nat) : Bool :=
  match packetType with
  | publish => 0 ≤ flags && flags ≤ 15
  | pubrel | subscribe | unsubscribe => flags == 2
  | connect | connack | puback | pubrec | pubcomp | suback | unsuback | pingreq | pingresp
  | disconnect => flags == 0

theorem lt_16_of_isValidFlags {t : MqttControlPacketType} {flags : Nat}
    (h : isValidFlags t flags = true) : flags < 16 := by
  cases t <;> simp [isValidFlags] at h <;> omega

/-- A fixed header: the fields `MqttFixedHeader.__init__` stores, and its assertion. -/
@[ext] structure MqttFixedHeader where
  packetType : MqttControlPacketType
  flags : Nat
  remainingLen : Int
  validFlags : isValidFlags packetType flags = true

/-- Python's `'{:02x}'.format(n)`. -/
def hex02 (n : Nat) : String :=
  let ds := Nat.toDigits 16 n
  String.mk (List.replicate (2 - ds.length) '0' ++ ds)

namespace MqttFixedHeader

/-- The constructor `MqttFixedHeader(packet_type, flags, remaining_len)`. -/
def init (packetType : MqttControlPacketType) (flags : Nat) (remainingLen : Int) :
    Except PyException MqttFixedHeader :=
  if h : isValidFlags packetType flags = true then .ok ⟨packetType, flags, remainingLen, h⟩
  else .error .assertionError

/-- The static method `MqttFixedHeader.decode(buf)`: `(num_bytes_consumed, header)`. -/
def decode (buf : List UInt8) : Except PyException (Nat × MqttFixedHeader) := do
  let (packetType, flags) ← reraise .indexError .underflowDecodeError do
    let byte0 ← getItem buf 0
    let packetTypeByte := byte0.toNat >>> 4
    let flags := byte0.toNat &&& 0x0f
    let some packetType := MqttControlPacketType.ofNat? packetTypeByte
      | throw (.decodeError ("Unknown packet type 0x" ++ hex02 packetTypeByte ++ "."))
    if !isValidFlags packetType flags then throw (.decodeError "Invalid flags for packet type.")
    pure (packetType, flags)
  let numBytesConsumed := 1
  let (numNrbBytes, numRemainingBytes) ← decodeVarint (buf.drop numBytesConsumed)
  let numBytesConsumed := numBytesConsumed + numNrbBytes
  return (numBytesConsumed, ← init packetType flags numRemainingBytes)

/-- The method `encode(f)`, given `fuel` rounds of the loop of `encode_varint`. -/
def encode (h : MqttFixedHeader) (fuel : Nat) (f : Sink) :
    Option (Except PyException (Nat × Sink)) :=
  let b := (h.packetType.toNat <<< 4) ||| h.flags
  Option.map (reraise .indexError .overflowEncodeError) <|
    match f.writeChr b with
    | .error e => some (.error e)
    | .ok f =>
      let numBytesConsumed := 1
      (encodeVarint fuel h.remainingLen f).map fun r => do
        let (n, f) ← r
        pure (numBytesConsumed + n, f)

/-! ### Decoding -/

@[simp] theorem decode_nil : decode [] = .error .underflowDecodeError := rfl

/-- `decode` on a nonempty buffer: the first octet's checks, then `decode_varint`. -/
theorem decode_cons (b : UInt8) (rest : List UInt8) :
    decode (b :: rest) =
      match MqttControlPacketType.ofNat? (b.toNat / 16) with
      | none => .error (.decodeError ("Unknown packet type 0x" ++ hex02 (b.toNat / 16) ++ "."))
      | some t =>
        if hv : isValidFlags t (b.toNat % 16) = true then
          (decodeVarint rest).map fun r => (1 + r.1, ⟨t, b.toNat % 16, r.2, hv⟩)
        else .error (.decodeError "Invalid flags for packet type.") := by
  simp only [decode, getItem_cons_zero, except_ok_bind]
  simp only [shiftRight_four, land_0x0f, List.drop_one, List.tail_cons]
  cases MqttControlPacketType.ofNat? (b.toNat / 16) with
  | none => rfl
  | some t =>
    by_cases hv : isValidFlags t (b.toNat % 16) = true
    · rcases decodeVarint rest with e | ⟨n, v⟩ <;> simp [hv, init] <;> rfl
    · simp [hv]

/-- The types the spec calls unknown: on a first octet of type `0` or `15`, `decode` raises
`DecodeError('Unknown packet type 0x00.')` or `DecodeError('Unknown packet type 0x0f.')`. -/
theorem decode_cons_of_unknown {b : UInt8} (ht : b.toNat / 16 = 0 ∨ b.toNat / 16 = 15)
    (rest : List UInt8) : decode (b :: rest) =
      .error (.decodeError ("Unknown packet type 0x" ++ hex02 (b.toNat / 16) ++ ".")) := by
  rw [decode_cons, (MqttControlPacketType.ofNat?_eq_none_iff _).mpr (by omega)]

example : decode [0xF0] = .error (.decodeError "Unknown packet type 0x0f.") := rfl

end MqttFixedHeader

/-- The first octet of a fixed header names one of the fourteen types, with flags that
`is_valid_flags` accepts for it. -/
def ValidFirstByte (b : UInt8) : Prop :=
  ∃ t, MqttControlPacketType.ofNat? (b.toNat >>> 4) = some t ∧
    isValidFlags t (b.toNat &&& 0x0f) = true

theorem validFirstByte_iff (b : UInt8) (t : MqttControlPacketType)
    (ht : MqttControlPacketType.ofNat? (b.toNat / 16) = some t) :
    ValidFirstByte b ↔ isValidFlags t (b.toNat % 16) = true := by
  simp [ValidFirstByte, shiftRight_four, land_0x0f, ht]

theorem not_validFirstByte (b : UInt8) (ht : MqttControlPacketType.ofNat? (b.toNat / 16) = none) :
    ¬ ValidFirstByte b := by
  simp [ValidFirstByte, shiftRight_four, ht]

theorem varintSum_lt (bs : List UInt8) (k : Nat) : varintSum bs k < 128 ^ k := by
  induction k with
  | zero => simp
  | succ k ih =>
    rw [varintSum, Finset.sum_range_succ, ← varintSum, land_0x7f, pow_succ]
    have : (bs.getD k 0).toNat % 128 * 128 ^ k ≤ 127 * 128 ^ k :=
      Nat.mul_le_mul_right _ (by omega)
    omega

namespace MqttFixedHeader

theorem decode_eq_ok_iff (buf : List UInt8) (n : Nat) (h : MqttFixedHeader) :
    decode buf = .ok (n, h) ↔
      ∃ k, ValidFirstByte (buf.getD 0 0) ∧ VarintPrefix 0 (buf.drop 1) k ∧ n = 1 + k ∧
        MqttControlPacketType.ofNat? ((buf.getD 0 0).toNat >>> 4) = some h.packetType ∧
        h.flags = (buf.getD 0 0).toNat &&& 0x0f ∧ h.remainingLen = varintSum (buf.drop 1) k := by
  rcases buf with _ | ⟨b0, rest⟩
  · refine iff_of_false (by simp) ?_
    rintro ⟨k, -, ⟨h1, -, h2, -⟩, -⟩
    simp at h2; omega
  simp only [decode_cons, List.getD_cons_zero, List.drop_one, List.tail_cons, shiftRight_four,
    land_0x0f]
  cases ht : MqttControlPacketType.ofNat? (b0.toNat / 16) with
  | none => simp [not_validFirstByte b0 ht]
  | some t =>
    rw [validFirstByte_iff b0 t ht]
    by_cases hv : isValidFlags t (b0.toNat % 16) = true
    · simp only [hv, dif_pos, true_and, Option.some.injEq]
      cases hd : decodeVarint rest with
      | error e =>
        simp only [Except.map, reduceCtorEq, false_iff, not_exists, not_and]
        intro k hk _ _ _ _
        exact absurd ((decodeVarint_eq_ok_iff rest k _).mpr ⟨hk, rfl⟩) (by simp [hd])
      | ok r =>
        obtain ⟨hk, hr⟩ := (decodeVarint_eq_ok_iff rest r.1 r.2).mp hd
        simp only [Except.map, Except.ok.injEq, Prod.mk.injEq]
        constructor
        · rintro ⟨rfl, rfl⟩
          exact ⟨r.1, hk, rfl, rfl, rfl, by simp [hr]⟩
        · rintro ⟨k, hk', rfl, ht', hf, hl⟩
          have hkk : k = r.1 := by
            have := (decodeVarint_eq_ok_iff rest k (varintSum rest k)).mpr ⟨hk', rfl⟩
            rw [hd] at this
            cases this; rfl
          subst hkk
          exact ⟨rfl, MqttFixedHeader.ext ht' hf.symm (by simp [hl, hr])⟩
    · simp [hv]

/-- What `decode` returns fits in the buffer, and its length is at most `268435455`. -/
theorem decode_ok_le {buf : List UInt8} {n : Nat} {h : MqttFixedHeader}
    (hd : decode buf = .ok (n, h)) : n ≤ buf.length ∧ h.remainingLen ≤ 268435455 := by
  obtain ⟨k, -, hk, rfl, -, -, hl⟩ := (decode_eq_ok_iff buf n h).mp hd
  have hlt := varintSum_lt (buf.drop 1) k
  have h4 : 128 ^ k ≤ 128 ^ 4 := Nat.pow_le_pow_right (by omega) (by have := hk.2.1; omega)
  have hlen := hk.2.2.1
  have hk1 := hk.1
  have : (128 : Nat) ^ 4 = 268435456 := rfl
  have hle : varintSum (buf.drop 1) k ≤ 268435455 := by omega
  refine ⟨by simp at hlen; omega, ?_⟩
  rw [hl]
  exact_mod_cast hle

theorem decode_eq_underflow_iff (buf : List UInt8) :
    decode buf = .error .underflowDecodeError ↔
      buf = [] ∨ ValidFirstByte (buf.getD 0 0) ∧ (buf.drop 1).length < 4 ∧
        ∀ i < (buf.drop 1).length, ((buf.drop 1).getD i 0).toNat.testBit 7 = true := by
  rcases buf with _ | ⟨b0, rest⟩
  · simp
  simp only [decode_cons, reduceCtorEq, false_or, List.getD_cons_zero, List.drop_one,
    List.tail_cons]
  cases ht : MqttControlPacketType.ofNat? (b0.toNat / 16) with
  | none => simp [not_validFirstByte b0 ht]
  | some t =>
    rw [validFirstByte_iff b0 t ht, ← decodeVarint_eq_underflow_iff]
    by_cases hv : isValidFlags t (b0.toNat % 16) = true
    · cases decodeVarint rest <;> simp [hv, Except.map]
    · simp [hv]

/-- `decode` returns, underflows, or raises another `DecodeError`. -/
theorem decode_cases (buf : List UInt8) :
    (∃ r, decode buf = .ok r) ∨ decode buf = .error .underflowDecodeError ∨
      ∃ msg, decode buf = .error (.decodeError msg) := by
  rcases buf with _ | ⟨b0, rest⟩
  · exact .inr (.inl rfl)
  rw [decode_cons]
  cases MqttControlPacketType.ofNat? (b0.toNat / 16) with
  | none => exact .inr (.inr ⟨_, rfl⟩)
  | some t =>
    by_cases hv : isValidFlags t (b0.toNat % 16) = true
    · dsimp only
      rw [dif_pos hv]
      rcases decodeVarint_cases rest with ⟨r, hr⟩ | hr | hr <;> rw [hr]
      · exact .inl ⟨_, rfl⟩
      · exact .inr (.inl rfl)
      · exact .inr (.inr ⟨_, rfl⟩)
    · dsimp only
      rw [dif_neg hv]
      exact .inr (.inr ⟨_, rfl⟩)

/-- **Prefix stability**: a result or a `DecodeError` other than underflow is the same on
every extension of the buffer. -/
theorem decode_append {buf : List UInt8} (hd : decode buf ≠ .error .underflowDecodeError)
    (e : List UInt8) : decode (buf ++ e) = decode buf := by
  rcases buf with _ | ⟨b0, rest⟩
  · exact absurd rfl hd
  rw [List.cons_append, decode_cons, decode_cons]
  rw [decode_cons] at hd
  generalize MqttControlPacketType.ofNat? (b0.toNat / 16) = o at hd ⊢
  rcases o with _ | t
  · rfl
  · by_cases hv : isValidFlags t (b0.toNat % 16) = true
    · simp only [hv, dif_pos] at hd ⊢
      rw [decodeVarint_append fun hu => hd (by rw [hu]; rfl)]
    · simp [hv]

/-- An underflow becomes a result on some extension of the buffer. -/
theorem decode_extend {buf : List UInt8} (hd : decode buf = .error .underflowDecodeError) :
    ∃ e r, decode (buf ++ e) = .ok r := by
  rcases buf with _ | ⟨b0, rest⟩
  · exact ⟨[0x10, 0x00], _, rfl⟩
  rw [decode_cons] at hd
  refine ⟨[0], ?_⟩
  rw [List.cons_append, decode_cons]
  generalize MqttControlPacketType.ofNat? (b0.toNat / 16) = o at hd ⊢
  rcases o with _ | t
  · simp at hd
  · by_cases hv : isValidFlags t (b0.toNat % 16) = true
    · simp only [hv, dif_pos] at hd ⊢
      have hu : decodeVarint rest = .error .underflowDecodeError := by
        cases hr : decodeVarint rest <;> simp_all [Except.map]
      obtain ⟨r, hr⟩ := decodeVarint_append_zero hu
      exact ⟨_, by rw [hr]; rfl⟩
    · simp [hv] at hd

/-- `decode` reads a header from its own octets: the buffer cut after them decodes the same. -/
theorem decode_take {buf : List UInt8} {n : Nat} {h : MqttFixedHeader}
    (hd : decode buf = .ok (n, h)) : decode (buf.take n) = .ok (n, h) := by
  by_cases hu : decode (buf.take n) = .error .underflowDecodeError
  · obtain ⟨k, -, ⟨hk1, -, hkl, -, hlast⟩, rfl, -⟩ := (decode_eq_ok_iff buf _ h).mp hd
    simp only [List.length_drop] at hkl
    rcases (decode_eq_underflow_iff _).mp hu with he | ⟨-, -, hbits⟩
    · obtain rfl : buf = [] := by simpa using he
      simp at hkl; omega
    · -- the last octet of the varint, inside the cut, has bit 7 clear
      have := hbits (k - 1) (by simp; omega)
      rw [List.drop_take, List.getD_eq_getElem?_getD, List.getElem?_take, if_pos (by omega),
        ← List.getD_eq_getElem?_getD, hlast] at this
      cases this
  · rw [← decode_append hu (buf.drop n), List.take_append_drop, hd]

/-- **`decode` accepts exactly the fixed-header grammar.**  It returns `(1 + k, h)` exactly
when the first octet names a type with valid flags and is followed by a varint of `k ≤ 4`
octets (and then `1 + k` fits in the buffer and the length is at most `268435455`); it
underflows exactly on the empty buffer and on a valid first octet followed by fewer than four
octets with bit 7 set; otherwise it raises another `DecodeError`.  Results and the other
errors persist on every extension of the buffer, and an underflow turns into a result on
some extension. -/
theorem mqttFixedHeader_decode_grammar (buf : List UInt8) :
    (∀ n h, decode buf = .ok (n, h) ↔
      ∃ k, ValidFirstByte (buf.getD 0 0) ∧ VarintPrefix 0 (buf.drop 1) k ∧ n = 1 + k ∧
        MqttControlPacketType.ofNat? ((buf.getD 0 0).toNat >>> 4) = some h.packetType ∧
        h.flags = (buf.getD 0 0).toNat &&& 0x0f ∧ h.remainingLen = varintSum (buf.drop 1) k) ∧
    (∀ n h, decode buf = .ok (n, h) → n ≤ buf.length ∧ h.remainingLen ≤ 268435455) ∧
    (decode buf = .error .underflowDecodeError ↔
      buf = [] ∨ ValidFirstByte (buf.getD 0 0) ∧ (buf.drop 1).length < 4 ∧
        ∀ i < (buf.drop 1).length, ((buf.drop 1).getD i 0).toNat.testBit 7 = true) ∧
    ((∃ r, decode buf = .ok r) ∨ decode buf = .error .underflowDecodeError ∨
      ∃ msg, decode buf = .error (.decodeError msg)) ∧
    (∀ e r, decode buf = .ok r → decode (buf ++ e) = .ok r) ∧
    (∀ e msg, decode buf = .error (.decodeError msg) →
      decode (buf ++ e) = .error (.decodeError msg)) ∧
    (decode buf = .error .underflowDecodeError → ∃ e r, decode (buf ++ e) = .ok r) :=
  ⟨decode_eq_ok_iff buf, fun _ _ => decode_ok_le, decode_eq_underflow_iff buf, decode_cases buf,
    fun e r hr => (decode_append (by simp [hr]) e).trans hr,
    fun e msg hm => (decode_append (by simp [hm]) e).trans hm, decode_extend⟩

/-! ### Encoding -/

/-- The first octet `encode` writes, `(int(packet_type) << 4) | flags`. -/
theorem firstByte_eq (h : MqttFixedHeader) :
    (h.packetType.toNat <<< 4) ||| h.flags = 16 * h.packetType.toNat + h.flags ∧
      16 * h.packetType.toNat + h.flags < 256 := by
  have hfl := lt_16_of_isValidFlags h.validFlags
  have ht := h.packetType.toNat_le
  exact ⟨shiftLeft_four_or hfl _, by omega⟩

/-- `encode` on a file, for a length `v ≥ 0` whose shortest varint has `k` octets. -/
theorem encode_file (h : MqttFixedHeader) {v k : Nat} (hv : h.remainingLen = v)
    (hk : IsVarintLen v k) {fuel : Nat} (hf : k ≤ fuel) (w : List UInt8) :
    h.encode fuel (.file w) = some (.ok (1 + k,
      .file (w ++ UInt8.ofNat (16 * h.packetType.toNat + h.flags) :: varintOctets k v))) := by
  obtain ⟨hb, hlt⟩ := firstByte_eq h
  simp [encode, hb, writeChr_file w hlt, encodeVarint, hv, encodeVarintLoop_file hk hf]

/-- `decode` reads back a header from its first octet and the varint of its length. -/
theorem decode_firstByte_varintOctets (h : MqttFixedHeader) {v k : Nat} (hv : h.remainingLen = v)
    (hk : IsVarintLen v k) (h4 : k ≤ 4) (s : List UInt8) :
    decode (UInt8.ofNat (16 * h.packetType.toNat + h.flags) :: (varintOctets k v ++ s)) =
      .ok (1 + k, h) := by
  obtain ⟨-, hlt⟩ := firstByte_eq h
  have hfl := lt_16_of_isValidFlags h.validFlags
  rw [decode_cons, toNat_ofNat_eq_mod, Nat.mod_eq_of_lt hlt,
    show (16 * h.packetType.toNat + h.flags) / 16 = h.packetType.toNat by omega,
    show (16 * h.packetType.toNat + h.flags) % 16 = h.flags by omega,
    MqttControlPacketType.ofNat?_toNat]
  simp only [dif_pos h.validFlags, decodeVarint_varintOctets hk h4 s, Except.map]
  exact congrArg Except.ok (Prod.ext rfl (MqttFixedHeader.ext rfl rfl hv.symm))

/-- **Round trip of the fixed header.**  A header whose length is in `[0, 268435455]` is
written as its first octet and the shortest varint of its length, `1 + k` octets with
`k ≤ 4`, and `decode` reads the same header back from them whatever follows. -/
theorem mqttFixedHeader_encode_decode (h : MqttFixedHeader)
    (hlen : 0 ≤ h.remainingLen ∧ h.remainingLen ≤ 268435455) {k : Nat}
    (hk : IsVarintLen h.remainingLen.toNat k) (w s : List UInt8) :
    k ≤ 4 ∧ ∃ written : List UInt8, written.length = 1 + k ∧
      (∀ fuel, k ≤ fuel → h.encode fuel (.file w) = some (.ok (1 + k, .file (w ++ written)))) ∧
      decode (written ++ s) = .ok (1 + k, h) := by
  have hv : h.remainingLen = (h.remainingLen.toNat : Int) := by omega
  have h4 := hk.le_four (by omega)
  exact ⟨h4, _, by simp; omega, fun fuel hf => encode_file h hv hk hf w,
    decode_firstByte_varintOctets h hv hk h4 s⟩

theorem mqttFixedHeader_encode_decode_200 :
    ((0 : Int) ≤ 200 ∧ (200 : Int) ≤ 268435455) ∧ IsVarintLen (200 : Int).toNat 2 ∧
      (2 ≤ 4 ∧ ∃ written : List UInt8, written.length = 1 + 2 ∧
        (∀ fuel, 2 ≤ fuel → encode ⟨.connect, 0, 200, rfl⟩ fuel (.file []) =
          some (.ok (1 + 2, .file ([] ++ written)))) ∧
        decode (written ++ []) = .ok (1 + 2, ⟨.connect, 0, 200, rfl⟩)) :=
  ⟨by decide, by decide, mqttFixedHeader_encode_decode ⟨.connect, 0, 200, rfl⟩ (by decide)
    (by decide) [] []⟩

/-- **Decoding, then encoding.**  Where `decode` reads a header from the first `n` octets of a
buffer, `encode` writes exactly those octets back if and only if the varint read is the
shortest one of its value: `decode_varint` also accepts longer varints, which `encode` never
writes. -/
theorem decode_encode_iff {buf : List UInt8} {n : Nat} {h : MqttFixedHeader}
    (hd : decode buf = .ok (n, h)) (w : List UInt8) {fuel : Nat} (hf : 4 ≤ fuel) :
    h.encode fuel (.file w) = some (.ok (n, .file (w ++ buf.take n))) ↔
      IsVarintLen h.remainingLen.toNat (n - 1) := by
  obtain ⟨hn, h28⟩ := decode_ok_le hd
  obtain ⟨k, -, hk, rfl, ht, hfl, hv⟩ := (decode_eq_ok_iff buf _ h).mp hd
  rcases buf with _ | ⟨b, rest⟩
  · simp at hn
  simp only [List.getD_cons_zero, List.drop_one, List.tail_cons, shiftRight_four,
    land_0x0f] at ht hfl hk hv
  have hb : UInt8.ofNat (16 * h.packetType.toNat + h.flags) = b := ofNat_eq_of_toNat (by
    rw [MqttControlPacketType.toNat_of_ofNat?_eq_some ht, hfl]; omega)
  have hv' : h.remainingLen.toNat = varintSum rest k := by omega
  rw [hv', Nat.add_sub_cancel_left]
  obtain ⟨k', hk'⟩ := exists_isVarintLen (varintSum rest k)
  rw [encode_file h (by omega) hk' (le_trans (hk'.le_four (by omega)) hf), hb, Nat.add_comm 1 k,
    List.take_succ_cons]
  constructor
  · intro he
    have := (Prod.mk.inj (Except.ok.inj (Option.some.inj he))).1
    obtain rfl : k' = k := by omega
    exact hk'
  · intro hmin
    rw [hk'.unique hmin, varintOctets_varintSum hk, Nat.add_comm]

theorem decode_encode_iff_overlong :
    decode [0x10, 0x80, 0x00] = .ok (3, ⟨.connect, 0, 0, rfl⟩) ∧ 4 ≤ 4 ∧
      (encode ⟨.connect, 0, 0, rfl⟩ 4 (.file []) =
          some (.ok (3, .file ([] ++ [0x10, 0x80, 0x00].take 3))) ↔
        IsVarintLen (0 : Int).toNat (3 - 1)) :=
  ⟨rfl, le_rfl, @decode_encode_iff [0x10, 0x80, 0x00] 3 ⟨.connect, 0, 0, rfl⟩ rfl [] 4 le_rfl⟩

/-- Past `268435455`, `encode` still returns, after a varint of five octets or more, which
`decode_varint` refuses. -/
theorem encode_of_large (h : MqttFixedHeader) (hlen : 268435455 < h.remainingLen) {k : Nat}
    (hk : IsVarintLen h.remainingLen.toNat k) {fuel : Nat} (hf : k ≤ fuel) (w s : List UInt8) :
    5 ≤ k ∧ h.encode fuel (.file w) = some (.ok (1 + k, .file (w ++
      UInt8.ofNat (16 * h.packetType.toNat + h.flags) :: varintOctets k h.remainingLen.toNat))) ∧
    decodeVarint (varintOctets k h.remainingLen.toNat ++ s) =
      .error (.decodeError "Variable integer contained more than 4 bytes.") := by
  have h5 := hk.four_lt (by omega)
  exact ⟨h5, encode_file h (by omega) hk hf w, decodeVarint_varintOctets_long h5 s⟩

/-- Below `0`, `encode` never returns: the loop of `encode_varint` runs for ever. -/
theorem encode_of_neg (h : MqttFixedHeader) (hlen : h.remainingLen < 0) (fuel : Nat)
    (w : List UInt8) : h.encode fuel (.file w) = none := by
  obtain ⟨hb, hlt⟩ := firstByte_eq h
  simp [encode, hb, writeChr_file w hlt, encodeVarint, encodeVarintLoop_neg hlen]

/-- Out of range, `encode` raises nothing: a length of `2 ^ 28` is written as a five-octet
varint that `decode_varint` refuses, and a length of `-1` keeps the loop of `encode_varint`
running for ever. -/
theorem mqttFixedHeader_encode_unchecked_length :
    (∀ fuel, 5 ≤ fuel → encode ⟨.connect, 0, 268435456, rfl⟩ fuel (.file []) =
      some (.ok (6, .file [0x10, 0x80, 0x80, 0x80, 0x80, 0x01]))) ∧
    decodeVarint [0x80, 0x80, 0x80, 0x80, 0x01] =
      .error (.decodeError "Variable integer contained more than 4 bytes.") ∧
    ∀ fuel, encode ⟨.connect, 0, -1, rfl⟩ fuel (.file []) = none :=
  ⟨fun _ hf => (encode_of_large _ (by decide) (k := 5) (by decide) hf [] []).2.1.trans rfl, rfl,
    fun fuel => encode_of_neg _ (by decide) fuel []⟩

/-! ### Packets: a fixed header, then a body -/

/-- The method `encode(f)` of a packet class: `MqttFixedHeader.encode(self, f)`, then the
class's body writer, returning the sum of the two counts. -/
def encodeWith (h : MqttFixedHeader) (encodeBody : Sink → Except PyException (Nat × Sink))
    (fuel : Nat) (f : Sink) : Option (Except PyException (Nat × Sink)) :=
  (h.encode fuel f).map fun r => do
    let (nHeader, f) ← r
    let (nBody, f) ← encodeBody f
    pure (nHeader + nBody, f)

/-- **A packet is framed by its fixed header.**  When `remaining_len` is the length of the body
the body writer writes, `encode` writes the packet and returns its length, and a reader that
decodes the fixed header, whatever follows the packet, finds the body in the `remaining_len`
octets after it. -/
theorem encodeWith_decode (h : MqttFixedHeader) {body : List UInt8}
    (hv : h.remainingLen = body.length) (hlen : body.length ≤ 268435455)
    {encodeBody : Sink → Except PyException (Nat × Sink)}
    (hb : ∀ w, encodeBody (.file w) = .ok (body.length, .file (w ++ body))) (w s : List UInt8) :
    ∃ written : List UInt8, ∃ n : Nat,
      (∀ fuel, 4 ≤ fuel →
        h.encodeWith encodeBody fuel (.file w) = some (.ok (written.length, .file (w ++ written)))) ∧
      decode (written ++ s) = .ok (n, h) ∧ (n : Int) + h.remainingLen = written.length ∧
      ((written ++ s).drop n).take h.remainingLen.toNat = body := by
  obtain ⟨k, hk⟩ := exists_isVarintLen body.length
  have h4 := hk.le_four hlen
  refine ⟨UInt8.ofNat (16 * h.packetType.toNat + h.flags) :: varintOctets k body.length ++ body,
    1 + k, fun fuel hf => ?_, ?_, by simp [hv]; omega, ?_⟩
  · simp only [encodeWith, encode_file h hv hk (by omega : k ≤ fuel), Option.map_some',
      except_ok_bind, hb]
    simp
    omega
  · simpa using decode_firstByte_varintOctets h hv hk h4 (body ++ s)
  · rw [hv, Int.toNat_ofNat, Nat.add_comm]
    simp only [List.cons_append, List.append_assoc, List.drop_succ_cons,
      List.drop_left' (length_varintOctets k _), List.take_left]

end MqttFixedHeader

end HakaMqtt
