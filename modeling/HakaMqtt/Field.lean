/-
Length-prefixed fields: `decode_utf8`, `encode_utf8`, `decode_bytes` and `encode_bytes`.

A field is two big-endian octets of length `L`, then `L` octets.  The decoders read the
length with `buf[0]` and `buf[1]`, which raise `IndexError` on a short buffer, and the body
with the slice `buf[2:2 + L]`, which never does: on a buffer shorter than `2 + L` it comes
back short.  `decode_bytes` has the body of `decode_utf8`, UTF-8 decoder included.
`encode_bytes` writes into a `bytearray` by item and slice assignment, where `encode_utf8`
calls `f.write`.

* `encodeUtf8_decodeUtf8` — a text whose encoding has at most `65535` octets is written as its
  length and its encoding, and read back from them whatever follows;
* `decodeUtf8_cons_cons` — on two octets or more, `decode_utf8` returns `2 + L` and the
  decoding of the slice, whatever the buffer's length;
* `decodeUtf8_outcomes` — so it underflows exactly on fewer than two octets, and past them
  returns or raises `DecodeError`;
* `encodeBytes_bytearray` — `encode_bytes` writes a blob's length and octets at the front of a
  `bytearray` long enough;
* `decodeUtf8_eq_ok_iff_takeUtf8Field` — where the field fits in the buffer and holds text,
  `decode_utf8` returns exactly what the spec's reading of a field (`takeUtf8Field`) reads;
* `decodeUtf8_surrogate` — where it holds an encoded surrogate, `decode_utf8` returns the
  surrogate and the spec's reading refuses the field.
-/
import HakaMqtt.Utf8

namespace HakaMqtt

/-- The function `decode_utf8(buf)`: `(num_bytes_consumed, s)`. -/
def decodeUtf8 (buf : List UInt8) : Except PyException (Nat × PyUnicode) :=
  reraise .unicodeError (.decodeError "Invalid unicode character.") <|
    reraise .indexError .underflowDecodeError do
      let numStringBytes := ((← getItem buf 0).toNat <<< 8) + (← getItem buf 1).toNat
      let numBytesConsumed := 2 + numStringBytes
      let s ← utf8Decode (slice buf 2 numBytesConsumed)
      pure (numBytesConsumed, s)

/-- The function `encode_utf8(s, f)`. -/
def encodeUtf8 (s : PyUnicode) (f : Sink) : Except PyException (Nat × Sink) := do
  let encodedStrBytes := utf8Encode s
  let numEncodedStrBytes := encodedStrBytes.length
  unless numEncodedStrBytes ≤ 2 ^ 16 - 1 do throw .assertionError
  let numEncodedBytes := numEncodedStrBytes + 2
  let f ← f.writeChr ((numEncodedStrBytes &&& 0xff00) >>> 8)
  let f ← f.writeChr (numEncodedStrBytes &&& 0x00ff)
  let f ← f.write encodedStrBytes
  pure (numEncodedBytes, f)

/-- The function `decode_bytes(buf)`: the source repeats the body of `decode_utf8`. -/
def decodeBytes (buf : List UInt8) : Except PyException (Nat × PyUnicode) :=
  decodeUtf8 buf

/-- The function `encode_bytes(src_buf, dst_buf)`. -/
def encodeBytes (srcBuf : List UInt8) (dstBuf : Sink) : Except PyException (Nat × Sink) := do
  let lenSrcBuf := srcBuf.length
  unless lenSrcBuf ≤ 2 ^ 16 - 1 do throw .assertionError
  let numWrittenBytes := lenSrcBuf + 2
  if (← dstBuf.len) < numWrittenBytes then throw .overflowEncodeError
  let dstBuf ← dstBuf.setSlice 2 numWrittenBytes srcBuf
  let dstBuf ← dstBuf.setItem 0 ((lenSrcBuf &&& 0xff00) >>> 8)
  let dstBuf ← dstBuf.setItem 1 (lenSrcBuf &&& 0x00ff)
  pure (numWrittenBytes, dstBuf)

/-- A length-prefixed field: the two big-endian octets of the length of `u`, then `u`. -/
def fieldOctets (u : List UInt8) : List UInt8 :=
  [UInt8.ofNat (u.length >>> 8), UInt8.ofNat (u.length &&& 0xff)] ++ u

@[simp] theorem length_fieldOctets (u : List UInt8) : (fieldOctets u).length = u.length + 2 := by
  simp [fieldOctets]

/-! ### The field of the spec -/

/-- A length-prefixed field as the spec reads it: two big-endian octets `L`, then `L` octets
that must all be there. -/
def takeField : List UInt8 → Option (List UInt8 × List UInt8)
  | hi :: lo :: rest =>
    let n := hi.toNat * 256 + lo.toNat
    if n ≤ rest.length then some (rest.take n, rest.drop n) else none
  | _ => none

/-- A length-prefixed field holding UTF-8: the encoding of text, without the encoded surrogates
RFC 3629 refuses. -/
def takeUtf8Field (bs : List UInt8) : Option (PyUnicode × List UInt8) := do
  let (u, rest) ← takeField bs
  match utf8Decode u with
  | .ok s => if IsText s then some (s, rest) else none
  | .error _ => none

/-! ### Decoding -/

/-- The two length octets the encoders write, for a length below `2 ^ 16`. -/
theorem lengthOctets {n : Nat} (hn : n ≤ 65535) :
    (n &&& 0xff00) >>> 8 = n >>> 8 ∧ n >>> 8 < 256 ∧ n &&& 0x00ff = n &&& 0xff ∧
      n &&& 0xff < 256 ∧ (n >>> 8) * 256 + (n &&& 0xff) = n := by
  rw [land_0xff00_shiftRight (by omega), Nat.shiftRight_eq_div_pow, land_0xff]
  exact ⟨rfl, by simp; omega, rfl, by omega, by simp; omega⟩

theorem decodeUtf8_nil : decodeUtf8 [] = .error .underflowDecodeError := rfl

theorem decodeUtf8_singleton (b : UInt8) : decodeUtf8 [b] = .error .underflowDecodeError := rfl

/-- On two octets or more, `decode_utf8` reads the length `L` they give, returns `2 + L`,
and decodes the slice of the `L` octets after them, however many of them the buffer has. -/
theorem decodeUtf8_cons_cons (b0 b1 : UInt8) (rest : List UInt8) :
    decodeUtf8 (b0 :: b1 :: rest) =
      (reraise .unicodeError (.decodeError "Invalid unicode character.")
        (utf8Decode (rest.take (b0.toNat * 256 + b1.toNat)))).map
        fun s => (2 + (b0.toNat * 256 + b1.toNat), s) := by
  have hs : slice (b0 :: b1 :: rest) 2 (2 + (b0.toNat * 256 + b1.toNat)) =
      rest.take (b0.toNat * 256 + b1.toNat) := by simp [slice]
  simp only [decodeUtf8, getItem_cons_zero, getItem_cons_succ, except_ok_bind,
    Nat.shiftLeft_eq, show 2 ^ 8 = 256 from rfl, hs]
  cases h : utf8Decode (rest.take (b0.toNat * 256 + b1.toNat)) with
  | error e => simp [utf8Decode_error h, Except.map]
  | ok s => rfl

/-- `decode_utf8` underflows only on fewer than two octets: past them it returns, or raises
`DecodeError('Invalid unicode character.')`, however short the field's body is. -/
theorem decodeUtf8_outcomes (buf : List UInt8) :
    (decodeUtf8 buf = .error .underflowDecodeError ↔ buf.length < 2) ∧
      (2 ≤ buf.length → (∃ r, decodeUtf8 buf = .ok r) ∨
        decodeUtf8 buf = .error (.decodeError "Invalid unicode character.")) := by
  match buf with
  | [] | [_] => simp [decodeUtf8_nil, decodeUtf8_singleton]
  | b0 :: b1 :: rest =>
    rw [decodeUtf8_cons_cons]
    cases h : utf8Decode (rest.take (b0.toNat * 256 + b1.toNat)) with
    | ok => simp [Except.map]
    | error => simp [Except.map, utf8Decode_error h]

/-- Where `decode_utf8` returns a length that fits in the buffer, the buffer begins with the
field of the encodings of the code points it returns. -/
theorem decodeUtf8_eq_ok_of_le {buf : List UInt8} {n : Nat} {s : PyUnicode}
    (h : decodeUtf8 buf = .ok (n, s)) (hn : n ≤ buf.length) :
    ∃ t, buf = fieldOctets (encodeCodePoints s) ++ t ∧ n = (encodeCodePoints s).length + 2 ∧
      (encodeCodePoints s).length ≤ 65535 := by
  match buf, h with
  | b0 :: b1 :: rest, h =>
    rw [decodeUtf8_cons_cons] at h
    cases hd : utf8Decode (rest.take (b0.toNat * 256 + b1.toNat)) with
    | error e => simp [hd, Except.map] at h
    | ok s' =>
      simp only [hd, reraise_ok, Except.map, Except.ok.injEq, Prod.mk.injEq] at h
      obtain ⟨rfl, rfl⟩ := h
      have h0 := toNat_lt_256 b0
      have h1 := toNat_lt_256 b1
      have hlen : (rest.take (b0.toNat * 256 + b1.toNat)).length = b0.toNat * 256 + b1.toNat := by
        simp only [List.length_cons] at hn
        simp; omega
      refine ⟨rest.drop (b0.toNat * 256 + b1.toNat), ?_, by rw [encodeCodePoints_of_utf8Decode hd, hlen]; omega,
        by rw [encodeCodePoints_of_utf8Decode hd, hlen]; omega⟩
      rw [encodeCodePoints_of_utf8Decode hd, fieldOctets, hlen, Nat.shiftRight_eq_div_pow, land_0xff,
        show (b0.toNat * 256 + b1.toNat) / 2 ^ 8 = b0.toNat by omega,
        show (b0.toNat * 256 + b1.toNat) % 256 = b1.toNat by omega,
        ofNat_eq_of_toNat rfl, ofNat_eq_of_toNat rfl]
      simp
  | [], h | [_], h => cases h

/-- `decode_utf8` on a field written whole: the length octets of `u`, then `u`, then
anything. -/
theorem decodeUtf8_field (u t : List UInt8) (hu : u.length ≤ 65535) :
    decodeUtf8 ([UInt8.ofNat (u.length >>> 8), UInt8.ofNat (u.length &&& 0xff)] ++ u ++ t) =
      (reraise .unicodeError (.decodeError "Invalid unicode character.") (utf8Decode u)).map
        fun s => (u.length + 2, s) := by
  obtain ⟨-, hhi, -, hlo, hlen⟩ := lengthOctets hu
  simp only [List.append_assoc, List.cons_append, List.nil_append]
  rw [decodeUtf8_cons_cons,
    toNat_ofNat_eq_mod, toNat_ofNat_eq_mod, Nat.mod_eq_of_lt hhi, Nat.mod_eq_of_lt hlo, hlen,
    List.take_left, Nat.add_comm]

/-- The spec reads a field back from its octets, whatever follows. -/
theorem takeField_fieldOctets {u : List UInt8} (hu : u.length ≤ 65535) (t : List UInt8) :
    takeField (fieldOctets u ++ t) = some (u, t) := by
  obtain ⟨-, hhi, -, hlo, hlen⟩ := lengthOctets hu
  simp [fieldOctets, takeField, Nat.mod_eq_of_lt hhi, Nat.mod_eq_of_lt hlo, hlen]

theorem takeUtf8Field_fieldOctets {s : PyUnicode} (hs : (utf8Encode s).length ≤ 65535)
    (hst : IsText s) (t : List UInt8) :
    takeUtf8Field (fieldOctets (utf8Encode s) ++ t) = some (s, t) := by
  simp [takeUtf8Field, takeField_fieldOctets hs, utf8Decode_utf8Encode hst, hst]

/-- Wherever the spec reads a whole UTF-8 field, it reads text, and `decode_utf8` returns the
same text and the field's length. -/
theorem decodeUtf8_of_takeUtf8Field {buf rest : List UInt8} {s : PyUnicode}
    (h : takeUtf8Field buf = some (s, rest)) :
    decodeUtf8 buf = .ok (buf.length - rest.length, s) ∧ IsText s := by
  match buf, h with
  | b0 :: b1 :: r, h =>
    simp only [takeUtf8Field, takeField] at h
    split_ifs at h with hn
    · cases hd : utf8Decode (r.take (b0.toNat * 256 + b1.toNat)) with
      | error => simp [hd] at h
      | ok s' =>
        simp only [hd, Option.bind_eq_bind, Option.some_bind] at h
        split_ifs at h with hs'
        simp only [Option.some.injEq, Prod.mk.injEq] at h
        obtain ⟨rfl, rfl⟩ := h
        rw [decodeUtf8_cons_cons, hd]
        simp only [reraise_ok, Except.map, List.length_cons, List.length_drop]
        exact ⟨by congr 2; omega, hs'⟩
    · simp at h

/-- **Where the field fits in the buffer and holds text, `decode_utf8` is the spec's reading of
a field**: it returns `(n, s)` with `n ≤ len(buf)` and `s` free of surrogates exactly when the
spec reads `s` from the first `n` octets. -/
theorem decodeUtf8_eq_ok_iff_takeUtf8Field (buf : List UInt8) (n : Nat) (s : PyUnicode) :
    decodeUtf8 buf = .ok (n, s) ∧ n ≤ buf.length ∧ IsText s ↔
      ∃ t, takeUtf8Field buf = some (s, t) ∧ n + t.length = buf.length := by
  constructor
  · rintro ⟨h, hn, hs⟩
    obtain ⟨t, rfl, rfl, hlen⟩ := decodeUtf8_eq_ok_of_le h hn
    rw [← utf8Encode_of_isText hs] at hlen ⊢
    exact ⟨t, takeUtf8Field_fieldOctets hlen hs t, by simp⟩
  · rintro ⟨t, ht, hn⟩
    obtain ⟨hd, hs⟩ := decodeUtf8_of_takeUtf8Field ht
    rw [hd]
    exact ⟨by rw [← hn, Nat.add_sub_cancel], by omega, hs⟩

theorem length_utf8Encode_surrogate {c : CodePoint} (hc : c.IsSurrogate) :
    (utf8Encode [c]).length = 3 := by
  obtain ⟨h1, h2⟩ := hc
  simp [utf8Encode, encodeCodePoint, show ¬ c.val < 0x80 by omega, show ¬ c.val < 0x800 by omega,
    show c.val < 0x10000 by omega]

/-- **`decode_utf8` returns lone surrogates**: on the field of a surrogate's three octets, such
as `00 03 ED A0 80` for `U+D800`, it returns `5` and the surrogate, where the spec's reading of a
UTF-8 field refuses it. -/
theorem decodeUtf8_surrogate (c : CodePoint) (hc : c.IsSurrogate) (t : List UInt8) :
    decodeUtf8 (fieldOctets (utf8Encode [c]) ++ t) = .ok (5, [c]) ∧
      takeUtf8Field (fieldOctets (utf8Encode [c]) ++ t) = none := by
  have hlen := length_utf8Encode_surrogate hc
  have hdec : utf8Decode (utf8Encode [c]) = .ok [c] := by
    simpa [utf8Encode, encodeCodePoints] using utf8Decode_encodeCodePoints [c]
  refine ⟨?_, ?_⟩
  · rw [fieldOctets, decodeUtf8_field _ _ (by omega), hdec, hlen]
    rfl
  · simp [takeUtf8Field, takeField_fieldOctets (show (utf8Encode [c]).length ≤ 65535 by omega),
      hdec, IsText, hc]

theorem decodeUtf8_surrogate_d800 :
    CodePoint.IsSurrogate 0xD800 ∧
      decodeUtf8 [0x00, 0x03, 0xED, 0xA0, 0x80] = .ok (5, [0xD800]) ∧
      takeUtf8Field [0x00, 0x03, 0xED, 0xA0, 0x80] = none :=
  ⟨by decide, decodeUtf8_surrogate 0xD800 (by decide) []⟩

/-! ### Encoding -/

theorem encodeUtf8_file (s : PyUnicode) (hs : (utf8Encode s).length ≤ 65535) (w : List UInt8) :
    encodeUtf8 s (.file w) = .ok ((utf8Encode s).length + 2, .file (w ++
      ([UInt8.ofNat ((utf8Encode s).length >>> 8), UInt8.ofNat ((utf8Encode s).length &&& 0xff)] ++
        utf8Encode s))) := by
  obtain ⟨h1, h2, h3, h4, -⟩ := lengthOctets hs
  simp [encodeUtf8, hs, h1, h3, writeChr_file _ h2, writeChr_file _ h4]

theorem encodeUtf8_of_long (s : PyUnicode) (hs : 65535 < (utf8Encode s).length) (f : Sink) :
    encodeUtf8 s f = .error .assertionError := by
  simp [encodeUtf8, show ¬ (utf8Encode s).length ≤ 65535 by omega]

/-- **Round trip of a UTF-8 field.**  When the encoding `u` of a text `s` has at most `65535`
octets, `encode_utf8` writes `[len(u) >> 8, len(u) & 0xff] ++ u` and returns `len(u) + 2`,
and `decode_utf8` reads `(len(u) + 2, s)` back from those octets followed by anything;
`encode_utf8` returns exactly when `len(u) ≤ 65535`. -/
theorem encodeUtf8_decodeUtf8 (s : PyUnicode) (hs : IsText s) (w t : List UInt8) :
    ((utf8Encode s).length ≤ 65535 →
      encodeUtf8 s (.file w) = .ok ((utf8Encode s).length + 2, .file (w ++
        ([UInt8.ofNat ((utf8Encode s).length >>> 8), UInt8.ofNat ((utf8Encode s).length &&& 0xff)] ++
          utf8Encode s))) ∧
      decodeUtf8 (([UInt8.ofNat ((utf8Encode s).length >>> 8),
        UInt8.ofNat ((utf8Encode s).length &&& 0xff)] ++ utf8Encode s) ++ t) =
          .ok ((utf8Encode s).length + 2, s)) ∧
    ((∃ r, encodeUtf8 s (.file w) = .ok r) ↔ (utf8Encode s).length ≤ 65535) := by
  refine ⟨fun hl => ⟨encodeUtf8_file s hl w, ?_⟩,
    ⟨fun ⟨r, hr⟩ => ?_, fun hl => ⟨_, encodeUtf8_file s hl w⟩⟩⟩
  · rw [decodeUtf8_field _ _ hl, utf8Decode_utf8Encode hs]
    rfl
  · by_contra hl
    rw [encodeUtf8_of_long s (by omega)] at hr
    cases hr

theorem encodeUtf8_decodeUtf8_eAcute :
    IsText (.ofString "é") ∧
      (([0xC3, 0xA9] : List UInt8).length ≤ 65535 →
        encodeUtf8 (.ofString "é") (.file []) = .ok (4, .file [0x00, 0x02, 0xC3, 0xA9]) ∧
        decodeUtf8 [0x00, 0x02, 0xC3, 0xA9, 0x00] = .ok (4, .ofString "é")) ∧
      ((∃ r, encodeUtf8 (.ofString "é") (.file []) = .ok r) ↔
        ([0xC3, 0xA9] : List UInt8).length ≤ 65535) :=
  ⟨by decide, encodeUtf8_decodeUtf8 (.ofString "é") (by decide) [] [0x00]⟩

/-- `encode_bytes` into a `bytearray` long enough writes the length octets of the blob and
the blob at its front, and returns their number. -/
theorem encodeBytes_bytearray (m dst : List UInt8) (hm : m.length ≤ 65535)
    (hd : m.length + 2 ≤ dst.length) :
    encodeBytes m (.bytearray dst) = .ok (m.length + 2, .bytearray
      ([UInt8.ofNat (m.length >>> 8), UInt8.ofNat (m.length &&& 0xff)] ++ m ++
        dst.drop (m.length + 2))) := by
  obtain ⟨h1, h2, h3, h4, -⟩ := lengthOctets hm
  obtain ⟨d0, d1, rest, rfl⟩ : ∃ d0 d1 rest, dst = d0 :: d1 :: rest := by
    match dst, hd with
    | d0 :: d1 :: rest, _ => exact ⟨d0, d1, rest, rfl⟩
  simp [encodeBytes, hm, show ¬ rest.length + 2 < m.length + 2 by simp at hd; omega, Sink.setSlice,
    Sink.setItem, h1, h3, h2, h4]

/-- `encode_bytes` into a file-like object raises `TypeError`: it asks for the length of its
destination. -/
theorem encodeBytes_file {m : List UInt8} (hm : m.length ≤ 65535) (w : List UInt8) :
    encodeBytes m (.file w) = .error .typeError := by
  simp [encodeBytes, hm]

/-- `decode_bytes` refuses a blob that is not UTF-8: `encode_bytes(b'\xff', bytearray(3))`
writes `00 01 ff` and returns `3`, and `decode_bytes` raises `DecodeError` on it. -/
theorem encodeBytes_decodeBytes_not_utf8 :
    encodeBytes [0xFF] (.bytearray [0, 0, 0]) = .ok (3, .bytearray [0x00, 0x01, 0xFF]) ∧
    decodeBytes [0x00, 0x01, 0xFF] = .error (.decodeError "Invalid unicode character.") :=
  ⟨rfl, rfl⟩

/-- `decode_utf8` does not underflow on a field cut short: on `00 05 61` it returns `7` and
`'a'`, on `00 05 61 62` it returns `7` and `'ab'`, and on `00 02 c3`, cut inside a character,
it raises `DecodeError`; `decode_bytes` does the same. -/
theorem decodeUtf8_short_field :
    decodeUtf8 [0x00, 0x05, 0x61] = .ok (7, .ofString "a") ∧
    decodeUtf8 ([0x00, 0x05, 0x61] ++ [0x62]) = .ok (7, .ofString "ab") ∧
    decodeUtf8 [0x00, 0x02, 0xC3] = .error (.decodeError "Invalid unicode character.") ∧
    decodeBytes [0x00, 0x05, 0x61] = .ok (7, .ofString "a") :=
  ⟨rfl, rfl, rfl, rfl⟩

end HakaMqtt
