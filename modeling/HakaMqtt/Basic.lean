/-
The Python vocabulary of `haka_mqtt/mqtt.py`.

The codec is Python 2 code written against two kinds of destination: a file-like object
(`BytesIO`: it has `write` and no `len`) and a `bytearray` (it has `len`, item and slice
assignment, and no `write`).  `Sink` has one constructor for each, and each operation raises
what Python raises when it is handed the other kind.  Octets are `UInt8`.  The module's own
exception classes, and the built-in ones its operations can hit, are `PyException`.

Design notes: `f.write(chr(b))` writes the one octet `b` (a Python 2 `str` is a byte string,
and the spec fixes all wire I/O to octets); `chr` raises `ValueError` outside `range(256)`.
Reading `buf[i]` past the end raises `IndexError`, while a slice `buf[i:j]` is clamped to the
buffer and never raises.  A buffer handed to a decoder is its octets, in the type the decoder
indexes: `decode_varint` and `MqttFixedHeader.decode` use `buf[i]` as an `int`, as a
`bytearray` gives it (the repository's tests decode `bytearray(buf)`), while `decode_utf8` and
`decode_bytes` take `ord(buf[i])`, as of a Python 2 `str`; handed the other type, each raises
`TypeError` at its first octet, which the model leaves out.  The last section turns the bitwise operations the codec uses into
arithmetic, once, so that later proofs run on `omega`.
-/
import Mathlib.Data.Nat.Bitwise

namespace HakaMqtt

/-- The exceptions the codec raises or lets through. -/
inductive PyException where
  /-- `EncodeError` -/
  | encodeError
  /-- `OverflowEncodeError` -/
  | overflowEncodeError
  /-- `DecodeError(msg)` -/
  | decodeError (msg : String)
  /-- `UnderflowDecodeError()`, a subclass of `DecodeError` -/
  | underflowDecodeError
  | assertionError
  | indexError
  | typeError
  | attributeError
  | valueError
  /-- `UnicodeError`, raised by the UTF-8 codec -/
  | unicodeError
  deriving DecidableEq, Repr

/-- Where the encoders write: a file-like object, holding what has been written to it, or a
`bytearray`. -/
inductive Sink where
  | file (written : List UInt8)
  | bytearray (buf : List UInt8)
  deriving DecidableEq, Repr

namespace Sink

/-- `f.write(bs)`: a `bytearray` has no `write`. -/
def write : Sink → List UInt8 → Except PyException Sink
  | file w, bs => .ok (file (w ++ bs))
  | bytearray _, _ => .error .attributeError

/-- `len(dst)`: a file-like object has no length. -/
def len : Sink → Except PyException Nat
  | bytearray buf => .ok buf.length
  | file _ => .error .typeError

/-- `dst[lo:hi] = src` -/
def setSlice : Sink → Nat → Nat → List UInt8 → Except PyException Sink
  | bytearray buf, lo, hi, src => .ok (bytearray (buf.take lo ++ src ++ buf.drop (max lo hi)))
  | file _, _, _, _ => .error .typeError

/-- `dst[i] = v` -/
def setItem : Sink → Nat → Nat → Except PyException Sink
  | bytearray buf, i, v =>
    if i < buf.length then
      if v < 256 then .ok (bytearray (buf.set i (UInt8.ofNat v))) else .error .valueError
    else .error .indexError
  | file _, _, _ => .error .typeError

@[simp] theorem write_file (w bs : List UInt8) : (file w).write bs = .ok (file (w ++ bs)) := rfl

@[simp] theorem len_file (w : List UInt8) : (file w).len = .error .typeError := rfl

@[simp] theorem len_bytearray (buf : List UInt8) : (bytearray buf).len = .ok buf.length := rfl

end Sink

/-- Python 2 `chr(b)`, as the octet it stands for. -/
def chr (b : Nat) : Except PyException UInt8 :=
  if b < 256 then .ok (UInt8.ofNat b) else .error .valueError

/-- `f.write(chr(b))` -/
def Sink.writeChr (f : Sink) (b : Nat) : Except PyException Sink := do
  f.write [← chr b]

/-- `buf[i]` -/
def getItem : List UInt8 → Nat → Except PyException UInt8
  | [], _ => .error .indexError
  | b :: _, 0 => .ok b
  | _ :: bs, i + 1 => getItem bs i

/-- `buf[lo:hi]` -/
def slice (buf : List UInt8) (lo hi : Nat) : List UInt8 := (buf.drop lo).take (hi - lo)

/-- Python's `try: x` with `except caught: raise raised`. -/
def reraise (caught raised : PyException) (x : Except PyException α) : Except PyException α :=
  x.tryCatch fun ex => .error (if ex = caught then raised else ex)

@[simp] theorem except_ok_bind (a : α) (f : α → Except ε β) : (Except.ok a >>= f) = f a := rfl

@[simp] theorem except_error_bind (e : ε) (f : α → Except ε β) :
    (Except.error e >>= f : Except ε β) = .error e := rfl

@[simp] theorem except_throw (e : ε) : (throw e : Except ε α) = .error e := rfl

@[simp] theorem except_pure (a : α) : (pure a : Except ε α) = .ok a := rfl

@[simp] theorem chr_of_lt {b : Nat} (h : b < 256) : chr b = .ok (UInt8.ofNat b) := if_pos h

@[simp] theorem writeChr_file (w : List UInt8) {b : Nat} (h : b < 256) :
    (Sink.file w).writeChr b = .ok (.file (w ++ [UInt8.ofNat b])) := by
  simp [Sink.writeChr, h]

@[simp] theorem getItem_cons_zero (b : UInt8) (bs : List UInt8) : getItem (b :: bs) 0 = .ok b :=
  rfl

@[simp] theorem getItem_cons_succ (b : UInt8) (bs : List UInt8) (i : Nat) :
    getItem (b :: bs) (i + 1) = getItem bs i := rfl

@[simp] theorem getItem_nil (i : Nat) : getItem [] i = .error .indexError := rfl

@[simp] theorem reraise_ok (c r : PyException) (a : α) : reraise c r (.ok a) = .ok a := rfl

@[simp] theorem reraise_pure (c r : PyException) (a : α) : reraise c r (pure a) = pure a := rfl

@[simp] theorem reraise_error (c r ex : PyException) :
    reraise c r (.error ex : Except PyException α) = .error (if ex = c then r else ex) := rfl

theorem reraise_eq_ok_iff {c r : PyException} {x : Except PyException α} {a : α} :
    reraise c r x = .ok a ↔ x = .ok a := by
  cases x <;> simp

/-! ### Octets and bitwise operations as arithmetic -/

@[simp] theorem toNat_ofNat_eq_mod (n : Nat) : (UInt8.ofNat n).toNat = n % 256 :=
  BitVec.toNat_ofNat n 8

theorem toNat_lt_256 (b : UInt8) : b.toNat < 256 := b.toNat_lt_size

theorem ofNat_eq_of_toNat {b : UInt8} {n : Nat} (h : b.toNat = n) : UInt8.ofNat n = b :=
  UInt8.toNat.inj (by rw [toNat_ofNat_eq_mod, ← h, Nat.mod_eq_of_lt (toNat_lt_256 b)])

theorem land_0x7f (x : Nat) : x &&& 0x7f = x % 128 := Nat.and_pow_two_sub_one_eq_mod x 7

theorem land_0x0f (x : Nat) : x &&& 0x0f = x % 16 := Nat.and_pow_two_sub_one_eq_mod x 4

theorem land_0xff (x : Nat) : x &&& 0xff = x % 256 := Nat.and_pow_two_sub_one_eq_mod x 8

theorem shiftRight_four (x : Nat) : x >>> 4 = x / 16 := Nat.shiftRight_eq_div_pow x 4

/-- Bit 7 of `x` is clear exactly when `x & 0x80 == 0`. -/
theorem land_0x80_eq_zero (x : Nat) : x &&& 0x80 = 0 ↔ x.testBit 7 = false := by
  rw [Nat.land_comm, show (0x80 : Nat) = 2 ^ 7 from rfl, Nat.two_pow_and]
  cases x.testBit 7 <;> simp

/-- On an octet, bit 7 is the test `0x80 ≤ x`. -/
theorem testBit_seven_iff {x : Nat} (h : x < 256) : x.testBit 7 = true ↔ 128 ≤ x := by
  rw [Nat.testBit_to_div_mod, decide_eq_true_iff]
  omega

theorem or_0x80 {x : Nat} (h : x < 128) : x ||| 0x80 = x + 128 :=
  calc x ||| 0x80 = 2 ^ 7 * 1 ||| x := Nat.or_comm x 0x80
    _ = 2 ^ 7 * 1 + x := (Nat.mul_add_lt_is_or h 1).symm
    _ = x + 128 := by omega

theorem shiftLeft_four_or {f : Nat} (h : f < 16) (t : Nat) : (t <<< 4) ||| f = 16 * t + f := by
  rw [Nat.shiftLeft_eq, Nat.mul_comm, ← Nat.mul_add_lt_is_or (i := 4) h]

/-- The high octet of a 16-bit length, as the codec computes it. -/
theorem land_0xff00_shiftRight {x : Nat} (h : x < 65536) : (x &&& 0xff00) >>> 8 = x / 256 := by
  rw [← Nat.shiftRight_eq_div_pow x 8]
  apply Nat.eq_of_testBit_eq
  intro i
  simp only [Nat.testBit_shiftRight, Nat.testBit_and]
  by_cases hi : i < 8
  · have high : ∀ j < 8, (0xff00 : Nat).testBit (8 + j) = true := by decide
    simp [high i hi]
  · have : x.testBit (8 + i) = false := Nat.testBit_lt_two_pow (by
      calc x < 2 ^ 16 := h
        _ ≤ 2 ^ (8 + i) := Nat.pow_le_pow_right (by omega) (by omega))
    simp [this]

end HakaMqtt
