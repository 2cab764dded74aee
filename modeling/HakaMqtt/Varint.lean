/-
The variable-length integer of the MQTT fixed header: `decode_varint` and `encode_varint`.

`decodeVarint` walks the buffer octet by octet; its loop stops after four octets at most, so
it is structural on the list.  `encode_varint`'s `while True` loop ends only when the value
reaches `0`, which a negative value never does, so `encodeVarint` takes a `fuel` bound on the
rounds of the loop and answers `none` when the loop is still running (as `evaln` does).

* `decodeVarintLoop_ok_iff` — the decoder returns exactly on a buffer that begins with
  `k ≤ 4` octets, bit 7 set on all but the last, and returns `k` and their base-128 value;
* `decodeVarintLoop_underflow_iff`, `decodeVarintLoop_error_cases` — it underflows exactly
  on fewer than four octets all with bit 7 set, and otherwise raises `DecodeError`;
* `encodeVarintLoop_file` — on a value `v ≥ 0` the encoder writes the shortest base-128
  encoding of `v` (`varintOctets`) and returns its length;
* `varintOctets_varintSum` — the octets of any varint the decoder reads, shortest or not, are
  `varintOctets` of their length and value;
* `encodeVarintLoop_neg` — on a negative value the encoder's loop never ends;
* `encodeVarint_decodeVarint` — on `v ≥ 0`, `decode_varint` reads back what `encode_varint`
  writes exactly when `v ≤ 268435455`, and refuses the longer varints of larger values.
-/
import HakaMqtt.Basic
import Mathlib.Algebra.BigOperators.Ring
import Mathlib.Tactic.Ring

open Finset

namespace HakaMqtt

/-- The loop of `decode_varint`, on the rest `buf[num_bytes_consumed:]` of the buffer, with the
value `v` read so far and the place value `m` of the next group. -/
def decodeVarintLoop : List UInt8 → Nat → Nat → Nat → Except PyException (Nat × Nat)
  | [], _, _, _ => .error .indexError
  | b :: rest, v, m, numBytesConsumed =>
    let v := v + (b.toNat &&& 0x7f) * m
    let m := m * 0x80
    let numBytesConsumed := numBytesConsumed + 1
    if b.toNat &&& 0x80 = 0 then .ok (numBytesConsumed, v)
    else if numBytesConsumed ≥ 4 then
      .error (.decodeError "Variable integer contained more than 4 bytes.")
    else decodeVarintLoop rest v m numBytesConsumed

/-- Python's `decode_varint(buf)`: `(num_bytes_consumed, v)`. -/
def decodeVarint (buf : List UInt8) : Except PyException (Nat × Nat) :=
  reraise .indexError .underflowDecodeError (decodeVarintLoop buf 0 1 0)

/-- The loop of `encode_varint(v, f)` for at most `fuel` rounds, with `num_bytes` octets
written so far. -/
def encodeVarintLoop : Nat → Int → Sink → Nat → Option (Except PyException (Nat × Sink))
  | 0, _, _, _ => none
  | fuel + 1, v, f, numBytes =>
    let b := (v % 0x80).toNat
    let v := v / 0x80
    let b := if v > 0 then b ||| 0x80 else b
    match f.writeChr b with
    | .error e => some (.error e)
    | .ok f =>
      if v = 0 then some (.ok (numBytes + 1, f))
      else encodeVarintLoop fuel v f (numBytes + 1)

/-- Python's `encode_varint(v, f)`, given `fuel` rounds of its loop. -/
def encodeVarint (fuel : Nat) (v : Int) (f : Sink) : Option (Except PyException (Nat × Sink)) :=
  (encodeVarintLoop fuel v f 0).map (reraise .indexError .underflowDecodeError)

/-! ### The decoder -/

/-- `bs` begins with a varint of `k` octets, the `n` already read counted: bit 7 is set on
the first `k - 1` and clear on the `k`-th, and `n + k ≤ 4`. -/
def VarintPrefix (n : Nat) (bs : List UInt8) (k : Nat) : Prop :=
  1 ≤ k ∧ n + k ≤ 4 ∧ k ≤ bs.length ∧ (∀ i < k - 1, (bs.getD i 0).toNat.testBit 7 = true) ∧
    (bs.getD (k - 1) 0).toNat.testBit 7 = false

/-- The value of the first `k` octets of `bs` as little-endian base-128 groups. -/
def varintSum (bs : List UInt8) (k : Nat) : Nat :=
  ∑ i ∈ range k, ((bs.getD i 0).toNat &&& 0x7f) * 128 ^ i

@[simp] theorem varintSum_zero (bs : List UInt8) : varintSum bs 0 = 0 := rfl

theorem varintSum_cons (b : UInt8) (bs : List UInt8) (k : Nat) :
    varintSum (b :: bs) (k + 1) = b.toNat % 128 + 128 * varintSum bs k := by
  simp only [varintSum, sum_range_succ', List.getD_cons_succ, List.getD_cons_zero, land_0x7f,
    pow_zero, mul_one, mul_sum]
  rw [add_comm]
  exact congrArg _ (sum_congr rfl fun i _ => by ring)

/-- One round of the decoder's loop, with the bit tests as arithmetic. -/
theorem decodeVarintLoop_cons (b : UInt8) (bs : List UInt8) (v m n : Nat) :
    decodeVarintLoop (b :: bs) v m n =
      if b.toNat < 128 then .ok (n + 1, v + b.toNat % 128 * m)
      else if 4 ≤ n + 1 then .error (.decodeError "Variable integer contained more than 4 bytes.")
      else decodeVarintLoop bs (v + b.toNat % 128 * m) (m * 128) (n + 1) := by
  have hb := toNat_lt_256 b
  have hbit : b.toNat &&& 0x80 = 0 ↔ b.toNat < 128 := by
    rw [land_0x80_eq_zero, Bool.eq_false_iff, ne_eq, testBit_seven_iff hb]; omega
  simp only [decodeVarintLoop, land_0x7f, hbit]

theorem varintPrefix_cons_succ {b : UInt8} (hb : 128 ≤ b.toNat) (n k : Nat) (bs : List UInt8) :
    VarintPrefix n (b :: bs) (k + 1) ↔ VarintPrefix (n + 1) bs k := by
  have hbit : b.toNat.testBit 7 = true := (testBit_seven_iff (toNat_lt_256 b)).mpr hb
  rcases k with _ | k
  · refine iff_of_false (fun h => ?_) fun h => absurd h.1 (by omega)
    have := hbit.symm.trans h.2.2.2.2
    cases this
  · simp only [VarintPrefix, List.length_cons, Nat.add_sub_cancel, List.getD_cons_succ]
    constructor
    · rintro ⟨-, h4, hl, hc, hlast⟩
      exact ⟨by omega, by omega, by omega, fun i hi => hc (i + 1) (by omega), hlast⟩
    · rintro ⟨-, h4, hl, hc, hlast⟩
      refine ⟨by omega, by omega, by omega, fun i hi => ?_, hlast⟩
      rcases i with _ | i
      · exact hbit
      · exact hc i (by omega)

theorem varintPrefix_cons_iff_of_lt {b : UInt8} (hb : b.toNat < 128) (n k : Nat)
    (bs : List UInt8) : VarintPrefix n (b :: bs) k ↔ k = 1 ∧ n < 4 := by
  have hbit : b.toNat.testBit 7 = false := by
    rw [Bool.eq_false_iff, ne_eq, testBit_seven_iff (toNat_lt_256 b)]; omega
  constructor
  · rintro ⟨h1, h4, -, hc, -⟩
    have : ¬ 0 < k - 1 := fun h => Bool.false_ne_true (hbit.symm.trans (hc 0 h))
    omega
  · rintro ⟨rfl, hn⟩
    exact ⟨le_rfl, by omega, Nat.succ_pos _, fun i hi => absurd hi (by omega), hbit⟩

/-- **The decoder returns exactly on a varint**, and returns its length and value. -/
theorem decodeVarintLoop_ok_iff {n : Nat} (hn : n < 4) (bs : List UInt8) (v m : Nat)
    (r : Nat × Nat) : decodeVarintLoop bs v m n = .ok r ↔
      ∃ k, VarintPrefix n bs k ∧ r = (n + k, v + m * varintSum bs k) := by
  induction bs generalizing v m n with
  | nil =>
    exact iff_of_false (by simp [decodeVarintLoop]) fun ⟨k, ⟨h1, _, hlen, _⟩, _⟩ => by
      simp at hlen; omega
  | cons b bs ih =>
    rw [decodeVarintLoop_cons]
    by_cases hb : b.toNat < 128
    · simp only [if_pos hb, Except.ok.injEq, varintPrefix_cons_iff_of_lt hb]
      constructor
      · rintro rfl
        exact ⟨1, ⟨rfl, hn⟩, by simp [varintSum_cons b bs 0, mul_comm]⟩
      · rintro ⟨k, ⟨rfl, -⟩, rfl⟩
        simp [varintSum_cons b bs 0, mul_comm]
    have hcont : ∀ k, VarintPrefix n (b :: bs) k ↔ ∃ k', k = k' + 1 ∧ VarintPrefix (n + 1) bs k' :=
      fun k => by
        rcases k with _ | k
        · exact iff_of_false (fun h => by have := h.1; omega) fun ⟨_, h, _⟩ => by omega
        · simp [varintPrefix_cons_succ (by omega : 128 ≤ b.toNat)]
    simp only [if_neg hb, hcont]
    split_ifs with h4
    · refine iff_of_false (by simp) ?_
      rintro ⟨_, ⟨k', rfl, hpre⟩, -⟩
      exact absurd hpre.2.1 (by have := hpre.1; omega)
    · have hval : ∀ k, v + b.toNat % 128 * m + m * 128 * varintSum bs k =
          v + m * varintSum (b :: bs) (k + 1) := fun k => by rw [varintSum_cons]; ring
      rw [ih (by omega)]
      constructor
      · rintro ⟨k, hk, rfl⟩
        exact ⟨k + 1, ⟨k, rfl, hk⟩, Prod.ext (by dsimp only; omega) (hval k)⟩
      · rintro ⟨_, ⟨k, rfl, hk⟩, rfl⟩
        exact ⟨k, hk, Prod.ext (by dsimp only; omega) (hval k).symm⟩

/-- The decoder runs off the end exactly on fewer than `4 - n` octets, all with bit 7 set. -/
theorem decodeVarintLoop_underflow_iff {n : Nat} (hn : n < 4) (bs : List UInt8) (v m : Nat) :
    decodeVarintLoop bs v m n = .error .indexError ↔
      n + bs.length < 4 ∧ ∀ i < bs.length, (bs.getD i 0).toNat.testBit 7 = true := by
  induction bs generalizing v m n with
  | nil => simpa [decodeVarintLoop] using hn
  | cons b bs ih =>
    have hbit := testBit_seven_iff (toNat_lt_256 b)
    rw [decodeVarintLoop_cons]
    by_cases hb : b.toNat < 128
    · refine iff_of_false (by simp [hb]) fun ⟨_, h⟩ => ?_
      have := hbit.mp (h 0 (Nat.succ_pos _))
      omega
    split_ifs with h4
    · exact iff_of_false (by simp) fun ⟨hl, _⟩ => by rw [List.length_cons] at hl; omega
    · rw [ih (by omega), List.length_cons]
      constructor
      · rintro ⟨hl, hc⟩
        refine ⟨by omega, fun i hi => ?_⟩
        rcases i with _ | i
        · exact hbit.mpr (by omega)
        · exact hc i (by omega)
      · rintro ⟨hl, hc⟩
        exact ⟨by omega, fun i hi => hc (i + 1) (by omega)⟩

/-- The decoder raises nothing but `IndexError` and the four-octet `DecodeError`. -/
theorem decodeVarintLoop_error_cases {bs : List UInt8} {v m n : Nat} {e : PyException}
    (h : decodeVarintLoop bs v m n = .error e) :
    e = .indexError ∨ e = .decodeError "Variable integer contained more than 4 bytes." := by
  induction bs generalizing v m n with
  | nil => simp [decodeVarintLoop] at h; exact .inl h.symm
  | cons b bs ih =>
    rw [decodeVarintLoop_cons] at h
    split_ifs at h
    · exact .inr (Except.error.inj h).symm
    · exact ih h

/-- **Prefix stability**: what the decoder decides before running off the end, it decides on
every extension of the buffer. -/
theorem decodeVarintLoop_append {bs : List UInt8} {v m n : Nat}
    (h : decodeVarintLoop bs v m n ≠ .error .indexError) (e : List UInt8) :
    decodeVarintLoop (bs ++ e) v m n = decodeVarintLoop bs v m n := by
  induction bs generalizing v m n with
  | nil => exact absurd rfl h
  | cons b bs ih =>
    rw [List.cons_append, decodeVarintLoop_cons, decodeVarintLoop_cons] at *
    split_ifs at h ⊢ <;> first | rfl | exact ih h

/-- An underflow becomes a result once the varint is closed by an octet with bit 7 clear. -/
theorem decodeVarintLoop_append_zero {bs : List UInt8} {v m n : Nat}
    (h : decodeVarintLoop bs v m n = .error .indexError) :
    ∃ r, decodeVarintLoop (bs ++ [0]) v m n = .ok r := by
  induction bs generalizing v m n with
  | nil => exact ⟨_, rfl⟩
  | cons b bs ih =>
    rw [List.cons_append, decodeVarintLoop_cons]
    rw [decodeVarintLoop_cons] at h
    split_ifs at h ⊢ <;> first | exact ⟨_, rfl⟩ | exact ih h | simp at h

/-! ### The encoder -/

/-- The `k` octets of the base-128 encoding of `v`, least significant group first, with bit 7
set on all but the last. -/
def varintOctets : Nat → Nat → List UInt8
  | 0, _ => []
  | 1, v => [UInt8.ofNat (v % 128)]
  | k + 2, v => UInt8.ofNat (v % 128 + 128) :: varintOctets (k + 1) (v / 128)

@[simp] theorem length_varintOctets (k v : Nat) : (varintOctets k v).length = k := by
  induction k using Nat.strong_induction_on generalizing v with
  | _ k ih =>
    match k with
    | 0 | 1 => rfl
    | k + 2 => simp [varintOctets, ih (k + 1) (by omega)]

/-- The octets of a varint the decoder reads are `varintOctets` of their length and value,
whether or not the varint is the shortest one of its value. -/
theorem varintOctets_varintSum {n k : Nat} {bs : List UInt8} (hp : VarintPrefix n bs k) :
    varintOctets k (varintSum bs k) = bs.take k := by
  induction bs generalizing n k with
  | nil => exact absurd hp.2.2.1 (by have := hp.1; simp; omega)
  | cons b bs ih =>
    by_cases hb : b.toNat < 128
    · obtain ⟨rfl, -⟩ := (varintPrefix_cons_iff_of_lt hb n k bs).mp hp
      simp only [varintOctets, varintSum_cons, varintSum_zero, List.take_succ_cons, List.take_zero]
      exact congrArg (· :: []) (ofNat_eq_of_toNat (by omega))
    · obtain ⟨k, rfl⟩ : ∃ k', k = k' + 1 := ⟨k - 1, by have := hp.1; omega⟩
      have hp' := (varintPrefix_cons_succ (by omega) n k bs).mp hp
      obtain ⟨k, rfl⟩ : ∃ k', k = k' + 1 := ⟨k - 1, by have := hp'.1; omega⟩
      have hb' := toNat_lt_256 b
      rw [varintSum_cons, varintOctets, List.take_succ_cons, Nat.add_mul_div_left _ _ (by omega),
        Nat.add_mul_mod_self_left, Nat.div_eq_of_lt (Nat.mod_lt _ (by omega)), zero_add, ih hp',
        Nat.mod_mod, ofNat_eq_of_toNat (show b.toNat = b.toNat % 128 + 128 by omega)]

/-- `k` octets make the shortest base-128 encoding of `v`: `k` is the least `k ≥ 1` with
`v < 128 ^ k`. -/
def IsVarintLen (v k : Nat) : Prop :=
  1 ≤ k ∧ v < 128 ^ k ∧ ∀ j < k, 1 ≤ j → 128 ^ j ≤ v

instance (v k : Nat) : Decidable (IsVarintLen v k) :=
  inferInstanceAs (Decidable (1 ≤ k ∧ v < 128 ^ k ∧ ∀ j < k, 1 ≤ j → 128 ^ j ≤ v))

theorem isVarintLen_one_iff {v : Nat} : IsVarintLen v 1 ↔ v < 128 := by
  simp [IsVarintLen]

theorem IsVarintLen.div {v k : Nat} (h : IsVarintLen v (k + 2)) : IsVarintLen (v / 128) (k + 1) := by
  obtain ⟨-, hlt, hmin⟩ := h
  refine ⟨by omega, (Nat.div_lt_iff_lt_mul (by omega)).mpr (by rwa [← pow_succ]), ?_⟩
  intro j hjk hj
  exact (Nat.le_div_iff_mul_le (by omega)).mpr (by rw [← pow_succ]; exact hmin (j + 1) (by omega) (by omega))

/-- Every value has a shortest varint. -/
theorem exists_isVarintLen (v : Nat) : ∃ k, IsVarintLen v k := by
  induction v using Nat.strong_induction_on with
  | _ v ih =>
    by_cases hv : v < 128
    · exact ⟨1, isVarintLen_one_iff.mpr hv⟩
    obtain ⟨k, hk1, hlt, hmin⟩ := ih (v / 128) (by omega)
    refine ⟨k + 1, by omega, by rw [pow_succ]; omega, fun j hj h1 => ?_⟩
    match j with
    | 1 => rw [pow_one]; omega
    | j + 2 =>
      have := hmin (j + 1) (by omega) (by omega)
      rw [pow_succ]; omega

/-- A value of at most `268435455` has a varint of at most four octets. -/
theorem IsVarintLen.le_four {v k : Nat} (hk : IsVarintLen v k) (hv : v ≤ 268435455) : k ≤ 4 := by
  by_contra hk4
  have := hk.2.2 4 (by omega) (by omega)
  have : (128 : Nat) ^ 4 = 268435456 := rfl
  omega

/-- A value has one shortest varint. -/
theorem IsVarintLen.unique {v k k' : Nat} (h : IsVarintLen v k) (h' : IsVarintLen v k') :
    k = k' := by
  rcases Nat.lt_trichotomy k k' with hlt | rfl | hlt
  · exact absurd (h'.2.2 k hlt h.1) (by have := h.2.1; omega)
  · rfl
  · exact absurd (h.2.2 k' hlt h'.1) (by have := h'.2.1; omega)

/-- One round of the encoder's loop on a file and a value `v ≥ 0`. -/
theorem encodeVarintLoop_nat (fuel v : Nat) (w : List UInt8) (n : Nat) :
    encodeVarintLoop (fuel + 1) v (.file w) n =
      if v < 128 then some (.ok (n + 1, .file (w ++ [UInt8.ofNat v])))
      else encodeVarintLoop fuel ↑(v / 128) (.file (w ++ [UInt8.ofNat (v % 128 + 128)])) (n + 1) := by
  have hmod : ((v : Int) % 0x80).toNat = v % 128 := by omega
  simp only [encodeVarintLoop, hmod]
  by_cases hv : v < 128
  · simp [hv, show (v : Int) / 128 = 0 by omega, Nat.mod_eq_of_lt hv,
      writeChr_file w (show v < 256 by omega)]
  · simp [hv, show (0 : Int) < v / 128 by omega, show (v : Int) / 128 ≠ 0 by omega,
      or_0x80 (Nat.mod_lt v (by omega : 128 > 0)), writeChr_file w (show v % 128 + 128 < 256 by omega)]

/-- **The encoder on `v ≥ 0`** writes the shortest base-128 encoding of `v` and returns its
length, given as many rounds as it has octets. -/
theorem encodeVarintLoop_file {v k : Nat} (hk : IsVarintLen v k) {fuel : Nat} (hf : k ≤ fuel)
    (w : List UInt8) (n : Nat) :
    encodeVarintLoop fuel v (.file w) n = some (.ok (n + k, .file (w ++ varintOctets k v))) := by
  induction fuel generalizing v k w n with
  | zero => exact absurd hk.1 (by omega)
  | succ fuel ih =>
    rw [encodeVarintLoop_nat]
    match k, hk with
    | 1, hk =>
      have hv := isVarintLen_one_iff.mp hk
      simp [hv, varintOctets, Nat.mod_eq_of_lt hv]
    | k + 2, hk =>
      have hv : ¬ v < 128 := fun hv => by have := hk.2.2 1 (by omega) le_rfl; omega
      rw [if_neg hv, ih hk.div (by omega)]
      simp [varintOctets]
      omega

/-- **On a negative value the encoder never stops**: `v // 0x80` stays negative, so the loop
writes `chr(v % 0x80)` round after round and no fuel is enough. -/
theorem encodeVarintLoop_neg {v : Int} (hv : v < 0) (fuel : Nat) (w : List UInt8) (n : Nat) :
    encodeVarintLoop fuel v (.file w) n = none := by
  induction fuel generalizing v w n with
  | zero => rfl
  | succ fuel ih =>
    simp only [encodeVarintLoop]
    simp [show ¬ 0 < v / 128 by omega, show v / 128 ≠ 0 by omega,
      writeChr_file w (show (v % 128).toNat < 256 by omega), ih (show v / 128 < 0 by omega)]

/-- The decoder reads back `k + 1 ≤ 4 - n` octets of `varintOctets` as the value modulo
`128 ^ (k + 1)`. -/
theorem decodeVarintLoop_varintOctets {n k : Nat} (hk : n + k + 1 ≤ 4) (v acc m : Nat)
    (s : List UInt8) : decodeVarintLoop (varintOctets (k + 1) v ++ s) acc m n =
      .ok (n + (k + 1), acc + m * (v % 128 ^ (k + 1))) := by
  induction k generalizing n v acc m with
  | zero =>
    rw [varintOctets, List.singleton_append, decodeVarintLoop_cons, toNat_ofNat_eq_mod,
      if_pos (by omega)]
    simp [Nat.mul_comm, show v % 128 % 256 % 128 = v % 128 by omega]
  | succ k ih =>
    rw [varintOctets, List.cons_append, decodeVarintLoop_cons, toNat_ofNat_eq_mod,
      if_neg (by omega), if_neg (by omega), ih (by omega),
      show 128 ^ (k + 1 + 1) = 128 * 128 ^ (k + 1) from pow_succ' 128 (k + 1), Nat.mod_mul,
      show (v % 128 + 128) % 256 % 128 = v % 128 by omega]
    simp only [Except.ok.injEq, Prod.mk.injEq]
    exact ⟨by omega, by ring⟩

/-- A varint of five octets or more is refused once the decoder has read four. -/
theorem decodeVarintLoop_varintOctets_long {n k : Nat} (hn : n < 4) (hk : 4 < n + k + 2)
    (v acc m : Nat) (s : List UInt8) :
    decodeVarintLoop (varintOctets (k + 2) v ++ s) acc m n =
      .error (.decodeError "Variable integer contained more than 4 bytes.") := by
  induction k generalizing n v acc m with
  | zero =>
    rw [varintOctets, List.cons_append, decodeVarintLoop_cons, toNat_ofNat_eq_mod,
      if_neg (by omega), if_pos (by omega)]
  | succ k ih =>
    rw [varintOctets, List.cons_append, decodeVarintLoop_cons, toNat_ofNat_eq_mod,
      if_neg (by omega)]
    split_ifs with h4
    · rfl
    · exact ih (by omega) (by omega) _ _ _

/-! ### `decode_varint` -/

theorem decodeVarint_eq_ok_iff (bs : List UInt8) (k v : Nat) :
    decodeVarint bs = .ok (k, v) ↔ VarintPrefix 0 bs k ∧ v = varintSum bs k := by
  rw [decodeVarint, reraise_eq_ok_iff, decodeVarintLoop_ok_iff (by omega)]
  constructor
  · rintro ⟨k', hk, h⟩
    simp only [Prod.mk.injEq, zero_add, one_mul] at h
    obtain ⟨rfl, rfl⟩ := h
    exact ⟨hk, rfl⟩
  · rintro ⟨hk, rfl⟩
    exact ⟨k, hk, by simp⟩

/-- The loop from its start runs off the end exactly on fewer than four octets, all with
bit 7 set. -/
theorem decodeVarintLoop_start_underflow_iff (bs : List UInt8) :
    decodeVarintLoop bs 0 1 0 = .error .indexError ↔
      bs.length < 4 ∧ ∀ i < bs.length, (bs.getD i 0).toNat.testBit 7 = true := by
  simpa using decodeVarintLoop_underflow_iff (n := 0) (by omega) bs 0 1

theorem decodeVarint_eq_underflow_iff (bs : List UInt8) :
    decodeVarint bs = .error .underflowDecodeError ↔
      bs.length < 4 ∧ ∀ i < bs.length, (bs.getD i 0).toNat.testBit 7 = true := by
  rw [← decodeVarintLoop_start_underflow_iff, decodeVarint]
  cases h : decodeVarintLoop bs 0 1 0 with
  | ok => simp
  | error ex =>
    rcases decodeVarintLoop_error_cases h with rfl | rfl <;> simp

/-- `decode_varint` returns, underflows, or raises the four-octet `DecodeError`. -/
theorem decodeVarint_cases (bs : List UInt8) :
    (∃ r, decodeVarint bs = .ok r) ∨ decodeVarint bs = .error .underflowDecodeError ∨
      decodeVarint bs = .error (.decodeError "Variable integer contained more than 4 bytes.") := by
  rw [decodeVarint]
  cases h : decodeVarintLoop bs 0 1 0 with
  | ok r => exact .inl ⟨r, rfl⟩
  | error ex =>
    rcases decodeVarintLoop_error_cases h with rfl | rfl <;> simp

theorem decodeVarint_append {bs : List UInt8} (h : decodeVarint bs ≠ .error .underflowDecodeError)
    (e : List UInt8) : decodeVarint (bs ++ e) = decodeVarint bs := by
  rw [decodeVarint, decodeVarint, decodeVarintLoop_append]
  intro hl
  exact h (by rw [decodeVarint, hl]; rfl)

theorem decodeVarint_append_zero {bs : List UInt8} (h : decodeVarint bs = .error .underflowDecodeError) :
    ∃ r, decodeVarint (bs ++ [0]) = .ok r := by
  rw [decodeVarint_eq_underflow_iff, ← decodeVarintLoop_start_underflow_iff] at h
  obtain ⟨r, hr⟩ := decodeVarintLoop_append_zero h
  exact ⟨r, by rw [decodeVarint, hr]; rfl⟩

/-! ### The codec -/

/-- A value past `268435455` has a varint of five octets or more. -/
theorem IsVarintLen.four_lt {v k : Nat} (hk : IsVarintLen v k) (hv : 268435455 < v) : 4 < k := by
  by_contra hk4
  have : (128 : Nat) ^ k ≤ 128 ^ 4 := Nat.pow_le_pow_right (by omega) (by omega)
  have : (128 : Nat) ^ 4 = 268435456 := rfl
  have := hk.2.1
  omega

/-- `decode_varint` reads a shortest varint of at most four octets back. -/
theorem decodeVarint_varintOctets {v k : Nat} (hk : IsVarintLen v k) (h4 : k ≤ 4)
    (s : List UInt8) : decodeVarint (varintOctets k v ++ s) = .ok (k, v) := by
  obtain ⟨k, rfl⟩ : ∃ k', k = k' + 1 := ⟨k - 1, by have := hk.1; omega⟩
  rw [decodeVarint, decodeVarintLoop_varintOctets (by omega), Nat.mod_eq_of_lt hk.2.1]
  simp

/-- `decode_varint` refuses every varint of five octets or more. -/
theorem decodeVarint_varintOctets_long {v k : Nat} (hk : 4 < k) (s : List UInt8) :
    decodeVarint (varintOctets k v ++ s) =
      .error (.decodeError "Variable integer contained more than 4 bytes.") := by
  obtain ⟨k, rfl⟩ : ∃ k', k = k' + 2 := ⟨k - 2, by omega⟩
  rw [decodeVarint, decodeVarintLoop_varintOctets_long (by omega) (by omega)]
  rfl

/-- **The varint codec.**  On every `v ≥ 0`, `encode_varint` writes the shortest base-128
encoding of `v`, `k` octets, and returns `k`; `decode_varint` reads `(k, v)` back from those
octets, whatever follows, when `v ≤ 268435455` (so `k ≤ 4`), and raises the four-octet
`DecodeError` on every larger `v`. -/
theorem encodeVarint_decodeVarint (v : Nat) :
    ∃ k, IsVarintLen v k ∧
      (∀ fuel, k ≤ fuel → ∀ w,
        encodeVarint fuel v (.file w) = some (.ok (k, .file (w ++ varintOctets k v)))) ∧
      ∀ s, decodeVarint (varintOctets k v ++ s) =
        if v ≤ 268435455 then .ok (k, v)
        else .error (.decodeError "Variable integer contained more than 4 bytes.") := by
  obtain ⟨k, hk⟩ := exists_isVarintLen v
  refine ⟨k, hk, fun fuel hf w => ?_, fun s => ?_⟩
  · simp [encodeVarint, encodeVarintLoop_file hk hf]
  · split_ifs with hv
    · exact decodeVarint_varintOctets hk (hk.le_four hv) s
    · exact decodeVarint_varintOctets_long (hk.four_lt (by omega)) s

end HakaMqtt
