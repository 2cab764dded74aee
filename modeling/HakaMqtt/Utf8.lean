/-
The UTF-8 codec the field functions call: `codecs.getencoder('utf8')` and
`codecs.getdecoder('utf8')` of Python 2.7.

A Python 2 `unicode` is a sequence of code points, `PyUnicode`: on a wide (UCS-4) build, as
Linux distributions build Python 2.7, each is a value below `0x110000`, surrogates included.
Text (`IsText`) is a `unicode` without a surrogate, what a Lean `String` holds
(`PyUnicode.ofString`, `isText_ofString`).

`encodeCodePoint` writes a code point as one to four octets in the layout of RFC 3629 §3, a
surrogate as three.  The encoder writes each code point so, except that it joins a high
surrogate followed by a low one into the code point the pair stands for, written as four
octets.  The decoder reads octet by octet, as a state machine (`Utf8Decoder.step`), and at the
end of each character checks that its value is below `0x110000` and carried by no shorter
sequence; it raises `UnicodeError` on every other input.  It so accepts the sequences of
RFC 3629 §4 and, as Python 2.7's decoder does, the three-octet forms of the surrogates,
`ED A0 80` to `ED BF BF`, which it returns as lone surrogates.

* `utf8Decode_encodeCodePoints` — the decoder reads back the code points of every sequence
  of their encodings, lone surrogates included;
* `encodeCodePoints_of_utf8Decode` — and every octet sequence it reads is such a sequence, so
  the two are inverse bijections between `unicode`s and the sequences the decoder accepts;
* `utf8Decode_utf8Encode` — on text the encoder writes that sequence, and the codec round-trips;
* `utf8Decode_utf8Encode_pair` — a surrogate pair does not round-trip: it is read back as the
  one code point it stands for;
* `utf8Decode_error` — the decoder raises nothing but `UnicodeError`.
-/
import HakaMqtt.Basic

namespace HakaMqtt

/-- A code point of a Python 2 `unicode` on a wide build: a value below `0x110000`. -/
abbrev CodePoint := Fin 0x110000

/-- A Python 2 `unicode`: its code points. -/
abbrev PyUnicode := List CodePoint

/-- A surrogate, `U+D800` to `U+DFFF`: a code point that is no scalar value. -/
def CodePoint.IsSurrogate (c : CodePoint) : Prop := 0xD800 ≤ c.val ∧ c.val ≤ 0xDFFF

instance : DecidablePred CodePoint.IsSurrogate := fun _ => inferInstanceAs (Decidable (_ ∧ _))

/-- Text: a `unicode` of scalar values, without a surrogate. -/
def IsText (s : PyUnicode) : Prop := ∀ c ∈ s, ¬ c.IsSurrogate

instance : DecidablePred IsText := fun s =>
  List.decidableBAll (fun c : CodePoint => ¬ c.IsSurrogate) s

@[simp] theorem isText_nil : IsText [] := List.forall_mem_nil _

theorem toNat_lt_0x110000 (c : Char) : c.toNat < 0x110000 := by
  have : c.toNat.isValidChar := c.valid
  unfold Nat.isValidChar at this
  omega

/-- The `unicode` of a Lean string: its scalar values. -/
def PyUnicode.ofString (s : String) : PyUnicode :=
  s.data.map fun c => ⟨c.toNat, toNat_lt_0x110000 c⟩

theorem isText_ofString (s : String) : IsText (.ofString s) := by
  simp only [IsText, PyUnicode.ofString, List.mem_map]
  rintro _ ⟨c, -, rfl⟩ ⟨h1, h2⟩
  have : c.toNat.isValidChar := c.valid
  unfold Nat.isValidChar at this
  simp only [Fin.val_mk] at h1 h2
  omega

/-- The four octets of a value past `0xFFFF`, the encoder's branch `encodeUCS4`. -/
def encodeUCS4 (v : Nat) : List UInt8 :=
  [UInt8.ofNat (0xF0 + v / 0x40000), UInt8.ofNat (0x80 + v / 0x1000 % 0x40),
    UInt8.ofNat (0x80 + v / 0x40 % 0x40), UInt8.ofNat (0x80 + v % 0x40)]

/-- The UTF-8 octets of one code point on its own. -/
def encodeCodePoint (c : CodePoint) : List UInt8 :=
  let v := c.val
  if v < 0x80 then [UInt8.ofNat v]
  else if v < 0x800 then [UInt8.ofNat (0xC0 + v / 0x40), UInt8.ofNat (0x80 + v % 0x40)]
  else if v < 0x10000 then
    [UInt8.ofNat (0xE0 + v / 0x1000), UInt8.ofNat (0x80 + v / 0x40 % 0x40),
      UInt8.ofNat (0x80 + v % 0x40)]
  else encodeUCS4 v

/-- The octets of a `unicode`, each code point on its own. -/
def encodeCodePoints (s : PyUnicode) : List UInt8 := s.flatMap encodeCodePoint

/-- The octets `codecs.getencoder('utf8')(s)[0]`: a high surrogate followed by a low one is
joined into the code point of the pair, every other code point is written on its own. -/
def utf8Encode : PyUnicode → List UInt8
  | [] => []
  | [c] => encodeCodePoint c
  | c :: d :: s =>
    if 0xD800 ≤ c.val ∧ c.val ≤ 0xDBFF ∧ 0xDC00 ≤ d.val ∧ d.val ≤ 0xDFFF then
      encodeUCS4 (((c.val - 0xD800) <<< 10 ||| (d.val - 0xDC00)) + 0x10000) ++ utf8Encode s
    else encodeCodePoint c ++ utf8Encode (d :: s)

/-- The decoder between two octets: the continuation octets the current character still
owes, the bits of it read so far, the least value a sequence of its length may carry, and
the code points decoded before it. -/
structure Utf8Decoder where
  need : Nat
  acc : Nat
  least : Nat
  out : PyUnicode

/-- A leading octet: how many continuation octets follow, its bits, and the least value the
sequence may carry; `none` for an octet no character starts with. -/
def utf8Lead (b : Nat) : Option (Nat × Nat × Nat) :=
  if 0xC0 ≤ b ∧ b < 0xE0 then some (1, b % 0x20, 0x80)
  else if 0xE0 ≤ b ∧ b < 0xF0 then some (2, b % 0x10, 0x800)
  else if 0xF0 ≤ b ∧ b < 0xF8 then some (3, b % 0x08, 0x10000)
  else none

namespace Utf8Decoder

/-- One octet. -/
def step (d : Utf8Decoder) (b : UInt8) : Option Utf8Decoder :=
  let b := b.toNat
  if d.need = 0 then
    if hb : b < 0x80 then some ⟨0, 0, 0, d.out ++ [⟨b, by omega⟩]⟩
    else (utf8Lead b).map fun (need, acc, least) => ⟨need, acc, least, d.out⟩
  else if 0x80 ≤ b ∧ b < 0xC0 then
    let acc := d.acc * 0x40 + b % 0x40
    if d.need = 1 then
      if hv : d.least ≤ acc ∧ acc < 0x110000 then some ⟨0, 0, 0, d.out ++ [⟨acc, hv.2⟩]⟩
      else none
    else some ⟨d.need - 1, acc, d.least, d.out⟩
  else none

/-- Every octet of a sequence, or `none` once one is refused. -/
def run : Utf8Decoder → List UInt8 → Option Utf8Decoder
  | d, [] => some d
  | d, b :: bs => (d.step b).bind (run · bs)

end Utf8Decoder

/-- The `unicode` `codecs.getdecoder('utf8')(bs)[0]`, or the `UnicodeError` it raises. -/
def utf8Decode (bs : List UInt8) : Except PyException PyUnicode :=
  match (Utf8Decoder.mk 0 0 0 []).run bs with
  | some d => if d.need = 0 then .ok d.out else .error .unicodeError
  | none => .error .unicodeError

theorem utf8Lead_two {x : Nat} (hx : x < 0x20) : utf8Lead (0xC0 + x) = some (1, x, 0x80) := by
  rw [utf8Lead, if_pos (by omega)]
  congr
  omega

theorem utf8Lead_three {x : Nat} (hx : x < 0x10) : utf8Lead (0xE0 + x) = some (2, x, 0x800) := by
  rw [utf8Lead, if_neg (by omega), if_pos (by omega)]
  congr
  omega

theorem utf8Lead_four {x : Nat} (hx : x < 0x08) : utf8Lead (0xF0 + x) = some (3, x, 0x10000) := by
  rw [utf8Lead, if_neg (by omega), if_neg (by omega), if_pos (by omega)]
  congr
  omega

namespace Utf8Decoder

theorem run_cons {d d' : Utf8Decoder} {b : UInt8} (h : d.step b = some d') (bs : List UInt8) :
    d.run (b :: bs) = d'.run bs := by
  simp [run, h]

/-- Between characters, an ASCII octet is a code point. -/
theorem step_ascii (out : PyUnicode) {c : CodePoint} (hc : c.val < 0x80) :
    step ⟨0, 0, 0, out⟩ (UInt8.ofNat c.val) = some ⟨0, 0, 0, out ++ [c]⟩ := by
  simp [step, Nat.mod_eq_of_lt (show c.val < 256 by omega), hc]

/-- Between characters, a leading octet opens a sequence. -/
theorem step_lead (out : PyUnicode) {b need acc least : Nat}
    (h : utf8Lead b = some (need, acc, least)) (hb : 0x80 ≤ b ∧ b < 256) :
    step ⟨0, 0, 0, out⟩ (UInt8.ofNat b) = some ⟨need, acc, least, out⟩ := by
  simp [step, Nat.mod_eq_of_lt hb.2, show ¬ b < 0x80 by omega, h]

/-- A continuation octet inside a sequence. -/
theorem step_cont {d : Utf8Decoder} {k : Nat} (hd : d.need = k + 2) {x : Nat} (hx : x < 0x40) :
    d.step (UInt8.ofNat (0x80 + x)) = some ⟨k + 1, d.acc * 0x40 + x, d.least, d.out⟩ := by
  simp [step, hd, Nat.mod_eq_of_lt (show 0x80 + x < 256 by omega),
    show 0x80 ≤ 0x80 + x ∧ 0x80 + x < 0xC0 by omega, show (0x80 + x) % 0x40 = x by omega]

/-- The last continuation octet of a sequence closes the code point its bits complete, when no
shorter sequence carries it. -/
theorem step_last {d : Utf8Decoder} (hd : d.need = 1) {x : Nat} (hx : x < 0x40) {c : CodePoint}
    (hc : c.val = d.acc * 0x40 + x) (hl : d.least ≤ c.val) :
    d.step (UInt8.ofNat (0x80 + x)) = some ⟨0, 0, 0, d.out ++ [c]⟩ := by
  have hv : d.least ≤ d.acc * 0x40 + x ∧ d.acc * 0x40 + x < 0x110000 :=
    ⟨hc ▸ hl, hc ▸ c.isLt⟩
  simp only [step, hd, toNat_ofNat_eq_mod, Nat.mod_eq_of_lt (show 0x80 + x < 256 by omega),
    show (0x80 + x) % 0x40 = x by omega, dif_pos hv]
  simp [show 0x80 ≤ 0x80 + x ∧ 0x80 + x < 0xC0 by omega, ← hc]

/-- The decoder reads one code point back from its encoding. -/
theorem run_encodeCodePoint (out : PyUnicode) (c : CodePoint) (rest : List UInt8) :
    (mk 0 0 0 out).run (encodeCodePoint c ++ rest) = (mk 0 0 0 (out ++ [c])).run rest := by
  have hlt := c.isLt
  simp only [encodeCodePoint, encodeUCS4]
  split_ifs with h1 h2 h3 <;> simp only [List.cons_append, List.nil_append]
  · rw [run_cons (step_ascii out h1)]
  · rw [run_cons (step_lead out (utf8Lead_two (x := c.val / 0x40) (by omega)) (by omega)),
      run_cons (step_last rfl (by omega) (c := c) (by dsimp only; omega) (by dsimp only; omega))]
  · rw [run_cons (step_lead out (utf8Lead_three (x := c.val / 0x1000) (by omega)) (by omega)),
      run_cons (step_cont (k := 0) rfl (by omega)),
      run_cons (step_last rfl (by omega) (c := c) (by dsimp only; omega) (by dsimp only; omega))]
  · rw [run_cons (step_lead out (utf8Lead_four (x := c.val / 0x40000) (by omega)) (by omega)),
      run_cons (step_cont (k := 1) rfl (by omega)), run_cons (step_cont (k := 0) rfl (by omega)),
      run_cons (step_last rfl (by omega) (c := c) (by dsimp only; omega) (by dsimp only; omega))]

theorem run_flatMap_encodeCodePoint (out cs : PyUnicode) (rest : List UInt8) :
    (mk 0 0 0 out).run (cs.flatMap encodeCodePoint ++ rest) = (mk 0 0 0 (out ++ cs)).run rest := by
  induction cs generalizing out with
  | nil => simp
  | cons c cs ih => rw [List.flatMap_cons, List.append_assoc, run_encodeCodePoint, ih,
      List.append_assoc, List.singleton_append]

/-! ### What the decoder accepts -/

theorem run_cons_eq_some {d d' : Utf8Decoder} {b : UInt8} {bs : List UInt8} :
    d.run (b :: bs) = some d' ↔ ∃ d₁, d.step b = some d₁ ∧ d₁.run bs = some d' := by
  simp [run, Option.bind_eq_some]

theorem utf8Lead_eq_some {b need acc least : Nat} (h : utf8Lead b = some (need, acc, least)) :
    need = 1 ∧ b = 0xC0 + acc ∧ acc < 0x20 ∧ least = 0x80 ∨
    need = 2 ∧ b = 0xE0 + acc ∧ acc < 0x10 ∧ least = 0x800 ∨
    need = 3 ∧ b = 0xF0 + acc ∧ acc < 0x08 ∧ least = 0x10000 := by
  unfold utf8Lead at h
  split_ifs at h with h2 h3 h4 <;> simp only [Option.some.injEq, Prod.mk.injEq, reduceCtorEq] at h
  · obtain ⟨rfl, rfl, rfl⟩ := h
    exact .inl ⟨rfl, by omega, by omega, rfl⟩
  · obtain ⟨rfl, rfl, rfl⟩ := h
    exact .inr (.inl ⟨rfl, by omega, by omega, rfl⟩)
  · obtain ⟨rfl, rfl, rfl⟩ := h
    exact .inr (.inr ⟨rfl, by omega, by omega, rfl⟩)

/-- Between characters the decoder takes an ASCII octet or a leading octet, nothing else. -/
theorem step_boundary {out : PyUnicode} {b : UInt8} {d : Utf8Decoder}
    (h : step ⟨0, 0, 0, out⟩ b = some d) :
    (∃ c : CodePoint, c.val = b.toNat ∧ b.toNat < 0x80 ∧ d = ⟨0, 0, 0, out ++ [c]⟩) ∨
      ∃ need acc least, utf8Lead b.toNat = some (need, acc, least) ∧
        d = ⟨need, acc, least, out⟩ := by
  simp only [step, if_true] at h
  split_ifs at h with hb
  · exact .inl ⟨_, rfl, hb, (Option.some.inj h).symm⟩
  · rcases hl : utf8Lead b.toNat with _ | ⟨need, acc, least⟩ <;>
      simp only [hl, Option.map_none', Option.map_some', reduceCtorEq, Option.some.injEq] at h
    exact .inr ⟨need, acc, least, rfl, h.symm⟩

/-- Inside a character the decoder takes a continuation octet `0x80 + y`, and closes the
character on the last one if its value is a code point carried by no shorter sequence. -/
theorem step_inside {d d' : Utf8Decoder} {b : UInt8} (hn : d.need ≠ 0) (h : d.step b = some d') :
    ∃ y, y < 0x40 ∧ b = UInt8.ofNat (0x80 + y) ∧
      ((d.need = 1 ∧ ∃ c : CodePoint, c.val = d.acc * 0x40 + y ∧ d.least ≤ c.val ∧
          d' = ⟨0, 0, 0, d.out ++ [c]⟩) ∨
        d.need ≠ 1 ∧ d' = ⟨d.need - 1, d.acc * 0x40 + y, d.least, d.out⟩) := by
  simp only [step, if_neg hn] at h
  split_ifs at h with hb h1 hv
  · exact ⟨b.toNat % 0x40, Nat.mod_lt _ (by omega), (ofNat_eq_of_toNat (by omega)).symm,
      .inl ⟨h1, _, rfl, hv.1, (Option.some.inj h).symm⟩⟩
  · exact ⟨b.toNat % 0x40, Nat.mod_lt _ (by omega), (ofNat_eq_of_toNat (by omega)).symm,
      .inr ⟨h1, (Option.some.inj h).symm⟩⟩

/-- Inside a character, a run that ends between characters reads the character's remaining
continuation octets, closes the code point they complete, and goes on from there. -/
theorem run_inside {k acc least : Nat} {out : PyUnicode} {bs : List UInt8} {d : Utf8Decoder}
    (h : (mk (k + 1) acc least out).run bs = some d) (hd : d.need = 0) :
    ∃ (ys : List Nat) (rest : List UInt8) (c : CodePoint), ys.length = k + 1 ∧
      (∀ y ∈ ys, y < 0x40) ∧ bs = ys.map (fun y => UInt8.ofNat (0x80 + y)) ++ rest ∧
      c.val = ys.foldl (· * 0x40 + ·) acc ∧ least ≤ c.val ∧
      (mk 0 0 0 (out ++ [c])).run rest = some d := by
  induction k generalizing acc bs with
  | zero =>
    match bs, h with
    | [], h => cases h; cases hd
    | b :: bs, h =>
      obtain ⟨d₁, h₁, hrun⟩ := run_cons_eq_some.mp h
      obtain ⟨y, hy, rfl, ⟨-, c, hc, hl, rfl⟩ | ⟨h1, -⟩⟩ := step_inside (by simp) h₁
      · exact ⟨[y], bs, c, rfl, List.forall_mem_singleton.mpr hy, rfl, hc, hl, hrun⟩
      · exact absurd rfl h1
  | succ k ih =>
    match bs, h with
    | [], h => cases h; cases hd
    | b :: bs, h =>
      obtain ⟨d₁, h₁, hrun⟩ := run_cons_eq_some.mp h
      obtain ⟨y, hy, rfl, ⟨h1, -⟩ | ⟨-, rfl⟩⟩ := step_inside (by simp) h₁
      · cases h1
      · obtain ⟨ys, rest, c, hlen, hys, rfl, hc, hl, hrun'⟩ := ih hrun
        exact ⟨y :: ys, rest, c, by simp [hlen], List.forall_mem_cons.mpr ⟨hy, hys⟩, rfl, hc,
          hl, hrun'⟩

theorem encodeCodePoint_ne_nil (c : CodePoint) : encodeCodePoint c ≠ [] := by
  dsimp only [encodeCodePoint, encodeUCS4]
  split_ifs <;> simp

/-- Between characters, a run that ends between characters first reads the encoding of one
code point. -/
theorem run_boundary_cons {out : PyUnicode} {b : UInt8} {bs : List UInt8} {d : Utf8Decoder}
    (h : (mk 0 0 0 out).run (b :: bs) = some d) (hd : d.need = 0) :
    ∃ c rest, b :: bs = encodeCodePoint c ++ rest ∧
      (mk 0 0 0 (out ++ [c])).run rest = some d := by
  obtain ⟨d₁, h₁, hrun⟩ := run_cons_eq_some.mp h
  rcases step_boundary h₁ with ⟨c, hc, hb, rfl⟩ | ⟨need, acc, least, hlead, rfl⟩
  · -- an ASCII octet
    refine ⟨c, bs, ?_, hrun⟩
    rw [encodeCodePoint, hc, if_pos hb, ofNat_eq_of_toNat rfl]
    rfl
  rcases utf8Lead_eq_some hlead with ⟨rfl, hb, hacc, rfl⟩ | ⟨rfl, hb, hacc, rfl⟩ |
    ⟨rfl, hb, hacc, rfl⟩
  · -- a leading octet and one continuation octet
    obtain ⟨ys, rest, c, hlen, hys, rfl, hc, hl, hrun'⟩ := run_inside (k := 0) hrun hd
    match ys, hlen, hys with
    | [y₁], _, hys =>
      have := hys y₁ (by simp)
      refine ⟨c, rest, ?_, hrun'⟩
      dsimp only [List.foldl_cons, List.foldl_nil] at hc
      rw [encodeCodePoint, ← ofNat_eq_of_toNat hb, hc, if_neg (by omega), if_pos (by omega),
        show (acc * 0x40 + y₁) / 0x40 = acc by omega,
        show (acc * 0x40 + y₁) % 0x40 = y₁ by omega]
      rfl
  · -- a leading octet and two continuation octets
    obtain ⟨ys, rest, c, hlen, hys, rfl, hc, hl, hrun'⟩ := run_inside (k := 1) hrun hd
    match ys, hlen, hys with
    | [y₁, y₂], _, hys =>
      have := hys y₁ (by simp)
      have := hys y₂ (by simp)
      refine ⟨c, rest, ?_, hrun'⟩
      dsimp only [List.foldl_cons, List.foldl_nil] at hc
      rw [encodeCodePoint, ← ofNat_eq_of_toNat hb, hc, if_neg (by omega), if_neg (by omega),
        if_pos (by omega),
        show ((acc * 0x40 + y₁) * 0x40 + y₂) / 0x1000 = acc by omega,
        show ((acc * 0x40 + y₁) * 0x40 + y₂) / 0x40 % 0x40 = y₁ by omega,
        show ((acc * 0x40 + y₁) * 0x40 + y₂) % 0x40 = y₂ by omega]
      rfl
  · -- a leading octet and three continuation octets
    obtain ⟨ys, rest, c, hlen, hys, rfl, hc, hl, hrun'⟩ := run_inside (k := 2) hrun hd
    match ys, hlen, hys with
    | [y₁, y₂, y₃], _, hys =>
      have := hys y₁ (by simp)
      have := hys y₂ (by simp)
      have := hys y₃ (by simp)
      refine ⟨c, rest, ?_, hrun'⟩
      dsimp only [List.foldl_cons, List.foldl_nil] at hc
      rw [encodeCodePoint, ← ofNat_eq_of_toNat hb, hc, if_neg (by omega), if_neg (by omega),
        if_neg (by omega), encodeUCS4,
        show (((acc * 0x40 + y₁) * 0x40 + y₂) * 0x40 + y₃) / 0x40000 = acc by omega,
        show (((acc * 0x40 + y₁) * 0x40 + y₂) * 0x40 + y₃) / 0x1000 % 0x40 = y₁ by omega,
        show (((acc * 0x40 + y₁) * 0x40 + y₂) * 0x40 + y₃) / 0x40 % 0x40 = y₂ by omega,
        show (((acc * 0x40 + y₁) * 0x40 + y₂) * 0x40 + y₃) % 0x40 = y₃ by omega]
      rfl

/-- A run from a character boundary that ends on one has read a sequence of encodings. -/
theorem run_boundary {out : PyUnicode} {bs : List UInt8} {d : Utf8Decoder}
    (h : (mk 0 0 0 out).run bs = some d) (hd : d.need = 0) :
    ∃ cs, bs = cs.flatMap encodeCodePoint ∧ d.out = out ++ cs := by
  obtain ⟨n, hlen⟩ : ∃ n, bs.length = n := ⟨_, rfl⟩
  induction n using Nat.strong_induction_on generalizing bs out with
  | _ n ih =>
    match bs, h with
    | [], h =>
      cases h
      exact ⟨[], rfl, (List.append_nil out).symm⟩
    | b :: bs, h =>
      obtain ⟨c, rest, hbs, hrun⟩ := run_boundary_cons h hd
      have hlt : rest.length < n := by
        have := List.length_pos.mpr (encodeCodePoint_ne_nil c)
        rw [← hlen, hbs, List.length_append]
        omega
      obtain ⟨cs, rfl, hout⟩ := ih _ hlt hrun rfl
      exact ⟨c :: cs, by rw [hbs, List.flatMap_cons], by rw [hout, List.append_assoc,
        List.singleton_append]⟩

end Utf8Decoder

/-- **The decoder accepts only encodings**: an octet sequence it reads is the encoding of the
code points it returns, each on its own. -/
theorem encodeCodePoints_of_utf8Decode {bs : List UInt8} {s : PyUnicode}
    (h : utf8Decode bs = .ok s) : encodeCodePoints s = bs := by
  unfold utf8Decode at h
  split at h
  · next d hrun =>
    split_ifs at h with hd
    cases h
    obtain ⟨cs, rfl, hout⟩ := Utf8Decoder.run_boundary hrun hd
    simp [encodeCodePoints, hout]
  · cases h

/-- **The decoder reads back the code points of every sequence of their encodings**, lone
surrogates included. -/
theorem utf8Decode_encodeCodePoints (s : PyUnicode) : utf8Decode (encodeCodePoints s) = .ok s := by
  have h := Utf8Decoder.run_flatMap_encodeCodePoint [] s []
  rw [List.append_nil, List.nil_append] at h
  simp [utf8Decode, encodeCodePoints, h, Utf8Decoder.run]

/-- On text the encoder writes each code point on its own: it has no surrogate pair to join. -/
theorem utf8Encode_of_isText {s : PyUnicode} (hs : IsText s) : utf8Encode s = encodeCodePoints s := by
  induction s using utf8Encode.induct with
  | case1 => rfl
  | case2 c => simp [utf8Encode, encodeCodePoints]
  | case3 c d s hpair =>
    exact absurd ⟨hpair.1, by omega⟩ (hs c (List.mem_cons_self _ _))
  | case4 c d s hpair ih =>
    rw [utf8Encode, if_neg hpair, ih fun x hx => hs x (List.mem_cons_of_mem _ hx)]
    simp [encodeCodePoints]

/-- **The codec round-trips text.** -/
theorem utf8Decode_utf8Encode {s : PyUnicode} (hs : IsText s) :
    utf8Decode (utf8Encode s) = .ok s := by
  rw [utf8Encode_of_isText hs, utf8Decode_encodeCodePoints]

/-- A high surrogate followed by a low one is written as the four octets of the code point the
pair stands for, and read back as that one code point. -/
theorem utf8Decode_utf8Encode_pair {c d : CodePoint} (hc : 0xD800 ≤ c.val ∧ c.val ≤ 0xDBFF)
    (hd : 0xDC00 ≤ d.val ∧ d.val ≤ 0xDFFF) :
    ∃ e : CodePoint, 0x10000 ≤ e.val ∧ utf8Decode (utf8Encode [c, d]) = .ok [e] := by
  have hv : (c.val - 0xD800) <<< 10 ||| (d.val - 0xDC00) < 2 ^ 20 :=
    Nat.or_lt_two_pow (by rw [Nat.shiftLeft_eq]; omega) (by omega)
  let e : CodePoint := ⟨((c.val - 0xD800) <<< 10 ||| (d.val - 0xDC00)) + 0x10000, by omega⟩
  have he : utf8Encode [c, d] = encodeCodePoints [e] := by
    rw [utf8Encode, if_pos ⟨hc.1, hc.2, hd⟩, utf8Encode, encodeCodePoints, List.flatMap_singleton,
      encodeCodePoint]
    dsimp only
    rw [if_neg (by omega), if_neg (by omega), if_neg (by omega), List.append_nil]
  exact ⟨e, Nat.le_add_left _ _, by rw [he, utf8Decode_encodeCodePoints]⟩

/-- The decoder raises nothing but `UnicodeError`. -/
theorem utf8Decode_error {bs : List UInt8} {e : PyException} (h : utf8Decode bs = .error e) :
    e = .unicodeError := by
  unfold utf8Decode at h
  split at h
  · split at h <;> cases h; rfl
  · cases h; rfl

end HakaMqtt
