/-
The endpoint argument of the example client: `argparse_endpoint` of `examples/main.py`.

`argparse_endpoint(s)` splits `s` at every `:` (`s.split(':')`), wants exactly two words, a
hostname and a port, reads the port with `int`, and checks `1 <= port <= 2**16-1`; each
failure raises `argparse.ArgumentTypeError`, with one of two messages.  The `ArgumentTypeError`
raised for a port out of range is inside the `try`, but `except ValueError` does not catch it.

`int` of a Python 2 `str` is CPython's `PyInt_FromString` in base 10: it skips white space, reads
an optional sign (`PyOS_strtol`), skips white space again (`PyOS_strtoul`), reads the decimal
digits, and wants nothing but white space after them; otherwise it raises `ValueError`.  A
numeral too large for a C `long` is read again by `PyLong_FromString`, to the same value.  A
`str` is taken as its characters: `:`, the digits, the signs and the white space are ASCII, so
splitting and reading octets or characters agree.

* `argparseEndpoint_eq_ok_iff` — `argparse_endpoint` returns `(host, port)` exactly when `s` is
  `host`, one colon, and a port that `int` reads as a value in `[1, 65535]`;
* `argparseEndpoint_toDigits` — `host:port`, written with the decimal digits of the port, is
  read back, for every host without a colon and every port in range;
* `pyInt_eq_some_iff` — what `int` accepts: white space, an optional sign, white space, decimal
  digits and white space, read as the value of the digits, negated after a minus sign;
* `argparseEndpoint_eq_error_iff` — which of the two messages it raises, and exactly when: an
  endpoint with no colon or several (an IPv6 address among them) or a port `int` refuses gets
  the format message, a port out of range the range message.
-/
import Mathlib.Data.Nat.Digits

namespace HakaMqtt

/-- C's `isspace` in the `C` locale: the white space CPython's `int` skips. -/
def isSpace (c : Char) : Bool :=
  c = ' ' || c = '\t' || c = '\n' || c = '\x0b' || c = '\x0c' || c = '\r'

/-- The value of a string of decimal digits. -/
def decimalValue (ds : List Char) : Nat := ds.foldl (fun v d => 10 * v + (d.toNat - 48)) 0

/-- The sign `PyOS_strtol` reads: whether the numeral is negative, and what follows the
sign. -/
def readSign : List Char → Bool × List Char
  | '-' :: s => (true, s)
  | '+' :: s => (false, s)
  | s => (false, s)

/-- Python 2 `int(s)` of a `str`, as CPython's `PyInt_FromString` reads it in base 10;
`none` where it raises `ValueError`. -/
def pyInt (s : List Char) : Option Int :=
  let (negative, s) := readSign (s.dropWhile isSpace)
  let s := s.dropWhile isSpace
  let digits := s.takeWhile Char.isDigit
  if digits = [] ∨ (s.dropWhile Char.isDigit).dropWhile isSpace ≠ [] then none
  else some (if negative then -(decimalValue digits : Int) else decimalValue digits)

/-- The function `argparse_endpoint(s)`: `(host, port)`, or the message of the
`argparse.ArgumentTypeError` it raises. -/
def argparseEndpoint (s : List Char) : Except String (List Char × Int) :=
  match s.splitOn ':' with
  | [host, port] =>
    match pyInt port with
    | none => .error "Format of endpoint must be hostname:port."
    | some port =>
      if 1 ≤ port ∧ port ≤ 2 ^ 16 - 1 then .ok (host, port)
      else .error "Port must be in the range 1 <= port <= 65535."
  | _ => .error "Format of endpoint must be hostname:port."

/-! ### `s.split(':')` -/

theorem not_mem_of_mem_splitOn {c : Char} {s l : List Char} (hl : l ∈ s.splitOn c) : c ∉ l := by
  induction s generalizing l with
  | nil => simp_all
  | cons x xs ih =>
    simp only [List.splitOn, List.splitOnP_cons] at hl ih
    split_ifs at hl with hx
    · rcases List.mem_cons.mp hl with rfl | hl
      · simp
      · exact ih hl
    · rcases hs : xs.splitOnP (· == c) with _ | ⟨w, ws⟩
      · exact absurd hs (List.splitOnP_ne_nil _ _)
      rw [hs, List.modifyHead_cons] at hl
      rcases List.mem_cons.mp hl with rfl | hl
      · simp only [beq_iff_eq] at hx
        exact List.not_mem_cons_of_ne_of_not_mem (Ne.symm hx) (ih (by rw [hs]; simp))
      · exact ih (by rw [hs]; exact List.mem_cons_of_mem _ hl)

theorem length_splitOn (c : Char) (s : List Char) : (s.splitOn c).length = s.count c + 1 := by
  induction s with
  | nil => rfl
  | cons x xs ih =>
    simp only [List.splitOn, List.splitOnP_cons] at ih ⊢
    by_cases hx : x = c
    · simp [hx, ih]
    · simp [hx, ih, List.count_cons_of_ne (Ne.symm hx)]

/-- `s.split(':')` has two words exactly when `s` has one colon, between them. -/
theorem splitOn_eq_pair_iff {c : Char} {s a b : List Char} :
    s.splitOn c = [a, b] ↔ s = a ++ c :: b ∧ c ∉ a ∧ c ∉ b := by
  constructor
  · intro h
    refine ⟨?_, not_mem_of_mem_splitOn (by rw [h]; simp),
      not_mem_of_mem_splitOn (by rw [h]; simp)⟩
    have := List.intercalate_splitOn s c
    rw [h] at this
    simpa [List.intercalate] using this.symm
  · rintro ⟨rfl, ha, hb⟩
    have hne : ∀ {l : List Char}, c ∉ l → ∀ x ∈ l, ¬ (x == c) = true := fun hl x hx hxc =>
      hl (by rwa [beq_iff_eq.mp hxc] at hx)
    rw [List.splitOn, List.splitOnP_first _ _ (hne ha) _ (by simp),
      List.splitOnP_eq_single _ _ (hne hb)]

/-! ### The port -/

/-- `argparse_endpoint` on a hostname and a port joined by their one colon. -/
theorem argparseEndpoint_append {host port : List Char} (hh : ':' ∉ host) (hp : ':' ∉ port) :
    argparseEndpoint (host ++ ':' :: port) =
      match pyInt port with
      | none => .error "Format of endpoint must be hostname:port."
      | some v =>
        if 1 ≤ v ∧ v ≤ 65535 then .ok (host, v)
        else .error "Port must be in the range 1 <= port <= 65535." := by
  rw [argparseEndpoint, splitOn_eq_pair_iff.mpr ⟨rfl, hh, hp⟩]
  rfl

/-- Off the one-colon shape, the format message. -/
theorem argparseEndpoint_of_count {s : List Char} (hs : s.count ':' ≠ 1) :
    argparseEndpoint s = .error "Format of endpoint must be hostname:port." := by
  have hlen := length_splitOn ':' s
  rw [argparseEndpoint]
  split
  · next host port h => rw [h] at hlen; simp at hlen; omega
  · rfl

theorem count_eq_one_iff {s : List Char} :
    s.count ':' = 1 ↔ ∃ host port, s = host ++ ':' :: port ∧ ':' ∉ host ∧ ':' ∉ port := by
  constructor
  · intro hs
    have hlen := length_splitOn ':' s
    rw [hs] at hlen
    match h : s.splitOn ':', hlen with
    | [host, port], _ => exact ⟨host, port, splitOn_eq_pair_iff.mp h⟩
  · rintro ⟨host, port, rfl, hh, hp⟩
    simp [List.count_eq_zero_of_not_mem hh, List.count_eq_zero_of_not_mem hp]

/-- **What `argparse_endpoint` accepts.**  It returns `(host, port)` exactly when `s` is
`host`, a colon, and a word with no colon that `int` reads as `port`, with `host` free of
colons and `1 ≤ port ≤ 65535`. -/
theorem argparseEndpoint_eq_ok_iff (s host : List Char) (port : Int) :
    argparseEndpoint s = .ok (host, port) ↔
      ∃ p, s = host ++ ':' :: p ∧ ':' ∉ host ∧ ':' ∉ p ∧ pyInt p = some port ∧
        1 ≤ port ∧ port ≤ 65535 := by
  constructor
  · intro h
    by_cases hs : s.count ':' = 1
    · obtain ⟨host', p, rfl, hh, hp⟩ := count_eq_one_iff.mp hs
      rw [argparseEndpoint_append hh hp] at h
      split at h
      · cases h
      · next v hv =>
        split_ifs at h with hr
        cases h
        exact ⟨p, rfl, hh, hp, hv, hr⟩
    · rw [argparseEndpoint_of_count hs] at h
      cases h
  · rintro ⟨p, rfl, hh, hp, hv, h1, h2⟩
    rw [argparseEndpoint_append hh hp, hv]
    simp [h1, h2]

/-- **Which message, and when.**  `argparse_endpoint` raises the format message exactly on
an `s` without exactly one colon, or whose port `int` refuses, and the range message exactly
when `int` reads the port as a value outside `[1, 65535]`; it raises nothing else. -/
theorem argparseEndpoint_eq_error_iff (s : List Char) (msg : String) :
    argparseEndpoint s = .error msg ↔
      (msg = "Format of endpoint must be hostname:port." ∧
        (s.count ':' ≠ 1 ∨
          ∃ host p, s = host ++ ':' :: p ∧ ':' ∉ host ∧ ':' ∉ p ∧ pyInt p = none)) ∨
      (msg = "Port must be in the range 1 <= port <= 65535." ∧
        ∃ host p v, s = host ++ ':' :: p ∧ ':' ∉ host ∧ ':' ∉ p ∧ pyInt p = some v ∧
          ¬ (1 ≤ v ∧ v ≤ 65535)) := by
  constructor
  · intro h
    by_cases hs : s.count ':' = 1
    · obtain ⟨host, p, rfl, hh, hp⟩ := count_eq_one_iff.mp hs
      rw [argparseEndpoint_append hh hp] at h
      split at h
      · next hv => exact .inl ⟨(Except.error.inj h).symm, .inr ⟨host, p, rfl, hh, hp, hv⟩⟩
      · next v hv =>
        split_ifs at h with hr
        exact .inr ⟨(Except.error.inj h).symm, host, p, v, rfl, hh, hp, hv, hr⟩
    · rw [argparseEndpoint_of_count hs] at h
      exact .inl ⟨(Except.error.inj h).symm, .inl hs⟩
  · rintro (⟨rfl, hc | ⟨host, p, rfl, hh, hp, hv⟩⟩ | ⟨rfl, host, p, v, rfl, hh, hp, hv, hr⟩)
    · exact argparseEndpoint_of_count hc
    · rw [argparseEndpoint_append hh hp, hv]
    · simp only [argparseEndpoint_append hh hp, hv, if_neg hr]

/-! ### `int(port)` -/


theorem isDigit_of_isSpace {c : Char} (h : isSpace c = true) : c.isDigit = false := by
  simp only [isSpace, Bool.or_eq_true, decide_eq_true_eq] at h
  rcases h with ((((rfl | rfl) | rfl) | rfl) | rfl) | rfl <;> rfl

theorem readSign_cases (s : List Char) :
    ∃ sign, s = sign ++ (readSign s).2 ∧ sign ∈ [[], ['+'], ['-']] ∧
      (readSign s).1 = decide (sign = ['-']) := by
  unfold readSign
  split
  · exact ⟨['-'], rfl, by simp, rfl⟩
  · exact ⟨['+'], rfl, by simp, rfl⟩
  · exact ⟨[], rfl, by simp, rfl⟩

theorem readSign_of_isDigit {c : Char} (hc : c.isDigit = true) (s : List Char) :
    readSign (c :: s) = (false, c :: s) := by
  unfold readSign
  split
  · next h => cases (List.cons.inj h).1; cases hc
  · next h => cases (List.cons.inj h).1; cases hc
  · rfl

/-- White space, then a numeral's digits: `dropWhile` stops at the first digit. -/
theorem dropWhile_isSpace_digits {w ds : List Char} (hw : ∀ c ∈ w, isSpace c = true)
    (hne : ds ≠ []) (hds : ∀ c ∈ ds, c.isDigit = true) (t : List Char) :
    (w ++ (ds ++ t)).dropWhile isSpace = ds ++ t := by
  obtain ⟨c, ds', rfl⟩ := List.exists_cons_of_ne_nil hne
  rw [List.dropWhile_append_of_pos hw, List.cons_append, List.dropWhile_cons_of_neg]
  intro hc
  simp [isDigit_of_isSpace hc] at hds

/-- White space after a numeral: the digits stop before it. -/
theorem digits_before_spaces {ds w : List Char} (hds : ∀ c ∈ ds, c.isDigit = true)
    (hw : ∀ c ∈ w, isSpace c = true) :
    (ds ++ w).takeWhile Char.isDigit = ds ∧ (ds ++ w).dropWhile Char.isDigit = w := by
  rw [List.takeWhile_append_of_pos hds, List.dropWhile_append_of_pos hds]
  cases w with
  | nil => exact ⟨List.append_nil ds, rfl⟩
  | cons c w =>
    have hc : ¬ c.isDigit = true := by simp [isDigit_of_isSpace (hw c (List.mem_cons_self _ _))]
    rw [List.takeWhile_cons_of_neg hc, List.dropWhile_cons_of_neg hc, List.append_nil]
    exact ⟨rfl, rfl⟩

/-- `int` reads a numeral: white space, an optional sign, white space, decimal digits, and white
space to the end. -/
theorem pyInt_of_parts {w₁ sign w₂ ds w₃ : List Char} (hsp : ∀ c ∈ w₁ ++ w₂ ++ w₃, isSpace c)
    (hsign : sign ∈ [[], ['+'], ['-']]) (hne : ds ≠ []) (hds : ∀ c ∈ ds, c.isDigit) :
    pyInt (w₁ ++ sign ++ w₂ ++ ds ++ w₃) =
      some (if sign = ['-'] then -(decimalValue ds : Int) else decimalValue ds) := by
  simp only [List.mem_append, or_imp, forall_and] at hsp
  obtain ⟨⟨h₁, h₂⟩, h₃⟩ := hsp
  -- what `PyOS_strtol` leaves after the sign starts with white space and the digits
  obtain ⟨t, hrs, ht⟩ : ∃ t, readSign ((w₁ ++ sign ++ w₂ ++ ds ++ w₃).dropWhile isSpace) =
      (decide (sign = ['-']), t) ∧ t.dropWhile isSpace = ds ++ w₃ := by
    simp only [List.mem_cons, List.mem_singleton, List.not_mem_nil, or_false] at hsign
    simp only [List.append_assoc]
    rcases hsign with rfl | rfl | rfl
    · obtain ⟨c, ds', rfl⟩ := List.exists_cons_of_ne_nil hne
      refine ⟨_, ?_, @dropWhile_isSpace_digits [] _ (List.forall_mem_nil _) hne hds w₃⟩
      rw [List.nil_append, ← List.append_assoc,
        dropWhile_isSpace_digits (by simpa [or_imp, forall_and] using ⟨h₁, h₂⟩) hne hds,
        List.cons_append, readSign_of_isDigit (hds c (List.mem_cons_self _ _))]
      rfl
    all_goals
      refine ⟨_, ?_, dropWhile_isSpace_digits h₂ hne hds w₃⟩
      rw [List.dropWhile_append_of_pos h₁, List.singleton_append, List.dropWhile_cons_of_neg (by decide)]
      rfl
  obtain ⟨hd, hw⟩ := digits_before_spaces hds h₃
  simp only [pyInt, hrs, ht, hd, hw, List.dropWhile_eq_nil_iff.mpr h₃, hne, ne_eq, not_true_eq_false, or_false, if_false, decide_eq_true_eq]

/-- **What `int` accepts.**  `int(s)` returns `v` exactly when `s` is white space, an optional
sign, white space, decimal digits and white space, and `v` is the value of the digits, negated
after a minus sign. -/
theorem pyInt_eq_some_iff (s : List Char) (v : Int) :
    pyInt s = some v ↔
      ∃ w₁ sign w₂ ds w₃, s = w₁ ++ sign ++ w₂ ++ ds ++ w₃ ∧
        (∀ c ∈ w₁ ++ w₂ ++ w₃, isSpace c) ∧ sign ∈ [[], ['+'], ['-']] ∧
        ds ≠ [] ∧ (∀ c ∈ ds, c.isDigit) ∧
        v = if sign = ['-'] then -(decimalValue ds : Int) else decimalValue ds := by
  constructor
  · intro h
    obtain ⟨sign, hs1, hsign, hneg⟩ := readSign_cases (s.dropWhile isSpace)
    unfold pyInt at h
    generalize readSign (s.dropWhile isSpace) = r at h hs1 hneg
    obtain ⟨neg, t⟩ := r
    dsimp only at h hs1 hneg
    by_cases hd : (t.dropWhile isSpace).takeWhile Char.isDigit = [] ∨
        ((t.dropWhile isSpace).dropWhile Char.isDigit).dropWhile isSpace ≠ []
    · rw [if_pos hd] at h
      cases h
    rw [if_neg hd] at h
    push_neg at hd
    cases h
    refine ⟨s.takeWhile isSpace, sign, t.takeWhile isSpace, (t.dropWhile isSpace).takeWhile
      Char.isDigit, (t.dropWhile isSpace).dropWhile Char.isDigit, ?_, ?_, hsign, hd.1,
      fun c hc => List.mem_takeWhile_imp hc, by simp [hneg]⟩
    · simp only [List.append_assoc, List.takeWhile_append_dropWhile, ← hs1]
    · simp only [List.mem_append]
      rintro c ((hc | hc) | hc)
      exacts [List.mem_takeWhile_imp hc, List.mem_takeWhile_imp hc,
        List.dropWhile_eq_nil_iff.mp hd.2 c hc]
  · rintro ⟨w₁, sign, w₂, ds, w₃, rfl, hsp, hsign, hne, hds, rfl⟩
    exact pyInt_of_parts hsp hsign hne hds

/-! ### Writing an endpoint -/

theorem digitChar_of_lt : ∀ d < 10, (Nat.digitChar d).isDigit ∧ (Nat.digitChar d).toNat - 48 = d := by
  decide

theorem decimalValue_append_singleton (ds : List Char) (c : Char) :
    decimalValue (ds ++ [c]) = 10 * decimalValue ds + (c.toNat - 48) := by
  simp [decimalValue]

/-- The decimal digits `toDigitsCore` puts before `ds`, with enough rounds. -/
theorem toDigitsCore_ten {fuel n : Nat} (hn : n < fuel) (ds : List Char) :
    ∃ a, Nat.toDigitsCore 10 fuel n ds = a ++ ds ∧ a ≠ [] ∧ (∀ c ∈ a, c.isDigit) ∧
      decimalValue a = n := by
  induction fuel generalizing n ds with
  | zero => omega
  | succ fuel ih =>
    obtain ⟨hd, hv⟩ := digitChar_of_lt (n % 10) (Nat.mod_lt _ (by omega))
    rw [Nat.toDigitsCore]
    split_ifs with h0
    · refine ⟨[Nat.digitChar (n % 10)], rfl, by simp, by simpa using hd, ?_⟩
      simp [decimalValue, hv]
      omega
    · obtain ⟨a, ha, hne, hdig, hval⟩ := ih (n := n / 10) (by omega) (Nat.digitChar (n % 10) :: ds)
      refine ⟨a ++ [Nat.digitChar (n % 10)], by rw [ha]; simp, by simp, ?_, ?_⟩
      · simp only [List.mem_append, List.mem_singleton]
        rintro c (hc | rfl)
        exacts [hdig c hc, hd]
      · rw [decimalValue_append_singleton, hval, hv]
        omega

/-- `int` reads the decimal digits of a natural number back. -/
theorem pyInt_toDigits (n : Nat) : pyInt (Nat.toDigits 10 n) = some n := by
  obtain ⟨a, ha, hne, hdig, hval⟩ := @toDigitsCore_ten (n + 1) n (by omega) []
  have := @pyInt_of_parts [] [] [] a [] (by simp) (by simp) hne hdig
  rw [Nat.toDigits, ha]
  simpa [hval] using this

/-- **Writing an endpoint and reading it back.**  For every hostname without a colon and
every port in `[1, 65535]`, `argparse_endpoint` reads `host:port`, the port written in
decimal, back as `(host, port)`. -/
theorem argparseEndpoint_toDigits {host : List Char} (hh : ':' ∉ host) {port : Nat}
    (h1 : 1 ≤ port) (h2 : port ≤ 65535) :
    argparseEndpoint (host ++ ':' :: Nat.toDigits 10 port) = .ok (host, port) := by
  obtain ⟨a, ha, -, hdig, -⟩ := @toDigitsCore_ten (port + 1) port (by omega) []
  have hp : ':' ∉ Nat.toDigits 10 port := by
    rw [Nat.toDigits, ha, List.append_nil]
    exact fun hc => by cases hdig _ hc
  rw [argparseEndpoint_append hh hp, pyInt_toDigits]
  exact if_pos (by omega)

theorem argparseEndpoint_toDigits_mosquitto :
    ':' ∉ "test.mosquitto.org".toList ∧ 1 ≤ 1883 ∧ 1883 ≤ 65535 ∧
      argparseEndpoint ("test.mosquitto.org".toList ++ ':' :: Nat.toDigits 10 1883) =
        .ok ("test.mosquitto.org".toList, 1883) :=
  ⟨by decide, by decide, by decide, argparseEndpoint_toDigits (by decide) (by decide) (by decide)⟩

end HakaMqtt
