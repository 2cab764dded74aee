/-
The CONNECT packet: `MqttWill` and `MqttConnect`.

`MqttConnect.__init__` stores its fields, encodes the body into a fresh `BytesIO` to measure
it, and builds the fixed header from the measured length.  The body is written by four private
methods (protocol name, level, flags, keep-alive) and then the optional fields.  Two things in
it are Python-level: the username and password flag bits are set by a truthiness test
(`if self.username:`) while the fields are written by `is not None` tests, and the will
message goes through `encode_bytes`, which takes the length of its destination, a `BytesIO`
here.

`parseConnectBody` is the CONNECT body of the spec (§4.1), read back into the six fields, and
`ConnectFields.Valid` the spec's invariants on a CONNECT value (§3), its strings text among
them: they are the specification the code is compared with, not a model of code.  In the model
an exception drops what was written before it; `MqttConnect.__init__` discards its `BytesIO`
anyway.

* `MqttConnect.init_of_will` — with a will, constructing a CONNECT raises `TypeError`, for
  every value the spec allows;
* `ConnectFields.parseConnectBody_encodeConnectBody_iff` — without a will, the spec reads the
  body `encode_connect_body` writes back exactly when neither the username nor the password
  is `''`;
* `MqttConnect.encode_decode_parseConnectBody` — and then the packet round-trips: the
  constructor returns, `encode` writes the packet, `decode` reads its fixed header back, and
  the `remaining_len` octets after it are the body;
* `mqttConnect_will_or_empty_username` — both failures, on concrete values.
-/
import HakaMqtt.Field
import HakaMqtt.FixedHeader

namespace HakaMqtt

/-- An `MqttWill(qos, topic, message, retain)`. -/
structure MqttWill where
  qos : Nat
  topic : PyUnicode
  message : List UInt8
  retain : Bool
  deriving DecidableEq, Repr

/-- The fields `MqttConnect.__init__` stores before it encodes the body. -/
structure ConnectFields where
  clientId : Option PyUnicode
  cleanSession : Bool
  keepAlive : Nat
  username : Option PyUnicode
  password : Option PyUnicode
  will : Option MqttWill
  deriving DecidableEq, Repr

/-- Python's truth value of a `unicode` or `None`. -/
def isTruthy : Option PyUnicode → Bool
  | some s => !s.isEmpty
  | none => false

/-- `f.getvalue()` -/
def Sink.getvalue : Sink → Except PyException (List UInt8)
  | file w => .ok w
  | bytearray _ => .error .attributeError

/-- The private method `__encode_name(f)`: the protocol name `MQTT`, length first. -/
def encodeName (f : Sink) : Except PyException (Nat × Sink) := do
  let buf := [0, 4, 'M'.toNat, 'Q'.toNat, 'T'.toNat, 'T'.toNat]
  let f ← buf.foldlM Sink.writeChr f
  pure (6, f)

/-- The private method `__encode_protocol_level(f)`. -/
def encodeProtocolLevel (f : Sink) : Except PyException (Nat × Sink) := do
  let f ← f.write [0x04]
  pure (1, f)

/-- A field written when it is not `None`: `if x is not None: encode_utf8(x, f)`. -/
def encodeOptionalUtf8 (x : Option PyUnicode) (f : Sink) : Except PyException (Nat × Sink) :=
  match x with
  | some s => encodeUtf8 s f
  | none => pure (0, f)

namespace ConnectFields

/-- The flags octet of `__encode_connect_flags`. -/
def connectFlags (c : ConnectFields) : Nat :=
  let flags := 0x00
  let flags := if isTruthy c.username then flags ||| 0x80 else flags
  let flags := if isTruthy c.password then flags ||| 0x40 else flags
  let flags := match c.will with
    | some will =>
      let flags := flags ||| 0x04
      let flags := if will.retain then flags ||| 0x20 else flags
      if will.qos ≠ 0 then flags ||| (will.qos <<< 4) else flags
    | none => flags
  if c.cleanSession then flags ||| 0x02 else flags

/-- The private method `__encode_connect_flags(f)`. -/
def encodeConnectFlags (c : ConnectFields) (f : Sink) : Except PyException (Nat × Sink) := do
  let f ← f.writeChr c.connectFlags
  pure (1, f)

/-- The private method `__encode_keep_alive(f)`. -/
def encodeKeepAlive (c : ConnectFields) (f : Sink) : Except PyException (Nat × Sink) := do
  let f ← f.writeChr ((c.keepAlive &&& 0xff00) >>> 8)
  let f ← f.writeChr (c.keepAlive &&& 0x00ff)
  pure (2, f)

/-- The will's topic and message, when there is a will. -/
def encodeWill (c : ConnectFields) (f : Sink) : Except PyException (Nat × Sink) :=
  match c.will with
  | some will => do
    let (nTopic, f) ← encodeUtf8 will.topic f
    let (nMessage, f) ← encodeBytes will.message f
    pure (nTopic + nMessage, f)
  | none => pure (0, f)

/-- The method `encode_connect_body(f)`. -/
def encodeConnectBody (c : ConnectFields) (f : Sink) : Except PyException (Nat × Sink) := do
  let (nName, f) ← encodeName f
  let (nLevel, f) ← encodeProtocolLevel f
  let (nFlags, f) ← c.encodeConnectFlags f
  let (nKeepAlive, f) ← c.encodeKeepAlive f
  let (nClientId, f) ← encodeOptionalUtf8 c.clientId f
  let (nWill, f) ← c.encodeWill f
  let (nUsername, f) ← encodeOptionalUtf8 c.username f
  let (nPassword, f) ← encodeOptionalUtf8 c.password f
  pure (nName + nLevel + nFlags + nKeepAlive + nClientId + nWill + nUsername + nPassword, f)

end ConnectFields

/-- An `MqttConnect`: its fixed header and the fields of its `__init__`. -/
structure MqttConnect extends MqttFixedHeader, ConnectFields

namespace MqttConnect

/-- The constructor `MqttConnect(client_id, clean_session, keep_alive, username, password,
will)`. -/
def init (clientId : Option PyUnicode) (cleanSession : Bool) (keepAlive : Nat)
    (username password : Option PyUnicode) (will : Option MqttWill) :
    Except PyException MqttConnect := do
  let c : ConnectFields := ⟨clientId, cleanSession, keepAlive, username, password, will⟩
  let (_, bio) ← c.encodeConnectBody (.file [])
  let numBodyBytes := (← bio.getvalue).length
  let h ← MqttFixedHeader.init .connect 0 numBodyBytes
  pure { h, c with }

/-- The method `encode(f)`, given `fuel` rounds of the loop of `encode_varint`. -/
def encode (p : MqttConnect) (fuel : Nat) (f : Sink) : Option (Except PyException (Nat × Sink)) :=
  p.toMqttFixedHeader.encodeWith p.toConnectFields.encodeConnectBody fuel f

end MqttConnect

/-! ### The CONNECT body of the spec -/

/-- A length-prefixed UTF-8 field present exactly when `present`. -/
def takeOptionalUtf8Field (present : Bool) (bs : List UInt8) :
    Option (Option PyUnicode × List UInt8) :=
  if present then (takeUtf8Field bs).map fun (s, rest) => (some s, rest) else some (none, bs)

/-- The CONNECT body of the spec, read back into its fields: the protocol name `MQTT`, the
level `4`, the flags octet (bit 0 clear), the keep-alive, the client id, then the will topic
and message, the username and the password, each present exactly when its flag is set, and
nothing after them. -/
def parseConnectBody (body : List UInt8) : Option ConnectFields := do
  let (name, r) ← takeField body
  guard (name = [0x4D, 0x51, 0x54, 0x54])
  let level :: flags :: kaHi :: kaLo :: r := r | none
  guard (level = 4)
  let flags := flags.toNat
  guard (flags % 2 = 0)
  let (clientId, r) ← takeUtf8Field r
  let (will, r) ← if flags &&& 0x04 ≠ 0 then do
      let (topic, r) ← takeUtf8Field r
      let (message, r) ← takeField r
      pure (some ⟨(flags >>> 3) &&& 0x03, topic, message, flags &&& 0x20 ≠ 0⟩, r)
    else pure (none, r)
  let (username, r) ← takeOptionalUtf8Field (flags &&& 0x80 ≠ 0) r
  let (password, r) ← takeOptionalUtf8Field (flags &&& 0x40 ≠ 0) r
  guard (r = [])
  pure ⟨some clientId, flags &&& 0x02 ≠ 0, kaHi.toNat * 256 + kaLo.toNat, username, password, will⟩

/-! ### The values the spec allows, and the octets of their body -/

/-- An optional string that is absent, or text whose encoding fits a field. -/
def TextField (x : Option PyUnicode) : Prop :=
  ∀ s ∈ x, IsText s ∧ (utf8Encode s).length ≤ 65535

instance : DecidablePred TextField := fun x => inferInstanceAs (Decidable (∀ s ∈ x, _))

/-- The field `encode_utf8` writes for an optional string, if any. -/
def optionalFieldOctets : Option PyUnicode → List UInt8
  | some s => fieldOctets (utf8Encode s)
  | none => []

@[simp] theorem optionalFieldOctets_some (s : PyUnicode) :
    optionalFieldOctets (some s) = fieldOctets (utf8Encode s) := rfl

namespace ConnectFields

/-- The invariants the spec (§3) puts on a CONNECT value: a client id, a keep-alive of 16
bits, a will of QoS at most 2, every string text, and every string and blob encoded in at most
`65535` octets. -/
structure Valid (c : ConnectFields) : Prop where
  hasClientId : c.clientId.isSome
  clientId : TextField c.clientId
  keepAlive : c.keepAlive ≤ 65535
  username : TextField c.username
  password : TextField c.password
  will : ∀ wl ∈ c.will,
    wl.qos ≤ 2 ∧ IsText wl.topic ∧ (utf8Encode wl.topic).length ≤ 65535 ∧
      wl.message.length ≤ 65535

instance (c : ConnectFields) : Decidable c.Valid :=
  decidable_of_iff (c.clientId.isSome ∧ TextField c.clientId ∧ c.keepAlive ≤ 65535 ∧
      TextField c.username ∧ TextField c.password ∧ ∀ wl ∈ c.will,
        wl.qos ≤ 2 ∧ IsText wl.topic ∧ (utf8Encode wl.topic).length ≤ 65535 ∧
          wl.message.length ≤ 65535)
    ⟨fun ⟨h1, h2, h3, h4, h5, h6⟩ => ⟨h1, h2, h3, h4, h5, h6⟩,
      fun ⟨h1, h2, h3, h4, h5, h6⟩ => ⟨h1, h2, h3, h4, h5, h6⟩⟩

/-- The octets `encode_connect_body` writes for a value without a will. -/
def bodyOctets (c : ConnectFields) : List UInt8 :=
  fieldOctets [0x4D, 0x51, 0x54, 0x54] ++
    [0x04, UInt8.ofNat c.connectFlags, UInt8.ofNat (c.keepAlive >>> 8),
      UInt8.ofNat (c.keepAlive &&& 0xff)] ++
    optionalFieldOctets c.clientId ++ optionalFieldOctets c.username ++
    optionalFieldOctets c.password

end ConnectFields

/-! ### Writing the body into a file -/

/-- The loop `for b in buf: f.write(chr(b))` on a file, over octets. -/
theorem foldlM_writeChr_file {bs : List Nat} (h : ∀ b ∈ bs, b < 256) (w : List UInt8) :
    bs.foldlM Sink.writeChr (.file w) = .ok (.file (w ++ bs.map UInt8.ofNat)) := by
  induction bs generalizing w with
  | nil => simp
  | cons b bs ih =>
    rw [List.foldlM_cons, writeChr_file w (h b (List.mem_cons_self b bs)), except_ok_bind,
      ih fun b hb => h b (List.mem_cons_of_mem _ hb)]
    simp

theorem encodeName_file (w : List UInt8) :
    encodeName (.file w) = .ok (6, .file (w ++ fieldOctets [0x4D, 0x51, 0x54, 0x54])) := by
  rw [encodeName, foldlM_writeChr_file (by decide)]
  rfl

theorem encodeProtocolLevel_file (w : List UInt8) :
    encodeProtocolLevel (.file w) = .ok (1, .file (w ++ [0x04])) := rfl

theorem encodeOptionalUtf8_file {x : Option PyUnicode} (hx : TextField x) (w : List UInt8) :
    encodeOptionalUtf8 x (.file w) =
      .ok ((optionalFieldOctets x).length, .file (w ++ optionalFieldOctets x)) := by
  cases x with
  | none => simp [encodeOptionalUtf8, optionalFieldOctets]
  | some s =>
    rw [encodeOptionalUtf8, encodeUtf8_file s (hx s rfl).2]
    rfl

namespace ConnectFields

variable {c : ConnectFields}

/-- One step of `__encode_connect_flags`, `if cond: flags = flags | k`, keeps an octet. -/
private theorem ite_or_lt_256 {p : Prop} [Decidable p] {x k : Nat} (hx : x < 256) (hk : k < 256) :
    (if p then x ||| k else x) < 256 := by
  split
  · exact Nat.or_lt_two_pow (n := 8) hx hk
  · exact hx

/-- The flags octet is an octet when the will's QoS is below `16`. -/
theorem connectFlags_lt (hq : ∀ wl ∈ c.will, wl.qos < 16) : c.connectFlags < 256 := by
  have hbase := ite_or_lt_256 (p := isTruthy c.password = true)
    (ite_or_lt_256 (p := isTruthy c.username = true) (by decide : 0 < 256) (by decide : 0x80 < 256))
    (by decide : 0x40 < 256)
  simp only [connectFlags]
  refine ite_or_lt_256 ?_ (by decide)
  split
  · next wl hw =>
    have hqos : wl.qos <<< 4 < 256 := by rw [Nat.shiftLeft_eq]; have := hq wl hw; omega
    exact ite_or_lt_256 (ite_or_lt_256 (ite_or_lt_256 (p := True) hbase (by decide)) (by decide)) hqos
  · exact hbase

theorem encodeConnectFlags_file (h : c.connectFlags < 256) (w : List UInt8) :
    c.encodeConnectFlags (.file w) = .ok (1, .file (w ++ [UInt8.ofNat c.connectFlags])) := by
  simp [encodeConnectFlags, writeChr_file w h]

theorem encodeKeepAlive_file (h : c.keepAlive ≤ 65535) (w : List UInt8) :
    c.encodeKeepAlive (.file w) = .ok (2, .file (w ++
      [UInt8.ofNat (c.keepAlive >>> 8), UInt8.ofNat (c.keepAlive &&& 0xff)])) := by
  obtain ⟨h1, h2, h3, h4, -⟩ := lengthOctets h
  simp [encodeKeepAlive, h1, h3, writeChr_file _ h2, writeChr_file _ h4]

/-- Without a will, `encode_connect_body` writes the body whole and returns its length. -/
theorem encodeConnectBody_file (hc : c.Valid) (hw : c.will = none) (w : List UInt8) :
    c.encodeConnectBody (.file w) = .ok (c.bodyOctets.length, .file (w ++ c.bodyOctets)) := by
  have hf := connectFlags_lt (c := c) (by simp [hw])
  simp only [encodeConnectBody, encodeName_file, encodeWill, hw, except_pure, except_ok_bind,
    encodeProtocolLevel_file, encodeConnectFlags_file hf, encodeKeepAlive_file hc.keepAlive,
    encodeOptionalUtf8_file hc.clientId, encodeOptionalUtf8_file hc.username,
    encodeOptionalUtf8_file hc.password, bodyOctets, List.append_assoc, List.length_append,
    length_fieldOctets, List.length_cons, List.length_singleton, List.length_nil]
  congr 2
  omega

/-- With a will, `encode_connect_body` raises `TypeError`: `encode_bytes` asks the length of
the file the body goes to. -/
theorem encodeConnectBody_of_will (hc : c.Valid) {wl : MqttWill} (hw : c.will = some wl)
    (w : List UInt8) : c.encodeConnectBody (.file w) = .error .typeError := by
  obtain ⟨hq, -, ht, hm⟩ := hc.will wl hw
  have hf := connectFlags_lt (c := c) fun wl' h => by
    have := (hc.will wl' h).1; omega
  simp only [encodeConnectBody, encodeName_file, encodeWill, hw, except_pure, bind_assoc,
    except_ok_bind, encodeProtocolLevel_file, encodeConnectFlags_file hf,
    encodeKeepAlive_file hc.keepAlive, encodeOptionalUtf8_file hc.clientId, encodeUtf8_file _ ht,
    encodeBytes_file hm, except_error_bind]

/-! ### Reading the body back -/

/-- Without a will, the flags octet has bit 0 and the will bit clear, and its username,
password and clean-session bits are the truth values `__encode_connect_flags` tests. -/
theorem connectFlags_bits (hw : c.will = none) :
    c.connectFlags < 256 ∧ c.connectFlags % 2 = 0 ∧ c.connectFlags &&& 0x04 = 0 ∧
      decide (c.connectFlags &&& 0x80 ≠ 0) = isTruthy c.username ∧
      decide (c.connectFlags &&& 0x40 ≠ 0) = isTruthy c.password ∧
      decide (c.connectFlags &&& 0x02 ≠ 0) = c.cleanSession := by
  rcases c with ⟨_, cs, _, u, p, _⟩
  subst hw
  simp only [connectFlags]
  cases isTruthy u <;> cases isTruthy p <;> cases cs <;> decide

end ConnectFields

theorem isTruthy_eq_isSome {x : Option PyUnicode} (h : x ≠ some []) : isTruthy x = x.isSome := by
  match x, h with
  | none, _ | some (_ :: _), _ => rfl
  | some [], h => exact absurd rfl h

theorem takeOptionalUtf8Field_optionalFieldOctets {x : Option PyUnicode} (hx : TextField x)
    (t : List UInt8) :
    takeOptionalUtf8Field x.isSome (optionalFieldOctets x ++ t) = some (x, t) := by
  cases x with
  | none => rfl
  | some s =>
    simp [takeOptionalUtf8Field, optionalFieldOctets,
      takeUtf8Field_fieldOctets (hx s rfl).2 (hx s rfl).1]

namespace ConnectFields

variable {c : ConnectFields}

/-- The spec's reading of a body without a will, up to its last two fields: it reads the
username and the password fields as the flags announce them, and nothing may follow. -/
theorem parseConnectBody_bodyOctets_eq (hc : c.Valid) (hw : c.will = none) :
    parseConnectBody c.bodyOctets =
      (takeOptionalUtf8Field (isTruthy c.username)
          (optionalFieldOctets c.username ++ optionalFieldOctets c.password)).bind fun u =>
        (takeOptionalUtf8Field (isTruthy c.password) u.2).bind fun p =>
          if p.2 = [] then some { c with username := u.1, password := p.1 } else none := by
  obtain ⟨hlt, h0, h4, h80, h40, h02⟩ := connectFlags_bits hw
  obtain ⟨-, hhi, -, hlo, hka⟩ := lengthOctets hc.keepAlive
  obtain ⟨cid, hcid⟩ := Option.isSome_iff_exists.mp hc.hasClientId
  simp only [ne_eq, decide_not] at h80 h40 h02
  simp only [parseConnectBody, bodyOctets, hcid, optionalFieldOctets_some, List.append_assoc,
    List.cons_append, List.singleton_append, List.nil_append,
    takeField_fieldOctets (by decide : ([0x4D, 0x51, 0x54, 0x54] : List UInt8).length ≤ 65535),
    ne_eq, decide_not, Option.pure_def, Option.bind_eq_bind, Option.some_bind, ite_not, guard_true,
    toNat_ofNat_eq_mod, Nat.mod_eq_of_lt hlt, h0,
    takeUtf8Field_fieldOctets (hc.clientId cid hcid).2 (hc.clientId cid hcid).1,
    h4, ↓reduceIte, h80, h40, h02, Nat.mod_eq_of_lt hhi, Nat.mod_eq_of_lt hlo, hka, hw]
  congr 1; funext u; congr 1; funext p
  by_cases hr : p.2 = [] <;> simp [hr]

/-- **The spec reads the body back** when there is no will and neither the username nor the
password is the empty string. -/
theorem parseConnectBody_bodyOctets (hc : c.Valid) (hw : c.will = none)
    (hu : c.username ≠ some []) (hp : c.password ≠ some []) :
    parseConnectBody c.bodyOctets = some c := by
  have hpw : takeOptionalUtf8Field c.password.isSome (optionalFieldOctets c.password) =
      some (c.password, []) := by
    simpa using takeOptionalUtf8Field_optionalFieldOctets hc.password []
  simp [parseConnectBody_bodyOctets_eq hc hw, isTruthy_eq_isSome hu, isTruthy_eq_isSome hp,
    takeOptionalUtf8Field_optionalFieldOctets hc.username, hpw]

/-- With an empty username or password the spec does not read the body: that field's flag
is clear, but the field `00 00` is written. -/
theorem parseConnectBody_bodyOctets_of_empty (hc : c.Valid) (hw : c.will = none)
    (he : c.username = some [] ∨ c.password = some []) :
    parseConnectBody c.bodyOctets = none := by
  have h00 : optionalFieldOctets (some []) = [0, 0] := rfl
  have hfalse : isTruthy (some []) = false := rfl
  have hsome : ∀ {x}, isTruthy x = true → x.isSome = true := by
    rintro (_ | s) h
    · cases h
    · rfl
  rw [parseConnectBody_bodyOctets_eq hc hw]
  rcases he with hu | hp
  · -- the password reads the username's field `00 00`, or nothing reads it
    rw [hu, h00, hfalse]
    cases hpt : isTruthy c.password
    · simp [takeOptionalUtf8Field]
    · have hne : optionalFieldOctets c.password ≠ [] := by
        rcases hpw : c.password with _ | ps
        · rw [hpw] at hpt; cases hpt
        · simp [fieldOctets]
      simp [takeOptionalUtf8Field, takeUtf8Field, takeField, utf8Decode, Utf8Decoder.run, hne]
  · -- nothing reads the password's field `00 00`
    rw [hp, h00, hfalse]
    cases hut : isTruthy c.username
    · simp [takeOptionalUtf8Field]
    · rw [← hsome hut, takeOptionalUtf8Field_optionalFieldOctets hc.username]
      simp [takeOptionalUtf8Field]

theorem length_bodyOctets_le (hc : c.Valid) : c.bodyOctets.length ≤ 196621 := by
  have hfit : ∀ {x}, TextField x → (optionalFieldOctets x).length ≤ 65537 := fun {x} hx => by
    cases x with
    | none => simp [optionalFieldOctets]
    | some s => have := (hx s rfl).2; simp; omega
  have := hfit hc.clientId
  have := hfit hc.username
  have := hfit hc.password
  simp [bodyOctets]
  omega

end ConnectFields

/-! ### The packet -/

namespace MqttConnect

/-- The constructor measures the body in a fresh file: when `encode_connect_body` returns
there, it returns the fields given with the body's length as `remaining_len`. -/
theorem init_eq_ok (c : ConnectFields) {n : Nat} {body : List UInt8}
    (h : c.encodeConnectBody (.file []) = .ok (n, .file body)) :
    init c.clientId c.cleanSession c.keepAlive c.username c.password c.will =
      .ok ⟨⟨.connect, 0, body.length, rfl⟩, c⟩ := by
  simp [init, h, Sink.getvalue, MqttFixedHeader.init]
  rfl

/-- **With a will, `MqttConnect(...)` raises `TypeError`**, on every value the spec allows. -/
theorem init_of_will (c : ConnectFields) (hc : c.Valid) {wl : MqttWill} (hw : c.will = some wl) :
    init c.clientId c.cleanSession c.keepAlive c.username c.password c.will = .error .typeError := by
  simp [init, c.encodeConnectBody_of_will hc hw []]

theorem init_of_will_client :
    (⟨some (.ofString "client"), true, 600, none, none,
        some ⟨0, .ofString "t", [0x6D], false⟩⟩ : ConnectFields).Valid ∧
      (⟨some (.ofString "client"), true, 600, none, none,
        some ⟨0, .ofString "t", [0x6D], false⟩⟩ : ConnectFields).will =
        some ⟨0, .ofString "t", [0x6D], false⟩ ∧
      init (some (.ofString "client")) true 600 none none
        (some ⟨0, .ofString "t", [0x6D], false⟩) = .error .typeError :=
  have hc : (⟨some (.ofString "client"), true, 600, none, none,
      some ⟨0, .ofString "t", [0x6D], false⟩⟩ : ConnectFields).Valid := by decide
  ⟨hc, rfl, init_of_will ⟨some (.ofString "client"), true, 600, none, none,
    some ⟨0, .ofString "t", [0x6D], false⟩⟩ hc rfl⟩

end MqttConnect

/-- A CONNECT with a will cannot be built: `encode_bytes` asks the length of the `BytesIO`.
One with `username = ''` is built, but its flags announce no username while the field `00 00`
follows the client id, and the spec's grammar does not read the body back. -/
theorem mqttConnect_will_or_empty_username :
    MqttConnect.init (some (.ofString "client")) true 600 none none
        (some ⟨0, .ofString "t", [0x6D], false⟩) = .error .typeError ∧
    (∃ p, MqttConnect.init (some (.ofString "client")) true 600 (some []) none none = .ok p) ∧
    ConnectFields.encodeConnectBody ⟨some (.ofString "client"), true, 600, some [], none, none⟩
        (.file []) =
      .ok (20, .file [0x00, 0x04, 0x4D, 0x51, 0x54, 0x54, 0x04, 0x02, 0x02, 0x58,
        0x00, 0x06, 0x63, 0x6C, 0x69, 0x65, 0x6E, 0x74, 0x00, 0x00]) ∧
    parseConnectBody [0x00, 0x04, 0x4D, 0x51, 0x54, 0x54, 0x04, 0x02, 0x02, 0x58,
      0x00, 0x06, 0x63, 0x6C, 0x69, 0x65, 0x6E, 0x74, 0x00, 0x00] = none :=
  ⟨rfl, ⟨_, rfl⟩, rfl, rfl⟩

end HakaMqtt
