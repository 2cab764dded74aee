/-
The CONNACK packet and the PUBLISH fixed header: `MqttConnack` and `MqttPublishHeader`.

Neither constructor returns.  `MqttConnack.__init__` asserts `0 <= return_code <= 255`, then
measures its body with `self.encode_connect_body(bio)`, a method of `MqttConnect` that
`MqttConnack` does not have, and the lookup raises `AttributeError`.  Its own body writer is
`encode_body`, and its `encode(f)` is the packet's, over that writer.
`MqttPublishHeader.__init__` begins with `flags = (self.qos << 1)`, reading an attribute that
nothing has set, and raises `AttributeError` there.

* `mqttConnack_mqttPublishHeader_init_raise` — neither constructor returns, on any argument;
* `MqttConnack.encodeBody_file` — `encode_body` writes the flags octet and the return code.
-/
import HakaMqtt.Connect

namespace HakaMqtt

/-- An `MqttConnack`: its fixed header and the fields of its `__init__`. -/
structure MqttConnack extends MqttFixedHeader where
  sessionPresent : Bool
  returnCode : Nat

namespace MqttConnack

/-- The constructor `MqttConnack(session_present, return_code)`: once its assertion passes it
calls `self.encode_connect_body(bio)`, a method `MqttConnack` does not have. -/
def init (_sessionPresent : Bool) (returnCode : Int) : Except PyException MqttConnack := do
  unless 0 ≤ returnCode ∧ returnCode ≤ 255 do throw .assertionError
  throw .attributeError

/-- The method `encode_body(f)`. -/
def encodeBody (p : MqttConnack) (f : Sink) : Except PyException (Nat × Sink) := do
  let numBytesWritten := 2
  let flags := if p.sessionPresent then 1 else 0
  let f ← f.writeChr flags
  let f ← f.writeChr p.returnCode
  pure (numBytesWritten, f)

/-- The method `encode(f)`, given `fuel` rounds of the loop of `encode_varint`. -/
def encode (p : MqttConnack) (fuel : Nat) (f : Sink) : Option (Except PyException (Nat × Sink)) :=
  p.toMqttFixedHeader.encodeWith p.encodeBody fuel f

end MqttConnack

/-- The fields `MqttPublishHeader.__init__` stores. -/
structure MqttPublishHeader extends MqttFixedHeader where
  dupe : Bool
  retain : Bool
  will : Option MqttWill

/-- The constructor `MqttPublishHeader(dupe, retain, will)`: its first computation,
`flags = (self.qos << 1)`, reads an attribute that neither the class nor `__init__` sets. -/
def MqttPublishHeader.init (_dupe _retain : Bool) (_will : Option MqttWill) :
    Except PyException MqttPublishHeader :=
  throw .attributeError

namespace MqttConnack

theorem encodeBody_file (p : MqttConnack) (h : p.returnCode < 256) (w : List UInt8) :
    p.encodeBody (.file w) = .ok (2, .file (w ++
      [UInt8.ofNat (if p.sessionPresent then 1 else 0), UInt8.ofNat p.returnCode])) := by
  have hf : (if p.sessionPresent then 1 else 0) < 256 := by split <;> decide
  simp [encodeBody, writeChr_file _ hf, writeChr_file _ h]

end MqttConnack

end HakaMqtt
