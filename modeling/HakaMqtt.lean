import HakaMqtt.Basic
import HakaMqtt.Varint
import HakaMqtt.FixedHeader
import HakaMqtt.Utf8
import HakaMqtt.Field
import HakaMqtt.Connect
import HakaMqtt.Connack
import HakaMqtt.Stream
import HakaMqtt.Endpoint
