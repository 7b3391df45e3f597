import EspMisc.Lib.Cyclic
import EspMisc.Lib.Stuffing
import EspMisc.Lib.Run
import EspMisc.Lib.Serial
import EspMisc.Lib.Flash
import EspMisc.Lib.Bits
import EspMisc.Lib.Blocks
import EspMisc.Lib.Deque
import EspMisc.Lib.Runs
import EspMisc.Lib.Lines
import EspMisc.Lib.Squeeze
import EspMisc.Lib.Transfer
import EspMisc.Mqtt.Ringbuf
import EspMisc.Mqtt.Proto
import EspMisc.Mqtt.Queue
import EspMisc.Mqtt.Msg
import EspMisc.Mqtt.Layout
import EspMisc.Mqtt.Builders
import EspMisc.Mqtt.Connect
import EspMisc.Mqtt.Utils
import EspMisc.Mqtt.Client
import EspMisc.Mqtt.Ready
import EspMisc.Mqtt.Recv
import EspMisc.Mqtt.Packets
import EspMisc.Mqtt.RoundTrip
import EspMisc.Mqtt.Requests
import EspMisc.Mqtt.System
import EspMisc.Mqtt.Handlers
import EspMisc.Mqtt.Turns
import EspMisc.Mqtt.Located
import EspMisc.Mqtt.Remaining
import EspMisc.Mqtt.Control
import EspMisc.Mqtt.Link
import EspMisc.Mqtt.Eviction
import EspMisc.Mqtt.Segment
import EspMisc.Mqtt.Stale
import EspMisc.Mqtt.Handshake
import EspMisc.Mqtt.Sending
import EspMisc.Mqtt.Session
import EspMisc.Mqtt.Stopping
import EspMisc.Mqtt.Connection
import EspMisc.Mqtt.Keepalive
import EspMisc.Mqtt.Pacing
import EspMisc.Mqtt.Identifiers
import EspMisc.Mqtt.Genuine
import EspMisc.Mqtt.Address
import EspMisc.Rboot.Config
import EspMisc.Rboot.Write
import EspMisc.Rboot.Retry
import EspMisc.Rboot.Boot
import EspMisc.Rboot.Switch
import EspMisc.Rboot.Slots
import EspMisc.Rboot.Search
import EspMisc.Rboot.Image
import EspMisc.Rboot.Damage
import EspMisc.Rboot.Load
import EspMisc.Rboot.Confined
import EspMisc.Tools.Esptool
import EspMisc.Rboot.Update
import EspMisc.Cbuff.Registry
import EspMisc.Cbuff.Buffer
import EspMisc.Cbuff.Arrays
import EspMisc.Cbuff.World
import EspMisc.Cbuff.Lifecycle
import EspMisc.OneWire.Driver
import EspMisc.OneWire.Sequence
import EspMisc.OneWire.Loop
import EspMisc.OneWire.Wakeup
import EspMisc.Lib.Memory
import EspMisc.Platform.Flash
import EspMisc.Platform.Failures
import EspMisc.FlashFs.Files
import EspMisc.FlashFs.Names
import EspMisc.Lib.Crc
import EspMisc.Util.Crc
import EspMisc.OneWire.Scratchpad
import EspMisc.FlashFs.Checksum
import EspMisc.Json.Tree
import EspMisc.Json.Buffer
import EspMisc.Json.Render
import EspMisc.Json.Parse
import EspMisc.Json.RoundTrip
import EspMisc.FlashFs.Listing
import EspMisc.Lib.Catalogue
import EspMisc.Driver.Ws2812
import EspMisc.Driver.Spi
import EspMisc.Setup.Wifi
import EspMisc.Setup.Device
import EspMisc.Setup.Lookup
import EspMisc.Setup.Reboot
import EspMisc.Setup.Uart
import EspMisc.Setup.Cli
import EspMisc.Setup.Remains
import EspMisc.Setup.Switch
import EspMisc.Lib.Limbs
import EspMisc.Crypto.Bigint
import EspMisc.Crypto.Poly1305
import EspMisc.Crypto.Salsa20
import EspMisc.Crypto.Secretbox
import EspMisc.Crypto.Karatsuba
import EspMisc.Crypto.Fe25519
import EspMisc.Lib.Ladder
import EspMisc.Crypto.Scalarmult
