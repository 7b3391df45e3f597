/-
The client of `app_common/mqtt/mqtt.c`.

Each function of the file takes the client it works on and returns the client it
leaves, with the calls it made to the SDK and to the application in order.  What
the SDK answers is an argument: the results of `espconn_send` and
`espconn_connect`, the result of `espconn_gethostbyname`, and the uninitialised
stack memory that `QUEUE_Gets` and its callers work in.

`pCon` is the address of a connection object, `none` for NULL.  `out_buffer` is
the buffer of `mqttConnection`, the only name it is used under.  The application's
callbacks are calls like those of the SDK, and a client stores of each only
whether it is set.  `MQTT_SSL_ENABLE` is not defined, so a client with `security`
set makes no call where another would.
-/
import EspMisc.Mqtt.Queue
import EspMisc.Mqtt.Utils

namespace EspMisc
namespace Mqtt

def mqttBufSize : Nat := 1792
def queueBufferSize : Nat := 1792
def mqttSendTimout : Nat := 7
def mqttReconnectTimeout : Nat := 10

/-- `ESPCONN_OK`. -/
def espconnOk : Int := 0

/-- `tConnState`. -/
inductive ConnState where
  | wifiInit | wifiConnecting | wifiConnectingError | wifiConnected | dnsResolve
  | tcpDisconnecting | tcpDisconnected | tcpReconnectDisconnecting | tcpReconnectReq
  | tcpReconnect | tcpConnecting | tcpConnectingError | tcpConnected
  | mqttConnectSend | mqttConnectSending | mqttSubscibeSend | mqttSubscibeSending
  | mqttData | mqttKeepaliveSend | mqttPublishRecv | mqttPublishing
  | mqttDeleting | mqttDeleted
  deriving Repr, DecidableEq

/-- The callbacks an application can set. -/
inductive Callback where
  | connected | disconnected | published | timeout | data
  deriving Repr, DecidableEq

structure MqttState where
  inBuffer : Bytes
  inBufferLength : Nat
  outBufferLength : Nat
  messageLength : Nat
  messageLengthRead : Nat
  mqttConnection : MqttConnection
  pendingMsgId : Nat
  pendingMsgType : Nat

structure MqttClient where
  pCon : Option Nat
  security : Nat
  host : Option CString
  ip : Nat
  mqttState : MqttState
  connectInfo : ConnectInfo
  callbacks : Callback → Bool
  /-- Whether `mqttTimer` is armed. -/
  mqttTimer : Bool
  keepAliveTick : Nat
  reconnectTick : Nat
  sendTimeout : Nat
  connState : ConnState
  msgQueue : Queue

/-- The result of `espconn_gethostbyname`.  With `ESPCONN_OK` the address has been
stored already, and only after `ESPCONN_INPROGRESS` the callback is called. -/
inductive Lookup where
  | ok (addr : Nat)
  | inprogress
  | error
  deriving Repr, DecidableEq

/-- What `espconn_gethostbyname` leaves in the address it was given. -/
def Lookup.store (ip : Nat) : Lookup → Nat
  | .ok addr => addr
  | .inprogress => ip
  | .error => ip

/-- A call out of the client. -/
inductive Effect where
  | espconnConnect (pCon : Option Nat) (result : Int)
  | espconnSend (pCon : Option Nat) (data : Bytes) (result : Int)
  | espconnDisconnect (pCon : Option Nat)
  | espconnDelete (pCon : Nat)
  | espconnGethostbyname (pCon : Nat) (host : Bytes) (result : Lookup)
  | systemOsPost
  | callback (cb : Callback)
  /-- `dataCb`, with `in_buffer` and the two ranges in it. -/
  | dataCb (buffer : Bytes) (topic data : Option Nat × Nat)
  deriving Repr, DecidableEq

/-- What a step finds outside of the client. -/
structure Answers where
  send : Int
  connect : Int
  lookup : Lookup
  /-- `dataBuffer`, before anything is written to it. -/
  dataBuffer : Bytes
  length_dataBuffer : dataBuffer.length = mqttBufSize
  /-- The byte where the `n`-th parser of the step finds its `isBegin`. -/
  isBegin : Nat → UInt8

namespace MqttClient

/-- A call of an application's callback, if it is set. -/
def notify (client : MqttClient) (cb : Callback) : List Effect :=
  if client.callbacks cb then [.callback cb] else []

/-- A call that the client makes on its connection unless it wants SSL. -/
def plain (client : MqttClient) (e : Effect) : List Effect :=
  if client.security ≠ 0 then [] else [e]

end MqttClient

/-! ## Receiving -/

def deliverPublish (client : MqttClient) (message : Bytes) (length : Nat) : List Effect :=
  let topic := mqttGetPublishTopic message (length % 65536)
  let data := mqttGetPublishData message (length % 65536)
  if client.callbacks .data then [.dataCb message topic data] else []

/-- `QUEUE_Puts` of the message just built; a full queue is only reported. -/
def queueResponse (client : MqttClient) (c : MqttConnection) : MqttClient :=
  { client with
    mqttState := { client.mqttState with mqttConnection := c }
    msgQueue := (queuePuts client.msgQueue c.outbound).1 }

/-- The `switch (msg_type)` of the data states. -/
def handlePacket (client : MqttClient) (msgType msgQos msgId : Nat) :
    MqttClient × List Effect :=
  let connection := client.mqttState.mqttConnection
  match MessageType.ofCode msgType with
  | some .publish =>
    let client :=
      if msgQos = 1 then queueResponse client (mqttMsgPuback connection msgId)
      else if msgQos = 2 then queueResponse client (mqttMsgPubrec connection msgId)
      else client
    (client, deliverPublish client client.mqttState.inBuffer client.mqttState.messageLengthRead)
  | some .pubrec => (queueResponse client (mqttMsgPubrel connection msgId), [])
  | some .pubrel => (queueResponse client (mqttMsgPubcomp connection msgId), [])
  | some .pingreq => (queueResponse client (mqttMsgPingresp connection), [])
  | _ => (client, [])

/-- The locals of `mqtt_tcpclient_recv` at `READPACKET`, with the client and the
calls made so far.  `pdata` is an offset into the segment. -/
structure RecvState where
  client : MqttClient
  pdata : Nat
  len : Nat
  log : List Effect

/-- The bytes from `pdata` on. -/
def RecvState.rest (segment : Bytes) (s : RecvState) : Bytes := (segment.drop s.pdata).take s.len

/-- `os_memcpy` into `in_buffer`. -/
def MqttClient.fill (client : MqttClient) (p : Bytes) : MqttClient :=
  { client with
    mqttState := { client.mqttState with inBuffer := poke client.mqttState.inBuffer 0 p } }

/-- The two length fields, of 16 bits each. -/
def MqttClient.measure (client : MqttClient) (len : Nat) : MqttClient :=
  { client with
    mqttState := { client.mqttState with
      messageLengthRead := len
      messageLength := (mqttGetTotalLength client.mqttState.inBuffer len % 65536).toNat } }

/-- From `READPACKET` to the `goto` (`true`) or to the final `system_os_post`. -/
def readPacket (segment : Bytes) (s : RecvState) : Bool × RecvState :=
  if s.len < mqttBufSize ∧ s.len > 0 then
    let client := s.client.fill (s.rest segment)
    let inBuffer := client.mqttState.inBuffer
    let msgType := mqttGetType inBuffer
    let msgQos := mqttGetQos inBuffer
    let msgId := mqttGetId inBuffer (client.mqttState.inBufferLength % 65536)
    match client.connState with
    | .mqttConnectSending =>
      if msgType = MessageType.connack.code then
        if client.mqttState.pendingMsgType ≠ MessageType.connect.code then
          (false, { s with
            client := client
            log := s.log ++ client.plain (.espconnDisconnect client.pCon) })
        else
          let client := { client with connState := .mqttData }
          (false, { s with client := client, log := s.log ++ client.notify .connected })
      else (false, { s with client := client })
    | .mqttData | .mqttKeepaliveSend =>
      let client := client.measure s.len
      let messageLength := client.mqttState.messageLength
      let handled := handlePacket client msgType msgQos msgId
      let s := { s with client := handled.1, log := s.log ++ handled.2 }
      if msgType = MessageType.publish.code ∧ messageLength < s.len then
        (true, { s with len := s.len - messageLength, pdata := s.pdata + messageLength })
      else (false, s)
    | _ => (false, { s with client := client })
  else (false, s)

/-- At most `fuel` turns of the loop. -/
def readPackets (segment : Bytes) : Nat → RecvState → Option RecvState
  | 0, _ => none
  | fuel + 1, s =>
    let turn := readPacket segment s
    if turn.1 then readPackets segment fuel turn.2 else some turn.2

/-- The state at the first `READPACKET`; `len` is an `unsigned short`. -/
def recvStart (client : MqttClient) (segment : Bytes) : RecvState :=
  { client := { client with keepAliveTick := 0 }, pdata := 0,
    len := segment.length % 65536, log := [] }

/-- The result is `none` when the loop does not end. -/
def mqttTcpclientRecv (client : MqttClient) (segment : Bytes) :
    Option (MqttClient × List Effect) :=
  (readPackets segment mqttBufSize (recvStart client segment)).map
    fun s => (s.client, s.log ++ [.systemOsPost])

/-! ## The other callbacks -/

def mqttTcpclientSentCb (client : MqttClient) : MqttClient × List Effect :=
  let client := { client with sendTimeout := 0 }
  let published := (client.connState = .mqttData ∨ client.connState = .mqttKeepaliveSend) ∧
    client.mqttState.pendingMsgType = MessageType.publish.code
  (client, (if published then client.notify .published else []) ++ [.systemOsPost])

def mqttTimer (client : MqttClient) : MqttClient × List Effect :=
  let acted : MqttClient × List Effect :=
    match client.connState with
    | .mqttData =>
      let client := { client with keepAliveTick := (client.keepAliveTick + 1) % 4294967296 }
      if client.keepAliveTick > client.connectInfo.keepalive then
        ({ client with connState := .mqttKeepaliveSend }, [.systemOsPost])
      else (client, [])
    | .tcpReconnectReq =>
      let client := { client with reconnectTick := (client.reconnectTick + 1) % 4294967296 }
      if client.reconnectTick > mqttReconnectTimeout then
        ({ client with reconnectTick := 0, connState := .tcpReconnect },
          .systemOsPost :: client.notify .timeout)
      else (client, [])
    | _ => (client, [])
  -- `sendTimeout` is unsigned, so it is not counted down below zero
  ({ acted.1 with sendTimeout := acted.1.sendTimeout - 1 }, acted.2)

def mqttTcpclientDisconCb (client : MqttClient) : MqttClient × List Effect :=
  let connState : ConnState :=
    match client.connState with
    | .tcpDisconnecting => .tcpDisconnected
    | .mqttDeleting => .mqttDeleted
    | _ => .tcpReconnectReq
  let client := { client with connState := connState }
  (client, client.notify .disconnected ++ [.systemOsPost])

def mqttTcpclientConnectCb (client : MqttClient) (answers : Answers) :
    MqttClient × List Effect :=
  let st := client.mqttState
  let connection := mqttMsgConnect
    (mqttMsgInit st.mqttConnection.buffer (st.outBufferLength % 65536)) client.connectInfo
  let message := connection.outbound
  -- the header is read at `data`, also when the message is empty
  let data := connection.buffer.drop connection.message.data
  let client := { client with
    mqttState := { st with
      mqttConnection := connection
      pendingMsgType := mqttGetType data
      pendingMsgId := mqttGetId data connection.message.length }
    sendTimeout := mqttSendTimout
    connState := .mqttConnectSending }
  (client, client.plain (.espconnSend client.pCon message answers.send) ++ [.systemOsPost])

def mqttTcpclientReconCb (client : MqttClient) : MqttClient × List Effect :=
  ({ client with connState := .tcpReconnectReq }, [.systemOsPost])

/-- The result is `none` for a client without a connection object, in which the function
stores the address through a null pointer. -/
def mqttDnsFound (client : MqttClient) (ipaddr : Option Nat) (answers : Answers) :
    Option (MqttClient × List Effect) :=
  match ipaddr with
  | none => some ({ client with connState := .tcpReconnectReq }, [])
  | some addr =>
    if client.ip = 0 ∧ addr ≠ 0 then
      match client.pCon with
      | none => none
      | some pCon =>
        some ({ client with connState := .tcpConnecting },
          client.plain (.espconnConnect (some pCon) answers.connect) ++ [.systemOsPost])
    else some (client, [.systemOsPost])

/-! ## Requests -/

/-- `while (QUEUE_Puts(..) == -1) if (QUEUE_Gets(..) == -1) return FALSE`, for at
most `fuel` turns.  The queue, and whether the message was put. -/
def putEvicting (answers : Answers) (message : Bytes) : Nat → Queue → Option (Queue × Bool)
  | 0, _ => none
  | fuel + 1, queue =>
    let put := queuePuts queue message
    if put.2 = -1 then
      let got := queueGets put.1 answers.dataBuffer (UInt16.ofNat mqttBufSize)
        (answers.isBegin fuel)
      if got.ret = -1 then some (got.queue, false)
      else putEvicting answers message fuel got.queue
    else some (put.1, true)

/-- A built message goes to the queue.  A turn of the loop takes a message out of
the ring, so the ring's fill count bounds the turns. -/
def queueRequest (client : MqttClient) (c : MqttConnection) (answers : Answers) :
    Option (MqttClient × List Effect × Bool) :=
  (putEvicting answers c.outbound (client.msgQueue.rb.fillCnt + 1) client.msgQueue).map
    fun put =>
      ({ client with
          mqttState := { client.mqttState with mqttConnection := c }
          msgQueue := put.1 },
        if put.2 then [.systemOsPost] else [], put.2)

/-- The client of a request that was not built. -/
def requestFailed (client : MqttClient) (c : MqttConnection) :
    MqttClient × List Effect × Bool :=
  ({ client with mqttState := { client.mqttState with mqttConnection := c } }, [], false)

/-- `*message_id = id` on the client's `pending_msg_id`. -/
def storeMsgId (client : MqttClient) (id : Option Nat) : MqttClient :=
  { client with
    mqttState := { client.mqttState with
      pendingMsgId := id.getD client.mqttState.pendingMsgId } }

def mqttPublish (client : MqttClient) (topic : Option CString) (data : Bytes)
    (qos retain : Int) (answers : Answers) : Option (MqttClient × List Effect × Bool) :=
  let built := mqttMsgPublish client.mqttState.mqttConnection topic data qos retain
  let client := storeMsgId client built.2
  if built.1.message.length = 0 then some (requestFailed client built.1)
  else queueRequest client built.1 answers

def mqttSubscribe (client : MqttClient) (topic : Option CString) (qos : Nat)
    (answers : Answers) : Option (MqttClient × List Effect × Bool) :=
  let built := mqttMsgSubscribe client.mqttState.mqttConnection topic qos
  queueRequest (storeMsgId client built.2) built.1 answers

def mqttUnSubscribe (client : MqttClient) (topic : Option CString) (answers : Answers) :
    Option (MqttClient × List Effect × Bool) :=
  let built := mqttMsgUnsubscribe client.mqttState.mqttConnection topic
  queueRequest (storeMsgId client built.2) built.1 answers

def mqttPing (client : MqttClient) (answers : Answers) :
    Option (MqttClient × List Effect × Bool) :=
  let built := mqttMsgPingreq client.mqttState.mqttConnection
  if built.message.length = 0 then some (requestFailed client built)
  else queueRequest client built answers

/-! ## Connecting and disconnecting -/

def mqttTcpclientDelete (client : MqttClient) : MqttClient × List Effect :=
  match client.pCon with
  | some pCon => ({ client with pCon := none }, [.espconnDelete pCon])
  | none => (client, [])

def mqttClientDelete (client : MqttClient) : MqttClient × List Effect :=
  let deleted := mqttTcpclientDelete client
  ({ deleted.1 with
      host := none
      connectInfo := { client.connectInfo with
        clientId := none
        username := none
        password := none
        willTopic := none
        willMessage := none }
      mqttState := { client.mqttState with inBuffer := [] } }, deleted.2)

/-- `fresh` is the address of the new connection object.  The result is `none` for
a client without a host, which the function reads through a null pointer. -/
def mqttConnect (client : MqttClient) (fresh : Nat) (answers : Answers) :
    Option (MqttClient × List Effect) :=
  let deleted := mqttTcpclientDelete client
  let client := { deleted.1 with
    pCon := some fresh
    keepAliveTick := 0
    reconnectTick := 0
    mqttTimer := true }
  match client.host with
  | none => none
  | some host =>
    if (utilsStrToIP host.bytes).isSome then
      some ({ client with connState := .tcpConnecting },
        deleted.2 ++ client.plain (.espconnConnect (some fresh) answers.connect))
    else
      some ({ client with ip := answers.lookup.store client.ip, connState := .tcpConnecting },
        deleted.2 ++ [.espconnGethostbyname fresh host.bytes answers.lookup])

def mqttDisconnect (client : MqttClient) : MqttClient × List Effect :=
  ({ client with connState := .tcpDisconnecting, mqttTimer := false }, [.systemOsPost])

def mqttDeleteClient (client : MqttClient) : MqttClient × List Effect :=
  ({ client with connState := .mqttDeleting, mqttTimer := false }, [.systemOsPost])

/-! ## The task -/

/-- The local `result`, which keeps its first value when nothing is sent. -/
def keepaliveResult (client : MqttClient) (answers : Answers) : Int :=
  if client.security ≠ 0 then espconnOk else answers.send

def mqttSendKeepalive (client : MqttClient) (answers : Answers) : MqttClient × List Effect :=
  let connection := mqttMsgPingreq client.mqttState.mqttConnection
  let message := connection.outbound
  let client := { client with
    mqttState := { client.mqttState with
      mqttConnection := connection
      pendingMsgType := mqttGetType message
      pendingMsgId := mqttGetId message connection.message.length }
    sendTimeout := mqttSendTimout }
  let calls := client.plain (.espconnSend client.pCon message answers.send)
  if keepaliveResult client answers = espconnOk then
    ({ client with keepAliveTick := 0, connState := .mqttData }, calls ++ [.systemOsPost])
  else ({ client with connState := .tcpReconnectDisconnecting }, calls ++ [.systemOsPost])

/-- The branch of `MQTT_DATA`: send the next message of the queue. -/
def sendQueued (client : MqttClient) (answers : Answers) : MqttClient × List Effect :=
  if queueIsEmpty client.msgQueue ∨ client.sendTimeout ≠ 0 then (client, [])
  else
    let got := queueGets client.msgQueue answers.dataBuffer (UInt16.ofNat mqttBufSize)
      (answers.isBegin 0)
    let client := { client with msgQueue := got.queue }
    if got.ret = 0 then
      let client := { client with
        mqttState := { client.mqttState with
          pendingMsgType := mqttGetType got.buffer
          pendingMsgId := mqttGetId got.buffer got.len }
        sendTimeout := mqttSendTimout }
      (client, client.plain (.espconnSend client.pCon got.message answers.send))
    else (client, [])

/-- The result is `none` when the connection cannot be restarted. -/
def mqttTask (client : MqttClient) (fresh : Nat) (answers : Answers) :
    Option (MqttClient × List Effect) :=
  match client.connState with
  | .tcpReconnect =>
    let deleted := mqttTcpclientDelete client
    (mqttConnect deleted.1 fresh answers).map fun connected =>
      ({ connected.1 with connState := .tcpConnecting }, deleted.2 ++ connected.2)
  | .mqttDeleting | .tcpDisconnecting | .tcpReconnectDisconnecting =>
    some (client, client.plain (.espconnDisconnect client.pCon))
  | .tcpDisconnected => some (mqttTcpclientDelete client)
  | .mqttDeleted => some (mqttClientDelete client)
  | .mqttKeepaliveSend => some (mqttSendKeepalive client answers)
  | .mqttData => some (sendQueued client answers)
  | _ => some (client, [])

/-! ## Initialisation -/

def mqttInitConnection (host : CString) (security : UInt8) : MqttClient where
  pCon := none
  security := security.toNat
  host := some host
  ip := 0
  mqttState :=
    { inBuffer := [], inBufferLength := 0, outBufferLength := 0, messageLength := 0,
      messageLengthRead := 0, mqttConnection := mqttMsgInit [] 0, pendingMsgId := 0,
      pendingMsgType := 0 }
  connectInfo :=
    { clientId := none, username := none, password := none, willTopic := none,
      willMessage := none, keepalive := 0, willQos := 0, willRetain := 0, cleanSession := 0 }
  callbacks := fun _ => false
  mqttTimer := false
  keepAliveTick := 0
  reconnectTick := 0
  sendTimeout := 0
  connState := .wifiInit
  msgQueue := ⟨⟨[], 0, 0, 0, 0⟩⟩

def mqttInitClient (client : MqttClient) (clientId : CString)
    (clientUser clientPass : Option CString) (keepAliveTime : UInt32) (cleanSession : UInt8) :
    MqttClient :=
  { client with
    connectInfo :=
      { clientId := some clientId, username := clientUser, password := clientPass,
        willTopic := none, willMessage := none, keepalive := keepAliveTime.toNat,
        willQos := 0, willRetain := 0, cleanSession := cleanSession.toNat }
    mqttState := { client.mqttState with
      inBuffer := List.replicate mqttBufSize 0
      inBufferLength := mqttBufSize
      outBufferLength := mqttBufSize
      mqttConnection := mqttMsgInit (List.replicate mqttBufSize 0) mqttBufSize }
    msgQueue := queueInit client.msgQueue queueBufferSize }

def mqttInitLWT (client : MqttClient) (willTopic willMsg : CString) (willQos willRetain : UInt8) :
    MqttClient :=
  { client with
    connectInfo := { client.connectInfo with
      willTopic := some willTopic
      willMessage := some willMsg
      willQos := willQos.toNat
      willRetain := willRetain.toNat } }

/-- `MQTT_OnConnected` and its siblings; a NULL callback is not called. -/
def mqttOn (client : MqttClient) (cb : Callback) (set : Bool) : MqttClient :=
  { client with callbacks := fun c => if c = cb then set else client.callbacks c }

end Mqtt
end EspMisc
