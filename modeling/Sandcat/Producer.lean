import Sandcat.World

/-!
# From a request to the queue

The chat service stamps a message and publishes it. The gateway's manager draws the
sender's number first and turns the message into its own reply.
-/

namespace Sandcat

open Remote

structure MsgResponse where
  clientId : String
  serverId : String
  sendTime : Int
  err : String

namespace Producer

def publish (payload : Payload) : M Unit :=
  Prog.update fun w => ((), { w with queue := w.queue ++ [payload] })

/-- The identifier and the time the chat service gives a message. -/
def stamp (nanoid : String) (now : Int) (msg : Msg) : Msg :=
  let msg := if isReceived msg.msgType then msg else { msg with serverId := nanoid }
  { msg with sendTime := now }

/-- A failure of the broker is reported in the response. -/
def sendMsg (nanoid : String) (request : SendMsgRequest) : M MsgResponse :=
  match request.message with
  | none => Prog.raise (.mk .unknownError (some "message is empty"))
  | some msg => do
    let now ← nowMillis
    let msg := stamp nanoid now msg
    let err ← Prog.attempt (publish (.json msg))
    pure ⟨msg.clientId, msg.serverId, msg.sendTime,
      match err with
      | .ok _ => ""
      | .error _ => "Message production error"⟩

end Producer

namespace Manager

def contentTypeError : Int := 9

def createErrorMessage (message : Msg) (error : String) : Msg :=
  { message with
    contentType := contentTypeError, msgType := MsgType.msgRecResp.toI32,
    content := error.toUTF8.toList }

/-- The reply to a message taken from the websocket; `text` renders an error. -/
def processMessage (cfg : Config) (text : Error → String) (nanoid : String) (message : Msg) :
    M Msg := do
  match ← Prog.attempt (Cache.incrSendSeq cfg message.senderId) with
  | .error e => pure (createErrorMessage message (text e))
  | .ok (seq, _, _) =>
    let message := { message with sendSeq := seq }
    match ← Prog.attempt (Producer.sendMsg nanoid ⟨some message⟩) with
    | .error e => pure (createErrorMessage message (text e))
    | .ok response =>
      let message := if response.err = "" then { message with content := [] }
        else createErrorMessage message response.err
      pure { message with
        msgType := MsgType.msgRecResp.toI32, serverId := response.serverId,
        sendTime := response.sendTime }

end Manager

end Sandcat
