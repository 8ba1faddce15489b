import Sandcat.Delivery

/-!
# A websocket connection from the token to the channel

A connection is accepted if its token names the user of the path. After that the
receive loop decodes one frame after another and hands the messages to the manager,
which numbers them, forwards them to the chat service and sends the outcome to the
clients of the sender. The library that decodes tokens and those that parse the frames are
parameters.
-/

namespace Sandcat

open Remote
open Bincode (Bytes)

/-- The kinds of `jsonwebtoken` errors that are told apart. -/
inductive JwtError where
  | expiredSignature | invalidToken | other
  deriving DecidableEq, Repr

structure Claims where
  sub : UserId
  deriving DecidableEq, Repr

/-- A message of the websocket. -/
inductive Frame where
  | text (text : String)
  | binary (b : Bytes)
  | ping | pong | close
  deriving DecidableEq

/-- What the gateway takes from its libraries: `jsonwebtoken::decode` of a token with a
secret, `serde_json::from_str`, and the message of `bincode::decode_from_slice`. -/
structure Libraries where
  decode : String → String → Except JwtError Claims
  fromStr : String → Option Msg
  decodeFromSlice : Bytes → Option Msg

namespace WsServer

def unauthorized (details : String) : Error := .mk .unAuthorized (some details)

/-- The user of the token has to be the user of the path. -/
def verifyToken (lib : Libraries) (token userId jwtSecret : String) : Except Error Claims :=
  match lib.decode token jwtSecret with
  | .error .expiredSignature => .error (unauthorized "Token expired")
  | .error .invalidToken => .error (unauthorized "Invalid token format")
  | .error .other => .error (unauthorized "Token expired")
  | .ok claims =>
    if claims.sub ≠ userId then .error (unauthorized "User ID mismatch in token") else .ok claims

theorem verifyToken_ok {lib : Libraries} {token userId jwtSecret : String} {claims : Claims} :
    verifyToken lib token userId jwtSecret = .ok claims ↔
      lib.decode token jwtSecret = .ok claims ∧ claims.sub = userId := by
  unfold verifyToken
  cases hd : lib.decode token jwtSecret with
  | error e => cases e <;> simp
  | ok c =>
    by_cases hsub : c.sub = userId
    · simp only [ne_eq, hsub, not_true_eq_false, if_false, Except.ok.injEq]
      constructor
      · rintro rfl
        exact ⟨rfl, hsub⟩
      · exact fun h => h.1
    · simp only [ne_eq, hsub, not_false_eq_true, if_true, Except.ok.injEq]
      constructor
      · intro h
        cases h
      · rintro ⟨rfl, h⟩
        exact absurd h hsub

/-- `MAX_MESSAGE_SIZE`. -/
def maxMessageSize : Nat := 1048576

/-- The message that a frame spells. -/
def spelled (lib : Libraries) : Frame → Option Msg
  | .text text => lib.fromStr text
  | .binary b => lib.decodeFromSlice b
  | .ping | .pong | .close => none

/-- One turn of the receive loop: the message handed to the manager, and whether the loop goes
on. `sent` tells whether the other side takes what the turn sends, the channel of the manager
a message and the socket a pong. A close frame after a refused frame is sent or not. -/
def receive (lib : Libraries) (sent : Bool) : Frame → Option Msg × Bool
  | .text text =>
    if maxMessageSize < text.utf8ByteSize then (none, true)
    else
      match lib.fromStr text with
      | some msg => if sent then (some msg, true) else (none, false)
      | none => (none, true)
  | .ping => (none, sent)
  | .pong => (none, true)
  | .close => (none, false)
  | .binary b =>
    if maxMessageSize < b.length then (none, true)
    else
      match lib.decodeFromSlice b with
      | some msg => if sent then (some msg, true) else (none, false)
      | none => (none, true)

/-- What is handed to the manager is what the frame spells, whoever has sent it. -/
theorem spelled_of_receive {lib : Libraries} {sent : Bool} {frame : Frame} {msg : Msg}
    (h : (receive lib sent frame).1 = some msg) : spelled lib frame = some msg := by
  cases frame with
  | text text =>
    simp only [receive] at h
    split at h
    · cases h
    · cases hs : lib.fromStr text with
      | none => simp [hs] at h
      | some m => cases sent <;> simp_all [spelled]
  | binary b =>
    simp only [receive] at h
    split at h
    · cases h
    · cases hs : lib.decodeFromSlice b with
      | none => simp [hs] at h
      | some m => cases sent <;> simp_all [spelled]
  | ping => cases h
  | pong => cases h
  | close => cases h

end WsServer

namespace Manager

/-- The reply goes to the clients of its sender on this gateway. -/
def sendReply (addr : Addr) (message : Msg) : M Unit :=
  Prog.update fun w =>
    let sends := ((w.gateways addr).map (reply · message)).getD []
    ((), { w with deliveries := w.deliveries ++ sends.map (addr, ·) })

/-- One turn of `run`. -/
def turn (cfg : Config) (text : Error → String) (addr : Addr) (nanoid : String) (message : Msg) :
    M Unit := do
  let message ← processMessage cfg text nanoid message
  sendReply addr message

end Manager

end Sandcat
