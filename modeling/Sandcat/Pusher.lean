import Sandcat.World

/-!
# Pushing a message to the gateways

The pusher keeps the gateways it is connected to and asks the registry when it
knows none. The result channel has one slot per gateway, and a channel without a
slot panics.
-/

namespace Sandcat

open Remote

namespace Pusher

def wsRpcList : M (List Addr) := Prog.update fun w => (w.wsRpcList, w)

def unreachable : Error := .mk .internalServer (some "transport error")

/-- `handle_sub_services`: an address that does not parse or does not answer is left out. -/
def handleSubServices (services : List (Option Addr)) : M Unit :=
  Prog.update fun w =>
    let connected := services.filterMap fun s => s.filter fun a => (w.gateways a).isSome
    ((), { w with wsRpcList := w.wsRpcList ++ connected.dedup.filter (· ∉ w.wsRpcList) })

def queryWithName : M (List (Option Addr)) := Prog.update fun w => (w.serviceCenter, w)

/-- The gateways to push to. -/
def connectedGateways : M (List Addr) := do
  let known ← wsRpcList
  Prog.onlyIf known.isEmpty do
    let list ← queryWithName
    handleSubServices list
  let wsRpc ← wsRpcList
  if wsRpc.isEmpty then Prog.raise .panic else pure wsRpc

/-- One RPC: the gateway's hub turns the request into sends. -/
def rpc (sends : Hub → List (Client × Msg)) (addr : Addr) : M Unit :=
  Prog.request fun w =>
    match w.gateways addr with
    | some hub => .ok ((), { w with deliveries := w.deliveries ++ (sends hub).map (addr, ·) })
    | none => .error unreachable

def remove (failed : List Addr) : M Unit :=
  Prog.update fun w => ((), { w with wsRpcList := w.wsRpcList.filter (· ∉ failed) })

def isError (r : Addr × Except Error Unit) : Bool :=
  match r.2 with
  | .ok _ => false
  | .error _ => true

/-- Every failure is received and its gateway removed. -/
def pushSingleMsg (request : Msg) : M Unit := do
  let wsRpc ← connectedGateways
  let results ← Prog.all (wsRpc.map (rpc fun hub => hub.sendSingleMsg request.receiverId request))
  remove (((wsRpc.zip results).filter isError).map Prod.fst)

/-- The loop over the results ends at the first success. -/
def pushGroupMsg (msg : Msg) (members : List GroupMemSeq) : M Unit := do
  let wsRpc ← connectedGateways
  let results ← Prog.all (wsRpc.map (rpc fun hub => hub.sendGroup members msg))
  remove (((wsRpc.zip results).takeWhile isError).map Prod.fst)

end Pusher

end Sandcat
