import Sandcat.Reads

/-!
# The collections that a sharded box tracks

A look-up by `server_id` scans the tracked collections and no others. Only the
start-up of a box and its daily maintenance track collections; a save opens the
collection it needs and leaves the tracked ones alone. The cleaner holds a read lock
on the tracked collections until its pass ends. A pass that finds an outdated
collection asks for the write lock in the meantime, waits for itself, and lets nobody
else in.
-/

namespace Sandcat

open Remote

/-- `checked_add_months`, or the month itself if the number of months or the year is refused. -/
def Chrono.addMonths (n : Nat) (ym : Int × Int) : Int × Int :=
  let months := ym.1 * 12 + (ym.2 - 1) + n
  if n < 2 ^ 31 ∧ months / 12 ≤ 262142 then (months / 12, months % 12 + 1) else ym

namespace Mongo

/-- `active_collections.insert`. -/
def track (coll : String) (m : Mongo) : Mongo :=
  { m with activeCollections := m.activeCollections.insert coll }

def listCollectionNames (m : Mongo) : List String :=
  m.docs.map Prod.fst ++ m.indexes.map Prod.fst

/-- The query of the cleaner. -/
def expired (cutoffTime : Int) (types : List Int) (d : Document) : Bool :=
  d.holds .sendTime (· < cutoffTime) && (d.getI32 .msgType).all (· ∉ types)

/-- `delete_many` of the cleaner, in a collection that exists. -/
def expire (coll : String) (cutoffTime : Int) (types : List Int) (m : Mongo) : Mongo :=
  if coll ∈ m.listCollectionNames then
    { m with docs := m.docs.filter fun q => !(q.1 = coll && expired cutoffTime types q.2) }
  else m

end Mongo

namespace HybridShardedMsgBox

/-- The collections of some months after an instant, month by month. -/
def collectionsOf (userShards : Nat) (now : Int) (monthOffsets : List Int) : List String :=
  monthOffsets.flatMap fun monthOffset =>
    let adjustedDate :=
      Chrono.addMonths (monthOffset % 2 ^ 32).toNat (Chrono.yearMonth (now / 86400))
    (List.range userShards).map (collectionName adjustedDate)

/-- The loop body of `initialize_system`. -/
def register (collName : String) : M Unit := do
  ensureCollectionIndexed collName
  mongoCall fun m => .ok ((), m.track collName)

/-- The month before is asked for as `-1 as u32` months ahead. -/
def initializeSystem (userShards : Nat) : M Unit := do
  let now ← nowSecs
  Prog.each register (collectionsOf userShards now [-1, 0, 1, 2, 3])

/-- The loop body of the maintenance, which goes on when an index is refused. -/
def adopt (collName : String) : M Unit := do
  if ← mongoCall fun m => .ok (decide (collName ∈ m.activeCollections), m) then pure ()
  else
    Prog.each (fun i => Prog.void (Prog.attempt (mongoCall (Mongo.createIndex collName i))))
      [.receiverSeq, .sendTime, .senderSendSeq, .serverReceiver]
    mongoCall fun m => .ok ((), m.track collName)
    mongoCall fun m => .ok ((), { m with collectionCache := collName :: m.collectionCache })

/-- One tick of the task of `schedule_collection_maintenance`. -/
def maintain (userShards : Nat) : M Unit := do
  let now ← nowSecs
  Prog.each adopt (collectionsOf userShards now [0, 1, 2, 3])

/-- Whether the year and month in a name come before the threshold; `none` is an index out of
bounds. -/
def outdated (threshold collName : String) : Option Bool :=
  match collName.toList.splitOn '_' with
  | _ :: _ :: year :: month :: _ => some (year ++ '_' :: month < threshold.toList)
  | [_, _, _] => none
  | _ => some false

/-- The names in `to_remove`. -/
def outdatedAmong (threshold : String) : List String → M (List String)
  | [] => pure []
  | collName :: colls =>
    match outdated threshold collName with
    | some true => do
      let toRemove ← outdatedAmong threshold colls
      pure (collName :: toRemove)
    | some false => outdatedAmong threshold colls
    | none => Prog.raise .panic

/-- The instant before which messages expire. A period that leads out of the calendar ends the
task. -/
def cutoffTime (now period : Int) : M Int :=
  let cutoff := now - period * 86400
  if (Chrono.fromTimestamp cutoff).isSome then pure cutoff else Prog.raise .panic

/-- The threshold lies `(period / 30 + 2) as u32` months back. -/
def outdatedThreshold (now period : Int) : String :=
  let months := ((period.tdiv 30 + 2) % 2 ^ 32).toNat
  Chrono.formatYearMonth (Chrono.subMonths months (Chrono.yearMonth (now / 86400)))

/-- One pass of `clean_receive_box` up to the removal of the outdated names. -/
def cleanReceiveBox (period : Int) (types : List Int) : M (List String) := do
  let now ← nowSecs
  let cutoff ← cutoffTime now period
  let collections ← mongoCall fun m => .ok (m.activeCollections, m)
  Prog.each (fun coll => mongoCall fun m => .ok ((), m.expire coll cutoff types)) collections
  outdatedAmong (outdatedThreshold now period) collections

end HybridShardedMsgBox

/-- A box in a running process: whether its maintenance has been scheduled, and whether a writer
waits for the lock on the tracked collections. -/
structure Instance where
  world : World
  scheduled : Bool
  waiting : Bool

/-- What can be asked of a box. -/
inductive BoxOp where
  | start
  | maintain
  | clean (period : Int) (types : List Int)
  | save (message : Msg)
  | delete (messageId : String)
  | get (messageId : String)
  | getMessages (userId : UserId) (start last : Int)
  | getMsgs (userId : UserId) (sendStart sendEnd recStart recEnd : Int)
  deriving DecidableEq

namespace Instance

/-- Before the first process. -/
def fresh : Instance := ⟨.empty, false, false⟩

def atTime (s : Instance) (now : Int) : Instance := { s with world := { s.world with now } }

def onWorld (s : Instance) (f : World → World) : Instance := { s with world := f s.world }

open HybridShardedMsgBox

/-- `HybridShardedMsgBox::new`: only the database is left of the last process. -/
def new (userShards : Nat) (s : Instance) : Instance :=
  let mongo := { s.world.mongo with collectionCache := [], activeCollections := [] }
  match (initializeSystem userShards).exec { s.world with mongo } with
  | (.ok (), world) => ⟨world, true, false⟩
  | (.error _, world) => ⟨world, false, false⟩

/-- The end of a pass: one that has something to remove never gets the lock. -/
def afterPass (s : Instance) : Except Error (List String) × World → Instance
  | (.ok toRemove, world) => ⟨world, s.scheduled, toRemove ≠ []⟩
  | (.error _, world) => { s with world }

def clean (period : Int) (types : List Int) (s : Instance) : Instance :=
  s.afterPass ((cleanReceiveBox period types).exec s.world)

/-- One operation. Whatever needs the tracked collections stands still behind a waiting writer. -/
def step (cfg : Config) (userShards : Nat) (s : Instance) : BoxOp → Instance
  | .start => s.new userShards
  | .maintain =>
    if s.scheduled ∧ ¬ s.waiting then s.onWorld (HybridShardedMsgBox.maintain userShards).after else s
  | .clean period types => if s.waiting then s else s.clean period types
  | .save message => s.onWorld (saveMessage cfg userShards message).after
  | .delete messageId => if s.waiting then s else s.onWorld (deleteMessage messageId).after
  | .get messageId => if s.waiting then s else s.onWorld (HybridShardedMsgBox.getMessage messageId).after
  | .getMessages userId start last => s.onWorld (getMessages cfg userShards userId start last).after
  | .getMsgs userId sendStart sendEnd recStart recEnd =>
    s.onWorld (getMsgs cfg userShards userId sendStart sendEnd recStart recEnd).after

/-- A sequence of operations, each at its instant. -/
def run (cfg : Config) (userShards : Nat) (s : Instance) (ops : List (Int × BoxOp)) : Instance :=
  ops.foldl (fun s op => (s.atTime op.1).step cfg userShards op.2) s

/-- What `get_message` answers, if it does. -/
def getMessage (messageId : String) (s : Instance) : Option (Except Error (Option Msg)) :=
  if s.waiting then none else some ((HybridShardedMsgBox.getMessage messageId).exec s.world).1

end Instance

end Sandcat
