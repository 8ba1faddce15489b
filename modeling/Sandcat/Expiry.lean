import Sandcat.Lookup

/-!
# What the cleaner deletes

A message carries the milliseconds at which it was sent, and the query of the cleaner compares them
with an instant in seconds. A message that is past its retention is therefore deleted only if its
stamp is below that number of seconds. Both inboxes do the same in the collections that they visit.
-/

namespace Sandcat

open Remote HybridShardedMsgBox

/-- `delete_many` of the cleaner of the plain box. -/
def Mongo.deleteExpired (coll : String) (cutoffTime : Int) (types : List Int) (m : Mongo) : Mongo :=
  { m with docs := m.docs.filter fun q => !(q.1 = coll && expired cutoffTime types q.2) }

/-- One pass of `clean_receive_box` of the plain box. -/
def MsgBox.cleanReceiveBox (period : Int) (types : List Int) : M Unit := do
  let now ← nowSecs
  let cutoff ← cutoffTime now period
  mongoCall fun m => .ok ((), m.deleteExpired Mongo.collSingleBox cutoff types)

namespace Box

/-- One pass of the cleaner. -/
def cleanReceiveBox (period : Int) (types : List Int) : Box → M Unit
  | .plain => MsgBox.cleanReceiveBox period types
  | .sharded _ => Prog.void (HybridShardedMsgBox.cleanReceiveBox period types)

/-- The collections that a pass visits. -/
def visited (w : World) : Box → List String
  | .plain => [Mongo.collSingleBox]
  | .sharded _ => w.mongo.activeCollections

end Box

/-- A day in milliseconds. -/
def millisPerDay : Int := 86400000

namespace World

/-- The documents are messages with the stamps of a system clock, which starts in 1970. -/
def Stamped (w : World) : Prop := ∀ q ∈ w.mongo.docs, ∃ m : Msg, q.2 = toDoc m ∧ 0 ≤ m.sendTime

/-- The instant of the cutoff in seconds. -/
def cutoffSecs (period : Int) (w : World) : Int := w.now / 1000 - period * 86400

/-- A document is past its retention, and its type is not excepted. -/
def pastRetention (period : Int) (types : List Int) (w : World) (d : Document) : Bool :=
  Mongo.expired (w.now - period * millisPerDay) types d

/-- A pass visits the collection of a document, and its stamp is below the cutoff in seconds. -/
def Caught (box : Box) (period : Int) (w : World) (q : String × Document) : Prop :=
  (Chrono.fromTimestamp (w.cutoffSecs period)).isSome ∧ q.1 ∈ box.visited w ∧
    q.2.holds .sendTime (· < w.cutoffSecs period) = true

variable {w : World} {period : Int} {types : List Int} {cutoff : Int}

theorem docs_expire (coll : String) (cutoff : Int) (types : List Int) (m : Mongo) :
    (m.expire coll cutoff types).docs = (m.deleteExpired coll cutoff types).docs := by
  unfold Mongo.expire Mongo.deleteExpired
  split
  · rfl
  · rename_i hmem
    refine (List.filter_eq_self.mpr fun q hq => ?_).symm
    have hne : q.1 ≠ coll := by
      rintro rfl
      exact hmem (List.mem_append_left _ (List.mem_map_of_mem hq))
    simp [hne]

/-- The deletions of the sharded box, collection after collection. -/
theorem exec_each_expire (cutoff : Int) (types : List Int) (colls : List String) (w : World) :
    ∃ m : Mongo, (Prog.each (fun coll => mongoCall fun m => .ok ((), m.expire coll cutoff types))
        colls).exec w = (.ok (), { w with mongo := m }) ∧
      m.docs = w.mongo.docs.filter fun q =>
        !(decide (q.1 ∈ colls) && Mongo.expired cutoff types q.2) := by
  induction colls generalizing w with
  | nil => exact ⟨w.mongo, rfl, by simp⟩
  | cons coll colls ih =>
    obtain ⟨m, hexec, hdocs⟩ := ih { w with mongo := w.mongo.expire coll cutoff types }
    refine ⟨m, ?_, ?_⟩
    · rw [Prog.each, Prog.exec_bind, exec_mongoCall]
      exact hexec
    · rw [hdocs, docs_expire, Mongo.deleteExpired, List.filter_filter]
      refine List.filter_congr fun q _ => ?_
      by_cases hcoll : q.1 = coll <;> by_cases hcolls : q.1 ∈ colls <;>
        cases Mongo.expired cutoff types q.2 <;> simp [hcoll, hcolls]

/-- A pass begins with its cutoff. A period that leads out of the calendar ends it there. -/
theorem exec_cutoff {β : Type} (period : Int) (k : Int → Int → M β) (w : World) :
    (nowSecs >>= fun now => cutoffTime now period >>= k now).exec w =
      if (Chrono.fromTimestamp (w.cutoffSecs period)).isSome then
        (k (w.now / 1000) (w.cutoffSecs period)).exec w
      else (.error .panic, w) := by
  rw [Prog.exec_bind, exec_nowSecs, World.cutoffSecs]
  dsimp only
  unfold cutoffTime
  dsimp only
  split
  · rw [Prog.exec_bind]
    rfl
  · rfl

theorem docs_cleanReceiveBox_plain (period : Int) (types : List Int) (w : World) :
    ((MsgBox.cleanReceiveBox period types).after w).mongo.docs = w.mongo.docs.filter fun q =>
      !((Chrono.fromTimestamp (w.cutoffSecs period)).isSome && decide (q.1 = Mongo.collSingleBox) &&
        Mongo.expired (w.cutoffSecs period) types q.2) := by
  rw [MsgBox.cleanReceiveBox, Prog.after, exec_cutoff]
  split
  · rename_i hdate
    rw [exec_mongoCall]
    simp only [Mongo.deleteExpired, hdate, Bool.true_and]
  · rename_i hdate
    simp [hdate]

theorem docs_cleanReceiveBox_sharded (period : Int) (types : List Int) (w : World) :
    ((HybridShardedMsgBox.cleanReceiveBox period types).after w).mongo.docs =
      w.mongo.docs.filter fun q => !((Chrono.fromTimestamp (w.cutoffSecs period)).isSome &&
        decide (q.1 ∈ w.mongo.activeCollections) && Mongo.expired (w.cutoffSecs period) types q.2) := by
  rw [HybridShardedMsgBox.cleanReceiveBox, Prog.after, exec_cutoff]
  split
  · rename_i hdate
    rw [Prog.exec_bind, exec_mongoCall]
    dsimp only
    obtain ⟨m, hexec, hdocs⟩ := exec_each_expire (w.cutoffSecs period) types
      w.mongo.activeCollections w
    rw [Prog.exec_bind, hexec]
    dsimp only
    -- the choice of the names to remove deletes nothing, whether it panics or not
    have hframe := Prog.frame_after (frame_outdatedAmong (fun w : World => w.mongo.docs)
      (outdatedThreshold (w.now / 1000) period) w.mongo.activeCollections) { w with mongo := m }
    simp only [hdate, Bool.true_and]
    exact hframe.trans hdocs
  · rename_i hdate
    simp [hdate]

/-- Whether a pass deletes a document. -/
def deletes (box : Box) (period : Int) (types : List Int) (w : World) (q : String × Document) : Bool :=
  (Chrono.fromTimestamp (w.cutoffSecs period)).isSome && decide (q.1 ∈ box.visited w) &&
    Mongo.expired (w.cutoffSecs period) types q.2

theorem docs_cleanReceiveBox (box : Box) (period : Int) (types : List Int) (w : World) :
    ((box.cleanReceiveBox period types).after w).mongo.docs =
      w.mongo.docs.filter fun q => !w.deletes box period types q := by
  cases box with
  | plain =>
    rw [Box.cleanReceiveBox, docs_cleanReceiveBox_plain]
    simp only [deletes, Box.visited, List.mem_singleton]
  | sharded n =>
    refine Eq.trans ?_ (docs_cleanReceiveBox_sharded period types w)
    rw [Box.cleanReceiveBox, Prog.after_void]

theorem pastRetention_toDoc (m : Msg) : w.pastRetention period types (toDoc m) = true ↔
    m.sendTime < w.now - period * millisPerDay ∧ m.msgType ∉ types := by
  change (decide (m.sendTime < w.now - period * millisPerDay) && decide (m.msgType ∉ types)) = true ↔ _
  rw [Bool.and_eq_true, decide_eq_true_eq, decide_eq_true_eq]

theorem expired_toDoc (m : Msg) : Mongo.expired cutoff types (toDoc m) = true ↔
    m.sendTime < cutoff ∧ m.msgType ∉ types := by
  change (decide (m.sendTime < cutoff) && decide (m.msgType ∉ types)) = true ↔ _
  rw [Bool.and_eq_true, decide_eq_true_eq, decide_eq_true_eq]

/-- A stamp of a system clock that is below the cutoff in seconds is past its retention. -/
theorem lt_of_lt_cutoffSecs {t : Int} (ht : 0 ≤ t) (h : t < w.cutoffSecs period) :
    t < w.now - period * millisPerDay := by
  unfold cutoffSecs at h
  unfold millisPerDay
  omega

/-- A pass deletes a message exactly when it is past its retention and caught. -/
theorem deleted_iff (box : Box) {q : String × Document} {m : Msg} (hq : q.2 = toDoc m)
    (hm : 0 ≤ m.sendTime) : w.deletes box period types q = true ↔
      w.pastRetention period types q.2 = true ∧ w.Caught box period q := by
  have hstamp : q.2.holds .sendTime (· < w.cutoffSecs period) = true ↔
      m.sendTime < w.cutoffSecs period := by
    rw [hq]
    exact decide_eq_true_iff
  rw [deletes, Caught, hstamp, hq, Bool.and_eq_true, Bool.and_eq_true, decide_eq_true_eq, expired_toDoc,
    pastRetention_toDoc]
  constructor
  · rintro ⟨⟨hdate, hvisited⟩, hlt, htype⟩
    exact ⟨⟨lt_of_lt_cutoffSecs hm hlt, htype⟩, hdate, hvisited, hlt⟩
  · rintro ⟨⟨-, htype⟩, hdate, hvisited, hlt⟩
    exact ⟨⟨hdate, hvisited⟩, hlt, htype⟩

end World

/-- A pass deletes exactly the messages past their retention if and only if it catches each of
them. -/
theorem cleans_exactly_iff (box : Box) (period : Int) (types : List Int) (w : World)
    (hstamped : w.Stamped) :
    ((box.cleanReceiveBox period types).after w).mongo.docs =
        w.mongo.docs.filter (fun q => !w.pastRetention period types q.2) ↔
      ∀ q ∈ w.mongo.docs, w.pastRetention period types q.2 = true → w.Caught box period q := by
  rw [World.docs_cleanReceiveBox]
  constructor
  · intro h q hq hpast
    obtain ⟨m, hdoc, hm⟩ := hstamped q hq
    by_contra hcaught
    have hdeleted : ¬ w.deletes box period types q = true :=
      fun hd => hcaught ((World.deleted_iff box hdoc hm).mp hd).2
    have hkept : q ∈ w.mongo.docs.filter (fun q => !w.pastRetention period types q.2) := by
      rw [← h, List.mem_filter]
      exact ⟨hq, by simpa using hdeleted⟩
    rw [List.mem_filter, hpast] at hkept
    cases hkept.2
  · intro h
    refine List.filter_congr fun q hq => ?_
    obtain ⟨m, hdoc, hm⟩ := hstamped q hq
    refine congrArg not ?_
    rw [Bool.eq_iff_iff, World.deleted_iff box hdoc hm]
    exact ⟨fun hdeleted => hdeleted.1, fun hpast => ⟨hpast, h q hq hpast⟩⟩

/-- A store of June 2025 with messages of given stamps in one collection, which is tracked. -/
def juneStore (coll : String) (stamps : List Int) : World :=
  { World.empty with
    mongo := { World.empty.mongo with
      docs := stamps.map fun sendTime => (coll, toDoc { sendTime })
      activeCollections := [coll] }
    now := 1750000000000 }

theorem stamped_juneStore (coll : String) {stamps : List Int} (h : ∀ t ∈ stamps, 0 ≤ t) :
    (juneStore coll stamps).Stamped := by
  intro q hq
  obtain ⟨sendTime, ht, rfl⟩ := List.mem_map.mp hq
  exact ⟨{ sendTime }, rfl, h sendTime ht⟩

/-- A message of June and one of the first second of 1970. -/
theorem cleans_exactly_first : ((Box.plain.cleanReceiveBox 30 []).after
      (juneStore Mongo.collSingleBox [1749900000000, 5])).mongo.docs =
    [(Mongo.collSingleBox, toDoc { sendTime := 1749900000000 })] := by
  rw [(cleans_exactly_iff .plain 30 [] (juneStore Mongo.collSingleBox [1749900000000, 5])
    (stamped_juneStore _ (by decide))).mpr]
  · rfl
  · intro q hq hpast
    obtain ⟨t, ht, rfl⟩ := List.mem_map.mp hq
    obtain rfl | ht := List.mem_cons.mp ht
    · exact absurd hpast (by decide)
    · rw [List.mem_singleton.mp ht]
      exact ⟨by decide, by decide, by decide⟩

/-- A message of January is kept by a cleaner that keeps messages for thirty days. -/
theorem january_kept :
    ¬ (((Box.plain.cleanReceiveBox 30 []).after
        (juneStore Mongo.collSingleBox [1735689600000])).mongo.docs =
      (juneStore Mongo.collSingleBox [1735689600000]).mongo.docs.filter fun q =>
        !(juneStore Mongo.collSingleBox [1735689600000]).pastRetention 30 [] q.2) ∧
    ¬ (((Box.sharded 1).cleanReceiveBox 30 []).after
        (juneStore "msg_box_2025_01_0" [1735689600000])).mongo.docs =
      (juneStore "msg_box_2025_01_0" [1735689600000]).mongo.docs.filter fun q =>
        !(juneStore "msg_box_2025_01_0" [1735689600000]).pastRetention 30 [] q.2 := by
  constructor
  · rw [World.docs_cleanReceiveBox]
    decide
  · rw [World.docs_cleanReceiveBox]
    decide

end Sandcat
