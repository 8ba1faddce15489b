import Sandcat.Acknowledge
import Sandcat.Maintenance

/-!
# Looking a message up by its identifier

What should be found after a sequence of operations is a list of messages: a save
adds one at the end and a deletion takes one out. The documents of a box are those of
the list as long as each save goes to a tracked collection, each start-up tracks every
collection in use, and no pass of the cleaner has a collection to untrack.
-/

namespace Sandcat

open Remote

namespace Mongo

/-- Collections have been opened and nothing else has changed. -/
structure Reopened (m t : Mongo) : Prop where
  sound : t.Sound
  docs : t.docs = m.docs
  active : t.activeCollections = m.activeCollections

theorem Sound.reopened {m : Mongo} (h : m.Sound) : Reopened m m := ⟨h, rfl, rfl⟩

theorem Sound.reopened_opened {m : Mongo} (h : m.Sound) (coll : String) :
    Reopened m (m.opened coll) := ⟨h.opened coll, m.docs_opened coll, m.active_opened coll⟩

theorem Sound.reopened_openedAll {m : Mongo} (h : m.Sound) (colls : List String) :
    Reopened m (m.openedAll colls) := ⟨h.openedAll, m.docs_openedAll colls, m.active_openedAll colls⟩

theorem Reopened.trans {m t u : Mongo} (h : Reopened m t) (h' : Reopened t u) : Reopened m u :=
  ⟨h'.sound, h'.docs.trans h.docs, h'.active.trans h.active⟩

/-- Everything but the documents. -/
def outsideDocs (m : Mongo) : Mongo := { m with docs := [] }

/-- Collections have been tracked and nothing has been lost. -/
structure Tracking (m : Mongo) (colls : List String) (t : Mongo) : Prop where
  sound : t.Sound
  docs : t.docs = m.docs
  kept : ∀ c ∈ m.activeCollections, c ∈ t.activeCollections
  added : ∀ c ∈ colls, c ∈ t.activeCollections

theorem Sound.tracking {m : Mongo} (h : m.Sound) : Tracking m [] m :=
  ⟨h, rfl, fun _ hc => hc, fun _ hc => by cases hc⟩

theorem Sound.tracking_track {m : Mongo} (h : m.Sound) (coll : String) :
    Tracking m [coll] ((m.ensured coll).track coll) := by
  refine ⟨⟨(h.ensured coll).indexed, h.unique⟩, rfl, ?_, ?_⟩
  · intro c hc
    exact List.mem_insert_of_mem hc
  · intro c hc
    obtain rfl := List.mem_singleton.mp hc
    exact List.mem_insert_self

theorem Tracking.cons {m t u : Mongo} {coll : String} {colls : List String}
    (h : Tracking m [coll] t) (h' : Tracking t colls u) : Tracking m (coll :: colls) u := by
  refine ⟨h'.sound, h'.docs.trans h.docs, fun c hc => h'.kept c (h.kept c hc), ?_⟩
  intro c hc
  obtain rfl | hc := List.mem_cons.mp hc
  · exact h'.kept c (h.added c List.mem_cons_self)
  · exact h'.added c hc

end Mongo

namespace HybridShardedMsgBox

variable {cfg : Config} {n : Nat} {w : World}

section Months

open Chrono

theorem isMonth_addMonths {ym : Int × Int} (h : IsMonth ym) (k : Nat) : IsMonth (addMonths k ym) := by
  unfold addMonths
  dsimp only
  split
  · rw [IsMonth]
    dsimp only
    omega
  · exact h

theorem monthIndex_addMonths {ym : Int × Int} {k : Nat} (hk : k < 2 ^ 31)
    (hlast : (monthIndex ym + k) / 12 ≤ 262142) :
    monthIndex (addMonths k ym) = monthIndex ym + k := by
  simp only [monthIndex] at *
  rw [addMonths, if_pos ⟨hk, hlast⟩]
  dsimp only
  omega

theorem mem_map_collectionName {a b : Int × Int} (ha : IsMonth a) (hb : IsMonth b) (r : Nat) :
    collectionName a r ∈ (List.range n).map (collectionName b) ↔
      r < n ∧ monthIndex a = monthIndex b := by
  simp only [List.mem_map, List.mem_range, collectionName_eq_iff hb ha]
  constructor
  · rintro ⟨r', hr, rfl, he⟩
    exact ⟨hr, he.symm⟩
  · rintro ⟨hr, he⟩
    exact ⟨r, hr, rfl, he.symm⟩

/-- A start-up tracks its own month and the three after it. The month before is never one of
them: its offset becomes a number of months that is refused. -/
theorem mem_registered_iff {now : Int} (hlast : (yearMonth (now / 86400)).1 < 262142)
    {ym : Int × Int} (h : IsMonth ym) (r : Nat) :
    collectionName ym r ∈ collectionsOf n now [-1, 0, 1, 2, 3] ↔
      r < n ∧ monthOf now ≤ monthIndex ym ∧ monthIndex ym ≤ monthOf now + 3 := by
  have hnow := isMonth_yearMonth (now / 86400)
  have hrefused : addMonths ((-1 : Int) % 2 ^ 32).toNat (yearMonth (now / 86400)) =
      yearMonth (now / 86400) := by
    have hlarge : ¬ ((-1 : Int) % 2 ^ 32).toNat < 2 ^ 31 := by decide
    rw [addMonths, if_neg]
    exact fun hfits => hlarge hfits.1
  have hindex : ∀ k : Nat, k ≤ 3 →
      monthIndex (addMonths k (yearMonth (now / 86400))) = monthOf now + k := by
    intro k hk
    rw [IsMonth] at hnow
    refine monthIndex_addMonths (by omega) ?_
    simp only [monthIndex]
    omega
  have hoffset : ∀ k : Nat, k ≤ 3 → (collectionName ym r ∈ (List.range n).map
      (collectionName (addMonths k (yearMonth (now / 86400)))) ↔
        r < n ∧ monthIndex ym = monthOf now + k) := by
    intro k hk
    rw [mem_map_collectionName h (isMonth_addMonths hnow k), hindex k hk]
  have hzero : ((0 : Int) % 2 ^ 32).toNat = 0 := by decide
  have hone : ((1 : Int) % 2 ^ 32).toNat = 1 := by decide
  have htwo : ((2 : Int) % 2 ^ 32).toNat = 2 := by decide
  have hthree : ((3 : Int) % 2 ^ 32).toNat = 3 := by decide
  simp only [collectionsOf, List.flatMap_cons, List.flatMap_nil, List.append_nil, List.mem_append]
  rw [hrefused, hzero, hone, htwo, hthree, mem_map_collectionName h hnow, hoffset 0 (by omega),
    hoffset 1 (by omega), hoffset 2 (by omega), hoffset 3 (by omega), monthOf]
  omega

end Months

section Tracked

theorem exec_each_tracking {f : String → M Unit}
    (hf : ∀ coll (w : World), w.mongo.Sound →
      ∃ t, (f coll).exec w = (.ok (), w.onMongo fun _ => t) ∧ Mongo.Tracking w.mongo [coll] t)
    (h : w.mongo.Sound) (colls : List String) :
    ∃ t, (Prog.each f colls).exec w = (.ok (), w.onMongo fun _ => t) ∧
      Mongo.Tracking w.mongo colls t := by
  induction colls generalizing w with
  | nil => exact ⟨w.mongo, rfl, h.tracking⟩
  | cons coll colls ih =>
    obtain ⟨t, hexec, ht⟩ := hf coll w h
    obtain ⟨u, hrest, hu⟩ := ih (w := w.onMongo fun _ => t) ht.sound
    refine ⟨u, ?_, ht.cons hu⟩
    rw [Prog.each, Prog.exec_bind, hexec]
    exact hrest

theorem exec_register (coll : String) (h : w.mongo.Sound) :
    ∃ t, (register coll).exec w = (.ok (), w.onMongo fun _ => t) ∧
      Mongo.Tracking w.mongo [coll] t := by
  refine ⟨_, ?_, h.tracking_track coll⟩
  rw [register, Prog.exec_bind, exec_ensureCollectionIndexed h]
  rfl

theorem exec_adopt (coll : String) (h : w.mongo.Sound) :
    ∃ t, (adopt coll).exec w = (.ok (), w.onMongo fun _ => t) ∧
      Mongo.Tracking w.mongo [coll] t := by
  have hattempt : ∀ i (w : World), w.mongo.Sound →
      (Prog.void (Prog.attempt (mongoCall (Mongo.createIndex coll i)))).exec w =
        (.ok (), w.onMongo fun m => { m with indexes := (coll, i) :: m.indexes }) := by
    intro i w hw
    rw [Prog.void, Prog.exec_bind, Prog.exec_attempt, exec_createIndex hw]
    rfl
  by_cases hm : coll ∈ w.mongo.activeCollections
  · refine ⟨w.mongo, ?_, h, rfl, fun _ hc => hc, ?_⟩
    · rw [adopt, Prog.exec_bind, exec_mongoCall]
      simp [hm, World.onMongo]
    · intro c hc
      obtain rfl := List.mem_singleton.mp hc
      exact hm
  · refine ⟨_, ?_, h.tracking_track coll⟩
    rw [adopt, Prog.exec_bind, exec_mongoCall]
    simp only [hm, decide_false, Bool.false_eq_true, if_false]
    rw [Prog.exec_bind, exec_indexes hattempt h]
    rfl

theorem exec_initializeSystem (h : w.mongo.Sound) :
    ∃ t, (initializeSystem n).exec w = (.ok (), w.onMongo fun _ => t) ∧
      Mongo.Tracking w.mongo (collectionsOf n (w.now / 1000) [-1, 0, 1, 2, 3]) t :=
  exec_each_tracking (fun coll _ hw => exec_register coll hw) h _

theorem exec_maintain (h : w.mongo.Sound) :
    ∃ t, (maintain n).exec w = (.ok (), w.onMongo fun _ => t) ∧
      Mongo.Tracking w.mongo (collectionsOf n (w.now / 1000) [0, 1, 2, 3]) t :=
  exec_each_tracking (fun coll _ hw => exec_adopt coll hw) h _

end Tracked

section Scans

theorem findOne_eq (coll serverId : String) (m : Mongo) :
    m.findOne coll serverId = (m.docs.find? (filedUnder coll serverId)).map Prod.snd := by
  unfold Mongo.findOne Mongo.find
  induction m.docs with
  | nil => rfl
  | cons p docs ih =>
    by_cases hc : p.1 = coll
    · by_cases hid : p.2.getStr .serverId = some serverId
      · simp [filedUnder, hc, hid]
      · simpa [filedUnder, hc, hid] using ih
    · simpa [filedUnder, hc] using ih

/-- The scan over the active collections finds the first match. -/
theorem exec_findIn (h : w.mongo.Sound) (serverId : String) (colls : List String) :
    ∃ t, (findIn serverId colls).exec w =
        (.ok ((colls.findSome? fun coll => w.mongo.docs.find? (filedUnder coll serverId)).map
          fun p => Msg.tryFrom p.2), w.onMongo fun _ => t) ∧
      Mongo.Reopened w.mongo t := by
  induction colls generalizing w with
  | nil => exact ⟨w.mongo, rfl, h.reopened⟩
  | cons coll colls ih =>
    rw [findIn, Prog.exec_bind, exec_getCollection h]
    dsimp only
    rw [Prog.exec_bind, exec_mongoCall, List.findSome?_cons]
    simp only [World.onMongo_mongo, findOne_eq, Mongo.docs_opened]
    cases hf : w.mongo.docs.find? (filedUnder coll serverId) with
    | some p => exact ⟨w.mongo.opened coll, rfl, h.reopened_opened coll⟩
    | none =>
      obtain ⟨t, hexec, ht⟩ := ih (w := w.onMongo (·.opened coll)) (h.opened coll)
      rw [World.onMongo_mongo, Mongo.docs_opened] at hexec
      exact ⟨t, hexec, (h.reopened_opened coll).trans ht⟩

theorem exec_getMessage (h : w.mongo.Sound) (serverId : String) :
    ∃ t, (getMessage serverId).exec w =
        (.ok ((firstMatch (.sharded n) serverId w.mongo).map fun p => Msg.tryFrom p.2),
          w.onMongo fun _ => t) ∧
      Mongo.Reopened w.mongo t := exec_findIn h serverId _

theorem sound_deleteOne {m : Mongo} (h : m.Sound) (coll serverId : String) :
    (m.deleteOne coll serverId).2.Sound ∧
      (m.deleteOne coll serverId).2.activeCollections = m.activeCollections := by
  unfold Mongo.deleteOne
  dsimp only
  split
  · exact ⟨⟨h.indexed, h.unique.sublist (List.eraseP_sublist.map _)⟩, rfl⟩
  · exact ⟨h, rfl⟩

theorem sound_deleteFrom (h : w.mongo.Sound) (serverId : String) (colls : List String) :
    ((deleteFrom serverId colls).after w).mongo.Sound ∧
      ((deleteFrom serverId colls).after w).mongo.activeCollections = w.mongo.activeCollections := by
  induction colls generalizing w with
  | nil => exact ⟨h, rfl⟩
  | cons coll colls ih =>
    rw [Prog.after, exec_deleteFrom_cons h]
    split
    · obtain ⟨hsound, hactive⟩ := sound_deleteOne (h.opened coll) coll serverId
      exact ⟨hsound, hactive.trans (w.mongo.active_opened coll)⟩
    · obtain ⟨hsound, hactive⟩ := ih (w := w.onMongo (·.opened coll)) (h.opened coll)
      exact ⟨hsound, hactive.trans (w.mongo.active_opened coll)⟩

theorem reopened_getMessages (hn : n ≠ 0) (h : w.mongo.Sound) (u : UserId) (start last : Int) :
    Mongo.Reopened w.mongo ((getMessages cfg n u start last).after w).mongo := by
  rw [Prog.after, exec_getMessages cfg hn h]
  split
  · exact h.reopened_openedAll _
  · exact h.reopened

theorem reopened_getMsgs (hn : n ≠ 0) (h : w.mongo.Sound) (u : UserId) (ss se rs re : Int) :
    Mongo.Reopened w.mongo ((getMsgs cfg n u ss se rs re).after w).mongo := by
  rw [Prog.after, exec_getMsgs cfg hn h]
  split
  · exact h.reopened_openedAll _
  · exact h.reopened

theorem frame_cutoffTime {γ : Type} (f : World → γ) (now period : Int) :
    Prog.Frame f (cutoffTime now period) := by
  unfold cutoffTime
  dsimp only
  split
  · exact Prog.frame_ret _
  · exact Prog.frame_raise _

theorem frame_outdatedAmong {γ : Type} (f : World → γ) (threshold : String) (colls : List String) :
    Prog.Frame f (outdatedAmong threshold colls) := by
  induction colls with
  | nil => exact Prog.frame_ret _
  | cons coll colls ih =>
    unfold outdatedAmong
    split
    · exact Prog.frame_bind ih fun _ => Prog.frame_ret _
    · exact ih
    · exact Prog.frame_raise _

theorem frame_outsideDocs {α : Type} {g : Mongo → Except Error (α × Mongo)}
    (hg : ∀ m a m', g m = .ok (a, m') → m'.outsideDocs = m.outsideDocs) :
    Prog.Frame (fun w : World => w.mongo.outsideDocs) (mongoCall g) := by
  apply Prog.frame_request
  intro w a t h
  obtain ⟨p, hr, hp⟩ := eq_ok_of_map h
  cases hp
  exact hg w.mongo p.1 p.2 hr

/-- A pass leaves everything but the documents as it is. -/
theorem frame_cleanReceiveBox (period : Int) (types : List Int) :
    Prog.Frame (fun w : World => w.mongo.outsideDocs) (cleanReceiveBox period types) := by
  apply Prog.frame_bind (frame_nowSecs _)
  intro now
  apply Prog.frame_bind (frame_cutoffTime _ now period)
  intro cutoff
  apply Prog.frame_bind (frame_outsideDocs fun m a t h => by cases h; rfl)
  intro colls
  refine Prog.frame_bind (Prog.frame_each (fun coll => frame_outsideDocs ?_) colls)
    fun _ => frame_outdatedAmong _ _ colls
  intro m a t h
  cases h
  unfold Mongo.expire
  split <;> rfl

theorem outdatedAmong_ok {threshold : String} {colls toRemove : List String} {v : World}
    (h : (outdatedAmong threshold colls).exec w = (.ok toRemove, v)) :
    toRemove = colls.filter fun coll => outdated threshold coll = some true := by
  induction colls generalizing toRemove v with
  | nil =>
    cases h
    rfl
  | cons coll colls ih =>
    unfold outdatedAmong at h
    split at h
    · rename_i hcoll
      rw [Prog.exec_bind] at h
      rcases hrest : (outdatedAmong threshold colls).exec w with ⟨r, u⟩
      rw [hrest] at h
      cases r with
      | error e => cases h
      | ok rest =>
        cases h
        rw [List.filter_cons, if_pos (decide_eq_true hcoll), ih hrest]
    · rename_i hcoll
      rw [List.filter_cons, if_neg (by simp [hcoll]), ih h]
    · cases h

/-- What a pass of the cleaner finds. -/
theorem cleanReceiveBox_ok {period : Int} {t : List Int} {toRemove : List String} {v : World}
    (h : (cleanReceiveBox period t).exec w = (.ok toRemove, v)) :
    toRemove = w.mongo.activeCollections.filter fun coll =>
      outdated (outdatedThreshold (w.now / 1000) period) coll = some true := by
  rw [cleanReceiveBox, Prog.exec_bind, exec_nowSecs] at h
  dsimp only at h
  have hframe : (cutoffTime (w.now / 1000) period).after w = w :=
    Prog.frame_after (frame_cutoffTime (fun w => w) _ _) w
  rw [Prog.after] at hframe
  rw [Prog.exec_bind] at h
  rcases hcutoff : (cutoffTime (w.now / 1000) period).exec w with ⟨r, u⟩
  rw [hcutoff] at hframe h
  subst hframe
  cases r with
  | error e => cases h
  | ok cutoff =>
    dsimp only at h
    rw [Prog.exec_bind, exec_mongoCall] at h
    dsimp only at h
    rw [Prog.exec_bind] at h
    split at h
    · exact outdatedAmong_ok h
    · cases h

/-- A pass that finds no outdated collection has nothing to remove. -/
theorem cleanReceiveBox_result {period : Int} {t : List Int}
    (h : ∀ coll ∈ w.mongo.activeCollections,
      outdated (outdatedThreshold (w.now / 1000) period) coll ≠ some true) :
    ((cleanReceiveBox period t).exec w).1 = .ok [] ∨
      ∃ e, ((cleanReceiveBox period t).exec w).1 = .error e := by
  rcases hexec : (cleanReceiveBox period t).exec w with ⟨r, v⟩
  cases r with
  | error e => exact .inr ⟨e, rfl⟩
  | ok toRemove =>
    left
    rw [cleanReceiveBox_ok hexec, List.filter_eq_nil_iff.mpr]
    exact fun coll hcoll => by simpa using h coll hcoll

end Scans

end HybridShardedMsgBox

section Ledger

/-- What an operation does to the messages that should be found. -/
def BoxOp.record (live : List Msg) : BoxOp → List Msg
  | .save message => live ++ [message]
  | .delete messageId => live.filter fun m => m.serverId ≠ messageId
  | _ => live

/-- The messages that should be found after some operations. -/
def ledger (ops : List (Int × BoxOp)) : List Msg := ops.foldl (fun live op => op.2.record live) []

def BoxOp.savedId : BoxOp → Option String
  | .save message => some message.serverId
  | _ => none

/-- The identifiers of the saved messages. -/
def savedIds (ops : List (Int × BoxOp)) : List String := ops.filterMap fun op => op.2.savedId

@[simp] theorem ledger_concat (ops : List (Int × BoxOp)) (op : Int × BoxOp) :
    ledger (ops ++ [op]) = op.2.record (ledger ops) :=
  List.foldl_concat _ _ _ _

@[simp] theorem savedIds_append (ops ops' : List (Int × BoxOp)) :
    savedIds (ops ++ ops') = savedIds ops ++ savedIds ops' := List.filterMap_append

theorem ledger_subset {ops : List (Int × BoxOp)} {m : Msg} (h : m ∈ ledger ops) :
    m.serverId ∈ savedIds ops := by
  induction ops using List.reverseRecOn with
  | nil => cases h
  | append_singleton ops op ih =>
    obtain ⟨now, op⟩ := op
    rw [ledger_concat] at h
    rw [savedIds_append, List.mem_append]
    cases op with
    | save message =>
      obtain h | h := List.mem_append.mp h
      · exact .inl (ih h)
      · obtain rfl := List.mem_singleton.mp h
        exact .inr List.mem_cons_self
    | delete messageId => exact .inl (ih (List.mem_filter.mp h).1)
    | _ => exact .inl (ih h)

/-- A message stays until it is deleted. -/
theorem mem_ledger_append {ops ops' : List (Int × BoxOp)} {m : Msg} (h : m ∈ ledger ops)
    (hkept : ∀ op ∈ ops', op.2 ≠ .delete m.serverId) : m ∈ ledger (ops ++ ops') := by
  induction ops' using List.reverseRecOn with
  | nil => rwa [List.append_nil]
  | append_singleton ops' op ih =>
    have hin := ih fun o ho => hkept o (List.mem_append_left _ ho)
    have hop := hkept op (List.mem_append_right _ List.mem_cons_self)
    obtain ⟨now, op⟩ := op
    rw [← List.append_assoc, ledger_concat]
    cases op with
    | save message => exact List.mem_append_left _ hin
    | delete messageId =>
      refine List.mem_filter.mpr ⟨hin, decide_eq_true ?_⟩
      exact fun he => hop (by rw [he])
    | _ => exact hin

/-- What is not there and is not saved again stays away. -/
theorem notMem_ledger_append {ops ops' : List (Int × BoxOp)} {id : String}
    (h : ∀ m ∈ ledger ops, m.serverId ≠ id) (hnew : id ∉ savedIds ops') :
    ∀ m ∈ ledger (ops ++ ops'), m.serverId ≠ id := by
  induction ops' using List.reverseRecOn with
  | nil => rwa [List.append_nil]
  | append_singleton ops' op ih =>
    rw [savedIds_append, List.mem_append, not_or] at hnew
    obtain ⟨now, op⟩ := op
    intro m hm
    rw [← List.append_assoc, ledger_concat] at hm
    cases op with
    | save message =>
      obtain hm | hm := List.mem_append.mp hm
      · exact ih hnew.1 m hm
      · obtain rfl := List.mem_singleton.mp hm
        exact fun he => hnew.2 (he ▸ List.mem_cons_self)
    | delete messageId => exact ih hnew.1 m (List.mem_filter.mp hm).1
    | _ => exact ih hnew.1 m hm

end Ledger

namespace Instance

open HybridShardedMsgBox

variable {cfg : Config} {n : Nat} {s : Instance} {live : List Msg}

/-- The box holds the messages of a list, all of them where a look-up finds them. -/
structure Holds (live : List Msg) (s : Instance) : Prop where
  free : s.waiting = false
  sound : s.world.mongo.Sound
  docs : s.world.mongo.docs.map Prod.snd = live.map toDoc
  tracked : ∀ p ∈ s.world.mongo.docs, p.1 ∈ s.world.mongo.activeCollections
  distinct : (live.map Msg.serverId).Nodup

theorem holds_fresh : Holds [] fresh := by
  refine ⟨rfl, .empty, rfl, ?_, List.nodup_nil⟩
  simp [fresh, World.empty, Mongo.empty]

theorem Holds.atTime (h : Holds live s) (now : Int) : Holds live (s.atTime now) :=
  ⟨h.free, h.sound, h.docs, h.tracked, h.distinct⟩

section Found

theorem Holds.exists_doc (h : Holds live s) {m : Msg} (hm : m ∈ live) :
    ∃ p ∈ s.world.mongo.docs, p.2 = toDoc m := by
  have hdoc : toDoc m ∈ s.world.mongo.docs.map Prod.snd := by
    rw [h.docs]
    exact List.mem_map_of_mem hm
  simpa using hdoc

theorem Holds.exists_msg (h : Holds live s) {p : String × Document} (hp : p ∈ s.world.mongo.docs) :
    ∃ m ∈ live, p.2 = toDoc m := by
  have hdoc : p.2 ∈ live.map toDoc := by
    rw [← h.docs]
    exact List.mem_map_of_mem hp
  obtain ⟨m, hm, he⟩ := List.mem_map.mp hdoc
  exact ⟨m, hm, he.symm⟩

theorem Holds.nodup_ids (h : Holds live s) :
    (s.world.mongo.docs.map fun p => p.2.getStr .serverId).Nodup := by
  have hids : s.world.mongo.docs.map (fun p => p.2.getStr .serverId) =
      (live.map Msg.serverId).map some := by
    have hmap := congrArg (List.map fun d : Document => d.getStr .serverId) h.docs
    rw [List.map_map, List.map_map] at hmap
    rw [List.map_map]
    exact hmap
  rw [hids]
  exact h.distinct.map (Option.some_injective _)

/-- Different documents have different identifiers. -/
theorem Holds.eq_of_id (h : Holds live s) {p q : String × Document} (hp : p ∈ s.world.mongo.docs)
    (hq : q ∈ s.world.mongo.docs) (he : q.2.getStr .serverId = p.2.getStr .serverId) : q = p :=
  List.inj_on_of_nodup_map h.nodup_ids hq hp he

theorem firstMatch_id {id : String} {m : Mongo} {p : String × Document}
    (h : firstMatch (.sharded n) id m = some p) : p.2.getStr .serverId = some id := by
  obtain ⟨coll, -, hp⟩ := List.exists_of_findSome?_eq_some h
  have hfiled := List.find?_some hp
  simp only [filedUnder, decide_eq_true_eq] at hfiled
  exact hfiled.2

/-- A document that is tracked is the one a look-up meets. -/
theorem Holds.firstMatch_of_mem (h : Holds live s) {p : String × Document}
    (hp : p ∈ s.world.mongo.docs) {id : String} (hid : p.2.getStr .serverId = some id) :
    firstMatch (.sharded n) id s.world.mongo = some p := by
  cases hf : firstMatch (.sharded n) id s.world.mongo with
  | some q => rw [h.eq_of_id hp (mem_of_firstMatch hf) ((firstMatch_id hf).trans hid.symm)]
  | none =>
    have hnone := List.findSome?_eq_none_iff.mp hf p.1 (h.tracked p hp)
    have hfiled := List.find?_eq_none.mp hnone p hp
    exact absurd (by simp [filedUnder, hid]) hfiled

theorem Holds.firstMatch_none (h : Holds live s) {id : String} (hid : ∀ m ∈ live, m.serverId ≠ id) :
    firstMatch (.sharded n) id s.world.mongo = none := by
  cases hf : firstMatch (.sharded n) id s.world.mongo with
  | none => rfl
  | some p =>
    obtain ⟨m, hm, he⟩ := h.exists_msg (mem_of_firstMatch hf)
    have hp := firstMatch_id hf
    rw [he, toDoc_serverId] at hp
    exact absurd (Option.some.inj hp) (hid m hm)

theorem Holds.getMessage_eq (h : Holds live s) (id : String) : s.getMessage id =
    some (.ok ((firstMatch (.sharded n) id s.world.mongo).map fun p => Msg.tryFrom p.2)) := by
  obtain ⟨t, hexec, -⟩ := exec_getMessage (n := n) h.sound id
  rw [getMessage, h.free, hexec]
  rfl

theorem Holds.getMessage_of_mem (h : Holds live s) {m : Msg} (hm : m ∈ live) :
    s.getMessage m.serverId = some (.ok (some m.stored)) := by
  obtain ⟨p, hp, he⟩ := h.exists_doc hm
  have hid : p.2.getStr .serverId = some m.serverId := by rw [he, toDoc_serverId]
  rw [h.getMessage_eq (n := 0), h.firstMatch_of_mem hp hid, Option.map_some, he, Msg.tryFrom_toDoc]

theorem Holds.getMessage_none (h : Holds live s) {id : String} (hid : ∀ m ∈ live, m.serverId ≠ id) :
    s.getMessage id = some (.ok none) := by
  rw [h.getMessage_eq (n := 0), h.firstMatch_none hid]
  rfl

end Found

/-- Passes of the cleaner delete nothing. -/
def ExpiresNothing (s : Instance) : BoxOp → Prop
  | .clean period types => (s.clean period types).world.mongo.docs = s.world.mongo.docs
  | _ => True

/-- A start-up tracks every collection with a document, a save goes to a tracked collection, and
a pass of the cleaner finds no outdated one. -/
def Covered (cfg : Config) (n : Nat) (s : Instance) : BoxOp → Prop
  | .start => ∀ p ∈ s.world.mongo.docs,
      p.1 ∈ collectionsOf n (s.world.now / 1000) [-1, 0, 1, 2, 3]
  | .save message => n ≠ 0 → shelf cfg n s.world.now message.receiverId message.sendTime ∈
      s.world.mongo.activeCollections
  | .clean period _ => ∀ coll ∈ s.world.mongo.activeCollections,
      outdated (outdatedThreshold (s.world.now / 1000) period) coll ≠ some true
  | _ => True

section Steps

theorem Holds.reopened (h : Holds live s) {t : World} (ht : Mongo.Reopened s.world.mongo t.mongo) :
    Holds live { s with world := t } := by
  refine ⟨h.free, ht.sound, ?_, ?_, h.distinct⟩
  · rw [ht.docs]
    exact h.docs
  · rw [ht.docs, ht.active]
    exact h.tracked

theorem Holds.new (h : Holds live s) (hcov : Covered cfg n s .start) : Holds live (s.new n) := by
  have hempty : ({ s.world.mongo with collectionCache := [], activeCollections := [] } :
      Mongo).Sound := ⟨by simp, h.sound.unique⟩
  obtain ⟨t, hexec, ht⟩ := exec_initializeSystem (n := n)
    (w := { s.world with
      mongo := { s.world.mongo with collectionCache := [], activeCollections := [] } }) hempty
  have hnew : s.new n = ⟨{ s.world with mongo := t }, true, false⟩ := by
    rw [Instance.new, hexec]
    rfl
  rw [hnew]
  refine ⟨rfl, ht.sound, ?_, ?_, h.distinct⟩
  · rw [ht.docs]
    exact h.docs
  · intro p hp
    rw [ht.docs] at hp
    exact ht.added p.1 (hcov p hp)

theorem Holds.maintain (h : Holds live s) :
    Holds live (s.onWorld (HybridShardedMsgBox.maintain n).after) := by
  obtain ⟨t, hexec, ht⟩ := exec_maintain (n := n) h.sound
  rw [onWorld, Prog.after, hexec]
  refine ⟨h.free, ht.sound, ?_, ?_, h.distinct⟩
  · rw [World.onMongo_mongo, ht.docs]
    exact h.docs
  · intro p hp
    rw [World.onMongo_mongo, ht.docs] at hp
    exact ht.kept p.1 (h.tracked p hp)

theorem Holds.clean (h : Holds live s) {period : Int} {types : List Int}
    (hquiet : ExpiresNothing s (.clean period types)) (hcov : Covered cfg n s (.clean period types)) :
    Holds live (s.clean period types) := by
  have hframe := Prog.frame_after (frame_cleanReceiveBox period types) s.world
  have hresult := cleanReceiveBox_result (w := s.world) (t := types) hcov
  rw [Prog.after] at hframe
  rw [ExpiresNothing, Instance.clean] at hquiet
  rw [Instance.clean]
  generalize (cleanReceiveBox period types).exec s.world = x at *
  obtain ⟨r, t⟩ := x
  dsimp only at hframe
  have hactive := congrArg Mongo.activeCollections hframe
  have hcache := congrArg Mongo.collectionCache hframe
  have hindexes := congrArg Mongo.indexes hframe
  simp only [Mongo.outsideDocs] at hactive hcache hindexes
  have hdocs : t.mongo.docs = s.world.mongo.docs := by
    cases r with
    | ok toRemove => exact hquiet
    | error e => exact hquiet
  have hsound : t.mongo.Sound := by
    refine ⟨?_, hdocs ▸ h.sound.unique⟩
    rw [hcache, hindexes]
    exact h.sound.indexed
  have hheld := h.reopened (t := t) ⟨hsound, hdocs, hactive⟩
  obtain hresult | ⟨e, hresult⟩ := hresult
  · obtain rfl : r = .ok [] := hresult
    exact ⟨rfl, hheld.sound, hheld.docs, hheld.tracked, hheld.distinct⟩
  · obtain rfl : r = .error e := hresult
    exact hheld

theorem Holds.save (hn : n ≠ 0) (h : Holds live s) {message : Msg}
    (hcov : Covered cfg n s (.save message)) (hnew : message.serverId ∉ live.map Msg.serverId) :
    Holds (live ++ [message]) (s.onWorld (saveMessage cfg n message).after) := by
  have hafter : (saveMessage cfg n message).after s.world = s.world.onMongo
      (·.filed (placed cfg n s.world.now [message])) := after_saveMessage hn h.sound message
  have hkey : Mongo.docKey (shelf cfg n s.world.now message.receiverId message.sendTime,
      toDoc message) ∉ s.world.mongo.docs.map Mongo.docKey := by
    intro hin
    obtain ⟨p, hp, he⟩ := List.mem_map.mp hin
    obtain ⟨m, hm, hpm⟩ := h.exists_msg hp
    have hid : p.2.getStr .serverId = (toDoc message).getStr .serverId :=
      congrArg (fun k => k.2.1) he
    rw [hpm, toDoc_serverId, toDoc_serverId] at hid
    exact hnew (Option.some.inj hid ▸ List.mem_map_of_mem hm)
  have hdocs : ((saveMessage cfg n message).after s.world).mongo.docs = s.world.mongo.docs ++
      [(shelf cfg n s.world.now message.receiverId message.sendTime, toDoc message)] := by
    rw [hafter, World.onMongo_mongo, Mongo.docs_filed]
    exact Unique.enter_of_notMem hkey
  have hactive : ((saveMessage cfg n message).after s.world).mongo.activeCollections =
      s.world.mongo.activeCollections := by
    rw [hafter, World.onMongo_mongo, Mongo.active_filed]
  refine ⟨h.free, ?_, ?_, ?_, ?_⟩
  · rw [onWorld, hafter]
    exact h.sound.filed _
  · rw [onWorld, hdocs, List.map_append, List.map_append, h.docs]
    rfl
  · intro p hp
    rw [onWorld] at hp ⊢
    rw [hdocs] at hp
    rw [hactive]
    obtain hp | hp := List.mem_append.mp hp
    · exact h.tracked p hp
    · obtain rfl := List.mem_singleton.mp hp
      exact hcov hn
  · rw [List.map_append, List.nodup_append]
    refine ⟨h.distinct, List.nodup_singleton _, ?_⟩
    intro a ha b hb
    obtain rfl := List.mem_singleton.mp hb
    exact fun he => hnew (he ▸ ha)

/-- A deletion takes out the documents with the identifier. -/
theorem Holds.docs_delete (h : Holds live s) (id : String) :
    without (firstMatch (.sharded n) id s.world.mongo) s.world.mongo.docs =
      s.world.mongo.docs.filter fun p => p.2.getStr .serverId ≠ some id := by
  cases hf : firstMatch (.sharded n) id s.world.mongo with
  | some p =>
    have hp := mem_of_firstMatch hf
    have hnodup : s.world.mongo.docs.Nodup := h.nodup_ids.of_map
    rw [without, hnodup.erase_eq_filter]
    apply List.filter_congr
    intro q hq
    rw [← firstMatch_id hf, Bool.eq_iff_iff, bne_iff_ne, decide_eq_true_eq]
    constructor
    · exact fun hne he => hne (h.eq_of_id hp hq he)
    · rintro hne rfl
      exact hne rfl
  | none =>
    symm
    rw [without, List.filter_eq_self]
    intro q hq
    refine decide_eq_true fun hid => ?_
    rw [h.firstMatch_of_mem hq hid] at hf
    cases hf

theorem Holds.delete (h : Holds live s) (id : String) :
    Holds (live.filter fun m => m.serverId ≠ id) (s.onWorld (deleteMessage id).after) := by
  obtain ⟨hsound, hactive⟩ := sound_deleteFrom h.sound id s.world.mongo.activeCollections
  have hdocs : ((deleteMessage id).after s.world).mongo.docs =
      s.world.mongo.docs.filter fun p => p.2.getStr .serverId ≠ some id :=
    (docs_deleteFrom h.sound id _).trans (h.docs_delete (n := 0) id)
  refine ⟨h.free, hsound, ?_, ?_, h.distinct.sublist (List.filter_sublist.map _)⟩
  · rw [onWorld, hdocs]
    have hmap := congrArg (List.filter fun d : Document => d.getStr .serverId ≠ some id) h.docs
    rw [List.filter_map, List.filter_map] at hmap
    refine hmap.trans (congrArg (List.map toDoc) (List.filter_congr fun m _ => ?_))
    simp
  · intro p hp
    rw [onWorld, hdocs] at hp
    rw [onWorld]
    exact hactive ▸ h.tracked p (List.mem_filter.mp hp).1

/-- One operation keeps the box in step with the list. -/
theorem Holds.step (hn : n ≠ 0) (h : Holds live s) {op : BoxOp} (hquiet : ExpiresNothing s op)
    (hcov : Covered cfg n s op) (hnew : ∀ id, op.savedId = some id → id ∉ live.map Msg.serverId) :
    Holds (op.record live) (s.step cfg n op) := by
  cases op with
  | start => exact h.new hcov
  | maintain =>
    rw [Instance.step]
    split
    · exact h.maintain
    · exact h
  | clean period types =>
    rw [Instance.step, h.free]
    exact h.clean hquiet hcov
  | save message => exact h.save hn hcov (hnew _ rfl)
  | delete id =>
    rw [Instance.step, h.free]
    exact h.delete id
  | get id =>
    obtain ⟨t, hexec, ht⟩ := exec_getMessage (n := n) h.sound id
    rw [Instance.step, h.free]
    refine h.reopened ?_
    rw [Prog.after, hexec]
    exact ht
  | getMessages u start last => exact h.reopened (reopened_getMessages hn h.sound u start last)
  | getMsgs u ss se rs re => exact h.reopened (reopened_getMsgs hn h.sound u ss se rs re)

end Steps

section Runs

/-- A condition on the state before each operation of a sequence. -/
def Throughout (cfg : Config) (n : Nat) (P : Instance → BoxOp → Prop) :
    Instance → List (Int × BoxOp) → Prop
  | _, [] => True
  | s, op :: ops =>
    P (s.atTime op.1) op.2 ∧ Throughout cfg n P ((s.atTime op.1).step cfg n op.2) ops

variable {P : Instance → BoxOp → Prop} {ops : List (Int × BoxOp)}

theorem run_concat (s : Instance) (ops : List (Int × BoxOp)) (op : Int × BoxOp) :
    s.run cfg n (ops ++ [op]) = ((s.run cfg n ops).atTime op.1).step cfg n op.2 :=
  List.foldl_concat _ _ _ _

theorem throughout_append {ops' : List (Int × BoxOp)} : Throughout cfg n P s (ops ++ ops') ↔
    Throughout cfg n P s ops ∧ Throughout cfg n P (s.run cfg n ops) ops' := by
  induction ops generalizing s with
  | nil => simp [Throughout, run]
  | cons op ops ih => rw [List.cons_append, Throughout, ih, Throughout, and_assoc]; rfl

/-- The box holds what it should after every sequence of operations that are covered. -/
theorem holds_run (hn : n ≠ 0) (hids : (savedIds ops).Nodup)
    (hquiet : Throughout cfg n ExpiresNothing fresh ops)
    (hcov : Throughout cfg n (Covered cfg n) fresh ops) :
    Holds (ledger ops) (fresh.run cfg n ops) := by
  induction ops using List.reverseRecOn with
  | nil => exact holds_fresh
  | append_singleton ops op ih =>
    rw [savedIds_append, List.nodup_append] at hids
    obtain ⟨hquiet, hlast, -⟩ := throughout_append.mp hquiet
    obtain ⟨hcov, hcovered, -⟩ := throughout_append.mp hcov
    rw [run_concat, ledger_concat]
    refine ((ih hids.1 hquiet hcov).atTime op.1).step hn hlast hcovered ?_
    intro id hid hin
    obtain ⟨m, hm, rfl⟩ := List.mem_map.mp hin
    refine hids.2.2 _ (ledger_subset hm) m.serverId ?_ rfl
    simp [savedIds, hid]

/-- No look-up returns a message with the identifier. -/
structure NotReturned (cfg : Config) (n : Nat) (id : String) (s : Instance) : Prop where
  byId : s.getMessage id = some (.ok none)
  messages : ∀ now u start last res,
    ((getMessages cfg n u start last).exec (s.atTime now).world).1 = .ok res →
      ∀ m ∈ res, m.serverId ≠ id
  msgs : ∀ now u ss se rs re res,
    ((getMsgs cfg n u ss se rs re).exec (s.atTime now).world).1 = .ok res →
      ∀ m ∈ res, m.serverId ≠ id

theorem Holds.notReturned (hn : n ≠ 0) (h : Holds live s) {id : String}
    (hid : ∀ m ∈ live, m.serverId ≠ id) : NotReturned cfg n id s := by
  have hdoc : ∀ coll (p : Document → Bool) d, d ∈ s.world.mongo.find coll p →
      (Msg.tryFrom d).serverId ≠ id := by
    intro coll p d hd
    obtain ⟨q, hq, rfl⟩ := List.mem_map.mp (List.mem_filter.mp hd).1
    obtain ⟨m, hm, he⟩ := h.exists_msg (List.mem_filter.mp hq).1
    rw [he, Msg.tryFrom_toDoc]
    exact hid m hm
  refine ⟨h.getMessage_none hid, ?_, ?_⟩
  · intro now u start last res hres m hm
    rw [getMessages_result cfg hn (h.atTime now).sound] at hres
    split at hres
    · cases hres
      rw [messagesIn, List.mem_insertionSort, List.mem_map] at hm
      obtain ⟨d, hd, rfl⟩ := hm
      obtain ⟨coll, -, hd⟩ := List.mem_flatMap.mp hd
      exact hdoc coll _ d ((List.mem_insertionSort _).mp hd)
    · cases hres
  · intro now u ss se rs re res hres m hm
    rw [getMsgs_result cfg hn (h.atTime now).sound] at hres
    split at hres
    · cases hres
      rw [msgsIn, List.mem_insertionSort, List.mem_map] at hm
      obtain ⟨d, hd, rfl⟩ := hm
      obtain ⟨coll, -, hd⟩ := List.mem_flatMap.mp hd
      have hne := hdoc coll _ d ((List.mem_insertionSort _).mp hd)
      unfold Msg.shownTo
      split
      · exact hne
      · exact hne
    · cases hres

/-- Messages that have been saved and not deleted are returned, and deleted ones are not. -/
structure FoundById (cfg : Config) (n : Nat) (ops : List (Int × BoxOp)) : Prop where
  kept : ∀ pre now m post, ops = pre ++ (now, .save m) :: post →
    ((saveMessage cfg n m).exec ((fresh.run cfg n pre).atTime now).world).1 = .ok () →
    (∀ op ∈ post, op.2 ≠ .delete m.serverId) →
    (fresh.run cfg n ops).getMessage m.serverId = some (.ok (some m.stored))
  gone : ∀ pre now m mid later post,
    ops = pre ++ (now, .save m) :: (mid ++ (later, .delete m.serverId) :: post) →
    ((saveMessage cfg n m).exec ((fresh.run cfg n pre).atTime now).world).1 = .ok () →
    NotReturned cfg n m.serverId (fresh.run cfg n ops)

/-- Without shards no save succeeds. -/
theorem saveMessage_zero (m : Msg) (w : World) :
    ((saveMessage cfg 0 m).exec w).1 = .error .panic := rfl

/-- Look-ups by identifier work in every sequence of covered operations. -/
theorem found_by_id (cfg : Config) (n : Nat) (ops : List (Int × BoxOp)) (hids : (savedIds ops).Nodup)
    (hquiet : Throughout cfg n ExpiresNothing fresh ops)
    (hcov : Throughout cfg n (Covered cfg n) fresh ops) :
    FoundById cfg n ops := by
  by_cases hn : n = 0
  · subst hn
    constructor
    · intro pre now m post _ hsaved
      rw [saveMessage_zero] at hsaved
      cases hsaved
    · intro pre now m mid later post _ hsaved
      rw [saveMessage_zero] at hsaved
      cases hsaved
  have hheld := holds_run hn hids hquiet hcov
  constructor
  · intro pre now m post he _ hkept
    refine hheld.getMessage_of_mem ?_
    rw [he, List.append_cons]
    apply mem_ledger_append _ hkept
    rw [ledger_concat]
    exact List.mem_append_right _ List.mem_cons_self
  · intro pre now m mid later post he _
    refine hheld.notReturned hn ?_
    rw [he, List.append_cons, ← List.append_assoc, List.append_cons]
    apply notMem_ledger_append
    · intro k hk
      rw [ledger_concat] at hk
      simpa using (List.mem_filter.mp hk).2
    · rw [he, savedIds_append, List.nodup_append] at hids
      have hlater := List.nodup_cons.mp hids.2.1
      rw [← savedIds, savedIds_append, List.mem_append, not_or] at hlater
      exact hlater.1.2

end Runs

/-- A message is saved in the month of the start-up, and a pass of the cleaner follows. -/
def savedInTime : List (Int × BoxOp) := [(0, .start), (0, .save letter), (0, .clean 7 [])]

theorem found_by_id_inTime : FoundById .oneShard 1 savedInTime :=
  found_by_id .oneShard 1 savedInTime (by decide)
    ⟨trivial, trivial, show (_ : List (String × Document)) = _ by decide, trivial⟩
    ⟨by rw [Covered]; decide, fun _ => by decide, by rw [Covered]; decide, trivial⟩

/-- A box is started on the first of May, and a message of the last of April is saved. -/
def savedLate : List (Int × BoxOp) :=
  [(10368000000, .start), (10368000000, .save { letter with sendTime := 10281600 })]

/-- The message is not found, and once it has been deleted its receiver still gets it. -/
theorem found_by_id_late :
    (savedIds savedLate).Nodup ∧ Throughout .oneShard 1 ExpiresNothing fresh savedLate ∧
    ¬ FoundById .oneShard 1 savedLate ∧
    ¬ FoundById .oneShard 1 (savedLate ++ [(10368000000, .delete "m1")]) := by
  refine ⟨by decide, ⟨trivial, trivial, trivial⟩, ?_, ?_⟩
  · intro h
    have hkept := h.kept [(10368000000, .start)] _ _ [] rfl (by decide) (by simp)
    revert hkept
    decide
  · intro h
    have hgone := h.gone [(10368000000, .start)] _ _ [] _ [] rfl (by decide)
    have hres := hgone.messages 10368000000 "b" 1 1 [{ letter with sendTime := 10281600 }] (by decide)
    exact hres _ List.mem_cons_self rfl

end Instance

end Sandcat
