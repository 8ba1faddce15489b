import Sandcat.Migration
import Sandcat.TwoBoxes

/-!
# What a reader sees after a migration

The same query is put to the single collection before a migration and to the sharded
box after it. A document that was due to the reader has to be found, and no other one.
A document is found if its save reached the server, no earlier one had its key, its
receiver shares the shard of the reader, and its month is one that is read.
-/

namespace Sandcat

open Remote

/-- The arguments of `get_msgs`, with the instant of the call. -/
structure Query where
  now : Int
  userId : UserId
  sendStart : Int
  sendEnd : Int
  recStart : Int
  recEnd : Int

namespace Query

def length (q : Query) : Int := q.sendEnd - q.sendStart + (q.recEnd - q.recStart)

/-- `MsgBox::get_msgs`. -/
def plain (q : Query) (w : World) : Except Error (List Msg) :=
  ((MsgBox.getMsgs q.userId q.sendStart q.sendEnd q.recStart q.recEnd).exec (w.atTime q.now)).1

/-- `HybridShardedMsgBox::get_msgs`. -/
def sharded (q : Query) (cfg : Config) (userShards : Nat) (w : World) : Except Error (List Msg) :=
  ((HybridShardedMsgBox.getMsgs cfg userShards q.userId q.sendStart q.sendEnd q.recStart
    q.recEnd).exec (w.atTime q.now)).1

/-- The message of a transfer as the reader sees it. -/
def shown (q : Query) (s : Transfer) : Msg := (Msg.tryFrom s.doc).shownTo q.userId

/-- The plain box returns the document. -/
def due (q : Query) (s : Transfer) : Bool :=
  matchMsgs (fun start i => start < i) q.userId q.sendStart q.sendEnd q.recStart q.recEnd s.doc

/-- The collection that a transfer writes to is one that is read. -/
def reads (q : Query) (cfg : Config) (userShards : Nat) (s : Transfer) : Bool :=
  HybridShardedMsgBox.rangeOf cfg userShards (Msg.tryFrom s.doc).receiverId =
      HybridShardedMsgBox.rangeOf cfg userShards q.userId ∧
    HybridShardedMsgBox.InWindow q.now
      (HybridShardedMsgBox.writeMonth s.now (Msg.tryFrom s.doc).sendTime)

/-- The sharded box returns the document of a transfer, given whether it was stored. -/
def found (q : Query) (cfg : Config) (userShards : Nat) (x : Transfer × Bool) : Bool :=
  x.2 && q.reads cfg userShards x.1 &&
    matchMsgs (fun start i => start ≤ i) q.userId q.sendStart q.sendEnd q.recStart q.recEnd x.1.doc

/-- A message of the reader to itself. Its number is hidden, so that two of them may look the
same. -/
def toItself (q : Query) (s : Transfer) : Bool :=
  (Msg.tryFrom s.doc).senderId = q.userId ∧ (Msg.tryFrom s.doc).receiverId = q.userId

/-- The document is found if it was due, or of those that look the same as many. -/
def Kept (q : Query) (cfg : Config) (userShards : Nat) (stored : List (Transfer × Bool))
    (x : Transfer × Bool) : Prop :=
  if q.toItself x.1 then
    (stored.countP fun y => q.due y.1 && q.shown y.1 = q.shown x.1) =
      stored.countP fun y => q.found cfg userShards y && q.shown y.1 = q.shown x.1
  else q.found cfg userShards x = q.due x.1

instance (q : Query) (cfg : Config) (n : Nat) (stored : List (Transfer × Bool))
    (x : Transfer × Bool) : Decidable (q.Kept cfg n stored x) :=
  inferInstanceAs (Decidable (ite _ _ _))

end Query

namespace Migrator

/-- The transfers, each with the answer whether its document is stored. -/
def outcomes (cfg : Config) (userShards : Nat) (schedule : List Transfer) : List (Transfer × Bool) :=
  Unique.outcomes (fun s => Mongo.docKey (entry cfg userShards s)) (·.reaches) [] schedule

/-- A migration that succeeds leaves the single collection as it was, and the query finds in the
sharded box what it found there. -/
def ViewPreserved (cfg : Config) (config : MongoConfig) (start : Int) (schedule : List Transfer)
    (store : World) (q : Query) : Prop :=
  ∀ migrated, runMigration cfg config start schedule store = (.ok (), migrated) →
    migrated.mongo.docs.filter (·.1 = Mongo.collSingleBox) =
      store.mongo.docs.filter (·.1 = Mongo.collSingleBox) ∧
    ∀ res, q.plain store = .ok res →
      ∃ res', q.sharded cfg config.shards migrated = .ok res' ∧ res'.Perm res

/-- When a migration to a box preserves the answer to a query. A plain box is the collection that
the migration reads, and nothing of it is found in the shards. -/
def Migratable (cfg : Config) (userShards : Nat) (schedule : List Transfer) (q : Query) : Box → Prop
  | .plain => (∀ s ∈ schedule, s.reaches = false) ∧
      (capacityFits q.length = true → userShards ≠ 0 ∧ ∀ s ∈ schedule, q.due s = false)
  | .sharded n => capacityFits q.length = true →
      if n = 0 then schedule ≠ []
      else ∀ x ∈ outcomes cfg n schedule, q.Kept cfg n (outcomes cfg n schedule) x

instance (cfg : Config) (userShards : Nat) (schedule : List Transfer) (q : Query) :
    ∀ box, Decidable (Migratable cfg userShards schedule q box)
  | .plain => inferInstanceAs (Decidable (_ ∧ _))
  | .sharded n => inferInstanceAs (Decidable (_ → ite (n = 0) _ _))

variable (cfg : Config) (n : Nat) (schedule : List Transfer)

/-- The documents that are stored, read off the outcomes. -/
theorem stored_eq : Unique.enterAll Mongo.docKey [] ((schedule.filter (·.reaches)).map (entry cfg n)) =
    ((outcomes cfg n schedule).filter Prod.snd).map fun x => entry cfg n x.1 := by
  have hmap : Unique.enterAll Mongo.docKey [] ((schedule.filter (·.reaches)).map (entry cfg n)) =
      (Unique.enterAll (fun s => Mongo.docKey (entry cfg n s)) []
        (schedule.filter (·.reaches))).map (entry cfg n) := Unique.enterAll_map _ _ []
  rw [hmap, Unique.enterAll_eq_outcomes, List.map_map]
  rfl

theorem map_fst_outcomes : (outcomes cfg n schedule).map Prod.fst = schedule :=
  Unique.map_fst_outcomes ..

variable {cfg n schedule}

theorem mem_of_mem_outcomes {x : Transfer × Bool} (h : x ∈ outcomes cfg n schedule) :
    x.1 ∈ schedule := by
  rw [← map_fst_outcomes cfg n schedule]
  exact List.mem_map_of_mem h

end Migrator

namespace Query

open Migrator

variable {q : Query} {cfg : Config} {n : Nat} {schedule : List Transfer} {ds : List Document}
  {w : World}

/-- The answer of the plain box. -/
theorem plain_eq (hw : w.EmptyInbox) (hds : (schedule.map (·.doc)).Perm ds) :
    ∃ res, q.plain (w.beside ds) =
        (if capacityFits q.length then .ok res else .error .panic) ∧
      res.Perm ((schedule.filter q.due).map q.shown) := by
  refine ⟨_, MsgBox.getMsgs_result .., (MsgBox.msgsIn_perm ..).trans ?_⟩
  have hdocs : ((w.beside ds).atTime q.now).mongo.docs = ds.map (Mongo.collSingleBox, ·) := by
    change ds.map (Mongo.collSingleBox, ·) ++ w.mongo.docs = _
    rw [hw.docs, List.append_nil]
  rw [hdocs, List.filter_map, List.map_map]
  refine ((hds.symm.filter _).map _).trans (.of_eq ?_)
  rw [List.filter_map, List.map_map]
  simp only [Function.comp_def, decide_true, Bool.true_and]
  rfl

/-- The answer of the sharded box. -/
theorem sharded_eq (ds : List Document) (hn : n ≠ 0) (hsound : w.mongo.Sound) (hnow : 0 ≤ q.now)
    (hdocs : w.mongo.docs = Unique.enterAll Mongo.docKey []
      ((schedule.filter (·.reaches)).map (entry cfg n)))
    (hdoc : ∀ s ∈ schedule, toDoc (Msg.tryFrom s.doc) = s.doc) :
    ∃ res, q.sharded cfg n (w.beside ds) =
        (if capacityFits q.length then .ok res else .error .panic) ∧
      res.Perm (((outcomes cfg n schedule).filter (q.found cfg n)).map fun x => q.shown x.1) := by
  have hblind := Prog.blind_exec (φ := World.beside ds) (HybridShardedMsgBox.blind_getMsgs cfg n
    q.userId q.sendStart q.sendEnd q.recStart q.recEnd) (w.atTime q.now)
  have hanswer : q.sharded cfg n (w.beside ds) = q.sharded cfg n w := by
    have hclock : (w.beside ds).atTime q.now = (w.atTime q.now).beside ds := rfl
    rw [sharded, hclock, hblind]
    rfl
  refine ⟨_, hanswer.trans (HybridShardedMsgBox.getMsgs_result (w := w.atTime q.now) cfg hn hsound ..),
    (HybridShardedMsgBox.msgsIn_perm (w := w.atTime q.now) hnow ..).trans (.of_eq ?_)⟩
  rw [World.atTime_mongo, World.atTime_now, hdocs, stored_eq, List.filter_map, List.filter_filter,
    List.map_map]
  have hfilter : ∀ x ∈ outcomes cfg n schedule, (((fun p : String × Document =>
      decide (p.1 ∈ HybridShardedMsgBox.readNames cfg n q.now q.userId) &&
        matchMsgs (fun start i => start ≤ i) q.userId q.sendStart q.sendEnd q.recStart q.recEnd
          p.2) ∘ fun x : Transfer × Bool => entry cfg n x.1) x && x.2) = q.found cfg n x := by
    intro x hx
    have hx := hdoc x.1 (mem_of_mem_outcomes hx)
    simp only [Function.comp, entry, hx, HybridShardedMsgBox.shelf_mem_readNames hnow]
    rw [found, reads, Bool.and_comm, Bool.and_assoc]
  rw [List.filter_congr hfilter]
  apply List.map_congr_left
  intro x hx
  have hx := hdoc x.1 (mem_of_mem_outcomes (List.mem_of_mem_filter hx))
  rw [Function.comp, entry, hx]
  rfl

theorem toItself_congr {s t : Transfer} (h : q.shown t = q.shown s) :
    q.toItself t = q.toItself s := by
  have hsender : (Msg.tryFrom t.doc).senderId = (Msg.tryFrom s.doc).senderId := by
    simpa [shown] using congrArg Msg.senderId h
  have hreceiver : (Msg.tryFrom t.doc).receiverId = (Msg.tryFrom s.doc).receiverId := by
    simpa [shown] using congrArg Msg.receiverId h
  simp only [toItself, hsender, hreceiver]

/-- What looks the same is due alike, but for messages of the reader to itself. -/
theorem due_congr {s t : Transfer} {a b : Msg} (hs : s.doc = toDoc a) (ht : t.doc = toDoc b)
    (hown : q.toItself s = false) (h : q.shown t = q.shown s) : q.due t = q.due s := by
  simp only [shown, toItself, due, hs, ht, Msg.tryFrom_toDoc] at *
  have hsender : b.senderId = a.senderId := by simpa [Msg.stored] using congrArg Msg.senderId h
  have hreceiver : b.receiverId = a.receiverId := by
    simpa [Msg.stored] using congrArg Msg.receiverId h
  have hsendSeq : b.sendSeq = a.sendSeq := by
    simpa [Msg.stored] using congrArg Msg.sendSeq h
  by_cases hu : a.senderId = q.userId
  · have hother : a.receiverId ≠ q.userId := by
      intro hr
      simp [Msg.stored, hu, hr] at hown
    rw [Bool.eq_iff_iff, Save.matchMsgs_toDoc, Save.matchMsgs_toDoc, hsender, hreceiver, hsendSeq]
    simp [hother]
  · rw [Msg.shownTo_of_ne (by simpa [Msg.stored, hsender] using hu),
      Msg.shownTo_of_ne (by simpa [Msg.stored] using hu)] at h
    have hseq : b.seq = a.seq := by simpa [Msg.stored] using congrArg Msg.seq h
    rw [Bool.eq_iff_iff, Save.matchMsgs_toDoc, Save.matchMsgs_toDoc, hsender, hreceiver, hsendSeq,
      hseq]

/-- The documents that are found look like those that were due exactly if each is kept. -/
theorem perm_iff_kept (hdoc : ∀ s ∈ schedule, ∃ a, s.doc = toDoc a) :
    (((outcomes cfg n schedule).filter (q.found cfg n)).map fun x => q.shown x.1).Perm
        ((schedule.filter q.due).map q.shown) ↔
      ∀ x ∈ outcomes cfg n schedule, q.Kept cfg n (outcomes cfg n schedule) x := by
  have hdue : (schedule.filter q.due).map q.shown =
      ((outcomes cfg n schedule).filter fun x => q.due x.1).map fun x => q.shown x.1 := by
    have hmap := congrArg (fun l => (l.filter q.due).map q.shown)
      (map_fst_outcomes cfg n schedule)
    rw [List.filter_map, List.map_map] at hmap
    exact hmap.symm
  have halike : ∀ x ∈ outcomes cfg n schedule, q.toItself x.1 = false →
      ∀ y ∈ outcomes cfg n schedule, q.shown y.1 = q.shown x.1 → q.due y.1 = q.due x.1 := by
    intro x hx hown y hy he
    obtain ⟨a, ha⟩ := hdoc x.1 (mem_of_mem_outcomes hx)
    obtain ⟨b, hb⟩ := hdoc y.1 (mem_of_mem_outcomes hy)
    exact due_congr ha hb hown he
  rw [List.perm_comm, hdue, Unique.perm_map_filter_iff]
  constructor
  · intro h x hx
    unfold Kept
    split
    · exact h x hx
    · rename_i hown
      have himage := Unique.countP_image_iff (q := q.found cfg n) (halike x hx (by simpa using hown))
      exact himage.mp (h x hx) x hx rfl
  · intro h x hx
    have hkept := h x hx
    unfold Kept at hkept
    split at hkept
    · exact hkept
    · rename_i hown
      have hown : q.toItself x.1 = false := by simpa using hown
      refine (Unique.countP_image_iff (halike x hx hown)).mpr fun y hy he => ?_
      have hy' := h y hy
      rw [Kept, toItself_congr he, hown, if_neg Bool.false_ne_true] at hy'
      exact hy'.trans (halike x hx hown y hy he)

end Query

namespace Migrator

section Store

variable {cfg : Config} {config : MongoConfig} {n : Nat} {start : Int} {schedule : List Transfer}
  {ds : List Document} {w : World} {q : Query}

theorem filter_single (ds : List Document) :
    (ds.map (Mongo.collSingleBox, ·)).filter (·.1 = Mongo.collSingleBox) =
      ds.map (Mongo.collSingleBox, ·) := by
  rw [List.filter_eq_self]
  intro p hp
  obtain ⟨d, -, rfl⟩ := List.mem_map.mp hp
  exact decide_eq_true rfl

/-- The answers to compare, for a migration that succeeds. -/
theorem viewPreserved_iff {migrated : World}
    (hrun : runMigration cfg config start schedule (w.beside ds) = (.ok (), migrated))
    (hw : w.EmptyInbox) (hds : (schedule.map (·.doc)).Perm ds) :
    ViewPreserved cfg config start schedule (w.beside ds) q ↔
      migrated.mongo.docs.filter (·.1 = Mongo.collSingleBox) =
        ds.map (Mongo.collSingleBox, ·) ∧
      (capacityFits q.length = true → ∃ res, q.sharded cfg config.shards migrated = .ok res ∧
        res.Perm ((schedule.filter q.due).map q.shown)) := by
  have hstore : (w.beside ds).mongo.docs.filter (·.1 = Mongo.collSingleBox) =
      ds.map (Mongo.collSingleBox, ·) := by
    change (ds.map (Mongo.collSingleBox, ·) ++ w.mongo.docs).filter _ = _
    rw [hw.docs, List.append_nil, filter_single]
  obtain ⟨res, hplain, hres⟩ := Query.plain_eq (q := q) hw hds
  rw [← hstore]
  constructor
  · intro h
    obtain ⟨hsame, hview⟩ := h migrated hrun
    refine ⟨hsame, fun hfits => ?_⟩
    rw [hplain, if_pos hfits] at hview
    obtain ⟨res', hsharded, hperm⟩ := hview res rfl
    exact ⟨res', hsharded, hperm.trans hres⟩
  · rintro ⟨hsame, hview⟩ t ht
    obtain rfl : migrated = t := congrArg Prod.snd (hrun.symm.trans ht)
    refine ⟨hsame, fun r hr => ?_⟩
    obtain ⟨hfits, rfl⟩ := eq_of_fits hplain hr
    obtain ⟨res', hsharded, hperm⟩ := hview hfits
    exact ⟨res', hsharded, hperm.trans hres.symm⟩

variable (hw : w.EmptyInbox) (hds : (schedule.map (·.doc)).Perm ds)
  (hdoc : ∀ s ∈ schedule, ∃ a, s.doc = toDoc a) (hnow : 0 ≤ q.now)

include hw hds hdoc hnow in
theorem viewPreserved_sharded (htarget : config.target = .sharded n) (hn : n ≠ 0) :
    ViewPreserved cfg config start schedule (w.beside ds) q ↔ (capacityFits q.length = true →
      ∀ x ∈ outcomes cfg n schedule, q.Kept cfg n (outcomes cfg n schedule) x) := by
  obtain ⟨t, hrun, hsound, hdocs⟩ := runMigration_sharded cfg htarget hn hw.sound ds start schedule
  rw [hw.docs] at hdocs
  have hsame : (t.beside ds).mongo.docs.filter (·.1 = Mongo.collSingleBox) =
      ds.map (Mongo.collSingleBox, ·) := by
    change (ds.map (Mongo.collSingleBox, ·) ++ t.mongo.docs).filter _ = _
    rw [List.filter_append, filter_single, hdocs, List.filter_eq_nil_iff.mpr, List.append_nil]
    intro p hp he
    obtain hp | hp := Unique.mem_enterAll hp
    · cases hp
    · obtain ⟨s, -, rfl⟩ := List.mem_map.mp hp
      exact collectionName_ne _ _ (of_decide_eq_true he)
  have hround : ∀ s ∈ schedule, toDoc (Msg.tryFrom s.doc) = s.doc := by
    intro s hs
    obtain ⟨a, ha⟩ := hdoc s hs
    rw [ha]
    rfl
  obtain ⟨res, hanswer, hres⟩ := Query.sharded_eq ds hn hsound hnow hdocs hround
  rw [viewPreserved_iff hrun hw hds, MongoConfig.shards_of_target htarget, and_iff_right hsame]
  apply imp_congr_right
  intro hfits
  rw [hanswer, if_pos hfits, ← Query.perm_iff_kept hdoc]
  constructor
  · rintro ⟨r, hr, hperm⟩
    obtain rfl := Except.ok.inj hr
    exact hres.symm.trans hperm
  · exact fun hperm => ⟨res, rfl, hres.trans hperm⟩

/-- Without shards nothing is read, so a view is preserved where there is nothing to compare. -/
theorem viewPreserved_zero (hw : w.EmptyInbox) (hds : (schedule.map (·.doc)).Perm ds)
    (htarget : config.target = .sharded 0) :
    ViewPreserved cfg config start schedule (w.beside ds) q ↔
      (capacityFits q.length = true → schedule ≠ []) := by
  by_cases hs : schedule = []
  · subst hs
    obtain rfl : ds = [] := hds.symm.eq_nil
    have hrun : runMigration cfg config start [] (w.beside []) =
        (.ok (), (w.atTime start).beside []) := by
      rw [runMigration, htarget]
      exact congrArg (Prod.mk _) (openRepo_zero _)
    rw [viewPreserved_iff hrun hw hds, MongoConfig.shards_of_target htarget]
    constructor
    · rintro ⟨-, hview⟩ hfits
      obtain ⟨res, hres, -⟩ := hview hfits
      cases hres.symm.trans (HybridShardedMsgBox.getMsgs_zero ..)
    · intro hfits
      refine ⟨?_, fun h => absurd rfl (hfits h)⟩
      change (List.filter _ ([] ++ w.mongo.docs)) = []
      rw [hw.docs]
      rfl
  · refine iff_of_true ?_ fun _ => hs
    intro migrated hrun
    have hfail := runMigration_zero (w := w.beside ds) cfg htarget start hs
    rw [hrun] at hfail
    cases hfail

include hw hds hnow in
theorem viewPreserved_plain (htarget : config.target = .plain) :
    ViewPreserved cfg config start schedule (w.beside ds) q ↔
      (∀ s ∈ schedule, s.reaches = false) ∧ (capacityFits q.length = true →
        config.shards ≠ 0 ∧ ∀ s ∈ schedule, q.due s = false) := by
  obtain ⟨last, hrun⟩ := runMigration_plain (w := w.beside ds) cfg htarget hw.plain start schedule
  rw [viewPreserved_iff hrun hw hds]
  have hsame : ((((w.beside ds).atTime last).onMongo (MsgBox.appended ·
      ((schedule.filter (·.reaches)).map fun s => toDoc (Msg.tryFrom s.doc)))).mongo.docs.filter
        (·.1 = Mongo.collSingleBox) = ds.map (Mongo.collSingleBox, ·)) ↔
      ∀ s ∈ schedule, s.reaches = false := by
    change (((ds.map (Mongo.collSingleBox, ·) ++ w.mongo.docs) ++
      (List.map _ _).map (Mongo.collSingleBox, ·)).filter _ = _) ↔ _
    rw [hw.docs, List.append_nil, List.filter_append, filter_single, filter_single]
    simp
  rw [hsame]
  apply and_congr_right
  intro hnone
  have hempty : schedule.filter (·.reaches) = [] := by
    rw [List.filter_eq_nil_iff]
    intro s hs
    rw [hnone s hs]
    exact Bool.false_ne_true
  apply imp_congr_right
  intro hfits
  have hunchanged : ((w.beside ds).atTime last).onMongo (MsgBox.appended · []) =
      (w.atTime last).beside ds := by
    simp [World.beside, World.onMongo, World.atTime, Mongo.beside, MsgBox.appended]
  rw [hempty, List.map_nil, hunchanged]
  by_cases hn : config.shards = 0
  · refine iff_of_false ?_ fun h => h.1 hn
    rintro ⟨res, hres, -⟩
    rw [hn] at hres
    cases hres.symm.trans (HybridShardedMsgBox.getMsgs_zero ..)
  · have hstored : (w.atTime last).mongo.docs = Unique.enterAll Mongo.docKey []
        ((([] : List Transfer).filter (·.reaches)).map (entry cfg config.shards)) := hw.docs
    obtain ⟨res, hanswer, hres⟩ := Query.sharded_eq (q := q) (w := w.atTime last)
      ds hn hw.sound hnow hstored
      fun s hs => absurd hs List.not_mem_nil
    obtain rfl : res = [] := hres.eq_nil
    have hnil : [].Perm ((schedule.filter q.due).map q.shown) ↔ ∀ s ∈ schedule, q.due s = false := by
      rw [List.nil_perm, List.map_eq_nil_iff, List.filter_eq_nil_iff]
      simp
    rw [hanswer, if_pos hfits, and_iff_right hn, ← hnil]
    constructor
    · rintro ⟨r, hr, hperm⟩
      obtain rfl := Except.ok.inj hr
      exact hperm
    · exact fun hperm => ⟨[], rfl, hperm⟩

end Store

/-- Exactly when a migration of a store preserves the answer to a query. -/
theorem view_preserved_iff (cfg : Config) (config : MongoConfig) (w : World) (hw : w.EmptyInbox)
    (saves : List (Int × Save)) (start : Int) (schedule : List Transfer)
    (hschedule : (schedule.map (·.doc)).Perm (MsgBox.filings saves)) (q : Query) (hnow : 0 ≤ q.now) :
    ViewPreserved cfg config start schedule (w.afterSaves { cfg with box := .plain } saves) q ↔
      Migratable cfg config.shards schedule q config.target := by
  have hbox : ({ cfg with box := .plain } : Config).box = .plain := rfl
  obtain ⟨last, hstore⟩ := MsgBox.afterSaves_eq hbox hw.plain saves
  have hbeside : (w.atTime last).onMongo (MsgBox.appended · (MsgBox.filings saves)) =
      (w.atTime last).beside (MsgBox.filings saves) := by
    simp [World.beside, World.onMongo, Mongo.beside, MsgBox.appended, hw.docs]
  have hempty := hw.atTime last
  have hdoc : ∀ s ∈ schedule, ∃ a, s.doc = toDoc a := by
    intro s hs
    have hmem := hschedule.mem_iff.mp (List.mem_map_of_mem hs)
    obtain ⟨save, -, hmem⟩ := List.mem_flatMap.mp hmem
    obtain ⟨a, -, ha⟩ := List.mem_map.mp hmem
    exact ⟨a, ha.symm⟩
  rw [hstore, hbeside]
  cases htarget : config.target with
  | plain => exact viewPreserved_plain hempty hschedule hnow htarget
  | sharded n =>
    by_cases hn : n = 0
    · subst hn
      exact viewPreserved_zero hempty hschedule htarget
    · rw [Migratable, if_neg hn]
      exact viewPreserved_sharded hempty hschedule hdoc hnow htarget hn

end Migrator

/-- The migration of the letter, at the instant at which it was saved. -/
def letterMoved : List Transfer := [⟨0, toDoc letter, true⟩]

namespace Migrator

theorem view_preserved_letter : ViewPreserved .oneShard ⟨none, none⟩ 0 letterMoved
    (World.empty.afterSaves { Config.oneShard with box := .plain } [(0, .single letter)])
    ⟨0, "b", 0, 0, 0, 1⟩ :=
  (view_preserved_iff .oneShard ⟨none, none⟩ World.empty World.emptyInbox_empty
    [(0, .single letter)] 0 letterMoved (.refl _) ⟨0, "b", 0, 0, 0, 1⟩ (by decide)).mpr (by decide)

/-- The letter as the producer stamps it on the first of May 2024, in milliseconds. -/
def stamped : Msg := { letter with sendTime := 1714521600000 }

/-- The view is lost if sharding is turned off, for a sender whose shard is not the receiver's, and
for a receiver whose message carries the time in milliseconds. -/
theorem view_lost :
    ¬ ViewPreserved .oneShard ⟨some false, none⟩ 0 letterMoved
      (World.empty.afterSaves { Config.oneShard with box := .plain } [(0, .single letter)])
      ⟨0, "b", 0, 0, 0, 1⟩ ∧
    ¬ ViewPreserved ⟨1, .plain, fun u => if u = "b" then 1 else 0⟩ ⟨none, none⟩ 0 letterMoved
      (World.empty.afterSaves ⟨1, .plain, fun u => if u = "b" then 1 else 0⟩ [(0, .single letter)])
      ⟨0, "a", 0, 1, 0, 0⟩ ∧
    ¬ ViewPreserved .oneShard ⟨none, none⟩ 1714521600000 [⟨1714521600000, toDoc stamped, true⟩]
      (World.empty.afterSaves { Config.oneShard with box := .plain }
        [(1714521600000, .single stamped)]) ⟨1714521600000, "b", 0, 0, 0, 1⟩ := by
  refine ⟨?_, ?_, ?_⟩
  · intro h
    have hlost := (viewPreserved_plain World.emptyInbox_empty (.refl _) (by decide) rfl).mp h
    revert hlost
    decide
  · intro h
    have hlost := (viewPreserved_sharded World.emptyInbox_empty (.refl _)
      (by simp [letterMoved]) (by decide) rfl (by decide)).mp h
    revert hlost
    decide
  · intro h
    have hlost := (viewPreserved_sharded (World.emptyInbox_empty.atTime 1714521600000) (.refl _)
      (by simp) (by decide) rfl (by decide)).mp h
    revert hlost
    decide

end Migrator

end Sandcat
