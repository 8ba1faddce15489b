import Sandcat.PlainView
import Sandcat.Retrieval

/-!
# Saving a message again

A save that is disturbed has inserted some of its copies. Whatever was lost, the
index has kept the box sound, so a later attempt stores what is missing, provided
that it computes the same collections.
-/

namespace Sandcat

open Remote

theorem faulty_mongoCall {α : Type} {g : Mongo → Except Error (α × Mongo)} {w v : World}
    {r : Except Error α} (h : Prog.Faulty (mongoCall g) w r v) :
    (v = w ∧ ∃ e, r = .error e) ∨
      ∃ a mongo, g w.mongo = .ok (a, mongo) ∧ v = { w with mongo } ∧
        (r = .ok a ∨ ∃ e, r = .error e) := by
  obtain h | ⟨a, ha, hr⟩ := Prog.faulty_request h
  · exact .inl h
  · obtain ⟨⟨b, mongo⟩, hg, he⟩ := eq_ok_of_map ha
    obtain ⟨rfl, rfl⟩ := Prod.mk.inj he
    exact .inr ⟨b, mongo, hg, rfl, hr⟩

namespace HybridShardedMsgBox

variable {cfg : Config} {n : Nat} {w v : World}

/-- Nothing but the collections that are open has changed, and the box is still sound. -/
structure Opens (w v : World) : Prop where
  sound : v.mongo.Sound
  docs : v.mongo.docs = w.mongo.docs
  now : v.now = w.now
  cache : ∀ coll ∈ w.mongo.collectionCache, coll ∈ v.mongo.collectionCache

theorem Opens.refl (h : w.mongo.Sound) : Opens w w := ⟨h, rfl, rfl, fun _ hc => hc⟩

theorem Opens.trans {u : World} (h : Opens w v) (h' : Opens v u) : Opens w u :=
  ⟨h'.sound, h'.docs.trans h.docs, h'.now.trans h.now, fun c hc => h'.cache c (h.cache c hc)⟩

theorem faulty_createIndexes (h : w.mongo.Sound) {coll : String} {r : Except Error Unit}
    (is : List Index)
    (hf : Prog.Faulty (Prog.each (fun i => mongoCall (Mongo.createIndex coll i)) is) w r v) :
    Opens w v ∧ (∀ p ∈ w.mongo.indexes, p ∈ v.mongo.indexes) ∧
      (r = .ok () → ∀ i ∈ is, (coll, i) ∈ v.mongo.indexes) := by
  induction is generalizing w with
  | nil =>
    cases hf
    exact ⟨.refl h, fun _ hp => hp, by simp⟩
  | cons i is ih =>
    have hone : ∀ {t : World} {r' : Except Error Unit},
        Prog.Faulty (mongoCall (Mongo.createIndex coll i)) w r' t → Opens w t ∧
          (∀ p ∈ w.mongo.indexes, p ∈ t.mongo.indexes) ∧
          (r' = .ok () → (coll, i) ∈ t.mongo.indexes) := by
      intro t r' ht
      obtain ⟨rfl, e, rfl⟩ | ⟨a, mongo, hg, rfl, -⟩ := faulty_mongoCall ht
      · exact ⟨.refl h, fun _ hp => hp, fun he => by cases he⟩
      · rw [h.createIndex] at hg
        obtain ⟨-, rfl⟩ := Prod.mk.inj (Except.ok.inj hg)
        exact ⟨⟨⟨fun c hc => List.mem_cons_of_mem _ (h.indexed c hc), h.unique⟩, rfl, rfl,
          fun _ hc => hc⟩, fun p hp => List.mem_cons_of_mem _ hp, fun _ => List.mem_cons_self⟩
    obtain ⟨a, t, ht, hrest⟩ | ⟨e, he, rfl⟩ := Prog.faulty_bind hf
    · obtain ⟨hopen, hmono, hindex⟩ := hone ht
      obtain ⟨hopen', hmono', hindex'⟩ := ih hopen.sound hrest
      refine ⟨hopen.trans hopen', fun p hp => hmono' p (hmono p hp), ?_⟩
      intro hr j hj
      obtain rfl | hj := List.mem_cons.mp hj
      · exact hmono' _ (hindex rfl)
      · exact hindex' hr j hj
    · obtain ⟨hopen, hmono, -⟩ := hone he
      exact ⟨hopen, hmono, fun hr => by cases hr⟩

theorem faulty_ensureCollectionIndexed (h : w.mongo.Sound) {coll : String} {r : Except Error Unit}
    (hf : Prog.Faulty (ensureCollectionIndexed coll) w r v) : Opens w v := by
  obtain ⟨a, t, ht, hcache⟩ | ⟨e, he, rfl⟩ := Prog.faulty_bind hf
  · obtain ⟨hopen, -, hindex⟩ := faulty_createIndexes h _ ht
    obtain ⟨rfl, -⟩ | ⟨a, mongo, hg, rfl, -⟩ := faulty_mongoCall hcache
    · exact hopen
    · obtain ⟨-, rfl⟩ := Prod.mk.inj (Except.ok.inj hg)
      refine hopen.trans ⟨⟨?_, hopen.sound.unique⟩, rfl, rfl, fun c hc => List.mem_cons_of_mem _ hc⟩
      intro c hc
      obtain rfl | hc := List.mem_cons.mp hc
      · exact hindex rfl _ (by simp)
      · exact hopen.sound.indexed c hc
  · exact (faulty_createIndexes h _ he).1

theorem faulty_cached {coll : String} {r : Except Error Bool}
    (hf : Prog.Faulty (cached coll) w r v) :
    v = w ∧ ∀ b, r = .ok b → b = decide (coll ∈ w.mongo.collectionCache) := by
  obtain ⟨rfl, e, rfl⟩ | ⟨a, mongo, hg, rfl, hr⟩ := faulty_mongoCall hf
  · exact ⟨rfl, fun b hb => by cases hb⟩
  · obtain ⟨rfl, rfl⟩ := Prod.mk.inj (Except.ok.inj hg)
    refine ⟨rfl, ?_⟩
    rintro b rfl
    obtain hr | ⟨e, hr⟩ := hr
    · exact Except.ok.inj hr
    · cases hr

/-- A collection that has been handed out is open. -/
theorem faulty_getCollection (h : w.mongo.Sound) {coll : String} {r : Except Error String}
    (hf : Prog.Faulty (getCollection coll) w r v) :
    Opens w v ∧ ∀ c, r = .ok c → c = coll ∧ coll ∈ v.mongo.collectionCache := by
  have hfound : ∀ {t u : World} {b : Bool} {r' : Except Error String},
      b = decide (coll ∈ t.mongo.collectionCache) → ∀ {m : M String},
      Prog.Faulty (if b then pure coll else m) t r' u → (b = true ∧ u = t ∧ r' = .ok coll ∧
        coll ∈ t.mongo.collectionCache) ∨ (b = false ∧ Prog.Faulty m t r' u) := by
    intro t u b r' hb m hm
    cases b with
    | true =>
      cases hm
      exact .inl ⟨rfl, rfl, rfl, by simpa using hb.symm⟩
    | false => exact .inr ⟨rfl, hm⟩
  obtain ⟨b, t, hb, hthen⟩ | ⟨e, he, rfl⟩ := Prog.faulty_bind hf
  · obtain ⟨rfl, hb⟩ := faulty_cached hb
    obtain ⟨-, rfl, rfl, hmem⟩ | ⟨-, hopened⟩ := hfound (hb b rfl) hthen
    · exact ⟨.refl h, fun c hc => ⟨(Except.ok.inj hc).symm, hmem⟩⟩
    · obtain ⟨a, u, hu, hagain⟩ | ⟨e, he, rfl⟩ := Prog.faulty_bind hopened
      · have hopen := faulty_ensureCollectionIndexed h hu
        obtain ⟨b, u', hb, hlast⟩ | ⟨e, he, rfl⟩ := Prog.faulty_bind hagain
        · obtain ⟨rfl, hb⟩ := faulty_cached hb
          obtain ⟨-, rfl, rfl, hmem⟩ | ⟨-, hfail⟩ := hfound (hb b rfl) hlast
          · exact ⟨hopen, fun c hc => ⟨(Except.ok.inj hc).symm, hmem⟩⟩
          · cases hfail
            exact ⟨hopen, fun c hc => by cases hc⟩
        · obtain ⟨rfl, -⟩ := faulty_cached he
          exact ⟨hopen, fun c hc => by cases hc⟩
      · exact ⟨faulty_ensureCollectionIndexed h he, fun c hc => by cases hc⟩
  · obtain ⟨rfl, -⟩ := faulty_cached he
    exact ⟨.refl h, fun c hc => by cases hc⟩

theorem faulty_userCollection (hn : n ≠ 0) {u : UserId} {ts : Int} {r : Except Error String}
    (hf : Prog.Faulty (userCollection cfg n u ts) w r v) :
    v = w ∧ ∀ c, r = .ok c → c = shelf cfg n w.now u ts := by
  obtain ⟨range, t, hrange, hthen⟩ | ⟨e, he, rfl⟩ := Prog.faulty_bind hf
  · have hok := Prog.faulty_request_ok hrange
    rw [getUserRange, if_neg hn] at hok
    obtain ⟨rfl, rfl⟩ := Prod.mk.inj (Except.ok.inj hok)
    obtain ⟨now, t, hnow, hret⟩ | ⟨e, he, rfl⟩ := Prog.faulty_bind hthen
    · obtain ⟨rfl, rfl⟩ := Prod.mk.inj (Except.ok.inj (Prog.faulty_request_ok hnow))
      cases hret
      exact ⟨rfl, fun c hc => (Except.ok.inj hc).symm⟩
    · obtain ⟨rfl, -⟩ | ⟨b, hb, -⟩ := Prog.faulty_request he
      · exact ⟨rfl, fun c hc => by cases hc⟩
      · obtain ⟨-, rfl⟩ := Prod.mk.inj (Except.ok.inj hb)
        exact ⟨rfl, fun c hc => by cases hc⟩
  · obtain ⟨rfl, -⟩ | ⟨b, hb, -⟩ := Prog.faulty_request he
    · exact ⟨rfl, fun c hc => by cases hc⟩
    · rw [getUserRange, if_neg hn] at hb
      obtain ⟨-, rfl⟩ := Prod.mk.inj (Except.ok.inj hb)
      exact ⟨rfl, fun c hc => by cases hc⟩

/-- A copy is given an open collection of its receiver. -/
theorem opens_placeCopies (hn : n ≠ 0) (h : w.mongo.Sound) (messages : List Msg)
    {r : Except Error (List (String × Document))}
    (hf : Prog.Faulty (placeCopies cfg n messages) w r v) :
    Opens w v ∧ ∀ ps, r = .ok ps → ps = placed cfg n w.now messages ∧
      ∀ p ∈ ps, p.1 ∈ v.mongo.collectionCache := by
  induction messages generalizing w v r with
  | nil =>
    cases hf
    refine ⟨.refl h, ?_⟩
    rintro ps hps
    obtain rfl := Except.ok.inj hps
    exact ⟨rfl, by simp⟩
  | cons m messages ih =>
    obtain ⟨name, t, hname, hthen⟩ | ⟨e, he, rfl⟩ := Prog.faulty_bind hf
    · obtain ⟨rfl, hname⟩ := faulty_userCollection hn hname
      obtain ⟨coll, t', hcoll, hnext⟩ | ⟨e, he, rfl⟩ := Prog.faulty_bind hthen
      · obtain ⟨hopen, hcoll⟩ := faulty_getCollection h hcoll
        obtain ⟨rfl, hmem⟩ := hcoll coll rfl
        obtain ⟨rest, t'', hrest, hret⟩ | ⟨e, he, rfl⟩ := Prog.faulty_bind hnext
        · obtain ⟨hopen', hrest⟩ := ih hopen.sound hrest
          obtain ⟨rfl, hcache⟩ := hrest rest rfl
          cases hret
          refine ⟨hopen.trans hopen', ?_⟩
          intro ps hps
          obtain rfl := Except.ok.inj hps
          refine ⟨?_, ?_⟩
          · rw [hname _ rfl, hopen.now]
            rfl
          · intro p hp
            obtain rfl | hp := List.mem_cons.mp hp
            · exact hopen'.cache _ hmem
            · exact hcache p hp
        · exact ⟨hopen.trans (ih hopen.sound he).1, fun ps hps => by cases hps⟩
      · exact ⟨(faulty_getCollection h he).1, fun ps hps => by cases hps⟩
    · obtain ⟨rfl, -⟩ := faulty_userCollection hn he
      exact ⟨.refl h, fun ps hps => by cases hps⟩

/-- Some of the documents have been tried, in their order. -/
structure Inserts (ps : List (String × Document)) (w v : World) : Prop where
  sound : v.mongo.Sound
  cache : v.mongo.collectionCache = w.mongo.collectionCache
  ran : ∃ ran : List (String × Document), ran.Sublist ps ∧
    v.mongo.docs = Unique.enterAll Mongo.docKey w.mongo.docs ran

theorem faulty_insertOne (h : w.mongo.Sound) {coll : String} (hc : coll ∈ w.mongo.collectionCache)
    {d : Document} {r : Except Error Unit} (hf : Prog.Faulty (insertOne coll d) w r v) :
    Inserts [(coll, d)] w v := by
  obtain ⟨rfl, -⟩ | ⟨a, mongo, hg, rfl, -⟩ := faulty_mongoCall hf
  · exact ⟨h, rfl, [], List.nil_sublist _, rfl⟩
  · rw [Mongo.insertOne_indexed (h.indexed coll hc)] at hg
    split at hg
    · cases hg
    · obtain ⟨-, rfl⟩ := Prod.mk.inj (Except.ok.inj hg)
      exact ⟨h.admitted _, rfl, _, List.Sublist.refl _, rfl⟩

theorem faulty_inserts (h : w.mongo.Sound) {ps : List (String × Document)}
    (hc : ∀ p ∈ ps, p.1 ∈ w.mongo.collectionCache) {r : Except Error (List (Except Error Unit))}
    (hf : Prog.Faulty (Prog.all (ps.map fun p => insertOne p.1 p.2)) w r v) : Inserts ps w v := by
  induction ps generalizing w r with
  | nil =>
    cases hf
    exact ⟨h, rfl, [], List.nil_sublist _, rfl⟩
  | cons p ps ih =>
    have hone : ∀ {t : World} {r' : Except Error (Except Error Unit)},
        Prog.Faulty (Prog.attempt (insertOne p.1 p.2)) w r' t → Inserts [p] w t := by
      intro t r' ht
      obtain ⟨a, -, ha⟩ := Prog.faulty_attempt ht
      exact faulty_insertOne h (hc p List.mem_cons_self) ha
    have hthen : ∀ {t : World} {r' : Except Error (List (Except Error Unit))}, Inserts [p] w t →
        Prog.Faulty (Prog.all (ps.map fun p => insertOne p.1 p.2)) t r' v → Inserts (p :: ps) w v := by
      intro t r' ht hrest
      obtain ⟨ran, hsub, hdocs⟩ := ht.ran
      obtain ⟨hsound, hcache, ran', hsub', hdocs'⟩ := ih ht.sound
        (fun q hq => ht.cache ▸ hc q (List.mem_cons_of_mem _ hq)) hrest
      refine ⟨hsound, hcache.trans ht.cache, ran ++ ran', hsub.append hsub', ?_⟩
      rw [hdocs', hdocs, Unique.enterAll_append]
    obtain ⟨a, t, ht, hrest⟩ | ⟨e, he, -⟩ := Prog.faulty_bind hf
    · obtain ⟨rs, t', ht', hret⟩ | ⟨e, he, -⟩ := Prog.faulty_bind hrest
      · cases hret
        exact hthen (hone ht) ht'
      · exact hthen (hone ht) he
    · obtain ⟨a, ha, -⟩ := Prog.faulty_attempt he
      cases ha

theorem faulty_firstFailure {results : List (Except Error Unit)} {r : Except Error Unit}
    (hf : Prog.Faulty (firstFailure results) w r v) : v = w := by
  induction results with
  | nil =>
    cases hf
    rfl
  | cons a results ih =>
    cases a with
    | ok a => exact ih hf
    | error e =>
      cases hf
      rfl

/-- A save that may have been disturbed has tried some of its insertions. -/
theorem faulty_run (hbox : cfg.box = .sharded n) (hn : n ≠ 0) (h : w.mongo.Sound) (s : Save)
    {r : Except Error Unit} (hf : Prog.Faulty (s.run cfg) w r v) :
    v.mongo.Sound ∧ ∃ ran : List (String × Document),
      ran.Sublist (placed cfg n w.now (s.copies (.sharded n))) ∧
        v.mongo.docs = Unique.enterAll Mongo.docKey w.mongo.docs ran := by
  have hnone : ∀ {ps : List (String × Document)} {t : World}, Opens w t → t.mongo.Sound ∧
      ∃ ran : List (String × Document), ran.Sublist ps ∧
        t.mongo.docs = Unique.enterAll Mongo.docKey w.mongo.docs ran :=
    fun ht => ⟨ht.sound, [], List.nil_sublist _, ht.docs⟩
  have hsome : ∀ {ps : List (String × Document)} {t t' : World}, Opens w t → Inserts ps t t' →
      t'.mongo.Sound ∧ ∃ ran : List (String × Document), ran.Sublist ps ∧
        t'.mongo.docs = Unique.enterAll Mongo.docKey w.mongo.docs ran := by
    intro ps t t' ht ht'
    obtain ⟨ran, hsub, hdocs⟩ := ht'.ran
    exact ⟨ht'.sound, ran, hsub, by rw [hdocs, ht.docs]⟩
  cases s with
  | single message =>
    simp only [Save.run, MsgRecBox.saveMessage, hbox] at hf
    obtain ⟨name, t, hname, hthen⟩ | ⟨e, he, -⟩ := Prog.faulty_bind hf
    · obtain ⟨rfl, hname⟩ := faulty_userCollection hn hname
      obtain ⟨coll, t', hcoll, hinsert⟩ | ⟨e, he, -⟩ := Prog.faulty_bind hthen
      · obtain ⟨hopen, hcoll⟩ := faulty_getCollection h hcoll
        obtain ⟨rfl, hmem⟩ := hcoll coll rfl
        obtain rfl := hname _ rfl
        exact hsome hopen (faulty_insertOne hopen.sound hmem hinsert)
      · exact hnone (faulty_getCollection h he).1
    · obtain ⟨rfl, -⟩ := faulty_userCollection hn he
      exact hnone (.refl h)
  | group message members =>
    simp only [Save.run, MsgRecBox.saveGroupMsg, hbox] at hf
    have hcopies : { message with receiverId := message.senderId } ::
        memberMsgs { message with sendSeq := 0 } members =
          groupCopies (.sharded n) message members := by
      rw [memberMsgs_eq]
      rfl
    rw [saveGroupMsg, hcopies] at hf
    obtain ⟨ps, t, hps, hthen⟩ | ⟨e, he, -⟩ := Prog.faulty_bind hf
    · obtain ⟨hopen, hps⟩ := opens_placeCopies hn h _ hps
      obtain ⟨rfl, hcache⟩ := hps ps rfl
      obtain ⟨results, t', ht', hlast⟩ | ⟨e, he, -⟩ := Prog.faulty_bind hthen
      · obtain rfl := faulty_firstFailure hlast
        exact hsome hopen (faulty_inserts hopen.sound hcache ht')
      · exact hsome hopen (faulty_inserts hopen.sound hcache he)
    · exact hnone (opens_placeCopies hn h _ he).1

end HybridShardedMsgBox

namespace Save

/-- The users that a copy is stored for, the sender of a group message among them. -/
def recipients : Save → List UserId
  | single message => [message.receiverId]
  | group message members => message.senderId :: members.map (·.memId)

/-- The same message once more, with other numbers. -/
def Again : Save → Save → Prop
  | single m, single m' => m' = { m with seq := m'.seq }
  | group m members, group m' members' =>
    m' = m ∧ (members'.map (·.memId)).Perm (members.map (·.memId))
  | _, _ => False

theorem map_receiverId_copies (n : Nat) (s : Save) :
    (s.copies (.sharded n)).map (·.receiverId) = s.recipients := by
  cases s with
  | single message => rfl
  | group message members =>
    rw [copies, groupCopies, List.map_cons, List.map_map]
    rfl

theorem Again.refl (s : Save) : s.Again s := by
  cases s with
  | single m => exact rfl
  | group m members => exact ⟨rfl, .rfl⟩

theorem Again.spec {s t : Save} (h : s.Again t) : t.recipients.Perm s.recipients ∧
    t.message.serverId = s.message.serverId ∧ t.message.sendTime = s.message.sendTime := by
  cases s with
  | single m =>
    cases t with
    | single m' =>
      have h : m' = { m with seq := m'.seq } := h
      rw [h]
      exact ⟨.rfl, rfl, rfl⟩
    | group m' members' => cases h
  | group m members =>
    cases t with
    | single m' => cases h
    | group m' members' =>
      obtain ⟨rfl, hmembers⟩ := h
      exact ⟨hmembers.cons _, rfl, rfl⟩

end Save

namespace HybridShardedMsgBox

/-- An attempt to save a message: the clock, the call, and the state it leaves. -/
structure Attempt where
  now : Int
  save : Save
  after : World

/-- Attempts one after another, any call of which may have been lost. -/
def Attempted (cfg : Config) : World → List Attempt → Prop
  | _, [] => True
  | w, a :: as => (∃ r, Prog.Faulty (a.save.run cfg) (w.atTime a.now) r a.after) ∧
      Attempted cfg a.after as

/-- The state that attempts leave. -/
def afterAttempts : World → List Attempt → World
  | w, [] => w
  | _, a :: as => afterAttempts a.after as

/-- A document of the message. -/
def ofMessage (serverId : String) (p : String × Document) : Bool :=
  p.2.getStr .serverId = some serverId

/-- What an attempt stores is a copy of its own and is there at the end. -/
def FirstStays (userShards : Nat) (u : World) : World → List Attempt → Prop
  | _, [] => True
  | w, a :: as => (∀ p ∈ a.after.mongo.docs, p ∉ w.mongo.docs → p ∈ u.mongo.docs ∧
      ∃ c ∈ a.save.copies (.sharded userShards), p.2 = toDoc c) ∧ FirstStays userShards u a.after as

/-- An attempt that stores something is made in a given month. -/
def StoredIn (month : Int) : World → List Attempt → Prop
  | _, [] => True
  | w, a :: as => (a.after.mongo.docs ≠ w.mongo.docs → Chrono.monthOf (a.now / 1000) = month) ∧
      StoredIn month a.after as

/-- The store has one copy for each recipient, the one that was stored first, and everything
else as it was. -/
structure OneCopyEach (userShards : Nat) (s : Save) (w : World) (attempts : List Attempt)
    (u : World) : Prop where
  one : ((u.mongo.docs.filter (ofMessage s.message.serverId)).map
    fun p => p.2.getStr .receiverId).Perm (s.recipients.map some)
  first : FirstStays userShards u w attempts
  others : u.mongo.docs.filter (fun p => !ofMessage s.message.serverId p) = w.mongo.docs

section Attempts

variable {cfg : Config} {n : Nat} {w v : World} {s : Save}

/-- A copy of the message for one of its recipients, where a writer at an instant puts it. -/
def CopyAt (cfg : Config) (userShards : Nat) (s : Save) (now : Int) (p : String × Document) : Prop :=
  ∃ c : Msg, p = (shelf cfg userShards now c.receiverId s.message.sendTime, toDoc c) ∧
    c.receiverId ∈ s.recipients ∧ c.serverId = s.message.serverId

theorem copyAt_of_mem_placed {t : Save} (h : s.Again t) {now : Int} {p : String × Document}
    (hp : p ∈ placed cfg n now (t.copies (.sharded n))) :
    CopyAt cfg n s now p ∧ ∃ c ∈ t.copies (.sharded n), p.2 = toDoc c := by
  obtain ⟨c, hc, rfl⟩ := List.mem_map.mp hp
  obtain ⟨hperm, hserver, htime⟩ := h.spec
  obtain ⟨hcserver, -, hctime⟩ := Save.of_mem_copies hc
  refine ⟨⟨c, ?_, ?_, hcserver.trans hserver⟩, c, hc, rfl⟩
  · rw [hctime, htime]
  · rw [← hperm.mem_iff, ← Save.map_receiverId_copies n]
    exact List.mem_map_of_mem hc

theorem CopyAt.ofMessage {now : Int} {p : String × Document} (h : CopyAt cfg n s now p) :
    ofMessage s.message.serverId p = true := by
  obtain ⟨c, rfl, -, hserver⟩ := h
  simp [HybridShardedMsgBox.ofMessage, hserver]

/-- What holds between attempts: the box is sound, and its documents are the old ones and
copies of the message. -/
structure Midway (cfg : Config) (userShards : Nat) (s : Save) (w v : World) : Prop where
  sound : v.mongo.Sound
  others : v.mongo.docs.filter (fun p => !ofMessage s.message.serverId p) = w.mongo.docs
  copies : ∀ p ∈ v.mongo.docs, ofMessage s.message.serverId p = true → ∃ now, CopyAt cfg userShards s now p

/-- One attempt adds copies of its own. -/
theorem midway_attempt (hbox : cfg.box = .sharded n) (hn : n ≠ 0) (hv : Midway cfg n s w v)
    {a : Attempt} (ha : s.Again a.save) {r : Except Error Unit}
    (hf : Prog.Faulty (a.save.run cfg) (v.atTime a.now) r a.after) :
    Midway cfg n s w a.after ∧ ∃ zs : List (String × Document),
      a.after.mongo.docs = v.mongo.docs ++ zs ∧ ∀ p ∈ zs, CopyAt cfg n s a.now p ∧
        ∃ c ∈ a.save.copies (.sharded n), p.2 = toDoc c := by
  obtain ⟨hsound, ran, hsub, hdocs⟩ := faulty_run hbox hn (w := v.atTime a.now) hv.sound a.save hf
  obtain ⟨zs, hzs, happ⟩ : ∃ zs : List (String × Document), zs.Sublist ran ∧
      Unique.enterAll Mongo.docKey v.mongo.docs ran = v.mongo.docs ++ zs := Unique.enterAll_eq_append
  rw [World.atTime_mongo, happ] at hdocs
  have hnew : ∀ p ∈ zs, CopyAt cfg n s a.now p ∧ ∃ c ∈ a.save.copies (.sharded n), p.2 = toDoc c :=
    fun p hp => copyAt_of_mem_placed ha (hsub.subset (hzs.subset hp))
  refine ⟨⟨hsound, ?_, ?_⟩, zs, hdocs, hnew⟩
  · have hnone : zs.filter (fun p => !ofMessage s.message.serverId p) = [] := by
      rw [List.filter_eq_nil_iff]
      intro p hp
      simp [(hnew p hp).1.ofMessage]
    rw [hdocs, List.filter_append, hnone, List.append_nil]
    exact hv.others
  · intro p hp hmessage
    rw [hdocs] at hp
    obtain hp | hp := List.mem_append.mp hp
    · exact hv.copies p hp hmessage
    · exact ⟨a.now, (hnew p hp).1⟩

/-- Attempts keep what is stored. -/
theorem midway_attempts (hbox : cfg.box = .sharded n) (hn : n ≠ 0) (attempts : List Attempt)
    (hagain : ∀ a ∈ attempts, s.Again a.save) (hv : Midway cfg n s w v)
    (hattempted : Attempted cfg v attempts) :
    Midway cfg n s w (afterAttempts v attempts) ∧
      ∀ p ∈ v.mongo.docs, p ∈ (afterAttempts v attempts).mongo.docs := by
  induction attempts generalizing v with
  | nil => exact ⟨hv, fun _ hp => hp⟩
  | cons a as ih =>
    obtain ⟨⟨r, hf⟩, hrest⟩ := hattempted
    obtain ⟨ha, zs, hdocs, -⟩ := midway_attempt hbox hn hv (hagain a List.mem_cons_self) hf
    obtain ⟨hlast, hkept⟩ := ih (fun b hb => hagain b (List.mem_cons_of_mem _ hb)) ha hrest
    refine ⟨hlast, fun p hp => hkept p ?_⟩
    rw [hdocs]
    exact List.mem_append_left _ hp

/-- Induction over attempts: each adds copies of its own, and the last state has them all. -/
theorem attempts_induction (hbox : cfg.box = .sharded n) (hn : n ≠ 0) {u : World}
    {motive : World → List Attempt → Prop} (nil : ∀ v, motive v [])
    (cons : ∀ v a as zs, a.after.mongo.docs = v.mongo.docs ++ zs →
      (∀ p ∈ zs, CopyAt cfg n s a.now p ∧ ∃ c ∈ a.save.copies (.sharded n), p.2 = toDoc c) →
      (∀ p ∈ a.after.mongo.docs, p ∈ u.mongo.docs) → motive a.after as → motive v (a :: as))
    (attempts : List Attempt) (hagain : ∀ a ∈ attempts, s.Again a.save) (hv : Midway cfg n s w v)
    (hattempted : Attempted cfg v attempts)
    (hu : ∀ p ∈ (afterAttempts v attempts).mongo.docs, p ∈ u.mongo.docs) : motive v attempts := by
  induction attempts generalizing v with
  | nil => exact nil v
  | cons a as ih =>
    obtain ⟨⟨r, hf⟩, hrest⟩ := hattempted
    have hagain' := fun b hb => hagain b (List.mem_cons_of_mem _ hb)
    obtain ⟨ha, zs, hdocs, hnew⟩ := midway_attempt hbox hn hv (hagain a List.mem_cons_self) hf
    have hkept := (midway_attempts hbox hn as hagain' ha hrest).2
    exact cons v a as zs hdocs hnew (fun p hp => hu p (hkept p hp)) (ih hagain' ha hrest hu)

/-- The first that is stored stays. -/
theorem firstStays (hbox : cfg.box = .sharded n) (hn : n ≠ 0) (attempts : List Attempt)
    (hagain : ∀ a ∈ attempts, s.Again a.save) (hv : Midway cfg n s w v)
    (hattempted : Attempted cfg v attempts) {u : World}
    (hu : ∀ p ∈ (afterAttempts v attempts).mongo.docs, p ∈ u.mongo.docs) :
    FirstStays n u v attempts := by
  refine attempts_induction hbox hn (motive := FirstStays n u) ?_ ?_ attempts hagain hv hattempted hu
  · exact fun _ => trivial
  · intro v a as zs hdocs hnew hkept hrest
    refine ⟨?_, hrest⟩
    intro p hp hold
    refine ⟨hkept p hp, ?_⟩
    rw [hdocs] at hp
    exact (hnew p ((List.mem_append.mp hp).resolve_left hold)).2

/-- Two writers put a copy in the same collection if the calendar has its date, or if their
clocks show the same month. -/
theorem shelf_eq_iff (a b : Int) (u : UserId) (ts : Int) :
    shelf cfg n a u ts = shelf cfg n b u ts ↔
      Chrono.fromTimestamp ts ≠ none ∨ Chrono.monthOf (a / 1000) = Chrono.monthOf (b / 1000) := by
  rw [shelf_eq, shelf_eq]
  constructor
  · intro he
    have hmonth := (collectionName_inj (isMonth_writeMonth a ts) (isMonth_writeMonth b ts) he).1
    cases hts : Chrono.fromTimestamp ts with
    | some ym => exact .inl (by simp)
    | none =>
      rw [writeMonth, writeMonth, hts] at hmonth
      exact .inr (congrArg Chrono.monthIndex hmonth)
  · intro he
    congr 1
    rw [writeMonth, writeMonth]
    cases hts : Chrono.fromTimestamp ts with
    | some ym => rfl
    | none =>
      have hmonth := he.resolve_left (fun hne => hne hts)
      exact Chrono.monthIndex_inj (Chrono.isMonth_yearMonth _) (Chrono.isMonth_yearMonth _) hmonth

/-- Every copy is where a writer at the instant puts it. -/
def Settled (cfg : Config) (userShards : Nat) (s : Save) (now : Int) (v : World) : Prop :=
  ∀ p ∈ v.mongo.docs, ofMessage s.message.serverId p = true → CopyAt cfg userShards s now p

theorem settled_attempts (hbox : cfg.box = .sharded n) (hn : n ≠ 0) (attempts : List Attempt)
    (hagain : ∀ a ∈ attempts, s.Again a.save) (hv : Midway cfg n s w v)
    (hattempted : Attempted cfg v attempts) {now : Int}
    (hmonth : Chrono.fromTimestamp s.message.sendTime ≠ none ∨
      StoredIn (Chrono.monthOf (now / 1000)) v attempts) (hsettled : Settled cfg n s now v) :
    Settled cfg n s now (afterAttempts v attempts) := by
  induction attempts generalizing v with
  | nil => exact hsettled
  | cons a as ih =>
    obtain ⟨⟨r, hf⟩, hrest⟩ := hattempted
    obtain ⟨ha, zs, hdocs, hnew⟩ := midway_attempt hbox hn hv (hagain a List.mem_cons_self) hf
    refine ih (fun b hb => hagain b (List.mem_cons_of_mem _ hb)) ha hrest
      (hmonth.imp_right And.right) ?_
    intro p hp hmessage
    rw [hdocs] at hp
    obtain hp | hp := List.mem_append.mp hp
    · exact hsettled p hp hmessage
    · obtain ⟨c, hc, hrecipient, hserver⟩ := (hnew p hp).1
      have hstored : a.after.mongo.docs ≠ v.mongo.docs := by
        rw [hdocs, ne_eq, List.append_right_eq_self]
        exact List.ne_nil_of_mem hp
      refine ⟨c, hc.trans ?_, hrecipient, hserver⟩
      rw [(shelf_eq_iff a.now now c.receiverId _).mpr (hmonth.imp_right fun hin => hin.1 hstored)]

variable {u : World} {now : Int}

/-- The last attempt has left a copy for every recipient. -/
def Complete (cfg : Config) (userShards : Nat) (s : Save) (now : Int) (u : World) : Prop :=
  ∀ r ∈ s.recipients, ∃ q ∈ u.mongo.docs, Mongo.docKey q =
    (shelf cfg userShards now r s.message.sendTime, some s.message.serverId, some r)

theorem one_of_settled (hsound : u.mongo.Sound) (hsettled : Settled cfg n s now u)
    (hcomplete : Complete cfg n s now u) (hdistinct : s.recipients.Nodup) :
    ((u.mongo.docs.filter (ofMessage s.message.serverId)).map
      fun p => p.2.getStr .receiverId).Perm (s.recipients.map some) := by
  have hkey : ∀ p ∈ u.mongo.docs.filter (ofMessage s.message.serverId), Mongo.docKey p =
      (shelf cfg n now ((p.2.getStr .receiverId).getD "") s.message.sendTime,
        some s.message.serverId, p.2.getStr .receiverId) := by
    intro p hp
    obtain ⟨hp, hmessage⟩ := List.mem_filter.mp hp
    obtain ⟨c, rfl, -, hserver⟩ := hsettled p hp hmessage
    simp [Mongo.docKey, Mongo.uniqueKey, hserver]
  have hnodup : ((u.mongo.docs.filter (ofMessage s.message.serverId)).map
      fun p => p.2.getStr .receiverId).Nodup := by
    have hunique := hsound.unique.sublist
      ((List.filter_sublist (p := ofMessage s.message.serverId)).map Mongo.docKey)
    rw [List.map_congr_left hkey] at hunique
    refine List.Nodup.of_map (fun r => (shelf cfg n now (r.getD "") s.message.sendTime,
      some s.message.serverId, r)) ?_
    rw [List.map_map]
    exact hunique
  rw [List.perm_ext_iff_of_nodup hnodup (hdistinct.map (Option.some_injective _))]
  intro r
  constructor
  · intro hr
    obtain ⟨p, hp, rfl⟩ := List.mem_map.mp hr
    obtain ⟨hp, hmessage⟩ := List.mem_filter.mp hp
    obtain ⟨c, rfl, hrecipient, -⟩ := hsettled p hp hmessage
    exact List.mem_map_of_mem hrecipient
  · intro hr
    obtain ⟨r, hrecipient, rfl⟩ := List.mem_map.mp hr
    obtain ⟨q, hq, he⟩ := hcomplete r hrecipient
    have hserver : q.2.getStr .serverId = some s.message.serverId := congrArg (fun k => k.2.1) he
    have hreceiver : q.2.getStr .receiverId = some r := congrArg (fun k => k.2.2) he
    exact List.mem_map.mpr ⟨q, List.mem_filter.mpr ⟨hq, by simp [ofMessage, hserver]⟩, hreceiver⟩

/-- One copy for each recipient leaves no room for a copy in another month. -/
theorem month_of_copy (hdate : Chrono.fromTimestamp s.message.sendTime = none)
    (hcomplete : Complete cfg n s now u)
    (hnodup : ((u.mongo.docs.filter (ofMessage s.message.serverId)).map
      fun p => p.2.getStr .receiverId).Nodup) {m : Int} {p : String × Document}
    (hcopy : CopyAt cfg n s m p) (hp : p ∈ u.mongo.docs) :
    Chrono.monthOf (m / 1000) = Chrono.monthOf (now / 1000) := by
  have hmessage := hcopy.ofMessage
  obtain ⟨c, hc, hrecipient, hserver⟩ := hcopy
  obtain ⟨q, hq, he⟩ := hcomplete c.receiverId hrecipient
  have hqserver : q.2.getStr .serverId = some s.message.serverId := congrArg (fun k => k.2.1) he
  have hqreceiver : q.2.getStr .receiverId = some c.receiverId := congrArg (fun k => k.2.2) he
  have hsame : q = p := List.inj_on_of_nodup_map hnodup
    (List.mem_filter.mpr ⟨hq, by simp [ofMessage, hqserver]⟩)
    (List.mem_filter.mpr ⟨hp, hmessage⟩) (by rw [hqreceiver, hc]; rfl)
  have hshelf : shelf cfg n m c.receiverId s.message.sendTime =
      shelf cfg n now c.receiverId s.message.sendTime := by
    have hcoll := congrArg Prod.fst he
    rw [hsame, hc] at hcoll
    exact hcoll
  exact ((shelf_eq_iff m now _ _).mp hshelf).resolve_left fun hne => hne hdate

theorem storedIn_of_one (hbox : cfg.box = .sharded n) (hn : n ≠ 0)
    (hdate : Chrono.fromTimestamp s.message.sendTime = none) (hdistinct : s.recipients.Nodup)
    (hcomplete : Complete cfg n s now u)
    (hone : ((u.mongo.docs.filter (ofMessage s.message.serverId)).map
      fun p => p.2.getStr .receiverId).Perm (s.recipients.map some)) (attempts : List Attempt)
    (hagain : ∀ a ∈ attempts, s.Again a.save) (hv : Midway cfg n s w v)
    (hattempted : Attempted cfg v attempts)
    (hu : ∀ p ∈ (afterAttempts v attempts).mongo.docs, p ∈ u.mongo.docs) :
    StoredIn (Chrono.monthOf (now / 1000)) v attempts := by
  have hnodup := hone.nodup_iff.mpr (hdistinct.map (Option.some_injective _))
  refine attempts_induction hbox hn (motive := StoredIn (Chrono.monthOf (now / 1000))) ?_ ?_ attempts
    hagain hv hattempted hu
  · exact fun _ => trivial
  · intro v a as zs hdocs hnew hkept hrest
    refine ⟨?_, hrest⟩
    intro hstored
    have hzs : zs ≠ [] := by
      rintro rfl
      exact hstored (hdocs.trans (List.append_nil _))
    obtain ⟨p, hp⟩ := List.exists_mem_of_ne_nil zs hzs
    have hlast : p ∈ u.mongo.docs := hkept p (hdocs ▸ List.mem_append_right _ hp)
    exact month_of_copy hdate hcomplete hnodup (hnew p hp).1 hlast

theorem attempted_append (attempts : List Attempt) (last : Attempt) :
    Attempted cfg w (attempts ++ [last]) ↔ Attempted cfg w attempts ∧
      Attempted cfg (afterAttempts w attempts) [last] := by
  induction attempts generalizing w with
  | nil => simp [Attempted, afterAttempts]
  | cons a as ih => simp [Attempted, afterAttempts, ih, and_assoc]

theorem afterAttempts_append (attempts : List Attempt) (last : Attempt) :
    afterAttempts w (attempts ++ [last]) = last.after := by
  induction attempts generalizing w with
  | nil => rfl
  | cons a as ih => exact ih

/-- The state after the last attempt, which is not disturbed. -/
def redelivered (cfg : Config) (w : World) (attempts : List Attempt) (now : Int) (s : Save) : World :=
  (s.run cfg).after ((afterAttempts w attempts).atTime now)

/-- Attempts, the last of which is not disturbed, leave one copy for each recipient. -/
def LeavesOneCopy (cfg : Config) (userShards : Nat) (w : World) (attempts : List Attempt) (now : Int)
    (s : Save) : Prop :=
  OneCopyEach userShards s w (attempts ++ [⟨now, s, redelivered cfg w attempts now s⟩])
    (redelivered cfg w attempts now s)

/-- Before the first attempt. -/
theorem Midway.start (h : w.mongo.Sound)
    (hfresh : ∀ p ∈ w.mongo.docs, ofMessage s.message.serverId p = false) : Midway cfg n s w w := by
  refine ⟨h, ?_, ?_⟩
  · rw [List.filter_eq_self]
    intro p hp
    rw [hfresh p hp]
    rfl
  · intro p hp hmessage
    rw [hfresh p hp] at hmessage
    cases hmessage

/-- The last attempt stores what is missing. -/
theorem complete_redelivered (hbox : cfg.box = .sharded n) (hn : n ≠ 0) {attempts : List Attempt}
    (h : (afterAttempts w attempts).mongo.Sound) :
    Complete cfg n s now (redelivered cfg w attempts now s) := by
  intro r hr
  rw [← Save.map_receiverId_copies n] at hr
  obtain ⟨c, hc, rfl⟩ := List.mem_map.mp hr
  obtain ⟨hserver, -, htime⟩ := Save.of_mem_copies hc
  have hdocs : (redelivered cfg w attempts now s).mongo.docs = Unique.enterAll Mongo.docKey
      (afterAttempts w attempts).mongo.docs (placed cfg n now (s.copies (.sharded n))) := by
    rw [redelivered, after_run hbox hn (w := (afterAttempts w attempts).atTime now) h]
    exact Mongo.docs_filed _ _
  have hkey : Mongo.docKey (shelf cfg n now c.receiverId c.sendTime, toDoc c) ∈
      (redelivered cfg w attempts now s).mongo.docs.map Mongo.docKey := by
    rw [hdocs, Unique.mem_keys_enterAll]
    exact .inr (List.mem_map_of_mem (List.mem_map_of_mem hc))
  obtain ⟨q, hq, he⟩ := List.mem_map.mp hkey
  refine ⟨q, hq, he.trans ?_⟩
  simp [Mongo.docKey, Mongo.uniqueKey, hserver, htime]

/-- Attempts leave one copy for each recipient exactly if they agree on the collections. -/
theorem one_copy_iff (hbox : cfg.box = .sharded n) (hn : n ≠ 0) (h : w.mongo.Sound) (s : Save)
    (hdistinct : s.recipients.Nodup)
    (hfresh : ∀ p ∈ w.mongo.docs, p.2.getStr .serverId ≠ some s.message.serverId)
    (attempts : List Attempt) (hagain : ∀ a ∈ attempts, s.Again a.save)
    (hattempted : Attempted cfg w attempts) (now : Int) :
    LeavesOneCopy cfg n w attempts now s ↔ Chrono.fromTimestamp s.message.sendTime ≠ none ∨
      StoredIn (Chrono.monthOf (now / 1000)) w attempts := by
  have hnone : ∀ p ∈ w.mongo.docs, ofMessage s.message.serverId p = false := by
    intro p hp
    simpa [ofMessage] using hfresh p hp
  have hstart : Midway cfg n s w w := .start h hnone
  have hsettled : Settled cfg n s now w := by
    intro p hp hmessage
    rw [hnone p hp] at hmessage
    cases hmessage
  obtain ⟨hbefore, -⟩ := midway_attempts hbox hn attempts hagain hstart hattempted
  have hlast : Attempted cfg (afterAttempts w attempts)
      [⟨now, s, redelivered cfg w attempts now s⟩] := ⟨⟨_, Prog.faulty_exec _ _⟩, trivial⟩
  have hall : Attempted cfg w (attempts ++ [⟨now, s, redelivered cfg w attempts now s⟩]) :=
    (attempted_append attempts _).mpr ⟨hattempted, hlast⟩
  have hagainAll : ∀ a ∈ attempts ++ [⟨now, s, redelivered cfg w attempts now s⟩],
      s.Again a.save := by
    intro a ha
    obtain ha | ha := List.mem_append.mp ha
    · exact hagain a ha
    · rw [List.mem_singleton.mp ha]
      exact Save.Again.refl s
  obtain ⟨hend, hkept⟩ := midway_attempts hbox hn [⟨now, s, redelivered cfg w attempts now s⟩]
    (fun a ha => hagainAll a (List.mem_append_right _ ha)) hbefore hlast
  have hcomplete : Complete cfg n s now (redelivered cfg w attempts now s) :=
    complete_redelivered hbox hn hbefore.sound
  constructor
  · intro hone
    by_cases hdate : Chrono.fromTimestamp s.message.sendTime = none
    · exact .inr (storedIn_of_one hbox hn hdate hdistinct hcomplete hone.one attempts hagain hstart
        hattempted hkept)
    · exact .inl hdate
  · intro hmonth
    refine ⟨?_, ?_, hend.others⟩
    · have hsettledBefore := settled_attempts hbox hn attempts hagain hstart hattempted hmonth hsettled
      have hsettledEnd := settled_attempts hbox hn [⟨now, s, redelivered cfg w attempts now s⟩]
        (fun a ha => hagainAll a (List.mem_append_right _ ha)) hbefore hlast
        (.inr ⟨fun _ => rfl, trivial⟩) hsettledBefore
      exact one_of_settled hend.sound hsettledEnd hcomplete hdistinct
    · refine firstStays hbox hn _ hagainAll hstart hall ?_
      rw [afterAttempts_append]
      exact fun p hp => hp

end Attempts

/-- One undisturbed attempt on an empty box. -/
def onceAt (now : Int) (s : Save) : List Attempt :=
  [⟨now, s, (s.run .oneShard).after (World.empty.atTime now)⟩]

theorem onceAt_attempted (now : Int) (s : Save) : Attempted .oneShard World.empty (onceAt now s) :=
  ⟨⟨_, Prog.faulty_exec _ _⟩, trivial⟩

/-- A group message that is saved twice, with a new number the second time. -/
theorem one_copy_circular : LeavesOneCopy .oneShard 1 World.empty
    (onceAt 0 (.group circular [⟨"b", 2, 10, false⟩])) 0 (.group circular [⟨"b", 3, 10, false⟩]) :=
  (one_copy_iff rfl (by decide) Mongo.Sound.empty (.group circular [⟨"b", 3, 10, false⟩]) (by decide)
    (by decide) (onceAt 0 (.group circular [⟨"b", 2, 10, false⟩])) (by simp [onceAt, Save.Again])
    (onceAt_attempted _ _) 0).mpr (.inl (by decide))

/-- A letter with a stamp that no date belongs to. -/
def undated : Save := .single { letter with sendTime := Chrono.endOfCalendar }

/-- Saved in January and again in February, it is stored twice. -/
theorem undated_stored_twice :
    (∀ p ∈ World.empty.mongo.docs, p.2.getStr .serverId ≠ some undated.message.serverId) ∧
    Attempted .oneShard World.empty (onceAt 0 undated) ∧
    ¬ LeavesOneCopy .oneShard 1 World.empty (onceAt 0 undated) 2678400000 undated := by
  refine ⟨by decide, onceAt_attempted 0 undated, ?_⟩
  intro hone
  have hlength := hone.one.length_eq
  revert hlength
  decide

end HybridShardedMsgBox

end Sandcat
