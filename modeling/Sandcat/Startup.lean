import Sandcat.Durability
import Sandcat.Lib.Interleave

/-!
# Processes that start side by side

Every process loads the counters and then serves. The processes share Redis and
Postgres, and their calls interleave in any order. A slow loader can write values
it has read long ago over counters that are in use.
-/

namespace Sandcat

open Remote Consecutive

/-- What a process runs once it has loaded the counters. -/
inductive Serves (cfg : Config) : M Unit → Prop where
  | handle (payload : Payload) : Serves cfg (Consumer.handleMsg cfg payload)
  | gateway (text : Error → String) (nanoid : String) (msg : Msg) :
      Serves cfg (Prog.void (Manager.processMessage cfg text nanoid msg))
  | api (nanoid : String) (u : UserId) (request : Int → Int → SendMsgRequest) :
      Serves cfg (GroupApi.notify cfg nanoid u request)

/-- Processes that are all about to load, before any number is given out. -/
def startingUp {ι : Type} (w : World) : Pool ι World Error :=
  ⟨{ w with scripts := [] }, fun _ => LoadSeq.loadSeq⟩

/-- No counter is beyond the value that a batch holds for it. -/
def Behind (rows : List (UserId × Int × Int)) (w : World) : Prop :=
  ∀ row ∈ rows, (w.redis.hashes (seqKey row.1)).cur ≤ row.2.2 ∧
    (w.redis.hashes (sendSeqKey row.1)).cur ≤ row.2.1

/-- A process about to write a batch finds no counter beyond it. -/
def FreshWrite (w : World) (m : M Unit) : Prop :=
  ∀ rows k, (rows.map Prod.fst).Nodup → m = (Prog.attempt (Cache.setSeq rows) >>= k) →
    Behind rows w

/-- The batch is determined by the write. -/
theorem freshWrite_iff {w : World} {rows : List (UserId × Int × Int)}
    {k : Except Error Unit → M Unit} (hn : (rows.map Prod.fst).Nodup) :
    FreshWrite w (Prog.attempt (Cache.setSeq rows) >>= k) ↔ Behind rows w := by
  constructor
  · intro h
    exact h rows k hn rfl
  · intro hb rows' k' hn' he
    injection he with _ hg _
    have hset : Redis.empty.setSeq rows = Redis.empty.setSeq rows' := by
      have hw := congrFun hg World.empty
      exact congrArg (fun p => p.2.redis) (Except.ok.inj hw)
    intro row hrow
    exact hb row (Redis.mem_of_setSeq_eq hn hn' hset hrow)

/-- In every interleaving, every number under every key is given out once. -/
def NumbersUnique (cfg : Config) (guard : World → M Unit → Prop) : Prop :=
  ∀ (ι : Type) [DecidableEq ι] (w : World) (P : Pool ι World Error),
    (startingUp w).Reachable guard (Serves cfg) P → ∀ key, (P.state.handed key).Nodup

/-- What is given out under a key is behind the counter, and given out once. -/
def Unique (w : World) : Prop :=
  ∀ key, (w.handed key).Nodup ∧ ∀ x ∈ w.handed key, x ≤ (w.redis.hashes key).cur

theorem Unique.bumped {w : World} (h : Unique w) (seqStep : Int) (keys : List String) :
    Unique (w.bumped seqStep keys) := by
  intro key
  obtain ⟨hn, hle⟩ := h key
  rw [World.bumped_handed, World.bumped_hashes, bumps_cur]
  refine ⟨?_, ?_⟩
  · rw [List.nodup_append]
    refine ⟨hn, (pairwise_above _ _).imp fun h => Int.ne_of_lt h, ?_⟩
    intro a ha b hb
    have := hle a ha
    have := (mem_above.mp hb).1
    omega
  · intro x hx
    rw [List.mem_append, mem_above] at hx
    obtain hx | hx := hx
    · have := hle x hx
      omega
    · exact hx.2

/-- A batch that no counter is beyond moves no counter back. -/
theorem Unique.setSeq {w : World} (h : Unique w) {rows : List (UserId × Int × Int)}
    (hb : Behind rows w) : Unique { w with redis := w.redis.setSeq rows } := by
  intro key
  obtain ⟨hn, hle⟩ := h key
  refine ⟨hn, ?_⟩
  intro x hx
  have hcur : x ≤ (w.redis.hashes key).cur := hle x hx
  change x ≤ ((w.redis.setSeq rows).hashes key).cur
  obtain he | ⟨row, hrow, ⟨hk, he⟩ | ⟨hk, he⟩⟩ := w.redis.hashes_setSeq_cases rows key
  · rw [he]
    exact hcur
  · have := (hb row hrow).1
    rw [← hk] at this
    rw [he]
    simp only [SeqHash.cur, Option.getD_some] at *
    omega
  · have := (hb row hrow).2
    rw [← hk] at this
    rw [he]
    simp only [SeqHash.cur, Option.getD_some] at *
    omega

theorem unique_kept (cfg : Config) : Kept cfg Unique where
  mongo _ _ h := h
  push _ _ _ h := h
  sets _ _ h := h
  history _ _ h := h
  recMax _ _ h := h
  script _ us h := h.bumped cfg.seqStep (us.map seqKey)

theorem stable_sendMsg (nanoid : String) (request : SendMsgRequest) :
    Prog.Stable Unique (Producer.sendMsg nanoid request) := by
  apply Prog.stable_of_frame (Producer.frame_sendMsg nanoid request)
  intro s t ht hs
  rw [World.eq_of_outsideQueue ht]
  exact hs

theorem stable_incrSendSeq (cfg : Config) (u : UserId) :
    Prog.Stable Unique (Cache.incrSendSeq cfg u) :=
  Cache.stable_evalSingle fun _ h => h.bumped cfg.seqStep _

theorem Serves.stable {cfg : Config} {m : M Unit} (h : Serves cfg m) : Prog.Stable Unique m := by
  cases h with
  | handle payload => exact (unique_kept cfg).handleMsg payload
  | gateway text nanoid msg =>
    apply Prog.stable_void
    apply Prog.stable_bind (Prog.stable_attempt (stable_incrSendSeq cfg _))
    intro r
    split
    · trivial
    · apply Prog.stable_bind (Prog.stable_attempt (stable_sendMsg _ _))
      intro r
      split <;> trivial
  | api nanoid u request =>
    apply Prog.stable_bind (stable_incrSendSeq cfg u)
    intro reply
    apply Prog.stable_bind (Prog.stable_update fun _ h => h)
    intro now
    exact Prog.stable_void (stable_sendMsg _ _)

/-- The writes of a loader, for rows of distinct users. -/
theorem guarded_loadRows {k : Unit → M Unit} (hk : ∀ a, Prog.Guarded FreshWrite Unique (k a))
    (list rx : List (UserId × Int × Int)) (hn : ((list ++ rx).map Prod.fst).Nodup) :
    Prog.Guarded FreshWrite Unique (LoadSeq.loadRows list rx >>= k) := by
  have hflush : ∀ (rows : List (UserId × Int × Int)) (next : Unit → M Unit),
      (rows.map Prod.fst).Nodup → (∀ a, Prog.Guarded FreshWrite Unique (next a)) →
      Prog.Guarded FreshWrite Unique (LoadSeq.flush rows >>= next) := by
    intro rows next hrows hnext
    rw [LoadSeq.flush, Prog.void, bind_assoc]
    apply Prog.guarded_attempt
    · intro w hw hguard
      exact hw.setSeq (hguard rows _ hrows rfl)
    · intro r
      exact hnext ()
  induction rx generalizing list with
  | nil =>
    rw [List.append_nil] at hn
    unfold LoadSeq.loadRows
    split
    · exact hflush list k hn hk
    · exact hk ()
  | cons item rx ih =>
    rw [List.append_cons] at hn
    unfold LoadSeq.loadRows
    dsimp only
    split
    · rw [List.map_append] at hn
      rw [bind_assoc]
      exact hflush _ _ hn.of_append_left fun _ => ih [] hn.of_append_right
    · exact ih _ hn

theorem guarded_loadSeq : Prog.Guarded FreshWrite Unique LoadSeq.loadSeq := by
  apply Prog.guarded_bind (Prog.stable_update fun _ h => h)
  intro flag
  split
  · trivial
  · apply Prog.guarded_request
    rintro w rows t hw ⟨⟩
    refine ⟨hw, guarded_loadRows ?_ [] _ ?_⟩
    · intro _
      exact Prog.guarded_of_stable (Prog.stable_update fun _ h => h)
    · rw [List.nil_append, Postgres.getMaxSeq, List.map_map]
      exact w.pg.sequence.nodup

/-- As long as every batch is written over counters that are not beyond it, no number is
given out twice. -/
theorem startup_numbers_unique (cfg : Config) : NumbersUnique cfg FreshWrite := by
  intro ι _ w P hP key
  have h := hP.invariant (I := Unique) (fun key => ⟨List.nodup_nil, fun x hx => by cases hx⟩)
    (fun _ => guarded_loadSeq) (fun m hm => Prog.guarded_of_stable hm.stable)
  exact (h.1 key).1

/-- The second process has read the table before the first one serves a message. -/
def lateRead : Pool Bool World Error :=
  let P := ((startingUp twoUsers).advance false 2).advance true 9
  (P.launch true (Consumer.handleMsg .small (.json hello))).advance true 99

/-- It then writes what it has read, and the first one serves another message. -/
def lateWrite : Pool Bool World Error :=
  ((lateRead.advance false 9).launch true
    (Consumer.handleMsg .small (.json hello))).advance true 99

theorem startup_number_repeated : ¬ NumbersUnique .small fun _ _ => True := by
  intro h
  have hloaded : (startingUp twoUsers).Reachable (fun _ _ => True) (Serves .small)
      (((startingUp twoUsers).advance false 2).advance true 9) :=
    (Pool.Reachable.start.advance _ _).advance _ _
  have hread : (startingUp twoUsers).Reachable (fun _ _ => True) (Serves .small) lateRead :=
    (Pool.Reachable.launch true _ hloaded (by decide) (.handle (.json hello))).advance _ _
  have hwrite : (startingUp twoUsers).Reachable (fun _ _ => True) (Serves .small) lateWrite :=
    (Pool.Reachable.launch true _ (hread.advance false 9) (by decide)
      (.handle (.json hello))).advance _ _
  have hn := h Bool twoUsers lateWrite hwrite (seqKey "b")
  have hhanded : lateWrite.state.handed (seqKey "b") = [2, 2] := by decide
  rw [hhanded] at hn
  exact absurd hn (by decide)

end Sandcat
