import Sandcat.World
import Sandcat.Lib.Consecutive

/-!
# What a script call does to the counters

Both scripts increment counters one after another: the single script one of them,
the group script the receive counter of each member. Everything later proofs need
of a script is stated here about a list of increments.
-/

namespace Sandcat

open Remote Consecutive

/-- One increment of the counter under a key. -/
def bump (seqStep : Int) (hashes : String → SeqHash) (key : String) : String → SeqHash :=
  Function.update hashes key (singleScript seqStep (hashes key)).1

def bumps (seqStep : Int) (hashes : String → SeqHash) (keys : List String) : String → SeqHash :=
  keys.foldl (bump seqStep) hashes

/-- The numbers the increments give out. -/
def bumpNumbers (seqStep : Int) : (String → SeqHash) → List String → List (String × Int)
  | _, [] => []
  | hashes, key :: keys =>
    (key, (hashes key).cur + 1) :: bumpNumbers seqStep (bump seqStep hashes key) keys

/-- The answer to the increments of the members' receive counters. -/
def groupSeqs (seqStep : Int) : (String → SeqHash) → List UserId → List GroupMemSeq
  | _, [] => []
  | hashes, member :: members =>
    let reply := (singleScript seqStep (hashes (seqKey member))).2
    ⟨member, reply.1, reply.2.1, reply.2.2⟩ ::
      groupSeqs seqStep (bump seqStep hashes (seqKey member)) members

section Bumps

variable (seqStep : Int) (hashes : String → SeqHash)

theorem bump_self (key : String) :
    bump seqStep hashes key key = (singleScript seqStep (hashes key)).1 := by simp [bump]

theorem bump_ne {key k : String} (h : k ≠ key) : bump seqStep hashes key k = hashes k := by
  simp [bump, h]

@[simp] theorem bumps_nil : bumps seqStep hashes [] = hashes := rfl
theorem bumps_cons (key : String) (keys : List String) :
    bumps seqStep hashes (key :: keys) = bumps seqStep (bump seqStep hashes key) keys := rfl

theorem bumps_not_mem {keys : List String} {k : String} (h : k ∉ keys) :
    bumps seqStep hashes keys k = hashes k := by
  induction keys generalizing hashes with
  | nil => rfl
  | cons key keys ih =>
    rw [List.mem_cons, not_or] at h
    rw [bumps_cons, ih _ h.2, bump_ne _ _ h.1]

theorem bumps_mem {keys : List String} {k : String} (hn : keys.Nodup) (h : k ∈ keys) :
    bumps seqStep hashes keys k = (singleScript seqStep (hashes k)).1 := by
  induction keys generalizing hashes with
  | nil => cases h
  | cons key keys ih =>
    rw [List.nodup_cons] at hn
    rw [bumps_cons]
    by_cases he : k = key
    · subst he
      rw [bumps_not_mem _ _ hn.1, bump_self]
    · rw [ih _ hn.2 ((List.mem_cons.mp h).resolve_left he), bump_ne _ _ he]

/-- A counter advances by the number of its increments. -/
theorem bumps_cur (keys : List String) (k : String) :
    (bumps seqStep hashes keys k).cur = (hashes k).cur + keys.count k := by
  induction keys generalizing hashes with
  | nil => simp
  | cons key keys ih =>
    rw [bumps_cons, ih]
    by_cases he : key = k
    · subst he
      rw [bump_self, singleScript_cur, List.count_cons_self]
      omega
    · rw [bump_ne _ _ (Ne.symm he), List.count_cons_of_ne he]

theorem bumps_ok {seqStep : Int} (hstep : 1 ≤ seqStep) {hashes : String → SeqHash}
    (keys : List String) {k : String} (hok : (hashes k).Ok) :
    (bumps seqStep hashes keys k).Ok := by
  induction keys generalizing hashes with
  | nil => exact hok
  | cons key keys ih =>
    rw [bumps_cons]
    apply ih
    by_cases he : k = key
    · subst he
      rw [bump_self]
      exact singleScript_ok hstep hok
    · rw [bump_ne _ _ he]
      exact hok

/-- The numbers given out under one key are the next integers. -/
theorem bumpNumbers_filter (keys : List String) (k : String) :
    ((bumpNumbers seqStep hashes keys).filter (·.1 = k)).map Prod.snd =
      above (hashes k).cur (keys.count k) := by
  induction keys generalizing hashes with
  | nil => rfl
  | cons key keys ih =>
    by_cases he : key = k
    · subst he
      rw [bumpNumbers, List.filter_cons_of_pos (by simp), List.map_cons, ih, bump_self,
        singleScript_cur, List.count_cons_self, above_succ]
    · rw [bumpNumbers, List.filter_cons_of_neg (by simpa using he), ih, bump_ne _ _ (Ne.symm he),
        List.count_cons_of_ne he]

/-- The members are paired with their own numbers, in the order of the list. -/
theorem groupSeqs_memId (members : List UserId) :
    (groupSeqs seqStep hashes members).map (·.memId) = members := by
  induction members generalizing hashes with
  | nil => rfl
  | cons member members ih => rw [groupSeqs, List.map_cons, ih]

/-- Without repetition each member gets what the script gives it alone. -/
theorem groupSeqs_eq_map {members : List UserId} (hn : members.Nodup) :
    groupSeqs seqStep hashes members = members.map fun v =>
      let reply := (singleScript seqStep (hashes (seqKey v))).2
      ⟨v, reply.1, reply.2.1, reply.2.2⟩ := by
  induction members generalizing hashes with
  | nil => rfl
  | cons member members ih =>
    rw [List.nodup_cons] at hn
    rw [groupSeqs, List.map_cons, ih _ hn.2]
    congr 1
    apply List.map_congr_left
    intro v hv
    have hne : seqKey v ≠ seqKey member := by
      rw [Ne, seqKey_inj]
      rintro rfl
      exact hn.1 hv
    rw [bump_ne _ _ hne]

/-- The group script increments the members' counters one after another. -/
theorem groupScript_hashes (members : List UserId) :
    (groupScript seqStep members hashes).2 = bumps seqStep hashes (members.map seqKey) := by
  induction members generalizing hashes with
  | nil => rfl
  | cons member members ih =>
    rw [groupScript, groupScriptBody_eq]
    exact ih _

/-- The loop over the reply never runs out of members. -/
theorem collectSeq_groupScript (members : List UserId) :
    collectSeq members (groupScript seqStep members hashes).1 =
      some (groupSeqs seqStep hashes members) := by
  induction members generalizing hashes with
  | nil => rfl
  | cons member members ih =>
    rw [groupScript, groupScriptBody_eq]
    change (collectSeq members (groupScript seqStep members _).1).map _ = _
    rw [← bump, ih, Option.map_some, groupSeqs]
    cases (singleScript seqStep (hashes (seqKey member))).2.2.2 <;> rfl

theorem groupScript_numbers (members : List UserId) :
    (members.map seqKey).zip ((groupScript seqStep members hashes).1.map Value.curSeq) =
      bumpNumbers seqStep hashes (members.map seqKey) := by
  induction members generalizing hashes with
  | nil => rfl
  | cons member members ih =>
    rw [groupScript, groupScriptBody_eq]
    change (seqKey member, (singleScript seqStep (hashes (seqKey member))).2.1) ::
      (members.map seqKey).zip (List.map _ (groupScript seqStep members _).1) = _
    rw [← bump, ih, singleScript_reply_cur, List.map_cons, bumpNumbers]

end Bumps

namespace World

/-- The state after a script has incremented the counters under some keys. -/
def bumped (w : World) (seqStep : Int) (keys : List String) : World :=
  w.script (bumpNumbers seqStep w.redis.hashes keys) (bumps seqStep w.redis.hashes keys)

@[simp] theorem bumped_hashes (w : World) (seqStep : Int) (keys : List String) :
    (w.bumped seqStep keys).redis.hashes = bumps seqStep w.redis.hashes keys := rfl
@[simp] theorem bumped_handled (w : World) (seqStep : Int) (keys : List String) :
    (w.bumped seqStep keys).handled = w.handled := rfl
@[simp] theorem bumped_pg (w : World) (seqStep : Int) (keys : List String) :
    (w.bumped seqStep keys).pg = w.pg := rfl
@[simp] theorem bumped_mongo (w : World) (seqStep : Int) (keys : List String) :
    (w.bumped seqStep keys).mongo = w.mongo := rfl

theorem numbered_congr {w t : World} (h : t.scripts = w.scripts) (k : String) :
    t.numbered k = w.numbered k := by rw [numbered, h, numbered]

theorem handed_congr {w t : World} (h : t.scripts = w.scripts) (k : String) :
    t.handed k = w.handed k := by rw [handed, numbered_congr h, handed]

theorem bumped_scripts (w : World) (seqStep : Int) (keys : List String) :
    (w.bumped seqStep keys).scripts = w.scripts ++
      [⟨w.handled, bumpNumbers seqStep w.redis.hashes keys, bumps seqStep w.redis.hashes keys⟩] :=
  rfl

theorem bumped_numbered (w : World) (seqStep : Int) (keys : List String) (k : String) :
    (w.bumped seqStep keys).numbered k = w.numbered k ++
      (above (w.redis.hashes k).cur (keys.count k)).map fun n => (w.handled, n) := by
  rw [numbered, bumped_scripts, List.flatMap_append, List.flatMap_singleton, ← bumpNumbers_filter,
    List.map_map]
  rfl

theorem bumped_handed (w : World) (seqStep : Int) (keys : List String) (k : String) :
    (w.bumped seqStep keys).handed k =
      w.handed k ++ above (w.redis.hashes k).cur (keys.count k) := by
  rw [handed, bumped_numbered, List.map_append, List.map_map, handed]
  congr 1
  exact List.map_id _

end World

namespace Cache

theorem evalSingle_eq (cfg : Config) (key : String) :
    evalSingle cfg key = Prog.update fun w =>
      ((singleScript cfg.seqStep (w.redis.hashes key)).2, w.bumped cfg.seqStep [key]) := by
  unfold evalSingle
  congr 1
  funext w
  simp only [World.bumped, bumpNumbers, singleScript_reply_cur]
  rfl

theorem ensures_evalSingle {cfg : Config} {key : String} {w : World}
    {Q : Except Error (Int × Int × Bool) → World → Prop}
    (h : Q (.ok (singleScript cfg.seqStep (w.redis.hashes key)).2) (w.bumped cfg.seqStep [key])) :
    Prog.Ensures (evalSingle cfg key) w Q := by
  rw [evalSingle_eq]
  exact Prog.ensures_update h

theorem stable_evalSingle {cfg : Config} {key : String} {I : World → Prop}
    (h : ∀ w, I w → I (w.bumped cfg.seqStep [key])) : Prog.Stable I (evalSingle cfg key) := by
  rw [evalSingle_eq]
  exact Prog.stable_update h

/-- What becomes of a script call: nothing, the increment with its answer, or the
increment without one. -/
theorem faulty_evalSingle {cfg : Config} {key : String} {w t : World}
    {r : Except Error (Int × Int × Bool)} (h : Prog.Faulty (evalSingle cfg key) w r t) :
    (t = w ∧ ∃ e, r = .error e) ∨
      t = w.bumped cfg.seqStep [key] ∧
        (r = .ok (singleScript cfg.seqStep (w.redis.hashes key)).2 ∨ ∃ e, r = .error e) := by
  rw [evalSingle_eq] at h
  obtain ⟨rfl, e, rfl⟩ | ⟨b, hb, hr⟩ := Prog.faulty_request h
  · exact .inl ⟨rfl, e, rfl⟩
  · cases hb
    exact .inr ⟨rfl, hr⟩

theorem evalGroup_eq (cfg : Config) (members : List UserId) :
    evalGroup cfg members = Prog.update fun w =>
      ((groupScript cfg.seqStep members w.redis.hashes).1,
        w.bumped cfg.seqStep (members.map seqKey)) := by
  unfold evalGroup
  congr 1
  funext w
  rw [World.bumped, ← groupScript_numbers, ← groupScript_hashes]

/-- The cache answers with every member and its number. -/
theorem ensures_incrGroupSeq {cfg : Config} {members : List UserId} {w : World}
    {Q : Except Error (List GroupMemSeq) → World → Prop}
    (h : Q (.ok (groupSeqs cfg.seqStep w.redis.hashes members))
      (w.bumped cfg.seqStep (members.map seqKey))) :
    Prog.Ensures (incrGroupSeq cfg members) w Q := by
  apply Prog.ensures_bind
  rw [evalGroup_eq]
  apply Prog.ensures_update
  simp only [collectSeq_groupScript]
  exact Prog.ensures_ret h

theorem stable_incrGroupSeq {cfg : Config} {members : List UserId} {I : World → Prop}
    (h : ∀ w, I w → I (w.bumped cfg.seqStep (members.map seqKey))) :
    Prog.Stable I (incrGroupSeq cfg members) := by
  apply Prog.stable_bind
  · rw [evalGroup_eq]
    exact Prog.stable_update h
  · intro response
    cases collectSeq members response <;> trivial

theorem faulty_incrGroupSeq {cfg : Config} {members : List UserId} {w t : World}
    {r : Except Error (List GroupMemSeq)} (h : Prog.Faulty (incrGroupSeq cfg members) w r t) :
    (t = w ∧ ∃ e, r = .error e) ∨
      t = w.bumped cfg.seqStep (members.map seqKey) ∧
        (r = .ok (groupSeqs cfg.seqStep w.redis.hashes members) ∨ ∃ e, r = .error e) := by
  unfold incrGroupSeq at h
  rw [evalGroup_eq] at h
  obtain ⟨response, s, hs, hf⟩ | ⟨e, hs, rfl⟩ := Prog.faulty_bind h
  · obtain ⟨-, e, he⟩ | ⟨b, hb, hr⟩ := Prog.faulty_request hs
    · cases he
    · cases hb
      obtain hr | ⟨e, he⟩ := hr
      · cases hr
        simp only [collectSeq_groupScript] at hf
        cases hf
        exact .inr ⟨rfl, .inl rfl⟩
      · cases he
  · obtain ⟨rfl, e', he⟩ | ⟨b, hb, hr⟩ := Prog.faulty_request hs
    · exact .inl ⟨rfl, e, rfl⟩
    · cases hb
      exact .inr ⟨rfl, .inr ⟨e, rfl⟩⟩

end Cache

end Sandcat
