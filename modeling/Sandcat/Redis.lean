import Sandcat.Message
import Mathlib.Logic.Function.Basic

/-!
# The Redis store

Counters are hashes under `seq:{user}` and `send_seq:{user}`, cached member sets
live under `group_members_id:{group}`, and one string marks that the counters were
loaded. The two Lua scripts are written branch by branch; a script runs atomically,
so each is one function of the store. Counters are taken below `2 ^ 53`, where the
doubles of a script are exact; `Sandcat.Scripts` has the scripts without this bound.
-/

namespace Sandcat

/-- The two fields of a counter hash. Either may be missing. -/
structure SeqHash where
  curSeq : Option Int := none
  maxSeq : Option Int := none
  deriving DecidableEq, Repr

/-- A set of strings with the order in which `SMEMBERS` lists it. -/
structure MemberSet where
  elems : List String
  nodup : elems.Nodup

namespace MemberSet

def empty : MemberSet := ⟨[], List.nodup_nil⟩

instance : EmptyCollection MemberSet := ⟨empty⟩

instance : Membership String MemberSet := ⟨fun s v => v ∈ s.elems⟩

/-- `SADD key member`. -/
def sadd (s : MemberSet) (v : String) : MemberSet :=
  if h : v ∈ s.elems then s else ⟨v :: s.elems, List.nodup_cons.mpr ⟨h, s.nodup⟩⟩

/-- `SREM key member ...`. -/
def srem (s : MemberSet) (vs : List String) : MemberSet :=
  ⟨s.elems.filter (· ∉ vs), s.nodup.filter _⟩

@[simp] theorem mem_elems (s : MemberSet) (v : String) : v ∈ s.elems ↔ v ∈ s := Iff.rfl

@[simp] theorem not_mem_empty (v : String) : v ∉ (∅ : MemberSet) := List.not_mem_nil

@[simp] theorem mem_sadd (s : MemberSet) (v w : String) : w ∈ s.sadd v ↔ w = v ∨ w ∈ s := by
  simp only [← mem_elems, sadd]
  split
  · rename_i h
    constructor
    · exact .inr
    · rintro (rfl | hw)
      · exact h
      · exact hw
  · simp

@[simp] theorem mem_srem (s : MemberSet) (vs : List String) (w : String) :
    w ∈ s.srem vs ↔ w ∈ s ∧ w ∉ vs := by
  simp only [← mem_elems, srem, List.mem_filter, decide_eq_true_eq]

theorem elems_eq_nil (s : MemberSet) : s.elems = [] ↔ ∀ v, v ∉ s := List.eq_nil_iff_forall_not_mem

end MemberSet

structure Redis where
  hashes : String → SeqHash
  sets : String → MemberSet
  strings : String → Option String

/-- `format!("seq:{}", user_id)`. -/
def seqKey (user : UserId) : String := "seq:" ++ user
def sendSeqKey (user : UserId) : String := "send_seq:" ++ user

def groupMembersIdPrefix : String := "group_members_id"
def groupMembersKey (group : GroupId) : String := groupMembersIdPrefix ++ ":" ++ group

@[simp] theorem seqKey_inj {u v : UserId} : seqKey u = seqKey v ↔ u = v := by simp [seqKey]
@[simp] theorem sendSeqKey_inj {u v : UserId} : sendSeqKey u = sendSeqKey v ↔ u = v := by
  simp [sendSeqKey]
@[simp] theorem groupMembersKey_inj {g h : GroupId} :
    groupMembersKey g = groupMembersKey h ↔ g = h := by simp [groupMembersKey]

theorem sendSeqKey_ne_seqKey (u v : UserId) : sendSeqKey u ≠ seqKey v := by
  intro h
  have hl := congrArg String.toList h
  have hs : "send_seq:".toList = ['s', 'e', 'n', 'd', '_', 's', 'e', 'q', ':'] := by decide
  have hr : "seq:".toList = ['s', 'e', 'q', ':'] := by decide
  rw [sendSeqKey, seqKey, String.toList_append, String.toList_append, hs, hr] at hl
  simp at hl

namespace SeqHash

/-- `HINCRBY key cur_seq 1` counts from zero. -/
def cur (h : SeqHash) : Int := h.curSeq.getD 0

/-- Both fields are missing, or the current number is within the ceiling. -/
def Ok (h : SeqHash) : Prop :=
  (h.curSeq = none ∧ h.maxSeq = none) ∨
    ∃ c m, h.curSeq = some c ∧ h.maxSeq = some m ∧ c ≤ m

/-- The next increment opens a new block. -/
def Full (h : SeqHash) : Prop := ∃ c m, h.curSeq = some c ∧ h.maxSeq = some m ∧ m ≤ c

instance (h : SeqHash) : Decidable h.Full :=
  match hc : h.curSeq, hm : h.maxSeq with
  | some c, some m => decidable_of_iff (m ≤ c) (by simp [Full, hc, hm])
  | none, _ => isFalse (by simp [Full, hc])
  | some _, none => isFalse (by simp [Full, hm])

end SeqHash

/-- The script of `single_script_load` on the hash `KEYS[1]`:
the new hash and the reply `{cur_seq, max_seq, updated}`, for counters below `2 ^ 53`. -/
def singleScript (seqStep : Int) (h : SeqHash) : SeqHash × Int × Int × Bool :=
  let curSeq := h.cur + 1
  let h := { h with curSeq := some curSeq }
  let (maxSeq, h) :=
    match h.maxSeq with
    | none => (seqStep, { h with maxSeq := some seqStep })
    | some maxSeq => (maxSeq, h)
  if curSeq > maxSeq then
    let maxSeq := maxSeq + seqStep
    ({ h with maxSeq := some maxSeq }, curSeq, maxSeq, true)
  else (h, curSeq, maxSeq, false)

/-- One turn of the loop in the script of `group_script_load`, for counters below `2 ^ 53`. -/
def groupScriptBody (seqStep : Int) (h : SeqHash) : SeqHash × Int × Int × Int :=
  let curSeq := h.cur + 1
  let h := { h with curSeq := some curSeq }
  let (maxSeq, h) :=
    match h.maxSeq with
    | none => (seqStep, { h with maxSeq := some seqStep })
    | some maxSeq => (maxSeq, h)
  if curSeq > maxSeq then
    let maxSeq := maxSeq + seqStep
    ({ h with maxSeq := some maxSeq }, curSeq, maxSeq, 1)
  else (h, curSeq, maxSeq, 0)

/-- A reply of the server, as far as the scripts produce one. -/
inductive Value where
  | nil : Value
  | int : Int → Value
  | data : String → Value
  | bulk : List Value → Value

/-- The number at the head of a script's entry. -/
def Value.curSeq : Value → Int
  | .bulk (.int curSeq :: _) => curSeq
  | _ => 0

/-- The script of `group_script_load` over the members in `ARGV[2..]`. -/
def groupScript (seqStep : Int) : List UserId → (String → SeqHash) →
    List Value × (String → SeqHash)
  | [], hashes => ([], hashes)
  | member :: members, hashes =>
    let (h, curSeq, maxSeq, updated) := groupScriptBody seqStep (hashes (seqKey member))
    let (result, hashes) := groupScript seqStep members (Function.update hashes (seqKey member) h)
    (.bulk [.int curSeq, .int maxSeq, .int updated] :: result, hashes)

/-- The loop of `incr_group_seq` over the response, which takes the next member off
the front for each entry of the expected shape. `none` is the panic of `remove(0)`. -/
def collectSeq : List UserId → List Value → Option (List GroupMemSeq)
  | _, [] => some []
  | members, .bulk [.int curSeq, .int maxSeq, .int updated] :: response =>
    match members with
    | [] => none
    | member :: members =>
      (collectSeq members response).map (⟨member, curSeq, maxSeq, updated != 0⟩ :: ·)
  | members, _ :: response => collectSeq members response

namespace Redis

def empty : Redis := ⟨fun _ => {}, fun _ => ∅, fun _ => none⟩

/-- The cached members of a group. -/
def members (r : Redis) (g : GroupId) : MemberSet := r.sets (groupMembersKey g)

def setMembers (r : Redis) (g : GroupId) (s : MemberSet) : Redis :=
  { r with sets := Function.update r.sets (groupMembersKey g) s }

@[simp] theorem members_setMembers_same (r : Redis) (g : GroupId) (s : MemberSet) :
    (r.setMembers g s).members g = s := by simp [members, setMembers]
theorem members_setMembers (r : Redis) (g h : GroupId) (s : MemberSet) :
    (r.setMembers g s).members h = if h = g then s else r.members h := by
  simp [members, setMembers, Function.update_apply]
@[simp] theorem hashes_setMembers (r : Redis) (g : GroupId) (s : MemberSet) :
    (r.setMembers g s).hashes = r.hashes := rfl

/-- `check_seq_loaded` answers whether loading is still needed. -/
def checkSeqLoaded (r : Redis) : Bool := r.strings "seq_need_load" != some "false"

def setSeqLoaded (r : Redis) : Redis :=
  { r with strings := Function.update r.strings "seq_need_load" (some "false") }

/-- One row of the pipeline of `set_seq`. -/
def setSeqRow (r : Redis) (row : UserId × Int × Int) : Redis :=
  { r with
    hashes := Function.update
      (Function.update r.hashes (sendSeqKey row.1) ⟨some row.2.1, some row.2.1⟩)
      (seqKey row.1) ⟨some row.2.2, some row.2.2⟩ }

def setSeq (r : Redis) (maxSeq : List (UserId × Int × Int)) : Redis := maxSeq.foldl setSeqRow r

/-- `get_send_seq` reads zero for a missing field. -/
def getSendSeq (r : Redis) (u : UserId) : Int × Int :=
  let h := r.hashes (sendSeqKey u)
  (h.curSeq.getD 0, h.maxSeq.getD 0)

end Redis

@[simp] theorem singleScript_curSeq (seqStep : Int) (h : SeqHash) :
    (singleScript seqStep h).1.curSeq = some (h.cur + 1) := by
  unfold singleScript
  cases h.maxSeq <;> dsimp only <;> split <;> rfl

@[simp] theorem singleScript_cur (seqStep : Int) (h : SeqHash) :
    (singleScript seqStep h).1.cur = h.cur + 1 := by
  simp only [SeqHash.cur, singleScript_curSeq, Option.getD_some]

@[simp] theorem singleScript_reply_cur (seqStep : Int) (h : SeqHash) :
    (singleScript seqStep h).2.1 = h.cur + 1 := by
  unfold singleScript
  cases h.maxSeq <;> dsimp only <;> split <;> rfl

/-- The two scripts do the same to a hash and report the roll-over as `true` and `1`. -/
theorem groupScriptBody_eq (seqStep : Int) (h : SeqHash) :
    groupScriptBody seqStep h =
      ((singleScript seqStep h).1, (singleScript seqStep h).2.1, (singleScript seqStep h).2.2.1,
        if (singleScript seqStep h).2.2.2 then 1 else 0) := by
  unfold groupScriptBody singleScript
  cases h.maxSeq <;> dsimp only <;> split <;> rfl

theorem singleScript_new {seqStep : Int} (hstep : 1 ≤ seqStep) :
    (singleScript seqStep {}).1 = ⟨some 1, some seqStep⟩ := by
  have h : ¬ (0 : Int) + 1 > seqStep := by omega
  change (if (0 : Int) + 1 > seqStep then _ else _ : SeqHash × Int × Int × Bool).1 = _
  rw [if_neg h]
  rfl

theorem singleScript_within (seqStep : Int) {c m : Int} (h : c < m) :
    (singleScript seqStep ⟨some c, some m⟩).1 = ⟨some (c + 1), some m⟩ := by
  have h' : ¬ c + 1 > m := by omega
  change (if c + 1 > m then _ else _ : SeqHash × Int × Int × Bool).1 = _
  rw [if_neg h']
  rfl

theorem singleScript_full (seqStep : Int) {c m : Int} (h : m ≤ c) :
    (singleScript seqStep ⟨some c, some m⟩).1 = ⟨some (c + 1), some (m + seqStep)⟩ := by
  have h' : c + 1 > m := by omega
  change (if c + 1 > m then _ else _ : SeqHash × Int × Int × Bool).1 = _
  rw [if_pos h']
  rfl

/-- Every branch of the script leaves the pair within the ceiling. -/
theorem singleScript_ok {seqStep : Int} (hstep : 1 ≤ seqStep) {h : SeqHash} (hok : h.Ok) :
    (singleScript seqStep h).1.Ok := by
  obtain ⟨hc, hm⟩ | ⟨c, m, hc, hm, hle⟩ := hok
  · simp only [singleScript, SeqHash.cur, hc, hm, Option.getD_none]
    rw [if_neg (by omega)]
    exact .inr ⟨1, seqStep, rfl, rfl, hstep⟩
  · simp only [singleScript, SeqHash.cur, hc, hm, Option.getD_some]
    split
    · exact .inr ⟨c + 1, m + seqStep, rfl, rfl, by omega⟩
    · exact .inr ⟨c + 1, m, rfl, rfl, by omega⟩

/-- The script asks for a database bump exactly when it leaves a full block. -/
theorem singleScript_updated {seqStep : Int} (hstep : 1 ≤ seqStep) {h : SeqHash} (hok : h.Ok) :
    (singleScript seqStep h).2.2.2 = true ↔ h.Full := by
  obtain ⟨hc, hm⟩ | ⟨c, m, hc, hm, hle⟩ := hok
  · simp only [singleScript, SeqHash.cur, hc, hm, Option.getD_none, SeqHash.Full]
    rw [if_neg (by omega)]
    simp
  · simp only [singleScript, SeqHash.cur, hc, hm, Option.getD_some, SeqHash.Full]
    split
    · simp only [true_iff]
      exact ⟨c, m, rfl, rfl, by omega⟩
    · simp only [Bool.false_eq_true, false_iff]
      rintro ⟨c', m', hc', hm', hle'⟩
      cases hc'
      cases hm'
      omega

end Sandcat
