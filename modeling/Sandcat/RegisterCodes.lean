import Mathlib.Data.List.Chain
import Mathlib.Data.List.Induction
import Sandcat.Lib.Table

/-!
# Verification codes

The codes of all addresses are fields of one hash, and the hash has one deadline, which every
save moves. A code therefore outlives its five minutes for as long as saves for any address
follow each other closely enough. Instants are in milliseconds.
-/

namespace Sandcat

/-- The hash under `register_code`, and the instant at which it is removed. -/
structure CodeHash where
  codes : Table (Prod.fst : String × String → String)
  expireAt : Option Int

/-- The key `register_code`. -/
abbrev CodeKey := Option CodeHash

/-- `REGISTER_CODE_EXPIRE`, in seconds. -/
def registerCodeExpire : Int := 300

namespace CodeKey

/-- The key as a command finds it. -/
def present (now : Int) (key : CodeKey) : CodeKey := key.filter fun h => h.expireAt.all (now < ·)

def setCode (code : String) (field : String × String) : String × String := (field.1, code)

/-- `HSET register_code email code`. -/
def hset (email code : String) (key : CodeKey) : CodeKey :=
  let h := key.getD ⟨∅, none⟩
  some { h with codes := h.codes.upsert (email, code) (setCode code) fun _ => rfl }

/-- `EXPIRE register_code`, with the deadline that it sets. -/
def expire (deadline : Int) (key : CodeKey) : CodeKey :=
  key.map fun h => { h with expireAt := some deadline }

/-- `HGET register_code email`. -/
def hget (email : String) (key : CodeKey) : Option String :=
  key.bind fun h => (h.codes.find email).map Prod.snd

/-- `HDEL register_code email`, which removes the key with its last field. -/
def hdel (email : String) (key : CodeKey) : CodeKey :=
  key.bind fun h =>
    let codes := h.codes.delete fun field => field.1 = email
    if codes.rows = [] then none else some { h with codes }

/-- `save_register_code`. -/
def saveRegisterCode (now : Int) (email code : String) (key : CodeKey) : CodeKey :=
  ((key.present now).hset email code).expire (now + registerCodeExpire * 1000)

/-- `get_register_code`. -/
def getRegisterCode (now : Int) (email : String) (key : CodeKey) : Option String :=
  (key.present now).hget email

/-- `del_register_code`. -/
def delRegisterCode (now : Int) (email : String) (key : CodeKey) : CodeKey :=
  (key.present now).hdel email

variable {now t : Int} {email : String} {key : CodeKey}

/-- A key that is there later was there before, and it is the same. -/
theorem present_present (h : now ≤ t) : (key.present now).present t = key.present t := by
  cases key with
  | none => rfl
  | some hash =>
    unfold present
    rw [Option.filter_filter]
    congr 1
    funext h'
    cases h'.expireAt with
    | none => rfl
    | some deadline =>
      rw [Bool.eq_iff_iff]
      simp only [Option.all_some, Bool.and_eq_true, decide_eq_true_eq]
      omega

@[simp] theorem hget_hset (code e : String) :
    (key.hset email code).hget e = if e = email then some code else key.hget e := by
  have hkey : key.hget e = ((key.getD ⟨∅, none⟩).codes.find e).map Prod.snd := by
    cases key <;> rfl
  rw [hkey]
  have hfind := (key.getD ⟨∅, none⟩).codes.find_upsert (email, code) (setCode code) (fun _ => rfl) e
  change ((Table.upsert _ _ _ _).find e).map Prod.snd = _
  rw [hfind]
  split
  · cases (key.getD ⟨∅, none⟩).codes.find e <;> rfl
  · rfl

@[simp] theorem hget_hdel (e : String) :
    (key.hdel email).hget e = if e = email then none else key.hget e := by
  cases key with
  | none => simp [hdel, hget]
  | some h =>
    have hfind : ((h.codes.delete fun field => field.1 = email).find e).map Prod.snd =
        if e = email then none else (h.codes.find e).map Prod.snd := by
      rw [Table.find_delete]
      cases hf : h.codes.find e with
      | none => simp
      | some field =>
        obtain ⟨-, rfl⟩ := (h.codes.find_eq_some _ _).mp hf
        by_cases he : field.1 = email
        · simp [he]
        · rw [Option.filter_some, if_pos (by simpa using he), if_neg he]
    have hwhole : hget e (some h) = (h.codes.find e).map Prod.snd := rfl
    rw [hwhole, ← hfind]
    simp only [hdel, Option.bind_some]
    split
    · rename_i hrows
      simp [hget, Table.find, hrows]
    · rfl

/-- The codes after a save, as long as the new deadline has not passed. -/
theorem getRegisterCode_save (code e : String) :
    (key.saveRegisterCode now email code).getRegisterCode t e =
      if t < now + registerCodeExpire * 1000 then
        if e = email then some code else key.getRegisterCode now e
      else none := by
  have hsaved : (key.saveRegisterCode now email code).present t =
      if t < now + registerCodeExpire * 1000 then key.saveRegisterCode now email code else none := by
    simp [saveRegisterCode, expire, hset, present, Option.filter_some]
  rw [getRegisterCode, hsaved]
  split
  · have hexpire : ∀ (k : CodeKey) deadline, (k.expire deadline).hget e = k.hget e := by
      intro k deadline
      cases k <;> rfl
    rw [saveRegisterCode, hexpire, hget_hset]
    rfl
  · rfl

theorem getRegisterCode_present (h : now ≤ t) (e : String) :
    getRegisterCode t e (key.present now) = key.getRegisterCode t e := by
  rw [getRegisterCode, present_present h, getRegisterCode]

/-- A deletion does not move the deadline. -/
theorem present_hdel : (key.hdel email).present t = (key.present t).hdel email := by
  cases key with
  | none => rfl
  | some h =>
    by_cases halive : h.expireAt.all (t < ·) <;>
      by_cases hrows : (h.codes.delete fun field => field.1 = email).rows = [] <;>
      simp [CodeKey.hdel, present, Option.filter_some, hrows, halive]

theorem getRegisterCode_del (h : now ≤ t) (e : String) :
    (key.delRegisterCode now email).getRegisterCode t e =
      if e = email then none else key.getRegisterCode t e := by
  rw [getRegisterCode, delRegisterCode, present_hdel, present_present h, hget_hdel]
  rfl

/-- A code that can be read after a deletion, at whatever time that was. -/
theorem of_getRegisterCode_del {e code : String}
    (h : (key.delRegisterCode now email).getRegisterCode t e = some code) :
    e ≠ email ∧ key.getRegisterCode t e = some code := by
  rw [getRegisterCode, delRegisterCode, present_hdel, hget_hdel] at h
  split at h
  · cases h
  · rename_i he
    refine ⟨he, ?_⟩
    cases key with
    | none => exact h
    | some hash =>
      simp only [getRegisterCode, present, Option.filter_some] at h ⊢
      by_cases hnow : hash.expireAt.all (now < ·)
      · simpa [hnow, Option.filter_some] using h
      · simp [hnow, hget] at h

end CodeKey

/-- The calls on the codes. -/
inductive CodeOp where
  | saveRegisterCode (email code : String)
  | delRegisterCode (email : String)
  | getRegisterCode (email : String)

namespace CodeOp

/-- The key after a call. -/
def step (now : Int) (key : CodeKey) : CodeOp → CodeKey
  | saveRegisterCode email code => key.saveRegisterCode now email code
  | delRegisterCode email => key.delRegisterCode now email
  | getRegisterCode _ => key.present now

/-- The key after some calls, each at its instant. -/
def run (ops : List (Int × CodeOp)) : CodeKey := ops.foldl (fun key op => op.2.step op.1 key) none

end CodeOp

/-- The last save for an address that no deletion has followed, and the instants of the saves for
other addresses since then. -/
structure LastSave where
  savedAt : Int
  code : String
  others : List Int

namespace LastSave

def observe (email : String) (last : Option LastSave) (now : Int) : CodeOp → Option LastSave
  | .saveRegisterCode e code =>
    if e = email then some ⟨now, code, []⟩
    else last.map fun l => { l with others := l.others ++ [now] }
  | .delRegisterCode e => if e = email then none else last
  | .getRegisterCode _ => last

def find (email : String) (ops : List (Int × CodeOp)) : Option LastSave :=
  ops.foldl (fun last op => observe email last op.1 op.2) none

/-- No gap of five minutes lies between the saves for whatever address up to an instant. -/
def KeptAlive (l : LastSave) (t : Int) : Prop :=
  (l.savedAt :: l.others ++ [t]).IsChain fun a b => b < a + registerCodeExpire * 1000

instance (l : LastSave) (t : Int) : Decidable (l.KeptAlive t) := inferInstanceAs (Decidable (List.IsChain _ _))

theorem keptAlive_nil (now : Int) (code : String) (t : Int) :
    KeptAlive ⟨now, code, []⟩ t ↔ t < now + registerCodeExpire * 1000 := by
  simp [KeptAlive]

theorem keptAlive_concat (l : LastSave) (now t : Int) :
    KeptAlive { l with others := l.others ++ [now] } t ↔
      l.KeptAlive now ∧ t < now + registerCodeExpire * 1000 := by
  have h : l.savedAt :: (l.others ++ [now]) ++ [t] = (l.savedAt :: l.others) ++ now :: [t] := by simp
  unfold KeptAlive
  rw [h, List.isChain_split]
  simp

end LastSave

/-- The code that is read is the last one saved, if saves for whatever address have kept it. -/
theorem getRegisterCode_run (ops : List (Int × CodeOp)) (hsorted : (ops.map Prod.fst).Pairwise (· ≤ ·))
    (t : Int) (ht : ∀ op ∈ ops, op.1 ≤ t) (email : String) :
    (CodeOp.run ops).getRegisterCode t email =
      ((LastSave.find email ops).filter fun l => l.KeptAlive t).map LastSave.code := by
  induction ops using List.reverseRecOn generalizing t with
  | nil => rfl
  | append_singleton ops op ih =>
    obtain ⟨now, op⟩ := op
    have hnow : now ≤ t := ht (now, op) (by simp)
    rw [List.map_append, List.pairwise_append] at hsorted
    obtain ⟨hsorted, -, hlast⟩ := hsorted
    have hbefore : ∀ op ∈ ops, op.1 ≤ now :=
      fun op hop => hlast _ (List.mem_map_of_mem hop) _ (by simp)
    have hlater : ∀ op ∈ ops, op.1 ≤ t := fun op hop => Int.le_trans (hbefore op hop) hnow
    have hrun : CodeOp.run (ops ++ [(now, op)]) = op.step now (CodeOp.run ops) := by
      rw [CodeOp.run, List.foldl_append]
      rfl
    have hfind : LastSave.find email (ops ++ [(now, op)]) =
        LastSave.observe email (LastSave.find email ops) now op := by
      rw [LastSave.find, List.foldl_append]
      rfl
    rw [hrun, hfind]
    cases op with
    | saveRegisterCode e code =>
      rw [CodeOp.step, CodeKey.getRegisterCode_save, ih hsorted now hbefore, LastSave.observe]
      by_cases he : e = email
      · simp [he, Option.filter_some, LastSave.keptAlive_nil]
      · rw [if_neg he, if_neg (Ne.symm he)]
        cases LastSave.find email ops with
        | none => simp
        | some l =>
          simp only [Option.map_some, Option.filter_some, LastSave.keptAlive_concat]
          by_cases hkept : l.KeptAlive now <;> by_cases halive : t < now + registerCodeExpire * 1000 <;>
            simp [hkept, halive]
    | delRegisterCode e =>
      rw [CodeOp.step, CodeKey.getRegisterCode_del hnow, ih hsorted t hlater, LastSave.observe]
      by_cases he : e = email
      · simp [he]
      · rw [if_neg he, if_neg (Ne.symm he)]
    | getRegisterCode e =>
      rw [CodeOp.step, CodeKey.getRegisterCode_present hnow, ih hsorted t hlater]
      rfl

/-- A code that can be read was saved less than five minutes ago and has not been deleted since. -/
def Expires (ops : List (Int × CodeOp)) (t : Int) (email : String) : Prop :=
  ∀ code, (CodeOp.run ops).getRegisterCode t email = some code →
    ∃ l, LastSave.find email ops = some l ∧ l.code = code ∧ t < l.savedAt + registerCodeExpire * 1000

/-- Codes expire as they should unless saves for other addresses have kept an old one alive. -/
theorem code_expires_iff (ops : List (Int × CodeOp))
    (hsorted : (ops.map Prod.fst).Pairwise (· ≤ ·)) (t : Int) (ht : ∀ op ∈ ops, op.1 ≤ t)
    (email : String) :
    Expires ops t email ↔ ¬ ∃ l, LastSave.find email ops = some l ∧
      l.savedAt + registerCodeExpire * 1000 ≤ t ∧ l.KeptAlive t := by
  unfold Expires
  rw [getRegisterCode_run ops hsorted t ht]
  cases LastSave.find email ops with
  | none => simp
  | some l =>
    by_cases hkept : l.KeptAlive t <;> simp [Option.filter_some, hkept]

/-- A code for `a`, and one for `b` four minutes later. -/
def twoCodes : List (Int × CodeOp) :=
  [(0, .saveRegisterCode "a" "111111"), (240000, .saveRegisterCode "b" "222222")]

/-- The code for `a` expires with a gap after the code for `b`. -/
theorem code_expires_late : Expires twoCodes 600000 "a" := by
  rw [code_expires_iff twoCodes (by decide) 600000 (by decide)]
  rintro ⟨l, hl, -, hkept⟩
  cases hl
  revert hkept
  decide

/-- The code for `a` can be read after six minutes. -/
theorem code_outlived : ¬ Expires twoCodes 360000 "a" := by
  intro h
  obtain ⟨l, hl, -, hfresh⟩ := h "111111" (by decide)
  cases hl
  revert hfresh
  decide

end Sandcat
