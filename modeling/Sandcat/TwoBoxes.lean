import Sandcat.Received

/-!
# The two inboxes side by side

The same messages are saved in an empty `MsgBox` and an empty `HybridShardedMsgBox`.
`MsgBox` leaves the start of a range out and `HybridShardedMsgBox` does not, and only
the latter has an index that refuses a message it holds already. The boxes agree on
what a reader has received unless one of these shows.
-/

namespace Sandcat

open Remote

/-- A received document after the start of a range, not sent by the reader. -/
def afterStart (userId : UserId) (recStart recEnd : Int) (d : Document) : Bool :=
  d.getStr .receiverId = some userId && d.getStr .senderId ≠ some userId &&
    d.holds .seq fun i => recStart < i && i ≤ recEnd

/-- A received document at the start of a range, not sent by the reader. -/
def atStart (userId : UserId) (recStart recEnd : Int) (d : Document) : Bool :=
  d.getStr .receiverId = some userId && d.getStr .senderId ≠ some userId &&
    d.holds .seq fun i => i = recStart && i ≤ recEnd

theorem fromOthers_eq (u : UserId) (rs re : Int) (d : Document) :
    fromOthers u rs re d = (afterStart u rs re d || atStart u rs re d) := by
  unfold fromOthers afterStart atStart Document.holds
  cases d.getI64 .seq with
  | none => simp
  | some i =>
    simp only [Option.any_some, ← Bool.and_or_distrib_left, ← Bool.and_or_distrib_right]
    congr 2
    rw [Bool.eq_iff_iff]
    simp only [decide_eq_true_eq, Bool.or_eq_true]
    omega

theorem seq_of_atStart {u : UserId} {rs re : Int} {d : Document} (h : atStart u rs re d = true) :
    (Msg.tryFrom d).seq = rs := by
  simp only [atStart, Document.holds, Bool.and_eq_true, Option.any_eq_true, decide_eq_true_eq] at h
  obtain ⟨-, i, hi, hrs, -⟩ := h
  simp [Msg.tryFrom, hi, hrs]

theorem seq_of_afterStart {u : UserId} {rs re : Int} {d : Document}
    (h : afterStart u rs re d = true) : rs < (Msg.tryFrom d).seq ∧ (Msg.tryFrom d).seq ≤ re := by
  simp only [afterStart, Document.holds, Bool.and_eq_true, Option.any_eq_true,
    decide_eq_true_eq] at h
  obtain ⟨-, i, hi, hrs⟩ := h
  simp [Msg.tryFrom, hi, hrs]

/-- A choice among the values of one kind, and some of another kind, that leaves the same
images. -/
theorem perm_filter_iff {α β : Type} {l : List α} {f : α → β} {p q r : α → Bool} (c : β → Bool)
    (hp : ∀ x ∈ l, p x = true → c (f x) = false) (hq : ∀ x ∈ l, q x = true → c (f x) = true) :
    ((l.filter p).map f).Perm ((l.filter fun x => (p x || q x) && r x).map f) ↔
      ∀ x ∈ l, (p x = true → r x = true) ∧ (q x = true → r x = false) := by
  constructor
  · intro hperm
    have hnone : ∀ x ∈ l, q x = true → r x = false := by
      intro x hx hqx
      by_contra hnew
      have hmem : f x ∈ (l.filter p).map f := by
        rw [hperm.mem_iff]
        exact List.mem_map_of_mem (List.mem_filter.mpr ⟨hx, by simp [hqx, hnew]⟩)
      obtain ⟨y, hy, he⟩ := List.mem_map.mp hmem
      obtain ⟨hy, hpy⟩ := List.mem_filter.mp hy
      have hcy := hp y hy hpy
      rw [he, hq x hx hqx] at hcy
      cases hcy
    have hkept : (l.filter fun x => (p x || q x) && r x) = (l.filter p).filter r := by
      rw [List.filter_filter]
      apply List.filter_congr
      intro x hx
      cases hqx : q x with
      | false => simp [Bool.and_comm]
      | true => simp [hnone x hx hqx]
    rw [hkept] at hperm
    have hlen : ((l.filter p).filter r).length = (l.filter p).length := by
      simpa using hperm.length_eq.symm
    rw [List.length_filter_eq_length_iff] at hlen
    exact fun x hx => ⟨fun hpx => hlen x (List.mem_filter.mpr ⟨hx, hpx⟩), hnone x hx⟩
  · intro hall
    refine .of_eq ?_
    congr 1
    apply List.filter_congr
    intro x hx
    obtain ⟨hnew, hold⟩ := hall x hx
    cases hpx : p x with
    | true => simp [hnew hpx]
    | false =>
      cases hqx : q x with
      | true => simp [hold hqx]
      | false => rfl

/-- Single messages with the instants at which they are saved. -/
def singles (messages : List (Int × Msg)) : List (Int × Save) :=
  messages.map fun s => (s.1, .single s.2)

namespace HybridShardedMsgBox

variable {cfg : Config} {n : Nat} {w : World}

theorem filings_singles (messages : List (Int × Msg)) : filings cfg n (singles messages) =
    messages.map fun s => (shelf cfg n s.1 s.2.receiverId s.2.sendTime, toDoc s.2) := by
  rw [filings, singles, List.flatMap_map, List.map_eq_flatMap]
  rfl

/-- The messages that are saved, each with the answer whether the index admits it. -/
def tried (cfg : Config) (userShards : Nat) (messages : List (Int × Msg)) :
    List ((String × Document) × Bool) :=
  Unique.tries Mongo.docKey [] (filings cfg userShards (singles messages))

theorem map_tried (cfg : Config) (n : Nat) (messages : List (Int × Msg)) :
    (tried cfg n messages).map (fun x => x.1.2) = messages.map fun s => toDoc s.2 := by
  have hfst := congrArg (List.map Prod.snd)
    (Unique.map_fst_tries Mongo.docKey [] (filings cfg n (singles messages)))
  rw [filings_singles, List.map_map, List.map_map] at hfst
  rw [tried, filings_singles]
  exact hfst

variable {messages : List (Int × Msg)} {now : Int} {u : UserId}

/-- The messages of others in the sharded box. -/
theorem others_singles (cfg : Config) (hbox : cfg.box = .sharded n) (hn : n ≠ 0) (hw : w.EmptyInbox)
    (hnow : 0 ≤ now) (hwindow : ∀ s ∈ messages, s.2.receiverId = u →
      InWindow now (writeMonth s.1 s.2.sendTime)) (rs re : Int) :
    (Msg.others u (msgsIn cfg n ((w.afterSaves cfg (singles messages)).atTime now) u 0 0 rs re)).Perm
      (((tried cfg n messages).filter fun x => fromOthers u rs re x.1.2 && x.2).map
        fun x => Msg.tryFrom x.1.2) := by
  have hdocs := (docs_afterSaves hbox hn hw.sound (singles messages)).2
  have hrecent : ∀ p ∈ (w.afterSaves cfg (singles messages)).mongo.docs,
      p.2.getStr .receiverId = some u → Recent now p.1 := by
    intro p hp hu
    rw [hdocs, hw.docs] at hp
    obtain hp | hp := Unique.mem_enterAll hp
    · cases hp
    · rw [filings_singles] at hp
      obtain ⟨s, hs, rfl⟩ := List.mem_map.mp hp
      exact ⟨_, _, isMonth_writeMonth s.1 s.2.sendTime, rfl, hwindow s hs (Option.some.inj hu)⟩
  refine (others_msgsIn (w := (w.afterSaves cfg (singles messages)).atTime now) hnow
    (shelved_afterSaves hbox hn hw _) hrecent 0 0 rs re).trans (.of_eq ?_)
  rw [World.inbox, World.atTime_mongo, hdocs, hw.docs, Unique.enterAll_eq_tries]
  simp only [List.nil_append, List.map_nil, List.map_map, List.filter_map, List.filter_filter]
  rfl

end HybridShardedMsgBox

namespace MsgBox

variable {w : World}

/-- The messages of others in the plain box. -/
theorem others_singles (cfg : Config) (hbox : cfg.box = .plain) (hw : w.EmptyInbox)
    (messages : List (Int × Msg)) (now : Int) (u : UserId) (rs re : Int) :
    (Msg.others u (msgsIn ((w.afterSaves cfg (singles messages)).atTime now) u 0 0 rs re)).Perm
      (((messages.map fun s => toDoc s.2).filter (afterStart u rs re)).map Msg.tryFrom) := by
  have hcopies : ((singles messages).flatMap fun s => s.2.copies .plain) =
      messages.map Prod.snd := by
    rw [singles, List.flatMap_map, List.map_eq_flatMap]
    rfl
  refine ((msgsIn_afterSaves hbox hw (singles messages) now u 0 0 rs re).filter _).trans (.of_eq ?_)
  rw [hcopies, List.filter_map, List.filter_filter, List.filter_map, List.map_map, List.filter_map,
    List.map_map]
  have hfilter : ∀ s ∈ messages, (((fun m : Msg => ((fun m : Msg => decide (m.senderId ≠ u)) ∘
      fun m : Msg => m.stored.shownTo u) m && matchMsgs (fun start i => start < i) u 0 0 rs re
        (toDoc m)) ∘ Prod.snd) s) = (afterStart u rs re ∘ fun s : Int × Msg => toDoc s.2) s := by
    intro s _
    by_cases hv : s.2.senderId = u
    · simp [afterStart, hv, Msg.stored]
    · simp [afterStart, matchMsgs, hv, Msg.stored]
  rw [List.filter_congr hfilter]
  apply List.map_congr_left
  intro s hs
  have hothers := (List.mem_filter.mp hs).2
  apply Msg.shownTo_of_ne
  simp only [afterStart, Function.comp, toDoc_senderId, Bool.and_eq_true, decide_eq_true_eq, ne_eq,
    Option.some.injEq] at hothers
  exact hothers.1.2

end MsgBox

/-- `get_msgs(u, 0, 0, rec_start, rec_end)` of a plain box with the messages in it. -/
def plainPage (cfg : Config) (w : World) (messages : List (Int × Msg)) (now : Int) (u : UserId)
    (recStart recEnd : Int) : Except Error (List Msg) :=
  ((MsgBox.getMsgs u 0 0 recStart recEnd).exec
    ((w.afterSaves { cfg with box := .plain } (singles messages)).atTime now)).1

/-- The same query of a sharded box with the same messages in it. -/
def shardedPage (cfg : Config) (n : Nat) (w : World) (messages : List (Int × Msg)) (now : Int)
    (u : UserId) (recStart recEnd : Int) : Except Error (List Msg) :=
  ((HybridShardedMsgBox.getMsgs { cfg with box := .sharded n } n u 0 0 recStart recEnd).exec
    ((w.afterSaves { cfg with box := .sharded n } (singles messages)).atTime now)).1

/-- Two answers with the same messages of others. -/
def SameOthers (u : UserId) (first second : Except Error (List Msg)) : Prop :=
  ∃ p q, first = .ok p ∧ second = .ok q ∧ (Msg.others u p).Perm (Msg.others u q)

/-- Two pages that have nothing in common and make up a third. -/
def PagesTile (u : UserId) (first second whole : Except Error (List Msg)) : Prop :=
  ∃ p q r, first = .ok p ∧ second = .ok q ∧ whole = .ok r ∧
    (∀ m ∈ Msg.others u p, m ∉ Msg.others u q) ∧
    (Msg.others u p ++ Msg.others u q).Perm (Msg.others u r)

section Pages

variable {u : UserId} {a b c : Int}

/-- Two ranges of numbers that make up a third. -/
theorem holds_seq_or {p q r : Int → Bool} (h : ∀ i, p i = true ∨ q i = true ↔ r i = true)
    (ids : Bool) (d : Document) :
    (ids && d.holds .seq p || ids && d.holds .seq q) = (ids && d.holds .seq r) := by
  rw [← Bool.and_or_distrib_left]
  congr 1
  unfold Document.holds
  cases d.getI64 .seq with
  | none => rfl
  | some i => exact Bool.eq_iff_iff.mpr (Bool.or_eq_true_iff.trans (h i))

theorem afterStart_append (hab : a ≤ b) (hbc : b ≤ c) (d : Document) :
    (afterStart u a b d || afterStart u b c d) = afterStart u a c d :=
  holds_seq_or (fun i => by simp; omega) _ d

theorem fromOthers_append (hab : a ≤ b) (hbc : b ≤ c) (d : Document) :
    (fromOthers u a b d || afterStart u b c d) = fromOthers u a c d :=
  holds_seq_or (fun i => by simp; omega) _ d

/-- The start of a page is the end of the page before it. -/
theorem fromOthers_of_atStart {d : Document} (hab : a ≤ b) (h : atStart u b c d = true) :
    fromOthers u a b d = true := by
  simp only [atStart, fromOthers, Document.holds, Bool.and_eq_true, Option.any_eq_true,
    decide_eq_true_eq] at h ⊢
  obtain ⟨hids, i, hi, rfl, -⟩ := h
  exact ⟨hids, i, hi, hab, le_refl i⟩

theorem seq_of_fromOthers {d : Document} (h : fromOthers u a b d = true) :
    a ≤ (Msg.tryFrom d).seq ∧ (Msg.tryFrom d).seq ≤ b := by
  simp only [fromOthers, Document.holds, Bool.and_eq_true, Option.any_eq_true,
    decide_eq_true_eq] at h
  obtain ⟨-, i, hi, hab⟩ := h
  simp [Msg.tryFrom, hi, hab]

/-- Without the messages at its start, a page begins after it. -/
theorem filter_fromOthers {l : List ((String × Document) × Bool)}
    (h : ∀ x ∈ l, atStart u b c x.1.2 = true → x.2 = false) :
    l.filter (fun x => fromOthers u b c x.1.2 && x.2) =
      l.filter fun x => afterStart u b c x.1.2 && x.2 := by
  apply List.filter_congr
  intro x hx
  rw [fromOthers_eq]
  cases hs : atStart u b c x.1.2 with
  | true => simp [h x hx hs]
  | false => simp

/-- Parts of a list up to a number and after it. -/
theorem tile_of_perm {α : Type} {l : List α} {f : α → Msg} {p q r : α → Bool}
    {first second whole : List Msg}
    (hfirst : first.Perm ((l.filter p).map f)) (hsecond : second.Perm ((l.filter q).map f))
    (hwhole : whole.Perm ((l.filter r).map f)) (hp : ∀ x, p x = true → (f x).seq ≤ b)
    (hq : ∀ x, q x = true → b < (f x).seq) (hr : ∀ x, (p x || q x) = r x) :
    (∀ m ∈ first, m ∉ second) ∧ (first ++ second).Perm whole := by
  constructor
  · intro m hm hm'
    rw [hfirst.mem_iff] at hm
    rw [hsecond.mem_iff] at hm'
    obtain ⟨x, hx, rfl⟩ := List.mem_map.mp hm
    obtain ⟨y, hy, he⟩ := List.mem_map.mp hm'
    have hlow := hp x (List.mem_filter.mp hx).2
    have hhigh := hq y (List.mem_filter.mp hy).2
    rw [he] at hhigh
    omega
  · refine (hfirst.append hsecond).trans (List.Perm.trans ?_ hwhole.symm)
    rw [← List.map_append]
    apply List.Perm.map
    refine (Unique.filter_append_perm _ ?_).trans (.of_eq (List.filter_congr fun x _ => hr x))
    rintro x - ⟨hx, hx'⟩
    have hlow := hp x hx
    have hhigh := hq x hx'
    omega

end Pages

section Agreement

variable {cfg : Config} {n : Nat} {w : World} {messages : List (Int × Msg)} {now : Int} {u : UserId}

theorem plainPage_eq (rs re : Int) : plainPage cfg w messages now u rs re =
    if capacityFits (re - rs) then .ok (MsgBox.msgsIn
      ((w.afterSaves { cfg with box := .plain } (singles messages)).atTime now) u 0 0 rs re)
    else .error .panic := by
  have hlen : 0 - 0 + (re - rs) = re - rs := by omega
  rw [plainPage, MsgBox.getMsgs_result, hlen]

theorem shardedPage_eq (hn : n ≠ 0) (hw : w.EmptyInbox) (rs re : Int) :
    shardedPage cfg n w messages now u rs re =
      if capacityFits (re - rs) then .ok (HybridShardedMsgBox.msgsIn { cfg with box := .sharded n } n
        ((w.afterSaves { cfg with box := .sharded n } (singles messages)).atTime now) u 0 0 rs re)
      else .error .panic := by
  have hlen : 0 - 0 + (re - rs) = re - rs := by omega
  have hsound : ((w.afterSaves { cfg with box := .sharded n } (singles messages)).atTime
      now).mongo.Sound := (HybridShardedMsgBox.docs_afterSaves rfl hn hw.sound (singles messages)).1
  have hresult := HybridShardedMsgBox.getMsgs_result { cfg with box := .sharded n } hn hsound
    u 0 0 rs re
  rw [shardedPage, hresult, hlen]

theorem shardedPage_zero (rs re : Int) :
    shardedPage cfg 0 w messages now u rs re = .error .panic := rfl

/-- A page that is answered has room. -/
theorem eq_of_fits {len : Int} {res : List Msg} {page : Except Error (List Msg)}
    (hpage : page = if capacityFits len then .ok res else .error .panic) {p : List Msg}
    (h : page = .ok p) : capacityFits len = true ∧ p = res := by
  rw [hpage] at h
  split at h
  · rename_i hfits
    exact ⟨hfits, (Except.ok.inj h).symm⟩
  · cases h

variable (hw : w.EmptyInbox) (hnow : 0 ≤ now) (hwindow : ∀ s ∈ messages, s.2.receiverId = u →
  HybridShardedMsgBox.InWindow now (HybridShardedMsgBox.writeMonth s.1 s.2.sendTime))

include hw hnow hwindow in
theorem sameOthers_iff (rs re : Int) :
    SameOthers u (plainPage cfg w messages now u rs re) (shardedPage cfg n w messages now u rs re) ↔
      n ≠ 0 ∧ capacityFits (re - rs) = true ∧ ∀ x ∈ HybridShardedMsgBox.tried cfg n messages,
        (afterStart u rs re x.1.2 = true → x.2 = true) ∧
          (atStart u rs re x.1.2 = true → x.2 = false) := by
  by_cases hn : n = 0
  · subst hn
    refine ⟨?_, fun h => absurd rfl h.1⟩
    rintro ⟨p, q, -, hq, -⟩
    rw [shardedPage_zero] at hq
    cases hq
  have hplain := MsgBox.others_singles { cfg with box := .plain } rfl hw messages now u rs re
  have hsharded := HybridShardedMsgBox.others_singles { cfg with box := .sharded n }
    rfl hn hw hnow hwindow rs re
  rw [← HybridShardedMsgBox.map_tried cfg n, List.filter_map, List.map_map] at hplain
  simp only [fromOthers_eq] at hsharded
  have hiff := perm_filter_iff (l := HybridShardedMsgBox.tried cfg n messages)
    (f := fun x => Msg.tryFrom x.1.2) (p := fun x => afterStart u rs re x.1.2)
    (q := fun x => atStart u rs re x.1.2) (r := Prod.snd) (fun m => decide (m.seq = rs))
    (fun x _ hx => by have := seq_of_afterStart hx; simp; omega)
    (fun x _ hx => by simp [seq_of_atStart hx])
  constructor
  · rintro ⟨p, q, hp, hq, hperm⟩
    obtain ⟨hfits, rfl⟩ := eq_of_fits (plainPage_eq rs re) hp
    obtain ⟨-, rfl⟩ := eq_of_fits (shardedPage_eq hn hw rs re) hq
    exact ⟨hn, hfits, hiff.mp (hplain.symm.trans (hperm.trans hsharded))⟩
  · rintro ⟨-, hfits, hall⟩
    refine ⟨_, _, ?_, ?_, hplain.trans ((hiff.mpr hall).trans hsharded.symm)⟩
    · rw [plainPage_eq, if_pos hfits]
    · rw [shardedPage_eq hn hw, if_pos hfits]

include hw in
theorem plainPages_tile {a b c : Int} (hab : a ≤ b) (hbc : b ≤ c) :
    PagesTile u (plainPage cfg w messages now u a b) (plainPage cfg w messages now u b c)
      (plainPage cfg w messages now u a c) ↔ capacityFits (b - a) = true ∧
        capacityFits (c - b) = true ∧ capacityFits (c - a) = true := by
  have hperm := MsgBox.others_singles { cfg with box := .plain } rfl hw messages now u
  constructor
  · rintro ⟨p, q, r, hp, hq, hr, -, -⟩
    exact ⟨(eq_of_fits (plainPage_eq a b) hp).1, (eq_of_fits (plainPage_eq b c) hq).1,
      (eq_of_fits (plainPage_eq a c) hr).1⟩
  · rintro ⟨hfirst, hsecond, hwhole⟩
    have htile := tile_of_perm (hperm a b) (hperm b c) (hperm a c)
      (fun d hd => (seq_of_afterStart hd).2) (fun d hd => (seq_of_afterStart hd).1)
      fun d => afterStart_append hab hbc d
    exact ⟨_, _, _, (plainPage_eq a b).trans (if_pos hfirst),
      (plainPage_eq b c).trans (if_pos hsecond), (plainPage_eq a c).trans (if_pos hwhole), htile⟩

include hw hnow hwindow in
theorem shardedPages_tile {a b c : Int} (hab : a ≤ b) (hbc : b ≤ c) :
    PagesTile u (shardedPage cfg n w messages now u a b) (shardedPage cfg n w messages now u b c)
      (shardedPage cfg n w messages now u a c) ↔ n ≠ 0 ∧ (capacityFits (b - a) = true ∧
        capacityFits (c - b) = true ∧ capacityFits (c - a) = true) ∧
        ∀ x ∈ HybridShardedMsgBox.tried cfg n messages, atStart u b c x.1.2 = true → x.2 = false := by
  by_cases hn : n = 0
  · subst hn
    refine ⟨?_, fun h => absurd rfl h.1⟩
    rintro ⟨p, q, r, hp, -⟩
    rw [shardedPage_zero] at hp
    cases hp
  have hperm := HybridShardedMsgBox.others_singles { cfg with box := .sharded n }
    rfl hn hw hnow hwindow
  constructor
  · rintro ⟨p, q, r, hp, hq, hr, hdisjoint, -⟩
    obtain ⟨hfirst, rfl⟩ := eq_of_fits (shardedPage_eq hn hw a b) hp
    obtain ⟨hsecond, rfl⟩ := eq_of_fits (shardedPage_eq hn hw b c) hq
    obtain ⟨hwhole, -⟩ := eq_of_fits (shardedPage_eq hn hw a c) hr
    refine ⟨hn, ⟨hfirst, hsecond, hwhole⟩, ?_⟩
    intro x hx hstart
    by_contra hnew
    have hnew : x.2 = true := by simpa using hnew
    have hseq := seq_of_atStart hstart
    apply hdisjoint (Msg.tryFrom x.1.2)
    · rw [(hperm a b).mem_iff]
      refine List.mem_map_of_mem (List.mem_filter.mpr ⟨hx, ?_⟩)
      rw [hnew, Bool.and_true]
      exact fromOthers_of_atStart hab hstart
    · rw [(hperm b c).mem_iff]
      refine List.mem_map_of_mem (List.mem_filter.mpr ⟨hx, ?_⟩)
      rw [hnew, fromOthers_eq, hstart]
      simp
  · rintro ⟨-, ⟨hfirst, hsecond, hwhole⟩, hstart⟩
    have hpage : (Msg.others u (HybridShardedMsgBox.msgsIn { cfg with box := .sharded n } n
        ((w.afterSaves { cfg with box := .sharded n } (singles messages)).atTime now) u 0 0 b c)).Perm
        (((HybridShardedMsgBox.tried cfg n messages).filter
          fun x => afterStart u b c x.1.2 && x.2).map fun x => Msg.tryFrom x.1.2) := by
      rw [← filter_fromOthers hstart]
      exact hperm b c
    have htile := tile_of_perm (hperm a b) hpage (hperm a c)
      (fun x hx => (seq_of_fromOthers (Bool.and_eq_true_iff.mp hx).1).2)
      (fun x hx => (seq_of_afterStart (Bool.and_eq_true_iff.mp hx).1).1)
      fun x => by rw [← Bool.and_or_distrib_right, fromOthers_append hab hbc]
    exact ⟨_, _, _, (shardedPage_eq hn hw a b).trans (if_pos hfirst),
      (shardedPage_eq hn hw b c).trans (if_pos hsecond),
      (shardedPage_eq hn hw a c).trans (if_pos hwhole), htile⟩

/-- When the two boxes return the same messages of others, and when the pages of a box fit
together. -/
theorem boxes_agree_iff (cfg : Config) (n : Nat) (w : World) (hw : w.EmptyInbox)
    (messages : List (Int × Msg)) (now : Int) (hnow : 0 ≤ now) (u : UserId)
    (hwindow : ∀ s ∈ messages, s.2.receiverId = u →
      HybridShardedMsgBox.InWindow now (HybridShardedMsgBox.writeMonth s.1 s.2.sendTime)) :
    (∀ rs re, SameOthers u (plainPage cfg w messages now u rs re)
        (shardedPage cfg n w messages now u rs re) ↔
      n ≠ 0 ∧ capacityFits (re - rs) = true ∧ ∀ x ∈ HybridShardedMsgBox.tried cfg n messages,
        (afterStart u rs re x.1.2 = true → x.2 = true) ∧
          (atStart u rs re x.1.2 = true → x.2 = false)) ∧
    (∀ a b c, a ≤ b → b ≤ c → (PagesTile u (plainPage cfg w messages now u a b)
        (plainPage cfg w messages now u b c) (plainPage cfg w messages now u a c) ↔
      capacityFits (b - a) = true ∧ capacityFits (c - b) = true ∧ capacityFits (c - a) = true)) ∧
    ∀ a b c, a ≤ b → b ≤ c → (PagesTile u (shardedPage cfg n w messages now u a b)
        (shardedPage cfg n w messages now u b c) (shardedPage cfg n w messages now u a c) ↔
      n ≠ 0 ∧ (capacityFits (b - a) = true ∧ capacityFits (c - b) = true ∧
        capacityFits (c - a) = true) ∧
        ∀ x ∈ HybridShardedMsgBox.tried cfg n messages, atStart u b c x.1.2 = true → x.2 = false) :=
  ⟨sameOthers_iff hw hnow hwindow, fun _ _ _ => plainPages_tile hw,
    fun _ _ _ => shardedPages_tile hw hnow hwindow⟩

end Agreement

/-- The letter is in the window when it is read at once. -/
theorem letter_window : ∀ s ∈ [((0 : Int), letter)], s.2.receiverId = "b" →
    HybridShardedMsgBox.InWindow 0 (HybridShardedMsgBox.writeMonth s.1 s.2.sendTime) := by
  decide

theorem boxes_agree_letter : SameOthers "b" (plainPage .oneShard World.empty [(0, letter)] 0 "b" 0 1)
    (shardedPage .oneShard 1 World.empty [(0, letter)] 0 "b" 0 1) :=
  ((boxes_agree_iff .oneShard 1 World.empty World.emptyInbox_empty [(0, letter)] 0 (by decide) "b"
    letter_window).1 0 1).mpr (by decide)

/-- A page that starts at the number of a message has the message in one box only, and it has
it twice with the page before. -/
theorem boxes_disagree_at_start :
    (∀ s ∈ [((0 : Int), letter)], s.2.receiverId = "b" →
      HybridShardedMsgBox.InWindow 0 (HybridShardedMsgBox.writeMonth s.1 s.2.sendTime)) ∧
    ¬ SameOthers "b" (plainPage .oneShard World.empty [(0, letter)] 0 "b" 1 2)
      (shardedPage .oneShard 1 World.empty [(0, letter)] 0 "b" 1 2) ∧
    ¬ PagesTile "b" (shardedPage .oneShard 1 World.empty [(0, letter)] 0 "b" 0 1)
      (shardedPage .oneShard 1 World.empty [(0, letter)] 0 "b" 1 2)
      (shardedPage .oneShard 1 World.empty [(0, letter)] 0 "b" 0 2) := by
  refine ⟨letter_window, ?_, ?_⟩
  · rw [sameOthers_iff World.emptyInbox_empty (by decide) letter_window]
    decide
  · rw [shardedPages_tile World.emptyInbox_empty (by decide) letter_window (by decide) (by decide)]
    decide

end Sandcat
