import Sandcat.Pusher
import Mathlib.Data.List.Basic

/-!
# The results of the spawned sends

A push spawns one send for each gateway and collects results from a channel until the
channel is closed, or until one of them ends the loop. The sends finish in any order,
and the loop takes its turns among them.
-/

namespace Sandcat

open Remote

inductive PushKind where
  | single | group
  deriving DecidableEq, Repr

/-- A push under way. `list` is `ws_rpc_list`; a send in flight has not finished its RPC,
and the receiver of the channel is gone once the push has returned. -/
structure Push where
  list : List Addr
  inFlight : List Addr
  channel : List (Except Addr Unit)
  returned : Bool
  panicked : Bool

inductive PushEvent where
  | complete (addr : Addr)
  | receive
  deriving DecidableEq, Repr

namespace Push

/-- A channel without a slot panics before anything is spawned. -/
def start (gateways : List Addr) : Option Push :=
  if gateways = [] then none else some ⟨gateways, gateways, [], false, false⟩

/-- What a finished send puts into the channel. -/
def report (kind : PushKind) (fails : Addr → Bool) (addr : Addr) : Option (Except Addr Unit) :=
  match kind, fails addr with
  | _, true => some (.error addr)
  | .single, false => none
  | .group, false => some (.ok ())

/-- `tx.send(..).await.unwrap()`. -/
def send (s : Push) (result : Except Addr Unit) : Push :=
  if s.returned then { s with panicked := true } else { s with channel := s.channel ++ [result] }

def step (kind : PushKind) (fails : Addr → Bool) (s : Push) : PushEvent → Option Push
  | .complete addr =>
    if addr ∈ s.inFlight then
      let s := { s with inFlight := s.inFlight.erase addr }
      match report kind fails addr with
      | some result => some (s.send result)
      | none => some s
    else none
  | .receive =>
    if s.returned then none
    else
      match s.channel with
      | .error addr :: rest => some { s with list := s.list.filter (· ≠ addr), channel := rest }
      | .ok () :: rest => some { s with channel := rest, returned := true }
      | [] => if s.inFlight = [] then some { s with returned := true } else none

/-- The states of a push, whatever the order of its events. -/
inductive Reached (kind : PushKind) (fails : Addr → Bool) (gateways : List Addr) : Push → Prop where
  | start {s : Push} : start gateways = some s → Reached kind fails gateways s
  | step {s t : Push} (e : PushEvent) : Reached kind fails gateways s →
      s.step kind fails e = some t → Reached kind fails gateways t

/-- No send panics, and a push that has returned leaves the gateways whose sends succeeded. -/
def Settles (kind : PushKind) (fails : Addr → Bool) (gateways : List Addr) : Prop :=
  ∀ s, Reached kind fails gateways s → s.panicked = false ∧
    (s.returned = true → ∀ a ∈ gateways, a ∈ s.list ↔ fails a = false)

variable {kind : PushKind} {fails : Addr → Bool} {gateways : List Addr} {s t : Push}

theorem start_eq (h : start gateways = some s) : s = ⟨gateways, gateways, [], false, false⟩ := by
  unfold start at h
  split at h
  · cases h
  · exact (Option.some.inj h).symm

theorem step_complete {a : Addr} (h : s.step kind fails (.complete a) = some t) :
    a ∈ s.inFlight ∧
      ((report kind fails a = none ∧ t = { s with inFlight := s.inFlight.erase a }) ∨
        ∃ r, report kind fails a = some r ∧ t = send { s with inFlight := s.inFlight.erase a } r) := by
  simp only [step] at h
  split at h
  · rename_i ha
    refine ⟨ha, ?_⟩
    cases hr : report kind fails a with
    | none =>
      rw [hr] at h
      exact .inl ⟨rfl, (Option.some.inj h).symm⟩
    | some r =>
      rw [hr] at h
      exact .inr ⟨r, rfl, (Option.some.inj h).symm⟩
  · cases h

theorem step_receive (h : s.step kind fails .receive = some t) : s.returned = false ∧
    ((∃ a rest, s.channel = .error a :: rest ∧
        t = { s with list := s.list.filter (· ≠ a), channel := rest }) ∨
      (∃ rest, s.channel = .ok () :: rest ∧ t = { s with channel := rest, returned := true }) ∨
      s.channel = [] ∧ s.inFlight = [] ∧ t = { s with returned := true }) := by
  simp only [step] at h
  split at h
  · cases h
  · rename_i hret
    refine ⟨by simpa using hret, ?_⟩
    split at h
    · rename_i a rest hc
      exact .inl ⟨a, rest, hc, (Option.some.inj h).symm⟩
    · rename_i rest hc
      exact .inr (.inl ⟨rest, hc, (Option.some.inj h).symm⟩)
    · rename_i hc
      split at h
      · rename_i hf
        exact .inr (.inr ⟨hc, hf, (Option.some.inj h).symm⟩)
      · cases h

/-- While only failures are reported: who is still to be removed, and who stays. -/
structure Tally (fails : Addr → Bool) (gateways : List Addr) (s : Push) : Prop where
  calm : s.panicked = false
  inFlight : ∀ a ∈ s.inFlight, a ∈ gateways
  channel : ∀ r ∈ s.channel, ∃ a, r = .error a ∧ fails a = true
  healthy : ∀ a ∈ gateways, fails a = false → a ∈ s.list
  due : ∀ a ∈ gateways, fails a = true → a ∈ s.inFlight ∨ .error a ∈ s.channel ∨ a ∉ s.list
  ended : s.returned = true → s.inFlight = [] ∧ s.channel = []

theorem Tally.complete {a : Addr} (h : Tally fails gateways s)
    (honly : ∀ a ∈ gateways, ∀ r, report kind fails a = some r → r = .error a)
    (hstep : s.step kind fails (.complete a) = some t) : Tally fails gateways t := by
  obtain ⟨ha, hcases⟩ := step_complete hstep
  have hret : s.returned = false := by
    by_contra hr
    rw [(h.ended (by simpa using hr)).1] at ha
    cases ha
  have hsub : ∀ b ∈ s.inFlight.erase a, b ∈ gateways :=
    fun b hb => h.inFlight b (List.mem_of_mem_erase hb)
  have herase : ∀ b, b ∈ s.inFlight → b = a ∨ b ∈ s.inFlight.erase a := by
    intro b hb
    by_cases hba : b = a
    · exact .inl hba
    · exact .inr ((List.mem_erase_of_ne hba).mpr hb)
  obtain ⟨hr, rfl⟩ | ⟨r, hr, rfl⟩ := hcases
  · refine ⟨h.calm, hsub, h.channel, h.healthy, ?_, fun hend => absurd hend (by simp [hret])⟩
    intro b hb hf
    obtain hfl | hdue := h.due b hb hf
    · obtain rfl | hfl := herase b hfl
      · simp [report, hf] at hr
      · exact .inl hfl
    · exact .inr hdue
  · obtain rfl := honly a (h.inFlight a ha) r hr
    have hfa : fails a = true := by
      by_contra hf
      simp only [Bool.not_eq_true] at hf
      cases kind <;> simp [report, hf] at hr
    simp only [send, hret, Bool.false_eq_true, if_false]
    refine ⟨h.calm, hsub, ?_, h.healthy, ?_, fun hend => absurd hend (by simp)⟩
    · intro r hr
      obtain hr | hr := List.mem_append.mp hr
      · exact h.channel r hr
      · exact ⟨a, List.mem_singleton.mp hr, hfa⟩
    · intro b hb hf
      obtain hfl | hch | hout := h.due b hb hf
      · obtain rfl | hfl := herase b hfl
        · exact .inr (.inl (by simp))
        · exact .inl hfl
      · exact .inr (.inl (by simp [hch]))
      · exact .inr (.inr hout)

theorem Tally.receive (h : Tally fails gateways s) (hstep : s.step kind fails .receive = some t) :
    Tally fails gateways t := by
  obtain ⟨hret, ⟨a, rest, hc, rfl⟩ | ⟨rest, hc, rfl⟩ | ⟨hc, hf, rfl⟩⟩ := step_receive hstep
  · obtain ⟨b, hb, hfb⟩ := h.channel _ (hc ▸ List.mem_cons_self)
    cases hb
    refine ⟨h.calm, h.inFlight, ?_, ?_, ?_, fun hend => absurd hend (by simp [hret])⟩
    · exact fun r hr => h.channel r (hc ▸ List.mem_cons_of_mem _ hr)
    · intro b hb hf
      have hba : b ≠ a := by
        rintro rfl
        simp [hfb] at hf
      simp [h.healthy b hb hf, hba]
    · intro b hb hf
      have hdue := h.due b hb hf
      rw [hc] at hdue
      by_cases hba : b = a
      · exact .inr (.inr (by simp [hba]))
      · simp only [List.mem_cons, Except.error.injEq, hba, false_or] at hdue
        simp only [List.mem_filter, not_and]
        exact hdue.imp id (Or.imp id fun hout hin => absurd hin hout)
  · obtain ⟨b, hb, -⟩ := h.channel _ (hc ▸ List.mem_cons_self)
    cases hb
  · exact ⟨h.calm, h.inFlight, h.channel, h.healthy, h.due, fun _ => ⟨hf, hc⟩⟩

theorem Reached.tally (honly : ∀ a ∈ gateways, ∀ r, report kind fails a = some r → r = .error a)
    (h : Reached kind fails gateways s) : Tally fails gateways s := by
  induction h with
  | start h =>
    obtain rfl := start_eq h
    exact ⟨rfl, fun a ha => ha, by simp, fun a ha _ => ha, fun a ha _ => .inl ha, by simp⟩
  | step e _ hstep ih =>
    cases e with
    | complete a => exact ih.complete honly hstep
    | receive => exact ih.receive hstep

/-- Where only failures are reported, the loop ends when every send has finished. -/
theorem settles_of_only_failures
    (honly : ∀ a ∈ gateways, ∀ r, report kind fails a = some r → r = .error a) :
    Settles kind fails gateways := by
  intro s hs
  have h := hs.tally honly
  refine ⟨h.calm, ?_⟩
  intro hret a ha
  obtain ⟨hfl, hch⟩ := h.ended hret
  constructor
  · intro hin
    by_contra hf
    have hdue := h.due a ha (by simpa using hf)
    simp [hfl, hch, hin] at hdue
  · exact h.healthy a ha

/-- The one send of a push to a single healthy gateway. -/
structure Alone (a : Addr) (s : Push) : Prop where
  calm : s.panicked = false
  list : s.list = [a]
  inFlight : s.inFlight = [] ∨ s.inFlight = [a] ∧ s.channel = [] ∧ s.returned = false
  channel : ∀ r ∈ s.channel, r = .ok ()

theorem Reached.alone {a : Addr} (ha : fails a = false) (h : Reached .group fails [a] s) :
    Alone a s := by
  induction h with
  | start h =>
    obtain rfl := start_eq h
    exact ⟨rfl, rfl, .inr ⟨rfl, rfl, rfl⟩, by simp⟩
  | @step s t e _ hstep ih =>
    cases e with
    | complete b =>
      obtain ⟨hb, hcases⟩ := step_complete hstep
      obtain hfl | ⟨hfl, -, hret⟩ := ih.inFlight
      · rw [hfl] at hb
        cases hb
      · rw [hfl, List.mem_singleton] at hb
        subst hb
        obtain ⟨hr, -⟩ | ⟨r, hr, rfl⟩ := hcases
        · simp [report, ha] at hr
        · obtain rfl : .ok () = r := by simpa [report, ha] using hr
          simp only [send, hret, Bool.false_eq_true, if_false]
          refine ⟨ih.calm, ih.list, .inl (by simp [hfl]), ?_⟩
          intro r hr
          obtain hr | hr := List.mem_append.mp hr
          · exact ih.channel r hr
          · exact List.mem_singleton.mp hr
    | receive =>
      obtain ⟨hret, ⟨b, rest, hc, rfl⟩ | ⟨rest, hc, rfl⟩ | ⟨hc, hf, rfl⟩⟩ := step_receive hstep
      · have hr := ih.channel _ (hc ▸ List.mem_cons_self)
        cases hr
      · obtain hfl | ⟨-, hnil, -⟩ := ih.inFlight
        · exact ⟨ih.calm, ih.list, .inl hfl, fun r hr => ih.channel r (hc ▸ List.mem_cons_of_mem _ hr)⟩
        · rw [hnil] at hc
          cases hc
      · exact ⟨ih.calm, ih.list, .inl hf, ih.channel⟩

/-- A success that is received first ends the loop, and the next send panics. -/
theorem not_settles_of_success {a : Addr} (ha : a ∈ gateways) (hfa : fails a = false)
    (hlen : 1 < gateways.length) : ¬ Settles .group fails gateways := by
  intro h
  obtain ⟨b, hb⟩ : ∃ b, b ∈ gateways.erase a := by
    apply List.exists_mem_of_length_pos
    rw [List.length_erase_of_mem ha]
    omega
  have hne : gateways ≠ [] := List.ne_nil_of_mem ha
  have hstart : Reached .group fails gateways ⟨gateways, gateways, [], false, false⟩ :=
    .start (if_neg hne)
  have hdone : Reached .group fails gateways
      ⟨gateways, gateways.erase a, [.ok ()], false, false⟩ := by
    apply hstart.step (.complete a)
    simp [step, ha, report, hfa, send]
  have hreturned : Reached .group fails gateways ⟨gateways, gateways.erase a, [], true, false⟩ := by
    apply hdone.step .receive
    simp [step]
  have hpanic : Reached .group fails gateways
      ⟨gateways, (gateways.erase a).erase b, [], true, true⟩ := by
    apply hreturned.step (.complete b)
    cases hfb : fails b <;> simp [step, hb, report, hfb, send]
  have := (h _ hpanic).1
  cases this

/-- What is left to do. -/
def remaining (s : Push) : Nat :=
  2 * s.inFlight.length + s.channel.length + if s.returned then 0 else 1

theorem remaining_step {e : PushEvent} (h : s.step kind fails e = some t) :
    t.remaining < s.remaining := by
  cases e with
  | complete a =>
    obtain ⟨ha, hcases⟩ := step_complete h
    have hlen := List.length_erase_of_mem ha
    have hpos := List.length_pos_of_mem ha
    obtain ⟨-, rfl⟩ | ⟨r, -, rfl⟩ := hcases
    · simp only [remaining, hlen]
      omega
    · unfold send
      split
      · simp only [remaining, hlen]
        omega
      · simp only [remaining, hlen, List.length_append, List.length_singleton]
        omega
  | receive =>
    obtain ⟨hret, ⟨a, rest, hc, rfl⟩ | ⟨rest, hc, rfl⟩ | ⟨hc, hf, rfl⟩⟩ := step_receive h
    · simp [remaining, hc]
    · simp only [remaining, hc, hret, List.length_cons, if_true, Bool.false_eq_true, if_false]
      omega
    · simp [remaining, hc, hf, hret]

/-- A push that has not returned goes on, so it returns after finitely many events. -/
theorem exists_step (hret : s.returned = false) : ∃ e, (s.step kind fails e).isSome = true := by
  cases hf : s.inFlight with
  | cons a rest =>
    refine ⟨.complete a, ?_⟩
    cases hr : report kind fails a <;> simp [step, hf, hr]
  | nil =>
    refine ⟨.receive, ?_⟩
    match hc : s.channel with
    | .error a :: rest => simp [step, hret, hc]
    | .ok () :: rest => simp [step, hret, hc]
    | [] => simp [step, hret, hc, hf]

/-- The sends finish one after the other before the loop begins. -/
theorem Reached.complete_all {list todo : List Addr} {channel : List (Except Addr Unit)}
    (h : Reached kind fails gateways ⟨list, todo, channel, false, false⟩) :
    Reached kind fails gateways
      ⟨list, [], channel ++ todo.filterMap (report kind fails), false, false⟩ := by
  induction todo generalizing channel with
  | nil => simpa using h
  | cons a todo ih =>
    cases hr : report kind fails a with
    | none =>
      rw [List.filterMap_cons_none hr]
      apply ih
      apply h.step (.complete a)
      simp [Push.step, hr]
    | some r =>
      rw [List.filterMap_cons_some hr, List.append_cons]
      apply ih
      apply h.step (.complete a)
      simp [Push.step, hr, send]

/-- The gateways of the failures before the first success. -/
def failuresFirst : List (Except Addr Unit) → List Addr
  | .error a :: rest => a :: failuresFirst rest
  | _ => []

theorem Reached.receive_all {list : List Addr} {channel : List (Except Addr Unit)}
    (h : Reached kind fails gateways ⟨list, [], channel, false, false⟩) :
    ∃ rest, Reached kind fails gateways
      ⟨list.filter (· ∉ failuresFirst channel), [], rest, true, false⟩ := by
  induction channel generalizing list with
  | nil =>
    refine ⟨[], ?_⟩
    apply h.step .receive
    simp [Push.step, failuresFirst]
  | cons r rest ih =>
    cases r with
    | error a =>
      have hfilter : list.filter (· ∉ failuresFirst (.error a :: rest)) =
          (list.filter (· ≠ a)).filter (· ∉ failuresFirst rest) := by
        rw [List.filter_filter]
        apply List.filter_congr
        intro b _
        simp [failuresFirst, Bool.and_comm]
      rw [hfilter]
      apply ih
      apply h.step .receive
      simp [Push.step]
    | ok u =>
      refine ⟨rest, ?_⟩
      apply h.step .receive
      simp [Push.step, failuresFirst]

end Push

namespace Pusher

/-- The gateways that do not answer. -/
def gone (w : World) (addr : Addr) : Bool := (w.gateways addr).isNone

def answer (w : World) (addr : Addr) : Except Error Unit :=
  if gone w addr then .error unreachable else .ok ()

theorem exec_rpc (sends : Hub → List (Client × Msg)) (addr : Addr) (w : World) :
    ∃ t, Prog.exec (rpc sends addr) w = (answer w addr, t) ∧ t.gateways = w.gateways ∧
      t.wsRpcList = w.wsRpcList := by
  rw [rpc, Prog.exec_request, answer, gone]
  cases w.gateways addr with
  | none => exact ⟨w, rfl, rfl, rfl⟩
  | some hub => exact ⟨_, rfl, rfl, rfl⟩

theorem exec_all_rpc (sends : Hub → List (Client × Msg)) (gateways : List Addr) (w : World) :
    ∃ t, Prog.exec (Prog.all (gateways.map (rpc sends))) w = (.ok (gateways.map (answer w)), t) ∧
      t.wsRpcList = w.wsRpcList := by
  induction gateways generalizing w with
  | nil => exact ⟨w, rfl, rfl⟩
  | cons addr gateways ih =>
    obtain ⟨t, ht, hgateways, hlist⟩ := exec_rpc sends addr w
    obtain ⟨u, hu, hlist'⟩ := ih t
    have hanswer : answer t = answer w := by
      funext a
      unfold answer gone
      rw [hgateways]
    refine ⟨u, ?_, hlist'.trans hlist⟩
    simp [Prog.all, Prog.exec_bind, ht, hu, hanswer]

theorem exec_connectedGateways {w : World} (hne : w.wsRpcList ≠ []) :
    Prog.exec connectedGateways w = (.ok w.wsRpcList, w) := by
  simp [connectedGateways, wsRpcList, Prog.exec_bind, Prog.onlyIf, hne]

theorem failures_single (w : World) (gateways : List Addr) :
    ((gateways.zip (gateways.map (answer w))).filter isError).map Prod.fst =
      Push.failuresFirst (gateways.filterMap (Push.report .single (gone w))) := by
  induction gateways with
  | nil => rfl
  | cons addr gateways ih =>
    cases hg : gone w addr with
    | true => simpa [List.filter_cons, answer, isError, Push.report, Push.failuresFirst, hg] using ih
    | false => simpa [List.filter_cons, answer, isError, Push.report, Push.failuresFirst, hg] using ih

theorem failures_group (w : World) (gateways : List Addr) :
    ((gateways.zip (gateways.map (answer w))).takeWhile isError).map Prod.fst =
      Push.failuresFirst (gateways.filterMap (Push.report .group (gone w))) := by
  induction gateways with
  | nil => rfl
  | cons addr gateways ih =>
    cases hg : gone w addr with
    | true =>
      simpa [List.takeWhile_cons, answer, isError, Push.report, Push.failuresFirst, hg] using ih
    | false => simp [answer, isError, Push.report, Push.failuresFirst, hg]

/-- The gateways that the pusher is left with are those of one order of the sends. -/
theorem wsRpcList_pushSingleMsg {w : World} (hne : w.wsRpcList ≠ []) (request : Msg) :
    ∃ s, Push.Reached .single (gone w) w.wsRpcList s ∧ s.returned = true ∧
      s.list = ((pushSingleMsg request).after w).wsRpcList := by
  have hstart : Push.Reached .single (gone w) w.wsRpcList
    ⟨w.wsRpcList, w.wsRpcList, [], false, false⟩ := .start (if_neg hne)
  obtain ⟨rest, hs⟩ := hstart.complete_all.receive_all
  refine ⟨_, hs, rfl, ?_⟩
  obtain ⟨t, ht, hlist⟩ :=
    exec_all_rpc (fun hub => hub.sendSingleMsg request.receiverId request) w.wsRpcList w
  simp [Prog.after, pushSingleMsg, Prog.exec_bind, exec_connectedGateways hne, ht, remove,
    failures_single, hlist]

theorem wsRpcList_pushGroupMsg {w : World} (hne : w.wsRpcList ≠ []) (msg : Msg)
    (members : List GroupMemSeq) :
    ∃ s, Push.Reached .group (gone w) w.wsRpcList s ∧ s.returned = true ∧
      s.list = ((pushGroupMsg msg members).after w).wsRpcList := by
  have hstart : Push.Reached .group (gone w) w.wsRpcList
    ⟨w.wsRpcList, w.wsRpcList, [], false, false⟩ := .start (if_neg hne)
  obtain ⟨rest, hs⟩ := hstart.complete_all.receive_all
  refine ⟨_, hs, rfl, ?_⟩
  obtain ⟨t, ht, hlist⟩ := exec_all_rpc (fun hub => hub.sendGroup members msg) w.wsRpcList w
  simp [Prog.after, pushGroupMsg, Prog.exec_bind, exec_connectedGateways hne, ht, remove,
    failures_group, hlist]

end Pusher

/-- Single messages drop the failed gateways and keep the others, in every order of the
sends. Group messages do so exactly when every send fails or there is but one gateway. -/
theorem push_settles_iff (gateways : List Addr) (fails : Addr → Bool) :
    Push.Settles .single fails gateways ∧
      (Push.Settles .group fails gateways ↔
        (∀ a ∈ gateways, fails a = true) ∨ gateways.length ≤ 1) := by
  constructor
  · apply Push.settles_of_only_failures
    intro a _ r hr
    cases hf : fails a with
    | true => simpa [Push.report, hf, eq_comm] using hr
    | false => simp [Push.report, hf] at hr
  · constructor
    · intro h
      by_contra hcond
      rw [not_or, not_forall] at hcond
      obtain ⟨⟨a, ha⟩, hlen⟩ := hcond
      rw [Classical.not_imp, Bool.not_eq_true] at ha
      exact Push.not_settles_of_success ha.1 ha.2 (by omega) h
    · intro hcond
      by_cases hall : ∀ a ∈ gateways, fails a = true
      · apply Push.settles_of_only_failures
        intro a ha r hr
        simpa [Push.report, hall a ha, eq_comm] using hr
      · have hlen := hcond.resolve_left hall
        match gateways, hlen with
        | [], _ => simp at hall
        | [a], _ =>
          simp only [List.mem_singleton, forall_eq, Bool.not_eq_true] at hall
          intro s hs
          have h := hs.alone hall
          exact ⟨h.calm, by simp [h.list, hall]⟩

/-- Two gateways, the second one gone: a group push that hears of the success first. -/
theorem failed_gateway_kept :
    ¬ Push.Settles .group (fun addr => addr = 1) [0, 1] ∧
      ∃ s, Push.Reached .group (fun addr => addr = 1) [0, 1] s ∧ s.returned = true ∧ 1 ∈ s.list := by
  have hreturned : Push.Reached .group (fun addr => addr = 1) [0, 1] ⟨[0, 1], [1], [], true, false⟩ :=
    ((Push.Reached.start rfl).step (.complete 0) rfl).step .receive rfl
  refine ⟨?_, _, hreturned, rfl, by decide⟩
  intro h
  exact absurd ((h _ hreturned).2 rfl 1 (by decide)) (by decide)

end Sandcat
