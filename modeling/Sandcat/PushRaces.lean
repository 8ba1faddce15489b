import Sandcat.Pushing
import Sandcat.Undisturbed
import Sandcat.Lib.Changes

/-!
# Pushes side by side

The pushes share the connected gateways with each other and with the task that follows the registry. A
push looks whether there is one, may ask the registry, and makes a channel with a slot for each of them
after that. A channel without a slot panics.
-/

namespace Sandcat

open Changes

/-- What `handle_sub_services` reads of an entry of the registry. -/
structure Service where
  scheme : String
  address : String
  port : Int

namespace Service

def addr (s : Service) : String := s.address ++ ":" ++ toString s.port

def url (s : Service) : String := s.scheme ++ "://" ++ s.addr

end Service

/-- Socket addresses as they are parsed, and the texts that `Endpoint::from_shared` accepts. -/
structure Addressing where
  parse : String → Option Addr
  fromShared : String → Bool

/-- One turn of `handle_sub_services`: the key of the new entry, if the service answers. -/
def Addressing.subService (net : Addressing) (connects : Bool) (service : Service) : Option Addr :=
  match net.parse service.addr with
  | none => none
  | some socket =>
    if !net.fromShared service.url then none
    else if connects then some socket
    else none

/-- What a push is about to do. A push that has failed returned the error of the registry. -/
inductive PushStage where
  | idle
  | querying (kind : PushKind)
  | connecting (kind : PushKind) (services : List Service)
  | spawning (kind : PushKind)
  | pushing (kind : PushKind) (push : Push)
  | failed (e : Error)
  | panicked

/-- The changes that the registry reports, and the steps of the pushes. -/
inductive PushOp (ι : Type) where
  | change (c : Change Addr Unit) (connects : Bool)
  | check (i : ι) (kind : PushKind)
  | query (i : ι) (answer : Except String (List Service))
  | connect (i : ι) (connects : Bool)
  | channel (i : ι)
  | spawn (i : ι)
  | event (i : ι) (fails : Addr → Bool) (e : PushEvent)

/-- `ws_rpc_list`, the pushes, and what was done to the list. -/
structure PushRun (ι : Type) where
  wsRpcList : List Addr
  stages : ι → PushStage
  changes : List (Change Addr Unit)

/-- What `receive` removes from the list. -/
def Push.removed (p : Push) : PushEvent → List (Change Addr Unit)
  | .complete _ => []
  | .receive =>
    match p.channel with
    | .error addr :: _ => [.remove addr]
    | _ => []

namespace PushRun

variable {ι : Type}

def start (gateways : List Addr) : PushRun ι := ⟨gateways, fun _ => .idle, []⟩

/-- `insert` and `remove` of the map. -/
def apply (s : PushRun ι) (c : Change Addr Unit) : PushRun ι :=
  match c with
  | .insert addr _ =>
    { s with
      wsRpcList := if addr ∈ s.wsRpcList then s.wsRpcList else s.wsRpcList ++ [addr]
      changes := s.changes ++ [c] }
  | .remove addr =>
    { s with wsRpcList := s.wsRpcList.filter (· ≠ addr), changes := s.changes ++ [c] }

section Step

variable [DecidableEq ι]

def enter (i : ι) (stage : PushStage) (s : PushRun ι) : PushRun ι :=
  { s with stages := Function.update s.stages i stage }

/-- The effect of a step. A new entry is connected to before it is inserted. -/
def step (net : Addressing) (s : PushRun ι) : PushOp ι → PushRun ι
  | .change c connects =>
    match c, connects with
    | .insert _ _, false => s
    | _, _ => s.apply c
  | .check i kind =>
    match s.stages i with
    | .idle => s.enter i (if s.wsRpcList.isEmpty then .querying kind else .connecting kind [])
    | _ => s
  | .query i answer =>
    match s.stages i, answer with
    | .querying kind, .ok services => s.enter i (.connecting kind services)
    | .querying _, .error e => s.enter i (.failed (.mk .internalServer (some e)))
    | _, _ => s
  | .connect i connects =>
    match s.stages i with
    | .connecting kind (service :: services) =>
      match net.subService connects service with
      | some socket => (s.apply (.insert socket ())).enter i (.connecting kind services)
      | none => s.enter i (.connecting kind services)
    | _ => s
  | .channel i =>
    match s.stages i with
    | .connecting kind [] => s.enter i (if s.wsRpcList.isEmpty then .panicked else .spawning kind)
    | _ => s
  | .spawn i =>
    match s.stages i with
    | .spawning kind => s.enter i (.pushing kind ⟨s.wsRpcList, s.wsRpcList, [], false, false⟩)
    | _ => s
  | .event i fails e =>
    match s.stages i with
    | .pushing kind p =>
      match { p with list := s.wsRpcList }.step kind fails e with
      | some p' =>
        { s with wsRpcList := p'.list, changes := s.changes ++ p.removed e }.enter i (.pushing kind p')
      | none => s
    | _ => s

def run (net : Addressing) (s : PushRun ι) (ops : List (PushOp ι)) : PushRun ι :=
  ops.foldl (step net) s

end Step

variable {net : Addressing} {s s' : PushRun ι} {i j : ι}

theorem toFinset_apply (c : Change Addr Unit) :
    (s.apply c).wsRpcList.toFinset = c.apply s.wsRpcList.toFinset := by
  cases c with
  | insert addr _ =>
    change (if addr ∈ s.wsRpcList then s.wsRpcList else s.wsRpcList ++ [addr]).toFinset =
      insert addr s.wsRpcList.toFinset
    split
    · rename_i hmem
      rw [Finset.insert_eq_self.mpr (List.mem_toFinset.mpr hmem)]
    · ext a
      simp only [List.mem_toFinset, List.mem_append, List.mem_singleton, Finset.mem_insert]
      exact or_comm
  | remove addr =>
    change (s.wsRpcList.filter (· ≠ addr)).toFinset = s.wsRpcList.toFinset.erase addr
    ext a
    simp [and_comm]

theorem apply_insert_ne_nil (socket : Addr) : (s.apply (.insert socket ())).wsRpcList ≠ [] := by
  intro hnil
  have hmem : socket ∈ (s.apply (.insert socket ())).wsRpcList.toFinset := by
    rw [toFinset_apply]
    exact Finset.mem_insert_self ..
  rw [hnil] at hmem
  cases hmem

/-- What a step of a push does to the list. -/
theorem step_removed {kind : PushKind} {fails : Addr → Bool} {p p' : Push} {e : PushEvent}
    (h : p.step kind fails e = some p') :
    p'.list.toFinset = applyAll p.list.toFinset (p.removed e) := by
  cases e with
  | complete addr =>
    obtain ⟨-, ⟨-, rfl⟩ | ⟨result, -, rfl⟩⟩ := Push.step_complete h
    · rfl
    · unfold Push.send
      split <;> rfl
  | receive =>
    obtain ⟨-, ⟨addr, rest, hchannel, rfl⟩ | ⟨rest, hchannel, rfl⟩ | ⟨hchannel, -, rfl⟩⟩ :=
      Push.step_receive h
    · have hremoved : p.removed .receive = [.remove addr] := by simp [Push.removed, hchannel]
      rw [hremoved, applyAll_cons_remove, applyAll_nil]
      ext a
      simp [and_comm]
    · have hremoved : p.removed .receive = [] := by simp [Push.removed, hchannel]
      rw [hremoved, applyAll_nil]
    · have hremoved : p.removed .receive = [] := by simp [Push.removed, hchannel]
      rw [hremoved, applyAll_nil]

/-- The list follows the changes. -/
def Follows (s s' : PushRun ι) : Prop :=
  ∃ cs, s'.changes = s.changes ++ cs ∧ s'.wsRpcList.toFinset = applyAll s.wsRpcList.toFinset cs

theorem follows_refl (s : PushRun ι) : Follows s s := ⟨[], (List.append_nil _).symm, rfl⟩

theorem follows_apply (s : PushRun ι) (c : Change Addr Unit) : Follows s (s.apply c) :=
  ⟨[c], by cases c <;> rfl, toFinset_apply c⟩

theorem Follows.trans {s'' : PushRun ι} (h : Follows s s') (h' : Follows s' s'') :
    Follows s s'' := by
  obtain ⟨cs, hchanges, hlist⟩ := h
  obtain ⟨ds, hchanges', hlist'⟩ := h'
  refine ⟨cs ++ ds, ?_, ?_⟩
  · rw [hchanges', hchanges, List.append_assoc]
  · rw [hlist', hlist, applyAll_append]

/-- A push that gets to its channel when no gateway is there. -/
def AtEmpty (i : ι) (s : PushRun ι) : Prop :=
  (∃ kind, s.stages i = .connecting kind []) ∧ s.wsRpcList = []

/-- What a step does to the list, and which pushes panic in it. -/
structure Effect (op : PushOp ι) (s s' : PushRun ι) : Prop where
  follows : Follows s s'
  panicked : ∀ i, s'.stages i = .panicked ↔ s.stages i = .panicked ∨ op = .channel i ∧ s.AtEmpty i

/-- A step in which no push goes on. -/
theorem effect_kept {op : PushOp ι} (hfollows : Follows s s') (hstages : s'.stages = s.stages)
    (hquiet : ∀ i, op = .channel i → ¬ s.AtEmpty i) : Effect op s s' := by
  refine ⟨hfollows, fun i => ?_⟩
  rw [hstages]
  exact (or_iff_left fun ⟨hop, hempty⟩ => hquiet i hop hempty).symm

variable [DecidableEq ι]

/-- A step of the push `i`. -/
theorem effect_enter {op : PushOp ι} {stage : PushStage} (hfollows : Follows s s')
    (hstages : s'.stages = s.stages) (hi : s.stages i ≠ .panicked)
    (hother : ∀ j, op = .channel j → j = i)
    (hstage : stage = .panicked ↔ op = .channel i ∧ s.AtEmpty i) : Effect op s (s'.enter i stage) := by
  refine ⟨hfollows, fun j => ?_⟩
  by_cases hj : j = i
  · subst hj
    have hself : (s'.enter j stage).stages j = stage := Function.update_self ..
    rw [hself, hstage]
    exact (or_iff_right hi).symm
  · have hstage : (s'.enter i stage).stages j = s.stages j :=
      (Function.update_of_ne hj ..).trans (congrFun hstages j)
    rw [hstage]
    exact (or_iff_left fun ⟨hop, _⟩ => hj (hother j hop)).symm

theorem effect_step (op : PushOp ι) : Effect op s (s.step net op) := by
  have hrefl := follows_refl s
  cases op with
  | change c connects =>
    simp only [step]
    split
    · exact effect_kept hrefl rfl nofun
    · exact effect_kept (follows_apply s c) (by cases c <;> rfl) nofun
  | check i kind =>
    simp only [step]
    split
    · rename_i hstage
      refine effect_enter hrefl rfl (by simp [hstage]) nofun (iff_of_false ?_ nofun)
      split <;> nofun
    · exact effect_kept hrefl rfl nofun
  | query i answer =>
    simp only [step]
    split
    · rename_i hstage
      exact effect_enter hrefl rfl (by simp [hstage]) nofun (iff_of_false nofun nofun)
    · rename_i hstage
      exact effect_enter hrefl rfl (by simp [hstage]) nofun (iff_of_false nofun nofun)
    · exact effect_kept hrefl rfl nofun
  | connect i connects =>
    simp only [step]
    split
    · rename_i kind service services hstage
      split
      · exact effect_enter (follows_apply s _) rfl (by simp [hstage]) nofun (iff_of_false nofun nofun)
      · exact effect_enter hrefl rfl (by simp [hstage]) nofun (iff_of_false nofun nofun)
    · exact effect_kept hrefl rfl nofun
  | channel i =>
    simp only [step]
    split
    · rename_i kind hstage
      refine effect_enter hrefl rfl (by simp [hstage]) ?_ ?_
      · rintro j ⟨⟩
        rfl
      · cases hlist : s.wsRpcList with
        | nil => exact iff_of_true rfl ⟨rfl, ⟨kind, hstage⟩, hlist⟩
        | cons addr list =>
          refine iff_of_false nofun ?_
          rintro ⟨-, -, hnil⟩
          rw [hlist] at hnil
          cases hnil
    · rename_i hstage
      refine effect_kept hrefl rfl ?_
      rintro j ⟨⟩ ⟨⟨kind, hconnecting⟩, -⟩
      exact hstage kind hconnecting
  | spawn i =>
    simp only [step]
    split
    · rename_i kind hstage
      exact effect_enter hrefl rfl (by simp [hstage]) nofun (iff_of_false nofun nofun)
    · exact effect_kept hrefl rfl nofun
  | event i fails e =>
    simp only [step]
    split
    · rename_i kind p hstage
      cases hstep : { p with list := s.wsRpcList }.step kind fails e with
      | none => exact effect_kept hrefl rfl nofun
      | some p' =>
        refine effect_enter ⟨_, rfl, ?_⟩ rfl (by simp [hstage]) nofun (iff_of_false nofun nofun)
        exact step_removed hstep
    · exact effect_kept hrefl rfl nofun

theorem follows_run (net : Addressing) (s : PushRun ι) (ops : List (PushOp ι)) :
    Follows s (s.run net ops) := by
  induction ops generalizing s with
  | nil => exact follows_refl s
  | cons op ops ih => exact (effect_step op).follows.trans (ih _)

/-- A push panics at its channel and nowhere else. -/
theorem panicked_run_iff (s : PushRun ι) (ops : List (PushOp ι)) (i : ι) :
    (s.run net ops).stages i = .panicked ↔ s.stages i = .panicked ∨
      ∃ before after, ops = before ++ .channel i :: after ∧ (s.run net before).AtEmpty i := by
  induction ops generalizing s with
  | nil => simp [run]
  | cons op ops ih =>
    refine (ih _).trans ?_
    rw [(effect_step op).panicked i, or_assoc]
    refine or_congr_right ?_
    constructor
    · rintro (⟨rfl, hempty⟩ | ⟨before, after, rfl, hempty⟩)
      · exact ⟨[], ops, rfl, hempty⟩
      · exact ⟨op :: before, after, rfl, hempty⟩
    · rintro ⟨before, after, hops, hempty⟩
      obtain ⟨rfl, hop⟩ | ⟨rest, rfl, hrest⟩ := List.cons_eq_append_iff.mp hops
      · cases hop
        exact .inl ⟨rfl, hempty⟩
      · exact .inr ⟨rest, after, hrest, hempty⟩

/-- The gateways that are there: those of the start and those connected to since, unless removed. -/
theorem run_start_eq_nil_iff (gateways : List Addr) (ops : List (PushOp ι)) :
    ((start gateways).run net ops).wsRpcList = [] ↔
      ¬∃ a, Stays gateways.toFinset a ((start gateways).run net ops).changes := by
  obtain ⟨cs, hchanges, hlist⟩ := follows_run net (start gateways) ops
  have hcs : ((start gateways).run net ops).changes = cs := hchanges
  rw [hcs, ← List.toFinset_eq_empty_iff, hlist, Finset.eq_empty_iff_forall_notMem]
  simp only [mem_applyAll_iff, not_exists, start]

/-- A push with nothing in between, up to its channel. -/
def alone (i : ι) (kind : PushKind) (answer : Except String (List Service))
    (connects : Service → Bool) : List (PushOp ι) :=
  .check i kind :: .query i answer ::
    ((answer.toOption.getD []).map fun service => .connect i (connects service)) ++ [.channel i]

section Alone

variable {connects : Service → Bool} {kind : PushKind}

theorem enter_stages (stage : PushStage) : (s.enter i stage).stages i = stage := Function.update_self ..

/-- The loop of `handle_sub_services`. -/
theorem run_connects (net : Addressing) (connects : Service → Bool) {services : List Service}
    (h : s.stages i = .connecting kind services) :
    let s' := s.run net (services.map fun service => .connect i (connects service))
    s'.stages i = .connecting kind [] ∧ (s'.wsRpcList = [] ↔ s.wsRpcList = [] ∧
      ∀ service ∈ services, net.subService (connects service) service = none) := by
  induction services generalizing s with
  | nil => simp [run, h]
  | cons service services ih =>
    cases hsub : net.subService (connects service) service with
    | none =>
      have hstep : s.step net (.connect i (connects service)) =
          s.enter i (.connecting kind services) := by simp [step, h, hsub]
      obtain ⟨hstage, hlist⟩ := ih (s := s.enter i (.connecting kind services)) (enter_stages _)
      rw [← hstep] at hstage hlist
      refine ⟨hstage, hlist.trans ?_⟩
      rw [hstep, List.forall_mem_cons, and_iff_right hsub]
      rfl
    | some socket =>
      have hstep : s.step net (.connect i (connects service)) =
          (s.apply (.insert socket ())).enter i (.connecting kind services) := by simp [step, h, hsub]
      obtain ⟨hstage, hlist⟩ := ih (s := (s.apply (.insert socket ())).enter i _) (enter_stages _)
      rw [← hstep] at hstage hlist
      refine ⟨hstage, hlist.trans (iff_of_false ?_ ?_)⟩
      · rw [hstep]
        exact fun hnil => apply_insert_ne_nil socket hnil.1
      · intro hnone
        rw [hnone.2 service List.mem_cons_self] at hsub
        cases hsub

/-- With nothing left to connect to, the loop is over. -/
theorem run_connects_nil (services : List Service) (h : s.stages i = .connecting kind []) :
    s.run net (services.map fun service => .connect i (connects service)) = s := by
  induction services with
  | nil => rfl
  | cons service services ih =>
    have hstep : s.step net (.connect i (connects service)) = s := by simp [step, h]
    rw [List.map_cons, run, List.foldl_cons, hstep]
    exact ih

theorem step_channel_panicked_iff (h : s.stages i = .connecting kind []) :
    (s.step net (.channel i)).stages i = .panicked ↔ s.wsRpcList = [] := by
  rw [(effect_step (.channel i)).panicked i, h]
  simp [AtEmpty, h]

/-- A push that is alone panics when no gateway is there and none of the answer can be connected to. -/
theorem alone_panicked_iff (gateways : List Addr) (answer : Except String (List Service)) :
    ((start gateways).run net (alone i kind answer connects)).stages i = .panicked ↔
      gateways = [] ∧ ∃ services, answer = .ok services ∧
        ∀ service ∈ services, net.subService (connects service) service = none := by
  have hrun : ∀ services, answer.toOption.getD [] = services →
      (start gateways).run net (alone i kind answer connects) =
        (((((start gateways).step net (.check i kind)).step net (.query i answer)).run net
          (services.map fun service => .connect i (connects service))).step net (.channel i)) := by
    rintro services rfl
    exact List.foldl_concat ..
  cases gateways with
  | nil =>
    have hcheck : (start []).step net (.check i kind) = (start []).enter i (.querying kind) := rfl
    rw [hrun _ rfl, hcheck]
    cases answer with
    | error e =>
      simp [step, enter, run, Except.toOption]
    | ok services =>
      have hquery : ((start []).enter i (.querying kind)).step net (.query i (.ok services)) =
          ((start []).enter i (.querying kind)).enter i (.connecting kind services) := by
        simp [step, enter_stages]
      obtain ⟨hstage, hlist⟩ := run_connects net connects
        (s := ((start []).enter i (.querying kind)).enter i (.connecting kind services)) (enter_stages _)
      rw [hquery]
      refine (step_channel_panicked_iff hstage).trans (hlist.trans ?_)
      simp [start, enter]
  | cons addr gateways =>
    have hcheck : (start (addr :: gateways)).step net (.check i kind) =
        (start (addr :: gateways)).enter i (.connecting kind []) := rfl
    have hquery : ((start (addr :: gateways)).enter i (.connecting kind [])).step net (.query i answer) =
        (start (addr :: gateways)).enter i (.connecting kind []) := by
      simp [step, enter_stages]
    rw [hrun _ rfl, hcheck, hquery, run_connects_nil _ (enter_stages _),
      step_channel_panicked_iff (enter_stages _)]
    simp [start, enter]

/-- It is the push on the gateways of a world. -/
theorem alone_panicked_iff_connected {w : World} {services : List Service}
    (hservices : services.map (fun service => net.subService (connects service) service) =
      w.serviceCenter.map fun entry => entry.filter fun addr => (w.gateways addr).isSome) :
    ((start w.wsRpcList).run net (alone i kind (.ok services) connects)).stages i = .panicked ↔
      w.connected = [] := by
  have hnone : (∀ service ∈ services, net.subService (connects service) service = none) ↔
      ∀ entry ∈ w.serviceCenter, (entry.filter fun addr => (w.gateways addr).isSome) = none := by
    rw [← List.forall_mem_map (P := (· = none)), hservices, List.forall_mem_map]
  rw [alone_panicked_iff, World.connected]
  split
  · rename_i hlist
    simp [List.isEmpty_iff.mp hlist, hnone, List.dedup_eq_nil]
  · rename_i hlist
    refine iff_of_false (fun h => hlist (by simp [h.1])) fun hnil => hlist (by simp [hnil])

end Alone

end PushRun

/-- Pushes that run side by side never panic if and only if, whenever one of them makes its channel, a
gateway of the start or one connected to since has not been removed. -/
theorem push_safe_iff {ι : Type} [DecidableEq ι] (net : Addressing) (gateways : List Addr)
    (ops : List (PushOp ι)) :
    (∀ i, ((PushRun.start gateways).run net ops).stages i ≠ .panicked) ↔
      ∀ before after i kind, ops = before ++ .channel i :: after →
        ((PushRun.start gateways).run net before).stages i = .connecting kind [] →
          ∃ a, Stays gateways.toFinset a ((PushRun.start gateways).run net before).changes := by
  constructor
  · intro hsafe before after i kind hops hstage
    by_contra hnone
    have hnil := (PushRun.run_start_eq_nil_iff gateways before).mpr hnone
    exact hsafe i ((PushRun.panicked_run_iff _ ops i).mpr
      (.inr ⟨before, after, hops, ⟨kind, hstage⟩, hnil⟩))
  · intro hstays i hpanicked
    obtain hstart | ⟨before, after, hops, ⟨kind, hstage⟩, hnil⟩ :=
      (PushRun.panicked_run_iff _ ops i).mp hpanicked
    · cases hstart
    · exact (PushRun.run_start_eq_nil_iff gateways before).mp hnil
        (hstays before after i kind hops hstage)

/-- No gateway is there and the registry knows none. -/
theorem push_not_safe : ¬∀ (net : Addressing) (gateways : List Addr) (ops : List (PushOp Unit))
    (i : Unit), ((PushRun.start gateways).run net ops).stages i ≠ .panicked := by
  intro h
  exact h ⟨fun _ => none, fun _ => true⟩ [] (PushRun.alone () .single (.ok []) fun _ => true) () rfl

end Sandcat
