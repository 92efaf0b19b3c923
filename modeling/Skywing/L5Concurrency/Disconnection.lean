import Mathlib.Algebra.BigOperators.Ring.Finset
import Mathlib.Algebra.Order.BigOperators.Group.Finset
import Mathlib.Data.Finset.Prod
import Skywing.Core.LTS
import Skywing.L3Protocol.ReduceGroup

/-!
# The flood of a disconnection notice

The participants of one reduce group, linked by FIFO channels. A participant
reports disconnections (`report_disconnection`), each under an id it has not
used; a notice is delivered to `propagate_disconnection`; either sends the
notice to all the group's machines it is connected to, the one it came from
included (`Manager::send_report_disconnection`). Reports and deliveries come
in any order, and the links are any finite graph, trees among them.

History: `acted` holds each acting of a participant on a notice, `reported`
the notices reported, `sent` counts the messages.

A participant remembers only the last id it heard from a machine, and a
reporter not even its own; and each neighbour sends the notice back.

Results:
* `acted_once_iff`: for given links and reports, everyone acts at most once on
  each notice in every order of delivery exactly where no reporter is linked
  with anyone; and so in each run at whose end nothing is in flight.
* `acts_twice`: on one link, one report is acted on twice by its reporter, and
  two reports are passed back and forth for ever.
-/
namespace Skywing.L5.Disconnection

open L3 L3.ReduceGroup

/-- `initiating_machine` and `id` of a ReportReduceDisconnection message. -/
abbrev Notice := MachineID × ReductionDisconnectID

/-- The machines `Manager::ReduceGroupInfo` lists at each participant; a
connection has two ends. -/
structure Links where
  members : Finset MachineID
  parentMachines : MachineID → List MachineID
  childMachines : MachineID → Fin 2 → List MachineID
  closed : ∀ i ∈ members, ∀ j ∈ parentMachines i ++ childMachines i 0 ++ childMachines i 1, j ∈ members
  symm : ∀ i ∈ members, ∀ j ∈ parentMachines i ++ childMachines i 0 ++ childMachines i 1,
    i ∈ parentMachines j ++ childMachines j 0 ++ childMachines j 1

/-- Whom `send_report_disconnection` sends to.
mirrors skywing/skywing_core/manager.cpp:1154-1164 -/
def Links.nbrs (T : Links) (i : MachineID) : List MachineID :=
  T.parentMachines i ++ T.childMachines i 0 ++ T.childMachines i 1

structure St (V : Type) where
  group : MachineID → ReduceGroup V
  /-- in flight from the first to the second -/
  chan : MachineID → MachineID → List Notice
  acted : List (MachineID × Notice)
  reported : List Notice
  sent : Nat

inductive Lbl
  | report (i : MachineID) (id : ReductionDisconnectID)
  | deliver (i j : MachineID)
  deriving DecidableEq, Repr

variable {V : Type}

def start (tagNeighbors : MachineID → ReduceGroupNeighbors) (groupId : TagID)
    (producedTag : MachineID → TagID) (expectedTypes : List UInt8) : St V where
  group i := create (tagNeighbors i) groupId (producedTag i) expectedTypes
  chan _ _ := []
  acted := []
  reported := []
  sent := 0

/-- Participant `i` acts on `n`: each of its neighbours is sent `n`. -/
def St.act (T : Links) (s : St V) (i : MachineID) (n : Notice) : St V :=
  { s with
    chan := fun a b => if a = i then s.chan a b ++ List.replicate ((T.nbrs i).count b) n else s.chan a b
    acted := (i, n) :: s.acted
    sent := s.sent + (T.nbrs i).length }

/-- The group of `i` has become `g` and sent `sends`. -/
def St.become (T : Links) (s : St V) (i : MachineID) (r : ReduceGroup V × List (Send V)) : St V :=
  r.2.foldl (fun s x => match x with
    | .disconnection m id => s.act T i (m, id)
    | _ => s) { s with group := Function.update s.group i r.1 }

def step (T : Links) (s : St V) : Lbl → Option (St V)
  | .report i id =>
    if i ∈ T.members ∧ (i, id) ∉ s.reported then
      some ({ s with reported := (i, id) :: s.reported }.become T i ((s.group i).reportDisconnection i id))
    else none
  | .deliver i j =>
    match s.chan i j with
    | [] => none
    | n :: rest =>
      let chan a b := if a = i ∧ b = j then rest else s.chan a b
      some ({ s with chan := chan }.become T j ((s.group j).propagateDisconnection n.1 n.2))

def lts (T : Links) (s₀ : St V) : LTS (St V) Lbl := LTS.ofFn (· = s₀) (step T)

/-! ## What is asked for -/

def ActedOnce (s : St V) : Prop := s.acted.Nodup

/-- Each report may cross every link once each way. -/
def Bounded (T : Links) (s : St V) : Prop :=
  s.sent ≤ (∑ i ∈ T.members, (T.nbrs i).length) * s.reported.length

/-- No notice is in flight. -/
def Delivered (s : St V) : Prop := ∀ i j, s.chan i j = []

/-- Of the machines that report, none is linked with anyone. -/
def Unlinked (T : Links) (reports : Set Notice) : Prop := ∀ n ∈ reports, n.1 ∈ T.members → T.nbrs n.1 = []

/-! ## What one step does -/

section Steps

variable {T : Links} {s t : St V}

theorem report_eq {i : MachineID} {id : ReductionDisconnectID} (h : step T s (.report i id) = some t) :
    i ∈ T.members ∧ (i, id) ∉ s.reported ∧
      t = { s with
        group := Function.update s.group i ((s.group i).reportDisconnection i id).1
        reported := (i, id) :: s.reported }.act T i (i, id) := by
  simp only [step] at h
  split at h
  · rename_i hc
    cases h
    exact ⟨hc.1, hc.2, rfl⟩
  · cases h

/-- The notice is the last heard of its machine, and dropped, or is acted on. -/
theorem deliver_cases {i j : MachineID} (h : step T s (.deliver i j) = some t) :
    ∃ n rest, s.chan i j = n :: rest ∧
      (((s.group j).lastHeardDisconnect.lookup n.1 = some n.2 ∧
          t = { s with
            chan := fun a b => if a = i ∧ b = j then rest else s.chan a b }) ∨
        (s.group j).lastHeardDisconnect.lookup n.1 ≠ some n.2 ∧
          ∃ g : ReduceGroup V, g.lastHeardDisconnect = (s.group j).lastHeardDisconnect.insert n.1 n.2 ∧
          t = { s with
            group := Function.update s.group j g
            chan := fun a b => if a = i ∧ b = j then rest else s.chan a b }.act T j n) := by
  simp only [step] at h
  split at h
  · cases h
  · rename_i n rest hch
    cases h
    refine ⟨n, rest, hch, ?_⟩
    by_cases hl : (s.group j).lastHeardDisconnect.lookup n.1 = some n.2
    · refine .inl ⟨hl, ?_⟩
      simp only [propagateDisconnection, if_pos hl, St.become, List.foldl_nil, Function.update_eq_self]
    · refine .inr ⟨hl, ((s.group j).propagateDisconnection n.1 n.2).1, ?_, ?_⟩
      · simp only [propagateDisconnection, if_neg hl]
      · simp only [propagateDisconnection, if_neg hl, St.become, List.foldl_cons, List.foldl_nil]

theorem deliver_acts {i j : MachineID} {n : Notice} {rest : List Notice}
    (hch : s.chan i j = n :: rest) (hl : (s.group j).lastHeardDisconnect.lookup n.1 ≠ some n.2) :
    step T s (.deliver i j) = some ({ s with
      group := Function.update s.group j ((s.group j).propagateDisconnection n.1 n.2).1
      chan := fun a b => if a = i ∧ b = j then rest else s.chan a b }.act T j n) := by
  simp only [step, hch, propagateDisconnection, if_neg hl, St.become, List.foldl_cons, List.foldl_nil]

/-- Who has acted on what, whatever happened: every notice has been reported,
and acted on by its reporter first; a participant has acted on what it
remembers, and on a notice of its own that it remembers twice. A notice is on
its way to a neighbour of the reporter or has been acted on there, and then it
is on its way back or has been acted on twice. -/
structure Inv (T : Links) (s : St V) : Prop where
  acted : ∀ e ∈ s.acted, e.1 ∈ T.members ∧ e.2 ∈ s.reported
  chan : ∀ i j, ∀ n ∈ s.chan i j, j ∈ T.members ∧ n ∈ s.reported
  own : ∀ n ∈ s.reported, (n.1, n) ∈ s.acted
  heard : ∀ i m id, (s.group i).lastHeardDisconnect.lookup m = some id → (i, (m, id)) ∈ s.acted ∧
    (m = i → 2 ≤ s.acted.count (i, (m, id)))
  sent : s.sent = (s.acted.map fun e => (T.nbrs e.1).length).sum
  out : ∀ n ∈ s.reported, ∀ j ∈ T.nbrs n.1, n ∈ s.chan n.1 j ∨ (j, n) ∈ s.acted
  back : ∀ j n, (j, n) ∈ s.acted → n.1 ∈ T.nbrs j → n ∈ s.chan j n.1 ∨ 2 ≤ s.acted.count (n.1, n)
  unlinked : Unlinked T {n | n ∈ s.reported} → Delivered s ∧ ActedOnce s

/-- Acting on what was acted on before. -/
theorem two_le_count {e : MachineID × Notice} {acted : List (MachineID × Notice)} (h : e ∈ acted) :
    2 ≤ (e :: acted).count e := by
  rw [List.count_cons_self]
  exact Nat.succ_le_succ (List.one_le_count_iff.mpr h)

theorem mem_chan_act {i a b : MachineID} {n m : Notice} (h : m ∈ (s.act T i n).chan a b) :
    m ∈ s.chan a b ∨ m = n ∧ a = i ∧ b ∈ T.nbrs i := by
  simp only [St.act] at h
  split at h
  · rename_i ha
    rcases List.mem_append.mp h with h | h
    · exact .inl h
    · obtain ⟨hc, rfl⟩ := List.mem_replicate.mp h
      exact .inr ⟨rfl, ha, List.count_pos_iff.mp (Nat.pos_of_ne_zero hc)⟩
  · exact .inl h

theorem mem_chan_act_of_mem {i a b : MachineID} {n m : Notice} (h : m ∈ s.chan a b) : m ∈ (s.act T i n).chan a b := by
  simp only [St.act]
  split
  · exact List.mem_append_left _ h
  · exact h

theorem mem_chan_act_self {i b : MachineID} {n : Notice} (h : b ∈ T.nbrs i) : n ∈ (s.act T i n).chan i b := by
  have hc : 0 < (T.nbrs i).count b := List.count_pos_iff.mpr h
  simp only [St.act]
  exact List.mem_append_right _ (List.mem_replicate.mpr ⟨hc.ne', rfl⟩)

theorem sum_act {i : MachineID} {n : Notice}
    (hs : s.sent = (s.acted.map fun e => (T.nbrs e.1).length).sum) :
    (s.act T i n).sent = ((s.act T i n).acted.map fun e => (T.nbrs e.1).length).sum := by
  simp only [St.act, List.map_cons, List.sum_cons]
  rw [hs]
  omega

/-- Whoever acts sends the notice back. -/
theorem back_act {i : MachineID} {n : Notice}
    (hs : ∀ j m, (j, m) ∈ s.acted → m.1 ∈ T.nbrs j →
      m ∈ (s.act T i n).chan j m.1 ∨ 2 ≤ (s.act T i n).acted.count (m.1, m))
    (j : MachineID) (m : Notice) (h : (j, m) ∈ (s.act T i n).acted) (hj : m.1 ∈ T.nbrs j) :
    m ∈ (s.act T i n).chan j m.1 ∨ 2 ≤ (s.act T i n).acted.count (m.1, m) := by
  rcases List.mem_cons.mp h with heq | h
  · cases heq
    exact .inl (mem_chan_act_self hj)
  · exact hs j m h hj

theorem Unlinked.of_cons {n : Notice} {reports : List Notice} (h : Unlinked T {m | m ∈ n :: reports}) :
    Unlinked T {m | m ∈ reports} := fun m hm => h m (List.mem_cons_of_mem n hm)

theorem inv_report {i : MachineID} {id : ReductionDisconnectID} (hs : Inv T s)
    (h : step T s (.report i id) = some t) : Inv T t := by
  obtain ⟨hi, hnew, rfl⟩ := report_eq h
  refine ⟨?_, ?_, ?_, ?_, sum_act hs.sent, ?_, back_act ?_, ?_⟩
  · intro e he
    rcases List.mem_cons.mp he with rfl | he
    · exact ⟨hi, List.mem_cons_self⟩
    · exact (hs.acted e he).imp_right (List.mem_cons_of_mem _)
  · intro a b m hm
    rcases mem_chan_act hm with hm | ⟨rfl, rfl, hb⟩
    · exact (hs.chan a b m hm).imp_right (List.mem_cons_of_mem _)
    · exact ⟨T.closed a hi b hb, List.mem_cons_self⟩
  · intro m hm
    rcases List.mem_cons.mp hm with rfl | hm
    · exact List.mem_cons_self
    · exact List.mem_cons_of_mem _ (hs.own m hm)
  · intro a m id' hl
    have hl' : (s.group a).lastHeardDisconnect.lookup m = some id' := by
      simp only [St.act, Function.update_apply] at hl
      split at hl
      · rename_i ha
        subst ha
        exact hl
      · exact hl
    obtain ⟨hmem, hown⟩ := hs.heard a m id' hl'
    exact ⟨List.mem_cons_of_mem _ hmem, fun he => le_trans (hown he) List.count_le_count_cons⟩
  · intro m hm j hj
    rcases List.mem_cons.mp hm with rfl | hm
    · exact .inl (mem_chan_act_self hj)
    · exact (hs.out m hm j hj).imp mem_chan_act_of_mem (List.mem_cons_of_mem _)
  · intro j m hm hj
    exact (hs.back j m hm hj).imp mem_chan_act_of_mem fun h => le_trans h List.count_le_count_cons
  · intro hu
    obtain ⟨hdel, honce⟩ := hs.unlinked hu.of_cons
    have hnone : T.nbrs i = [] := hu (i, id) List.mem_cons_self hi
    refine ⟨fun a b => ?_, List.nodup_cons.mpr ⟨fun hmem => hnew (hs.acted _ hmem).2, honce⟩⟩
    simp only [St.act, hnone, List.count_nil, List.replicate_zero, List.append_nil, ite_self]
    exact hdel a b

theorem mem_chan_pop {i j a b : MachineID} {n m : Notice} {rest : List Notice} (hch : s.chan i j = n :: rest)
    (h : m ∈ if a = i ∧ b = j then rest else s.chan a b) : m ∈ s.chan a b := by
  split at h
  · rename_i hab
    obtain ⟨rfl, rfl⟩ := hab
    rw [hch]
    exact List.mem_cons_of_mem n h
  · exact h

/-- What was in flight still is, or was delivered. -/
theorem mem_pop_of_mem_chan {i j a b : MachineID} {n m : Notice} {rest : List Notice} (hch : s.chan i j = n :: rest)
    (h : m ∈ s.chan a b) : m ∈ (if a = i ∧ b = j then rest else s.chan a b) ∨ b = j ∧ m = n := by
  split
  · rename_i hab
    rw [hab.1, hab.2, hch] at h
    exact (List.mem_cons.mp h).symm.imp_right fun h => ⟨hab.2, h⟩
  · exact .inl h

/-- A notice in flight is of a machine that is linked. -/
theorem Inv.not_unlinked {i j : MachineID} {n : Notice} {rest : List Notice} (hs : Inv T s)
    (hch : s.chan i j = n :: rest) : ¬ Unlinked T {m | m ∈ s.reported} := by
  intro hu
  have hnil := (hs.unlinked hu).1 i j
  rw [hch] at hnil
  cases hnil

/-- The notice is dropped. -/
theorem inv_drop {i j : MachineID} {n : Notice} {rest : List Notice} (hs : Inv T s) (hch : s.chan i j = n :: rest)
    (hl : (s.group j).lastHeardDisconnect.lookup n.1 = some n.2) :
    Inv T { s with chan := fun a b => if a = i ∧ b = j then rest else s.chan a b } := by
  obtain ⟨hacted, htwice⟩ := hs.heard j n.1 n.2 hl
  refine ⟨hs.acted, fun a b m hm => hs.chan a b m (mem_chan_pop hch hm), hs.own, hs.heard, hs.sent, ?_, ?_,
    fun hu => (hs.not_unlinked hch hu).elim⟩
  · intro m hm k hk
    rcases hs.out m hm k hk with hc | ha
    · refine (mem_pop_of_mem_chan hch hc).imp_right fun h => ?_
      rw [h.1, h.2]
      exact hacted
    · exact .inr ha
  · intro k m hm hk
    rcases hs.back k m hm hk with hc | ha
    · refine (mem_pop_of_mem_chan hch hc).imp_right fun h => ?_
      obtain ⟨hto, rfl⟩ := h
      rw [hto]
      exact htwice hto
    · exact .inr ha

/-- What `j` remembers after it has acted on `n`; what is its own it acted on
when reporting. -/
theorem heard_act {j : MachineID} {n : Notice} {group : MachineID → ReduceGroup V} {g : ReduceGroup V} (hs : Inv T s)
    (hn : n ∈ s.reported) (hg : g.lastHeardDisconnect = (s.group j).lastHeardDisconnect.insert n.1 n.2)
    (hgroup : group = Function.update s.group j g) (a m : MachineID) (id : ReductionDisconnectID)
    (h : (group a).lastHeardDisconnect.lookup m = some id) :
    (a, (m, id)) ∈ (j, n) :: s.acted ∧ (m = a → 2 ≤ ((j, n) :: s.acted).count (a, (m, id))) := by
  have hkept : (s.group a).lastHeardDisconnect.lookup m = some id →
      (a, (m, id)) ∈ (j, n) :: s.acted ∧ (m = a → 2 ≤ ((j, n) :: s.acted).count (a, (m, id))) := by
    intro hold
    obtain ⟨hmem, hown⟩ := hs.heard a m id hold
    exact ⟨List.mem_cons_of_mem _ hmem, fun he => le_trans (hown he) List.count_le_count_cons⟩
  subst hgroup
  by_cases ha : a = j
  · subst ha
    rw [Function.update_self, hg] at h
    by_cases hm : m = n.1
    · subst hm
      rw [AList.lookup_insert, Option.some.injEq] at h
      subst h
      refine ⟨List.mem_cons_self, ?_⟩
      rintro rfl
      exact two_le_count (hs.own n hn)
    · rw [AList.lookup_insert_ne hm] at h
      exact hkept h
  · rw [Function.update_of_ne ha] at h
    exact hkept h

/-- The notice is acted on. -/
theorem inv_act {i j : MachineID} {n : Notice} {rest : List Notice} {g : ReduceGroup V} (hs : Inv T s)
    (hch : s.chan i j = n :: rest) (hg : g.lastHeardDisconnect = (s.group j).lastHeardDisconnect.insert n.1 n.2) :
    Inv T ({ s with
      group := Function.update s.group j g
      chan := fun a b => if a = i ∧ b = j then rest else s.chan a b }.act T j n) := by
  obtain ⟨hj, hn⟩ := hs.chan i j n (hch ▸ List.mem_cons_self)
  refine ⟨?_, ?_, fun m hm => List.mem_cons_of_mem _ (hs.own m hm), heard_act (s := s) hs hn hg rfl,
    sum_act hs.sent, ?_,
    back_act ?_, fun hu => (hs.not_unlinked hch hu).elim⟩
  · intro e he
    rcases List.mem_cons.mp he with rfl | he
    · exact ⟨hj, hn⟩
    · exact hs.acted e he
  · intro a b m hm
    rcases mem_chan_act hm with hm | ⟨rfl, rfl, hb⟩
    · exact hs.chan a b m (mem_chan_pop hch hm)
    · exact ⟨T.closed a hj b hb, hn⟩
  · intro m hm k hk
    rcases hs.out m hm k hk with hc | ha
    · rcases mem_pop_of_mem_chan hch hc with hc | ⟨rfl, rfl⟩
      · exact .inl (mem_chan_act_of_mem hc)
      · exact .inr List.mem_cons_self
    · exact .inr (List.mem_cons_of_mem _ ha)
  · intro k m hm hk
    rcases hs.back k m hm hk with hc | ha
    · rcases mem_pop_of_mem_chan hch hc with hc | ⟨rfl, rfl⟩
      · exact .inl (mem_chan_act_of_mem hc)
      · exact .inr (two_le_count (hs.own _ hn))
    · exact .inr (le_trans ha List.count_le_count_cons)

theorem inv_deliver {i j : MachineID} (hs : Inv T s) (h : step T s (.deliver i j) = some t) : Inv T t := by
  obtain ⟨n, rest, hch, ⟨hl, rfl⟩ | ⟨-, g, hg, rfl⟩⟩ := deliver_cases h
  · exact inv_drop hs hch hl
  · exact inv_act hs hch hg

theorem inv_step {l : Lbl} (hs : Inv T s) (h : step T s l = some t) : Inv T t := by
  cases l with
  | report i id => exact inv_report hs h
  | deliver i j => exact inv_deliver hs h

end Steps

/-! ## The result -/

section Result

variable {T : Links} {s t : St V}

/-- Who has acted once on everything has sent a bounded number of messages. -/
theorem bounded_of_actedOnce (hs : Inv T s) (h : ActedOnce s) : Bounded T s := by
  have hsub : s.acted.toFinset ⊆ T.members ×ˢ s.reported.toFinset := by
    intro e he
    obtain ⟨h₁, h₂⟩ := hs.acted e (List.mem_toFinset.mp he)
    exact Finset.mem_product.mpr ⟨h₁, List.mem_toFinset.mpr h₂⟩
  calc s.sent = ∑ e ∈ s.acted.toFinset, (T.nbrs e.1).length := by
        rw [hs.sent, List.sum_toFinset _ h]
    _ ≤ ∑ e ∈ T.members ×ˢ s.reported.toFinset, (T.nbrs e.1).length :=
        Finset.sum_le_sum_of_subset hsub
    _ = (∑ i ∈ T.members, (T.nbrs i).length) * s.reported.toFinset.card := by
        rw [Finset.sum_product, Finset.sum_mul]
        refine Finset.sum_congr rfl fun i _ => ?_
        show ∑ _ ∈ s.reported.toFinset, (T.nbrs i).length = _
        rw [Finset.sum_const, Nat.nsmul_eq_mul, Nat.mul_comm]
    _ ≤ (∑ i ∈ T.members, (T.nbrs i).length) * s.reported.length :=
        Nat.mul_le_mul_left _ s.reported.toFinset_card_le

variable (tagNeighbors : MachineID → ReduceGroupNeighbors) (groupId : TagID)
  (producedTag : MachineID → TagID) (expectedTypes : List UInt8)

theorem inv_start : Inv T (start tagNeighbors groupId producedTag expectedTypes : St V) := by
  refine ⟨nofun, nofun, nofun, ?_, rfl, nofun, nofun, fun _ => ⟨fun _ _ => rfl, List.nodup_nil⟩⟩
  intro i m id h
  cases h

theorem inv_inductive (T : Links) :
    (lts T (start tagNeighbors groupId producedTag expectedTypes : St V)).Inductive (Inv T) where
  init := by
    rintro s rfl
    exact inv_start tagNeighbors groupId producedTag expectedTypes
  step _ _ _ h hst := inv_step h hst

/-- A reporter that is linked with someone is sent its notice back. -/
theorem actedOnce_iff_unlinked (hs : Inv T s) (hd : Delivered s) :
    ActedOnce s ↔ Unlinked T {n | n ∈ s.reported} := by
  refine ⟨fun honce n hn hi => ?_, fun hu => (hs.unlinked hu).2⟩
  refine List.eq_nil_iff_forall_not_mem.mpr fun j hj => ?_
  have hnone {i j : MachineID} {m : Notice} (h : m ∈ s.chan i j) : False := by
    rw [hd i j] at h
    cases h
  have hacted : (j, n) ∈ s.acted := (hs.out n hn j hj).resolve_left hnone
  have htwice : 2 ≤ s.acted.count (n.1, n) := (hs.back j n hacted (T.symm n.1 hi j hj)).resolve_left hnone
  have hone := List.nodup_iff_count_le_one.mp honce (n.1, n)
  omega

/-- A report and its echo. -/
theorem echo_acts_twice {n : Notice} (hi : n.1 ∈ T.members) {j : MachineID} (hj : j ∈ T.nbrs n.1) : ∃ t,
    (lts T (start tagNeighbors groupId producedTag expectedTypes : St V)).Reachable t ∧
      (∀ m ∈ t.reported, m = n) ∧ ¬ ActedOnce t := by
  generalize hs₀ : (start tagNeighbors groupId producedTag expectedTypes : St V) = s₀
  have hempty (a b : MachineID) : s₀.chan a b = [] := by rw [← hs₀]; rfl
  have hforgot (k : MachineID) : (s₀.group k).lastHeardDisconnect.lookup n.1 = none := by rw [← hs₀]; rfl
  have hacted : s₀.acted = [] ∧ s₀.reported = [] := by rw [← hs₀]; exact ⟨rfl, rfl⟩
  obtain ⟨k, hk⟩ := Nat.exists_eq_succ_of_ne_zero (List.count_pos_iff.mpr hj).ne'
  obtain ⟨k', hk'⟩ := Nat.exists_eq_succ_of_ne_zero (List.count_pos_iff.mpr (T.symm n.1 hi j hj)).ne'
  -- the report
  obtain ⟨t₁, hx₁⟩ : ∃ t₁, step T s₀ (.report n.1 n.2) = some t₁ :=
    ⟨_, if_pos ⟨hi, by rw [hacted.2]; exact List.not_mem_nil⟩⟩
  obtain ⟨-, -, ht₁⟩ := report_eq hx₁
  have hgroup₁ (a : MachineID) : (t₁.group a).lastHeardDisconnect.lookup n.1 = none := by
    rw [ht₁]
    simp only [St.act, Function.update_apply]
    split
    · exact hforgot n.1
    · exact hforgot a
  have hch₁ : t₁.chan n.1 j = n :: List.replicate k n := by
    simp [ht₁, St.act, hempty, show (T.nbrs n.1).count j = k + 1 from hk, List.replicate_succ]
  -- the neighbour sends it back
  have hacted₁ : t₁.acted = [(n.1, n)] ∧ t₁.reported = [n] := by
    rw [ht₁]
    exact ⟨congrArg (_ :: ·) hacted.1, congrArg (_ :: ·) hacted.2⟩
  have hx₂ := deliver_acts (T := T) hch₁ (by rw [hgroup₁]; exact nofun)
  have hr₂ := ((LTS.Reachable.init rfl : (lts T s₀).Reachable s₀).step hx₁).step hx₂
  by_cases hself : j = n.1
  · refine ⟨_, hr₂, ?_, fun honce => ?_⟩
    · exact fun m hm => List.mem_singleton.mp (hacted₁.2 ▸ hm)
    · refine (List.nodup_cons.mp honce).1 ?_
      show (j, n) ∈ t₁.acted
      rw [hacted₁.1, hself]
      exact List.mem_singleton_self _
  generalize ht₂ : St.act T _ j n = t₂ at hx₂ hr₂
  have hgroup₂ : (t₂.group n.1).lastHeardDisconnect.lookup n.1 = none := by
    rw [← ht₂]
    simp only [St.act, Function.update_of_ne (Ne.symm hself)]
    exact hgroup₁ n.1
  have hch₂ : t₂.chan j n.1 = n :: List.replicate k' n := by
    have hch : t₁.chan j n.1 = [] := by simp [ht₁, St.act, hempty, hself]
    simp [← ht₂, St.act, hch, hself, show (T.nbrs j).count n.1 = k' + 1 from hk', List.replicate_succ]
  have hx₃ := deliver_acts (T := T) hch₂ (by rw [hgroup₂]; exact nofun)
  refine ⟨_, hr₂.step hx₃, ?_, fun honce => ?_⟩
  · rw [← ht₂]
    exact fun m hm => List.mem_singleton.mp (hacted₁.2 ▸ hm)
  · refine (List.nodup_cons.mp honce).1 ?_
    rw [← ht₂]
    show (n.1, n) ∈ (j, n) :: t₁.acted
    rw [hacted₁.1]
    exact List.mem_cons_of_mem _ (List.mem_singleton_self _)

/-- **Acted on at most once, exactly where nothing is sent.** For given links
and reports everyone acts at most once on each notice, with boundedly many
messages, in all orders of delivery exactly if no reporter is linked with
anyone. The same is true of each run by the time all notices are delivered. -/
theorem acted_once_iff (T : Links) (reports : Set Notice) :
    ((∀ t, (lts T (start tagNeighbors groupId producedTag expectedTypes : St V)).Reachable t →
        (∀ n ∈ t.reported, n ∈ reports) → ActedOnce t ∧ Bounded T t) ↔ Unlinked T reports) ∧
      ∀ t, (lts T (start tagNeighbors groupId producedTag expectedTypes : St V)).Reachable t → Delivered t →
        (ActedOnce t ↔ Unlinked T {n | n ∈ t.reported}) := by
  have hinv := (inv_inductive (V := V) tagNeighbors groupId producedTag expectedTypes T).reachable
  refine ⟨⟨fun h n hn hi => ?_, fun hu t ht hr => ?_⟩, fun t ht hd => actedOnce_iff_unlinked (hinv t ht) hd⟩
  · refine List.eq_nil_iff_forall_not_mem.mpr fun j hj => ?_
    obtain ⟨t, ht, hr, htwice⟩ := echo_acts_twice tagNeighbors groupId producedTag expectedTypes hi hj
    exact htwice (h t ht fun m hm => hr m hm ▸ hn).1
  · have honce := ((hinv t ht).unlinked fun n hn => hu n (hr n hn)).2
    exact ⟨honce, bounded_of_actedOnce (hinv t ht) honce⟩

end Result

/-! ## Two participants -/

/-- The root "ma" and its left child "mb". -/
def pair : Links where
  members := {['m', 'a'], ['m', 'b']}
  parentMachines i := if i = ['m', 'b'] then [['m', 'a']] else []
  childMachines i k := if i = ['m', 'a'] ∧ k = 0 then [['m', 'b']] else []
  closed := by decide
  symm := by decide

def pairStart : St Nat := start (fun _ => ⟨fun _ => []⟩) ['g'] (fun _ => ['r']) []

/-- What two participants remember of "ma", the ids of its notices in flight
between them, and the messages so far. -/
def Pair (i j : MachineID) (s : St Nat) (lastI lastJ : Option ReductionDisconnectID)
    (ij ji : List ReductionDisconnectID) (sent : Nat) : Prop :=
  (s.group i).lastHeardDisconnect.lookup ['m', 'a'] = lastI ∧
    (s.group j).lastHeardDisconnect.lookup ['m', 'a'] = lastJ ∧
    s.chan i j = ij.map (['m', 'a'], ·) ∧ s.chan j i = ji.map (['m', 'a'], ·) ∧ s.sent = sent

section Bounce

variable {i j : MachineID} {s : St Nat} {li lj : Option ReductionDisconnectID} {x y : ReductionDisconnectID}
  {ij ji : List ReductionDisconnectID} {k : Nat}

theorem Pair.symm (h : Pair i j s li lj ij ji k) : Pair j i s lj li ji ij k :=
  ⟨h.2.1, h.1, h.2.2.2.1, h.2.2.1, h.2.2.2.2⟩

/-- A notice that is not the last one heard is sent back. -/
theorem Pair.bounce (h : Pair i j s li lj (x :: ij) ji k) (hij : i ≠ j) (hj : pair.nbrs j = [i])
    (hx : lj ≠ some x) : ∃ t, step pair s (.deliver i j) = some t ∧
      Pair i j t li (some x) ij (ji ++ [x]) (k + 1) ∧ t.reported = s.reported := by
  obtain ⟨h₁, h₂, h₃, h₄, h₅⟩ := h
  refine ⟨_, deliver_acts h₃ (by rw [h₂]; exact hx), ⟨?_, ?_, ?_, ?_, ?_⟩, rfl⟩
  · simpa [St.act, hij] using h₁
  · simp [St.act, propagateDisconnection, h₂, hx]
  · simp [St.act, hij]
  · simp [St.act, h₄, hj, hij.symm]
  · simp [St.act, h₅, hj]

/-- Two notices in flight are back where they were after four messages. -/
theorem Pair.round (h : Pair i j s li lj [x, y] [] k) (hij : i ≠ j) (hi : pair.nbrs i = [j])
    (hj : pair.nbrs j = [i]) (hxy : x ≠ y) (hli : li ≠ some x) (hlj : lj ≠ some x) :
    ∃ t, LTS.exec (step pair) s [.deliver i j, .deliver i j, .deliver j i, .deliver j i] = some t ∧
      Pair i j t (some y) (some y) [x, y] [] (k + 4) ∧ t.reported = s.reported := by
  have hne : some x ≠ some y := by simpa using hxy
  obtain ⟨s₁, e₁, p₁, r₁⟩ := h.bounce hij hj hlj
  obtain ⟨s₂, e₂, p₂, r₂⟩ := p₁.bounce hij hj hne
  obtain ⟨s₃, e₃, p₃, r₃⟩ := p₂.symm.bounce hij.symm hi hli
  obtain ⟨s₄, e₄, p₄, r₄⟩ := p₃.bounce hij.symm hi hne
  refine ⟨s₄, ?_, p₄.symm, by rw [r₄, r₃, r₂, r₁]⟩
  simp [LTS.exec, e₁, e₂, e₃, e₄]

/-- They go round for ever. -/
theorem Pair.forever (h : Pair i j s li lj [x, y] [] k) (hij : i ≠ j) (hi : pair.nbrs i = [j])
    (hj : pair.nbrs j = [i]) (hxy : x ≠ y) (hli : li ≠ some x) (hlj : lj ≠ some x) :
    ∀ n, ∃ t ls li lj, LTS.exec (step pair) s ls = some t ∧ Pair i j t li lj [x, y] [] (k + 4 * n) ∧
      li ≠ some x ∧ lj ≠ some x ∧ t.reported = s.reported
  | 0 => ⟨s, [], li, lj, rfl, h, hli, hlj, rfl⟩
  | n + 1 => by
    obtain ⟨t, ls, li', lj', he, hp, hli', hlj', hr⟩ := Pair.forever h hij hi hj hxy hli hlj n
    obtain ⟨u, he', hp', hr'⟩ := hp.round hij hi hj hxy hli' hlj'
    have hne : some y ≠ some x := by simpa using hxy.symm
    have hexec := LTS.exec_append (step pair) s ls [.deliver i j, .deliver i j, .deliver j i, .deliver j i]
    rw [he, Option.bind_some, he'] at hexec
    exact ⟨u, _, _, _, hexec, hp', hne, hne, hr'.trans hr⟩

end Bounce

/-- One report and its echo. -/
def echoRun : List Lbl :=
  [.report ['m', 'a'] 1, .deliver ['m', 'a'] ['m', 'b'], .deliver ['m', 'b'] ['m', 'a']]

/-- The reporter acts on its own notice, and with two notices of one machine
the messages never end. -/
theorem acts_twice :
    (∃ t, (lts pair pairStart).Reachable t ∧ t.reported = [(['m', 'a'], 1)] ∧ ¬ ActedOnce t) ∧
    ∀ n, ∃ t, (lts pair pairStart).Reachable t ∧ t.reported = [(['m', 'a'], 2), (['m', 'a'], 1)] ∧
      n ≤ t.sent := by
  constructor
  · have hx : LTS.exec (step pair) pairStart echoRun = some _ := rfl
    refine ⟨_, LTS.reachable_of_exec rfl hx, rfl, ?_⟩
    unfold ActedOnce
    decide
  · intro n
    have hx : ∃ s, LTS.exec (step pair) pairStart [.report ['m', 'a'] 1, .report ['m', 'a'] 2] = some s ∧
        Pair ['m', 'a'] ['m', 'b'] s none none [1, 2] [] 2 ∧
        s.reported = [(['m', 'a'], 2), (['m', 'a'], 1)] := ⟨_, rfl, ⟨rfl, rfl, rfl, rfl, rfl⟩, rfl⟩
    obtain ⟨s, hs, hp, hrep⟩ := hx
    obtain ⟨t, ls, _, _, he, ht, -, -, hr⟩ :=
      hp.forever (by decide) (by decide) (by decide) (by decide) (by decide) (by decide) n
    have hreach := (LTS.reachable_of_exec (i := (· = pairStart)) rfl hs).run ((LTS.exec_run _ _ _ _ _).mp he)
    refine ⟨t, hreach, hr.trans hrep, ?_⟩
    rw [ht.2.2.2.2]
    omega

end Skywing.L5.Disconnection
