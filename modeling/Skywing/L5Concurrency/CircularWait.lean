import Skywing.Core.WaitGraph
import Skywing.L4App.Turns

/-!
# Circular waits in the search for publishers

A network of managers (`skywing_core/manager.cpp`) over links that stand:
nobody connects, dies or stops, and a link delivers in order. Each machine
goes through its main loop, with any calls from its jobs. A machine waits for
a neighbour when it has an outstanding request there that the neighbour has
handled and not answered.

A request that is deferred makes its receiver ask all its other neighbours, so
waiting is passed on; and no two machines wait for each other, because a
request that crosses another is answered at once. In a ring each machine may
ask the next one only, and then all wait. Nowhere else is that possible.

Results:
* `Inv.become`: what one step of one machine preserves.
* `no_circular_wait`: where no connected part of the network is a ring, and no
  early answer forgets one that waits, there is no circular wait.
* `circular_wait`: three machines in a ring.
-/
namespace Skywing.L5.CircularWait

open L3 L4 L1.Text
open Orphans (answersEarly keepsRecorded)

/-! ## The network -/

/-- Finitely many machines and the links between them. -/
structure Links where
  machines : Finset MachineID
  nbrs : MachineID → Finset MachineID
  mem : ∀ i, ∀ j ∈ nbrs i, j ∈ machines
  symm : ∀ i j, j ∈ nbrs i → i ∈ nbrs j
  irrefl : ∀ i, i ∉ nbrs i

/-- The main loop of each machine; `waiting w v` when `v` waits at `w`. -/
structure Net (V : Type) where
  pc : MachineID → Pc
  manager : MachineID → Manager V
  waiting : MachineID → MachineID → Bool

inductive Lbl (V : Type)
  /-- a step of a machine that handles no message and completes no connection -/
  | act (i : MachineID) (l : Label V)
  /-- the machine handles the next message of the neighbour it reads from -/
  | deliver (i : MachineID) (env : Env)

variable {V : Type}

/-- What `a` has sent to `b` and `b` has not handled. -/
def inFlight (s : Net V) (a b : MachineID) : List (Message V) :=
  match (s.manager a).neighbors.lookup b, (s.manager b).neighbors.lookup a with
  | some e, some e' => e.sent.drop e'.handled.length
  | _, _ => []

def live (m : Manager V) : Bool := m.neighbors.entries.all fun e => !e.2.dead

def Net.become (s : Net V) (i : MachineID) (pc : Pc) (m : Manager V) : Net V where
  pc := Function.update s.pc i pc
  manager := Function.update s.manager i m
  waiting := Function.update s.waiting i (waits (s.manager i) m (s.waiting i))

section Steps

variable [Typed V]

/-- A step that stops the machine or loses a link is none of a static
network. -/
def Net.turn (s : Net V) (i : MachineID) (l : Label V) : Option (Net V) :=
  if l.enabled (s.pc i) (s.manager i) then
    match act l (s.pc i) (s.manager i) with
    | .ok (pc, m) => if live m then some (s.become i pc m) else none
    | .error _ => none
  else none

def step (s : Net V) : Lbl V → Option (Net V)
  | .act i l => if l.internal then s.turn i l else none
  | .deliver i env =>
    match s.pc i with
    | .messages (some j) _ => (inFlight s j i).head?.bind fun msg => s.turn i (.message msg env)
    | _ => none

omit [Typed V] in
/-- The links stand and nothing was asked; the pending tags, the caches and
the timers are what they are. -/
structure Fresh (m : Manager V) (nbrs : Finset MachineID) : Prop where
  members : ∀ k, k ∈ m.neighbors ↔ k ∈ nbrs
  numbered : m.Numbered
  unused : ∀ k e, m.neighbors.lookup k = some e →
    e.dead = false ∧ e.pendingTagRequest = false ∧ e.sent = [] ∧ e.handled = []
  nobody : m.sendPublisherInformationTo = ∅

omit [Typed V] in
def Initial (G : Links) (s : Net V) : Prop :=
  ∀ i, s.pc i = .idle ∧ Fresh (s.manager i) (G.nbrs i) ∧ ∀ k, s.waiting i k = false

def lts (V : Type) [Typed V] (G : Links) : LTS (Net V) (Lbl V) := LTS.ofFn (Initial G) step

end Steps

/-! ## The property -/

/-- `v` has an outstanding request at `w` that `w` has handled and not
answered. -/
def WaitsFor (s : Net V) (v w : MachineID) : Prop := asks (s.manager v) w = true ∧ s.waiting w v = true

/-- Each of some two or more machines waits for the next one, round and round. -/
def Circular (s : Net V) : Prop :=
  ∃ k ≥ 2, ∃ v : Nat → MachineID, v k = v 0 ∧ ∀ i < k, WaitsFor s (v i) (v (i + 1))

/-- No request and no report is in flight. -/
def Quiescent (s : Net V) : Prop :=
  ∀ a b, ∀ msg ∈ inFlight s a b, msg.isGetPublishers = false ∧ msg.isReport = false

/-- Everywhere in the network there is, within reach, a machine that has not
exactly two neighbours. -/
def NoRing (G : Links) : Prop :=
  ∀ i, ∃ j, Relation.ReflTransGen (fun a b => b ∈ G.nbrs a) i j ∧ (G.nbrs j).card ≠ 2

/-- An early answer forgets nobody but its receiver. -/
def cond (s : Net V) : Lbl V → Bool
  | .act _ _ => true
  | .deliver i _ =>
    match s.pc i with
    | .messages (some j) _ =>
      match (inFlight s j i).head? with
      | some (.getPublishers tags publishersNeeded _) =>
        !answersEarly (s.manager i) j tags publishersNeeded || keepsRecorded (s.manager i) (s.waiting i) j
      | _ => true
    | _ => true

/-! ## The invariant -/

def requested (s : Net V) (v w : MachineID) : Bool := (inFlight s v w).any Message.isGetPublishers

def reported (s : Net V) (v w : MachineID) : Bool := (inFlight s v w).any Message.isReport

structure Inv (G : Links) (s : Net V) : Prop where
  members : ∀ i k, k ∈ (s.manager i).neighbors ↔ k ∈ G.nbrs i
  live : ∀ i k e, (s.manager i).neighbors.lookup k = some e → e.dead = false
  node : ∀ i, Orphans.Inv (s.pc i) (s.manager i) (s.waiting i)
  sent : ∀ a b e e', (s.manager a).neighbors.lookup b = some e → (s.manager b).neighbors.lookup a = some e' →
    e'.handled.length ≤ e.sent.length
  balanced : ∀ a b e, (s.manager a).neighbors.lookup b = some e → ∀ msg ∈ e.sent, msg.balanced = true
  /-- an outstanding request is on its way, waits, or its answer is on its way -/
  outstanding : ∀ v, ∀ w ∈ G.nbrs v, asks (s.manager v) w = true →
    requested s v w = true ∨ s.waiting w v = true ∨ reported s w v = true ∨ ∃ todo, s.pc v = .reportInit w todo
  /-- while someone waits all others are asked -/
  passed : ∀ w, ∀ v ∈ G.nbrs w, s.waiting w v = true →
    (∀ u ∈ G.nbrs w, u ≠ v → asks (s.manager w) u = true) ∧ ∃ u ∈ G.nbrs w, u ≠ v
  /-- of two requests that cross, the second is on its way or answered -/
  crossed : ∀ v, ∀ w ∈ G.nbrs v, asks (s.manager v) w = true → requested s v w = false → s.waiting w v = true →
    asks (s.manager w) v = true → requested s w v = true ∨ reported s v w = true

variable {G : Links} {s t : Net V} {i : MachineID} {pc : Pc} {m : Manager V}
  {recv : MachineID → List (Message V)}

theorem inFlight_eq {a b : MachineID} {e e' : ExternalManager V} (he : (s.manager a).neighbors.lookup b = some e)
    (he' : (s.manager b).neighbors.lookup a = some e') : inFlight s a b = e.sent.drop e'.handled.length := by
  unfold inFlight
  rw [he, he']

@[simp] theorem become_manager_self : (s.become i pc m).manager i = m := Function.update_self ..

@[simp] theorem become_manager_ne {k : MachineID} (h : k ≠ i) : (s.become i pc m).manager k = s.manager k :=
  Function.update_of_ne h ..

@[simp] theorem become_pc_self : (s.become i pc m).pc i = pc := Function.update_self ..

@[simp] theorem become_pc_ne {k : MachineID} (h : k ≠ i) : (s.become i pc m).pc k = s.pc k :=
  Function.update_of_ne h ..

@[simp] theorem become_waiting_self :
    (s.become i pc m).waiting i = waits (s.manager i) m (s.waiting i) := Function.update_self ..

@[simp] theorem become_waiting_ne {k : MachineID} (h : k ≠ i) : (s.become i pc m).waiting k = s.waiting k :=
  Function.update_of_ne h ..

/-! ## One step of one machine -/

section Become

variable (h : Inv G s) (ht : Turn (s.pc i) pc (s.manager i) m recv)

include h in
theorem Inv.lookup {a b : MachineID} (hab : b ∈ G.nbrs a) : ∃ e, (s.manager a).neighbors.lookup b = some e :=
  lookup_of_mem ((h.members a b).mpr hab)

include h ht

theorem members_become (k : MachineID) : k ∈ m.neighbors ↔ k ∈ G.nbrs i := by
  rw [← h.members i k]
  constructor
  · intro hk
    obtain ⟨e', he'⟩ := lookup_of_mem hk
    obtain ⟨e, he, -⟩ := ht.records k e' he'
    exact mem_of_lookup he
  · exact ht.persists k

/-- What is sent is on its way. -/
theorem inFlight_out {b : MachineID} (hb : b ∈ G.nbrs i) :
    inFlight (s.become i pc m) i b = inFlight s i b ++ sentTo (s.manager i) m b := by
  have hne : b ≠ i := fun he => G.irrefl i (he ▸ hb)
  obtain ⟨e, he⟩ := h.lookup hb
  obtain ⟨e₂, he₂⟩ := h.lookup (G.symm i b hb)
  obtain ⟨e', he'⟩ := lookup_of_mem ((members_become h ht b).mpr hb)
  have hs : e'.sent = e.sent ++ sentTo (s.manager i) m b := ht.sent he he'
  rw [inFlight_eq he he₂, inFlight_eq (s := s.become i pc m) (by rw [become_manager_self]; exact he')
    (by rw [become_manager_ne hne]; exact he₂), hs, List.drop_append_of_le_length (h.sent i b e e₂ he he₂)]

/-- What is handled was the first on its way. -/
theorem inFlight_in {a : MachineID} (ha : a ∈ G.nbrs i) (hrecv : recv a <+: inFlight s a i) :
    inFlight s a i = recv a ++ inFlight (s.become i pc m) a i := by
  have hne : a ≠ i := fun he => G.irrefl i (he ▸ ha)
  obtain ⟨e, he⟩ := h.lookup ha
  obtain ⟨e₂, he₂⟩ := h.lookup (G.symm i a ha)
  obtain ⟨e', he'⟩ := lookup_of_mem ((members_become h ht a).mpr ha)
  obtain ⟨e₀, he₀, hg⟩ := ht.records a e' he'
  rw [he] at he₀
  cases he₀
  obtain ⟨rest, hrest⟩ := hrecv
  rw [inFlight_eq (s := s.become i pc m) (by rw [become_manager_ne hne]; exact he₂)
    (by rw [become_manager_self]; exact he'), hg.handled, List.length_append, ← List.drop_drop,
    ← inFlight_eq he₂ he, ← hrest, List.drop_left]

omit h ht in
theorem inFlight_ne {a b : MachineID} (ha : a ≠ i) (hb : b ≠ i) :
    inFlight (s.become i pc m) a b = inFlight s a b := by
  unfold inFlight
  rw [become_manager_ne ha, become_manager_ne hb]

theorem requested_out {b : MachineID} (hb : b ∈ G.nbrs i) : requested (s.become i pc m) i b =
    (requested s i b || (sentTo (s.manager i) m b).any Message.isGetPublishers) := by
  rw [requested, inFlight_out h ht hb, List.any_append, requested]

theorem reported_out {b : MachineID} (hb : b ∈ G.nbrs i) : reported (s.become i pc m) i b =
    (reported s i b || (sentTo (s.manager i) m b).any Message.isReport) := by
  rw [reported, inFlight_out h ht hb, List.any_append, reported]

theorem requested_in {a : MachineID} (ha : a ∈ G.nbrs i) (hrecv : recv a <+: inFlight s a i) : requested s a i =
    ((recv a).any Message.isGetPublishers || requested (s.become i pc m) a i) := by
  rw [requested, inFlight_in h ht ha hrecv, List.any_append, requested]

theorem reported_in {a : MachineID} (ha : a ∈ G.nbrs i) (hrecv : recv a <+: inFlight s a i) : reported s a i =
    ((recv a).any Message.isReport || reported (s.become i pc m) a i) := by
  rw [reported, inFlight_in h ht ha hrecv, List.any_append, reported]

end Become

/-! ## The invariant holds -/

section Preserved

variable (h : Inv G s) (ht : Turn (s.pc i) pc (s.manager i) m recv)
  (hrecv : ∀ a ∈ G.nbrs i, recv a <+: inFlight s a i)
  (hnode : Orphans.Inv pc m (waits (s.manager i) m (s.waiting i)))
  (hlive : ∀ k e, m.neighbors.lookup k = some e → e.dead = false)

include h ht hrecv

theorem outstanding_become (hnode : Orphans.Inv pc m (waits (s.manager i) m (s.waiting i)))
    (v w : MachineID) (hw : w ∈ G.nbrs v) (ha : asks ((s.become i pc m).manager v) w = true) :
    requested (s.become i pc m) v w = true ∨ (s.become i pc m).waiting w v = true ∨
      reported (s.become i pc m) w v = true ∨ ∃ todo, (s.become i pc m).pc v = .reportInit w todo := by
  by_cases hv : v = i
  · -- the machine that asks takes the step
    subst hv
    have hwv : w ≠ v := fun he => G.irrefl v (he ▸ hw)
    rw [become_manager_self] at ha
    rw [requested_out h ht hw, become_waiting_ne hwv, become_pc_self, Bool.or_eq_true]
    rcases ht.asked ha with ha₀ | hget
    · rcases h.outstanding v w hw ha₀ with hr | hwt | hr | ⟨todo, hpc⟩
      · exact .inl (.inl hr)
      · exact .inr (.inl hwt)
      · rw [reported_in h ht hw (hrecv w hw), Bool.or_eq_true] at hr
        rcases hr with hr | hr
        · exact .inr (.inr (.inr (ht.report w hr)))
        · exact .inr (.inr (.inl hr))
      · rw [ht.done w todo hpc] at ha
        cases ha
    · exact .inl (.inr hget)
  rw [become_manager_ne hv] at ha
  rw [become_pc_ne hv]
  by_cases hwi : w = i
  · -- the machine that is asked takes the step
    subst hwi
    have hvw := G.symm v w hw
    have hmem : v ∈ (s.manager w).neighbors := (h.members w v).mpr hvw
    rw [become_waiting_self, reported_out h ht hvw, Bool.or_eq_true]
    rcases h.outstanding v w hw ha with hr | hwt | hr | hpc
    · rw [requested_in h ht hvw (hrecv v hvw), Bool.or_eq_true] at hr
      rcases hr with hr | hr
      · rcases ht.request_waits (w := s.waiting w) hmem hr with ⟨hwt, -⟩ | hr'
        · exact .inr (.inl hwt)
        · exact .inr (.inr (.inl (.inr hr')))
      · exact .inl hr
    · rcases ht.waited hmem hwt with hwt' | hr'
      · exact .inr (.inl hwt')
      · exact .inr (.inr (.inl (.inr hr')))
    · exact .inr (.inr (.inl (.inl hr)))
    · exact .inr (.inr (.inr hpc))
  · rw [become_waiting_ne hwi, requested, reported, inFlight_ne hv hwi, inFlight_ne hwi hv]
    exact h.outstanding v w hw ha

theorem passed_become (w v : MachineID) (hv : v ∈ G.nbrs w) (hwt : (s.become i pc m).waiting w v = true) :
    (∀ u ∈ G.nbrs w, u ≠ v → asks ((s.become i pc m).manager w) u = true) ∧ ∃ u ∈ G.nbrs w, u ≠ v := by
  by_cases hw : w = i
  · subst hw
    rw [become_waiting_self] at hwt
    rw [become_manager_self]
    have hmem : v ∈ (s.manager w).neighbors := (h.members w v).mpr hv
    rcases ht.fresh hmem hwt with hold | ⟨-, -, hall, u, hu, hum⟩
    · obtain ⟨hall, hex⟩ := h.passed w v hv hold
      refine ⟨fun u hu hne => ?_, hex⟩
      rcases ht.kept u (hall u hu hne) with hk | ⟨todo, hpc⟩
      · exact hk
      · -- where a report is dealt with nobody waits
        obtain ⟨e, he⟩ := h.lookup hv
        have hno := (h.node w).answered u todo hpc v e he (h.live w v e he)
        rw [hno] at hold
        cases hold
    · refine ⟨fun u hu hne => hall u hne ((members_become h ht u).mpr hu), u, (members_become h ht u).mp hum, hu⟩
  · rw [become_waiting_ne hw] at hwt
    rw [become_manager_ne hw]
    exact h.passed w v hv hwt

include hnode hlive

theorem crossed_become (v w : MachineID) (hw : w ∈ G.nbrs v) (ha : asks ((s.become i pc m).manager v) w = true)
    (hno : requested (s.become i pc m) v w = false) (hwt : (s.become i pc m).waiting w v = true)
    (hb : asks ((s.become i pc m).manager w) v = true) :
    requested (s.become i pc m) w v = true ∨ reported (s.become i pc m) v w = true := by
  have hvw := G.symm v w hw
  by_cases hv : v = i
  · subst hv
    have hwv : w ≠ v := fun he => G.irrefl v (he ▸ hw)
    rw [become_manager_self] at ha
    rw [become_waiting_ne hwv] at hwt
    rw [become_manager_ne hwv] at hb
    rw [requested_out h ht hw, Bool.or_eq_false_iff] at hno
    rw [reported_out h ht hw, Bool.or_eq_true]
    have ha₀ : asks (s.manager v) w = true := (ht.asked ha).resolve_right (by rw [hno.2]; exact Bool.false_ne_true)
    rcases h.crossed v w hw ha₀ hno.1 hwt hb with hr | hr
    · rw [requested_in h ht hw (hrecv w hw), Bool.or_eq_true] at hr
      rcases hr with hr | hr
      · -- the request of `w` is handled, and `v` has been asking: it answers
        rcases ht.request_waits (w := s.waiting v) ((h.members v w).mpr hw) hr with ⟨-, hna⟩ | hr'
        · rw [hna] at ha
          cases ha
        · exact .inr (.inr hr')
      · exact .inl hr
    · exact .inr (.inl hr)
  rw [become_manager_ne hv] at ha
  by_cases hwi : w = i
  · subst hwi
    have hmem : v ∈ (s.manager w).neighbors := (h.members w v).mpr hvw
    rw [become_waiting_self] at hwt
    rw [become_manager_self] at hb
    rw [requested_out h ht hvw, Bool.or_eq_true]
    obtain ⟨hnorep, -⟩ := (ht.waits_iff hmem).mp hwt
    rcases ht.fresh hmem hwt with hold | ⟨-, hna, -⟩
    · rcases ht.asked hb with hb₀ | hget
      · have hno₀ : requested s v w = false := by
          rw [requested_in h ht hvw (hrecv v hvw), hno, Bool.or_false, Bool.eq_false_iff]
          intro hget
          rcases ht.request_waits (w := s.waiting w) hmem hget with ⟨-, hna⟩ | hr'
          · rw [hna] at hb
            cases hb
          · rw [hnorep] at hr'
            cases hr'
        rcases h.crossed v w hw ha hno₀ hold hb₀ with hr | hr
        · exact .inl (.inl hr)
        · rw [reported_in h ht hvw (hrecv v hvw), Bool.or_eq_true] at hr
          rcases hr with hr | hr
          · -- the answer is there, and nobody waits any more
            obtain ⟨todo, hpc⟩ := ht.report v hr
            obtain ⟨e, he⟩ := lookup_of_mem ((members_become h ht v).mpr hvw)
            rw [hnode.answered v todo hpc v e he (hlive v e he)] at hwt
            cases hwt
          · exact .inr hr
      · exact .inl (.inr hget)
    · rw [hna] at hb
      cases hb
  · rw [become_manager_ne hwi] at hb
    rw [become_waiting_ne hwi] at hwt
    rw [requested, inFlight_ne hv hwi] at hno
    rw [requested, reported, inFlight_ne hwi hv, inFlight_ne hv hwi]
    exact h.crossed v w hw ha hno hwt hb

/-- What a step of one machine preserves. -/
theorem Inv.become : Inv G (s.become i pc m) where
  members a k := by
    by_cases ha : a = i
    · subst ha
      rw [become_manager_self]
      exact members_become h ht k
    · rw [become_manager_ne ha]
      exact h.members a k
  live a k e he := by
    by_cases ha : a = i
    · subst ha
      rw [become_manager_self] at he
      exact hlive k e he
    · rw [become_manager_ne ha] at he
      exact h.live a k e he
  node a := by
    by_cases ha : a = i
    · subst ha
      rw [become_manager_self, become_pc_self, become_waiting_self]
      exact hnode
    · rw [become_manager_ne ha, become_pc_ne ha, become_waiting_ne ha]
      exact h.node a
  sent a b e e' he he' := by
    by_cases ha : a = i
    · subst ha
      rw [become_manager_self] at he
      obtain ⟨e₀, he₀, hg⟩ := ht.records b e he
      obtain ⟨msgs, hs, -⟩ := hg.sent
      have hb : b ∈ G.nbrs a := (h.members a b).mp (mem_of_lookup he₀)
      have hne : b ≠ a := fun he => G.irrefl a (he ▸ hb)
      rw [become_manager_ne hne] at he'
      have hle := h.sent a b e₀ e' he₀ he'
      rw [hs, List.length_append]
      omega
    rw [become_manager_ne ha] at he
    by_cases hb : b = i
    · subst hb
      rw [become_manager_self] at he'
      obtain ⟨e₀, he₀, hg⟩ := ht.records a e' he'
      have hab : a ∈ G.nbrs b := (h.members b a).mp (mem_of_lookup he₀)
      have hpre := (hrecv a hab).length_le
      rw [inFlight_eq he he₀, List.length_drop] at hpre
      have hle := h.sent a b e e₀ he he₀
      rw [hg.handled, List.length_append]
      omega
    · rw [become_manager_ne hb] at he'
      exact h.sent a b e e' he he'
  balanced a b e he msg hm := by
    by_cases ha : a = i
    · subst ha
      rw [become_manager_self] at he
      obtain ⟨e₀, he₀, hg⟩ := ht.records b e he
      obtain ⟨msgs, hs, hb, -⟩ := hg.sent
      rw [hs] at hm
      exact (List.mem_append.mp hm).elim (h.balanced a b e₀ he₀ msg) (hb msg)
    · rw [become_manager_ne ha] at he
      exact h.balanced a b e he msg hm
  outstanding := outstanding_become h ht hrecv hnode
  passed := passed_become h ht hrecv
  crossed := crossed_become h ht hrecv hnode hlive

end Preserved

/-! ## Runs -/

theorem live_spec : live m = true ↔ ∀ k e, m.neighbors.lookup k = some e → e.dead = false := by
  rw [live, List.all_eq_true]
  constructor
  · intro h k e he
    simpa using h ⟨k, e⟩ (AList.mem_entries_iff.mpr he)
  · intro h e he
    simpa using h e.1 e.2 (AList.mem_entries_iff.mp he)

theorem mem_inFlight {a b : MachineID} {msg : Message V} (hm : msg ∈ inFlight s a b) :
    ∃ e, (s.manager a).neighbors.lookup b = some e ∧ msg ∈ e.sent := by
  unfold inFlight at hm
  split at hm
  · rename_i e e' he he'
    exact ⟨e, he, List.mem_of_mem_drop hm⟩
  · cases hm

section Steps

variable [Typed V]

theorem turn_eq {l : Label V} (hst : s.turn i l = some t) :
    l.enabled (s.pc i) (s.manager i) = true ∧ ∃ pc m, act l (s.pc i) (s.manager i) = .ok (pc, m) ∧
      live m = true ∧ t = s.become i pc m := by
  unfold Net.turn at hst
  split at hst
  · rename_i he
    split at hst
    · rename_i pc m hact
      split at hst
      · rename_i hl
        exact ⟨he, pc, m, hact, hl, (Option.some.inj hst).symm⟩
      · cases hst
    · cases hst
  · cases hst

omit [Typed V] in
/-- Where nobody is dead a step that handles no message loses nobody. -/
theorem lost_internal (hlive : ∀ k e, m.neighbors.lookup k = some e → e.dead = false) {l : Label V}
    (hl : l.internal = true) (k : MachineID) : Orphans.lost m pc l k = false := by
  unfold Orphans.lost
  split
  · rename_i gone _ _ _
    have hnone : (m.neighbors.lookup gone).any (·.dead) = false := by
      cases he : m.neighbors.lookup gone with
      | none => rfl
      | some e => exact hlive gone e he
    rw [hnone, Bool.and_false]
  · cases hl
  · rfl

omit [Typed V] in
/-- Where nobody is lost whoever waits goes on waiting for someone. -/
theorem left_of_none (h : Inv G s) {l : Label V} (hnone : ∀ k, Orphans.lost (s.manager i) (s.pc i) l k = false) :
    ∀ id e, (s.manager i).neighbors.lookup id = some e → e.dead = false → s.waiting i id = true →
      Orphans.ExpectedBut (Orphans.lost (s.manager i) (s.pc i) l) (s.manager i) id := by
  intro id e he hlive hw
  obtain ⟨k, ek, hk, hek, hp⟩ := ((h.node i).expected id e he hlive hw).2
  exact ⟨k, ek, hk, hnone k, hek, hp⟩

theorem act_step (h : Inv G s) {l : Label V} (hl : l.internal = true) (hst : s.turn i l = some t) : Inv G t := by
  obtain ⟨he, pc, m, hact, hlive, rfl⟩ := turn_eq hst
  have ht := ((act_turn he hl (h.live i)).of_ok hact) (live_spec.mp hlive)
  have hforgets : Orphans.forgetsNobody (s.manager i) (s.waiting i) (s.pc i) l = true := by
    unfold Orphans.forgetsNobody
    split
    · cases hl
    · rfl
  have hnode := (Orphans.act_inv (h.node i) he hforgets (left_of_none h (lost_internal (h.live i) hl))).of_ok hact
  exact h.become ht (fun _ _ => List.nil_prefix) hnode (live_spec.mp hlive)

theorem deliver_step (h : Inv G s) {j : MachineID} {todo : List MachineID} {msg : Message V} {env : Env}
    (hpc : s.pc i = .messages (some j) todo) (hmsg : (inFlight s j i).head? = some msg)
    (hcond : cond s (.deliver i env) = true) (hst : s.turn i (.message msg env) = some t) : Inv G t := by
  obtain ⟨he, pc, m, hact, hlive, rfl⟩ := turn_eq hst
  obtain ⟨rest, hrest⟩ := List.head?_eq_some_iff.mp hmsg
  have hhead : msg ∈ inFlight s j i := hrest ▸ List.mem_cons_self
  obtain ⟨e, hej, hmem⟩ := mem_inFlight hhead
  have hb : msg.balanced = true := h.balanced j i e hej msg hmem
  have hforgets : Orphans.forgetsNobody (s.manager i) (s.waiting i) (s.pc i) (.message msg env) = true := by
    rw [hpc]
    cases msg with
    | getPublishers tags publishersNeeded ignoreCache =>
      have hc : (!answersEarly (s.manager i) j tags publishersNeeded ||
          keepsRecorded (s.manager i) (s.waiting i) j) = true := by
        simpa only [cond, hpc, hmsg] using hcond
      exact hc
    | _ => rfl
  have hnone (k : MachineID) : Orphans.lost (s.manager i) (s.pc i) (.message msg env) k = false := by
    rw [hpc]
    cases msg with
    | reportPublishers tags addresses machines locallyProducedTags =>
      have hmis : Manager.Mismatched tags addresses machines = false := by simpa [Message.balanced] using hb
      rw [Orphans.lost, hmis, Bool.and_false]
    | _ => rfl
  have hnode := (Orphans.act_inv (h.node i) he hforgets (left_of_none h hnone)).of_ok hact
  rw [hpc] at hact
  have ht := ((handleNext_turn (h.node i).numbered (h.node i).known hb).of_ok hact) (live_spec.mp hlive)
  rw [← hpc] at ht
  refine h.become ht (fun a ha => ?_) hnode (live_spec.mp hlive)
  unfold received
  split
  · rename_i haj
    rw [haj, hrest]
    exact ⟨rest, rfl⟩
  · exact List.nil_prefix

theorem inv_inductive : ((lts V G).restrict fun s l => cond s l = true).Inductive (Inv G) where
  init := by
    intro s hs
    have hnone (v w : MachineID) : asks (s.manager v) w = false := by
      rw [asks]
      cases he : (s.manager v).neighbors.lookup w with
      | none => rfl
      | some e => exact ((hs v).2.1.unused w e he).2.1
    have hwait (v w : MachineID) : s.waiting v w = false := (hs v).2.2 w
    refine ⟨fun a k => (hs a).2.1.members k, fun a k e he => ((hs a).2.1.unused k e he).1, fun a => ?_,
      fun a b e e' he he' => ?_, fun a b e he msg hm => ?_, fun v w _ ha => ?_, fun w v _ hw => ?_, fun v w _ ha => ?_⟩
    · refine ⟨(hs a).2.1.numbered, fun tag ht => ?_, fun k e _ _ hw => ?_, fun k todo hpc => ?_⟩
      · rw [(hs a).2.1.nobody] at ht
        cases ht
      · rw [hwait a k] at hw
        cases hw
      · rw [(hs a).1] at hpc
        cases hpc
    · rw [((hs b).2.1.unused a e' he').2.2.2]
      exact Nat.zero_le _
    · rw [((hs a).2.1.unused b e he).2.2.1] at hm
      cases hm
    · rw [hnone v w] at ha
      cases ha
    · rw [hwait w v] at hw
      cases hw
    · rw [hnone v w] at ha
      cases ha
  step := by
    intro s l t h hex
    obtain ⟨hst, hcond⟩ := hex
    cases l with
    | act i l =>
      change (if l.internal then s.turn i l else none) = some t at hst
      split at hst
      · rename_i hl
        exact act_step h hl hst
      · cases hst
    | deliver i env =>
      change (match s.pc i with
        | .messages (some j) _ => (inFlight s j i).head?.bind fun msg => s.turn i (.message msg env)
        | _ => none) = some t at hst
      split at hst
      · rename_i j todo hpc
        obtain ⟨msg, hmsg, hst⟩ := Option.bind_eq_some_iff.mp hst
        exact deliver_step h hpc hmsg hcond hst
      · cases hst

end Steps

/-! ## Waiting is passed on -/

theorem Inv.passedOn (h : Inv G s) (hq : Quiescent s) : PassedOn G.nbrs fun v w => w ∈ G.nbrs v ∧ WaitsFor s v w := by
  have hno (v w : MachineID) : requested s v w = false ∧ reported s v w = false := by
    constructor
    · rw [requested, List.any_eq_false]
      intro msg hm
      rw [(hq v w msg hm).1]
      exact Bool.false_ne_true
    · rw [reported, List.any_eq_false]
      intro msg hm
      rw [(hq v w msg hm).2]
      exact Bool.false_ne_true
  have hcrossed {v w : MachineID} (hw : w ∈ G.nbrs v) (hv : WaitsFor s v w) : asks (s.manager w) v = false := by
    rw [Bool.eq_false_iff]
    intro hb
    rcases h.crossed v w hw hv.1 (hno v w).1 hv.2 hb with hr | hr
    · rw [(hno w v).1] at hr
      cases hr
    · rw [(hno v w).2] at hr
      cases hr
  refine ⟨fun i j hj => G.symm i j hj, fun x y hxy => hxy.1, fun x y hxy hyx => ?_, fun x y z hxy hz hne => ⟨hz, ?_⟩,
    fun x y hxy => ?_⟩
  · have hna := hcrossed hxy.1 hxy.2
    rw [hyx.2.1] at hna
    cases hna
  · have hask := (h.passed y x (G.symm x y hxy.1) hxy.2.2).1 z hz hne
    rcases h.outstanding y z hz hask with hr | hw | hr | ⟨todo, hpc⟩
    · rw [(hno y z).1] at hr
      cases hr
    · exact ⟨hask, hw⟩
    · rw [(hno z y).2] at hr
      cases hr
    · -- a machine that deals with a report lets nobody wait
      obtain ⟨e, he⟩ := h.lookup (G.symm x y hxy.1)
      have hnone := (h.node y).answered z todo hpc x e he (h.live y x e he)
      have hwait := hxy.2.2
      rw [hnone] at hwait
      cases hwait
  · obtain ⟨z, hz, hne⟩ := (h.passed y x (G.symm x y hxy.1) hxy.2.2).2
    exact ⟨z, hz, hne⟩

theorem waitsFor_nbr (h : Inv G s) {v w : MachineID} (hv : WaitsFor s v w) : w ∈ G.nbrs v := by
  have ha := hv.1
  rw [asks] at ha
  cases he : (s.manager v).neighbors.lookup w with
  | none =>
    rw [he] at ha
    cases ha
  | some e => exact (h.members v w).mp (mem_of_lookup he)

theorem transGen_of_circle {α : Type} {r : α → α → Prop} {k : Nat} {v : Nat → α} (h : ∀ i < k, r (v i) (v (i + 1))) :
    0 < k → Relation.TransGen r (v 0) (v k) := by
  induction k with
  | zero => exact fun h => absurd h (lt_irrefl 0)
  | succ k ih =>
    intro _
    have hlast := h k (Nat.lt_succ_self k)
    rcases Nat.eq_zero_or_pos k with rfl | hk
    · exact .single hlast
    · exact (ih (fun i hi => h i (Nat.lt_succ_of_lt hi)) hk).tail hlast

/-- **No circular wait.** Where every connected part of the network has a
machine that has not exactly two neighbours, no state without requests and
reports in flight, of any run in which no early answer forgets one that waits,
has a circular wait. -/
theorem no_circular_wait [Typed V] (hG : NoRing G) {s : Net V}
    (hs : ((lts V G).restrict fun s l => cond s l = true).Reachable s) (hq : Quiescent s) : ¬ Circular s := by
  intro hex
  obtain ⟨k, hk, v, hv, hwaits⟩ := hex
  have h : Inv G s := inv_inductive.reachable s hs
  have hcycle : Relation.TransGen (fun v w => w ∈ G.nbrs v ∧ WaitsFor s v w) (v 0) (v 0) := by
    have hround := transGen_of_circle (r := fun v w => w ∈ G.nbrs v ∧ WaitsFor s v w) (v := v)
      (fun i hi => ⟨waitsFor_nbr h (hwaits i hi), hwaits i hi⟩) (by omega : 0 < k)
    rwa [hv] at hround
  obtain ⟨j, hj, hcard⟩ := hG (v 0)
  exact hcard ((h.passedOn hq).two_neighbors_of_cycle G.mem hcycle hj)

/-! ## Three machines -/

section Three

open GroupMembers (quietEnv)

theorem Inv.quiescent (h : Inv G s) {l : List MachineID} (hl : ∀ i, ∀ j ∈ G.nbrs i, i ∈ l ∧ j ∈ l)
    (hc : (l.all fun a => l.all fun b => (inFlight s a b).all fun msg =>
      !msg.isGetPublishers && !msg.isReport) = true) : Quiescent s := by
  intro a b msg hm
  obtain ⟨e, he, -⟩ := mem_inFlight hm
  obtain ⟨ha, hb⟩ := hl a b ((h.members a b).mp (mem_of_lookup he))
  have hmsg := List.all_eq_true.mp (List.all_eq_true.mp (List.all_eq_true.mp hc a ha) b hb) msg hm
  simpa using hmsg

/-- A neighbour that may be asked from `requestTagsTime` on. -/
def linked (ptr : Nat) (id : MachineID) (requestTagsTime : Nat) : ExternalManager Nat :=
  { ExternalManager.create quietEnv ptr id id [] 1 with requestTagsTime := requestTagsTime }

/-- A machine that looks for a tag; of its two neighbours it may ask the first
one now. -/
def searcher (id first second : MachineID) : Manager Nat :=
  { Manager.create 1 id 5000 with
    neighbors := (AList.insert second (linked 1 second 100) ∅).insert first (linked 0 first 0)
    nextPtr := 2
    pendingTags := [['p']] }

/-- A machine at the end of a line. -/
def leaf (id only : MachineID) (pendingTags : List TagID) : Manager Nat :=
  { Manager.create 1 id 5000 with
    neighbors := AList.insert only (linked 0 only 0) ∅
    nextPtr := 1
    pendingTags := pendingTags }

def three (x y z : Manager Nat) : Net Nat where
  pc _ := .idle
  manager i := if i = ['a'] then x else if i = ['b'] then y else if i = ['c'] then z else Manager.create 1 i 5000
  waiting _ _ := false

/-- The links of a list of pairs. -/
def Links.ofEdges (edges : List (MachineID × MachineID)) : Links where
  machines := (edges.map (·.1) ++ edges.map (·.2)).toFinset
  nbrs i := ((edges.filter (·.1 = i)).map (·.2) ++ (edges.filter (·.2 = i)).map (·.1)).toFinset.erase i
  mem i j h := by
    rw [Finset.mem_erase, List.mem_toFinset, List.mem_append] at h
    rw [List.mem_toFinset, List.mem_append]
    rcases h.2 with h | h
    · obtain ⟨e, he, rfl⟩ := List.mem_map.mp h
      exact .inr (List.mem_map_of_mem (List.mem_filter.mp he).1)
    · obtain ⟨e, he, rfl⟩ := List.mem_map.mp h
      exact .inl (List.mem_map_of_mem (List.mem_filter.mp he).1)
  symm i j h := by
    rw [Finset.mem_erase, List.mem_toFinset, List.mem_append] at h ⊢
    refine ⟨Ne.symm h.1, ?_⟩
    rcases h.2 with h | h
    · obtain ⟨e, he, rfl⟩ := List.mem_map.mp h
      obtain ⟨he, hi⟩ := List.mem_filter.mp he
      exact .inr (List.mem_map.mpr ⟨e, List.mem_filter.mpr ⟨he, decide_eq_true rfl⟩, of_decide_eq_true hi⟩)
    · obtain ⟨e, he, rfl⟩ := List.mem_map.mp h
      obtain ⟨he, hi⟩ := List.mem_filter.mp he
      exact .inl (List.mem_map.mpr ⟨e, List.mem_filter.mpr ⟨he, decide_eq_true rfl⟩, of_decide_eq_true hi⟩)
  irrefl i := Finset.notMem_erase i _

theorem Links.ofEdges_notMem {edges : List (MachineID × MachineID)} {i : MachineID}
    (h : i ∉ (Links.ofEdges edges).machines) : (Links.ofEdges edges).nbrs i = ∅ := by
  rw [Finset.eq_empty_iff_forall_notMem]
  intro j hj
  exact h ((Links.ofEdges edges).mem j i ((Links.ofEdges edges).symm i j hj))

theorem create_fresh (id : MachineID) : Fresh (V := Nat) (Manager.create 1 id 5000) ∅ :=
  ⟨fun k => ⟨fun h => (nomatch h), fun h => absurd h (Finset.notMem_empty k)⟩,
    ⟨fun _ _ h => (nomatch h), fun _ _ h => (nomatch h), fun _ _ _ _ h => (nomatch h)⟩, fun _ _ h => (nomatch h), rfl⟩

theorem leaf_fresh (id only : MachineID) (pendingTags : List TagID) : Fresh (leaf id only pendingTags) {only} := by
  have hl {k : MachineID} {e : ExternalManager Nat} (h : (leaf id only pendingTags).neighbors.lookup k = some e) :
      k = only ∧ e = linked 0 only 0 := by
    change (AList.insert only (linked 0 only 0) (∅ : AList fun _ : MachineID => ExternalManager Nat)).lookup k =
      some e at h
    by_cases hk : k = only
    · subst hk
      rw [AList.lookup_insert] at h
      exact ⟨rfl, (Option.some.inj h).symm⟩
    · rw [AList.lookup_insert_ne hk] at h
      cases h
  refine ⟨fun k => ?_, ⟨fun k e h => ?_, fun k e h => ?_, fun k k' e e' h h' _ => ?_⟩, fun k e h => ?_, rfl⟩
  · rw [Finset.mem_singleton]
    refine (AList.mem_insert _).trans ⟨fun h => h.resolve_right nofun, .inl⟩
  · obtain ⟨rfl, rfl⟩ := hl h
    rfl
  · obtain ⟨rfl, rfl⟩ := hl h
    exact Nat.one_pos
  · rw [(hl h).1, (hl h').1]
  · obtain ⟨rfl, rfl⟩ := hl h
    exact ⟨rfl, rfl, rfl, rfl⟩

theorem searcher_fresh (id : MachineID) {first second : MachineID} (hne : second ≠ first) :
    Fresh (searcher id first second) {first, second} := by
  have hl {k : MachineID} {e : ExternalManager Nat} (h : (searcher id first second).neighbors.lookup k = some e) :
      k = first ∧ e = linked 0 first 0 ∨ k = second ∧ e = linked 1 second 100 := by
    change ((AList.insert second (linked 1 second 100) (∅ : AList fun _ : MachineID => ExternalManager Nat)).insert
      first (linked 0 first 0)).lookup k = some e at h
    by_cases hk : k = first
    · subst hk
      rw [AList.lookup_insert] at h
      exact .inl ⟨rfl, (Option.some.inj h).symm⟩
    · rw [AList.lookup_insert_ne hk] at h
      by_cases hk' : k = second
      · subst hk'
        rw [AList.lookup_insert] at h
        exact .inr ⟨rfl, (Option.some.inj h).symm⟩
      · rw [AList.lookup_insert_ne hk'] at h
        cases h
  refine ⟨fun k => ?_, ⟨fun k e h => ?_, fun k e h => ?_, fun k k' e e' h h' hptr => ?_⟩, fun k e h => ?_, rfl⟩
  · rw [Finset.mem_insert, Finset.mem_singleton]
    refine (AList.mem_insert _).trans
      (or_congr_right ((AList.mem_insert _).trans ⟨fun h => h.resolve_right nofun, .inl⟩))
  · rcases hl h with ⟨rfl, rfl⟩ | ⟨rfl, rfl⟩ <;> rfl
  · rcases hl h with ⟨rfl, rfl⟩ | ⟨rfl, rfl⟩
    · exact Nat.two_pos
    · exact Nat.one_lt_two
  · rcases hl h with ⟨rfl, rfl⟩ | ⟨rfl, rfl⟩ <;> rcases hl h' with ⟨rfl, rfl⟩ | ⟨rfl, rfl⟩
    · rfl
    · cases hptr
    · cases hptr
    · rfl
  · rcases hl h with ⟨rfl, rfl⟩ | ⟨rfl, rfl⟩ <;> exact ⟨rfl, rfl, rfl, rfl⟩

theorem three_initial {x y z : Manager Nat} (hx : Fresh x (G.nbrs ['a'])) (hy : Fresh y (G.nbrs ['b']))
    (hz : Fresh z (G.nbrs ['c'])) (hno : ∀ i, i ∉ ({['a'], ['b'], ['c']} : Finset MachineID) → G.nbrs i = ∅) :
    Initial G (three x y z) := by
  refine fun i => ⟨rfl, ?_, fun _ => rfl⟩
  show Fresh (if i = ['a'] then x else if i = ['b'] then y else if i = ['c'] then z else Manager.create 1 i 5000) _
  split
  · rename_i h
    exact h ▸ hx
  · split
    · rename_i h
      exact h ▸ hy
    · split
      · rename_i h
        exact h ▸ hz
      · rename_i ha hb hc
        rw [hno i (by simp [ha, hb, hc])]
        exact create_fresh i

/-- A pass of the main loop, with the messages it handles. -/
def pass (i : MachineID) (messages : List (Lbl Nat)) (neighbors : Nat) : List (Lbl Nat) :=
  [.act i (.beginPass quietEnv), .act i (.endConns quietEnv), .act i (.endAccept quietEnv)] ++ messages ++
    [.act i (.endMessages quietEnv)] ++ List.replicate neighbors (.act i (.remove quietEnv)) ++
    [.act i (.endPass quietEnv)]

/-! The line `a`, `b`, `c`: `a` asks, `b` passes the request on. -/

def line : Links := .ofEdges [(['a'], ['b']), (['b'], ['c'])]

def lineNet : Net Nat := three (leaf ['a'] ['b'] [['p']]) (searcher ['b'] ['c'] ['a']) (leaf ['c'] ['b'] [])

def lineRun : List (Lbl Nat) :=
  pass ['a'] [.act ['a'] .nextNeighbor] 1 ++
    pass ['b'] [.act ['b'] .nextNeighbor, .act ['b'] .nextNeighbor, .deliver ['b'] quietEnv] 2 ++
    pass ['c'] [.act ['c'] .nextNeighbor, .deliver ['c'] quietEnv] 1 ++
    pass ['b'] [.act ['b'] .nextNeighbor, .deliver ['b'] quietEnv, .act ['b'] (.init quietEnv),
      .act ['b'] .nextNeighbor] 2 ++
    pass ['a'] [.act ['a'] .nextNeighbor, .deliver ['a'] quietEnv, .act ['a'] (.init quietEnv)] 1

theorem line_initial : Initial line lineNet := by
  have ha : line.nbrs ['a'] = {['b']} := by decide
  have hb : line.nbrs ['b'] = {['c'], ['a']} := by decide
  have hc : line.nbrs ['c'] = {['b']} := by decide
  have hm : line.machines = {['a'], ['b'], ['c']} := by decide
  exact three_initial (ha ▸ leaf_fresh _ _ _) (hb ▸ searcher_fresh _ (by decide))
    (hc ▸ leaf_fresh _ _ _) fun i hi => Links.ofEdges_notMem (hm ▸ hi)

/-- One end of the line is within reach of each machine. -/
theorem line_noRing : NoRing line := by
  have hb : ['a'] ∈ line.nbrs ['b'] := by decide
  have ha : (line.nbrs ['a']).card ≠ 2 := by decide
  have hm : line.machines = {['a'], ['b'], ['c']} := by decide
  intro i
  by_cases hi : i = ['b']
  · exact ⟨['a'], .single (hi ▸ hb), ha⟩
  refine ⟨i, .refl, ?_⟩
  by_cases hmem : i ∈ line.machines
  · rw [hm] at hmem
    simp only [Finset.mem_insert, Finset.mem_singleton, hi, false_or] at hmem
    rcases hmem with rfl | rfl
    · exact ha
    · show (line.nbrs ['c']).card ≠ 2
      decide
  · rw [show line.nbrs i = ∅ from Links.ofEdges_notMem hmem]
    show (0 : Nat) ≠ 2
    decide

theorem mem_three {edges : List (MachineID × MachineID)}
    (hm : (Links.ofEdges edges).machines = {['a'], ['b'], ['c']}) (i j : MachineID)
    (hj : j ∈ (Links.ofEdges edges).nbrs i) :
    i ∈ [['a'], ['b'], (['c'] : MachineID)] ∧ j ∈ [['a'], ['b'], (['c'] : MachineID)] := by
  have hi := (Links.ofEdges edges).mem j i ((Links.ofEdges edges).symm i j hj)
  have hj := (Links.ofEdges edges).mem i j hj
  rw [hm] at hi hj
  exact ⟨by simpa using hi, by simpa using hj⟩

/-- `a` and `b` have their answers, and nothing is in flight. -/
theorem no_circular_wait_line : ∃ s : Net Nat, Quiescent s ∧ ¬ Circular s := by
  obtain ⟨s, hx, hc⟩ : ∃ s, LTS.exec (LTS.guarded step fun s l => cond s l = true) lineNet lineRun = some s ∧
      ([['a'], ['b'], ['c']].all fun a => [['a'], ['b'], ['c']].all fun b => (inFlight s a b).all fun msg =>
        !msg.isGetPublishers && !msg.isReport) = true := ⟨_, rfl, rfl⟩
  have hs := LTS.restrict_reachable_of_exec line_initial hx
  have hq : Quiescent s := (inv_inductive.reachable s hs).quiescent (mem_three (by decide)) hc
  exact ⟨s, hq, no_circular_wait line_noRing hs hq⟩

/-! The ring: each asks the next one. -/

def ring : Links := .ofEdges [(['a'], ['b']), (['b'], ['c']), (['c'], ['a'])]

def ringNet : Net Nat :=
  three (searcher ['a'] ['b'] ['c']) (searcher ['b'] ['c'] ['a']) (searcher ['c'] ['a'] ['b'])

def ringRun : List (Lbl Nat) :=
  (([['a'], ['b'], ['c']] : List MachineID).flatMap fun i =>
    pass i [.act i .nextNeighbor, .act i .nextNeighbor] 2) ++
  ([['a'], ['b'], ['c']] : List MachineID).flatMap fun i =>
    pass i [.act i .nextNeighbor, .act i .nextNeighbor, .deliver i quietEnv] 2

theorem ring_initial : Initial ring ringNet := by
  have ha : ring.nbrs ['a'] = {['b'], ['c']} := by decide
  have hb : ring.nbrs ['b'] = {['c'], ['a']} := by decide
  have hc : ring.nbrs ['c'] = {['a'], ['b']} := by decide
  have hm : ring.machines = {['a'], ['b'], ['c']} := by decide
  exact three_initial (ha ▸ searcher_fresh _ (by decide)) (hb ▸ searcher_fresh _ (by decide))
    (hc ▸ searcher_fresh _ (by decide)) fun i hi => Links.ofEdges_notMem (hm ▸ hi)

/-- Each waits for the next one. -/
theorem circular_wait : ∃ s : Net Nat, (lts Nat ring).Reachable s ∧ Quiescent s ∧ Circular s := by
  obtain ⟨s, hx, hc, hab, hbc, hca⟩ : ∃ s,
      LTS.exec (LTS.guarded step fun s l => cond s l = true) ringNet ringRun = some s ∧
      ([['a'], ['b'], ['c']].all fun a => [['a'], ['b'], ['c']].all fun b => (inFlight s a b).all fun msg =>
        !msg.isGetPublishers && !msg.isReport) = true ∧
      WaitsFor s ['a'] ['b'] ∧ WaitsFor s ['b'] ['c'] ∧ WaitsFor s ['c'] ['a'] :=
    ⟨_, rfl, rfl, ⟨rfl, rfl⟩, ⟨rfl, rfl⟩, ⟨rfl, rfl⟩⟩
  have hs := LTS.restrict_reachable_of_exec ring_initial hx
  have hq : Quiescent s := (inv_inductive.reachable s hs).quiescent (mem_three (by decide)) hc
  let v (i : Nat) : MachineID := match i % 3 with
    | 0 => ['a']
    | 1 => ['b']
    | _ => ['c']
  refine ⟨s, hs.of_restrict, hq, 3, by omega, v, rfl, fun i hi => ?_⟩
  match i, hi with
  | 0, _ => exact hab
  | 1, _ => exact hbc
  | 2, _ => exact hca

end Three

end Skywing.L5.CircularWait
