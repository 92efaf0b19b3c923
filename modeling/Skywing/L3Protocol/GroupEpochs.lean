import Skywing.Core.LTS
import Skywing.L3Protocol.ReduceGroup

/-!
# Rebuilding a reduce group

One participant's `ReduceGroup` through disconnections and rebuilds, under
any sequence of submissions, arriving values, disconnection notices,
rebuilds and fetches of waiters. History: every waiter is kept with the
number of disconnections there had been when it was obtained, every value
sent or stored as a result with the number of operations submitted before
the latest rebuild, and every fetch with the disconnections before that
rebuild.

A clean slate (`CleanSlate`) is that no operation from before a rebuild is
reduced after it, and no waiter from before a disconnection returns a value
once the group is rebuilt. `rebuild` resets the versions and the buffers but
not `pending_reduces_`, and a waiter asks the buffer for its version whatever
has happened since. `clean_slate`: the slate is clean in every run in which
nothing is pending at a rebuild, and no waiter from before a disconnection is
fetched after the rebuild while the buffer holds something it would take.
`stale_reduce` and `stale_waiter` are runs without.
-/
namespace Skywing.L3.GroupEpochs

open L2.TagBuffer ReduceGroup

structure St (V : Type) where
  group : ReduceGroup V
  /-- disconnections acted on or reported so far -/
  disconnects : Nat
  /-- `disconnects` at the latest rebuild -/
  rebuiltAfter : Nat
  /-- operations submitted before the latest rebuild -/
  submittedBefore : Nat
  /-- the waiters, each with `disconnects` when it was obtained -/
  waiters : List (Waiter × Nat)
  /-- what was sent or stored, each with `submittedBefore` at the time -/
  sent : List (Send V × Nat)
  /-- what fetches returned, with when the waiter was obtained and
  `rebuiltAfter` at the time -/
  fetched : List (Nat × Nat × Outcome V)

inductive Lbl (V : Type)
  | submit (isAllReduce : Bool) (op : V → V → V) (value : V)
  | data (tag : TagID) (value : V) (version : VersionID)
  | notice (machine : MachineID) (id : ReductionDisconnectID)
  | report (self : MachineID) (id : ReductionDisconnectID)
  | rebuild
  | fetch (i : Nat)

variable {V : Type}

def init (s : St V) : Prop := ∃ tagNeighbors groupId producedTag expectedTypes,
  s = ⟨create tagNeighbors groupId producedTag expectedTypes, 0, 0, 0, [], [], []⟩

/-- The group has become `g` and sent `sends`. -/
def St.act (s : St V) (g : ReduceGroup V) (sends : List (Send V)) : St V :=
  { s with group := g, sent := s.sent ++ sends.map fun x => (x, s.submittedBefore) }

def step [Typed V] (s : St V) : Lbl V → Option (St V)
  | .submit isAllReduce op value => do
    let (w, g, sends) ← s.group.reduceImpl isAllReduce op value
    return { s.act g sends with waiters := s.waiters ++ [(w, s.disconnects)] }
  | .data tag value version => do
    let (_, g, sends) ← s.group.addData tag value version
    return s.act g sends
  | .notice machine id =>
    let (g, sends) := s.group.propagateDisconnection machine id
    some { s.act g sends with disconnects := if sends.isEmpty then s.disconnects else s.disconnects + 1 }
  | .report self id =>
    let (g, sends) := s.group.reportDisconnection self id
    some { s.act g sends with disconnects := s.disconnects + 1 }
  | .rebuild =>
    some { s with
      group := s.group.rebuild
      rebuiltAfter := s.disconnects
      submittedBefore := s.group.submitted }
  | .fetch i => do
    let (w, obtained) ← s.waiters[i]?
    -- `Waiter::get` returns once the waiter is ready
    if s.group.isReady w then
      let (outcome, g) ← s.group.getValue w
      return { s with group := g, fetched := s.fetched ++ [(obtained, s.rebuiltAfter, outcome)] }
    else none

def lts [Typed V] : LTS (St V) (Lbl V) := LTS.ofFn init step

/-! ## What is asked for -/

/-- The submission a value sent or stored is the result of. -/
def seqOf : Send V → Option Nat
  | .toParent _ _ seq | .result _ _ seq => some seq
  | .toChildren _ _ | .disconnection _ _ => none

structure CleanSlate (s : St V) : Prop where
  reduced : ∀ x ∈ s.sent, ∀ seq, seqOf x.1 = some seq → x.2 ≤ seq
  fetched : ∀ x ∈ s.fetched, x.1 < x.2.1 → ∀ v, x.2.2 ≠ .value v

/-- The waiter was obtained before a disconnection that a rebuild has
followed. -/
def Stale (s : St V) (obtained : Nat) : Prop := obtained < s.rebuiltAfter

/-- `data_buffers_[0]` holds something that `get` of `w` would take. -/
def WouldTake (g : ReduceGroup V) (w : Waiter) : Prop :=
  (w.isAllReduce || g.returnsValueOnReduce) = true ∧ (g.dataBuffers 0).hasData w.requiredVersion = true

/-- Nothing is pending at a rebuild, and no stale waiter is fetched when it
would take a value. -/
def Cond (s : St V) : Lbl V → Prop
  | .rebuild => s.group.pendingReduces = []
  | .fetch i => ∀ x ∈ s.waiters[i]?, Stale s x.2 → ¬ WouldTake s.group x.1
  | _ => True

/-! ## What processing reduces and keeps -/

/-- What is sent for an operation carries the operation's number. -/
theorem seqOf_deliverResult (g : ReduceGroup V) (p : PendingReduce V) (v : V) :
    ∀ x ∈ (g.deliverResult p v).2, ∀ seq, seqOf x = some seq → seq = p.seq := by
  unfold deliverResult
  split
  · intro x hx seq hseq
    rcases List.mem_cons.mp hx with rfl | hx
    · cases hseq; rfl
    · split at hx
      · rw [List.mem_singleton.mp hx] at hseq
        cases hseq
      · cases hx
  · intro x hx seq hseq
    rw [List.mem_singleton.mp hx] at hseq
    cases hseq; rfl

/-- Processing sends results of pending operations only, and what stays
pending was pending. -/
theorem process_seqs {g g' : ReduceGroup V} {sends : List (Send V)} {lo : Nat}
    (h : g.processPendingReduceOps = some (g', sends)) (hlo : ∀ p ∈ g.pendingReduces, lo ≤ p.seq) :
    (∀ p ∈ g'.pendingReduces, lo ≤ p.seq) ∧ g'.submitted = g.submitted ∧
      ∀ x ∈ sends, ∀ seq, seqOf x = some seq → lo ≤ seq := by
  have hrule := processLoop_rule (P := fun rest g₁ sends => (∀ p ∈ rest, lo ≤ p.seq) ∧
    g₁.submitted = g.submitted ∧ ∀ x ∈ sends, ∀ seq, seqOf x = some seq → lo ≤ seq) ?_ ?_ _ _ _ [] _ h
    ⟨hlo, rfl, by simp⟩
  · obtain ⟨rest, g₁, ⟨hrest, hsub, hsends⟩, rfl⟩ := hrule
    exact ⟨hrest, hsub, hsends⟩
  · rintro p rest g₁ sends - ⟨hrest, hsub, hsends⟩
    exact ⟨fun q hq => hrest q (List.mem_cons_of_mem p hq), hsub, hsends⟩
  · rintro p rest g₁ sends v g₂ - - hres ⟨hrest, hsub, hsends⟩
    refine ⟨fun q hq => hrest q (List.mem_cons_of_mem p hq), ?_, ?_⟩
    · rw [deliverResult_frame, reduceResult_frame hres]
      exact hsub
    · intro x hx seq hseq
      rcases List.mem_append.mp hx with hx | hx
      · exact hsends x hx seq hseq
      · rw [seqOf_deliverResult g₂ p v x hx seq hseq]
        exact hrest p List.mem_cons_self

/-! ## The invariant -/

structure Inv (s : St V) : Prop where
  pending : ∀ p ∈ s.group.pendingReduces, s.submittedBefore ≤ p.seq
  submitted : s.submittedBefore ≤ s.group.submitted
  clean : CleanSlate s

/-- A group whose pending operations and sends are all from after the latest
rebuild. -/
theorem Inv.act {s : St V} (hs : Inv s) {g : ReduceGroup V} {sends : List (Send V)}
    (hp : ∀ p ∈ g.pendingReduces, s.submittedBefore ≤ p.seq)
    (hn : s.group.submitted ≤ g.submitted)
    (hx : ∀ x ∈ sends, ∀ seq, seqOf x = some seq → s.submittedBefore ≤ seq) : Inv (s.act g sends) where
  pending := hp
  submitted := le_trans hs.submitted hn
  clean :=
    { reduced := by
        intro x hx' seq hseq
        rcases List.mem_append.mp hx' with hx' | hx'
        · exact hs.clean.reduced x hx' seq hseq
        · obtain ⟨y, hy, rfl⟩ := List.mem_map.mp hx'
          exact hx y hy seq hseq
      fetched := hs.clean.fetched }

/-- A fetch returns a value only where the waiter would take one. -/
theorem getValue_value {g g' : ReduceGroup V} {w : Waiter} {v : V}
    (h : g.getValue w = some (.value v, g')) : WouldTake g w := by
  unfold getValue at h
  split at h
  · rename_i hw
    split at h
    · rename_i hd
      exact ⟨hw, hd⟩
    · cases h
  · split at h <;> cases h

theorem getValue_frame {g g' : ReduceGroup V} {w : Waiter} {o : Outcome V} (h : g.getValue w = some (o, g')) :
    g' = { g with dataBuffers := g'.dataBuffers } := by
  unfold getValue at h
  split at h
  · split at h
    · obtain ⟨⟨v, g₁⟩, hg, hx⟩ := Option.map_eq_some_iff.mp h
      obtain ⟨b, _, rfl⟩ := getBuffer_eq hg
      cases hx; rfl
    · cases h; rfl
  · split at h <;> (cases h; rfl)

variable [Typed V]

theorem inv_submit {s t : St V} {isAllReduce : Bool} {op : V → V → V} {value : V} (hs : Inv s)
    (h : step s (.submit isAllReduce op value) = some t) : Inv t := by
  obtain ⟨⟨w, g, sends⟩, hr, h⟩ := Option.bind_eq_some_iff.mp h
  obtain ⟨⟨g', sends'⟩, hp, hr⟩ := Option.bind_eq_some_iff.mp hr
  cases hr; cases h
  have hlo : ∀ p ∈ s.group.pendingReduces ++
      [⟨s.group.lastSentVersion + 1, value, op, isAllReduce, s.group.submitted⟩],
      s.submittedBefore ≤ p.seq := by
    intro p hp
    rcases List.mem_append.mp hp with hp | hp
    · exact hs.pending p hp
    · rw [List.mem_singleton.mp hp]
      exact hs.submitted
  obtain ⟨hpend, hsub, hsends⟩ := process_seqs hp hlo
  have := hs.act hpend (by rw [hsub]; exact Nat.le_succ _) hsends
  exact ⟨this.pending, this.submitted, ⟨this.clean.reduced, this.clean.fetched⟩⟩

theorem inv_data {s t : St V} {tag : TagID} {value : V} {version : VersionID} (hs : Inv s)
    (h : step s (.data tag value version) = some t) : Inv t := by
  obtain ⟨⟨ok, g, sends⟩, hr, h⟩ := Option.bind_eq_some_iff.mp h
  cases h
  unfold addData at hr
  split at hr
  · cases hr
    exact hs.act hs.pending le_rfl (by simp)
  · split at hr
    · cases hr
      exact hs.act hs.pending le_rfl (by simp)
    · rename_i i _
      obtain ⟨⟨g', sends'⟩, hp, hr⟩ := Option.bind_eq_some_iff.mp hr
      cases hr
      obtain ⟨hpend, hsub, hsends⟩ := process_seqs hp hs.pending
      refine hs.act hpend (le_of_eq hsub.symm) ?_
      intro x hx seq hseq
      rcases List.mem_append.mp hx with hx | hx
      · split at hx
        · rw [List.mem_singleton.mp hx] at hseq
          cases hseq
        · cases hx
      · exact hsends x hx seq hseq

theorem inv_notice {s t : St V} {machine : MachineID} {id : ReductionDisconnectID} (hs : Inv s)
    (h : step s (.notice machine id) = some t) : Inv t := by
  cases h
  have : Inv (s.act (s.group.propagateDisconnection machine id).1
      (s.group.propagateDisconnection machine id).2) := by
    unfold propagateDisconnection
    split
    · exact hs.act hs.pending le_rfl (by simp)
    · exact hs.act hs.pending le_rfl (by simp [seqOf])
  exact ⟨this.pending, this.submitted, ⟨this.clean.reduced, this.clean.fetched⟩⟩

theorem inv_report {s t : St V} {self : MachineID} {id : ReductionDisconnectID} (hs : Inv s)
    (h : step s (.report self id) = some t) : Inv t := by
  cases h
  have : Inv (s.act (s.group.reportDisconnection self id).1 (s.group.reportDisconnection self id).2) :=
    hs.act hs.pending le_rfl (by simp [reportDisconnection, seqOf])
  exact ⟨this.pending, this.submitted, ⟨this.clean.reduced, this.clean.fetched⟩⟩

theorem inv_rebuild {s t : St V} (hs : Inv s) (h : step s .rebuild = some t)
    (hc : s.group.pendingReduces = []) : Inv t := by
  cases h
  refine ⟨?_, le_rfl, hs.clean.reduced, hs.clean.fetched⟩
  intro p hp
  have : p ∈ s.group.pendingReduces := hp
  rw [hc] at this
  cases this

theorem inv_fetch {s t : St V} {i : Nat} (hs : Inv s) (h : step s (.fetch i) = some t)
    (hc : ∀ x ∈ s.waiters[i]?, Stale s x.2 → ¬ WouldTake s.group x.1) : Inv t := by
  obtain ⟨⟨w, obtained⟩, hw, h⟩ := Option.bind_eq_some_iff.mp h
  simp only at h
  split at h
  · obtain ⟨⟨o, g⟩, hg, h⟩ := Option.bind_eq_some_iff.mp h
    cases h
    have hframe := getValue_frame hg
    refine ⟨?_, ?_, hs.clean.reduced, ?_⟩
    · simp only
      rw [hframe]
      exact hs.pending
    · simp only
      rw [hframe]
      exact hs.submitted
    · intro x hx hlt v hv
      rcases List.mem_append.mp hx with hx | hx
      · exact hs.clean.fetched x hx hlt v hv
      · rw [List.mem_singleton.mp hx] at hlt hv
        rw [show o = .value v from hv] at hg
        exact hc _ hw hlt (getValue_value hg)
  · cases h

theorem inv_inductive : (lts.restrict Cond : LTS (St V) (Lbl V)).Inductive Inv where
  init := by
    intro s hex
    obtain ⟨tagNeighbors, groupId, producedTag, expectedTypes, rfl⟩ := hex
    exact ⟨by simp [create], le_rfl, by simp, by simp⟩
  step := by
    intro s l t hs hex
    obtain ⟨h, hc⟩ := hex
    cases l with
    | submit isAllReduce op value => exact inv_submit hs h
    | data tag value version => exact inv_data hs h
    | notice machine id => exact inv_notice hs h
    | report self id => exact inv_report hs h
    | rebuild => exact inv_rebuild hs h hc
    | fetch i => exact inv_fetch hs h hc

/-- **A clean slate.** -/
theorem clean_slate (s : St V) (h : (lts.restrict Cond).Reachable s) : CleanSlate s :=
  (inv_inductive.reachable s h).clean

/-! ## A root with one child -/

/-- The root "ra", whose left child produces "rb". -/
def root : ReduceGroup Nat :=
  create ⟨fun i => if i = 1 then ['r', 'b'] else []⟩ ['g'] ['r', 'a'] []

def start : St Nat := ⟨root, 0, 0, 0, [], [], []⟩

theorem init_start : init start := ⟨_, _, _, _, rfl⟩

instance (s : St Nat) : (l : Lbl Nat) → Decidable (Cond s l)
  | .rebuild => inferInstanceAs (Decidable (s.group.pendingReduces = []))
  | .fetch i => inferInstanceAs (Decidable (∀ x ∈ s.waiters[i]?, x.2 < s.rebuiltAfter → ¬ (_ ∧ _)))
  | .submit .. | .data .. | .notice .. | .report .. => isTrue trivial

/-- An allreduce whose result is fetched, a disconnection and a rebuild, then
a value of the child. -/
def cleanRun : List (Lbl Nat) :=
  [.submit true (· + ·) 5, .data ['r', 'b'] 7 0, .fetch 0, .report ['m'] 1, .rebuild, .data ['r', 'b'] 9 0]

theorem clean_slate_root : ∃ s, (lts.restrict Cond).Reachable s ∧ s.rebuiltAfter = 1 ∧
    s.fetched = [(0, 0, .value 12)] ∧ CleanSlate s := by
  have hx : LTS.exec (LTS.guarded step Cond) start cleanRun = some _ := rfl
  have hr : (lts.restrict Cond).Reachable _ := LTS.restrict_reachable_of_exec init_start hx
  exact ⟨_, hr, rfl, rfl, clean_slate _ hr⟩

/-- The operation is still waiting for the child when the group breaks. -/
def staleReduceRun : List (Lbl Nat) :=
  [.submit false (· + ·) 5, .report ['m'] 1, .rebuild, .data ['r', 'b'] 7 0]

/-- The waiter from before the disconnection is fetched after a reduction of
the rebuilt group. -/
def staleWaiterRun : List (Lbl Nat) :=
  [.submit true (· + ·) 5, .data ['r', 'b'] 7 0, .report ['m'] 1, .rebuild, .submit true (· + ·) 6,
    .data ['r', 'b'] 8 0, .fetch 0]

/-- The operation of before the rebuild is combined with the child's value of
after it, and the old waiter takes a new result. -/
theorem stale_slate :
    (∃ s : St Nat, lts.Reachable s ∧ ∃ v version seq, (Send.result v version seq, 1) ∈ s.sent ∧ seq < 1 ∧
      ¬ CleanSlate s) ∧
    ∃ s : St Nat, lts.Reachable s ∧ (0, 1, .value 14) ∈ s.fetched ∧ ¬ CleanSlate s := by
  constructor
  · have hx : LTS.exec step start staleReduceRun = some _ := rfl
    have hr : lts.Reachable _ := LTS.reachable_of_exec init_start hx
    refine ⟨_, hr, 12, 0, 0, ?_, Nat.one_pos, ?_⟩
    · exact .tail _ (.head _)
    · intro hc
      exact absurd (hc.reduced (_, 1) (.tail _ (.head _)) 0 rfl) (by decide)
  · have hx : LTS.exec step start staleWaiterRun = some _ := rfl
    have hr : lts.Reachable _ := LTS.reachable_of_exec init_start hx
    refine ⟨_, hr, .head _, ?_⟩
    intro hc
    exact hc.fetched _ (.head _) Nat.one_pos 14 rfl

end Skywing.L3.GroupEpochs
