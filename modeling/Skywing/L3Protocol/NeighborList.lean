import Mathlib.Data.Finset.Card
import Mathlib.Data.List.GetD
import Skywing.L3Protocol.ExternalManager

/-!
# The neighbours of a neighbour

`ExternalManager::neighbors_` (`skywing_core/manager.cpp`): the list of a
greeting, changed by `NewNeighbor` and `RemoveNeighbor` messages and looked
through with `std::lower_bound`. `make_neighbor_vector` lists the keys of an
`unordered_map`, in any order, and the constructor takes the list as it is;
a neighbour is removed by putting the last one in its place, and what
`lower_bound` finds is not compared with the id to be removed.

What is asked for (`FaithfulRun`): at every point `has_neighbor` is true of the
ids that were listed or added and not removed since, and removing an absent
id changes nothing.

* `loop_finds`: a binary search that finds every element needs a sorted list.
* `faithful_iff`: that is so exactly when the greeting lists the ids in order
  and each removal is of one of the two greatest ids, or of an absent id that
  is greater than all of them.
-/
namespace Skywing.L3.NeighborList

open ExternalManager (lowerBoundLoop lowerBound create handleNewNeighbor handleRemoveNeighbor)

/-! ## Binary search -/

section Search

variable {l : List MachineID}

theorem loop_range (l : List MachineID) (id : MachineID) : ∀ fuel first len,
    first ≤ lowerBoundLoop l id fuel first len ∧ lowerBoundLoop l id fuel first len ≤ first + len
  | 0, first, len => ⟨le_rfl, Nat.le_add_right _ _⟩
  | fuel + 1, first, len => by
    unfold lowerBoundLoop
    split
    · exact ⟨le_rfl, Nat.le_add_right _ _⟩
    split
    · obtain ⟨h₁, h₂⟩ := loop_range l id fuel (first + len / 2 + 1) (len - len / 2 - 1)
      exact ⟨by omega, by omega⟩
    · obtain ⟨h₁, h₂⟩ := loop_range l id fuel first (len / 2)
      exact ⟨h₁, by omega⟩

/-- Where the search finds every element of a range, the range is sorted. -/
theorem loop_finds (hinj : ∀ i j, i < l.length → j < l.length → l.getD i [] = l.getD j [] → i = j) :
    ∀ fuel first len, first + len ≤ l.length →
      (∀ j, first ≤ j → j < first + len → lowerBoundLoop l (l.getD j []) fuel first len = j) →
      ∀ i j, first ≤ i → i < j → j < first + len → l.getD i [] < l.getD j []
  | 0, first, len, hlen, hfind, i, j, hi, hij, hj => by
    have hji : first = j := hfind j (by omega) hj
    omega
  | fuel + 1, first, len, hlen, hfind, i, j, hi, hij, hj => by
    have h0 : len ≠ 0 := by omega
    obtain ⟨mid, hmid⟩ : ∃ mid, mid = first + len / 2 := ⟨_, rfl⟩
    have hcase : ∀ k, first ≤ k → k < first + len →
        (l.getD mid [] < l.getD k [] ∧ mid < k ∧
          lowerBoundLoop l (l.getD k []) fuel (mid + 1) (len - len / 2 - 1) = k) ∨
        (¬ l.getD mid [] < l.getD k [] ∧ k ≤ mid ∧ lowerBoundLoop l (l.getD k []) fuel first (len / 2) = k) := by
      intro k hk hkl
      have h := hfind k hk hkl
      rw [lowerBoundLoop, if_neg h0, ← hmid] at h
      split at h
      · rename_i hlt
        have := (loop_range l (l.getD k []) fuel (mid + 1) (len - len / 2 - 1)).1
        exact .inl ⟨hlt, by omega, h⟩
      · rename_i hge
        have := (loop_range l (l.getD k []) fuel first (len / 2)).2
        exact .inr ⟨hge, by omega, h⟩
    have hleft : ∀ k, first ≤ k → k < mid → l.getD k [] < l.getD mid [] := by
      intro k hk hkm
      rcases hcase k hk (by omega) with ⟨-, hmk, -⟩ | ⟨hge, -, -⟩
      · omega
      · refine lt_of_le_of_ne (not_lt.mp hge) fun he => ?_
        have := hinj k mid (by omega) (by omega) he
        omega
    have hright : ∀ k, mid < k → k < first + len → l.getD mid [] < l.getD k [] := by
      intro k hk hkl
      rcases hcase k (by omega) hkl with ⟨hlt, -, -⟩ | ⟨-, hkm, -⟩
      · exact hlt
      · omega
    rcases Nat.lt_trichotomy j mid with hjm | rfl | hjm
    · refine loop_finds hinj fuel first (len / 2) (by omega) (fun k hk hkl => ?_) i j hi hij (by omega)
      rcases hcase k hk (by omega) with ⟨-, hmk, -⟩ | ⟨-, -, hloop⟩
      · omega
      · exact hloop
    · exact hleft i hi hij
    · rcases Nat.lt_trichotomy i mid with him | rfl | him
      · exact (hleft i hi him).trans (hright j hjm hj)
      · exact hright j hij hj
      · refine loop_finds hinj fuel (mid + 1) (len - len / 2 - 1) (by omega) (fun k hk hkl => ?_) i j (by omega) hij
          (by omega)
        rcases hcase k (by omega) (by omega) with ⟨-, -, hloop⟩ | ⟨-, hkm, -⟩
        · exact hloop
        · omega

/-- In a sorted range the search ends where the elements are no longer
smaller. -/
theorem loop_sorted {id : MachineID}
    (hsorted : ∀ i j, i < j → j < l.length → l.getD i [] < l.getD j []) :
    ∀ fuel first len, len ≤ fuel → first + len ≤ l.length → (∀ i < first, l.getD i [] < id) →
      (∀ i, first + len ≤ i → i < l.length → ¬ l.getD i [] < id) →
      (∀ i < lowerBoundLoop l id fuel first len, l.getD i [] < id) ∧
        ∀ i, lowerBoundLoop l id fuel first len ≤ i → i < l.length → ¬ l.getD i [] < id
  | 0, first, len, hfuel, hlen, hbefore, hafter => by
    obtain rfl : len = 0 := Nat.le_zero.mp hfuel
    exact ⟨hbefore, hafter⟩
  | fuel + 1, first, len, hfuel, hlen, hbefore, hafter => by
    rw [lowerBoundLoop]
    split
    · rename_i h0
      subst h0
      exact ⟨hbefore, hafter⟩
    split
    · rename_i h0 hlt
      refine loop_sorted hsorted fuel _ _ (by omega) (by omega) (fun i hi => ?_) fun i hi hil => hafter i (by omega) hil
      rcases Nat.lt_or_ge i (first + len / 2) with h | h
      · exact (hsorted i _ h (by omega)).trans hlt
      · rwa [show i = first + len / 2 by omega]
    · rename_i h0 hge
      refine loop_sorted hsorted fuel _ _ (by omega) (by omega) hbefore fun i hi hil hlt => ?_
      rcases Nat.lt_or_ge (first + len / 2) i with h | h
      · exact hge ((hsorted _ i h hil).trans hlt)
      · exact hge ((show i = first + len / 2 by omega) ▸ hlt)

theorem getD_lt_of_sorted (h : l.Pairwise (· < ·)) : ∀ i j, i < j → j < l.length → l.getD i [] < l.getD j [] := by
  intro i j hij hj
  rw [List.getD_eq_getElem _ _ (hij.trans hj), List.getD_eq_getElem _ _ hj]
  exact List.pairwise_iff_getElem.mp h i j (hij.trans hj) hj hij

/-- `lower_bound` cuts a sorted list in two. -/
theorem lowerBound_spec (h : l.Pairwise (· < ·)) (id : MachineID) : ∃ before after, l = before ++ after ∧
    before.length = lowerBound l id ∧ (∀ a ∈ before, a < id) ∧ ∀ b ∈ after, id ≤ b := by
  have hle : lowerBound l id ≤ l.length := by
    have := (loop_range l id l.length 0 l.length).2
    rwa [Nat.zero_add] at this
  obtain ⟨hbefore, hafter⟩ := @loop_sorted l id (getD_lt_of_sorted h) l.length 0 l.length le_rfl
    (Nat.zero_add _).le nofun fun i hi hil => by omega
  refine ⟨l.take (lowerBound l id), l.drop (lowerBound l id), (List.take_append_drop _ _).symm,
    List.length_take_of_le hle, fun a ha => ?_, fun b hb => ?_⟩
  · obtain ⟨i, hi, rfl⟩ := List.mem_iff_getElem.mp ha
    rw [List.length_take] at hi
    rw [List.getElem_take]
    have := hbefore i (by unfold lowerBound at hi; omega)
    rwa [List.getD_eq_getElem _ _ (by omega)] at this
  · obtain ⟨i, hi, rfl⟩ := List.mem_iff_getElem.mp hb
    rw [List.length_drop] at hi
    rw [List.getElem_drop]
    have := hafter (lowerBound l id + i) (Nat.le_add_right _ _) (by omega)
    rw [List.getD_eq_getElem _ _ (by omega)] at this
    exact not_lt.mp this

end Search

/-! ## Messages -/

inductive Msg
  | newNeighbor (id : MachineID)
  | removeNeighbor (id : MachineID)

variable {V : Type}

def handle (e : ExternalManager V) : Msg → ExternalManager V
  | .newNeighbor id => e.handleNewNeighbor id
  | .removeNeighbor id => e.handleRemoveNeighbor id

/-- The ids that were listed or added and not removed since. -/
def current (S : Finset MachineID) : Msg → Finset MachineID
  | .newNeighbor id => insert id S
  | .removeNeighbor id => S.erase id

def Faithful (e : ExternalManager V) (S : Finset MachineID) : Prop := ∀ id, e.hasNeighbor id = true ↔ id ∈ S

def FaithfulRun : ExternalManager V → Finset MachineID → List Msg → Prop
  | e, S, [] => Faithful e S
  | e, S, msg :: msgs => Faithful e S ∧ (∀ id, msg = .removeNeighbor id → id ∉ S → handle e msg = e) ∧
    FaithfulRun (handle e msg) (current S msg) msgs

/-- Each removal is of one of the two greatest ids, or of an absent one that
is greater than all. -/
def RemovedFromEnd : Finset MachineID → List Msg → Prop
  | _, [] => True
  | S, .newNeighbor id :: msgs => RemovedFromEnd (insert id S) msgs
  | S, .removeNeighbor id :: msgs =>
    (S.filter (id < ·)).card ≤ (if id ∈ S then 1 else 0) ∧ RemovedFromEnd (S.erase id) msgs

/-! ## Look-ups -/

section Lists

variable {l : List MachineID}

theorem getElem?_lowerBound (h : l.Pairwise (· < ·)) (id : MachineID) : l[lowerBound l id]? = some id ↔ id ∈ l := by
  obtain ⟨before, after, hl, hlen, hbefore, hafter⟩ := lowerBound_spec h id
  rw [← hlen, hl, List.getElem?_append_right le_rfl, Nat.sub_self]
  constructor
  · intro he
    exact List.mem_append_right _ (List.mem_of_getElem? he)
  · intro hm
    rcases List.mem_append.mp hm with hm | hm
    · exact absurd (hbefore id hm) (lt_irrefl id)
    · cases after with
      | nil => cases hm
      | cons b after =>
        -- the first one that is not smaller is the id itself
        rw [hl, List.pairwise_append, List.pairwise_cons] at h
        rcases List.mem_cons.mp hm with rfl | hm
        · rfl
        · exact absurd (h.2.1.1 id hm) (not_lt.mpr (hafter b List.mem_cons_self))

theorem sorted_of_found (hnd : l.Nodup) (hfound : ∀ id ∈ l, l[lowerBound l id]? = some id) : l.Pairwise (· < ·) := by
  have hinj : ∀ i j, i < l.length → j < l.length → l.getD i [] = l.getD j [] → i = j := by
    intro i j hi hj he
    rw [List.getD_eq_getElem _ _ hi, List.getD_eq_getElem _ _ hj] at he
    exact (List.Nodup.getElem_inj_iff hnd).mp he
  have hfind : ∀ j, 0 ≤ j → j < 0 + l.length → lowerBoundLoop l (l.getD j []) l.length 0 l.length = j := by
    intro j _ hj
    rw [Nat.zero_add] at hj
    have h := hfound l[j] (List.getElem_mem hj)
    rw [List.getD_eq_getElem _ _ hj]
    obtain ⟨hk, he⟩ := List.getElem?_eq_some_iff.mp h
    exact (List.Nodup.getElem_inj_iff hnd).mp he
  rw [List.pairwise_iff_getElem]
  intro i j hi hj hij
  have h := loop_finds hinj l.length 0 l.length (Nat.zero_add _).le hfind i j (Nat.zero_le i) hij (by omega)
  rwa [List.getD_eq_getElem _ _ hi, List.getD_eq_getElem _ _ hj] at h

/-- Every id is found exactly where the list is sorted. -/
theorem faithful_iff_sorted {e : ExternalManager V} (hnd : e.neighbors.Nodup) :
    Faithful e e.neighbors.toFinset ↔ e.neighbors.Pairwise (· < ·) := by
  have hhas (id : MachineID) : e.hasNeighbor id = true ↔ e.neighbors[lowerBound e.neighbors id]? = some id := by
    rw [ExternalManager.hasNeighbor, beq_iff_eq]
  constructor
  · intro h
    exact sorted_of_found hnd fun id hid => (hhas id).mp ((h id).mpr (List.mem_toFinset.mpr hid))
  · intro h id
    rw [hhas, getElem?_lowerBound h, List.mem_toFinset]

theorem insertIdx_length (before after : List MachineID) (id : MachineID) :
    (before ++ after).insertIdx before.length id = before ++ id :: after := by
  induction before with
  | nil => rfl
  | cons a before ih => exact congrArg (a :: ·) ih

/-- The last one takes the place of the one found. -/
theorem set_dropLast (before after : List MachineID) (id : MachineID) :
    ((before ++ id :: after).set before.length ((before ++ id :: after).getLastD [])).dropLast =
      match after.getLast? with
      | none => before
      | some z => before ++ z :: after.dropLast := by
  have hlast : (before ++ id :: after).getLastD [] = (after.getLast?).getD id := by
    rw [List.getLastD_eq_getLast?, List.getLast?_append, List.getLast?_cons]
    simp
  rw [hlast, List.set_append_right _ _ le_rfl, Nat.sub_self, List.set_cons_zero,
    List.dropLast_append_of_ne_nil (List.cons_ne_nil _ _)]
  cases after with
  | nil => simp
  | cons a after => simp [List.getLast?_cons]

end Lists

/-! ## Each message -/

section Messages

variable {e : ExternalManager V} (h : e.neighbors.Pairwise (· < ·))
include h

theorem handle_newNeighbor (id : MachineID) : (handle e (.newNeighbor id)).neighbors.Pairwise (· < ·) ∧
    (handle e (.newNeighbor id)).neighbors.toFinset = insert id e.neighbors.toFinset := by
  have hhas : e.hasNeighbor id = true ↔ id ∈ e.neighbors := by
    rw [ExternalManager.hasNeighbor, beq_iff_eq, getElem?_lowerBound h]
  show (e.handleNewNeighbor id).neighbors.Pairwise _ ∧ (e.handleNewNeighbor id).neighbors.toFinset = _
  unfold handleNewNeighbor
  by_cases hm : id ∈ e.neighbors
  · rw [if_pos (hhas.mpr hm)]
    exact ⟨h, (Finset.insert_eq_of_mem (List.mem_toFinset.mpr hm)).symm⟩
  · rw [if_neg (mt hhas.mp hm)]
    obtain ⟨before, after, hl, hlen, hbefore, hafter⟩ := lowerBound_spec h id
    dsimp only
    rw [← hlen]
    rw [hl] at h hm ⊢
    rw [insertIdx_length]
    obtain ⟨h₁, h₂, h₃⟩ := List.pairwise_append.mp h
    constructor
    · rw [List.pairwise_append, List.pairwise_cons]
      refine ⟨h₁, ⟨fun b hb => ?_, h₂⟩, fun a ha b hb => ?_⟩
      · exact lt_of_le_of_ne (hafter b hb) fun he => hm (he ▸ List.mem_append_right _ hb)
      · rcases List.mem_cons.mp hb with rfl | hb
        · exact hbefore a ha
        · exact h₃ a ha b hb
    · ext x
      simp only [List.mem_toFinset, List.mem_append, List.mem_cons, Finset.mem_insert]
      tauto

/-- The removal of a listed id keeps the order if at most one is greater. -/
theorem handle_removeNeighbor {id : MachineID} (hm : id ∈ e.neighbors) :
    (handle e (.removeNeighbor id)).neighbors.Nodup ∧
      (handle e (.removeNeighbor id)).neighbors.toFinset = e.neighbors.toFinset.erase id ∧
      ((handle e (.removeNeighbor id)).neighbors.Pairwise (· < ·) ↔
        (e.neighbors.toFinset.filter (id < ·)).card ≤ 1) := by
  obtain ⟨before, tail, hl, hlen, hbefore, -⟩ := lowerBound_spec h id
  have hfind := (getElem?_lowerBound h id).mpr hm
  rw [← hlen, hl, List.getElem?_append_right le_rfl, Nat.sub_self] at hfind
  obtain ⟨after, rfl⟩ : ∃ after, tail = id :: after := by
    cases tail with
    | nil => cases hfind
    | cons b after => exact ⟨after, by cases hfind; rfl⟩
  have hlt : lowerBound e.neighbors id < e.neighbors.length := by
    rw [← hlen, hl, List.length_append, List.length_cons]
    omega
  have hnew : (handle e (.removeNeighbor id)).neighbors = match after.getLast? with
      | none => before
      | some z => before ++ z :: after.dropLast := by
    show (e.handleRemoveNeighbor id).neighbors = _
    unfold handleRemoveNeighbor
    dsimp only
    rw [if_pos hlt, ← hlen]
    show ((e.neighbors.set before.length (e.neighbors.getLastD [])).dropLast) = _
    rw [hl, set_dropLast]
  have hsorted := h
  rw [hl, List.pairwise_append, List.pairwise_cons] at hsorted
  obtain ⟨hb, ⟨hid, ha⟩, hba⟩ := hsorted
  have hperm : (handle e (.removeNeighbor id)).neighbors.Perm (before ++ after) := by
    rw [hnew]
    cases hz : after.getLast? with
    | none =>
      rw [List.getLast?_eq_none_iff.mp hz, List.append_nil]
    | some z =>
      have hsplit := List.dropLast_append_getLast? z hz
      refine List.Perm.append_left before ?_
      conv_rhs => rw [← hsplit]
      exact (List.perm_append_singleton z _).symm
  have hnd : (before ++ after).Nodup := by
    have hnd := h.imp (fun hlt => ne_of_lt hlt)
    rw [hl] at hnd
    exact (List.Nodup.of_cons (List.perm_middle.nodup_iff.mp hnd))
  have hcard : (e.neighbors.toFinset.filter (id < ·)).card = after.length := by
    have hfilter : e.neighbors.toFinset.filter (id < ·) = after.toFinset := by
      ext x
      rw [Finset.mem_filter, List.mem_toFinset, List.mem_toFinset, hl, List.mem_append, List.mem_cons]
      constructor
      · rintro ⟨hx | rfl | hx, hlt⟩
        · exact absurd (hbefore x hx) (lt_asymm hlt)
        · exact absurd hlt (lt_irrefl x)
        · exact hx
      · exact fun hx => ⟨.inr (.inr hx), hid x hx⟩
    rw [hfilter, List.toFinset_card_of_nodup (List.Nodup.of_append_right hnd)]
  refine ⟨hperm.nodup_iff.mpr hnd, ?_, ?_⟩
  · rw [List.toFinset_eq_of_perm _ _ hperm, hl]
    ext x
    have hidb : id ∉ before := fun hx => lt_irrefl id (hbefore id hx)
    have hida : id ∉ after := fun hx => lt_irrefl id (hid id hx)
    simp only [List.mem_toFinset, List.mem_append, Finset.mem_erase, List.mem_cons]
    constructor
    · intro hx
      refine ⟨fun he => ?_, by tauto⟩
      subst he
      tauto
    · tauto
  · rw [hcard, hnew]
    cases hz : after.getLast? with
    | none =>
      rw [List.getLast?_eq_none_iff.mp hz]
      exact ⟨fun _ => Nat.zero_le _, fun _ => hb⟩
    | some z =>
      have hsplit := List.dropLast_append_getLast? z hz
      have hzmem : z ∈ after := List.mem_of_getLast? hz
      rw [← hsplit, List.pairwise_append] at ha
      have hlen₁ : after.length = after.dropLast.length + 1 := by
        conv_lhs => rw [← hsplit]
        rw [List.length_append, List.length_singleton]
      constructor
      · intro hs
        rw [List.pairwise_append, List.pairwise_cons] at hs
        -- whatever stands before the last one is smaller than it
        have hnil : after.dropLast = [] := by
          rw [List.eq_nil_iff_forall_not_mem]
          intro x hx
          exact lt_asymm (ha.2.2 x hx z List.mem_cons_self) (hs.2.1.1 x hx)
        rw [hlen₁, hnil]
        exact le_rfl
      · intro hle
        have hnil : after.dropLast = [] := List.eq_nil_of_length_eq_zero (by omega)
        rw [hnil, List.pairwise_append]
        refine ⟨hb, List.pairwise_singleton _ _, fun a hax b hbx => ?_⟩
        rw [List.mem_singleton.mp hbx]
        exact hba a hax z (List.mem_cons_of_mem _ hzmem)

/-- The removal of an absent id does nothing if none is greater, and removes
another one if some is. -/
theorem handle_absent {id : MachineID} (hm : id ∉ e.neighbors) :
    handle e (.removeNeighbor id) = e ↔ (e.neighbors.toFinset.filter (id < ·)).card ≤ 0 := by
  obtain ⟨before, after, hl, hlen, hbefore, hafter⟩ := lowerBound_spec h id
  have hgreater : e.neighbors.toFinset.filter (id < ·) = after.toFinset := by
    ext x
    rw [Finset.mem_filter, List.mem_toFinset, List.mem_toFinset, hl, List.mem_append]
    constructor
    · rintro ⟨hx | hx, hlt⟩
      · exact absurd (hbefore x hx) (lt_asymm hlt)
      · exact hx
    · intro hx
      refine ⟨.inr hx, lt_of_le_of_ne (hafter x hx) fun he => hm ?_⟩
      rw [hl, he]
      exact List.mem_append_right _ hx
  rw [hgreater, Nat.le_zero, Finset.card_eq_zero, List.toFinset_eq_empty_iff]
  show e.handleRemoveNeighbor id = e ↔ _
  unfold handleRemoveNeighbor
  dsimp only
  constructor
  · intro he
    by_contra hne
    have hpos := List.length_pos_of_ne_nil hne
    have hlt : lowerBound e.neighbors id < e.neighbors.length := by
      rw [← hlen, hl, List.length_append]
      omega
    rw [if_pos hlt] at he
    have hlength := congrArg (fun e : ExternalManager V => e.neighbors.length) he
    simp only [List.length_dropLast, List.length_set] at hlength
    omega
  · intro hnil
    rw [if_neg]
    rw [← hlen, hl, hnil, List.append_nil]
    exact lt_irrefl _

end Messages

/-! ## Sequences of messages -/

theorem FaithfulRun.faithful {e : ExternalManager V} {S : Finset MachineID} {msgs : List Msg}
    (h : FaithfulRun e S msgs) : Faithful e S := by
  cases msgs with
  | nil => exact h
  | cons msg msgs => exact h.1

theorem faithfulRun_iff {e : ExternalManager V} (hnd : e.neighbors.Nodup) (msgs : List Msg) :
    FaithfulRun e e.neighbors.toFinset msgs ↔
      e.neighbors.Pairwise (· < ·) ∧ RemovedFromEnd e.neighbors.toFinset msgs := by
  by_cases h : e.neighbors.Pairwise (· < ·)
  · have hf := (faithful_iff_sorted hnd).mpr h
    rw [and_iff_right h]
    induction msgs generalizing e with
    | nil => exact ⟨fun _ => trivial, fun _ => hf⟩
    | cons msg msgs ih =>
      cases msg with
      | newNeighbor id =>
        obtain ⟨hs, hset⟩ := handle_newNeighbor h id
        have hnd' := hs.imp (fun hlt => ne_of_lt hlt)
        have ih' := ih hnd' hs ((faithful_iff_sorted hnd').mpr hs)
        rw [hset] at ih'
        show Faithful _ _ ∧ _ ∧ FaithfulRun _ (insert id e.neighbors.toFinset) msgs ↔
          RemovedFromEnd (insert id e.neighbors.toFinset) msgs
        rw [and_iff_right hf]
        exact (and_iff_right fun id' he => nomatch he).trans ih'
      | removeNeighbor id =>
        show Faithful _ _ ∧ _ ∧ FaithfulRun _ (e.neighbors.toFinset.erase id) msgs ↔
          _ ∧ RemovedFromEnd (e.neighbors.toFinset.erase id) msgs
        rw [and_iff_right hf]
        by_cases hm : id ∈ e.neighbors
        · obtain ⟨hnd', hset, hs⟩ := handle_removeNeighbor h hm
          rw [if_pos (List.mem_toFinset.mpr hm), ← hs]
          constructor
          · intro hex
            obtain ⟨-, hrun⟩ := hex
            have hs' : (handle e (.removeNeighbor id)).neighbors.Pairwise (· < ·) := by
              rw [← faithful_iff_sorted hnd', hset]
              exact hrun.faithful
            have ih' := ih hnd' hs' ((faithful_iff_sorted hnd').mpr hs')
            rw [hset] at ih'
            exact ⟨hs', ih'.mp hrun⟩
          · intro hex
            obtain ⟨hs', hrest⟩ := hex
            have ih' := ih hnd' hs' ((faithful_iff_sorted hnd').mpr hs')
            rw [hset] at ih'
            refine ⟨fun id' he hid' => ?_, ih'.mpr hrest⟩
            cases he
            exact absurd (List.mem_toFinset.mpr hm) hid'
        · have habsent := handle_absent h hm
          have herase : e.neighbors.toFinset.erase id = e.neighbors.toFinset :=
            Finset.erase_eq_of_notMem (mt List.mem_toFinset.mp hm)
          rw [if_neg (mt List.mem_toFinset.mp hm), ← habsent, herase]
          constructor
          · intro hex
            obtain ⟨hsame, hrun⟩ := hex
            have he := hsame id rfl (mt List.mem_toFinset.mp hm)
            rw [he] at hrun
            exact ⟨he, (ih hnd h hf).mp hrun⟩
          · intro hex
            obtain ⟨he, hrest⟩ := hex
            refine ⟨fun id' _ _ => he, ?_⟩
            rw [he]
            exact (ih hnd h hf).mpr hrest
  · rw [← faithful_iff_sorted hnd] at h ⊢
    exact ⟨fun hrun => absurd hrun.faithful h, fun hrun => absurd hrun.1 h⟩

/-- **A neighbour list is a faithful set only while it is sorted.** -/
theorem faithful_iff (env : Env) (ptr : Nat) (conn : Str) (id : MachineID) (neighbors : List MachineID)
    (port : UInt16) (msgs : List Msg) (hnd : neighbors.Nodup) :
    FaithfulRun (create env ptr conn id neighbors port : ExternalManager V) neighbors.toFinset msgs ↔
      neighbors.Pairwise (· < ·) ∧ RemovedFromEnd neighbors.toFinset msgs :=
  faithfulRun_iff hnd msgs

def stillEnv : Env where
  now := 1
  sendResult _ _ := .noError
  initConnection _ _ := .inProgress
  resolve := some
  order l := l
  order_perm l := .refl l
  prng _ _ := 0

def names : List MachineID := [['a'], ['b'], ['c']]

theorem faithful_names : FaithfulRun
    (create stillEnv 0 [] ['n'] names 1 : ExternalManager ℕ) names.toFinset [.removeNeighbor ['b']] :=
  (faithful_iff stillEnv 0 [] ['n'] names 1 [.removeNeighbor ['b']] (by decide)).mpr
    ⟨by decide, by decide, trivial⟩

/-- The removal of an absent id removes another. -/
theorem not_faithful : ¬ FaithfulRun
    (create stillEnv 0 [] ['n'] [['b']] 1 : ExternalManager ℕ) {['b']} [.removeNeighbor ['a']] := by
  intro h
  have hkept := h.2.1 ['a'] rfl (by decide)
  exact absurd (congrArg ExternalManager.neighbors hkept) (by decide)

end Skywing.L3.NeighborList
