import Mathlib.Logic.Relation
import Skywing.L3Protocol.Job

/-!
# The tree of a reduce group

`Job::create_reduce_group_init`: the tags of a group are sorted and laid out
as an implicit binary tree, and each participant finds its parent and
children in it by index. Stated by the rank of a tag, its index in the
sorted list: `c` is the child of `x` at position 1 or 2 exactly when the rank
of `c` is twice that of `x` plus the position (`child_iff`), and parents are
read off the same equation (`parent_iff`). The links of the participants
therefore agree, and ranks grow away from the root.

`one_tree`: participants that were given the same tags, each in an order of
its own, compute the links of one binary tree.
-/
namespace Skywing.L3

/-- `bin_tree` after the sort.
mirrors skywing/skywing_core/job.cpp:245-247 -/
def binTree (reduceOverTags : List TagID) : List TagID := reduceOverTags.insertionSort (· ≤ ·)

/-- An absent neighbour is the empty tag.
mirrors skywing/skywing_core/job.cpp:236-270 -/
def createReduceGroupInit (tagProduced : TagID) (reduceOverTags : List TagID) : ReduceGroupNeighbors :=
  let index := (binTree reduceOverTags).idxOf tagProduced
  { tags := fun writeIndex =>
      if writeIndex = 0 then
        if index ≠ 0 then (binTree reduceOverTags).getD ((index - 1) / 2) [] else []
      else (binTree reduceOverTags).getD (2 * index + writeIndex) [] }

/-- The record of what the job produces comes with the links; `none`: it
produces the tag already, the assertion fails.
mirrors skywing/skywing_core/job.cpp:236-270 -/
def Job.createReduceGroupInit {α : Type} (j : Job α) (tagProduced : TagID) (reduceOverTags : List TagID)
    (expectedTypes : List UInt8) : Option (ReduceGroupNeighbors × Job α) :=
  if (j.tagsProduced.lookup tagProduced).isSome then none
  else some (L3.createReduceGroupInit tagProduced reduceOverTags,
    { j with tagsProduced := j.tagsProduced.insert tagProduced expectedTypes })

/-- The tags the participants of a group produce: reduce-value tags start
with their marker, so none is empty. -/
structure GroupTags where
  tags : List TagID
  nodup : tags.Nodup
  marked : [] ∉ tags
  nonempty : tags ≠ []

namespace GroupTags

variable (T : GroupTags)

def neighbors (x : TagID) : ReduceGroupNeighbors := createReduceGroupInit x T.tags

def rank (x : TagID) : Nat := (binTree T.tags).idxOf x

variable {T}

theorem mem_binTree {x : TagID} : x ∈ binTree T.tags ↔ x ∈ T.tags := List.mem_insertionSort _

theorem rank_lt {x : TagID} (h : x ∈ T.tags) : T.rank x < (binTree T.tags).length :=
  List.idxOf_lt_length_iff.mpr (mem_binTree.mpr h)

theorem getElem?_eq_some {x : TagID} {i : Nat} : (binTree T.tags)[i]? = some x ↔ x ∈ T.tags ∧ T.rank x = i := by
  have hnd : (binTree T.tags).Nodup := (List.perm_insertionSort _ _).nodup_iff.mpr T.nodup
  constructor
  · intro h
    obtain ⟨hi, rfl⟩ := List.getElem?_eq_some_iff.mp h
    exact ⟨mem_binTree.mp (List.getElem_mem hi), hnd.idxOf_getElem i hi⟩
  · intro hex
    obtain ⟨hx, rfl⟩ := hex
    exact List.getElem?_idxOf (mem_binTree.mpr hx)

theorem rank_inj {x y : TagID} (hx : x ∈ T.tags) (hy : y ∈ T.tags) (h : T.rank x = T.rank y) : x = y := by
  have h₁ := getElem?_eq_some.mpr ⟨hx, rfl⟩
  rw [h, getElem?_eq_some.mpr ⟨hy, rfl⟩] at h₁
  exact (Option.some.inj h₁).symm

/-- The entry at an index is the tag of that rank; beyond the end it is empty. -/
theorem getD_eq {i : Nat} {c : TagID} (hc : c ≠ []) :
    (binTree T.tags).getD i [] = c ↔ c ∈ T.tags ∧ T.rank c = i := by
  rw [← getElem?_eq_some, List.getD_eq_getElem?_getD]
  cases (binTree T.tags)[i]? with
  | none => simp [hc.symm]
  | some d => simp

/-! ## Links by rank -/

theorem child_iff {x c : TagID} {w : Fin 3} (hw : w ≠ 0) (hc : c ≠ []) :
    (T.neighbors x).tags w = c ↔ c ∈ T.tags ∧ T.rank c = 2 * T.rank x + w := by
  simp only [neighbors, createReduceGroupInit, if_neg hw]
  exact getD_eq hc

theorem parent_iff {x p : TagID} (hp : p ≠ []) :
    (T.neighbors x).parent = p ↔ p ∈ T.tags ∧ T.rank x ≠ 0 ∧ T.rank p = (T.rank x - 1) / 2 := by
  simp only [neighbors, createReduceGroupInit, ReduceGroupNeighbors.parent, reduceIte]
  split
  · rename_i h
    rw [getD_eq hp]
    exact ⟨fun ⟨h₁, h₂⟩ => ⟨h₁, h, h₂⟩, fun ⟨h₁, _, h₂⟩ => ⟨h₁, h₂⟩⟩
  · rename_i h
    exact ⟨fun he => absurd he.symm hp, fun ⟨_, h₁, _⟩ => absurd h₁ h⟩

theorem ne_nil {x : TagID} (h : x ∈ T.tags) : x ≠ [] := fun he => T.marked (he ▸ h)

/-! ## The participants' views agree -/

/-- Who names a child is named by it as its parent, and the reverse. -/
theorem child_iff_parent {x c : TagID} (hx : x ∈ T.tags) (hc : c ∈ T.tags) :
    (∃ w, w ≠ 0 ∧ (T.neighbors x).tags w = c) ↔ (T.neighbors c).parent = x := by
  rw [parent_iff (ne_nil hx)]
  constructor
  · intro hex
    obtain ⟨w, hw, h⟩ := hex
    obtain ⟨-, hr⟩ := (child_iff hw (ne_nil hc)).mp h
    have : (w : Nat) ≠ 0 := fun he => hw (Fin.ext he)
    exact ⟨hx, by omega, by omega⟩
  · intro hex
    obtain ⟨-, h0, hr⟩ := hex
    rcases Nat.mod_two_eq_zero_or_one (T.rank c) with hk | hk
    · exact ⟨2, by decide, (child_iff (by decide) (ne_nil hc)).mpr ⟨hc, by simp; omega⟩⟩
    · exact ⟨1, by decide, (child_iff (by decide) (ne_nil hc)).mpr ⟨hc, by simp; omega⟩⟩

theorem neighbor_mem {x : TagID} {w : Fin 3} (h : (T.neighbors x).tags w ≠ []) :
    (T.neighbors x).tags w ∈ T.tags := by
  by_cases hw : w = 0
  · subst hw
    exact ((parent_iff h).mp rfl).1
  · exact ((child_iff hw h).mp rfl).1

/-- Ranks grow from parent to child. -/
theorem rank_parent_lt {x : TagID} (h : (T.neighbors x).parent ≠ []) :
    T.rank (T.neighbors x).parent < T.rank x := by
  obtain ⟨-, h0, hr⟩ := (parent_iff h).mp rfl
  omega

theorem rank_child_gt {x : TagID} {w : Fin 3} (hw : w ≠ 0) (h : (T.neighbors x).tags w ≠ []) :
    T.rank x < T.rank ((T.neighbors x).tags w) := by
  obtain ⟨-, hr⟩ := (child_iff hw h).mp rfl
  have : (w : Nat) ≠ 0 := fun he => hw (Fin.ext he)
  omega

/-- The three neighbours are different tags. -/
theorem neighbor_inj {x : TagID} {w w' : Fin 3} (h : (T.neighbors x).tags w = (T.neighbors x).tags w')
    (hne : (T.neighbors x).tags w ≠ []) : w = w' := by
  by_cases hw : w = 0 <;> by_cases hw' : w' = 0
  · rw [hw, hw']
  · subst hw
    have h₁ := rank_parent_lt hne
    have h₂ := rank_child_gt hw' (h ▸ hne)
    rw [← h] at h₂
    exact absurd (lt_trans h₂ h₁) (lt_irrefl _)
  · subst hw'
    have h₁ := rank_child_gt hw hne
    have h₂ : T.rank (T.neighbors x).parent < T.rank x := rank_parent_lt fun he => hne (h.trans he)
    rw [h] at h₁
    exact absurd (lt_trans h₁ h₂) (lt_irrefl _)
  · have h₁ := ((child_iff hw hne).mp rfl).2
    have h₂ := ((child_iff hw' hne).mp h.symm).2
    exact Fin.ext (by omega)

/-- There is no right child without a left one. -/
theorem left_of_right {x : TagID} (h : (T.neighbors x).leftChild = []) : (T.neighbors x).rightChild = [] := by
  by_contra hne
  obtain ⟨hmem, hr⟩ := (child_iff (w := 2) (by decide) hne).mp rfl
  have hlt := rank_lt hmem
  have hlt' : 2 * T.rank x + 1 < (binTree T.tags).length := by
    have : ((2 : Fin 3) : Nat) = 2 := rfl
    omega
  have hleft := (getElem?_eq_some (T := T)).mp (List.getElem?_eq_getElem hlt')
  have := (child_iff (x := x) (w := 1) (by decide) (ne_nil hleft.1)).mpr hleft
  exact ne_nil hleft.1 (this.symm.trans h)

/-- The tag without a parent. -/
def root (T : GroupTags) : TagID := (binTree T.tags).headD []

theorem root_mem : T.root ∈ T.tags ∧ T.rank T.root = 0 := by
  have hlen : (binTree T.tags).length = T.tags.length := List.length_insertionSort _ _
  have hne := List.length_pos_of_ne_nil T.nonempty
  rw [← getElem?_eq_some]
  unfold root
  cases hb : binTree T.tags with
  | nil => rw [hb] at hlen; simp at hlen; omega
  | cons a l => rfl

theorem parent_eq_nil_iff {x : TagID} (hx : x ∈ T.tags) : (T.neighbors x).parent = [] ↔ x = T.root := by
  constructor
  · intro h
    by_contra hne
    have h0 : T.rank x ≠ 0 := fun he => hne (rank_inj hx root_mem.1 (he.trans root_mem.2.symm))
    have hlt := rank_lt hx
    have hp := (getElem?_eq_some (T := T)).mp
      (List.getElem?_eq_getElem (show (T.rank x - 1) / 2 < (binTree T.tags).length by omega))
    have := (parent_iff (x := x) (ne_nil hp.1)).mpr ⟨hp.1, h0, hp.2⟩
    exact ne_nil hp.1 (this.symm.trans h)
  · rintro rfl
    by_contra hne
    exact ((parent_iff hne).mp rfl).2.1 root_mem.2

/-! ## One tree for all participants -/

theorem binTree_perm {l l' : List TagID} (h : l.Perm l') : binTree l = binTree l' := by
  have hperm : (binTree l).Perm (binTree l') :=
    (List.perm_insertionSort _ l).trans (h.trans (List.perm_insertionSort _ l').symm)
  exact hperm.eq_of_pairwise' (List.pairwise_insertionSort _ _) (List.pairwise_insertionSort _ _)

theorem createReduceGroupInit_perm (x : TagID) {l l' : List TagID} (h : l.Perm l') :
    createReduceGroupInit x l = createReduceGroupInit x l' := by
  simp only [createReduceGroupInit, binTree_perm h]

/-- `y` is the parent that `x` has computed. -/
def Up (N : TagID → ReduceGroupNeighbors) (x y : TagID) : Prop := (N x).parent = y ∧ y ≠ []

/-- What participants have to agree on: `N x` are the links computed by the
participant that produces `x`. -/
structure OneTree (tags : List TagID) (N : TagID → ReduceGroupNeighbors) : Prop where
  members : ∀ x ∈ tags, ∀ w, (N x).tags w ≠ [] → (N x).tags w ∈ tags
  parent_iff : ∀ x ∈ tags, ∀ y ∈ tags, (N x).parent = y ↔ (N y).leftChild = x ∨ (N y).rightChild = x
  children_ne : ∀ x ∈ tags, (N x).leftChild ≠ [] → (N x).leftChild ≠ (N x).rightChild
  one_parent : ∀ x ∈ tags, ∀ y ∈ tags, ∀ c ∈ tags, ((N x).leftChild = c ∨ (N x).rightChild = c) →
    ((N y).leftChild = c ∨ (N y).rightChild = c) → x = y
  one_root : ∃! r, r ∈ tags ∧ (N r).parent = []
  reaches : ∀ x ∈ tags, ∀ r ∈ tags, (N r).parent = [] → Relation.ReflTransGen (Up N) x r

theorem child_cases {x c : TagID} :
    (T.neighbors x).leftChild = c ∨ (T.neighbors x).rightChild = c ↔ ∃ w, w ≠ 0 ∧ (T.neighbors x).tags w = c := by
  constructor
  · intro hor
    rcases hor with h | h
    · exact ⟨1, by decide, h⟩
    · exact ⟨2, by decide, h⟩
  · intro hex
    obtain ⟨w, hw, h⟩ := hex
    match w, hw with
    | 1, _ => exact .inl h
    | 2, _ => exact .inr h

/-- Ranks fall on the way up, and only the root has none to go to. -/
theorem reaches_root (n : Nat) : ∀ {x : TagID}, x ∈ T.tags → T.rank x ≤ n →
    Relation.ReflTransGen (Up T.neighbors) x T.root := by
  induction n with
  | zero =>
    intro x hx hn
    rw [rank_inj hx root_mem.1 (by rw [root_mem.2]; omega)]
  | succ n ih =>
    intro x hx hn
    by_cases hp : (T.neighbors x).parent = []
    · rw [(parent_eq_nil_iff hx).mp hp]
    · have hlt := rank_parent_lt hp
      have hmem : (T.neighbors x).parent ∈ T.tags := neighbor_mem (w := 0) hp
      exact (ih hmem (by omega)).head ⟨rfl, hp⟩

theorem oneTree (T : GroupTags) : OneTree T.tags T.neighbors where
  members _ _ _ h := neighbor_mem h
  parent_iff x hx y hy := by rw [child_cases, child_iff_parent hy hx]
  children_ne x hx h he := by
    have h12 : (1 : Fin 3) = 2 := neighbor_inj he h
    simp at h12
  one_parent x hx y hy c hc hcx hcy := by
    rw [child_cases, child_iff_parent hx hc] at hcx
    rw [child_cases, child_iff_parent hy hc] at hcy
    exact hcx.symm.trans hcy
  one_root := by
    refine ⟨T.root, ⟨root_mem.1, (parent_eq_nil_iff root_mem.1).mpr rfl⟩, ?_⟩
    intro r hex
    obtain ⟨hr, hp⟩ := hex
    exact (parent_eq_nil_iff hr).mp hp
  reaches x hx r hr hp := by
    rw [(parent_eq_nil_iff hr).mp hp]
    exact reaches_root _ hx le_rfl

theorem OneTree.congr {tags : List TagID} {N N' : TagID → ReduceGroupNeighbors}
    (h : OneTree tags N) (he : ∀ x ∈ tags, N' x = N x) : OneTree tags N' where
  members x hx := he x hx ▸ h.members x hx
  parent_iff x hx y hy := by rw [he x hx, he y hy]; exact h.parent_iff x hx y hy
  children_ne x hx := he x hx ▸ h.children_ne x hx
  one_parent x hx y hy := by rw [he x hx, he y hy]; exact h.one_parent x hx y hy
  one_root := by
    obtain ⟨r, ⟨hr, hp⟩, hu⟩ := h.one_root
    refine ⟨r, ⟨hr, he r hr ▸ hp⟩, fun r' ⟨hr', hp'⟩ => hu r' ⟨hr', he r' hr' ▸ hp'⟩⟩
  reaches x hx r hr hp := by
    have hwalk := h.reaches x hx r hr (he r hr ▸ hp)
    -- every step of the walk starts at a tag of the group
    clear hp hr
    induction hwalk using Relation.ReflTransGen.head_induction_on with
    | refl => exact .refl
    | @head a b hstep _ ih =>
      obtain ⟨rfl, hne⟩ := hstep
      exact (ih (h.members a hx 0 hne)).head ⟨by rw [he a hx], hne⟩

variable {α : Type}

/-- **All participants compute the same tree.** Each job was given the tags in
some order and produces one of them; what its call returns are the links of
one binary tree over the tags, and another order returns the same. -/
theorem one_tree (T : GroupTags) {given : TagID → List TagID} {job job' : TagID → Job α}
    {types : TagID → List UInt8} {N : TagID → ReduceGroupNeighbors}
    (hgiven : ∀ x ∈ T.tags, (given x).Perm T.tags)
    (hcall : ∀ x ∈ T.tags, (job x).createReduceGroupInit x (given x) (types x) = some (N x, job' x)) :
    OneTree T.tags N ∧
      ∀ x ∈ T.tags, ∀ l, l.Perm T.tags → ∀ (j j' : Job α) (ts : List UInt8) (n : ReduceGroupNeighbors),
        j.createReduceGroupInit x l ts = some (n, j') → n = N x := by
  have hret {j j' : Job α} {x : TagID} {l : List TagID} {ts : List UInt8} {n : ReduceGroupNeighbors}
      (hl : l.Perm T.tags) (h : j.createReduceGroupInit x l ts = some (n, j')) : n = T.neighbors x := by
    unfold Job.createReduceGroupInit at h
    split at h
    · cases h
    · cases h
      exact createReduceGroupInit_perm x hl
  have hN : ∀ x ∈ T.tags, N x = T.neighbors x := fun x hx => hret (hgiven x hx) (hcall x hx)
  refine ⟨(oneTree T).congr hN, ?_⟩
  intro x hx l hl j j' ts n h
  rw [hN x hx]
  exact hret hl h

/-- Three participants, two of which were given the tags in another order. -/
def threeTags : GroupTags where
  tags := [['r', 'a'], ['r', 'b'], ['r', 'c']]
  nodup := by decide
  marked := by decide
  nonempty := by decide

def threeGiven (x : TagID) : List TagID :=
  if x = ['r', 'b'] then [['r', 'c'], ['r', 'a'], ['r', 'b']] else threeTags.tags.reverse

theorem one_tree_three : OneTree threeTags.tags fun x => createReduceGroupInit x (threeGiven x) :=
  have hcall : ∀ x ∈ threeTags.tags, (⟨∅, ∅, ∅⟩ : Job Nat).createReduceGroupInit x (threeGiven x) [] =
      some (createReduceGroupInit x (threeGiven x), ⟨∅, ∅, (∅ : AList _).insert x []⟩) := fun _ _ => rfl
  (one_tree threeTags (by decide) hcall).1

end GroupTags

end Skywing.L3
