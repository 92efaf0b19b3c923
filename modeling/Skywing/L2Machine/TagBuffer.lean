import Skywing.Core.Types

/-!
# Tag buffers

`skywing_core/internal/tag_buffer.hpp`. `DiscardOldVersionTagBuffer` keeps
the newest version received; `FifoTagBuffer` keeps every version until it is
fetched. Versions are 32-bit, and `tagNoData` (all ones) marks a buffer that
has stored or fetched nothing. A failing `assert` is `none`.
-/
namespace Skywing.L2.TagBuffer

variable {α : Type*}

/-! ## Version numbers

A publisher counts its versions up from `tagNoData`, so `versionAt n` is the
last version after `n` publications. -/

def versionAt (n : Nat) : VersionID := UInt32.ofNat n - 1

theorem versionAt_zero : versionAt 0 = tagNoData := rfl

theorem versionAt_add_one (n : Nat) : versionAt n + 1 = versionAt (n + 1) := by
  unfold versionAt
  simp [UInt32.ofNat_add]

theorem versionAt_succ_toNat (i : Nat) : (versionAt (i + 1)).toNat = i % 2 ^ 32 := by
  unfold versionAt
  simp [UInt32.ofNat_add]

theorem eq_noData_iff {v : VersionID} : v = tagNoData ↔ v.toNat = 2 ^ 32 - 1 := by
  rw [← UInt32.toNat_inj, tagNoData_toNat]

theorem versionAt_toNat {n : Nat} (h0 : n ≠ 0) (h : n ≤ 2 ^ 32) : (versionAt n).toNat = n - 1 := by
  obtain ⟨m, rfl⟩ := Nat.exists_eq_succ_of_ne_zero h0
  rw [Nat.succ_eq_add_one, ← versionAt_add_one]
  unfold versionAt
  rw [UInt32.sub_add_cancel]
  exact UInt32.toNat_ofNat_of_lt' (by simp [UInt32.size]; omega)

theorem versionAt_eq_noData {n : Nat} (h : n < 2 ^ 32) : versionAt n = tagNoData ↔ n = 0 := by
  constructor
  · intro he
    rcases Nat.eq_zero_or_pos n with h0 | h0
    · exact h0
    · have := versionAt_toNat (by omega : n ≠ 0) (by omega)
      rw [he, tagNoData_toNat] at this
      omega
  · rintro rfl; rfl

theorem versionAt_le {m n : Nat} (hm : m < 2 ^ 32) (hn : n ≤ 2 ^ 32) (h0 : n ≠ 0) :
    versionAt (m + 1) ≤ versionAt n ↔ m < n := by
  rw [UInt32.le_iff_toNat_le, versionAt_toNat (by omega) (by omega), versionAt_toNat h0 hn]
  omega

theorem versionAt_lt {m n : Nat} (hm : m ≤ 2 ^ 32) (h0 : m ≠ 0) (hn : n ≤ 2 ^ 32) (h1 : n ≠ 0) :
    versionAt m < versionAt n ↔ m < n := by
  rw [UInt32.lt_iff_toNat_lt, versionAt_toNat h0 hm, versionAt_toNat h1 hn]
  omega

/-- mirrors skywing/skywing_core/internal/tag_buffer.hpp:153-193 -/
structure DiscardOldVersionTagBuffer (α : Type*) where
  value : Option α := none
  storedVersion : VersionID := tagNoData
  lastFetchedVersion : VersionID := tagNoData
  deriving DecidableEq, Repr

namespace DiscardOldVersionTagBuffer

/-- mirrors skywing/skywing_core/internal/tag_buffer.hpp:156-159 -/
def hasData (b : DiscardOldVersionTagBuffer α) : Bool :=
  b.storedVersion != tagNoData && decide (b.storedVersion ≥ b.lastFetchedVersion + 1)

/-- The stored value, and the buffer with it marked as fetched; `none`: the
assertion that there is data fails.
mirrors skywing/skywing_core/internal/tag_buffer.hpp:161-166 -/
def get (b : DiscardOldVersionTagBuffer α) : Option (Option α × DiscardOldVersionTagBuffer α) :=
  if b.hasData then some (b.value, { b with lastFetchedVersion := b.storedVersion }) else none

/-- mirrors skywing/skywing_core/internal/tag_buffer.hpp:168-182 -/
def add (b : DiscardOldVersionTagBuffer α) (v : α) (version : VersionID) :
    DiscardOldVersionTagBuffer α :=
  if version > b.storedVersion ∨ b.storedVersion = tagNoData then
    { b with storedVersion := version, value := some v }
  else b

/-- mirrors skywing/skywing_core/internal/tag_buffer.hpp:184-188 -/
def reset (b : DiscardOldVersionTagBuffer α) : DiscardOldVersionTagBuffer α :=
  { b with storedVersion := tagNoData, lastFetchedVersion := tagNoData }

/-! ### A buffer that is fed one publisher's versions in order -/

/-- `d` publications were added, the last of them `v`, and the `f`-th was
fetched last. -/
structure Tracks (b : DiscardOldVersionTagBuffer α) (d f : Nat) (v : Option α) : Prop where
  value : b.value = v
  stored : b.storedVersion = versionAt d
  fetched : b.lastFetchedVersion = versionAt f

theorem tracks_empty : Tracks ({} : DiscardOldVersionTagBuffer α) 0 0 none := ⟨rfl, rfl, rfl⟩

variable {b : DiscardOldVersionTagBuffer α} {d f : Nat} {v : Option α}

theorem Tracks.hasData_iff (h : b.Tracks d f v) (hf : f ≤ d) (hd : d < 2 ^ 32) :
    b.hasData = true ↔ f < d := by
  unfold hasData
  rw [h.stored, h.fetched, versionAt_add_one]
  simp only [Bool.and_eq_true, bne_iff_ne, ne_eq, versionAt_eq_noData hd, decide_eq_true_eq, ge_iff_le]
  constructor
  · intro hex
    obtain ⟨h0, hle⟩ := hex
    exact (versionAt_le (by omega) (by omega) h0).mp hle
  · intro hlt
    exact ⟨by omega, (versionAt_le (by omega) (by omega) (by omega)).mpr hlt⟩

theorem Tracks.add (h : b.Tracks d f v) (hd : d + 1 < 2 ^ 32) (w : α) :
    (b.add w (versionAt (d + 1))).Tracks (d + 1) f (some w) := by
  have hnew : versionAt (d + 1) > b.storedVersion ∨ b.storedVersion = tagNoData := by
    rw [h.stored]
    rcases Nat.eq_zero_or_pos d with h0 | h0
    · exact .inr ((versionAt_eq_noData (by omega)).mpr h0)
    · exact .inl ((versionAt_lt (by omega) (by omega) (by omega) (by omega)).mpr (by omega))
  rw [DiscardOldVersionTagBuffer.add, if_pos hnew]
  exact ⟨rfl, rfl, h.fetched⟩

theorem Tracks.get (h : b.Tracks d f v) (hf : f < d) (hd : d < 2 ^ 32) :
    ∃ b', b.get = some (v, b') ∧ b'.Tracks d d v := by
  refine ⟨{ b with lastFetchedVersion := b.storedVersion }, ?_, h.value, h.stored, h.stored⟩
  rw [DiscardOldVersionTagBuffer.get, if_pos ((h.hasData_iff (by omega) hd).mpr hf), h.value]

end DiscardOldVersionTagBuffer

/-- mirrors skywing/skywing_core/internal/tag_buffer.hpp:198-254 -/
structure FifoTagBuffer (α : Type*) where
  buffer : List (α × VersionID) := []
  lastStoredVersion : VersionID := tagNoData
  lastFetchedVersion : VersionID := tagNoData
  deriving DecidableEq, Repr

namespace FifoTagBuffer

/-- The loop of `get`: drop entries older than `required`, hand out the
first one that is not. `none`: the buffer runs empty, the assertion fails.
mirrors skywing/skywing_core/internal/tag_buffer.hpp:209-220 -/
def getLoop (required : VersionID) : List (α × VersionID) → Option (α × VersionID × List (α × VersionID))
  | [] => none
  | (data, version) :: rest =>
    if version ≥ required then some (data, version, rest) else getLoop required rest

/-- mirrors skywing/skywing_core/internal/tag_buffer.hpp:207-221 -/
def get (b : FifoTagBuffer α) (required : VersionID) : Option (α × FifoTagBuffer α) :=
  (getLoop required b.buffer).map fun (data, version, rest) =>
    (data, { b with buffer := rest, lastFetchedVersion := version })

/-- mirrors skywing/skywing_core/internal/tag_buffer.hpp:225-228 -/
def hasData (b : FifoTagBuffer α) (required : VersionID) : Bool :=
  match b.buffer.getLast? with
  | none => false
  | some (_, version) => decide (version ≥ required)

/-- `last_stored_version_` is compared but not written.
mirrors skywing/skywing_core/internal/tag_buffer.hpp:234-240 -/
def add (b : FifoTagBuffer α) (v : α) (version : VersionID) : FifoTagBuffer α :=
  if version > b.lastStoredVersion ∨ b.lastStoredVersion = tagNoData then
    { b with buffer := b.buffer ++ [(v, version)] }
  else b

/-- mirrors skywing/skywing_core/internal/tag_buffer.hpp:244-249 -/
def reset (_ : FifoTagBuffer α) : FifoTagBuffer α := {}

/-- `last_stored_version_` never leaves its initial value, so `add` always
appends. -/
def Fresh (b : FifoTagBuffer α) : Prop := b.lastStoredVersion = tagNoData

theorem add_buffer {b : FifoTagBuffer α} (h : b.Fresh) (v : α) (version : VersionID) :
    b.add v version = { b with buffer := b.buffer ++ [(v, version)] } := if_pos (.inr h)

theorem hasData_iff (b : FifoTagBuffer α) (required : VersionID) :
    b.hasData required = true ↔ ∃ e, b.buffer.getLast? = some e ∧ required ≤ e.2 := by
  unfold hasData
  cases b.buffer.getLast? with
  | none => simp
  | some e => simp

/-- With data available the loop ends at an entry that is new enough. -/
theorem getLoop_isSome {required : VersionID} : ∀ {l : List (α × VersionID)} {e : α × VersionID},
    e ∈ l → required ≤ e.2 → (getLoop required l).isSome
  | (d, v) :: rest, e, he, hr => by
    unfold getLoop
    split
    · rfl
    · rename_i hv
      rcases List.mem_cons.mp he with rfl | he
      · exact absurd hr hv
      · exact getLoop_isSome he hr

/-- `get` never fails its assertion when `has_data` held. -/
theorem get_isSome {b : FifoTagBuffer α} {required : VersionID} (h : b.hasData required = true) :
    (b.get required).isSome := by
  obtain ⟨e, he, hr⟩ := (hasData_iff b required).mp h
  simpa [get] using getLoop_isSome (List.mem_of_getLast? he) hr

/-- A first entry that is new enough is the one handed out. -/
theorem get_head {b : FifoTagBuffer α} {v : α} {version required : VersionID} {rest : List (α × VersionID)}
    (hb : b.buffer = (v, version) :: rest) (hr : required ≤ version) :
    b.get required = some (v, { b with buffer := rest, lastFetchedVersion := version }) := by
  simp only [get, hb, getLoop, ge_iff_le, if_pos hr, Option.map_some]

end FifoTagBuffer

/-! ## Values with consecutive versions -/

/-- `vs` published one after the other, after `n` publications. -/
def stamped : Nat → List α → List (α × VersionID)
  | _, [] => []
  | n, v :: vs => (v, versionAt (n + 1)) :: stamped (n + 1) vs

theorem stamped_append (n : Nat) (vs ws : List α) :
    stamped n (vs ++ ws) = stamped n vs ++ stamped (n + vs.length) ws := by
  induction vs generalizing n with
  | nil => rfl
  | cons v vs ih =>
    simp only [List.cons_append, stamped, ih, List.length_cons]
    congr 3
    omega

theorem stamped_eq_nil {n : Nat} {vs : List α} : stamped n vs = [] ↔ vs = [] := by
  cases vs <;> simp [stamped]

/-- Every version is past the `n`-th. -/
theorem stamped_version {n : Nat} {vs : List α} (hn : n + vs.length < 2 ^ 32) {e : α × VersionID}
    (he : e ∈ stamped n vs) : n ≤ e.2.toNat := by
  induction vs generalizing n with
  | nil => cases he
  | cons v vs ih =>
    simp only [List.length_cons] at hn
    rcases List.mem_cons.mp he with rfl | he
    · rw [versionAt_toNat (by omega) (by omega)]
      omega
    · have := ih (by omega) he
      omega

/-- A buffer with what is on its way to it holds the values of one sender from
the `d`-th on: asked for nothing newer, it hands out the `d`-th. -/
theorem take_stamped {buf : FifoTagBuffer α} {inFlight : List (α × VersionID)} {vs : List α} {d : Nat}
    {required : VersionID} (hq : buf.buffer ++ inFlight = stamped d (vs.drop d)) (hr : required.toNat ≤ d)
    (hd : d + 1 < 2 ^ 32) (hdata : buf.hasData required = true) :
    ∃ v b, vs[d]? = some v ∧ buf.get required = some (v, b) ∧
      b.buffer ++ inFlight = stamped (d + 1) (vs.drop (d + 1)) ∧ (buf.Fresh → b.Fresh) := by
  obtain ⟨e, he, -⟩ := (FifoTagBuffer.hasData_iff buf required).mp hdata
  cases hb : buf.buffer with
  | nil => rw [hb] at he; cases he
  | cons a rest =>
    cases hp : vs.drop d with
    | nil => rw [hb, hp] at hq; cases hq
    | cons v ws =>
      rw [hb, hp] at hq
      obtain ⟨rfl, hrest⟩ := List.cons.inj hq
      have hge : required ≤ versionAt (d + 1) := by
        rw [UInt32.le_iff_toNat_le, versionAt_toNat (by omega) (by omega)]
        omega
      refine ⟨v, _, ?_, FifoTagBuffer.get_head hb hge, ?_, id⟩
      · rw [← List.head?_drop, hp]
        rfl
      · rw [← List.tail_drop, hp]
        exact hrest

/-- It has data as soon as it holds anything. -/
theorem hasData_stamped {buf : FifoTagBuffer α} {inFlight : List (α × VersionID)} {vs : List α} {d : Nat}
    {required : VersionID} (hq : buf.buffer ++ inFlight = stamped d (vs.drop d)) (hr : required.toNat ≤ d)
    (hd : d ≤ vs.length) (hlen : vs.length < 2 ^ 32) : buf.hasData required = true ↔ buf.buffer ≠ [] := by
  rw [FifoTagBuffer.hasData_iff]
  constructor
  · rintro ⟨e, he, -⟩ hnil
    rw [hnil] at he
    cases he
  · intro hne
    obtain ⟨e, he⟩ := List.getLast?_isSome.mpr hne |> Option.isSome_iff_exists.mp
    have hmem : e ∈ stamped d (vs.drop d) := hq ▸ List.mem_append_left _ (List.mem_of_getLast? he)
    have := stamped_version (by rw [List.length_drop]; omega) hmem
    exact ⟨e, he, by rw [UInt32.le_iff_toNat_le]; omega⟩

end Skywing.L2.TagBuffer
