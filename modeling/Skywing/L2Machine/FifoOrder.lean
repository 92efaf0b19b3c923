import Skywing.L2Machine.TagBuffer

/-!
# The order of a `FifoTagBuffer`

`FifoTagBuffer` (`skywing_core/internal/tag_buffer.hpp`) under any sequence of
calls. `Log` is the buffer with its history since the last `reset`: which
versions were stored and which were returned.

What is asked for (`Orderly`): the stored versions increase, an old version is
discarded, `has_data` and `get` find the smallest version that is new enough,
and no version is returned twice. `add` compares with `last_stored_version_`,
which nothing writes, so it discards nothing.

`orderly_iff`: that is what a sequence of calls sees exactly when its adds
come in increasing order between resets.
-/
namespace Skywing.L2.TagBuffer

namespace FifoTagBuffer

variable {α : Type*}

inductive Call (α : Type*)
  | add (value : α) (version : VersionID)
  | get (required : VersionID)
  | reset

/-- `stored` and `returned` since the last `reset`. -/
structure Log (α : Type*) where
  buf : FifoTagBuffer α := {}
  stored : List VersionID := []
  returned : List VersionID := []

/-- `get` is called where `has_data` holds. -/
def step (s : Log α) : Call α → Option (Log α)
  | .add value version =>
    let buf := s.buf.add value version
    some { s with
      buf := buf
      stored := if buf.buffer.length = s.buf.buffer.length then s.stored else s.stored ++ [version] }
  | .get required =>
    if s.buf.hasData required then
      (s.buf.get required).map fun (_, buf) =>
        { s with buf := buf, returned := s.returned ++ [buf.lastFetchedVersion] }
    else none
  | .reset => some { buf := s.buf.reset }

def runs : Log α → List (Call α) → Bool
  | _, [] => true
  | s, call :: calls => match step s call with
    | some t => runs t calls
    | none => false

/-! ## What is asked for -/

/-- `e` is the stored entry with the smallest version that is new enough. -/
def Smallest (b : FifoTagBuffer α) (required : VersionID) (e : α × VersionID) : Prop :=
  e ∈ b.buffer ∧ required ≤ e.2 ∧ ∀ e' ∈ b.buffer, required ≤ e'.2 → e.2 ≤ e'.2

structure Ok (s : Log α) : Prop where
  increasing : (s.buf.buffer.map (·.2)).Pairwise (· < ·)
  hasData : ∀ required, s.buf.hasData required = true ↔ ∃ e ∈ s.buf.buffer, required ≤ e.2
  get : ∀ required, s.buf.hasData required = true →
    ∃ e b, s.buf.get required = some (e.1, b) ∧ b.lastFetchedVersion = e.2 ∧ Smallest s.buf required e
  once : s.returned.Nodup

/-- An add that is not newer than all that was stored leaves the buffer as it
is. -/
def Discards (s : Log α) (call : Call α) (t : Log α) : Prop :=
  ∀ value version, call = .add value version → (∃ w ∈ s.stored, version ≤ w) → t.buf = s.buf

def Orderly : Log α → List (Call α) → Prop
  | s, [] => Ok s
  | s, call :: calls => Ok s ∧ ∀ t, step s call = some t → Discards s call t ∧ Orderly t calls

/-- Every added version is newer than all added before it since the last
reset, `before` being those. -/
def Increasing (before : List VersionID) : List (Call α) → Prop
  | [] => True
  | .add _ version :: calls => (∀ w ∈ before, w < version) ∧ Increasing (before ++ [version]) calls
  | .get _ :: calls => Increasing before calls
  | .reset :: calls => Increasing [] calls

/-! ## `get` on an ordered buffer -/

/-- The loop hands out the first entry that is new enough. -/
theorem getLoop_split {required : VersionID} {l : List (α × VersionID)} {e : α × VersionID}
    (he : e ∈ l) (hr : required ≤ e.2) :
    ∃ old e' rest, l = old ++ e' :: rest ∧ (∀ x ∈ old, ¬ required ≤ x.2) ∧ required ≤ e'.2 ∧
      getLoop required l = some (e'.1, e'.2, rest) := by
  induction l with
  | nil => cases he
  | cons x l ih =>
    by_cases hx : required ≤ x.2
    · exact ⟨[], x, l, rfl, nofun, hx, by rw [getLoop, if_pos hx]⟩
    · have hel : e ∈ l := (List.mem_cons.mp he).resolve_left fun h => hx (h ▸ hr)
      obtain ⟨old, e', rest, rfl, hold, hr', hget⟩ := ih hel
      refine ⟨x :: old, e', rest, rfl, ?_, hr', by rw [getLoop, if_neg hx, hget]⟩
      exact List.forall_mem_cons.mpr ⟨hx, hold⟩

theorem get_split {b : FifoTagBuffer α} {required : VersionID} (h : b.hasData required = true) :
    ∃ old e rest, b.buffer = old ++ e :: rest ∧ (∀ x ∈ old, ¬ required ≤ x.2) ∧ required ≤ e.2 ∧
      b.get required = some (e.1, { b with buffer := rest, lastFetchedVersion := e.2 }) := by
  obtain ⟨x, hx, hr⟩ := (hasData_iff b required).mp h
  obtain ⟨old, e, rest, hb, hold, he, hget⟩ := getLoop_split (List.mem_of_getLast? hx) hr
  exact ⟨old, e, rest, hb, hold, he, by rw [FifoTagBuffer.get, hget]; rfl⟩

section Ordered

variable {b : FifoTagBuffer α} (hb : (b.buffer.map (·.2)).Pairwise (· < ·))
include hb

theorem hasData_iff_of_increasing (required : VersionID) :
    b.hasData required = true ↔ ∃ e ∈ b.buffer, required ≤ e.2 := by
  rw [hasData_iff]
  constructor
  · intro hex
    obtain ⟨e, he, hr⟩ := hex
    exact ⟨e, List.mem_of_getLast? he, hr⟩
  · intro hex
    obtain ⟨e, he, hr⟩ := hex
    -- the last version is at least any other
    obtain ⟨l, x, hl⟩ := List.eq_nil_or_concat' b.buffer |>.resolve_left (List.ne_nil_of_mem he)
    rw [hl] at hb he ⊢
    refine ⟨x, List.getLast?_concat, ?_⟩
    rw [List.map_append, List.pairwise_append] at hb
    rcases List.mem_append.mp he with h | h
    · exact UInt32.le_trans hr (UInt32.le_of_lt (hb.2.2 _ (List.mem_map_of_mem h) _
        (List.mem_map_of_mem List.mem_cons_self)))
    · rw [← List.mem_singleton.mp h]
      exact hr

theorem get_smallest {required : VersionID} (h : b.hasData required = true) :
    ∃ e b', b.get required = some (e.1, b') ∧ b'.lastFetchedVersion = e.2 ∧ Smallest b required e := by
  obtain ⟨old, e, rest, hsplit, hold, he, hget⟩ := get_split h
  refine ⟨e, _, hget, rfl, ?_, he, fun e' he' hr => ?_⟩
  · rw [hsplit]
    exact List.mem_append_right _ List.mem_cons_self
  · rw [hsplit, List.map_append, List.map_cons, List.pairwise_append, List.pairwise_cons] at hb
    rw [hsplit] at he'
    rcases List.mem_append.mp he' with h' | h'
    · exact absurd hr (hold e' h')
    · rcases List.mem_cons.mp h' with rfl | h'
      · exact UInt32.le_refl _
      · exact UInt32.le_of_lt (hb.2.1.1 _ (List.mem_map_of_mem h'))

end Ordered

/-! ## Runs -/

/-- The versions in the buffer are the last ones stored, and those returned
are among the ones before. -/
structure Inv (s : Log α) : Prop where
  fresh : s.buf.Fresh
  increasing : s.stored.Pairwise (· < ·)
  split : ∃ gone, s.stored = gone ++ s.buf.buffer.map (·.2) ∧ s.returned.Sublist gone

theorem inv_empty : Inv ({} : Log α) := ⟨rfl, .nil, [], rfl, .slnil⟩

theorem Inv.ok {s : Log α} (h : Inv s) : Ok s := by
  obtain ⟨gone, hs, hsub⟩ := h.split
  have hinc := h.increasing
  rw [hs, List.pairwise_append] at hinc
  refine ⟨hinc.2.1, hasData_iff_of_increasing hinc.2.1, fun required => get_smallest hinc.2.1, ?_⟩
  exact (hinc.1.sublist hsub).imp UInt32.ne_of_lt

/-- `add` discards nothing. -/
theorem step_add {s : Log α} (h : s.buf.Fresh) (value : α) (version : VersionID) :
    step s (.add value version) = some { s with
      buf := { s.buf with buffer := s.buf.buffer ++ [(value, version)] }
      stored := s.stored ++ [version] } := by
  show some { s with
    buf := s.buf.add value version
    stored := if (s.buf.add value version).buffer.length = s.buf.buffer.length then s.stored
      else s.stored ++ [version] } = _
  rw [add_buffer h]
  simp

theorem Inv.add {s t : Log α} (h : Inv s) {value : α} {version : VersionID} (hnew : ∀ w ∈ s.stored, w < version)
    (ht : step s (.add value version) = some t) : Inv t ∧ t.stored = s.stored ++ [version] := by
  rw [step_add h.fresh] at ht
  cases ht
  obtain ⟨gone, hs, hsub⟩ := h.split
  refine ⟨⟨h.fresh, ?_, gone, ?_, hsub⟩, rfl⟩
  · rw [List.pairwise_append]
    refine ⟨h.increasing, List.pairwise_singleton _ _, fun w hw x hx => ?_⟩
    rw [List.mem_singleton.mp hx]
    exact hnew w hw
  · rw [hs, List.map_append, List.append_assoc]
    rfl

theorem Inv.get {s t : Log α} (h : Inv s) {required : VersionID} (ht : step s (.get required) = some t) :
    Inv t ∧ t.stored = s.stored := by
  unfold step at ht
  dsimp only at ht
  split at ht
  · rename_i hdata
    obtain ⟨old, e, rest, hb, -, -, hget⟩ := get_split hdata
    rw [hget] at ht
    cases ht
    obtain ⟨gone, hs, hsub⟩ := h.split
    refine ⟨⟨h.fresh, h.increasing, gone ++ (old.map (·.2) ++ [e.2]), ?_, ?_⟩, rfl⟩
    · rw [hs, hb]
      simp
    · exact hsub.append (List.sublist_append_right _ _)
  · cases ht

theorem orderly_iff_of_inv {s : Log α} (h : Inv s) {calls : List (Call α)} (hr : runs s calls = true) :
    Orderly s calls ↔ Increasing s.stored calls := by
  induction calls generalizing s with
  | nil => exact ⟨fun _ => trivial, fun _ => h.ok⟩
  | cons call calls ih =>
    unfold runs at hr
    cases ht : step s call with
    | none =>
      rw [ht] at hr
      cases hr
    | some t =>
      rw [ht] at hr
      have hcons : Orderly s (call :: calls) ↔ Discards s call t ∧ Orderly t calls := by
        constructor
        · exact fun ho => ho.2 t ht
        · intro ho
          refine ⟨h.ok, fun t' ht' => ?_⟩
          rw [ht] at ht'
          cases ht'
          exact ho
      rw [hcons]
      cases call with
      | add value version =>
        show _ ↔ (∀ w ∈ s.stored, w < version) ∧ Increasing (s.stored ++ [version]) calls
        constructor
        · intro hex
          obtain ⟨hd, ho⟩ := hex
          have hnew : ∀ w ∈ s.stored, w < version := by
            intro w hw
            by_contra hle
            -- the add would have been discarded, and was not
            have heq := hd value version rfl ⟨w, hw, UInt32.not_lt.mp hle⟩
            rw [step_add h.fresh] at ht
            cases ht
            have hlen := congrArg (fun b => b.buffer.length) heq
            simp at hlen
          obtain ⟨hinv, hst⟩ := h.add hnew ht
          exact ⟨hnew, hst ▸ (ih hinv hr).mp ho⟩
        · intro hex
          obtain ⟨hnew, hi⟩ := hex
          obtain ⟨hinv, hst⟩ := h.add hnew ht
          refine ⟨?_, (ih hinv hr).mpr (hst ▸ hi)⟩
          intro value' version' he hex
          obtain ⟨w, hw, hle⟩ := hex
          cases he
          exact absurd (hnew w hw) (UInt32.not_lt.mpr hle)
      | get required =>
        obtain ⟨hinv, hst⟩ := h.get ht
        show _ ↔ Increasing s.stored calls
        rw [ih hinv hr, hst]
        exact and_iff_right fun value version he => nomatch he
      | reset =>
        cases ht
        show _ ↔ Increasing [] calls
        rw [ih (s := { buf := s.buf.reset }) inv_empty hr]
        exact and_iff_right fun value version he => nomatch he

/-- **A FIFO buffer is in order exactly when it is fed in order.** -/
theorem orderly_iff (calls : List (Call α)) (hr : runs {} calls = true) :
    Orderly {} calls ↔ Increasing [] calls :=
  orderly_iff_of_inv inv_empty hr

/-- Two versions, and the newer one asked for. -/
theorem orderly_newer : Orderly ({} : Log Nat) [.add 10 1, .add 30 3, .get 2] :=
  (orderly_iff [.add 10 1, .add 30 3, .get 2] rfl).mpr ⟨nofun, List.forall_mem_singleton.mpr (by decide), trivial⟩

/-- The same version twice is stored twice. -/
theorem not_orderly : runs ({} : Log Nat) [.add 10 1, .add 11 1] = true ∧
    ¬ Orderly ({} : Log Nat) [.add 10 1, .add 11 1] := by
  refine ⟨by decide, fun h => ?_⟩
  have hinc := (h.2 _ rfl).2.2 _ rfl |>.2.increasing
  revert hinc
  decide

end FifoTagBuffer

end Skywing.L2.TagBuffer
