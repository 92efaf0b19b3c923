import Skywing.Core.LTS
import Skywing.L3Protocol.ReduceGroup

/-!
# The waiters of a reduce group

`ReduceGroup::reduce_impl` (`skywing_core/internal/reduce_group.hpp`) returns a
waiter with the version that its operation was given at submission. All
results go into one buffer, and `get()` on a waiter takes the first one from
that version on, with everything before it. `Handle` is a group without
disconnections, its waiters in the order of submission, the results in the
order they were stored, and what each waiter returned.

Operations that are outstanding together may have been given the same version;
then only the order of the `get()`s tells their results apart.

What is asked for (`Own`): the waiter of the `k`-th operation returns the
`k`-th result, and while it has not, its result stays in the buffer and it is
ready.

* `own_results`: that is so in every run in which the waiters are asked in the order
  of submission, each one after its result has come, and no result has an
  older version than a waiter up to it.
* `not_own`: two waiters asked in the other order.
-/
namespace Skywing.L3.ReduceWaiters

open L2.TagBuffer ReduceGroup

/-! ## A handle and its waiters -/

/-- `waiters`: those that get a result; `results`: what was stored in
`data_buffers_[0]`; `returned`: what `get()` returned, with the number of the
waiter; `sent` is history too. -/
structure Handle (V : Type) where
  group : ReduceGroup V
  waiters : List Waiter
  results : List V
  returned : List (Nat × Outcome V)
  sent : List (Send V)

inductive Lbl (V : Type)
  | submit (isAllReduce : Bool) (op : V → V → V) (value : V)
  | data (tag : TagID) (value : V) (version : VersionID)
  | get (k : Nat)

variable {V : Type}

def Handle.fetched (s : Handle V) : List Nat := s.returned.map (·.1)

/-- What was added to the buffer of results. -/
def stored (g g' : ReduceGroup V) : List V :=
  ((g'.dataBuffers 0).buffer.drop (g.dataBuffers 0).buffer.length).map (·.1)

def Handle.become (s : Handle V) (g : ReduceGroup V) (waiters : List Waiter) (sends : List (Send V)) : Handle V :=
  { s with group := g, waiters := waiters, results := s.results ++ stored s.group g, sent := s.sent ++ sends }

variable [Typed V]

/-- Data that is a result: from the parent. -/
def isResult (g : ReduceGroup V) (tag : TagID) (value : V) : Bool :=
  types value == g.expectedTypes && g.bufferFor tag == some 0

/-- A waiter is asked once it is ready, and once only; a result comes after
its operation was submitted. -/
def step (s : Handle V) : Lbl V → Option (Handle V)
  | .submit isAllReduce op value =>
    (s.group.reduceImpl isAllReduce op value).map fun (w, g, sends) =>
      s.become g (if isAllReduce || g.returnsValueOnReduce then s.waiters ++ [w] else s.waiters) sends
  | .data tag value version =>
    if tag.isEmpty || isResult s.group tag value && decide (s.waiters.length ≤ s.results.length) then none
    else (s.group.addData tag value version).map fun (_, g, sends) => s.become g s.waiters sends
  | .get k =>
    match s.waiters[k]? with
    | none => none
    | some w =>
      if k ∈ s.fetched || !s.group.isReady w then none
      else (s.group.getValue w).map fun (o, g) => { s with group := g, returned := s.returned ++ [(k, o)] }

omit [Typed V] in
def init (s : Handle V) : Prop :=
  ∃ tagNeighbors groupId producedTag expectedTypes,
    s = ⟨create tagNeighbors groupId producedTag expectedTypes, [], [], [], []⟩

def lts (V : Type) [Typed V] : LTS (Handle V) (Lbl V) := LTS.ofFn init step

/-! ## What is asked for -/

omit [Typed V] in
structure Own (s : Handle V) : Prop where
  returned : ∀ k o, (k, o) ∈ s.returned → ∃ r, s.results[k]? = some r ∧ o = .value r
  kept : ∀ k r, s.results[k]? = some r → k ∉ s.fetched → ∃ e ∈ (s.group.dataBuffers 0).buffer, e.1 = r
  ready : ∀ k w, s.waiters[k]? = some w → k < s.results.length → k ∉ s.fetched → s.group.isReady w = true
  /-- at the root, results come in the order of the operations -/
  operation : s.group.returnsValueOnReduce = true → ∀ k r, s.results[k]? = some r →
    ∃ version, .result r version k ∈ s.sent

/-- The waiters are asked in order and not before their results have come;
the next result is new enough for every waiter up to its own; at the root
versions do not wrap around. -/
def cond (s : Handle V) : Lbl V → Bool
  | .submit _ _ _ => !s.group.returnsValueOnReduce || decide (s.group.submitted < 2 ^ 32 - 1)
  | .data tag value version =>
    !isResult s.group tag value || (List.range (s.results.length + 1)).all fun k =>
      k ∈ s.fetched || (s.waiters[k]?).all fun w => decide (w.requiredVersion ≤ version)
  | .get k => decide (k < s.results.length) && (List.range k).all (· ∈ s.fetched)

/-! ## What processing leaves alone -/

section Frame

omit [Typed V]

/-- The pending operations, the last version sent and the buffers change. -/
def Frame (g g' : ReduceGroup V) : Prop :=
  ∃ pending last buffers, g' = { g with pendingReduces := pending, lastSentVersion := last, dataBuffers := buffers }

variable {g g' : ReduceGroup V}

theorem Frame.refl (g : ReduceGroup V) : Frame g g := ⟨_, _, _, rfl⟩

theorem Frame.trans {g'' : ReduceGroup V} (h : Frame g g') (h' : Frame g' g'') : Frame g g'' := by
  obtain ⟨_, _, _, rfl⟩ := h
  obtain ⟨ps, l, b, rfl⟩ := h'
  exact ⟨ps, l, b, rfl⟩

theorem Frame.tagNeighbors (h : Frame g g') : g'.tagNeighbors = g.tagNeighbors := by
  obtain ⟨_, _, _, rfl⟩ := h
  rfl

theorem Frame.isValid (h : Frame g g') : g'.isValid = g.isValid := by
  obtain ⟨_, _, _, rfl⟩ := h
  rfl

theorem Frame.connCounter (h : Frame g g') : g'.connCounter = g.connCounter := by
  obtain ⟨_, _, _, rfl⟩ := h
  rfl

theorem Frame.submitted (h : Frame g g') : g'.submitted = g.submitted := by
  obtain ⟨_, _, _, rfl⟩ := h
  rfl

theorem Frame.root (h : Frame g g') : g'.returnsValueOnReduce = g.returnsValueOnReduce := by
  obtain ⟨_, _, _, rfl⟩ := h
  rfl

/-- Processing one operation. -/
theorem frame_processed {p : PendingReduce V} {v : V}
    (h : reduceResult { g with lastSentVersion := p.requiredVersion } p = some (v, g')) :
    Frame g (g'.deliverResult p v).1 := by
  rw [deliverResult_frame, reduceResult_frame h]
  exact ⟨_, _, _, rfl⟩

theorem frame_processLoop {ps : List (PendingReduce V)} {sends : List (Send V)}
    (h : processLoop ps g = some (g', sends)) : Frame g g' := by
  obtain ⟨rest, g₁, hf, rfl⟩ := processLoop_rule (P := fun _ g₁ _ => Frame g g₁) (fun _ _ _ _ _ hP => hP)
    (fun _ _ _ _ _ _ _ _ hr hP => hP.trans (frame_processed hr)) ps g g' [] sends h (.refl g)
  exact hf.trans ⟨rest, _, _, rfl⟩

/-- Taking the children's values leaves the results alone. -/
theorem reduceResult_results {p : PendingReduce V} {v : V} (h : reduceResult g p = some (v, g')) :
    g'.dataBuffers 0 = g.dataBuffers 0 := by
  have h01 : (0 : Fin 3) ≠ 1 := by decide
  have h02 : (0 : Fin 3) ≠ 2 := by decide
  rcases reduceResult_cases h with ⟨-, -, rfl⟩ | ⟨-, -, _, _, -, -, rfl⟩ | ⟨-, -, _, _, _, _, -, -, -, rfl⟩
  · rfl
  · simp only [Function.update_of_ne h01]
  · simp only [Function.update_of_ne h02, Function.update_of_ne h01]

/-- Below the root nothing that is processed is stored. -/
theorem processLoop_results : ∀ (ps : List (PendingReduce V)) (g g' : ReduceGroup V) (sends : List (Send V)),
    g.returnsValueOnReduce = false → processLoop ps g = some (g', sends) → g'.dataBuffers 0 = g.dataBuffers 0
  | [], g, g', sends, _, h => by cases h; rfl
  | p :: rest, g, g', sends, hroot, h => by
    rcases processLoop_cons h with ⟨-, h⟩ | ⟨-, -, rfl, -⟩ | ⟨-, -, v, g₁, more, h₁, h₂, -⟩
    · exact processLoop_results rest g g' sends hroot h
    · rfl
    · have hsame : g₁.dataBuffers 0 = ({ g with lastSentVersion := p.requiredVersion } : ReduceGroup V).dataBuffers 0 :=
        reduceResult_results h₁
      have hroot₁ : g₁.returnsValueOnReduce = false := by
        rw [reduceResult_frame h₁]
        exact hroot
      rw [deliverResult, hroot₁] at h₂
      exact (processLoop_results rest _ _ _ hroot₁ h₂).trans hsame

end Frame

/-! ## The buffer of results -/

section Buffered

omit [Typed V]

/-- The buffer holds the results from the `got`-th on, each new enough for
the waiters from there up to its own. -/
structure Buffered (waiters : List Waiter) (got : Nat) (results : List V) (buffer : List (V × VersionID)) : Prop where
  values : buffer.map (·.1) = results.drop got
  fetched : got ≤ results.length
  submitted : results.length ≤ waiters.length
  versions : ∀ j e, buffer[j]? = some e → ∀ k w, got ≤ k → k ≤ got + j → waiters[k]? = some w → w.requiredVersion ≤ e.2

namespace Buffered

variable {waiters : List Waiter} {got : Nat} {results : List V} {buffer : List (V × VersionID)}

theorem length (h : Buffered waiters got results buffer) : buffer.length = results.length - got := by
  rw [← List.length_map (·.1), h.values, List.length_drop]

theorem grow (h : Buffered waiters got results buffer) (w : Waiter) : Buffered (waiters ++ [w]) got results buffer := by
  refine ⟨h.values, h.fetched, ?_, fun j e he k w' hk hkj hw => ?_⟩
  · have := h.submitted
    rw [List.length_append]
    omega
  · have hj : j < buffer.length := (List.getElem?_eq_some_iff.mp he).1
    have hlen := h.length
    have hsub := h.submitted
    rw [List.getElem?_append_left (by omega)] at hw
    exact h.versions j e he k w' hk hkj hw

/-- One more result. -/
theorem store (h : Buffered waiters got results buffer) {v : V} {version : VersionID}
    (hlt : results.length < waiters.length)
    (hnew : ∀ k w, got ≤ k → k ≤ results.length → waiters[k]? = some w → w.requiredVersion ≤ version) :
    Buffered waiters got (results ++ [v]) (buffer ++ [(v, version)]) := by
  have hgot := h.fetched
  have hlen := h.length
  refine ⟨?_, ?_, ?_, fun j e he k w hk hkj hw => ?_⟩
  · rw [List.map_append, h.values, List.drop_append_of_le_length hgot]
    rfl
  · rw [List.length_append]
    omega
  · rw [List.length_append]
    exact hlt
  · rcases Nat.lt_or_ge j buffer.length with hj | hj
    · rw [List.getElem?_append_left hj] at he
      exact h.versions j e he k w hk hkj hw
    · have hj' := (List.getElem?_eq_some_iff.mp he).1
      rw [List.length_append, List.length_singleton] at hj'
      rw [List.getElem?_append_right hj, show j - buffer.length = 0 by omega] at he
      cases he
      exact hnew k w hk (by omega) hw

/-- The waiter whose turn it is finds its own result at the front. -/
theorem front (h : Buffered waiters got results buffer) {w : Waiter} (hlt : got < results.length)
    (hw : waiters[got]? = some w) : ∃ r version rest, results[got]? = some r ∧ buffer = (r, version) :: rest ∧
      w.requiredVersion ≤ version ∧ Buffered waiters (got + 1) results rest := by
  have hlen := h.length
  cases buffer with
  | nil =>
    rw [List.length_nil] at hlen
    omega
  | cons e rest =>
    have hvals := h.values
    rw [List.map_cons, List.drop_eq_getElem_cons hlt] at hvals
    obtain ⟨he, hrest⟩ := List.cons.inj hvals
    refine ⟨e.1, e.2, rest, ?_, rfl, h.versions 0 e rfl got w le_rfl le_rfl hw, hrest, hlt, h.submitted, ?_⟩
    · rw [List.getElem?_eq_getElem hlt, he]
    · intro j e' he' k w' hk hkj hw'
      exact h.versions (j + 1) e' he' k w' (by omega) (by omega) hw'

/-- A waiter whose result has come finds data. -/
theorem hasData (h : Buffered waiters got results buffer) {k : Nat} {w : Waiter} {b : FifoTagBuffer V}
    (hb : b.buffer = buffer) (hk : got ≤ k) (hlt : k < results.length) (hw : waiters[k]? = some w) :
    b.hasData w.requiredVersion = true := by
  have hlen := h.length
  rw [FifoTagBuffer.hasData_iff, hb, List.getLast?_eq_getElem?]
  have hlast : buffer.length - 1 < buffer.length := by omega
  exact ⟨_, List.getElem?_eq_getElem hlast, h.versions _ _ (List.getElem?_eq_getElem hlast) k w hk (by omega) hw⟩

theorem kept (h : Buffered waiters got results buffer) {k : Nat} {r : V} (hk : got ≤ k) (hr : results[k]? = some r) :
    ∃ e ∈ buffer, e.1 = r := by
  have hmem : r ∈ buffer.map (·.1) := by
    rw [h.values]
    refine List.mem_of_getElem? (i := k - got) ?_
    rw [List.getElem?_drop, show got + (k - got) = k by omega]
    exact hr
  exact List.mem_map.mp hmem

end Buffered

end Buffered

/-! ## The root -/

section Root

omit [Typed V]

/-- `done` operations have been processed; `L` counts the last version sent. -/
structure Root (waiters : List Waiter) (done : Nat) (pending : List (PendingReduce V)) (last : VersionID) : Prop where
  required : pending.map (·.requiredVersion) = (waiters.drop done).map (·.requiredVersion)
  seqs : pending.map (·.seq) = List.range' done pending.length
  count : done + pending.length = waiters.length
  sorted : ∀ (i j : Nat) (w w' : Waiter), i ≤ j → waiters[i]? = some w → waiters[j]? = some w' →
    w.requiredVersion.toNat ≤ w'.requiredVersion.toNat
  version : ∃ L ≤ done, last = versionAt L ∧ (∀ w ∈ waiters, w.requiredVersion.toNat ≤ L) ∧
    (∀ k w, k < done → waiters[k]? = some w → w.requiredVersion.toNat < L) ∧
    (L = 0 ∨ ∃ k w, k < done ∧ waiters[k]? = some w ∧ L = w.requiredVersion.toNat + 1)

variable {waiters : List Waiter} {done : Nat} {p : PendingReduce V} {rest : List (PendingReduce V)} {last : VersionID}

theorem Root.head (h : Root waiters done (p :: rest) last) : ∃ w, waiters[done]? = some w ∧
    w.requiredVersion = p.requiredVersion ∧ p.seq = done := by
  have hc := h.count
  rw [List.length_cons] at hc
  have hlt : done < waiters.length := by omega
  have hreq := h.required
  rw [List.drop_eq_getElem_cons hlt, List.map_cons, List.map_cons] at hreq
  have hseq := h.seqs
  rw [List.map_cons, List.length_cons, List.range'_succ] at hseq
  exact ⟨_, List.getElem?_eq_getElem hlt, (List.cons.inj hreq).1.symm, (List.cons.inj hseq).1⟩

/-- The first pending operation is processed. -/
theorem Root.process (h : Root waiters done (p :: rest) last) (hlen : waiters.length < 2 ^ 32) :
    Root waiters (done + 1) rest p.requiredVersion := by
  obtain ⟨w, hw, hreq, -⟩ := h.head
  obtain ⟨L, hL, -, hall, -, hmax⟩ := h.version
  have hc := h.count
  have hlt : done < waiters.length := (List.getElem?_eq_some_iff.mp hw).1
  have hwL : w.requiredVersion.toNat ≤ L := hall w (List.mem_of_getElem? hw)
  have hle : L ≤ w.requiredVersion.toNat + 1 := by
    rcases hmax with rfl | ⟨k, w', hk, hw', rfl⟩
    · exact Nat.zero_le _
    · exact Nat.succ_le_succ (h.sorted k done w' w (by omega) hw' hw)
  refine ⟨?_, ?_, ?_, h.sorted, w.requiredVersion.toNat + 1, by omega, ?_, fun w' hw' => ?_, fun k w' hk hw' => ?_, ?_⟩
  · have := h.required
    rw [List.drop_eq_getElem_cons hlt, List.map_cons, List.map_cons] at this
    exact (List.cons.inj this).2
  · have := h.seqs
    rw [List.map_cons, List.length_cons, List.range'_succ] at this
    exact (List.cons.inj this).2
  · rw [List.length_cons] at hc
    omega
  · rw [← hreq, ← UInt32.toNat_inj, versionAt_toNat (by omega) (by omega)]
    omega
  · exact le_trans (hall w' hw') hle
  · exact Nat.lt_succ_of_le (h.sorted k done w' w (by omega) hw' hw)
  · exact .inr ⟨done, w, Nat.lt_succ_self done, hw, rfl⟩

/-- An operation is submitted. -/
theorem Root.submit {pending : List (PendingReduce V)} (h : Root waiters done pending last)
    (hlen : waiters.length < 2 ^ 32 - 1) {w : Waiter} (hw : w.requiredVersion = last + 1)
    (hp : p.requiredVersion = last + 1) (hseq : p.seq = waiters.length) :
    Root (waiters ++ [w]) done (pending ++ [p]) last := by
  obtain ⟨L, hL, hlast, hall, hdone, hmax⟩ := h.version
  have hc := h.count
  have hreq : w.requiredVersion.toNat = L := by
    rw [hw, hlast, versionAt_add_one, versionAt_toNat (by omega) (by omega)]
    omega
  have hold {k : Nat} {w' : Waiter} (hk : k < done) (hw' : (waiters ++ [w])[k]? = some w') : waiters[k]? = some w' := by
    rwa [List.getElem?_append_left (by omega)] at hw'
  refine ⟨?_, ?_, ?_, fun i j w₁ w₂ hij h₁ h₂ => ?_, L, hL, hlast, fun w' hw' => ?_, fun k w' hk hw' => ?_, ?_⟩
  · rw [List.map_append, h.required, List.drop_append_of_le_length (by omega), List.map_append, List.map_singleton,
      List.map_singleton, hw, hp]
  · rw [List.map_append, h.seqs, List.length_append, List.length_singleton, ← List.range'_append_1, List.map_singleton,
      hseq, ← hc]
    rfl
  · simp only [List.length_append, List.length_singleton]
    omega
  · have hj := (List.getElem?_eq_some_iff.mp h₂).1
    rw [List.length_append, List.length_singleton] at hj
    rcases Nat.lt_or_ge j waiters.length with hlt | hge
    · rw [List.getElem?_append_left (by omega)] at h₁ h₂
      exact h.sorted i j w₁ w₂ hij h₁ h₂
    · -- the new one has the highest version
      obtain rfl : j = waiters.length := by omega
      rw [List.getElem?_concat_length] at h₂
      cases h₂
      rw [hreq]
      rcases List.mem_append.mp (List.mem_of_getElem? h₁) with hm | hm
      · exact hall w₁ hm
      · rw [List.mem_singleton.mp hm]
        exact le_of_eq hreq
  · rcases List.mem_append.mp hw' with hm | hm
    · exact hall w' hm
    · rw [List.mem_singleton.mp hm]
      exact le_of_eq hreq
  · exact hdone k w' hk (hold hk hw')
  · refine hmax.imp_right fun ⟨k, w', hk, hw', he⟩ => ⟨k, w', hk, ?_, he⟩
    rw [List.getElem?_append_left (by omega)]
    exact hw'

/-- At the root each operation that is processed stores its result. -/
theorem process_root {waiters : List Waiter} {got : Nat} (hlen : waiters.length < 2 ^ 32) :
    ∀ (ps : List (PendingReduce V)) (g g' : ReduceGroup V) (sends sent : List (Send V)) (results : List V),
      processLoop ps g = some (g', sends) → g.isValid = true → g.returnsValueOnReduce = true →
      (g.dataBuffers 0).Fresh → Root waiters results.length ps g.lastSentVersion →
      Buffered waiters got results (g.dataBuffers 0).buffer →
      (∀ k r, results[k]? = some r → ∃ version, .result r version k ∈ sent) →
      ∃ more, (g'.dataBuffers 0).buffer = (g.dataBuffers 0).buffer ++ more ∧ (g'.dataBuffers 0).Fresh ∧
        Root waiters (results ++ more.map (·.1)).length g'.pendingReduces g'.lastSentVersion ∧
        Buffered waiters got (results ++ more.map (·.1)) (g'.dataBuffers 0).buffer ∧
        ∀ k r, (results ++ more.map (·.1))[k]? = some r → ∃ version, .result r version k ∈ sent ++ sends
  | [], g, g', sends, sent, results, h, _, _, hf, hr, hb, hop => by
    cases h
    refine ⟨[], (List.append_nil _).symm, hf, ?_, ?_, ?_⟩
    · simpa using hr
    · simpa using hb
    · simpa using hop
  | p :: rest, g, g', sends, sent, results, h, hv, hroot, hf, hr, hb, hop => by
    rcases processLoop_cons h with ⟨hv', -⟩ | ⟨-, -, rfl, rfl⟩ | ⟨-, -, v, g₁, more, h₁, h₂, rfl⟩
    · rw [hv] at hv'
      cases hv'
    · refine ⟨[], (List.append_nil _).symm, hf, ?_, ?_, ?_⟩
      · simpa using hr
      · simpa using hb
      · simpa using hop
    · obtain ⟨w, hw, hreq, hseq⟩ := hr.head
      have hframe : Frame g (g₁.deliverResult p v).1 := frame_processed h₁
      have hsame : g₁.dataBuffers 0 = ({ g with lastSentVersion := p.requiredVersion } : ReduceGroup V).dataBuffers 0 :=
        reduceResult_results h₁
      have hparent : g₁.tagNeighbors.parent = [] := by
        rw [reduceResult_frame h₁]
        exact List.isEmpty_iff.mp hroot
      have hf₁ : (g₁.dataBuffers 0).Fresh := hsame ▸ hf
      have hstored := deliverResult_stored g₁ p v hf₁ hparent
      rw [hsame] at hstored
      have hlast : (g₁.deliverResult p v).1.lastSentVersion = p.requiredVersion := by
        rw [deliverResult_frame, reduceResult_frame h₁]
      have hb' : Buffered waiters got (results ++ [v]) (_ ++ [(v, p.requiredVersion)]) :=
        hb.store (List.getElem?_eq_some_iff.mp hw).1 fun k w' _ hk hw' => by
          rw [UInt32.le_iff_toNat_le, ← hreq]
          exact hr.sorted k _ w' w hk hw' hw
      have hmem : .result v p.requiredVersion results.length ∈ (g₁.deliverResult p v).2 := by
        have hroot₁ : g₁.returnsValueOnReduce = true := List.isEmpty_iff.mpr hparent
        rw [deliverResult, hroot₁, ← hseq]
        exact List.mem_cons_self
      have hop' : ∀ k r, (results ++ [v])[k]? = some r →
          ∃ version, .result r version k ∈ sent ++ (g₁.deliverResult p v).2 := by
        intro k r hk
        rcases Nat.lt_or_ge k results.length with hlt | hge
        · rw [List.getElem?_append_left hlt] at hk
          obtain ⟨version, hm⟩ := hop k r hk
          exact ⟨version, List.mem_append_left _ hm⟩
        · have hk' := (List.getElem?_eq_some_iff.mp hk).1
          rw [List.length_append, List.length_singleton] at hk'
          obtain rfl : k = results.length := by omega
          rw [List.getElem?_concat_length] at hk
          cases hk
          exact ⟨_, List.mem_append_right _ hmem⟩
      have hr' := hr.process hlen
      rw [← hlast] at hr'
      have hfresh : ((g₁.deliverResult p v).1.dataBuffers 0).Fresh := by
        rw [deliverResult, show g₁.returnsValueOnReduce = true from List.isEmpty_iff.mpr hparent]
        simp only [if_true, addDataIndex, Function.update_self, FifoTagBuffer.add_buffer hf₁]
        exact hf₁
      obtain ⟨rest', hbuf, hf', hr'', hb'', hop''⟩ := process_root hlen rest _ g' more
        (sent ++ (g₁.deliverResult p v).2)
        (results ++ [v]) h₂ (hframe.isValid.trans hv) (hframe.root.trans hroot) hfresh
        (by rw [List.length_append]; exact hr') (by rw [hstored]; exact hb') hop'
      refine ⟨(v, p.requiredVersion) :: rest', ?_, hf', ?_, ?_, ?_⟩
      · rw [hbuf, hstored, List.append_assoc]
        rfl
      · simpa using hr''
      · simpa using hb''
      · simpa using hop''

end Root

/-! ## The invariant -/

omit [Typed V] in
structure Inv (s : Handle V) : Prop where
  valid : s.group.isValid = true
  conns : ∀ w ∈ s.waiters, w.connId = s.group.connCounter
  fresh : (s.group.dataBuffers 0).Fresh
  fetched : s.fetched = List.range s.returned.length
  returned : ∀ k o, (k, o) ∈ s.returned → ∃ r, s.results[k]? = some r ∧ o = .value r
  buffered : Buffered s.waiters s.returned.length s.results (s.group.dataBuffers 0).buffer
  kinds : s.group.returnsValueOnReduce = false → ∀ w ∈ s.waiters, w.isAllReduce = true
  root : s.group.returnsValueOnReduce = true →
    Root s.waiters s.results.length s.group.pendingReduces s.group.lastSentVersion ∧
      s.group.submitted = s.waiters.length ∧ s.waiters.length < 2 ^ 32 ∧
      ∀ k r, s.results[k]? = some r → ∃ version, .result r version k ∈ s.sent

omit [Typed V] in
theorem Inv.errorOccurred {s : Handle V} (h : Inv s) {w : Waiter} (hw : w ∈ s.waiters) :
    s.group.errorOccurred w = false := by
  unfold ReduceGroup.errorOccurred
  rw [h.conns w hw, h.valid]
  simp

omit [Typed V] in
theorem Inv.own {s : Handle V} (h : Inv s) : Own s where
  returned := h.returned
  kept := by
    intro k r hr hk
    rw [h.fetched, List.mem_range, not_lt] at hk
    exact h.buffered.kept hk hr
  ready := by
    intro k w hw hlt hk
    rw [h.fetched, List.mem_range, not_lt] at hk
    have hdata := h.buffered.hasData rfl hk hlt hw
    have hmem := List.mem_of_getElem? hw
    unfold ReduceGroup.isReady
    rw [h.errorOccurred hmem]
    cases hall : w.isAllReduce with
    | true => simpa using hdata
    | false =>
      cases hroot : s.group.returnsValueOnReduce with
      | false =>
        rw [h.kinds hroot w hmem] at hall
        cases hall
      | true =>
        -- the operation was processed, so its version was sent
        obtain ⟨hr, -, hlen, -⟩ := h.root hroot
        obtain ⟨L, hL, hlast, -, hdone, -⟩ := hr.version
        have hwL := hdone k w hlt hw
        have hc := hr.count
        have hL32 : L < 2 ^ 32 := by omega
        have hne : versionAt L ≠ tagNoData := fun he => by
          have := (versionAt_eq_noData hL32).mp he
          omega
        have hge : w.requiredVersion ≤ versionAt L := by
          rw [UInt32.le_iff_toNat_le, versionAt_toNat (by omega) (by omega)]
          omega
        simp [hlast, hne, hge]
  operation hroot := (h.root hroot).2.2.2

/-! ## Each step keeps it -/

omit [Typed V] in
/-- The buffer of results is only added to. -/
theorem stored_eq {g g' : ReduceGroup V} {more : List (V × VersionID)}
    (h : (g'.dataBuffers 0).buffer = (g.dataBuffers 0).buffer ++ more) : stored g g' = more.map (·.1) := by
  rw [stored, h, List.drop_left]

section Steps

variable {s t : Handle V}

omit [Typed V] in
/-- Processing, after waiters, pending operations or a result were added. -/
theorem Inv.processed (h : Inv s) {waiters : List Waiter} {ps : List (PendingReduce V)}
    {buffers : Fin 3 → FifoTagBuffer V} {n : Nat} {extra : List (V × VersionID)} {g : ReduceGroup V}
    {sends all : List (Send V)}
    (hloop : processLoop ps { s.group with pendingReduces := ps, dataBuffers := buffers, submitted := n } =
      some (g, sends))
    (hconns : ∀ w ∈ waiters, w.connId = s.group.connCounter) (hfresh : (buffers 0).Fresh)
    (hbuf : (buffers 0).buffer = (s.group.dataBuffers 0).buffer ++ extra)
    (hb : Buffered waiters s.returned.length (s.results ++ extra.map (·.1)) (buffers 0).buffer)
    (hkinds : s.group.returnsValueOnReduce = false → ∀ w ∈ waiters, w.isAllReduce = true)
    (hroot : s.group.returnsValueOnReduce = true → extra = [] ∧ n = waiters.length ∧ waiters.length < 2 ^ 32 ∧
      Root waiters s.results.length ps s.group.lastSentVersion)
    (hall : ∀ x ∈ sends, x ∈ all) : Inv (s.become g waiters all) := by
  have hframe := frame_processLoop hloop
  have hvalid : g.isValid = true := hframe.isValid.trans h.valid
  have hconn : g.connCounter = s.group.connCounter := hframe.connCounter
  have hsame : g.returnsValueOnReduce = s.group.returnsValueOnReduce := hframe.root
  have hprefix {k : Nat} {r : V} (more : List V) (hk : s.results[k]? = some r) : (s.results ++ more)[k]? = some r := by
    rw [List.getElem?_append_left (List.getElem?_eq_some_iff.mp hk).1]
    exact hk
  have hreturned (more : List V) :
      ∀ k o, (k, o) ∈ s.returned → ∃ r, (s.results ++ more)[k]? = some r ∧ o = .value r := by
    intro k o hko
    obtain ⟨r, hr, ho⟩ := h.returned k o hko
    exact ⟨r, hprefix more hr, ho⟩
  cases hr : s.group.returnsValueOnReduce with
  | false =>
    have h0 : g.dataBuffers 0 = buffers 0 := by
      refine processLoop_results ps _ g sends ?_ hloop
      exact hr
    have hst : stored s.group g = extra.map (·.1) := stored_eq (h0 ▸ hbuf)
    refine ⟨hvalid, fun w hw => (hconns w hw).trans hconn.symm, ?_, h.fetched, hreturned _, ?_, fun _ => hkinds hr, ?_⟩
    · show (g.dataBuffers 0).Fresh
      rw [h0]
      exact hfresh
    · show Buffered waiters s.returned.length (s.results ++ stored s.group g) (g.dataBuffers 0).buffer
      rw [hst, h0]
      exact hb
    · intro hg
      replace hg : g.returnsValueOnReduce = true := hg
      rw [hsame, hr] at hg
      cases hg
  | true =>
    obtain ⟨rfl, hn, hlen, hrt⟩ := hroot hr
    rw [List.map_nil, List.append_nil] at hb
    rw [List.append_nil] at hbuf
    obtain ⟨more, hmore, hfresh', hrt', hb', hop'⟩ := process_root hlen ps _ g sends s.sent s.results hloop h.valid hr
      hfresh hrt hb (h.root hr).2.2.2
    have hst : stored s.group g = more.map (·.1) := stored_eq (hbuf ▸ hmore)
    refine ⟨hvalid, fun w hw => (hconns w hw).trans hconn.symm, hfresh', h.fetched, hreturned _, ?_, fun hg => ?_,
      fun _ => ⟨?_, hframe.submitted.trans hn, hlen, ?_⟩⟩
    · show Buffered waiters s.returned.length (s.results ++ stored s.group g) (g.dataBuffers 0).buffer
      rw [hst]
      exact hb'
    · replace hg : g.returnsValueOnReduce = false := hg
      rw [hsame, hr] at hg
      cases hg
    · show Root waiters (s.results ++ stored s.group g).length g.pendingReduces g.lastSentVersion
      rw [hst]
      exact hrt'
    · show ∀ k r, (s.results ++ stored s.group g)[k]? = some r → ∃ version, .result r version k ∈ s.sent ++ all
      rw [hst]
      intro k r hk
      obtain ⟨version, hm⟩ := hop' k r hk
      refine ⟨version, ?_⟩
      rcases List.mem_append.mp hm with hm | hm
      · exact List.mem_append_left _ hm
      · exact List.mem_append_right _ (hall _ hm)

theorem inv_submit (h : Inv s) {isAllReduce : Bool} {op : V → V → V} {value : V}
    (hcond : cond s (.submit isAllReduce op value) = true) (ht : step s (.submit isAllReduce op value) = some t) :
    Inv t := by
  obtain ⟨⟨w, g, sends⟩, hr, rfl⟩ := Option.map_eq_some_iff.mp ht
  obtain ⟨⟨g', sends'⟩, hloop, hr⟩ := Option.bind_eq_some_iff.mp hr
  cases hr
  have hframe := frame_processLoop hloop
  have hroot : g.returnsValueOnReduce = s.group.returnsValueOnReduce := hframe.root
  have hconn : g.connCounter = s.group.connCounter := hframe.connCounter
  have hbuffered : Buffered s.waiters s.returned.length (s.results ++ ([] : List (V × VersionID)).map (·.1))
      (s.group.dataBuffers 0).buffer := by
    rw [List.map_nil, List.append_nil]
    exact h.buffered
  dsimp only
  by_cases hw : (isAllReduce || g.returnsValueOnReduce) = true
  · rw [if_pos hw]
    refine h.processed hloop ?_ h.fresh (List.append_nil _).symm (hbuffered.grow _) (fun hs => ?_) (fun hs => ?_)
      fun _ hx => hx
    · intro w hm
      rcases List.mem_append.mp hm with hm | hm
      · exact h.conns w hm
      · rw [List.mem_singleton.mp hm]
        exact hconn
    · intro w hm
      rcases List.mem_append.mp hm with hm | hm
      · exact h.kinds hs w hm
      · rw [List.mem_singleton.mp hm]
        rw [hroot, hs, Bool.or_false] at hw
        exact hw
    · obtain ⟨hrt, hsub, -, -⟩ := h.root hs
      have hlt : s.group.submitted < 2 ^ 32 - 1 := by
        unfold cond at hcond
        rw [hs] at hcond
        simpa using hcond
      refine ⟨rfl, ?_, ?_, hrt.submit (hsub ▸ hlt) rfl rfl hsub⟩
      · rw [List.length_append, List.length_singleton, hsub]
      · rw [List.length_append, List.length_singleton, ← hsub]
        omega
  · rw [if_neg hw]
    have hs : s.group.returnsValueOnReduce = false := by
      rw [← hroot]
      exact (Bool.or_eq_false_iff.mp (Bool.eq_false_iff.mpr hw)).2
    refine h.processed hloop h.conns h.fresh (List.append_nil _).symm hbuffered h.kinds (fun hs' => ?_) fun _ hx => hx
    rw [hs] at hs'
    cases hs'

theorem inv_data (h : Inv s) {tag : TagID} {value : V} {version : VersionID}
    (hcond : cond s (.data tag value version) = true) (ht : step s (.data tag value version) = some t) : Inv t := by
  unfold step at ht
  dsimp only at ht
  split at ht
  · cases ht
  · rename_i hguard
    obtain ⟨htag, hres⟩ := Bool.or_eq_false_iff.mp (Bool.eq_false_iff.mpr hguard)
    obtain ⟨⟨ok, g, sends⟩, hr, rfl⟩ := Option.map_eq_some_iff.mp ht
    have hsame : Buffered s.waiters s.returned.length (s.results ++ ([] : List (V × VersionID)).map (·.1))
        (s.group.dataBuffers 0).buffer := by
      rw [List.map_nil, List.append_nil]
      exact h.buffered
    have hidle : Inv (s.become s.group s.waiters []) := by
      have hst : stored s.group s.group = List.map Prod.fst [] := stored_eq (List.append_nil _).symm
      simpa [Handle.become, hst] using h
    unfold addData at hr
    split at hr
    · cases hr
      exact hidle
    · rename_i htypes
      split at hr
      · cases hr
        exact hidle
      · rename_i i hi
        obtain ⟨⟨g', sends'⟩, hloop, hr⟩ := Option.bind_eq_some_iff.mp hr
        cases hr
        by_cases hi0 : i = 0
        · subst hi0
          -- a result from the parent
          have hresult : isResult s.group tag value = true := by
            simp [isResult, not_not.mp htypes, hi]
          have hnonroot : s.group.returnsValueOnReduce = false := by
            have hparent : tag = s.group.tagNeighbors.tags 0 := by simpa using List.find?_some hi
            rw [hparent] at htag
            exact htag
          rw [hresult, Bool.true_and, decide_eq_false_iff_not, not_le] at hres
          have hnew : ∀ k w, s.returned.length ≤ k → k ≤ s.results.length → s.waiters[k]? = some w →
              w.requiredVersion ≤ version := by
            intro k w hk hkr hw
            simp only [cond, hresult, Bool.not_true, Bool.false_or] at hcond
            have hall := List.all_eq_true.mp hcond k (List.mem_range.mpr (Nat.lt_succ_of_le hkr))
            have hnot : k ∉ s.fetched := by
              rw [h.fetched, List.mem_range]
              omega
            simpa [hnot, hw] using hall
          have hbuf : ((s.group.addDataIndex 0 value version).dataBuffers 0).buffer =
              (s.group.dataBuffers 0).buffer ++ [(value, version)] := addDataIndex_self _ _ _ _ h.fresh
          refine h.processed (n := s.group.submitted) hloop h.conns ?_ hbuf ?_ h.kinds (fun hs => ?_) fun x hx => ?_
          · simp only [Function.update_self, FifoTagBuffer.add_buffer h.fresh]
            exact h.fresh
          · show Buffered _ _ _ ((s.group.addDataIndex 0 value version).dataBuffers 0).buffer
            rw [hbuf]
            exact h.buffered.store hres hnew
          · rw [hnonroot] at hs
            cases hs
          · exact List.mem_append_right _ hx
        · have hbuf : (s.group.addDataIndex i value version).dataBuffers 0 = s.group.dataBuffers 0 :=
            addDataIndex_ne _ _ _ (Ne.symm hi0)
          have hfresh : ((s.group.addDataIndex i value version).dataBuffers 0).Fresh := by
            rw [hbuf]
            exact h.fresh
          have hsame' : Buffered s.waiters s.returned.length (s.results ++ ([] : List (V × VersionID)).map (·.1))
              ((s.group.addDataIndex i value version).dataBuffers 0).buffer := by
            rw [hbuf]
            exact hsame
          refine h.processed (n := s.group.submitted) hloop h.conns hfresh ?_ hsame' h.kinds
            (fun hs => ?_) fun x hx => ?_
          · show ((s.group.addDataIndex i value version).dataBuffers 0).buffer = _
            rw [hbuf, List.append_nil]
          · obtain ⟨hrt, hsub, hlen, -⟩ := h.root hs
            exact ⟨rfl, hsub, hlen, hrt⟩
          · rw [if_neg hi0, List.nil_append]
            exact hx

theorem inv_get (h : Inv s) {k : Nat} (hcond : cond s (.get k) = true) (ht : step s (.get k) = some t) : Inv t := by
  unfold step at ht
  dsimp only at ht
  split at ht
  · cases ht
  · rename_i w hw
    split at ht
    · cases ht
    · rename_i hguard
      obtain ⟨⟨o, g⟩, hg, rfl⟩ := Option.map_eq_some_iff.mp ht
      obtain ⟨hlt, horder⟩ := Bool.and_eq_true_iff.mp hcond
      have hlt : k < s.results.length := of_decide_eq_true hlt
      -- it is the next one in order
      have hk : k = s.returned.length := by
        have hnot : k ∉ s.fetched := by
          simp only [Bool.or_eq_true, decide_eq_true_eq, not_or] at hguard
          exact hguard.1
        rw [h.fetched, List.mem_range, not_lt] at hnot
        by_contra hne
        have hmem := List.all_eq_true.mp horder s.returned.length (List.mem_range.mpr (by omega))
        rw [decide_eq_true_iff, h.fetched, List.mem_range] at hmem
        omega
      subst hk
      have hmem := List.mem_of_getElem? hw
      obtain ⟨r, version, rest, hr, hbuf, hver, hb⟩ := h.buffered.front hlt hw
      have hdata : (s.group.dataBuffers 0).hasData w.requiredVersion = true :=
        h.buffered.hasData rfl le_rfl hlt hw
      have htake : (w.isAllReduce || s.group.returnsValueOnReduce) = true := by
        cases hs : s.group.returnsValueOnReduce with
        | true => exact Bool.or_true _
        | false => rw [h.kinds hs w hmem, Bool.true_or]
      have hget := FifoTagBuffer.get_head hbuf hver
      unfold ReduceGroup.getValue at hg
      rw [if_pos htake, if_pos hdata, getBuffer, hget] at hg
      cases hg
      refine ⟨h.valid, h.conns, ?_, ?_, ?_, ?_, h.kinds, h.root⟩
      · simp only [Function.update_self]
        exact h.fresh
      · show (s.returned ++ [_]).map _ = List.range (s.returned ++ [_]).length
        rw [List.map_append, List.length_append, List.length_singleton, List.range_succ]
        exact congrArg (· ++ _) h.fetched
      · intro k o hko
        rcases List.mem_append.mp hko with hko | hko
        · exact h.returned k o hko
        · cases List.mem_singleton.mp hko
          exact ⟨r, hr, rfl⟩
      · show Buffered s.waiters (s.returned ++ [_]).length s.results _
        rw [List.length_append, List.length_singleton]
        simp only [Function.update_self]
        exact hb

end Steps

theorem inv_inductive : ((lts V).restrict fun s l => cond s l = true).Inductive Inv where
  init := by
    intro s hex
    obtain ⟨tagNeighbors, groupId, producedTag, expectedTypes, rfl⟩ := hex
    refine ⟨rfl, nofun, rfl, rfl, nofun, ⟨rfl, le_rfl, le_rfl, nofun⟩, fun _ => nofun, fun _ => ⟨?_, rfl, ?_, nofun⟩⟩
    · exact ⟨rfl, rfl, rfl, nofun, 0, le_rfl, rfl, nofun, nofun, .inl rfl⟩
    · exact Nat.two_pow_pos 32
  step := by
    intro s l t hs hex
    obtain ⟨ht, hcond⟩ := hex
    cases l with
    | submit isAllReduce op value => exact inv_submit hs hcond ht
    | data tag value version => exact inv_data hs hcond ht
    | get k => exact inv_get hs hcond ht

/-- **Each waiter returns its own result.** -/
theorem own_results (s : Handle V) (h : ((lts V).restrict fun s l => cond s l = true).Reachable s) : Own s :=
  (inv_inductive.reachable s h).own

/-! ## Two operations of a lone participant -/

def alone : Handle Nat := ⟨create ⟨fun _ => []⟩ ['g'] ['r', 'a'] [], [], [], [], []⟩

theorem init_alone : init alone := ⟨_, _, _, _, rfl⟩

def twoOps : List (Lbl Nat) := [.submit true (· + ·) 10, .submit false (· + ·) 20]

theorem own_two : ∃ s : Handle Nat, s.returned = [(0, .value 10), (1, .value 20)] ∧ Own s := by
  obtain ⟨s, hx, hr⟩ : ∃ s, LTS.exec (LTS.guarded step fun s l => cond s l = true) alone
      (twoOps ++ [.get 0, .get 1]) = some s ∧ s.returned = [(0, .value 10), (1, .value 20)] := ⟨_, rfl, rfl⟩
  exact ⟨s, hr, own_results s (LTS.restrict_reachable_of_exec init_alone hx)⟩

/-- The second waiter is asked first, and the first one's result is gone. -/
theorem not_own : ∃ s, (lts Nat).Reachable s ∧ ¬ Own s := by
  obtain ⟨s, hx, hres, hf, hb⟩ : ∃ s, LTS.exec step alone (twoOps ++ [.get 1]) = some s ∧ s.results = [10, 20] ∧
      s.fetched = [1] ∧ (s.group.dataBuffers 0).buffer = [] := ⟨_, rfl, rfl, rfl, rfl⟩
  refine ⟨s, LTS.reachable_of_exec init_alone hx, fun h => ?_⟩
  obtain ⟨e, he, -⟩ := h.kept 0 10 (by rw [hres]; rfl) (by rw [hf]; decide)
  rw [hb] at he
  cases he

end Skywing.L3.ReduceWaiters
