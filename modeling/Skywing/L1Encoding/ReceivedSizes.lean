import Skywing.L1Encoding.ReadBounds

/-!
# Sizes in a received value

What a conversion comes to depends on the lengths of the vectors received and
on the sizes that stand in them. `glance` reads what is there and stops where
something ends; `verdict` compares the numbers on the way, `Consistent` says
that all of them match.

Results:
* `deconvert_eq`: a conversion comes to its verdict.
* `clean_of_consistent`, `consistent_of_fine`: consistent sizes are never read
  beyond and leave nothing over, and nothing else does so unstopped.
* `guarded_deconvert_iff`: the values that are converted back safely.
-/
namespace Skywing.PubSub.Bounds

open Verdict

/-! ## What is there -/

section Lists

variable {α β : Type}

/-- As far as there is both a key and a value. -/
def assignZip [DecidableEq α] (ks : List α) (vs : List β) (m : AList fun _ : α => β) : AList fun _ : α => β :=
  (ks.zip vs).foldl (fun m e => m.assign e.1 e.2) m

theorem assignAll_eq [DecidableEq α] : ∀ (ks : List α) (vs : List β) (m : AList fun _ : α => β),
    assignAll ks vs m = (ofSizes ks.length vs.length).outcome (assignZip ks vs m)
  | [], vs, m => by cases vs <;> rfl
  | _ :: _, [], _ => rfl
  | k :: ks, v :: vs, m => by
    have h : ofSizes (k :: ks).length (v :: vs).length = ofSizes ks.length vs.length := by
      simp [ofSizes]
    rw [h]
    exact assignAll_eq ks vs (m.assign k v)

theorem mapM_refused (f : Nat → Option β) (l : List Nat) :
    (l.mapM fun i => (f i).elim (.error .refused : Except Fault β) .ok) =
      (if l.all fun i => (f i).isSome then fine else short).outcome (l.filterMap f) := by
  induction l with
  | nil => rfl
  | cons i l ih =>
    rw [List.mapM_cons, ih]
    cases hf : f i with
    | none => simp [hf]; rfl
    | some y =>
      simp only [List.all_cons, hf, Option.isSome_some, Bool.true_and, List.filterMap_cons]
      exact outcome_map (y :: ·)

end Lists

/-- Every column has `n` elements. -/
def columnsReach (n : Nat) : (ts : List Ty) → Ty.vals (ts.map Ty.vector) → Bool
  | [], _ => true
  | _ :: ts, swapped => decide (n ≤ List.length swapped.1) && columnsReach n ts swapped.2

theorem rowAt_isSome (i : Nat) : ∀ (ts : List Ty) (swapped : Ty.vals (ts.map Ty.vector)),
    (rowAt ts swapped i).isSome = columnsReach (i + 1) ts swapped
  | [], _ => rfl
  | t :: ts, swapped => by
    let column : List t.val := swapped.1
    have ih := rowAt_isSome i ts swapped.2
    show ((column[i]?).bind fun x => (rowAt ts swapped.2 i).bind fun xs => some (x, xs)).isSome =
      (decide (i + 1 ≤ column.length) && columnsReach (i + 1) ts swapped.2)
    rw [← ih]
    by_cases hi : i + 1 ≤ column.length
    · rw [List.getElem?_eq_getElem hi, decide_eq_true hi]
      cases rowAt ts swapped.2 i <;> rfl
    · rw [List.getElem?_eq_none (by omega), decide_eq_false hi]
      rfl

theorem all_columnsReach (n : Nat) : ∀ (ts : List Ty) (swapped : Ty.vals (ts.map Ty.vector)),
    (∀ i < n, columnsReach (i + 1) ts swapped = true) ↔ columnsReach n ts swapped = true
  | [], _ => by simp [columnsReach]
  | _ :: ts, swapped => by
    have ih := all_columnsReach n ts swapped.2
    simp only [columnsReach, Bool.and_eq_true, decide_eq_true_eq, ← ih]
    constructor
    · intro h
      refine ⟨?_, fun i hi => (h i hi).2⟩
      rcases Nat.eq_zero_or_pos n with rfl | hn
      · exact Nat.zero_le _
      · have := (h (n - 1) (by omega)).1
        omega
    · intro h i hi
      exact ⟨by omega, h.2 i hi⟩

theorem rows_eq (ts : List Ty) (swapped : Ty.vals (ts.map Ty.vector)) (n : Nat) :
    rows ts swapped n =
      (if columnsReach n ts swapped then fine else short).outcome ((List.range n).filterMap (rowAt ts swapped)) := by
  have hall : ((List.range n).all fun i => (rowAt ts swapped i).isSome) = columnsReach n ts swapped := by
    rw [Bool.eq_iff_iff, ← all_columnsReach]
    simp [rowAt_isSome]
  rw [rows, mapM_refused, hall]

mutual

/-- The value as far as there is one. -/
def glance : {t : Ty} → {p : PS} → Conv t p → p.ty.val → t.val
  | _, _, .scalar _, v => v
  | _, _, .vectorScalar _, v => v
  | _, _, .bytes, v => v
  | _, _, .user c, v => c.deconvert v
  | _, _, @Conv.tuple _ ps each, tup => glanceEach each (tupleParts ps tup)
  | _, _, .map (k := k) keys vals final, out =>
    let bf := glance final out
    let _ := k.decEq
    assignZip (glance keys bf.1) (glance vals bf.2.1) ∅
  | _, q, @Conv.vectorTuple t ts _ _ each final, tup =>
    let swapped := glanceEach each (glance final tup)
    (List.range ((headSize q tup).getD 0)).filterMap (rowAt (t :: ts) swapped)
  | _, _, .nested elem flat final, input =>
    let bf := glance final input
    (List.map UInt32.toNat bf.1).splitLengths (List.map (glance elem) (glance flat bf.2.1))
  | _, _, .vectorUser elem final, input => List.map (glance elem) (glance final input)
  | _, _, .vectorMap elem final, input => List.map (glance elem) (glance final input)

def glanceEach : {ts : List Ty} → {ps : List PS} → ConvList ts ps → Ty.vals (ps.map PS.ty) → Ty.vals ts
  | _, _, .nil, _ => ()
  | _, _, .cons head tail, v => (glance head v.1, glanceEach tail v.2)

end

/-! ## Verdicts -/

mutual

/-- What a conversion comes to, told from the lengths of what is there. -/
def verdict : {t : Ty} → {p : PS} → Conv t p → p.ty.val → Verdict
  | _, _, .scalar _, _ => fine
  | _, _, .vectorScalar _, _ => fine
  | _, _, .bytes, _ => fine
  | _, _, .user _, _ => fine
  | _, _, @Conv.tuple _ ps each, tup => verdictEach each (tupleParts ps tup)
  | _, _, .map keys vals final, out =>
    let bf := glance final out
    (verdict final out).andThen ((verdict keys bf.1).andThen ((verdict vals bf.2.1).andThen
      (ofSizes (List.length (glance keys bf.1)) (List.length (glance vals bf.2.1)))))
  | _, q, @Conv.vectorTuple t ts _ _ each final, tup =>
    let bf := glance final tup
    (verdict final tup).andThen ((verdictEach each bf).andThen
      (match headSize q tup with
        | none => short
        | some n => if columnsReach n (t :: ts) (glanceEach each bf) then fine else short))
  | _, _, .nested elem flat final, input =>
    let bf := glance final input
    let flatVec := glance flat bf.2.1
    let read := (List.map UInt32.toNat bf.1).sum
    (verdict final input).andThen ((verdict flat bf.2.1).andThen
      ((Verdict.all (verdict elem) (List.take read flatVec)).andThen (ofSizes read (List.length flatVec))))
  | _, _, .vectorUser elem final, input =>
    (verdict final input).andThen (Verdict.all (verdict elem) (glance final input))
  | _, _, .vectorMap elem final, input =>
    (verdict final input).andThen (Verdict.all (verdict elem) (glance final input))

def verdictEach : {ts : List Ty} → {ps : List PS} → ConvList ts ps → Ty.vals (ps.map PS.ty) → Verdict
  | _, _, .nil, _ => fine
  | _, _, .cons head tail, v => (verdict head v.1).both (verdictEach tail v.2)

end

theorem bind_outcome {α β : Type} {a b : Verdict} {x : Except Fault α} {y : α} {f : α → Except Fault β} {z : β}
    (hx : x = a.outcome y) (hf : f y = b.outcome z) : (x >>= f) = (a.andThen b).outcome z := by
  rw [hx]
  exact outcome_bind hf

mutual

/-- **A conversion comes to its verdict**, with the value that is there where
it comes to an end. -/
theorem deconvert_eq : {t : Ty} → {p : PS} → (D : Conv t p) → (v : p.ty.val) →
    deconvert D v = (verdict D v).outcome (glance D v)
  | _, _, .scalar _, _ => rfl
  | _, _, .vectorScalar _, _ => rfl
  | _, _, .bytes, _ => rfl
  | _, _, .user _, _ => rfl
  | _, _, @Conv.tuple _ ps each, tup => deconvertEach_eq each (tupleParts ps tup)
  | _, _, .map (k := k) keys vals final, out =>
    let bf := glance final out
    let _ := k.decEq
    bind_outcome (deconvert_eq final out) (bind_outcome (deconvert_eq keys bf.1)
      (bind_outcome (deconvert_eq vals bf.2.1) (assignAll_eq (glance keys bf.1) (glance vals bf.2.1) ∅)))
  | _, q, @Conv.vectorTuple t ts _ _ each final, tup => by
    refine bind_outcome (deconvert_eq final tup) (bind_outcome (deconvertEach_eq each (glance final tup)) ?_)
    cases hn : headSize q tup with
    | none => rfl
    | some n =>
      rw [glance, hn]
      exact rows_eq (t :: ts) (glanceEach each (glance final tup)) n
  | _, _, .nested elem flat final, input =>
    let bf := glance final input
    bind_outcome (deconvert_eq final input) (bind_outcome (deconvert_eq flat bf.2.1)
      (outcome_pieces (deconvert_eq elem) (List.map UInt32.toNat bf.1) (glance flat bf.2.1)))
  | _, _, .vectorUser elem final, input =>
    bind_outcome (deconvert_eq final input) (outcome_mapM (deconvert_eq elem) (glance final input))
  | _, _, .vectorMap elem final, input =>
    bind_outcome (deconvert_eq final input) (outcome_mapM (deconvert_eq elem) (glance final input))

theorem deconvertEach_eq : {ts : List Ty} → {ps : List PS} → (Ds : ConvList ts ps) →
    (v : Ty.vals (ps.map PS.ty)) → deconvertEach Ds v = (verdictEach Ds v).outcome (glanceEach Ds v)
  | _, _, .nil, _ => rfl
  | _, _, .cons head tail, v => by
    rw [deconvertEach, deconvert_eq head v.1, deconvertEach_eq tail v.2]
    exact outcome_both (glance head v.1) (glanceEach tail v.2)

end

/-! ## Consistent sizes -/

mutual

/-- Every map has as many values as keys, and the sizes of every vector of
vectors add up to the number of elements there are. -/
def Consistent : {t : Ty} → {p : PS} → Conv t p → p.ty.val → Prop
  | _, _, .scalar _, _ => True
  | _, _, .vectorScalar _, _ => True
  | _, _, .bytes, _ => True
  | _, _, .user _, _ => True
  | _, _, @Conv.tuple _ ps each, tup => ConsistentEach each (tupleParts ps tup)
  | _, _, .map keys vals final, out =>
    let bf := glance final out
    Consistent keys bf.1 ∧ Consistent vals bf.2.1 ∧
      List.length (glance keys bf.1) = List.length (glance vals bf.2.1)
  | _, _, .vectorTuple each final, tup => ConsistentEach each (glance final tup)
  | _, _, .nested (p := p) elem flat final, input =>
    let bf := glance final input
    let flatVec : List p.ty.val := glance flat bf.2.1
    Consistent flat bf.2.1 ∧ (List.map UInt32.toNat bf.1).sum = flatVec.length ∧ ∀ x ∈ flatVec, Consistent elem x
  | _, _, .vectorUser (p := p) elem final, input =>
    let bf : List p.ty.val := glance final input
    Consistent final input ∧ ∀ x ∈ bf, Consistent elem x
  | _, _, .vectorMap (p := p) elem final, input =>
    let bf : List p.ty.val := glance final input
    Consistent final input ∧ ∀ x ∈ bf, Consistent elem x

def ConsistentEach : {ts : List Ty} → {ps : List PS} → ConvList ts ps → Ty.vals (ps.map PS.ty) → Prop
  | _, _, .nil, _ => True
  | _, _, .cons head tail, v => Consistent head v.1 ∧ ConsistentEach tail v.2

end

/-! A tuple of published types is cut into its parts and nothing else. -/

theorem verdict_native : (n : Native) → {q : PS} → (D : Conv n.ty q) → (v : q.ty.val) → verdict D v = fine
  | .scalar _, _, .scalar _, _ => rfl
  | .vec _, _, .vectorScalar _, _ => rfl
  | .bytes, _, .bytes, _ => rfl

theorem verdictEach_natives : (ns : List Native) → {qs : List PS} → (Ds : ConvList (ns.map Native.ty) qs) →
    (v : Ty.vals (qs.map PS.ty)) → verdictEach Ds v = fine
  | [], _, .nil, _ => rfl
  | n :: ns, _, .cons head tail, v => by
    rw [verdictEach, verdict_native n head, verdictEach_natives ns tail]
    rfl

theorem verdict_ps : (p : PS) → {q : PS} → (D : Conv p.ty q) → (v : q.ty.val) → verdict D v = fine
  | .single n, _, D, v => verdict_native n D v
  | .tuple ns, _, @Conv.tuple _ qs each, tup => verdictEach_natives ns each (tupleParts qs tup)

theorem verdictEach_ps : (ps : List PS) → {qs : List PS} → (Ds : ConvList (ps.map PS.ty) qs) →
    (v : Ty.vals (qs.map PS.ty)) → verdictEach Ds v = fine
  | [], _, .nil, _ => rfl
  | p :: ps, _, .cons head tail, v => by
    rw [verdictEach, verdict_ps p head, verdictEach_ps ps tail]
    rfl

theorem verdict_tuple_ps (ps : List PS) {q : PS} (D : Conv (.tuple (ps.map PS.ty)) q) (v : q.ty.val) :
    verdict D v = fine := by
  cases D with
  | tuple each => exact verdictEach_ps ps each _

mutual

/-- **Consistent sizes are never read beyond**, and nothing is left over. -/
theorem clean_of_consistent : {t : Ty} → {p : PS} → (D : Conv t p) → (v : p.ty.val) → Consistent D v →
    (verdict D v).Clean
  | _, _, .scalar _, _, _ => .inl rfl
  | _, _, .vectorScalar _, _, _ => .inl rfl
  | _, _, .bytes, _, _ => .inl rfl
  | _, _, .user _, _, _ => .inl rfl
  | _, _, @Conv.tuple _ ps each, tup, h => clean_of_consistentEach each (tupleParts ps tup) h
  | _, _, @Conv.map _ _ pk pv _ keys vals final, out, h =>
    have hfinal : verdict final out = fine := verdict_tuple_ps [pk, pv] final out
    have hkeys := clean_of_consistent keys _ h.1
    have hvals := clean_of_consistent vals _ h.2.1
    Clean.andThen (.inl hfinal) (hkeys.andThen (hvals.andThen (clean_ofSizes h.2.2)))
  | _, q, @Conv.vectorTuple t ts ps _ each final, tup, h => by
    have hfinal : verdict final tup = fine := verdict_tuple_ps ps final tup
    have heach := clean_of_consistentEach each (glance final tup) h
    refine Clean.andThen (.inl hfinal) (heach.andThen ?_)
    cases headSize q tup with
    | none => exact .inr rfl
    | some n =>
      dsimp only
      split
      · exact .inl rfl
      · exact .inr rfl
  | _, _, @Conv.nested _ _ pv _ elem flat final, input, h =>
    have hfinal : verdict final input = fine := verdict_tuple_ps [.single (.vec .uint32), pv] final input
    have hflat := clean_of_consistent flat _ h.1
    have helems := clean_all fun x hx => clean_of_consistent elem x (h.2.2 x (List.mem_of_mem_take hx))
    Clean.andThen (.inl hfinal) (hflat.andThen (helems.andThen (clean_ofSizes h.2.1)))
  | _, _, .vectorUser elem final, input, h =>
    (clean_of_consistent final input h.1).andThen (clean_all fun x hx => clean_of_consistent elem x (h.2 x hx))
  | _, _, .vectorMap elem final, input, h =>
    (clean_of_consistent final input h.1).andThen (clean_all fun x hx => clean_of_consistent elem x (h.2 x hx))

theorem clean_of_consistentEach : {ts : List Ty} → {ps : List PS} → (Ds : ConvList ts ps) →
    (v : Ty.vals (ps.map PS.ty)) → ConsistentEach Ds v → (verdictEach Ds v).Clean
  | _, _, .nil, _, _ => .inl rfl
  | _, _, .cons head tail, v, h =>
    (clean_of_consistent head v.1 h.1).both (clean_of_consistentEach tail v.2 h.2)

end

mutual

/-- Where nothing stops the conversion and nothing is left over, the sizes are
consistent. -/
theorem consistent_of_fine : {t : Ty} → {p : PS} → (D : Conv t p) → (v : p.ty.val) → verdict D v = fine →
    Consistent D v
  | _, _, .scalar _, _, _ => trivial
  | _, _, .vectorScalar _, _, _ => trivial
  | _, _, .bytes, _, _ => trivial
  | _, _, .user _, _, _ => trivial
  | _, _, @Conv.tuple _ ps each, tup, h => consistentEach_of_fine each (tupleParts ps tup) h
  | _, _, .map keys vals _, _, h =>
    have ⟨_, h₁⟩ := andThen_eq_fine.mp h
    have ⟨hkeys, h₂⟩ := andThen_eq_fine.mp h₁
    have ⟨hvals, hsizes⟩ := andThen_eq_fine.mp h₂
    ⟨consistent_of_fine keys _ hkeys, consistent_of_fine vals _ hvals, ofSizes_eq_fine.mp hsizes⟩
  | _, _, .vectorTuple each final, tup, h =>
    have ⟨_, h₁⟩ := andThen_eq_fine.mp h
    consistentEach_of_fine each (glance final tup) (andThen_eq_fine.mp h₁).1
  | _, _, .nested elem flat _, _, h =>
    have ⟨_, h₁⟩ := andThen_eq_fine.mp h
    have ⟨hflat, h₂⟩ := andThen_eq_fine.mp h₁
    have ⟨helems, hsizes⟩ := andThen_eq_fine.mp h₂
    have hread := ofSizes_eq_fine.mp hsizes
    have htake := List.take_of_length_le hread.ge
    ⟨consistent_of_fine flat _ hflat, hread,
      fun x hx => consistent_of_fine elem x (all_eq_fine.mp helems x (htake.symm ▸ hx))⟩
  | _, _, .vectorUser elem final, input, h =>
    have ⟨hfinal, helems⟩ := andThen_eq_fine.mp h
    ⟨consistent_of_fine final input hfinal, fun x hx => consistent_of_fine elem x (all_eq_fine.mp helems x hx)⟩
  | _, _, .vectorMap elem final, input, h =>
    have ⟨hfinal, helems⟩ := andThen_eq_fine.mp h
    ⟨consistent_of_fine final input hfinal, fun x hx => consistent_of_fine elem x (all_eq_fine.mp helems x hx)⟩

theorem consistentEach_of_fine : {ts : List Ty} → {ps : List PS} → (Ds : ConvList ts ps) →
    (v : Ty.vals (ps.map PS.ty)) → verdictEach Ds v = fine → ConsistentEach Ds v
  | _, _, .nil, _, _ => trivial
  | _, _, .cons head tail, v, h =>
    have ⟨hhead, htail⟩ := both_eq_fine.mp h
    ⟨consistent_of_fine head v.1 hhead, consistentEach_of_fine tail v.2 htail⟩

end

/-! ## Which values are converted back safely -/

/-- A conversion that may stop reads nothing beyond an end and returns a value
only where the sizes are consistent. -/
def Guarded {α : Type} (x : Except Fault α) (consistent : Prop) : Prop :=
  x ≠ .error .overran ∧ ∀ y, x = .ok y → consistent

theorem guarded_iff {α : Type} {a : Verdict} {x : α} {consistent : Prop} (h : consistent → a.Clean) :
    Guarded (a.outcome x) consistent ↔ consistent ∨ a = short := by
  constructor
  · intro hg
    obtain ⟨hne, hok⟩ := hg
    cases a with
    | fine => exact .inl (hok x rfl)
    | leftOver => exact .inl (hok x rfl)
    | short => exact .inr rfl
    | beyond => exact absurd rfl hne
  · intro hor
    rcases hor with hc | hs
    · refine ⟨outcome_ne_overran.mpr fun hb => ?_, fun _ _ => hc⟩
      rcases h hc with hf | hs
      · exact nomatch hb.symm.trans hf
      · exact nomatch hb.symm.trans hs
    · rw [hs]
      exact ⟨nofun, nofun⟩

/-- A value is converted back safely exactly where its sizes are consistent or
a checked access stops the conversion first. -/
theorem guarded_deconvert_iff {t : Ty} {p : PS} (D : Conv t p) (v : p.ty.val) :
    Guarded (deconvert D v) (Consistent D v) ↔ Consistent D v ∨ verdict D v = short := by
  rw [deconvert_eq]
  exact guarded_iff (clean_of_consistent D v)

end Skywing.PubSub.Bounds
