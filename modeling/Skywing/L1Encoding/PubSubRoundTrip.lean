import Skywing.L1Encoding.PubSubConverter

/-!
# Round trips of converted values (`skywing_mid/pubsub_converter.hpp`)

Results:
* `tupleEntries_tupleCat`, `extractNthTuple_entries`: a flattened tuple is the
  concatenation of its converted components, and the offsets computed from
  the published types cut exactly the `N`th one out.
* `headSize_convert`: the first component of a converted vector is a vector of
  as many elements, so the loop of `PubSubConverter<std::vector<std::tuple>>`
  runs once for each of them.
* `unflatten_map`: sizes below 2^32 recover the vector of vectors.
-/
namespace Skywing.PubSub

/-! ## Cutting a flat tuple -/

@[simp] theorem length_tupleEntries : ∀ (ns : List Native) (v : Ty.vals (ns.map Native.ty)),
    (tupleEntries ns v).length = ns.length
  | [], _ => rfl
  | _ :: ns, v => congrArg (· + 1) (length_tupleEntries ns v.2)

@[simp] theorem length_entries (p : PS) (v : p.ty.val) : (p.entries v).length = sizeOfConverted p := by
  cases p with
  | single n => rfl
  | tuple ns => exact length_tupleEntries ns v

theorem tupleEntries_toTuple (p : PS) (v : p.ty.val) : tupleEntries p.natives (p.toTuple v) = p.entries v := by
  cases p with
  | single n => rfl
  | tuple ns => rfl

theorem tupleEntries_append : ∀ (ns : List Native) {ms : List Native} (v : Ty.vals (ns.map Native.ty))
    (w : Ty.vals (ms.map Native.ty)),
    tupleEntries (ns ++ ms) (tupleAppend ns v w) = tupleEntries ns v ++ tupleEntries ms w
  | [], _, _, _ => rfl
  | _ :: ns, _, v, w => congrArg (_ :: ·) (tupleEntries_append ns v.2 w)

/-- The entries of every component, one after the other. -/
def entriesEach : (ps : List PS) → Ty.vals (ps.map PS.ty) → List NativeVal
  | [], _ => []
  | p :: ps, v => p.entries v.1 ++ entriesEach ps v.2

theorem tupleEntries_tupleCat : ∀ (ps : List PS) (v : Ty.vals (ps.map PS.ty)),
    tupleEntries (catNatives ps) (tupleCat ps v) = entriesEach ps v
  | [], _ => rfl
  | p :: ps, v => by
    have h := tupleEntries_append p.natives (p.toTuple v.1) (tupleCat ps v.2)
    rw [tupleEntries_toTuple, tupleEntries_tupleCat ps v.2] at h
    exact h

theorem tupleOf_tupleEntries : ∀ (ns : List Native) (v : Ty.vals (ns.map Native.ty)),
    tupleOf ns (tupleEntries ns v) = some v
  | [], _ => rfl
  | n :: ns, v => by
    simp only [tupleEntries, tupleOf, dite_true]
    rw [tupleOf_tupleEntries ns v.2]
    rfl

theorem removeTupleIfSingle_entries (p : PS) (v : p.ty.val) :
    removeTupleIfSingle p (p.entries v) = some v := by
  cases p with
  | single n =>
    simp only [removeTupleIfSingle, PS.entries, tupleOf, dite_true]
    rfl
  | tuple ns => exact tupleOf_tupleEntries ns v

/-- The computed offsets are those of the concatenation. -/
theorem extractNthTuple_entries {pre : List PS} {front back : List NativeVal} (p : PS) (v : p.ty.val)
    (h : front.length = sizeOfFirstN pre) :
    extractNthTuple pre p (front ++ p.entries v ++ back) = p.entries v := by
  rw [extractNthTuple, List.append_assoc, ← h, List.drop_left, ← length_entries p v, List.take_left]

theorem length_append_entries {pre : List PS} {front : List NativeVal} (p : PS) (v : p.ty.val)
    (h : front.length = sizeOfFirstN pre) : (front ++ p.entries v).length = sizeOfFirstN (pre ++ [p]) := by
  simp [sizeOfFirstN, h]

/-- The first element is cut out and converted, then the others. -/
theorem deconvertImpl_cons {t : Ty} {p : PS} {ts : List Ty} {ps : List PS} {pre : List PS} (head : Conv t p)
    (tail : ConvList ts ps) (v : p.ty.val) {front : List NativeVal} (rest back : List NativeVal)
    (h : front.length = sizeOfFirstN pre) :
    deconvertImpl pre (.cons head tail) (front ++ (p.entries v ++ rest) ++ back) =
      (deconvert head v).bind fun x =>
        (deconvertImpl (pre ++ [p]) tail (front ++ p.entries v ++ rest ++ back)).bind fun xs => some (x, xs) := by
  have heq : front ++ (p.entries v ++ rest) ++ back = front ++ p.entries v ++ (rest ++ back) := by
    simp only [List.append_assoc]
  show ((removeTupleIfSingle p (extractNthTuple pre p (front ++ (p.entries v ++ rest) ++ back))).bind fun arg =>
    (deconvert head arg).bind fun x =>
      (deconvertImpl (pre ++ [p]) tail (front ++ (p.entries v ++ rest) ++ back)).bind fun xs => some (x, xs)) = _
  rw [heq, extractNthTuple_entries p v h, removeTupleIfSingle_entries, Option.bind_some, ← List.append_assoc]

/-! ## The loops -/

theorem bind_eq_some {α β : Type} {x : Option α} {f : α → Option β} {a : α} {b : β} (hx : x = some a)
    (hf : f a = some b) : x.bind f = some b :=
  Option.bind_eq_some_iff.mpr ⟨a, hx, hf⟩

theorem mapM_map {α β : Type} {f : α → Option β} {g : β → α} {l : List β} (h : ∀ b ∈ l, f (g b) = some b) :
    (l.map g).mapM f = some l := by
  induction l with
  | nil => rfl
  | cons b l ih =>
    rw [List.map_cons, List.mapM_cons, h b List.mem_cons_self, ih fun c hc => h c (List.mem_cons_of_mem _ hc)]
    rfl

theorem rowAt_columns : ∀ (ts : List Ty) (rows : List (Ty.vals ts)) (i : Nat), i < rows.length →
    rowAt ts (columns ts rows) i = rows[i]?
  | [], rows, i, h => (List.getElem?_eq_getElem h).symm
  | t :: ts, (rows : List (t.val × Ty.vals ts)), i, h => by
    have hl : i < (rows.map Prod.snd).length := by rwa [List.length_map]
    have ih := rowAt_columns ts (rows.map Prod.snd) i hl
    have hr : rows[i]? = some rows[i] := List.getElem?_eq_getElem h
    have hc : (rows.map Prod.fst)[i]? = some rows[i].1 := by rw [List.getElem?_map, hr, Option.map_some]
    rw [List.getElem?_map, hr, Option.map_some] at ih
    simp only [rowAt, columns]
    rw [hc, ih]
    exact hr.symm

theorem mapM_range' {α : Type} {f : Nat → Option α} {l : List α} {s : Nat}
    (h : ∀ i < l.length, f (s + i) = l[i]?) : (List.range' s l.length).mapM f = some l := by
  induction l generalizing s with
  | nil => rfl
  | cons a l ih =>
    have h₀ : f s = some a := h 0 (Nat.zero_lt_succ _)
    have hs : (List.range' (s + 1) l.length).mapM f = some l := by
      apply ih
      intro i hi
      rw [Nat.add_assoc, Nat.add_comm 1 i]
      exact h (i + 1) (Nat.succ_lt_succ hi)
    rw [List.length_cons, List.range'_succ, List.mapM_cons, h₀, hs]
    rfl

theorem subvec_map {α β : Type} {f : α → Option β} {g : β → α} {l : List β} (h : ∀ b ∈ l, f (g b) = some b)
    (flat : List α) : subvec f l.length (l.map g ++ flat) = some (l, flat) := by
  induction l with
  | nil => rfl
  | cons b l ih =>
    rw [List.length_cons, List.map_cons, List.cons_append, subvec, h b List.mem_cons_self,
      ih fun c hc => h c (List.mem_cons_of_mem _ hc)]
    rfl

/-- **The sizes recover the nesting** while they fit into 32 bits. -/
theorem unflatten_map {α β : Type} {f : α → Option β} {g : β → α} {vv : List (List β)}
    (hs : ∀ inner ∈ vv, inner.length < 2 ^ 32) (h : ∀ inner ∈ vv, ∀ b ∈ inner, f (g b) = some b) :
    unflatten f (vv.map fun inner => UInt32.ofNat inner.length) (vv.flatMap fun inner => inner.map g) =
      some vv := by
  induction vv with
  | nil => rfl
  | cons inner vv ih =>
    have hn : (UInt32.ofNat inner.length).toNat = inner.length :=
      UInt32.toNat_ofNat_of_lt' (hs inner List.mem_cons_self)
    rw [List.map_cons, List.flatMap_cons, unflatten, hn, subvec_map (h inner List.mem_cons_self),
      Option.bind_eq_bind, Option.bind_some,
      ih (fun i hi => hs i (List.mem_cons_of_mem _ hi)) fun i hi => h i (List.mem_cons_of_mem _ hi)]
    rfl

theorem assignAll_entries {α β : Type} [DecidableEq α] : ∀ (l : List (Σ _ : α, β)) (m : AList fun _ : α => β)
    (h : (m.entries ++ l).NodupKeys),
    assignAll (l.map Sigma.fst) (l.map Sigma.snd) m = some ⟨m.entries ++ l, h⟩
  | [], m, h => congrArg some (AList.ext (List.append_nil _).symm)
  | e :: l, m, h => by
    have hk : e.1 ∉ m := by
      have h' := List.nodupKeys_middle.mp h
      have := List.notMem_keys_of_nodupKeys_cons h'
      rw [List.keys_append] at this
      exact fun hm => this (List.mem_append_left _ hm)
    have he := AList.entries_assign_of_notMem (v := e.2) hk
    have h' : ((m.assign e.1 e.2).entries ++ l).NodupKeys := by
      rw [he, List.append_assoc]
      exact h
    have ih := assignAll_entries l (m.assign e.1 e.2) h'
    rw [List.map_cons, List.map_cons, assignAll, ih]
    apply congrArg some
    apply AList.ext
    show (m.assign e.1 e.2).entries ++ l = m.entries ++ e :: l
    rw [he, List.append_assoc]
    rfl

/-! ## Published types are converted to themselves

The tuple that a specialisation forms out of published types is flattened and
nothing else. -/

theorem entries_convert_native : (n : Native) → {q : PS} → (D : Conv n.ty q) → (v : n.ty.val) →
    q.entries (convert D v) = [⟨n, v⟩]
  | .scalar _, _, .scalar _, _ => rfl
  | .vec _, _, .vectorScalar _, _ => rfl
  | .bytes, _, .bytes, _ => rfl

theorem entriesEach_convert_natives : (ns : List Native) → {qs : List PS} →
    (Ds : ConvList (ns.map Native.ty) qs) → (v : Ty.vals (ns.map Native.ty)) →
    entriesEach qs (convertEach Ds v) = tupleEntries ns v
  | [], _, .nil, _ => rfl
  | n :: ns, _, .cons head tail, v => by
    show _ ++ entriesEach _ (convertEach tail v.2) = _
    rw [entriesEach_convert_natives ns tail v.2]
    exact congrArg (· ++ tupleEntries ns v.2) (entries_convert_native n head v.1)

theorem entries_convert_ps : (p : PS) → {q : PS} → (D : Conv p.ty q) → (v : p.ty.val) →
    q.entries (convert D v) = p.entries v
  | .single n, _, D, v => entries_convert_native n D v
  | .tuple ns, _, @Conv.tuple _ qs each, v =>
    (tupleEntries_tupleCat qs (convertEach each v)).trans (entriesEach_convert_natives ns each v)

theorem entriesEach_convert_ps : (ps : List PS) → {qs : List PS} → (Ds : ConvList (ps.map PS.ty) qs) →
    (v : Ty.vals (ps.map PS.ty)) → entriesEach qs (convertEach Ds v) = entriesEach ps v
  | [], _, .nil, _ => rfl
  | p :: ps, _, .cons head tail, v => by
    show _ ++ entriesEach _ (convertEach tail v.2) = _ ++ entriesEach ps v.2
    rw [entriesEach_convert_ps ps tail v.2]
    exact congrArg (· ++ entriesEach ps v.2) (entries_convert_ps p head v.1)

/-- What `PubSubConverter<before_final_t>` does to a tuple of published
types. -/
theorem entries_convert_tuple (ps : List PS) {q : PS} (D : Conv (.tuple (ps.map PS.ty)) q)
    (v : Ty.vals (ps.map PS.ty)) : q.entries (convert D v) = entriesEach ps v := by
  cases D with
  | tuple each => exact (tupleEntries_tupleCat _ (convertEach each v)).trans (entriesEach_convert_ps ps each v)

/-! ## The first component of a converted vector -/

def Ty.length? : (t : Ty) → t.val → Option Nat
  | .vector _, v => some (List.length v)
  | _, _ => none

/-- The length of the first of several vectors. -/
def headLength? : (ts : List Ty) → Ty.vals ts → Option Nat
  | [], _ => none
  | t :: _, v => t.length? v.1

theorem head_entriesEach {p : PS} {ps : List PS} {v : Ty.vals ((p :: ps).map PS.ty)} {n : Nat}
    (h : headSize p v.1 = some n) : (entriesEach (p :: ps) v).head?.bind NativeVal.size? = some n := by
  unfold headSize at h
  show (p.entries v.1 ++ entriesEach ps v.2).head?.bind NativeVal.size? = some n
  cases hp : p.entries v.1 with
  | nil => rw [hp] at h; cases h
  | cons e es => rw [hp] at h; exact h

theorem headSize_convert_tuple {ps : List PS} {q : PS} (D : Conv (.tuple (ps.map PS.ty)) q)
    {v : Ty.vals (ps.map PS.ty)} {n : Nat}
    (h : (entriesEach ps v).head?.bind NativeVal.size? = some n) : headSize q (convert D v) = some n := by
  rw [headSize, entries_convert_tuple ps D v]
  exact h

mutual

theorem headSize_convert {t : Ty} {p : PS} {n : Nat} : (D : Conv t p) → (v : t.val) →
    t.length? v = some n → headSize p (convert D v) = some n
  | .scalar _, _, h => nomatch h
  | .vectorScalar _, _, h => h
  | .bytes, _, h => nomatch h
  | .user _, _, h => nomatch h
  | .tuple _, _, h => nomatch h
  | .map _ _ _, _, h => nomatch h
  | @Conv.vectorTuple t ts _ _ each final, rows, h =>
    headSize_convert_tuple final (headSize_convertEach each (columns (t :: ts) rows)
      ((congrArg some (List.length_map _)).trans h))
  | .nested _ _ final, _, h =>
    @headSize_convert_tuple [.single (.vec .uint32), _] _ final _ _
      ((congrArg some (List.length_map _)).trans h)
  | .vectorUser _ final, _, h => headSize_convert final _ ((congrArg some (List.length_map _)).trans h)
  | .vectorMap _ final, _, h => headSize_convert final _ ((congrArg some (List.length_map _)).trans h)

theorem headSize_convertEach {ts : List Ty} {ps : List PS} {n : Nat} : (Ds : ConvList ts ps) →
    (v : Ty.vals ts) → headLength? ts v = some n →
    (entriesEach ps (convertEach Ds v)).head?.bind NativeVal.size? = some n
  | .nil, _, h => nomatch h
  | .cons head _, v, h => head_entriesEach (headSize_convert head v.1 h)

end

/-! ## Round trip -/

mutual

/-- Every inner vector that a conversion of a vector of vectors meets has
fewer than 2^32 elements: the inner vectors of the value itself, and those of
the vectors of vectors formed from converted elements. -/
def Fits : {t : Ty} → {p : PS} → Conv t p → t.val → Prop
  | _, _, .scalar _, _ => True
  | _, _, .vectorScalar _, _ => True
  | _, _, .bytes, _ => True
  | _, _, .user _, _ => True
  | _, _, .tuple each, v => FitsEach each v
  | _, _, .map keys vals _, (m : AList _) =>
    Fits keys (m.entries.map Sigma.fst) ∧ Fits vals (m.entries.map Sigma.snd)
  | _, _, @Conv.vectorTuple t ts _ _ each _, rows => FitsEach each (columns (t :: ts) rows)
  | _, _, .nested (t := t) elem flat _, (v : List (List t.val)) =>
    (∀ inner ∈ v, inner.length < 2 ^ 32) ∧ (∀ inner ∈ v, ∀ x ∈ inner, Fits elem x) ∧
      Fits flat (v.flatMap fun inner => inner.map (convert elem))
  | _, _, .vectorUser elem final, v => Fits final (v.map (convert elem))
  | _, _, .vectorMap (k := k) (v := w) elem final, (v : List (Ty.map k w).val) =>
    (∀ m ∈ v, Fits elem m) ∧ Fits final (v.map (convert elem))

def FitsEach : {ts : List Ty} → {ps : List PS} → ConvList ts ps → Ty.vals ts → Prop
  | _, _, .nil, _ => True
  | _, _, .cons head tail, v => Fits head v.1 ∧ FitsEach tail v.2

end

theorem fits_user {α : Type} {dec : DecidableEq α} {p : PS} (D : Conv (.user α dec) p) (v : α) :
    Fits D v := by
  cases D with
  | user c => trivial

theorem fits_native : (n : Native) → {q : PS} → (D : Conv n.ty q) → (v : n.ty.val) → Fits D v
  | .scalar _, _, .scalar _, _ => trivial
  | .vec _, _, .vectorScalar _, _ => trivial
  | .bytes, _, .bytes, _ => trivial

theorem fitsEach_natives : (ns : List Native) → {qs : List PS} → (Ds : ConvList (ns.map Native.ty) qs) →
    (v : Ty.vals (ns.map Native.ty)) → FitsEach Ds v
  | [], _, .nil, _ => trivial
  | n :: ns, _, .cons head tail, v => ⟨fits_native n head v.1, fitsEach_natives ns tail v.2⟩

theorem fits_ps : (p : PS) → {q : PS} → (D : Conv p.ty q) → (v : p.ty.val) → Fits D v
  | .single n, _, D, v => fits_native n D v
  | .tuple ns, _, .tuple each, v => fitsEach_natives ns each v

theorem fitsEach_ps : (ps : List PS) → {qs : List PS} → (Ds : ConvList (ps.map PS.ty) qs) →
    (v : Ty.vals (ps.map PS.ty)) → FitsEach Ds v
  | [], _, .nil, _ => trivial
  | p :: ps, _, .cons head tail, v => ⟨fits_ps p head v.1, fitsEach_ps ps tail v.2⟩

theorem fits_tuple_ps (ps : List PS) {q : PS} (D : Conv (.tuple (ps.map PS.ty)) q)
    (v : Ty.vals (ps.map PS.ty)) : Fits D v := by
  cases D with
  | tuple each => exact fitsEach_ps ps each v

mutual

/-- **Round trip.** -/
theorem deconvert_convert : {t : Ty} → {p : PS} → (D : Conv t p) → (v : t.val) → Fits D v →
    deconvert D (convert D v) = some v
  | _, _, .scalar _, _, _ => rfl
  | _, _, .vectorScalar _, _, _ => rfl
  | _, _, .bytes, _, _ => rfl
  | _, _, .user c, v, _ => congrArg some (c.deconvert_convert v)
  | _, _, @Conv.tuple _ ps each, v, h => by
    have ih := deconvertImpl_convertEach [] each v h [] [] rfl
    rw [List.append_nil, List.nil_append] at ih
    show deconvertImpl [] each (tupleEntries _ (tupleCat ps (convertEach each v))) = some v
    rw [tupleEntries_tupleCat]
    exact ih
  | _, _, .map (k := k) (v := w) keys vals final, (m : AList fun _ : k.val => w.val), h => by
    let ks := m.entries.map Sigma.fst
    let vs := m.entries.map Sigma.snd
    let bf : Ty.vals ([_, _].map PS.ty) := (convert keys ks, convert vals vs, ())
    have hbf := deconvert_convert final bf (fits_tuple_ps [_, _] final bf)
    have hk := deconvert_convert keys ks h.1
    have hv := deconvert_convert vals vs h.2
    let _ := k.decEq
    show ((deconvert final (convert final bf)).bind fun b => (deconvert keys b.1).bind fun ks' =>
      (deconvert vals b.2.1).bind fun vs' => assignAll ks' vs' ∅) = some m
    refine bind_eq_some hbf (bind_eq_some hk (bind_eq_some hv ?_))
    exact assignAll_entries m.entries ∅ m.nodupKeys
  | _, q, @Conv.vectorTuple t ts ps _ each final, rows, h => by
    let cols := columns (t :: ts) rows
    have hbf := deconvert_convert final (convertEach each cols) (fits_tuple_ps ps final _)
    have hc := deconvertEach_convertEach each cols h
    have hn : headSize q (convert final (convertEach each cols)) = some (List.length rows) :=
      headSize_convert (.vectorTuple each final) rows rfl
    show ((deconvert final (convert final (convertEach each cols))).bind fun bf =>
      (deconvertEach each bf).bind fun swapped =>
        (headSize q (convert final (convertEach each cols))).bind fun n =>
          (List.range n).mapM (rowAt (t :: ts) swapped)) = some rows
    refine bind_eq_some hbf (bind_eq_some hc (bind_eq_some hn ?_))
    rw [List.range_eq_range']
    apply mapM_range'
    intro i hi
    rw [Nat.zero_add]
    exact rowAt_columns (t :: ts) rows i hi
  | _, _, .nested (t := t) elem flat final, (v : List (List t.val)), h => by
    let sizes := v.map fun inner => UInt32.ofNat inner.length
    let flatVec := v.flatMap fun inner => inner.map (convert elem)
    let bf : Ty.vals ([.single (.vec .uint32), _].map PS.ty) := (sizes, convert flat flatVec, ())
    have hbf := deconvert_convert final bf (fits_tuple_ps [.single (.vec .uint32), _] final bf)
    have hf := deconvert_convert flat flatVec h.2.2
    show ((deconvert final (convert final bf)).bind fun b => (deconvert flat b.2.1).bind fun f =>
      unflatten (deconvert elem) b.1 f) = some v
    refine bind_eq_some hbf (bind_eq_some hf ?_)
    exact unflatten_map h.1 fun inner hi x hx => deconvert_convert elem x (h.2.1 inner hi x hx)
  | _, _, .vectorUser (α := α) elem final, (v : List α), h => by
    have hbf := deconvert_convert final (v.map (convert elem)) h
    show ((deconvert final (convert final (v.map (convert elem)))).bind fun bf =>
      List.mapM (deconvert elem) bf) = some v
    refine bind_eq_some hbf ?_
    exact mapM_map fun x _ => deconvert_convert elem x (fits_user elem x)
  | _, _, .vectorMap (k := k) (v := w) elem final, (v : List (Ty.map k w).val), h => by
    have hbf := deconvert_convert final (v.map (convert elem)) h.2
    show ((deconvert final (convert final (v.map (convert elem)))).bind fun bf =>
      List.mapM (deconvert elem) bf) = some v
    refine bind_eq_some hbf ?_
    exact mapM_map fun m hm => deconvert_convert elem m (h.1 m hm)

theorem deconvertImpl_convertEach : {ts : List Ty} → {ps : List PS} → (pre : List PS) →
    (Ds : ConvList ts ps) → (v : Ty.vals ts) → FitsEach Ds v → (front back : List NativeVal) →
    front.length = sizeOfFirstN pre →
    deconvertImpl pre Ds (front ++ entriesEach ps (convertEach Ds v) ++ back) = some v
  | _, _, _, .nil, _, _, _, _, _ => rfl
  | _, _, pre, @ConvList.cons _ p _ ps head tail, v, h, front, back, hf => by
    let es := p.entries (convert head v.1)
    let rest := entriesEach ps (convertEach tail v.2)
    have hl : (front ++ es).length = sizeOfFirstN (pre ++ [p]) := length_append_entries p _ hf
    have ih := deconvertImpl_convertEach (pre ++ [p]) tail v.2 h.2 (front ++ es) back hl
    show deconvertImpl pre (.cons head tail) (front ++ (es ++ rest) ++ back) = some v
    rw [deconvertImpl_cons head tail _ rest back hf]
    exact bind_eq_some (deconvert_convert head v.1 h.1) (bind_eq_some ih rfl)

theorem deconvertEach_convertEach : {ts : List Ty} → {ps : List PS} → (Ds : ConvList ts ps) →
    (v : Ty.vals ts) → FitsEach Ds v → deconvertEach Ds (convertEach Ds v) = some v
  | _, _, .nil, _, _ => rfl
  | _, _, .cons head tail, v, h => by
    show ((deconvert head (convert head v.1)).bind fun x =>
      (deconvertEach tail (convertEach tail v.2)).bind fun xs => some (x, xs)) = some v
    exact bind_eq_some (deconvert_convert head v.1 h.1) (bind_eq_some (deconvertEach_convertEach tail v.2 h.2) rfl)

end

end Skywing.PubSub
