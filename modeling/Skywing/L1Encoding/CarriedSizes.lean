import Skywing.L1Encoding.TupleComponents

/-!
# The sizes a message carries

A message is made of texts and lists, and Cap'n Proto bounds their lengths.
The vectors of a published tuple are lists of the message, so that a message
that can be made holds no long vector, and the 32-bit sizes that
`PubSubConverter` publishes beside a flattened vector are exact.

* `sizes_setPublishData`: the sizes of a message are those of the tuple
  published, its length and that of its tag.
* `fits_of_small`: a value fits if the vectors of what it is converted to are
  shorter than 2^32, whatever vectors the conversion builds on the way.
-/
namespace Skywing.PubSub

open L1.Published

/-! ## Sizes -/

def scalarSizes : (s : Scalar) → s.val → List Nat
  | .string, text => [List.length (α := Char) text]
  | _, _ => []

/-- The length of a vector and the sizes in it. -/
def nativeSizes : (n : Native) → n.val → List Nat
  | .scalar s, x => scalarSizes s x
  | .vec s, xs => List.length (α := s.val) xs :: List.flatMap (scalarSizes s) xs
  | .bytes, bs => [List.length (α := UInt8) bs]

def NativeVal.sizes (e : NativeVal) : List Nat := nativeSizes e.1 (cast e.1.val_ty e.2)

def suffixSizes : (s : Suffix) → s.Val → List Nat
  | .str, text => [List.length (α := Char) text]
  | _, _ => []

/-- The sizes of the lists and texts in a field of the union. -/
def fieldSizes : PublishValue → List Nat
  | ⟨.plain s, x⟩ => suffixSizes s x
  | ⟨.list s, xs⟩ => List.length (α := s.Val) xs :: List.flatMap (suffixSizes s) xs
  | ⟨.bytes, bs⟩ => [List.length (α := UInt8) bs]

def dataSizes (r : PublishData) : List Nat :=
  r.tagID.length :: r.value.length :: r.value.flatMap fieldSizes

def variantSizes (v : PublishValueVariant) : List Nat := nativeSizes (publishValueTypeList.get v.1) v.2

theorem suffixSizes_set (e : Scalar) (x : e.val) : suffixSizes e.suffix (e.set x) = scalarSizes e x := by
  cases e <;> rfl

theorem sizes_setList (e : Scalar) (vs : List e.val) :
    (setList e.set vs).length :: (setList e.set vs).flatMap (suffixSizes e.suffix) =
      vs.length :: vs.flatMap (scalarSizes e) := by
  rw [setList_eq, List.length_map, List.flatMap_map]
  exact congrArg (vs.length :: ·) (List.flatMap_congr fun x _ => suffixSizes_set e x)

theorem fieldSizes_set (t : Native) (v : t.val) : fieldSizes (PublishValueHandler.set t v) = nativeSizes t v := by
  cases t with
  | scalar e => exact suffixSizes_set e v
  | vec e => exact sizes_setList e v
  | bytes => rfl

theorem sizes_setPublishData (version : VersionID) (tagId : TagID) (value : List PublishValueVariant) :
    dataSizes (setPublishData version tagId value) = tagId.length :: value.length :: value.flatMap variantSizes := by
  unfold dataSizes setPublishData
  dsimp only
  rw [setList_eq, List.length_map, List.flatMap_map]
  exact congrArg (tagId.length :: value.length :: ·) (List.flatMap_congr fun v _ => fieldSizes_set _ v.2)

theorem variantSizes_toVariant (t : Native) (v : t.val) : variantSizes (toVariant t v) = nativeSizes t v := by
  have hsame : ∀ (u : Native) (h : t = u), nativeSizes u (cast (congrArg Native.val h) v) = nativeSizes t v := by
    rintro u rfl
    rfl
  exact hsame _ (get_indexOf t).symm

theorem sizes_publishTuple : ∀ (ns : List Native) (v : Ty.vals (ns.map Native.ty)),
    (publishTuple ns v).flatMap variantSizes = (tupleEntries ns v).flatMap NativeVal.sizes
  | [], _ => rfl
  | n :: ns, v => by
    show variantSizes (toVariant n (cast n.val_ty v.1)) ++ (publishTuple ns v.2).flatMap variantSizes = _
    rw [variantSizes_toVariant, sizes_publishTuple ns v.2]
    rfl

/-! ## Short vectors -/

/-- All sizes fit 32 bits. -/
def Small (es : List NativeVal) : Prop := ∀ e ∈ es, ∀ k ∈ e.sizes, k < 2 ^ 32

theorem Small.left {es fs : List NativeVal} (h : Small (es ++ fs)) : Small es :=
  fun e he => h e (List.mem_append_left _ he)

theorem Small.right {es fs : List NativeVal} (h : Small (es ++ fs)) : Small fs :=
  fun e he => h e (List.mem_append_right _ he)

theorem size?_mem_sizes {e : NativeVal} {n : Nat} (h : e.size? = some n) : n ∈ e.sizes := by
  obtain ⟨m, x⟩ := e
  cases m with
  | scalar s =>
    cases s with
    | string =>
      cases h
      exact List.mem_singleton_self _
    | _ => cases h
  | vec s =>
    cases h
    exact List.mem_cons_self
  | bytes =>
    cases h
    exact List.mem_singleton_self _

theorem Small.headSize_lt {p : PS} {v : p.ty.val} {n : Nat} (h : Small (p.entries v))
    (hn : headSize p v = some n) : n < 2 ^ 32 := by
  obtain ⟨e, he, hsize⟩ := Option.bind_eq_some_iff.mp hn
  exact h e (List.mem_of_mem_head? he) n (size?_mem_sizes hsize)

/-- The pair of published types that a specialisation forms. -/
theorem small_pair (pa pb : PS) {q : PS} (final : Conv (.tuple [pa.ty, pb.ty]) q) {x : pa.ty.val} {y : pb.ty.val}
    (h : Small (q.entries (convert final (x, y, ())))) : Small (pa.entries x) ∧ Small (pb.entries y) := by
  have hentries : q.entries (convert final (x, y, ())) = pa.entries x ++ (pb.entries y ++ []) :=
    entries_convert_tuple [pa, pb] final (x, y, ())
  rw [hentries] at h
  exact ⟨h.left, h.right.left⟩

theorem length_le_flatMap {α β : Type} {f : α → List β} {l : List α} {a : α} (h : a ∈ l) :
    (f a).length ≤ (l.flatMap f).length := by
  rw [List.flatMap_def]
  exact (List.sublist_flatten_of_mem (List.mem_map_of_mem h)).length_le

/-- A piece of a vector is as small as the vector. -/
theorem small_of_mem_flatten {s : Scalar} {l : List (List s.val)} (h : Small [(⟨.vec s, l.flatten⟩ : NativeVal)])
    {x : List s.val} (hx : x ∈ l) : Small [(⟨.vec s, x⟩ : NativeVal)] := by
  have hflat : ∀ k ∈ l.flatten.length :: l.flatten.flatMap (scalarSizes s), k < 2 ^ 32 :=
    h _ (List.mem_singleton_self _)
  have hpiece : ∀ k ∈ x.length :: x.flatMap (scalarSizes s), k < 2 ^ 32 := by
    have hsub := List.sublist_flatten_of_mem hx
    intro k hk
    obtain rfl | hk := List.mem_cons.mp hk
    · exact Nat.lt_of_le_of_lt hsub.length_le (hflat _ List.mem_cons_self)
    · obtain ⟨y, hy, hk⟩ := List.mem_flatMap.mp hk
      exact hflat k (List.mem_cons_of_mem _ (List.mem_flatMap.mpr ⟨y, hsub.subset hy, hk⟩))
  intro e he
  obtain rfl := List.mem_singleton.mp he
  exact hpiece

theorem convert_vec_vec {s : Scalar} {q : PS} (final : Conv (.tuple [.vector (.scalar .uint32), .vector (.scalar s)]) q)
    (l : List (List s.val)) :
    convert (@Conv.nested _ _ (.single (.vec s)) _ (.scalar s) (.vectorScalar s) final) l =
      convert final (l.map fun inner => UInt32.ofNat inner.length, l.flatten, ()) := by
  have hmap : (l.flatMap fun inner => inner.map (convert (.scalar s))) = l.flatten := by
    show (l.flatMap fun inner => inner.map fun x => x) = l.flatten
    rw [List.flatMap_def]
    simp
  exact congrArg
    (fun flatVec : List s.val => convert final (l.map fun inner => UInt32.ofNat inner.length, flatVec, ())) hmap

/-- The elements of a converted vector of native values are as small as what
it is converted to. -/
theorem small_of_mem_native (n : Native) {q : PS} (D : Conv (.vector n.ty) q) (l : List n.ty.val)
    (h : Small (q.entries (convert D l))) : ∀ x ∈ l, Small [⟨n, x⟩] := by
  intro x hx
  cases n with
  | scalar s =>
    cases D
    intro e he k hk
    obtain rfl := List.mem_singleton.mp he
    exact h ⟨.vec s, l⟩ List.mem_cons_self k (List.mem_cons_of_mem _ (List.mem_flatMap.mpr ⟨x, hx, hk⟩))
  | vec s =>
    cases D with
    | nested elem flat final =>
      cases elem
      cases flat
      have h' := (congrArg (fun out => Small (q.entries out)) (convert_vec_vec final l)).mp h
      exact small_of_mem_flatten (small_pair (.single (.vec .uint32)) (.single (.vec s)) final h').2 hx
  | bytes => cases D

/-- Row by row as column by column. -/
theorem small_of_columns : (ns : List Native) → {ps : List PS} → (Ds : ConvList ((ns.map Native.ty).map Ty.vector) ps) →
    (rows : List (Ty.vals (ns.map Native.ty))) →
    Small (entriesEach ps (convertEach Ds (columns (ns.map Native.ty) rows))) →
    ∀ row ∈ rows, Small (tupleEntries ns row)
  | [], _, _, _, _, _, _ => fun _ he => nomatch he
  | n :: ns, _, .cons head tail, (rows : List (n.ty.val × Ty.vals (ns.map Native.ty))), h, row, hrow => by
    have hhead := small_of_mem_native n head (rows.map Prod.fst) h.left row.1 (List.mem_map_of_mem hrow)
    have htail := small_of_columns ns tail (rows.map Prod.snd) h.right row.2 (List.mem_map_of_mem hrow)
    intro e he
    obtain rfl | he := List.mem_cons.mp he
    · exact hhead _ (List.mem_singleton_self _)
    · exact htail e he

theorem small_of_mem : (p : PS) → {q : PS} → (D : Conv (.vector p.ty) q) → (l : List p.ty.val) →
    Small (q.entries (convert D l)) → ∀ x ∈ l, Small (p.entries x)
  | .single n, _, D, l, h, x, hx => small_of_mem_native n D l h x hx
  | .tuple [], _, D, _, _, _, _ => nomatch D
  | .tuple (n :: ns), q, @Conv.vectorTuple _ _ ps _ each final, l, h, x, hx => by
    have hentries := entries_convert_tuple ps final (convertEach each (columns ((n :: ns).map Native.ty) l))
    have h' : Small (q.entries (convert final (convertEach each (columns ((n :: ns).map Native.ty) l)))) := h
    rw [hentries] at h'
    exact small_of_columns (n :: ns) each l h' x hx

/-! ## What is small fits -/

mutual

/-- **Short vectors fit.** -/
theorem fits_of_small : {t : Ty} → {p : PS} → (D : Conv t p) → (v : t.val) → Small (p.entries (convert D v)) →
    Fits D v
  | _, _, .scalar _, _, _ => trivial
  | _, _, .vectorScalar _, _, _ => trivial
  | _, _, .bytes, _, _ => trivial
  | _, _, .user _, _, _ => trivial
  | _, _, @Conv.tuple _ ps each, v, h => by
    have hentries := tupleEntries_tupleCat ps (convertEach each v)
    have h' : Small (tupleEntries (catNatives ps) (tupleCat ps (convertEach each v))) := h
    rw [hentries] at h'
    exact fitsEach_of_small each v h'
  | _, _, .map keys vals final, (m : AList _), h =>
    have hpair := small_pair _ _ final h
    ⟨fits_of_small keys _ hpair.1, fits_of_small vals _ hpair.2⟩
  | _, q, @Conv.vectorTuple t ts ps _ each final, rows, h => by
    have hentries := entries_convert_tuple ps final (convertEach each (columns (t :: ts) rows))
    have h' : Small (q.entries (convert final (convertEach each (columns (t :: ts) rows)))) := h
    rw [hentries] at h'
    exact fitsEach_of_small each _ h'
  | _, _, .nested (t := t) (p := p) elem flat final, (v : List (List t.val)), h => by
    let flatVec := v.flatMap fun inner => inner.map (convert elem)
    have hflat : Small (_ : List NativeVal) := (small_pair (.single (.vec .uint32)) _ final h).2
    refine ⟨fun inner hi => ?_, fun inner hi x hx => ?_, fits_of_small flat flatVec hflat⟩
    · have hlen := length_le_flatMap (f := fun inner => inner.map (convert elem)) hi
      rw [List.length_map] at hlen
      exact Nat.lt_of_le_of_lt hlen (hflat.headSize_lt (headSize_convert flat flatVec rfl))
    · have hmem : convert elem x ∈ flatVec := List.mem_flatMap.mpr ⟨inner, hi, List.mem_map_of_mem hx⟩
      exact fits_of_small elem x (small_of_mem p flat flatVec hflat _ hmem)
  | _, _, .vectorUser elem final, v, h => fits_of_small final _ h
  | _, _, .vectorMap (k := k) (v := w) (p := p) elem final, (v : List (Ty.map k w).val), h =>
    ⟨fun m hm => fits_of_small elem m (small_of_mem p final _ h _ (List.mem_map_of_mem hm)), fits_of_small final _ h⟩

theorem fitsEach_of_small : {ts : List Ty} → {ps : List PS} → (Ds : ConvList ts ps) → (v : Ty.vals ts) →
    Small (entriesEach ps (convertEach Ds v)) → FitsEach Ds v
  | _, _, .nil, _, _ => trivial
  | _, _, .cons head tail, v, h => ⟨fits_of_small head v.1 h.left, fitsEach_of_small tail v.2 h.right⟩

end

end Skywing.PubSub
