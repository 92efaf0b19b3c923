import Skywing.L1Encoding.PubSubRoundTrip

/-!
# The convertible types (`skywing_mid/pubsub_converter.hpp`)

Which types `PubSubConverter` compiles for, and the round trip over them.
`std::byte` is not a native type, so a vector of byte vectors (which matches
the specialisation for nested vectors) has no converter; nor has a vector of
empty tuples, whose `deconvert` reads `std::get<0>`.

Results:
* `Ty.Supported.exists_conv`: every type whose vectors and maps hold neither
  byte vectors nor empty tuples has a converter.
* `convert_round_trip`: for every converter, every value that fits comes back.
* `convert_overflow`: fitting is about the vectors the conversion builds, not
  only about those of the value. Two vectors of 2^31 bytes, two levels down,
  are flattened into one of 2^32, whose size is recorded as 0.
-/
namespace Skywing.PubSub

/-! ## The language -/

/-- A vector of values of this published type has a converter. -/
def PS.InVector (p : PS) : Prop := p.natives ≠ [] ∧ Native.bytes ∉ p.natives

mutual

/-- No byte vector and no empty tuple, and no user type published as one:
what a vector or a map may hold. -/
def Ty.InVector : Ty → Prop
  | .scalar _ => True
  | .bytes => False
  | .user α _ => ∃ c : UserConverter α, c.pubsub.InVector
  | .tuple ts => ts ≠ [] ∧ Ty.AllInVector ts
  | .map k v => k.InVector ∧ v.InVector
  | .vector t => t.InVector

def Ty.AllInVector : List Ty → Prop
  | [] => True
  | t :: ts => t.InVector ∧ Ty.AllInVector ts

end

mutual

/-- The types built from native and user types. -/
def Ty.Supported : Ty → Prop
  | .scalar _ => True
  | .bytes => True
  | .user α _ => Nonempty (UserConverter α)
  | .tuple ts => Ty.AllSupported ts
  | .map k v => k.InVector ∧ v.InVector
  | .vector t => t.InVector

def Ty.AllSupported : List Ty → Prop
  | [] => True
  | t :: ts => t.Supported ∧ Ty.AllSupported ts

end

/-- A converter whose published type may be put in a vector again. -/
def HasConv (t : Ty) : Prop := ∃ p : PS, p.InVector ∧ Nonempty (Conv t p)

def HasConvs (ts : List Ty) : Prop := ∃ ps : List PS, (∀ p ∈ ps, p.InVector) ∧ Nonempty (ConvList ts ps)

/-! ## Published types -/

theorem conv_native : (n : Native) → Nonempty (Conv n.ty (.single n))
  | .scalar s => ⟨.scalar s⟩
  | .vec s => ⟨.vectorScalar s⟩
  | .bytes => ⟨.bytes⟩

theorem convList_natives : (ns : List Native) →
    ∃ ps : List PS, catNatives ps = ns ∧ Nonempty (ConvList (ns.map Native.ty) ps)
  | [] => ⟨[], rfl, ⟨.nil⟩⟩
  | n :: ns => by
    obtain ⟨head⟩ := conv_native n
    obtain ⟨ps, hps, ⟨tail⟩⟩ := convList_natives ns
    exact ⟨.single n :: ps, congrArg (n :: ·) hps, ⟨.cons head tail⟩⟩

theorem conv_ps (p : PS) : ∃ q : PS, q.natives = p.natives ∧ Nonempty (Conv p.ty q) := by
  cases p with
  | single n => exact ⟨.single n, rfl, conv_native n⟩
  | tuple ns =>
    obtain ⟨ps, hps, ⟨each⟩⟩ := convList_natives ns
    exact ⟨.tuple (catNatives ps), hps, ⟨.tuple each⟩⟩

theorem convList_ps : (ps : List PS) →
    ∃ qs : List PS, catNatives qs = catNatives ps ∧ Nonempty (ConvList (ps.map PS.ty) qs)
  | [] => ⟨[], rfl, ⟨.nil⟩⟩
  | p :: ps => by
    obtain ⟨q, hq, ⟨head⟩⟩ := conv_ps p
    obtain ⟨qs, hqs, ⟨tail⟩⟩ := convList_ps ps
    exact ⟨q :: qs, congrArg₂ (· ++ ·) hq hqs, ⟨.cons head tail⟩⟩

theorem inVector_catNatives {ps : List PS} (h : ∀ p ∈ ps, p.InVector) (hne : ps ≠ []) :
    (PS.tuple (catNatives ps)).InVector := by
  have hb : Native.bytes ∉ catNatives ps := by
    induction ps with
    | nil => exact absurd rfl hne
    | cons p ps ih =>
      intro hm
      rcases List.mem_append.mp hm with hm | hm
      · exact (h p List.mem_cons_self).2 hm
      · by_cases hps : ps = []
        · rw [hps] at hm
          cases hm
        · exact ih (fun q hq => h q (List.mem_cons_of_mem _ hq)) hps hm
  refine ⟨?_, hb⟩
  obtain ⟨p, ps', rfl⟩ := List.exists_cons_of_ne_nil hne
  intro hnil
  exact (h p List.mem_cons_self).1 (List.append_eq_nil_iff.mp hnil).1

/-- The last step of a specialisation: the tuple of published types. -/
theorem hasConv_tuple_ps {ps : List PS} (h : ∀ p ∈ ps, p.InVector) (hne : ps ≠ []) :
    HasConv (.tuple (ps.map PS.ty)) := by
  obtain ⟨qs, hqs, ⟨each⟩⟩ := convList_ps ps
  refine ⟨.tuple (catNatives qs), ?_, ⟨.tuple each⟩⟩
  rw [hqs]
  exact inVector_catNatives h hne

theorem hasConv_pair {p q : PS} (hp : p.InVector) (hq : q.InVector) : HasConv (.tuple [p.ty, q.ty]) := by
  have hps : ∀ x ∈ [p, q], x.InVector := by simp [hp, hq]
  exact hasConv_tuple_ps hps (List.cons_ne_nil _ _)

/-! ## Vectors of published types -/

theorem hasConv_vector_native {n : Native} (h : n ≠ .bytes) : HasConv (.vector n.ty) := by
  have hs (s : Scalar) : (PS.single (.vec s)).InVector := by simp [PS.InVector, PS.natives]
  cases n with
  | scalar s => exact ⟨.single (.vec s), hs s, ⟨.vectorScalar s⟩⟩
  | vec s =>
    obtain ⟨q, hq, ⟨final⟩⟩ := hasConv_pair (hs .uint32) (hs s)
    exact ⟨q, hq, ⟨.nested (.scalar s) (.vectorScalar s) final⟩⟩
  | bytes => exact absurd rfl h

theorem hasConvs_vector_natives {ns : List Native} (h : Native.bytes ∉ ns) :
    HasConvs ((ns.map Native.ty).map Ty.vector) := by
  induction ns with
  | nil => exact ⟨[], by simp, ⟨.nil⟩⟩
  | cons n ns ih =>
    obtain ⟨hn, hns⟩ := List.ne_and_not_mem_of_not_mem_cons h
    obtain ⟨p, hp, ⟨head⟩⟩ := hasConv_vector_native hn.symm
    obtain ⟨ps, hps, ⟨tail⟩⟩ := ih hns
    exact ⟨p :: ps, List.forall_mem_cons.mpr ⟨hp, hps⟩, ⟨.cons head tail⟩⟩

/-- A vector of tuples out of the vectors of its elements. -/
theorem hasConv_vector_tuple {ts : List Ty} (hne : ts ≠ []) (h : HasConvs (ts.map Ty.vector)) :
    HasConv (.vector (.tuple ts)) := by
  obtain ⟨t, ts', rfl⟩ := List.exists_cons_of_ne_nil hne
  obtain ⟨ps, hps, ⟨each⟩⟩ := h
  have hp : ps ≠ [] := by
    cases each
    exact List.cons_ne_nil _ _
  obtain ⟨q, hq, ⟨final⟩⟩ := hasConv_tuple_ps hps hp
  exact ⟨q, hq, ⟨.vectorTuple each final⟩⟩

theorem hasConv_vector_ps {p : PS} (h : p.InVector) : HasConv (.vector p.ty) := by
  cases p with
  | single n => exact hasConv_vector_native fun hn => h.2 (List.mem_singleton.mpr hn.symm)
  | tuple ns =>
    apply hasConv_vector_tuple _ (hasConvs_vector_natives h.2)
    intro hnil
    exact h.1 (List.map_eq_nil_iff.mp hnil)

/-! ## All supported types -/

mutual

/-- What may be put in a vector has a converter, and so has a vector of it. -/
theorem Ty.InVector.hasConv : (t : Ty) → t.InVector → HasConv t ∧ HasConv (.vector t)
  | .scalar s, _ =>
    ⟨⟨.single (.scalar s), by simp [PS.InVector, PS.natives], ⟨.scalar s⟩⟩,
      hasConv_vector_native (n := .scalar s) nofun⟩
  | .bytes, h => absurd h id
  | .user α dec, ⟨c, hc⟩ => by
    obtain ⟨q, hq, ⟨final⟩⟩ := hasConv_vector_ps hc
    exact ⟨⟨c.pubsub, hc, ⟨.user c⟩⟩, q, hq, ⟨@Conv.vectorUser _ dec _ _ (.user c) final⟩⟩
  | .tuple ts, ⟨hne, h⟩ => by
    obtain ⟨⟨ps, hps, ⟨each⟩⟩, hv⟩ := Ty.AllInVector.hasConvs ts h
    have hp : ps ≠ [] := by
      cases each with
      | nil => exact absurd rfl hne
      | cons _ _ => exact List.cons_ne_nil _ _
    exact ⟨⟨_, inVector_catNatives hps hp, ⟨.tuple each⟩⟩, hasConv_vector_tuple hne hv⟩
  | .map k v, ⟨hk, hv⟩ => by
    obtain ⟨-, pk, hpk, ⟨keys⟩⟩ := Ty.InVector.hasConv k hk
    obtain ⟨-, pv, hpv, ⟨vals⟩⟩ := Ty.InVector.hasConv v hv
    obtain ⟨p, hp, ⟨final⟩⟩ := hasConv_pair hpk hpv
    obtain ⟨q, hq, ⟨outer⟩⟩ := hasConv_vector_ps hp
    exact ⟨⟨p, hp, ⟨.map keys vals final⟩⟩, q, hq, ⟨.vectorMap (.map keys vals final) outer⟩⟩
  | .vector t, h => by
    obtain ⟨⟨p, hp, ⟨elem⟩⟩, hvec⟩ := Ty.InVector.hasConv t h
    obtain ⟨pv, hpv, ⟨flat⟩⟩ := hasConv_vector_ps hp
    have hs : (PS.single (.vec .uint32)).InVector := by simp [PS.InVector, PS.natives]
    obtain ⟨q, hq, ⟨final⟩⟩ := hasConv_pair hs hpv
    exact ⟨hvec, q, hq, ⟨.nested elem flat final⟩⟩

theorem Ty.AllInVector.hasConvs : (ts : List Ty) → Ty.AllInVector ts →
    HasConvs ts ∧ HasConvs (ts.map Ty.vector)
  | [], _ => ⟨⟨[], by simp, ⟨.nil⟩⟩, [], by simp, ⟨.nil⟩⟩
  | t :: ts, ⟨ht, hts⟩ => by
    obtain ⟨⟨p, hp, ⟨head⟩⟩, q, hq, ⟨headV⟩⟩ := Ty.InVector.hasConv t ht
    obtain ⟨⟨ps, hps, ⟨tail⟩⟩, qs, hqs, ⟨tailV⟩⟩ := Ty.AllInVector.hasConvs ts hts
    exact ⟨⟨p :: ps, List.forall_mem_cons.mpr ⟨hp, hps⟩, ⟨.cons head tail⟩⟩,
      q :: qs, List.forall_mem_cons.mpr ⟨hq, hqs⟩, ⟨.cons headV tailV⟩⟩

end

mutual

theorem Ty.Supported.exists_conv : (t : Ty) → t.Supported → ∃ p, Nonempty (Conv t p)
  | .scalar s, _ => ⟨_, ⟨.scalar s⟩⟩
  | .bytes, _ => ⟨_, ⟨.bytes⟩⟩
  | .user _ _, ⟨c⟩ => ⟨_, ⟨.user c⟩⟩
  | .tuple ts, h => by
    obtain ⟨ps, ⟨each⟩⟩ := Ty.AllSupported.exists_convList ts h
    exact ⟨_, ⟨.tuple each⟩⟩
  | .map k v, h => by
    obtain ⟨⟨p, -, hc⟩, -⟩ := Ty.InVector.hasConv (.map k v) h
    exact ⟨p, hc⟩
  | .vector t, h => by
    obtain ⟨-, p, -, hc⟩ := Ty.InVector.hasConv t h
    exact ⟨p, hc⟩

theorem Ty.AllSupported.exists_convList : (ts : List Ty) → Ty.AllSupported ts →
    ∃ ps, Nonempty (ConvList ts ps)
  | [], _ => ⟨[], ⟨.nil⟩⟩
  | t :: ts, ⟨ht, hts⟩ => by
    obtain ⟨p, ⟨head⟩⟩ := Ty.Supported.exists_conv t ht
    obtain ⟨ps, ⟨tail⟩⟩ := Ty.AllSupported.exists_convList ts hts
    exact ⟨p :: ps, ⟨.cons head tail⟩⟩

end

theorem map_fst_tupleEntries : ∀ (ns : List Native) (v : Ty.vals (ns.map Native.ty)),
    (tupleEntries ns v).map Sigma.fst = ns
  | [], _ => rfl
  | n :: ns, v => congrArg (n :: ·) (map_fst_tupleEntries ns v.2)

theorem map_fst_entries (p : PS) (v : p.ty.val) : (p.entries v).map Sigma.fst = p.natives := by
  cases p with
  | single n => rfl
  | tuple ns => exact map_fst_tupleEntries ns v

/-- **What was converted comes back.** Every supported type has a converter,
and with every converter a value that fits is published as one flat tuple of
native values, from which the value is rebuilt. -/
theorem convert_round_trip :
    (∀ t : Ty, t.Supported → ∃ p, Nonempty (Conv t p)) ∧
      ∀ (t : Ty) (p : PS) (D : Conv t p) (v : t.val), Fits D v →
        (p.entries (convert D v)).map Sigma.fst = p.natives ∧ deconvert D (convert D v) = some v :=
  ⟨Ty.Supported.exists_conv, fun _ p D v h => ⟨map_fst_entries p _, deconvert_convert D v h⟩⟩

/-- A user type of an integer and a float.
mirrors tests/skywing_mid/pubsub.cpp:18-27 -/
def sirWalter : UserConverter (Int64 × UInt64) where
  pubsub := .tuple [.scalar .int64, .scalar .double]
  convert sw := (sw.1, sw.2, ())
  deconvert v := (v.1, v.2.1)
  deconvert_convert _ := rfl

def vectorSirWalter : Conv (.vector (.tuple [.scalar .int64, .scalar .double])) (.tuple [.vec .int64, .vec .double]) :=
  @Conv.vectorTuple _ _ [.single (.vec .int64), .single (.vec .double)] _
    (.cons (.vectorScalar _) (.cons (.vectorScalar _) .nil))
    (@Conv.tuple _ [.single (.vec .int64), .single (.vec .double)]
      (.cons (.vectorScalar _) (.cons (.vectorScalar _) .nil)))

def nestedSirWalter : Conv (.vector (.vector (.user (Int64 × UInt64) inferInstance)))
    (.tuple [.vec .uint32, .vec .int64, .vec .double]) :=
  .nested (.user sirWalter) vectorSirWalter
    (@Conv.tuple _ [.single (.vec .uint32), .tuple [.vec .int64, .vec .double]]
      (.cons (.vectorScalar _) (.cons
        (@Conv.tuple _ [.single (.vec .int64), .single (.vec .double)]
          (.cons (.vectorScalar _) (.cons (.vectorScalar _) .nil))) .nil)))

theorem convert_round_trip_sirWalter :
    deconvert nestedSirWalter (convert nestedSirWalter [[(1, 3), (2, 5)], [(3, 7), (4, 9)]]) =
      some [[(1, 3), (2, 5)], [(3, 7), (4, 9)]] := by
  refine (convert_round_trip.2 _ _ nestedSirWalter [[(1, 3), (2, 5)], [(3, 7), (4, 9)]] ?_).2
  refine ⟨?_, fun _ _ _ _ => trivial, trivial, trivial, trivial⟩
  have h2 : 2 < 2 ^ 32 := by omega
  exact List.forall_mem_cons.mpr ⟨h2, List.forall_mem_singleton.mpr h2⟩

/-! ## Vectors that the conversion builds -/

/-- The last step for a vector of vectors of scalars. -/
def sizesAndElems (s : Scalar) :
    Conv (.tuple [.vector (.scalar .uint32), .vector (.scalar s)]) (.tuple [.vec .uint32, .vec s]) :=
  @Conv.tuple _ [.single (.vec .uint32), .single (.vec s)]
    (.cons (.vectorScalar _) (.cons (.vectorScalar _) .nil))

def nestedOnce (s : Scalar) : Conv (.vector (.vector (.scalar s))) (.tuple [.vec .uint32, .vec s]) :=
  .nested (.scalar s) (.vectorScalar s) (sizesAndElems s)

/-- `PubSubConverter` of `vector<vector<vector<vector<uint8_t>>>>`: the
elements of the inner vectors of vectors are published as sizes and bytes, so
the flattened vector is one of tuples, transposed into a vector of size
vectors and a vector of byte vectors. -/
def nestedThrice : Conv (.vector (.vector (.vector (.vector (.scalar .uint8)))))
    (.tuple [.vec .uint32, .vec .uint32, .vec .uint32, .vec .uint32, .vec .uint8]) :=
  .nested (nestedOnce .uint8)
    (@Conv.vectorTuple _ _ [.tuple [.vec .uint32, .vec .uint32], .tuple [.vec .uint32, .vec .uint8]] _
      (.cons (nestedOnce .uint32) (.cons (nestedOnce .uint8) .nil))
      (@Conv.tuple _ [.tuple [.vec .uint32, .vec .uint32], .tuple [.vec .uint32, .vec .uint8]]
        (.cons (sizesAndElems .uint32) (.cons (sizesAndElems .uint8) .nil))))
    (@Conv.tuple _ [.single (.vec .uint32), .tuple [.vec .uint32, .vec .uint32, .vec .uint32, .vec .uint8]]
      (.cons (.vectorScalar _) (.cons
        (@Conv.tuple _ [.single (.vec .uint32), .single (.vec .uint32), .single (.vec .uint32),
            .single (.vec .uint8)]
          (.cons (.vectorScalar _) (.cons (.vectorScalar _) (.cons (.vectorScalar _)
            (.cons (.vectorScalar _) .nil))))) .nil)))

theorem convert_nestedThrice (A B : List UInt8) :
    let bytes := A.map (convert (.scalar .uint8)) ++ (B.map (convert (.scalar .uint8)) ++ [])
    convert nestedThrice [[[A, B]]] =
      (([1], [2], [UInt32.ofNat A.length, UInt32.ofNat B.length], [UInt32.ofNat (List.length bytes)],
        List.map (convert (.scalar .uint8)) bytes ++ [], ()) :
        List UInt32 × List UInt32 × List UInt32 × List UInt32 × List UInt8 × Unit) :=
  rfl

/-- With its size recorded as 0 the flattened vector is lost, and the sizes of
the two vectors in it read past the end. -/
theorem deconvert_nestedThrice {a n : UInt32} (b : UInt32) (bytes : List UInt8) (ha : a = 2147483648)
    (hn : n = 0) :
    deconvert nestedThrice (([1], [2], [a, b], [n], bytes, ()) :
      List UInt32 × List UInt32 × List UInt32 × List UInt32 × List UInt8 × Unit) = none := by
  rw [ha, hn]
  rfl

theorem deconvert_overflow {A B : List UInt8} (hA : A.length = 2147483648) (hB : B.length = 2147483648) :
    deconvert nestedThrice (convert nestedThrice [[[A, B]]]) = none := by
  rw [convert_nestedThrice A B]
  apply deconvert_nestedThrice
  · rw [hA]
    rfl
  · have hl : List.length (A.map (convert (.scalar .uint8)) ++ (B.map (convert (.scalar .uint8)) ++ [])) =
        2 ^ 32 := by
      rw [List.append_nil]
      refine List.length_append.trans ?_
      refine (congrArg₂ (· + ·) (List.length_map _) (List.length_map _)).trans ?_
      show A.length + B.length = 2 ^ 32
      omega
    exact (congrArg UInt32.ofNat hl).trans rfl

/-- Two vectors of `n` zero bytes, three levels down. -/
def twoVectors (n : Nat) : List (List (List (List UInt8))) := [[[List.replicate n 0, List.replicate n 0]]]

theorem twoVectors_lt {n : Nat} (h : n < 2 ^ 32) : ∀ x ∈ twoVectors n, x.length < 2 ^ 32 ∧
    ∀ y ∈ x, y.length < 2 ^ 32 ∧ ∀ z ∈ y, z.length < 2 ^ 32 := by
  unfold twoVectors
  intro x hx
  obtain rfl := List.mem_singleton.mp hx
  refine ⟨by simp, ?_⟩
  intro y hy
  obtain rfl := List.mem_singleton.mp hy
  refine ⟨by simp, ?_⟩
  intro z hz
  have hz : z = List.replicate n 0 := by simpa using hz
  rw [hz, List.length_replicate]
  exact h

/-- A vector of byte vectors has no converter, and vectors with fewer than
2^32 elements at every level need not come back. -/
theorem convert_overflow : (∀ p, IsEmpty (Conv (.vector .bytes) p)) ∧
    (∀ x ∈ twoVectors 2147483648, x.length < 2 ^ 32 ∧
      ∀ y ∈ x, y.length < 2 ^ 32 ∧ ∀ z ∈ y, z.length < 2 ^ 32) ∧
    deconvert nestedThrice (convert nestedThrice (twoVectors 2147483648)) ≠
      some (twoVectors 2147483648) := by
  refine ⟨fun p => ⟨fun D => nomatch D⟩, twoVectors_lt (by omega), ?_⟩
  have hn : (List.replicate 2147483648 (0 : UInt8)).length = 2147483648 := List.length_replicate
  have hnone := deconvert_overflow hn hn
  intro h
  cases hnone.symm.trans h

end Skywing.PubSub
