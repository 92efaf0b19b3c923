import Skywing.L1Encoding.PublishValue
import Skywing.L3Protocol.ExternalManager
import Skywing.L3Protocol.ReduceGroup

/-!
# Values on the wire and their types

A published value goes into a message (`make_publish`,
`make_submit_reduce_value`), is taken out of it at the other end, and is
checked against the types that the subscriber or the reduce group expects, by
the indices of its alternatives.

Serialization is Cap'n Proto's: `CapnProto` is any way of writing and reading
a message, and `Faithful` says that what is read is what was set.

`value_survives`: the tag, the version and the value arrive as they were sent;
they are accepted exactly if the expected types are the alternatives sent; and
what is rejected changes no buffer.
-/
namespace Skywing.L3.TypedValues

open L1.Published L2.TagBuffer

/-- mirrors skywing/skywing_core/job.cpp:54 -/
instance : Typed (List PublishValueVariant) := ⟨fun vs => vs.map fun v => UInt8.ofNat (PublishValueVariant.index v)⟩

/-! ## Messages -/

/-- The kinds that carry a value.
mirrors generated_files/generated/message_format.capnp:79-82,96-110 -/
inductive StatusMessage
  | submitReduceValue (reduceTag : TagID) (data : PublishData)
  | publishData (data : PublishData)

/-- `finalize_message` with `capnp::writeMessage`, and
`MessageHandler::try_to_create` with `capnp::readMessageCopy`. -/
structure CapnProto (Buf : Type) where
  write : StatusMessage → Buf
  read : Buf → Option StatusMessage

def CapnProto.Faithful {Buf : Type} (c : CapnProto Buf) : Prop := ∀ msg, c.read (c.write msg) = some msg

section Messages
variable {Buf : Type} (c : CapnProto Buf)

/-- mirrors skywing/skywing_core/internal/message_creators.cpp:72-79 -/
def makePublish (version : VersionID) (tagId : TagID) (value : List PublishValueVariant) : Buf :=
  c.write (.publishData (setPublishData version tagId value))

/-- mirrors skywing/skywing_core/internal/message_creators.cpp:172-184 -/
def makeSubmitReduceValue (reduceTag : TagID) (version : VersionID) (tagId : TagID)
    (value : List PublishValueVariant) : Buf :=
  c.write (.submitReduceValue reduceTag (setPublishData version tagId value))

/-- mirrors skywing/skywing_core/internal/capn_proto_wrapper.cpp:117-118,191-192,244-286 -/
def extractMessage (buf : Buf) : Option (Message (List PublishValueVariant)) :=
  (c.read buf).map fun msg =>
    match msg with
    | .submitReduceValue reduceTag data => .submitReduceValue reduceTag data.tagID data.values data.version
    | .publishData data => .publishData data.tagID data.values data.version

variable {c}

theorem extract_publishData {buf : Buf} {version : VersionID} {tagId : TagID} {value : List PublishValueVariant}
    (h : c.read buf = some (.publishData (setPublishData version tagId value))) :
    extractMessage c buf = some (.publishData tagId (some value) version) := by
  unfold extractMessage
  rw [h]
  show some (Message.publishData tagId (setPublishData version tagId value).values version) = _
  rw [values_setPublishData]

theorem extract_makePublish (h : c.Faithful) (version : VersionID) (tagId : TagID)
    (value : List PublishValueVariant) :
    extractMessage c (makePublish c version tagId value) = some (.publishData tagId (some value) version) :=
  extract_publishData (h _)

theorem extract_makeSubmitReduceValue (h : c.Faithful) (reduceTag : TagID) (version : VersionID) (tagId : TagID)
    (value : List PublishValueVariant) :
    extractMessage c (makeSubmitReduceValue c reduceTag version tagId value) =
      some (.submitReduceValue reduceTag tagId (some value) version) := by
  unfold extractMessage makeSubmitReduceValue
  rw [h]
  show some (Message.submitReduceValue reduceTag tagId (setPublishData version tagId value).values version) = _
  rw [values_setPublishData]

end Messages

/-! ## Types -/

/-- The types of the alternatives of a value. -/
def alternatives (value : List PublishValueVariant) : List Native := value.map fun v => publishValueTypeList.get v.1

/-- `std::equal` of the expected types and the indices. -/
def Matches (expectedTypes : List UInt8) (value : List PublishValueVariant) : Prop :=
  expectedTypes.map UInt8.toNat = value.map PublishValueVariant.index

theorem index_toNat (v : PublishValueVariant) : (UInt8.ofNat (PublishValueVariant.index v)).toNat = v.index := by
  have hlt : PublishValueVariant.index v < 25 := v.1.isLt
  rw [UInt8.toNat_ofNat']
  omega

/-- An index fits a byte. -/
theorem matches_iff (expectedTypes : List UInt8) (value : List PublishValueVariant) :
    Matches expectedTypes value ↔ expectedTypes = types value := by
  have htypes : (types value).map UInt8.toNat = value.map PublishValueVariant.index := by
    show (value.map _).map UInt8.toNat = _
    rw [List.map_map]
    exact List.map_congr_left fun v _ => index_toNat v
  unfold Matches
  rw [← htypes]
  exact List.map_inj_right fun _ _ h => UInt8.toNat_inj.mp h

/-- `index_of` tells the types apart. -/
theorem expectedTypeFor_matches (ts : List Native) (value : List PublishValueVariant) :
    Matches (expectedTypeFor ts) value ↔ ts = alternatives value := by
  have hindex (t : Native) : (UInt8.ofNat (indexOf t publishValueTypeList)).toNat = indexOf t publishValueTypeList := by
    have hlt : indexOf t publishValueTypeList < 25 := indexOf_lt t
    rw [UInt8.toNat_ofNat']
    omega
  have hinj : ∀ t u : Native, indexOf t publishValueTypeList = indexOf u publishValueTypeList → t = u := by
    intro t u h
    rw [← get_indexOf t, ← get_indexOf u]
    exact congrArg publishValueTypeList.get (Fin.ext h)
  have hvalue : value.map PublishValueVariant.index =
      (alternatives value).map fun t => indexOf t publishValueTypeList := by
    unfold alternatives
    rw [List.map_map]
    exact List.map_congr_left fun v _ => (indexOf_get v.1).symm
  unfold Matches expectedTypeFor
  rw [List.map_map, hvalue, show UInt8.toNat ∘ _ = fun t => indexOf t publishValueTypeList from funext hindex]
  exact List.map_inj_right hinj

/-! ## Accepting and rejecting -/

section Accept
variable {tagId : TagID} {value : List PublishValueVariant} {version : VersionID}

theorem processData_accepts_iff {j : Job (List PublishValueVariant)} {info : TagInfo (List PublishValueVariant)}
    {b : DiscardOldVersionTagBuffer (List PublishValueVariant)} (hi : j.bufs.lookup tagId = some info)
    (hb : info.buffer = some b) :
    (∃ j', j.processData tagId value version = some (true, j')) ↔ Matches info.expectedTypes value := by
  rw [matches_iff]
  constructor
  · intro hex
    obtain ⟨j', h⟩ := hex
    by_contra hne
    simp [Job.processData, hi, hne] at h
  · exact fun h => ⟨_, Job.processData_accept version hi hb h⟩

theorem processData_rejected {j j' : Job (List PublishValueVariant)}
    (h : j.processData tagId value version = some (false, j')) :
    (j'.bufs.lookup tagId).map (·.buffer) = (j.bufs.lookup tagId).map (·.buffer) := by
  unfold Job.processData at h
  split at h
  · cases h
  · rename_i info hi
    split at h
    · cases h
      rw [Job.setInfo_self, hi]
      rfl
    · obtain ⟨b, -, hb⟩ := Option.map_eq_some_iff.mp h
      cases hb

theorem addData_accepts_iff {g : ReduceGroup (List PublishValueVariant)} {i : Fin 3} (hi : g.bufferFor tagId = some i) :
    (∃ g' sends, g.addData tagId value version = some (true, g', sends)) ↔ Matches g.expectedTypes value := by
  rw [matches_iff]
  constructor
  · intro hex
    obtain ⟨g', sends, h⟩ := hex
    by_contra hne
    rw [ReduceGroup.addData, if_pos (Ne.symm hne)] at h
    cases h
  · intro h
    obtain ⟨r, hr⟩ := Option.isSome_iff_exists.mp (ReduceGroup.addData_isSome g tagId value version)
    rw [ReduceGroup.addData, if_neg (not_not.mpr h.symm), hi] at hr ⊢
    simp only [Option.bind_eq_bind, Option.bind_eq_some_iff] at hr ⊢
    obtain ⟨q, hq, -⟩ := hr
    exact ⟨_, _, q, hq, rfl⟩

theorem addData_rejected {g g' : ReduceGroup (List PublishValueVariant)}
    {sends : List (Send (List PublishValueVariant))}
    (h : g.addData tagId value version = some (false, g', sends)) : g' = g := by
  unfold ReduceGroup.addData at h
  split at h
  · cases h
    rfl
  · split at h
    · cases h
      rfl
    · simp only [Option.bind_eq_bind, Option.bind_eq_some_iff] at h
      obtain ⟨q, -, hq⟩ := h
      cases hq

end Accept

/-- **Values survive the wire and the type check.** -/
theorem value_survives {Buf : Type} (c : CapnProto Buf) (hc : c.Faithful) (tagId : TagID) (version : VersionID)
    (value : List PublishValueVariant) :
    extractMessage c (makePublish c version tagId value) = some (.publishData tagId (some value) version) ∧
      (∀ (j : Job (List PublishValueVariant)) info b, j.bufs.lookup tagId = some info → info.buffer = some b →
        ((∃ j', j.processData tagId value version = some (true, j')) ↔ Matches info.expectedTypes value) ∧
          ∀ j', j.processData tagId value version = some (false, j') →
            (j'.bufs.lookup tagId).map (·.buffer) = some (some b)) ∧
      (∀ reduceTag, extractMessage c (makeSubmitReduceValue c reduceTag version tagId value) =
        some (.submitReduceValue reduceTag tagId (some value) version)) ∧
      (∀ (g : ReduceGroup (List PublishValueVariant)) i, g.bufferFor tagId = some i →
        ((∃ g' sends, g.addData tagId value version = some (true, g', sends)) ↔ Matches g.expectedTypes value) ∧
          ∀ g' sends, g.addData tagId value version = some (false, g', sends) → g' = g) ∧
      ∀ ts, Matches (expectedTypeFor ts) value ↔ ts = alternatives value := by
  refine ⟨extract_makePublish hc version tagId value, fun j info b hi hb => ⟨?_, fun j' h => ?_⟩, fun reduceTag => ?_,
    fun g i hi => ⟨?_, fun g' sends h => ?_⟩, fun ts => ?_⟩
  · exact processData_accepts_iff hi hb
  · rw [processData_rejected h, hi, ← hb]
    rfl
  · exact extract_makeSubmitReduceValue hc reduceTag version tagId value
  · exact addData_accepts_iff hi
  · exact addData_rejected h
  · exact expectedTypeFor_matches ts value

/-- A `double` and a vector of strings. -/
def twoValues : List PublishValueVariant :=
  [⟨⟨2, by decide⟩, (0x4000000000000000 : UInt64)⟩, ⟨⟨21, by decide⟩, ([['a'], []] : List Str)⟩]

def verbatim : CapnProto StatusMessage := ⟨id, some⟩

theorem twoValues_survive : extractMessage verbatim (makePublish verbatim 7 ['p', 't'] twoValues) =
    some (.publishData ['p', 't'] (some twoValues) 7) :=
  (value_survives verbatim (fun _ => rfl) ['p', 't'] 7 twoValues).1

end Skywing.L3.TypedValues
