import Mathlib.Data.List.Basic
import Mathlib.Data.Nat.Digits.Defs

/-!
# Frames

A message goes over a socket as its length and its payload
(`skywing_core/internal/message_creators.cpp`, `finalize_message`). The
length is four bytes, the lowest first
(`skywing_core/internal/utility/network_conv.cpp`).

* `from_to_networkBytes`: a length is read back as it was written.
* `finalizeMessage_length`, `size_finalizeMessage`: a frame is four bytes
  longer than its payload, and its first four bytes announce the payload.
-/
namespace Skywing.L1.Framing

abbrev Bytes := List UInt8

/-- mirrors skywing/skywing_core/internal/utility/network_conv.cpp:19-28 -/
def toNetworkBytes (value : UInt32) : Bytes :=
  [UInt8.ofNat value.toNat, UInt8.ofNat (value.toNat / 256), UInt8.ofNat (value.toNat / 256 ^ 2),
    UInt8.ofNat (value.toNat / 256 ^ 3)]

/-- mirrors skywing/skywing_core/internal/utility/network_conv.cpp:9-16 -/
def fromNetworkBytes (data : Bytes) : UInt32 :=
  UInt32.ofNat (Nat.ofDigits 256 (data.map UInt8.toNat))

/-- A serialized message: shorter than 2^32 bytes, so that its length fits
the length field. -/
structure Payload where
  bytes : Bytes
  lt : bytes.length < 2 ^ 32
  deriving DecidableEq

/-- mirrors skywing/skywing_core/internal/message_creators.cpp:20-39 -/
def finalizeMessage (msg : Payload) : Bytes :=
  toNetworkBytes (UInt32.ofNat msg.bytes.length) ++ msg.bytes

theorem toNetworkBytes_length (value : UInt32) : (toNetworkBytes value).length = 4 := rfl

theorem from_to_networkBytes (value : UInt32) : fromNetworkBytes (toNetworkBytes value) = value := by
  have hv := value.toNat_lt
  apply UInt32.toNat_inj.mp
  simp only [fromNetworkBytes, toNetworkBytes, List.map_cons, List.map_nil, Nat.ofDigits_cons,
    Nat.ofDigits_nil, UInt8.toNat_ofNat']
  rw [UInt32.toNat_ofNat_of_lt' (by simp only [UInt32.size]; omega)]
  omega

theorem finalizeMessage_length (msg : Payload) : (finalizeMessage msg).length = msg.bytes.length + 4 := by
  simp [finalizeMessage, toNetworkBytes_length, Nat.add_comm]

/-- The first four bytes of a frame announce the length of its payload. -/
theorem size_finalizeMessage (msg : Payload) (rest : Bytes) :
    (fromNetworkBytes ((finalizeMessage msg ++ rest).take 4)).toNat = msg.bytes.length := by
  have htake : (finalizeMessage msg ++ rest).take 4 = toNetworkBytes (UInt32.ofNat msg.bytes.length) := by
    rw [finalizeMessage, List.append_assoc]
    exact List.take_left' (toNetworkBytes_length _)
  rw [htake, from_to_networkBytes]
  exact UInt32.toNat_ofNat_of_lt' msg.lt

theorem drop_finalizeMessage (msg : Payload) (rest : Bytes) :
    (finalizeMessage msg ++ rest).drop 4 = msg.bytes ++ rest := by
  rw [finalizeMessage, List.append_assoc]
  exact List.drop_left' (toNetworkBytes_length _)

end Skywing.L1.Framing
