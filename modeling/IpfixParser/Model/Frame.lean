import IpfixParser.Model.Flow

/-!
# Captured frames

The UDP payload of an Ethernet frame, as the tests and benchmarks find it (`tests/common/mod.rs`, and the
same in `benches/common/mod.rs`) and as `examples/json_collector.rs` does, which looks at fewer lengths.
`None` is the error `()`. The capture file that the frames are in is not modelled.
-/

namespace IpfixParser

open Lib

/-- `l.get(a..b)`. -/
def getRange {α : Type} (l : List α) (a b : Nat) : Option (List α) :=
  if a ≤ b ∧ b ≤ l.length then some ((l.drop a).take (b - a)) else none

/-- `extract_udp_payload` of the tests. -/
def extractUdpPayload (frame : Bytes) : Outcome Unit Bytes := do
  let ethertype := u16FromBe [← .okOr () frame[12]?, ← .okOr () frame[13]?]
  if ethertype ≠ 0x0800 then .err ()
  else
    let ip ← .okOr () (getFrom frame 14)
    let ihl := ((← .okOr () ip[0]?) &&& 0x0f).toNat * 4
    if ihl < 20 then .err ()
    else
      let totalLen := (u16FromBe [← .okOr () ip[2]?, ← .okOr () ip[3]?]).toNat
      if totalLen < ihl ∨ totalLen > ip.length then .err ()
      else if (← .okOr () ip[9]?) ≠ 17 then .err ()
      else
        let udp ← .okOr () (getRange ip ihl totalLen)
        if udp.length < 8 then .err ()
        else
          let udpLen := (u16FromBe [← index udp 4, ← index udp 5]).toNat
          if udpLen < 8 ∨ udpLen > udp.length then .err ()
          else slice udp 8 udpLen

/-- `ETH_HDR`. -/
def ethHdr : Nat := 14

namespace JsonCollector

/-- `extract_udp_payload` of the collector. -/
def extractUdpPayload (frame : Bytes) : Outcome Unit Bytes := do
  if frame.length < ethHdr + 20 + 8 then .err ()
  else
    let ethertype := u16FromBe [← index frame 12, ← index frame 13]
    if ethertype ≠ 0x0800 then .err ()
    else
      let ihl := ((← index frame ethHdr) &&& 0x0f).toNat * 4
      if ihl < 20 ∨ frame.length < ethHdr + ihl + 8 then .err ()
      else if (← index frame (ethHdr + 9)) ≠ 17 then .err ()
      else sliceFrom frame (ethHdr + ihl + 8)

end JsonCollector

/-- The body of the loop over the frames of a capture, with either `extract_udp_payload`. -/
def pushPayload (extract : Bytes → Outcome Unit Bytes) (out : List Bytes) (frame : Bytes) :
    Outcome Empty (List Bytes) := do
  match ← (extract frame).attempt with
  | .ok payload => return if payload.isEmpty then out else out ++ [payload]
  | .error () => return out

/-- The payloads of the frames of a capture. -/
def payloadsOf (extract : Bytes → Outcome Unit Bytes) (frames : List Bytes) :
    Outcome Empty (List Bytes) :=
  frames.foldlM (pushPayload extract) []

end IpfixParser
