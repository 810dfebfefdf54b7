import IpfixParser.Model.Frame
import IpfixParser.Wire.Message

/-!
# UDP in IPv4 in Ethernet

`UdpFrame.encode` is a frame with a UDP datagram in it. The tests' extractor accepts exactly these, for
any version of IP and any fragment, and gives their payloads (`extractUdpPayload_ok_iff`); the
collector's gives what follows the UDP header to the end of the frame. Neither panics.
-/

namespace IpfixParser

open Lib

/-- A frame, before it is written. `ident` (the identification, the flags with the fragment offset, and
the time to live) and `addrs` (the header's checksum and the addresses) are the IPv4 header between the
fields that are read, `ipPad` is what is in the IPv4 packet after the UDP datagram, `ethPad` what is after
the packet. -/
structure UdpFrame where
  macs : Bytes
  versionIhl : UInt8
  tos : UInt8
  ident : Bytes
  addrs : Bytes
  options : Bytes
  ports : Bytes
  checksum : Bytes
  payload : Bytes
  ipPad : Bytes
  ethPad : Bytes
  deriving Repr, DecidableEq

namespace UdpFrame

/-- The version of IP. -/
def version (f : UdpFrame) : UInt8 := f.versionIhl >>> 4

/-- `IHL`, in bytes. -/
def ihl (f : UdpFrame) : Nat := (f.versionIhl &&& 0x0f).toNat * 4

/-- The length of the UDP datagram. -/
def udpLen (f : UdpFrame) : Nat := 8 + f.payload.length

/-- The length of the IPv4 packet. -/
def totalLen (f : UdpFrame) : Nat := f.ihl + f.udpLen + f.ipPad.length

/-- The bytes of a frame. -/
def encode (f : UdpFrame) : Bytes :=
  f.macs ++ (u16ToBe 0x0800 ++ (f.versionIhl :: f.tos :: (u16ToBe (UInt16.ofNat f.totalLen) ++
    (f.ident ++ (17 :: (f.addrs ++ (f.options ++ (f.ports ++ (u16ToBe (UInt16.ofNat f.udpLen) ++
      (f.checksum ++ (f.payload ++ (f.ipPad ++ f.ethPad))))))))))))

/-- The parts have the sizes that they have on the wire. What is in them is free, as the extractors do
not look at it: the version of IP, the fragment offset, the checksums. -/
structure Shaped (f : UdpFrame) : Prop where
  macs : f.macs.length = 12
  ident : f.ident.length = 5
  addrs : f.addrs.length = 10
  options : f.ihl = 20 + f.options.length
  ports : f.ports.length = 4
  checksum : f.checksum.length = 2
  fits : f.totalLen ≤ 65535

end UdpFrame

/-! ### Where the fields are -/

/-- A byte of a buffer. -/
def u8At (b : Bytes) (i : Nat) : UInt8 := b.getD i 0

theorem getElem?_eq_u8At {b : Bytes} {i : Nat} (h : i < b.length) : b[i]? = some (u8At b i) := by
  rw [u8At, List.getD_eq_getElem?_getD, List.getElem?_eq_getElem h]
  rfl

theorem u16FromBe_u8At {b : Bytes} {i : Nat} (h : i + 2 ≤ b.length) :
    u16FromBe [u8At b i, u8At b (i + 1)] = u16At b i := by
  have hget : ∀ j (hj : j < b.length), b.get ⟨j, hj⟩ = u8At b j := by
    intro j hj
    rw [u8At, List.getD_eq_getElem?_getD, List.getElem?_eq_getElem hj]
    rfl
  have hi : b.drop i = u8At b i :: u8At b (i + 1) :: b.drop (i + 2) := by
    rw [← hget i (by omega), ← hget (i + 1) (by omega)]
    simp only [List.get_eq_getElem]
    rw [List.drop_eq_getElem_cons (by omega), List.drop_eq_getElem_cons (by omega)]
  rw [u16At, hi]
  rfl

theorem u8At_drop (b : Bytes) (i j : Nat) : u8At (b.drop i) j = u8At b (i + j) := by
  simp [u8At, List.getD_eq_getElem?_getD]

/-- `IHL` of a frame, in bytes. -/
def ihlAt (frame : Bytes) : Nat := (u8At frame 14 &&& 0x0f).toNat * 4

/-- The IPv4 total length of a frame. -/
def totalLenAt (frame : Bytes) : Nat := (u16At frame 16).toNat

/-- The UDP length of a frame. -/
def udpLenAt (frame : Bytes) : Nat := (u16At frame (14 + ihlAt frame + 4)).toNat

/-- A UDP datagram in an IP packet of version 4's shape, in an Ethernet frame. -/
structure IsUdp (frame : Bytes) : Prop where
  ethertype : u16At frame 12 = 0x0800
  ihl : 20 ≤ ihlAt frame
  protocol : u8At frame 23 = 17
  total : 14 + totalLenAt frame ≤ frame.length
  udp : 8 ≤ udpLenAt frame
  fits : ihlAt frame + udpLenAt frame ≤ totalLenAt frame

theorem extractUdpPayload_eq {frame : Bytes} (h : 34 ≤ frame.length) :
    extractUdpPayload frame =
      if u16At frame 12 ≠ 0x0800 then .err ()
      else if ihlAt frame < 20 then .err ()
      else if totalLenAt frame < ihlAt frame ∨ totalLenAt frame > frame.length - 14 then .err ()
      else if u8At frame 23 ≠ 17 then .err ()
      else if totalLenAt frame - ihlAt frame < 8 then .err ()
      else if udpLenAt frame < 8 ∨ udpLenAt frame > totalLenAt frame - ihlAt frame then .err ()
      else .ok ((frame.drop (14 + ihlAt frame + 8)).take (udpLenAt frame - 8)) := by
  have hip : getFrom frame 14 = some (frame.drop 14) := if_pos (by omega)
  have hbyte : ∀ i, i < 20 → (frame.drop 14)[i]? = some (u8At frame (14 + i)) := by
    intro i hi
    rw [List.getElem?_drop]
    exact getElem?_eq_u8At (by omega)
  unfold extractUdpPayload
  simp only [getElem?_eq_u8At (show 12 < frame.length by omega),
    getElem?_eq_u8At (show 13 < frame.length by omega), Outcome.okOr_some, Outcome.ok_bind, hip,
    hbyte 0 (by omega), hbyte 2 (by omega), hbyte 3 (by omega), hbyte 9 (by omega),
    u16FromBe_u8At (show 12 + 2 ≤ frame.length by omega),
    u16FromBe_u8At (show 16 + 2 ≤ frame.length by omega), Nat.add_zero, Nat.reduceAdd, List.length_drop]
  show (if u16At frame 12 ≠ 0x0800 then _ else if ihlAt frame < 20 then _
    else if totalLenAt frame < ihlAt frame ∨ totalLenAt frame > frame.length - 14 then _
    else if u8At frame 23 ≠ 17 then _ else _) = _
  split_ifs with hether hihl htotal hproto hshort
  · rfl
  · rfl
  · rfl
  · rfl
  all_goals
    have hrange : getRange (frame.drop 14) ((u8At frame 14 &&& 0x0f).toNat * 4) (u16At frame 16).toNat =
        some ((frame.drop (14 + ihlAt frame)).take (totalLenAt frame - ihlAt frame)) := by
      show getRange _ (ihlAt frame) (totalLenAt frame) = _
      rw [getRange, if_pos (by rw [List.length_drop]; omega), List.drop_drop]
    have hlen : ((frame.drop (14 + ihlAt frame)).take (totalLenAt frame - ihlAt frame)).length =
        totalLenAt frame - ihlAt frame := by
      rw [List.length_take, List.length_drop]
      omega
    rw [hrange, Outcome.okOr_some, Outcome.ok_bind]
  · rw [if_pos (by omega)]
  all_goals
    have hindex : ∀ i, i < 8 → (index ((frame.drop (14 + ihlAt frame)).take
        (totalLenAt frame - ihlAt frame)) i : Outcome Unit UInt8) =
          .ok (u8At frame (14 + ihlAt frame + i)) := by
      intro i hi
      apply index_eq
      rw [List.getElem?_take_of_lt (by omega), List.getElem?_drop]
      exact getElem?_eq_u8At (by omega)
    have hudpLen : (u16FromBe [u8At frame (14 + ihlAt frame + 4), u8At frame (14 + ihlAt frame + 5)]).toNat =
        udpLenAt frame := by
      rw [u16FromBe_u8At (show 14 + ihlAt frame + 4 + 2 ≤ frame.length by omega)]
      rfl
    rw [if_neg (by omega)]
    simp only [hindex 4 (by omega), hindex 5 (by omega), Outcome.ok_bind, hudpLen, hlen]
  · rename_i hudp
    rw [if_pos hudp]
  · rename_i hudp
    rw [if_neg hudp, slice_eq (by omega) (by omega), List.drop_take, List.take_take, List.drop_drop]
    congr 2
    omega

theorem extractUdpPayload_of_short {frame : Bytes} (h : frame.length < 34) :
    extractUdpPayload frame = .err () := by
  unfold extractUdpPayload
  cases h12 : frame[12]? with
  | none => rfl
  | some e0 =>
    cases h13 : frame[13]? with
    | none => rfl
    | some e1 =>
      have h14 : 14 ≤ frame.length := (List.getElem?_eq_some_iff.mp h13).1
      have hip : getFrom frame 14 = some (frame.drop 14) := if_pos h14
      simp only [Outcome.okOr_some, Outcome.ok_bind, hip]
      split_ifs with hether
      · rfl
      · cases (frame.drop 14)[0]? with
        | none => rfl
        | some b =>
          simp only [Outcome.okOr_some, Outcome.ok_bind]
          split_ifs with hihl
          · rfl
          · cases (frame.drop 14)[2]? with
            | none => rfl
            | some l0 =>
              cases (frame.drop 14)[3]? with
              | none => rfl
              | some l1 =>
                simp only [Outcome.okOr_some, Outcome.ok_bind, List.length_drop]
                rw [if_pos (by omega)]

/-- What the tests' extractor takes, and what it gives. -/
theorem extractUdpPayload_eq_ok_iff {frame p : Bytes} : extractUdpPayload frame = .ok p ↔
    IsUdp frame ∧ p = (frame.drop (14 + ihlAt frame + 8)).take (udpLenAt frame - 8) := by
  by_cases hlen : 34 ≤ frame.length
  · rw [extractUdpPayload_eq hlen]
    constructor
    · intro h
      split_ifs at h with hether hihl htotal hproto hshort hudp
      refine ⟨⟨not_not.mp hether, by omega, not_not.mp hproto, by omega, by omega, by omega⟩, ?_⟩
      exact (Outcome.ok.inj h).symm
    · rintro ⟨hframe, rfl⟩
      obtain ⟨hether, hihl, hproto, htotal, hudp, hfits⟩ := hframe
      rw [if_neg (not_not.mpr hether), if_neg (by omega), if_neg (by omega), if_neg (not_not.mpr hproto),
        if_neg (by omega), if_neg (by omega)]
  · rw [extractUdpPayload_of_short (by omega)]
    constructor
    · exact fun h => nomatch h
    · rintro ⟨⟨-, hihl, -, htotal, hudp, hfits⟩, -⟩
      omega

theorem extractUdpPayload_ne_panic (frame : Bytes) : extractUdpPayload frame ≠ .panic := by
  by_cases hlen : 34 ≤ frame.length
  · rw [extractUdpPayload_eq hlen]
    split_ifs <;> simp
  · rw [extractUdpPayload_of_short (by omega)]
    simp

/-- What the collector's extractor takes, and what it gives. -/
theorem JsonCollector.extractUdpPayload_eq (frame : Bytes) : extractUdpPayload frame =
    if 42 ≤ frame.length ∧ u16At frame 12 = 0x0800 ∧ 20 ≤ ihlAt frame ∧
        14 + ihlAt frame + 8 ≤ frame.length ∧ u8At frame 23 = 17 then
      .ok (frame.drop (14 + ihlAt frame + 8))
    else .err () := by
  have hhdr : ethHdr = 14 := rfl
  unfold extractUdpPayload
  by_cases hlen : 42 ≤ frame.length
  · have hindex : ∀ i, i < 42 → (index frame i : Outcome Unit UInt8) = .ok (u8At frame i) :=
      fun i hi => index_eq (getElem?_eq_u8At (by omega))
    rw [if_neg (by omega)]
    simp only [hhdr, hindex 12 (by omega), hindex 13 (by omega), hindex 14 (by omega),
      hindex (14 + 9) (by omega), Outcome.ok_bind, u16FromBe_u8At (show 12 + 2 ≤ frame.length by omega)]
    show (if u16At frame 12 ≠ 0x0800 then _ else
      if ihlAt frame < 20 ∨ frame.length < 14 + ihlAt frame + 8 then _
      else if u8At frame 23 ≠ 17 then _ else _) = _
    by_cases hether : u16At frame 12 = 0x0800
    · rw [if_neg (not_not.mpr hether)]
      by_cases hlens : ihlAt frame < 20 ∨ frame.length < 14 + ihlAt frame + 8
      · rw [if_pos hlens, if_neg (by omega)]
      · rw [if_neg hlens]
        by_cases hproto : u8At frame 23 = 17
        · rw [if_neg (not_not.mpr hproto), if_pos ⟨hlen, hether, by omega, by omega, hproto⟩]
          exact sliceFrom_eq (show 14 + ihlAt frame + 8 ≤ frame.length by omega)
        · rw [if_pos hproto, if_neg fun h => hproto h.2.2.2.2]
    · rw [if_pos hether, if_neg fun h => hether h.2.1]
  · rw [if_pos (by omega), if_neg fun h => hlen h.1]

/-! ### Frames that are written -/

theorem drop_eq_u8At_cons {b : Bytes} {i : Nat} (h : i < b.length) :
    b.drop i = u8At b i :: b.drop (i + 1) := by
  rw [List.drop_eq_getElem_cons h]
  congr 1
  exact Option.some.inj ((List.getElem?_eq_getElem h).symm.trans (getElem?_eq_u8At h))

theorem drop_eq_u16At_append {b : Bytes} {i : Nat} (h : i + 2 ≤ b.length) :
    b.drop i = u16ToBe (u16At b i) ++ b.drop (i + 2) := by
  rw [u16ToBe_u16At h, ← List.drop_drop, List.take_append_drop]

namespace UdpFrame

variable {f : UdpFrame}

theorem Shaped.toNat_totalLen (h : f.Shaped) : (UInt16.ofNat f.totalLen).toNat = f.totalLen :=
  UInt16.toNat_ofNat_of_lt (Nat.lt_succ_of_le h.fits)

theorem Shaped.toNat_udpLen (h : f.Shaped) : (UInt16.ofNat f.udpLen).toNat = f.udpLen := by
  have hfits := h.fits
  unfold totalLen at hfits
  exact UInt16.toNat_ofNat_of_lt (Nat.lt_succ_of_le (by omega))

theorem Shaped.fields (h : f.Shaped) : IsUdp f.encode ∧ u8At f.encode 14 = f.versionIhl ∧
    ihlAt f.encode = f.ihl ∧ udpLenAt f.encode = f.udpLen ∧
    f.encode.drop (14 + f.ihl + 8) = f.payload ++ (f.ipPad ++ f.ethPad) := by
  have hnext : ∀ {a b : Bytes} {i n : Nat}, f.encode.drop i = a ++ b → a.length = n →
      f.encode.drop (i + n) = b := by
    intro a b i n hi ha
    rw [← List.drop_drop, hi, ← ha, List.drop_left]
  have hword : ∀ {i : Nat} {w : UInt16} {b : Bytes}, f.encode.drop i = u16ToBe w ++ b →
      u16At f.encode i = w := by
    intro i w b hi
    rw [← Nat.add_zero i, ← u16At_drop, hi, u16At_u16ToBe]
  have hbyte : ∀ {i : Nat} {x : UInt8} {b : Bytes}, f.encode.drop i = x :: b →
      u8At f.encode i = x := by
    intro i x b hi
    rw [← Nat.add_zero i, ← u8At_drop, hi]
    rfl
  have h0 : f.encode.drop 0 = f.macs ++ _ := rfl
  have h12 := hnext h0 h.macs
  have h14 := hnext h12 (length_u16ToBe _)
  have h15 := hnext (a := [f.versionIhl]) (n := 1) h14 rfl
  have h16 := hnext (a := [f.tos]) (n := 1) h15 rfl
  have h18 := hnext h16 (length_u16ToBe _)
  have h23 := hnext h18 h.ident
  have h24 := hnext (a := [17]) (n := 1) h23 rfl
  have h34 := hnext h24 h.addrs
  have hports := hnext h34 rfl
  have hudp := hnext hports h.ports
  have hck := hnext hudp (length_u16ToBe _)
  have hpayload := hnext hck h.checksum
  have hihl : ihlAt f.encode = f.ihl := by
    rw [ihlAt, hbyte h14]
    rfl
  have hoptions := h.options
  have hudpLen : udpLenAt f.encode = f.udpLen := by
    rw [udpLenAt, hihl, show 14 + f.ihl + 4 = 0 + 12 + 2 + 1 + 1 + 2 + 5 + 1 + 10 + f.options.length + 4 by
      omega, hword hudp, h.toNat_udpLen]
  have htotal : totalLenAt f.encode = f.totalLen := by
    rw [totalLenAt, hword h16, h.toNat_totalLen]
  have hrest : f.encode.drop (14 + f.ihl + 8) = f.payload ++ (f.ipPad ++ f.ethPad) := by
    rw [show 14 + f.ihl + 8 = 0 + 12 + 2 + 1 + 1 + 2 + 5 + 1 + 10 + f.options.length + 4 + 2 + 2 by omega]
    exact hpayload
  have hlen : f.encode.length = 14 + f.totalLen + f.ethPad.length := by
    unfold encode totalLen udpLen
    simp only [List.length_append, List.length_cons, length_u16ToBe, h.macs, h.ident, h.addrs, h.ports,
      h.checksum]
    omega
  refine ⟨⟨hword h12, by omega, hbyte h23, by omega, ?_, ?_⟩, hbyte h14, hihl, hudpLen, hrest⟩
  · rw [hudpLen, udpLen]
    omega
  · rw [hihl, hudpLen, htotal, totalLen]
    omega

/-- The parts of a frame. -/
def ofBytes (frame : Bytes) : UdpFrame where
  macs := frame.take 12
  versionIhl := u8At frame 14
  tos := u8At frame 15
  ident := (frame.drop 18).take 5
  addrs := (frame.drop 24).take 10
  options := (frame.drop 34).take (ihlAt frame - 20)
  ports := (frame.drop (14 + ihlAt frame)).take 4
  checksum := (frame.drop (14 + ihlAt frame + 6)).take 2
  payload := (frame.drop (14 + ihlAt frame + 8)).take (udpLenAt frame - 8)
  ipPad := (frame.drop (14 + ihlAt frame + udpLenAt frame)).take
    (totalLenAt frame - (ihlAt frame + udpLenAt frame))
  ethPad := frame.drop (14 + totalLenAt frame)

theorem encode_ofBytes {frame : Bytes} (h : IsUdp frame) :
    (ofBytes frame).Shaped ∧ (ofBytes frame).encode = frame := by
  obtain ⟨hether, hihl, hproto, htotal, hudp, hfits⟩ := h
  have hcut : ∀ i n, (frame.drop i).take n ++ frame.drop (i + n) = frame.drop i := by
    intro i n
    rw [← List.drop_drop, List.take_append_drop]
  have hlen : ∀ i n, i + n ≤ frame.length → ((frame.drop i).take n).length = n := by
    intro i n hin
    rw [List.length_take, List.length_drop]
    omega
  have hihl' : (ofBytes frame).ihl = ihlAt frame := rfl
  have hudpLen : (ofBytes frame).udpLen = udpLenAt frame := by
    show 8 + ((frame.drop (14 + ihlAt frame + 8)).take (udpLenAt frame - 8)).length = _
    rw [hlen _ _ (by omega)]
    omega
  have htotalLen : (ofBytes frame).totalLen = totalLenAt frame := by
    show (ofBytes frame).ihl + (ofBytes frame).udpLen + ((frame.drop (14 + ihlAt frame + udpLenAt frame)).take
      (totalLenAt frame - (ihlAt frame + udpLenAt frame))).length = _
    rw [hihl', hudpLen, hlen _ _ (by omega)]
    omega
  constructor
  · refine ⟨?_, hlen 18 5 (by omega), hlen 24 10 (by omega), ?_, hlen _ 4 (by omega), hlen _ 2 (by omega), ?_⟩
    · show (frame.take 12).length = 12
      rw [List.length_take]
      omega
    · show ihlAt frame = 20 + ((frame.drop 34).take (ihlAt frame - 20)).length
      rw [hlen _ _ (by omega)]
      omega
    · rw [htotalLen]
      have hword := (u16At frame 16).toNat_lt
      show (u16At frame 16).toNat ≤ 65535
      omega
  · have hend : (ofBytes frame).payload ++ ((ofBytes frame).ipPad ++ (ofBytes frame).ethPad) =
        frame.drop (14 + ihlAt frame + 8) := by
      show (frame.drop (14 + ihlAt frame + 8)).take (udpLenAt frame - 8) ++
        ((frame.drop (14 + ihlAt frame + udpLenAt frame)).take
          (totalLenAt frame - (ihlAt frame + udpLenAt frame)) ++ frame.drop (14 + totalLenAt frame)) = _
      rw [show 14 + totalLenAt frame = 14 + ihlAt frame + udpLenAt frame +
        (totalLenAt frame - (ihlAt frame + udpLenAt frame)) by omega, hcut,
        show 14 + ihlAt frame + udpLenAt frame = 14 + ihlAt frame + 8 + (udpLenAt frame - 8) by omega, hcut]
    have hudpWord : u16ToBe (UInt16.ofNat (ofBytes frame).udpLen) =
        u16ToBe (u16At frame (14 + ihlAt frame + 4)) := by
      rw [hudpLen, udpLenAt, UInt16.ofNat_toNat]
    have htotalWord : u16ToBe (UInt16.ofNat (ofBytes frame).totalLen) = u16ToBe (u16At frame 16) := by
      rw [htotalLen, totalLenAt, UInt16.ofNat_toNat]
    unfold encode
    rw [hend, hudpWord, htotalWord]
    show frame.take 12 ++ (u16ToBe 0x0800 ++ (u8At frame 14 :: u8At frame 15 :: (u16ToBe (u16At frame 16) ++
      ((frame.drop 18).take 5 ++ (17 :: ((frame.drop 24).take 10 ++ ((frame.drop 34).take (ihlAt frame - 20) ++
        ((frame.drop (14 + ihlAt frame)).take 4 ++ (u16ToBe (u16At frame (14 + ihlAt frame + 4)) ++
          ((frame.drop (14 + ihlAt frame + 6)).take 2 ++ frame.drop (14 + ihlAt frame + 8))))))))))) = frame
    rw [hcut, ← drop_eq_u16At_append (by omega), hcut,
      show 14 + ihlAt frame = 34 + (ihlAt frame - 20) by omega, hcut, hcut, ← hproto,
      ← drop_eq_u8At_cons (by omega), hcut, ← drop_eq_u16At_append (by omega),
      ← drop_eq_u8At_cons (by omega), ← drop_eq_u8At_cons (by omega), ← hether,
      ← drop_eq_u16At_append (by omega), List.take_append_drop]

end UdpFrame

/-- The tests' extractor takes exactly the frames with a UDP datagram, gives its payload, and does not
panic on any bytes. It does not look at the version: those of IPv4 are the ones that say so. -/
theorem extractUdpPayload_ok_iff (frame : Bytes) :
    (∀ p, extractUdpPayload frame = .ok p ↔
      ∃ f : UdpFrame, f.Shaped ∧ f.encode = frame ∧ f.payload = p) ∧
    (∀ p, extractUdpPayload frame = .ok p ∧ u8At frame 14 >>> 4 = 4 ↔
      ∃ f : UdpFrame, f.Shaped ∧ f.version = 4 ∧ f.encode = frame ∧ f.payload = p) ∧
    extractUdpPayload frame ≠ .panic := by
  have hread : ∀ f : UdpFrame, f.Shaped → f.encode = frame → extractUdpPayload frame = .ok f.payload := by
    rintro f hshaped rfl
    obtain ⟨hframe, -, hihl, hudpLen, hrest⟩ := hshaped.fields
    rw [extractUdpPayload_eq_ok_iff, hihl, hudpLen, hrest, UdpFrame.udpLen, Nat.add_sub_cancel_left,
      List.take_left]
    exact ⟨hframe, rfl⟩
  refine ⟨fun p => ⟨fun hok => ?_, ?_⟩, fun p => ⟨?_, ?_⟩, extractUdpPayload_ne_panic frame⟩
  · obtain ⟨hframe, rfl⟩ := extractUdpPayload_eq_ok_iff.mp hok
    obtain ⟨hshaped, hencode⟩ := UdpFrame.encode_ofBytes hframe
    exact ⟨.ofBytes frame, hshaped, hencode, rfl⟩
  · rintro ⟨f, hshaped, hencode, rfl⟩
    exact hread f hshaped hencode
  · rintro ⟨hok, hversion⟩
    obtain ⟨hframe, rfl⟩ := extractUdpPayload_eq_ok_iff.mp hok
    obtain ⟨hshaped, hencode⟩ := UdpFrame.encode_ofBytes hframe
    exact ⟨.ofBytes frame, hshaped, hversion, hencode, rfl⟩
  · rintro ⟨f, hshaped, hversion, hencode, rfl⟩
    refine ⟨hread f hshaped hencode, ?_⟩
    rw [← hencode, hshaped.fields.2.1]
    exact hversion

/-! ### The collector's extractor -/

theorem JsonCollector.extractUdpPayload_of_ok {frame p : Bytes}
    (h : IpfixParser.extractUdpPayload frame = .ok p) :
    ∃ rest, extractUdpPayload frame = .ok (p ++ rest) := by
  obtain ⟨hframe, rfl⟩ := extractUdpPayload_eq_ok_iff.mp h
  obtain ⟨hether, hihl, hproto, htotal, hudp, hfits⟩ := hframe
  rw [JsonCollector.extractUdpPayload_eq, if_pos ⟨by omega, hether, hihl, by omega, hproto⟩]
  exact ⟨(frame.drop (14 + ihlAt frame + 8)).drop (udpLenAt frame - 8), by rw [List.take_append_drop]⟩

theorem JsonCollector.extractUdpPayload_ne_panic (frame : Bytes) : extractUdpPayload frame ≠ .panic := by
  rw [JsonCollector.extractUdpPayload_eq]
  split_ifs <;> simp

end IpfixParser
