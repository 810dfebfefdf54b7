import IpfixParser.Lib.Framing
import IpfixParser.Model.Message

/-!
# The wire format of headers and sets

What an exporter writes for a message header and for a set, and what the decoders make of it: a
header decodes to itself, sets are a framed stream with fewer than 4 bytes of padding
(`Set.framing`), and `SetIter` reads its frames (`SetIter.readsFrames`).
-/

namespace IpfixParser

open Lib

/-! ### Reading words off a buffer -/

theorem u16At_take {b : Bytes} {n i : Nat} (h : i + 2 ≤ n) : u16At (b.take n) i = u16At b i := by
  rw [u16At, u16At, List.drop_take, List.take_take, Nat.min_eq_left (by omega)]

theorem u32At_take {b : Bytes} {n i : Nat} (h : i + 4 ≤ n) : u32At (b.take n) i = u32At b i := by
  rw [u32At, u32At, List.drop_take, List.take_take, Nat.min_eq_left (by omega)]

theorem u16At_append_right {a b : Bytes} {i : Nat} (h : a.length ≤ i) :
    u16At (a ++ b) i = u16At b (i - a.length) := by
  rw [u16At, u16At, List.drop_append, List.drop_eq_nil_of_le h, List.nil_append]

theorem u32At_append_right {a b : Bytes} {i : Nat} (h : a.length ≤ i) :
    u32At (a ++ b) i = u32At b (i - a.length) := by
  rw [u32At, u32At, List.drop_append, List.drop_eq_nil_of_le h, List.nil_append]

@[simp] theorem u16At_u16ToBe (n : UInt16) (b : Bytes) : u16At (u16ToBe n ++ b) 0 = n := by
  simp [u16At]

@[simp] theorem u32At_u32ToBe (n : UInt32) (b : Bytes) : u32At (u32ToBe n ++ b) 0 = n := by
  simp [u32At]

theorem u16ToBe_u16At {b : Bytes} {i : Nat} (h : i + 2 ≤ b.length) :
    u16ToBe (u16At b i) = (b.drop i).take 2 := by
  apply u16ToBe_u16FromBe
  rw [List.length_take, List.length_drop]
  omega

theorem u32ToBe_u32At {b : Bytes} {i : Nat} (h : i + 4 ≤ b.length) :
    u32ToBe (u32At b i) = (b.drop i).take 4 := by
  apply u32ToBe_u32FromBe
  rw [List.length_take, List.length_drop]
  omega

theorem words_append_drop {b : Bytes} (h : 4 ≤ b.length) :
    u16ToBe (u16At b 0) ++ (u16ToBe (u16At b 2) ++ b.drop 4) = b := by
  have hrest : b.drop 4 = (b.drop 2).drop 2 := by rw [List.drop_drop]
  rw [u16ToBe_u16At (by omega), u16ToBe_u16At (by omega), List.drop_zero, hrest,
    List.take_append_drop, List.take_append_drop]

theorem split_eq {b : Bytes} {n : Nat} (h : n ≤ b.length) : split b n = .ok (b.take n, b.drop n) := by
  rw [split, if_pos h, splitAt_eq h]

theorem split_short {b : Bytes} {n : Nat} (h : b.length < n) : split b n = .err .unexpectedEof :=
  if_neg (Nat.not_le_of_lt h)

theorem readU16_eq {b : Bytes} (h : 2 ≤ b.length) : readU16 b = .ok (u16At b 0) := by
  simp [readU16, firstChunk_eq h, u16At]

theorem readU32_eq {b : Bytes} (h : 4 ≤ b.length) : readU32 b = .ok (u32At b 0) := by
  simp [readU32, firstChunk_eq h, u32At]

theorem u16At_drop (b : Bytes) (i j : Nat) : u16At (b.drop i) j = u16At b (i + j) := by
  rw [u16At, u16At, List.drop_drop]

theorem u32At_drop (b : Bytes) (i j : Nat) : u32At (b.drop i) j = u32At b (i + j) := by
  rw [u32At, u32At, List.drop_drop]

/-! ### Message headers -/

/-- What an exporter writes for a message header. -/
def MessageHeader.encode (h : MessageHeader) : Bytes :=
  u16ToBe h.version ++ (u16ToBe h.length ++ (u32ToBe h.exportTime ++ (u32ToBe h.sequenceNumber ++
    u32ToBe h.observationDomainId)))

@[simp] theorem MessageHeader.length_encode (h : MessageHeader) : h.encode.length = headerLen := by
  simp [encode, headerLen]

/-- The header and payload found in a buffer. -/
def MessageHeader.ofBytes (b : Bytes) : MessageHeader × Bytes :=
  (⟨u16At b 0, u16At b 2, u32At b 4, u32At b 8, u32At b 12⟩,
    (b.drop headerLen).take ((u16At b 2).toNat - headerLen))

/-- When the buffer holds a message. -/
structure MessageHeader.Framed (b : Bytes) : Prop where
  enough : headerLen ≤ b.length
  version_eq : u16At b 0 = IpfixParser.version
  length_ge : headerLen ≤ (u16At b 2).toNat
  length_le : (u16At b 2).toNat ≤ b.length

theorem MessageHeader.decode_eq {b : Bytes} (h : headerLen ≤ b.length) :
    decode b =
      if u16At b 0 ≠ IpfixParser.version then .err .invalidVersion
      else if (u16At b 2).toNat < headerLen ∨ b.length < (u16At b 2).toNat then .err .invalidLength
      else .ok (ofBytes b) := by
  simp only [decode, firstChunk_eq h, Outcome.okOr_some, Outcome.ok_bind,
    u16At_take (n := headerLen) (i := 0) (by decide), u16At_take (n := headerLen) (i := 2) (by decide),
    u32At_take (n := headerLen) (i := 4) (by decide), u32At_take (n := headerLen) (i := 8) (by decide),
    u32At_take (n := headerLen) (i := 12) (by decide)]
  split_ifs with hversion hrange
  · rfl
  · rfl
  · rw [slice_eq (by omega) (by omega)]
    rfl

theorem MessageHeader.decode_of_short {b : Bytes} (h : b.length < headerLen) :
    decode b = .err .unexpectedEof := by
  simp [decode, firstChunk_none h]

theorem MessageHeader.decode_ne_panic (b : Bytes) : decode b ≠ .panic := by
  by_cases h : headerLen ≤ b.length
  · rw [decode_eq h]
    split_ifs <;> simp
  · simp [decode_of_short (Nat.lt_of_not_le h)]

theorem MessageHeader.decode_eq_ok_iff {b : Bytes} {x : MessageHeader × Bytes} :
    decode b = .ok x ↔ Framed b ∧ x = ofBytes b := by
  constructor
  · intro h
    by_cases henough : headerLen ≤ b.length
    · rw [decode_eq henough] at h
      split_ifs at h with hversion hrange
      exact ⟨⟨henough, not_not.mp hversion, by omega, by omega⟩, by simpa using h.symm⟩
    · simp [decode_of_short (Nat.lt_of_not_le henough)] at h
  · rintro ⟨⟨henough, hversion, hge, hle⟩, rfl⟩
    rw [decode_eq henough, if_neg (not_not.mpr hversion), if_neg (by omega)]

theorem MessageHeader.decode_congr {b b' : Bytes} {h : MessageHeader} {p : Bytes}
    (hdec : decode b = .ok (h, p)) (heq : b'.take h.length.toNat = b.take h.length.toNat) :
    decode b' = .ok (h, p) := by
  obtain ⟨⟨henough, hversion, hge, hle⟩, hat⟩ := decode_eq_ok_iff.mp hdec
  obtain ⟨rfl, rfl⟩ : h = (MessageHeader.ofBytes b).1 ∧ p = (MessageHeader.ofBytes b).2 := by simp [← hat]
  have hlen : (MessageHeader.ofBytes b).1.length = u16At b 2 := rfl
  rw [hlen] at heq
  have hge16 : 16 ≤ (u16At b 2).toNat := hge
  have hword16 : ∀ i, i + 2 ≤ 16 → u16At b' i = u16At b i := by
    intro i hi
    rw [← u16At_take (n := (u16At b 2).toNat) (by omega), heq, u16At_take (by omega)]
  have hword32 : ∀ i, i + 4 ≤ 16 → u32At b' i = u32At b i := by
    intro i hi
    rw [← u32At_take (n := (u16At b 2).toNat) (by omega), heq, u32At_take (by omega)]
  have hlen' : (u16At b 2).toNat ≤ b'.length := by
    have := congrArg List.length heq
    simp only [List.length_take] at this
    omega
  have hpayload : (b'.drop headerLen).take ((u16At b 2).toNat - headerLen) =
      (b.drop headerLen).take ((u16At b 2).toNat - headerLen) := by
    rw [← List.drop_take, ← List.drop_take, heq]
  rw [decode_eq_ok_iff]
  refine ⟨⟨by omega, ?_, ?_, ?_⟩, ?_⟩
  · rw [hword16 0 (by omega), hversion]
  · rw [hword16 2 (by omega)]
    exact hge
  · rw [hword16 2 (by omega)]
    exact hlen'
  · simp only [MessageHeader.ofBytes, hword16 0 (by omega), hword16 2 (by omega), hword32 4 (by omega),
      hword32 8 (by omega), hword32 12 (by omega), hpayload]

theorem MessageHeader.decode_encode {h : MessageHeader} {p : Bytes} (hv : h.version = IpfixParser.version)
    (hlen : h.length.toNat = headerLen + p.length) (r : Bytes) :
    decode (h.encode ++ p ++ r) = .ok (h, p) := by
  have hword : u16At (h.encode ++ p ++ r) 2 = h.length := by
    simp [encode, u16At_append_right]
  have hat : (h, p) = MessageHeader.ofBytes (h.encode ++ p ++ r) := by
    have hp : ((h.encode ++ p ++ r).drop headerLen).take p.length = p := by
      rw [List.append_assoc, List.drop_left' (length_encode h), List.take_left]
    rw [MessageHeader.ofBytes, hword, hlen, Nat.add_sub_cancel_left, hp]
    simp [encode, u32At_append_right]
  refine decode_eq_ok_iff.mpr ⟨⟨?_, ?_, ?_, ?_⟩, hat⟩
  · simp only [List.length_append, length_encode]
    omega
  · simp [encode, hv]
  · rw [hword]
    omega
  · rw [hword, hlen]
    simp only [List.length_append, length_encode]
    omega

/-! ### Sets -/

/-- The set ids of each kind of set. -/
inductive SetKind.Names : SetKind → UInt16 → Prop
  | template : Names .template 2
  | optionsTemplate : Names .optionsTemplate 3
  | data {id} : 256 ≤ id → Names (.data id) id

theorem SetKind.names_iff {kind : SetKind} {id : UInt16} :
    Names kind id ↔ isReservedSetId id = false ∧ kind = ofSetId id := by
  constructor
  · rintro (_ | _ | hid)
    · decide
    · decide
    · simp only [isReservedSetId, setIdDataMin, setIdTemplate, setIdOptionsTemplate, ofSetId]
      grind
  · rintro ⟨hres, rfl⟩
    rw [ofSetId]
    split_ifs with htemplate hoptions
    · subst htemplate
      exact .template
    · subst hoptions
      exact .optionsTemplate
    · refine .data ?_
      simp only [isReservedSetId, setIdDataMin] at hres
      grind

/-- What an exporter writes for a set. -/
def Set.encode (s : Set) : Bytes :=
  u16ToBe s.setId ++ (u16ToBe (UInt16.ofNat (setHeaderLen + s.records.length)) ++ s.records)

@[simp] theorem Set.length_encode (s : Set) : s.encode.length = setHeaderLen + s.records.length := by
  simp [encode, setHeaderLen]
  omega

/-- A set an exporter may write: its kind is that of its id, and it fits the length word. -/
structure Set.WellFormed (s : Set) : Prop where
  kind : s.kind.Names s.setId
  fits : s.records.length ≤ 65531

/-- Fewer bytes than a set header: padding. -/
def setPadding (b : Bytes) : Prop := b.length < setHeaderLen

theorem not_setPadding_encode (s : Set) (r : Bytes) : ¬ setPadding (s.encode ++ r) := by
  rw [setPadding, List.length_append, Set.length_encode]
  omega

theorem Set.decode_eq {b : Bytes} (h : ¬ setPadding b) :
    decode b =
      if (u16At b 2).toNat < setHeaderLen ∨ b.length < (u16At b 2).toNat then .err .invalidLength
      else if isReservedSetId (u16At b 0) then .err .reservedSetId
      else .ok (⟨u16At b 0, .ofSetId (u16At b 0),
        (b.drop setHeaderLen).take ((u16At b 2).toNat - setHeaderLen)⟩, b.drop (u16At b 2).toNat) := by
  have henough : setHeaderLen ≤ b.length := Nat.le_of_not_lt h
  simp only [decode, firstChunk_eq henough, Outcome.okOr_some, Outcome.ok_bind,
    u16At_take (n := setHeaderLen) (i := 0) (by decide),
    u16At_take (n := setHeaderLen) (i := 2) (by decide)]
  split_ifs with hrange hres
  · rfl
  · rfl
  · rw [slice_eq (by omega) (by omega), Outcome.ok_bind, sliceFrom_eq (by omega)]
    rfl

theorem Set.decode_of_padding {b : Bytes} (h : setPadding b) : decode b = .err .unexpectedEof := by
  simp [decode, firstChunk_none h]

theorem Set.decode_ne_panic (b : Bytes) : decode b ≠ .panic := by
  by_cases h : setPadding b
  · simp [decode_of_padding h]
  · rw [decode_eq h]
    split_ifs <;> simp

/-- Sets are a framed stream. -/
theorem Set.framing : Framing Set.encode Set.WellFormed setPadding Set.decode where
  sound := by
    intro b s r h
    by_cases hpad : setPadding b
    · simp [decode_of_padding hpad] at h
    rw [decode_eq hpad] at h
    split_ifs at h with hrange hres
    obtain ⟨rfl, rfl⟩ : _ = s ∧ _ = r := by simpa using h
    have hpad4 : 4 ≤ b.length := Nat.le_of_not_lt hpad
    have hge : 4 ≤ (u16At b 2).toNat := by
      simp only [setHeaderLen] at hrange
      omega
    have hlt := (u16At b 2).toNat_lt
    have hbody : ((b.drop 4).take ((u16At b 2).toNat - 4)).length = (u16At b 2).toNat - 4 := by
      rw [List.length_take, List.length_drop]
      omega
    constructor
    · constructor
      · exact SetKind.names_iff.mpr ⟨by simpa using hres, rfl⟩
      · simp only [setHeaderLen, hbody]
        omega
    · have hlen : UInt16.ofNat (4 + ((u16At b 2).toNat - 4)) = u16At b 2 := by
        rw [Nat.add_sub_of_le hge, UInt16.ofNat_toNat]
      have hrest : b.drop (u16At b 2).toNat = (b.drop 4).drop ((u16At b 2).toNat - 4) := by
        rw [List.drop_drop, Nat.add_sub_of_le hge]
      simp only [encode, setHeaderLen, hbody, hlen, hrest, List.append_assoc, List.take_append_drop]
      exact (words_append_drop hpad4).symm
  complete := by
    intro s hs r
    have hpad : ¬ setPadding (s.encode ++ r) := not_setPadding_encode s r
    have hfits := hs.fits
    obtain ⟨hres, hkind⟩ := SetKind.names_iff.mp hs.kind
    have hid : u16At (s.encode ++ r) 0 = s.setId := by simp [encode]
    have hlen : (u16At (s.encode ++ r) 2).toNat = setHeaderLen + s.records.length := by
      have hword : u16At (s.encode ++ r) 2 = UInt16.ofNat (setHeaderLen + s.records.length) := by
        simp [encode, u16At_append_right]
      rw [hword]
      exact UInt16.toNat_ofNat_of_lt (by simp only [setHeaderLen, UInt16.size]; omega)
    have hrange : ¬ (setHeaderLen + s.records.length < setHeaderLen ∨
        (s.encode ++ r).length < setHeaderLen + s.records.length) := by
      simp only [List.length_append, length_encode]
      omega
    have hbody : (s.encode ++ r).drop setHeaderLen = s.records ++ r := by
      have hhead : s.encode ++ r = (u16ToBe s.setId ++
          u16ToBe (UInt16.ofNat (setHeaderLen + s.records.length))) ++ (s.records ++ r) := by
        simp [encode]
      rw [hhead]
      exact List.drop_left' (by simp [setHeaderLen])
    rw [decode_eq hpad, hlen, hid, if_neg hrange, hres, ← hkind, Nat.add_sub_cancel_left, hbody,
      ← List.drop_drop, hbody]
    simp
  not_stop := fun _ r => not_setPadding_encode _ r
  ne_nil := by
    intro s _ h
    have := congrArg List.length h
    simp [setHeaderLen] at this
  ne_panic := Set.decode_ne_panic

theorem Set.decode_eq_err_iff {b : Bytes} (h : ¬ setPadding b) {e : Error} :
    decode b = .err e ↔
      e = .invalidLength ∧ ((u16At b 2).toNat < setHeaderLen ∨ b.length < (u16At b 2).toNat) ∨
      e = .reservedSetId ∧ setHeaderLen ≤ (u16At b 2).toNat ∧ (u16At b 2).toNat ≤ b.length ∧
        isReservedSetId (u16At b 0) := by
  rw [decode_eq h]
  split_ifs with hrange hres
  · have hrange' : ¬ (setHeaderLen ≤ (u16At b 2).toNat ∧ (u16At b 2).toNat ≤ b.length) := by omega
    simp only [Outcome.err.injEq, hrange, and_true, eq_comm (a := e)]
    tauto
  · have hrange' : setHeaderLen ≤ (u16At b 2).toNat ∧ (u16At b 2).toNat ≤ b.length := by omega
    simp [hrange, hrange', hres, eq_comm (a := e)]
  · simp [hrange, hres]

/-- `SetIter` reads the sets of its buffer. -/
theorem SetIter.readsFrames :
    ReadsFrames setPadding Set.decode SetIter.next (fun it b => it = .new b) (fun it => it = .new []) where
  onDone := by
    rintro _ rfl
    exact ⟨.new [], by decide, rfl⟩
  onStop := by
    rintro _ b rfl hpad
    exact ⟨.new [], if_pos hpad, rfl⟩
  onOk := by
    rintro _ b s r rfl hpad hdec
    have hlong : ¬ b.length < setHeaderLen := hpad
    exact ⟨.new r, by simp [next, new, hlong, hdec], rfl⟩
  onErr := by
    rintro _ b e rfl hpad hdec
    have hlong : ¬ b.length < setHeaderLen := hpad
    exact ⟨.new [], by simp [next, new, hlong, hdec], rfl⟩

end IpfixParser
