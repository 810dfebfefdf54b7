import IpfixParser.Wire.Frame

/-!
# Collecting from a capture

The collector takes more of a frame than its UDP payload: what is behind the datagram comes with it. As
long as every UDP datagram of the capture holds a message that makes no difference to what is printed,
since nothing after a message's declared length is looked at (`emittedFor_captured`).
-/

namespace IpfixParser

open Lib

/-- The payload pushed for a frame. -/
def pushed (extract : Bytes → Outcome Unit Bytes) (frame : Bytes) : Option Bytes :=
  match extract frame with
  | .ok payload => if payload.isEmpty then none else some payload
  | _ => none

theorem payloadsOf_eq {extract : Bytes → Outcome Unit Bytes} (h : ∀ frame, extract frame ≠ .panic)
    (frames : List Bytes) : payloadsOf extract frames = .ok (frames.filterMap (pushed extract)) := by
  have hstep : ∀ out frame, pushPayload extract out frame = .ok (out ++ (pushed extract frame).toList) := by
    intro out frame
    unfold pushPayload pushed
    cases hframe : extract frame with
    | panic => exact absurd hframe (h frame)
    | err e => simp
    | ok payload => cases payload <;> simp
  unfold payloadsOf
  induction frames using List.reverseRecOn with
  | nil => rfl
  | append_singleton frames frame ih =>
    rw [List.foldlM_append, ih, Outcome.ok_bind, List.foldlM_cons, hstep, List.filterMap_append]
    cases hpushed : pushed extract frame <;> simp [hpushed]

theorem pushed_of_message {frame p payload : Bytes} {header : MessageHeader}
    (h : extractUdpPayload frame = .ok p) (hdec : MessageHeader.decode p = .ok (header, payload)) :
    pushed extractUdpPayload frame = some p ∧
      ∃ q, pushed JsonCollector.extractUdpPayload frame = some q ∧
        MessageHeader.decode q = .ok (header, payload) := by
  obtain ⟨rest, hlenient⟩ := JsonCollector.extractUdpPayload_of_ok h
  obtain ⟨hframed, hat⟩ := MessageHeader.decode_eq_ok_iff.mp hdec
  obtain ⟨rfl, -⟩ := Prod.mk.inj hat
  have hpos : p ≠ [] := by
    rintro rfl
    exact absurd hframed.enough (by decide)
  have hempty : p.isEmpty = false := by simpa using hpos
  have hempty' : (p ++ rest).isEmpty = false := by simp [hpos]
  refine ⟨?_, p ++ rest, ?_, ?_⟩
  · simp [pushed, h, hempty]
  · simp [pushed, hlenient, hempty']
  · exact MessageHeader.decode_congr hdec (List.take_append_of_le_length hframed.length_le)

section collect

variable {M : Type} [LruMap M (TemplateKey Unit) OwnedTemplate]

theorem collectAll_congr (tg : Target) (fuel : Nat) {ps qs : List Bytes}
    (h : List.Forall₂ (fun p q => MessageHeader.decode p = MessageHeader.decode q) ps qs) (acc : Emitted)
    (st : CollectorState M) : collectAll tg fuel ps acc st = collectAll tg fuel qs acc st := by
  induction h generalizing acc st with
  | nil => rfl
  | @cons p q ps qs hpq _ ih =>
    have hone : collect tg fuel p acc st = collect tg fuel q acc st := by
      unfold collect
      rw [hpq]
    rw [collectAll, collectAll, hone]
    exact congrArg _ (funext fun x => ih x.1 x.2)

/-- On a capture whose UDP datagrams are messages, the collector prints for its own payloads what it would
print for those that the tests' extractor gives. -/
theorem emittedFor_captured (M : Type) [LruMap M (TemplateKey Unit) OwnedTemplate] (tg : Target)
    {frames : List Bytes}
    (h : ∀ frame ∈ frames, JsonCollector.extractUdpPayload frame = .err () ∨
      ∃ p header payload, extractUdpPayload frame = .ok p ∧
        MessageHeader.decode p = .ok (header, payload)) :
    ∃ ps qs, payloadsOf extractUdpPayload frames = .ok ps ∧
      payloadsOf JsonCollector.extractUdpPayload frames = .ok qs ∧
      ∀ fuel, emittedFor M tg fuel qs = emittedFor M tg fuel ps := by
  refine ⟨_, _, payloadsOf_eq extractUdpPayload_ne_panic frames,
    payloadsOf_eq JsonCollector.extractUdpPayload_ne_panic frames, fun fuel => ?_⟩
  have hsame : List.Forall₂ (fun p q => MessageHeader.decode p = MessageHeader.decode q)
      (frames.filterMap (pushed JsonCollector.extractUdpPayload))
      (frames.filterMap (pushed extractUdpPayload)) := by
    induction frames with
    | nil => exact .nil
    | cons frame frames ih =>
      obtain ⟨hframe, hframes⟩ := List.forall_mem_cons.mp h
      rw [List.filterMap_cons, List.filterMap_cons]
      rcases hframe with hlenient | ⟨p, header, payload, hp, hdec⟩
      · have hstrict : pushed extractUdpPayload frame = none := by
          unfold pushed
          cases hp : extractUdpPayload frame with
          | ok p =>
            obtain ⟨rest, hrest⟩ := JsonCollector.extractUdpPayload_of_ok hp
            rw [hrest] at hlenient
            cases hlenient
          | err e => rfl
          | panic => rfl
        rw [show pushed JsonCollector.extractUdpPayload frame = none by simp [pushed, hlenient], hstrict]
        exact ih hframes
      · obtain ⟨hpushed, q, hpushed', hdec'⟩ := pushed_of_message hp hdec
        rw [hpushed, hpushed']
        exact .cons (hdec'.trans hdec.symm) (ih hframes)
  unfold emittedFor
  rw [collectAll_congr tg fuel hsame]

end collect

theorem emittedFor_captured_padded :
    let message : Bytes := [0, 10, 0, 16, 0, 0, 0, 0, 0, 0, 0, 0, 0, 0, 0, 1]
    let frame : UdpFrame := ⟨List.replicate 12 0, 0x46, 0, List.replicate 5 0, List.replicate 10 0,
      [1, 1, 1, 0], [0, 1, 0, 2], [0, 0], message, [], [7, 7, 7]⟩
    let frames : List Bytes := [frame.encode, List.replicate 12 0 ++ 8 :: 6 :: List.replicate 46 0]
    ∃ ps qs, payloadsOf extractUdpPayload frames = .ok ps ∧
      payloadsOf JsonCollector.extractUdpPayload frames = .ok qs ∧
      ∀ fuel, emittedFor (RecencyList (TemplateKey Unit) OwnedTemplate) .le64 fuel qs =
        emittedFor (RecencyList (TemplateKey Unit) OwnedTemplate) .le64 fuel ps := by
  intro message frame frames
  refine emittedFor_captured _ .le64 fun x hx => ?_
  rcases List.mem_pair.mp hx with rfl | rfl
  · exact .inr ⟨message, ⟨10, 16, 0, 0, 1⟩, [], by decide, by decide⟩
  · exact .inl (by decide)

end IpfixParser
