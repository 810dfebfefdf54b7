import IpfixParser.Model.Collector
import IpfixParser.Proof.SessionIsolation
import IpfixParser.Wire.Template

/-!
# Sending templates again

Feeding a template set to the store a second time changes nothing. A definition that was stored stays,
so what a record met in the end is what the records after it meet, and what all of them meet in the
second pass (`TableStep.insert_settles`). Each pass moves the entries of the same records to the front in
the same order, which done twice is as good as done once.
-/

namespace IpfixParser

open Lib

namespace SessionTemplateStore

variable {M K : Type} [LruMap M (TemplateKey K) OwnedTemplate]

/-- The inserts of a list of records: the outcome of each, and the store after them. -/
def feed (s : K) (odid : UInt32) : List TemplateRecord → SessionTemplateStore M →
    List (TemplateRecord × InsertOutcome) × SessionTemplateStore M
  | [], st => ([], st)
  | r :: rs, st =>
    let (outcome, _, st') := st.insert s odid r
    let (seen, st'') := feed s odid rs st'
    ((r, outcome) :: seen, st'')

theorem feed_cons (s : K) (odid : UInt32) (r : TemplateRecord) (rs : List TemplateRecord)
    (st : SessionTemplateStore M) :
    feed s odid (r :: rs) st =
      ((r, (st.insert s odid r).1) :: (feed s odid rs (st.insert s odid r).2.2).1,
        (feed s odid rs (st.insert s odid r).2.2).2) := rfl

theorem run_feed [DecidableEq K] (s : K) (odid : UInt32) (rs : List TemplateRecord)
    (st : SessionTemplateStore M) : (feed s odid rs st).2 = st.run (rs.map (.insert s odid)) := by
  induction rs generalizing st with
  | nil => rfl
  | cons r rs ih => exact ih _

theorem map_feed {α : Type} (g : TemplateRecord → α) (s : K) (odid : UInt32) (rs : List TemplateRecord)
    (st : SessionTemplateStore M) : (feed s odid rs st).1.map (fun x => g x.1) = rs.map g := by
  induction rs generalizing st with
  | nil => rfl
  | cons r rs ih => rw [feed_cons, List.map_cons, ih, List.map_cons]

theorem foldlM_feedItem (s : K) (odid : UInt32) (rs : List TemplateRecord)
    {errs : List (Result TemplateRecord)} (herrs : ∀ x ∈ errs, ∃ e, x = .error e)
    (seen : List (TemplateRecord × InsertOutcome)) (st : SessionTemplateStore M) :
    (rs.map Except.ok ++ errs).foldlM (feedItem s odid) (seen, st) =
      .ok (seen ++ (feed s odid rs st).1, (feed s odid rs st).2) := by
  induction rs generalizing seen st with
  | nil =>
    rw [feed, List.append_nil, List.map_nil, List.nil_append]
    induction errs with
    | nil => rfl
    | cons x errs ih =>
      obtain ⟨e, rfl⟩ := herrs _ (List.mem_cons_self ..)
      exact ih fun x hx => herrs x (List.mem_cons_of_mem _ hx)
  | cons r rs ih =>
    have hrest := ih (seen ++ [(r, (st.insert s odid r).1)]) (st.insert s odid r).2.2
    rw [List.append_assoc] at hrest
    exact hrest

theorem feedTemplates_eq (kind : TemplateSetKind) (buf : Bytes) (n : Nat) :
    ∃ rs : List TemplateRecord, ∀ {fuel : Nat} {fbuf : List FieldSpecifier}, buf.length + 1 < fuel →
      fbuf.length = n → ∀ (s : K) (odid : UInt32) (st : SessionTemplateStore M),
        feedTemplates fuel s odid fbuf kind buf st = .ok (feed s odid rs st) := by
  have hframing := kind.framing n
  obtain ⟨items, hfr⟩ := hframing.total buf
  obtain ⟨rs, errs, rfl, herrs, hle⟩ : ∃ (rs : List TemplateRecord) (errs : List (Result TemplateRecord)),
      items = rs.map .ok ++ errs ∧ (∀ x ∈ errs, ∃ e, x = .error e) ∧
        (rs.map Except.ok ++ errs).length ≤ buf.length + 1 := by
    obtain ⟨rs, rfl | ⟨e, rfl⟩⟩ := hfr.shape
    · obtain ⟨rest, rfl, -, hrs⟩ := hframing.frames_ok_iff.mp hfr
      have hle := hframing.length_le hrs
      refine ⟨rs, [], by simp, by simp, ?_⟩
      simp only [List.append_nil, List.length_map, List.length_append]
      omega
    · obtain ⟨rest, rfl, -, -, hrs⟩ := hframing.frames_err_iff.mp hfr
      have hle := hframing.length_le hrs
      refine ⟨rs, [.error e], rfl, by simp, ?_⟩
      simp only [List.length_append, List.length_map, List.length_singleton]
      omega
  refine ⟨rs, fun hfuel hn s odid st => ?_⟩
  have hyields : Yields TemplateSetIter.next (.new buf _ kind) (rs.map .ok ++ errs) :=
    (TemplateSetIter.readsFrames kind n).yields ⟨rfl, hn, rfl, rfl⟩ hfr
  rw [feedTemplates]
  exact (whileLet_eq hyields (Nat.lt_of_le_of_lt hle hfuel) _).trans (foldlM_feedItem s odid rs herrs [] st)

end SessionTemplateStore

variable {K : Type} [DecidableEq K]

/-! ### One record -/

/-- The entry that a record has put to the front, by the table that is left in the end. -/
def Table.accepted (final : Table K) (s : K) (odid : UInt32) (r : TemplateRecord) :
    Option (TemplateKey K × OwnedTemplate) :=
  ((findKey (s, odid, r.id) final).filter fun t => t.Agrees r).map fun t => ((s, odid, r.id), t)

/-- What inserting a record again gives. -/
def Table.settled (final : Table K) (s : K) (odid : UInt32) (r : TemplateRecord) : InsertOutcome :=
  if (final.accepted s odid r).isSome then .alreadyPresent else .collision

theorem Table.accepted_of_findKey {final : Table K} {s : K} {odid : UInt32} {r : TemplateRecord}
    {t : OwnedTemplate} (h : findKey (s, odid, r.id) final = some t) :
    final.accepted s odid r = if t.Agrees r then some ((s, odid, r.id), t) else none := by
  rw [accepted, h, Option.filter_some]
  by_cases hagrees : t.Agrees r <;> simp [hagrees]

theorem Table.settled_of_findKey {final : Table K} {s : K} {odid : UInt32} {r : TemplateRecord}
    {t : OwnedTemplate} (h : findKey (s, odid, r.id) final = some t) :
    final.settled s odid r = if t.Agrees r then .alreadyPresent else .collision := by
  rw [settled, accepted_of_findKey h]
  by_cases hagrees : t.Agrees r <;> simp [hagrees]

namespace TableStep

variable {cap : UInt32} {l l' : Table K} {s : K} {odid : UInt32} {r : TemplateRecord}
  {response : StoreResponse} {warnings : List Warning}

/-- With room for it, a record has a definition after its insert: its own, then in front, or one that
it collided with. -/
theorem insert_settles (h : TableStep cap l (.insert s odid r) response warnings l')
    (hroom : findKey (s, odid, r.id) l = none → l.length < cap.toNat) :
    ∃ t, findKey (s, odid, r.id) l' = some t ∧
      l' = (if t.Agrees r then moveToFront l ((s, odid, r.id), t) else l) ∧
      (response = .outcome .collision ↔ ¬ t.Agrees r) ∧
      ∀ t₀, findKey (s, odid, r.id) l = some t₀ →
        t₀ = t ∧ response = .outcome (if t.Agrees r then .alreadyPresent else .collision) := by
  cases h with
  | @refreshed _ _ _ t hsome hagrees =>
    refine ⟨t, by simp [findKey_cons], by rw [if_pos hagrees]; rfl, by simp [hagrees], fun t₀ h₀ => ?_⟩
    rw [if_pos hagrees]
    exact ⟨Option.some.inj (h₀.symm.trans hsome), rfl⟩
  | @collided _ _ _ t hsome hagrees =>
    refine ⟨t, hsome, by rw [if_neg hagrees], by simp [hagrees], fun t₀ h₀ => ?_⟩
    rw [if_neg hagrees]
    exact ⟨Option.some.inj (h₀.symm.trans hsome), rfl⟩
  | rejected hnone hcap =>
    have hlt := hroom hnone
    rw [hcap] at hlt
    exact absurd hlt (Nat.not_lt_zero _)
  | added hnone =>
    have hagrees : (OwnedTemplate.ofRecord r).Agrees r := ⟨rfl, rfl⟩
    refine ⟨.ofRecord r, by simp [findKey_cons], ?_, by simp [hagrees], by simp [hnone]⟩
    rw [if_pos hagrees, moveToFront, eraseKey_of_notMem (findKey_eq_none_iff.mp hnone)]
  | evicted hnone _ hfull => exact absurd (hroom hnone) (by omega)

end TableStep

namespace SessionTemplateStore

variable {M : Type} [LruMap M (TemplateKey K) OwnedTemplate] [LawfulLruMap M]

theorem room_of_not_evicts {st : SessionTemplateStore M} {s : K} {odid : UInt32} {r : TemplateRecord}
    (hlen : st.table.length ≤ st.capacity.toNat) (hcap : st.capacity ≠ 0)
    (hkeep : ∀ key, ¬ (st.event (.insert s odid r)).Evicts key)
    (hnone : findKey (s, odid, r.id) st.table = none) : st.table.length < st.capacity.toNat := by
  by_contra hfull
  have hpos : st.capacity.toNat ≠ 0 := fun h => hcap (UInt32.toNat_inj.mp h)
  have hne : st.table ≠ [] := List.ne_nil_of_length_pos (by omega)
  have hnext := (step_table st (.insert s odid r) hlen).next_eq
  simp only [Table.next, hnone, if_neg hcap, if_neg hfull, Prod.mk.injEq] at hnext
  -- the last entry is the one to go
  have hlast : (st.table.getLast hne).1 ∈ st.table.map Prod.fst :=
    List.mem_map_of_mem (List.getLast_mem hne)
  have hother : (s, odid, r.id) ≠ (st.table.getLast hne).1 := by
    rintro heq
    exact findKey_eq_none_iff.mp hnone (heq ▸ hlast)
  refine hkeep (st.table.getLast hne).1 ⟨⟨s, odid, r, rfl, hother⟩, ?_, ?_⟩
  · rw [← Option.isSome_iff_ne_none]
    exact mem_keys_iff.mp hlast
  · rw [lookup_eq_none_iff]
    show findKey _ (st.step (.insert s odid r)).2.2.table = none
    rw [← hnext.2, findKey_cons, if_neg hother.symm, findKey_dropLast st.nodup_table hne, if_pos rfl]

/-! ### One pass -/

theorem feed_first {s : K} {odid : UInt32} (rs : List TemplateRecord) {st : SessionTemplateStore M}
    (hlen : st.table.length ≤ st.capacity.toNat) (hcap : st.capacity ≠ 0)
    (hkeep : ∀ e ∈ st.events (rs.map (.insert s odid)), ∀ key, ¬ e.Evicts key) :
    let final := (feed s odid rs st).2.table
    (∀ key t, findKey key st.table = some t → findKey key final = some t) ∧
    (∀ r ∈ rs, findKey (s, odid, r.id) final ≠ none) ∧
    final = (rs.filterMap (final.accepted s odid)).foldl moveToFront st.table ∧
    ∀ x ∈ (feed s odid rs st).1,
      (if x.2 = .collision then .collision else .alreadyPresent) = final.settled s odid x.1 := by
  induction rs generalizing st with
  | nil => exact ⟨fun _ _ h => h, by simp, rfl, by simp [feed]⟩
  | cons r rs ih =>
    have hstep := step_table st (.insert s odid r) hlen
    have hkeep₀ : ∀ key, ¬ (st.event (.insert s odid r)).Evicts key := hkeep _ (List.mem_cons_self ..)
    obtain ⟨t, hfound, htable, hcollides, -⟩ :=
      hstep.insert_settles (room_of_not_evicts hlen hcap hkeep₀)
    have hcap₁ := capacity_step st (.insert s odid r)
    have hlen₁ := hstep.length_le hlen
    rw [← hcap₁] at hlen₁
    obtain ⟨hstays, hall, hfinal, houtcomes⟩ := ih hlen₁ (hcap₁ ▸ hcap)
      fun e he => hkeep e (List.mem_cons_of_mem _ he)
    intro final
    have hdef : findKey (s, odid, r.id) final = some t := hstays _ _ hfound
    have hentry := Table.accepted_of_findKey hdef
    refine ⟨fun key t' ht' => ?_, ?_, ?_, ?_⟩
    · rcases hstep.keeps ht' (by simp [StoreOp.Removes]) with h | ⟨hnone, -, -, hother⟩
      · exact hstays _ _ h
      · refine absurd ⟨hother, ?_, lookup_eq_none_iff.mpr hnone⟩ (hkeep₀ key)
        rw [ne_eq, lookup_eq_none_iff, event, ht']
        simp
    · intro r' hr'
      rcases List.mem_cons.mp hr' with rfl | hr'
      · simp [hdef]
      · exact hall r' hr'
    · rw [List.filterMap_cons, hentry]
      refine hfinal.trans ?_
      rw [htable]
      split_ifs <;> rfl
    · intro x hx
      rw [feed_cons] at hx
      rcases List.mem_cons.mp hx with rfl | hx
      · have hcollides' : (st.insert s odid r).1 = .collision ↔ ¬ t.Agrees r := by
          rw [← hcollides]
          exact (StoreResponse.outcome.injEq _ _).symm.to_iff
        rw [Table.settled_of_findKey hdef]
        simp only [hcollides', ite_not]
      · exact houtcomes x hx

theorem feed_again {s : K} {odid : UInt32} {final : Table K} (rs : List TemplateRecord)
    {st : SessionTemplateStore M} (hlen : st.table.length ≤ st.capacity.toNat)
    (hsame : ∀ key, findKey key st.table = findKey key final)
    (hall : ∀ r ∈ rs, findKey (s, odid, r.id) final ≠ none) :
    (feed s odid rs st).1 = rs.map (fun r => (r, final.settled s odid r)) ∧
      (feed s odid rs st).2.table = (rs.filterMap (final.accepted s odid)).foldl moveToFront st.table ∧
      (feed s odid rs st).2.capacity = st.capacity := by
  induction rs generalizing st with
  | nil => exact ⟨rfl, rfl, rfl⟩
  | cons r rs ih =>
    have hstep := step_table st (.insert s odid r) hlen
    have hcap₁ := capacity_step st (.insert s odid r)
    have hlen₁ := hstep.length_le hlen
    rw [← hcap₁] at hlen₁
    obtain ⟨t, hdef⟩ := Option.ne_none_iff_exists'.mp (hall r (List.mem_cons_self ..))
    have hfound := (hsame _).trans hdef
    obtain ⟨t', -, htable, -, hagain⟩ := hstep.insert_settles (by simp [hfound])
    obtain ⟨rfl, houtcome⟩ := hagain t hfound
    have hentry := Table.accepted_of_findKey hdef
    have hsame₁ : ∀ key, findKey key (st.step (.insert s odid r)).2.2.table = findKey key final := by
      intro key
      rw [htable]
      split_ifs
      · rw [findKey_moveToFront hfound, hsame]
      · exact hsame key
    obtain ⟨hseen, hend, hcap⟩ := ih hlen₁ hsame₁ fun r' hr' => hall r' (List.mem_cons_of_mem _ hr')
    have hsettled : (st.insert s odid r).1 = final.settled s odid r := by
      rw [Table.settled_of_findKey hdef]
      exact StoreResponse.outcome.inj houtcome
    rw [feed_cons, List.map_cons, ← hsettled]
    refine ⟨congrArg _ hseen, ?_, hcap.trans hcap₁⟩
    rw [List.filterMap_cons, hentry]
    refine hend.trans ?_
    rw [htable]
    split_ifs <;> rfl

/-! ### Two passes -/

theorem feed_twice {s : K} {odid : UInt32} (rs : List TemplateRecord) {st : SessionTemplateStore M}
    (hlen : st.table.length ≤ st.capacity.toNat) (hcap : st.capacity ≠ 0)
    (hkeep : ∀ e ∈ st.events (rs.map (.insert s odid)), ∀ key, ¬ e.Evicts key) :
    let st₁ := (feed s odid rs st).2
    (feed s odid rs st₁).1 = (feed s odid rs st).1.map (fun x =>
        (x.1, if x.2 = .collision then .collision else .alreadyPresent)) ∧
      (feed s odid rs st₁).2.table = st₁.table ∧ (feed s odid rs st₁).2.capacity = st₁.capacity := by
  intro st₁
  obtain ⟨-, hall, hfinal, houtcomes⟩ := feed_first rs hlen hcap hkeep
  have hlen₁ : st₁.table.length ≤ st₁.capacity.toNat := by
    have hrun := length_run st (rs.map (.insert s odid)) hlen
    rwa [← capacity_run st (rs.map (.insert s odid)), ← run_feed] at hrun
  obtain ⟨hseen, htable, hcap₁⟩ := feed_again rs hlen₁ (fun _ => rfl) hall
  refine ⟨?_, ?_, hcap₁⟩
  · rw [hseen, ← map_feed _ s odid rs st]
    exact List.map_congr_left fun x hx => Prod.ext rfl (houtcomes x hx).symm
  · let entries := rs.filterMap (st₁.table.accepted s odid)
    calc (feed s odid rs st₁).2.table
        = entries.foldl moveToFront st₁.table := htable
      _ = entries.foldl moveToFront (entries.foldl moveToFront st.table) :=
        congrArg (fun l => entries.foldl moveToFront l) hfinal
      _ = entries.foldl moveToFront st.table := foldl_moveToFront_idem _ _
      _ = st₁.table := hfinal.symm

/-- Feeding a template set again, after a pass that dropped nothing, inserts nothing: what collided
collides, all else is already there, and the store is as the first pass left it. -/
theorem template_refresh_idempotent (M : Type) [LruMap M (TemplateKey K) OwnedTemplate]
    [LawfulLruMap M] (c : UInt32) (hc : c ≠ 0) (ops : List (StoreOp K)) (s : K) (odid : UInt32)
    (kind : TemplateSetKind) (buf : Bytes) (fbuf fbuf' : List FieldSpecifier)
    (hfbuf : fbuf'.length = fbuf.length) (fuel : Nat) (hfuel : buf.length + 1 < fuel) :
    ∃ first st₁, feedTemplates fuel s odid fbuf kind buf (after M c ops) = .ok (first, st₁) ∧
      ((∀ e ∈ (after M c ops).events (first.map fun x => .insert s odid x.1), ∀ key, ¬ e.Evicts key) →
        ∃ second st₂, feedTemplates fuel s odid fbuf' kind buf st₁ = .ok (second, st₂) ∧
          second = first.map (fun x =>
            (x.1, if x.2 = .collision then .collision else .alreadyPresent)) ∧
          st₂.table = st₁.table ∧ st₂.capacity = st₁.capacity) := by
  obtain ⟨rs, hfeed⟩ := feedTemplates_eq (M := M) (K := K) kind buf fbuf.length
  refine ⟨_, _, hfeed hfuel rfl s odid _, fun hkeep => ?_⟩
  have hcap : (after M c ops).capacity = c := capacity_run_withCapacity c ops
  have hlen : (after M c ops).table.length ≤ (after M c ops).capacity.toNat := by
    rw [hcap]
    exact length_run_withCapacity c ops
  have hc' : (after M c ops).capacity ≠ 0 := by rwa [hcap]
  rw [map_feed] at hkeep
  exact ⟨_, _, hfeed hfuel hfbuf s odid _, feed_twice rs hlen hc' hkeep⟩

theorem template_refresh_idempotent_conflict :
    let st : SessionTemplateStore (RecencyList (TemplateKey Nat) OwnedTemplate) := withCapacity 2
    let buf : Bytes := [1, 0, 0, 1, 0, 8, 0, 4, 1, 0, 0, 1, 0, 12, 0, 4, 1, 1, 0, 1, 0, 8, 0, 4,
      1, 0, 0, 1, 0, 8, 0, 4, 1, 2, 0, 0]
    let r : TemplateRecord := ⟨256, 0, [⟨8, none, 4⟩]⟩
    let r' : TemplateRecord := ⟨256, 0, [⟨12, none, 4⟩]⟩
    let r₁ : TemplateRecord := ⟨257, 0, [⟨8, none, 4⟩]⟩
    ∃ st₁ st₂,
      feedTemplates 40 0 1 [.empty] .template buf st =
        .ok ([(r, .inserted), (r', .collision), (r₁, .inserted), (r, .alreadyPresent)], st₁) ∧
      feedTemplates 40 0 1 [.empty] .template buf st₁ =
        .ok ([(r, .alreadyPresent), (r', .collision), (r₁, .alreadyPresent), (r, .alreadyPresent)], st₂) ∧
      st₂.table = st₁.table := by
  intro st buf r r' r₁
  obtain ⟨first, st₁, hfirst, hagain⟩ := template_refresh_idempotent
    (RecencyList (TemplateKey Nat) OwnedTemplate) 2 (by decide) [] 0 1 .template buf [.empty] [.empty]
    rfl 40 (by decide)
  have hrun : ∃ st', feedTemplates 40 0 1 [.empty] .template buf st =
      .ok ([(r, .inserted), (r', .collision), (r₁, .inserted), (r, .alreadyPresent)], st') := by
    dsimp only [st, buf, r, r', r₁]
    exact ⟨_, rfl⟩
  obtain ⟨st', hst'⟩ := hrun
  obtain ⟨rfl, rfl⟩ := Prod.mk.inj (Outcome.ok.inj (hst'.symm.trans hfirst))
  have hkept : ∀ e ∈ st.events [.insert 0 1 r, .insert 0 1 r', .insert 0 1 r₁, .insert 0 1 r],
      ∀ k ∈ e.before.table.map Prod.fst, k ∈ e.after.table.map Prod.fst := by decide
  obtain ⟨second, st₂, hsecond, rfl, htable, -⟩ := hagain fun e he key ⟨_, hbefore, hafter⟩ => by
    have hin := hkept e he key (mem_keys_iff.mpr (Option.isSome_iff_ne_none.mpr hbefore))
    exact Option.isSome_iff_ne_none.mp (mem_keys_iff.mp hin) hafter
  exact ⟨_, st₂, hst', hsecond, htable⟩

end SessionTemplateStore

end IpfixParser
