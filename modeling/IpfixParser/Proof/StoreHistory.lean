import IpfixParser.Proof.StoreTable
import Mathlib.Data.List.Induction
import Mathlib.Tactic.Push

/-!
# Histories of the template store

What a definition found in the store says about the past of a run: it was inserted under that very
key, and nothing since has removed or changed it. Each fact is one about a step of the table, carried
along a run.
-/

namespace IpfixParser

open Lib

theorem StoreOp.insert_key {K : Type} {s : K} {odid : UInt32} {r r' : TemplateRecord} {key : TemplateKey K}
    (hop : StoreOp.insert s odid r = .insert key.1 key.2.1 r') (hid : r'.id = key.2.2) :
    r = r' ∧ key = (s, odid, r.id) := by
  simp only [StoreOp.insert.injEq] at hop
  obtain ⟨rfl, rfl, rfl⟩ := hop
  exact ⟨rfl, by rw [hid]⟩

variable {K : Type} [DecidableEq K]

/-! ### What operations do to one key -/

/-- An operation that takes the definition of a key out on request. -/
def StoreOp.Removes (key : TemplateKey K) (op : StoreOp K) : Prop :=
  op = .remove key.1 key.2.1 key.2.2 ∨ op = .removeSession key.1

/-- The key of an insert that returned `Inserted` or `AlreadyPresent`. -/
def acceptedKey : StoreOp K → StoreResponse → Option (TemplateKey K)
  | .insert s odid r, .outcome .inserted => some (s, odid, r.id)
  | .insert s odid r, .outcome .alreadyPresent => some (s, odid, r.id)
  | _, _ => none

/-- Definitions are stored under their own id. -/
def Table.IdsOk (l : Table K) : Prop := ∀ key t, findKey key l = some t → t.id = key.2.2

namespace TableStep

variable {cap : UInt32} {l l' : Table K} {op : StoreOp K} {response : StoreResponse}
  {warnings : List Warning} {key : TemplateKey K} {t : OwnedTemplate}

theorem origin (h : TableStep cap l op response warnings l') (ht : findKey key l' = some t) :
    (findKey key l = some t ∧ ¬ op.Removes key ∧
        ∀ r, op = .insert key.1 key.2.1 r → r.id = key.2.2 →
          response = .outcome (if t.Agrees r then .alreadyPresent else .collision)) ∨
      ∃ r, op = .insert key.1 key.2.1 r ∧ r.id = key.2.2 ∧ response = .outcome .inserted ∧
        t = .ofRecord r := by
  cases h with
  | @refreshed s odid r t' hsome hagrees =>
    left
    rw [findKey_cons] at ht
    split_ifs at ht with hkey
    · subst hkey
      obtain rfl : t' = t := by simpa using ht
      refine ⟨hsome, by simp [StoreOp.Removes], fun r' hop hid => ?_⟩
      obtain ⟨rfl, -⟩ := StoreOp.insert_key hop hid
      rw [if_pos hagrees]
    · rw [findKey_eraseKey, if_neg hkey] at ht
      exact ⟨ht, by simp [StoreOp.Removes],
        fun r' hop hid => absurd (StoreOp.insert_key hop hid).2 hkey⟩
  | @collided s odid r t' hsome hagrees =>
    refine .inl ⟨ht, by simp [StoreOp.Removes], fun r' hop hid => ?_⟩
    obtain ⟨rfl, rfl⟩ := StoreOp.insert_key hop hid
    obtain rfl : t' = t := by simpa [hsome] using ht
    rw [if_neg hagrees]
  | @rejected s odid r hnone hcap =>
    refine .inl ⟨ht, by simp [StoreOp.Removes], fun r' hop hid => ?_⟩
    obtain ⟨rfl, rfl⟩ := StoreOp.insert_key hop hid
    simp [hnone] at ht
  | @added s odid r hnone hroom =>
    rw [findKey_cons] at ht
    split_ifs at ht with hkey
    · subst hkey
      exact .inr ⟨r, rfl, rfl, rfl, by simpa using ht.symm⟩
    · exact .inl ⟨ht, by simp [StoreOp.Removes],
        fun r' hop hid => absurd (StoreOp.insert_key hop hid).2 hkey⟩
  | @evicted s odid r hnone hcap hfull =>
    rw [findKey_cons] at ht
    split_ifs at ht with hkey
    · subst hkey
      exact .inr ⟨r, rfl, rfl, rfl, by simpa using ht.symm⟩
    · exact .inl ⟨findKey_dropLast_of_some ht, by simp [StoreOp.Removes],
        fun r' hop hid => absurd (StoreOp.insert_key hop hid).2 hkey⟩
  | @removed s odid id =>
    rw [findKey_eraseKey] at ht
    split_ifs at ht with hkey
    refine .inl ⟨ht, ?_, by simp⟩
    rintro (hop | hop)
    · simp only [StoreOp.remove.injEq] at hop
      obtain ⟨rfl, rfl, rfl⟩ := hop
      exact hkey rfl
    · simp at hop
  | @removedSession s =>
    have hfilter := findKey_filter (fun k : TemplateKey K => decide (k.1 ≠ s)) key l
    rw [hfilter] at ht
    split_ifs at ht with hs
    refine .inl ⟨ht, ?_, by simp⟩
    rintro (hop | hop)
    · simp at hop
    · obtain rfl : s = key.1 := by simpa using hop
      simp at hs
  | looked => exact .inl ⟨ht, by simp [StoreOp.Removes], by simp⟩

theorem idsOk (h : TableStep cap l op response warnings l') (hl : Table.IdsOk l) : Table.IdsOk l' := by
  intro key t ht
  rcases h.origin ht with ⟨ht, -⟩ | ⟨r, -, hid, -, rfl⟩
  · exact hl key t ht
  · exact hid

theorem findKey_of_accepted {s : K} {odid : UInt32} {r : TemplateRecord}
    (h : TableStep cap l (.insert s odid r) response warnings l') (hl : Table.IdsOk l) (hcap : cap ≠ 0)
    (hacc : response = .outcome .inserted ∨ response = .outcome .alreadyPresent) :
    findKey (s, odid, r.id) l' = some (.ofRecord r) := by
  cases h with
  | @refreshed _ _ _ t hsome hagrees =>
    obtain ⟨id, scope, fields⟩ := t
    obtain ⟨rfl, rfl⟩ := hagrees
    obtain rfl : id = r.id := hl _ _ hsome
    simp [findKey_cons, OwnedTemplate.ofRecord]
  | collided => simp at hacc
  | rejected _ hcap0 => exact absurd hcap0 hcap
  | added => simp [findKey_cons]
  | evicted => simp [findKey_cons]

theorem agrees_of_accepted {s : K} {odid : UInt32} {r : TemplateRecord}
    (h : TableStep cap l (.insert s odid r) response warnings l')
    (ht : findKey (s, odid, r.id) l = some t)
    (hacc : response = .outcome .inserted ∨ response = .outcome .alreadyPresent) : t.Agrees r := by
  cases h with
  | refreshed hsome hagrees =>
    rw [hsome] at ht
    cases ht
    exact hagrees
  | collided => simp at hacc
  | rejected hnone => simp [hnone] at ht
  | added hnone => simp [hnone] at ht
  | evicted hnone => simp [hnone] at ht

theorem keeps (h : TableStep cap l op response warnings l') (ht : findKey key l = some t)
    (hrem : ¬ op.Removes key) :
    findKey key l' = some t ∨
      findKey key l' = none ∧ response = .outcome .inserted ∧ l.length = cap.toNat ∧
        ∃ s odid r, op = .insert s odid r ∧ (s, odid, r.id) ≠ key := by
  cases h with
  | @refreshed s odid r t' hsome hagrees =>
    left
    rw [findKey_cons]
    split_ifs with hkey
    · subst hkey
      exact hsome.symm.trans ht
    · rw [findKey_eraseKey, if_neg hkey, ht]
  | collided => exact .inl ht
  | rejected => exact .inl ht
  | @added s odid r hnone hroom =>
    left
    rw [findKey_cons, if_neg, ht]
    rintro rfl
    simp [hnone] at ht
  | @evicted s odid r hnone hcap hfull =>
    have hne : key ≠ (s, odid, r.id) := by
      rintro rfl
      simp [hnone] at ht
    rw [findKey_cons, if_neg hne]
    cases hdrop : findKey key l.dropLast with
    | none => exact .inr ⟨rfl, rfl, hfull, s, odid, r, rfl, hne.symm⟩
    | some t' =>
      left
      rw [← ht, findKey_dropLast_of_some hdrop]
  | @removed s odid id =>
    left
    rw [findKey_eraseKey, if_neg, ht]
    rintro rfl
    exact hrem (.inl rfl)
  | @removedSession s =>
    left
    have hfilter := findKey_filter (fun k : TemplateKey K => decide (k.1 ≠ s)) key l
    rw [hfilter, if_pos, ht]
    rw [decide_eq_true_iff]
    rintro rfl
    exact hrem (.inr rfl)
  | looked => exact .inl ht

end TableStep

namespace SessionTemplateStore

variable {M : Type} [LruMap M (TemplateKey K) OwnedTemplate]

/-- The store after a run from `with_capacity(c)`. -/
abbrev after (M : Type) [LruMap M (TemplateKey K) OwnedTemplate] (c : UInt32)
    (ops : List (StoreOp K)) : SessionTemplateStore M :=
  (withCapacity c).run ops

/-- The history of a run from `with_capacity(c)`. -/
abbrev history (M : Type) [LruMap M (TemplateKey K) OwnedTemplate] (c : UInt32)
    (ops : List (StoreOp K)) : List (Event M K) :=
  (withCapacity c : SessionTemplateStore M).events ops

/-- An insert that returned `Inserted` or `AlreadyPresent`. -/
def Event.Accepted (e : Event M K) : Prop :=
  e.response = .outcome .inserted ∨ e.response = .outcome .alreadyPresent

/-- An insert of another key that dropped the definition of `key`. -/
def Event.Evicts (key : TemplateKey K) (e : Event M K) : Prop :=
  (∃ s odid r, e.op = .insert s odid r ∧ (s, odid, r.id) ≠ key) ∧
    e.before.lookup key ≠ none ∧ e.after.lookup key = none

variable {c : UInt32} {ops : List (StoreOp K)} {key : TemplateKey K}

theorem before_of_history {pre post : List (Event M K)} {e : Event M K}
    (h : history M c ops = pre ++ e :: post) :
    ∃ ops₁ ops₂, history M c ops₁ = pre ∧ e = (after M c ops₁).event e.op ∧
      e.after = after M c (ops₁ ++ [e.op]) ∧ post = e.after.events ops₂ ∧
      ops = ops₁ ++ e.op :: ops₂ := by
  obtain ⟨ops₁, ops₂, hops, hpre, he, hpost⟩ := events_eq_append h
  refine ⟨ops₁, ops₂, hpre, he, ?_, hpost.symm, hops⟩
  rw [after, run_concat, he]
  rfl

variable [LawfulLruMap M]

theorem lookup_eq_some_iff {st : SessionTemplateStore M} {t : TemplateRef} :
    st.lookup key = some t ↔ findKey key st.table = some ⟨t.id, t.scopeFieldCount, t.fields⟩ := by
  rw [lookup_eq, Option.map_eq_some_iff]
  constructor
  · rintro ⟨t, h, rfl⟩
    exact h
  · exact fun h => ⟨_, h, rfl⟩

theorem lookup_eq_none_iff {st : SessionTemplateStore M} :
    st.lookup key = none ↔ findKey key st.table = none := by
  rw [lookup_eq, Option.map_eq_none_iff]

theorem idsOk_after (c : UInt32) (ops : List (StoreOp K)) : (after M c ops).table.IdsOk := by
  induction ops using List.reverseRecOn with
  | nil =>
    intro key t ht
    simp [after, run] at ht
  | append_singleton ops op ih =>
    rw [after, run_concat]
    exact (event_table c ops op).idsOk ih

theorem defined_by (key : TemplateKey K) {t : OwnedTemplate}
    (ht : findKey key (after M c ops).table = some t) :
    ∃ (pre : List (Event M K)) (e : Event M K) (post : List (Event M K)) (r : TemplateRecord),
      history M c ops = pre ++ e :: post ∧ e.op = .insert key.1 key.2.1 r ∧ r.id = key.2.2 ∧
      e.response = .outcome .inserted ∧ t = .ofRecord r ∧
      ∀ e' ∈ post, ¬ e'.op.Removes key ∧ ∀ r', e'.op = .insert key.1 key.2.1 r' → r'.id = key.2.2 →
        e'.response = .outcome (if t.Agrees r' then .alreadyPresent else .collision) := by
  induction ops using List.reverseRecOn with
  | nil => simp [after, run] at ht
  | append_singleton ops op ih =>
    rw [after, run_concat] at ht
    rw [history, events_concat]
    -- the last operation either left the definition alone or inserted it
    rcases (event_table c ops op).origin ht with ⟨ht, hrem, hins⟩ | ⟨r, hop, hid, hresp, rfl⟩
    · obtain ⟨pre, e, post, r, hevs, hop, hid, hresp, rfl, hpost⟩ := ih ht
      refine ⟨pre, e, post ++ [(after M c ops).event op], r, by simp [hevs], hop, hid, hresp, rfl,
        fun e' he' => ?_⟩
      rcases List.mem_append.mp he' with he' | he'
      · exact hpost e' he'
      · obtain rfl := List.mem_singleton.mp he'
        exact ⟨hrem, hins⟩
    · exact ⟨_, _, [], r, rfl, hop, hid, hresp, rfl, by simp⟩

theorem lookup_of_accepted (hc : c ≠ 0) {e : Event M K} (he : e ∈ history M c ops) {s : K}
    {odid : UInt32} {r : TemplateRecord} (hop : e.op = .insert s odid r) (hacc : e.Accepted) :
    e.after.lookup (s, odid, r.id) = some (.ofRecord r) := by
  obtain ⟨pre, post, hevs⟩ := List.append_of_mem he
  obtain ⟨ops₁, -, -, hevent, -⟩ := before_of_history hevs
  have hstep := events_table he
  have hids : e.before.table.IdsOk := by
    rw [hevent]
    exact idsOk_after c ops₁
  rw [hop] at hstep
  exact lookup_eq_some_iff.mpr (hstep.findKey_of_accepted hids hc hacc)

theorem keeps_run {t : OwnedTemplate} (ops₁ ops₂ : List (StoreOp K))
    (ht : findKey key (after M c ops₁).table = some t)
    (hkeep : ∀ e ∈ (after M c ops₁).events ops₂, ¬ e.op.Removes key ∧ ¬ e.Evicts key) :
    findKey key (after M c (ops₁ ++ ops₂)).table = some t := by
  induction ops₂ using List.reverseRecOn with
  | nil => simpa using ht
  | append_singleton ops₂ op ih =>
    rw [events_concat] at hkeep
    have hlast := hkeep _ (List.mem_append_right _ (List.mem_singleton_self _))
    rw [← run_append] at hlast
    have hbefore := ih fun e he => hkeep e (List.mem_append_left _ he)
    rw [← List.append_assoc, after, run_concat]
    rcases (event_table c (ops₁ ++ ops₂) op).keeps hbefore hlast.1 with h | ⟨hnone, -, -, hother⟩
    · exact h
    · refine absurd ⟨hother, ?_, lookup_eq_none_iff.mpr hnone⟩ hlast.2
      rw [ne_eq, lookup_eq_none_iff, event, hbefore]
      simp

theorem goes_between (hc : c ≠ 0) {ops : List (StoreOp K)} {pre mid post : List (Event M K)}
    {e e' : Event M K} {s : K} {odid : UInt32} {r r' : TemplateRecord}
    (hevs : history M c ops = pre ++ e :: (mid ++ e' :: post)) (hop : e.op = .insert s odid r)
    (hop' : e'.op = .insert s odid r') (hid : r.id = r'.id) (hacc : e.Accepted) (hacc' : e'.Accepted)
    (hdiff : ¬ (OwnedTemplate.ofRecord r).Agrees r') :
    ∃ e'' ∈ mid, e''.op.Removes (s, odid, r.id) ∨ e''.Evicts (s, odid, r.id) := by
  by_contra hno
  push Not at hno
  obtain ⟨ops₁, ops₂, -, -, hafter, hrest, -⟩ := before_of_history hevs
  obtain ⟨ops₃, ops₄, -, hmid, he', -⟩ := events_eq_append hrest.symm
  rw [hafter, ← run_append] at he'
  -- right after `e` the record of `e` is stored, and nothing up to `e'` takes it out
  have hstored : findKey (s, odid, r.id) (after M c (ops₁ ++ [e.op])).table = some (.ofRecord r) := by
    have hmem : e ∈ history M c ops := by simp [hevs]
    have hlookup := lookup_of_accepted hc hmem hop hacc
    rw [hafter] at hlookup
    exact lookup_eq_some_iff.mp hlookup
  rw [hafter] at hmid
  have hkept := keeps_run (ops₁ ++ [e.op]) ops₃ hstored (by rw [hmid]; exact hno)
  have hmem : e' ∈ history M c ops := by simp [hevs]
  have hstep := events_table hmem
  have hbefore : e'.before.table = (after M c (ops₁ ++ [e.op] ++ ops₃)).table := by
    rw [he']
    rfl
  rw [hid, ← hbefore] at hkept
  rw [hop'] at hstep
  exact hdiff (hstep.agrees_of_accepted hkept hacc')

/-- A definition in the store is the one last inserted for its key, and the exporter cannot replace it
unless it is removed or evicted first. -/
theorem stored_definition_history (M : Type) [LruMap M (TemplateKey K) OwnedTemplate]
    [LawfulLruMap M] (c : UInt32) (hc : c ≠ 0) (ops : List (StoreOp K)) :
    (∀ (s : K) (odid : UInt32) (id : TemplateId) (t : TemplateRef),
      ((after M c ops).view s).get odid id = some t →
      ∃ (pre : List (Event M K)) (e : Event M K) (post : List (Event M K)) (r : TemplateRecord),
        history M c ops = pre ++ e :: post ∧ e.op = .insert s odid r ∧ r.id = id ∧
        e.response = .outcome .inserted ∧ .ofRecord r = t ∧
        ∀ e' ∈ post, ¬ e'.op.Removes (s, odid, id) ∧
          ∀ r', e'.op = .insert s odid r' → r'.id = id →
            e'.response = .outcome
              (if r'.scopeFieldCount = t.scopeFieldCount ∧ r'.fields = t.fields then .alreadyPresent
                else .collision)) ∧
    (∀ e ∈ history M c ops, ∀ s odid r, e.op = .insert s odid r → e.Accepted →
      (e.after.view s).get odid r.id = some (.ofRecord r)) ∧
    (∀ (pre mid post : List (Event M K)) (e e' : Event M K) (s : K) (odid : UInt32)
      (r r' : TemplateRecord), history M c ops = pre ++ e :: (mid ++ e' :: post) →
      e.op = .insert s odid r → e'.op = .insert s odid r' → r.id = r'.id → e.Accepted → e'.Accepted →
      ¬ (r.scopeFieldCount = r'.scopeFieldCount ∧ r.fields = r'.fields) →
      ∃ e'' ∈ mid, e''.op.Removes (s, odid, r.id) ∨ e''.Evicts (s, odid, r.id)) := by
  refine ⟨fun s odid id t ht => ?_, fun e he s odid r hop hacc => lookup_of_accepted hc he hop hacc, ?_⟩
  · obtain ⟨pre, e, post, r, hevs, hop, hid, hresp, heq, hpost⟩ :=
      defined_by (s, odid, id) (lookup_eq_some_iff.mp ht)
    refine ⟨pre, e, post, r, hevs, hop, hid, hresp, ?_, fun e' he' => ⟨(hpost e' he').1, ?_⟩⟩
    · obtain ⟨tid, scope, fields⟩ := t
      simp only [OwnedTemplate.ofRecord, OwnedTemplate.mk.injEq] at heq
      obtain ⟨rfl, rfl, rfl⟩ := heq
      rfl
    · intro r' hop' hid'
      rw [(hpost e' he').2 r' hop' hid']
      have hiff : (⟨t.id, t.scopeFieldCount, t.fields⟩ : OwnedTemplate).Agrees r' ↔
          r'.scopeFieldCount = t.scopeFieldCount ∧ r'.fields = t.fields := by
        simp only [OwnedTemplate.Agrees, eq_comm]
      simp only [hiff]
  · intro pre mid post e e' s odid r r' hevs hop hop' hid hacc hacc' hdiff
    exact goes_between hc hevs hop hop' hid hacc hacc' hdiff

theorem stored_definition_history_redefined :
    let r : TemplateRecord := ⟨256, 0, [⟨8, none, 4⟩]⟩
    let r' : TemplateRecord := ⟨256, 0, [⟨12, none, 4⟩]⟩
    let ops : List (StoreOp Nat) := [.insert 0 1 r, .insert 0 1 r', .get 0 1 256]
    ∃ (pre : List (Event (RecencyList (TemplateKey Nat) OwnedTemplate) Nat)) (e : Event _ Nat)
      (post : List (Event _ Nat)) (r₀ : TemplateRecord),
      history (RecencyList (TemplateKey Nat) OwnedTemplate) 1 ops = pre ++ e :: post ∧
        e.op = .insert 0 1 r₀ ∧ e.response = .outcome .inserted ∧ .ofRecord r₀ = TemplateRef.ofRecord r := by
  intro r r' ops
  have h := stored_definition_history (K := Nat) (RecencyList (TemplateKey Nat) OwnedTemplate) 1
    (by decide) ops
  obtain ⟨pre, e, post, r₀, hevs, hop, -, hresp, heq, -⟩ := h.1 0 1 256 (.ofRecord r) rfl
  exact ⟨pre, e, post, r₀, hevs, hop, hresp, heq⟩

end SessionTemplateStore

end IpfixParser
