import IpfixParser.Proof.SessionIsolation

/-!
# Removing a session

`remove_session` first collects the keys of a session and then removes them one by one. What it leaves
is the table without the entries of the session, and so the table that is left when the entries are
removed one by one in any order.
-/

namespace IpfixParser

open Lib

namespace SessionTemplateStore

theorem removeAll_eq {M K : Type} [LruMap M (TemplateKey K) OwnedTemplate] (s : K)
    (keys : List (UInt32 × TemplateId)) (st : SessionTemplateStore M) :
    keys.foldl (fun st key => st.remove s key.1 key.2) st =
      ⟨(keys.map (s, ·)).foldl (fun map key => (LruMap.remove map key).2) st.map⟩ := by
  induction keys generalizing st with
  | nil => rfl
  | cons key keys ih => exact ih _

variable {M K : Type} [DecidableEq K] [LruMap M (TemplateKey K) OwnedTemplate] [LawfulLruMap M]
  {st st' : SessionTemplateStore M} {s : K}

theorem responses_congr (ops : List (StoreOp K)) (htable : st'.table = st.table)
    (hcap : st'.capacity = st.capacity) (hlen : st.table.length ≤ st.capacity.toNat) :
    (st'.events ops).map Event.response = (st.events ops).map Event.response := by
  induction ops generalizing st st' with
  | nil => rfl
  | cons op ops ih =>
    have hstep := step_table st op hlen
    have hlen' : st'.table.length ≤ st'.capacity.toNat := by rwa [htable, hcap]
    have hstep' := (step_table st' op hlen').next_eq
    rw [htable, hcap, hstep.next_eq, Prod.mk.injEq] at hstep'
    have hcap' : (st'.step op).2.2.capacity = (st.step op).2.2.capacity := by
      rw [capacity_step, capacity_step, hcap]
    have hlen₁ : (st.step op).2.2.table.length ≤ (st.step op).2.2.capacity.toNat := by
      rw [capacity_step]
      exact hstep.length_le hlen
    have htail := ih hstep'.2.symm hcap' hlen₁
    simp only [events, List.map_cons, htail]
    exact congrArg (· :: _) hstep'.1.symm

theorem removeSession_of_none (h : ∀ e ∈ st.table, e.1.1 ≠ s) : st.removeSession s = st := by
  have hnone : (LruMap.iter st.map).filter (fun e => e.1.1 = s) = [] := by
    rw [List.filter_eq_nil_iff]
    intro e he
    simpa using h e ((LawfulLruMap.iter_perm st.map).mem_iff.mp he)
  rw [removeSession, hnone]
  rfl

theorem filter_keys_of_session {keys : List (UInt32 × TemplateId)}
    (hkeys : ∀ odid id, (odid, id) ∈ keys ↔ (st.view s).get odid id ≠ none) :
    st.table.filter (fun e => e.1 ∉ keys.map (s, ·)) = st.table.filter fun e => e.1.1 ≠ s := by
  refine List.filter_congr fun e he => ?_
  have hfound : e.1 ∈ st.table.map Prod.fst := List.mem_map_of_mem he
  have hmem : e.1 ∈ keys.map (s, ·) ↔ e.1.1 = s := by
    rw [List.mem_map]
    constructor
    · rintro ⟨key, -, heq⟩
      rw [← heq]
    · rintro rfl
      refine ⟨e.1.2, (hkeys _ _).mpr ?_, rfl⟩
      rw [← Option.isSome_iff_ne_none]
      exact mem_keys_iff.mp hfound
  simp only [hmem, ne_eq]

/-- `remove_session` takes out the entries of a session and no other: the survivors keep their
definitions and their order, as when the entries are removed one by one. -/
theorem remove_session_exact (M : Type) [LruMap M (TemplateKey K) OwnedTemplate] [LawfulLruMap M]
    (c : UInt32) (ops : List (StoreOp K)) (s : K) :
    let st := after M c ops
    let st' := st.removeSession s
    (∀ odid id, (st'.view s).get odid id = none) ∧
    (∀ s' odid id, s' ≠ s → (st'.view s').get odid id = (st.view s').get odid id) ∧
    st'.table = st.table.filter (fun e => e.1.1 ≠ s) ∧
    st'.len + (st.table.filter fun e => e.1.1 = s).length = st.len ∧
    (∀ keys : List (UInt32 × TemplateId),
      (∀ odid id, (odid, id) ∈ keys ↔ (st.view s).get odid id ≠ none) →
        let st'' := keys.foldl (fun st key => st.remove s key.1 key.2) st
        st''.table = st'.table ∧ st''.capacity = st'.capacity ∧
        ∀ ops', (st''.events ops').map Event.response = (st'.events ops').map Event.response) ∧
    st'.removeSession s = st' := by
  intro st st'
  have htable : st'.table = st.table.filter fun e => e.1.1 ≠ s := table_removeSession st s
  have hcap : st'.capacity = st.capacity := capacity_removeSession st s
  have hfind : ∀ key, findKey key st'.table = if key.1 ≠ s then findKey key st.table else none := by
    intro key
    rw [htable]
    exact (findKey_filter (fun k : TemplateKey K => decide (k.1 ≠ s)) key st.table).trans (by simp)
  refine ⟨fun odid id => ?_, fun s' odid id hs => ?_, htable, ?_, fun keys hkeys => ?_, ?_⟩
  · rw [get_view, hfind, if_neg (by simp)]
    rfl
  · rw [get_view, get_view, hfind, if_pos hs]
  · rw [len_eq, len_eq, htable, Nat.add_comm]
    have hsplit := List.length_eq_length_filter_add (l := st.table) fun e => decide (e.1.1 = s)
    simpa using hsplit.symm
  · rw [removeAll_eq]
    have hsame := (filter_keys_of_session hkeys).trans htable.symm
    have hsame' := (table_foldl_remove (keys.map (s, ·)) st.map).trans hsame
    have hcap' := (maxLength_foldl_remove (keys.map (s, ·)) st.map).trans hcap.symm
    refine ⟨hsame', hcap', fun ops' => responses_congr ops' hsame' hcap' ?_⟩
    have hlen : st.table.length ≤ c.toNat := length_run_withCapacity c ops
    have hc : st.capacity = c := capacity_run_withCapacity c ops
    rw [hcap, hc, htable]
    exact Nat.le_trans (List.length_filter_le _ _) hlen
  · apply removeSession_of_none
    intro e he
    rw [htable] at he
    simpa using (List.mem_filter.mp he).2

theorem remove_session_exact_two :
    let r (id : TemplateId) : TemplateRecord := ⟨id, 0, [⟨8, none, 4⟩]⟩
    let st := after (RecencyList (TemplateKey Nat) OwnedTemplate) 4
      [.insert 0 1 (r 256), .insert 1 1 (r 256), .insert 0 1 (r 257)]
    (st.removeSession 0).len + 2 = st.len ∧
      ((st.remove 0 1 257).remove 0 1 256).table = (st.removeSession 0).table := by
  intro r st
  have htable : st.table =
      [((0, 1, 257), .ofRecord (r 257)), ((1, 1, 256), .ofRecord (r 256)), ((0, 1, 256), .ofRecord (r 256))] :=
    rfl
  obtain ⟨-, -, -, hlen, hany, -⟩ := remove_session_exact (RecencyList (TemplateKey Nat) OwnedTemplate) 4
    [.insert 0 1 (r 256), .insert 1 1 (r 256), .insert 0 1 (r 257)] 0
  refine ⟨hlen, (hany [(1, 257), (1, 256)] fun odid id => ?_).1⟩
  have hfound : (st.lookup (0, odid, id)).isSome ↔ (0, odid, id) ∈ st.table.map Prod.fst :=
    mem_keys_iff.symm
  rw [Option.isSome_iff_ne_none, htable] at hfound
  exact Iff.trans (by simp) hfound.symm

end SessionTemplateStore

end IpfixParser
