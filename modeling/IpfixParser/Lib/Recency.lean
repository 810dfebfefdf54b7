import Mathlib.Data.Finset.Card
import Mathlib.Data.Finset.Dedup
import Mathlib.Data.List.Induction
import Mathlib.Data.List.Nodup

/-!
# Keys by recency

`recency ks` has each key of `ks` once, the one used last in front. Its first `n` keys are those that fewer
than `n` others have been used after (`mem_take_recency_iff`), and one more use changes them as it changes
a cache of `n` entries that drops the least recently used one.
-/

namespace IpfixParser.Lib

variable {κ : Type} [DecidableEq κ]

/-- The keys of a list from the one used last to the one not used for longest. -/
def recency (ks : List κ) : List κ := ks.foldl (fun order k => k :: order.filter (· ≠ k)) []

theorem recency_concat (ks : List κ) (k : κ) :
    recency (ks ++ [k]) = k :: (recency ks).filter (· ≠ k) := by
  unfold recency
  rw [List.foldl_append]
  rfl

theorem filter_ne_of_notMem {l : List κ} {k : κ} (h : k ∉ l) : l.filter (· ≠ k) = l := by
  rw [List.filter_eq_self]
  rintro key hkey
  rw [decide_eq_true_iff]
  rintro rfl
  exact h hkey

theorem nodup_recency (ks : List κ) : (recency ks).Nodup := by
  induction ks using List.reverseRecOn with
  | nil => exact List.nodup_nil
  | append_singleton ks k ih =>
    rw [recency_concat]
    exact List.nodup_cons.mpr ⟨by simp, ih.filter _⟩

theorem mem_recency {ks : List κ} {key : κ} : key ∈ recency ks ↔ key ∈ ks := by
  induction ks using List.reverseRecOn with
  | nil => exact Iff.rfl
  | append_singleton ks k ih =>
    rw [recency_concat, List.mem_cons, List.mem_append, List.mem_singleton, List.mem_filter, ih,
      decide_eq_true_iff]
    tauto

theorem length_recency (ks : List κ) : (recency ks).length = ks.toFinset.card := by
  rw [← List.toFinset_card_of_nodup (nodup_recency ks)]
  congr 1
  ext key
  rw [List.mem_toFinset, List.mem_toFinset, mem_recency]

theorem map_recency {ι : Type} [DecidableEq ι] {f : κ → ι} {ks : List κ}
    (hf : ∀ a ∈ ks, ∀ b ∈ ks, f a = f b → a = b) : (recency ks).map f = recency (ks.map f) := by
  induction ks using List.reverseRecOn with
  | nil => rfl
  | append_singleton ks k ih =>
    have hlast : k ∈ ks ++ [k] := List.mem_append_right _ (List.mem_singleton_self k)
    have hrest := ih fun a ha b hb => hf a (List.mem_append_left _ ha) b (List.mem_append_left _ hb)
    rw [recency_concat, List.map_cons, List.map_append, List.map_singleton, recency_concat, ← hrest,
      List.filter_map]
    congr 2
    apply List.filter_congr
    intro a ha
    have hne : a ≠ k ↔ f a ≠ f k :=
      not_congr ⟨congrArg f, hf a (List.mem_append_left _ (mem_recency.mp ha)) k hlast⟩
    exact decide_eq_decide.mpr hne

/-! ### The keys used last -/

theorem recency_append (pre : List κ) {post : List κ} {key : κ} (h : key ∉ post) :
    ∃ back, recency (pre ++ key :: post) = recency post ++ key :: back := by
  induction post using List.reverseRecOn with
  | nil => exact ⟨(recency pre).filter (· ≠ key), recency_concat pre key⟩
  | append_singleton post k ih =>
    rw [List.mem_append, List.mem_singleton, not_or] at h
    obtain ⟨back, hback⟩ := ih h.1
    refine ⟨back.filter (· ≠ k), ?_⟩
    rw [← List.cons_append, ← List.append_assoc, recency_concat, recency_concat, hback,
      List.filter_append, List.filter_cons_of_pos (by simpa using h.2)]
    rfl

theorem exists_last_use {ks : List κ} {key : κ} (h : key ∈ ks) :
    ∃ pre post, ks = pre ++ key :: post ∧ key ∉ post := by
  induction ks using List.reverseRecOn with
  | nil => exact absurd h List.not_mem_nil
  | append_singleton ks k ih =>
    by_cases hk : key = k
    · exact ⟨ks, [], by rw [hk], List.not_mem_nil⟩
    · obtain ⟨pre, post, rfl, hpost⟩ := ih ((List.mem_append.mp h).resolve_right (by simpa using hk))
      exact ⟨pre, post ++ [k], by simp, by simp [hpost, hk]⟩

omit [DecidableEq κ] in
theorem mem_take_append_cons {n : Nat} {front back : List κ} {key : κ} (h : key ∉ front) :
    key ∈ (front ++ key :: back).take n ↔ front.length < n := by
  rw [List.take_append, List.mem_append]
  constructor
  · rintro (hmem | hmem)
    · exact absurd (List.mem_of_mem_take hmem) h
    · by_contra hle
      rw [Nat.sub_eq_zero_of_le (Nat.le_of_not_lt hle)] at hmem
      exact List.not_mem_nil hmem
  · intro hlt
    obtain ⟨m, hm⟩ := Nat.exists_eq_succ_of_ne_zero (Nat.sub_ne_zero_of_lt hlt)
    rw [hm, List.take_succ_cons]
    exact .inr (List.mem_cons_self ..)

/-- The `n` keys used last are those with fewer than `n` others after their last use. -/
theorem mem_take_recency_iff {n : Nat} {ks : List κ} {key : κ} :
    key ∈ (recency ks).take n ↔
      ∃ pre post, ks = pre ++ key :: post ∧ key ∉ post ∧ post.toFinset.card < n := by
  constructor
  · intro hmem
    obtain ⟨pre, post, rfl, hpost⟩ := exists_last_use (mem_recency.mp (List.mem_of_mem_take hmem))
    obtain ⟨back, hback⟩ := recency_append pre hpost
    rw [hback, mem_take_append_cons (fun h => hpost (mem_recency.mp h)), length_recency] at hmem
    exact ⟨pre, post, rfl, hpost, hmem⟩
  · rintro ⟨pre, post, rfl, hpost, hlt⟩
    obtain ⟨back, hback⟩ := recency_append pre hpost
    rwa [hback, mem_take_append_cons (fun h => hpost (mem_recency.mp h)), length_recency]

/-! ### One more use -/

theorem take_recency_concat_of_mem {n : Nat} {ks : List κ} {k : κ} (h : k ∈ (recency ks).take n) :
    (recency (ks ++ [k])).take n = k :: ((recency ks).take n).filter (· ≠ k) := by
  obtain ⟨front, back, heq, hfront⟩ := List.eq_append_cons_of_mem (List.mem_of_mem_take h)
  have hback : k ∉ back := by
    have hnodup := nodup_recency ks
    rw [heq, List.nodup_append] at hnodup
    exact (List.nodup_cons.mp hnodup.2.1).1
  rw [heq, mem_take_append_cons hfront] at h
  obtain ⟨m, rfl⟩ := Nat.exists_eq_add_of_lt h
  have hrest : k ∉ back.take m := fun hmem => hback (List.mem_of_mem_take hmem)
  rw [recency_concat, heq, List.filter_append, List.filter_cons_of_neg (by simp),
    filter_ne_of_notMem hfront, filter_ne_of_notMem hback, List.take_succ_cons, List.take_length_add_append,
    Nat.add_assoc, List.take_length_add_append, List.take_succ_cons, List.filter_append,
    List.filter_cons_of_neg (by simp), filter_ne_of_notMem hfront, filter_ne_of_notMem hrest]

theorem take_recency_concat_of_notMem {n : Nat} {ks : List κ} {k : κ} (h : k ∉ (recency ks).take (n + 1)) :
    (recency (ks ++ [k])).take (n + 1) = k :: (recency ks).take n := by
  rw [recency_concat, List.take_succ_cons]
  congr 1
  by_cases hk : k ∈ recency ks
  · obtain ⟨front, back, heq, hfront⟩ := List.eq_append_cons_of_mem hk
    rw [heq, mem_take_append_cons hfront, Nat.not_lt] at h
    have hlong : n ≤ front.length := Nat.le_of_succ_le h
    rw [heq, List.filter_append, filter_ne_of_notMem hfront, List.take_append_of_le_length hlong,
      List.take_append_of_le_length hlong]
  · rw [filter_ne_of_notMem hk]

end IpfixParser.Lib
