import IpfixParser.Proof.StoreHistory

/-!
# Sessions do not see each other

As long as nothing has to be dropped, what one session is answered is what it would be answered by a
store of its own: the entries of the session in the shared table are, in the same order, the table of
the run that performs the session's operations only.
-/

namespace IpfixParser

open Lib

variable {K : Type} [DecidableEq K]

/-- The entries of one session. -/
def Table.own (s : K) (l : Table K) : Table K := l.filter fun e => e.1.1 = s

/-- The response to an operation, and the table after it. -/
def Table.next (cap : UInt32) (l : Table K) : StoreOp K → StoreResponse × Table K
  | .insert s odid r =>
    match findKey (s, odid, r.id) l with
    | some t =>
      if t.Agrees r then (.outcome .alreadyPresent, ((s, odid, r.id), t) :: eraseKey (s, odid, r.id) l)
      else (.outcome .collision, l)
    | none =>
      if cap = 0 then (.outcome .inserted, l)
      else if l.length < cap.toNat then (.outcome .inserted, ((s, odid, r.id), .ofRecord r) :: l)
      else (.outcome .inserted, ((s, odid, r.id), .ofRecord r) :: l.dropLast)
  | .remove s odid id => (.done, eraseKey (s, odid, id) l)
  | .removeSession s => (.done, l.filter fun e => e.1.1 ≠ s)
  | .get s odid id => (.found ((findKey (s, odid, id) l).map OwnedTemplate.toRef), l)

namespace Table

variable {s : K} {l : Table K} {key : TemplateKey K}

theorem findKey_own (h : key.1 = s) : findKey key (own s l) = findKey key l := by
  have hfilter := findKey_filter (fun k : TemplateKey K => decide (k.1 = s)) key l
  rw [own, hfilter, if_pos (by simpa using h)]

theorem own_eraseKey : own s (eraseKey key l) = eraseKey key (own s l) := by
  simp only [own, eraseKey, List.filter_filter, Bool.and_comm]

theorem own_cons_of_ne {t : OwnedTemplate} (h : key.1 ≠ s) : own s ((key, t) :: l) = own s l :=
  List.filter_cons_of_neg (by simpa using h)

theorem own_cons_of_eq {t : OwnedTemplate} (h : key.1 = s) : own s ((key, t) :: l) = (key, t) :: own s l :=
  List.filter_cons_of_pos (by simpa using h)

theorem own_eraseKey_of_ne (h : key.1 ≠ s) : own s (eraseKey key l) = own s l := by
  rw [own_eraseKey]
  apply eraseKey_of_notMem
  rintro hmem
  obtain ⟨e, he, rfl⟩ := List.mem_map.mp hmem
  exact h (by simpa [own] using (List.mem_filter.mp he).2)

end Table

namespace TableStep

variable {cap : UInt32} {l l' : Table K} {op : StoreOp K} {response : StoreResponse}
  {warnings : List Warning} {s : K}

theorem next_eq (h : TableStep cap l op response warnings l') : l.next cap op = (response, l') := by
  cases h with
  | refreshed hsome hagrees => simp [Table.next, hsome, hagrees]
  | collided hsome hagrees => simp [Table.next, hsome, hagrees]
  | rejected hnone hcap => simp [Table.next, hnone, hcap]
  | added hnone hroom =>
    have hcap : cap ≠ 0 := by
      rintro rfl
      simp at hroom
    simp [Table.next, hnone, hcap, hroom]
  | evicted hnone hcap hfull => simp [Table.next, hnone, hcap, hfull]
  | removed => rfl
  | removedSession => rfl
  | looked => rfl

theorem own (h : TableStep cap l op response warnings l') (hs : op.session = s)
    (hroom : ∀ s' odid r, op = .insert s' odid r → findKey (s', odid, r.id) l = none →
      l.length < cap.toNat) :
    ∃ warnings', TableStep cap (l.own s) op response warnings' (l'.own s) := by
  cases h with
  | @refreshed s' odid r t hsome hagrees =>
    obtain rfl : s' = s := hs
    rw [Table.own_cons_of_eq (rfl : (s', odid, r.id).1 = s'), Table.own_eraseKey]
    exact ⟨_, .refreshed ((Table.findKey_own rfl).trans hsome) hagrees⟩
  | @collided s' odid r t hsome hagrees =>
    obtain rfl : s' = s := hs
    exact ⟨_, .collided ((Table.findKey_own rfl).trans hsome) hagrees⟩
  | rejected hnone hcap =>
    have := hroom _ _ _ rfl hnone
    simp [hcap] at this
  | @added s' odid r hnone hlt =>
    obtain rfl : s' = s := hs
    rw [Table.own_cons_of_eq (rfl : (s', odid, r.id).1 = s')]
    exact ⟨_, .added ((Table.findKey_own rfl).trans hnone)
      (Nat.lt_of_le_of_lt List.filter_sublist.length_le hlt)⟩
  | evicted hnone _ hfull =>
    have := hroom _ _ _ rfl hnone
    omega
  | removed =>
    rw [Table.own_eraseKey]
    exact ⟨_, .removed⟩
  | @removedSession s' =>
    have hcomm : Table.own s (l.filter fun e => e.1.1 ≠ s') =
        (Table.own s l).filter fun e => e.1.1 ≠ s' := by
      simp only [Table.own, List.filter_filter, Bool.and_comm]
    rw [hcomm]
    exact ⟨_, .removedSession⟩
  | @looked s' odid id =>
    obtain rfl : s' = s := hs
    have hlook : findKey (s', odid, id) (Table.own s' l) = findKey (s', odid, id) l :=
      Table.findKey_own rfl
    rw [← hlook]
    exact ⟨_, .looked⟩

theorem own_other (h : TableStep cap l op response warnings l') (hs : op.session ≠ s)
    (hroom : ∀ s' odid r, op = .insert s' odid r → findKey (s', odid, r.id) l = none →
      l.length < cap.toNat) :
    l'.own s = l.own s := by
  cases h with
  | refreshed => rw [Table.own_cons_of_ne hs, Table.own_eraseKey_of_ne hs]
  | collided => rfl
  | rejected => rfl
  | added => exact Table.own_cons_of_ne hs
  | evicted hnone _ hfull =>
    have := hroom _ _ _ rfl hnone
    omega
  | removed => exact Table.own_eraseKey_of_ne hs
  | @removedSession s' =>
    rw [Table.own, List.filter_filter]
    apply List.filter_congr
    intro e _
    have hs' : s' ≠ s := hs
    by_cases he : e.1.1 = s
    · simp [he, hs'.symm]
    · simp [he]
  | looked => rfl

end TableStep

namespace SessionTemplateStore

variable {M : Type} [LruMap M (TemplateKey K) OwnedTemplate] [LawfulLruMap M]

/-- No insert of a new key meets a full store. -/
def Event.HasRoom (e : Event M K) : Prop :=
  ∀ s odid r, e.op = .insert s odid r → (e.before.view s).get odid r.id = none →
    e.before.len < e.before.capacity.toNat

/-- The shared store and the session's own store run in step. -/
theorem responses_own {s : K} (ops : List (StoreOp K)) {st st' : SessionTemplateStore M}
    (htable : st'.table = st.table.own s) (hcap : st'.capacity = st.capacity)
    (hlen : st.table.length ≤ st.capacity.toNat) (hroom : ∀ e ∈ st.events ops, e.HasRoom) :
    ((st.events ops).filter fun e => e.op.session = s).map Event.response =
      (st'.events (ops.filter fun op => op.session = s)).map Event.response := by
  induction ops generalizing st st' with
  | nil => rfl
  | cons op ops ih =>
    have hstep := step_table st op hlen
    have hcap₁ := capacity_step st op
    have hlen₁ : (st.step op).2.2.table.length ≤ (st.step op).2.2.capacity.toNat := by
      rw [hcap₁]
      exact hstep.length_le hlen
    have hroom₀ : ∀ s' odid r, op = .insert s' odid r → findKey (s', odid, r.id) st.table = none →
        st.table.length < st.capacity.toNat := by
      intro s' odid r hop hnone
      have hget : (st.view s').get odid r.id = none := by
        rw [get_view, hnone]
        rfl
      have := hroom (st.event op) (List.mem_cons_self ..) s' odid r hop hget
      rwa [len_eq] at this
    have hroom₁ : ∀ e ∈ (st.step op).2.2.events ops, e.HasRoom :=
      fun e he => hroom e (List.mem_cons_of_mem _ he)
    by_cases hs : op.session = s
    · obtain ⟨warnings', hown⟩ := hstep.own hs hroom₀
      have hlen' : st'.table.length ≤ st'.capacity.toNat := by
        rw [htable, hcap]
        exact Nat.le_trans List.filter_sublist.length_le hlen
      have hstep' := (step_table st' op hlen').next_eq
      rw [htable, hcap, hown.next_eq, Prod.mk.injEq] at hstep'
      have hcap' : (st'.step op).2.2.capacity = (st.step op).2.2.capacity := by
        rw [capacity_step, hcap₁, hcap]
      have htail := ih hstep'.2.symm hcap' hlen₁ hroom₁
      have hev : (st.event op).op.session = s := hs
      simp only [events, List.filter_cons, hs, hev, decide_true, if_true, List.map_cons, htail]
      exact congrArg (· :: _) hstep'.1
    · have htable' : st'.table = (st.step op).2.2.table.own s := by
        rw [hstep.own_other hs hroom₀, htable]
      have htail := ih htable' (hcap.trans hcap₁.symm) hlen₁ hroom₁
      have hev : ¬ (st.event op).op.session = s := hs
      simp only [events, List.filter_cons, hs, hev, decide_false, if_false, Bool.false_eq_true, htail]

/-- Without eviction, a session is answered as if it were alone. -/
theorem session_isolation (M : Type) [LruMap M (TemplateKey K) OwnedTemplate] [LawfulLruMap M]
    (c : UInt32) (ops : List (StoreOp K)) (s : K)
    (hroom : ∀ e ∈ history M c ops, ∀ s' odid r, e.op = .insert s' odid r →
      (e.before.view s').get odid r.id = none → e.before.len < c.toNat) :
    ((history M c ops).filter fun e => e.op.session = s).map Event.response =
      (history M c (ops.filter fun op => op.session = s)).map Event.response := by
  refine responses_own ops (by simp [Table.own]) rfl (by simp) fun e he s' odid r hop hnone => ?_
  obtain ⟨pre, post, hevs⟩ := List.append_of_mem he
  obtain ⟨ops₁, -, -, he', -⟩ := before_of_history hevs
  have hcap : e.before.capacity = c := by
    rw [he']
    exact capacity_run_withCapacity c ops₁
  rw [hcap]
  exact hroom e he s' odid r hop hnone

theorem session_isolation_same_id :
    let r : TemplateRecord := ⟨256, 0, [⟨8, none, 4⟩]⟩
    let r' : TemplateRecord := ⟨256, 0, [⟨12, none, 4⟩]⟩
    let ops : List (StoreOp Nat) := [.insert 0 1 r, .insert 1 1 r', .removeSession 0, .get 1 1 256]
    ((history (RecencyList (TemplateKey Nat) OwnedTemplate) 2 ops).filter fun e => e.op.session = 1).map
        Event.response =
      (history (RecencyList (TemplateKey Nat) OwnedTemplate) 2 [.insert 1 1 r', .get 1 1 256]).map
        Event.response := by
  intro r r' ops
  refine session_isolation (K := Nat) (RecencyList (TemplateKey Nat) OwnedTemplate) 2 ops 1 ?_
  rintro e he s odid r₀ hop -
  rcases he with _ | ⟨_, _ | ⟨_, _ | ⟨_, _ | ⟨_, ⟨⟩⟩⟩⟩⟩
  · decide
  · decide
  · cases hop
  · cases hop

end SessionTemplateStore

end IpfixParser
