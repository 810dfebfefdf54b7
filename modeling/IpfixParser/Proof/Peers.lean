import IpfixParser.Proof.Receiver
import IpfixParser.Proof.RoundTrip
import Mathlib.Data.List.Dedup
import Mathlib.Data.List.Perm.Subperm
import Mathlib.Logic.Function.Basic

/-!
# Peers do not see each other

While the store has room for every template that is defined, it stands for one `Knowledge` for each
session (`SessionTemplateStore.Holds`), and a datagram changes only that of its own session. So what the
receiver prints for the datagrams of a peer's address is what it would print if no other datagrams came
in, and only a peer's own datagrams can keep the receiver from getting to them.
-/

namespace IpfixParser

open Lib

variable {K M : Type} [DecidableEq K] [LruMap M (TemplateKey K) OwnedTemplate]

/-! ### The store as one memory for each session -/

theorem TableStep.mem_keys {cap : UInt32} {l l' : Table K} {op : StoreOp K} {response : StoreResponse}
    {warnings : List Warning} {key : TemplateKey K} (h : TableStep cap l op response warnings l')
    (hkey : key ∈ l'.map Prod.fst) :
    key ∈ l.map Prod.fst ∨ ∃ s odid r, op = .insert s odid r ∧ key = (s, odid, r.id) := by
  have hsub : ∀ {l₁ : Table K}, l₁.Sublist l → key ∈ l₁.map Prod.fst → key ∈ l.map Prod.fst :=
    fun hl hmem => (hl.map _).subset hmem
  cases h with
  | @refreshed s odid r t =>
    rcases List.mem_cons.mp hkey with rfl | hkey
    · exact .inr ⟨s, odid, r, rfl, rfl⟩
    · exact .inl (hsub List.filter_sublist hkey)
  | collided => exact .inl hkey
  | rejected => exact .inl hkey
  | @added s odid r =>
    rcases List.mem_cons.mp hkey with rfl | hkey
    · exact .inr ⟨s, odid, r, rfl, rfl⟩
    · exact .inl hkey
  | @evicted s odid r =>
    rcases List.mem_cons.mp hkey with rfl | hkey
    · exact .inr ⟨s, odid, r, rfl, rfl⟩
    · exact .inl (hsub (List.dropLast_sublist _) hkey)
  | removed => exact .inl (hsub List.filter_sublist hkey)
  | removedSession => exact .inl (hsub List.filter_sublist hkey)
  | looked => exact .inl hkey

/-- The store holds what each session has defined, and has room for all of `keys`. -/
structure SessionTemplateStore.Holds (keys : List (TemplateKey K)) (known : K → Knowledge)
    (st : SessionTemplateStore M) : Prop where
  known : ∀ s odid id, (st.view s).get odid id = known s odid id
  within : st.table.map Prod.fst ⊆ keys
  room : keys.dedup.length ≤ st.capacity.toNat

namespace SessionTemplateStore

variable [LawfulLruMap M] {keys : List (TemplateKey K)} {known : K → Knowledge}
  {st : SessionTemplateStore M} {s : K} {odid : UInt32} {r : TemplateRecord}

theorem Holds.length_lt (h : st.Holds keys known) {key : TemplateKey K} (hkey : key ∈ keys)
    (hnew : key ∉ st.table.map Prod.fst) : st.table.length < st.capacity.toNat := by
  have hsub : key :: st.table.map Prod.fst ⊆ keys.dedup := by
    intro key' hmem
    rw [List.mem_dedup]
    rcases List.mem_cons.mp hmem with rfl | hmem
    · exact hkey
    · exact h.within hmem
  have hnodup : (key :: st.table.map Prod.fst).Nodup := List.nodup_cons.mpr ⟨hnew, st.nodup_table⟩
  have hle := (hnodup.subperm hsub).length_le
  have hroom := h.room
  rw [List.length_cons, List.length_map] at hle
  omega

theorem Holds.bounded (h : st.Holds keys known) : st.table.length ≤ st.capacity.toNat := by
  have hsub : st.table.map Prod.fst ⊆ keys.dedup := fun key hkey => List.mem_dedup.mpr (h.within hkey)
  have hle := (st.nodup_table.subperm hsub).length_le
  have hroom := h.room
  rw [List.length_map] at hle
  omega

theorem lookup_get {key : TemplateKey K} {t : OwnedTemplate}
    (h : findKey key st.table = some t) (key' : TemplateKey K) :
    (⟨(LruMap.get st.map key).2⟩ : SessionTemplateStore M).lookup key' = st.lookup key' := by
  have hpeek : LruMap.peek st.map key = some t := by
    rw [LawfulLruMap.peek_eq]
    exact h
  rw [lookup_eq, lookup_eq]
  simp only [table, LawfulLruMap.order_get _ _ _ hpeek, findKey_cons, findKey_eraseKey]
  split_ifs with hkey
  · rw [hkey]
    exact congrArg (Option.map OwnedTemplate.toRef) h.symm
  · rfl

theorem Holds.insert (h : st.Holds keys known) (hr : (s, odid, r.id) ∈ keys) :
    (st.insert s odid r).1 = ((known s).define odid r).1 ∧
      ∀ s' odid' id, ((st.insert s odid r).2.2.view s').get odid' id =
        Function.update known s ((known s).define odid r).2 s' odid' id := by
  have hknown : known s odid r.id = (findKey (s, odid, r.id) st.table).map OwnedTemplate.toRef := by
    rw [← h.known, get_view]
  unfold Knowledge.define
  rw [hknown]
  cases hfind : findKey (s, odid, r.id) st.table with
  | some t =>
    simp only [insert_of_some hfind, Option.map_some, OwnedTemplate.toRef]
    by_cases hagrees : t.Agrees r
    · have hsame : t.scopeFieldCount = r.scopeFieldCount ∧ t.fields = r.fields := hagrees
      simp only [if_pos hagrees, if_pos hsame, Function.update_eq_self]
      exact ⟨trivial, fun s' odid' id => (lookup_get hfind (s', odid', id)).trans (h.known s' odid' id)⟩
    · have hdiff : ¬ (t.scopeFieldCount = r.scopeFieldCount ∧ t.fields = r.fields) := hagrees
      simp only [if_neg hagrees, if_neg hdiff, Function.update_eq_self]
      exact ⟨trivial, h.known⟩
  | none =>
    have hnew : (s, odid, r.id) ∉ st.table.map Prod.fst := by
      rw [mem_keys_iff, lookup_eq, hfind]
      simp
    have hnone : (st.view s).get odid r.id = none := by
      rw [get_view, hfind]
      rfl
    have hget := lookup_insert (fun _ => h.length_lt hr hnew) (by rw [hnone]; exact fun t ht => nomatch ht)
    refine ⟨by rw [insert_of_none hfind]; rfl, fun s' odid' id => (hget (s', odid', id)).trans ?_⟩
    simp only [Option.map_none]
    by_cases hs : s' = s
    · subst hs
      rw [Function.update_self]
      by_cases hkey : odid' = odid ∧ id = r.id
      · obtain ⟨rfl, rfl⟩ := hkey
        rw [if_pos rfl, if_pos ⟨rfl, rfl⟩]
      · have hne : (s', odid', id) ≠ (s', odid, r.id) := by simpa using hkey
        rw [if_neg hne, if_neg hkey, ← h.known]
        rfl
    · have hne : (s', odid', id) ≠ (s, odid, r.id) := fun heq => hs (Prod.mk.inj heq).1
      rw [Function.update_of_ne hs, if_neg hne, ← h.known]
      rfl

theorem Holds.define (h : st.Holds keys known) (hr : (s, odid, r.id) ∈ keys) :
    (st.insert s odid r).1 = ((known s).define odid r).1 ∧
      (st.insert s odid r).2.2.Holds keys (Function.update known s ((known s).define odid r).2) := by
  obtain ⟨houtcome, hget⟩ := h.insert hr
  have hstep := step_table st (.insert s odid r) h.bounded
  have hcap : (st.insert s odid r).2.2.capacity = st.capacity := capacity_step st (.insert s odid r)
  refine ⟨houtcome, hget, ?_, ?_⟩
  · intro key hkey
    rcases hstep.mem_keys hkey with hold | ⟨s', odid', r', hop, rfl⟩
    · exact h.within hold
    · obtain ⟨rfl, rfl, rfl⟩ := StoreOp.insert.inj hop
      exact hr
  · rw [hcap]
    exact h.room

theorem agree_knowledge (keys : List (TemplateKey K)) (known : K → Knowledge) (s : K) (odid : UInt32) :
    (dictionary s).Agree Knowledge.dictionary odid (fun r => (s, odid, r.id) ∈ keys)
      fun (st : SessionTemplateStore M) k => st.Holds keys (Function.update known s k) where
  get := by
    intro st k id h
    have hget := h.known s odid id
    rwa [Function.update_self] at hget
  define := by
    intro st k r h hr
    have hdefine := h.define hr
    rwa [Function.update_self, Function.update_idem] at hdefine

/-! ### Streams -/

/-- The datagrams of one session. -/
def datagramsOf (s : K) (stream : List (K × Bytes)) : List Bytes :=
  (stream.filter fun x => x.1 = s).map Prod.snd

/-- Of a list with an entry for each datagram, the entries of one session. -/
def entriesOf {α : Type} (s : K) (stream : List (K × Bytes)) (entries : List α) : List α :=
  ((stream.zip entries).filter fun x => x.1.1 = s).map Prod.snd

theorem datagramsOf_cons_self (s : K) (datagram : Bytes) (stream : List (K × Bytes)) :
    datagramsOf s ((s, datagram) :: stream) = datagram :: datagramsOf s stream := by
  simp [datagramsOf]

theorem datagramsOf_cons_of_ne {s s₀ : K} (h : s₀ ≠ s) (datagram : Bytes) (stream : List (K × Bytes)) :
    datagramsOf s ((s₀, datagram) :: stream) = datagramsOf s stream := by
  simp [datagramsOf, h]

theorem entriesOf_cons_self {α : Type} (s : K) (datagram : Bytes) (stream : List (K × Bytes)) (a : α)
    (entries : List α) : entriesOf s ((s, datagram) :: stream) (a :: entries) =
      a :: entriesOf s stream entries := by
  simp [entriesOf]

theorem entriesOf_cons_of_ne {α : Type} {s s₀ : K} (h : s₀ ≠ s) (datagram : Bytes)
    (stream : List (K × Bytes)) (a : α) (entries : List α) :
    entriesOf s ((s₀, datagram) :: stream) (a :: entries) = entriesOf s stream entries := by
  simp [entriesOf, h]

theorem Holds.observe {n : Nat} {datagram : Bytes} (h : st.Holds keys known)
    (hkeys : taughtKeys n s datagram ⊆ keys) :
    Option.Rel (fun x x' => x.1 = x'.1 ∧ x.2.Holds keys (Function.update known s x'.2))
      ((dictionary s).observe n datagram st) (Knowledge.dictionary.observe n datagram (known s)) := by
  refine Dictionary.observe_agree (agree_knowledge keys known s) ?_ (by rwa [Function.update_eq_self])
  intro header payload hdec r hr
  apply hkeys
  unfold taughtKeys
  rw [hdec]
  exact List.mem_map_of_mem hr

theorem Holds.observe_some {n : Nat} {datagram : Bytes} (h : st.Holds keys known)
    (hkeys : taughtKeys n s datagram ⊆ keys) {o : Observed} {st₁ : SessionTemplateStore M}
    (hobserve : (dictionary s).observe n datagram st = some (o, st₁)) :
    ∃ k, Knowledge.dictionary.observe n datagram (known s) = some (o, k) ∧
      st₁.Holds keys (Function.update known s k) := by
  have hrel := h.observe hkeys
  rw [hobserve] at hrel
  generalize Knowledge.dictionary.observe n datagram (known s) = y at hrel
  cases hrel with
  | @some x x' hx =>
    obtain ⟨o', k⟩ := x'
    obtain ⟨rfl, hholds⟩ : o = o' ∧ _ := hx
    exact ⟨k, rfl, hholds⟩

theorem Holds.observe_of_known {n : Nat} {datagram : Bytes} (h : st.Holds keys known)
    (hkeys : taughtKeys n s datagram ⊆ keys) {o : Observed} {k : Knowledge}
    (hknown : Knowledge.dictionary.observe n datagram (known s) = some (o, k)) :
    ∃ st₁, (dictionary s).observe n datagram st = some (o, st₁) ∧
      st₁.Holds keys (Function.update known s k) := by
  have hrel := h.observe hkeys
  rw [hknown] at hrel
  generalize (dictionary s).observe n datagram st = y at hrel
  cases hrel with
  | @some x x' hx =>
    obtain ⟨o', st₁⟩ := x
    obtain ⟨rfl, hholds⟩ : o' = o ∧ _ := hx
    exact ⟨st₁, rfl, hholds⟩

theorem observeAll_datagramsOf_cons {n : Nat} {s₀ : K} {datagram : Bytes} {o : Observed} {k : Knowledge}
    (hknown : Knowledge.dictionary.observe n datagram (known s₀) = some (o, k)) (stream : List (K × Bytes))
    (s : K) : Knowledge.observeAll n (datagramsOf s ((s₀, datagram) :: stream)) (known s) =
      (Knowledge.observeAll n (datagramsOf s stream) (Function.update known s₀ k s)).map fun x =>
        (if s₀ = s then o :: x.1 else x.1, x.2) := by
  by_cases hs : s₀ = s
  · subst hs
    rw [datagramsOf_cons_self, Knowledge.observeAll, hknown, Function.update_self, Option.map_eq_bind]
    simp only [Option.bind_eq_bind, Option.bind_some, if_true]
    rfl
  · rw [datagramsOf_cons_of_ne hs, Function.update_of_ne (Ne.symm hs)]
    simp only [if_neg hs]
    exact Option.map_id'.symm

/-- A stream does to the store what the datagrams of each session do to its memory, and has no end of
items exactly if the datagrams of one session have none. -/
theorem Holds.observeAll {n : Nat} {stream : List (K × Bytes)} (h : st.Holds keys known)
    (hkeys : streamKeys n stream ⊆ keys) :
    (∀ observed st', SessionTemplateStore.observeAll n stream st = some (observed, st') →
      ∃ known', st'.Holds keys known' ∧ ∀ s, Knowledge.observeAll n (datagramsOf s stream) (known s) =
        some (entriesOf s stream observed, known' s)) ∧
    (SessionTemplateStore.observeAll n stream st = none →
      ∃ s, Knowledge.observeAll n (datagramsOf s stream) (known s) = none) := by
  induction stream generalizing st known with
  | nil =>
    refine ⟨fun observed st' hobserve => ⟨known, ?_, fun s => ?_⟩, fun hobserve => nomatch hobserve⟩
    · obtain ⟨-, rfl⟩ := Prod.mk.inj (Option.some.inj hobserve)
      exact h
    · rfl
  | cons x stream ih =>
    obtain ⟨s₀, datagram⟩ := x
    have hfirst : taughtKeys n s₀ datagram ⊆ keys := fun key hkey =>
      hkeys (List.mem_append_left _ hkey)
    have hrest : streamKeys n stream ⊆ keys := fun key hkey => hkeys (List.mem_append_right _ hkey)
    constructor
    · intro observed st' hall
      obtain ⟨o, st₁, rest, hobserve, htail, rfl⟩ := observeAll_cons hall
      obtain ⟨k, hknown, hholds⟩ := h.observe_some hfirst hobserve
      obtain ⟨known', hholds', hsessions⟩ := (ih hholds hrest).1 rest st' htail
      refine ⟨known', hholds', fun s => ?_⟩
      rw [observeAll_datagramsOf_cons hknown, hsessions s, Option.map_some]
      by_cases hs : s₀ = s
      · subst hs
        rw [if_pos rfl, entriesOf_cons_self]
      · rw [if_neg hs, entriesOf_cons_of_ne hs]
    · intro hall
      cases hobserve : (dictionary s₀).observe n datagram st with
      | none =>
        refine ⟨s₀, ?_⟩
        rw [datagramsOf_cons_self, Knowledge.observeAll]
        cases hknown : Knowledge.dictionary.observe n datagram (known s₀) with
        | none => rfl
        | some told =>
          obtain ⟨st₁, hsome, -⟩ := h.observe_of_known hfirst hknown
          rw [hobserve] at hsome
          cases hsome
      | some told =>
        obtain ⟨o, st₁⟩ := told
        obtain ⟨k, hknown, hholds⟩ := h.observe_some hfirst hobserve
        rw [SessionTemplateStore.observeAll, hobserve] at hall
        obtain ⟨s, hs⟩ := (ih hholds hrest).2
          (Option.map_eq_none_iff.mp ((Option.map_eq_bind ..).trans hall))
        refine ⟨s, ?_⟩
        rw [observeAll_datagramsOf_cons hknown, hs, Option.map_none]

/-! ### One session alone -/

omit [DecidableEq K] [LawfulLruMap M] in
theorem length_observeAll {n : Nat} {stream : List (K × Bytes)} {st st' : SessionTemplateStore M}
    {observed : List Observed}
    (h : SessionTemplateStore.observeAll n stream st = some (observed, st')) :
    observed.length = stream.length := by
  induction stream generalizing st st' observed with
  | nil =>
    obtain ⟨rfl, -⟩ := Prod.mk.inj (Option.some.inj h)
    rfl
  | cons x stream ih =>
    obtain ⟨o, st₁, rest, -, hrest, rfl⟩ := SessionTemplateStore.observeAll_cons h
    exact congrArg (· + 1) (ih hrest)

theorem entriesOf_alone {α : Type} {s : K} {stream : List (K × Bytes)} {entries : List α}
    (hlen : entries.length = (stream.filter fun x => x.1 = s).length) :
    entriesOf s (stream.filter fun x => x.1 = s) entries = entries := by
  unfold entriesOf
  rw [List.filter_eq_self.mpr, List.map_snd_zip (Nat.le_of_eq hlen)]
  intro x hx
  have hmem := (List.mem_filter.mp (List.of_mem_zip hx).1).2
  exact hmem

theorem datagramsOf_alone (s s' : K) (stream : List (K × Bytes)) :
    datagramsOf s' (stream.filter fun x => x.1 = s) = if s' = s then datagramsOf s stream else [] := by
  unfold datagramsOf
  rw [List.filter_filter]
  split_ifs with hs
  · subst hs
    simp
  · rw [List.filter_eq_nil_iff.mpr, List.map_nil]
    intro x _ hx
    simp only [Bool.and_eq_true, decide_eq_true_eq] at hx
    exact hs (hx.1.symm.trans hx.2)

theorem streamKeys_alone_subset (n : Nat) (s : K) (stream : List (K × Bytes)) :
    streamKeys n (stream.filter fun x => x.1 = s) ⊆ streamKeys n stream := by
  intro key hkey
  obtain ⟨x, hx, hkey⟩ := List.mem_flatMap.mp hkey
  exact List.mem_flatMap.mpr ⟨x, List.mem_of_mem_filter hx, hkey⟩

/-- The datagrams of a session are observed alike with and without those of the others. -/
theorem Holds.alone {n : Nat} {stream : List (K × Bytes)} (h : st.Holds keys known)
    (hkeys : streamKeys n stream ⊆ keys) {observed : List Observed} {st' : SessionTemplateStore M}
    (hall : SessionTemplateStore.observeAll n stream st = some (observed, st')) (s : K) :
    ∃ st'', SessionTemplateStore.observeAll n (stream.filter fun x => x.1 = s) st =
        some (entriesOf s stream observed, st'') ∧
      ∀ odid id, (st''.view s).get odid id = (st'.view s).get odid id := by
  have hkeys' : streamKeys n (stream.filter fun x => x.1 = s) ⊆ keys :=
    fun key hkey => hkeys (streamKeys_alone_subset n s stream hkey)
  obtain ⟨known', hholds', hsessions'⟩ := (h.observeAll hkeys).1 observed st' hall
  obtain ⟨hsome, hnone⟩ := h.observeAll hkeys'
  cases halone : SessionTemplateStore.observeAll n (stream.filter fun x => x.1 = s) st with
  | none =>
    obtain ⟨s', hs'⟩ := hnone halone
    rw [datagramsOf_alone] at hs'
    split_ifs at hs' with heq
    · rw [heq, hsessions' s] at hs'
      cases hs'
    · cases hs'
  | some told =>
    obtain ⟨observed', st''⟩ := told
    obtain ⟨known'', hholds'', hsessions''⟩ := hsome observed' st'' halone
    have hs := hsessions'' s
    rw [datagramsOf_alone, if_pos rfl, hsessions' s, entriesOf_alone (length_observeAll halone)] at hs
    obtain ⟨hentries, hknown⟩ := Prod.mk.inj (Option.some.inj hs)
    refine ⟨st'', by rw [hentries], fun odid id => ?_⟩
    rw [hholds''.known, hholds'.known, hknown]

end SessionTemplateStore

/-! ### The receiver -/

section receiver

variable {P : Type} [ToString P] [LawfulLruMap M]

omit [ToString P] in
theorem sessionsOf_filter (ip : P → K) (s : K) (stream : List (P × Bytes)) :
    sessionsOf ip (stream.filter fun x => ip x.1 = s) =
      (sessionsOf ip stream).filter fun x => x.1 = s := by
  rw [sessionsOf, sessionsOf, List.filter_map]
  rfl

theorem linesOf_filter (ip : P → K) (s : K) (stream : List (P × Bytes)) (observed : List Observed) :
    linesOf (stream.filter fun x => ip x.1 = s) (SessionTemplateStore.entriesOf s (sessionsOf ip stream)
      observed) = ((stream.zip (linesOf stream observed)).filter fun x => ip x.1.1 = s).map Prod.snd := by
  induction stream generalizing observed with
  | nil => rfl
  | cons x stream ih =>
    cases observed with
    | nil => simp [SessionTemplateStore.entriesOf]
    | cons o observed =>
      by_cases hs : ip x.1 = s
      · have hrest := ih observed
        simp only [sessionsOf, List.map_cons, hs, SessionTemplateStore.entriesOf_cons_self]
        simp only [linesOf, List.filter_cons, hs, decide_true, if_true, List.zipWith_cons_cons,
          List.zip_cons_cons, List.map_cons]
        exact congrArg _ hrest
      · have hrest := ih observed
        simp only [sessionsOf, List.map_cons, SessionTemplateStore.entriesOf_cons_of_ne hs]
        simp only [linesOf, List.filter_cons, hs, decide_false, if_false, Bool.false_eq_true,
          List.zipWith_cons_cons, List.zip_cons_cons]
        exact hrest

theorem holds_start {keys : List (TemplateKey K)} (hroom : keys.dedup.length ≤ 4096) :
    (CollectorState.start : CollectorState M).store.Holds keys fun _ => Knowledge.empty where
  known := by
    intro s odid id
    have hempty : (CollectorState.start : CollectorState M).store.table = [] :=
      SessionTemplateStore.table_withCapacity defaultCapacity
    rw [SessionTemplateStore.get_view, hempty]
    rfl
  within := by
    have hempty : (CollectorState.start : CollectorState M).store.table = [] :=
      SessionTemplateStore.table_withCapacity defaultCapacity
    rw [hempty]
    exact List.nil_subset _
  room := by
    have hcap : (CollectorState.start : CollectorState M).store.capacity = 4096 :=
      SessionTemplateStore.capacity_withCapacity defaultCapacity
    rw [hcap]
    exact hroom

theorem sound_start : (CollectorState.start : CollectorState M).store.Sound (K := K) :=
  SessionTemplateStore.sound_withCapacity defaultCapacity

/-- While there is room for every template, what is printed for the datagrams of an address is what
would be printed if these were all there are, and the receiver gets through the datagrams of all
addresses exactly if it gets through those of each. -/
theorem receiver_isolation (M : Type) [LruMap M (TemplateKey K) OwnedTemplate] [LawfulLruMap M]
    (tg : Target) (ip : P → K) (stream : List (P × Bytes))
    (hroom : (streamKeys 128 (sessionsOf ip stream)).dedup.length ≤ 4096) :
    (∀ fuel, 65535 < fuel → ∀ out st,
      receiveAll tg fuel ip stream (CollectorState.start : CollectorState M) = .ok (out, st) →
      ∀ s, ∃ st' : CollectorState M,
        receiveAll tg fuel ip (stream.filter fun x => ip x.1 = s) .start =
          .ok (((stream.zip out).filter fun x => ip x.1.1 = s).map Prod.snd, st') ∧
        ∀ odid id, (st'.store.view s).get odid id = (st.store.view s).get odid id) ∧
    ((∃ fuel out, receiveAll tg fuel ip stream (CollectorState.start : CollectorState M) = .ok out) ↔
      ∀ s, ∃ fuel out, receiveAll tg fuel ip (stream.filter fun x => ip x.1 = s)
        (CollectorState.start : CollectorState M) = .ok out) := by
  have hlen : (CollectorState.start : CollectorState M).fbuf.length = 128 := List.length_replicate
  have hsound := sound_start (M := M) (K := K)
  have hholds := holds_start (M := M) hroom
  constructor
  · intro fuel hfuel out st hout s
    obtain ⟨observed, hobserve, rfl⟩ := observed_of_receiveAll hsound hfuel hout
    rw [hlen] at hobserve
    obtain ⟨store, halone, hget⟩ := hholds.alone (List.Subset.refl _) hobserve s
    rw [← sessionsOf_filter, ← hlen] at halone
    obtain ⟨fbuf, -, hreturns⟩ := (receiveAll_eq tg ip _ hsound).1 _ store halone fuel hfuel
    rw [linesOf_filter] at hreturns
    exact ⟨⟨store, fbuf⟩, hreturns, hget⟩
  · simp only [receiveAll_ok_iff tg ip _ hsound, hlen, sessionsOf_filter]
    constructor
    · intro hsome s
      obtain ⟨⟨observed, store⟩, hobserve⟩ := Option.ne_none_iff_exists'.mp hsome
      obtain ⟨store', halone, -⟩ := hholds.alone (List.Subset.refl _) hobserve s
      simp [halone]
    · intro hall hnone
      -- a session whose datagrams have no end of items has none alone either
      obtain ⟨s, hs⟩ := (hholds.observeAll (List.Subset.refl _)).2 hnone
      have hkeys := SessionTemplateStore.streamKeys_alone_subset 128 s (sessionsOf ip stream)
      obtain ⟨⟨observed, store⟩, hobserve⟩ := Option.ne_none_iff_exists'.mp (hall s)
      obtain ⟨known, -, hsessions⟩ := (hholds.observeAll hkeys).1 observed store hobserve
      have hknown := hsessions s
      rw [SessionTemplateStore.datagramsOf_alone, if_pos rfl, hs] at hknown
      cases hknown

theorem receiver_isolation_two_addresses :
    let first : Bytes :=
      [0, 10, 0, 28, 0, 0, 0, 0, 0, 0, 0, 0, 0, 0, 0, 1, 0, 2, 0, 12, 1, 0, 0, 1, 0, 8, 0, 4]
    let second : Bytes :=
      [0, 10, 0, 28, 0, 0, 0, 0, 0, 0, 0, 0, 0, 0, 0, 1, 0, 2, 0, 12, 1, 0, 0, 1, 0, 12, 0, 8]
    let stream : List ((Nat × Nat) × Bytes) :=
      [((1, 4739), first), ((2, 4739), second), ((2, 4740), second)]
    (∃ fuel out, receiveAll .le64 fuel Prod.fst stream
        (CollectorState.start : CollectorState (RecencyList (TemplateKey Nat) OwnedTemplate)) = .ok out) ↔
      ∀ s, ∃ fuel out, receiveAll .le64 fuel Prod.fst (stream.filter fun x => x.1.1 = s)
        (CollectorState.start : CollectorState (RecencyList (TemplateKey Nat) OwnedTemplate)) = .ok out := by
  intro first second stream
  exact (receiver_isolation (RecencyList (TemplateKey Nat) OwnedTemplate) .le64 Prod.fst stream
    (by decide)).2

end receiver

end IpfixParser
