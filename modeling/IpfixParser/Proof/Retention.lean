import IpfixParser.Lib.Recency
import IpfixParser.Proof.Attribution

/-!
# How long templates stay

`Windowed log st`: the keys of the store are those accepted last, as many as it has room for. Each insert
keeps this with its answer, so the answers to a stream say exactly which templates the receiver has after
it (`receiver_retention`): those accepted last under a key, while fewer than 4096 other keys have been
accepted since.
-/

namespace IpfixParser

open Lib

variable {K : Type}

/-- The key of a definition that was not refused. -/
def Answer.acceptedKey (a : Answer K) : Option (TemplateKey K) :=
  if a.outcome = .collision then none else some a.key

/-- The keys of the definitions that were not refused. -/
def acceptedKeys (log : List (Answer K)) : List (TemplateKey K) := log.filterMap Answer.acceptedKey

theorem Answer.acceptedKey_eq_some_iff {a : Answer K} {key : TemplateKey K} :
    a.acceptedKey = some key ↔ a.outcome ≠ .collision ∧ a.key = key := by
  unfold acceptedKey
  split_ifs with h
  · simp [h]
  · simp [h]

theorem acceptedKeys_concat (log : List (Answer K)) (a : Answer K) :
    acceptedKeys (log ++ [a]) = acceptedKeys log ++ a.acceptedKey.toList := by
  unfold acceptedKeys
  rw [List.filterMap_append]
  cases h : a.acceptedKey <;> simp [h]

theorem acceptedKeys_of_accepted {log : List (Answer K)} (h : ∀ a ∈ log, a.outcome ≠ .collision) :
    acceptedKeys log = log.map Answer.key := by
  unfold acceptedKeys
  rw [← List.filterMap_eq_map]
  exact List.filterMap_congr fun a ha => Answer.acceptedKey_eq_some_iff.mpr ⟨h a ha, rfl⟩

theorem acceptedKeys_eq_append_cons_iff {log : List (Answer K)} {key : TemplateKey K}
    {front back : List (TemplateKey K)} : acceptedKeys log = front ++ key :: back ↔
      ∃ pre a post, log = pre ++ a :: post ∧ a.outcome ≠ .collision ∧ a.key = key ∧
        acceptedKeys pre = front ∧ acceptedKeys post = back := by
  unfold acceptedKeys
  constructor
  · intro h
    obtain ⟨pre, rest, rfl, hfront, hrest⟩ := List.filterMap_eq_append_iff.mp h
    obtain ⟨refused, a, post, rfl, hrefused, ha, hback⟩ := List.filterMap_eq_cons_iff.mp hrest
    obtain ⟨haccepted, hkey⟩ := Answer.acceptedKey_eq_some_iff.mp ha
    refine ⟨pre ++ refused, a, post, by rw [List.append_assoc], haccepted, hkey, ?_, hback⟩
    rw [List.filterMap_append, hfront, List.filterMap_eq_nil_iff.mpr hrefused, List.append_nil]
  · rintro ⟨pre, a, post, rfl, haccepted, hkey, rfl, rfl⟩
    have ha : a.acceptedKey = some key := Answer.acceptedKey_eq_some_iff.mpr ⟨haccepted, hkey⟩
    rw [List.filterMap_append, List.filterMap_cons_some ha]

variable [DecidableEq K]

theorem lastInserted_append {key : TemplateKey K} (log : List (Answer K)) {post : List (Answer K)}
    (h : key ∉ acceptedKeys post) : lastInserted key (log ++ post) = lastInserted key log := by
  induction post using List.reverseRecOn with
  | nil => rw [List.append_nil]
  | append_singleton post a ih =>
    rw [acceptedKeys_concat, List.mem_append, not_or, Option.mem_toList] at h
    rw [← List.append_assoc, lastInserted_concat, ih h.1, if_neg]
    rintro ⟨hkey, hinserted⟩
    exact h.2 (Answer.acceptedKey_eq_some_iff.mpr ⟨by rw [hinserted]; simp, hkey⟩)

variable {M : Type} [LruMap M (TemplateKey K) OwnedTemplate]

theorem Told.lastInserted_of_accepted {pre post : List (Answer K)} {a : Answer K}
    {st : SessionTemplateStore M} (h : Told (pre ++ a :: post) st) (haccepted : a.outcome ≠ .collision)
    (hpost : a.key ∉ acceptedKeys post) :
    lastInserted a.key (pre ++ a :: post) = some (.ofRecord a.record) := by
  rw [List.append_cons, lastInserted_append _ hpost, lastInserted_concat]
  cases houtcome : a.outcome with
  | inserted => rw [if_pos ⟨rfl, rfl⟩]
  | alreadyPresent =>
    rw [if_neg (by simp)]
    exact (h.justified pre a post rfl).alreadyPresent houtcome
  | collision => exact absurd houtcome haccepted

theorem Told.record_of_lookup {pre post : List (Answer K)} {a : Answer K} {st : SessionTemplateStore M}
    (h : Told (pre ++ a :: post) st) (haccepted : a.outcome ≠ .collision) (hpost : a.key ∉ acceptedKeys post)
    {t : TemplateRef} (ht : st.lookup a.key = some t) : .ofRecord a.record = t := by
  have hstored := h.stored a.key t ht
  rw [h.lastInserted_of_accepted haccepted hpost] at hstored
  exact Option.some.inj hstored

theorem TableStep.keys_recency {cap : UInt32} {l l' : Table K} {s : K} {odid : UInt32} {r : TemplateRecord}
    {outcome : InsertOutcome} {warnings : List Warning}
    (h : TableStep cap l (.insert s odid r) (.outcome outcome) warnings l') {ks : List (TemplateKey K)}
    (hl : l.map Prod.fst = (recency ks).take cap.toNat) :
    l'.map Prod.fst =
      (recency (ks ++ (Answer.acceptedKey ⟨(s, odid, r.id), r, outcome⟩).toList)).take cap.toNat := by
  have hlen : l.length = min cap.toNat (recency ks).length := by
    rw [← List.length_take, ← hl, List.length_map]
  cases h with
  | @refreshed _ _ _ t hsome _ =>
    have hmem : (s, odid, r.id) ∈ (recency ks).take cap.toNat := by
      rw [← hl, ← findKey_isSome_iff, hsome]
      rfl
    rw [Answer.acceptedKey, if_neg (by simp), Option.toList_some, take_recency_concat_of_mem hmem,
      List.map_cons, keys_eraseKey, hl]
  | collided =>
    rw [Answer.acceptedKey, if_pos rfl, Option.toList_none, List.append_nil]
    exact hl
  | rejected _ hcap =>
    rw [hl, hcap]
    rfl
  | added hnone hroom =>
    rw [findKey_eq_none_iff, hl] at hnone
    obtain ⟨m, hm⟩ := Nat.exists_eq_succ_of_ne_zero (Nat.ne_zero_of_lt hroom)
    rw [hm] at hl hnone hlen hroom ⊢
    have hshort : (recency ks).length ≤ m := by omega
    rw [Answer.acceptedKey, if_neg (by simp), Option.toList_some, take_recency_concat_of_notMem hnone,
      List.map_cons, hl, List.take_of_length_le hshort, List.take_of_length_le (Nat.le_succ_of_le hshort)]
  | evicted hnone hcap hfull =>
    rw [findKey_eq_none_iff, hl] at hnone
    have hpos : cap.toNat ≠ 0 := fun h0 => hcap (UInt32.toNat_inj.mp h0)
    obtain ⟨m, hm⟩ := Nat.exists_eq_succ_of_ne_zero hpos
    rw [hm] at hl hnone hfull ⊢
    rw [Answer.acceptedKey, if_neg (by simp), Option.toList_some, take_recency_concat_of_notMem hnone,
      List.map_cons, List.dropLast_eq_take, hfull, List.map_take, hl, List.take_take,
      Nat.succ_sub_one, Nat.min_eq_left (Nat.le_succ m)]

/-- The keys of the store are those accepted last, up to the `n` that it has room for. -/
structure Windowed (n : Nat) (log : List (Answer K)) (st : SessionTemplateStore M) : Prop where
  capacity : st.capacity.toNat = n
  keys : st.table.map Prod.fst = (recency (acceptedKeys log)).take n

namespace Windowed

variable [LawfulLruMap M] {n : Nat} {log : List (Answer K)} {st : SessionTemplateStore M}

theorem insert (h : Windowed n log st) (s : K) (odid : UInt32) (r : TemplateRecord) :
    Windowed n (log ++ [⟨(s, odid, r.id), r, (st.insert s odid r).1⟩]) (st.insert s odid r).2.2 := by
  obtain ⟨rfl, hkeys⟩ := h
  have hbounded : st.table.length ≤ st.capacity.toNat := by
    have hlen := congrArg List.length hkeys
    rw [List.length_map, List.length_take] at hlen
    exact hlen ▸ Nat.min_le_left ..
  refine ⟨congrArg UInt32.toNat (SessionTemplateStore.capacity_step st (.insert s odid r)), ?_⟩
  rw [acceptedKeys_concat]
  exact (SessionTemplateStore.step_table st (.insert s odid r) hbounded).keys_recency hkeys

theorem observeAll {st' : SessionTemplateStore M} (h : Windowed n [] st) {fields : Nat}
    {stream : List (K × Bytes)} {observed : List Observed}
    (hobserve : SessionTemplateStore.observeAll fields stream st = some (observed, st')) :
    Windowed n (answers stream observed) st' :=
  SessionTemplateStore.observeAll_keeps (fun _ _ h s odid r _ => h.insert s odid r) h hobserve

theorem isSome_lookup_iff (h : Windowed n log st) (key : TemplateKey K) :
    (st.lookup key).isSome ↔ ∃ pre a post, log = pre ++ a :: post ∧ a.outcome ≠ .collision ∧ a.key = key ∧
      key ∉ acceptedKeys post ∧ (acceptedKeys post).toFinset.card < n := by
  rw [← SessionTemplateStore.mem_keys_iff, h.keys, mem_take_recency_iff]
  constructor
  · rintro ⟨front, back, hlog, hback, hcard⟩
    obtain ⟨pre, a, post, rfl, haccepted, hkey, -, rfl⟩ := acceptedKeys_eq_append_cons_iff.mp hlog
    exact ⟨pre, a, post, rfl, haccepted, hkey, hback, hcard⟩
  · rintro ⟨pre, a, post, hlog, haccepted, hkey, hback, hcard⟩
    exact ⟨acceptedKeys pre, acceptedKeys post,
      acceptedKeys_eq_append_cons_iff.mpr ⟨pre, a, post, hlog, haccepted, hkey, rfl, rfl⟩, hback, hcard⟩

theorem lookup_eq_some_iff (h : Windowed n log st) (htold : Told log st) (key : TemplateKey K)
    (t : TemplateRef) :
    st.lookup key = some t ↔ ∃ pre a post, log = pre ++ a :: post ∧ a.outcome ≠ .collision ∧ a.key = key ∧
      .ofRecord a.record = t ∧ key ∉ acceptedKeys post ∧ (acceptedKeys post).toFinset.card < n := by
  have hkeys := h.isSome_lookup_iff key
  constructor
  · intro ht
    obtain ⟨pre, a, post, rfl, haccepted, rfl, hpost, hcard⟩ := hkeys.mp (by rw [ht]; rfl)
    exact ⟨pre, a, post, rfl, haccepted, rfl, htold.record_of_lookup haccepted hpost ht, hpost, hcard⟩
  · rintro ⟨pre, a, post, rfl, haccepted, rfl, rfl, hpost, hcard⟩
    have hsome := hkeys.mpr ⟨pre, a, post, rfl, haccepted, rfl, hpost, hcard⟩
    obtain ⟨t, ht⟩ := Option.isSome_iff_exists.mp hsome
    rw [ht, htold.record_of_lookup haccepted hpost ht]

end Windowed

theorem windowed_start [LawfulLruMap M] :
    Windowed 4096 ([] : List (Answer K)) (CollectorState.start : CollectorState M).store where
  capacity := congrArg UInt32.toNat (SessionTemplateStore.capacity_withCapacity defaultCapacity)
  keys := by
    rw [show (CollectorState.start : CollectorState M).store.table = [] from
      SessionTemplateStore.table_withCapacity defaultCapacity]
    rfl

/-! ### The receiver -/

/-- Whatever comes in, what the receiver has under a session, an ODID and an id is the definition last
accepted under these, while fewer than 4096 other keys have been accepted since; after that it has none. -/
theorem receiver_retention {P : Type} [ToString P] (M : Type) [LruMap M (TemplateKey K) OwnedTemplate]
    [LawfulLruMap M] (tg : Target) (ip : P → K) (stream : List (P × Bytes)) {fuel : Nat}
    (hfuel : 65535 < fuel) {out : List (List Line)} {st : CollectorState M}
    (h : receiveAll tg fuel ip stream .start = .ok (out, st)) :
    ∃ observed, SessionTemplateStore.observeAll 128 (sessionsOf ip stream) .new = some (observed, st.store) ∧
      out = linesOf stream observed ∧
      ∀ s odid id t, (st.store.view s).get odid id = some t ↔
        ∃ pre a post, answers (sessionsOf ip stream) observed = pre ++ a :: post ∧
          a.outcome ≠ .collision ∧ a.key = (s, odid, id) ∧ .ofRecord a.record = t ∧
          (s, odid, id) ∉ acceptedKeys post ∧ (acceptedKeys post).toFinset.card < 4096 := by
  have hlen : (CollectorState.start : CollectorState M).fbuf.length = 128 := List.length_replicate
  obtain ⟨observed, hobserve, hout⟩ := observed_of_receiveAll sound_start hfuel h
  rw [hlen] at hobserve
  refine ⟨observed, hobserve, hout, fun s odid id t => ?_⟩
  have hwindow := windowed_start.observeAll hobserve
  exact hwindow.lookup_eq_some_iff (told_start.observeAll hobserve) (s, odid, id) t

theorem receiver_retention_refreshed :
    let first : Bytes :=
      [0, 10, 0, 28, 0, 0, 0, 0, 0, 0, 0, 0, 0, 0, 0, 1, 0, 2, 0, 12, 1, 0, 0, 1, 0, 8, 0, 4]
    let second : Bytes :=
      [0, 10, 0, 28, 0, 0, 0, 0, 0, 0, 0, 0, 0, 0, 0, 1, 0, 2, 0, 12, 1, 0, 0, 1, 0, 12, 0, 8]
    let stream : List (Nat × Bytes) := [(1, first), (2, second), (1, first)]
    ∃ out st, receiveAll .le64 65536 id stream
        (.start : CollectorState (RecencyList (TemplateKey Nat) OwnedTemplate)) = .ok (out, st) ∧
      (st.store.view 1).get 1 256 = some ⟨256, 0, [⟨8, none, 4⟩]⟩ := by
  intro first second stream
  have hanswers : (SessionTemplateStore.observeAll 128 (sessionsOf id stream)
      (.new : SessionTemplateStore (RecencyList (TemplateKey Nat) OwnedTemplate))).map (fun x =>
        answers (sessionsOf id stream) x.1) =
      some [⟨(1, 1, 256), ⟨256, 0, [⟨8, none, 4⟩]⟩, .inserted⟩,
        ⟨(2, 1, 256), ⟨256, 0, [⟨12, none, 8⟩]⟩, .inserted⟩,
        ⟨(1, 1, 256), ⟨256, 0, [⟨8, none, 4⟩]⟩, .alreadyPresent⟩] := by
    decide
  obtain ⟨⟨observed, store⟩, hobserve, hlog⟩ := Option.map_eq_some_iff.mp hanswers
  obtain ⟨fbuf, -, hreturns⟩ := (receiveAll_eq .le64 id stream sound_start).1 observed store hobserve
    65536 (by decide)
  obtain ⟨observed', hobserve', -, hstored⟩ := receiver_retention _ .le64 id stream (by decide) hreturns
  obtain ⟨rfl, -⟩ := Prod.mk.inj (Option.some.inj (hobserve'.symm.trans hobserve))
  refine ⟨_, _, hreturns, (hstored 1 1 256 _).mpr ⟨_ :: [_], _, [], hlog, ?_⟩⟩
  exact ⟨by simp, rfl, rfl, List.not_mem_nil, by decide⟩

end IpfixParser
