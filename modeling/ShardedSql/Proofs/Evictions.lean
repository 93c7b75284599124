import ShardedSql.Proofs.NameMaps
import ShardedSql.Route.Cache

/-! A route cache is a map of bounded size whose oldest entry leaves first. The entries and the queue
of their keys are kept in step by every call, so that the front of the queue is the key that has been
stored for the longest time. -/

namespace ShardedSql

/-- A call of a cache. -/
inductive CacheCall where
  | put (key : CacheKey) (route : Route)
  | get (key : CacheKey)

/-- The cache behind a call; looking a route up leaves it as it was. -/
def CacheCall.run (c : RouteCache) : CacheCall → RouteCache
  | .put key route => c.put key route
  | .get _ => c

namespace RouteCache

variable {c : RouteCache} {key k : CacheKey} {route : Route}

section Step

/-- An entry of the key is stored. -/
def Holds (c : RouteCache) (key : CacheKey) : Prop := key ∈ c.entries.map (·.1)

theorem lookup_of_not_mem {l : List (CacheKey × Route)} (h : key ∉ l.map (·.1)) :
    l.lookup key = none := by
  refine List.lookup_eq_none_iff.2 fun e he => bne_iff_ne.2 ?_
  rintro rfl
  exact h (List.mem_map_of_mem he)

theorem get?_eq_none (h : ¬ c.Holds key) : c.get? key = none := lookup_of_not_mem h

theorem get?_isSome_iff : (c.get? key).isSome = true ↔ c.Holds key := by
  constructor
  · intro h
    by_contra hnone
    rw [get?_eq_none hnone] at h
    cases h
  · intro h
    by_contra hnone
    exact not_mem_of_lookup (Option.not_isSome_iff_eq_none.1 hnone) h

theorem lookup_replace_self {l : List (CacheKey × Route)} (h : key ∈ l.map (·.1)) :
    (replace key route l).lookup key = some route := by
  induction l with
  | nil => cases h
  | cons e l ih =>
    by_cases he : e.1 = key
    · simp [replace, he]
    · have hne : (key == e.1) = false := beq_eq_false_iff_ne.2 (Ne.symm he)
      rw [List.map_cons, List.mem_cons] at h
      rw [replace, List.map_cons, if_neg he, List.lookup_cons, hne]
      exact ih (h.resolve_left (Ne.symm he))

theorem lookup_replace_of_ne (l : List (CacheKey × Route)) (h : k ≠ key) :
    (replace key route l).lookup k = l.lookup k := by
  have hk : (k == key) = false := beq_eq_false_iff_ne.2 h
  induction l with
  | nil => rfl
  | cons e l ih =>
    rw [replace, List.map_cons, ← replace, List.lookup_cons]
    by_cases he : e.1 = key
    · rw [if_pos he, List.lookup_cons, hk, he, hk, ih]
    · rw [if_neg he, List.lookup_cons, ih]

theorem lookup_concat {l : List (CacheKey × Route)} (h : l.lookup key = none) (k : CacheKey) :
    (l ++ [(key, route)]).lookup k = if k = key then some route else l.lookup k := by
  rw [List.lookup_append]
  by_cases hk : k = key
  · rw [if_pos hk, hk, h, List.lookup_cons_self, Option.none_or]
  · rw [if_neg hk, List.lookup_cons, beq_eq_false_iff_ne.2 hk]
    exact Option.or_none

theorem keys_replace (l : List (CacheKey × Route)) :
    (replace key route l).map (·.1) = l.map (·.1) := by
  rw [replace, List.map_map]
  refine List.map_congr_left fun e _ => ?_
  rw [Function.comp_apply]
  split
  · rename_i he
    exact he.symm
  · rfl

theorem store_of_holds (h : c.Holds key) :
    c.store key route = { c with entries := replace key route c.entries } :=
  if_pos (get?_isSome_iff.2 h)

theorem store_of_new (h : ¬ c.Holds key) : c.store key route =
    { c with entries := c.entries ++ [(key, route)], queue := c.queue ++ [key] } :=
  if_neg (mt get?_isSome_iff.1 h)

theorem isCacheable_iff {sql : String} : c.isCacheable sql = true ↔
    0 < c.options.maxSize ∧ sql.utf8ByteSize ≤ c.options.maxSqlLength := by
  rw [isCacheable, Bool.and_eq_true, decide_eq_true_eq, decide_eq_true_eq]

theorem put_of_cacheable (h : c.isCacheable key.sql = true) :
    c.put key route = (c.store key route).evict := if_pos h

theorem put_of_uncacheable (h : c.isCacheable key.sql = false) : c.put key route = c :=
  if_neg (Bool.eq_false_iff.1 h)

theorem evictFrom_of_le {maxSize : Nat} {entries : List (CacheKey × Route)}
    (h : entries.length ≤ maxSize) (queue : List CacheKey) :
    evictFrom maxSize entries queue = (entries, queue) := by
  cases queue with
  | nil => rfl
  | cons oldest queue => rw [evictFrom, if_pos h]

theorem evict_of_le (h : c.size ≤ c.options.maxSize) : c.evict = c := by
  rw [evict]
  exact congrArg (fun left => { c with entries := left.1, queue := left.2 }) (evictFrom_of_le h c.queue)

/-- The queue has the key of every entry, each once, and there are no more than there may be. -/
structure InStep (c : RouteCache) : Prop where
  keys : c.entries.map (·.1) = c.queue
  once : c.queue.Nodup
  bounded : c.size ≤ c.options.maxSize
  cacheable : ∀ key ∈ c.queue, c.isCacheable key.sql = true

namespace InStep

theorem holds_iff (h : c.InStep) : c.Holds key ↔ key ∈ c.queue := by
  rw [Holds, h.keys]

/-- A key that is there gets another route. -/
theorem put_held (h : c.InStep) (hcacheable : c.isCacheable key.sql = true) (hheld : key ∈ c.queue) :
    c.put key route = { c with entries := replace key route c.entries } := by
  rw [put_of_cacheable hcacheable, store_of_holds (h.holds_iff.2 hheld)]
  apply evict_of_le
  rw [size, replace, List.length_map]
  exact h.bounded

/-- A new key for which there is room goes to the end of the queue. -/
theorem put_room (h : c.InStep) (hcacheable : c.isCacheable key.sql = true) (hnew : key ∉ c.queue)
    (hroom : c.size < c.options.maxSize) : c.put key route =
      { c with entries := c.entries ++ [(key, route)], queue := c.queue ++ [key] } := by
  rw [put_of_cacheable hcacheable, store_of_new (mt h.holds_iff.1 hnew)]
  apply evict_of_le
  rw [size, List.length_append]
  exact hroom

/-- The first entry has the first key in the queue, and no other entry has it. -/
theorem front {oldest : CacheKey × Route} {entries : List (CacheKey × Route)} (h : c.InStep)
    (hentries : c.entries = oldest :: entries) :
    c.queue = oldest.1 :: entries.map (·.1) ∧ oldest.1 ∉ entries.map (·.1) ∧
      (entries.map (·.1)).Nodup := by
  have hqueue : c.queue = oldest.1 :: entries.map (·.1) := by
    rw [← h.keys, hentries, List.map_cons]
  exact ⟨hqueue, List.nodup_cons.1 (hqueue ▸ h.once)⟩

/-- A new key for which there is no room takes the place of the first one in the queue. -/
theorem put_full (h : c.InStep) (hcacheable : c.isCacheable key.sql = true) (hnew : key ∉ c.queue)
    (hfull : c.size = c.options.maxSize) (route : Route) :
    ∃ oldest entries, c.entries = oldest :: entries ∧ c.put key route =
        { c with entries := entries ++ [(key, route)], queue := entries.map (·.1) ++ [key] } := by
  have hpos : 0 < c.entries.length := by
    rw [isCacheable_iff, ← hfull] at hcacheable
    exact hcacheable.1
  obtain ⟨oldest, entries, hentries⟩ := List.exists_cons_of_length_pos hpos
  obtain ⟨hqueue, hoff, -⟩ := h.front hentries
  have hne : key ≠ oldest.1 := fun he => hnew (hqueue ▸ he ▸ List.mem_cons_self)
  have hleft : (oldest :: entries ++ [(key, route)]).filter (·.1 ≠ oldest.1) =
      entries ++ [(key, route)] := by
    rw [List.cons_append, List.filter_cons_of_neg (by simp), List.filter_eq_self]
    intro e he
    rw [decide_eq_true_eq]
    rcases List.mem_append.1 he with he | he
    · exact fun heq => hoff (heq ▸ List.mem_map_of_mem he)
    · rw [List.mem_singleton.1 he]
      exact hne
  have hlength : (entries ++ [(key, route)]).length = c.options.maxSize := by
    rw [← hfull, size, hentries, List.length_append]
    rfl
  have hevict : evictFrom c.options.maxSize (c.entries ++ [(key, route)]) (c.queue ++ [key]) =
      (entries ++ [(key, route)], entries.map (·.1) ++ [key]) := by
    rw [hqueue, hentries, List.cons_append, List.cons_append, evictFrom, ← List.cons_append, hleft,
      evictFrom_of_le hlength.le, if_neg (by simp [← hlength])]
  refine ⟨oldest, entries, hentries, ?_⟩
  rw [put_of_cacheable hcacheable, store_of_new (mt h.holds_iff.1 hnew), evict, hevict]

/-- What putting a route in can do. -/
theorem put_cases (h : c.InStep) (key : CacheKey) (route : Route) :
    c.isCacheable key.sql = false ∧ c.put key route = c ∨
    c.isCacheable key.sql = true ∧ key ∈ c.queue ∧
      c.put key route = { c with entries := replace key route c.entries } ∨
    c.isCacheable key.sql = true ∧ key ∉ c.queue ∧ c.size < c.options.maxSize ∧
      c.put key route =
        { c with entries := c.entries ++ [(key, route)], queue := c.queue ++ [key] } ∨
    c.isCacheable key.sql = true ∧ key ∉ c.queue ∧ c.size = c.options.maxSize ∧
      ∃ oldest entries, c.entries = oldest :: entries ∧ c.put key route =
        { c with entries := entries ++ [(key, route)], queue := entries.map (·.1) ++ [key] } := by
  cases hcacheable : c.isCacheable key.sql with
  | false => exact .inl ⟨rfl, put_of_uncacheable hcacheable⟩
  | true =>
    by_cases hheld : key ∈ c.queue
    · exact .inr (.inl ⟨rfl, hheld, h.put_held hcacheable hheld⟩)
    · rcases Nat.lt_or_eq_of_le h.bounded with hroom | hfull
      · exact .inr (.inr (.inl ⟨rfl, hheld, hroom, h.put_room hcacheable hheld hroom⟩))
      · exact .inr (.inr (.inr ⟨rfl, hheld, hfull, h.put_full hcacheable hheld hfull route⟩))

theorem put (h : c.InStep) (key : CacheKey) (route : Route) : (c.put key route).InStep := by
  obtain ⟨-, hput⟩ | ⟨-, -, hput⟩ | ⟨hcacheable, hnew, hlt, hput⟩ |
    ⟨hcacheable, hnew, heq, oldest, entries, hentries, hput⟩ := h.put_cases key route
  · rw [hput]
    exact h
  · rw [hput]
    refine ⟨(keys_replace _).trans h.keys, h.once, ?_, h.cacheable⟩
    rw [size, replace, List.length_map]
    exact h.bounded
  · rw [hput]
    refine ⟨?_, by simpa using h.once.concat hnew, ?_, ?_⟩
    · rw [List.map_append, h.keys]
      rfl
    · rw [size, List.length_append]
      exact hlt
    · exact List.forall_mem_append.2 ⟨h.cacheable, List.forall_mem_singleton.2 hcacheable⟩
  · rw [hput]
    obtain ⟨hqueue, -, honce⟩ := h.front hentries
    have hleft := h.cacheable
    rw [hqueue, List.forall_mem_cons] at hleft
    rw [hqueue, List.mem_cons, not_or] at hnew
    refine ⟨List.map_append, by simpa using honce.concat hnew.2, ?_, ?_⟩
    · rw [size, hentries] at heq
      rw [size, List.length_append]
      exact heq.le
    · exact List.forall_mem_append.2 ⟨hleft.2, List.forall_mem_singleton.2 hcacheable⟩

theorem get?_put_held (h : c.InStep) (hcacheable : c.isCacheable key.sql = true)
    (hheld : key ∈ c.queue) (k : CacheKey) :
    (c.put key route).get? k = if k = key then some route else c.get? k := by
  rw [h.put_held hcacheable hheld]
  change (replace key route c.entries).lookup k = if k = key then some route else c.entries.lookup k
  split
  · rename_i hk
    rw [hk, lookup_replace_self (h.keys ▸ hheld)]
  · rename_i hk
    exact lookup_replace_of_ne c.entries hk

theorem get?_put_room (h : c.InStep) (hcacheable : c.isCacheable key.sql = true) (hnew : key ∉ c.queue)
    (hroom : c.size < c.options.maxSize) (k : CacheKey) :
    (c.put key route).get? k = if k = key then some route else c.get? k := by
  rw [h.put_room hcacheable hnew hroom]
  exact lookup_concat (get?_eq_none (mt h.holds_iff.1 hnew)) k

theorem get?_put_full (h : c.InStep) (hcacheable : c.isCacheable key.sql = true) (hnew : key ∉ c.queue)
    (hfull : c.size = c.options.maxSize) (route : Route) :
    ∃ oldest queue, c.queue = oldest :: queue ∧
      ∀ k, (c.put key route).get? k =
        if k = key then some route else if k = oldest then none else c.get? k := by
  obtain ⟨oldest, entries, hentries, hput⟩ := h.put_full hcacheable hnew hfull route
  obtain ⟨hqueue, hoff, -⟩ := h.front hentries
  rw [hqueue, List.mem_cons, not_or] at hnew
  refine ⟨oldest.1, _, hqueue, fun k => ?_⟩
  rw [hput]
  refine (lookup_concat (lookup_of_not_mem hnew.2) k).trans (if_congr Iff.rfl rfl ?_)
  rw [get?, hentries, List.lookup_cons]
  split
  · rename_i hk
    rw [hk]
    exact lookup_of_not_mem hoff
  · rename_i hk
    rw [beq_eq_false_iff_ne.2 hk]

/-- A key that is stored afterwards has the new route if it is the one that was put in, and its old
one otherwise. -/
theorem get?_put (h : c.InStep) (hheld : (c.put key route).Holds k) :
    (c.put key route).get? k = if k = key then some route else c.get? k := by
  obtain ⟨hcacheable, hput⟩ | ⟨hcacheable, hold, -⟩ | ⟨hcacheable, hnew, hlt, -⟩ |
    ⟨hcacheable, hnew, heq, -⟩ := h.put_cases key route
  · have hne : k ≠ key := by
      rintro rfl
      rw [hput] at hheld
      rw [h.cacheable k (h.holds_iff.1 hheld)] at hcacheable
      cases hcacheable
    rw [hput, if_neg hne]
  · exact h.get?_put_held hcacheable hold k
  · exact h.get?_put_room hcacheable hnew hlt k
  · obtain ⟨oldest, -, -, hget⟩ := h.get?_put_full hcacheable hnew heq route
    have hsome := get?_isSome_iff.2 hheld
    rw [hget] at hsome ⊢
    split
    · rfl
    · rename_i hk
      rw [if_neg hk] at hsome
      split
      · rename_i holdest
        rw [if_pos holdest] at hsome
        cases hsome
      · rfl

/-- Keys leave the queue or stay in their order, and only a new one is added behind them. -/
theorem queue_run (h : c.InStep) (call : CacheCall) : ∃ queue, queue.Sublist c.queue ∧
    ((call.run c).queue = queue ∨ ∃ key route, call = .put key route ∧ key ∉ c.queue ∧
      (call.run c).queue = queue ++ [key]) := by
  cases call with
  | get key => exact ⟨c.queue, .refl _, .inl rfl⟩
  | put key route =>
    rw [CacheCall.run]
    obtain ⟨-, hput⟩ | ⟨-, -, hput⟩ | ⟨-, hnew, -, hput⟩ |
      ⟨-, hnew, -, oldest, entries, hentries, hput⟩ := h.put_cases key route
    · exact ⟨c.queue, .refl _, .inl (by rw [hput])⟩
    · exact ⟨c.queue, .refl _, .inl (by rw [hput])⟩
    · exact ⟨c.queue, .refl _, .inr ⟨key, route, rfl, hnew, by rw [hput]⟩⟩
    · have hsub : (entries.map (·.1)).Sublist c.queue :=
        (h.front hentries).1 ▸ List.sublist_cons_self _ _
      exact ⟨_, hsub, .inr ⟨key, route, rfl, hnew, by rw [hput]⟩⟩

end InStep

end Step

section Histories

variable {options : CacheOptions} {calls : List CacheCall} {call : CacheCall} {start n : Nat}

/-- A cache with these bounds that has seen the calls. -/
def after (options : CacheOptions) (calls : List CacheCall) : RouteCache :=
  calls.foldl CacheCall.run (.empty options)

theorem after_concat (options : CacheOptions) (calls : List CacheCall) (call : CacheCall) :
    after options (calls ++ [call]) = call.run (after options calls) := by
  rw [after, List.foldl_concat, ← after]

theorem options_put (c : RouteCache) (key : CacheKey) (route : Route) :
    (c.put key route).options = c.options := by
  cases hcacheable : c.isCacheable key.sql with
  | false => rw [put_of_uncacheable hcacheable]
  | true =>
    rw [put_of_cacheable hcacheable]
    change (c.store key route).options = c.options
    rw [store]
    split <;> rfl

theorem options_after (options : CacheOptions) (calls : List CacheCall) :
    (after options calls).options = options := by
  induction calls using List.reverseRecOn with
  | nil => rfl
  | append_singleton calls call ih =>
    rw [after_concat]
    cases call with
    | put key route => exact (options_put _ key route).trans ih
    | get key => exact ih

theorem isCacheable_after (options : CacheOptions) (calls : List CacheCall) (sql : String) :
    (after options calls).isCacheable sql = true ↔
      0 < options.maxSize ∧ sql.utf8ByteSize ≤ options.maxSqlLength := by
  rw [isCacheable_iff, options_after]

theorem inStep_after (options : CacheOptions) (calls : List CacheCall) :
    (after options calls).InStep := by
  induction calls using List.reverseRecOn with
  | nil => exact ⟨rfl, List.nodup_nil, Nat.zero_le _, fun _ h => absurd h List.not_mem_nil⟩
  | append_singleton calls call ih =>
    rw [after_concat]
    cases call with
    | put key route => exact ih.put key route
    | get key => exact ih

/-- The route of the last call that put one in for the key. -/
def lastPut? (key : CacheKey) (calls : List CacheCall) : Option Route :=
  calls.reverse.findSome? fun
    | .put k route => if key = k then some route else none
    | .get _ => none

theorem lastPut?_put (key k : CacheKey) (calls : List CacheCall) (route : Route) :
    lastPut? k (calls ++ [.put key route]) = if k = key then some route else lastPut? k calls := by
  by_cases hk : k = key <;> simp [lastPut?, hk]

theorem lastPut?_get (key k : CacheKey) (calls : List CacheCall) :
    lastPut? k (calls ++ [.get key]) = lastPut? k calls := by
  simp [lastPut?]

theorem get?_after (h : (after options calls).Holds key) :
    (after options calls).get? key = lastPut? key calls := by
  induction calls using List.reverseRecOn with
  | nil => cases h
  | append_singleton calls call ih =>
    rw [after_concat] at h ⊢
    cases call with
    | get other =>
      rw [lastPut?_get]
      exact ih h
    | put other route =>
      have hstep := (inStep_after options calls).get?_put h
      rw [lastPut?_put]
      refine hstep.trans ?_
      split
      · rfl
      · rename_i hne
        -- the key that was not put in was there before
        have hsome := get?_isSome_iff.2 h
        rw [CacheCall.run, hstep, if_neg hne] at hsome
        exact ih (get?_isSome_iff.1 hsome)

/-- The key has been stored since the call behind the first `start` ones, which put it in anew. -/
structure StoredSince (options : CacheOptions) (calls : List CacheCall) (key : CacheKey) (start : Nat) :
    Prop where
  put : ∃ route, calls[start]? = some (.put key route)
  absent : ¬ (after options (calls.take start)).Holds key
  kept : ∀ n, start < n → n ≤ calls.length → (after options (calls.take n)).Holds key

namespace StoredSince

theorem lt (h : StoredSince options calls key start) : start < calls.length := by
  obtain ⟨route, hroute⟩ := h.put
  exact (List.getElem?_eq_some_iff.1 hroute).1

theorem holds (h : StoredSince options calls key start) : (after options calls).Holds key := by
  have hall := h.kept calls.length h.lt le_rfl
  rwa [List.take_length] at hall

theorem unique (h : StoredSince options calls key start) (h' : StoredSince options calls key n) :
    start = n := by
  by_contra hne
  rcases Nat.lt_or_gt_of_ne hne with hlt | hlt
  · exact h'.absent (h.kept n hlt h'.lt.le)
  · exact h.absent (h'.kept start hlt h.lt.le)

/-- A key that stays has been stored since the same call as before. -/
theorem concat (h : StoredSince options calls key start)
    (hheld : (after options (calls ++ [call])).Holds key) :
    StoredSince options (calls ++ [call]) key start where
  put := by
    rw [List.getElem?_append_left h.lt]
    exact h.put
  absent := by
    rw [List.take_append_of_le_length h.lt.le]
    exact h.absent
  kept := by
    intro n hlt hle
    rcases Nat.lt_or_ge calls.length n with hn | hn
    · rwa [List.take_of_length_le (by simpa using hn)]
    · rw [List.take_append_of_le_length hn]
      exact h.kept n hlt hn

/-- A key that was there before the last call has been there since an earlier one. -/
theorem of_concat (h : StoredSince options (calls ++ [call]) key start)
    (hheld : (after options calls).Holds key) : StoredSince options calls key start := by
  have hlt : start < calls.length := by
    have hle : start ≤ calls.length := by
      have := h.lt
      rw [List.length_append, List.length_singleton] at this
      omega
    refine Nat.lt_of_le_of_ne hle fun heq => h.absent ?_
    rwa [heq, List.take_left]
  refine ⟨?_, ?_, ?_⟩
  · rw [← List.getElem?_append_left hlt]
    exact h.put
  · rw [← List.take_append_of_le_length hlt.le]
    exact h.absent
  · intro n hn hle
    rw [← List.take_append_of_le_length hle]
    exact h.kept n hn (by rw [List.length_append]; omega)

end StoredSince

/-- A new key has been stored since the call that put it in. -/
theorem storedSince_put (hnew : ¬ (after options calls).Holds key)
    (hheld : (after options (calls ++ [.put key route])).Holds key) :
    StoredSince options (calls ++ [.put key route]) key calls.length where
  put := ⟨route, List.getElem?_concat_length⟩
  absent := by rwa [List.take_left]
  kept := by
    intro n hlt _
    rwa [List.take_of_length_le (by simpa using hlt)]

/-- Every key that is stored has been stored since some call. -/
theorem exists_storedSince (h : (after options calls).Holds key) :
    ∃ start, StoredSince options calls key start := by
  induction calls using List.reverseRecOn with
  | nil => cases h
  | append_singleton calls call ih =>
    by_cases hheld : (after options calls).Holds key
    · obtain ⟨start, hstart⟩ := ih hheld
      exact ⟨start, hstart.concat h⟩
    · have hstep := inStep_after options calls
      obtain ⟨queue, hsub, hqueue | ⟨other, route, rfl, hnew, hqueue⟩⟩ := hstep.queue_run call
      · have hmem := (inStep_after options (calls ++ [call])).holds_iff.1 h
        rw [after_concat, hqueue] at hmem
        exact absurd (hstep.holds_iff.2 (hsub.subset hmem)) hheld
      · have hmem := (inStep_after options (calls ++ [.put other route])).holds_iff.1 h
        rw [after_concat, hqueue, List.mem_append, List.mem_singleton] at hmem
        obtain rfl := hmem.resolve_left fun hold => hheld (hstep.holds_iff.2 (hsub.subset hold))
        exact ⟨_, storedSince_put hheld h⟩

/-- Of two keys in the queue the front one has been stored for longer. -/
def Ordered (options : CacheOptions) (calls : List CacheCall) (queue : List CacheKey) : Prop :=
  queue.Pairwise fun a b =>
    ∀ m n, StoredSince options calls a m → StoredSince options calls b n → m < n

theorem Ordered.concat {queue : List CacheKey} (h : Ordered options calls queue)
    (hheld : ∀ key ∈ queue, (after options calls).Holds key) :
    Ordered options (calls ++ [call]) queue :=
  h.imp_of_mem fun ha hb hlt m n hm hn => hlt m n (hm.of_concat (hheld _ ha)) (hn.of_concat (hheld _ hb))

theorem ordered_after (options : CacheOptions) (calls : List CacheCall) :
    Ordered options calls (after options calls).queue := by
  induction calls using List.reverseRecOn with
  | nil => exact .nil
  | append_singleton calls call ih =>
    have hstep := inStep_after options calls
    obtain ⟨queue, hsub, hqueue⟩ := hstep.queue_run call
    have hheld : ∀ key ∈ queue, (after options calls).Holds key := fun key hkey =>
      hstep.holds_iff.2 (hsub.subset hkey)
    have hold : Ordered options (calls ++ [call]) queue := Ordered.concat (ih.sublist hsub) hheld
    rw [after_concat]
    rcases hqueue with hqueue | ⟨key, route, rfl, hnew, hqueue⟩
    · rw [hqueue]
      exact hold
    · rw [hqueue]
      refine List.pairwise_append.2 ⟨hold, List.pairwise_singleton _ _, ?_⟩
      intro k hk b hb m n hm hn
      obtain rfl := List.mem_singleton.1 hb
      have hn' := hn.unique (storedSince_put (mt hstep.holds_iff.1 hnew) hn.holds)
      rw [hn']
      exact (hm.of_concat (hheld k hk)).lt

end Histories

/-- What holds of a cache after these calls, and of the calls that can come next. -/
structure FirstInFirstOut (options : CacheOptions) (calls : List CacheCall) (c : RouteCache) : Prop where
  /-- The queue has the keys of the entries, -/
  queued : c.queue.Perm (c.entries.map (·.1))
  /-- each once. -/
  once : c.queue.Nodup
  bounded : c.size ≤ options.maxSize
  found : ∀ key, c.Holds key → c.get? key = lastPut? key calls
  missed : ∀ key, ¬ c.Holds key → c.get? key = none
  /-- What is stored has an age, and it has waited in the queue since then. -/
  aged : ∀ key, c.Holds key ↔ ∃ start, StoredSince options calls key start
  ordered : Ordered options calls c.queue
  /-- Another route for a key changes no age. -/
  overwrite : ∀ key route, c.Holds key →
    (∀ k, (c.put key route).get? k = if k = key then some route else c.get? k) ∧
    (c.put key route).queue = c.queue ∧
    ∀ k start, StoredSince options (calls ++ [.put key route]) k start ↔
      StoredSince options calls k start
  /-- A new key for which there is room takes none away. -/
  enter : ∀ key route, key.sql.utf8ByteSize ≤ options.maxSqlLength → ¬ c.Holds key →
    c.size < options.maxSize →
    ∀ k, (c.put key route).get? k = if k = key then some route else c.get? k
  /-- A new key for which there is no room takes the oldest one away and no other. -/
  evict : ∀ key route, key.sql.utf8ByteSize ≤ options.maxSqlLength → ¬ c.Holds key →
    0 < options.maxSize → c.size = options.maxSize →
    ∃ oldest start, StoredSince options calls oldest start ∧
      (∀ k n, StoredSince options calls k n → k ≠ oldest → start < n) ∧
      ∀ k, (c.put key route).get? k =
        if k = key then some route else if k = oldest then none else c.get? k
  refused : ∀ key, options.maxSqlLength < key.sql.utf8ByteSize ∨ options.maxSize = 0 →
    ¬ c.Holds key ∧ ∀ route, c.put key route = c

section

variable {options : CacheOptions} {calls : List CacheCall} {key : CacheKey}

/-- Another route for a key that is stored leaves every age as it is. -/
theorem storedSince_overwrite (h : (after options calls).Holds key) (route : Route) (k : CacheKey)
    (start : Nat) :
    StoredSince options (calls ++ [.put key route]) k start ↔ StoredSince options calls k start := by
  have hstep := inStep_after options calls
  have hheld : (after options (calls ++ [.put key route])).Holds k ↔
      (after options calls).Holds k := by
    have hkey := hstep.holds_iff.1 h
    rw [(inStep_after options _).holds_iff, hstep.holds_iff, after_concat, CacheCall.run,
      hstep.put_held (hstep.cacheable key hkey) hkey]
  exact ⟨fun hk => hk.of_concat (hheld.1 hk.holds), fun hk => hk.concat (hheld.2 hk.holds)⟩

/-- The first key in the queue has been stored for the longest time. -/
theorem exists_oldest {oldest : CacheKey} {queue : List CacheKey}
    (h : (after options calls).queue = oldest :: queue) :
    ∃ start, StoredSince options calls oldest start ∧
      ∀ k n, StoredSince options calls k n → k ≠ oldest → start < n := by
  have hstep := inStep_after options calls
  have hordered := ordered_after options calls
  rw [h] at hordered
  have holdest : oldest ∈ (after options calls).queue := h ▸ List.mem_cons_self
  obtain ⟨start, hstart⟩ := exists_storedSince (hstep.holds_iff.2 holdest)
  refine ⟨start, hstart, fun k n hn hne => ?_⟩
  have hk := hstep.holds_iff.1 hn.holds
  rw [h, List.mem_cons] at hk
  exact List.rel_of_pairwise_cons hordered (hk.resolve_left hne) start n hstart hn

end

end RouteCache

open RouteCache in
/-- After any calls a cache is a map of bounded size whose oldest key leaves first: the queue has the
keys of the entries, a key that is stored has the route that was put in last, and only a new key that
finds the cache full takes another one away, the one that has been stored for the longest time. -/
theorem cache_first_in_first_out (options : CacheOptions) (calls : List CacheCall) :
    FirstInFirstOut options calls (after options calls) := by
  have hstep := inStep_after options calls
  have hoptions := options_after options calls
  refine
    { queued := by rw [hstep.keys]
      once := hstep.once
      bounded := hstep.bounded.trans_eq (congrArg CacheOptions.maxSize hoptions)
      found := fun key => get?_after
      missed := fun key => get?_eq_none
      aged := fun key => ⟨exists_storedSince, fun ⟨_, h⟩ => h.holds⟩
      ordered := ordered_after options calls
      overwrite := ?_
      enter := ?_
      evict := ?_
      refused := ?_ }
  · intro key route hheld
    have hkey := hstep.holds_iff.1 hheld
    have hcacheable := hstep.cacheable key hkey
    exact ⟨hstep.get?_put_held hcacheable hkey, by rw [hstep.put_held hcacheable hkey],
      storedSince_overwrite hheld route⟩
  · intro key route hlength hnew hlt
    have hcacheable := (isCacheable_after options calls key.sql).2 ⟨Nat.zero_lt_of_lt hlt, hlength⟩
    exact hstep.get?_put_room hcacheable (mt hstep.holds_iff.2 hnew) (by rwa [hoptions])
  · intro key route hlength hnew hpos heq
    have hcacheable := (isCacheable_after options calls key.sql).2 ⟨hpos, hlength⟩
    obtain ⟨oldest, queue, hqueue, hget⟩ :=
      hstep.get?_put_full hcacheable (mt hstep.holds_iff.2 hnew) (by rwa [hoptions]) route
    obtain ⟨start, hstart, hlt⟩ := exists_oldest hqueue
    exact ⟨oldest, start, hstart, hlt, hget⟩
  · intro key h
    have hrefused : ¬ (after options calls).isCacheable key.sql = true := by
      rw [isCacheable_after]
      omega
    exact ⟨fun hheld => hrefused (hstep.cacheable key (hstep.holds_iff.1 hheld)),
      fun route => put_of_uncacheable (Bool.eq_false_iff.2 hrefused)⟩

-- another route for the first key does not make it any younger
example : (RouteCache.after ⟨16, 2⟩ [.put ⟨"a", .unconstrained⟩ .empty, .put ⟨"b", .unconstrained⟩ .empty,
    .put ⟨"a", .unconstrained⟩ .empty, .put ⟨"c", .unconstrained⟩ .empty]).queue.map (·.sql) = ["b", "c"] := by
  decide

end ShardedSql
