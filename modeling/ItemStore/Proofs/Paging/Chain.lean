import ItemStore.Proofs.Outcome
import ItemStore.Proofs.Value.Printable
import ItemStore.Store.Execute
import Mathlib.Data.List.Basic

/-
  Chains of pages. A service that holds the replies to a query or scan answers the first request with the
  first of them, the second with the second one, and so on; every reply but the last one has a
  continuation key. What the service was sent and what the callables of a host remember can be read from
  the host's state (`Feed`).

  Main statements: `next_at` (the page after the first `i` ones is fetched with the continuation key of
  the one before) and `hasMore_at` (there is a page behind it unless the chain or the limit ends there).
-/

namespace ItemStore.Paging

variable {σ ρ : Type}

/-! ## Replies -/

/-- A response with the page that it becomes. -/
structure Reply where
  entries : Entries
  page : Entries
  shaped : shapeEntries entries = .ok page

namespace Reply

/-- The continuation key of a reply as it came from the wire. -/
def token (r : Reply) : Value := Value.field "LastEvaluatedKey" r.entries

/-- What a callable is shown of a reply. -/
def view (raw : Bool) (r : Reply) : Value := Paging.view raw (.map r.page)

/-- The items of a reply. -/
def items (r : Reply) : List Value := (itemsOf r.entries).toOption.getD []

/-- The page of a reply is the reply without its metadata, with its items read, and with its continuation
    key read if it has one. -/
theorem page_cases (r : Reply) :
    r.page = Value.put "Items" (.list r.items) (Value.without "ResponseMetadata" r.entries) ∨
      ∃ key, r.page = Value.put "LastEvaluatedKey" key
        (Value.put "Items" (.list r.items) (Value.without "ResponseMetadata" r.entries)) := by
  obtain ⟨es, page, hshaped⟩ := r
  unfold shapeEntries at hshaped
  unfold items
  cases hitems : itemsOf es with
  | error e =>
    rw [hitems] at hshaped
    cases hshaped
  | ok xs =>
    rw [hitems] at hshaped
    dsimp only at hshaped
    split at hshaped
    · cases hshaped
      exact .inl rfl
    · obtain ⟨key, -, rfl⟩ := exists_of_map_eq_ok hshaped
      exact .inr ⟨key, rfl⟩

theorem lookup_items (r : Reply) : Value.lookup "Items" r.page = some (.list r.items) := by
  obtain hpage | ⟨key, hpage⟩ := r.page_cases
  · rw [hpage, Value.lookup_put]
  · rw [hpage, Value.lookup_put_of_ne (by decide), Value.lookup_put]

/-- Every other field of a page is as it came, but for the metadata. -/
theorem lookup_page (r : Reply) {name : String} (hitems : name ≠ "Items")
    (hkey : name ≠ "LastEvaluatedKey") (hmetadata : name ≠ "ResponseMetadata") :
    Value.lookup name r.page = Value.lookup name r.entries := by
  have hbase : Value.lookup name
      (Value.put "Items" (.list r.items) (Value.without "ResponseMetadata" r.entries)) =
        Value.lookup name r.entries := by
    rw [Value.lookup_put_of_ne hitems, Value.lookup_without_of_ne hmetadata]
  obtain hpage | ⟨key, hpage⟩ := r.page_cases
  · rw [hpage, hbase]
  · rw [hpage, Value.lookup_put_of_ne hkey, hbase]

/-- Of a reply that is not raw its items are shown. -/
theorem view_false (r : Reply) : r.view false = .list r.items := by
  unfold view Paging.view
  rw [if_neg Bool.false_ne_true]
  show (Value.lookup "Items" r.page).getD .null = _
  rw [lookup_items]
  rfl

end Reply

/-- Every reply but the last one has a continuation key. -/
def IsChain (replies : List Reply) : Prop :=
  replies ≠ [] ∧
    ∀ i (h : i < replies.length), replies[i].token.isNull = decide (i + 1 = replies.length)

/-- The continuation key that the page behind the first `i` ones is fetched with. -/
def tokenBefore (replies : List Reply) : Nat → Value
  | 0 => .null
  | i + 1 => (replies[i]?.map Reply.token).getD .null

/-- A request for the page after a continuation key. -/
def requestAfter (wire : Entries) (token : Value) : Entries :=
  if token.isNull then wire else Value.put "ExclusiveStartKey" token wire

/-- The requests for the first `n` pages. -/
def requests (wire : Entries) (replies : List Reply) (n : Nat) : List Entries :=
  (List.range n).map fun i => requestAfter wire (tokenBefore replies i)

/-- What is shown of the first `n` pages. -/
def viewsOf (raw : Bool) (replies : List Reply) (n : Nat) : List Value :=
  (replies.take n).map (Reply.view raw)

/-- How many of `n` pages a limit leaves. -/
def pageCount (limit : Option Int) (n : Nat) : Nat := limit.elim n fun l => min n l.toNat

/-- The requests of one call are the first one with different continuation keys. -/
theorem without_of_mem_requests {wire request : Entries} {replies : List Reply} {n : Nat}
    (h : request ∈ requests wire replies n) :
    Value.without "ExclusiveStartKey" request = Value.without "ExclusiveStartKey" wire := by
  obtain ⟨i, -, rfl⟩ := List.mem_map.1 h
  unfold requestAfter
  split
  · rfl
  · exact Value.without_put ..

theorem requests_succ (wire : Entries) (replies : List Reply) (n : Nat) :
    requests wire replies (n + 1) =
      requests wire replies n ++ [requestAfter wire (tokenBefore replies n)] := by
  unfold requests
  rw [List.range_succ, List.map_append]
  rfl

theorem length_requests (wire : Entries) (replies : List Reply) (n : Nat) :
    (requests wire replies n).length = n := by
  unfold requests
  rw [List.length_map, List.length_range]

theorem tokenBefore_succ {replies : List Reply} {i : Nat} (h : i < replies.length) :
    tokenBefore replies (i + 1) = replies[i].token := by
  rw [tokenBefore, List.getElem?_eq_getElem h]
  rfl

theorem viewsOf_succ (raw : Bool) {replies : List Reply} {i : Nat} (h : i < replies.length) :
    viewsOf raw replies (i + 1) = viewsOf raw replies i ++ [replies[i].view raw] := by
  unfold viewsOf
  rw [List.take_add_one, List.getElem?_eq_getElem h, List.map_append]
  rfl

theorem pageCount_le (limit : Option Int) (n : Nat) : pageCount limit n ≤ n := by
  cases limit with
  | none => exact Nat.le_refl n
  | some l => exact Nat.min_le_left n l.toNat

theorem pageCount_pos {limit : Option Int} {n : Nat} (hn : 0 < n) (hlimit : ∀ l ∈ limit, 1 ≤ l) :
    0 < pageCount limit n := by
  cases limit with
  | none => exact hn
  | some l =>
    have hl : 1 ≤ l := hlimit l rfl
    show 0 < min n l.toNat
    omega

/-! ## Aborted calls -/

/-- Whether a cause has a text. -/
def hasText : Cause → Bool
  | .value v => v.hasText
  | .failure f => f.hasText

/-- An aborted call reports its cause if that has a text. -/
theorem aborted_of_hasText {cause : Cause} (h : hasText cause = true) (n : Nat) :
    aborted cause n = abortReport cause n := by
  have hworded : unworded? cause = none := by
    cases cause with
    | value v => exact Value.unworded?_of_hasText h
    | failure f => exact Option.isNone_iff_eq_none.1 h
  unfold aborted
  rw [hworded]

/-! ## Services -/

/-- A service that answers the requests of a method with some replies in order, as far as a host's state
    shows. The host's callables have a memory of their own, which the service leaves as it is. -/
structure Feed (host : Host σ) (method : Method) (replies : List Reply) (ρ : Type) where
  /-- the states in which the service answers so -/
  isReady : σ → Prop
  /-- the requests that were sent so far -/
  sent : σ → List Entries
  /-- what the callables remember -/
  memory : σ → ρ
  connects (s : σ) (session client : Value) : isReady s → host.isConnected s = false →
    ∃ t, host.connect session client s = (.ok (), t) ∧
      isReady t ∧ sent t = sent s ∧ memory t = memory s
  answers (s : σ) (request : Entries) (h : (sent s).length < replies.length) : isReady s →
    ∃ t, host.send method request s = (.ok (.map replies[(sent s).length].entries), t) ∧
      isReady t ∧ sent t = sent s ++ [request] ∧ memory t = memory s

namespace Feed

variable {host : Host σ} {method : Method} {replies : List Reply}

/-- A callable that works on its memory alone. -/
def Follows {α : Type} (feed : Feed host method replies ρ) (r : Run σ α) (g : Run ρ α) : Prop :=
  ∀ s, feed.isReady s → ∃ t, r s = ((g (feed.memory s)).1, t) ∧
    feed.isReady t ∧ feed.sent t = feed.sent s ∧ feed.memory t = (g (feed.memory s)).2

/-- A state in which the first `i` pages were fetched. -/
structure At (feed : Feed host method replies ρ) (wire : Entries) (i : Nat) (m : ρ) (s : σ) : Prop where
  ready : feed.isReady s
  sent : feed.sent s = requests wire replies i
  memory : feed.memory s = m

/-- A request is answered with the next reply, whether there is a client already or not. -/
theorem send_eq (feed : Feed host method replies ρ) (settings : Settings) {s : σ} (request : Entries)
    (hready : feed.isReady s) (h : (feed.sent s).length < replies.length) :
    ∃ t, Gateway.send host settings method request s =
        (.ok (.map replies[(feed.sent s).length].entries), t) ∧
      feed.isReady t ∧ feed.sent t = feed.sent s ++ [request] ∧ feed.memory t = feed.memory s := by
  obtain ⟨c, hconnected, hc, hsent, hmemory⟩ : ∃ c,
      Gateway.ensureConnected host settings s = (.ok (), c) ∧ feed.isReady c ∧
        feed.sent c = feed.sent s ∧ feed.memory c = feed.memory s := by
    have hensure := Gateway.ensureConnected_apply host settings s
    cases hs : host.isConnected s with
    | true =>
      rw [hs, if_pos rfl] at hensure
      exact ⟨s, hensure, hready, rfl, rfl⟩
    | false =>
      obtain ⟨c, hconnect, hc⟩ := feed.connects s settings.sessionArguments settings.clientArguments
        hready hs
      rw [hs, if_neg Bool.false_ne_true, Run.mapFailure_apply, hconnect] at hensure
      exact ⟨c, hensure, hc⟩
  obtain ⟨t, hsend, ht, htsent, htmemory⟩ := feed.answers c request (by rwa [hsent]) hc
  refine ⟨t, ?_, ht, by rw [htsent, hsent], by rw [htmemory, hmemory]⟩
  unfold Gateway.send
  rw [Run.bind_apply, hconnected]
  dsimp only
  rw [Run.bind_apply, Run.mapFailure_apply, hsend]
  simp only [hsent]
  cases hes : replies[(feed.sent s).length].entries with
  | nil => rfl
  | cons e es => rfl

end Feed

/-! ## Plans -/

/-- How the pages of a request are fetched. -/
def planOf (host : Host σ) (settings : Settings) (method : Method) (wire : Entries) (raw : Bool)
    (limit : Option Int) : Plan σ where
  host := host
  fetch token := Gateway.send host settings method (requestAfter wire token)
  raw := raw
  limit := limit

theorem paged_eq (host : Host σ) (settings : Settings) (method : Method) (op : Operation)
    {table : Value} {request wire : Entries} (options : PagingOptions)
    (h : Execute.toWire table request = .ok wire) :
    Execute.paged host settings method op table request options =
      traverse (planOf host settings method wire options.raw op.pageLimit) options.mode := by
  unfold Execute.paged
  rw [h]
  rfl

variable {host : Host σ} {method : Method} {replies : List Reply}

/-- The page behind the first `i` ones is fetched with the continuation key of the one before. -/
theorem next_at (feed : Feed host method replies ρ) (settings : Settings) {wire : Entries} (raw : Bool)
    (limit : Option Int) {i : Nat} {m : ρ} {s : σ} (hs : feed.At wire i m s)
    (hi : i < replies.length) :
    ∃ t, (planOf host settings method wire raw limit).next (tokenBefore replies i) s =
        (.ok ⟨.map replies[i].page, replies[i].token⟩, t) ∧ feed.At wire (i + 1) m t := by
  have hlength : (feed.sent s).length = i := by rw [hs.sent, length_requests]
  obtain ⟨t, hsend, hready, hsent, hmemory⟩ :=
    feed.send_eq settings (requestAfter wire (tokenBefore replies i)) hs.ready (by rwa [hlength])
  refine ⟨t, ?_, hready, ?_, ?_⟩
  · unfold Plan.next
    rw [Run.bind_apply]
    dsimp only [planOf]
    rw [hsend]
    simp only [hlength]
    rw [Run.bind_apply, Run.lift_apply]
    show (Run.lift (shapePage (.map replies[i].entries)) >>= _) t = _
    rw [Run.bind_apply, Run.lift_apply, shapePage, replies[i].shaped]
    rfl
  · rw [hsent, hs.sent, requests_succ]
  · rw [hmemory, hs.memory]

/-- Behind a page there is another one, unless the chain or the limit ends there. -/
theorem hasMore_at (p : Plan σ) (hchain : IsChain replies) {i : Nat} (hlength : i < replies.length) :
    p.hasMore replies[i].token (i + 1) = decide (i + 1 < pageCount p.limit replies.length) := by
  have hlimit : (!p.limit.any fun l => decide (l ≤ ((i + 1 : Nat) : Int))) = true ↔
      ∀ l, p.limit = some l → i + 1 < l.toNat := by
    cases p.limit with
    | none => simp
    | some l => simp
  have hcount : i + 1 < pageCount p.limit replies.length ↔
      i + 1 < replies.length ∧ ∀ l, p.limit = some l → i + 1 < l.toNat := by
    cases p.limit with
    | none => simp [pageCount]
    | some l => simp only [pageCount, Option.elim_some, Option.some.injEq, forall_eq']; omega
  have hlast : (!isExhausted replies[i].token ((i + 1 : Nat) : Int)) = true ↔
      i + 1 < replies.length := by
    unfold isExhausted
    rw [hchain.2 i hlength, Bool.not_eq_true', Bool.and_eq_false_iff, decide_eq_false_iff_not,
      decide_eq_false_iff_not]
    omega
  rw [Bool.eq_iff_iff, Plan.hasMore, Bool.and_eq_true, hlast, hlimit, decide_eq_true_eq, hcount]

theorem pageCount_le_bound (p : Plan σ) {n : Nat} (h : p.limit = none → n ≤ p.host.patience) :
    pageCount p.limit n ≤ p.bound := by
  unfold Plan.bound
  cases hlimit : p.limit with
  | none => exact h hlimit
  | some l =>
    show min n l.toNat ≤ max 1 l.toNat
    omega

end ItemStore.Paging
