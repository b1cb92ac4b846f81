import ItemStore.Proofs.Paging.Scripted

/-
  All pages reduced to one value. The reducer is folded over what is shown of the pages, from the left and
  from the initial value on; pages are fetched in order and each of them once, as many as there are or as
  the limit leaves. A reducer that fails on a page aborts the call with its failure and the number of pages
  so far, and no page is fetched behind that one.

  Main statement: `paged_reduces`. The failure is a `PagingAborted` if it has a text; otherwise it cannot be
  worded and the call fails with a mishap instead (`reduce_unworded`).
-/

namespace ItemStore.Paging

variable {σ ρ : Type}

/-! ## Folds that can fail -/

/-- A fold over one more member goes on where the fold before ended. -/
theorem foldlM_concat (f : Value → Value → Run ρ Value) (initial v : Value) (vs : List Value) (m : ρ) :
    (vs ++ [v]).foldlM f initial m = match vs.foldlM f initial m with
      | (.ok a, m') => f a v m'
      | (.error e, m') => (.error e, m') := by
  rw [List.foldlM_append, Run.bind_apply]
  rcases vs.foldlM f initial m with ⟨o, m'⟩
  cases o with
  | error e => rfl
  | ok a =>
    dsimp only
    rw [List.foldlM_cons, Run.bind_apply]
    rcases f a v m' with ⟨o, m''⟩
    cases o <;> rfl

/-- The fold over what is shown of some pages succeeds, or it fails on one of them. -/
theorem foldlM_viewsOf_cases (f : Value → Value → Run ρ Value) (initial : Value) (raw : Bool)
    {replies : List Reply} (m₀ : ρ) {n : Nat} (hn : n ≤ replies.length) :
    (∃ a m, (viewsOf raw replies n).foldlM f initial m₀ = (.ok a, m)) ∨
      ∃ i, ∃ h : i < replies.length, ∃ a m e m', i < n ∧
        (viewsOf raw replies i).foldlM f initial m₀ = (.ok a, m) ∧
        f a (replies[i].view raw) m = (.error e, m') := by
  induction n with
  | zero => exact .inl ⟨initial, m₀, rfl⟩
  | succ n ih =>
    obtain ⟨a, m, hfold⟩ | ⟨i, h, a, m, e, m', hi, hfold, hfail⟩ := ih (Nat.le_of_succ_le hn)
    · rcases hlast : f a (replies[n].view raw) m with ⟨o, m'⟩
      cases o with
      | error e => exact .inr ⟨n, hn, a, m, e, m', Nat.lt_succ_self n, hfold, hlast⟩
      | ok b =>
        refine .inl ⟨b, m', ?_⟩
        rw [viewsOf_succ raw hn, foldlM_concat, hfold]
        exact hlast
    · exact .inr ⟨i, h, a, m, e, m', Nat.lt_succ_of_lt hi, hfold, hfail⟩

/-! ## One page and several -/

variable {host : Host σ} {method : Method} {replies : List Reply}

/-- One page of a reduction: it is fetched, the reducer is applied, and the next page follows if there is
    one. -/
theorem reduceFrom_apply (p : Plan σ) (r : Reducer) (fuel : Nat) (token : Value) (n : Nat) (acc : Value)
    (s : σ) : reduceFrom p r (fuel + 1) token n acc s = match p.next token s with
      | (.error e, t) => (.error e, t)
      | (.ok fetched, c) => match combine p.host r acc (view p.raw fetched.page) c with
        | (.error e, t) => (.error (aborted (.failure e) (n + 1)), t)
        | (.ok a, t) =>
          if p.hasMore fetched.token (n + 1) = true then reduceFrom p r fuel fetched.token (n + 1) a t
          else (.ok a, t) := by
  rw [reduceFrom, Run.bind_apply]
  rcases p.next token s with ⟨o, c⟩
  cases o with
  | error e => rfl
  | ok fetched =>
    dsimp only
    rw [Run.bind_apply]
    unfold aborting
    rw [Run.mapFailure_apply]
    rcases combine p.host r acc (view p.raw fetched.page) c with ⟨o, t⟩
    cases o with
    | error e => rfl
    | ok a =>
      show (if p.hasMore fetched.token (n + 1) = true then _ else _ : Run σ Value) t = _
      cases p.hasMore fetched.token (n + 1) <;> rfl

/-- The reducer is applied to the page behind the first `i` ones, and its failure aborts the call. -/
theorem reduceFrom_step (feed : Feed host method replies ρ) (settings : Settings) {wire : Entries}
    (raw : Bool) (limit : Option Int) (r : Reducer) {f : Value → Value → Run ρ Value}
    (hchain : IsChain replies) (hr : ∀ acc page, feed.Follows (combine host r acc page) (f acc page))
    {i : Nat} {m : ρ} {s : σ} (hs : feed.At wire i m s) (hi : i < replies.length)
    (acc : Value) (fuel : Nat) :
    ∃ t, feed.At wire (i + 1) (f acc (replies[i].view raw) m).2 t ∧
      reduceFrom (planOf host settings method wire raw limit) r (fuel + 1) (tokenBefore replies i) i acc s =
        match (f acc (replies[i].view raw) m).1 with
        | .error e => (.error (aborted (.failure e) (i + 1)), t)
        | .ok a =>
          if i + 1 < pageCount limit replies.length then
            reduceFrom (planOf host settings method wire raw limit) r fuel
              (tokenBefore replies (i + 1)) (i + 1) a t
          else (.ok a, t) := by
  obtain ⟨c, hnext, hc⟩ := next_at feed settings raw limit hs hi
  obtain ⟨t, hcombine, hready, hsent, hmemory⟩ := hr acc (replies[i].view raw) c hc.ready
  rw [hc.memory] at hcombine hmemory
  refine ⟨t, ⟨hready, hsent.trans hc.sent, hmemory⟩, ?_⟩
  rw [reduceFrom_apply, hnext]
  dsimp only
  rw [show combine (planOf host settings method wire raw limit).host r acc
    (view (planOf host settings method wire raw limit).raw (.map replies[i].page)) c = _ from hcombine]
  cases (f acc (replies[i].view raw) m).1 with
  | error e => rfl
  | ok a =>
    simp only [hasMore_at _ hchain hi, tokenBefore_succ hi, decide_eq_true_eq]
    rfl

/-- Where the fold over the first `i` pages succeeds, the call goes on behind them. -/
theorem reduceFrom_run (feed : Feed host method replies ρ) (settings : Settings) {wire : Entries}
    (raw : Bool) (limit : Option Int) (r : Reducer) {f : Value → Value → Run ρ Value}
    (hchain : IsChain replies) (hr : ∀ acc page, feed.Follows (combine host r acc page) (f acc page))
    {m₀ : ρ} {s : σ} (hs : feed.At wire 0 m₀ s) (initial : Value) (fuel : Nat) {i : Nat} {a : Value}
    {m : ρ} (hi : i < pageCount limit replies.length)
    (hfold : (viewsOf raw replies i).foldlM f initial m₀ = (.ok a, m)) :
    ∃ t, feed.At wire i m t ∧
      reduceFrom (planOf host settings method wire raw limit) r (fuel + i) .null 0 initial s =
        reduceFrom (planOf host settings method wire raw limit) r fuel (tokenBefore replies i) i a t := by
  induction i generalizing a m fuel with
  | zero =>
    cases hfold
    exact ⟨s, hs, rfl⟩
  | succ i ih =>
    have hlength : i < replies.length :=
      Nat.lt_of_lt_of_le (Nat.lt_of_succ_lt hi) (pageCount_le limit replies.length)
    rw [viewsOf_succ raw hlength, foldlM_concat] at hfold
    rcases hbefore : (viewsOf raw replies i).foldlM f initial m₀ with ⟨o, m₁⟩
    rw [hbefore] at hfold
    cases o with
    | error e => cases hfold
    | ok b =>
      dsimp only at hfold
      obtain ⟨c, hc, hrun⟩ := ih (fuel + 1) (Nat.lt_of_succ_lt hi) hbefore
      obtain ⟨t, ht, hstep⟩ := reduceFrom_step feed settings raw limit r hchain hr hc hlength b fuel
      rw [hfold] at ht hstep
      refine ⟨t, ht, ?_⟩
      rw [show fuel + (i + 1) = fuel + 1 + i by omega, hrun, hstep]
      dsimp only
      rw [if_pos hi]

/-! ## Whole calls -/

/-- How a reduction over the pages up to the limit ends: with the fold over what is shown of them, or with
    the failure of the reducer on a page, behind which no page is fetched. -/
def Reduces (feed : Feed host method replies ρ) (wire : Entries) (raw : Bool) (k : Nat)
    (f : Value → Value → Run ρ Value) (initial : Value) (m₀ : ρ)
    (r : Except Failure Value × σ) : Prop :=
  (∃ a m, (viewsOf raw replies k).foldlM f initial m₀ = (.ok a, m) ∧
      r.1 = .ok a ∧ feed.At wire k m r.2) ∨
    ∃ i, ∃ h : i < replies.length, ∃ a m e m', i < k ∧
      (viewsOf raw replies i).foldlM f initial m₀ = (.ok a, m) ∧
      f a (replies[i].view raw) m = (.error e, m') ∧
      r.1 = .error (aborted (.failure e) (i + 1)) ∧ feed.At wire (i + 1) m' r.2

/-- Where the fold over the first `i` pages succeeds, the reducer decides on the page behind them: its
    failure aborts the call, and on the last page its result is that of the call. -/
theorem reduce_at (feed : Feed host method replies ρ) (settings : Settings) {wire : Entries}
    (raw : Bool) (limit : Option Int) (r : Reducer) {f : Value → Value → Run ρ Value}
    (hchain : IsChain replies) (hpatience : limit = none → replies.length ≤ host.patience)
    (hr : ∀ acc page, feed.Follows (combine host r acc page) (f acc page))
    {m₀ : ρ} {s : σ} (hs : feed.At wire 0 m₀ s) (initial : Value) {i : Nat} (hlength : i < replies.length)
    (hi : i < pageCount limit replies.length) {a : Value} {m : ρ}
    (hfold : (viewsOf raw replies i).foldlM f initial m₀ = (.ok a, m)) :
    ∃ t, feed.At wire (i + 1) (f a (replies[i].view raw) m).2 t ∧
      match (f a (replies[i].view raw) m).1 with
      | .error e => traverse (planOf host settings method wire raw limit) (.reduce r initial) s =
          (.error (aborted (.failure e) (i + 1)), t)
      | .ok b => i + 1 = pageCount limit replies.length →
          traverse (planOf host settings method wire raw limit) (.reduce r initial) s = (.ok b, t) := by
  -- there is fuel for this page at least
  obtain ⟨fuel, hfuel⟩ := Nat.exists_eq_add_of_lt (Nat.lt_of_lt_of_le hi
    (pageCount_le_bound (planOf host settings method wire raw limit) hpatience))
  obtain ⟨c, hc, hrun⟩ :=
    reduceFrom_run feed settings raw limit r hchain hr hs initial (fuel + 1) hi hfold
  obtain ⟨t, ht, hstep⟩ := reduceFrom_step feed settings raw limit r hchain hr hc hlength a fuel
  refine ⟨t, ht, ?_⟩
  rw [traverse, hfuel, show i + fuel + 1 = fuel + 1 + i by omega, hrun, hstep]
  cases (f a (replies[i].view raw) m).1 with
  | error e => rfl
  | ok b =>
    intro hlast
    dsimp only
    rw [if_neg (by omega)]

theorem reduces_of_follows (feed : Feed host method replies ρ) (settings : Settings) {wire : Entries}
    (raw : Bool) (limit : Option Int) (r : Reducer) {f : Value → Value → Run ρ Value}
    (hchain : IsChain replies) (hlimit : ∀ l ∈ limit, 1 ≤ l)
    (hpatience : limit = none → replies.length ≤ host.patience)
    (hr : ∀ acc page, feed.Follows (combine host r acc page) (f acc page))
    {m₀ : ρ} {s : σ} (hs : feed.At wire 0 m₀ s) (initial : Value) :
    Reduces feed wire raw (pageCount limit replies.length) f initial m₀
      (traverse (planOf host settings method wire raw limit) (.reduce r initial) s) := by
  obtain ⟨last, hk⟩ : ∃ last, pageCount limit replies.length = last + 1 :=
    Nat.exists_eq_succ_of_ne_zero
      (Nat.ne_of_gt (pageCount_pos (List.length_pos_iff.2 hchain.1) hlimit))
  have hcount := pageCount_le limit replies.length
  have hlast : last < replies.length := by omega
  have hat {i : Nat} (hi : i < last + 1) (h : i < replies.length) {a : Value} {m : ρ} :=
    reduce_at feed settings raw limit r hchain hpatience hr hs initial (a := a) (m := m) h (hk ▸ hi)
  rw [hk]
  obtain ⟨a, m, hfold⟩ | ⟨i, h, a, m, e, m', hi, hfold, hfail⟩ :=
    foldlM_viewsOf_cases f initial raw m₀ (Nat.le_of_lt hlast)
  · obtain ⟨t, ht, hend⟩ := hat (Nat.lt_succ_self last) hlast hfold
    rcases hf : f a (replies[last].view raw) m with ⟨o, m'⟩
    rw [hf] at ht hend
    cases o with
    | error e =>
      rw [show traverse _ _ s = _ from hend]
      exact .inr ⟨last, hlast, a, m, e, m', Nat.lt_succ_self last, hfold, hf, rfl, ht⟩
    | ok b =>
      rw [show traverse _ _ s = _ from hend hk.symm]
      refine .inl ⟨b, m', ?_, rfl, ht⟩
      rw [viewsOf_succ raw hlast, foldlM_concat, hfold]
      exact hf
  · obtain ⟨t, ht, hend⟩ := hat (Nat.lt_succ_of_lt hi) h hfold
    rw [hfail] at ht hend
    rw [show traverse _ _ s = _ from hend]
    exact .inr ⟨i, h, a, m, e, m', Nat.lt_succ_of_lt hi, hfold, hfail, rfl, ht⟩

/-- A reduction whose fold over the pages up to the limit succeeds ends with the result of the fold. -/
theorem Reduces.of_fold {feed : Feed host method replies ρ} {wire : Entries} {raw : Bool} {k : Nat}
    {f : Value → Value → Run ρ Value} {initial : Value} {m₀ : ρ} {r : Except Failure Value × σ}
    (h : Reduces feed wire raw k f initial m₀ r) {a : Value} {m : ρ}
    (hfold : (viewsOf raw replies k).foldlM f initial m₀ = (.ok a, m)) :
    r.1 = .ok a ∧ feed.At wire k m r.2 := by
  obtain ⟨b, m', hall, hok, ht⟩ | ⟨i, hlength, b, m', e, m'', hi, hbefore, hfail, -, -⟩ := h
  · rw [hfold] at hall
    cases hall
    exact ⟨hok, ht⟩
  · -- a fold that fails on one page does not succeed with the pages behind it
    have hsplit : viewsOf raw replies k =
        viewsOf raw replies (i + 1) ++ ((replies.take k).drop (i + 1)).map (Reply.view raw) := by
      unfold viewsOf
      rw [← List.map_append, show replies.take (i + 1) = (replies.take k).take (i + 1) by
        rw [List.take_take, Nat.min_eq_left hi], List.take_append_drop]
    rw [hsplit, List.foldlM_append, Run.bind_apply, viewsOf_succ raw hlength, foldlM_concat,
      hbefore] at hfold
    dsimp only at hfold
    rw [hfail] at hfold
    cases hfold

/-- A computation without an effect follows itself. -/
theorem Feed.follows_lift {α : Type} (feed : Feed host method replies ρ) (x : Except Failure α) :
    feed.Follows (Run.lift x) (Run.lift x) := by
  intro s hs
  refine ⟨s, ?_, hs, rfl, ?_⟩
  · rw [Run.lift_apply, Run.lift_apply]
  · rw [Run.lift_apply]

/-! ## Joined pages -/

/-- The items of the first `n` pages one after another, or the pages themselves where they are raw. -/
def joined (raw : Bool) (replies : List Reply) (n : Nat) : List Value :=
  if raw then (replies.take n).map fun r => .map r.page else (replies.take n).flatMap Reply.items

theorem joined_succ (raw : Bool) {replies : List Reply} {n : Nat} (h : n < replies.length) :
    joined raw replies (n + 1) =
      joined raw replies n ++ if raw then [.map replies[n].page] else replies[n].items := by
  have htake : replies.take (n + 1) = replies.take n ++ [replies[n]] := by
    rw [List.take_add_one, List.getElem?_eq_getElem h]
    rfl
  unfold joined
  rw [htake]
  cases raw with
  | true => exact List.map_append
  | false => exact List.flatMap_append.trans (congrArg _ (List.flatMap_singleton _ _))

/-- Joining pages to a list never fails. -/
theorem concatenate_view (raw : Bool) (xs : List Value) (r : Reply) :
    concatenate (.list xs) (r.view raw) =
      .ok (.list (xs ++ if raw then [.map r.page] else r.items)) := by
  cases raw with
  | true => rfl
  | false =>
    rw [r.view_false]
    rfl

theorem foldlM_concatenate (raw : Bool) {replies : List Reply} {n : Nat} (hn : n ≤ replies.length)
    (m : ρ) :
    (viewsOf raw replies n).foldlM
        (fun acc page => (Run.lift ((concatenate acc page).mapError .mishap) : Run ρ Value))
        (.list []) m =
      (.ok (.list (joined raw replies n)), m) := by
  induction n with
  | zero =>
    unfold viewsOf joined
    cases raw <;> rfl
  | succ n ih =>
    rw [viewsOf_succ raw hn, foldlM_concat, ih (Nat.le_of_succ_le hn)]
    dsimp only
    rw [concatenate_view, joined_succ raw hn]
    rfl

theorem joins_pages (feed : Feed host method replies ρ) (settings : Settings) {wire : Entries}
    (raw : Bool) (limit : Option Int) (hchain : IsChain replies) (hlimit : ∀ l ∈ limit, 1 ≤ l)
    (hpatience : limit = none → replies.length ≤ host.patience) {m₀ : ρ} {s : σ}
    (hs : feed.At wire 0 m₀ s) :
    ∃ t, traverse (planOf host settings method wire raw limit) (.reduce .concatenate (.list [])) s =
        (.ok (.list (joined raw replies (pageCount limit replies.length))), t) ∧
      feed.At wire (pageCount limit replies.length) m₀ t := by
  obtain ⟨hok, ht⟩ := (reduces_of_follows feed settings raw limit .concatenate hchain hlimit hpatience
    (fun acc page => feed.follows_lift ((concatenate acc page).mapError .mishap)) hs (.list [])).of_fold
    (foldlM_concatenate raw (pageCount_le limit replies.length) m₀)
  exact ⟨_, Prod.ext hok rfl, ht⟩

/-- A query or scan over all pages is a fold over the pages of the service. As many pages are fetched as
    there are, or as the limit leaves, in order and each of them once; every request but the first one has
    the continuation key of the reply before, and is the first one otherwise. A failure of the reducer aborts
    the call with that failure and the number of pages so far. Without a reducer the items of the pages,
    or the raw pages, are joined to one list. -/
theorem paged_reduces (feed : Feed host method replies ρ) (settings : Settings) (op : Operation)
    {table : Value} {request wire : Entries} (hwire : Execute.toWire table request = .ok wire)
    (hchain : IsChain replies) (hlimit : ∀ l ∈ op.pageLimit, 1 ≤ l)
    (hpatience : op.pageLimit = none → replies.length ≤ host.patience)
    {m₀ : ρ} {s : σ} (hs : feed.At wire 0 m₀ s) :
    (∀ options c f, options.reducer = some c →
      (∀ acc page, feed.Follows (combine host (.custom c) acc page) (f acc page)) →
      Reduces feed wire options.raw (pageCount op.pageLimit replies.length) f options.initial m₀
        (Execute.paged host settings method op table request options s)) ∧
    (∀ options, options.reducer = none → options.callback = none → options.allPages = true →
      ∃ t, Execute.paged host settings method op table request options s =
          (.ok (.list (joined options.raw replies (pageCount op.pageLimit replies.length))), t) ∧
        feed.At wire (pageCount op.pageLimit replies.length) m₀ t) ∧
    (∀ cause n, hasText cause = true → aborted cause n = abortReport cause n) ∧
    ∀ n, ∀ sent ∈ requests wire replies n,
      Value.without "ExclusiveStartKey" sent = Value.without "ExclusiveStartKey" wire := by
  refine ⟨?_, ?_, fun cause n h => aborted_of_hasText h n, fun n sent h => without_of_mem_requests h⟩
  · intro options c f hreducer hfollows
    have hmode : options.mode = .reduce (.custom c) options.initial := by
      unfold PagingOptions.mode
      rw [hreducer]
    rw [paged_eq host settings method op options hwire, hmode]
    exact reduces_of_follows feed settings options.raw op.pageLimit (.custom c) hchain hlimit hpatience
      hfollows hs options.initial
  · intro options hreducer hcallback hall
    have hmode : options.mode = .reduce .concatenate (.list []) := by
      unfold PagingOptions.mode
      rw [hreducer, hcallback, hall]
      rfl
    rw [paged_eq host settings method op options hwire, hmode]
    exact joins_pages feed settings options.raw op.pageLimit hchain hlimit hpatience hs

theorem paged_reduces_films :
    IsChain filmReplies ∧ (∀ l ∈ filmScan.pageLimit, 1 ≤ l) ∧
    Execute.toWire (.text "films") [] = .ok [(.text "TableName", .text "films")] ∧
    Reduces (scriptedFeed .scan filmReplies (.failOn 2 (.mishap (.value (.text "full")))) fun log => log)
      [(.text "TableName", .text "films")] false 2
      (fun acc page log => (Routine.run (.failOn 2 (.mishap (.value (.text "full")))) (log.length + 1)
        [acc, page], log ++ [("count", [acc, page])])) (.int 0) []
      (Execute.paged MemoryHost.host (Settings.defaults [] .byField) .scan filmScan (.text "films") []
        (reduceWith "count" (.int 0))
        (scriptedPages .scan filmReplies (.failOn 2 (.mishap (.value (.text "full")))))) ∧
    (Execute.paged MemoryHost.host (Settings.defaults [] .byField) .scan filmScan (.text "films") []
        (reduceWith "count" (.int 0))
        (scriptedPages .scan filmReplies (.failOn 2 (.mishap (.value (.text "full")))))).1 =
      .error (abortReport (.failure (.mishap (.value (.text "full")))) 2) ∧
    ∃ t, Execute.paged MemoryHost.host (Settings.defaults [] .byField) .scan filmScan (.text "films") []
        { PagingOptions.defaults with allPages := true } (scriptedPages .scan filmReplies .collect) =
      (.ok (.list (joined false filmReplies 2)), t) := by
  have hwire : Execute.toWire (.text "films") [] = .ok [(.text "TableName", .text "films")] := rfl
  have hpatience : filmScan.pageLimit = none → filmReplies.length ≤ MemoryHost.host.patience := nofun
  refine ⟨isChain_filmReplies, one_le_of_filmScan, hwire, ?_, rfl, ?_⟩
  · exact (paged_reduces _ (Settings.defaults [] .byField) filmScan hwire isChain_filmReplies
      one_le_of_filmScan hpatience (scriptedFeed_at .scan filmReplies _ (fun log => log) _)).1
      (reduceWith "count" (.int 0)) (.hosted "count" 0) _ rfl (follows_call .scan filmReplies _ "count")
  · obtain ⟨t, hpaged, -⟩ := (paged_reduces _ (Settings.defaults [] .byField) filmScan hwire
      isChain_filmReplies one_le_of_filmScan hpatience
      (scriptedFeed_at .scan filmReplies .collect (fun log => log) _)).2.1
      { PagingOptions.defaults with allPages := true } rfl rfl rfl
    exact ⟨t, hpaged⟩

/-- A reducer fails on the first page with a failure that has no text. The call does not report that it
    was aborted: to put the report into words fails. -/
theorem reduce_unworded :
    Routine.run (.fail (.store (.payload (.int 5)) none [])) 1 [.null, .list []] =
      .error (.store (.payload (.int 5)) none []) ∧
    (Execute.paged MemoryHost.host (Settings.defaults [] .byField) .scan filmScan (.text "films") []
        (reduceWith "count" .null)
        (scriptedPages .scan [⟨[(.text "Items", .list [])], [(.text "Items", .list [])], rfl⟩]
          (.fail (.store (.payload (.int 5)) none [])))).1 =
      .error (.mishap (.sort none)) := ⟨rfl, rfl⟩

end ItemStore.Paging
