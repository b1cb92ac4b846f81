import ItemStore.Proofs.Paging.Fold
import Mathlib.Data.Nat.Find

/-
  Pages visited by a callback. What the callback does on a page is a function of all that it has been shown
  so far: it signals some times, or it fails. The next page is fetched if the first signal is to go on, if
  the page had a continuation key, and if the limit is not reached. A failure of the callback aborts the
  call even behind signals, a first signal to stop aborts it with the cause that was given, and without a
  signal the call ends.

  Main statement: `paged_visits`. A cause without a text cannot be reported, and the call fails with a
  mishap instead (`visit_unworded`).
-/

namespace ItemStore.Paging

variable {σ : Type} {host : Host σ} {method : Method} {replies : List Reply}

/-- What a page callback does on a page, from all that it was shown up to that page. -/
abbrev Behaviour := List Value → Except Failure (List Signal)

/-- The callback goes on behind the last page that it was shown. -/
def Proceeds (behave : Behaviour) (seen : List Value) : Prop :=
  ∃ rest, behave seen = .ok (.proceed :: rest)

/-- A callback that behaves so and remembers what it is shown. -/
def VisitsBy (feed : Feed host method replies (List Value)) (c : Callback) (behave : Behaviour) : Prop :=
  ∀ page, feed.Follows (visitPage host c page) fun seen => (behave (seen ++ [page]), seen ++ [page])

/-! ## One page and several -/

/-- One page of a visit: it is fetched and shown, and the first signal decides. -/
theorem visitFrom_apply (p : Plan σ) (c : Callback) (fuel : Nat) (token : Value) (n : Nat) (s : σ) :
    visitFrom p c (fuel + 1) token n s = match p.next token s with
      | (.error e, t) => (.error e, t)
      | (.ok fetched, b) => match visitPage p.host c (view p.raw fetched.page) b with
        | (.error e, t) => (.error (aborted (.failure e) (n + 1)), t)
        | (.ok [], t) => (.ok .null, t)
        | (.ok (.stop cause :: _), t) => (.error (aborted cause (n + 1)), t)
        | (.ok (.proceed :: _), t) =>
          if p.hasMore fetched.token (n + 1) = true then visitFrom p c fuel fetched.token (n + 1) t
          else (.ok .null, t) := by
  rw [visitFrom, Run.bind_apply]
  rcases p.next token s with ⟨o, b⟩
  cases o with
  | error e => rfl
  | ok fetched =>
    dsimp only
    rw [Run.bind_apply]
    unfold aborting
    rw [Run.mapFailure_apply]
    rcases visitPage p.host c (view p.raw fetched.page) b with ⟨o, t⟩
    match o with
    | .error e => rfl
    | .ok [] => rfl
    | .ok (.stop cause :: rest) => rfl
    | .ok (.proceed :: rest) =>
      show (if p.hasMore fetched.token (n + 1) = true then _ else _ : Run σ Value) t = _
      cases p.hasMore fetched.token (n + 1) <;> rfl

/-- What the callback does on the page behind the first `i` ones decides how the call goes on. -/
theorem visitFrom_step (feed : Feed host method replies (List Value)) (settings : Settings)
    {wire : Entries} (raw : Bool) (limit : Option Int) {c : Callback} {behave : Behaviour}
    (hchain : IsChain replies) (hc : VisitsBy feed c behave) {i : Nat} {s : σ}
    (hs : feed.At wire i (viewsOf raw replies i) s) (hi : i < replies.length) (fuel : Nat) :
    ∃ t, feed.At wire (i + 1) (viewsOf raw replies (i + 1)) t ∧
      visitFrom (planOf host settings method wire raw limit) c (fuel + 1) (tokenBefore replies i) i s =
        match behave (viewsOf raw replies (i + 1)) with
        | .error e => (.error (aborted (.failure e) (i + 1)), t)
        | .ok [] => (.ok .null, t)
        | .ok (.stop cause :: _) => (.error (aborted cause (i + 1)), t)
        | .ok (.proceed :: _) =>
          if i + 1 < pageCount limit replies.length then
            visitFrom (planOf host settings method wire raw limit) c fuel
              (tokenBefore replies (i + 1)) (i + 1) t
          else (.ok .null, t) := by
  obtain ⟨b, hnext, hb⟩ := next_at feed settings raw limit hs hi
  obtain ⟨t, hvisit, hready, hsent, hmemory⟩ := hc (replies[i].view raw) b hb.ready
  rw [hb.memory] at hvisit hmemory
  dsimp only at hvisit hmemory
  rw [← viewsOf_succ raw hi] at hvisit hmemory
  refine ⟨t, ⟨hready, hsent.trans hb.sent, hmemory⟩, ?_⟩
  rw [visitFrom_apply, hnext]
  dsimp only
  rw [show visitPage (planOf host settings method wire raw limit).host c
    (view (planOf host settings method wire raw limit).raw (.map replies[i].page)) b = _ from hvisit]
  match behave (viewsOf raw replies (i + 1)) with
  | .error e => rfl
  | .ok [] => rfl
  | .ok (.stop cause :: rest) => rfl
  | .ok (.proceed :: rest) =>
    simp only [hasMore_at _ hchain hi, tokenBefore_succ hi, decide_eq_true_eq]
    rfl

/-- Where the callback goes on behind each of the first `i` pages, so does the call. -/
theorem visitFrom_run (feed : Feed host method replies (List Value)) (settings : Settings)
    {wire : Entries} (raw : Bool) (limit : Option Int) {c : Callback} {behave : Behaviour}
    (hchain : IsChain replies) (hc : VisitsBy feed c behave) {s : σ} (hs : feed.At wire 0 [] s)
    (fuel : Nat) {i : Nat} (hi : i < pageCount limit replies.length)
    (hproceeds : ∀ j < i, Proceeds behave (viewsOf raw replies (j + 1))) :
    ∃ t, feed.At wire i (viewsOf raw replies i) t ∧
      visitFrom (planOf host settings method wire raw limit) c (fuel + i) .null 0 s =
        visitFrom (planOf host settings method wire raw limit) c fuel (tokenBefore replies i) i t := by
  induction i generalizing fuel with
  | zero => exact ⟨s, hs, rfl⟩
  | succ i ih =>
    obtain ⟨b, hb, hrun⟩ := ih (fuel + 1) (Nat.lt_of_succ_lt hi)
      fun j hj => hproceeds j (Nat.lt_succ_of_lt hj)
    have hlength : i < replies.length :=
      Nat.lt_of_lt_of_le (Nat.lt_of_succ_lt hi) (pageCount_le limit replies.length)
    obtain ⟨t, ht, hstep⟩ := visitFrom_step feed settings raw limit hchain hc hb hlength fuel
    obtain ⟨rest, hrest⟩ := hproceeds i (Nat.lt_succ_self i)
    rw [hrest] at hstep
    refine ⟨t, ht, ?_⟩
    rw [show fuel + (i + 1) = fuel + 1 + i by omega, hrun, hstep]
    dsimp only
    rw [if_pos hi]

/-! ## Whole calls -/

/-- How a visit to pages, at most `k` of them, ends. The last page that is fetched is the one behind the
    first `j`; the callback is shown each page that is fetched once, and it goes on behind those before the
    last one, all of which have a continuation key. -/
def Visits (feed : Feed host method replies (List Value)) (wire : Entries) (raw : Bool) (k : Nat)
    (behave : Behaviour) (r : Except Failure Value × σ) : Prop :=
  ∃ j < k, feed.At wire (j + 1) (viewsOf raw replies (j + 1)) r.2 ∧
    (∀ i < j, Proceeds behave (viewsOf raw replies (i + 1)) ∧
      (tokenBefore replies (i + 1)).isNull = false) ∧
    ((∃ f, behave (viewsOf raw replies (j + 1)) = .error f ∧
        r.1 = .error (aborted (.failure f) (j + 1))) ∨
      (∃ cause rest, behave (viewsOf raw replies (j + 1)) = .ok (.stop cause :: rest) ∧
        r.1 = .error (aborted cause (j + 1))) ∨
      (behave (viewsOf raw replies (j + 1)) = .ok [] ∧ r.1 = .ok .null) ∨
      (Proceeds behave (viewsOf raw replies (j + 1)) ∧ j + 1 = k ∧ r.1 = .ok .null))

/-- There is a first page behind which the callback does not go on, or it goes on behind all of them. -/
theorem exists_last (P : Nat → Prop) {k : Nat} (hk : 0 < k) :
    ∃ j < k, (∀ i < j, P i) ∧ (P j → j + 1 = k) := by
  classical
  have hex : ∃ j, ¬ P j ∨ j + 1 = k := ⟨k - 1, .inr (by omega)⟩
  have hle : Nat.find hex ≤ k - 1 := Nat.find_min' hex (.inr (by omega))
  refine ⟨Nat.find hex, by omega, fun i hi => ?_, fun hP => ?_⟩
  · exact Classical.byContradiction fun hnot => Nat.find_min hex hi (.inl hnot)
  · exact (Nat.find_spec hex).resolve_left fun hnot => hnot hP

theorem visits_of_visitsBy (feed : Feed host method replies (List Value)) (settings : Settings)
    {wire : Entries} (raw : Bool) (limit : Option Int) {c : Callback} {behave : Behaviour}
    (hchain : IsChain replies) (hlimit : ∀ l ∈ limit, 1 ≤ l)
    (hpatience : limit = none → replies.length ≤ host.patience) (hc : VisitsBy feed c behave) {s : σ}
    (hs : feed.At wire 0 [] s) :
    Visits feed wire raw (pageCount limit replies.length) behave
      (traverse (planOf host settings method wire raw limit) (.visit c) s) := by
  obtain ⟨j, hj, hbefore, hlast⟩ := exists_last
    (fun i => Proceeds behave (viewsOf raw replies (i + 1)))
    (pageCount_pos (List.length_pos_iff.2 hchain.1) hlimit)
  have hlength : j < replies.length := Nat.lt_of_lt_of_le hj (pageCount_le limit replies.length)
  obtain ⟨fuel, hfuel⟩ := Nat.exists_eq_add_of_lt (Nat.lt_of_lt_of_le hj
    (pageCount_le_bound (planOf host settings method wire raw limit) hpatience))
  obtain ⟨b, hb, hrun⟩ :=
    visitFrom_run feed settings raw limit hchain hc hs (fuel + 1) hj hbefore
  obtain ⟨t, ht, hstep⟩ := visitFrom_step feed settings raw limit hchain hc hb hlength fuel
  have htokens : ∀ i < j, (tokenBefore replies (i + 1)).isNull = false := by
    intro i hi
    have hi' : i < replies.length := Nat.lt_trans hi hlength
    rw [tokenBefore_succ hi', hchain.2 i hi']
    exact decide_eq_false (by omega)
  have hkept (i : Nat) (hi : i < j) := And.intro (hbefore i hi) (htokens i hi)
  rw [traverse, hfuel, show j + fuel + 1 = fuel + 1 + j by omega, hrun, hstep]
  refine ⟨j, hj, ?_⟩
  rcases hbehave : behave (viewsOf raw replies (j + 1)) with f | ⟨- | ⟨signal, rest⟩⟩
  · exact ⟨ht, hkept, .inl ⟨f, rfl, rfl⟩⟩
  · exact ⟨ht, hkept, .inr (.inr (.inl ⟨rfl, rfl⟩))⟩
  · cases signal with
    | stop cause => exact ⟨ht, hkept, .inr (.inl ⟨cause, rest, rfl, rfl⟩)⟩
    | proceed =>
      have hend : j + 1 = pageCount limit replies.length := hlast ⟨rest, hbehave⟩
      dsimp only
      rw [if_neg (by omega)]
      exact ⟨ht, hkept, .inr (.inr (.inr ⟨⟨rest, hbehave⟩, hend, rfl⟩))⟩

/-- A callback that always goes on is shown all pages up to the limit, and the call ends with null. -/
theorem Visits.of_proceeds {feed : Feed host method replies (List Value)} {wire : Entries} {raw : Bool}
    {k : Nat} {behave : Behaviour} {r : Except Failure Value × σ}
    (h : Visits feed wire raw k behave r) (hproceeds : ∀ seen, Proceeds behave seen) :
    r.1 = .ok .null ∧ feed.At wire k (viewsOf raw replies k) r.2 := by
  obtain ⟨j, -, ht, -, hend⟩ := h
  obtain ⟨rest, hrest⟩ := hproceeds (viewsOf raw replies (j + 1))
  obtain ⟨f, hf, -⟩ | ⟨cause, rest', hstop, -⟩ | ⟨hnil, -⟩ | ⟨-, rfl, hnull⟩ := hend
  · cases hrest.symm.trans hf
  · cases hrest.symm.trans hstop
  · cases hrest.symm.trans hnil
  · exact ⟨hnull, ht⟩

/-- A reducer that never fails and remembers what it is shown. -/
def remembering (g : Value → Value → Value) (acc page : Value) : Run (List Value) Value :=
  fun seen => (.ok (g acc page), seen ++ [page])

theorem foldlM_remembering (g : Value → Value → Value) (initial : Value) (vs seen : List Value) :
    vs.foldlM (remembering g) initial seen = (.ok (vs.foldl g initial), seen ++ vs) := by
  induction vs generalizing initial seen with
  | nil => exact Prod.ext rfl (List.append_nil seen).symm
  | cons v vs ih =>
    rw [List.foldlM_cons, Run.bind_apply]
    unfold remembering at ih ⊢
    dsimp only
    rw [ih, List.foldl_cons, List.append_assoc]
    rfl

/-- Such a reducer is shown all pages up to the limit. -/
theorem Reduces.of_remembering {feed : Feed host method replies (List Value)} {wire : Entries}
    {raw : Bool} {k : Nat} {g : Value → Value → Value} {initial : Value}
    {r : Except Failure Value × σ} (h : Reduces feed wire raw k (remembering g) initial [] r) :
    r.1 = .ok ((viewsOf raw replies k).foldl g initial) ∧ feed.At wire k (viewsOf raw replies k) r.2 :=
  h.of_fold (foldlM_remembering g initial (viewsOf raw replies k) [])

/-- A query or scan whose pages are visited fetches one page after the other and shows each page that it
    fetched to the callback once. The next page is fetched only if the callback did not fail, its first
    signal is to go on, the page had a continuation key and the limit is not reached. A failure of the
    callback, or else a first signal to stop, aborts the call and is reported with the number of pages so
    far; without a signal the call ends, and a call that ends returns null. A callback that always goes on
    is shown what a reducer is shown under the same limit. -/
theorem paged_visits (feed : Feed host method replies (List Value)) (settings : Settings) (op : Operation)
    {table : Value} {request wire : Entries} (hwire : Execute.toWire table request = .ok wire)
    (hchain : IsChain replies) (hlimit : ∀ l ∈ op.pageLimit, 1 ≤ l)
    (hpatience : op.pageLimit = none → replies.length ≤ host.patience) {s : σ}
    (hs : feed.At wire 0 [] s) :
    (∀ options c behave, options.reducer = none → options.allPages = true → options.callback = some c →
      VisitsBy feed c behave →
      Visits feed wire options.raw (pageCount op.pageLimit replies.length) behave
          (Execute.paged host settings method op table request options s) ∧
        ((∀ seen, Proceeds behave seen) →
          ∃ t, Execute.paged host settings method op table request options s = (.ok .null, t) ∧
            feed.At wire (pageCount op.pageLimit replies.length)
              (viewsOf options.raw replies (pageCount op.pageLimit replies.length)) t)) ∧
    (∀ options c g, options.reducer = some c →
      (∀ acc page, feed.Follows (combine host (.custom c) acc page) (remembering g acc page)) →
      ∃ a t, Execute.paged host settings method op table request options s = (.ok a, t) ∧
        feed.At wire (pageCount op.pageLimit replies.length)
          (viewsOf options.raw replies (pageCount op.pageLimit replies.length)) t) ∧
    ∀ cause n, hasText cause = true → aborted cause n = abortReport cause n := by
  refine ⟨?_, ?_, fun cause n h => aborted_of_hasText h n⟩
  · intro options c behave hreducer hall hcallback hc
    have hmode : options.mode = .visit c := by
      unfold PagingOptions.mode
      rw [hreducer, hcallback, hall]
      rfl
    rw [paged_eq host settings method op options hwire, hmode]
    have hvisits := visits_of_visitsBy feed settings options.raw op.pageLimit hchain hlimit hpatience
      hc hs
    refine ⟨hvisits, fun hproceeds => ?_⟩
    obtain ⟨hnull, ht⟩ := hvisits.of_proceeds hproceeds
    exact ⟨_, Prod.ext hnull rfl, ht⟩
  · intro options c g hreducer hfollows
    have hmode : options.mode = .reduce (.custom c) options.initial := by
      unfold PagingOptions.mode
      rw [hreducer]
    rw [paged_eq host settings method op options hwire, hmode]
    obtain ⟨hok, ht⟩ := (reduces_of_follows feed settings options.raw op.pageLimit (.custom c)
      hchain hlimit hpatience hfollows hs options.initial).of_remembering
    exact ⟨_, _, Prod.ext hok rfl, ht⟩

/-- Goes on behind the first page and stops behind the second one. -/
def stopsSecond : Routine :=
  .visitor [[.signal .proceed, .signal (.stop (.value (.text "late")))],
    [.signal (.stop (.value (.text "enough")))]]

/-- The options of a call that shows all pages to a callback. -/
def visitWith (name : String) : PagingOptions :=
  { PagingOptions.defaults with allPages := true, callback := some (.hosted name 0) }

theorem paged_visits_films :
    IsChain filmReplies ∧ (∀ l ∈ filmScan.pageLimit, 1 ≤ l) ∧
    Execute.toWire (.text "films") [] = .ok [(.text "TableName", .text "films")] ∧
    Visits (scriptedFeed .scan filmReplies stopsSecond shownPages) [(.text "TableName", .text "films")]
      false 2 (fun seen => stopsSecond.visit seen.length (seen.getLast?.getD .null))
      (Execute.paged MemoryHost.host (Settings.defaults [] .byField) .scan filmScan (.text "films") []
        (visitWith "pager") (scriptedPages .scan filmReplies stopsSecond)) ∧
    (Execute.paged MemoryHost.host (Settings.defaults [] .byField) .scan filmScan (.text "films") []
        (visitWith "pager") (scriptedPages .scan filmReplies stopsSecond)).1 =
      .error (abortReport (.value (.text "enough")) 2) := by
  have hwire : Execute.toWire (.text "films") [] = .ok [(.text "TableName", .text "films")] := rfl
  refine ⟨isChain_filmReplies, one_le_of_filmScan, hwire, ?_, rfl⟩
  have hvisits : VisitsBy (scriptedFeed .scan filmReplies stopsSecond shownPages) (.hosted "pager" 0)
      fun seen => stopsSecond.visit seen.length (seen.getLast?.getD .null) := by
    intro page
    have hfollows := follows_visit .scan filmReplies stopsSecond "pager" page
    simpa using hfollows
  exact ((paged_visits _ (Settings.defaults [] .byField) filmScan hwire isChain_filmReplies
    one_le_of_filmScan nofun (scriptedFeed_at .scan filmReplies stopsSecond shownPages _)).1
    (visitWith "pager") (.hosted "pager" 0) _ rfl rfl rfl hvisits).1

/-- A callback stops on the first page with a cause that has no text. The call does not report that it was
    aborted: to put the report into words fails. -/
theorem visit_unworded :
    Routine.visit (.visitor [[.signal (.stop (.value (.blob .wrapped [0])))]]) 1 (.list []) =
      .ok [.stop (.value (.blob .wrapped [0]))] ∧
    (Execute.paged MemoryHost.host (Settings.defaults [] .byField) .scan filmScan (.text "films") []
        (visitWith "pager")
        (scriptedPages .scan [⟨[(.text "Items", .list [])], [(.text "Items", .list [])], rfl⟩]
          (.visitor [[.signal (.stop (.value (.blob .wrapped [0])))]]))).1 =
      .error (.mishap (.sort none)) := ⟨rfl, rfl⟩

end ItemStore.Paging
