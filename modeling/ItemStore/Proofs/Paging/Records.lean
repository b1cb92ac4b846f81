import ItemStore.Proofs.Paging.Fold

/-
  Counting the records of pages. A reply says how many records it holds, or it is taken to hold as many as
  it has items. The records of raw pages are counted by a fold, and so are the items of other pages
  joined; neither fold does anything to the host, so both traversals fetch the same pages and leave the host
  as it is after fetching them.

  Main statements: `counts_pages` (the count of all pages is the sum of their counts) and
  `counts_and_joins` (counting the records and listing the items fetch the same pages).
-/

namespace ItemStore.Paging

variable {σ ρ : Type}

/-! ## One reply -/

namespace Reply

/-- The number of records of a reply: what it says, or else the number of its items. -/
def count (r : Reply) : Int := ((Value.lookup "Count" r.entries).bind Value.whole?).getD r.items.length

/-- Whether a reply says how many records it holds with a whole number, if it says it. -/
def countsWhole (r : Reply) : Bool := (Value.lookup "Count" r.entries).all fun v => v.whole?.isSome

theorem count_of_lookup {r : Reply} {v : Value} {n : Int} (hv : Value.lookup "Count" r.entries = some v)
    (hn : v.whole? = some n) : r.count = n := by
  unfold count
  rw [hv, Option.bind_some, hn]
  rfl

theorem count_of_absent {r : Reply} (h : Value.lookup "Count" r.entries = none) :
    r.count = r.items.length := by
  unfold count
  rw [h]
  rfl

end Reply

/-- The replies whose pages a traversal with a limit fetches. -/
def fetchedOf (limit : Option Int) (replies : List Reply) : List Reply :=
  replies.take (pageCount limit replies.length)

/-- The records of all of some replies. -/
def recordsOf (replies : List Reply) : Int := (replies.map Reply.count).sum

/-- Replies that say that they hold as many records as they have items, if they say anything, hold
    as many records as they have items together. -/
theorem recordsOf_eq_length {replies : List Reply} (h : ∀ r ∈ replies,
    ∀ v ∈ Value.lookup "Count" r.entries, v.whole? = some (r.items.length : Int)) :
    recordsOf replies = (replies.flatMap Reply.items).length := by
  have hcount : ∀ r ∈ replies, r.count = r.items.length := by
    intro r hr
    cases hv : Value.lookup "Count" r.entries with
    | none => exact Reply.count_of_absent hv
    | some v => exact Reply.count_of_lookup hv (h r hr v hv)
  unfold recordsOf
  rw [List.map_congr_left hcount, List.length_flatMap]
  induction replies with
  | nil => rfl
  | cons r replies ih =>
    rw [List.map_cons, List.sum_cons, List.map_cons, List.sum_cons, Nat.cast_add,
      ih (fun r hr => h r (List.mem_cons_of_mem _ hr)) fun r hr => hcount r (List.mem_cons_of_mem _ hr)]

/-! ## The fold -/

/-- The records of a raw page are added to a total. -/
theorem countRecords_view (total : Int) {r : Reply} (h : r.countsWhole = true) :
    countRecords (.int total) (r.view true) = .ok (.int (total + r.count)) := by
  have hview : r.view true = .map r.page := rfl
  have hcount : Value.lookup "Count" r.page = Value.lookup "Count" r.entries :=
    r.lookup_page (by decide) (by decide) (by decide)
  rw [hview, countRecords, r.lookup_items, hcount]
  show (Value.int total).plus ((Value.lookup "Count" r.entries).getD (.int r.items.length)) = _
  cases hv : Value.lookup "Count" r.entries with
  | none =>
    rw [Reply.count_of_absent hv]
    exact Value.plus_int total r.items.length
  | some v =>
    unfold Reply.countsWhole at h
    rw [hv, Option.all_some, Option.isSome_iff_exists] at h
    obtain ⟨n, hn⟩ := h
    rw [Reply.count_of_lookup hv hn, Option.getD_some]
    unfold Value.plus
    rw [hn]
    rfl

theorem foldlM_countRecords {replies : List Reply} (h : ∀ r ∈ replies, r.countsWhole = true) (total : Int)
    (m : ρ) :
    (replies.map (Reply.view true)).foldlM
        (fun acc page => (Run.lift ((countRecords acc page).mapError .mishap) : Run ρ Value))
        (.int total) m =
      (.ok (.int (total + recordsOf replies)), m) := by
  induction replies generalizing total with
  | nil =>
    rw [show recordsOf [] = 0 from rfl, Int.add_zero]
    rfl
  | cons r replies ih =>
    rw [List.map_cons, List.foldlM_cons, Run.bind_apply,
      countRecords_view total (h r List.mem_cons_self)]
    show (List.foldlM _ (Value.int (total + r.count)) _ : Run ρ Value) m = _
    rw [ih fun r hr => h r (List.mem_cons_of_mem _ hr)]
    unfold recordsOf
    rw [List.map_cons, List.sum_cons, Int.add_assoc]

/-! ## Whole traversals -/

variable {host : Host σ} {method : Method} {replies : List Reply}

/-- The count of all pages up to the limit is the sum of their counts. -/
theorem counts_pages (feed : Feed host method replies ρ) (settings : Settings) {wire : Entries}
    (limit : Option Int) (hchain : IsChain replies) (hcounts : ∀ r ∈ replies, r.countsWhole = true)
    (hlimit : ∀ l ∈ limit, 1 ≤ l) (hpatience : limit = none → replies.length ≤ host.patience)
    {m₀ : ρ} {s : σ} (hs : feed.At wire 0 m₀ s) :
    ∃ t, traverse (planOf host settings method wire true limit)
          (.reduce (.custom .recordCounter) (.int 0)) s =
        (.ok (.int (recordsOf (fetchedOf limit replies))), t) ∧
      feed.At wire (pageCount limit replies.length) m₀ t := by
  have hfetched : ∀ r ∈ fetchedOf limit replies, r.countsWhole = true := fun r hr =>
    hcounts r (List.mem_of_mem_take hr)
  have hfold := foldlM_countRecords hfetched 0 m₀
  rw [Int.zero_add] at hfold
  obtain ⟨hok, ht⟩ := (reduces_of_follows feed settings true limit (.custom .recordCounter) hchain
    hlimit hpatience (fun acc page => feed.follows_lift ((countRecords acc page).mapError .mishap)) hs
    (.int 0)).of_fold hfold
  exact ⟨_, Prod.ext hok rfl, ht⟩

/-- A reducer that does nothing to the host. -/
def Reducer.IsIdle (host : Host σ) (r : Reducer) : Prop :=
  ∀ acc page s, (combine host r acc page s).2 = s

theorem isIdle_concatenate (host : Host σ) : Reducer.IsIdle host .concatenate := fun acc page s =>
  congrArg Prod.snd (Run.lift_apply ((concatenate acc page).mapError .mishap) s)

theorem isIdle_recordCounter (host : Host σ) : Reducer.IsIdle host (.custom .recordCounter) :=
  fun acc page s => congrArg Prod.snd (Run.lift_apply ((countRecords acc page).mapError .mishap) s)

/-- A fold without an effect that succeeds fetches a page, and ends in the state that this leaves unless
    it goes on from there. -/
theorem exists_of_reduceFrom {p : Plan σ} {r : Reducer} (hr : Reducer.IsIdle p.host r) {fuel : Nat}
    {token : Value} {n : Nat} {acc a : Value} {s t : σ}
    (h : reduceFrom p r (fuel + 1) token n acc s = (.ok a, t)) :
    ∃ fetched c b, p.next token s = (.ok fetched, c) ∧
      if p.hasMore fetched.token (n + 1) = true then
        reduceFrom p r fuel fetched.token (n + 1) b c = (.ok a, t)
      else c = t := by
  rw [reduceFrom_apply] at h
  rcases hnext : p.next token s with ⟨e | fetched, c⟩
  · rw [hnext] at h
    cases h
  · rw [hnext] at h
    dsimp only at h
    have hidle := hr acc (view p.raw fetched.page) c
    rcases hcombine : combine p.host r acc (view p.raw fetched.page) c with ⟨e | b, u⟩
    · rw [hcombine] at h
      cases h
    · rw [hcombine] at h hidle
      dsimp only at h hidle
      subst hidle
      refine ⟨fetched, u, b, rfl, ?_⟩
      split
      · next hmore => rwa [if_pos hmore] at h
      · next hlast =>
        rw [if_neg hlast] at h
        exact congrArg Prod.snd h

/-- Two folds over the same pages that succeed without an effect end in the same state, whatever they
    are shown of the pages. -/
theorem eq_state_of_reduceFrom {p : Plan σ} (raw : Bool) {r r' : Reducer}
    (hr : Reducer.IsIdle p.host r) (hr' : Reducer.IsIdle p.host r') {fuel : Nat} {token : Value} {n : Nat}
    {acc acc' a a' : Value} {s t t' : σ} (h : reduceFrom p r fuel token n acc s = (.ok a, t))
    (h' : reduceFrom { p with raw := raw } r' fuel token n acc' s = (.ok a', t')) : t = t' := by
  induction fuel generalizing token n acc acc' s with
  | zero => cases h
  | succ fuel ih =>
    obtain ⟨fetched, c, b, hnext, hrest⟩ := exists_of_reduceFrom hr h
    obtain ⟨fetched', c', b', hnext', hrest'⟩ :=
      exists_of_reduceFrom (p := { p with raw := raw }) hr' h'
    -- what is fetched does not depend on what is shown of it
    have hsame : p.next token s = (.ok fetched', c') := hnext'
    cases hnext.symm.trans hsame
    have hmore : Plan.hasMore { p with raw := raw } fetched.token (n + 1) =
        p.hasMore fetched.token (n + 1) := rfl
    rw [hmore] at hrest'
    split at hrest
    · next hgoesOn => exact ih hrest (by rwa [if_pos hgoesOn] at hrest')
    · next hends =>
      rw [if_neg hends] at hrest'
      exact hrest.symm.trans hrest'

/-- All pages up to the limit are counted, and their items listed, by traversals that fetch the same pages
    and end in the same state. -/
theorem counts_and_joins (feed : Feed host method replies ρ) (settings : Settings) {wire : Entries}
    (limit : Option Int) (hchain : IsChain replies) (hcounts : ∀ r ∈ replies, r.countsWhole = true)
    (hlimit : ∀ l ∈ limit, 1 ≤ l) (hpatience : limit = none → replies.length ≤ host.patience)
    {m₀ : ρ} {s : σ} (hs : feed.At wire 0 m₀ s) :
    ∃ t, traverse (planOf host settings method wire true limit)
          (.reduce (.custom .recordCounter) (.int 0)) s =
        (.ok (.int (recordsOf (fetchedOf limit replies))), t) ∧
      traverse (planOf host settings method wire false limit) (.reduce .concatenate (.list [])) s =
        (.ok (.list ((fetchedOf limit replies).flatMap Reply.items)), t) ∧
      feed.At wire (pageCount limit replies.length) m₀ t := by
  obtain ⟨t, hcounted, ht⟩ := counts_pages feed settings limit hchain hcounts hlimit hpatience hs
  obtain ⟨t', hlisted, -⟩ := joins_pages feed settings false limit hchain hlimit hpatience hs
  have hsame : t = t' := eq_state_of_reduceFrom (p := planOf host settings method wire true limit) false
    (isIdle_recordCounter host) (isIdle_concatenate host) hcounted hlisted
  subst hsame
  exact ⟨t, hcounted, hlisted, ht⟩

end ItemStore.Paging
