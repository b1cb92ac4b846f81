import ItemStore.Proofs.Paging.Records
import ItemStore.Proofs.Store.Refusal
import ItemStore.Proofs.Value.Comparison

/-
  Counting what a query or scan reaches. A call with the options of the counter folds over raw pages and
  returns a number, one that asks for all pages returns their items as one list. Their options stand under
  the same key and are all they differ in, so both are prepared alike, and both fetch the same pages.

  Main statement: `counter_agrees`.
-/

namespace ItemStore

open Paging

variable {σ ρ : Type} {host : Host σ} {method : Method} {replies : List Reply}

/-- The request that pages of an operation are fetched with. -/
def Kind.pageMethod? : Kind → Option Method
  | .query => some .query
  | .scan => some .scan
  | _ => none

namespace Store

/-! ## Calls with options -/

/-- The parameters of a call together with its options. -/
def withOptions (settings : Settings) (params : Entries) (options : Value) : Value :=
  .map (Value.insertEntry params (.text settings.optionsKey) options)

/-- The options under which a call returns the items of all pages. -/
def listingOptions : Value := .object [("pages", .text "all")]

theorem recordsCounter_eq (settings : Settings) (params : Entries) :
    recordsCounter (.map params) (.text settings.optionsKey) =
      .ok (withOptions settings params counterOptions) := by
  unfold recordsCounter
  rw [Value.mappingOf_map]
  rfl

/-- The options of a call are what stands under their key. -/
theorem payloadOptions_put (settings : Settings) (op : Operation) (params : Entries) {options : Entries}
    {o : PagingOptions} (ho : PagingOptions.ofEntries options = .ok o) :
    payloadOptions settings op (Value.put settings.optionsKey (.map options) params) = .ok o := by
  unfold payloadOptions Value.field
  dsimp only
  rw [Value.lookup_put, Option.getD_some]
  dsimp only
  rw [ho]
  rfl

theorem payloadOptions_model (settings : Settings) (op : Operation) (params : Entries) :
    payloadOptions settings op (model settings params) = .ok .defaults := by
  unfold payloadOptions Value.field model
  dsimp only
  rw [Value.lookup_without]
  rfl

/-- Options make no difference to a preparation but that they are read. -/
theorem prepare_withOptions (host : Host σ) (s : Store) (op : Operation) (params : Entries)
    {options : Entries} {o : PagingOptions} (ho : PagingOptions.ofEntries options = .ok o) :
    prepare host s op (withOptions s.settings params (.map options)) =
      prepare host s op (.map (model s.settings params)) >>= fun p =>
        pure { p with options := o } := by
  have hentries (es : Entries) : payloadEntries op (.map es) = .ok es := rfl
  have hmodel : model s.settings (Value.put s.settings.optionsKey (.map options) params) =
      model s.settings params := Value.without_put ..
  have hagain : model s.settings (model s.settings params) = model s.settings params :=
    Value.without_eq_self (Value.lookup_without _ _)
  unfold prepare withOptions
  rw [Value.insertEntry_text, hentries, hentries]
  simp only [Run.lift_ok, pure_bind, bind_assoc, payloadOptions_put s.settings op params ho,
    payloadOptions_model, hmodel, hagain]

/-- What is done before the first page is fetched: the request that goes over the wire. -/
def firstRequest (host : Host σ) (s : Store) (op : Operation) (payload : Value) : Run σ Entries := do
  let p ← prepare host s op payload
  Run.lift (Execute.toWire p.table p.request)

/-- A query or scan goes through its pages from its first request on. -/
theorem invoke_paged (host : Host σ) (s : Store) {op : Operation}
    (hmethod : op.kind.pageMethod? = some method) (params : Entries) {options : Entries}
    {o : PagingOptions} (ho : PagingOptions.ofEntries options = .ok o) :
    invoke host s op (withOptions s.settings params (.map options)) =
      firstRequest host s op (.map (model s.settings params)) >>= fun wire =>
        traverse (planOf host s.settings method wire o.raw op.pageLimit) o.mode := by
  have hexecute (p : Prepared) : Execute.execute host s.settings op p.table p.request o =
      Run.lift (Execute.toWire p.table p.request) >>= fun wire =>
        traverse (planOf host s.settings method wire o.raw op.pageLimit) o.mode := by
    unfold Execute.execute
    cases hkind : op.kind with
    | query =>
      rw [hkind] at hmethod
      cases hmethod
      rfl
    | scan =>
      rw [hkind] at hmethod
      cases hmethod
      rfl
    | _ =>
      rw [hkind] at hmethod
      cases hmethod
  rw [invoke_eq, prepare_withOptions host s op params ho]
  unfold firstRequest
  simp only [bind_assoc, pure_bind, hexecute]

section

variable {s : Store} {op : Operation} (hmethod : op.kind.pageMethod? = some method) {params options : Entries}
  {o : PagingOptions} (ho : PagingOptions.ofEntries options = .ok o) {w w' : σ}

include hmethod ho

/-- A call that does not get to its first request fails, whatever its options are. -/
theorem call_of_refused {f : Failure}
    (h : firstRequest host s op (.map (model s.settings params)) w = (.error f, w')) :
    call host s op (withOptions s.settings params (.map options)) w =
      (.error (f.addDetail (.text "operation") (.text op.name)), w') := by
  rw [call_apply, invoke_paged host s hmethod params ho, Run.bind_apply, h]
  rfl

/-- A call that gets to its first request returns what comes of its pages. -/
theorem call_of_traverse {wire : Entries} {v : Value} {t : σ}
    (h : firstRequest host s op (.map (model s.settings params)) w = (.ok wire, w'))
    (hpages : traverse (planOf host s.settings method wire o.raw op.pageLimit) o.mode w' = (.ok v, t)) :
    call host s op (withOptions s.settings params (.map options)) w = (.ok v, t) := by
  rw [call_apply, invoke_paged host s hmethod params ho, Run.bind_apply, h]
  dsimp only
  rw [hpages]
  rfl

end

/-! ## The counter -/

/-- The options of the counter ask for a fold over raw pages that starts at zero. -/
theorem exists_counterEntries : ∃ es, counterOptions = .map es ∧
    PagingOptions.ofEntries es = .ok ⟨true, none, some .recordCounter, .int 0, true⟩ :=
  ⟨_, rfl, rfl⟩

theorem exists_listingEntries : ∃ es, listingOptions = .map es ∧
    PagingOptions.ofEntries es = .ok { PagingOptions.defaults with allPages := true } :=
  ⟨_, rfl, rfl⟩

/-- How counting what a query or scan reaches and listing it go together, from the same state. -/
structure CounterAgrees (feed : Feed host method replies ρ) (s : Store) (op : Operation)
    (params : Entries) (w : σ) : Prop where
  /-- the payload of the counter is the parameters with its options -/
  payload : recordsCounter (.map params) (.text s.settings.optionsKey) =
    .ok (withOptions s.settings params counterOptions)
  /-- a call that does not get to its first request fails alike, in the same state -/
  refused : ∀ f w', firstRequest host s op (.map (model s.settings params)) w = (.error f, w') →
    ∀ options ∈ [counterOptions, listingOptions],
      call host s op (withOptions s.settings params options) w =
        (.error (f.addDetail (.text "operation") (.text op.name)), w')
  /-- otherwise the pages up to the limit are fetched, each once, by both calls: one returns the sum of
      their counts, the other one their items, in the same state -/
  answered : ∀ wire w' m, firstRequest host s op (.map (model s.settings params)) w = (.ok wire, w') →
    feed.At wire 0 m w' →
    ∃ t, call host s op (withOptions s.settings params counterOptions) w =
        (.ok (.int (recordsOf (fetchedOf op.pageLimit replies))), t) ∧
      call host s op (withOptions s.settings params listingOptions) w =
        (.ok (.list ((fetchedOf op.pageLimit replies).flatMap Reply.items)), t) ∧
      feed.At wire (pageCount op.pageLimit replies.length) m t
  /-- the number is the length of the list where no count of these pages differs from the number of
      their items -/
  length : (∀ r ∈ fetchedOf op.pageLimit replies, ∀ v ∈ Value.lookup "Count" r.entries,
      v.whole? = some (r.items.length : Int)) →
    recordsOf (fetchedOf op.pageLimit replies) =
      ((fetchedOf op.pageLimit replies).flatMap Reply.items).length

/-- A query or scan called with the counter returns the sum of the counts of the pages that it fetches,
    where the number of its items counts for a page without one. It is sent the same requests as the call
    with the same parameters that lists the items of all pages, and returns the length of that list if the
    counts are the numbers of items. -/
theorem counter_agrees (feed : Feed host method replies ρ) (s : Store) {op : Operation}
    (hmethod : op.kind.pageMethod? = some method) (hchain : IsChain replies)
    (hcounts : ∀ r ∈ replies, r.countsWhole = true) (hlimit : ∀ l ∈ op.pageLimit, 1 ≤ l)
    (hpatience : op.pageLimit = none → replies.length ≤ host.patience) (params : Entries) (w : σ) :
    CounterAgrees feed s op params w := by
  obtain ⟨counting, hcounting, hcounter⟩ := exists_counterEntries
  obtain ⟨listing, hlisting, hlister⟩ := exists_listingEntries
  refine ⟨recordsCounter_eq s.settings params, ?_, ?_, recordsOf_eq_length⟩
  · intro f w' hrefused options hoptions
    rcases List.mem_pair.1 hoptions with rfl | rfl
    · rw [hcounting]
      exact call_of_refused hmethod hcounter hrefused
    · rw [hlisting]
      exact call_of_refused hmethod hlister hrefused
  · intro wire w' m hfirst hw'
    obtain ⟨t, hcounted, hlisted, ht⟩ :=
      counts_and_joins feed s.settings op.pageLimit hchain hcounts hlimit hpatience hw'
    refine ⟨t, ?_, ?_, ht⟩
    · rw [hcounting]
      exact call_of_traverse hmethod hcounter hfirst hcounted
    · rw [hlisting]
      exact call_of_traverse hmethod hlister hfirst hlisted

/-! ## Films that are counted -/

/-- A scan of at most two pages through an index. -/
def countedScan : Operation := ⟨"countFilms", .scan, ⟨[("IndexName", .ref "index")]⟩, none, some 2⟩

/-- A store with this scan. -/
def countedStore : Store := ⟨⟨.fixed "films", [countedScan]⟩, Settings.defaults [] .byField⟩

/-- Three replies: one says how many films it holds, one does not, and one says it without showing
    any. -/
def countedReplies : List Reply :=
  [⟨[(.text "Items", .list [wireYear "2012", wireYear "2013"]), (.text "Count", .int 2),
      (.text "LastEvaluatedKey", wireYear "2013")],
    [(.text "Items", .list [.object [("year", .int 2012)], .object [("year", .int 2013)]]),
      (.text "Count", .int 2), (.text "LastEvaluatedKey", .object [("year", .int 2013)])], rfl⟩,
    ⟨[(.text "Items", .list [wireYear "2014"]), (.text "LastEvaluatedKey", wireYear "2014")],
      [(.text "Items", .list [.object [("year", .int 2014)]]),
        (.text "LastEvaluatedKey", .object [("year", .int 2014)])], rfl⟩,
    ⟨[(.text "Count", .int 7)], [(.text "Count", .int 7), (.text "Items", .list [])], rfl⟩]

theorem isChain_countedReplies : IsChain countedReplies := by
  refine ⟨List.cons_ne_nil _ _, ?_⟩
  intro i h
  match i, h with
  | 0, _ => rfl
  | 1, _ => rfl
  | 2, _ => rfl

/-- Two pages with three films are fetched, and the third one is not. -/
theorem counter_agrees_films :
    countedScan.kind.pageMethod? = some .scan ∧ IsChain countedReplies ∧
    (∀ r ∈ countedReplies, r.countsWhole = true) ∧ (∀ l ∈ countedScan.pageLimit, 1 ≤ l) ∧
    (countedScan.pageLimit = none → countedReplies.length ≤ MemoryHost.host.patience) ∧
    CounterAgrees (scriptedFeed .scan countedReplies .collect fun log => log) countedStore countedScan
      [(.text "index", .text "byYear")] (scriptedPages .scan countedReplies .collect) ∧
    ∃ t, call MemoryHost.host countedStore countedScan
          (withOptions countedStore.settings [(.text "index", .text "byYear")] counterOptions)
          (scriptedPages .scan countedReplies .collect) = (.ok (.int 3), t) ∧
      call MemoryHost.host countedStore countedScan
          (withOptions countedStore.settings [(.text "index", .text "byYear")] listingOptions)
          (scriptedPages .scan countedReplies .collect) =
        (.ok (.list [.object [("year", .int 2012)], .object [("year", .int 2013)],
          .object [("year", .int 2014)]]), t) := by
  have hcounts : ∀ r ∈ countedReplies, r.countsWhole = true := List.all_eq_true.1 rfl
  have hlimit : ∀ l ∈ countedScan.pageLimit, 1 ≤ l := by
    intro l hl
    cases hl
    decide
  have hagrees : CounterAgrees (scriptedFeed .scan countedReplies .collect fun log => log) countedStore
      countedScan [(.text "index", .text "byYear")] (scriptedPages .scan countedReplies .collect) :=
    counter_agrees _ countedStore rfl isChain_countedReplies hcounts hlimit nofun _ _
  refine ⟨rfl, isChain_countedReplies, hcounts, hlimit, nofun, hagrees, ?_⟩
  obtain ⟨t, hcounted, hlisted, -⟩ := hagrees.answered
    [(.text "IndexName", .text "byYear"), (.text "TableName", .text "films")] _ [] rfl
    (scriptedFeed_at .scan countedReplies .collect (fun log => log) _)
  exact ⟨t, hcounted, hlisted⟩

end Store

end ItemStore
