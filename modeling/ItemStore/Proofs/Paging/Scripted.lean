import ItemStore.Proofs.Backend.Scripted
import ItemStore.Proofs.Paging.Chain

/-
  The host in memory as a service of pages. With a script of replies it answers one after the other, and a
  routine works on the log of its runs alone: what it does depends on its arguments and on how often it
  ran before.

  Main statements: `scriptedFeed`, `follows_call` and `follows_visit`.
-/

namespace ItemStore.Paging

open MemoryHost

variable {ρ : Type}

/-- The runs of a routine in order: what it was called as, and on which arguments. -/
abbrev Log := List (String × List Value)

/-- A host whose service answers the requests of a method with some replies, and that has one routine. -/
def scriptedPages (method : Method) (replies : List Reply) (routine : Routine) : MemoryHost :=
  .start (.scripted [(method, replies.map fun r => .ok (.map r.entries))]) [(0, routine)] .established

/-- The log is one run longer after a run. -/
theorem enter_apply (name : String) (id : Nat) (arguments : List Value) (w : MemoryHost) :
    MemoryHost.enter name id arguments w =
      (.ok ((w.routines.find? (·.1 == id)).map Prod.snd, countOf id w.runs + 1),
        { w with
          runs := countUp id w.runs
          account := { w.account with ran := (name, arguments) :: w.account.ran } }) := by
  rw [← countOf_countUp]
  rfl

/-- The service of such a host. What is recalled of the log is what the routine remembers. -/
def scriptedFeed (method : Method) (replies : List Reply) (routine : Routine) (recalled : Log → ρ) :
    Feed MemoryHost.host method replies ρ where
  isReady w := w.service = (scriptedPages method replies routine).service ∧
    w.routines = [(0, routine)] ∧ w.connection = .established ∧
    countOf method w.requests = w.account.sent.length ∧ countOf 0 w.runs = w.account.ran.length
  sent w := w.account.sent.reverse.map Prod.snd
  memory w := recalled w.account.ran.reverse
  connects w session client hw hconnected := by
    have hyes : MemoryHost.isConnected w = true := by
      unfold MemoryHost.isConnected
      rw [hw.2.2.1]
    exact absurd (hconnected.symm.trans hyes) Bool.false_ne_true
  answers w request h hw := by
    obtain ⟨hservice, hroutines, hconnection, hcount, hruns⟩ := hw
    have hlength : (w.account.sent.reverse.map Prod.snd).length = w.account.sent.length := by
      rw [List.length_map, List.length_reverse]
    have hanswer : w.service.answer method (countOf method w.requests + 1) request =
        (w.service, .ok (.map replies[(w.account.sent.reverse.map Prod.snd).length].entries)) := by
      simp only [hlength] at h ⊢
      rw [hservice, hcount]
      unfold Service.answer scriptedPages MemoryHost.start Service.scriptedAnswer
      simp [h]
    have hsend := send_apply method request w
    rw [hanswer] at hsend
    refine ⟨_, hsend, ⟨hservice, hroutines, hconnection, ?_, hruns⟩, ?_, rfl⟩
    · show countOf method (countUp method w.requests) = w.account.sent.length + 1
      rw [countOf_countUp, hcount]
    · show ((method, request) :: w.account.sent).reverse.map Prod.snd = _
      rw [List.reverse_cons, List.map_append]
      rfl

/-- The log behind a run, and what was counted. -/
theorem ready_of_run {method : Method} {replies : List Reply} (routine : Routine) (recalled : Log → ρ)
    {w : MemoryHost}
    (hw : (scriptedFeed method replies routine recalled).isReady w) (entry : String × List Value) :
    (scriptedFeed method replies routine recalled).isReady
      { w with
        runs := countUp 0 w.runs
        account := { w.account with ran := entry :: w.account.ran } } := by
  obtain ⟨hservice, hroutines, hconnection, hcount, hruns⟩ := hw
  refine ⟨hservice, hroutines, hconnection, hcount, ?_⟩
  show countOf 0 (countUp 0 w.runs) = w.account.ran.length + 1
  rw [countOf_countUp, hruns]

/-- A reducer runs the routine on what came out so far and on what is shown of a page. -/
theorem follows_call (method : Method) (replies : List Reply) (routine : Routine) (name : String)
    (acc page : Value) :
    (scriptedFeed method replies routine fun log => log).Follows
      (combine MemoryHost.host (.custom (.hosted name 0)) acc page)
      fun log => (routine.run (log.length + 1) [acc, page], log ++ [(name, [acc, page])]) := by
  intro w hw
  have hcall : MemoryHost.call name 0 [acc, page] w =
      (routine.run (w.account.ran.reverse.length + 1) [acc, page],
        { w with
          runs := countUp 0 w.runs
          account := { w.account with ran := (name, [acc, page]) :: w.account.ran } }) := by
    unfold MemoryHost.call
    rw [Run.bind_apply, enter_apply, hw.2.1, hw.2.2.2.2, List.length_reverse]
    exact Run.lift_apply _ _
  exact ⟨_, hcall, ready_of_run routine _ hw _, rfl, List.reverse_cons⟩

/-- What was shown of the pages, from the log of a page callback. -/
def shownPages (log : Log) : List Value := log.map fun entry => entry.2.headD .null

/-- A page callback runs the routine on what is shown of a page. -/
theorem follows_visit (method : Method) (replies : List Reply) (routine : Routine) (name : String)
    (page : Value) :
    (scriptedFeed method replies routine shownPages).Follows
      (visitPage MemoryHost.host (.hosted name 0) page)
      fun seen => (routine.visit (seen.length + 1) page, seen ++ [page]) := by
  intro w hw
  have hvisit : MemoryHost.visit name 0 page w =
      (routine.visit ((shownPages w.account.ran.reverse).length + 1) page,
        { w with
          runs := countUp 0 w.runs
          account := { w.account with ran := (name, [page]) :: w.account.ran } }) := by
    unfold MemoryHost.visit shownPages
    rw [Run.bind_apply, enter_apply, hw.2.1, hw.2.2.2.2, List.length_map, List.length_reverse]
    exact Run.lift_apply _ _
  refine ⟨_, hvisit, ready_of_run routine _ hw _, rfl, ?_⟩
  show shownPages ((name, [page]) :: w.account.ran).reverse = _
  unfold shownPages
  rw [List.reverse_cons, List.map_append]
  rfl

/-- Nothing was sent and nothing ran at the start. -/
theorem scriptedFeed_at (method : Method) (replies : List Reply) (routine : Routine)
    (recalled : Log → ρ) (wire : Entries) :
    (scriptedFeed method replies routine recalled).At wire 0 (recalled [])
      (scriptedPages method replies routine) :=
  ⟨⟨rfl, rfl, rfl, rfl, rfl⟩, rfl, rfl⟩

/-! ## Two pages of films -/

/-- A film on the wire, by its year. -/
def wireYear (year : String) : Value := .object [("year", .object [("N", .text year)])]

/-- Two replies, of which the first one has a continuation key. -/
def filmReplies : List Reply :=
  [⟨[(.text "Items", .list [wireYear "2012", wireYear "2013"]),
      (.text "LastEvaluatedKey", wireYear "2013")],
    [(.text "Items", .list [.object [("year", .int 2012)], .object [("year", .int 2013)]]),
      (.text "LastEvaluatedKey", .object [("year", .int 2013)])], rfl⟩,
    ⟨[(.text "Items", .list [wireYear "2014"])],
      [(.text "Items", .list [.object [("year", .int 2014)]])], rfl⟩]

/-- A scan of at most five pages. -/
def filmScan : Operation := ⟨"allFilms", .scan, ⟨[]⟩, none, some 5⟩

/-- The options of a call that runs a callable on all pages. -/
def reduceWith (name : String) (initial : Value) : PagingOptions :=
  { PagingOptions.defaults with reducer := some (.hosted name 0), initial := initial }

theorem one_le_of_filmScan : ∀ l ∈ filmScan.pageLimit, 1 ≤ l := by
  intro l hl
  cases hl
  decide

theorem isChain_filmReplies : IsChain filmReplies := by
  refine ⟨List.cons_ne_nil _ _, ?_⟩
  intro i h
  match i, h with
  | 0, _ => rfl
  | 1, _ => rfl

end ItemStore.Paging
