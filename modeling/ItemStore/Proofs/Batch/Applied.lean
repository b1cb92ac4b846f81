import ItemStore.Proofs.Batch.Pool
import ItemStore.Proofs.Batch.Residue
import ItemStore.Proofs.Batch.Service
import ItemStore.Proofs.Value.Document
import Mathlib.Logic.Function.Basic

/-
  A service that applies the writes that it accepts. Each write has an address, such as its table and
  key, and changes what is stored there and nothing else. The service may throttle a call, and may
  report any of the requests as they were sent; it applies all others. Writes with different addresses
  commute, so when all chunks are at their end with nothing left, the requests are applied as if one
  by one, in whatever order the chunks took their turns.

  Main statements: `foldl_applied_perm`, `contents_of_reaches` (what is applied in a run of the pool are
  the requests that were processed) and `contents_of_drained`.
-/

namespace ItemStore.Batch

open scoped List

variable {σ α : Type} {address : Pending → α}

/-! ## Applying writes -/

/-- What is stored after a write: the item of a put, and nothing after a delete. -/
def itemAfter (r : Pending) : Option Value :=
  (r.2.get? "PutRequest").bind fun body => body.get? "Item"

/-- Requests with different addresses, two of which have one address, are one request. -/
theorem eq_of_address {rs : List Pending} (hnodup : (rs.map address).Nodup) {r q : Pending}
    (hr : r ∈ rs) (hq : q ∈ rs) (h : address r = address q) : r = q :=
  List.inj_on_of_nodup_map hnodup hr hq h

/-- Tidy requests with different addresses are told apart. -/
theorem toldApart_of_addresses {rs : List Pending} (htidy : ∀ r ∈ rs, Value.isTidy r.2 = true)
    (hnodup : (rs.map address).Nodup)
    (hrespects : ∀ r ∈ rs, ∀ q ∈ rs, r.1 = q.1 → r.2.equal q.2 = .ok true → address r = address q) :
    ToldApart rs := by
  intro r hr q hq htable
  by_cases heq : r = q
  · rw [← heq]
    exact .inl ⟨rfl, Value.equal_self_of_isTidy r.2 (htidy r hr)⟩
  · obtain ⟨b, hb⟩ := Value.exists_equal_of_isDocument r.2 q.2
      (Value.isDocument_of_isTidy (fun _ _ => rfl) r.2 (htidy r hr))
      (Value.isDocument_of_isTidy (fun _ h => h) q.2 (htidy q hq))
    cases b with
    | false => exact .inr ⟨heq, hb⟩
    | true => exact absurd (eq_of_address hnodup hr hq (hrespects r hr q hq htable hb)) heq

variable [DecidableEq α]

/-- Some contents after a write, which changes them at its address. -/
def applied (address : Pending → α) (contents : α → Option Value) (r : Pending) :
    α → Option Value :=
  Function.update contents (address r) (itemAfter r)

/-- Writes with different addresses can be applied in any order. -/
theorem foldl_applied_perm {rs qs : List Pending} (hperm : rs.Perm qs)
    (hnodup : (rs.map address).Nodup) (contents : α → Option Value) :
    rs.foldl (applied address) contents = qs.foldl (applied address) contents := by
  refine hperm.foldl_eq' (fun r hr q hq c => ?_) contents
  by_cases h : address r = address q
  · rw [eq_of_address hnodup hr hq h]
  · exact Function.update_comm h (itemAfter r) (itemAfter q) c

/-! ## The service -/

/-- A response that answers for some writes: tables are named by texts and requests are tidy documents;
    some of these are reported, with their tables, as they were sent, and all others are applied. -/
def Accepts (address : Pending → α) (rs : List Pending) (response : Value)
    (before after : α → Option Value) : Prop :=
  HaveTexts rs ∧ (∀ r ∈ rs, Value.isTidy r.2 = true) ∧
    ∃ (done : List Pending) (left : List (Value × List Value)) (names : List String),
      reportOf "UnprocessedItems" response = .ok (groupsValue left) ∧
      left.map Prod.fst = names.map .text ∧ names.Nodup ∧ rs.Perm (done ++ ungrouped left) ∧
      after = done.foldl (applied address) before

/-- The request for some writes. -/
def writeCall (extra : Entries) (rs : List Pending) : Entries :=
  (.text "RequestItems", groupsValue (grouped rs)) :: extra

/-- A service that applies the writes that it accepts, among some writes. Requests that equal each other
    have the same address, calls that are throttled change nothing, and neither do delays. -/
structure AppliesWrites (host : Host σ) (settings : Settings) (extra : Entries)
    (pending : List Pending) (address : Pending → α) (contents : σ → α → Option Value) : Prop where
  respects : ∀ r ∈ pending, ∀ q ∈ pending, r.1 = q.1 → r.2.equal q.2 = .ok true →
    address r = address q
  pauses : ∀ seconds s, contents (host.pause seconds s).2 = contents s
  sends : ∀ rs s, rs.Nodup → rs ⊆ pending →
    let o := Gateway.send host settings .batchWriteItem (writeCall extra rs) s
    (∃ f, o.1 = .error f ∧ (Gateway.isRetryable f = true → contents o.2 = contents s)) ∨
      ∃ response, o.1 = .ok response ∧ Accepts address rs response (contents s) (contents o.2)

/-! ## A send -/

/-- What a response to writes brings. -/
def replyToWrites : Except Failure Value → Except Failure Reply
  | .error f => .error f
  | .ok response =>
    ((reportOf "UnprocessedItems" response).mapError .mishap).map fun report => ⟨report, []⟩

theorem sendWrites_apply (host : Host σ) (settings : Settings) (extra : Entries) (c : Chunk) (s : σ) :
    sendWrites host settings extra c s =
      (replyToWrites (Gateway.send host settings .batchWriteItem (writeCall extra c.requests) s).1,
        (Gateway.send host settings .batchWriteItem (writeCall extra c.requests) s).2) := by
  unfold sendWrites writeCall replyToWrites
  rw [Run.bind_apply]
  rcases Gateway.send host settings .batchWriteItem
    ((.text "RequestItems", groupsValue (grouped c.requests)) :: extra) s with ⟨f | response, t⟩
  · rfl
  · dsimp only
    rw [Run.bind_apply, Run.lift_apply]
    cases reportOf "UnprocessedItems" response <;> rfl

section

variable {host : Host σ} {settings : Settings} {extra : Entries} {pending : List Pending}
  {contents : σ → α → Option Value}

/-- A send that is throttled or whose report can be read applies the requests that it processed. -/
theorem contents_sendWrites (h : AppliesWrites host settings extra pending address contents)
    {c : Chunk} (hnodup : (c.requests.map address).Nodup) (hsub : c.requests ⊆ pending) (s : σ)
    (hregular : Sending.IsRegular ⟨c, (sendWrites host settings extra c s).1⟩) :
    ∃ done : List Pending, done.Perm (Sending.processed ⟨c, (sendWrites host settings extra c s).1⟩) ∧
      contents (sendWrites host settings extra c s).2 =
        done.foldl (applied address) (contents s) := by
  have houtcome := h.sends c.requests s hnodup.of_map hsub
  rw [sendWrites_apply] at hregular ⊢
  dsimp only at houtcome hregular ⊢
  obtain ⟨f, hf, hsame⟩ | ⟨response, hresponse, htexts, htidy, done, left, names, hreport, hleft,
    hnames, hsplit, hafter⟩ := houtcome
  · rw [hf] at hregular ⊢
    exact ⟨[], .refl _, hsame hregular⟩
  · have htold : ToldApart c.requests := toldApart_of_addresses htidy hnodup
      fun r hr q hq => h.respects r (hsub hr) q (hsub hq)
    obtain ⟨-, hdone⟩ := perm_done_of_report htexts htold hnodup.of_map hleft hnames hsplit
    refine ⟨done, ?_, hafter⟩
    rw [hresponse]
    unfold replyToWrites
    dsimp only
    rw [hreport]
    exact hdone

/-! ## Turns -/

/-- The delay before the next send changes nothing. -/
theorem contents_rested (h : AppliesWrites host settings extra pending address contents)
    (stage : Stage) (s : σ) : contents (stage.rested host settings s) = contents s := by
  unfold Stage.rested
  split
  · rfl
  · split
    · rfl
    · exact h.pauses _ s

/-- The requests of a job that its sends processed. -/
def Job.processed (j : Job) : List Pending := j.sendings.flatMap Sending.processed

/-- What is left of a chunk that is driven are some of its requests. -/
theorem sublist_of_follows {c : Chunk} (hfresh : c.IsFresh) {ss : List Sending} {budget : Nat}
    {p : Progress} (h : Follows settings c ss (.driving budget p)) :
    p.chunk.requests.Sublist c.requests := by
  obtain ⟨htally, -⟩ := stands_of_follows hfresh.attempts hfresh.lastError h
  rw [htally.requests]
  exact List.filter_sublist

/-- A turn of a job whose sends are throttled or bring reports that can be read applies the requests that
    it processed. -/
theorem contents_turn (h : AppliesWrites host settings extra pending address contents) {j : Job}
    (hfresh : j.fresh.IsFresh) (hfollows : Follows settings j.fresh j.sendings j.stage)
    (hnodup : (j.fresh.requests.map address).Nodup) (hsub : j.fresh.requests ⊆ pending) (s : σ)
    (hregular : (j.turn host settings (sendWrites host settings extra) s).1.IsRegular) :
    ∃ done : List Pending, (j.turn host settings (sendWrites host settings extra) s).1.processed.Perm
        (j.processed ++ done) ∧
      contents (j.turn host settings (sendWrites host settings extra) s).2 =
        done.foldl (applied address) (contents s) := by
  have hnone : j.processed.Perm (j.processed ++ []) := .of_eq (List.append_nil _).symm
  unfold Job.turn at hregular ⊢
  split
  · exact ⟨[], hnone, rfl⟩
  · rename_i budget p hstage
    rw [hstage] at hfollows hregular
    dsimp only at hregular
    split
    · exact ⟨[], hnone, rfl⟩
    · rename_i hne
      rw [if_neg hne] at hregular
      have hsublist := sublist_of_follows hfresh hfollows
      obtain ⟨done, hdone, hcontents⟩ := contents_sendWrites h
        (hnodup.sublist (hsublist.map address)) (fun r hr => hsub (hsublist.subset hr)) s
        (hregular _ (List.mem_append_right _ (List.mem_singleton_self _)))
      refine ⟨done, ?_, ?_⟩
      · unfold Job.processed
        rw [List.flatMap_append, List.flatMap_singleton]
        exact hdone.symm.append_left _
      · rw [← hcontents]
        exact contents_rested h _ _

/-- Earlier sends of a job stay as they are. -/
theorem isRegular_of_turn {send : Chunk → Run σ Reply} {j : Job} {s : σ}
    (h : (j.turn host settings send s).1.IsRegular) : j.IsRegular := by
  intro x hx
  apply h
  unfold Job.turn
  split
  · exact hx
  · split
    · exact hx
    · exact List.mem_append_left _ hx

/-! ## Runs -/

variable {limit : Int} {s : σ}

/-- The jobs of a batch are on their course. -/
theorem follows_of_reaches {send : Chunk → Run σ Reply} {pool : Pool σ}
    (h : Reaches host settings send (startPool settings (freshChunks limit pending) s) pool) :
    ∀ j ∈ pool.1, j.fresh ∈ freshChunks limit pending ∧
      Follows settings j.fresh j.sendings j.stage := by
  intro j hj
  constructor
  · rw [← map_fresh_reaches h]
    exact List.mem_map_of_mem hj
  · refine reaches_invariant (P := fun j => Follows settings j.fresh j.sendings j.stage)
      (fun j t hj => follows_turn host send hj t) ?_ h j hj
    exact List.forall_mem_map.2 fun c _ => .start

/-- The requests of a chunk are some of the requests of the batch. -/
theorem sublist_of_mem_freshChunks {c : Chunk} (h : c ∈ freshChunks limit pending) :
    c.requests.Sublist pending := by
  conv_rhs => rw [← flatMap_requests_freshChunks limit pending]
  exact List.sublist_flatten_of_mem (List.mem_map_of_mem h)

/-- As long as all sends are throttled or bring reports that can be read, what is applied are the requests
    that were processed. -/
theorem contents_of_reaches (h : AppliesWrites host settings extra pending address contents)
    (hnodup : (pending.map address).Nodup) {pool : Pool σ}
    (hreaches : Reaches host settings (sendWrites host settings extra)
      (startPool settings (freshChunks limit pending) s) pool)
    (hregular : ∀ j ∈ pool.1, j.IsRegular) :
    ∃ log : List Pending, log.Perm (pool.1.flatMap Job.processed) ∧
      contents pool.2 = log.foldl (applied address) (contents s) := by
  induction hreaches with
  | refl =>
    have hnone : (startPool settings (freshChunks limit pending) s).1.flatMap Job.processed = [] :=
      List.flatMap_eq_nil_iff.2 (List.forall_mem_map.2 fun c _ => rfl)
    exact ⟨[], .of_eq hnone.symm, rfl⟩
  | tail hreached hstep ih =>
    obtain @⟨before, after, j, t, -, -⟩ := hstep
    have hafter := List.forall_mem_append.1 hregular
    obtain ⟨hjregular, hrest⟩ := List.forall_mem_cons.1 hafter.2
    obtain ⟨log, hlog, hcontents⟩ := ih (List.forall_mem_append.2 ⟨hafter.1,
      List.forall_mem_cons.2 ⟨isRegular_of_turn hjregular, hrest⟩⟩)
    obtain ⟨hmem, hfollows⟩ := follows_of_reaches hreached j (by simp)
    have hsublist := sublist_of_mem_freshChunks hmem
    obtain ⟨done, hdone, hturn⟩ := contents_turn h (isFresh_of_mem hmem) hfollows
      (hnodup.sublist (hsublist.map address)) hsublist.subset t hjregular
    refine ⟨log ++ done, ?_, ?_⟩
    · -- what the turn processed stands behind what its job processed before
      rw [List.flatMap_append, List.flatMap_cons] at hlog ⊢
      calc log ++ done
        _ ~ before.flatMap Job.processed ++ (j.processed ++ after.flatMap Job.processed) ++ done :=
          hlog.append_right done
        _ ~ before.flatMap Job.processed ++ ((j.processed ++ done) ++ after.flatMap Job.processed) := by
          rw [List.append_assoc, List.append_assoc, List.append_assoc]
          exact (List.perm_append_comm.append_left _).append_left _
        _ ~ _ := (hdone.symm.append_right _).append_left _
    · rw [List.foldl_append, ← hcontents]
      exact hturn

/-- A job at its end with nothing left has processed its requests. -/
theorem processed_of_drained {j : Job} (hfresh : j.fresh.IsFresh)
    (hfollows : Follows settings j.fresh j.sendings j.stage) {p : Progress}
    (hstage : j.stage = .ended (.ok p)) (hnil : p.chunk.requests = []) :
    j.IsRegular ∧ j.processed.Perm j.fresh.requests := by
  have hstands := stands_of_follows hfresh.attempts hfresh.lastError hfollows
  rw [hstage] at hstands
  obtain ⟨htally, -⟩ := hstands
  refine ⟨fun x hx => (htally.regular x hx).1, ?_⟩
  have hprocessed := htally.processed
  rwa [hnil, List.append_nil] at hprocessed

/-- Whether a job has not failed and nothing is left of its chunk. -/
def Job.isDrained (j : Job) : Bool :=
  match j.result with
  | .ok p => p.chunk.requests.isEmpty
  | .error _ => false

/-- No chunk failed, and nothing is left of any. -/
def AllDrained (js : List Job) : Prop := ∀ j ∈ js, j.isDrained = true

instance (js : List Job) : Decidable (AllDrained js) :=
  inferInstanceAs (Decidable (∀ j ∈ js, j.isDrained = true))

theorem exists_of_isDrained {j : Job} (h : j.isDrained = true) :
    ∃ p, j.result = .ok p ∧ p.chunk.requests = [] := by
  unfold Job.isDrained at h
  cases hresult : j.result with
  | ok p =>
    rw [hresult] at h
    exact ⟨p, rfl, List.isEmpty_iff.1 h⟩
  | error f =>
    rw [hresult] at h
    cases h

/-- When all chunks are at their end, none failed, and nothing is left of any, the requests are applied
    as if one by one, in their order. -/
theorem contents_of_drained (h : AppliesWrites host settings extra pending address contents)
    (hnodup : (pending.map address).Nodup) {js : List Job} {t : σ}
    (hreaches : Reaches host settings (sendWrites host settings extra)
      (startPool settings (freshChunks limit pending) s) (js, t))
    (hended : AllEnded js) (hdrained : AllDrained js) :
    contents t = pending.foldl (applied address) (contents s) := by
  have hjobs : ∀ j ∈ js, j.IsRegular ∧ j.processed.Perm j.fresh.requests := by
    intro j hj
    obtain ⟨hmem, hfollows⟩ := follows_of_reaches hreaches j hj
    obtain ⟨p, hp, hnil⟩ := exists_of_isDrained (hdrained j hj)
    obtain ⟨r, hr⟩ := isDriven_eq_false_iff.1 (hended j hj)
    have hstage : j.stage = .ended (.ok p) := by
      unfold Job.result at hp
      rw [hr] at hp ⊢
      exact congrArg Stage.ended hp
    exact processed_of_drained (isFresh_of_mem hmem) hfollows hstage hnil
  obtain ⟨log, hlog, hcontents⟩ := contents_of_reaches h hnodup hreaches fun j hj => (hjobs j hj).1
  have hperm : log.Perm pending := by
    calc log
      _ ~ js.flatMap Job.processed := hlog
      _ ~ js.flatMap fun j => j.fresh.requests :=
        List.Perm.flatMap_left js fun j hj => (hjobs j hj).2
      _ = (js.map Job.fresh).flatMap Chunk.requests := (List.flatMap_map ..).symm
      _ = pending := by rw [map_fresh_reaches hreaches, flatMap_requests_freshChunks]
  rw [show contents t = log.foldl (applied address) (contents s) from hcontents]
  exact foldl_applied_perm hperm ((hperm.map address).nodup_iff.2 hnodup) (contents s)

end

end ItemStore.Batch
