import ItemStore.Proofs.Backend.Ledger
import ItemStore.Proofs.Batch.Retrial

/-
  The sends of a batch in the order in which they were made. Its chunks take turns, so the sends of one
  are among those of the others; each send carries the number of its chunk, and those with one number are
  the sends of that chunk in their order. A send makes its call if there is a client, and no other call
  is made, as the ledger of the host says.

  Main statements: `tried_turn` and `exists_tried`.
-/

namespace ItemStore.Batch

variable {σ : Type}

/-! ## Calls -/

/-- A request is sent if there is a client, or one can be made. -/
theorem send_at {host : Host σ} (l : Gateway.Ledger host) (settings : Settings) (method : Method)
    (request : Entries) {d : List (Method × Entries)} {s : σ} (hs : l.At d s) :
    let o := Gateway.send host settings method request s
    (∃ f, (Gateway.ensureConnected host settings s).1 = .error f ∧ o.1 = .error f ∧ l.At d o.2) ∨
      l.At (d ++ [(method, request)]) o.2 := by
  intro o
  have hconnected : l.At d (Gateway.ensureConnected host settings s).2 := by
    rw [Gateway.ensureConnected_apply]
    split
    · exact hs
    · rw [Run.mapFailure_apply]
      exact (l.connects d _ _ s hs).1
  have ho : o = _ := Gateway.send_apply host settings method request s
  rcases hensure : Gateway.ensureConnected host settings s with ⟨f | ⟨⟩, t⟩
  · rw [hensure] at ho hconnected
    rw [ho]
    exact .inl ⟨f, rfl, rfl, hconnected⟩
  · rw [hensure] at ho hconnected
    rw [ho]
    exact .inr (l.sends d method request t hconnected)

/-- The delay before the next send makes no call. -/
theorem rested_at {host : Host σ} (l : Gateway.Ledger host) (settings : Settings)
    {d : List (Method × Entries)} {s : σ} (hs : l.At d s) (stage : Stage) :
    l.At d (stage.rested host settings s) := by
  unfold Stage.rested
  split
  · exact hs
  · split
    · exact hs
    · exact l.pauses d _ s hs

/-- The state after a send of a batch is the one after its request. -/
theorem IsBatchSend.snd_send {host : Host σ} {settings : Settings} {method : Method}
    {call : Chunk → Entries} {send : Chunk → Run σ Reply}
    (h : IsBatchSend host settings method call send) (c : Chunk) (s : σ) :
    (send c s).2 = (Gateway.send host settings method (call c) s).2 := by
  cases h with
  | writes extra => rw [sendWrites_apply]
  | keys wanted extra =>
    rw [sendKeys_apply]
    unfold getCall
    rcases Gateway.send host settings .batchGetItem
      ((.text "RequestItems", .map (asksOf wanted c)) :: extra) s with ⟨f | response, t⟩
    · rfl
    · dsimp only
      cases foundItems response <;> rfl

/-! ## Tries -/

/-- A send, and whether there was a client to make its call. -/
structure Try where
  sending : Sending
  made : Bool

/-- The calls that were made of some tries. -/
def callsMade (method : Method) (call : Chunk → Entries) (tries : List Try) :
    List (Method × Entries) :=
  (tries.filter Try.made).map fun e => (method, call e.sending.sent)

/-- The sends of the chunk with a number. -/
def sendsOf (index : Nat) (xs : List Sending) : List Sending :=
  xs.filter fun x => x.sent.index == index

/-- Only for want of a client a call is not made, and the send fails as connecting does. -/
def IsUnmade (host : Host σ) (settings : Settings) (e : Try) : Prop :=
  ∃ t f, (Gateway.ensureConnected host settings t).1 = .error f ∧ e.sending.outcome = .error f

/-- What was tried for some jobs, and is in the ledger. -/
structure Tried {host : Host σ} (l : Gateway.Ledger host) (settings : Settings) (method : Method)
    (call : Chunk → Entries) (d : List (Method × Entries)) (js : List Job) (s : σ) (tries : List Try) :
    Prop where
  calls : l.At (d ++ callsMade method call tries) s
  unmade : ∀ e ∈ tries, e.made = false → IsUnmade host settings e
  own : ∀ j ∈ js, sendsOf j.fresh.index (tries.map Try.sending) = j.sendings
  numbered : ∀ j ∈ js, ∀ b p, j.stage = .driving b p → p.chunk.index = j.fresh.index
  only : ∀ e ∈ tries, ∃ j ∈ js, e.sending.sent.index = j.fresh.index
  distinct : (js.map fun j => j.fresh.index).Nodup

section

variable {host : Host σ} {l : Gateway.Ledger host} {settings : Settings} {method : Method}
  {call : Chunk → Entries} {d : List (Method × Entries)} {before after : List Job} {j j' : Job}
  {s t : σ} {tries : List Try}

theorem sendsOf_append (index : Nat) (xs ys : List Sending) :
    sendsOf index (xs ++ ys) = sendsOf index xs ++ sendsOf index ys :=
  List.filter_append _ _

/-- One of the jobs goes on: it stands elsewhere, perhaps after more sends of its own chunk. -/
theorem Tried.extend (h : Tried l settings method call d (before ++ j :: after) s tries)
    (more : List Try) (hfresh : j'.fresh = j.fresh)
    (hsendings : j'.sendings = j.sendings ++ more.map Try.sending)
    (hnumbered : ∀ b p, j'.stage = .driving b p → p.chunk.index = j.fresh.index)
    (hmore : ∀ e ∈ more, e.sending.sent.index = j.fresh.index)
    (hunmade : ∀ e ∈ more, e.made = false → IsUnmade host settings e)
    (hcalls : l.At (d ++ callsMade method call (tries ++ more)) t) :
    Tried l settings method call d (before ++ j' :: after) t (tries ++ more) := by
  have hcases {a : Job} {P : Job → Prop} :
      (∀ k ∈ before ++ a :: after, P k) ↔ P a ∧ ∀ k ∈ before ++ after, P k := by
    rw [← List.forall_mem_cons]
    exact forall_congr' fun k => by rw [List.perm_middle.mem_iff]
  obtain ⟨hown, howns⟩ := hcases.1 h.own
  have hindex : ((before ++ j' :: after).map fun k => k.fresh.index) =
      (before ++ j :: after).map fun k => k.fresh.index := by
    rw [List.map_append, List.map_append, List.map_cons, List.map_cons, hfresh]
  -- no other chunk has this number
  have hother : ∀ k ∈ before ++ after, ∀ e ∈ more, e.sending.sent.index ≠ k.fresh.index := by
    intro k hk e he heq
    have hnodup := (List.perm_middle.map fun k : Job => k.fresh.index).nodup_iff.1 h.distinct
    rw [List.map_cons, List.nodup_cons] at hnodup
    rw [hmore e he] at heq
    exact hnodup.1 (List.mem_map.2 ⟨k, hk, heq.symm⟩)
  refine ⟨hcalls, List.forall_mem_append.2 ⟨h.unmade, hunmade⟩, hcases.2 ⟨?_, fun k hk => ?_⟩,
    hcases.2 ⟨?_, (hcases.1 h.numbered).2⟩, List.forall_mem_append.2 ⟨fun e he => ?_, fun e he => ?_⟩,
    ?_⟩
  · rw [hfresh, List.map_append, sendsOf_append, hown, hsendings]
    refine congrArg _ (List.filter_eq_self.2 (List.forall_mem_map.2 fun e he => ?_))
    exact beq_iff_eq.2 (hmore e he)
  · rw [List.map_append, sendsOf_append, howns k hk]
    refine (congrArg _ (List.filter_eq_nil_iff.2 (List.forall_mem_map.2 fun e he => ?_))).trans
      (List.append_nil _)
    rw [beq_iff_eq]
    exact hother k hk e he
  · rw [hfresh]
    exact hnumbered
  · obtain ⟨k, hk, hsent⟩ := h.only e he
    rw [hsent]
    have hmem : k.fresh.index ∈ (before ++ j' :: after).map fun k => k.fresh.index := by
      rw [hindex]
      exact List.mem_map_of_mem hk
    obtain ⟨k', hk', heq⟩ := List.mem_map.1 hmem
    exact ⟨k', hk', heq.symm⟩
  · exact ⟨j', List.mem_append_right _ List.mem_cons_self, by rw [hmore e he, hfresh]⟩
  · rw [hindex]
    exact h.distinct

theorem callsMade_append (method : Method) (call : Chunk → Entries) (tries more : List Try) :
    callsMade method call (tries ++ more) = callsMade method call tries ++ callsMade method call more := by
  unfold callsMade
  rw [List.filter_append, List.map_append]

/-- A chunk keeps its number when it is sent. -/
theorem index_of_stageAfter {budget b : Nat} {p q : Progress} {o : Except Failure Reply}
    (h : stageAfter settings budget p o = .driving b q) : q.chunk.index = p.chunk.index := by
  have hafter := after_stageAfter settings budget p o
  rw [h] at hafter
  cases hafter with
  | again _ _ hchunk _ =>
    rw [hchunk]
    rfl

/-- A send of a chunk makes its call, or there is no client. -/
theorem exists_try {send : Chunk → Run σ Reply} (hsend : IsBatchSend host settings method call send)
    (l : Gateway.Ledger host) (hs : l.At d s) (c : Chunk) :
    ∃ e : Try, e.sending = ⟨c, (send c s).1⟩ ∧ (e.made = false → IsUnmade host settings e) ∧
      l.At (d ++ callsMade method call [e]) (send c s).2 := by
  obtain ⟨reply, hreply, hfailed, -⟩ := hsend.exists_reply
  rw [hsend.snd_send]
  obtain ⟨f, hensure, hout, hat⟩ | hat := send_at l settings method (call c) hs
  · refine ⟨⟨⟨c, (send c s).1⟩, false⟩, rfl, fun _ => ⟨s, f, hensure, ?_⟩, ?_⟩
    · show (send c s).1 = _
      rw [hreply, hout, hfailed]
    · rwa [show callsMade method call [⟨⟨c, (send c s).1⟩, false⟩] = [] from rfl, List.append_nil]
  · exact ⟨⟨⟨c, (send c s).1⟩, true⟩, rfl, fun hmade => (nomatch hmade), hat⟩

/-- A turn adds what it tries. -/
theorem tried_turn {send : Chunk → Run σ Reply} (hsend : IsBatchSend host settings method call send)
    (h : Tried l settings method call d (before ++ j :: after) s tries) :
    ∃ tries', Tried l settings method call d
      (before ++ (j.turn host settings send s).1 :: after) (j.turn host settings send s).2 tries' := by
  have hj : j ∈ before ++ j :: after := List.mem_append_right _ List.mem_cons_self
  unfold Job.turn
  cases hstage : j.stage with
  | ended r => exact ⟨tries, h⟩
  | driving budget p =>
    have hindex := h.numbered j hj budget p hstage
    dsimp only
    split_ifs with hempty
    · refine ⟨tries ++ [], h.extend [] rfl (List.append_nil _).symm (fun b q hq => (nomatch hq))
        (fun e he => absurd he List.not_mem_nil) (fun e he => absurd he List.not_mem_nil) ?_⟩
      rw [List.append_nil]
      exact h.calls
    · obtain ⟨e, he, hunmade, hat⟩ := exists_try hsend l h.calls p.chunk
      refine ⟨tries ++ [e], h.extend [e] rfl (by rw [List.map_singleton, he])
        (fun b q hq => (index_of_stageAfter hq).trans hindex) ?_ ?_ ?_⟩
      · rw [List.forall_mem_singleton, he]
        exact hindex
      · rwa [List.forall_mem_singleton]
      · rw [callsMade_append, ← List.append_assoc]
        exact rested_at l settings hat _

/-- What the chunks of a batch try, in whatever order they take turns. -/
theorem exists_tried {send : Chunk → Run σ Reply} (hsend : IsBatchSend host settings method call send)
    (hs : l.At d s) (order : List Nat) {cs : List Chunk} (hcs : (cs.map Chunk.index).Nodup) :
    ∃ tries, Tried l settings method call d (jobsInTurns host settings order send cs s).1
      (jobsInTurns host settings order send cs s).2 tries := by
  refine jobsInTurns_joint (Q := fun js t => ∃ tries, Tried l settings method call d js t tries)
    (fun before j after t ⟨tries, h⟩ => tried_turn hsend h) order ⟨[], ?_⟩
  refine ⟨?_, fun e he => absurd he List.not_mem_nil, List.forall_mem_map.2 fun c _ => rfl,
    List.forall_mem_map.2 fun c _ b p hstage => ?_, fun e he => absurd he List.not_mem_nil, ?_⟩
  · rwa [show callsMade method call [] = [] from rfl, List.append_nil]
  · cases hstage
    rfl
  · rwa [List.map_map]

end

end ItemStore.Batch
