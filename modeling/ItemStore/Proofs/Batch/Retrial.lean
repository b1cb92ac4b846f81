import ItemStore.Proofs.Backend.Surfacing
import ItemStore.Proofs.Batch.Journal
import ItemStore.Proofs.Batch.Scheduling
import Mathlib.Data.List.Chain

/-
  How often a chunk is sent, and why again. A chunk is sent at most once more than its budget of
  repetitions allows, with one delay before each repetition; it is sent again only if the send before was
  throttled or left some of its requests, and any other failure is the chunk's. What may be repeated is
  decided by the code that the client reports, and every other fault surfaces with its code and message.

  Main statements: `led_of_follows` (what one send leads to, over a whole course) and `chunk_retried`.
-/

namespace ItemStore.Batch

variable {σ : Type}

/-! ## Sends that follow each other -/

/-- A send that failed in a way that may be repeated. -/
def Sending.IsThrottled (x : Sending) : Prop :=
  ∃ f, x.outcome = .error f ∧ Gateway.isRetryable f = true

/-- Sends of a chunk, the first of which is of the chunk itself and each other one of what the send
    before left of it. -/
structure IsLinked (c : Chunk) (ss : List Sending) : Prop where
  first : ∀ x, ss.head? = some x → x.sent = c
  chain : ss.IsChain fun x y => x.IsRegular ∧ x.left ≠ [] ∧ y.sent = x.next
  filled : ∀ x ∈ ss, x.sent.requests ≠ []

/-- Where the last of some sends leads. -/
def Led (settings : Settings) (c : Chunk) (ss : List Sending) : Stage → Prop
  | .driving budget p =>
    budget + ss.length = settings.batchMaxRetries.toNat ∧
      (ss.getLast? = none → p.chunk = c) ∧
      ∀ x, ss.getLast? = some x → x.IsRegular ∧ x.left ≠ [] ∧ p.chunk = x.next
  | .ended r =>
    (ss.getLast? = none → ∃ p, r = .ok p ∧ p.chunk = c ∧ c.requests = []) ∧
      ∀ x, ss.getLast? = some x → ∃ budget,
        budget + ss.length = settings.batchMaxRetries.toNat + 1 ∧ After settings x budget (.ended r)

theorem linked_concat {settings : Settings} {c : Chunk} {ss : List Sending} {budget : Nat}
    {p : Progress} (hlinked : IsLinked c ss) (hled : Led settings c ss (.driving budget p))
    (hne : p.chunk.requests ≠ []) (o : Except Failure Reply) :
    IsLinked c (ss ++ [⟨p.chunk, o⟩]) := by
  obtain ⟨-, hfresh, hlast⟩ := hled
  refine ⟨fun x hx => ?_, ?_, List.forall_mem_append.2 ⟨hlinked.filled, List.forall_mem_singleton.2 hne⟩⟩
  · cases ss with
    | nil =>
      cases hx
      exact hfresh rfl
    | cons y ys => exact hlinked.first x hx
  · refine List.isChain_append.2 ⟨hlinked.chain, List.IsChain.singleton _, fun x hx y hy => ?_⟩
    cases hy
    exact hlast x hx

/-- The sends of a chunk follow each other, and the last of them leads to where the chunk stands. -/
theorem led_of_follows {settings : Settings} {c : Chunk} {ss : List Sending} {stage : Stage}
    (h : Follows settings c ss stage) : IsLinked c ss ∧ Led settings c ss stage := by
  induction h with
  | start =>
    refine ⟨⟨fun x hx => (nomatch hx), .nil, fun x hx => absurd hx List.not_mem_nil⟩, rfl,
      fun _ => rfl, fun x hx => (nomatch hx)⟩
  | @sent ss budget p o _ hne ih =>
    obtain ⟨hlinked, hled⟩ := ih
    refine ⟨linked_concat hlinked hled hne o, ?_⟩
    have hbudget : budget + ss.length = settings.batchMaxRetries.toNat := hled.1
    have hlength : (ss ++ [(⟨p.chunk, o⟩ : Sending)]).length = ss.length + 1 := by simp
    have hafter := after_stageAfter settings budget p o
    cases hstage : stageAfter settings budget p o with
    | ended r =>
      rw [hstage] at hafter
      refine ⟨fun hnone => ?_, fun x hx => ?_⟩
      · rw [List.getLast?_concat] at hnone
        cases hnone
      · rw [List.getLast?_concat] at hx
        cases hx
        exact ⟨budget, by omega, hafter⟩
    | driving b p' =>
      rw [hstage] at hafter
      cases hafter with
      | again hregular hleft hchunk _ =>
        refine ⟨by omega, fun hnone => ?_, fun x hx => ?_⟩
        · rw [List.getLast?_concat] at hnone
          cases hnone
        · rw [List.getLast?_concat] at hx
          cases hx
          exact ⟨hregular, hleft, hchunk⟩
  | @empty ss budget p _ hnil ih =>
    obtain ⟨hlinked, -, hfresh, hlast⟩ := ih
    refine ⟨hlinked, fun hnone => ⟨p, rfl, hfresh hnone, ?_⟩, fun x hx => ?_⟩
    · rw [← hfresh hnone]
      exact hnil
    -- a chunk that was sent and is driven on has something left
    · obtain ⟨-, hleft, hchunk⟩ := hlast x hx
      rw [hchunk] at hnil
      exact absurd hnil hleft

theorem IsLinked.tail {c : Chunk} {y : Sending} {ys : List Sending} (h : IsLinked c (y :: ys)) :
    IsLinked y.next ys := by
  refine ⟨fun z hz => ?_, h.chain.tail, fun z hz => h.filled z (List.mem_cons_of_mem _ hz)⟩
  exact ((List.isChain_cons.1 h.chain).1 z hz).2.2

/-- Sends that follow each other count those before them. -/
theorem attempts_of_linked {c : Chunk} {ss : List Sending} (h : IsLinked c ss) {i : Nat}
    {x : Sending} (hx : ss[i]? = some x) : x.sent.attempts = c.attempts + i := by
  induction ss generalizing c i with
  | nil => cases hx
  | cons y ys ih =>
    have hy : y.sent = c := h.first y rfl
    cases i with
    | zero =>
      cases hx
      rw [hy, Nat.add_zero]
    | succ i =>
      have hnext : y.next.attempts = y.sent.attempts + 1 := rfl
      rw [ih h.tail hx, hnext, hy]
      omega

/-- A send that is no regular one is the last. -/
theorem getLast_of_irregular {c : Chunk} {ss : List Sending} (h : IsLinked c ss) {x : Sending}
    (hx : x ∈ ss) (hirregular : ¬ x.IsRegular) : ss.getLast? = some x := by
  obtain ⟨before, after, rfl⟩ := List.append_of_mem hx
  cases after with
  | nil => rw [List.getLast?_concat]
  | cons y ys =>
    have hchain := (List.isChain_append.1 h.chain).2.1
    exact absurd ((List.isChain_cons.1 hchain).1 y rfl).1 hirregular

/-! ## Retrials -/

/-- How a chunk is sent again and again, up to what it comes to. -/
structure Retrial (settings : Settings) (c : Chunk) (ss : List Sending)
    (r : Except Failure Progress) : Prop where
  /-- there is one send more than repetitions, at most as many as the budget -/
  bounded : ss.length ≤ settings.batchMaxRetries.toNat + 1
  /-- each send counts those before it, and sends something -/
  counted : ∀ (i : Nat) (x : Sending), ss[i]? = some x →
    x.sent.attempts = i ∧ x.sent.requests ≠ []
  first : ∀ x, ss.head? = some x → x.sent = c
  /-- a send is repeated, with what it left, if it was throttled or left some of its requests -/
  repeated : ss.IsChain fun x y => x.IsRegular ∧ x.left ≠ [] ∧ y.sent = x.next
  /-- a failure that may not be repeated is that of the last send, and of the chunk -/
  fatal : ∀ x f, x ∈ ss → x.IsRefused f → ss.getLast? = some x ∧ r = .error f
  /-- a chunk fails with its last send, or because the next repetition cannot be waited for -/
  failed : ∀ f, r = .error f →
    (∃ x, ss.getLast? = some x ∧ (x.IsRefused f ∨ ∃ m, f = .mishap m ∧ x.IsUnreadable m)) ∨
      (f = noRest settings ∧ ss.length = mostRests settings + 1 ∧
        ss.length ≤ settings.batchMaxRetries.toNat)
  /-- something is left only if the budget is spent -/
  residue : ∀ p, r = .ok p → p.chunk.requests ≠ [] →
    ss.length = settings.batchMaxRetries.toNat + 1
  repetitions : ∀ p, r = .ok p → p.chunk.attempts = ss.length - 1
  /-- there is an error in the end exactly if the last send was throttled -/
  throttled : ∀ p, r = .ok p → p.chunk.lastError = lastFailure? ss ∧
    (p.chunk.lastError.isSome = true ↔ ∃ x, ss.getLast? = some x ∧ x.IsThrottled)

/-- The error of a regular send tells whether it was throttled. -/
theorem isSome_failure_iff {x : Sending} (h : x.IsRegular) :
    x.failure?.isSome = true ↔ x.IsThrottled := by
  obtain ⟨c, f | reply⟩ := x
  · exact ⟨fun _ => ⟨f, rfl, h⟩, fun _ => rfl⟩
  · exact ⟨fun hsome => (nomatch hsome), fun ⟨_, hfailed, _⟩ => (nomatch hfailed)⟩

theorem not_isRegular_of_isRefused {x : Sending} {f : Failure} (h : x.IsRefused f) :
    ¬ x.IsRegular := by
  obtain ⟨c, o⟩ := x
  obtain ⟨hout, hf⟩ := h
  cases hout
  exact fun hregular => absurd hregular (Bool.eq_false_iff.1 hf)

/-- A send that is no regular one and ends the chunk was refused, or its report cannot be read. -/
theorem After.cases_of_irregular {settings : Settings} {x : Sending} {budget : Nat}
    {r : Except Failure Progress} (h : After settings x budget (.ended r))
    (hirregular : ¬ x.IsRegular) :
    ∃ f, r = .error f ∧ (x.IsRefused f ∨ ∃ m, f = .mishap m ∧ x.IsUnreadable m) := by
  cases h with
  | drained hregular | spent hregular | restless hregular => exact absurd hregular hirregular
  | @refused _ f hrefused => exact ⟨f, rfl, .inl hrefused⟩
  | @unreadable _ m hunreadable => exact ⟨_, rfl, .inr ⟨m, rfl, hunreadable⟩⟩

/-- A send that ends its chunk without a failure leaves the chunk as its report and its error say. -/
theorem After.chunk_of_ok {settings : Settings} {x : Sending} {budget : Nat} {p : Progress}
    (h : After settings x budget (.ended (.ok p))) : x.IsRegular ∧ p.chunk = x.remains := by
  cases h with
  | drained hregular _ hchunk | spent hregular _ hchunk => exact ⟨hregular, hchunk⟩

theorem failure_of_irregular {settings : Settings} {c : Chunk} {ss : List Sending}
    {r : Except Failure Progress} (h : Follows settings c ss (.ended r)) {x : Sending} (hx : x ∈ ss)
    (hirregular : ¬ x.IsRegular) : ss.getLast? = some x ∧
      ∃ f, r = .error f ∧ (x.IsRefused f ∨ ∃ m, f = .mishap m ∧ x.IsUnreadable m) := by
  obtain ⟨hlinked, -, hlast⟩ := led_of_follows h
  have hx' := getLast_of_irregular hlinked hx hirregular
  obtain ⟨budget, -, hafter⟩ := hlast x hx'
  exact ⟨hx', hafter.cases_of_irregular hirregular⟩

/-- What is left of a chunk at its end counts the repetitions, and has an error if the last send was
    throttled. -/
theorem left_of_follows {settings : Settings} {c : Chunk} (hattempts : c.attempts = 0)
    (herror : c.lastError = none) {ss : List Sending} {p : Progress}
    (h : Follows settings c ss (.ended (.ok p))) :
    p.chunk.attempts = ss.length - 1 ∧
      (p.chunk.lastError.isSome = true ↔ ∃ x, ss.getLast? = some x ∧ x.IsThrottled) := by
  obtain ⟨hlinked, hnone, hlast⟩ := led_of_follows h
  cases hss : ss.getLast? with
  | none =>
    obtain ⟨q, hq, hchunk, -⟩ := hnone hss
    cases hq
    rw [hchunk, hattempts, herror, List.getLast?_eq_none_iff.1 hss]
    exact ⟨rfl, fun hsome => (nomatch hsome), fun ⟨_, hx, _⟩ => (nomatch hx)⟩
  | some x =>
    obtain ⟨budget, -, hafter⟩ := hlast x hss
    obtain ⟨hregular, hchunk⟩ := hafter.chunk_of_ok
    have hget : ss[ss.length - 1]? = some x := by rw [← hss, List.getLast?_eq_getElem?]
    rw [hchunk]
    refine ⟨?_, ?_⟩
    · show x.sent.attempts = ss.length - 1
      rw [attempts_of_linked hlinked hget, hattempts, Nat.zero_add]
    · show x.failure?.isSome = true ↔ _
      rw [isSome_failure_iff hregular]
      exact ⟨fun hthrottled => ⟨x, rfl, hthrottled⟩, fun ⟨_, hx, hthrottled⟩ => by cases hx; exact hthrottled⟩

/-- Every course of a chunk that was not sent before is such a retrial. -/
theorem retrial_of_follows {settings : Settings} {c : Chunk} (hattempts : c.attempts = 0)
    (herror : c.lastError = none) {ss : List Sending} {r : Except Failure Progress}
    (h : Follows settings c ss (.ended r)) : Retrial settings c ss r := by
  obtain ⟨hlinked, -, hlast⟩ := led_of_follows h
  have hstands := stands_of_follows hattempts herror h
  refine ⟨?_, fun i x hx => ⟨?_, hlinked.filled x (List.mem_of_getElem? hx)⟩, hlinked.first,
    hlinked.chain, fun x f hx hrefused => ?_, ?_, ?_, ?_, ?_⟩
  · cases hss : ss.getLast? with
    | none =>
      rw [List.getLast?_eq_none_iff.1 hss]
      exact Nat.zero_le _
    | some x =>
      obtain ⟨budget, hbudget, -⟩ := hlast x hss
      omega
  · rw [attempts_of_linked hlinked hx, hattempts, Nat.zero_add]
  · obtain ⟨hx', g, hr, hg⟩ := failure_of_irregular h hx (not_isRegular_of_isRefused hrefused)
    refine ⟨hx', ?_⟩
    rw [hr]
    obtain ⟨hout, -⟩ | ⟨m, -, reply, hout, -⟩ := hg
    · rw [hrefused.1] at hout
      cases hout
      rfl
    · rw [hrefused.1] at hout
      cases hout
  · intro f hf
    rw [hf] at hstands h
    obtain ⟨x, hx, hirregular⟩ | ⟨hdelay, hlength, hbudget, -⟩ := hstands
    · obtain ⟨hx', g, hg, hcases⟩ := failure_of_irregular h hx hirregular
      cases hg
      exact .inl ⟨x, hx', hcases⟩
    · exact .inr ⟨hdelay, hlength, by omega⟩
  · intro p hp hne
    rw [hp] at hstands
    exact (hstands.2.resolve_left hne).1
  · intro p hp
    rw [hp] at h
    exact (left_of_follows hattempts herror h).1
  · intro p hp
    rw [hp] at h hstands
    exact ⟨hstands.1.lastError, (left_of_follows hattempts herror h).2⟩

/-! ## Sends of a batch -/

/-- A way to send the chunks of a batch, by this method and in these calls. -/
inductive IsBatchSend (host : Host σ) (settings : Settings) :
    Method → (Chunk → Entries) → (Chunk → Run σ Reply) → Prop
  | writes (extra : Entries) : IsBatchSend host settings .batchWriteItem
      (fun c => writeCall extra c.requests) (sendWrites host settings extra)
  | keys (wanted : List Wanted) (extra : Entries) : IsBatchSend host settings .batchGetItem
      (getCall extra wanted) (sendKeys host settings wanted extra)

/-- A response to writes that cannot be read is a mishap. -/
theorem replyToWrites_mishap (response : Value) :
    Ends (fun _ => True) (fun f => ∃ m, f = .mishap m) (replyToWrites (.ok response)) :=
  ((Ends.of_true (reportOf "UnprocessedItems" response)).mapError fun m _ => ⟨m, rfl⟩).map
    fun _ _ => trivial

/-- A response to keys that cannot be read is a mishap. -/
theorem replyToKeys_mishap (response : Value) :
    Ends (fun _ => True) (fun f => ∃ m, f = .mishap m) (replyToKeys (.ok response)) := by
  have hfound := foundItems_mishap response
  unfold replyToKeys
  dsimp only
  cases hitems : foundItems response with
  | error f =>
    rw [hitems] at hfound
    exact hfound
  | ok found => exact (unprocessedKeys_mishap response).map fun _ _ => trivial

/-- A send of a batch comes to what is read off the response to its call. -/
theorem IsBatchSend.exists_reply {host : Host σ} {settings : Settings} {method : Method}
    {call : Chunk → Entries} {send : Chunk → Run σ Reply}
    (h : IsBatchSend host settings method call send) :
    ∃ reply : Except Failure Value → Except Failure Reply,
      (∀ c t, (send c t).1 = reply (Gateway.send host settings method (call c) t).1) ∧
      (∀ f, reply (.error f) = .error f) ∧
      ∀ response, Ends (fun _ => True) (fun f => ∃ m, f = .mishap m) (reply (.ok response)) := by
  cases h with
  | writes extra =>
    refine ⟨replyToWrites, fun c t => ?_, fun _ => rfl, replyToWrites_mishap⟩
    rw [sendWrites_apply]
  | keys wanted extra =>
    exact ⟨replyToKeys, fst_sendKeys host settings wanted extra, fun _ => rfl, replyToKeys_mishap⟩

/-- What a send with this call came to tells what the client failed with. -/
structure Reports (host : Host σ) (settings : Settings) (method : Method) (call : Entries) (t : σ)
    (o : Except Failure Reply) : Prop where
  /-- a fault of the client surfaces with its code and its message, where call and code have names -/
  surfaced : ∀ fault k, Gateway.FailsWith host settings method call t fault →
    Gateway.unnamed? (.text method.title) (Value.field "TableName" call) = none →
    Value.soughtMember fault.code = .ok k →
      ∃ f, o = .error f ∧ Gateway.Surfaces method (Value.field "TableName" call) fault f
  /-- only after a passing fault of the client may the send be repeated -/
  passing : ∀ f, o = .error f → Gateway.isRetryable f = true →
    ∃ fault, Gateway.FailsWith host settings method call t fault ∧ fault.IsPassing ∧
      Gateway.Surfaces method (Value.field "TableName" call) fault f

theorem reports_of_send {host : Host σ} {settings : Settings} {method : Method}
    {call : Chunk → Entries} {send : Chunk → Run σ Reply}
    (hsend : IsBatchSend host settings method call send)
    (hclient : ∀ request t g, (host.send method request t).1 = .error g →
      Gateway.isRetryable g = false) (c : Chunk) (t : σ) :
    Reports host settings method (call c) t (send c t).1 := by
  obtain ⟨reply, hreply, hfailed, hanswered⟩ := hsend.exists_reply
  rw [hreply]
  constructor
  · intro fault k hfails hnamed hcode
    rw [Gateway.failed_of_failsWith hfails, hfailed]
    exact ⟨_, rfl, Gateway.surfaces hnamed hcode⟩
  · intro f hout hf
    cases hgateway : (Gateway.send host settings method (call c) t).1 with
    | error g =>
      rw [hgateway, hfailed] at hout
      cases hout
      obtain ⟨fault, hfails, rfl⟩ :=
        Gateway.failsWith_of_retryable (fun t g => hclient (call c) t g) hgateway hf
      exact ⟨fault, hfails, Gateway.isPassing_of_retryable hf⟩
    | ok response =>
      have hmishap := hanswered response
      rw [hgateway] at hout
      rw [hout] at hmishap
      obtain ⟨m, rfl⟩ := hmishap
      cases hf

/-- Every chunk of a batch is sent again as its budget and the client's codes allow. Driven under watch
    it comes to what it comes to without, and the journal lists its sends with one delay before each of
    them but the first. -/
theorem chunk_retried {host : Host σ} {settings : Settings} {method : Method}
    {call : Chunk → Entries} {send : Chunk → Run σ Reply}
    (hsend : IsBatchSend host settings method call send)
    (hclient : ∀ request t g, (host.send method request t).1 = .error g →
      Gateway.isRetryable g = false) (index : Nat) (requests : List Pending) (s : σ) :
    let c := Chunk.fresh index requests
    let o := driveFresh host settings send c s
    ∃ ss, driveFresh (watched host) settings (watchedSend send) c (s, []) =
        (o.1, o.2, journal settings ss) ∧
      Retrial settings c ss o.1 ∧
      ∀ x ∈ ss, ∃ t, (send x.sent t).1 = x.outcome ∧
        Reports host settings method (call x.sent) t x.outcome := by
  intro c o
  obtain ⟨ss, hcourse, hcame, hrun⟩ := drive_watched host settings send
    settings.batchMaxRetries.toNat (.start : Follows settings c [] _)
    (fun x hx => absurd hx List.not_mem_nil) (.inl rfl) s
  refine ⟨ss, hrun, retrial_of_follows rfl rfl hcourse, fun x hx => ?_⟩
  obtain ⟨t, ht⟩ := hcame x hx
  refine ⟨t, ht, ?_⟩
  rw [← ht]
  exact reports_of_send hsend hclient x.sent t

/-- A chunk that the slow service is too busy for, and one for a table that is closed. -/
theorem chunk_retried_films :
    let send := sendWrites slowHost twoAtOnce []
    let busy := Chunk.fresh 0 (mixedPending.take 2)
    let o := driveFresh slowHost twoAtOnce send busy []
    IsBatchSend slowHost twoAtOnce .batchWriteItem (fun c => writeCall [] c.requests) send ∧
    (∀ request t g, (slowHost.send .batchWriteItem request t).1 = .error g →
      Gateway.isRetryable g = false) ∧
    (o.1.toOption.map fun p => (p.chunk.requests.length, p.chunk.attempts)) = some (2, 1) ∧
    ∃ ss, driveFresh (watched slowHost) twoAtOnce (watchedSend send) busy ([], []) =
        (o.1, o.2, journal twoAtOnce ss) ∧
      Retrial twoAtOnce busy ss o.1 ∧
      ∀ x ∈ ss, ∃ t, (send x.sent t).1 = x.outcome ∧
        Reports slowHost twoAtOnce .batchWriteItem (writeCall [] x.sent.requests) t x.outcome := by
  intro send busy o
  have hsend : IsBatchSend slowHost twoAtOnce .batchWriteItem (fun c => writeCall [] c.requests) send :=
    .writes []
  have hclient (request : Entries) (t : List Pending) (g : Failure)
      (h : (slowHost.send .batchWriteItem request t).1 = .error g) :
      Gateway.isRetryable g = false := by
    unfold slowHost at h
    dsimp only at h
    split at h
    · cases h
    · split at h
      · cases h
        rfl
      · split at h
        · cases h
          rfl
        · cases h
  exact ⟨hsend, hclient, by decide +kernel, chunk_retried hsend hclient 0 (mixedPending.take 2) []⟩

end ItemStore.Batch
