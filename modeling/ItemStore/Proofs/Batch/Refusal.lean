import ItemStore.Proofs.Backend.Ledger
import ItemStore.Proofs.Batch.Service
import ItemStore.Proofs.Batch.SoundGet
import ItemStore.Proofs.Wire.Refused

/-
  Refused batches. A batch is read, and everything in it marshalled, before its first chunk is sent:
  a request that holds something without a form anywhere, be it in the last entry of the last table,
  fails without an effect. Once chunks are sent, no failure but one of a send can blame the call.

  Main statements: `writeBy_refused`, `getBy_refused`, `write_cases` and `get_cases`.
-/

namespace ItemStore.Batch

variable {σ : Type}

/-! ## Driving -/

section

variable {I : σ → Prop} {Q : Failure → Prop} (hQ : ∀ f : Failure, f.IsNoRefusal → Q f)

include hQ

theorem settle_keepsTo (p : Progress) {o : Except Failure Reply} (h : Ends (fun _ => True) Q o) :
    Ends (fun _ => True) Q (settle p o) := by
  cases o with
  | error f =>
    unfold settle
    dsimp only
    split
    · trivial
    · exact h
  | ok reply =>
    unfold settle
    dsimp only
    cases retain reply.unprocessed p.chunk.requests with
    | error m => exact hQ _ rfl
    | ok left => trivial

variable {host : Host σ} {settings : Settings} {send : Chunk → Run σ Reply}

theorem attempt_keepsTo (hsend : ∀ c, Run.Keeps I (fun _ => True) Q (send c)) (p : Progress) :
    Run.Keeps I (fun _ => True) Q (attempt send p) := by
  unfold attempt
  split
  · exact Run.Keeps.pure trivial
  · exact (hsend p.chunk).outcome.bind fun o ho => Run.Keeps.lift (settle_keepsTo hQ p ho)

theorem backoff_keepsTo (hpauses : ∀ seconds s, I s → I (host.pause seconds s).2) (c : Chunk) :
    Run.Keeps I (fun _ => True) Q (backoff host settings c) := by
  unfold backoff
  refine (Run.Keeps.lift (P := fun _ => True) ?_).bind fun seconds _ => ?_
  · exact (Ends.of_true _).mapError fun m _ => hQ _ rfl
  · exact Run.Keeps.bind (P := fun _ => True) (fun s hs => ⟨hpauses seconds s hs, trivial⟩)
      fun _ _ => Run.Keeps.pure trivial

theorem drive_keepsTo (hsend : ∀ c, Run.Keeps I (fun _ => True) Q (send c))
    (hpauses : ∀ seconds s, I s → I (host.pause seconds s).2) (budget : Nat) (p : Progress) :
    Run.Keeps I (fun _ => True) Q (drive host settings send budget p) := by
  induction budget generalizing p with
  | zero => exact attempt_keepsTo hQ hsend p
  | succ budget ih =>
    rw [drive]
    refine (attempt_keepsTo hQ hsend p).bind fun p' _ => ?_
    split
    · exact Run.Keeps.pure trivial
    · exact (backoff_keepsTo hQ hpauses p'.chunk).bind fun c _ => ih _

/-- The chunks end with nothing but failures of their sends, and failures that do not blame the call. -/
theorem driveEach_keepsTo (hsend : ∀ c, Run.Keeps I (fun _ => True) Q (send c))
    (hpauses : ∀ seconds s, I s → I (host.pause seconds s).2) (cs : List Chunk) :
    Run.Keeps I (fun os => ∀ o ∈ os, Ends (fun _ => True) Q o) Q
      (driveEach host settings send cs) := by
  induction cs with
  | nil => exact Run.Keeps.pure fun o ho => absurd ho List.not_mem_nil
  | cons c cs ih =>
    rw [driveEach]
    refine (drive_keepsTo hQ hsend hpauses _ _).outcome.bind fun o ho => ih.bind fun os hos => ?_
    exact Run.Keeps.pure (List.forall_mem_cons.2 ⟨ho, hos⟩)

omit hQ in
theorem leftOver_noRefusal (method : Method) {native : Value → Except Failure Value}
    (hnative : ∀ v, Ends (fun _ => True) Failure.IsNoRefusal (native v)) (ps : List Progress) :
    Ends (fun o => ∀ f ∈ o, f.IsNoRefusal) Failure.IsNoRefusal
      (leftOver method settings native ps) := by
  have hnatives : Ends (fun _ => True) Failure.IsNoRefusal
      (eachSecond native (ps.flatMap fun p => p.chunk.requests)) :=
    (Ends.eachSecond (R := fun _ => True) fun r _ => hnative r.2).weaken
  unfold leftOver
  split
  · rename_i e he
    rw [he] at hnatives
    exact hnatives
  · exact fun f hf => nomatch hf
  · intro f hf
    rw [← Option.mem_some.1 hf]
    exact Failure.isRefusal_exhausted _ _ _ _

/-- Requests are driven out, or fail as a send does or with what does not blame the call. -/
theorem driveOut_keepsTo (hsend : ∀ c, Run.Keeps I (fun _ => True) Q (send c))
    (hpauses : ∀ seconds s, I s → I (host.pause seconds s).2) (method : Method)
    {native : Value → Except Failure Value}
    (hnative : ∀ v, Ends (fun _ => True) Failure.IsNoRefusal (native v)) (limit : Int)
    (pending : List Pending) :
    Run.Keeps I (fun _ => True) Q
      (driveOut (driveEach host settings) settings method native send limit pending) := by
  have hall : Run.Keeps I (fun _ => True) Q (driveAll (driveEach host settings) send limit pending) := by
    unfold driveAll
    refine (driveEach_keepsTo hQ hsend hpauses _).bind fun os hos => ?_
    exact Run.Keeps.lift (Ends.eachOf (f := id) hos).weaken
  unfold driveOut
  refine hall.bind fun ps _ => ?_
  refine (Run.Keeps.lift ((leftOver_noRefusal method hnative ps).mono (fun _ h => h) hQ)).bind
    fun o ho => ?_
  cases o with
  | none => exact Run.Keeps.pure trivial
  | some f => exact Run.Keeps.fail (hQ f (ho f rfl))

end

/-! ## What is asked of tables -/

theorem requestItems_unsendable (request : Entries) :
    Ends (fun _ => True) Failure.IsUnsendable (requestItems request) := by
  unfold requestItems
  dsimp only
  split
  · trivial
  · split <;> trivial

/-! ## Writes -/

theorem mishap_noRefusal {α : Type} (x : Except Mishap α) :
    Ends (fun _ => True) Failure.IsNoRefusal (x.mapError .mishap) :=
  (Ends.of_true x).mapError fun _ _ => rfl

theorem decodeWrite_noRefusal (request : Value) :
    Ends (fun _ => True) Failure.IsNoRefusal (decodeWrite request) := by
  have hrequest (kind part : String) (body : Value) :
      Ends (fun _ => True) Failure.IsNoRefusal (decodeRequest kind part body) := by
    unfold decodeRequest
    split
    · exact rfl
    · exact (Wire.unmarshalItem_noRefusal _).map fun _ _ => trivial
  unfold decodeWrite
  split
  · exact hrequest _ _ _
  · exact hrequest _ _ _
  · exact rfl

/-- Requests whose part cannot be sent are refused, unless they cannot be printed. -/
theorem encodeRequest_fails (kind : String) {part : String} {body : Value}
    (h : (body.get? part).isSome = true) :
    Ends (fun _ => True) (Failure.IsUnsendableOrLong body) (encodeRequest kind part body) := by
  obtain ⟨v, hget, hv⟩ := exists_member h
  unfold encodeRequest
  rw [hv]
  refine (Ends.mono (Wire.marshalItem_unsendable v) (fun _ h => h) fun f hf => ?_).map fun _ _ => trivial
  exact hf.within fun hprintable => Value.isPrintable_of_get? hprintable hget

/-- The mishap of an entry that lacks its part, or cannot be printed. -/
def IsLapse (m : Mishap) (entry : Value) : Prop :=
  hasPart entry = false ∨ m = .tooLong ∧ entry.isPrintable = false

/-- An entry that cannot be sent is refused, unless it lacks its part or cannot be printed. -/
theorem encodeWrite_fails (entry : Value) : Ends (fun _ => True)
    (fun f => f.IsUnsendable ∨ ∃ m, f = .mishap m ∧ IsLapse m entry) (encodeWrite entry) := by
  cases hpart : hasPart entry with
  | false =>
    obtain ⟨m, hm⟩ := encodeWrite_partless hpart
    rw [hm]
    exact .inr ⟨m, rfl, .inl hpart⟩
  | true =>
    refine Ends.mono (Q := Failure.IsUnsendableOrLong entry) ?_ (fun _ h => h) fun f hf =>
      hf.imp_right fun ⟨hlong, hentry⟩ => ⟨_, hlong, .inr ⟨rfl, hentry⟩⟩
    unfold hasPart at hpart
    unfold encodeWrite
    cases hput : entry.get? "PutRequest" with
    | some body =>
      rw [hput] at hpart
      exact (encodeRequest_fails _ hpart).mono (fun _ h => h) fun f hf =>
        hf.within fun hprintable => Value.isPrintable_of_get? hprintable hput
    | none =>
      cases hdelete : entry.get? "DeleteRequest" with
      | some body =>
        rw [hput, hdelete] at hpart
        exact (encodeRequest_fails _ hpart).mono (fun _ h => h) fun f hf =>
          hf.within fun hprintable => Value.isPrintable_of_get? hprintable hdelete
      | none =>
        show Failure.IsUnsendableOrLong entry (entryRefused entry)
        unfold entryRefused
        cases hprintable : entry.isPrintable with
        | true =>
          rw [Value.printing_of_isPrintable hprintable]
          exact .inl trivial
        | false =>
          rw [Value.printing_of_not_isPrintable hprintable]
          exact .inr ⟨rfl, hprintable⟩

/-- A table or an entry for which a request is not refused, but fails with a mishap. -/
def HasLapse (m : Mishap) (items : Entries) : Prop :=
  ∃ e ∈ items, (e.2.sequence? = none ∧ e.1.hasText = false) ∨
    ∃ entry ∈ e.2.sequence?.getD [], IsLapse m entry

/-- A table that asks for something else is refused if it can be named. -/
theorem tableRefused_cases (table : Value) (message : String) :
    (tableRefused table message).IsUnsendable ∨
      ∃ m, tableRefused table message = .mishap m ∧ table.hasText = false := by
  unfold tableRefused
  cases htext : table.hasText with
  | true =>
    rw [Value.showing_of_hasText htext]
    exact .inl trivial
  | false =>
    cases hshowing : table.showing with
    | ok name => exact .inl trivial
    | error m => exact .inr ⟨m, rfl, rfl⟩

/-- What cannot be sent is refused, or there is a lapse. -/
theorem pendingWrites_fails (items : Entries) : Ends (fun _ => True)
    (fun f => f.IsUnsendable ∨ ∃ m, f = .mishap m ∧ HasLapse m items) (pendingWrites items) := by
  refine (Ends.eachOf (R := fun _ => True) fun e he => ?_).map fun _ _ => trivial
  unfold tableWrites
  cases hentries : e.2.sequence? with
  | none =>
    exact (tableRefused_cases _ _).imp_right fun ⟨m, hm, htext⟩ => ⟨m, hm, e, he, .inl ⟨hentries, htext⟩⟩
  | some entries =>
    refine (Ends.eachOf (R := fun _ => True) fun entry hentry => ?_).map fun _ _ => trivial
    refine (encodeWrite_fails entry).mono (fun _ h => h) fun f hf => hf.imp_right ?_
    rintro ⟨m, hm, hlapse⟩
    exact ⟨m, hm, e, he, .inr ⟨entry, by rwa [hentries], hlapse⟩⟩

/-- The item or key that an entry of a batch write holds, if it holds one. -/
def bodyOf (entry : Value) : Option Value :=
  match entry.get? "PutRequest", entry.get? "DeleteRequest" with
  | some body, _ => body.get? "Item"
  | none, some body => body.get? "Key"
  | none, none => none

/-- The items and keys that a batch write holds, of all entries of all tables. -/
def bodiesOf (request : Entries) : List Value :=
  match requestItems request with
  | .ok items => items.flatMap fun e => (e.2.sequence?.getD []).filterMap bodyOf
  | .error _ => []

theorem member_of_get? {name : String} {v w : Value} (h : v.get? name = some w) :
    member name v = .ok w := by
  cases v with
  | map es =>
    unfold member
    dsimp only
    rw [show Value.lookup name es = some w from h]
  | _ => cases h

theorem encodeRequest_refused {kind part : String} {body v : Value} (hv : body.get? part = some v)
    (h : Wire.IsRefused v) : ∃ f, encodeRequest kind part body = .error f := by
  unfold encodeRequest
  rw [member_of_get? hv]
  exact (exists_map_error_iff _ _).2 ((Wire.marshalItem_refused_iff v).2 h)

theorem encodeWrite_refused {entry v : Value} (hv : bodyOf entry = some v) (h : Wire.IsRefused v) :
    ∃ f, encodeWrite entry = .error f := by
  unfold bodyOf at hv
  unfold encodeWrite
  cases hput : entry.get? "PutRequest" with
  | some body =>
    rw [hput] at hv
    exact encodeRequest_refused hv h
  | none =>
    cases hdelete : entry.get? "DeleteRequest" with
    | some body =>
      rw [hput, hdelete] at hv
      exact encodeRequest_refused hv h
    | none =>
      rw [hput, hdelete] at hv
      cases hv

/-- One item or key without a form, and there are no writes to send. -/
theorem pendingWrites_refused {items : Entries} {e : Value × Value} {entries : List Value}
    {entry v : Value} (he : e ∈ items) (hentries : e.2.sequence? = some entries)
    (hentry : entry ∈ entries) (hv : bodyOf entry = some v) (h : Wire.IsRefused v) :
    ∃ f, pendingWrites items = .error f := by
  have hwrites : ∃ f, tableWrites e.1 e.2 = .error f := by
    unfold tableWrites
    rw [hentries]
    exact (exists_map_error_iff _ _).2
      ((exists_eachOf_error_iff _ _).2 ⟨entry, hentry, encodeWrite_refused hv h⟩)
  exact (exists_map_error_iff _ _).2 ((exists_eachOf_error_iff _ _).2 ⟨e, he, hwrites⟩)

/-- A batch write that holds something without a form fails without an effect. -/
theorem writeBy_refused (drives : Driver σ) (host : Host σ) (settings : Settings) {request : Entries}
    {v : Value} (hv : v ∈ bodiesOf request) (h : Wire.IsRefused v) :
    ∃ f, writeBy drives host settings request = Run.fail f := by
  unfold bodiesOf at hv
  split at hv
  · rename_i items hitems
    obtain ⟨e, he, hv⟩ := List.mem_flatMap.1 hv
    obtain ⟨entry, hentry, hbody⟩ := List.mem_filterMap.1 hv
    obtain ⟨entries, hentries⟩ : ∃ entries, e.2.sequence? = some entries := by
      cases hs : e.2.sequence? with
      | some entries => exact ⟨entries, rfl⟩
      | none => rw [hs] at hentry; cases hentry
    rw [hentries] at hentry
    obtain ⟨f, hf⟩ := pendingWrites_refused he hentries hentry hbody h
    refine ⟨f, ?_⟩
    unfold writeBy
    rw [hitems, Run.lift_ok, pure_bind, hf]
    rfl
  · cases hv

section

variable {host : Host σ} {I : σ → Prop} {Q : Failure → Prop} (h : host.Keeps I Q)
  (hQ : ∀ f : Failure, f.IsNoRefusal → Q f) (settings : Settings)

include h hQ

theorem sendWrites_keepsTo (extra : Entries) (c : Chunk) :
    Run.Keeps I (fun _ => True) Q (sendWrites host settings extra c) := by
  unfold sendWrites
  refine (Gateway.send_keepsTo h hQ settings _ _).bind fun response _ => ?_
  exact (Run.Keeps.lift ((mishap_noRefusal _).mono (fun _ h => h) hQ)).bind
    fun _ _ => Run.Keeps.pure trivial

/-- A batch write fails without an effect and without a veto, or goes on to send. -/
theorem write_cases (request : Entries) :
    (∃ f : Failure, f.IsNoVeto ∧ write host settings request = Run.fail f) ∨
      Run.Keeps I (fun _ => True) Q (write host settings request) := by
  have hitems := requestItems_unsendable request
  unfold write writeBy
  cases heq : requestItems request with
  | error f =>
    rw [heq] at hitems
    exact .inl ⟨f, hitems.isNoVeto, rfl⟩
  | ok items =>
    rw [Run.lift_ok, pure_bind]
    have hwrites := pendingWrites_fails items
    cases hpending : pendingWrites items with
    | error f =>
      rw [hpending] at hwrites
      refine .inl ⟨f, ?_, rfl⟩
      obtain hf | ⟨m, rfl, -⟩ := hwrites
      · exact hf.isNoVeto
      · rfl
    | ok pending =>
      rw [Run.lift_ok, pure_bind]
      refine .inr ?_
      split
      · exact Run.Keeps.pure trivial
      · exact (driveOut_keepsTo hQ (sendWrites_keepsTo h hQ settings _) h.pauses _
          decodeWrite_noRefusal _ _).bind fun _ _ => Run.Keeps.pure trivial

end

/-! ## Gets -/

/-- The keys that are asked of one table. -/
def keysIn (spec : Value) : List Value :=
  match spec.entries?, spec.get? "Keys" with
  | some _, some keys => (listedKeys keys).getD []
  | _, _ => []

/-- The keys that a batch get asks for, of all tables. -/
def keysOf (request : Entries) : List Value :=
  match requestItems request with
  | .ok items => items.flatMap fun e => keysIn e.2
  | .error _ => []

theorem wantedOf_refused (table : Value) {spec v : Value} (hv : v ∈ keysIn spec)
    (h : Wire.IsRefused v) : ∃ f, wantedOf table spec = .error f := by
  unfold keysIn at hv
  split at hv
  · rename_i params keys hparams hkeys
    cases hks : listedKeys keys with
    | none => rw [hks] at hv; cases hv
    | some ks =>
      rw [hks] at hv
      rw [wantedOf_eq table hparams hkeys, hks]
      dsimp only
      rw [exists_map_error_iff, exists_eachOf_error_iff]
      exact ⟨v, hv, (Wire.marshalItem_refused_iff v).2 h⟩
  · cases hv

/-- A batch get that asks for a key without a form fails without an effect. -/
theorem getBy_refused (drives : Driver σ) (host : Host σ) (settings : Settings) {request : Entries}
    {v : Value} (hv : v ∈ keysOf request) (h : Wire.IsRefused v) :
    ∃ f, getBy drives host settings request = Run.fail f := by
  unfold keysOf at hv
  split at hv
  · rename_i items hitems
    obtain ⟨e, he, hv⟩ := List.mem_flatMap.1 hv
    obtain ⟨f, hf⟩ := (exists_eachOf_error_iff (fun e : Value × Value => wantedOf e.1 e.2) items).2
      ⟨e, he, wantedOf_refused e.1 hv h⟩
    refine ⟨f, ?_⟩
    unfold getBy
    rw [hitems, Run.lift_ok, pure_bind, hf]
    rfl
  · cases hv

theorem tableRefused_noVeto (table : Value) (message : String) :
    (tableRefused table message).IsNoVeto := by
  obtain h | ⟨m, hm, -⟩ := tableRefused_cases table message
  · exact h.isNoVeto
  · rw [hm]
    rfl

theorem wantedOf_noVeto (table spec : Value) :
    Ends (fun _ => True) Failure.IsNoVeto (wantedOf table spec) := by
  unfold wantedOf
  split
  · dsimp only
    split
    · exact rfl
    · refine (Ends.eachOf (R := fun _ => True) fun v _ => ?_).map fun _ _ => trivial
      exact (Wire.marshalItem_unsendable v).mono (fun _ h => h) fun _ h => h.isNoVeto
  · exact tableRefused_noVeto _ _

theorem merge_noRefusal (found : List Pending) (wanted : Entries) :
    Ends (fun _ => True) Failure.IsNoRefusal (merge found wanted) := by
  have htable (table keys : Value) :
      Ends (fun _ => True) Failure.IsNoRefusal (mergeTable found table keys) := by
    unfold mergeTable
    split
    · exact rfl
    · exact (Ends.eachOf (R := fun _ => True) fun v _ => Wire.unmarshalItem_noRefusal v).map
        fun _ _ => trivial
  exact (Ends.eachOf (R := fun _ => True) fun w _ => (htable w.1 w.2).map fun _ _ => trivial).weaken

section

variable {host : Host σ} {I : σ → Prop} {Q : Failure → Prop} (h : host.Keeps I Q)
  (hQ : ∀ f : Failure, f.IsNoRefusal → Q f) (settings : Settings)

include h hQ

theorem sendKeys_keepsTo (wanted : List Wanted) (extra : Entries) (c : Chunk) :
    Run.Keeps I (fun _ => True) Q (sendKeys host settings wanted extra c) := by
  unfold sendKeys
  refine (Gateway.send_keepsTo h hQ settings _ _).bind fun response _ => ?_
  have hmishap (f : Failure) (hf : ∃ m, f = .mishap m) : Q f := by
    obtain ⟨m, rfl⟩ := hf
    exact hQ _ (Failure.isRefusal_mishap m)
  refine (Run.Keeps.lift ((foundItems_mishap response).mono (fun _ h => h) hmishap)).bind
    fun _ _ => ?_
  exact (Run.Keeps.lift ((unprocessedKeys_mishap response).mono (fun _ h => h) hmishap)).bind
    fun _ _ => Run.Keeps.pure trivial

/-- A batch get fails without an effect and without a veto, or goes on to send. -/
theorem get_cases (request : Entries) :
    (∃ f : Failure, f.IsNoVeto ∧ get host settings request = Run.fail f) ∨
      Run.Keeps I (fun _ => True) Q (get host settings request) := by
  have hitems := requestItems_unsendable request
  unfold get getBy
  cases heq : requestItems request with
  | error f =>
    rw [heq] at hitems
    exact .inl ⟨f, hitems.isNoVeto, rfl⟩
  | ok items =>
    rw [Run.lift_ok, pure_bind]
    have hasked : Ends (fun _ => True) Failure.IsNoVeto
        (eachOf (fun e : Value × Value => wantedOf e.1 e.2) items) :=
      (Ends.eachOf (R := fun _ => True) fun e _ => wantedOf_noVeto e.1 e.2).weaken
    cases hwanted : eachOf (fun e : Value × Value => wantedOf e.1 e.2) items with
    | error f =>
      rw [hwanted] at hasked
      exact .inl ⟨f, hasked, rfl⟩
    | ok wanted =>
      rw [Run.lift_ok, pure_bind]
      refine .inr ?_
      refine (driveOut_keepsTo hQ (sendKeys_keepsTo h hQ settings wanted _) h.pauses _
        Wire.unmarshalItem_noRefusal _ _).bind fun ps _ => ?_
      refine (Run.Keeps.lift ((merge_noRefusal _ _).mono (fun _ h => h) hQ)).bind fun merged _ => ?_
      exact (Run.Keeps.lift ((mishap_noRefusal _).mono (fun _ h => h) hQ)).bind
        fun _ _ => Run.Keeps.pure trivial

end

end ItemStore.Batch
