import ItemStore.Proofs.Failure.Own
import ItemStore.Proofs.Store.Refusal
import ItemStore.Proofs.Value.Comparison

/-
  Two styles of calling an operation. A call without a callback returns its result or raises its failure.
  With a callback the same call is made first, and what came of it is then handed over: a result, or a
  failure of the store that has a text, in the place of which a veto hands over the validator's own
  object. Whatever the callback does, it is called once, and its own failure is raised.

  A failure that has no text is the exception. Its text is written down before it is handed over, which
  is a mishap, so the callback is not called (`callWith_wordless`).

  Nothing that a call does hands anything over by itself: the invariant of the host that shows it is
  carried through the whole of a call (`invoke_keepsTo`). The same lemma says which failures a call may
  end with, so that the error that is handed over is never null unless a callable or the client of the
  host raises a veto without an object that vetoes.

  Main statement: `styles_agree`.
-/

namespace ItemStore

variable {σ : Type} {host : Host σ}

/-! ## Details -/

namespace Failure

/-- Whether a detail of a name is recorded. -/
def records (name : String) (details : Entries) : Bool := (Value.find? (.text name) details).isSome

theorem records_eq (name : String) (details : Entries) :
    records name details = details.any fun d => d.1.textual? == some name := by
  unfold records Value.find?
  rw [Option.isSome_map, List.isSome_find?]
  simp only [Value.eqv_of_textual (v := .text name) rfl]

theorem records_joinDetails_singleton (name : String) (details : Entries) (d : Value × Value) :
    records name (joinDetails details [d]) =
      (records name details || d.1.textual? == some name) := by
  have hjoin : joinDetails details [d] =
      if (Value.find? d.1 details).isSome then details else details ++ [d] := rfl
  rw [hjoin]
  split
  · next hfound =>
    -- what stands in the way of a detail of this name has the same name
    cases hname : d.1.textual? == some name with
    | false => rw [Bool.or_false]
    | true =>
      unfold Value.find? at hfound
      rw [Option.isSome_map, List.isSome_find?] at hfound
      simp only [Value.eqv_of_textual (eq_of_beq hname)] at hfound
      rw [records_eq, hfound]
      rfl
  · rw [records_eq, records_eq, List.any_append, List.any_cons, List.any_nil, Bool.or_false]

/-- A detail is recorded after joining some if it was recorded before, or is among them. -/
theorem records_joinDetails (name : String) (details more : Entries) :
    records name (joinDetails details more) = (records name details || records name more) := by
  induction more generalizing details with
  | nil => exact (Bool.or_false _).symm
  | cons d more ih =>
    rw [← List.singleton_append, joinDetails_append, ih, records_joinDetails_singleton,
      records_eq name ([d] ++ more), List.singleton_append, List.any_cons, ← records_eq,
      Bool.or_assoc]

/-- A detail is added behind the others, unless one of its name is recorded. -/
theorem context_addDetail {f : Failure} (h : f.isStore = true) (name : String) (v : Value) :
    (f.addDetail (.text name) v).context =
      if records name f.context then f.context else f.context ++ [(.text name, v)] := by
  cases f with
  | store fault underlying added =>
    have hjoin (details : Entries) : joinDetails details [(.text name, v)] =
        if records name details then details else details ++ [(.text name, v)] := rfl
    unfold addDetail context
    dsimp only
    rw [hjoin added]
    cases hadded : records name added with
    | true =>
      rw [if_pos rfl, if_pos]
      rw [records_joinDetails, hadded, Bool.or_true]
    | false => rw [if_neg Bool.false_ne_true, joinDetails_append, hjoin]
  | _ => cases h

end Failure

namespace Store

/-! ## What a call keeps -/

/-- A call keeps what its host keeps. It ends with a failure that is reported for the client, one of a
    callable that is run in the preparation, or one of the store that is no veto without cause. -/
theorem invoke_keepsTo {I : σ → Prop} {Q : Failure → Prop} (h : host.Keeps I Q)
    (hcalls : ∀ name id arguments, Run.Keeps I (fun _ => True) Q (host.call name id arguments))
    (hQ : ∀ f : Failure, f.IsDue → Q f) (s : Store) (op : Operation) (payload : Value) :
    Run.Keeps I (fun _ => True) Q (invoke host s op payload) := by
  rw [invoke_eq]
  refine (prepare_keeps hQ hcalls s op payload).bind fun p _ => ?_
  obtain ⟨f, hveto, hf⟩ | hkeeps := Execute.execute_cases h (fun f hf => hQ f hf.isNoVeto.isDue)
    s.settings p.table p.request op p.options
  · rw [hf]
    exact Run.Keeps.fail (hQ f hveto.isDue)
  · exact hkeeps

theorem call_keepsTo {I : σ → Prop} {Q : Failure → Prop} (h : host.Keeps I Q)
    (hcalls : ∀ name id arguments, Run.Keeps I (fun _ => True) Q (host.call name id arguments))
    (hQ : ∀ f : Failure, f.IsDue → Q f) (hadd : ∀ f key v, Q f → Q (f.addDetail key v)) (s : Store)
    (op : Operation) (payload : Value) :
    Run.Keeps I (fun _ => True) Q (call host s op payload) :=
  (invoke_keepsTo h hcalls hQ s op payload).mapFailure fun f hf => hadd f _ _ hf

/-- A host whose client and callables raise no veto but with an object that vetoes. -/
structure RaisesDue (host : Host σ) : Prop where
  sends : ∀ method request s, Ends (fun _ => True) (fun f => (Gateway.report method request f).IsDue)
    (host.send method request s).1
  calls : ∀ name id arguments s, Ends (fun _ => True) Failure.IsDue (host.call name id arguments s).1

/-- With such a host a call ends with no other veto either. -/
theorem call_due (h : RaisesDue host) (s : Store) (op : Operation) (payload : Value) (w : σ) :
    Ends (fun _ => True) Failure.IsDue (call host s op payload w).1 := by
  have hkeeps : host.Keeps (fun _ => True) Failure.IsDue :=
    ⟨fun _ _ _ _ => ⟨trivial, Ends.of_true _⟩, fun m r s _ => ⟨trivial, h.sends m r s⟩,
      fun _ _ _ => trivial, fun _ _ _ _ _ => ⟨trivial, Ends.of_true _⟩,
      fun _ _ _ _ _ => ⟨trivial, Ends.of_true _⟩⟩
  refine (call_keepsTo hkeeps (fun name id as s _ => ⟨trivial, h.calls name id as s⟩)
    (fun _ hf => hf) (fun f key v hf => ?_) s op payload w trivial).2
  unfold Failure.IsDue
  rwa [Failure.vetoed?_addDetail]

/-! ## Handing over -/

/-- A look at what a host was asked: the requests that its client was given, and what was handed over to
    the caller's callback. Nothing else hands anything over; what is handed over is seen once, whatever
    comes of it. -/
structure Observer (host : Host σ) where
  sent : σ → List (Method × Entries)
  handed : σ → List (Report × Value)
  keeps : ∀ d, host.Keeps (fun s => handed s = d) fun _ => True
  delivers : ∀ error result s, handed (host.deliver error result s).2 = handed s ++ [(error, result)]
  silent : ∀ error result s, sent (host.deliver error result s).2 = sent s

/-- An error and a result handed over: null, or the failure of the callback. -/
def handOver (host : Host σ) (error : Report) (result : Value) (s : σ) : Except Failure Value × σ :=
  ((host.deliver error result s).1.map fun _ => .null, (host.deliver error result s).2)

theorem deliver_bind (host : Host σ) (error : Report) (result : Value) (s : σ) :
    (host.deliver error result >>= fun _ => pure .null : Run σ Value) s =
      handOver host error result s := by
  unfold handOver
  rw [Run.bind_apply]
  rcases host.deliver error result s with ⟨f | ⟨⟩, t⟩ <;> rfl

theorem callWith_of_ok {s : Store} {op : Operation} {payload result : Value} {w t : σ}
    (h : call host s op payload w = (.ok result, t)) :
    callWith host s op payload w = handOver host .none result t := by
  unfold callWith
  rw [Run.bind_apply, Run.outcome_apply, h]
  exact deliver_bind host .none result t

/-- A failure of the store that has a text is handed over. -/
theorem callWith_of_own {s : Store} {op : Operation} {payload : Value} {f : Failure} {w t : σ}
    (h : call host s op payload w = (.error f, t)) (hf : f.IsOwn) :
    callWith host s op payload w = handOver host (reportOf f) .null t := by
  unfold callWith
  rw [Run.bind_apply, Run.outcome_apply, h]
  dsimp only
  rw [hf.1, Failure.unworded?_of_hasText hf.2]
  exact deliver_bind host (reportOf f) .null t

/-- What is raised in the place of a failure that is not handed over: the mishap of writing its text, if it
    is one of the store. -/
def unhanded (f : Failure) : Failure := if f.isStore then f.unworded?.elim f .mishap else f

/-- Any other failure is raised, or the mishap of one that has no text. -/
theorem callWith_of_not_own {s : Store} {op : Operation} {payload : Value} {f : Failure} {w t : σ}
    (h : call host s op payload w = (.error f, t)) (hf : ¬ f.IsOwn) :
    callWith host s op payload w = (.error (unhanded f), t) := by
  unfold callWith
  rw [Run.bind_apply, Run.outcome_apply, h]
  dsimp only
  unfold unhanded
  cases hstore : f.isStore with
  | false => rfl
  | true =>
    cases hunworded : f.unworded? with
    | some m => rfl
    | none => exact absurd ⟨hstore, Option.isNone_iff_eq_none.2 hunworded⟩ hf

/-- What is handed over in the place of a failure. -/
theorem reportOf_eq (f : Failure) : reportOf f = match f.vetoed? with
    | some v => .value v
    | none => .failure f := by
  cases f with
  | store fault underlying added => cases fault <;> rfl
  | _ => rfl

/-- A veto with an object that vetoes is no null. -/
theorem reportOf_ne_null {f : Failure} (h : f.IsDue) :
    reportOf f ≠ .none ∧ reportOf f ≠ .value .null := by
  rw [reportOf_eq]
  cases hveto : f.vetoed? with
  | none => exact ⟨nofun, nofun⟩
  | some v =>
    refine ⟨nofun, fun heq => ?_⟩
    cases heq
    exact absurd (h .null hveto) Bool.false_ne_true

/-- How calls of an operation with a callback and without one go together, from the same state. -/
structure StylesAgree (o : Observer host) (s : Store) (op : Operation) (payload : Value) (w : σ) :
    Prop where
  /-- the client is given the same requests -/
  sent : o.sent (callWith host s op payload w).2 = o.sent (call host s op payload w).2
  /-- a result is handed over in the state in which it is returned, and what comes of that is all that
      is left: null, or the failure of the callback -/
  result : ∀ r t, call host s op payload w = (.ok r, t) →
    callWith host s op payload w = handOver host .none r t ∧
      o.handed (callWith host s op payload w).2 = o.handed w ++ [(.none, r)]
  /-- so is a failure of the store that has a text, or the object of the validator in its place -/
  failure : ∀ f t, call host s op payload w = (.error f, t) → f.IsOwn →
    callWith host s op payload w = handOver host (reportOf f) .null t ∧
      o.handed (callWith host s op payload w).2 = o.handed w ++ [(reportOf f, .null)]
  /-- any other failure is raised, one of the store without a text as a mishap -/
  foreign : ∀ f t, call host s op payload w = (.error f, t) → ¬ f.IsOwn →
    callWith host s op payload w = (.error (unhanded f), t) ∧
      o.handed (callWith host s op payload w).2 = o.handed w
  /-- the failure has the details that it came with, and the name of the operation if there was none -/
  context : ∀ f t, call host s op payload w = (.error f, t) → f.isStore = true →
    ∃ g, invoke host s op payload w = (.error g, t) ∧ f.context =
      if Failure.records "operation" g.context then g.context
      else g.context ++ [(.text "operation", .text op.name)]
  /-- the error of a failure is not null, if no veto is raised but with an object that vetoes -/
  present : RaisesDue host → ∀ f t, call host s op payload w = (.error f, t) →
    reportOf f ≠ .none ∧ reportOf f ≠ .value .null

/-- The two styles of a call agree, whatever it comes to and whatever the callback does, except for a
    failure of the store that has no text. -/
theorem styles_agree (o : Observer host) (s : Store) (op : Operation) (payload : Value) (w : σ) :
    StylesAgree o s op payload w := by
  have hcall : o.handed (call host s op payload w).2 = o.handed w :=
    (call_keepsTo (o.keeps (o.handed w)) (fun name id as t ht =>
      ⟨((o.keeps (o.handed w)).calls name id as t ht).1, Ends.of_true _⟩) (fun _ _ => trivial)
      (fun _ _ _ _ => trivial) s op payload w rfl).1
  have hover (error : Report) (result : Value) {t : σ} (ht : (call host s op payload w).2 = t) :
      o.handed (handOver host error result t).2 = o.handed w ++ [(error, result)] := by
    rw [← hcall, ht]
    exact o.delivers error result t
  constructor
  · rcases hout : call host s op payload w with ⟨f | r, t⟩
    · by_cases hf : f.IsOwn
      · rw [callWith_of_own hout hf]
        exact o.silent _ _ t
      · rw [callWith_of_not_own hout hf]
    · rw [callWith_of_ok hout]
      exact o.silent _ _ t
  · intro r t hout
    rw [callWith_of_ok hout]
    exact ⟨rfl, hover _ _ (by rw [hout])⟩
  · intro f t hout hf
    rw [callWith_of_own hout hf]
    exact ⟨rfl, hover _ _ (by rw [hout])⟩
  · intro f t hout hf
    rw [callWith_of_not_own hout hf]
    refine ⟨rfl, ?_⟩
    rw [← hcall, hout]
  · intro f t hout hstore
    rw [call_apply] at hout
    rcases hinvoke : invoke host s op payload w with ⟨g | r, t'⟩
    · rw [hinvoke] at hout
      cases hout
      rw [Failure.isStore_addDetail] at hstore
      exact ⟨g, rfl, Failure.context_addDetail hstore _ _⟩
    · rw [hinvoke] at hout
      cases hout
  · intro hdue f t hout
    have hends := call_due hdue s op payload w
    rw [hout] at hends
    exact reportOf_ne_null hends

/-! ## Films that a validator looks at -/

/-- A look at a host in memory. -/
def memoryObserver : Observer MemoryHost.host where
  sent w := w.account.sent.reverse
  handed w := w.account.delivered.reverse
  keeps d := by
    have hentered (name : String) (id : Nat) (arguments : List Value) : Run.Keeps
        (fun w : MemoryHost => w.account.delivered.reverse = d) (fun _ => True) (fun _ => True)
        (MemoryHost.enter name id arguments) := fun w hw => ⟨hw, trivial⟩
    refine ⟨fun session client w hw => ⟨?_, Ends.of_true _⟩,
      fun method request w hw => ⟨?_, Ends.of_true _⟩, fun _ _ hw => hw,
      fun name id arguments => (hentered name id arguments).bind fun r _ => ?_,
      fun name id page => (hentered name id [page]).bind fun r _ => ?_⟩
    · rw [show MemoryHost.host.connect = MemoryHost.connect from rfl, MemoryHost.connect_apply]
      split <;> exact hw
    · rw [show MemoryHost.host.send = MemoryHost.send from rfl, MemoryHost.send_apply]
      exact hw
    · split
      · exact Run.Keeps.lift (Ends.of_true _)
      · exact Run.Keeps.fail trivial
    · split
      · exact Run.Keeps.lift (Ends.of_true _)
      · exact Run.Keeps.fail trivial
  delivers error result w := List.reverse_cons
  silent _ _ _ := rfl

/-- An operation that puts a film if a validator lets it pass. -/
def putChecked : Operation :=
  ⟨"putChecked", .put, ⟨[("Item", .ref "film")]⟩, some (.hosted "const" 0), none⟩

/-- A store with this operation. -/
def checkedStore : Store := ⟨⟨.fixed "films", [putChecked]⟩, Settings.defaults [] .byField⟩

/-- A film to put. -/
def checkedFilm : Value := .object [("film", .object [("year", .int 2013)])]

/-- An object that vetoes with a message. -/
def vetoWith (message : Value) : Value := .object [("failed", .bool true), ("message", message)]

/-- A host whose validator answers with an object. -/
def checkingHost (verdict : Value) : MemoryHost :=
  .start (.scripted []) [(0, .constant verdict)] .established

/-- A film that is put, and one that is vetoed: the callback is given the object that vetoes. -/
theorem styles_agree_film :
    StylesAgree memoryObserver checkedStore putChecked checkedFilm (checkingHost .null) ∧
    memoryObserver.handed (callWith MemoryHost.host checkedStore putChecked checkedFilm
      (checkingHost .null)).2 = [(.none, .object [("year", .int 2013)])] ∧
    StylesAgree memoryObserver checkedStore putChecked checkedFilm
      (checkingHost (vetoWith (.text "too old"))) ∧
    memoryObserver.handed (callWith MemoryHost.host checkedStore putChecked checkedFilm
      (checkingHost (vetoWith (.text "too old")))).2 =
        [(.value (vetoWith (.text "too old")), .null)] :=
  ⟨styles_agree .., rfl, styles_agree .., by with_unfolding_all rfl⟩

/-- A veto whose message has no text: without a callback the call fails with a failure of the store;
    with one it fails with a mishap, and the callback is not called. -/
theorem callWith_wordless :
    (∃ f, (call MemoryHost.host checkedStore putChecked checkedFilm
        (checkingHost (vetoWith (.blob .wrapped [0])))).1 = .error f ∧ f.isStore = true ∧
      f.vetoed? = some (vetoWith (.blob .wrapped [0]))) ∧
    (callWith MemoryHost.host checkedStore putChecked checkedFilm
      (checkingHost (vetoWith (.blob .wrapped [0])))).1 = .error (.mishap (.sort none)) ∧
    (callWith MemoryHost.host checkedStore putChecked checkedFilm
      (checkingHost (vetoWith (.blob .wrapped [0])))).2.account.delivered = [] :=
  ⟨⟨_, rfl, rfl, rfl⟩, by with_unfolding_all exact ⟨rfl, rfl⟩⟩

end Store

end ItemStore
