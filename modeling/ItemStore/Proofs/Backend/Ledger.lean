import ItemStore.Proofs.Backend.Scripted
import ItemStore.Proofs.Failure.Refusal

/-
  What was sent. A ledger of a host lists the requests that its client was given, in order: a request is
  entered when it is sent, and nothing else that a store asks of the host enters one. The client fails
  with nothing but failures of a client; its answers, the callables and the session are left open.

  Main statements: `send_keepsTo` and `scriptedLedger`.
-/

namespace ItemStore

variable {σ : Type}

/-- A host keeps an invariant, whatever it is asked but to hand something over. A failure of its client
    satisfies `Q` as it is reported; nothing is known of its other failures. -/
structure Host.Keeps (host : Host σ) (I : σ → Prop) (Q : Failure → Prop) : Prop where
  connects : ∀ session client, Run.Keeps I (fun _ => True) (fun _ => True)
    (host.connect session client)
  sends : ∀ method request, Run.Keeps I (fun _ => True) (fun f => Q (Gateway.report method request f))
    (host.send method request)
  pauses : ∀ seconds s, I s → I (host.pause seconds s).2
  calls : ∀ name id arguments, Run.Keeps I (fun _ => True) (fun _ => True)
    (host.call name id arguments)
  visits : ∀ name id page, Run.Keeps I (fun _ => True) (fun _ => True) (host.visit name id page)

namespace Gateway

/-- A host that keeps a ledger of what was sent, as long as it is ready. -/
structure Ledger (host : Host σ) where
  isReady : σ → Prop
  sent : σ → List (Method × Entries)
  connects : ∀ d session client, Run.Keeps (fun s => isReady s ∧ sent s = d) (fun _ => True)
    (fun _ => True) (host.connect session client)
  sends : ∀ d method request s, isReady s ∧ sent s = d →
    isReady (host.send method request s).2 ∧
      sent (host.send method request s).2 = d ++ [(method, request)]
  fails : ∀ method request s, isReady s → Ends (fun _ => True) (fun f => ∃ fault, f = .client fault)
    (host.send method request s).1
  pauses : ∀ d seconds s, isReady s ∧ sent s = d →
    isReady (host.pause seconds s).2 ∧ sent (host.pause seconds s).2 = d
  calls : ∀ d name id arguments, Run.Keeps (fun s => isReady s ∧ sent s = d) (fun _ => True)
    (fun _ => True) (host.call name id arguments)
  visits : ∀ d name id page, Run.Keeps (fun s => isReady s ∧ sent s = d) (fun _ => True)
    (fun _ => True) (host.visit name id page)
  delivers : ∀ d error result, Run.Keeps (fun s => isReady s ∧ sent s = d) (fun _ => True)
    (fun _ => True) (host.deliver error result)

namespace Ledger

variable {host : Host σ}

/-- A ready state in which this was sent. -/
abbrev At (l : Ledger host) (d : List (Method × Entries)) (s : σ) : Prop := l.isReady s ∧ l.sent s = d

/-- What leaves the ledger as it is leaves the host ready. -/
theorem ready_of_at (l : Ledger host) {α : Type} {P : α → Prop} {Q : Failure → Prop} {r : Run σ α}
    (h : ∀ d, Run.Keeps (l.At d) P Q r) : Run.Keeps l.isReady P Q r :=
  fun s hs => ⟨((h (l.sent s)) s ⟨hs, rfl⟩).1.1, ((h (l.sent s)) s ⟨hs, rfl⟩).2⟩

/-- A host that is ready stays so, and no failure of its client blames the call. -/
theorem keeps (l : Ledger host) : host.Keeps l.isReady Failure.IsNoRefusal where
  connects session client := l.ready_of_at fun d => l.connects d session client
  sends method request s hs :=
    ⟨(l.sends (l.sent s) method request s ⟨hs, rfl⟩).1,
      (l.fails method request s hs).mono (fun _ h => h) fun f hf => by
        obtain ⟨fault, rfl⟩ := hf
        exact isRefusal_report method request fault⟩
  pauses seconds s hs := (l.pauses (l.sent s) seconds s ⟨hs, rfl⟩).1
  calls name id arguments := l.ready_of_at fun d => l.calls d name id arguments
  visits name id page := l.ready_of_at fun d => l.visits d name id page

end Ledger

/-! ## Requests -/

section

variable {host : Host σ} {I : σ → Prop} {Q : Failure → Prop} (h : host.Keeps I Q)
  (hQ : ∀ f : Failure, f.IsNoRefusal → Q f)

include h hQ

theorem connected_keepsTo (settings : Settings) :
    Run.Keeps I (fun _ => True) Q (ensureConnected host settings) := by
  unfold ensureConnected
  refine Run.Keeps.bind (P := fun _ => True) (fun s hs => ⟨hs, trivial⟩) fun s _ => ?_
  split
  · exact Run.Keeps.pure trivial
  · exact (h.connects _ _).mapFailure fun f _ => hQ _ (isRefusal_connectionFailure f)

/-- Whatever comes of a request, the invariant is kept. -/
theorem send_keepsTo (settings : Settings) (method : Method) (request : Entries) :
    Run.Keeps I (fun _ => True) Q (send host settings method request) := by
  unfold send
  refine (connected_keepsTo h hQ settings).bind fun _ _ => ?_
  exact ((h.sends method request).mapFailure fun f hf => hf).bind fun _ _ => Run.Keeps.pure trivial

end

/-! ## The host in memory -/

/-- Running a routine sends nothing. -/
theorem enter_keeps (I : MemoryHost → Prop) (hI : ∀ w runs account, I w →
      account.sent = w.account.sent → I { w with runs := runs, account := account })
    (name : String) (id : Nat) (arguments : List Value) :
    Run.Keeps I (fun _ => True) (fun _ => True) (MemoryHost.enter name id arguments) :=
  fun w hw => ⟨hI w _ _ hw rfl, trivial⟩

/-- The host in memory with plain scripts keeps a ledger. -/
def scriptedLedger {scripts : List (Method × Script)} (h : arePlain scripts = true) :
    Ledger MemoryHost.host where
  isReady w := w.service = .scripted scripts
  sent w := w.account.sent.reverse
  connects d session client w hw := by
    rw [show MemoryHost.host.connect = MemoryHost.connect from rfl, MemoryHost.connect_apply]
    split <;> exact ⟨hw, trivial⟩
  sends d method request w hw := by
    obtain ⟨hservice, hsent⟩ := hw
    rw [show MemoryHost.host.send = MemoryHost.send from rfl, MemoryHost.send_apply, hservice]
    refine ⟨rfl, ?_⟩
    show ((method, request) :: w.account.sent).reverse = d ++ [(method, request)]
    rw [List.reverse_cons, hsent]
  fails method request w hw := by
    rw [show MemoryHost.host.send = MemoryHost.send from rfl, MemoryHost.send_apply, hw]
    refine (ends_of_isPlainAnswer (isPlainAnswer_scripted h method _)).mono
      (fun _ _ => trivial) fun f hf => ?_
    obtain ⟨fault, hfault, -⟩ := hf
    exact ⟨fault, hfault⟩
  pauses d seconds w hw := hw
  calls d name id arguments := by
    refine (enter_keeps _ (fun w runs account hw hsent => ?_) name id arguments).bind fun r _ => ?_
    · exact ⟨hw.1, by rw [← hw.2, hsent]⟩
    · split
      · exact Run.Keeps.lift (Ends.of_true _)
      · exact Run.Keeps.fail trivial
  visits d name id page := by
    refine (enter_keeps _ (fun w runs account hw hsent => ?_) name id [page]).bind fun r _ => ?_
    · exact ⟨hw.1, by rw [← hw.2, hsent]⟩
    · split
      · exact Run.Keeps.lift (Ends.of_true _)
      · exact Run.Keeps.fail trivial
  delivers d error result w hw := ⟨hw, trivial⟩

end Gateway

end ItemStore
