import ItemStore.Memory.Host
import ItemStore.Proofs.Backend.Contract

/-
  The host in memory as a backend that keeps its contract. If its scripts answer with responses and fail
  as clients do, so does the host, however often it is asked.

  Main statement: `scriptedBackend`.
-/

namespace ItemStore

/-- A request is counted and kept, and the service answers it. -/
theorem MemoryHost.send_apply (method : Method) (request : Entries) (w : MemoryHost) :
    MemoryHost.send method request w =
      ((w.service.answer method (MemoryHost.countOf method w.requests + 1) request).2,
        { w with
          service := (w.service.answer method (MemoryHost.countOf method w.requests + 1) request).1
          requests := MemoryHost.countUp method w.requests
          account := { w.account with sent := (method, request) :: w.account.sent } }) := by
  rw [← MemoryHost.countOf_countUp]
  exact Run.lift_apply (w.service.answer method (MemoryHost.countOf method (MemoryHost.countUp method w.requests)) request).2 _

/-- An attempt to connect is kept, and there is a client unless it is refused. -/
theorem MemoryHost.connect_apply (session client : Value) (w : MemoryHost) :
    MemoryHost.connect session client w = match w.connection with
      | .refused f => (.error f, { w with attempts := ⟨session, none⟩ :: w.attempts })
      | _ => (.ok (), { w with
          attempts := ⟨session, some client⟩ :: w.attempts, connection := .established }) := by
  show (match w.connection with
    | .refused f => _
    | _ => _ : Run MemoryHost Unit) w = _
  cases w.connection <;> rfl

namespace Gateway

open MemoryHost

/-- Whether an answer is one that a backend may give to a request. -/
def isPlainAnswer (method : Method) : Except Failure Value → Bool
  | .ok response => isResponse method response
  | .error (.client fault) => fault.isPlain
  | .error _ => false

/-- Whether scripts hold nothing but what a backend may answer. -/
def arePlain (scripts : List (Method × Script)) : Bool :=
  scripts.all fun s => s.2.all (isPlainAnswer s.1)

theorem isPlainAnswer_empty (method : Method) : isPlainAnswer method (.ok (.map [])) = true := by
  cases method <;> rfl

/-- Every answer from plain scripts is plain, also the one after the last. -/
theorem isPlainAnswer_scripted {scripts : List (Method × Script)} (h : arePlain scripts = true)
    (method : Method) (n : Nat) :
    isPlainAnswer method (Service.scriptedAnswer
      (((scripts.find? (·.1 == method)).map Prod.snd).getD []) n) = true := by
  have hscript : ∀ a ∈ ((scripts.find? (·.1 == method)).map Prod.snd).getD [],
      isPlainAnswer method a = true := by
    cases hfind : scripts.find? (·.1 == method) with
    | none => exact fun a ha => absurd ha List.not_mem_nil
    | some s =>
      have hmethod : s.1 = method :=
        beq_iff_eq.1 (List.find?_some (p := fun s : Method × Script => s.1 == method) hfind)
      have hs := List.all_eq_true.1 h s (List.mem_of_find?_eq_some hfind)
      rw [hmethod] at hs
      exact List.all_eq_true.1 hs
  generalize ((scripts.find? (·.1 == method)).map Prod.snd).getD [] = script at hscript
  unfold Service.scriptedAnswer
  cases hanswer : script[n - 1]?.or script.getLast? with
  | none => exact isPlainAnswer_empty method
  | some a =>
    obtain hat | ⟨-, hlast⟩ := Option.or_eq_some_iff.1 hanswer
    · exact hscript a (List.mem_of_getElem? hat)
    · exact hscript a (List.mem_of_getLast? hlast)

theorem ends_of_isPlainAnswer {method : Method} {a : Except Failure Value}
    (h : isPlainAnswer method a = true) :
    Ends (fun response => isResponse method response = true)
      (fun f => ∃ fault, f = .client fault ∧ fault.isPlain = true) a := by
  cases a with
  | ok response => exact h
  | error f =>
    cases f with
    | client fault => exact ⟨fault, rfl, h⟩
    | _ => cases h

/-- The host in memory with plain scripts. -/
def scriptedBackend {scripts : List (Method × Script)} (h : arePlain scripts = true) :
    Backend MemoryHost.host where
  isReady w := w.service = .scripted scripts ∧ w.connection = .established
  delivered w := w.account.delivered.reverse
  connects d session client w hw := by
    obtain ⟨⟨hservice, hconnection⟩, hdelivered⟩ := hw
    rw [show MemoryHost.host.connect = MemoryHost.connect from rfl, MemoryHost.connect_apply,
      hconnection]
    exact ⟨⟨⟨hservice, rfl⟩, hdelivered⟩, trivial⟩
  answers d method request w hw := by
    obtain ⟨⟨hservice, hconnection⟩, hdelivered⟩ := hw
    rw [show MemoryHost.host.send = MemoryHost.send from rfl, MemoryHost.send_apply, hservice]
    exact ⟨⟨⟨rfl, hconnection⟩, hdelivered⟩,
      ends_of_isPlainAnswer (isPlainAnswer_scripted h method _)⟩
  pauses seconds w hw := ⟨hw, rfl⟩
  delivers error result w hw := ⟨rfl, List.reverse_cons⟩

end Gateway

end ItemStore
