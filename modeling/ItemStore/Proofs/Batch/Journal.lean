import ItemStore.Proofs.Batch.Course

/-
  The journal of a chunk. A host and a way to send can be watched: they do what they did, and enter every
  delay and every send in a journal. A chunk that is driven under watch comes to what it comes to without,
  and its journal lists its sends, with one delay before each of them but the first.

  Main statements: `after_stageAfter` (what a send leads to) and `drive_watched`.
-/

namespace ItemStore.Batch

variable {σ α : Type}

/-! ## Watching -/

/-- What is done about a chunk while it is driven. -/
inductive Deed where
  | sent (x : Sending)
  | rested (seconds : Double)

/-- A state beside a journal. -/
abbrev Watched (σ : Type) := σ × List Deed

/-- A run beside a journal, in which it enters nothing. -/
def beside (r : Run σ α) : Run (Watched σ) α := fun s => ((r s.1).1, (r s.1).2, s.2)

/-- A host that enters its delays in a journal. -/
def watched (host : Host σ) : Host (Watched σ) where
  isConnected s := host.isConnected s.1
  connect session client := beside (host.connect session client)
  send method request := beside (host.send method request)
  pause seconds := fun s => ((), (host.pause seconds s.1).2, s.2 ++ [.rested seconds])
  call name id arguments := beside (host.call name id arguments)
  visit name id page := beside (host.visit name id page)
  deliver error result := beside (host.deliver error result)
  patience := host.patience

/-- A way to send that enters its sends in a journal. -/
def watchedSend (send : Chunk → Run σ Reply) (c : Chunk) : Run (Watched σ) Reply := fun s =>
  ((send c s.1).1, (send c s.1).2, s.2 ++ [.sent ⟨c, (send c s.1).1⟩])

/-- What comes between some sends and the next one, of this chunk. -/
def lead (settings : Settings) (ss : List Sending) (c : Chunk) : List Deed :=
  if ss.isEmpty then [] else [.rested (rest settings c.attempts)]

/-- Sends in a journal, with one delay before each of them but the first. -/
def journal (settings : Settings) : List Sending → List Deed
  | [] => []
  | x :: xs => .sent x :: xs.flatMap fun y => [.rested (rest settings y.sent.attempts), .sent y]

theorem journal_concat (settings : Settings) (ss : List Sending) (x : Sending) :
    journal settings (ss ++ [x]) = journal settings ss ++ lead settings ss x.sent ++ [.sent x] := by
  cases ss with
  | nil => rfl
  | cons y ys =>
    rw [List.cons_append, journal, journal, List.flatMap_append, List.flatMap_singleton, lead]
    simp

/-- Between sends and the next one there is the delay of the next one. -/
theorem lead_concat (settings : Settings) (ss : List Sending) (x : Sending) (c : Chunk) :
    lead settings (ss ++ [x]) c = [.rested (rest settings c.attempts)] := by
  cases ss <;> rfl

/-- A send that is watched is entered behind what leads to it. -/
theorem watchedSend_journal (settings : Settings) (send : Chunk → Run σ Reply) (ss : List Sending)
    (c : Chunk) (s : σ) :
    watchedSend send c (s, journal settings ss ++ lead settings ss c) =
      ((send c s).1, (send c s).2, journal settings (ss ++ [⟨c, (send c s).1⟩])) := by
  rw [journal_concat]
  rfl

/-! ## What a send leads to -/

namespace Sending

/-- The chunk as it is after a send. -/
def remains (x : Sending) : Chunk := { x.sent with requests := x.left, lastError := x.failure? }

/-- The chunk as it is sent after a send and a delay. -/
def next (x : Sending) : Chunk := { x.remains with attempts := x.sent.attempts + 1 }

/-- A send that failed in a way that may not be repeated. -/
def IsRefused (x : Sending) (f : Failure) : Prop :=
  x.outcome = .error f ∧ Gateway.isRetryable f = false

/-- A send whose report cannot be asked for all of the requests in it. -/
def IsUnreadable (x : Sending) (m : Mishap) : Prop :=
  ∃ reply, x.outcome = .ok reply ∧ retain reply.unprocessed x.sent.requests = .error m

end Sending

/-- What a send leads to: another send after a delay, or the end of the chunk. -/
inductive After (settings : Settings) (x : Sending) : Nat → Stage → Prop
  | again {budget : Nat} {p : Progress} : x.IsRegular → x.left ≠ [] → p.chunk = x.next →
      waiting settings p.chunk.attempts = .ok (rest settings p.chunk.attempts) →
      After settings x (budget + 1) (.driving budget p)
  | drained {budget : Nat} {p : Progress} : x.IsRegular → x.left = [] → p.chunk = x.remains →
      After settings x budget (.ended (.ok p))
  | spent {p : Progress} : x.IsRegular → x.left ≠ [] → p.chunk = x.remains →
      After settings x 0 (.ended (.ok p))
  | refused {budget : Nat} {f : Failure} : x.IsRefused f →
      After settings x budget (.ended (.error f))
  | unreadable {budget : Nat} {m : Mishap} : x.IsUnreadable m →
      After settings x budget (.ended (.error (.mishap m)))
  | restless {budget : Nat} {m : Mishap} : x.IsRegular → x.left ≠ [] →
      waiting settings (x.sent.attempts + 1) = .error m →
      After settings x (budget + 1) (.ended (.error (.mishap m)))

/-- A send that can be settled leaves the chunk as its report and its error say. -/
theorem chunk_of_settle {p p' : Progress} {o : Except Failure Reply} (h : settle p o = .ok p') :
    Sending.IsRegular ⟨p.chunk, o⟩ ∧ p'.chunk = Sending.remains ⟨p.chunk, o⟩ := by
  cases o with
  | error f =>
    obtain ⟨hf, rfl⟩ := settle_failed h
    exact ⟨hf, rfl⟩
  | ok reply =>
    obtain ⟨hread, rfl⟩ := settle_replied h
    exact ⟨hread, rfl⟩

/-- A send that cannot be settled was refused, or its report cannot be read. -/
theorem cases_of_settle {p : Progress} {o : Except Failure Reply} {f : Failure}
    (h : settle p o = .error f) :
    Sending.IsRefused ⟨p.chunk, o⟩ f ∨ ∃ m, f = .mishap m ∧ Sending.IsUnreadable ⟨p.chunk, o⟩ m := by
  cases o with
  | error g =>
    rw [settle] at h
    cases hg : Gateway.isRetryable g with
    | true =>
      rw [hg] at h
      cases h
    | false =>
      rw [hg] at h
      cases h
      exact .inl ⟨rfl, hg⟩
  | ok reply =>
    rw [settle] at h
    cases hleft : retain reply.unprocessed p.chunk.requests with
    | error m =>
      rw [hleft] at h
      cases h
      exact .inr ⟨m, rfl, reply, rfl, hleft⟩
    | ok left =>
      rw [hleft] at h
      cases h

theorem after_stageAfter (settings : Settings) (budget : Nat) (p : Progress)
    (o : Except Failure Reply) :
    After settings ⟨p.chunk, o⟩ budget (stageAfter settings budget p o) := by
  unfold stageAfter
  cases hsettle : settle p o with
  | error f =>
    obtain hrefused | ⟨m, rfl, hunreadable⟩ := cases_of_settle hsettle
    · exact .refused hrefused
    · exact .unreadable hunreadable
  | ok p' =>
    obtain ⟨hregular, hchunk⟩ := chunk_of_settle hsettle
    have hleft : p'.chunk.requests = Sending.left ⟨p.chunk, o⟩ := by rw [hchunk]; rfl
    have hattempts : p'.chunk.attempts = p.chunk.attempts := by rw [hchunk]; rfl
    cases hempty : p'.chunk.requests.isEmpty with
    | true =>
      simp only [hempty, if_true]
      exact .drained hregular (by rw [← hleft]; exact List.isEmpty_iff.1 hempty) hchunk
    | false =>
      have hne : Sending.left ⟨p.chunk, o⟩ ≠ [] := by
        rw [← hleft]
        exact List.isEmpty_eq_false_iff.1 hempty
      simp only [hempty, Bool.false_eq_true, if_false]
      cases budget with
      | zero => exact .spent hregular hne hchunk
      | succ budget =>
        cases hwaiting : waiting settings (p'.chunk.attempts + 1) with
        | ok seconds =>
          refine .again hregular hne ?_ ?_
          · simp only [hattempts]
            rw [hchunk]
            rfl
          · rw [hwaiting, (waiting_eq_ok_iff.1 hwaiting).1]
        | error m =>
          refine .restless hregular hne ?_
          rwa [hattempts] at hwaiting

/-- A chunk that is sent again has something left, and waited as long as the journal says. -/
theorem driven_of_stageAfter {settings : Settings} {budget b : Nat} {p p' : Progress}
    {o : Except Failure Reply} (h : stageAfter settings budget p o = .driving b p') :
    p'.chunk.requests ≠ [] ∧
      waiting settings p'.chunk.attempts = .ok (rest settings p'.chunk.attempts) := by
  have hafter := after_stageAfter settings budget p o
  rw [h] at hafter
  cases hafter with
  | again _ hleft hchunk hwaiting =>
    refine ⟨?_, hwaiting⟩
    rw [hchunk]
    exact hleft

/-! ## Driving under watch -/

/-- A chunk that is driven on has waited for its delay. -/
theorem rested_driving (host : Host σ) {settings : Settings} (b : Nat) {p : Progress}
    {seconds : Double} (h : waiting settings p.chunk.attempts = .ok seconds) (s : σ) :
    (Stage.driving b p).rested host settings s = (host.pause seconds s).2 := by
  simp only [Stage.rested, h]

section

variable (host : Host σ) (settings : Settings) (send : Chunk → Run σ Reply)

/-- A send brought this in some state. -/
def CameOf (x : Sending) : Prop := ∃ t, (send x.sent t).1 = x.outcome

/-- A chunk that is driven under watch comes to what it comes to without, and the journal lists its
    sends. -/
theorem drive_watched (budget : Nat) {c : Chunk} {p : Progress} {ss : List Sending}
    (hcourse : Follows settings c ss (.driving budget p)) (hcame : ∀ x ∈ ss, CameOf send x)
    (hleft : ss = [] ∨ p.chunk.requests ≠ []) (s : σ) :
    ∃ ss', Follows settings c ss' (.ended (drive host settings send budget p s).1) ∧
      (∀ x ∈ ss', CameOf send x) ∧
      drive (watched host) settings (watchedSend send) budget p
          (s, journal settings ss ++ lead settings ss p.chunk) =
        ((drive host settings send budget p s).1, (drive host settings send budget p s).2,
          journal settings ss') := by
  induction budget using Nat.strongRecOn generalizing p ss s with
  | ind budget ih =>
    cases hempty : p.chunk.requests.isEmpty with
    | true =>
      have hnil := List.isEmpty_iff.1 hempty
      have hss : ss = [] := hleft.resolve_right (not_not.2 hnil)
      rw [drive_of_isEmpty _ _ _ _ hempty, drive_of_isEmpty _ _ _ _ hempty]
      refine ⟨ss, hcourse.empty hnil, hcame, ?_⟩
      rw [hss]
      rfl
    | false =>
      have hne := List.isEmpty_eq_false_iff.1 hempty
      let x : Sending := ⟨p.chunk, (send p.chunk s).1⟩
      have hcourse' := hcourse.sent (send p.chunk s).1 hne
      have hcame' : ∀ y ∈ ss ++ [x], CameOf send y :=
        List.forall_mem_append.2 ⟨hcame, List.forall_mem_singleton.2 ⟨s, rfl⟩⟩
      rw [drive_eq_stageAfter _ _ _ _ hempty, drive_eq_stageAfter _ _ _ _ hempty,
        watchedSend_journal]
      dsimp only
      cases hstage : stageAfter settings budget p (send p.chunk s).1 with
      | ended r =>
        rw [hstage] at hcourse'
        exact ⟨ss ++ [x], hcourse', hcame', rfl⟩
      | driving b p' =>
        rw [hstage] at hcourse'
        obtain ⟨hne', hdelay⟩ := driven_of_stageAfter hstage
        have hb : b < budget := by
          have := budget_of_stageAfter settings hstage
          omega
        obtain ⟨ss', hend, hall, hrun⟩ := ih b hb hcourse' hcame' (.inr hne')
          ((Stage.driving b p').rested host settings (send p.chunk s).2)
        -- the next send finds the journal with the delay that leads to it
        refine ⟨ss', hend, hall, ?_⟩
        rw [← hrun, lead_concat]
        dsimp only
        rw [rested_driving (watched host) b hdelay, rested_driving host b hdelay]
        rfl

end

end ItemStore.Batch
