import ItemStore.Proofs.Batch.Turns
import ItemStore.Proofs.Batch.Waiting
import Mathlib.Data.List.Induction

/-
  The course of a chunk: what its sends say about where it stands. A request is acknowledged when it
  was part of a send that succeeded and whose report does not name it; what is left of a chunk are its
  requests that were never acknowledged, in their order, and the error that it remembers is the one of
  its last send. A chunk is at its end when nothing is left, when its budget is spent, when a send
  failed for good or could not be read, or when the next repetition cannot be waited for.

  Main statements: `follows_jobsInTurns` (every job has such a course, in whatever order the jobs take
  turns) and `stands_of_follows`.
-/

namespace ItemStore.Batch

variable {σ : Type}

/-! ## Reports -/

/-- What a report answers when it is asked for a request. -/
def asked (report : Value) (r : Pending) : Except Mishap Bool :=
  match report with
  | .map es => isReported es r
  | _ => .error .part

/-- Whether a report names a request. -/
def isNamed (report : Value) (r : Pending) : Bool :=
  match asked report r with
  | .ok b => b
  | .error _ => false

/-- A report that can be asked for each of some requests. -/
def IsReadable (report : Value) (rs : List Pending) : Prop :=
  ∀ r ∈ rs, ∃ b, asked report r = .ok b

instance (report : Value) (r : Pending) : Decidable (∃ b, asked report r = .ok b) :=
  match asked report r with
  | .ok b => isTrue ⟨b, rfl⟩
  | .error _ => isFalse fun ⟨_, h⟩ => nomatch h

instance (report : Value) (rs : List Pending) : Decidable (IsReadable report rs) :=
  inferInstanceAs (Decidable (∀ r ∈ rs, ∃ b, asked report r = .ok b))

theorem asked_eq_isNamed {report : Value} {r : Pending} {b : Bool} (h : asked report r = .ok b) :
    isNamed report r = b := by
  unfold isNamed
  rw [h]

theorem retained_eq (es : Entries) {rs : List Pending} (h : IsReadable (.map es) rs) :
    retained es rs = .ok (rs.filter (isNamed (.map es))) := by
  induction rs with
  | nil => rfl
  | cons r rs ih =>
    have ih := ih fun q hq => h q (List.mem_cons_of_mem _ hq)
    obtain ⟨b, hb⟩ := h r List.mem_cons_self
    have hr : isReported es r = .ok b := hb
    rw [retained, hr, List.filter_cons, asked_eq_isNamed hb]
    cases b with
    | true => rw [ih]; rfl
    | false => exact ih

theorem isReadable_of_retained {es : Entries} {rs left : List Pending}
    (h : retained es rs = .ok left) : IsReadable (.map es) rs := by
  induction rs generalizing left with
  | nil => exact fun r hr => absurd hr List.not_mem_nil
  | cons r rs ih =>
    rw [retained] at h
    intro q hq
    cases hr : isReported es r with
    | error m =>
      rw [hr] at h
      cases h
    | ok b =>
      rw [hr] at h
      cases List.mem_cons.1 hq with
      | inl hq => exact ⟨b, by rw [hq]; exact hr⟩
      | inr hq =>
        cases b with
        | false => exact ih h q hq
        | true =>
          cases hrest : retained es rs with
          | error m =>
            rw [hrest] at h
            cases h
          | ok kept => exact ih hrest q hq

/-- What a readable report leaves of some requests are those that it names. -/
theorem retain_eq {report : Value} {rs : List Pending} (h : IsReadable report rs) :
    retain report rs = .ok (rs.filter (isNamed report)) := by
  cases rs with
  | nil => rfl
  | cons r rs =>
    cases report with
    | map es => exact retained_eq es h
    | _ =>
      obtain ⟨b, hb⟩ := h r List.mem_cons_self
      cases hb

theorem isReadable_of_retain {report : Value} {rs left : List Pending}
    (h : retain report rs = .ok left) : IsReadable report rs := by
  cases rs with
  | nil => exact fun r hr => absurd hr List.not_mem_nil
  | cons r rs =>
    cases report with
    | map es => exact isReadable_of_retained h
    | _ => cases h

/-! ## What reports list -/

/-- A report lists a request under its table. -/
def Lists (report : Value) (q : Pending) : Prop :=
  ∃ es listed, report = .map es ∧ Value.find? q.1 es = some (.list listed) ∧ q.2 ∈ listed

/-- A request goes to the same table as another one and equals it. -/
def Matches (r q : Pending) : Prop := r.1 = q.1 ∧ r.2.equal q.2 = .ok true

theorem holdsForSome_eq_false {test : Value → Except Mishap Bool} {ys : List Value}
    (h : Value.holdsForSome test ys = .ok false) : ∀ y ∈ ys, test y = .ok false := by
  induction ys with
  | nil => exact fun y hy => absurd hy List.not_mem_nil
  | cons y ys ih =>
    rw [Value.holdsForSome] at h
    rcases hy : test y with m | _ | _
    · rw [hy] at h
      cases h
    · rw [hy] at h
      intro z hz
      rcases List.mem_cons.1 hz with hz | hz
      · rw [hz, hy]
      · exact ih h z hz
    · rw [hy] at h
      cases h

/-- A report that can be asked for a request finds it if it lists a match. -/
theorem asked_of_matches {report : Value} {r q : Pending} (hlists : Lists report q)
    (hmatch : Matches r q) (hread : ∃ b, asked report r = .ok b) : asked report r = .ok true := by
  obtain ⟨es, listed, rfl, hfind, hmem⟩ := hlists
  obtain ⟨b, hb⟩ := hread
  rcases b with _ | _
  · have hask : isReported es r = .ok false := hb
    unfold isReported Value.hashable at hask
    split_ifs at hask with htable
    have hcontains : ((Value.find? r.1 es).getD (.list [])).contains r.2 = .ok false := hask
    rw [hmatch.1, hfind] at hcontains
    have hnone := holdsForSome_eq_false hcontains q.2 hmem
    rw [hmatch.2] at hnone
    cases hnone
  · exact hb

/-! ## Acknowledgement -/

namespace Sending

/-- A request is acknowledged by a send that it was part of, that succeeded, and whose report does not
    name it. -/
def Acknowledges (x : Sending) (r : Pending) : Prop :=
  r ∈ x.sent.requests ∧ ∃ reply, x.outcome = .ok reply ∧ asked reply.unprocessed r = .ok false

/-- A send that was throttled, or that brought a report that can be read. -/
def IsRegular (x : Sending) : Prop :=
  match x.outcome with
  | .error f => Gateway.isRetryable f = true
  | .ok reply => IsReadable reply.unprocessed x.sent.requests

instance (x : Sending) : Decidable x.IsRegular :=
  match x with
  | ⟨_, .error f⟩ => inferInstanceAs (Decidable (Gateway.isRetryable f = true))
  | ⟨c, .ok reply⟩ => inferInstanceAs (Decidable (IsReadable reply.unprocessed c.requests))

/-- What a send leaves of the requests in it. -/
def left (x : Sending) : List Pending :=
  match x.outcome with
  | .error _ => x.sent.requests
  | .ok reply => x.sent.requests.filter (isNamed reply.unprocessed)

/-- The requests in a send that its report does not name. -/
def processed (x : Sending) : List Pending :=
  match x.outcome with
  | .error _ => []
  | .ok reply => x.sent.requests.filter fun r => !isNamed reply.unprocessed r

/-- The items that a send found. -/
def found (x : Sending) : List Pending :=
  match x.outcome with
  | .error _ => []
  | .ok reply => reply.found

/-- The error of a send that failed. -/
def failure? (x : Sending) : Option Failure :=
  match x.outcome with
  | .error f => some f
  | .ok _ => none

end Sending

open Classical in
/-- The requests of a chunk that none of its sends acknowledged. -/
noncomputable def unacknowledged (c : Chunk) (ss : List Sending) : List Pending :=
  c.requests.filter fun r => ¬ ∃ x ∈ ss, x.Acknowledges r

/-- The error of the last send, if that failed. -/
def lastFailure? (ss : List Sending) : Option Failure := ss.getLast?.bind Sending.failure?

theorem unacknowledged_nil (c : Chunk) : unacknowledged c [] = c.requests := by
  unfold unacknowledged
  rw [List.filter_eq_self]
  intro r _
  simp

theorem mem_unacknowledged {c : Chunk} {ss : List Sending} {r : Pending} :
    r ∈ unacknowledged c ss ↔ r ∈ c.requests ∧ ¬ ∃ x ∈ ss, x.Acknowledges r := by
  simp only [unacknowledged, List.mem_filter, decide_eq_true_eq]

/-- A send that failed acknowledges nothing. -/
theorem unacknowledged_failed (c : Chunk) (ss : List Sending) {x : Sending} {f : Failure}
    (hx : x.outcome = .error f) : unacknowledged c (ss ++ [x]) = unacknowledged c ss := by
  have hnot (r : Pending) : ¬ x.Acknowledges r := by
    rintro ⟨-, reply, hreply, -⟩
    rw [hx] at hreply
    cases hreply
  unfold unacknowledged
  refine List.filter_congr fun r _ => ?_
  simp [hnot]

/-- Sends that all failed acknowledge nothing. -/
theorem unacknowledged_of_failed (c : Chunk) {ss : List Sending}
    (h : ∀ x ∈ ss, ∃ f, x.outcome = .error f) : unacknowledged c ss = c.requests := by
  induction ss using List.reverseRecOn with
  | nil => exact unacknowledged_nil c
  | append_singleton ss x ih =>
    obtain ⟨f, hf⟩ := h x (List.mem_append_right _ (List.mem_singleton_self x))
    rw [unacknowledged_failed c ss hf]
    exact ih fun y hy => h y (List.mem_append_left _ hy)

open Classical in
/-- A send of all that is left acknowledges what its report does not name. -/
theorem unacknowledged_read (c : Chunk) (ss : List Sending) {x : Sending} {reply : Reply}
    (hx : x.outcome = .ok reply) (hsent : x.sent.requests = unacknowledged c ss)
    (hread : IsReadable reply.unprocessed x.sent.requests) :
    unacknowledged c (ss ++ [x]) =
      (unacknowledged c ss).filter (isNamed reply.unprocessed) := by
  have hack {r : Pending} (hr : r ∈ x.sent.requests) :
      x.Acknowledges r ↔ ¬ isNamed reply.unprocessed r = true := by
    obtain ⟨b, hb⟩ := hread r hr
    rw [asked_eq_isNamed hb, Bool.not_eq_true]
    constructor
    · rintro ⟨-, reply', hreply, hfalse⟩
      rw [hx] at hreply
      cases hreply
      rw [hb] at hfalse
      exact Except.ok.inj hfalse
    · intro hfalse
      exact ⟨hr, reply, hx, by rw [hb, hfalse]⟩
  have hack {r : Pending} (hr : r ∈ c.requests) (hold : ¬ ∃ y ∈ ss, y.Acknowledges r) :
      x.Acknowledges r ↔ ¬ isNamed reply.unprocessed r = true :=
    hack (by rw [hsent]; exact mem_unacknowledged.2 ⟨hr, hold⟩)
  unfold unacknowledged
  rw [List.filter_filter]
  refine List.filter_congr fun r hr => ?_
  rw [Bool.eq_iff_iff, Bool.and_eq_true, decide_eq_true_eq, decide_eq_true_eq]
  constructor
  · intro hnone
    have hold : ¬ ∃ y ∈ ss, y.Acknowledges r := by
      rintro ⟨y, hy, hyr⟩
      exact hnone ⟨y, List.mem_append_left _ hy, hyr⟩
    refine ⟨not_not.1 fun hname => hnone ⟨x, ?_, (hack hr hold).2 hname⟩, hold⟩
    exact List.mem_append_right _ (List.mem_singleton_self x)
  · rintro ⟨hname, hold⟩ ⟨y, hy, hyr⟩
    cases List.mem_append.1 hy with
    | inl hy => exact hold ⟨y, hy, hyr⟩
    | inr hy =>
      rw [List.mem_singleton.1 hy] at hyr
      exact (hack hr hold).1 hyr hname

/-! ## The course -/

/-- The course of a chunk: its sends so far, and where they leave it. -/
inductive Follows (settings : Settings) (c : Chunk) : List Sending → Stage → Prop
  | start : Follows settings c [] (.driving settings.batchMaxRetries.toNat ⟨c, []⟩)
  | sent {ss : List Sending} {budget : Nat} {p : Progress} (o : Except Failure Reply) :
      Follows settings c ss (.driving budget p) → p.chunk.requests ≠ [] →
      Follows settings c (ss ++ [⟨p.chunk, o⟩]) (stageAfter settings budget p o)
  | empty {ss : List Sending} {budget : Nat} {p : Progress} :
      Follows settings c ss (.driving budget p) → p.chunk.requests = [] →
      Follows settings c ss (.ended (.ok p))

/-- A turn continues the course of a job. -/
theorem follows_turn (host : Host σ) {settings : Settings} (send : Chunk → Run σ Reply) {j : Job}
    (h : Follows settings j.fresh j.sendings j.stage) (s : σ) :
    Follows settings (j.turn host settings send s).1.fresh
      (j.turn host settings send s).1.sendings (j.turn host settings send s).1.stage := by
  unfold Job.turn
  split
  · exact h
  · rename_i budget p hstage
    rw [hstage] at h
    split
    · rename_i hp
      exact h.empty (List.isEmpty_iff.1 hp)
    · rename_i hp
      exact h.sent _ fun hnil => hp (List.isEmpty_iff.2 hnil)

/-- In whatever order the jobs take turns, each of them has a course. -/
theorem follows_jobsInTurns (host : Host σ) (settings : Settings) (send : Chunk → Run σ Reply)
    (order : List Nat) (cs : List Chunk) (s : σ) :
    ∀ j ∈ (jobsInTurns host settings order send cs s).1,
      Follows settings j.fresh j.sendings j.stage :=
  (jobsInTurns_invariant (P := fun j => Follows settings j.fresh j.sendings j.stage)
    (I := fun _ => True) (fun _ t hj _ => ⟨follows_turn host send hj t, trivial⟩) order
    (fun _ _ => .start) trivial).1

/-! ## Where a chunk stands -/

/-- What a chunk's progress owes to its sends. -/
structure Tally (c : Chunk) (ss : List Sending) (p : Progress) : Prop where
  requests : p.chunk.requests = unacknowledged c ss
  lastError : p.chunk.lastError = lastFailure? ss
  found : p.found = ss.flatMap Sending.found
  regular : ∀ x ∈ ss, x.IsRegular ∧ x.sent.requests ≠ []
  last : ∀ x, ss.getLast? = some x → p.chunk.requests = x.left
  processed : (ss.flatMap Sending.processed ++ p.chunk.requests).Perm c.requests

/-- Where the sends of a chunk leave it. -/
def Stands (settings : Settings) (c : Chunk) (ss : List Sending) : Stage → Prop
  | .driving budget p =>
    Tally c ss p ∧ p.chunk.attempts = ss.length ∧
      budget + ss.length = settings.batchMaxRetries.toNat ∧ ss.length ≤ mostRests settings
  | .ended (.ok p) =>
    Tally c ss p ∧ (p.chunk.requests = [] ∨
      (ss.length = settings.batchMaxRetries.toNat + 1 ∧
        settings.batchMaxRetries.toNat ≤ mostRests settings))
  | .ended (.error f) =>
    (∃ x ∈ ss, ¬ x.IsRegular) ∨
      (f = noRest settings ∧ ss.length = mostRests settings + 1 ∧
        mostRests settings < settings.batchMaxRetries.toNat ∧ unacknowledged c ss ≠ [] ∧
        ∀ x ∈ ss, x.IsRegular)

/-! ## Settling a send -/

theorem settle_failed {p p' : Progress} {f : Failure} (h : settle p (.error f) = .ok p') :
    Gateway.isRetryable f = true ∧
      p' = { p with chunk := { p.chunk with lastError := some f } } := by
  rw [settle] at h
  cases hf : Gateway.isRetryable f with
  | false =>
    rw [hf] at h
    cases h
  | true =>
    rw [hf] at h
    cases h
    exact ⟨rfl, rfl⟩

theorem settle_replied {p p' : Progress} {reply : Reply} (h : settle p (.ok reply) = .ok p') :
    IsReadable reply.unprocessed p.chunk.requests ∧
      p' = ⟨{ p.chunk with
          requests := p.chunk.requests.filter (isNamed reply.unprocessed), lastError := none },
        p.found ++ reply.found⟩ := by
  rw [settle] at h
  cases hleft : retain reply.unprocessed p.chunk.requests with
  | error m =>
    rw [hleft] at h
    cases h
  | ok left =>
    have hread := isReadable_of_retain hleft
    rw [retain_eq hread] at h
    cases h
    exact ⟨hread, rfl⟩

/-- A send that could not be settled failed for good or brought a report that cannot be read. -/
theorem not_isRegular_of_settle {p : Progress} {o : Except Failure Reply} {f : Failure}
    (h : settle p o = .error f) : ¬ Sending.IsRegular ⟨p.chunk, o⟩ := by
  intro hregular
  cases o with
  | error g =>
    have hg : Gateway.isRetryable g = true := hregular
    rw [settle, hg] at h
    cases h
  | ok reply =>
    have hread : IsReadable reply.unprocessed p.chunk.requests := hregular
    rw [settle, retain_eq hread] at h
    cases h

/-- What a settled send adds to the tally. -/
theorem tally_sent {c : Chunk} {ss : List Sending} {p p' : Progress} {o : Except Failure Reply}
    (h : Tally c ss p) (hp : p.chunk.requests ≠ []) (hsettle : settle p o = .ok p') :
    Tally c (ss ++ [⟨p.chunk, o⟩]) p' ∧ p'.chunk.attempts = p.chunk.attempts := by
  have hregular (hx : Sending.IsRegular ⟨p.chunk, o⟩) :
      ∀ y ∈ ss ++ [⟨p.chunk, o⟩], y.IsRegular ∧ y.sent.requests ≠ [] := by
    intro y hy
    cases List.mem_append.1 hy with
    | inl hy => exact h.regular y hy
    | inr hy => rw [List.mem_singleton.1 hy]; exact ⟨hx, hp⟩
  have hlast : lastFailure? (ss ++ [⟨p.chunk, o⟩]) = Sending.failure? ⟨p.chunk, o⟩ := by
    unfold lastFailure?
    rw [List.getLast?_concat]
    rfl
  have hfound : (ss ++ [(⟨p.chunk, o⟩ : Sending)]).flatMap Sending.found =
      ss.flatMap Sending.found ++ (⟨p.chunk, o⟩ : Sending).found := by
    rw [List.flatMap_append, List.flatMap_singleton]
  have hprocessed : (ss ++ [(⟨p.chunk, o⟩ : Sending)]).flatMap Sending.processed =
      ss.flatMap Sending.processed ++ (⟨p.chunk, o⟩ : Sending).processed := by
    rw [List.flatMap_append, List.flatMap_singleton]
  cases o with
  | error f =>
    obtain ⟨hf, rfl⟩ := settle_failed hsettle
    refine ⟨⟨?_, hlast.symm, ?_, hregular hf, ?_, ?_⟩, rfl⟩
    · rw [unacknowledged_failed c ss rfl]
      exact h.requests
    · rw [hfound, ← h.found]
      exact (List.append_nil _).symm
    · intro x hx
      rw [List.getLast?_concat] at hx
      cases hx
      rfl
    · rw [hprocessed, show (⟨p.chunk, .error f⟩ : Sending).processed = [] from rfl, List.append_nil]
      exact h.processed
  | ok reply =>
    obtain ⟨hread, rfl⟩ := settle_replied hsettle
    refine ⟨⟨?_, hlast.symm, ?_, hregular hread, ?_, ?_⟩, rfl⟩
    · rw [unacknowledged_read c ss rfl h.requests hread, ← h.requests]
    · rw [hfound, ← h.found]
      rfl
    · intro x hx
      rw [List.getLast?_concat] at hx
      cases hx
      rfl
    · have hsplit : ((⟨p.chunk, .ok reply⟩ : Sending).processed ++
          p.chunk.requests.filter (isNamed reply.unprocessed)).Perm p.chunk.requests :=
        List.perm_append_comm.trans (List.filter_append_perm _ _)
      rw [hprocessed, List.append_assoc]
      exact (hsplit.append_left _).trans h.processed

/-! ## The invariant -/

/-- A send takes a chunk from where it stood to where the next send finds it, or to its end. -/
theorem stands_sent {settings : Settings} {c : Chunk} {ss : List Sending} {budget : Nat}
    {p : Progress} (h : Stands settings c ss (.driving budget p)) (hp : p.chunk.requests ≠ [])
    (o : Except Failure Reply) :
    Stands settings c (ss ++ [⟨p.chunk, o⟩]) (stageAfter settings budget p o) := by
  obtain ⟨htally, hattempts, hbudget, hlen⟩ := h
  have hlen' : (ss ++ [(⟨p.chunk, o⟩ : Sending)]).length = ss.length + 1 := by
    rw [List.length_append, List.length_singleton]
  unfold stageAfter
  cases hsettle : settle p o with
  | error f =>
    exact .inl ⟨⟨p.chunk, o⟩, List.mem_append_right _ (List.mem_singleton_self _),
      not_isRegular_of_settle hsettle⟩
  | ok p' =>
    obtain ⟨htally', hattempts'⟩ := tally_sent htally hp hsettle
    cases hempty : p'.chunk.requests.isEmpty with
    | true =>
      simp only [hempty, if_true]
      exact ⟨htally', .inl (List.isEmpty_iff.1 hempty)⟩
    | false =>
      simp only [hempty, Bool.false_eq_true, if_false]
      cases budget with
      | zero => exact ⟨htally', .inr ⟨by omega, by omega⟩⟩
      | succ budget =>
        dsimp only
        rw [hattempts', hattempts]
        obtain ⟨hk, hwaiting⟩ | ⟨hk, m, hwaiting, hnoRest⟩ := waiting_cases hlen
        · rw [hwaiting]
          refine ⟨⟨htally'.requests, htally'.lastError, htally'.found, htally'.regular,
            htally'.last, htally'.processed⟩, ?_, ?_, ?_⟩
          · exact hlen'.symm
          · omega
          · omega
        · rw [hwaiting]
          refine .inr ⟨hnoRest.symm, by omega, by omega, ?_, fun x hx => (htally'.regular x hx).1⟩
          rw [← htally'.requests]
          exact fun hnil => by rw [hnil] at hempty; cases hempty

/-- What the sends of a chunk say about where it stands. -/
theorem stands_of_follows {settings : Settings} {c : Chunk} (hattempts : c.attempts = 0)
    (herror : c.lastError = none) {ss : List Sending} {stage : Stage}
    (h : Follows settings c ss stage) : Stands settings c ss stage := by
  induction h with
  | start =>
    refine ⟨⟨(unacknowledged_nil c).symm, herror, rfl, ?_, ?_, .refl _⟩, hattempts, rfl, by simp⟩
    · exact fun x hx => absurd hx List.not_mem_nil
    · intro x hx
      cases hx
  | sent o _ hp ih => exact stands_sent ih hp o
  | empty _ hp ih => exact ⟨ih.1, .inl hp⟩

end ItemStore.Batch
