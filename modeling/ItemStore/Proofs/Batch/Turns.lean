import ItemStore.Batch.Drive

/-
  Chunks driven in turns. A turn of a chunk is one send with what follows from it, up to the next send;
  the chunks take turns in any order, and when the order is used up, those that are still driven are
  driven to the end one after another. Workers that run at the same time take turns in some order, so
  what holds for every order holds for any number of workers. Each job keeps a record of its sends,
  which nothing depends on.

  Main statements: `driveInTurns_nil` (without turns the chunks are driven one after another),
  `jobsInTurns_joint` (what every turn preserves of all jobs together holds of them in the end, for every
  order) and `jobsInTurns_invariant` (and so does what every turn preserves of its job).
-/

namespace ItemStore.Batch

variable {σ : Type}

/-! ## Stages -/

/-- A send: the chunk as it was sent, and what came of it. -/
structure Sending where
  sent : Chunk
  outcome : Except Failure Reply

/-- Where a chunk stands: it is driven with what is left of its budget, or it came to its end. -/
inductive Stage where
  | driving (budget : Nat) (p : Progress)
  | ended (result : Except Failure Progress)

/-- Where a chunk stands after a send. -/
def stageAfter (settings : Settings) (budget : Nat) (p : Progress) (o : Except Failure Reply) :
    Stage :=
  match settle p o with
  | .error f => .ended (.error f)
  | .ok p =>
    if p.chunk.requests.isEmpty then .ended (.ok p)
    else match budget with
      | 0 => .ended (.ok p)
      | budget + 1 =>
        match waiting settings (p.chunk.attempts + 1) with
        | .error m => .ended (.error (.mishap m))
        | .ok _ =>
          .driving budget { p with chunk := { p.chunk with attempts := p.chunk.attempts + 1 } }

/-- The state after the delay before the next send. -/
def Stage.rested (host : Host σ) (settings : Settings) : Stage → σ → σ
  | .ended _, s => s
  | .driving _ p, s =>
    match waiting settings p.chunk.attempts with
    | .error _ => s
    | .ok seconds => (host.pause seconds s).2

/-! ## Jobs -/

/-- A chunk, its sends so far, and where it stands. -/
structure Job where
  fresh : Chunk
  sendings : List Sending
  stage : Stage

namespace Job

/-- A chunk with its whole budget. -/
def start (settings : Settings) (c : Chunk) : Job :=
  ⟨c, [], .driving settings.batchMaxRetries.toNat ⟨c, []⟩⟩

/-- What came of a job. -/
def result (j : Job) : Except Failure Progress :=
  match j.stage with
  | .driving _ p => .ok p
  | .ended r => r

/-- One turn of a job. -/
def turn (host : Host σ) (settings : Settings) (send : Chunk → Run σ Reply) (j : Job) (s : σ) :
    Job × σ :=
  match j.stage with
  | .ended _ => (j, s)
  | .driving budget p =>
    if p.chunk.requests.isEmpty then ({ j with stage := .ended (.ok p) }, s)
    else
      let o := send p.chunk s
      let stage := stageAfter settings budget p o.1
      (⟨j.fresh, j.sendings ++ [⟨p.chunk, o.1⟩], stage⟩, stage.rested host settings o.2)

/-- A number of turns of one job. -/
def turns (host : Host σ) (settings : Settings) (send : Chunk → Run σ Reply) :
    Nat → Job → σ → Job × σ
  | 0, j, s => (j, s)
  | n + 1, j, s =>
    let (j, s) := j.turn host settings send s
    turns host settings send n j s

end Job

/-- Jobs that take turns in an order, given by their numbers; a number without a job is passed over. -/
def interleave (host : Host σ) (settings : Settings) (send : Chunk → Run σ Reply) :
    List Nat → List Job → σ → List Job × σ
  | [], js, s => (js, s)
  | i :: is, js, s =>
    match js[i]? with
    | none => interleave host settings send is js s
    | some j =>
      let (j, s) := j.turn host settings send s
      interleave host settings send is (js.set i j) s

/-- Jobs with as many turns as each can need, one job after another. -/
def finish (host : Host σ) (settings : Settings) (send : Chunk → Run σ Reply) :
    List Job → σ → List Job × σ
  | [], s => ([], s)
  | j :: js, s =>
    let (j, s) := j.turns host settings send (settings.batchMaxRetries.toNat + 1) s
    let (js, s) := finish host settings send js s
    (j :: js, s)

/-- The jobs of some chunks after taking turns in an order and then to the end. -/
def jobsInTurns (host : Host σ) (settings : Settings) (order : List Nat)
    (send : Chunk → Run σ Reply) (cs : List Chunk) (s : σ) : List Job × σ :=
  let (js, s) := interleave host settings send order (cs.map (Job.start settings)) s
  finish host settings send js s

/-- Drives all chunks, which take turns in an order. -/
def driveInTurns (host : Host σ) (settings : Settings) (order : List Nat) : Driver σ :=
  fun send cs s =>
    let (js, s) := jobsInTurns host settings order send cs s
    (.ok (js.map Job.result), s)

/-! ## One job by itself -/

section

variable (host : Host σ) (settings : Settings) (send : Chunk → Run σ Reply)

/-- A turn after which a job waits for its next one. -/
theorem turn_of_waiting {j : Job} {budget : Nat} {p q : Progress} {s : σ} {seconds : Double}
    (h : j.stage = .driving (budget + 1) p) (hne : p.chunk.requests.isEmpty = false)
    (hsettle : settle p (send p.chunk s).1 = .ok q) (hleft : q.chunk.requests.isEmpty = false)
    (hwaiting : waiting settings (q.chunk.attempts + 1) = .ok seconds) :
    j.turn host settings send s = (⟨j.fresh, j.sendings ++ [⟨p.chunk, (send p.chunk s).1⟩],
      .driving budget { q with chunk := { q.chunk with attempts := q.chunk.attempts + 1 } }⟩,
      (host.pause seconds (send p.chunk s).2).2) := by
  have hstage : stageAfter settings (budget + 1) p (send p.chunk s).1 =
      .driving budget { q with chunk := { q.chunk with attempts := q.chunk.attempts + 1 } } := by
    unfold stageAfter
    rw [hsettle]
    dsimp only
    rw [hleft, hwaiting]
    rfl
  unfold Job.turn
  rw [h]
  dsimp only
  rw [hne, hstage, Stage.rested]
  dsimp only
  rw [hwaiting]
  rfl

theorem turns_of_ended (n : Nat) {j : Job} {r : Except Failure Progress}
    (h : j.stage = .ended r) (s : σ) : j.turns host settings send n s = (j, s) := by
  induction n with
  | zero => rfl
  | succ n ih =>
    have hturn : j.turn host settings send s = (j, s) := by
      unfold Job.turn
      rw [h]
    rw [Job.turns, hturn]
    exact ih

theorem attempt_apply (p : Progress) (s : σ) :
    attempt send p s = if p.chunk.requests.isEmpty then (.ok p, s)
      else (settle p (send p.chunk s).1, (send p.chunk s).2) := by
  unfold attempt
  split
  · rfl
  · rw [Run.bind_apply, Run.outcome_apply]
    exact Run.lift_apply _ _

theorem backoff_apply (c : Chunk) (s : σ) :
    backoff host settings c s =
      match waiting settings (c.attempts + 1) with
      | .error m => (.error (.mishap m), s)
      | .ok seconds => (.ok { c with attempts := c.attempts + 1 }, (host.pause seconds s).2) := by
  unfold backoff
  rw [Run.bind_apply, Run.lift_apply]
  cases waiting settings (c.attempts + 1) with
  | error m => rfl
  | ok seconds => rfl

/-- What a send leaves to do: the chunk is at its end, or driven on after the delay. -/
theorem drive_eq_stageAfter (budget : Nat) {p : Progress} (hp : p.chunk.requests.isEmpty = false)
    (s : σ) :
    drive host settings send budget p s =
      match stageAfter settings budget p (send p.chunk s).1 with
      | .ended r => (r, (send p.chunk s).2)
      | .driving b p' => drive host settings send b p'
          ((Stage.driving b p').rested host settings (send p.chunk s).2) := by
  have hattempt : attempt send p s = (settle p (send p.chunk s).1, (send p.chunk s).2) := by
    rw [attempt_apply, hp]
    rfl
  unfold stageAfter
  cases hsettle : settle p (send p.chunk s).1 with
  | error f =>
    rw [hsettle] at hattempt
    cases budget with
    | zero => rw [drive, hattempt]
    | succ budget => rw [drive, Run.bind_apply, hattempt]
  | ok p' =>
    rw [hsettle] at hattempt
    cases hempty : p'.chunk.requests.isEmpty with
    | true =>
      cases budget with
      | zero =>
        rw [drive, hattempt]
        simp only [hempty, if_true]
      | succ budget =>
        rw [drive, Run.bind_apply, hattempt]
        simp only [hempty, if_true]
        rfl
    | false =>
      cases budget with
      | zero =>
        rw [drive, hattempt]
        simp only [hempty, Bool.false_eq_true, if_false]
      | succ budget =>
        rw [drive, Run.bind_apply, hattempt]
        simp only [hempty, Bool.false_eq_true, if_false]
        rw [Run.bind_apply, backoff_apply]
        cases hwaiting : waiting settings (p'.chunk.attempts + 1) with
        | error m => rfl
        | ok seconds => simp only [Stage.rested, hwaiting]

/-- A send that is followed by another one takes one repetition off the budget. -/
theorem budget_of_stageAfter {budget b : Nat} {p p' : Progress} {o : Except Failure Reply}
    (h : stageAfter settings budget p o = .driving b p') : budget = b + 1 := by
  unfold stageAfter at h
  split at h
  · cases h
  · split at h
    · cases h
    · split at h
      · cases h
      · split at h <;> cases h
        rfl

/-- A job that is given as many turns as it can need is driven to its end. -/
theorem turns_eq_drive {budget n : Nat} (hn : budget < n) {j : Job} {p : Progress}
    (h : j.stage = .driving budget p) (s : σ) :
    (j.turns host settings send n s).1.stage = .ended (drive host settings send budget p s).1 ∧
      (j.turns host settings send n s).2 = (drive host settings send budget p s).2 := by
  induction n generalizing budget j p s with
  | zero => omega
  | succ n ih =>
    rw [Job.turns]
    unfold Job.turn
    rw [h]
    cases hp : p.chunk.requests.isEmpty with
    | true =>
      simp only [hp, if_true]
      rw [turns_of_ended host settings send n (r := .ok p) rfl, drive_of_isEmpty _ _ _ _ hp]
      exact ⟨rfl, rfl⟩
    | false =>
      simp only [hp, Bool.false_eq_true, if_false]
      rw [drive_eq_stageAfter host settings send budget hp]
      cases hstage : stageAfter settings budget p (send p.chunk s).1 with
      | ended r =>
        rw [turns_of_ended host settings send n (r := r) rfl]
        exact ⟨rfl, rfl⟩
      | driving b p' =>
        have hb := budget_of_stageAfter settings hstage
        exact ih (by omega) rfl _

end

/-! ## All jobs -/

section

variable (host : Host σ) (settings : Settings) (send : Chunk → Run σ Reply)

/-- Jobs that are finished one after another are driven one after another. -/
theorem finish_start (cs : List Chunk) (s : σ) :
    driveEach host settings send cs s =
      (.ok ((finish host settings send (cs.map (Job.start settings)) s).1.map Job.result),
        (finish host settings send (cs.map (Job.start settings)) s).2) := by
  induction cs generalizing s with
  | nil => rfl
  | cons c cs ih =>
    obtain ⟨hstage, hstate⟩ := turns_eq_drive host settings send
      (Nat.lt_succ_self settings.batchMaxRetries.toNat) (j := Job.start settings c) rfl s
    rw [driveEach, Run.bind_apply, Run.outcome_apply, List.map_cons, finish]
    simp only [List.map_cons, hstate]
    rw [Run.bind_apply, show driveFresh host settings send c s =
      drive host settings send settings.batchMaxRetries.toNat ⟨c, []⟩ s from rfl, ih]
    simp only [Job.result, hstage]
    rfl

/-- Without turns all chunks are driven one after another. -/
theorem driveInTurns_nil : driveInTurns host settings [] = driveEach host settings := by
  funext send cs s
  rw [finish_start]
  rfl

end

/-! ## What turns preserve -/

section

variable {host : Host σ} {settings : Settings} {send : Chunk → Run σ Reply}
  {Q : List Job → σ → Prop}
  (hstep : ∀ before j after s, Q (before ++ j :: after) s →
    Q (before ++ (j.turn host settings send s).1 :: after) (j.turn host settings send s).2)

include hstep

theorem turns_joint (n : Nat) {before : List Job} {j : Job} {after : List Job} {s : σ}
    (h : Q (before ++ j :: after) s) :
    Q (before ++ (j.turns host settings send n s).1 :: after) (j.turns host settings send n s).2 := by
  induction n generalizing j s with
  | zero => exact h
  | succ n ih =>
    rw [Job.turns]
    exact ih (hstep before j after s h)

theorem interleave_joint (order : List Nat) {js : List Job} {s : σ} (h : Q js s) :
    Q (interleave host settings send order js s).1 (interleave host settings send order js s).2 := by
  induction order generalizing js s with
  | nil => exact h
  | cons i order ih =>
    rw [interleave]
    cases hi : js[i]? with
    | none => exact ih h
    | some j =>
      obtain ⟨hlt, rfl⟩ := List.getElem?_eq_some_iff.1 hi
      refine ih ?_
      rw [List.set_eq_take_append_cons_drop, if_pos hlt]
      refine hstep (js.take i) js[i] (js.drop (i + 1)) s ?_
      rwa [List.getElem_cons_drop, List.take_append_drop]

theorem finish_joint (done : List Job) {js : List Job} {s : σ} (h : Q (done ++ js) s) :
    Q (done ++ (finish host settings send js s).1) (finish host settings send js s).2 := by
  induction js generalizing done s with
  | nil => exact h
  | cons j js ih =>
    have hj := turns_joint hstep (settings.batchMaxRetries.toNat + 1) h
    rw [← List.singleton_append, ← List.append_assoc] at hj
    have hall := ih (done ++ [_]) hj
    rw [List.append_assoc, List.singleton_append] at hall
    exact hall

/-- What every turn preserves of all jobs together holds of them in the end, in whatever order they take
    turns. -/
theorem jobsInTurns_joint (order : List Nat) {cs : List Chunk} {s : σ}
    (h : Q (cs.map (Job.start settings)) s) :
    Q (jobsInTurns host settings order send cs s).1 (jobsInTurns host settings order send cs s).2 :=
  finish_joint hstep [] (interleave_joint hstep order h)

end

section

variable {host : Host σ} {settings : Settings} {send : Chunk → Run σ Reply}
  {P : Job → Prop} {I : σ → Prop}

theorem joint_of_each
    (hstep : ∀ j s, P j → I s → P (j.turn host settings send s).1 ∧
      I (j.turn host settings send s).2) (before : List Job) (j : Job) (after : List Job) (s : σ)
    (h : (∀ k ∈ before ++ j :: after, P k) ∧ I s) :
    (∀ k ∈ before ++ (j.turn host settings send s).1 :: after, P k) ∧
      I (j.turn host settings send s).2 := by
  obtain ⟨hjs, hs⟩ := h
  obtain ⟨hbefore, hafter⟩ := List.forall_mem_append.1 hjs
  obtain ⟨hj, hafter⟩ := List.forall_mem_cons.1 hafter
  obtain ⟨hj, hs⟩ := hstep j s hj hs
  exact ⟨List.forall_mem_append.2 ⟨hbefore, List.forall_mem_cons.2 ⟨hj, hafter⟩⟩, hs⟩

theorem interleave_invariant
    (hstep : ∀ j s, P j → I s → P (j.turn host settings send s).1 ∧
      I (j.turn host settings send s).2) (order : List Nat) {js : List Job} {s : σ}
    (hjs : ∀ j ∈ js, P j) (hs : I s) :
    (∀ j ∈ (interleave host settings send order js s).1, P j) ∧
      I (interleave host settings send order js s).2 :=
  interleave_joint (Q := fun js s => (∀ j ∈ js, P j) ∧ I s) (joint_of_each hstep) order ⟨hjs, hs⟩

/-- What every turn preserves of its job holds of all jobs in the end, in whatever order they take
    turns. -/
theorem jobsInTurns_invariant
    (hstep : ∀ j s, P j → I s → P (j.turn host settings send s).1 ∧
      I (j.turn host settings send s).2) (order : List Nat) {cs : List Chunk} {s : σ}
    (hstart : ∀ c ∈ cs, P (Job.start settings c)) (hs : I s) :
    (∀ j ∈ (jobsInTurns host settings order send cs s).1, P j) ∧
      I (jobsInTurns host settings order send cs s).2 :=
  jobsInTurns_joint (Q := fun js s => (∀ j ∈ js, P j) ∧ I s) (joint_of_each hstep) order
    ⟨List.forall_mem_map.2 hstart, hs⟩

end

/-! ## All jobs come to an end -/

section

variable (host : Host σ) (settings : Settings) (send : Chunk → Run σ Reply)

theorem fresh_turn (j : Job) (s : σ) : (j.turn host settings send s).1.fresh = j.fresh := by
  unfold Job.turn
  split
  · rfl
  · split <;> rfl

theorem fresh_turns (n : Nat) (j : Job) (s : σ) :
    (j.turns host settings send n s).1.fresh = j.fresh := by
  induction n generalizing j s with
  | zero => rfl
  | succ n ih => rw [Job.turns, ih, fresh_turn]

theorem map_fresh_interleave (order : List Nat) (js : List Job) (s : σ) :
    (interleave host settings send order js s).1.map Job.fresh = js.map Job.fresh := by
  induction order generalizing js s with
  | nil => rfl
  | cons i order ih =>
    rw [interleave]
    cases hi : js[i]? with
    | none => exact ih js s
    | some j =>
      obtain ⟨hlt, hget⟩ := List.getElem?_eq_some_iff.1 hi
      rw [ih, List.map_set, fresh_turn, ← hget]
      rw [← List.getElem_map Job.fresh (h := by rwa [List.length_map]), List.set_getElem_self]

theorem map_fresh_finish (js : List Job) (s : σ) :
    (finish host settings send js s).1.map Job.fresh = js.map Job.fresh := by
  induction js generalizing s with
  | nil => rfl
  | cons j js ih => rw [finish, List.map_cons, List.map_cons, fresh_turns, ih]

/-- There is one job for each chunk, in the order of the chunks. -/
theorem map_fresh_jobsInTurns (order : List Nat) (cs : List Chunk) (s : σ) :
    (jobsInTurns host settings order send cs s).1.map Job.fresh = cs := by
  unfold jobsInTurns
  rw [map_fresh_finish, map_fresh_interleave, List.map_map]
  exact List.map_id cs

/-- Without chunks there is nothing to do. -/
theorem jobsInTurns_nil (order : List Nat) (s : σ) :
    jobsInTurns host settings order send [] s = ([], s) := by
  have hpassed : interleave host settings send order [] s = ([], s) := by
    induction order with
    | nil => rfl
    | cons i order ih =>
      rw [interleave]
      exact ih
  unfold jobsInTurns
  rw [List.map_nil, hpassed]
  rfl

/-- A job whose budget is not above the number of repetitions. -/
def Job.IsWithin (settings : Settings) (j : Job) : Prop :=
  ∀ b p, j.stage = .driving b p → b ≤ settings.batchMaxRetries.toNat

theorem isWithin_turn {j : Job} (h : j.IsWithin settings) (s : σ) :
    (j.turn host settings send s).1.IsWithin settings := by
  intro b p hstage
  unfold Job.turn at hstage
  split at hstage
  · exact h b p hstage
  · rename_i budget q hj
    have hle := h budget q hj
    split at hstage
    · cases hstage
    · have := budget_of_stageAfter settings hstage
      omega

theorem ended_of_finish {js : List Job} (h : ∀ j ∈ js, j.IsWithin settings) (s : σ) :
    ∀ j ∈ (finish host settings send js s).1, ∃ r, j.stage = .ended r := by
  induction js generalizing s with
  | nil => exact fun j hj => absurd hj List.not_mem_nil
  | cons j js ih =>
    rw [finish]
    intro k hk
    cases List.mem_cons.1 hk with
    | inr hk => exact ih (fun l hl => h l (List.mem_cons_of_mem _ hl)) _ k hk
    | inl hk =>
      rw [hk]
      cases hj : j.stage with
      | ended r => exact ⟨r, by rw [turns_of_ended _ _ _ _ hj, hj]⟩
      | driving b p =>
        have hle := h j List.mem_cons_self b p hj
        exact ⟨_, (turns_eq_drive host settings send (Nat.lt_succ_of_le hle) hj s).1⟩

/-- In whatever order they take turns, all jobs come to an end. -/
theorem ended_of_jobsInTurns (order : List Nat) (cs : List Chunk) (s : σ) :
    ∀ j ∈ (jobsInTurns host settings order send cs s).1, ∃ r, j.stage = .ended r := by
  have hstart : ∀ j ∈ cs.map (Job.start settings), j.IsWithin settings := by
    intro j hj b p hstage
    obtain ⟨c, -, rfl⟩ := List.mem_map.1 hj
    cases hstage
    exact Nat.le_refl _
  obtain ⟨hjs, -⟩ := interleave_invariant (I := fun _ => True)
    (fun j t hj _ => ⟨isWithin_turn host settings send hj t, trivial⟩) order hstart (s := s) trivial
  exact ended_of_finish host settings send hjs _

end

end ItemStore.Batch
