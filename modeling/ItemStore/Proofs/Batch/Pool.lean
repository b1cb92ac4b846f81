import ItemStore.Proofs.Batch.Turns
import Mathlib.Algebra.BigOperators.Group.List.Basic
import Mathlib.Logic.Relation

/-
  Chunks on a pool of workers. The workers are given out in the order of the chunks, and a chunk keeps its
  worker to its end; so a chunk that is still driven has a worker if fewer of the chunks before it are
  driven than there are workers. In a step of the pool any one of the chunks that have a worker takes a
  turn: it is sent once more, and what follows from the send is done. What the pool comes to is reached
  by any number of steps.

  Main statements: `exists_step` and `wellFounded_step` (the pool goes on until all chunks are at their
  end, and it does not go on forever), `reaches_eachInTurn` and `reaches_jobsInTurns` (driving one chunk
  after another is a way that the pool can take, and so is any order of turns) and `eq_of_reaches` (where
  the answer to a send depends on what is sent and on how often the chunk was sent before, all ways that
  the pool can take end with the same jobs).
-/

namespace ItemStore.Batch

variable {σ : Type}

/-! ## Steps -/

/-- Whether a job is still driven. -/
def Job.isDriven (j : Job) : Bool :=
  match j.stage with
  | .driving .. => true
  | .ended _ => false

/-- Jobs in the order of their chunks, and the state of the host. -/
abbrev Pool (σ : Type) := List Job × σ

/-- Whether there is a worker for a job that stands behind some others. -/
def HasWorker (settings : Settings) (before : List Job) : Prop :=
  (before.countP Job.isDriven : Int) < settings.batchConcurrency

/-- A step of the pool: a job that is driven and has a worker takes a turn. -/
inductive Step (host : Host σ) (settings : Settings) (send : Chunk → Run σ Reply) :
    Pool σ → Pool σ → Prop
  | turn {before after : List Job} {j : Job} {s : σ} : j.isDriven = true →
      HasWorker settings before →
      Step host settings send (before ++ j :: after, s)
        (before ++ (j.turn host settings send s).1 :: after, (j.turn host settings send s).2)

/-- What the pool can come to. -/
abbrev Reaches (host : Host σ) (settings : Settings) (send : Chunk → Run σ Reply) :
    Pool σ → Pool σ → Prop :=
  Relation.ReflTransGen (Step host settings send)

/-- The pool with chunks that were not sent yet. -/
def startPool (settings : Settings) (cs : List Chunk) (s : σ) : Pool σ :=
  (cs.map (Job.start settings), s)

/-- All jobs are at their end. -/
def AllEnded (js : List Job) : Prop := ∀ j ∈ js, j.isDriven = false

theorem isDriven_eq_false_iff {j : Job} : j.isDriven = false ↔ ∃ r, j.stage = .ended r := by
  unfold Job.isDriven
  cases j.stage with
  | driving b p => exact ⟨fun h => (nomatch h), fun ⟨_, h⟩ => (nomatch h)⟩
  | ended r => exact ⟨fun _ => ⟨r, rfl⟩, fun _ => rfl⟩

section

variable {host : Host σ} {settings : Settings} {send : Chunk → Run σ Reply}

/-! ## The pool goes on to the end -/

/-- Of some jobs, the first that is driven. -/
theorem exists_first_driven {js : List Job} (h : ¬ AllEnded js) :
    ∃ before j after, js = before ++ j :: after ∧ j.isDriven = true ∧
      before.countP Job.isDriven = 0 := by
  induction js with
  | nil =>
    exfalso
    apply h
    intro j hj
    cases hj
  | cons k js ih =>
    by_cases hk : k.isDriven = true
    · exact ⟨[], k, js, rfl, hk, rfl⟩
    · have hrest : ¬ AllEnded js := by
        intro hall
        apply h
        intro j hj
        rcases List.mem_cons.1 hj with rfl | hj
        · rwa [Bool.not_eq_true] at hk
        · exact hall j hj
      obtain ⟨before, j, after, rfl, hj, hnone⟩ := ih hrest
      refine ⟨k :: before, j, after, rfl, hj, ?_⟩
      rw [List.countP_cons_of_neg hk, hnone]

/-- As long as a job is driven, the pool can make a step. -/
theorem exists_step (hworkers : 1 ≤ settings.batchConcurrency) {js : List Job} (h : ¬ AllEnded js)
    (s : σ) : ∃ next, Step host settings send (js, s) next := by
  obtain ⟨before, j, after, rfl, hj, hnone⟩ := exists_first_driven h
  refine ⟨_, .turn hj ?_⟩
  unfold HasWorker
  rw [hnone]
  omega

/-- The turns that a job can still take. -/
def Job.remaining (j : Job) : Nat :=
  match j.stage with
  | .driving budget _ => budget + 1
  | .ended _ => 0

theorem remaining_turn {j : Job} (h : j.isDriven = true) (s : σ) :
    (j.turn host settings send s).1.remaining < j.remaining := by
  unfold Job.isDriven at h
  cases hstage : j.stage with
  | ended r =>
    rw [hstage] at h
    cases h
  | driving budget p =>
    unfold Job.turn Job.remaining
    rw [hstage]
    dsimp only
    by_cases hempty : p.chunk.requests.isEmpty = true
    · rw [if_pos hempty]
      exact Nat.succ_pos budget
    · rw [if_neg hempty]
      dsimp only
      cases hnext : stageAfter settings budget p (send p.chunk s).1 with
      | ended r => exact Nat.succ_pos budget
      | driving b q =>
        have := budget_of_stageAfter settings hnext
        dsimp only
        omega

/-- The pool does not go on forever. -/
theorem wellFounded_step :
    WellFounded fun next pool : Pool σ => Step host settings send pool next := by
  refine Subrelation.wf ?_ (measure fun pool : Pool σ => (pool.1.map Job.remaining).sum).wf
  rintro _ _ ⟨hj, -⟩
  rename_i before after j s
  have hless : (j.turn host settings send s).1.remaining < j.remaining := remaining_turn hj s
  show (List.map Job.remaining _).sum < (List.map Job.remaining _).sum
  rw [List.map_append, List.map_cons, List.map_append, List.map_cons, List.sum_append,
    List.sum_append, List.sum_cons, List.sum_cons]
  omega

/-! ## What steps preserve -/

/-- What every turn preserves of a job holds of all jobs that the pool comes to. -/
theorem reaches_invariant {P : Job → Prop}
    (hturn : ∀ j s, P j → P (j.turn host settings send s).1) {start pool : Pool σ}
    (hstart : ∀ j ∈ start.1, P j) (h : Reaches host settings send start pool) :
    ∀ j ∈ pool.1, P j := by
  induction h with
  | refl => exact hstart
  | tail _ hstep ih =>
    obtain @⟨before, after, k, s, -, -⟩ := hstep
    intro j hj
    have hk : P k := ih k (by simp)
    rcases List.mem_append.1 hj with hj | hj
    · exact ih j (List.mem_append_left _ hj)
    · rcases List.mem_cons.1 hj with rfl | hj
      · exact hturn k s hk
      · exact ih j (List.mem_append_right _ (List.mem_cons_of_mem _ hj))

theorem map_fresh_step {pool next : Pool σ} (h : Step host settings send pool next) :
    next.1.map Job.fresh = pool.1.map Job.fresh := by
  obtain @⟨before, after, j, s, -, -⟩ := h
  simp only [List.map_append, List.map_cons, fresh_turn]

/-- There is one job for each chunk, in the order of the chunks. -/
theorem map_fresh_reaches {cs : List Chunk} {s : σ} {pool : Pool σ}
    (h : Reaches host settings send (startPool settings cs s) pool) :
    pool.1.map Job.fresh = cs := by
  induction h with
  | refl =>
    unfold startPool
    rw [List.map_map]
    exact List.map_id cs
  | tail _ hstep ih => rw [map_fresh_step hstep, ih]

/-- A pool without jobs stays as it is. -/
theorem eq_of_reaches_nil {s : σ} {pool : Pool σ} (h : Reaches host settings send ([], s) pool) :
    pool = ([], s) := by
  rcases h.cases_head with heq | ⟨next, hstep, -⟩
  · exact heq.symm
  · generalize hstart : ([], s) = start at hstep
    obtain @⟨before, after, j, t, -, -⟩ := hstep
    have hnil := congrArg Prod.fst hstart
    exact absurd hnil (by simp)

/-! ## One chunk after another -/

/-- A job behind others that are at their end can take any number of turns. -/
theorem reaches_turns (hworkers : 1 ≤ settings.batchConcurrency) {done : List Job}
    (hdone : AllEnded done) (n : Nat) (j : Job) (rest : List Job) (s : σ) :
    Reaches host settings send (done ++ j :: rest, s)
      (done ++ (j.turns host settings send n s).1 :: rest, (j.turns host settings send n s).2) := by
  have hworker : HasWorker settings done := by
    have hnone : done.countP Job.isDriven = 0 := by
      rw [List.countP_eq_zero]
      intro k hk
      rw [hdone k hk]
      exact Bool.false_ne_true
    unfold HasWorker
    rw [hnone]
    omega
  induction n generalizing j s with
  | zero => exact .refl
  | succ n ih =>
    rw [Job.turns]
    by_cases hj : j.isDriven = true
    · exact .head (.turn hj hworker) (ih _ _)
    · rw [Bool.not_eq_true, isDriven_eq_false_iff] at hj
      obtain ⟨r, hr⟩ := hj
      have hturn : j.turn host settings send s = (j, s) := by
        unfold Job.turn
        rw [hr]
      rw [hturn]
      exact ih j s

/-- Jobs can be finished one after another. -/
theorem reaches_finish (hworkers : 1 ≤ settings.batchConcurrency) (done : List Job) {js : List Job}
    (hdone : AllEnded done) (hjs : ∀ j ∈ js, j.IsWithin settings) (s : σ) :
    Reaches host settings send (done ++ js, s)
      (done ++ (finish host settings send js s).1, (finish host settings send js s).2) := by
  induction js generalizing done s with
  | nil => exact .refl
  | cons j js ih =>
    -- the first job comes to its end and joins those that are done
    have hturns : Reaches host settings send _ _ :=
      reaches_turns hworkers hdone (settings.batchMaxRetries.toNat + 1) j js s
    have hended := ended_of_finish host settings send hjs s
    rw [finish] at hended ⊢
    dsimp only at hended ⊢
    have hj := hended _ List.mem_cons_self
    have hrest := ih (done ++ [(j.turns host settings send (settings.batchMaxRetries.toNat + 1) s).1])
      (fun k hk => by
        rcases List.mem_append.1 hk with hk | hk
        · exact hdone k hk
        · rw [List.mem_singleton.1 hk]
          exact isDriven_eq_false_iff.2 hj)
      (fun k hk => hjs k (List.mem_cons_of_mem _ hk))
      (j.turns host settings send (settings.batchMaxRetries.toNat + 1) s).2
    rw [List.append_assoc, List.append_assoc] at hrest
    exact hturns.trans hrest

/-- The jobs that are driven one after another. -/
def eachInTurn (host : Host σ) (settings : Settings) (send : Chunk → Run σ Reply) (cs : List Chunk)
    (s : σ) : Pool σ :=
  finish host settings send (cs.map (Job.start settings)) s

theorem isWithin_start (c : Chunk) : (Job.start settings c).IsWithin settings := by
  intro b p h
  cases h
  exact Nat.le_refl _

/-- Driving one chunk after another is a way that the pool can take to the end. -/
theorem reaches_eachInTurn (hworkers : 1 ≤ settings.batchConcurrency) (cs : List Chunk) (s : σ) :
    Reaches host settings send (startPool settings cs s) (eachInTurn host settings send cs s) ∧
      AllEnded (eachInTurn host settings send cs s).1 := by
  have hwithin : ∀ j ∈ cs.map (Job.start settings), j.IsWithin settings :=
    List.forall_mem_map.2 fun c _ => isWithin_start c
  have hnil : AllEnded [] := fun j hj => absurd hj List.not_mem_nil
  refine ⟨reaches_finish hworkers [] hnil hwithin s, fun j hj => ?_⟩
  exact isDriven_eq_false_iff.2 (ended_of_finish host settings send hwithin s j hj)

/-! ## Turns in an order -/

/-- With a worker for each chunk, any order of turns is a way that the pool can take. -/
theorem reaches_interleave (order : List Nat) {js : List Job} (s : σ)
    (hworkers : (js.length : Int) ≤ settings.batchConcurrency) :
    Reaches host settings send (js, s) (interleave host settings send order js s) := by
  induction order generalizing js s with
  | nil => exact .refl
  | cons i order ih =>
    rw [interleave]
    cases hi : js[i]? with
    | none => exact ih s hworkers
    | some j =>
      obtain ⟨hlt, hget⟩ := List.getElem?_eq_some_iff.1 hi
      have hjs : js = js.take i ++ j :: js.drop (i + 1) := by
        rw [← hget, ← List.drop_eq_getElem_cons hlt, List.take_append_drop]
      have hset (k : Job) : js.set i k = js.take i ++ k :: js.drop (i + 1) :=
        List.set_eq_take_append_cons_drop.trans (if_pos hlt)
      have hrest : Reaches host settings send
          (js.set i (j.turn host settings send s).1, (j.turn host settings send s).2) _ :=
        ih _ (by rwa [List.length_set])
      by_cases hj : j.isDriven = true
      · refine .head ?_ hrest
        have hcount : (js.take i).countP Job.isDriven ≤ i :=
          Nat.le_trans List.countP_le_length (List.length_take_le i js)
        have hworker : HasWorker settings (js.take i) := by
          unfold HasWorker
          omega
        have hstep : Step host settings send (js.take i ++ j :: js.drop (i + 1), s) _ :=
          .turn hj hworker
        rwa [← hjs, ← hset] at hstep
      · obtain ⟨r, hr⟩ := isDriven_eq_false_iff.1 (Bool.not_eq_true _ ▸ hj)
        have hturn : j.turn host settings send s = (j, s) := by
          unfold Job.turn
          rw [hr]
        have hsame : (js.set i (j.turn host settings send s).1, (j.turn host settings send s).2) =
            (js, s) := by
          rw [hturn, hset, ← hjs]
        rw [hsame] at hrest
        exact hrest

/-- With a worker for each chunk, the chunks can take turns in any order and then come to the end. -/
theorem reaches_jobsInTurns (hworkers : 1 ≤ settings.batchConcurrency) (order : List Nat)
    {cs : List Chunk} (hmany : (cs.length : Int) ≤ settings.batchConcurrency) (s : σ) :
    Reaches host settings send (startPool settings cs s)
        (jobsInTurns host settings order send cs s) ∧
      AllEnded (jobsInTurns host settings order send cs s).1 := by
  have hnil : AllEnded [] := fun j hj => absurd hj List.not_mem_nil
  have hwithin : ∀ j ∈ (interleave host settings send order (cs.map (Job.start settings)) s).1,
      j.IsWithin settings :=
    (interleave_invariant (P := fun j => j.IsWithin settings) (I := fun _ => True)
      (fun _ t hj _ => ⟨isWithin_turn host settings send hj t, trivial⟩) order
      (List.forall_mem_map.2 fun c _ => isWithin_start c) trivial).1
  constructor
  · have hinterleave : Reaches host settings send (cs.map (Job.start settings), s) _ :=
      reaches_interleave order s (by rwa [List.length_map])
    exact hinterleave.trans (reaches_finish hworkers [] hnil hwithin _)
  · exact fun j hj => isDriven_eq_false_iff.2
      (ended_of_finish host settings send hwithin _ j hj)

/-! ## All ways end alike -/

/-- The answer to a send depends on the chunk as it is sent and on how often it was sent before. -/
def AnswersBy (host : Host σ) (settings : Settings) (send : Chunk → Run σ Reply) (start : Pool σ)
    (answer : Chunk → Nat → Except Failure Reply) : Prop :=
  ∀ before j after t, Reaches host settings send start (before ++ j :: after, t) →
    HasWorker settings before → ∀ budget p, j.stage = .driving budget p → p.chunk.requests ≠ [] →
      (send p.chunk t).1 = answer p.chunk j.sendings.length

/-- A turn of a job whose sends are answered so. -/
def Job.turnBy (settings : Settings) (answer : Chunk → Nat → Except Failure Reply) (j : Job) : Job :=
  match j.stage with
  | .ended _ => j
  | .driving budget p =>
    if p.chunk.requests.isEmpty then { j with stage := .ended (.ok p) }
    else
      let o := answer p.chunk j.sendings.length
      ⟨j.fresh, j.sendings ++ [⟨p.chunk, o⟩], stageAfter settings budget p o⟩

variable {answer : Chunk → Nat → Except Failure Reply}

theorem fresh_turnBy (j : Job) : (j.turnBy settings answer).fresh = j.fresh := by
  unfold Job.turnBy
  split
  · rfl
  · split <;> rfl

theorem turnBy_of_ended {j : Job} (h : j.isDriven = false) : j.turnBy settings answer = j := by
  obtain ⟨r, hr⟩ := isDriven_eq_false_iff.1 h
  unfold Job.turnBy
  rw [hr]

theorem turn_eq_turnBy {j : Job} {s : σ} (h : ∀ budget p, j.stage = .driving budget p →
    p.chunk.requests ≠ [] → (send p.chunk s).1 = answer p.chunk j.sendings.length) :
    (j.turn host settings send s).1 = j.turnBy settings answer := by
  unfold Job.turn Job.turnBy
  cases hstage : j.stage with
  | ended r => rfl
  | driving budget p =>
    dsimp only
    by_cases hempty : p.chunk.requests.isEmpty = true
    · rw [if_pos hempty, if_pos hempty]
    · rw [if_neg hempty, if_neg hempty, h budget p hstage fun hnil => hempty (List.isEmpty_iff.2 hnil)]

/-- A job after a number of turns that are answered so. -/
def Job.IsOnCourse (settings : Settings) (answer : Chunk → Nat → Except Failure Reply) (j : Job) :
    Prop :=
  ∃ n, j = (Job.turnBy settings answer)^[n] (Job.start settings j.fresh)

/-- All jobs that the pool comes to are on the course that the answers set. -/
theorem isOnCourse_of_reaches {cs : List Chunk} {s : σ} {pool : Pool σ}
    (hanswers : AnswersBy host settings send (startPool settings cs s) answer)
    (h : Reaches host settings send (startPool settings cs s) pool) :
    ∀ j ∈ pool.1, j.IsOnCourse settings answer := by
  induction h with
  | refl => exact List.forall_mem_map.2 fun c _ => ⟨0, rfl⟩
  | tail hreached hstep ih =>
    obtain @⟨before, after, k, t, -, hworker⟩ := hstep
    have hturn : (k.turn host settings send t).1 = k.turnBy settings answer :=
      turn_eq_turnBy (hanswers before k after t hreached hworker)
    obtain ⟨n, hn⟩ := ih k (by simp)
    have hk : ((k.turn host settings send t).1).IsOnCourse settings answer := by
      refine ⟨n + 1, ?_⟩
      rw [hturn, fresh_turnBy, Function.iterate_succ_apply', ← hn]
    intro j hj
    rcases List.mem_append.1 hj with hj | hj
    · exact ih j (List.mem_append_left _ hj)
    · rcases List.mem_cons.1 hj with rfl | hj
      · exact hk
      · exact ih j (List.mem_append_right _ (List.mem_cons_of_mem _ hj))

/-- A job that is at its end stays as it is. -/
theorem iterate_of_ended {j : Job} (h : j.isDriven = false) (n : Nat) :
    (Job.turnBy settings answer)^[n] j = j := by
  induction n with
  | zero => rfl
  | succ n ih => rw [Function.iterate_succ_apply, turnBy_of_ended h, ih]

/-- A course has one end. -/
theorem eq_of_isOnCourse {j k : Job} (hj : j.IsOnCourse settings answer)
    (hk : k.IsOnCourse settings answer) (hfresh : j.fresh = k.fresh) (hjend : j.isDriven = false)
    (hkend : k.isDriven = false) : j = k := by
  -- the one with fewer turns is at its end and would not change in the turns that the other has more
  have hle {j k : Job} {n m : Nat} (hnm : n ≤ m)
      (hj : j = (Job.turnBy settings answer)^[n] (Job.start settings j.fresh))
      (hk : k = (Job.turnBy settings answer)^[m] (Job.start settings k.fresh))
      (hfresh : j.fresh = k.fresh) (hjend : j.isDriven = false) : j = k := by
    obtain ⟨d, rfl⟩ := Nat.exists_eq_add_of_le hnm
    rw [Nat.add_comm, Function.iterate_add_apply, ← hfresh, ← hj, iterate_of_ended hjend] at hk
    exact hk.symm
  obtain ⟨n, hn⟩ := hj
  obtain ⟨m, hm⟩ := hk
  rcases Nat.le_total n m with hnm | hmn
  · exact hle hnm hn hm hfresh hjend
  · exact (hle hmn hm hn hfresh.symm hkend).symm

/-- Jobs of the same chunks are the same if those of one chunk are. -/
theorem eq_of_map_fresh {js ks : List Job} (hmap : js.map Job.fresh = ks.map Job.fresh)
    (h : ∀ j ∈ js, ∀ k ∈ ks, j.fresh = k.fresh → j = k) : js = ks := by
  induction js generalizing ks with
  | nil => exact (List.map_eq_nil_iff.1 hmap.symm).symm
  | cons j js ih =>
    cases ks with
    | nil => cases hmap
    | cons k ks =>
      rw [List.map_cons, List.map_cons, List.cons.injEq] at hmap
      rw [h j List.mem_cons_self k List.mem_cons_self hmap.1,
        ih hmap.2 fun x hx y hy => h x (List.mem_cons_of_mem _ hx) y (List.mem_cons_of_mem _ hy)]

/-- All ways that the pool can take end with the same jobs. -/
theorem eq_of_reaches {cs : List Chunk} {s t t' : σ} {js ks : List Job}
    (hanswers : AnswersBy host settings send (startPool settings cs s) answer)
    (hjs : Reaches host settings send (startPool settings cs s) (js, t)) (hjsend : AllEnded js)
    (hks : Reaches host settings send (startPool settings cs s) (ks, t')) (hksend : AllEnded ks) :
    js = ks := by
  have hmap : js.map Job.fresh = ks.map Job.fresh :=
    (map_fresh_reaches hjs).trans (map_fresh_reaches hks).symm
  refine eq_of_map_fresh hmap fun j hj k hk hfresh => ?_
  exact eq_of_isOnCourse (isOnCourse_of_reaches hanswers hjs j hj)
    (isOnCourse_of_reaches hanswers hks k hk) hfresh (hjsend j hj) (hksend k hk)

end

end ItemStore.Batch
