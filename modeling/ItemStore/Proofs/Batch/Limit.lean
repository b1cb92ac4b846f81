import ItemStore.Batch.Get
import ItemStore.Proofs.Backend.Keeps

/-
  Limits. A batch get with a limit keeps the first items over all tables: the table in which the limit is
  reached is cut off there, and the tables behind it have no items. The limit is no part of what is sent,
  so everything is got first, and the answer is cut out of the one to the same request without a limit.

  Main statement: `limit_keeps_first`.
-/

namespace ItemStore.Batch

/-! ## Items by table -/

/-- The items of some tables, in the order of the tables. -/
abbrev Listing := List (Value × List Value)

namespace Listing

/-- A listing as the entries of an answer. -/
def entries (l : Listing) : Entries := l.map fun e => (e.1, .list e.2)

/-- All items one after another. -/
def items (l : Listing) : List Value := l.flatMap Prod.snd

/-- The first `n` items, each under its table. -/
def first : Nat → Listing → Listing
  | _, [] => []
  | n, (table, xs) :: l => (table, xs.take n) :: first (n - xs.length) l

/-- They stand under the same tables, and of each table they are the first ones. -/
theorem forall₂_first (n : Nat) (l : Listing) :
    List.Forall₂ (fun kept e => kept.1 = e.1 ∧ kept.2 <+: e.2) (first n l) l := by
  induction l generalizing n with
  | nil => exact .nil
  | cons e l ih => exact .cons ⟨rfl, List.take_prefix n e.2⟩ (ih _)

theorem tables_first (n : Nat) (l : Listing) : (first n l).map Prod.fst = l.map Prod.fst := by
  rw [← List.forall₂_eq_eq_eq, List.forall₂_map_left_iff, List.forall₂_map_right_iff]
  exact (forall₂_first n l).imp fun _ _ h => h.1

/-- One after another they are the first items of all. -/
theorem items_first (n : Nat) (l : Listing) : (first n l).items = l.items.take n := by
  induction l generalizing n with
  | nil => exact List.take_nil.symm
  | cons e l ih =>
    show e.2.take n ++ items (first (n - e.2.length) l) = (e.2 ++ items l).take n
    rw [ih, List.take_append]

theorem eq_nil_of_mem_first_zero {l : Listing} {e : Value × List Value} (h : e ∈ first 0 l) :
    e.2 = [] := by
  induction l with
  | nil => cases h
  | cons e' l ih =>
    rw [first, Nat.zero_sub, List.take_zero] at h
    rcases List.mem_cons.1 h with rfl | h
    · rfl
    · exact ih h

/-- Behind a table that is cut off nothing is left. -/
theorem behind_first (n : Nat) (l : Listing) :
    ((first n l).zip l).Pairwise fun a b => a.1.2 ≠ a.2.2 → b.1.2 = [] := by
  induction l generalizing n with
  | nil => exact .nil
  | cons e l ih =>
    rw [first, List.zip_cons_cons]
    refine .cons (fun b hb hcut => ?_) (ih _)
    have hlt : n < e.2.length := by
      by_contra hle
      exact hcut (List.take_of_length_le (Nat.le_of_not_lt hle))
    have hmem : b.1 ∈ first (n - e.2.length) l := (List.of_mem_zip hb).1
    rw [Nat.sub_eq_zero_of_le (Nat.le_of_lt hlt)] at hmem
    exact eq_nil_of_mem_first_zero hmem

end Listing

/-- Entries that hold lists are a listing. -/
theorem exists_listing {es : Entries} (h : ∀ e ∈ es, ∃ xs, e.2 = .list xs) :
    ∃ l : Listing, es = l.entries := by
  induction es with
  | nil => exact ⟨[], rfl⟩
  | cons e es ih =>
    obtain ⟨xs, hxs⟩ := h e List.mem_cons_self
    obtain ⟨l, rfl⟩ := ih fun e he => h e (List.mem_cons_of_mem _ he)
    have hentry : e = (e.1, .list xs) := Prod.ext rfl hxs
    exact ⟨(e.1, xs) :: l, congrArg (· :: Listing.entries l) hentry⟩

theorem merge_listed (found : List Pending) (wanted : Entries) :
    Ends (fun merged => ∃ l : Listing, merged = l.entries) (fun _ => True) (merge found wanted) := by
  have htable (table keys : Value) :
      Ends (fun v => ∃ xs, v = .list xs) (fun _ => True) (mergeTable found table keys) := by
    unfold mergeTable
    split
    · trivial
    · exact (Ends.of_true _).map fun xs _ => ⟨xs, rfl⟩
  have hentry (w : Value × Value) : Ends (fun e => ∃ xs, e.2 = .list xs) (fun _ => True)
      ((mergeTable found w.1 w.2).map fun items => (w.1, items)) := (htable w.1 w.2).map fun _ hv => hv
  exact (Ends.eachOf fun w _ => hentry w).imp fun _ => exists_listing

/-! ## Cutting -/

/-- What a limit leaves are the first items; a limit below zero leaves none. -/
theorem cap_entries (limit : Int) (l : Listing) :
    cap (.int limit) l.entries = .ok (l.first limit.toNat).entries := by
  induction l generalizing limit with
  | nil => rfl
  | cons e l ih =>
    have hrest : (limit - (e.2.take limit.toNat).length).toNat = limit.toNat - e.2.length := by
      rw [List.length_take]
      omega
    show cap (.int limit) ((e.1, .list e.2) :: Listing.entries l) = _
    rw [cap_cons_list, ih, hrest]
    rfl

/-- How the items that are kept under a limit stand to all items. -/
structure KeepsFirst (limit : Int) (merged kept : Listing) : Prop where
  /-- the tables are the same, in the same order -/
  tables : kept.map Prod.fst = merged.map Prod.fst
  /-- of each table the first items are kept -/
  prefixes : List.Forall₂ (fun k m => k.2 <+: m.2) kept merged
  /-- over all tables they are the first ones up to the limit -/
  first : kept.items = merged.items.take (max limit 0).toNat
  /-- a table behind one that was cut off has no items -/
  behind : (kept.zip merged).Pairwise fun a b => a.1.2 ≠ a.2.2 → b.1.2 = []
  /-- there are as many as the limit allows -/
  total : (kept.items.length : Int) = min (merged.items.length : Int) (max limit 0)

theorem keepsFirst_first (limit : Int) (l : Listing) : KeepsFirst limit l (l.first limit.toNat) := by
  have hmax : (max limit 0).toNat = limit.toNat := by omega
  refine ⟨l.tables_first _, (l.forall₂_first _).imp fun _ _ h => h.2, ?_, l.behind_first _, ?_⟩
  · rw [l.items_first, hmax]
  · rw [l.items_first, List.length_take]
    omega

/-! ## Whole requests -/

section

variable {σ : Type} (drives : Driver σ) (host : Host σ) (settings : Settings)

/-- Gets everything that a request asks for, whatever its limit is. -/
def gather (request : Entries) : Run σ Entries := do
  let items ← Run.lift (requestItems request)
  let wanted ← Run.lift (eachOf (fun e => wantedOf e.1 e.2) items)
  let extra := Value.without "Limit" (Value.without "RequestItems" request)
  let ps ← driveOut drives settings .batchGetItem Wire.unmarshalItem
    (sendKeys host settings wanted extra) settings.batchGetLimit (pendingKeys wanted)
  let found := ps.flatMap Progress.found
  Run.lift (merge found (wanted.map fun w => (w.table, .list w.keys)))

/-- A batch get cuts off what was gathered. -/
theorem getBy_eq (request : Entries) : getBy drives host settings request =
    gather drives host settings request >>= fun merged =>
      Run.lift (((capBy (Value.field "Limit" request) merged).mapError .mishap).map .map) := by
  have hreturn (x : Except Failure Entries) :
      (do return .map (← Run.lift x) : Run σ Value) = Run.lift (x.map .map) := by
    cases x <;> rfl
  unfold getBy gather
  simp only [bind_assoc, hreturn]

/-- What is gathered does not depend on the limit. -/
theorem gather_limit (v : Value) (request : Entries) :
    gather drives host settings (Value.put "Limit" v request) =
      gather drives host settings (Value.without "Limit" request) := by
  have hitems : requestItems (Value.put "Limit" v request) =
      requestItems (Value.without "Limit" request) := by
    unfold requestItems Value.field
    rw [Value.lookup_put_of_ne (by decide), Value.lookup_without_of_ne (by decide)]
  have hextra (es : Entries) : Value.without "Limit" (Value.without "RequestItems" es) =
      Value.without "RequestItems" (Value.without "Limit" es) := List.filter_comm ..
  have hagain : Value.without "Limit" (Value.without "Limit" request) = Value.without "Limit" request :=
    Value.without_eq_self (Value.lookup_without _ _)
  unfold gather
  rw [hitems, hextra, hextra, Value.without_put, hagain]

/-- What is gathered is a listing. -/
theorem gather_keeps (request : Entries) : Run.Keeps (fun _ => True)
    (fun merged => ∃ l : Listing, merged = l.entries) (fun _ => True)
    (gather drives host settings request) := by
  unfold gather
  refine (Run.Keeps.of_true _).bind fun items _ => ?_
  refine (Run.Keeps.of_true _).bind fun wanted _ => ?_
  refine (Run.Keeps.of_true _).bind fun ps _ => ?_
  exact Run.Keeps.lift (merge_listed _ _)

end

/-- A limit keeps the first items over all tables. Of merged items those of each table that are kept are
    the first ones of it, and one after another they are the first ones of all. A batch get with a limit
    does what the one without it does, and keeps so much of its answer. -/
theorem limit_keeps_first (limit : Int) :
    (∀ merged : Listing, ∃ kept : Listing,
      cap (.int limit) merged.entries = .ok kept.entries ∧ KeepsFirst limit merged kept) ∧
    ∀ {σ : Type} (drives : Driver σ) (host : Host σ) (settings : Settings) (request : Entries) (s : σ),
      (getBy drives host settings (Value.put "Limit" (.int limit) request) s).2 =
        (getBy drives host settings (Value.without "Limit" request) s).2 ∧
      AgreeBy (fun whole cut => ∃ merged kept : Listing, whole = .map merged.entries ∧
          cut = .map kept.entries ∧ KeepsFirst limit merged kept)
        (getBy drives host settings (Value.without "Limit" request) s).1
        (getBy drives host settings (Value.put "Limit" (.int limit) request) s).1 := by
  refine ⟨fun merged => ⟨_, cap_entries limit merged, keepsFirst_first limit merged⟩, ?_⟩
  intro σ drives host settings request s
  have hwhole : Value.field "Limit" (Value.without "Limit" request) = .null := by
    unfold Value.field
    rw [Value.lookup_without]
    rfl
  have hcut : Value.field "Limit" (Value.put "Limit" (.int limit) request) = .int limit := by
    unfold Value.field
    rw [Value.lookup_put]
    rfl
  rw [getBy_eq, getBy_eq, gather_limit, hwhole, hcut, Run.bind_apply, Run.bind_apply]
  rcases hgather : gather drives host settings (Value.without "Limit" request) s with ⟨f | merged, t⟩
  · exact ⟨rfl, rfl⟩
  · have hends := (gather_keeps drives host settings (Value.without "Limit" request) s trivial).2
    rw [hgather] at hends
    obtain ⟨l, rfl⟩ := hends
    dsimp only
    rw [Run.lift_apply, Run.lift_apply]
    show _ ∧ AgreeBy _ _ (((cap (.int limit) l.entries).mapError Failure.mishap).map Value.map)
    rw [cap_entries]
    exact ⟨rfl, l, _, rfl, rfl, keepsFirst_first limit l⟩

example : cap (.int 3) (Listing.entries [(.text "films", [.int 1, .int 2]),
      (.text "series", [.int 3, .int 4]), (.text "books", [.int 5])]) =
    .ok (Listing.entries [(.text "films", [.int 1, .int 2]), (.text "series", [.int 3]),
      (.text "books", [])]) := rfl

end ItemStore.Batch
