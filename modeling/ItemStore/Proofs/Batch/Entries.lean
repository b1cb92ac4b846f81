import ItemStore.Proofs.Batch.Carried
import ItemStore.Proofs.Wire.Formed

/-
  What becomes of the entries of a batch write. An entry is looked at for the kinds of write that it
  names, a put before a delete. The first one counts: its part is marshalled and sent. An entry that
  names none is refused, and so is one whose part has no form on the wire; all of this happens before
  the first chunk is sent. So a batch write sends a write for every entry, or fails and sends nothing.

  Two things are not looked at. Of an entry that names both kinds only the put is sent, and nothing says
  that its delete is left out. An entry without the part of its kind is no refusal but a mishap. What cannot
  be told is a mishap as well: an entry that is refused although it cannot be printed, for an integer in it
  that is too long, and a table that asks for something other than a list under a name without a text.

  Main statements: `encodeWrite_eq_ok_iff`, `exists_pendingWrites_iff` and `writes_all_or_nothing`.
-/

namespace ItemStore

namespace Batch

variable {σ : Type}

/-! ## Entries -/

/-- The kinds of write, each with the name of the part that it holds. -/
def writeKinds : List (String × String) := [("PutRequest", "Item"), ("DeleteRequest", "Key")]

/-- A kind of write that is named, and what stands under its name. -/
structure Naming where
  kind : String
  part : String
  body : Value

/-- What the body holds under the name of the part. -/
def Naming.held? (n : Naming) : Option Value := n.body.get? n.part

/-- The write on the wire, with its part. -/
def Naming.onWire (n : Naming) (part : Value) : Value := .object [(n.kind, .object [(n.part, part)])]

/-- The kinds of write that an entry names. -/
def namings (entry : Value) : List Naming :=
  writeKinds.filterMap fun k => (entry.get? k.1).map fun body => ⟨k.1, k.2, body⟩

theorem get?_of_member {name : String} {v w : Value} (h : member name v = .ok w) :
    v.get? name = some w := by
  unfold member at h
  split at h
  · split at h
    · next hw => exact hw.trans (congrArg some (Except.ok.inj h))
    · cases h
  · cases h

/-- The first kind of write that an entry names is the one that is sent. -/
theorem encodeWrite_eq (entry : Value) : encodeWrite entry = match namings entry with
    | [] => .error (entryRefused entry)
    | n :: _ => encodeRequest n.kind n.part n.body := by
  unfold encodeWrite namings writeKinds
  cases hput : entry.get? "PutRequest" <;> cases hdelete : entry.get? "DeleteRequest" <;>
    simp [hput, hdelete]

/-- A write is what an entry asks for: the part of the first kind that the entry names is a mapping of
    attributes, and sent as such. -/
def IsWriteOf (entry w : Value) : Prop :=
  ∃ n rest es attributes, namings entry = n :: rest ∧ n.held? = some (.map es) ∧
    Wire.marshalItem (.map es) = .ok attributes ∧ w = n.onWire attributes

/-- An entry that names one kind of write, which holds a mapping of attributes that can be sent. -/
def IsProper (entry : Value) : Prop :=
  ∃ n es attributes, namings entry = [n] ∧ n.held? = some (.map es) ∧
    Wire.marshalItem (.map es) = .ok attributes

theorem encodeWrite_eq_ok_iff (entry w : Value) : encodeWrite entry = .ok w ↔ IsWriteOf entry w := by
  rw [encodeWrite_eq]
  constructor
  · intro h
    cases hnamed : namings entry with
    | nil =>
      rw [hnamed] at h
      cases h
    | cons n rest =>
      rw [hnamed] at h
      unfold encodeRequest at h
      dsimp only at h
      cases hmember : member n.part n.body with
      | error m =>
        rw [hmember] at h
        cases h
      | ok v =>
        rw [hmember] at h
        obtain ⟨attributes, hattributes, rfl⟩ := exists_of_map_eq_ok h
        -- nothing but a mapping is marshalled as one
        obtain ⟨⟨es, rfl⟩, -⟩ := (Wire.marshalItem_eq_ok_iff v attributes).1 hattributes
        refine ⟨n, rest, es, attributes, hnamed, ?_, hattributes, rfl⟩
        exact get?_of_member hmember
  · rintro ⟨n, rest, es, attributes, hnamed, hheld, hattributes, rfl⟩
    rw [hnamed]
    unfold encodeRequest
    dsimp only
    rw [member_of_get? hheld]
    dsimp only
    rw [hattributes]
    rfl

/-! ## Requests -/

/-- Whether each table asks for a list of entries. -/
def AreListed (items : Entries) : Prop := ∀ e ∈ items, ∃ entries, e.2.sequence? = some entries

/-- All that a request asks of its tables can be sent. -/
def AreWritable (items : Entries) : Prop :=
  AreListed items ∧ ∀ e ∈ writeEntries items, ∃ w, IsWriteOf e.2 w

theorem mem_writeEntries {items : Entries} {e : Value × Value} {entries : List Value} {entry : Value}
    (he : e ∈ items) (hentries : e.2.sequence? = some entries) (hentry : entry ∈ entries) :
    (e.1, entry) ∈ writeEntries items := by
  refine List.mem_flatMap.2 ⟨e, he, List.mem_map.2 ⟨entry, ?_, rfl⟩⟩
  rw [hentries]
  exact hentry

/-- There are writes to send exactly if everything that is asked for can be sent. -/
theorem exists_pendingWrites_iff (items : Entries) :
    (∃ pending, pendingWrites items = .ok pending) ↔ AreWritable items := by
  constructor
  · rintro ⟨pending, hpending⟩
    refine ⟨fun e he => ?_, fun e he => ?_⟩
    · obtain ⟨rss, hrss, -⟩ := exists_of_map_eq_ok hpending
      cases hentries : e.2.sequence? with
      | some entries => exact ⟨entries, rfl⟩
      | none =>
        have hrefused : tableWrites e.1 e.2 = .error (tableRefused e.1 "a list of write requests") := by
          unfold tableWrites
          rw [hentries]
        obtain ⟨f, hf⟩ := (exists_eachOf_error_iff (fun e => tableWrites e.1 e.2) items).2
          ⟨e, he, _, hrefused⟩
        rw [hrss] at hf
        cases hf
    · have hall : ∀ e ∈ writeEntries items, ∃ w, IsWriteOf e.2 w :=
        ((List.forall₂_and_left _ _).1 ((encodes_pendingWrites hpending).imp fun e r hr =>
          ⟨⟨r.2, (encodeWrite_eq_ok_iff _ _).1 hr.2⟩, hr⟩)).1
      exact hall e he
  · rintro ⟨hlisted, hwritable⟩
    cases hpending : pendingWrites items with
    | ok pending => exact ⟨pending, rfl⟩
    | error f =>
      unfold pendingWrites at hpending
      obtain ⟨e, he, g, hg⟩ := (exists_eachOf_error_iff _ items).1
        ((exists_map_error_iff _ _).1 ⟨f, hpending⟩)
      obtain ⟨entries, hentries⟩ := hlisted e he
      unfold tableWrites at hg
      rw [hentries] at hg
      obtain ⟨entry, hentry, g', hg'⟩ :=
        (exists_eachOf_error_iff encodeWrite entries).1 ((exists_map_error_iff _ _).1 ⟨g, hg⟩)
      obtain ⟨w, hw⟩ := hwritable _ (mem_writeEntries he hentries hentry)
      rw [(encodeWrite_eq_ok_iff entry w).2 hw] at hg'
      cases hg'

/-! ## Batch writes -/

/-- A batch write sends a write for every entry, from a state to another one. -/
structure SendsAll {host : Host σ} (l : Gateway.Ledger host) (settings : Settings)
    (request items : Entries) (pending : List Pending) (tries : List Try) (s t : σ) : Prop where
  /-- for each entry of each table one write, in their order -/
  writes : List.Forall₂ (fun e r => e.1 = r.1 ∧ IsWriteOf e.2 r.2) (writeEntries items) pending
  /-- the first sends of the chunks have all of them, and later ones what was retained -/
  shares : Shares settings.batchWriteLimit pending (tries.map Try.sending)
  /-- each send is a call that has what was sent, and there is no other -/
  calls : l.At (l.sent s ++ callsMade .batchWriteItem
    (fun c => writeCall (Value.without "RequestItems" request) c.requests) tries) t
  /-- unless there is no client to call -/
  unmade : ∀ e ∈ tries, e.made = false → IsUnmade host settings e

/-- What a batch write comes to, from a state to its outcome. -/
structure Disposes {host : Host σ} (l : Gateway.Ledger host) (settings : Settings)
    (request items : Entries) (s : σ) (o : Except Failure Value × σ) : Prop where
  sends : AreWritable items → ∃ pending tries, SendsAll l settings request items pending tries s o.2
  /-- nothing is done if something cannot be sent -/
  refuses : ¬ AreWritable items → ∃ f, o = (.error f, s) ∧
    (f.IsUnsendable ∨ ∃ m, f = .mishap m ∧ HasLapse m items)
  /-- without lapses and entries that name both kinds, every entry is proper and sent, or the request is
      refused -/
  proper : (∀ m, ¬ HasLapse m items) → (∀ e ∈ writeEntries items, (namings e.2).length ≤ 1) →
    ((AreListed items ∧ ∀ e ∈ writeEntries items, IsProper e.2) ∧
      ∃ pending tries, SendsAll l settings request items pending tries s o.2) ∨
    ∃ f, o = (.error f, s) ∧ f.IsUnsendable

section

variable {host : Host σ} (l : Gateway.Ledger host) (settings : Settings) (order : List Nat)
  {request items : Entries} (hitems : requestItems request = .ok items) {s : σ}

include hitems

theorem exists_sendsAll (hs : l.isReady s) (h : AreWritable items) : ∃ pending tries,
    SendsAll l settings request items pending tries s
      (writeInTurns host settings order request s).2 := by
  obtain ⟨pending, hpending⟩ := (exists_pendingWrites_iff items).2 h
  obtain ⟨tries, htried, hshares⟩ := exists_shared l
    (.writes (Value.without "RequestItems" request)) settings.batchWriteLimit pending order hs
  refine ⟨pending, tries, ?_, hshares, ?_, htried.unmade⟩
  · exact (encodes_pendingWrites hpending).imp fun e r hr =>
      ⟨hr.1, (encodeWrite_eq_ok_iff _ _).1 hr.2⟩
  · rw [writeInTurns_snd host order hitems hpending]
    exact htried.calls

omit l in
theorem exists_refused (host : Host σ) (s : σ) (h : ¬ AreWritable items) : ∃ f,
    writeInTurns host settings order request s = (.error f, s) ∧
      (f.IsUnsendable ∨ ∃ m, f = .mishap m ∧ HasLapse m items) := by
  have hfails := pendingWrites_fails items
  cases hpending : pendingWrites items with
  | ok pending => exact absurd ((exists_pendingWrites_iff items).1 ⟨pending, hpending⟩) h
  | error f =>
    rw [hpending] at hfails
    exact ⟨f, writeInTurns_of_error host settings order hitems hpending s, hfails⟩

theorem disposes (hs : l.isReady s) :
    Disposes l settings request items s (writeInTurns host settings order request s) := by
  refine ⟨exists_sendsAll l settings order hitems hs,
    exists_refused settings order hitems host s,
    fun hlapse hsingle => ?_⟩
  by_cases h : AreWritable items
  · refine .inl ⟨⟨h.1, fun e he => ?_⟩, exists_sendsAll l settings order hitems hs h⟩
    obtain ⟨w, n, rest, es, attributes, hnamed, hheld, hattributes, -⟩ := h.2 e he
    have hlength := hsingle e he
    rw [hnamed, List.length_cons] at hlength
    obtain rfl : rest = [] := List.eq_nil_of_length_eq_zero (by omega)
    exact ⟨n, es, attributes, hnamed, hheld, hattributes⟩
  · obtain ⟨f, ho, hf⟩ := exists_refused settings order hitems host s h
    exact .inr ⟨f, ho, hf.resolve_right fun ⟨m, _, hm⟩ => hlapse m hm⟩

end

/-- A batch write sends a write for every entry of every table, or fails before it sends any. -/
theorem writes_all_or_nothing {host : Host σ} (l : Gateway.Ledger host) (settings : Settings)
    (order : List Nat) (request : Entries) {s : σ} (hs : l.isReady s) :
    (∀ f, requestItems request = .error f →
      writeInTurns host settings order request s = (.error f, s) ∧ f.IsUnsendable) ∧
    ∀ items, requestItems request = .ok items →
      Disposes l settings request items s (writeInTurns host settings order request s) := by
  refine ⟨fun f hf => ⟨?_, ?_⟩, fun items hitems => disposes l settings order hitems hs⟩
  · unfold writeInTurns writeBy
    rw [hf]
    rfl
  · have hends := requestItems_unsendable request
    rwa [hf] at hends

/-- Of two tables every entry is sent, each in a chunk that is tried twice. -/
theorem writes_all_or_nothing_films :
    let w := scriptedHost .batchWriteItem filmScript
    let o := writeInTurns MemoryHost.host twoAtOnce [1, 0] filmRequest w
    ∃ l : Gateway.Ledger MemoryHost.host, l.isReady w ∧ AreWritable filmItems ∧
      requestItems filmRequest = .ok filmItems ∧ Disposes l twoAtOnce filmRequest filmItems w o ∧
      (l.sent o.2).length = 4 := by
  intro w o
  have hplain : Gateway.arePlain [(.batchWriteItem, filmScript)] = true := by decide +kernel
  have hready : (Gateway.scriptedLedger hplain).isReady w := rfl
  have hfilms : requestItems filmRequest = .ok filmItems := rfl
  refine ⟨Gateway.scriptedLedger hplain, hready,
    (exists_pendingWrites_iff filmItems).1 ⟨filmPending, rfl⟩, hfilms, ?_, ?_⟩
  · exact (writes_all_or_nothing _ twoAtOnce [1, 0] filmRequest hready).2 filmItems hfilms
  · show o.2.account.sent.reverse.length = 4
    decide +kernel

/-- A film to put, and one to delete in the same entry. -/
def twofoldFilm : Value :=
  .object [("PutRequest", .object [("Item", .object [("year", .int 2012)])]),
    ("DeleteRequest", .object [("Key", .object [("year", .int 2013)])])]

/-- A request with one entry. -/
def requestFor (entry : Value) : Entries :=
  [(.text "RequestItems", .object [("films", .list [entry])])]

/-- Of an entry that names both kinds the put is sent, and the write succeeds without the delete; an
    entry without its part fails with the mishap of a missing key. -/
theorem write_twofold :
    (let o := write MemoryHost.host twoAtOnce (requestFor twofoldFilm) (scriptedHost .batchWriteItem [])
    o.1 = .ok .null ∧ o.2.account.sent = [(.batchWriteItem, requestFor (wireFilm "2012"))]) ∧
    (write MemoryHost.host twoAtOnce (requestFor (.object [("PutRequest", .map [])]))
      (scriptedHost .batchWriteItem [])).1 = .error (.mishap (.key (.text "Item"))) :=
  ⟨by with_unfolding_all exact ⟨rfl, rfl⟩, rfl⟩

end Batch

end ItemStore
