import ItemStore.Proofs.Batch.Carried
import ItemStore.Proofs.Batch.Conservation
import ItemStore.Proofs.Batch.Disclosure
import ItemStore.Proofs.Wire.Tidy

/-
  How often a request is sent again. Requests for one table may equal each other, and a report may list
  some of the equal ones only. What a report leaves of the requests in a send is decided request by
  request: all that equal a listed one stay, however often it is listed, and the others go. So a request
  of which nothing is listed is never sent again, but of equal requests either none is acknowledged or
  all are. What is left is exactly what the report lists if and only if the report lists each request as
  often as it was sent, or not at all; this is so for all reports if no two requests are equal.

  The reports are those that a service can give: mappings of tables to lists of tidy documents, which list
  no request more often than it was sent. What is sent is tidy as well, if what is written or asked for
  has texts for keys.

  Main statements: `onWire_of_pendingWrites` and `onWire_of_wanted` (what is sent), `keeps` (one report)
  and `resubmits` (a batch, in whatever order its chunks take turns, up to the number of requests that its
  failure counts); `write_counts_twice` (a request listed once that was sent twice).
-/

namespace ItemStore.Batch

variable {σ : Type}

/-! ## Occurrences -/

/-- How often a request for a table is among some requests, by comparison. -/
def occurrences (name : String) (v : Value) (rs : List Pending) : Nat :=
  (requestsFor name rs).countP (Value.eqv v)

/-- Requests for tables that are called by texts, each a tidy document. -/
structure OnWire (rs : List Pending) : Prop where
  texts : HaveTexts rs
  tidy : ∀ r ∈ rs, Value.isTidy r.2 = true

/-- Requests no two of which are equal and for the same table. -/
def AreApart (rs : List Pending) : Prop :=
  ∀ name v, Value.isTidy v = true → occurrences name v rs ≤ 1

/-- Whether a request is one for a table that equals a value. -/
def isFor (name : String) (v : Value) (r : Pending) : Bool :=
  tableName r == name && Value.eqv v r.2

theorem occurrences_eq (name : String) (v : Value) (rs : List Pending) :
    occurrences name v rs = rs.countP (isFor name v) := by
  unfold occurrences requestsFor isFor
  rw [List.countP_map, List.countP_filter]
  simp only [Function.comp_apply, Bool.and_comm]

theorem OnWire.sublist {rs qs : List Pending} (h : OnWire qs) (hsub : rs.Sublist qs) : OnWire rs :=
  ⟨fun r hr => h.texts r (hsub.subset hr), fun r hr => h.tidy r (hsub.subset hr)⟩

/-- A request counts for the same requests as one that equals it. -/
theorem isFor_congr {r q : Pending} (htable : tableName r = tableName q)
    (hr : Value.isTidy r.2 = true) (hq : Value.isTidy q.2 = true)
    (heqv : Value.eqv r.2 q.2 = true) (name : String) {v : Value} (hv : Value.isTidy v = true) :
    isFor name v r = isFor name v q := by
  unfold isFor
  rw [htable]
  congr 1
  rw [Bool.eq_iff_iff]
  constructor
  · intro hvr
    rw [Value.eqv_congr hv hr hvr]
    exact heqv
  · intro hvq
    rw [Value.eqv_congr hv hq hvq]
    exact Value.eqv_symm hr hq heqv

/-- Requests that occur at most as often among others are at most as many. -/
theorem length_le_of_occurrences {rs qs : List Pending} (hrs : OnWire rs) (hqs : OnWire qs)
    (h : ∀ name v, Value.isTidy v = true → occurrences name v rs ≤ occurrences name v qs) :
    rs.length ≤ qs.length := by
  induction rs generalizing qs with
  | nil => exact Nat.zero_le _
  | cons r rs ih =>
    have hr := hrs.tidy r List.mem_cons_self
    have hself : isFor (tableName r) r.2 r = true := by
      simp [isFor, Value.eqv_self hr]
    have hsome : 0 < qs.countP (isFor (tableName r) r.2) := by
      have hle := h (tableName r) r.2 hr
      rw [occurrences_eq, occurrences_eq, List.countP_cons, if_pos hself] at hle
      omega
    obtain ⟨q, hq, hfor⟩ := List.countP_pos_iff.1 hsome
    unfold isFor at hfor
    rw [Bool.and_eq_true, beq_iff_eq] at hfor
    obtain ⟨before, after, rfl⟩ := List.append_of_mem hq
    have hrest : rs.length ≤ (before ++ after).length := by
      refine ih (hrs.sublist (List.sublist_cons_self r rs))
        (hqs.sublist ((List.sublist_cons_self q after).append_left before)) fun name v hv => ?_
      have hle := h name v hv
      rw [occurrences_eq, occurrences_eq, List.countP_cons, List.countP_append, List.countP_cons,
        isFor_congr hfor.1.symm hr (hqs.tidy q hq) hfor.2 name hv] at hle
      rw [occurrences_eq, occurrences_eq, List.countP_append]
      omega
    simp only [List.length_cons, List.length_append] at hrest ⊢
    omega

/-! ## Requests on the wire -/

theorem member_eq_ok {name : String} {v w : Value} (h : member name v = .ok w) :
    v.get? name = some w := by
  cases v with
  | map es =>
    unfold member at h
    dsimp only at h
    split at h
    · rename_i hlookup
      cases h
      exact hlookup
    · cases h
  | _ => cases h

theorem isTidy_of_encodeRequest {kind part : String} {body w : Value}
    (hkeys : Wire.hasTextKeys body = true) (h : encodeRequest kind part body = .ok w) :
    Value.isTidy w = true := by
  unfold encodeRequest at h
  cases hmember : member part body with
  | error e =>
    rw [hmember] at h
    cases h
  | ok v =>
    rw [hmember] at h
    obtain ⟨item, hitem, rfl⟩ := exists_of_map_eq_ok h
    have hv := Wire.hasTextKeys_of_get? hkeys (member_eq_ok hmember)
    exact Wire.isTidy_tagged (Wire.isTidy_tagged (Wire.isTidy_of_marshalItem hv hitem))

theorem isTidy_of_encodeWrite {entry w : Value} (hkeys : Wire.hasTextKeys entry = true)
    (h : encodeWrite entry = .ok w) : Value.isTidy w = true := by
  unfold encodeWrite at h
  split at h
  · rename_i hput
    exact isTidy_of_encodeRequest (Wire.hasTextKeys_of_get? hkeys hput) h
  · rename_i hdelete
    exact isTidy_of_encodeRequest (Wire.hasTextKeys_of_get? hkeys hdelete) h
  · cases h

/-- The requests of a batch write are such, if what is written has texts for keys. -/
theorem onWire_of_pendingWrites {items : Entries} {pending : List Pending}
    (hitems : Wire.haveTextKeysEntries items = true) (h : pendingWrites items = .ok pending) :
    OnWire pending := by
  obtain ⟨rss, hrss, rfl⟩ := exists_of_map_eq_ok h
  have hrequest : ∀ r ∈ rss.flatten, (∃ table, r.1 = .text table) ∧ Value.isTidy r.2 = true := by
    intro r hr
    obtain ⟨rs, hrs, hr⟩ := List.mem_flatten.1 hr
    obtain ⟨e, he, hwrites⟩ := exists_mem_of_eachOf hrss hrs
    obtain ⟨hname, hkeys⟩ := Wire.hasTextKeys_of_mem_entries hitems he
    unfold tableWrites at hwrites
    split at hwrites
    · cases hwrites
    · rename_i entries hentries
      obtain ⟨ws, hws, rfl⟩ := exists_of_map_eq_ok hwrites
      obtain ⟨w, hw, rfl⟩ := List.mem_map.1 hr
      obtain ⟨entry, hentry, hencode⟩ := exists_mem_of_eachOf hws hw
      exact ⟨Wire.exists_text_of_isName hname,
        isTidy_of_encodeWrite (Wire.hasTextKeys_of_sequence? hkeys hentries hentry) hencode⟩
  exact ⟨fun r hr => (hrequest r hr).1, fun r hr => (hrequest r hr).2⟩

/-- The keys that are asked of a table are tidy, if what is asked has texts for keys. -/
theorem isTidy_of_wantedOf {table spec : Value} {w : Wanted} (hspec : Wire.hasTextKeys spec = true)
    (h : wantedOf table spec = .ok w) : w.table = table ∧ ∀ k ∈ w.keys, Value.isTidy k = true := by
  unfold wantedOf at h
  split at h
  · rename_i params keys hparams hkeys
    have hlisted := Wire.hasTextKeys_of_get? hspec hkeys
    dsimp only at h
    split at h
    · cases h
    · rename_i ks hks
      obtain ⟨ws, hws, rfl⟩ := exists_of_map_eq_ok h
      refine ⟨rfl, fun k hk => ?_⟩
      obtain ⟨key, hkey, hmarshal⟩ := exists_mem_of_eachOf hws hk
      refine Wire.isTidy_of_marshalItem ?_ hmarshal
      cases key with
      | map es =>
        split at hks
        · cases hks
          rw [List.mem_singleton.1 hkey]
          exact hlisted
        · exact Wire.hasTextKeys_of_members? hlisted hks hkey
      | _ => cases hmarshal
  · cases h

/-- So are the keys of a batch get. -/
theorem onWire_of_wanted {items : Entries} {wanted : List Wanted}
    (hitems : Wire.haveTextKeysEntries items = true)
    (h : eachOf (fun e => wantedOf e.1 e.2) items = .ok wanted) : OnWire (pendingKeys wanted) := by
  have hrequest : ∀ r ∈ pendingKeys wanted,
      (∃ table, r.1 = .text table) ∧ Value.isTidy r.2 = true := by
    intro r hr
    obtain ⟨w, hw, hr⟩ := List.mem_flatMap.1 hr
    obtain ⟨k, hk, rfl⟩ := List.mem_map.1 hr
    obtain ⟨e, he, hwanted⟩ := exists_mem_of_eachOf h hw
    obtain ⟨hname, hkeys⟩ := Wire.hasTextKeys_of_mem_entries hitems he
    obtain ⟨htable, htidy⟩ := isTidy_of_wantedOf hkeys hwanted
    rw [htable]
    exact ⟨Wire.exists_text_of_isName hname, htidy k hk⟩
  exact ⟨fun r hr => (hrequest r hr).1, fun r hr => (hrequest r hr).2⟩

/-! ## Reports -/

/-- The requests that a report lists, each with its table. -/
def listedBy : Value → List Pending
  | .map es => writeEntries es
  | _ => []

/-- A report that a service can give on some requests: a mapping of tables to lists of tidy documents that
    lists no request more often than it was sent. -/
structure ReportsOn (report : Value) (rs : List Pending) : Prop where
  tidy : Value.isTidy report = true
  lists : ∃ es, report = .map es ∧ ∀ e ∈ es, ∃ vs, e.2 = .list vs
  within : ∀ name v, Value.isTidy v = true →
    occurrences name v (listedBy report) ≤ occurrences name v rs

/-- A report that lists each request as often as it was sent, or not at all. -/
def IsWhole (report : Value) (rs : List Pending) : Prop :=
  ∀ name v, Value.isTidy v = true → occurrences name v (listedBy report) = 0 ∨
    occurrences name v (listedBy report) = occurrences name v rs

theorem mem_writeEntries_iff {es : Entries} {q : Pending} :
    q ∈ writeEntries es ↔ ∃ e ∈ es, e.1 = q.1 ∧ q.2 ∈ e.2.sequence?.getD [] := by
  unfold writeEntries
  rw [List.mem_flatMap]
  constructor
  · rintro ⟨e, he, hq⟩
    obtain ⟨v, hv, rfl⟩ := List.mem_map.1 hq
    exact ⟨e, he, rfl, hv⟩
  · rintro ⟨e, he, htable, hq⟩
    exact ⟨e, he, List.mem_map.2 ⟨q.2, hq, by rw [htable]⟩⟩

section

variable {report : Value} {rs : List Pending}

theorem ReportsOn.onWire (h : ReportsOn report rs) : OnWire (listedBy report) := by
  obtain ⟨es, rfl, hlists⟩ := h.lists
  have htidy := h.tidy
  have hnames := Value.haveNames_of_isTidy htidy
  rw [Value.isTidy, Bool.and_eq_true] at htidy
  constructor
  · intro q hq
    obtain ⟨e, he, htable, -⟩ := mem_writeEntries_iff.1 hq
    rw [← htable]
    exact hnames e he
  · intro q hq
    obtain ⟨e, he, -, hmem⟩ := mem_writeEntries_iff.1 hq
    obtain ⟨vs, hvs⟩ := hlists e he
    have hlist : Value.isTidy e.2 = true := (Value.areTidyEntries_iff.1 htidy.2 e he).2
    rw [hvs, Value.isTidy] at hlist
    rw [hvs] at hmem
    exact Value.areTidy_iff.1 hlist q.2 hmem

/-- A report lists a request for a table under the name of that table. -/
theorem mem_listedBy_iff {es : Entries} (h : ReportsOn (.map es) rs) {name : String} {v : Value} :
    (.text name, v) ∈ writeEntries es ↔
      ∃ vs, Value.lookup name es = some (.list vs) ∧ v ∈ vs := by
  obtain ⟨es', heq, hlists⟩ := h.lists
  cases heq
  rw [mem_writeEntries_iff]
  constructor
  · rintro ⟨⟨k, w⟩, he, htable, hmem⟩
    obtain ⟨vs, hvs⟩ := hlists _ he
    replace htable : k = .text name := htable
    replace hvs : w = .list vs := hvs
    rw [htable, hvs] at he
    rw [hvs] at hmem
    exact ⟨vs, Value.lookup_of_isTidy h.tidy he, hmem⟩
  · rintro ⟨vs, hlookup, hmem⟩
    have he := Value.mem_of_lookup (Value.haveNames_of_isTidy h.tidy) hlookup
    exact ⟨_, he, rfl, hmem⟩

theorem mem_requestsFor_iff (hrs : HaveTexts rs) {name : String} {v : Value} :
    v ∈ requestsFor name rs ↔ (.text name, v) ∈ rs := by
  refine ⟨fun h => ?_, mem_requestsFor⟩
  obtain ⟨⟨k, w⟩, hq, rfl⟩ := List.mem_map.1 h
  obtain ⟨hmem, hname⟩ := List.mem_filter.1 hq
  obtain ⟨other, hother⟩ := hrs _ hmem
  replace hother : k = .text other := hother
  subst hother
  have heq : other = name := eq_of_beq hname
  rwa [← heq]

/-- A report lists a request that equals a value under a table. -/
theorem occurrences_listedBy_iff {es : Entries} (h : ReportsOn (.map es) rs) {name : String}
    {v : Value} : 0 < occurrences name v (listedBy (.map es)) ↔
      ∃ vs, Value.lookup name es = some (.list vs) ∧ ∃ w ∈ vs, v.equal w = .ok true := by
  unfold occurrences
  rw [List.countP_pos_iff]
  constructor
  · rintro ⟨w, hw, heqv⟩
    obtain ⟨vs, hlookup, hmem⟩ := (mem_listedBy_iff h).1 ((mem_requestsFor_iff h.onWire.texts).1 hw)
    exact ⟨vs, hlookup, w, hmem, Value.eqv_eq_true_iff.1 heqv⟩
  · rintro ⟨vs, hlookup, w, hmem, hequal⟩
    have hw := (mem_listedBy_iff h).2 ⟨vs, hlookup, hmem⟩
    exact ⟨w, mem_requestsFor hw, Value.eqv_eq_true_iff.2 hequal⟩

/-- A report can be asked for each request, and names it if it lists an equal one. -/
theorem asked_of_reportsOn (h : ReportsOn report rs) (name : String) {v : Value}
    (hv : Value.isTidy v = true) :
    (0 < occurrences name v (listedBy report) ∧ asked report (.text name, v) = .ok true) ∨
      (occurrences name v (listedBy report) = 0 ∧ asked report (.text name, v) = .ok false) := by
  obtain ⟨es, rfl, hlists⟩ := h.lists
  have hasked : asked (.map es) (.text name, v) =
      ((Value.lookup name es).getD (.list [])).contains v := by
    rw [← find?_text]
    rfl
  have hzero : occurrences name v (listedBy (.map es)) = 0 ↔
      ¬ 0 < occurrences name v (listedBy (.map es)) := by omega
  rw [hasked, hzero, occurrences_listedBy_iff h]
  cases hlookup : Value.lookup name es with
  | none => exact .inr ⟨fun ⟨_, hnone, _⟩ => (nomatch hnone), rfl⟩
  | some u =>
    obtain ⟨vs, hvs⟩ := hlists _
      (Value.mem_of_lookup (Value.haveNames_of_isTidy h.tidy) hlookup)
    replace hvs : u = .list vs := hvs
    subst hvs
    have hdecided : ∀ w ∈ vs, (v.equal w = .ok true ∧ v.equal w = .ok true) ∨
        (¬ v.equal w = .ok true ∧ v.equal w = .ok false) := by
      intro w hw
      have htidy := h.onWire.tidy _ ((mem_listedBy_iff h).2 ⟨vs, hlookup, hw⟩)
      obtain ⟨b, hb⟩ := Value.exists_equal_of_isDocument v w
        (Value.isDocument_of_isTidy (fun _ _ => rfl) v hv)
        (Value.isDocument_of_isTidy (fun _ hk => hk) w htidy)
      cases b with
      | true => exact .inl ⟨hb, hb⟩
      | false => exact .inr ⟨by rw [hb]; nofun, hb⟩
    obtain ⟨hsome, htrue⟩ | ⟨hnone, hfalse⟩ :=
      Value.holdsForSome_of_decided (fun w => v.equal w = .ok true) hdecided
    · exact .inl ⟨⟨vs, rfl, hsome⟩, htrue⟩
    · refine .inr ⟨fun ⟨_, heq, hsome⟩ => hnone ?_, hfalse⟩
      cases heq
      exact hsome

theorem isReadable_of_reportsOn (h : ReportsOn report rs) {qs : List Pending} (hqs : OnWire qs) :
    IsReadable report qs := by
  intro r hr
  obtain ⟨k, v⟩ := r
  obtain ⟨name, hname⟩ := hqs.texts _ hr
  replace hname : k = .text name := hname
  subst hname
  obtain ⟨-, htrue⟩ | ⟨-, hfalse⟩ := asked_of_reportsOn h name (hqs.tidy _ hr)
  · exact ⟨true, htrue⟩
  · exact ⟨false, hfalse⟩

/-- A request that is for a table and equals a value is named if the value is listed for the table. -/
theorem isNamed_of_isFor (h : ReportsOn report rs) {r : Pending} (htext : ∃ table, r.1 = .text table)
    (hr : Value.isTidy r.2 = true) {name : String} {v : Value} (hv : Value.isTidy v = true)
    (hfor : isFor name v r = true) :
    isNamed report r = decide (0 < occurrences name v (listedBy report)) := by
  obtain ⟨k, w⟩ := r
  obtain ⟨table, htable⟩ := htext
  replace htable : k = .text table := htable
  subst htable
  unfold isFor at hfor
  rw [Bool.and_eq_true, beq_iff_eq] at hfor
  have hname : table = name := hfor.1
  have hsame : occurrences name v (listedBy report) = occurrences name w (listedBy report) := by
    unfold occurrences
    rw [funext (Value.eqv_congr hv hr hfor.2)]
  rw [hsame, hname]
  obtain ⟨hpos, htrue⟩ | ⟨hzero, hfalse⟩ := asked_of_reportsOn h name hr
  · rw [asked_eq_isNamed htrue, decide_eq_true hpos]
  · rw [asked_eq_isNamed hfalse, hzero]
    rfl

/-! ## What is kept -/

/-- All requests that equal a listed one are kept, and no others. -/
theorem occurrences_filter (h : ReportsOn report rs) (hrs : OnWire rs) {name : String} {v : Value}
    (hv : Value.isTidy v = true) :
    occurrences name v (rs.filter (isNamed report)) =
      if occurrences name v (listedBy report) = 0 then 0 else occurrences name v rs := by
  have hnamed : ∀ r ∈ rs, isFor name v r = true →
      isNamed report r = decide (0 < occurrences name v (listedBy report)) :=
    fun r hr => isNamed_of_isFor h (hrs.texts r hr) (hrs.tidy r hr) hv
  rw [occurrences_eq, occurrences_eq name v rs, List.countP_filter]
  split
  · rename_i hzero
    rw [List.countP_eq_zero]
    intro r hr hboth
    rw [Bool.and_eq_true] at hboth
    have hfalse := hnamed r hr hboth.1
    rw [hzero, hboth.2] at hfalse
    cases hfalse
  · rename_i hpos
    refine List.countP_congr fun r hr => ?_
    rw [Bool.and_eq_true]
    refine ⟨And.left, fun hfor => ⟨hfor, ?_⟩⟩
    rw [hnamed r hr hfor, decide_eq_true_eq]
    omega

/-- What a report leaves of the requests in a send. -/
structure Keeps (report : Value) (rs left : List Pending) : Prop where
  /-- asking the report does not fail, and what is left are some of the requests, in their order -/
  retained : retain report rs = .ok left
  inOrder : left.Sublist rs
  /-- of equal requests all are left if one of them is listed, and otherwise none -/
  all_or_none : ∀ name v, Value.isTidy v = true → occurrences name v left =
    if occurrences name v (listedBy report) = 0 then 0 else occurrences name v rs
  /-- so what is listed is left, as often as it is listed or more often -/
  listed : ∀ name v, Value.isTidy v = true →
    occurrences name v (listedBy report) ≤ occurrences name v left
  /-- it is left as often as it is listed if and only if it is listed as often as it was sent -/
  exact_iff : (∀ name v, Value.isTidy v = true →
    occurrences name v left = occurrences name v (listedBy report)) ↔ IsWhole report rs
  /-- this is always so if no two requests are equal -/
  apart : AreApart rs → IsWhole report rs
  length_le : (listedBy report).length ≤ left.length
  length_eq : IsWhole report rs → left.length = (listedBy report).length

/-- Every report that a service can give leaves the requests that it lists, and those equal to them. -/
theorem keeps (hrs : OnWire rs) (h : ReportsOn report rs) :
    Keeps report rs (rs.filter (isNamed report)) := by
  have hleft : OnWire (rs.filter (isNamed report)) := hrs.sublist List.filter_sublist
  have hall : ∀ name v, Value.isTidy v = true → occurrences name v (rs.filter (isNamed report)) =
      if occurrences name v (listedBy report) = 0 then 0 else occurrences name v rs :=
    fun name v hv => occurrences_filter h hrs hv
  have hlisted : ∀ name v, Value.isTidy v = true → occurrences name v (listedBy report) ≤
      occurrences name v (rs.filter (isNamed report)) := by
    intro name v hv
    have hwithin := h.within name v hv
    rw [hall name v hv]
    split <;> omega
  have hexact : (∀ name v, Value.isTidy v = true → occurrences name v (rs.filter (isNamed report)) =
      occurrences name v (listedBy report)) ↔ IsWhole report rs := by
    refine forall_congr' fun name => forall_congr' fun v => imp_congr_right fun hv => ?_
    rw [hall name v hv]
    split <;> omega
  refine ⟨retain_eq (isReadable_of_reportsOn h hrs), List.filter_sublist, hall, hlisted, hexact,
    fun hapart name v hv => ?_, length_le_of_occurrences h.onWire hleft hlisted, fun hwhole => ?_⟩
  · have hwithin := h.within name v hv
    have hone := hapart name v hv
    omega
  · have hsame := hexact.2 hwhole
    refine Nat.le_antisymm (length_le_of_occurrences hleft h.onWire fun name v hv => ?_)
      (length_le_of_occurrences h.onWire hleft hlisted)
    exact (hsame name v hv).le

end

/-! ## Sends -/

namespace Sending

/-- A send that was throttled, or brought a report that a service can give on what was sent. -/
def IsReported (x : Sending) : Prop :=
  match x.outcome with
  | .error f => Gateway.isRetryable f = true
  | .ok reply => ReportsOn reply.unprocessed x.sent.requests

/-- The requests that a send reported: those that its report lists, or all if it was throttled. -/
def reported (x : Sending) : List Pending :=
  match x.outcome with
  | .error _ => x.sent.requests
  | .ok reply => listedBy reply.unprocessed

/-- A send whose report lists each request as often as it was sent, or not at all. -/
def IsWhole (x : Sending) : Prop :=
  match x.outcome with
  | .error _ => True
  | .ok reply => Batch.IsWhole reply.unprocessed x.sent.requests

/-- A send after which nothing is left that equals an unlisted request. -/
def Clears (x : Sending) (rs : List Pending) : Prop :=
  ∀ reply, x.outcome = .ok reply → ∀ name v, Value.isTidy v = true →
    occurrences name v (listedBy reply.unprocessed) = 0 → occurrences name v rs = 0

section

variable {x : Sending}

theorem IsReported.isRegular (h : x.IsReported) (hsent : OnWire x.sent.requests) : x.IsRegular := by
  obtain ⟨c, f | reply⟩ := x
  · exact h
  · exact isReadable_of_reportsOn h hsent

theorem IsReported.keeps (h : x.IsReported) (hsent : OnWire x.sent.requests) {reply : Reply}
    (hx : x.outcome = .ok reply) : Keeps reply.unprocessed x.sent.requests x.left := by
  obtain ⟨c, o⟩ := x
  replace hx : o = .ok reply := hx
  subst hx
  exact Batch.keeps hsent h

/-- What is reported is left, and perhaps more that equals it. -/
theorem IsReported.length_le (h : x.IsReported) (hsent : OnWire x.sent.requests) :
    x.reported.length ≤ x.left.length := by
  obtain ⟨c, f | reply⟩ := x
  · exact Nat.le_refl _
  · exact (h.keeps hsent rfl).length_le

theorem IsReported.length_eq (h : x.IsReported) (hsent : OnWire x.sent.requests)
    (hwhole : x.IsWhole) : x.left.length = x.reported.length := by
  obtain ⟨c, f | reply⟩ := x
  · rfl
  · exact (h.keeps hsent rfl).length_eq hwhole

theorem IsReported.isWhole (h : x.IsReported) (hsent : OnWire x.sent.requests)
    (hapart : AreApart x.sent.requests) : x.IsWhole := by
  obtain ⟨c, f | reply⟩ := x
  · trivial
  · exact (h.keeps hsent rfl).apart hapart

end

end Sending

theorem occurrences_sublist {rs qs : List Pending} (h : rs.Sublist qs) (name : String) (v : Value) :
    occurrences name v rs ≤ occurrences name v qs := by
  rw [occurrences_eq, occurrences_eq]
  exact h.countP_le

/-- What was left once is all that the later sends of a chunk are of. -/
theorem pairwise_of_linked {c : Chunk} {ss : List Sending} (h : IsLinked c ss) :
    ss.Pairwise fun x y => y.sent.requests.Sublist x.left := by
  induction ss generalizing c with
  | nil => exact .nil
  | cons x ss ih =>
    refine List.pairwise_cons.2 ⟨fun y hy => ?_, ih h.tail⟩
    exact sublist_of_linked h.tail y hy

/-! ## Batches -/

/-- The last sends of the chunks of a batch. -/
def lastSends (js : List Job) : List Sending := js.filterMap fun j => j.sendings.getLast?

/-- What the chunks of a batch that came to a proper end leave is what their last sends left. -/
theorem residue_eq_left {settings : Settings} {js : List Job}
    (hjs : ∀ j ∈ js, j.fresh.requests ≠ [] ∧ ∃ p, j.IsSettled settings p) :
    residue js = (lastSends js).flatMap Sending.left := by
  induction js with
  | nil => rfl
  | cons j js ih =>
    obtain ⟨hne, p, hp⟩ := hjs j List.mem_cons_self
    have hrest := ih fun k hk => hjs k (List.mem_cons_of_mem _ hk)
    unfold residue lastSends at hrest ⊢
    rw [List.flatMap_cons, List.filterMap_cons, hrest]
    cases hlast : j.sendings.getLast? with
    | none =>
      -- a chunk with requests does not end without a send
      have hnone : j.sendings = [] := List.getLast?_eq_none_iff.1 hlast
      have hleft := hp.tally.requests
      have hending := hp.ending
      rw [hnone, unacknowledged_nil] at hleft
      rw [hleft, hnone] at hending
      obtain hnil | ⟨hlength, -⟩ := hending
      · exact absurd hnil hne
      · simp at hlength
    | some x =>
      dsimp only
      rw [List.flatMap_cons, ← hp.tally.requests, hp.tally.last x hlast]

/-- Lists taken from the members of a list are together as long as the members say. -/
theorem length_flatMap_le {α β γ : Type} {f : α → List β} {g : α → List γ} {as : List α}
    (h : ∀ a ∈ as, (f a).length ≤ (g a).length) : (as.flatMap f).length ≤ (as.flatMap g).length := by
  induction as with
  | nil => exact Nat.le_refl _
  | cons a as ih =>
    have ha := h a List.mem_cons_self
    have has := ih fun b hb => h b (List.mem_cons_of_mem _ hb)
    rw [List.flatMap_cons, List.flatMap_cons, List.length_append, List.length_append]
    omega

/-- How a batch sends again what was reported. -/
structure Resubmits (settings : Settings) (method : Method) (native : Value → Except Failure Value)
    (js : List Job) (o : Except Failure (List Progress)) : Prop where
  /-- whatever is sent and whatever report a service gives on it, the report can be asked what to keep -/
  keeps : ∀ report rs, OnWire rs → ReportsOn report rs → ∃ left, Keeps report rs left
  /-- each chunk is sent as it is, and then with what the send before left -/
  first : ∀ j ∈ js, ∀ x, j.sendings.head? = some x → x.sent.requests = j.fresh.requests
  again : ∀ j ∈ js, j.sendings.IsChain fun x y => y.sent.requests = x.left
  /-- a throttled send leaves all it sent, and any other what its report keeps -/
  throttled : ∀ j ∈ js, ∀ x ∈ j.sendings, x.IsThrottled → x.left = x.sent.requests
  kept : ∀ j ∈ js, ∀ x ∈ j.sendings, ∀ reply, x.outcome = .ok reply →
    Keeps reply.unprocessed x.sent.requests x.left
  /-- a request of which a report lists nothing is never sent again -/
  acknowledged : ∀ j ∈ js, j.sendings.Pairwise fun x y => x.Clears y.sent.requests
  /-- where no two requests of a chunk are equal, its reports list each as often as it was sent -/
  apart : ∀ j ∈ js, AreApart j.fresh.requests → ∀ x ∈ j.sendings, x.IsWhole
  /-- the failure of a batch counts what the last sends reported, if they did so as often as the requests
      were sent, and never less -/
  counted : (∀ j ∈ js, ¬ j.IsOverrun settings) → residue js ≠ [] → ∀ natives,
    eachSecond native (residue js) = .ok natives →
      (∃ f, o = .error f ∧ IsExhausted settings method natives (originalError? js) f) ∧
      ((lastSends js).flatMap Sending.reported).length ≤ Fault.leftOver (groupEntries natives) ∧
      ((∀ x ∈ lastSends js, x.IsWhole) →
        Fault.leftOver (groupEntries natives) = ((lastSends js).flatMap Sending.reported).length)

/-- Every batch sends again what was reported, in whatever order its chunks take turns: all requests that
    equal a listed one, and no others. -/
theorem resubmits (host : Host σ) (settings : Settings) (order : List Nat) (method : Method)
    (native : Value → Except Failure Value) (send : Chunk → Run σ Reply) (limit : Int)
    {pending : List Pending} (s : σ) (hwire : OnWire pending)
    (hreported : ∀ j ∈ batchJobs host settings order send limit pending s, ∀ x ∈ j.sendings,
      x.IsReported) :
    Resubmits settings method native (batchJobs host settings order send limit pending s)
      (driveOut (driveInTurns host settings order) settings method native send limit pending s).1 := by
  have hlinked : ∀ j ∈ batchJobs host settings order send limit pending s,
      IsLinked j.fresh j.sendings :=
    fun j hj => (led_of_follows (follows_jobsInTurns host settings send order _ s j hj)).1
  have hfresh : ∀ j ∈ batchJobs host settings order send limit pending s,
      OnWire j.fresh.requests :=
    fun j hj => hwire.sublist (sublist_of_mem_freshChunks (fresh_mem_freshChunks hj))
  have hsent : ∀ j ∈ batchJobs host settings order send limit pending s, ∀ x ∈ j.sendings,
      OnWire x.sent.requests :=
    fun j hj x hx => (hfresh j hj).sublist (sublist_of_linked (hlinked j hj) x hx)
  have hlast : ∀ x ∈ lastSends (batchJobs host settings order send limit pending s),
      x.IsReported ∧ OnWire x.sent.requests := by
    intro x hx
    obtain ⟨j, hj, hx⟩ := List.mem_filterMap.1 hx
    have hmem := List.mem_of_getLast? hx
    exact ⟨hreported j hj x hmem, hsent j hj x hmem⟩
  refine ⟨fun report rs hrs hreport => ⟨_, keeps hrs hreport⟩, fun j hj x hx => ?_, fun j hj => ?_,
    fun j hj x hx => ?_, fun j hj x hx reply => ?_, fun j hj => ?_, fun j hj hapart x hx => ?_,
    fun hover hne natives hnatives => ?_⟩
  · rw [(hlinked j hj).first x hx]
  · refine (hlinked j hj).chain.imp fun x y ⟨_, _, hnext⟩ => ?_
    rw [hnext]
    rfl
  · rintro ⟨f, hf, -⟩
    unfold Sending.left
    rw [hf]
  · exact (hreported j hj x hx).keeps (hsent j hj x hx)
  · refine (pairwise_of_linked (hlinked j hj)).imp_of_mem fun {x y} hx _ hsub reply hreply name v hv
      hzero => ?_
    have hkept := (hreported j hj x hx).keeps (hsent j hj x hx) hreply
    have hnone : occurrences name v x.left = 0 := by rw [hkept.all_or_none name v hv, if_pos hzero]
    exact Nat.le_zero.1 (hnone ▸ occurrences_sublist hsub name v)
  · refine (hreported j hj x hx).isWhole (hsent j hj x hx) fun name v hv => ?_
    exact (occurrences_sublist (sublist_of_linked (hlinked j hj) x hx) name v).trans (hapart name v hv)
  · have hregular : ∀ j ∈ batchJobs host settings order send limit pending s, j.IsRegular :=
      fun j hj x hx => (hreported j hj x hx).isRegular (hsent j hj x hx)
    have hsettled := settled_of_regular host settings order send limit pending s hregular hover
    have htexts : HaveTexts (residue (batchJobs host settings order send limit pending s)) :=
      haveTexts_residue hwire.texts
    have hcount : Fault.leftOver (groupEntries natives) =
        ((lastSends (batchJobs host settings order send limit pending s)).flatMap
          Sending.left).length := by
      rw [leftOver_groups (haveTexts_of_eachSecond hnatives htexts),
        ← (forall₂_of_eachSecond hnatives).length_eq,
        residue_eq_left fun j hj => ⟨(job_cases hj).1, hsettled j hj⟩]
    have hle : ((lastSends (batchJobs host settings order send limit pending s)).flatMap
        Sending.reported).length ≤ Fault.leftOver (groupEntries natives) := by
      rw [hcount]
      exact length_flatMap_le fun x hx => (hlast x hx).1.length_le (hlast x hx).2
    refine ⟨driveOut_exhausted host settings order method native send limit pending s hwire.texts
      hsettled hne hnatives, hle, fun hwhole => Nat.le_antisymm ?_ hle⟩
    rw [hcount]
    exact length_flatMap_le fun x hx => ((hlast x hx).1.length_eq (hlast x hx).2 (hwhole x hx)).le

/-! ## Films -/

/-- A report of some films. -/
def filmReport (years : List String) : Value := .object [("films", .list (years.map wireFilm))]

theorem listedBy_filmReport (years : List String) :
    listedBy (filmReport years) = years.map fun year => (.text "films", wireFilm year) := by
  show ((years.map wireFilm).map fun v => (Value.text "films", v)) ++ [] = _
  rw [List.append_nil, List.map_map]
  rfl

/-- Some of the films that were sent, in their order, can be reported. -/
theorem reportsOn_films {years sent : List String} (h : years.Sublist sent) :
    ReportsOn (filmReport years) (sent.map fun year => (.text "films", wireFilm year)) := by
  refine ⟨?_, ⟨_, rfl, ?_⟩, fun name v _ => ?_⟩
  · have htidy : Value.areTidy (years.map wireFilm) = true :=
      Value.areTidy_iff.2 (List.forall_mem_map.2 fun _ _ => rfl)
    show Value.isTidy (.map [(.text "films", .list (years.map wireFilm))]) = true
    simp [Value.isTidy, Value.areTidyEntries, htidy, Wire.isName]
    rfl
  · exact List.forall_mem_singleton.2 ⟨_, rfl⟩
  · rw [listedBy_filmReport]
    exact occurrences_sublist (h.map _) name v

/-- Of two films one is reported, and then sent again. -/
theorem resubmits_films :
    let host := scriptedHost .batchWriteItem
      [.ok (.object [("UnprocessedItems", filmReport ["2013"])]), .error (slowDown .batchWriteItem)]
    let send := sendWrites MemoryHost.host twoAtOnce []
    let pending := ["2012", "2013"].map fun year => (.text "films", wireFilm year)
    OnWire pending ∧
    (∀ j ∈ batchJobs MemoryHost.host twoAtOnce [] send 2 pending host, ∀ x ∈ j.sendings,
      x.IsReported) ∧
    Resubmits twoAtOnce .batchWriteItem decodeWrite
      (batchJobs MemoryHost.host twoAtOnce [] send 2 pending host)
      (driveOut (driveInTurns MemoryHost.host twoAtOnce []) twoAtOnce .batchWriteItem decodeWrite send 2
        pending host).1 := by
  intro host send pending
  have hwire : OnWire pending := by
    have hkeys : Wire.haveTextKeysEntries
        [(.text "films", .list [film (.int 2012), film (.int 2013)])] = true := by decide +kernel
    exact onWire_of_pendingWrites hkeys rfl
  have hreported : ∀ j ∈ batchJobs MemoryHost.host twoAtOnce [] send 2 pending host,
      ∀ x ∈ j.sendings, x.IsReported := by
    have hwaiting : waiting twoAtOnce 1 = .ok (rest twoAtOnce 1) :=
      waiting_eq_ok_iff.2 ⟨rfl, by decide, by decide +kernel, by decide +kernel⟩
    obtain ⟨f, hsendings, hf⟩ : ∃ f, (batchJobs MemoryHost.host twoAtOnce [] send 2 pending
        host).flatMap Job.sendings =
          [⟨⟨0, pending, 0, none⟩, .ok ⟨filmReport ["2013"], []⟩⟩,
            ⟨⟨0, pending.drop 1, 1, none⟩, .error f⟩] ∧ Gateway.isRetryable f = true := by
      have hchunks : freshChunks 2 pending = [⟨0, pending, 0, none⟩] := by with_unfolding_all rfl
      have hjobs : batchJobs MemoryHost.host twoAtOnce [] send 2 pending host =
          [((Job.start twoAtOnce ⟨0, pending, 0, none⟩).turns MemoryHost.host twoAtOnce send 2 host).1] := by
        unfold batchJobs jobsInTurns
        rw [hchunks]
        rfl
      rw [hjobs, Job.turns, turn_of_waiting (q := ⟨⟨0, pending.drop 1, 0, none⟩, []⟩) _ _ _ rfl rfl
        (by with_unfolding_all rfl) rfl hwaiting]
      exact ⟨_, by with_unfolding_all rfl, by with_unfolding_all rfl⟩
    intro j hj x hx
    have hmem := List.mem_flatMap_of_mem hj hx
    rw [hsendings] at hmem
    rcases List.mem_pair.1 hmem with rfl | rfl
    · exact reportsOn_films (by decide)
    · exact hf
  exact ⟨hwire, hreported, resubmits MemoryHost.host twoAtOnce [] .batchWriteItem decodeWrite send 2 host
    hwire hreported⟩

/-- A film that is written twice and reported once is kept twice, and the failure counts two requests. -/
theorem write_counts_twice :
    let sent := ["2013", "2013"].map fun year => (Value.text "films", wireFilm year)
    let films := [(Value.text "films", Value.list [film (.int 2013), film (.int 2013)])]
    ReportsOn (filmReport ["2013"]) sent ∧ (listedBy (filmReport ["2013"])).length = 1 ∧
    (retain (filmReport ["2013"]) sent).toOption.map List.length = some 2 ∧
    (write MemoryHost.host { twoAtOnce with batchMaxRetries := 0 } [(.text "RequestItems", .map films)]
      (scriptedHost .batchWriteItem [.ok (.object [("UnprocessedItems", filmReport ["2013"])])])).1 =
        .error (.store (.exhausted (.text "BatchWriteItem") films (.int 0) [.text "films"]) none []) ∧
    Fault.leftOver films = 2 := by
  intro sent films
  refine ⟨reportsOn_films (by decide), rfl, by decide +kernel, ?_, rfl⟩
  with_unfolding_all rfl

end ItemStore.Batch
