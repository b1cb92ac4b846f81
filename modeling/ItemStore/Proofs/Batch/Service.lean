import ItemStore.Batch.Get
import ItemStore.Proofs.Batch.Course
import ItemStore.Proofs.Batch.Grouping
import ItemStore.Proofs.Batch.Meaning
import ItemStore.Proofs.Outcome

/-
  A service that answers batch gets: what is expected of it, and what a chunk's send brings from it. The
  service may throttle a call, may leave any of the keys unprocessed and report them as they were sent,
  and answers with the items of all others in any order. An item that it gives for a key is the one that
  is stored under it, or one like it, such as one whose numbers are spelled in another way.

  Main statements: `askedKeys_asksOf` (a chunk asks for its keys) and `sendKeys_serves`.
-/

namespace ItemStore.Batch

variable {σ : Type}

/-! ## Items for keys -/

section

variable (stored : Pending → Option Value) (alike : Value → Value → Prop)

/-- What may be given for a key: the item that is stored under it, or one like it. -/
def IsGiven (r : Pending) (y : Value) : Prop := ∃ item, stored r = some item ∧ alike item y

/-- Items found for some keys, in any order: one for each key under which an item is stored. -/
def FoundFor (rs found : List Pending) : Prop :=
  ∃ given : List (Pending × Value),
    (given.map Prod.fst).Perm (rs.filter fun r => (stored r).isSome) ∧
    (∀ g ∈ given, IsGiven stored alike g.1 g.2) ∧
    found.Perm (given.map fun g => (g.1.1, g.2))

end

section

variable {stored : Pending → Option Value} {alike : Value → Value → Prop}

theorem foundFor_nil : FoundFor stored alike [] [] :=
  ⟨[], .refl _, fun _ hg => absurd hg List.not_mem_nil, .refl _⟩

theorem FoundFor.append {rs rs' found found' : List Pending} (h : FoundFor stored alike rs found)
    (h' : FoundFor stored alike rs' found') :
    FoundFor stored alike (rs ++ rs') (found ++ found') := by
  obtain ⟨given, hkeys, hgiven, hfound⟩ := h
  obtain ⟨given', hkeys', hgiven', hfound'⟩ := h'
  refine ⟨given ++ given', ?_, ?_, ?_⟩
  · rw [List.map_append, List.filter_append]
    exact hkeys.append hkeys'
  · intro g hg
    rcases List.mem_append.1 hg with hg | hg
    · exact hgiven g hg
    · exact hgiven' g hg
  · rw [List.map_append]
    exact hfound.append hfound'

theorem FoundFor.perm {rs rs' found : List Pending} (h : FoundFor stored alike rs found)
    (hperm : rs.Perm rs') : FoundFor stored alike rs' found := by
  obtain ⟨given, hkeys, hgiven, hfound⟩ := h
  exact ⟨given, hkeys.trans (hperm.filter _), hgiven, hfound⟩

end

/-! ## Keys in a request -/

/-- The keys that a request asks for, each with its table. -/
def askedKeys (asks : Entries) : List Pending :=
  ungrouped (asks.map fun e => (e.1, ((e.2.get? "Keys").bind Value.sequence?).getD []))

/-- What a chunk asks for, as the entries of a mapping. -/
def asksOf (wanted : List Wanted) (c : Chunk) : Entries :=
  (grouped c.requests).map fun g =>
    (g.1, .map (Value.put "Keys" (.list g.2) (paramsOf wanted g.1)))

/-- A chunk asks for its keys. -/
theorem askedKeys_asksOf (wanted : List Wanted) {c : Chunk} (htexts : HaveTexts c.requests) :
    (askedKeys (asksOf wanted c)).Perm c.requests := by
  have hgroups : askedKeys (asksOf wanted c) = ungrouped (grouped c.requests) := by
    unfold askedKeys asksOf
    rw [List.map_map]
    congr 1
    conv_rhs => rw [← List.map_id (grouped c.requests)]
    refine List.map_congr_left fun g _ => ?_
    have hkeys : (Value.map (Value.put "Keys" (.list g.2) (paramsOf wanted g.1))).get? "Keys" =
        some (.list g.2) := Value.lookup_put ..
    show (g.1, ((Value.get? "Keys" _).bind Value.sequence?).getD []) = g
    rw [hkeys]
    rfl
  rw [hgroups]
  exact perm_ungrouped htexts

/-! ## The service -/

/-- A response that answers for some keys: some of them are reported, with their tables, as they were
    sent, and the items are found for all others. -/
def Answers (stored : Pending → Option Value) (alike : Value → Value → Prop) (rs : List Pending)
    (response : Value) : Prop :=
  ∃ (items left : List (Value × List Value)) (names : List String) (specs : Entries)
    (done : List Pending),
    reportOf "Responses" response = .ok (groupsValue items) ∧
    reportOf "UnprocessedKeys" response = .ok (.map specs) ∧
    List.Forall₂ (fun g e => g.1 = e.1 ∧ ∃ spec, e.2 = .map spec ∧
      Value.lookup "Keys" spec = some (.list g.2)) left specs ∧
    left.map Prod.fst = names.map .text ∧ names.Nodup ∧
    rs.Perm (done ++ ungrouped left) ∧ FoundFor stored alike done (ungrouped items)

/-- A service that throttles or answers each call for some of the keys, in every state with `I`, which no
    call and no delay ends. -/
structure Serves (host : Host σ) (settings : Settings) (extra : Entries) (keys : List Pending)
    (stored : Pending → Option Value) (alike : Value → Value → Prop) (I : σ → Prop) : Prop where
  pauses : ∀ seconds s, I s → I (host.pause seconds s).2
  sends : ∀ asks s, I s → (askedKeys asks).Nodup → askedKeys asks ⊆ keys →
    let o := Gateway.send host settings .batchGetItem
      ((.text "RequestItems", .map asks) :: extra) s
    I o.2 ∧ ((∃ f, o.1 = .error f ∧ Gateway.isRetryable f = true) ∨
      ∃ response, o.1 = .ok response ∧ Answers stored alike (askedKeys asks) response)

/-! ## Reading a response -/

theorem foundItems_eq {response : Value} {items : List (Value × List Value)}
    (h : reportOf "Responses" response = .ok (groupsValue items)) :
    foundItems response = .ok (ungrouped items) := by
  have heach : eachOf (fun e : Value × Value => foundIn e.1 e.2)
      (items.map fun g => (g.1, .list g.2)) =
        .ok (items.map fun g => g.2.map fun v => (g.1, v)) := by
    rw [eachOf_eq_ok_iff, List.map_map, List.map_map]
    rfl
  unfold foundItems
  rw [h]
  unfold groupsValue
  dsimp only
  rw [heach]
  rfl

theorem unprocessedKeys_eq {response : Value} {specs : Entries} {left : List (Value × List Value)}
    (h : reportOf "UnprocessedKeys" response = .ok (.map specs))
    (hspecs : List.Forall₂ (fun g e => g.1 = e.1 ∧ ∃ spec, e.2 = .map spec ∧
      Value.lookup "Keys" spec = some (.list g.2)) left specs) :
    unprocessedKeys response = .ok (groupsValue left) := by
  have heach : eachOf (fun e : Value × Value => (unprocessedIn e.2).map fun ks => (e.1, ks)) specs =
      .ok (left.map fun g => (g.1, .list g.2)) := by
    clear h
    rw [eachOf_eq_ok_iff, List.map_map]
    induction hspecs with
    | nil => rfl
    | @cons g e left specs hge _ ih =>
      obtain ⟨htable, spec, hspec, hkeys⟩ := hge
      have hhead : (unprocessedIn e.2).map (fun ks => (e.1, ks)) = .ok (g.1, .list g.2) := by
        rw [hspec, unprocessedIn, hkeys, htable]
        rfl
      rw [List.map_cons, List.map_cons, hhead, ih]
      rfl
  unfold unprocessedKeys
  rw [h]
  dsimp only
  rw [heach]
  rfl

/-- Items that cannot be read are a mishap. -/
theorem foundItems_mishap (response : Value) :
    Ends (fun _ => True) (fun f => ∃ m, f = .mishap m) (foundItems response) := by
  have hfound (table items : Value) : Ends (fun found : List Pending => ∀ r ∈ found, True)
      (fun f => ∃ m, f = .mishap m) (foundIn table items) := by
    unfold foundIn
    split
    · exact fun _ _ => trivial
    · exact ⟨_, rfl⟩
  unfold foundItems
  split
  · exact ⟨_, rfl⟩
  · exact (Ends.flatten fun e _ => hfound e.1 e.2).weaken
  · exact ⟨_, rfl⟩

/-- A report of keys that cannot be read is a mishap. -/
theorem unprocessedKeys_mishap (response : Value) :
    Ends (fun _ => True) (fun f => ∃ m, f = .mishap m) (unprocessedKeys response) := by
  have hspec (spec : Value) :
      Ends (fun _ => True) (fun f => ∃ m, f = .mishap m) (unprocessedIn spec) := by
    unfold unprocessedIn
    split
    · trivial
    · exact ⟨_, rfl⟩
  have heach (es : Entries) : Ends (fun fs : Entries => ∀ e ∈ fs, True)
      (fun f => ∃ m, f = .mishap m)
      (eachOf (fun e => (unprocessedIn e.2).map fun ks => (e.1, ks)) es) :=
    Ends.eachOf fun e _ => (hspec e.2).map fun _ _ => trivial
  unfold unprocessedKeys
  split
  · exact ⟨_, rfl⟩
  · exact (heach _).map fun _ _ => trivial
  · exact ⟨_, rfl⟩

/-! ## Asking a report -/

/-- Keys that are told apart: in a table each of them equals itself and no other one. -/
def ToldApart (keys : List Pending) : Prop :=
  ∀ r ∈ keys, ∀ q ∈ keys, r.1 = q.1 →
    (r = q ∧ r.2.equal q.2 = .ok true) ∨ (r ≠ q ∧ r.2.equal q.2 = .ok false)

theorem find?_of_mem {groups : List (Value × List Value)} {names : List String}
    (hgroups : groups.map Prod.fst = names.map .text) (hnames : names.Nodup) {name : String}
    {vs : List Value} (h : (.text name, vs) ∈ groups) :
    Value.find? (.text name) (groups.map fun g => (g.1, .list g.2)) = some (.list vs) := by
  rw [find?_text]
  induction groups generalizing names with
  | nil => exact absurd h List.not_mem_nil
  | cons g groups ih =>
    cases names with
    | nil => cases hgroups
    | cons other names =>
      rw [List.map_cons, List.map_cons, List.cons.injEq] at hgroups
      obtain ⟨hother, hnames⟩ := List.nodup_cons.1 hnames
      rw [List.map_cons, Value.lookup, hgroups.1, Value.isKey_text]
      rcases List.mem_cons.1 h with h | h
      · have hname : Value.text other = .text name := hgroups.1.symm.trans (by rw [← h])
        rw [if_pos (by simpa using hname), ← h]
      · have hmem : Value.text name ∈ names.map Value.text := by
          rw [← hgroups.2]
          exact List.mem_map_of_mem (f := Prod.fst) h
        obtain ⟨n, hn, heq⟩ := List.mem_map.1 hmem
        have hne : other ≠ name := fun h => hother (by rw [h, ← Value.text.inj heq]; exact hn)
        rw [if_neg (by simpa using hne)]
        exact ih hgroups.2 hnames h

theorem mem_of_find? {groups : List (Value × List Value)} {names : List String}
    (hgroups : groups.map Prod.fst = names.map .text) {name : String} {v : Value}
    (h : Value.find? (.text name) (groups.map fun g => (g.1, .list g.2)) = some v) :
    ∃ vs, v = .list vs ∧ (.text name, vs) ∈ groups := by
  rw [find?_text] at h
  induction groups generalizing names with
  | nil => cases h
  | cons g groups ih =>
    cases names with
    | nil => cases hgroups
    | cons other names =>
      rw [List.map_cons, List.map_cons, List.cons.injEq] at hgroups
      rw [List.map_cons, Value.lookup, hgroups.1, Value.isKey_text] at h
      by_cases heq : other = name
      · rw [if_pos (by simpa using heq)] at h
        refine ⟨g.2, (Option.some.inj h).symm, ?_⟩
        rw [← heq, ← hgroups.1]
        exact List.mem_cons_self
      · rw [if_neg (by simpa using heq)] at h
        obtain ⟨vs, hv, hmem⟩ := ih hgroups.2 h
        exact ⟨vs, hv, List.mem_cons_of_mem _ hmem⟩

/-- A report of keys as they were sent names exactly these keys. -/
theorem asked_groups {keys : List Pending} (htold : ToldApart keys) {left : List (Value × List Value)}
    {names : List String} (hleft : left.map Prod.fst = names.map .text) (hnames : names.Nodup)
    (hsub : ungrouped left ⊆ keys) {r : Pending} (hr : r ∈ keys) {name : String}
    (hname : r.1 = .text name) :
    (r ∈ ungrouped left ∧ asked (groupsValue left) r = .ok true) ∨
      (r ∉ ungrouped left ∧ asked (groupsValue left) r = .ok false) := by
  have hasked : asked (groupsValue left) r = ((Value.find? (.text name)
      (left.map fun g => (g.1, .list g.2))).getD (.list [])).contains r.2 := by
    show isReported _ r = _
    unfold isReported
    rw [hname]
    rfl
  rw [hasked]
  cases hfind : Value.find? (.text name) (left.map fun g => (g.1, .list g.2)) with
  | none =>
    refine .inr ⟨fun hmem => ?_, rfl⟩
    obtain ⟨vs, hvs, -⟩ := mem_ungrouped.1 hmem
    rw [hname] at hvs
    rw [find?_of_mem hleft hnames hvs] at hfind
    cases hfind
  | some v =>
    obtain ⟨vs, rfl, hvs⟩ := mem_of_find? hleft hfind
    have hdecided : ∀ k ∈ vs, (r.2 = k ∧ r.2.equal k = .ok true) ∨
        (¬ r.2 = k ∧ r.2.equal k = .ok false) := by
      intro k hk
      have hq : (r.1, k) ∈ keys := hsub (mem_ungrouped.2 ⟨vs, by rwa [hname], hk⟩)
      obtain ⟨heq, htrue⟩ | ⟨hne, hfalse⟩ := htold r hr (r.1, k) hq rfl
      · exact .inl ⟨congrArg Prod.snd heq, htrue⟩
      · exact .inr ⟨fun heq => hne (Prod.ext rfl heq), hfalse⟩
    have hiff : r ∈ ungrouped left ↔ ∃ k ∈ vs, r.2 = k := by
      constructor
      · intro hmem
        obtain ⟨ws, hws, hr⟩ := mem_ungrouped.1 hmem
        rw [hname] at hws
        have hsame := find?_of_mem hleft hnames hws
        rw [hfind] at hsame
        cases hsame
        exact ⟨r.2, hr, rfl⟩
      · rintro ⟨k, hk, heq⟩
        refine mem_ungrouped.2 ⟨vs, by rwa [hname], ?_⟩
        rwa [heq]
    rw [hiff]
    exact Value.holdsForSome_of_decided _ hdecided

/-! ## What a send brings -/

theorem sendKeys_apply (host : Host σ) (settings : Settings) (wanted : List Wanted) (extra : Entries)
    (c : Chunk) (s : σ) :
    sendKeys host settings wanted extra c s =
      match Gateway.send host settings .batchGetItem
        ((.text "RequestItems", .map (asksOf wanted c)) :: extra) s with
      | (.error f, t) => (.error f, t)
      | (.ok response, t) =>
        match foundItems response with
        | .error f => (.error f, t)
        | .ok found => ((unprocessedKeys response).map fun report => ⟨report, found⟩, t) := by
  unfold sendKeys
  rw [show chunkItems wanted c = .map (asksOf wanted c) from rfl, Run.bind_apply]
  rcases Gateway.send host settings .batchGetItem
    ((.text "RequestItems", .map (asksOf wanted c)) :: extra) s with ⟨f | response, t⟩
  · rfl
  · dsimp only
    rw [Run.bind_apply, Run.lift_apply]
    cases foundItems response with
    | error f => rfl
    | ok found =>
      dsimp only
      rw [Run.bind_apply, Run.lift_apply]
      cases unprocessedKeys response <;> rfl

/-- What came of a send of some keys: it was throttled, or the items of all keys that its report does
    not name were found. -/
def IsGood (stored : Pending → Option Value) (alike : Value → Value → Prop) (rs : List Pending)
    (o : Except Failure Reply) : Prop :=
  (∃ f, o = .error f ∧ Gateway.isRetryable f = true) ∨
    ∃ reply, o = .ok reply ∧ IsReadable reply.unprocessed rs ∧
      FoundFor stored alike (rs.filter fun r => !isNamed reply.unprocessed r) reply.found

/-- Of a list in two parts, a test picks the part all of whose members pass. -/
theorem perm_filter_of_split {α : Type} {rs done left : List α} {test : α → Bool}
    (h : rs.Perm (done ++ left)) (hdone : ∀ r ∈ done, test r = true)
    (hleft : ∀ r ∈ left, test r = false) : done.Perm (rs.filter test) := by
  refine List.Perm.symm ((h.filter test).trans (List.Perm.of_eq ?_))
  rw [List.filter_append, List.filter_eq_self.2 hdone, List.filter_eq_nil_iff.2, List.append_nil]
  intro r hr
  rw [hleft r hr]
  exact Bool.false_ne_true

/-- Where a report names requests as they were sent, it can be read, and those that are done are those
    that it does not name. -/
theorem perm_done_of_report {rs done : List Pending} {left : List (Value × List Value)}
    {names : List String} (htexts : HaveTexts rs) (htold : ToldApart rs) (hnodup : rs.Nodup)
    (hleft : left.map Prod.fst = names.map .text) (hnames : names.Nodup)
    (hsplit : rs.Perm (done ++ ungrouped left)) :
    IsReadable (groupsValue left) rs ∧
      done.Perm (rs.filter fun r => !isNamed (groupsValue left) r) := by
  have hasked {r : Pending} (hr : r ∈ rs) :
      (r ∈ ungrouped left ∧ asked (groupsValue left) r = .ok true) ∨
        (r ∉ ungrouped left ∧ asked (groupsValue left) r = .ok false) := by
    obtain ⟨name, hname⟩ := htexts r hr
    refine asked_groups htold hleft hnames (fun q hq => ?_) hr hname
    exact hsplit.mem_iff.2 (List.mem_append_right _ hq)
  have hdisjoint := (List.nodup_append.1 (hsplit.nodup_iff.1 hnodup)).2.2
  constructor
  · intro r hr
    obtain ⟨-, htrue⟩ | ⟨-, hfalse⟩ := hasked hr
    · exact ⟨true, htrue⟩
    · exact ⟨false, hfalse⟩
  · refine perm_filter_of_split hsplit (fun r hr => ?_) fun r hr => ?_
    · obtain ⟨hmem, -⟩ | ⟨-, hfalse⟩ := hasked (hsplit.mem_iff.2 (List.mem_append_left _ hr))
      · exact absurd rfl (hdisjoint r hr r hmem)
      · rw [asked_eq_isNamed hfalse]
        rfl
    · obtain ⟨-, htrue⟩ | ⟨hnot, -⟩ := hasked (hsplit.mem_iff.2 (List.mem_append_right _ hr))
      · rw [asked_eq_isNamed htrue]
        rfl
      · exact absurd hr hnot

/-- A send of keys to a service is throttled, or brings the items of the keys that were processed. -/
theorem sendKeys_serves {host : Host σ} {settings : Settings} {wanted : List Wanted} {extra : Entries}
    {keys : List Pending} {stored : Pending → Option Value} {alike : Value → Value → Prop} {I : σ → Prop}
    (hserves : Serves host settings extra keys stored alike I) (htexts : HaveTexts keys)
    (htold : ToldApart keys) {c : Chunk} (hnodup : c.requests.Nodup) (hsub : c.requests ⊆ keys) {s : σ}
    (hs : I s) :
    I (sendKeys host settings wanted extra c s).2 ∧
      IsGood stored alike c.requests (sendKeys host settings wanted extra c s).1 := by
  have hperm := askedKeys_asksOf wanted fun r hr => htexts r (hsub hr)
  obtain ⟨hI, houtcome⟩ := hserves.sends (asksOf wanted c) s hs (hperm.nodup_iff.2 hnodup)
    fun r hr => hsub (hperm.mem_iff.1 hr)
  rw [sendKeys_apply]
  rcases hsend : Gateway.send host settings .batchGetItem
    ((.text "RequestItems", .map (asksOf wanted c)) :: extra) s with ⟨f | response, t⟩
  · rw [hsend] at hI houtcome
    obtain ⟨g, hg, hretryable⟩ | ⟨response, hresponse, -⟩ := houtcome
    · cases hg
      exact ⟨hI, .inl ⟨f, rfl, hretryable⟩⟩
    · cases hresponse
  · rw [hsend] at hI houtcome
    obtain ⟨g, hg, -⟩ | ⟨response', hresponse, hanswers⟩ := houtcome
    · cases hg
    · cases hresponse
      obtain ⟨items, left, names, specs, done, hitems, hspecs, hkeys, hleft, hnames, hsplit, hfound⟩ :=
        hanswers
      have hall : c.requests.Perm (done ++ ungrouped left) := hperm.symm.trans hsplit
      have htold' : ToldApart c.requests := fun r hr q hq => htold r (hsub hr) q (hsub hq)
      obtain ⟨hread, hdone⟩ := perm_done_of_report (fun r hr => htexts r (hsub hr)) htold' hnodup hleft
        hnames hall
      dsimp only
      rw [foundItems_eq hitems, unprocessedKeys_eq hspecs hkeys]
      exact ⟨hI, .inr ⟨⟨groupsValue left, ungrouped items⟩, rfl, hread, hfound.perm hdone⟩⟩

end ItemStore.Batch
