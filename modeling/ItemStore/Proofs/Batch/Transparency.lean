import ItemStore.Proofs.Batch.Hesitant
import ItemStore.Proofs.Batch.InTurns
import ItemStore.Proofs.Batch.Keys
import ItemStore.Proofs.Batch.Ordering

/-
  Batch gets are transparent. The keys go out in chunks that take turns in any order, each chunk is sent
  again with what is left of it, and the items come in any order; still the answer has for each table,
  in the order of the request, the items that are stored under its keys, in the order of the keys, as
  if each key had been looked up by itself.

  Main statement: `get_transparent`. A chunk of which something is left after as many repetitions as can
  be waited for is not sent again, however large the budget is; the batch fails then.
-/

namespace ItemStore.Batch

variable {σ : Type}

/-! ## What is found for a table -/

section

variable {wanted : List Wanted} {stored : Pending → Option Value} {alike : Value → Value → Prop}

/-- Items given for keys of a table, each with its key: one for each key that something is stored
    under. -/
structure GivenFor (stored : Pending → Option Value) (alike : Value → Value → Prop) (w : Wanted)
    (given : List (Value × Value)) : Prop where
  nodup : (given.map Prod.fst).Nodup
  complete : ∀ key ∈ w.keys, (stored (w.table, key)).isSome → key ∈ given.map Prod.fst
  sound : ∀ g ∈ given, g.1 ∈ w.keys ∧ IsGiven stored alike (w.table, g.1) g.2

theorem haveTexts_found (hwell : WellAsked wanted) {found : List Pending}
    (hfound : FoundFor stored alike (pendingKeys wanted) found) : HaveTexts found := by
  obtain ⟨given, hkeys, -, hperm⟩ := hfound
  intro f hf
  obtain ⟨g, hg, rfl⟩ := List.mem_map.1 (hperm.subset hf)
  exact hwell.haveTexts g.1 (List.mem_of_mem_filter (hkeys.subset (List.mem_map_of_mem hg)))

/-- The items found for a table are given for its keys, in some order. -/
theorem exists_givenFor (hwell : WellAsked wanted) {found : List Pending}
    (hfound : FoundFor stored alike (pendingKeys wanted) found) {w : Wanted} (hw : w ∈ wanted)
    {name : String} (hname : w.table = .text name) :
    ∃ given, GivenFor stored alike w given ∧
      (requestsFor name found).Perm (given.map Prod.snd) := by
  obtain ⟨given, hkeys, hgiven, hperm⟩ := hfound
  have hpending : ∀ g ∈ given, g.1 ∈ pendingKeys wanted := by
    intro g hg
    exact List.mem_of_mem_filter (hkeys.subset (List.mem_map_of_mem hg))
  let here := given.filter fun g => tableName g.1 == name
  have hhere : ∀ g ∈ here, g ∈ given ∧ g.1.1 = w.table := by
    intro g hg
    obtain ⟨hg, hg'⟩ := List.mem_filter.1 hg
    obtain ⟨t, ht⟩ := hwell.haveTexts g.1 (hpending g hg)
    have heq : t = name := by
      unfold tableName at hg'
      rw [ht] at hg'
      exact eq_of_beq hg'
    exact ⟨hg, by rw [ht, hname, heq]⟩
  refine ⟨here.map fun g => (g.1.2, g.2), ⟨?_, fun key hkey hsome => ?_, fun g' hg' => ?_⟩, ?_⟩
  · have hall : (given.map Prod.fst).Nodup :=
      hkeys.nodup_iff.2 (hwell.nodup_pendingKeys.filter _)
    have hnodup : (here.map Prod.fst).Nodup := hall.sublist (List.filter_sublist.map Prod.fst)
    rw [List.map_map]
    refine List.pairwise_map.2 (List.Pairwise.imp_of_mem ?_ (List.pairwise_map.1 hnodup))
    intro g g' hg hg' hne heq
    refine hne (Prod.ext ?_ heq)
    rw [(hhere g hg).2, (hhere g' hg').2]
  · have hmem : (w.table, key) ∈ given.map Prod.fst :=
      hkeys.mem_iff.2 (List.mem_filter.2 ⟨mem_pendingKeys.2 ⟨w, hw, rfl, hkey⟩, hsome⟩)
    obtain ⟨g, hg, heq⟩ := List.mem_map.1 hmem
    have hmine : g ∈ here := by
      refine List.mem_filter.2 ⟨hg, ?_⟩
      unfold tableName
      rw [heq, hname]
      exact beq_self_eq_true name
    rw [List.map_map]
    exact List.mem_map.2 ⟨g, hmine, congrArg Prod.snd heq⟩
  · obtain ⟨g, hg, rfl⟩ := List.mem_map.1 hg'
    obtain ⟨hg, htable⟩ := hhere g hg
    obtain ⟨w', hw', hwg, hkey⟩ := mem_pendingKeys.1 (hpending g hg)
    have heq : w' = w := hwell.eq_of_table hw' hw (hwg.trans htable)
    refine ⟨by rwa [← heq], ?_⟩
    rw [← htable]
    exact hgiven g hg
  · have hfilter := (hperm.filter fun f => tableName f == name).map Prod.snd
    unfold requestsFor
    rw [List.filter_map, List.map_map] at hfilter
    rw [List.map_map]
    exact hfilter

namespace GivenFor

variable {w : Wanted} {given : List (Value × Value)} {names : List String}

/-- An item means its key. -/
theorem meansSame (h : GivenFor stored alike w given) (hkeeps : KeepsKeys wanted stored alike)
    (hw : w ∈ wanted) (hnamed : ∀ key ∈ w.keys, HasNames names key ∧ HasMeanings names key)
    {g : Value × Value} (hg : g ∈ given) : HasMeanings names g.2 ∧ MeansSame names g.2 g.1 := by
  obtain ⟨hkey, hitem⟩ := h.sound g hg
  have hpending : (w.table, g.1) ∈ pendingKeys wanted := mem_pendingKeys.2 ⟨w, hw, rfl, hkey⟩
  have hkept : ∀ n ∈ names, ∃ m, meaningAt n g.1 = some m ∧ meaningAt n g.2 = some m := by
    intro n hn
    obtain ⟨m, hm⟩ := (hnamed g.1 hkey).2 n hn
    exact ⟨m, hm, hkeeps.meanings _ hpending g.2 hitem n m hm⟩
  constructor
  · intro n hn
    obtain ⟨m, -, hm⟩ := hkept n hn
    exact ⟨m, hm⟩
  · intro n hn
    obtain ⟨m, hkey, hitem⟩ := hkept n hn
    rw [hkey, hitem]

/-- An item means no other key of its table. -/
theorem key_eq (h : GivenFor stored alike w given) (hkeeps : KeepsKeys wanted stored alike)
    (hw : w ∈ wanted) (hapart : KeysApart w.keys)
    (hnamed : ∀ key ∈ w.keys, HasNames names key ∧ HasMeanings names key) {g : Value × Value}
    (hg : g ∈ given) {key : Value} (hkey : key ∈ w.keys) (hsame : MeansSame names g.2 key) :
    g.1 = key := by
  have hmember := (h.sound g hg).1
  refine hapart.eq_of_meansSame hmember hkey (hnamed g.1 hmember).1 (hnamed key hkey).1
    fun n hn => ?_
  rw [← (h.meansSame hkeeps hw hnamed hg).2 n hn, hsame n hn]

/-- Among the items, in any order, the one that means a key is the one that was given for it. -/
theorem find?_eq (h : GivenFor stored alike w given) (hkeeps : KeepsKeys wanted stored alike)
    (hw : w ∈ wanted) (hapart : KeysApart w.keys)
    (hnamed : ∀ key ∈ w.keys, HasNames names key ∧ HasMeanings names key) {items : List Value}
    (hitems : items.Perm (given.map Prod.snd)) {key : Value} (hkey : key ∈ w.keys) :
    (stored (w.table, key) = none ∧
      items.find? (fun item => decide (MeansSame names item key)) = none) ∨
    ∃ kept y, stored (w.table, key) = some kept ∧
      items.find? (fun item => decide (MeansSame names item key)) = some y ∧
        alike kept y ∧ ∃ native, Wire.unmarshalItem y = .ok native := by
  cases hstored : stored (w.table, key) with
  | none =>
    refine .inl ⟨rfl, List.find?_eq_none.2 fun item hmem hmeanings => ?_⟩
    obtain ⟨g, hg, rfl⟩ := List.mem_map.1 (hitems.subset hmem)
    obtain ⟨-, kept, hkept, -⟩ := h.sound g hg
    rw [h.key_eq hkeeps hw hapart hnamed hg hkey (of_decide_eq_true hmeanings), hstored] at hkept
    cases hkept
  | some kept =>
    obtain ⟨g, hg, heq⟩ := List.mem_map.1 (h.complete key hkey (by rw [hstored]; rfl))
    have hmem : g.2 ∈ items := hitems.symm.subset (List.mem_map_of_mem hg)
    cases hfind : items.find? fun item => decide (MeansSame names item key) with
    | none =>
      have hdiffer := List.find?_eq_none.1 hfind g.2 hmem
      rw [← heq] at hdiffer
      exact absurd (decide_eq_true (h.meansSame hkeeps hw hnamed hg).2) hdiffer
    | some y =>
      have hmeanings : MeansSame names y key := by simpa using List.find?_some hfind
      obtain ⟨g', hg', rfl⟩ := List.mem_map.1 (hitems.subset (List.mem_of_find?_eq_some hfind))
      have hgiven := (h.sound g' hg').2
      rw [h.key_eq hkeeps hw hapart hnamed hg' hkey hmeanings] at hgiven
      obtain ⟨other, hother, halike⟩ := hgiven
      have hread := hkeeps.readable _ (mem_pendingKeys.2 ⟨w, hw, rfl, hkey⟩) g'.2
        ⟨other, hother, halike⟩
      rw [hstored] at hother
      cases hother
      exact .inr ⟨kept, g'.2, rfl, rfl, halike, hread⟩

end GivenFor

theorem forall₂_filterMap {α β γ : Type} {R : β → γ → Prop} {f : α → Option β} {g : α → Option γ}
    {as : List α} (h : ∀ a ∈ as, (f a = none ∧ g a = none) ∨
      ∃ b c, f a = some b ∧ g a = some c ∧ R b c) :
    List.Forall₂ R (as.filterMap f) (as.filterMap g) := by
  induction as with
  | nil => exact .nil
  | cons a as ih =>
    have hrest := ih fun b hb => h b (List.mem_cons_of_mem _ hb)
    obtain ⟨hf, hg⟩ | ⟨b, c, hf, hg, hbc⟩ := h a List.mem_cons_self
    · rwa [List.filterMap_cons_none hf, List.filterMap_cons_none hg]
    · rw [List.filterMap_cons_some hf, List.filterMap_cons_some hg]
      exact .cons hbc hrest

/-- What was found for a table is put into the order of its keys. -/
theorem orderItems_found (hwell : WellAsked wanted) (hkeeps : KeepsKeys wanted stored alike)
    {found : List Pending} (hfound : FoundFor stored alike (pendingKeys wanted) found) {w : Wanted}
    (hw : w ∈ wanted) :
    ∃ items, orderItems found w.table (.list w.keys) = .ok items ∧
      List.Forall₂ (fun item y => alike item y ∧ ∃ native, Wire.unmarshalItem y = .ok native)
        (w.keys.filterMap fun key => stored (w.table, key)) items := by
  obtain ⟨tables, htables, -⟩ := hwell.tables
  obtain ⟨name, -, hname⟩ := List.mem_map.1
    (show w.table ∈ tables.map Value.text by rw [← htables]; exact List.mem_map_of_mem hw)
  obtain ⟨given, hgiven, hperm⟩ := exists_givenFor hwell hfound hw hname.symm
  have hapart := hwell.keys w hw
  obtain ⟨names, hnames, hnamed⟩ := hapart.named
  refine ⟨w.keys.filterMap fun key =>
    (requestsFor name found).find? fun item => decide (MeansSame names item key), ?_, ?_⟩
  · rw [← hname]
    refine orderItems_eq hnames hnamed (haveTexts_found hwell hfound) (fun item hmem => ?_) ?_
    · obtain ⟨g, hg, rfl⟩ := List.mem_map.1 (hperm.subset hmem)
      obtain ⟨hmeanings, hsame⟩ := hgiven.meansSame hkeeps hw hnamed hg
      exact ⟨hmeanings, g.1, (hgiven.sound g hg).1, hsame⟩
    · refine hperm.symm.pairwise (List.pairwise_map.2 ?_) fun h hba => h fun n hn => (hba n hn).symm
      refine List.Pairwise.imp_of_mem ?_ (List.pairwise_map.1 hgiven.nodup)
      intro g g' hg hg' hne hmeanings
      refine hne (hgiven.key_eq hkeeps hw hapart hnamed hg (hgiven.sound g' hg').1 fun n hn => ?_)
      rw [hmeanings n hn, (hgiven.meansSame hkeeps hw hnamed hg').2 n hn]
  · exact forall₂_filterMap fun key hkey => hgiven.find?_eq hkeeps hw hapart hnamed hperm hkey

end

/-! ## What all chunks find -/

/-- What a send leaves to be sent again is part of what was sent. -/
theorem sublist_of_stageAfter {settings : Settings} {budget b : Nat} {p p' : Progress}
    {o : Except Failure Reply} (h : stageAfter settings budget p o = .driving b p') :
    p'.chunk.requests.Sublist p.chunk.requests := by
  unfold stageAfter at h
  cases hsettle : settle p o with
  | error f =>
    rw [hsettle] at h
    cases h
  | ok q =>
    have hq : q.chunk.requests.Sublist p.chunk.requests := by
      cases o with
      | error f =>
        obtain ⟨-, rfl⟩ := settle_failed hsettle
        exact .refl _
      | ok reply =>
        obtain ⟨-, rfl⟩ := settle_replied hsettle
        exact List.filter_sublist
    rw [hsettle] at h
    dsimp only at h
    split at h
    · cases h
    · cases budget with
      | zero => cases h
      | succ budget =>
        dsimp only at h
        split at h
        · cases h
        · cases h
          exact hq

section

variable {host : Host σ} {settings : Settings} {extra : Entries} {wanted : List Wanted}
  {stored : Pending → Option Value} {alike : Value → Value → Prop} {I : σ → Prop}

theorem rested_invariant (hpauses : ∀ seconds s, I s → I (host.pause seconds s).2) (stage : Stage)
    {s : σ} (hs : I s) : I (stage.rested host settings s) := by
  unfold Stage.rested
  split
  · exact hs
  · split
    · exact hs
    · exact hpauses _ s hs

/-- A job all of whose sends were throttled or brought the items of what they processed; what it sends
    next are some of the keys. -/
def Job.IsAnswered (stored : Pending → Option Value) (alike : Value → Value → Prop)
    (keys : List Pending) (j : Job) : Prop :=
  (∀ x ∈ j.sendings, IsGood stored alike x.sent.requests x.outcome) ∧
    ∀ b p, j.stage = .driving b p → p.chunk.requests.Sublist keys

/-- A turn of a job is answered by the service. -/
theorem isAnswered_turn (hwell : WellAsked wanted)
    (hserves : Serves host settings extra (pendingKeys wanted) stored alike I) {j : Job} {s : σ}
    (hj : j.IsAnswered stored alike (pendingKeys wanted)) (hs : I s) :
    (j.turn host settings (sendKeys host settings wanted extra) s).1.IsAnswered stored alike
        (pendingKeys wanted) ∧
      I (j.turn host settings (sendKeys host settings wanted extra) s).2 := by
  obtain ⟨hsendings, hnext⟩ := hj
  unfold Job.turn
  split
  · exact ⟨⟨hsendings, hnext⟩, hs⟩
  · rename_i budget p hstage
    have hsub := hnext budget p hstage
    split
    · refine ⟨⟨hsendings, fun b q hq => ?_⟩, hs⟩
      cases hq
    · obtain ⟨hI, hgood⟩ := sendKeys_serves hserves hwell.haveTexts hwell.toldApart
        (hsub.nodup hwell.nodup_pendingKeys) hsub.subset hs
      refine ⟨⟨fun x hx => ?_, fun b q hq => ?_⟩, rested_invariant hserves.pauses _ hI⟩
      · rcases List.mem_append.1 hx with hx | hx
        · exact hsendings x hx
        · rw [List.mem_singleton.1 hx]
          exact hgood
      · exact (sublist_of_stageAfter hq).trans hsub

/-- In whatever order the chunks take turns, all their sends are answered by the service. -/
theorem isAnswered_of_serves (hwell : WellAsked wanted)
    (hserves : Serves host settings extra (pendingKeys wanted) stored alike I) (order : List Nat)
    (limit : Int) {s : σ} (hs : I s) :
    ∀ j ∈ batchJobs host settings order (sendKeys host settings wanted extra) limit
        (pendingKeys wanted) s,
      ∀ x ∈ j.sendings, IsGood stored alike x.sent.requests x.outcome := by
  have hstart : ∀ c ∈ freshChunks limit (pendingKeys wanted),
      (Job.start settings c).IsAnswered stored alike (pendingKeys wanted) := by
    intro c hc
    refine ⟨fun x hx => absurd hx List.not_mem_nil, fun b p hp => ?_⟩
    cases hp
    show c.requests.Sublist (pendingKeys wanted)
    have hmem : c.requests ∈ slices (limit.toNat - 1) (pendingKeys wanted) := by
      rw [← map_requests_freshChunks]
      exact List.mem_map_of_mem hc
    have hsub := List.sublist_flatten_of_mem hmem
    rwa [flatten_slices] at hsub
  intro j hj
  exact ((jobsInTurns_invariant (fun _ _ hj hs => isAnswered_turn hwell hserves hj hs) order hstart
    hs).1 j hj).1

theorem isRegular_of_isGood {x : Sending}
    (h : IsGood stored alike x.sent.requests x.outcome) : x.IsRegular := by
  unfold Sending.IsRegular
  obtain ⟨f, hf, hretryable⟩ | ⟨reply, hreply, hread, -⟩ := h
  · rwa [hf]
  · rwa [hreply]

theorem foundFor_of_isGood {x : Sending}
    (h : IsGood stored alike x.sent.requests x.outcome) :
    FoundFor stored alike x.processed x.found := by
  unfold Sending.processed Sending.found
  obtain ⟨f, hf, -⟩ | ⟨reply, hreply, -, hfound⟩ := h
  · rw [hf]
    exact foundFor_nil
  · rw [hreply]
    exact hfound

theorem foundFor_flatMap {α : Type} {f g : α → List Pending} {as : List α}
    (h : ∀ a ∈ as, FoundFor stored alike (f a) (g a)) :
    FoundFor stored alike (as.flatMap f) (as.flatMap g) := by
  induction as with
  | nil => exact foundFor_nil
  | cons a as ih =>
    rw [List.flatMap_cons, List.flatMap_cons]
    exact (h a List.mem_cons_self).append (ih fun b hb => h b (List.mem_cons_of_mem _ hb))

/-- Jobs that came to a proper end with nothing left found the items for all their keys. -/
theorem foundFor_of_drained {js : List Job}
    (hgood : ∀ j ∈ js, ∀ x ∈ j.sendings, IsGood stored alike x.sent.requests x.outcome)
    (hsettled : ∀ j ∈ js, ∃ p, j.IsSettled settings p) (hnil : residue js = []) :
    FoundFor stored alike (js.flatMap fun j => j.fresh.requests) (foundBy js) := by
  refine foundFor_flatMap fun j hj => ?_
  obtain ⟨p, hp⟩ := hsettled j hj
  have hfound : FoundFor stored alike (j.sendings.flatMap Sending.processed)
      (j.sendings.flatMap Sending.found) :=
    foundFor_flatMap fun x hx => foundFor_of_isGood (hgood j hj x hx)
  have hempty : p.chunk.requests = [] := by
    rw [hp.tally.requests]
    exact List.flatMap_eq_nil_iff.1 hnil j hj
  have hprocessed := hp.tally.processed
  rw [hempty, List.append_nil] at hprocessed
  exact hfound.perm hprocessed

end

/-! ## The answer -/

/-- What is answered for a table: the items that are stored under its keys, in the order of the keys,
    each as it was given and read. -/
def IsAnswerFor (stored : Pending → Option Value) (alike : Value → Value → Prop) (w : Wanted)
    (e : Value × Value) : Prop :=
  e.1 = w.table ∧ ∃ natives, e.2 = .list natives ∧
    List.Forall₂ (fun item native => ∃ y, alike item y ∧ Wire.unmarshalItem y = .ok native)
      (w.keys.filterMap fun key => stored (w.table, key)) natives

/-- What was found for a table is its answer. -/
theorem mergeTable_found {wanted : List Wanted} {stored : Pending → Option Value}
    {alike : Value → Value → Prop} (hwell : WellAsked wanted)
    (hkeeps : KeepsKeys wanted stored alike) {found : List Pending}
    (hfound : FoundFor stored alike (pendingKeys wanted) found) {w : Wanted} (hw : w ∈ wanted) :
    ∃ e : Value × Value,
      (mergeTable found w.table (.list w.keys)).map (fun items => (w.table, items)) = .ok e ∧
        IsAnswerFor stored alike w e := by
  obtain ⟨items, horder, hitems⟩ := orderItems_found hwell hkeeps hfound hw
  obtain ⟨natives, hnatives, hall⟩ := exists_eachOf (f := Wire.unmarshalItem)
    (q := fun item native => ∃ y, alike item y ∧ Wire.unmarshalItem y = .ok native) hitems
    fun item y ⟨halike, native, hnative⟩ => ⟨native, hnative, y, halike, hnative⟩
  refine ⟨(w.table, .list natives), ?_, rfl, natives, rfl, hall⟩
  unfold mergeTable
  rw [horder]
  dsimp only
  rw [hnatives]
  rfl

theorem answerOf_found {request : Entries} {wanted : List Wanted} {stored : Pending → Option Value}
    {alike : Value → Value → Prop} (hlimit : Value.field "Limit" request = .null)
    (hwell : WellAsked wanted) (hkeeps : KeepsKeys wanted stored alike) {found : List Pending}
    (hfound : FoundFor stored alike (pendingKeys wanted) found) :
    ∃ answers : Entries, answerOf request wanted found = .ok (.map answers) ∧
      List.Forall₂ (IsAnswerFor stored alike) wanted answers := by
  have hentries : List.Forall₂ (fun w e => w ∈ wanted ∧ e = (w.table, Value.list w.keys)) wanted
      (wanted.map fun w => (w.table, .list w.keys)) :=
    List.forall₂_map_right_iff.2 (List.forall₂_same.2 fun w hw => ⟨hw, rfl⟩)
  obtain ⟨answers, hanswers, hall⟩ := exists_eachOf (q := IsAnswerFor stored alike)
    (f := fun e : Value × Value => (mergeTable found e.1 e.2).map fun items => (e.1, items))
    hentries fun w e ⟨hw, he⟩ => by
      rw [he]
      exact mergeTable_found hwell hkeeps hfound hw
  refine ⟨answers, ?_, hall⟩
  unfold answerOf merge
  rw [hanswers, hlimit]
  rfl

/-- A batch get whose chunks are all processed in the end answers as if each key had been looked up by
    itself. If some chunk is not, the batch fails: that chunk was sent as often as the budget allows,
    or as can be waited for. -/
theorem get_transparent (host : Host σ) (settings : Settings) (order : List Nat) (s : σ)
    {request items : Entries} {wanted : List Wanted} (hitems : requestItems request = .ok items)
    (hwanted : eachOf (fun e => wantedOf e.1 e.2) items = .ok wanted)
    (hlimit : Value.field "Limit" request = .null) (hwell : WellAsked wanted)
    {stored : Pending → Option Value} {alike : Value → Value → Prop}
    (hkeeps : KeepsKeys wanted stored alike) {I : σ → Prop}
    (hserves : Serves host settings (Value.without "Limit" (Value.without "RequestItems" request))
      (pendingKeys wanted) stored alike I) (hs : I s) :
    (residue (getJobs host settings order request wanted s) = [] →
      ∃ answers : Entries, (getInTurns host settings order request s).1 = .ok (.map answers) ∧
        List.Forall₂ (IsAnswerFor stored alike) wanted answers) ∧
    (residue (getJobs host settings order request wanted s) ≠ [] →
      (∃ f, (getInTurns host settings order request s).1 = .error f ∧
        (mostRests settings < settings.batchMaxRetries.toNat → f = noRest settings)) ∧
      ∃ j ∈ getJobs host settings order request wanted s,
        unacknowledged j.fresh j.sendings ≠ [] ∧
          j.sendings.length = min settings.batchMaxRetries.toNat (mostRests settings) + 1) := by
  have hgood : ∀ j ∈ getJobs host settings order request wanted s, ∀ x ∈ j.sendings,
      IsGood stored alike x.sent.requests x.outcome :=
    isAnswered_of_serves hwell hserves order settings.batchGetLimit hs
  have hregular : ∀ j ∈ getJobs host settings order request wanted s, j.IsRegular :=
    fun j hj x hx => isRegular_of_isGood (hgood j hj x hx)
  have hsettled := settled_of_regular host settings order (sendKeysOf host settings request wanted)
    settings.batchGetLimit (pendingKeys wanted) s hregular
  have houtcome := getInTurns_apply host settings order hitems hwanted s
  constructor
  · intro hnil
    have hover : ∀ j ∈ getJobs host settings order request wanted s, ¬ j.IsOverrun settings :=
      fun j hj hover => hover.2.2 (List.flatMap_eq_nil_iff.1 hnil j hj)
    obtain ⟨ps, hps, hfound⟩ := driveOut_drained host settings order .batchGetItem
      Wire.unmarshalItem _ _ _ s (hsettled hover) hnil
    have hall := foundFor_of_drained hgood (hsettled hover) hnil
    rw [show (getJobs host settings order request wanted s).flatMap (fun j => j.fresh.requests) =
      pendingKeys wanted from requests_batchJobs ..] at hall
    rw [houtcome, hps]
    dsimp only
    rw [hfound]
    exact answerOf_found hlimit hwell hkeeps hall
  · intro hne
    obtain ⟨⟨f, hf, hdelay⟩, hspent⟩ := driveOut_leftOver host settings order .batchGetItem
      Wire.unmarshalItem (sendKeysOf host settings request wanted) settings.batchGetLimit
      (pendingKeys wanted) s hregular hne
    refine ⟨⟨f, ?_, hdelay⟩, hspent⟩
    rw [houtcome, hf]

/-! ## Films to get -/

/-- A film's key on the wire. -/
def yearKey (year : String) : Value := .object [("year", .object [("N", .text year)])]

/-- The years of two films, and of a show. -/
def getItems : Entries :=
  [(.text "films", .object [("Keys", .list [.object [("year", .int 2012)],
    .object [("year", .int 2013)]])]),
    (.text "shows", .object [("Keys", .list [.object [("year", .int 2014)]])])]

/-- A request for the films and the show. -/
def getRequest : Entries := [(.text "RequestItems", .map getItems)]

/-- What is wanted. -/
def getWanted : List Wanted :=
  [⟨.text "films", [yearKey "2012", yearKey "2013"], []⟩, ⟨.text "shows", [yearKey "2014"], []⟩]

/-- A film from 2013 and a show from 2014 are stored. -/
def storedFilms (r : Pending) : Option Value :=
  match r with
  | (.text "films", .map [(.text "year", .map [(.text "N", .text "2013")])]) =>
    some (.object [("year", .object [("N", .text "2013")]), ("title", .object [("S", .text "Her")])])
  | (.text "shows", .map [(.text "year", .map [(.text "N", .text "2014")])]) =>
    some (.object [("year", .object [("N", .text "2014")]), ("title", .object [("S", .text "Fargo")])])
  | _ => none

/-- An item whose first number is padded by a zero. -/
def padded (item : Value) : Value :=
  match item with
  | .map ((name, .map [(code, .text s)]) :: es) => .map ((name, .map [(code, .text ("0" ++ s))]) :: es)
  | v => v

/-- Two keys at a time, and two repetitions. -/
def twoKeys : Settings := { twoAtOnce with batchGetLimit := 2, batchMaxRetries := 2 }

theorem hasScalars_yearKey (year : String) : HasScalars ["year"] (yearKey year) := by
  refine ⟨⟨_, rfl, .refl _⟩, fun name hname => ?_⟩
  rw [List.mem_singleton.1 hname]
  exact ⟨.object [("N", .text year)], rfl, .number rfl⟩

theorem wellAsked_getWanted : WellAsked getWanted := by
  have hkey (year : String) (h : (meaningAt "year" (yearKey year)).isSome = true) :
      HasScalars ["year"] (yearKey year) ∧ HasMeanings ["year"] (yearKey year) := by
    refine ⟨hasScalars_yearKey year, fun name hname => ?_⟩
    rw [List.mem_singleton.1 hname]
    exact Option.isSome_iff_exists.1 h
  refine ⟨⟨["films", "shows"], rfl, by decide⟩, fun w hw => ?_⟩
  rcases List.mem_cons.1 hw with rfl | hw
  · refine KeysApart.of_scalars (List.nodup_singleton "year") (fun key hkeys => ?_) ?_
    · rcases List.mem_cons.1 hkeys with rfl | hkeys
      · exact hkey "2012" (by decide +kernel)
      · rw [List.mem_singleton.1 hkeys]
        exact hkey "2013" (by decide +kernel)
    · exact List.pairwise_pair.2 ⟨"year", List.mem_singleton_self _, by decide +kernel⟩
  · rw [List.mem_singleton.1 hw]
    refine KeysApart.of_scalars (List.nodup_singleton "year") (fun key hkeys => ?_)
      (List.pairwise_singleton ..)
    rw [List.mem_singleton.1 hkeys]
    exact hkey "2014" (by decide +kernel)

theorem keepsKeys_padded :
    KeepsKeys getWanted storedFilms fun item y => y = padded item := by
  have hgiven : ∀ r ∈ pendingKeys getWanted, ∀ y,
      IsGiven storedFilms (fun item y => y = padded item) r y →
      (∃ year, r.2 = yearKey year) ∧ meaningAt "year" r.2 = meaningAt "year" y ∧
        (Wire.unmarshalItem y).isOk = true := by
    rintro r hr y ⟨item, hitem, rfl⟩
    have hcases : r = (.text "films", yearKey "2012") ∨ r = (.text "films", yearKey "2013") ∨
        r = (.text "shows", yearKey "2014") := by
      simpa [pendingKeys, getWanted] using hr
    rcases hcases with rfl | rfl | rfl
    · cases hitem
    · cases hitem
      exact ⟨⟨_, rfl⟩, by decide +kernel, by decide +kernel⟩
    · cases hitem
      exact ⟨⟨_, rfl⟩, by decide +kernel, by decide +kernel⟩
  constructor
  · intro r hr y hy name m hm
    obtain ⟨⟨year, hyear⟩, hmeaning, -⟩ := hgiven r hr y hy
    by_cases hname : name = "year"
    · rwa [hname, ← hmeaning, ← hname]
    · have hnone := KeysApart.meaningAt_eq_none (hasScalars_yearKey year).1
        (show name ∉ ["year"] by simpa using hname)
      rw [hyear, hnone] at hm
      cases hm
  · intro r hr y hy
    obtain ⟨-, -, hok⟩ := hgiven r hr y hy
    cases hread : Wire.unmarshalItem y with
    | ok native => exact ⟨native, rfl⟩
    | error f =>
      rw [hread] at hok
      cases hok

theorem get_transparent_films :
    ∃ answers : Entries, (getInTurns (hesitantHost storedFilms padded) twoKeys [1, 0]
        getRequest 1).1 = .ok (.map answers) ∧
      List.Forall₂ (IsAnswerFor storedFilms fun item y => y = padded item) getWanted answers := by
  have hitems : requestItems getRequest = .ok getItems := rfl
  have hwanted : eachOf (fun e => wantedOf e.1 e.2) getItems = .ok getWanted := rfl
  have hlimit : Value.field "Limit" getRequest = .null := rfl
  obtain ⟨hdrained, hleft⟩ := get_transparent (hesitantHost storedFilms padded) twoKeys [1, 0] 1
    hitems hwanted hlimit wellAsked_getWanted keepsKeys_padded
    (serves_hesitantHost twoKeys wellAsked_getWanted.haveTexts) trivial
  refine hdrained ?_
  by_contra hne
  obtain ⟨⟨f, hf, -⟩, -⟩ := hleft hne
  have hok : (getInTurns (hesitantHost storedFilms padded) twoKeys [1, 0] getRequest 1).1.isOk =
      true := by decide +kernel
  rw [hf] at hok
  cases hok

/-- Two keys at a time, and a budget for more repetitions than there are delays. -/
def patientKeys : Settings := { twoKeys with batchMaxRetries := 1100 }

theorem mostRests_patientKeys : mostRests patientKeys = 1024 :=
  mostRests_eq (by decide +kernel) (by decide +kernel) (by decide +kernel)

/-- A batch get whose service is too busy for 1030 calls, and would answer then, fails for want of a
    delay, although it was to be given up after 1100 repetitions. -/
theorem get_busy :
    (get (hesitantHost storedFilms padded) { twoKeys with batchMaxRetries := 1100 } getRequest
      1030).1 = .error noDelay := by
  show (get (hesitantHost storedFilms padded) patientKeys getRequest 1030).1 = .error noDelay
  have hfirst (c : Chunk) (hattempts : c.attempts = 0) (hrequests : c.requests.isEmpty = false) :
      (driveFresh (hesitantHost storedFilms padded) patientKeys
        (sendKeysOf (hesitantHost storedFilms padded) patientKeys getRequest getWanted) c 1030).1 =
          .error noDelay := by
    rw [← noRest_eq mostRests_patientKeys]
    refine drive_busy (n := 1024) (fun c k => ⟨_, rfl, rfl⟩) (fun _ _ => rfl) hrequests ?_ ?_ ?_
    · rw [mostRests_patientKeys, hattempts]
    · decide
    · decide
  have hitems : requestItems getRequest = .ok getItems := rfl
  have hwanted : eachOf (fun e => wantedOf e.1 e.2) getItems = .ok getWanted := rfl
  have hpending : pendingKeys getWanted = (.text "films", yearKey "2012") ::
      [(.text "films", yearKey "2013"), (.text "shows", yearKey "2014")] := rfl
  rw [← getInTurns_nil, getInTurns_apply _ _ _ hitems hwanted, driveInTurns_nil, hpending,
    driveOut_of_first hfirst]

end ItemStore.Batch
