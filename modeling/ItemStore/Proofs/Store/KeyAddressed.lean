import ItemStore.Proofs.Batch.Accepted
import ItemStore.Proofs.Store.ItemCalls
import Mathlib.Logic.Function.Basic

/-
  A backend that keeps the items of a table under the values of their keys. Contents change key by key:
  an item that is put replaces what is stored under its key, and nothing is left of what is deleted. The
  backend accepts batches of writes for different keys up to a limit, so a batch of any size is written in
  chunks, and changes what each of its writes changes.

  Main statements: `foldl_changed` and `KeyAddressed.write`.
-/

namespace ItemStore.Store

open Batch (HasNames)

variable {σ : Type}

/-! ## Contents -/

/-- What is stored under the values of keys. -/
abbrev Contents := KeyValue → Option Value

/-- A change: what is stored under the value of a key from then on, if anything. -/
abbrev Change := KeyValue × Option Value

/-- Contents after a change. -/
def changed (m : Contents) (c : Change) : Contents := Function.update m c.1 c.2

/-- Under each value of a key there is what the last change for it left. -/
theorem foldl_changed (cs : List Change) (m : Contents) (k : KeyValue) :
    cs.foldl changed m k = ((cs.reverse.find? fun c => c.1 = k).map Prod.snd).getD (m k) := by
  induction cs using List.reverseRecOn with
  | nil => rfl
  | append_singleton cs c ih =>
    rw [List.foldl_append, List.reverse_append, List.reverse_singleton, List.singleton_append,
      List.find?_cons]
    show Function.update (cs.foldl changed m) c.1 c.2 k = _
    by_cases h : c.1 = k
    · rw [← h, Function.update_self, decide_eq_true rfl]
      rfl
    · rw [Function.update_of_ne (Ne.symm h), decide_eq_false h]
      exact ih

/-- Changes for other keys change nothing. -/
theorem foldl_changed_of_notMem {cs : List Change} {k : KeyValue} (h : k ∉ cs.map Prod.fst)
    (m : Contents) : cs.foldl changed m k = m k := by
  have hnone : (cs.reverse.find? fun c => c.1 = k) = none := by
    rw [List.find?_eq_none]
    intro c hc heq
    exact h (List.mem_map.2 ⟨c, List.mem_reverse.1 hc, of_decide_eq_true heq⟩)
  rw [foldl_changed, hnone]
  rfl

/-! ## The backend -/

/-- What a write of a batch changes. -/
def changeOf (names : List String) (write : Value) : Change :=
  match (write.get? "PutRequest").bind fun body => body.get? "Item" with
  | some item => (addressOf names item, some item)
  | none =>
    let key := (write.get? "DeleteRequest").bind fun body => body.get? "Key"
    (addressOf names (key.getD .null), none)

/-- A write that the backend understands: it puts an item that has a key, or deletes a key. -/
inductive IsWrite (names : List String) : Value → Prop
  | put {w : Value} : none ∉ addressOf names w → IsWrite names (putWrite w)
  | delete {w : Value} : HasNames names w → none ∉ addressOf names w → IsWrite names (deleteWrite w)

/-- A backend that keeps the items of a table under the values of their keys. It accepts all calls, a batch
    if it is not too large and no two of its writes are for one key. -/
structure KeyAddressed (host : Host σ) (settings : Settings) (table : String) (names : List String)
    (contents : σ → Contents) : Prop where
  connects : ∀ s, ∃ t, host.connect settings.sessionArguments settings.clientArguments s = (.ok (), t) ∧
    contents t = contents s
  puts : ∀ s w, none ∉ addressOf names w → ∃ response t,
    host.send .putItem (singleRequest table "Item" w) s = (.ok response, t) ∧
      contents t = changed (contents s) (addressOf names w, some w)
  gets : ∀ s w, HasNames names w → none ∉ addressOf names w → ∃ es t,
    host.send .getItem (singleRequest table "Key" w) s = (.ok (.map es), t) ∧
      Value.field "Item" es = (contents s (addressOf names w)).getD .null ∧ contents t = contents s
  deletes : ∀ s w, HasNames names w → none ∉ addressOf names w → ∃ response t,
    host.send .deleteItem (singleRequest table "Key" w) s = (.ok response, t) ∧
      contents t = changed (contents s) (addressOf names w, none)
  writes : ∀ s ws, ws ≠ [] → ws.length ≤ settings.batchWriteLimit.toNat →
    (∀ w ∈ ws, IsWrite names w) → (ws.map fun w => (changeOf names w).1).Nodup → ∃ es t,
      host.send .batchWriteItem (batchRequest table ws) s = (.ok (.map es), t) ∧
        (Value.field "UnprocessedItems" es).truthy = false ∧
        contents t = (ws.map (changeOf names)).foldl changed (contents s)

section

variable {host : Host σ} {settings : Settings} {table : String} {names : List String}
  {contents : σ → Contents}

/-- A request is answered as the host answers it in a state with the same contents. -/
theorem KeyAddressed.send (h : KeyAddressed host settings table names contents) (s : σ) :
    ∃ c, contents c = contents s ∧ ∀ method request response t,
      host.send method request c = (.ok response, t) →
        Gateway.send host settings method request s =
          (.ok (if response.truthy then response else .map []), t) := by
  obtain ⟨c, hc, hcontents⟩ : ∃ c, Gateway.ensureConnected host settings s = (.ok (), c) ∧
      contents c = contents s := by
    rw [Gateway.ensureConnected_apply]
    split
    · exact ⟨s, rfl, rfl⟩
    · obtain ⟨c, hconnect, hcontents⟩ := h.connects s
      exact ⟨c, by rw [Run.mapFailure_apply, hconnect]; rfl, hcontents⟩
  refine ⟨c, hcontents, fun method request response t hsend => ?_⟩
  unfold Gateway.send
  rw [Run.bind_apply, hc]
  dsimp only
  rw [Run.bind_apply, Run.mapFailure_apply, hsend]
  rfl

/-- An answer that is a mapping is passed on. -/
theorem map_of_truthy (es : Entries) :
    (if (Value.map es).truthy then Value.map es else .map []) = .map es := by
  cases es <;> rfl

/-! ## Batches -/

theorem grouped_pendingOf (table : String) {ws : List Value} (hne : ws ≠ []) :
    Batch.grouped (pendingOf table ws) = [(.text table, ws)] := by
  have hmore : ∀ xs ys : List Value,
      (pendingOf table ys).foldl (fun groups r => Batch.addTo groups r.1 r.2) [(.text table, xs)] =
        [(.text table, xs ++ ys)] := by
    intro xs ys
    induction ys generalizing xs with
    | nil => rw [List.append_nil]; rfl
    | cons y ys ih =>
      have hadd : Batch.addTo [(.text table, xs)] (.text table) y = [(.text table, xs ++ [y])] := by
        rw [Batch.addTo, Value.eqv_text, beq_self_eq_true, if_pos rfl]
      show (pendingOf table ys).foldl _ (Batch.addTo [(.text table, xs)] (.text table) y) = _
      rw [hadd, ih, List.append_assoc, List.singleton_append]
  cases ws with
  | nil => exact absurd rfl hne
  | cons w ws => exact hmore [w] ws

/-- The backend accepts batches of writes for different keys, if they are not too large. -/
theorem KeyAddressed.accepts (h : KeyAddressed host settings table names contents) {ws : List Value}
    (hne : ws ≠ []) (hlength : ws.length ≤ settings.batchWriteLimit.toNat)
    (hwrites : ∀ w ∈ ws, IsWrite names w) (hnodup : (ws.map fun w => (changeOf names w).1).Nodup) :
    Batch.AcceptsAll host settings [] contents (fun m r => changed m (changeOf names r.2))
      (pendingOf table ws) := by
  intro s
  obtain ⟨c, hcontents, hsend⟩ := h.send s
  obtain ⟨es, t, hresponse, hnone, hafter⟩ := h.writes c ws hne hlength hwrites hnodup
  have hanswer := hsend _ _ _ _ hresponse
  rw [map_of_truthy] at hanswer
  have hcall : Batch.writeCall [] (pendingOf table ws) = batchRequest table ws := by
    unfold Batch.writeCall Batch.groupsValue batchRequest
    rw [grouped_pendingOf table hne]
    rfl
  refine ⟨.map es, t, by rw [hcall]; exact hanswer, ?_, ?_⟩
  · unfold Batch.reportOf
    dsimp only
    rw [hnone]
    rfl
  · unfold pendingOf
    rw [hafter, hcontents, List.foldl_map, List.foldl_map]

/-- A batch of writes for different keys is written, in whatever chunks. -/
theorem KeyAddressed.write (h : KeyAddressed host settings table names contents)
    (hlimit : 1 ≤ settings.batchWriteLimit) {items keys ws ks : List Value}
    (hitems : Marshalled items ws) (hkeys : Marshalled keys ks)
    (hwrites : ∀ w ∈ writesOf ws ks, IsWrite names w)
    (hnodup : ((writesOf ws ks).map fun w => (changeOf names w).1).Nodup) (s : σ) :
    ∃ t, Batch.write host settings
        (batchRequest table (writesOf (items.map Value.copied) (keys.map Value.copied))) s =
          (.ok .null, t) ∧
      contents t = ((writesOf ws ks).map (changeOf names)).foldl changed (contents s) := by
  have hpending := pendingWrites_eq table hitems hkeys
  have htexts : Batch.HaveTexts (pendingOf table (writesOf ws ks)) :=
    List.forall_mem_map.2 fun _ _ => ⟨table, rfl⟩
  have haccepts : ∀ c ∈ Batch.freshChunks settings.batchWriteLimit (pendingOf table (writesOf ws ks)),
      Batch.AcceptsAll host settings [] contents (fun m r => changed m (changeOf names r.2))
        c.requests := by
    intro c hc
    obtain ⟨part, hpart, hrequests⟩ := List.sublist_map_iff.1 (Batch.sublist_of_mem_freshChunks hc)
    have hslice : c.requests ∈ Batch.slices (settings.batchWriteLimit.toNat - 1)
        (pendingOf table (writesOf ws ks)) := by
      rw [← Batch.map_requests_freshChunks]
      exact List.mem_map_of_mem hc
    obtain ⟨hpos, hle⟩ := Batch.length_le_of_mem_slices hslice
    rw [hrequests, List.length_map] at hpos hle
    rw [hrequests]
    exact h.accepts (List.ne_nil_of_length_pos hpos) (by omega)
      (fun w hw => hwrites w (hpart.subset hw)) (hnodup.sublist (hpart.map _))
  have hitems : Batch.requestItems (batchRequest table
      (writesOf (items.map Value.copied) (keys.map Value.copied))) = .ok _ := rfl
  obtain ⟨t, hwritten, hcontents⟩ := Batch.write_accepted hitems hpending htexts haccepts s
  refine ⟨t, hwritten, hcontents.trans ?_⟩
  unfold pendingOf
  rw [List.foldl_map, List.foldl_map]

end

end ItemStore.Store
