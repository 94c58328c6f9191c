import ProcessingEngine.Worker.NestedLoop

/-!
# The joins of the slices

Joining the rows slice by slice gives the join of all rows exactly when left and
right rows with the same key are in one slice (`JoinOp.slices_perm_iff`).  The
pairs are counted by the join key, which only they have on both sides.
-/

namespace ProcessingEngine

open Lib

variable {F : Type}

/-- The JSON library yields maps of which the keys ascend. -/
def Host.OrderedMaps (host : Host F) : Prop :=
  ∀ text obj, host.fromStr text = .ok (.object obj) → Fields.Sorted obj

theorem Host.OrderedMaps.sorted {host : Host F} (h : host.OrderedMaps) {obj : Fields F}
    (hback : host.ReadsBack (.object obj)) : Fields.Sorted obj := by
  obtain ⟨text, -, -, hparse⟩ := hback.parse
  exact h text obj hparse

theorem Host.OrderedMaps.sorted_fieldsOf {host : Host F} (h : host.OrderedMaps)
    {record : Record F} (hback : host.ReadsBack record) :
    Fields.Sorted (JoinOp.fieldsOf record) := by
  cases record with
  | object obj => exact h.sorted hback
  | _ => exact List.Pairwise.nil

namespace JoinOp

section

variable {host : Host F} {op : JoinOp} {lefts rights : List (Nat × Record F)} {n : Nat}

/-- The record has the join key on both sides. -/
def isCombined (key : String) (record : Record F) : Bool :=
  (record.get ("left_" ++ key)).any isKey && (record.get ("right_" ++ key)).any isKey

theorem isCombined_combine {key : String} {l r : String × Fields F} (hl : Side key l.2)
    (hr : Side key r.2) : isCombined key (combine l r) = true := by
  have hleft : (combine l r).get ("left_" ++ key) = Fields.get key l.2 :=
    get_combineRecords_left hl.sorted r.2 key
  have hright : (combine l r).get ("right_" ++ key) = Fields.get key r.2 :=
    get_combineRecords_right hr.sorted l.2 key
  obtain ⟨v, hv, hkey⟩ := hl.key
  obtain ⟨w, hw, hkey'⟩ := hr.key
  rw [isCombined, hleft, hright, hv, hw, Option.any_some, Option.any_some, hkey, hkey']
  rfl

theorem isCombined_alone {key : String} {c : Record F} {side : String}
    (hside : side = "left_" ∨ side = "right_")
    (hget : c.get (side ++ key) = if key = "missing" then some .null else none) :
    isCombined key c = false := by
  have hany : (c.get (side ++ key)).any isKey = false := by
    rw [hget]
    split_ifs <;> rfl
  rw [isCombined]
  rcases hside with rfl | rfl
  · rw [hany, Bool.false_and]
  · rw [hany, Bool.and_false]

theorem isCombined_aloneLeft {key : String} (l : String × Fields F) :
    ∀ c ∈ aloneLeft op l, isCombined key c = false := by
  intro c hc
  rw [aloneLeft] at hc
  split_ifs at hc
  · obtain rfl := List.mem_singleton.mp hc
    exact isCombined_alone (Or.inr rfl) (get_combineLeftOnly_right l.2 key)
  · cases hc

theorem isCombined_aloneRight {key : String} (r : String × Fields F) :
    ∀ c ∈ aloneRight op r, isCombined key c = false := by
  intro c hc
  rw [aloneRight] at hc
  split_ifs at hc
  · obtain rfl := List.mem_singleton.mp hc
    exact isCombined_alone (Or.inl rfl) (get_combineRightOnly_left r.2 key)
  · cases hc

/-- Records that can be joined have keys. -/
theorem hasKey_of_joinRecords [BEq F] {as bs out : List (Record F)}
    (h : joinRecords host op as bs = .ok out) : ∀ record ∈ as ++ bs, HasKey op.key record := by
  intro record hmem
  by_contra hkey
  obtain ⟨e, he⟩ := joinRecords_error host hmem hkey
  rw [h] at he
  cases he

/-- The numbered rows with their keys. -/
def keyedRows (host : Host F) (key : String) (rows : List (Nat × Record F)) :
    List (Nat × (String × Fields F)) :=
  rows.map fun r => (r.1, row host key r.2)

theorem slice_keyedRows (n p : Nat) (key : String) (rows : List (Nat × Record F)) :
    slice n p (keyedRows host key rows) = (slice n p rows).map (row host key) :=
  slice_map n p (row host key) rows

theorem map_keyedRows (key : String) (rows : List (Nat × Record F)) :
    (keyedRows host key rows).map Prod.snd = (rows.map Prod.snd).map (row host key) := by
  rw [keyedRows, List.map_map, List.map_map]
  rfl

theorem pairColocated_keyedRows (hkeys : ∀ row ∈ lefts ++ rights, HasKey op.key row.2) :
    PairColocated n Prod.fst Prod.fst (keyedRows host op.key lefts)
        (keyedRows host op.key rights) ↔
      PairColocated n (renderedKey host op.key) (renderedKey host op.key) lefts rights := by
  have hiff : ∀ l ∈ lefts, ∀ r ∈ rights, (row host op.key l.2).1 = (row host op.key r.2).1 ↔
      renderedKey host op.key l.2 = renderedKey host op.key r.2 := by
    intro l hl r hr
    have hbeq := row_key_beq host (hkeys l (List.mem_append_left _ hl))
      (hkeys r (List.mem_append_right _ hr))
    rw [← beq_iff_eq, hbeq, beq_iff_eq]
  rw [PairColocated, PairColocated, keyedRows, List.forall_mem_map]
  constructor
  · intro h l hl r hr heq
    have hr' := List.mem_map_of_mem (f := fun r : Nat × Record F => (r.1, row host op.key r.2)) hr
    exact h l hl _ hr' ((hiff l hl r hr).mpr heq)
  · intro h l hl s hs heq
    obtain ⟨r, hr, rfl⟩ := List.mem_map.mp hs
    exact h l hl r hr ((hiff l hl r hr).mp heq)

/-- Joins of the slices make up the join of all rows exactly when rows with equal
keys are in one slice. -/
theorem slices_perm_iff [BEq F] (hn : 0 < n)
    (hkeys : ∀ row ∈ lefts ++ rights, HasKey op.key row.2)
    (hsorted : ∀ row ∈ lefts ++ rights, Fields.Sorted (fieldsOf row.2))
    {out : Nat → List (Record F)}
    (hout : ∀ p < n, joinRecords host op (slice n p lefts) (slice n p rights) = .ok (out p))
    {whole : List (Record F)}
    (hwhole : joinRecords host op (lefts.map Prod.snd) (rights.map Prod.snd) = .ok whole) :
    ((List.range n).flatMap out).Perm whole ↔
      PairColocated n (renderedKey host op.key) (renderedKey host op.key) lefts rights := by
  have hsides : ∀ row ∈ lefts ++ rights, Side op.key (JoinOp.row host op.key row.2).2 := by
    intro row hrow
    have hfields := hsorted row hrow
    obtain ⟨obj, v, hobj, hv⟩ := hkeys row hrow
    refine ⟨hfields, v, ?_⟩
    rw [JoinOp.row, hobj]
    exact hv
  have hslice : ∀ p < n, out p = outerJoin Prod.fst Prod.fst same combine (aloneLeft op)
      (aloneRight op) (slice n p (keyedRows host op.key lefts))
      (slice n p (keyedRows host op.key rights)) := by
    intro p hp
    have hmem : ∀ record ∈ slice n p lefts ++ slice n p rights, HasKey op.key record := by
      rw [← slice_append]
      intro record hrecord
      obtain ⟨i, hrow, -⟩ := mem_slice.mp hrecord
      exact hkeys (i, record) hrow
    rw [slice_keyedRows, slice_keyedRows]
    exact Except.ok.inj ((hout p hp).symm.trans (joinRecords_of_hasKey hmem))
  have hall : whole = outerJoin Prod.fst Prod.fst same combine (aloneLeft op) (aloneRight op)
      ((keyedRows host op.key lefts).map Prod.snd) ((keyedRows host op.key rights).map Prod.snd) := by
    have hmem : ∀ record ∈ lefts.map Prod.snd ++ rights.map Prod.snd, HasKey op.key record := by
      rw [← List.map_append, List.forall_mem_map]
      exact hkeys
    rw [map_keyedRows, map_keyedRows]
    exact Except.ok.inj (hwhole.symm.trans (joinRecords_of_hasKey hmem))
  have hcombined : ∀ l ∈ keyedRows host op.key lefts, ∀ r ∈ keyedRows host op.key rights,
      l.2.1 = r.2.1 → isCombined op.key (combine l.2 r.2) = true := by
    rw [keyedRows, List.forall_mem_map]
    intro l hl s hs _
    obtain ⟨r, hr, rfl⟩ := List.mem_map.mp hs
    exact isCombined_combine (hsides l (List.mem_append_left _ hl))
      (hsides r (List.mem_append_right _ hr))
  rw [List.flatMap_congr fun p hp => hslice p (List.mem_range.mp hp), hall,
    ← pairColocated_keyedRows hkeys]
  exact outerJoin_slices_perm_iff hn hcombined (fun l _ => isCombined_aloneLeft l.2)
    isCombined_aloneRight

end

end JoinOp

end ProcessingEngine
