import ProcessingEngine.Common.Dag
import ProcessingEngine.Worker.Expanded
import ProcessingEngine.Worker.Read

/-!
# The cells of a CSV row

A row is read into an object with a field for each cell.  A cell beyond the
header gets a name made from its number, which may be the name of a header as
well: the later cell then takes the place of the earlier one
(`keepsCells_iff`).  `lastCell` is the cell that is found under a name.
-/

namespace ProcessingEngine

open Lib Text

variable {F : Type}

namespace Fields

/-- Insert the entries one by one. -/
def ofEntries (entries : List (String × Value F)) (into : Fields F) : Fields F :=
  entries.foldl (fun fields e => insert e.1 e.2 fields) into

/-- The last entry of a key counts. -/
theorem get_ofEntries (key : String) (entries : List (String × Value F)) (into : Fields F) :
    get key (ofEntries entries into) =
      ((entries.reverse.find? fun e => e.1 == key).map Prod.snd).or (get key into) := by
  induction entries generalizing into with
  | nil => rfl
  | cons e rest ih =>
      show get key (ofEntries rest (insert e.1 e.2 into)) = _
      rw [ih, List.reverse_cons, List.find?_append, List.find?_singleton]
      cases rest.reverse.find? fun e => e.1 == key with
      | some found => rfl
      | none =>
          by_cases hkey : e.1 = key
          · subst hkey
            simp [get_insert_self]
          · simp [hkey, get_insert_ne (Ne.symm hkey)]

theorem get_ofEntries_of_mem {entries : List (String × Value F)}
    (h : (entries.map Prod.fst).Nodup) {key : String} {value : Value F}
    (hmem : (key, value) ∈ entries) : get key (ofEntries entries []) = some value := by
  rw [get_ofEntries]
  cases hfind : entries.reverse.find? fun e => e.1 == key with
  | none =>
      have hnone := List.find?_eq_none.mp hfind _ (List.mem_reverse.mpr hmem)
      simp at hnone
  | some e =>
      have hin := List.mem_reverse.mp (List.mem_of_find?_eq_some hfind)
      have hkey : e.1 = key := by simpa using List.find?_some hfind
      rw [List.inj_on_of_nodup_map h hin hmem hkey]
      rfl

theorem get_insert_eq_none_iff {key key' : String} {value : Value F} {m : Fields F} :
    get key' (insert key value m) = none ↔ key' ≠ key ∧ get key' m = none := by
  by_cases h : key' = key
  · simp [h, get_insert_self]
  · simp [h, get_insert_ne h]

theorem mem_insert {key : String} {value : Value F} {m : Fields F} {f : String × Value F}
    (h : f ∈ insert key value m) : f.1 = key ∨ f ∈ m := by
  induction m with
  | nil =>
      rw [insert, List.mem_singleton] at h
      exact .inl (by rw [h])
  | cons g rest ih =>
      obtain ⟨k, v⟩ := g
      rw [insert] at h
      split_ifs at h
      · rcases List.mem_cons.mp h with rfl | h
        · exact .inl rfl
        · exact .inr (List.mem_cons_of_mem _ h)
      · rcases List.mem_cons.mp h with rfl | h
        · exact .inl rfl
        · exact .inr h
      · rcases List.mem_cons.mp h with rfl | h
        · exact .inr List.mem_cons_self
        · exact (ih h).imp_right (List.mem_cons_of_mem _)

theorem Sorted.insert {m : Fields F} (h : Sorted m) (key : String) (value : Value F) :
    Sorted (insert key value m) := by
  induction m with
  | nil => exact List.pairwise_singleton _ _
  | cons g rest ih =>
      obtain ⟨k, v⟩ := g
      have hrest := (List.pairwise_cons.mp h).1
      rw [Fields.insert]
      split_ifs with heq hlt
      · exact List.pairwise_cons.mpr ⟨heq ▸ hrest, h.tail⟩
      · refine List.pairwise_cons.mpr ⟨fun f hf => ?_, h⟩
        rcases List.mem_cons.mp hf with rfl | hf
        · exact hlt
        · exact String.lt_trans hlt (hrest f hf)
      · refine List.pairwise_cons.mpr ⟨fun f hf => ?_, ih h.tail⟩
        rcases mem_insert hf with hkey | hf
        · rw [hkey]
          exact Std.lt_of_le_of_ne (String.not_lt.mp hlt) (Ne.symm heq)
        · exact hrest f hf

/-- A new key makes a field. -/
theorem Sorted.length_insert {m : Fields F} (h : Sorted m) (key : String) (value : Value F) :
    (Fields.insert key value m).length =
      if get key m = none then m.length + 1 else m.length := by
  induction m with
  | nil => rfl
  | cons g rest ih =>
      obtain ⟨k, v⟩ := g
      by_cases heq : key = k
      · have hget : get key ((k, v) :: rest) = some v := if_pos heq
        rw [Fields.insert, if_pos heq, hget]
        rfl
      by_cases hlt : key < k
      · rw [Fields.insert, if_neg heq, if_pos hlt, h.get_of_lt hlt]
        rfl
      · have hget : get key ((k, v) :: rest) = get key rest := if_neg heq
        rw [Fields.insert, if_neg heq, if_neg hlt, List.length_cons, ih h.tail, hget,
          List.length_cons]
        split <;> rfl

theorem length_ofEntries_le {into : Fields F} (h : Sorted into)
    (entries : List (String × Value F)) :
    (ofEntries entries into).length ≤ into.length + entries.length := by
  induction entries generalizing into with
  | nil => exact le_refl _
  | cons e rest ih =>
      have hrest := ih (h.insert e.1 e.2)
      have hinsert := h.length_insert e.1 e.2
      show (ofEntries rest (insert e.1 e.2 into)).length ≤ _
      rw [List.length_cons]
      split at hinsert <;> omega

/-- The entries make a field each when their keys are different, and new. -/
theorem length_ofEntries_iff {into : Fields F} (h : Sorted into)
    (entries : List (String × Value F)) :
    (ofEntries entries into).length = into.length + entries.length ↔
      (entries.map Prod.fst).Nodup ∧ ∀ e ∈ entries, get e.1 into = none := by
  induction entries generalizing into with
  | nil => simp [ofEntries]
  | cons e rest ih =>
      have hinsert := h.length_insert e.1 e.2
      have hsorted := h.insert e.1 e.2
      show (ofEntries rest (insert e.1 e.2 into)).length = _ ↔ _
      rw [List.map_cons, List.nodup_cons, List.forall_mem_cons, List.length_cons]
      by_cases hnew : get e.1 into = none
      · rw [if_pos hnew] at hinsert
        have hother : (∀ f ∈ rest, get f.1 (insert e.1 e.2 into) = none) ↔
            e.1 ∉ rest.map Prod.fst ∧ ∀ f ∈ rest, get f.1 into = none := by
          simp only [get_insert_eq_none_iff, forall_and, List.mem_map, not_exists, not_and]
        have hlength : (ofEntries rest (insert e.1 e.2 into)).length =
            into.length + (rest.length + 1) ↔
              (ofEntries rest (insert e.1 e.2 into)).length =
                (insert e.1 e.2 into).length + rest.length := by
          rw [hinsert]
          omega
        rw [hlength, ih hsorted, hother]
        tauto
      · rw [if_neg hnew] at hinsert
        have hle := length_ofEntries_le hsorted rest
        refine iff_of_false ?_ fun hall => hnew hall.2.1
        omega

end Fields

namespace ReadOp

/-- The name of the field of a cell. -/
def columnName (headers : List String) (idx : Nat) : String :=
  headers[idx]?.getD ("col" ++ toString idx)

/-- The fields of the cells, in the order in which they are inserted. -/
def cellEntries (host : Host F) (headers : List String) (row : String) :
    List (String × Value F) :=
  (split ',' row).zipIdx.map fun c => (columnName headers c.2, inferNumber host (trim c.1))

theorem parseCsvLineToObject_eq (host : Host F) (headers : List String) (row : String) :
    parseCsvLineToObject host headers row =
      .object (Fields.ofEntries (cellEntries host headers row) []) := by
  rw [Fields.ofEntries, cellEntries, List.foldl_map]
  rfl

theorem columnName_of_lt {headers : List String} {idx : Nat} (h : idx < headers.length) :
    columnName headers idx = headers[idx] := by
  rw [columnName, List.getElem?_eq_getElem h]
  rfl

theorem columnName_of_le {headers : List String} {idx : Nat} (h : headers.length ≤ idx) :
    columnName headers idx = "col" ++ toString idx := by
  rw [columnName, List.getElem?_eq_none h]
  rfl

/-- A number can be read off the name that is made from it. -/
theorem col_inj {i j : Nat} (h : "col" ++ toString i = "col" ++ toString j) : i = j := by
  have hl := congrArg String.toList h
  rw [String.toList_append, String.toList_append] at hl
  exact DagSpecification.toString_toList_inj (List.append_cancel_left hl)

/-- The columns have different names when no header is the name of a surplus column. -/
theorem columnNames_nodup_iff {headers : List String} (h : headers.Nodup) (n : Nat) :
    ((List.range n).map (columnName headers)).Nodup ↔
      ∀ j, headers.length ≤ j → j < n → "col" ++ toString j ∉ headers := by
  rw [List.nodup_map_iff_inj_on List.nodup_range]
  constructor
  · intro hinj j hj hn hmem
    obtain ⟨i, hi, hname⟩ := List.mem_iff_getElem.mp hmem
    have hsame : columnName headers i = columnName headers j := by
      rw [columnName_of_lt hi, columnName_of_le hj, hname]
    have hij := hinj i (List.mem_range.mpr (by omega)) j (List.mem_range.mpr hn) hsame
    omega
  · intro hfree i hi j hj hname
    rw [List.mem_range] at hi hj
    rcases Nat.lt_or_ge i headers.length with hil | hil <;>
      rcases Nat.lt_or_ge j headers.length with hjl | hjl
    · rw [columnName_of_lt hil, columnName_of_lt hjl] at hname
      exact (List.Nodup.getElem_inj_iff h).mp hname
    · rw [columnName_of_lt hil, columnName_of_le hjl] at hname
      exact absurd (hname ▸ List.getElem_mem hil) (hfree j hjl hj)
    · rw [columnName_of_le hil, columnName_of_lt hjl] at hname
      exact absurd (hname ▸ List.getElem_mem hjl) (hfree i hil hi)
    · rw [columnName_of_le hil, columnName_of_le hjl] at hname
      exact col_inj hname

theorem cellEntries_keys (host : Host F) (headers : List String) (row : String) :
    (cellEntries host headers row).map Prod.fst =
      (List.range (split ',' row).length).map (columnName headers) := by
  rw [cellEntries, List.map_map, List.range_eq_range', ← List.zipIdx_map_snd 0 (split ',' row),
    List.map_map]
  rfl

theorem mem_cellEntries {host : Host F} {headers : List String} {row cell : String} {idx : Nat}
    (h : (split ',' row)[idx]? = some cell) :
    (columnName headers idx, inferNumber host (trim cell)) ∈ cellEntries host headers row :=
  List.mem_map.mpr ⟨(cell, idx), List.mem_zipIdx_iff_getElem?.mpr h, rfl⟩

/-- Each cell of a row has a field of its own. -/
structure KeepsCells (host : Host F) (headers : List String) (row : String)
    (fields : Fields F) : Prop where
  count : fields.length = (split ',' row).length
  cell : ∀ idx cell, (split ',' row)[idx]? = some cell →
    Fields.get (columnName headers idx) fields = some (inferNumber host (trim cell))

/-- A row keeps its cells exactly when no header has the name of one of its surplus cells. -/
theorem keepsCells_iff (host : Host F) {headers : List String} (h : headers.Nodup)
    (row : String) :
    (∃ fields, parseCsvLineToObject host headers row = .object fields ∧
        KeepsCells host headers row fields) ↔
      ∀ j, headers.length ≤ j → j < (split ',' row).length → "col" ++ toString j ∉ headers := by
  rw [← columnNames_nodup_iff h, ← cellEntries_keys host]
  have hempty : Fields.Sorted ([] : Fields F) := List.Pairwise.nil
  have hlength := Fields.length_ofEntries_iff hempty (cellEntries host headers row)
  have hcells : (cellEntries host headers row).length = (split ',' row).length := by
    rw [cellEntries, List.length_map, List.length_zipIdx]
  rw [hcells, List.length_nil, Nat.zero_add] at hlength
  constructor
  · intro hkeeps
    obtain ⟨fields, hfields, hkeeps⟩ := hkeeps
    rw [parseCsvLineToObject_eq] at hfields
    cases hfields
    exact (hlength.mp hkeeps.count).1
  · intro hnodup
    refine ⟨_, parseCsvLineToObject_eq host headers row, ?_, ?_⟩
    · exact hlength.mpr ⟨hnodup, fun _ _ => rfl⟩
    · intro idx cell hcell
      exact Fields.get_ofEntries_of_mem hnodup (mem_cellEntries hcell)

theorem keepsCells_two :
    ∃ fields, parseCsvLineToObject (.plain []) ["a", "b"] "1,x,y" = .object fields ∧
      KeepsCells (.plain []) ["a", "b"] "1,x,y" fields := by
  have h : ["a", "b"].Nodup := by decide
  have hcells : (split ',' "1,x,y").length = 3 := by decide
  apply (keepsCells_iff (.plain []) h "1,x,y").mpr
  intro j hj hlt
  rw [hcells] at hlt
  obtain rfl : j = 2 := Nat.le_antisymm (Nat.le_of_lt_succ hlt) hj
  decide

/-- The surplus cell takes the place of the first one. -/
theorem surplus_cell_collides :
    parseCsvLineToObject (.plain []) ["col1"] "1,2" = .object [("col1", .number (.int 2))] ∧
      ¬ ∃ fields, parseCsvLineToObject (.plain []) ["col1"] "1,2" = .object fields ∧
        KeepsCells (.plain []) ["col1"] "1,2" fields := by
  have hparse : parseCsvLineToObject (.plain []) ["col1"] "1,2" =
      .object [("col1", .number (.int 2))] := by decide
  refine ⟨hparse, fun hkeeps => ?_⟩
  obtain ⟨fields, hfields, hkeeps⟩ := hkeeps
  rw [hparse] at hfields
  cases hfields
  exact absurd hkeeps.count (by decide)

end ReadOp
end ProcessingEngine
