import ProcessingEngine.Worker.CsvCells

/-!
# Equality filters on CSV columns

The reader makes a number of a cell that looks like one, and `equals` compares
with a text, which no number is equal to.  `filter_equals_iff` says for which
files the filter keeps the rows that have the text in the column.
-/

namespace ProcessingEngine

open Lib Text

variable {F : Type}

namespace ReadOp

/-! ### Rows -/

/-- The data lines of the file that are not blank. -/
def dataLines (ls : List (Option String)) : List String :=
  (ls.filterMap id).filter fun line => !isBlank line

/-- The data lines of a partition. -/
def csvRows (total pid : Nat) (ls : List (Option String)) : List String :=
  slice total pid ((dataLines ls).zipIdx.map Prod.swap)

theorem csvRecords_eq_map {host : Host F} {total pid : Nat} {headers : List String}
    {ls : List (Option String)} {records : List (Record F)} {dataIdx : Nat}
    (h : csvRecords host total pid headers dataIdx ls = .ok records) :
    records = (slice total pid (((dataLines ls).zipIdx dataIdx).map Prod.swap)).map
      (parseCsvLineToObject host headers) := by
  induction ls generalizing dataIdx records with
  | nil =>
      cases h
      rfl
  | cons line rest ih =>
      cases line with
      | none => cases h
      | some line =>
          rw [csvRecords] at h
          split at h
          · next hblank =>
              have hlines : dataLines (some line :: rest) = dataLines rest := by
                simp [dataLines, hblank]
              rw [hlines]
              exact ih h
          · next hblank =>
              have hlines : dataLines (some line :: rest) = line :: dataLines rest := by
                simp [dataLines, hblank]
              rw [hlines, List.zipIdx_cons, List.map_cons]
              cases hrest : csvRecords host total pid headers (dataIdx + 1) rest with
              | error e =>
                  rw [hrest] at h
                  cases h
              | ok records' =>
                  rw [hrest] at h
                  cases h
                  by_cases hp : dataIdx % total = pid
                  · rw [Prod.swap_prod_mk, slice_cons_of_eq hp, List.map_cons, ← ih hrest]
                    exact if_pos (beq_iff_eq.mpr hp)
                  · rw [Prod.swap_prod_mk, slice_cons_of_ne hp, ← ih hrest]
                    exact if_neg (by simpa using hp)

/-- The records of a partition are those of its rows. -/
theorem readRecords_csv {host : Host F} {total pid : Nat} {content : Bytes}
    {headers : List String} {ls : List (Option String)} {records : List (Record F)}
    (hheader : csvHeader content = .ok (headers, ls))
    (h : readRecords host "csv" total pid content = .ok records) :
    records = (csvRows total pid ls).map (parseCsvLineToObject host headers) := by
  rw [readRecords, if_pos rfl, hheader] at h
  exact csvRecords_eq_map h

/-! ### The cell under a name -/

/-- The trimmed cell of the column `f`. -/
def cellAt (headers : List String) (f row : String) : Option String :=
  (split ',' row)[headers.idxOf f]?.map trim

/-- The trimmed cell beyond the header that is given the name `f`. -/
def surplusCell (headers : List String) (f row : String) : Option String :=
  ((split ',' row).zipIdx.find? fun c =>
    decide (headers.length ≤ c.2) && "col" ++ toString c.2 == f).map fun c => trim c.1

/-- Of the numbered elements that are looked for, the search from the end finds the one
with the greatest number. -/
theorem find?_reverse_of_greatest {α : Type} {p : α × Nat → Bool} {as : List (α × Nat)}
    (has : as.Pairwise fun a b => a.2 < b.2) {a : α × Nat} (ha : a ∈ as) (hp : p a = true)
    (hmax : ∀ b ∈ as, p b = true → b.2 ≤ a.2) : as.reverse.find? p = some a := by
  induction as with
  | nil => cases ha
  | cons x rest ih =>
      obtain ⟨hx, hrest⟩ := List.pairwise_cons.mp has
      rw [List.reverse_cons, List.find?_append]
      rcases List.mem_cons.mp ha with rfl | ha
      · have hnone : rest.reverse.find? p = none := by
          rw [List.find?_eq_none]
          intro b hb hpb
          have hb := List.mem_reverse.mp hb
          have hle := hmax b (List.mem_cons_of_mem _ hb) hpb
          have hlt := hx b hb
          omega
        rw [hnone, List.find?_singleton, if_pos hp]
        rfl
      · rw [ih hrest ha fun b hb => hmax b (List.mem_cons_of_mem _ hb)]
        rfl

theorem pairwise_zipIdx {α : Type} (as : List α) :
    as.zipIdx.Pairwise fun a b => a.2 < b.2 := by
  have h : (as.zipIdx.map Prod.snd).Pairwise (· < ·) := by
    rw [List.zipIdx_map_snd]
    exact List.pairwise_lt_range'
  exact List.pairwise_map.mp h

theorem columnName_eq_iff {headers : List String} (hnodup : headers.Nodup) {f : String}
    (hf : f ∈ headers) (idx : Nat) :
    columnName headers idx = f ↔ idx = headers.idxOf f ∨
      (headers.length ≤ idx ∧ "col" ++ toString idx = f) := by
  have hlt := List.idxOf_lt_length_of_mem hf
  rcases Nat.lt_or_ge idx headers.length with hidx | hidx
  · rw [columnName_of_lt hidx]
    constructor
    · intro hname
      refine .inl ?_
      rw [← hname, hnodup.idxOf_getElem]
    · intro h
      rcases h with rfl | h
      · exact List.getElem_idxOf hlt
      · omega
  · rw [columnName_of_le hidx]
    constructor
    · intro hname
      exact .inr ⟨hidx, hname⟩
    · intro h
      rcases h with h | h
      · omega
      · exact h.2

/-- A field is that of the last cell with the name. -/
theorem get_parseCsvLine_eq_find (host : Host F) (headers : List String) (f row : String) :
    (parseCsvLineToObject host headers row).get f =
      ((split ',' row).zipIdx.reverse.find? fun c => columnName headers c.2 == f).map
        fun c => inferNumber host (trim c.1) := by
  rw [parseCsvLineToObject_eq, Value.get, Fields.get_ofEntries, cellEntries, ← List.map_reverse,
    List.find?_map, Fields.get_nil, Option.or_none, Option.map_map, Function.comp_def,
    Function.comp_def]

section

variable {headers : List String} {f : String} {cells : List String}

/-- A surplus cell has the greatest number of all cells with the name. -/
theorem find?_columnName_of_surplus (hnodup : headers.Nodup) (hf : f ∈ headers)
    {c : String × Nat}
    (hfind : cells.zipIdx.find? (fun c =>
      decide (headers.length ≤ c.2) && "col" ++ toString c.2 == f) = some c) :
    cells.zipIdx.reverse.find? (fun c => columnName headers c.2 == f) = some c := by
  have hlt := List.idxOf_lt_length_of_mem hf
  have hc := List.find?_some hfind
  rw [Bool.and_eq_true, decide_eq_true_eq, beq_iff_eq] at hc
  apply find?_reverse_of_greatest (pairwise_zipIdx cells) (List.mem_of_find?_eq_some hfind)
  · exact beq_iff_eq.mpr ((columnName_eq_iff hnodup hf c.2).mpr (.inr hc))
  · intro b _ hb
    rcases (columnName_eq_iff hnodup hf b.2).mp (beq_iff_eq.mp hb) with h | h
    · omega
    · exact le_of_eq (col_inj (h.2.trans hc.2.symm))

/-- Without one the cell of the column is the only one with the name. -/
theorem find?_columnName_of_none (hnodup : headers.Nodup) (hf : f ∈ headers)
    (hfind : cells.zipIdx.find? (fun c =>
      decide (headers.length ≤ c.2) && "col" ++ toString c.2 == f) = none) :
    (cells.zipIdx.reverse.find? fun c => columnName headers c.2 == f).map Prod.fst =
      cells[headers.idxOf f]? := by
  have hname := columnName_eq_iff hnodup hf
  have hcolumn : ∀ b ∈ cells.zipIdx, columnName headers b.2 = f → b.2 = headers.idxOf f := by
    intro b hb hbname
    apply ((hname b.2).mp hbname).resolve_right
    intro h
    apply List.find?_eq_none.mp hfind b hb
    rw [Bool.and_eq_true, decide_eq_true_eq, beq_iff_eq]
    exact h
  cases hcell : cells[headers.idxOf f]? with
  | some cell =>
      have hmem : (cell, headers.idxOf f) ∈ cells.zipIdx :=
        List.mem_zipIdx_iff_getElem?.mpr hcell
      have hgreatest := find?_reverse_of_greatest (p := fun c => columnName headers c.2 == f)
        (pairwise_zipIdx cells) hmem (beq_iff_eq.mpr ((hname _).mpr (.inl rfl))) ?_
      · rw [hgreatest]
        rfl
      · intro b hb hbname
        exact le_of_eq (hcolumn b hb (beq_iff_eq.mp hbname))
  | none =>
      rw [Option.map_eq_none_iff, List.find?_eq_none]
      intro b hb hbname
      have hb := List.mem_reverse.mp hb
      have hidx := hcolumn b hb (beq_iff_eq.mp hbname)
      rw [List.mem_zipIdx_iff_getElem?, hidx, hcell] at hb
      cases hb

/-- A cell beyond the header takes the place of the one in the column. -/
theorem get_parseCsvLine (host : Host F) (hnodup : headers.Nodup) (hf : f ∈ headers)
    (row : String) :
    (parseCsvLineToObject host headers row).get f =
      ((surplusCell headers f row).or (cellAt headers f row)).map (inferNumber host) := by
  rw [get_parseCsvLine_eq_find, surplusCell, cellAt]
  cases hfind : (split ',' row).zipIdx.find? fun c =>
      decide (headers.length ≤ c.2) && "col" ++ toString c.2 == f with
  | some c =>
      rw [find?_columnName_of_surplus hnodup hf hfind, Option.map_some, Option.map_some,
        Option.some_or, Option.map_some]
  | none =>
      rw [← find?_columnName_of_none hnodup hf hfind, Option.map_none, Option.none_or,
        Option.map_map, Option.map_map, Function.comp_def, Function.comp_def]

end

/-- Whether the cell of the column has the text, up to case. -/
def hasText (host : Host F) (headers : List String) (f s row : String) : Bool :=
  (cellAt headers f row).any fun cell => host.toLowercase cell == host.toLowercase s

theorem hasText_iff {host : Host F} {headers : List String} {f s row : String} :
    hasText host headers f s row = true ↔
      ∃ cell, cellAt headers f row = some cell ∧ host.toLowercase cell = host.toLowercase s := by
  rw [hasText]
  cases cellAt headers f row <;> simp

/-- The cell that is found under the name is read as a text where it has the text looked
for.  If it is a surplus cell, it has that text when the cell of the column has. -/
structure EqualsSafe (host : Host F) (headers : List String) (f s row : String) : Prop where
  column : surplusCell headers f row = none → hasText host headers f s row = true →
    ∀ cell, cellAt headers f row = some cell → inferNumber host cell = .string cell
  surplus : ∀ cell, surplusCell headers f row = some cell →
    (hasText host headers f s row = true ↔
      inferNumber host cell = .string cell ∧ host.toLowercase cell = host.toLowercase s)

theorem inferNumber_cases (host : Host F) (raw : String) :
    inferNumber host raw = .string raw ∨ ∃ n, inferNumber host raw = .number n := by
  unfold inferNumber
  split
  · exact .inr ⟨_, rfl⟩
  · split
    · exact .inr ⟨_, rfl⟩
    · exact .inl rfl

end ReadOp

namespace Predicate

theorem parse_equals (host : Host F) {f : String} (hne : f ≠ "") (heq : '=' ∉ f.toList)
    (s : String) :
    parse host ("equals:" ++ (f ++ "=" ++ s)) = .ok (.equals f (.string s)) := by
  have hsplit : splitn2 '=' (f ++ "=" ++ s) = (f, some s) := splitn2_append heq s
  have hfield : stripPrefix "has_field:" ("equals:" ++ (f ++ "=" ++ s)) = none :=
    stripPrefix_append_eq_none (by decide) (by decide) _
  have hempty : ¬ f.isEmpty = true := by simpa using hne
  rw [parse, if_neg (append_ne_of_stripPrefix (by decide) _),
    if_neg (append_ne_of_stripPrefix (by decide) _),
    if_neg (append_ne_of_stripPrefix (by decide) _), hfield, stripPrefix_append]
  simp only [parseComparison, hsplit, if_neg hempty]
  rfl

/-- `equals` with a text holds of the objects with that text at the field. -/
theorem eval_equals_iff [BEq F] (host : Host F) (f s : String) (fields : Fields F) :
    (Predicate.equals f (.string s)).eval host (.object fields) = true ↔
      ∃ actual, Fields.get f fields = some (.string actual) ∧
        host.toLowercase actual = host.toLowercase s := by
  show evalFields host fields (.equals f (.string s)) = true ↔ _
  cases hget : Fields.get f fields with
  | none => simp [evalFields, hget]
  | some v =>
      cases v with
      | string actual => simp [evalFields, hget]
      | number n => cases n <;> simp [evalFields, hget, Value.beq]
      | null | bool | array | object => simp [evalFields, hget, Value.beq]

end Predicate

namespace ReadOp

/-- Whether the filter keeps a row. -/
theorem eval_row_iff [BEq F] (host : Host F) {headers : List String} (hnodup : headers.Nodup)
    {f : String} (hf : f ∈ headers) (s row : String) :
    (Predicate.equals f (.string s)).eval host (parseCsvLineToObject host headers row) = true ↔
      ∃ cell, (surplusCell headers f row).or (cellAt headers f row) = some cell ∧
        inferNumber host cell = .string cell ∧ host.toLowercase cell = host.toLowercase s := by
  have hget := get_parseCsvLine host hnodup hf row
  rw [parseCsvLineToObject_eq] at hget ⊢
  rw [Predicate.eval_equals_iff]
  replace hget : Fields.get f (Fields.ofEntries (cellEntries host headers row) []) = _ := hget
  rw [hget]
  constructor
  · intro h
    obtain ⟨actual, hactual, hlower⟩ := h
    obtain ⟨cell, hcell, hinfer⟩ := Option.map_eq_some_iff.mp hactual
    rcases inferNumber_cases host cell with hstring | ⟨n, hnumber⟩
    · rw [hstring] at hinfer
      obtain rfl := Value.string.inj hinfer
      exact ⟨cell, hcell, hstring, hlower⟩
    · rw [hnumber] at hinfer
      cases hinfer
  · intro h
    obtain ⟨cell, hcell, hstring, hlower⟩ := h
    exact ⟨cell, by rw [hcell, Option.map_some, hstring], hlower⟩

theorem equalsSafe_iff [BEq F] (host : Host F) {headers : List String} (hnodup : headers.Nodup)
    {f : String} (hf : f ∈ headers) (s row : String) :
    ((Predicate.equals f (.string s)).eval host (parseCsvLineToObject host headers row) = true ↔
      hasText host headers f s row = true) ↔ EqualsSafe host headers f s row := by
  rw [eval_row_iff host hnodup hf]
  cases hsurplus : surplusCell headers f row with
  | some d =>
      rw [Option.some_or]
      constructor
      · intro h
        refine ⟨fun hnone => ?_, fun cell hcell => ?_⟩
        · rw [hsurplus] at hnone
          cases hnone
        · rw [hsurplus] at hcell
          cases hcell
          rw [← h]
          simp
      · intro h
        rw [h.surplus d hsurplus]
        simp
  | none =>
      rw [Option.none_or]
      constructor
      · intro h
        refine ⟨fun _ htext cell hcell => ?_, fun cell hcell => ?_⟩
        · obtain ⟨cell', hcell', hstring, -⟩ := h.mpr htext
          rw [hcell] at hcell'
          cases hcell'
          exact hstring
        · rw [hsurplus] at hcell
          cases hcell
      · intro h
        constructor
        · intro hkept
          obtain ⟨cell, hcell, -, hlower⟩ := hkept
          exact hasText_iff.mpr ⟨cell, hcell, hlower⟩
        · intro htext
          obtain ⟨cell, hcell, hlower⟩ := hasText_iff.mp htext
          exact ⟨cell, hcell, h.column hsurplus htext cell hcell, hlower⟩

/-- A filter by a property of the images keeps the images of certain elements exactly when
these are the ones with the property. -/
theorem filter_map_eq_iff {α β : Type} {g : α → β} {keep : β → Bool} {want : α → Bool}
    (as : List α) :
    (as.map g).filter keep = (as.filter want).map g ↔
      ∀ a ∈ as, (keep (g a) = true ↔ want a = true) := by
  rw [List.filter_map]
  constructor
  · intro h
    have hwant : ∀ a ∈ as, want a = true → keep (g a) = true := by
      intro a ha hwa
      have hmem : g a ∈ (as.filter want).map g :=
        List.mem_map_of_mem (List.mem_filter.mpr ⟨ha, hwa⟩)
      rw [← h] at hmem
      obtain ⟨b, hb, hgb⟩ := List.mem_map.mp hmem
      rw [← hgb]
      exact (List.mem_filter.mp hb).2
    have hsub : (as.filter want).Sublist (as.filter (keep ∘ g)) := by
      have htwice : (as.filter (keep ∘ g)).filter want = as.filter want := by
        rw [List.filter_filter]
        apply List.filter_congr
        intro a ha
        by_cases hwa : want a = true
        · simp [hwa, hwant a ha hwa]
        · simp [hwa]
      rw [← htwice]
      exact List.filter_sublist
    have hlength := congrArg List.length h
    rw [List.length_map, List.length_map] at hlength
    have hsame := hsub.eq_of_length hlength.symm
    intro a ha
    refine ⟨fun hkeep => ?_, hwant a ha⟩
    have hmem : a ∈ as.filter (keep ∘ g) := List.mem_filter.mpr ⟨ha, hkeep⟩
    rw [← hsame] at hmem
    exact (List.mem_filter.mp hmem).2
  · intro h
    congr 1
    apply List.filter_congr
    intro a ha
    rw [Bool.eq_iff_iff]
    exact h a ha

/-- Reading a file and filtering it by `equals` keeps the rows that have the text in the
column exactly when in each row that cell is read as a text, and stays in its place. -/
theorem equals_csv_iff [BEq F] {host : Host F} {content : Bytes} {total pid : Nat}
    {headers : List String} {ls : List (Option String)} {records : List (Record F)}
    {f : String} (s : String) (hheader : csvHeader content = .ok (headers, ls))
    (hrecords : readRecords host "csv" total pid content = .ok records)
    (hnodup : headers.Nodup) (hf : f ∈ headers) (hne : f ≠ "") (heq : '=' ∉ f.toList) :
    ∃ predicate, Predicate.parse host ("equals:" ++ (f ++ "=" ++ s)) = .ok predicate ∧
      FilterOp.execute host ⟨"equals:" ++ (f ++ "=" ++ s)⟩ =
        perPartition host (fun records => .ok (records.filter fun r => predicate.eval host r)) ∧
      (records.filter (fun r => predicate.eval host r) =
          ((csvRows total pid ls).filter (hasText host headers f s)).map
            (parseCsvLineToObject host headers) ↔
        ∀ row ∈ csvRows total pid ls, EqualsSafe host headers f s row) := by
  have hparse := Predicate.parse_equals host hne heq s
  refine ⟨_, hparse, ?_, ?_⟩
  · funext partitions
    rw [FilterOp.execute, hparse]
    rfl
  · rw [readRecords_csv hheader hrecords, filter_map_eq_iff]
    exact forall₂_congr fun row _ => equalsSafe_iff host hnodup hf s row

/-- A file with a column of numbers and one of words. -/
def itemsCsv : Bytes := "n,word\n10,Ten\n11,Eleven\n".toUTF8.data.toList

def itemRows : List (Record Int) :=
  [.object [("n", .number (.int 10)), ("word", .string "Ten")],
    .object [("n", .number (.int 11)), ("word", .string "Eleven")]]

theorem itemsCsv_read :
    csvHeader itemsCsv = .ok (["n", "word"], [some "10,Ten", some "11,Eleven"]) ∧
      readRecords (.plain []) "csv" 1 0 itemsCsv = .ok itemRows := by
  decide +kernel

/-- The column of words is filtered as it should be. -/
theorem equals_csv_iff_words :
    ∃ predicate, Predicate.parse (.plain []) "equals:word=ten" = .ok predicate ∧
      itemRows.filter (fun r => predicate.eval (.plain []) r) =
        ((csvRows 1 0 [some "10,Ten", some "11,Eleven"]).filter
          (hasText (.plain []) ["n", "word"] "word" "ten")).map
            (parseCsvLineToObject (.plain []) ["n", "word"]) := by
  have hnodup : ["n", "word"].Nodup := by decide
  have hword : "word" ∈ ["n", "word"] := by decide
  obtain ⟨predicate, hparse, -, hiff⟩ := equals_csv_iff "ten" itemsCsv_read.1 itemsCsv_read.2
    hnodup hword (by decide) (by decide)
  have htext : ∀ row ∈ csvRows 1 0 [some "10,Ten", some "11,Eleven"],
      surplusCell ["n", "word"] "word" row = none ∧
        ∀ cell ∈ cellAt ["n", "word"] "word" row,
          inferNumber (Host.plain []) cell = .string cell := by decide +kernel
  refine ⟨predicate, hparse, hiff.mpr fun row hrow => ⟨fun _ _ => (htext row hrow).2, ?_⟩⟩
  intro cell hcell
  rw [(htext row hrow).1] at hcell
  cases hcell

/-- The row with the number 10 is not found by its text. -/
theorem equals_misses_number :
    csvHeader itemsCsv = .ok (["n", "word"], [some "10,Ten", some "11,Eleven"]) ∧
      readRecords (.plain []) "csv" 1 0 itemsCsv = .ok itemRows ∧
      ∃ predicate, Predicate.parse (.plain []) "equals:n=10" = .ok predicate ∧
        itemRows.filter (fun r => predicate.eval (.plain []) r) = [] ∧
        ((csvRows 1 0 [some "10,Ten", some "11,Eleven"]).filter
          (hasText (.plain []) ["n", "word"] "n" "10")).map
            (parseCsvLineToObject (.plain []) ["n", "word"]) =
          [.object [("n", .number (.int 10)), ("word", .string "Ten")]] := by
  refine ⟨itemsCsv_read.1, itemsCsv_read.2, .equals "n" (.string "10"), ?_, ?_, ?_⟩
  · exact Predicate.parse_equals (.plain []) (f := "n") (by decide) (by decide) "10"
  · decide +kernel
  · decide +kernel

end ReadOp
end ProcessingEngine
