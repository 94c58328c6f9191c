import ProcessingEngine.Worker.Partition
import ProcessingEngine.Lib.Joining

/-!
# The join operator

`worker/ops/join.rs`.  The operator collects the right records by key, runs over
the left ones, and marks the right records it has matched by searching for their
position.  `joinRecords_eq` states what comes out as an outer join of two lists,
with the records that are left over.
-/

namespace ProcessingEngine

open Lib

variable {F : Type}

structure JoinOp where
  key : String
  joinType : JoinType
  deriving DecidableEq, Repr

namespace JoinOp

def wrongInputCount (n : Nat) : Fail :=
  .error ("JoinOp requires exactly two input partitions (received " ++ toString n ++ ")")

def nonObject : Fail := .error "JoinOp: record is not an object"

def missingKey (key : String) : Fail := .error ("JoinOp: missing key \"" ++ key ++ "\"")

def invalidKey : Fail := .error "JoinOp: join key must be string or number"

def extractKey (host : Host F) (obj : Fields F) (key : String) : Except Fail String :=
  match Fields.get key obj with
  | none => .error (missingKey key)
  | some (.string s) => .ok s
  | some (.number n) => .ok (host.numberText n)
  | some _ => .error invalidKey

def prefixFields (obj : Fields F) (pre : String) : Fields F :=
  obj.foldl (fun out (k, v) => Fields.insert (pre ++ k) v out) []

def combineRecords (left right : Fields F) : Fields F :=
  Fields.insertAll (prefixFields right "right_") (prefixFields left "left_")

def combineLeftOnly (left : Fields F) : Fields F :=
  Fields.insert "right_missing" .null (prefixFields left "left_")

def combineRightOnly (right : Fields F) : Fields F :=
  Fields.insert "left_missing" .null (prefixFields right "right_")

/-- The key and the fields of a record. -/
def keyed (host : Host F) (op : JoinOp) (record : Record F) :
    Except Fail (String × Fields F) :=
  match record.asObject with
  | none => .error nonObject
  | some obj => (extractKey host obj op.key).map fun key => (key, obj)

/-- The right records of each key, in order. -/
def rightMap (rightIndex : List (String × Fields F)) : HashMap String (List (Fields F)) :=
  rightIndex.foldl (fun m (key, obj) => m.insert key ((m.lookup key).getD [] ++ [obj])) ∅

/-- The first position of an equal record with the key. -/
def position [BEq F] (rightIndex : List (String × Fields F)) (lkey : String) (robj : Fields F) :
    Option Nat :=
  rightIndex.findIdx? fun (k, obj) => k == lkey && Value.beqFields obj robj

def mark (matchedRight : List Bool) (pos : Option Nat) : List Bool :=
  match pos with
  | some pos => matchedRight.set pos true
  | none => matchedRight

/-- The iteration for one left record. -/
def joinLeft [BEq F] (op : JoinOp) (rightIndex : List (String × Fields F))
    (state : List Bool × List (Record F)) (left : String × Fields F) :
    List Bool × List (Record F) :=
  let (lkey, lobj) := left
  match (rightMap rightIndex).lookup lkey with
  | some rvec =>
      (rvec.foldl (fun matchedRight robj => mark matchedRight (position rightIndex lkey robj))
          state.1,
        state.2 ++ rvec.map fun robj => .object (combineRecords lobj robj))
  | none =>
      if op.joinType = .left ∨ op.joinType = .full then
        (state.1, state.2 ++ [.object (combineLeftOnly lobj)])
      else state

/-- The records of the right side that are not marked. -/
def rightOnly (op : JoinOp) (rightIndex : List (String × Fields F)) (matchedRight : List Bool) :
    List (Record F) :=
  if op.joinType = .right ∨ op.joinType = .full then
    rightIndex.zipIdx.filterMap fun ((_, robj), idx) =>
      if matchedRight[idx]?.getD false then none else some (.object (combineRightOnly robj))
  else []

/-- The join of two lists of records.  The first record that is not an object
with a key ends it, the right list coming first. -/
def joinRecords [BEq F] (host : Host F) (op : JoinOp) (leftRecords rightRecords : List (Record F)) :
    Except Fail (List (Record F)) := do
  let rightIndex ← rightRecords.mapM (keyed host op)
  let left ← leftRecords.mapM (keyed host op)
  let (matchedRight, output) :=
    left.foldl (joinLeft op rightIndex) (List.replicate rightIndex.length false, [])
  return output ++ rightOnly op rightIndex matchedRight

def execute [BEq F] (host : Host F) (op : JoinOp) (partitions : List (PartitionData F)) :
    Action (List (PartitionData F)) :=
  match partitions with
  | [left, right] => do
      let (_, _, leftRecords) ← left.intoParts host
      let (_, _, rightRecords) ← right.intoParts host
      let output ← Exec.lift (joinRecords host op leftRecords rightRecords)
      let partition ← PartitionData.fromRecords host (min left.partitionId right.partitionId)
        left.limitBytes left.spillPath output
      return [partition]
  | _ => Exec.fail (wrongInputCount partitions.length)

/-! ### The join as an outer join -/

/-- Two rows of the right index are the same for the position search. -/
def same [BEq F] (a b : String × Fields F) : Bool := Value.beqFields a.2 b.2

def combine (l r : String × Fields F) : Record F := .object (combineRecords l.2 r.2)

def aloneLeft (op : JoinOp) (l : String × Fields F) : List (Record F) :=
  if op.joinType = .left ∨ op.joinType = .full then [.object (combineLeftOnly l.2)] else []

def aloneRight (op : JoinOp) (r : String × Fields F) : List (Record F) :=
  if op.joinType = .right ∨ op.joinType = .full then [.object (combineRightOnly r.2)] else []

/-- The right rows that match a left row. -/
def matching (rightIndex : List (String × Fields F)) (lkey : String) : List (String × Fields F) :=
  rightIndex.filter fun r => r.1 == lkey

theorem lookup_rightMap (rightIndex : List (String × Fields F)) (lkey : String) :
    (rightMap rightIndex).lookup lkey =
      if (matching rightIndex lkey).isEmpty then none
      else some ((matching rightIndex lkey).map Prod.snd) := by
  have hfold : ∀ (rs : List (String × Fields F)) (m : HashMap String (List (Fields F))),
      (rs.foldl (fun m (key, obj) => m.insert key ((m.lookup key).getD [] ++ [obj])) m).lookup
        lkey = if (matching rs lkey).isEmpty then m.lookup lkey
          else some ((m.lookup lkey).getD [] ++ (matching rs lkey).map Prod.snd) := by
    intro rs
    induction rs with
    | nil => exact fun m => rfl
    | cons r rs ih =>
        obtain ⟨k, obj⟩ := r
        intro m
        rw [List.foldl_cons, ih]
        by_cases hk : k = lkey
        · subst hk
          have hcons : matching ((k, obj) :: rs) k = (k, obj) :: matching rs k := by
            simp [matching]
          rw [AList.lookup_insert, hcons]
          by_cases hms : (matching rs k).isEmpty = true
          · simp [List.isEmpty_iff.mp hms]
          · simp [hms]
        · have hcons : matching ((k, obj) :: rs) lkey = matching rs lkey := by
            simp [matching, hk]
          rw [AList.lookup_insert_ne (Ne.symm hk), hcons]
  rw [rightMap, hfold]
  rfl

section

variable [BEq F]

/-- The positions that a left row marks. -/
def marksOf (rightIndex : List (String × Fields F)) (l : String × Fields F) :
    List (Option Nat) :=
  (matching rightIndex l.1).map fun r => position rightIndex l.1 r.2

theorem joinLeft_eq (op : JoinOp) (rightIndex : List (String × Fields F))
    (state : List Bool × List (Record F)) (l : String × Fields F) :
    joinLeft op rightIndex state l =
      ((marksOf rightIndex l).foldl mark state.1,
        state.2 ++ if (matching rightIndex l.1).isEmpty then aloneLeft op l
          else (matching rightIndex l.1).map (combine l)) := by
  obtain ⟨lkey, lobj⟩ := l
  rw [joinLeft, lookup_rightMap]
  by_cases hms : (matching rightIndex lkey).isEmpty = true
  · have hmarks : marksOf rightIndex (lkey, lobj) = [] := by
      rw [marksOf, List.isEmpty_iff.mp hms]
      rfl
    rw [if_pos hms, if_pos hms, hmarks, aloneLeft]
    simp only [List.foldl_nil]
    split
    · rfl
    · rw [List.append_nil]
  · rw [if_neg hms, if_neg hms, marksOf]
    simp only [List.foldl_map, List.map_map]
    rfl

theorem foldl_joinLeft (op : JoinOp) (rightIndex left : List (String × Fields F))
    (state : List Bool × List (Record F)) :
    left.foldl (joinLeft op rightIndex) state =
      ((left.flatMap (marksOf rightIndex)).foldl mark state.1,
        state.2 ++ matched Prod.fst Prod.fst combine (aloneLeft op) left rightIndex) := by
  induction left generalizing state with
  | nil => simp [matched]
  | cons l left ih =>
      rw [List.foldl_cons, ih, joinLeft_eq]
      simp only [List.flatMap_cons, List.foldl_append, matched, List.append_assoc]
      rfl

theorem getD_foldl_mark (marks : List (Option Nat)) (flags : List Bool) {i : Nat}
    (hi : i < flags.length) :
    (marks.foldl mark flags)[i]?.getD false = (flags[i]?.getD false || marks.contains (some i)) := by
  induction marks generalizing flags with
  | nil => simp
  | cons m marks ih =>
      cases m with
      | none =>
          rw [List.foldl_cons, mark, ih flags hi]
          simp
      | some j =>
          have hlen : i < (flags.set j true).length := by rwa [List.length_set]
          rw [List.foldl_cons, mark, ih _ hlen, List.getElem?_set]
          by_cases hj : j = i
          · subst hj
            simp [hi]
          · have hne : ¬ i = j := fun e => hj e.symm
            simp [hj, hne]

/-- The search ends at a position when no earlier one fits. -/
theorem findIdx?_eq_length {α : Type} {p : α → Bool} {pre rest : List α} {b : α} :
    (pre ++ b :: rest).findIdx? p = some pre.length ↔ p b ∧ ∀ d ∈ pre, ¬ p d := by
  induction pre with
  | nil =>
      rw [List.nil_append, List.findIdx?_cons]
      by_cases hb : p b = true <;> simp [hb]
  | cons d pre ih =>
      rw [List.cons_append, List.findIdx?_cons, List.forall_mem_cons, and_left_comm, ← ih]
      by_cases hd : p d = true <;> simp [hd]

/-- A position is marked when a left row has its key and its row comes first
among those equal to some row. -/
theorem mem_marks_iff {left pre rest : List (String × Fields F)} {b : String × Fields F} :
    some pre.length ∈ left.flatMap (marksOf (pre ++ b :: rest)) ↔
      (hits Prod.fst left b.1 && isFirst Prod.fst same (pre ++ b :: rest) pre b) = true := by
  simp only [List.mem_flatMap, marksOf, List.mem_map, matching, List.mem_filter, position,
    findIdx?_eq_length, hits, isFirst, same, Bool.and_eq_true, List.any_eq_true,
    List.all_eq_true, beq_iff_eq, Bool.not_eq_true', ← Bool.not_eq_true]
  constructor
  · rintro ⟨l, hl, c, ⟨hc, hcl⟩, ⟨hbl, hsame⟩, hpre⟩
    refine ⟨⟨l, hl, hbl.symm⟩, c, hc, ⟨hcl.trans hbl.symm, hsame⟩, fun d hd hboth => ?_⟩
    exact hpre d hd ⟨hboth.1.trans hcl, hboth.2⟩
  · rintro ⟨⟨l, hl, hlb⟩, c, hc, ⟨hcb, hsame⟩, hpre⟩
    refine ⟨l, hl, c, ⟨hc, hcb.trans hlb.symm⟩, ⟨hlb.symm, hsame⟩, fun d hd hboth => ?_⟩
    exact hpre d hd ⟨hboth.1.trans (hlb.trans hcb.symm), hboth.2⟩

/-- Skipping the marked positions leaves the rows that no left row takes. -/
theorem filterMap_unmarked {left : List (String × Fields F)} {flags : List Bool}
    (out : String × Fields F → Record F) (pre rest : List (String × Fields F))
    (hflags : ∀ i < (pre ++ rest).length, flags[i]?.getD false =
      (left.flatMap (marksOf (pre ++ rest))).contains (some i)) :
    (rest.zipIdx pre.length).filterMap (fun (r, idx) =>
        if flags[idx]?.getD false then none else some (out r)) =
      (leftover Prod.fst same (hits Prod.fst left) (pre ++ rest) pre rest).map out := by
  induction rest generalizing pre with
  | nil => rfl
  | cons b rest ih =>
      have hwhole : pre ++ b :: rest = (pre ++ [b]) ++ rest := by simp
      have ih := ih (pre ++ [b]) (by rwa [← hwhole])
      rw [← hwhole, List.length_append, List.length_singleton] at ih
      have hflag := hflags pre.length (by simp)
      rw [List.zipIdx_cons, List.filterMap_cons, leftover]
      simp only
      rw [ih]
      by_cases hmark : (hits Prod.fst left b.1 &&
          isFirst Prod.fst same (pre ++ b :: rest) pre b) = true
      · have hset : flags[pre.length]?.getD false = true := by
          rw [hflag]
          simpa using mem_marks_iff.mpr hmark
        rw [if_pos hmark, if_pos hset]
      · have hclear : ¬ flags[pre.length]?.getD false = true := by
          rw [hflag]
          simpa using fun h => hmark (mem_marks_iff.mp h)
        rw [if_neg hmark, if_neg hclear, List.map_cons]

/-- The output of the operator is the outer join of the keyed records. -/
theorem joinRecords_eq {host : Host F} {op : JoinOp} {leftRecords rightRecords : List (Record F)}
    {left right : List (String × Fields F)} (hleft : leftRecords.mapM (keyed host op) = .ok left)
    (hright : rightRecords.mapM (keyed host op) = .ok right) :
    joinRecords host op leftRecords rightRecords =
      .ok (outerJoin Prod.fst Prod.fst same combine (aloneLeft op) (aloneRight op)
        left right) := by
  have hflags : ∀ i < ([] ++ right).length,
      ((left.flatMap (marksOf right)).foldl mark (List.replicate right.length false))[i]?.getD
        false = (left.flatMap (marksOf ([] ++ right))).contains (some i) := by
    intro i hi
    rw [List.nil_append] at hi ⊢
    rw [getD_foldl_mark _ _ (by rwa [List.length_replicate])]
    simp [hi]
  have hright' : rightOnly op right
      ((left.flatMap (marksOf right)).foldl mark (List.replicate right.length false)) =
      (leftover Prod.fst same (hits Prod.fst left) right [] right).flatMap (aloneRight op) := by
    unfold rightOnly aloneRight
    split
    · have h := filterMap_unmarked (fun r => Value.object (combineRightOnly r.2)) [] right hflags
      rw [← List.map_eq_flatMap]
      exact h
    · simp
  rw [joinRecords, hright, hleft]
  simp only [bind, Except.bind, foldl_joinLeft, List.nil_append, hright']
  rfl

end

end JoinOp
end ProcessingEngine
