import ProcessingEngine.Worker.Partition

/-!
# Record-wise operators

`worker/ops/map.rs`, `filter.rs` and `flat_map.rs`.  The three operators take
each partition apart, compute new records from its records, and put them back
under the same number; `perPartition` is that loop.
-/

namespace ProcessingEngine

open Lib Text

variable {F : Type}

/-- Replace the records of every partition. -/
def perPartition (host : Host F) (f : List (Record F) → Except Fail (List (Record F)))
    (partitions : List (PartitionData F)) : Action (List (PartitionData F)) :=
  Exec.forEach (fun partition => do
    let (limit, spillPath, records) ← partition.intoParts host
    let mapped ← Exec.lift (f records)
    PartitionData.fromRecords host partition.partitionId limit spillPath mapped) partitions

/-! ### Map -/

structure MapOp where
  func : String
  deriving DecidableEq, Repr

namespace MapOp

def unknownFunction (func : String) : Fail := .error ("unknown map function: " ++ func)

/-- `i * 2` in `i64` -/
def doubleInt (host : Host F) (i : Int) : Except Fail Int :=
  if i64Min ≤ i * 2 ∧ i * 2 ≤ i64Max then .ok (i * 2)
  else if host.overflowChecks then .error .panic
  else .ok (Int.bmod (i * 2) 18446744073709551616)

def doubleFloat (host : Host F) (x : F) (message : String) : Except Fail (Value F) :=
  match host.fromF64 (host.double x) with
  | some n => .ok (.number n)
  | none => .error (.error message)

def applyString (host : Host F) (s func : String) : Except Fail (Value F) :=
  if func = "identity" then .ok (.string s)
  else if func = "uppercase" then .ok (.string (host.toUppercase s))
  else if func = "lowercase" then .ok (.string (host.toLowercase s))
  else if func = "double" then
    match parseI64 s with
    | some i => (doubleInt host i).map fun i => .number (.int i)
    | none =>
        match host.parseF64 s with
        | some x => doubleFloat host x "failed to convert doubled float from string"
        | none => .ok (.string s)
  else .error (unknownFunction func)

/-- `n.as_i64()` -/
def asI64 : Number F → Option Int
  | .int i => if i64Min ≤ i ∧ i ≤ i64Max then some i else none
  | .float _ => none

def applyNumber (host : Host F) (n : Number F) (func : String) : Except Fail (Value F) :=
  if func = "double" then
    match asI64 n with
    | some i => (doubleInt host i).map fun i => .number (.int i)
    | none =>
        match host.asF64 n with
        | some x => doubleFloat host x "failed to convert doubled float"
        | none => .ok .null
  else if func = "identity" ∨ func = "uppercase" ∨ func = "lowercase" then .ok (.number n)
  else .error (unknownFunction func)

mutual
def applyFn (host : Host F) (func : String) : Value F → Except Fail (Value F)
  | .string s => applyString host s func
  | .number n => applyNumber host n func
  | .array elements => (applyElements host func elements).map .array
  | .object fields => (applyFields host func fields).map .object
  | .null => .ok .null
  | .bool b => .ok (.bool b)

def applyElements (host : Host F) (func : String) :
    List (Value F) → Except Fail (List (Value F))
  | [] => .ok []
  | v :: vs => do
      let v ← applyFn host func v
      let vs ← applyElements host func vs
      return v :: vs

def applyFields (host : Host F) (func : String) : Fields F → Except Fail (Fields F)
  | [] => .ok []
  | (k, v) :: rest => do
      let v ← applyFn host func v
      let rest ← applyFields host func rest
      return (k, v) :: rest
end

def execute (host : Host F) (op : MapOp) :
    List (PartitionData F) → Action (List (PartitionData F)) :=
  perPartition host (List.mapM (applyFn host op.func))

end MapOp

/-! ### Filter -/

inductive Predicate (F : Type) where
  | alwaysTrue
  | alwaysFalse
  | nonEmpty
  | hasField (field : String)
  | equals (field : String) (expected : Value F)
  | gt (field : String) (threshold : F)
  | lt (field : String) (threshold : F)

namespace Predicate

def unknownPredicate (raw : String) : Fail := .error ("unknown predicate: " ++ raw)
def invalidPredicate (raw : String) : Fail := .error ("invalid predicate: " ++ raw)

/-- The nonempty field and the operand of `field=operand`. -/
def parseComparison (raw rest : String) : Except Fail (String × String) :=
  match splitn2 '=' rest with
  | (field, operand) =>
      if field.isEmpty then .error (invalidPredicate raw)
      else match operand with
        | none => .error (invalidPredicate raw)
        | some operand => .ok (field, operand)

/-- A comparison with a float. -/
def parseThreshold (host : Host F) (raw rest : String) : Except Fail (String × F) := do
  let (field, operand) ← parseComparison raw rest
  match host.parseF64 operand with
  | none => .error (invalidPredicate raw)
  | some threshold => return (field, threshold)

def parse (host : Host F) (raw : String) : Except Fail (Predicate F) :=
  if raw = "non_empty" then .ok .nonEmpty
  else if raw = "always_true" then .ok .alwaysTrue
  else if raw = "always_false" then .ok .alwaysFalse
  else match stripPrefix "has_field:" raw with
  | some rest => .ok (.hasField rest)
  | none =>
  match stripPrefix "equals:" raw with
  | some rest => (parseComparison raw rest).map fun (field, operand) =>
      .equals field (.string operand)
  | none =>
  match stripPrefix "gt:" raw with
  | some rest => (parseThreshold host raw rest).map fun (field, threshold) => .gt field threshold
  | none =>
  match stripPrefix "lt:" raw with
  | some rest => (parseThreshold host raw rest).map fun (field, threshold) => .lt field threshold
  | none => .error (unknownPredicate raw)

/-- `value.as_f64()` -/
def asF64 (host : Host F) : Value F → Option F
  | .number n => host.asF64 n
  | _ => none

def isNull : Value F → Bool
  | .null => true
  | _ => false

def evalFields [BEq F] (host : Host F) (fields : Fields F) : Predicate F → Bool
  | .alwaysTrue => true
  | .alwaysFalse => false
  | .nonEmpty => !fields.isEmpty && fields.all fun (_, v) => !isNull v
  | .hasField field => (Fields.get field fields).isSome
  | .equals field expected =>
      match Fields.get field fields, expected with
      | some (.string actual), .string exp => host.toLowercase actual == host.toLowercase exp
      | some value, exp => value.beq exp
      | none, _ => false
  | .gt field threshold =>
      (((Fields.get field fields).bind (asF64 host)).map (host.lt threshold)).getD false
  | .lt field threshold =>
      (((Fields.get field fields).bind (asF64 host)).map (host.lt · threshold)).getD false

/-- A record that is not an object satisfies only the constant predicate. -/
def eval [BEq F] (host : Host F) (record : Record F) (pred : Predicate F) : Bool :=
  match pred, record with
  | .alwaysTrue, _ => true
  | pred, .object fields => pred.evalFields host fields
  | _, _ => false

end Predicate

structure FilterOp where
  predicate : String
  deriving DecidableEq, Repr

namespace FilterOp

def execute [BEq F] (host : Host F) (op : FilterOp) (partitions : List (PartitionData F)) :
    Action (List (PartitionData F)) := do
  let predicate ← Exec.lift (Predicate.parse host op.predicate)
  perPartition host (fun records => .ok (records.filter fun r => predicate.eval host r)) partitions

end FilterOp

/-! ### Flat map -/

structure FlatMapOp where
  func : String
  deriving DecidableEq, Repr

namespace FlatMapOp

/-- The nonblank tokens between whitespace and commas. -/
def tokens (s : String) : List String :=
  let parts := s.toList.splitOnP fun c => isWhitespace c || c == ','
  ((parts.map String.ofList).filter fun t => !isBlank t).map trim

/-- A copy of the record for each value, put at the field. -/
def replaceField (fields : Fields F) (field : String) (values : List (Value F)) :
    List (Record F) :=
  values.map fun v => .object (Fields.insert field v fields)

def splitField (record : Record F) (field : String) : List (Record F) :=
  match record with
  | .object fields =>
      match (Fields.get field fields).bind Value.asStr with
      | some s =>
          if (tokens s).isEmpty then [record]
          else replaceField fields field ((tokens s).map .string)
      | none => [record]
  | _ => [record]

def explodeArray (record : Record F) (field : String) : List (Record F) :=
  match record with
  | .object fields =>
      match (Fields.get field fields).bind Value.asArray with
      | some elements => replaceField fields field elements
      | none => [record]
  | _ => [record]

def jsonExpand (record : Record F) : List (Record F) :=
  match record with
  | .object fields =>
      if fields.isEmpty then [record] else fields.map fun (k, v) => .object [(k, v)]
  | _ => [record]

def apply (func : String) (record : Record F) : Except Fail (List (Record F)) :=
  if func = "identity" then .ok [record]
  else match stripPrefix "split:" func with
  | some field => .ok (splitField record field)
  | none =>
  match stripPrefix "explode_array:" func with
  | some field => .ok (explodeArray record field)
  | none =>
  if func = "json_expand" then .ok (jsonExpand record)
  else .error (.error ("flat_map: unknown operation '" ++ func ++ "'"))

def execute (host : Host F) (op : FlatMapOp) :
    List (PartitionData F) → Action (List (PartitionData F)) :=
  perPartition host fun records => (records.mapM (apply op.func)).map List.flatten

end FlatMapOp
end ProcessingEngine
