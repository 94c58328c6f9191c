import ProcessingEngine.Worker.Transform

/-!
# What a flat map makes of a record

`split` and `explode_array` copy a record once for each token of a text or each
element of an array and change nothing but the field they are given; where they
do not apply they hand the record on.  `json_expand` takes a record apart field
by field.
-/

namespace ProcessingEngine

open Lib Text

variable {F : Type}

namespace Fields

theorem get_eq_some_of_mem {m : Fields F} (h : Sorted m) {key : String} {value : Value F}
    (hmem : (key, value) ∈ m) : get key m = some value := by
  induction m with
  | nil => cases hmem
  | cons f rest ih =>
      obtain ⟨k, v⟩ := f
      rw [get]
      rcases List.mem_cons.mp hmem with heq | hrest
      · cases heq
        exact if_pos rfl
      · have hlt : k < key := (List.pairwise_cons.mp h).1 _ hrest
        have hne : key ≠ k := fun e => String.lt_irrefl k (e ▸ hlt)
        rw [if_neg hne]
        exact ih h.tail hrest

theorem mem_of_get_eq_some {m : Fields F} {key : String} {value : Value F}
    (h : get key m = some value) : (key, value) ∈ m := by
  induction m with
  | nil => cases h
  | cons f rest ih =>
      obtain ⟨k, v⟩ := f
      rw [get] at h
      split at h
      · next heq =>
          cases h
          rw [heq]
          exact List.mem_cons_self
      · exact List.mem_cons_of_mem _ (ih h)

end Fields

namespace FlatMapOp

/-! ### Tokens -/

/-- The characters between tokens. -/
def isSeparator (c : Char) : Bool := isWhitespace c || c == ','

theorem isSeparator_eq_false_iff {c : Char} :
    isSeparator c = false ↔ isWhitespace c = false ∧ c ≠ ',' := by
  simp [isSeparator]

theorem dropWhile_eq_self {α : Type} {p : α → Bool} {as : List α} (h : ∀ a ∈ as, p a = false) :
    as.dropWhile p = as := by
  cases as with
  | nil => rfl
  | cons a as => rw [List.dropWhile_cons_of_neg (by simp [h a List.mem_cons_self])]

/-- A piece between separators has nothing to trim. -/
theorem trim_piece {piece : List Char} (h : ∀ c ∈ piece, isSeparator c = false) :
    trim (String.ofList piece) = String.ofList piece := by
  have hspace : ∀ c ∈ piece, isWhitespace c = false :=
    fun c hc => (isSeparator_eq_false_iff.mp (h c hc)).1
  have hreverse : ∀ c ∈ piece.reverse, isWhitespace c = false :=
    fun c hc => hspace c (List.mem_reverse.mp hc)
  rw [trim, String.toList_ofList, dropWhile_eq_self hspace, trimEndMatches,
    dropWhile_eq_self hreverse, List.reverse_reverse]

theorem isBlank_piece {piece : List Char} (h : ∀ c ∈ piece, isSeparator c = false) :
    isBlank (String.ofList piece) = piece.isEmpty := by
  cases piece with
  | nil => rfl
  | cons c rest =>
      have hc := (isSeparator_eq_false_iff.mp (h c List.mem_cons_self)).1
      simp [isBlank, hc]

/-- The tokens are the nonempty pieces between separators. -/
theorem tokens_eq (s : String) :
    tokens s = ((s.toList.splitOnP isSeparator).filter fun piece => !piece.isEmpty).map
      String.ofList := by
  have hpieces : ∀ piece ∈ s.toList.splitOnP isSeparator, ∀ c ∈ piece, isSeparator c = false :=
    fun _ hpiece => eq_false_of_mem_splitOnP isSeparator hpiece
  show (((s.toList.splitOnP isSeparator).map String.ofList).filter _).map trim = _
  generalize s.toList.splitOnP isSeparator = pieces at hpieces
  induction pieces with
  | nil => rfl
  | cons piece rest ih =>
      have hpiece := hpieces piece List.mem_cons_self
      have hrest := ih fun q hq => hpieces q (List.mem_cons_of_mem _ hq)
      rw [List.map_cons, List.filter_cons, List.filter_cons, isBlank_piece hpiece]
      split
      · rw [List.map_cons, List.map_cons, trim_piece hpiece, hrest]
      · exact hrest

theorem token_spec {s t : String} (h : t ∈ tokens s) :
    t ≠ "" ∧ ∀ c ∈ t.toList, isWhitespace c = false ∧ c ≠ ',' := by
  rw [tokens_eq, List.mem_map] at h
  obtain ⟨piece, hpiece, rfl⟩ := h
  rw [List.mem_filter] at hpiece
  have hsep := eq_false_of_mem_splitOnP isSeparator hpiece.1
  constructor
  · intro hempty
    have hlist := congrArg String.toList hempty
    rw [String.toList_ofList] at hlist
    simp [hlist] at hpiece
  · intro c hc
    rw [String.toList_ofList] at hc
    exact isSeparator_eq_false_iff.mp (hsep c hc)

/-- The tokens together are the text without its separators. -/
theorem flatMap_tokens (s : String) :
    (tokens s).flatMap String.toList = s.toList.filter fun c => !isSeparator c := by
  rw [tokens_eq, ← flatten_splitOnP isSeparator]
  induction s.toList.splitOnP isSeparator with
  | nil => rfl
  | cons piece rest ih =>
      cases piece with
      | nil => simpa using ih
      | cons c piece => simpa using ih

/-- There is a token when there is a character that separates nothing. -/
theorem tokens_ne_nil_iff (s : String) :
    tokens s ≠ [] ↔ ∃ c ∈ s.toList, isWhitespace c = false ∧ c ≠ ',' := by
  constructor
  · intro h
    obtain ⟨t, ht⟩ := List.exists_mem_of_ne_nil _ h
    obtain ⟨hne, hchars⟩ := token_spec ht
    rw [Ne, ← String.toList_inj] at hne
    obtain ⟨c, hc⟩ := List.exists_mem_of_ne_nil _ hne
    have hin : c ∈ (tokens s).flatMap String.toList := List.mem_flatMap.mpr ⟨t, ht, hc⟩
    rw [flatMap_tokens] at hin
    exact ⟨c, (List.mem_filter.mp hin).1, hchars c hc⟩
  · intro h hnil
    obtain ⟨c, hc, hsep⟩ := h
    have hin : c ∈ s.toList.filter fun c => !isSeparator c := by
      rw [List.mem_filter, isSeparator_eq_false_iff.mpr hsep]
      exact ⟨hc, rfl⟩
    rw [← flatMap_tokens, hnil] at hin
    cases hin

/-! ### Records -/

/-- The records are the object with one value after the other at the field. -/
def Varied (field : String) (fields : Fields F) (values : List (Value F))
    (out : List (Record F)) : Prop :=
  List.Forall₂ (fun value record => ∃ changed, record = .object changed ∧
    Fields.get field changed = some value ∧
    ∀ key, key ≠ field → Fields.get key changed = Fields.get key fields) values out

theorem varied_replaceField (fields : Fields F) (field : String) (values : List (Value F)) :
    Varied field fields values (replaceField fields field values) := by
  rw [Varied, replaceField, List.forall₂_map_right_iff, List.forall₂_same]
  intro value _
  exact ⟨_, rfl, Fields.get_insert_self field value fields,
    fun key hkey => Fields.get_insert_ne hkey value fields⟩

/-- The records are objects of one field each, with different keys, and have the fields of
the object between them. -/
structure Apart (fields : Fields F) (out : List (Record F)) : Prop where
  single : ∀ record ∈ out, ∃ key value, record = .object [(key, value)]
  union : ∀ key value, Fields.get key fields = some value ↔ .object [(key, value)] ∈ out
  disjoint : out.Pairwise fun r r' => ∀ key, (r.get key).isSome → r'.get key = none

theorem apart_jsonExpand {fields : Fields F} (h : Fields.Sorted fields) :
    Apart fields (fields.map fun f => .object [f]) := by
  refine ⟨?_, ?_, ?_⟩
  · intro record hrecord
    obtain ⟨f, -, rfl⟩ := List.mem_map.mp hrecord
    exact ⟨f.1, f.2, rfl⟩
  · intro key value
    constructor
    · intro hget
      exact List.mem_map.mpr ⟨_, Fields.mem_of_get_eq_some hget, rfl⟩
    · intro hmem
      obtain ⟨f, hf, heq⟩ := List.mem_map.mp hmem
      simp only [Value.object.injEq, List.cons.injEq, and_true] at heq
      exact Fields.get_eq_some_of_mem h (heq ▸ hf)
  · rw [List.pairwise_map]
    apply h.imp
    intro f g hlt key hkey
    have hone : ∀ h : String × Value F,
        Value.get key (.object [h]) = if key = h.1 then some h.2 else none := fun _ => rfl
    rw [hone] at hkey ⊢
    split_ifs at hkey with hk
    · rw [if_neg fun e => String.lt_irrefl key (by rwa [← hk, ← e] at hlt)]
    · cases hkey

theorem apply_split (field : String) (record : Record F) :
    apply ("split:" ++ field) record = .ok (splitField record field) := by
  have hid : "split:" ++ field ≠ "identity" := append_ne_of_stripPrefix (by decide) field
  rw [apply, if_neg hid, stripPrefix_append]

theorem apply_explodeArray (field : String) (record : Record F) :
    apply ("explode_array:" ++ field) record = .ok (explodeArray record field) := by
  have hid : "explode_array:" ++ field ≠ "identity" :=
    append_ne_of_stripPrefix (by decide) field
  have hsplit : stripPrefix "split:" ("explode_array:" ++ field) = none :=
    stripPrefix_append_eq_none (by decide) (by decide) field
  rw [apply, if_neg hid, hsplit, stripPrefix_append]

/-- What `split` makes of a text with a token: a record for each token, in order. -/
def SplitInto (field s : String) (fields : Fields F) (out : List (Record F)) : Prop :=
  ∃ ts : List String, Varied field fields (ts.map .string) out ∧
    (∀ t ∈ ts, t ≠ "" ∧ ∀ c ∈ t.toList, isWhitespace c = false ∧ c ≠ ',') ∧
    ts.flatMap String.toList = s.toList.filter fun c => !(isWhitespace c || c == ',')

theorem splitField_of_text {fields : Fields F} {field s : String}
    (hget : Fields.get field fields = some (.string s))
    (htoken : ∃ c ∈ s.toList, isWhitespace c = false ∧ c ≠ ',') :
    SplitInto field s fields (splitField (.object fields) field) := by
  have hne : ¬ (tokens s).isEmpty = true := by
    rw [List.isEmpty_iff]
    exact (tokens_ne_nil_iff s).mpr htoken
  have hsplit : splitField (.object fields) field =
      replaceField fields field ((tokens s).map .string) := by
    simp only [splitField, hget, Option.bind_some, Value.asStr, if_neg hne]
  rw [hsplit]
  exact ⟨tokens s, varied_replaceField fields field _, fun t ht => token_spec ht,
    flatMap_tokens s⟩

theorem splitField_of_no_token {fields : Fields F} {field : String}
    (h : ∀ s, Fields.get field fields = some (.string s) →
      ¬ ∃ c ∈ s.toList, isWhitespace c = false ∧ c ≠ ',') :
    splitField (.object fields) field = [.object fields] := by
  cases hstr : (Fields.get field fields).bind Value.asStr with
  | none => simp only [splitField, hstr]
  | some s =>
      obtain ⟨v, hget, hv⟩ := Option.bind_eq_some_iff.mp hstr
      cases v with
      | string s' =>
          cases hv
          have hnil : (tokens s).isEmpty = true := by
            rw [List.isEmpty_iff]
            by_contra hne
            exact h s hget ((tokens_ne_nil_iff s).mp hne)
          simp only [splitField, hstr, if_pos hnil]
      | _ => cases hv

theorem explodeArray_of_array {fields : Fields F} {field : String} {elements : List (Value F)}
    (hget : Fields.get field fields = some (.array elements)) :
    Varied field fields elements (explodeArray (.object fields) field) := by
  have hexplode : explodeArray (.object fields) field = replaceField fields field elements := by
    simp only [explodeArray, hget, Option.bind_some, Value.asArray]
  rw [hexplode]
  exact varied_replaceField fields field elements

theorem explodeArray_of_no_array {fields : Fields F} {field : String}
    (h : ∀ elements, Fields.get field fields ≠ some (.array elements)) :
    explodeArray (.object fields) field = [.object fields] := by
  cases harr : (Fields.get field fields).bind Value.asArray with
  | none => simp only [explodeArray, harr]
  | some elements =>
      obtain ⟨v, hget, hv⟩ := Option.bind_eq_some_iff.mp harr
      cases v with
      | array elements' => exact absurd hget (h elements')
      | _ => cases hv

/-- A flat map loses nothing of an object: `split` and `explode_array` vary the one field
over the tokens or the elements, `json_expand` divides the fields, and where the first two
do not apply the record stays. -/
theorem apply_lossless {fields : Fields F} (hsorted : Fields.Sorted fields) (field : String) :
    (∀ s, Fields.get field fields = some (.string s) →
      (∃ c ∈ s.toList, isWhitespace c = false ∧ c ≠ ',') →
        ∃ out, apply ("split:" ++ field) (.object fields) = .ok out ∧
          SplitInto field s fields out) ∧
      (∀ elements, Fields.get field fields = some (.array elements) →
        ∃ out, apply ("explode_array:" ++ field) (.object fields) = .ok out ∧
          Varied field fields elements out) ∧
      (fields ≠ [] → ∃ out, apply "json_expand" (.object fields) = .ok out ∧ Apart fields out) ∧
      ((∀ s, Fields.get field fields = some (.string s) →
          ¬ ∃ c ∈ s.toList, isWhitespace c = false ∧ c ≠ ',') →
        apply ("split:" ++ field) (.object fields) = .ok [.object fields]) ∧
      ((∀ elements, Fields.get field fields ≠ some (.array elements)) →
        apply ("explode_array:" ++ field) (.object fields) = .ok [.object fields]) := by
  rw [apply_split, apply_explodeArray]
  refine ⟨?_, ?_, ?_, ?_, ?_⟩
  · intro s hget htoken
    exact ⟨_, rfl, splitField_of_text hget htoken⟩
  · intro elements hget
    exact ⟨_, rfl, explodeArray_of_array hget⟩
  · intro hne
    refine ⟨_, ?_, apart_jsonExpand hsorted⟩
    have hexpand : jsonExpand (.object fields) = fields.map fun f => .object [f] := by
      simp [jsonExpand, hne]
    rw [← hexpand]
    rfl
  · intro h
    rw [splitField_of_no_token h]
  · intro h
    rw [explodeArray_of_no_array h]

/-- A record with a text and an array. -/
def taggedRecord : Fields Int :=
  [("tags", .string "a,b c"), ("vals", .array [.number (.int 1), .null])]

theorem apply_lossless_tagged :
    (∃ out, apply "split:tags" (.object taggedRecord) = .ok out ∧
      SplitInto "tags" "a,b c" taggedRecord out) ∧
      (∃ out, apply "explode_array:vals" (.object taggedRecord) = .ok out ∧
        Varied "vals" taggedRecord [.number (.int 1), .null] out) ∧
      (∃ out, apply "json_expand" (.object taggedRecord) = .ok out ∧ Apart taggedRecord out) ∧
      apply "split:vals" (.object taggedRecord) = .ok [.object taggedRecord] ∧
      apply "explode_array:tags" (.object taggedRecord) = .ok [.object taggedRecord] := by
  have hsorted : Fields.Sorted taggedRecord := by
    rw [taggedRecord, Fields.Sorted]
    decide
  have htags := apply_lossless hsorted "tags"
  have hvals := apply_lossless hsorted "vals"
  have htoken : ∃ c ∈ "a,b c".toList, isWhitespace c = false ∧ c ≠ ',' :=
    ⟨'a', by decide, by decide, by decide⟩
  refine ⟨htags.1 "a,b c" rfl htoken, hvals.2.1 _ rfl, htags.2.2.1 (List.cons_ne_nil _ _),
    hvals.2.2.2.1 ?_, htags.2.2.2.2 ?_⟩
  · intro s hs
    cases hs
  · intro elements helements
    cases helements

end FlatMapOp
end ProcessingEngine
