import Mathlib.Data.List.Basic
import Mathlib.Data.List.Infix

/-!
# Strings and lines

The operations of the standard library that the engine applies to text: the
ones on `str` (trimming, splitting, parsing an `i64`), and the division of a
byte stream into lines.
-/

namespace ProcessingEngine
namespace Text

/-- `char::is_whitespace`: the Unicode property White_Space. -/
def isWhitespace (c : Char) : Bool :=
  let n := c.toNat
  (9 ≤ n && n ≤ 13) || n == 0x20 || n == 0x85 || n == 0xA0 || n == 0x1680 ||
    (0x2000 ≤ n && n ≤ 0x200A) || n == 0x2028 || n == 0x2029 || n == 0x202F ||
    n == 0x205F || n == 0x3000

/-- Drop the characters satisfying `p` at the end. -/
def trimEndMatches (p : Char → Bool) (cs : List Char) : List Char :=
  (cs.reverse.dropWhile p).reverse

/-- `str::trim` -/
def trim (s : String) : String :=
  String.ofList (trimEndMatches isWhitespace (s.toList.dropWhile isWhitespace))

/-- `s.trim().is_empty()` -/
def isBlank (s : String) : Bool := s.toList.all isWhitespace

/-- `s.split(sep)` for a character `sep`. -/
def split (sep : Char) (s : String) : List String :=
  (s.toList.splitOn sep).map String.ofList

/-- `s.splitn(2, sep)`: the part before the first `sep`, and the rest if there
is one. -/
def splitn2 (sep : Char) (s : String) : String × Option String :=
  let cs := s.toList
  (String.ofList (cs.takeWhile (· ≠ sep)),
    match cs.dropWhile (· ≠ sep) with
    | [] => none
    | _ :: rest => some (String.ofList rest))

/-- The characters before the first `->`. -/
def untilArrow : List Char → List Char
  | '-' :: '>' :: _ => []
  | c :: cs => c :: untilArrow cs
  | [] => []

/-- `s.split("->").next()` -/
def beforeArrow (s : String) : String := String.ofList (untilArrow s.toList)

/-- `s.strip_prefix(p)` -/
def stripPrefix (p s : String) : Option String :=
  if p.toList.isPrefixOf s.toList then some (String.ofList (s.toList.drop p.toList.length))
  else none

/-- The value of a nonempty string of ASCII digits. -/
def parseDigits (cs : List Char) : Option Nat :=
  if cs.isEmpty || !cs.all Char.isDigit then none
  else some (cs.foldl (fun acc c => acc * 10 + (c.toNat - '0'.toNat)) 0)

def i64Min : Int := -9223372036854775808
def i64Max : Int := 9223372036854775807

/-- `str::parse::<i64>` -/
def parseI64 (s : String) : Option Int :=
  let value : Option Int := match s.toList with
    | '-' :: cs => (parseDigits cs).map fun n => -(n : Int)
    | '+' :: cs => (parseDigits cs).map fun n => (n : Int)
    | cs => (parseDigits cs).map fun n => (n : Int)
  value.filter fun i => i64Min ≤ i && i ≤ i64Max

/-! ### Bytes and lines -/

abbrev Bytes := List UInt8

/-- The byte of `'\n'` and the one of `'\r'`. -/
def newline : UInt8 := 10
def carriageReturn : UInt8 := 13

/-- Decode UTF-8; `none` for an invalid sequence. -/
def utf8 (b : Bytes) : Option String := String.fromUTF8? (ByteArray.mk b.toArray)

/-- The stretches between newlines, each with whether a newline ends it.  There
is no empty stretch after the last newline. -/
def chunks : Bytes → List (Bytes × Bool)
  | [] => []
  | b :: rest =>
      if b == newline then ([], true) :: chunks rest
      else match chunks rest with
        | [] => [([b], false)]
        | (l, ended) :: more => (b :: l, ended) :: more

/-- Drop the carriage return of a line that a newline ends. -/
def dropCr : Bytes × Bool → Bytes
  | (l, true) => if l.getLast? == some carriageReturn then l.dropLast else l
  | (l, false) => l

/-- `BufRead::lines`: the lines without their ends, `none` where a line is not
UTF-8. -/
def lines (content : Bytes) : List (Option String) :=
  (chunks content).map fun c => utf8 (dropCr c)

/-- `BufRead::read_line`: the first line with its end, and what follows. -/
def readLine (content : Bytes) : Bytes × Bytes :=
  let first := content.takeWhile (· ≠ newline)
  match content.dropWhile (· ≠ newline) with
  | [] => (first, [])
  | nl :: rest => (first ++ [nl], rest)

theorem chunks_append_newline {l : Bytes} (h : newline ∉ l) (rest : Bytes) :
    chunks (l ++ newline :: rest) = (l, true) :: chunks rest := by
  induction l with
  | nil => rfl
  | cons b l ih =>
      rw [List.mem_cons, not_or] at h
      have hb : (b == newline) = false := by simpa using fun e => h.1 e.symm
      simp only [List.cons_append, chunks, ih h.2, hb]
      rfl

theorem dropCr_of_notMem {l : Bytes} (h : carriageReturn ∉ l) : dropCr (l, true) = l := by
  have hlast : l.getLast? ≠ some carriageReturn := fun e => h (List.mem_of_getLast? e)
  simp [dropCr, hlast]

/-- A sequence of one-line texts, each followed by a newline, reads back line by
line. -/
theorem lines_flatMap {α : Type} {text : α → Bytes} {as : List α}
    (h : ∀ a ∈ as, newline ∉ text a ∧ carriageReturn ∉ text a) :
    lines (as.flatMap fun a => text a ++ [newline]) = as.map fun a => utf8 (text a) := by
  induction as with
  | nil => rfl
  | cons a as ih =>
      have ha := h a List.mem_cons_self
      have ih := ih fun b hb => h b (List.mem_cons_of_mem a hb)
      simp only [lines] at ih ⊢
      rw [List.flatMap_cons, List.append_assoc, List.singleton_append,
        chunks_append_newline ha.1, List.map_cons, List.map_cons, ih, dropCr_of_notMem ha.2]

/-! ### Prefixes and pieces -/

theorem stripPrefix_append (p s : String) : stripPrefix p (p ++ s) = some s := by
  have hpre : p.toList.isPrefixOf (p ++ s).toList = true := by
    rw [List.isPrefixOf_iff_prefix, String.toList_append]
    exact List.prefix_append _ _
  rw [stripPrefix, if_pos hpre, String.toList_append, List.drop_left, String.ofList_toList]

theorem stripPrefix_eq_none {p s : String} (h : ¬ p.toList <+: s.toList) :
    stripPrefix p s = none := by
  rw [← List.isPrefixOf_iff_prefix] at h
  exact if_neg h

/-- A text that starts in one way does not start in another. -/
theorem stripPrefix_append_eq_none {p q : String} (h : ¬ p.toList <+: q.toList)
    (h' : ¬ q.toList <+: p.toList) (s : String) : stripPrefix p (q ++ s) = none := by
  apply stripPrefix_eq_none
  rw [String.toList_append]
  intro hpre
  rcases List.prefix_or_prefix_of_prefix hpre (List.prefix_append _ _) with hpq | hqp
  · exact h hpq
  · exact h' hqp

theorem append_ne_of_stripPrefix {p t : String} (h : stripPrefix p t = none) (s : String) :
    p ++ s ≠ t := by
  rintro rfl
  rw [stripPrefix_append] at h
  cases h

section

variable {α : Type} (p : α → Bool)

theorem takeWhile_append_sep {as : List α} (h : ∀ a ∈ as, p a = true) {sep : α}
    (hsep : p sep = false) (rest : List α) :
    (as ++ sep :: rest).takeWhile p = as ∧ (as ++ sep :: rest).dropWhile p = sep :: rest := by
  induction as with
  | nil => simp [hsep]
  | cons a as ih =>
      have ih := ih fun b hb => h b (List.mem_cons_of_mem _ hb)
      simp [h a List.mem_cons_self, ih]

/-- The pieces between separators hold none. -/
theorem eq_false_of_mem_splitOnP {as piece : List α} (h : piece ∈ as.splitOnP p) :
    ∀ a ∈ piece, p a = false := by
  induction as generalizing piece with
  | nil =>
      rw [List.splitOnP_nil, List.mem_singleton] at h
      simp [h]
  | cons a as ih =>
      rw [List.splitOnP_cons_eq_if_modifyHead] at h
      split at h
      · rcases List.mem_cons.mp h with rfl | h
        · simp
        · exact ih h
      · next ha =>
          cases hpieces : as.splitOnP p with
          | nil => exact absurd hpieces (List.splitOnP_ne_nil p as)
          | cons first rest =>
              rw [hpieces] at h ih
              rcases List.mem_cons.mp h with rfl | h
              · intro b hb
                rcases List.mem_cons.mp hb with rfl | hb
                · simpa using ha
                · exact ih List.mem_cons_self b hb
              · exact ih (List.mem_cons_of_mem _ h)

/-- The pieces together are the list without its separators. -/
theorem flatten_splitOnP (as : List α) :
    (as.splitOnP p).flatten = as.filter fun a => !p a := by
  induction as with
  | nil => rfl
  | cons a as ih =>
      rw [List.splitOnP_cons_eq_if_modifyHead]
      split
      · next ha => rw [List.flatten_cons, List.nil_append, ih, List.filter_cons_of_neg (by simp [ha])]
      · next ha =>
          rw [List.filter_cons_of_pos (by simpa using ha), ← ih]
          cases hpieces : as.splitOnP p with
          | nil => exact absurd hpieces (List.splitOnP_ne_nil p as)
          | cons first rest => rfl

end

/-- A text without the separator is what is split off. -/
theorem splitn2_append {sep : Char} {s : String} (h : sep ∉ s.toList) (t : String) :
    splitn2 sep (s ++ String.ofList [sep] ++ t) = (s, some t) := by
  have hall : ∀ c ∈ s.toList, decide (c ≠ sep) = true := by
    intro c hc
    rw [decide_eq_true_eq]
    exact fun e => h (e ▸ hc)
  have hsep : decide (sep ≠ sep) = false := by simp
  have hsplit := takeWhile_append_sep (fun c => decide (c ≠ sep)) hall hsep t.toList
  have hlist : (s ++ String.ofList [sep] ++ t).toList = s.toList ++ sep :: t.toList := by
    rw [String.toList_append, String.toList_append, String.toList_ofList, List.append_assoc]
    rfl
  simp only [splitn2, hlist, hsplit.1, hsplit.2, String.ofList_toList]

/-! ### Names of edges -/

theorem untilArrow_isPrefix (cs : List Char) : untilArrow cs <+: cs := by
  fun_induction untilArrow cs with
  | case1 cs => exact List.nil_prefix
  | case2 c cs _ ih => exact List.cons_prefix_cons.mpr ⟨rfl, ih⟩
  | case3 => exact List.nil_prefix

/-- The arrow that an edge text adds is not found earlier than it stands. -/
theorem untilArrow_edge (cs ds : List Char) :
    untilArrow (cs ++ '-' :: '>' :: ds) = untilArrow cs := by
  fun_induction untilArrow cs with
  | case1 cs => rfl
  | case2 c cs hc ih =>
      rw [List.cons_append, untilArrow, ih]
      intro tail hdash htail
      cases cs with
      | nil => simp at htail
      | cons d cs =>
          simp only [List.cons_append, List.cons.injEq] at htail
          exact hc cs hdash (by rw [htail.1])
  | case3 => rfl

theorem toList_beforeArrow_edge (source target : String) :
    (beforeArrow (source ++ "->" ++ target)).toList = untilArrow source.toList := by
  rw [beforeArrow, String.toList_ofList, String.toList_append, String.toList_append,
    List.append_assoc]
  exact untilArrow_edge _ _

end Text
end ProcessingEngine
